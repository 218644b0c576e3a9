import AesdChar.ClientThread

/-!
# A connection, call by call

A client's thread that runs alone makes the calls `handleClient` says it makes. Each loop of the
source is one loop of `Server.lean` and one stretch of calls of the thread, so there is one lemma
for each of them, and a whole connection is one critical section.
-/

namespace AesdChar

open Lib Relation

/-! ### No way back to the beginning -/

theorem dispatch_opened (thread : ClientThread) (state : ClientState) (bytesReceived : Nat) :
    (thread.dispatch state bytesReceived).1.point ≠ .lock ∧
      (thread.dispatch state bytesReceived).1.point ≠ .openDevice := by
  unfold ClientThread.dispatch
  split
  · split <;> simp [ClientThread.goto]
  · simp [ClientThread.goto]

theorem inside_opened {thread : ClientThread} (hholding : thread.point.mode = .holding)
    (kernel : Kernel) :
    (thread.inside kernel).1.point ≠ .lock ∧ (thread.inside kernel).1.point ≠ .openDevice := by
  unfold ClientThread.inside
  cases hcase : thread.point with
  | openDevice => dsimp only; split <;> simp [ClientThread.goto]
  | recv =>
      dsimp only
      split
      · simp [ClientThread.goto]
      · exact dispatch_opened _ _ _
  | write bytesReceived =>
      dsimp only
      split
      · simp [ClientThread.goto]
      · split <;> simp [ClientThread.goto]
  | read loop =>
      dsimp only
      split
      · simp [hcase]
      · cases loop <;> simp only [ClientThread.goto, ReplyLoop.after] <;> split <;> simp
  | unlock failed => cases failed <;> simp [ClientThread.goto]
  | ioctl | sync | rewind | send | closeDevice => simp [ClientThread.goto]
  | lock | cleanup | closeSocket | returned => simp [hcase, Point.mode] at hholding

/-! ### Calls one after the other -/

/-- The thread's calls lead from the one point, with these variables, to the other. -/
def Leads (thread : ClientThread) (point : Point) (state : ClientState) (thread' : ClientThread)
    (point' : Point) (state' : ClientState) : Prop :=
  ReflTransGen handleClientProgram.Inside (thread.goto point state) (thread'.goto point' state')

/-- Where the thread goes on after a pass through the receive loop. -/
def Turn.target : Turn → Point
  | .next _ => .recv
  | .finished _ => .closeDevice false
  | .exited _ => .closeDevice true

section Calls

variable {thread : ClientThread} {point : Point} {state : ClientState}

theorem leads_call {next : ClientThread × Kernel} (hholding : point.mode = .holding)
    (hinside : (thread.goto point state).1.inside state.kernel = next) :
    ReflTransGen handleClientProgram.Inside (thread.goto point state) next :=
  .single ⟨hholding, hinside.symm⟩

/-! ### The reply -/

theorem leads_reply_piece {loop : ReplyLoop} {outcome : ReadOutcome}
    (hread : aesdRead (thread.env.read state.clock) state.kernel bufferSize state.fPos =
      some outcome) (hpositive : 0 < outcome.ret) :
    Leads thread (.read loop) state thread (.read loop)
      ((state.settle outcome.toOutcome).send thread.env (outcome.buf.take outcome.ret.toNat)) := by
  have hstep : Leads thread (.read loop) state thread
      (.send loop (outcome.buf.take outcome.ret.toNat)) (state.settle outcome.toOutcome) := by
    refine leads_call rfl ?_
    simp only [ClientThread.inside, ClientThread.goto, ClientThread.state, hread, if_pos hpositive]
  exact hstep.trans (leads_call rfl rfl)

theorem leads_reply_end {loop : ReplyLoop} {outcome : ReadOutcome}
    (hread : aesdRead (thread.env.read state.clock) state.kernel bufferSize state.fPos =
      some outcome) (hend : ¬ 0 < outcome.ret) :
    Leads thread (.read loop) state thread loop.after (state.settle outcome.toOutcome) := by
  refine leads_call rfl ?_
  simp only [ClientThread.inside, ClientThread.goto, ClientThread.state, hread, if_neg hend]

theorem leads_replyLoop (loop : ReplyLoop) {fuel : Nat} {state after : ClientState}
    (hreply : replyLoop thread.env fuel state = some after) :
    Leads thread (.read loop) state thread loop.after after := by
  induction fuel generalizing state with
  | zero => cases hreply
  | succ fuel ih =>
      rw [replyLoop] at hreply
      cases hread : aesdRead (thread.env.read state.clock) state.kernel bufferSize state.fPos with
      | none => simp [hread] at hreply
      | some outcome =>
          simp only [hread] at hreply
          by_cases hpositive : 0 < outcome.ret
          · rw [if_pos hpositive] at hreply
            exact (leads_reply_piece hread hpositive).trans (ih hreply)
          · rw [if_neg hpositive, Option.some.injEq] at hreply
            rw [← hreply]
            exact leads_reply_end hread hpositive

theorem leads_ioctl (seekto : AesdSeekto) :
    Leads thread (.ioctl seekto) state thread .sync (state.seek (aesdUnlockedIoctl
      (thread.env.ioctl state.clock) state.kernel state.fPos AESDCHAR_IOCSEEKTO seekto)) :=
  leads_call rfl rfl

theorem leads_sync (thread : ClientThread) (state : ClientState) :
    Leads thread .sync state thread (.read .seek) (state.seek (aesdLlseek
      (thread.env.llseek state.clock) state.kernel state.fPos 0 SEEK_CUR)) := leads_call rfl rfl

theorem leads_rewind (thread : ClientThread) (state : ClientState) :
    Leads thread .rewind state thread (.read .packet) (state.seek (aesdLlseek
      (thread.env.llseek state.clock) state.kernel state.fPos 0 SEEK_SET)) := leads_call rfl rfl

theorem leads_seekReply {seekto : AesdSeekto} {after : ClientState}
    (hreply : seekReply thread.env state seekto = some after) :
    Leads thread (.ioctl seekto) state thread .recv after :=
  (leads_ioctl seekto).trans ((leads_sync thread _).trans (leads_replyLoop .seek hreply))

/-! ### The receive loop -/

theorem leads_handleChunk {chunk : Bytes} {chunks : List Bytes} {turn : Turn}
    (hchunks : thread.chunks = chunk :: chunks)
    (hturn : handleChunk thread.env state chunk = some turn) :
    Leads thread .recv state { thread with chunks := chunks } turn.target turn.state := by
  have hrecv : (thread.goto .recv state).1.inside state.kernel =
      { thread with chunks := chunks }.dispatch (state.receive chunk) chunk.length := by
    simp only [ClientThread.inside, ClientThread.goto, hchunks]
    rfl
  rw [handleChunk] at hturn
  by_cases hseek : IsSeekCommand (state.receive chunk).buffer
  · rw [if_pos hseek] at hturn
    simp only [ClientThread.dispatch, if_pos hseek] at hrecv
    cases hscan : scanSeekto (cString ((state.receive chunk).buffer.drop ioctlPrefixLen)) with
    | none =>
        simp only [hscan, Option.some.injEq] at hturn hrecv
        rw [← hturn]
        exact leads_call rfl hrecv
    | some seekto =>
        simp only [hscan, Option.map_eq_some_iff] at hturn hrecv
        obtain ⟨after, hreply, rfl⟩ := hturn
        exact (leads_call rfl hrecv).trans (leads_seekReply hreply)
  · rw [if_neg hseek] at hturn
    simp only [ClientThread.dispatch, if_neg hseek] at hrecv
    refine (leads_call rfl hrecv).trans ?_
    set received := state.receive chunk with hreceived
    set outcome := aesdWrite (thread.env.write received.clock) received.kernel
      (some (received.buffer.take chunk.length)) received.fPos with houtcome
    have hwrite : ∀ next, (if outcome.ret ≠ chunk.length then
          { thread with chunks := chunks }.goto (.closeDevice true) (received.settle outcome)
        else if newline ∈ received.buffer.take chunk.length then
          { thread with chunks := chunks }.goto .rewind (received.settle outcome)
        else { thread with chunks := chunks }.goto .recv (received.settle outcome)) = next →
        ReflTransGen handleClientProgram.Inside
          ({ thread with chunks := chunks }.goto (.write chunk.length) received) next :=
      fun next hnext => leads_call rfl hnext
    by_cases hret : outcome.ret ≠ chunk.length
    · rw [if_pos hret, Option.some.injEq] at hturn
      rw [← hturn]
      exact hwrite _ (if_pos hret)
    rw [if_neg hret] at hturn
    by_cases hnewline : newline ∈ received.buffer.take chunk.length
    · have hnewline' : newline ∈ (received.settle outcome).buffer.take chunk.length := hnewline
      rw [if_pos hnewline', Option.map_eq_some_iff] at hturn
      obtain ⟨after, hreply, rfl⟩ := hturn
      have hrewind := hwrite _ ((if_neg hret).trans (if_pos hnewline))
      exact hrewind.trans ((leads_rewind _ _).trans (leads_replyLoop .packet hreply))
    · have hnewline' : newline ∉ (received.settle outcome).buffer.take chunk.length := hnewline
      rw [if_neg hnewline', Option.some.injEq] at hturn
      rw [← hturn]
      exact hwrite _ ((if_neg hret).trans (if_neg hnewline))

theorem leads_recvLoop {chunks : List Bytes} {thread : ClientThread} {state : ClientState}
    {turn : Turn} (hchunks : thread.chunks = chunks)
    (hloop : recvLoop thread.env chunks state = some turn) :
    ∃ thread', Leads thread .recv state thread' (.closeDevice turn.failed) turn.state := by
  induction chunks generalizing thread state with
  | nil =>
      obtain rfl := Option.some.inj hloop
      refine ⟨thread, leads_call rfl ?_⟩
      simp only [ClientThread.inside, ClientThread.goto, hchunks]
      rfl
  | cons chunk chunks ih =>
      rw [recvLoop] at hloop
      cases hchunk : handleChunk thread.env state chunk with
      | none => simp [hchunk] at hloop
      | some first =>
          have hleads := leads_handleChunk hchunks hchunk
          cases first with
          | next state' =>
              simp only [hchunk] at hloop
              have hchunks' : { thread with chunks := chunks }.chunks = chunks := rfl
              obtain ⟨thread', hrest⟩ := ih hchunks' hloop
              exact ⟨thread', hleads.trans hrest⟩
          | finished state' =>
              simp only [hchunk, Option.some.injEq] at hloop
              subst hloop
              exact ⟨_, hleads⟩
          | exited state' =>
              simp only [hchunk, Option.some.injEq] at hloop
              subst hloop
              exact ⟨_, hleads⟩

end Calls

/-! ### The whole of handle_client -/

/-- Where the thread goes on without the mutex. -/
def Turn.left (turn : Turn) : Point := if turn.failed then .cleanup else .closeSocket

theorem leads_leave (thread : ClientThread) (state : ClientState) (turn : Turn) :
    Leads thread (.unlock turn.failed) state thread turn.left state := leads_call rfl rfl

/-- **A connection served in one go is one critical section** of the thread that runs call by call:
it does the same to the driver, sends the same bytes and leaves the same way. -/
theorem handleClient_section {connection : Connection} {kernel : Kernel} {turn : Turn}
    (hturn : handleClient connection.env kernel connection.stack connection.chunks = some turn) :
    ∃ stop, handleClientProgram.Section connection.thread kernel stop turn.state.kernel ∧
      stop.sent = turn.state.sent ∧ stop.point = turn.left := by
  suffices hleads : ∃ thread', Leads connection.thread .openDevice
      ⟨kernel, 0, connection.stack, [], 0⟩ thread' turn.left turn.state by
    obtain ⟨thread', hleads⟩ := hleads
    refine ⟨(thread'.goto turn.left turn.state).1, ⟨rfl, hleads, ?_⟩, rfl, rfl⟩
    cases hfailed : turn.failed <;> simp [Turn.left, hfailed, handleClientProgram,
      ClientThread.goto, Point.mode]
  rw [handleClient] at hturn
  by_cases hopened : connection.env.opened = false
  · rw [if_pos hopened, Option.some.injEq] at hturn
    subst hturn
    have hopen : Leads connection.thread .openDevice ⟨kernel, 0, connection.stack, [], 0⟩
        connection.thread (.unlock true) ⟨kernel, 0, connection.stack, [], 0⟩ := by
      refine leads_call rfl (if_neg ?_)
      simpa [ClientThread.goto, Connection.thread] using hopened
    exact ⟨_, hopen.trans (leads_leave _ _ (.exited _))⟩
  · rw [if_neg hopened] at hturn
    have hopen : Leads connection.thread .openDevice ⟨kernel, 0, connection.stack, [], 0⟩
        connection.thread .recv ⟨kernel, 0, connection.stack, [], 0⟩ := by
      refine leads_call rfl (if_pos ?_)
      simpa [ClientThread.goto, Connection.thread] using hopened
    have hchunks : connection.thread.chunks = connection.chunks := rfl
    obtain ⟨thread', hloop⟩ := leads_recvLoop hchunks hturn
    have hclose : Leads thread' (.closeDevice turn.failed) turn.state thread'
        (.unlock turn.failed) turn.state := leads_call rfl rfl
    exact ⟨thread', hopen.trans (hloop.trans (hclose.trans (leads_leave _ _ turn)))⟩

end AesdChar
