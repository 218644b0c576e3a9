import AesdChar.Proof.Reply

/-!
# One client, whatever fails

Any of the calls a client's thread makes may fail. It always comes to an end, and what it has done
to the device is to write the chunks it took for data, one after the other, up to the first with a
newline or the first that could not be written.
-/

namespace AesdChar

open Lib

/-- The chunks that are taken for data, up to the first with a newline. -/
def dataChunks : (buffer : Bytes) → List Bytes → List Bytes
  | _, [] => []
  | buffer, chunk :: chunks =>
      if IsSeekCommand (overlay buffer chunk) then dataChunks (overlay buffer chunk) chunks
      else if newline ∈ chunk then [chunk]
      else chunk :: dataChunks (overlay buffer chunk) chunks

def Connection.dataChunks (connection : Connection) : List Bytes :=
  AesdChar.dataChunks connection.stack connection.chunks

/-! ### The reply -/

section Reply

variable {entries : List AesdBufferEntry} {log : Log} {lost : Finset Ptr}

/-- A read always returns and leaves a position that fits. -/
theorem Represents.aesdRead_returns {kernel : Kernel} (h : Represents kernel entries log lost)
    (env : ReadEnv) (count : Nat) {fPos : Int} (hrange : InRange fPos) :
    ∃ outcome, aesdRead env kernel count fPos = some outcome ∧ outcome.kernel = kernel ∧
      InRange outcome.fPos := by
  obtain ⟨hlow, hhigh⟩ := hrange
  rcases lt_or_ge fPos 0 with hneg | hnonneg
  · obtain ⟨ret, -, hread⟩ := h.aesdRead_of_neg env count hlow hneg
    exact ⟨_, hread, rfl, hlow, hhigh⟩
  · obtain ⟨pos, rfl⟩ := Int.eq_ofNat_of_zero_le hnonneg
    have hlt : pos < 2 ^ 63 := by omega
    obtain ⟨copied, ret, hread, hcopied, -⟩ := h.aesdRead_spec env count hlt
    have hcontent := h.length_content_lt
    exact ⟨_, hread, rfl, ⟨by simp only; omega, by simp only; omega⟩⟩

theorem inRange_settle {state : ClientState} {outcome : Outcome} (hrange : InRange state.fPos)
    (houtcome : InRange outcome.fPos) : InRange (state.settle outcome).fPos := by
  unfold ClientState.settle
  split
  · exact houtcome
  · exact hrange

theorem replyLoop_inRange {env : ClientEnv} {fuel : Nat} {state after : ClientState}
    (h : Represents state.kernel entries log lost) (hrange : InRange state.fPos)
    (hloop : replyLoop env fuel state = some after) : InRange after.fPos := by
  induction fuel generalizing state with
  | zero => cases hloop
  | succ fuel ih =>
      obtain ⟨outcome, hread, hkernel, hfits⟩ :=
        h.aesdRead_returns (env.read state.clock) bufferSize hrange
      rw [replyLoop, hread] at hloop
      simp only at hloop
      by_cases hpositive : 0 < outcome.ret
      · rw [if_pos hpositive] at hloop
        set next := (state.settle outcome.toOutcome).send env (outcome.buf.take outcome.ret.toNat)
        have hnext : Represents next.kernel entries log lost := by
          change Represents outcome.kernel entries log lost
          rw [hkernel]
          exact h
        have hfits' : InRange next.fPos := inRange_settle hrange hfits
        exact ih hnext hfits' hloop
      · rw [if_neg hpositive, Option.some.injEq] at hloop
        rw [← hloop]
        exact inRange_settle hrange hfits

/-- What a reply leaves unchanged, in any environment. -/
structure Replied (before after : ClientState) : Prop where
  kernel_eq : after.kernel = before.kernel
  buffer_eq : after.buffer = before.buffer
  inRange : InRange after.fPos

theorem Represents.reply_returns {state : ClientState}
    (h : Represents state.kernel entries log lost) (env : ClientEnv) (hrange : InRange state.fPos) :
    ∃ after, reply env state = some after ∧ Replied state after := by
  obtain ⟨after, count, hreply, hsends, -⟩ := h.reply_received env hrange
  exact ⟨after, hreply, hsends.kernel_eq, hsends.buffer_eq, replyLoop_inRange h hrange hreply⟩

theorem inRange_zero : InRange 0 := ⟨by decide, by decide⟩

theorem Represents.seekReply_returns {state : ClientState}
    (h : Represents state.kernel entries log lost) (env : ClientEnv) (hrange : InRange state.fPos)
    (seekto : AesdSeekto) :
    ∃ after, seekReply env state seekto = some after ∧ Replied state after := by
  set afterIoctl := state.seek (aesdUnlockedIoctl (env.ioctl state.clock) state.kernel state.fPos
    AESDCHAR_IOCSEEKTO seekto) with hioctl
  set afterSync := afterIoctl.seek (aesdLlseek (env.llseek afterIoctl.clock) afterIoctl.kernel
    afterIoctl.fPos 0 SEEK_CUR) with hsync
  have hkernel : afterSync.kernel = state.kernel := by simp [hsync, hioctl]
  have hfits : InRange afterSync.fPos :=
    aesdLlseek_inRange _ _ (aesdUnlockedIoctl_inRange _ _ hrange _ _) inRange_zero _
  have hrep : Represents afterSync.kernel entries log lost := by
    rw [hkernel]
    exact h
  obtain ⟨after, hreply, hreplied⟩ := hrep.reply_returns env hfits
  exact ⟨after, hreply, hreplied.kernel_eq.trans hkernel, hreplied.buffer_eq, hreplied.inRange⟩

/-- The reply to a packet starts with a seek to the beginning, which may fail. -/
theorem Represents.rewound_returns {state : ClientState}
    (h : Represents state.kernel entries log lost) (env : ClientEnv) (hrange : InRange state.fPos) :
    ∃ after, reply env (state.seek
        (aesdLlseek (env.llseek state.clock) state.kernel state.fPos 0 SEEK_SET)) = some after ∧
      Replied state after := by
  set rewound := state.seek
    (aesdLlseek (env.llseek state.clock) state.kernel state.fPos 0 SEEK_SET) with hrewound
  have hkernel : rewound.kernel = state.kernel := by simp [hrewound]
  have hrep : Represents rewound.kernel entries log lost := by
    rw [hkernel]
    exact h
  obtain ⟨after, hreply, hreplied⟩ :=
    hrep.reply_returns env (aesdLlseek_inRange _ _ hrange inRange_zero _)
  exact ⟨after, hreply, hreplied.kernel_eq.trans hkernel, hreplied.buffer_eq, hreplied.inRange⟩

end Reply

/-! ### One chunk -/

/-- What a chunk does to a log, and how its pass through the receive loop ends. -/
inductive ChunkCase (env : ClientEnv) (before : ClientState) (chunk : Bytes) (log : Log)
    (lost : Finset Ptr) : Turn → Prop
  | seek {state : ClientState} (hseek : IsSeekCommand (overlay before.buffer chunk))
      (h : Refines state.kernel log lost) : ChunkCase env before chunk log lost (.next state)
  | refused {state : ClientState} (hdata : ¬ IsSeekCommand (overlay before.buffer chunk))
      (hadmits : ¬ Admits (env.write before.clock) before.kernel chunk)
      (h : Refines state.kernel log lost) : ChunkCase env before chunk log lost (.exited state)
  | extended {state : ClientState} (hdata : ¬ IsSeekCommand (overlay before.buffer chunk))
      (hnewline : newline ∉ chunk) (h : Refines state.kernel (log.write chunk .extended) lost) :
      ChunkCase env before chunk log lost (.next state)
  | committed {state : ClientState} (hdata : ¬ IsSeekCommand (overlay before.buffer chunk))
      (hnewline : newline ∈ chunk) {lost' : Finset Ptr}
      (h : Refines state.kernel (log.write chunk .committed) lost') :
      ChunkCase env before chunk log lost (.finished state)
  | dropped {state : ClientState} (hdata : ¬ IsSeekCommand (overlay before.buffer chunk))
      (hnewline : newline ∈ chunk) (hfail : (env.write before.clock).addEntryKmalloc = false)
      {lost' : Finset Ptr} (h : Refines state.kernel (log.write chunk .dropped) lost') :
      ChunkCase env before chunk log lost (.finished state)

theorem aesdWrite_inRange {kernel : Kernel} {log : Log} {lost : Finset Ptr}
    (h : Refines kernel log lost) (env : WriteEnv) (buf : Option Bytes) {fPos : Int}
    (hrange : InRange fPos) : InRange (aesdWrite env kernel buf fPos).fPos := by
  obtain ⟨hcase, -⟩ := aesdWrite_cases h env buf fPos
  cases hcase with
  | refused _ _ hpos _ _ => rw [hpos]; exact hrange
  | extended _ _ _ hpos _ _ => rw [hpos]; exact loffT_inRange _
  | committed _ _ _ _ hpos _ _ _ _ _ => rw [hpos]; exact loffT_inRange _
  | dropped _ _ _ _ hpos _ _ _ _ => rw [hpos]; exact loffT_inRange _

theorem handleChunk_of_written (env : ClientEnv) {state : ClientState} {chunk : Bytes}
    (hdata : ¬ IsSeekCommand (overlay state.buffer chunk)) :
    handleChunk env state chunk =
      let written := aesdWrite (env.write state.clock) state.kernel (some chunk) state.fPos
      let settled := (state.receive chunk).settle written
      if written.ret ≠ chunk.length then some (.exited settled)
      else if newline ∈ chunk then
        (reply env (settled.seek (aesdLlseek (env.llseek settled.clock) settled.kernel settled.fPos
          0 SEEK_SET))).map .finished
      else some (.next settled) := by
  simp only [handleChunk, ClientState.receive_buffer, hdata, if_false, take_overlay,
    ClientState.settle_buffer]
  rfl

/-- How a pass through the receive loop leaves the thread, apart from the log. -/
structure Turned (before : ClientState) (chunk : Bytes) (after : ClientState) : Prop where
  buffer_eq : after.buffer = overlay before.buffer chunk
  limit_eq : after.kernel.heap.limit = before.kernel.heap.limit
  inRange : InRange after.fPos

theorem Replied.turned {before state after : ClientState} {chunk : Bytes}
    (hturned : Turned before chunk state) (hreplied : Replied state after) :
    Turned before chunk after where
  buffer_eq := hreplied.buffer_eq.trans hturned.buffer_eq
  limit_eq := by rw [hreplied.kernel_eq, hturned.limit_eq]
  inRange := hreplied.inRange

/-- **Every chunk**, in any environment. -/
theorem handleChunk_cases (env : ClientEnv) {state : ClientState} {log : Log} {lost : Finset Ptr}
    (h : Refines state.kernel log lost) (hrange : InRange state.fPos) (chunk : Bytes) :
    ∃ turn, handleChunk env state chunk = some turn ∧ ChunkCase env state chunk log lost turn ∧
      Turned state chunk turn.state := by
  set received := state.receive chunk with hreceived
  by_cases hseek : IsSeekCommand (overlay state.buffer chunk)
  · obtain ⟨⟨entries, hrep⟩, hpending⟩ := h
    have hturned : Turned state chunk received := ⟨rfl, rfl, hrange⟩
    simp only [handleChunk, ClientState.receive_buffer, hseek, if_true]
    cases scanSeekto (cString ((overlay state.buffer chunk).drop ioctlPrefixLen)) with
    | none => exact ⟨_, rfl, .seek hseek ⟨⟨entries, hrep⟩, hpending⟩, hturned⟩
    | some seekto =>
        have hrep' : Represents received.kernel entries log lost := hrep
        obtain ⟨after, hreply, hreplied⟩ := hrep'.seekReply_returns env hrange seekto
        simp only [← hreceived, hreply, Option.map_some]
        refine ⟨_, rfl, .seek hseek ⟨⟨entries, ?_⟩, hpending⟩, hreplied.turned hturned⟩
        rw [hreplied.kernel_eq]
        exact hrep
  · have hchunk := handleChunk_of_written env hseek
    obtain ⟨hcase, hlimit⟩ := aesdWrite_cases h (env.write state.clock) (some chunk) state.fPos
    have hfits := aesdWrite_inRange h (env.write state.clock) (some chunk) hrange
    set written := aesdWrite (env.write state.clock) state.kernel (some chunk) state.fPos
    set settled := received.settle written with hsettled
    simp only at hchunk
    have hturned : Turned state chunk settled := ⟨rfl, hlimit, inRange_settle hrange hfits⟩
    -- a written packet is answered, whatever became of the command
    have hanswered : ∀ {log' : Log} {lost' : Finset Ptr}, Refines settled.kernel log' lost' →
        ∃ after, reply env (settled.seek
            (aesdLlseek (env.llseek settled.clock) settled.kernel settled.fPos 0 SEEK_SET)) =
          some after ∧ Replied settled after ∧ Refines after.kernel log' lost' := by
      rintro log' lost' ⟨⟨entries, hrep⟩, hpending⟩
      obtain ⟨after, hreply, hreplied⟩ := hrep.rewound_returns env hturned.inRange
      refine ⟨after, hreply, hreplied, ?_⟩
      rw [hreplied.kernel_eq]
      exact ⟨⟨entries, hrep⟩, hpending⟩
    cases hcase with
    | refused hadmits hret _ _ hrefines =>
        have hne : written.ret ≠ chunk.length := by omega
        exact ⟨_, hchunk.trans (if_pos hne), .refused hseek hadmits hrefines, hturned⟩
    | extended _ hnewline hret _ _ hrefines =>
        rw [Option.getD_some] at hret hnewline
        rw [if_neg (not_not_intro hret), if_neg hnewline] at hchunk
        exact ⟨_, hchunk, .extended hseek hnewline hrefines, hturned⟩
    | committed _ hnewline _ hret _ _ _ _ _ hrefines =>
        obtain ⟨after, hreply, hreplied, hafter⟩ := hanswered hrefines
        rw [Option.getD_some] at hret hnewline
        rw [if_neg (not_not_intro hret), if_pos hnewline, hreply] at hchunk
        exact ⟨_, hchunk, .committed hseek hnewline hafter, hreplied.turned hturned⟩
    | dropped _ hnewline hfail hret _ _ _ _ hrefines =>
        obtain ⟨after, hreply, hreplied, hafter⟩ := hanswered hrefines
        rw [Option.getD_some] at hret hnewline
        rw [if_neg (not_not_intro hret), if_pos hnewline, hreply] at hchunk
        exact ⟨_, hchunk, .dropped hseek hnewline hfail hafter, hreplied.turned hturned⟩

/-! ### A whole connection -/

/-- **The receive loop** ends, having written the data chunks it got to. -/
theorem recvLoop_serves (env : ClientEnv) (chunks : List Bytes) {state : ClientState} {log : Log}
    {lost : Finset Ptr} (h : Refines state.kernel log lost) (hrange : InRange state.fPos) :
    ∃ turn log' lost', recvLoop env chunks state = some turn ∧
      log.Serves (dataChunks state.buffer chunks) turn.failed log' ∧
      Refines turn.state.kernel log' lost' := by
  induction chunks generalizing state log lost with
  | nil => exact ⟨_, log, lost, rfl, .ended log, h⟩
  | cons chunk chunks ih =>
      obtain ⟨turn, hturn, hcase, hturned⟩ := handleChunk_cases env h hrange chunk
      rw [recvLoop, hturn, dataChunks]
      cases hcase with
      | @seek state' hseek hrefines =>
          obtain ⟨turn', log', lost', hloop, hserves, hrefines'⟩ := ih hrefines hturned.inRange
          rw [if_pos hseek]
          rw [show state'.buffer = overlay state.buffer chunk from hturned.buffer_eq] at hserves
          exact ⟨turn', log', lost', hloop, hserves, hrefines'⟩
      | refused hdata hadmits hrefines => exact ⟨_, log, lost, rfl, .failed log _, hrefines⟩
      | @extended state' hdata hnewline hrefines =>
          obtain ⟨turn', log', lost', hloop, hserves, hrefines'⟩ := ih hrefines hturned.inRange
          rw [if_neg hdata, if_neg hnewline]
          rw [show state'.buffer = overlay state.buffer chunk from hturned.buffer_eq] at hserves
          exact ⟨turn', log', lost', hloop, .extended hnewline hserves, hrefines'⟩
      | committed hdata hnewline hrefines =>
          rw [if_neg hdata, if_pos hnewline]
          exact ⟨_, _, _, rfl, .committed log hnewline, hrefines⟩
      | dropped hdata hnewline hfail hrefines =>
          rw [if_neg hdata, if_pos hnewline]
          exact ⟨_, _, _, rfl, .dropped log hnewline, hrefines⟩

theorem handleClient_serves {kernel : Kernel} {log : Log} {lost : Finset Ptr}
    (h : Refines kernel log lost) (connection : Connection) :
    ∃ turn log' lost',
      handleClient connection.env kernel connection.stack connection.chunks = some turn ∧
      log.Serves connection.dataChunks turn.failed log' ∧ Refines turn.state.kernel log' lost' := by
  rw [handleClient]
  by_cases hopened : connection.env.opened = false
  · rw [if_pos hopened]
    exact ⟨_, log, lost, rfl, .failed log _, h⟩
  · rw [if_neg hopened]
    have hstart : Refines (ClientState.kernel ⟨kernel, 0, connection.stack, [], 0⟩) log lost := h
    exact recvLoop_serves connection.env connection.chunks hstart inRange_zero

theorem serve_serves {kernel : Kernel} {log : Log} {lost : Finset Ptr} (h : Refines kernel log lost)
    (connection : Connection) : ∃ failed log' lost', log.Serves connection.dataChunks failed log' ∧
      Refines (serve kernel connection) log' lost' := by
  obtain ⟨turn, log', lost', hclient, hserves, hrefines⟩ := handleClient_serves h connection
  rw [serve, hclient]
  exact ⟨turn.failed, log', lost', hserves, hrefines⟩

/-- **Any number of connections, whatever fails**: the device holds what the clients sent as data,
client by client and chunk by chunk, except for what the server gave up on. -/
theorem serveAll_serves {kernel : Kernel} {log : Log} {lost : Finset Ptr}
    (h : Refines kernel log lost) (connections : List Connection) :
    ∃ log' lost', log.ServesAll (connections.map Connection.dataChunks) log' ∧
      Refines (serveAll kernel connections) log' lost' := by
  induction connections generalizing kernel log lost with
  | nil => exact ⟨log, lost, .nil log, h⟩
  | cons connection connections ih =>
      obtain ⟨failed, log', lost', hserves, hserve⟩ := serve_serves h connection
      obtain ⟨log'', lost'', hrest, hall⟩ := ih hserve
      exact ⟨log'', lost'', .cons hserves hrest, hall⟩

end AesdChar
