import AesdChar.Proof.Llseek
import AesdChar.Proof.Reply

/-!
# One client

While everything succeeds, a connection's data chunks extend the pending text, the chunk with a
newline commits it, and the reply is the content from the descriptor's position on. Seek commands
change nothing but that position.
-/

namespace AesdChar

open Lib

/-- No call fails, and each `send` accepts what it is given. -/
structure ClientEnv.Succeeds (env : ClientEnv) : Prop where
  opened : env.opened = true
  write : ∀ t, (env.write t).kmalloc = true ∧ (env.write t).copyFromUser = true ∧
    (env.write t).lock = true ∧ (env.write t).krealloc ≠ .fail ∧
    (env.write t).addEntryKmalloc = true
  read : ∀ t, (env.read t).lock = true ∧ ∀ i, (env.read t).copyToUser i = true
  llseek : ∀ t, env.llseek t = true
  send : ∀ t, ∃ accepted, env.send t = some accepted ∧ bufferSize ≤ accepted

/-- No call of a reply fails. -/
structure ClientEnv.Replies (env : ClientEnv) : Prop where
  read : ∀ t, (env.read t).Succeeds
  send : ∀ t, ∃ accepted, env.send t = some accepted ∧ bufferSize ≤ accepted

theorem ClientEnv.Succeeds.replies {env : ClientEnv} (henv : env.Succeeds) : env.Replies :=
  ⟨henv.read, henv.send⟩

/-! ### The reply -/

/-- **The reply is the content from the position on**, wherever that is. -/
theorem reply_sends {env : ClientEnv} (henv : env.Replies) (state : ClientState)
    {entries : List AesdBufferEntry} {log : Log} {lost : Finset Ptr}
    (h : Represents state.kernel entries log lost) (hrange : InRange state.fPos) :
    ∃ after, reply env state = some after ∧
      Sends state (state.kernel.contentFrom state.fPos) after := by
  obtain ⟨after, count, hreply, hsends, hcount⟩ := h.reply_received env hrange
  have hall : ∀ i, bufferSize ≤ (state.delivery env).accept i := by
    intro i
    obtain ⟨accepted, hsend, hle⟩ := henv.send (state.clock + 2 * i + 1)
    simp only [ClientState.delivery, hsend, Option.getD_some, hle]
  -- the reads end where there is nothing left to read
  have hend : (state.delivery env).block count = [] := by
    by_contra hne
    refine absurd ((hcount count).mpr fun j hj => ?_) (Nat.lt_irrefl count)
    rcases Nat.lt_or_eq_of_le hj with hlt | rfl
    · exact (hcount j).mp hlt j le_rfl
    · exact ⟨hne, (henv.read _).1, fun copy _ => (henv.read _).2 copy⟩
  refine ⟨after, hreply, ?_⟩
  have hsize : 0 < bufferSize := by decide
  have hwhole : (state.delivery env).received count = state.kernel.contentFrom state.fPos :=
    (state.delivery env).received_eq_whole hsize hall hend
  rw [← hwhole]
  exact hsends

/-! ### One chunk -/

theorem ClientEnv.Succeeds.admits {env : ClientEnv} (henv : env.Succeeds) {kernel : Kernel}
    {entries : List AesdBufferEntry} {log : Log} {lost : Finset Ptr}
    (h : Represents kernel entries log lost) {chunk : Bytes} (hne : chunk ≠ [])
    (hroom : log.pending.length + chunk.length ≤ kernel.heap.limit) (t : Nat) :
    Admits (env.write t) kernel chunk := by
  obtain ⟨hkmalloc, hcopy, hlock, hkrealloc, -⟩ := henv.write t
  have hsize := h.accumulates.size_eq
  exact ⟨hne, ⟨hkmalloc, by omega⟩, hcopy, hlock, hkrealloc, by omega⟩

section Chunk

variable {env : ClientEnv} {state : ClientState} {log : Log} {lost : Finset Ptr} {chunk : Bytes}

/-- A seek command does not touch the device, whether it can be parsed or not. -/
theorem handleChunk_of_seek (henv : env.Succeeds) (h : Refines state.kernel log lost)
    (hseek : IsSeekCommand (overlay state.buffer chunk)) :
    ∃ state', handleChunk env state chunk = some (.next state') ∧ state'.kernel = state.kernel ∧
      state'.buffer = overlay state.buffer chunk := by
  obtain ⟨⟨entries, hrep⟩, -⟩ := h
  simp only [handleChunk, ClientState.receive_buffer, hseek, if_true]
  cases scanSeekto (cString ((overlay state.buffer chunk).drop ioctlPrefixLen)) with
  | none => exact ⟨_, rfl, rfl, rfl⟩
  | some seekto =>
      -- the ioctl may fail, but then the position is put back inside the content
      set afterIoctl := (state.receive chunk).seek (aesdUnlockedIoctl (env.ioctl state.clock)
        state.kernel state.fPos AESDCHAR_IOCSEEKTO seekto) with hafter
      have hkernel : afterIoctl.kernel = state.kernel := by simp [hafter]
      have hrep' : Represents (afterIoctl.seek (aesdLlseek true afterIoctl.kernel afterIoctl.fPos 0
          SEEK_CUR)).kernel entries log lost := by
        rw [ClientState.seek_kernel, aesdLlseek_kernel, hkernel]
        exact hrep
      have hrange :
          InRange (aesdLlseek true afterIoctl.kernel afterIoctl.fPos 0 SEEK_CUR).fPos := by
        obtain ⟨pos, hpos, hle⟩ := hrep.aesdLlseek_sync afterIoctl.fPos
        have hcontent := hrep.length_content_lt
        rw [hkernel, hpos]
        exact ⟨by omega, by omega⟩
      obtain ⟨after, hreply, hsends⟩ := reply_sends henv.replies _ hrep' hrange
      have hseekReply : seekReply env (state.receive chunk) seekto = reply env
          (afterIoctl.seek (aesdLlseek true afterIoctl.kernel afterIoctl.fPos 0 SEEK_CUR)) := by
        rw [← henv.llseek afterIoctl.clock]
        rfl
      simp only [hseekReply, hreply, Option.map_some]
      exact ⟨_, rfl, by simp [hsends.kernel_eq, hkernel], by simp [hsends.buffer_eq, hafter]⟩

theorem handleChunk_of_not_seek (henv : env.Succeeds)
    (hdata : ¬ IsSeekCommand (overlay state.buffer chunk)) :
    handleChunk env state chunk =
      let written := aesdWrite (env.write state.clock) state.kernel (some chunk) state.fPos
      if written.ret ≠ chunk.length then some (.exited ((state.receive chunk).settle written))
      else if newline ∈ chunk then (reply env (((state.receive chunk).settle written).seek
        ⟨0, written.kernel, 0⟩)).map .finished
      else some (.next ((state.receive chunk).settle written)) := by
  simp only [handleChunk, ClientState.receive_buffer, hdata, if_false, take_overlay,
    ClientState.settle_buffer, henv.llseek, aesdLlseek_rewind]
  rfl

theorem handleChunk_of_data (henv : env.Succeeds) (h : Refines state.kernel log lost)
    (hdata : ¬ IsSeekCommand (overlay state.buffer chunk)) (hne : chunk ≠ [])
    (hroom : log.pending.length + chunk.length ≤ state.kernel.heap.limit)
    (hnewline : newline ∉ chunk) :
    ∃ state', handleChunk env state chunk = some (.next state') ∧
      Refines state'.kernel { log with pending := log.pending ++ chunk } lost ∧
      state'.kernel.heap.limit = state.kernel.heap.limit ∧
      state'.buffer = overlay state.buffer chunk ∧ state'.sent = state.sent := by
  have hadmits : Admits (env.write state.clock) state.kernel chunk := by
    obtain ⟨⟨entries, hrep⟩, -⟩ := h
    exact henv.admits hrep hne hroom state.clock
  obtain ⟨hcase, hlimit⟩ := aesdWrite_cases h (env.write state.clock) (some chunk) state.fPos
  rw [handleChunk_of_not_seek henv hdata]
  cases hcase with
  | refused hnot _ _ _ _ => exact absurd hadmits hnot
  | extended _ _ hret _ _ hrefines =>
      rw [Option.getD_some] at hret
      simp only [if_neg (not_not_intro hret), if_neg hnewline]
      exact ⟨_, rfl, hrefines, hlimit, rfl, rfl⟩
  | committed _ hmem _ _ _ _ _ _ _ _ => exact absurd hmem hnewline
  | dropped _ hmem _ _ _ _ _ _ _ => exact absurd hmem hnewline

/-- A data chunk with a newline commits the pending text, and the reply is the whole device. -/
theorem handleChunk_of_last (henv : env.Succeeds) (h : Refines state.kernel log lost)
    (hdata : ¬ IsSeekCommand (overlay state.buffer chunk))
    (hroom : log.pending.length + chunk.length ≤ state.kernel.heap.limit)
    (hnewline : newline ∈ chunk) :
    ∃ state' lost', handleChunk env state chunk = some (.finished state') ∧
      Refines state'.kernel ⟨log.committed ++ [log.pending ++ chunk], []⟩ lost' ∧
      state'.sent = state.sent ++ state'.kernel.content := by
  have hadmits : Admits (env.write state.clock) state.kernel chunk := by
    obtain ⟨⟨entries, hrep⟩, -⟩ := h
    exact henv.admits hrep (List.ne_nil_of_mem hnewline) hroom state.clock
  obtain ⟨hcase, -⟩ := aesdWrite_cases h (env.write state.clock) (some chunk) state.fPos
  have hchunk := handleChunk_of_not_seek henv hdata
  set written := aesdWrite (env.write state.clock) state.kernel (some chunk) state.fPos
  cases hcase with
  | refused hnot _ _ _ _ => exact absurd hadmits hnot
  | extended _ hnot _ _ _ _ => exact absurd hnewline hnot
  | dropped _ _ hfail _ _ _ _ _ _ =>
      rw [(henv.write state.clock).2.2.2.2] at hfail
      cases hfail
  | committed _ _ _ hret _ _ _ _ _ hrefines =>
      rw [Option.getD_some] at hret
      obtain ⟨entries, hrep⟩ := hrefines.1
      set rewound := ((state.receive chunk).settle written).seek ⟨0, written.kernel, 0⟩
      have hrange : InRange 0 := ⟨by decide, by decide⟩
      obtain ⟨after, hreply, hsends⟩ := reply_sends henv.replies rewound hrep hrange
      rw [if_neg (not_not_intro hret), if_pos hnewline, hreply] at hchunk
      have hkernel : after.kernel = written.kernel := hsends.kernel_eq
      rw [← hkernel] at hrefines
      refine ⟨after, _, hchunk, hrefines, ?_⟩
      rw [hsends.sent_eq, hkernel]
      rfl

end Chunk

/-! ### The receive loop -/

/-- No chunk makes the buffer look like a seek command. -/
def AllData (buffer : Bytes) (chunks : List Bytes) : Prop :=
  Along overlay (fun buffer chunk => ¬ IsSeekCommand (overlay buffer chunk)) buffer chunks

theorem recvLoop_cons {env : ClientEnv} {state state' : ClientState} {chunk : Bytes}
    (hchunk : handleChunk env state chunk = some (.next state')) (chunks : List Bytes) :
    recvLoop env (chunk :: chunks) state = recvLoop env chunks state' := by
  rw [recvLoop, hchunk]

/-- **Chunks without a newline** add to the pending text what of them is data, and the loop goes on.
If all of it is data, nothing is sent. -/
theorem recvLoop_spec {env : ClientEnv} (henv : env.Succeeds) {chunks : List Bytes}
    (hchunks : ∀ chunk ∈ chunks, chunk ≠ [] ∧ newline ∉ chunk) (state : ClientState) {log : Log}
    {lost : Finset Ptr} (h : Refines state.kernel log lost)
    (hroom : log.pending.length + chunks.flatten.length ≤ state.kernel.heap.limit) :
    ∃ state' kept, (∀ rest, recvLoop env (chunks ++ rest) state = recvLoop env rest state') ∧
      Refines state'.kernel { log with pending := log.pending ++ kept } lost ∧
      state'.kernel.heap.limit = state.kernel.heap.limit ∧
      state'.buffer = run overlay state.buffer chunks ∧ kept.length ≤ chunks.flatten.length ∧
      (AllData state.buffer chunks → kept = chunks.flatten ∧ state'.sent = state.sent) ∧
      (¬ AllData state.buffer chunks → kept.length < chunks.flatten.length) := by
  induction chunks generalizing state log with
  | nil =>
      refine ⟨state, [], fun rest => rfl, ?_, rfl, rfl, le_rfl, fun _ => ⟨rfl, rfl⟩, fun hnot => ?_⟩
      · rw [List.append_nil]
        exact h
      · exact absurd trivial hnot
  | cons chunk chunks ih =>
      obtain ⟨⟨hne, hnewline⟩, hrest⟩ := List.forall_mem_cons.mp hchunks
      have hpositive : 0 < chunk.length := List.length_pos_iff.mpr hne
      rw [List.flatten_cons, List.length_append] at hroom ⊢
      by_cases hseek : IsSeekCommand (overlay state.buffer chunk)
      · obtain ⟨next, hnext, hkernel, hbuffer⟩ := handleChunk_of_seek henv h hseek
        obtain ⟨state', kept, hloop, hrefines, hlimit, hbuffer', hle, -, -⟩ :=
          ih hrest next (by rw [hkernel]; exact h) (by rw [hkernel]; omega)
        refine ⟨state', kept, fun rest => ?_, hrefines, by rw [hlimit, hkernel], ?_, by omega,
          fun hall => absurd hseek hall.1, fun _ => by omega⟩
        · rw [List.cons_append, recvLoop_cons hnext, hloop]
        · rw [hbuffer', hbuffer, run_cons]
      · obtain ⟨next, hnext, hrefines, hlimit, hbuffer, hsent⟩ :=
          handleChunk_of_data henv h hseek hne (by omega) hnewline
        obtain ⟨state', kept, hloop, hrefines', hlimit', hbuffer', hle, hall, hsome⟩ :=
          ih hrest next hrefines (by rw [hlimit, List.length_append]; omega)
        rw [hbuffer] at hall hsome
        refine ⟨state', chunk ++ kept, fun rest => ?_, ?_, hlimit'.trans hlimit, ?_, ?_, ?_, ?_⟩
        · rw [List.cons_append, recvLoop_cons hnext, hloop]
        · rw [← List.append_assoc]
          exact hrefines'
        · rw [hbuffer', hbuffer, run_cons]
        · rw [List.length_append]
          omega
        · intro hdata
          obtain ⟨hkept, hsent'⟩ := hall hdata.2
          exact ⟨by rw [hkept], hsent'.trans hsent⟩
        · intro hnot
          have hlt := hsome fun hdata => hnot ⟨hseek, hdata⟩
          rw [List.length_append]
          omega

/-- **A packet** whose last chunk is data, as it arrives. -/
theorem handleClient_spec {env : ClientEnv} (henv : env.Succeeds) {kernel : Kernel} {log : Log}
    {lost : Finset Ptr} (h : Refines kernel log lost) (stack : Bytes) {front : List Bytes}
    {last : Bytes} (hfront : ∀ chunk ∈ front, chunk ≠ [] ∧ newline ∉ chunk)
    (hlast : newline ∈ last) (hdata : ¬ IsSeekCommand (overlay (run overlay stack front) last))
    (hroom : log.pending.length + (front ++ [last]).flatten.length ≤ kernel.heap.limit) :
    ∃ state kept lost', handleClient env kernel stack (front ++ [last]) = some (.finished state) ∧
      Refines state.kernel ⟨log.committed ++ [log.pending ++ kept ++ last], []⟩ lost' ∧
      (AllData stack front → kept = front.flatten ∧ state.sent = state.kernel.content) ∧
      (¬ AllData stack front → kept.length < front.flatten.length) := by
  rw [List.flatten_concat, List.length_append] at hroom
  obtain ⟨state, kept, hloop, hrefines, hlimit, hbuffer, hle, hall, hsome⟩ :=
    recvLoop_spec henv hfront ⟨kernel, 0, stack, [], 0⟩ h (by simp only; omega)
  rw [← hbuffer] at hdata
  obtain ⟨state', lost', hchunk, hrefines', hsent⟩ := handleChunk_of_last henv hrefines hdata
    (by rw [hlimit, List.length_append]; simp only; omega) hlast
  refine ⟨state', kept, lost', ?_, hrefines', fun hfront => ?_, hsome⟩
  · rw [handleClient, henv.opened, if_neg (by simp), hloop, recvLoop, hchunk]
  · obtain ⟨hkept, hnone⟩ := hall hfront
    refine ⟨hkept, ?_⟩
    rw [hsent, hnone, List.nil_append]

/-- **The reply to a data packet is the whole device.** The last chunk brings the newline; what the
client gets is the last ten commands, the newest of which is the packet behind what was pending. -/
theorem reply_is_whole_device (config : KmallocConfig) (calls : List Call) (env : ClientEnv)
    (henv : env.Succeeds) (stack : Bytes) (front : List Bytes) (last : Bytes)
    (hfront : ∀ chunk ∈ front, chunk ≠ [] ∧ newline ∉ chunk) (hlast : newline ∈ last)
    (hdata : AllData stack (front ++ [last]))
    (hroom : ((System.init config).run calls).kernel.pending.length +
      (front ++ [last]).flatten.length ≤ ((System.init config).run calls).kernel.heap.limit) :
    let kernel := ((System.init config).run calls).kernel
    let committed := (System.init config).committed calls
    let packet := (front ++ [last]).flatten
    ∃ state, handleClient env kernel stack (front ++ [last]) = some (.finished state) ∧
      state.sent = ((committed ++ [kernel.pending ++ packet]).rtake 10).flatten := by
  intro kernel committed packet
  obtain ⟨log, lost, hfollows, hcommitted, -⟩ := run_follows config calls
  have hrefines : Refines kernel log lost := hfollows.refines
  obtain ⟨hall, hnotSeek, -⟩ := (along_append _ _ _).mp hdata
  rw [hrefines.pending_eq] at hroom
  obtain ⟨state, kept, lost', hclient, hrefines', hsent, -⟩ :=
    handleClient_spec henv hrefines stack hfront hlast hnotSeek hroom
  obtain ⟨hkept, hcontent⟩ := hsent hall
  refine ⟨state, hclient, ?_⟩
  rw [hcontent, Kernel.content, hrefines'.commands_eq, hkept, hrefines.pending_eq]
  simp only [packet, committed, ← hcommitted, List.flatten_concat, ← List.append_assoc]
  rfl

/-- The environment in which nothing fails. -/
def smoothEnv : ClientEnv where
  opened := true
  write := fun _ => ⟨true, true, true, .moved, true⟩
  read := fun _ => ⟨true, fun _ => true⟩
  ioctl := fun _ => ⟨true, true⟩
  llseek := fun _ => true
  send := fun _ => some bufferSize

theorem smoothEnv_succeeds : smoothEnv.Succeeds where
  opened := rfl
  write := fun _ => ⟨rfl, rfl, rfl, by simp [smoothEnv], rfl⟩
  read := fun _ => ⟨rfl, fun _ => rfl⟩
  llseek := fun _ => rfl
  send := fun _ => ⟨bufferSize, rfl, le_rfl⟩

theorem reply_is_whole_device_two_chunks :
    let kernel := ((System.init ⟨2 ^ 22, by decide, fun _ => 0⟩).run
      [plainWrite 0 [97, 10], plainWrite 0 [98]]).kernel
    ∃ state, handleClient smoothEnv kernel (List.replicate bufferSize 0) [[99], [100, 10]] =
        some (.finished state) ∧ state.sent = [97, 10, 98, 99, 100, 10] := by
  obtain ⟨state, hclient, hsent⟩ := reply_is_whole_device ⟨2 ^ 22, by decide, fun _ => 0⟩
    [plainWrite 0 [97, 10], plainWrite 0 [98]] smoothEnv smoothEnv_succeeds
    (List.replicate bufferSize 0) [[99]] [100, 10] (by decide) (by decide)
    ⟨by decide, by decide, trivial⟩ (by decide)
  refine ⟨state, hclient, ?_⟩
  rw [hsent]
  decide

end AesdChar
