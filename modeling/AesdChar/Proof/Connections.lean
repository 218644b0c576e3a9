import AesdChar.Proof.Client
import AesdChar.Proof.Faults

/-!
# Clients one after the other

`file_mutex` keeps connections apart, but what a connection has not completed stays in the driver
when the client goes. The next client to complete a packet completes that one as well, and the
command it stores begins with the other client's bytes. So commands are each one client's exactly
when nobody completes a packet after somebody has left one open.
-/

namespace AesdChar

open Lib

/-! ### What a connection writes -/

/-- The bytes that get written: the data chunks, up to the first with a newline. -/
def writtenFrom : (buffer : Bytes) → List Bytes → Bytes
  | _, [] => []
  | buffer, chunk :: chunks =>
      if IsSeekCommand (overlay buffer chunk) then writtenFrom (overlay buffer chunk) chunks
      else if newline ∈ chunk then chunk
      else chunk ++ writtenFrom (overlay buffer chunk) chunks

/-- Whether there is such a chunk. -/
def completesFrom : (buffer : Bytes) → List Bytes → Bool
  | _, [] => false
  | buffer, chunk :: chunks =>
      if IsSeekCommand (overlay buffer chunk) then completesFrom (overlay buffer chunk) chunks
      else if newline ∈ chunk then true
      else completesFrom (overlay buffer chunk) chunks

namespace Connection

def written (connection : Connection) : Bytes := writtenFrom connection.stack connection.chunks

def completes (connection : Connection) : Bool :=
  completesFrom connection.stack connection.chunks

/-- The client is gone before the packet it has begun is complete. -/
def LeavesData (connection : Connection) : Prop :=
  connection.written ≠ [] ∧ connection.completes = false

def effect (connection : Connection) : Log.Effect :=
  if connection.completes then .committed else .extended

/-- The device can be opened and every write to it succeeds: what is written fits the allocator.
The calls of a reply may fail, and the client may take no byte of it. -/
structure Succeeds (kernel : Kernel) (connection : Connection) : Prop where
  opened : connection.env.opened = true
  write : ∀ t, (connection.env.write t).kmalloc = true ∧
    (connection.env.write t).copyFromUser = true ∧ (connection.env.write t).lock = true ∧
    (connection.env.write t).krealloc ≠ .fail ∧ (connection.env.write t).addEntryKmalloc = true
  received : ∀ chunk ∈ connection.chunks, chunk ≠ []
  room : kernel.pending.length + connection.written.length ≤ kernel.heap.limit

end Connection

theorem newline_mem_of_completesFrom {buffer : Bytes} {chunks : List Bytes}
    (h : completesFrom buffer chunks = true) : newline ∈ writtenFrom buffer chunks := by
  induction chunks generalizing buffer with
  | nil => cases h
  | cons chunk chunks ih =>
      rw [completesFrom] at h
      rw [writtenFrom]
      by_cases hseek : IsSeekCommand (overlay buffer chunk)
      · rw [if_pos hseek] at h ⊢
        exact ih h
      rw [if_neg hseek] at h ⊢
      by_cases hnewline : newline ∈ chunk
      · rw [if_pos hnewline]
        exact hnewline
      · rw [if_neg hnewline] at h ⊢
        exact List.mem_append_right _ (ih h)

theorem Connection.written_ne_nil {connection : Connection} (h : connection.completes = true) :
    connection.written ≠ [] := List.ne_nil_of_mem (newline_mem_of_completesFrom h)

theorem Log.write_write (log : Log) (first second : Bytes) (completes : Bool) :
    ({ log with pending := log.pending ++ first } : Log).write second
        (if completes then .committed else .extended) =
      log.write (first ++ second) (if completes then .committed else .extended) := by
  cases completes <;> simp [Log.write]

/-- A data chunk is written, whatever becomes of the reply. -/
theorem ChunkCase.written {env : ClientEnv} {state : ClientState} {chunk : Bytes} {log : Log}
    {lost : Finset Ptr} {turn : Turn} (hcase : ChunkCase env state chunk log lost turn)
    (hdata : ¬ IsSeekCommand (overlay state.buffer chunk))
    (hadmits : Admits (env.write state.clock) state.kernel chunk)
    (hstored : (env.write state.clock).addEntryKmalloc = true) :
    (newline ∉ chunk ∧ ∃ state', turn = .next state' ∧
      Refines state'.kernel (log.write chunk .extended) lost) ∨
    (newline ∈ chunk ∧ ∃ state' lost', turn = .finished state' ∧
      Refines state'.kernel (log.write chunk .committed) lost') := by
  cases hcase with
  | seek hseek _ => exact absurd hseek hdata
  | refused _ hnot _ => exact absurd hadmits hnot
  | extended _ hnewline hrefines => exact Or.inl ⟨hnewline, _, rfl, hrefines⟩
  | committed _ hnewline hrefines => exact Or.inr ⟨hnewline, _, _, rfl, hrefines⟩
  | dropped _ _ hfail _ =>
      rw [hstored] at hfail
      cases hfail

/-- **A whole connection** does to the log what one write of all its data would do. -/
theorem recvLoop_writes {env : ClientEnv}
    (hwrite : ∀ t, (env.write t).kmalloc = true ∧ (env.write t).copyFromUser = true ∧
      (env.write t).lock = true ∧ (env.write t).krealloc ≠ .fail ∧
      (env.write t).addEntryKmalloc = true)
    {chunks : List Bytes} (hchunks : ∀ chunk ∈ chunks, chunk ≠ []) {state : ClientState} {log : Log}
    {lost : Finset Ptr} (h : Refines state.kernel log lost) (hrange : InRange state.fPos)
    (hroom : log.pending.length + (writtenFrom state.buffer chunks).length ≤
      state.kernel.heap.limit) :
    ∃ state' lost', recvLoop env chunks state = some (.finished state') ∧
      Refines state'.kernel (log.write (writtenFrom state.buffer chunks)
        (if completesFrom state.buffer chunks then .committed else .extended)) lost' := by
  induction chunks generalizing state log with
  | nil =>
      refine ⟨state, lost, rfl, ?_⟩
      simpa [writtenFrom, completesFrom, Log.write] using h
  | cons chunk chunks ih =>
      obtain ⟨hne, hrest⟩ := List.forall_mem_cons.mp hchunks
      obtain ⟨turn, hturn, hcase, hturned⟩ := handleChunk_cases env h hrange chunk
      rw [writtenFrom] at hroom ⊢
      rw [completesFrom]
      by_cases hseek : IsSeekCommand (overlay state.buffer chunk)
      · rw [if_pos hseek] at hroom ⊢
        rw [if_pos hseek]
        cases hcase with
        | @seek next _ hrefines =>
            have hbuffer : next.buffer = overlay state.buffer chunk := hturned.buffer_eq
            have hlimit : next.kernel.heap.limit = state.kernel.heap.limit := hturned.limit_eq
            rw [recvLoop_cons hturn, ← hbuffer]
            apply ih hrest hrefines hturned.inRange
            rw [hlimit, hbuffer]
            exact hroom
        | refused hdata _ _ => exact absurd hseek hdata
        | extended hdata _ _ => exact absurd hseek hdata
        | committed hdata _ _ => exact absurd hseek hdata
        | dropped hdata _ _ _ => exact absurd hseek hdata
      rw [if_neg hseek] at hroom ⊢
      rw [if_neg hseek]
      obtain ⟨hkmalloc, hcopy, hlock, hkrealloc, hstored⟩ := hwrite state.clock
      have hadmits : Admits (env.write state.clock) state.kernel chunk := by
        obtain ⟨⟨entries, hrep⟩, -⟩ := h
        have hsize := hrep.accumulates.size_eq
        have hle : chunk.length ≤ (if newline ∈ chunk then chunk
            else chunk ++ writtenFrom (overlay state.buffer chunk) chunks).length := by
          split
          · exact le_rfl
          · rw [List.length_append]
            exact Nat.le_add_right _ _
        exact ⟨hne, ⟨hkmalloc, by omega⟩, hcopy, hlock, hkrealloc, by omega⟩
      obtain ⟨hnewline, next, rfl, hrefines⟩ | ⟨hnewline, state', lost', rfl, hrefines⟩ :=
        hcase.written hseek hadmits hstored
      · have hbuffer : next.buffer = overlay state.buffer chunk := hturned.buffer_eq
        have hlimit : next.kernel.heap.limit = state.kernel.heap.limit := hturned.limit_eq
        have hextended : Refines next.kernel { log with pending := log.pending ++ chunk } lost :=
          hrefines
        rw [if_neg hnewline, List.length_append] at hroom
        rw [if_neg hnewline, if_neg hnewline, recvLoop_cons hturn, ← hbuffer, ← Log.write_write]
        apply ih hrest hextended hturned.inRange
        rw [hlimit, hbuffer, List.length_append]
        omega
      · rw [if_pos hnewline, if_pos hnewline]
        exact ⟨state', lost', by rw [recvLoop, hturn], hrefines⟩

theorem serve_refines {kernel : Kernel} {log : Log} {lost : Finset Ptr}
    (h : Refines kernel log lost) {connection : Connection}
    (hsucceeds : connection.Succeeds kernel) :
    ∃ lost', Refines (serve kernel connection) (log.write connection.written connection.effect)
      lost' := by
  obtain ⟨hopened, hwrite, hreceived, hroom⟩ := hsucceeds
  rw [h.pending_eq] at hroom
  let start : ClientState := ⟨kernel, 0, connection.stack, [], 0⟩
  have hstart : Refines start.kernel log lost := h
  obtain ⟨state, lost', hloop, hrefines⟩ :=
    recvLoop_writes hwrite hreceived hstart inRange_zero hroom
  have hclient : handleClient connection.env kernel connection.stack connection.chunks =
      some (.finished state) := by
    rw [handleClient, hopened, if_neg (by simp)]
    exact hloop
  have hserve : serve kernel connection = state.kernel := by
    rw [serve, hclient]
    rfl
  rw [hserve]
  exact ⟨lost', hrefines⟩

/-! ### Any number of connections -/

def servedLog (connections : List Connection) : Log :=
  connections.foldl (fun log connection => log.write connection.written connection.effect) Log.empty

theorem servedLog_concat (connections : List Connection) (connection : Connection) :
    servedLog (connections ++ [connection]) =
      (servedLog connections).write connection.written connection.effect := by
  rw [servedLog, List.foldl_append]
  rfl

theorem Refines.inOffs_eq {kernel : Kernel} {log : Log} {lost : Finset Ptr}
    (h : Refines kernel log lost) :
    kernel.dev.circularBuffer.inOffs.val = log.committed.length % 10 := by
  obtain ⟨⟨entries, hrep⟩, -⟩ := h
  rw [← hrep.length_eq]
  exact hrep.tracks.inOffs_eq

/-- What a connection is seen to store is what its write commits. -/
theorem committedBy_of_write {before after : Kernel} {log : Log} {lost lost' : Finset Ptr}
    (hbefore : Refines before log lost) {data : Bytes} {completes : Bool}
    (hafter : Refines after (log.write data (if completes then .committed else .extended)) lost') :
    (log.write data (if completes then .committed else .extended)).committed =
      log.committed ++ committedBy before after := by
  have hin := hbefore.inOffs_eq
  have hin' := hafter.inOffs_eq
  cases completes with
  | false =>
      have hsame : after.dev.circularBuffer.inOffs = before.dev.circularBuffer.inOffs :=
        Fin.ext (hin'.trans hin.symm)
      rw [committedBy, if_pos hsame, List.append_nil]
      rfl
  | true =>
      have hmoved : after.dev.circularBuffer.inOffs ≠ before.dev.circularBuffer.inOffs := by
        intro hsame
        rw [hsame, hin] at hin'
        simp only [if_true, Log.write, List.length_append, List.length_singleton] at hin'
        omega
      rw [committedBy, if_neg hmoved, hbefore.commands_of_committed hafter, List.getLast?_concat]
      rfl

/-- **Any number of clients** leave the device with what their connections wrote, as if each had
been one write. -/
theorem serveAll_servedLog {config : KmallocConfig} {connections : List Connection}
    (hsucceeds : Along serve (fun kernel connection => connection.Succeeds kernel)
      (aesdInitModule config) connections) :
    (∃ lost, Refines (serveAll (aesdInitModule config) connections) (servedLog connections) lost) ∧
      (servedLog connections).committed = storedFor (aesdInitModule config) connections := by
  induction connections using List.reverseRecOn with
  | nil => exact ⟨⟨∅, refines_init config⟩, rfl⟩
  | append_singleton connections connection ih =>
      obtain ⟨hbefore, hlast, -⟩ := (along_append _ _ _).mp hsucceeds
      obtain ⟨⟨lost, hrefines⟩, hstored⟩ := ih hbefore
      obtain ⟨lost', hserve⟩ := serve_refines hrefines hlast
      have hrun : serveAll (aesdInitModule config) (connections ++ [connection]) =
          serve (serveAll (aesdInitModule config) connections) connection := by
        rw [serveAll, Lib.run, List.foldl_append]
        rfl
      rw [hrun, servedLog_concat]
      refine ⟨⟨lost', hserve⟩, ?_⟩
      rw [storedFor, history_append, ← storedFor, ← hstored, Connection.effect,
        committedBy_of_write hrefines hserve]
      simp only [history, List.append_nil]
      rfl

theorem flatten_servedLog (connections : List Connection) :
    (servedLog connections).committed.flatten ++ (servedLog connections).pending =
      (connections.map Connection.written).flatten := by
  induction connections using List.reverseRecOn with
  | nil => rfl
  | append_singleton connections connection ih =>
      rw [servedLog_concat, List.map_append, List.flatten_append, ← ih, Connection.effect]
      cases connection.completes <;> simp [Log.write]

/-! ### Whose bytes a command is made of -/

/-- Each command lies inside what one connection wrote, when the commands are laid end to end along
all that was written. -/
def KeptApart (written commands : List Bytes) : Prop :=
  ∀ index (h : index < commands.length), InOnePiece (written.map List.length)
    (commands.take index).flatten.length commands[index].length

theorem keptApart_concat_iff {written commands : List Bytes} {pending last : Bytes}
    (hflatten : commands.flatten ++ pending = written.flatten) (hlast : last ≠ []) :
    KeptApart (written ++ [last]) (commands ++ [pending ++ last]) ↔
      KeptApart written commands ∧ pending = [] := by
  have hsum : (written.map List.length).sum = commands.flatten.length + pending.length := by
    rw [← List.length_flatten, ← hflatten, List.length_append]
  have hold : ∀ index (h : index < commands.length),
      (commands.take index).flatten.length + commands[index].length ≤
        (written.map List.length).sum := by
    intro index h
    have hle := length_flatten_take_add_le h
    omega
  have hnew : InOnePiece (written.map List.length ++ [last.length]) commands.flatten.length
      (pending ++ last).length ↔ pending = [] := by
    rw [inOnePiece_concat_iff (List.length_pos_iff.mpr hlast) (by omega)
      (by rw [List.length_append]; omega), hsum, ← List.length_eq_zero_iff]
    omega
  unfold KeptApart
  rw [List.map_append, List.map_singleton]
  constructor
  · intro h
    refine ⟨fun index hindex => ?_, ?_⟩
    · have hpiece := h index (by rw [List.length_append]; omega)
      rw [List.take_append_of_le_length hindex.le, List.getElem_append_left hindex,
        inOnePiece_append_iff _ (hold index hindex)] at hpiece
      exact hpiece
    · have hpiece := h commands.length (by simp)
      rw [List.take_left', List.getElem_concat_length rfl, hnew] at hpiece
      · exact hpiece
      · rfl
  · rintro ⟨h, hpending⟩ index hindex
    rw [List.length_append, List.length_singleton] at hindex
    rcases Nat.lt_or_ge index commands.length with hlt | hge
    · rw [List.take_append_of_le_length hlt.le, List.getElem_append_left hlt,
        inOnePiece_append_iff _ (hold index hlt)]
      exact h index hlt
    · obtain rfl : index = commands.length := by omega
      rw [List.take_left', List.getElem_concat_length rfl, hnew]
      · exact hpending
      · rfl

theorem keptApart_append_iff {written commands : List Bytes} {pending last : Bytes}
    (hflatten : commands.flatten ++ pending = written.flatten) :
    KeptApart (written ++ [last]) commands ↔ KeptApart written commands := by
  unfold KeptApart
  apply forall_congr'
  intro index
  apply forall_congr'
  intro hindex
  rw [List.map_append, inOnePiece_append_iff]
  have hle := length_flatten_take_add_le hindex
  rw [← List.length_flatten, ← hflatten, List.length_append]
  omega

/-- Nobody completes a packet after somebody has left one open. -/
def NoneCompletesAfterLeft (connections : List Connection) : Prop :=
  connections.Pairwise fun earlier later => ¬(earlier.LeavesData ∧ later.completes = true)

theorem noneCompletesAfterLeft_concat_iff {connections : List Connection}
    {connection : Connection} :
    NoneCompletesAfterLeft (connections ++ [connection]) ↔ NoneCompletesAfterLeft connections ∧
      (connection.completes = true → ∀ earlier ∈ connections, ¬ earlier.LeavesData) := by
  unfold NoneCompletesAfterLeft
  rw [List.pairwise_append]
  simp only [List.pairwise_singleton, List.forall_mem_singleton, true_and, not_and]
  apply and_congr_right
  intro _
  exact ⟨fun h hcompletes earlier hmem hleaves => h earlier hmem hleaves hcompletes,
    fun h earlier hmem hleaves hcompletes => h hcompletes earlier hmem hleaves⟩

theorem pending_servedLog_eq_nil_iff {connections : List Connection}
    (h : NoneCompletesAfterLeft connections) :
    (servedLog connections).pending = [] ↔
      ∀ connection ∈ connections, ¬ connection.LeavesData := by
  induction connections using List.reverseRecOn with
  | nil => exact iff_of_true rfl (List.forall_mem_nil _)
  | append_singleton connections connection ih =>
      obtain ⟨hbefore, hlast⟩ := noneCompletesAfterLeft_concat_iff.mp h
      rw [servedLog_concat, List.forall_mem_append, List.forall_mem_singleton]
      cases hcompletes : connection.completes with
      | true =>
          simp only [Connection.effect, hcompletes, if_true, Log.write, true_iff]
          refine ⟨hlast hcompletes, fun hleaves => ?_⟩
          rw [hleaves.2] at hcompletes
          cases hcompletes
      | false =>
          simp only [Connection.effect, hcompletes, Bool.false_eq_true, if_false, Log.write,
            List.append_eq_nil_iff, ih hbefore, Connection.LeavesData, and_true, not_not]

theorem keptApart_servedLog_iff (connections : List Connection) :
    KeptApart (connections.map Connection.written) (servedLog connections).committed ↔
      NoneCompletesAfterLeft connections := by
  induction connections using List.reverseRecOn with
  | nil => exact iff_of_true (fun index hindex => absurd hindex (Nat.not_lt_zero index)) .nil
  | append_singleton connections connection ih =>
      have hflatten := flatten_servedLog connections
      rw [servedLog_concat, noneCompletesAfterLeft_concat_iff, ← ih, List.map_append,
        List.map_singleton, Connection.effect]
      cases hcompletes : connection.completes with
      | false =>
          simp only [Bool.false_eq_true, if_false, Log.write, false_imp_iff, and_true]
          exact keptApart_append_iff hflatten
      | true =>
          simp only [if_true, Log.write, true_imp_iff]
          rw [keptApart_concat_iff hflatten (Connection.written_ne_nil hcompletes)]
          apply and_congr_right
          intro hkept
          exact pending_servedLog_eq_nil_iff (ih.mp hkept)

/-- **Clients' packets never mix exactly when nobody completes a packet after somebody has left one
open.** The commands ever stored are what the connections wrote, in order and up to what is still
pending; a reader sees the last ten of them. -/
theorem clients_kept_apart_iff (config : KmallocConfig) (connections : List Connection)
    (hsucceeds : Along serve (fun kernel connection => connection.Succeeds kernel)
      (aesdInitModule config) connections) :
    let kernel := serveAll (aesdInitModule config) connections
    let stored := storedFor (aesdInitModule config) connections
    let written := connections.map Connection.written
    kernel.commands = stored.rtake 10 ∧ stored.flatten ++ kernel.pending = written.flatten ∧
      (KeptApart written stored ↔ NoneCompletesAfterLeft connections) := by
  intro kernel stored written
  obtain ⟨⟨lost, hrefines⟩, hstored⟩ := serveAll_servedLog hsucceeds
  refine ⟨?_, ?_, ?_⟩
  · rw [hrefines.commands_eq, Log.visible, hstored]
  · have hflatten := flatten_servedLog connections
    rw [hstored] at hflatten
    rw [hrefines.pending_eq]
    exact hflatten
  · rw [← keptApart_servedLog_iff, hstored]

/-- A connection on which nothing fails. -/
def smoothConnection (chunks : List Bytes) : Connection :=
  ⟨smoothEnv, List.replicate bufferSize 0, chunks⟩

/-- A connection whose client takes no byte of the reply. -/
def deafConnection (chunks : List Bytes) : Connection :=
  ⟨{ smoothEnv with send := fun _ => none }, List.replicate bufferSize 0, chunks⟩

theorem clients_kept_apart_iff_one_each :
    let connections := [deafConnection [[97], [98, 10]], smoothConnection [[99, 10]]]
    KeptApart (connections.map Connection.written)
      (storedFor (aesdInitModule ⟨2 ^ 22, by decide, fun _ => 0⟩) connections) := by
  intro connections
  have hsucceeds : Along serve (fun kernel connection => connection.Succeeds kernel)
      (aesdInitModule ⟨2 ^ 22, by decide, fun _ => 0⟩) connections :=
    ⟨⟨rfl, smoothEnv_succeeds.write, by decide, by decide⟩,
      ⟨rfl, smoothEnv_succeeds.write, by decide, by decide⟩, trivial⟩
  refine (clients_kept_apart_iff ⟨2 ^ 22, by decide, fun _ => 0⟩ connections
    hsucceeds).2.2.mpr ?_
  refine .cons (fun later _ hboth => ?_) (.cons (fun _ h => absurd h List.not_mem_nil) .nil)
  exact absurd hboth.1.2 (by decide)

/-- The first client sends `a` and goes, the second sends `b` and a newline: one command. -/
theorem not_keptApart_disconnect :
    let connections := [smoothConnection [[97]], smoothConnection [[98, 10]]]
    let kernel := aesdInitModule ⟨2 ^ 22, by decide, fun _ => 0⟩
    Along serve (fun kernel connection => connection.Succeeds kernel) kernel connections ∧
      storedFor kernel connections = [[97, 98, 10]] ∧
      ¬ KeptApart (connections.map Connection.written) (storedFor kernel connections) := by
  intro connections kernel
  have hstored : storedFor kernel connections = [[97, 98, 10]] := by decide
  have hwritten : connections.map Connection.written = [[97], [98, 10]] := by decide
  refine ⟨⟨⟨rfl, smoothEnv_succeeds.write, by decide, by decide⟩,
    ⟨rfl, smoothEnv_succeeds.write, by decide, by decide⟩, trivial⟩, hstored, fun hkept => ?_⟩
  rw [hstored, hwritten] at hkept
  obtain ⟨index, hpiece⟩ := hkept 0 (by decide)
  have hfirst : 0 = index := Option.some.inj (hpiece 0 (by decide) (by decide))
  have hsecond : 1 = index := Option.some.inj (hpiece 1 (by decide) (by decide))
  omega

end AesdChar
