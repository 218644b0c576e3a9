import AesdChar.Proof.Step

/-!
# A reader while others write

A file used for nothing but reading has a position equal to the number of bytes it has received.
What it can read is the committed bytes less the evicted ones, so its next byte is the one that many
bytes after the evicted ones: each eviction moves the reader forward by what was evicted, and
nothing moves it back.
-/

namespace AesdChar

open Lib

/-- Whatever the call does with the file is reading it. -/
def Call.ReadsOnly (file : Nat) : Call → Prop
  | .read _ _ _ => True
  | call => call.file ≠ file

theorem fPos_step_of_ne (system : System) {file : Nat} {call : Call} (hne : call.file ≠ file) :
    (system.step call).fPos file = system.fPos file := by
  have hsettle : ∀ (other : Nat) (outcome : Outcome), other ≠ file →
      (system.settle other outcome).fPos file = system.fPos file := by
    intro other outcome hother
    unfold System.settle
    split
    · exact Function.update_of_ne hother.symm _ _
    · rfl
  cases call with
  | write other env buf => exact hsettle other _ hne
  | read other env count =>
      simp only [System.step]
      cases aesdRead env system.kernel count (system.fPos other) with
      | none => rfl
      | some outcome => exact hsettle other outcome.toOutcome hne
  | llseek other lock offset whence => exact Function.update_of_ne hne.symm _ _
  | ioctl other env cmd seekto => exact Function.update_of_ne hne.symm _ _

theorem receivedBy_of_ne (system : System) {file : Nat} {call : Call} (hne : call.file ≠ file) :
    system.receivedBy file call = [] := by
  cases call with
  | read reader env count => exact if_neg hne
  | write => rfl
  | llseek => rfl
  | ioctl => rfl

/-- A read moves its file's position past what it returned, whether it succeeds or not. -/
theorem fPos_step_read {system : System} {log : Log} {lost : Finset Ptr}
    (h : Follows system log lost) {file pos : Nat} (hpos : system.fPos file = pos) (env : ReadEnv)
    (count : Nat) :
    (system.step (.read file env count)).fPos file =
      ((pos + (system.receivedBy file (.read file env count)).length : Nat) : Int) := by
  obtain ⟨⟨entries, hrep⟩, -⟩ := h.refines
  have hlt : pos < 2 ^ 63 := by
    have hrange := (h.inRange file).2
    rw [hpos] at hrange
    exact_mod_cast hrange
  obtain ⟨copied, ret, hread, hcopied, hcases⟩ := hrep.aesdRead_spec env count hlt
  have hret : ret = copied ∨ ret < 0 := by
    rcases hcases with ⟨-, hneg, -⟩ | ⟨-, hret, -⟩ | ⟨-, hneg, -⟩
    · exact Or.inr hneg
    · exact Or.inl hret
    · exact Or.inr hneg
  have hlength : ((system.kernel.content.drop pos).take copied).length = copied := by
    rw [List.length_take, List.length_drop, Nat.min_eq_left hcopied]
  simp only [System.step, System.receivedBy, hpos, hread, if_true, System.settle]
  rcases hret with rfl | hneg
  · rw [if_pos (Int.natCast_nonneg copied), if_pos (Int.natCast_nonneg copied), hlength,
      Function.update_self]
  · rw [if_neg (Int.not_le.mpr hneg), if_neg (Int.not_le.mpr hneg), List.length_nil,
      Nat.add_zero]
    exact hpos

/-- **The position is what has been received**, however the file's reads and the calls of others are
interleaved. -/
theorem fPos_eq_length_received (config : KmallocConfig) {file : Nat} {calls : List Call}
    (hreads : ∀ call ∈ calls, call.ReadsOnly file) :
    ((System.init config).run calls).fPos file =
      (((System.init config).received file calls).length : Nat) := by
  have hstep : ∀ (system : System) (past : Bytes) (call : Call), call.ReadsOnly file →
      ((∃ log lost, Follows system log lost) ∧ system.fPos file = past.length) →
      (∃ log lost, Follows (system.step call) log lost) ∧
        (system.step call).fPos file = (past ++ system.receivedBy file call).length := by
    rintro system past call hcall ⟨⟨log, lost, hfollows⟩, hpos⟩
    obtain ⟨log', lost', hfollows', -⟩ := hfollows.step call
    refine ⟨⟨log', lost', hfollows'⟩, ?_⟩
    rw [List.length_append]
    by_cases hfile : call.file = file
    · cases call with
      | read reader env count =>
          obtain rfl : reader = file := hfile
          exact fPos_step_read hfollows hpos env count
      | write => exact absurd hfile hcall
      | llseek => exact absurd hfile hcall
      | ioctl => exact absurd hfile hcall
    · rw [fPos_step_of_ne system hfile, receivedBy_of_ne system hfile]
      exact hpos
  have halong : Along System.step (fun _ call => call.ReadsOnly file) (System.init config) calls :=
    (along_iff_forall_split _ _).mpr fun before call after hsplit =>
      hreads call (by rw [hsplit]; simp)
  exact (run_history_nil (R := fun (system : System) (past : Bytes) =>
    (∃ log lost, Follows system log lost) ∧ system.fPos file = past.length) hstep halong
      ⟨⟨_, _, follows_init config⟩, rfl⟩).2

theorem content_eq_drop (config : KmallocConfig) (calls : List Call) :
    ((System.init config).run calls).kernel.content =
      ((System.init config).committed calls).flatten.drop
        ((System.init config).evicted calls).flatten.length := by
  obtain ⟨log, lost, hfollows, hcommitted, hevicted⟩ := run_follows config calls
  calc
    ((System.init config).run calls).kernel.content =
        (log.visible maxWriteOperationsSupported).flatten :=
      congrArg List.flatten hfollows.refines.commands_eq
    _ = (log.evicted maxWriteOperationsSupported ++
          log.visible maxWriteOperationsSupported).flatten.drop
        (log.evicted maxWriteOperationsSupported).flatten.length := by
      rw [List.flatten_append, List.drop_left]
    _ = ((System.init config).committed calls).flatten.drop
        ((System.init config).evicted calls).flatten.length := by
      rw [log.evicted_append_visible, hcommitted, hevicted]

theorem received_eq_nil (system : System) {file : Nat} {calls : List Call}
    (hothers : ∀ call ∈ calls, call.file ≠ file) : system.received file calls = [] := by
  induction calls generalizing system with
  | nil => rfl
  | cons call calls ih =>
      obtain ⟨hcall, hcalls⟩ := List.forall_mem_cons.mp hothers
      have htail : history System.step (System.receivedBy file) (system.step call) calls = [] :=
        ih (system.step call) hcalls
      rw [System.received, history, receivedBy_of_ne system hcall, htail]
      rfl

theorem history_after_read {system : System} {log : Log} {lost : Finset Ptr}
    (h : Follows system log lost) (file : Nat) (env : ReadEnv) (count : Nat) (calls : List Call) :
    system.committed (.read file env count :: calls) =
        (system.step (.read file env count)).committed calls ∧
      system.evicted (.read file env count :: calls) =
        (system.step (.read file env count)).evicted calls := by
  obtain ⟨outcome, hread, hkernel, -⟩ := h.read_returns env count file
  have hstep : (system.step (.read file env count)).kernel = system.kernel := by
    simp only [System.step, hread]
    exact hkernel
  constructor
  · rw [System.committed, history, hstep, committedBy, if_pos rfl]
    rfl
  · rw [System.evicted, history, hstep, evictedBy, if_pos rfl]
    rfl

/-- **A reader sees the committed bytes in order.** Its read starts where the evicted bytes and the
bytes it has received end, and the start of its next one is the end of this one plus what was
evicted in between. -/
theorem read_returns_slice (config : KmallocConfig) (file : Nat) (calls : List Call)
    (hreads : ∀ call ∈ calls, call.ReadsOnly file) (count : Nat) :
    let initial := System.init config
    let system := initial.run calls
    let stream := (initial.committed calls).flatten
    let start := (initial.evicted calls).flatten.length + (initial.received file calls).length
    let read := Call.read file ⟨true, fun _ => true⟩ count
    ∃ outcome, aesdRead ⟨true, fun _ => true⟩ system.kernel count (system.fPos file) =
        some outcome ∧
      outcome.buf = (stream.drop start).take count ∧ outcome.ret = outcome.buf.length ∧
      ∀ between : List Call, (∀ call ∈ between, call.file ≠ file) →
        stream <+: (initial.committed (calls ++ read :: between)).flatten ∧
        (initial.evicted (calls ++ read :: between)).flatten.length +
            (initial.received file (calls ++ read :: between)).length =
          start + outcome.buf.length + ((system.step read).evicted between).flatten.length := by
  intro initial system stream start read
  obtain ⟨log, lost, hfollows, -, -⟩ := run_follows config calls
  obtain ⟨⟨entries, hrep⟩, -⟩ := hfollows.refines
  have hpos : system.fPos file = (initial.received file calls).length :=
    fPos_eq_length_received config hreads
  have hlt : (initial.received file calls).length < 2 ^ 63 := by
    have hrange := (hfollows.inRange file).2
    have hcast : ((initial.received file calls).length : Int) < 2 ^ 63 := hpos ▸ hrange
    exact_mod_cast hcast
  have henv : (⟨true, fun _ => true⟩ : ReadEnv).Succeeds := ⟨rfl, fun _ => rfl⟩
  have hread := hrep.aesdRead_of_success henv count hlt
  rw [← hpos] at hread
  refine ⟨_, hread, ?_, rfl, fun between hbetween => ?_⟩
  · change (system.kernel.content.drop _).take count = _
    rw [content_eq_drop, List.drop_drop]
  obtain ⟨hcommitted, hevicted⟩ :=
    history_after_read hfollows file ⟨true, fun _ => true⟩ count between
  constructor
  · rw [System.committed, history_append, List.flatten_append]
    exact List.prefix_append _ _
  · have hevicted' : initial.evicted (calls ++ read :: between) =
        initial.evicted calls ++ (system.step read).evicted between := by
      rw [← hevicted]
      exact history_append initial calls (read :: between)
    have hreceived : initial.received file (calls ++ read :: between) =
        initial.received file calls ++ (system.kernel.content.drop
          (initial.received file calls).length).take count := by
      rw [System.received, history_append, history]
      congr 1
      have hnone : history System.step (System.receivedBy file) (system.step read) between = [] :=
        received_eq_nil (system.step read) hbetween
      have hthis : system.receivedBy file read = (system.kernel.content.drop
          (initial.received file calls).length).take count := by
        simp only [System.receivedBy, read, if_true]
        rw [hread]
        exact if_pos (Int.natCast_nonneg _)
      exact (congrArg₂ (· ++ ·) hthis hnone).trans (List.append_nil _)
    rw [hevicted', hreceived, List.flatten_append, List.length_append, List.length_append]
    simp only [start, system, initial]
    ring

def readBetweenWrites : List Call :=
  [plainWrite 1 [97, 98, 10], .read 0 ⟨true, fun _ => true⟩ 1, plainWrite 1 [99]]

/-- The second read continues where the first one stopped, and stops before the pending byte. -/
theorem read_returns_slice_between_writes :
    let system := (System.init ⟨2 ^ 22, by decide, fun _ => 0⟩).run readBetweenWrites
    ∃ outcome, aesdRead ⟨true, fun _ => true⟩ system.kernel 5 (system.fPos 0) = some outcome ∧
      outcome.buf = [98, 10] := by
  obtain ⟨outcome, hread, hbuf, -, -⟩ := read_returns_slice ⟨2 ^ 22, by decide, fun _ => 0⟩ 0
    readBetweenWrites (by simp [readBetweenWrites, Call.ReadsOnly, plainWrite, Call.file]) 5
  refine ⟨outcome, hread, ?_⟩
  rw [hbuf]
  decide

end AesdChar
