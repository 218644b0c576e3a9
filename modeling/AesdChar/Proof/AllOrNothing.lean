import AesdChar.Proof.Step

/-!
# Failing writes

A write that fails before it touches the accumulator has no effect. One allocation comes later, when
the ring copies the command: its failure is reported by the same null pointer that means that
nothing was overwritten, so the write goes on, forgets the accumulator and returns success.
-/

namespace AesdChar

open Lib

structure Untouched (before after : Kernel) : Prop where
  dev_eq : after.dev = before.dev
  commands_eq : after.commands = before.commands
  pending_eq : after.pending = before.pending

/-- All of `data` follows what was pending before. The oldest command may be missing from the front,
but only if the ring was full and a command was committed. -/
def Retains (before : Kernel) (data : Bytes) (after : Kernel) : Prop :=
  after.content ++ after.pending =
    (if before.dev.circularBuffer.full = true ∧
        after.dev.circularBuffer.inOffs ≠ before.dev.circularBuffer.inOffs then
      before.commands.tail else before.commands).flatten ++ before.pending ++ data

inductive AllOrNothing (before : Kernel) (data : Bytes) (fPos : Int) (outcome : Outcome) : Prop
  | nothing (hret : outcome.ret < 0) (huntouched : Untouched before outcome.kernel)
      (hpos : outcome.fPos = fPos)
  | all (hret : outcome.ret = data.length) (hretains : Retains before data outcome.kernel)

/-- The command that this write completes cannot be copied into the ring. -/
def Drops (env : WriteEnv) (kernel : Kernel) (data : Bytes) : Prop :=
  Admits env kernel data ∧ newline ∈ data ∧ env.addEntryKmalloc = false

section Cases

variable {kernel : Kernel} {log log' : Log} {lost lost' : Finset Ptr} {outcome : Outcome}
  {data : Bytes}

theorem untouched_of_refines (hold : Refines kernel log lost)
    (hnew : Refines outcome.kernel log lost')
    (hdev : outcome.kernel.dev = kernel.dev) : Untouched kernel outcome.kernel where
  dev_eq := hdev
  commands_eq := hnew.commands_eq.trans hold.commands_eq.symm
  pending_eq := hnew.pending_eq.trans hold.pending_eq.symm

theorem retains_of_extended (hold : Refines kernel log lost)
    (hring : outcome.kernel.dev.circularBuffer = kernel.dev.circularBuffer)
    (hnew : Refines outcome.kernel { log with pending := log.pending ++ data } lost') :
    Retains kernel data outcome.kernel := by
  rw [Retains, hring, if_neg fun h => h.2 rfl, Kernel.content, hnew.commands_eq, hnew.pending_eq,
    hold.commands_eq, hold.pending_eq, List.append_assoc]
  rfl

theorem retains_of_committed (hold : Refines kernel log lost) {entry : AesdBufferEntry}
    (hring : outcome.kernel.dev.circularBuffer = kernel.dev.circularBuffer.pushed entry)
    (hnew : Refines outcome.kernel ⟨log.committed ++ [log.pending ++ data], []⟩ lost') :
    Retains kernel data outcome.kernel := by
  have hmoved := inOffs_ne_of_pushed hring
  calc
    outcome.kernel.content ++ outcome.kernel.pending =
        ((if kernel.dev.circularBuffer.full = true then kernel.commands.tail
            else kernel.commands) ++ [log.pending ++ data]).flatten ++ [] := by
      rw [Kernel.content, hold.commands_of_committed hnew, hnew.pending_eq]
    _ = (if kernel.dev.circularBuffer.full = true then kernel.commands.tail
          else kernel.commands).flatten ++ kernel.pending ++ data := by
      simp [hold.pending_eq]
    _ = (if kernel.dev.circularBuffer.full = true ∧
            outcome.kernel.dev.circularBuffer.inOffs ≠ kernel.dev.circularBuffer.inOffs then
          kernel.commands.tail else kernel.commands).flatten ++ kernel.pending ++ data := by
      simp [hmoved]

theorem not_retains_of_dropped (hold : Refines kernel log lost) (hdata : data ≠ [])
    (hring : outcome.kernel.dev.circularBuffer = kernel.dev.circularBuffer)
    (hnew : Refines outcome.kernel { log with pending := [] } lost') :
    ¬ Retains kernel data outcome.kernel := by
  rw [Retains, hring, if_neg fun h => h.2 rfl, Kernel.content, hnew.commands_eq, hnew.pending_eq,
    hold.commands_eq, hold.pending_eq, List.append_assoc]
  intro heq
  have hnil : [] = log.pending ++ data := List.append_cancel_left heq
  exact hdata (List.append_eq_nil_iff.mp hnil.symm).2

end Cases

/-- **A write is all or nothing exactly when it does not drop a command**, in every state the driver
can be in and for every outcome of everything that can fail. -/
theorem aesdWrite_allOrNothing_iff (config : KmallocConfig) (calls : List Call) (env : WriteEnv)
    (data : Bytes) (fPos : Int) :
    let kernel := ((System.init config).run calls).kernel
    AllOrNothing kernel data fPos (aesdWrite env kernel (some data) fPos) ↔
      ¬ Drops env kernel data := by
  intro kernel
  obtain ⟨log, lost, hfollows, -, -⟩ := run_follows config calls
  have hold : Refines kernel log lost := hfollows.refines
  obtain ⟨hcase, -⟩ := aesdWrite_cases hold env (some data) fPos
  simp only [Option.getD_some] at hcase
  cases hcase with
  | refused hadmits hret hpos hdev h =>
      apply iff_of_true (.nothing hret (untouched_of_refines hold h hdev) hpos)
      exact fun hdrops => hadmits hdrops.1
  | extended _ hnewline hret _ hring h =>
      apply iff_of_true (.all hret (retains_of_extended hold hring h))
      exact fun hdrops => hnewline hdrops.2.1
  | committed _ _ hstored hret _ _ hring _ _ h =>
      apply iff_of_true (.all hret (retains_of_committed hold hring h))
      intro hdrops
      rw [hdrops.2.2] at hstored
      cases hstored
  | dropped hadmits hnewline hfail hret _ hring _ _ h =>
      refine iff_of_false ?_ (not_not_intro ⟨hadmits, hnewline, hfail⟩)
      rintro (⟨hneg, -, -⟩ | ⟨-, hretains⟩)
      · rw [hret] at hneg
        exact absurd hneg (Int.not_lt.mpr (Int.natCast_nonneg _))
      · exact not_retains_of_dropped hold hadmits.1 hring h hretains

/-- On a fresh device the first command vanishes when its copy cannot be allocated. -/
theorem not_allOrNothing_first_command :
    let kernel := ((System.init ⟨2 ^ 22, by decide, fun _ => 0⟩).run []).kernel
    ¬ AllOrNothing kernel [97, 10] 0
      (aesdWrite ⟨true, true, true, .inPlace, false⟩ kernel (some [97, 10]) 0) := by
  rintro kernel (⟨hneg, -, -⟩ | ⟨-, hretains⟩)
  · revert hneg
    decide
  · revert hretains
    unfold Retains
    decide

end AesdChar
