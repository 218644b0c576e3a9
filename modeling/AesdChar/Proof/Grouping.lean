import AesdChar.Lib.Framing
import AesdChar.Proof.Step

/-!
# How writes become commands

When nothing fails, a command is a group of writes that ends with the first write to contain a
newline: the committed commands and the pending text are the frames of the sequence of writes.
Splitting the same bytes into other writes makes other groups, and the commands are the lines of the
byte stream only when the groups end where lines do.
-/

namespace AesdChar

open Lib

/-- The call is a write in which everything that can fail succeeds. -/
def Call.WriteSucceeds (system : System) : Call → Prop
  | .write _ env buf => Admits env system.kernel (buf.getD []) ∧ env.addEntryKmalloc = true
  | _ => False

/-- The groups of a sequence of writes, and the writes of the open group. -/
def groups (chunks : List Bytes) : List (List Bytes) × List Bytes := frames (newline ∈ ·) chunks

def groupedLog (chunks : List Bytes) : Log where
  committed := (groups chunks).1.map List.flatten
  pending := (groups chunks).2.flatten

theorem groupedLog_concat (chunks : List Bytes) (data : Bytes) :
    groupedLog (chunks ++ [data]) = (groupedLog chunks).write data
      (if newline ∈ data then .committed else .extended) := by
  by_cases hnewline : newline ∈ data
  · rw [if_pos hnewline, groupedLog, groups, frames_concat_of_closes (newline ∈ ·) _ hnewline]
    simp [groupedLog, groups, Log.write]
  · rw [if_neg hnewline, groupedLog, groups, frames_concat_of_not (newline ∈ ·) _ hnewline]
    simp [groupedLog, groups, Log.write]

/-- **Successful writes** leave a device that represents their groups. -/
theorem run_groupedLog {config : KmallocConfig} {calls : List Call}
    (hsuccess : Along System.step Call.WriteSucceeds (System.init config) calls) :
    ∃ lost, Refines ((System.init config).run calls).kernel (groupedLog (calls.map Call.data))
      lost := by
  have hstep : ∀ (system : System) (past : List Bytes) (call : Call), call.WriteSucceeds system →
      (∃ lost, Refines system.kernel (groupedLog past) lost) →
      ∃ lost, Refines (system.step call).kernel (groupedLog (past ++ [call.data])) lost := by
    rintro system past call hcall ⟨lost, hrefines⟩
    cases call with
    | write file env buf =>
        obtain ⟨hadmits, hstored⟩ := hcall
        obtain ⟨lost', -, hrefines'⟩ := aesdWrite_refines hrefines env buf (system.fPos file)
        rw [Log.effect, if_pos hadmits, if_pos hstored] at hrefines'
        rw [groupedLog_concat]
        exact ⟨lost', hrefines'⟩
    | read => exact hcall.elim
    | llseek => exact hcall.elim
    | ioctl => exact hcall.elim
  have hinit : ∃ lost, Refines (System.init config).kernel (groupedLog []) lost :=
    ⟨∅, refines_init config⟩
  have hrun := run_history_nil (R := fun (system : System) (past : List Bytes) =>
    ∃ lost, Refines system.kernel (groupedLog past) lost) hstep hsuccess hinit
  rw [history_singleton] at hrun
  exact hrun

theorem data_ne_nil_of_mem {config : KmallocConfig} {calls : List Call}
    (hsuccess : Along System.step Call.WriteSucceeds (System.init config) calls) :
    ∀ data ∈ calls.map Call.data, data ≠ [] := by
  intro data hdata
  obtain ⟨call, hcall, rfl⟩ := List.mem_map.mp hdata
  obtain ⟨before, after, rfl⟩ := List.append_of_mem hcall
  have hok := (along_iff_forall_split _ _).mp hsuccess before call after rfl
  cases call with
  | write file env buf => exact hok.1.1
  | read => exact hok.elim
  | llseek => exact hok.elim
  | ioctl => exact hok.elim

theorem newline_notMem_open (chunks : List Bytes) : newline ∉ (groups chunks).2.flatten := by
  intro hmem
  obtain ⟨chunk, hchunk, hnewline⟩ := List.mem_flatten.mp hmem
  exact not_closes_of_mem_open (newline ∈ ·) chunk hchunk hnewline

/-- **Every byte is in its place.** After any interleaving of successful writes the ring holds the
last ten groups, byte for byte and nothing else, and the accumulator holds the open one. -/
theorem run_stores_groups (config : KmallocConfig) (calls : List Call)
    (hsuccess : Along System.step Call.WriteSucceeds (System.init config) calls) :
    let kernel := ((System.init config).run calls).kernel
    let closed := (groups (calls.map Call.data)).1
    let opened := (groups (calls.map Call.data)).2
    List.Forall₂ (Stores kernel.heap) kernel.dev.circularBuffer.stored
        ((closed.map List.flatten).rtake 10) ∧
      kernel.dev.circularBuffer.stored.length = min 10 closed.length ∧
      (∀ index, (kernel.dev.circularBuffer.entry index).buffptr = none ↔
        closed.length ≤ index.val) ∧
      Accumulates kernel.heap kernel.dev.writeAccumulator kernel.dev.accumulatorSize
        opened.flatten ∧
      newline ∉ opened.flatten ∧ kernel.dev.accumulatorSize = opened.flatten.length ∧
      (kernel.dev.writeAccumulator = none ↔ opened = []) := by
  intro kernel closed opened
  obtain ⟨lost, ⟨entries, hrep⟩, hnewline⟩ := run_groupedLog hsuccess
  have hstores := hrep.stores
  rw [← hrep.stored_eq] at hstores
  have hlength : kernel.commands.length = min closed.length 10 := by
    rw [hrep.commands_eq, Log.visible, length_rtake]
    exact congrArg (min · 10) (List.length_map _)
  refine ⟨hstores, ?_, fun index => ?_, hrep.accumulates, hnewline, hrep.accumulates.size_eq, ?_⟩
  · rw [hstores.length_eq, Nat.min_comm, ← hlength]
    exact congrArg List.length hrep.commands_eq.symm
  · rw [hrep.buffptr_eq_none_iff, hlength]
    have hlt : index.val < 10 := index.isLt
    omega
  · rw [hrep.accumulates.eq_none_iff]
    constructor
    · intro hempty
      by_contra hopened
      obtain ⟨chunk, hchunk⟩ := List.exists_mem_of_ne_nil _ hopened
      have hmem : chunk ∈ calls.map Call.data := by
        rw [← flatten_frames (newline ∈ ·) (calls.map Call.data)]
        exact List.mem_append_right _ hchunk
      exact data_ne_nil_of_mem hsuccess chunk hmem (List.flatten_eq_nil_iff.mp hempty chunk hchunk)
    · intro hopened
      change opened.flatten = []
      rw [hopened, List.flatten_nil]

/-- Two files taking turns: the command is made of both their writes. -/
theorem run_stores_groups_two_files :
    let calls := [plainWrite 0 [97], plainWrite 1 [98, 10], plainWrite 0 [99]]
    let kernel := ((System.init ⟨2 ^ 22, by decide, fun _ => 0⟩).run calls).kernel
    List.Forall₂ (Stores kernel.heap) kernel.dev.circularBuffer.stored [[97, 98, 10]] ∧
      Accumulates kernel.heap kernel.dev.writeAccumulator kernel.dev.accumulatorSize [99] := by
  intro calls kernel
  obtain ⟨hstores, -, -, haccumulates, -⟩ :=
    run_stores_groups ⟨2 ^ 22, by decide, fun _ => 0⟩ calls
      ⟨⟨by decide, rfl⟩, ⟨by decide, rfl⟩, ⟨by decide, rfl⟩, trivial⟩
  exact ⟨hstores, haccumulates⟩

/-! ### Lines

The commands should be the lines of what was written, however it was cut into writes. -/

/-- The lines of a byte stream, and the text after the last newline. -/
def lines (stream : Bytes) : List Bytes × Bytes := frames (· = newline) stream

/-- Among the writes with a newline in them, the last eleven end with it, and the last ten have no
other. -/
def LineByLine (chunks : List Bytes) : Prop :=
  let closing := chunks.filter fun chunk => decide (newline ∈ chunk)
  (∀ chunk ∈ closing.rtake 11, chunk.getLast? = some newline) ∧
    ∀ chunk ∈ closing.rtake 10, newline ∉ chunk.dropLast

/-- A group's text ends as the write that closed it does. -/
theorem forall₂_groups (chunks : List Bytes) :
    List.Forall₂ (fun text chunk => ∃ lead, text = lead ++ chunk ∧ newline ∉ lead ∧ newline ∈ chunk)
      ((groups chunks).1.map List.flatten)
      (chunks.filter fun chunk => decide (newline ∈ chunk)) := by
  rw [List.forall₂_map_left_iff]
  apply (forall₂_frames (newline ∈ ·) chunks).imp
  rintro group chunk ⟨body, rfl, hbody, hchunk⟩
  refine ⟨body.flatten, List.flatten_concat, fun hmem => ?_, hchunk⟩
  obtain ⟨other, hother, hnewline⟩ := List.mem_flatten.mp hmem
  exact hbody other hother hnewline

theorem lineByLine_iff (chunks : List Bytes) :
    LineByLine chunks ↔
      (∀ text ∈ ((groups chunks).1.map List.flatten).rtake 11, EndsClosed (· = newline) text) ∧
        ∀ text ∈ ((groups chunks).1.map List.flatten).rtake 10,
          ∀ byte ∈ text.dropLast, ¬ byte = newline := by
  have hgroups := forall₂_groups chunks
  have hends := forall₂_forall_mem_iff (P := EndsClosed (· = newline))
    (Q := fun chunk => chunk.getLast? = some newline) ?_ (forall₂_rtake hgroups 11)
  have hinner := forall₂_forall_mem_iff (P := fun text => ∀ byte ∈ text.dropLast, ¬ byte = newline)
    (Q := fun chunk => newline ∉ chunk.dropLast) ?_ (forall₂_rtake hgroups 10)
  · rw [hends, hinner]
    rfl
  · rintro text chunk ⟨lead, rfl, hlead, hchunk⟩
    rw [List.dropLast_append_of_ne_nil (List.ne_nil_of_mem hchunk)]
    constructor
    · intro hnot hmem
      exact hnot newline (List.mem_append_right _ hmem) rfl
    · rintro hnot byte hbyte rfl
      rcases List.mem_append.mp hbyte with hold | hnew
      · exact hlead hold
      · exact hnot hnew
  · rintro text chunk ⟨lead, rfl, -, hchunk⟩
    rw [EndsClosed, List.getLast?_append_of_ne_nil _ (List.ne_nil_of_mem hchunk)]
    simp

theorem run_lines_iff {config : KmallocConfig} {calls : List Call}
    (hsuccess : Along System.step Call.WriteSucceeds (System.init config) calls) :
    ((System.init config).run calls).kernel.commands =
        (lines (calls.map Call.data).flatten).1.rtake 10 ∧
      ((System.init config).run calls).kernel.pending = (lines (calls.map Call.data).flatten).2 ↔
      LineByLine (calls.map Call.data) := by
  obtain ⟨lost, hrefines⟩ := run_groupedLog hsuccess
  have hstream : (calls.map Call.data).flatten =
      ((groups (calls.map Call.data)).1.map List.flatten).flatten ++
        (groups (calls.map Call.data)).2.flatten := by
    calc
      (calls.map Call.data).flatten = ((groups (calls.map Call.data)).1.flatten ++
          (groups (calls.map Call.data)).2).flatten :=
        congrArg List.flatten (flatten_frames (newline ∈ ·) (calls.map Call.data)).symm
      _ = ((groups (calls.map Call.data)).1.map List.flatten).flatten ++
          (groups (calls.map Call.data)).2.flatten := by
        rw [List.flatten_append, List.flatten_flatten]
  have hopen : ∀ byte ∈ (groups (calls.map Call.data)).2.flatten, ¬ byte = newline := by
    rintro byte hbyte rfl
    exact newline_notMem_open _ hbyte
  have hpieces : ∀ text ∈ (groups (calls.map Call.data)).1.map List.flatten, text ≠ [] := by
    rintro text htext rfl
    obtain ⟨group, hgroup, hnil⟩ := List.mem_map.mp htext
    obtain ⟨body, chunk, rfl, -, hchunk⟩ := (isFrame_of_mem hgroup).exists_concat
    rw [List.flatten_concat] at hnil
    exact List.ne_nil_of_mem hchunk (List.append_eq_nil_iff.mp hnil).2
  rw [lineByLine_iff, hrefines.commands_eq, hrefines.pending_eq, lines, hstream]
  constructor
  · rintro ⟨hcommands, hpending⟩
    exact aligned_of_rtake_frames hpieces hcommands hpending
  · rintro ⟨hends, hinner⟩
    obtain ⟨hcommands, hpending⟩ := rtake_frames_of_aligned hopen hends hinner
    exact ⟨hcommands.symm, hpending.symm⟩

/-- **The commands are the lines of the stream, however it was split into writes, exactly when both
splittings are line by line.** -/
theorem splitting_independent_iff (config : KmallocConfig) (calls₁ calls₂ : List Call)
    (hsuccess₁ : Along System.step Call.WriteSucceeds (System.init config) calls₁)
    (hsuccess₂ : Along System.step Call.WriteSucceeds (System.init config) calls₂)
    (hstream : (calls₁.map Call.data).flatten = (calls₂.map Call.data).flatten) :
    let kernel₁ := ((System.init config).run calls₁).kernel
    let kernel₂ := ((System.init config).run calls₂).kernel
    let spec := lines (calls₁.map Call.data).flatten
    (kernel₁.commands = kernel₂.commands ∧ kernel₁.pending = kernel₂.pending) ∧
        kernel₁.commands = spec.1.rtake 10 ∧ kernel₁.pending = spec.2 ↔
      LineByLine (calls₁.map Call.data) ∧ LineByLine (calls₂.map Call.data) := by
  intro kernel₁ kernel₂ spec
  rw [← run_lines_iff hsuccess₁, ← run_lines_iff hsuccess₂, ← hstream]
  constructor
  · rintro ⟨⟨hcommands, hpending⟩, hlines, hrest⟩
    exact ⟨⟨hlines, hrest⟩, hcommands.symm.trans hlines, hpending.symm.trans hrest⟩
  · rintro ⟨⟨hlines, hrest⟩, hlines', hrest'⟩
    exact ⟨⟨hlines.trans hlines'.symm, hrest.trans hrest'.symm⟩, hlines, hrest⟩

theorem splitting_independent_iff_one_line :
    let config : KmallocConfig := ⟨2 ^ 22, by decide, fun _ => 0⟩
    ((System.init config).run [plainWrite 0 [97, 10]]).kernel.commands =
        ((System.init config).run [plainWrite 0 [97], plainWrite 0 [10]]).kernel.commands ∧
      ((System.init config).run [plainWrite 0 [97, 10]]).kernel.pending =
        ((System.init config).run [plainWrite 0 [97], plainWrite 0 [10]]).kernel.pending :=
  ((splitting_independent_iff ⟨2 ^ 22, by decide, fun _ => 0⟩ [plainWrite 0 [97, 10]]
    [plainWrite 0 [97], plainWrite 0 [10]] ⟨⟨by decide, rfl⟩, trivial⟩
    ⟨⟨by decide, rfl⟩, ⟨by decide, rfl⟩, trivial⟩ rfl).mpr
      (by unfold LineByLine; decide)).1

/-- Writing `first\nsec` as `fir` and `st\nsec` makes all of it one command; as `first\n` and `sec`
it is one line and a rest. -/
theorem splitting_matters :
    let config : KmallocConfig := ⟨2 ^ 22, by decide, fun _ => 0⟩
    let calls₁ := [plainWrite 0 [102, 105, 114], plainWrite 0 [115, 116, 10, 115, 101, 99]]
    let calls₂ := [plainWrite 0 [102, 105, 114, 115, 116, 10], plainWrite 0 [115, 101, 99]]
    (Along System.step Call.WriteSucceeds (System.init config) calls₁ ∧
      Along System.step Call.WriteSucceeds (System.init config) calls₂ ∧
      (calls₁.map Call.data).flatten = (calls₂.map Call.data).flatten) ∧
    ((System.init config).run calls₁).kernel.commands ≠
      ((System.init config).run calls₂).kernel.commands := by
  intro config calls₁ calls₂
  refine ⟨⟨⟨⟨by decide, rfl⟩, ⟨by decide, rfl⟩, trivial⟩,
    ⟨⟨by decide, rfl⟩, ⟨by decide, rfl⟩, trivial⟩, rfl⟩, ?_⟩
  decide

end AesdChar
