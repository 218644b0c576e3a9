import AesdChar.Proof.Read
import AesdChar.Proof.Write

/-!
# What a run of calls does

Of the four operations only the write changes the device, so a run of calls is a run of the log. The
invariant of a run is that the device represents some log and that every file position fits its
type; the ghost histories of commits and evictions are that log's.
-/

namespace AesdChar

open Lib

/-! ### The log -/

/-- **The write refines the log's write**, and blocks once lost stay lost. -/
theorem aesdWrite_refines {kernel : Kernel} {log : Log} {lost : Finset Ptr}
    (h : Refines kernel log lost) (env : WriteEnv) (buf : Option Bytes) (fPos : Int) :
    ∃ lost', lost ⊆ lost' ∧ Refines (aesdWrite env kernel buf fPos).kernel
      (log.write (buf.getD []) (Log.effect (Admits env kernel (buf.getD []))
        (env.addEntryKmalloc = true) (buf.getD []))) lost' := by
  obtain ⟨hcase, -⟩ := aesdWrite_cases h env buf fPos
  cases hcase with
  | refused hadmits _ _ _ h =>
      rw [Log.effect, if_neg hadmits]
      exact ⟨lost, subset_rfl, h⟩
  | extended hadmits hnewline _ _ _ h =>
      rw [Log.effect, if_pos hadmits, if_neg hnewline]
      exact ⟨lost, subset_rfl, h⟩
  | committed hadmits hnewline hstored _ _ _ _ copy _ h =>
      rw [Log.effect, if_pos hadmits, if_pos hnewline, if_pos hstored]
      exact ⟨insert copy lost, Finset.subset_insert copy lost, h⟩
  | dropped hadmits hnewline hfail _ _ _ text _ h =>
      rw [Log.effect, if_pos hadmits, if_pos hnewline, if_neg (by simp [hfail])]
      exact ⟨insert text lost, Finset.subset_insert text lost, h⟩

theorem refines_init (config : KmallocConfig) : Refines (aesdInitModule config) Log.empty ∅ := by
  have hempty : ∀ block, (aesdInitModule config).heap.view block = none := by
    intro block
    rw [aesdInitModule, BlockHeap.view_empty]
  refine ⟨⟨[], ?_⟩, List.not_mem_nil⟩
  refine ⟨config.maxSize_lt, BlockHeap.wellFormed_empty _ _, rfl, tracks_init, rfl, .nil, .idle,
    List.nodup_nil, fun block => ?_, fun block hblock => absurd hblock (Finset.notMem_empty block)⟩
  rw [hempty]
  simp [aesdInitModule, AesdDev.owned, AesdCircularBuffer.stored, tracks_init.count_eq]

namespace Refines

variable {kernel : Kernel} {log : Log} {lost : Finset Ptr}

theorem commands_eq (h : Refines kernel log lost) :
    kernel.commands = log.visible maxWriteOperationsSupported := by
  obtain ⟨⟨_, hrep⟩, -⟩ := h
  exact hrep.commands_eq

theorem pending_eq (h : Refines kernel log lost) : kernel.pending = log.pending := by
  obtain ⟨⟨_, hrep⟩, -⟩ := h
  exact hrep.pending_eq

theorem full_iff (h : Refines kernel log lost) :
    kernel.dev.circularBuffer.full = true ↔
      maxWriteOperationsSupported ≤ log.committed.length := by
  obtain ⟨⟨_, hrep⟩, -⟩ := h
  exact hrep.full_iff

theorem commands_of_committed (hold : Refines kernel log lost) {kernel' : Kernel} {command : Bytes}
    {lost' : Finset Ptr} (hnew : Refines kernel' ⟨log.committed ++ [command], []⟩ lost') :
    kernel'.commands = (if kernel.dev.circularBuffer.full = true then kernel.commands.tail
      else kernel.commands) ++ [command] := by
  rw [hnew.commands_eq, Log.visible_concat _ _ (by decide), hold.commands_eq]
  congr 1
  exact if_congr hold.full_iff.symm rfl rfl

end Refines

theorem inOffs_ne_of_pushed {before after : Kernel} {entry : AesdBufferEntry}
    (hring : after.dev.circularBuffer = before.dev.circularBuffer.pushed entry) :
    after.dev.circularBuffer.inOffs ≠ before.dev.circularBuffer.inOffs := by
  rw [hring]
  exact before.dev.circularBuffer.inOffs_pushed_ne entry

/-- The ghost observations of a write are what it did to the log. -/
theorem WriteCase.observed {env : WriteEnv} {kernel : Kernel} {data : Bytes} {fPos : Int}
    {log : Log} {lost : Finset Ptr} {outcome : Outcome} (hold : Refines kernel log lost)
    (hcase : WriteCase env kernel data fPos log lost outcome) :
    ∃ log' lost', Refines outcome.kernel log' lost' ∧
      log'.committed = log.committed ++ committedBy kernel outcome.kernel ∧
      log'.evicted maxWriteOperationsSupported =
        log.evicted maxWriteOperationsSupported ++ evictedBy kernel outcome.kernel := by
  have hunmoved : outcome.kernel.dev.circularBuffer = kernel.dev.circularBuffer →
      committedBy kernel outcome.kernel = [] ∧ evictedBy kernel outcome.kernel = [] := by
    intro hring
    rw [committedBy, evictedBy, hring, if_pos rfl, if_pos rfl]
    exact ⟨rfl, rfl⟩
  cases hcase with
  | refused _ _ _ hdev h =>
      obtain ⟨hcommitted, hevicted⟩ := hunmoved (by rw [hdev])
      exact ⟨_, _, h, by rw [hcommitted, List.append_nil], by rw [hevicted, List.append_nil]⟩
  | extended _ _ _ _ hring h =>
      obtain ⟨hcommitted, hevicted⟩ := hunmoved hring
      exact ⟨_, _, h, by rw [hcommitted, List.append_nil],
        by rw [hevicted, List.append_nil]; rfl⟩
  | dropped _ _ _ _ _ hring _ _ h =>
      obtain ⟨hcommitted, hevicted⟩ := hunmoved hring
      exact ⟨_, _, h, by rw [hcommitted, List.append_nil],
        by rw [hevicted, List.append_nil]; rfl⟩
  | committed _ _ _ _ _ entry hring _ _ h =>
      have hmoved := inOffs_ne_of_pushed hring
      refine ⟨_, _, h, ?_, ?_⟩
      · rw [committedBy, if_neg hmoved, hold.commands_of_committed h, List.getLast?_concat]
        rfl
      · rw [evictedBy, if_neg hmoved, Log.evicted_concat _ _ (by decide), hold.commands_eq]
        congr 1
        exact if_congr hold.full_iff.symm rfl rfl

/-! ### Positions

The two operations that seek only choose a position: the old one, or one that went through the
type. -/

/-- A value of `loff_t`. -/
def InRange (pos : Int) : Prop := -2 ^ 63 ≤ pos ∧ pos < 2 ^ 63

theorem loffT_inRange (x : Int) : InRange (loffT x) :=
  ⟨Int.le_bmod (by decide), Int.bmod_lt (by decide)⟩

theorem clampPos_inRange {newPos : Int} (h : InRange newPos) (totalSize : Nat) :
    InRange (clampPos newPos totalSize) := by
  unfold clampPos
  split
  · exact ⟨by decide, by decide⟩
  split
  · exact loffT_inRange _
  · exact h

theorem aesdLlseek_cases (lock : Bool) (kernel : Kernel) (fPos offset whence : Int) :
    ∃ ret pos, aesdLlseek lock kernel fPos offset whence = ⟨ret, kernel, pos⟩ ∧
      (pos = fPos ∨ ∃ newPos totalSize, (newPos = offset ∨ ∃ x, newPos = loffT x) ∧
        pos = clampPos newPos totalSize) := by
  unfold aesdLlseek
  split
  · exact ⟨_, _, rfl, Or.inl rfl⟩
  dsimp only
  split
  · exact ⟨_, _, rfl, Or.inr ⟨_, _, Or.inl rfl, rfl⟩⟩
  split
  · exact ⟨_, _, rfl, Or.inr ⟨_, _, Or.inr ⟨_, rfl⟩, rfl⟩⟩
  split
  · exact ⟨_, _, rfl, Or.inr ⟨_, _, Or.inr ⟨_, rfl⟩, rfl⟩⟩
  · exact ⟨_, _, rfl, Or.inl rfl⟩

@[simp] theorem aesdLlseek_kernel (lock : Bool) (kernel : Kernel) (fPos offset whence : Int) :
    (aesdLlseek lock kernel fPos offset whence).kernel = kernel := by
  obtain ⟨ret, pos, heq, -⟩ := aesdLlseek_cases lock kernel fPos offset whence
  rw [heq]

theorem aesdLlseek_inRange (lock : Bool) (kernel : Kernel) {fPos offset : Int}
    (hpos : InRange fPos) (hoffset : InRange offset) (whence : Int) :
    InRange (aesdLlseek lock kernel fPos offset whence).fPos := by
  obtain ⟨ret, pos, heq, rfl | ⟨newPos, totalSize, hnew, rfl⟩⟩ :=
    aesdLlseek_cases lock kernel fPos offset whence
  · rw [heq]
    exact hpos
  · rw [heq]
    apply clampPos_inRange
    rcases hnew with rfl | ⟨x, rfl⟩
    · exact hoffset
    · exact loffT_inRange x

theorem aesdUnlockedIoctl_cases (env : IoctlEnv) (kernel : Kernel) (fPos : Int) (cmd : UInt32)
    (seekto : AesdSeekto) :
    ∃ ret pos, aesdUnlockedIoctl env kernel fPos cmd seekto = ⟨ret, kernel, pos⟩ ∧
      (pos = fPos ∨ ∃ x, pos = loffT x) := by
  unfold aesdUnlockedIoctl
  split
  · exact ⟨_, _, rfl, Or.inl rfl⟩
  split
  · exact ⟨_, _, rfl, Or.inl rfl⟩
  split
  · exact ⟨_, _, rfl, Or.inl rfl⟩
  dsimp only
  split
  · exact ⟨_, _, rfl, Or.inl rfl⟩
  split
  · exact ⟨_, _, rfl, Or.inl rfl⟩
  · exact ⟨_, _, rfl, Or.inr ⟨_, rfl⟩⟩

@[simp] theorem aesdUnlockedIoctl_kernel (env : IoctlEnv) (kernel : Kernel) (fPos : Int)
    (cmd : UInt32) (seekto : AesdSeekto) :
    (aesdUnlockedIoctl env kernel fPos cmd seekto).kernel = kernel := by
  obtain ⟨ret, pos, heq, -⟩ := aesdUnlockedIoctl_cases env kernel fPos cmd seekto
  rw [heq]

theorem aesdUnlockedIoctl_inRange (env : IoctlEnv) (kernel : Kernel) {fPos : Int}
    (hpos : InRange fPos) (cmd : UInt32) (seekto : AesdSeekto) :
    InRange (aesdUnlockedIoctl env kernel fPos cmd seekto).fPos := by
  obtain ⟨ret, pos, heq, rfl | ⟨x, rfl⟩⟩ := aesdUnlockedIoctl_cases env kernel fPos cmd seekto
  · rw [heq]
    exact hpos
  · rw [heq]
    exact loffT_inRange x

/-- The invariant of a run. -/
structure Follows (system : System) (log : Log) (lost : Finset Ptr) : Prop where
  refines : Refines system.kernel log lost
  inRange : ∀ file, InRange (system.fPos file)

theorem follows_init (config : KmallocConfig) : Follows (System.init config) Log.empty ∅ :=
  ⟨refines_init config, fun _ => loffT_inRange 0⟩

namespace Follows

variable {system : System} {log : Log} {lost : Finset Ptr}

theorem settle (h : Follows system log lost) {log' : Log} {lost' : Finset Ptr} {outcome : Outcome}
    (hrefines : Refines outcome.kernel log' lost') (file : Nat) (hrange : InRange outcome.fPos) :
    Follows (system.settle file outcome) log' lost' := by
  refine ⟨hrefines, fun other => ?_⟩
  unfold System.settle
  split
  · by_cases heq : other = file
    · subst heq
      simpa using hrange
    · simpa [heq] using h.inRange other
  · exact h.inRange other

theorem setPos (h : Follows system log lost) (file : Nat) {pos : Int}
    (hrange : InRange pos) :
    Follows ⟨system.kernel, Function.update system.fPos file pos⟩ log lost := by
  refine ⟨h.refines, fun other => ?_⟩
  by_cases heq : other = file
  · subst heq
    simpa using hrange
  · simpa [heq] using h.inRange other

/-- A read always returns, leaves the device alone and a position that fits. -/
theorem read_returns (h : Follows system log lost) (env : ReadEnv) (count file : Nat) :
    ∃ outcome, aesdRead env system.kernel count (system.fPos file) = some outcome ∧
      outcome.kernel = system.kernel ∧ InRange outcome.fPos := by
  obtain ⟨⟨entries, hrep⟩, -⟩ := h.refines
  obtain ⟨hlow, hhigh⟩ := h.inRange file
  rcases lt_or_ge (system.fPos file) 0 with hneg | hnonneg
  · obtain ⟨ret, -, hread⟩ := hrep.aesdRead_of_neg env count hlow hneg
    exact ⟨_, hread, rfl, hlow, hhigh⟩
  · obtain ⟨pos, hpos⟩ := Int.eq_ofNat_of_zero_le hnonneg
    have hlt : pos < 2 ^ 63 := by omega
    obtain ⟨copied, ret, hread, hcopied, -⟩ := hrep.aesdRead_spec env count hlt
    have hcontent := hrep.length_content_lt
    rw [hpos]
    exact ⟨_, hread, rfl, ⟨by simp only; omega, by simp only; omega⟩⟩

theorem step_write (h : Follows system log lost) {file : Nat} {env : WriteEnv} {buf : Option Bytes}
    {log' : Log} {lost' : Finset Ptr}
    (hrefines : Refines (aesdWrite env system.kernel buf (system.fPos file)).kernel log' lost') :
    Follows (system.step (.write file env buf)) log' lost' := by
  apply h.settle hrefines file
  obtain ⟨hcase, -⟩ := aesdWrite_cases h.refines env buf (system.fPos file)
  cases hcase with
  | refused _ _ hpos _ _ => rw [hpos]; exact h.inRange file
  | extended _ _ _ hpos _ _ => rw [hpos]; exact loffT_inRange _
  | committed _ _ _ _ hpos _ _ _ _ _ => rw [hpos]; exact loffT_inRange _
  | dropped _ _ _ _ hpos _ _ _ _ => rw [hpos]; exact loffT_inRange _

theorem step_other (h : Follows system log lost) {call : Call}
    (hcall : ∀ file env buf, call ≠ .write file env buf) :
    (system.step call).kernel = system.kernel ∧ Follows (system.step call) log lost := by
  cases call with
  | write file env buf => exact absurd rfl (hcall file env buf)
  | read file env count =>
      obtain ⟨outcome, hread, hkernel, hrange⟩ := h.read_returns env count file
      have hstep : system.step (.read file env count) = system.settle file outcome.toOutcome := by
        simp only [System.step, hread]
      rw [hstep]
      exact ⟨hkernel, h.settle (by rw [hkernel]; exact h.refines) file hrange⟩
  | llseek file lock offset whence =>
      simp only [System.step, aesdLlseek_kernel]
      exact ⟨trivial, h.setPos file
        (aesdLlseek_inRange lock system.kernel (h.inRange file) (loffT_inRange offset) whence)⟩
  | ioctl file env cmd seekto =>
      simp only [System.step, aesdUnlockedIoctl_kernel]
      exact ⟨trivial, h.setPos file
        (aesdUnlockedIoctl_inRange env system.kernel (h.inRange file) cmd seekto)⟩

theorem step (h : Follows system log lost) (call : Call) :
    ∃ log' lost', Follows (system.step call) log' lost' ∧
      log'.committed = log.committed ++ committedBy system.kernel (system.step call).kernel ∧
      log'.evicted maxWriteOperationsSupported = log.evicted maxWriteOperationsSupported ++
        evictedBy system.kernel (system.step call).kernel := by
  by_cases hcall : ∃ file env buf, call = .write file env buf
  · obtain ⟨file, env, buf, rfl⟩ := hcall
    obtain ⟨hcase, -⟩ := aesdWrite_cases h.refines env buf (system.fPos file)
    obtain ⟨log', lost', hrefines, hcommitted, hevicted⟩ := hcase.observed h.refines
    exact ⟨log', lost', h.step_write hrefines, hcommitted, hevicted⟩
  · obtain ⟨hkernel, hfollows⟩ := h.step_other fun file env buf heq => hcall ⟨file, env, buf, heq⟩
    refine ⟨log, lost, hfollows, ?_, ?_⟩
    · rw [hkernel, committedBy, if_pos rfl, List.append_nil]
    · rw [hkernel, evictedBy, if_pos rfl, List.append_nil]

end Follows

/-- **Every run** follows a log, whose commits and evictions are those observed in the run. -/
theorem run_follows (config : KmallocConfig) (calls : List Call) :
    ∃ log lost, Follows ((System.init config).run calls) log lost ∧
      log.committed = (System.init config).committed calls ∧
      log.evicted maxWriteOperationsSupported = (System.init config).evicted calls := by
  have hrun : ∀ (calls : List Call) {system : System} {log : Log} {lost : Finset Ptr},
      Follows system log lost → ∃ log' lost', Follows (system.run calls) log' lost' ∧
        log'.committed = log.committed ++ system.committed calls ∧
        log'.evicted maxWriteOperationsSupported =
          log.evicted maxWriteOperationsSupported ++ system.evicted calls := by
    intro calls
    induction calls with
    | nil =>
        intro system log lost h
        exact ⟨log, lost, h, (List.append_nil _).symm, (List.append_nil _).symm⟩
    | cons call calls ih =>
        intro system log lost h
        obtain ⟨log', lost', hstep, hcommitted, hevicted⟩ := h.step call
        obtain ⟨log'', lost'', hrun, hcommitted', hevicted'⟩ := ih hstep
        refine ⟨log'', lost'', hrun, ?_, ?_⟩
        · rw [hcommitted', hcommitted, List.append_assoc]
          rfl
        · rw [hevicted', hevicted, List.append_assoc]
          rfl
  obtain ⟨log, lost, hfollows, hcommitted, hevicted⟩ := hrun calls (follows_init config)
  exact ⟨log, lost, hfollows, hcommitted, hevicted⟩

/-- In particular the device holds what some log says. -/
theorem run_represents (config : KmallocConfig) (calls : List Call) :
    ∃ entries log lost,
      Represents ((System.init config).run calls).kernel entries log lost := by
  obtain ⟨log, lost, hfollows, -, -⟩ := run_follows config calls
  obtain ⟨⟨entries, h⟩, -⟩ := hfollows.refines
  exact ⟨entries, log, lost, h⟩

end AesdChar
