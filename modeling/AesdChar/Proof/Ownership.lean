import AesdChar.Proof.Step

/-!
# Who owns the memory

The blocks a device points at are live, and no two of its pointers are equal, so that freeing what
falls out of the ring can never free something still in use. The converse fails: each completed
command leaves a block that nobody points at, the copy the ring made and then overwrote or, when
that copy could not be allocated, the accumulator itself; and unloading the module does not look at
the accumulator.
-/

namespace AesdChar

open Lib

/-! ### Unloading the module -/

theorem foldl_freeSlot {slots : List Slot} (hnodup : slots.Nodup) (kernel : Kernel) :
    (slots.foldl freeSlot kernel).heap =
      (slots.filterMap fun index => (kernel.dev.circularBuffer.entry index).buffptr).foldl
        BlockHeap.free kernel.heap := by
  induction slots generalizing kernel with
  | nil => rfl
  | cons index slots ih =>
      obtain ⟨hnotMem, hnodup⟩ := List.nodup_cons.mp hnodup
      rw [List.foldl_cons, ih hnodup]
      -- the slots still to come are not the one just emptied
      have hrest : ∀ other ∈ slots,
          ((freeSlot kernel index).dev.circularBuffer.entry other).buffptr =
            (kernel.dev.circularBuffer.entry other).buffptr := by
        intro other hother
        have hne : other ≠ index := fun heq => hnotMem (heq ▸ hother)
        unfold freeSlot
        split
        · rfl
        · exact congrArg AesdBufferEntry.buffptr (Function.update_of_ne hne _ _)
      rw [List.filterMap_congr hrest]
      cases hptr : (kernel.dev.circularBuffer.entry index).buffptr with
      | none => simp [freeSlot, hptr]
      | some block => simp [freeSlot, hptr, kfree]

theorem AesdCircularBuffer.Tracks.perm_buffptrs {buffer : AesdCircularBuffer}
    {entries : List AesdBufferEntry} (h : buffer.Tracks entries) :
    (foreachSlots.filterMap fun index => (buffer.entry index).buffptr).Perm
      (buffer.stored.filterMap (·.buffptr)) := by
  have hperm := h.perm.filterMap (·.buffptr)
  rw [List.filterMap_map, List.filterMap_append, ← h.stored_eq] at hperm
  have hblank : (List.replicate (maxWriteOperationsSupported - entries.length) zeroEntry).filterMap
      (·.buffptr) = [] := by
    simp [zeroEntry]
  rw [hblank, List.append_nil] at hperm
  exact hperm

/-- **Unloading** frees what the ring points at, each block once, and leaves the rest. -/
theorem Represents.cleanup {kernel : Kernel} {entries : List AesdBufferEntry} {log : Log}
    {lost : Finset Ptr} (h : Represents kernel entries log lost) :
    (aesdCleanupModule kernel).heap.reports = [] ∧ ∀ block,
      block ∈ (aesdCleanupModule kernel).heap.live ↔
        kernel.dev.writeAccumulator = some block ∨ block ∈ lost := by
  have hperm := h.tracks.perm_buffptrs
  have hnodup : (kernel.dev.circularBuffer.stored.filterMap (·.buffptr)).Nodup :=
    h.nodup.of_append_left
  have hbecomes := kernel.heap.becomes_foldl_free h.wellFormed (hperm.nodup_iff.mpr hnodup)
    fun block hblock => h.view_ne_none (List.mem_append_left _ (hperm.mem_iff.mp hblock))
  have hslots : foreachSlots.Nodup := List.nodup_finRange _
  rw [← foldl_freeSlot hslots kernel] at hbecomes
  refine ⟨hbecomes.reports_eq.trans h.clean, fun block => ?_⟩
  rw [BlockHeap.mem_live_iff, aesdCleanupModule, hbecomes.view_eq]
  beta_reduce
  have howned : block ∈ kernel.dev.owned ↔
      block ∈ kernel.dev.circularBuffer.stored.filterMap (·.buffptr) ∨
        kernel.dev.writeAccumulator = some block := by
    rw [AesdDev.owned, List.mem_append, Option.mem_toList]
  have hlive := h.live_iff block
  have hlost := h.lost_notMem block
  by_cases hstored : block ∈ kernel.dev.circularBuffer.stored.filterMap (·.buffptr)
  · rw [if_pos (hperm.mem_iff.mpr hstored)]
    have hacc : kernel.dev.writeAccumulator ≠ some block := by
      intro hacc
      apply List.disjoint_of_nodup_append h.nodup hstored
      simp [hacc]
    have hnotLost : block ∉ lost := fun hmem => hlost hmem (howned.mpr (Or.inl hstored))
    simp [hacc, hnotLost]
  · rw [if_neg fun hmem => hstored (hperm.mem_iff.mp hmem), hlive, howned]
    simp [hstored]

/-! ### Safety -/

/-- **No block is freed twice or used after it was freed**, in any run and at unloading: the checker
never reports anything, and the device's pointers are live and distinct. -/
theorem run_memory_safe (config : KmallocConfig) (calls : List Call) :
    let system := (System.init config).run calls
    system.kernel.heap.reports = [] ∧
      (∀ block ∈ system.kernel.dev.owned, block ∈ system.kernel.heap.live) ∧
      system.kernel.dev.owned.Nodup ∧ (aesdCleanupModule system.kernel).heap.reports = [] ∧
      ∀ file env count, ∃ outcome,
        aesdRead env system.kernel count (system.fPos file) = some outcome ∧
          outcome.kernel = system.kernel := by
  intro system
  obtain ⟨log, lost, hfollows, -, -⟩ := run_follows config calls
  obtain ⟨⟨entries, hrep⟩, -⟩ := hfollows.refines
  refine ⟨hrep.clean, fun block hblock => ?_, hrep.nodup, hrep.cleanup.1, fun file env count => ?_⟩
  · exact BlockHeap.mem_live_iff.mpr (hrep.view_ne_none hblock)
  · obtain ⟨outcome, hread, hkernel, -⟩ := hfollows.read_returns env count file
    exact ⟨outcome, hread, hkernel⟩

/-! ### Leaks -/

/-- Every live block is one the device points at. -/
def OwnsAllLive (kernel : Kernel) : Prop := kernel.heap.live = kernel.dev.owned.toFinset

/-- The call is a write that gets as far as the accumulator. -/
def Call.Admitted (system : System) : Call → Prop
  | .write _ env buf => Admits env system.kernel (buf.getD [])
  | _ => False

/-- The call is such a write, and it completes a command. -/
def Call.Completes (system : System) (call : Call) : Prop :=
  call.Admitted system ∧ newline ∈ call.data

theorem Represents.ownsAllLive_iff {kernel : Kernel} {entries : List AesdBufferEntry} {log : Log}
    {lost : Finset Ptr} (h : Represents kernel entries log lost) :
    OwnsAllLive kernel ↔ lost = ∅ := by
  have hlive : ∀ block, block ∈ kernel.heap.live ↔ block ∈ kernel.dev.owned ∨ block ∈ lost :=
    fun block => BlockHeap.mem_live_iff.trans (h.live_iff block)
  rw [OwnsAllLive, Finset.ext_iff, Finset.eq_empty_iff_forall_notMem]
  constructor
  · intro heq block hblock
    have howned := (heq block).mp ((hlive block).mpr (Or.inr hblock))
    exact h.lost_notMem block hblock (List.mem_toFinset.mp howned)
  · intro hempty block
    rw [hlive, List.mem_toFinset]
    exact or_iff_left (hempty block)

/-- **One call** loses a block exactly when it completes a command; otherwise it extends the pending
text exactly when it is admitted. -/
theorem Follows.step_lost {system : System} {log : Log} {lost : Finset Ptr}
    (h : Follows system log lost) (call : Call) :
    ∃ log' lost', Follows (system.step call) log' lost' ∧ lost ⊆ lost' ∧
      (lost' = lost ↔ ¬ call.Completes system) ∧ (¬ call.Completes system →
        ∃ more, log'.pending = log.pending ++ more ∧ (more = [] ↔ ¬ call.Admitted system)) := by
  by_cases hcall : ∃ file env buf, call = .write file env buf
  swap
  · have hother : ∀ file env buf, call ≠ .write file env buf := fun file env buf heq =>
      hcall ⟨file, env, buf, heq⟩
    have hadmitted : ¬ call.Admitted system := by
      cases call with
      | write file env buf => exact absurd rfl (hother file env buf)
      | read => exact not_false
      | llseek => exact not_false
      | ioctl => exact not_false
    refine ⟨log, lost, (h.step_other hother).2, subset_rfl, ?_, fun _ => ⟨[], ?_, ?_⟩⟩
    · exact iff_of_true rfl fun hcompletes => hadmitted hcompletes.1
    · exact (List.append_nil _).symm
    · exact iff_of_true rfl hadmitted
  obtain ⟨file, env, buf, rfl⟩ := hcall
  have hgrows : ∀ {block : Ptr}, block ∉ lost → insert block lost ≠ lost := by
    intro block hnotMem heq
    exact hnotMem (Finset.insert_eq_self.mp heq)
  obtain ⟨hcase, -⟩ := aesdWrite_cases h.refines env buf (system.fPos file)
  cases hcase with
  | refused hadmits _ _ _ hrefines =>
      refine ⟨log, lost, h.step_write hrefines, subset_rfl, ?_, fun _ => ⟨[], ?_, ?_⟩⟩
      · exact iff_of_true rfl fun hcompletes => hadmits hcompletes.1
      · exact (List.append_nil _).symm
      · exact iff_of_true rfl hadmits
  | extended hadmits hnewline _ _ _ hrefines =>
      refine ⟨_, lost, h.step_write hrefines, subset_rfl, ?_, fun _ => ⟨buf.getD [], rfl, ?_⟩⟩
      · exact iff_of_true rfl fun hcompletes => hnewline hcompletes.2
      · exact iff_of_false hadmits.1 (not_not_intro hadmits)
  | committed hadmits hnewline _ _ _ _ _ copy hcopy hrefines =>
      refine ⟨_, _, h.step_write hrefines, Finset.subset_insert copy lost, ?_, fun hnot => ?_⟩
      · exact iff_of_false (hgrows hcopy) (not_not_intro ⟨hadmits, hnewline⟩)
      · exact absurd ⟨hadmits, hnewline⟩ hnot
  | dropped hadmits hnewline _ _ _ _ text htext hrefines =>
      refine ⟨_, _, h.step_write hrefines, Finset.subset_insert text lost, ?_, fun hnot => ?_⟩
      · exact iff_of_false (hgrows htext) (not_not_intro ⟨hadmits, hnewline⟩)
      · exact absurd ⟨hadmits, hnewline⟩ hnot

/-- The same over a run: blocks once lost stay lost, and pending text once there stays there until a
command is completed. -/
theorem run_lost (calls : List Call) {system : System} {log : Log} {lost : Finset Ptr}
    (h : Follows system log lost) :
    ∃ log' lost', Follows (system.run calls) log' lost' ∧ lost ⊆ lost' ∧
      (lost' = lost ↔ Along System.step (fun s call => ¬ call.Completes s) system calls) ∧
      (Along System.step (fun s call => ¬ call.Completes s) system calls →
        ∃ more, log'.pending = log.pending ++ more ∧
          (more = [] ↔ Along System.step (fun s call => ¬ call.Admitted s) system calls)) := by
  induction calls generalizing system log lost with
  | nil =>
      refine ⟨log, lost, h, subset_rfl, iff_of_true rfl trivial, fun _ => ⟨[], ?_, ?_⟩⟩
      · exact (List.append_nil _).symm
      · exact iff_of_true rfl trivial
  | cons call calls ih =>
      obtain ⟨log₁, lost₁, hstep, hsub₁, hlost₁, hmore₁⟩ := h.step_lost call
      obtain ⟨log₂, lost₂, hrun, hsub₂, hlost₂, hmore₂⟩ := ih hstep
      refine ⟨log₂, lost₂, hrun, hsub₁.trans hsub₂, ?_, ?_⟩
      · constructor
        · rintro rfl
          have heq : lost₁ = lost₂ := Finset.Subset.antisymm hsub₂ hsub₁
          exact ⟨hlost₁.mp heq, hlost₂.mp heq.symm⟩
        · rintro ⟨hcall, hcalls⟩
          exact (hlost₂.mpr hcalls).trans (hlost₁.mpr hcall)
      · rintro ⟨hcall, hcalls⟩
        obtain ⟨more₁, hpending₁, hnil₁⟩ := hmore₁ hcall
        obtain ⟨more₂, hpending₂, hnil₂⟩ := hmore₂ hcalls
        refine ⟨more₁ ++ more₂, by rw [hpending₂, hpending₁, List.append_assoc], ?_⟩
        rw [List.append_eq_nil_iff, hnil₁, hnil₂]
        rfl

/-- **What leaks.** After every call the live blocks are those the device points at exactly when no
command is ever completed; and with unloading counted in, exactly when no write ever gets as far as
the accumulator. -/
theorem leaks_nothing_iff (config : KmallocConfig) (calls : List Call) :
    let initial := System.init config
    let ownsAll := ∀ before after, calls = before ++ after → OwnsAllLive (initial.run before).kernel
    (ownsAll ↔ Along System.step (fun s call => ¬ call.Completes s) initial calls) ∧
      (ownsAll ∧ (aesdCleanupModule (initial.run calls).kernel).heap.live = ∅ ↔
        Along System.step (fun s call => ¬ call.Admitted s) initial calls) := by
  intro initial ownsAll
  have howns : ownsAll ↔ Along System.step (fun s call => ¬ call.Completes s) initial calls := by
    constructor
    · intro hall
      obtain ⟨log, lost, hfollows, -, hlost, -⟩ := run_lost calls (follows_init config)
      obtain ⟨⟨entries, hrep⟩, -⟩ := hfollows.refines
      exact hlost.mp (hrep.ownsAllLive_iff.mp (hall calls [] (List.append_nil _).symm))
    · rintro halong before after rfl
      obtain ⟨log, lost, hfollows, -, hlost, -⟩ := run_lost before (follows_init config)
      obtain ⟨⟨entries, hrep⟩, -⟩ := hfollows.refines
      exact hrep.ownsAllLive_iff.mpr (hlost.mpr ((along_append _ _ _).mp halong).1)
  refine ⟨howns, ?_⟩
  rw [howns]
  obtain ⟨log, lost, hfollows, -, hlost, hmore⟩ := run_lost calls (follows_init config)
  obtain ⟨⟨entries, hrep⟩, -⟩ := hfollows.refines
  have hcleanup : (aesdCleanupModule (initial.run calls).kernel).heap.live = ∅ ↔
      log.pending = [] ∧ lost = ∅ := by
    rw [Finset.eq_empty_iff_forall_notMem, ← hrep.accumulates.eq_none_iff,
      Option.eq_none_iff_forall_ne_some, Finset.eq_empty_iff_forall_notMem, ← forall_and]
    apply forall_congr'
    intro block
    rw [hrep.cleanup.2, not_or]
  rw [hcleanup]
  constructor
  · rintro ⟨halong, hpending, -⟩
    obtain ⟨more, hmore', hnil⟩ := hmore halong
    have hmore_nil : more = [] := hmore'.symm.trans hpending
    exact hnil.mp hmore_nil
  · intro hnone
    have halong : Along System.step (fun s call => ¬ call.Completes s) initial calls :=
      along_mono (fun _ _ hnot hcompletes => hnot hcompletes.1) hnone
    obtain ⟨more, hmore', hnil⟩ := hmore halong
    refine ⟨halong, ?_, hlost.mpr halong⟩
    rw [hmore', hnil.mpr hnone]
    rfl

/-- One command, stored without any failure, leaves a block that nobody points at. -/
theorem not_ownsAllLive_one_command :
    ¬ OwnsAllLive
      ((System.init ⟨2 ^ 22, by decide, fun _ => 0⟩).run [plainWrite 0 [10]]).kernel := by
  unfold OwnsAllLive
  decide

end AesdChar
