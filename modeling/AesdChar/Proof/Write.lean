import AesdChar.Proof.Representation

/-!
# What one write does

A write either is refused somewhere before its bytes reach the accumulator, or it extends the
pending text; and extended text with a newline in it is moved into the ring, or lost when the ring's
own allocation fails. Each of these is one lemma about the represented log and the blocks the write
leaves behind, and `aesdWrite_cases` puts them together.
-/

namespace AesdChar

open Lib

/-- The call gets as far as extending the accumulator: there is data, the scratch buffer is
allocated and filled, the lock is taken and the accumulator can grow. -/
def Admits (env : WriteEnv) (kernel : Kernel) (data : Bytes) : Prop :=
  data ≠ [] ∧ (env.kmalloc = true ∧ data.length ≤ kernel.heap.limit) ∧
    env.copyFromUser = true ∧ env.lock = true ∧
    (env.krealloc ≠ .fail ∧ kernel.dev.accumulatorSize + data.length ≤ kernel.heap.limit)

instance (env : WriteEnv) (kernel : Kernel) (data : Bytes) : Decidable (Admits env kernel data) :=
  inferInstanceAs (Decidable (_ ∧ (_ ∧ _) ∧ _ ∧ _ ∧ (_ ∧ _)))

namespace Represents

variable {kernel : Kernel} {entries : List AesdBufferEntry} {log : Log} {lost : Finset Ptr}

/-! ### The tail of a write -/

theorem storeCommand_of_notMem (h : Represents kernel entries log lost)
    (hpending : log.pending ≠ []) (hnewline : newline ∉ log.pending) (env : WriteEnv) :
    storeCommand env kernel = kernel := by
  obtain ⟨block, hacc, hsize, hview, -⟩ := h.accumulates.exists_block hpending
  have hfind : log.pending.findIdx? (· = newline) = none := by
    rw [List.findIdx?_eq_none_iff]
    intro byte hbyte
    simpa using fun heq : byte = newline => hnewline (heq ▸ hbyte)
  rw [storeCommand, hacc, hsize, memchr_of_view hview, hfind]

theorem storeCommand_of_mem (h : Represents kernel entries log lost)
    (hnewline : newline ∈ log.pending) (env : WriteEnv) :
    storeCommand env kernel =
      let added := aesdCircularBufferAddEntry kernel.heap env.addEntryKmalloc
        kernel.dev.circularBuffer ⟨kernel.dev.writeAccumulator, log.pending.length⟩
      ⟨kfree added.heap added.oldBuffptr, ⟨added.buffer, none, 0⟩⟩ := by
  obtain ⟨block, hacc, hsize, hview, -⟩ :=
    h.accumulates.exists_block (List.ne_nil_of_mem hnewline)
  obtain ⟨index, hfind⟩ : ∃ index, log.pending.findIdx? (· = newline) = some index := by
    rw [← Option.isSome_iff_exists, List.findIdx?_isSome, List.any_eq_true]
    exact ⟨newline, hnewline, by simp⟩
  rw [storeCommand, hacc, hsize, memchr_of_view hview, hfind]

theorem dropPending (h : Represents kernel entries log lost) {block : Ptr}
    (hacc : kernel.dev.writeAccumulator = some block) :
    Represents ⟨kernel.heap, ⟨kernel.dev.circularBuffer, none, 0⟩⟩ entries
      { log with pending := [] } (insert block lost) := by
  have howned : ∀ other, other ∈ kernel.dev.owned ↔
      other ∈ AesdDev.owned ⟨kernel.dev.circularBuffer, none, 0⟩ ∨ other = block := by
    intro other
    simp [AesdDev.owned, hacc, eq_comm]
  have hnodup : (AesdDev.owned ⟨kernel.dev.circularBuffer, none, 0⟩ ++ [block]).Nodup := by
    simpa [AesdDev.owned, hacc] using h.nodup
  refine ⟨h.limit_lt, h.wellFormed, h.clean, h.tracks, h.length_eq, h.stores, .idle,
    hnodup.of_append_left, fun other => ?_, fun other hother hmem => ?_⟩
  · rw [h.live_iff, howned, Finset.mem_insert, or_assoc]
  · rcases Finset.mem_insert.mp hother with rfl | hold
    · exact List.disjoint_of_nodup_append hnodup hmem List.mem_cons_self
    · exact h.lost_notMem other hold ((howned other).mpr (Or.inl hmem))

/-- What the ring hands back when an entry is pushed: the pointer of its oldest entry, if it is
full. -/
def evictee (kernel : Kernel) : Option Ptr :=
  if kernel.dev.circularBuffer.full then
    (kernel.dev.circularBuffer.entry kernel.dev.circularBuffer.outOffs).buffptr
  else none

theorem owned_eq_of_evictee (h : Represents kernel entries log lost) {block : Ptr}
    (hevictee : evictee kernel = some block) :
    kernel.dev.owned = block ::
      (kernel.dev.circularBuffer.stored.tail.filterMap (·.buffptr) ++
        kernel.dev.writeAccumulator.toList) := by
  cases hfull : kernel.dev.circularBuffer.full with
  | false => simp [evictee, hfull] at hevictee
  | true =>
      have hhead := h.tracks.head_stored hfull
      have hptr : (kernel.dev.circularBuffer.entry kernel.dev.circularBuffer.outOffs).buffptr =
          some block := by simpa [evictee, hfull] using hevictee
      obtain ⟨rest, hrest⟩ := List.head?_eq_some_iff.mp hhead
      rw [AesdDev.owned, hrest, List.filterMap_cons_some hptr]
      rfl

theorem owned_pushed (h : Represents kernel entries log lost) {accumulator : Ptr}
    (hacc : kernel.dev.writeAccumulator = some accumulator) (size : Nat) :
    kernel.dev.owned = (evictee kernel).toList ++
      AesdDev.owned ⟨kernel.dev.circularBuffer.pushed ⟨some accumulator, size⟩, none, 0⟩ := by
  have hpushed : AesdDev.owned
      ⟨kernel.dev.circularBuffer.pushed ⟨some accumulator, size⟩, none, 0⟩ =
      (if kernel.dev.circularBuffer.full then kernel.dev.circularBuffer.stored.tail
        else kernel.dev.circularBuffer.stored).filterMap (·.buffptr) ++ [accumulator] := by
    simp [AesdDev.owned, h.tracks.stored_pushed]
  rw [hpushed]
  cases hfull : kernel.dev.circularBuffer.full with
  | false => simp [evictee, hfull, AesdDev.owned, hacc]
  | true =>
      obtain ⟨rest, hrest⟩ := List.head?_eq_some_iff.mp (h.tracks.head_stored hfull)
      have hmem : kernel.dev.circularBuffer.entry kernel.dev.circularBuffer.outOffs ∈
          kernel.dev.circularBuffer.stored := hrest ▸ List.mem_cons_self
      obtain ⟨command, -, block, hentry, -, -⟩ := h.exists_stores hmem
      have hptr : (kernel.dev.circularBuffer.entry kernel.dev.circularBuffer.outOffs).buffptr =
          some block := by rw [hentry]
      rw [h.owned_eq_of_evictee (show evictee kernel = some block by simp [evictee, hfull, hptr])]
      simp [evictee, hfull, hptr, hacc]

theorem storeCommand_of_fail (h : Represents kernel entries log lost)
    (hnewline : newline ∈ log.pending) {env : WriteEnv} (hfail : env.addEntryKmalloc = false) :
    storeCommand env kernel = ⟨kernel.heap, ⟨kernel.dev.circularBuffer, none, 0⟩⟩ := by
  have hnot : ¬ AddAllocates kernel.heap env.addEntryKmalloc
      ⟨kernel.dev.writeAccumulator, log.pending.length⟩ := by simp [AddAllocates, hfail]
  rw [h.storeCommand_of_mem hnewline, addEntry_of_not_allocates hnot]
  rfl

/-- The copy that `add_entry` made of the command is a block nobody points at. -/
theorem storeCommand_of_stored (h : Represents kernel entries log lost)
    (hnewline : newline ∈ log.pending) {env : WriteEnv} (hstored : env.addEntryKmalloc = true) :
    ∃ heap', storeCommand env kernel =
        ⟨heap', ⟨kernel.dev.circularBuffer.pushed
          ⟨kernel.dev.writeAccumulator, log.pending.length⟩, none, 0⟩⟩ ∧
      kernel.heap.Becomes heap' (Function.update
        (BlockHeap.without kernel.heap.view (evictee kernel)) kernel.heap.next
        (some log.pending)) := by
  obtain ⟨block, hacc, -, hview, hle⟩ :=
    h.accumulates.exists_block (List.ne_nil_of_mem hnewline)
  have halloc : AddAllocates kernel.heap env.addEntryKmalloc
      ⟨kernel.dev.writeAccumulator, log.pending.length⟩ := ⟨hstored, hle⟩
  rw [h.storeCommand_of_mem hnewline, addEntry_of_allocates halloc]
  refine ⟨_, rfl, ?_⟩
  -- the copy is allocated and filled while the accumulator is still live
  have hgrant := kernel.heap.becomes_grant h.wellFormed (kernel.heap.fresh log.pending.length)
  have hnext : kernel.heap.view kernel.heap.next = none := kernel.heap.view_next h.wellFormed
  have hne : block ≠ kernel.heap.next := by
    rintro rfl
    rw [hnext] at hview
    cases hview
  have hsrc : (kernel.heap.grant (kernel.heap.fresh log.pending.length)).view block =
      some log.pending := by rw [hgrant.view_eq, Function.update_of_ne hne, hview]
  have hdst : (kernel.heap.grant (kernel.heap.fresh log.pending.length)).view kernel.heap.next =
      some (kernel.heap.fresh log.pending.length) := by
    rw [hgrant.view_eq, Function.update_self]
  have hfilled : kernel.heap.Becomes _
      (Function.update kernel.heap.view kernel.heap.next (some log.pending)) :=
    (hgrant.trans (becomes_memcpy_all hgrant.wellFormed hsrc hdst (by simp))).congr
      (by rw [hgrant.view_eq, Function.update_idem])
  -- the evicted block is one of the device's, so it is not the copy
  have hevictee : ∀ gone ∈ evictee kernel, gone ∈ kernel.dev.owned := by
    intro gone hgone
    rw [h.owned_eq_of_evictee hgone]
    exact List.mem_cons_self
  have hgone_ne : evictee kernel ≠ some kernel.heap.next := fun heq =>
    h.view_ne_none (hevictee _ heq) hnext
  rw [hacc]
  refine (hfilled.trans (becomes_kfree hfilled.wellFormed fun gone hgone => ?_)).congr ?_
  · have hne_next : gone ≠ kernel.heap.next := by
      rintro rfl
      exact hgone_ne hgone
    rw [hfilled.view_eq, Function.update_of_ne hne_next]
    exact h.view_ne_none (hevictee _ hgone)
  · rw [hfilled.view_eq]
    exact BlockHeap.without_update hgone_ne _

theorem stores_pushed (h : Represents kernel entries log lost) {entry : AesdBufferEntry}
    {command : Bytes} (hnewest : Stores kernel.heap entry command) :
    List.Forall₂ (Stores kernel.heap) ((entries ++ [entry]).rtake maxWriteOperationsSupported)
      ((log.committed ++ [command]).rtake maxWriteOperationsSupported) := by
  rw [rtake_concat _ _ (by decide), rtake_concat _ _ (by decide), ← h.length_eq]
  refine List.rel_append ?_ (.cons hnewest .nil)
  split
  · exact forall₂_tail h.stores
  · exact h.stores

theorem commitPending (h : Represents kernel entries log lost) (hnewline : newline ∈ log.pending)
    {heap' : Heap}
    (hbecomes : kernel.heap.Becomes heap' (Function.update
      (BlockHeap.without kernel.heap.view (evictee kernel)) kernel.heap.next
      (some log.pending))) :
    Represents ⟨heap', ⟨kernel.dev.circularBuffer.pushed
        ⟨kernel.dev.writeAccumulator, log.pending.length⟩, none, 0⟩⟩
      (entries ++ [⟨kernel.dev.writeAccumulator, log.pending.length⟩])
      ⟨log.committed ++ [log.pending], []⟩ (insert kernel.heap.next lost) := by
  obtain ⟨block, hacc, -, hview, hle⟩ :=
    h.accumulates.exists_block (List.ne_nil_of_mem hnewline)
  have howned := h.owned_pushed hacc log.pending.length
  have hnodup := h.nodup
  rw [howned] at hnodup
  rw [hacc]
  -- nothing the device still points at is the evicted block or the copy
  have hkeep : ∀ other ∈ AesdDev.owned ⟨kernel.dev.circularBuffer.pushed
      ⟨some block, log.pending.length⟩, none, 0⟩,
      heap'.view other = kernel.heap.view other := by
    intro other hother
    have hold : other ∈ kernel.dev.owned := howned ▸ List.mem_append_right _ hother
    have hne_next : other ≠ kernel.heap.next := by
      rintro rfl
      exact h.view_ne_none hold (kernel.heap.view_next h.wellFormed)
    have hne_gone : evictee kernel ≠ some other := by
      intro hgone
      refine List.disjoint_of_nodup_append hnodup ?_ hother
      simp [hgone]
    rw [hbecomes.view_eq, Function.update_of_ne hne_next, BlockHeap.without_of_ne hne_gone]
  refine ⟨hbecomes.limit_eq.trans_lt h.limit_lt, hbecomes.wellFormed,
    hbecomes.reports_eq.trans h.clean, h.tracks.pushed _, by simp [h.length_eq], ?_, .idle,
    hnodup.of_append_right, fun other => ?_, fun other hother hmem => ?_⟩
  rotate_left
  · by_cases hother : other ∈ AesdDev.owned ⟨kernel.dev.circularBuffer.pushed
        ⟨some block, log.pending.length⟩, none, 0⟩
    · have hold : other ∈ kernel.dev.owned := howned ▸ List.mem_append_right _ hother
      simp [hother, hkeep other hother, h.view_ne_none hold]
    · rw [hbecomes.view_eq, Finset.mem_insert]
      by_cases hnext : other = kernel.heap.next
      · simp [hnext]
      · have hlive := h.live_iff other
        rw [howned, List.mem_append, Option.mem_toList] at hlive
        rw [Function.update_of_ne hnext]
        by_cases hgone : evictee kernel = some other
        · have hnot := h.lost_notMem other
          rw [howned, List.mem_append, Option.mem_toList] at hnot
          rw [hgone]
          simp only [BlockHeap.without, Function.update_self]
          tauto
        · rw [BlockHeap.without_of_ne hgone]
          tauto
  · have hold : other ∈ kernel.dev.owned := howned ▸ List.mem_append_right _ hmem
    rcases Finset.mem_insert.mp hother with rfl | hlost
    · exact h.view_ne_none hold (kernel.heap.view_next h.wellFormed)
    · exact h.lost_notMem other hlost hold
  have hstored := (h.tracks.pushed ⟨some block, log.pending.length⟩).stored_eq
  have hold := h.stores_pushed (⟨block, rfl, hview, hle⟩ : Stores kernel.heap
    ⟨some block, log.pending.length⟩ log.pending)
  refine forall₂_mem_imp (fun entry hentry command hstores => ?_) hold
  refine Stores.congr hstores hbecomes.limit_eq fun other hother => hkeep other (mem_owned.mpr ?_)
  refine Or.inl ⟨entry, ?_, hother⟩
  rw [hstored]
  exact hentry

/-! ### The head of a write -/

/-- **Growing the accumulator.** Whether it is new, stays in place or moves, it ends up holding the
old text followed by the new data, and the block it held before is gone unless it is the same one.
-/
theorem becomes_append {heap : Heap} (hwf : heap.WellFormed) {accumulator : Option Ptr} {size : Nat}
    {text data : Bytes} (hacc : Accumulates heap accumulator size text) {kbuff : Ptr}
    (hkbuff : heap.view kbuff = some data) (hne : accumulator ≠ some kbuff)
    {outcome : ReallocOutcome}
    (hserved : outcome ≠ .fail ∧ size + data.length ≤ heap.limit) :
    ∃ temp heap', krealloc heap outcome accumulator (size + data.length) = (some temp, heap') ∧
      (accumulator = some temp ∨ heap.view temp = none) ∧
      heap.Becomes (memcpy heap' temp size (some kbuff) data.length)
        (Function.update (BlockHeap.without heap.view accumulator) temp (some (text ++ data))) := by
  cases hacc with
  | idle =>
      rw [Nat.zero_add] at hserved ⊢
      obtain ⟨heap', halloc, hbecomes⟩ :=
        heap.alloc_of_served hwf (by simpa using hserved : decide (outcome ≠ .fail) = true ∧ _)
      have hnext : heap.view heap.next = none := heap.view_next hwf
      have hkbuff_ne : kbuff ≠ heap.next := by
        rintro rfl
        rw [hnext] at hkbuff
        cases hkbuff
      refine ⟨heap.next, heap', halloc, Or.inr hnext, ?_⟩
      have hcopy := becomes_memcpy_all hbecomes.wellFormed
        (by rw [hbecomes.view_eq, Function.update_of_ne hkbuff_ne, hkbuff])
        (by rw [hbecomes.view_eq, Function.update_self]) (heap.length_fresh data.length)
      apply (hbecomes.trans hcopy).congr
      rw [hbecomes.view_eq, Function.update_idem]
      rfl
  | @holding block _ _ hview _ =>
      obtain ⟨temp, heap', slack, hrealloc, htemp, hlength, hbecomes⟩ :=
        heap.realloc_of_served hwf hview (Nat.le_add_right _ data.length) hserved
      have hkbuff_block : kbuff ≠ block := fun heq => hne (by rw [heq])
      have hkbuff_temp : kbuff ≠ temp := by
        rintro rfl
        rcases htemp with rfl | hnone
        · exact hkbuff_block rfl
        · rw [hnone] at hkbuff
          cases hkbuff
      refine ⟨temp, heap', hrealloc, htemp.imp (fun heq => by rw [heq]) id, ?_⟩
      have hcopy := becomes_memcpy hbecomes.wellFormed
        (by rw [hbecomes.view_eq, Function.update_of_ne hkbuff_temp,
          Function.update_of_ne hkbuff_block, hkbuff])
        (by rw [hbecomes.view_eq, Function.update_self]) hlength.symm.le
      apply (hbecomes.trans hcopy).congr
      rw [hbecomes.view_eq, Function.update_idem, List.take_left, List.drop_of_length_le hlength.le,
        List.append_nil]
      rfl

theorem accumulator_ne_of_stored (h : Represents kernel entries log lost) {block : Ptr}
    (hstored : block ∈ kernel.dev.circularBuffer.stored.filterMap (·.buffptr)) :
    kernel.dev.writeAccumulator ≠ some block := by
  intro hacc
  have hnodup := h.nodup
  rw [AesdDev.owned, hacc] at hnodup
  exact List.disjoint_of_nodup_append hnodup hstored List.mem_cons_self

theorem accumulator_ne_of_lost (h : Represents kernel entries log lost) {block : Ptr}
    (hlost : block ∈ lost) : kernel.dev.writeAccumulator ≠ some block :=
  fun hacc => h.lost_notMem block hlost (mem_owned.mpr (Or.inr hacc))

theorem appendPending (h : Represents kernel entries log lost) {data : Bytes} (hdata : data ≠ [])
    {temp : Ptr} {heap' : Heap}
    (htemp : kernel.dev.writeAccumulator = some temp ∨ kernel.heap.view temp = none)
    (hfit : log.pending.length + data.length ≤ kernel.heap.limit)
    (hbecomes : kernel.heap.Becomes heap' (Function.update
      (BlockHeap.without kernel.heap.view kernel.dev.writeAccumulator) temp
      (some (log.pending ++ data)))) :
    Represents ⟨heap', ⟨kernel.dev.circularBuffer, some temp, (log.pending ++ data).length⟩⟩ entries
      { log with pending := log.pending ++ data } lost := by
  -- neither the stored blocks nor the lost ones are the accumulator, old or new
  have hne : ∀ other, kernel.heap.view other ≠ none →
      kernel.dev.writeAccumulator ≠ some other → other ≠ temp := by
    rintro other hlive hacc rfl
    exact htemp.elim hacc hlive
  have hstored : ∀ other ∈ kernel.dev.circularBuffer.stored.filterMap (·.buffptr),
      other ≠ temp ∧ kernel.dev.writeAccumulator ≠ some other := by
    intro other hother
    have hacc := h.accumulator_ne_of_stored hother
    exact ⟨hne other (h.view_ne_none (List.mem_append_left _ hother)) hacc, hacc⟩
  have hlost : ∀ other ∈ lost, other ≠ temp ∧ kernel.dev.writeAccumulator ≠ some other := by
    intro other hother
    have hacc := h.accumulator_ne_of_lost hother
    exact ⟨hne other ((h.live_iff other).mpr (Or.inr hother)) hacc, hacc⟩
  have hkeep : ∀ other ∈ kernel.dev.circularBuffer.stored.filterMap (·.buffptr),
      heap'.view other = kernel.heap.view other := by
    intro other hother
    rw [hbecomes.view_eq, Function.update_of_ne (hstored other hother).1,
      BlockHeap.without_of_ne (hstored other hother).2]
  have howned : ∀ other, other ∈ AesdDev.owned
      ⟨kernel.dev.circularBuffer, some temp, (log.pending ++ data).length⟩ ↔
      other ∈ kernel.dev.circularBuffer.stored.filterMap (·.buffptr) ∨ other = temp := by
    intro other
    simp [AesdDev.owned]
  refine ⟨hbecomes.limit_eq.trans_lt h.limit_lt, hbecomes.wellFormed,
    hbecomes.reports_eq.trans h.clean, h.tracks, h.length_eq, ?_, ?_, ?_, ?_, ?_⟩
  · refine forall₂_mem_imp (fun entry hentry command hstores => ?_) h.stores
    refine Stores.congr hstores hbecomes.limit_eq fun other hother => hkeep other ?_
    exact List.mem_filterMap.mpr ⟨entry, h.stored_eq ▸ hentry, hother⟩
  · refine .holding (by simp [hdata]) ?_ ?_
    · rw [hbecomes.view_eq, Function.update_self]
    · rw [hbecomes.limit_eq, List.length_append]
      exact hfit
  · apply List.Nodup.append (List.Nodup.of_append_left h.nodup) (List.nodup_singleton temp)
    rintro other hother hmem
    exact (hstored other hother).1 (List.mem_singleton.mp hmem)
  · intro other
    rw [howned, hbecomes.view_eq]
    by_cases heq : other = temp
    · simp [heq]
    · rw [Function.update_of_ne heq]
      by_cases hacc : kernel.dev.writeAccumulator = some other
      · rw [hacc]
        have hnot : other ∉ lost := fun hmem => (hlost other hmem).2 hacc
        have hnot' : other ∉ kernel.dev.circularBuffer.stored.filterMap (·.buffptr) :=
          fun hmem => (hstored other hmem).2 hacc
        simp [BlockHeap.without, hnot, hnot', heq]
      · rw [BlockHeap.without_of_ne hacc, h.live_iff, AesdDev.owned, List.mem_append,
          Option.mem_toList]
        simp [hacc, heq]
  · intro other hother hmem
    rcases (howned other).mp hmem with hold | heq
    · exact h.lost_notMem other hother (List.mem_append_left _ hold)
    · exact (hlost other hother).1 heq

/-! ### The whole call -/

theorem scratch (h : Represents kernel entries log lost) {data : Bytes}
    (hsize : data.length ≤ kernel.heap.limit) :
    ∃ heap', kmalloc kernel.heap true data.length = (some kernel.heap.next, heap') ∧
      Represents { kernel with heap := heap' } entries log (insert kernel.heap.next lost) ∧
      Represents { kernel with heap := heap'.store kernel.heap.next 0 data } entries log
        (insert kernel.heap.next lost) ∧
      (heap'.store kernel.heap.next 0 data).view kernel.heap.next = some data ∧
      heap'.limit = kernel.heap.limit ∧
      (heap'.store kernel.heap.next 0 data).limit = kernel.heap.limit := by
  obtain ⟨heap', halloc, hbecomes⟩ := kernel.heap.alloc_of_served h.wellFormed ⟨rfl, hsize⟩
  have hfresh := kernel.heap.view_next h.wellFormed
  have hview : heap'.view kernel.heap.next = some (kernel.heap.fresh data.length) := by
    rw [hbecomes.view_eq, Function.update_self]
  have hbound : 0 + data.length ≤ (kernel.heap.fresh data.length).length := by
    rw [Nat.zero_add, BlockHeap.length_fresh]
  have hstore := heap'.becomes_store hbecomes.wellFormed hview hbound
  have hfilled : kernel.heap.Becomes (heap'.store kernel.heap.next 0 data)
      (Function.update kernel.heap.view kernel.heap.next (some data)) := by
    apply (hbecomes.trans hstore).congr
    rw [hbecomes.view_eq, Function.update_idem, List.take_zero, List.nil_append, Nat.zero_add,
      List.drop_of_length_le (kernel.heap.length_fresh data.length).le, List.append_nil]
  refine ⟨heap', halloc, h.allocScratch hfresh hbecomes, h.allocScratch hfresh hfilled, ?_,
    hbecomes.limit_eq, hfilled.limit_eq⟩
  rw [hfilled.view_eq, Function.update_self]

theorem next_notMem_lost (h : Represents kernel entries log lost) : kernel.heap.next ∉ lost :=
  fun hmem => (h.live_iff _).mpr (Or.inr hmem) (kernel.heap.view_next h.wellFormed)

/-- **A refused write** returns an error and leaves position, device and represented log alone. -/
theorem aesdWrite_of_not_admits (h : Represents kernel entries log lost) {env : WriteEnv}
    {buf : Option Bytes} (hnot : ¬ Admits env kernel (buf.getD [])) (fPos : Int) :
    ∃ ret heap', aesdWrite env kernel buf fPos = ⟨ret, { kernel with heap := heap' }, fPos⟩ ∧
      ret < 0 ∧ heap'.limit = kernel.heap.limit ∧
      Represents { kernel with heap := heap' } entries log lost := by
  unfold aesdWrite
  by_cases hempty : (buf.getD []).length = 0 ∨ buf = none
  · exact ⟨-EINVAL, kernel.heap, if_pos hempty, by decide, rfl, h⟩
  rw [if_neg hempty]
  obtain ⟨hlength, -⟩ := not_or.mp hempty
  have hdata : buf.getD [] ≠ [] := fun heq => hlength (by rw [heq]; rfl)
  by_cases hkmalloc : env.kmalloc = true ∧ (buf.getD []).length ≤ kernel.heap.limit
  · obtain ⟨heap', halloc, hfresh, hfilled, hview, hlimit', hlimit⟩ := h.scratch hkmalloc.2
    have herase : (insert kernel.heap.next lost).erase kernel.heap.next = lost :=
      Finset.erase_insert h.next_notMem_lost
    have hfree : ∀ heap'', Represents { kernel with heap := heap'' } entries log
        (insert kernel.heap.next lost) →
        Represents { kernel with heap := kfree heap'' (some kernel.heap.next) } entries log
          lost := by
      intro heap'' hscratch
      exact herase ▸ hscratch.freeScratch (Finset.mem_insert_self _ _)
    rw [hkmalloc.1, halloc]
    by_cases hcopy : env.copyFromUser = false
    · simp only [hcopy, if_true]
      exact ⟨-EFAULT, _, rfl, by decide, (limit_kfree _ _).trans hlimit', hfree _ hfresh⟩
    by_cases hlock : env.lock = false
    · simp only [hcopy, hlock, if_true]
      exact ⟨-ERESTARTSYS, _, rfl, by decide, (limit_kfree _ _).trans hlimit, hfree _ hfilled⟩
    -- only the accumulator's own growth is left to fail
    have hgrow : ¬(env.krealloc ≠ .fail ∧ kernel.dev.accumulatorSize + (buf.getD []).length ≤
        (heap'.store kernel.heap.next 0 (buf.getD [])).limit) := by
      rw [hlimit]
      exact fun hserved => hnot ⟨hdata, hkmalloc, by simpa using hcopy, by simpa using hlock,
        hserved⟩
    have hacc : ∀ block ∈ kernel.dev.writeAccumulator,
        block ∈ (heap'.store kernel.heap.next 0 (buf.getD [])).live := fun block hblock =>
      BlockHeap.mem_live_iff.mpr (hfilled.view_ne_none (mem_owned.mpr (Or.inr hblock)))
    have hsize : sizeT (kernel.dev.accumulatorSize + (buf.getD []).length) =
        kernel.dev.accumulatorSize + (buf.getD []).length := by
      have hle := h.accumulates.size_le
      have hlt := h.limit_lt
      exact sizeT_of_lt (by omega)
    have hrealloc := BlockHeap.realloc_of_refused hacc hgrow
    simp only [hcopy, hlock, hsize, krealloc, hrealloc]
    exact ⟨-ENOMEM, _, rfl, by decide, (limit_kfree _ _).trans hlimit, hfree _ hfilled⟩
  · have halloc : kmalloc kernel.heap env.kmalloc (buf.getD []).length = (none, kernel.heap) :=
      BlockHeap.alloc_of_refused hkmalloc
    simp only [halloc]
    exact ⟨-ENOMEM, kernel.heap, rfl, by decide, rfl, h⟩

/-- **An admitted write** extends the pending text and then does what the tail does, its scratch
buffer being lost for that long. -/
theorem aesdWrite_of_admits (h : Represents kernel entries log lost) {env : WriteEnv}
    {buf : Option Bytes} (hadmits : Admits env kernel (buf.getD [])) (fPos : Int) :
    ∃ extended kbuff, Represents extended entries
        { log with pending := log.pending ++ buf.getD [] } (insert kbuff lost) ∧ kbuff ∉ lost ∧
      extended.dev.circularBuffer = kernel.dev.circularBuffer ∧
      extended.heap.limit = kernel.heap.limit ∧
      aesdWrite env kernel buf fPos = ⟨(buf.getD []).length,
        { storeCommand env extended with
          heap := kfree (storeCommand env extended).heap (some kbuff) },
        loffT (fPos + (buf.getD []).length)⟩ := by
  obtain ⟨hdata, hkmalloc, hcopy, hlock, hgrow⟩ := hadmits
  obtain ⟨heap', halloc, -, hfilled, hview, -, hlimit⟩ := h.scratch hkmalloc.2
  have hempty : ¬((buf.getD []).length = 0 ∨ buf = none) := by
    rintro (hlength | rfl)
    · exact hdata (List.length_eq_zero_iff.mp hlength)
    · exact hdata rfl
  have hne : kernel.dev.writeAccumulator ≠ some kernel.heap.next := fun heq =>
    h.view_ne_none (mem_owned.mpr (Or.inr heq)) (kernel.heap.view_next h.wellFormed)
  rw [← hlimit] at hgrow
  obtain ⟨temp, heap'', hrealloc, htemp, hbecomes⟩ :=
    becomes_append hfilled.wellFormed hfilled.accumulates hview hne hgrow
  have hacc : kernel.dev.accumulatorSize = log.pending.length := h.accumulates.size_eq
  have hfit : log.pending.length + (buf.getD []).length ≤
      (heap'.store kernel.heap.next 0 (buf.getD [])).limit := hacc ▸ hgrow.2
  have hextended := hfilled.appendPending hdata htemp hfit hbecomes
  refine ⟨_, kernel.heap.next, hextended, h.next_notMem_lost, rfl,
    hbecomes.limit_eq.trans hlimit, ?_⟩
  have hlt := h.limit_lt
  have hsize : sizeT (kernel.dev.accumulatorSize + (buf.getD []).length) =
      kernel.dev.accumulatorSize + (buf.getD []).length := sizeT_of_lt (by omega)
  have hret : loffT ((buf.getD []).length : Int) = (buf.getD []).length :=
    loffT_of_lt (by omega) (by omega)
  have hlength : (log.pending ++ buf.getD []).length =
      kernel.dev.accumulatorSize + (buf.getD []).length := by rw [List.length_append, hacc]
  unfold aesdWrite
  simp only [if_neg hempty, hkmalloc.1, halloc, hcopy, hlock, Bool.true_eq_false, if_false, hsize,
    hrealloc, hret, hlength]

end Represents

/-- What a write of `data` did to a device that represented `log`. -/
inductive WriteCase (env : WriteEnv) (kernel : Kernel) (data : Bytes) (fPos : Int) (log : Log)
    (lost : Finset Ptr) (outcome : Outcome) : Prop
  | refused (hadmits : ¬ Admits env kernel data) (hret : outcome.ret < 0)
      (hpos : outcome.fPos = fPos) (hdev : outcome.kernel.dev = kernel.dev)
      (h : Refines outcome.kernel log lost)
  | extended (hadmits : Admits env kernel data) (hnewline : newline ∉ data)
      (hret : outcome.ret = data.length) (hpos : outcome.fPos = loffT (fPos + data.length))
      (hring : outcome.kernel.dev.circularBuffer = kernel.dev.circularBuffer)
      (h : Refines outcome.kernel { log with pending := log.pending ++ data } lost)
  | committed (hadmits : Admits env kernel data) (hnewline : newline ∈ data)
      (hstored : env.addEntryKmalloc = true) (hret : outcome.ret = data.length)
      (hpos : outcome.fPos = loffT (fPos + data.length)) (entry : AesdBufferEntry)
      (hring : outcome.kernel.dev.circularBuffer = kernel.dev.circularBuffer.pushed entry)
      (copy : Ptr) (hcopy : copy ∉ lost)
      (h : Refines outcome.kernel ⟨log.committed ++ [log.pending ++ data], []⟩ (insert copy lost))
  | dropped (hadmits : Admits env kernel data) (hnewline : newline ∈ data)
      (hfail : env.addEntryKmalloc = false) (hret : outcome.ret = data.length)
      (hpos : outcome.fPos = loffT (fPos + data.length))
      (hring : outcome.kernel.dev.circularBuffer = kernel.dev.circularBuffer)
      (text : Ptr) (htext : text ∉ lost)
      (h : Refines outcome.kernel { log with pending := [] } (insert text lost))

/-- **Every write** is refused, extends the pending text, commits it, or drops it. -/
theorem aesdWrite_cases {kernel : Kernel} {log : Log} {lost : Finset Ptr}
    (h : Refines kernel log lost) (env : WriteEnv) (buf : Option Bytes) (fPos : Int) :
    WriteCase env kernel (buf.getD []) fPos log lost (aesdWrite env kernel buf fPos) ∧
      (aesdWrite env kernel buf fPos).kernel.heap.limit = kernel.heap.limit := by
  obtain ⟨⟨entries, hrep⟩, hpending⟩ := h
  by_cases hadmits : Admits env kernel (buf.getD [])
  swap
  · obtain ⟨ret, heap', heq, hret, hlimit, hrep'⟩ := hrep.aesdWrite_of_not_admits hadmits fPos
    rw [heq]
    exact ⟨.refused hadmits hret rfl rfl ⟨⟨entries, hrep'⟩, hpending⟩, hlimit⟩
  obtain ⟨extended, kbuff, hextended, hkbuff, hring, hlimit, heq⟩ :=
    hrep.aesdWrite_of_admits hadmits fPos
  rw [heq]
  have hne : log.pending ++ buf.getD [] ≠ [] := by simp [hadmits.1]
  have hmem : newline ∈ log.pending ++ buf.getD [] ↔ newline ∈ buf.getD [] := by
    simp [hpending]
  have hscratch : kbuff ∈ insert kbuff lost := Finset.mem_insert_self _ _
  by_cases hnewline : newline ∈ buf.getD []
  swap
  · rw [hextended.storeCommand_of_notMem hne (hmem.not.mpr hnewline)]
    have hfreed := hextended.freeScratch hscratch
    rw [Finset.erase_insert hkbuff] at hfreed
    refine ⟨.extended hadmits hnewline rfl rfl hring ⟨⟨entries, hfreed⟩, ?_⟩, ?_⟩
    · exact hmem.not.mpr hnewline
    · exact (limit_kfree _ _).trans hlimit
  obtain ⟨accumulator, hacc, -, -, -⟩ := hextended.accumulates.exists_block hne
  cases hstored : env.addEntryKmalloc with
  | true =>
      obtain ⟨heap', hstore, hbecomes⟩ :=
        hextended.storeCommand_of_stored (hmem.mpr hnewline) hstored
      rw [hstore]
      have hnext := hextended.next_notMem_lost
      have hne_kbuff : extended.heap.next ≠ kbuff := fun heq => hnext (heq ▸ hscratch)
      have hfreed := (hextended.commitPending (hmem.mpr hnewline) hbecomes).freeScratch
        (Finset.mem_insert_of_mem hscratch)
      rw [Finset.erase_insert_of_ne hne_kbuff, Finset.erase_insert hkbuff] at hfreed
      refine ⟨.committed hadmits hnewline hstored rfl rfl _ (by rw [← hring])
        extended.heap.next (fun hlost => hnext (Finset.mem_insert_of_mem hlost))
        ⟨⟨_, hfreed⟩, List.not_mem_nil⟩, ?_⟩
      exact (limit_kfree _ _).trans (hbecomes.limit_eq.trans hlimit)
  | false =>
      rw [hextended.storeCommand_of_fail (hmem.mpr hnewline) hstored]
      have hnot : accumulator ∉ insert kbuff lost := fun hlost =>
        hextended.lost_notMem _ hlost (mem_owned.mpr (Or.inr hacc))
      have hne_kbuff : accumulator ≠ kbuff := fun heq => hnot (heq ▸ hscratch)
      have hfreed := (hextended.dropPending hacc).freeScratch (Finset.mem_insert_of_mem hscratch)
      rw [Finset.erase_insert_of_ne hne_kbuff, Finset.erase_insert hkbuff] at hfreed
      refine ⟨.dropped hadmits hnewline hstored rfl rfl hring accumulator
        (fun hlost => hnot (Finset.mem_insert_of_mem hlost)) ⟨⟨entries, hfreed⟩, ?_⟩, ?_⟩
      · exact List.not_mem_nil
      · exact (limit_kfree _ _).trans hlimit

end AesdChar
