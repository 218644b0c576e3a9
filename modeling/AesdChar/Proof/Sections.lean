import AesdChar.Proof.Answers

/-!
# The steps of a call

What one step of a call in flight does to a device that represents a log. The blocks that threads
have allocated for themselves count as lost for the device, and none of them changes unless it is
the thread's own.
-/

namespace AesdChar

open Lib

theorem writeAdding_of_fail {env : WriteEnv} (hfail : env.addEntryKmalloc = false) (kernel : Kernel)
    (kbuff : Option Ptr) : writeAdding env kernel kbuff = (.evicting kbuff none, kernel) := by
  have hnot : ¬ AddAllocates kernel.heap env.addEntryKmalloc
      ⟨kernel.dev.writeAccumulator, kernel.dev.accumulatorSize⟩ := by simp [AddAllocates, hfail]
  rw [writeAdding, addEntry_of_not_allocates hnot]

namespace Represents

variable {kernel : Kernel} {entries : List AesdBufferEntry} {log : Log} {lost : Finset Ptr}

theorem ne_next (h : Represents kernel entries log lost) {block : Ptr} (hblock : block ∈ lost) :
    block ≠ kernel.heap.next := by
  rintro rfl
  exact h.next_notMem_lost hblock

/-! ### Before the lock -/

/-- A thread fills the buffer it has allocated. -/
theorem storeScratch (h : Represents kernel entries log lost) {block : Ptr} (hblock : block ∈ lost)
    {contents data : Bytes} (hview : kernel.heap.view block = some contents)
    (hlength : contents.length = data.length) :
    Represents { kernel with heap := kernel.heap.store block 0 data } entries log lost ∧
      (kernel.heap.store block 0 data).view =
        Function.update kernel.heap.view block (some data) ∧
      (kernel.heap.store block 0 data).limit = kernel.heap.limit := by
  have hstore := kernel.heap.becomes_store h.wellFormed hview
    (by rw [Nat.zero_add, hlength] : 0 + data.length ≤ contents.length)
  have hfilled : kernel.heap.Becomes (kernel.heap.store block 0 data)
      (Function.update kernel.heap.view block (some data)) := by
    apply hstore.congr
    rw [List.take_zero, List.nil_append, Nat.zero_add, List.drop_of_length_le hlength.le,
      List.append_nil]
  refine ⟨h.frame hfilled (fun other hother => ?_) fun other => ?_, hfilled.view_eq,
    hfilled.limit_eq⟩
  · refine Function.update_of_ne (fun heq => h.lost_notMem block hblock ?_) _ _
    exact heq ▸ hother
  · by_cases heq : other = block
    · subst heq
      simp [hblock, h.lost_notMem other hblock]
    · rw [Function.update_of_ne heq, Ne, ← Ne, h.live_iff]
      have := h.lost_notMem other
      tauto

/-! ### The accumulator -/

/-- The accumulator grows, and with it the pending text. -/
theorem writeLocked_of_grows (h : Represents kernel entries log lost) {env : WriteEnv}
    {data : Bytes} (hdata : data ≠ []) (hgrows : Grows env kernel.heap.limit log.pending data)
    {kbuff : Ptr} (hkbuff : kbuff ∈ lost) (hview : kernel.heap.view kbuff = some data)
    (fPos : Int) :
    ∃ kernel', writeLocked env kernel data.length fPos (some kbuff) =
        (if newline ∈ log.pending ++ data then .adding (some kbuff)
          else .unlocking (some kbuff) (written data.length fPos), kernel') ∧
      Represents kernel' entries { log with pending := log.pending ++ data } lost ∧
      kernel'.heap.limit = kernel.heap.limit ∧
      ∀ block ∈ lost, kernel'.heap.view block = kernel.heap.view block := by
  have hsize : kernel.dev.accumulatorSize = log.pending.length := h.accumulates.size_eq
  have hcount : data.length ≤ kernel.heap.limit := (Nat.le_add_left _ _).trans hgrows.2
  have hne := h.accumulator_ne_of_lost hkbuff
  obtain ⟨temp, heap', hrealloc, htemp, hbecomes⟩ :=
    becomes_append h.wellFormed h.accumulates hview hne ⟨hgrows.1, hsize.symm ▸ hgrows.2⟩
  have hextended := h.appendPending hdata htemp hgrows.2 hbecomes
  refine ⟨_, ?_, hextended, hbecomes.limit_eq, fun block hblock => ?_⟩
  · have hkernel : sizeT (kernel.dev.accumulatorSize + data.length) =
        kernel.dev.accumulatorSize + data.length := by
      rw [h.sizeT_accumulator hcount, hsize]
    have hlength : kernel.dev.accumulatorSize + data.length = (log.pending ++ data).length := by
      rw [hsize, List.length_append]
    have hfound : (memcpy heap' temp kernel.dev.accumulatorSize (some kbuff) data.length).view
        temp = some (log.pending ++ data) := by rw [hbecomes.view_eq, Function.update_self]
    unfold writeLocked
    simp only [hkernel, hrealloc]
    rw [hlength, memchr_of_view hfound]
    by_cases hnewline : newline ∈ log.pending ++ data
    · obtain ⟨index, hfind⟩ :
          ∃ index, (log.pending ++ data).findIdx? (· = newline) = some index := by
        rw [← Option.isSome_iff_exists, List.findIdx?_isSome, List.any_eq_true]
        exact ⟨newline, hnewline, by simp⟩
      rw [hfind, if_pos hnewline]
    · have hfind : (log.pending ++ data).findIdx? (· = newline) = none := by
        rw [List.findIdx?_eq_none_iff]
        intro byte hbyte
        simpa using fun heq : byte = newline => hnewline (heq ▸ hbyte)
      rw [hfind, if_neg hnewline]
  · have hacc := h.accumulator_ne_of_lost hblock
    have hne_temp : block ≠ temp := by
      rintro rfl
      refine htemp.elim hacc fun hnone => (h.live_iff block).mpr (Or.inr hblock) hnone
    rw [hbecomes.view_eq, Function.update_of_ne hne_temp, BlockHeap.without_of_ne hacc]

theorem writeLocked_of_not_grows (h : Represents kernel entries log lost) {env : WriteEnv}
    {data : Bytes} (hcount : data.length ≤ kernel.heap.limit)
    (hnot : ¬ Grows env kernel.heap.limit log.pending data) (fPos : Int) (kbuff : Option Ptr) :
    writeLocked env kernel data.length fPos kbuff =
      (.unlocking kbuff ⟨-ENOMEM, fPos, []⟩, kernel) := by
  unfold writeLocked
  simp only [h.krealloc_of_not_grows hcount hnot]

/-! ### The ring -/

/-- **A push without a free.** The evicted block is nobody's now. -/
theorem pushPending (h : Represents kernel entries log lost) (hpending : log.pending ≠ []) :
    Represents ⟨kernel.heap, ⟨kernel.dev.circularBuffer.pushed
        ⟨kernel.dev.writeAccumulator, log.pending.length⟩, none, 0⟩⟩
      (entries ++ [⟨kernel.dev.writeAccumulator, log.pending.length⟩])
      ⟨log.committed ++ [log.pending], []⟩ (lost ∪ (evictee kernel).toFinset) := by
  obtain ⟨block, hacc, -, hview, hle⟩ := h.accumulates.exists_block hpending
  have howned := h.owned_pushed hacc log.pending.length
  have hnodup := h.nodup
  rw [howned] at hnodup
  rw [hacc]
  refine ⟨h.limit_lt, h.wellFormed, h.clean, h.tracks.pushed _, by simp [h.length_eq], ?_, .idle,
    hnodup.of_append_right, fun other => ?_, fun other hother hmem => ?_⟩
  · exact h.stores_pushed (⟨block, rfl, hview, hle⟩ : Stores kernel.heap
      ⟨some block, log.pending.length⟩ log.pending)
  · rw [h.live_iff, howned, List.mem_append, Option.mem_toList, Finset.mem_union,
      Option.mem_toFinset]
    tauto
  · rcases Finset.mem_union.mp hother with hlost | hevicted
    · exact h.lost_notMem other hlost (howned ▸ List.mem_append_right _ hmem)
    · rw [Option.mem_toFinset] at hevicted
      exact List.disjoint_of_nodup_append hnodup (Option.mem_toList.mpr hevicted) hmem

theorem evictee_notMem (h : Represents kernel entries log lost) {block : Ptr}
    (hevictee : evictee kernel = some block) : block ∉ lost := by
  intro hlost
  apply h.lost_notMem block hlost
  rw [h.owned_eq_of_evictee hevictee]
  exact List.mem_cons_self

/-- The copy that `add_entry` makes is lost at once, the evicted block not before it is freed. -/
theorem writeAdding_of_stored (h : Represents kernel entries log lost)
    (hpending : log.pending ≠ []) {env : WriteEnv} (hstored : env.addEntryKmalloc = true)
    (kbuff : Option Ptr) :
    ∃ heap', writeAdding env kernel kbuff = (.evicting kbuff (evictee kernel),
        ⟨heap', { kernel.dev with
          circularBuffer := kernel.dev.circularBuffer.pushed
            ⟨kernel.dev.writeAccumulator, log.pending.length⟩ }⟩) ∧
      Represents ⟨heap', ⟨kernel.dev.circularBuffer.pushed
          ⟨kernel.dev.writeAccumulator, log.pending.length⟩, none, 0⟩⟩
        (entries ++ [⟨kernel.dev.writeAccumulator, log.pending.length⟩])
        ⟨log.committed ++ [log.pending], []⟩
        (insert kernel.heap.next lost ∪ (evictee kernel).toFinset) ∧
      (∀ old ∈ evictee kernel, old ∉ insert kernel.heap.next lost) ∧
      heap'.limit = kernel.heap.limit ∧
      ∀ block ∈ lost, heap'.view block = kernel.heap.view block := by
  obtain ⟨block, hacc, hsize, hview, hle⟩ := h.accumulates.exists_block hpending
  have halloc : AddAllocates kernel.heap env.addEntryKmalloc
      ⟨kernel.dev.writeAccumulator, log.pending.length⟩ := ⟨hstored, hle⟩
  have hnext : kernel.heap.view kernel.heap.next = none := kernel.heap.view_next h.wellFormed
  have hne : block ≠ kernel.heap.next := by
    rintro rfl
    rw [hnext] at hview
    cases hview
  have hgrant := kernel.heap.becomes_grant h.wellFormed (kernel.heap.fresh log.pending.length)
  have hcopy := becomes_memcpy_all hgrant.wellFormed
    (by rw [hgrant.view_eq, Function.update_of_ne hne, hview])
    (by rw [hgrant.view_eq, Function.update_self])
    (kernel.heap.length_fresh log.pending.length)
  have hfilled : kernel.heap.Becomes _
      (Function.update kernel.heap.view kernel.heap.next (some log.pending)) :=
    (hgrant.trans hcopy).congr (by rw [hgrant.view_eq, Function.update_idem])
  have hcopied := h.allocScratch hnext hfilled
  refine ⟨_, ?_, hcopied.pushPending hpending, fun old hold => hcopied.evictee_notMem hold,
    hfilled.limit_eq, fun other hother => ?_⟩
  · rw [writeAdding, hsize, addEntry_of_allocates halloc, hacc]
    rfl
  · rw [hfilled.view_eq, Function.update_of_ne (h.ne_next hother)]

/-! ### The read loop -/

/-- A lookup leaves something to copy. -/
theorem available_pos (h : Represents kernel entries log lost) {fPos : Int} {rtn : Nat}
    {index : Slot} {entryOffset : Nat}
    (hfind : aesdCircularBufferFindEntryOffsetForFpos kernel.dev.circularBuffer (sizeTOfInt fPos)
      rtn = (some index, entryOffset)) :
    0 < sizeTSub (kernel.dev.circularBuffer.entry index).size entryOffset ∧
      sizeTOfInt fPos < kernel.content.length := by
  have hpos : sizeTOfInt fPos < 2 ^ 64 := by
    unfold sizeTOfInt
    omega
  by_cases hend : kernel.content.length ≤ sizeTOfInt fPos
  · rw [h.find_eq_none hpos hend] at hfind
    cases hfind
  obtain ⟨index', offset', hfind', hoffset, hsize, -⟩ := h.find_eq_some (Nat.lt_of_not_le hend) rtn
  rw [hfind'] at hfind
  cases hfind
  rw [sizeTSub_of_le hoffset.le hsize]
  exact ⟨Nat.sub_pos_of_lt hoffset, Nat.lt_of_not_le hend⟩

/-- **One turn** ends the read, or gets on and leaves what the rest of the loop will do. -/
theorem readTurn_cases (h : Represents kernel entries log lost) (env : ReadEnv)
    (count iteration : Nat) (buf : Bytes) (fPos : Int) :
    (∃ response, readTurn env kernel count iteration buf fPos =
        (.unlocking none response, kernel) ∧
      ∀ fuel, (aesdReadLoop env kernel.dev count (fuel + 1) iteration kernel.heap buf fPos).map
        ReadOutcome.response = some response) ∨
    ∃ buf' fPos', readTurn env kernel count iteration buf fPos =
        (.reading (iteration + 1) buf' fPos', kernel) ∧
      buf.length < count ∧ buf.length < buf'.length ∧
      ∀ fuel, aesdReadLoop env kernel.dev count (fuel + 1) iteration kernel.heap buf fPos =
        aesdReadLoop env kernel.dev count fuel (iteration + 1) kernel.heap buf' fPos' := by
  unfold readTurn
  by_cases hdone : buf.length < count
  swap
  · refine Or.inl ⟨_, if_neg hdone, fun fuel => ?_⟩
    rw [aesdReadLoop, if_neg hdone, Option.map_some, ReadOutcome.response]
  rw [if_pos hdone]
  cases hfind : aesdCircularBufferFindEntryOffsetForFpos kernel.dev.circularBuffer
      (sizeTOfInt fPos) 0 with
  | mk found entryOffset =>
      cases found with
      | none =>
          refine Or.inl ⟨_, rfl, fun fuel => ?_⟩
          rw [aesdReadLoop, if_pos hdone, hfind, Option.map_some, ReadOutcome.response]
      | some index =>
          have hcut : ∀ x y : Nat, (if x < y then x else y) ≤ y := by
            intro x y
            split <;> omega
          dsimp only
          rw [h.readBytes_found hfind (hcut _ _)]
          cases hcopy : env.copyToUser iteration with
          | false =>
              refine Or.inl ⟨_, rfl, fun fuel => ?_⟩
              rw [aesdReadLoop, if_pos hdone, hfind]
              dsimp only
              rw [h.readBytes_found hfind (hcut _ _), hcopy]
              rfl
          | true =>
              obtain ⟨havailable, hinside⟩ := h.available_pos hfind
              refine Or.inr ⟨_, _, rfl, hdone, ?_, fun fuel => ?_⟩
              · have hcopied : 0 < (if count - buf.length <
                    sizeTSub (kernel.dev.circularBuffer.entry index).size entryOffset then
                    count - buf.length
                    else sizeTSub (kernel.dev.circularBuffer.entry index).size entryOffset) := by
                  split <;> omega
                rw [List.length_append, List.length_take, List.length_drop]
                omega
              rw [aesdReadLoop, if_pos hdone, hfind]
              dsimp only
              rw [h.readBytes_found hfind (hcut _ _), hcopy]
              rfl

end Represents

end AesdChar
