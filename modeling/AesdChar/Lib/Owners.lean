import AesdChar.Lib.BlockHeap

/-!
# One owner for every block

Blocks are handed out, handed on and given back. When every live block has exactly one owner, who
has given up what it held, nobody can use a block that is gone or give one back twice; and whoever
still holds something when all are done has leaked it.
-/

namespace AesdChar.Lib

variable {α ι : Type}

/-- The block that was used when it was gone. -/
def HeapReport.block : HeapReport → Option Nat
  | .deadFree block => some block
  | .badAccess block _ _ => some block
  | .nullAccess _ _ => none

namespace BlockHeap

variable {heap : BlockHeap α} {report : HeapReport} {block offset length : Nat}

theorem mem_reports_check (hreport : report ∈ (heap.check block offset length).reports) :
    report ∈ heap.reports ∨ report.block = some block := by
  unfold check at hreport
  split at hreport
  · exact Or.inl hreport
  · refine (List.mem_append.mp hreport).imp_right fun hnew => ?_
    rw [List.mem_singleton.mp hnew]
    rfl

theorem mem_reports_free (hreport : report ∈ (heap.free block).reports) :
    report ∈ heap.reports ∨ report.block = some block := by
  unfold free at hreport
  split at hreport
  · exact Or.inl hreport
  · refine (List.mem_append.mp hreport).imp_right fun hnew => ?_
    rw [List.mem_singleton.mp hnew]
    rfl

theorem reports_free_of_live (hlive : block ∈ heap.live) :
    (heap.free block).reports = heap.reports := by
  rw [free, if_pos hlive]
  rfl

/-- What has no contents is accessible as long as it is live. -/
theorem check_of_live (hlive : block ∈ heap.live) : heap.check block 0 0 = heap :=
  if_pos ⟨hlive, Nat.zero_le _⟩

end BlockHeap

/-! ### Sharing out a set of blocks -/

/-- The blocks are those that somebody holds, and no block is held twice. -/
structure Shares (blocks : Finset Nat) (holds : ι → Option Nat) : Prop where
  live_iff : ∀ block, block ∈ blocks ↔ ∃ owner, holds owner = some block
  unique : ∀ {owner other : ι} {block : Nat}, holds owner = some block →
    holds other = some block → owner = other

namespace Shares

variable {blocks : Finset Nat} {holds : ι → Option Nat} {owner other : ι} {block : Nat}

theorem live (h : Shares blocks holds) (hholds : holds owner = some block) : block ∈ blocks :=
  (h.live_iff block).mpr ⟨owner, hholds⟩

section Update

variable [DecidableEq ι]

theorem insert (h : Shares blocks holds) (hnone : holds owner = none) (hnew : block ∉ blocks) :
    Shares (Insert.insert block blocks) (Function.update holds owner (some block)) where
  live_iff := by
    intro held
    rw [Finset.mem_insert, h.live_iff]
    constructor
    · rintro (rfl | ⟨holder, hholder⟩)
      · exact ⟨owner, Function.update_self _ _ _⟩
      · have hne : holder ≠ owner := by
          rintro rfl
          simp [hnone] at hholder
        exact ⟨holder, by rwa [Function.update_of_ne hne]⟩
    · rintro ⟨holder, hholder⟩
      by_cases heq : holder = owner
      · subst heq
        rw [Function.update_self] at hholder
        exact Or.inl (Option.some.inj hholder).symm
      · rw [Function.update_of_ne heq] at hholder
        exact Or.inr ⟨holder, hholder⟩
  unique := by
    have hfresh : ∀ holder, holds holder ≠ some block := fun holder hholder =>
      hnew (h.live hholder)
    intro holder holder' held hholder hholder'
    by_cases heq : holder = owner
    · subst heq
      rw [Function.update_self, Option.some.injEq] at hholder
      subst hholder
      by_contra hne
      rw [Function.update_of_ne (Ne.symm hne)] at hholder'
      exact hfresh holder' hholder'
    · rw [Function.update_of_ne heq] at hholder
      by_cases heq' : holder' = owner
      · subst heq'
        rw [Function.update_self, Option.some.injEq] at hholder'
        subst hholder'
        exact absurd hholder (hfresh holder)
      · rw [Function.update_of_ne heq'] at hholder'
        exact h.unique hholder hholder'

theorem erase (h : Shares blocks holds) (hholds : holds owner = some block) :
    Shares (blocks.erase block) (Function.update holds owner none) where
  live_iff := by
    intro held
    rw [Finset.mem_erase, h.live_iff]
    constructor
    · rintro ⟨hne, holder, hholder⟩
      have hother : holder ≠ owner := by
        rintro rfl
        exact hne (Option.some.inj (hholder.symm.trans hholds))
      exact ⟨holder, by rwa [Function.update_of_ne hother]⟩
    · rintro ⟨holder, hholder⟩
      by_cases heq : holder = owner
      · subst heq
        simp at hholder
      · rw [Function.update_of_ne heq] at hholder
        refine ⟨?_, holder, hholder⟩
        rintro rfl
        exact heq (h.unique hholder hholds)
  unique := by
    intro holder holder' held hholder hholder'
    have hne : holder ≠ owner := by
      rintro rfl
      simp at hholder
    have hne' : holder' ≠ owner := by
      rintro rfl
      simp at hholder'
    rw [Function.update_of_ne hne] at hholder
    rw [Function.update_of_ne hne'] at hholder'
    exact h.unique hholder hholder'

/-- A block passed on from one owner to another. -/
theorem pass (h : Shares blocks holds) (hholds : holds owner = some block)
    (hnone : holds other = none) :
    Shares blocks (Function.update (Function.update holds owner none) other (some block)) := by
  have hne : other ≠ owner := by
    rintro rfl
    simp [hnone] at hholds
  have hmem : block ∈ blocks := h.live hholds
  have hstill : Function.update holds owner none other = none := by
    rwa [Function.update_of_ne hne]
  have hpassed := (h.erase hholds).insert hstill (Finset.notMem_erase block blocks)
  rwa [Finset.insert_erase hmem] at hpassed

end Update

/-- There are as many blocks as there are owners who hold one. -/
theorem card_eq (h : Shares blocks holds) (owners : Finset ι)
    (howners : ∀ owner, owner ∈ owners ↔ holds owner ≠ none) : blocks.card = owners.card := by
  have hget : ∀ owner ∈ owners, ∃ block, holds owner = some block := fun owner howner =>
    Option.ne_none_iff_exists'.mp ((howners owner).mp howner)
  choose! held hheld using hget
  symm
  refine Finset.card_nbij held (fun owner howner => ?_) (fun owner howner other hother heq => ?_)
    fun block hblock => ?_
  · exact h.live (hheld owner howner)
  · exact h.unique (hheld owner howner) (heq ▸ hheld other hother)
  · obtain ⟨owner, howner⟩ := (h.live_iff block).mp hblock
    have hmem : owner ∈ owners := (howners owner).mpr (by simp [howner])
    exact ⟨owner, hmem, Option.some.inj ((hheld owner hmem).symm.trans howner)⟩

end Shares

/-! ### Sharing out a heap -/

/-- The live blocks are those that somebody holds, and no block is held twice. -/
structure Owned (heap : BlockHeap α) (holds : ι → Option Nat) : Prop
    extends Shares heap.live holds where
  wellFormed : heap.WellFormed

namespace Owned

variable {heap heap' : BlockHeap α} {holds holds' : ι → Option Nat} {owner other : ι} {block : Nat}

theorem empty (junk : Nat → α) (limit : Nat) :
    Owned (BlockHeap.empty junk limit) fun _ : ι => none where
  wellFormed := BlockHeap.wellFormed_empty _ _
  live_iff := by simp [BlockHeap.empty]
  unique := by simp

theorem congr (h : Owned heap holds) (hholds : holds' = holds) : Owned heap holds' := hholds ▸ h

/-- Reading and writing makes no difference. -/
theorem of_live_eq (h : Owned heap holds) (hlive : heap'.live = heap.live)
    (hnext : heap'.next = heap.next) : Owned heap' holds where
  wellFormed := by
    unfold BlockHeap.WellFormed
    rw [hlive, hnext]
    exact h.wellFormed
  live_iff := by
    rw [hlive]
    exact h.live_iff
  unique := h.unique

theorem check (h : Owned heap holds) (block offset length : Nat) :
    Owned (heap.check block offset length) holds :=
  h.of_live_eq (heap.live_check block offset length) (heap.next_check block offset length)

variable [DecidableEq ι]

theorem grant (h : Owned heap holds) (hnone : holds owner = none) (contents : List α) :
    Owned (heap.grant contents) (Function.update holds owner (some heap.next)) where
  toShares := h.toShares.insert hnone fun hlive => Nat.lt_irrefl _ (h.wellFormed _ hlive)
  wellFormed := (BlockHeap.becomes_grant h.wellFormed contents).wellFormed

theorem free (h : Owned heap holds) (hholds : holds owner = some block) :
    Owned (heap.free block) (Function.update holds owner none) where
  toShares := by
    rw [BlockHeap.live_free]
    exact h.toShares.erase hholds
  wellFormed := by
    intro other hother
    rw [BlockHeap.live_free] at hother
    rw [BlockHeap.next_free]
    exact h.wellFormed other (Finset.mem_of_mem_erase hother)

theorem pass (h : Owned heap holds) (hholds : holds owner = some block) (hnone : holds other = none) :
    Owned heap (Function.update (Function.update holds owner none) other (some block)) :=
  ⟨h.toShares.pass hholds hnone, h.wellFormed⟩

end Owned

end AesdChar.Lib
