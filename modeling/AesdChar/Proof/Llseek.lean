import AesdChar.Proof.Step

/-!
# Seeking in the content

`llseek` adds the offset to its base in `loff_t` and clamps the sum to the content. The clamp is
exact, for it only compares; but a sum too large for the type has become negative before it gets
there, and is clamped to the wrong end.
-/

namespace AesdChar

open Lib

/-! ### The clamp -/

/-- The unsigned comparison is made only when it agrees with the signed one. -/
theorem clampPos_eq {newPos : Int} (h : InRange newPos) {totalSize : Nat}
    (htotal : totalSize < 2 ^ 63) :
    clampPos newPos totalSize = max 0 (min (totalSize : Int) newPos) := by
  obtain ⟨hlow, hhigh⟩ := h
  unfold clampPos
  by_cases hneg : newPos < 0
  · rw [if_pos hneg]
    omega
  obtain ⟨pos, rfl⟩ := Int.eq_ofNat_of_zero_le (Int.not_lt.mp hneg)
  rw [if_neg hneg, sizeTOfInt_of_lt (by omega)]
  by_cases hlt : totalSize < pos
  · rw [if_pos hlt, loffT_natCast htotal]
    omega
  · rw [if_neg hlt]
    omega

theorem clampPos_mem {newPos : Int} (h : InRange newPos) {totalSize : Nat}
    (htotal : totalSize < 2 ^ 63) :
    ∃ pos : Nat, clampPos newPos totalSize = pos ∧ pos ≤ totalSize := by
  refine ⟨(max 0 (min (totalSize : Int) newPos)).toNat, ?_, by omega⟩
  rw [clampPos_eq h htotal]
  omega

theorem loffT_of_ge {x : Int} (hlow : 2 ^ 63 ≤ x) (hhigh : x < 2 ^ 64) : loffT x = x - 2 ^ 64 := by
  unfold loffT
  rw [Int.bmod_def]
  split <;> omega

/-- Clamping after the addition: right, or at the wrong end if the sum wraps. -/
theorem clampPos_loffT {base offset : Int} (hbase : 0 ≤ base) (hbase' : base < 2 ^ 63)
    (hoffset : InRange offset) {totalSize : Nat} (htotal : totalSize < 2 ^ 63) :
    clampPos (loffT (base + offset)) totalSize =
      if 2 ^ 63 ≤ base + offset then 0 else max 0 (min (totalSize : Int) (base + offset)) := by
  obtain ⟨hlow, hhigh⟩ := hoffset
  rw [clampPos_eq (loffT_inRange _) htotal]
  by_cases hwraps : 2 ^ 63 ≤ base + offset
  · rw [if_pos hwraps, loffT_of_ge hwraps (by omega)]
    omega
  · rw [if_neg hwraps, loffT_of_lt (by omega) (by omega)]

theorem aesdLlseek_rewind (kernel : Kernel) (fPos : Int) :
    aesdLlseek true kernel fPos 0 SEEK_SET = ⟨0, kernel, 0⟩ := by
  have hclamp : clampPos 0 (aesdCircularBufferSize kernel.dev.circularBuffer) = 0 := by
    have hzero : sizeTOfInt 0 = 0 := rfl
    rw [clampPos, if_neg (lt_irrefl 0), hzero, if_neg (Nat.not_lt_zero _)]
  simp [aesdLlseek, hclamp]

theorem aesdLlseek_current (lock : Bool) (kernel : Kernel) (fPos offset : Int) :
    aesdLlseek lock kernel fPos offset SEEK_CUR = if lock = false then ⟨-ERESTARTSYS, kernel, fPos⟩
      else
        let newPos := clampPos (loffT (fPos + offset))
          (aesdCircularBufferSize kernel.dev.circularBuffer)
        ⟨newPos, kernel, newPos⟩ := by
  have hne : SEEK_CUR ≠ SEEK_SET := by decide
  simp only [aesdLlseek, if_neg hne, if_true]

theorem aesdLlseek_end (kernel : Kernel) (fPos offset : Int) :
    aesdLlseek true kernel fPos offset SEEK_END =
      let totalSize := aesdCircularBufferSize kernel.dev.circularBuffer
      let newPos := clampPos (loffT (totalSize + offset)) totalSize
      ⟨newPos, kernel, newPos⟩ := by
  have hset : SEEK_END ≠ SEEK_SET := by decide
  have hcur : SEEK_END ≠ SEEK_CUR := by decide
  simp only [aesdLlseek, Bool.true_eq_false, if_false, if_neg hset, if_neg hcur, if_true]

/-! ### The target -/

/-- What the offset is counted from. -/
def seekBase (kernel : Kernel) (fPos whence : Int) : Option Int :=
  if whence = SEEK_SET then some 0
  else if whence = SEEK_CUR then some fPos
  else if whence = SEEK_END then some kernel.content.length
  else none

/-- `llseek` goes to the place in the content nearest to the target, or refuses. -/
def SeeksToTarget (kernel : Kernel) (fPos offset whence : Int) (outcome : Outcome) : Prop :=
  match seekBase kernel fPos whence with
  | some base =>
      outcome.ret = max 0 (min (kernel.content.length : Int) (base + offset)) ∧
        outcome.fPos = outcome.ret
  | none => outcome.ret = -EINVAL ∧ outcome.fPos = fPos

/-- The target does not fit the type, and there is somewhere to go. -/
def OverflowsSeek (kernel : Kernel) (fPos offset whence : Int) : Prop :=
  kernel.content ≠ [] ∧ ∃ base, seekBase kernel fPos whence = some base ∧ 2 ^ 63 ≤ base + offset

namespace Represents

variable {kernel : Kernel} {entries : List AesdBufferEntry} {log : Log} {lost : Finset Ptr}

theorem aesdLlseek_sync (h : Represents kernel entries log lost) (fPos : Int) :
    ∃ pos : Nat, (aesdLlseek true kernel fPos 0 SEEK_CUR).fPos = pos ∧
      pos ≤ kernel.content.length := by
  obtain ⟨pos, hclamp, hle⟩ := clampPos_mem (loffT_inRange (fPos + 0)) h.length_content_lt
  refine ⟨pos, ?_, hle⟩
  simp only [aesdLlseek_current, Bool.true_eq_false, if_false, h.size_eq, hclamp]

/-- With a base, the outcome is the clamped sum. -/
theorem aesdLlseek_of_base (h : Represents kernel entries log lost) {fPos offset whence base : Int}
    (hoffset : InRange offset) (hbase : seekBase kernel fPos whence = some base) :
    ∃ newPos, aesdLlseek true kernel fPos offset whence = ⟨newPos, kernel, newPos⟩ ∧
      newPos = clampPos (loffT (base + offset)) kernel.content.length := by
  unfold seekBase at hbase
  split at hbase
  · rename_i hset
    cases hbase
    rw [Int.zero_add, loffT_of_lt hoffset.1 hoffset.2]
    refine ⟨_, ?_, rfl⟩
    simp only [aesdLlseek, Bool.true_eq_false, if_false, if_pos hset, h.size_eq]
  split at hbase
  · rename_i hcur
    cases hbase
    refine ⟨_, ?_, rfl⟩
    simp only [hcur, aesdLlseek_current, Bool.true_eq_false, if_false, h.size_eq]
  split at hbase
  · rename_i hend
    cases hbase
    refine ⟨_, ?_, rfl⟩
    simp only [hend, aesdLlseek_end, h.size_eq]
  · cases hbase

theorem aesdLlseek_of_no_base {fPos whence : Int} (kernel : Kernel)
    (hnone : seekBase kernel fPos whence = none) (offset : Int) :
    aesdLlseek true kernel fPos offset whence = ⟨-EINVAL, kernel, fPos⟩ := by
  unfold seekBase at hnone
  split at hnone
  · cases hnone
  split at hnone
  · cases hnone
  split at hnone
  · cases hnone
  · rename_i hset hcur hend
    simp only [aesdLlseek, Bool.true_eq_false, if_false, if_neg hset, if_neg hcur, if_neg hend]

theorem seekBase_bounds (h : Represents kernel entries log lost) {fPos whence base : Int}
    (hpos : 0 ≤ fPos) (hrange : InRange fPos) (hbase : seekBase kernel fPos whence = some base) :
    0 ≤ base ∧ base < 2 ^ 63 := by
  have hcontent := h.length_content_lt
  unfold seekBase at hbase
  split at hbase
  · cases hbase
    exact ⟨le_rfl, by decide⟩
  split at hbase
  · cases hbase
    exact ⟨hpos, hrange.2⟩
  split at hbase
  · cases hbase
    exact ⟨by omega, by omega⟩
  · cases hbase

end Represents

/-- **`llseek` clamps the true target exactly when the target fits the type** (or there is no
content to seek in, and so nothing to get wrong). -/
theorem llseek_seeksToTarget_iff (config : KmallocConfig) (calls : List Call)
    (fPos offset whence : Int) (hpos : 0 ≤ fPos) (hrange : InRange fPos)
    (hoffset : InRange offset) :
    let kernel := ((System.init config).run calls).kernel
    SeeksToTarget kernel fPos offset whence (aesdLlseek true kernel fPos offset whence) ↔
      ¬ OverflowsSeek kernel fPos offset whence := by
  intro kernel
  obtain ⟨entries, log, lost, hrep⟩ := run_represents config calls
  have h : Represents kernel entries log lost := hrep
  unfold SeeksToTarget OverflowsSeek
  cases hbase : seekBase kernel fPos whence with
  | none =>
      rw [Represents.aesdLlseek_of_no_base kernel hbase]
      refine iff_of_true ⟨rfl, rfl⟩ ?_
      rintro ⟨-, base, hsome, -⟩
      cases hsome
  | some base =>
      have hcontent := h.length_content_lt
      obtain ⟨hlow, hhigh⟩ := h.seekBase_bounds hpos hrange hbase
      obtain ⟨newPos, hseek, hnew⟩ := h.aesdLlseek_of_base hoffset hbase
      rw [clampPos_loffT hlow hhigh hoffset hcontent] at hnew
      simp only [hseek, and_true, Option.some.injEq, exists_eq_left', ← List.length_pos_iff]
      by_cases hwraps : 2 ^ 63 ≤ base + offset
      · rw [if_pos hwraps] at hnew
        simp only [hwraps, and_true]
        omega
      · rw [if_neg hwraps] at hnew
        simp only [hwraps, and_false, not_false_eq_true, iff_true]
        exact hnew

theorem llseek_seeksToTarget_iff_end :
    let kernel := ((System.init ⟨2 ^ 22, by decide, fun _ => 0⟩).run [plainWrite 0 [97, 10]]).kernel
    SeeksToTarget kernel 0 (-1) SEEK_END (aesdLlseek true kernel 0 (-1) SEEK_END) := by
  intro kernel
  refine (llseek_seeksToTarget_iff ⟨2 ^ 22, by decide, fun _ => 0⟩ [plainWrite 0 [97, 10]] 0 (-1)
    SEEK_END le_rfl (by unfold InRange; decide) (by unfold InRange; decide)).mpr ?_
  rintro ⟨-, base, hbase, hwraps⟩
  have hend : seekBase kernel 0 SEEK_END = some 2 := by decide
  obtain rfl : 2 = base := Option.some.inj (hend.symm.trans hbase)
  omega

/-- From the end of the content, as far forward as an offset can say: back at the start. -/
theorem not_seeksToTarget_far_forward :
    let kernel := ((System.init ⟨2 ^ 22, by decide, fun _ => 0⟩).run [plainWrite 0 [97, 10]]).kernel
    ¬ SeeksToTarget kernel 2 (2 ^ 63 - 1) SEEK_CUR
      (aesdLlseek true kernel 2 (2 ^ 63 - 1) SEEK_CUR) := by
  intro kernel hseeks
  have hret : (aesdLlseek true kernel 2 (2 ^ 63 - 1) SEEK_CUR).ret = 0 := by decide
  have hcontent : kernel.content.length = 2 := by decide
  have htarget := hseeks.1
  rw [hret, hcontent] at htarget
  exact absurd htarget (by decide)

end AesdChar
