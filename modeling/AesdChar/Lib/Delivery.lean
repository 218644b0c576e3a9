import Mathlib

/-!
# A sequence sent in blocks

A sender cuts a sequence into blocks and offers them one after the other, whatever became of the
blocks before. Of each block the receiver takes a beginning. What it has in the end is a beginning
of the sequence unless something arrives after a shortfall, and even then if it happens to be what
should have come in its place.
-/

namespace AesdChar.Lib

structure Delivery (α : Type) where
  whole : List α
  size : Nat
  /-- How much of a block the receiver takes at most. -/
  accept : Nat → Nat

theorem append_prefix_iff {α : Type} {front rest whole : List α} :
    front ++ rest <+: whole ↔ front <+: whole ∧ rest <+: whole.drop front.length := by
  constructor
  · rintro ⟨tail, rfl⟩
    rw [List.append_assoc, List.drop_left]
    exact ⟨List.prefix_append _ _, List.prefix_append _ _⟩
  · rintro ⟨⟨tail, rfl⟩, hrest⟩
    rw [List.drop_left] at hrest
    exact (List.prefix_append_right_inj front).mpr hrest

namespace Delivery

variable {α : Type} (delivery : Delivery α)

def block (i : Nat) : List α := (delivery.whole.drop (delivery.size * i)).take delivery.size

/-- What the receiver takes of a block. -/
def part (i : Nat) : List α := (delivery.block i).take (delivery.accept i)

def received : Nat → List α
  | 0 => []
  | count + 1 => received count ++ delivery.part count

/-- How much of the first blocks is missing. -/
def shortfall : Nat → Nat
  | 0 => 0
  | count + 1 => shortfall count +
      ((delivery.block count).length - (delivery.part count).length)

/-- Something arrives after a shortfall, and it is not what comes next. -/
structure Displaced (i : Nat) : Prop where
  short : 0 < delivery.shortfall i
  differs : delivery.part i ≠ (delivery.whole.drop
    (delivery.size * i - delivery.shortfall i)).take (delivery.part i).length

/-! ### After the first block -/

def tail : Delivery α :=
  ⟨delivery.whole.drop delivery.size, delivery.size, fun i => delivery.accept (i + 1)⟩

theorem block_tail (i : Nat) : delivery.tail.block i = delivery.block (i + 1) := by
  simp only [block, tail, List.drop_drop, Nat.mul_succ, Nat.add_comm]

theorem part_tail (i : Nat) : delivery.tail.part i = delivery.part (i + 1) :=
  congrArg (List.take _) (delivery.block_tail i)

theorem received_succ_eq (count : Nat) :
    delivery.received (count + 1) = delivery.part 0 ++ delivery.tail.received count := by
  induction count with
  | zero => exact (List.append_nil _).symm
  | succ count ih => rw [received, ih, List.append_assoc, ← part_tail, received]

/-! ### What has arrived -/

theorem part_isPrefix (i : Nat) :
    delivery.part i <+: delivery.whole.drop (delivery.size * i) :=
  (List.take_prefix _ _).trans (List.take_prefix _ _)

theorem lt_length_of_block_ne_nil {i : Nat} (hne : delivery.block i ≠ []) :
    delivery.size * i < delivery.whole.length := by
  by_contra hend
  rw [block, List.drop_of_length_le (Nat.not_lt.mp hend), List.take_nil] at hne
  exact hne rfl

/-- Only the last block can be shorter than the others. -/
theorem length_block_of_lt {i j : Nat} (hne : delivery.block j ≠ []) (hlt : i < j) :
    (delivery.block i).length = delivery.size := by
  have hend := delivery.lt_length_of_block_ne_nil hne
  have hle : delivery.size * i + delivery.size ≤ delivery.size * j :=
    Nat.mul_le_mul_left delivery.size hlt
  rw [block, List.length_take, List.length_drop]
  omega

theorem length_received_add_shortfall {count : Nat}
    (hfull : ∀ i < count, (delivery.block i).length = delivery.size) :
    (delivery.received count).length + delivery.shortfall count = delivery.size * count := by
  induction count with
  | zero => rfl
  | succ count ih =>
      have hbefore := ih fun i hi => hfull i (Nat.lt_succ_of_lt hi)
      have hblock := hfull count (Nat.lt_succ_self count)
      have hpart : (delivery.part count).length ≤ (delivery.block count).length :=
        (List.take_prefix _ _).length_le
      rw [received, shortfall, List.length_append, Nat.mul_succ]
      omega

/-- Where every block is taken whole, nothing is missing up to the first empty one. -/
theorem received_eq_whole (hsize : 0 < delivery.size) {count : Nat}
    (hall : ∀ i, delivery.size ≤ delivery.accept i) (hend : delivery.block count = []) :
    delivery.received count = delivery.whole := by
  have htake : ∀ n, delivery.received n = delivery.whole.take (delivery.size * n) := by
    intro n
    induction n with
    | zero => rw [Nat.mul_zero, List.take_zero, received]
    | succ n ih =>
        have hblock : (delivery.block n).length ≤ delivery.accept n :=
          (List.length_take_le _ _).trans (hall n)
        rw [received, ih, part, List.take_of_length_le hblock, block, Nat.mul_succ, List.take_add]
  have hle : delivery.whole.length ≤ delivery.size * count := by
    have hlength := congrArg List.length hend
    rw [block, List.length_take, List.length_drop, List.length_nil] at hlength
    omega
  rw [htake, List.take_of_length_le hle]

/-- **What has arrived is a beginning exactly when nothing was displaced.** -/
theorem received_prefix_iff {count : Nat} (hne : ∀ i < count, delivery.block i ≠ []) :
    delivery.received count <+: delivery.whole ↔ ∀ i < count, ¬ delivery.Displaced i := by
  induction count with
  | zero => exact iff_of_true List.nil_prefix fun i hi => absurd hi (Nat.not_lt_zero i)
  | succ count ih =>
      have hlast := hne count (Nat.lt_succ_self count)
      have hlength := delivery.length_received_add_shortfall fun i hi =>
        delivery.length_block_of_lt hlast hi
      have harrives : (delivery.received count).length =
          delivery.size * count - delivery.shortfall count := by omega
      have hpart : delivery.part count <+: delivery.whole.drop (delivery.received count).length ↔
          ¬ delivery.Displaced count := by
        rw [harrives, List.prefix_iff_eq_take]
        constructor
        · exact fun hsame hdisplaced => hdisplaced.differs hsame
        · intro hnot
          rcases Nat.eq_zero_or_pos (delivery.shortfall count) with hnone | hshort
          · rw [hnone, Nat.sub_zero]
            exact List.prefix_iff_eq_take.mp (delivery.part_isPrefix count)
          · by_contra hdiffers
            exact hnot ⟨hshort, hdiffers⟩
      rw [received, append_prefix_iff, hpart, ih fun i hi => hne i (Nat.lt_succ_of_lt hi)]
      exact Nat.forall_lt_succ_right.symm

end Delivery

end AesdChar.Lib
