import Mathlib

/-!
# Positions in a concatenation

A sequence stored in pieces is addressed by positions in the concatenation of the pieces. `locate`
turns such a position into a piece and an offset inside it. The two lemmas that characterise it say
it finds the one decomposition of the position there is, and `take_drop_flatten` is what makes it
useful: reading inside the piece is reading the concatenation. A longer slice is read piece by
piece, and `touched` counts how often.
-/

namespace AesdChar.Lib

def locate : List Nat → Nat → Option (Nat × Nat)
  | [], _ => none
  | size :: sizes, pos =>
      if pos < size then some (0, pos)
      else (locate sizes (pos - size)).map fun found => (found.1 + 1, found.2)

theorem locate_cons_of_lt {size pos : Nat} (sizes : List Nat) (hlt : pos < size) :
    locate (size :: sizes) pos = some (0, pos) := if_pos hlt

theorem locate_cons_of_le {size pos : Nat} (sizes : List Nat) (hle : size ≤ pos) :
    locate (size :: sizes) pos =
      (locate sizes (pos - size)).map fun found => (found.1 + 1, found.2) :=
  if_neg (Nat.not_lt.mpr hle)

theorem locate_eq_none_iff {sizes : List Nat} {pos : Nat} :
    locate sizes pos = none ↔ sizes.sum ≤ pos := by
  induction sizes generalizing pos with
  | nil => simp [locate]
  | cons size sizes ih =>
      rw [List.sum_cons]
      by_cases hlt : pos < size
      · simp only [locate_cons_of_lt sizes hlt, reduceCtorEq, false_iff]
        omega
      · rw [locate_cons_of_le sizes (by omega), Option.map_eq_none_iff, ih]
        omega

theorem locate_eq_some_iff {sizes : List Nat} {pos index offset : Nat} :
    locate sizes pos = some (index, offset) ↔
      ∃ h : index < sizes.length,
        pos = (sizes.take index).sum + offset ∧ offset < sizes[index] := by
  induction sizes generalizing pos index with
  | nil => simp [locate]
  | cons size sizes ih =>
      by_cases hlt : pos < size
      · rw [locate_cons_of_lt sizes hlt, Option.some.injEq, Prod.mk.injEq]
        constructor
        · rintro ⟨rfl, rfl⟩
          exact ⟨by simp, by simp, by simpa using hlt⟩
        · rintro ⟨hindex, hpos, hoffset⟩
          cases index with
          | zero => exact ⟨rfl, by simpa using hpos⟩
          | succ index =>
              rw [List.take_succ_cons, List.sum_cons] at hpos
              omega
      · rw [locate_cons_of_le sizes (by omega), Option.map_eq_some_iff]
        constructor
        · rintro ⟨⟨found, inside⟩, hfound, heq⟩
          obtain ⟨rfl, rfl⟩ := Prod.mk.inj heq
          obtain ⟨hindex, hpos, hinside⟩ := ih.mp hfound
          refine ⟨by simpa using hindex, ?_, by simpa using hinside⟩
          simp only [List.take_succ_cons, List.sum_cons]
          omega
        · rintro ⟨hindex, hpos, hoffset⟩
          cases index with
          | zero =>
              simp only [List.take_zero, List.sum_nil, List.getElem_cons_zero] at hpos hoffset
              omega
          | succ index =>
              rw [List.take_succ_cons, List.sum_cons] at hpos
              refine ⟨(index, offset), ih.mpr ⟨by simpa using hindex, by omega, ?_⟩, rfl⟩
              simpa using hoffset

/-- The place is an offset inside a piece, and the position is where that is in the whole. -/
def Decomposes (sizes : List Nat) (pos : Nat) (place : Nat × Nat) : Prop :=
  ∃ h : place.1 < sizes.length,
    pos = (sizes.take place.1).sum + place.2 ∧ place.2 < sizes[place.1]

theorem locate_eq_some_iff_decomposes {sizes : List Nat} {pos : Nat} {place : Nat × Nat} :
    locate sizes pos = some place ↔ Decomposes sizes pos place := locate_eq_some_iff

theorem decomposes_unique {sizes : List Nat} {pos : Nat} {place place' : Nat × Nat}
    (h : Decomposes sizes pos place) (h' : Decomposes sizes pos place') : place = place' := by
  rw [← locate_eq_some_iff_decomposes] at h h'
  exact Option.some.inj (h.symm.trans h')

theorem exists_decomposes {sizes : List Nat} {pos : Nat} (hlt : pos < sizes.sum) :
    ∃ place, Decomposes sizes pos place := by
  have hne : locate sizes pos ≠ none := locate_eq_none_iff.not.mpr (Nat.not_le.mpr hlt)
  obtain ⟨place, hlocate⟩ := Option.ne_none_iff_exists'.mp hne
  exact ⟨place, locate_eq_some_iff_decomposes.mp hlocate⟩

theorem locate_append_of_lt {sizes : List Nat} (rest : List Nat) {pos : Nat}
    (hlt : pos < sizes.sum) : locate (sizes ++ rest) pos = locate sizes pos := by
  induction sizes generalizing pos with
  | nil => exact absurd hlt (Nat.not_lt_zero pos)
  | cons size sizes ih =>
      rw [List.cons_append, locate, locate]
      by_cases hhead : pos < size
      · rw [if_pos hhead, if_pos hhead]
      · rw [List.sum_cons] at hlt
        rw [if_neg hhead, if_neg hhead, ih (by omega)]

theorem locate_concat_of_ge {sizes : List Nat} {size pos : Nat} (hge : sizes.sum ≤ pos)
    (hlt : pos < sizes.sum + size) :
    locate (sizes ++ [size]) pos = some (sizes.length, pos - sizes.sum) := by
  apply locate_eq_some_iff.mpr
  refine ⟨by simp, ?_, ?_⟩
  · rw [List.take_left']
    · omega
    · rfl
  · rw [List.getElem_concat_length]
    · omega
    · rfl

/-- **Reading inside the located piece is reading the concatenation.** -/
theorem take_drop_flatten {α : Type} {pieces : List (List α)} {pos index offset count : Nat}
    (hlocate : locate (pieces.map List.length) pos = some (index, offset))
    (hcount : offset + count ≤ (pieces[index]?.getD []).length) :
    (pieces.flatten.drop pos).take count = ((pieces[index]?.getD []).drop offset).take count := by
  induction pieces generalizing pos index with
  | nil => simp [locate] at hlocate
  | cons piece pieces ih =>
      rw [List.map_cons] at hlocate
      by_cases hlt : pos < piece.length
      · rw [locate_cons_of_lt _ hlt, Option.some.injEq, Prod.mk.injEq] at hlocate
        obtain ⟨rfl, rfl⟩ := hlocate
        simp only [List.getElem?_cons_zero, Option.getD_some] at hcount ⊢
        rw [List.flatten_cons, List.drop_append_of_le_length (by omega),
          List.take_append_of_le_length (by rw [List.length_drop]; omega)]
      · rw [locate_cons_of_le _ (by omega), Option.map_eq_some_iff] at hlocate
        obtain ⟨⟨found, inside⟩, hfound, heq⟩ := hlocate
        obtain ⟨rfl, rfl⟩ := Prod.mk.inj heq
        rw [List.getElem?_cons_succ] at hcount ⊢
        rw [List.flatten_cons, List.drop_append, List.drop_of_length_le (by omega),
          List.nil_append, ih hfound hcount]

theorem length_flatten_take_add_le {α : Type} {pieces : List (List α)} {index : Nat}
    (h : index < pieces.length) :
    (pieces.take index).flatten.length + pieces[index].length ≤ pieces.flatten.length := by
  have hsplit := congrArg List.length (congrArg List.flatten (List.take_append_drop index pieces))
  rw [List.drop_eq_getElem_cons h, List.flatten_append, List.flatten_cons, List.length_append,
    List.length_append] at hsplit
  omega

/-! ### Slices of a single piece -/

def InOnePiece (sizes : List Nat) (start length : Nat) : Prop :=
  ∃ index, ∀ pos, start ≤ pos → pos < start + length → (locate sizes pos).map Prod.fst = some index

theorem inOnePiece_append_iff {sizes : List Nat} (rest : List Nat) {start length : Nat}
    (hle : start + length ≤ sizes.sum) :
    InOnePiece (sizes ++ rest) start length ↔ InOnePiece sizes start length := by
  unfold InOnePiece
  apply exists_congr
  intro index
  apply forall_congr'
  intro pos
  apply imp_congr_right
  intro _
  apply imp_congr_right
  intro hlt
  rw [locate_append_of_lt rest (by omega)]

/-- A slice that ends with the last piece, and that piece is not empty, holds nothing else or is not
in one piece. -/
theorem inOnePiece_concat_iff {sizes : List Nat} {size start length : Nat} (hsize : 0 < size)
    (hstart : start ≤ sizes.sum) (hend : start + length = sizes.sum + size) :
    InOnePiece (sizes ++ [size]) start length ↔ start = sizes.sum := by
  constructor
  · rintro ⟨index, hindex⟩
    by_contra hne
    have hfirst := hindex start le_rfl (by omega)
    have hlast := hindex sizes.sum hstart (by omega)
    rw [locate_append_of_lt _ (by omega)] at hfirst
    rw [locate_concat_of_ge le_rfl (by omega), Option.map_some, Option.some.injEq] at hlast
    obtain ⟨place, hplace, heq⟩ := Option.map_eq_some_iff.mp hfirst
    obtain ⟨hlt, -⟩ := locate_eq_some_iff_decomposes.mp hplace
    omega
  · rintro rfl
    refine ⟨sizes.length, fun pos hge hlt => ?_⟩
    rw [locate_concat_of_ge hge (by omega), Option.map_some]

/-! ### Slices over several pieces -/

/-- How many pieces the `count` elements from position `pos` on come from. -/
def touched : List Nat → (pos count : Nat) → Nat
  | [], _, _ => 0
  | size :: sizes, pos, count =>
      if size ≤ pos then touched sizes (pos - size) count
      else if count = 0 then 0
      else touched sizes 0 (count - (size - pos)) + 1

theorem touched_cons_of_le {size pos : Nat} (sizes : List Nat) (hle : size ≤ pos) (count : Nat) :
    touched (size :: sizes) pos count = touched sizes (pos - size) count := if_pos hle

theorem touched_cons_of_lt {size pos count : Nat} (sizes : List Nat) (hlt : pos < size)
    (hcount : 0 < count) :
    touched (size :: sizes) pos count = touched sizes 0 (count - (size - pos)) + 1 := by
  rw [touched, if_neg (Nat.not_le.mpr hlt), if_neg (Nat.pos_iff_ne_zero.mp hcount)]

@[simp] theorem touched_zero (sizes : List Nat) (pos : Nat) : touched sizes pos 0 = 0 := by
  induction sizes generalizing pos with
  | nil => rfl
  | cons size sizes ih =>
      rw [touched, ih, if_pos rfl, ite_self]

theorem touched_of_sum_le {sizes : List Nat} {pos : Nat} (hle : sizes.sum ≤ pos) (count : Nat) :
    touched sizes pos count = 0 := by
  induction sizes generalizing pos with
  | nil => rfl
  | cons size sizes ih =>
      rw [List.sum_cons] at hle
      rw [touched_cons_of_le sizes (by omega)]
      exact ih (by omega)

/-- Taking one located piece, or as much of it as is wanted, leaves a slice that comes from one
piece less. -/
theorem touched_eq_succ {sizes : List Nat} {pos count index offset : Nat}
    (h : Decomposes sizes pos (index, offset)) (hcount : 0 < count) {taken : Nat}
    (htaken : taken = min count ((sizes[index]?.getD 0) - offset)) :
    touched sizes pos count = touched sizes (pos + taken) (count - taken) + 1 := by
  induction sizes generalizing pos index with
  | nil =>
      obtain ⟨hindex, -⟩ := h
      exact absurd hindex (Nat.not_lt_zero _)
  | cons size sizes ih =>
      rw [← locate_eq_some_iff_decomposes] at h
      by_cases hlt : pos < size
      · rw [locate_cons_of_lt sizes hlt, Option.some.injEq, Prod.mk.injEq] at h
        obtain ⟨rfl, rfl⟩ := h
        simp only [List.getElem?_cons_zero, Option.getD_some] at htaken
        rw [touched_cons_of_lt sizes hlt hcount]
        rcases Nat.lt_or_ge count (size - pos) with hshort | hlong
        · have hdone : count - taken = 0 := by omega
          rw [Nat.sub_eq_zero_of_le hshort.le, hdone, touched_zero, touched_zero]
        · have hend : pos + taken - size = 0 := by omega
          have hrest : count - taken = count - (size - pos) := by omega
          rw [touched_cons_of_le sizes (by omega), hend, hrest]
      · rw [locate_cons_of_le sizes (by omega), Option.map_eq_some_iff] at h
        obtain ⟨⟨found, inside⟩, hfound, heq⟩ := h
        obtain ⟨rfl, rfl⟩ := Prod.mk.inj heq
        rw [List.getElem?_cons_succ] at htaken
        rw [touched_cons_of_le sizes (by omega), touched_cons_of_le sizes (by omega),
          ih (locate_eq_some_iff_decomposes.mp hfound) htaken, Nat.sub_add_comm (by omega)]

end AesdChar.Lib
