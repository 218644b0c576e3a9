import Mathlib

/-!
# The last `n` elements of a growing list

Mathlib's `List.rtake` is the view a bounded buffer gives of its history. Appending one element to
the history appends it to the view, and pushes the front of the view out once there is no room.
-/

namespace AesdChar.Lib

variable {α β : Type}

theorem length_rtake (l : List α) (n : Nat) : (l.rtake n).length = min l.length n := by
  simp only [List.rtake, List.length_drop]
  omega

theorem rtake_of_length_le {l : List α} {n : Nat} (hle : l.length ≤ n) : l.rtake n = l := by
  rw [List.rtake, Nat.sub_eq_zero_of_le hle, List.drop_zero]

theorem rtake_concat (l : List α) (x : α) {n : Nat} (hpos : 0 < n) :
    (l ++ [x]).rtake n = (if n ≤ l.length then (l.rtake n).tail else l.rtake n) ++ [x] := by
  obtain ⟨m, rfl⟩ : ∃ m, n = m + 1 := ⟨n - 1, by omega⟩
  rw [List.rtake_concat_succ]
  congr 1
  split
  · rename_i hle
    rw [List.rtake, List.rtake, List.tail_drop]
    congr 1
    omega
  · rename_i hlt
    rw [rtake_of_length_le (by omega), rtake_of_length_le (by omega)]

theorem rtake_append_of_le {l₁ l₂ : List α} {n : Nat} (hle : n ≤ l₂.length) :
    (l₁ ++ l₂).rtake n = l₂.rtake n := by
  rw [List.rtake, List.rtake, List.length_append, List.drop_append,
    List.drop_of_length_le (by omega), List.nil_append]
  congr 1
  omega

theorem take_append_rtake (l : List α) (n : Nat) : l.take (l.length - n) ++ l.rtake n = l :=
  List.take_append_drop _ _

theorem mem_rtake_of_le {l : List α} {m n : Nat} (hle : m ≤ n) {x : α} (hx : x ∈ l.rtake m) :
    x ∈ l.rtake n := by
  rw [List.rtake] at hx ⊢
  exact (List.drop_sublist_drop_left l (Nat.sub_le_sub_left hle l.length)).mem hx

theorem exists_split_of_lt_length {l : List α} {n : Nat} (hlt : n < l.length) :
    ∃ before x, l = before ++ x :: l.rtake n := by
  have hindex : l.length - n - 1 < l.length := by omega
  refine ⟨l.take (l.length - n - 1), l[l.length - n - 1], ?_⟩
  have hdrop : l.rtake n = l.drop (l.length - n - 1 + 1) := by
    rw [List.rtake]
    congr 1
    omega
  rw [hdrop, ← List.drop_eq_getElem_cons hindex, List.take_append_drop]

theorem rtake_succ_of_split {l before : List α} {x : α} {n : Nat}
    (hsplit : l = before ++ x :: l.rtake n) : l.rtake (n + 1) = x :: l.rtake n := by
  have hlength : l.length = before.length + (l.rtake n).length + 1 := by
    conv_lhs => rw [hsplit]
    simp only [List.length_append, List.length_cons]
    omega
  have hle := length_rtake l n
  have hn : (x :: l.rtake n).length = n + 1 := by
    rw [List.length_cons]
    omega
  conv_lhs => rw [hsplit]
  rw [rtake_append_of_le hn.ge, rtake_of_length_le hn.le]

theorem forall₂_mem_imp {R S : α → β → Prop} {l₁ : List α} {l₂ : List β}
    (himp : ∀ a ∈ l₁, ∀ b, R a b → S a b) (h : List.Forall₂ R l₁ l₂) : List.Forall₂ S l₁ l₂ := by
  induction h with
  | nil => exact .nil
  | cons hhead _ ih =>
      exact .cons (himp _ List.mem_cons_self _ hhead)
        (ih fun a ha => himp a (List.mem_cons_of_mem _ ha))

theorem forall₂_rtake {R : α → β → Prop} {l₁ : List α} {l₂ : List β} (h : List.Forall₂ R l₁ l₂)
    (n : Nat) : List.Forall₂ R (l₁.rtake n) (l₂.rtake n) := by
  rw [List.rtake, List.rtake, h.length_eq]
  exact List.forall₂_drop _ h

theorem forall₂_forall_mem_iff {R : α → β → Prop} {P : α → Prop} {Q : β → Prop} {l₁ : List α}
    {l₂ : List β} (hiff : ∀ a b, R a b → (P a ↔ Q b)) (h : List.Forall₂ R l₁ l₂) :
    (∀ a ∈ l₁, P a) ↔ ∀ b ∈ l₂, Q b := by
  induction h with
  | nil => simp
  | cons hhead _ ih => rw [List.forall_mem_cons, List.forall_mem_cons, ih, hiff _ _ hhead]

theorem forall₂_tail {R : α → β → Prop} {l₁ : List α} {l₂ : List β} (h : List.Forall₂ R l₁ l₂) :
    List.Forall₂ R l₁.tail l₂.tail := by
  cases h with
  | nil => exact .nil
  | cons _ htail => exact htail

end AesdChar.Lib
