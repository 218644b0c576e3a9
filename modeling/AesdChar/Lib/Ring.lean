import Mathlib

/-!
# A ring of slots against its history

`n` slots, a write index, a read index and a full flag. What such a ring is for is to keep the last
`n` values ever pushed: `Tracks` ties the four components to the whole history of pushes, and every
other fact about the ring is read off it. The two indices say the same thing about an empty ring and
a full one, so the flag is part of the relation.
-/

namespace AesdChar.Lib.Ring

variable {n : Nat} [NeZero n] {α : Type}

def next (i : Fin n) : Fin n := Fin.ofNat n (i.val + 1)

def window (slots : Fin n → α) (start count : Nat) : List α :=
  (List.range count).map fun k => slots (Fin.ofNat n (start + k))

omit [NeZero n] in
/-- Two times less than one revolution apart never share a slot. -/
theorem mod_ne_of_lt {i j : Nat} (hlt : i < j) (hspan : j < i + n) : i % n ≠ j % n := by
  intro heq
  have hdvd : n ∣ j - i := Nat.dvd_of_mod_eq_zero (Nat.sub_mod_eq_zero_of_mod_eq heq.symm)
  have hle := Nat.le_of_dvd (by omega) hdvd
  omega

theorem length_window (slots : Fin n → α) (start count : Nat) :
    (window slots start count).length = count := by simp [window]

@[simp] theorem window_zero (slots : Fin n → α) (start : Nat) : window slots start 0 = [] := rfl

theorem window_succ (slots : Fin n → α) (start count : Nat) :
    window slots start (count + 1) =
      slots (Fin.ofNat n start) :: window slots (start + 1) count := by
  simp only [window, List.range_succ_eq_map, List.map_cons, List.map_map, Nat.add_zero,
    List.cons.injEq, true_and]
  apply List.map_congr_left
  intro k _
  simp only [Function.comp_apply, Nat.succ_eq_add_one]
  congr 2
  omega

theorem take_window (slots : Fin n → α) (start : Nat) {count k : Nat} (hle : k ≤ count) :
    (window slots start count).take k = window slots start k := by
  rw [window, ← List.map_take, List.take_range, Nat.min_eq_left hle]
  rfl

/-- The ring holds the most recent part of `history`, and nothing else. -/
structure Tracks (blank : α) (slots : Fin n → α) (inOffs outOffs : Fin n) (full : Bool)
    (history : List α) : Prop where
  inOffs_eq : inOffs.val = history.length % n
  outOffs_eq : outOffs.val = if history.length < n then 0 else history.length % n
  full_iff : full = true ↔ n ≤ history.length
  recent : ∀ k (hk : k < history.length), history.length ≤ k + n →
    slots (Fin.ofNat n k) = history[k]
  untouched : ∀ j : Fin n, history.length ≤ j.val → slots j = blank

theorem tracks_nil (blank : α) : Tracks blank (fun _ : Fin n => blank) 0 0 false [] where
  inOffs_eq := by simp
  outOffs_eq := by simp
  full_iff := by simp [NeZero.ne n]
  recent := fun k hk => absurd hk (Nat.not_lt_zero k)
  untouched := fun _ _ => rfl

section Tracks

variable {blank : α} {slots : Fin n → α} {inOffs outOffs : Fin n} {full : Bool} {history : List α}

theorem Tracks.outOffs_eq_inOffs (h : Tracks blank slots inOffs outOffs full history)
    (hfull : full = true) : outOffs = inOffs := by
  apply Fin.ext
  have hle := h.full_iff.mp hfull
  rw [h.outOffs_eq, h.inOffs_eq, if_neg (by omega)]

/-- **One push.** The new value goes to the write index, which advances; a full ring drops its
oldest value by advancing the read index too; and the ring is full afterwards exactly when the two
indices meet. -/
theorem Tracks.push (h : Tracks blank slots inOffs outOffs full history) (value : α) :
    Tracks blank (Function.update slots inOffs value) (next inOffs)
      (if full then next outOffs else outOffs)
      (decide (next inOffs = if full then next outOffs else outOffs)) (history ++ [value]) := by
  have hpos : 0 < n := Nat.pos_of_ne_zero (NeZero.ne n)
  have hnext : (next inOffs).val = (history.length + 1) % n := by
    simp [next, h.inOffs_eq]
  have hin : inOffs = Fin.ofNat n history.length := Fin.ext h.inOffs_eq
  have hout : (if full then next outOffs else outOffs).val =
      if history.length + 1 ≤ n then 0 else (history.length + 1) % n := by
    cases hfull : full with
    | false =>
        have hlt : history.length < n := by
          have := h.full_iff.not.mp (by simp [hfull])
          omega
        simp only [Bool.false_eq_true, if_false, h.outOffs_eq, if_pos hlt]
        rw [if_pos (by omega)]
    | true =>
        have hle := h.full_iff.mp hfull
        simp only [if_true, h.outOffs_eq_inOffs hfull, hnext]
        rw [if_neg (by omega)]
  refine ⟨by simp [hnext], ?_, ?_, ?_, ?_⟩
  · rw [hout, List.length_append, List.length_singleton]
    rcases Nat.lt_trichotomy (history.length + 1) n with hlt | heq | hgt
    · rw [if_pos (by omega), if_pos hlt]
    · rw [if_pos (by omega), if_neg (by omega), heq, Nat.mod_self]
    · rw [if_neg (by omega), if_neg (by omega)]
  · rw [decide_eq_true_iff, Fin.ext_iff, hnext, hout, List.length_append, List.length_singleton]
    rcases Nat.lt_trichotomy (history.length + 1) n with hlt | heq | hgt
    · rw [if_pos (by omega), Nat.mod_eq_of_lt hlt]
      omega
    · rw [if_pos (by omega), heq, Nat.mod_self]
      simp
    · rw [if_neg (by omega)]
      simp only [true_iff]
      omega
  · intro k hk hrecent
    rw [List.length_append, List.length_singleton] at hk hrecent
    by_cases hlast : k = history.length
    · subst hlast
      simp [hin]
    · have hlt : k < history.length := by omega
      have hne : Fin.ofNat n k ≠ inOffs := by
        rw [hin, Ne, Fin.ext_iff]
        exact mod_ne_of_lt hlt (by omega)
      rw [Function.update_of_ne hne, h.recent k hlt (by omega), List.getElem_append_left hlt]
  · intro j hj
    rw [List.length_append, List.length_singleton] at hj
    have hne : j ≠ inOffs := by
      rw [Ne, Fin.ext_iff, h.inOffs_eq, Nat.mod_eq_of_lt (by omega)]
      omega
    rw [Function.update_of_ne hne, h.untouched j (by omega)]

theorem Tracks.window_eq (h : Tracks blank slots inOffs outOffs full history) :
    window slots outOffs (min history.length n) = history.rtake n := by
  apply List.ext_getElem (by simp [length_window, List.rtake]; omega)
  intro k hk _
  rw [length_window] at hk
  simp only [window, List.rtake, List.getElem_map, List.getElem_range, List.getElem_drop]
  rw [← h.recent (history.length - n + k) (by omega) (by omega)]
  congr 1
  apply Fin.ext
  simp only [Fin.val_ofNat, h.outOffs_eq]
  by_cases hlt : history.length < n
  · rw [if_pos hlt, show history.length - n = 0 by omega]
  · rw [if_neg hlt, Nat.mod_add_mod, ← Nat.add_mod_right (history.length - n + k) n]
    congr 1
    omega

theorem Tracks.slot_outOffs (h : Tracks blank slots inOffs outOffs full history)
    (hle : n ≤ history.length) : history[history.length - n]? = some (slots outOffs) := by
  have hpos : 0 < n := Nat.pos_of_ne_zero (NeZero.ne n)
  rw [List.getElem?_eq_getElem (by omega), ← h.recent (history.length - n) (by omega) (by omega)]
  congr 2
  apply Fin.ext
  rw [h.outOffs_eq, if_neg (by omega), Fin.val_ofNat, ← Nat.add_mod_right (history.length - n) n]
  congr 1
  omega

/-- A slot that was ever written is in the window, whichever way the ring has turned since. -/
theorem Tracks.inside (h : Tracks blank slots inOffs outOffs full history) {j : Fin n}
    (hlt : j.val < history.length) :
    ∃ k < min history.length n, j = Fin.ofNat n (outOffs + k) := by
  by_cases hfull : history.length < n
  · refine ⟨j.val, by omega, Fin.ext ?_⟩
    rw [h.outOffs_eq, if_pos hfull, Nat.zero_add, Fin.val_ofNat, Nat.mod_eq_of_lt j.isLt]
  · refine ⟨(j - outOffs).val, by have := (j - outOffs).isLt; omega, Fin.ext ?_⟩
    rw [Fin.val_ofNat, ← Fin.val_add, add_sub_cancel]

theorem Tracks.outside (h : Tracks blank slots inOffs outOffs full history) {j : Fin n}
    (hout : ∀ k < min history.length n, j ≠ Fin.ofNat n (outOffs + k)) : slots j = blank := by
  refine h.untouched j (Nat.le_of_not_lt fun hlt => ?_)
  obtain ⟨k, hk, heq⟩ := h.inside hlt
  exact hout k hk heq

/-- Walking the slots in physical order meets the stored values, and blanks. -/
theorem Tracks.perm (h : Tracks blank slots inOffs outOffs full history) :
    ((List.finRange n).map slots).Perm
      (history.rtake n ++ List.replicate (n - history.length) blank) := by
  rw [← h.window_eq]
  by_cases hlt : history.length < n
  · refine List.Perm.of_eq (List.ext_getElem (by simp [length_window]; omega) fun k hk _ => ?_)
    simp only [List.length_map, List.length_finRange] at hk
    have hout : outOffs.val = 0 := by rw [h.outOffs_eq, if_pos hlt]
    by_cases hstored : k < history.length
    · rw [List.getElem_append_left (by rw [length_window]; omega)]
      simp only [window, List.getElem_map, List.getElem_finRange, List.getElem_range, hout]
      congr 1
      exact Fin.ext (by simp [Nat.mod_eq_of_lt hk])
    · rw [List.getElem_append_right (by rw [length_window]; omega), List.getElem_replicate,
        List.getElem_map, List.getElem_finRange]
      exact h.untouched _ (by simpa using hstored)
  · have hwindow : window slots outOffs (min history.length n) =
        ((List.finRange n).map (outOffs + ·)).map slots := by
      apply List.ext_getElem (by simp [length_window]; omega)
      intro k hk _
      simp only [window, List.getElem_map, List.getElem_range, List.getElem_finRange]
      congr 1
    rw [hwindow, show n - history.length = 0 by omega, List.replicate_zero, List.append_nil]
    refine List.Perm.map slots ((List.perm_ext_iff_of_nodup (List.nodup_finRange n) ?_).mpr ?_)
    · exact (List.nodup_finRange n).map (add_right_injective outOffs)
    · intro j
      simp only [List.mem_finRange, List.mem_map, true_and, true_iff]
      exact ⟨j - outOffs, by simp⟩

end Tracks

end AesdChar.Lib.Ring
