import AesdChar.Lib.Window

/-!
# Cutting a sequence at its terminators

Some elements of a sequence close a frame. `frames` cuts the sequence after each of them and keeps
what is left over as the open frame. Lines are the frames of a sequence of bytes; a log that
collects chunks until one of them completes a record makes frames of chunks. A cutting into frames
is unique, which is what lets two ways of cutting the same sequence be compared.
-/

namespace AesdChar.Lib

variable {α : Type} (closes : α → Prop) [DecidablePred closes]

/-- The closed frames so far and the open one, after one more element. -/
def frameStep (state : List (List α) × List α) (x : α) : List (List α) × List α :=
  if closes x then (state.1 ++ [state.2 ++ [x]], []) else (state.1, state.2 ++ [x])

def frames (l : List α) : List (List α) × List α := l.foldl (frameStep closes) ([], [])

def EndsClosed (l : List α) : Prop := ∃ last ∈ l.getLast?, closes last

/-- It closes at its last element and nowhere before. -/
def IsFrame (frame : List α) : Prop := EndsClosed closes frame ∧ ∀ x ∈ frame.dropLast, ¬ closes x

variable {closes}

omit [DecidablePred closes] in
theorem isFrame_concat {body : List α} {last : α} (hbody : ∀ x ∈ body, ¬ closes x)
    (hlast : closes last) : IsFrame closes (body ++ [last]) := by
  refine ⟨⟨last, by simp, hlast⟩, ?_⟩
  rw [List.dropLast_concat]
  exact hbody

omit [DecidablePred closes] in
theorem EndsClosed.exists_concat {l : List α} (h : EndsClosed closes l) :
    ∃ body last, l = body ++ [last] ∧ closes last := by
  obtain ⟨last, hlast, hcloses⟩ := h
  obtain ⟨body, hbody⟩ := List.getLast?_eq_some_iff.mp hlast
  exact ⟨body, last, hbody, hcloses⟩

omit [DecidablePred closes] in
theorem IsFrame.exists_concat {frame : List α} (h : IsFrame closes frame) :
    ∃ body last, frame = body ++ [last] ∧ (∀ x ∈ body, ¬ closes x) ∧ closes last := by
  obtain ⟨body, last, rfl, hlast⟩ := h.1.exists_concat
  refine ⟨body, last, rfl, ?_, hlast⟩
  simpa using h.2

variable (closes)

theorem frames_concat (l : List α) (x : α) :
    frames closes (l ++ [x]) = frameStep closes (frames closes l) x := by
  rw [frames, List.foldl_append]
  rfl

theorem frames_concat_of_closes (l : List α) {x : α} (hx : closes x) :
    frames closes (l ++ [x]) = ((frames closes l).1 ++ [(frames closes l).2 ++ [x]], []) := by
  rw [frames_concat, frameStep, if_pos hx]

theorem frames_concat_of_not (l : List α) {x : α} (hx : ¬ closes x) :
    frames closes (l ++ [x]) = ((frames closes l).1, (frames closes l).2 ++ [x]) := by
  rw [frames_concat, frameStep, if_neg hx]

theorem flatten_frames (l : List α) : (frames closes l).1.flatten ++ (frames closes l).2 = l := by
  induction l using List.reverseRecOn with
  | nil => rfl
  | append_singleton l x ih =>
      by_cases hx : closes x
      · rw [frames_concat_of_closes closes l hx, List.flatten_concat, List.append_nil,
          ← List.append_assoc, ih]
      · rw [frames_concat_of_not closes l hx, ← List.append_assoc, ih]

theorem not_closes_of_mem_open {l : List α} : ∀ x ∈ (frames closes l).2, ¬ closes x := by
  induction l using List.reverseRecOn with
  | nil =>
      intro x hx
      exact absurd hx List.not_mem_nil
  | append_singleton l y ih =>
      by_cases hy : closes y
      · rw [frames_concat_of_closes closes l hy]
        intro x hx
        exact absurd hx List.not_mem_nil
      · rw [frames_concat_of_not closes l hy]
        intro x hx
        rcases List.mem_append.mp hx with hold | hnew
        · exact ih x hold
        · exact List.mem_singleton.mp hnew ▸ hy

/-- The closed frames, each with the element that closed it. -/
theorem forall₂_frames (l : List α) :
    List.Forall₂ (fun frame last => ∃ body, frame = body ++ [last] ∧ (∀ x ∈ body, ¬ closes x) ∧
      closes last) (frames closes l).1 (l.filter fun x => decide (closes x)) := by
  induction l using List.reverseRecOn with
  | nil => exact .nil
  | append_singleton l x ih =>
      rw [List.filter_append]
      by_cases hx : closes x
      · rw [frames_concat_of_closes closes l hx, List.filter_cons_of_pos (by simpa using hx)]
        refine List.rel_append ih (.cons ?_ .nil)
        exact ⟨(frames closes l).2, rfl, not_closes_of_mem_open closes, hx⟩
      · rw [frames_concat_of_not closes l hx, List.filter_cons_of_neg (by simpa using hx),
          List.filter_nil, List.append_nil]
        exact ih

variable {closes}

theorem isFrame_of_mem {l frame : List α} (hframe : frame ∈ (frames closes l).1) :
    IsFrame closes frame := by
  obtain ⟨i, hi, rfl⟩ := List.getElem_of_mem hframe
  obtain ⟨body, hbody, hnot, hlast⟩ :=
    (forall₂_frames closes l).get hi ((forall₂_frames closes l).length_eq ▸ hi)
  rw [List.get_eq_getElem] at hbody
  rw [hbody]
  exact isFrame_concat hnot hlast

/-! ### Uniqueness -/

theorem frames_append_open (l : List α) {tail : List α} (htail : ∀ x ∈ tail, ¬ closes x) :
    frames closes (l ++ tail) = ((frames closes l).1, (frames closes l).2 ++ tail) := by
  induction tail using List.reverseRecOn with
  | nil => simp
  | append_singleton tail x ih =>
      have hx : ¬ closes x := htail x (by simp)
      rw [← List.append_assoc, frames_concat_of_not closes _ hx,
        ih fun y hy => htail y (List.mem_append_left _ hy), List.append_assoc]

/-- **There is only one way** to cut a sequence into frames and an open rest. -/
theorem frames_flatten_append {cut : List (List α)} {tail : List α}
    (hcut : ∀ frame ∈ cut, IsFrame closes frame) (htail : ∀ x ∈ tail, ¬ closes x) :
    frames closes (cut.flatten ++ tail) = (cut, tail) := by
  have hclosed : frames closes cut.flatten = (cut, []) := by
    induction cut using List.reverseRecOn with
    | nil => rfl
    | append_singleton cut frame ih =>
        obtain ⟨body, last, rfl, hbody, hlast⟩ := (hcut frame (by simp)).exists_concat
        rw [List.flatten_concat, ← List.append_assoc, frames_concat_of_closes closes _ hlast,
          frames_append_open _ hbody, ih fun other hother => hcut other (by simp [hother])]
        rfl
  rw [frames_append_open _ htail, hclosed]
  rfl

theorem open_eq_nil_of_endsClosed {l : List α} (h : EndsClosed closes l) :
    (frames closes l).2 = [] := by
  obtain ⟨body, last, rfl, hlast⟩ := h.exists_concat
  rw [frames_concat_of_closes closes _ hlast]

/-! ### Other cuttings, seen through a window

A log may cut the same sequence into other pieces. Through a window on the last `n` of them the
difference does not show when these are frames and the piece before them ends where a frame does. -/

omit [DecidablePred closes] in
theorem isFrame_of_mem_rtake {pieces : List (List α)} {n : Nat}
    (hends : ∀ piece ∈ pieces.rtake (n + 1), EndsClosed closes piece)
    (hinner : ∀ piece ∈ pieces.rtake n, ∀ x ∈ piece.dropLast, ¬ closes x) :
    ∀ piece ∈ pieces.rtake n, IsFrame closes piece := by
  intro piece hpiece
  exact ⟨hends piece (mem_rtake_of_le (Nat.le_succ n) hpiece), hinner piece hpiece⟩

theorem rtake_frames_of_aligned {pieces : List (List α)} {tail : List α} {n : Nat}
    (htail : ∀ x ∈ tail, ¬ closes x)
    (hends : ∀ piece ∈ pieces.rtake (n + 1), EndsClosed closes piece)
    (hinner : ∀ piece ∈ pieces.rtake n, ∀ x ∈ piece.dropLast, ¬ closes x) :
    (frames closes (pieces.flatten ++ tail)).1.rtake n = pieces.rtake n ∧
      (frames closes (pieces.flatten ++ tail)).2 = tail := by
  have hframes := isFrame_of_mem_rtake hends hinner
  rcases Nat.lt_or_ge n pieces.length with hlt | hle
  · obtain ⟨before, piece, hpieces⟩ := exists_split_of_lt_length hlt
    -- the hidden pieces may be anything, but they end where a frame ends
    have hpiece : EndsClosed closes piece :=
      hends piece (by rw [rtake_succ_of_split hpieces]; exact List.mem_cons_self)
    have hhidden : EndsClosed closes (before ++ [piece]).flatten := by
      obtain ⟨body, last, rfl, hlast⟩ := hpiece.exists_concat
      exact ⟨last, by simp, hlast⟩
    have hflatten := flatten_frames closes (before ++ [piece]).flatten
    rw [open_eq_nil_of_endsClosed hhidden, List.append_nil] at hflatten
    have hcut : pieces.flatten =
        ((frames closes (before ++ [piece]).flatten).1 ++ pieces.rtake n).flatten := by
      rw [List.flatten_append, hflatten, ← List.flatten_append]
      conv_lhs => rw [hpieces]
      rw [List.append_assoc]
      rfl
    have hall : ∀ frame ∈ (frames closes (before ++ [piece]).flatten).1 ++ pieces.rtake n,
        IsFrame closes frame := by
      intro frame hframe
      rcases List.mem_append.mp hframe with hold | hvisible
      · exact isFrame_of_mem hold
      · exact hframes frame hvisible
    have hlength : (pieces.rtake n).length = n := by
      rw [length_rtake, Nat.min_eq_right hlt.le]
    rw [hcut, frames_flatten_append hall htail]
    exact ⟨by rw [rtake_append_of_le hlength.ge, rtake_of_length_le hlength.le], rfl⟩
  · rw [rtake_of_length_le hle] at hframes ⊢
    rw [frames_flatten_append hframes htail]
    exact ⟨rtake_of_length_le hle, rfl⟩

theorem aligned_of_rtake_frames {pieces : List (List α)} {tail : List α} {n : Nat}
    (hpieces : ∀ piece ∈ pieces, piece ≠ [])
    (hvisible : pieces.rtake n = (frames closes (pieces.flatten ++ tail)).1.rtake n)
    (hopen : tail = (frames closes (pieces.flatten ++ tail)).2) :
    (∀ piece ∈ pieces.rtake (n + 1), EndsClosed closes piece) ∧
      ∀ piece ∈ pieces.rtake n, ∀ x ∈ piece.dropLast, ¬ closes x := by
  have hflatten := flatten_frames closes (pieces.flatten ++ tail)
  rw [← hopen, List.append_cancel_right_eq] at hflatten
  have hframes : ∀ piece ∈ pieces.rtake n, IsFrame closes piece := by
    intro piece hpiece
    rw [hvisible] at hpiece
    exact isFrame_of_mem (List.mem_of_mem_drop hpiece)
  refine ⟨fun piece hpiece => ?_, fun piece hpiece => (hframes piece hpiece).2⟩
  rcases Nat.lt_or_ge n pieces.length with hlt | hle
  swap
  · rw [rtake_of_length_le (Nat.le_succ_of_le hle)] at hpiece
    rw [rtake_of_length_le hle] at hframes
    exact (hframes piece hpiece).1
  obtain ⟨before, oldest, hsplit⟩ := exists_split_of_lt_length hlt
  rw [rtake_succ_of_split hsplit] at hpiece
  rcases List.mem_cons.mp hpiece with rfl | hmem
  swap
  · exact (hframes piece hmem).1
  -- what precedes the window is the same on both sides, and on the other side it is made of frames
  set lines := (frames closes (pieces.flatten ++ tail)).1 with hlines
  have hhidden : (lines.take (lines.length - n)).flatten = before.flatten ++ piece := by
    have hboth : (lines.take (lines.length - n)).flatten ++ (pieces.rtake n).flatten =
        (before.flatten ++ piece) ++ (pieces.rtake n).flatten := by
      calc
        (lines.take (lines.length - n)).flatten ++ (pieces.rtake n).flatten = lines.flatten := by
          rw [hvisible, ← List.flatten_append, take_append_rtake]
        _ = pieces.flatten := hflatten
        _ = (before.flatten ++ piece) ++ (pieces.rtake n).flatten := by
          conv_lhs => rw [hsplit]
          simp
    exact List.append_cancel_right hboth
  have hpiece_ne : piece ≠ [] := hpieces piece (by rw [hsplit]; simp)
  have hne : lines.take (lines.length - n) ≠ [] := by
    intro hnil
    rw [hnil, List.flatten_nil] at hhidden
    exact hpiece_ne (List.append_eq_nil_iff.mp hhidden.symm).2
  obtain ⟨older, line, hline⟩ := (List.eq_nil_or_concat _).resolve_left hne
  have hline_mem : line ∈ lines := List.mem_of_mem_take (by rw [hline]; simp)
  obtain ⟨body, last, rfl, -, hlast⟩ := (isFrame_of_mem hline_mem).exists_concat
  refine ⟨last, ?_, hlast⟩
  have hgetLast : (before.flatten ++ piece).getLast? = some last := by
    rw [← hhidden, hline]
    simp
  rw [List.getLast?_append_of_ne_nil _ hpiece_ne] at hgetLast
  exact hgetLast

end AesdChar.Lib
