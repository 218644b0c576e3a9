import AesdChar.Lib.Run

/-!
# A buffer that is reused without being cleared

Each chunk is laid over the front of the buffer and leaves the rest as it was. Whoever looks for a
pattern at the front of the buffer may find one that no chunk contains: a long chunk brought its
end, a shorter one later its beginning. `Assembles` says of a sequence, without mention of chunks,
that this can happen to it for some way of cutting it up.
-/

namespace AesdChar.Lib

variable {α : Type}

def overlay (buffer chunk : List α) : List α := chunk ++ buffer.drop chunk.length

/-- No chunk makes the buffer begin with the pattern. -/
def NeverShows (pattern buffer : List α) (chunks : List (List α)) : Prop :=
  Along overlay (fun buffer chunk => ¬ (overlay buffer chunk).take pattern.length = pattern) buffer
    chunks

/-- The buffer agrees with the pattern from a position on. -/
def HoldsFrom (pattern buffer : List α) (start : Nat) : Prop :=
  (buffer.drop start).take (pattern.length - start) = pattern.drop start

/-- The sequence contains, one behind the other, blocks of decreasing lengths, the first `start`
long, each of which agrees with the pattern from where the next one ends. -/
inductive Assembles (pattern : List α) : (start : Nat) → List α → Prop
  | done (l : List α) : Assembles pattern 0 l
  | skip {start : Nat} {l : List α} (x : α) : Assembles pattern start l →
      Assembles pattern start (x :: l)
  | block {start : Nat} {l : List α} (lead : List α) : lead.length < start →
      Assembles pattern lead.length l →
      Assembles pattern start (lead ++ (pattern.take start).drop lead.length ++ l)

def singletons (l : List α) : List (List α) := l.map fun x => [x]

theorem flatten_singletons (l : List α) : (singletons l).flatten = l := by
  rw [singletons, ← List.flatMap_def, List.flatMap_singleton']

theorem mem_singletons {l chunk : List α} (hchunk : chunk ∈ singletons l) :
    ∃ x ∈ l, chunk = [x] := by
  obtain ⟨x, hx, rfl⟩ := List.mem_map.mp hchunk
  exact ⟨x, hx, rfl⟩

theorem take_overlay (buffer chunk : List α) : (overlay buffer chunk).take chunk.length = chunk :=
  List.take_left

theorem drop_overlay (buffer chunk : List α) {i : Nat} (hle : chunk.length ≤ i) :
    (overlay buffer chunk).drop i = buffer.drop i := by
  rw [overlay, List.drop_append, List.drop_of_length_le hle, List.nil_append, List.drop_drop,
    Nat.add_sub_cancel' hle]

theorem take_drop_overlay (buffer : List α) {chunk : List α} {i count : Nat}
    (hle : i + count ≤ chunk.length) :
    ((overlay buffer chunk).drop i).take count = (chunk.drop i).take count := by
  rw [overlay, List.drop_append_of_le_length (by omega),
    List.take_append_of_le_length (by rw [List.length_drop]; omega)]

section Pattern

variable {pattern buffer chunk l : List α} {start : Nat}

theorem HoldsFrom.of_le (h : HoldsFrom pattern buffer start) {i : Nat} (hle : start ≤ i) :
    HoldsFrom pattern buffer i := by
  obtain ⟨d, rfl⟩ := Nat.exists_eq_add_of_le hle
  have hdrop := congrArg (List.drop d) h
  rw [List.drop_take, List.drop_drop, List.drop_drop, Nat.sub_sub] at hdrop
  exact hdrop

theorem HoldsFrom.length_le (hnew : HoldsFrom pattern (overlay buffer chunk) start) {upTo : Nat}
    (hold : ∀ i < upTo, ¬ HoldsFrom pattern buffer i) (hlt : start < upTo) :
    upTo ≤ chunk.length := by
  by_contra hshort
  apply hold (max start chunk.length) (by omega)
  have hrest := hnew.of_le (Nat.le_max_left start chunk.length)
  rw [HoldsFrom, drop_overlay _ _ (Nat.le_max_right _ _)] at hrest
  exact hrest

theorem HoldsFrom.chunk_eq (h : HoldsFrom pattern (overlay buffer chunk) start) {upTo : Nat}
    (hlt : start < upTo) (hle : upTo ≤ pattern.length) (hlong : upTo ≤ chunk.length) :
    chunk = chunk.take start ++ (pattern.take upTo).drop start ++ chunk.drop upTo := by
  have hpiece : (pattern.take upTo).drop start = (chunk.drop start).take (upTo - start) := by
    rw [List.drop_take, ← h, List.take_take, Nat.min_eq_left (by omega),
      take_drop_overlay _ (by omega)]
  have hdrop : chunk.drop upTo = (chunk.drop start).drop (upTo - start) := by
    rw [List.drop_drop, Nat.add_sub_cancel' hlt.le]
  rw [hpiece, hdrop, List.append_assoc, List.take_append_drop, List.take_append_drop]

/-- A block leaves the pattern in the buffer from its own end of agreement on. -/
theorem HoldsFrom.overlay_block (h : HoldsFrom pattern buffer start) {lead : List α}
    (hlt : lead.length < start) (hle : start ≤ pattern.length) :
    HoldsFrom pattern (overlay buffer (lead ++ (pattern.take start).drop lead.length))
      lead.length := by
  have hpiece : ((pattern.take start).drop lead.length).length = start - lead.length := by
    rw [List.length_drop, List.length_take, Nat.min_eq_left hle]
  have hblock : (lead ++ (pattern.take start).drop lead.length).length = start := by
    rw [List.length_append, hpiece]
    omega
  have hcount : pattern.length - lead.length - (start - lead.length) = pattern.length - start := by
    omega
  calc
    ((overlay buffer (lead ++ (pattern.take start).drop lead.length)).drop lead.length).take
          (pattern.length - lead.length) =
        ((pattern.take start).drop lead.length ++ buffer.drop start).take
          (pattern.length - lead.length) := by
      rw [overlay, hblock, List.append_assoc, List.drop_left]
    _ = (pattern.take start).drop lead.length ++ pattern.drop start := by
      rw [List.take_append, hpiece, hcount, h, List.take_of_length_le (by omega)]
    _ = pattern.drop lead.length := by
      conv_rhs => rw [← List.take_append_drop start pattern]
      rw [List.drop_append_of_le_length (by rw [List.length_take]; omega)]

theorem Assembles.append_left (h : Assembles pattern start l) (front : List α) :
    Assembles pattern start (front ++ l) := by
  induction front with
  | nil => exact h
  | cons x front ih => exact .skip x ih

theorem Assembles.le_length (h : Assembles pattern start l) (hle : start ≤ pattern.length) :
    start ≤ l.length := by
  induction h with
  | done => exact Nat.zero_le _
  | skip x _ ih => exact Nat.le_succ_of_le (ih hle)
  | block lead hlt _ ih =>
      simp only [List.length_append, List.length_drop, List.length_take]
      omega

/-- An element that is not in the pattern is in no block's agreement. -/
theorem Assembles.of_concat {x : α} (hx : x ∉ pattern) {whole : List α}
    (h : Assembles pattern start whole) (hle : start ≤ pattern.length) (hwhole : whole = l ++ [x]) :
    Assembles pattern start l := by
  induction h generalizing l with
  | done => exact .done l
  | @skip start rest y h ih =>
      cases l with
      | nil =>
          obtain rfl : rest = [] := (List.cons.inj hwhole).2
          obtain rfl : start = 0 := Nat.eq_zero_of_le_zero (h.le_length hle)
          exact .done []
      | cons z l =>
          obtain ⟨rfl, hrest⟩ := List.cons.inj hwhole
          exact .skip y (ih hle hrest)
  | @block start rest lead hlt h ih =>
      rcases List.eq_nil_or_concat' rest with rfl | ⟨front, last, rfl⟩
      · -- then the block would end with the element
        have hpiece : (pattern.take start).drop lead.length ≠ [] := by
          rw [← List.length_pos_iff, List.length_drop, List.length_take]
          omega
        have hlast := congrArg List.getLast? hwhole
        rw [List.append_nil, List.getLast?_append_of_ne_nil _ hpiece, List.getLast?_concat] at hlast
        exact absurd (List.mem_of_mem_take (List.mem_of_mem_drop (List.mem_of_getLast? hlast))) hx
      · rw [← List.append_assoc] at hwhole
        obtain ⟨rfl, hlast⟩ := List.append_inj' hwhole rfl
        obtain rfl : last = x := List.singleton_inj.mp hlast
        exact .block lead hlt (ih (Nat.le_of_lt (Nat.lt_of_lt_of_le hlt hle)) rfl)

theorem assembles_of_not_neverShows {chunks : List (List α)} (hle : start ≤ pattern.length)
    (hold : ∀ i < start, ¬ HoldsFrom pattern buffer i)
    (hshows : ¬ NeverShows pattern buffer chunks) : Assembles pattern start chunks.flatten := by
  classical
  induction chunks generalizing buffer start with
  | nil => exact absurd trivial hshows
  | cons chunk chunks ih =>
      rw [List.flatten_cons]
      -- how much of the pattern the buffer ends with now
      by_cases hmore : ∃ i, i < start ∧ HoldsFrom pattern (overlay buffer chunk) i
      · obtain ⟨hlt, hnew⟩ := Nat.find_spec hmore
        set least := Nat.find hmore with hleast
        have hlong := hnew.length_le hold hlt
        have hlead : (chunk.take least).length = least := by
          rw [List.length_take, Nat.min_eq_left (by omega)]
        have hbelow : ∀ i < least, ¬ HoldsFrom pattern (overlay buffer chunk) i := fun i hi hfrom =>
          Nat.find_min hmore hi ⟨hi.trans hlt, hfrom⟩
        have hrest : Assembles pattern least (chunk.drop start ++ chunks.flatten) := by
          rcases Nat.eq_zero_or_pos least with hzero | hpositive
          · rw [hzero]
            exact .done _
          · refine (ih (hlt.le.trans hle) hbelow fun hnever => ?_).append_left _
            exact hshows ⟨hbelow 0 hpositive, hnever⟩
        rw [hnew.chunk_eq hlt hle hlong, List.append_assoc]
        have hblock := Assembles.block (chunk.take least) (by rw [hlead]; exact hlt)
          (by rw [hlead]; exact hrest)
        rw [hlead] at hblock
        exact hblock
      · have hsame : ∀ i < start, ¬ HoldsFrom pattern (overlay buffer chunk) i := fun i hi hfrom =>
          hmore ⟨i, hi, hfrom⟩
        rcases Nat.eq_zero_or_pos start with rfl | hpositive
        · exact .done _
        · refine (ih hle hsame fun hnever => ?_).append_left _
          exact hshows ⟨hsame 0 hpositive, hnever⟩

/-- A sequence that assembles the pattern can be cut so that it shows. -/
theorem Assembles.exists_cutting (h : Assembles pattern start l) (hpositive : 0 < start)
    (hle : start ≤ pattern.length) (hbuffer : HoldsFrom pattern buffer start) :
    ∃ chunks, chunks.flatten = l ∧
      (∀ chunk ∈ chunks, 1 ≤ chunk.length ∧ chunk.length ≤ pattern.length) ∧
      ¬ NeverShows pattern buffer chunks := by
  induction h generalizing buffer with
  | done => exact absurd hpositive (Nat.lt_irrefl 0)
  | @skip start rest x _ ih =>
      have hstill : HoldsFrom pattern (overlay buffer [x]) start := by
        rw [HoldsFrom, drop_overlay _ _ hpositive]
        exact hbuffer
      obtain ⟨chunks, hflatten, hsizes, hshows⟩ := ih hpositive hle hstill
      refine ⟨[x] :: chunks, by rw [List.flatten_cons, hflatten, List.singleton_append], ?_,
        fun hnever => hshows hnever.2⟩
      exact List.forall_mem_cons.mpr ⟨⟨le_rfl, hpositive.trans_le hle⟩, hsizes⟩
  | @block start rest lead hlt _ ih =>
      have hnew := hbuffer.overlay_block hlt hle
      have hlength : (lead ++ (pattern.take start).drop lead.length).length = start := by
        rw [List.length_append, List.length_drop, List.length_take]
        omega
      have hsize : 1 ≤ (lead ++ (pattern.take start).drop lead.length).length ∧
          (lead ++ (pattern.take start).drop lead.length).length ≤ pattern.length := by
        rw [hlength]
        exact ⟨hpositive, hle⟩
      rcases Nat.eq_zero_or_pos lead.length with hzero | hlead
      · obtain rfl : lead = [] := List.length_eq_zero_iff.mp hzero
        refine ⟨_ :: singletons rest, by rw [List.flatten_cons, flatten_singletons], ?_,
          fun hnever => hnever.1 hnew⟩
        refine List.forall_mem_cons.mpr ⟨hsize, fun chunk hchunk => ?_⟩
        obtain ⟨x, -, rfl⟩ := mem_singletons hchunk
        exact ⟨le_rfl, hpositive.trans_le hle⟩
      · obtain ⟨chunks, hflatten, hsizes, hshows⟩ := ih hlead (hlt.le.trans hle) hnew
        refine ⟨_ :: chunks, by rw [List.flatten_cons, hflatten], ?_, fun hnever => hshows hnever.2⟩
        exact List.forall_mem_cons.mpr ⟨hsize, hsizes⟩

end Pattern

end AesdChar.Lib
