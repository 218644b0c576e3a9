import AesdChar.Lib.Rope
import AesdChar.Proof.Representation

/-!
# What one read does

The lookup walks the window adding up sizes, which is `locate` on those sizes as long as their sum
does not wrap. The read loop then copies one located piece after another. Its invariant: what has
been copied is the slice of the content from the starting position on, and the position is at the
end of that slice.
-/

namespace AesdChar

open Lib

/-- No call of the read fails. -/
def ReadEnv.Succeeds (env : ReadEnv) : Prop := env.lock = true ∧ ∀ i, env.copyToUser i = true

/-! ### The lookup -/

/-- The slot and offset that a located piece stands for. -/
def lookupResult (start rtn : Nat) : Option (Nat × Nat) → Option Slot × Nat
  | none => (none, rtn)
  | some (index, offset) => (some (Fin.ofNat _ (start + index)), offset)

theorem findEntryLoop_eq (buffer : AesdCircularBuffer) {pos : Nat} (hpos : pos < 2 ^ 64)
    (rtn : Nat) :
    ∀ (steps : Nat) (index : Slot) (start cumulative : Nat), index = Fin.ofNat _ start →
      cumulative ≤ pos →
      cumulative + ((Ring.window buffer.entry start steps).map (·.size)).sum < 2 ^ 64 →
      findEntryLoop buffer pos rtn steps index cumulative = lookupResult start rtn
        (locate ((Ring.window buffer.entry start steps).map (·.size)) (pos - cumulative)) := by
  intro steps
  induction steps with
  | zero => intro index start cumulative _ _ _; rfl
  | succ steps ih =>
      intro index start cumulative hindex hle hsum
      rw [Ring.window_succ, List.map_cons, ← hindex] at hsum ⊢
      rw [List.sum_cons] at hsum
      have hsize : sizeT (cumulative + (buffer.entry index).size) =
          cumulative + (buffer.entry index).size := sizeT_of_lt (by omega)
      rw [findEntryLoop, hsize]
      by_cases hlt : pos < cumulative + (buffer.entry index).size
      · rw [if_pos hlt, locate_cons_of_lt _ (by omega), sizeTSub_of_le hle hpos]
        simp [lookupResult, hindex]
      · have hnext : Ring.next index = Fin.ofNat _ (start + 1) := by
          rw [hindex]
          exact Fin.ext (Nat.mod_add_mod start _ 1)
        rw [if_neg hlt, locate_cons_of_le _ (by omega),
          ih (Ring.next index) (start + 1) _ hnext (by omega) (by omega), Nat.sub_sub]
        cases locate _ (pos - (cumulative + (buffer.entry index).size)) with
        | none => rfl
        | some found =>
            simp only [lookupResult, Option.map_some]
            congr 3
            omega

/-- **The lookup is exact** on every buffer whose window does not exceed the address space. -/
theorem find_eq_locate (buffer : AesdCircularBuffer) {pos : Nat} (hpos : pos < 2 ^ 64) (rtn : Nat)
    (hsum : (buffer.stored.map (·.size)).sum < 2 ^ 64) :
    aesdCircularBufferFindEntryOffsetForFpos buffer pos rtn =
      lookupResult buffer.outOffs rtn (locate (buffer.stored.map (·.size)) pos) := by
  have hout : buffer.outOffs = Fin.ofNat _ buffer.outOffs.val := (Fin.ofNat_val_eq_self _).symm
  exact findEntryLoop_eq buffer hpos rtn buffer.count buffer.outOffs buffer.outOffs 0 hout
    (Nat.zero_le pos) (by rw [Nat.zero_add]; exact hsum)

/-! ### The lookup on any buffer

The lookup counts the window in three ways, two of them in `uint8_t`. The indices and the flag say
once how many entries are in use. -/

def AesdCircularBuffer.used (buffer : AesdCircularBuffer) : Nat :=
  if buffer.full then maxWriteOperationsSupported
  else (buffer.inOffs.val + maxWriteOperationsSupported - buffer.outOffs.val) %
    maxWriteOperationsSupported

/-- The entries in use, from the read index on in ring order. -/
def AesdCircularBuffer.window (buffer : AesdCircularBuffer) : List AesdBufferEntry :=
  Ring.window buffer.entry buffer.outOffs buffer.used

theorem AesdCircularBuffer.used_le (buffer : AesdCircularBuffer) :
    buffer.used ≤ maxWriteOperationsSupported := by
  unfold used
  split
  · exact le_rfl
  · exact (Nat.mod_lt _ (by decide)).le

theorem AesdCircularBuffer.count_eq_used (buffer : AesdCircularBuffer) :
    buffer.count = buffer.used := by
  have hin : buffer.inOffs.val < 10 := buffer.inOffs.isLt
  have hout : buffer.outOffs.val < 10 := buffer.outOffs.isLt
  unfold count used u8
  split
  · rfl
  -- the two ways to count around the ring are one subtraction modulo its size
  change _ = (buffer.inOffs.val + 10 - buffer.outOffs.val) % 10
  split
  · rename_i hle
    rw [Fin.le_def] at hle
    omega
  · rename_i hnot
    rw [Fin.le_def] at hnot
    change (10 - buffer.outOffs.val + buffer.inOffs.val) % 2 ^ 8 = _
    omega

theorem AesdCircularBuffer.stored_eq_window (buffer : AesdCircularBuffer) :
    buffer.stored = buffer.window := by
  rw [stored, count_eq_used, window]

/-- Two entries in use never share a slot. -/
theorem slot_injective (start : Nat) {i j : Nat} (hi : i < maxWriteOperationsSupported)
    (hj : j < maxWriteOperationsSupported)
    (heq : (Fin.ofNat maxWriteOperationsSupported (start + i)) = Fin.ofNat _ (start + j)) :
    i = j := by
  have hmod : (start + i) % maxWriteOperationsSupported =
      (start + j) % maxWriteOperationsSupported :=
    congrArg Fin.val heq
  rcases Nat.lt_trichotomy i j with hlt | hsame | hgt
  · exact absurd hmod (Ring.mod_ne_of_lt (by omega) (by omega))
  · exact hsame
  · exact absurd hmod.symm (Ring.mod_ne_of_lt (by omega) (by omega))

theorem lookupResult_eq_some_iff (start rtn : Nat) {found : Option (Nat × Nat)} {index offset : Nat}
    (hfound : ∀ place ∈ found, place.1 < maxWriteOperationsSupported)
    (hindex : index < maxWriteOperationsSupported) :
    lookupResult start rtn found = (some (Fin.ofNat _ (start + index)), offset) ↔
      found = some (index, offset) := by
  cases found with
  | none => simp [lookupResult]
  | some place =>
      have hplace := hfound place rfl
      simp only [lookupResult, Prod.mk.injEq, Option.some.injEq]
      constructor
      · intro ⟨hslot, hoffset⟩
        exact Prod.ext (slot_injective start hplace hindex hslot) hoffset
      · rintro rfl
        exact ⟨rfl, rfl⟩

theorem lookupResult_eq_none_iff (start rtn : Nat) {found : Option (Nat × Nat)} :
    lookupResult start rtn found = (none, rtn) ↔ found = none := by
  cases found <;> simp [lookupResult]

/-- **The lookup is exact on every buffer**, whatever its indices, its flag and the slots outside
the window: it finds the one place in the window that a position stands for, and nothing just when
there is none. -/
theorem find_exact (buffer : AesdCircularBuffer) {charOffset : Nat} (hchar : charOffset < 2 ^ 64)
    (entryOffsetByteRtn : Nat) (hsum : (buffer.window.map (·.size)).sum < 2 ^ 64) :
    let sizes := buffer.window.map (·.size)
    let found := aesdCircularBufferFindEntryOffsetForFpos buffer charOffset entryOffsetByteRtn
    (∀ index < sizes.length, ∀ offset,
      found = (some (Fin.ofNat _ (buffer.outOffs + index)), offset) ↔
        Decomposes sizes charOffset (index, offset)) ∧
    (charOffset < sizes.sum → ∃! place, Decomposes sizes charOffset place) ∧
    (found = (none, entryOffsetByteRtn) ↔ sizes.sum ≤ charOffset) ∧
    (found.1 = none → found.2 = entryOffsetByteRtn) := by
  intro sizes found
  have hlength : sizes.length ≤ maxWriteOperationsSupported := by
    rw [List.length_map, AesdCircularBuffer.window, Ring.length_window]
    exact buffer.used_le
  have hfound :
      found = lookupResult buffer.outOffs entryOffsetByteRtn (locate sizes charOffset) := by
    have heq := find_eq_locate buffer hchar entryOffsetByteRtn
      (by rw [buffer.stored_eq_window]; exact hsum)
    rw [buffer.stored_eq_window] at heq
    exact heq
  have hplaces : ∀ place ∈ locate sizes charOffset, place.1 < maxWriteOperationsSupported := by
    intro place hplace
    obtain ⟨hlt, -⟩ := locate_eq_some_iff_decomposes.mp hplace
    exact Nat.lt_of_lt_of_le hlt hlength
  refine ⟨fun index hindex offset => ?_, fun hlt => ?_, ?_, fun hnone => ?_⟩
  · rw [hfound, lookupResult_eq_some_iff _ _ hplaces (Nat.lt_of_lt_of_le hindex hlength),
      locate_eq_some_iff_decomposes]
  · obtain ⟨place, hplace⟩ := exists_decomposes hlt
    exact ⟨place, hplace, fun other hother => decomposes_unique hother hplace⟩
  · rw [hfound, lookupResult_eq_none_iff, locate_eq_none_iff]
  · rw [hfound] at hnone ⊢
    cases hlocate : locate sizes charOffset with
    | none => rfl
    | some place =>
        rw [hlocate] at hnone
        cases hnone

/-- Slots 8, 9, 0 and 1 are in use, of which slot 0 is empty; the others hold stale sizes. -/
theorem find_exact_wrapped :
    aesdCircularBufferFindEntryOffsetForFpos ⟨fun slot => ⟨none, slot⟩, 2, 8, false⟩ 17 7 =
      (some 1, 0) := by
  obtain ⟨hplaces, -⟩ :=
    find_exact ⟨fun slot => ⟨none, slot⟩, 2, 8, false⟩ (by decide : 17 < 2 ^ 64) 7 (by decide)
  exact (hplaces 3 (by decide) 0).mpr ⟨by decide, by decide, by decide⟩

/-- How many commands a read takes bytes from. -/
def Kernel.touched (kernel : Kernel) (pos count : Nat) : Nat :=
  Lib.touched (kernel.commands.map List.length) pos count

/-! ### The size -/

theorem foldl_sizeT {ι : Type} (size : ι → Nat) (indices : List ι) (start : Nat) :
    indices.foldl (fun total index => sizeT (total + size index)) (sizeT start) =
      sizeT (start + (indices.map size).sum) := by
  induction indices generalizing start with
  | nil => simp
  | cons index indices ih =>
      have hstep : sizeT (sizeT start + size index) = sizeT (start + size index) :=
        Nat.mod_add_mod start _ _
      rw [List.foldl_cons, hstep, ih, List.map_cons, List.sum_cons, Nat.add_assoc]

theorem aesdCircularBufferSize_eq (buffer : AesdCircularBuffer) :
    aesdCircularBufferSize buffer =
      sizeT ((foreachSlots.map fun index => (buffer.entry index).size).sum) := by
  have hfold := foldl_sizeT (fun index => (buffer.entry index).size) foreachSlots 0
  rw [Nat.zero_add] at hfold
  exact hfold

/-- Slots that never held an entry contribute nothing, so the order of the walk does not matter. -/
theorem AesdCircularBuffer.Tracks.sum_size {buffer : AesdCircularBuffer}
    {entries : List AesdBufferEntry} (h : buffer.Tracks entries) :
    (foreachSlots.map fun index => (buffer.entry index).size).sum =
      (buffer.stored.map (·.size)).sum := by
  have hperm := (h.perm.map (·.size)).sum_eq
  rw [List.map_map, List.map_append, List.sum_append, List.map_replicate, ← h.stored_eq] at hperm
  simpa [zeroEntry, foreachSlots, Function.comp_def] using hperm

theorem AesdCircularBuffer.Tracks.size_eq_sum {buffer : AesdCircularBuffer}
    {entries : List AesdBufferEntry} (h : buffer.Tracks entries)
    (hsum : (buffer.stored.map (·.size)).sum < 2 ^ 64) :
    aesdCircularBufferSize buffer = (buffer.stored.map (·.size)).sum := by
  rw [aesdCircularBufferSize_eq, h.sum_size, sizeT_of_lt hsum]

theorem fst_lookupResult_eq_none_iff (start rtn : Nat) {found : Option (Nat × Nat)} :
    (lookupResult start rtn found).1 = none ↔ found = none := by
  cases found <;> simp [lookupResult]

/-- **The size is where the lookup ends**, in every buffer that some sequence of calls made: the
slots that the size sums and the lookup does not visit are still zero. -/
theorem find_ne_none_iff_lt_size (heap : Heap) (calls : List AddCall) {charOffset : Nat}
    (hchar : charOffset < 2 ^ 64) (entryOffsetByteRtn : Nat) :
    let buffer := (run addStep (heap, aesdCircularBufferInit) calls).2
    (buffer.window.map (·.size)).sum < 2 ^ 64 →
      ((aesdCircularBufferFindEntryOffsetForFpos buffer charOffset entryOffsetByteRtn).1 ≠ none ↔
        charOffset < aesdCircularBufferSize buffer) := by
  intro buffer hsum
  obtain ⟨htracks, -⟩ := tracks_addLog heap calls
  have hstored : (buffer.stored.map (·.size)).sum < 2 ^ 64 := by
    rw [buffer.stored_eq_window]
    exact hsum
  calc
    (aesdCircularBufferFindEntryOffsetForFpos buffer charOffset entryOffsetByteRtn).1 ≠ none ↔
        locate (buffer.stored.map (·.size)) charOffset ≠ none := by
      rw [find_eq_locate buffer hchar _ hstored, Ne, fst_lookupResult_eq_none_iff]
    _ ↔ charOffset < (buffer.stored.map (·.size)).sum := by
      rw [Ne, locate_eq_none_iff, Nat.not_le]
    _ ↔ charOffset < aesdCircularBufferSize buffer := by
      rw [htracks.size_eq_sum hstored]

/-- Eleven calls wrap the ring once and leave ten entries of three bytes. -/
theorem find_ne_none_iff_lt_size_wrapped :
    let buffer := (run addStep (BlockHeap.empty (fun _ => 0) 4, aesdCircularBufferInit)
      (List.replicate 11 ⟨true, ⟨none, 3⟩⟩)).2
    aesdCircularBufferSize buffer = 30 ∧
      (aesdCircularBufferFindEntryOffsetForFpos buffer 29 0).1 ≠ none ∧
      (aesdCircularBufferFindEntryOffsetForFpos buffer 30 0).1 = none := by
  intro buffer
  have hsize : aesdCircularBufferSize buffer = 30 := by decide
  refine ⟨hsize, ?_, ?_⟩
  · exact (find_ne_none_iff_lt_size _ _ (by decide) 0 (by decide)).mpr (by rw [hsize]; decide)
  · by_contra hfound
    have hlt := (find_ne_none_iff_lt_size _ _ (by decide) 0 (by decide)).mp hfound
    exact absurd (hlt.trans_eq hsize) (by decide)

/-! ### What is left of a read -/

/-- What becomes of a read that is at `pos` after `got` bytes, with room for `room` more: it
delivers `copied` of them, one copy for each command it reads from, and returns `ret`. -/
structure ReadFinishes (kernel : Kernel) (env : ReadEnv) (iteration pos got room copied : Nat)
    (ret : Int) : Prop where
  copied_le : copied ≤ room
  end_le : pos + copied ≤ kernel.content.length
  outcome :
    (ret = got + copied ∧ copied = min room (kernel.content.length - pos) ∧
        ∀ i < kernel.touched pos room, env.copyToUser (iteration + i) = true) ∨
      (ret = -EFAULT ∧ (copied = 0 ↔ env.copyToUser iteration = false) ∧
        ∃ i < kernel.touched pos room, env.copyToUser (iteration + i) = false)

section ReadFinishes

variable {kernel : Kernel} {env : ReadEnv} {iteration pos got room copied taken : Nat} {ret : Int}

theorem readFinishes_of_done (hpos : pos ≤ kernel.content.length)
    (hdone : room = 0 ∨ kernel.content.length ≤ pos) :
    ReadFinishes kernel env iteration pos got room 0 got := by
  have hnone : kernel.touched pos room = 0 := by
    rcases hdone with rfl | hend
    · exact touched_zero _ _
    · exact touched_of_sum_le (by rw [← List.length_flatten]; exact hend) _
  refine ⟨Nat.zero_le _, hpos, Or.inl ⟨by simp, by omega, fun i hi => ?_⟩⟩
  rw [hnone] at hi
  exact absurd hi (Nat.not_lt_zero i)

theorem readFinishes_of_fault (hpos : pos ≤ kernel.content.length)
    (htouched : 0 < kernel.touched pos room) (hcopy : env.copyToUser iteration = false) :
    ReadFinishes kernel env iteration pos got room 0 (-EFAULT) :=
  ⟨Nat.zero_le _, hpos, Or.inr ⟨rfl, iff_of_true rfl hcopy, 0, htouched, hcopy⟩⟩

/-- A turn of the loop delivers one piece of the content and leaves the rest to the next turns. -/
theorem ReadFinishes.turn
    (h : ReadFinishes kernel env (iteration + 1) (pos + taken) (got + taken) (room - taken) copied
      ret)
    (hpositive : 0 < taken) (hle : taken ≤ room)
    (hmore : kernel.touched pos room = kernel.touched (pos + taken) (room - taken) + 1)
    (hcopy : env.copyToUser iteration = true) :
    ReadFinishes kernel env iteration pos got room (taken + copied) ret := by
  obtain ⟨hcopied, hend, houtcome⟩ := h
  refine ⟨by omega, by omega, ?_⟩
  rw [hmore]
  rcases houtcome with ⟨hret, hmin, hall⟩ | ⟨hret, -, i, hi, hfail⟩
  · refine Or.inl ⟨by rw [hret]; push_cast; ring, by omega, fun i hi => ?_⟩
    cases i with
    | zero => exact hcopy
    | succ i =>
        rw [Nat.add_comm i 1, ← Nat.add_assoc]
        exact hall i (Nat.lt_of_succ_lt_succ hi)
  · refine Or.inr ⟨hret, iff_of_false (by omega) (by simp [hcopy]), i + 1, by omega, ?_⟩
    rw [Nat.add_comm i 1, ← Nat.add_assoc]
    exact hfail

end ReadFinishes

namespace Represents

variable {kernel : Kernel} {entries : List AesdBufferEntry} {log : Log} {lost : Finset Ptr}

theorem sizes_eq (h : Represents kernel entries log lost) :
    kernel.dev.circularBuffer.stored.map (·.size) = kernel.commands.map List.length := by
  rw [h.commands_eq, h.stored_eq]
  have hsize : ∀ entry command, Stores kernel.heap entry command →
      entry.size = command.length := by
    rintro entry command ⟨block, rfl, -, -⟩
    rfl
  have hforall := h.stores.imp hsize
  rw [← List.forall₂_map_right_iff, ← List.forall₂_map_left_iff, List.forall₂_eq_eq_eq] at hforall
  exact hforall

theorem length_commands_le (h : Represents kernel entries log lost) :
    kernel.commands.length ≤ 10 := by
  rw [h.commands_eq, Log.visible, length_rtake]
  exact Nat.min_le_right _ _

theorem length_command_le (h : Represents kernel entries log lost) {command : Bytes}
    (hcommand : command ∈ kernel.commands) : command.length ≤ kernel.heap.limit := by
  rw [h.commands_eq] at hcommand
  obtain ⟨i, hi, rfl⟩ := List.getElem_of_mem hcommand
  have hlength := h.stores.length_eq
  obtain ⟨_, _, _, hle⟩ := List.Forall₂.get h.stores (hlength.symm ▸ hi) hi
  exact hle

theorem length_content_lt (h : Represents kernel entries log lost) :
    kernel.content.length < 2 ^ 63 := by
  have hsize : ∀ size ∈ kernel.commands.map List.length, size ≤ kernel.heap.limit := by
    intro size hmem
    obtain ⟨command, hcommand, rfl⟩ := List.mem_map.mp hmem
    exact h.length_command_le hcommand
  have hlimit := h.limit_lt
  calc
    kernel.content.length = (kernel.commands.map List.length).sum := List.length_flatten
    _ ≤ (kernel.commands.map List.length).length • kernel.heap.limit :=
      List.sum_le_card_nsmul _ _ hsize
    _ = kernel.commands.length * kernel.heap.limit := by rw [List.length_map, smul_eq_mul]
    _ ≤ 10 * kernel.heap.limit := Nat.mul_le_mul_right _ h.length_commands_le
    _ < 2 ^ 63 := by omega

theorem size_eq (h : Represents kernel entries log lost) :
    aesdCircularBufferSize kernel.dev.circularBuffer = kernel.content.length := by
  have hlt := h.length_content_lt
  rw [aesdCircularBufferSize_eq, h.tracks.sum_size, h.sizes_eq, ← List.length_flatten]
  exact sizeT_of_lt (Nat.lt_trans hlt (by decide))

theorem find_eq (h : Represents kernel entries log lost) {pos : Nat} (hpos : pos < 2 ^ 64)
    (rtn : Nat) :
    aesdCircularBufferFindEntryOffsetForFpos kernel.dev.circularBuffer pos rtn =
      lookupResult kernel.dev.circularBuffer.outOffs rtn
        (locate (kernel.commands.map List.length) pos) := by
  have hlt := h.length_content_lt
  rw [find_eq_locate _ hpos, h.sizes_eq]
  rw [h.sizes_eq, ← List.length_flatten]
  exact Nat.lt_trans hlt (by decide)

theorem stores_slot (h : Represents kernel entries log lost) {index : Nat}
    (hindex : index < kernel.commands.length) :
    Stores kernel.heap (kernel.dev.circularBuffer.entry
      (Fin.ofNat _ (kernel.dev.circularBuffer.outOffs + index))) kernel.commands[index] := by
  have hlength := h.stores.length_eq
  have hcommands := h.commands_eq
  have hstored : index < kernel.dev.circularBuffer.stored.length := by
    rw [h.stored_eq, hlength, ← hcommands]
    exact hindex
  have hentry : kernel.dev.circularBuffer.stored[index] = kernel.dev.circularBuffer.entry
      (Fin.ofNat _ (kernel.dev.circularBuffer.outOffs + index)) := by
    simp [AesdCircularBuffer.stored, Ring.window]
  have hget := List.Forall₂.get h.stores (h.stored_eq ▸ hstored) (hcommands ▸ hindex)
  simp only [List.get_eq_getElem] at hget
  rw [← hentry]
  simpa only [h.stored_eq, hcommands] using hget

theorem count_eq (h : Represents kernel entries log lost) :
    kernel.dev.circularBuffer.count = kernel.commands.length := by
  rw [h.tracks.count_eq, h.commands_eq, Log.visible, length_rtake, h.length_eq]

/-- The slots holding commands are those with the lowest numbers. -/
theorem buffptr_eq_none_iff (h : Represents kernel entries log lost) (index : Slot) :
    (kernel.dev.circularBuffer.entry index).buffptr = none ↔
      kernel.commands.length ≤ index.val := by
  rw [← h.count_eq, h.tracks.count_eq]
  constructor
  · intro hnone
    by_contra hlt
    obtain ⟨k, hk, hindex⟩ := h.tracks.inside (j := index) (by omega)
    have hk' : k < kernel.commands.length := by
      rw [← h.count_eq, h.tracks.count_eq]
      exact hk
    obtain ⟨block, hentry, -⟩ := h.stores_slot hk'
    rw [hindex, hentry] at hnone
    cases hnone
  · intro hle
    have hblank : kernel.dev.circularBuffer.entry index = zeroEntry :=
      h.tracks.untouched index (by have := index.isLt; omega)
    rw [hblank]
    rfl

theorem find_eq_none (h : Represents kernel entries log lost) {pos : Nat} (hpos : pos < 2 ^ 64)
    (hend : kernel.content.length ≤ pos) (rtn : Nat) :
    aesdCircularBufferFindEntryOffsetForFpos kernel.dev.circularBuffer pos rtn = (none, rtn) := by
  have hlocate : locate (kernel.commands.map List.length) pos = none := by
    rw [locate_eq_none_iff, ← List.length_flatten]
    exact hend
  rw [h.find_eq hpos, hlocate]
  rfl

/-- **One lookup.** Inside the content it finds an entry and an offset in it from which every read
up to the end of the entry is checked and gives the content's bytes, and leaves one command less to
read from. -/
theorem find_eq_some (h : Represents kernel entries log lost) {pos : Nat}
    (hpos : pos < kernel.content.length) (rtn : Nat) :
    ∃ index offset, aesdCircularBufferFindEntryOffsetForFpos kernel.dev.circularBuffer pos rtn =
        (some index, offset) ∧
      offset < (kernel.dev.circularBuffer.entry index).size ∧
      (kernel.dev.circularBuffer.entry index).size < 2 ^ 64 ∧
      pos + ((kernel.dev.circularBuffer.entry index).size - offset) ≤ kernel.content.length ∧
      (∀ count ≤ (kernel.dev.circularBuffer.entry index).size - offset,
        readBytes kernel.heap (kernel.dev.circularBuffer.entry index).buffptr offset count =
          ((kernel.content.drop pos).take count, kernel.heap)) ∧
      ∀ count taken, 0 < count →
        taken = min count ((kernel.dev.circularBuffer.entry index).size - offset) →
        kernel.touched pos count = kernel.touched (pos + taken) (count - taken) + 1 := by
  have hcontent := h.length_content_lt
  obtain ⟨⟨index, offset⟩, hlocate⟩ : ∃ found,
      locate (kernel.commands.map List.length) pos = some found := by
    rw [← Option.ne_none_iff_exists', Ne, locate_eq_none_iff, ← List.length_flatten]
    exact Nat.not_le.mpr hpos
  obtain ⟨hindex, hsplit, hoffset⟩ := locate_eq_some_iff.mp hlocate
  rw [List.length_map] at hindex
  rw [List.getElem_map] at hoffset
  obtain ⟨block, hentry, hview, hle⟩ := h.stores_slot hindex
  refine ⟨Fin.ofNat _ (kernel.dev.circularBuffer.outOffs + index), offset, ?_, ?_, ?_, ?_, ?_,
    fun count taken hcount htaken => ?_⟩
  · rw [h.find_eq (Nat.lt_trans hpos (Nat.lt_trans hcontent (by decide))), hlocate]
    rfl
  · rw [hentry]
    exact hoffset
  · rw [hentry]
    have hlimit := h.limit_lt
    exact Nat.lt_of_le_of_lt hle (Nat.lt_trans hlimit (by decide))
  · have htotal : ((kernel.commands.map List.length).take index).sum +
        kernel.commands[index].length ≤ kernel.content.length := by
      rw [Kernel.content, List.length_flatten,
        ← List.sum_take_add_sum_drop (kernel.commands.map List.length) index,
        List.drop_eq_getElem_cons (by rw [List.length_map]; exact hindex), List.sum_cons,
        List.getElem_map]
      omega
    rw [hentry]
    simp only
    omega
  · intro count hcount
    rw [hentry] at hcount ⊢
    have hbound : offset + count ≤ kernel.commands[index].length := by
      simp only at hcount
      omega
    have hpiece : kernel.commands[index]?.getD [] = kernel.commands[index] := by
      rw [List.getElem?_eq_getElem hindex, Option.getD_some]
    rw [readBytes_of_view hview hbound, Kernel.content,
      take_drop_flatten hlocate (by rw [hpiece]; exact hbound), hpiece]
  · apply touched_eq_succ (locate_eq_some_iff_decomposes.mp hlocate) hcount
    rw [hentry] at htaken
    rw [List.getElem?_map, List.getElem?_eq_getElem hindex]
    exact htaken

/-- **The read loop.** With enough fuel it returns, with the device as it was and the slice of the
content from the starting position on; how long a slice depends only on which copies fail. -/
theorem aesdReadLoop_spec (h : Represents kernel entries log lost) (env : ReadEnv) (count : Nat) :
    ∀ (fuel iteration : Nat) (buf : Bytes) (pos : Nat), count - buf.length < fuel →
      pos ≤ kernel.content.length → buf.length ≤ pos →
      ∃ copied ret, aesdReadLoop env kernel.dev count fuel iteration kernel.heap buf pos =
          some ⟨⟨ret, kernel, ((pos + copied : Nat) : Int)⟩,
            buf ++ (kernel.content.drop pos).take copied⟩ ∧
        ReadFinishes kernel env iteration pos buf.length (count - buf.length) copied ret := by
  have hcontent := h.length_content_lt
  intro fuel
  induction fuel with
  | zero => intro iteration buf pos hfuel; exact absurd hfuel (Nat.not_lt_zero _)
  | succ fuel ih =>
      intro iteration buf pos hfuel hpos hbuf
      have hbuf_lt : buf.length < 2 ^ 63 := by omega
      rw [aesdReadLoop]
      by_cases hdone : buf.length < count
      swap
      · rw [if_neg hdone, loffT_natCast hbuf_lt]
        exact ⟨0, buf.length, by simp, readFinishes_of_done hpos (Or.inl (by omega))⟩
      rw [if_pos hdone, sizeTOfInt_of_lt (Nat.lt_of_le_of_lt hpos (by omega))]
      by_cases hend : kernel.content.length ≤ pos
      · rw [h.find_eq_none (by omega) hend, loffT_natCast hbuf_lt]
        exact ⟨0, buf.length, by simp, readFinishes_of_done hpos (Or.inr hend)⟩
      obtain ⟨index, offset, hfind, hoffset, hsize, htotal, hread, htouched⟩ :=
        h.find_eq_some (Nat.lt_of_not_le hend) 0
      rw [hfind]
      simp only [sizeTSub_of_le hoffset.le hsize]
      -- the piece is cut at the end of the entry or of the request, and is not empty
      set available := (kernel.dev.circularBuffer.entry index).size - offset
      set bytesToCopy := if count - buf.length < available then count - buf.length else available
        with hbytes
      have hcut : bytesToCopy = min (count - buf.length) available := by
        rw [hbytes]
        split <;> omega
      have hpositive : 0 < bytesToCopy := by omega
      have hmore := htouched (count - buf.length) bytesToCopy (by omega) hcut
      rw [hread bytesToCopy (by omega)]
      cases hcopy : env.copyToUser iteration with
      | false =>
          have htouched_pos : 0 < kernel.touched pos (count - buf.length) := by omega
          exact ⟨0, -EFAULT, by simp, readFinishes_of_fault hpos htouched_pos hcopy⟩
      | true =>
          have hlength : ((kernel.content.drop pos).take bytesToCopy).length = bytesToCopy := by
            rw [List.length_take, List.length_drop]
            omega
          have hnext_lt : pos + bytesToCopy < 2 ^ 63 := by omega
          simp only [Bool.true_eq_false, if_false, loffT_natCast_add hnext_lt]
          obtain ⟨copied, ret, hloop, hfinishes⟩ :=
            ih (iteration + 1) (buf ++ (kernel.content.drop pos).take bytesToCopy)
              (pos + bytesToCopy) (by rw [List.length_append, hlength]; omega) (by omega)
              (by rw [List.length_append, hlength]; omega)
          rw [List.length_append, hlength, ← Nat.sub_sub] at hfinishes
          refine ⟨bytesToCopy + copied, ret, ?_,
            hfinishes.turn hpositive (by omega) hmore hcopy⟩
          rw [hloop, List.take_add, List.drop_drop, List.append_assoc, Nat.add_assoc]

/-- **One read** returns, leaves the device alone, and delivers the slice of the content between the
old position and the new one. It fails when one of its copies does, and then it has moved the
position unless it was the first. -/
theorem aesdRead_spec (h : Represents kernel entries log lost) (env : ReadEnv) (count : Nat)
    {pos : Nat} (hpos : pos < 2 ^ 63) :
    ∃ copied ret, aesdRead env kernel count pos =
        some ⟨⟨ret, kernel, ((pos + copied : Nat) : Int)⟩, (kernel.content.drop pos).take copied⟩ ∧
      copied ≤ kernel.content.length - pos ∧
      ((env.lock = false ∧ ret < 0 ∧ copied = 0) ∨
        (env.lock = true ∧ ret = copied ∧ copied = min count (kernel.content.length - pos) ∧
          ∀ i < kernel.touched pos count, env.copyToUser i = true) ∨
        (env.lock = true ∧ ret < 0 ∧ (copied = 0 ↔ env.copyToUser 0 = false) ∧
          ∃ i < kernel.touched pos count, env.copyToUser i = false)) := by
  unfold aesdRead
  cases hlock : env.lock with
  | false => exact ⟨0, -ERESTARTSYS, by simp, by omega, Or.inl ⟨rfl, by decide, rfl⟩⟩
  | true =>
      rw [if_neg (by simp), h.size_eq, sizeTOfInt_of_lt (Nat.lt_trans hpos (by decide))]
      by_cases hend : kernel.content.length ≤ pos
      · rw [if_pos hend]
        refine ⟨0, 0, by simp, by omega, Or.inr (Or.inl ⟨rfl, rfl, by omega, ?_⟩)⟩
        rw [Kernel.touched, touched_of_sum_le (by rw [← List.length_flatten]; exact hend)]
        exact fun i hi => absurd hi (Nat.not_lt_zero i)
      · rw [if_neg hend]
        obtain ⟨copied, ret, hloop, -, hle, hcases⟩ :=
          h.aesdReadLoop_spec env count (count + 1) 0 [] pos (Nat.lt_succ_self _)
            (Nat.le_of_not_le hend) (Nat.zero_le _)
        simp only [Nat.zero_add, List.length_nil, Nat.sub_zero] at hcases
        refine ⟨copied, ret, hloop, by omega, Or.inr ?_⟩
        rcases hcases with ⟨hret, hmin, hall⟩ | ⟨hret, hfirst, hfail⟩
        · exact Or.inl ⟨rfl, by simpa using hret, hmin, hall⟩
        · exact Or.inr ⟨rfl, by rw [hret]; decide, hfirst, hfail⟩

theorem aesdRead_of_success (h : Represents kernel entries log lost) {env : ReadEnv}
    (henv : env.Succeeds) (count : Nat) {pos : Nat} (hpos : pos < 2 ^ 63) :
    aesdRead env kernel count pos =
      some ⟨⟨((kernel.content.drop pos).take count).length, kernel,
        ((pos + ((kernel.content.drop pos).take count).length : Nat) : Int)⟩,
        (kernel.content.drop pos).take count⟩ := by
  obtain ⟨copied, ret, hread, -, ⟨hfail, -⟩ | ⟨-, hret, hcopied, -⟩ | ⟨-, -, -, i, -, hfail⟩⟩ :=
    h.aesdRead_spec env count hpos
  · rw [henv.1] at hfail
    cases hfail
  · have hlength : ((kernel.content.drop pos).take count).length = copied := by
      rw [List.length_take, List.length_drop, hcopied]
    have htake : (kernel.content.drop pos).take copied = (kernel.content.drop pos).take count := by
      rw [hcopied, List.take_eq_take_iff, List.length_drop]
      omega
    rw [hread, hlength, htake, hret]
  · rw [henv.2 i] at hfail
    cases hfail

theorem aesdRead_of_end (h : Represents kernel entries log lost) (env : ReadEnv) (count : Nat)
    {fPos : Int} (hend : kernel.content.length ≤ sizeTOfInt fPos) :
    ∃ ret ≤ 0, aesdRead env kernel count fPos = some ⟨⟨ret, kernel, fPos⟩, []⟩ := by
  unfold aesdRead
  cases hlock : env.lock with
  | false => exact ⟨-ERESTARTSYS, by decide, rfl⟩
  | true =>
      rw [if_neg (by simp), h.size_eq, if_pos hend]
      exact ⟨0, le_rfl, rfl⟩

/-- A negative position is past the end: the comparison with the size is made in `size_t`. -/
theorem aesdRead_of_neg (h : Represents kernel entries log lost) (env : ReadEnv) (count : Nat)
    {fPos : Int} (hlow : -2 ^ 63 ≤ fPos) (hneg : fPos < 0) :
    ∃ ret ≤ 0, aesdRead env kernel count fPos = some ⟨⟨ret, kernel, fPos⟩, []⟩ := by
  have hcontent := h.length_content_lt
  apply h.aesdRead_of_end
  unfold sizeTOfInt
  omega

end Represents

end AesdChar
