import AesdChar.CircularBuffer
import AesdChar.Lib.Run
import AesdChar.Lib.Window

/-!
# The circular buffer keeps the last ten entries

The buffer is an instance of a ring of slots, so its whole behaviour is the one relation between its
fields and the entries ever added to it. What has to be checked here is that the C code's way of
advancing the two indices and recomputing the flag is the ring's push, and that a failed allocation
leaves before any of it happens.
-/

namespace AesdChar

open Lib

/-- The fields of the buffer are those of a ring to which exactly `entries` were added. -/
def AesdCircularBuffer.Tracks (buffer : AesdCircularBuffer) (entries : List AesdBufferEntry) :
    Prop :=
  Ring.Tracks zeroEntry buffer.entry buffer.inOffs buffer.outOffs buffer.full entries

theorem tracks_init : aesdCircularBufferInit.Tracks [] := Ring.tracks_nil zeroEntry

namespace AesdCircularBuffer.Tracks

variable {buffer : AesdCircularBuffer} {entries : List AesdBufferEntry}

theorem count_eq (h : buffer.Tracks entries) :
    buffer.count = min entries.length maxWriteOperationsSupported := by
  unfold AesdCircularBuffer.count
  by_cases hle : maxWriteOperationsSupported ≤ entries.length
  · rw [if_pos (h.full_iff.mpr hle), Nat.min_eq_right hle]
  · have hlt : entries.length < maxWriteOperationsSupported := Nat.lt_of_not_le hle
    have hin := h.inOffs_eq
    have hout := h.outOffs_eq
    rw [if_pos hlt] at hout
    rw [Nat.mod_eq_of_lt hlt] at hin
    rw [if_neg (fun hfull => hle (h.full_iff.mp hfull)),
      if_pos (by rw [Fin.le_def, hout]; exact Nat.zero_le _), hin, hout,
      Nat.sub_zero, u8_of_lt (hlt.trans (by decide)), Nat.min_eq_left hlt.le]

theorem stored_eq (h : buffer.Tracks entries) :
    buffer.stored = entries.rtake maxWriteOperationsSupported := by
  rw [AesdCircularBuffer.stored, h.count_eq]
  exact h.window_eq

end AesdCircularBuffer.Tracks

/-! ### One call of `aesd_circular_buffer_add_entry` -/

/-- Whether the copy's allocation succeeds. -/
def AddAllocates (heap : Heap) (kmallocOk : Bool) (addEntry : AesdBufferEntry) : Prop :=
  kmallocOk = true ∧ addEntry.size ≤ heap.limit

instance (heap : Heap) (kmallocOk : Bool) (addEntry : AesdBufferEntry) :
    Decidable (AddAllocates heap kmallocOk addEntry) := inferInstanceAs (Decidable (_ ∧ _))

section AddEntry

variable {heap : Heap} {kmallocOk : Bool} {buffer : AesdCircularBuffer} {entry : AesdBufferEntry}

theorem addEntry_of_not_allocates (h : ¬ AddAllocates heap kmallocOk entry) :
    aesdCircularBufferAddEntry heap kmallocOk buffer entry = ⟨none, buffer, heap⟩ := by
  have hnone : kmalloc heap kmallocOk entry.size = (none, heap) := BlockHeap.alloc_of_refused h
  rw [aesdCircularBufferAddEntry, hnone]

/-- The buffer after an entry went in, with the caller's pointer in the slot: the copy is gone. -/
def AesdCircularBuffer.pushed (buffer : AesdCircularBuffer) (entry : AesdBufferEntry) :
    AesdCircularBuffer where
  entry := Function.update buffer.entry buffer.inOffs entry
  inOffs := Ring.next buffer.inOffs
  outOffs := if buffer.full then Ring.next buffer.outOffs else buffer.outOffs
  full := decide (Ring.next buffer.inOffs =
    if buffer.full then Ring.next buffer.outOffs else buffer.outOffs)

theorem addEntry_of_allocates (h : AddAllocates heap kmallocOk entry) :
    aesdCircularBufferAddEntry heap kmallocOk buffer entry =
      ⟨if buffer.full then (buffer.entry buffer.outOffs).buffptr else none, buffer.pushed entry,
        memcpy (heap.grant (heap.fresh entry.size)) heap.next 0 entry.buffptr entry.size⟩ := by
  have hsome : kmalloc heap kmallocOk entry.size =
      (some heap.next, heap.grant (heap.fresh entry.size)) := if_pos h
  rw [aesdCircularBufferAddEntry, hsome]
  cases hfull : buffer.full <;>
    simp [AesdCircularBuffer.pushed, AesdCircularBuffer.setEntry, Function.update_idem, hfull]

theorem AesdCircularBuffer.inOffs_pushed_ne (buffer : AesdCircularBuffer)
    (entry : AesdBufferEntry) : (buffer.pushed entry).inOffs ≠ buffer.inOffs := by
  intro heq
  have hval := congrArg Fin.val heq
  simp only [AesdCircularBuffer.pushed, Ring.next, Fin.val_ofNat] at hval
  have hlt := buffer.inOffs.isLt
  simp only [maxWriteOperationsSupported] at hlt hval
  omega

namespace AesdCircularBuffer.Tracks

variable {entries : List AesdBufferEntry}

theorem pushed (h : buffer.Tracks entries) (entry : AesdBufferEntry) :
    (buffer.pushed entry).Tracks (entries ++ [entry]) := h.push entry

theorem stored_pushed (h : buffer.Tracks entries) (entry : AesdBufferEntry) :
    (buffer.pushed entry).stored =
      (if buffer.full then buffer.stored.tail else buffer.stored) ++ [entry] := by
  rw [(h.pushed entry).stored_eq, h.stored_eq, rtake_concat entries entry (by decide)]
  congr 1
  exact if_congr h.full_iff.symm rfl rfl

theorem head_stored (h : buffer.Tracks entries) (hfull : buffer.full = true) :
    buffer.stored.head? = some (buffer.entry buffer.outOffs) := by
  rw [h.stored_eq, List.rtake, List.head?_drop]
  exact h.slot_outOffs (h.full_iff.mp hfull)

end AesdCircularBuffer.Tracks

end AddEntry

/-! ### Any number of calls -/

structure AddCall where
  kmallocOk : Bool
  entry : AesdBufferEntry

def addCall (state : Heap × AesdCircularBuffer) (call : AddCall) : AddEntryResult :=
  aesdCircularBufferAddEntry state.1 call.kmallocOk state.2 call.entry

def addStep (state : Heap × AesdCircularBuffer) (call : AddCall) : Heap × AesdCircularBuffer :=
  ((addCall state call).heap, (addCall state call).buffer)

/-- The entries added by the calls whose allocation succeeded, each with what its call returned. -/
def addLog (state : Heap × AesdCircularBuffer) (calls : List AddCall) :
    List (AesdBufferEntry × Option Ptr) :=
  history addStep (fun state call =>
    if AddAllocates state.1 call.kmallocOk call.entry then
      [(call.entry, (addCall state call).oldBuffptr)]
    else []) state calls

theorem AesdCircularBuffer.Tracks.oldBuffptr_eq {buffer : AesdCircularBuffer}
    {entries : List AesdBufferEntry} (h : buffer.Tracks entries) :
    (if buffer.full then (buffer.entry buffer.outOffs).buffptr else none) =
      if entries.length < maxWriteOperationsSupported then none
      else (entries[entries.length - maxWriteOperationsSupported]?).bind (·.buffptr) := by
  by_cases hle : maxWriteOperationsSupported ≤ entries.length
  · rw [if_pos (h.full_iff.mpr hle), if_neg (Nat.not_lt.mpr hle), h.slot_outOffs hle,
      Option.bind_some]
  · rw [if_neg (fun hfull => hle (h.full_iff.mp hfull)), if_pos (Nat.lt_of_not_le hle)]

/-- What `entries.length` successful calls have handed back: nothing while the ring filled up, then
the pointers of the entries that left it. -/
def handedBack (entries : List AesdBufferEntry) : List (Option Ptr) :=
  List.replicate (min entries.length maxWriteOperationsSupported) none ++
    (entries.take (entries.length - maxWriteOperationsSupported)).map (·.buffptr)

theorem handedBack_append (entries : List AesdBufferEntry) (entry : AesdBufferEntry) :
    handedBack (entries ++ [entry]) = handedBack entries ++
      [if entries.length < maxWriteOperationsSupported then none
        else (entries[entries.length - maxWriteOperationsSupported]?).bind (·.buffptr)] := by
  unfold handedBack
  rw [List.length_append, List.length_singleton]
  by_cases hlt : entries.length < maxWriteOperationsSupported
  · rw [if_pos hlt, Nat.min_eq_left hlt, Nat.min_eq_left hlt.le, Nat.sub_eq_zero_of_le hlt,
      Nat.sub_eq_zero_of_le hlt.le]
    simp [List.replicate_succ']
  · have hle : maxWriteOperationsSupported ≤ entries.length := Nat.le_of_not_lt hlt
    have hindex : entries.length - maxWriteOperationsSupported < entries.length :=
      Nat.sub_lt (Nat.lt_of_lt_of_le (by decide) hle) (by decide)
    rw [if_neg hlt, Nat.min_eq_right hle, Nat.min_eq_right (Nat.le_succ_of_le hle),
      Nat.succ_sub hle, List.take_append_of_le_length hindex,
      List.getElem?_eq_getElem hindex, Option.bind_some,
      List.take_succ_eq_append_getElem hindex, List.map_append, List.append_assoc]
    rfl

theorem tracks_addLog (heap : Heap) (calls : List AddCall) :
    (run addStep (heap, aesdCircularBufferInit) calls).2.Tracks
        ((addLog (heap, aesdCircularBufferInit) calls).map Prod.fst) ∧
      (addLog (heap, aesdCircularBufferInit) calls).map Prod.snd =
        handedBack ((addLog (heap, aesdCircularBufferInit) calls).map Prod.fst) := by
  refine run_history_nil (R := fun (state : Heap × AesdCircularBuffer)
    (past : List (AesdBufferEntry × Option Ptr)) => state.2.Tracks (past.map Prod.fst) ∧
      past.map Prod.snd = handedBack (past.map Prod.fst)) ?_
    (along_of_forall (fun _ _ => trivial) _ calls) ⟨tracks_init, rfl⟩
  rintro state past call - ⟨htracks, hreturned⟩
  by_cases halloc : AddAllocates state.1 call.kmallocOk call.entry
  · simp only [if_pos halloc, List.map_append, List.map_cons, List.map_nil]
    rw [handedBack_append, hreturned, ← htracks.oldBuffptr_eq, addStep, addCall,
      addEntry_of_allocates halloc]
    exact ⟨htracks.pushed call.entry, rfl⟩
  · simp only [if_neg halloc, List.append_nil]
    rw [addStep, addCall, addEntry_of_not_allocates halloc]
    exact ⟨htracks, hreturned⟩

/-- **The ring is a ten-deep first-in first-out window on its history**, with every pointer handed
back exactly when its entry leaves the window. -/
theorem addEntry_fifo (heap : Heap) (calls : List AddCall) :
    let state := run addStep (heap, aesdCircularBufferInit) calls
    let added := (addLog (heap, aesdCircularBufferInit) calls).map Prod.fst
    let returned := (addLog (heap, aesdCircularBufferInit) calls).map Prod.snd
    let n := added.length
    let buffer := state.2
    (List.range (min n 10)).map (fun k => buffer.entry (Fin.ofNat 10 (buffer.outOffs + k))) =
        added.drop (n - 10) ∧
      (buffer.full = true ↔ 10 ≤ n) ∧ buffer.inOffs.val = n % 10 ∧
      buffer.outOffs.val = (if n < 10 then 0 else buffer.inOffs.val) ∧
      (∀ j, (∀ k < min n 10, j ≠ Fin.ofNat 10 (buffer.outOffs + k)) →
        buffer.entry j = ⟨none, 0⟩) ∧
      returned = List.replicate (min n 10) none ++ (added.take (n - 10)).map (·.buffptr) ∧
      ∀ call, (¬ AddAllocates state.1 call.kmallocOk call.entry →
          (addCall state call).buffer = buffer ∧ (addCall state call).oldBuffptr = none) ∧
        (AddAllocates state.1 call.kmallocOk call.entry → (addCall state call).oldBuffptr =
          if n < 10 then none else (added[n - 10]?).bind (·.buffptr)) := by
  intro state added returned n buffer
  obtain ⟨htracks, hreturned⟩ := tracks_addLog heap calls
  refine ⟨htracks.window_eq, htracks.full_iff, htracks.inOffs_eq, ?_, ?_, hreturned, ?_⟩
  · rw [htracks.inOffs_eq]
    exact htracks.outOffs_eq
  · exact fun j hout => htracks.outside hout
  · intro call
    constructor
    · intro halloc
      rw [addCall, addEntry_of_not_allocates halloc]
      exact ⟨rfl, rfl⟩
    · intro halloc
      rw [addCall, addEntry_of_allocates halloc]
      exact htracks.oldBuffptr_eq

end AesdChar
