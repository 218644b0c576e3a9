import AesdChar.Kernel
import AesdChar.Lib.Ring

/-!
# The circular buffer

`aesd-circular-buffer.c`, as the driver compiles it. The index fields are stored reduced modulo the
number of slots and nowhere else assigned, so they are `Slot`s here and no access can miss the
array.
-/

namespace AesdChar

open Lib

/-- `AESDCHAR_MAX_WRITE_OPERATIONS_SUPPORTED`. -/
abbrev maxWriteOperationsSupported : Nat := 10

instance : NeZero maxWriteOperationsSupported := ⟨by decide⟩

abbrev Slot := Fin maxWriteOperationsSupported

structure AesdBufferEntry where
  buffptr : Option Ptr
  size : Nat
  deriving DecidableEq

structure AesdCircularBuffer where
  entry : Slot → AesdBufferEntry
  inOffs : Slot
  outOffs : Slot
  full : Bool
  deriving DecidableEq

/-- What `memset` leaves in a slot. -/
def zeroEntry : AesdBufferEntry := ⟨none, 0⟩

def aesdCircularBufferInit : AesdCircularBuffer := ⟨fun _ => zeroEntry, 0, 0, false⟩

/-! ### Lookup -/

/-- The local `count` of the lookup: how many slots, from `out_offs` on, are in use. -/
def AesdCircularBuffer.count (buffer : AesdCircularBuffer) : Nat :=
  if buffer.full then maxWriteOperationsSupported
  else if buffer.outOffs ≤ buffer.inOffs then u8 (buffer.inOffs.val - buffer.outOffs.val)
  else u8 (maxWriteOperationsSupported - buffer.outOffs.val + buffer.inOffs.val)

/-- The stored entries, oldest first. -/
def AesdCircularBuffer.stored (buffer : AesdCircularBuffer) : List AesdBufferEntry :=
  Ring.window buffer.entry buffer.outOffs buffer.count

def findEntryLoop (buffer : AesdCircularBuffer) (charOffset entryOffsetByteRtn : Nat) :
    (steps : Nat) → (index : Slot) → (cumulativeOffset : Nat) → Option Slot × Nat
  | 0, _, _ => (none, entryOffsetByteRtn)
  | steps + 1, index, cumulativeOffset =>
      if charOffset < sizeT (cumulativeOffset + (buffer.entry index).size) then
        (some index, sizeTSub charOffset cumulativeOffset)
      else
        findEntryLoop buffer charOffset entryOffsetByteRtn steps (Ring.next index)
          (sizeT (cumulativeOffset + (buffer.entry index).size))

/-- The entry pointer is the slot it points at; the second component is what
`*entry_offset_byte_rtn` holds on return. -/
def aesdCircularBufferFindEntryOffsetForFpos (buffer : AesdCircularBuffer)
    (charOffset entryOffsetByteRtn : Nat) : Option Slot × Nat :=
  findEntryLoop buffer charOffset entryOffsetByteRtn buffer.count buffer.outOffs 0

/-- The visiting order of `AESD_CIRCULAR_BUFFER_FOREACH`. -/
def foreachSlots : List Slot := List.finRange maxWriteOperationsSupported

def aesdCircularBufferSize (buffer : AesdCircularBuffer) : Nat :=
  foreachSlots.foldl (fun size index => sizeT (size + (buffer.entry index).size)) 0

/-! ### Adding an entry -/

def AesdCircularBuffer.setEntry (buffer : AesdCircularBuffer) (index : Slot)
    (entry : AesdBufferEntry) : AesdCircularBuffer :=
  { buffer with entry := Function.update buffer.entry index entry }

structure AddEntryResult where
  oldBuffptr : Option Ptr
  buffer : AesdCircularBuffer
  heap : Heap

def aesdCircularBufferAddEntry (heap : Heap) (kmallocOk : Bool) (buffer : AesdCircularBuffer)
    (addEntry : AesdBufferEntry) : AddEntryResult :=
  let oldBuffptr := if buffer.full then (buffer.entry buffer.outOffs).buffptr else none
  match kmalloc heap kmallocOk addEntry.size with
  | (none, heap) => ⟨none, buffer, heap⟩
  | (some newBuff, heap) =>
      let heap := memcpy heap newBuff 0 addEntry.buffptr addEntry.size
      let buffer := buffer.setEntry buffer.inOffs ⟨some newBuff, addEntry.size⟩
      -- the source stores the caller's entry over the copy it has just made
      let buffer := buffer.setEntry buffer.inOffs addEntry
      let buffer := { buffer with inOffs := Ring.next buffer.inOffs }
      let buffer :=
        if buffer.full then { buffer with outOffs := Ring.next buffer.outOffs } else buffer
      ⟨oldBuffptr, { buffer with full := decide (buffer.inOffs = buffer.outOffs) }, heap⟩

end AesdChar
