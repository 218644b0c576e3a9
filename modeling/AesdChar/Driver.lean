import AesdChar.CircularBuffer

/-!
# The character driver

`main.c`. Every file operation takes the outcomes of the calls that can fail as an environment, and
returns its result together with the state it leaves behind. The operations hold `dev->lock` over
all their accesses to the device, so each is one step of the system.
-/

namespace AesdChar

open Lib

structure AesdDev where
  circularBuffer : AesdCircularBuffer
  writeAccumulator : Option Ptr
  accumulatorSize : Nat

structure Kernel where
  heap : Heap
  dev : AesdDev

/-- What an operation returns, and the value of `*f_pos` when it does. -/
structure Outcome where
  ret : Int
  kernel : Kernel
  fPos : Int

def aesdInitModule (config : KmallocConfig) : Kernel where
  heap := BlockHeap.empty config.junk config.maxSize
  dev := ⟨aesdCircularBufferInit, none, 0⟩

/-! ### write -/

/-- `true` for a call that succeeds. -/
structure WriteEnv where
  kmalloc : Bool
  copyFromUser : Bool
  lock : Bool
  krealloc : ReallocOutcome
  addEntryKmalloc : Bool
  deriving DecidableEq

/-- The tail of `aesd_write` under the lock, from the search for a newline on. -/
def storeCommand (env : WriteEnv) (kernel : Kernel) : Kernel :=
  match memchr kernel.heap kernel.dev.writeAccumulator newline kernel.dev.accumulatorSize with
  | (none, heap) => { kernel with heap := heap }
  | (some _, heap) =>
      let newEntry : AesdBufferEntry := ⟨kernel.dev.writeAccumulator, kernel.dev.accumulatorSize⟩
      let added :=
        aesdCircularBufferAddEntry heap env.addEntryKmalloc kernel.dev.circularBuffer newEntry
      { heap := kfree added.heap added.oldBuffptr
        dev := ⟨added.buffer, none, 0⟩ }

/-- `buf` is the user's buffer, `none` for a null pointer; `count` is its length. -/
def aesdWrite (env : WriteEnv) (kernel : Kernel) (buf : Option Bytes) (fPos : Int) : Outcome :=
  let data := buf.getD []
  let count := data.length
  if count = 0 ∨ buf = none then ⟨-EINVAL, kernel, fPos⟩
  else
    match kmalloc kernel.heap env.kmalloc count with
    | (none, heap) => ⟨-ENOMEM, { kernel with heap := heap }, fPos⟩
    | (some kbuff, heap) =>
        if env.copyFromUser = false then
          ⟨-EFAULT, { kernel with heap := kfree heap (some kbuff) }, fPos⟩
        else
          let heap := heap.store kbuff 0 data
          if env.lock = false then
            ⟨-ERESTARTSYS, { kernel with heap := kfree heap (some kbuff) }, fPos⟩
          else
            let dev := kernel.dev
            match krealloc heap env.krealloc dev.writeAccumulator
                (sizeT (dev.accumulatorSize + count)) with
            | (none, heap) => ⟨-ENOMEM, { kernel with heap := kfree heap (some kbuff) }, fPos⟩
            | (some tempAccumulator, heap) =>
                let heap := memcpy heap tempAccumulator dev.accumulatorSize (some kbuff) count
                let dev := { dev with
                  writeAccumulator := some tempAccumulator
                  accumulatorSize := sizeT (dev.accumulatorSize + count) }
                let kernel := storeCommand env ⟨heap, dev⟩
                ⟨loffT count, { kernel with heap := kfree kernel.heap (some kbuff) },
                  loffT (fPos + loffT count)⟩

/-! ### read -/

structure ReadEnv where
  lock : Bool
  /-- Whether the `i`-th `copy_to_user` of the call succeeds. -/
  copyToUser : Nat → Bool

structure ReadOutcome extends Outcome where
  /-- The bytes copied to the user's buffer. -/
  buf : Bytes

/-- `copied` is the length of `buf`. Running out of fuel is `none`: the loop has not returned. -/
def aesdReadLoop (env : ReadEnv) (dev : AesdDev) (count : Nat) :
    (fuel iteration : Nat) → Heap → (buf : Bytes) → (fPos : Int) → Option ReadOutcome
  | 0, _, _, _, _ => none
  | fuel + 1, iteration, heap, buf, fPos =>
      if buf.length < count then
        match aesdCircularBufferFindEntryOffsetForFpos dev.circularBuffer (sizeTOfInt fPos) 0 with
        | (none, _) => some ⟨⟨loffT buf.length, ⟨heap, dev⟩, fPos⟩, buf⟩
        | (some index, entryOffset) =>
            let entry := dev.circularBuffer.entry index
            let available := sizeTSub entry.size entryOffset
            let bytesToCopy :=
              if count - buf.length < available then count - buf.length else available
            let (data, heap) := readBytes heap entry.buffptr entryOffset bytesToCopy
            if env.copyToUser iteration = false then some ⟨⟨-EFAULT, ⟨heap, dev⟩, fPos⟩, buf⟩
            else
              aesdReadLoop env dev count fuel (iteration + 1) heap (buf ++ data)
                (loffT (fPos + bytesToCopy))
      else some ⟨⟨loffT buf.length, ⟨heap, dev⟩, fPos⟩, buf⟩

def aesdRead (env : ReadEnv) (kernel : Kernel) (count : Nat) (fPos : Int) : Option ReadOutcome :=
  if env.lock = false then some ⟨⟨-ERESTARTSYS, kernel, fPos⟩, []⟩
  else if aesdCircularBufferSize kernel.dev.circularBuffer ≤ sizeTOfInt fPos then
    some ⟨⟨0, kernel, fPos⟩, []⟩
  else aesdReadLoop env kernel.dev count (count + 1) 0 kernel.heap [] fPos

/-! ### llseek -/

def SEEK_SET : Int := 0

def SEEK_CUR : Int := 1

def SEEK_END : Int := 2

/-- `[0, total_size]`, with the comparison against `total_size` made unsigned. -/
def clampPos (newPos : Int) (totalSize : Nat) : Int :=
  if newPos < 0 then 0
  else if totalSize < sizeTOfInt newPos then loffT totalSize
  else newPos

def aesdLlseek (lock : Bool) (kernel : Kernel) (fPos offset whence : Int) : Outcome :=
  if lock = false then ⟨-ERESTARTSYS, kernel, fPos⟩
  else
    let totalSize := aesdCircularBufferSize kernel.dev.circularBuffer
    if whence = SEEK_SET then
      ⟨clampPos offset totalSize, kernel, clampPos offset totalSize⟩
    else if whence = SEEK_CUR then
      let newPos := clampPos (loffT (fPos + offset)) totalSize
      ⟨newPos, kernel, newPos⟩
    else if whence = SEEK_END then
      let newPos := clampPos (loffT (totalSize + offset)) totalSize
      ⟨newPos, kernel, newPos⟩
    else ⟨-EINVAL, kernel, fPos⟩

/-! ### ioctl -/

structure AesdSeekto where
  writeCmd : UInt32
  writeCmdOffset : UInt32
  deriving DecidableEq

/-- `_IOWR(0x16, 1, struct aesd_seekto)`: direction, argument size, magic and number. -/
def AESDCHAR_IOCSEEKTO : UInt32 :=
  ((3 : UInt32) <<< 30) ||| ((8 : UInt32) <<< 16) ||| ((0x16 : UInt32) <<< 8) ||| 1

structure IoctlEnv where
  copyFromUser : Bool
  lock : Bool

/-- The loop that adds up the sizes of the commands before the requested one. -/
def seekWalk (buffer : AesdCircularBuffer) : (steps : Nat) → (circIndex : Slot) → (offset : Int) →
    Slot × Int
  | 0, circIndex, offset => (circIndex, offset)
  | steps + 1, circIndex, offset =>
      seekWalk buffer steps (Ring.next circIndex) (loffT (offset + (buffer.entry circIndex).size))

/-- `write_cmd` names no slot, an empty one, or one shorter than `write_cmd_offset`. -/
def seekRejected (buffer : AesdCircularBuffer) (seekto : AesdSeekto) : Bool :=
  if h : seekto.writeCmd.toNat < maxWriteOperationsSupported then
    let entry := buffer.entry ⟨seekto.writeCmd.toNat, h⟩
    entry.buffptr = none ∨ entry.size < seekto.writeCmdOffset.toNat
  else true

def aesdUnlockedIoctl (env : IoctlEnv) (kernel : Kernel) (fPos : Int) (cmd : UInt32)
    (seekto : AesdSeekto) : Outcome :=
  if cmd ≠ AESDCHAR_IOCSEEKTO then ⟨-ENOTTY, kernel, fPos⟩
  else if env.copyFromUser = false then ⟨-EFAULT, kernel, fPos⟩
  else if env.lock = false then ⟨-ERESTARTSYS, kernel, fPos⟩
  else
    let buffer := kernel.dev.circularBuffer
    if seekRejected buffer seekto then ⟨-EINVAL, kernel, fPos⟩
    else
      let (circIndex, offset) := seekWalk buffer seekto.writeCmd.toNat buffer.outOffs 0
      let targetEntry := buffer.entry circIndex
      if targetEntry.buffptr = none ∨ targetEntry.size < seekto.writeCmdOffset.toNat then
        ⟨-EINVAL, kernel, fPos⟩
      else ⟨0, kernel, loffT (offset + seekto.writeCmdOffset.toNat)⟩

/-! ### Module exit -/

def freeSlot (kernel : Kernel) (index : Slot) : Kernel :=
  match (kernel.dev.circularBuffer.entry index).buffptr with
  | none => kernel
  | some block =>
      { heap := kfree kernel.heap (some block)
        dev := { kernel.dev with
          circularBuffer := kernel.dev.circularBuffer.setEntry index
            { kernel.dev.circularBuffer.entry index with buffptr := none } } }

def aesdCleanupModule (kernel : Kernel) : Kernel := foreachSlots.foldl freeSlot kernel

end AesdChar
