import AesdChar.System

/-!
# Calls in flight

`main.c` once more, with any number of threads inside it. The driver holds `dev->lock` only where it
touches the device: a write allocates its buffer and fills it before it asks for the lock, frees it
after it has given the lock back, and any call may give up before it has the lock. A step of a
thread is one of the calls it makes into the kernel (an allocation, a free, a copy from or to the
user, taking or giving back the lock) with what the driver does up to the next one; all that is
touched in between is the thread's own or under the lock. A file is used by one thread, which has
the file's number.
-/

namespace AesdChar

open Lib

/-- What a call gives back: its result, the value of `*f_pos` or `filp->f_pos`, and what it has put
into the user's buffer. -/
structure Response where
  ret : Int
  fPos : Int
  buf : Bytes
  deriving DecidableEq

def Outcome.response (outcome : Outcome) : Response := ⟨outcome.ret, outcome.fPos, []⟩

def ReadOutcome.response (outcome : ReadOutcome) : Response :=
  ⟨outcome.ret, outcome.fPos, outcome.buf⟩

/-- The response of a call that is one step, `none` for a loop that has not returned. -/
def System.response (system : System) : Call → Option Response
  | .write file env buf => some (aesdWrite env system.kernel buf (system.fPos file)).response
  | .read file env count =>
      (aesdRead env system.kernel count (system.fPos file)).map ReadOutcome.response
  | .llseek file lock offset whence =>
      some (aesdLlseek lock system.kernel (system.fPos file) (loffT offset) whence).response
  | .ioctl file env cmd seekto =>
      some (aesdUnlockedIoctl env system.kernel (system.fPos file) cmd seekto).response

/-- The responses to the calls made on a file. -/
def System.responses (system : System) (file : Nat) (calls : List Call) : List Response :=
  history System.step
    (fun s call => if call.file = file then (s.response call).toList else []) system calls

/-! ### Where a call is -/

/-- What a thread in a call does next. `kbuff` is the buffer of a write. -/
inductive Stage where
  /-- The checks, and the first allocation or copy. -/
  | entered
  /-- `copy_from_user` of the data of a write. -/
  | copying (kbuff : Ptr)
  /-- `mutex_lock_interruptible`. -/
  | locking (kbuff : Option Ptr)
  /-- What comes first under the lock. -/
  | locked (kbuff : Option Ptr)
  /-- A turn of the loop in `aesd_read`. -/
  | reading (iteration : Nat) (buf : Bytes) (fPos : Int)
  /-- `aesd_circular_buffer_add_entry`. -/
  | adding (kbuff : Option Ptr)
  /-- `kfree(old_buffptr)`. -/
  | evicting (kbuff oldBuffptr : Option Ptr)
  /-- `mutex_unlock`. -/
  | unlocking (kbuff : Option Ptr) (response : Response)
  /-- `kfree(kbuff)` and the return. -/
  | returning (kbuff : Option Ptr) (response : Response)

/-- The call has the lock. -/
def Stage.inside : Stage → Bool
  | .locked _ => true
  | .reading _ _ _ => true
  | .adding _ => true
  | .evicting _ _ => true
  | .unlocking _ _ => true
  | _ => false

/-- It is settled what the call will do: it has the lock, has had it or has given up. -/
def Stage.decided : Stage → Bool
  | .entered => false
  | .copying _ => false
  | .locking _ => false
  | _ => true

/-! ### write -/

def written (count : Nat) (fPos : Int) : Response := ⟨loffT count, loffT (fPos + loffT count), []⟩

def writeEntered (env : WriteEnv) (kernel : Kernel) (buf : Option Bytes) (fPos : Int) :
    Stage × Kernel :=
  let count := (buf.getD []).length
  if count = 0 ∨ buf = none then (.returning none ⟨-EINVAL, fPos, []⟩, kernel)
  else
    match kmalloc kernel.heap env.kmalloc count with
    | (none, heap) => (.returning none ⟨-ENOMEM, fPos, []⟩, { kernel with heap := heap })
    | (some kbuff, heap) => (.copying kbuff, { kernel with heap := heap })

def writeCopying (env : WriteEnv) (kernel : Kernel) (data : Bytes) (fPos : Int) (kbuff : Ptr) :
    Stage × Kernel :=
  if env.copyFromUser = false then (.returning (some kbuff) ⟨-EFAULT, fPos, []⟩, kernel)
  else (.locking (some kbuff), { kernel with heap := kernel.heap.store kbuff 0 data })

/-- Up to the search for a newline. -/
def writeLocked (env : WriteEnv) (kernel : Kernel) (count : Nat) (fPos : Int)
    (kbuff : Option Ptr) : Stage × Kernel :=
  let dev := kernel.dev
  match krealloc kernel.heap env.krealloc dev.writeAccumulator
      (sizeT (dev.accumulatorSize + count)) with
  | (none, heap) => (.unlocking kbuff ⟨-ENOMEM, fPos, []⟩, { kernel with heap := heap })
  | (some tempAccumulator, heap) =>
      let heap := memcpy heap tempAccumulator dev.accumulatorSize kbuff count
      let dev := { dev with
        writeAccumulator := some tempAccumulator
        accumulatorSize := sizeT (dev.accumulatorSize + count) }
      match memchr heap dev.writeAccumulator newline dev.accumulatorSize with
      | (none, heap) => (.unlocking kbuff (written count fPos), ⟨heap, dev⟩)
      | (some _, heap) => (.adding kbuff, ⟨heap, dev⟩)

def writeAdding (env : WriteEnv) (kernel : Kernel) (kbuff : Option Ptr) : Stage × Kernel :=
  let newEntry : AesdBufferEntry := ⟨kernel.dev.writeAccumulator, kernel.dev.accumulatorSize⟩
  let added := aesdCircularBufferAddEntry kernel.heap env.addEntryKmalloc
    kernel.dev.circularBuffer newEntry
  (.evicting kbuff added.oldBuffptr,
    ⟨added.heap, { kernel.dev with circularBuffer := added.buffer }⟩)

def writeEvicting (kernel : Kernel) (count : Nat) (fPos : Int) (kbuff oldBuffptr : Option Ptr) :
    Stage × Kernel :=
  (.unlocking kbuff (written count fPos),
    ⟨kfree kernel.heap oldBuffptr, ⟨kernel.dev.circularBuffer, none, 0⟩⟩)

def aesdWriteStep (env : WriteEnv) (kernel : Kernel) (buf : Option Bytes) (fPos : Int) :
    Stage → Stage × Kernel
  | .entered => writeEntered env kernel buf fPos
  | .copying kbuff => writeCopying env kernel (buf.getD []) fPos kbuff
  | .locked kbuff => writeLocked env kernel (buf.getD []).length fPos kbuff
  | .adding kbuff => writeAdding env kernel kbuff
  | .evicting kbuff oldBuffptr => writeEvicting kernel (buf.getD []).length fPos kbuff oldBuffptr
  | stage => (stage, kernel)

/-! ### read -/

def readLocked (kernel : Kernel) (fPos : Int) : Stage :=
  if aesdCircularBufferSize kernel.dev.circularBuffer ≤ sizeTOfInt fPos then
    .unlocking none ⟨0, fPos, []⟩
  else .reading 0 [] fPos

/-- One turn of `aesdReadLoop`. -/
def readTurn (env : ReadEnv) (kernel : Kernel) (count iteration : Nat) (buf : Bytes) (fPos : Int) :
    Stage × Kernel :=
  if buf.length < count then
    match aesdCircularBufferFindEntryOffsetForFpos kernel.dev.circularBuffer (sizeTOfInt fPos)
      0 with
    | (none, _) => (.unlocking none ⟨loffT buf.length, fPos, buf⟩, kernel)
    | (some index, entryOffset) =>
        let entry := kernel.dev.circularBuffer.entry index
        let available := sizeTSub entry.size entryOffset
        let bytesToCopy :=
          if count - buf.length < available then count - buf.length else available
        let (data, heap) := readBytes kernel.heap entry.buffptr entryOffset bytesToCopy
        if env.copyToUser iteration = false then
          (.unlocking none ⟨-EFAULT, fPos, buf⟩, { kernel with heap := heap })
        else
          (.reading (iteration + 1) (buf ++ data) (loffT (fPos + bytesToCopy)),
            { kernel with heap := heap })
  else (.unlocking none ⟨loffT buf.length, fPos, buf⟩, kernel)

def aesdReadStep (env : ReadEnv) (kernel : Kernel) (count : Nat) (fPos : Int) :
    Stage → Stage × Kernel
  | .entered => (.locking none, kernel)
  | .locked _ => (readLocked kernel fPos, kernel)
  | .reading iteration buf fPos => readTurn env kernel count iteration buf fPos
  | stage => (stage, kernel)

/-! ### llseek and ioctl -/

def aesdLlseekStep (kernel : Kernel) (fPos offset whence : Int) : Stage → Stage × Kernel
  | .entered => (.locking none, kernel)
  | .locked _ => (.unlocking none (aesdLlseek true kernel fPos offset whence).response, kernel)
  | stage => (stage, kernel)

def aesdUnlockedIoctlStep (env : IoctlEnv) (kernel : Kernel) (fPos : Int) (cmd : UInt32)
    (seekto : AesdSeekto) : Stage → Stage × Kernel
  | .entered =>
      if cmd ≠ AESDCHAR_IOCSEEKTO then (.returning none ⟨-ENOTTY, fPos, []⟩, kernel)
      else if env.copyFromUser = false then (.returning none ⟨-EFAULT, fPos, []⟩, kernel)
      else (.locking none, kernel)
  | .locked _ =>
      (.unlocking none (aesdUnlockedIoctl ⟨true, true⟩ kernel fPos cmd seekto).response, kernel)
  | stage => (stage, kernel)

/-! ### The threads -/

def Call.lock : Call → Bool
  | .write _ env _ => env.lock
  | .read _ env _ => env.lock
  | .llseek _ lock _ _ => lock
  | .ioctl _ env _ _ => env.lock

def Call.proceed (call : Call) (kernel : Kernel) (fPos : Int) (stage : Stage) : Stage × Kernel :=
  match call with
  | .write _ env buf => aesdWriteStep env kernel buf fPos stage
  | .read _ env count => aesdReadStep env kernel count fPos stage
  | .llseek _ _ offset whence => aesdLlseekStep kernel fPos (loffT offset) whence stage
  | .ioctl _ env cmd seekto => aesdUnlockedIoctlStep env kernel fPos cmd seekto stage

/-- The position of the file after the call: `read` and `write` got a copy of it. Only the thread in
the call sees it, so that it does not matter when in the call it is set. -/
def Call.keeps (call : Call) (fPos : Int) (response : Response) : Int :=
  match call with
  | .write _ _ _ => if 0 ≤ response.ret then response.fPos else fPos
  | .read _ _ _ => if 0 ≤ response.ret then response.fPos else fPos
  | .llseek _ _ _ _ => response.fPos
  | .ioctl _ _ _ _ => response.fPos

structure CallThread where
  /-- The calls still to be finished; the thread is in the first of them. -/
  calls : List Call
  stage : Stage
  responses : List Response

/-- The calls of each thread, all made on its own file. -/
structure Programs where
  calls : Nat → List Call
  file_eq : ∀ tid, ∀ call ∈ calls tid, call.file = tid

structure InFlight where
  system : System
  holder : Option Nat
  thread : Nat → CallThread

namespace InFlight

def start (system : System) (programs : Programs) : InFlight where
  system := system
  holder := none
  thread tid := ⟨programs.calls tid, .entered, []⟩

def goto (flight : InFlight) (tid : Nat) (moved : Stage × Kernel) (holder : Option Nat) :
    InFlight where
  system := ⟨moved.2, flight.system.fPos⟩
  holder := holder
  thread := Function.update flight.thread tid { flight.thread tid with stage := moved.1 }

def finish (flight : InFlight) (tid : Nat) (call : Call) (kbuff : Option Ptr)
    (response : Response) : InFlight where
  system := ⟨⟨kfree flight.system.kernel.heap kbuff, flight.system.kernel.dev⟩,
    Function.update flight.system.fPos tid (call.keeps (flight.system.fPos tid) response)⟩
  holder := flight.holder
  thread := Function.update flight.thread tid
    ⟨(flight.thread tid).calls.tail, .entered, (flight.thread tid).responses ++ [response]⟩

/-- A thread waits for the lock as long as another one has it, unless a signal interrupts it. -/
def step (flight : InFlight) (tid : Nat) : InFlight :=
  let kernel := flight.system.kernel
  let fPos := flight.system.fPos tid
  match (flight.thread tid).calls with
  | [] => flight
  | call :: _ =>
      match (flight.thread tid).stage with
      | .locking kbuff =>
          if call.lock = false then
            flight.goto tid (.returning kbuff ⟨-ERESTARTSYS, fPos, []⟩, kernel) flight.holder
          else if flight.holder = none then
            flight.goto tid (.locked kbuff, kernel) (some tid)
          else flight
      | .unlocking kbuff response => flight.goto tid (.returning kbuff response, kernel) none
      | .returning kbuff response => flight.finish tid call kbuff response
      | stage => flight.goto tid (call.proceed kernel fPos stage) flight.holder

def run (flight : InFlight) (schedule : List Nat) : InFlight := Lib.run step flight schedule

/-- The call that the next step of a thread decides. -/
def decides (flight : InFlight) (tid : Nat) : List Call :=
  if (flight.thread tid).stage.decided = false ∧
      ((flight.step tid).thread tid).stage.decided = true then
    (flight.thread tid).calls.take 1
  else []

/-- The calls in the order in which they are decided. -/
def order (flight : InFlight) (schedule : List Nat) : List Call :=
  history step decides flight schedule

end InFlight

end AesdChar
