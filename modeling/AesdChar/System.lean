import AesdChar.Driver
import AesdChar.Lib.Run

/-!
# The driver in use

Any number of open files, each with its own position, call the driver in some order; the lock makes
that order a sequence. The file layer passes the driver a copy of the file's position and stores it
back only when the call did not fail; `llseek` and the ioctl set the file's position themselves.
-/

namespace AesdChar

open Lib

structure System where
  kernel : Kernel
  fPos : Nat → Int

inductive Call where
  | write (file : Nat) (env : WriteEnv) (buf : Option Bytes)
  | read (file : Nat) (env : ReadEnv) (count : Nat)
  | llseek (file : Nat) (lock : Bool) (offset whence : Int)
  | ioctl (file : Nat) (env : IoctlEnv) (cmd : UInt32) (seekto : AesdSeekto)

/-- The bytes a call offers to the device. -/
def Call.data : Call → Bytes
  | .write _ _ buf => buf.getD []
  | _ => []

/-- A write in which nothing fails and the accumulator stays where it is. -/
def plainWrite (file : Nat) (data : Bytes) : Call :=
  .write file ⟨true, true, true, .inPlace, true⟩ (some data)

def System.init (config : KmallocConfig) : System := ⟨aesdInitModule config, fun _ => 0⟩

/-- Return from a call that got a copy of the file's position. -/
def System.settle (system : System) (file : Nat) (outcome : Outcome) : System where
  kernel := outcome.kernel
  fPos := if 0 ≤ outcome.ret then Function.update system.fPos file outcome.fPos else system.fPos

def System.step (system : System) : Call → System
  | .write file env buf =>
      system.settle file (aesdWrite env system.kernel buf (system.fPos file))
  | .read file env count =>
      match aesdRead env system.kernel count (system.fPos file) with
      | some outcome => system.settle file outcome.toOutcome
      | none => system
  | .llseek file lock offset whence =>
      let outcome := aesdLlseek lock system.kernel (system.fPos file) (loffT offset) whence
      ⟨outcome.kernel, Function.update system.fPos file outcome.fPos⟩
  | .ioctl file env cmd seekto =>
      let outcome := aesdUnlockedIoctl env system.kernel (system.fPos file) cmd seekto
      ⟨outcome.kernel, Function.update system.fPos file outcome.fPos⟩

def System.run (system : System) (calls : List Call) : System := Lib.run System.step system calls

/-! ### What is stored -/

def entryBytes (heap : Heap) (entry : AesdBufferEntry) : Bytes :=
  match entry.buffptr with
  | none => []
  | some block => heap.load block 0 entry.size

/-- The stored commands, oldest first. -/
def Kernel.commands (kernel : Kernel) : List Bytes :=
  kernel.dev.circularBuffer.stored.map (entryBytes kernel.heap)

/-- The bytes waiting for their newline. -/
def Kernel.pending (kernel : Kernel) : Bytes :=
  entryBytes kernel.heap ⟨kernel.dev.writeAccumulator, kernel.dev.accumulatorSize⟩

/-- Everything a reader could get, from position 0 on. -/
def Kernel.content (kernel : Kernel) : Bytes := kernel.commands.flatten

/-- The blocks the device points at. -/
def AesdDev.owned (dev : AesdDev) : List Ptr :=
  dev.circularBuffer.stored.filterMap (·.buffptr) ++ dev.writeAccumulator.toList

/-! ### What a step committed and evicted

A command has been committed when the write index has moved: it is the newest entry. If the ring was
full before, its oldest command went at the same moment. -/

def committedBy (before after : Kernel) : List Bytes :=
  if after.dev.circularBuffer.inOffs = before.dev.circularBuffer.inOffs then []
  else after.commands.getLast?.toList

def evictedBy (before after : Kernel) : List Bytes :=
  if after.dev.circularBuffer.inOffs = before.dev.circularBuffer.inOffs then []
  else if before.dev.circularBuffer.full then before.commands.head?.toList else []

/-- All commands committed in a run, in commit order. -/
def System.committed (system : System) (calls : List Call) : List Bytes :=
  history System.step (fun s call => committedBy s.kernel (s.step call).kernel) system calls

/-- All commands evicted in a run, in order. -/
def System.evicted (system : System) (calls : List Call) : List Bytes :=
  history System.step (fun s call => evictedBy s.kernel (s.step call).kernel) system calls

/-! ### What a file has received -/

def Call.file : Call → Nat
  | .write file _ _ => file
  | .read file _ _ => file
  | .llseek file _ _ _ => file
  | .ioctl file _ _ _ => file

/-- The bytes that a call returns to the reader of a file. -/
def System.receivedBy (file : Nat) (system : System) : Call → Bytes
  | .read reader env count =>
      if reader = file then
        match aesdRead env system.kernel count (system.fPos reader) with
        | some outcome => if 0 ≤ outcome.ret then outcome.buf else []
        | none => []
      else []
  | _ => []

def System.received (system : System) (file : Nat) (calls : List Call) : Bytes :=
  history System.step (System.receivedBy file) system calls

end AesdChar
