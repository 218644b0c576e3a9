import AesdChar.System
import AesdChar.Lib.Overlay

/-!
# The socket server

`aesdsocket.c`, as it is built for the character device. A client's connection is what its `recv`
calls return, one chunk after the other, until one of them returns nothing. The thread holds
`file_mutex` from opening the device to closing it, so `handleClient` runs without interruption by
other clients, and the clients of a server are served one after the other. The outcomes of a
thread's system calls are the environment's; they are numbered in the order the calls are made.
-/

namespace AesdChar

open Lib

/-- `BUFFER_SIZE`. -/
abbrev bufferSize : Nat := 1024

/-- `IOCTL_PREFIX`: `AESDCHAR_IOCSEEKTO:`. -/
def ioctlPrefix : Bytes :=
  [65, 69, 83, 68, 67, 72, 65, 82, 95, 73, 79, 67, 83, 69, 69, 75, 84, 79, 58]

/-- `IOCTL_PREFIX_LEN`. -/
abbrev ioctlPrefixLen : Nat := 19

/-! ### sscanf

`sscanf(s, "%u,%u", ..)` as the C library documents it: each conversion skips white space, takes an
optional sign and at least one digit, and converts them as `strtoul` does. -/

/-- A string ends before the first zero byte of the memory it lies in. The list is that memory as
far as to a zero byte: `sscanf` does not stop at the end of an array. -/
def cString (buffer : Bytes) : Bytes := buffer.takeWhile (· ≠ 0)

def isSpace (byte : Byte) : Bool := byte = 32 || (9 ≤ byte && byte ≤ 13)

def isDigit (byte : Byte) : Bool := 48 ≤ byte && byte ≤ 57

def digitsValue (digits : Bytes) : Nat :=
  digits.foldl (fun value digit => 10 * value + (digit.toNat - 48)) 0

/-- Too large a number becomes `ULONG_MAX`, whatever its sign. -/
def strtoul (negative : Bool) (digits : Bytes) : Nat :=
  if 2 ^ 64 ≤ digitsValue digits then 2 ^ 64 - 1
  else if negative then (2 ^ 64 - digitsValue digits) % 2 ^ 64
  else digitsValue digits

/-- Whether there is a minus sign, and what follows the sign. -/
def scanSign : Bytes → Bool × Bytes
  | 45 :: rest => (true, rest)
  | 43 :: rest => (false, rest)
  | input => (false, input)

/-- One `%u`: the number, cut to 32 bits, and what follows it. -/
def scanUnsigned (input : Bytes) : Option (UInt32 × Bytes) :=
  let (negative, rest) := scanSign (input.dropWhile isSpace)
  let digits := rest.takeWhile isDigit
  if digits = [] then none
  else some (UInt32.ofNat (strtoul negative digits), rest.dropWhile isDigit)

/-- Both conversions, or nothing. -/
def scanSeekto (input : Bytes) : Option AesdSeekto :=
  match scanUnsigned input with
  | some (writeCmd, 44 :: rest) =>
      (scanUnsigned rest).map fun (writeCmdOffset, _) => ⟨writeCmd, writeCmdOffset⟩
  | _ => none

/-! ### One connection -/

structure ClientEnv where
  /-- Whether the device can be opened. -/
  opened : Bool
  write : Nat → WriteEnv
  read : Nat → ReadEnv
  ioctl : Nat → IoctlEnv
  llseek : Nat → Bool
  /-- How many bytes a `send` accepts at most, or that it fails. -/
  send : Nat → Option Nat

structure ClientState where
  kernel : Kernel
  fPos : Int
  /-- The receive buffer, with what earlier chunks left in it, and the memory behind it. -/
  buffer : Bytes
  /-- The bytes the socket has accepted, in order. -/
  sent : Bytes
  /-- How many system calls were made. -/
  clock : Nat

/-- What `recv` does to the buffer. -/
def ClientState.receive (state : ClientState) (chunk : Bytes) : ClientState :=
  { state with buffer := overlay state.buffer chunk }

def ClientState.send (env : ClientEnv) (state : ClientState) (data : Bytes) : ClientState :=
  { state with
    sent := state.sent ++ data.take ((env.send state.clock).getD 0)
    clock := state.clock + 1 }

/-- Return from a call that got a copy of the descriptor's position. -/
def ClientState.settle (state : ClientState) (outcome : Outcome) : ClientState :=
  { state with
    kernel := outcome.kernel
    fPos := if 0 ≤ outcome.ret then outcome.fPos else state.fPos
    clock := state.clock + 1 }

/-- Return from a call that sets the position itself. -/
def ClientState.seek (state : ClientState) (outcome : Outcome) : ClientState :=
  { state with kernel := outcome.kernel, fPos := outcome.fPos, clock := state.clock + 1 }

section Updates

variable (state : ClientState) (outcome : Outcome) (chunk : Bytes)

@[simp] theorem ClientState.receive_buffer :
    (state.receive chunk).buffer = overlay state.buffer chunk := rfl

@[simp] theorem ClientState.settle_buffer : (state.settle outcome).buffer = state.buffer := rfl

@[simp] theorem ClientState.seek_buffer : (state.seek outcome).buffer = state.buffer := rfl

@[simp] theorem ClientState.seek_kernel : (state.seek outcome).kernel = outcome.kernel := rfl

end Updates

/-- Read until there is no more, sending each piece. Running out of fuel is `none`. -/
def replyLoop (env : ClientEnv) : (fuel : Nat) → ClientState → Option ClientState
  | 0, _ => none
  | fuel + 1, state =>
      match aesdRead (env.read state.clock) state.kernel bufferSize state.fPos with
      | none => none
      | some outcome =>
          if 0 < outcome.ret then
            replyLoop env fuel
              ((state.settle outcome.toOutcome).send env (outcome.buf.take outcome.ret.toNat))
          else some (state.settle outcome.toOutcome)

/-- Each piece has at least one byte of the content. -/
def reply (env : ClientEnv) (state : ClientState) : Option ClientState :=
  replyLoop env (aesdCircularBufferSize state.kernel.dev.circularBuffer + 1) state

/-- A seek command: the ioctl's failure is only logged. -/
def seekReply (env : ClientEnv) (state : ClientState) (seekto : AesdSeekto) : Option ClientState :=
  let state := state.seek (aesdUnlockedIoctl (env.ioctl state.clock) state.kernel state.fPos
    AESDCHAR_IOCSEEKTO seekto)
  let state := state.seek (aesdLlseek (env.llseek state.clock) state.kernel state.fPos 0 SEEK_CUR)
  reply env state

/-- How one pass through the receive loop ends. -/
inductive Turn where
  | next (state : ClientState)
  | finished (state : ClientState)
  /-- `cleanup` ends the process. -/
  | exited (state : ClientState)

def Turn.state : Turn → ClientState
  | .next state => state
  | .finished state => state
  | .exited state => state

/-- `handle_client` has met an error it gives up on. -/
def Turn.failed : Turn → Bool
  | .exited _ => true
  | _ => false

def IsSeekCommand (buffer : Bytes) : Prop := buffer.take ioctlPrefixLen = ioctlPrefix

instance (buffer : Bytes) : Decidable (IsSeekCommand buffer) := inferInstanceAs (Decidable (_ = _))

def handleChunk (env : ClientEnv) (state : ClientState) (chunk : Bytes) : Option Turn :=
  let state := state.receive chunk
  let bytesReceived := chunk.length
  if IsSeekCommand state.buffer then
    match scanSeekto (cString (state.buffer.drop ioctlPrefixLen)) with
    | some seekto => (seekReply env state seekto).map .next
    | none => some (.next state)
  else
    let outcome := aesdWrite (env.write state.clock) state.kernel
      (some (state.buffer.take bytesReceived)) state.fPos
    let state := state.settle outcome
    if outcome.ret ≠ bytesReceived then some (.exited state)
    else if newline ∈ state.buffer.take bytesReceived then
      (reply env (state.seek
        (aesdLlseek (env.llseek state.clock) state.kernel state.fPos 0 SEEK_SET))).map .finished
    else some (.next state)

/-- The receive loop. The list ends where `recv` returns no bytes. -/
def recvLoop (env : ClientEnv) : List Bytes → ClientState → Option Turn
  | [], state => some (.finished state)
  | chunk :: chunks, state =>
      match handleChunk env state chunk with
      | some (.next state) => recvLoop env chunks state
      | turn => turn

/-- `stack` is what the uninitialised buffer contains and what is behind it on the stack. -/
def handleClient (env : ClientEnv) (kernel : Kernel) (stack : Bytes) (chunks : List Bytes) :
    Option Turn :=
  let state : ClientState := ⟨kernel, 0, stack, [], 0⟩
  if env.opened = false then some (.exited state) else recvLoop env chunks state

/-! ### One connection after the other -/

structure Connection where
  env : ClientEnv
  stack : Bytes
  chunks : List Bytes

/-- What a client's thread does to the device while it holds `file_mutex`. -/
def serve (kernel : Kernel) (connection : Connection) : Kernel :=
  match handleClient connection.env kernel connection.stack connection.chunks with
  | some turn => turn.state.kernel
  | none => kernel

/-- Any number of clients, in the order in which they get `file_mutex`. -/
def serveAll (kernel : Kernel) (connections : List Connection) : Kernel :=
  Lib.run serve kernel connections

/-- The commands the driver has stored for them, in order. -/
def storedFor (kernel : Kernel) (connections : List Connection) : List Bytes :=
  history serve (fun kernel connection => committedBy kernel (serve kernel connection)) kernel
    connections

end AesdChar
