import AesdChar.Lib.Critical
import AesdChar.Server

/-!
# A client's thread, one system call at a time

`handle_client` again, as a program that makes one call in a step, so that the calls of several
threads can be interleaved. `Server.lean` runs a connection in one go; here nothing is assumed about
when the other threads run, except what `pthread_mutex_lock` guarantees.
-/

namespace AesdChar

open Lib

/-- Which of the two reply loops is running. -/
inductive ReplyLoop where
  | seek
  | packet
  deriving DecidableEq

/-- What a client's thread is about to do in `handle_client`. The calls on an error path carry that
there was an error. -/
inductive Point where
  | lock
  | openDevice
  | recv
  | ioctl (seekto : AesdSeekto)
  /-- The `lseek` that follows the ioctl. -/
  | sync
  | write (bytesReceived : Nat)
  /-- The `lseek` that precedes the reply to a packet. -/
  | rewind
  | read (loop : ReplyLoop)
  | send (loop : ReplyLoop) (data : Bytes)
  | closeDevice (failed : Bool)
  | unlock (failed : Bool)
  /-- It calls `cleanup`, which does not return. -/
  | cleanup
  | closeSocket
  | returned
  deriving DecidableEq

/-- After a seek command the thread receives again, after a packet it is done. -/
def ReplyLoop.after : ReplyLoop → Point
  | .seek => .recv
  | .packet => .closeDevice false

def Point.mode : Point → Mode
  | .lock => .waiting
  | .cleanup => .halted
  | .closeSocket => .outside
  | .returned => .halted
  | _ => .holding

structure ClientThread where
  env : ClientEnv
  /-- What `recv` is still going to return. -/
  chunks : List Bytes
  point : Point
  /-- The position of its open file. -/
  fPos : Int
  buffer : Bytes
  sent : Bytes
  clock : Nat

def Connection.thread (connection : Connection) : ClientThread :=
  ⟨connection.env, connection.chunks, .lock, 0, connection.stack, [], 0⟩

namespace ClientThread

/-- The thread's variables, with the driver they are used on. -/
def state (thread : ClientThread) (kernel : Kernel) : ClientState :=
  ⟨kernel, thread.fPos, thread.buffer, thread.sent, thread.clock⟩

def goto (thread : ClientThread) (point : Point) (state : ClientState) : ClientThread × Kernel :=
  ({ thread with
      point := point
      fPos := state.fPos
      buffer := state.buffer
      sent := state.sent
      clock := state.clock },
    state.kernel)

/-- From `recv` on to the call that deals with the chunk. -/
def dispatch (thread : ClientThread) (state : ClientState) (bytesReceived : Nat) :
    ClientThread × Kernel :=
  if IsSeekCommand state.buffer then
    match scanSeekto (cString (state.buffer.drop ioctlPrefixLen)) with
    | some seekto => thread.goto (.ioctl seekto) state
    | none => thread.goto .recv state
  else thread.goto (.write bytesReceived) state

/-- One call with the mutex held. A `read` that never returned would leave the thread in it. -/
def inside (thread : ClientThread) (kernel : Kernel) : ClientThread × Kernel :=
  let env := thread.env
  let state := thread.state kernel
  match thread.point with
  | .openDevice =>
      if env.opened then thread.goto .recv { state with fPos := 0 }
      else thread.goto (.unlock true) state
  | .recv =>
      match thread.chunks with
      | [] => thread.goto (.closeDevice false) state
      | chunk :: chunks =>
          { thread with chunks := chunks }.dispatch (state.receive chunk) chunk.length
  | .ioctl seekto =>
      thread.goto .sync (state.seek
        (aesdUnlockedIoctl (env.ioctl state.clock) kernel state.fPos AESDCHAR_IOCSEEKTO seekto))
  | .sync =>
      thread.goto (.read .seek)
        (state.seek (aesdLlseek (env.llseek state.clock) kernel state.fPos 0 SEEK_CUR))
  | .write bytesReceived =>
      let data := state.buffer.take bytesReceived
      let outcome := aesdWrite (env.write state.clock) kernel (some data) state.fPos
      if outcome.ret ≠ bytesReceived then thread.goto (.closeDevice true) (state.settle outcome)
      else if newline ∈ data then thread.goto .rewind (state.settle outcome)
      else thread.goto .recv (state.settle outcome)
  | .rewind =>
      thread.goto (.read .packet)
        (state.seek (aesdLlseek (env.llseek state.clock) kernel state.fPos 0 SEEK_SET))
  | .read loop =>
      match aesdRead (env.read state.clock) kernel bufferSize state.fPos with
      | none => (thread, kernel)
      | some outcome =>
          let point := if 0 < outcome.ret then .send loop (outcome.buf.take outcome.ret.toNat)
            else loop.after
          thread.goto point (state.settle outcome.toOutcome)
  | .send loop data => thread.goto (.read loop) (state.send env data)
  | .closeDevice failed => thread.goto (.unlock failed) state
  | .unlock failed => thread.goto (if failed then .cleanup else .closeSocket) state
  | _ => (thread, kernel)

/-- What the thread does after it has let the mutex go. -/
def outside (thread : ClientThread) : ClientThread :=
  match thread.point with
  | .closeSocket => { thread with point := .returned }
  | _ => thread

def enter (thread : ClientThread) : ClientThread := { thread with point := .openDevice }

/-- The call of the driver, through the open file `file`, that the thread is about to make. -/
def call (thread : ClientThread) (file : Nat) : List Call :=
  let env := thread.env
  match thread.point with
  | .ioctl seekto => [.ioctl file (env.ioctl thread.clock) AESDCHAR_IOCSEEKTO seekto]
  | .sync => [.llseek file (env.llseek thread.clock) 0 SEEK_CUR]
  | .write bytesReceived =>
      [.write file (env.write thread.clock) (some (thread.buffer.take bytesReceived))]
  | .rewind => [.llseek file (env.llseek thread.clock) 0 SEEK_SET]
  | .read _ => [.read file (env.read thread.clock) bufferSize]
  | _ => []

end ClientThread

/-- `handle_client` as a program around its critical section. -/
def handleClientProgram : Program Kernel ClientThread where
  mode thread := thread.point.mode
  outside := ClientThread.outside
  enter := ClientThread.enter
  inside := ClientThread.inside
  mode_outside thread hmode := by
    cases hpoint : thread.point <;> simp_all [Point.mode, ClientThread.outside]
  mode_enter _ _ := rfl

/-- Any number of clients' threads and the driver they use. -/
abbrev Clients := Threads Kernel ClientThread Nat

/-- Before any of them has run. -/
def Clients.start (kernel : Kernel) (connections : Nat → Connection) : Clients :=
  Threads.start kernel fun tid => (connections tid).thread

/-- One step of the thread. -/
def Clients.step (clients : Clients) (tid : Nat) : Clients := handleClientProgram.step clients tid

def Clients.run (clients : Clients) (schedule : List Nat) : Clients :=
  Lib.run Clients.step clients schedule

/-- The calls of the driver that the threads make, each with a file of its own, as they come. -/
def Clients.calls (file : Nat → Nat) (clients : Clients) (schedule : List Nat) : List Call :=
  history Clients.step (fun clients tid => (clients.own tid).call (file tid)) clients schedule

end AesdChar
