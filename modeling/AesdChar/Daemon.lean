import AesdChar.ClientThread
import AesdChar.Threads

/-!
# The whole server

`main`, the clients' threads, the mutex and the driver in one state, with the descriptors the
process has opened and the blocks it passes to its threads. A step is the next call of `main` or of
one of the threads, or a signal. `Threads.lean` says what happens to the list of threads and
`ClientThread.lean` what happens in `handle_client`; this module puts the two together.
-/

namespace AesdChar

open Lib

/-- A descriptor. The kernel would use its number again; here a new one is always another, so that a
use after the `close` is a report and not a use of something else. -/
abbrev Fd := Nat

abbrev ArgsPtr := Nat

structure ThreadArgs where
  clientSocket : Fd
  serverSocket : Fd
  deriving DecidableEq

/-- What `cleanup` is about to do. -/
inductive CleanupCall where
  | shutdown
  | close
  | exit
  deriving DecidableEq

structure Daemon where
  process : Process
  clients : Clients
  /-- The open descriptors, as blocks without contents. -/
  fds : BlockHeap Unit
  args : BlockHeap ThreadArgs
  /-- The variables `server_socket` and `client_socket` of `main`. -/
  serverSocket : Fd
  clientSocket : Fd
  /-- The argument that a thread is created with. -/
  threadArgs : Tid → ArgsPtr
  /-- The variables of `client_thread`, when it has read its argument. -/
  locals : Tid → Option ThreadArgs
  /-- The variable `data_fd` of `handle_client`, nothing for -1. -/
  dataFd : Tid → Option Fd
  /-- How far the callers of `cleanup` have got; `none` is `main`. -/
  cleaning : Option Tid → CleanupCall
  /-- A null pointer has been written through. -/
  crashed : Bool

/-- The outcomes of a call of `main`: whether it succeeds, and whether the allocation in front of it
does. -/
structure MainEnv where
  ok : Bool
  malloc : Bool

inductive Event where
  /-- SIGINT or SIGTERM is handled, by `main` blocked in `accept` or otherwise. -/
  | signal (interrupts : Bool)
  | main (env : MainEnv)
  | thread (tid : Tid)

/-! ### Descriptors -/

def useFd (fds : BlockHeap Unit) : Option Fd → BlockHeap Unit
  | none => fds.report (.nullAccess 0 0)
  | some fd => fds.check fd 0 0

def closeFd (fds : BlockHeap Unit) : Option Fd → BlockHeap Unit
  | none => fds.report (.nullAccess 0 0)
  | some fd => fds.free fd

namespace Daemon

/-- When `main` comes to its loop. -/
def init (kernel : Kernel) (connections : Nat → Connection) : Daemon where
  process := .init
  clients := Clients.start kernel connections
  fds := (BlockHeap.empty (fun _ => ()) 0).grant []
  args := BlockHeap.empty (fun _ => ⟨0, 0⟩) 1
  serverSocket := 0
  clientSocket := 0
  threadArgs := fun _ => 0
  locals := fun _ => none
  dataFd := fun _ => none
  cleaning := fun _ => .shutdown
  crashed := false

/-- The next call of `cleanup`. When it exits, no other thread makes another step. -/
def cleanup (daemon : Daemon) (caller : Option Tid) (serverSocket : Fd) (exit : Action) : Daemon :=
  match daemon.cleaning caller with
  | .shutdown =>
      { daemon with
        fds := daemon.fds.check serverSocket 0 0
        cleaning := Function.update daemon.cleaning caller .close }
  | .close =>
      { daemon with
        fds := daemon.fds.free serverSocket
        cleaning := Function.update daemon.cleaning caller .exit }
  | .exit => { daemon with process := daemon.process.step exit }

/-! ### main -/

/-- A socket that is no longer open accepts nothing. -/
def accept (daemon : Daemon) (env : MainEnv) : Daemon :=
  let fds := daemon.fds.check daemon.serverSocket 0 0
  if env.ok ∧ daemon.serverSocket ∈ fds.live then
    { daemon with
      fds := fds.grant []
      clientSocket := fds.next
      process := daemon.process.step (.accept true) }
  else { daemon with fds := fds, process := daemon.process.step (.accept false) }

/-- The block is not given back when there is no thread for it. -/
def create (daemon : Daemon) (env : MainEnv) : Daemon :=
  match daemon.args.alloc env.malloc 1 with
  | (none, _) => { daemon with crashed := true }
  | (some threadData, args) =>
      let args := args.store threadData 0 [⟨daemon.clientSocket, daemon.serverSocket⟩]
      if env.ok then
        { daemon with
          args := args
          threadArgs := Function.update daemon.threadArgs daemon.process.created threadData
          process := daemon.process.step (.create true) }
      else
        { daemon with
          args := args
          fds := daemon.fds.free daemon.clientSocket
          process := daemon.process.step (.create false) }

def mainStep (daemon : Daemon) (env : MainEnv) : Daemon :=
  match daemon.process.main with
  | .testing => { daemon with process := daemon.process.step .test }
  | .accepting => daemon.accept env
  | .accepted => daemon.create env
  | .created _ => { daemon with process := daemon.process.step (.add env.malloc) }
  | .joining _ _ => { daemon with process := daemon.process.step .join }
  | .acceptFailed => daemon.cleanup none daemon.serverSocket .cleanup
  | .joined => daemon.cleanup none daemon.serverSocket .cleanup

/-! ### A client's thread -/

/-- `client_thread` reads its argument, and `handle_client` begins with a `getpeername`. -/
def startThread (daemon : Daemon) (tid : Tid) : Daemon :=
  let threadArgs := daemon.threadArgs tid
  let locals := (daemon.args.load threadArgs 0 1).headD ⟨0, 0⟩
  { daemon with
    args := daemon.args.check threadArgs 0 1
    locals := Function.update daemon.locals tid (some locals)
    fds := daemon.fds.check locals.clientSocket 0 0 }

/-- What the next call of `handle_client` does to the open descriptors, and `data_fd` after it. -/
def fdCall (daemon : Daemon) (tid : Tid) (clientSocket : Fd) : BlockHeap Unit × Option Fd :=
  let fds := daemon.fds
  let dataFd := daemon.dataFd tid
  match (daemon.clients.own tid).point with
  | .openDevice =>
      if (daemon.clients.own tid).env.opened then (fds.grant [], some fds.next) else (fds, none)
  | .recv => (useFd fds clientSocket, dataFd)
  | .send _ _ => (useFd fds clientSocket, dataFd)
  | .ioctl _ => (useFd fds dataFd, dataFd)
  | .sync => (useFd fds dataFd, dataFd)
  | .write _ => (useFd fds dataFd, dataFd)
  | .rewind => (useFd fds dataFd, dataFd)
  | .read _ => (useFd fds dataFd, dataFd)
  | .closeDevice _ => (closeFd fds dataFd, dataFd)
  | .closeSocket => (closeFd fds clientSocket, dataFd)
  | _ => (fds, dataFd)

def call (daemon : Daemon) (tid : Tid) (clientSocket : Fd) : Daemon :=
  let (fds, dataFd) := daemon.fdCall tid clientSocket
  { daemon with
    fds := fds
    dataFd := Function.update daemon.dataFd tid dataFd
    clients := daemon.clients.step tid }

def serve (daemon : Daemon) (tid : Tid) (locals : ThreadArgs) : Daemon :=
  match (daemon.clients.own tid).point with
  | .cleanup => daemon.cleanup (some tid) locals.serverSocket (.finish tid false)
  | .returned => { daemon with process := daemon.process.step (.finish tid true) }
  | _ => daemon.call tid locals.clientSocket

def threadStep (daemon : Daemon) (tid : Tid) : Daemon :=
  match daemon.process.thread tid with
  | .serving =>
      match daemon.locals tid with
      | none => daemon.startThread tid
      | some locals => daemon.serve tid locals
  | .served => { daemon with process := daemon.process.step (.remove tid) }
  | .removed =>
      { daemon with
        args := daemon.args.free (daemon.threadArgs tid)
        process := daemon.process.step (.exit tid) }
  | _ => daemon

/-! ### Runs -/

def step (daemon : Daemon) (event : Event) : Daemon :=
  if daemon.process.ended ∨ daemon.crashed then daemon
  else
    match event with
    | .signal interrupts => { daemon with process := daemon.process.step (.signal interrupts) }
    | .main env => daemon.mainStep env
    | .thread tid => daemon.threadStep tid

def run (daemon : Daemon) (events : List Event) : Daemon := Lib.run step daemon events

end Daemon

end AesdChar
