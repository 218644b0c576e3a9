import AesdChar.Lib.BlockHeap
import AesdChar.Lib.Run

/-!
# The server's threads

The rest of `aesdsocket.c`: `main` from its accept loop on, the list of threads, and what a client's
thread does around `handle_client`. Threads take steps in any order; the functions on the list are
one step each, and so is every stretch of `join_threads` between two calls of `pthread_join`. A step
that is not possible in a state leaves it as it is, so that every sequence of actions is a run.
-/

namespace AesdChar

open Lib

/-- `pthread_t`. No thread has been joined while threads are still created, so none is reused. -/
abbrev Tid := Nat

abbrev NodePtr := Nat

structure ThreadNode where
  tid : Tid
  next : Option NodePtr

/-! ### The list of threads

The list is a chain of nodes on the heap. Reading a freed node gives what it held when it was freed,
and leaves a report. -/

structure ThreadList where
  head : Option NodePtr
  heap : BlockHeap ThreadNode

namespace ThreadList

/-- What an access to a node finds there. -/
def node (list : ThreadList) (ptr : NodePtr) : ThreadNode :=
  (list.heap.load ptr 0 1).headD ⟨0, none⟩

def next (list : ThreadList) (ptr : NodePtr) : Option NodePtr := (list.node ptr).next

def visit (list : ThreadList) (ptr : NodePtr) : ThreadList :=
  { list with heap := list.heap.check ptr 0 1 }

def setNext (list : ThreadList) (ptr : NodePtr) (next : Option NodePtr) : ThreadList :=
  { list with heap := list.heap.store ptr 0 [⟨(list.node ptr).tid, next⟩] }

def free (list : ThreadList) (ptr : NodePtr) : ThreadList :=
  { list with heap := list.heap.free ptr }

end ThreadList

/-- Nothing when the allocation fails: the process exits. -/
def addThread (malloc : Bool) (list : ThreadList) (tid : Tid) : Option ThreadList :=
  match list.heap.alloc malloc 1 with
  | (none, _) => none
  | (some newNode, heap) => some ⟨some newNode, heap.store newNode 0 [⟨tid, list.head⟩]⟩

/-- The loop of `remove_thread`, from `current` on, which `prev` precedes. -/
def removeLoop (tid : Tid) :
    (fuel : Nat) → (prev current : Option NodePtr) → ThreadList → ThreadList
  | 0, _, _, list => list
  | _ + 1, _, none, list => list
  | fuel + 1, prev, some current, list =>
      let list := list.visit current
      if (list.node current).tid = tid then
        match prev with
        | none => { list with head := list.next current }.free current
        | some prev => (list.setNext prev (list.next current)).free current
      else removeLoop tid fuel (some current) (list.next current) list

/-- A node points to older nodes only, so the loop makes no more turns than there are nodes. -/
def removeThread (list : ThreadList) (tid : Tid) : ThreadList :=
  removeLoop tid (list.heap.next + 1) none list.head list

/-! ### The process -/

/-- Where `main` is. -/
inductive MainState where
  /-- At the condition of the loop. -/
  | testing
  | accepting
  /-- With a new connection, before `pthread_create`. -/
  | accepted
  /-- `pthread_create` has returned, `add_thread` has not been called. -/
  | created (tid : Tid)
  /-- In `accept`'s error path, on the way to `cleanup`. -/
  | acceptFailed
  /-- In `pthread_join`, called for the node `current`. -/
  | joining (current : NodePtr) (tid : Tid)
  /-- `join_threads` has returned. -/
  | joined
  deriving DecidableEq

/-- Where a client's thread is. -/
inductive ThreadState where
  | unborn
  /-- In `handle_client`. -/
  | serving
  /-- Before its `remove_thread(pthread_self())`. -/
  | served
  /-- Behind it. -/
  | removed
  | exited
  deriving DecidableEq

structure Process where
  run : Bool
  main : MainState
  list : ThreadList
  /-- How many client threads have been created. -/
  created : Nat
  thread : Tid → ThreadState
  /-- The threads that `pthread_join` has been called for. -/
  passed : Finset Tid
  /-- The threads that it has returned for. -/
  joined : Finset Tid
  /-- `exit` has been called. -/
  ended : Bool

inductive Action where
  /-- SIGINT or SIGTERM is handled; it may be handled by `main` blocked in `accept`. -/
  | signal (interrupts : Bool)
  | test
  | accept (ok : Bool)
  | create (ok : Bool)
  | add (malloc : Bool)
  /-- `pthread_join` returns, and `join_threads` goes on to its next call of it or to its end. -/
  | join
  | cleanup
  /-- `handle_client` returns, or one of its calls fails and it calls `cleanup`. -/
  | finish (tid : Tid) (ok : Bool)
  | remove (tid : Tid)
  | exit (tid : Tid)
  deriving DecidableEq

namespace Process

def init : Process where
  run := true
  main := .testing
  list := ⟨none, BlockHeap.empty (fun _ => ⟨0, none⟩) 1⟩
  created := 0
  thread := fun _ => .unborn
  passed := ∅
  joined := ∅
  ended := false

def setThread (process : Process) (tid : Tid) (state : ThreadState) : Process :=
  { process with thread := Function.update process.thread tid state }

/-- The condition of the loop in `join_threads`, and the next `pthread_join` or what comes after. -/
def waitFor (process : Process) : Option NodePtr → Process
  | none => { process with list := { process.list with head := none }, main := .joined }
  | some current =>
      let list := process.list.visit current
      let tid := (list.node current).tid
      { process with
        list := list
        main := .joining current tid
        passed := insert tid process.passed }

/-- From one `pthread_join` that has returned to the next. -/
def joinStretch (process : Process) (current : NodePtr) (tid : Tid) : Process :=
  let list := process.list.visit current
  let next := list.next current
  { process with list := list.free current, joined := insert tid process.joined }.waitFor next

/-- What `main` does next, if the action is one of `main`'s and this is its turn. -/
def mainStep (process : Process) : MainState → Action → Process
  | .testing, .test =>
      if process.run then { process with main := .accepting }
      else process.waitFor process.list.head
  | .accepting, .accept ok => { process with main := if ok then .accepted else .acceptFailed }
  | .accepted, .create ok =>
      if ok then
        { process.setThread process.created .serving with
          main := .created process.created
          created := process.created + 1 }
      else { process with main := .testing }
  | .created tid, .add malloc =>
      match addThread malloc process.list tid with
      | some list => { process with list := list, main := .testing }
      | none => { process with ended := true }
  | .joining current tid, .join =>
      if process.thread tid = .exited then process.joinStretch current tid else process
  | .acceptFailed, .cleanup => { process with ended := true }
  | .joined, .cleanup => { process with ended := true }
  | _, _ => process

def threadStep (process : Process) : Action → Process
  | .finish tid ok =>
      if process.thread tid = .serving then
        if ok then process.setThread tid .served else { process with ended := true }
      else process
  | .remove tid =>
      if process.thread tid = .served then
        { process.setThread tid .removed with list := removeThread process.list tid }
      else process
  | .exit tid => if process.thread tid = .removed then process.setThread tid .exited else process
  | _ => process

def step (process : Process) (action : Action) : Process :=
  if process.ended then process
  else
    match action with
    | .signal interrupts =>
        { process with
          run := false
          main := if interrupts ∧ process.main = .accepting then .acceptFailed else process.main }
    | .finish _ _ => process.threadStep action
    | .remove _ => process.threadStep action
    | .exit _ => process.threadStep action
    | _ => process.mainStep process.main action

def runs (actions : List Action) : Process := Lib.run step init actions

end Process

end AesdChar
