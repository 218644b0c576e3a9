import AesdChar.Threads

/-!
# The list of threads, access by access

Nothing guards the list of threads. Here `add_thread`, `remove_thread` and `join_threads` take one
step for each access to what other threads may use as well, so that they run in between each other
as they do in the server. A pointer is never handed out twice, which tells a pointer to a freed node
from one to a newer node. A load through the former finds anything there, and a store or a second
`free` leaves anything behind: each step brings along the memory, `wild`, that it goes on with then.
-/

namespace AesdChar

open Lib

/-! ### The memory -/

structure Memory where
  head : Option NodePtr
  node : NodePtr → ThreadNode
  live : Finset NodePtr
  /-- The node that `malloc` returns next. -/
  fresh : NodePtr

namespace Memory

def empty : Memory := ⟨none, fun _ => ⟨0, none⟩, ∅, 0⟩

/-- The links as they were last set. -/
def link (memory : Memory) (ptr : NodePtr) : Option NodePtr := (memory.node ptr).next

def load (memory wild : Memory) (ptr : NodePtr) : ThreadNode :=
  if ptr ∈ memory.live then memory.node ptr else wild.node ptr

/-- `malloc`, and the store to `tid`. The node is not on the list yet. -/
def allocate (memory : Memory) (tid : Tid) : Memory :=
  { memory with
    node := Function.update memory.node memory.fresh ⟨tid, none⟩
    live := insert memory.fresh memory.live
    fresh := memory.fresh + 1 }

def setNext (memory wild : Memory) (ptr : NodePtr) (next : Option NodePtr) : Memory :=
  if ptr ∈ memory.live then
    { memory with node := Function.update memory.node ptr ⟨(memory.node ptr).tid, next⟩ }
  else wild

def setHead (memory : Memory) (head : Option NodePtr) : Memory := { memory with head := head }

def free (memory wild : Memory) (ptr : NodePtr) : Memory :=
  if ptr ∈ memory.live then { memory with live := memory.live.erase ptr } else wild

end Memory

/-! ### Where the threads are -/

inductive MainPoint where
  /-- At the condition of the loop. -/
  | testing
  | accepting
  /-- With a new connection, before `pthread_create`. -/
  | accepted
  /-- In `add_thread`, before it allocates the node. -/
  | created (tid : Tid)
  /-- Before `new_node->next = head`. -/
  | linking (newNode : NodePtr)
  /-- Before `head = new_node`. -/
  | publishing (newNode : NodePtr)
  /-- In `accept`'s error path, on the way to `cleanup`. -/
  | acceptFailed
  /-- In `join_threads`, before `current = head`. -/
  | leaving
  /-- At the condition of its loop. -/
  | waiting (current : Option NodePtr)
  /-- In `pthread_join`. -/
  | joining (current : NodePtr) (tid : Tid)
  /-- Before `current = current->next`. -/
  | stepping (current : NodePtr)
  | freeing (temp : NodePtr) (current : Option NodePtr)
  /-- `join_threads` has returned. -/
  | joined
  deriving DecidableEq

inductive ThreadPoint where
  | unborn
  /-- In `handle_client`. -/
  | serving
  /-- In `remove_thread`, before `current = head`. -/
  | entering
  /-- At the condition of the loop. -/
  | comparing (prev current : Option NodePtr)
  /-- It was another thread's node; before `current = current->next`. -/
  | advancing (current : NodePtr)
  /-- It was its own; before `current->next` is loaded. -/
  | unlinking (prev : Option NodePtr) (current : NodePtr)
  /-- Before that is stored to `head` or `prev->next`. -/
  | storing (prev : Option NodePtr) (current : NodePtr) (next : Option NodePtr)
  | freeing (current : NodePtr)
  /-- `remove_thread` has returned. -/
  | removed
  | exited
  deriving DecidableEq

/-- The node that the next access goes to. -/
def MainPoint.target : MainPoint → Option NodePtr
  | .linking newNode => some newNode
  | .waiting current => current
  | .stepping current => some current
  | .freeing temp _ => some temp
  | _ => none

def ThreadPoint.target : ThreadPoint → Option NodePtr
  | .comparing _ current => current
  | .advancing current => some current
  | .unlinking _ current => some current
  | .storing prev _ _ => prev
  | .freeing current => some current
  | _ => none

/-- `main` is through with its loop. -/
def MainPoint.HasLeft : MainPoint → Prop
  | .acceptFailed | .leaving | .waiting _ | .joining _ _ | .stepping _ | .freeing _ _ | .joined =>
      True
  | _ => False

/-! ### The steps -/

structure Execution where
  run : Bool
  main : MainPoint
  memory : Memory
  /-- How many client threads have been created. -/
  created : Nat
  thread : Tid → ThreadPoint
  /-- `exit` has been called. -/
  ended : Bool

inductive Access where
  /-- SIGINT or SIGTERM is handled; it may be handled by `main` blocked in `accept`. -/
  | signal (interrupts : Bool)
  /-- The next step of `main`, and whether the call it makes succeeds, if it makes one. -/
  | main (ok : Bool) (wild : Memory)
  | thread (tid : Tid) (ok : Bool) (wild : Memory)

namespace Execution

def init : Execution where
  run := true
  main := .testing
  memory := .empty
  created := 0
  thread := fun _ => .unborn
  ended := false

def setThread (execution : Execution) (tid : Tid) (point : ThreadPoint) : Execution :=
  { execution with thread := Function.update execution.thread tid point }

def mainStep (execution : Execution) (ok : Bool) (wild : Memory) : MainPoint → Execution
  | .testing => { execution with main := if execution.run then .accepting else .leaving }
  | .accepting => { execution with main := if ok then .accepted else .acceptFailed }
  | .accepted =>
      if ok then
        { execution.setThread execution.created .serving with
          main := .created execution.created
          created := execution.created + 1 }
      else { execution with main := .testing }
  | .created tid =>
      if ok then
        { execution with
          memory := execution.memory.allocate tid
          main := .linking execution.memory.fresh }
      else { execution with ended := true }
  | .linking newNode =>
      { execution with
        memory := execution.memory.setNext wild newNode execution.memory.head
        main := .publishing newNode }
  | .publishing newNode =>
      { execution with memory := execution.memory.setHead (some newNode), main := .testing }
  | .acceptFailed => { execution with ended := true }
  | .leaving => { execution with main := .waiting execution.memory.head }
  | .waiting none => { execution with memory := execution.memory.setHead none, main := .joined }
  | .waiting (some current) =>
      { execution with main := .joining current (execution.memory.load wild current).tid }
  | .joining current tid =>
      if execution.thread tid = .exited then { execution with main := .stepping current }
      else execution
  | .stepping current =>
      { execution with main := .freeing current (execution.memory.load wild current).next }
  | .freeing temp current =>
      { execution with memory := execution.memory.free wild temp, main := .waiting current }
  | .joined => { execution with ended := true }

def threadStep (execution : Execution) (tid : Tid) (ok : Bool) (wild : Memory) :
    ThreadPoint → Execution
  | .unborn => execution
  | .serving =>
      -- when one of its calls fails, `handle_client` calls `cleanup`
      if ok then execution.setThread tid .entering else { execution with ended := true }
  | .entering => execution.setThread tid (.comparing none execution.memory.head)
  | .comparing _ none => execution.setThread tid .removed
  | .comparing prev (some current) =>
      if (execution.memory.load wild current).tid = tid then
        execution.setThread tid (.unlinking prev current)
      else execution.setThread tid (.advancing current)
  | .advancing current =>
      execution.setThread tid
        (.comparing (some current) (execution.memory.load wild current).next)
  | .unlinking prev current =>
      execution.setThread tid
        (.storing prev current (execution.memory.load wild current).next)
  | .storing none current next =>
      { execution.setThread tid (.freeing current) with memory := execution.memory.setHead next }
  | .storing (some prev) current next =>
      { execution.setThread tid (.freeing current) with
        memory := execution.memory.setNext wild prev next }
  | .freeing current =>
      { execution.setThread tid .removed with memory := execution.memory.free wild current }
  | .removed => execution.setThread tid .exited
  | .exited => execution

def step (execution : Execution) (access : Access) : Execution :=
  if execution.ended then execution
  else
    match access with
    | .signal interrupts =>
        { execution with
          run := false
          main :=
            if interrupts ∧ execution.main = .accepting then .acceptFailed else execution.main }
    | .main ok wild => execution.mainStep ok wild execution.main
    | .thread tid ok wild => execution.threadStep tid ok wild (execution.thread tid)

def runs (accesses : List Access) : Execution := Lib.run step init accesses

end Execution

end AesdChar
