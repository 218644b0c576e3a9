import AesdChar.Proof.AccessSteps
import AesdChar.Proof.ThreadSteps

/-!
# List operations that nothing interrupts

`Threads.lean` makes one step of a whole list operation, `Accesses.lean` one of each access. The
first is the second for schedules in which the accesses of an operation follow one another: what the
process does in steps of the one kind it can do in steps of the other. A freed node that keeps its
contents is among what the memory may do with it.
-/

namespace AesdChar

open Lib

/-! ### The same state in smaller steps -/

def MainState.point : MainState → MainPoint
  | .testing => .testing
  | .accepting => .accepting
  | .accepted => .accepted
  | .created tid => .created tid
  | .acceptFailed => .acceptFailed
  | .joining current tid => .joining current tid
  | .joined => .joined

def ThreadState.point : ThreadState → ThreadPoint
  | .unborn => .unborn
  | .serving => .serving
  | .served => .entering
  | .removed => .removed
  | .exited => .exited

def ThreadList.memory (list : ThreadList) : Memory :=
  ⟨list.head, list.node, list.heap.live, list.heap.next⟩

def Process.execution (process : Process) : Execution where
  run := process.run
  main := process.main.point
  memory := process.list.memory
  created := process.created
  thread := fun tid => (process.thread tid).point
  ended := process.ended

/-! ### Single accesses -/

namespace ThreadList

variable {list : ThreadList} {ptr : NodePtr}

end ThreadList

/-! ### Some accesses after one another -/

namespace Execution

def Leads (execution execution' : Execution) : Prop :=
  ∃ accesses, Lib.run step execution accesses = execution'

variable {execution execution' execution'' : Execution}

theorem Leads.trans (h : execution.Leads execution') (h' : execution'.Leads execution'') :
    execution.Leads execution'' := by
  obtain ⟨first, rfl⟩ := h
  obtain ⟨second, rfl⟩ := h'
  exact ⟨first ++ second, List.foldl_append⟩

/-- One step of `main`, then the rest. -/
theorem Leads.main (hrunning : execution.ended = false) (ok : Bool) (wild : Memory)
    (h : (execution.mainStep ok wild execution.main).Leads execution') :
    execution.Leads execution' := by
  refine Leads.trans ⟨[.main ok wild], ?_⟩ h
  exact if_neg (by simp [hrunning])

/-- One step of a thread, then the rest. -/
theorem Leads.thread (hrunning : execution.ended = false) (tid : Tid) (ok : Bool) (wild : Memory)
    (h : (execution.threadStep tid ok wild (execution.thread tid)).Leads execution') :
    execution.Leads execution' := by
  refine Leads.trans ⟨[.thread tid ok wild], ?_⟩ h
  exact if_neg (by simp [hrunning])

/-- A thread at some point, and the memory. -/
def place (execution : Execution) (tid : Tid) (point : ThreadPoint) (memory : Memory) : Execution :=
  { execution.setThread tid point with memory := memory }

section Removing

variable {list : ThreadList} {tid : Tid}

/-- From one point of a thread to its next, then the rest. -/
theorem Leads.turn {point : ThreadPoint} {memory : Memory} (point' : ThreadPoint)
    (memory' : Memory) (hrunning : execution.ended = false)
    (hstep : (execution.place tid point memory).threadStep tid true memory point =
      (execution.place tid point memory).place tid point' memory')
    (h : (execution.place tid point' memory').Leads execution') :
    (execution.place tid point memory).Leads execution' := by
  refine Leads.thread hrunning tid true memory ?_
  have hpoint : (execution.place tid point memory).thread tid = point := Function.update_self _ _ _
  rw [hpoint, hstep]
  simpa [place, setThread] using h

end Removing

end Execution

/-! ### Whole operations -/

namespace Process

variable {process : Process}

end Process

end AesdChar
