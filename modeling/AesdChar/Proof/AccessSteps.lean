import AesdChar.Accesses
import AesdChar.Lib.Linked

/-!
# What one access can do

`Moves` lists the changes that one step can make: `ThreadMoves` for a client's thread, which changes
where the thread is and the memory, and beside it what `main` does. Every invariant below is a case
analysis on the two.
-/

namespace AesdChar

open Lib

/-! ### The memory -/

namespace Memory

variable {memory wild : Memory} {ptr : NodePtr}

theorem load_of_live (hlive : ptr ∈ memory.live) : memory.load wild ptr = memory.node ptr :=
  if_pos hlive

theorem next_load_of_live (hlive : ptr ∈ memory.live) :
    (memory.load wild ptr).next = memory.link ptr := by rw [load_of_live hlive, link]

theorem link_of_update {tid : Tid} {next : Option NodePtr} {memory' : Memory}
    (hnode : memory'.node = Function.update memory.node ptr ⟨tid, next⟩) :
    memory'.link = Function.update memory.link ptr next := by
  funext other
  rw [link, hnode]
  by_cases heq : other = ptr
  · subst heq
    rw [Function.update_self, Function.update_self]
  · rw [Function.update_of_ne heq, Function.update_of_ne heq, link]

theorem setNext_of_live (hlive : ptr ∈ memory.live) (next : Option NodePtr) :
    memory.setNext wild ptr next =
      { memory with node := Function.update memory.node ptr ⟨(memory.node ptr).tid, next⟩ } :=
  if_pos hlive

theorem link_setNext (hlive : ptr ∈ memory.live) (next : Option NodePtr) :
    (memory.setNext wild ptr next).link = Function.update memory.link ptr next := by
  rw [setNext_of_live hlive]
  exact link_of_update rfl

theorem free_of_live (hlive : ptr ∈ memory.live) :
    memory.free wild ptr = { memory with live := memory.live.erase ptr } := if_pos hlive

end Memory

/-! ### The changes -/

/-- What a step of the thread `tid` makes of where it is and of the memory. -/
inductive ThreadMoves (memory wild : Memory) (tid : Tid) :
    ThreadPoint → ThreadPoint → Memory → Prop where
  | finishes : ThreadMoves memory wild tid .serving .entering memory
  | enters : ThreadMoves memory wild tid .entering (.comparing none memory.head) memory
  | misses (prev : Option NodePtr) :
      ThreadMoves memory wild tid (.comparing prev none) .removed memory
  | finds (prev : Option NodePtr) (current : NodePtr)
      (htid : (memory.load wild current).tid = tid) :
      ThreadMoves memory wild tid (.comparing prev (some current)) (.unlinking prev current) memory
  | passes (prev : Option NodePtr) (current : NodePtr) :
      ThreadMoves memory wild tid (.comparing prev (some current)) (.advancing current) memory
  | advances (current : NodePtr) :
      ThreadMoves memory wild tid (.advancing current)
        (.comparing (some current) (memory.load wild current).next) memory
  | loads (prev : Option NodePtr) (current : NodePtr) :
      ThreadMoves memory wild tid (.unlinking prev current)
        (.storing prev current (memory.load wild current).next) memory
  | storesHead (current : NodePtr) (next : Option NodePtr) :
      ThreadMoves memory wild tid (.storing none current next) (.freeing current)
        (memory.setHead next)
  | storesNext (prev current : NodePtr) (next : Option NodePtr) :
      ThreadMoves memory wild tid (.storing (some prev) current next) (.freeing current)
        (memory.setNext wild prev next)
  | frees (current : NodePtr) :
      ThreadMoves memory wild tid (.freeing current) .removed (memory.free wild current)
  | exits : ThreadMoves memory wild tid .removed .exited memory

theorem ThreadMoves.ne_serving {memory memory' wild : Memory} {tid : Tid}
    {point point' : ThreadPoint} (hmoves : ThreadMoves memory wild tid point point' memory') :
    point' ≠ .serving := by
  cases hmoves <;> simp

namespace Execution

/-- From `execution`, `access` can lead to `execution'`. -/
inductive Moves (execution : Execution) : Access → Execution → Prop where
  | stays (access : Access) : Moves execution access execution
  | signalled (interrupts : Bool) :
      Moves execution (.signal interrupts) { execution with run := false }
  | interrupted (hmain : execution.main = .accepting) :
      Moves execution (.signal true) { execution with run := false, main := .acceptFailed }
  | tests (ok : Bool) (wild : Memory) (hmain : execution.main = .testing) :
      Moves execution (.main ok wild) { execution with main := .accepting }
  | leaves (ok : Bool) (wild : Memory) (hmain : execution.main = .testing) :
      Moves execution (.main ok wild) { execution with main := .leaving }
  | accepts (wild : Memory) (hmain : execution.main = .accepting) :
      Moves execution (.main true wild) { execution with main := .accepted }
  | refuses (wild : Memory) (hmain : execution.main = .accepting) :
      Moves execution (.main false wild) { execution with main := .acceptFailed }
  | creates (wild : Memory) (hmain : execution.main = .accepted) :
      Moves execution (.main true wild)
        { execution.setThread execution.created .serving with
          main := .created execution.created
          created := execution.created + 1 }
  | cannotCreate (wild : Memory) (hmain : execution.main = .accepted) :
      Moves execution (.main false wild) { execution with main := .testing }
  | allocates (wild : Memory) (tid : Tid) (hmain : execution.main = .created tid) :
      Moves execution (.main true wild)
        { execution with
          memory := execution.memory.allocate tid
          main := .linking execution.memory.fresh }
  | cannotAllocate (wild : Memory) :
      Moves execution (.main false wild) { execution with ended := true }
  | links (ok : Bool) (wild : Memory) (newNode : NodePtr)
      (hmain : execution.main = .linking newNode) :
      Moves execution (.main ok wild)
        { execution with
          memory := execution.memory.setNext wild newNode execution.memory.head
          main := .publishing newNode }
  | publishes (ok : Bool) (wild : Memory) (newNode : NodePtr)
      (hmain : execution.main = .publishing newNode) :
      Moves execution (.main ok wild)
        { execution with memory := execution.memory.setHead (some newNode), main := .testing }
  | enters (ok : Bool) (wild : Memory) (hmain : execution.main = .leaving) :
      Moves execution (.main ok wild) { execution with main := .waiting execution.memory.head }
  | resets (ok : Bool) (wild : Memory) (hmain : execution.main = .waiting none) :
      Moves execution (.main ok wild)
        { execution with memory := execution.memory.setHead none, main := .joined }
  | waits (ok : Bool) (wild : Memory) (current : NodePtr)
      (hmain : execution.main = .waiting (some current)) :
      Moves execution (.main ok wild)
        { execution with main := .joining current (execution.memory.load wild current).tid }
  | joins (ok : Bool) (wild : Memory) (current : NodePtr) (tid : Tid)
      (hmain : execution.main = .joining current tid) (hexited : execution.thread tid = .exited) :
      Moves execution (.main ok wild) { execution with main := .stepping current }
  | steps (ok : Bool) (wild : Memory) (current : NodePtr)
      (hmain : execution.main = .stepping current) :
      Moves execution (.main ok wild)
        { execution with main := .freeing current (execution.memory.load wild current).next }
  | frees (ok : Bool) (wild : Memory) (temp : NodePtr) (current : Option NodePtr)
      (hmain : execution.main = .freeing temp current) :
      Moves execution (.main ok wild)
        { execution with memory := execution.memory.free wild temp, main := .waiting current }
  | ends (ok : Bool) (wild : Memory)
      (hmain : execution.main = .acceptFailed ∨ execution.main = .joined) :
      Moves execution (.main ok wild) { execution with ended := true }
  | thread (tid : Tid) (ok : Bool) (wild memory : Memory) (point : ThreadPoint)
      (hmoves : ThreadMoves execution.memory wild tid (execution.thread tid) point memory) :
      Moves execution (.thread tid ok wild)
        { execution.setThread tid point with memory := memory }
  | fails (tid : Tid) (wild : Memory) :
      Moves execution (.thread tid false wild) { execution with ended := true }

variable {execution : Execution}

theorem moves_mainStep (ok : Bool) (wild : Memory) :
    Moves execution (.main ok wild) (execution.mainStep ok wild execution.main) := by
  cases hmain : execution.main with
  | testing =>
      by_cases hrun : execution.run = true
      · rw [mainStep, if_pos hrun]
        exact .tests ok wild hmain
      · rw [mainStep, if_neg hrun]
        exact .leaves ok wild hmain
  | accepting =>
      cases ok with
      | true => exact .accepts wild hmain
      | false => exact .refuses wild hmain
  | accepted =>
      cases ok with
      | true => exact .creates wild hmain
      | false => exact .cannotCreate wild hmain
  | created tid =>
      cases ok with
      | true => exact .allocates wild tid hmain
      | false => exact .cannotAllocate wild
  | linking newNode => exact .links ok wild newNode hmain
  | publishing newNode => exact .publishes ok wild newNode hmain
  | acceptFailed => exact .ends ok wild (Or.inl hmain)
  | leaving => exact .enters ok wild hmain
  | waiting current =>
      cases current with
      | none => exact .resets ok wild hmain
      | some current => exact .waits ok wild current hmain
  | joining current tid =>
      by_cases hexited : execution.thread tid = .exited
      · rw [mainStep, if_pos hexited]
        exact .joins ok wild current tid hmain hexited
      · rw [mainStep, if_neg hexited]
        exact .stays _
  | stepping current => exact .steps ok wild current hmain
  | freeing temp current => exact .frees ok wild temp current hmain
  | joined => exact .ends ok wild (Or.inr hmain)

theorem moves_threadStep (tid : Tid) (ok : Bool) (wild : Memory) :
    Moves execution (.thread tid ok wild)
      (execution.threadStep tid ok wild (execution.thread tid)) := by
  have hmoves : ∀ {point point' : ThreadPoint} {memory : Memory}, execution.thread tid = point →
      ThreadMoves execution.memory wild tid point point' memory → Moves execution
        (.thread tid ok wild) { execution.setThread tid point' with memory := memory } := by
    rintro point point' memory rfl h
    exact .thread tid ok wild memory point' h
  cases hpoint : execution.thread tid with
  | unborn | exited => exact .stays _
  | serving =>
      cases ok with
      | true => exact hmoves hpoint .finishes
      | false => exact .fails tid wild
  | entering => exact hmoves hpoint .enters
  | comparing prev current =>
      cases current with
      | none => exact hmoves hpoint (.misses prev)
      | some current =>
          by_cases htid : (execution.memory.load wild current).tid = tid
          · rw [threadStep, if_pos htid]
            exact hmoves hpoint (.finds prev current htid)
          · rw [threadStep, if_neg htid]
            exact hmoves hpoint (.passes prev current)
  | advancing current => exact hmoves hpoint (.advances current)
  | unlinking prev current => exact hmoves hpoint (.loads prev current)
  | storing prev current next =>
      cases prev with
      | none => exact hmoves hpoint (.storesHead current next)
      | some prev => exact hmoves hpoint (.storesNext prev current next)
  | freeing current => exact hmoves hpoint (.frees current)
  | removed => exact hmoves hpoint .exits

theorem moves_step (hrunning : execution.ended = false) (access : Access) :
    Moves execution access (execution.step access) := by
  unfold step
  rw [if_neg (by simp [hrunning])]
  cases access with
  | signal interrupts =>
      dsimp only
      split
      case isTrue hinterrupts =>
        obtain ⟨rfl, hmain⟩ := hinterrupts
        exact .interrupted hmain
      case isFalse => exact .signalled interrupts
  | main ok wild => exact moves_mainStep ok wild
  | thread tid ok wild => exact moves_threadStep tid ok wild

theorem step_of_ended (hended : execution.ended = true) (access : Access) :
    execution.step access = execution := if_pos hended

/-- An invariant has to survive what can happen before the process has ended. -/
theorem step_induction {access : Access} {I : Execution → Prop} (hI : I execution)
    (hmoves : ∀ execution', execution.ended = false → Moves execution access execution' →
      I execution') : I (execution.step access) := by
  by_cases hended : execution.ended = true
  · rw [step_of_ended hended]
    exact hI
  · have hrunning : execution.ended = false := Bool.eq_false_of_not_eq_true hended
    exact hmoves _ hrunning (moves_step hrunning access)

end Execution

end AesdChar
