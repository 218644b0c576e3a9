import AesdChar.Proof.ThreadList

/-!
# What a step of the process can do

`Moves` lists every change one action can make to a well-formed process, with the operations on the
list replaced by their specifications; every invariant below is a case analysis on it. The first is
well-formedness itself. The second is what `main` can still get at: the thread it has created and
not yet added, and those on the chain from where it stands in the list.
-/

namespace AesdChar

open Lib

namespace Process

structure WellFormed (process : Process) : Prop where
  list : process.list.WellFormed
  created_of_adding : ∀ tid, process.main = .created tid →
    tid = process.list.heap.next ∧ process.created = tid + 1
  created_eq : (∀ tid, process.main ≠ .created tid) → process.created = process.list.heap.next
  joining : ∀ current tid, process.main = .joining current tid →
    tid = current ∧ current < process.list.heap.next
  unborn : ∀ tid, process.created ≤ tid → process.thread tid = .unborn

theorem wellFormed_init : init.WellFormed where
  list :=
    { limit_pos := le_rfl
      live_lt := BlockHeap.wellFormed_empty _ _
      cell := fun ptr hptr => absurd hptr (Nat.not_lt_zero ptr)
      blank := fun _ _ => rfl
      descending := fun _ _ hsuccessor => by cases hsuccessor
      head_lt := fun _ hptr => by cases hptr }
  created_of_adding := fun _ hmain => by cases hmain
  created_eq := fun _ => rfl
  joining := fun _ _ hmain => by cases hmain
  unborn := fun _ _ => rfl

theorem WellFormed.tid_lt {process : Process} (h : process.WellFormed) {tid : Tid}
    {state : ThreadState} (hthread : process.thread tid = state) (hstate : state ≠ .unborn) :
    tid < process.created := by
  by_contra hge
  exact hstate (hthread.symm.trans (h.unborn tid (Nat.le_of_not_lt hge)))

/-! ### Entering `pthread_join` -/

section WaitFor

variable (process : Process) (start : Option NodePtr)

@[simp] theorem created_waitFor : (process.waitFor start).created = process.created := by
  cases start <;> rfl

@[simp] theorem thread_waitFor : (process.waitFor start).thread = process.thread := by
  cases start <;> rfl

@[simp] theorem joined_waitFor : (process.waitFor start).joined = process.joined := by
  cases start <;> rfl

@[simp] theorem next_waitFor : (process.waitFor start).list.next = process.list.next := by
  cases start with
  | none => rfl
  | some current => exact ThreadList.next_visit process.list current

@[simp] theorem live_waitFor : (process.waitFor start).list.heap.live = process.list.heap.live := by
  cases start with
  | none => rfl
  | some current => exact BlockHeap.live_check _ _ _ _

@[simp] theorem nodes_waitFor :
    (process.waitFor start).list.heap.next = process.list.heap.next := by
  cases start with
  | none => rfl
  | some current => exact BlockHeap.next_check _ _ _ _

theorem main_waitFor_ne {main : MainState} (hjoining : ∀ current tid, .joining current tid ≠ main)
    (hjoined : .joined ≠ main) : (process.waitFor start).main ≠ main := by
  cases start with
  | none => exact hjoined
  | some current => exact hjoining current _

end WaitFor

/-! ### The changes -/

/-- `Moves process action process'` : from `process`, `action` can lead to `process'`. -/
inductive Moves (process : Process) : Action → Process → Prop where
  | stays (action : Action) : Moves process action process
  | signalled (interrupts : Bool) :
      Moves process (.signal interrupts) { process with run := false }
  | interrupted (hmain : process.main = .accepting) :
      Moves process (.signal true) { process with run := false, main := .acceptFailed }
  | tested (hmain : process.main = .testing) :
      Moves process .test { process with main := .accepting }
  | leavesLoop (hmain : process.main = .testing) :
      Moves process .test (process.waitFor process.list.head)
  | accepts (hmain : process.main = .accepting) :
      Moves process (.accept true) { process with main := .accepted }
  | refuses (hmain : process.main = .accepting) :
      Moves process (.accept false) { process with main := .acceptFailed }
  | creates (hmain : process.main = .accepted) :
      Moves process (.create true)
        { process.setThread process.created .serving with
          main := .created process.created
          created := process.created + 1 }
  | cannotCreate (hmain : process.main = .accepted) :
      Moves process (.create false) { process with main := .testing }
  | adds (tid : Tid) (list : ThreadList) (hmain : process.main = .created tid)
      (hadded : ThreadList.Added tid process.list list) :
      Moves process (.add true) { process with list := list, main := .testing }
  | cannotAdd : Moves process (.add false) { process with ended := true }
  | joins (current : NodePtr) (hmain : process.main = .joining current current)
      (hexited : process.thread current = .exited) :
      Moves process .join (process.joinStretch current current)
  | cleansUp (hmain : process.main = .acceptFailed ∨ process.main = .joined) :
      Moves process .cleanup { process with ended := true }
  | finishes (tid : Tid) (hserving : process.thread tid = .serving) :
      Moves process (.finish tid true) (process.setThread tid .served)
  | fails (tid : Tid) : Moves process (.finish tid false) { process with ended := true }
  | removes (tid : Tid) (list : ThreadList) (hserved : process.thread tid = .served)
      (hremoved : ThreadList.Removed tid process.list list) :
      Moves process (.remove tid) { process.setThread tid .removed with list := list }
  | exits (tid : Tid) (hremoved : process.thread tid = .removed) :
      Moves process (.exit tid) (process.setThread tid .exited)

variable {process process' : Process} {action : Action}

theorem moves_mainStep (h : process.WellFormed) (action : Action) :
    Moves process action (process.mainStep process.main action) := by
  unfold mainStep
  split
  case h_1 hmain =>
    split
    · exact .tested hmain
    · exact .leavesLoop hmain
  case h_2 ok hmain =>
    cases ok with
    | true => exact .accepts hmain
    | false => exact .refuses hmain
  case h_3 ok hmain =>
    cases ok with
    | true => exact .creates hmain
    | false => exact .cannotCreate hmain
  case h_4 tid malloc hmain =>
    cases malloc with
    | true =>
        obtain ⟨list, hadd, hadded⟩ := ThreadList.addThread_true h.list
        rw [← (h.created_of_adding tid hmain).1] at hadd hadded
        rw [hadd]
        exact .adds tid list hmain hadded
    | false =>
        rw [ThreadList.addThread_false]
        exact .cannotAdd
  case h_5 current tid hmain =>
    obtain ⟨rfl, -⟩ := h.joining current tid hmain
    split
    case isTrue hexited => exact .joins tid hmain hexited
    case isFalse => exact .stays _
  case h_6 hmain => exact .cleansUp (Or.inl hmain)
  case h_7 hmain => exact .cleansUp (Or.inr hmain)
  case h_8 => exact .stays _

theorem moves_threadStep (h : process.WellFormed) (action : Action) :
    Moves process action (process.threadStep action) := by
  unfold threadStep
  split
  case h_1 tid ok =>
    split
    case isTrue hserving =>
      cases ok with
      | true => exact .finishes tid hserving
      | false => exact .fails tid
    case isFalse => exact .stays _
  case h_2 tid =>
    split
    case isTrue hserved =>
      exact .removes tid _ hserved (ThreadList.removeThread_removed h.list tid)
    case isFalse => exact .stays _
  case h_3 tid =>
    split
    case isTrue hremoved => exact .exits tid hremoved
    case isFalse => exact .stays _
  case h_4 => exact .stays _

theorem moves_step (h : process.WellFormed) (hrunning : process.ended = false)
    (action : Action) : Moves process action (process.step action) := by
  unfold step
  rw [if_neg (by simp [hrunning])]
  split
  case h_1 interrupts =>
    split
    case isTrue hinterrupts =>
      obtain ⟨rfl, hmain⟩ := hinterrupts
      exact .interrupted hmain
    case isFalse => exact .signalled interrupts
  case h_2 => exact moves_threadStep h _
  case h_3 => exact moves_threadStep h _
  case h_4 => exact moves_threadStep h _
  case h_5 => exact moves_mainStep h _

theorem step_of_ended (hended : process.ended = true) (action : Action) :
    process.step action = process := if_pos hended

theorem step_remove (hrunning : process.ended = false) {tid : Tid}
    (hserved : process.thread tid = .served) :
    process.step (.remove tid) =
      { process.setThread tid .removed with list := removeThread process.list tid } := by
  simp [step, hrunning, threadStep, hserved]

/-- An invariant has to survive what can happen before the process has ended. -/
theorem step_induction {I : Process → Prop} (h : process.WellFormed) (hI : I process)
    (hmoves : ∀ process', process.ended = false → Moves process action process' → I process') :
    I (process.step action) := by
  by_cases hended : process.ended = true
  · rw [step_of_ended hended]
    exact hI
  · have hrunning : process.ended = false := Bool.eq_false_of_not_eq_true hended
    exact hmoves _ hrunning (moves_step h hrunning action)

/-! ### Well-formedness -/

theorem wellFormed_waitFor {start : Option NodePtr} (hlist : process.list.WellFormed)
    (hstart : ∀ ptr ∈ start, ptr < process.list.heap.next)
    (hcreated : process.created = process.list.heap.next)
    (hunborn : ∀ tid, process.created ≤ tid → process.thread tid = .unborn) :
    (process.waitFor start).WellFormed where
  list := by
    cases start with
    | none => exact hlist.congr rfl subset_rfl rfl rfl hstart
    | some current => exact hlist.visit current
  created_of_adding := fun tid hmain => absurd hmain (main_waitFor_ne _ _ (by simp) (by simp))
  created_eq := by
    intro _
    rw [created_waitFor, nodes_waitFor]
    exact hcreated
  joining := by
    intro current tid hmain
    cases start with
    | none => cases hmain
    | some first =>
        have hlt := hstart first rfl
        have hlt' : first < (process.list.visit first).heap.next := by
          rw [ThreadList.visit, BlockHeap.next_check]
          exact hlt
        have htid := (hlist.visit first).tid_eq hlt'
        obtain ⟨rfl, rfl⟩ := MainState.joining.inj hmain
        rw [nodes_waitFor]
        exact ⟨htid, hlt⟩
  unborn := by
    rw [created_waitFor, thread_waitFor]
    exact hunborn

/-- A step that neither creates nor starts to join and leaves the list to its operations. -/
theorem WellFormed.of_list (h : process.WellFormed) (hlist : process'.list.WellFormed)
    (hnodes : process'.list.heap.next = process.list.heap.next)
    (hmain : process'.main = process.main) (hcreated : process'.created = process.created)
    (hunborn : ∀ tid, process'.thread tid = .unborn ∨ process.thread tid ≠ .unborn) :
    process'.WellFormed where
  list := hlist
  created_of_adding := by
    rw [hmain, hcreated, hnodes]
    exact h.created_of_adding
  created_eq := by
    rw [hmain, hcreated, hnodes]
    exact h.created_eq
  joining := by
    rw [hmain, hnodes]
    exact h.joining
  unborn := by
    intro tid htid
    rw [hcreated] at htid
    exact (hunborn tid).resolve_right fun hne => hne (h.unborn tid htid)

/-- Where `main` is makes no difference, except while it adds a thread or waits for one. -/
theorem WellFormed.of_main (h : process.WellFormed) (main : MainState)
    (hbefore : ∀ tid, process.main ≠ .created tid) (hadding : ∀ tid, main ≠ .created tid)
    (hjoining : ∀ current tid, main ≠ .joining current tid) (run : Bool) :
    WellFormed { process with run := run, main := main } where
  list := h.list
  created_of_adding := fun tid hmain => absurd hmain (hadding tid)
  created_eq := fun _ => h.created_eq hbefore
  joining := fun current tid hmain => absurd hmain (hjoining current tid)
  unborn := h.unborn

theorem WellFormed.setThread (h : process.WellFormed) {tid : Tid} {old : ThreadState}
    (hold : process.thread tid = old) (hborn : old ≠ .unborn) (state : ThreadState) :
    (process.setThread tid state).WellFormed := by
  refine h.of_list h.list rfl rfl rfl fun other => ?_
  by_cases heq : other = tid
  · subst heq
    exact Or.inr (by rw [hold]; exact hborn)
  · by_cases hother : process.thread other = .unborn
    · exact Or.inl ((Function.update_of_ne heq _ _).trans hother)
    · exact Or.inr hother

theorem WellFormed.moves (h : process.WellFormed) (hmoves : Moves process action process') :
    process'.WellFormed := by
  cases hmoves with
  | stays => exact h
  | signalled | cannotAdd | cleansUp | fails => exact h.of_list h.list rfl rfl rfl fun _ => em _
  | interrupted hmain => exact h.of_main .acceptFailed (by simp [hmain]) (by simp) (by simp) false
  | tested hmain => exact h.of_main .accepting (by simp [hmain]) (by simp) (by simp) _
  | leavesLoop hmain =>
      exact wellFormed_waitFor h.list h.list.head_lt (h.created_eq (by simp [hmain])) h.unborn
  | accepts hmain => exact h.of_main .accepted (by simp [hmain]) (by simp) (by simp) _
  | refuses hmain => exact h.of_main .acceptFailed (by simp [hmain]) (by simp) (by simp) _
  | creates hmain =>
      have hcreated := h.created_eq (by simp [hmain])
      refine ⟨h.list, fun tid htid => ?_, fun hne => absurd rfl (hne process.created), (by simp),
        fun tid htid => ?_⟩
      · obtain rfl := MainState.created.inj htid
        exact ⟨hcreated, rfl⟩
      · have hlt : process.created < tid := htid
        exact (Function.update_of_ne hlt.ne' _ _).trans (h.unborn tid hlt.le)
  | cannotCreate hmain => exact h.of_main .testing (by simp [hmain]) (by simp) (by simp) _
  | adds tid list hmain hadded =>
      obtain ⟨htid, hcreated⟩ := h.created_of_adding tid hmain
      refine ⟨hadded.wellFormed, (by simp), fun _ => ?_, (by simp), h.unborn⟩
      calc
        process.created = tid + 1 := hcreated
        _ = process.list.heap.next + 1 := by rw [htid]
        _ = list.heap.next := hadded.next_eq.symm
  | joins current hmain =>
      have hvisit := h.list.visit current
      refine wellFormed_waitFor (hvisit.free current) (fun ptr hptr => ?_) ?_ h.unborn
      · rw [ThreadList.next_visit] at hptr
        have hlt := (h.list.descending current ptr hptr).trans (h.joining current current hmain).2
        simpa [ThreadList.free, ThreadList.visit] using hlt
      · have hcreated := h.created_eq (by simp [hmain])
        simpa [ThreadList.free, ThreadList.visit] using hcreated
  | finishes tid hserving => exact h.setThread hserving (by simp) _
  | removes tid list hserved hremoved =>
      have hthread := h.setThread hserved (by simp) .removed
      exact hthread.of_list hremoved.wellFormed hremoved.next_eq rfl rfl fun _ => em _
  | exits tid hremoved => exact h.setThread hremoved (by simp) _

theorem WellFormed.step (h : process.WellFormed) (action : Action) :
    (process.step action).WellFormed :=
  step_induction h h fun _ _ hmoves => h.moves hmoves

/-! ### What `main` can still get at -/

/-- Where `main` stands in the list: before it joins, at the head. -/
def position (process : Process) : Option NodePtr :=
  match process.main with
  | .joining current _ => some current
  | .joined => none
  | _ => process.list.head

def InReach (process : Process) (tid : Tid) : Prop :=
  process.main = .created tid ∨ OnChain process.list.next process.position tid

theorem position_waitFor (process : Process) (start : Option NodePtr) :
    (process.waitFor start).position = start := by
  cases start <;> rfl

theorem inReach_waitFor_iff {start : Option NodePtr} {tid : Tid} :
    (process.waitFor start).InReach tid ↔ OnChain process.list.next start tid := by
  rw [InReach, position_waitFor, next_waitFor]
  exact or_iff_right (main_waitFor_ne _ _ (by simp) (by simp))

theorem next_joinStretch (process : Process) (current : NodePtr) (tid : Tid) :
    (process.joinStretch current tid).list.next = process.list.next := by
  rw [joinStretch, next_waitFor, ThreadList.next_free, ThreadList.next_visit]

theorem joined_joinStretch (process : Process) (current : NodePtr) (tid : Tid) :
    (process.joinStretch current tid).joined = insert tid process.joined := by
  rw [joinStretch, joined_waitFor]

theorem position_joinStretch (process : Process) (current : NodePtr) (tid : Tid) :
    (process.joinStretch current tid).position = process.list.next current := by
  rw [joinStretch, position_waitFor, ThreadList.next_visit]

/-- **A thread stays in reach** until it removes itself or has been joined. -/
theorem InReach.moves {tid : Tid} (hreach : process.InReach tid)
    (hmoves : Moves process action process') :
    process'.InReach tid ∨ (process.thread tid = .served ∧ action = .remove tid) ∨
      (process.thread tid = .exited ∧ tid ∈ process'.joined) := by
  cases hmoves with
  | stays | signalled | cannotAdd | cleansUp | finishes | fails | exits => exact Or.inl hreach
  | interrupted hmain | tested hmain | accepts hmain | refuses hmain | cannotCreate hmain =>
      exact Or.inl (by simpa [InReach, position, hmain] using hreach)
  | leavesLoop hmain =>
      apply Or.inl
      rw [inReach_waitFor_iff]
      simpa [InReach, position, hmain] using hreach
  | creates hmain =>
      have hon : OnChain process.list.next process.list.head tid := by
        simpa [InReach, position, hmain] using hreach
      exact Or.inl (Or.inr hon)
  | adds other list hmain hadded =>
      apply Or.inl
      apply Or.inr
      apply (hadded.onChain_iff tid).mpr
      simpa [InReach, position, hmain, eq_comm] using hreach
  | joins current hmain hexited =>
      have hon : OnChain process.list.next (some current) tid := by
        simpa [InReach, position, hmain] using hreach
      rcases onChain_cons_iff.mp hon with rfl | hrest
      · refine Or.inr (Or.inr ⟨hexited, ?_⟩)
        rw [joined_joinStretch]
        exact Finset.mem_insert_self _ _
      · apply Or.inl
        apply Or.inr
        rw [next_joinStretch, position_joinStretch]
        exact hrest
  | removes other list hserved hremoved =>
      by_cases hne : tid = other
      · subst hne
        exact Or.inr (Or.inl ⟨hserved, rfl⟩)
      refine Or.inl (hreach.imp id fun hon => ?_)
      unfold position at hon ⊢
      dsimp only [setThread]
      split
      case h_1 current _ hmain => exact hremoved.keeps _ tid hne (by simpa [hmain] using hon)
      case h_2 hmain => exact absurd (by simpa [hmain] using hon) (not_onChain_none _ _)
      case h_3 => exact hremoved.keeps_head tid hne (by simpa using hon)

end Process

end AesdChar
