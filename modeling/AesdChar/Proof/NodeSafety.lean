import AesdChar.Proof.ThreadSteps

/-!
# The nodes of the list

Before `main` joins, the chain from the head is what has to be live. While it joins, that is the
chain from the node it waits for, which is the same only as long as it waits for the first. A thread
that removes itself works on the chain from the head, so all goes well until one does so when the
two are no longer the same, or when its node is the one `main` will come back to.
-/

namespace AesdChar

open Lib

namespace Process

variable {process process' : Process} {action : Action}

/-- A thread removes itself while `main` walks along the list. Before `main` has freed the first
node this is harmless, unless that node is the thread's own. -/
def RemovesUnderJoin (process : Process) (action : Action) : Prop :=
  process.ended = false ∧ ∃ tid, action = .remove tid ∧ process.thread tid = .served ∧
    ∃ current, process.main = .joining current current ∧
      (process.list.head ≠ some current ∨ tid = current)

/-- No access has gone wrong, and none will on the nodes `main` can get at. -/
structure Clean (process : Process) : Prop where
  wellFormed : process.WellFormed
  reports : process.list.heap.reports = []
  live : ∀ ptr, OnChain process.list.next process.position ptr → ptr ∈ process.list.heap.live
  head_of_joined : process.main = .joined → process.list.head = none
  head_of_joining : ∀ current tid, process.main = .joining current tid →
    process.list.head = some current ∨ ∃ first ∈ process.list.head, first ∉ process.list.heap.live

theorem clean_init : init.Clean where
  wellFormed := wellFormed_init
  reports := rfl
  live := fun ptr hon => absurd hon (not_onChain_none _ ptr)
  head_of_joined := by simp [init]
  head_of_joining := by simp [init]

theorem Clean.of_main (h : process.Clean) (hwf : process'.WellFormed)
    (hlist : process'.list = process.list) (hposition : process'.position = process.position)
    (hjoined : process'.main = .joined → process.main = .joined)
    (hjoining : ∀ current tid, process'.main = .joining current tid →
      process.main = .joining current tid) : process'.Clean where
  wellFormed := hwf
  reports := by
    rw [hlist]
    exact h.reports
  live := by
    rw [hlist, hposition]
    exact h.live
  head_of_joined := by
    rw [hlist]
    exact fun hmain => h.head_of_joined (hjoined hmain)
  head_of_joining := by
    rw [hlist]
    exact fun current tid hmain => h.head_of_joining current tid (hjoining current tid hmain)

theorem visit_waitFor (hlist : process.list.WellFormed) {start : Option NodePtr}
    (hlive : ∀ ptr ∈ start, ptr ∈ process.list.heap.live) :
    (process.waitFor start).list.heap = process.list.heap := by
  cases start with
  | none => rfl
  | some current =>
      exact congrArg ThreadList.heap (ThreadList.visit_of_live hlist (hlive current rfl))

/-- What `main` does between two calls of `pthread_join` goes well on live nodes. -/
theorem clean_waitFor {start : Option NodePtr} (hlist : process.list.WellFormed)
    (hwf : (process.waitFor start).WellFormed) (hreports : process.list.heap.reports = [])
    (hlive : ∀ ptr, OnChain process.list.next start ptr → ptr ∈ process.list.heap.live)
    (hhead : process.list.head = start ∨
      ∃ first ∈ process.list.head, first ∉ process.list.heap.live) :
    (process.waitFor start).Clean where
  wellFormed := hwf
  reports := by
    rw [visit_waitFor hlist fun ptr hptr => hlive ptr ⟨ptr, hptr, .refl⟩]
    exact hreports
  live := by
    rw [next_waitFor, position_waitFor, live_waitFor]
    exact hlive
  head_of_joined := by
    intro hmain
    cases start with
    | none => rfl
    | some current => cases hmain
  head_of_joining := by
    intro current tid hmain
    rw [live_waitFor]
    cases start with
    | none => cases hmain
    | some first =>
        obtain rfl := (MainState.joining.inj hmain).1
        exact hhead

/-- A thread that may remove itself works on the chain that `main` is on, and leaves `main` at the
head of it. -/
theorem Clean.position_of_safe (h : process.Clean) (hrunning : process.ended = false) {tid : Tid}
    (hserved : process.thread tid = .served) (hsafe : ¬ process.RemovesUnderJoin (.remove tid))
    {list : ThreadList} (hremoved : ThreadList.Removed tid process.list list) :
    process.position = process.list.head ∧
      ({ process with list := list } : Process).position = list.head := by
  cases hmain : process.main with
  | joining current other =>
      obtain ⟨rfl, -⟩ := h.wellFormed.joining current other hmain
      have hhead : process.list.head = some other := by
        by_contra hne
        exact hsafe ⟨hrunning, tid, rfl, hserved, other, hmain, Or.inl hne⟩
      have hne : process.list.head ≠ some tid := by
        intro heq
        obtain rfl := Option.some.inj (hhead.symm.trans heq)
        exact hsafe ⟨hrunning, other, rfl, hserved, other, hmain, Or.inr rfl⟩
      rw [hremoved.head_of_ne hne, hhead]
      simp [position, hmain]
  | joined =>
      have hhead := h.head_of_joined hmain
      rw [hremoved.head_of_ne (by simp [hhead]), hhead]
      simp [position, hmain]
  | testing | accepting | accepted | created | acceptFailed => simp [position, hmain]

theorem Clean.adds (h : process.Clean) {tid : Tid} {list : ThreadList}
    (hmain : process.main = .created tid) (hadded : ThreadList.Added tid process.list list)
    (hwf : WellFormed { process with list := list, main := .testing }) :
    Clean { process with list := list, main := .testing } where
  wellFormed := hwf
  reports := hadded.reports_eq.trans h.reports
  live := by
    intro ptr hon
    have hlive : ∀ ptr, OnChain process.list.next process.list.head ptr →
        ptr ∈ process.list.heap.live := by
      simpa [position, hmain] using h.live
    change ptr ∈ list.heap.live
    rw [hadded.live_eq]
    rcases (hadded.onChain_iff ptr).mp hon with rfl | hold
    · exact Finset.mem_insert_self _ _
    · exact Finset.mem_insert_of_mem (hlive ptr hold)
  head_of_joined := by simp
  head_of_joining := by simp

/-- The node that is freed is behind `main` when `main` goes on. -/
theorem Clean.joins (h : process.Clean) {current : NodePtr}
    (hmain : process.main = .joining current current)
    (hwf : (process.joinStretch current current).WellFormed) :
    (process.joinStretch current current).Clean := by
  have hlive : ∀ ptr, OnChain process.list.next (some current) ptr →
      ptr ∈ process.list.heap.live := by
    simpa [position, hmain] using h.live
  have hcurrent := hlive current (onChain_self _ _)
  have hvisit := ThreadList.visit_of_live h.wellFormed.list hcurrent
  refine clean_waitFor ((h.wellFormed.list.visit current).free current) hwf ?_ ?_ ?_
  · change ((process.list.visit current).free current).heap.reports = []
    rw [hvisit, ThreadList.reports_free_of_live hcurrent]
    exact h.reports
  · intro ptr hon
    change ptr ∈ ((process.list.visit current).free current).heap.live
    have hrest : OnChain process.list.next (process.list.next current) ptr := by
      simpa using hon
    have hne := (h.wellFormed.list.descending.lt_of_onChain_next hrest).ne
    rw [hvisit, ThreadList.free, BlockHeap.live_free]
    exact Finset.mem_erase.mpr ⟨hne, hlive ptr (onChain_cons_iff.mpr (Or.inr hrest))⟩
  · change process.list.head = _ ∨ ∃ first ∈ process.list.head,
      first ∉ ((process.list.visit current).free current).heap.live
    rw [hvisit, ThreadList.free, BlockHeap.live_free]
    apply Or.inr
    rcases h.head_of_joining current current hmain with hhead | ⟨first, hhead, hdead⟩
    · exact ⟨current, hhead, Finset.notMem_erase _ _⟩
    · exact ⟨first, hhead, fun hmem => hdead (Finset.mem_of_mem_erase hmem)⟩

theorem Clean.removes (h : process.Clean) (hrunning : process.ended = false) {tid : Tid}
    (hserved : process.thread tid = .served) (hsafe : ¬ process.RemovesUnderJoin (.remove tid))
    {list : ThreadList} (hremoved : ThreadList.Removed tid process.list list)
    (hwf : WellFormed { process.setThread tid .removed with list := list }) :
    Clean { process.setThread tid .removed with list := list } := by
  obtain ⟨hposition, hposition'⟩ := h.position_of_safe hrunning hserved hsafe hremoved
  have hlive := h.live
  rw [hposition] at hlive
  obtain ⟨hreports, hkept⟩ := hremoved.clean hlive
  refine ⟨hwf, hreports.trans h.reports, fun ptr hon => ?_, fun hmain => ?_,
    fun current other hmain => ?_⟩
  · have hon' : OnChain list.next list.head ptr := hposition' ▸ hon
    obtain ⟨hold, hne⟩ := hkept ptr hon'
    exact (hremoved.live_of_ne ptr hne).mpr (hlive ptr hold)
  · have hhead := h.head_of_joined hmain
    exact (hremoved.head_of_ne (by simp [hhead])).trans hhead
  · apply Or.inl
    rw [← hposition']
    change process.main = .joining current other at hmain
    simp [position, hmain]

theorem Clean.moves (h : process.Clean) (hrunning : process.ended = false)
    (hmoves : Moves process action process') (hsafe : ¬ process.RemovesUnderJoin action) :
    process'.Clean := by
  have hwf := h.wellFormed.moves hmoves
  cases hmoves with
  | stays => exact h
  | signalled | cannotAdd | cleansUp | finishes | fails | exits =>
      exact h.of_main hwf rfl rfl id fun _ _ => id
  | interrupted hmain | tested hmain | accepts hmain | refuses hmain | cannotCreate hmain =>
      exact h.of_main hwf rfl (by simp [position, hmain]) (by simp) (by simp)
  | creates hmain =>
      exact h.of_main hwf rfl (by simp [position, hmain, setThread]) (by simp) (by simp)
  | leavesLoop hmain =>
      refine clean_waitFor h.wellFormed.list hwf h.reports ?_ (Or.inl rfl)
      simpa [position, hmain] using h.live
  | adds tid list hmain hadded => exact h.adds hmain hadded hwf
  | joins current hmain => exact h.joins hmain hwf
  | removes tid list hserved hremoved => exact h.removes hrunning hserved hsafe hremoved hwf

theorem Clean.step (h : process.Clean) (hsafe : ¬ process.RemovesUnderJoin action) :
    (process.step action).Clean :=
  step_induction h.wellFormed h fun _ hrunning hmoves => h.moves hrunning hmoves hsafe

/-- **The list stays sound.** No node is freed twice and none is used after it was freed, unless a
thread removes itself while `main` walks along the list. -/
theorem nodes_used_safely (actions : List Action)
    (hsafe : Along Process.step (fun process action => ¬ process.RemovesUnderJoin action) init
      actions) :
    (runs actions).list.heap.reports = [] := by
  have hclean : (runs actions).Clean :=
    run_along (fun _ _ hok h => h.step hok) hsafe clean_init
  exact hclean.reports

theorem nodes_used_safely_two_clients :
    (runs [.test, .accept true, .create true, .add true, .test, .accept true, .create true,
      .add true, .signal false, .test, .finish 0 true, .remove 0]).list.heap.reports = [] := by
  apply nodes_used_safely
  simp only [Along, RemovesUnderJoin, reduceCtorEq, false_and, exists_false, and_false,
    not_false_eq_true, true_and, and_true]
  rintro ⟨-, tid, htid, -, current, hmain, hunder⟩
  obtain rfl := Action.remove.inj htid
  obtain rfl : 1 = current := (MainState.joining.inj hmain).1
  revert hunder
  decide

/-- The only client is still on the list when `main` begins to wait for it. -/
theorem reports_removed_under_join :
    (runs [.test, .accept true, .create true, .add true, .signal false, .test, .finish 0 true,
      .remove 0, .exit 0, .join]).list.heap.reports ≠ [] := by decide

theorem reports_grow_waitFor (process : Process) (start : Option NodePtr) :
    process.list.heap.reports <+: (process.waitFor start).list.heap.reports := by
  cases start with
  | none => exact List.prefix_rfl
  | some current => exact BlockHeap.reports_grow_check _ current 0 1

theorem reports_joinStretch_of_dead {current : NodePtr}
    (hdead : current ∉ process.list.heap.live) (tid : Tid) :
    (process.joinStretch current tid).list.heap.reports ≠ [] := by
  have hvisit := BlockHeap.reports_check_of_dead process.list.heap current 0 1 hdead
  have hfree := (BlockHeap.reports_grow_free _ current).ne_nil hvisit
  exact (reports_grow_waitFor _ _).ne_nil hfree

/-- The first such step of a run spoils it: either the loop of `removeThread` already runs into the
first node, or `main` comes back to a node that is gone. -/
theorem Clean.reports_of_removesUnderJoin (h : process.Clean)
    (hunder : process.RemovesUnderJoin action) :
    ∃ after, (Lib.run Process.step process (action :: after)).list.heap.reports ≠ [] := by
  obtain ⟨hrunning, tid, rfl, hserved, current, hmain, hplace⟩ := hunder
  have hstep := step_remove hrunning hserved
  rcases h.head_of_joining current current hmain with hhead | ⟨first, hhead, hdead⟩
  · obtain rfl : tid = current := hplace.resolve_left (not_not.mpr hhead)
    have hremoved := ThreadList.removeThread_removed h.wellFormed.list tid
    have hdead : tid ∉ (removeThread process.list tid).heap.live := by
      rw [hremoved.live_self, hhead]
      exact fun hgone => hgone.2 (onChain_self _ _)
    refine ⟨[.exit tid, .join], ?_⟩
    rw [run_cons, hstep]
    simp only [run_cons, run_nil, Process.step, mainStep, threadStep, setThread, hrunning, hmain,
      Bool.false_eq_true, if_false, if_true, Function.update_self]
    exact reports_joinStretch_of_dead hdead tid
  · refine ⟨[], ?_⟩
    rw [run_cons, run_nil, hstep]
    exact ThreadList.reports_removeThread_of_dead hhead hdead tid

end Process

end AesdChar
