import AesdChar.Proof.NodeSafety

/-!
# Joining the threads

No thread should be forgotten: each is about to be added, is on the list, or has been passed to
`pthread_join`. A thread that takes itself off the list before `main` has come to wait for it is
lost. So is one that waits on the list while `join_threads` frees a node in front of it, because the
head goes on pointing to the first node that was freed. And nothing is certain once a freed node has
been used. Without these three whoever has not been joined is in reach of `main`, which therefore
has joined them all when it is through with the list.
-/

namespace AesdChar

open Lib

namespace ThreadList

/-- The links that can still be followed: those of live nodes. -/
def liveNext (list : ThreadList) (ptr : NodePtr) : Option NodePtr :=
  if ptr ∈ list.heap.live then list.next ptr else none

/-- Every node of the list is live. -/
def Sound (list : ThreadList) : Prop :=
  ∀ ptr, OnChain list.next list.head ptr → ptr ∈ list.heap.live

variable {list : ThreadList}

theorem onChain_of_liveNext {start : Option NodePtr} {ptr : NodePtr}
    (hon : OnChain list.liveNext start ptr) : OnChain list.next start ptr := by
  apply hon.of_steps
  intro node successor hsuccessor hrest
  unfold liveNext at hsuccessor
  split at hsuccessor
  · apply onChain_cons_iff.mpr
    rw [Option.mem_def.mp hsuccessor]
    exact Or.inr hrest
  · cases hsuccessor

theorem Sound.onChain_liveNext_iff (h : list.Sound) {ptr : NodePtr} :
    OnChain list.liveNext list.head ptr ↔ OnChain list.next list.head ptr :=
  onChain_congr fun node hnode => if_pos (h node hnode)

end ThreadList

namespace Process

variable {process process' : Process} {action : Action}

/-- The thread has a node on the list: the head leads to it through live nodes. -/
def Listed (process : Process) (tid : Tid) : Prop :=
  ∃ ptr ∈ process.list.heap.live, OnChain process.list.liveNext process.list.head ptr ∧
    (process.list.node ptr).tid = tid

/-- Every thread is about to be added, is on the list or has been passed to `pthread_join`, and in
the end they have all been joined. -/
structure Accounted (process : Process) : Prop where
  kept : ∀ tid < process.created,
    process.main = .created tid ∨ process.Listed tid ∨ tid ∈ process.passed
  joined : process.main = .joined → ∀ tid < process.created, tid ∈ process.joined

/-- A thread takes itself off the list before it has been passed to `pthread_join`. -/
def Unlists (process : Process) (action : Action) : Prop :=
  process.ended = false ∧ ∃ tid, action = .remove tid ∧ process.thread tid = .served ∧
    process.Listed tid ∧ tid ∉ process.passed

/-- `join_threads` frees a node while somebody waits on the list behind the next one. -/
def Strands (process : Process) (action : Action) : Prop :=
  process.ended = false ∧ action = .join ∧ ∃ current tid, process.main = .joining current tid ∧
    process.thread tid = .exited ∧ current ∈ process.list.heap.live ∧
      ∃ other, process.Listed other ∧ other ∉ process.passed ∧
        process.list.next current ≠ some other

/-- `join_threads` goes on from a node that its thread has freed, or a thread looks for its node
from a head that has been freed. -/
def UsesFreed (process : Process) (action : Action) : Prop :=
  process.ended = false ∧
    ((action = .join ∧ ∃ current tid, process.main = .joining current tid ∧
        process.thread tid = .exited ∧ current ∉ process.list.heap.live) ∨
      ∃ tid, action = .remove tid ∧ process.thread tid = .served ∧
        ∃ first ∈ process.list.head, first ∉ process.list.heap.live)

/-! ### Being on the list -/

theorem listed_iff (h : process.WellFormed) {tid : Tid} :
    process.Listed tid ↔ tid ∈ process.list.heap.live ∧
      OnChain process.list.liveNext process.list.head tid := by
  constructor
  · rintro ⟨ptr, hlive, hon, htid⟩
    have heq : ptr = tid := (h.list.tid_eq (h.list.live_lt ptr hlive)).symm.trans htid
    rw [← heq]
    exact ⟨hlive, hon⟩
  · rintro ⟨hlive, hon⟩
    exact ⟨tid, hlive, hon, h.list.tid_eq (h.list.live_lt tid hlive)⟩

theorem listed_iff_of_sound (h : process.WellFormed) (hsound : process.list.Sound) {tid : Tid} :
    process.Listed tid ↔ OnChain process.list.next process.list.head tid := by
  rw [listed_iff h, hsound.onChain_liveNext_iff]
  exact and_iff_right_of_imp (hsound tid)

/-- Nobody is on a list whose first node has been freed. -/
theorem not_listed_of_dead (first : NodePtr) (hhead : first ∈ process.list.head)
    (hdead : first ∉ process.list.heap.live) (tid : Tid) : ¬ process.Listed tid := by
  rintro ⟨ptr, hlive, hon, -⟩
  have hnone : process.list.liveNext first = none := if_neg hdead
  rw [Option.mem_def.mp hhead, onChain_cons_iff, hnone] at hon
  rcases hon with rfl | hrest
  · exact hdead hlive
  · exact not_onChain_none _ _ hrest

theorem not_listed_of_head_eq_none (hhead : process.list.head = none) (tid : Tid) :
    ¬ process.Listed tid := by
  rintro ⟨ptr, -, hon, -⟩
  rw [hhead] at hon
  exact not_onChain_none _ _ hon

/-! ### How far `main` has come -/

/-- What there is of the list before, during and after `join_threads`. -/
inductive Phase (process : Process) : Prop
  | before (hjoining : ∀ current tid, process.main ≠ .joining current tid)
      (hmain : process.main ≠ .joined) (hjoined : process.joined = ∅)
      (hsound : process.list.Sound)
  /-- Nobody has been joined yet. -/
  | first (current : NodePtr) (hmain : process.main = .joining current current)
      (hjoined : process.joined = ∅) (hsound : process.list.Sound)
      (hhead : process.list.head = some current ∨ current ∉ process.list.heap.live)
  /-- All but one thread have been joined. -/
  | last (current : NodePtr) (hmain : process.main = .joining current current)
      (hlive : current ∈ process.list.heap.live) (hend : process.list.next current = none)
      (hhead : ∃ first ∈ process.list.head, first ∉ process.list.heap.live)
      (hall : ∀ tid < process.created, tid ∈ process.joined ∨ tid = current)
  | done (hmain : process.main = .joined) (hall : ∀ tid < process.created, tid ∈ process.joined)

/-- What `Accounted` rests on. -/
structure Traced (process : Process) : Prop where
  wellFormed : process.WellFormed
  reports : process.list.heap.reports = []
  kept : ∀ tid < process.created,
    process.main = .created tid ∨ process.Listed tid ∨ tid ∈ process.passed
  passed_iff : ∀ tid, tid ∈ process.passed ↔
    tid ∈ process.joined ∨ process.main = .joining tid tid
  exited : ∀ tid ∈ process.joined, process.thread tid = .exited
  phase : process.Phase

theorem traced_init : init.Traced where
  wellFormed := wellFormed_init
  reports := rfl
  kept := fun tid htid => absurd htid (Nat.not_lt_zero tid)
  passed_iff := by simp [init]
  exited := by simp [init]
  phase := .before (by simp [init]) (by simp [init]) rfl fun ptr hon =>
    absurd hon (not_onChain_none _ ptr)

theorem Traced.accounted (h : process.Traced) : process.Accounted where
  kept := h.kept
  joined := by
    intro hmain
    cases h.phase with
    | before _ hnot _ _ => exact absurd hmain hnot
    | first _ hjoining _ _ _ | last _ hjoining _ _ _ _ =>
        rw [hmain] at hjoining
        cases hjoining
    | done _ hall => exact hall

/-- The list and what `main` has joined are as they were. -/
theorem Traced.congr (h : process.Traced) (hwf : process'.WellFormed)
    (hlist : process'.list = process.list) (hmain : process'.main = process.main)
    (hcreated : process'.created = process.created) (hpassed : process'.passed = process.passed)
    (hjoined : process'.joined = process.joined)
    (hexited : ∀ tid, process.thread tid = .exited → process'.thread tid = .exited) :
    process'.Traced where
  wellFormed := hwf
  reports := by
    rw [hlist]
    exact h.reports
  kept := by
    unfold Listed
    rw [hcreated, hmain, hlist, hpassed]
    exact h.kept
  passed_iff := by
    rw [hpassed, hjoined, hmain]
    exact h.passed_iff
  exited := by
    rw [hjoined]
    exact fun tid htid => hexited tid (h.exited tid htid)
  phase := by
    cases h.phase with
    | before hjoining hnot hnone hsound =>
        exact .before (by rw [hmain]; exact hjoining) (by rw [hmain]; exact hnot)
          (hjoined.trans hnone) (by rw [hlist]; exact hsound)
    | first current hjoining hnone hsound hhead =>
        exact .first current (hmain.trans hjoining) (hjoined.trans hnone)
          (by rw [hlist]; exact hsound) (by rw [hlist]; exact hhead)
    | last current hjoining hlive hend hhead hall =>
        refine .last current (hmain.trans hjoining) ?_ ?_ ?_ ?_
        · rw [hlist]
          exact hlive
        · rw [hlist]
          exact hend
        · rw [hlist]
          exact hhead
        · rw [hcreated, hjoined]
          exact hall
    | done hdone hall =>
        refine .done (hmain.trans hdone) ?_
        rw [hcreated, hjoined]
        exact hall

/-! ### Before `main` joins -/

/-- `main` is in its loop: nobody has been joined, and the list is sound. -/
structure Looping (process : Process) : Prop where
  not_joining : ∀ current tid, process.main ≠ .joining current tid
  not_joined : process.main ≠ .joined
  joined_eq : process.joined = ∅
  passed_eq : process.passed = ∅
  sound : process.list.Sound

theorem Traced.looping (h : process.Traced)
    (hjoining : ∀ current tid, process.main ≠ .joining current tid)
    (hjoined : process.main ≠ .joined) : process.Looping := by
  cases h.phase with
  | before _ _ hnone hsound =>
      refine ⟨hjoining, hjoined, hnone, Finset.eq_empty_of_forall_notMem fun tid htid => ?_, hsound⟩
      rcases (h.passed_iff tid).mp htid with hmem | hmain
      · rw [hnone] at hmem
        exact Finset.notMem_empty tid hmem
      · exact hjoining tid tid hmain
  | first current hmain _ _ _ | last current hmain _ _ _ _ =>
      exact absurd hmain (hjoining current current)
  | done hmain _ => exact absurd hmain hjoined

/-- A step of the loop. -/
theorem Looping.traced (h : process.Looping) (hwf : process'.WellFormed)
    (hjoining : ∀ current tid, process'.main ≠ .joining current tid)
    (hmain : process'.main ≠ .joined) (hjoined : process'.joined = process.joined)
    (hpassed : process'.passed = process.passed) (hsound : process'.list.Sound)
    (hreports : process'.list.heap.reports = [])
    (hkept : ∀ tid < process'.created, process'.main = .created tid ∨
      OnChain process'.list.next process'.list.head tid) : process'.Traced where
  wellFormed := hwf
  reports := hreports
  kept := by
    intro tid htid
    exact (hkept tid htid).imp_right fun hon => Or.inl ((listed_iff_of_sound hwf hsound).mpr hon)
  passed_iff := by
    intro tid
    rw [hpassed, h.passed_eq, hjoined, h.joined_eq]
    simp [hjoining]
  exited := by simp [hjoined, h.joined_eq]
  phase := .before hjoining hmain (hjoined.trans h.joined_eq) hsound

theorem Traced.onChain (h : process.Traced) (hlooping : process.Looping) {tid : Tid}
    (htid : tid < process.created) : process.main = .created tid ∨
      OnChain process.list.next process.list.head tid := by
  refine (h.kept tid htid).imp_right fun hkept => ?_
  rw [hlooping.passed_eq] at hkept
  exact (listed_iff_of_sound h.wellFormed hlooping.sound).mp
    (hkept.resolve_right (Finset.notMem_empty tid))

/-- `main` goes from one place of its loop to another. -/
theorem Traced.loops (h : process.Traced) {main : MainState}
    (hbefore : process.main = .testing ∨ process.main = .accepting ∨ process.main = .accepted)
    (hjoining : ∀ current tid, main ≠ .joining current tid) (hjoined : main ≠ .joined) (run : Bool)
    (hwf : WellFormed { process with run := run, main := main }) :
    Traced { process with run := run, main := main } := by
  have hlooping : process.Looping := by
    apply h.looping <;> rcases hbefore with hmain | hmain | hmain <;> simp [hmain]
  refine hlooping.traced hwf hjoining hjoined rfl rfl hlooping.sound h.reports fun tid htid => ?_
  refine Or.inr ((h.onChain hlooping htid).resolve_left fun hmain' => ?_)
  rcases hbefore with hmain | hmain | hmain <;> simp [hmain] at hmain'

theorem Traced.creates (h : process.Traced) (hmain : process.main = .accepted)
    (hcreated : process'.created = process.created + 1)
    (hmain' : process'.main = .created process.created) (hlist : process'.list = process.list)
    (hpassed : process'.passed = process.passed) (hjoined : process'.joined = process.joined)
    (hwf : process'.WellFormed) : process'.Traced := by
  have hlooping : process.Looping := h.looping (by simp [hmain]) (by simp [hmain])
  refine hlooping.traced hwf (by simp [hmain']) (by simp [hmain']) hjoined hpassed
    (by rw [hlist]; exact hlooping.sound) (by rw [hlist]; exact h.reports) fun tid htid => ?_
  rw [hcreated] at htid
  rw [hlist, hmain']
  rcases Nat.lt_succ_iff_lt_or_eq.mp htid with hlt | rfl
  · exact Or.inr ((h.onChain hlooping hlt).resolve_left (by simp [hmain]))
  · exact Or.inl rfl

theorem Traced.adds (h : process.Traced) {tid : Tid} {list : ThreadList}
    (hmain : process.main = .created tid) (hadded : ThreadList.Added tid process.list list)
    (hwf : WellFormed { process with list := list, main := .testing }) :
    Traced { process with list := list, main := .testing } := by
  have hlooping : process.Looping := h.looping (by simp [hmain]) (by simp [hmain])
  refine hlooping.traced hwf (by simp) (by simp) rfl rfl (fun ptr hon => ?_)
    (hadded.reports_eq.trans h.reports) fun other hother => Or.inr ?_
  · change ptr ∈ list.heap.live
    rw [hadded.live_eq, Finset.mem_insert]
    exact ((hadded.onChain_iff ptr).mp hon).imp_right (hlooping.sound ptr)
  · apply (hadded.onChain_iff other).mpr
    refine (h.onChain hlooping hother).imp_left fun hcreated => ?_
    exact (MainState.created.inj (hmain.symm.trans hcreated)).symm

/-- The loop ends: `main` waits for the first thread, if there is one. -/
theorem Traced.leavesLoop (h : process.Traced) (hmain : process.main = .testing)
    (hwf : (process.waitFor process.list.head).WellFormed) :
    (process.waitFor process.list.head).Traced := by
  have hlooping : process.Looping := h.looping (by simp [hmain]) (by simp [hmain])
  have hon : ∀ tid < process.created, OnChain process.list.next process.list.head tid :=
    fun tid htid => (h.onChain hlooping htid).resolve_left (by simp [hmain])
  cases hhead : process.list.head with
  | none =>
      rw [hhead] at hwf hon
      have hnobody : ∀ tid, ¬ tid < process.created := fun tid htid =>
        not_onChain_none _ _ (hon tid htid)
      refine ⟨hwf, h.reports, fun tid htid => absurd htid (hnobody tid), fun tid => ?_, ?_,
        .done rfl fun tid htid => absurd htid (hnobody tid)⟩
      · change tid ∈ process.passed ↔ tid ∈ process.joined ∨ MainState.joined = _
        simp [hlooping.passed_eq, hlooping.joined_eq]
      · exact h.exited
  | some first =>
      have hlive : first ∈ process.list.heap.live := by
        apply hlooping.sound
        rw [hhead]
        exact onChain_self _ _
      have hlt := h.wellFormed.list.live_lt first hlive
      have hwait : process.waitFor (some first) =
          { process with
            main := .joining first first
            passed := insert first process.passed } := by
        rw [waitFor, ThreadList.visit_of_live h.wellFormed.list hlive,
          h.wellFormed.list.tid_eq hlt]
      rw [hhead, hwait] at hwf
      rw [hwait]
      refine ⟨hwf, h.reports, fun tid htid => Or.inr (Or.inl ?_), fun tid => ?_, h.exited,
        .first first rfl hlooping.joined_eq hlooping.sound (Or.inl hhead)⟩
      · exact (listed_iff_of_sound hwf hlooping.sound).mpr (hon tid htid)
      · change tid ∈ insert first process.passed ↔
          tid ∈ process.joined ∨ MainState.joining first first = .joining tid tid
        simp [hlooping.passed_eq, hlooping.joined_eq, eq_comm]

/-! ### While `main` joins -/

/-- What joining a live node makes of the process, if another one follows. -/
theorem joinStretch_of_some (hlist : process.list.WellFormed) {current next : NodePtr}
    (hlive : current ∈ process.list.heap.live) (hnext : process.list.next current = some next)
    (hlive' : next ∈ process.list.heap.live) :
    process.joinStretch current current =
      { process with
        list := process.list.free current
        joined := insert current process.joined
        main := .joining next next
        passed := insert next process.passed } := by
  have hne : next ≠ current := (hlist.descending current next hnext).ne
  have hstill : next ∈ (process.list.free current).heap.live := by
    rw [ThreadList.free, BlockHeap.live_free]
    exact Finset.mem_erase.mpr ⟨hne, hlive'⟩
  have hwf := hlist.free current
  simp only [joinStretch, ThreadList.visit_of_live hlist hlive, hnext, waitFor,
    ThreadList.visit_of_live hwf hstill, hwf.tid_eq (hwf.live_lt next hstill)]

theorem joinStretch_of_none (hlist : process.list.WellFormed) {current : NodePtr}
    (hlive : current ∈ process.list.heap.live) (hnext : process.list.next current = none) :
    process.joinStretch current current =
      { process with
        list := { process.list.free current with head := none }
        joined := insert current process.joined
        main := .joined } := by
  simp only [joinStretch, ThreadList.visit_of_live hlist hlive, hnext, waitFor]

/-- Everybody has been joined when the last node is gone. -/
theorem Traced.done (h : process.Traced) {current : NodePtr}
    (hmain : process.main = .joining current current) (hexited : process.thread current = .exited)
    (hlive : current ∈ process.list.heap.live) (hend : process.list.next current = none)
    (hall : ∀ tid < process.created, tid ∈ process.joined ∨ tid = current)
    (hwf : (process.joinStretch current current).WellFormed) :
    (process.joinStretch current current).Traced := by
  rw [joinStretch_of_none h.wellFormed.list hlive hend] at hwf ⊢
  have hall' : ∀ tid < process.created, tid ∈ insert current process.joined := by
    intro tid htid
    rw [Finset.mem_insert]
    exact (hall tid htid).symm
  have hpassed : ∀ tid, tid ∈ process.passed ↔ tid ∈ insert current process.joined := by
    intro tid
    rw [h.passed_iff, hmain, Finset.mem_insert, MainState.joining.injEq, and_self, or_comm,
      eq_comm]
  refine ⟨hwf, ?_, fun tid htid => ?_, fun tid => ?_, fun tid htid => ?_, .done rfl hall'⟩
  · exact (ThreadList.reports_free_of_live hlive).trans h.reports
  · exact Or.inr (Or.inr ((hpassed tid).mpr (hall' tid htid)))
  · rw [hpassed]
    simp
  · rcases Finset.mem_insert.mp htid with rfl | hold
    · exact hexited
    · exact h.exited tid hold

/-- Behind the first node there is one more at most, or somebody is stranded. -/
theorem Traced.joins_first (h : process.Traced) (hrunning : process.ended = false)
    {current : NodePtr} (hmain : process.main = .joining current current)
    (hexited : process.thread current = .exited) (hjoined : process.joined = ∅)
    (hsound : process.list.Sound) (hhead : process.list.head = some current)
    (hsafe : ¬ process.Strands .join) (hwf : (process.joinStretch current current).WellFormed) :
    (process.joinStretch current current).Traced := by
  have hlist := h.wellFormed.list
  have hpassed : ∀ tid, tid ∈ process.passed ↔ tid = current := by
    intro tid
    rw [h.passed_iff, hjoined, hmain, MainState.joining.injEq, and_self, eq_comm]
    simp
  have hlive : current ∈ process.list.heap.live := by
    apply hsound
    rw [hhead]
    exact onChain_self _ _
  have hbehind : ∀ tid, OnChain process.list.next process.list.head tid → tid ≠ current →
      process.list.next current = some tid := by
    intro tid hon hne
    by_contra hnot
    exact hsafe ⟨hrunning, rfl, current, current, hmain, hexited, hlive, tid,
      (listed_iff_of_sound h.wellFormed hsound).mpr hon, fun hmem => hne ((hpassed tid).mp hmem),
      hnot⟩
  have hall : ∀ tid < process.created, tid = current ∨ process.list.next current = some tid := by
    intro tid htid
    by_cases heq : tid = current
    · exact Or.inl heq
    rcases h.kept tid htid with hcreated | hlisted | hmem
    · rw [hmain] at hcreated
      cases hcreated
    · exact Or.inr (hbehind tid ((listed_iff_of_sound h.wellFormed hsound).mp hlisted) heq)
    · exact Or.inl ((hpassed tid).mp hmem)
  cases hnext : process.list.next current with
  | none =>
      refine h.done hmain hexited hlive hnext (fun tid htid => Or.inr ?_) hwf
      exact (hall tid htid).resolve_right (by simp [hnext])
  | some next =>
      have hon : OnChain process.list.next process.list.head next := by
        rw [hhead, onChain_cons_iff, hnext]
        exact Or.inr (onChain_self _ _)
      have hne : next ≠ current := (hlist.descending current next hnext).ne
      have hlive' := hsound next hon
      have hend : process.list.next next = none := by
        by_contra hsome
        obtain ⟨other, hother⟩ := Option.ne_none_iff_exists'.mp hsome
        have hlt := hlist.descending next other hother
        have hsecond := hbehind other (hon.link hother)
          (hlt.trans (hlist.descending current next hnext)).ne
        rw [hnext] at hsecond
        exact hlt.ne (Option.some.inj hsecond).symm
      rw [joinStretch_of_some hlist hlive hnext hlive'] at hwf ⊢
      have hall' : ∀ tid < process.created, tid ∈ insert current process.joined ∨ tid = next := by
        intro tid htid
        rw [hjoined, Finset.mem_insert]
        refine (hall tid htid).imp Or.inl fun hlink => ?_
        rw [hnext] at hlink
        exact (Option.some.inj hlink).symm
      have hfreed : (process.list.free current).heap.live = process.list.heap.live.erase current :=
        BlockHeap.live_free _ _
      refine ⟨hwf, ?_, fun tid htid => Or.inr (Or.inr ?_), fun tid => ?_, fun tid htid => ?_,
        .last next rfl ?_ ?_ ⟨current, hhead, ?_⟩ hall'⟩
      · exact (ThreadList.reports_free_of_live hlive).trans h.reports
      · change tid ∈ insert next process.passed
        rw [Finset.mem_insert, hpassed, or_comm]
        refine (hall' tid htid).imp_left fun hmem => ?_
        rw [hjoined, Finset.mem_insert] at hmem
        exact hmem.resolve_right (Finset.notMem_empty tid)
      · change tid ∈ insert next process.passed ↔
          tid ∈ insert current process.joined ∨ MainState.joining next next = .joining tid tid
        rw [Finset.mem_insert, hpassed, hjoined, Finset.mem_insert, MainState.joining.injEq,
          and_self, or_comm, eq_comm (a := next)]
        simp
      · rcases Finset.mem_insert.mp htid with rfl | hold
        · exact hexited
        · exact h.exited tid hold
      · change next ∈ (process.list.free current).heap.live
        rw [hfreed]
        exact Finset.mem_erase.mpr ⟨hne, hlive'⟩
      · change (process.list.free current).next next = none
        rw [ThreadList.next_free]
        exact hend
      · change current ∉ (process.list.free current).heap.live
        rw [hfreed]
        exact Finset.notMem_erase _ _

theorem Traced.joins (h : process.Traced) (hrunning : process.ended = false) {current : NodePtr}
    (hmain : process.main = .joining current current) (hexited : process.thread current = .exited)
    (hstrands : ¬ process.Strands .join) (hfreed : ¬ process.UsesFreed .join)
    (hwf : (process.joinStretch current current).WellFormed) :
    (process.joinStretch current current).Traced := by
  cases h.phase with
  | before hjoining _ _ _ => exact absurd hmain (hjoining current current)
  | first other hother hjoined hsound hhead =>
      obtain rfl : current = other := (MainState.joining.inj (hmain.symm.trans hother)).1
      have hlive : current ∈ process.list.heap.live := by
        by_contra hdead
        exact hfreed ⟨hrunning, Or.inl ⟨rfl, current, current, hmain, hexited, hdead⟩⟩
      exact h.joins_first hrunning hmain hexited hjoined hsound
        (hhead.resolve_right (not_not_intro hlive)) hstrands hwf
  | last other hother hlive hend _ hall =>
      obtain rfl : current = other := (MainState.joining.inj (hmain.symm.trans hother)).1
      exact h.done hmain hexited hlive hend hall hwf
  | done hdone _ =>
      rw [hmain] at hdone
      cases hdone

/-! ### Removing -/

/-- A thread that removes itself without harm is one that `main` will not look for on the list, and
the list is sound. -/
theorem Traced.of_safe (h : process.Traced) (hrunning : process.ended = false) {tid : Tid}
    (hserved : process.thread tid = .served) (hunlists : ¬ process.Unlists (.remove tid))
    (hfreed : ¬ process.UsesFreed (.remove tid)) :
    process.list.Sound ∧ process.joined = ∅ ∧
      (process.main = .created tid ∨ process.main = .joining tid tid) := by
  have htid := h.wellFormed.tid_lt hserved (by simp)
  have hplace : process.joined = ∅ →
      process.main = .created tid ∨ process.main = .joining tid tid := by
    intro hjoined
    rcases h.kept tid htid with hcreated | hlisted | hpassed
    · exact Or.inl hcreated
    · have hpassed : tid ∈ process.passed := by
        by_contra hnot
        exact hunlists ⟨hrunning, tid, rfl, hserved, hlisted, hnot⟩
      rw [h.passed_iff, hjoined] at hpassed
      exact Or.inr (hpassed.resolve_left (Finset.notMem_empty tid))
    · rw [h.passed_iff, hjoined] at hpassed
      exact Or.inr (hpassed.resolve_left (Finset.notMem_empty tid))
  have hjoins : tid ∉ process.joined := by
    intro hmem
    rw [h.exited tid hmem] at hserved
    cases hserved
  cases h.phase with
  | before _ _ hjoined hsound | first _ _ hjoined hsound _ =>
      exact ⟨hsound, hjoined, hplace hjoined⟩
  | last current hmain hlive hend hhead hall =>
      exact absurd ⟨hrunning, Or.inr ⟨tid, rfl, hserved, hhead⟩⟩ hfreed
  | done hmain hall => exact absurd (hall tid htid) hjoins

theorem Traced.removes (h : process.Traced) (hrunning : process.ended = false) {tid : Tid}
    (hserved : process.thread tid = .served) (hunlists : ¬ process.Unlists (.remove tid))
    (hfreed : ¬ process.UsesFreed (.remove tid)) {list : ThreadList}
    (hremoved : ThreadList.Removed tid process.list list)
    (hwf : WellFormed { process.setThread tid .removed with list := list }) :
    Traced { process.setThread tid .removed with list := list } := by
  obtain ⟨hsound, hjoined, hplace⟩ := h.of_safe hrunning hserved hunlists hfreed
  obtain ⟨hreports, hchain⟩ := hremoved.clean hsound
  have hsound' : list.Sound := by
    intro ptr hon
    obtain ⟨hold, hne⟩ := hchain ptr hon
    exact (hremoved.live_of_ne ptr hne).mpr (hsound ptr hold)
  refine ⟨hwf, hreports.trans h.reports, fun other hother => ?_, h.passed_iff, fun other hmem => ?_,
    ?_⟩
  · by_cases heq : other = tid
    · subst heq
      exact hplace.imp_right fun hmain => Or.inr ((h.passed_iff other).mpr (Or.inr hmain))
    · refine (h.kept other hother).imp_right (Or.imp_left fun hlisted => ?_)
      apply (listed_iff_of_sound hwf hsound').mpr
      exact hremoved.keeps_head other heq ((listed_iff_of_sound h.wellFormed hsound).mp hlisted)
  · change other ∈ process.joined at hmem
    rw [hjoined] at hmem
    exact absurd hmem (Finset.notMem_empty other)
  · rcases hplace with hmain | hmain
    · refine .before (fun current other hjoining => ?_) (fun hdone => ?_) hjoined hsound'
      · have habsurd := hmain.symm.trans hjoining
        cases habsurd
      · have habsurd := hmain.symm.trans hdone
        cases habsurd
    · refine .first tid hmain hjoined hsound' (Or.inr fun hlive => ?_)
      -- the node was on the list, or it had been freed already
      obtain ⟨hold, hoff⟩ := hremoved.live_self.mp hlive
      cases h.phase with
      | before hjoining _ _ _ => exact hjoining tid tid hmain
      | first other hother _ _ hhead =>
          obtain rfl : tid = other := (MainState.joining.inj (hmain.symm.trans hother)).1
          rcases hhead with hhead | hdead
          · rw [hhead] at hoff
            exact hoff (onChain_self _ _)
          · exact hdead hold
      | last other _ _ _ hhead _ =>
          exact hfreed ⟨hrunning, Or.inr ⟨tid, rfl, hserved, hhead⟩⟩
      | done hdone _ =>
          rw [hmain] at hdone
          cases hdone

/-! ### Whole runs -/

theorem Traced.moves (h : process.Traced) (hrunning : process.ended = false)
    (hmoves : Moves process action process') (hunlists : ¬ process.Unlists action)
    (hstrands : ¬ process.Strands action) (hfreed : ¬ process.UsesFreed action) :
    process'.Traced := by
  have hwf := h.wellFormed.moves hmoves
  cases hmoves with
  | stays => exact h
  | signalled | cannotAdd | cleansUp | fails =>
      exact h.congr hwf rfl rfl rfl rfl rfl fun _ => id
  | interrupted hmain =>
      exact h.loops (Or.inr (Or.inl hmain)) (by simp) (by simp) false hwf
  | tested hmain => exact h.loops (Or.inl hmain) (by simp) (by simp) _ hwf
  | accepts hmain | refuses hmain =>
      exact h.loops (Or.inr (Or.inl hmain)) (by simp) (by simp) _ hwf
  | cannotCreate hmain =>
      exact h.loops (Or.inr (Or.inr hmain)) (by simp) (by simp) _ hwf
  | creates hmain => exact h.creates hmain rfl rfl rfl rfl rfl hwf
  | adds tid list hmain hadded => exact h.adds hmain hadded hwf
  | leavesLoop hmain => exact h.leavesLoop hmain hwf
  | joins current hmain hexited => exact h.joins hrunning hmain hexited hstrands hfreed hwf
  | removes tid list hserved hremoved =>
      exact h.removes hrunning hserved hunlists hfreed hremoved hwf
  | finishes tid hserving =>
      refine h.congr hwf rfl rfl rfl rfl rfl fun other hexited => ?_
      have hne : other ≠ tid := by
        rintro rfl
        rw [hserving] at hexited
        cases hexited
      exact (Function.update_of_ne hne _ _).trans hexited
  | exits tid hremoved =>
      refine h.congr hwf rfl rfl rfl rfl rfl fun other hexited => ?_
      by_cases heq : other = tid
      · subst heq
        exact Function.update_self _ _ _
      · exact (Function.update_of_ne heq _ _).trans hexited

theorem Traced.step (h : process.Traced) (hunlists : ¬ process.Unlists action)
    (hstrands : ¬ process.Strands action) (hfreed : ¬ process.UsesFreed action) :
    (process.step action).Traced :=
  step_induction h.wellFormed h fun _ hrunning hmoves =>
    h.moves hrunning hmoves hunlists hstrands hfreed

/-- A thread that unlists itself is accounted for no more. -/
theorem not_accounted_of_unlists (h : process.WellFormed) (hunlists : process.Unlists action) :
    ¬ (process.step action).Accounted := by
  intro haccounted
  obtain ⟨hrunning, tid, rfl, hserved, hlisted, hpassed⟩ := hunlists
  have hwf := h.step (.remove tid)
  have hstep := step_remove hrunning hserved
  have hremoved := ThreadList.removeThread_removed h.list tid
  obtain ⟨hlive, hon⟩ := (listed_iff h).mp hlisted
  rcases haccounted.kept tid (by rw [hstep]; exact h.tid_lt hserved (by simp)) with
    hmain | hlisted' | hpassed'
  · rw [hstep] at hmain
    have hlt := h.list.live_lt tid hlive
    exact absurd (h.created_of_adding tid hmain).1 hlt.ne
  · have hlive' := ((listed_iff hwf).mp hlisted').1
    rw [hstep] at hlive'
    exact (hremoved.live_self.mp hlive').2 (ThreadList.onChain_of_liveNext hon)
  · rw [hstep] at hpassed'
    exact hpassed hpassed'

theorem step_join (hrunning : process.ended = false) {current : NodePtr} {tid : Tid}
    (hmain : process.main = .joining current tid) (hexited : process.thread tid = .exited) :
    process.step .join = process.joinStretch current tid := by
  simp [Process.step, hrunning, mainStep, hmain, hexited]

/-- Neither is one that is stranded: the first node of the list is gone. -/
theorem Traced.not_accounted_of_strands (h : process.Traced) (hstrands : process.Strands action) :
    ¬ (process.step action).Accounted := by
  intro haccounted
  obtain ⟨hrunning, rfl, current, tid, hmain, hexited, hlive, other, hlisted, hpassed, hother⟩ :=
    hstrands
  obtain ⟨rfl, -⟩ := h.wellFormed.joining current tid hmain
  have hlt : other < process.created := by
    have hlist := h.wellFormed.list.live_lt other ((listed_iff h.wellFormed).mp hlisted).1
    rwa [← h.wellFormed.created_eq (by simp [hmain])] at hlist
  rw [step_join hrunning hmain hexited] at haccounted
  cases h.phase with
  | before hjoining _ _ _ => exact hjoining _ _ hmain
  | last _ _ _ _ hhead _ =>
      obtain ⟨first, hfirst, hdead⟩ := hhead
      exact not_listed_of_dead first hfirst hdead other hlisted
  | done hdone _ =>
      rw [hmain] at hdone
      cases hdone
  | first current hcurrent hjoined hsound hhead =>
      obtain rfl : tid = current := (MainState.joining.inj (hmain.symm.trans hcurrent)).1
      have hhead' := hhead.resolve_right (not_not_intro hlive)
      have hlist := h.wellFormed.list
      cases hnext : process.list.next tid with
      | none =>
          rw [joinStretch_of_none hlist hlive hnext] at haccounted
          rcases haccounted.kept other hlt with hcreated | hlisted' | hpassed'
          · cases hcreated
          · exact not_listed_of_head_eq_none rfl other hlisted'
          · exact hpassed hpassed'
      | some next =>
          have hlive' : next ∈ process.list.heap.live := by
            apply hsound
            rw [hhead', onChain_cons_iff, hnext]
            exact Or.inr (onChain_self _ _)
          rw [joinStretch_of_some hlist hlive hnext hlive'] at haccounted
          rcases haccounted.kept other hlt with hcreated | hlisted' | hpassed'
          · cases hcreated
          · have hgone : tid ∉ (process.list.free tid).heap.live := by
              rw [ThreadList.free, BlockHeap.live_free]
              exact Finset.notMem_erase _ _
            refine not_listed_of_dead tid ?_ ?_ other hlisted'
            · exact hhead'
            · exact hgone
          · rcases Finset.mem_insert.mp hpassed' with rfl | hold
            · exact hother hnext
            · exact hpassed hold

/-- A use of a freed node leaves a report. -/
theorem reports_of_usesFreed (hfreed : process.UsesFreed action) :
    (process.step action).list.heap.reports ≠ [] := by
  obtain ⟨hrunning, ⟨rfl, current, tid, hmain, hexited, hdead⟩ |
    ⟨tid, rfl, hserved, first, hfirst, hdead⟩⟩ := hfreed
  · rw [step_join hrunning hmain hexited]
    exact reports_joinStretch_of_dead hdead tid
  · rw [step_remove hrunning hserved]
    exact ThreadList.reports_removeThread_of_dead hfirst hdead tid

/-- **Every thread is joined.** Each is accounted for in every state of a run, no freed node is used
in it, and `join_threads` returns only when all threads have been joined, exactly when no thread of
the run takes itself off the list before it has been passed to `pthread_join`, nobody is stranded
there by `join_threads`, and no step goes on from a freed node. -/
theorem threads_accounted_iff (actions : List Action) :
    (∀ before after, actions = before ++ after →
        (runs before).Accounted ∧ (runs before).list.heap.reports = []) ↔
      Along Process.step (fun process action =>
        ¬ process.Unlists action ∧ ¬ process.Strands action ∧ ¬ process.UsesFreed action) init
        actions := by
  refine throughout_iff_along (I := Traced)
    (P := fun process => process.Accounted ∧ process.list.heap.reports = []) ?_ ?_ ?_ traced_init
    actions
  · exact fun _ h => ⟨h.accounted, h.reports⟩
  · exact fun _ _ hok h => h.step hok.1 hok.2.1 hok.2.2
  · rintro process action h hnot ⟨haccounted, hreports⟩
    refine hnot ⟨fun hunlists => ?_, fun hstrands => ?_, fun hfreed => ?_⟩
    · exact not_accounted_of_unlists h.wellFormed hunlists haccounted
    · exact h.not_accounted_of_strands hstrands haccounted
    · exact reports_of_usesFreed hfreed hreports

theorem not_accounted_short_connection :
    ¬ (runs [.test, .accept true, .create true, .add true, .finish 0 true,
      .remove 0]).Accounted := by
  intro haccounted
  rcases haccounted.kept 0 (by decide) with hmain | ⟨ptr, hlive, -⟩ | hpassed
  · revert hmain
    decide
  · exact Finset.notMem_empty ptr hlive
  · revert hpassed
    decide

end Process

end AesdChar
