import AesdChar.Threads
import AesdChar.Lib.Linked

/-!
# What the operations do to the list of threads

Threads get their nodes in the order in which they are created, so that thread and node have the
same number, and a node points to an older one. `removeThread` is specified for every list whose
links are in order, whether its nodes are live or not: whoever else keeps a pointer into the chain
still finds every other thread there. If the chain from the head is live, no access goes wrong.
-/

namespace AesdChar

open Lib

namespace ThreadList

structure WellFormed (list : ThreadList) : Prop where
  limit_pos : 1 ≤ list.heap.limit
  live_lt : list.heap.WellFormed
  cell : ∀ ptr < list.heap.next, ∃ next, list.heap.cells ptr = [⟨ptr, next⟩]
  blank : ∀ ptr, list.heap.next ≤ ptr → list.heap.cells ptr = []
  descending : Descending list.next
  head_lt : ∀ ptr ∈ list.head, ptr < list.heap.next

/-! ### Single accesses -/

section Access

variable (list : ThreadList) (ptr : NodePtr)

theorem node_congr {list list' : ThreadList} (hcells : list'.heap.cells = list.heap.cells) :
    list'.node = list.node := by
  funext ptr
  rw [node, node, BlockHeap.load, BlockHeap.load, hcells]

theorem next_congr {list list' : ThreadList} (hcells : list'.heap.cells = list.heap.cells) :
    list'.next = list.next := by
  funext ptr
  rw [next, next, node_congr hcells]

@[simp] theorem node_visit : (list.visit ptr).node = list.node := node_congr (by simp [visit])

@[simp] theorem next_visit : (list.visit ptr).next = list.next := next_congr (by simp [visit])

@[simp] theorem head_visit : (list.visit ptr).head = list.head := rfl

@[simp] theorem next_free : (list.free ptr).next = list.next := next_congr (by simp [free])

@[simp] theorem head_free : (list.free ptr).head = list.head := rfl

end Access

variable {list : ThreadList} {ptr : NodePtr}

theorem WellFormed.congr {list' : ThreadList} (h : list.WellFormed)
    (hcells : list'.heap.cells = list.heap.cells) (hlive : list'.heap.live ⊆ list.heap.live)
    (hnext : list'.heap.next = list.heap.next) (hlimit : list'.heap.limit = list.heap.limit)
    (hhead : ∀ ptr ∈ list'.head, ptr < list.heap.next) : list'.WellFormed where
  limit_pos := hlimit ▸ h.limit_pos
  live_lt := by
    intro block hblock
    rw [hnext]
    exact h.live_lt block (hlive hblock)
  cell := by
    rw [hnext, hcells]
    exact h.cell
  blank := by
    rw [hnext, hcells]
    exact h.blank
  descending := by
    rw [next_congr hcells]
    exact h.descending
  head_lt := by
    rw [hnext]
    exact hhead

theorem WellFormed.visit (h : list.WellFormed) (ptr : NodePtr) : (list.visit ptr).WellFormed := by
  apply h.congr <;> simp only [ThreadList.visit, BlockHeap.cells_check, BlockHeap.live_check,
    BlockHeap.next_check, BlockHeap.limit_check]
  · exact subset_rfl
  · exact h.head_lt

theorem WellFormed.free (h : list.WellFormed) (ptr : NodePtr) : (list.free ptr).WellFormed := by
  apply h.congr <;> simp only [ThreadList.free, BlockHeap.cells_free, BlockHeap.live_free,
    BlockHeap.next_free, BlockHeap.limit_free]
  · exact Finset.erase_subset _ _
  · exact h.head_lt

theorem WellFormed.cells_eq (h : list.WellFormed) (hlt : ptr < list.heap.next) :
    list.heap.cells ptr = [list.node ptr] := by
  obtain ⟨next, hcell⟩ := h.cell ptr hlt
  rw [node, BlockHeap.load, hcell]
  rfl

theorem WellFormed.tid_eq (h : list.WellFormed) (hlt : ptr < list.heap.next) :
    (list.node ptr).tid = ptr := by
  obtain ⟨next, hcell⟩ := h.cell ptr hlt
  rw [node, BlockHeap.load, hcell]
  rfl

theorem WellFormed.lt_of_onChain (h : list.WellFormed) {start : Option NodePtr}
    (hstart : ∀ ptr ∈ start, ptr < list.heap.next) (hon : OnChain list.next start ptr) :
    ptr < list.heap.next := by
  obtain ⟨first, hfirst, hreaches⟩ := hon
  calc ptr ≤ first := h.descending.le_of_onChain (onChain_some_iff.mpr hreaches)
    _ < list.heap.next := hstart first hfirst

theorem WellFormed.lt_of_next (h : list.WellFormed) {next : NodePtr}
    (hnext : list.next ptr = some next) : ptr < list.heap.next := by
  by_contra hge
  rw [ThreadList.next, node, BlockHeap.load, h.blank ptr (Nat.le_of_not_lt hge)] at hnext
  cases hnext

theorem visit_of_live (h : list.WellFormed) (hlive : ptr ∈ list.heap.live) :
    list.visit ptr = list := by
  have hlt := h.live_lt ptr hlive
  have haccess : list.heap.Accessible ptr 0 1 := ⟨hlive, by rw [h.cells_eq hlt]; rfl⟩
  rw [ThreadList.visit, BlockHeap.check, if_pos haccess]

theorem reports_free_of_live (hlive : ptr ∈ list.heap.live) :
    (list.free ptr).heap.reports = list.heap.reports := by
  rw [ThreadList.free, BlockHeap.free, if_pos hlive]
  rfl

/-! ### Setting a link -/

theorem setNext_of_dead (hdead : ptr ∉ list.heap.live) (link : Option NodePtr) :
    list.setNext ptr link = { list with heap := list.heap.report (.badAccess ptr 0 1) } := by
  rw [setNext, BlockHeap.store, if_neg fun haccess => hdead haccess.1]
  rfl

theorem setNext_of_live (h : list.WellFormed) (hlive : ptr ∈ list.heap.live)
    (link : Option NodePtr) :
    list.setNext ptr link = { list with heap := list.heap.put ptr [⟨ptr, link⟩] } := by
  have hlt := h.live_lt ptr hlive
  have hcells := h.cells_eq hlt
  have haccess : list.heap.Accessible ptr 0 1 := ⟨hlive, by rw [hcells]; rfl⟩
  rw [setNext, BlockHeap.store, List.length_singleton, if_pos haccess, hcells, h.tid_eq hlt]
  rfl

theorem next_update {list' : ThreadList} {tid : Tid} {link : Option NodePtr}
    (hcells : list'.heap.cells = Function.update list.heap.cells ptr [⟨tid, link⟩]) :
    list'.next = Function.update list.next ptr link := by
  funext other
  rw [ThreadList.next, ThreadList.node, BlockHeap.load, hcells]
  by_cases heq : other = ptr
  · subst heq
    simp
  · rw [Function.update_of_ne heq, Function.update_of_ne heq]
    rfl

/-- Writing one node, an old one or the one that has just been allocated. -/
theorem WellFormed.update (h : list.WellFormed) {list' : ThreadList} {link : Option NodePtr}
    (hcells : list'.heap.cells = Function.update list.heap.cells ptr [⟨ptr, link⟩])
    (hnodes : ∀ other, other < list'.heap.next ↔ other < list.heap.next ∨ other = ptr)
    (hlive : list'.heap.WellFormed) (hlimit : list'.heap.limit = list.heap.limit)
    (hlink : ∀ successor ∈ link, successor < ptr)
    (hhead : ∀ first ∈ list'.head, first < list'.heap.next) : list'.WellFormed where
  limit_pos := hlimit ▸ h.limit_pos
  live_lt := hlive
  cell := by
    intro other hother
    rw [hcells]
    by_cases heq : other = ptr
    · subst heq
      exact ⟨link, Function.update_self _ _ _⟩
    · rw [Function.update_of_ne heq]
      exact h.cell other (((hnodes other).mp hother).resolve_right heq)
  blank := by
    intro other hother
    obtain ⟨hold, hne⟩ := not_or.mp fun hor => not_lt_of_ge hother ((hnodes other).mpr hor)
    rw [hcells, Function.update_of_ne hne]
    exact h.blank other (Nat.le_of_not_lt hold)
  descending := by
    rw [next_update hcells]
    exact h.descending.update hlink
  head_lt := hhead

/-! ### Adding -/

/-- What a list is after a thread was put in front. -/
structure Added (tid : Tid) (list list' : ThreadList) : Prop where
  wellFormed : list'.WellFormed
  next_eq : list'.heap.next = list.heap.next + 1
  live_eq : list'.heap.live = insert tid list.heap.live
  onChain_iff : ∀ ptr, OnChain list'.next list'.head ptr ↔
    ptr = tid ∨ OnChain list.next list.head ptr
  reports_eq : list'.heap.reports = list.heap.reports

theorem addThread_false (list : ThreadList) (tid : Tid) : addThread false list tid = none := rfl

theorem addThread_eq (h : list.WellFormed) :
    addThread true list list.heap.next =
      some ⟨some list.heap.next, list.heap.grant [⟨list.heap.next, list.head⟩]⟩ := by
  set fresh := list.heap.next with hfresh
  have halloc : list.heap.alloc true 1 = (some fresh, list.heap.grant (list.heap.fresh 1)) :=
    if_pos ⟨rfl, h.limit_pos⟩
  have haccess : (list.heap.grant (list.heap.fresh 1)).Accessible fresh 0 1 :=
    ⟨Finset.mem_insert_self _ _, by simp [BlockHeap.grant, hfresh]⟩
  have hcells : (list.heap.grant (list.heap.fresh 1)).cells fresh = list.heap.fresh 1 :=
    Function.update_self _ _ _
  simp only [addThread, halloc, BlockHeap.store, List.length_singleton, if_pos haccess, hcells,
    BlockHeap.put, List.take_zero, List.nil_append, Nat.zero_add, Option.some.injEq,
    ThreadList.mk.injEq, true_and]
  rw [List.drop_of_length_le (by simp), List.append_nil]
  simp [BlockHeap.grant, ← hfresh]

theorem addThread_true (h : list.WellFormed) :
    ∃ list', addThread true list list.heap.next = some list' ∧
      Added list.heap.next list list' := by
  set fresh := list.heap.next
  set list' : ThreadList := ⟨some fresh, list.heap.grant [⟨fresh, list.head⟩]⟩
  have hcells : list'.heap.cells = Function.update list.heap.cells fresh [⟨fresh, list.head⟩] := rfl
  have hgrant := BlockHeap.becomes_grant h.live_lt [⟨fresh, list.head⟩]
  refine ⟨list', addThread_eq h, ?_, rfl, rfl, fun ptr => ?_, rfl⟩
  · refine h.update hcells (fun other => Nat.lt_succ_iff_lt_or_eq) hgrant.wellFormed rfl
      h.head_lt fun first hfirst => ?_
    obtain rfl := Option.some.inj hfirst
    exact Nat.lt_succ_self _
  · have hold : ∀ ptr, OnChain list.next list.head ptr → ptr ≠ fresh := fun ptr hon =>
      (h.lt_of_onChain h.head_lt hon).ne
    change OnChain list'.next (some fresh) ptr ↔ _
    rw [onChain_cons_iff, next_update hcells, Function.update_self]
    exact or_congr_right ⟨fun hon => onChain_of_update hon hold, fun hon => hon.update hold _⟩

/-! ### Removing -/

/-- What a list is after a thread was removed from it. -/
structure Removed (tid : Tid) (list list' : ThreadList) : Prop where
  wellFormed : list'.WellFormed
  next_eq : list'.heap.next = list.heap.next
  live_of_ne : ∀ ptr ≠ tid, (ptr ∈ list'.heap.live ↔ ptr ∈ list.heap.live)
  live_self : tid ∈ list'.heap.live ↔ tid ∈ list.heap.live ∧ ¬ OnChain list.next list.head tid
  keeps : ∀ start, ∀ ptr ≠ tid, OnChain list.next start ptr → OnChain list'.next start ptr
  keeps_head : ∀ ptr ≠ tid, OnChain list.next list.head ptr → OnChain list'.next list'.head ptr
  head_of_ne : list.head ≠ some tid → list'.head = list.head
  clean : (∀ ptr, OnChain list.next list.head ptr → ptr ∈ list.heap.live) →
    list'.heap.reports = list.heap.reports ∧
      ∀ ptr, OnChain list'.next list'.head ptr → OnChain list.next list.head ptr ∧ ptr ≠ tid

variable {tid : Tid}

theorem removed_absent (h : list.WellFormed) (habsent : ¬ OnChain list.next list.head tid) :
    Removed tid list list where
  wellFormed := h
  next_eq := rfl
  live_of_ne := fun _ _ => Iff.rfl
  live_self := (and_iff_left habsent).symm
  keeps := fun _ _ _ hon => hon
  keeps_head := fun _ _ hon => hon
  head_of_ne := fun _ => rfl
  clean := fun _ => ⟨rfl, fun _ hon => ⟨hon, fun heq => habsent (heq ▸ hon)⟩⟩

/-- Removing is leading the chain around the node, then freeing it. -/
theorem removed_free {linked : ThreadList} (hwf : linked.WellFormed)
    (hnodes : linked.heap.next = list.heap.next) (hlive : linked.heap.live = list.heap.live)
    (hon : OnChain list.next list.head tid)
    (hkeeps : ∀ start, ∀ ptr ≠ tid, OnChain list.next start ptr → OnChain linked.next start ptr)
    (hkeeps_head : ∀ ptr ≠ tid, OnChain list.next list.head ptr →
      OnChain linked.next linked.head ptr)
    (hhead : list.head ≠ some tid → linked.head = list.head)
    (hclean : (∀ ptr, OnChain list.next list.head ptr → ptr ∈ list.heap.live) →
      linked.heap.reports = list.heap.reports ∧
        ∀ ptr, OnChain linked.next linked.head ptr → OnChain list.next list.head ptr ∧ ptr ≠ tid) :
    Removed tid list (linked.free tid) where
  wellFormed := hwf.free tid
  next_eq := (BlockHeap.next_free _ _).trans hnodes
  live_of_ne := by
    intro ptr hne
    rw [free, BlockHeap.live_free, hlive, Finset.mem_erase]
    exact and_iff_right hne
  live_self := by
    rw [free, BlockHeap.live_free]
    exact iff_of_false (Finset.notMem_erase _ _) fun hgone => hgone.2 hon
  keeps := by
    rw [next_free]
    exact hkeeps
  keeps_head := by
    rw [next_free, head_free]
    exact hkeeps_head
  head_of_ne := hhead
  clean := by
    intro hall
    obtain ⟨hreports, hchain⟩ := hclean hall
    rw [next_free, head_free, reports_free_of_live (hlive ▸ hall tid hon)]
    exact ⟨hreports, hchain⟩

theorem removed_first (h : list.WellFormed) (hhead : list.head = some tid) :
    Removed tid list ({ list with head := list.next tid }.free tid) := by
  have hlt : tid < list.heap.next := h.head_lt tid hhead
  have hwf : ThreadList.WellFormed { list with head := list.next tid } :=
    h.congr rfl subset_rfl rfl rfl fun ptr hptr => (h.descending tid ptr hptr).trans hlt
  have hon : OnChain list.next list.head tid := by
    rw [hhead]
    exact onChain_self _ _
  refine removed_free hwf rfl rfl hon (fun _ _ _ hptr => hptr) (fun ptr hne hptr => ?_)
    (fun hne => absurd hhead hne) fun _ => ⟨rfl, fun ptr hptr => ?_⟩
  · rw [hhead] at hptr
    exact (onChain_cons_iff.mp hptr).resolve_left hne
  · exact ⟨hon.trans hptr, (h.descending.lt_of_onChain_next hptr).ne⟩

theorem removed_inner (h : list.WellFormed) {prev : NodePtr}
    (hprev : OnChain list.next list.head prev) (hlink : list.next prev = some tid) :
    Removed tid list ((list.setNext prev (list.next tid)).free tid) := by
  have hdesc := h.descending
  have hlt : tid < prev := hdesc prev tid hlink
  have hon : OnChain list.next list.head tid :=
    hprev.trans (by rw [hlink]; exact onChain_self _ _)
  by_cases hlive : prev ∈ list.heap.live
  · rw [setNext_of_live h hlive]
    set linked : ThreadList := { list with heap := list.heap.put prev [⟨prev, list.next tid⟩] }
    have hcells : linked.heap.cells =
        Function.update list.heap.cells prev [⟨prev, list.next tid⟩] := rfl
    have hnext : linked.next = unlink list.next prev tid := next_update hcells
    have hold : ∀ other, other < list.heap.next ↔ other < list.heap.next ∨ other = prev :=
      fun other => (or_iff_left_of_imp fun heq => heq ▸ h.lt_of_next hlink).symm
    have hwf : linked.WellFormed := h.update hcells hold h.live_lt rfl
      (fun successor hsuccessor => (hdesc tid successor hsuccessor).trans hlt) h.head_lt
    have hkeeps : ∀ start, ∀ ptr ≠ tid, OnChain list.next start ptr →
        OnChain linked.next start ptr := by
      intro start ptr hne hptr
      rw [hnext]
      exact hdesc.onChain_unlink hlink hne hptr
    refine removed_free hwf rfl rfl hon hkeeps (hkeeps list.head) (fun _ => rfl) fun _ =>
      ⟨rfl, fun ptr hptr => ?_⟩
    rw [hnext] at hptr
    refine ⟨onChain_of_unlink hlink hptr, ?_⟩
    rintro rfl
    exact hdesc.not_onChain_unlink hlink hprev hptr
  · rw [setNext_of_dead hlive]
    have hwf : ThreadList.WellFormed { list with
        heap := list.heap.report (.badAccess prev 0 1) } :=
      h.congr rfl subset_rfl rfl rfl h.head_lt
    exact removed_free hwf rfl rfl hon (fun _ _ _ hptr => hptr) (fun _ _ hptr => hptr)
      (fun _ => rfl) fun hclean => absurd (hclean prev hprev) hlive

/-- Looking at a node of the chain first makes no difference. -/
theorem Removed.of_visit (h : list.WellFormed) {ptr : NodePtr}
    (hon : OnChain list.next list.head ptr) {list' : ThreadList}
    (hremoved : Removed tid (list.visit ptr) list') : Removed tid list list' := by
  have hlive : (list.visit ptr).heap.live = list.heap.live := BlockHeap.live_check _ _ _ _
  obtain ⟨hwf, hnext, hof_ne, hself, hkeeps, hkeeps_head, hhead, hclean⟩ := hremoved
  simp only [next_visit, head_visit, hlive] at hof_ne hself hkeeps hkeeps_head hhead hclean
  refine ⟨hwf, hnext.trans (BlockHeap.next_check _ _ _ _), hof_ne, hself, hkeeps, hkeeps_head,
    hhead, fun hall => ?_⟩
  have hclean' := hclean hall
  rw [visit_of_live h (hall ptr hon)] at hclean'
  exact hclean'

section Turns

variable {current : NodePtr} (fuel : Nat)

theorem removeLoop_first (htid : (list.node current).tid = tid) :
    removeLoop tid (fuel + 1) none (some current) list =
      { list.visit current with head := (list.visit current).next current }.free current :=
  if_pos (by rw [node_visit]; exact htid)

theorem removeLoop_inner (htid : (list.node current).tid = tid) (prev : NodePtr) :
    removeLoop tid (fuel + 1) (some prev) (some current) list =
      ((list.visit current).setNext prev ((list.visit current).next current)).free current :=
  if_pos (by rw [node_visit]; exact htid)

theorem removeLoop_other (hne : (list.node current).tid ≠ tid) (prev : Option NodePtr) :
    removeLoop tid (fuel + 1) prev (some current) list =
      removeLoop tid fuel (some current) ((list.visit current).next current) (list.visit current) :=
  if_neg (by rw [node_visit]; exact hne)

end Turns

/-- The loop has passed only nodes of other threads. -/
theorem removeLoop_removed {fuel : Nat} {prev current : Option NodePtr} (h : list.WellFormed)
    (hfuel : ∀ ptr ∈ current, ptr < fuel)
    (hplace : match prev with
      | none => current = list.head
      | some prev => OnChain list.next list.head prev ∧ list.next prev = current)
    (hpassed : OnChain list.next list.head tid → OnChain list.next current tid) :
    Removed tid list (removeLoop tid fuel prev current list) := by
  induction fuel generalizing prev current list with
  | zero =>
      refine removed_absent h fun hon => ?_
      obtain ⟨first, hfirst, -⟩ := hpassed hon
      exact absurd (hfuel first hfirst) (Nat.not_lt_zero first)
  | succ fuel ih =>
      cases current with
      | none => exact removed_absent h fun hon => not_onChain_none _ _ (hpassed hon)
      | some ptr =>
          have hon : OnChain list.next list.head ptr := by
            cases prev with
            | none =>
                rw [← hplace]
                exact onChain_self _ _
            | some prev =>
                refine hplace.1.trans ?_
                rw [hplace.2]
                exact onChain_self _ _
          have htid := h.tid_eq (h.lt_of_onChain h.head_lt hon)
          apply Removed.of_visit h hon
          by_cases heq : ptr = tid
          · subst heq
            cases prev with
            | none =>
                rw [removeLoop_first fuel htid]
                exact removed_first (h.visit ptr) hplace.symm
            | some prev =>
                rw [removeLoop_inner fuel htid]
                apply removed_inner (h.visit ptr)
                · rw [next_visit]
                  exact hplace.1
                · rw [next_visit]
                  exact hplace.2
          · rw [removeLoop_other fuel (by rw [htid]; exact heq)]
            apply ih (h.visit ptr)
            · intro successor hsuccessor
              rw [next_visit] at hsuccessor
              calc successor < ptr := h.descending ptr successor hsuccessor
                _ ≤ fuel := Nat.lt_succ_iff.mp (hfuel ptr rfl)
            · rw [next_visit, head_visit]
              exact ⟨hon, rfl⟩
            · rw [next_visit, head_visit]
              intro htid'
              exact (onChain_cons_iff.mp (hpassed htid')).resolve_left (Ne.symm heq)

theorem removeThread_removed (h : list.WellFormed) (tid : Tid) :
    Removed tid list (removeThread list tid) :=
  removeLoop_removed h (fun ptr hptr => Nat.lt_succ_of_lt (h.head_lt ptr hptr)) rfl id

/-! What goes wrong in the loop has been reported in the end. -/

theorem reports_grow_turn {fuel : Nat}
    (hrest : ∀ prev current (list' : ThreadList),
      list'.heap.reports <+: (removeLoop tid fuel prev current list').heap.reports)
    (prev : Option NodePtr) (current : NodePtr) :
    (list.visit current).heap.reports <+:
      (removeLoop tid (fuel + 1) prev (some current) list).heap.reports := by
  by_cases htid : (list.node current).tid = tid
  · cases prev with
    | none =>
        rw [removeLoop_first fuel htid]
        exact BlockHeap.reports_grow_free _ current
    | some prev =>
        rw [removeLoop_inner fuel htid]
        exact (BlockHeap.reports_grow_store _ prev 0 _).trans
          (BlockHeap.reports_grow_free _ current)
  · rw [removeLoop_other fuel htid]
    exact hrest _ _ _

theorem reports_grow_removeLoop (fuel : Nat) (prev current : Option NodePtr)
    (list : ThreadList) :
    list.heap.reports <+: (removeLoop tid fuel prev current list).heap.reports := by
  induction fuel generalizing prev current list with
  | zero => exact List.prefix_rfl
  | succ fuel ih =>
      cases current with
      | none => exact List.prefix_rfl
      | some ptr =>
          exact (BlockHeap.reports_grow_check _ ptr 0 1).trans (reports_grow_turn ih prev ptr)

theorem reports_removeThread_of_dead (hhead : list.head = some ptr)
    (hdead : ptr ∉ list.heap.live) (tid : Tid) :
    (removeThread list tid).heap.reports ≠ [] := by
  have hprefix : (list.visit ptr).heap.reports <+: (removeThread list tid).heap.reports := by
    rw [removeThread, hhead]
    exact reports_grow_turn (reports_grow_removeLoop list.heap.next) none ptr
  exact hprefix.ne_nil (BlockHeap.reports_check_of_dead list.heap ptr 0 1 hdead)

end ThreadList

end AesdChar
