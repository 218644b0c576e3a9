import Mathlib

/-!
# A heap of blocks with an address checker

Blocks are numbered, and a number is never handed out twice, so a pointer kept after its block was
freed can be told from a pointer to a later block. A block's allocated size is the length of its
contents. Every access is checked the way an address sanitizer checks it: a free, a load or a store
that does not hit a live block within its size leaves a report behind and does nothing else. A run
is memory safe when it ends without reports.
-/

namespace AesdChar.Lib

inductive HeapReport where
  | deadFree (block : Nat)
  | badAccess (block offset length : Nat)
  | nullAccess (offset length : Nat)
  deriving DecidableEq, Repr

structure BlockHeap (α : Type) where
  live : Finset Nat
  cells : Nat → List α
  next : Nat
  /-- What fresh memory happens to contain. -/
  junk : Nat → α
  /-- The largest block the allocator can hand out. -/
  limit : Nat
  reports : List HeapReport

inductive ReallocOutcome where
  | fail
  | inPlace
  | moved
  deriving DecidableEq, Repr

namespace BlockHeap

variable {α : Type}

def empty (junk : Nat → α) (limit : Nat) : BlockHeap α :=
  { live := ∅, cells := fun _ => [], next := 0, junk := junk, limit := limit, reports := [] }

/-! ### Elementary updates -/

def fresh (heap : BlockHeap α) (size : Nat) : List α := (List.range size).map heap.junk

def grant (heap : BlockHeap α) (contents : List α) : BlockHeap α :=
  { heap with
    live := insert heap.next heap.live
    cells := Function.update heap.cells heap.next contents
    next := heap.next + 1 }

def put (heap : BlockHeap α) (block : Nat) (contents : List α) : BlockHeap α :=
  { heap with cells := Function.update heap.cells block contents }

def release (heap : BlockHeap α) (block : Nat) : BlockHeap α :=
  { heap with live := heap.live.erase block }

def report (heap : BlockHeap α) (entry : HeapReport) : BlockHeap α :=
  { heap with reports := heap.reports ++ [entry] }

/-! ### The allocator's interface -/

/-- `ok` is the environment's choice; a request above the limit fails whatever it says. -/
def alloc (heap : BlockHeap α) (ok : Bool) (size : Nat) : Option Nat × BlockHeap α :=
  if ok ∧ size ≤ heap.limit then (some heap.next, heap.grant (heap.fresh size)) else (none, heap)

def free (heap : BlockHeap α) (block : Nat) : BlockHeap α :=
  if block ∈ heap.live then heap.release block else heap.report (.deadFree block)

def resized (heap : BlockHeap α) (block size : Nat) : List α :=
  (heap.cells block).take size ++ heap.fresh (size - (heap.cells block).length)

/-- Without an old block this is an allocation. A failed call leaves the old block alone. -/
def realloc (heap : BlockHeap α) (outcome : ReallocOutcome) (old : Option Nat) (size : Nat) :
    Option Nat × BlockHeap α :=
  match old with
  | none => heap.alloc (outcome ≠ .fail) size
  | some block =>
      if block ∉ heap.live then (none, heap.report (.badAccess block 0 size))
      else if size ≤ heap.limit then
        match outcome with
        | .fail => (none, heap)
        | .inPlace => (some block, heap.put block (heap.resized block size))
        | .moved => (some heap.next, (heap.grant (heap.resized block size)).release block)
      else (none, heap)

def Accessible (heap : BlockHeap α) (block offset length : Nat) : Prop :=
  block ∈ heap.live ∧ offset + length ≤ (heap.cells block).length

instance (heap : BlockHeap α) (block offset length : Nat) :
    Decidable (heap.Accessible block offset length) :=
  inferInstanceAs (Decidable (_ ∧ _))

def check (heap : BlockHeap α) (block offset length : Nat) : BlockHeap α :=
  if heap.Accessible block offset length then heap
  else heap.report (.badAccess block offset length)

def load (heap : BlockHeap α) (block offset length : Nat) : List α :=
  ((heap.cells block).drop offset).take length

def store (heap : BlockHeap α) (block offset : Nat) (data : List α) : BlockHeap α :=
  if heap.Accessible block offset data.length then
    heap.put block ((heap.cells block).take offset ++ data
      ++ (heap.cells block).drop (offset + data.length))
  else heap.report (.badAccess block offset data.length)

/-! ### What a heap looks like from outside

A client of the heap sees which blocks are live and what they contain. Each operation is specified
by what it does to that view; `Becomes` adds the bookkeeping that every successful operation
keeps. -/

def view (heap : BlockHeap α) (block : Nat) : Option (List α) :=
  if block ∈ heap.live then some (heap.cells block) else none

/-- The view with a block gone, or unchanged when there is none to remove. -/
def without (view : Nat → Option (List α)) : Option Nat → Nat → Option (List α)
  | none => view
  | some block => Function.update view block none

def WellFormed (heap : BlockHeap α) : Prop := ∀ block ∈ heap.live, block < heap.next

structure Becomes (heap heap' : BlockHeap α) (view' : Nat → Option (List α)) : Prop where
  view_eq : heap'.view = view'
  wellFormed : heap'.WellFormed
  limit_eq : heap'.limit = heap.limit
  reports_eq : heap'.reports = heap.reports

theorem without_of_ne {view : Nat → Option (List α)} {gone : Option Nat} {block : Nat}
    (hne : gone ≠ some block) : without view gone block = view block := by
  cases gone with
  | none => rfl
  | some other => exact Function.update_of_ne (fun heq => hne (by rw [heq])) _ _

theorem without_update {view : Nat → Option (List α)} {gone : Option Nat} {block : Nat}
    (hne : gone ≠ some block) (value : Option (List α)) :
    without (Function.update view block value) gone =
      Function.update (without view gone) block value := by
  cases gone with
  | none => rfl
  | some other => exact Function.update_comm (fun heq => hne (by rw [heq])) _ _ _

theorem view_empty (junk : Nat → α) (limit : Nat) : (empty junk limit).view = fun _ => none := by
  funext block
  simp [view, empty]

theorem wellFormed_empty (junk : Nat → α) (limit : Nat) : (empty junk limit).WellFormed := by
  intro block hblock
  simp [empty] at hblock

theorem mem_live_iff {heap : BlockHeap α} {block : Nat} :
    block ∈ heap.live ↔ heap.view block ≠ none := by
  by_cases hlive : block ∈ heap.live <;> simp [view, hlive]

theorem view_eq_some_iff {heap : BlockHeap α} {block : Nat} {contents : List α} :
    heap.view block = some contents ↔ block ∈ heap.live ∧ heap.cells block = contents := by
  by_cases hlive : block ∈ heap.live <;> simp [view, hlive]

theorem view_next {heap : BlockHeap α} (hwf : heap.WellFormed) : heap.view heap.next = none := by
  have hnot : heap.next ∉ heap.live := fun hmem => Nat.lt_irrefl _ (hwf _ hmem)
  simp [view, hnot]

theorem Becomes.refl {heap : BlockHeap α} (hwf : heap.WellFormed) :
    heap.Becomes heap heap.view := ⟨rfl, hwf, rfl, rfl⟩

theorem Becomes.trans {heap heap' heap'' : BlockHeap α} {view' view'' : Nat → Option (List α)}
    (h : heap.Becomes heap' view') (h' : heap'.Becomes heap'' view'') :
    heap.Becomes heap'' view'' :=
  ⟨h'.view_eq, h'.wellFormed, h'.limit_eq.trans h.limit_eq, h'.reports_eq.trans h.reports_eq⟩

theorem Becomes.congr {heap heap' : BlockHeap α} {view' view'' : Nat → Option (List α)}
    (h : heap.Becomes heap' view') (heq : view' = view'') : heap.Becomes heap' view'' := heq ▸ h

section Fields

variable (heap : BlockHeap α) (block offset length : Nat)

@[simp] theorem cells_check : (heap.check block offset length).cells = heap.cells := by
  unfold check
  split <;> rfl

@[simp] theorem live_check : (heap.check block offset length).live = heap.live := by
  unfold check
  split <;> rfl

@[simp] theorem next_check : (heap.check block offset length).next = heap.next := by
  unfold check
  split <;> rfl

@[simp] theorem limit_check : (heap.check block offset length).limit = heap.limit := by
  unfold check
  split <;> rfl

@[simp] theorem cells_free : (heap.free block).cells = heap.cells := by
  unfold free
  split <;> rfl

@[simp] theorem live_free : (heap.free block).live = heap.live.erase block := by
  unfold free
  split
  · rfl
  · rename_i hdead
    exact (Finset.erase_eq_of_notMem hdead).symm

@[simp] theorem next_free : (heap.free block).next = heap.next := by
  unfold free
  split <;> rfl

@[simp] theorem limit_free : (heap.free block).limit = heap.limit := by
  unfold free
  split <;> rfl

@[simp] theorem live_store (data : List α) :
    (heap.store block offset data).live = heap.live := by
  unfold store
  split <;> rfl

@[simp] theorem next_store (data : List α) :
    (heap.store block offset data).next = heap.next := by
  unfold store
  split <;> rfl

/-! Reports are never taken back. -/

theorem reports_grow_check : heap.reports <+: (heap.check block offset length).reports := by
  unfold check
  split
  · exact List.prefix_rfl
  · exact List.prefix_append _ _

theorem reports_grow_free : heap.reports <+: (heap.free block).reports := by
  unfold free
  split
  · exact List.prefix_rfl
  · exact List.prefix_append _ _

theorem reports_grow_store (data : List α) :
    heap.reports <+: (heap.store block offset data).reports := by
  unfold store
  split
  · exact List.prefix_rfl
  · exact List.prefix_append _ _

theorem reports_check_of_dead (hdead : block ∉ heap.live) :
    (heap.check block offset length).reports ≠ [] := by
  rw [check, if_neg fun haccess => hdead haccess.1]
  exact List.append_ne_nil_of_right_ne_nil _ (List.cons_ne_nil _ _)

end Fields

@[simp] theorem length_fresh (heap : BlockHeap α) (size : Nat) :
    (heap.fresh size).length = size := by simp [fresh]

section Operations

variable {heap : BlockHeap α} {block size : Nat} {contents : List α}

theorem becomes_grant (hwf : heap.WellFormed) (contents : List α) :
    heap.Becomes (heap.grant contents)
      (Function.update heap.view heap.next (some contents)) := by
  refine ⟨?_, ?_, rfl, rfl⟩
  · funext other
    by_cases heq : other = heap.next <;> simp [view, grant, heq]
  · intro other hother
    rcases Finset.mem_insert.mp hother with rfl | hold
    · exact Nat.lt_succ_self _
    · exact Nat.lt_succ_of_lt (hwf other hold)

theorem becomes_put (hwf : heap.WellFormed) (hlive : block ∈ heap.live) (contents : List α) :
    heap.Becomes (heap.put block contents)
      (Function.update heap.view block (some contents)) := by
  refine ⟨?_, hwf, rfl, rfl⟩
  funext other
  by_cases heq : other = block
  · subst heq
    simp [view, put, hlive]
  · simp [view, put, heq]

theorem becomes_release (hwf : heap.WellFormed) (block : Nat) :
    heap.Becomes (heap.release block) (Function.update heap.view block none) := by
  refine ⟨?_, fun other hother => hwf other (Finset.mem_of_mem_erase hother), rfl, rfl⟩
  funext other
  by_cases heq : other = block <;> simp [view, release, heq]

theorem becomes_free (hwf : heap.WellFormed) (hview : heap.view block = some contents) :
    heap.Becomes (heap.free block) (Function.update heap.view block none) := by
  rw [free, if_pos (view_eq_some_iff.mp hview).1]
  exact becomes_release hwf block

theorem becomes_foldl_free {heap : BlockHeap α} (hwf : heap.WellFormed) {blocks : List Nat}
    (hnodup : blocks.Nodup) (hlive : ∀ block ∈ blocks, heap.view block ≠ none) :
    heap.Becomes (blocks.foldl free heap)
      (fun block => if block ∈ blocks then none else heap.view block) := by
  induction blocks generalizing heap with
  | nil => simpa using Becomes.refl hwf
  | cons block blocks ih =>
      obtain ⟨hnotMem, hnodup⟩ := List.nodup_cons.mp hnodup
      obtain ⟨hhead, htail⟩ := List.forall_mem_cons.mp hlive
      obtain ⟨contents, hview⟩ := Option.ne_none_iff_exists'.mp hhead
      have hfree := becomes_free hwf hview
      have hstill : ∀ other ∈ blocks, (heap.free block).view other ≠ none := by
        intro other hother
        have hne : other ≠ block := fun heq => hnotMem (heq ▸ hother)
        rw [hfree.view_eq, Function.update_of_ne hne]
        exact htail other hother
      have hrest := ih hfree.wellFormed hnodup hstill
      apply (hfree.trans hrest).congr
      funext other
      rw [hfree.view_eq]
      by_cases heq : other = block
      · simp [heq]
      · simp [heq]

theorem alloc_of_refused {ok : Bool} (hrefused : ¬(ok = true ∧ size ≤ heap.limit)) :
    heap.alloc ok size = (none, heap) := if_neg hrefused

theorem alloc_of_served {ok : Bool} (hwf : heap.WellFormed)
    (hserved : ok = true ∧ size ≤ heap.limit) :
    ∃ heap', heap.alloc ok size = (some heap.next, heap') ∧ heap.Becomes heap'
      (Function.update heap.view heap.next (some (heap.fresh size))) :=
  ⟨_, if_pos hserved, becomes_grant hwf _⟩

theorem realloc_of_refused {outcome : ReallocOutcome} {old : Option Nat}
    (hold : ∀ block ∈ old, block ∈ heap.live)
    (hrefused : ¬(outcome ≠ .fail ∧ size ≤ heap.limit)) :
    heap.realloc outcome old size = (none, heap) := by
  cases old with
  | none => exact alloc_of_refused (by simpa using hrefused)
  | some block =>
      have hlive := hold block rfl
      by_cases hsize : size ≤ heap.limit
      · have hfail : outcome = .fail := by simpa [hsize] using hrefused
        simp [realloc, hlive, hsize, hfail]
      · simp [realloc, hlive, hsize]

/-- **Growing a block.** The result keeps the old contents in front; it is the old block or one that
was not live, and the old block is gone unless it is the result. -/
theorem realloc_of_served {outcome : ReallocOutcome} (hwf : heap.WellFormed)
    (hview : heap.view block = some contents) (hgrow : contents.length ≤ size)
    (hserved : outcome ≠ .fail ∧ size ≤ heap.limit) :
    ∃ result heap' slack, heap.realloc outcome (some block) size = (some result, heap') ∧
      (result = block ∨ heap.view result = none) ∧
      (contents ++ slack).length = size ∧
      heap.Becomes heap' (Function.update (Function.update heap.view block none) result
        (some (contents ++ slack))) := by
  obtain ⟨hlive, hcells⟩ := view_eq_some_iff.mp hview
  have hresized : heap.resized block size = contents ++ heap.fresh (size - contents.length) := by
    rw [resized, hcells, List.take_of_length_le hgrow]
  have hlength : (contents ++ heap.fresh (size - contents.length)).length = size := by
    simp only [List.length_append, length_fresh]
    omega
  cases outcome with
  | fail => exact absurd rfl hserved.1
  | inPlace =>
      refine ⟨block, heap.put block (heap.resized block size), _,
        by simp [realloc, hlive, hserved.2], Or.inl rfl, hlength, ?_⟩
      rw [hresized]
      exact (becomes_put hwf hlive _).congr (by rw [Function.update_idem])
  | moved =>
      have hne : block ≠ heap.next := Nat.ne_of_lt (hwf block hlive)
      refine ⟨heap.next, (heap.grant (heap.resized block size)).release block, _,
        by simp [realloc, hlive, hserved.2], Or.inr (view_next hwf), hlength, ?_⟩
      have hgrant := becomes_grant hwf (heap.resized block size)
      apply (hgrant.trans (becomes_release hgrant.wellFormed block)).congr
      rw [hgrant.view_eq, hresized, Function.update_comm hne.symm]

theorem check_of_view (hview : heap.view block = some contents) {offset length : Nat}
    (hbound : offset + length ≤ contents.length) : heap.check block offset length = heap := by
  obtain ⟨hlive, hcells⟩ := view_eq_some_iff.mp hview
  exact if_pos ⟨hlive, by rw [hcells]; exact hbound⟩

theorem load_of_view (hview : heap.view block = some contents) (offset length : Nat) :
    heap.load block offset length = (contents.drop offset).take length := by
  rw [load, (view_eq_some_iff.mp hview).2]

theorem becomes_store (hwf : heap.WellFormed) (hview : heap.view block = some contents)
    {offset : Nat} {data : List α} (hbound : offset + data.length ≤ contents.length) :
    heap.Becomes (heap.store block offset data) (Function.update heap.view block
      (some (contents.take offset ++ data ++ contents.drop (offset + data.length)))) := by
  obtain ⟨hlive, hcells⟩ := view_eq_some_iff.mp hview
  rw [store, if_pos ⟨hlive, by rw [hcells]; exact hbound⟩, hcells]
  exact becomes_put hwf hlive _

end Operations

end BlockHeap

end AesdChar.Lib
