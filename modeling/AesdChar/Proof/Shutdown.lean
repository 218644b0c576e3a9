import AesdChar.Proof.AccessSteps

/-!
# Shutdown

When the process ends, no client should still be in the middle of being served. There are two ways
out of `main`'s loop, and only one of them waits: a signal that finds `main` in `accept` cuts off
whoever is being served. The way that waits relies on the list. A client being served stays in reach
of `main` through all that other threads do to the list at the same time, as long as nobody goes on
from a freed node and nobody stores to `head` what the rest of the list was before `main` put the
client in front of it. Once `main` has left its loop and nobody is being served any more, nothing
can go wrong for a client.
-/

namespace AesdChar

open Lib

namespace Execution

variable {execution execution' : Execution} {access : Access}

/-- The process has ended with a client still being served. -/
def CutOff (execution : Execution) : Prop :=
  execution.ended = true ∧ ∃ tid, execution.thread tid = .serving

/-- No call fails in the step, unless by a signal. -/
def Succeeds : Access → Prop
  | .signal _ => True
  | .main ok _ => ok = true
  | .thread _ ok _ => ok = true

/-- `main` is blocked in `accept` and handles a signal there while a client is being served. -/
def Interrupts (execution : Execution) (access : Access) : Prop :=
  execution.ended = false ∧ execution.main = .accepting ∧ access = .signal true ∧
    ∃ tid, execution.thread tid = .serving

/-- The node that the step goes to. -/
def target (execution : Execution) : Access → Option NodePtr
  | .signal _ => none
  | .main _ _ => execution.main.target
  | .thread tid _ _ => (execution.thread tid).target

def UsesFreed (execution : Execution) (access : Access) : Prop :=
  execution.ended = false ∧ ∃ ptr ∈ execution.target access, ptr ∉ execution.memory.live

/-- How many threads have been put on the list. -/
def published (execution : Execution) : Nat :=
  match execution.main with
  | .created tid => tid
  | .linking newNode => newNode
  | .publishing newNode => newNode
  | _ => execution.created

/-- A thread that has found its node in front stores the rest of the list to `head`, but a newer
thread has been put in front of it since, and that one's client is being served. -/
def Overwrites (execution : Execution) (access : Access) : Prop :=
  execution.ended = false ∧ ∃ tid ok wild current next, access = .thread tid ok wild ∧
    execution.thread tid = .storing none current next ∧
      ∃ newer, execution.thread newer = .serving ∧ tid < newer ∧ newer < execution.published

/-- `main` takes no clients any more, and none is being served. -/
def Settled (execution : Execution) : Prop :=
  execution.main.HasLeft ∧ ∀ tid, execution.thread tid ≠ .serving

def Harmless (execution : Execution) (access : Access) : Prop :=
  ¬ execution.Interrupts access ∧
    (execution.Settled ∨ (¬ execution.UsesFreed access ∧ ¬ execution.Overwrites access))

/-! ### When nobody is being served any more -/

theorem serving_of_setThread {tid other : Tid} {point : ThreadPoint} (hpoint : point ≠ .serving)
    (hserving : (execution.setThread tid point).thread other = .serving) :
    execution.thread other = .serving := by
  unfold setThread at hserving
  by_cases heq : other = tid
  · subst heq
    simp only [Function.update_self] at hserving
    exact absurd hserving hpoint
  · simpa only [Function.update_of_ne heq] using hserving

theorem serving_of_moves (hmoves : Moves execution access execution') {tid : Tid}
    (hserving : execution'.thread tid = .serving) : execution.thread tid = .serving ∨
      (execution.main = .accepted ∧ execution'.main = .created tid) := by
  cases hmoves with
  | creates wild hmain =>
      by_cases heq : tid = execution.created
      · exact Or.inr ⟨hmain, congrArg MainPoint.created heq.symm⟩
      · exact Or.inl ((Function.update_of_ne heq _ _).symm.trans hserving)
  | thread other ok wild memory point hthread =>
      have hthread' : (execution.setThread other point).thread tid = .serving := hserving
      exact Or.inl (serving_of_setThread hthread.ne_serving hthread')
  | _ => exact Or.inl hserving

theorem hasLeft_of_moves (hleft : execution.main.HasLeft)
    (hmoves : Moves execution access execution') : execution'.main.HasLeft := by
  cases hmoves with
  | interrupted hmain | tests _ _ hmain | leaves _ _ hmain | accepts _ hmain | refuses _ hmain
  | creates _ hmain | cannotCreate _ hmain | allocates _ _ hmain | links _ _ _ hmain
  | publishes _ _ _ hmain =>
      rw [hmain] at hleft
      exact hleft.elim
  | enters | resets | waits | joins | steps | frees => trivial
  | stays | signalled | cannotAllocate | ends | thread | fails => exact hleft

theorem Settled.moves (h : execution.Settled) (hmoves : Moves execution access execution') :
    execution'.Settled := by
  refine ⟨hasLeft_of_moves h.1 hmoves, fun tid hserving => ?_⟩
  rcases serving_of_moves hmoves hserving with hold | ⟨hmain, -⟩
  · exact h.2 tid hold
  · have hleft := h.1
    rw [hmain] at hleft
    exact hleft

/-! ### What the list is to the clients -/

/-- The clients being served below the bound are found from `start`. -/
def Covers (execution : Execution) (start : Option NodePtr) (bound : Nat) : Prop :=
  ∀ tid < bound, execution.thread tid = .serving → OnChain execution.memory.link start tid

/-- Threads get their nodes in the order in which they are created, so a thread and its node have
the same number, and links lead to lower nodes. Freed nodes count: others may still stand there. -/
structure Listing (execution : Execution) : Prop where
  tid_eq : ∀ ptr < execution.memory.fresh, (execution.memory.node ptr).tid = ptr
  blank : ∀ ptr, execution.memory.fresh ≤ ptr → execution.memory.link ptr = none
  descending : Descending execution.memory.link
  head_lt : ∀ ptr ∈ execution.memory.head, ptr < execution.published
  head_covers : execution.Covers execution.memory.head execution.published
  link_covers : ∀ ptr < execution.published, execution.Covers (execution.memory.link ptr) ptr

/-- `current` came behind `prev`, and no client being served comes between them. -/
def Follows (execution : Execution) (prev current : Option NodePtr) : Prop :=
  (∀ ptr ∈ current, ptr < execution.published) ∧
    ∀ before ∈ prev, before < execution.published ∧ (∀ ptr ∈ current, ptr < before) ∧
      ∀ tid < before, execution.thread tid = .serving → ∃ ptr ∈ current, tid ≤ ptr

/-- What a thread knows of the list where it is. -/
def Placed (execution : Execution) (tid : Tid) : ThreadPoint → Prop
  | .comparing prev current => execution.Follows prev current
  | .advancing current => current < execution.published
  | .unlinking prev current => execution.Follows prev (some current) ∧ current = tid
  | .storing prev current next => execution.Follows prev (some current) ∧ current = tid ∧
      (∀ ptr ∈ next, ptr < current) ∧ execution.Covers next current
  | _ => True

/-- What `main` knows of the list where it is. -/
def Stands (execution : Execution) : MainPoint → Prop
  | .created tid => execution.created = tid + 1 ∧ execution.memory.fresh = tid
  | .linking newNode =>
      execution.created = newNode + 1 ∧ execution.memory.fresh = newNode + 1
  | .publishing newNode =>
      execution.created = newNode + 1 ∧ execution.memory.fresh = newNode + 1 ∧
        execution.Covers (execution.memory.link newNode) newNode
  | .waiting current | .freeing _ current =>
      execution.memory.fresh = execution.created ∧ (∀ ptr ∈ current, ptr < execution.created) ∧
        execution.Covers current execution.created
  | .joining current tid =>
      execution.memory.fresh = execution.created ∧ current < execution.created ∧ tid = current ∧
        execution.Covers (some current) execution.created
  | .stepping current =>
      execution.memory.fresh = execution.created ∧ current < execution.created ∧
        execution.thread current ≠ .serving ∧ execution.Covers (some current) execution.created
  | _ => execution.memory.fresh = execution.created

/-- Every client being served is in reach, and `main` is not about to end the process. -/
structure Attends (execution : Execution) : Prop where
  listing : execution.Listing
  main : execution.Stands execution.main
  threads : ∀ tid, execution.Placed tid (execution.thread tid)
  born : ∀ tid, execution.thread tid = .serving → tid < execution.created
  stays : ∀ tid, execution.thread tid = .serving →
    execution.main ≠ .acceptFailed ∧ execution.main ≠ .joined ∧ execution.ended = false

theorem attends_init : init.Attends where
  listing :=
    { tid_eq := fun ptr hptr => absurd hptr (Nat.not_lt_zero ptr)
      blank := fun _ _ => rfl
      descending := fun _ _ hsuccessor => by cases hsuccessor
      head_lt := fun _ hptr => by cases hptr
      head_covers := fun tid htid => absurd htid (Nat.not_lt_zero tid)
      link_covers := fun ptr hptr => absurd hptr (Nat.not_lt_zero ptr) }
  main := rfl
  threads := fun _ => trivial
  born := by simp [init]
  stays := by simp [init]

/-! ### What is known stays true -/

/-- Nobody below the new nodes begins to be served, and whoever is being served is found wherever it
was found before. -/
structure Keeps (execution execution' : Execution) : Prop where
  published_le : execution.published ≤ execution'.published
  serving : ∀ tid < execution.published, execution'.thread tid = .serving →
    execution.thread tid = .serving
  onChain : ∀ start tid, execution'.thread tid = .serving →
    OnChain execution.memory.link start tid → OnChain execution'.memory.link start tid

theorem Keeps.of_link (hpublished : execution.published ≤ execution'.published)
    (hserving : ∀ tid < execution.published, execution'.thread tid = .serving →
      execution.thread tid = .serving)
    (hlink : execution'.memory.link = execution.memory.link) : Keeps execution execution' where
  published_le := hpublished
  serving := hserving
  onChain := by
    rw [hlink]
    exact fun _ _ _ hon => hon

theorem Covers.keeps {start : Option NodePtr} {bound : Nat} (h : execution.Covers start bound)
    (hkeeps : Keeps execution execution') (hbound : bound ≤ execution.published) :
    execution'.Covers start bound := by
  intro tid htid hserving
  exact hkeeps.onChain start tid hserving
    (h tid htid (hkeeps.serving tid (htid.trans_le hbound) hserving))

theorem Follows.keeps {prev current : Option NodePtr} (h : execution.Follows prev current)
    (hkeeps : Keeps execution execution') : execution'.Follows prev current := by
  obtain ⟨hcurrent, hprev⟩ := h
  refine ⟨fun ptr hptr => (hcurrent ptr hptr).trans_le hkeeps.published_le, fun before hbefore => ?_⟩
  obtain ⟨hlt, hbelow, hnone⟩ := hprev before hbefore
  exact ⟨hlt.trans_le hkeeps.published_le, hbelow, fun tid htid hserving =>
    hnone tid htid (hkeeps.serving tid (htid.trans hlt) hserving)⟩

theorem Placed.keeps {tid : Tid} {point : ThreadPoint} (h : execution.Placed tid point)
    (hkeeps : Keeps execution execution') : execution'.Placed tid point := by
  cases point with
  | comparing prev current => exact Follows.keeps h hkeeps
  | advancing current => exact lt_of_lt_of_le h hkeeps.published_le
  | unlinking prev current => exact ⟨h.1.keeps hkeeps, h.2⟩
  | storing prev current next =>
      obtain ⟨hfollows, htid, hbelow, hcovers⟩ := h
      exact ⟨hfollows.keeps hkeeps, htid, hbelow, hcovers.keeps hkeeps (hfollows.1 current rfl).le⟩
  | unborn | serving | entering | freeing | removed | exited => trivial

/-- While another thread takes a step, `main` stays where it is. -/
theorem Stands.keeps (h : execution.Stands execution.main) (hkeeps : Keeps execution execution')
    (hcreated : execution'.created = execution.created)
    (hfresh : execution'.memory.fresh = execution.memory.fresh)
    (hlink : ∀ newNode, execution.main = .publishing newNode →
      execution'.memory.link newNode = execution.memory.link newNode) :
    execution'.Stands execution.main := by
  revert h
  cases hmain : execution.main with
  | publishing newNode =>
      rintro ⟨hcount, hnext, hcovers⟩
      refine ⟨hcreated.trans hcount, hfresh.trans hnext, ?_⟩
      rw [hlink newNode hmain]
      exact hcovers.keeps hkeeps (by simp [published, hmain])
  | waiting current | freeing temp current =>
      rintro ⟨hcount, hlt, hcovers⟩
      refine ⟨hfresh.trans (hcount.trans hcreated.symm), by rw [hcreated]; exact hlt, ?_⟩
      rw [hcreated]
      exact hcovers.keeps hkeeps (by simp [published, hmain])
  | joining current tid =>
      rintro ⟨hcount, hlt, htid, hcovers⟩
      refine ⟨hfresh.trans (hcount.trans hcreated.symm), by rw [hcreated]; exact hlt, htid, ?_⟩
      rw [hcreated]
      exact hcovers.keeps hkeeps (by simp [published, hmain])
  | stepping current =>
      rintro ⟨hcount, hlt, hidle, hcovers⟩
      refine ⟨hfresh.trans (hcount.trans hcreated.symm), by rw [hcreated]; exact hlt,
        fun hserving => hidle (hkeeps.serving current (by simpa [published, hmain]) hserving), ?_⟩
      rw [hcreated]
      exact hcovers.keeps hkeeps (by simp [published, hmain])
  | created | linking =>
      rintro ⟨hcount, hnext⟩
      exact ⟨hcreated.trans hcount, hfresh.trans hnext⟩
  | testing | accepting | accepted | acceptFailed | leaving | joined =>
      intro hcount
      exact hfresh.trans (hcount.trans hcreated.symm)

/-- The list is as it was. -/
theorem Listing.congr (h : execution.Listing)
    (hnode : execution'.memory.node = execution.memory.node)
    (hhead : execution'.memory.head = execution.memory.head)
    (hfresh : execution'.memory.fresh = execution.memory.fresh)
    (hpublished : execution'.published = execution.published)
    (hserving : ∀ tid < execution.published, execution'.thread tid = .serving →
      execution.thread tid = .serving) :
    execution'.Listing ∧ Keeps execution execution' := by
  have hlink : execution'.memory.link = execution.memory.link := by
    funext ptr
    rw [Memory.link, hnode, Memory.link]
  have hkeeps : Keeps execution execution' := .of_link hpublished.ge hserving hlink
  refine ⟨⟨?_, ?_, ?_, ?_, ?_, ?_⟩, hkeeps⟩
  · rw [hfresh, hnode]
    exact h.tid_eq
  · rw [hfresh, hlink]
    exact h.blank
  · rw [hlink]
    exact h.descending
  · rw [hhead, hpublished]
    exact h.head_lt
  · rw [hhead, hpublished]
    exact h.head_covers.keeps hkeeps le_rfl
  · rw [hpublished, hlink]
    exact fun ptr hptr => (h.link_covers ptr hptr).keeps hkeeps hptr.le

/-- **A link is led elsewhere**, to where the clients below the node are found as well. -/
theorem Listing.relink (h : execution.Listing) {wild : Memory} {ptr : NodePtr}
    {next : Option NodePtr} (hlive : ptr ∈ execution.memory.live)
    (hlt : ptr < execution.memory.fresh) (hbound : ptr ≤ execution.published)
    (hbelow : ∀ successor ∈ next, successor < ptr) (hcovers : execution.Covers next ptr)
    (hmemory : execution'.memory = execution.memory.setNext wild ptr next)
    (hpublished : execution'.published = execution.published)
    (hserving : ∀ tid, execution'.thread tid = .serving → execution.thread tid = .serving) :
    execution'.Listing ∧ Keeps execution execution' := by
  have hlink : execution'.memory.link = Function.update execution.memory.link ptr next := by
    rw [hmemory, Memory.link_setNext hlive]
  have hkeeps : Keeps execution execution' := by
    refine ⟨hpublished.ge, fun tid _ => hserving tid, fun start tid hbusy hon => ?_⟩
    rw [hlink]
    refine h.descending.onChain_relink hbelow (fun hbehind => ?_) hon
    exact hcovers tid (h.descending.lt_of_onChain_next hbehind) (hserving tid hbusy)
  rw [Memory.setNext_of_live hlive] at hmemory
  refine ⟨⟨?_, ?_, ?_, ?_, ?_, ?_⟩, hkeeps⟩
  · intro other hother
    rw [hmemory] at hother ⊢
    by_cases heq : other = ptr
    · subst heq
      simpa using h.tid_eq other hother
    · simpa [heq] using h.tid_eq other hother
  · intro other hother
    rw [hmemory] at hother
    rw [hlink, Function.update_of_ne (hlt.trans_le hother).ne']
    exact h.blank other hother
  · rw [hlink]
    exact h.descending.update hbelow
  · rw [hmemory, hpublished]
    exact h.head_lt
  · have hhead : execution'.memory.head = execution.memory.head := by rw [hmemory]
    rw [hhead, hpublished]
    exact h.head_covers.keeps hkeeps le_rfl
  · intro other hother
    rw [hpublished] at hother
    rw [hlink]
    by_cases heq : other = ptr
    · subst heq
      rw [Function.update_self]
      exact hcovers.keeps hkeeps hother.le
    · rw [Function.update_of_ne heq]
      exact (h.link_covers other hother).keeps hkeeps hother.le

/-! ### The steps of the threads -/

/-- A thread other than `main` has taken a step, which leaves it where it may be. -/
theorem Attends.of_thread (h : execution.Attends) {tid : Tid} {point : ThreadPoint}
    {memory : Memory} (hpoint : point ≠ .serving)
    (hfresh : memory.fresh = execution.memory.fresh)
    (hlink : ∀ ptr, execution.published ≤ ptr → memory.link ptr = execution.memory.link ptr)
    (hlisting : Listing { execution.setThread tid point with memory := memory } ∧
      Keeps execution { execution.setThread tid point with memory := memory })
    (hplaced : Placed { execution.setThread tid point with memory := memory } tid point) :
    Attends { execution.setThread tid point with memory := memory } := by
  obtain ⟨hlisting, hkeeps⟩ := hlisting
  have hserving : ∀ other, (execution.setThread tid point).thread other = .serving →
      execution.thread other = .serving := fun _ => serving_of_setThread hpoint
  refine ⟨hlisting, ?_, fun other => ?_, fun other hbusy => h.born other (hserving other hbusy),
    fun other hbusy => h.stays other (hserving other hbusy)⟩
  · exact h.main.keeps hkeeps rfl hfresh fun newNode hmain =>
      hlink newNode (by simp [published, hmain])
  · change Placed _ other (Function.update execution.thread tid point other)
    by_cases heq : other = tid
    · subst heq
      rw [Function.update_self]
      exact hplaced
    · rw [Function.update_of_ne heq]
      exact (h.threads other).keeps hkeeps

/-- A step that leaves the list alone. -/
theorem Attends.of_thread_of_node (h : execution.Attends) {tid : Tid} {point : ThreadPoint}
    {memory : Memory} (hpoint : point ≠ .serving)
    (hnode : memory.node = execution.memory.node) (hhead : memory.head = execution.memory.head)
    (hfresh : memory.fresh = execution.memory.fresh)
    (hplaced : execution.Placed tid point) :
    Attends { execution.setThread tid point with memory := memory } := by
  have hlink : memory.link = execution.memory.link := by
    funext ptr
    rw [Memory.link, hnode, Memory.link]
  have hlisting : Listing { execution.setThread tid point with memory := memory } ∧
      Keeps execution { execution.setThread tid point with memory := memory } := by
    refine h.listing.congr hnode hhead hfresh rfl fun other _ hbusy => ?_
    have hbusy' : (execution.setThread tid point).thread other = .serving := hbusy
    exact serving_of_setThread hpoint hbusy'
  exact h.of_thread hpoint hfresh (fun ptr _ => by rw [hlink]) hlisting (hplaced.keeps hlisting.2)

theorem follows_head (h : execution.Listing) : execution.Follows none execution.memory.head :=
  ⟨h.head_lt, fun _ hbefore => by cases hbefore⟩

/-- The next node comes behind a node of the list. -/
theorem follows_link (h : execution.Listing) {current : NodePtr}
    (hlt : current < execution.published) :
    execution.Follows (some current) (execution.memory.link current) := by
  have hbelow := h.descending current
  refine ⟨fun ptr hptr => (hbelow ptr hptr).trans hlt, fun before hbefore => ?_⟩
  obtain rfl := Option.some.inj hbefore
  refine ⟨hlt, hbelow, fun tid htid hserving => ?_⟩
  obtain ⟨first, hfirst, hreaches⟩ := h.link_covers current hlt tid htid hserving
  exact ⟨first, hfirst, h.descending.le_of_onChain (onChain_some_iff.mpr hreaches)⟩

/-- The rest of the list is stored to `head`. -/
theorem Attends.storesHead (h : execution.Attends) (hrunning : execution.ended = false) {tid : Tid}
    {ok : Bool} {wild : Memory} {current : NodePtr} {next : Option NodePtr}
    (hpoint : execution.thread tid = .storing none current next)
    (hsafe : ¬ execution.Overwrites (.thread tid ok wild)) :
    Attends { execution.setThread tid (.freeing current) with
      memory := execution.memory.setHead next } := by
  have hplaced := h.threads tid
  rw [hpoint] at hplaced
  obtain ⟨⟨hlt, -⟩, rfl, hbelow, hcovers⟩ := hplaced
  have hcurrent := hlt current rfl
  have hkeeps : Keeps execution { execution.setThread current (.freeing current) with
      memory := execution.memory.setHead next } := by
    refine .of_link le_rfl (fun other _ hbusy => ?_) rfl
    have hbusy' : (execution.setThread current (.freeing current)).thread other = .serving := hbusy
    exact serving_of_setThread (by simp) hbusy'
  refine h.of_thread (by simp) rfl (fun _ _ => rfl) ⟨?_, hkeeps⟩ trivial
  refine ⟨h.listing.tid_eq, h.listing.blank, h.listing.descending, fun ptr hptr => ?_,
    fun other hother hbusy => ?_, fun ptr hptr => ?_⟩
  · exact (hbelow ptr hptr).trans hcurrent
  · -- nobody newer is being served, and the thread itself is not either
    have hserving := hkeeps.serving other hother hbusy
    refine hcovers other (lt_of_le_of_ne (Nat.le_of_not_lt fun hnewer => ?_) ?_) hserving
    · exact hsafe ⟨hrunning, current, ok, wild, current, next, rfl, hpoint, other, hserving,
        hnewer, hother⟩
    · rintro rfl
      rw [hpoint] at hserving
      cases hserving
  · exact (h.listing.link_covers ptr hptr).keeps hkeeps (le_of_lt hptr)

/-- The rest of the list is stored to the node before. -/
theorem Attends.storesNext (h : execution.Attends) {tid : Tid} {wild : Memory}
    {prev current : NodePtr} {next : Option NodePtr}
    (hpoint : execution.thread tid = .storing (some prev) current next)
    (hlive : prev ∈ execution.memory.live)
    (hpublished : execution.published ≤ execution.memory.fresh) :
    Attends { execution.setThread tid (.freeing current) with
      memory := execution.memory.setNext wild prev next } := by
  have hplaced := h.threads tid
  rw [hpoint] at hplaced
  obtain ⟨⟨-, hprev⟩, rfl, hbelow, hcovers⟩ := hplaced
  obtain ⟨hlt, hcurrent, hnone⟩ := hprev prev rfl
  have hbelow' : ∀ successor ∈ next, successor < prev := fun successor hsuccessor =>
    (hbelow successor hsuccessor).trans (hcurrent current rfl)
  have hcovers' : execution.Covers next prev := by
    intro other hother hserving
    obtain ⟨ptr, hptr, hle⟩ := hnone other hother hserving
    obtain rfl := Option.some.inj hptr
    refine hcovers other (lt_of_le_of_ne hle ?_) hserving
    rintro rfl
    rw [hpoint] at hserving
    cases hserving
  have hlisting : Listing { execution.setThread current (.freeing current) with
      memory := execution.memory.setNext wild prev next } ∧
        Keeps execution { execution.setThread current (.freeing current) with
          memory := execution.memory.setNext wild prev next } := by
    refine h.listing.relink hlive (hlt.trans_le hpublished) hlt.le hbelow' hcovers' rfl rfl
      fun other hbusy => ?_
    have hbusy' : (execution.setThread current (.freeing current)).thread other = .serving := hbusy
    exact serving_of_setThread (by simp) hbusy'
  refine h.of_thread (by simp) ?_ (fun ptr hptr => ?_) hlisting trivial
  · rw [Memory.setNext_of_live hlive]
  · rw [Memory.link_setNext hlive, Function.update_of_ne (hlt.trans_le hptr).ne']

theorem Attends.published_le (h : execution.Attends) :
    execution.published ≤ execution.memory.fresh := by
  have hmain := h.main
  cases hpoint : execution.main <;> rw [hpoint] at hmain <;> simp only [published, hpoint]
  case created => exact hmain.2.ge
  case linking => exact (Nat.le_succ _).trans hmain.2.ge
  case publishing => exact (Nat.le_succ _).trans hmain.2.1.ge
  case waiting => exact hmain.1.ge
  case joining => exact hmain.1.ge
  case stepping => exact hmain.1.ge
  case freeing => exact hmain.1.ge
  all_goals exact hmain.ge

theorem Attends.thread (h : execution.Attends) (hrunning : execution.ended = false) {tid : Tid}
    {ok : Bool} {wild memory : Memory} {point : ThreadPoint}
    (hmoves : ThreadMoves execution.memory wild tid (execution.thread tid) point memory)
    (hfreed : ¬ execution.UsesFreed (.thread tid ok wild))
    (hsafe : ¬ execution.Overwrites (.thread tid ok wild)) :
    Attends { execution.setThread tid point with memory := memory } := by
  have hplaced := h.threads tid
  have hlive : ∀ ptr ∈ (execution.thread tid).target, ptr ∈ execution.memory.live := by
    intro ptr hptr
    by_contra hdead
    exact hfreed ⟨hrunning, ptr, hptr, hdead⟩
  generalize hpoint : execution.thread tid = old at hmoves hplaced hlive
  cases hmoves with
  | finishes | misses | exits => exact h.of_thread_of_node (by simp) rfl rfl rfl trivial
  | enters => exact h.of_thread_of_node (by simp) rfl rfl rfl (follows_head h.listing)
  | finds prev current htid =>
      have hcurrent := hlive current rfl
      have hlt := hplaced.1 current rfl
      rw [Memory.load_of_live hcurrent,
        h.listing.tid_eq current (hlt.trans_le h.published_le)] at htid
      exact h.of_thread_of_node (by simp) rfl rfl rfl ⟨hplaced, htid⟩
  | passes prev current =>
      exact h.of_thread_of_node (by simp) rfl rfl rfl (hplaced.1 current rfl)
  | advances current =>
      rw [Memory.next_load_of_live (hlive current rfl)]
      exact h.of_thread_of_node (by simp) rfl rfl rfl (follows_link h.listing hplaced)
  | loads prev current =>
      obtain ⟨hfollows, htid⟩ := hplaced
      rw [Memory.next_load_of_live (hlive current rfl)]
      exact h.of_thread_of_node (by simp) rfl rfl rfl ⟨hfollows, htid,
        h.listing.descending current, h.listing.link_covers current (hfollows.1 current rfl)⟩
  | storesHead current next => exact h.storesHead hrunning hpoint hsafe
  | storesNext prev current next =>
      exact h.storesNext hpoint (hlive prev rfl) h.published_le
  | frees current =>
      rw [Memory.free_of_live (hlive current rfl)]
      exact h.of_thread_of_node (by simp) rfl rfl rfl trivial

/-! ### The steps of `main` -/

/-- A step of `main` that leaves the list and the threads alone. -/
theorem Attends.of_main (h : execution.Attends)
    (hnode : execution'.memory.node = execution.memory.node)
    (hhead : execution'.memory.head = execution.memory.head)
    (hfresh : execution'.memory.fresh = execution.memory.fresh)
    (hthread : execution'.thread = execution.thread)
    (hcreated : execution'.created = execution.created)
    (hpublished : execution'.published = execution.published)
    (hmain : Keeps execution execution' → execution'.Stands execution'.main)
    (hstays : ∀ tid, execution.thread tid = .serving → execution'.main ≠ .acceptFailed ∧
      execution'.main ≠ .joined ∧ execution'.ended = false) : execution'.Attends := by
  obtain ⟨hlisting, hkeeps⟩ := h.listing.congr hnode hhead hfresh hpublished fun tid _ hbusy => by
    rwa [hthread] at hbusy
  refine ⟨hlisting, hmain hkeeps, fun tid => ?_, fun tid hbusy => ?_, fun tid hbusy => ?_⟩
  · rw [hthread]
    exact (h.threads tid).keeps hkeeps
  · rw [hthread] at hbusy
    rw [hcreated]
    exact h.born tid hbusy
  · rw [hthread] at hbusy
    exact hstays tid hbusy

theorem Attends.creates (h : execution.Attends) (hrunning : execution.ended = false)
    (hmain : execution.main = .accepted) :
    Attends { execution.setThread execution.created .serving with
      main := .created execution.created
      created := execution.created + 1 } := by
  have hfresh : execution.memory.fresh = execution.created := by
    have hstands := h.main
    rw [hmain] at hstands
    exact hstands
  have hpublished : execution.published = execution.created := by simp [published, hmain]
  set created : Execution := { execution.setThread execution.created .serving with
    main := .created execution.created
    created := execution.created + 1 } with hstep
  have hserving : ∀ tid < execution.published, created.thread tid = .serving →
      execution.thread tid = .serving := by
    intro tid htid hbusy
    have hne : tid ≠ execution.created := (htid.trans_eq hpublished).ne
    exact (Function.update_of_ne hne _ _).symm.trans hbusy
  obtain ⟨hlisting, hkeeps⟩ : created.Listing ∧ Keeps execution created :=
    h.listing.congr rfl rfl rfl hpublished.symm hserving
  refine ⟨hlisting, ⟨rfl, hfresh⟩, fun tid => ?_, fun tid hbusy => ?_, fun tid hbusy =>
    ⟨by simp [hstep], by simp [hstep], hrunning⟩⟩
  · change Placed _ tid (Function.update execution.thread execution.created .serving tid)
    by_cases heq : tid = execution.created
    · rw [heq, Function.update_self]
      trivial
    · rw [Function.update_of_ne heq]
      exact (h.threads tid).keeps hkeeps
  · change tid < execution.created + 1
    by_cases heq : tid = execution.created
    · exact heq ▸ Nat.lt_succ_self _
    · exact Nat.lt_succ_of_lt (h.born tid ((Function.update_of_ne heq _ _).symm.trans hbusy))

/-- The new node is on no chain yet. -/
theorem Attends.allocates (h : execution.Attends) (hrunning : execution.ended = false) {tid : Tid}
    (hmain : execution.main = .created tid) :
    Attends { execution with
      memory := execution.memory.allocate tid
      main := .linking execution.memory.fresh } := by
  obtain ⟨hcreated, hfresh⟩ : execution.created = tid + 1 ∧ execution.memory.fresh = tid := by
    have hstands := h.main
    rw [hmain] at hstands
    exact hstands
  set allocated : Execution := { execution with
    memory := execution.memory.allocate tid
    main := .linking execution.memory.fresh } with hstep
  have hpublished : allocated.published = execution.published := by
    simp [published, hstep, hmain, hfresh]
  have hlink : allocated.memory.link = execution.memory.link := by
    have hupdate : allocated.memory.link =
        Function.update execution.memory.link execution.memory.fresh none :=
      Memory.link_of_update rfl
    rw [hupdate, ← h.listing.blank _ le_rfl, Function.update_eq_self]
  have hkeeps : Keeps execution allocated :=
    .of_link hpublished.ge (fun _ _ hbusy => hbusy) hlink
  refine ⟨⟨fun ptr hptr => ?_, fun ptr hptr => ?_, ?_, ?_, ?_, fun ptr hptr => ?_⟩,
    ⟨by rw [hfresh]; exact hcreated, rfl⟩, fun other => (h.threads other).keeps hkeeps, h.born,
    fun other hbusy => ⟨by simp [hstep], by simp [hstep], hrunning⟩⟩
  · change (Function.update execution.memory.node execution.memory.fresh ⟨tid, none⟩ ptr).tid = ptr
    by_cases heq : ptr = execution.memory.fresh
    · rw [heq, Function.update_self]
      exact hfresh.symm
    · rw [Function.update_of_ne heq]
      exact h.listing.tid_eq ptr (lt_of_le_of_ne (Nat.lt_succ_iff.mp hptr) heq)
  · rw [hlink]
    exact h.listing.blank ptr ((Nat.le_succ _).trans hptr)
  · rw [hlink]
    exact h.listing.descending
  · rw [hpublished]
    exact h.listing.head_lt
  · rw [hpublished]
    exact h.listing.head_covers.keeps hkeeps le_rfl
  · rw [hpublished] at hptr
    rw [hlink]
    exact (h.listing.link_covers ptr hptr).keeps hkeeps (le_of_lt hptr)

theorem Attends.links (h : execution.Attends) (hrunning : execution.ended = false)
    {newNode : NodePtr} {wild : Memory} (hmain : execution.main = .linking newNode)
    (hlive : newNode ∈ execution.memory.live) :
    Attends { execution with
      memory := execution.memory.setNext wild newNode execution.memory.head
      main := .publishing newNode } := by
  obtain ⟨hcreated, hfresh⟩ :
      execution.created = newNode + 1 ∧ execution.memory.fresh = newNode + 1 := by
    have hstands := h.main
    rw [hmain] at hstands
    exact hstands
  have hpublished : execution.published = newNode := by simp [published, hmain]
  have hhead := h.listing.head_lt
  have hcovers := h.listing.head_covers
  rw [hpublished] at hhead hcovers
  set linked : Execution := { execution with
    memory := execution.memory.setNext wild newNode execution.memory.head
    main := .publishing newNode } with hstep
  obtain ⟨hlisting, hkeeps⟩ : linked.Listing ∧ Keeps execution linked :=
    h.listing.relink hlive (by rw [hfresh]; exact Nat.lt_succ_self _) hpublished.ge hhead hcovers rfl
      hpublished.symm fun _ hbusy => hbusy
  refine ⟨hlisting, ⟨hcreated, ?_, ?_⟩, fun tid => (h.threads tid).keeps hkeeps, h.born,
    fun tid hbusy => ⟨by simp [hstep], by simp [hstep], hrunning⟩⟩
  · rw [hstep, Memory.setNext_of_live hlive]
    exact hfresh
  · rw [hstep, Memory.link_setNext hlive, Function.update_self]
    exact hcovers.keeps hkeeps hpublished.ge

theorem Attends.publishes (h : execution.Attends) (hrunning : execution.ended = false)
    {newNode : NodePtr} (hmain : execution.main = .publishing newNode) :
    Attends { execution with
      memory := execution.memory.setHead (some newNode)
      main := .testing } := by
  obtain ⟨hcreated, hfresh, hcovers⟩ : execution.created = newNode + 1 ∧
      execution.memory.fresh = newNode + 1 ∧
        execution.Covers (execution.memory.link newNode) newNode := by
    have hstands := h.main
    rw [hmain] at hstands
    exact hstands
  have hpublished : execution.published = newNode := by simp [published, hmain]
  set listed : Execution := { execution with
    memory := execution.memory.setHead (some newNode)
    main := .testing } with hstep
  have hpublished' : listed.published = newNode + 1 := hcreated
  have hkeeps : Keeps execution listed :=
    .of_link (by rw [hpublished, hpublished']; exact Nat.le_succ _) (fun _ _ hbusy => hbusy) rfl
  refine ⟨⟨h.listing.tid_eq, h.listing.blank, h.listing.descending, fun ptr hptr => ?_,
    fun tid htid hbusy => ?_, fun ptr hptr => ?_⟩, hfresh.trans hcreated.symm,
    fun tid => (h.threads tid).keeps hkeeps, h.born,
    fun tid hbusy => ⟨by simp [hstep], by simp [hstep], hrunning⟩⟩
  · obtain rfl := Option.some.inj hptr
    rw [hpublished']
    exact Nat.lt_succ_self _
  · change OnChain execution.memory.link (some newNode) tid
    rw [hpublished'] at htid
    rw [onChain_cons_iff]
    rcases Nat.lt_succ_iff_lt_or_eq.mp htid with hlt | heq
    · exact Or.inr (hcovers tid hlt hbusy)
    · exact Or.inl heq
  · rw [hpublished'] at hptr
    change execution.Covers (execution.memory.link ptr) ptr
    rcases Nat.lt_succ_iff_lt_or_eq.mp hptr with hlt | rfl
    · exact h.listing.link_covers ptr (hlt.trans_eq hpublished.symm)
    · exact hcovers

/-- **One step** of `main` or a thread, or a signal. -/
theorem Attends.moves (h : execution.Attends) (hrunning : execution.ended = false)
    (hmoves : Moves execution access execution') (hsucceeds : Succeeds access)
    (hsignal : ¬ execution.Interrupts access) (hfreed : ¬ execution.UsesFreed access)
    (hsafe : ¬ execution.Overwrites access) : execution'.Attends ∨ execution'.Settled := by
  have hmain := h.main
  have hlive : ∀ ptr ∈ execution.target access, ptr ∈ execution.memory.live := by
    intro ptr hptr
    by_contra hdead
    exact hfreed ⟨hrunning, ptr, hptr, hdead⟩
  have hlisting := h.listing
  cases hmoves with
  | stays => exact Or.inl h
  | signalled =>
      exact Or.inl (h.of_main rfl rfl rfl rfl rfl rfl (fun _ => hmain) h.stays)
  | interrupted haccepting =>
      rw [haccepting] at hmain
      refine Or.inl (h.of_main rfl rfl rfl rfl rfl (by simp [published, haccepting])
        (fun _ => hmain) fun tid hserving => ?_)
      exact absurd ⟨hrunning, haccepting, rfl, tid, hserving⟩ hsignal
  | tests _ _ hbefore | leaves _ _ hbefore | accepts _ hbefore =>
      rw [hbefore] at hmain
      exact Or.inl (h.of_main rfl rfl rfl rfl rfl (by simp [published, hbefore]) (fun _ => hmain)
        fun tid _ => ⟨by simp, by simp, hrunning⟩)
  | creates _ haccepted => exact Or.inl (h.creates hrunning haccepted)
  | allocates _ tid hcreated => exact Or.inl (h.allocates hrunning hcreated)
  | links _ _ newNode hlinking =>
      refine Or.inl (h.links hrunning hlinking (hlive newNode ?_))
      rw [target, hlinking]
      rfl
  | publishes _ _ newNode hpublishing => exact Or.inl (h.publishes hrunning hpublishing)
  | enters _ _ hleaving =>
      rw [hleaving] at hmain
      have hpublished : execution.published = execution.created := by simp [published, hleaving]
      have hlt := hlisting.head_lt
      have hcovers := hlisting.head_covers
      rw [hpublished] at hlt hcovers
      refine Or.inl (h.of_main rfl rfl rfl rfl rfl (by simp [published, hleaving])
        (fun hkeeps => ⟨hmain, hlt, hcovers.keeps hkeeps hpublished.ge⟩)
        fun tid _ => ⟨by simp, by simp, hrunning⟩)
  | resets _ _ hwaiting =>
      -- everybody has been passed on the way
      rw [hwaiting] at hmain
      obtain ⟨-, -, hcovers⟩ := hmain
      refine Or.inr ⟨trivial, fun tid hserving => ?_⟩
      exact not_onChain_none _ _ (hcovers tid (h.born tid hserving) hserving)
  | waits ok wild current hwaiting =>
      rw [hwaiting] at hmain
      obtain ⟨hfresh, hlt, hcovers⟩ := hmain
      have hpublished : execution.published = execution.created := by simp [published, hwaiting]
      have hcurrent : current < execution.created := hlt current rfl
      have htid : (execution.memory.load wild current).tid = current := by
        rw [Memory.load_of_live (hlive current (by rw [target, hwaiting]; rfl))]
        exact hlisting.tid_eq current (hcurrent.trans_eq hfresh.symm)
      refine Or.inl (h.of_main rfl rfl rfl rfl rfl (by simp [published, hwaiting])
        (fun hkeeps => ⟨hfresh, hcurrent, htid, hcovers.keeps hkeeps hpublished.ge⟩)
        fun tid _ => ⟨by simp, by simp, hrunning⟩)
  | joins _ _ current tid hjoining hexited =>
      rw [hjoining] at hmain
      obtain ⟨hfresh, hlt, rfl, hcovers⟩ := hmain
      have hpublished : execution.published = execution.created := by simp [published, hjoining]
      refine Or.inl (h.of_main rfl rfl rfl rfl rfl (by simp [published, hjoining])
        (fun hkeeps => ⟨hfresh, hlt, by simp [hexited], hcovers.keeps hkeeps hpublished.ge⟩)
        fun other _ => ⟨by simp, by simp, hrunning⟩)
  | steps ok wild current hstepping =>
      rw [hstepping] at hmain
      obtain ⟨hfresh, hlt, hidle, hcovers⟩ := hmain
      have hpublished : execution.published = execution.created := by simp [published, hstepping]
      have hnext : (execution.memory.load wild current).next = execution.memory.link current :=
        Memory.next_load_of_live (hlive current (by rw [target, hstepping]; rfl))
      have hrest : execution.Covers (execution.memory.link current) execution.created := by
        intro tid htid hserving
        refine (onChain_cons_iff.mp (hcovers tid htid hserving)).resolve_left ?_
        rintro rfl
        exact hidle hserving
      rw [hnext]
      refine Or.inl (h.of_main rfl rfl rfl rfl rfl (by simp [published, hstepping])
        (fun hkeeps => ⟨hfresh, fun ptr hptr => (hlisting.descending current ptr hptr).trans hlt,
          hrest.keeps hkeeps hpublished.ge⟩) fun other _ => ⟨by simp, by simp, hrunning⟩)
  | frees _ _ temp current hfreeing =>
      rw [hfreeing] at hmain
      obtain ⟨hfresh, hlt, hcovers⟩ := hmain
      have hpublished : execution.published = execution.created := by simp [published, hfreeing]
      rw [Memory.free_of_live (hlive temp (by rw [target, hfreeing]; rfl))]
      refine Or.inl (h.of_main rfl rfl rfl rfl rfl (by simp [published, hfreeing])
        (fun hkeeps => ⟨hfresh, hlt, hcovers.keeps hkeeps hpublished.ge⟩)
        fun other _ => ⟨by simp, by simp, hrunning⟩)
  | ends _ _ hend =>
      refine Or.inl (h.of_main rfl rfl rfl rfl rfl rfl (fun _ => hmain) fun tid hserving => ?_)
      obtain ⟨hfailed, hjoined, -⟩ := h.stays tid hserving
      exact (hend.elim hfailed hjoined).elim
  | thread tid ok wild memory point hthread =>
      exact Or.inl (h.thread hrunning hthread hfreed hsafe)
  | refuses | cannotCreate | cannotAllocate | fails => cases hsucceeds

/-- What happens to the list once all is settled does not matter. -/
theorem Settled.along (h : execution.Settled) (accesses : List Access) :
    Along Execution.step Harmless execution accesses := by
  induction accesses generalizing execution with
  | nil => trivial
  | cons access accesses ih =>
      refine ⟨⟨fun hinterrupts => ?_, Or.inl h⟩, ih ?_⟩
      · obtain ⟨-, -, -, tid, hserving⟩ := hinterrupts
        exact h.2 tid hserving
      · exact step_induction h fun _ _ hmoves => h.moves hmoves

theorem step_attends (h : execution.Attends ∨ execution.Settled) (hsucceeds : Succeeds access)
    (hharmless : execution.Harmless access) :
    (execution.step access).Attends ∨ (execution.step access).Settled := by
  refine step_induction (I := fun execution => execution.Attends ∨ execution.Settled) h
    fun execution' hrunning hmoves => ?_
  by_cases hsettled : execution.Settled
  · exact Or.inr (hsettled.moves hmoves)
  · obtain ⟨hsignal, hrest⟩ := hharmless
    obtain ⟨hfreed, hsafe⟩ := hrest.resolve_left hsettled
    exact (h.resolve_right hsettled).moves hrunning hmoves hsucceeds hsignal hfreed hsafe

/-- **Shutdown.** The process does not end with a client still being served in a run without these
steps: a signal that finds `main` in `accept` while a client is being served, and, until `main` has
left its loop and nobody is being served, a use of a freed node and a store to `head` that loses a
client being served. -/
theorem shutdown_waits_for_clients (accesses : List Access)
    (hsucceeds : ∀ access ∈ accesses, Succeeds access)
    (hharmless : Along Execution.step Harmless init accesses) : ¬ (runs accesses).CutOff := by
  have hend : (runs accesses).Attends ∨ (runs accesses).Settled :=
    run_along (I := fun execution => execution.Attends ∨ execution.Settled)
      (fun _ _ hok h => step_attends h hok.2 hok.1) (hharmless.and_forall hsucceeds)
      (Or.inl attends_init)
  rintro ⟨hended, tid, hserving⟩
  rcases hend with hattends | hsettled
  · have hrunning := (hattends.stays tid hserving).2.2
    rw [hended] at hrunning
    cases hrunning
  · exact hsettled.2 tid hserving

/-- `main` is left to itself for some steps. -/
def mainAlone (steps : Nat) : List Access := List.replicate steps (.main true .empty)

def threadAlone (tid : Tid) (steps : Nat) : List Access :=
  List.replicate steps (.thread tid true .empty)

/-- One client is accepted; the signal arrives, and `main` is in `pthread_join` when
`handle_client` returns. -/
def servedWhileJoining : List Access :=
  mainAlone 6 ++ [.signal false] ++ mainAlone 3 ++ threadAlone 0 1

theorem harmless_servedWhileJoining : Along Execution.step Harmless init servedWhileJoining := by
  simp [servedWhileJoining, mainAlone, threadAlone, List.replicate, Along, Harmless, Interrupts,
    UsesFreed, Overwrites, target, MainPoint.target, ThreadPoint.target, Execution.step, mainStep,
    init, setThread, Function.update_apply, ite_eq_iff, Memory.allocate, Memory.empty,
    Memory.setNext, Memory.setHead, Memory.load]

theorem settled_servedWhileJoining : (runs servedWhileJoining).Settled := by
  refine ⟨?_, fun tid => ?_⟩
  · change MainPoint.HasLeft (.joining 0 0)
    trivial
  · change Function.update (Function.update (fun _ => ThreadPoint.unborn) 0 .serving) 0 .entering
      tid ≠ .serving
    by_cases heq : tid = 0 <;> simp [heq]

/-- The thread frees the node that `main` stands on, and `main` goes on from there to the end. -/
theorem shutdown_waits_for_clients_joined :
    let accesses := servedWhileJoining ++ (threadAlone 0 6 ++ mainAlone 5)
    (runs accesses).ended = true ∧ ¬ (runs accesses).CutOff := by
  intro accesses
  refine ⟨by decide, shutdown_waits_for_clients accesses ?_ ?_⟩
  · simp [accesses, servedWhileJoining, mainAlone, threadAlone, Succeeds]
  · exact (along_append _ _ _).mpr
      ⟨harmless_servedWhileJoining, settled_servedWhileJoining.along _⟩

theorem cutOff_signal_in_accept :
    let accesses := mainAlone 7 ++ [.signal true] ++ mainAlone 1
    (∀ access ∈ accesses, Succeeds access) ∧ (runs accesses).CutOff :=
  ⟨by simp [mainAlone, Succeeds], by decide, 0, by decide⟩

/-- Such a signal always leaves the client behind: `main` goes straight on to `cleanup`. -/
theorem cutOff_of_interrupts (hinterrupts : execution.Interrupts access) (ok : Bool)
    (wild : Memory) : ((execution.step access).step (.main ok wild)).CutOff := by
  obtain ⟨hrunning, hmain, rfl, tid, hserving⟩ := hinterrupts
  exact ⟨by simp [Execution.step, hrunning, hmain, mainStep],
    tid, by simp [Execution.step, hrunning, hmain, mainStep, hserving]⟩

/-- A store to `head` against the condition does lose a client being served. -/
theorem Attends.lost_of_overwrites (h : execution.Attends)
    (hoverwrites : execution.Overwrites access) :
    ∃ newer, (execution.step access).thread newer = .serving ∧
      ¬ OnChain (execution.step access).memory.link (execution.step access).memory.head newer := by
  obtain ⟨hrunning, tid, ok, wild, current, next, rfl, hpoint, newer, hserving, hnewer, -⟩ :=
    hoverwrites
  have hplaced := h.threads tid
  rw [hpoint] at hplaced
  obtain ⟨-, rfl, hbelow, -⟩ := hplaced
  have hstep : execution.step (.thread current ok wild) =
      { execution.setThread current (.freeing current) with
        memory := execution.memory.setHead next } := by
    simp [Execution.step, hrunning, hpoint, threadStep]
  rw [hstep]
  refine ⟨newer, (Function.update_of_ne hnewer.ne' _ _).trans hserving, fun hon => ?_⟩
  obtain ⟨first, hfirst, hreaches⟩ := hon
  have hle := h.listing.descending.le_of_onChain (onChain_some_iff.mpr hreaches)
  exact absurd (hle.trans_lt (hbelow first hfirst)) (Nat.lt_asymm hnewer)

-- A newer thread is put in front between the two accesses that take the first one off the list.
example : (runs (mainAlone 6 ++ threadAlone 0 4 ++ mainAlone 6 ++ threadAlone 0 1 ++
    [.signal false] ++ mainAlone 4)).CutOff := ⟨by decide, 1, by decide⟩

-- `main` waits for the second thread, which frees its node; what is found there is no next node.
example : (runs (mainAlone 12 ++ [.signal false] ++ mainAlone 3 ++ threadAlone 1 7 ++
    mainAlone 5)).CutOff := ⟨by decide, 0, by decide⟩

end Execution

end AesdChar
