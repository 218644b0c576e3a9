import AesdChar.Lib.Run

/-!
# Critical sections

Threads share a state and one lock. Each thread is a program on a state of its own, from which one
reads off what it does next: a step that concerns nobody else, waiting for the lock, or a step with
the lock held, which may change what is shared and may end in the lock being released. Threads take
their steps in any order, and a thread that cannot move stays where it is.

Whatever the order, the shared state is that of the sections run one after the other, in the order
in which the lock was taken, with the last of them possibly unfinished.
-/

namespace AesdChar.Lib

open Relation

inductive Mode where
  | outside
  | waiting
  | holding
  | halted
  deriving DecidableEq

/-- Only taking the lock leads into a section. -/
structure Program (σ κ : Type) where
  mode : κ → Mode
  outside : κ → κ
  enter : κ → κ
  inside : κ → σ → κ × σ
  mode_outside : ∀ own, mode own = .outside → mode (outside own) ≠ .holding
  mode_enter : ∀ own, mode own = .waiting → mode (enter own) = .holding

structure Threads (σ κ τ : Type) where
  shared : σ
  holder : Option τ
  own : τ → κ

section Definitions

variable {σ κ τ : Type} [DecidableEq τ]

def Threads.put (threads : Threads σ κ τ) (thread : τ) (own : κ) : Threads σ κ τ :=
  { threads with own := Function.update threads.own thread own }

def Threads.start (shared : σ) (own : τ → κ) : Threads σ κ τ := ⟨shared, none, own⟩

namespace Program

def step (program : Program σ κ) (threads : Threads σ κ τ) (thread : τ) : Threads σ κ τ :=
  let own := threads.own thread
  match program.mode own with
  | .outside => threads.put thread (program.outside own)
  | .waiting =>
      if threads.holder = none then
        { threads.put thread (program.enter own) with holder := some thread }
      else threads
  | .holding =>
      let (own', shared) := program.inside own threads.shared
      { threads.put thread own' with
        shared := shared
        holder := if program.mode own' = .holding then threads.holder else none }
  | .halted => threads

/-- Who takes the lock in a step, and with what state of its own. -/
def taken (program : Program σ κ) (threads : Threads σ κ τ) (thread : τ) : List (τ × κ) :=
  if program.mode (threads.own thread) = .waiting ∧ threads.holder = none then
    [(thread, threads.own thread)]
  else []

/-- The order in which the lock is taken. -/
def order (program : Program σ κ) (threads : Threads σ κ τ) (schedule : List τ) : List (τ × κ) :=
  history program.step program.taken threads schedule

/-! ### Sections by themselves -/

def Outside (program : Program σ κ) (own own' : κ) : Prop :=
  program.mode own = .outside ∧ own' = program.outside own

def Inside (program : Program σ κ) (before after : κ × σ) : Prop :=
  program.mode before.1 = .holding ∧ after = program.inside before.1 before.2

/-- A whole section, run by itself. -/
structure Section (program : Program σ κ) (start : κ) (shared : σ) (stop : κ) (shared' : σ) :
    Prop where
  waits : program.mode start = .waiting
  runs : ReflTransGen program.Inside (program.enter start, shared) (stop, shared')
  leaves : program.mode stop ≠ .holding

end Program

structure Visit (κ τ : Type) where
  thread : τ
  start : κ
  stop : κ

def Visit.taking (visit : Visit κ τ) : τ × κ := (visit.thread, visit.start)

/-- How the threads have left their last sections. -/
def stops (own : τ → κ) (visits : List (Visit κ τ)) : τ → κ :=
  visits.foldl (fun own visit => Function.update own visit.thread visit.stop) own

/-- Sections one after the other, of threads that take only steps of their own in between. -/
inductive Program.Serial (program : Program σ κ) (own : τ → κ) :
    List (Visit κ τ) → σ → σ → Prop
  | nil (shared : σ) : program.Serial own [] shared shared
  | concat {visits : List (Visit κ τ)} {visit : Visit κ τ} {shared shared' shared'' : σ}
      (hvisits : program.Serial own visits shared shared')
      (hreached : ReflTransGen program.Outside (stops own visits visit.thread) visit.start)
      (hvisit : program.Section visit.start shared' visit.stop shared'') :
      program.Serial own (visits ++ [visit]) shared shared''

/-- A thread that has left a section never waits for the lock again. -/
def Program.Once (program : Program σ κ) : Prop :=
  ∀ start shared stop shared' own, program.Section start shared stop shared' →
    ReflTransGen program.Outside stop own → program.mode own ≠ .waiting

end Definitions

namespace Program

variable {σ κ τ : Type} {program : Program σ κ}

theorem inside_rightUnique : Relator.RightUnique program.Inside := by
  rintro before after after' ⟨-, rfl⟩ ⟨-, rfl⟩
  rfl

theorem eq_of_inside_of_left {own own' : κ} {shared shared' : σ}
    (hleft : program.mode own ≠ .holding)
    (hruns : ReflTransGen program.Inside (own, shared) (own', shared')) :
    (own', shared') = (own, shared) := by
  rcases hruns.cases_head with heq | ⟨next, ⟨hholding, -⟩, -⟩
  · exact heq.symm
  · exact absurd hholding hleft

namespace Section

variable {start stop : κ} {shared shared' : σ}

/-- From any point inside a section the rest of it leads to its end. -/
theorem rest (h : program.Section start shared stop shared') {own : κ} {now : σ}
    (hruns : ReflTransGen program.Inside (program.enter start, shared) (own, now)) :
    ReflTransGen program.Inside (own, now) (stop, shared') := by
  rcases hruns.total_of_right_unique inside_rightUnique h.runs with hrest | hback
  · exact hrest
  · rw [eq_of_inside_of_left h.leaves hback]

/-- A section has one outcome. -/
theorem unique (h : program.Section start shared stop shared') {stop' : κ} {shared'' : σ}
    (h' : program.Section start shared stop' shared'') : stop' = stop ∧ shared'' = shared' := by
  have heq := eq_of_inside_of_left h'.leaves (h.rest h'.runs)
  exact ⟨(congrArg Prod.fst heq).symm, (congrArg Prod.snd heq).symm⟩

end Section

end Program

/-! ### Any interleaving -/

section Interleaving

variable {σ κ τ : Type} [DecidableEq τ] {program : Program σ κ}

/-- A thread outside its sections has only taken steps of its own since the last of them. -/
structure Program.Idle (program : Program σ κ) (last own : κ) : Prop where
  left : program.mode own ≠ .holding
  since : ReflTransGen program.Outside last own

/-- Threads whose shared state is that of their sections one after the other. -/
inductive Program.Serialized (program : Program σ κ) (initial : Threads σ κ τ) :
    List (τ × κ) → Threads σ κ τ → Prop
  | free {visits : List (Visit κ τ)} {threads : Threads σ κ τ}
      (hserial : program.Serial initial.own visits initial.shared threads.shared)
      (hholder : threads.holder = none)
      (hidle : ∀ thread, program.Idle (stops initial.own visits thread) (threads.own thread)) :
      program.Serialized initial (visits.map Visit.taking) threads
  | held {visits : List (Visit κ τ)} {threads : Threads σ κ τ} {thread : τ} {start : κ}
      {between : σ} (hserial : program.Serial initial.own visits initial.shared between)
      (hholder : threads.holder = some thread) (hwaits : program.mode start = .waiting)
      (hreached : ReflTransGen program.Outside (stops initial.own visits thread) start)
      (hruns : ReflTransGen program.Inside (program.enter start, between)
        (threads.own thread, threads.shared))
      (hholding : program.mode (threads.own thread) = .holding)
      (hidle : ∀ other ≠ thread,
        program.Idle (stops initial.own visits other) (threads.own other)) :
      program.Serialized initial (visits.map Visit.taking ++ [(thread, start)]) threads

namespace Program

@[simp] theorem stops_concat (own : τ → κ) (visits : List (Visit κ τ)) (visit : Visit κ τ) :
    stops own (visits ++ [visit]) = Function.update (stops own visits) visit.thread visit.stop := by
  rw [stops, List.foldl_append]
  rfl

section Steps

variable {threads : Threads σ κ τ} {thread : τ}

theorem step_of_outside (hmode : program.mode (threads.own thread) = .outside) :
    program.step threads thread =
      threads.put thread (program.outside (threads.own thread)) := by
  simp only [step, hmode]

theorem step_of_waiting (hmode : program.mode (threads.own thread) = .waiting)
    (hfree : threads.holder = none) : program.step threads thread =
      { threads.put thread (program.enter (threads.own thread)) with holder := some thread } := by
  simp only [step, hmode, hfree, if_true]

theorem step_of_blocked (hmode : program.mode (threads.own thread) = .waiting)
    (hheld : threads.holder ≠ none) : program.step threads thread = threads := by
  simp only [step, hmode, if_neg hheld]

theorem step_of_holding (hmode : program.mode (threads.own thread) = .holding) :
    program.step threads thread =
      { threads.put thread (program.inside (threads.own thread) threads.shared).1 with
        shared := (program.inside (threads.own thread) threads.shared).2
        holder :=
          if program.mode (program.inside (threads.own thread) threads.shared).1 = .holding then
            threads.holder
          else none } := by
  simp only [step, hmode]

theorem step_of_halted (hmode : program.mode (threads.own thread) = .halted) :
    program.step threads thread = threads := by
  simp only [step, hmode]

/-- A step of one thread does not change what the others own. -/
theorem own_step_of_ne (program : Program σ κ) (threads : Threads σ κ τ) {thread other : τ}
    (hne : other ≠ thread) : (program.step threads thread).own other = threads.own other := by
  have hput : ∀ own, (threads.put thread own).own other = threads.own other :=
    fun own => Function.update_of_ne hne _ _
  unfold step
  dsimp only
  split
  · exact hput _
  · split
    · exact hput _
    · rfl
  · exact hput _
  · rfl

omit [DecidableEq τ] in
theorem taken_of_not_waiting (hmode : program.mode (threads.own thread) ≠ .waiting) :
    program.taken threads thread = [] := if_neg fun htakes => hmode htakes.1

omit [DecidableEq τ] in
theorem taken_of_held (hheld : threads.holder ≠ none) : program.taken threads thread = [] :=
  if_neg fun htakes => hheld htakes.2

end Steps

theorem Idle.put {last : τ → κ} {threads : Threads σ κ τ} {thread other : τ} {own : κ}
    (hidle : program.Idle (last other) (threads.own other))
    (hown : other = thread → program.Idle (last other) own) :
    program.Idle (last other) ((threads.put thread own).own other) := by
  by_cases heq : other = thread
  · subst heq
    simpa [Threads.put] using hown rfl
  · simpa [Threads.put, heq] using hidle

/-- **One step.** -/
theorem Serialized.step {initial threads : Threads σ κ τ} {order : List (τ × κ)}
    (h : program.Serialized initial order threads) (thread : τ) :
    program.Serialized initial (order ++ program.taken threads thread)
      (program.step threads thread) := by
  cases hmode : program.mode (threads.own thread) with
  | halted =>
      rw [step_of_halted hmode, taken_of_not_waiting (by simp [hmode]), List.append_nil]
      exact h
  | outside =>
      have hmoves : ∀ {last : κ}, program.Idle last (threads.own thread) →
          program.Idle last (program.outside (threads.own thread)) := fun hidle =>
        ⟨program.mode_outside _ hmode, hidle.since.tail ⟨hmode, rfl⟩⟩
      rw [step_of_outside hmode, taken_of_not_waiting (by simp [hmode]), List.append_nil]
      cases h with
      | free hserial hholder hidle =>
          refine .free hserial hholder fun other => (hidle other).put fun heq => ?_
          subst heq
          exact hmoves (hidle other)
      | @held _ _ holder _ _ hserial hholder hwaits hreached hruns hholding hidle =>
          have hne : holder ≠ thread := by
            rintro rfl
            rw [hmode] at hholding
            cases hholding
          have hsame : (threads.put thread (program.outside (threads.own thread))).own holder =
              threads.own holder := Function.update_of_ne hne _ _
          refine .held hserial hholder hwaits hreached (by rw [hsame]; exact hruns)
            (by rw [hsame]; exact hholding) fun other hother => ?_
          refine (hidle other hother).put fun heq => ?_
          subst heq
          exact hmoves (hidle other hother)
  | waiting =>
      cases h with
      | @free visits _ hserial hholder hidle =>
          have htaken : program.taken threads thread = [(thread, threads.own thread)] :=
            if_pos ⟨hmode, hholder⟩
          rw [step_of_waiting hmode hholder, htaken]
          have hown : (threads.put thread (program.enter (threads.own thread))).own thread =
              program.enter (threads.own thread) := Function.update_self _ _ _
          refine .held hserial rfl hmode (hidle thread).since ?_ ?_
            fun other hother => (hidle other).put fun heq => absurd heq hother
          · rw [hown]
            exact .refl
          · rw [hown]
            exact program.mode_enter _ hmode
      | held hserial hholder hwaits hreached hruns hholding hidle =>
          have hheld : threads.holder ≠ none := by simp [hholder]
          rw [step_of_blocked hmode hheld, taken_of_held hheld, List.append_nil]
          exact .held hserial hholder hwaits hreached hruns hholding hidle
  | holding =>
      cases h with
      | free _ _ hidle => exact absurd hmode (hidle thread).left
      | @held visits _ holder start between hserial hholder hwaits hreached hruns hholding hidle =>
          -- only the holder is inside a section
          obtain rfl : thread = holder := by
            by_contra hne
            exact (hidle thread hne).left hmode
          rw [step_of_holding hmode, taken_of_held (by simp [hholder]), List.append_nil]
          set next := program.inside (threads.own thread) threads.shared with hnext
          have hruns' : ReflTransGen program.Inside (program.enter start, between) next :=
            hruns.tail ⟨hmode, hnext⟩
          have hown : (threads.put thread next.1).own thread = next.1 :=
            Function.update_self _ _ _
          by_cases hstill : program.mode next.1 = .holding
          · simp only [if_pos hstill]
            refine .held hserial hholder hwaits hreached ?_ ?_
              fun other hother => (hidle other hother).put fun heq => absurd heq hother
            · rw [hown]
              exact hruns'
            · rw [hown]
              exact hstill
          · simp only [if_neg hstill]
            have hvisit : program.Section start between next.1 next.2 := ⟨hwaits, hruns', hstill⟩
            let visit : Visit κ τ := ⟨thread, start, next.1⟩
            have hserial' : program.Serial initial.own (visits ++ [visit]) initial.shared next.2 :=
              hserial.concat hreached hvisit
            have horder : visits.map Visit.taking ++ [(thread, start)] =
                (visits ++ [visit]).map Visit.taking := by
              rw [List.map_append]
              rfl
            rw [horder]
            refine .free hserial' rfl fun other => ?_
            rw [stops_concat]
            by_cases heq : other = thread
            · subst heq
              rw [hown, Function.update_self]
              exact ⟨hstill, .refl⟩
            · rw [Function.update_of_ne heq]
              exact (hidle other heq).put fun habs => absurd habs heq

/-- **Any order of steps** leaves the threads serialized. -/
theorem serialized_run (program : Program σ κ) {shared : σ} {own : τ → κ}
    (hown : ∀ thread, program.mode (own thread) ≠ .holding) (schedule : List τ) :
    program.Serialized (.start shared own) (program.order (.start shared own) schedule)
      (run program.step (.start shared own) schedule) := by
  have hstart : program.Serialized (.start shared own) (([] : List (Visit κ τ)).map Visit.taking)
      (.start shared own) := .free (.nil shared) rfl fun thread => ⟨hown thread, .refl⟩
  have hall : Along program.step (fun _ _ => True) (.start shared own) schedule :=
    along_of_forall (fun _ _ => trivial) _ _
  exact run_history_nil
    (R := fun threads order => program.Serialized (.start shared own) order threads)
    (fun threads past thread _ h => h.step thread) hall hstart

/-! ### Letting the holder finish -/

/-- Only the holder moves until it has let the lock go. -/
theorem run_holder {threads : Threads σ κ τ} {thread : τ} {stop : κ} {shared : σ}
    (hholding : program.mode (threads.own thread) = .holding) (hleaves : program.mode stop ≠ .holding)
    (hruns : ReflTransGen program.Inside (threads.own thread, threads.shared) (stop, shared)) :
    ∃ count, run program.step threads (List.replicate count thread) =
      ⟨shared, none, Function.update threads.own thread stop⟩ := by
  generalize hstart : (threads.own thread, threads.shared) = start at hruns
  induction hruns using ReflTransGen.head_induction_on generalizing threads with
  | refl =>
      rw [(Prod.mk.inj hstart).1] at hholding
      exact absurd hholding hleaves
  | @head before next hstep hrest ih =>
      subst hstart
      obtain ⟨-, hnext⟩ := hstep
      simp only at hnext
      have hmove := step_of_holding hholding
      rw [← hnext] at hmove
      by_cases hstill : program.mode next.1 = .holding
      · rw [if_pos hstill] at hmove
        have hown : (program.step threads thread).own thread = next.1 := by
          rw [hmove]
          exact Function.update_self _ _ _
        have hnow : ((program.step threads thread).own thread,
            (program.step threads thread).shared) = next := by rw [hown, hmove]
        obtain ⟨count, hcount⟩ := ih (hown ▸ hstill) hnow
        refine ⟨count + 1, ?_⟩
        rw [List.replicate_succ, run_cons, hcount, hmove]
        simp [Threads.put]
      · obtain ⟨rfl, rfl⟩ := Prod.mk.inj (eq_of_inside_of_left hstill hrest)
        rw [if_neg hstill] at hmove
        refine ⟨1, ?_⟩
        rw [List.replicate_one, run_cons, run_nil, hmove]
        rfl

/-! ### Threads that enter only once -/

omit [DecidableEq τ] in
theorem map_fst_taking (visits : List (Visit κ τ)) :
    (visits.map Visit.taking).map Prod.fst = visits.map Visit.thread := by
  rw [List.map_map]
  rfl

theorem stops_cases (own : τ → κ) (visits : List (Visit κ τ)) (thread : τ) :
    (thread ∉ visits.map Visit.thread ∧ stops own visits thread = own thread) ∨
      ∃ visit ∈ visits, visit.thread = thread ∧ stops own visits thread = visit.stop := by
  induction visits using List.reverseRecOn with
  | nil => exact Or.inl ⟨List.not_mem_nil, rfl⟩
  | append_singleton visits visit ih =>
      rw [stops_concat]
      by_cases heq : thread = visit.thread
      · refine Or.inr ⟨visit, List.mem_concat_self, heq.symm, ?_⟩
        rw [heq, Function.update_self]
      · rw [Function.update_of_ne heq]
        rcases ih with ⟨hnot, hstop⟩ | ⟨other, hother, hthread, hstop⟩
        · refine Or.inl ⟨?_, hstop⟩
          rw [List.map_append, List.mem_append, not_or]
          exact ⟨hnot, fun hmem => heq (List.mem_singleton.mp hmem)⟩
        · exact Or.inr ⟨other, List.mem_append_left _ hother, hthread, hstop⟩

theorem Serial.exists_section {own : τ → κ} {visits : List (Visit κ τ)} {shared shared' : σ}
    (h : program.Serial own visits shared shared') {visit : Visit κ τ} (hvisit : visit ∈ visits) :
    ∃ before after, program.Section visit.start before visit.stop after := by
  induction h with
  | nil => cases hvisit
  | concat _ _ hlast ih =>
      rcases List.mem_append.mp hvisit with hold | hnew
      · exact ih hold
      · rw [List.mem_singleton.mp hnew]
        exact ⟨_, _, hlast⟩

/-- What a visit found, and what it made of it. -/
theorem Serial.split {own : τ → κ} {visits before after : List (Visit κ τ)} {visit : Visit κ τ}
    {shared shared' : σ} (h : program.Serial own visits shared shared')
    (hsplit : visits = before ++ visit :: after) :
    ∃ found left, program.Serial own before shared found ∧
      program.Section visit.start found visit.stop left := by
  induction h generalizing after with
  | nil => exact absurd hsplit (by simp)
  | @concat visits last _ found left hvisits _ hlast ih =>
      rcases List.eq_nil_or_concat after with rfl | ⟨rest, newest, rfl⟩
      · obtain ⟨rfl, heq⟩ := List.append_inj' hsplit rfl
        obtain rfl := List.head_eq_of_cons_eq heq
        exact ⟨found, left, hvisits, hlast⟩
      · rw [List.concat_eq_append, ← List.cons_append, ← List.append_assoc] at hsplit
        exact ih (List.append_inj' hsplit rfl).1

theorem eq_of_waiting {own own' : κ} (hwaits : program.mode own = .waiting)
    (hmoves : ReflTransGen program.Outside own own') : own' = own := by
  rcases hmoves.cases_head with heq | ⟨next, ⟨houtside, -⟩, -⟩
  · exact heq.symm
  · rw [hwaits] at houtside
    cases houtside

/-- A thread that waits has not been inside before. -/
theorem Serial.fresh {own : τ → κ} {visits : List (Visit κ τ)} {shared shared' : σ}
    (honce : program.Once) (hwaits : ∀ thread, program.mode (own thread) = .waiting)
    (h : program.Serial own visits shared shared') {thread : τ} {start : κ}
    (hreached : ReflTransGen program.Outside (stops own visits thread) start)
    (hstart : program.mode start = .waiting) :
    thread ∉ visits.map Visit.thread ∧ start = own thread := by
  rcases stops_cases own visits thread with ⟨hnew, hstop⟩ | ⟨visit, hvisit, -, hstop⟩
  · rw [hstop] at hreached
    exact ⟨hnew, eq_of_waiting (hwaits thread) hreached⟩
  · rw [hstop] at hreached
    obtain ⟨before, after, hsection⟩ := h.exists_section hvisit
    exact absurd hstart (honce _ _ _ _ _ hsection hreached)

/-- Then every section starts from the thread's first state, and no thread has two. -/
theorem Serial.once {own : τ → κ} {visits : List (Visit κ τ)} {shared shared' : σ}
    (honce : program.Once) (hwaits : ∀ thread, program.mode (own thread) = .waiting)
    (h : program.Serial own visits shared shared') :
    (visits.map Visit.thread).Nodup ∧ ∀ visit ∈ visits, visit.start = own visit.thread := by
  induction h with
  | nil => exact ⟨List.nodup_nil, fun visit hvisit => absurd hvisit List.not_mem_nil⟩
  | @concat visits visit _ _ _ hvisits hreached hvisit ih =>
      obtain ⟨hnodup, hstarts⟩ := ih
      obtain ⟨hnew, hstart⟩ := hvisits.fresh honce hwaits hreached hvisit.waits
      refine ⟨?_, fun other hother => ?_⟩
      · rw [List.map_append]
        refine hnodup.append (List.nodup_singleton _) fun thread hthread hmem => ?_
        exact hnew (List.mem_singleton.mp hmem ▸ hthread)
      · rcases List.mem_append.mp hother with hmem | hmem
        · exact hstarts other hmem
        · rw [List.mem_singleton.mp hmem]
          exact hstart

/-- The lock is taken once by each thread, in the state it began in. -/
theorem Serialized.order_nodup {shared : σ} {own : τ → κ} {order : List (τ × κ)}
    {threads : Threads σ κ τ} (honce : program.Once)
    (hwaits : ∀ thread, program.mode (own thread) = .waiting)
    (h : program.Serialized (.start shared own) order threads) : (order.map Prod.fst).Nodup := by
  cases h with
  | free hserial =>
      rw [map_fst_taking]
      exact (hserial.once honce hwaits).1
  | @held visits _ holder start _ hserial _ hstart hreached =>
      rw [List.map_append, map_fst_taking]
      refine (hserial.once honce hwaits).1.append (List.nodup_singleton _) fun thread hold hmem => ?_
      have heq : thread = holder := List.mem_singleton.mp hmem
      exact (hserial.fresh honce hwaits hreached hstart).1 (heq ▸ hold)

/-- Who has not taken the lock still waits for it. -/
theorem Serialized.waits_of_notMem {shared : σ} {own : τ → κ} {order : List (τ × κ)}
    {threads : Threads σ κ τ} (hwaits : ∀ thread, program.mode (own thread) = .waiting)
    (h : program.Serialized (.start shared own) order threads) {thread : τ}
    (hnot : thread ∉ order.map Prod.fst) : threads.own thread = own thread := by
  have hidle : ∀ visits : List (Visit κ τ), thread ∉ visits.map Visit.thread →
      program.Idle (stops own visits thread) (threads.own thread) →
      threads.own thread = own thread := by
    intro visits hnew hidle
    rcases stops_cases own visits thread with ⟨-, hstop⟩ | ⟨visit, hvisit, rfl, -⟩
    · rw [hstop] at hidle
      exact eq_of_waiting (hwaits thread) hidle.since
    · exact absurd (List.mem_map_of_mem hvisit) hnew
  cases h with
  | @free visits _ _ _ hall =>
      rw [map_fst_taking] at hnot
      exact hidle visits hnot (hall thread)
  | @held visits _ holder start _ _ _ _ _ _ _ hall =>
      rw [List.map_append, map_fst_taking, List.map_singleton, List.mem_append, List.mem_singleton,
        not_or] at hnot
      exact hidle visits hnot.1 (hall thread hnot.2)

end Program

end Interleaving

end AesdChar.Lib
