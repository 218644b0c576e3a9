import AesdChar.Proof.LeakCount
import AesdChar.Proof.UnderLock

/-!
# The driver's calls have an order

However the threads in the driver are interleaved, what they get back and what they leave behind is
what the same calls give when they are made one after the other, in the order in which they are
decided. Each thread's calls are in that order as it makes them, and a call is decided while it is
in flight, so no call is overtaken by one that is made after it has returned.
-/

namespace AesdChar

open Lib

namespace InFlight

/-- The calls of a thread that are not decided. -/
def left (flight : InFlight) (tid : Nat) : List Call :=
  if (flight.thread tid).stage.decided then (flight.thread tid).calls.tail
  else (flight.thread tid).calls

variable {flight : InFlight} {tid other : Nat}

theorem thread_step_of_ne (hne : other ≠ tid) :
    (flight.step tid).thread other = flight.thread other := by
  unfold step
  split
  · rfl
  · dsimp only
    split
    · split_ifs
      · exact goto_thread_of_ne hne
      · exact goto_thread_of_ne hne
      · rfl
    · exact goto_thread_of_ne hne
    · exact Function.update_of_ne hne _ _
    · exact goto_thread_of_ne hne

theorem readTurn_decided (env : ReadEnv) (kernel : Kernel) (count iteration : Nat) (buf : Bytes)
    (fPos : Int) : (readTurn env kernel count iteration buf fPos).1.decided = true := by
  unfold readTurn
  split
  · split
    · rfl
    · dsimp only
      split <;> rfl
  · rfl

theorem writeLocked_decided (env : WriteEnv) (kernel : Kernel) (count : Nat) (fPos : Int)
    (kbuff : Option Ptr) : (writeLocked env kernel count fPos kbuff).1.decided = true := by
  unfold writeLocked
  dsimp only
  split
  · rfl
  · split <;> rfl

/-- What is decided stays decided. -/
theorem proceed_decided (call : Call) (kernel : Kernel) (fPos : Int) {stage : Stage}
    (hdecided : stage.decided = true) : (call.proceed kernel fPos stage).1.decided = true := by
  cases stage with
  | entered | copying | locking => cases hdecided
  | locked kbuff =>
      cases call with
      | write file env buf => exact writeLocked_decided _ _ _ _ _
      | read file env count =>
          simp only [Call.proceed, aesdReadStep, readLocked]
          split <;> rfl
      | llseek | ioctl => rfl
  | reading =>
      cases call with
      | read => exact readTurn_decided _ _ _ _ _ _
      | write | llseek | ioctl => rfl
  | adding | evicting | unlocking | returning => cases call <;> rfl

theorem left_goto {moved : Stage × Kernel} {holder : Option Nat} :
    (flight.goto tid moved holder).left tid =
      if moved.1.decided then (flight.thread tid).calls.tail else (flight.thread tid).calls := by
  rw [left, goto_thread_self]

theorem decides_append_left_of_goto {call : Call} {calls : List Call} {stage : Stage}
    {responses : List Response} {moved : Stage × Kernel} {holder : Option Nat}
    (hthread : flight.thread tid = ⟨call :: calls, stage, responses⟩)
    (hstep : flight.step tid = flight.goto tid moved holder)
    (hkeeps : stage.decided = true → moved.1.decided = true) :
    flight.decides tid ++ (flight.step tid).left tid = flight.left tid := by
  rw [decides_of_goto hthread hstep, hstep, left_goto, left, hthread]
  cases hbefore : stage.decided with
  | false => cases moved.1.decided <;> simp
  | true => simp [hkeeps hbefore]

theorem step_of_proceed {call : Call} {calls : List Call} {stage : Stage}
    {responses : List Response}
    (hthread : flight.thread tid = ⟨call :: calls, stage, responses⟩)
    (hlocking : ∀ kbuff, stage ≠ .locking kbuff)
    (hunlocking : ∀ kbuff response, stage ≠ .unlocking kbuff response)
    (hreturning : ∀ kbuff response, stage ≠ .returning kbuff response) :
    flight.step tid = flight.goto tid
      (call.proceed flight.system.kernel (flight.system.fPos tid) stage) flight.holder := by
  cases stage with
  | locking kbuff => exact absurd rfl (hlocking kbuff)
  | unlocking kbuff response => exact absurd rfl (hunlocking kbuff response)
  | returning kbuff response => exact absurd rfl (hreturning kbuff response)
  | entered | copying | locked | reading | adding | evicting => simp only [step, hthread]

/-- A step takes from the calls of its thread the one it decides. -/
theorem decides_append_left (flight : InFlight) (tid : Nat) :
    flight.decides tid ++ (flight.step tid).left tid = flight.left tid := by
  generalize hthread : flight.thread tid = thread
  obtain ⟨calls, stage, responses⟩ := thread
  cases calls with
  | nil =>
      have hstep : flight.step tid = flight := by simp [step, hthread]
      simp [decides, hstep, hthread]
  | cons call calls =>
      cases stage with
      | locking kbuff =>
          cases hlock : call.lock with
          | false =>
              exact decides_append_left_of_goto hthread
                (Accords.interrupted_step hthread hlock) fun hdecided => by cases hdecided
          | true =>
              by_cases hfree : flight.holder = none
              · have hstep : flight.step tid =
                    flight.goto tid (.locked kbuff, flight.system.kernel) (some tid) := by
                  simp [step, hthread, hlock, hfree]
                exact decides_append_left_of_goto hthread hstep fun _ => rfl
              · have hstep : flight.step tid = flight := by simp [step, hthread, hlock, hfree]
                simp [decides, hstep, hthread, Stage.decided]
      | unlocking kbuff response =>
          have hstep : flight.step tid =
              flight.goto tid (.returning kbuff response, flight.system.kernel) none := by
            simp only [step, hthread]
          exact decides_append_left_of_goto hthread hstep fun _ => rfl
      | returning kbuff response =>
          have hstep : flight.step tid = flight.finish tid call kbuff response := by
            simp only [step, hthread]
          simp [decides, hstep, left, finish, hthread, Stage.decided]
      | entered | copying =>
          exact decides_append_left_of_goto hthread (step_of_proceed hthread (by simp) (by simp)
            (by simp)) fun hdecided => by cases hdecided
      | locked | reading | adding | evicting =>
          exact decides_append_left_of_goto hthread (step_of_proceed hthread (by simp) (by simp)
            (by simp)) (proceed_decided call _ _)

theorem file_of_decides (hfile : ∀ call ∈ (flight.thread tid).calls, call.file = tid) :
    ∀ call ∈ flight.decides tid, call.file = tid := by
  intro call hcall
  rw [decides] at hcall
  split at hcall
  · exact hfile call (List.mem_of_mem_take hcall)
  · cases hcall

/-- The calls decided so far are, thread by thread, the first ones of its program. -/
theorem filter_append_left (hfile : ∀ tid, ∀ call ∈ (flight.thread tid).calls, call.file = tid)
    (other : Nat) :
    (flight.decides tid).filter (·.file = other) ++ (flight.step tid).left other =
      flight.left other := by
  have hcalls := file_of_decides (hfile tid)
  by_cases hne : other = tid
  · subst hne
    rw [List.filter_eq_self.mpr fun call hcall => by simpa using hcalls call hcall]
    exact flight.decides_append_left other
  · rw [List.filter_eq_nil_iff.mpr fun call hcall => by
      simpa [hcalls call hcall] using Ne.symm hne]
    rw [List.nil_append, left, thread_step_of_ne hne, left]

end InFlight

/-! ### The run -/

/-- **The invariant of a run**: some books are in order, and every thread has its program before
it. -/
def Ordered (system : System) (programs : Programs) (flight : InFlight) (past : List Call) : Prop :=
  (∃ books, Accords flight books (system.run past) fun tid => system.responses tid past) ∧
    ∀ tid, past.filter (·.file = tid) ++ flight.left tid = programs.calls tid

theorem ordered_start {system : System} {log : Log} {lost : Finset Ptr}
    (h : Follows system log lost) (programs : Programs) :
    Ordered system programs (InFlight.start system programs) [] := by
  obtain ⟨⟨entries, hrep⟩, -⟩ := h.refines
  refine ⟨⟨⟨log, log, system.kernel.dev, 0, lost, lost, lost⟩, ?_⟩, fun tid => rfl⟩
  refine ⟨h, rfl, ⟨entries, hrep⟩, ⟨fun block => ?_, ?_⟩, rfl, fun _ => ⟨rfl, rfl, rfl⟩, ?_,
    programs.file_eq, fun tid => ?_⟩
  · constructor
    · exact fun hblock => ⟨.lost block, if_pos hblock⟩
    · rintro ⟨keeper, hkeeper⟩
      cases keeper with
      | kbuff | old => simp [InFlight.keeps, InFlight.start, Stage.kbuff, Stage.oldBuffptr] at hkeeper
      | lost other =>
          simp only [InFlight.keeps, Option.ite_none_right_eq_some, Option.some.injEq] at hkeeper
          exact hkeeper.2 ▸ hkeeper.1
  · intro keeper other block hkeeper hother
    cases keeper with
    | kbuff | old => simp [InFlight.keeps, InFlight.start, Stage.kbuff, Stage.oldBuffptr] at hkeeper
    | lost first =>
        cases other with
        | kbuff | old =>
            simp [InFlight.keeps, InFlight.start, Stage.kbuff, Stage.oldBuffptr] at hother
        | lost second =>
            simp only [InFlight.keeps, Option.ite_none_right_eq_some, Option.some.injEq]
              at hkeeper hother
            rw [hkeeper.2, hother.2]
  · simp [InFlight.start, Stage.inside]
  · change Agrees _ _ _ _ [] ⟨programs.calls tid, .entered, []⟩
    cases programs.calls tid with
    | nil => exact .idle rfl
    | cons call calls => exact .undecided rfl (.entered call)

theorem Ordered.step {system : System} {programs : Programs} {flight : InFlight}
    {past : List Call} (h : Ordered system programs flight past) (tid : Nat) :
    Ordered system programs (flight.step tid) (past ++ flight.decides tid) := by
  obtain ⟨⟨books, haccords⟩, hleft⟩ := h
  obtain ⟨books', hnext⟩ := haccords.step tid
  refine ⟨⟨books', ?_⟩, fun other => ?_⟩
  · have hresponses : (fun other => system.responses other (past ++ flight.decides tid)) =
        fun other => system.responses other past ++
          (system.run past).responses other (flight.decides tid) := by
      funext other
      exact system.responses_append other past _
    rw [System.run_append, hresponses]
    exact hnext
  · rw [List.filter_append, List.append_assoc, InFlight.filter_append_left haccords.file_eq]
    exact hleft other

theorem ordered_run {system : System} {log : Log} {lost : Finset Ptr}
    (h : Follows system log lost) (programs : Programs) (schedule : List Nat) :
    Ordered system programs ((InFlight.start system programs).run schedule)
      ((InFlight.start system programs).order schedule) := by
  have halways : Along InFlight.step (fun _ _ => True) (InFlight.start system programs) schedule :=
    along_of_forall (fun _ _ => trivial) _ schedule
  exact run_history_nil (R := Ordered system programs) (fun _ _ tid _ hordered =>
    hordered.step tid) halways (ordered_start h programs)

/-! ### What the accord says -/

namespace Accords

variable {flight : InFlight} {books : Books} {after : System} {answered : Nat → List Response}

theorem responses_prefix (h : Accords flight books after answered) (tid : Nat) :
    (flight.thread tid).responses <+: answered tid := by
  have hagrees := h.thread tid
  generalize flight.thread tid = thread at hagrees
  cases hagrees with
  | idle | undecided => exact List.prefix_rfl
  | inside _ hanswered _ => exact ⟨_, hanswered.symm⟩
  | returning _ hanswered => exact ⟨_, hanswered.symm⟩

theorem of_entered (h : Accords flight books after answered) {tid : Nat}
    (hentered : (flight.thread tid).stage = .entered) :
    (flight.thread tid).responses = answered tid ∧
      flight.system.fPos tid = after.fPos tid := by
  have hagrees := h.thread tid
  generalize flight.thread tid = thread at hagrees hentered
  cases hagrees with
  | idle hfPos => exact ⟨rfl, hfPos.symm⟩
  | undecided hfPos _ => exact ⟨rfl, hfPos.symm⟩
  | inside _ _ hpledged =>
      dsimp only at hentered
      subst hentered
      cases hpledged
  | returning => cases hentered

theorem represents_of_free (h : Accords flight books after answered)
    (hfree : flight.holder = none) :
    ∃ entries, Represents flight.system.kernel entries books.log books.held := by
  obtain ⟨entries, hrep⟩ := h.represents
  obtain ⟨hlog, -, hdevice⟩ := h.free hfree
  rw [hdevice, ← hlog] at hrep
  exact ⟨entries, hrep⟩

/-- When all calls have returned, only what is lost is held. -/
theorem held_of_entered (h : Accords flight books after answered)
    (hentered : ∀ tid, (flight.thread tid).stage = .entered) : books.held = books.lost := by
  refine Finset.Subset.antisymm (fun block hblock => ?_) h.lost_subset
  obtain ⟨keeper, hkeeper⟩ := (h.shares.live_iff block).mp hblock
  cases keeper with
  | kbuff tid | old tid =>
      simp [InFlight.keeps, hentered tid, Stage.kbuff, Stage.oldBuffptr] at hkeeper
  | lost other =>
      simp only [InFlight.keeps, Option.ite_none_right_eq_some, Option.some.injEq] at hkeeper
      exact hkeeper.2 ▸ hkeeper.1

theorem free_of_entered (h : Accords flight books after answered)
    (hentered : ∀ tid, (flight.thread tid).stage = .entered) : flight.holder = none := by
  rw [Option.eq_none_iff_forall_ne_some]
  intro tid hholder
  have hinside := (h.inside tid).mp hholder
  simp [hentered tid, Stage.inside] at hinside

end Accords

/-- **The driver's calls are atomic.** However many threads are in the driver and however they are
interleaved, there is an order of the calls decided so far, thread by thread the one of its
program, such that every thread has got the responses, and has its file at the position, and the
device whenever nobody has the lock holds the commands and the pending text, that these calls give
when they are made one after the other. -/
theorem calls_atomic (config : KmallocConfig) (before : List Call) (programs : Programs)
    (schedule : List Nat) :
    let system := (System.init config).run before
    let flight := (InFlight.start system programs).run schedule
    let order := (InFlight.start system programs).order schedule
    let after := system.run order
    (∀ tid, order.filter (·.file = tid) ++ flight.left tid = programs.calls tid) ∧
      (∀ tid, (flight.thread tid).responses <+: system.responses tid order) ∧
      (∀ tid, (flight.thread tid).stage = .entered →
        (flight.thread tid).responses = system.responses tid order ∧
          flight.system.fPos tid = after.fPos tid) ∧
      (flight.holder = none → flight.system.kernel.commands = after.kernel.commands ∧
        flight.system.kernel.pending = after.kernel.pending) := by
  intro system flight order after
  obtain ⟨log, lost, hfollows, -, -⟩ := run_follows config before
  obtain ⟨⟨books, haccords⟩, hleft⟩ := ordered_run hfollows programs schedule
  refine ⟨hleft, haccords.responses_prefix, fun tid => haccords.of_entered, fun hfree => ?_⟩
  obtain ⟨entries, hrep⟩ := haccords.represents_of_free hfree
  obtain ⟨⟨entries', hrep'⟩, -⟩ := haccords.follows.refines
  exact ⟨hrep.commands_alike hrep', hrep.pending_eq.trans hrep'.pending_eq.symm⟩

/-- **The memory of the driver under any interleaving.** No access and no free ever goes wrong, and
once all calls have returned there are as many live blocks as when the calls are made one after the
other: the lock lets no buffer get lost and none be freed twice. -/
theorem calls_memory_safe (config : KmallocConfig) (before : List Call) (programs : Programs)
    (schedule : List Nat) :
    let system := (System.init config).run before
    let flight := (InFlight.start system programs).run schedule
    let order := (InFlight.start system programs).order schedule
    flight.system.kernel.heap.reports = [] ∧
      (∀ tid block, (flight.thread tid).stage.kbuff = some block →
        block ∈ flight.system.kernel.heap.live ∧
          ∀ other, (flight.thread other).stage.kbuff = some block → other = tid) ∧
      ((∀ tid, (flight.thread tid).stage = .entered) →
        flight.system.kernel.heap.live.card = (system.run order).kernel.heap.live.card) := by
  intro system flight order
  obtain ⟨log, lost, hfollows, -, -⟩ := run_follows config before
  obtain ⟨⟨books, haccords⟩, -⟩ := ordered_run hfollows programs schedule
  obtain ⟨entries, hrep⟩ := haccords.represents
  refine ⟨hrep.clean, fun tid block hkbuff => ⟨?_, fun other hother => ?_⟩, fun hentered => ?_⟩
  · exact BlockHeap.mem_live_iff.mpr ((hrep.live_iff block).mpr (Or.inr (haccords.kbuff_mem hkbuff)))
  · by_contra hne
    exact haccords.kbuff_ne hne hother hkbuff
  · have hfree := haccords.free_of_entered hentered
    obtain ⟨entries', hdevice⟩ := haccords.represents_of_free hfree
    obtain ⟨⟨entries'', hafter⟩, -⟩ := haccords.follows.refines
    have howes := haccords.owes
    rw [(haccords.free hfree).owed_eq, Nat.add_zero] at howes
    rw [hdevice.card_live, hafter.card_live, haccords.held_of_entered hentered, howes,
      hdevice.commands_alike hafter, hdevice.pending_eq, hafter.pending_eq]

end AesdChar
