import AesdChar.Proof.Interleaved

/-!
# Deciding a call

A call that gives up before it has the lock is decided when it does, every other one when it takes
the lock. Up to there the thread has touched nothing but its own buffer, and the decision is what
the call does when it is made in one step.
-/

namespace AesdChar

open Lib

/-- What a step of a thread does, with the call it decides if it does. -/
def InFlight.Steps (flight : InFlight) (after : System) (answered : Nat → List Response)
    (tid : Nat) : Prop :=
  ∃ books', Accords (flight.step tid) books' (after.run (flight.decides tid))
    fun other => answered other ++ after.responses other (flight.decides tid)

section Steps

variable {flight flight' : InFlight} {books : Books} {after : System}
  {answered : Nat → List Response} {tid : Nat} {call : Call} {calls : List Call} {stage : Stage}
  {responses : List Response} {moved : Stage × Kernel} {holder : Option Nat}

theorem decides_of_goto (hthread : flight.thread tid = ⟨call :: calls, stage, responses⟩)
    (hstep : flight.step tid = flight.goto tid moved holder) :
    flight.decides tid =
      if stage.decided = false ∧ moved.1.decided = true then [call] else [] := by
  rw [InFlight.decides, hstep, InFlight.goto_thread_self, hthread]
  rfl

theorem steps_of_silent (hstep : flight.step tid = flight') (hsilent : flight.decides tid = [])
    (h : Accords flight' books after answered) : flight.Steps after answered tid := by
  have hnothing : (fun other => answered other ++ after.responses other []) = answered := by
    funext other
    exact List.append_nil _
  refine ⟨books, ?_⟩
  rw [hstep, hsilent, hnothing]
  exact h

theorem steps_of_goto (hthread : flight.thread tid = ⟨call :: calls, stage, responses⟩)
    (hstep : flight.step tid = flight.goto tid moved holder)
    (hsilent : stage.decided = true ∨ moved.1.decided = false)
    (h : Accords (flight.goto tid moved holder) books after answered) :
    flight.Steps after answered tid := by
  refine steps_of_silent hstep ?_ h
  rw [decides_of_goto hthread hstep]
  rcases hsilent with hdecided | hundecided
  · simp [hdecided]
  · simp [hundecided]

theorem steps_of_decision (hthread : flight.thread tid = ⟨call :: calls, stage, responses⟩)
    (hstep : flight.step tid = flight.goto tid moved holder) (hundecided : stage.decided = false)
    (hdecided : moved.1.decided = true)
    (h : Accords (flight.goto tid moved holder) books (after.step call)
      fun other => answered other ++ after.responses other [call]) :
    flight.Steps after answered tid := by
  refine ⟨books, ?_⟩
  rw [decides_of_goto hthread hstep, if_pos ⟨hundecided, hdecided⟩, hstep]
  exact h

theorem keeps_kbuff (hthread : flight.thread tid = ⟨call :: calls, stage, responses⟩)
    (lost : Finset Ptr) :
    Function.update (flight.keeps lost) (.kbuff tid) stage.kbuff = flight.keeps lost := by
  have hkeeps : flight.keeps lost (.kbuff tid) = stage.kbuff := by rw [InFlight.keeps, hthread]
  rw [← hkeeps, Function.update_eq_self]

theorem keeps_old (hthread : flight.thread tid = ⟨call :: calls, stage, responses⟩)
    (lost : Finset Ptr) : flight.keeps lost (.old tid) = stage.oldBuffptr := by
  rw [InFlight.keeps, hthread]

/-- The keepers are the same before and after a step that passes no block on. -/
theorem keeps_of_same (hthread : flight.thread tid = ⟨call :: calls, stage, responses⟩)
    (stage' : Stage) (hkbuff : stage'.kbuff = stage.kbuff)
    (hold : stage'.oldBuffptr = stage.oldBuffptr) (lost : Finset Ptr) :
    Function.update (Function.update (flight.keeps lost) (.kbuff tid) stage'.kbuff) (.old tid)
      stage'.oldBuffptr = flight.keeps lost := by
  rw [hkbuff, keeps_kbuff hthread, hold, ← keeps_old hthread lost, Function.update_eq_self]

end Steps

namespace Accords

variable {flight : InFlight} {books : Books} {after : System} {answered : Nat → List Response}
  {tid : Nat} {call : Call} {calls : List Call} {stage : Stage} {responses : List Response}

theorem file_of_thread (h : Accords flight books after answered)
    (hthread : flight.thread tid = ⟨call :: calls, stage, responses⟩) : call.file = tid :=
  h.file_eq tid call (by simp [hthread])

theorem shares_of_same (h : Accords flight books after answered)
    (hthread : flight.thread tid = ⟨call :: calls, stage, responses⟩) {stage' : Stage}
    (hkbuff : stage'.kbuff = stage.kbuff) (hold : stage'.oldBuffptr = stage.oldBuffptr) :
    Shares books.held (Function.update (Function.update (flight.keeps books.lost)
      (.kbuff tid) stage'.kbuff) (.old tid) stage'.oldBuffptr) := by
  rw [keeps_of_same hthread stage' hkbuff hold]
  exact h.shares

/-! ### Decisions -/

theorem others_of_decision (h : Accords flight books after answered)
    (hthread : flight.thread tid = ⟨call :: calls, stage, responses⟩) :
    ∀ other ≠ tid, (after.step call).fPos other = after.fPos other ∧
      answered other ++ after.responses other [call] = answered other := by
  intro other hne
  have hfile : call.file ≠ other := by
    rw [h.file_of_thread hthread]
    exact Ne.symm hne
  refine ⟨fPos_step_of_ne after hfile, ?_⟩
  rw [System.responses_singleton, if_neg hfile, List.append_nil]

theorem own_of_decision (h : Accords flight books after answered)
    (hthread : flight.thread tid = ⟨call :: calls, stage, responses⟩)
    (hfPos : after.fPos tid = flight.system.fPos tid) {response : Response}
    (hresponse : after.response call = some response) :
    (after.step call).fPos tid = call.keeps (flight.system.fPos tid) response ∧
      answered tid ++ after.responses tid [call] = answered tid ++ [response] := by
  have hfile := h.file_of_thread hthread
  have hstep := System.fPos_step after hresponse
  rw [hfile, hfPos] at hstep
  refine ⟨hstep, ?_⟩
  rw [System.responses_singleton, if_pos hfile, hresponse, Option.toList_some]

/-- **A call that gives up** before it has the lock. -/
theorem refuse (h : Accords flight books after answered)
    (hthread : flight.thread tid = ⟨call :: calls, stage, answered tid⟩)
    (hstands : Stands flight.system.kernel.heap call stage)
    (hfPos : after.fPos tid = flight.system.fPos tid) {response : Response}
    (hresponse : after.response call = some response)
    (hfollows : Follows (after.step call) books.log books.gone)
    (hstep : flight.step tid = flight.goto tid
      (.returning stage.kbuff response, flight.system.kernel) flight.holder) :
    flight.Steps after answered tid := by
  obtain ⟨hundecided, houtside⟩ := hstands.undecided
  obtain ⟨hown, hanswered⟩ := h.own_of_decision hthread hfPos hresponse
  have hold : stage.oldBuffptr = none := by cases hstands <;> rfl
  have haccords : Accords (flight.goto tid (.returning stage.kbuff response, flight.system.kernel)
      flight.holder) books (after.step call)
      fun other => answered other ++ after.responses other [call] := by
    refine h.moveOutside (by rw [hthread]; exact houtside) rfl rfl (fun _ _ _ => rfl) h.represents
      (h.shares_of_same hthread rfl hold.symm) hfollows (h.follows.limit_step call)
      (h.others_of_decision hthread) ?_
    rw [hthread]
    exact .returning hown hanswered
  exact steps_of_decision hthread hstep hundecided rfl haccords

/-- **A call that takes the lock**, and pledges to do what it does when it is one step. -/
theorem acquire (h : Accords flight books after answered) {kbuff : Option Ptr}
    (hthread : flight.thread tid = ⟨call :: calls, .locking kbuff, answered tid⟩)
    (hfree : flight.holder = none) (hlock : call.lock = true)
    (hfPos : after.fPos tid = flight.system.fPos tid) {response : Response}
    (hresponse : after.response call = some response) {log' : Log} {gone' : Finset Ptr}
    {owed' : Nat} (hfollows : Follows (after.step call) log' gone')
    (hcard : gone'.card = books.gone.card + owed')
    (hpledged : Pledged flight.system.kernel
      { books with log := log', owed := owed', gone := gone' } (flight.system.fPos tid) response
      call (.locked kbuff)) : flight.Steps after answered tid := by
  obtain ⟨hown, hanswered⟩ := h.own_of_decision hthread hfPos hresponse
  have hoccupied : ∀ other, (flight.thread other).stage.inside = false := by
    intro other
    rw [← Bool.not_eq_true, ← h.inside, hfree]
    simp
  have hstep : flight.step tid =
      flight.goto tid (.locked kbuff, flight.system.kernel) (some tid) := by
    simp [InFlight.step, hthread, hlock, hfree]
  have haccords : Accords (flight.goto tid (.locked kbuff, flight.system.kernel) (some tid))
      { books with log := log', owed := owed', gone := gone' } (after.step call)
      fun other => answered other ++ after.responses other [call] := by
    refine ⟨hfollows, ?_, h.represents, ?_, ?_, ?_, ?_, ?_, ?_⟩
    · exact h.limit_eq.trans (h.follows.limit_step call).symm
    · rw [InFlight.keeps_goto]
      exact h.shares_of_same hthread rfl rfl
    · have howed := (h.free hfree).owed_eq
      have howes := h.owes
      rw [hcard, ← howes, howed, Nat.add_zero]
    · intro hnone
      simp at hnone
    · intro other
      by_cases hne : other = tid
      · subst hne
        simp [Stage.inside]
      · rw [InFlight.goto_holder, InFlight.goto_thread_of_ne hne, hoccupied other]
        simp [Ne.symm hne]
    · intro other
      rw [InFlight.goto_calls]
      exact h.file_eq other
    · intro other
      by_cases hne : other = tid
      · subst hne
        rw [InFlight.goto_thread_self, hthread]
        exact .inside hown hanswered hpledged
      · obtain ⟨hsame, hsame'⟩ := h.others_of_decision hthread other hne
        rw [InFlight.goto_thread_of_ne hne, hsame, hsame']
        exact (h.thread other).outside (hoccupied other) _ rfl fun _ _ => rfl
  exact steps_of_decision hthread hstep rfl rfl haccords

/-! ### Before the lock -/

/-- A step that changes nothing but where the call is. -/
theorem advance (h : Accords flight books after answered)
    (hthread : flight.thread tid = ⟨call :: calls, .entered, answered tid⟩)
    (hfPos : after.fPos tid = flight.system.fPos tid)
    (hstands : Stands flight.system.kernel.heap call (.locking none))
    (hstep : flight.step tid =
      flight.goto tid (.locking none, flight.system.kernel) flight.holder) :
    flight.Steps after answered tid := by
  refine steps_of_goto hthread hstep (Or.inr rfl) (h.moveOutside (by rw [hthread]; rfl) rfl rfl
    (fun _ _ _ => rfl) h.represents (h.shares_of_same hthread rfl rfl) h.follows rfl
    (fun _ _ => ⟨rfl, rfl⟩) ?_)
  rw [hthread]
  exact .undecided hfPos hstands

theorem allocate (h : Accords flight books after answered) {file : Nat} {env : WriteEnv}
    {buf : Option Bytes}
    (hthread : flight.thread tid = ⟨.write file env buf :: calls, .entered, answered tid⟩)
    (hfPos : after.fPos tid = flight.system.fPos tid)
    (hbuffered : Buffered env flight.system.kernel.heap.limit buf) :
    flight.Steps after answered tid := by
  obtain ⟨entries, hrep⟩ := h.represents
  obtain ⟨hdata, hkmalloc⟩ := hbuffered
  obtain ⟨heap', halloc, hbecomes⟩ :=
    flight.system.kernel.heap.alloc_of_served hrep.wellFormed hkmalloc
  have hfresh : flight.system.kernel.heap.view flight.system.kernel.heap.next = none :=
    flight.system.kernel.heap.view_next hrep.wellFormed
  have hnew : flight.system.kernel.heap.next ∉ books.held := hrep.next_notMem_lost
  have hstep : flight.step tid = flight.goto tid
      (.copying flight.system.kernel.heap.next, ⟨heap', flight.system.kernel.dev⟩)
      flight.holder := by
    simp only [InFlight.step, hthread, Call.proceed, aesdWriteStep, writeEntered, if_neg hdata,
      kmalloc, halloc]
  have hkeeps : flight.keeps books.lost (.kbuff tid) = none := by
    rw [InFlight.keeps, hthread]
    rfl
  have hkeeps' : Function.update (flight.keeps books.lost) (.kbuff tid)
      (some flight.system.kernel.heap.next) (.old tid) = none := by
    rw [Function.update_of_ne (by simp), InFlight.keeps, hthread]
    rfl
  refine steps_of_goto hthread hstep (Or.inr rfl) (h.moveOutside (by rw [hthread]; rfl) rfl
    hbecomes.limit_eq (fun block hblock _ => ?_) ⟨entries, hrep.allocScratch hfresh hbecomes⟩ ?_
    h.follows rfl (fun _ _ => ⟨rfl, rfl⟩) ?_)
  · rw [hbecomes.view_eq, Function.update_of_ne]
    rintro rfl
    exact hnew hblock
  · change Shares _ (Function.update (Function.update _ _ (some _)) _ none)
    rw [← hkeeps', Function.update_eq_self]
    exact h.shares.insert hkeeps hnew
  · rw [hthread]
    refine .undecided hfPos (.copying ⟨hdata, ?_⟩ (by rw [hbecomes.view_eq, Function.update_self])
      (BlockHeap.length_fresh _ _))
    rw [hbecomes.limit_eq]
    exact hkmalloc

theorem fill (h : Accords flight books after answered) {file : Nat} {env : WriteEnv}
    {buf : Option Bytes} {kbuff : Ptr} {contents : Bytes}
    (hthread : flight.thread tid = ⟨.write file env buf :: calls, .copying kbuff, answered tid⟩)
    (hfPos : after.fPos tid = flight.system.fPos tid)
    (hbuffered : Buffered env flight.system.kernel.heap.limit buf)
    (hview : flight.system.kernel.heap.view kbuff = some contents)
    (hlength : contents.length = (buf.getD []).length) (hcopy : env.copyFromUser = true) :
    flight.Steps after answered tid := by
  obtain ⟨entries, hrep⟩ := h.represents
  have hkbuff : kbuff ∈ books.held := h.kbuff_mem (by rw [hthread]; rfl)
  obtain ⟨hstored, hviews, hlimit⟩ := hrep.storeScratch hkbuff hview hlength
  have hstep : flight.step tid = flight.goto tid (.locking (some kbuff),
      ⟨flight.system.kernel.heap.store kbuff 0 (buf.getD []), flight.system.kernel.dev⟩)
      flight.holder := by
    simp [InFlight.step, hthread, Call.proceed, aesdWriteStep, writeCopying, hcopy]
  refine steps_of_goto hthread hstep (Or.inr rfl) (h.moveOutside (by rw [hthread]; rfl) rfl hlimit
    (fun block _ hne => ?_) ⟨entries, hstored⟩ (h.shares_of_same hthread rfl rfl) h.follows rfl
    (fun _ _ => ⟨rfl, rfl⟩) ?_)
  · rw [hviews, Function.update_of_ne]
    rintro rfl
    exact hne (by rw [hthread]; rfl)
  · rw [hthread]
    refine .undecided hfPos (.lockingWrite (hlimit.symm ▸ hbuffered) hcopy ?_)
    rw [hviews, Function.update_self]

/-- What a write would give back now. -/
theorem response_write (h : Accords flight books after answered) {file : Nat} {env : WriteEnv}
    {buf : Option Bytes} (hthread : flight.thread tid = ⟨.write file env buf :: calls, stage,
      answered tid⟩)
    (hfPos : after.fPos tid = flight.system.fPos tid) :
    after.response (.write file env buf) = some (writeAnswer env
      flight.system.kernel.heap.limit books.log.pending buf (flight.system.fPos tid)) := by
  obtain ⟨⟨entries, hrep⟩, -⟩ := h.follows.refines
  have hfile : file = tid := h.file_of_thread hthread
  subst hfile
  rw [System.response, hrep.aesdWrite_response, h.limit_eq, hfPos]

/-- A write that gives up. -/
theorem refuseWrite (h : Accords flight books after answered) {file : Nat} {env : WriteEnv}
    {buf : Option Bytes}
    (hthread : flight.thread tid = ⟨.write file env buf :: calls, stage, answered tid⟩)
    (hfPos : after.fPos tid = flight.system.fPos tid)
    (hstands : Stands flight.system.kernel.heap (.write file env buf) stage)
    (hnot : ¬ Admits env after.kernel (buf.getD [])) {response : Response}
    (hanswer : writeAnswer env flight.system.kernel.heap.limit books.log.pending buf
      (flight.system.fPos tid) = response)
    (hstep : flight.step tid = flight.goto tid
      (.returning stage.kbuff response, flight.system.kernel) flight.holder) :
    flight.Steps after answered tid := by
  refine h.refuse hthread hstands hfPos ?_ (h.follows.refuse hnot) hstep
  rw [h.response_write hthread hfPos, hanswer]

theorem enterWrite (h : Accords flight books after answered) {file : Nat} {env : WriteEnv}
    {buf : Option Bytes}
    (hthread : flight.thread tid = ⟨.write file env buf :: calls, .entered, answered tid⟩)
    (hfPos : after.fPos tid = flight.system.fPos tid) : flight.Steps after answered tid := by
  by_cases hempty : (buf.getD []).length = 0 ∨ buf = none
  · refine h.refuseWrite hthread hfPos (.entered _) (fun hadmits => ?_) (if_pos hempty) ?_
    · rcases hempty with hlength | rfl
      · exact hadmits.1 (List.length_eq_zero_iff.mp hlength)
      · exact hadmits.1 rfl
    · simp only [InFlight.step, hthread, Call.proceed, aesdWriteStep, writeEntered, if_pos hempty]
      rfl
  by_cases hkmalloc : env.kmalloc = true ∧
      (buf.getD []).length ≤ flight.system.kernel.heap.limit
  · exact h.allocate hthread hfPos ⟨hempty, hkmalloc⟩
  have halloc : kmalloc flight.system.kernel.heap env.kmalloc (buf.getD []).length =
      (none, flight.system.kernel.heap) := BlockHeap.alloc_of_refused hkmalloc
  refine h.refuseWrite hthread hfPos (.entered _) (fun hadmits => hkmalloc ?_)
    ((if_neg hempty).trans (if_pos hkmalloc)) ?_
  · rw [h.limit_eq]
    exact hadmits.2.1
  · simp only [InFlight.step, hthread, Call.proceed, aesdWriteStep, writeEntered, if_neg hempty,
      halloc]
    rfl

theorem copyWrite (h : Accords flight books after answered) {file : Nat} {env : WriteEnv}
    {buf : Option Bytes} {kbuff : Ptr} {contents : Bytes}
    (hthread : flight.thread tid = ⟨.write file env buf :: calls, .copying kbuff, answered tid⟩)
    (hfPos : after.fPos tid = flight.system.fPos tid)
    (hbuffered : Buffered env flight.system.kernel.heap.limit buf)
    (hview : flight.system.kernel.heap.view kbuff = some contents)
    (hlength : contents.length = (buf.getD []).length) : flight.Steps after answered tid := by
  by_cases hcopy : env.copyFromUser = false
  swap
  · exact h.fill hthread hfPos hbuffered hview hlength (by simpa using hcopy)
  refine h.refuseWrite hthread hfPos (.copying hbuffered hview hlength) (fun hadmits => ?_)
    ((if_neg hbuffered.1).trans ((if_neg (not_not_intro hbuffered.2)).trans (if_pos hcopy))) ?_
  · rw [hadmits.2.2.1] at hcopy
    cases hcopy
  · simp only [InFlight.step, hthread, Call.proceed, aesdWriteStep, writeCopying, if_pos hcopy]
    rfl

/-! ### At the lock -/

/-- A thread that has to wait. -/
theorem wait (h : Accords flight books after answered) {kbuff : Option Ptr}
    (hthread : flight.thread tid = ⟨call :: calls, .locking kbuff, responses⟩)
    (hlock : call.lock = true) (hheld : flight.holder ≠ none) :
    flight.Steps after answered tid := by
  have hstep : flight.step tid = flight := by
    simp [InFlight.step, hthread, hlock, hheld]
  refine steps_of_silent hstep ?_ h
  rw [InFlight.decides, hstep]
  simp

theorem interrupted_step {kbuff : Option Ptr}
    (hthread : flight.thread tid = ⟨call :: calls, .locking kbuff, responses⟩)
    (hlock : call.lock = false) :
    flight.step tid = flight.goto tid
      (.returning kbuff ⟨-ERESTARTSYS, flight.system.fPos tid, []⟩, flight.system.kernel)
      flight.holder := by
  simp [InFlight.step, hthread, hlock]

theorem lockWrite (h : Accords flight books after answered) {file : Nat} {env : WriteEnv}
    {buf : Option Bytes} {kbuff : Ptr}
    (hthread : flight.thread tid =
      ⟨.write file env buf :: calls, .locking (some kbuff), answered tid⟩)
    (hfPos : after.fPos tid = flight.system.fPos tid)
    (hbuffered : Buffered env flight.system.kernel.heap.limit buf)
    (hcopy : env.copyFromUser = true)
    (hview : flight.system.kernel.heap.view kbuff = some (buf.getD [])) :
    flight.Steps after answered tid := by
  have hanswer : writeAnswer env flight.system.kernel.heap.limit books.log.pending buf
      (flight.system.fPos tid) =
      if env.lock = false then ⟨-ERESTARTSYS, flight.system.fPos tid, []⟩
      else lockedAnswer env flight.system.kernel.heap.limit books.log.pending (buf.getD [])
        (flight.system.fPos tid) := by
    rw [writeAnswer, if_neg hbuffered.1, if_neg (not_not_intro hbuffered.2), if_neg (by simp [hcopy])]
  cases hlock : env.lock with
  | false =>
      rw [if_pos hlock] at hanswer
      refine h.refuseWrite hthread hfPos (.lockingWrite hbuffered hcopy hview) (fun hadmits => ?_)
        hanswer (interrupted_step hthread hlock)
      rw [hadmits.2.2.2.1] at hlock
      cases hlock
  | true =>
      rw [if_neg (by simp [hlock])] at hanswer
      by_cases hfree : flight.holder = none
      swap
      · exact h.wait hthread hlock hfree
      obtain ⟨hlog, -, hdevice⟩ := h.free hfree
      rw [h.limit_eq] at hbuffered
      obtain ⟨gone', hfollows, hcard⟩ := h.follows.admit hbuffered hcopy hlock
      rw [← h.limit_eq] at hbuffered hfollows hcard
      rw [hlog] at hfollows hcard hanswer
      refine h.acquire hthread hfree hlock hfPos (h.response_write hthread hfPos) hfollows hcard
        (.lockedWrite hbuffered hview ?_ rfl rfl hdevice (by rw [hlog]; exact hanswer))
      rw [← hlog]
      exact h.follows.refines.2

/-- A call that only looks at the device, or at nothing. -/
theorem follows_other (h : Accords flight books after answered)
    (hcall : ∀ file env buf, call ≠ .write file env buf) :
    Follows (after.step call) books.log books.gone := (h.follows.step_other hcall).2

theorem lockOther (h : Accords flight books after answered)
    (hthread : flight.thread tid = ⟨call :: calls, .locking none, answered tid⟩)
    (hfPos : after.fPos tid = flight.system.fPos tid)
    (hstands : Stands flight.system.kernel.heap call (.locking none))
    (hcall : ∀ file env buf, call ≠ .write file env buf) {response : Response}
    (hresponse : after.response call = some response)
    (hinterrupted : call.lock = false →
      response = ⟨-ERESTARTSYS, flight.system.fPos tid, []⟩)
    (hpledged : call.lock = true → flight.holder = none →
      Pledged flight.system.kernel books (flight.system.fPos tid) response call (.locked none)) :
    flight.Steps after answered tid := by
  cases hlock : call.lock with
  | false =>
      refine h.refuse hthread hstands hfPos hresponse (h.follows_other hcall) ?_
      rw [hinterrupted hlock]
      exact interrupted_step hthread hlock
  | true =>
      by_cases hfree : flight.holder = none
      · refine h.acquire hthread hfree hlock hfPos hresponse (h.follows_other hcall)
          (Nat.add_zero _).symm ?_
        rw [← (h.free hfree).owed_eq]
        exact hpledged hlock hfree
      · exact h.wait hthread hlock hfree

theorem lockRead (h : Accords flight books after answered) {file count : Nat} {env : ReadEnv}
    (hthread : flight.thread tid = ⟨.read file env count :: calls, .locking none, answered tid⟩)
    (hfPos : after.fPos tid = flight.system.fPos tid) : flight.Steps after answered tid := by
  obtain ⟨⟨entries, hrep⟩, -⟩ := h.follows.refines
  have hfile : file = tid := h.file_of_thread hthread
  subst hfile
  obtain ⟨outcome, hread, -, -⟩ := h.follows.read_returns env count file
  have hresponse : after.response (.read file env count) = some outcome.response := by
    rw [System.response, hread, Option.map_some]
  rw [hfPos] at hread
  refine h.lockOther hthread hfPos (.lockingRead _ _ _) (by simp) hresponse (fun hlock => ?_)
    fun hlock hfree => ?_
  · rw [aesdRead, if_pos (show env.lock = false from hlock), Option.some.injEq] at hread
    rw [← hread]
    rfl
  · have hsettled := h.free hfree
    rw [hsettled.log_eq] at hrep
    exact .lockedRead hlock hrep (by rw [hread, Option.map_some]) hsettled

theorem lockLlseek (h : Accords flight books after answered) {file : Nat} {lock : Bool}
    {offset whence : Int}
    (hthread : flight.thread tid =
      ⟨.llseek file lock offset whence :: calls, .locking none, answered tid⟩)
    (hfPos : after.fPos tid = flight.system.fPos tid) : flight.Steps after answered tid := by
  obtain ⟨⟨entries, hrep⟩, -⟩ := h.follows.refines
  have hfile : file = tid := h.file_of_thread hthread
  subst hfile
  refine h.lockOther hthread hfPos (.lockingLlseek _ _ _ _) (by simp) rfl (fun hlock => ?_)
    fun hlock hfree => ?_
  · rw [aesdLlseek, if_pos (show lock = false from hlock), hfPos]
    rfl
  · have hsettled := h.free hfree
    rw [hsettled.log_eq] at hrep
    refine .lockedLlseek hrep ?_ hsettled
    rw [hfPos, show lock = true from hlock]

theorem lockIoctl (h : Accords flight books after answered) {file : Nat} {env : IoctlEnv}
    {cmd : UInt32} {seekto : AesdSeekto}
    (hthread : flight.thread tid =
      ⟨.ioctl file env cmd seekto :: calls, .locking none, answered tid⟩)
    (hfPos : after.fPos tid = flight.system.fPos tid) (hcmd : cmd = AESDCHAR_IOCSEEKTO)
    (hcopy : env.copyFromUser = true) : flight.Steps after answered tid := by
  obtain ⟨⟨entries, hrep⟩, -⟩ := h.follows.refines
  have hfile : file = tid := h.file_of_thread hthread
  subst hfile
  refine h.lockOther hthread hfPos (.lockingIoctl hcmd hcopy) (by simp) rfl (fun hlock => ?_)
    fun hlock hfree => ?_
  · rw [aesdUnlockedIoctl, if_neg (not_not_intro hcmd), if_neg (by simp [hcopy]),
      if_pos (show env.lock = false from hlock), hfPos]
    rfl
  · have hsettled := h.free hfree
    have henv : env = ⟨true, true⟩ := by
      obtain ⟨copyFromUser, lock⟩ := env
      cases hcopy
      cases hlock
      rfl
    rw [hsettled.log_eq] at hrep
    refine .lockedIoctl hrep ?_ hsettled
    rw [hfPos, henv]

theorem enterIoctl (h : Accords flight books after answered) {file : Nat} {env : IoctlEnv}
    {cmd : UInt32} {seekto : AesdSeekto}
    (hthread : flight.thread tid = ⟨.ioctl file env cmd seekto :: calls, .entered, answered tid⟩)
    (hfPos : after.fPos tid = flight.system.fPos tid) : flight.Steps after answered tid := by
  have hfile : file = tid := h.file_of_thread hthread
  subst hfile
  have hproceed : flight.step file = flight.goto file (aesdUnlockedIoctlStep env
      flight.system.kernel (flight.system.fPos file) cmd seekto .entered) flight.holder := by
    simp only [InFlight.step, hthread, Call.proceed]
  have hrefused : ∀ response, after.response (.ioctl file env cmd seekto) = some response →
      flight.step file = flight.goto file (.returning none response, flight.system.kernel)
        flight.holder → flight.Steps after answered file := fun response hresponse hstep =>
    h.refuse hthread (.entered _) hfPos hresponse (h.follows_other (by simp)) hstep
  by_cases hcmd : cmd = AESDCHAR_IOCSEEKTO
  swap
  · refine hrefused ⟨-ENOTTY, flight.system.fPos file, []⟩ ?_ ?_
    · rw [System.response, aesdUnlockedIoctl, if_pos hcmd, hfPos]
      rfl
    · rw [hproceed, aesdUnlockedIoctlStep, if_pos hcmd]
  by_cases hcopy : env.copyFromUser = false
  · refine hrefused ⟨-EFAULT, flight.system.fPos file, []⟩ ?_ ?_
    · rw [System.response, aesdUnlockedIoctl, if_neg (not_not_intro hcmd), if_pos hcopy, hfPos]
      rfl
    · rw [hproceed, aesdUnlockedIoctlStep, if_neg (not_not_intro hcmd), if_pos hcopy]
  refine h.advance hthread hfPos (.lockingIoctl hcmd (by simpa using hcopy)) ?_
  rw [hproceed, aesdUnlockedIoctlStep, if_neg (not_not_intro hcmd), if_neg hcopy]

/-- **Before the lock**, and at it. -/
theorem stepUndecided (h : Accords flight books after answered)
    (hthread : flight.thread tid = ⟨call :: calls, stage, answered tid⟩)
    (hfPos : after.fPos tid = flight.system.fPos tid)
    (hstands : Stands flight.system.kernel.heap call stage) : flight.Steps after answered tid := by
  cases hstands with
  | copying hbuffered hview hlength => exact h.copyWrite hthread hfPos hbuffered hview hlength
  | lockingWrite hbuffered hcopy hview => exact h.lockWrite hthread hfPos hbuffered hcopy hview
  | lockingRead => exact h.lockRead hthread hfPos
  | lockingLlseek => exact h.lockLlseek hthread hfPos
  | lockingIoctl hcmd hcopy => exact h.lockIoctl hthread hfPos hcmd hcopy
  | entered =>
      cases call with
      | write file env buf => exact h.enterWrite hthread hfPos
      | ioctl file env cmd seekto => exact h.enterIoctl hthread hfPos
      | read file env count =>
          refine h.advance hthread hfPos (.lockingRead _ _ _) ?_
          simp only [InFlight.step, hthread, Call.proceed, aesdReadStep]
      | llseek file lock offset whence =>
          refine h.advance hthread hfPos (.lockingLlseek _ _ _ _) ?_
          simp only [InFlight.step, hthread, Call.proceed, aesdLlseekStep]

end Accords

end AesdChar
