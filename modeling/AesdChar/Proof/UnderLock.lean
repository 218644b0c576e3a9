import AesdChar.Proof.Deciding

/-!
# With the lock and after it

The thread with the lock keeps its pledge step by step: it takes the device to the log that its call
leads to, and returns what the call returns when it is made in one step. The other threads are
outside the lock, and notice nothing.
-/

namespace AesdChar

open Lib

namespace Accords

variable {flight : InFlight} {books : Books} {after : System} {answered : Nat → List Response}
  {tid : Nat} {call : Call} {calls : List Call} {stage : Stage} {responses : List Response}
  {promised : Response}

theorem lost_subset (h : Accords flight books after answered) : books.lost ⊆ books.held := by
  intro block hblock
  have hkeeps : flight.keeps books.lost (.lost block) = some block := if_pos hblock
  exact h.shares.live hkeeps

/-- The thread with the lock goes on without touching the books. -/
theorem goOn (h : Accords flight books after answered)
    (hthread : flight.thread tid = ⟨call :: calls, stage, responses⟩)
    (hinside : stage.inside = true) (hdecided : stage.decided = true) {stage' : Stage}
    (hinside' : stage'.inside = true) (hkbuff : stage'.kbuff = stage.kbuff)
    (hold : stage'.oldBuffptr = stage.oldBuffptr)
    (hfPos : after.fPos tid = call.keeps (flight.system.fPos tid) promised)
    (hanswered : answered tid = responses ++ [promised])
    (hpledged : Pledged flight.system.kernel books (flight.system.fPos tid) promised call stage')
    (hstep : flight.step tid = flight.goto tid (stage', flight.system.kernel) flight.holder) :
    flight.Steps after answered tid := by
  have hbefore : (flight.thread tid).stage.inside = true := by rw [hthread]; exact hinside
  refine steps_of_goto hthread hstep (Or.inl hdecided) (h.moveInside hbefore ?_ rfl
    (fun _ _ => Or.inl rfl) h.represents (h.shares_of_same hthread hkbuff hold) rfl rfl rfl
    (by simp [hinside']) ?_)
  · rw [if_pos hinside']
    exact (h.inside tid).mpr hbefore
  · rw [hthread]
    exact .inside hfPos hanswered hpledged

/-! ### write -/

theorem stepLockedWrite (h : Accords flight books after answered) {file : Nat} {env : WriteEnv}
    {buf : Option Bytes} {kbuff : Ptr}
    (hthread : flight.thread tid =
      ⟨.write file env buf :: calls, .locked (some kbuff), responses⟩)
    (hfPos : after.fPos tid =
      (Call.write file env buf).keeps (flight.system.fPos tid) promised)
    (hanswered : answered tid = responses ++ [promised])
    (hbuffered : Buffered env flight.system.kernel.heap.limit buf)
    (hview : flight.system.kernel.heap.view kbuff = some (buf.getD []))
    (hpending : newline ∉ books.shown.pending)
    (hlog : books.log = books.shown.write (buf.getD []) (Log.effect
      (Grows env flight.system.kernel.heap.limit books.shown.pending (buf.getD []))
      (env.addEntryKmalloc = true) (buf.getD [])))
    (howed : books.owed =
      if Grows env flight.system.kernel.heap.limit books.shown.pending (buf.getD []) ∧
        newline ∈ buf.getD [] then 1 else 0)
    (hdevice : books.device = flight.system.kernel.dev)
    (hpromised : promised = lockedAnswer env flight.system.kernel.heap.limit books.shown.pending
      (buf.getD []) (flight.system.fPos tid)) : flight.Steps after answered tid := by
  obtain ⟨entries, hrep⟩ := h.represents
  rw [hdevice] at hrep
  have hbefore : (flight.thread tid).stage.inside = true := by rw [hthread]; rfl
  have hholder : flight.holder = some tid := (h.inside tid).mpr hbefore
  have hproceed : flight.step tid = flight.goto tid (writeLocked env flight.system.kernel
      (buf.getD []).length (flight.system.fPos tid) (some kbuff)) flight.holder := by
    simp only [InFlight.step, hthread, Call.proceed, aesdWriteStep]
  by_cases hgrows : Grows env flight.system.kernel.heap.limit books.shown.pending (buf.getD [])
  swap
  · -- the accumulator stays as it is, and the call is through
    rw [lockedAnswer, if_neg hgrows] at hpromised
    rw [Log.effect, if_neg hgrows] at hlog
    rw [if_neg fun hboth => hgrows hboth.1] at howed
    have hsettled : books.Settled flight.system.kernel.dev := ⟨hlog, howed, hdevice⟩
    rw [hrep.writeLocked_of_not_grows hbuffered.2.2 hgrows, ← hpromised] at hproceed
    refine h.goOn hthread rfl rfl ?_ ?_ ?_ hfPos hanswered (.unlocking _ _ hsettled) hproceed
    all_goals rfl
  have hdata : buf.getD [] ≠ [] := fun heq => hbuffered.1 (Or.inl (by rw [heq]; rfl))
  have hkbuff : kbuff ∈ books.held := h.kbuff_mem (by rw [hthread]; rfl)
  obtain ⟨kernel', hlocked, hrep', hlimit, hviews⟩ :=
    hrep.writeLocked_of_grows hdata hgrows hkbuff hview (flight.system.fPos tid)
  rw [lockedAnswer, if_pos hgrows] at hpromised
  rw [Log.effect, if_pos hgrows] at hlog
  rw [hlocked] at hproceed
  by_cases hnewline : newline ∈ buf.getD []
  · rw [if_pos hnewline] at hlog
    rw [if_pos ⟨hgrows, hnewline⟩] at howed
    have hmem : newline ∈ books.shown.pending ++ buf.getD [] := List.mem_append_right _ hnewline
    rw [if_pos hmem] at hproceed
    have haccords : Accords (flight.goto tid (.adding (some kbuff), kernel') flight.holder)
        { books with
          shown := { books.shown with pending := books.shown.pending ++ buf.getD [] }
          device := kernel'.dev } after answered := by
      refine h.moveInside hbefore hholder hlimit (fun block hblock => Or.inl (hviews block hblock))
        ⟨entries, hrep'⟩ (h.shares_of_same hthread rfl rfl) rfl rfl rfl (by simp [Stage.inside]) ?_
      rw [hthread]
      refine .inside hfPos hanswered (.adding hmem ?_ howed rfl hpromised)
      rw [hlog]
      split <;> rfl
    exact steps_of_goto hthread hproceed (Or.inl rfl) haccords
  · rw [if_neg hnewline] at hlog
    rw [if_neg fun hboth => hnewline hboth.2] at howed
    have hmem : newline ∉ books.shown.pending ++ buf.getD [] := by simp [hpending, hnewline]
    rw [if_neg hmem, ← hpromised] at hproceed
    have haccords : Accords (flight.goto tid (.unlocking (some kbuff) promised, kernel')
        flight.holder)
        { books with
          shown := { books.shown with pending := books.shown.pending ++ buf.getD [] }
          device := kernel'.dev } after answered := by
      refine h.moveInside hbefore hholder hlimit (fun block hblock => Or.inl (hviews block hblock))
        ⟨entries, hrep'⟩ (h.shares_of_same hthread rfl rfl) rfl rfl rfl (by simp [Stage.inside]) ?_
      rw [hthread]
      exact .inside hfPos hanswered (.unlocking _ _ ⟨hlog, howed, rfl⟩)
    exact steps_of_goto hthread hproceed (Or.inl rfl) haccords

/-- The command goes into the ring, or is dropped; either way a block is lost. -/
theorem stepAdding (h : Accords flight books after answered) {file : Nat} {env : WriteEnv}
    {buf : Option Bytes} {kbuff : Option Ptr}
    (hthread : flight.thread tid = ⟨.write file env buf :: calls, .adding kbuff, responses⟩)
    (hfPos : after.fPos tid =
      (Call.write file env buf).keeps (flight.system.fPos tid) promised)
    (hanswered : answered tid = responses ++ [promised])
    (hnewline : newline ∈ books.shown.pending)
    (hlog : books.log =
      if env.addEntryKmalloc = true then ⟨books.shown.committed ++ [books.shown.pending], []⟩
      else ⟨books.shown.committed, []⟩)
    (howed : books.owed = 1) (hdevice : books.device = flight.system.kernel.dev)
    (hpromised : promised = written (buf.getD []).length (flight.system.fPos tid)) :
    flight.Steps after answered tid := by
  obtain ⟨entries, hrep⟩ := h.represents
  rw [hdevice] at hrep
  have hbefore : (flight.thread tid).stage.inside = true := by rw [hthread]; rfl
  have hholder : flight.holder = some tid := (h.inside tid).mpr hbefore
  have hpending : books.shown.pending ≠ [] := List.ne_nil_of_mem hnewline
  have hproceed : flight.step tid = flight.goto tid (writeAdding env flight.system.kernel kbuff)
      flight.holder := by
    simp only [InFlight.step, hthread, Call.proceed, aesdWriteStep]
  -- the block that is lost here was nobody's before
  have hlose : ∀ block, block ∉ books.held →
      Shares (insert block books.held) (flight.keeps (insert block books.lost)) ∧
        (insert block books.lost).card + 0 = books.lost.card + books.owed := by
    intro block hnew
    have hnotLost : block ∉ books.lost := fun hmem => hnew (h.lost_subset hmem)
    refine ⟨?_, by rw [Finset.card_insert_of_notMem hnotLost, howed]⟩
    rw [InFlight.keeps_insert]
    exact h.shares.insert (if_neg hnotLost) hnew
  cases hstored : env.addEntryKmalloc with
  | false =>
      rw [if_neg (by simp [hstored])] at hlog
      rw [writeAdding_of_fail hstored] at hproceed
      obtain ⟨block, hacc, -⟩ := hrep.accumulates.exists_block hpending
      have hnew : block ∉ books.held := fun hmem => hrep.accumulator_ne_of_lost hmem hacc
      obtain ⟨hshares, hcard⟩ := hlose block hnew
      have haccords : Accords (flight.goto tid (.evicting kbuff none, flight.system.kernel)
          flight.holder)
          { books with
            shown := ⟨books.shown.committed, []⟩
            device := ⟨flight.system.kernel.dev.circularBuffer, none, 0⟩
            owed := 0
            lost := insert block books.lost
            held := insert block books.held } after answered := by
        refine h.moveInside hbefore hholder rfl (fun _ _ => Or.inl rfl)
          ⟨entries, hrep.dropPending hacc⟩ ?_ rfl rfl hcard (by simp [Stage.inside]) ?_
        · rw [keeps_of_same hthread (.evicting kbuff none) rfl rfl]
          exact hshares
        · rw [hthread]
          exact .inside hfPos hanswered (.evicting ⟨hlog, rfl, rfl⟩ hpromised)
      exact steps_of_goto hthread hproceed (Or.inl rfl) haccords
  | true =>
      rw [if_pos hstored] at hlog
      obtain ⟨heap', hadded, hrep', hevictee, hlimit, hviews⟩ :=
        hrep.writeAdding_of_stored hpending hstored kbuff
      rw [hadded] at hproceed
      obtain ⟨hshares, hcard⟩ := hlose _ hrep.next_notMem_lost
      have haccords : Accords (flight.goto tid
        (.evicting kbuff (Represents.evictee flight.system.kernel),
          ⟨heap', { flight.system.kernel.dev with
            circularBuffer := flight.system.kernel.dev.circularBuffer.pushed
              ⟨flight.system.kernel.dev.writeAccumulator, books.shown.pending.length⟩ }⟩)
          flight.holder)
          { books with
            shown := ⟨books.shown.committed ++ [books.shown.pending], []⟩
            device := ⟨flight.system.kernel.dev.circularBuffer.pushed
              ⟨flight.system.kernel.dev.writeAccumulator, books.shown.pending.length⟩, none, 0⟩
            owed := 0
            lost := insert flight.system.kernel.heap.next books.lost
            held := insert flight.system.kernel.heap.next books.held ∪
              (Represents.evictee flight.system.kernel).toFinset } after answered := by
        refine h.moveInside hbefore hholder hlimit
          (fun block hblock => Or.inl (hviews block hblock)) ⟨_, hrep'⟩ ?_ rfl rfl hcard
          (by simp [Stage.inside]) ?_
        · cases hold : Represents.evictee flight.system.kernel with
          | none =>
              rw [keeps_of_same hthread (.evicting kbuff none) rfl rfl, Option.toFinset_none,
                Finset.union_empty]
              exact hshares
          | some old =>
              have hsame : Function.update (flight.keeps (insert flight.system.kernel.heap.next
                  books.lost)) (.kbuff tid) kbuff = flight.keeps _ := keeps_kbuff hthread _
              change Shares _ (Function.update (Function.update _ _ kbuff) _ (some old))
              rw [hsame, Option.toFinset_some, Finset.union_singleton]
              exact hshares.insert (keeps_old hthread _) (hevictee old hold)
        · rw [hthread]
          exact .inside hfPos hanswered (.evicting ⟨hlog, rfl, rfl⟩ hpromised)
      exact steps_of_goto hthread hproceed (Or.inl rfl) haccords

/-- The evicted block is freed, and the accumulator starts anew. -/
theorem stepEvicting (h : Accords flight books after answered) {file : Nat} {env : WriteEnv}
    {buf : Option Bytes} {kbuff oldBuffptr : Option Ptr}
    (hthread : flight.thread tid =
      ⟨.write file env buf :: calls, .evicting kbuff oldBuffptr, responses⟩)
    (hfPos : after.fPos tid =
      (Call.write file env buf).keeps (flight.system.fPos tid) promised)
    (hanswered : answered tid = responses ++ [promised])
    (hsettled : books.Settled ⟨flight.system.kernel.dev.circularBuffer, none, 0⟩)
    (hpromised : promised = written (buf.getD []).length (flight.system.fPos tid)) :
    flight.Steps after answered tid := by
  obtain ⟨entries, hrep⟩ := h.represents
  obtain ⟨hlog, howed, hdevice⟩ := hsettled
  have hbefore : (flight.thread tid).stage.inside = true := by rw [hthread]; rfl
  have hholder : flight.holder = some tid := (h.inside tid).mpr hbefore
  have hproceed : flight.step tid = flight.goto tid (.unlocking kbuff promised,
      ⟨kfree flight.system.kernel.heap oldBuffptr,
        ⟨flight.system.kernel.dev.circularBuffer, none, 0⟩⟩) flight.holder := by
    simp only [InFlight.step, hthread, Call.proceed, aesdWriteStep, writeEvicting, hpromised]
  cases oldBuffptr with
  | none =>
      have haccords : Accords (flight.goto tid (.unlocking kbuff promised,
          ⟨kfree flight.system.kernel.heap none,
            ⟨flight.system.kernel.dev.circularBuffer, none, 0⟩⟩) flight.holder) books after
          answered := by
        refine h.moveInside hbefore hholder rfl (fun _ _ => Or.inl rfl) ⟨entries, hrep⟩
          (h.shares_of_same hthread rfl rfl) rfl rfl rfl (by simp [Stage.inside]) ?_
        rw [hthread]
        exact .inside hfPos hanswered (.unlocking _ _ ⟨hlog, howed, hdevice⟩)
      exact steps_of_goto hthread hproceed (Or.inl rfl) haccords
  | some old =>
      have hkeeps : flight.keeps books.lost (.old tid) = some old := keeps_old hthread _
      have hheld : old ∈ books.held := h.shares.live hkeeps
      have haccords : Accords (flight.goto tid (.unlocking kbuff promised,
          ⟨kfree flight.system.kernel.heap (some old),
            ⟨flight.system.kernel.dev.circularBuffer, none, 0⟩⟩) flight.holder)
          { books with held := books.held.erase old } after answered := by
        refine h.moveInside hbefore hholder (limit_kfree _ _) (fun block hblock => ?_)
          ⟨entries, hrep.freeScratch hheld⟩ ?_ rfl rfl rfl (by simp [Stage.inside]) ?_
        · by_cases heq : old = block
          · subst heq
            exact Or.inr (by rw [hthread]; rfl)
          · refine Or.inl ?_
            have hfreed := becomes_kfree hrep.wellFormed fun gone (hgone : gone ∈ some old) => by
              cases hgone
              exact (hrep.live_iff old).mpr (Or.inr hheld)
            rw [hfreed.view_eq, BlockHeap.without_of_ne]
            exact fun hsome => heq (Option.some.inj hsome)
        · change Shares _ (Function.update (Function.update _ _ kbuff) _ none)
          have hsame : Function.update (flight.keeps books.lost) (.kbuff tid) kbuff =
              flight.keeps books.lost := keeps_kbuff hthread _
          rw [hsame]
          exact h.shares.erase hkeeps
        · rw [hthread]
          exact .inside hfPos hanswered (.unlocking _ _ ⟨hlog, howed, hdevice⟩)
      exact steps_of_goto hthread hproceed (Or.inl rfl) haccords

/-! ### read, llseek and ioctl -/

theorem stepLockedRead (h : Accords flight books after answered) {file count : Nat} {env : ReadEnv}
    {alike : Kernel} {entries : List AesdBufferEntry} {lost : Finset Ptr}
    (hthread : flight.thread tid = ⟨.read file env count :: calls, .locked none, responses⟩)
    (hfPos : after.fPos tid =
      (Call.read file env count).keeps (flight.system.fPos tid) promised)
    (hanswered : answered tid = responses ++ [promised]) (hlock : env.lock = true)
    (halike : Represents alike entries books.shown lost)
    (hread : (aesdRead env alike count (flight.system.fPos tid)).map ReadOutcome.response =
      some promised)
    (hsettled : books.Settled flight.system.kernel.dev) : flight.Steps after answered tid := by
  obtain ⟨entries', hrep⟩ := h.represents
  rw [hsettled.device_eq] at hrep
  have hproceed : flight.step tid = flight.goto tid (readLocked flight.system.kernel
      (flight.system.fPos tid), flight.system.kernel) flight.holder := by
    simp only [InFlight.step, hthread, Call.proceed, aesdReadStep]
  rw [halike.aesdRead_alike hrep, aesdRead, if_neg (by simp [hlock])] at hread
  unfold readLocked at hproceed
  split at hread
  · rename_i hend
    rw [if_pos hend] at hproceed
    rw [Option.map_some, Option.some.injEq] at hread
    subst hread
    refine h.goOn hthread rfl rfl ?_ ?_ ?_ hfPos hanswered (.unlocking _ _ hsettled) hproceed
    all_goals rfl
  · rename_i hend
    rw [if_neg hend] at hproceed
    refine h.goOn hthread rfl rfl ?_ ?_ ?_ hfPos hanswered (.reading hrep hread hsettled) hproceed
    all_goals rfl

theorem stepReading (h : Accords flight books after answered) {file count iteration fuel : Nat}
    {env : ReadEnv} {buf : Bytes} {pos : Int} {alike : Kernel} {entries : List AesdBufferEntry}
    {lost : Finset Ptr}
    (hthread : flight.thread tid =
      ⟨.read file env count :: calls, .reading iteration buf pos, responses⟩)
    (hfPos : after.fPos tid =
      (Call.read file env count).keeps (flight.system.fPos tid) promised)
    (hanswered : answered tid = responses ++ [promised])
    (halike : Represents alike entries books.shown lost)
    (hloop : (aesdReadLoop env alike.dev count fuel iteration alike.heap buf pos).map
      ReadOutcome.response = some promised)
    (hsettled : books.Settled flight.system.kernel.dev) : flight.Steps after answered tid := by
  obtain ⟨entries', hrep⟩ := h.represents
  rw [hsettled.device_eq] at hrep
  have hproceed : flight.step tid = flight.goto tid (readTurn env flight.system.kernel count
      iteration buf pos) flight.holder := by
    simp only [InFlight.step, hthread, Call.proceed, aesdReadStep]
  rw [halike.aesdReadLoop_alike hrep] at hloop
  cases fuel with
  | zero => simp [aesdReadLoop] at hloop
  | succ fuel =>
      rcases hrep.readTurn_cases env count iteration buf pos with
        ⟨response, hturn, hends⟩ | ⟨buf', pos', hturn, -, -, hgoes⟩
      · rw [hends, Option.some.injEq] at hloop
        subst hloop
        rw [hturn] at hproceed
        refine h.goOn hthread rfl rfl ?_ ?_ ?_ hfPos hanswered (.unlocking _ _ hsettled) hproceed
        all_goals rfl
      · rw [hgoes] at hloop
        rw [hturn] at hproceed
        refine h.goOn hthread rfl rfl ?_ ?_ ?_ hfPos hanswered (.reading hrep hloop hsettled)
          hproceed
        all_goals rfl

theorem stepUnlocking (h : Accords flight books after answered) {kbuff : Option Ptr}
    (hthread : flight.thread tid = ⟨call :: calls, .unlocking kbuff promised, responses⟩)
    (hfPos : after.fPos tid = call.keeps (flight.system.fPos tid) promised)
    (hanswered : answered tid = responses ++ [promised])
    (hsettled : books.Settled flight.system.kernel.dev) : flight.Steps after answered tid := by
  have hbefore : (flight.thread tid).stage.inside = true := by rw [hthread]; rfl
  have hstep : flight.step tid = flight.goto tid
      (.returning kbuff promised, flight.system.kernel) none := by
    simp only [InFlight.step, hthread]
  refine steps_of_goto hthread hstep (Or.inl rfl) (h.moveInside hbefore rfl rfl
    (fun _ _ => Or.inl rfl) h.represents (h.shares_of_same hthread rfl rfl) rfl rfl rfl
    (fun _ => hsettled) ?_)
  rw [hthread]
  exact .returning hfPos hanswered

/-- **With the lock.** -/
theorem stepInside (h : Accords flight books after answered)
    (hthread : flight.thread tid = ⟨call :: calls, stage, responses⟩)
    (hfPos : after.fPos tid = call.keeps (flight.system.fPos tid) promised)
    (hanswered : answered tid = responses ++ [promised])
    (hpledged : Pledged flight.system.kernel books (flight.system.fPos tid) promised call stage) :
    flight.Steps after answered tid := by
  cases hpledged with
  | lockedWrite hbuffered hview hpending hlog howed hdevice hpromised =>
      exact h.stepLockedWrite hthread hfPos hanswered hbuffered hview hpending hlog howed hdevice
        hpromised
  | adding hnewline hlog howed hdevice hpromised =>
      exact h.stepAdding hthread hfPos hanswered hnewline hlog howed hdevice hpromised
  | evicting hsettled hpromised =>
      exact h.stepEvicting hthread hfPos hanswered hsettled hpromised
  | lockedRead hlock halike hread hsettled =>
      exact h.stepLockedRead hthread hfPos hanswered hlock halike hread hsettled
  | reading halike hloop hsettled =>
      exact h.stepReading hthread hfPos hanswered halike hloop hsettled
  | lockedLlseek halike hpromised hsettled =>
      obtain ⟨entries', hrep⟩ := h.represents
      rw [hsettled.device_eq] at hrep
      rw [halike.aesdLlseek_alike hrep] at hpromised
      subst hpromised
      refine h.goOn hthread rfl rfl ?_ ?_ ?_ hfPos hanswered (.unlocking _ none hsettled) ?_
      rotate_right
      · simp only [InFlight.step, hthread, Call.proceed, aesdLlseekStep]
      all_goals rfl
  | lockedIoctl halike hpromised hsettled =>
      obtain ⟨entries', hrep⟩ := h.represents
      rw [hsettled.device_eq] at hrep
      rw [halike.aesdUnlockedIoctl_alike hrep] at hpromised
      subst hpromised
      refine h.goOn hthread rfl rfl ?_ ?_ ?_ hfPos hanswered (.unlocking _ none hsettled) ?_
      rotate_right
      · simp only [InFlight.step, hthread, Call.proceed, aesdUnlockedIoctlStep]
      all_goals rfl
  | unlocking _ _ hsettled => exact h.stepUnlocking hthread hfPos hanswered hsettled

/-! ### The return -/

theorem keeps_finish (hthread : flight.thread tid = ⟨call :: calls, stage, responses⟩)
    (hold : stage.oldBuffptr = none) (kbuff : Option Ptr) (response : Response)
    (lost : Finset Ptr) :
    (flight.finish tid call kbuff response).keeps lost =
      Function.update (flight.keeps lost) (.kbuff tid) none := by
  funext keeper
  cases keeper with
  | lost block => simp [InFlight.keeps]
  | kbuff other =>
      by_cases hne : other = tid
      · subst hne
        simp [InFlight.keeps, InFlight.finish, Stage.kbuff]
      · simp [InFlight.keeps, InFlight.finish, hne]
  | old other =>
      by_cases hne : other = tid
      · subst hne
        rw [Function.update_of_ne (by simp), keeps_old hthread, hold]
        simp [InFlight.keeps, InFlight.finish, Stage.oldBuffptr]
      · simp [InFlight.keeps, InFlight.finish, hne]

/-- A heap in which at most the buffer of the thread is gone. -/
theorem finish_frame (h : Accords flight books after answered) {kbuff : Option Ptr}
    (hthread : flight.thread tid = ⟨call :: calls, .returning kbuff promised, responses⟩) :
    ∃ held', (∃ entries, Represents ⟨kfree flight.system.kernel.heap kbuff, books.device⟩ entries
        books.shown held') ∧
      Shares held' (Function.update (flight.keeps books.lost) (.kbuff tid) none) ∧
      ∀ block ∈ books.held, kbuff ≠ some block →
        (kfree flight.system.kernel.heap kbuff).view block =
          flight.system.kernel.heap.view block := by
  obtain ⟨entries, hrep⟩ := h.represents
  have hkeeps : flight.keeps books.lost (.kbuff tid) = kbuff := by
    rw [InFlight.keeps, hthread]
    rfl
  cases kbuff with
  | none =>
      refine ⟨books.held, ⟨entries, hrep⟩, ?_, fun _ _ _ => rfl⟩
      rw [← hkeeps, Function.update_eq_self]
      exact h.shares
  | some block =>
      have hheld : block ∈ books.held := h.shares.live hkeeps
      have hfreed := becomes_kfree hrep.wellFormed fun gone (hgone : gone ∈ some block) => by
        cases hgone
        exact (hrep.live_iff block).mpr (Or.inr hheld)
      refine ⟨_, ⟨entries, hrep.freeScratch hheld⟩, h.shares.erase hkeeps, fun other _ hne => ?_⟩
      rw [hfreed.view_eq, BlockHeap.without_of_ne hne]

theorem stepReturning (h : Accords flight books after answered) {kbuff : Option Ptr}
    (hthread : flight.thread tid = ⟨call :: calls, .returning kbuff promised, responses⟩)
    (hfPos : after.fPos tid = call.keeps (flight.system.fPos tid) promised)
    (hanswered : answered tid = responses ++ [promised]) : flight.Steps after answered tid := by
  have hstep : flight.step tid = flight.finish tid call kbuff promised := by
    simp only [InFlight.step, hthread]
  have houtside : (flight.thread tid).stage.inside = false := by rw [hthread]; rfl
  have hkbuff : (flight.thread tid).stage.kbuff = kbuff := by rw [hthread]; rfl
  have hcalls : (flight.thread tid).calls.tail = calls := by rw [hthread]; rfl
  obtain ⟨held', hrep, hshares, hviews⟩ := h.finish_frame hthread
  have hlimit : (kfree flight.system.kernel.heap kbuff).limit =
      flight.system.kernel.heap.limit := limit_kfree _ _
  have haccords : Accords (flight.finish tid call kbuff promised) { books with held := held' }
      after answered := by
    refine ⟨h.follows, hlimit.trans h.limit_eq, hrep, ?_, h.owes, fun hfree => ?_,
      fun other => ?_, fun other => ?_, fun other => ?_⟩
    · rw [keeps_finish hthread rfl]
      exact hshares
    · exact ⟨(h.free hfree).log_eq, (h.free hfree).owed_eq, (h.free hfree).device_eq⟩
    · by_cases hne : other = tid
      · subst hne
        change flight.holder = some other ↔ _
        rw [h.inside, houtside]
        simp [InFlight.finish, Stage.inside]
      · change flight.holder = some other ↔ _
        rw [h.inside]
        simp [InFlight.finish, hne]
    · by_cases hne : other = tid
      · subst hne
        simp only [InFlight.finish, Function.update_self, hcalls]
        exact fun next hnext => h.file_eq other next
          (by rw [hthread]; exact List.mem_cons_of_mem _ hnext)
      · simp only [InFlight.finish, Function.update_of_ne hne]
        exact h.file_eq other
    · by_cases hne : other = tid
      · subst hne
        simp only [InFlight.finish, Function.update_self, hcalls]
        rw [hthread, ← hanswered]
        cases calls with
        | nil => exact .idle hfPos
        | cons next calls => exact .undecided hfPos (.entered next)
      · simp only [InFlight.finish, Function.update_of_ne hne]
        refine (h.thread other).frame held' hlimit fun block hblock => ?_
        exact hviews block (h.kbuff_mem hblock) (hkbuff ▸ h.kbuff_ne hne hblock)
  refine steps_of_silent hstep ?_ haccords
  rw [InFlight.decides, if_neg]
  rw [hthread]
  simp [Stage.decided]

/-- **Every step** of a thread. -/
theorem step (h : Accords flight books after answered) (tid : Nat) :
    flight.Steps after answered tid := by
  have hagrees := h.thread tid
  generalize hthread : flight.thread tid = thread at hagrees
  cases hagrees with
  | idle hfPos =>
      have hstep : flight.step tid = flight := by simp [InFlight.step, hthread]
      refine steps_of_silent hstep ?_ h
      rw [InFlight.decides, hthread]
      simp
  | undecided hfPos hstands => exact h.stepUndecided hthread hfPos hstands
  | inside hfPos hanswered hpledged => exact h.stepInside hthread hfPos hanswered hpledged
  | returning hfPos hanswered => exact h.stepReturning hthread hfPos hanswered

end Accords

end AesdChar
