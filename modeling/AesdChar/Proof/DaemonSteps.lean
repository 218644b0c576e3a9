import AesdChar.Proof.Holdings

/-!
# The steps of the server

What each step outside `handle_client` does to the descriptors and to the threads' arguments. Most
of them only move `main` or a thread along; `main` gets a new connection and passes it to a new
thread, a thread reads its argument and in the end gives it back, and whoever cleans up uses and
closes the listening socket.
-/

namespace AesdChar

open Lib

namespace Daemon

variable {daemon daemon' : Daemon} {lost : Finset ArgsPtr}

/-! ### Steps of the process alone -/

/-- What a step that only concerns the process leaves unchanged. -/
structure Quiet (daemon : Daemon) (process' : Process) : Prop where
  wellFormed : process'.WellFormed
  main_iff : process'.main = .accepted ↔ daemon.process.main = .accepted
  created_eq : process'.created = daemon.process.created
  thread_cases : ∀ tid, process'.thread tid = daemon.process.thread tid ∨
    daemon.locals tid ≠ none ∧ daemon.point tid = .returned ∧
      (daemon.process.thread tid = .serving ∨ daemon.process.thread tid = .served) ∧
      (process'.thread tid = .served ∨ process'.thread tid = .removed)

theorem Quiet.unborn_iff {process' : Process} (h : Quiet daemon process') (tid : Tid) :
    process'.thread tid = .unborn ↔ daemon.process.thread tid = .unborn := by
  rcases h.thread_cases tid with heq | ⟨-, -, hold | hold, hnew | hnew⟩ <;> simp_all

theorem Quiet.exited_iff {process' : Process} (h : Quiet daemon process') (tid : Tid) :
    process'.thread tid = .exited ↔ daemon.process.thread tid = .exited := by
  rcases h.thread_cases tid with heq | ⟨-, -, hold | hold, hnew | hnew⟩ <;> simp_all

theorem Sound.turn {process' : Process} (h : daemon.Sound lost) (hquiet : Quiet daemon process') :
    Sound { daemon with process := process' } lost where
  placed :=
    { wellFormed := hquiet.wellFormed
      born := by
        intro tid htid
        dsimp only at htid ⊢
        rw [hquiet.created_eq] at htid
        rw [ne_eq, hquiet.unborn_iff]
        exact h.placed.born tid htid
      unborn := fun tid hunborn => h.placed.unborn tid ((hquiet.unborn_iff tid).mp hunborn)
      unstarted := by
        intro tid hlocals
        rcases hquiet.thread_cases tid with heq | ⟨hstarted, -⟩
        · dsimp only
          rw [heq]
          exact h.placed.unstarted tid hlocals
        · exact absurd hlocals hstarted
      through := by
        intro tid
        rcases hquiet.thread_cases tid with heq | ⟨-, hpoint, -⟩
        · dsimp only
          rw [heq]
          exact h.placed.through tid
        · exact Or.inr (Or.inr hpoint)
      opened := h.placed.opened }
  fds := by
    refine h.fds.of_eq ⟨rfl, rfl⟩ rfl fun holder _ => ?_
    cases holder with
    | server | device => rfl
    | main => simp only [holdsFd, hquiet.main_iff]
    | client tid =>
        simp only [holdsFd, ne_eq, hquiet.unborn_iff]
        rfl
  args :=
    { owned := by
        refine h.args.owned.congr ?_
        funext holder
        cases holder with
        | inl tid => simp only [holdsArgs, ne_eq, hquiet.unborn_iff, hquiet.exited_iff]
        | inr block => rfl
      reports := h.args.reports
      passed := by
        intro tid hserving hlocals
        rcases hquiet.thread_cases tid with heq | ⟨hstarted, -⟩
        · exact h.args.passed tid (heq ▸ hserving) hlocals
        · exact absurd hlocals hstarted
      server_eq := h.args.server_eq }

/-- The actions that concern the process alone. -/
def Turns (daemon : Daemon) : Action → Prop
  | .accept ok => ok = false
  | .create _ => False
  | .exit _ => False
  | .finish tid true => daemon.locals tid ≠ none ∧ daemon.point tid = .returned
  | _ => True

theorem Placed.quiet (h : daemon.Placed) (hrunning : daemon.process.ended = false) {action : Action}
    (hturns : daemon.Turns action) : Quiet daemon (daemon.process.step action) := by
  have hmoves := Process.moves_step h.wellFormed hrunning action
  have hwf := h.wellFormed.step action
  generalize daemon.process.step action = process' at hmoves hwf
  refine ⟨hwf, ?_, ?_, fun tid => ?_⟩
  · cases hmoves with
    | accepts | creates | cannotCreate | exits => simp [Turns] at hturns
    | stays | signalled | cannotAdd | cleansUp | finishes | fails | removes => rfl
    | interrupted hmain | tested hmain | refuses hmain | adds _ _ hmain => simp [hmain]
    | leavesLoop hmain | joins _ hmain =>
        exact iff_of_false (Process.main_waitFor_ne _ _ (by simp) (by simp)) (by simp [hmain])
  · cases hmoves with
    | creates => simp [Turns] at hturns
    | leavesLoop | joins => simp [Process.joinStretch]
    | _ => rfl
  · cases hmoves with
    | accepts | creates | cannotCreate | exits => simp [Turns] at hturns
    | stays | signalled | interrupted | tested | refuses | adds | cannotAdd | cleansUp | fails =>
        exact Or.inl rfl
    | leavesLoop | joins =>
        left
        simp [Process.joinStretch]
    | finishes other hserving =>
        by_cases heq : tid = other
        · subst heq
          exact Or.inr ⟨hturns.1, hturns.2, Or.inl hserving, Or.inl (Function.update_self _ _ _)⟩
        · exact Or.inl (Function.update_of_ne heq _ _)
    | removes other _ hserved =>
        by_cases heq : tid = other
        · subst heq
          have hpoint := h.through tid
          have hstarted : daemon.locals tid ≠ none := fun hlocals => by
            simpa [hserved] using (h.unstarted tid hlocals).2
          refine Or.inr ⟨hstarted, ?_, Or.inr hserved, Or.inr (Function.update_self _ _ _)⟩
          simpa [hserved] using hpoint
        · exact Or.inl (Function.update_of_ne heq _ _)

/-! ### The other steps -/

/-- Only the descriptors have changed. -/
theorem Sound.of_fds (h : daemon.Sound lost) {fds : BlockHeap Unit}
    {cleaning : Option Tid → CleanupCall}
    (hfds : HoldsFds { daemon with fds := fds, cleaning := cleaning }) :
    Sound { daemon with fds := fds, cleaning := cleaning } lost where
  placed := ⟨h.placed.wellFormed, h.placed.born, h.placed.unborn, h.placed.unstarted,
    h.placed.through, h.placed.opened⟩
  fds := hfds
  args := ⟨h.args.owned.congr (by funext holder; cases holder <;> rfl), h.args.reports,
    h.args.passed, h.args.server_eq⟩

theorem Sound.cleanup (h : daemon.Sound lost) (hrunning : daemon.process.ended = false)
    (caller : Option Tid) {serverSocket : Fd} (hserver : serverSocket = daemon.serverSocket)
    {exit : Action} (hturns : daemon.Turns exit) :
    (daemon.cleanup caller serverSocket exit).Sound lost := by
  subst hserver
  unfold Daemon.cleanup
  cases hcleaning : daemon.cleaning caller with
  | shutdown =>
      refine h.of_fds (h.fds.useServer.setCleaning fun other hother => ?_)
      have hne : other ≠ caller := by
        rintro rfl
        rw [hcleaning] at hother
        cases hother
      exact (Function.update_of_ne hne _ _).trans hother
  | close => exact h.of_fds (h.fds.closeServer caller)
  | exit => exact h.turn (h.placed.quiet hrunning hturns)

/-- How a step of `main` in front of its new connection comes out. -/
theorem step_accept (hrunning : daemon.process.ended = false)
    (hmain : daemon.process.main = .accepting) :
    daemon.process.step (.accept true) = { daemon.process with main := .accepted } := by
  simp [Process.step, hrunning, Process.mainStep, hmain]

theorem step_create (hrunning : daemon.process.ended = false)
    (hmain : daemon.process.main = .accepted) :
    daemon.process.step (.create true) =
      { daemon.process.setThread daemon.process.created .serving with
        main := .created daemon.process.created
        created := daemon.process.created + 1 } := by
  simp [Process.step, hrunning, Process.mainStep, hmain]

theorem step_cannotCreate (hrunning : daemon.process.ended = false)
    (hmain : daemon.process.main = .accepted) :
    daemon.process.step (.create false) = { daemon.process with main := .testing } := by
  simp [Process.step, hrunning, Process.mainStep, hmain]

theorem step_exit (hrunning : daemon.process.ended = false) {tid : Tid}
    (hremoved : daemon.process.thread tid = .removed) :
    daemon.process.step (.exit tid) = daemon.process.setThread tid .exited := by
  simp [Process.step, hrunning, Process.threadStep, hremoved]

theorem Sound.accept (h : daemon.Sound lost) (hrunning : daemon.process.ended = false)
    (hmain : daemon.process.main = .accepting) (env : MainEnv) :
    (daemon.accept env).Sound lost := by
  have huse := h.of_fds h.fds.useServer
  unfold Daemon.accept
  dsimp only
  split
  · have hwf := h.placed.wellFormed.step (.accept true)
    rw [step_accept hrunning hmain] at hwf ⊢
    refine ⟨⟨hwf, h.placed.born, h.placed.unborn, h.placed.unstarted, h.placed.through,
      h.placed.opened⟩, ?_,
      ⟨h.args.owned.congr (by funext holder; cases holder <;> rfl), h.args.reports, h.args.passed,
        h.args.server_eq⟩⟩
    refine huse.fds.grant ⟨rfl, rfl⟩ .main rfl ?_ ?_ fun other hother hserver => ?_
    · simp [holdsFd, hmain]
    · simp [holdsFd]
    · cases other with
      | server => exact absurd rfl hserver
      | main => exact absurd rfl hother
      | client | device => rfl
  · exact huse.turn (huse.placed.quiet hrunning rfl)

theorem Sound.startThread (h : daemon.Sound lost) {tid : Tid}
    (hserving : daemon.process.thread tid = .serving) (hlocals : daemon.locals tid = none) :
    (daemon.startThread tid).Sound lost := by
  obtain ⟨clientSocket, hview⟩ := h.args.passed tid hserving hlocals
  obtain ⟨hpoint, -⟩ := h.placed.unstarted tid hlocals
  have hload : daemon.args.load (daemon.threadArgs tid) 0 1 =
      [⟨clientSocket, daemon.serverSocket⟩] := by
    rw [BlockHeap.load_of_view hview]
    rfl
  have hcheck : daemon.args.check (daemon.threadArgs tid) 0 1 = daemon.args :=
    BlockHeap.check_of_view hview le_rfl
  have hholds : daemon.holdsFd (.client tid) = some clientSocket := by
    simp [holdsFd, hserving, hpoint, socketOf, hlocals, hload]
  have huse : daemon.fds.check clientSocket 0 0 = daemon.fds :=
    BlockHeap.check_of_live (h.fds.owned.live hholds)
  unfold Daemon.startThread
  simp only [hload, hcheck, huse, List.headD_cons]
  have hother : ∀ other, other ≠ tid →
      Function.update daemon.locals tid (some ⟨clientSocket, daemon.serverSocket⟩) other =
        daemon.locals other := fun other hne => Function.update_of_ne hne _ _
  refine ⟨⟨h.placed.wellFormed, h.placed.born, fun other hunborn => ?_,
    fun other hunstarted => ?_, h.placed.through, h.placed.opened⟩, ?_,
    ⟨?_, h.args.reports, fun other hborn hunstarted => ?_, fun other locals hstarted => ?_⟩⟩
  · have hne : other ≠ tid := fun heq => by simp [heq, hserving] at hunborn
    exact (hother other hne).trans (h.placed.unborn other hunborn)
  · have hne : other ≠ tid := fun heq => by simp [heq] at hunstarted
    exact h.placed.unstarted other ((hother other hne).symm.trans hunstarted)
  · refine h.fds.of_eq ⟨rfl, rfl⟩ rfl fun holder _ => ?_
    cases holder with
    | server | main | device => rfl
    | client other =>
        by_cases heq : other = tid
        · subst heq
          have hlock : (daemon.clients.own other).point = .lock := hpoint
          rw [hholds]
          simp [holdsFd, point, socketOf, hserving, hlock]
        · simp only [holdsFd, socketOf, hother other heq]
          rfl
  · refine h.args.owned.congr ?_
    funext holder
    cases holder <;> rfl
  · have hne : other ≠ tid := fun heq => by simp [heq] at hunstarted
    exact h.args.passed other hborn ((hother other hne).symm.trans hunstarted)
  · by_cases heq : other = tid
    · subst heq
      have hread := (Function.update_self _ _ _).symm.trans hstarted
      rw [← Option.some.inj hread]
    · exact h.args.server_eq other locals ((hother other heq).symm.trans hstarted)

/-- A thread that ends gives back its argument. -/
theorem Sound.exit (h : daemon.Sound lost) (hrunning : daemon.process.ended = false) {tid : Tid}
    (hremoved : daemon.process.thread tid = .removed) :
    Sound { daemon with
      args := daemon.args.free (daemon.threadArgs tid)
      process := daemon.process.step (.exit tid) } lost := by
  have hwf := h.placed.wellFormed.step (.exit tid)
  rw [step_exit hrunning hremoved] at hwf ⊢
  have hstarted : daemon.locals tid ≠ none := fun hlocals => by
    simpa [hremoved] using (h.placed.unstarted tid hlocals).2
  have hpoint : daemon.point tid = .returned := by simpa [hremoved] using h.placed.through tid
  have hself : (daemon.process.setThread tid .exited).thread tid = .exited :=
    Function.update_self _ _ _
  have hother : ∀ other, other ≠ tid →
      (daemon.process.setThread tid .exited).thread other = daemon.process.thread other :=
    fun other hne => Function.update_of_ne hne _ _
  have hholds : daemon.holdsArgs lost (.inl tid) = some (daemon.threadArgs tid) := by
    simp [holdsArgs, hremoved]
  have hreports := BlockHeap.reports_free_of_live (h.args.owned.live hholds)
  refine ⟨⟨hwf, fun other hlt => ?_, fun other hunborn => ?_, fun other hunstarted => ?_,
    fun other => ?_, h.placed.opened⟩, ?_, ⟨?_, hreports.trans h.args.reports,
      fun other hserving hunstarted => ?_, h.args.server_eq⟩⟩
  · by_cases heq : other = tid
    · simp [heq, hself]
    · dsimp only
      rw [hother other heq]
      exact h.placed.born other hlt
  · have hne : other ≠ tid := fun heq => by simp [heq, hself] at hunborn
    exact h.placed.unborn other ((hother other hne).symm.trans hunborn)
  · have hne : other ≠ tid := fun heq => hstarted (heq ▸ hunstarted)
    dsimp only
    rw [hother other hne]
    exact h.placed.unstarted other hunstarted
  · by_cases heq : other = tid
    · subst heq
      exact Or.inr (Or.inr hpoint)
    · dsimp only
      rw [hother other heq]
      exact h.placed.through other
  · refine h.fds.of_eq ⟨rfl, rfl⟩ rfl fun holder _ => ?_
    cases holder with
    | server | main | device => rfl
    | client other =>
        by_cases heq : other = tid
        · subst heq
          have hreturned : (daemon.clients.own other).point = .returned := hpoint
          simp [holdsFd, point, hreturned]
        · have hload : (daemon.args.free (daemon.threadArgs tid)).load (daemon.threadArgs other) 0 1 =
              daemon.args.load (daemon.threadArgs other) 0 1 := by
            rw [BlockHeap.load, BlockHeap.cells_free, BlockHeap.load]
          simp only [holdsFd, socketOf, hload, hother other heq]
          rfl
  · refine (h.args.owned.free hholds).congr ?_
    funext holder
    cases holder with
    | inl other =>
        by_cases heq : other = tid
        · subst heq
          rw [Function.update_self]
          simp [holdsArgs, hself]
        · rw [Function.update_of_ne (by simpa using heq)]
          simp only [holdsArgs, hother other heq]
    | inr block =>
        rw [Function.update_of_ne (by simp)]
        rfl
  · have hne : other ≠ tid := fun heq => hstarted (heq ▸ hunstarted)
    have hserving' : daemon.process.thread other = .serving := (hother other hne).symm.trans hserving
    obtain ⟨clientSocket, hview⟩ := h.args.passed other hserving' hunstarted
    have hne' : daemon.threadArgs other ≠ daemon.threadArgs tid := by
      intro heq
      have hother' : daemon.holdsArgs lost (.inl other) = some (daemon.threadArgs tid) := by
        simp [holdsArgs, hserving', heq]
      exact hne (Sum.inl_injective (h.args.owned.unique hother' hholds))
    refine ⟨clientSocket, ?_⟩
    obtain ⟨contents, hcontents⟩ := Option.ne_none_iff_exists'.mp
      (BlockHeap.mem_live_iff.mp (h.args.owned.live hholds))
    dsimp only
    rw [(BlockHeap.becomes_free h.args.owned.wellFormed hcontents).view_eq,
      Function.update_of_ne hne']
    exact hview

/-- The heap with the argument of a new thread on it. -/
def withArgs (daemon : Daemon) : BlockHeap ThreadArgs :=
  (daemon.args.grant (daemon.args.fresh 1)).store daemon.args.next 0
    [⟨daemon.clientSocket, daemon.serverSocket⟩]

theorem HoldsArgs.becomes_withArgs (h : daemon.HoldsArgs lost) :
    daemon.args.Becomes daemon.withArgs (Function.update daemon.args.view daemon.args.next
      (some [⟨daemon.clientSocket, daemon.serverSocket⟩])) := by
  have hgrant := BlockHeap.becomes_grant h.owned.wellFormed (daemon.args.fresh 1)
  have hview : (daemon.args.grant (daemon.args.fresh 1)).view daemon.args.next =
      some (daemon.args.fresh 1) := by rw [hgrant.view_eq, Function.update_self]
  refine (hgrant.trans (BlockHeap.becomes_store hgrant.wellFormed hview (by simp))).congr ?_
  rw [hgrant.view_eq, Function.update_idem]
  simp [BlockHeap.fresh]

/-- The arguments of the threads there are stay where they are. -/
theorem HoldsArgs.load_withArgs (h : daemon.HoldsArgs lost) {tid : Tid}
    (hborn : daemon.process.thread tid ≠ .unborn ∧ daemon.process.thread tid ≠ .exited) :
    daemon.withArgs.load (daemon.threadArgs tid) 0 1 =
        daemon.args.load (daemon.threadArgs tid) 0 1 ∧
      daemon.withArgs.view (daemon.threadArgs tid) = daemon.args.view (daemon.threadArgs tid) := by
  have hholds : daemon.holdsArgs lost (.inl tid) = some (daemon.threadArgs tid) := if_pos hborn
  have hlive := h.owned.live hholds
  have hne : daemon.threadArgs tid ≠ daemon.args.next := (h.owned.wellFormed _ hlive).ne
  have hview : daemon.withArgs.view (daemon.threadArgs tid) =
      daemon.args.view (daemon.threadArgs tid) := by
    rw [h.becomes_withArgs.view_eq, Function.update_of_ne hne]
  refine ⟨?_, hview⟩
  obtain ⟨contents, hcontents⟩ := Option.ne_none_iff_exists'.mp (BlockHeap.mem_live_iff.mp hlive)
  rw [BlockHeap.load_of_view hcontents, BlockHeap.load_of_view (hview.trans hcontents)]

theorem create_cases (daemon : Daemon) (env : MainEnv) :
    (daemon.args.alloc env.malloc 1).1 = none ∧ daemon.create env = { daemon with crashed := true } ∨
      (daemon.args.alloc env.malloc 1).1 = some daemon.args.next ∧ daemon.create env =
        if env.ok then
          { daemon with
            args := daemon.withArgs
            threadArgs := Function.update daemon.threadArgs daemon.process.created daemon.args.next
            process := daemon.process.step (.create true) }
        else
          { daemon with
            args := daemon.withArgs
            fds := daemon.fds.free daemon.clientSocket
            process := daemon.process.step (.create false) } := by
  unfold Daemon.create BlockHeap.alloc
  by_cases hserved : env.malloc = true ∧ 1 ≤ daemon.args.limit
  · right
    simp only [if_pos hserved]
    exact ⟨trivial, rfl⟩
  · left
    simp only [if_neg hserved]
    exact ⟨trivial, trivial⟩

theorem HoldsArgs.owned_withArgs (h : daemon.HoldsArgs lost) {holder : Tid ⊕ ArgsPtr}
    (hnone : daemon.holdsArgs lost holder = none) : Owned daemon.withArgs
      (Function.update (daemon.holdsArgs lost) holder (some daemon.args.next)) :=
  (h.owned.grant hnone _).of_live_eq (BlockHeap.live_store _ _ _ _) (BlockHeap.next_store _ _ _ _)

/-- A new block makes no difference to the threads there are. -/
theorem Sound.holdsFd_withArgs (h : daemon.Sound lost) (hargs : daemon'.args = daemon.withArgs)
    (hlocals : daemon'.locals = daemon.locals) (hclients : daemon'.clients = daemon.clients)
    {tid : Tid} (hthreadArgs : daemon'.threadArgs tid = daemon.threadArgs tid)
    (hthread : daemon'.process.thread tid = daemon.process.thread tid) :
    daemon'.holdsFd (.client tid) = daemon.holdsFd (.client tid) := by
  have hpoint : daemon'.point tid = daemon.point tid := by rw [point, hclients, point]
  simp only [holdsFd, hpoint, hthread]
  by_cases hopen : daemon.process.thread tid ≠ .unborn ∧ daemon.point tid ≠ .returned
  · have hserving : daemon.process.thread tid = .serving := by
      rcases h.placed.through tid with hunborn | hserving | hreturned
      · exact absurd hunborn hopen.1
      · exact hserving
      · exact absurd hreturned hopen.2
    have hload := (h.args.load_withArgs ⟨hopen.1, by simp [hserving]⟩).1
    rw [if_pos hopen, if_pos hopen, socketOf, hargs, hlocals, hthreadArgs, hload, socketOf]
  · rw [if_neg hopen, if_neg hopen]

/-- `main` passes a block with its two sockets to a new thread. -/
theorem Sound.creates (h : daemon.Sound lost) (hrunning : daemon.process.ended = false)
    (hmain : daemon.process.main = .accepted) :
    Sound { daemon with
      args := daemon.withArgs
      threadArgs := Function.update daemon.threadArgs daemon.process.created daemon.args.next
      process := daemon.process.step (.create true) } lost := by
  have hwf := h.placed.wellFormed.step (.create true)
  have hunborn := h.placed.wellFormed.unborn daemon.process.created le_rfl
  set tid := daemon.process.created
  have hlocals := h.placed.unborn tid hunborn
  have hlock : (daemon.clients.own tid).point = .lock := (h.placed.unstarted tid hlocals).1
  have hview := h.args.becomes_withArgs.view_eq
  have hload : daemon.withArgs.load daemon.args.next 0 1 =
      [⟨daemon.clientSocket, daemon.serverSocket⟩] := by
    rw [BlockHeap.load_of_view (by rw [hview, Function.update_self])]
    rfl
  have hmain' : (daemon.process.step (.create true)).main ≠ .accepted := by
    rw [step_create hrunning hmain]
    simp
  have hself : (daemon.process.step (.create true)).thread tid = .serving := by
    rw [step_create hrunning hmain]
    exact Function.update_self _ _ _
  have hother : ∀ other, other ≠ tid →
      (daemon.process.step (.create true)).thread other = daemon.process.thread other := by
    intro other hne
    rw [step_create hrunning hmain]
    exact Function.update_of_ne hne _ _
  have hcreated : (daemon.process.step (.create true)).created = tid + 1 := by
    rw [step_create hrunning hmain]
  generalize daemon.process.step (.create true) = process' at hwf hmain' hself hother hcreated
  have hkeeps : ∀ other, other ≠ tid → Function.update daemon.threadArgs tid daemon.args.next other =
      daemon.threadArgs other := fun other hne => Function.update_of_ne hne _ _
  refine ⟨⟨hwf, fun other hlt => ?_, fun other hborn => ?_, fun other hunstarted => ?_,
    fun other => ?_, h.placed.opened⟩, ?_, ⟨?_, ?_, fun other hserving hunstarted => ?_,
      h.args.server_eq⟩⟩
  · dsimp only at hlt ⊢
    by_cases heq : other = tid
    · simp [heq, hself]
    · rw [hcreated] at hlt
      rw [hother other heq]
      exact h.placed.born other (lt_of_le_of_ne (Nat.le_of_lt_succ hlt) heq)
  · have hne : other ≠ tid := fun heq => by simp [heq, hself] at hborn
    exact h.placed.unborn other ((hother other hne).symm.trans hborn)
  · refine ⟨(h.placed.unstarted other hunstarted).1, ?_⟩
    by_cases heq : other = tid
    · exact Or.inr (heq ▸ hself)
    · dsimp only
      rw [hother other heq]
      exact (h.placed.unstarted other hunstarted).2
  · by_cases heq : other = tid
    · exact Or.inr (Or.inl (heq ▸ hself))
    · dsimp only
      rw [hother other heq]
      exact h.placed.through other
  · have hholds : daemon.holdsFd .main = some daemon.clientSocket := if_pos hmain
    have hnone : daemon.holdsFd (.client tid) = none := by simp [holdsFd, hunborn]
    refine h.fds.pass ⟨rfl, rfl⟩ rfl hholds (by simp [holdsFd, hmain']) hnone ?_ ?_
    · simp [holdsFd, hself, point, hlock, socketOf, hlocals, hload]
    · intro holder hmain'' hclient _
      cases holder with
      | server | device => rfl
      | main => exact absurd rfl hmain''
      | client other =>
          have hne : other ≠ tid := fun heq => hclient (heq ▸ rfl)
          apply h.holdsFd_withArgs
          · rfl
          · rfl
          · rfl
          · exact hkeeps other hne
          · exact hother other hne
  · have hnone : daemon.holdsArgs lost (.inl tid) = none := by simp [holdsArgs, hunborn]
    refine (h.args.owned_withArgs hnone).congr ?_
    funext holder
    cases holder with
    | inl other =>
        by_cases heq : other = tid
        · subst heq
          simp [holdsArgs, hself]
        · rw [Function.update_of_ne (by simpa using heq)]
          simp only [holdsArgs, hother other heq, hkeeps other heq]
    | inr block =>
        rw [Function.update_of_ne (by simp)]
        rfl
  · exact h.args.becomes_withArgs.reports_eq.trans h.args.reports
  · dsimp only
    by_cases heq : other = tid
    · subst heq
      exact ⟨daemon.clientSocket, by rw [Function.update_self, hview, Function.update_self]⟩
    · have hserving' := (hother other heq).symm.trans hserving
      obtain ⟨clientSocket, hpassed⟩ := h.args.passed other hserving' hunstarted
      refine ⟨clientSocket, ?_⟩
      rw [hkeeps other heq, (h.args.load_withArgs ⟨by simp [hserving'], by simp [hserving']⟩).2]
      exact hpassed

/-- When there is no thread, the connection is closed and the block is lost. -/
theorem Sound.cannotCreate (h : daemon.Sound lost) (hrunning : daemon.process.ended = false)
    (hmain : daemon.process.main = .accepted) :
    daemon.args.next ∉ lost ∧
      Sound { daemon with
        args := daemon.withArgs
        fds := daemon.fds.free daemon.clientSocket
        process := daemon.process.step (.create false) } (insert daemon.args.next lost) := by
  have hwf := h.placed.wellFormed.step (.create false)
  rw [step_cannotCreate hrunning hmain] at hwf ⊢
  have hnew : daemon.args.next ∉ lost := by
    intro hlost
    have hholds : daemon.holdsArgs lost (.inr daemon.args.next) = some daemon.args.next :=
      if_pos hlost
    exact Nat.lt_irrefl _ (h.args.owned.wellFormed _ (h.args.owned.live hholds))
  refine ⟨hnew, ⟨hwf, h.placed.born, h.placed.unborn, h.placed.unstarted, h.placed.through,
    h.placed.opened⟩, ?_,
    ⟨?_, ?_, fun other hserving hunstarted => ?_, h.args.server_eq⟩⟩
  · have hholds : daemon.holdsFd .main = some daemon.clientSocket := if_pos hmain
    refine h.fds.free ⟨rfl, rfl⟩ rfl (by simp) hholds (by simp [holdsFd]) fun holder hne hserver => ?_
    cases holder with
    | server => exact absurd rfl hserver
    | main => exact absurd rfl hne
    | client other => apply h.holdsFd_withArgs <;> rfl
    | device => rfl
  · have hnone : daemon.holdsArgs lost (.inr daemon.args.next) = none := if_neg hnew
    refine (h.args.owned_withArgs hnone).congr ?_
    funext holder
    cases holder with
    | inl other =>
        rw [Function.update_of_ne (by simp)]
        rfl
    | inr block =>
        by_cases heq : block = daemon.args.next
        · subst heq
          simp [holdsArgs]
        · rw [Function.update_of_ne (by simpa using heq)]
          simp [holdsArgs, heq]
  · exact h.args.becomes_withArgs.reports_eq.trans h.args.reports
  · have hserving' : daemon.process.thread other = .serving := hserving
    obtain ⟨clientSocket, hpassed⟩ := h.args.passed other hserving hunstarted
    refine ⟨clientSocket, ?_⟩
    dsimp only
    rw [(h.args.load_withArgs ⟨by simp [hserving'], by simp [hserving']⟩).2]
    exact hpassed

end Daemon

end AesdChar
