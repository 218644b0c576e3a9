import AesdChar.Proof.DaemonSteps

/-!
# No descriptor is used that is not open

A client's thread opens the device when it has the mutex and closes it before it lets the mutex go,
and it closes its connection last. With the other steps of the server this gives what is open and
what is allocated at any time of any run, and what is used or freed when it is gone.
-/

namespace AesdChar

open Lib

namespace Daemon

variable {daemon daemon' : Daemon} {lost : Finset ArgsPtr}

/-! ### Calls of handle_client -/

theorem deviceOpen_inside {thread : ClientThread} (hopen : deviceOpen thread.point = true)
    (hcloses : ∀ failed, thread.point ≠ .closeDevice failed) (kernel : Kernel) :
    deviceOpen (thread.inside kernel).1.point = true := by
  unfold ClientThread.inside
  cases hcase : thread.point with
  | recv =>
      dsimp only
      split
      · rfl
      · unfold ClientThread.dispatch
        split
        · split <;> rfl
        · rfl
  | write bytesReceived =>
      dsimp only
      split
      · rfl
      · split <;> rfl
  | read loop =>
      dsimp only
      split
      · exact hopen
      · cases loop <;> simp only [ClientThread.goto, ReplyLoop.after] <;> split <;> rfl
  | closeDevice failed => exact absurd hcase (hcloses failed)
  | ioctl | sync | rewind | send => rfl
  | lock | openDevice | unlock | cleanup | closeSocket | returned =>
      simp [hcase, deviceOpen] at hopen

/-- A thread's call, as far as the others can see it. -/
structure Called (tid : Tid) (daemon daemon' : Daemon) : Prop where
  process_eq : daemon'.process = daemon.process
  args_eq : daemon'.args = daemon.args
  threadArgs_eq : daemon'.threadArgs = daemon.threadArgs
  locals_eq : daemon'.locals = daemon.locals
  clientSocket_eq : daemon'.clientSocket = daemon.clientSocket
  same : SameServer daemon daemon'
  own_eq : ∀ other, other ≠ tid → daemon'.clients.own other = daemon.clients.own other
  dataFd_eq : ∀ other, other ≠ tid → daemon'.dataFd other = daemon.dataFd other

section Called

variable {tid : Tid} {locals : ThreadArgs}

theorem Called.point_eq (h : Called tid daemon daemon') {other : Tid} (hne : other ≠ tid) :
    daemon'.point other = daemon.point other := congrArg ClientThread.point (h.own_eq other hne)

theorem Called.holdsFd_of_ne (h : Called tid daemon daemon') {holder : FdHolder}
    (hserver : holder ≠ .server) (hclient : holder ≠ .client tid) (hdevice : holder ≠ .device tid) :
    daemon'.holdsFd holder = daemon.holdsFd holder := by
  cases holder with
  | server => exact absurd rfl hserver
  | main => simp only [holdsFd, h.process_eq, h.clientSocket_eq]
  | client other =>
      have hne : other ≠ tid := fun heq => hclient (heq ▸ rfl)
      have hsocket : daemon'.socketOf other = daemon.socketOf other := by
        rw [socketOf, h.args_eq, h.threadArgs_eq, h.locals_eq, socketOf]
      simp only [holdsFd]
      rw [h.point_eq hne, hsocket, h.process_eq]
  | device other =>
      have hne : other ≠ tid := fun heq => hdevice (heq ▸ rfl)
      simp only [holdsFd]
      rw [h.point_eq hne, h.dataFd_eq other hne]

theorem Called.holdsFd_client (h : Called tid daemon daemon')
    (hserving : daemon.process.thread tid = .serving) (hlocals : daemon.locals tid = some locals) :
    daemon'.holdsFd (.client tid) =
      if daemon'.point tid = .returned then none else some locals.clientSocket := by
  simp [holdsFd, socketOf, h.process_eq, h.locals_eq, hserving, hlocals]

/-- Only the descriptors need to be looked at. -/
theorem Called.sound (h : Called tid daemon daemon') (hsound : daemon.Sound lost)
    (hserving : daemon.process.thread tid = .serving) (hlocals : daemon.locals tid = some locals)
    (hopened : deviceOpen (daemon'.point tid) = true → daemon'.dataFd tid ≠ none)
    (hfds : daemon'.HoldsFds) : daemon'.Sound lost := by
  refine ⟨⟨?_, ?_, ?_, fun other hunstarted => ?_, fun other => ?_, fun other => ?_⟩, hfds,
    ⟨?_, ?_, ?_, ?_⟩⟩
  · rw [h.process_eq]
    exact hsound.placed.wellFormed
  · rw [h.process_eq]
    exact hsound.placed.born
  · rw [h.process_eq, h.locals_eq]
    exact hsound.placed.unborn
  · rw [h.locals_eq] at hunstarted
    have hne : other ≠ tid := fun heq => by simp [heq, hlocals] at hunstarted
    rw [h.process_eq, h.point_eq hne]
    exact hsound.placed.unstarted other hunstarted
  · rw [h.process_eq]
    by_cases heq : other = tid
    · exact Or.inr (Or.inl (heq ▸ hserving))
    · rw [h.point_eq heq]
      exact hsound.placed.through other
  · by_cases heq : other = tid
    · exact heq ▸ hopened
    · rw [h.point_eq heq, h.dataFd_eq other heq]
      exact hsound.placed.opened other
  · rw [h.args_eq]
    refine hsound.args.owned.congr ?_
    funext holder
    cases holder <;> simp only [holdsArgs, h.process_eq, h.threadArgs_eq]
  · rw [h.args_eq]
    exact hsound.args.reports
  · rw [h.process_eq, h.locals_eq, h.args_eq, h.threadArgs_eq, h.same.serverSocket_eq]
    exact hsound.args.passed
  · rw [h.locals_eq, h.same.serverSocket_eq]
    exact hsound.args.server_eq

/-- The call opens and closes nothing. -/
theorem Called.quiet (h : Called tid daemon daemon') (hsound : daemon.Sound lost)
    (hserving : daemon.process.thread tid = .serving) (hlocals : daemon.locals tid = some locals)
    (hfds : daemon'.fds = daemon.fds) (hbefore : daemon.point tid ≠ .returned)
    (hafter : daemon'.point tid ≠ .returned)
    (hopen : deviceOpen (daemon'.point tid) = deviceOpen (daemon.point tid))
    (hdata : deviceOpen (daemon.point tid) = true → daemon'.dataFd tid = daemon.dataFd tid) :
    daemon'.Sound lost := by
  refine h.sound hsound hserving hlocals (fun hopen' => ?_)
    (hsound.fds.of_eq h.same hfds fun holder hserver => ?_)
  · rw [hopen] at hopen'
    rw [hdata hopen']
    exact hsound.placed.opened tid hopen'
  · by_cases hclient : holder = .client tid
    · subst hclient
      rw [h.holdsFd_client hserving hlocals, if_neg hafter]
      simp [holdsFd, hserving, hbefore, socketOf, hlocals]
    · by_cases hdevice : holder = .device tid
      · subst hdevice
        simp only [holdsFd, hopen]
        split
        · exact hdata ‹_›
        · rfl
      · exact h.holdsFd_of_ne hserver hclient hdevice

/-- The call opens the device. -/
theorem Called.opens (h : Called tid daemon daemon') (hsound : daemon.Sound lost)
    (hserving : daemon.process.thread tid = .serving) (hlocals : daemon.locals tid = some locals)
    (hfds : daemon'.fds = daemon.fds.grant []) (hbefore : daemon.point tid = .openDevice)
    (hafter : daemon'.point tid = .recv) (hdata : daemon'.dataFd tid = some daemon.fds.next) :
    daemon'.Sound lost := by
  refine h.sound hsound hserving hlocals (fun _ => by simp [hdata])
    (hsound.fds.grant h.same (.device tid) hfds ?_ ?_ fun holder hdevice hserver => ?_)
  · simp [holdsFd, hbefore, deviceOpen]
  · simp [holdsFd, hafter, deviceOpen, hdata]
  · by_cases hclient : holder = .client tid
    · subst hclient
      rw [h.holdsFd_client hserving hlocals]
      simp [holdsFd, hserving, hbefore, hafter, socketOf, hlocals]
    · exact h.holdsFd_of_ne hserver hclient hdevice

/-- The call closes the device. -/
theorem Called.closesDevice (h : Called tid daemon daemon') (hsound : daemon.Sound lost)
    (hserving : daemon.process.thread tid = .serving) (hlocals : daemon.locals tid = some locals)
    {failed : Bool} {fd : Fd} (hfds : daemon'.fds = daemon.fds.free fd)
    (hbefore : daemon.point tid = .closeDevice failed)
    (hafter : daemon'.point tid = .unlock failed) (hdata : daemon.dataFd tid = some fd) :
    daemon'.Sound lost := by
  refine h.sound hsound hserving hlocals (fun hopen => by simp [hafter, deviceOpen] at hopen)
    (hsound.fds.free h.same hfds (by simp) (?_ : daemon.holdsFd (.device tid) = some fd) ?_
      fun holder hdevice hserver => ?_)
  · simp [holdsFd, hbefore, deviceOpen, hdata]
  · simp [holdsFd, hafter, deviceOpen]
  · by_cases hclient : holder = .client tid
    · subst hclient
      rw [h.holdsFd_client hserving hlocals]
      simp [holdsFd, hserving, hbefore, hafter, socketOf, hlocals]
    · exact h.holdsFd_of_ne hserver hclient hdevice

/-- The call closes the connection. -/
theorem Called.closesSocket (h : Called tid daemon daemon') (hsound : daemon.Sound lost)
    (hserving : daemon.process.thread tid = .serving) (hlocals : daemon.locals tid = some locals)
    (hfds : daemon'.fds = daemon.fds.free locals.clientSocket)
    (hbefore : daemon.point tid = .closeSocket) (hafter : daemon'.point tid = .returned) :
    daemon'.Sound lost := by
  have hholds : daemon.holdsFd (.client tid) = some locals.clientSocket := by
    simp [holdsFd, hserving, hbefore, socketOf, hlocals]
  refine h.sound hsound hserving hlocals (fun hopen => by simp [hafter, deviceOpen] at hopen)
    (hsound.fds.free h.same hfds (by simp) hholds ?_ fun holder hclient hserver => ?_)
  · rw [h.holdsFd_client hserving hlocals, if_pos hafter]
  · by_cases hdevice : holder = .device tid
    · subst hdevice
      simp [holdsFd, hbefore, hafter, deviceOpen]
    · exact h.holdsFd_of_ne hserver hclient hdevice

end Called

section Call

variable {tid : Tid} {locals : ThreadArgs}

theorem called_call (daemon : Daemon) (tid : Tid) (clientSocket : Fd) :
    Called tid daemon (daemon.call tid clientSocket) where
  process_eq := rfl
  args_eq := rfl
  threadArgs_eq := rfl
  locals_eq := rfl
  clientSocket_eq := rfl
  same := ⟨rfl, rfl⟩
  own_eq := fun _ hne => handleClientProgram.own_step_of_ne daemon.clients hne
  dataFd_eq := fun _ hne => Function.update_of_ne hne _ _

theorem dataFd_call (daemon : Daemon) (tid : Tid) (clientSocket : Fd) :
    (daemon.call tid clientSocket).dataFd tid = (daemon.fdCall tid clientSocket).2 :=
  Function.update_self _ _ _

theorem point_call_of_holding (hholding : (daemon.point tid).mode = .holding) (clientSocket : Fd) :
    (daemon.call tid clientSocket).point tid =
      ((daemon.clients.own tid).inside daemon.clients.shared).1.point := by
  have hstep : daemon.clients.step tid = _ := Program.step_of_holding hholding
  change ((daemon.clients.step tid).own tid).point = _
  rw [hstep]
  exact congrArg ClientThread.point (Function.update_self _ _ _)

theorem point_call_of_outside (hpoint : daemon.point tid = .closeSocket) (clientSocket : Fd) :
    (daemon.call tid clientSocket).point tid = .returned := by
  have hcloses : (daemon.clients.own tid).point = .closeSocket := hpoint
  have hmode : handleClientProgram.mode (daemon.clients.own tid) = .outside := by
    simp [handleClientProgram, hcloses, Point.mode]
  have hstep : daemon.clients.step tid = _ := Program.step_of_outside hmode
  change ((daemon.clients.step tid).own tid).point = _
  rw [hstep]
  refine (congrArg ClientThread.point (Function.update_self _ _ _)).trans ?_
  simp [handleClientProgram, ClientThread.outside, hcloses]

theorem point_call_of_lock (hpoint : daemon.point tid = .lock) (clientSocket : Fd) :
    (daemon.call tid clientSocket).point tid = .lock ∨
      (daemon.call tid clientSocket).point tid = .openDevice := by
  have hlock : (daemon.clients.own tid).point = .lock := hpoint
  have hmode : handleClientProgram.mode (daemon.clients.own tid) = .waiting := by
    simp [handleClientProgram, hlock, Point.mode]
  change ((daemon.clients.step tid).own tid).point = _ ∨ ((daemon.clients.step tid).own tid).point = _
  by_cases hfree : daemon.clients.holder = none
  · have hstep : daemon.clients.step tid = _ := Program.step_of_waiting hmode hfree
    rw [hstep]
    exact Or.inr ((congrArg ClientThread.point (Function.update_self _ _ _)).trans rfl)
  · have hstep : daemon.clients.step tid = _ := Program.step_of_blocked hmode hfree
    rw [hstep]
    exact Or.inl hlock

/-- What a call uses is open. -/
theorem Sound.fdCall_eq (h : daemon.Sound lost)
    (hsocket : daemon.holdsFd (.client tid) = some locals.clientSocket)
    (hopen : deviceOpen (daemon.point tid) = true)
    (hcloses : ∀ failed, daemon.point tid ≠ .closeDevice failed) :
    daemon.fdCall tid locals.clientSocket = (daemon.fds, daemon.dataFd tid) := by
  have huse : useFd daemon.fds (some locals.clientSocket) = daemon.fds :=
    BlockHeap.check_of_live (h.fds.owned.live hsocket)
  have hdevice : useFd daemon.fds (daemon.dataFd tid) = daemon.fds := by
    obtain ⟨fd, hdata⟩ := Option.ne_none_iff_exists'.mp (h.placed.opened tid hopen)
    have hholds : daemon.holdsFd (.device tid) = some fd := by simp [holdsFd, hopen, hdata]
    rw [hdata]
    exact BlockHeap.check_of_live (h.fds.owned.live hholds)
  unfold fdCall
  change deviceOpen (daemon.clients.own tid).point = true at hopen
  change ∀ failed, (daemon.clients.own tid).point ≠ .closeDevice failed at hcloses
  cases hpoint : (daemon.clients.own tid).point with
  | recv | send => simp only [huse]
  | ioctl | sync | write | rewind | read => simp only [hdevice]
  | closeDevice failed => exact absurd hpoint (hcloses failed)
  | lock | openDevice | unlock | cleanup | closeSocket | returned =>
      simp [hpoint, deviceOpen] at hopen

theorem ne_of_deviceOpen {point : Point} (hopen : deviceOpen point = true) : point ≠ .returned := by
  rintro rfl
  cases hopen

theorem mode_of_deviceOpen {point : Point} (hopen : deviceOpen point = true) :
    point.mode = .holding := by
  cases point <;> simp_all [deviceOpen, Point.mode]

/-- **Every call of handle_client** leaves the descriptors in order. -/
theorem Sound.call (h : daemon.Sound lost) (hserving : daemon.process.thread tid = .serving)
    (hlocals : daemon.locals tid = some locals) (hcleanup : daemon.point tid ≠ .cleanup)
    (hreturned : daemon.point tid ≠ .returned) :
    (daemon.call tid locals.clientSocket).Sound lost := by
  have hcalled := called_call daemon tid locals.clientSocket
  have hdata := dataFd_call daemon tid locals.clientSocket
  have hfds : (daemon.call tid locals.clientSocket).fds =
    (daemon.fdCall tid locals.clientSocket).1 := rfl
  have hsocket : daemon.holdsFd (.client tid) = some locals.clientSocket := by
    simp [holdsFd, hserving, hreturned, socketOf, hlocals]
  by_cases hopen : deviceOpen (daemon.point tid) = true ∧
      ∀ failed, daemon.point tid ≠ .closeDevice failed
  · obtain ⟨hopen, hcloses⟩ := hopen
    have heq := h.fdCall_eq hsocket hopen hcloses
    have hafter : deviceOpen ((daemon.call tid locals.clientSocket).point tid) = true := by
      rw [point_call_of_holding (mode_of_deviceOpen hopen)]
      exact deviceOpen_inside hopen hcloses _
    rw [heq] at hfds hdata
    exact hcalled.quiet h hserving hlocals hfds hreturned (ne_of_deviceOpen hafter)
      (hafter.trans hopen.symm) fun _ => hdata
  cases hpoint : daemon.point tid with
  | lock =>
      have hlock : (daemon.clients.own tid).point = .lock := hpoint
      have hcall : daemon.fdCall tid locals.clientSocket = (daemon.fds, daemon.dataFd tid) := by
        simp [fdCall, hlock]
      rw [hcall] at hfds hdata
      rcases point_call_of_lock hpoint locals.clientSocket with hafter | hafter <;>
        exact hcalled.quiet h hserving hlocals hfds hreturned (by simp [hafter])
          (by simp [hafter, hpoint, deviceOpen]) fun _ => hdata
  | openDevice =>
      have hopens : (daemon.clients.own tid).point = .openDevice := hpoint
      have hafter : (daemon.call tid locals.clientSocket).point tid = _ :=
        point_call_of_holding (by rw [hpoint]; rfl) _
      simp only [ClientThread.inside, hopens] at hafter
      by_cases hopened : (daemon.clients.own tid).env.opened = true
      · rw [if_pos hopened] at hafter
        have hcall : daemon.fdCall tid locals.clientSocket =
            (daemon.fds.grant [], some daemon.fds.next) := by simp [fdCall, hopens, hopened]
        rw [hcall] at hfds hdata
        exact hcalled.opens h hserving hlocals hfds hpoint hafter hdata
      · rw [if_neg hopened] at hafter
        have hcall : (daemon.fdCall tid locals.clientSocket).1 = daemon.fds := by
          simp [fdCall, hopens, hopened]
        rw [hcall] at hfds
        refine hcalled.quiet h hserving hlocals hfds hreturned ?_ ?_ fun hopen => ?_
        · rw [hafter]
          simp [ClientThread.goto]
        · rw [hafter, hpoint]
          rfl
        · rw [hpoint] at hopen
          cases hopen
  | closeDevice failed =>
      have hcloses : (daemon.clients.own tid).point = .closeDevice failed := hpoint
      have hafter : (daemon.call tid locals.clientSocket).point tid = _ :=
        point_call_of_holding (by rw [hpoint]; rfl) _
      simp only [ClientThread.inside, hcloses] at hafter
      obtain ⟨fd, hfd⟩ := Option.ne_none_iff_exists'.mp
        (h.placed.opened tid (by rw [hpoint]; rfl))
      have hcall : (daemon.fdCall tid locals.clientSocket).1 = daemon.fds.free fd := by
        simp [fdCall, hcloses, hfd, closeFd]
      rw [hcall] at hfds
      exact hcalled.closesDevice h hserving hlocals hfds hpoint hafter hfd
  | unlock failed =>
      have hunlocks : (daemon.clients.own tid).point = .unlock failed := hpoint
      have hafter : (daemon.call tid locals.clientSocket).point tid = _ :=
        point_call_of_holding (by rw [hpoint]; rfl) _
      simp only [ClientThread.inside, hunlocks, ClientThread.goto] at hafter
      have hcall : daemon.fdCall tid locals.clientSocket = (daemon.fds, daemon.dataFd tid) := by
        simp [fdCall, hunlocks]
      rw [hcall] at hfds hdata
      refine hcalled.quiet h hserving hlocals hfds hreturned ?_ ?_ fun _ => hdata
      · rw [hafter]
        cases failed <;> simp
      · rw [hafter, hpoint]
        cases failed <;> rfl
  | closeSocket =>
      have hcloses : (daemon.clients.own tid).point = .closeSocket := hpoint
      have hcall : (daemon.fdCall tid locals.clientSocket).1 =
          daemon.fds.free locals.clientSocket := by simp [fdCall, hcloses, closeFd]
      rw [hcall] at hfds
      exact hcalled.closesSocket h hserving hlocals hfds hpoint (point_call_of_outside hpoint _)
  | cleanup => exact absurd hpoint hcleanup
  | returned => exact absurd hpoint hreturned
  | _ => exact absurd ⟨by rw [hpoint]; rfl, by simp [hpoint]⟩ hopen

end Call

/-! ### Runs -/

theorem Sound.crash (h : daemon.Sound lost) : Sound { daemon with crashed := true } lost where
  placed := ⟨h.placed.wellFormed, h.placed.born, h.placed.unborn, h.placed.unstarted,
    h.placed.through, h.placed.opened⟩
  fds := ⟨h.fds.owned.congr (by funext holder; cases holder <;> rfl), h.fds.server_lt,
    h.fds.reports, h.fds.reports_of_live, h.fds.closed⟩
  args := ⟨h.args.owned.congr (by funext holder; cases holder <;> rfl), h.args.reports,
    h.args.passed, h.args.server_eq⟩

theorem Sound.threadStep (h : daemon.Sound lost) (hrunning : daemon.process.ended = false)
    (tid : Tid) : (daemon.threadStep tid).Sound lost := by
  unfold Daemon.threadStep
  cases hthread : daemon.process.thread tid with
  | unborn | exited => exact h
  | served => exact h.turn (h.placed.quiet hrunning trivial)
  | removed => exact h.exit hrunning hthread
  | serving =>
      cases hlocals : daemon.locals tid with
      | none => exact h.startThread hthread hlocals
      | some locals =>
          change (daemon.serve tid locals).Sound lost
          unfold Daemon.serve
          split
          · exact h.cleanup hrunning _ (h.args.server_eq tid locals hlocals) trivial
          · rename_i hreturned
            exact h.turn (h.placed.quiet hrunning ⟨by simp [hlocals], hreturned⟩)
          · rename_i hcleanup hreturned
            exact h.call hthread hlocals hcleanup hreturned

theorem Sound.mainStep (h : daemon.Sound lost) (hrunning : daemon.process.ended = false)
    (env : MainEnv) (hkept : daemon.process.main ≠ .accepted ∨ env.ok = true) :
    (daemon.mainStep env).Sound lost := by
  unfold Daemon.mainStep
  cases hmain : daemon.process.main with
  | testing | created | joining => exact h.turn (h.placed.quiet hrunning trivial)
  | accepting => exact h.accept hrunning hmain env
  | acceptFailed | joined => exact h.cleanup hrunning none rfl trivial
  | accepted =>
      have hok := hkept.resolve_left (not_not_intro hmain)
      dsimp only
      rcases create_cases daemon env with ⟨-, hcreate⟩ | ⟨-, hcreate⟩
      · rw [hcreate]
        exact h.crash
      · rw [hcreate, if_pos hok]
        exact h.creates hrunning hmain

/-- **Every step** keeps the descriptors and the arguments in order, and loses a block only when
`pthread_create` fails. -/
theorem Sound.step {past : List ArgsPtr} (h : daemon.Sound past.toFinset) (hnodup : past.Nodup)
    (event : Event) : (past ++ daemon.lostBy event).Nodup ∧
      (daemon.step event).Sound (past ++ daemon.lostBy event).toFinset := by
  have hkeeps : daemon.lostBy event = [] → (daemon.step event).Sound past.toFinset →
      (past ++ daemon.lostBy event).Nodup ∧
        (daemon.step event).Sound (past ++ daemon.lostBy event).toFinset := by
    intro hnone hsound
    rw [hnone, List.append_nil]
    exact ⟨hnodup, hsound⟩
  unfold Daemon.step at hkeeps ⊢
  by_cases hstopped : daemon.process.ended = true ∨ daemon.crashed = true
  · rw [if_pos hstopped] at hkeeps ⊢
    refine hkeeps ?_ h
    cases event with
    | signal | thread => rfl
    | main env =>
        refine if_neg fun hloses => ?_
        simp [hloses.1, hloses.2.1] at hstopped
  · rw [if_neg hstopped] at hkeeps ⊢
    obtain ⟨hended, hcrashed⟩ := not_or.mp hstopped
    have hrunning := Bool.eq_false_of_not_eq_true hended
    cases event with
    | signal interrupts => exact hkeeps rfl (h.turn (h.placed.quiet hrunning trivial))
    | thread tid => exact hkeeps rfl (h.threadStep hrunning tid)
    | main env =>
        by_cases hkept : daemon.process.main ≠ .accepted ∨ env.ok = true
        · refine hkeeps (if_neg fun hloses => ?_) (h.mainStep hrunning env hkept)
          simp [hloses.2.2.1, hloses.2.2.2] at hkept
        obtain ⟨hmain, hfails⟩ := not_or.mp hkept
        have hmain := not_not.mp hmain
        have hok := Bool.eq_false_of_not_eq_true hfails
        have hlost : daemon.lostBy (.main env) = (daemon.args.alloc env.malloc 1).1.toList :=
          if_pos ⟨hrunning, Bool.eq_false_of_not_eq_true hcrashed, hmain, hok⟩
        have hstep : daemon.mainStep env = daemon.create env := by
          unfold Daemon.mainStep
          rw [hmain]
        rcases create_cases daemon env with ⟨halloc, hcreate⟩ | ⟨halloc, hcreate⟩
        · refine hkeeps (by rw [hlost, halloc]; rfl) ?_
          dsimp only
          rw [hstep, hcreate]
          exact h.crash
        · obtain ⟨hnew, hsound⟩ := h.cannotCreate hrunning hmain
          rw [hlost, halloc, Option.toList_some]
          dsimp only
          rw [hstep, hcreate, if_neg hfails, List.toFinset_append, List.toFinset_cons,
            List.toFinset_nil, insert_empty_eq, Finset.union_singleton]
          refine ⟨?_, hsound⟩
          rw [← List.concat_eq_append]
          exact hnodup.concat fun hmem => hnew (List.mem_toFinset.mpr hmem)

theorem sound_run (kernel : Kernel) (connections : Nat → Connection) (events : List Event) :
    let start := init kernel connections
    (start.lostArgs events).Nodup ∧ (start.run events).Sound (start.lostArgs events).toFinset := by
  intro start
  have halways : Along step (fun _ _ => True) start events :=
    along_of_forall (fun _ _ => trivial) start events
  exact run_history_nil (R := fun (daemon : Daemon) past => past.Nodup ∧
    daemon.Sound past.toFinset) (fun daemon past event _ h => h.2.step h.1 event) halways
    ⟨List.nodup_nil, sound_init kernel connections⟩

/-- **What is left of the threads' arguments.** No block is used after it was freed or freed twice,
and at any time there are as many of them as there are threads that have not ended, and one more for
each time `pthread_create` has failed. -/
theorem args_in_order (kernel : Kernel) (connections : Nat → Connection) (events : List Event) :
    let start := init kernel connections
    let daemon := start.run events
    daemon.args.reports = [] ∧
      daemon.args.live.card = (start.lostArgs events).length +
        ((Finset.range daemon.process.created).filter
          (daemon.process.thread · ≠ .exited)).card := by
  intro start daemon
  have hnodup : (start.lostArgs events).Nodup := (sound_run kernel connections events).1
  have hsound : daemon.Sound (start.lostArgs events).toFinset :=
    (sound_run kernel connections events).2
  refine ⟨hsound.args.reports, ?_⟩
  set unfinished := (Finset.range daemon.process.created).filter
    (daemon.process.thread · ≠ .exited)
  rw [hsound.args.owned.card_eq (unfinished.disjSum (start.lostArgs events).toFinset) ?_,
    Finset.card_disjSum, List.toFinset_card_of_nodup hnodup, Nat.add_comm]
  have hborn : ∀ tid, tid < daemon.process.created ↔ daemon.process.thread tid ≠ .unborn :=
    fun tid => ⟨hsound.placed.born tid, fun hborn =>
      hsound.placed.wellFormed.tid_lt rfl hborn⟩
  intro owner
  cases owner with
  | inl tid => simp [holdsArgs, unfinished, hborn]
  | inr block => simp [holdsArgs]

end Daemon

end AesdChar