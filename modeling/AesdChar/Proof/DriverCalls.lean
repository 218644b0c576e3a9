import AesdChar.Proof.Answers
import AesdChar.Proof.Client
import AesdChar.Proof.SystemCalls

/-!
# The clients' calls are calls of the driver

Between the system calls of the server's threads nothing happens to the driver. At every moment of
every interleaving it is therefore where the calls made so far have left it, and everything known
about runs of the driver is known about a driver that the server uses.
-/

namespace AesdChar

open Lib

theorem System.run_singleton (system : System) (call : Call) :
    system.run [call] = system.step call := rfl

/-! ### One call -/

section Call

variable {system : System} {thread : ClientThread} {file : Nat}

/-- The system after a step of a thread with the file `file`. -/
def System.follow (system : System) (file : Nat) (moved : ClientThread × Kernel) : System :=
  ⟨moved.2, Function.update system.fPos file moved.1.fPos⟩

theorem follow_of_silent (hfPos : system.fPos file = thread.fPos) {moved : ClientThread × Kernel}
    (hmoved : moved.1.fPos = thread.fPos) (hkernel : moved.2 = system.kernel) :
    system.follow file moved = system := by
  rw [System.follow, hmoved, hkernel, ← hfPos, Function.update_eq_self]

theorem dispatch_silent (thread : ClientThread) (state : ClientState) (bytesReceived : Nat) :
    (thread.dispatch state bytesReceived).1.fPos = state.fPos ∧
      (thread.dispatch state bytesReceived).2 = state.kernel := by
  unfold ClientThread.dispatch
  split
  · split <;> exact ⟨rfl, rfl⟩
  · exact ⟨rfl, rfl⟩

theorem follow_settle (hfPos : system.fPos file = thread.fPos) (outcome : Outcome) (point : Point) :
    system.follow file (thread.goto point ((thread.state system.kernel).settle outcome)) =
      system.settle file outcome := by
  rw [System.settle_eq_update, hfPos]
  rfl

theorem follow_write (hfPos : system.fPos file = thread.fPos) {bytesReceived : Nat}
    (hpoint : thread.point = .write bytesReceived) :
    system.run (thread.call file) = system.follow file (thread.inside system.kernel) := by
  simp only [ClientThread.call, ClientThread.inside, hpoint]
  change System.settle system file (aesdWrite _ _ _ (system.fPos file)) = _
  rw [hfPos]
  split
  · exact (follow_settle hfPos _ _).symm
  · split <;> exact (follow_settle hfPos _ _).symm

theorem follow_read (hfPos : system.fPos file = thread.fPos) {loop : ReplyLoop}
    (hpoint : thread.point = .read loop) :
    system.run (thread.call file) = system.follow file (thread.inside system.kernel) := by
  simp only [ClientThread.call, ClientThread.inside, hpoint, System.run_singleton, System.step,
    hfPos, ClientThread.state]
  cases aesdRead (thread.env.read thread.clock) system.kernel bufferSize thread.fPos with
  | none => exact (follow_of_silent hfPos rfl rfl).symm
  | some outcome => exact (follow_settle hfPos _ _).symm

/-- **One step with the mutex held** does to the driver and to the position of the thread's file
what the call it makes does, or nothing. -/
theorem follow_inside (hfPos : system.fPos file = thread.fPos)
    (hunopened : thread.point = .openDevice → thread.fPos = 0) :
    system.run (thread.call file) = system.follow file (thread.inside system.kernel) := by
  cases hpoint : thread.point with
  | write bytesReceived => exact follow_write hfPos hpoint
  | read loop => exact follow_read hfPos hpoint
  | ioctl seekto | sync | rewind =>
      simp only [ClientThread.call, ClientThread.inside, hpoint, System.run_singleton, System.step,
        hfPos]
      rfl
  | openDevice =>
      simp only [ClientThread.call, ClientThread.inside, hpoint]
      refine (follow_of_silent hfPos ?_ ?_).symm
      · split
        · exact (hunopened hpoint).symm
        · rfl
      · split <;> rfl
  | recv =>
      simp only [ClientThread.call, ClientThread.inside, hpoint]
      refine (follow_of_silent hfPos ?_ ?_).symm
      · split
        · rfl
        · exact (dispatch_silent _ _ _).1
      · split
        · rfl
        · exact (dispatch_silent _ _ _).2
  | send | closeDevice | unlock | lock | cleanup | closeSocket | returned =>
      simp only [ClientThread.call, ClientThread.inside, hpoint]
      exact (follow_of_silent hfPos rfl rfl).symm

end Call

/-! ### Any number of threads -/

/-- A system whose files stand where the threads' descriptors stand. -/
structure Mirrors (file : Nat → Nat) (clients : Clients) (system : System) : Prop where
  kernel_eq : system.kernel = clients.shared
  fPos_eq : ∀ tid, system.fPos (file tid) = (clients.own tid).fPos
  /-- A file is opened at its beginning. -/
  unopened : ∀ tid, (clients.own tid).point = .lock ∨ (clients.own tid).point = .openDevice →
    (clients.own tid).fPos = 0

section Threads

variable {file : Nat → Nat} {clients : Clients} {system : System}

/-- Only what a thread does to its own variables and to the driver matters. -/
theorem Mirrors.put (h : Mirrors file clients system) (hfile : Function.Injective file) (tid : Nat)
    (moved : ClientThread × Kernel) (holder : Option Nat)
    (hunopened : moved.1.point = .lock ∨ moved.1.point = .openDevice → moved.1.fPos = 0) :
    Mirrors file ⟨moved.2, holder, Function.update clients.own tid moved.1⟩
      (system.follow (file tid) moved) where
  kernel_eq := rfl
  fPos_eq := by
    intro other
    by_cases heq : other = tid
    · subst heq
      simp [System.follow]
    · have hne : file other ≠ file tid := fun hfiles => heq (hfile hfiles)
      simp [System.follow, heq, hne, h.fPos_eq other]
  unopened := by
    intro other
    by_cases heq : other = tid
    · subst heq
      simpa using hunopened
    · simpa [heq] using h.unopened other

/-- A thread that makes no call leaves its position as it is. -/
theorem Mirrors.silent (h : Mirrors file clients system) (hfile : Function.Injective file)
    (tid : Nat) {thread : ClientThread} (holder : Option Nat)
    (hfPos : thread.fPos = (clients.own tid).fPos)
    (hunopened : thread.point = .lock ∨ thread.point = .openDevice →
      (clients.own tid).point = .lock ∨ (clients.own tid).point = .openDevice) :
    Mirrors file ⟨clients.shared, holder, Function.update clients.own tid thread⟩ system := by
  have hput := h.put hfile tid (thread, clients.shared) holder fun hpoint =>
    hfPos.trans (h.unopened tid (hunopened hpoint))
  rwa [follow_of_silent (h.fPos_eq tid) hfPos h.kernel_eq.symm] at hput

theorem call_of_not_holding {thread : ClientThread} (hmode : thread.point.mode ≠ .holding)
    (fileNumber : Nat) : thread.call fileNumber = [] := by
  unfold ClientThread.call
  split <;> simp_all [Point.mode]

theorem Mirrors.step (h : Mirrors file clients system) (hfile : Function.Injective file)
    (tid : Nat) :
    Mirrors file (clients.step tid) (system.run ((clients.own tid).call (file tid))) := by
  have hsilent : (clients.own tid).point.mode ≠ .holding →
      system.run ((clients.own tid).call (file tid)) = system := by
    intro hmode
    rw [call_of_not_holding hmode]
    rfl
  cases hmode : (clients.own tid).point.mode with
  | holding =>
      have hstep : clients.step tid = _ := Program.step_of_holding hmode
      have hopened := inside_opened hmode clients.shared
      rw [hstep, follow_inside (h.fPos_eq tid) fun hpoint => h.unopened tid (Or.inr hpoint),
        h.kernel_eq]
      exact h.put hfile tid _ _ fun hpoint => (hpoint.elim hopened.1 hopened.2).elim
  | outside =>
      have hstep : clients.step tid = _ := Program.step_of_outside hmode
      have houtside : (clients.own tid).outside.fPos = (clients.own tid).fPos ∧
          (clients.own tid).outside.point ≠ .lock ∧
            (clients.own tid).outside.point ≠ .openDevice := by
        unfold ClientThread.outside
        split
        · simp
        · exact ⟨rfl, fun hpoint => by simp [hpoint, Point.mode] at hmode,
            fun hpoint => by simp [hpoint, Point.mode] at hmode⟩
      rw [hsilent (by simp [hmode]), hstep]
      exact h.silent hfile tid _ houtside.1 fun hpoint =>
        (hpoint.elim houtside.2.1 houtside.2.2).elim
  | waiting =>
      rw [hsilent (by simp [hmode])]
      by_cases hfree : clients.holder = none
      · have hstep : clients.step tid = _ := Program.step_of_waiting hmode hfree
        rw [hstep]
        refine h.silent hfile tid _ rfl fun _ => Or.inl ?_
        cases hpoint : (clients.own tid).point <;> simp [hpoint, Point.mode] at hmode ⊢
      · have hstep : clients.step tid = _ := Program.step_of_blocked hmode hfree
        rw [hstep]
        exact h
  | halted =>
      have hstep : clients.step tid = _ := Program.step_of_halted hmode
      rw [hsilent (by simp [hmode]), hstep]
      exact h

theorem Mirrors.run (h : Mirrors file clients system) (hfile : Function.Injective file)
    (schedule : List Nat) :
    Mirrors file (clients.run schedule) (system.run (clients.calls file schedule)) := by
  induction schedule generalizing clients system with
  | nil => exact h
  | cons tid schedule ih =>
      have hrest := ih (h.step hfile tid)
      have hsplit : system.run (clients.calls file (tid :: schedule)) =
          (system.run ((clients.own tid).call (file tid))).run
            ((clients.step tid).calls file schedule) := List.foldl_append
      rw [hsplit]
      exact hrest

end Threads

/-- **The server's threads use the driver soundly at every moment.** However they are interleaved,
the driver and the positions of their files are those of a run of the driver, the one of the calls
they have made so far; so its memory is in order, and it holds the last ten commands of those
calls. -/
theorem clients_make_calls (config : KmallocConfig) (before : List Call)
    (connections : Nat → Connection) (schedule : List Nat) (file : Nat → Nat)
    (hfile : Function.Injective file) (hunused : ∀ tid, ∀ call ∈ before, call.file ≠ file tid) :
    let initial := System.init config
    let start := Clients.start (initial.run before).kernel connections
    let clients := start.run schedule
    let calls := before ++ start.calls file schedule
    clients.shared = (initial.run calls).kernel ∧
      (∀ tid, (clients.own tid).fPos = (initial.run calls).fPos (file tid)) ∧
      clients.shared.heap.reports = [] ∧
      clients.shared.commands =
        (initial.committed calls).rtake maxWriteOperationsSupported := by
  intro initial start clients calls
  have hstart : Mirrors file start (initial.run before) :=
    ⟨rfl, fun tid => System.fPos_of_unused (hunused tid) initial, fun _ _ => rfl⟩
  have hmirrors := hstart.run hfile schedule
  have hcalls : initial.run calls = (initial.run before).run (start.calls file schedule) :=
    List.foldl_append
  rw [← hcalls] at hmirrors
  obtain ⟨log, lost, hfollows, hcommitted, -⟩ := run_follows config calls
  obtain ⟨⟨entries, hrep⟩, -⟩ := hfollows.refines
  refine ⟨hmirrors.kernel_eq.symm, fun tid => (hmirrors.fPos_eq tid).symm, ?_, ?_⟩
  · rw [← hmirrors.kernel_eq]
    exact hrep.clean
  · rw [← hmirrors.kernel_eq, hrep.commands_eq]
    exact congrArg (List.rtake · maxWriteOperationsSupported) hcommitted

theorem clients_make_calls_two :
    let initial := System.init ⟨2 ^ 22, by decide, fun _ => 0⟩
    let before := [plainWrite 0 [97, 10]]
    let start := Clients.start (initial.run before).kernel fun _ => ⟨smoothEnv, [], [[98], [10]]⟩
    let clients := start.run [0, 1, 0, 0, 1, 0]
    let calls := before ++ start.calls Nat.succ [0, 1, 0, 0, 1, 0]
    clients.shared = (initial.run calls).kernel ∧
      (∀ tid, (clients.own tid).fPos = (initial.run calls).fPos (Nat.succ tid)) ∧
      clients.shared.heap.reports = [] ∧
      clients.shared.commands =
        (initial.committed calls).rtake maxWriteOperationsSupported := by
  apply clients_make_calls
  · exact Nat.succ_injective
  · simp [plainWrite, Call.file]

end AesdChar
