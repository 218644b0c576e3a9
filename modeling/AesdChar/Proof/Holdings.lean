import AesdChar.Daemon
import AesdChar.Lib.Owners
import AesdChar.Proof.SystemCalls
import AesdChar.Proof.ThreadSteps

/-!
# What the server holds

Every open descriptor and every block for a thread's arguments has one place in the server that is
responsible for it, which can be read off what `main` and the threads are doing. The exception is
the listening socket: every thread that gives up closes it.
-/

namespace AesdChar

open Lib

namespace Daemon

/-! ### Who holds what -/

inductive FdHolder where
  /-- The listening socket. -/
  | server
  /-- `main` with a new connection. -/
  | main
  /-- A thread with its connection. -/
  | client (tid : Tid)
  /-- A thread with the device. -/
  | device (tid : Tid)
  deriving DecidableEq

/-- The thread has opened the device and not yet closed it. -/
def deviceOpen : Point → Bool
  | .recv => true
  | .ioctl _ => true
  | .sync => true
  | .write _ => true
  | .rewind => true
  | .read _ => true
  | .send _ _ => true
  | .closeDevice _ => true
  | _ => false

variable (daemon : Daemon)

def point (tid : Tid) : Point := (daemon.clients.own tid).point

/-- The connection of a thread, which it has read from its argument or will read there. -/
def socketOf (tid : Tid) : Fd :=
  match daemon.locals tid with
  | some locals => locals.clientSocket
  | none => ((daemon.args.load (daemon.threadArgs tid) 0 1).headD ⟨0, 0⟩).clientSocket

def holdsFd : FdHolder → Option Fd
  | .server => if daemon.serverSocket ∈ daemon.fds.live then some daemon.serverSocket else none
  | .main => if daemon.process.main = .accepted then some daemon.clientSocket else none
  | .client tid =>
      if daemon.process.thread tid ≠ .unborn ∧ daemon.point tid ≠ .returned then
        some (daemon.socketOf tid)
      else none
  | .device tid => if deviceOpen (daemon.point tid) then daemon.dataFd tid else none

/-- A thread frees its argument last; the arguments in `lost` have no thread. -/
def holdsArgs (lost : Finset ArgsPtr) : Tid ⊕ ArgsPtr → Option ArgsPtr
  | .inl tid =>
      if daemon.process.thread tid ≠ .unborn ∧ daemon.process.thread tid ≠ .exited then
        some (daemon.threadArgs tid)
      else none
  | .inr block => if block ∈ lost then some block else none

/-- The block that a failed `pthread_create` leaves behind. -/
def lostBy : Event → List ArgsPtr
  | .main env =>
      if daemon.process.ended = false ∧ daemon.crashed = false ∧ daemon.process.main = .accepted ∧
          env.ok = false then
        (daemon.args.alloc env.malloc 1).1.toList
      else []
  | _ => []

/-- All such blocks of a run. -/
def lostArgs (events : List Event) : List ArgsPtr := history step lostBy daemon events

/-- Where the threads are. -/
structure Placed : Prop where
  wellFormed : daemon.process.WellFormed
  born : ∀ tid < daemon.process.created, daemon.process.thread tid ≠ .unborn
  unborn : ∀ tid, daemon.process.thread tid = .unborn → daemon.locals tid = none
  unstarted : ∀ tid, daemon.locals tid = none → daemon.point tid = .lock ∧
    (daemon.process.thread tid = .unborn ∨ daemon.process.thread tid = .serving)
  through : ∀ tid, daemon.process.thread tid = .unborn ∨ daemon.process.thread tid = .serving ∨
    daemon.point tid = .returned
  opened : ∀ tid, deviceOpen (daemon.point tid) → daemon.dataFd tid ≠ none

/-- The descriptors are in order, except that the listening socket may be used when it is closed. -/
structure HoldsFds : Prop where
  owned : Owned daemon.fds daemon.holdsFd
  server_lt : daemon.serverSocket < daemon.fds.next
  reports : ∀ report ∈ daemon.fds.reports, report.block = some daemon.serverSocket
  reports_of_live : daemon.serverSocket ∈ daemon.fds.live → daemon.fds.reports = []
  closed : daemon.serverSocket ∉ daemon.fds.live → ∃ caller, daemon.cleaning caller = .exit

/-- The threads' arguments are in order, and hold what `main` has put there. -/
structure HoldsArgs (lost : Finset ArgsPtr) : Prop where
  owned : Owned daemon.args (daemon.holdsArgs lost)
  reports : daemon.args.reports = []
  passed : ∀ tid, daemon.process.thread tid = .serving → daemon.locals tid = none →
    ∃ clientSocket,
      daemon.args.view (daemon.threadArgs tid) = some [⟨clientSocket, daemon.serverSocket⟩]
  server_eq : ∀ tid locals, daemon.locals tid = some locals →
    locals.serverSocket = daemon.serverSocket

structure Sound (lost : Finset ArgsPtr) : Prop where
  placed : daemon.Placed
  fds : daemon.HoldsFds
  args : daemon.HoldsArgs lost

variable {daemon} {daemon' : Daemon} {lost : Finset ArgsPtr}

theorem sound_init (kernel : Kernel) (connections : Nat → Connection) :
    (init kernel connections).Sound ∅ where
  placed :=
    { wellFormed := Process.wellFormed_init
      born := fun _ htid => absurd htid (Nat.not_lt_zero _)
      unborn := fun _ _ => rfl
      unstarted := fun _ _ => ⟨rfl, Or.inl rfl⟩
      through := fun _ => Or.inl rfl
      opened := fun _ hopen => by cases hopen }
  fds :=
    { owned := by
        have hempty : Owned (BlockHeap.empty (fun _ => ()) 0) fun _ : FdHolder => none := .empty _ _
        refine (hempty.grant (rfl : _ = none) []).congr (?_ : _ = Function.update _ .server _)
        funext holder
        cases holder <;> simp [holdsFd, init, Process.init, BlockHeap.grant, BlockHeap.empty,
          point, Clients.start, Threads.start, Connection.thread, deviceOpen]
      server_lt := Nat.zero_lt_one
      reports := fun _ hreport => by cases hreport
      reports_of_live := fun _ => rfl
      closed := fun hclosed => absurd (Finset.mem_insert_self _ _) hclosed }
  args :=
    { owned := by
        refine (Owned.empty _ _).congr ?_
        funext holder
        cases holder <;> simp [holdsArgs, init, Process.init]
      reports := rfl
      passed := fun _ hserving => by cases hserving
      server_eq := fun _ _ hlocals => by cases hlocals }

/-! ### What can happen to the descriptors -/

section Fds

variable {holder : FdHolder} {fd : Fd}

theorem holdsFd_server (hlive : daemon'.serverSocket ∈ daemon'.fds.live ↔
      daemon.serverSocket ∈ daemon.fds.live) (hserver : daemon'.serverSocket = daemon.serverSocket) :
    daemon'.holdsFd .server = daemon.holdsFd .server := by
  simp only [holdsFd, hlive]
  rw [hserver]

/-- What somebody else than the listening socket's owner holds is not the listening socket. -/
theorem HoldsFds.ne_server (h : daemon.HoldsFds) (hholder : holder ≠ .server)
    (hholds : daemon.holdsFd holder = some fd) : fd ≠ daemon.serverSocket := by
  rintro rfl
  have hlive := h.owned.live hholds
  have hserver : daemon.holdsFd .server = some daemon.serverSocket := if_pos hlive
  exact hholder (h.owned.unique hholds hserver)

/-- The fields that most steps leave alone. -/
structure SameServer (daemon daemon' : Daemon) : Prop where
  serverSocket_eq : daemon'.serverSocket = daemon.serverSocket
  cleaning_eq : daemon'.cleaning = daemon.cleaning

/-- Nothing has happened to the listening socket. -/
theorem HoldsFds.of_owned (h : daemon.HoldsFds) (hsame : SameServer daemon daemon')
    (howned : Owned daemon'.fds daemon'.holdsFd) (hnext : daemon.fds.next ≤ daemon'.fds.next)
    (hlive : daemon'.serverSocket ∈ daemon'.fds.live ↔ daemon.serverSocket ∈ daemon.fds.live)
    (hreports : daemon'.fds.reports = daemon.fds.reports) : daemon'.HoldsFds where
  owned := howned
  server_lt := by
    rw [hsame.serverSocket_eq]
    exact h.server_lt.trans_le hnext
  reports := by
    rw [hreports, hsame.serverSocket_eq]
    exact h.reports
  reports_of_live := by
    rw [hreports]
    exact fun hopen => h.reports_of_live (hlive.mp hopen)
  closed := by
    rw [hsame.cleaning_eq]
    exact fun hclosed => h.closed fun hopen => hclosed (hlive.mpr hopen)

theorem HoldsFds.of_eq (h : daemon.HoldsFds) (hsame : SameServer daemon daemon')
    (hfds : daemon'.fds = daemon.fds)
    (hholds : ∀ holder, holder ≠ .server → daemon'.holdsFd holder = daemon.holdsFd holder) :
    daemon'.HoldsFds := by
  have hlive : daemon'.serverSocket ∈ daemon'.fds.live ↔ daemon.serverSocket ∈ daemon.fds.live := by
    rw [hfds, hsame.serverSocket_eq]
  refine h.of_owned hsame ?_ (by rw [hfds]) hlive (by rw [hfds])
  rw [hfds]
  refine h.owned.congr ?_
  funext holder
  by_cases heq : holder = .server
  · subst heq
    exact holdsFd_server hlive hsame.serverSocket_eq
  · exact hholds holder heq

theorem HoldsFds.grant (h : daemon.HoldsFds) (hsame : SameServer daemon daemon')
    (holder : FdHolder) (hfds : daemon'.fds = daemon.fds.grant [])
    (hnone : daemon.holdsFd holder = none)
    (hnew : daemon'.holdsFd holder = some daemon.fds.next)
    (hrest : ∀ other, other ≠ holder → other ≠ .server →
      daemon'.holdsFd other = daemon.holdsFd other) : daemon'.HoldsFds := by
  have hlive : daemon'.serverSocket ∈ daemon'.fds.live ↔ daemon.serverSocket ∈ daemon.fds.live := by
    rw [hfds, hsame.serverSocket_eq]
    exact Finset.mem_insert.trans (or_iff_right h.server_lt.ne)
  refine h.of_owned hsame ?_ (by rw [hfds]; exact Nat.le_succ _) hlive (by rw [hfds]; rfl)
  rw [hfds]
  refine (h.owned.grant hnone []).congr ?_
  funext other
  by_cases heq : other = holder
  · rw [heq, hnew, Function.update_self]
  · rw [Function.update_of_ne heq]
    by_cases hother : other = .server
    · subst hother
      exact holdsFd_server hlive hsame.serverSocket_eq
    · exact hrest other heq hother

theorem HoldsFds.free (h : daemon.HoldsFds) (hsame : SameServer daemon daemon')
    (hfds : daemon'.fds = daemon.fds.free fd) (hholder : holder ≠ .server)
    (hholds : daemon.holdsFd holder = some fd) (hgone : daemon'.holdsFd holder = none)
    (hrest : ∀ other, other ≠ holder → other ≠ .server →
      daemon'.holdsFd other = daemon.holdsFd other) : daemon'.HoldsFds := by
  have hlive : daemon'.serverSocket ∈ daemon'.fds.live ↔ daemon.serverSocket ∈ daemon.fds.live := by
    rw [hfds, hsame.serverSocket_eq, BlockHeap.live_free]
    exact Finset.mem_erase.trans (and_iff_right (h.ne_server hholder hholds).symm)
  refine h.of_owned hsame ?_ (by rw [hfds, BlockHeap.next_free]) hlive
    (by rw [hfds, BlockHeap.reports_free_of_live (h.owned.live hholds)])
  rw [hfds]
  refine (h.owned.free hholds).congr ?_
  funext other
  by_cases heq : other = holder
  · rw [heq, hgone, Function.update_self]
  · rw [Function.update_of_ne heq]
    by_cases hother : other = .server
    · subst hother
      exact holdsFd_server hlive hsame.serverSocket_eq
    · exact hrest other heq hother

/-- A new thread takes over the connection from `main`. -/
theorem HoldsFds.pass (h : daemon.HoldsFds) (hsame : SameServer daemon daemon')
    (hfds : daemon'.fds = daemon.fds) {tid : Tid} (hholds : daemon.holdsFd .main = some fd)
    (hgone : daemon'.holdsFd .main = none) (hnone : daemon.holdsFd (.client tid) = none)
    (hnew : daemon'.holdsFd (.client tid) = some fd)
    (hrest : ∀ other, other ≠ .main → other ≠ .client tid → other ≠ .server →
      daemon'.holdsFd other = daemon.holdsFd other) : daemon'.HoldsFds := by
  have hlive : daemon'.serverSocket ∈ daemon'.fds.live ↔ daemon.serverSocket ∈ daemon.fds.live := by
    rw [hfds, hsame.serverSocket_eq]
  refine h.of_owned hsame ?_ (by rw [hfds]) hlive (by rw [hfds])
  rw [hfds]
  refine (h.owned.pass hholds hnone).congr ?_
  funext other
  by_cases heq : other = .client tid
  · rw [heq, hnew, Function.update_self]
  · rw [Function.update_of_ne heq]
    by_cases heq' : other = .main
    · rw [heq', hgone, Function.update_self]
    · rw [Function.update_of_ne heq']
      by_cases hother : other = .server
      · subst hother
        exact holdsFd_server hlive hsame.serverSocket_eq
      · exact hrest other heq' heq hother

/-- The listening socket may be used whether it is open or not. -/
theorem HoldsFds.useServer (h : daemon.HoldsFds) :
    HoldsFds { daemon with fds := daemon.fds.check daemon.serverSocket 0 0 } := by
  by_cases hlive : daemon.serverSocket ∈ daemon.fds.live
  · rw [BlockHeap.check_of_live hlive]
    exact h
  · refine ⟨?_, ?_, fun report hreport => ?_, fun hopen => ?_, fun _ => h.closed hlive⟩
    · refine (h.owned.check _ _ _).congr ?_
      funext holder
      cases holder with
      | server => exact holdsFd_server (by simp) rfl
      | _ => rfl
    · rw [BlockHeap.next_check]
      exact h.server_lt
    · exact (BlockHeap.mem_reports_check hreport).elim (h.reports report) id
    · rw [BlockHeap.live_check] at hopen
      exact absurd hopen hlive

theorem HoldsFds.setCleaning (h : daemon.HoldsFds) {cleaning : Option Tid → CleanupCall}
    (hcleaning : ∀ caller, daemon.cleaning caller = .exit → cleaning caller = .exit) :
    HoldsFds { daemon with cleaning := cleaning } where
  owned := h.owned.congr (by funext holder; cases holder <;> rfl)
  server_lt := h.server_lt
  reports := h.reports
  reports_of_live := h.reports_of_live
  closed := fun hclosed => (h.closed hclosed).imp hcleaning

/-- So may it be closed. -/
theorem HoldsFds.closeServer (h : daemon.HoldsFds) (caller : Option Tid) :
    HoldsFds { daemon with
      fds := daemon.fds.free daemon.serverSocket
      cleaning := Function.update daemon.cleaning caller .exit } := by
  have hgone : daemon.serverSocket ∉ (daemon.fds.free daemon.serverSocket).live := by simp
  refine ⟨?_, ?_, fun report hreport => ?_, fun hopen => absurd hopen hgone, fun _ => ?_⟩
  · by_cases hlive : daemon.serverSocket ∈ daemon.fds.live
    · have hholds : daemon.holdsFd .server = some daemon.serverSocket := if_pos hlive
      refine (h.owned.free hholds).congr ?_
      funext holder
      cases holder <;> simp [holdsFd] <;> rfl
    · refine Owned.congr (h.owned.of_live_eq ?_ (BlockHeap.next_free _ _)) ?_
      · rw [BlockHeap.live_free, Finset.erase_eq_of_notMem hlive]
      · funext holder
        cases holder with
        | server => exact holdsFd_server (by simp [hlive]) rfl
        | _ => rfl
  · rw [BlockHeap.next_free]
    exact h.server_lt
  · exact (BlockHeap.mem_reports_free hreport).elim (h.reports report) id
  · exact ⟨caller, Function.update_self _ _ _⟩

end Fds

end Daemon

end AesdChar
