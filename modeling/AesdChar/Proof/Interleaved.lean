import AesdChar.Lib.Owners
import AesdChar.Proof.Sections

/-!
# Calls that interleave

The invariant that ties calls in flight to the same calls made one after the other, in the order in
which they are decided. Outside the lock a thread has only its own buffer. Under the lock the device
may lag behind: it still shows an earlier log than the one the calls decided so far lead to, and the
thread that has the lock is pledged to make up for the difference. Which blocks are in use depends
on the interleaving; what is kept is that every block has one keeper, and how many are lost.
-/

namespace AesdChar

open Lib

/-! ### Who keeps which block -/

inductive Keeper where
  | kbuff (tid : Nat)
  | old (tid : Nat)
  | lost (block : Ptr)
  deriving DecidableEq

def Stage.kbuff : Stage → Option Ptr
  | .entered => none
  | .copying kbuff => some kbuff
  | .locking kbuff => kbuff
  | .locked kbuff => kbuff
  | .reading _ _ _ => none
  | .adding kbuff => kbuff
  | .evicting kbuff _ => kbuff
  | .unlocking kbuff _ => kbuff
  | .returning kbuff _ => kbuff

def Stage.oldBuffptr : Stage → Option Ptr
  | .evicting _ oldBuffptr => oldBuffptr
  | _ => none

def InFlight.keeps (flight : InFlight) (lost : Finset Ptr) : Keeper → Option Ptr
  | .kbuff tid => (flight.thread tid).stage.kbuff
  | .old tid => (flight.thread tid).stage.oldBuffptr
  | .lost block => if block ∈ lost then some block else none

/-- What has to be known besides the state itself. -/
structure Books where
  /-- The log that the device shows. -/
  shown : Log
  /-- The log that the calls decided so far lead to. -/
  log : Log
  /-- The device, without an accumulator that has already gone into the ring. -/
  device : AesdDev
  /-- How many blocks the thread with the lock is still going to lose. -/
  owed : Nat
  lost : Finset Ptr
  /-- The live blocks that the device does not point at. -/
  held : Finset Ptr
  /-- The blocks lost when the calls are made one after the other. -/
  gone : Finset Ptr

/-- Nobody is under way with a change to the device. -/
structure Books.Settled (books : Books) (dev : AesdDev) : Prop where
  log_eq : books.log = books.shown
  owed_eq : books.owed = 0
  device_eq : books.device = dev

/-! ### What a thread stands for -/

/-- A call that is not decided. -/
inductive Stands (heap : Heap) : Call → Stage → Prop
  | entered (call : Call) : Stands heap call .entered
  | copying {file : Nat} {env : WriteEnv} {buf : Option Bytes} {kbuff : Ptr} {contents : Bytes}
      (hbuffered : Buffered env heap.limit buf) (hview : heap.view kbuff = some contents)
      (hlength : contents.length = (buf.getD []).length) :
      Stands heap (.write file env buf) (.copying kbuff)
  | lockingWrite {file : Nat} {env : WriteEnv} {buf : Option Bytes} {kbuff : Ptr}
      (hbuffered : Buffered env heap.limit buf) (hcopy : env.copyFromUser = true)
      (hview : heap.view kbuff = some (buf.getD [])) :
      Stands heap (.write file env buf) (.locking (some kbuff))
  | lockingRead (file : Nat) (env : ReadEnv) (count : Nat) :
      Stands heap (.read file env count) (.locking none)
  | lockingLlseek (file : Nat) (lock : Bool) (offset whence : Int) :
      Stands heap (.llseek file lock offset whence) (.locking none)
  | lockingIoctl {file : Nat} {env : IoctlEnv} {cmd : UInt32} {seekto : AesdSeekto}
      (hcmd : cmd = AESDCHAR_IOCSEEKTO) (hcopy : env.copyFromUser = true) :
      Stands heap (.ioctl file env cmd seekto) (.locking none)

/-- A call that has the lock: what is left of it will give the response `promised` and take the
device from the log it shows to the one it ought to show. -/
inductive Pledged (kernel : Kernel) (books : Books) (fPos : Int) (promised : Response) :
    Call → Stage → Prop
  | lockedWrite {file : Nat} {env : WriteEnv} {buf : Option Bytes} {kbuff : Ptr}
      (hbuffered : Buffered env kernel.heap.limit buf)
      (hview : kernel.heap.view kbuff = some (buf.getD []))
      (hpending : newline ∉ books.shown.pending)
      (hlog : books.log = books.shown.write (buf.getD []) (Log.effect
        (Grows env kernel.heap.limit books.shown.pending (buf.getD []))
        (env.addEntryKmalloc = true) (buf.getD [])))
      (howed : books.owed =
        if Grows env kernel.heap.limit books.shown.pending (buf.getD []) ∧
          newline ∈ buf.getD [] then 1 else 0)
      (hdevice : books.device = kernel.dev)
      (hpromised : promised =
        lockedAnswer env kernel.heap.limit books.shown.pending (buf.getD []) fPos) :
      Pledged kernel books fPos promised (.write file env buf) (.locked (some kbuff))
  | lockedRead {file : Nat} {env : ReadEnv} {count : Nat} {alike : Kernel}
      {entries : List AesdBufferEntry} {lost : Finset Ptr} (hlock : env.lock = true)
      (halike : Represents alike entries books.shown lost)
      (hread : (aesdRead env alike count fPos).map ReadOutcome.response = some promised)
      (hsettled : books.Settled kernel.dev) :
      Pledged kernel books fPos promised (.read file env count) (.locked none)
  | lockedLlseek {file : Nat} {lock : Bool} {offset whence : Int} {alike : Kernel}
      {entries : List AesdBufferEntry} {lost : Finset Ptr}
      (halike : Represents alike entries books.shown lost)
      (hpromised : promised = (aesdLlseek true alike fPos (loffT offset) whence).response)
      (hsettled : books.Settled kernel.dev) :
      Pledged kernel books fPos promised (.llseek file lock offset whence) (.locked none)
  | lockedIoctl {file : Nat} {env : IoctlEnv} {cmd : UInt32} {seekto : AesdSeekto} {alike : Kernel}
      {entries : List AesdBufferEntry} {lost : Finset Ptr}
      (halike : Represents alike entries books.shown lost)
      (hpromised :
        promised = (aesdUnlockedIoctl ⟨true, true⟩ alike fPos cmd seekto).response)
      (hsettled : books.Settled kernel.dev) :
      Pledged kernel books fPos promised (.ioctl file env cmd seekto) (.locked none)
  | reading {file : Nat} {env : ReadEnv} {count : Nat} {alike : Kernel}
      {entries : List AesdBufferEntry} {lost : Finset Ptr} {fuel iteration : Nat} {buf : Bytes}
      {pos : Int} (halike : Represents alike entries books.shown lost)
      (hloop : (aesdReadLoop env alike.dev count fuel iteration alike.heap buf pos).map
        ReadOutcome.response = some promised)
      (hsettled : books.Settled kernel.dev) :
      Pledged kernel books fPos promised (.read file env count) (.reading iteration buf pos)
  | adding {file : Nat} {env : WriteEnv} {buf : Option Bytes} {kbuff : Option Ptr}
      (hnewline : newline ∈ books.shown.pending)
      (hlog : books.log =
        if env.addEntryKmalloc = true then
          ⟨books.shown.committed ++ [books.shown.pending], []⟩
        else ⟨books.shown.committed, []⟩)
      (howed : books.owed = 1) (hdevice : books.device = kernel.dev)
      (hpromised : promised = written (buf.getD []).length fPos) :
      Pledged kernel books fPos promised (.write file env buf) (.adding kbuff)
  | evicting {file : Nat} {env : WriteEnv} {buf : Option Bytes} {kbuff oldBuffptr : Option Ptr}
      (hsettled : books.Settled ⟨kernel.dev.circularBuffer, none, 0⟩)
      (hpromised : promised = written (buf.getD []).length fPos) :
      Pledged kernel books fPos promised (.write file env buf) (.evicting kbuff oldBuffptr)
  | unlocking (call : Call) (kbuff : Option Ptr) (hsettled : books.Settled kernel.dev) :
      Pledged kernel books fPos promised call (.unlocking kbuff promised)

/-- A thread, against the position and the responses of its file when the calls are made one after
the other. -/
inductive Agrees (kernel : Kernel) (books : Books) (fPos afterPos : Int) (answered : List Response) :
    CallThread → Prop
  | idle (hfPos : afterPos = fPos) :
      Agrees kernel books fPos afterPos answered ⟨[], .entered, answered⟩
  | undecided {call : Call} {calls : List Call} {stage : Stage} (hfPos : afterPos = fPos)
      (hstands : Stands kernel.heap call stage) :
      Agrees kernel books fPos afterPos answered ⟨call :: calls, stage, answered⟩
  | inside {call : Call} {calls : List Call} {stage : Stage} {responses : List Response}
      {promised : Response} (hfPos : afterPos = call.keeps fPos promised)
      (hanswered : answered = responses ++ [promised])
      (hpledged : Pledged kernel books fPos promised call stage) :
      Agrees kernel books fPos afterPos answered ⟨call :: calls, stage, responses⟩
  | returning {call : Call} {calls : List Call} {kbuff : Option Ptr} {responses : List Response}
      {promised : Response} (hfPos : afterPos = call.keeps fPos promised)
      (hanswered : answered = responses ++ [promised]) :
      Agrees kernel books fPos afterPos answered
        ⟨call :: calls, .returning kbuff promised, responses⟩

structure Accords (flight : InFlight) (books : Books) (after : System)
    (answered : Nat → List Response) : Prop where
  follows : Follows after books.log books.gone
  limit_eq : flight.system.kernel.heap.limit = after.kernel.heap.limit
  represents : ∃ entries,
    Represents ⟨flight.system.kernel.heap, books.device⟩ entries books.shown books.held
  shares : Shares books.held (flight.keeps books.lost)
  owes : books.lost.card + books.owed = books.gone.card
  free : flight.holder = none → books.Settled flight.system.kernel.dev
  inside : ∀ tid, flight.holder = some tid ↔ (flight.thread tid).stage.inside = true
  file_eq : ∀ tid, ∀ call ∈ (flight.thread tid).calls, call.file = tid
  thread : ∀ tid, Agrees flight.system.kernel books (flight.system.fPos tid) (after.fPos tid)
    (answered tid) (flight.thread tid)

/-! ### Frames -/

theorem Stands.undecided {heap : Heap} {call : Call} {stage : Stage} (h : Stands heap call stage) :
    stage.decided = false ∧ stage.inside = false := by
  cases h <;> exact ⟨rfl, rfl⟩

theorem Pledged.inside {kernel : Kernel} {books : Books} {fPos : Int} {promised : Response}
    {call : Call} {stage : Stage} (h : Pledged kernel books fPos promised call stage) :
    stage.decided = true ∧ stage.inside = true := by
  cases h <;> exact ⟨rfl, rfl⟩

theorem Stands.frame {heap heap' : Heap} {call : Call} {stage : Stage} (h : Stands heap call stage)
    (hlimit : heap'.limit = heap.limit)
    (hview : ∀ block ∈ stage.kbuff, heap'.view block = heap.view block) :
    Stands heap' call stage := by
  cases h with
  | entered => exact .entered call
  | copying hbuffered hold hlength =>
      exact .copying (hlimit.symm ▸ hbuffered) ((hview _ rfl).trans hold) hlength
  | lockingWrite hbuffered hcopy hold =>
      exact .lockingWrite (hlimit.symm ▸ hbuffered) hcopy ((hview _ rfl).trans hold)
  | lockingRead => exact .lockingRead _ _ _
  | lockingLlseek => exact .lockingLlseek _ _ _ _
  | lockingIoctl hcmd hcopy => exact .lockingIoctl hcmd hcopy

theorem Pledged.frame {kernel : Kernel} {books : Books} {fPos : Int} {promised : Response}
    {call : Call} {stage : Stage} (h : Pledged kernel books fPos promised call stage) {heap' : Heap}
    (held' : Finset Ptr) (hlimit : heap'.limit = kernel.heap.limit)
    (hview : ∀ block ∈ stage.kbuff, heap'.view block = kernel.heap.view block) :
    Pledged ⟨heap', kernel.dev⟩ { books with held := held' } fPos promised call stage := by
  have hsettles : ∀ dev, books.Settled dev → { books with held := held' }.Settled dev :=
    fun dev hsettled => ⟨hsettled.log_eq, hsettled.owed_eq, hsettled.device_eq⟩
  cases h with
  | lockedWrite hbuffered hold hpending hlog howed hdevice hpromised =>
      rw [← hlimit] at hbuffered hlog howed hpromised
      exact .lockedWrite hbuffered ((hview _ rfl).trans hold) hpending hlog howed hdevice hpromised
  | lockedRead hlock halike hread hsettled =>
      exact .lockedRead hlock halike hread (hsettles _ hsettled)
  | lockedLlseek halike hpromised hsettled =>
      exact .lockedLlseek halike hpromised (hsettles _ hsettled)
  | lockedIoctl halike hpromised hsettled =>
      exact .lockedIoctl halike hpromised (hsettles _ hsettled)
  | reading halike hloop hsettled => exact .reading halike hloop (hsettles _ hsettled)
  | adding hnewline hlog howed hdevice hpromised =>
      exact .adding hnewline hlog howed hdevice hpromised
  | evicting hsettled hpromised => exact .evicting (hsettles _ hsettled) hpromised
  | unlocking _ kbuff hsettled => exact .unlocking _ kbuff (hsettles _ hsettled)

section Agrees

variable {kernel : Kernel} {books : Books} {fPos afterPos : Int} {answered : List Response}
  {thread : CallThread}

/-- A thread does not notice what another one does outside the lock. -/
theorem Agrees.frame (h : Agrees kernel books fPos afterPos answered thread) {heap' : Heap}
    (held' : Finset Ptr) (hlimit : heap'.limit = kernel.heap.limit)
    (hview : ∀ block ∈ thread.stage.kbuff, heap'.view block = kernel.heap.view block) :
    Agrees ⟨heap', kernel.dev⟩ { books with held := held' } fPos afterPos answered thread := by
  cases h with
  | idle hfPos => exact .idle hfPos
  | undecided hfPos hstands => exact .undecided hfPos (hstands.frame hlimit hview)
  | inside hfPos hanswered hpledged =>
      exact .inside hfPos hanswered (hpledged.frame held' hlimit hview)
  | returning hfPos hanswered => exact .returning hfPos hanswered

/-- A thread without the lock does not notice what the one with the lock does. -/
theorem Agrees.outside (h : Agrees kernel books fPos afterPos answered thread)
    (houtside : thread.stage.inside = false) {kernel' : Kernel} (books' : Books)
    (hlimit : kernel'.heap.limit = kernel.heap.limit)
    (hview : ∀ block ∈ thread.stage.kbuff, kernel'.heap.view block = kernel.heap.view block) :
    Agrees kernel' books' fPos afterPos answered thread := by
  cases h with
  | idle hfPos => exact .idle hfPos
  | undecided hfPos hstands => exact .undecided hfPos (hstands.frame hlimit hview)
  | inside hfPos hanswered hpledged =>
      rw [hpledged.inside.2] at houtside
      cases houtside
  | returning hfPos hanswered => exact .returning hfPos hanswered

end Agrees

/-! ### Moves -/

namespace InFlight

variable {flight : InFlight} {tid other : Nat} {moved : Stage × Kernel} {holder : Option Nat}
  {lost : Finset Ptr}

@[simp] theorem goto_system : (flight.goto tid moved holder).system =
    ⟨moved.2, flight.system.fPos⟩ := rfl

@[simp] theorem goto_holder : (flight.goto tid moved holder).holder = holder := rfl

@[simp] theorem goto_thread_self : (flight.goto tid moved holder).thread tid =
    { flight.thread tid with stage := moved.1 } := Function.update_self _ _ _

theorem goto_thread_of_ne (hne : other ≠ tid) :
    (flight.goto tid moved holder).thread other = flight.thread other :=
  Function.update_of_ne hne _ _

theorem goto_calls (other : Nat) :
    ((flight.goto tid moved holder).thread other).calls = (flight.thread other).calls := by
  by_cases hne : other = tid
  · subst hne
    rw [goto_thread_self]
  · rw [goto_thread_of_ne hne]

theorem keeps_goto : (flight.goto tid moved holder).keeps lost =
    Function.update (Function.update (flight.keeps lost) (.kbuff tid) moved.1.kbuff) (.old tid)
      moved.1.oldBuffptr := by
  funext keeper
  cases keeper with
  | lost block => simp [keeps]
  | kbuff other =>
      by_cases hne : other = tid
      · subst hne
        simp [keeps]
      · simp [keeps, goto_thread_of_ne hne, hne]
  | old other =>
      by_cases hne : other = tid
      · subst hne
        simp [keeps]
      · simp [keeps, goto_thread_of_ne hne, hne]

theorem keeps_insert (block : Ptr) : flight.keeps (insert block lost) =
    Function.update (flight.keeps lost) (.lost block) (some block) := by
  funext keeper
  cases keeper with
  | lost other =>
      by_cases heq : other = block
      · subst heq
        simp [keeps]
      · simp [keeps, heq]
  | kbuff other => simp [keeps]
  | old other => simp [keeps]

end InFlight

namespace Accords

variable {flight : InFlight} {books : Books} {after after' : System}
  {answered answered' : Nat → List Response} {tid : Nat} {stage : Stage}

theorem kbuff_mem (h : Accords flight books after answered) {block : Ptr}
    (hkbuff : (flight.thread tid).stage.kbuff = some block) : block ∈ books.held := by
  have hkeeps : flight.keeps books.lost (.kbuff tid) = some block := hkbuff
  exact h.shares.live hkeeps

theorem kbuff_ne (h : Accords flight books after answered) {other : Nat} (hne : other ≠ tid)
    {block : Ptr} (hblock : (flight.thread other).stage.kbuff = some block) :
    (flight.thread tid).stage.kbuff ≠ some block := by
  intro hkbuff
  have hsame : Keeper.kbuff other = Keeper.kbuff tid := h.shares.unique hblock hkbuff
  cases hsame
  exact hne rfl

theorem outside_of_ne (h : Accords flight books after answered) {other : Nat} (hne : other ≠ tid)
    (hinside : (flight.thread tid).stage.inside = true) :
    (flight.thread other).stage.inside = false := by
  rw [← Bool.not_eq_true, ← h.inside, (h.inside tid).mpr hinside]
  exact fun heq => hne (Option.some.inj heq).symm

/-- A step outside the lock, after which the log is the one it was. -/
theorem moveOutside (h : Accords flight books after answered)
    (hbefore : (flight.thread tid).stage.inside = false) (hstage : stage.inside = false)
    {heap' : Heap} {held' : Finset Ptr} (hlimit : heap'.limit = flight.system.kernel.heap.limit)
    (hview : ∀ block ∈ books.held, (flight.thread tid).stage.kbuff ≠ some block →
      heap'.view block = flight.system.kernel.heap.view block)
    (hrep : ∃ entries, Represents ⟨heap', books.device⟩ entries books.shown held')
    (hshares : Shares held' (Function.update (Function.update (flight.keeps books.lost)
      (.kbuff tid) stage.kbuff) (.old tid) stage.oldBuffptr))
    (hfollows : Follows after' books.log books.gone)
    (hafter : after'.kernel.heap.limit = after.kernel.heap.limit)
    (hothers : ∀ other ≠ tid, after'.fPos other = after.fPos other ∧
      answered' other = answered other)
    (hown : Agrees ⟨heap', flight.system.kernel.dev⟩ { books with held := held' }
      (flight.system.fPos tid) (after'.fPos tid) (answered' tid)
      { flight.thread tid with stage := stage }) :
    Accords (flight.goto tid (stage, ⟨heap', flight.system.kernel.dev⟩) flight.holder)
      { books with held := held' } after' answered' where
  follows := hfollows
  limit_eq := hlimit.trans (h.limit_eq.trans hafter.symm)
  represents := hrep
  shares := by
    rw [InFlight.keeps_goto]
    exact hshares
  owes := h.owes
  free hfree := ⟨(h.free hfree).log_eq, (h.free hfree).owed_eq, (h.free hfree).device_eq⟩
  inside other := by
    by_cases hne : other = tid
    · subst hne
      rw [InFlight.goto_holder, h.inside, InFlight.goto_thread_self, hbefore, hstage]
    · rw [InFlight.goto_holder, h.inside, InFlight.goto_thread_of_ne hne]
  file_eq other := by
    rw [InFlight.goto_calls]
    exact h.file_eq other
  thread other := by
    by_cases hne : other = tid
    · subst hne
      rw [InFlight.goto_thread_self]
      exact hown
    · obtain ⟨hfPos, hanswered⟩ := hothers other hne
      rw [InFlight.goto_thread_of_ne hne, hfPos, hanswered]
      refine (h.thread other).frame held' hlimit fun block hblock => ?_
      exact hview block (h.kbuff_mem hblock) (h.kbuff_ne hne hblock)

/-- A step of the thread with the lock, or the one that gives it back. -/
theorem moveInside (h : Accords flight books after answered)
    (hbefore : (flight.thread tid).stage.inside = true) {kernel' : Kernel} {books' : Books}
    {holder : Option Nat} (hholder : holder = if stage.inside = true then some tid else none)
    (hlimit : kernel'.heap.limit = flight.system.kernel.heap.limit)
    (hview : ∀ block ∈ books.held, kernel'.heap.view block = flight.system.kernel.heap.view block ∨
      (flight.thread tid).stage.oldBuffptr = some block)
    (hrep : ∃ entries,
      Represents ⟨kernel'.heap, books'.device⟩ entries books'.shown books'.held)
    (hshares : Shares books'.held (Function.update (Function.update (flight.keeps books'.lost)
      (.kbuff tid) stage.kbuff) (.old tid) stage.oldBuffptr))
    (hlog : books'.log = books.log) (hgone : books'.gone = books.gone)
    (howes : books'.lost.card + books'.owed = books.lost.card + books.owed)
    (hsettled : stage.inside = false → books'.Settled kernel'.dev)
    (hown : Agrees kernel' books' (flight.system.fPos tid) (after.fPos tid) (answered tid)
      { flight.thread tid with stage := stage }) :
    Accords (flight.goto tid (stage, kernel') holder) books' after answered where
  follows := by
    rw [hlog, hgone]
    exact h.follows
  limit_eq := hlimit.trans h.limit_eq
  represents := hrep
  shares := by
    rw [InFlight.keeps_goto]
    exact hshares
  owes := by rw [howes, hgone, h.owes]
  free hfree := by
    refine hsettled ?_
    rw [InFlight.goto_holder, hholder] at hfree
    by_contra hinside
    rw [Bool.not_eq_false] at hinside
    simp [hinside] at hfree
  inside other := by
    by_cases hne : other = tid
    · subst hne
      rw [InFlight.goto_holder, InFlight.goto_thread_self, hholder]
      simp
    · rw [InFlight.goto_holder, InFlight.goto_thread_of_ne hne, hholder,
        h.outside_of_ne hne hbefore]
      have hne' : tid ≠ other := Ne.symm hne
      split <;> simp [hne']
  file_eq other := by
    rw [InFlight.goto_calls]
    exact h.file_eq other
  thread other := by
    by_cases hne : other = tid
    · subst hne
      rw [InFlight.goto_thread_self]
      exact hown
    · rw [InFlight.goto_thread_of_ne hne]
      refine (h.thread other).outside (h.outside_of_ne hne hbefore) books' hlimit
        fun block hblock => (hview block (h.kbuff_mem hblock)).resolve_right fun hold => ?_
      have hsame : Keeper.kbuff other = Keeper.old tid := h.shares.unique hblock hold
      cases hsame

end Accords

end AesdChar
