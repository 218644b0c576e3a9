import AesdChar.Loading
import AesdChar.Proof.LeakCount

/-!
# The module over many loads

While the module is loaded it has one number and its cdev there, and when it is not, or did not get
through its init function, it has nothing; an open file keeps it loaded, so no call comes to a
device that is gone. Each load starts afresh: its calls answer as if it were the first load there
is. Only the memory remembers, since what one load has lost, and the pending text it leaves, is
never freed.
-/

namespace AesdChar

open Lib

/-! ### What is registered -/

namespace Machine

/-- The number the driver has. -/
def registered (machine : Machine) : Finset DevT :=
  if machine.loaded then {MKDEV machine.aesdMajor aesdMinor} else ∅

/-- The numbers of other drivers, the driver's own, and who uses it. -/
structure Accounted (others : Finset DevT) (machine : Machine) : Prop where
  regions_eq : machine.chrdevs.regions = machine.registered ∪ others
  disjoint : Disjoint machine.registered others
  cdevs_eq : machine.chrdevs.cdevs = machine.registered
  strays : machine.chrdevs.strays = []
  uses : ∀ file ∈ machine.files, machine.loaded = true ∧ machine.privateData file = machine.loads
  opened : ∀ file ∈ machine.files, file < machine.opened
  oops : machine.oops = false

variable {machine : Machine} {others : Finset DevT}

/-- **Every way `insmod` can go**, for a module that is not loaded: whatever fails, nothing stays
registered. -/
theorem insmod_cases (hloaded : machine.loaded = false) (env : InitEnv) :
    (∃ major dev, machine.insmod env = { machine with
      system := ⟨⟨machine.system.kernel.heap, dev⟩, machine.system.fPos⟩
      aesdMajor := major }) ∨
    ∃ major, MKDEV major aesdMinor ∉ machine.chrdevs.regions ∧
      machine.insmod env = { machine with
        system := ⟨⟨machine.system.kernel.heap, freshDevice⟩, machine.system.fPos⟩
        chrdevs := { machine.chrdevs with
          regions := insert (MKDEV major aesdMinor) machine.chrdevs.regions
          cdevs := insert (MKDEV major aesdMinor) machine.chrdevs.cdevs }
        aesdMajor := major
        loaded := true
        loads := machine.loads + 1 } := by
  have hbusy : 0 < EBUSY := by decide
  cases hmajor : env.major with
  | none =>
      refine Or.inl ⟨0, machine.system.kernel.dev, ?_⟩
      simp [insmod, hloaded, aesdInitModule, Chrdevs.allocChrdevRegion, hmajor, hbusy]
  | some major =>
      by_cases htaken : MKDEV major aesdMinor ∈ machine.chrdevs.regions
      · refine Or.inl ⟨0, machine.system.kernel.dev, ?_⟩
        simp [insmod, hloaded, aesdInitModule, Chrdevs.allocChrdevRegion, hmajor, htaken, hbusy]
      · by_cases hadded : env.cdevAdd = 0
        · refine Or.inr ⟨major, htaken, ?_⟩
          simp [insmod, hloaded, aesdInitModule, Chrdevs.allocChrdevRegion, hmajor, htaken,
            aesdSetupCdev, Chrdevs.cdevAdd, hadded]
        · -- the number is given back
          have hnegative : ¬0 ≤ env.cdevAdd := fun hle =>
            hadded (le_antisymm env.cdevAdd_nonpos hle)
          refine Or.inl ⟨major, freshDevice, ?_⟩
          simp [insmod, hloaded, aesdInitModule, Chrdevs.allocChrdevRegion, hmajor, htaken,
            aesdSetupCdev, Chrdevs.cdevAdd, hadded, hnegative, Chrdevs.unregisterChrdevRegion]

namespace Accounted

theorem insmod (h : machine.Accounted others) (env : InitEnv) :
    (machine.insmod env).Accounted others := by
  cases hloaded : machine.loaded with
  | true =>
      rw [Machine.insmod, if_pos hloaded]
      exact h
  | false =>
      have hregions := h.regions_eq
      have hcdevs := h.cdevs_eq
      have hempty : machine.files = ∅ := by
        rw [Finset.eq_empty_iff_forall_notMem]
        intro file hfile
        have huse := (h.uses file hfile).1
        rw [hloaded] at huse
        cases huse
      simp only [registered, hloaded, Bool.false_eq_true, if_false, Finset.empty_union]
        at hregions hcdevs
      rcases insmod_cases hloaded env with ⟨major, dev, heq⟩ | ⟨major, hnew, heq⟩
      · rw [heq]
        refine ⟨?_, ?_, ?_, h.strays, h.uses, h.opened, h.oops⟩
        · simpa [registered, hloaded] using hregions
        · simp [registered, hloaded]
        · simpa [registered, hloaded] using hcdevs
      · rw [heq]
        refine ⟨?_, ?_, ?_, h.strays, ?_, h.opened, h.oops⟩
        · simp [registered, hregions]
        · simpa [registered, ← hregions] using hnew
        · simp [registered, hcdevs]
        · simp [hempty]

theorem rmmod (h : machine.Accounted others) : machine.rmmod.Accounted others := by
  unfold Machine.rmmod
  split
  swap
  · exact h
  rename_i hidle
  obtain ⟨hloaded, hempty⟩ := hidle
  have hregions := h.regions_eq
  have hcdevs := h.cdevs_eq
  have hdisjoint := h.disjoint
  simp only [registered, hloaded, if_true] at hregions hcdevs hdisjoint
  have hnotMem : MKDEV machine.aesdMajor aesdMinor ∉ others :=
    Finset.disjoint_singleton_left.mp hdisjoint
  have hchrdevs : (machine.chrdevs.cdevDel (MKDEV machine.aesdMajor aesdMinor)
      ).unregisterChrdevRegion (MKDEV machine.aesdMajor aesdMinor) =
      ⟨others, ∅, machine.chrdevs.strays⟩ := by
    simp [Chrdevs.cdevDel, Chrdevs.unregisterChrdevRegion, hcdevs, hregions, hnotMem]
  refine ⟨?_, ?_, ?_, ?_, ?_, ?_, h.oops⟩
  · simp [aesdCleanupModule, registered, hchrdevs]
  · simp [registered]
  · simp [aesdCleanupModule, registered, hchrdevs]
  · simp [aesdCleanupModule, hchrdevs, h.strays]
  · simp [aesdCleanupModule, hempty]
  · simp [aesdCleanupModule, hempty]

/-- Only a loaded driver has a cdev. -/
theorem loaded_of_mem (h : machine.Accounted others) {dev : DevT}
    (hdev : dev ∈ machine.chrdevs.cdevs) : machine.loaded = true := by
  rw [h.cdevs_eq, registered] at hdev
  by_contra hnot
  rw [if_neg hnot] at hdev
  exact absurd hdev (Finset.notMem_empty dev)

theorem openFile (h : machine.Accounted others) (dev : DevT) :
    (machine.openFile dev).Accounted others := by
  unfold Machine.openFile
  split
  swap
  · exact h
  rename_i hdev
  have hloaded := h.loaded_of_mem hdev
  refine ⟨h.regions_eq, h.disjoint, h.cdevs_eq, h.strays, fun file hfile => ⟨hloaded, ?_⟩,
    fun file hfile => ?_, h.oops⟩
  · rcases Finset.mem_insert.mp hfile with rfl | hopen
    · exact Function.update_self _ _ _
    · have hne : file ≠ machine.opened := (h.opened file hopen).ne
      exact (Function.update_of_ne hne _ _).trans (h.uses file hopen).2
  · rcases Finset.mem_insert.mp hfile with rfl | hopen
    · exact Nat.lt_succ_self _
    · exact Nat.lt_succ_of_lt (h.opened file hopen)

/-- The call reaches the device of the load that is there. -/
theorem fileCall_eq (h : machine.Accounted others) {call : Call}
    (hfile : call.file ∈ machine.files) :
    machine.fileCall call = { machine with system := machine.system.step call } := by
  rw [Machine.fileCall, if_pos hfile, if_pos (h.uses _ hfile)]

theorem step (h : machine.Accounted others) (request : Request) :
    (machine.step request).Accounted others := by
  cases request with
  | insmod env => exact h.insmod env
  | rmmod => exact h.rmmod
  | openFile dev => exact h.openFile dev
  | call call =>
      change (machine.fileCall call).Accounted others
      by_cases hfile : call.file ∈ machine.files
      · rw [h.fileCall_eq hfile]
        exact ⟨h.regions_eq, h.disjoint, h.cdevs_eq, h.strays, h.uses, h.opened, h.oops⟩
      · rw [Machine.fileCall, if_neg hfile]
        exact h
  | release file =>
      exact ⟨h.regions_eq, h.disjoint, h.cdevs_eq, h.strays,
        fun other hother => h.uses other (Finset.mem_of_mem_erase hother),
        fun other hother => h.opened other (Finset.mem_of_mem_erase hother), h.oops⟩

end Accounted

theorem accounted_run (config : KmallocConfig) (others : Finset DevT) (requests : List Request) :
    ((boot config others).run requests).Accounted others := by
  have hboot : (boot config others).Accounted others :=
    ⟨by simp [boot, registered], by simp [boot, registered], rfl, rfl, by simp [boot],
      by simp [boot], rfl⟩
  have halways : Along Machine.step (fun _ _ => True) (boot config others) requests :=
    along_of_forall (fun _ _ => trivial) _ requests
  exact run_along (fun _ request _ h => h.step request) halways hboot

end Machine

/-! ### The device of a load -/

section Unloading

variable {kernel : Kernel} {entries : List AesdBufferEntry} {log : Log} {lost : Finset Ptr}

theorem foldl_freeSlot_frame (slots : List Slot) (kernel : Kernel) :
    (slots.foldl freeSlot kernel).heap.next = kernel.heap.next ∧
      (slots.foldl freeSlot kernel).heap.limit = kernel.heap.limit ∧
      (slots.foldl freeSlot kernel).heap.live ⊆ kernel.heap.live := by
  induction slots generalizing kernel with
  | nil => exact ⟨rfl, rfl, Finset.Subset.refl _⟩
  | cons index slots ih =>
      obtain ⟨hnext, hlimit, hlive⟩ := ih (freeSlot kernel index)
      rw [List.foldl_cons, hnext, hlimit]
      unfold freeSlot at hlive ⊢
      split at hlive
      · exact ⟨rfl, rfl, hlive⟩
      · refine ⟨BlockHeap.next_free _ _, BlockHeap.limit_free _ _, hlive.trans ?_⟩
        rw [kfree, BlockHeap.live_free]
        exact Finset.erase_subset _ _

/-- **What is left for the next load**: an empty device on a heap in which the pending text is lost
too. -/
theorem Represents.unloaded (h : Represents kernel entries log lost) :
    Represents ⟨(aesdCleanupModule kernel).heap, Machine.freshDevice⟩ [] Log.empty
      (kernel.dev.writeAccumulator.toFinset ∪ lost) := by
  obtain ⟨hnext, hlimit, hlive⟩ := foldl_freeSlot_frame foreachSlots kernel
  refine ⟨hlimit.trans_lt h.limit_lt, fun block hblock => ?_, h.cleanup.1, tracks_init, rfl, .nil,
    .idle, List.nodup_nil, fun block => ?_, fun _ _ => List.not_mem_nil⟩
  · exact (h.wellFormed block (hlive hblock)).trans_eq hnext.symm
  · change (aesdCleanupModule kernel).heap.view block ≠ none ↔ block ∈ [] ∨ _
    rw [← BlockHeap.mem_live_iff, h.live_cleanup]
    simp

end Unloading

namespace Machine

/-- The system as the calls find it, or, while there is none, as the next load makes it. -/
def view (machine : Machine) : System :=
  if machine.loaded then machine.system
  else ⟨⟨machine.system.kernel.heap, freshDevice⟩, machine.system.fPos⟩

/-- The load that is there, or else the next one. -/
def current (machine : Machine) : Nat :=
  if machine.loaded then machine.loads else machine.loads + 1

/-- How a block is lost. -/
inductive Leak where
  /-- The call completes a command. -/
  | command (call : Call)
  /-- The text is pending when the module is unloaded. -/
  | pending (text : Bytes)

def leaks (machine : Machine) : Request → List Leak
  | .call call =>
      if call.file ∈ machine.files ∧ call.Completes machine.system then [.command call] else []
  | .rmmod =>
      if (machine.loaded = true ∧ machine.files = ∅) ∧ machine.system.kernel.pending ≠ [] then
        [.pending machine.system.kernel.pending]
      else []
  | _ => []

/-- The calls of the current load, made on a module that is loaded for the first time. -/
def afresh (config : KmallocConfig) (machine : Machine) (reached : List (Nat × Call)) : System :=
  (System.init config).run (callsIn reached machine.current)

structure Renews (config : KmallocConfig) (machine : Machine) (reached : List (Nat × Call))
    (answered : Nat → List Response) (log : Log) (lost : Finset Ptr) : Prop where
  follows : Follows machine.view log lost
  afresh : ∃ gone, Follows (machine.afresh config reached) log gone
  limit_eq : machine.view.kernel.heap.limit = config.maxSize
  fPos_eq : ∀ file ∈ machine.files,
    machine.system.fPos file = (machine.afresh config reached).fPos file
  loads_le : ∀ visit ∈ reached, visit.1 ≤ machine.loads
  opened : ∀ visit ∈ reached, visit.2.file < machine.opened
  answered_eq : ∀ file, answered file =
    (System.init config).responses file (callsIn reached (machine.privateData file))

section Calls

variable {machine : Machine} {others : Finset DevT} {config : KmallocConfig}
  {reached : List (Nat × Call)} {answered : Nat → List Response} {log : Log} {lost : Finset Ptr}

theorem view_of_loaded (hloaded : machine.loaded = true) : machine.view = machine.system :=
  if_pos hloaded

theorem current_of_loaded (hloaded : machine.loaded = true) : machine.current = machine.loads :=
  if_pos hloaded

theorem mem_callsIn {load : Nat} {call : Call} :
    call ∈ callsIn reached load ↔ (load, call) ∈ reached := by
  simp [callsIn]

theorem callsIn_concat (load visited : Nat) (call : Call) :
    callsIn (reached ++ [(visited, call)]) load =
      callsIn reached load ++ if visited = load then [call] else [] := by
  by_cases heq : visited = load <;> simp [callsIn, heq]

/-- The call is one more call of the load that is there. -/
theorem afresh_call (hloaded : machine.loaded = true) (system : System) (call : Call) :
    Machine.afresh config { machine with system := system } (reached ++ [(machine.loads, call)]) =
      (machine.afresh config reached).step call := by
  have hcurrent : Machine.current { machine with system := system } = machine.loads :=
    if_pos hloaded
  rw [Machine.afresh, Machine.afresh, current_of_loaded hloaded, hcurrent, callsIn_concat,
    if_pos rfl, System.run_append]
  rfl

namespace Renews

/-- No load after the current one has had a call. -/
theorem callsIn_of_lt (h : Renews config machine reached answered log lost) {load : Nat}
    (hlt : machine.loads < load) : callsIn reached load = [] := by
  rw [List.eq_nil_iff_forall_not_mem]
  intro call hcall
  have hle := h.loads_le _ (mem_callsIn.mp hcall)
  omega

/-- A file that is not open yet has had no call. -/
theorem unused (h : Renews config machine reached answered log lost) {file : Nat}
    (hunopened : machine.opened ≤ file) (load : Nat) :
    ∀ call ∈ callsIn reached load, call.file ≠ file := by
  intro call hcall
  have hlt := h.opened _ (mem_callsIn.mp hcall)
  dsimp only at hlt
  omega

/-- A step after which the calls, the next ones included, find what they found before. -/
theorem congr (h : Renews config machine reached answered log lost) {machine' : Machine}
    (hview : machine'.view = machine.view) (hcurrent : machine'.current = machine.current)
    (hfiles : machine'.files ⊆ machine.files) (hfPos : machine'.system.fPos = machine.system.fPos)
    (hloads : machine.loads ≤ machine'.loads) (hopened : machine'.opened = machine.opened)
    (hprivate : machine'.privateData = machine.privateData) :
    Renews config machine' reached answered log lost := by
  have hafresh : machine'.afresh config reached = machine.afresh config reached := by
    rw [Machine.afresh, hcurrent]
    rfl
  refine ⟨hview ▸ h.follows, hafresh ▸ h.afresh, hview ▸ h.limit_eq, fun file hfile => ?_,
    fun visit hvisit => (h.loads_le visit hvisit).trans hloads, hopened ▸ h.opened,
    hprivate ▸ h.answered_eq⟩
  rw [hfPos, hafresh]
  exact h.fPos_eq file (hfiles hfile)

theorem insmod (h : Renews config machine reached answered log lost) (env : InitEnv) :
    Renews config (machine.insmod env) reached answered log lost := by
  cases hloaded : machine.loaded with
  | true =>
      rw [Machine.insmod, if_pos hloaded]
      exact h
  | false =>
      rcases insmod_cases hloaded env with ⟨major, dev, heq⟩ | ⟨major, -, heq⟩
      · rw [heq]
        refine h.congr ?_ ?_ (Finset.Subset.refl _) rfl le_rfl rfl rfl
        · simp [view, hloaded]
        · simp [current, hloaded]
      · rw [heq]
        refine h.congr ?_ ?_ (Finset.Subset.refl _) rfl (Nat.le_succ _) rfl rfl
        · simp [view, hloaded]
        · simp [current, hloaded]

/-- **Unloading** starts everything anew but the memory. -/
theorem rmmod (h : Renews config machine reached answered log lost) :
    ∃ log' lost', Renews config machine.rmmod reached answered log' lost' ∧
      lost'.card = lost.card + (machine.leaks .rmmod).length := by
  by_cases hidle : machine.loaded = true ∧ machine.files = ∅
  swap
  · rw [Machine.rmmod, if_neg hidle, leaks, if_neg fun hboth => hidle hboth.1]
    exact ⟨log, lost, h, rfl⟩
  obtain ⟨hfollows, hinRange⟩ := h.follows
  rw [view_of_loaded hidle.1] at hfollows hinRange
  obtain ⟨⟨entries, hrep⟩, -⟩ := hfollows
  obtain ⟨-, hlimit, -⟩ := foldl_freeSlot_frame foreachSlots machine.system.kernel
  have hnone : machine.rmmod.afresh config reached = System.init config := by
    have hcalls := h.callsIn_of_lt (Nat.lt_succ_self machine.loads)
    rw [Machine.rmmod, if_pos hidle, Machine.afresh]
    exact congrArg (System.run (System.init config)) hcalls
  have hview : machine.rmmod.view =
      ⟨⟨(AesdChar.aesdCleanupModule machine.system.kernel).heap, freshDevice⟩,
        machine.system.fPos⟩ := by
    rw [Machine.rmmod, if_pos hidle]
    rfl
  refine ⟨Log.empty, machine.system.kernel.dev.writeAccumulator.toFinset ∪ lost,
    ⟨?_, ⟨∅, hnone ▸ follows_init config⟩, ?_, ?_, ?_, ?_, ?_⟩, ?_⟩
  · rw [hview]
    exact ⟨⟨⟨[], hrep.unloaded⟩, List.not_mem_nil⟩, hinRange⟩
  · rw [hview, ← h.limit_eq, view_of_loaded hidle.1]
    exact hlimit
  · rw [Machine.rmmod, if_pos hidle]
    simp [Machine.aesdCleanupModule, hidle.2]
  · rw [Machine.rmmod, if_pos hidle]
    exact h.loads_le
  · rw [Machine.rmmod, if_pos hidle]
    exact h.opened
  · rw [Machine.rmmod, if_pos hidle]
    exact h.answered_eq
  · rw [hrep.card_left, leaks, Nat.add_comm]
    by_cases hpending : machine.system.kernel.pending = [] <;> simp [hidle, hpending]

theorem release (h : Renews config machine reached answered log lost) (file : Nat) :
    Renews config (machine.release file) reached answered log lost :=
  h.congr rfl rfl (Finset.erase_subset file machine.files) rfl le_rfl rfl rfl

/-- A file that is opened has had no call and no answer, and stands at the start. -/
theorem openFile (h : Renews config machine reached answered log lost)
    (haccounted : machine.Accounted others) (dev : DevT) :
    Renews config (machine.openFile dev) reached answered log lost := by
  by_cases hdev : dev ∈ machine.chrdevs.cdevs
  swap
  · rw [Machine.openFile, if_neg hdev]
    exact h
  have hloaded := haccounted.loaded_of_mem hdev
  have hunused := h.unused (le_refl machine.opened)
  have hfollows := h.follows
  have hlimit := h.limit_eq
  rw [view_of_loaded hloaded] at hfollows hlimit
  have hview : (machine.openFile dev).view =
      ⟨machine.system.kernel, Function.update machine.system.fPos machine.opened 0⟩ := by
    rw [Machine.openFile, if_pos hdev]
    exact if_pos hloaded
  rw [Machine.openFile, if_pos hdev] at hview ⊢
  refine ⟨?_, h.afresh, ?_, fun file hfile => ?_, h.loads_le,
    fun visit hvisit => Nat.lt_succ_of_lt (h.opened visit hvisit), fun file => ?_⟩
  · rw [hview]
    exact hfollows.setPos machine.opened (loffT_inRange 0)
  · rw [hview]
    exact hlimit
  · change Function.update machine.system.fPos machine.opened 0 file =
      (machine.afresh config reached).fPos file
    rcases Finset.mem_insert.mp hfile with rfl | hopen
    · rw [Function.update_self, Machine.afresh, System.fPos_of_unused (hunused _)]
      rfl
    · rw [Function.update_of_ne (haccounted.opened file hopen).ne, h.fPos_eq file hopen]
  · change answered file = (System.init config).responses file (callsIn reached
      (Function.update machine.privateData machine.opened machine.loads file))
    by_cases heq : file = machine.opened
    · subst heq
      rw [Function.update_self, System.responses_of_unused (hunused _), h.answered_eq,
        System.responses_of_unused (hunused _)]
    · rw [Function.update_of_ne heq, h.answered_eq]

/-- A call is answered as it would be in the first load. -/
theorem answered_call (h : Renews config machine reached answered log lost) {call : Call}
    (hloaded : machine.loaded = true) (hprivate : machine.privateData call.file = machine.loads)
    (hresponse : machine.system.response call = (machine.afresh config reached).response call)
    (file : Nat) :
    (answered file ++ if call.file = file then (machine.system.response call).toList else []) =
      (System.init config).responses file
        (callsIn (reached ++ [(machine.loads, call)]) (machine.privateData file)) := by
  rw [callsIn_concat, h.answered_eq, System.responses_append]
  by_cases heq : call.file = file
  · subst heq
    rw [if_pos rfl, hprivate, if_pos rfl, System.responses_singleton, if_pos rfl, hresponse,
      Machine.afresh, current_of_loaded hloaded]
  · have hother : ∀ other ∈ if machine.loads = machine.privateData file then [call] else [],
        other.file ≠ file := by
      split <;> simp [heq]
    rw [if_neg heq, System.responses_of_unused hother]

/-- **A call** does on the device what it does on the one that is loaded for the first time, and is
answered alike. -/
theorem fileCall (h : Renews config machine reached answered log lost)
    (haccounted : machine.Accounted others) {call : Call} (hfile : call.file ∈ machine.files) :
    ∃ log' lost', Renews config { machine with system := machine.system.step call }
        (reached ++ [(machine.loads, call)])
        (fun file => answered file ++
          if call.file = file then (machine.system.response call).toList else []) log' lost' ∧
      lost'.card = lost.card + if call.Completes machine.system then 1 else 0 := by
  obtain ⟨hloaded, hprivate⟩ := haccounted.uses _ hfile
  obtain ⟨gone, hafresh⟩ := h.afresh
  have hfollows := h.follows
  have hlimit := h.limit_eq
  rw [view_of_loaded hloaded] at hfollows hlimit
  have hlimits : machine.system.kernel.heap.limit =
      (machine.afresh config reached).kernel.heap.limit := by
    rw [hlimit, Machine.afresh, (follows_init config).limit_run]
    rfl
  have hfPos := h.fPos_eq call.file hfile
  have hresponse := hfollows.response_alike hafresh hlimits hfPos
  -- the same call on both devices, from the same log
  obtain ⟨lost', hstep, hcard⟩ := hfollows.step_card call
  obtain ⟨gone', hstep', -⟩ := hafresh.step_card call
  have hagain : Machine.afresh config { machine with system := machine.system.step call }
      (reached ++ [(machine.loads, call)]) = (machine.afresh config reached).step call :=
    afresh_call hloaded _ call
  have hview : Machine.view { machine with system := machine.system.step call } =
      machine.system.step call := if_pos hloaded
  rw [← hlimits] at hstep'
  refine ⟨_, lost', ⟨?_, ⟨gone', hagain ▸ hstep'⟩, ?_, fun file hopen => ?_, fun visit hvisit => ?_,
    fun visit hvisit => ?_, h.answered_call hloaded hprivate hresponse⟩, hcard⟩
  · rw [hview]
    exact hstep
  · rw [hview]
    exact (hfollows.limit_step call).trans hlimit
  · rw [hagain]
    by_cases heq : call.file = file
    · subst heq
      exact System.fPos_step_alike hresponse hfPos
    · exact (fPos_step_of_ne machine.system heq).trans ((h.fPos_eq file hopen).trans
        (fPos_step_of_ne (machine.afresh config reached) heq).symm)
  · rcases List.mem_append.mp hvisit with hpast | hnow
    · exact h.loads_le visit hpast
    · rw [List.mem_singleton.mp hnow]
  · rcases List.mem_append.mp hvisit with hpast | hnow
    · exact h.opened visit hpast
    · rw [List.mem_singleton.mp hnow]
      exact haccounted.opened _ hfile

/-- **One step.** -/
theorem step (h : Renews config machine reached answered log lost)
    (haccounted : machine.Accounted others) (request : Request) :
    ∃ log' lost', Renews config (machine.step request) (reached ++ machine.reaches request)
        (fun file => answered file ++ answers file machine request) log' lost' ∧
      lost'.card = lost.card + (machine.leaks request).length := by
  cases request with
  | insmod env =>
      simp only [reaches, answers, leaks, List.append_nil]
      exact ⟨log, lost, h.insmod env, rfl⟩
  | rmmod =>
      simp only [reaches, answers, List.append_nil]
      exact h.rmmod
  | openFile dev =>
      simp only [reaches, answers, leaks, List.append_nil]
      exact ⟨log, lost, h.openFile haccounted dev, rfl⟩
  | release file =>
      simp only [reaches, answers, leaks, List.append_nil]
      exact ⟨log, lost, h.release file, rfl⟩
  | call call =>
      by_cases hfile : call.file ∈ machine.files
      · obtain ⟨log', lost', hcall, hcard⟩ := h.fileCall haccounted hfile
        refine ⟨log', lost', ?_, ?_⟩
        · have hanswers (file : Nat) : answers file machine (.call call) =
              if call.file = file then (machine.system.response call).toList else [] := by
            rw [answers]
            exact if_congr ⟨And.left, fun heq => ⟨heq, heq ▸ hfile⟩⟩ rfl rfl
          simp only [Machine.step, haccounted.fileCall_eq hfile, reaches, if_pos hfile, hanswers,
            (haccounted.uses _ hfile).2]
          exact hcall
        · rw [hcard, leaks]
          by_cases hcompletes : call.Completes machine.system <;> simp [hcompletes, hfile]
      · have hanswers (file : Nat) : answers file machine (.call call) = [] := by
          rw [answers, if_neg]
          rintro ⟨rfl, hopen⟩
          exact hfile hopen
        simp only [Machine.step, Machine.fileCall, reaches, hanswers, leaks, hfile, false_and,
          List.append_nil, if_false]
        exact ⟨log, lost, h, rfl⟩

end Renews

/-- What has been lost, in order. -/
def leaked (machine : Machine) (requests : List Request) : List Leak :=
  history Machine.step leaks machine requests

theorem renews_boot (config : KmallocConfig) (others : Finset DevT) :
    Renews config (boot config others) [] (fun _ => []) Log.empty ∅ :=
  ⟨follows_init config, ⟨∅, follows_init config⟩, rfl, by simp [boot], by simp, by simp,
    fun _ => rfl⟩

/-- **Every run.** -/
theorem renews_run (config : KmallocConfig) (others : Finset DevT) (requests : List Request) :
    ∃ log lost, Renews config ((boot config others).run requests)
        (history Machine.step reaches (boot config others) requests)
        ((boot config others).responses requests) log lost ∧
      lost.card = ((boot config others).leaked requests).length := by
  induction requests using List.reverseRecOn with
  | nil => exact ⟨Log.empty, ∅, renews_boot config others, rfl⟩
  | append_singleton requests request ih =>
      obtain ⟨log, lost, hrun, hcard⟩ := ih
      obtain ⟨log', lost', hstep, hcard'⟩ := hrun.step (accounted_run config others requests) request
      have hresponses : (boot config others).responses (requests ++ [request]) = fun file =>
          (boot config others).responses requests file ++
            answers file ((boot config others).run requests) request :=
        funext fun file => history_concat _ _ _
      refine ⟨log', lost', ?_, ?_⟩
      · rw [Machine.run, run_concat, history_concat, hresponses]
        exact hstep
      · rw [hcard', hcard, leaked, leaked, history_concat, List.length_append]
        rfl

end Calls

/-! ### The module's life -/

/-- **Nothing stays behind, nothing goes too early.** After any requests, whatever failed in them,
the driver has its number and its cdev exactly while it is loaded, other drivers keep theirs, and
every open file leads to the device that is there. -/
theorem module_accounted (config : KmallocConfig) (others : Finset DevT) (requests : List Request) :
    let machine := (boot config others).run requests
    machine.chrdevs = ⟨machine.registered ∪ others, machine.registered, []⟩ ∧
      Disjoint machine.registered others ∧
      (∀ file ∈ machine.files, machine.loaded = true ∧ machine.privateData file = machine.loads) ∧
      machine.oops = false := by
  intro machine
  have haccounted : machine.Accounted others := accounted_run config others requests
  refine ⟨?_, haccounted.disjoint, haccounted.uses, haccounted.oops⟩
  calc machine.chrdevs = ⟨machine.chrdevs.regions, machine.chrdevs.cdevs, machine.chrdevs.strays⟩ :=
        rfl
    _ = ⟨machine.registered ∪ others, machine.registered, []⟩ := by
        rw [haccounted.regions_eq, haccounted.cdevs_eq, haccounted.strays]

/-- **Each load starts afresh.** What the user of a file is answered, and what the loaded device
holds, is what the calls of that load alone give on a module that is loaded for the first time. -/
theorem loads_start_afresh (config : KmallocConfig) (others : Finset DevT)
    (requests : List Request) :
    let start := boot config others
    let machine := start.run requests
    let first (load : Nat) := (System.init config).run (start.callsOf requests load)
    (∀ file, start.responses requests file =
        (System.init config).responses file
          (start.callsOf requests (machine.privateData file))) ∧
      (machine.loaded = true →
        machine.system.kernel.commands = (first machine.loads).kernel.commands ∧
        machine.system.kernel.pending = (first machine.loads).kernel.pending) ∧
      ∀ file ∈ machine.files, machine.system.fPos file = (first machine.loads).fPos file := by
  intro start machine first
  obtain ⟨log, lost, hrun, -⟩ := renews_run config others requests
  have haccounted : machine.Accounted others := accounted_run config others requests
  have hafresh (hloaded : machine.loaded = true) :
      machine.afresh config (history Machine.step reaches start requests) = first machine.loads := by
    rw [Machine.afresh, current_of_loaded hloaded]
    rfl
  refine ⟨hrun.answered_eq, fun hloaded => ?_, fun file hfile => ?_⟩
  · obtain ⟨gone, hfirst⟩ := hrun.afresh
    rw [hafresh hloaded] at hfirst
    have hfollows := hrun.follows
    rw [view_of_loaded hloaded] at hfollows
    obtain ⟨⟨entries, hrep⟩, -⟩ := hfollows.refines
    obtain ⟨⟨entries', hrep'⟩, -⟩ := hfirst.refines
    exact ⟨hrep.commands_eq.trans hrep'.commands_eq.symm,
      hrep.pending_eq.trans hrep'.pending_eq.symm⟩
  · rw [← hafresh (haccounted.uses file hfile).1]
    exact hrun.fPos_eq file hfile

/-- **Only the memory remembers.** No load ever comes back for what an earlier one lost: what is
live is what the loaded device shows, and a block for each command that was completed and each text
that was pending at an unload, in all the loads so far. -/
theorem leaks_outlive_loads (config : KmallocConfig) (others : Finset DevT)
    (requests : List Request) :
    let machine := (boot config others).run requests
    let kernel := machine.system.kernel
    let shown := if machine.loaded then
      kernel.commands.length + (if kernel.pending = [] then 0 else 1) else 0
    kernel.heap.reports = [] ∧
      kernel.heap.live.card = shown + ((boot config others).leaked requests).length := by
  intro machine kernel shown
  obtain ⟨log, lost, hrun, hcard⟩ := renews_run config others requests
  obtain ⟨⟨entries, hrep⟩, -⟩ := hrun.follows.refines
  cases hloaded : machine.loaded with
  | true =>
      rw [view_of_loaded hloaded] at hrep
      refine ⟨hrep.clean, ?_⟩
      rw [← hcard, hrep.card_live]
      simp only [shown, hloaded, if_true]
      rfl
  | false =>
      have hview : machine.view = ⟨⟨kernel.heap, freshDevice⟩, machine.system.fPos⟩ := by
        rw [view, hloaded]
        rfl
      rw [hview] at hrep
      refine ⟨hrep.clean, ?_⟩
      rw [← hcard]
      simp only [shown, hloaded, Bool.false_eq_true, if_false, Nat.zero_add]
      exact hrep.card_live.trans (Nat.zero_add _)

end Machine

end AesdChar
