import AesdChar.InFlight
import AesdChar.Proof.Reader
import AesdChar.Proof.Seek

/-!
# Equal logs, equal answers

Which blocks a device uses cannot be told from what it answers: two devices that represent the same
log give the same responses to every call, and a read that has come half way on the one can go on on
the other. What a write returns is settled by the length of the pending text and by what fails.
-/

namespace AesdChar

open Lib

/-- The accumulator can take the data. -/
def Grows (env : WriteEnv) (limit : Nat) (pending data : Bytes) : Prop :=
  env.krealloc ≠ .fail ∧ pending.length + data.length ≤ limit

instance (env : WriteEnv) (limit : Nat) (pending data : Bytes) :
    Decidable (Grows env limit pending data) := inferInstanceAs (Decidable (_ ∧ _))

/-- There is data, and a buffer for it. -/
def Buffered (env : WriteEnv) (limit : Nat) (buf : Option Bytes) : Prop :=
  ¬((buf.getD []).length = 0 ∨ buf = none) ∧ env.kmalloc = true ∧ (buf.getD []).length ≤ limit

instance (env : WriteEnv) (limit : Nat) (buf : Option Bytes) : Decidable (Buffered env limit buf) :=
  inferInstanceAs (Decidable (_ ∧ _))

/-- The log after a call. Of the device only the log and the largest block are asked. -/
def Log.after (limit : Nat) (log : Log) : Call → Log
  | .write _ env buf =>
      if Buffered env limit buf ∧ env.copyFromUser = true ∧ env.lock = true then
        log.write (buf.getD []) (Log.effect (Grows env limit log.pending (buf.getD []))
          (env.addEntryKmalloc = true) (buf.getD []))
      else log
  | _ => log

/-- What a write gives back once it has the lock. -/
def lockedAnswer (env : WriteEnv) (limit : Nat) (pending data : Bytes) (fPos : Int) : Response :=
  if Grows env limit pending data then written data.length fPos else ⟨-ENOMEM, fPos, []⟩

/-- What a write gives back. -/
def writeAnswer (env : WriteEnv) (limit : Nat) (pending : Bytes) (buf : Option Bytes)
    (fPos : Int) : Response :=
  if (buf.getD []).length = 0 ∨ buf = none then ⟨-EINVAL, fPos, []⟩
  else if ¬(env.kmalloc = true ∧ (buf.getD []).length ≤ limit) then ⟨-ENOMEM, fPos, []⟩
  else if env.copyFromUser = false then ⟨-EFAULT, fPos, []⟩
  else if env.lock = false then ⟨-ERESTARTSYS, fPos, []⟩
  else lockedAnswer env limit pending (buf.getD []) fPos

namespace Represents

section Write

variable {kernel : Kernel} {entries : List AesdBufferEntry} {log : Log} {lost : Finset Ptr}

theorem sizeT_accumulator (h : Represents kernel entries log lost) {count : Nat}
    (hcount : count ≤ kernel.heap.limit) :
    sizeT (kernel.dev.accumulatorSize + count) = log.pending.length + count := by
  have hle := h.accumulates.size_le
  have hlt := h.limit_lt
  rw [sizeT_of_lt (by omega), h.accumulates.size_eq]

theorem krealloc_of_not_grows (h : Represents kernel entries log lost) {env : WriteEnv}
    {data : Bytes} (hcount : data.length ≤ kernel.heap.limit)
    (hnot : ¬ Grows env kernel.heap.limit log.pending data) :
    krealloc kernel.heap env.krealloc kernel.dev.writeAccumulator
      (sizeT (kernel.dev.accumulatorSize + data.length)) = (none, kernel.heap) := by
  rw [h.sizeT_accumulator hcount]
  refine BlockHeap.realloc_of_refused (fun block hblock => ?_) hnot
  exact BlockHeap.mem_live_iff.mpr (h.view_ne_none (mem_owned.mpr (Or.inr hblock)))

theorem writeAnswer_of_admits (h : Represents kernel entries log lost) {env : WriteEnv}
    {buf : Option Bytes} (hadmits : Admits env kernel (buf.getD [])) (fPos : Int) :
    writeAnswer env kernel.heap.limit log.pending buf fPos =
      ⟨(buf.getD []).length, loffT (fPos + (buf.getD []).length), []⟩ := by
  obtain ⟨hdata, hkmalloc, hcopy, hlock, hgrows⟩ := hadmits
  have hgrows : Grows env kernel.heap.limit log.pending (buf.getD []) :=
    ⟨hgrows.1, h.accumulates.size_eq ▸ hgrows.2⟩
  have hempty : ¬((buf.getD []).length = 0 ∨ buf = none) := by
    rintro (hlength | rfl)
    · exact hdata (List.length_eq_zero_iff.mp hlength)
    · exact hdata rfl
  have hlt := h.limit_lt
  have hret : loffT ((buf.getD []).length : Int) = (buf.getD []).length :=
    loffT_of_lt (by omega) (by omega)
  rw [writeAnswer, if_neg hempty, if_neg (not_not_intro hkmalloc), if_neg (by simp [hcopy]),
    if_neg (by simp [hlock]), lockedAnswer, if_pos hgrows, written, hret]

/-- **What a write returns**, and at which position. -/
theorem aesdWrite_response (h : Represents kernel entries log lost) (env : WriteEnv)
    (buf : Option Bytes) (fPos : Int) :
    (aesdWrite env kernel buf fPos).response =
      writeAnswer env kernel.heap.limit log.pending buf fPos := by
  by_cases hadmits : Admits env kernel (buf.getD [])
  · obtain ⟨extended, kbuff, -, -, -, -, heq⟩ := h.aesdWrite_of_admits hadmits fPos
    rw [heq, h.writeAnswer_of_admits hadmits]
    rfl
  unfold aesdWrite writeAnswer
  by_cases hempty : (buf.getD []).length = 0 ∨ buf = none
  · simp only [if_pos hempty]
    rfl
  rw [if_neg hempty, if_neg hempty]
  by_cases hkmalloc : env.kmalloc = true ∧ (buf.getD []).length ≤ kernel.heap.limit
  swap
  · have halloc : kmalloc kernel.heap env.kmalloc (buf.getD []).length = (none, kernel.heap) :=
      BlockHeap.alloc_of_refused hkmalloc
    simp only [halloc, if_pos hkmalloc]
    rfl
  obtain ⟨heap', halloc, -, hfilled, -, -, hlimit⟩ := h.scratch hkmalloc.2
  rw [if_neg (not_not_intro hkmalloc), hkmalloc.1, halloc]
  by_cases hcopy : env.copyFromUser = false
  · simp only [if_pos hcopy]
    rfl
  by_cases hlock : env.lock = false
  · simp only [if_neg hcopy, if_pos hlock]
    rfl
  simp only [if_neg hcopy, if_neg hlock, lockedAnswer]
  -- only the accumulator's own growth is left to fail
  have hgrows : ¬ Grows env kernel.heap.limit log.pending (buf.getD []) := by
    intro hgrows
    refine hadmits ⟨fun hdata => hempty (Or.inl (by rw [hdata]; rfl)), hkmalloc,
      by simpa using hcopy, by simpa using hlock, hgrows.1, ?_⟩
    rw [h.accumulates.size_eq]
    exact hgrows.2
  rw [← hlimit] at hgrows
  have hrealloc := hfilled.krealloc_of_not_grows (hlimit ▸ hkmalloc.2) hgrows
  rw [hlimit] at hgrows
  simp only [hrealloc, if_neg hgrows]
  rfl

end Write

/-! ### Two devices -/

section Alike

variable {kernel kernel' : Kernel} {entries entries' : List AesdBufferEntry} {log : Log}
  {lost lost' : Finset Ptr}

theorem outOffs_alike (h : Represents kernel entries log lost)
    (h' : Represents kernel' entries' log lost') :
    kernel.dev.circularBuffer.outOffs = kernel'.dev.circularBuffer.outOffs := by
  apply Fin.ext
  rw [h.tracks.outOffs_eq, h'.tracks.outOffs_eq, h.length_eq, h'.length_eq]

theorem commands_alike (h : Represents kernel entries log lost)
    (h' : Represents kernel' entries' log lost') : kernel.commands = kernel'.commands :=
  h.commands_eq.trans h'.commands_eq.symm

/-- Every slot of the one holds what the same slot of the other one holds. -/
theorem entry_alike (h : Represents kernel entries log lost)
    (h' : Represents kernel' entries' log lost') (index : Slot) :
    (kernel.dev.circularBuffer.entry index = zeroEntry ∧
        kernel'.dev.circularBuffer.entry index = zeroEntry) ∨
      ∃ command, Stores kernel.heap (kernel.dev.circularBuffer.entry index) command ∧
        Stores kernel'.heap (kernel'.dev.circularBuffer.entry index) command := by
  by_cases hlt : index.val < entries.length
  · obtain ⟨k, hk, hindex⟩ := h.tracks.inside hlt
    have hcommand : k < kernel.commands.length := by
      rw [← h.count_eq, h.tracks.count_eq]
      exact hk
    have hstores := h.stores_slot hcommand
    have hstores' := h'.stores_slot (h.commands_alike h' ▸ hcommand)
    rw [← h.outOffs_alike h', ← hindex] at hstores'
    rw [← hindex] at hstores
    refine Or.inr ⟨kernel.commands[k], hstores, ?_⟩
    simpa only [h.commands_alike h'] using hstores'
  · refine Or.inl ⟨h.tracks.untouched index (Nat.le_of_not_lt hlt), h'.tracks.untouched index ?_⟩
    rw [h'.length_eq, ← h.length_eq]
    exact Nat.le_of_not_lt hlt

theorem entry_size_alike (h : Represents kernel entries log lost)
    (h' : Represents kernel' entries' log lost') (index : Slot) :
    (kernel.dev.circularBuffer.entry index).size =
      (kernel'.dev.circularBuffer.entry index).size := by
  rcases h.entry_alike h' index with ⟨hzero, hzero'⟩ | ⟨command, ⟨_, hentry, -⟩, _, hentry', -⟩
  · rw [hzero, hzero']
  · rw [hentry, hentry']

theorem entry_null_alike (h : Represents kernel entries log lost)
    (h' : Represents kernel' entries' log lost') (index : Slot) :
    (kernel.dev.circularBuffer.entry index).buffptr = none ↔
      (kernel'.dev.circularBuffer.entry index).buffptr = none := by
  rcases h.entry_alike h' index with ⟨hzero, hzero'⟩ | ⟨command, ⟨_, hentry, -⟩, _, hentry', -⟩
  · rw [hzero, hzero']
  · simp [hentry, hentry']

theorem seekWalk_alike (h : Represents kernel entries log lost)
    (h' : Represents kernel' entries' log lost') (steps : Nat) (circIndex : Slot) (offset : Int) :
    seekWalk kernel.dev.circularBuffer steps circIndex offset =
      seekWalk kernel'.dev.circularBuffer steps circIndex offset := by
  induction steps generalizing circIndex offset with
  | zero => rfl
  | succ steps ih => rw [seekWalk, seekWalk, h.entry_size_alike h', ih]

theorem aesdLlseek_alike (h : Represents kernel entries log lost)
    (h' : Represents kernel' entries' log lost') (lock : Bool) (fPos offset whence : Int) :
    (aesdLlseek lock kernel fPos offset whence).response =
      (aesdLlseek lock kernel' fPos offset whence).response := by
  unfold aesdLlseek
  rw [h.size_eq, h'.size_eq, Kernel.content, Kernel.content, h.commands_alike h']
  dsimp only
  split_ifs <;> rfl

theorem aesdUnlockedIoctl_alike (h : Represents kernel entries log lost)
    (h' : Represents kernel' entries' log lost') (env : IoctlEnv) (fPos : Int) (cmd : UInt32)
    (seekto : AesdSeekto) :
    (aesdUnlockedIoctl env kernel fPos cmd seekto).response =
      (aesdUnlockedIoctl env kernel' fPos cmd seekto).response := by
  have hrejected : seekRejected kernel.dev.circularBuffer seekto =
      seekRejected kernel'.dev.circularBuffer seekto := by
    unfold seekRejected
    simp only [h.entry_size_alike h', h.entry_null_alike h']
  unfold aesdUnlockedIoctl
  simp only [hrejected, h.seekWalk_alike h', h.outOffs_alike h', h.entry_size_alike h',
    h.entry_null_alike h']
  split_ifs <;> rfl

theorem find_alike (h : Represents kernel entries log lost)
    (h' : Represents kernel' entries' log lost') (fPos : Int) (rtn : Nat) :
    aesdCircularBufferFindEntryOffsetForFpos kernel.dev.circularBuffer (sizeTOfInt fPos) rtn =
      aesdCircularBufferFindEntryOffsetForFpos kernel'.dev.circularBuffer (sizeTOfInt fPos)
        rtn := by
  have hpos : sizeTOfInt fPos < 2 ^ 64 := by
    unfold sizeTOfInt
    omega
  rw [h.find_eq hpos, h'.find_eq hpos, h.outOffs_alike h', h.commands_alike h']

/-- A lookup leaves an offset within the entry, so that reading up to its end is checked. -/
theorem readBytes_found (h : Represents kernel entries log lost) {fPos : Int} {rtn : Nat}
    {index : Slot} {entryOffset : Nat}
    (hfind : aesdCircularBufferFindEntryOffsetForFpos kernel.dev.circularBuffer (sizeTOfInt fPos)
      rtn = (some index, entryOffset)) {count : Nat}
    (hcount : count ≤ sizeTSub (kernel.dev.circularBuffer.entry index).size entryOffset) :
    readBytes kernel.heap (kernel.dev.circularBuffer.entry index).buffptr entryOffset count =
      ((kernel.content.drop (sizeTOfInt fPos)).take count, kernel.heap) := by
  have hpos : sizeTOfInt fPos < 2 ^ 64 := by
    unfold sizeTOfInt
    omega
  by_cases hend : kernel.content.length ≤ sizeTOfInt fPos
  · rw [h.find_eq_none hpos hend] at hfind
    cases hfind
  obtain ⟨index', offset', hfind', hoffset, hsize, -, hread, -⟩ :=
    h.find_eq_some (Nat.lt_of_not_le hend) rtn
  rw [hfind'] at hfind
  cases hfind
  rw [sizeTSub_of_le hoffset.le hsize] at hcount
  exact hread count hcount

/-- **A read half way through** goes on alike on both devices. -/
theorem aesdReadLoop_alike (h : Represents kernel entries log lost)
    (h' : Represents kernel' entries' log lost') (env : ReadEnv) (count : Nat) :
    ∀ (fuel iteration : Nat) (buf : Bytes) (fPos : Int),
      (aesdReadLoop env kernel.dev count fuel iteration kernel.heap buf fPos).map
          ReadOutcome.response =
        (aesdReadLoop env kernel'.dev count fuel iteration kernel'.heap buf fPos).map
          ReadOutcome.response := by
  intro fuel
  induction fuel with
  | zero => intro iteration buf fPos; rfl
  | succ fuel ih =>
      intro iteration buf fPos
      rw [aesdReadLoop, aesdReadLoop, ← h.find_alike h']
      by_cases hdone : buf.length < count
      swap
      · rw [if_neg hdone, if_neg hdone]
        rfl
      rw [if_pos hdone, if_pos hdone]
      cases hfind : aesdCircularBufferFindEntryOffsetForFpos kernel.dev.circularBuffer
          (sizeTOfInt fPos) 0 with
      | mk found entryOffset =>
          cases found with
          | none => rfl
          | some index =>
              have hfind' := hfind
              rw [h.find_alike h'] at hfind'
              have hcut : ∀ x y : Nat, (if x < y then x else y) ≤ y := by
                intro x y
                split <;> omega
              dsimp only
              rw [h.readBytes_found hfind (hcut _ _), h'.readBytes_found hfind' (hcut _ _),
                h.entry_size_alike h', Kernel.content, Kernel.content, h.commands_alike h']
              cases env.copyToUser iteration with
              | false => rfl
              | true => exact ih _ _ _

theorem aesdRead_alike (h : Represents kernel entries log lost)
    (h' : Represents kernel' entries' log lost') (env : ReadEnv) (count : Nat) (fPos : Int) :
    (aesdRead env kernel count fPos).map ReadOutcome.response =
      (aesdRead env kernel' count fPos).map ReadOutcome.response := by
  unfold aesdRead
  rw [h.size_eq, h'.size_eq, Kernel.content, Kernel.content, h.commands_alike h']
  split_ifs
  · rfl
  · rfl
  · exact h.aesdReadLoop_alike h' env count _ _ _ _

end Alike

end Represents

/-! ### The calls one after the other -/

theorem System.settle_eq_update (system : System) (file : Nat) (outcome : Outcome) :
    system.settle file outcome = ⟨outcome.kernel, Function.update system.fPos file
      (if 0 ≤ outcome.ret then outcome.fPos else system.fPos file)⟩ := by
  unfold System.settle
  split
  · rfl
  · rw [Function.update_eq_self]

/-- **Equal logs, equal answers.** -/
theorem Follows.response_alike {system system' : System} {log : Log} {lost lost' : Finset Ptr}
    (h : Follows system log lost) (h' : Follows system' log lost')
    (hlimit : system.kernel.heap.limit = system'.kernel.heap.limit) {call : Call}
    (hfPos : system.fPos call.file = system'.fPos call.file) :
    system.response call = system'.response call := by
  obtain ⟨⟨entries, hrep⟩, -⟩ := h.refines
  obtain ⟨⟨entries', hrep'⟩, -⟩ := h'.refines
  cases call with
  | write file env buf =>
      have hfPos : system.fPos file = system'.fPos file := hfPos
      rw [System.response, System.response, hrep.aesdWrite_response, hrep'.aesdWrite_response,
        hlimit, hfPos]
  | read file env count =>
      have hfPos : system.fPos file = system'.fPos file := hfPos
      rw [System.response, System.response, hrep.aesdRead_alike hrep', hfPos]
  | llseek file lock offset whence =>
      have hfPos : system.fPos file = system'.fPos file := hfPos
      rw [System.response, System.response, hrep.aesdLlseek_alike hrep', hfPos]
  | ioctl file env cmd seekto =>
      have hfPos : system.fPos file = system'.fPos file := hfPos
      rw [System.response, System.response, hrep.aesdUnlockedIoctl_alike hrep', hfPos]

theorem System.responses_singleton (system : System) (file : Nat) (call : Call) :
    system.responses file [call] =
      if call.file = file then (system.response call).toList else [] := by
  simp [System.responses, history]

theorem System.responses_append (system : System) (file : Nat) (first second : List Call) :
    system.responses file (first ++ second) =
      system.responses file first ++ (system.run first).responses file second :=
  history_append system first second

theorem System.run_append (system : System) (first second : List Call) :
    system.run (first ++ second) = (system.run first).run second := List.foldl_append

theorem System.fPos_of_unused {calls : List Call} {file : Nat}
    (hunused : ∀ call ∈ calls, call.file ≠ file) (system : System) :
    (system.run calls).fPos file = system.fPos file := by
  induction calls generalizing system with
  | nil => rfl
  | cons call calls ih =>
      obtain ⟨hcall, hcalls⟩ := List.forall_mem_cons.mp hunused
      exact (ih hcalls (system.step call)).trans (fPos_step_of_ne system hcall)

theorem System.responses_of_unused {calls : List Call} {file : Nat}
    (hunused : ∀ call ∈ calls, call.file ≠ file) (system : System) :
    system.responses file calls = [] := by
  induction calls generalizing system with
  | nil => rfl
  | cons call calls ih =>
      obtain ⟨hcall, hcalls⟩ := List.forall_mem_cons.mp hunused
      rw [System.responses, history, if_neg hcall, List.nil_append]
      exact ih hcalls (system.step call)

theorem System.fPos_step (system : System) {call : Call} {response : Response}
    (hresponse : system.response call = some response) :
    (system.step call).fPos call.file = call.keeps (system.fPos call.file) response := by
  cases call with
  | write file env buf =>
      cases hresponse
      rw [System.step, System.settle_eq_update]
      exact Function.update_self _ _ _
  | read file env count =>
      cases hread : aesdRead env system.kernel count (system.fPos file) with
      | none => simp [System.response, hread] at hresponse
      | some outcome =>
          simp only [System.response, hread, Option.map_some, Option.some.injEq] at hresponse
          subst hresponse
          simp only [System.step, hread, System.settle_eq_update]
          exact Function.update_self _ _ _
  | llseek file lock offset whence =>
      cases hresponse
      simp [System.step, Call.file, Call.keeps, Outcome.response]
  | ioctl file env cmd seekto =>
      cases hresponse
      simp [System.step, Call.file, Call.keeps, Outcome.response]

theorem System.fPos_step_alike {system system' : System} {call : Call}
    (hresponse : system.response call = system'.response call)
    (hfPos : system.fPos call.file = system'.fPos call.file) :
    (system.step call).fPos call.file = (system'.step call).fPos call.file := by
  cases hcase : system.response call with
  | some response =>
      rw [system.fPos_step hcase, system'.fPos_step (hresponse ▸ hcase), hfPos]
  | none =>
      have hcase' := hresponse ▸ hcase
      cases call with
      | write | llseek | ioctl => cases hcase
      | read file env count =>
          rw [System.response, Option.map_eq_none_iff] at hcase hcase'
          simp only [System.step, hcase, hcase']
          exact hfPos

theorem Follows.limit_step {system : System} {log : Log} {lost : Finset Ptr}
    (h : Follows system log lost) (call : Call) :
    (system.step call).kernel.heap.limit = system.kernel.heap.limit := by
  cases call with
  | write file env buf => exact (aesdWrite_cases h.refines env buf (system.fPos file)).2
  | read | llseek | ioctl =>
      rw [(h.step_other (by simp)).1]

/-- A write that is refused leaves log and losses alone. -/
theorem Follows.refuse {system : System} {log : Log} {lost : Finset Ptr}
    (h : Follows system log lost) {file : Nat} {env : WriteEnv} {buf : Option Bytes}
    (hnot : ¬ Admits env system.kernel (buf.getD [])) :
    Follows (system.step (.write file env buf)) log lost := by
  obtain ⟨hcase, -⟩ := aesdWrite_cases h.refines env buf (system.fPos file)
  cases hcase with
  | refused _ _ _ _ hrefines => exact h.step_write hrefines
  | extended hadmits => exact absurd hadmits hnot
  | committed hadmits => exact absurd hadmits hnot
  | dropped hadmits => exact absurd hadmits hnot

/-- A write that gets the lock. -/
theorem Follows.admit {system : System} {log : Log} {lost : Finset Ptr}
    (h : Follows system log lost) {file : Nat} {env : WriteEnv} {buf : Option Bytes}
    (hbuffered : Buffered env system.kernel.heap.limit buf) (hcopy : env.copyFromUser = true)
    (hlock : env.lock = true) :
    ∃ lost', Follows (system.step (.write file env buf))
        (log.write (buf.getD []) (Log.effect
          (Grows env system.kernel.heap.limit log.pending (buf.getD []))
          (env.addEntryKmalloc = true) (buf.getD []))) lost' ∧
      lost'.card = lost.card +
        if Grows env system.kernel.heap.limit log.pending (buf.getD []) ∧ newline ∈ buf.getD []
          then 1 else 0 := by
  obtain ⟨hdata, hkmalloc⟩ := hbuffered
  have hsize : system.kernel.dev.accumulatorSize = log.pending.length := by
    obtain ⟨⟨entries, hrep⟩, -⟩ := h.refines
    exact hrep.accumulates.size_eq
  have hadmits : Admits env system.kernel (buf.getD []) ↔
      Grows env system.kernel.heap.limit log.pending (buf.getD []) := by
    rw [Admits, hsize]
    refine ⟨fun hadmits => hadmits.2.2.2.2, fun hgrows => ⟨fun hempty => ?_, hkmalloc, hcopy,
      hlock, hgrows⟩⟩
    exact hdata (Or.inl (by rw [hempty]; rfl))
  obtain ⟨hcase, -⟩ := aesdWrite_cases h.refines env buf (system.fPos file)
  cases hcase with
  | refused hnot _ _ _ hrefines =>
      have hgrows := hadmits.not.mp hnot
      refine ⟨lost, ?_, by rw [if_neg fun hboth => hgrows hboth.1]; rfl⟩
      rw [Log.effect, if_neg hgrows]
      exact h.step_write hrefines
  | extended hyes hnewline _ _ _ hrefines =>
      refine ⟨lost, ?_, by rw [if_neg fun hboth => hnewline hboth.2]; rfl⟩
      rw [Log.effect, if_pos (hadmits.mp hyes), if_neg hnewline]
      exact h.step_write hrefines
  | committed hyes hnewline hstored _ _ _ _ copy hcopy hrefines =>
      refine ⟨insert copy lost, ?_, ?_⟩
      · rw [Log.effect, if_pos (hadmits.mp hyes), if_pos hnewline, if_pos hstored]
        exact h.step_write hrefines
      · rw [if_pos ⟨hadmits.mp hyes, hnewline⟩, Finset.card_insert_of_notMem hcopy]
  | dropped hyes hnewline hfail _ _ _ text htext hrefines =>
      refine ⟨insert text lost, ?_, ?_⟩
      · rw [Log.effect, if_pos (hadmits.mp hyes), if_pos hnewline, if_neg (by simp [hfail])]
        exact h.step_write hrefines
      · rw [if_pos ⟨hadmits.mp hyes, hnewline⟩, Finset.card_insert_of_notMem htext]

end AesdChar
