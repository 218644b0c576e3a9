import AesdChar.Log
import AesdChar.System
import AesdChar.Lib.Window
import AesdChar.Proof.RingHistory

/-!
# How a device represents a log

The commands still visible sit in the blocks the ring points at, oldest first; the pending text sits
in the accumulator, when there is any. All these blocks are live and distinct, and the checker has
nothing to report. What is live beyond them is accounted for as lost: blocks nobody points at any
more, and for the length of a call its scratch buffer. Everything said about the driver later is
said of a device that represents some log.
-/

namespace AesdChar

open Lib

/-- The entry's block is live and holds exactly the command. -/
def Stores (heap : Heap) (entry : AesdBufferEntry) (command : Bytes) : Prop :=
  ∃ block, entry = ⟨some block, command.length⟩ ∧ heap.view block = some command ∧
    command.length ≤ heap.limit

inductive Accumulates (heap : Heap) : Option Ptr → Nat → Bytes → Prop
  | idle : Accumulates heap none 0 []
  | holding {block : Ptr} {text : Bytes} : text ≠ [] → heap.view block = some text →
      text.length ≤ heap.limit → Accumulates heap (some block) text.length text

structure Represents (kernel : Kernel) (entries : List AesdBufferEntry) (log : Log)
    (lost : Finset Ptr) : Prop where
  limit_lt : kernel.heap.limit < 2 ^ 59
  wellFormed : kernel.heap.WellFormed
  clean : kernel.heap.reports = []
  tracks : kernel.dev.circularBuffer.Tracks entries
  length_eq : entries.length = log.committed.length
  stores : List.Forall₂ (Stores kernel.heap) (entries.rtake maxWriteOperationsSupported)
    (log.visible maxWriteOperationsSupported)
  accumulates :
    Accumulates kernel.heap kernel.dev.writeAccumulator kernel.dev.accumulatorSize log.pending
  nodup : kernel.dev.owned.Nodup
  live_iff : ∀ block, kernel.heap.view block ≠ none ↔ block ∈ kernel.dev.owned ∨ block ∈ lost
  lost_notMem : ∀ block ∈ lost, block ∉ kernel.dev.owned

/-- Between calls the pending text also has no newline in it. -/
def Refines (kernel : Kernel) (log : Log) (lost : Finset Ptr) : Prop :=
  (∃ entries, Represents kernel entries log lost) ∧ newline ∉ log.pending

theorem Stores.congr {heap heap' : Heap} {entry : AesdBufferEntry} {command : Bytes}
    (h : Stores heap entry command) (hlimit : heap'.limit = heap.limit)
    (hview : ∀ block ∈ entry.buffptr, heap'.view block = heap.view block) :
    Stores heap' entry command := by
  obtain ⟨block, rfl, hblock, hle⟩ := h
  exact ⟨block, rfl, (hview block rfl).trans hblock, hlimit.symm ▸ hle⟩

theorem Accumulates.congr {heap heap' : Heap} {accumulator : Option Ptr} {size : Nat} {text : Bytes}
    (h : Accumulates heap accumulator size text) (hlimit : heap'.limit = heap.limit)
    (hview : ∀ block ∈ accumulator, heap'.view block = heap.view block) :
    Accumulates heap' accumulator size text := by
  cases h with
  | idle => exact .idle
  | holding hne hblock hle => exact .holding hne ((hview _ rfl).trans hblock) (hlimit.symm ▸ hle)

theorem Accumulates.size_eq {heap : Heap} {accumulator : Option Ptr} {size : Nat} {text : Bytes}
    (h : Accumulates heap accumulator size text) : size = text.length := by
  cases h <;> rfl

theorem Accumulates.size_le {heap : Heap} {accumulator : Option Ptr} {size : Nat} {text : Bytes}
    (h : Accumulates heap accumulator size text) : size ≤ heap.limit := by
  cases h with
  | idle => exact Nat.zero_le _
  | holding _ _ hle => exact hle

theorem Accumulates.exists_block {heap : Heap} {accumulator : Option Ptr} {size : Nat}
    {text : Bytes} (h : Accumulates heap accumulator size text) (hne : text ≠ []) :
    ∃ block, accumulator = some block ∧ size = text.length ∧ heap.view block = some text ∧
      text.length ≤ heap.limit := by
  cases h with
  | idle => exact absurd rfl hne
  | holding _ hview hle => exact ⟨_, rfl, rfl, hview, hle⟩

theorem Accumulates.eq_none_iff {heap : Heap} {accumulator : Option Ptr} {size : Nat} {text : Bytes}
    (h : Accumulates heap accumulator size text) : accumulator = none ↔ text = [] := by
  cases h with
  | idle => simp
  | holding hne _ _ => simp [hne]

theorem entryBytes_of_view {heap : Heap} {block : Ptr} {text : Bytes}
    (hview : heap.view block = some text) : entryBytes heap ⟨some block, text.length⟩ = text := by
  change heap.load block 0 text.length = text
  rw [heap.load_of_view hview, List.drop_zero, List.take_length]

theorem Accumulates.entryBytes_eq {heap : Heap} {accumulator : Option Ptr} {size : Nat}
    {text : Bytes} (h : Accumulates heap accumulator size text) :
    entryBytes heap ⟨accumulator, size⟩ = text := by
  cases h with
  | idle => rfl
  | holding _ hview _ => exact entryBytes_of_view hview

theorem mem_owned {dev : AesdDev} {block : Ptr} :
    block ∈ dev.owned ↔
      (∃ entry ∈ dev.circularBuffer.stored, entry.buffptr = some block) ∨
        dev.writeAccumulator = some block := by
  simp [AesdDev.owned]

namespace Represents

variable {kernel : Kernel} {entries : List AesdBufferEntry} {log : Log} {lost : Finset Ptr}

theorem stored_eq (h : Represents kernel entries log lost) :
    kernel.dev.circularBuffer.stored = entries.rtake maxWriteOperationsSupported :=
  h.tracks.stored_eq

theorem full_iff (h : Represents kernel entries log lost) :
    kernel.dev.circularBuffer.full = true ↔
      maxWriteOperationsSupported ≤ log.committed.length := by
  rw [← h.length_eq]
  exact h.tracks.full_iff

theorem exists_stores (h : Represents kernel entries log lost) {entry : AesdBufferEntry}
    (hentry : entry ∈ kernel.dev.circularBuffer.stored) :
    ∃ command ∈ log.visible maxWriteOperationsSupported, Stores kernel.heap entry command := by
  rw [h.stored_eq] at hentry
  obtain ⟨i, hi, rfl⟩ := List.getElem_of_mem hentry
  have hlength := h.stores.length_eq
  exact ⟨_, List.getElem_mem (hlength ▸ hi), List.Forall₂.get h.stores hi (hlength ▸ hi)⟩

theorem view_ne_none (h : Represents kernel entries log lost) {block : Ptr}
    (hblock : block ∈ kernel.dev.owned) : kernel.heap.view block ≠ none :=
  (h.live_iff block).mpr (Or.inl hblock)

/-- **Frame.** Whatever happens to blocks the device does not point at, it represents the same log.
-/
theorem frame (h : Represents kernel entries log lost) {heap' : Heap}
    {view' : Ptr → Option Bytes} {lost' : Finset Ptr} (hbecomes : kernel.heap.Becomes heap' view')
    (hkeep : ∀ block ∈ kernel.dev.owned, view' block = kernel.heap.view block)
    (hlost : ∀ block, block ∈ lost' ↔ block ∉ kernel.dev.owned ∧ view' block ≠ none) :
    Represents { kernel with heap := heap' } entries log lost' := by
  have hview : ∀ block ∈ kernel.dev.owned, heap'.view block = kernel.heap.view block := by
    rw [hbecomes.view_eq]
    exact hkeep
  refine ⟨hbecomes.limit_eq.trans_lt h.limit_lt, hbecomes.wellFormed,
    hbecomes.reports_eq.trans h.clean, h.tracks, h.length_eq, ?_, ?_, h.nodup, ?_,
    fun block hblock => ((hlost block).mp hblock).1⟩
  · have hentries : ∀ entry ∈ entries.rtake maxWriteOperationsSupported, ∀ command,
        Stores kernel.heap entry command → Stores heap' entry command := by
      intro entry hentry command hstores
      refine hstores.congr hbecomes.limit_eq fun block hblock => hview block (mem_owned.mpr ?_)
      exact Or.inl ⟨entry, h.stored_eq ▸ hentry, hblock⟩
    exact forall₂_mem_imp hentries h.stores
  · apply h.accumulates.congr hbecomes.limit_eq
    intro block hblock
    exact hview block (mem_owned.mpr (Or.inr hblock))
  · intro block
    rw [hbecomes.view_eq, hlost]
    by_cases howned : block ∈ kernel.dev.owned
    · simp [howned, hkeep block howned, h.view_ne_none howned]
    · simp [howned]

theorem allocScratch (h : Represents kernel entries log lost) {heap' : Heap} {block : Ptr}
    {contents : Bytes} (hfresh : kernel.heap.view block = none)
    (hbecomes : kernel.heap.Becomes heap'
      (Function.update kernel.heap.view block (some contents))) :
    Represents { kernel with heap := heap' } entries log (insert block lost) := by
  have hnot : block ∉ kernel.dev.owned := fun hmem => h.view_ne_none hmem hfresh
  refine h.frame hbecomes (fun other hother => ?_) fun other => ?_
  · refine Function.update_of_ne (fun heq => hnot ?_) _ _
    exact heq ▸ hother
  · by_cases heq : other = block
    · subst heq
      simp [hnot]
    · rw [Finset.mem_insert, Function.update_of_ne heq, h.live_iff]
      have := h.lost_notMem other
      tauto

theorem freeScratch (h : Represents kernel entries log lost) {block : Ptr} (hblock : block ∈ lost) :
    Represents { kernel with heap := kfree kernel.heap (some block) } entries log
      (lost.erase block) := by
  have hnot := h.lost_notMem block hblock
  have hlive : ∀ gone ∈ some block, kernel.heap.view gone ≠ none := by
    rintro gone ⟨⟩
    exact (h.live_iff block).mpr (Or.inr hblock)
  refine h.frame (becomes_kfree h.wellFormed hlive) (fun other hother => ?_) fun other => ?_
  · refine BlockHeap.without_of_ne fun heq => hnot ?_
    cases heq
    exact hother
  · by_cases heq : other = block
    · subst heq
      simp [BlockHeap.without]
    · rw [Finset.mem_erase, BlockHeap.without_of_ne (fun hsome => heq (Option.some.inj hsome).symm),
        h.live_iff]
      have := h.lost_notMem other
      tauto

/-! ### What the device shows of the log -/

theorem commands_eq (h : Represents kernel entries log lost) :
    kernel.commands = log.visible maxWriteOperationsSupported := by
  rw [Kernel.commands, h.stored_eq]
  have hbytes : ∀ entry command, Stores kernel.heap entry command →
      entryBytes kernel.heap entry = command := by
    rintro entry command ⟨block, rfl, hview, -⟩
    exact entryBytes_of_view hview
  have hforall := h.stores.imp hbytes
  rw [← List.forall₂_map_left_iff, List.forall₂_eq_eq_eq] at hforall
  exact hforall

theorem pending_eq (h : Represents kernel entries log lost) : kernel.pending = log.pending :=
  h.accumulates.entryBytes_eq

end Represents

end AesdChar
