import AesdChar.Proof.Answers
import AesdChar.Proof.Ownership

/-!
# How much leaks

A block for each command a reader can see, one for the pending text if there is any, and everything
else is lost: one block for each command that was ever completed, whether it was stored or not.
-/

namespace AesdChar

open Lib

instance (system : System) : (call : Call) → Decidable (call.Admitted system)
  | .write _ env buf => inferInstanceAs (Decidable (Admits env system.kernel (buf.getD [])))
  | .read _ _ _ => inferInstanceAs (Decidable False)
  | .llseek _ _ _ _ => inferInstanceAs (Decidable False)
  | .ioctl _ _ _ _ => inferInstanceAs (Decidable False)

instance (system : System) (call : Call) : Decidable (call.Completes system) :=
  inferInstanceAs (Decidable (_ ∧ _))

/-- The calls of a run that complete a command. -/
def System.completions (system : System) (calls : List Call) : List Call :=
  history System.step (fun s call => if call.Completes s then [call] else []) system calls

theorem length_filterMap_buffptr {heap : Heap} {entries : List AesdBufferEntry}
    {commands : List Bytes} (h : List.Forall₂ (Stores heap) entries commands) :
    (entries.filterMap (·.buffptr)).length = commands.length := by
  induction h with
  | nil => rfl
  | @cons entry command _ _ hstores _ ih =>
      obtain ⟨block, rfl, -⟩ := hstores
      simp [ih]

section Count

variable {kernel : Kernel} {entries : List AesdBufferEntry} {log : Log} {lost : Finset Ptr}

theorem Accumulates.length_toList {heap : Heap} {accumulator : Option Ptr} {size : Nat}
    {text : Bytes} (h : Accumulates heap accumulator size text) :
    accumulator.toList.length = if text = [] then 0 else 1 := by
  cases h with
  | idle => rfl
  | holding hne _ _ => rw [if_neg hne]; rfl

theorem Represents.length_owned (h : Represents kernel entries log lost) :
    kernel.dev.owned.length =
      kernel.commands.length + if kernel.pending = [] then 0 else 1 := by
  rw [AesdDev.owned, List.length_append, h.stored_eq, length_filterMap_buffptr h.stores,
    h.accumulates.length_toList, h.commands_eq, h.pending_eq]

/-- **What is live**: the visible commands, the pending text and what is lost. -/
theorem Represents.card_live (h : Represents kernel entries log lost) :
    kernel.heap.live.card =
      kernel.commands.length + (if kernel.pending = [] then 0 else 1) + lost.card := by
  have hlive : kernel.heap.live = kernel.dev.owned.toFinset ∪ lost := by
    ext block
    rw [BlockHeap.mem_live_iff, h.live_iff, Finset.mem_union, List.mem_toFinset]
  have hdisjoint : Disjoint kernel.dev.owned.toFinset lost := by
    rw [Finset.disjoint_left]
    exact fun block howned hlost => h.lost_notMem block hlost (List.mem_toFinset.mp howned)
  rw [hlive, Finset.card_union_of_disjoint hdisjoint, List.toFinset_card_of_nodup h.nodup,
    h.length_owned]

/-- Unloading leaves the accumulator and what is lost. -/
theorem Represents.live_cleanup (h : Represents kernel entries log lost) :
    (aesdCleanupModule kernel).heap.live = kernel.dev.writeAccumulator.toFinset ∪ lost := by
  ext block
  rw [h.cleanup.2, Finset.mem_union, Option.mem_toFinset]
  rfl

theorem Represents.card_left (h : Represents kernel entries log lost) :
    (kernel.dev.writeAccumulator.toFinset ∪ lost).card =
      (if kernel.pending = [] then 0 else 1) + lost.card := by
  have hdisjoint : Disjoint kernel.dev.writeAccumulator.toFinset lost := by
    rw [Finset.disjoint_left]
    intro block hacc hlost
    exact h.accumulator_ne_of_lost hlost (Option.mem_toFinset.mp hacc)
  rw [Finset.card_union_of_disjoint hdisjoint, h.pending_eq, ← h.accumulates.length_toList]
  cases kernel.dev.writeAccumulator <;> rfl

end Count

section Runs

variable {system : System} {log : Log} {lost : Finset Ptr}

/-- **One call**: the log it leaves, and one block less if it completes a command. -/
theorem Follows.step_card (h : Follows system log lost) (call : Call) :
    ∃ lost', Follows (system.step call) (log.after system.kernel.heap.limit call) lost' ∧
      lost'.card = lost.card + if call.Completes system then 1 else 0 := by
  by_cases hcall : ∃ file env buf, call = .write file env buf
  swap
  · have hother : ∀ file env buf, call ≠ .write file env buf := fun file env buf heq =>
      hcall ⟨file, env, buf, heq⟩
    have hstep := (h.step_other hother).2
    cases call with
    | write file env buf => exact absurd rfl (hother file env buf)
    | read | llseek | ioctl =>
        exact ⟨lost, hstep, by rw [if_neg fun hcompletes => hcompletes.1]; rfl⟩
  obtain ⟨file, env, buf, rfl⟩ := hcall
  obtain ⟨⟨entries, hrep⟩, -⟩ := h.refines
  have hadmits : Admits env system.kernel (buf.getD []) ↔
      (Buffered env system.kernel.heap.limit buf ∧ env.copyFromUser = true ∧ env.lock = true) ∧
        Grows env system.kernel.heap.limit log.pending (buf.getD []) := by
    rw [Admits, hrep.accumulates.size_eq]
    constructor
    · rintro ⟨hdata, hkmalloc, hcopy, hlock, hgrows⟩
      refine ⟨⟨⟨?_, hkmalloc⟩, hcopy, hlock⟩, hgrows⟩
      rintro (hlength | rfl)
      · exact hdata (List.length_eq_zero_iff.mp hlength)
      · exact hdata rfl
    · rintro ⟨⟨⟨hdata, hkmalloc⟩, hcopy, hlock⟩, hgrows⟩
      exact ⟨fun hempty => hdata (Or.inl (by rw [hempty]; rfl)), hkmalloc, hcopy, hlock, hgrows⟩
  rw [Log.after]
  by_cases hreaches : Buffered env system.kernel.heap.limit buf ∧ env.copyFromUser = true ∧
      env.lock = true
  · obtain ⟨lost', hfollows, hcard⟩ := h.admit hreaches.1 hreaches.2.1 hreaches.2.2
    rw [if_pos hreaches]
    refine ⟨lost', hfollows, hcard.trans (congrArg (lost.card + ·) (if_congr ?_ rfl rfl))⟩
    exact and_congr ⟨fun hgrows => hadmits.mpr ⟨hreaches, hgrows⟩, fun h => (hadmits.mp h).2⟩
      Iff.rfl
  · have hrefused : ¬ Admits env system.kernel (buf.getD []) := fun h => hreaches (hadmits.mp h).1
    rw [if_neg hreaches]
    exact ⟨lost, h.refuse hrefused, by rw [if_neg fun hcompletes => hrefused hcompletes.1]; rfl⟩

theorem run_card (calls : List Call) (h : Follows system log lost) :
    ∃ log' lost', Follows (system.run calls) log' lost' ∧
      lost'.card = lost.card + (system.completions calls).length := by
  induction calls generalizing system log lost with
  | nil => exact ⟨log, lost, h, rfl⟩
  | cons call calls ih =>
      obtain ⟨lost', hstep, hcard⟩ := h.step_card call
      obtain ⟨log', lost'', hrun, hcard'⟩ := ih hstep
      refine ⟨log', lost'', hrun, ?_⟩
      have hcompletions : (system.completions (call :: calls)).length =
          (if call.Completes system then 1 else 0) +
            ((system.step call).completions calls).length := by
        rw [System.completions, history, List.length_append]
        split <;> rfl
      rw [hcard', hcard, hcompletions, Nat.add_assoc]

theorem Follows.limit_run (calls : List Call) (h : Follows system log lost) :
    (system.run calls).kernel.heap.limit = system.kernel.heap.limit := by
  induction calls generalizing system log lost with
  | nil => rfl
  | cons call calls ih =>
      obtain ⟨lost', hstep, -⟩ := h.step_card call
      exact (ih hstep).trans (h.limit_step call)

end Runs

/-- **One block leaks for every command completed**, and unloading leaks the pending text besides.
-/
theorem leaks_one_per_command (config : KmallocConfig) (calls : List Call) :
    let kernel := ((System.init config).run calls).kernel
    let pending := if kernel.pending = [] then 0 else 1
    let completed := ((System.init config).completions calls).length
    kernel.heap.live.card = kernel.commands.length + pending + completed ∧
      (aesdCleanupModule kernel).heap.live.card = pending + completed := by
  intro kernel pending completed
  obtain ⟨log, lost, hfollows, hcard⟩ := run_card calls (follows_init config)
  obtain ⟨⟨entries, hrep⟩, -⟩ := hfollows.refines
  rw [Finset.card_empty, Nat.zero_add] at hcard
  rw [hrep.card_live, hrep.live_cleanup, hrep.card_left, hcard]
  exact ⟨rfl, rfl⟩

end AesdChar
