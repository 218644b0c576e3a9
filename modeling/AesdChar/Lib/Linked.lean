import Mathlib

/-!
# Chains of pointers

A singly linked list is a start pointer and a function that follows the links. What matters about it
is which nodes the chain from a start passes through; the start may be the head of the list or a
pointer somebody has kept to its middle. When links only ever lead downwards a node can be unlinked
without any other node getting lost from any chain, and the chain it was found on no longer passes
through it.
-/

namespace AesdChar.Lib

open StateTransition

variable {α : Type}

/-- Following the links from `start` passes through `target`. -/
def OnChain (next : α → Option α) (start : Option α) (target : α) : Prop :=
  ∃ first ∈ start, Reaches next first target

def Descending [LT α] (next : α → Option α) : Prop :=
  ∀ node, ∀ successor ∈ next node, successor < node

/-- The links with the one to `gone` led around it. -/
def unlink [DecidableEq α] (next : α → Option α) (prev gone : α) : α → Option α :=
  Function.update next prev (next gone)

section Chains

variable {next : α → Option α} {start : Option α} {node target : α}

theorem not_onChain_none (next : α → Option α) (target : α) : ¬ OnChain next none target := by
  rintro ⟨first, hfirst, -⟩
  cases hfirst

theorem onChain_some_iff : OnChain next (some node) target ↔ Reaches next node target := by
  constructor
  · rintro ⟨first, hfirst, hreaches⟩
    obtain rfl := Option.some.inj hfirst
    exact hreaches
  · intro hreaches
    exact ⟨node, rfl, hreaches⟩

theorem onChain_self (next : α → Option α) (node : α) : OnChain next (some node) node :=
  onChain_some_iff.mpr .refl

theorem onChain_cons_iff :
    OnChain next (some node) target ↔ target = node ∨ OnChain next (next node) target := by
  rw [onChain_some_iff, Reaches, Relation.ReflTransGen.cases_head_iff]
  exact or_congr_left eq_comm

theorem OnChain.trans (h : OnChain next start node) (hrest : OnChain next (next node) target) :
    OnChain next start target := by
  obtain ⟨first, hfirst, hreaches⟩ := h
  have hnode : OnChain next (some node) target := onChain_cons_iff.mpr (Or.inr hrest)
  exact ⟨first, hfirst, hreaches.trans (onChain_some_iff.mp hnode)⟩

theorem OnChain.link {successor : α} (h : OnChain next start node)
    (hlink : successor ∈ next node) : OnChain next start successor :=
  h.trans ⟨successor, hlink, .refl⟩

/-- A chain is the same for all links that agree on the nodes it passes through. -/
theorem onChain_congr {next' : α → Option α}
    (hagree : ∀ node, OnChain next start node → next' node = next node) :
    OnChain next' start target ↔ OnChain next start target := by
  constructor
  · rintro ⟨first, hfirst, hreaches⟩
    induction hreaches with
    | refl => exact ⟨first, hfirst, .refl⟩
    | @tail node successor _ hlink ih =>
        rw [hagree node ih] at hlink
        exact ih.link hlink
  · rintro ⟨first, hfirst, hreaches⟩
    induction hreaches with
    | refl => exact ⟨first, hfirst, .refl⟩
    | @tail node successor hnode hlink ih =>
        rw [← hagree node ⟨first, hfirst, hnode⟩] at hlink
        exact ih.link hlink

/-- A chain leads to its target by other links if each of its steps can be made up for. -/
theorem OnChain.of_steps {next' : α → Option α} (h : OnChain next start target)
    (hstep : ∀ node, ∀ successor ∈ next node, OnChain next' (some successor) target →
      OnChain next' (some node) target) :
    OnChain next' start target := by
  obtain ⟨first, hfirst, hreaches⟩ := h
  refine ⟨first, hfirst, ?_⟩
  clear hfirst
  induction hreaches using Relation.ReflTransGen.head_induction_on with
  | refl => exact .refl
  | head hlink _ ih => exact onChain_some_iff.mp (hstep _ _ hlink (onChain_some_iff.mpr ih))

/-- Changing the link of a node the chain does not pass through changes nothing. -/
theorem OnChain.update [DecidableEq α] {other : α} (h : OnChain next start target)
    (hother : ∀ node, OnChain next start node → node ≠ other) (link : Option α) :
    OnChain (Function.update next other link) start target :=
  (onChain_congr fun node hnode => Function.update_of_ne (hother node hnode) link next).mpr h

theorem onChain_of_update [DecidableEq α] {other : α} {link : Option α}
    (h : OnChain (Function.update next other link) start target)
    (hother : ∀ node, OnChain next start node → node ≠ other) : OnChain next start target :=
  (onChain_congr fun node hnode => Function.update_of_ne (hother node hnode) link next).mp h

end Chains

section Descending

variable [LinearOrder α] {next : α → Option α} {start : Option α} {node prev gone target : α}

theorem Descending.le_of_onChain (h : Descending next) (hon : OnChain next (some node) target) :
    target ≤ node := by
  rw [onChain_some_iff] at hon
  induction hon using Relation.ReflTransGen.head_induction_on with
  | refl => exact le_rfl
  | @head node successor hlink _ ih =>
      calc target ≤ successor := ih
        _ ≤ node := (h node successor hlink).le

theorem Descending.lt_of_onChain_next (h : Descending next)
    (hon : OnChain next (next node) target) : target < node := by
  obtain ⟨first, hfirst, hreaches⟩ := hon
  calc target ≤ first := h.le_of_onChain (onChain_some_iff.mpr hreaches)
    _ < node := h node first hfirst

/-- Of two nodes on a chain the lower one comes later. -/
theorem Descending.onChain_next (h : Descending next) (hnode : OnChain next start node)
    (htarget : OnChain next start target) (hlt : target < node) :
    OnChain next (next node) target := by
  obtain ⟨first, hfirst, hreaches⟩ := hnode
  obtain ⟨first', hfirst', hreaches'⟩ := htarget
  obtain rfl := Option.mem_unique hfirst hfirst'
  rcases reaches_total hreaches hreaches' with hafter | hbefore
  · have hcases := onChain_cons_iff.mp (onChain_some_iff.mpr hafter)
    exact hcases.resolve_left hlt.ne
  · exact absurd (h.le_of_onChain (onChain_some_iff.mpr hbefore)) (not_le_of_gt hlt)

theorem Descending.update (h : Descending next) {link : Option α}
    (hlink : ∀ successor ∈ link, successor < node) :
    Descending (Function.update next node link) := by
  intro other successor hsuccessor
  by_cases heq : other = node
  · subst heq
    rw [Function.update_self] at hsuccessor
    exact hlink successor hsuccessor
  · rw [Function.update_of_ne heq] at hsuccessor
    exact h _ _ hsuccessor

theorem Descending.unlink (h : Descending next) (hlink : next prev = some gone) :
    Descending (unlink next prev gone) :=
  h.update fun _ hsuccessor => (h _ _ hsuccessor).trans (h _ _ hlink)

/-- The chain from below a node does not pass through it. -/
theorem Descending.ne_of_onChain (h : Descending next) (hstart : ∀ first ∈ start, first < node)
    (hon : OnChain next start target) : target ≠ node := by
  obtain ⟨first, hfirst, hreaches⟩ := hon
  exact ((h.le_of_onChain (onChain_some_iff.mpr hreaches)).trans_lt (hstart first hfirst)).ne

/-- **Leading a link elsewhere** loses no node that is still found there. -/
theorem Descending.onChain_relink (h : Descending next) {link : Option α}
    (hlink : ∀ successor ∈ link, successor < node)
    (hfound : OnChain next (next node) target → OnChain next link target)
    (hon : OnChain next start target) : OnChain (Function.update next node link) start target := by
  apply hon.of_steps
  intro other successor hsuccessor hrest
  apply onChain_cons_iff.mpr
  by_cases heq : other = node
  · subst heq
    have hbelow : ∀ first ∈ some successor, first < other := by
      intro first hfirst
      rw [← Option.some.inj hfirst]
      exact h other successor hsuccessor
    have hold : OnChain next (next other) target := by
      rw [Option.mem_def.mp hsuccessor]
      exact onChain_of_update hrest fun _ => h.ne_of_onChain hbelow
    rw [Function.update_self]
    exact Or.inr ((hfound hold).update (fun _ => h.ne_of_onChain hlink) link)
  · rw [Function.update_of_ne heq, Option.mem_def.mp hsuccessor]
    exact Or.inr hrest

/-- **Unlinking loses no other node**, wherever the chain starts. -/
theorem Descending.onChain_unlink (h : Descending next) (hlink : next prev = some gone)
    (hne : target ≠ gone) (hon : OnChain next start target) :
    OnChain (Lib.unlink next prev gone) start target := by
  refine h.onChain_relink (fun successor hsuccessor => ?_) (fun hbehind => ?_) hon
  · exact (h _ _ hsuccessor).trans (h _ _ hlink)
  · rw [hlink] at hbehind
    exact (onChain_cons_iff.mp hbehind).resolve_left hne

theorem onChain_of_unlink (hlink : next prev = some gone)
    (hon : OnChain (Lib.unlink next prev gone) start target) : OnChain next start target := by
  apply hon.of_steps
  intro other successor hsuccessor hrest
  apply onChain_cons_iff.mpr
  by_cases heq : other = prev
  · subst heq
    rw [Lib.unlink, Function.update_self] at hsuccessor
    rw [hlink, onChain_cons_iff, Option.mem_def.mp hsuccessor]
    exact Or.inr (Or.inr hrest)
  · rw [Lib.unlink, Function.update_of_ne heq] at hsuccessor
    rw [Option.mem_def.mp hsuccessor]
    exact Or.inr hrest

/-- **The chain it was found on no longer passes through an unlinked node.** -/
theorem Descending.not_onChain_unlink (h : Descending next) (hlink : next prev = some gone)
    (hprev : OnChain next start prev) : ¬ OnChain (Lib.unlink next prev gone) start gone := by
  intro hgone
  have hlt : gone < prev := h _ _ hlink
  have hrest := (h.unlink hlink).onChain_next (h.onChain_unlink hlink hlt.ne' hprev) hgone hlt
  rw [Lib.unlink, Function.update_self] at hrest
  exact lt_irrefl _ (h.lt_of_onChain_next (onChain_of_unlink hlink hrest))

end Descending

end AesdChar.Lib
