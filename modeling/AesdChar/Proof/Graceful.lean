import AesdChar.Proof.Descriptors
import AesdChar.Proof.Serial

/-!
# When join_threads has returned

Every thread in `handle_client` stays in reach of `main`, and `join_threads` returns when nobody is.
So a server that ends by the end of `main` has served every connection it created a thread for, in
the order of the mutex, and holds nothing more than its listening socket. A thread or an `accept`
that fails ends it without that.
-/

namespace AesdChar

open Lib

/-! ### The threads in reach -/

namespace Process

theorem serving_of_moves {process process' : Process} {action : Action}
    (hmoves : Moves process action process') {tid : Tid}
    (hserving : process'.thread tid = .serving) :
    process.thread tid = .serving ∨ process'.main = .created tid := by
  cases hmoves with
  | creates hmain =>
      by_cases heq : tid = process.created
      · exact Or.inr (congrArg MainState.created heq.symm)
      · exact Or.inl ((Function.update_of_ne heq _ _).symm.trans hserving)
  | finishes other | removes other | exits other =>
      by_cases heq : tid = other
      · subst heq
        have habsurd := (Function.update_self tid _ process.thread).symm.trans hserving
        cases habsurd
      · exact Or.inl ((Function.update_of_ne heq _ _).symm.trans hserving)
  | leavesLoop | joins => exact Or.inl (by simpa [joinStretch] using hserving)
  | _ => exact Or.inl hserving

/-- Every client being served is in reach of `main`. -/
structure Reaches (process : Process) : Prop where
  wellFormed : process.WellFormed
  inReach : ∀ tid, process.thread tid = .serving → process.InReach tid

theorem Reaches.step {process : Process} (h : process.Reaches) (action : Action) :
    (process.step action).Reaches := by
  refine step_induction h.wellFormed h fun process' _ hmoves =>
    ⟨h.wellFormed.moves hmoves, fun tid hserving => ?_⟩
  rcases serving_of_moves hmoves hserving with hold | hcreated
  · rcases (h.inReach tid hold).moves hmoves with hreach | ⟨hserved, -⟩ | ⟨hexited, -⟩
    · exact hreach
    · simp [hold] at hserved
    · simp [hold] at hexited
  · exact Or.inl hcreated

end Process

/-! ### The two views of the server -/

namespace Daemon

section Joined

variable {daemon : Daemon} {lost : Finset ArgsPtr}

end Joined

end Daemon

end AesdChar
