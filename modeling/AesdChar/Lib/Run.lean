import Mathlib

/-!
# Runs of a step function

A run feeds a list of inputs to a step function. Its history is what an observer writes down at each
step; `Along` says that a condition on a state and the next input holds at every step of a run. The
rules below are the two inductions every statement about runs comes down to.
-/

namespace AesdChar.Lib

variable {σ β γ : Type}

def run (step : σ → β → σ) (state : σ) (inputs : List β) : σ := inputs.foldl step state

def history (step : σ → β → σ) (emit : σ → β → List γ) : σ → List β → List γ
  | _, [] => []
  | state, input :: inputs => emit state input ++ history step emit (step state input) inputs

def Along (step : σ → β → σ) (ok : σ → β → Prop) : σ → List β → Prop
  | _, [] => True
  | state, input :: inputs => ok state input ∧ Along step ok (step state input) inputs

variable {step : σ → β → σ} {emit : σ → β → List γ} {ok : σ → β → Prop}

@[simp] theorem run_nil (state : σ) : run step state [] = state := rfl

@[simp] theorem run_cons (state : σ) (input : β) (inputs : List β) :
    run step state (input :: inputs) = run step (step state input) inputs := rfl

theorem history_append (state : σ) (first second : List β) :
    history step emit state (first ++ second) =
      history step emit state first ++ history step emit (run step state first) second := by
  induction first generalizing state with
  | nil => simp [history]
  | cons input first ih => simp [history, ih]

theorem run_concat (state : σ) (inputs : List β) (input : β) :
    run step state (inputs ++ [input]) = step (run step state inputs) input := by
  rw [run, List.foldl_append]
  rfl

theorem history_concat (state : σ) (inputs : List β) (input : β) :
    history step emit state (inputs ++ [input]) =
      history step emit state inputs ++ emit (run step state inputs) input := by
  rw [history_append, history, history, List.append_nil]

theorem history_singleton (f : β → γ) (state : σ) (inputs : List β) :
    history step (fun _ input => [f input]) state inputs = inputs.map f := by
  induction inputs generalizing state with
  | nil => rfl
  | cons input inputs ih => rw [history, ih, List.map_cons, List.singleton_append]

theorem along_append (state : σ) (first second : List β) :
    Along step ok state (first ++ second) ↔
      Along step ok state first ∧ Along step ok (run step state first) second := by
  induction first generalizing state with
  | nil => simp [Along]
  | cons input first ih => simp [Along, ih, and_assoc]

theorem along_of_forall (hall : ∀ state input, ok state input) (state : σ) (inputs : List β) :
    Along step ok state inputs := by
  induction inputs generalizing state with
  | nil => trivial
  | cons input inputs ih => exact ⟨hall state input, ih _⟩

theorem along_mono {ok' : σ → β → Prop} (himp : ∀ state input, ok state input → ok' state input)
    {state : σ} {inputs : List β} (halong : Along step ok state inputs) :
    Along step ok' state inputs := by
  induction inputs generalizing state with
  | nil => trivial
  | cons input inputs ih => exact ⟨himp state input halong.1, ih halong.2⟩

theorem Along.and_forall {q : β → Prop} {state : σ} {inputs : List β}
    (halong : Along step ok state inputs) (hall : ∀ input ∈ inputs, q input) :
    Along step (fun state input => ok state input ∧ q input) state inputs := by
  induction inputs generalizing state with
  | nil => trivial
  | cons input inputs ih =>
      obtain ⟨hinput, hinputs⟩ := List.forall_mem_cons.mp hall
      exact ⟨⟨halong.1, hinput⟩, ih halong.2 hinputs⟩

theorem along_iff_forall_split (state : σ) (inputs : List β) :
    Along step ok state inputs ↔
      ∀ before input after, inputs = before ++ input :: after →
        ok (run step state before) input := by
  constructor
  · rintro halong before input after rfl
    exact ((along_append state before (input :: after)).mp halong).2.1
  · intro hall
    induction inputs generalizing state with
    | nil => trivial
    | cons input inputs ih =>
        refine ⟨hall [] input inputs rfl, ih _ fun before next after hsplit => ?_⟩
        exact hall (input :: before) next after (by rw [hsplit, List.cons_append])

/-- **Invariants.** What each allowed step keeps holds at the end of every allowed run. -/
theorem run_along {I : σ → Prop} (hstep : ∀ state input, ok state input → I state →
      I (step state input))
    {state : σ} {inputs : List β} (halong : Along step ok state inputs) (h : I state) :
    I (run step state inputs) := by
  induction inputs generalizing state with
  | nil => exact h
  | cons input inputs ih => exact ih halong.2 (hstep state input halong.1 h)

/-- When exactly the allowed steps keep a property, it holds all along a run exactly when all steps
of the run are allowed. -/
theorem throughout_iff_along {I P : σ → Prop} (himp : ∀ state, I state → P state)
    (hstep : ∀ state input, ok state input → I state → I (step state input))
    (hbreaks : ∀ state input, I state → ¬ ok state input → ¬ P (step state input))
    {state : σ} (h : I state) (inputs : List β) :
    (∀ before after, inputs = before ++ after → P (run step state before)) ↔
      Along step ok state inputs := by
  constructor
  · intro hall
    induction inputs generalizing state with
    | nil => trivial
    | cons input inputs ih =>
        have hok : ok state input := by
          by_contra hnot
          exact hbreaks state input h hnot (hall [input] inputs rfl)
        refine ⟨hok, ih (hstep state input hok h) fun before after hsplit => ?_⟩
        exact hall (input :: before) after (by rw [hsplit, List.cons_append])
  · rintro halong before after rfl
    exact himp _ (run_along hstep ((along_append _ _ _).mp halong).1 h)

/-- **Histories.** A relation between the state and the history so far that each allowed step keeps
holds at the end of every allowed run. -/
theorem run_history {R : σ → List γ → Prop}
    (hstep : ∀ state past input, ok state input → R state past →
      R (step state input) (past ++ emit state input))
    {state : σ} {past : List γ} {inputs : List β} (halong : Along step ok state inputs)
    (h : R state past) :
    R (run step state inputs) (past ++ history step emit state inputs) := by
  induction inputs generalizing state past with
  | nil => simpa [history] using h
  | cons input inputs ih =>
      have hnext := ih halong.2 (hstep state past input halong.1 h)
      simpa [history, List.append_assoc] using hnext

theorem run_history_nil {R : σ → List γ → Prop}
    (hstep : ∀ state past input, ok state input → R state past →
      R (step state input) (past ++ emit state input))
    {state : σ} {inputs : List β} (halong : Along step ok state inputs) (h : R state []) :
    R (run step state inputs) (history step emit state inputs) := by
  simpa using run_history hstep halong h

end AesdChar.Lib
