import Mathlib.Tactic

/-!
# Runs of a transition function

A system is a function that takes a state and an input to the next state, and a
run is a list of inputs.  Since every beginning of a run is a run, a statement
about the last state of all runs is a statement about every state reached.
-/

namespace RemoteFs.Runs

variable {σ ι : Type} {exec : σ → ι → σ}

/-- Each input of a run is allowed in the state in which it is taken. -/
def Along (exec : σ → ι → σ) (allowed : σ → ι → Prop) : σ → List ι → Prop
  | _, [] => True
  | state, input :: rest =>
    allowed state input ∧ Along exec allowed (exec state input) rest

lemma Along.invariant {allowed : σ → ι → Prop} {motive : σ → Prop}
    (hstep : ∀ state input, motive state → allowed state input → motive (exec state input))
    (hs : motive state) (halong : Along exec allowed state inputs) :
    motive (inputs.foldl exec state) := by
  induction inputs generalizing state with
  | nil => exact hs
  | cons input rest ih => exact ih (hstep state input hs halong.1) halong.2

lemma invariant {motive : σ → Prop}
    (hstep : ∀ state input, motive state → motive (exec state input)) (hs : motive state)
    (inputs : List ι) : motive (inputs.foldl exec state) :=
  List.foldlRecOn inputs exec hs fun state h input _ => hstep state input h

lemma along_append {allowed : σ → ι → Prop} :
    Along exec allowed state (before ++ after) ↔ Along exec allowed state before ∧
        Along exec allowed (before.foldl exec state) after := by
  induction before generalizing state with
  | nil => simp [Along]
  | cons input rest ih => simp only [List.cons_append, Along, List.foldl_cons, ih, and_assoc]

end RemoteFs.Runs
