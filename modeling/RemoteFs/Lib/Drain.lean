import Mathlib.Tactic

/-!
# Loops that work off a queue

A loop repeats a pass as long as there is work, stops when a pass has not made
the queue shorter, and performs a bounded number of passes.  If every pass over
a state with work shortens the queue, neither of the two extra exits leaves work
behind once the bound exceeds the length of the queue.
-/

namespace RemoteFs.Drain

variable {σ : Type} {work : σ → Bool} {pass : σ → σ}

/-- At most the given number of passes. -/
def run (work : σ → Bool) (pass : σ → σ) (size : σ → ℕ) : ℕ → σ → σ
  | 0, s => s
  | limit + 1, s =>
    if work s then
      if size s ≤ size (pass s) then pass s
      else run work pass size limit (pass s)
    else s

lemma invariant {motive : σ → Prop} {size : σ → ℕ}
    (hpass : ∀ s, motive s → work s = true → motive (pass s)) (limit : ℕ)
    {s : σ} (hs : motive s) : motive (run work pass size limit s) := by
  induction limit generalizing s with
  | zero => exact hs
  | succ limit ih =>
    unfold run
    split
    · next hwork =>
      split
      · exact hpass s hs hwork
      · exact ih (hpass s hs hwork)
    · exact hs

lemma work_run {motive : σ → Prop} (size : σ → ℕ)
    (hpass : ∀ s, motive s → work s = true → motive (pass s) ∧ size (pass s) < size s) (limit : ℕ)
    {s : σ} (hs : motive s) (hlimit : size s < limit) :
    work (run work pass size limit s) = false := by
  induction limit generalizing s with
  | zero => omega
  | succ limit ih =>
    unfold run
    split
    · next hwork =>
      obtain ⟨hnext, hshorter⟩ := hpass s hs hwork
      rw [if_neg (by omega)]
      exact ih hnext (by omega)
    · next hwork => simpa using hwork

end RemoteFs.Drain
