import Mathlib.Data.Set.Insert
import Mathlib.Order.Basic

/-!
# Deduplication by epochs

Every item carries the number of the epoch in which it may be used.  A window
stands in one epoch and has a deadline; it remembers some of the items that
were used.  An item may be forgotten once its epoch is over, that is, once the
window stands in a later epoch or its deadline was reached at some instant of
the past.  An unknown item of the current epoch that arrives before the
deadline was then never used, so no item is used twice.
-/

namespace RemoteFs

structure Window (α τ : Type) where
  epoch : ℕ
  deadline : τ
  remembered : Set α
  used : Set α

namespace Window

variable {α τ : Type} [Preorder τ] {epochOf : α → ℕ} {past : Set τ} {w : Window α τ}

structure Safe (epochOf : α → ℕ) (past : Set τ) (w : Window α τ) : Prop where
  begun : ∀ x ∈ w.used, epochOf x ≤ w.epoch
  kept : ∀ x ∈ w.used, x ∈ w.remembered ∨ epochOf x < w.epoch ∨ ∃ t ∈ past, w.deadline ≤ t

section

variable (hsafe : w.Safe epochOf past)
include hsafe

/-- An unknown item of a running epoch is new. -/
lemma Safe.unused {x : α} (hunk : x ∉ w.remembered) (hepoch : epochOf x = w.epoch)
    (hrunning : ∀ t ∈ past, t < w.deadline) : x ∉ w.used := by
  intro hused
  rcases hsafe.kept x hused with hknown | hearlier | ⟨t, ht, hover⟩
  · exact hunk hknown
  · exact absurd hepoch hearlier.ne
  · exact (hrunning t ht).not_ge hover

lemma Safe.use {x : α} (hepoch : epochOf x ≤ w.epoch) :
    (⟨w.epoch, w.deadline, insert x w.remembered, insert x w.used⟩ :
      Window α τ).Safe epochOf past where
  begun := by
    rintro y (rfl | hy)
    · exact hepoch
    · exact hsafe.begun y hy
  kept := by
    rintro y (rfl | hy)
    · exact .inl (Set.mem_insert ..)
    · exact (hsafe.kept y hy).imp_left (Set.mem_insert_of_mem _)

/-- Items of the window's epoch become items of an earlier one. -/
lemma Safe.renew (deadline : τ) : (⟨w.epoch + 1, deadline, w.remembered, w.used⟩ :
      Window α τ).Safe epochOf past where
  begun := fun x hx => (hsafe.begun x hx).trans (Nat.le_succ _)
  kept := fun x hx => .inr (.inl (Nat.lt_succ_of_le (hsafe.begun x hx)))

lemma Safe.forget {remembered : Set α} (hover : ∀ x ∈ w.remembered, x ∉ remembered →
      epochOf x < w.epoch ∨ ∃ t ∈ past, w.deadline ≤ t) :
    (⟨w.epoch, w.deadline, remembered, w.used⟩ :
      Window α τ).Safe epochOf past where
  begun := hsafe.begun
  kept := by
    intro x hx
    rcases hsafe.kept x hx with hknown | hrest
    · by_cases hstays : x ∈ remembered
      · exact .inl hstays
      · exact .inr (hover x hknown hstays)
    · exact .inr hrest

lemma Safe.later {past' : Set τ} (hsubset : past ⊆ past') : w.Safe epochOf past' where
  begun := hsafe.begun
  kept := by
    intro x hx
    rcases hsafe.kept x hx with hknown | hearlier | ⟨t, ht, hover⟩
    · exact .inl hknown
    · exact .inr (.inl hearlier)
    · exact .inr (.inr ⟨t, hsubset ht, hover⟩)

end

lemma safe_of_unused (hnone : w.used = ∅) : w.Safe epochOf past where
  begun := by simp [hnone]
  kept := by simp [hnone]

end Window

end RemoteFs
