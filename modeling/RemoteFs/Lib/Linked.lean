import Mathlib.Data.List.Basic
import Mathlib.Order.Basic
import Mathlib.Tactic

/-!
# Linked lists of positions

Entries carry a position and the position of their predecessor.  A list is
linked from `start` to `tail` when each entry names the position before it,
positions grow, and the last position is `tail`.  Such a list can be cut at any
position: both parts are linked, and they meet at the last position below the
cut.
-/

namespace RemoteFs

variable {α : Type} {position previous : α → ℕ}

def Linked (position previous : α → ℕ) : ℕ → List α → ℕ → Prop
  | start, [], tail => start = tail
  | start, x :: rest, tail =>
    previous x = start ∧ start < position x ∧
      Linked position previous (position x) rest tail

namespace Linked

variable {start tail : ℕ} {xs ys : List α}

section

variable (h : Linked position previous start xs tail)
include h

lemma le : start ≤ tail := by
  induction xs generalizing start with
  | nil => exact h.le
  | cons x rest ih => exact h.2.1.le.trans (ih h.2.2)

lemma bounds {x : α} (hx : x ∈ xs) : start < position x ∧ position x ≤ tail := by
  induction xs generalizing start with
  | nil => cases hx
  | cons y rest ih =>
    rcases List.mem_cons.mp hx with rfl | hx
    · exact ⟨h.2.1, h.2.2.le⟩
    · exact ⟨h.2.1.trans (ih h.2.2 hx).1, (ih h.2.2 hx).2⟩

lemma previous_lt {x : α} (hx : x ∈ xs) : previous x < position x := by
  induction xs generalizing start with
  | nil => cases hx
  | cons y rest ih =>
    rcases List.mem_cons.mp hx with rfl | hx
    · exact h.1 ▸ h.2.1
    · exact ih h.2.2 hx

end

lemma append_iff : Linked position previous start (xs ++ ys) tail ↔
      ∃ middle, Linked position previous start xs middle ∧
        Linked position previous middle ys tail := by
  induction xs generalizing start with
  | nil => simp [Linked]
  | cons x rest ih =>
    simp only [List.cons_append, Linked, ih]
    constructor
    · rintro ⟨hprev, hlt, middle, hrest, hys⟩
      exact ⟨middle, ⟨hprev, hlt, hrest⟩, hys⟩
    · rintro ⟨middle, ⟨hprev, hlt, hrest⟩, hys⟩
      exact ⟨hprev, hlt, middle, hrest, hys⟩

variable (h : Linked position previous start xs tail)
include h

lemma snoc {x : α} (hprev : previous x = tail) (hlt : tail < position x) :
    Linked position previous start (xs ++ [x]) (position x) :=
  append_iff.mpr ⟨tail, h, hprev, hlt, rfl⟩

lemma pairwise : xs.Pairwise fun x y => position x < position y := by
  induction xs generalizing start with
  | nil => exact .nil
  | cons x rest ih => exact List.pairwise_cons.mpr ⟨fun y hy => (h.2.2.bounds hy).1, ih h.2.2⟩

lemma length_le : start + xs.length ≤ tail := by
  induction xs generalizing start with
  | nil => exact h.le
  | cons x rest ih =>
    have hrest := ih h.2.2
    have hlt := h.2.1
    rw [List.length_cons]
    omega

lemma filter_le_start {cut : ℕ} (hcut : cut ≤ start) :
    xs.filter (fun x => decide (cut < position x)) = xs := by
  refine List.filter_eq_self.mpr fun x hx => ?_
  exact decide_eq_true (hcut.trans_lt (h.bounds hx).1)

lemma cut (cut : ℕ) : ∃ middle,
    Linked position previous start (xs.filter fun x => decide (position x ≤ cut)) middle ∧
      Linked position previous middle (xs.filter fun x => decide (cut < position x)) tail := by
  have hparts : xs = xs.filter (fun x => decide (position x ≤ cut)) ++
      xs.filter (fun x => decide (cut < position x)) := by
    induction xs generalizing start with
    | nil => rfl
    | cons x rest ih =>
      by_cases hle : position x ≤ cut
      · rw [List.filter_cons_of_pos (by simpa using hle),
          List.filter_cons_of_neg (by simpa using hle), List.cons_append,
          ← ih h.2.2]
      -- everything after the first entry above the cut is above it too
      have habove : cut < position x := Nat.lt_of_not_le hle
      have hnone : rest.filter (fun y => decide (position y ≤ cut)) = [] := by
        refine List.filter_eq_nil_iff.mpr fun y hy => ?_
        have hy := (h.2.2.bounds hy).1
        simp only [decide_eq_true_eq]
        omega
      rw [List.filter_cons_of_neg (by simpa using hle),
        List.filter_cons_of_pos (by simpa using habove), hnone,
        h.2.2.filter_le_start habove.le, List.nil_append]
  rw [hparts] at h
  exact append_iff.mp h

lemma eq_of_getLast? : tail = (xs.getLast?.map position).getD start := by
  induction xs generalizing start with
  | nil => exact h.symm
  | cons x rest ih =>
    rw [ih h.2.2, List.getLast?_cons]
    cases rest.getLast? <;> rfl

lemma filter_above_getElem? {k : ℕ} {x : α} (hx : xs[k]? = some x) :
    xs.filter (fun y => decide (position x < position y)) = xs.drop (k + 1) := by
  induction xs generalizing start k with
  | nil => cases hx
  | cons y rest ih =>
    cases k with
    | zero =>
      cases hx
      rw [List.filter_cons_of_neg (by simp), List.drop_succ_cons, List.drop_zero]
      exact h.2.2.filter_le_start le_rfl
    | succ k =>
      have hmem : x ∈ rest := List.mem_of_getElem? hx
      have hlt := (h.2.2.bounds hmem).1
      rw [List.filter_cons_of_neg (by simpa using hlt.le), List.drop_succ_cons]
      exact ih h.2.2 hx

lemma getElem?_le {j k : ℕ} {x y : α} (hx : xs[j]? = some x) (hy : xs[k]? = some y)
    (hle : j ≤ k) : position x ≤ position y := by
  obtain ⟨hj, rfl⟩ := List.getElem?_eq_some_iff.mp hx
  obtain ⟨hk, rfl⟩ := List.getElem?_eq_some_iff.mp hy
  rcases hle.eq_or_lt with rfl | hlt
  · exact le_rfl
  · exact (List.pairwise_iff_getElem.mp h.pairwise j k hj hk hlt).le

end Linked

end RemoteFs
