import Mathlib.Tactic

/-!
# Signed machine words

When the exact value of a sum, a difference or a negation is a signed 64-bit
number, the machine computes it.
-/

namespace RemoteFs.Word

/-- The numbers that a signed 64-bit word holds. -/
def Fits (n : ℤ) : Prop := -2 ^ 63 ≤ n ∧ n < 2 ^ 63

lemma fits_toInt (x : Int64) : Fits x.toInt := ⟨x.le_toInt, x.toInt_lt⟩

lemma bmod_eq {n : ℤ} (h : Fits n) : n.bmod (2 ^ 64) = n := by
  obtain ⟨hlow, hhigh⟩ := h
  apply Int.bmod_eq_of_le <;> omega

lemma toInt_add {x y : Int64} (h : Fits (x.toInt + y.toInt)) :
    (x + y).toInt = x.toInt + y.toInt :=
  (Int64.toInt_add x y).trans (bmod_eq h)

lemma toInt_sub {x y : Int64} (h : Fits (x.toInt - y.toInt)) :
    (x - y).toInt = x.toInt - y.toInt :=
  (Int64.toInt_sub x y).trans (bmod_eq h)

lemma toInt_neg {x : Int64} (h : Fits (-x.toInt)) : (-x).toInt = -x.toInt :=
  (Int64.toInt_neg x).trans (bmod_eq h)

lemma toInt_max (x y : Int64) : (max x y).toInt = max x.toInt y.toInt := by
  change (if x ≤ y then y else x).toInt = _
  split_ifs with hle
  · exact (max_eq_right (Int64.le_iff_toInt_le.mp hle)).symm
  · exact (max_eq_left (not_le.mp fun h => hle (Int64.le_iff_toInt_le.mpr h)).le).symm

lemma fits_sub {x y : Int64} (hx : 0 ≤ x.toInt) (hy : 0 ≤ y.toInt) :
    Fits (x.toInt - y.toInt) := by
  have := x.toInt_lt
  have := y.toInt_lt
  unfold Fits
  omega

end RemoteFs.Word
