import Mathlib.Tactic

/-!
# Reading bytes

Fixed-width little-endian numbers, and slices that fail when they leave their
string.
-/

namespace RemoteFs.Bytes

def value : List UInt8 → ℕ
  | [] => 0
  | byte :: rest => byte.toNat + 256 * value rest

/-- The `width` lowest bytes of a number. -/
def ofNat : ℕ → ℕ → List UInt8
  | 0, _ => []
  | width + 1, n => UInt8.ofNat n :: ofNat width (n / 256)

@[simp] lemma length_ofNat (width n : ℕ) : (ofNat width n).length = width := by
  induction width generalizing n with
  | zero => rfl
  | succ width ih => simp [ofNat, ih]

lemma ofNat_value (data : List UInt8) : ofNat data.length (value data) = data := by
  induction data with
  | nil => rfl
  | cons byte rest ih =>
    have hbyte := byte.toNat_lt
    have hlow : UInt8.ofNat (byte.toNat + 256 * value rest) = byte := by
      apply UInt8.toNat_inj.mp
      rw [UInt8.toNat_ofNat']
      omega
    have hhigh : (byte.toNat + 256 * value rest) / 256 = value rest := by omega
    simp [value, ofNat, hlow, hhigh, ih]

lemma value_ofNat {width n : ℕ} (h : n < 256 ^ width) : value (ofNat width n) = n := by
  induction width generalizing n with
  | zero => simp_all [value, ofNat]
  | succ width ih =>
    have hrest : n / 256 < 256 ^ width := by
      rw [pow_succ] at h
      omega
    rw [ofNat, value, ih hrest, UInt8.toNat_ofNat']
    omega

/-- `data[low:high]`. -/
def slice {ε : Type} (out : ε) (data : List UInt8) (low high : ℕ) : Except ε (List UInt8) :=
  if low ≤ high ∧ high ≤ data.length then
    .ok ((data.drop low).take (high - low))
  else .error out

lemma slice_append {ε : Type} {out : ε} {data : List UInt8} {low high : ℕ}
    (before found after : List UInt8) (hdata : data = before ++ (found ++ after))
    (hlow : before.length = low) (hhigh : before.length + found.length = high) :
    slice out data low high = .ok found := by
  subst hdata hhigh hlow
  simp [slice]

lemma exists_append {data : List UInt8} {n : ℕ} (h : n ≤ data.length) :
    ∃ first rest, data = first ++ rest ∧ first.length = n :=
  ⟨data.take n, data.drop n, (List.take_append_drop n data).symm, by simp [h]⟩

end RemoteFs.Bytes
