import RemoteFs.Smb.DirectoryPage

/-!
# Strings in UTF-16

`DecodeUTF16` and `EncodeUTF16` of `session.go`.  A valid Go string is the list of
its code points, and a code point of a valid string is a `Char`.
-/

namespace RemoteFs.Smb.Wire

open Storage (refuse_ok check_bind_ok)

/-- `utf16.Encode` of the code points of a valid string. -/
def utf16Encode : List Char → List UInt16
  | [] => []
  | c :: rest =>
    if c.toNat < 0x10000 then UInt16.ofNat c.toNat :: utf16Encode rest
    else
      UInt16.ofNat (0xd800 + (c.toNat - 0x10000) / 0x400) ::
        UInt16.ofNat (0xdc00 + (c.toNat - 0x10000) % 0x400) :: utf16Encode rest

def putWords (units : List UInt16) : Bytes :=
  units.flatMap fun unit => RemoteFs.Bytes.ofNat 2 unit.toNat

def encodeUTF16 (value : List Char) : Bytes := putWords (utf16Encode value)

/-- Well-formed UTF-16 without NUL: single units and surrogate pairs. -/
inductive WellFormed : List UInt16 → Prop where
  | nil : WellFormed []
  | unit {unit : UInt16} {rest : List UInt16} (hzero : unit ≠ 0)
      (hplain : unit.toNat < 0xd800 ∨ 0xdfff < unit.toNat) (hre : WellFormed rest) :
      WellFormed (unit :: rest)
  | pair {high low : UInt16} {rest : List UInt16}
      (hhi : 0xd800 ≤ high.toNat ∧ high.toNat ≤ 0xdbff)
      (hlow : 0xdc00 ≤ low.toNat ∧ low.toNat ≤ 0xdfff) (hre : WellFormed rest) :
      WellFormed (high :: low :: rest)

variable {unit high low : UInt16} {rest : List UInt16}

lemma isHighSurrogate_iff :
    isHighSurrogate unit = true ↔ 0xd800 ≤ unit.toNat ∧ unit.toNat ≤ 0xdbff := by
  simp [isHighSurrogate, UInt16.le_iff_toNat_le]

lemma isLowSurrogate_iff :
    isLowSurrogate unit = true ↔ 0xdc00 ≤ unit.toNat ∧ unit.toNat ≤ 0xdfff := by
  simp [isLowSurrogate, UInt16.le_iff_toNat_le]

lemma plain_iff : (unit.toNat < 0xd800 ∨ 0xdfff < unit.toNat) ↔
    isHighSurrogate unit = false ∧ isLowSurrogate unit = false := by
  rw [← Bool.not_eq_true, ← Bool.not_eq_true, isHighSurrogate_iff, isLowSurrogate_iff]
  omega

lemma validUnits_iff : validUnits units = true ↔ WellFormed units := by
  constructor
  · intro hvalid
    fun_induction validUnits units with
    | case1 => exact .nil
    | case2 unit =>
      simp only [Bool.and_eq_true, decide_eq_true_eq, Bool.not_eq_true', ← Bool.not_eq_true,
        isHighSurrogate_iff, isLowSurrogate_iff] at hvalid
      exact .unit hvalid.1.1 (by omega) .nil
    | case3 unit next rest hhi ih =>
      obtain ⟨hlow, hre⟩ := (Bool.and_eq_true ..).mp hvalid
      exact .pair (isHighSurrogate_iff.mp hhi) (isLowSurrogate_iff.mp hlow) (ih hre)
    | case4 unit next rest hhi ih =>
      simp only [Bool.and_eq_true, decide_eq_true_eq, Bool.not_eq_true', ← Bool.not_eq_true,
        isLowSurrogate_iff] at hvalid
      rw [isHighSurrogate_iff] at hhi
      exact .unit hvalid.1.1 (by omega) (ih hvalid.2)
  · intro hformed
    induction hformed with
    | nil => rfl
    | @unit unit rest hzero hplain hre ih =>
      obtain ⟨hhi, hlow⟩ := plain_iff.mp hplain
      cases rest <;> simp_all [validUnits]
    | pair hhi hlow hre ih =>
      simp [validUnits, isHighSurrogate_iff.mpr hhi, isLowSurrogate_iff.mpr hlow, ih]

lemma utf16Decode_unit (hplain : unit.toNat < 0xd800 ∨ 0xdfff < unit.toNat) :
    utf16Decode (unit :: rest) = Char.ofNat unit.toNat :: utf16Decode rest := by
  obtain ⟨hhi, hlow⟩ := plain_iff.mp hplain
  cases rest <;> simp [utf16Decode, hhi, hlow]

lemma utf16Decode_pair (hhi : 0xd800 ≤ high.toNat ∧ high.toNat ≤ 0xdbff)
    (hlow : 0xdc00 ≤ low.toNat ∧ low.toNat ≤ 0xdfff) :
    utf16Decode (high :: low :: rest) = Char.ofNat ((high.toNat - 0xd800) * 0x400 +
      (low.toNat - 0xdc00) + 0x10000) :: utf16Decode rest := by
  simp [utf16Decode, isHighSurrogate_iff.mpr hhi, isLowSurrogate_iff.mpr hlow]

lemma toNat_ofNat_char {n : ℕ} (h : n < 0xd800 ∨ 0xdfff < n ∧ n < 0x110000) :
    (Char.ofNat n).toNat = n := by
  rw [Char.ofNat, dif_pos h]
  rfl

/-- By induction on the units. -/
lemma utf16Encode_decode (hformed : WellFormed units) :
    utf16Encode (utf16Decode units) = units := by
  induction hformed with
  | nil => rfl
  | @unit unit rest hzero hplain hre ih =>
    have hbound := unit.toNat_lt
    have hchar : (Char.ofNat unit.toNat).toNat = unit.toNat := toNat_ofNat_char (by omega)
    rw [utf16Decode_unit hplain, utf16Encode, ih, hchar, if_pos hbound, UInt16.ofNat_toNat]
  | @pair high low rest hhi hlow hre ih =>
    have hchar := toNat_ofNat_char (n := (high.toNat - 0xd800) * 0x400 +
      (low.toNat - 0xdc00) + 0x10000) (by omega)
    have hfirst : 0xd800 + ((high.toNat - 0xd800) * 0x400 + (low.toNat - 0xdc00)) / 0x400 =
        high.toNat := by omega
    have hsecond : 0xdc00 + ((high.toNat - 0xd800) * 0x400 + (low.toNat - 0xdc00)) % 0x400 =
        low.toNat := by omega
    rw [utf16Decode_pair hhi hlow, utf16Encode, ih, hchar, if_neg (by omega),
      Nat.add_sub_cancel, hfirst, hsecond, UInt16.ofNat_toNat, UInt16.ofNat_toNat]

/-- A string without NUL is well formed when it is encoded, and is read back. -/
lemma utf16Decode_encode (hnul : Char.ofNat 0 ∉ value) :
    WellFormed (utf16Encode value) ∧ utf16Decode (utf16Encode value) = value := by
  induction value with
  | nil => exact ⟨.nil, rfl⟩
  | cons c rest ih =>
    obtain ⟨hc, hre⟩ := not_or.mp (List.mem_cons.not.mp hnul)
    obtain ⟨hformed, hdecode⟩ := ih hre
    have hvalid : c.toNat < 0xd800 ∨ 0xdfff < c.toNat ∧ c.toNat < 0x110000 := c.valid
    unfold utf16Encode
    split_ifs with hsmall
    · have hunit : (UInt16.ofNat c.toNat).toNat = c.toNat := UInt16.toNat_ofNat_of_lt' hsmall
      have hzero : UInt16.ofNat c.toNat ≠ 0 := by
        intro heq
        rw [heq] at hunit
        exact hc (by rw [← Char.ofNat_toNat c, ← hunit]; rfl)
      refine ⟨.unit hzero (by omega) hformed, ?_⟩
      rw [utf16Decode_unit (by omega), hunit, Char.ofNat_toNat, hdecode]
    · have hhi := UInt16.toNat_ofNat_of_lt' (n := 0xd800 + (c.toNat - 0x10000) / 0x400)
        (by rw [UInt16.size]; omega)
      have hlow := UInt16.toNat_ofNat_of_lt' (n := 0xdc00 + (c.toNat - 0x10000) % 0x400)
        (by rw [UInt16.size]; omega)
      have hwhole : (c.toNat - 0x10000) / 0x400 * 0x400 + (c.toNat - 0x10000) % 0x400 +
          0x10000 = c.toNat := by omega
      refine ⟨.pair (by omega) (by omega) hformed, ?_⟩
      rw [utf16Decode_pair (by omega) (by omega), hdecode, hhi, hlow,
        Nat.add_sub_cancel_left, Nat.add_sub_cancel_left, hwhole, Char.ofNat_toNat]

lemma words_putWords (units : List UInt16) : words (putWords units) = units := by
  induction units with
  | nil => rfl
  | cons unit rest ih =>
    have hbound := unit.toNat_lt
    change _ :: words (putWords rest) = _
    rw [ih]
    congr 1
    apply UInt16.toNat_inj.mp
    rw [UInt16.toNat_ofNat', UInt8.toNat_ofNat', UInt8.toNat_ofNat']
    omega

lemma putWords_words (heven : data.length % 2 = 0) : putWords (words data) = data := by
  fun_induction words data with
  | case1 low high rest ih =>
    have hlow := low.toNat_lt
    have hhi := high.toNat_lt
    simp only [List.length_cons] at heven
    have hre := ih (by omega)
    change UInt8.ofNat _ :: UInt8.ofNat _ :: putWords (words rest) = _
    rw [hre]
    congr 2
    all_goals
      apply UInt8.toNat_inj.mp
      rw [UInt8.toNat_ofNat', UInt16.toNat_ofNat']
      omega
  | case2 data hshort =>
    rcases data with - | ⟨low, - | ⟨high, rest⟩⟩
    · rfl
    · cases heven
    · exact absurd rfl (hshort low high rest)

lemma even_length_putWords (units : List UInt16) : (putWords units).length % 2 = 0 := by
  induction units with
  | nil => rfl
  | cons unit rest ih => simp [putWords, RemoteFs.Bytes.ofNat, Nat.add_mod]

lemma decodeUTF16_eq_ok_iff :
    decodeUTF16 data = .ok value ↔ data.length % 2 = 0 ∧ WellFormed (words data) ∧
      utf16Decode (words data) = value := by
  simp [decodeUTF16, check_bind_ok, refuse_ok, validUnits_iff, pure, Except.pure]

/-- Exactly the well-formed strings of units are decoded; encoding a decoded
string gives its bytes back, and decoding an encoded string its code points. -/
theorem utf16_round_trips : (∀ data, (∃ value, decodeUTF16 data = .ok value) ↔
      data.length % 2 = 0 ∧ WellFormed (words data)) ∧
    (∀ data value, decodeUTF16 data = .ok value → encodeUTF16 value = data) ∧
    ∀ value, Char.ofNat 0 ∉ value → decodeUTF16 (encodeUTF16 value) = .ok value := by
  simp only [decodeUTF16_eq_ok_iff]
  refine ⟨fun data => by simp, ?_, fun value hnul => ?_⟩
  · rintro data value ⟨heven, hformed, rfl⟩
    rw [encodeUTF16, utf16Encode_decode hformed, putWords_words heven]
  · obtain ⟨hformed, hdecode⟩ := utf16Decode_encode hnul
    rw [encodeUTF16, words_putWords]
    exact ⟨even_length_putWords _, hformed, hdecode⟩

end RemoteFs.Smb.Wire
