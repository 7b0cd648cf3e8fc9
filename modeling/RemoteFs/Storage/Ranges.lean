import RemoteFs.Storage.Failure

/-!
# Range commands and receipts

The range vocabulary of `packages/storage/ranges.go` together with the lock
request identities of `packages/storage/files.go`.  Go strings are byte lists.
An enumeration keeps one constructor for the numbers its Go type can hold
beyond the named constants, because the checks below reject them explicitly.
-/

namespace RemoteFs.Storage

variable {epoch : ℕ} {c : RangeCommand}

abbrev Text := List UInt8

instance : LawfulBEq Text := inferInstance
abbrev LockRequestID := Text
abbrev ClaimID := Text

inductive ExtentKind where
  | bytes
  | boundary
  | undefined (number : UInt8)
  deriving DecidableEq, Repr

structure Range where
  kind : ExtentKind
  start : UInt64
  length : UInt64
  cutAt : UInt64
  deriving DecidableEq, Repr

inductive ConflictDomain where
  | record
  | wholeFile
  | enforced
  | undefined (number : UInt8)
  deriving DecidableEq, Repr

inductive RangeMode where
  | shared
  | exclusive
  | undefined (number : UInt8)
  deriving DecidableEq, Repr

inductive RangeEdit where
  | replace
  | subtract
  | addExact
  | removeExact
  | undefined (number : UInt8)
  deriving DecidableEq, Repr

inductive ConversionRule where
  | preserveBeforeAcquire
  | dropBeforeAcquire
  | undefined (number : UInt8)
  deriving DecidableEq, Repr

structure RangePolicy where
  denySelf : UInt8
  denyOthers : UInt8
  deriving DecidableEq, Repr

def RangePolicy.zero : RangePolicy := ⟨0, 0⟩

structure RangeCommand where
  domain : ConflictDomain
  mode : RangeMode
  range : Range
  edit : RangeEdit
  claim : ClaimID
  wait : Bool
  conversion : ConversionRule
  policy : RangePolicy
  deriving DecidableEq, Repr

inductive AttemptState where
  | pending
  | granted
  | rejected
  | cancelled
  | released
  | undefined (number : UInt8)
  deriving DecidableEq, Repr

inductive RejectionCode where
  | blocked
  | notHeld
  | exhausted
  | deadlock
  | invalid
  | unsupported
  | expired
  | tooLarge
  | unknown (text : String)
  deriving DecidableEq, Repr

structure RangeEffect where
  claim : ClaimID
  command : RangeCommand
  released : Bool
  deriving DecidableEq, Repr

structure RangeConflict where
  found : Bool
  owner : ℕ
  range : Range
  mode : RangeMode
  deriving DecidableEq, Repr

/-- The zero value `RangeConflict{}`. -/
def RangeConflict.zero : RangeConflict :=
  ⟨false, 0, ⟨.undefined 0, 0, 0, 0⟩, .undefined 0⟩

structure RangeAttempt where
  request : LockRequestID
  state : AttemptState
  commands : List RangeCommand
  claims : List ClaimID
  conflict : RangeConflict
  rejection : Option RejectionCode
  failedAt : Option ℕ
  effects : List RangeEffect
  everGranted : Bool
  historyRemaining : ℤ
  deriving DecidableEq, Repr

def maxRangeCommands : ℕ := 64
def maxRangeClaims : ℕ := 64
def maxRangeEffects : ℕ := 64

def readData : UInt8 := 1
def writeData : UInt8 := 2
def maxUint64 : UInt64 := 0xFFFFFFFFFFFFFFFF

def EINVAL : Failure := { errno := .EINVAL }
def EOPNOTSUPP : Failure := { errno := .EOPNOTSUPP }

/-! ## Request and claim identities -/

def colon : UInt8 := 58
def digitZero : UInt8 := 48
def digitNine : UInt8 := 57

/-- `strconv.FormatUint(n, 10)` and `strconv.Itoa` on a nonnegative value. -/
def formatUint (n : ℕ) : Text :=
  (Nat.toDigits 10 n).map fun digit => digit.toNat.toUInt8

variable (text : Text)

/-- The decimal value of a nonempty string of digits. -/
def parseDigits : Option ℕ :=
  if text = [] ∨ text.any fun b => b < digitZero ∨ digitNine < b then none
  else some (text.foldl (fun value b => 10 * value + (b.toNat - 48)) 0)

/-- `strconv.ParseUint(text, 10, 64)`. -/
def parseUint : Option ℕ :=
  match parseDigits text with
  | none => none
  | some value =>
    if value < 18446744073709551616 then some value else none

/-- `strconv.Atoi`: an optional sign and a decimal number within `int`. -/
def atoi : Option ℤ :=
  let signed (sign : ℤ) (digits : Text) : Option ℤ :=
    match parseDigits digits with
    | none => none
    | some value =>
      if -9223372036854775808 ≤ sign * value ∧
          sign * value ≤ 9223372036854775807
      then some (sign * value) else none
  match text with
  | 43 :: digits => signed 1 digits
  | 45 :: digits => signed (-1) digits
  | digits => signed 1 digits

/-- `strings.Cut(text, ":")`. -/
def cutColon : Text → Option (Text × Text)
  | [] => none
  | b :: rest =>
    if b = colon then some ([], rest)
    else (cutColon rest).map fun parts => (b :: parts.1, parts.2)

def isLowerHex (b : UInt8) : Bool :=
  (48 ≤ b ∧ b ≤ 57) ∨ (97 ≤ b ∧ b ≤ 102)

def lockRequestEpoch (r : LockRequestID) : Except Failure ℕ :=
  if 53 < r.length then
    .error ⟨.EINVAL, "lock request identity exceeds its length bound"⟩
  else
    match cutColon r with
    | none => .error ⟨.EINVAL, "invalid lock request identity"⟩
    | some (epochText, nonce) =>
      if epochText.length = 0 ∨ 20 < epochText.length ∨
          nonce.length ≠ 32 ∨ epochText.head? = some digitZero then
        .error ⟨.EINVAL, "invalid lock request identity"⟩
      else
        match parseUint epochText with
        | none => .error ⟨.EINVAL, "invalid lock request epoch"⟩
        | some epoch =>
          if epoch = 0 ∨ formatUint epoch ≠ epochText then
            .error ⟨.EINVAL, "invalid lock request epoch"⟩
          else if nonce.all isLowerHex then .ok epoch
          else .error ⟨.EINVAL, "invalid lock request nonce"⟩

def newClaimID (request : LockRequestID) (index : ℤ) : Except Failure ClaimID :=
  match lockRequestEpoch request with
  | .error failure => .error failure
  | .ok _ =>
    if index < 0 ∨ (maxRangeCommands : ℤ) ≤ index then .error EINVAL
    else .ok (request ++ colon :: formatUint index.toNat)

/-- The parts before and after `strings.LastIndexByte(text, ':')`. -/
def cutLastColon : Option (Text × Text) :=
  (cutColon text.reverse).map fun parts => (parts.2.reverse, parts.1.reverse)

def ClaimID.check (c : ClaimID) : Except Failure Unit :=
  if 56 < c.length then .error EINVAL
  else
    match cutLastColon c with
    | none => .error EINVAL
    | some (request, suffix) =>
      match atoi suffix with
      | none => .error EINVAL
      | some index =>
        match newClaimID request index with
        | .error _ => .error EINVAL
        | .ok want => if want = c then .ok () else .error EINVAL

/-! A claim identity that was made from an index is accepted. -/

lemma cutColon_append {text rest : Text} (hfree : colon ∉ text) :
    cutColon (text ++ colon :: rest) = some (text, rest) := by
  induction text with
  | nil => simp [cutColon]
  | cons b text ih =>
    rw [List.mem_cons, not_or] at hfree
    simp [cutColon, Ne.symm hfree.1, ih hfree.2]

lemma cutLastColon_append {text rest : Text} (hfree : colon ∉ rest) :
    cutLastColon (text ++ colon :: rest) = some (text, rest) := by
  have hreverse : (text ++ colon :: rest).reverse = rest.reverse ++ colon :: text.reverse := by simp
  rw [cutLastColon, hreverse, cutColon_append (fun hmem => hfree (List.mem_reverse.mp hmem))]
  simp

lemma formatUint_index : ∀ index < maxRangeCommands, atoi (formatUint index) = some (index : ℤ) ∧
      colon ∉ formatUint index ∧ (formatUint index).length ≤ 2 := by
  decide

lemma lockRequestEpoch_length {r : LockRequestID}
    (hepoch : lockRequestEpoch r = .ok epoch) : r.length ≤ 53 := by
  by_contra hlong
  rw [lockRequestEpoch, if_pos (Nat.lt_of_not_le hlong)] at hepoch
  cases hepoch

lemma newClaimID_eq_ok {request : LockRequestID} {index : ℕ}
    (hepoch : lockRequestEpoch request = .ok epoch) (hindex : index < maxRangeCommands) :
    newClaimID request index = .ok (request ++ colon :: formatUint index) := by
  have hrange : ¬((index : ℤ) < 0 ∨ (maxRangeCommands : ℤ) ≤ index) := by omega
  simp only [newClaimID, hepoch, if_neg hrange, Int.toNat_natCast]

lemma ClaimID.check_newClaimID {request : LockRequestID} {index : ℕ}
    (hepoch : lockRequestEpoch request = .ok epoch) (hindex : index < maxRangeCommands) :
    ClaimID.check (request ++ colon :: formatUint index) = .ok () := by
  obtain ⟨hatoi, hfree, hshort⟩ := formatUint_index index hindex
  have hlen := lockRequestEpoch_length hepoch
  have hfits : ¬56 < (request ++ colon :: formatUint index).length := by
    rw [List.length_append, List.length_cons]
    omega
  simp only [ClaimID.check, if_neg hfits, cutLastColon_append hfree, hatoi,
    newClaimID_eq_ok hepoch hindex, if_true]

/-! ## Validation -/

def Range.check (r : Range) : Except Failure Unit :=
  match r.kind with
  | .bytes =>
    refuse (r.length = 0 ∨ r.cutAt ≠ 0 ∨
      maxUint64 - r.start < r.length - 1) EINVAL
  | .boundary => refuse (r.start ≠ 0 ∨ r.length ≠ 0) EINVAL
  | .undefined _ => .error EINVAL

def ConflictDomain.defined : ConflictDomain → Bool
  | .undefined _ => false
  | _ => true

def RangeMode.defined : RangeMode → Bool
  | .undefined _ => false
  | _ => true

def RangeEdit.defined : RangeEdit → Bool
  | .undefined _ => false
  | _ => true

def ConversionRule.defined : ConversionRule → Bool
  | .undefined _ => false
  | _ => true

def RangeEdit.acquires (edit : RangeEdit) : Bool :=
  edit = .replace ∨ edit = .addExact

def RangeEdit.releases (edit : RangeEdit) : Bool :=
  edit = .subtract ∨ edit = .removeExact

/-- The part of `RangeCommand.Check` that concerns the claim. -/
def RangeCommand.checkClaim (c : RangeCommand) : Except Failure Unit :=
  if c.edit = .removeExact then
    if c.wait = true ∨ c.conversion ≠ .preserveBeforeAcquire then .error EINVAL
    else ClaimID.check c.claim
  else refuse (c.claim ≠ []) EINVAL

/-- The part of `RangeCommand.Check` that depends on the conflict domain. -/
def RangeCommand.checkDomain (c : RangeCommand) : Except Failure Unit :=
  if c.domain = .enforced then
    if c.edit ≠ .addExact ∧ c.edit ≠ .removeExact then .error EOPNOTSUPP
    else refuse (c.policy.denyOthers = 0)
      ⟨.EINVAL, "enforced range requires explicit I/O restrictions"⟩
  else
    refuse (c.policy ≠ .zero ∨ c.edit = .addExact ∨
      c.edit = .removeExact) EOPNOTSUPP

def RangeCommand.check (c : RangeCommand) : Except Failure Unit := do
  c.range.check
  refuse (c.range.kind = .boundary ∧
    (c.edit = .replace ∨ c.edit = .subtract)) EINVAL
  refuse (c.domain.defined = false ∨ c.mode.defined = false ∨
    c.edit.defined = false ∨ c.conversion.defined = false) EINVAL
  c.checkClaim
  refuse (c.edit = .subtract ∧
    (c.wait = true ∨ c.conversion ≠ .preserveBeforeAcquire)) EINVAL
  refuse ((c.policy.denySelf ||| c.policy.denyOthers) &&&
    ~~~(readData ||| writeData) ≠ 0) EINVAL
  c.checkDomain
  refuse (c.conversion = .dropBeforeAcquire ∧
    (c.domain ≠ .wholeFile ∨ c.edit ≠ .replace)) EINVAL

/-! ## What validation accepts -/

/-- A range the check accepts, with its last byte inside the 64-bit space. -/
structure Range.Valid (r : Range) : Prop where
  kind : r.kind = .bytes ∨ r.kind = .boundary
  bytes : r.kind = .bytes → 0 < r.length.toNat ∧ r.cutAt = 0 ∧
      r.start.toNat + r.length.toNat ≤ 2 ^ 64
  boundary : r.kind = .boundary → r.start = 0 ∧ r.length = 0

lemma lengthFits_iff (start length : UInt64) (hlen : length ≠ 0) :
    ¬maxUint64 - start < length - 1 ↔ start.toNat + length.toNat ≤ 2 ^ 64 := by
  have hstart := start.toNat_lt
  have hpos : 0 < length.toNat := by
    rcases Nat.eq_zero_or_pos length.toNat with hzero | hpos
    · exact absurd (UInt64.toNat_inj.mp hzero) hlen
    · exact hpos
  have hlast : (length - 1).toNat = length.toNat - 1 :=
    UInt64.toNat_sub_of_le _ _ (UInt64.le_iff_toNat_le.mpr hpos)
  have hroom : (maxUint64 - start).toNat = 2 ^ 64 - 1 - start.toNat :=
    UInt64.toNat_sub_of_le _ _ (UInt64.le_iff_toNat_le.mpr (by
      change start.toNat ≤ 2 ^ 64 - 1
      omega))
  rw [UInt64.lt_iff_toNat_lt, hlast, hroom]
  omega

lemma Range.check_eq_ok_iff {r : Range} : r.check = .ok () ↔ r.Valid := by
  unfold Range.check
  cases hkind : r.kind with
  | bytes =>
    simp only [refuse_ok, not_or, not_not]
    constructor
    · rintro ⟨hlen, hcut, hfits⟩
      refine ⟨.inl hkind, fun _ => ⟨?_, hcut, ?_⟩, fun h => ?_⟩
      · rcases Nat.eq_zero_or_pos r.length.toNat with hzero | hpos
        · exact absurd (UInt64.toNat_inj.mp hzero) hlen
        · exact hpos
      · exact (lengthFits_iff r.start r.length hlen).mp hfits
      · cases hkind.symm.trans h
    · intro hv
      obtain ⟨hpos, hcut, hfits⟩ := hv.bytes hkind
      have hlen : r.length ≠ 0 := by
        intro hzero
        rw [hzero] at hpos
        exact absurd hpos (by decide)
      exact ⟨hlen, hcut, (lengthFits_iff r.start r.length hlen).mpr hfits⟩
  | boundary =>
    simp only [refuse_ok, not_or, not_not]
    constructor
    · intro hzero
      refine ⟨.inr hkind, fun h => ?_, fun _ => hzero⟩
      cases hkind.symm.trans h
    · intro hv
      exact hv.boundary hkind
  | undefined number =>
    constructor
    · intro h
      cases h
    · intro hv
      rcases hv.kind with h | h
      · cases hkind.symm.trans h
      · cases hkind.symm.trans h

/-- The commands accepted by `RangeCommand.Check`. -/
structure RangeCommand.Valid (c : RangeCommand) : Prop where
  range : c.range.Valid
  boundary : c.range.kind = .boundary → c.edit ≠ .replace ∧ c.edit ≠ .subtract
  domain : c.domain.defined = true
  mode : c.mode.defined = true
  edit : c.edit.defined = true
  conversion : c.conversion.defined = true
  removeExact : c.edit = .removeExact → c.wait = false ∧ c.conversion = .preserveBeforeAcquire ∧
      ClaimID.check c.claim = .ok ()
  claim : c.edit ≠ .removeExact → c.claim = []
  subtract : c.edit = .subtract → c.wait = false ∧ c.conversion = .preserveBeforeAcquire
  policy : (c.policy.denySelf ||| c.policy.denyOthers) &&& ~~~(readData ||| writeData) = 0
  enforced : c.domain = .enforced →
    (c.edit = .addExact ∨ c.edit = .removeExact) ∧ c.policy.denyOthers ≠ 0
  advisory : c.domain ≠ .enforced → c.policy = .zero ∧ c.edit ≠ .addExact ∧ c.edit ≠ .removeExact
  drop : c.conversion = .dropBeforeAcquire → c.domain = .wholeFile ∧ c.edit = .replace

lemma RangeCommand.checkClaim_eq_ok_iff : c.checkClaim = .ok () ↔
      (c.edit = .removeExact → c.wait = false ∧ c.conversion = .preserveBeforeAcquire ∧
          ClaimID.check c.claim = .ok ()) ∧
      (c.edit ≠ .removeExact → c.claim = []) := by
  unfold RangeCommand.checkClaim
  by_cases hed : c.edit = .removeExact
  · by_cases hwait : c.wait = true ∨ c.conversion ≠ .preserveBeforeAcquire
    · rw [if_pos hed, if_pos hwait]
      constructor
      · intro h
        cases h
      · rintro ⟨hremove, -⟩
        obtain ⟨hfalse, hpreserve, -⟩ := hremove hed
        rcases hwait with hwait | hconv
        · cases hfalse.symm.trans hwait
        · exact absurd hpreserve hconv
    · rw [if_pos hed, if_neg hwait]
      push Not at hwait
      simp [hed, hwait]
  · simp [hed]

lemma RangeCommand.checkDomain_eq_ok_iff : c.checkDomain = .ok () ↔
      (c.domain = .enforced → (c.edit = .addExact ∨ c.edit = .removeExact) ∧
          c.policy.denyOthers ≠ 0) ∧
      (c.domain ≠ .enforced → c.policy = .zero ∧ c.edit ≠ .addExact ∧ c.edit ≠ .removeExact) := by
  unfold RangeCommand.checkDomain
  by_cases hdomain : c.domain = .enforced
  · by_cases hed : c.edit ≠ .addExact ∧ c.edit ≠ .removeExact
    · rw [if_pos hdomain, if_pos hed]
      constructor
      · intro h
        cases h
      · rintro ⟨he, -⟩
        rcases (he hdomain).1 with h | h
        · exact absurd h hed.1
        · exact absurd h hed.2
    · rw [if_pos hdomain, if_neg hed, refuse_ok]
      rw [not_and_or, not_not, not_not] at hed
      simp [hdomain, hed]
  · rw [if_neg hdomain, refuse_ok]
    simp [hdomain]

lemma RangeCommand.check_eq_ok_iff : c.check = .ok () ↔ c.Valid := by
  unfold RangeCommand.check
  simp only [check_bind_ok, Range.check_eq_ok_iff, refuse_ok,
    RangeCommand.checkClaim_eq_ok_iff, RangeCommand.checkDomain_eq_ok_iff]
  constructor
  · rintro ⟨hrange, hboundary, hdefined, ⟨hremove, hclaim⟩, hsubtract,
      hpolicy, ⟨he, hadvisory⟩, hdrop⟩
    push Not at hboundary hdefined hsubtract hpolicy hdrop
    simp only [ne_eq, Bool.not_eq_false, Bool.not_eq_true] at hdefined hsubtract
    exact ⟨hrange, hboundary, hdefined.1, hdefined.2.1, hdefined.2.2.1, hdefined.2.2.2, hremove,
      hclaim, hsubtract, hpolicy, he, hadvisory, hdrop⟩
  · intro hv
    refine ⟨hv.range, ?_, ?_, ⟨hv.removeExact, hv.claim⟩, ?_, ?_,
      ⟨hv.enforced, hv.advisory⟩, ?_⟩
    · rintro ⟨hkind, hed⟩
      obtain ⟨hreplace, hsubtract⟩ := hv.boundary hkind
      exact hed.elim hreplace hsubtract
    · simp [hv.domain, hv.mode, hv.edit, hv.conversion]
    · rintro ⟨hed, hwait⟩
      obtain ⟨hfalse, hpreserve⟩ := hv.subtract hed
      simp [hfalse, hpreserve] at hwait
    · simpa using hv.policy
    · rintro ⟨hconv, hother⟩
      obtain ⟨hdomain, hed⟩ := hv.drop hconv
      simp [hdomain, hed] at hother

end RemoteFs.Storage
