import RemoteFs.Storage.Failure

/-!
# File sessions, owners and use claims

The parts of `packages/storage/files.go` and `capabilities.go` that the range
coordinator reads: the limits of one session, the options of a registered
owner, and the claims of retained references.
-/

namespace RemoteFs.Storage

structure FileSessionOptions where
  lease : ℤ
  history : ℤ
  maxFileSize : ℤ
  maxFiles : ℤ
  maxOperations : ℤ
  maxWaiters : ℤ
  maxLockOwners : ℤ
  maxLockRanges : ℤ
  maxPendingLocks : ℤ
  maxLockActions : ℤ
  maxCloseActions : ℤ
  deriving DecidableEq

def FileSessionOptions.check (o : FileSessionOptions) : Except Failure Unit := do
  refuse (o.lease ≤ 0 ∨ o.history ≤ 0)
    ⟨.EINVAL, "file session lease and history must be positive"⟩
  refuse (o.maxFileSize ≤ 0 ∨ o.maxFiles ≤ 0 ∨ o.maxOperations ≤ 0 ∨
      o.maxWaiters < 0 ∨ o.maxLockOwners ≤ 0 ∨ o.maxLockRanges ≤ 0 ∨
      o.maxPendingLocks ≤ 0 ∨ o.maxLockActions ≤ 0 ∨ o.maxCloseActions ≤ 0 ∨
      (o.maxCloseActions - 1) / 2 < o.maxFiles)
    ⟨.EINVAL, "file session resource limits must be positive, except zero waiters"⟩

def DefaultFileSessionOptions : FileSessionOptions where
  lease := 30000000000
  history := 60000000000
  maxFileSize := 1073741824
  maxFiles := 4096
  maxOperations := 64
  maxWaiters := 256
  maxLockOwners := 4096
  maxLockRanges := 65536
  maxPendingLocks := 1024
  maxLockActions := 16384
  maxCloseActions := 16384

lemma DefaultFileSessionOptions_check : DefaultFileSessionOptions.check = .ok () := by decide

/-! ## Scopes, claims and owners -/

def isContinuation (b : UInt8) : Bool := 0x80 ≤ b ∧ b ≤ 0xBF

/-- The second bytes that can follow a leading byte. -/
def secondByteFits (a b : UInt8) : Bool :=
  if a = 0xE0 then 0xA0 ≤ b ∧ b ≤ 0xBF
  else if a = 0xED then 0x80 ≤ b ∧ b ≤ 0x9F
  else if a = 0xF0 then 0x90 ≤ b ∧ b ≤ 0xBF
  else if a = 0xF4 then 0x80 ≤ b ∧ b ≤ 0x8F
  else isContinuation b

/-- `utf8.ValidString`. -/
def validUTF8 : List UInt8 → Bool
  | [] => true
  | a :: rest =>
    if a < 0x80 then validUTF8 rest
    else
      match rest with
      | [] => false
      | b :: rest =>
        if a < 0xE0 then 0xC2 ≤ a && isContinuation b && validUTF8 rest
        else
          match rest with
          | [] => false
          | c :: rest =>
            if a < 0xF0 then
              secondByteFits a b && isContinuation c && validUTF8 rest
            else
              match rest with
              | [] => false
              | d :: rest =>
                a ≤ 0xF4 && secondByteFits a b && isContinuation c &&
                  isContinuation d && validUTF8 rest

structure UseScope where
  token : List UInt8
  deriving DecidableEq

def maxScopeBytes : ℕ := 128

def UseScope.check (s : UseScope) : Except Failure Unit := do
  refuse (s.token.length = 0 ∨ maxScopeBytes < s.token.length ∨
    validUTF8 s.token = false) { errno := .EINVAL }
  refuse (0 ∈ s.token) { errno := .EINVAL }

lemma UseScope.token_ne_nil {scope : UseScope}
    (hcheck : scope.check = .ok ()) : scope.token ≠ [] := by
  intro hnil
  rw [UseScope.check, refuse, if_pos (.inl (by rw [hnil]; rfl))] at hcheck
  cases hcheck

def deleteName : UInt8 := 8
def allUses : UInt8 := 15

structure UseClaim where
  uses : UInt8
  deny : UInt8
  deriving DecidableEq

def UseClaim.check (c : UseClaim) : Except Failure Unit :=
  refuse ((c.uses ||| c.deny) &&& ~~~allUses ≠ 0) { errno := .EINVAL }

/-- Neither of two claims denies what the other one announces. -/
def UseClaim.Compatible (a b : UseClaim) : Prop :=
  a.uses &&& b.deny = 0 ∧ b.uses &&& a.deny = 0

/-! ## Sets of uses as bits -/

lemma land_eq_zero_iff {a b : UInt8} : a &&& b = 0 ↔ ∀ i < 8, a.toBitVec.getLsbD i = true →
      b.toBitVec.getLsbD i = false := by
  rw [← UInt8.toBitVec_inj, BitVec.eq_of_getLsbD_eq_iff]
  simp

/-- What contains no bit outside `larger` shares none with a set that shares
none with `larger`. -/
lemma land_eq_zero_of_subset {uses larger deny : UInt8} (hsubset : uses &&& ~~~larger = 0)
    (hdisjoint : larger &&& deny = 0) : uses &&& deny = 0 := by
  rw [land_eq_zero_iff] at *
  intro i hi huses
  have hlarger := hsubset i hi huses
  simp only [UInt8.toBitVec_not, BitVec.getLsbD_not, hi, decide_true,
    Bool.true_and, Bool.not_eq_false'] at hlarger
  exact hdisjoint i hi hlarger

lemma UseClaim.uses_le_allUses {claim : UseClaim}
    (hcheck : claim.check = .ok ()) : claim.uses &&& ~~~allUses = 0 := by
  simp only [UseClaim.check, refuse_ok, not_not] at hcheck
  rw [land_eq_zero_iff] at *
  intro i hi huses
  exact hcheck i hi (by simp [huses])

def ErrUseConflict : Failure := ⟨.EAGAIN, "conflicting reference use"⟩
def ErrInvalidScope : Failure := ⟨.ESTALE, "reference scope invalid"⟩

inductive OwnerLifetime where
  | reference
  | explicit
  | undefined (number : UInt8)
  deriving DecidableEq

structure OwnerOptions where
  lifetime : OwnerLifetime
  group : ℕ
  diagnostic : ℕ
  deriving DecidableEq

end RemoteFs.Storage
