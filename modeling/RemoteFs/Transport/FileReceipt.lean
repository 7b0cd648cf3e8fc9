import RemoteFs.Storage.Ranges

/-!
# How the HTTP client judges a range receipt

`validateFileConflict` and `validateFileAttempt` of
`packages/transport/httprest/file_json.go` and `validateRangeEffects` of
`file_range_receipt.go`.  Of a file request only the operation, the request
identity and the commands are read.
-/

namespace RemoteFs.Transport

open Storage

/-- An `error` of the client: a bare text or a failure of the storage
vocabulary. -/
inductive WireError where
  | text (message : String)
  | storage (failure : Failure)
  deriving DecidableEq, Repr

def fromStorage : Except Failure Unit → Except WireError Unit
  | .error failure => .error (.storage failure)
  | .ok _ => .ok ()

@[simp] lemma fromStorage_eq_ok_iff : fromStorage result = .ok () ↔ result = .ok () := by
  cases result <;> simp [fromStorage]

inductive FileOperation where
  | rangeApply
  | rangeQuery
  | rangeCancel
  deriving DecidableEq, Repr

structure FileRequest where
  op : FileOperation
  lockID : LockRequestID
  commands : List RangeCommand

def checkEach {α : Type} (check : α → Except WireError Unit) : List α → Except WireError Unit
  | [] => .ok ()
  | item :: rest => do
    check item
    checkEach check rest

lemma checkEach_eq_ok_iff {α : Type} {check : α → Except WireError Unit} {items : List α} :
    checkEach check items = .ok () ↔ ∀ item ∈ items, check item = .ok () := by
  induction items with
  | nil => simp [checkEach]
  | cons item rest ih => simp only [checkEach, check_bind_ok, ih, List.forall_mem_cons]

def validateFileConflict (c : RangeConflict) : Except WireError Unit :=
  if c.found = false then
    refuse (c ≠ .zero) (.text "absent conflict carries owner or range state")
  else do
    refuse (c.mode ≠ .shared ∧ c.mode ≠ .exclusive)
      (.text "range conflict has an invalid mode")
    fromStorage c.range.check

def checkEffect (effect : RangeEffect) : Except WireError Unit := do
  fromStorage effect.command.check
  if effect.claim ≠ [] then fromStorage (ClaimID.check effect.claim)
  else .ok ()

variable (a : RangeAttempt)

/-- The position of the failing command; `FailedAt` is never negative, since it
is an index the server took from a loop. -/
def checkFailedAt : Except WireError Unit :=
  if a.state = .rejected then
    match a.failedAt with
    | some failedAt => refuse (a.commands.length ≤ failedAt)
        (.text "range result has an invalid failing command position")
    | none =>
      match a.rejection with
      | some .exhausted => .ok ()
      | some .tooLarge => .ok ()
      | _ =>
        .error (.text "range rejection omits its failing command position")
  else refuse (a.failedAt ≠ none)
    (.text "range result has an invalid failing command position")

def knownRejection : Option RejectionCode → Bool
  | some .blocked | some .notHeld | some .exhausted | some .deadlock
  | some .invalid | some .unsupported | some .expired | some .tooLarge => true
  | _ => false

/-- The switch over the state of a receipt. -/
def checkState (acquires waits : Bool) : Except WireError Unit :=
  match a.state with
  | .pending => refuse (a.everGranted = true ∨ a.rejection ≠ none ∨
      waits = false) (.text "inconsistent pending range result")
  | .granted => refuse (acquires = false ∨ a.everGranted = false ∨
      a.rejection ≠ none) (.text "inconsistent granted range result")
  | .released => refuse (a.rejection ≠ none ∨ a.everGranted ≠ acquires)
      (.text "inconsistent released range result")
  | .cancelled => refuse (a.everGranted = true ∨ a.rejection ≠ none)
      (.text "inconsistent cancelled range result")
  | .rejected => do
    refuse (a.everGranted = true)
      (.text "rejected range result claims a grant")
    refuse (knownRejection a.rejection = false)
      (.text "range rejection code is unknown")
  | .undefined number =>
    .error (.text ("unknown range action state " ++ toString number))

/-! ## Effects -/

variable (commands : List RangeCommand)

/-- `a.Commands[0].Conversion == storage.DropBeforeAcquire`; an earlier check
has excluded the empty batch. -/
def convertsFirst : Bool :=
  match commands with
  | [] => false
  | first :: _ => decide (first.conversion = .dropBeforeAcquire)

/-- The releases among the commands before a failing one. -/
def completedReleases (failedAt : ℕ) : List RangeEffect :=
  ((commands.take failedAt).filter fun command => command.edit.releases).map
    fun command => ⟨command.claim, command, true⟩

/-- The loop over the commands of a complete receipt, which collects the exact
claims. -/
def appliedClaims (request : LockRequestID) : ℕ → List RangeCommand → List RangeEffect →
      Except WireError (List ClaimID)
  | _, [], _ => .ok []
  | index, command :: rest, effects =>
    match command.edit with
    | .addExact =>
      match newClaimID request index with
      | .error failure => .error (.storage failure)
      | .ok id => do
        refuse (effects.head? ≠ some ⟨id, command, false⟩)
          (.text "range receipt changes an applied effect")
        (appliedClaims request (index + 1) rest effects.tail).map
          (id :: ·)
    | .removeExact => do
      refuse (effects.head? ≠ some ⟨command.claim, command, true⟩)
        (.text "range receipt changes an applied effect")
      appliedClaims request (index + 1) rest effects.tail
    | .subtract => do
      refuse (effects.head? ≠ some ⟨[], command, true⟩)
        (.text "range receipt changes an applied effect")
      appliedClaims request (index + 1) rest effects.tail
    | _ => do
      refuse (effects.head? ≠ some ⟨[], command, false⟩)
        (.text "range receipt changes an applied effect")
      appliedClaims request (index + 1) rest effects.tail

/-- A release that a conversion reports before its own effect. -/
def priorRelease (effect : RangeEffect) : Bool :=
  effect.released && decide (effect.claim = []) &&
    decide (effect.command.domain = .wholeFile) &&
    decide (effect.command.edit = .replace) &&
    decide (effect.command.range.kind = .bytes) && !effect.command.wait &&
    decide (effect.command.conversion = .preserveBeforeAcquire) &&
    decide (effect.command.policy = .zero)

/-- The last part of `validateRangeEffects`. -/
def checkPrior (claims : List ClaimID) (prior : ℕ) : Except WireError Unit := do
  refuse (a.claims ≠ claims)
    (.text "range receipt changes exact claim identities")
  refuse (0 < prior ∧ convertsFirst a.commands = false)
    (.text "range receipt invents prior release effects")
  refuse ((a.effects.take prior).all priorRelease = false)
    (.text "range receipt changes prior release effects")

def validateApplied : Except WireError Unit :=
  if a.effects.length < a.commands.length then
    .error (.text "range receipt omits applied effects")
  else
    let prior := a.effects.length - a.commands.length
    match appliedClaims a.request 0 a.commands (a.effects.drop prior) with
    | .error failure => .error failure
    | .ok claims => checkPrior a claims prior

def validateRangeEffects : Except WireError Unit :=
  match a.state, a.failedAt with
  | .rejected, some failedAt =>
    if convertsFirst a.commands = false then
      refuse (a.effects ≠ completedReleases a.commands failedAt ∨
        a.claims ≠ [])
        (.text "range rejection changes its completed release prefix")
    else checkPrior a [] a.effects.length
  | .granted, _ => validateApplied a
  | .released, _ => validateApplied a
  | _, _ => checkPrior a [] a.effects.length

def validateFileAttempt (req : FileRequest) (a : RangeAttempt) : Except WireError Unit := do
  refuse (a.request ≠ req.lockID)
    (.text "range result identifies a different action")
  refuse (a.commands.length = 0 ∨ maxRangeCommands < a.commands.length ∨
    maxRangeClaims < a.claims.length ∨ maxRangeEffects < a.effects.length)
    (.text "range result has an invalid batch size")
  checkEach (fun command => fromStorage command.check) a.commands
  refuse (req.op = .rangeApply ∧ a.commands ≠ req.commands)
    (.text "range result identifies a different intent")
  checkEach (fun claim => fromStorage (ClaimID.check claim)) a.claims
  checkEach checkEffect a.effects
  validateFileConflict a.conflict
  refuse (a.historyRemaining < 0)
    (.text "range history lifetime is negative")
  checkFailedAt a
  checkState a (a.commands.any fun command => command.edit.acquires)
    (a.commands.any fun command => command.wait)
  validateRangeEffects a

end RemoteFs.Transport
