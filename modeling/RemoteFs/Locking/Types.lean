import RemoteFs.Storage.Ranges

/-!
# Values of the lease authority

The request, receipt and option types of `packages/locking` with their
validators (`types.go`, `native.go`, `errors.go`).

Sessions, owners, resources and grants are named by tokens that carry a fresh
nonce and a keyed signature.  Only their identity matters to the state machine,
so a token is a number and zero stands for the empty token.  Times and durations
are nanoseconds.
-/

namespace RemoteFs.Locking

open Storage

abbrev Time := ℤ
abbrev Duration := ℤ
abbrev SessionID := ℕ
abbrev OwnerID := ℕ
abbrev ResourceID := ℕ
abbrev GrantID := ℕ
abbrev RequestID := Text
abbrev BackendKey := Text

def millisecond : Duration := 1000000
def minute : Duration := 60000000000

def maxUint64 : ℕ := 18446744073709551615

/-- `Duration.Milliseconds` truncates towards zero. -/
def milliseconds (d : Duration) : ℤ := d.tdiv millisecond

/-! ## Errors -/

inductive Code where
  | invalid
  | unsupportedTarget
  | conflict
  | alreadyHeld
  | requestMismatch
  | capacity
  | retired
  | outcomeUnknown
  | staleResource
  | staleGrant
  | unrelatedProof
  | recovering
  | unavailable
  deriving DecidableEq, Repr

structure Fault where
  code : Code
  message : String
  recorded : Bool := false
  deriving DecidableEq, Repr

def fail (code : Code) (message : String) : Fault := { code, message }

/-- The error of a cancelled context; `CodeOf` classifies it as unavailable. -/
def canceled : Fault := fail .unavailable "context canceled"

/-! ## References and requests -/

structure OwnerRef where
  session : SessionID
  owner : OwnerID
  deriving DecidableEq, Repr

structure ResourceRef where
  id : ResourceID
  expiresMillis : ℤ
  nowMillis : ℤ
  historyExpiresMillis : ℤ
  deriving DecidableEq, Repr

structure GrantRef where
  id : GrantID
  resource : ResourceID
  generation : ℕ
  deriving DecidableEq, Repr

structure MutationScope where
  owner : OwnerRef
  grants : List GrantRef

/-- A mode is a text on the wire; `other` is every text that names no mode. -/
inductive Mode where
  | shared
  | exclusive
  | other
  deriving DecidableEq, Repr

structure AcquireRequest where
  owner : OwnerRef
  request : RequestID
  resource : ResourceRef
  mode : Mode
  ttl : Duration
  wait : Duration
  deriving DecidableEq, Repr

structure RenewRequest where
  owner : OwnerRef
  request : RequestID
  grant : GrantRef
  ttl : Duration
  deriving DecidableEq, Repr

inductive ActionKind where
  | acquire
  | renew
  deriving DecidableEq, Repr

inductive ActionOutcome where
  | pending
  | granted
  | renewed
  | cancelled
  | timedOut
  | rejected
  deriving DecidableEq, Repr

inductive GrantState where
  | active
  | released
  | expired
  | targetGone
  | ownerRetired
  deriving DecidableEq, Repr

structure ActionReceipt where
  kind : ActionKind
  request : RequestID
  acquire : Option AcquireRequest
  renew : Option RenewRequest
  outcome : ActionOutcome
  code : Option Code
  grant : Option GrantRef
  deadlineMillis : ℤ
  revision : ℕ
  deriving DecidableEq, Repr

/-! ## Results -/

structure GrantStatus where
  ref : GrantRef
  mode : Mode
  state : GrantState
  revision : ℕ
  deadlineMillis : ℤ
  remainingMillis : ℤ
  nowMillis : ℤ
  historyExpiresMillis : ℤ

/-- The receipt with the current grant; `rejection` is the recorded error that
the call returns beside a rejected receipt. -/
structure ActionResult where
  receipt : ActionReceipt
  grant : Option GrantStatus
  nowMillis : ℤ
  historyExpiresMillis : ℤ
  rejection : Option Fault

structure ReleaseResult where
  state : GrantState
  grant : GrantStatus
  nowMillis : ℤ
  historyExpiresMillis : ℤ

structure CancelResult where
  outcome : ActionOutcome
  released : Bool
  nowMillis : ℤ
  historyExpiresMillis : ℤ

structure Session where
  id : SessionID
  historyExpiresMillis : ℤ
  nowMillis : ℤ
  retired : Bool

structure Owner where
  ref : OwnerRef
  actionCapacity : ℤ
  historyExpiresMillis : ℤ
  nowMillis : ℤ
  retired : Bool

/-! ## Publications -/

inductive MutationKind where
  | write
  | setAttr
  | remove
  | rename
  | create
  | other
  deriving DecidableEq, Repr

structure Publication where
  kind : MutationKind
  targets : List BackendKey
  scope : MutationScope

structure PublicationOutcome where
  known : Bool
  retired : List BackendKey
  err : Option Fault

/-! ## Options -/

structure Options where
  maxSessions : ℤ
  maxTickets : ℤ
  maxOwners : ℤ
  maxResources : ℤ
  maxActions : ℤ
  maxGrants : ℤ
  maxQueued : ℤ
  ownersPerSession : ℤ
  ownerActionsPerSession : ℤ
  actionsPerOwner : ℤ
  grantsPerOwner : ℤ
  queuedPerOwner : ℤ
  queuedPerResource : ℤ
  maxProofs : ℤ
  maxRequestBytes : ℤ
  maxLease : Duration
  maxWait : Duration
  ticketTTL : Duration
  sessionIdle : Duration
  resourceTTL : Duration

def DefaultOptions : Options where
  maxSessions := 1024
  maxTickets := 1024
  maxOwners := 4096
  maxResources := 4096
  maxActions := 262144
  maxGrants := 8192
  maxQueued := 4096
  ownersPerSession := 64
  ownerActionsPerSession := 256
  actionsPerOwner := 1024
  grantsPerOwner := 64
  queuedPerOwner := 64
  queuedPerResource := 128
  maxProofs := 16
  maxRequestBytes := 128
  maxLease := minute
  maxWait := minute
  ticketTTL := minute
  sessionIdle := 10 * minute
  resourceTTL := minute

def Options.limits (o : Options) : List ℤ :=
  [o.maxSessions, o.maxTickets, o.maxOwners, o.maxResources, o.maxActions,
    o.maxGrants, o.maxQueued, o.ownersPerSession, o.ownerActionsPerSession,
    o.actionsPerOwner, o.grantsPerOwner, o.queuedPerOwner,
    o.queuedPerResource, o.maxProofs, o.maxRequestBytes]

def Options.durations (o : Options) : List Duration :=
  [o.maxLease, o.maxWait, o.ticketTTL, o.sessionIdle, o.resourceTTL]

def Options.validate (o : Options) : Except Fault Unit := do
  refuse (o.limits.any (· ≤ 0))
    (fail .invalid "all capacity limits must be positive")
  refuse (o.durations.any (· < millisecond))
    (fail .invalid "all durations must be at least one millisecond")
  refuse (o.sessionIdle < o.maxLease ∨ o.sessionIdle < o.maxWait)
    (fail .invalid "session idle lifetime must cover maximum lease and wait")

/-- What an accepted configuration guarantees. -/
structure Options.Valid (o : Options) : Prop where
  limits : ∀ n ∈ o.limits, 0 < n
  durations : ∀ d ∈ o.durations, millisecond ≤ d
  coversLease : o.maxLease ≤ o.sessionIdle
  coversWait : o.maxWait ≤ o.sessionIdle

lemma Options.validate_eq_ok_iff {o : Options} : o.validate = .ok () ↔ o.Valid := by
  unfold Options.validate
  rw [check_bind_ok, check_bind_ok]
  simp only [refuse_ok, List.any_eq_true, decide_eq_true_eq, not_exists,
    not_and, not_or, not_le, not_lt]
  constructor
  · intro hvalid
    obtain ⟨hlimits, hdurations, hlease, hwait⟩ := hvalid
    exact ⟨hlimits, hdurations, hlease, hwait⟩
  · intro hvalid
    exact ⟨hvalid.limits, hvalid.durations, hvalid.coversLease, hvalid.coversWait⟩

lemma DefaultOptions_valid : DefaultOptions.Valid :=
  Options.validate_eq_ok_iff.mp (by decide +kernel)

/-! ## Validation of requests -/

def requestValid (id : RequestID) (max : ℤ) : Bool :=
  0 < id.length ∧ (id.length : ℤ) ≤ max

def AcquireRequest.valid (request : AcquireRequest) (o : Options) : Bool :=
  requestValid request.request o.maxRequestBytes &&
    (request.mode = .shared || request.mode = .exclusive) &&
    decide (millisecond ≤ request.ttl ∧ request.ttl ≤ o.maxLease ∧
      0 ≤ request.wait ∧ request.wait ≤ o.maxWait ∧
      request.ttl.tmod millisecond = 0 ∧ request.wait.tmod millisecond = 0)

def RenewRequest.valid (request : RenewRequest) (o : Options) : Bool :=
  requestValid request.request o.maxRequestBytes &&
    decide (millisecond ≤ request.ttl ∧ request.ttl ≤ o.maxLease ∧
      request.ttl.tmod millisecond = 0)

/-- The proofs of a scope name distinct grants, none of them empty. -/
def validProofs (seen : List GrantID) : List GrantRef → Bool
  | [] => true
  | g :: rest =>
    if g.id = 0 ∨ g.resource = 0 ∨ g.generation = 0 ∨ g.id ∈ seen then false
    else validProofs (g.id :: seen) rest

def validateScope (scope : MutationScope) (maxProofs : ℤ) : Except Fault Unit := do
  refuse (maxProofs ≤ 0 ∨ maxProofs < scope.grants.length)
    (fail .invalid "mutation proof limit exceeded")
  refuse ((scope.owner.session = 0) ≠ (scope.owner.owner = 0))
    (fail .invalid "incomplete mutation owner")
  refuse (scope.grants ≠ [] ∧ scope.owner.owner = 0)
    (fail .invalid "mutation proofs require an owner")
  refuse (validProofs [] scope.grants = false)
    (fail .invalid "invalid or duplicate mutation proof")

end RemoteFs.Locking
