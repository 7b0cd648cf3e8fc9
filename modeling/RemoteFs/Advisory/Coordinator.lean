import RemoteFs.Lib.Search
import RemoteFs.Lib.Table
import RemoteFs.Storage.Files
import RemoteFs.Advisory.Extents

/-!
# The advisory coordinator

The state of `packages/advisory/coordinator.go` and the functions of
`coordinator.go`, `ranges.go` and `reconciliation.go` that run under its mutex.

A request object is reached through pointers from the waiting list, from the
history of its session and from calls in progress, so the objects live in a
heap and a pointer is an index into it.  A session object is stored in the
table `sessions` while the coordinator knows it and in `retired` afterwards,
when only its callers still hold it.  The clock is a sequence of readings of
which the first `reads` have been used.  The log is a history variable: no
function reads it.
-/

namespace RemoteFs.Advisory

open Storage

abbrev Time := ℤ
abbrev RequestRef := ℕ

def ENOLCK : Failure := { errno := .ENOLCK }
def ESTALE : Failure := { errno := .ESTALE }
def EOVERFLOW : Failure := { errno := .EOVERFLOW }

def maxCount : ℕ := 18446744073709551615

structure Config where
  maxSessions : ℤ
  maxOwners : ℤ
  maxRanges : ℤ
  maxRequests : ℤ
  maxWaiters : ℤ
  maxDeadlockEdges : ℤ
  maxCommands : ℤ
  maxMaterializedBytes : ℤ
  maxMaterializations : ℤ
  maxFileBytes : ℤ
  maxFileAttempts : ℤ
  fileOperationTimeout : ℤ

def DefaultConfig : Config where
  maxSessions := 1024
  maxOwners := 32768
  maxRanges := 262144
  maxRequests := 262144
  maxWaiters := 8192
  maxDeadlockEdges := 65536
  maxCommands := 64
  maxMaterializedBytes := 2147483648
  maxMaterializations := 32
  maxFileBytes := 1073741824
  maxFileAttempts := 8
  fileOperationTimeout := 30000000000

def Config.check (c : Config) : Except Failure Unit := do
  refuse (c.maxSessions ≤ 0 ∨ c.maxOwners ≤ 0 ∨ c.maxRanges ≤ 0 ∨
      c.maxRequests ≤ 0 ∨ c.maxWaiters < 0 ∨ c.maxDeadlockEdges ≤ 0 ∨
      c.maxCommands ≤ 0 ∨ c.maxMaterializedBytes ≤ 0 ∨
      c.maxMaterializations ≤ 0 ∨ c.maxFileBytes ≤ 0 ∨
      c.maxFileAttempts ≤ 0 ∨ c.fileOperationTimeout ≤ 0)
    ⟨.EINVAL, "advisory coordinator limits are invalid"⟩
  refuse (9223372036854775807 < c.maxFileBytes)
    ⟨.EINVAL, "file limit exceeds the platform slice size"⟩
  refuse (c.maxMaterializedBytes / 2 < c.maxFileBytes)
    ⟨.EINVAL, "volume materialization limit must cover two maximum-size file buffers"⟩

structure OwnerBinding where
  node : ℕ
  scope : UseScope
  options : OwnerOptions

structure OwnerKey where
  session : ℕ
  owner : ℕ
  node : ℕ
  domain : ConflictDomain
  deriving DecidableEq

structure OwnerState where
  ranges : List RangeClaim
  pending : ℤ

/-- One action object; `order` tells whether a native callback is retained. -/
structure Request where
  key : OwnerKey
  id : LockRequestID
  epoch : ℕ
  commands : List RangeCommand
  result : RangeAttempt
  expires : Time
  order : Bool
  pending : Bool
  prepared : Bool
  converting : Bool
  released : List Bool

/-- The fields of an action that `completeLocked` assigns. -/
def Request.completed (action : Request) (state : AttemptState) (rejection : Option RejectionCode)
    (expires : Time) : Request :=
  { action with
    result := { action.result with
      state := state
      rejection := rejection
      everGranted := action.result.everGranted || decide (state = .granted)
      conflict := if state = .granted then .zero else action.result.conflict }
    expires := expires
    order := false
    pending := false }

structure Session where
  id : ℕ
  options : FileSessionOptions
  epoch : ℕ
  epochUntil : Time
  actions : Table LockRequestID RequestRef
  bindings : Table ℕ OwnerBinding
  nextOwner : ℕ
  owners : ℤ
  ranges : ℤ
  pending : ℤ
  retiring : Bool
  retired : Bool
  retireDone : Bool

structure UseRecord where
  node : ℕ
  claim : UseClaim
  deriving DecidableEq

inductive Event where
  | started (ref : RequestRef)
  | completed (ref : RequestRef) (time : Time)
  | entered (ref : RequestRef) (state : AttemptState)
  | pruned (ref : RequestRef) (time : Time)
  deriving DecidableEq

structure Coordinator where
  config : Config
  now : ℕ → Time
  reads : ℕ
  nextSession : ℕ
  sessions : Table ℕ Session
  retired : Table ℕ Session
  owners : Table OwnerKey OwnerState
  heap : RequestRef → Option Request
  allocated : RequestRef
  waiting : List RequestRef
  ranges : ℤ
  requests : ℤ
  registeredOwners : ℤ
  uses : Table UseScope UseRecord
  log : List Event

def Coordinator.empty (config : Config) (now : ℕ → Time) : Coordinator where
  config := config
  now := now
  reads := 0
  nextSession := 0
  sessions := .empty
  retired := .empty
  owners := .empty
  heap := fun _ => none
  allocated := 0
  waiting := []
  ranges := 0
  requests := 0
  registeredOwners := 0
  uses := .empty
  log := []

/-- `New`; the clock is the one the coordinator will read. -/
def new (config : Config) (now : ℕ → Time) : Except Failure Coordinator :=
  match config.check with
  | .error failure => .error failure
  | .ok _ => .ok (.empty config now)

namespace Coordinator

variable (c : Coordinator)

def time : Time := c.now c.reads

def ticked : Coordinator := { c with reads := c.reads + 1 }

def session? (id : ℕ) : Option Session :=
  match c.sessions.get? id with
  | some s => some s
  | none => c.retired.get? id

def modifySession (id : ℕ) (change : Session → Session) : Coordinator :=
  { c with
    sessions := c.sessions.modify id change
    retired := c.retired.modify id change }

def modifyRequest (ref : RequestRef) (change : Request → Request) : Coordinator :=
  { c with heap := Function.update c.heap ref ((c.heap ref).map change) }

variable (key : OwnerKey)

def ownerLocked : Coordinator :=
  match c.owners.get? key with
  | some _ => c
  | none => { c with owners := c.owners.set key ⟨[], 0⟩ }

def pruneOwnerLocked : Coordinator :=
  match c.owners.get? key with
  | none => c
  | some o =>
    if o.ranges.length = 0 ∧ o.pending = 0 then
      { c with owners := c.owners.erase key }
    else c

def heldRanges : List RangeClaim :=
  match c.owners.get? key with
  | none => []
  | some o => o.ranges

def replacementFitsLocked (count : ℕ) : Bool :=
  match c.sessions.get? key.session with
  | none => false
  | some s =>
    let delta : ℤ := count - (c.heldRanges key).length
    decide (delta ≤ c.config.maxRanges - c.ranges) &&
      decide (delta ≤ s.options.maxLockRanges - s.ranges)

def installRangesLocked (ranges : List RangeClaim) : Coordinator :=
  let delta : ℤ := ranges.length - (c.heldRanges key).length
  { c with
    owners := c.owners.modify key fun o => { o with ranges := ranges }
    ranges := c.ranges + delta
    sessions := c.sessions.modify key.session fun s =>
      { s with ranges := s.ranges + delta } }

def replaceLocked (ranges : List RangeClaim) : Coordinator :=
  if c.replacementFitsLocked key ranges.length then
    c.installRangesLocked key ranges
  else c

/-! ## Conflicts -/

def rangeStart (r : Range) : UInt64 :=
  if r.kind = .boundary then r.cutAt else r.start

def ownerBefore (a b : OwnerKey) : Bool :=
  a.session < b.session ∨ (a.session = b.session ∧ a.owner < b.owner)

/-- Both sides overlap and at least one of them is not shared. -/
def clashes (held command : RangeCommand) : Bool :=
  overlaps held.range command.range &&
    !(decide (held.mode = .shared) && decide (command.mode = .shared))

def diagnostic (key : OwnerKey) : ℕ :=
  match c.sessions.get? key.session with
  | none => 0
  | some s =>
    match s.bindings.get? key.owner with
    | none => 0
    | some binding => binding.options.diagnostic

/-- The body of the inner loop of `conflictLocked`. -/
def selectConflict (command : RangeCommand) (other : OwnerKey) (best : RangeConflict × OwnerKey)
    (held : RangeClaim) : RangeConflict × OwnerKey :=
  if clashes held.command command = false then best
  else if best.1.found = true ∧
      (rangeStart best.1.range < rangeStart held.command.range ∨
        (rangeStart held.command.range = rangeStart best.1.range ∧
          ownerBefore other best.2 = false)) then best
  else
    (⟨true, c.diagnostic other, held.command.range, held.command.mode⟩, other)

def noOwner : OwnerKey := ⟨0, 0, 0, .undefined 0⟩

/-- Owner keys whose ranges can stand in the way of a key. -/
def rivals (key other : OwnerKey) : Bool :=
  decide (other ≠ key) && decide (other.node = key.node) &&
    decide (other.domain = key.domain)

variable (key : OwnerKey)

def conflictLocked (command : RangeCommand) : RangeConflict :=
  (c.owners.toList.foldl (fun best entry =>
    if rivals key entry.1 then
      entry.2.ranges.foldl (c.selectConflict command entry.1) best
    else best) (RangeConflict.zero, noOwner)).1

/-! ## Deadlock detection -/

structure DeadlockParticipant where
  session : ℕ
  identity : ℕ
  grouped : Bool
  deriving DecidableEq

def participant : DeadlockParticipant :=
  let group :=
    match c.sessions.get? key.session with
    | none => 0
    | some s =>
      match s.bindings.get? key.owner with
      | none => 0
      | some binding => binding.options.group
  if group ≠ 0 then ⟨key.session, group, true⟩
  else ⟨key.session, key.owner, false⟩

def blockedBy (commands : List RangeCommand) (held : List RangeClaim) : Bool :=
  commands.any fun command => held.any fun lock =>
    overlaps lock.command.range command.range &&
      (decide (lock.command.mode = .exclusive) ||
        decide (command.mode = .exclusive))

/-- The edges that `add` contributes for one request. -/
def waitEdges (commands : List RangeCommand) : List (DeadlockParticipant × DeadlockParticipant) :=
  if key.domain ≠ .record then []
  else
    c.owners.toList.filterMap fun entry =>
      if rivals key entry.1 && blockedBy commands entry.2.ranges then
        some (c.participant key, c.participant entry.1)
      else none

def addEdges (limit : ℤ) (edges : Option (List (DeadlockParticipant × DeadlockParticipant)))
    (more : List (DeadlockParticipant × DeadlockParticipant)) :
    Option (List (DeadlockParticipant × DeadlockParticipant)) :=
  match edges with
  | none => none
  | some edges =>
    if limit < (edges ++ more).length then none else some (edges ++ more)

/-- The two results are "deadlock" and "bounded". -/
def deadlockLocked (commands : List RangeCommand) : Bool × Bool :=
  let pendingEdges := c.waiting.foldl (fun edges ref =>
    match c.heap ref with
    | none => edges
    | some waiter => addEdges c.config.maxDeadlockEdges edges
        (c.waitEdges waiter.key waiter.commands)) (some [])
  match addEdges c.config.maxDeadlockEdges pendingEdges
      (c.waitEdges key commands) with
  | none => (false, false)
  | some edges => (Search.onCycle edges (c.participant key), true)

/-! ## Completion -/

variable (ref : RequestRef)

/-- A request that was waiting leaves the waiting list. -/
def withdrawLocked (key : OwnerKey) : Coordinator :=
  { c with
    owners := c.owners.modify key fun o => { o with pending := o.pending - 1 }
    sessions := c.sessions.modify key.session fun s =>
      { s with pending := s.pending - 1 }
    waiting := c.waiting.erase ref }

def historyOf (id : ℕ) : ℤ :=
  match c.sessions.get? id with
  | none => 0
  | some s => s.options.history

/-- The part of `completeLocked` that writes the action itself. -/
def settleLocked (action : Request)
    (state : AttemptState) (rejection : Option RejectionCode) : Coordinator :=
  { c.ticked.modifyRequest ref fun a =>
      a.completed state rejection (c.time + c.historyOf action.key.session)
    with log := c.log ++ [.completed ref c.time, .entered ref state] }

def completeLocked (state : AttemptState) (rejection : Option RejectionCode) : Coordinator :=
  match c.heap ref with
  | none => c
  | some action =>
    let settled := c.settleLocked ref action state rejection
    if action.pending then
      (settled.withdrawLocked ref action.key).pruneOwnerLocked action.key
    else settled

end Coordinator

/-- `receiptLocked` for a session's history interval. -/
def receiptLocked (s : Session) (action : Request) (now : Time) : RangeAttempt :=
  if action.result.state = .pending then
    { action.result with historyRemaining := s.options.history }
  else
    { action.result with historyRemaining := max 0 (action.expires - now) }

end RemoteFs.Advisory
