import RemoteFs.Advisory.Coordinator

/-!
# Drafting and committing a batch of range commands

`packages/advisory/edits.go`.  A batch is first drafted against the unchanged
live state; the draft is then committed as a whole, or its prefix of releases
is kept and the request is rejected or queued.
-/

namespace RemoteFs.Advisory

open Storage

structure EditResult where
  ranges : List RangeClaim
  effects : List RangeEffect
  claims : List ClaimID
  releaseRanges : List RangeClaim
  releaseEffects : List RangeEffect
  releaseIndexes : List ℕ
  acquired : Bool
  conflict : RangeConflict
  rejected : Option RejectionCode
  failedAt : Option ℕ

def EditResult.start (live : List RangeClaim) : EditResult where
  ranges := live
  effects := []
  claims := []
  releaseRanges := live
  releaseEffects := []
  releaseIndexes := []
  acquired := false
  conflict := .zero
  rejected := none
  failedAt := none

def EditResult.reject (result : EditResult) (code : RejectionCode) (index : ℕ) : EditResult :=
  { result with rejected := some code, failedAt := some index }

/-- The claim added by an `AddExact` command; `NewClaimID` cannot fail on an
admitted request. -/
def claimAt (id : LockRequestID) (index : ℕ) : ClaimID :=
  match newClaimID id index with
  | .error _ => []
  | .ok claim => claim

/-- `slices.IndexFunc` and `slices.Delete` on the claim with an identity. -/
def removeClaim (claim : ClaimID) (ranges : List RangeClaim) : List RangeClaim :=
  ranges.eraseP fun held => held.id = claim

def findClaim (claim : ClaimID) (ranges : List RangeClaim) : Option RangeClaim :=
  ranges.find? fun held => held.id = claim

/-! ## Updates of one action -/

namespace Request

def markReleased (released : List Bool) (indexes : List ℕ) : List Bool :=
  indexes.foldl (fun released index => released.set index true) released

/-- The surviving releases of a batch that was not committed. -/
def keepReleases (edit : EditResult) (action : Request) : Request :=
  { action with
    result := { action.result with
      effects := action.result.effects ++ edit.releaseEffects }
    released := markReleased action.released edit.releaseIndexes }

def keepEdit (edit : EditResult) (action : Request) : Request :=
  { action with
    result := { action.result with
      effects := action.result.effects ++ edit.effects
      claims := edit.claims } }

def failAt (failedAt : Option ℕ) (action : Request) : Request :=
  { action with result := { action.result with failedAt := failedAt } }

def observe (conflict : RangeConflict) (action : Request) : Request :=
  { action with result := { action.result with conflict := conflict } }

def keepDrops (effects : List RangeEffect) (action : Request) : Request :=
  { action with
    result := { action.result with
      effects := action.result.effects ++ effects } }

variable (action : Request)

def convert : Request :=
  { action with prepared := true, converting := true }

def resume : Request :=
  { action with converting := false }

def await : Request := { action with pending := true }

end Request

namespace Coordinator

variable (c : Coordinator)

/-- The end of the loop body of `draftLocked`. -/
def recordEffect (key : OwnerKey) (index : ℕ)
    (effect : RangeEffect) (result : EditResult) : EditResult :=
  let result := { result with effects := result.effects ++ [effect] }
  if c.replacementFitsLocked key result.ranges.length then result
  else result.reject .exhausted index

/-- The second switch of the loop body of `draftLocked`. -/
def draftCommand (action : Request) (index : ℕ)
    (command : RangeCommand) (result : EditResult) : EditResult :=
  match command.edit with
  | .replace =>
    c.recordEffect action.key index ⟨[], command, false⟩
      { result with
        ranges := replaceRanges result.ranges command
        acquired := true }
  | .subtract =>
    let next := replaceRanges result.releaseRanges command
    if c.replacementFitsLocked action.key next.length then
      c.recordEffect action.key index ⟨[], command, true⟩
        { result with
          ranges := replaceRanges result.ranges command
          releaseRanges := next
          releaseEffects := result.releaseEffects ++ [⟨[], command, true⟩]
          releaseIndexes := result.releaseIndexes ++ [index] }
    else
      { result with ranges := replaceRanges result.ranges command }.reject
        .exhausted index
  | .addExact =>
    let id := claimAt action.id index
    c.recordEffect action.key index ⟨id, command, false⟩
      { result with
        ranges := result.ranges ++ [⟨id, { command with
          wait := false, conversion := .preserveBeforeAcquire }⟩]
        claims := result.claims ++ [id]
        acquired := true }
  | .removeExact =>
    match findClaim command.claim result.ranges with
    | none => result.reject .notHeld index
    | some held =>
      if held.command.range ≠ command.range ∨
          held.command.mode ≠ command.mode ∨
          held.command.policy ≠ command.policy then
        result.reject .invalid index
      else
        c.recordEffect action.key index ⟨command.claim, command, true⟩
          { result with
            ranges := removeClaim command.claim result.ranges
            releaseRanges :=
              removeClaim command.claim result.releaseRanges
            releaseEffects := result.releaseEffects ++
              [⟨command.claim, command, true⟩]
            releaseIndexes := result.releaseIndexes ++ [index] }
  | .undefined _ =>
    c.recordEffect action.key index ⟨[], command, false⟩ result

/-- The loop of `draftLocked` from a command index on. -/
def draftFrom (c : Coordinator) (action : Request) :
    ℕ → List RangeCommand → EditResult → EditResult
  | _, [], result => result
  | index, command :: rest, result =>
    if action.released.getD index false then
      c.draftFrom action (index + 1) rest result
    else
      let conflict := c.conflictLocked action.key command
      if command.edit.acquires = true ∧ conflict.found = true then
        { result with conflict := conflict }.reject .blocked index
      else
        let next := c.draftCommand action index command result
        match next.rejected with
        | some _ => next
        | none => c.draftFrom action (index + 1) rest next

def draftLocked (action : Request) : EditResult :=
  c.draftFrom action 0 action.commands (.start (c.heldRanges action.key))

/-! ## Commits -/

/-- The requests whose claims a list of effects removed. -/
def removedRequests (effects : List RangeEffect) : List LockRequestID :=
  (effects.filterMap fun effect =>
    if effect.released = false ∨ effect.claim = [] then none
    else (cutLastColon effect.claim).map Prod.fst).dedup

/-- One iteration of the last loop of `reconcileRemovedClaimsLocked`. -/
def settleRemoved (actions : Table LockRequestID RequestRef) (key : OwnerKey)
    (live : List ClaimID) (c : Coordinator) (id : LockRequestID) : Coordinator :=
  match actions.get? id with
  | none => c
  | some ref =>
    match c.heap ref with
    | none => c
    | some action =>
      if action.key ≠ key ∨ action.result.state ≠ .granted then c
      else if action.result.claims.any fun claim => decide (claim ∈ live)
        then c
      else c.completeLocked ref .released none

variable (c : Coordinator)

def reconcileRemovedClaimsLocked (key : OwnerKey) (effects : List RangeEffect) : Coordinator :=
  match c.sessions.get? key.session with
  | none => c
  | some s =>
    (removedRequests effects).foldl
      (settleRemoved s.actions key ((c.heldRanges key).map RangeClaim.id)) c

variable (ref : RequestRef)

def commitReleasePrefixLocked (key : OwnerKey) (edit : EditResult) : Coordinator :=
  if edit.releaseEffects.length = 0 then c
  else
    ((c.installRangesLocked key edit.releaseRanges).modifyRequest ref
      (Request.keepReleases edit)).reconcileRemovedClaimsLocked key
        edit.releaseEffects

def commitEditLocked (key : OwnerKey) (edit : EditResult) : Coordinator :=
  if c.replacementFitsLocked key edit.ranges.length then
    (((c.installRangesLocked key edit.ranges).modifyRequest ref
      (Request.keepEdit edit)).completeLocked ref
        (if edit.acquired then .granted else .released) none
      ).reconcileRemovedClaimsLocked key edit.effects
  else
    (c.commitReleasePrefixLocked ref key edit).completeLocked ref .rejected
      (some .exhausted)

/-! ## Starting a request -/

def rejectAt (failedAt : Option ℕ) (code : RejectionCode) : Coordinator :=
  (c.modifyRequest ref (Request.failAt failedAt)).completeLocked ref .rejected
    (some code)

def enqueueLocked (key : OwnerKey) : Coordinator :=
  { c.modifyRequest ref Request.await with
    owners := c.owners.modify key fun o => { o with pending := o.pending + 1 }
    sessions := c.sessions.modify key.session fun s =>
      { s with pending := s.pending + 1 }
    waiting := c.waiting ++ [ref] }

def waitersFull (key : OwnerKey) : Bool :=
  match c.sessions.get? key.session with
  | none => true
  | some s =>
    decide (c.config.maxWaiters ≤ c.waiting.length) ||
      decide (s.options.maxPendingLocks ≤ s.pending) ||
      decide (s.options.maxWaiters ≤ s.pending)

/-- The last part of `startLocked`: admission of a blocked request to the
waiting list. -/
def awaitLocked (action : Request) (failedAt : Option ℕ) : Coordinator :=
  if c.waitersFull action.key then c.rejectAt ref failedAt .exhausted
  else if action.key.domain = .record then
    match c.deadlockLocked action.key action.commands with
    | (true, _) => c.rejectAt ref failedAt .deadlock
    | (false, false) => c.rejectAt ref failedAt .exhausted
    | (false, true) => c.enqueueLocked ref action.key
  else c.enqueueLocked ref action.key

variable (held : List RangeClaim)

def dropEffects : List RangeEffect :=
  held.map fun claim => ⟨claim.id, claim.command, true⟩

variable (action : Request)

/-- Whether a conversion gives up the held ranges before it acquires. -/
def dropsFirst (first : RangeCommand) : Bool :=
  !action.prepared && decide (first.conversion = .dropBeforeAcquire) &&
    match held with
    | [] => false
    | claim :: _ => decide (claim.command.mode ≠ first.mode)

def projectedEffects (dropping : Bool) : ℕ :=
  action.result.effects.length +
    (List.range action.commands.length).countP
      (fun index => !action.released.getD index false) +
    (if dropping then held.length else 0)

def projectedClaims : ℕ :=
  action.commands.countP fun command => decide (command.edit = .addExact)

/-- `startLocked` between obtaining the owner state and pruning it. -/
def startOwned (ref : RequestRef) (action : Request) (first : RangeCommand) : Coordinator :=
  let held := c.heldRanges action.key
  let dropping := dropsFirst held action first
  if maxRangeEffects < projectedEffects held action dropping ∨
      maxRangeClaims < projectedClaims action then
    c.completeLocked ref .rejected (some .tooLarge)
  else if dropping then
    ((c.modifyRequest ref (Request.keepDrops (dropEffects held))).replaceLocked
      action.key []).modifyRequest ref Request.convert
  else
    let edit := c.draftLocked action
    match edit.rejected with
    | none => c.commitEditLocked ref action.key edit
    | some code =>
      let c := (c.commitReleasePrefixLocked ref action.key edit).modifyRequest
        ref (Request.observe edit.conflict)
      if code ≠ .blocked ∨ first.wait = false then
        c.rejectAt ref edit.failedAt code
      else c.awaitLocked ref action edit.failedAt

def startLocked (ref : RequestRef) : Coordinator :=
  match c.heap ref with
  | none => c
  | some action =>
    match action.commands with
    | [] => c
    | first :: _ =>
      ({ c.ownerLocked action.key with
        log := c.log ++ [Event.started ref] }.startOwned ref action
          first).pruneOwnerLocked action.key

end Coordinator

end RemoteFs.Advisory
