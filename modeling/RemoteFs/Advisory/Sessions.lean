import RemoteFs.Advisory.Edits

/-!
# The critical sections of the coordinator

Each function below is what one operation of `packages/advisory` does while it
holds the coordinator mutex: the whole of `NewOwner`, `Cancel` or `Drop`, the
transition that `Apply` and `advance` hand to the native order callback, and
the two halves of `Retire` around the publication fence.  A section returns the
new state and the result of the operation.  Between two sections any other
section may run.
-/

namespace RemoteFs.Advisory

open Storage

structure Outcome (α : Type) where
  state : Coordinator
  result : Except Failure α

namespace Session

def activeLocked (s : Session) : Except Failure Unit :=
  if s.retired then .error ESTALE
  else if s.retiring then
    .error (.mk Errno.EIO "advisory session publication rights are retired")
  else .ok ()

lemma activeLocked_eq_ok_iff {s : Session} :
    s.activeLocked = .ok () ↔ s.retired = false ∧ s.retiring = false := by
  cases hretired : s.retired <;> cases hretiring : s.retiring <;>
    simp [activeLocked, hretired, hretiring]

def checkOwnerLocked (s : Session) (node owner : ℕ) : Except Failure Unit :=
  match s.bindings.get? owner with
  | none => .error ESTALE
  | some binding => refuse (binding.node ≠ node) EINVAL

def key (s : Session) (node owner : ℕ) (domain : ConflictDomain) : OwnerKey :=
  ⟨s.id, owner, node, domain⟩

/-! The updates of a session record. -/

def bind (node : ℕ) (scope : UseScope) (options : OwnerOptions) (s : Session) : Session :=
  { s with
    nextOwner := s.nextOwner + 1
    bindings := s.bindings.set (s.nextOwner + 1) ⟨node, scope, options⟩
    owners := s.owners + 1 }

def unbind (owner : ℕ) (s : Session) : Session :=
  { s with bindings := s.bindings.erase owner, owners := s.owners - 1 }

def renew (now : Time) (s : Session) : Session :=
  { s with epoch := s.epoch + 1, epochUntil := now + s.options.history }

def forget (prunable : Session → RequestRef → Bool) (s : Session) : Session :=
  { s with actions := s.actions.filter fun _ ref => !prunable s ref }

def record (id : LockRequestID) (ref : RequestRef) (s : Session) : Session :=
  { s with actions := s.actions.set id ref }

def startRetiring (s : Session) : Session :=
  { s with retiring := true, retireDone := true }

def failRetiring (s : Session) : Session := { s with retireDone := false }

/-- What a successful fence lets `Retire` do to the session object. -/
def cleared (s : Session) : Session :=
  { s with
    actions := .empty
    bindings := .empty
    owners := 0
    ranges := 0
    pending := 0
    retired := true
    retireDone := false }

end Session

/-- `checkCall` with an uncancelled context. -/
def checkCall (node : ℕ) : Except Failure Unit := refuse (node = 0) EINVAL

namespace Coordinator

/-! ## Sessions and owners -/

variable (c : Coordinator)

def newSession (options : FileSessionOptions) (fence : Bool) : Outcome ℕ :=
  match options.check with
  | .error failure => ⟨c, .error failure⟩
  | .ok _ =>
    if fence = false then
      ⟨c, .error ⟨.EINVAL, "advisory session requires a publication fence"⟩⟩
    else if c.config.maxSessions ≤ c.sessions.size ∨
        c.nextSession = maxCount then ⟨c, .error ENOLCK⟩
    else
      ⟨{ c.ticked with
        nextSession := c.nextSession + 1
        sessions := c.sessions.set (c.nextSession + 1) {
          id := c.nextSession + 1
          options := options
          epoch := 1
          epochUntil := c.time + options.history
          actions := .empty
          bindings := .empty
          nextOwner := 0
          owners := 0
          ranges := 0
          pending := 0
          retiring := false
          retired := false
          retireDone := false } }, .ok (c.nextSession + 1)⟩

def newOwner (session node : ℕ) (scope : UseScope) (options : OwnerOptions) : Outcome ℕ :=
  match checkCall node, scope.check with
  | .error failure, _ => ⟨c, .error failure⟩
  | _, .error failure => ⟨c, .error failure⟩
  | .ok _, .ok _ =>
    if options.lifetime ≠ .reference ∧ options.lifetime ≠ .explicit then
      ⟨c, .error EINVAL⟩
    else
      match c.session? session with
      | none => ⟨c, .error ESTALE⟩
      | some s =>
        match s.activeLocked with
        | .error failure => ⟨c, .error failure⟩
        | .ok _ =>
          if c.config.maxOwners ≤ c.registeredOwners + c.uses.size ∨
              s.options.maxLockOwners ≤ s.bindings.size ∨
              s.nextOwner = maxCount then ⟨c, .error ENOLCK⟩
          else
            ⟨{ c.modifySession session (Session.bind node scope options)
              with registeredOwners := c.registeredOwners + 1 },
              .ok (s.nextOwner + 1)⟩

/-! ## History -/

/-- Whether `pruneHistoryLocked` deletes a retained action. -/
def prunable (s : Session) (now : Time) (ref : RequestRef) : Bool :=
  match c.heap ref with
  | none => false
  | some action =>
    decide (action.epoch < s.epoch ∨ s.epochUntil ≤ now) &&
      decide (action.result.state ≠ .pending) &&
      decide (action.expires ≤ now)

variable (session : ℕ)

def pruneHistoryLocked (now : Time) : Coordinator :=
  match c.session? session with
  | none => c
  | some s =>
    let pruned := s.actions.filter fun _ ref => c.prunable s now ref
    { c.modifySession session (Session.forget fun s => c.prunable s now) with
      requests := c.requests - pruned.size
      log := c.log ++ pruned.toList.map fun entry => .pruned entry.2 now }

def advanceLocked (now : Time) : Outcome Unit :=
  match c.session? session with
  | none => ⟨c, .ok ()⟩
  | some s =>
    if s.epochUntil ≤ now then
      if s.epoch = maxCount then ⟨c, .error EOVERFLOW⟩
      else
        ⟨(c.modifySession session (Session.renew now)).pruneHistoryLocked
          session now, .ok ()⟩
    else ⟨c.pruneHistoryLocked session now, .ok ()⟩

/-- The critical section of `History` and of `Epoch`. -/
def history : Outcome (ℕ × Time) :=
  match c.session? session with
  | none => ⟨c, .error ESTALE⟩
  | some s =>
    match s.activeLocked with
    | .error failure => ⟨c, .error failure⟩
    | .ok _ =>
      match c.ticked.advanceLocked session c.time with
      | ⟨next, .error failure⟩ => ⟨next, .error failure⟩
      | ⟨next, .ok _⟩ =>
        match next.session? session with
        | none => ⟨next, .error ESTALE⟩
        | some s => ⟨next, .ok (s.epoch, s.epochUntil - c.time)⟩

/-- `WithCloseAdmission`, which stays available on a retired session. -/
def closeAdmission : Outcome Unit :=
  c.ticked.advanceLocked session c.time

/-! ## Apply -/

def checkCommand (first : RangeCommand) (count : ℕ)
    (command : RangeCommand) : Except Failure Unit := do
  command.check
  refuse (command.domain ≠ first.domain ∨ command.wait ≠ first.wait) EINVAL
  refuse (command.conversion = .dropBeforeAcquire ∧ count ≠ 1) EINVAL
  refuse (command.domain ≠ .enforced ∧ command.range.kind ≠ .bytes) EINVAL

def checkAll (first : RangeCommand) (count : ℕ) : List RangeCommand → Except Failure Unit
  | [] => .ok ()
  | command :: rest => do
    checkCommand first count command
    checkAll first count rest

def checkCommands (commands : List RangeCommand) : Except Failure Unit :=
  match commands with
  | [] => .error EINVAL
  | first :: _ =>
    if c.config.maxCommands < commands.length ∨
        maxRangeCommands < commands.length then .error EINVAL
    else checkAll first commands.length commands

/-- The action object that `Apply` creates for a new request. -/
def freshRequest (key : OwnerKey) (id : LockRequestID) (epoch : ℕ)
    (commands : List RangeCommand) : Request where
  key := key
  id := id
  epoch := epoch
  commands := commands
  result := {
    request := id
    state := .pending
    commands := commands
    claims := []
    conflict := .zero
    rejection := none
    failedAt := none
    effects := []
    everGranted := false
    historyRemaining := 0 }
  expires := 0
  order := true
  pending := false
  prepared := false
  converting := false
  released := List.replicate commands.length false

/-- Registration of a new action in the history of its session. -/
def admitLocked (action : Request) : Coordinator :=
  { c.modifySession session (Session.record action.id c.allocated) with
    heap := Function.update c.heap c.allocated (some action)
    allocated := c.allocated + 1
    requests := c.requests + 1 }

def readReceipt (ref : RequestRef) : Outcome RangeAttempt :=
  match c.session? session, c.heap ref with
  | some s, some action => ⟨c.ticked, .ok (receiptLocked s action c.time)⟩
  | _, _ => ⟨c, .error ESTALE⟩

/-- `for _, session := range c.sessions { session.pruneHistoryLocked(now) }`,
entered at the aggregate request limit. -/
def pruneAtLimit (now : Time) : Coordinator :=
  if c.config.maxRequests ≤ c.requests then
    c.sessions.toList.foldl (fun c entry => c.pruneHistoryLocked entry.1 now) c
  else c

/-- The part of `Apply` after the history of the session was advanced. -/
def applyAdvanced (session node owner : ℕ)
    (commands : List RangeCommand) (id : LockRequestID) (epoch : ℕ)
    (domain : ConflictDomain) (now : Time) : Outcome (RangeAttempt × RequestRef) :=
  match c.session? session with
  | none => ⟨c, .error ESTALE⟩
  | some s =>
    match s.actions.get? id with
    | some ref =>
      match c.heap ref with
      | none => ⟨c, .error EINVAL⟩
      | some old =>
        if old.key ≠ s.key node owner domain ∨ old.commands ≠ commands
          then ⟨c, .error EINVAL⟩
        else ⟨c, .ok (receiptLocked s old now, ref)⟩
    | none =>
      if epoch ≠ s.epoch then ⟨c, .error ESTALE⟩
      else
        let c := c.pruneAtLimit now
        match c.session? session with
        | none => ⟨c, .error ESTALE⟩
        | some s =>
          if s.options.maxLockActions ≤ s.actions.size ∨
              c.config.maxRequests ≤ c.requests then ⟨c, .error ENOLCK⟩
          else
            let ref := c.allocated
            let c := (c.admitLocked session (freshRequest
              (s.key node owner domain) id epoch commands)).startLocked
                ref
            match c.readReceipt session ref with
            | ⟨c, .error failure⟩ => ⟨c, .error failure⟩
            | ⟨c, .ok receipt⟩ => ⟨c, .ok (receipt, ref)⟩

/-- The transition that `Apply` runs inside the native order callback,
preceded by the argument checks that need no state. -/
def applyOrdered (session node owner : ℕ) (commands : List RangeCommand) (id : LockRequestID) :
    Outcome (RangeAttempt × RequestRef) :=
  match checkCall node, c.checkCommands commands, lockRequestEpoch id,
      commands with
  | .error failure, _, _, _ => ⟨c, .error failure⟩
  | _, .error failure, _, _ => ⟨c, .error failure⟩
  | _, _, .error failure, _ => ⟨c, .error failure⟩
  | _, _, _, [] => ⟨c, .error EINVAL⟩
  | .ok _, .ok _, .ok epoch, first :: _ =>
    match c.session? session with
    | none => ⟨c, .error ESTALE⟩
    | some s =>
      match s.activeLocked with
      | .error failure => ⟨c, .error failure⟩
      | .ok _ =>
        match s.checkOwnerLocked node owner with
        | .error failure => ⟨c, .error failure⟩
        | .ok _ =>
          match c.ticked.advanceLocked session c.time with
          | ⟨next, .error failure⟩ => ⟨next, .error failure⟩
          | ⟨next, .ok _⟩ =>
            next.applyAdvanced session node owner commands id epoch
              first.domain c.time

/-! ## Retrying a waiting request -/

variable (ref : RequestRef)

/-- The check of `advance` before it enters the native order callback. -/
def retriable : Bool :=
  match c.heap ref with
  | none => false
  | some action =>
    match c.sessions.get? action.key.session with
    | none => false
    | some s => !s.retiring && decide (action.result.state = .pending) &&
        action.order

/-- What `advance` does with an action that is still pending. -/
def retryLocked (action : Request) : Coordinator :=
  if action.converting then (c.modifyRequest ref Request.resume).startLocked ref
  else
    match (c.draftLocked action).rejected with
    | none => c.commitEditLocked ref action.key (c.draftLocked action)
    | some .blocked =>
      c.modifyRequest ref (Request.observe (c.draftLocked action).conflict)
    | some code => c.completeLocked ref .rejected (some code)

/-- The transition that `advance` runs inside the native order callback. -/
def advanceOrdered : Outcome Unit :=
  match c.heap ref with
  | none => ⟨c, .ok ()⟩
  | some action =>
    match c.sessions.get? action.key.session with
    | none => ⟨c, .ok ()⟩
    | some s =>
      if action.result.state ≠ .pending then ⟨c, .ok ()⟩
      else
        match s.activeLocked with
        | .error failure => ⟨c, .error failure⟩
        | .ok _ =>
          match s.checkOwnerLocked action.key.node action.key.owner with
          | .error failure => ⟨c, .error failure⟩
          | .ok _ =>
            ⟨c.retryLocked ref action, .ok ()⟩

/-! ## Receipts returned by `Apply` and `Query` -/

/-- The last critical section of `Apply`. -/
def applyReceipt (session : ℕ) (id : LockRequestID) (ref : RequestRef) : Outcome RangeAttempt :=
  match c.session? session with
  | none => ⟨c, .error ESTALE⟩
  | some s =>
    match s.activeLocked with
    | .error failure => ⟨c, .error failure⟩
    | .ok _ =>
      if s.actions.get? id ≠ some ref then ⟨c, .error ESTALE⟩
      else c.readReceipt session ref

/-- The last critical section of `Query`. -/
def queryReceipt (session : ℕ) (ref : RequestRef) : Outcome RangeAttempt :=
  match c.session? session with
  | none => ⟨c, .error ESTALE⟩
  | some s =>
    match s.activeLocked with
    | .error failure => ⟨c, .error failure⟩
    | .ok _ => c.readReceipt session ref

/-! ## Lookup, cancellation and removal -/

def requestLocked (session owner : ℕ) (id : LockRequestID) : Outcome (Request × RequestRef) :=
  match lockRequestEpoch id with
  | .error failure => ⟨c, .error failure⟩
  | .ok _ =>
    match c.session? session with
    | none => ⟨c, .error ESTALE⟩
    | some s =>
      match s.activeLocked with
      | .error failure => ⟨c, .error failure⟩
      | .ok _ =>
        match c.ticked.advanceLocked session c.time with
        | ⟨c, .error failure⟩ => ⟨c, .error failure⟩
        | ⟨c, .ok _⟩ =>
          match (c.session? session).bind fun s =>
              s.actions.get? id with
          | none => ⟨c, .error ESTALE⟩
          | some ref =>
            match c.heap ref with
            | none => ⟨c, .error ESTALE⟩
            | some action =>
              if action.key.owner ≠ owner then ⟨c, .error EINVAL⟩
              else ⟨c, .ok (action, ref)⟩

/-- `findLocked`, the first critical section of `Query`. -/
def findLocked (session node owner : ℕ) (id : LockRequestID) : Outcome (Request × RequestRef) :=
  match c.requestLocked session owner id with
  | ⟨c, .error failure⟩ => ⟨c, .error failure⟩
  | ⟨c, .ok (action, ref)⟩ =>
    if action.key.node ≠ node then ⟨c, .error EINVAL⟩
    else ⟨c, .ok (action, ref)⟩

def cancel (session node owner : ℕ) (id : LockRequestID) : Outcome RangeAttempt :=
  match checkCall node with
  | .error failure => ⟨c, .error failure⟩
  | .ok _ =>
    match c.findLocked session node owner id with
    | ⟨c, .error failure⟩ => ⟨c, .error failure⟩
    | ⟨c, .ok (action, ref)⟩ =>
      if action.result.state = .pending then
        (c.completeLocked ref .cancelled none).readReceipt session ref
      else c.readReceipt session ref

/-- One iteration of the loop of `dropLocked`. -/
def settleDropped (key : OwnerKey) (c : Coordinator) (ref : RequestRef) : Coordinator :=
  match c.heap ref with
  | none => c
  | some action =>
    if action.key ≠ key then c
    else if action.result.state = .pending then
      c.completeLocked ref .cancelled none
    else if action.result.state = .granted then
      c.completeLocked ref .released none
    else c

variable (c : Coordinator)

/-- The first statement of `dropLocked`. -/
def clearLocked (key : OwnerKey) : Coordinator :=
  match c.owners.get? key with
  | none => c
  | some _ => c.replaceLocked key []

def dropLocked (key : OwnerKey) : Coordinator :=
  let actions :=
    match c.sessions.get? key.session with
    | none => []
    | some s => s.actions.toList.map Prod.snd
  (actions.foldl (settleDropped key) (c.clearLocked key)).pruneOwnerLocked key

def drop (session node owner : ℕ) (domain : ConflictDomain) : Outcome Unit :=
  match checkCall node with
  | .error failure => ⟨c, .error failure⟩
  | .ok _ =>
    if domain.defined = false then ⟨c, .error EINVAL⟩
    else
      match c.session? session with
      | none => ⟨c, .error ESTALE⟩
      | some s =>
        match s.activeLocked with
        | .error failure => ⟨c, .error failure⟩
        | .ok _ =>
          match s.checkOwnerLocked node owner with
          | .error failure => ⟨c, .error failure⟩
          | .ok _ => ⟨c.dropLocked (s.key node owner domain), .ok ()⟩

def retireOwner (session owner : ℕ) : Outcome Unit :=
  match c.session? session with
  | none => ⟨c, .error EINVAL⟩
  | some s =>
    if owner = 0 ∨ s.nextOwner < owner then ⟨c, .error EINVAL⟩
    else
      match s.bindings.get? owner with
      | none => ⟨c, .ok ()⟩
      | some binding =>
        let dropped := [ConflictDomain.record, .wholeFile, .enforced].foldl
          (fun c domain => c.dropLocked (s.key binding.node owner domain))
          c
        ⟨{ dropped.modifySession session (Session.unbind owner) with
          registeredOwners := dropped.registeredOwners - 1 }, .ok ()⟩

/-! ## Retirement of a session -/

/-- `Retire` up to the publication fence. -/
def beginRetire (session : ℕ) : Outcome Unit :=
  match c.session? session with
  | none => ⟨c, .ok ()⟩
  | some s =>
    if s.retired ∨ s.retireDone then ⟨c, .ok ()⟩
    else
      ⟨c.modifySession session Session.startRetiring, .ok ()⟩

def ownedBy (session : ℕ) (c : Coordinator) (ref : RequestRef) : Bool :=
  match c.heap ref with
  | none => false
  | some action => decide (action.key.session = session)

variable (c : Coordinator)

/-- What `Retire` frees after its fence succeeded. -/
def dissolve (session : ℕ) (s : Session) : Coordinator :=
  { c with
    ranges := c.ranges - c.owners.total fun key state =>
      if key.session = session then state.ranges.length else 0
    owners := c.owners.filter fun key _ => decide (key.session ≠ session)
    waiting := c.waiting.filter fun ref => !ownedBy session c ref
    requests := c.requests - s.actions.size
    registeredOwners := c.registeredOwners - s.bindings.size
    sessions := c.sessions.erase session
    retired := c.retired.set session s.cleared }

/-- `Retire` after the fence returned; only a retirement that was begun and
has not ended can get here. -/
def endRetire (session : ℕ) (fence : Except Failure Unit) : Outcome Unit :=
  match c.sessions.get? session with
  | none => ⟨c, .ok ()⟩
  | some s =>
    if s.retireDone = false then ⟨c, .ok ()⟩
    else
      match fence with
      | .error failure =>
        ⟨c.modifySession session Session.failRetiring, .error failure⟩
      | .ok _ => ⟨c.dissolve session s, .ok ()⟩

/-! ## Use claims -/

def addUse (node : ℕ) (scope : UseScope) (claim : UseClaim) : Outcome Unit :=
  match checkCall node, scope.check, claim.check with
  | .error failure, _, _ => ⟨c, .error failure⟩
  | _, .error failure, _ => ⟨c, .error failure⟩
  | _, _, .error failure => ⟨c, .error failure⟩
  | .ok _, .ok _, .ok _ =>
    match c.uses.get? scope with
    | some old =>
      if old.node ≠ node ∨ old.claim ≠ claim then ⟨c, .error EINVAL⟩
      else ⟨c, .ok ()⟩
    | none =>
      if c.uses.toList.any fun entry =>
          decide (entry.2.node = node) &&
            (decide (claim.uses &&& entry.2.claim.deny ≠ 0) ||
              decide (entry.2.claim.uses &&& claim.deny ≠ 0)) then
        ⟨c, .error ErrUseConflict⟩
      else if c.config.maxOwners ≤ c.uses.size + c.registeredOwners then
        ⟨c, .error ENOLCK⟩
      else ⟨{ c with uses := c.uses.set scope ⟨node, claim⟩ }, .ok ()⟩

def dropUse (node : ℕ) (scope : UseScope) : Outcome Unit :=
  match checkCall node, scope.check with
  | .error failure, _ => ⟨c, .error failure⟩
  | _, .error failure => ⟨c, .error failure⟩
  | .ok _, .ok _ =>
    match c.uses.get? scope with
    | none => ⟨c, .ok ()⟩
    | some old =>
      if old.node ≠ node then ⟨c, .error EINVAL⟩
      else ⟨{ c with uses := c.uses.erase scope }, .ok ()⟩

def dropUseExact (node : ℕ) (scope : UseScope) (claim : UseClaim) : Outcome Unit :=
  match checkCall node, scope.check, claim.check with
  | .error failure, _, _ => ⟨c, .error failure⟩
  | _, .error failure, _ => ⟨c, .error failure⟩
  | _, _, .error failure => ⟨c, .error failure⟩
  | .ok _, .ok _, .ok _ =>
    if c.uses.get? scope = some ⟨node, claim⟩ then
      ⟨{ c with uses := c.uses.erase scope }, .ok ()⟩
    else ⟨c, .error ErrInvalidScope⟩

end Coordinator

end RemoteFs.Advisory
