import RemoteFs.Locking.Authority

/-!
# The sections of the authority's calls

Each definition is what one call does between taking the authority mutex and
releasing it (`enrollment.go`, `resources.go`, `actions.go`, `results.go`,
`publication.go`).  A call that leaves the mutex in between is several of them:
`Acquire` and `Renew` enrol an action, raise the durable lease maximum, run a
callback inside `Guard` and leave; a queue worker does the same for the head of
its queue.  A call that waits for a publication does nothing and starts again.

A context that is cancelled before the first section leaves no trace, so only
the sections of a call already under way are told whether it is.
-/

namespace RemoteFs.Locking

open Storage

/-- The answer of one pass of a call's loop. -/
inductive Turn (α : Type) where
  | waiting
  | done (answer : α)

namespace Authority

/-! ## Enrollment -/

variable (a : Authority)

def ticketExpiry (n : ℤ) : Except Fault Time :=
  if n < 0 ∨ 9223372036854 < n then
    .error (fail .invalid "invalid enrollment expiry")
  else .ok (a.start + n * millisecond)

def sessionResultLocked (id : SessionID) : Outcome Session :=
  ⟨a.ticked, .ok {
    id
    historyExpiresMillis := a.tick (a.sessionExpires id)
    nowMillis := a.tick a.time
    retired := false }⟩

def addSession (ticket : EnrollmentTicket) (now expiry : Time) : Authority :=
  { a with
    lastToken := a.lastToken + 1
    sessions := a.sessions.set (a.lastToken + 1)
      { expires := now + a.options.sessionIdle, creates := .empty }
    tickets := a.tickets.set ticket
      { session := a.lastToken + 1, expires := expiry } }

def openSession (ticket : EnrollmentTicket) : Outcome Session :=
  (a.healthyLocked false false).andThen fun a _ =>
  (⟨a, a.verify (.ticket ticket)⟩ : Outcome Unit).andThen fun a _ =>
  (⟨a, a.ticketExpiry ticket.expiryMillis⟩ : Outcome Time).andThen fun a expiry =>
  let now := a.time
  let a := a.expireSessionsNow
  if expiry ≤ now then
    ⟨a, .error (fail .retired "enrollment ticket expired")⟩
  else
    match a.tickets.get? ticket with
    | some previous =>
      if (a.sessions.get? previous.session).isSome then
        (a.touchSessionLocked previous.session).sessionResultLocked
          previous.session
      else
        ⟨a, .ok {
          id := previous.session
          historyExpiresMillis := 0
          nowMillis := a.tick now
          retired := true }⟩
    | none =>
      if a.options.maxTickets ≤ a.tickets.size ∨
          a.options.maxSessions ≤ a.sessions.size then
        ⟨a, .error (fail .capacity "session enrollment capacity exhausted")⟩
      else
        (a.addSession ticket now expiry).sessionResultLocked (a.lastToken + 1)

def ownerResult (ref : OwnerRef) (retired : Bool) : Outcome Owner :=
  ⟨a.ticked, .ok {
    ref
    actionCapacity := a.options.actionsPerOwner
    historyExpiresMillis := a.tick (a.sessionExpires ref.session)
    nowMillis := a.tick a.time
    retired }⟩

variable (id : SessionID)

def addOwner (request : RequestID) : Authority :=
  { a with
    lastToken := a.lastToken + 1
    owners := a.owners.set (a.lastToken + 1)
      { ref := ⟨id, a.lastToken + 1⟩
        actions := [], grants := [], liveGrants := 0, queued := 0 }
    sessions := a.sessions.modify id fun s =>
      { s with creates := s.creates.set request (a.lastToken + 1) } }

def createOwner (request : RequestID) : Outcome Owner :=
  (a.healthyLocked false false).andThen fun a _ =>
  let a := a.expireSessionsNow
  (⟨a, a.sessionLocked id⟩ : Outcome SessionRecord).andThen fun a s =>
  if !requestValid request a.options.maxRequestBytes then
    ⟨a, .error (fail .invalid "invalid owner creation request ID")⟩
  else
    match s.creates.get? request with
    | some previous =>
      (a.touchSessionLocked id).ownerResult ⟨id, previous⟩
        (a.owners.get? previous).isNone
    | none =>
      if a.options.maxOwners ≤ a.owners.size ∨
          a.options.ownersPerSession ≤ (a.sessionOwners id).length ∨
          a.options.ownerActionsPerSession ≤ s.creates.size then
        ⟨a, .error (fail .capacity "owner enrollment capacity exhausted")⟩
      else
        ((a.addOwner id request).touchSessionLocked id).ownerResult
          ⟨id, a.lastToken + 1⟩ false

variable (ref : OwnerRef)

def retireOwner : Outcome (Turn Unit) :=
  (a.healthyLocked false false).andThen fun a _ =>
  match a.ownerLocked ref with
  | .error fault =>
    if fault.code = .retired then ⟨a, .ok (.done ())⟩ else ⟨a, .error fault⟩
  | .ok o =>
    if a.ownerBusyLocked o then ⟨a, .ok .waiting⟩
    else ⟨a.retireOwnerLocked ref.owner, .ok (.done ())⟩

def closeSession : Outcome (Turn Unit) :=
  (a.healthyLocked false false).andThen fun a _ =>
  match a.sessionLocked id with
  | .error fault =>
    if fault.code = .retired then ⟨a, .ok (.done ())⟩ else ⟨a, .error fault⟩
  | .ok _ =>
    if a.sessionBusy id then ⟨a, .ok .waiting⟩
    else ⟨a.retireSessionLocked id, .ok (.done ())⟩

/-! ## Resources -/

/-- The first section of `Resolve`. -/
def resolve : Outcome Unit :=
  (a.healthyLocked false false).andThen fun a _ =>
  let a := a.expireSessionsNow
  (⟨a, a.ownerLocked ref⟩ : Outcome OwnerRecord).andThen fun a _ => ⟨a, .ok ()⟩

def adopt (key : BackendKey) : Authority :=
  { a with
    lastToken := a.lastToken + 1
    resources := (a.lastToken + 1) :: a.resources
    keys := a.keys.set key (a.lastToken + 1)
    resourceRecords := a.resourceRecords.set (a.lastToken + 1)
      { key, referenceUntil := 0, grants := [], queue := [], busy := false,
        retired := false, worker := .stopped, holds := 0, forgetting := false } }

def refer (o : OwnerRecord) (id : ResourceID) (adopted : Bool) : Outcome (ResourceRef × Bool) :=
  let now := a.time
  let referenceUntil := now + a.options.resourceTTL
  let a := (a.ticked.modifyResource id ({ · with referenceUntil })).touchLocked o
  ⟨a, .ok ({
    id
    expiresMillis := a.tick referenceUntil
    nowMillis := a.tick now
    historyExpiresMillis := a.tick (a.sessionExpires o.ref.session) }, adopted)⟩

/-- The callback of `Resolve` inside `Discover`. -/
def discover (key : BackendKey) (cancelled : Bool) : Outcome (ResourceRef × Bool) :=
  (a.healthyLocked cancelled false).andThen fun a _ =>
  let a := a.expireSessionsNow
  (⟨a, a.ownerLocked ref⟩ : Outcome OwnerRecord).andThen fun a o =>
  if key = [] then
    ⟨a, .error (fail .invalid "backend returned an empty resource key")⟩
  else
    match a.keys.get? key with
    | none =>
      if a.options.maxResources ≤ a.resources.length then
        ⟨a, .error (fail .capacity "resource capacity exhausted")⟩
      else (a.adopt key).refer o (a.lastToken + 1) true
    | some id =>
      if (a.resourceRecords.get? id).any fun r => r.retired || r.forgetting then
        ⟨a, .error (fail .staleResource "resource is retired")⟩
      else a.refer o id false

/-! ## Enrolling an action -/

def enroll (ref : ActionRef) (action : ActionRecord) : Authority :=
  { a with
    actionRecords := a.actionRecords.set ref action
    owners := a.owners.modify ref.owner fun o =>
      { o with actions := ref.request :: o.actions }
    actions := a.actions + 1 }

/-- `action.resource = r`, `action.processing = true` and `r.holds++` of a call
that goes on to `raise`. -/
def hold (ref : ActionRef) (id : ResourceID)
    (grant : Option GrantID) (started : Time) : Authority :=
  { a with
    actionRecords := a.actionRecords.modify ref fun action =>
      { action with
        resource := some id
        grant
        processing := true
        started
        call := some .raising }
    resourceRecords := a.resourceRecords.modify id
      fun r => { r with holds := r.holds + 1 } }

variable (o : OwnerRecord)

/-- An enrolled action that is refused before it leaves the mutex. -/
def rejectEnrolled (ref : ActionRef) (fault : Fault) : Outcome (Option ActionResult) :=
  let a := a.finishLocked ref .rejected (some fault.code)
  match a.actionRecords.get? ref with
  | none => ⟨a, .ok none⟩
  | some action =>
    let (a, result) := a.actionResultLocked o action
    ⟨a, .ok (some result)⟩

def fullHistory : Bool :=
  a.options.actionsPerOwner ≤ o.actions.length ∨
    a.options.maxActions ≤ a.actions

def enrollAcquire (request : AcquireRequest) : Outcome (Option ActionResult) :=
  let ref : ActionRef := ⟨request.owner.owner, request.request⟩
  let receipt : ActionReceipt := {
    kind := .acquire
    request := request.request
    acquire := some request
    renew := none
    outcome := .pending
    code := none
    grant := none
    deadlineMillis := 0
    revision := 0 }
  let a := (a.enroll ref (.enrolled receipt false)).touchLocked o
  let found := a.resourceLocked request.resource
  match found.result with
  | .error fault => found.state.rejectEnrolled o ref fault
  | .ok _ =>
    let a := found.state
    ⟨(a.hold ref request.resource.id none a.time).ticked, .ok none⟩

/-- The first section of `Acquire`.  Without a result the call goes on: to
`raise` when it enrolled an action, to `QueryAction` when the request was known
already. -/
def acquire (request : AcquireRequest) : Outcome (Option ActionResult) :=
  (a.healthyLocked false true).andThen fun a _ =>
  let a := a.expireSessionsNow
  (⟨a, a.ownerLocked request.owner⟩ : Outcome OwnerRecord).andThen fun a o =>
  if !request.valid a.options then
    ⟨a, .error (fail .invalid "invalid acquisition intent")⟩
  else
    match a.actionRecords.get? ⟨request.owner.owner, request.request⟩ with
    | some previous =>
      if previous.tombstone then ⟨a, .ok none⟩
      else if previous.receipt.kind ≠ .acquire ∨
          previous.receipt.acquire ≠ some request then
        ⟨a, .error
          (fail .requestMismatch "request ID has a different intent")⟩
      else ⟨a, .ok none⟩
    | none =>
      if a.fullHistory o then
        ⟨a, .error (fail .capacity "action history capacity exhausted")⟩
      else a.enrollAcquire o request

def enrollRenew (request : RenewRequest) : Outcome (Option ActionResult) :=
  let ref : ActionRef := ⟨request.owner.owner, request.request⟩
  let receipt : ActionReceipt := {
    kind := .renew
    request := request.request
    acquire := none
    renew := some request
    outcome := .pending
    code := none
    grant := none
    deadlineMillis := 0
    revision := 0 }
  let a := (a.enroll ref (.enrolled receipt false)).touchLocked o
  let found := a.grantLockedForOwner o request.grant
  match found.result with
  | .error fault => found.state.rejectEnrolled o ref fault
  | .ok g =>
    if g.state ≠ .active then
      found.state.rejectEnrolled o ref
        (fail .staleGrant "grant is not active")
    else
      ⟨found.state.hold ref g.resource (some request.grant.id) 0, .ok none⟩

def renew (request : RenewRequest) : Outcome (Option ActionResult) :=
  (a.healthyLocked false true).andThen fun a _ =>
  let a := a.expireSessionsNow
  (⟨a, a.ownerLocked request.owner⟩ : Outcome OwnerRecord).andThen fun a o =>
  if !request.valid a.options then
    ⟨a, .error (fail .invalid "invalid renewal intent")⟩
  else
    match a.actionRecords.get? ⟨request.owner.owner, request.request⟩ with
    | some previous =>
      if previous.receipt.kind ≠ .renew ∨
          previous.receipt.renew ≠ some request then
        ⟨a, .error
          (fail .requestMismatch "request ID has a different intent")⟩
      else ⟨a, .ok none⟩
    | none =>
      if a.fullHistory o then
        ⟨a, .error (fail .capacity "action history capacity exhausted")⟩
      else a.enrollRenew o request

/-! ## Raising the durable maximum -/

/-- Where a call stands and which action it works for. -/
def phase? : Job → Option (ActionRef × Phase)
  | .call ref =>
    ((a.actionRecords.get? ref).bind ActionRecord.call).map (ref, ·)
  | .worker id => (a.resourceRecords.get? id).bind (·.worker.attempt)

variable (job : Job)

def setPhase (ref : ActionRef) (phase : Phase) : Authority :=
  { a with
    actionRecords := match job with
      | .call _ => a.actionRecords.modify ref ({ · with call := some phase })
      | .worker _ => a.actionRecords
    resourceRecords := match job with
      | .call _ => a.resourceRecords
      | .worker id => a.resourceRecords.modify id
          ({ · with worker := .attempting ref phase }) }

def ttl (ref : ActionRef) : Duration :=
  match a.actionRecords.get? ref with
  | none => 0
  | some action =>
    match action.receipt.acquire, action.receipt.renew with
    | some request, _ => request.ttl
    | none, some request => request.ttl
    | none, none => 0

/-- The head of `raise`, which runs once `raiseMu` is free. -/
def raise (job : Job) (cancelled : Bool) : Authority :=
  match a.phase? job with
  | some (ref, .raising) =>
    if a.raising.isSome then a
    else
      match (a.healthyLocked cancelled false).result with
      | .error fault => a.setPhase job ref (.leaving (some fault))
      | .ok () =>
        if a.ttl ref ≤ a.watermark then a.setPhase job ref .raised
        else { a with raising := some job }.setPhase job ref .persisting
  | _ => a

/-- `RaiseMaxLease` returns.  A call that fails may have stored the maximum. -/
def persist (job : Job) (stored : Bool) (err : Option Fault) : Authority :=
  match a.phase? job with
  | some (ref, .persisting) =>
    match err with
    | none =>
      { a with durable := max a.durable (a.ttl ref) }.setPhase job ref
        .persisted
    | some _ =>
      { a with
        durable :=
          if stored then max a.durable (a.ttl ref) else a.durable
        raising := none }.setPhase job ref
          (.leaving (some (fail .unavailable "persist lease duration")))
  | _ => a

/-- The last lines of `raise`. -/
def advance : Authority :=
  match a.phase? job with
  | some (ref, .persisted) =>
    { a with watermark := a.ttl ref, raising := none }.setPhase job ref
      .raised
  | _ => a

/-! ## Inside `Guard` -/

variable (ref : ActionRef)

def enqueue (id : ResourceID) (waitUntil : Time) : Authority :=
  { a with
    actionRecords := a.actionRecords.modify ref
      ({ · with waitUntil := some waitUntil })
    resourceRecords := a.resourceRecords.modify id
      fun r => { r with queue := r.queue ++ [ref] }
    queued := a.queued + 1
    owners := a.owners.modify ref.owner
      fun o => { o with queued := o.queued + 1 } }

/-- Grant, queue or refuse an acquisition on a resource whose expired grants are
gone. -/
def acquireDecision (o : OwnerRecord)
    (id : ResourceID) (r : ResourceRecord) (request : AcquireRequest)
    (started : Time) : Outcome Unit :=
  if r.grants.any fun g =>
      (a.grantRecords.get? g).any fun g => g.owner = ref.owner then
    ⟨a, .error (fail .alreadyHeld "owner already holds this resource")⟩
  else if !r.busy && r.queue.isEmpty &&
      a.compatibleLocked r ref.owner request.mode then
    a.grantLocked ref o id request
  else if request.wait = 0 then
    ⟨a, .error
      (fail .conflict "resource has conflicting holders or earlier waiters")⟩
  else if a.options.maxQueued ≤ a.queued ∨
      a.options.queuedPerOwner ≤ o.queued ∨
      a.options.queuedPerResource ≤ r.queue.length then
    ⟨a, .error (fail .capacity "acquisition queue capacity exhausted")⟩
  else if started + request.wait ≤ a.time then
    ⟨a.ticked.finishLocked ref .timedOut none, .ok ()⟩
  else
    ⟨(a.ticked.enqueue ref id (started + request.wait)).startWorkerLocked id,
      .ok ()⟩

def acquireGuard (id : ResourceID)
    (request : AcquireRequest) (started : Time) (cancelled : Bool) : Outcome Unit :=
  (a.healthyLocked cancelled true).andThen fun a _ =>
  let a := a.expireSessionsNow
  if (a.owners.get? ref.owner).isNone then
    ⟨a, .error (fail .retired "owner history is retired")⟩
  else if (a.resourceRecords.get? id).any ResourceRecord.retired then
    ⟨a, .error (fail .staleResource "resource is retired")⟩
  else
    let a := a.ticked.expireGrantsLocked id a.time
    match a.owners.get? ref.owner, a.resourceRecords.get? id with
    | some o, some r => a.acquireDecision ref o id r request started
    | _, _ => ⟨a, .ok ()⟩

/-- The updates of `Renew` on a grant that it extends. -/
def extendGrant (grant : GrantID) (g : GrantRecord) (request : RenewRequest) : Authority :=
  let deadline := max g.deadline (a.time + request.ttl)
  { a with
    reads := a.reads + 1
    grantRecords := a.grantRecords.modify grant fun g =>
      { g with deadline, revision := g.revision + 1 }
    actionRecords := a.actionRecords.modify ref fun action =>
      { action with
        receipt := { action.receipt with
          grant := some g.ref
          deadlineMillis := a.tick deadline
          revision := g.revision + 1 } } }

def renewGuard (id : ResourceID) (grant : GrantID) (request : RenewRequest) (cancelled : Bool) :
    Outcome Unit :=
  (a.healthyLocked cancelled true).andThen fun a _ =>
  let a := a.expireSessionsNow
  if (a.owners.get? ref.owner).isNone then
    ⟨a, .error (fail .retired "owner history is retired")⟩
  else
    let a := a.ticked.expireGrantsLocked id a.time
    match a.owners.get? ref.owner, a.resourceRecords.get? id,
        a.grantRecords.get? grant with
    | some o, some r, some g =>
      if r.retired ∨ g.state ≠ .active then
        ⟨a, .error (fail .staleGrant
          "grant expired or was retired during renewal")⟩
      else if g.deadline ≤ a.time then
        ⟨a.ticked, .error (fail .staleGrant
          "grant expired or was retired during renewal")⟩
      else if r.busy then
        ⟨a.ticked, .error
          (fail .conflict "resource publication has not completed")⟩
      else
        ⟨((a.ticked.extendGrant ref grant g request).finishLocked ref .renewed
          none).touchLocked o, .ok ()⟩
    | _, _, _ => ⟨a, .ok ()⟩

/-- The callback of a queue worker for the head of its queue. -/
def workerGuard (id : ResourceID)
    (request : AcquireRequest) (waitUntil : Option Time) (cancelled : Bool) : Outcome Unit :=
  (a.healthyLocked cancelled true).andThen fun a _ =>
  let a := a.expireSessionsNow
  if (a.owners.get? ref.owner).isNone then
    ⟨a, .error (fail .retired "owner history is retired")⟩
  else if (a.resourceRecords.get? id).any ResourceRecord.retired then
    ⟨a, .error (fail .staleResource "resource is retired")⟩
  else
    let now := a.time
    let a := a.ticked.expireGrantsLocked id now
    if !waitUntil.any (now < ·) then
      ⟨a.finishLocked ref .timedOut none, .ok ()⟩
    else
      match a.owners.get? ref.owner, a.resourceRecords.get? id with
      | some o, some r =>
        if r.queue.head? = some ref ∧ !r.busy ∧
            a.compatibleLocked r ref.owner request.mode then
          a.grantLocked ref o id request
        else ⟨a, .ok ()⟩
      | _, _ => ⟨a, .ok ()⟩

/-- The callback that a job runs inside `Guard`.  The context of a worker ends
when the authority is closed. -/
def callback (job : Job) (ref : ActionRef) (cancelled : Bool) : Outcome Unit :=
  match a.actionRecords.get? ref with
  | none => ⟨a, .ok ()⟩
  | some action =>
    if action.receipt.outcome ≠ .pending then ⟨a, .ok ()⟩
    else
      match job, action.receipt.acquire, action.receipt.renew,
          action.resource, action.grant with
      | .call _, some request, _, some id, _ =>
        a.acquireGuard ref id request action.started cancelled
      | .call _, none, some request, some id, some grant =>
        a.renewGuard ref id grant request cancelled
      | .worker id, some request, _, _, _ =>
        a.workerGuard ref id request action.waitUntil a.closed
      | _, _, _, _, _ => ⟨a, .ok ()⟩

/-- `Guard` runs the callback or refuses the target, and may fail afterwards. -/
def guard (ran cancelled : Bool) (err : Option Fault) : Authority :=
  match a.phase? job with
  | some (ref, .raised) =>
    if ran then
      let o := (a.setPhase job ref .guarding).callback job ref cancelled
      o.state.setPhase job ref (.leaving (err <|> o.fault?))
    else a.setPhase job ref (.leaving err)
  | _ => a

/-! ## Leaving -/

/-- `processing = false` and `holds--` at the end of a call. -/
def unhold (ref : ActionRef) : Authority :=
  { a with
    actionRecords := match job with
      | .call _ => a.actionRecords.modify ref
          ({ · with processing := false, call := none })
      | .worker _ => a.actionRecords.modify ref ({ · with processing := false })
    resourceRecords := match job with
      | .call _ => a.resourceRecords.modify
          (((a.actionRecords.get? ref).bind ActionRecord.resource).getD 0)
          fun r => { r with holds := r.holds - 1 }
      | .worker id => a.resourceRecords.modify id
          fun r => { r with holds := r.holds - 1, worker := .looping } }

/-- The final section of `Acquire`, of `Renew` and of a worker's attempt. -/
def leave : Authority :=
  match a.phase? job with
  | some (ref, .leaving err) =>
    let a := a.unhold job ref
    match err with
    | none => a
    | some fault =>
      if (a.actionRecords.get? ref).any (·.receipt.outcome = .pending) then
        (a.modifyAction ref ({ · with failure := some fault })).finishLocked
          ref .rejected (some fault.code)
      else a
  | _ => a

/-! ## The queue worker -/

def attempt (id : ResourceID) (current : ActionRef) : Authority :=
  { a with
    actionRecords := a.actionRecords.modify current
      ({ · with processing := true })
    resourceRecords := a.resourceRecords.modify id fun r =>
      { r with holds := r.holds + 1, worker := .attempting current .raising } }

def ready (r : ResourceRecord) (current : ActionRef) : Bool :=
  !r.busy && (((a.actionRecords.get? current).bind (·.receipt.acquire)).any
    fun request => a.compatibleLocked r current.owner request.mode)

/-- The head of the worker's loop. -/
def work (id : ResourceID) : Authority :=
  match a.resourceRecords.get? id with
  | none => a
  | some r =>
    if r.worker ≠ .looping then a
    else if a.closed ∨ a.fenced.isSome ∨ r.queue = [] then
      a.modifyResource id ({ · with worker := .returning })
    else
      let now := a.time
      let a := (a.ticked.expireGrantsLocked id now).expireQueuedLocked id now
      match a.resourceRecords.get? id with
      | none => a
      | some r =>
        match r.queue.head? with
        | none => a.modifyResource id ({ · with worker := .returning })
        | some current =>
          if a.ready r current then a.attempt id current else a

/-- The deferred function of a worker that has left its loop. -/
def stop (id : ResourceID) : Authority :=
  match a.resourceRecords.get? id with
  | none => a
  | some r =>
    if r.worker = .returning then
      a.modifyResource id ({ · with worker := .stopped })
    else a

/-! ## Queries, release and cancellation -/

def grantBusy (grant : Option GrantID) : Bool :=
  (grant.bind a.grantRecords.get?).any fun g => a.busy g.resource

/-- The part of `QueryAction` after its lookups. -/
def reportAction (o : OwnerRecord) (ref : ActionRef)
    (action : ActionRecord) : Outcome (Turn ActionResult) :=
  let a :=
    if action.receipt.outcome = .pending ∧ action.waitUntil.isSome then
      if action.waitUntil.any (a.time < ·) then a.ticked
      else a.ticked.finishLocked ref .timedOut none
    else a
  let a := a.touchLocked o
  match a.actionRecords.get? ref with
  | none => ⟨a, .ok .waiting⟩
  | some action =>
    let (a, result) := a.actionResultLocked o action
    ⟨a, .ok (.done result)⟩

def queryAction (ref : OwnerRef) (request : RequestID) : Outcome (Turn ActionResult) :=
  (a.healthyLocked false false).andThen fun a _ =>
  let a := a.expireSessionsNow
  (⟨a, a.ownerLocked ref⟩ : Outcome OwnerRecord).andThen fun a o =>
  if !requestValid request a.options.maxRequestBytes then
    ⟨a, .error (fail .invalid "invalid action request ID")⟩
  else
    match a.actionRecords.get? ⟨ref.owner, request⟩ with
    | none =>
      ⟨a, .error (fail .outcomeUnknown
        "action was not observed; a delayed request may still be admitted")⟩
    | some action =>
      if a.grantBusy action.grant then ⟨a, .ok .waiting⟩
      else a.reportAction o ⟨ref.owner, request⟩ action

def queryGrant (ref : OwnerRef) (grant : GrantRef) : Outcome (Turn GrantStatus) :=
  (a.healthyLocked false false).andThen fun a _ =>
  let a := a.expireSessionsNow
  (⟨a, a.ownerLocked ref⟩ : Outcome OwnerRecord).andThen fun a o =>
  (a.grantLockedForOwner o grant).andThen fun a g =>
  if a.busy g.resource then ⟨a, .ok .waiting⟩
  else
    let (a, status) := (a.touchLocked o).grantStatusLocked grant.id
    match status with
    | none => ⟨a, .ok .waiting⟩
    | some status => ⟨a, .ok (.done status)⟩

/-- The first release of a grant ends it and records the state it left. -/
def recordRelease (id : GrantID) (g : GrantRecord) : Authority :=
  if g.release.isSome then a
  else
    let a := a.endGrantLocked id .released
    { a with grantRecords := a.grantRecords.modify id fun g =>
        { g with release := some g.state } }

def release (ref : OwnerRef) (grant : GrantRef) : Outcome (Turn ReleaseResult) :=
  (a.healthyLocked false false).andThen fun a _ =>
  let a := a.expireSessionsNow
  (⟨a, a.ownerLocked ref⟩ : Outcome OwnerRecord).andThen fun a o =>
  (a.grantLockedForOwner o grant).andThen fun a g =>
  if a.busy g.resource then ⟨a, .ok .waiting⟩
  else
    let a := (a.recordRelease grant.id g).touchLocked o
    let (a, status) := a.grantStatusLocked grant.id
    match status, (a.grantRecords.get? grant.id).bind GrantRecord.release with
    | some grant, some state =>
      ⟨a.ticked, .ok (.done {
        state
        grant
        nowMillis := a.tick a.time
        historyExpiresMillis := a.tick (a.sessionExpires o.ref.session) })⟩
    | _, _ => ⟨a, .ok .waiting⟩

/-- The grant of a cancelled acquisition is released. -/
def releaseCancelled (grant : Option GrantID) : Authority × Bool :=
  match grant with
  | none => (a, false)
  | some id =>
    match a.grantRecords.get? id with
    | none => (a, false)
    | some g =>
      let a := a.ticked.expireGrantsLocked g.resource a.time
      if (a.grantRecords.get? id).any (·.state = .active) then
        (a.endGrantLocked id .released, true)
      else (a, false)

/-- The first cancellation of an action, recorded in the action. -/
def recordCancel (ref : ActionRef) (action : ActionRecord) : Authority :=
  if action.cancel.isSome then a
  else
    let a := a.finishLocked ref .cancelled none
    let (a, released) := a.releaseCancelled action.grant
    a.modifyAction ref fun action =>
      { action with cancel := some ⟨action.receipt.outcome, released⟩ }

/-- `Cancel` on an action that exists. -/
def cancelAction (o : OwnerRecord) (ref : ActionRef)
    (action : ActionRecord) : Outcome (Turn CancelResult) :=
  if action.receipt.kind ≠ .acquire then
    ⟨a, .error (fail .requestMismatch "request ID identifies a renewal")⟩
  else if a.grantBusy action.grant then ⟨a, .ok .waiting⟩
  else
    let a := (a.recordCancel ref action).touchLocked o
    match (a.actionRecords.get? ref).bind ActionRecord.cancel with
    | none => ⟨a, .ok .waiting⟩
    | some record =>
      ⟨a.ticked, .ok (.done {
        outcome := record.outcome
        released := record.released
        nowMillis := a.tick a.time
        historyExpiresMillis := a.tick (a.sessionExpires o.ref.session) })⟩

/-- The action that `Cancel` records for a request it has not seen. -/
def tombstone (request : RequestID) : ActionRecord :=
  .enrolled {
    kind := .acquire
    request
    acquire := none
    renew := none
    outcome := .cancelled
    code := none
    grant := none
    deadlineMillis := 0
    revision := 0 } true

def cancel (ref : OwnerRef) (request : RequestID) : Outcome (Turn CancelResult) :=
  (a.healthyLocked false false).andThen fun a _ =>
  let a := a.expireSessionsNow
  (⟨a, a.ownerLocked ref⟩ : Outcome OwnerRecord).andThen fun a o =>
  if !requestValid request a.options.maxRequestBytes then
    ⟨a, .error (fail .invalid "invalid cancellation request ID")⟩
  else
    match a.actionRecords.get? ⟨ref.owner, request⟩ with
    | some action => a.cancelAction o ⟨ref.owner, request⟩ action
    | none =>
      if a.fullHistory o then
        ⟨a, .error (fail .outcomeUnknown
          "cancellation history capacity exhausted")⟩
      else
        (a.enroll ⟨ref.owner, request⟩ (tombstone request)).cancelAction o
          ⟨ref.owner, request⟩ (tombstone request)

/-! ## Publication -/

def scopeOwner (scope : MutationScope) : Except Fault (Option OwnerRecord) :=
  if scope.owner.owner = 0 then .ok none
  else
    match a.ownerLocked scope.owner with
    | .error fault => .error fault
    | .ok o => .ok (some o)

/-- The loop over the targets: the distinct keys and the resources listed under
them. -/
def admitTargets (keys : List BackendKey) (resources : List ResourceID) :
    List BackendKey → Authority → Outcome (List BackendKey × List ResourceID)
  | [], a => ⟨a, .ok (keys, resources)⟩
  | key :: rest, a =>
    if key = [] then
      ⟨a, .error (fail .invalid "publication contains an empty target")⟩
    else if key ∈ keys then admitTargets keys resources rest a
    else
      match a.keys.get? key with
      | none => admitTargets (key :: keys) resources rest a
      | some id =>
        if a.busy id then
          ⟨a, .error (fail .unavailable
            "backend publication ordering was violated")⟩
        else
          admitTargets (key :: keys) (resources ++ [id]) rest
            (a.ticked.expireGrantsLocked id a.time)

/-- The loop over the proofs of the scope. -/
def checkProofs (o : OwnerRecord) (keys : List BackendKey) (proofs : Table ResourceID GrantID) :
    List GrantRef → Authority → Outcome (Table ResourceID GrantID)
  | [], a => ⟨a, .ok proofs⟩
  | proof :: rest, a =>
    (a.grantLockedForOwner o proof).andThen fun a g =>
    match a.resourceRecords.get? g.resource with
    | none => ⟨a, .error (fail .staleGrant "mutation grant is not active")⟩
    | some r =>
      if g.state ≠ .active ∨ r.retired then
        ⟨a, .error (fail .staleGrant "mutation grant is not active")⟩
      else if g.deadline ≤ a.time then
        ⟨a.ticked, .error (fail .staleGrant "mutation grant is not active")⟩
      else if r.key ∉ keys then
        ⟨a.ticked, .error (fail .unrelatedProof
          "mutation grant does not protect an affected resource")⟩
      else
        checkProofs o keys (proofs.set proof.resource proof.id) rest a.ticked

variable (a : Authority)

def scopeProofs (owner : Option OwnerRecord) (keys : List BackendKey) (grants : List GrantRef) :
    Outcome (Table ResourceID GrantID) :=
  match owner with
  | none => ⟨a, .ok .empty⟩
  | some o => checkProofs o keys .empty grants a

/-- A target without live grants needs no proof; another needs an exclusive
grant of the scope's owner. -/
def covered (owner : Option OwnerRecord)
    (proofs : Table ResourceID GrantID) (id : ResourceID) : Bool :=
  (a.liveGrants id).isEmpty ||
    (((proofs.get? id).bind a.grantRecords.get?).any fun g =>
      decide (some g.owner = owner.map (·.ref.owner) ∧ g.mode = .exclusive))

/-- Every proof still holds at the admission time. -/
def unexpired (proofs : Table ResourceID GrantID) (admission : Time) : Bool :=
  proofs.toList.all fun entry =>
    (a.grantRecords.get? entry.2).all fun g => admission < g.deadline

def setBusy (flag : Bool) (records : Table ResourceID ResourceRecord)
    (id : ResourceID) : Table ResourceID ResourceRecord :=
  records.modify id ({ · with busy := flag })

def launch (keys : List BackendKey) (resources : List ResourceID) : Authority :=
  { a with
    resourceRecords := resources.foldl (setBusy true) a.resourceRecords
    lastToken := a.lastToken + 1
    flights := a.flights.set (a.lastToken + 1) { resources, keys }
    publications := a.publications + 1 }

/-- The end of `completePublication`. -/
def land (flight : ℕ) (f : Flight) : Authority :=
  { a with
    resourceRecords := f.resources.foldl (setBusy false) a.resourceRecords
    flights := a.flights.erase flight
    publications := a.publications - 1 }

/-- `Publish` up to the start of the transition; the result names the
publication in `flights`. -/
def publish (publication : Publication) : Outcome ℕ :=
  if 2 < publication.targets.length then
    ⟨a, .error (fail .invalid "publication target limit exceeded")⟩
  else if publication.kind = .other then
    ⟨a, .error (fail .invalid "unknown mutation kind")⟩
  else
    (⟨a, validateScope publication.scope a.options.maxProofs⟩ :
      Outcome Unit).andThen fun a _ =>
    (a.healthyLocked false true).andThen fun a _ =>
    let a := a.expireSessionsNow
    (⟨a, a.scopeOwner publication.scope⟩ :
      Outcome (Option OwnerRecord)).andThen fun a owner =>
    (admitTargets [] [] publication.targets a).andThen fun a found =>
    (a.scopeProofs owner found.1 publication.scope.grants).andThen
      fun a proofs =>
    if !found.2.all (a.covered owner proofs) then
      ⟨a, .error (fail .conflict
        "mutation lacks an exclusive grant for a protected resource")⟩
    else if !a.unexpired proofs a.time then
      ⟨a.ticked, .error (fail .staleGrant
        "mutation grant expired before publication admission")⟩
    else ⟨a.ticked.launch found.1 found.2, .ok (a.lastToken + 1)⟩

def fence (err : Fault) : Authority :=
  { a with fenced := a.fenced <|> some err }

/-- A target that the publication removed: its grants end and its queue is
refused. -/
def retireTarget (key : BackendKey) : Authority :=
  match a.keys.get? key with
  | none => a
  | some id =>
    let a := a.ticked.modifyResource id
      ({ · with retired := true, referenceUntil := a.time })
    let a := (a.liveGrants id).foldl
      (fun a grant => a.endGrantLocked grant .targetGone) a
    (a.queue id).foldl
      (fun a ref => a.finishLocked ref .rejected (some .staleResource)) a

/-- The outcome that `completePublication` works with: one that retires an
undeclared target is not known. -/
def declaredOutcome (f : Flight) (outcome : PublicationOutcome) : PublicationOutcome :=
  if outcome.retired.all (· ∈ f.keys) then outcome
  else
    let text := "publication retired an undeclared target"
    { outcome with
      known := false
      err := some (fail .unavailable
        ((outcome.err.map fun e => e.message ++ "\n" ++ text).getD text)) }

def completePublication (flight : ℕ) (outcome : PublicationOutcome) : Authority :=
  match a.flights.get? flight with
  | none => a
  | some f =>
    let outcome := declaredOutcome f outcome
    let a :=
      if outcome.known then outcome.retired.foldl retireTarget a
      else a.fence (outcome.err.getD
        (fail .unavailable "publication outcome is unknown"))
    a.land flight f

/-! ## Maintenance and closing -/

/-- One resource of the maintenance loop. -/
def tend (now : Time) (a : Authority) (id : ResourceID) : Authority :=
  let a := ((a.expireGrantsLocked id now).expireQueuedLocked id
    now).startWorkerLocked id
  match a.resourceRecords.get? id with
  | none => a
  | some r =>
    if !r.forgetting ∧ r.referenceUntil ≤ now ∧ r.grants = [] ∧
        r.queue = [] ∧ !r.busy ∧ r.worker = .stopped ∧ r.holds = 0 then
      a.modifyResource id ({ · with forgetting := true })
    else a

variable (a : Authority)

def maintain : Authority :=
  if a.closed then a
  else
    let now := a.time
    let a := a.ticked.expireSessionsLocked now
    a.resources.foldl (tend now) a

/-- `Forget` has returned for a resource that the maintenance loop gave up. -/
def forgotten (id : ResourceID) (err : Option Fault) : Authority :=
  match (a.resourceRecords.get? id).filter fun r =>
      r.forgetting && a.resources.contains id with
  | none => a
  | some r =>
    match err with
    | some fault => { a with fenced := some fault }
    | none =>
      { a with
        keys := a.keys.erase r.key
        resources := a.resources.erase id }

def close : Authority := { a with closed := true }

def drain : Authority :=
  if a.closed && a.flights.toList.isEmpty &&
      (a.actionRecords.toList.all fun entry => entry.2.call.isNone) &&
      (a.resourceRecords.toList.all fun entry =>
        decide (entry.2.worker = .stopped)) then
    { a with resources := [], keys := .empty }
  else a

end Authority

/-! ## Runs -/

inductive Step where
  | openSession (ticket : EnrollmentTicket)
  | createOwner (id : SessionID) (request : RequestID)
  | retireOwner (ref : OwnerRef)
  | closeSession (id : SessionID)
  | resolve (ref : OwnerRef)
  | discover (ref : OwnerRef) (key : BackendKey) (cancelled : Bool)
  | acquire (request : AcquireRequest)
  | renew (request : RenewRequest)
  | raise (job : Job) (cancelled : Bool)
  | persist (job : Job) (stored : Bool) (err : Option Fault)
  | advance (job : Job)
  | guard (job : Job) (ran cancelled : Bool) (err : Option Fault)
  | leave (job : Job)
  | work (id : ResourceID)
  | stop (id : ResourceID)
  | queryAction (ref : OwnerRef) (request : RequestID)
  | queryGrant (ref : OwnerRef) (grant : GrantRef)
  | release (ref : OwnerRef) (grant : GrantRef)
  | cancel (ref : OwnerRef) (request : RequestID)
  | publish (publication : Publication)
  | complete (flight : ℕ) (outcome : PublicationOutcome)
  | fence (err : Fault)
  | maintain
  | forgotten (id : ResourceID) (err : Option Fault)
  | close
  | drain

/-- One section of some call under the authority mutex. -/
def exec (a : Authority) : Step → Authority
  | .openSession ticket => (a.openSession ticket).state
  | .createOwner id request => (a.createOwner id request).state
  | .retireOwner ref => (a.retireOwner ref).state
  | .closeSession id => (a.closeSession id).state
  | .resolve ref => (a.resolve ref).state
  | .discover ref key cancelled => (a.discover ref key cancelled).state
  | .acquire request => (a.acquire request).state
  | .renew request => (a.renew request).state
  | .raise job cancelled => a.raise job cancelled
  | .persist job stored err => a.persist job stored err
  | .advance job => a.advance job
  | .guard job ran cancelled err => a.guard job ran cancelled err
  | .leave job => a.leave job
  | .work id => a.work id
  | .stop id => a.stop id
  | .queryAction ref request => (a.queryAction ref request).state
  | .queryGrant ref grant => (a.queryGrant ref grant).state
  | .release ref grant => (a.release ref grant).state
  | .cancel ref request => (a.cancel ref request).state
  | .publish publication => (a.publish publication).state
  | .complete flight outcome => a.completePublication flight outcome
  | .fence err => a.fence err
  | .maintain => a.maintain
  | .forgotten id err => a.forgotten id err
  | .close => a.close
  | .drain => a.drain

end RemoteFs.Locking
