import RemoteFs.Lib.Table
import RemoteFs.Locking.Types

/-!
# The lease authority

The state of `packages/locking/authority.go` and the functions that run under
its mutex.

Action, grant and resource objects are reached through pointers from several
places, so they live in heaps: an action is named by its owner and request, a
grant by its generation, and neither heap ever loses an entry.  `resources` and
`keys` say which resource objects the authority still lists.  An owner object
is stored while it is registered; after its retirement its callers only compare
it with the registered one.  A session's owners are the registered owners that
carry its token.

A call that leaves the mutex (`Acquire`, `Renew`, the queue worker) keeps its
place in the program as a `Phase`, in the action for a call and in the resource
for its worker; `raising` names the holder of `raiseMu`.  `durable` is what the
persistence holds.  The clock is a sequence of readings of which the first
`reads` have been used.  `issued` is a history variable: no function reads it.
-/

namespace RemoteFs.Locking

open Storage

structure ActionRef where
  owner : OwnerID
  request : RequestID
  deriving DecidableEq, Repr

/-- The place of a call between its sections under the mutex: about to call
`raise`, inside `RaiseMaxLease`, after it, about to run the `Guard` callback,
inside the callback, and before the final section with the error found so far. -/
inductive Phase where
  | raising
  | persisting
  | persisted
  | raised
  | guarding
  | leaving (err : Option Fault)
  deriving DecidableEq

/-- The goroutine of a resource queue; `returning` has left the loop but has
not yet cleared the flag that says it runs. -/
inductive Worker where
  | stopped
  | looping
  | attempting (action : ActionRef) (phase : Phase)
  | returning
  deriving DecidableEq

/-- The action that a worker works for and the place it has reached. -/
def Worker.attempt : Worker → Option (ActionRef × Phase)
  | .attempting action phase => some (action, phase)
  | .stopped | .looping | .returning => none

structure SessionRecord where
  expires : Time
  creates : Table RequestID OwnerID

structure OwnerRecord where
  ref : OwnerRef
  actions : List RequestID
  grants : List GrantID
  liveGrants : ℤ
  queued : ℤ

structure CancelRecord where
  outcome : ActionOutcome
  released : Bool

/-- `waitUntil` is `none` for the zero time, `started` is the local variable of
`Acquire` and `call` the place of the call that enrolled the action. -/
structure ActionRecord where
  receipt : ActionReceipt
  resource : Option ResourceID
  waitUntil : Option Time
  grant : Option GrantID
  cancel : Option CancelRecord
  tombstone : Bool
  processing : Bool
  failure : Option Fault
  started : Time
  call : Option Phase

structure GrantRecord where
  owner : OwnerID
  resource : ResourceID
  ref : GrantRef
  mode : Mode
  state : GrantState
  deadline : Time
  revision : ℕ
  release : Option GrantState

structure ResourceRecord where
  key : BackendKey
  referenceUntil : Time
  grants : List GrantID
  queue : List ActionRef
  busy : Bool
  retired : Bool
  worker : Worker
  holds : ℤ
  forgetting : Bool

structure EnrollmentTicket where
  id : ℕ
  expiryMillis : ℤ
  deriving DecidableEq

structure TicketRecord where
  session : SessionID
  expires : Time

structure Flight where
  resources : List ResourceID
  keys : List BackendKey

inductive Job where
  | call (action : ActionRef)
  | worker (resource : ResourceID)
  deriving DecidableEq

/-- A token with the parent that its signature covers. -/
inductive Capability where
  | ticket (ticket : EnrollmentTicket)
  | session (id : SessionID)
  | owner (session : SessionID) (id : OwnerID)
  | resource (id : ResourceID)
  | grant (owner : OwnerID) (ref : GrantRef)

structure Authority where
  options : Options
  verify : Capability → Except Fault Unit
  now : ℕ → Time
  reads : ℕ
  start : Time
  recoveryUntil : Time
  watermark : Duration
  durable : Duration
  raising : Option Job
  sessions : Table SessionID SessionRecord
  owners : Table OwnerID OwnerRecord
  tickets : Table EnrollmentTicket TicketRecord
  resources : List ResourceID
  keys : Table BackendKey ResourceID
  resourceRecords : Table ResourceID ResourceRecord
  actionRecords : Table ActionRef ActionRecord
  grantRecords : Table GrantID GrantRecord
  lastToken : ℕ
  lastGeneration : ℕ
  actions : ℤ
  grants : ℤ
  queued : ℤ
  publications : ℤ
  flights : Table ℕ Flight
  fenced : Option Fault
  closed : Bool
  issued : List (ActionRef × GrantID)

structure Outcome (α : Type) where
  state : Authority
  result : Except Fault α

def Outcome.andThen {α β : Type} (first : Outcome α)
    (next : Authority → α → Outcome β) : Outcome β :=
  match first.result with
  | .error fault => ⟨first.state, .error fault⟩
  | .ok x => next first.state x

def SessionRecord.extend (s : SessionRecord) (limit : Time) : SessionRecord :=
  if s.expires < limit then { s with expires := limit } else s

def ActionRecord.finished (action : ActionRecord) (outcome : ActionOutcome)
    (code : Option Code) : ActionRecord :=
  { action with receipt := { action.receipt with outcome, code } }

def ActionRecord.grantedWith (action : ActionRecord) (g : GrantRecord)
    (deadlineMillis : ℤ) : ActionRecord :=
  { action with
    grant := some g.ref.id
    receipt := { action.receipt with
      grant := some g.ref
      deadlineMillis
      revision := g.revision } }

def Outcome.fault? {α : Type} (o : Outcome α) : Option Fault :=
  match o.result with
  | .error fault => some fault
  | .ok _ => none

def ActionRecord.enrolled (receipt : ActionReceipt) (tombstone : Bool) : ActionRecord where
  receipt
  resource := none
  waitUntil := none
  grant := none
  cancel := none
  tombstone
  processing := false
  failure := none
  started := 0
  call := none

namespace Authority

def initial (options : Options) (verify : Capability → Except Fault Unit)
    (now : ℕ → Time) (maxLease : Duration) (recoveryStart : Time) : Authority where
  options := options
  verify := verify
  now := now
  reads := 1
  start := now 0
  recoveryUntil := recoveryStart + maxLease
  watermark := maxLease
  durable := maxLease
  raising := none
  sessions := .empty
  owners := .empty
  tickets := .empty
  resources := []
  keys := .empty
  resourceRecords := .empty
  actionRecords := .empty
  grantRecords := .empty
  lastToken := 0
  lastGeneration := 0
  actions := 0
  grants := 0
  queued := 0
  publications := 0
  flights := .empty
  fenced := none
  closed := false
  issued := []

/-- `New` with the durable maximum and the recovery start that the persistence
reports; `none` is the zero time. -/
def new (options : Options) (verify : Capability → Except Fault Unit)
    (now : ℕ → Time) (maxLease : Duration) (recoveryStart : Option Time) :
    Except Fault Authority :=
  match options.validate with
  | .error fault => .error fault
  | .ok () =>
    match recoveryStart with
    | none => .error (fail .invalid "invalid lease recovery interval")
    | some start =>
      if maxLease < 0 then
        .error (fail .invalid "invalid lease recovery interval")
      else .ok (initial options verify now maxLease start)

lemma new_eq_ok {options : Options} {verify : Capability → Except Fault Unit} {now : ℕ → Time}
    {maxLease : Duration} {recoveryStart : Option Time} {a : Authority}
    (hnew : new options verify now maxLease recoveryStart = .ok a) :
    options.Valid ∧ 0 ≤ maxLease ∧ ∃ start, recoveryStart = some start ∧
      a = initial options verify now maxLease start := by
  unfold new at hnew
  split at hnew
  · cases hnew
  rename_i hvalid
  split at hnew
  · cases hnew
  rename_i start
  split_ifs at hnew with hnegative
  cases hnew
  exact ⟨Options.validate_eq_ok_iff.mp hvalid, not_lt.mp hnegative, start, rfl, rfl⟩

/-! ## Clock, health and lookup -/

variable (a : Authority)

/-- The reading that the next call of the clock returns. -/
def time : Time := a.now a.reads

def ticked : Authority := { a with reads := a.reads + 1 }

def tick (t : Time) : ℤ := milliseconds (t - a.start)

def healthyLocked (cancelled admission : Bool) : Outcome Unit :=
  if cancelled then ⟨a, .error canceled⟩
  else if a.closed then ⟨a, .error (fail .retired "authority is closed")⟩
  else if a.fenced.isSome then
    ⟨a, .error (fail .unavailable "authority requires recovery")⟩
  else if !admission then ⟨a, .ok ()⟩
  else if a.time < a.recoveryUntil then
    ⟨a.ticked,
      .error (fail .recovering "lease recovery interval has not elapsed")⟩
  else ⟨a.ticked, .ok ()⟩

def ownerLocked (ref : OwnerRef) : Except Fault OwnerRecord :=
  match a.verify (.session ref.session) with
  | .error fault => .error fault
  | .ok () =>
    match a.verify (.owner ref.session ref.owner) with
    | .error fault => .error fault
    | .ok () =>
      match (a.owners.get? ref.owner).filter (·.ref = ref) with
      | none => .error (fail .retired "owner history is retired")
      | some o => .ok o

variable (id : SessionID)

def sessionLocked : Except Fault SessionRecord :=
  match a.verify (.session id) with
  | .error fault => .error fault
  | .ok () =>
    match a.sessions.get? id with
    | none => .error (fail .retired "session history is retired")
    | some s => .ok s

def sessionOwners : List OwnerID :=
  (a.owners.toList.filter fun entry => entry.2.ref.session = id).map Prod.fst

def sessionExpires : Time :=
  ((a.sessions.get? id).map SessionRecord.expires).getD 0

def busy (id : ResourceID) : Bool :=
  ((a.resourceRecords.get? id).map ResourceRecord.busy).getD false

def queue (id : ResourceID) : List ActionRef :=
  ((a.resourceRecords.get? id).map ResourceRecord.queue).getD []

def liveGrants (id : ResourceID) : List GrantID :=
  ((a.resourceRecords.get? id).map ResourceRecord.grants).getD []

/-! ## Sessions -/

def touchSessionLocked (id : SessionID) : Authority :=
  { a with
    reads := a.reads + 1
    sessions := a.sessions.modify id
      (SessionRecord.extend · (a.time + a.options.sessionIdle)) }

def touchLocked (o : OwnerRecord) : Authority :=
  a.touchSessionLocked o.ref.session

/-! ## Grants -/

def modifyResource (id : ResourceID) (change : ResourceRecord → ResourceRecord) : Authority :=
  { a with resourceRecords := a.resourceRecords.modify id change }

def modifyAction (ref : ActionRef) (change : ActionRecord → ActionRecord) : Authority :=
  { a with actionRecords := a.actionRecords.modify ref change }

/-- The updates of `endGrantLocked` on an active grant. -/
def endActive (id : GrantID) (g : GrantRecord) (state : GrantState) : Authority :=
  { a with
    grantRecords := a.grantRecords.modify id ({ · with state })
    grants := a.grants - 1
    owners := a.owners.modify g.owner
      fun o => { o with liveGrants := o.liveGrants - 1 }
    resourceRecords := a.resourceRecords.modify g.resource
      fun r => { r with grants := r.grants.erase id } }

def endGrantLocked (id : GrantID) (state : GrantState) : Authority :=
  match a.grantRecords.get? id with
  | none => a
  | some g => if g.state ≠ .active then a else a.endActive id g state

/-- One pass of the loop of `expireGrantsLocked`. -/
def expireGrant (now : Time) (a : Authority) (id : GrantID) : Authority :=
  match a.grantRecords.get? id with
  | none => a
  | some g => if now < g.deadline then a else a.endGrantLocked id .expired

variable (a : Authority)

def expireGrantsLocked (id : ResourceID) (now : Time) : Authority :=
  if a.busy id then a else (a.liveGrants id).foldl (expireGrant now) a

/-! ## Actions -/

/-- `slices.Delete` of an action from the queue of its resource. -/
def dequeue (records : Table ResourceID ResourceRecord) (ref : ActionRef)
    (resource : Option ResourceID) : Table ResourceID ResourceRecord :=
  match resource with
  | none => records
  | some id => records.modify id
      fun r => { r with queue := r.queue.erase ref }

variable (ref : ActionRef)

/-- The updates of `finishLocked` on a pending action: one with a wait limit
leaves its queue. -/
def finishPending (action : ActionRecord)
    (outcome : ActionOutcome) (code : Option Code) : Authority :=
  let waits := action.waitUntil.isSome
  { a with
    queued := if waits then a.queued - 1 else a.queued
    owners :=
      if waits then
        a.owners.modify ref.owner fun o => { o with queued := o.queued - 1 }
      else a.owners
    resourceRecords :=
      if waits then dequeue a.resourceRecords ref action.resource
      else a.resourceRecords
    actionRecords := a.actionRecords.modify ref (·.finished outcome code) }

def finishLocked (outcome : ActionOutcome) (code : Option Code) : Authority :=
  match a.actionRecords.get? ref with
  | none => a
  | some action =>
    if action.receipt.outcome ≠ .pending then a
    else a.finishPending ref action outcome code

/-- The test and the time-out of one entry of `expireQueuedLocked`. -/
def expireEntry (now : Time) : Authority :=
  match a.actionRecords.get? ref with
  | none => a
  | some action =>
    if action.waitUntil.any (now < ·) then a
    else a.finishLocked ref .timedOut none

/-- The loop of `expireQueuedLocked` over the indices below `n`, downwards. -/
def expireQueuedBelow (id : ResourceID) (now : Time) : ℕ → Authority → Authority
  | 0, a => a
  | i + 1, a =>
    expireQueuedBelow id now i
      (match (a.queue id)[i]? with
      | none => a
      | some ref => a.expireEntry ref now)

variable (a : Authority)

def expireQueuedLocked (id : ResourceID) (now : Time) : Authority :=
  expireQueuedBelow id now (a.queue id).length a

def startWorkerLocked (id : ResourceID) : Authority :=
  match a.resourceRecords.get? id with
  | none => a
  | some r =>
    if r.worker ≠ .stopped ∨ r.queue = [] ∨ a.closed ∨ a.fenced.isSome then a
    else a.modifyResource id ({ · with worker := .looping })

/-! ## Retirement -/

def ownerBusyLocked (o : OwnerRecord) : Bool :=
  o.grants.any fun id =>
    ((a.grantRecords.get? id).map fun g => a.busy g.resource).getD false

/-- Removal of an owner record once its actions and grants have ended. -/
def dropOwner (id : OwnerID) (o : OwnerRecord) : Authority :=
  { a with
    actions := a.actions - o.actions.length
    owners := a.owners.erase id }

def retireOwnerLocked (id : OwnerID) : Authority :=
  match a.owners.get? id with
  | none => a
  | some o =>
    let a := o.actions.foldl
      (fun a request => a.finishLocked ⟨id, request⟩ .cancelled none) a
    let a := o.grants.foldl
      (fun a grant => a.endGrantLocked grant .ownerRetired) a
    a.dropOwner id o

def retireSessionLocked (id : SessionID) : Authority :=
  let a := (a.sessionOwners id).foldl retireOwnerLocked a
  { a with sessions := a.sessions.erase id }

def sessionBusy (id : SessionID) : Bool :=
  (a.sessionOwners id).any fun owner =>
    ((a.owners.get? owner).map a.ownerBusyLocked).getD false

/-- One pass of the loop of `expireSessionsLocked`. -/
def expireSession (now : Time) (a : Authority) (id : SessionID) : Authority :=
  match a.sessions.get? id with
  | none => a
  | some s =>
    if now < s.expires then a
    else if a.sessionBusy id then a
    else a.retireSessionLocked id

variable (a : Authority)

def expireSessionsLocked (now : Time) : Authority :=
  let a := { a with
    tickets := a.tickets.filter fun _ ticket => now < ticket.expires }
  (a.sessions.toList.map Prod.fst).foldl (expireSession now) a

/-- `a.expireSessionsLocked(a.clock.Now())`. -/
def expireSessionsNow : Authority :=
  a.ticked.expireSessionsLocked a.time

/-! ## Granting -/

def compatibleLocked (r : ResourceRecord) (owner : OwnerID) (mode : Mode) : Bool :=
  r.grants.all fun id =>
    ((a.grantRecords.get? id).map fun g =>
      decide (g.owner ≠ owner ∧ mode ≠ .exclusive ∧ g.mode ≠ .exclusive)).getD
      true

variable (ref : ActionRef)

def newGrant (id : ResourceID) (request : AcquireRequest) : GrantRecord where
  owner := ref.owner
  resource := id
  ref := ⟨a.lastGeneration + 1, id, a.lastGeneration + 1⟩
  mode := request.mode
  state := .active
  deadline := a.time + request.ttl
  revision := 1
  release := none

/-- The updates of `grantLocked` before the receipt is finished. -/
def insertGrant (id : ResourceID) (request : AcquireRequest) : Authority :=
  let g := a.newGrant ref id request
  { a with
    reads := a.reads + 1
    lastGeneration := a.lastGeneration + 1
    grantRecords := a.grantRecords.set g.ref.id g
    resourceRecords := a.resourceRecords.modify id
      fun r => { r with grants := g.ref.id :: r.grants }
    owners := a.owners.modify ref.owner fun o =>
      { o with grants := g.ref.id :: o.grants, liveGrants := o.liveGrants + 1 }
    grants := a.grants + 1
    actionRecords := a.actionRecords.modify ref
      (·.grantedWith g (a.tick g.deadline))
    issued := (ref, g.ref.id) :: a.issued }

def grantLocked (o : OwnerRecord) (id : ResourceID) (request : AcquireRequest) : Outcome Unit :=
  if a.options.maxGrants ≤ a.grants ∨
      a.options.grantsPerOwner ≤ o.liveGrants then
    ⟨a, .error (fail .capacity "live grant capacity exhausted")⟩
  else if a.lastGeneration = maxUint64 then
    ⟨a, .error (fail .capacity "grant generation exhausted")⟩
  else
    ⟨((a.insertGrant ref id request).finishLocked ref .granted none).touchLocked
      o, .ok ()⟩

/-- The capability check and the lookup of `grantLockedForOwner`, which expires
the grants of the resource before it returns. -/
def grantLockedForOwner (o : OwnerRecord) (ref : GrantRef) : Outcome GrantRecord :=
  match a.verify (.grant o.ref.owner ref) with
  | .error _ => ⟨a, .error (fail .staleGrant "grant capability is invalid")⟩
  | .ok () =>
    match (a.grantRecords.get? ref.id).filter
        fun g => o.grants.contains ref.id && decide (g.ref = ref) with
    | none => ⟨a, .error (fail .staleGrant "grant history is unavailable")⟩
    | some g =>
      let a := a.ticked.expireGrantsLocked g.resource a.time
      ⟨a, .ok ((a.grantRecords.get? ref.id).getD g)⟩

def resourceLocked (ref : ResourceRef) : Outcome ResourceRecord :=
  match a.verify (.resource ref.id) with
  | .error fault => ⟨a, .error fault⟩
  | .ok () =>
    match (a.resourceRecords.get? ref.id).filter fun r =>
        a.resources.contains ref.id && !r.retired && !r.forgetting with
    | none =>
      ⟨a, .error (fail .staleResource "resource reference is retired")⟩
    | some r =>
      if r.referenceUntil ≤ a.time ∨
          ref.expiresMillis ≤ a.tick a.time ∨
          a.tick r.referenceUntil < ref.expiresMillis then
        ⟨a.ticked,
          .error (fail .staleResource "resource reference expired")⟩
      else ⟨a.ticked, .ok r⟩

/-! ## Results -/

def grantStatusLocked (id : GrantID) : Authority × Option GrantStatus :=
  match a.grantRecords.get? id with
  | none => (a, none)
  | some g =>
    let now := a.time
    let a := a.ticked.expireGrantsLocked g.resource now
    (a, (a.grantRecords.get? id).map fun g =>
      { ref := g.ref
        mode := g.mode
        state := g.state
        revision := g.revision
        deadlineMillis := a.tick g.deadline
        remainingMillis :=
          if g.deadline - now < 0 ∨ g.state ≠ .active then 0
          else milliseconds (g.deadline - now)
        nowMillis := a.tick now
        historyExpiresMillis := a.tick (a.sessionExpires
          (((a.owners.get? g.owner).map fun o => o.ref.session).getD 0)) })

def actionResultLocked (o : OwnerRecord) (action : ActionRecord) : Authority × ActionResult :=
  let now := a.time
  let (a, grant) := match action.grant with
    | none => (a.ticked, none)
    | some id => a.ticked.grantStatusLocked id
  (a, { receipt := action.receipt
        grant
        nowMillis := a.tick now
        historyExpiresMillis := a.tick (a.sessionExpires o.ref.session)
        rejection :=
          if action.receipt.outcome = .rejected then
            some { code := action.receipt.code.getD .unavailable
                   message := "management action was rejected"
                   recorded := true }
          else none })

end Authority

end RemoteFs.Locking
