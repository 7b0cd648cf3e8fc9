import Mathlib.Logic.Relation
import RemoteFs.Locking.Operations

/-!
# The moves of the authority

`Move` lists every way in which a section under the authority mutex changes the
state, each with the guard under which the code takes it; every section is a
chain of moves.  Invariants are then proved one move at a time.

A grant ends only while its resource is not held by a publication, except on the
targets that a completing publication retires: `Terms.gone` names these.  What
the clock does between two readings of one section is not visible in the state,
so the one fact about it that an invariant needs is a term as well
(`Terms.prompt`).
-/

namespace RemoteFs.Locking

open Authority

variable {t : Terms} {a : Authority}

/-- The fields of a resource that no bookkeeping of references and workers
touches. -/
structure ResourceRecord.Like (r r' : ResourceRecord) : Prop where
  key : r'.key = r.key
  grants : r'.grants = r.grants
  queue : r'.queue = r.queue
  busy : r'.busy = r.busy
  holds : r'.holds = r.holds
  attempt : r'.worker.attempt = r.worker.attempt

/-- The fields of an action that its bookkeeping keeps. -/
structure ActionRecord.Like (action action' : ActionRecord) : Prop where
  receipt : action'.receipt = action.receipt
  resource : action'.resource = action.resource
  waitUntil : action'.waitUntil = action.waitUntil
  grant : action'.grant = action.grant
  started : action'.started = action.started
  call : action'.call = action.call

/-- The request of a receipt has passed its validation. -/
structure ActionReceipt.Intent (receipt : ActionReceipt) (o : Options) : Prop where
  acquire : ∀ request, receipt.acquire = some request → receipt.kind = .acquire ∧
      (request.mode = .shared ∨ request.mode = .exclusive) ∧
      request.ttl ≤ o.maxLease ∧ request.wait ≤ o.maxWait
  renew : ∀ request, receipt.renew = some request →
    receipt.kind = .renew ∧ request.ttl ≤ o.maxLease

/-- The outcomes by which an action ends without a grant. -/
def ActionOutcome.fruitless : ActionOutcome → Prop
  | .cancelled | .timedOut | .rejected => True
  | .pending | .granted | .renewed => False

variable (a)

def Authority.issuedRecord (ref : ActionRef)
    (action : ActionRecord) (id : ResourceID) (request : AcquireRequest) : ActionRecord :=
  action.grantedWith (a.newGrant ref id request)
    (a.tick (a.newGrant ref id request).deadline)

/-- The whole effect of a successful `grantLocked`. -/
def Authority.issue (ref : ActionRef) (action : ActionRecord)
    (o : OwnerRecord) (id : ResourceID) (request : AcquireRequest) : Authority :=
  ((a.insertGrant ref id request).finishPending ref
    (a.issuedRecord ref action id request) .granted none).touchLocked o

def Authority.renewedRecord (action : ActionRecord)
    (g : GrantRecord) (request : RenewRequest) : ActionRecord :=
  { action with
    receipt := { action.receipt with
      grant := some g.ref
      deadlineMillis := a.tick (max g.deadline (a.time + request.ttl))
      revision := g.revision + 1 } }

/-- The whole effect of a successful renewal. -/
def Authority.prolong (ref : ActionRef) (action : ActionRecord)
    (o : OwnerRecord) (grant : GrantID) (g : GrantRecord) (request : RenewRequest) : Authority :=
  ((a.extendGrant ref grant g request).finishPending ref
    (a.renewedRecord action g request) .renewed none).touchLocked o

/-- Some reading of the clock was past the recovery interval. -/
def Authority.Admitted : Prop :=
  ∃ k < a.reads, a.recoveryUntil ≤ a.now k

variable {a}

/-- An action that has ended, and with it every grant it was given. -/
structure Authority.Revoked (a : Authority) (ref : ActionRef) : Prop where
  settled : ∃ action, a.actionRecords.get? ref = some action ∧ action.receipt.outcome ≠ .pending
  ended : ∀ {id}, (ref, id) ∈ a.issued → ∃ g, a.grantRecords.get? id = some g ∧ g.state ≠ .active

structure Terms where
  /-- Resources that a completing publication retires. -/
  gone : ResourceID → Prop
  /-- The clock hardly moves between the touch of the session and the start of
  the acquisition it enrols. -/
  prompt : Prop

/-- How a call goes from one place to the next, with the holder of `raiseMu`,
the cached maximum and the stored one that it leaves. -/
inductive Advances (a : Authority) (job : Job) (ref : ActionRef) :
    Phase → Phase → Option Job → Duration → Duration → Prop
  | abandon {phase : Phase} (err : Option Fault)
      (hopen : phase ≠ .persisting ∧ phase ≠ .persisted) :
      Advances a job ref phase (.leaving err) a.raising a.watermark a.durable
  | sufficient (hlow : a.ttl ref ≤ a.watermark) :
      Advances a job ref .raising .raised a.raising a.watermark a.durable
  | enterRaise (hfree : a.raising = none) (hhigh : a.watermark < a.ttl ref) :
      Advances a job ref .raising .persisting (some job) a.watermark a.durable
  | store : Advances a job ref .persisting .persisted a.raising a.watermark
        (max a.durable (a.ttl ref))
  | storeFailed {durable : Duration} (err : Option Fault) (hdurable : a.durable ≤ durable) :
      Advances a job ref .persisting (.leaving err) none a.watermark durable
  | leaveRaise : Advances a job ref .persisted .raised none (a.ttl ref) a.durable
  | enterGuard : Advances a job ref .raised .guarding a.raising a.watermark a.durable

inductive Move (t : Terms) : Authority → Authority → Prop
  | clock (a : Authority) : Move t a a.ticked
  | touch (a : Authority) (id : SessionID) : Move t a (a.touchSessionLocked id)
  | forgetTickets (a : Authority) (keep : EnrollmentTicket → TicketRecord → Bool) :
      Move t a { a with tickets := a.tickets.filter keep }
  | addSession (a : Authority) (ticket : EnrollmentTicket) (now expiry : Time)
      (hnew : a.tickets.get? ticket = none)
      (htickets : (a.tickets.size : ℤ) < a.options.maxTickets)
      (hsessions : (a.sessions.size : ℤ) < a.options.maxSessions) :
      Move t a (a.addSession ticket now expiry)
  | addOwner (a : Authority) {id : SessionID} {s : SessionRecord}
      (request : RequestID) (hsession : a.sessions.get? id = some s)
      (hnew : s.creates.get? request = none)
      (howners : (a.owners.size : ℤ) < a.options.maxOwners)
      (hmine : ((a.sessionOwners id).length : ℤ) < a.options.ownersPerSession)
      (hcreates : (s.creates.size : ℤ) < a.options.ownerActionsPerSession) :
      Move t a (a.addOwner id request)
  | endGrant {a : Authority} {id : GrantID} {g : GrantRecord}
      (state : GrantState) (hg : a.grantRecords.get? id = some g)
      (hactive : g.state = .active) (hstate : state ≠ .active)
      (hfree : a.busy g.resource = false ∨ t.gone g.resource) :
      Move t a (a.endActive id g state)
  | finish {a : Authority} {ref : ActionRef} {action : ActionRecord}
      {outcome : ActionOutcome} (code : Option Code)
      (hg : a.actionRecords.get? ref = some action)
      (hp : action.receipt.outcome = .pending)
      (houtcome : outcome.fruitless) :
      Move t a (a.finishPending ref action outcome code)
  | dropOwner {a : Authority} {id : OwnerID} {o : OwnerRecord} (hg : a.owners.get? id = some o)
      (hactions : ∀ request ∈ o.actions, ∀ action,
        a.actionRecords.get? ⟨id, request⟩ = some action → action.receipt.outcome ≠ .pending)
      (hgrants : ∀ grant ∈ o.grants, ∀ g,
        a.grantRecords.get? grant = some g → g.state ≠ .active) :
      Move t a (a.dropOwner id o)
  | dropSession {a : Authority} {id : SessionID}
      (hempty : ∀ owner o, a.owners.get? owner = some o → o.ref.session ≠ id) :
      Move t a { a with sessions := a.sessions.erase id }
  | adopt {a : Authority} {key : BackendKey} (hnew : a.keys.get? key = none)
      (hroom : (a.resources.length : ℤ) < a.options.maxResources) :
      Move t a (a.adopt key)
  | tidy {a : Authority} {id : ResourceID} (change : ResourceRecord → ResourceRecord)
      (hlike : ∀ r, a.resourceRecords.get? id = some r → r.Like (change r)) :
      Move t a (a.modifyResource id change)
  | unlist {a : Authority} {keys : Table BackendKey ResourceID} {resources : List ResourceID}
      (hkeys : ∀ key id, keys.get? key = some id → a.keys.get? key = some id)
      (hresources : resources.length ≤ a.resources.length) :
      Move t a { a with keys, resources }
  | enroll {a : Authority} {ref : ActionRef} {o : OwnerRecord}
      (receipt : ActionReceipt) (tombstone : Bool)
      (howner : a.owners.get? ref.owner = some o)
      (hnew : a.actionRecords.get? ref = none)
      (hintent : receipt.Intent a.options)
      (houtcome : receipt.outcome = .pending ∨ receipt.outcome = .cancelled)
      (hroom : a.fullHistory o = false) :
      Move t a (a.enroll ref (.enrolled receipt tombstone))
  | hold {a : Authority} {ref : ActionRef} {receipt : ActionReceipt}
      {o : OwnerRecord} {id : ResourceID} {r : ResourceRecord}
      (grant : Option GrantID) (started : Time)
      (hg : a.actionRecords.get? ref = some (.enrolled receipt false))
      (hp : receipt.outcome = .pending)
      (howner : a.owners.get? ref.owner = some o)
      (hresource : a.resourceRecords.get? id = some r)
      (hgrant : receipt.kind = .acquire → grant = none)
      (hheld : ∀ held, grant = some held → ∃ g,
        a.grantRecords.get? held = some g ∧ g.resource = id ∧ g.owner = ref.owner)
      (hprompt : t.prompt → ∀ request, receipt.acquire = some request →
        started + request.wait ≤ a.sessionExpires o.ref.session) :
      Move t a (a.hold ref id grant started)
  | phase {a : Authority} {job : Job} {ref : ActionRef} {before after : Phase}
      {raising : Option Job} {watermark durable : Duration}
      (hph : a.phase? job = some (ref, before))
      (hnext : Advances a job ref before after raising watermark durable) :
      Move t a { a.setPhase job ref after with raising, watermark, durable }
  | enqueue {a : Authority} {ref : ActionRef} {action : ActionRecord}
      {o : OwnerRecord} {id : ResourceID} {r : ResourceRecord}
      {request : AcquireRequest}
      (hg : a.actionRecords.get? ref = some action)
      (hp : action.receipt.outcome = .pending)
      (hcall : action.call = some .guarding)
      (hwait : action.waitUntil = none)
      (hacquire : action.receipt.acquire = some request)
      (hresource : action.resource = some id)
      (howner : a.owners.get? ref.owner = some o)
      (hrecord : a.resourceRecords.get? id = some r)
      (hqueued : a.queued < a.options.maxQueued)
      (hmine : o.queued < a.options.queuedPerOwner)
      (hlength : (r.queue.length : ℤ) < a.options.queuedPerResource) :
      Move t a (a.enqueue ref id (action.started + request.wait))
  | issue {a : Authority} {ref : ActionRef} {action : ActionRecord}
      {o : OwnerRecord} {id : ResourceID} {r : ResourceRecord}
      {request : AcquireRequest} (job : Job)
      (hg : a.actionRecords.get? ref = some action)
      (hp : action.receipt.outcome = .pending)
      (hph : a.phase? job = some (ref, .guarding))
      (hacquire : action.receipt.acquire = some request)
      (hresource : action.resource = some id)
      (howner : a.owners.get? ref.owner = some o)
      (hrecord : a.resourceRecords.get? id = some r)
      (hidle : r.busy = false)
      (hcompatible : a.compatibleLocked r ref.owner request.mode = true)
      (hturn : r.queue = [] ∨ r.queue.head? = some ref)
      (hgrants : a.grants < a.options.maxGrants)
      (hmine : o.liveGrants < a.options.grantsPerOwner)
      (hadmitted : a.Admitted) :
      Move t a (a.issue ref action o id request)
  | prolong {a : Authority} {ref : ActionRef} {action : ActionRecord}
      {o : OwnerRecord} {id : ResourceID} {r : ResourceRecord}
      {grant : GrantID} {g : GrantRecord} {request : RenewRequest}
      (hg : a.actionRecords.get? ref = some action)
      (hp : action.receipt.outcome = .pending)
      (hcall : action.call = some .guarding)
      (hrenew : action.receipt.renew = some request)
      (hacquire : action.receipt.acquire = none)
      (howner : a.owners.get? ref.owner = some o)
      (hrecord : a.resourceRecords.get? id = some r)
      (hgrant : a.grantRecords.get? grant = some g)
      (hplace : g.resource = id)
      (hholder : g.owner = ref.owner)
      (hactive : g.state = .active)
      (hidle : r.busy = false)
      (hadmitted : a.Admitted) :
      Move t a (a.prolong ref action o grant g request)
  | unhold {a : Authority} {job : Job} {ref : ActionRef} {err : Option Fault}
      (hph : a.phase? job = some (ref, .leaving err)) :
      Move t a (a.unhold job ref)
  | attempt {a : Authority} {id : ResourceID} {r : ResourceRecord} {current : ActionRef}
      (hrecord : a.resourceRecords.get? id = some r)
      (hworker : r.worker = .looping)
      (hhead : r.queue.head? = some current) :
      Move t a (a.attempt id current)
  | noteAction {a : Authority} {ref : ActionRef} (change : ActionRecord → ActionRecord)
      (hlike : ∀ action : ActionRecord, action.Like (change action))
      (hcancel : (∀ action : ActionRecord,
        (change action).cancel = action.cancel) ∨ a.Revoked ref) :
      Move t a (a.modifyAction ref change)
  | noteRelease (a : Authority) (id : GrantID) (change : GrantRecord → Option GrantState) :
      Move t a { a with grantRecords := a.grantRecords.modify id fun g =>
        { g with release := change g } }
  | launch {a : Authority} {keys : List BackendKey}
      {resources : List ResourceID} (hnodup : resources.Nodup)
      (hidle : ∀ id ∈ resources, ∃ r, a.resourceRecords.get? id = some r ∧
        r.busy = false ∧ r.key ∈ keys)
      (hadmitted : a.Admitted) :
      Move t a (a.launch keys resources)
  | land {a : Authority} {flight : ℕ} {f : Flight} (hf : a.flights.get? flight = some f) :
      Move t a (a.land flight f)
  | flag (a : Authority) (fenced : Option Fault) (closed : Bool) :
      Move t a { a with fenced, closed }

def Chain (t : Terms) : Authority → Authority → Prop :=
  Relation.ReflTransGen (Move t)

lemma Chain.refl : Chain t a a := Relation.ReflTransGen.refl

lemma Move.chain (hmove : Move t a a') : Chain t a a' := Relation.ReflTransGen.single hmove

lemma Chain.trans (hfirst : Chain t a b) (hsecond : Chain t b c) : Chain t a c :=
  Relation.ReflTransGen.trans hfirst hsecond

lemma Chain.tail (hfirst : Chain t a b) (hmove : Move t b c) : Chain t a c :=
  Relation.ReflTransGen.tail hfirst hmove

lemma Chain.invariant {motive : Authority → Prop}
    (hmove : ∀ a a', Move t a a' → motive a → motive a') (hchain : Chain t a a')
    (hstart : motive a) : motive a' := by
  induction hchain with
  | refl => exact hstart
  | tail _ hlast ih => exact hmove _ _ hlast ih

end RemoteFs.Locking
