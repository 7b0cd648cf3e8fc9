import RemoteFs.Locking.Core

/-!
# Expiry and retirement

Nearly every section first expires sessions and grants.  These sweeps end grants,
finish actions and drop owners and sessions, and nothing else: `Sweep` lists
their moves, and `Swept` says what is the same afterwards.
-/

namespace RemoteFs.Locking

open Authority

variable {a a' : Authority} {grant id : GrantID} {ref : ActionRef}
  {g : GrantRecord} {κ : Type} {owner : OwnerID} {state : GrantState}

inductive Sweep (t : Terms) : Authority → Authority → Prop
  | clock (a : Authority) : Sweep t a a.ticked
  | forgetTickets (a : Authority) (keep : EnrollmentTicket → TicketRecord → Bool) :
      Sweep t a { a with tickets := a.tickets.filter keep }
  | endGrant {a : Authority} {id : GrantID} {g : GrantRecord}
      (state : GrantState) (hget : a.grantRecords.get? id = some g)
      (hactive : g.state = .active) (hs : state ≠ .active)
      (hfr : a.busy g.resource = false ∨ t.gone g.resource) :
      Sweep t a (a.endActive id g state)
  | finish {a : Authority} {ref : ActionRef} {action : ActionRecord}
      {outcome : ActionOutcome} (code : Option Code)
      (hget : a.actionRecords.get? ref = some action)
      (hp : action.receipt.outcome = .pending)
      (houtcome : outcome.fruitless) :
      Sweep t a (a.finishPending ref action outcome code)
  | dropOwner {a : Authority} {id : OwnerID} {o : OwnerRecord} (hget : a.owners.get? id = some o)
      (ha : ∀ request ∈ o.actions, ∀ action,
        a.actionRecords.get? ⟨id, request⟩ = some action → action.receipt.outcome ≠ .pending)
      (hgr : ∀ grant ∈ o.grants, ∀ g,
        a.grantRecords.get? grant = some g → g.state ≠ .active) :
      Sweep t a (a.dropOwner id o)
  | dropSession {a : Authority} {id : SessionID}
      (hempty : ∀ owner o, a.owners.get? owner = some o → o.ref.session ≠ id) :
      Sweep t a { a with sessions := a.sessions.erase id }

lemma Sweep.move (hsweep : Sweep t a a') : Move t a a' := by
  cases hsweep with
  | clock => exact .clock _
  | forgetTickets keep => exact .forgetTickets _ keep
  | endGrant state hget hactive hs hfr => exact .endGrant state hget hactive hs hfr
  | finish code hget hp hout => exact .finish code hget hp hout
  | dropOwner hget ha hgr => exact .dropOwner hget ha hgr
  | dropSession hempty => exact .dropSession hempty

/-! ## What a sweep leaves alone -/

def ResourceRecord.frame (r : ResourceRecord) : ResourceRecord :=
  { r with grants := [], queue := [] }

def ActionRecord.frame (action : ActionRecord) : ActionRecord :=
  { action with
    receipt := { action.receipt with outcome := .pending, code := none } }

def GrantRecord.frame (g : GrantRecord) : GrantRecord :=
  { g with state := .active }

lemma GrantRecord.resource_eq {g g' : GrantRecord} (hf : g.frame = g'.frame) :
    g.resource = g'.resource :=
  (congrArg GrantRecord.resource hf : g.frame.resource = g'.frame.resource)

structure Swept (a a' : Authority) : Prop where
  options : a'.options = a.options
  now : a'.now = a.now
  reads : a.reads ≤ a'.reads
  recoveryUntil : a'.recoveryUntil = a.recoveryUntil
  keys : a'.keys = a.keys
  flights : a'.flights = a.flights
  issued : a'.issued = a.issued
  owner : ∀ {id o'}, a'.owners.get? id = some o' →
    ∃ o, a.owners.get? id = some o ∧ o'.ref = o.ref ∧
      o'.actions = o.actions ∧ o'.grants = o.grants
  resource : Table.Agree ResourceRecord.frame a.resourceRecords a'.resourceRecords
  action : Table.Agree ActionRecord.frame a.actionRecords a'.actionRecords
  grant : Table.Agree GrantRecord.frame a.grantRecords a'.grantRecords
  settled : ∀ {ref action}, a.actionRecords.get? ref = some action →
    action.receipt.outcome ≠ .pending → a'.actionRecords.get? ref = some action
  ended : ∀ {id g}, a.grantRecords.get? id = some g → g.state ≠ .active →
    a'.grantRecords.get? id = some g

namespace Swept

variable {a : Authority}

lemma refl : Swept a a :=
  ⟨rfl, rfl, le_refl _, rfl, rfl, rfl, rfl, fun ho => ⟨_, ho, rfl, rfl, rfl⟩, .refl,
    .refl, .refl, fun haction _ => haction, fun hg _ => hg⟩

variable {b c : Authority}

lemma trans (hfi : Swept a b) (hsec : Swept b c) :
    Swept a c where
  options := hsec.options.trans hfi.options
  now := hsec.now.trans hfi.now
  reads := hfi.reads.trans hsec.reads
  recoveryUntil := hsec.recoveryUntil.trans hfi.recoveryUntil
  keys := hsec.keys.trans hfi.keys
  flights := hsec.flights.trans hfi.flights
  issued := hsec.issued.trans hfi.issued
  owner := by
    intro id o'' ho''
    obtain ⟨o', ho', href', hactions', hgrants'⟩ := hsec.owner ho''
    obtain ⟨o, ho, href, ha, hgr⟩ := hfi.owner ho'
    exact ⟨o, ho, href'.trans href, hactions'.trans ha, hgrants'.trans hgr⟩
  resource := hfi.resource.trans hsec.resource
  action := hfi.action.trans hsec.action
  grant := hfi.grant.trans hsec.grant
  settled := fun haction hse => hsec.settled (hfi.settled haction hse) hse
  ended := fun hg hended => hsec.ended (hfi.ended hg hended) hended

lemma of_sweep (hsweep : Sweep t a a') : Swept a a' := by
  have howner : Table.Agree (fun o => (o.ref, o.actions, o.grants)) a.owners a'.owners →
      ∀ {id o'}, a'.owners.get? id = some o' → ∃ o, a.owners.get? id = some o ∧
        o'.ref = o.ref ∧ o'.actions = o.actions ∧ o'.grants = o.grants := by
    intro hagree id o' ho'
    obtain ⟨o, ho, hsm⟩ := hagree.exists ho'
    obtain ⟨href, hrest⟩ := Prod.mk.inj hsm
    exact ⟨o, ho, href, Prod.mk.inj hrest⟩
  cases hsweep with
  | clock => exact { refl with reads := Nat.le_succ _ }
  | forgetTickets | dropSession => exact { refl with }
  | @endGrant id g state hget hactive hs hfr =>
    refine { refl with owner := howner (.edit rfl),
                       resource := .edit rfl, grant := .edit rfl, ended := ?_ }
    intro other found hfd hended
    have hne : other ≠ id := by
      intro heq
      rw [heq, hget] at hfd
      cases hfd
      exact hended hactive
    exact (Table.get?_modify_ne hne).trans hfd
  | @finish ref action outcome code hget hp hout =>
    refine { refl with owner := howner (finishPending_owners _ _ rfl),
                       resource := finishPending_resources _ _ rfl,
                       action := .edit rfl, settled := ?_ }
    intro other found hfd hse
    have hne : other ≠ ref := by
      intro heq
      rw [heq, hget] at hfd
      cases hfd
      exact hse hp
    exact (Table.get?_modify_ne hne).trans hfd
  | dropOwner =>
    refine { refl with owner := fun {owner o'} ho' => ?_ }
    exact ⟨o', (Table.erase_cases ho').2, rfl, rfl, rfl⟩

variable {a a' : Authority} (h : Swept a a')

include h

lemma busy (id : ResourceID) : a'.busy id = a.busy id := by
  have hf := (h.resource.coarsen ResourceRecord.busy) id
  exact congrArg (Option.getD · false) hf

lemma phase? (job : Job) : a'.phase? job = a.phase? job := by
  cases job with
  | call ref =>
    refine congrArg (Option.map (Prod.mk ref)) (h.action.bind_eq ?_ ref)
    intro action old hf
    have hcall := congrArg ActionRecord.call hf
    exact hcall
  | worker id =>
    refine h.resource.bind_eq ?_ id
    intro r old hf
    exact congrArg (fun r => r.worker.attempt) hf

end Swept

def Sweeps (t : Terms) : Authority → Authority → Prop :=
  Relation.ReflTransGen (Sweep t)

/-- Terms for statements that do not depend on them. -/
def anyTerms : Terms := ⟨fun _ => True, True⟩

namespace Sweeps

variable {t : Terms} {a b c : Authority}

lemma refl : Sweeps t a a := Relation.ReflTransGen.refl

lemma single (hsweep : Sweep t a b) : Sweeps t a b := Relation.ReflTransGen.single hsweep

lemma trans (hfi : Sweeps t a b) (hsec : Sweeps t b c) : Sweeps t a c :=
  Relation.ReflTransGen.trans hfi hsec

lemma chain (hsweeps : Sweeps t a b) : Chain t a b :=
  Relation.ReflTransGen.mono (fun _ _ => Sweep.move) _ _ hsweeps

lemma swept (hsweeps : Sweeps t a b) : Swept a b := by
  induction hsweeps with
  | refl => exact .refl
  | tail _ hlast ih => exact ih.trans (Swept.of_sweep hlast)

end Sweeps

/-! ## Grants -/

section Grants

variable {t : Terms}

lemma sweeps_endGrantLocked (a : Authority) (id : GrantID)
    (hs : state ≠ .active) (hfr : ∀ g, a.grantRecords.get? id = some g →
      a.busy g.resource = false ∨ t.gone g.resource) :
    Sweeps t a (a.endGrantLocked id state) := by
  unfold endGrantLocked
  split
  · exact .refl
  rename_i g hget
  split_ifs with hactive
  · exact .refl
  · exact .single (.endGrant state hget (not_not.mp hactive) hs (hfr g hget))

lemma sweeps_foldl_grants {step : Authority → GrantID → Authority}
    (hst : ∀ {a id}, (∀ g, a.grantRecords.get? id = some g →
      a.busy g.resource = false ∨ t.gone g.resource) →
        Sweeps t a (step a id)) {ids : List GrantID}
    (hfr : ∀ id ∈ ids, ∀ g, a.grantRecords.get? id = some g →
      a.busy g.resource = false ∨ t.gone g.resource) : Sweeps t a (ids.foldl step a) := by
  induction ids generalizing a with
  | nil => exact .refl
  | cons id rest ih =>
    have hfi := hst (hfr id List.mem_cons_self)
    refine hfi.trans (ih ?_)
    intro other hother g' hg'
    obtain ⟨g, hg, hf⟩ := hfi.swept.grant.exists hg'
    have hplace := GrantRecord.resource_eq hf
    rw [hfi.swept.busy, hplace]
    exact hfr other (List.mem_cons_of_mem _ hother) g hg

lemma sweeps_expireGrant {now : Time} (hfr : ∀ g, a.grantRecords.get? id = some g →
      a.busy g.resource = false ∨ t.gone g.resource) : Sweeps t a (expireGrant now a id) := by
  unfold expireGrant
  split
  · exact .refl
  · split_ifs
    · exact .refl
    · exact sweeps_endGrantLocked a id (by intro heq; cases heq) hfr

variable {id : ResourceID}

lemma mem_liveGrants : grant ∈ a.liveGrants id ↔
      ∃ r, a.resourceRecords.get? id = some r ∧ grant ∈ r.grants := by
  unfold liveGrants
  cases a.resourceRecords.get? id <;> simp

lemma mem_queue : ref ∈ a.queue id ↔
      ∃ r, a.resourceRecords.get? id = some r ∧ ref ∈ r.queue := by
  unfold queue
  cases a.resourceRecords.get? id <;> simp

lemma Grants.place (h : Grants a) (hm : grant ∈ a.liveGrants id)
    (hget : a.grantRecords.get? grant = some g) : g.resource = id := by
  obtain ⟨r, hr, hlisted⟩ := mem_liveGrants.mp hm
  obtain ⟨found, hfd, -, hplace⟩ := (h.resource hr).live hlisted
  cases hget.symm.trans hfd
  exact hplace

lemma sweeps_expireGrantsLocked (h : Grants a) (id : ResourceID) (now : Time) :
    Sweeps t a (a.expireGrantsLocked id now) := by
  unfold expireGrantsLocked
  split_ifs with hbusy
  · exact .refl
  refine sweeps_foldl_grants sweeps_expireGrant ?_
  intro grant hm g hget
  rw [h.place hm hget]
  exact .inl (Bool.eq_false_iff.mpr hbusy)

lemma sweeps_expireGrantsNow (h : Grants a) (id : ResourceID) :
    Sweeps t a (a.ticked.expireGrantsLocked id a.time) :=
  .trans (.single (.clock a)) (sweeps_expireGrantsLocked h.ticked id a.time)

end Grants

/-! ## Actions -/

section Actions

variable {t : Terms}

lemma sweeps_finishLocked (a : Authority) (ref : ActionRef)
    (outcome : ActionOutcome) (code : Option Code) (hout : outcome.fruitless) :
    Sweeps t a (a.finishLocked ref outcome code) := by
  unfold finishLocked
  split
  · exact .refl
  rename_i action hget
  split_ifs with hp
  · exact .refl
  · exact .single (.finish code hget (not_not.mp hp) hout)

lemma sweeps_expireEntry (a : Authority) (ref : ActionRef) (now : Time) :
    Sweeps t a (a.expireEntry ref now) := by
  unfold expireEntry
  split
  · exact .refl
  · split_ifs
    · exact .refl
    · exact sweeps_finishLocked a ref .timedOut none True.intro

lemma sweeps_expireQueuedBelow (id : ResourceID) (now : Time) (n : ℕ)
    (a : Authority) : Sweeps t a (expireQueuedBelow id now n a) := by
  induction n generalizing a with
  | zero => exact .refl
  | succ i ih =>
    unfold expireQueuedBelow
    split
    · exact ih a
    · exact (sweeps_expireEntry a _ now).trans (ih _)

lemma sweeps_expireQueuedLocked (a : Authority) (id : ResourceID)
    (now : Time) : Sweeps t a (a.expireQueuedLocked id now) :=
  sweeps_expireQueuedBelow id now _ a

variable {action : ActionRecord}

lemma finishLocked_settled (code : Option Code) (hout : outcome ≠ .pending)
    (hget : (a.finishLocked ref outcome code).actionRecords.get? ref =
      some action) : action.receipt.outcome ≠ .pending := by
  unfold finishLocked at hget
  split at hget
  · rename_i hnone
    cases hnone.symm.trans hget
  rename_i found hfd
  split_ifs at hget with hse
  · cases hfd.symm.trans hget
    exact hse
  change (Table.modify _ _ _).get? ref = some action at hget
  rw [Table.get?_modify_self, hfd] at hget
  cases hget
  exact hout

lemma endGrantLocked_ended (hs : state ≠ .active)
    (hget : (a.endGrantLocked id state).grantRecords.get? id = some g) : g.state ≠ .active := by
  unfold endGrantLocked at hget
  split at hget
  · rename_i hnone
    cases hnone.symm.trans hget
  rename_i found hfd
  split_ifs at hget with hended
  · cases hfd.symm.trans hget
    exact hended
  change (Table.modify _ _ _).get? id = some g at hget
  rw [Table.get?_modify_self, hfd] at hget
  cases hget
  exact hs

variable {step : Authority → κ → Authority}

lemma sweeps_foldl (hst : ∀ a x, Sweeps t a (step a x)) (xs : List κ) (a : Authority) :
    Sweeps t a (xs.foldl step a) := by
  induction xs generalizing a with
  | nil => exact .refl
  | cons x rest ih => exact (hst a x).trans (ih (step a x))

lemma Swept.settledRecord (h : Swept a a')
    (hse : ∀ action, a.actionRecords.get? ref = some action →
      action.receipt.outcome ≠ .pending) (hget : a'.actionRecords.get? ref = some action') :
    action'.receipt.outcome ≠ .pending := by
  obtain ⟨action, haction, -⟩ := h.action.exists hget
  have hk := h.settled haction (hse action haction)
  cases hget.symm.trans hk
  exact hse action' haction

lemma Swept.endedRecord (h : Swept a a')
    (hended : ∀ g, a.grantRecords.get? id = some g → g.state ≠ .active)
    (hget : a'.grantRecords.get? id = some g') : g'.state ≠ .active := by
  obtain ⟨g, hg, -⟩ := h.grant.exists hget
  have hk := h.ended hg (hended g hg)
  cases hget.symm.trans hk
  exact hended g' hg

lemma foldl_finish_settled {requests : List RequestID} {request : RequestID}
    (hm : request ∈ requests) (hget : (requests.foldl (fun a request =>
      a.finishLocked ⟨owner, request⟩ .cancelled none) a).actionRecords.get?
        ⟨owner, request⟩ = some action) : action.receipt.outcome ≠ .pending := by
  induction requests generalizing a with
  | nil => cases hm
  | cons first rest ih =>
    rcases List.mem_cons.mp hm with heq | hm
    · subst heq
      have hrest := sweeps_foldl (t := anyTerms) (fun a request =>
        sweeps_finishLocked a ⟨owner, request⟩ .cancelled none True.intro) rest
          (a.finishLocked ⟨owner, request⟩ .cancelled none)
      exact hrest.swept.settledRecord
        (fun _ => finishLocked_settled none (by intro heq; cases heq)) hget
    · exact ih hm hget

lemma foldl_endGrant_ended (hs : state ≠ .active) {grants : List GrantID}
    (hm : grant ∈ grants) (hget : (grants.foldl (fun a grant =>
      a.endGrantLocked grant state) a).grantRecords.get? grant = some g) : g.state ≠ .active := by
  induction grants generalizing a with
  | nil => cases hm
  | cons first rest ih =>
    rcases List.mem_cons.mp hm with heq | hm
    · subst heq
      have hrest := sweeps_foldl (t := anyTerms) (fun a grant =>
        sweeps_endGrantLocked a grant hs fun _ _ => .inr True.intro) rest
          (a.endGrantLocked grant state)
      exact hrest.swept.endedRecord (fun _ => endGrantLocked_ended hs) hget
    · exact ih hm hget

end Actions

/-! ## Owners and sessions -/

section Owners

variable {t : Terms}

/-- The identity of an owner and what it lists. -/
def OwnerRecord.lists (o : OwnerRecord) : OwnerRef × List RequestID × List GrantID :=
  (o.ref, o.actions, o.grants)

lemma finishLocked_owners (a : Authority) (ref : ActionRef)
    (outcome : ActionOutcome) (code : Option Code) :
    Table.Agree OwnerRecord.lists a.owners (a.finishLocked ref outcome code).owners := by
  unfold finishLocked
  split
  · exact .refl
  · split_ifs
    · exact .refl
    · exact finishPending_owners _ _ rfl

lemma endGrantLocked_owners (a : Authority) (id : GrantID) (state : GrantState) :
    Table.Agree OwnerRecord.lists a.owners (a.endGrantLocked id state).owners := by
  unfold endGrantLocked
  split
  · exact .refl
  · split_ifs
    · exact .refl
    · exact .edit rfl

lemma agree_foldl (hst : ∀ a x, Table.Agree OwnerRecord.lists a.owners (step a x).owners)
    (xs : List κ) (a : Authority) :
    Table.Agree OwnerRecord.lists a.owners (xs.foldl step a).owners := by
  induction xs generalizing a with
  | nil => exact .refl
  | cons x rest ih => exact (hst a x).trans (ih (step a x))

lemma expireGrantsLocked_owners (a : Authority) (id : ResourceID) (now : Time) :
    Table.Agree OwnerRecord.lists a.owners (a.expireGrantsLocked id now).owners := by
  have hst : ∀ (a : Authority) grant,
      Table.Agree OwnerRecord.lists a.owners (expireGrant now a grant).owners := by
    intro a grant
    unfold expireGrant
    split
    · exact .refl
    · split_ifs
      · exact .refl
      · exact endGrantLocked_owners a grant .expired
  unfold expireGrantsLocked
  split_ifs
  · exact .refl
  · exact agree_foldl hst _ a

variable {o : OwnerRecord}

lemma not_ownerBusy (hidl : a.ownerBusyLocked o = false) (hm : id ∈ o.grants)
    (hget : a.grantRecords.get? id = some g) : a.busy g.resource = false := by
  have hall := List.any_eq_false.mp hidl id hm
  simpa [hget] using hall

lemma Swept.ownerBusy (h : Swept a a') (hgr : o'.grants = o.grants) :
    a'.ownerBusyLocked o' = a.ownerBusyLocked o := by
  unfold ownerBusyLocked
  congr 1
  funext id
  have hplace := (h.grant.coarsen GrantRecord.resource) id
  have hbusy := congrArg (Option.map a.busy) hplace
  rw [Option.map_map, Option.map_map] at hbusy
  have hsm : (a'.grantRecords.get? id).map (fun g => a'.busy g.resource) =
      (a.grantRecords.get? id).map (fun g => a.busy g.resource) := by
    simp only [h.busy]
    exact hbusy
  rw [hsm]

lemma sweeps_retireOwnerLocked {id : OwnerID}
    (hidl : ∀ o, a.owners.get? id = some o → a.ownerBusyLocked o = false) :
    Sweeps t a (a.retireOwnerLocked id) := by
  unfold retireOwnerLocked
  split
  · exact .refl
  rename_i o hget
  set b := o.actions.foldl (fun a request => a.finishLocked ⟨id, request⟩ .cancelled none) a with hb
  set c := o.grants.foldl (fun a grant => a.endGrantLocked grant .ownerRetired) b with hc
  have hfinish : Sweeps t a b :=
    sweeps_foldl (fun a request => sweeps_finishLocked a ⟨id, request⟩
      .cancelled none True.intro) o.actions a
  have hend : Sweeps t b c := by
    refine sweeps_foldl_grants (fun hfr => sweeps_endGrantLocked _ _ (by
      intro heq
      cases heq) hfr) ?_
    intro grant hm g' hg'
    obtain ⟨g, hg, hf⟩ := hfinish.swept.grant.exists hg'
    have hplace := GrantRecord.resource_eq hf
    rw [hfinish.swept.busy, hplace]
    exact .inl (not_ownerBusy (hidl o hget) hm hg)
  have howners : Table.Agree OwnerRecord.lists a.owners c.owners :=
    (agree_foldl (fun a request => finishLocked_owners a ⟨id, request⟩
      .cancelled none) o.actions a).trans
      (agree_foldl (fun a grant => endGrantLocked_owners a grant .ownerRetired) o.grants b)
  obtain ⟨o', ho', hlists⟩ := howners.symm.exists hget
  obtain ⟨-, hrest⟩ := Prod.mk.inj hlists
  obtain ⟨ha, hgr⟩ := Prod.mk.inj hrest
  have hdrop : c.dropOwner id o = c.dropOwner id o' := by
    unfold dropOwner
    rw [ha]
  refine (hfinish.trans hend).trans (.single ?_)
  rw [hdrop]
  refine .dropOwner ho' ?_ ?_
  · intro request hm action haction
    rw [← ha] at hm
    exact hend.swept.settledRecord (fun _ => foldl_finish_settled hm) haction
  · intro grant hm g hg
    rw [← hgr] at hm
    exact foldl_endGrant_ended (by intro heq; cases heq) hm hg

lemma retireOwnerLocked_gone (a : Authority) (id : OwnerID) :
    (a.retireOwnerLocked id).owners.get? id = none := by
  unfold retireOwnerLocked
  split
  · assumption
  · exact Table.get?_erase_self _ _

lemma mem_sessionOwners : owner ∈ a.sessionOwners id ↔
      ∃ o, a.owners.get? owner = some o ∧ o.ref.session = id := by
  unfold sessionOwners
  simp only [List.mem_map, List.mem_filter, Prod.exists, decide_eq_true_eq]
  constructor
  · rintro ⟨_, o, ⟨hm, hsess⟩, rfl⟩
    exact ⟨o, Table.mem_toList.mp hm, hsess⟩
  · rintro ⟨o, hget, hsess⟩
    exact ⟨owner, o, ⟨Table.mem_toList.mpr hget, hsess⟩, rfl⟩

variable {owners : List OwnerID}

lemma sweeps_retireOwners
    (hidl : ∀ owner ∈ owners, ∀ o, a.owners.get? owner = some o → a.ownerBusyLocked o = false) :
    Sweeps t a (owners.foldl retireOwnerLocked a) := by
  induction owners generalizing a with
  | nil => exact .refl
  | cons owner rest ih =>
    have hfi : Sweeps t a (a.retireOwnerLocked owner) :=
      sweeps_retireOwnerLocked (hidl owner List.mem_cons_self)
    refine hfi.trans (ih ?_)
    intro other hm o' ho'
    obtain ⟨o, ho, -, -, hgr⟩ := hfi.swept.owner ho'
    rw [hfi.swept.ownerBusy hgr]
    exact hidl other (List.mem_cons_of_mem _ hm) o ho

lemma retireOwners_gone
    (hidl : ∀ owner ∈ owners, ∀ o, a.owners.get? owner = some o → a.ownerBusyLocked o = false)
    (hm : owner ∈ owners) : (owners.foldl retireOwnerLocked a).owners.get? owner = none := by
  induction owners generalizing a with
  | nil => cases hm
  | cons first rest ih =>
    have hfi : Sweeps anyTerms a (a.retireOwnerLocked first) :=
      sweeps_retireOwnerLocked (hidl first List.mem_cons_self)
    have hrest : ∀ other ∈ rest, ∀ o, (a.retireOwnerLocked first).owners.get? other = some o →
          (a.retireOwnerLocked first).ownerBusyLocked o = false := by
      intro other hother o' ho'
      obtain ⟨o, ho, -, -, hgr⟩ := hfi.swept.owner ho'
      rw [hfi.swept.ownerBusy hgr]
      exact hidl other (List.mem_cons_of_mem _ hother) o ho
    rcases List.mem_cons.mp hm with heq | hm
    · subst heq
      have hswept := (sweeps_retireOwners (t := anyTerms) hrest).swept
      by_contra hso
      obtain ⟨o', ho'⟩ := Option.ne_none_iff_exists'.mp hso
      obtain ⟨o, ho, -⟩ := hswept.owner ho'
      rw [retireOwnerLocked_gone] at ho
      cases ho
    · exact ih hrest hm

lemma sweeps_retireSessionLocked (hidl : a.sessionBusy id = false) :
    Sweeps t a (a.retireSessionLocked id) := by
  have howners : ∀ owner ∈ a.sessionOwners id, ∀ o,
      a.owners.get? owner = some o → a.ownerBusyLocked o = false := by
    intro owner hm o ho
    have hall := List.any_eq_false.mp hidl owner hm
    simpa [ho] using hall
  have hretire : Sweeps t a ((a.sessionOwners id).foldl retireOwnerLocked a) :=
    sweeps_retireOwners howners
  refine hretire.trans (.single (.dropSession ?_))
  intro owner o' ho' hsess
  obtain ⟨o, ho, href, -⟩ := hretire.swept.owner ho'
  have hm := mem_sessionOwners.mpr ⟨o, ho, href ▸ hsess⟩
  rw [retireOwners_gone howners hm] at ho'
  cases ho'

lemma sweeps_expireSession (now : Time) (a : Authority) (id : SessionID) :
    Sweeps t a (expireSession now a id) := by
  unfold expireSession
  split
  · exact .refl
  split_ifs with hlive hbusy
  · exact .refl
  · exact .refl
  · exact sweeps_retireSessionLocked (Bool.eq_false_iff.mpr hbusy)

lemma sweeps_expireSessionsLocked (a : Authority) (now : Time) :
    Sweeps t a (a.expireSessionsLocked now) :=
  .trans (.single (.forgetTickets a _)) (sweeps_foldl (sweeps_expireSession now) _ _)

lemma sweeps_expireSessionsNow (a : Authority) : Sweeps t a a.expireSessionsNow :=
  .trans (.single (.clock a)) (sweeps_expireSessionsLocked a.ticked a.time)

end Owners

/-! ## Readings of the clock -/

section Reads

variable (a)

lemma same_foldl {β : Type} {view : Authority → β} (hst : ∀ a x, view (step a x) = view a)
    (xs : List κ) (a : Authority) : view (xs.foldl step a) = view a := by
  induction xs generalizing a with
  | nil => rfl
  | cons x rest ih => rw [List.foldl_cons, ih, hst]

/-- What retiring an owner leaves alone. -/
def Authority.apart (a : Authority) : ℕ × Table SessionID SessionRecord :=
  (a.reads, a.sessions)

lemma finishLocked_apart (ref : ActionRef) (outcome : ActionOutcome)
    (code : Option Code) : (a.finishLocked ref outcome code).apart = a.apart := by
  unfold finishLocked
  split
  · rfl
  · split_ifs <;> rfl

lemma endGrantLocked_apart (id : GrantID) (state : GrantState) :
    (a.endGrantLocked id state).apart = a.apart := by
  unfold endGrantLocked
  split
  · rfl
  · split_ifs <;> rfl

lemma retireOwnerLocked_apart (id : OwnerID) : (a.retireOwnerLocked id).apart = a.apart := by
  unfold retireOwnerLocked
  split
  · rfl
  · exact (same_foldl (fun a grant => endGrantLocked_apart a grant
      .ownerRetired) _ _).trans (same_foldl (fun a request =>
        finishLocked_apart a ⟨id, request⟩ .cancelled none) _ a)

lemma expireSession_reads (now : Time) (a : Authority) (id : SessionID) :
    (expireSession now a id).reads = a.reads := by
  unfold expireSession
  split
  · rfl
  split_ifs
  · rfl
  · rfl
  · exact congrArg Prod.fst (same_foldl retireOwnerLocked_apart _ a)

lemma expireSessionsNow_reads : a.expireSessionsNow.reads = a.reads + 1 :=
  same_foldl (expireSession_reads a.time) _ _

end Reads

/-! ## Actions of the owners that stay -/

/-- No owner is added, and the actions of those that stay are untouched. -/
structure Spares (a a' : Authority) : Prop where
  fewer : ∀ {owner}, (a'.owners.get? owner).isSome → (a.owners.get? owner).isSome
  same : ∀ {owner}, (a'.owners.get? owner).isSome → ∀ request,
    a'.actionRecords.get? ⟨owner, request⟩ = a.actionRecords.get? ⟨owner, request⟩

section Spares

lemma Spares.refl : Spares a a := ⟨id, fun _ _ => rfl⟩

lemma Spares.trans (hfi : Spares a b) (hsec : Spares b c) : Spares a c := by
  refine ⟨fun hso => hfi.fewer (hsec.fewer hso), ?_⟩
  intro owner hso request
  rw [hsec.same hso, hfi.same (hsec.fewer hso)]

lemma spares_foldl (hst : ∀ a x, Spares a (step a x)) (xs : List κ) (a : Authority) :
    Spares a (xs.foldl step a) := by
  induction xs generalizing a with
  | nil => exact .refl
  | cons x rest ih => exact (hst a x).trans (ih (step a x))

lemma finishLocked_other (hne : other ≠ ref) (outcome : ActionOutcome) (code : Option Code) :
    (a.finishLocked ref outcome code).actionRecords.get? other = a.actionRecords.get? other := by
  unfold finishLocked
  split
  · rfl
  · split_ifs
    · rfl
    · exact Table.get?_modify_ne hne

lemma endGrantLocked_actionRecords (a : Authority) (id : GrantID) (state : GrantState) :
    (a.endGrantLocked id state).actionRecords = a.actionRecords := by
  unfold endGrantLocked
  split
  · rfl
  · split_ifs <;> rfl

lemma foldl_finish_other (hne : owner ≠ id)
    (requests : List RequestID) (a : Authority) (request : RequestID) :
    (requests.foldl (fun a request =>
      a.finishLocked ⟨id, request⟩ .cancelled none) a).actionRecords.get?
        ⟨owner, request⟩ = a.actionRecords.get? ⟨owner, request⟩ := by
  induction requests generalizing a with
  | nil => rfl
  | cons first rest ih =>
    rw [List.foldl_cons, ih, finishLocked_other]
    intro heq
    exact hne (congrArg ActionRef.owner heq)

lemma foldl_endGrant_actionRecords (state : GrantState) (grants : List GrantID) (a : Authority) :
    (grants.foldl (fun a grant =>
      a.endGrantLocked grant state) a).actionRecords = a.actionRecords := by
  induction grants generalizing a with
  | nil => rfl
  | cons first rest ih => rw [List.foldl_cons, ih, endGrantLocked_actionRecords]

lemma spares_retireOwnerLocked (a : Authority) (id : OwnerID) :
    Spares a (a.retireOwnerLocked id) := by
  unfold retireOwnerLocked
  split
  · exact .refl
  rename_i o hget
  set b := o.actions.foldl (fun a request => a.finishLocked ⟨id, request⟩ .cancelled none) a with hb
  set c := o.grants.foldl (fun a grant => a.endGrantLocked grant .ownerRetired) b with hc
  have howners : Table.Agree OwnerRecord.lists a.owners c.owners :=
    (agree_foldl (fun a request => finishLocked_owners a ⟨id, request⟩
      .cancelled none) o.actions a).trans
      (agree_foldl (fun a grant => endGrantLocked_owners a grant .ownerRetired) o.grants b)
  have hk : ∀ {owner}, ((c.dropOwner id o).owners.get? owner).isSome →
      owner ≠ id ∧ (c.owners.get? owner).isSome := by
    intro owner hso
    change ((Table.erase _ _).get? owner).isSome at hso
    rw [Table.get?_erase] at hso
    split_ifs at hso with heq
    · cases hso
    · exact ⟨heq, hso⟩
  constructor
  · intro owner hso
    rw [← howners.isSome]
    exact (hk hso).2
  · intro owner hso request
    change c.actionRecords.get? _ = _
    rw [hc, foldl_endGrant_actionRecords, hb, foldl_finish_other (hk hso).1]

lemma spares_expireSession (now : Time) (a : Authority) (id : SessionID) :
    Spares a (expireSession now a id) := by
  unfold expireSession
  split
  · exact .refl
  split_ifs
  · exact .refl
  · exact .refl
  · have hretire := spares_foldl spares_retireOwnerLocked
      (a.sessionOwners id) a
    exact ⟨hretire.fewer, hretire.same⟩

lemma spares_expireSessionsNow (a : Authority) : Spares a a.expireSessionsNow := by
  have hexpire := spares_foldl (spares_expireSession a.time)
    (a.ticked.sessions.toList.map Prod.fst) { a.ticked with
      tickets := a.ticked.tickets.filter fun _ ticket => a.time < ticket.expires }
  exact ⟨hexpire.fewer, hexpire.same⟩

lemma expireGrantsLocked_actionRecords (a : Authority) (id : ResourceID) (now : Time) :
    (a.expireGrantsLocked id now).actionRecords = a.actionRecords := by
  have hst : ∀ (a : Authority) grant,
      (expireGrant now a grant).actionRecords = a.actionRecords := by
    intro a grant
    unfold expireGrant
    split
    · rfl
    · split_ifs
      · rfl
      · exact endGrantLocked_actionRecords a grant .expired
  have hloop : ∀ (grants : List GrantID) (a : Authority),
      (grants.foldl (expireGrant now) a).actionRecords = a.actionRecords := by
    intro grants
    induction grants with
    | nil => exact fun _ => rfl
    | cons first rest ih =>
      intro a
      rw [List.foldl_cons, ih, hst]
  unfold expireGrantsLocked
  split_ifs
  · rfl
  · exact hloop _ a

end Spares

end RemoteFs.Locking
