import RemoteFs.Locking.Grants

/-!
# Actions and queues

An owner lists the requests it has actions for, and a pending action has a
registered owner.  The queue of a resource holds exactly the pending actions
that wait for it, each once.  An action in the hands of a call has a resource,
and one that has not reached its `Guard` decision is not queued yet.
-/

namespace RemoteFs.Locking

open Authority

variable {ref : ActionRef} {action action' : ActionRecord} {a a' : Authority}
  {id : ResourceID} {r : ResourceRecord} {job : Job}

/-- The phases before the decision inside `Guard`. -/
def Phase.early : Phase → Prop
  | .raising | .persisting | .persisted | .raised => True
  | .guarding | .leaving _ => False

/-- The fields of an action that are not mere bookkeeping. -/
def ActionRecord.core (action : ActionRecord) : ActionRecord :=
  { action with
    cancel := none, tombstone := false, processing := false, failure := none }

lemma ActionRecord.like_of_core (hcore : action'.core = action.core) :
    action.Like action' where
  receipt := (congrArg ActionRecord.receipt hcore :
    action'.core.receipt = action.core.receipt)
  resource := (congrArg ActionRecord.resource hcore :
    action'.core.resource = action.core.resource)
  waitUntil := (congrArg ActionRecord.waitUntil hcore :
    action'.core.waitUntil = action.core.waitUntil)
  grant := (congrArg ActionRecord.grant hcore :
    action'.core.grant = action.core.grant)
  started := (congrArg ActionRecord.started hcore :
    action'.core.started = action.core.started)
  call := (congrArg ActionRecord.call hcore :
    action'.core.call = action.core.call)

lemma ActionRecord.core_of_like (hlike : action.Like action') : action'.core = action.core := by
  obtain ⟨hreceipt, hres, hwai, hgrant, hstarted, hca⟩ := hlike
  unfold ActionRecord.core
  rw [hreceipt, hres, hwai, hgrant, hstarted, hca]

/-- The action that the worker of a resource works for. -/
def ResourceRecord.current (r : ResourceRecord) : Option ActionRef :=
  r.worker.attempt.map Prod.fst

/-- Whose grant it is and on which resource. -/
def GrantRecord.site (g : GrantRecord) : OwnerID × ResourceID :=
  (g.owner, g.resource)

/-- What holds of the record of an action. -/
structure Booked (a : Authority) (ref : ActionRef) (action : ActionRecord) : Prop where
  intent : action.receipt.Intent a.options
  live : action.receipt.outcome = .pending → (a.owners.get? ref.owner).isSome
  early : ∀ {phase}, action.call = some phase → phase.early → action.waitUntil = none
  patient : action.waitUntil.isSome → action.receipt.acquire.isSome
  granted : ∀ {id}, action.grant = some id →
    ∃ g, a.grantRecords.get? id = some g ∧ action.resource = some g.resource ∧ g.owner = ref.owner

structure Actions (a : Authority) : Prop where
  booked : ∀ {ref action}, a.actionRecords.get? ref = some action → Booked a ref action
  listed : ∀ {owner o request}, a.owners.get? owner = some o →
    (request ∈ o.actions ↔ (a.actionRecords.get? ⟨owner, request⟩).isSome)
  queued : ∀ {id r ref}, a.resourceRecords.get? id = some r → ref ∈ r.queue →
    ∃ action, a.actionRecords.get? ref = some action ∧
      action.receipt.outcome = .pending ∧ action.waitUntil.isSome ∧ action.resource = some id
  queueNodup : ∀ {id r}, a.resourceRecords.get? id = some r → r.queue.Nodup
  attempted : ∀ {id r ref}, a.resourceRecords.get? id = some r → r.current = some ref →
      ∃ action, a.actionRecords.get? ref = some action ∧
        action.resource = some id ∧ action.receipt.acquire.isSome

/-- A change that takes nothing from the actions. -/
structure Preserves (a a' : Authority) : Prop where
  options : a'.options = a.options
  owner : ∀ {id}, (a.owners.get? id).isSome → (a'.owners.get? id).isSome
  grants : ∀ {id g}, a.grantRecords.get? id = some g →
    ∃ g', a'.grantRecords.get? id = some g' ∧ g'.site = g.site

lemma Booked.keep (h : Booked a ref action) (hkeep : Preserves a a') :
    Booked a' ref action where
  intent := hkeep.options ▸ h.intent
  live := fun hp => hkeep.owner (h.live hp)
  early := h.early
  patient := h.patient
  granted := by
    intro id hgrant
    obtain ⟨g, hg, hpl, howner⟩ := h.granted hgrant
    obtain ⟨g', hg', hsite⟩ := hkeep.grants hg
    obtain ⟨howner', hplace'⟩ := Prod.mk.inj hsite
    exact ⟨g', hg', hplace'.symm ▸ hpl, howner'.trans howner⟩

lemma Booked.like (h : Booked a ref action) (hlike : action.Like action') :
    Booked a ref action' := by
  obtain ⟨hreceipt, hres, hwai, hgrant, -, hca⟩ := hlike
  constructor
  · exact hreceipt ▸ h.intent
  · exact hreceipt ▸ h.live
  · exact hca ▸ hwai ▸ h.early
  · exact hreceipt ▸ hwai ▸ h.patient
  · exact hgrant ▸ hres ▸ h.granted

/-- A change that keeps the lists of the owners and the queues. -/
structure Retains (a a' : Authority) : Prop where
  options : a'.options = a.options
  owners : Table.Agree OwnerRecord.actions a.owners a'.owners
  queues : Table.Agree ResourceRecord.queue a.resourceRecords a'.resourceRecords
  grants : ∀ {id g}, a.grantRecords.get? id = some g →
    ∃ g', a'.grantRecords.get? id = some g' ∧ g'.site = g.site

lemma Retains.preserves (h : Retains a a') : Preserves a a' :=
  ⟨h.options, fun hso => (h.owners.isSome _).trans hso, h.grants⟩

namespace Actions

lemma attempts (h : Actions a)
    (hres : Table.Agree ResourceRecord.current a.resourceRecords a'.resourceRecords) :
    ∀ {id r' ref}, a'.resourceRecords.get? id = some r' → r'.current = some ref →
        ∃ action, a.actionRecords.get? ref = some action ∧
          action.resource = some id ∧ action.receipt.acquire.isSome := by
  intro id r' ref hr' hcur
  obtain ⟨r, hr, hs⟩ := hres.exists hr'
  exact h.attempted hr (hs.symm.trans hcur)

lemma listed_of (h : Actions a) (howners : Table.Agree OwnerRecord.actions a.owners a'.owners)
    (hso : ∀ x, (a'.actionRecords.get? x).isSome = (a.actionRecords.get? x).isSome)
    (ho' : a'.owners.get? owner = some o') :
    request ∈ o'.actions ↔ (a'.actionRecords.get? ⟨owner, request⟩).isSome := by
  obtain ⟨o, ho, hs⟩ := howners.exists ho'
  rw [hs, h.listed ho, hso]

/-- A record that follows another without entering or leaving a queue. -/
structure Continues (a' : Authority) (ref : ActionRef)
    (action action' : ActionRecord) : Prop where
  acquire : action'.receipt.acquire = action.receipt.acquire
  outcome : action'.receipt.outcome = action.receipt.outcome
  waitUntil : action'.waitUntil = action.waitUntil
  resource : action'.resource = action.resource ∨ action.resource = none
  booked : Booked a' ref action'

lemma Continues.place (hnex : Continues a' ref action action')
    (hpl : action.resource = some id) : action'.resource = some id := by
  rcases hnex.resource with hk | hnone
  · exact hk.trans hpl
  · cases hnone.symm.trans hpl

lemma Continues.of_like (h : Actions a) (hre : Retains a a')
    (hact : a.actionRecords.get? ref = some action)
    (hlike : action.Like action') : Continues a' ref action action' :=
  ⟨congrArg ActionReceipt.acquire hlike.receipt,
    congrArg ActionReceipt.outcome hlike.receipt, hlike.waitUntil,
    .inl hlike.resource,
    ((h.booked hact).like hlike).keep hre.preserves⟩

section Following

variable (h : Actions a) (hre : Retains a a')
  (hattempts : ∀ {id r' ref}, a'.resourceRecords.get? id = some r' →
    r'.current = some ref → ∃ action, a.actionRecords.get? ref = some action ∧
      action.resource = some id ∧ action.receipt.acquire.isSome)
include h hre hattempts

/-- A change under which every action continues. -/
lemma follow (hrecords : ∀ x, Option.Rel (Continues a' x) (a.actionRecords.get? x)
      (a'.actionRecords.get? x)) : Actions a' := by
  have hforth : ∀ {x action}, a.actionRecords.get? x = some action →
      ∃ action', a'.actionRecords.get? x = some action' ∧
        Continues a' x action action' := by
    intro x action hx
    have hrel := hrecords x
    rw [hx] at hrel
    generalize a'.actionRecords.get? x = found at hrel
    cases hrel with
    | some hnex => exact ⟨_, rfl, hnex⟩
  refine ⟨?_, h.listed_of hre.owners ?_, ?_, ?_, ?_⟩
  · intro x action' hx
    have hrel := hrecords x
    rw [hx] at hrel
    generalize a.actionRecords.get? x = found at hrel
    cases hrel with
    | some hnex => exact hnex.booked
  · intro x
    have hrel := hrecords x
    generalize a.actionRecords.get? x = old, a'.actionRecords.get? x = new at hrel
    cases hrel <;> rfl
  · intro id r' ref hr' hm
    obtain ⟨r, hr, hs⟩ := hre.queues.exists hr'
    obtain ⟨action, hact, hp, hwai, hpl⟩ := h.queued hr (hs ▸ hm)
    obtain ⟨action', haction', hnex⟩ := hforth hact
    exact ⟨action', haction', hnex.outcome.trans hp,
      hnex.waitUntil ▸ hwai, hnex.place hpl⟩
  · intro id r' hr'
    obtain ⟨r, hr, hs⟩ := hre.queues.exists hr'
    rw [hs]
    exact h.queueNodup hr
  · intro id r' ref hr' hcur
    obtain ⟨action, hact, hpl, hacquire⟩ := hattempts hr' hcur
    obtain ⟨action', haction', hnex⟩ := hforth hact
    exact ⟨action', haction', hnex.place hpl, hnex.acquire ▸ hacquire⟩

lemma edit {change : ActionRecord → ActionRecord}
    (hac : a'.actionRecords = a.actionRecords.modify ref change)
    (hnex : ∀ action, a.actionRecords.get? ref = some action →
      Continues a' ref action (change action)) : Actions a' := by
  refine h.follow hre hattempts fun x => ?_
  rw [hac]
  cases hx : a.actionRecords.get? x with
  | none =>
    rw [Table.get?_modify_of_none hx]
    exact .none
  | some action =>
    rw [Table.get?_modify_of_some hx]
    refine .some ?_
    split_ifs with heq
    · subst heq
      exact hnex action hx
    · exact .of_like h hre hx ⟨rfl, rfl, rfl, rfl, rfl, rfl⟩

end Following

lemma congr (h : Actions a) (howners : Table.Agree OwnerRecord.actions a.owners a'.owners)
    (hqueues : Table.Agree ResourceRecord.queue a.resourceRecords a'.resourceRecords)
    (hattempts : ∀ {id r' ref}, a'.resourceRecords.get? id = some r' →
      r'.current = some ref → ∃ action, a.actionRecords.get? ref = some action ∧
          action.resource = some id ∧ action.receipt.acquire.isSome)
    (hac : Table.Agree ActionRecord.core a.actionRecords a'.actionRecords)
    (hgrants : Table.Agree GrantRecord.site a.grantRecords a'.grantRecords)
    (hoptions : a'.options = a.options) : Actions a' := by
  have hre : Retains a a' := by
    refine ⟨hoptions, howners, hqueues, fun {id g} hg => ?_⟩
    obtain ⟨g', hg', hsite⟩ := hgrants.symm.exists hg
    exact ⟨g', hg', hsite.symm⟩
  refine h.follow hre hattempts fun x => ?_
  have hview := hac x
  cases hx : a.actionRecords.get? x with
  | none =>
    rw [hx] at hview
    rw [Option.map_eq_none_iff.mp hview]
    exact .none
  | some action =>
    rw [hx] at hview
    obtain ⟨action', hx', hcore⟩ := Option.map_eq_some_iff.mp hview
    rw [hx']
    exact .some (.of_like h hre hx (ActionRecord.like_of_core hcore))

/-- The parts of two authorities that the invariant reads. -/
structure Agree (a a' : Authority) : Prop where
  queues : Table.Agree ResourceRecord.queue a.resourceRecords a'.resourceRecords
  current : Table.Agree ResourceRecord.current a.resourceRecords a'.resourceRecords
  actions : Table.Agree ActionRecord.core a.actionRecords a'.actionRecords
  owners : Table.Agree OwnerRecord.actions a.owners a'.owners
  grants : Table.Agree GrantRecord.site a.grantRecords a'.grantRecords
  options : a'.options = a.options

lemma Agree.refl : Agree a a := ⟨.refl, .refl, .refl, .refl, .refl, rfl⟩

lemma keep (h : Actions a) (hs : Agree a a') : Actions a' :=
  h.congr hs.owners hs.queues (h.attempts hs.current) hs.actions hs.grants
    hs.options

variable {a : Authority} (h : Actions a)

include h

lemma touch (id : SessionID) : Actions (a.touchSessionLocked id) := h.keep { Agree.refl with }

/-! ## Owners and resources -/

lemma addOwner (htokens : Tokens a) (id : SessionID) (request : RequestID) :
    Actions (a.addOwner id request) := by
  refine ⟨fun hget => (h.booked hget).keep
    ⟨rfl, fun hso => ?_, fun hg => ⟨_, hg, rfl⟩⟩, ?_, h.queued, h.queueNodup,
    h.attempted⟩
  · change ((Table.set _ _ _).get? _).isSome
    rw [Table.get?_set]
    split_ifs
    · rfl
    · exact hso
  · intro owner o other hget
    rcases Table.set_cases hget with ⟨rfl, rfl⟩ | ⟨-, hold⟩
    · change other ∈ [] ↔ (a.actionRecords.get? ⟨a.lastToken + 1, other⟩).isSome
      rw [htokens.fresh_action]
      simp
    · exact h.listed hold

lemma dropOwner (hget : a.owners.get? id = some o) (hended : ∀ request ∈ o.actions, ∀ action,
      a.actionRecords.get? ⟨id, request⟩ = some action → action.receipt.outcome ≠ .pending) :
    Actions (a.dropOwner id o) := by
  refine ⟨fun {ref action} hact => { h.booked hact with live := ?_ },
    fun hget => h.listed (Table.erase_cases hget).2,
    h.queued, h.queueNodup, h.attempted⟩
  intro hp
  change ((Table.erase _ _).get? ref.owner).isSome
  rw [Table.get?_erase_ne ?_]
  · exact (h.booked hact).live hp
  · intro heq
    subst heq
    have hm : ref.request ∈ o.actions :=
      (h.listed hget).mpr (Option.isSome_iff_exists.mpr ⟨action, hact⟩)
    exact hended _ hm action hact hp

lemma adopt (key : BackendKey) : Actions (a.adopt key) := by
  have hnew : ∀ {id r}, (a.adopt key).resourceRecords.get? id = some r →
      (r.queue = [] ∧ r.current = none) ∨ a.resourceRecords.get? id = some r := by
    intro id r hget
    rcases Table.set_cases hget with ⟨-, rfl⟩ | ⟨-, hget⟩
    · exact .inl ⟨rfl, rfl⟩
    · exact .inr hget
  refine ⟨fun hget => (h.booked hget).keep ⟨rfl, id, fun hg => ⟨_, hg, rfl⟩⟩, h.listed, ?_, ?_, ?_⟩
  · intro id r ref hr hm
    rcases hnew hr with ⟨hempty, -⟩ | hold
    · rw [hempty] at hm
      cases hm
    · exact h.queued hold hm
  · intro id r hr
    rcases hnew hr with ⟨hempty, -⟩ | hold
    · rw [hempty]
      exact List.nodup_nil
    · exact h.queueNodup hold
  · intro id r ref hr hattempt
    rcases hnew hr with ⟨-, hnone⟩ | hold
    · cases hnone.symm.trans hattempt
    · exact h.attempted hold hattempt

/-! ## The life of an action -/

lemma enroll (receipt : ActionReceipt) (tombstone : Bool)
    (howner : a.owners.get? ref.owner = some o)
    (hnew : a.actionRecords.get? ref = none) (hintent : receipt.Intent a.options) :
    Actions (a.enroll ref (.enrolled receipt tombstone)) := by
  have hact : ∀ x, (a.enroll ref (.enrolled receipt tombstone)).actionRecords.get? x =
        if x = ref then some (.enrolled receipt tombstone)
        else a.actionRecords.get? x := fun x => Table.get?_set _ _ _ _
  have hkeep : ∀ {x action}, a.actionRecords.get? x = some action →
      (a.enroll ref (.enrolled receipt tombstone)).actionRecords.get? x =
        some action := by
    intro x action hx
    rw [hact, if_neg ?_]
    · exact hx
    · intro heq
      rw [heq, hnew] at hx
      cases hx
  have hlist : ∀ {owner o'}, (a.enroll ref
      (.enrolled receipt tombstone)).owners.get? owner = some o' →
        ∃ old, a.owners.get? owner = some old ∧ o'.actions =
          if owner = ref.owner then ref.request :: old.actions
          else old.actions := by
    intro owner o' ho'
    obtain ⟨old, hold, rfl⟩ := Table.of_get?_modify ho'
    refine ⟨old, hold, ?_⟩
    split_ifs <;> rfl
  have hso : ∀ owner, (a.owners.get? owner).isSome →
      ((a.enroll ref (.enrolled receipt tombstone)).owners.get? owner).isSome := by
    intro owner hso
    obtain ⟨old, hold⟩ := Option.isSome_iff_exists.mp hso
    exact Option.isSome_iff_exists.mpr ⟨_, Table.get?_modify_of_some hold⟩
  constructor
  · intro x action hx
    rw [hact] at hx
    split_ifs at hx with heq
    · cases hx
      exact ⟨hintent, fun _ => hso _ (by rw [heq, howner]; rfl),
        fun _ _ => rfl, fun hwai => (by cases hwai), fun hgrant => (by cases hgrant)⟩
    · exact (h.booked hx).keep ⟨rfl, hso _, fun hg => ⟨_, hg, rfl⟩⟩
  · intro owner o' request ho'
    obtain ⟨old, hold, hac⟩ := hlist ho'
    rw [hac, hact]
    by_cases heq : owner = ref.owner
    · rw [if_pos heq, List.mem_cons, h.listed hold]
      by_cases hrequest : request = ref.request
      · have href : (⟨owner, request⟩ : ActionRef) = ref := by rw [heq, hrequest]
        rw [if_pos href]
        simp [hrequest]
      have href : (⟨owner, request⟩ : ActionRef) ≠ ref := by
        intro href
        exact hrequest (congrArg ActionRef.request href)
      simp [href, hrequest]
    have href : (⟨owner, request⟩ : ActionRef) ≠ ref := by
      intro href
      exact heq (congrArg ActionRef.owner href)
    rw [if_neg heq, if_neg href]
    exact h.listed hold
  · intro id r x hr hm
    obtain ⟨action, hx, hp, hwai, hpl⟩ := h.queued hr hm
    exact ⟨action, hkeep hx, hp, hwai, hpl⟩
  · exact h.queueNodup
  · intro id r x hr hattempt
    obtain ⟨action, hx, hpl, hacquire⟩ := h.attempted hr hattempt
    exact ⟨action, hkeep hx, hpl, hacquire⟩

lemma hold (grant : Option GrantID) (started : Time)
    (hget : a.actionRecords.get? ref = some (.enrolled receipt false))
    (hheld : ∀ held, grant = some held → ∃ g,
      a.grantRecords.get? held = some g ∧ g.resource = id ∧ g.owner = ref.owner) :
    Actions (a.hold ref id grant started) := by
  have hcur : Table.Agree ResourceRecord.current a.resourceRecords
      (a.hold ref id grant started).resourceRecords :=
    .edit rfl
  have hre : Retains a (a.hold ref id grant started) :=
    ⟨rfl, .refl, .edit rfl, fun hg => ⟨_, hg, rfl⟩⟩
  refine h.edit hre (h.attempts hcur) rfl fun action hact => ?_
  cases hget.symm.trans hact
  refine ⟨rfl, rfl, rfl, .inr rfl, { (h.booked hget).keep hre.preserves with
    early := fun _ _ => rfl, granted := ?_ }⟩
  intro held hheldBy
  obtain ⟨g, hg, hpl, howner⟩ := hheld held hheldBy
  exact ⟨g, hg, congrArg some hpl.symm, howner⟩

omit h in
lemma early_of_advances {before after : Phase} {raising : Option Job}
    {watermark durable : Duration}
    (hnex : Advances a job ref before after raising watermark durable)
    (hearly : after.early) : before.early := by
  cases hnex with
  | abandon | storeFailed | enterGuard => cases hearly
  | sufficient | enterRaise | store | leaveRaise => exact True.intro

lemma phase {before after : Phase} {raising : Option Job}
    {watermark durable : Duration} (hph : a.phase? job = some (ref, before))
    (hnex : Advances a job ref before after raising watermark durable) :
    Actions { a.setPhase job ref after with raising, watermark, durable } := by
  cases job with
  | call owner =>
    obtain ⟨phase, hca, heq⟩ := Option.map_eq_some_iff.mp hph
    obtain ⟨action, hact, hca⟩ := Option.bind_eq_some_iff.mp hca
    obtain ⟨rfl, rfl⟩ := Prod.mk.inj heq
    refine h.edit ⟨rfl, .refl, .refl, fun hg => ⟨_, hg, rfl⟩⟩
      (h.attempts .refl) rfl fun found hf => ?_
    cases hact.symm.trans hf
    have hbooked := h.booked hact
    refine ⟨rfl, rfl, rfl, .inl rfl, { hbooked with early := ?_ }⟩
    intro next hnextCall hearly
    cases hnextCall
    exact hbooked.early hca (early_of_advances hnex hearly)
  | worker id =>
    obtain ⟨r, hr, hattempt⟩ := Option.bind_eq_some_iff.mp hph
    refine h.keep { Agree.refl with queues := .edit rfl, current := .modify ?_ }
    intro found hf
    cases hr.symm.trans hf
    unfold ResourceRecord.current
    rw [hattempt]
    rfl

lemma unhold {phase : Phase} (hph : a.phase? job = some (ref, phase)) :
    Actions (a.unhold job ref) := by
  cases job with
  | call owner =>
    have hcur : Table.Agree ResourceRecord.current a.resourceRecords
        (a.unhold (.call owner) ref).resourceRecords :=
      .edit rfl
    have hre : Retains a (a.unhold (.call owner) ref) :=
      ⟨rfl, .refl, .edit rfl, fun hg => ⟨_, hg, rfl⟩⟩
    refine h.edit hre (h.attempts hcur) rfl fun action hact => ?_
    exact ⟨rfl, rfl, rfl, .inl rfl, { (h.booked hact).keep hre.preserves with
        early := fun hca => (by cases hca) }⟩
  | worker id =>
    refine h.congr .refl (.edit rfl) ?_ (.edit rfl) .refl rfl
    intro place r' current hr' hcur
    obtain ⟨r, hr, rfl⟩ := Table.of_get?_modify hr'
    split_ifs at hcur
    · cases hcur
    · exact h.attempted hr hcur

lemma attempt (hrecord : a.resourceRecords.get? id = some r)
    (hhead : r.queue.head? = some current) : Actions (a.attempt id current) := by
  refine h.congr .refl (.edit rfl) ?_ (.edit rfl) .refl rfl
  intro place r' ref hr' hcur
  obtain ⟨old, hold, rfl⟩ := Table.of_get?_modify hr'
  split_ifs at hcur with heq
  · cases hcur
    obtain ⟨action, hact, -, hwai, hpl⟩ := h.queued hrecord (List.mem_of_head? hhead)
    exact ⟨action, hact, heq ▸ hpl, (h.booked hact).patient hwai⟩
  · exact h.attempted hold hcur

lemma insertGrant (htokens : Tokens a) (request : AcquireRequest)
    (hget : a.actionRecords.get? ref = some action) (hres : action.resource = some id) :
    Actions (a.insertGrant ref id request) := by
  have hcur : Table.Agree ResourceRecord.current a.resourceRecords
      (a.insertGrant ref id request).resourceRecords :=
    .edit rfl
  have hre : Retains a (a.insertGrant ref id request) := by
    refine ⟨rfl, .edit rfl, .edit rfl,
      fun {grant g} hg => ⟨g, (Table.get?_set_ne ?_).trans hg, rfl⟩⟩
    exact ne_of_lt (Nat.lt_succ_of_le (htokens.grant hg))
  refine h.edit hre (h.attempts hcur) rfl fun found hf => ?_
  cases hget.symm.trans hf
  refine ⟨rfl, rfl, rfl, .inl rfl, { (h.booked hget).keep hre.preserves with
      intent := ⟨(h.booked hget).intent.acquire, (h.booked hget).intent.renew⟩
      granted := ?_ }⟩
  intro grant hgrant
  cases hgrant
  exact ⟨_, Table.get?_set_self _ _ _, hres, rfl⟩

lemma extendGrant (ref : ActionRef) (grant : GrantID) (g : GrantRecord)
    (request : RenewRequest) : Actions (a.extendGrant ref grant g request) := by
  have hsites : Table.Agree GrantRecord.site a.grantRecords
      (a.extendGrant ref grant g request).grantRecords :=
    .edit rfl
  have hre : Retains a (a.extendGrant ref grant g request) := by
    refine ⟨rfl, .refl, .refl, fun hg => ?_⟩
    obtain ⟨g', hg', hsite⟩ := hsites.symm.exists hg
    exact ⟨g', hg', hsite.symm⟩
  refine h.edit hre (h.attempts .refl) rfl fun action hact => ?_
  exact ⟨rfl, rfl, rfl, .inl rfl, { (h.booked hact).keep hre.preserves with
      intent := ⟨(h.booked hact).intent.acquire, (h.booked hact).intent.renew⟩ }⟩

/-! ## Queues -/

lemma enqueue (limit : Time) (hget : a.actionRecords.get? ref = some action)
    (hp : action.receipt.outcome = .pending) (hca : action.call = some .guarding)
    (hwai : action.waitUntil = none) (hacquire : action.receipt.acquire.isSome)
    (hres : action.resource = some id) (hrecord : a.resourceRecords.get? id = some r) :
    Actions (a.enqueue ref id limit) := by
  have howners : Table.Agree OwnerRecord.actions a.owners
      (a.enqueue ref id limit).owners := .edit rfl
  have hact : ∀ x, (a.enqueue ref id limit).actionRecords.get? x =
      if x = ref then some { action with waitUntil := some limit }
      else a.actionRecords.get? x := by
    intro x
    change (Table.modify _ _ _).get? x = _
    rw [Table.get?_modify, hget]
    rfl
  have hqueue : ∀ place, (a.enqueue ref id limit).resourceRecords.get? place =
      if place = id then some { r with queue := r.queue ++ [ref] }
      else a.resourceRecords.get? place := by
    intro place
    change (Table.modify _ _ _).get? place = _
    rw [Table.get?_modify, hrecord]
    rfl
  have hkeep : Preserves a (a.enqueue ref id limit) :=
    ⟨rfl, fun hso => (howners.isSome _).trans hso, fun hg => ⟨_, hg, rfl⟩⟩
  -- An action that waits already is another one.
  have hother : ∀ {x found}, a.actionRecords.get? x = some found →
      found.waitUntil.isSome → x ≠ ref := by
    intro x found hx hwa heq
    rw [heq, hget] at hx
    cases hx
    rw [hwai] at hwa
    cases hwa
  refine ⟨?_, h.listed_of howners (Table.isSome_get?_modify _ _ _), ?_, ?_, ?_⟩
  · intro x found hx
    rw [hact] at hx
    split_ifs at hx with heq
    · cases hx
      subst heq
      exact { (h.booked hget).keep hkeep with
        early := fun {phase} hph hearly => by
          cases hca.symm.trans hph
          cases hearly
        patient := fun _ => hacquire }
    · exact (h.booked hx).keep hkeep
  · intro place r' x hr' hm
    rw [hqueue] at hr'
    rw [hact]
    split_ifs at hr' with hpl
    · cases hr'
      rcases List.mem_append.mp hm with hm | hm
      · obtain ⟨found, hx, hf, hwa, hwhere⟩ := h.queued hrecord hm
        rw [if_neg (hother hx hwa)]
        exact ⟨found, hx, hf, hwa, hwhere.trans (congrArg some hpl.symm)⟩
      · rw [if_pos (List.mem_singleton.mp hm)]
        exact ⟨_, rfl, hp, rfl, hres.trans (congrArg some hpl.symm)⟩
    · obtain ⟨found, hx, hf, hwa, hwhere⟩ := h.queued hr' hm
      rw [if_neg (hother hx hwa)]
      exact ⟨found, hx, hf, hwa, hwhere⟩
  · intro place r' hr'
    rw [hqueue] at hr'
    split_ifs at hr'
    · cases hr'
      refine (h.queueNodup hrecord).append (List.nodup_singleton ref) ?_
      intro x hx hlast
      obtain ⟨found, hf, -, hwa, -⟩ := h.queued hrecord hx
      exact hother hf hwa (List.mem_singleton.mp hlast)
    · exact h.queueNodup hr'
  · intro place r' x hr' hcur
    obtain ⟨found, hx, hwhere, hasked⟩ := h.attempts (.edit rfl) hr' hcur
    rw [hact]
    split_ifs with heq
    · rw [heq, hget] at hx
      cases hx
      exact ⟨_, rfl, hwhere, hasked⟩
    · exact ⟨found, hx, hwhere, hasked⟩

/-- A finished action leaves the queue it waited in, and no other action does. -/
lemma finishPending (code : Option Code) (hget : a.actionRecords.get? ref = some action)
    (hout : outcome ≠ .pending) : Actions (a.finishPending ref action outcome code) := by
  set a' := a.finishPending ref action outcome code with ha'
  have howners : Table.Agree OwnerRecord.actions a.owners a'.owners := finishPending_owners _ _ rfl
  have hcur : Table.Agree ResourceRecord.current a.resourceRecords
      a'.resourceRecords := finishPending_resources _ _ rfl
  have hact : ∀ x, a'.actionRecords.get? x =
      if x = ref then some (action.finished outcome code)
      else a.actionRecords.get? x := by
    intro x
    change (Table.modify _ _ _).get? x = _
    rw [Table.get?_modify, hget]
    rfl
  -- The queues lose the finished action.
  have hqueue : ∀ {place r'}, a'.resourceRecords.get? place = some r' →
      ∃ r, a.resourceRecords.get? place = some r ∧ r'.queue.Sublist r.queue ∧ ref ∉ r'.queue := by
    intro place r' hr'
    have hk : ∀ {r}, a.resourceRecords.get? place = some r →
        (action.waitUntil.isSome → action.resource ≠ some place) → ref ∉ r.queue := by
      intro r hr helsewhere hm
      obtain ⟨found, hf, -, hwa, hpl⟩ := h.queued hr hm
      cases hget.symm.trans hf
      exact helsewhere hwa hpl
    change (if _ then _ else _ : Table ResourceID ResourceRecord).get? place = some r' at hr'
    split_ifs at hr' with hwa
    · unfold dequeue at hr'
      split at hr'
      · rename_i hnone
        exact ⟨r', hr', .refl _, hk hr' (fun _ hpl => by
          rw [hnone] at hpl
          cases hpl)⟩
      rename_i id hid
      obtain ⟨r, hr, rfl⟩ := Table.of_get?_modify hr'
      refine ⟨r, hr, ?_⟩
      split_ifs with heq
      · exact ⟨List.erase_sublist, (h.queueNodup hr).not_mem_erase⟩
      · refine ⟨.refl _, hk hr (fun _ hpl => ?_)⟩
        rw [hid] at hpl
        exact heq (Option.some.inj hpl).symm
    · exact ⟨r', hr', .refl _, hk hr' (fun hyes => absurd hyes hwa)⟩
  refine ⟨?_, h.listed_of howners (Table.isSome_get?_modify _ _ _), ?_, ?_, ?_⟩
  · intro x found hx
    rw [hact] at hx
    split_ifs at hx with heq
    · cases hx
      subst heq
      have hbooked := h.booked hget
      exact { hbooked with
        intent := ⟨hbooked.intent.acquire, hbooked.intent.renew⟩
        live := fun hp => absurd hp hout }
    · exact (h.booked hx).keep
        ⟨rfl, fun hso => (howners.isSome _).trans hso, fun hg => ⟨_, hg, rfl⟩⟩
  · intro place r' x hr' hm
    obtain ⟨r, hr, hsub, hnot⟩ := hqueue hr'
    obtain ⟨found, hf, hp, hwa, hpl⟩ := h.queued hr (hsub.subset hm)
    have hne : x ≠ ref := fun heq => hnot (heq ▸ hm)
    exact ⟨found, (hact x).trans ((if_neg hne).trans hf), hp, hwa, hpl⟩
  · intro place r' hr'
    obtain ⟨r, hr, hsub, -⟩ := hqueue hr'
    exact (h.queueNodup hr).sublist hsub
  · intro place r' x hr' hattempt
    obtain ⟨found, hx, hpl, hacquire⟩ := h.attempts hcur hr' hattempt
    rw [hact]
    split_ifs with heq
    · rw [heq, hget] at hx
      cases hx
      exact ⟨_, rfl, hpl, hacquire⟩
    · exact ⟨found, hx, hpl, hacquire⟩

end Actions

end RemoteFs.Locking
