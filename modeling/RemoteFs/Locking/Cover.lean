import RemoteFs.Locking.Effects
import RemoteFs.Locking.Flights

/-!
# Sessions cover leases and waits

A lease is set just before the session of its owner is touched, and the idle
lifetime of a session is at least as long as a lease; so a session outlives the
leases of its owners.  The wait of an acquisition is counted from a reading that
comes after the touch.  It is covered only if the clock has moved little between
the two.
-/

namespace RemoteFs.Locking

open Authority

variable {owner : OwnerID} {o : OwnerRecord}

variable {t : Terms} {a a' : Authority}

/-! ## Sessions over time -/

lemma SessionRecord.le_extend (s : SessionRecord) (limit : Time) :
    s.expires ≤ (s.extend limit).expires ∧ limit ≤ (s.extend limit).expires := by
  unfold SessionRecord.extend
  split_ifs with hless
  · exact ⟨hless.le, le_refl _⟩
  · exact ⟨le_refl _, not_lt.mp hless⟩

lemma Core.expires (h : Core a) (hmv : Move t a a') (ho : a.owners.get? owner = some o) :
    a.sessionExpires o.ref.session ≤ a'.sessionExpires o.ref.session := by
  obtain ⟨s, hs⟩ := Option.isSome_iff_exists.mp (h.tokens.home ho)
  have hextend : ∀ {id limit}, a'.sessions = a.sessions.modify id
      (SessionRecord.extend · limit) →
        a.sessionExpires o.ref.session ≤ a'.sessionExpires o.ref.session := by
    intro id limit hsessions
    unfold sessionExpires
    rw [hsessions, Table.get?_modify, hs]
    split_ifs with heq
    · rw [← heq, hs]
      exact (s.le_extend limit).1
    · exact le_refl _
  cases hmv with
  | touch | issue | prolong => exact hextend rfl
  | addSession =>
    have hne : o.ref.session ≠ a.lastToken + 1 := ne_of_lt (Nat.lt_succ_of_le (h.tokens.session hs))
    unfold sessionExpires
    change _ ≤ (((Table.set _ _ _).get? _).map _).getD 0
    rw [Table.get?_set_ne hne]
  | @addOwner id s' request =>
    have hagree : Table.Agree SessionRecord.expires a.sessions
        (a.addOwner id request).sessions := .edit rfl
    unfold sessionExpires
    rw [hagree o.ref.session]
  | dropSession hempty =>
    unfold sessionExpires
    rw [Table.get?_erase_ne (hempty owner o ho)]
  | _ => exact le_refl _

lemma Core.same_owner (h : Core a) (hmv : Move t a a') (ho : a.owners.get? owner = some o)
    (ho' : a'.owners.get? owner = some o') : o'.ref = o.ref := by
  have hke : Table.Agree OwnerRecord.ref a.owners a'.owners → o'.ref = o.ref := by
    intro hagree
    obtain ⟨found, hf, hsm⟩ := hagree.exists ho'
    cases ho.symm.trans hf
    exact hsm
  cases hmv with
  | addOwner =>
    have hne : owner ≠ a.lastToken + 1 := ne_of_lt (Nat.lt_succ_of_le (h.tokens.owner ho))
    have hg := (Table.get?_set_ne hne).symm.trans ho'
    cases ho.symm.trans hg
    rfl
  | endGrant | enroll | enqueue => exact hke (.edit rfl)
  | finish => exact hke (finishPending_owners _ _ rfl)
  | dropOwner =>
    cases ho.symm.trans (Table.erase_cases ho').2
    rfl
  | @issue ref action _ id r request =>
    have hinsert : Table.Agree OwnerRecord.ref a.owners (a.insertGrant ref id request).owners :=
      .edit rfl
    exact hke (hinsert.trans (finishPending_owners .granted none rfl))
  | prolong => exact hke (finishPending_owners .renewed none rfl)
  | _ => exact hke .refl

/-- What the session of an owner covers before, it covers after. -/
def Authority.KeepsCover (a a' : Authority) : Prop :=
  ∀ ⦃owner : OwnerID⦄ ⦃o o' : OwnerRecord⦄ ⦃limit : Time⦄,
    a.owners.get? owner = some o → a'.owners.get? owner = some o' →
      limit ≤ a.sessionExpires o.ref.session →
        limit ≤ a'.sessionExpires o'.ref.session

lemma Core.keepsCover (h : Core a) (hmv : Move t a a') : a.KeepsCover a' := by
  intro owner o o' limit ho ho' hco
  rw [h.same_owner hmv ho ho']
  exact hco.trans (h.expires hmv ho)

/-! ## Leases -/

/-- No active lease outlasts the session of its owner. -/
def Authority.LeasesCovered (a : Authority) : Prop :=
  ∀ id g o, a.grantRecords.get? id = some g → g.state = .active →
    a.owners.get? g.owner = some o →
      g.deadline ≤ a.sessionExpires o.ref.session

lemma Actions.ttl_le (h : Actions a) (hvalid : a.options.Valid)
    (ref : ActionRef) : a.ttl ref ≤ a.options.maxLease := by
  have hpos : (0 : Duration) ≤ a.options.maxLease := by
    have hlease := hvalid.durations a.options.maxLease (by simp [Options.durations])
    exact le_trans (by decide) hlease
  unfold ttl
  split
  · exact hpos
  rename_i action hg
  have hintent := (h.booked hg).intent
  split
  · exact (hintent.acquire _ ‹_›).2.2.1
  · exact (hintent.renew _ ‹_›).2
  · exact hpos

lemma Authority.LeasesCovered.initial (options : Options)
    (verify : Capability → Except Fault Unit) (now : ℕ → Time) (maxLease : Duration)
    (start : Time) : (Authority.initial options verify now maxLease start).LeasesCovered := by
  intro id g o hg
  cases (Table.get?_empty id).symm.trans hg

lemma Authority.LeasesCovered.move (hco : a.LeasesCovered)
    (h : Core a) (hclock : Monotone a.now) (hvalid : a.options.Valid)
    (hmv : Move t a a') : a'.LeasesCovered := by
  intro id g' o' hget' hat ho'
  have hold : ∀ {g}, a.grantRecords.get? id = some g → g.state = .active →
      g'.owner = g.owner → g.deadline ≤ a'.sessionExpires o'.ref.session := by
    intro g hg hat hholder
    obtain ⟨o, ho, -⟩ := (h.grants.granted hg).held hat
    exact h.keepsCover hmv ho (hholder ▸ ho') (hco id g o hg hat ho)
  rcases hmv.lease hget' hat with
    ⟨hg, hat, hdl, hholder⟩ | ⟨hphase, ho, hholder, hdl, hreads, hsessions⟩
  · rw [hdl]
    exact hold hg hat hholder
  rename_i job ref o
  obtain ⟨s, hs⟩ := Option.isSome_iff_exists.mp (h.tokens.home ho)
  -- the session is touched after the reading that the lease starts from
  have htouched : a.time + a.ttl ref ≤ a'.sessionExpires o'.ref.session := by
    rw [h.same_owner hmv ho (hholder ▸ ho')]
    unfold sessionExpires
    rw [hsessions, Table.get?_modify_self, hs]
    calc a.time + a.ttl ref
        ≤ a.now (a.reads + 1) + a.options.sessionIdle :=
          Int.add_le_add (hclock (Nat.le_succ _))
            ((h.actions.ttl_le hvalid ref).trans hvalid.coversLease)
      _ ≤ _ := (s.le_extend _).2
  rcases hdl with hdl | ⟨g, hg, hat, howner, hdl⟩
  · rwa [hdl]
  · rw [hdl]
    exact max_le (hold hg hat (hholder.trans howner.symm)) htouched

/-! ## Waits -/

/-- A waiting acquisition waits for what its request allows, counted from its
start. -/
def ActionRecord.WaitsFor (action : ActionRecord) (w : Time) : Prop :=
  ∃ request, action.receipt.acquire = some request ∧
    w = action.started + request.wait

/-- A later record of the same acquisition. -/
structure ActionRecord.Replans (action action' : ActionRecord) : Prop where
  acquire : action'.receipt.acquire = action.receipt.acquire
  started : action'.started = action.started
  resource : action'.resource = action.resource
  waitUntil : ∀ w, action'.waitUntil = some w → action.waitUntil = some w ∨ action.WaitsFor w
  pending : action'.receipt.outcome = .pending → action.receipt.outcome = .pending

lemma ActionRecord.Replans.refl {action : ActionRecord} : action.Replans action :=
  ⟨rfl, rfl, rfl, fun _ => .inl, id⟩

/-- No pending acquisition waits longer than the session of its owner lives. -/
structure Authority.WaitsCovered (a : Authority) : Prop where
  limit : ∀ {ref action w}, a.actionRecords.get? ref = some action →
    action.waitUntil = some w → action.WaitsFor w
  covered : ∀ {ref action request o}, a.actionRecords.get? ref = some action →
    action.receipt.outcome = .pending → action.receipt.acquire = some request →
      action.resource.isSome → a.owners.get? ref.owner = some o →
        action.started + request.wait ≤ a.sessionExpires o.ref.session

namespace Authority.WaitsCovered

section

variable (hco : a.WaitsCovered)
include hco

lemma keep (h : Core a) (hke : a.KeepsCover a')
    (ha : ∀ {ref action'}, a'.actionRecords.get? ref = some action' →
      ∃ action, a.actionRecords.get? ref = some action ∧
        action.Replans action') : a'.WaitsCovered := by
  constructor
  · intro ref action' w hget' hwa
    obtain ⟨action, hg, hreplans⟩ := ha hget'
    unfold ActionRecord.WaitsFor
    rw [hreplans.acquire, hreplans.started]
    rcases hreplans.waitUntil w hwa with hwas | hset
    · exact hco.limit hg hwas
    · exact hset
  · intro ref action' request o' hget' hp hacquire hplaced ho'
    obtain ⟨action, hg, hreplans⟩ := ha hget'
    have hwas := hreplans.pending hp
    obtain ⟨o, ho⟩ := Option.isSome_iff_exists.mp ((h.actions.booked hg).live hwas)
    rw [hreplans.started]
    refine hke ho ho' (hco.covered hg hwas (hreplans.acquire.symm.trans hacquire) ?_ ho)
    rwa [← hreplans.resource]

lemma of_agree (h : Core a) (hke : a.KeepsCover a')
    (hagree : Table.Agree (fun action : ActionRecord => (action.receipt,
      action.started, action.waitUntil, action.resource))
        a.actionRecords a'.actionRecords) : a'.WaitsCovered := by
  refine hco.keep h hke fun {ref action'} hget' => ?_
  obtain ⟨action, hg, hsm⟩ := hagree.exists hget'
  simp only [Prod.mk.injEq] at hsm
  obtain ⟨hreceipt, hstarted, hwa, hres⟩ := hsm
  refine ⟨action, hg, congrArg _ hreceipt, hstarted, hres, ?_, ?_⟩
  · intro w hset
    exact .inl (hwa.symm.trans hset)
  · rw [hreceipt]
    exact id

lemma replan (h : Core a) (hke : a.KeepsCover a')
    (hget₀ : a.actionRecords.get? ref₀ = some action₀)
    (hget₀' : a'.actionRecords.get? ref₀ = some action₀') (hreplans : action₀.Replans action₀')
    (hother : ∀ {ref}, ref ≠ ref₀ → a'.actionRecords.get? ref = a.actionRecords.get? ref) :
    a'.WaitsCovered := by
  refine hco.keep h hke fun {ref action'} hget' => ?_
  by_cases heq : ref = ref₀
  · rw [heq] at hget' ⊢
    cases hget₀'.symm.trans hget'
    exact ⟨action₀, hget₀, hreplans⟩
  · rw [hother heq] at hget'
    exact ⟨action', hget', .refl⟩

lemma put (h : Core a) (hke : a.KeepsCover a')
    (hget₀' : a'.actionRecords.get? ref₀ = some action₀') (hlimit : action₀'.waitUntil = none)
    (hfits : ∀ {request o}, action₀'.receipt.acquire = some request →
      action₀'.resource.isSome → a'.owners.get? ref₀.owner = some o →
        action₀'.started + request.wait ≤ a'.sessionExpires o.ref.session)
    (hother : ∀ {ref}, ref ≠ ref₀ → a'.actionRecords.get? ref = a.actionRecords.get? ref) :
    a'.WaitsCovered := by
  constructor
  · intro ref action' w hget' hwa
    by_cases heq : ref = ref₀
    · rw [heq, hget₀'] at hget'
      cases hget'
      cases hlimit.symm.trans hwa
    · rw [hother heq] at hget'
      exact hco.limit hget' hwa
  · intro ref action' request o' hget' hp hacquire hplaced ho'
    by_cases heq : ref = ref₀
    · rw [heq] at hget' ho'
      cases hget₀'.symm.trans hget'
      exact hfits hacquire hplaced ho'
    rw [hother heq] at hget'
    obtain ⟨o, ho⟩ := Option.isSome_iff_exists.mp ((h.actions.booked hget').live hp)
    exact hke ho ho' (hco.covered hget' hp hacquire hplaced ho)

end

lemma initial (options : Options) (verify : Capability → Except Fault Unit)
    (now : ℕ → Time) (maxLease : Duration) (start : Time) :
    (Authority.initial options verify now maxLease start).WaitsCovered := by
  constructor
  · intro ref action w hg
    cases (Table.get?_empty ref).symm.trans hg
  · intro ref action request o hg
    cases (Table.get?_empty ref).symm.trans hg

lemma queued (hco : a.WaitsCovered) (h : Core a) {id : ResourceID} {ref : ActionRef}
    {action : ActionRecord} {w : Time} (hm : ref ∈ a.queue id)
    (hg : a.actionRecords.get? ref = some action) (hwa : action.waitUntil = some w)
    (ho : a.owners.get? ref.owner = some o) : w ≤ a.sessionExpires o.ref.session := by
  obtain ⟨r, hr, hm⟩ := mem_queue.mp hm
  obtain ⟨found, hf, hp, -, hplace⟩ := h.actions.queued hr hm
  cases hg.symm.trans hf
  obtain ⟨request, hacquire, rfl⟩ := hco.limit hg hwa
  exact hco.covered hg hp hacquire (Option.isSome_iff_exists.mpr ⟨id, hplace⟩) ho

lemma move (hco : a.WaitsCovered) (hprompt : t.prompt) (h : Core a)
    (hmv : Move t a a') : a'.WaitsCovered := by
  have hke := h.keepsCover hmv
  have hagrees := hco.of_agree h hke
  cases hmv with
  | finish code hg _ hout =>
    refine hco.replan h hke hg (finishPending_action hg _ code)
      ⟨rfl, rfl, rfl, fun _ => .inl, fun hsm => ?_⟩
      (fun hne => Table.get?_modify_ne hne)
    cases hsm
    exact hout.elim
  | enroll =>
    refine hco.put h hke (Table.get?_set_self _ _ _) rfl
      (fun _ hplaced => ?_) (fun hne => Table.get?_set_ne hne)
    cases hplaced
  | @hold ref receipt o id r grant started hg _ howner _ _ _ hfits =>
    have hget' : (a.hold ref id grant started).actionRecords.get? ref =
        (some (ActionRecord.enrolled receipt false)).map fun action =>
          { action with
            resource := some id
            grant
            processing := true
            started
            call := some .raising } := by
      change (Table.modify _ _ _).get? ref = _
      rw [Table.get?_modify_self, hg]
    refine hco.put h hke hget' rfl ?_ (fun hne => Table.get?_modify_ne hne)
    intro request o' hacquire _ ho'
    rw [show a.owners.get? ref.owner = some o' from ho'] at howner
    cases howner
    exact hfits hprompt request hacquire
  | @enqueue ref action o id r request hg _ _ _ hacquire =>
    have hget' : (a.enqueue ref id (action.started + request.wait)).actionRecords.get? ref = some
          { action with waitUntil := some (action.started + request.wait) } := by
      exact Table.get?_modified hg
    refine hco.replan h hke hg hget'
      ⟨rfl, rfl, rfl, fun w hset => ?_, fun hp => hp⟩
      (fun hne => Table.get?_modify_ne hne)
    cases hset
    exact .inr ⟨request, hacquire, rfl⟩
  | issue _ hg =>
    exact hco.replan h hke hg (issue_action hg _ _ _)
      ⟨rfl, rfl, rfl, fun _ => .inl, ActionOutcome.noConfusion⟩
      (fun hne => issue_other hne _ _ _)
  | prolong hg =>
    exact hco.replan h hke hg (prolong_action hg _ _ _ _)
      ⟨rfl, rfl, rfl, fun _ => .inl, ActionOutcome.noConfusion⟩
      (fun hne => prolong_other hne _ _ _ _)
  | phase => exact hagrees (setPhase_actions rfl)
  | unhold => exact hagrees (unhold_actions rfl)
  | attempt => exact hagrees (.edit rfl)
  | noteAction change hlike =>
    refine hagrees (.modify fun action _ => ?_)
    simp only [(hlike action).receipt, (hlike action).started,
      (hlike action).waitUntil, (hlike action).resource]
  | _ => exact hagrees .refl

end Authority.WaitsCovered

/-! ## Expiry -/

lemma retireOwnerLocked_other (a : Authority) {id : OwnerID} (hne : owner ≠ id) :
    ((a.retireOwnerLocked id).owners.get? owner).map OwnerRecord.lists =
      (a.owners.get? owner).map OwnerRecord.lists := by
  unfold retireOwnerLocked
  split
  · rfl
  rename_i o _
  have hfinish := agree_foldl (fun a request =>
    finishLocked_owners a ⟨id, request⟩ .cancelled none) o.actions a
  have hend := agree_foldl (fun a grant =>
    endGrantLocked_owners a grant .ownerRetired) o.grants (o.actions.foldl
      (fun a request => a.finishLocked ⟨id, request⟩ .cancelled none) a)
  change ((Table.erase _ _).get? owner).map _ = _
  rw [Table.get?_erase_ne hne]
  exact (hfinish.trans hend) owner

lemma retireOwners_other {owners : List OwnerID} (hnot : owner ∉ owners) (a : Authority) :
    ((owners.foldl retireOwnerLocked a).owners.get? owner).map
        OwnerRecord.lists = (a.owners.get? owner).map OwnerRecord.lists := by
  induction owners generalizing a with
  | nil => rfl
  | cons first rest ih =>
    rw [List.mem_cons, not_or] at hnot
    rw [List.foldl_cons, ih hnot.2, retireOwnerLocked_other a hnot.1]

/-- An owner whose session has not expired. -/
structure Authority.Alive (a : Authority) (now : Time) (owner : OwnerID)
    (session : SessionID) : Prop where
  registered : ∃ o, a.owners.get? owner = some o ∧ o.ref.session = session
  later : ∃ s, a.sessions.get? session = some s ∧ now < s.expires

lemma Authority.Alive.expireSession {now : Time} {session : SessionID}
    (h : a.Alive now owner session) (id : SessionID) :
    (expireSession now a id).Alive now owner session := by
  obtain ⟨⟨o, ho, hsess⟩, s, hs, hlater⟩ := h
  unfold Authority.expireSession
  split
  · exact ⟨⟨o, ho, hsess⟩, s, hs, hlater⟩
  rename_i expired hexpired
  split_ifs with hlive hbusy
  · exact ⟨⟨o, ho, hsess⟩, s, hs, hlater⟩
  · exact ⟨⟨o, ho, hsess⟩, s, hs, hlater⟩
  have hne : session ≠ id := by
    rintro rfl
    cases hs.symm.trans hexpired
    exact hlive hlater
  have hnot : owner ∉ a.sessionOwners id := by
    intro hm
    obtain ⟨o', ho', hsession'⟩ := mem_sessionOwners.mp hm
    cases ho.symm.trans ho'
    exact hne (hsess.symm.trans hsession')
  have hk := retireOwners_other hnot a
  rw [ho] at hk
  obtain ⟨o', ho', hlists⟩ := Option.map_eq_some_iff.mp hk
  have href : o'.ref = o.ref := congrArg Prod.fst hlists
  refine ⟨⟨o', ho', href ▸ hsess⟩, s, ?_, hlater⟩
  change (Table.erase _ _).get? session = _
  rw [Table.get?_erase_ne hne]
  exact (congrArg (·.2.get? session) (same_foldl retireOwnerLocked_apart _ a)).trans hs

lemma Core.expired (h : Core a) {now : Time} (ho : a.owners.get? owner = some o)
    (hgone : (a.expireSessionsLocked now).owners.get? owner = none) :
    a.sessionExpires o.ref.session ≤ now := by
  by_contra hlater
  obtain ⟨s, hs⟩ := Option.isSome_iff_exists.mp (h.tokens.home ho)
  have hexpires : a.sessionExpires o.ref.session = s.expires := by
    unfold sessionExpires
    rw [hs]
    rfl
  have halive : ({ a with tickets := a.tickets.filter fun _ ticket =>
      now < ticket.expires } : Authority).Alive now owner o.ref.session :=
    ⟨⟨o, ho, rfl⟩, s, hs, hexpires ▸ not_le.mp hlater⟩
  have hafter : (a.expireSessionsLocked now).Alive now owner o.ref.session :=
    Runs.invariant (motive := fun b : Authority =>
      b.Alive now owner o.ref.session) (fun _ id hb => hb.expireSession id) halive _
  obtain ⟨o', ho', -⟩ := hafter.registered
  exact Option.some_ne_none _ (ho'.symm.trans hgone)

/-! ## Whole runs -/

/-- Acquisitions are prompt, as far as the idle lifetime leaves no room. -/
def Authority.InTime (a : Authority) (step : Step) : Prop :=
  ∀ request, step = .acquire request → a.Prompt request

lemma Authority.InTime.terms (h : a.InTime step) : (step.terms a).prompt := by
  cases step with
  | acquire request => exact h request rfl
  | _ => exact True.intro

/-- On a monotone clock, in every run whose acquisitions are prompt, a session
outlives the leases and the waits of its owners, and so the expiry of idle
sessions takes neither an unexpired lease nor an unexpired wait from an owner. -/
theorem session_covers_leases_and_waits {options : Options}
    {verify : Capability → Except Fault Unit} {now : ℕ → Time}
    {maxLease : Duration} {start : Option Time} {a₀ : Authority}
    (hnew : Authority.new options verify now maxLease start = .ok a₀)
    (hclock : Monotone now) {steps : List Step}
    (hprompt : Runs.Along exec Authority.InTime a₀ steps) :
    let a := steps.foldl exec a₀
    (∀ id g o, a.grantRecords.get? id = some g → g.state = .active →
      a.owners.get? g.owner = some o → g.deadline ≤ a.sessionExpires o.ref.session) ∧
      (∀ id ref action w o, ref ∈ a.queue id →
        a.actionRecords.get? ref = some action → action.waitUntil = some w →
          a.owners.get? ref.owner = some o → w ≤ a.sessionExpires o.ref.session) ∧
      ∀ t owner o, a.owners.get? owner = some o →
        (a.expireSessionsLocked t).owners.get? owner = none →
          (∀ id g, a.grantRecords.get? id = some g → g.state = .active →
            g.owner = owner → g.deadline ≤ t) ∧
          ∀ id ref action w, ref ∈ a.queue id → ref.owner = owner →
            a.actionRecords.get? ref = some action → action.waitUntil = some w → w ≤ t := by
  intro a
  obtain ⟨hvalid, -, from₀, -, rfl⟩ := new_eq_ok hnew
  obtain ⟨hcore, hleases, hwaits, -⟩ := Core.runAlong
    (motive := fun b => b.LeasesCovered ∧ b.WaitsCovered ∧
      b.options = options ∧ b.now = now)
    (fun hallowed hb hmv hco => by
      obtain ⟨hleases, hwaits, hoptions, hnow⟩ := hco
      exact ⟨hleases.move hb (hnow ▸ hclock) (hoptions ▸ hvalid) hmv,
        hwaits.move hallowed.terms hb hmv,
        hmv.onward.options.trans hoptions, hmv.onward.now.trans hnow⟩)
    (Core.initial options verify now maxLease from₀)
    ⟨LeasesCovered.initial options verify now maxLease from₀,
      WaitsCovered.initial options verify now maxLease from₀, rfl, rfl⟩ hprompt
  have hqueued : ∀ id ref action w o, ref ∈ a.queue id →
      a.actionRecords.get? ref = some action → action.waitUntil = some w →
        a.owners.get? ref.owner = some o → w ≤ a.sessionExpires o.ref.session :=
    fun id ref action w o hm hg hwa ho =>
      hwaits.queued hcore hm hg hwa ho
  refine ⟨hleases, hqueued, ?_⟩
  intro t owner o ho hgone
  have hexpired := hcore.expired ho hgone
  constructor
  · rintro id g hg hat rfl
    exact (hleases id g o hg hat ho).trans hexpired
  · rintro id ref action w hm rfl hg hwa
    exact (hqueued id ref action w o hm hg hwa ho).trans hexpired

/-! ### A wait that outlasts its session

The idle lifetime is the longest wait, as the check of the options allows.  The
clock advances twice between the touch of the session and the start of the
wait. -/

namespace Sample

def tight : Options := { DefaultOptions with sessionIdle := minute }

def strict : Authority :=
  .initial tight (fun _ => .ok ()) clock 0 0

def contended : List Step :=
  enter ++ lock ⟨1, 2⟩ [9] 3 .exclusive (1000 * millisecond) 0 ++
    .createOwner 1 [2] :: lock ⟨1, 4⟩ [8] 3 .shared millisecond minute

lemma monotone_clock : Monotone clock := by
  intro m n hle
  exact Int.mul_le_mul_of_nonneg_right (Int.ofNat_le.mpr hle) (by decide)

end Sample

theorem session_covers_leases_and_waits_of_waiter :
    let a := Sample.contended.foldl exec Sample.fresh
    a.queue 3 = [⟨4, [8]⟩] ∧ ∀ action w o, a.actionRecords.get? ⟨4, [8]⟩ = some action →
        action.waitUntil = some w → a.owners.get? 4 = some o →
          w ≤ a.sessionExpires o.ref.session := by
  have hprompt : Runs.Along exec Authority.InTime Sample.fresh
      Sample.contended := by
    repeat' constructor
    all_goals
      intro request heq
      cases heq
    all_goals
      unfold Authority.Prompt
      decide +kernel
  have hqueue : (Sample.contended.foldl exec
      Sample.fresh).queue 3 = [⟨4, [8]⟩] := by decide +kernel
  refine ⟨hqueue, fun action w o => ?_⟩
  exact (session_covers_leases_and_waits Sample.new_fresh Sample.monotone_clock
    hprompt).2.1 3 ⟨4, [8]⟩ action w o (by rw [hqueue]; exact .head _)

/-- The session expires before the wait, and its expiry takes the owner with the
unexpired wait. -/
theorem wait_outlasts_session :
    let a := Sample.contended.foldl exec Sample.strict
    Authority.new Sample.tight (fun _ => .ok ()) Sample.clock 0 (some 0) = .ok Sample.strict ∧
      Monotone Sample.clock ∧ a.queue 3 = [⟨4, [8]⟩] ∧
      (a.actionRecords.get? ⟨4, [8]⟩).bind ActionRecord.waitUntil =
        some (a.sessionExpires 1 + 2 * millisecond) ∧
      (a.owners.get? 4).map (·.ref) = some ⟨1, 4⟩ ∧
      (a.expireSessionsLocked (a.sessionExpires 1)).owners.get? 4 = none :=
  ⟨rfl, Sample.monotone_clock, by decide +kernel, by decide +kernel,
    by decide +kernel, by
      decide +kernel⟩

/-! ## Sessions that have ended

A token is handed out once, so a session does not come back. -/

lemma Move.session_gone {id : SessionID} (hmv : Move t a a') (hold : id ≤ a.lastToken)
    (hn : a.sessions.get? id = none) : a'.sessions.get? id = none := by
  cases hmv with
  | addSession => exact (Table.get?_set_ne (Nat.lt_succ_of_le hold).ne).trans hn
  | touch | addOwner | issue | prolong => exact Table.get?_modify_of_none hn
  | dropSession => exact (Table.get?_erase ..).trans (by rw [hn, ite_self])
  | _ => exact hn

/-- A session that has ended stays away and has no owners, whatever is called afterwards.
Requests are undecided and locks active only for owners whose session is open. -/
theorem ended_sessions_stay_away {options : Options} {verify : Capability → Except Fault Unit}
    {now : ℕ → Time} {maxLease : Duration} {start : Option Time} {a₀ : Authority}
    (hnew : Authority.new options verify now maxLease start = .ok a₀) (before after : List Step) :
    let a := before.foldl exec a₀
    let b := after.foldl exec a
    (∀ id ≤ a.lastToken, a.sessions.get? id = none → b.sessions.get? id = none ∧
      ∀ owner o, b.owners.get? owner = some o → o.ref.session ≠ id) ∧
    (∀ ref action, b.actionRecords.get? ref = some action → action.receipt.outcome = .pending →
      ∃ o, b.owners.get? ref.owner = some o ∧ (b.sessions.get? o.ref.session).isSome) ∧
    ∀ grant g, b.grantRecords.get? grant = some g → g.state = .active →
      ∃ o, b.owners.get? g.owner = some o ∧ (b.sessions.get? o.ref.session).isSome := by
  intro a b
  obtain ⟨hb, -, hgone⟩ := Core.run
    (motive := fun c => a.lastToken ≤ c.lastToken ∧
      ∀ id ≤ a.lastToken, a.sessions.get? id = none → c.sessions.get? id = none)
    (fun _ hmv h => ⟨h.1.trans hmv.lastToken, fun id hold hn =>
      hmv.session_gone (hold.trans h.1) (h.2 id hold hn)⟩)
    (Core.reached hnew before) ⟨le_rfl, fun _ _ hn => hn⟩ after
  refine ⟨fun id hold hn => ⟨hgone id hold hn, fun owner o ho heq => ?_⟩, ?_, ?_⟩
  · have hhome := hb.tokens.home ho
    rw [heq, hgone id hold hn] at hhome
    exact Bool.false_ne_true hhome
  · intro ref action hg hp
    obtain ⟨o, ho⟩ := Option.isSome_iff_exists.mp ((hb.actions.booked hg).live hp)
    exact ⟨o, ho, hb.tokens.home ho⟩
  · intro grant g hg hat
    obtain ⟨o, ho, -⟩ := (hb.grants.granted hg).held hat
    exact ⟨o, ho, hb.tokens.home ho⟩

theorem ended_sessions_stay_away_reentered :
    let a := (Sample.enter ++ [Step.closeSession 1]).foldl exec Sample.fresh
    a.sessions.get? 1 = none ∧ (Sample.enter.foldl exec a).sessions.get? 1 = none := by
  intro a
  have hclosed : a.sessions.get? 1 = none := by decide +kernel
  exact ⟨hclosed, ((ended_sessions_stay_away Sample.new_fresh _ _).1 1
    (by decide +kernel) hclosed).1⟩

end RemoteFs.Locking
