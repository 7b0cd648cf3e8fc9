import RemoteFs.Locking.Exclusion

/-!
# Publications in flight

A publication marks the resources of its targets as busy until it completes.
Everything that ends, extends or adds a grant looks at that mark first, and so
does the next publication.  The exception is a publication that was admitted on
the same backend key before the resource was registered: when it completes it may
retire the resource.
-/

namespace RemoteFs.Locking

open Authority

variable {a a' b : Authority} {flight : ℕ} {id : ResourceID}
  {keys : List BackendKey} {f : Flight} {t : Terms} {resources : List ResourceID}

/-! ## Busy marks -/

lemma get?_foldl_setBusy (flag : Bool) (ids : List ResourceID)
    (records : Table ResourceID ResourceRecord) (id : ResourceID) :
    (ids.foldl (setBusy flag) records).get? id =
      if id ∈ ids then (records.get? id).map ({ · with busy := flag })
      else records.get? id := by
  induction ids generalizing records with
  | nil => simp
  | cons first rest ih =>
    rw [List.foldl_cons, ih]
    unfold setBusy
    rw [Table.get?_modify]
    by_cases heq : id = first
    · rw [heq]
      cases records.get? first <;> simp
    · simp [heq]

/-- Each resource in flight is busy, and no two publications share one. -/
structure Flights (a : Authority) : Prop where
  busy : ∀ {flight f id}, a.flights.get? flight = some f → id ∈ f.resources →
    ∃ r, a.resourceRecords.get? id = some r ∧ r.busy = true ∧ r.key ∈ f.keys
  disjoint : ∀ {flight flight' f f'}, a.flights.get? flight = some f →
    a.flights.get? flight' = some f' → flight ≠ flight' → ∀ id ∈ f.resources, id ∉ f'.resources

namespace Flights

variable {t : Terms} {a a' : Authority}

section

variable (h : Flights a)
include h

lemma congr (hflights : a'.flights = a.flights)
    (hres : ∀ {id r}, a.resourceRecords.get? id = some r →
      ∃ r', a'.resourceRecords.get? id = some r' ∧ r'.busy = r.busy ∧
        r'.key = r.key) : Flights a' := by
  constructor
  · intro flight f id hf hid
    rw [hflights] at hf
    obtain ⟨r, hr, hbu, hkey⟩ := h.busy hf hid
    obtain ⟨r', hr', hsm, hsameKey⟩ := hres hr
    exact ⟨r', hr', hsm.trans hbu, hsameKey ▸ hkey⟩
  · intro flight flight' f f' hf hf'
    rw [hflights] at hf hf'
    exact h.disjoint hf hf'

lemma of_agree (hflights : a'.flights = a.flights)
    (hres : Table.Agree (fun r : ResourceRecord => (r.busy, r.key))
      a.resourceRecords a'.resourceRecords) : Flights a' := by
  refine h.congr hflights fun {id r} hr => ?_
  obtain ⟨r', hr', hsm⟩ := hres.symm.exists hr
  obtain ⟨hbu, hkey⟩ := Prod.mk.inj hsm
  exact ⟨r', hr', hbu.symm, hkey.symm⟩

lemma launch (hidl : ∀ id ∈ resources, ∃ r, a.resourceRecords.get? id = some r ∧
      r.busy = false ∧ r.key ∈ keys) : Flights (a.launch keys resources) := by
  have hfree : ∀ {flight f id}, a.flights.get? flight = some f →
      id ∈ f.resources → id ∉ resources := by
    intro flight f id hf hid hm
    obtain ⟨r, hr, hbu, -⟩ := h.busy hf hid
    obtain ⟨r', hr', hnot, -⟩ := hidl id hm
    cases hr.symm.trans hr'
    cases hbu.symm.trans hnot
  have hsplit : ∀ {flight f}, (a.launch keys resources).flights.get? flight =
      some f → f = ⟨resources, keys⟩ ∧ flight = a.lastToken + 1 ∨
        flight ≠ a.lastToken + 1 ∧ a.flights.get? flight = some f := by
    intro flight f hf
    rcases Table.set_cases hf with ⟨heq, rfl⟩ | ⟨heq, hf⟩
    · exact .inl ⟨rfl, heq⟩
    · exact .inr ⟨heq, hf⟩
  constructor
  · intro flight f id hf hid
    rw [show (a.launch keys resources).resourceRecords.get? id = _ from
      get?_foldl_setBusy true resources a.resourceRecords id]
    rcases hsplit hf with ⟨rfl, -⟩ | ⟨-, hold⟩
    · obtain ⟨r, hr, -, hkey⟩ := hidl id hid
      rw [if_pos hid, hr]
      exact ⟨_, rfl, rfl, hkey⟩
    · rw [if_neg (hfree hold hid)]
      exact h.busy hold hid
  · intro flight flight' f f' hf hf' hne id hid
    rcases hsplit hf with ⟨rfl, rfl⟩ | ⟨-, hold⟩ <;>
      rcases hsplit hf' with ⟨rfl, rfl⟩ | ⟨-, hold'⟩
    · exact absurd rfl hne
    · exact fun hm => hfree hold' hm hid
    · exact hfree hold hid
    · exact h.disjoint hold hold' hne id hid

lemma land {flight₀ : ℕ} (hflight : a.flights.get? flight₀ = some f₀) :
    Flights (a.land flight₀ f₀) := by
  constructor
  · intro flight f id hf hid
    obtain ⟨hne, hold⟩ := Table.erase_cases hf
    rw [show (a.land flight₀ f₀).resourceRecords.get? id = _ from get?_foldl_setBusy false
      f₀.resources a.resourceRecords id, if_neg (h.disjoint hold hflight hne id hid)]
    exact h.busy hold hid
  · intro flight flight' f f' hf hf'
    exact h.disjoint (Table.erase_cases hf).2 (Table.erase_cases hf').2

lemma move (hco : Core a) (hmv : Move t a a') : Flights a' := by
  cases hmv with
  | endGrant | hold | enqueue | attempt => exact h.of_agree rfl (.edit rfl)
  | finish => exact h.of_agree rfl (finishPending_resources _ _ rfl)
  | @adopt key hnew =>
    refine h.congr rfl fun {id r} hr => ?_
    have hne : id ≠ a.lastToken + 1 := ne_of_lt (Nat.lt_succ_of_le (hco.tokens.resource hr))
    exact ⟨r, (Table.get?_set_ne hne).trans hr, rfl, rfl⟩
  | tidy change hlike =>
    refine h.of_agree rfl (.modify fun r hr => ?_)
    exact Prod.ext (hlike r hr).busy (hlike r hr).key
  | phase => exact h.of_agree rfl (setPhase_resources rfl)
  | @issue ref action o id r request =>
    have hinsert : Table.Agree (fun r : ResourceRecord => (r.busy, r.key))
        a.resourceRecords (a.insertGrant ref id request).resourceRecords :=
      .edit rfl
    exact h.of_agree rfl (hinsert.trans (finishPending_resources .granted none rfl))
  | prolong => exact h.of_agree rfl (finishPending_resources .renewed none rfl)
  | unhold => exact h.of_agree rfl (unhold_resources rfl)
  | launch hnodup hidl => exact h.launch hidl
  | land hflight => exact h.land hflight
  | _ => exact h.of_agree rfl .refl

lemma is_busy (hf : a.flights.get? flight = some f) (hid : id ∈ f.resources) :
    a.busy id = true := by
  obtain ⟨r, hr, hbu, -⟩ := h.busy hf hid
  unfold Authority.busy
  rwa [hr]

end

end Flights

/-! ## Frozen grants -/

/-- A grant without the note of its release. -/
def GrantRecord.held (g : GrantRecord) : GrantRecord :=
  { g with release := none }

/-- The live grants of a resource are the same, with the same leases. -/
structure Authority.Frozen (a b : Authority) (id : ResourceID) : Prop where
  grants : b.liveGrants id = a.liveGrants id
  leases : ∀ grant ∈ a.liveGrants id, (b.grantRecords.get? grant).map GrantRecord.held =
      (a.grantRecords.get? grant).map GrantRecord.held

lemma Authority.Frozen.refl :
    a.Frozen a id := ⟨rfl, fun _ _ => rfl⟩

lemma Authority.Frozen.trans (hfirst : a.Frozen b id)
    (hsecond : b.Frozen c id) : a.Frozen c id := by
  refine ⟨hsecond.grants.trans hfirst.grants, fun grant hgrant => ?_⟩
  rw [← hfirst.leases grant hgrant]
  exact hsecond.leases grant (hfirst.grants ▸ hgrant)

lemma liveGrants_of_agree
    (hagree : Table.Agree ResourceRecord.grants a.resourceRecords a'.resourceRecords)
    (id : ResourceID) : a'.liveGrants id = a.liveGrants id :=
  congrArg (Option.getD · []) (hagree id)

lemma liveGrants_modify_ne {change : ResourceRecord → ResourceRecord} (hne : id ≠ place)
    (hrecords : a'.resourceRecords = a.resourceRecords.modify place change) :
    a'.liveGrants id = a.liveGrants id := by
  unfold liveGrants
  rw [hrecords, Table.get?_modify_ne hne]

/-- No move touches the live grants of a busy resource, except on behalf of a
publication that retires it. -/
lemma Core.frozen (h : Core a) (hmv : Move t a a')
    (hbu : a.busy id = true) (hgone : ¬t.gone id) : a.Frozen a' id := by
  have hkeeps : Table.Agree ResourceRecord.grants a.resourceRecords
      a'.resourceRecords → Table.Agree GrantRecord.held a.grantRecords
        a'.grantRecords → a.Frozen a' id :=
    fun hres hgrants => ⟨liveGrants_of_agree hres id, fun grant _ => hgrants grant⟩
  have helsewhere : ∀ {place r}, a.resourceRecords.get? place = some r →
      r.busy = false → id ≠ place := by
    rintro place r hr hidl rfl
    unfold busy at hbu
    rw [hr] at hbu
    rw [show r.busy = true from hbu] at hidl
    cases hidl
  cases hmv with
  | @endGrant ended g state hget hactive hs hfree =>
    have hne : id ≠ g.resource := by
      rintro rfl
      rcases hfree with hidl | hgone'
      · cases hbu.symm.trans hidl
      · exact hgone hgone'
    refine ⟨liveGrants_modify_ne hne rfl, fun grant hgrant => ?_⟩
    have hot : grant ≠ ended := by
      rintro rfl
      exact hne (h.grants.place hgrant hget).symm
    change ((Table.modify _ _ _).get? grant).map _ = _
    rw [Table.get?_modify_ne hot]
  | finish => exact hkeeps (finishPending_resources _ _ rfl) .refl
  | @adopt key hnew =>
    have hne : id ≠ a.lastToken + 1 := by
      rintro rfl
      unfold busy at hbu
      rw [h.tokens.fresh_resource] at hbu
      cases hbu
    refine ⟨?_, fun _ _ => rfl⟩
    unfold liveGrants
    change (((Table.set _ _ _).get? id).map _).getD [] = _
    rw [Table.get?_set_ne hne]
  | tidy change hlike => exact hkeeps (.modify fun r hr => (hlike r hr).grants) .refl
  | hold | enqueue | attempt => exact hkeeps (.edit rfl) .refl
  | phase => exact hkeeps (setPhase_resources rfl) .refl
  | @issue ref action o place r request job _ _ _ _ _ _ hrecord hidl =>
    have hne := helsewhere hrecord hidl
    have hinsert : (a.insertGrant ref place request).liveGrants id =
        a.liveGrants id := liveGrants_modify_ne hne rfl
    refine ⟨(liveGrants_of_agree (finishPending_resources .granted none rfl) id).trans hinsert,
      fun grant hgrant => ?_⟩
    obtain ⟨r', hr', hl⟩ := mem_liveGrants.mp hgrant
    obtain ⟨g, hg, -⟩ := (h.grants.resource hr').live hl
    have hold : grant ≠ a.lastGeneration + 1 := ne_of_lt (Nat.lt_succ_of_le (h.tokens.grant hg))
    exact congrArg (Option.map GrantRecord.held) (Table.get?_set_ne hold)
  | @prolong ref action o place r grant₀ g request _ _ _ _ _ _ hrecord hgrant₀
      hplace _ _ hidl =>
      have hne := helsewhere hrecord hidl
      refine ⟨liveGrants_of_agree (finishPending_resources .renewed none rfl) id,
        fun grant hgrant => ?_⟩
      have hot : grant ≠ grant₀ := by
        rintro rfl
        exact hne ((h.grants.place hgrant hgrant₀).symm.trans hplace)
      change ((Table.modify _ _ _).get? grant).map _ = _
      rw [Table.get?_modify_ne hot]
  | unhold => exact hkeeps (unhold_resources rfl) .refl
  | noteRelease => exact hkeeps .refl (.edit rfl)
  | launch | land => exact hkeeps (agree_setBusy rfl) .refl
  | _ => exact hkeeps .refl .refl

/-! ## Runs with a publication in flight -/

lemma Core.flight_before (hmv : Move t a a') (hold : flight ≤ a.lastToken)
    (hf : a'.flights.get? flight = some f) : a.flights.get? flight = some f := by
  cases hmv with
  | launch => exact (Table.get?_set_ne (ne_of_lt (Nat.lt_succ_of_le hold))).symm.trans hf
  | land => exact (Table.erase_cases hf).2
  | _ => exact hf

lemma Move.lastToken (hmv : Move t a a') : a.lastToken ≤ a'.lastToken := by
  cases hmv with
  | addSession | addOwner | adopt | launch => exact Nat.le_succ _
  | _ => exact le_refl _

/-- The section retires none of the resources in flight on behalf of another
publication. -/
def Step.Spares (flight : ℕ) (f : Flight) (a : Authority) (step : Step) : Prop :=
  ∀ other outcome, step = .complete other outcome → other ≠ flight →
    ∀ id ∈ f.resources, ¬a.Retires other outcome id

/-- What a run knows of a publication it started from. -/
structure Authority.Aloft (a : Authority) (flight : ℕ) (f : Flight) (b : Authority) : Prop where
  core : Core b
  flights : Flights b
  old : flight ≤ b.lastToken
  frozen : b.flights.get? flight = some f → ∀ id ∈ f.resources, a.Frozen b id

lemma Authority.Aloft.move (hal : a.Aloft flight f b)
    (hmv : Move t b b') (hgone : ∀ id ∈ f.resources, ¬t.gone id) :
    a.Aloft flight f b' where
  core := hal.core.move hmv
  flights := hal.flights.move hal.core hmv
  old := hal.old.trans hmv.lastToken
  frozen := by
    intro hf id hid
    have hbefore := Core.flight_before hmv hal.old hf
    exact (hal.frozen hbefore id hid).trans (hal.core.frozen hmv
      (hal.flights.is_busy hbefore hid) (hgone id hid))

lemma completePublication_lands (a : Authority) (flight : ℕ) (outcome : PublicationOutcome) :
    (a.completePublication flight outcome).flights.get? flight = none := by
  unfold completePublication
  split
  · assumption
  · exact Table.get?_erase_self _ _

lemma Authority.Aloft.step (hal : a.Aloft flight f b) {step : Step}
    (hspares : step.Spares flight f b) : a.Aloft flight f (exec b step) := by
  have hchain := exec_chain hal.core step
  by_cases hown : ∃ outcome, step = .complete flight outcome
  · obtain ⟨outcome, rfl⟩ := hown
    have hrest := Chain.invariant
      (motive := fun c => Core c ∧ Flights c ∧ flight ≤ c.lastToken)
      (fun c c' hmv hc => ⟨hc.1.move hmv, hc.2.1.move hc.1 hmv,
        hc.2.2.trans hmv.lastToken⟩) hchain
      ⟨hal.core, hal.flights, hal.old⟩
    refine ⟨hrest.1, hrest.2.1, hrest.2.2, fun hf => ?_⟩
    rw [show (exec b (.complete flight outcome)).flights.get? flight = none from
      completePublication_lands b flight outcome] at hf
    cases hf
  have hgone : ∀ id ∈ f.resources, ¬(step.terms b).gone id := by
    intro id hid hgone
    cases step with
    | complete other outcome =>
      refine hspares other outcome rfl ?_ id hid hgone
      rintro rfl
      exact hown ⟨outcome, rfl⟩
    | _ => exact hgone
  exact Chain.invariant (motive := a.Aloft flight f)
    (fun c c' hmv hc => hc.move hmv hgone) hchain hal

lemma Authority.Aloft.run (hal : a.Aloft flight f b)
    (halong : Runs.Along exec (fun b step => step.Spares flight f b) b steps) :
    a.Aloft flight f (steps.foldl exec b) :=
  Runs.Along.invariant (motive := a.Aloft flight f)
    (fun _ _ hc hspares => hc.step hspares) hal halong

/-! ## Admission -/

lemma liveGrants_swept (ha : Core a) (hb : Core b) (hswept : Swept a b)
    (hm : grant ∈ b.liveGrants id) : grant ∈ a.liveGrants id := by
  obtain ⟨r', hr', hl⟩ := mem_liveGrants.mp hm
  obtain ⟨g', hg', hactive, hplace⟩ := (hb.grants.resource hr').live hl
  obtain ⟨g, hg, hframe⟩ := hswept.grant.exists hg'
  have hwhere := GrantRecord.resource_eq hframe
  have hwas : g.state = .active := by
    by_contra hended
    have hkept := hswept.ended hg hended
    cases hg'.symm.trans hkept
    exact hended hactive
  obtain ⟨r, hr, hin⟩ := (ha.grants.granted hg).listed hwas
  rw [← hwhere, hplace] at hr
  exact mem_liveGrants.mpr ⟨r, hr, hin⟩

/-- The resources that the loop over the targets has listed are those under the
keys it has seen. -/
def Listed (a : Authority) (keys : List BackendKey) (resources : List ResourceID) : Prop :=
  ∀ key ∈ keys, ∀ id, a.keys.get? key = some id → id ∈ resources

lemma Listed.congr (hl : Listed a keys resources)
    (hkeys : b.keys = a.keys) : Listed b keys resources := by
  unfold Listed
  rwa [hkeys]

lemma admitTargets_listed (h : Core a) (hl : Listed a keys resources)
    (hok : (admitTargets keys resources targets a).result = .ok found) :
    Listed a found.1 found.2 ∧ ∀ key, key ∈ found.1 ↔ key ∈ keys ∨ key ∈ targets := by
  induction targets generalizing a keys resources with
  | nil =>
    cases hok
    exact ⟨hl, fun key => by simp⟩
  | cons key rest ih =>
    unfold admitTargets at hok
    split at hok
    · cases hok
    split at hok
    · rename_i hseen
      obtain ⟨hrest, hkeys⟩ := ih h hl hok
      refine ⟨hrest, fun other => ?_⟩
      rw [hkeys, List.mem_cons]
      constructor
      · rintro (hold | hnew)
        · exact .inl hold
        · exact .inr (.inr hnew)
      · rintro (hold | rfl | hnew)
        · exact .inl hold
        · exact .inl hseen
        · exact .inr hnew
    have hm : ∀ other : BackendKey, (other ∈ key :: keys ∨
        other ∈ rest) ↔ (other ∈ keys ∨ other ∈ key :: rest) := by
      intro other
      rw [List.mem_cons, List.mem_cons]
      tauto
    split at hok
    · rename_i hnone
      have hnext : Listed a (key :: keys) resources := by
        intro other hot id hid
        rcases List.mem_cons.mp hot with rfl | hold
        · cases hnone.symm.trans hid
        · exact hl other hold id hid
      obtain ⟨hrest, hkeys⟩ := ih h hnext hok
      exact ⟨hrest, fun other => (hkeys other).trans (hm other)⟩
    rename_i id hid
    split at hok
    · cases hok
    have hexpire := sweeps_expireGrantsNow (t := anyTerms) h.grants id
    have hnext : Listed a (key :: keys) (resources ++ [id]) := by
      intro other hot found hfd
      rcases List.mem_cons.mp hot with rfl | hold
      · cases hid.symm.trans hfd
        simp
      · exact List.mem_append_left _ (hl other hold found hfd)
    obtain ⟨hrest, hkeys⟩ := ih (h.chain hexpire.chain)
      (hnext.congr hexpire.swept.keys) hok
    exact ⟨hrest.congr hexpire.swept.keys.symm, fun other => (hkeys other).trans (hm other)⟩

/-- A proof that has passed: an exclusive one names the only live grant left on
its resource. -/
def Authority.Proven (a : Authority) (proof : GrantRef) : Prop :=
  ∃ g, a.grantRecords.get? proof.id = some g ∧ g.ref = proof ∧
    (g.mode = .exclusive → ∀ other ∈ a.liveGrants g.resource,
      other = proof.id)

variable {proof : GrantRef}

lemma Authority.Proven.swept (ha : Core a) (hb : Core b) (hswept : Swept a b)
    (hproven : a.Proven proof) : b.Proven proof := by
  obtain ⟨g, hg, href, honly⟩ := hproven
  obtain ⟨g', hg', hframe⟩ := hswept.grant.symm.exists hg
  have href' : g.ref = g'.ref := by
    have hsm := congrArg GrantRecord.ref hframe
    exact hsm
  have hmode : g.mode = g'.mode := by
    have hsm := congrArg GrantRecord.mode hframe
    exact hsm
  have hwhere := GrantRecord.resource_eq hframe
  refine ⟨g', hg', href'.symm.trans href, fun hexc other hot => ?_⟩
  refine honly (hmode.trans hexc) other ?_
  rw [hwhere]
  exact liveGrants_swept ha hb hswept hot

lemma Grants.proven (h : Grants a) (hg : a.grantRecords.get? proof.id = some g)
    (href : g.ref = proof) (hactive : g.state = .active) : a.Proven proof := by
  refine ⟨g, hg, href, fun hexc other hot => ?_⟩
  obtain ⟨r, hr, hin⟩ := (h.granted hg).listed hactive
  obtain ⟨r', hr', hot⟩ := mem_liveGrants.mp hot
  cases hr.symm.trans hr'
  obtain ⟨only, -, heq, -⟩ := h.oneExclusive hr hin hg hexc
  rw [heq, List.mem_singleton] at hot hin
  exact hot.trans hin.symm

variable {o : OwnerRecord} {table : Table ResourceID GrantID}

lemma checkProofs_proven {all proofs : List GrantRef} (h : Core a)
    {checked :  Table ResourceID GrantID} (hchecked : ∀ id grant, checked.get? id = some grant →
      ∃ proof ∈ all, proof.resource = id ∧ proof.id = grant ∧ a.Proven proof)
    (hall : ∀ proof ∈ proofs, proof ∈ all)
    (hok : (checkProofs o keys checked proofs a).result = .ok table) :
    ∀ id grant, table.get? id = some grant → ∃ proof ∈ all, proof.resource = id ∧
      proof.id = grant ∧ (checkProofs o keys checked proofs a).state.Proven proof := by
  induction proofs generalizing a checked with
  | nil =>
    cases hok
    exact hchecked
  | cons proof rest ih =>
    unfold checkProofs at hok ⊢
    obtain ⟨g, hg, heq, hok⟩ := Outcome.andThen_eq_ok hok
    rw [heq]
    have hfind := sweeps_grantLockedForOwner (t := anyTerms) h.grants o proof
    set b := (a.grantLockedForOwner o proof).state with hb
    have hco : Core b := h.chain hfind.chain
    obtain ⟨hget, -, href⟩ := grantLockedForOwner_eq_ok h.grants hg
    split at hok
    · cases hok
    rename_i r hr
    split_ifs at hok ⊢ with hstale hlate hkey
    have hclock := Swept.of_sweep (t := anyTerms) (.clock b)
    have hcore' := hco.chain (Move.chain (t := anyTerms) (.clock b))
    rw [not_or, not_not] at hstale
    refine ih hcore' ?_ (fun other hot => hall other (List.mem_cons_of_mem _ hot)) hok
    intro id grant hentry
    rcases Table.set_cases hentry with ⟨hid, rfl⟩ | ⟨-, hentry⟩
    · exact ⟨proof, hall proof List.mem_cons_self, hid.symm, rfl,
        (hco.grants.proven hget href hstale.1).swept hco hcore' hclock⟩
    obtain ⟨old, hold, hplace, hname, hproven⟩ := hchecked id grant hentry
    exact ⟨old, hold, hplace, hname, (hproven.swept h hco hfind.swept).swept hco hcore' hclock⟩

variable {owner : Option OwnerRecord}

lemma scopeProofs_proven (h : Core a) {grants : List GrantRef}
    (hok : (a.scopeProofs owner keys grants).result = .ok table) :
    ∀ id grant, table.get? id = some grant → ∃ proof ∈ grants, proof.resource = id ∧
      proof.id = grant ∧ (a.scopeProofs owner keys grants).state.Proven proof := by
  have hempty : ∀ id grant, (Table.empty : Table ResourceID GrantID).get? id =
      some grant → ∃ proof ∈ grants, proof.resource = id ∧ proof.id = grant ∧
        a.Proven proof := by
    intro id grant hentry
    cases hentry
  unfold scopeProofs at hok ⊢
  split at hok
  · cases hok
    exact hempty
  · exact checkProofs_proven h hempty (fun _ hm => hm) hok

variable {scope : MutationScope}

lemma scopeOwner_eq_ok (hok : a.scopeOwner scope = .ok (some o)) : o.ref = scope.owner := by
  unfold scopeOwner at hok
  split at hok
  · cases hok
  split at hok
  · cases hok
  · cases hok
    exact (ownerLocked_eq_ok ‹_›).2

/-- A target on which a publication may act: nobody holds it, or the scope names
the one exclusive grant on it, which is its owner's and has not expired. -/
def Authority.Guarded (a : Authority) (scope : MutationScope)
    (admission : Time) (id : ResourceID) : Prop :=
  a.liveGrants id = [] ∨ ∃ grant g, a.liveGrants id = [grant] ∧
    a.grantRecords.get? grant = some g ∧ g.state = .active ∧
      g.mode = .exclusive ∧ g.ref ∈ scope.grants ∧
        g.owner = scope.owner.owner ∧ admission < g.deadline

lemma Core.guarded (h : Core a) (howner : ∀ o, owner = some o → o.ref = scope.owner)
    (hproofs : ∀ id grant, proofs.get? id = some grant →
      ∃ proof ∈ scope.grants, proof.resource = id ∧ proof.id = grant ∧
        a.Proven proof) (hunexpired : a.unexpired proofs admission = true)
    (hcovered : a.covered owner proofs id = true) : a.Guarded scope admission id := by
  unfold covered at hcovered
  rw [Bool.or_eq_true, List.isEmpty_iff] at hcovered
  rcases hcovered with hfree | hproof
  · exact .inl hfree
  by_cases hfree : a.liveGrants id = []
  · exact .inl hfree
  rw [Option.any_eq_true] at hproof
  obtain ⟨g, hfd, hcheck⟩ := hproof
  rw [decide_eq_true_eq] at hcheck
  obtain ⟨grant, hentry, hg⟩ := Option.bind_eq_some_iff.mp hfd
  obtain ⟨proof, hproof, hplace, rfl, g', hg', href, honly⟩ := hproofs id grant hentry
  cases hg.symm.trans hg'
  have hwhere : g.resource = id := by rwa [← (h.grants.granted hg).named.2, href]
  obtain ⟨first, hfirst⟩ := List.exists_mem_of_ne_nil _ hfree
  have hall : ∀ other ∈ a.liveGrants id, other = proof.id := by
    intro other hot
    exact honly hcheck.2 other (hwhere ▸ hot)
  obtain ⟨r, hr, hl⟩ := mem_liveGrants.mp (hall first hfirst ▸ hfirst)
  obtain ⟨g', hg', hactive, -⟩ := (h.grants.resource hr).live hl
  cases hg.symm.trans hg'
  have hone : a.liveGrants id = [proof.id] := by
    obtain ⟨only, -, heq, -⟩ := h.grants.oneExclusive hr hl hg hcheck.2
    have hlive : a.liveGrants id = r.grants := by
      unfold liveGrants
      rw [hr]
      rfl
    rw [hlive, heq]
    rw [heq, List.mem_singleton] at hl
    rw [hl]
  refine .inr ⟨proof.id, g, hone, hg, hactive, hcheck.2, href ▸ hproof, ?_, ?_⟩
  · obtain ⟨o, ho, hsm⟩ := Option.map_eq_some_iff.mp hcheck.1.symm
    rw [← hsm, howner o ho]
  · unfold unexpired at hunexpired
    rw [List.all_eq_true] at hunexpired
    have hentry' := hunexpired (id, proof.id) (Table.mem_toList.mpr hentry)
    simpa [hg] using hentry'

lemma publish_admits (h : Core a) (hok : (a.publish publication).result = .ok flight) :
    ∃ d keys resources, (a.publish publication).state =
      d.ticked.launch keys resources ∧ flight = d.lastToken + 1 ∧ Core d ∧
        (∀ key ∈ publication.targets, ∀ id, a.keys.get? key = some id → id ∈ resources) ∧
          ∀ id ∈ resources, d.Guarded publication.scope d.time id := by
  unfold publish at hok ⊢
  split_ifs at hok ⊢ with hmany hkind
  obtain ⟨-, -, heq, hok⟩ := Outcome.andThen_eq_ok hok
  rw [heq]
  obtain ⟨-, hhealthy, heq, hok⟩ := Outcome.andThen_eq_ok hok
  rw [heq]
  have hsweeps := (sweeps_healthyLocked (t := anyTerms) a false true).trans
    (sweeps_expireSessionsNow (a.healthyLocked false true).state)
  set b := (a.healthyLocked false true).state.expireSessionsNow with hb
  have hco : Core b := h.chain hsweeps.chain
  obtain ⟨owner, howner, heq, hok⟩ := Outcome.andThen_eq_ok hok
  rw [heq]
  obtain ⟨found, hfd, heq, hok⟩ := Outcome.andThen_eq_ok hok
  rw [heq]
  have htargets := sweeps_admitTargets (t := anyTerms) hco
    publication.targets [] []
  have hnothing : Listed b [] [] := fun _ hkey => absurd hkey List.not_mem_nil
  obtain ⟨hl, hkeys⟩ := admitTargets_listed hco hnothing hfd
  set c := (admitTargets [] [] publication.targets b).state with hc
  have hcore' : Core c := hco.chain htargets.chain
  obtain ⟨proofs, hproofs, heq, hok⟩ := Outcome.andThen_eq_ok hok
  rw [heq]
  have hproven := scopeProofs_proven hcore' hproofs
  have hscope := sweeps_scopeProofs (t := anyTerms) hcore' owner found.1
    publication.scope.grants
  set d := (c.scopeProofs owner found.1 publication.scope.grants).state with hd
  split_ifs at hok ⊢ with huncovered hexpired
  cases hok
  refine ⟨d, found.1, found.2, rfl, rfl, hcore'.chain hscope.chain, ?_, ?_⟩
  · intro key hkey id hid
    rw [← hsweeps.swept.keys] at hid
    exact hl key ((hkeys key).mpr (.inr hkey)) id hid
  · intro id hid
    have hall : found.2.all (d.covered owner proofs) = true := by simpa using huncovered
    have hunexpired : d.unexpired proofs d.time = true := by simpa using hexpired
    refine (hcore'.chain hscope.chain).guarded ?_ hproven hunexpired
      (List.all_eq_true.mp hall id hid)
    intro o ho
    rw [ho] at howner
    exact scopeOwner_eq_ok howner

/-- An admitted publication acts on targets that nobody holds or that its scope's
owner holds exclusively.  Until it completes their live grants stay as they are and
no other publication is admitted on them, unless another publication completes and
retires one of them. -/
theorem publication_owns_targets {options : Options}
    {verify : Capability → Except Fault Unit} {now : ℕ → Time}
    {maxLease : Duration} {start : Option Time} {a₀ : Authority}
    (hnew : Authority.new options verify now maxLease start = .ok a₀)
    (before : List Step) {publication : Publication} {flight : ℕ}
    (hok : ((before.foldl exec a₀).publish publication).result = .ok flight) :
    let a := before.foldl exec a₀
    let b := exec a (.publish publication)
    ∃ f, b.flights.get? flight = some f ∧
      (∀ key ∈ publication.targets, ∀ id, a.keys.get? key = some id → id ∈ f.resources) ∧
      (∀ id ∈ f.resources, b.Guarded publication.scope (b.now (b.reads - 1)) id) ∧
      ∀ after, Runs.Along exec (fun c step => step.Spares flight f c) b after →
        let c := after.foldl exec b
        c.flights.get? flight = some f → (∀ id ∈ f.resources, b.Frozen c id) ∧
            ∀ other f', other ≠ flight → c.flights.get? other = some f' →
              ∀ id ∈ f.resources, id ∉ f'.resources := by
  intro a b
  have hstart : Core a ∧ Flights a := by
    obtain ⟨-, -, from₀, -, rfl⟩ := new_eq_ok hnew
    refine Core.run (motive := Flights) (fun h hmv hf => hf.move h hmv)
      (Core.initial options verify now maxLease from₀) ⟨?_, ?_⟩ before
    · intro flight f id hf
      cases hf
    · intro flight flight' f f' hf
      cases hf
  obtain ⟨d, keys, resources, hs, rfl, hco, hl, hguarded⟩ :=
    publish_admits hstart.1 hok
  have hb : b = d.ticked.launch keys resources := hs
  have hchain := exec_chain hstart.1 (.publish publication)
  have hal := Chain.invariant
    (motive := fun c => Core c ∧ Flights c)
    (fun c c' hmv hc => ⟨hc.1.move hmv, hc.2.move hc.1 hmv⟩) hchain hstart
  have hf : b.flights.get? (d.lastToken + 1) = some ⟨resources, keys⟩ := by
    rw [hb]
    exact Table.get?_set_self _ _ _
  have hlive : ∀ id, b.liveGrants id = d.liveGrants id := by
    intro id
    rw [hb]
    exact liveGrants_of_agree (agree_setBusy rfl) id
  refine ⟨⟨resources, keys⟩, hf, hl, ?_, ?_⟩
  · intro id hid
    have hadmission : b.now (b.reads - 1) = d.time := by
      rw [hb]
      rfl
    have hgrants : b.grantRecords = d.grantRecords := by
      rw [hb]
      rfl
    rw [hadmission]
    unfold Authority.Guarded
    rw [hlive, hgrants]
    exact hguarded id hid
  · intro after halong c hc
    have hold := hal.1.tokens.flight hf
    have hrun := Authority.Aloft.run
      (⟨hal.1, hal.2, hold, fun _ id _ => .refl⟩ :
        b.Aloft (d.lastToken + 1) ⟨resources, keys⟩ b) halong
    refine ⟨hrun.frozen hc, ?_⟩
    intro other f' hne hf'
    exact hrun.flights.disjoint hc hf' (Ne.symm hne)

/-- A caller locks a resource and publishes on it with the grant as proof. -/
def Sample.guarded : Publication :=
  ⟨.write, [[5]], ⟨⟨1, 2⟩, [⟨1, 3, 1⟩]⟩⟩

theorem publication_owns_targets_of_lock :
    let a := (Sample.enter ++ Sample.lock ⟨1, 2⟩ [9] 3 .exclusive
      (1000 * millisecond) 0).foldl exec Sample.fresh
    (a.publish Sample.guarded).result = .ok 4 ∧
      ∃ f, (exec a (.publish Sample.guarded)).flights.get? 4 = some f ∧
        ∀ key ∈ Sample.guarded.targets, ∀ id, a.keys.get? key = some id → id ∈ f.resources := by
  have hok : (((Sample.enter ++ Sample.lock ⟨1, 2⟩ [9] 3 .exclusive
      (1000 * millisecond) 0).foldl exec Sample.fresh).publish
        Sample.guarded).result = .ok 4 := rfl
  obtain ⟨f, hf, hl, -⟩ := publication_owns_targets Sample.new_fresh _ hok
  exact ⟨hok, f, hf, hl⟩

/-- A publication on a key that names no resource yet, then a caller who registers
and locks the resource and publishes with the grant as proof. -/
def Sample.overlapping : List Step :=
  [.openSession ⟨7, 1000⟩, .createOwner 1 [1],
    .publish ⟨.remove, [[5]], ⟨⟨0, 0⟩, []⟩⟩, .discover ⟨1, 2⟩ [5] false] ++
    Sample.lock ⟨1, 2⟩ [9] 4 .exclusive (1000 * millisecond) 0 ++
    [.publish ⟨.write, [[5]], ⟨⟨1, 2⟩, [⟨1, 4, 1⟩]⟩⟩]

/-- The first publication retires the resource while the second is in flight on
it. -/
theorem live_grants_change_in_flight :
    let a := Sample.overlapping.foldl exec Sample.fresh
    let a' := exec a (.complete 3 ⟨true, [[5]], none⟩)
    (a.flights.get? 5).map Flight.resources = some [4] ∧
      (a'.flights.get? 5).map Flight.resources = some [4] ∧
        a.liveGrants 4 = [1] ∧ a'.liveGrants 4 = [] := by
  decide +kernel

end RemoteFs.Locking
