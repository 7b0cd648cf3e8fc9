import RemoteFs.Locking.Sweeps

/-!
# Every section is a chain of moves

Each section of a call, started in a state with the structural invariant, changes
the state by moves whose guards are the tests that the section has made.
-/

namespace RemoteFs.Locking

open Authority

variable {a a' b : Authority} {ref : ActionRef} {id : ResourceID}
  {action : ActionRecord} {o : OwnerRecord} {request : AcquireRequest}
  {r : ResourceRecord} {keys : List BackendKey} {resources : List ResourceID} {job : Job}

/-- The clock moves, between the touch of the session and the start of the
acquisition that the next section enrols, by no more than what the idle lifetime
exceeds the wait. -/
def Authority.Prompt (a : Authority) (request : AcquireRequest) : Prop :=
  a.now (a.reads + 4) + request.wait ≤
    a.now (a.reads + 2) + a.options.sessionIdle

/-- The resources that a publication retires when it completes: those listed
under the keys it reports, if it has declared all of them. -/
def Authority.Retires (a : Authority) (flight : ℕ)
    (outcome : PublicationOutcome) (id : ResourceID) : Prop :=
  ∃ f, a.flights.get? flight = some f ∧
    (declaredOutcome f outcome).known = true ∧
      ∃ key ∈ outcome.retired, a.keys.get? key = some id

/-- The terms on which a section moves. -/
def Step.terms (a : Authority) : Step → Terms
  | .acquire request => ⟨fun _ => False, a.Prompt request⟩
  | .complete flight outcome => ⟨a.Retires flight outcome, True⟩
  | _ => ⟨fun _ => False, True⟩

section Preamble

variable {t : Terms} {α β : Type}

lemma chain_andThen {first : Outcome α} {next : Authority → α → Outcome β}
    (hfi : Chain t a first.state)
    (hnext : ∀ x, first.result = .ok x → Chain t first.state (next first.state x).state) :
    Chain t a (first.andThen next).state := by
  unfold Outcome.andThen
  split
  · exact hfi
  · exact hfi.trans (hnext _ ‹_›)

lemma Outcome.andThen_eq_ok {first : Outcome α} {next : Authority → α → Outcome β} {y : β}
    (hok : (first.andThen next).result = .ok y) :
    ∃ x, first.result = .ok x ∧ first.andThen next = next first.state x ∧
      (next first.state x).result = .ok y := by
  unfold Outcome.andThen at hok ⊢
  split at hok
  · cases hok
  · exact ⟨_, ‹_›, rfl, hok⟩

lemma sweeps_healthyLocked (a : Authority) (cancelled admission : Bool) :
    Sweeps t a (a.healthyLocked cancelled admission).state := by
  unfold healthyLocked
  split_ifs
  · exact .refl
  · exact .refl
  · exact .refl
  · exact .refl
  · exact .single (.clock a)
  · exact .single (.clock a)

variable {cancelled : Bool}

lemma healthyLocked_admits (hok : (a.healthyLocked cancelled true).result = .ok ()) :
    (a.healthyLocked cancelled true).state = a.ticked ∧ a.recoveryUntil ≤ a.time := by
  unfold healthyLocked at hok ⊢
  split_ifs at hok ⊢ with hcancelled hclosed hfenced hquery hearly
  · cases hquery
  · exact ⟨rfl, not_lt.mp hearly⟩

lemma Authority.Admitted.swept (h : a.Admitted) (hswept : Swept a b) : b.Admitted := by
  obtain ⟨k, hk, hpast⟩ := h
  refine ⟨k, lt_of_lt_of_le hk hswept.reads, ?_⟩
  rwa [hswept.now, hswept.recoveryUntil]

lemma Authority.Admitted.ticked (h : a.Admitted) : a.ticked.Admitted :=
  h.swept (.of_sweep (t := anyTerms) (.clock a))

lemma healthyLocked_admitted (hok : (a.healthyLocked cancelled true).result = .ok ()) :
    (a.healthyLocked cancelled true).state.Admitted := by
  obtain ⟨hst, hpast⟩ := healthyLocked_admits hok
  rw [hst]
  exact ⟨a.reads, Nat.lt_succ_self _, hpast⟩

lemma ownerLocked_eq_ok {ref : OwnerRef} (hlo : a.ownerLocked ref = .ok o) :
    a.owners.get? ref.owner = some o ∧ o.ref = ref := by
  unfold ownerLocked at hlo
  split at hlo
  · cases hlo
  split at hlo
  · cases hlo
  split at hlo
  · cases hlo
  rename_i found hfd
  cases hlo
  rwa [Option.filter_eq_some_iff, decide_eq_true_eq] at hfd

lemma sessionLocked_eq_ok (hlo : a.sessionLocked id = .ok s) :
    a.sessions.get? id = some s := by
  unfold sessionLocked at hlo
  split at hlo
  · cases hlo
  split at hlo
  · cases hlo
  · cases hlo
    assumption

lemma chain_owned {ref : OwnerRef}
    {body : Authority → OwnerRecord → Outcome α} (cancelled admission : Bool)
    (hbody : ∀ b o, Sweeps t a b → b.owners.get? ref.owner = some o →
      o.ref = ref → (a.healthyLocked cancelled admission).result = .ok () →
        b = (a.healthyLocked cancelled admission).state.expireSessionsNow →
          Chain t b (body b o).state) :
    Chain t a ((a.healthyLocked cancelled admission).andThen fun a _ =>
      (⟨a.expireSessionsNow, a.expireSessionsNow.ownerLocked ref⟩ :
        Outcome OwnerRecord).andThen body).state := by
  have hhealthy : Sweeps t a (a.healthyLocked cancelled admission).state :=
    sweeps_healthyLocked a cancelled admission
  refine chain_andThen hhealthy.chain fun _ hok => ?_
  have hexp := sweeps_expireSessionsNow (t := t)
    (a.healthyLocked cancelled admission).state
  refine chain_andThen hexp.chain fun o hlo => ?_
  obtain ⟨how, href⟩ := ownerLocked_eq_ok hlo
  exact hbody _ o (hhealthy.trans hexp) how href hok rfl

end Preamble

section Lookups

variable {t : Terms}

lemma sweeps_grantLockedForOwner (h : Grants a) (o : OwnerRecord) (ref : GrantRef) :
    Sweeps t a (a.grantLockedForOwner o ref).state := by
  unfold grantLockedForOwner
  split
  · exact .refl
  · split
    · exact .refl
    · exact sweeps_expireGrantsNow h _

lemma grantLockedForOwner_eq_ok (h : Grants a) {ref : GrantRef}
    {g : GrantRecord} (hlo : (a.grantLockedForOwner o ref).result = .ok g) :
    (a.grantLockedForOwner o ref).state.grantRecords.get? ref.id = some g ∧
      ref.id ∈ o.grants ∧ g.ref = ref := by
  unfold grantLockedForOwner at hlo ⊢
  split at hlo
  · cases hlo
  split at hlo
  · cases hlo
  rename_i found hfd
  cases hlo
  rw [Option.filter_eq_some_iff] at hfd
  obtain ⟨hget, hcheck⟩ := hfd
  simp only [Bool.and_eq_true, List.contains_iff_mem, decide_eq_true_eq] at hcheck
  have hexp := sweeps_expireGrantsNow (t := anyTerms) h found.resource
  obtain ⟨g', hg', hframe⟩ := hexp.swept.grant.symm.exists hget
  have href : found.ref = g'.ref := by
    have hsm := congrArg GrantRecord.ref hframe
    exact hsm
  dsimp only
  rw [hg']
  exact ⟨rfl, hcheck.1, href.symm.trans hcheck.2⟩

lemma grantLockedForOwner_keeps (a : Authority) (o : OwnerRecord) (ref : GrantRef) :
    (a.grantLockedForOwner o ref).state.actionRecords = a.actionRecords ∧
      Table.Agree OwnerRecord.lists a.owners (a.grantLockedForOwner o ref).state.owners := by
  unfold grantLockedForOwner
  split
  · exact ⟨rfl, .refl⟩
  split
  · exact ⟨rfl, .refl⟩
  · exact ⟨expireGrantsLocked_actionRecords a.ticked _ _, expireGrantsLocked_owners a.ticked _ _⟩

lemma sweeps_resourceLocked (a : Authority) (ref : ResourceRef) :
    Sweeps t a (a.resourceLocked ref).state := by
  unfold resourceLocked
  split
  · exact .refl
  split
  · exact .refl
  · split_ifs <;> exact .single (.clock a)

lemma resourceLocked_eq_ok {ref : ResourceRef} (hlo : (a.resourceLocked ref).result = .ok r) :
    (a.resourceLocked ref).state = a.ticked ∧ a.resourceRecords.get? ref.id = some r := by
  unfold resourceLocked at hlo ⊢
  split at hlo
  · cases hlo
  split at hlo
  · cases hlo
  rename_i found hfd
  rw [Option.filter_eq_some_iff] at hfd
  split_ifs at hlo ⊢
  cases hlo
  exact ⟨rfl, hfd.1⟩

lemma sweeps_grantStatusLocked (h : Grants a) (id : GrantID) :
    Sweeps t a (a.grantStatusLocked id).1 := by
  unfold grantStatusLocked
  split
  · exact .refl
  · exact sweeps_expireGrantsNow h _

lemma sweeps_actionResultLocked (h : Grants a) (o : OwnerRecord) (action : ActionRecord) :
    Sweeps t a (a.actionResultLocked o action).1 := by
  unfold actionResultLocked
  split
  rename_i found hfd
  split at hfd
  · cases hfd
    exact .single (.clock a)
  · have hstatus := sweeps_grantStatusLocked (t := t) h.ticked ‹GrantID›
    rw [hfd] at hstatus
    exact .trans (.single (.clock a)) hstatus

end Lookups

/-! ## Enrollment -/

section Enrollment

variable {t : Terms} {a : Authority}

lemma chain_openSession (ticket : EnrollmentTicket) : Chain t a (a.openSession ticket).state := by
  unfold openSession
  refine chain_andThen (sweeps_healthyLocked a _ _).chain fun _ _ => ?_
  refine chain_andThen .refl fun _ _ => ?_
  refine chain_andThen .refl fun expiry _ => ?_
  have hexp := (sweeps_expireSessionsNow (t := t)
    (a.healthyLocked false false).state).chain
  dsimp only
  split
  · exact hexp
  split
  · split_ifs
    · exact (hexp.tail (.touch _ _)).tail (.clock _)
    · exact hexp
  rename_i hnew
  split_ifs with hfu
  · exact hexp
  · rw [not_or, not_le, not_le] at hfu
    exact (hexp.tail (.addSession _ ticket _ expiry hnew hfu.1 hfu.2)).tail (.clock _)

lemma chain_createOwner (id : SessionID) (request : RequestID) :
    Chain t a (a.createOwner id request).state := by
  unfold createOwner
  refine chain_andThen (sweeps_healthyLocked a _ _).chain fun _ _ => ?_
  refine chain_andThen (sweeps_expireSessionsNow _).chain fun s hs => ?_
  have hsess := sessionLocked_eq_ok hs
  dsimp only
  split
  · exact .refl
  split
  · exact (Move.chain (.touch _ _)).tail (.clock _)
  rename_i hnew
  split_ifs with hfu
  · exact .refl
  · rw [not_or, not_or, not_le, not_le, not_le] at hfu
    exact ((Chain.refl.tail (.addOwner _ request hsess hnew hfu.1
      hfu.2.1 hfu.2.2)).tail (.touch _ _)).tail (.clock _)

lemma chain_retireOwner (ref : OwnerRef) : Chain t a (a.retireOwner ref).state := by
  unfold retireOwner
  refine chain_andThen (sweeps_healthyLocked a _ _).chain fun _ _ => ?_
  split
  · split_ifs <;> exact .refl
  rename_i o hlo
  split_ifs with hbu
  · exact .refl
  refine (sweeps_retireOwnerLocked ?_).chain
  intro found hfd
  rw [(ownerLocked_eq_ok hlo).1] at hfd
  cases hfd
  exact Bool.eq_false_iff.mpr hbu

lemma chain_closeSession (id : SessionID) : Chain t a (a.closeSession id).state := by
  unfold closeSession
  refine chain_andThen (sweeps_healthyLocked a _ _).chain fun _ _ => ?_
  split
  · split_ifs <;> exact .refl
  · split_ifs with hbu
    · exact .refl
    · exact (sweeps_retireSessionLocked (Bool.eq_false_iff.mpr hbu)).chain

end Enrollment

/-! ## Resources -/

section Resources

variable {t : Terms} {a : Authority}

lemma chain_resolve (ref : OwnerRef) : Chain t a (a.resolve ref).state :=
  chain_owned false false fun _ _ _ _ _ _ _ => .refl

lemma chain_refer (o : OwnerRecord) (id : ResourceID) (adopted : Bool) :
    Chain t a (a.refer o id adopted).state := by
  have hrefer : Move t a.ticked (a.ticked.modifyResource id
      ({ · with referenceUntil := a.time + a.options.resourceTTL })) :=
    .tidy _ fun _ _ => ⟨rfl, rfl, rfl, rfl, rfl, rfl⟩
  exact ((Move.chain (.clock a)).tail hrefer).tail (.touch _ _)

lemma chain_discover (ref : OwnerRef) (key : BackendKey) (cancelled : Bool) :
    Chain t a (a.discover ref key cancelled).state := by
  refine chain_owned cancelled false fun b o _ _ _ _ _ => ?_
  split
  · exact .refl
  split
  · rename_i hnew
    split_ifs with hfu
    · exact .refl
    · exact (Move.chain (.adopt hnew (not_le.mp hfu))).trans (chain_refer o _ true)
  · split_ifs
    · exact .refl
    · exact chain_refer o _ false

end Resources

/-! ## Enrolling an action -/

section Enrolling

variable {t : Terms} {a : Authority}

lemma chain_rejectEnrolled (h : Core a) (o : OwnerRecord) (ref : ActionRef)
    (fault : Fault) : Chain t a (a.rejectEnrolled o ref fault).state := by
  have hfinish : Sweeps t a (a.finishLocked ref .rejected (some fault.code)) :=
    sweeps_finishLocked a ref .rejected (some fault.code) True.intro
  unfold rejectEnrolled
  dsimp only
  split
  · exact hfinish.chain
  · exact hfinish.chain.trans (sweeps_actionResultLocked (h.chain hfinish.chain).grants o _).chain

lemma touchSessionLocked_expires (hs : a.sessions.get? id = some s) :
    a.time + a.options.sessionIdle ≤ (a.touchSessionLocked id).sessionExpires id := by
  have hget : (a.touchSessionLocked id).sessions.get? id =
      some (s.extend (a.time + a.options.sessionIdle)) := by
    change (Table.modify _ _ _).get? id = _
    exact Table.get?_modified hs
  unfold sessionExpires
  rw [hget]
  change _ ≤ (s.extend (a.time + a.options.sessionIdle)).expires
  unfold SessionRecord.extend
  split_ifs with hless
  · exact le_refl _
  · exact not_lt.mp hless

lemma move_enroll (receipt : ActionReceipt) (tombstone : Bool)
    (how : a.owners.get? ref.owner = some o) (hnew : a.actionRecords.get? ref = none)
    (hro : ¬a.fullHistory o = true) (hintent : receipt.Intent a.options)
    (hout : receipt.outcome = .pending ∨ receipt.outcome = .cancelled) :
    Move t a (a.enroll ref (.enrolled receipt tombstone)) :=
  .enroll receipt tombstone how hnew hintent hout (Bool.eq_false_iff.mpr hro)

/-- The state after a pending request was enrolled and its session touched. -/
lemma enroll_touched (how : a.owners.get? ref.owner = some o)
    (hnew : a.actionRecords.get? ref = none) (hro : ¬a.fullHistory o = true)
    (hintent : receipt.Intent a.options) (hp : receipt.outcome = .pending) :
    let c := (a.enroll ref (.enrolled receipt false)).touchLocked o
    Chain t a c ∧ c.actionRecords.get? ref = some (.enrolled receipt false) ∧
      c.owners.get? ref.owner = some { o with actions := ref.request :: o.actions } := by
  have henroll : Move t a (a.enroll ref (.enrolled receipt false)) :=
    move_enroll receipt false how hnew hro hintent (.inl hp)
  refine ⟨henroll.chain.tail (.touch _ o.ref.session), Table.get?_set_self _ _ _, ?_⟩
  change (Table.modify _ _ _).get? ref.owner = _
  exact Table.get?_modified how

lemma AcquireRequest.valid_bounds {o : Options} (hv : request.valid o = true) :
    (request.mode = .shared ∨ request.mode = .exclusive) ∧
      request.ttl ≤ o.maxLease ∧ request.wait ≤ o.maxWait := by
  unfold AcquireRequest.valid at hv
  simp only [Bool.and_eq_true, Bool.or_eq_true, decide_eq_true_eq] at hv
  exact ⟨hv.1.2, hv.2.2.1, hv.2.2.2.2.1⟩

lemma RenewRequest.valid_bounds {request : RenewRequest} {o : Options}
    (hv : request.valid o = true) : request.ttl ≤ o.maxLease := by
  unfold RenewRequest.valid at hv
  simp only [Bool.and_eq_true, decide_eq_true_eq] at hv
  exact hv.2.2.1

lemma chain_enrollAcquire (h : Core a) (how : a.owners.get? request.owner.owner = some o)
    (hnew : a.actionRecords.get? ⟨request.owner.owner, request.request⟩ = none)
    (hro : ¬a.fullHistory o = true) (hv : request.valid a.options = true)
    (hprompt : t.prompt → a.now (a.reads + 2) + request.wait ≤
      a.now a.reads + a.options.sessionIdle) : Chain t a (a.enrollAcquire o request).state := by
  unfold enrollAcquire
  set ref : ActionRef := ⟨request.owner.owner, request.request⟩ with href
  set receipt : ActionReceipt := {
    kind := .acquire
    request := request.request
    acquire := some request
    renew := none
    outcome := .pending
    code := none
    grant := none
    deadlineMillis := 0
    revision := 0 } with hreceipt
  have hintent : receipt.Intent a.options := by
    refine ⟨fun found hfd => ?_, fun found hfd => by cases hfd⟩
    cases hfd
    exact ⟨rfl, AcquireRequest.valid_bounds hv⟩
  obtain ⟨htouched, hac, howner'⟩ := enroll_touched (t := t) how hnew hro hintent rfl
  set b := a.enroll ref (.enrolled receipt false) with hb
  set c := b.touchLocked o with hc
  have hfin : Sweeps t c (c.resourceLocked request.resource).state :=
    sweeps_resourceLocked c request.resource
  dsimp only
  split
  · exact (htouched.trans hfin.chain).trans (chain_rejectEnrolled
      (h.chain (htouched.trans hfin.chain)) o ref _)
  rename_i r hr
  obtain ⟨hst, hre⟩ := resourceLocked_eq_ok hr
  refine (htouched.trans hfin.chain).trans ?_
  rw [hst]
  have hsess := Option.isSome_iff_exists.mp (h.tokens.home how)
  obtain ⟨s, hs⟩ := hsess
  have hexpires : b.time + b.options.sessionIdle ≤
      c.sessionExpires o.ref.session := touchSessionLocked_expires hs
  have hhold : Move t c.ticked (c.ticked.hold ref request.resource.id none c.ticked.time) := by
    refine .hold none c.ticked.time hac rfl howner' hre (fun _ => rfl)
      (fun held hh => by cases hh) ?_
    intro hcond found hfd
    cases hfd
    exact le_trans (hprompt hcond) hexpires
  exact hhold.chain.tail (.clock _)

lemma chain_enrollRenew (h : Core a) {request : RenewRequest}
    (how : a.owners.get? request.owner.owner = some o)
    (hnew : a.actionRecords.get? ⟨request.owner.owner, request.request⟩ = none)
    (hro : ¬a.fullHistory o = true) (hv : request.valid a.options = true) :
    Chain t a (a.enrollRenew o request).state := by
  unfold enrollRenew
  set ref : ActionRef := ⟨request.owner.owner, request.request⟩ with href
  set receipt : ActionReceipt := {
    kind := .renew
    request := request.request
    acquire := none
    renew := some request
    outcome := .pending
    code := none
    grant := none
    deadlineMillis := 0
    revision := 0 } with hreceipt
  have hintent : receipt.Intent a.options := by
    refine ⟨fun found hfd => (by cases hfd), fun found hfd => ?_⟩
    cases hfd
    exact ⟨rfl, RenewRequest.valid_bounds hv⟩
  obtain ⟨htouched, hset, howner'⟩ := enroll_touched (t := t) how hnew hro hintent rfl
  set c := (a.enroll ref (.enrolled receipt false)).touchLocked o with hc
  have hco : Core c := h.chain htouched
  have hfin : Sweeps t c (c.grantLockedForOwner o request.grant).state :=
    sweeps_grantLockedForOwner hco.grants o request.grant
  set d := (c.grantLockedForOwner o request.grant).state with hd
  have hfd : Chain t a d := htouched.trans hfin.chain
  dsimp only
  split
  · exact hfd.trans (chain_rejectEnrolled (h.chain hfd) o ref _)
  rename_i g hg
  split_ifs with hactive
  · exact hfd.trans (chain_rejectEnrolled (h.chain hfd) o ref _)
  obtain ⟨hre, hm, -⟩ := grantLockedForOwner_eq_ok hco.grants hg
  obtain ⟨ha, howners⟩ := grantLockedForOwner_keeps c o request.grant
  have hac : d.actionRecords.get? ref = some (.enrolled receipt false) := by rwa [hd, ha]
  obtain ⟨o', ho', hlists⟩ := howners.symm.exists howner'
  have hgrants : o.grants = o'.grants := (Prod.mk.inj
    (Prod.mk.inj hlists).2).2
  have hcore' : Core d := h.chain hfd
  obtain ⟨r, hr, -⟩ := (hcore'.grants.granted hre).listed (not_not.mp hactive)
  obtain ⟨g', hg', hholder⟩ := hcore'.grants.owner ho' (hgrants ▸ hm)
  have hsm : g' = g := Option.some.inj (hg'.symm.trans hre)
  refine hfd.tail (.hold (some request.grant.id) 0 hac rfl ho' hr
    (fun hkind => by cases hkind) ?_ (fun _ found hasked => by cases hasked))
  intro held hh
  cases hh
  exact ⟨g, hre, rfl, hsm ▸ hholder⟩

/-- The first section of `Acquire`; the clock is read twice before the session
is touched. -/
lemma chain_acquire (h : Core a) (request : AcquireRequest)
    (hprompt : t.prompt → a.Prompt request) : Chain t a (a.acquire request).state := by
  refine chain_owned false true fun b o hsw how _ hok hb => ?_
  have hco := h.chain hsw.chain
  have hreads : b.reads = a.reads + 2 := by
    rw [hb, (healthyLocked_admits hok).1, expireSessionsNow_reads]
    rfl
  split
  · exact .refl
  rename_i hv
  split
  · split
    · exact .refl
    · split_ifs <;> exact .refl
  rename_i hnew
  split_ifs with hro
  · exact .refl
  · refine chain_enrollAcquire hco how hnew hro (by simpa using hv) ?_
    rwa [hsw.swept.now, hsw.swept.options, hreads]

lemma chain_renew (h : Core a) (request : RenewRequest) : Chain t a (a.renew request).state := by
  refine chain_owned false true fun b o hsw how _ _ _ => ?_
  have hco := h.chain hsw.chain
  split
  · exact .refl
  rename_i hv
  split
  · split_ifs <;> exact .refl
  rename_i hnew
  split_ifs with hro
  · exact .refl
  · exact chain_enrollRenew hco how hnew hro (by simpa using hv)

end Enrolling

/-! ## Raising the durable maximum -/

section Raising

variable {t : Terms} {a : Authority}

lemma chain_raise (job : Job) (cancelled : Bool) : Chain t a (a.raise job cancelled) := by
  unfold raise
  split
  · rename_i ref hph
    split
    · exact .refl
    rename_i hh
    split
    · have hopen : Phase.raising ≠ .persisting ∧ Phase.raising ≠ .persisted := by decide
      exact Move.chain (.phase hph (.abandon _ hopen))
    split_ifs with hlow
    · exact Move.chain (.phase hph (.sufficient hlow))
    · exact Move.chain (.phase hph (.enterRaise
        (Option.not_isSome_iff_eq_none.mp hh) (not_le.mp hlow)))
  · exact .refl

lemma chain_persist (job : Job) (stored : Bool) (err : Option Fault) :
    Chain t a (a.persist job stored err) := by
  unfold persist
  split
  · rename_i ref hph
    split
    · exact Move.chain (.phase hph .store)
    refine Move.chain (.phase hph (.storeFailed _ ?_))
    split_ifs
    · exact le_max_left _ _
    · exact le_refl _
  · exact .refl

lemma chain_advance (job : Job) : Chain t a (a.advance job) := by
  unfold advance
  split
  · exact Move.chain (.phase ‹_› .leaveRaise)
  · exact .refl

end Raising

/-! ## Inside `Guard` -/

/-- A chain inside a callback, during which no call moves on. -/
structure Within (t : Terms) (a a' : Authority) : Prop where
  chain : Chain t a a'
  phase : ∀ job, a'.phase? job = a.phase? job

lemma phase?_call_congr
    (ha : Table.Agree ActionRecord.call a.actionRecords a'.actionRecords)
    (ref : ActionRef) : a'.phase? (.call ref) = a.phase? (.call ref) :=
  congrArg (Option.map (Prod.mk ref)) (ha.bind_eq id ref)

lemma phase?_worker_congr (hres : Table.Agree (fun r => r.worker.attempt) a.resourceRecords
      a'.resourceRecords) (id : ResourceID) : a'.phase? (.worker id) = a.phase? (.worker id) :=
  hres.bind_eq (fun hsm => hsm) id

lemma phase?_of_agree (ha : Table.Agree ActionRecord.call a.actionRecords a'.actionRecords)
    (hres : Table.Agree (fun r => r.worker.attempt) a.resourceRecords
      a'.resourceRecords) (job : Job) : a'.phase? job = a.phase? job := by
  cases job with
  | call ref => exact phase?_call_congr ha ref
  | worker id => exact phase?_worker_congr hres id

namespace Within

variable {t : Terms} {a b c : Authority}

lemma refl : Within t a a := ⟨.refl, fun _ => rfl⟩

lemma trans (hfi : Within t a b) (hsecond : Within t b c) : Within t a c :=
  ⟨hfi.chain.trans hsecond.chain, fun job => (hsecond.phase job).trans (hfi.phase job)⟩

lemma of_sweeps (hsw : Sweeps t a b) : Within t a b := ⟨hsw.chain, hsw.swept.phase?⟩

lemma andThen {α β : Type} {first : Outcome α}
    {next : Authority → α → Outcome β} (hfi : Within t a first.state)
    (hnext : ∀ x, first.result = .ok x → Within t first.state (next first.state x).state) :
    Within t a (first.andThen next).state := by
  unfold Outcome.andThen
  split
  · exact hfi
  · exact hfi.trans (hnext _ ‹_›)

end Within

section Guard

variable {t : Terms} {a : Authority}

lemma finishPending_phase (a : Authority) (ref : ActionRef)
    (action : ActionRecord) (outcome : ActionOutcome) (code : Option Code) (job : Job) :
    (a.finishPending ref action outcome code).phase? job = a.phase? job := by
  have ha : Table.Agree ActionRecord.call a.actionRecords
      (a.finishPending ref action outcome code).actionRecords := .edit rfl
  exact phase?_of_agree ha (finishPending_resources _ _ rfl) job

lemma issue_phase (ref : ActionRef) (action : ActionRecord)
    (o : OwnerRecord) (id : ResourceID) (request : AcquireRequest) (job : Job) :
    (a.issue ref action o id request).phase? job = a.phase? job := by
  have hinsert : ∀ job, (a.insertGrant ref id request).phase? job = a.phase? job :=
    phase?_of_agree (.edit rfl) (.edit rfl)
  have hfinish : (a.issue ref action o id request).phase? job =
      (a.insertGrant ref id request).phase? job :=
    finishPending_phase _ _ _ _ _ job
  exact hfinish.trans (hinsert job)

lemma prolong_phase (ref : ActionRef) (action : ActionRecord)
    (o : OwnerRecord) (grant : GrantID) (g : GrantRecord) (request : RenewRequest) (job : Job) :
    (a.prolong ref action o grant g request).phase? job = a.phase? job := by
  have hextend : ∀ job, (a.extendGrant ref grant g request).phase? job = a.phase? job :=
    phase?_of_agree (.edit rfl) .refl
  have hfinish : (a.prolong ref action o grant g request).phase? job =
      (a.extendGrant ref grant g request).phase? job :=
    finishPending_phase _ _ _ _ _ job
  exact hfinish.trans (hextend job)

lemma finishLocked_eq_finishPending (hget : a.actionRecords.get? ref = some action)
    (hp : action.receipt.outcome = .pending) (outcome : ActionOutcome)
    (code : Option Code) :
    a.finishLocked ref outcome code = a.finishPending ref action outcome code := by
  unfold finishLocked
  rw [hget]
  exact if_neg (not_not.mpr hp)

lemma within_grantLocked (hget : a.actionRecords.get? ref = some action)
    (hp : action.receipt.outcome = .pending) (hph : a.phase? job = some (ref, .guarding))
    (hacq : action.receipt.acquire = some request) (hres : action.resource = some id)
    (how : a.owners.get? ref.owner = some o) (hre : a.resourceRecords.get? id = some r)
    (hidl : r.busy = false) (hcompatible : a.compatibleLocked r ref.owner request.mode = true)
    (hturn : r.queue = [] ∨ r.queue.head? = some ref) (hadm : a.Admitted) :
    Within t a (a.grantLocked ref o id request).state := by
  unfold grantLocked
  split_ifs with hfu hlast
  · exact .refl
  · exact .refl
  rw [not_or, not_le, not_le] at hfu
  have hissue : ((a.insertGrant ref id request).finishLocked ref .granted
      none).touchLocked o = a.issue ref action o id request := by
    rw [finishLocked_eq_finishPending (insertGrant_action hget id request) hp]
    rfl
  rw [hissue]
  exact ⟨Move.chain (.issue job hget hp hph hacq hres how hre hidl
    hcompatible hturn hfu.1 hfu.2 hadm), issue_phase ref action o id request⟩

lemma within_startWorkerLocked (id : ResourceID) : Within t a (a.startWorkerLocked id) := by
  unfold startWorkerLocked
  split
  · exact .refl
  rename_i r hr
  split_ifs with hskip
  · exact .refl
  have hstopped : r.worker = .stopped := by
    by_contra hrunning
    exact hskip (.inl hrunning)
  have hattempt : ∀ found, a.resourceRecords.get? id = some found →
      found.worker.attempt = none := by
    intro found hfd
    cases hr.symm.trans hfd
    rw [hstopped]
    rfl
  refine ⟨Move.chain (.tidy _ fun found hfd => ?_), ?_⟩
  · exact ⟨rfl, rfl, rfl, rfl, rfl, (hattempt found hfd).symm⟩
  · exact phase?_of_agree .refl (.modify fun found hfd => (hattempt found hfd).symm)

lemma within_acquireDecision (hget : a.actionRecords.get? ref = some action)
    (hp : action.receipt.outcome = .pending) (hca : action.call = some .guarding)
    (hwait : action.waitUntil = none) (hacq : action.receipt.acquire = some request)
    (hres : action.resource = some id) (how : a.owners.get? ref.owner = some o)
    (hre : a.resourceRecords.get? id = some r) (hadm : a.Admitted) :
    Within t a (a.acquireDecision ref o id r request action.started).state := by
  have hph : a.phase? (.call ref) = some (ref, .guarding) := by
    change ((a.actionRecords.get? ref).bind ActionRecord.call).map _ = _
    rw [hget, Option.bind_some, hca]
    rfl
  unfold acquireDecision
  split_ifs with hh hfree hnowait hfu hlate
  · exact .refl
  · simp only [Bool.and_eq_true, Bool.not_eq_true', List.isEmpty_iff] at hfree
    exact within_grantLocked hget hp hph hacq hres how
      hre hfree.1.1 hfree.2 (.inl hfree.1.2) hadm
  · exact .refl
  · exact .refl
  · exact .of_sweeps (.trans (.single (.clock a))
      (sweeps_finishLocked a.ticked ref .timedOut none True.intro))
  rw [not_or, not_or, not_le, not_le, not_le] at hfu
  have henqueue : Within t a.ticked (a.ticked.enqueue ref id (action.started + request.wait)) :=
    ⟨Move.chain (.enqueue hget hp hca hwait hacq hres how hre hfu.1 hfu.2.1
    hfu.2.2), phase?_of_agree (.edit rfl) (.edit rfl)⟩
  exact (Within.of_sweeps (.single (.clock a))).trans (henqueue.trans (within_startWorkerLocked id))

lemma spared_action (hspares : Spares a b)
    (how : ¬(b.owners.get? ref.owner).isNone = true) (id : ResourceID) :
    (b.ticked.expireGrantsLocked id b.time).actionRecords.get? ref =
      a.actionRecords.get? ref := by
  rw [expireGrantsLocked_actionRecords]
  have hsome : (b.owners.get? ref.owner).isSome := by
    rw [Option.isSome_iff_ne_none]
    intro hnone
    rw [hnone] at how
    exact how rfl
  exact hspares.same hsome ref.request

/-- What a callback finds after it has expired sessions and the grants of its
resource. -/
lemma guard_upkeep (h : Core a) (hget : a.actionRecords.get? ref = some action)
    (hok : (a.healthyLocked cancelled true).result = .ok ()) (id : ResourceID) :
    let b := (a.healthyLocked cancelled true).state
    let c := b.expireSessionsNow.ticked.expireGrantsLocked id b.expireSessionsNow.time
    Sweeps t b b.expireSessionsNow ∧ Sweeps t b c ∧ Core c ∧ c.Admitted ∧
      (∀ job, c.phase? job = a.phase? job) ∧
      (¬(b.expireSessionsNow.owners.get? ref.owner).isNone = true →
        c.actionRecords.get? ref = some action) := by
  intro b c
  have hhealthy : Sweeps t a b := sweeps_healthyLocked a cancelled true
  have hexp : Sweeps t b b.expireSessionsNow := sweeps_expireSessionsNow b
  have hco : Core b.expireSessionsNow := h.chain (hhealthy.trans hexp).chain
  have hupkeep : Sweeps t b c := hexp.trans (sweeps_expireGrantsNow hco.grants id)
  refine ⟨hexp, hupkeep, h.chain (hhealthy.trans hupkeep).chain,
    (healthyLocked_admitted hok).swept hupkeep.swept,
    (hhealthy.trans hupkeep).swept.phase?, fun hgo => ?_⟩
  have hsm : b.actionRecords = a.actionRecords := by
    simp only [b, (healthyLocked_admits hok).1]
    rfl
  exact (spared_action (spares_expireSessionsNow b) hgo id).trans (hsm ▸ hget)

lemma within_acquireGuard (h : Core a) (hget : a.actionRecords.get? ref = some action)
    (hp : action.receipt.outcome = .pending) (hca : action.call = some .guarding)
    (hwait : action.waitUntil = none) (hacq : action.receipt.acquire = some request)
    (hres : action.resource = some id) (cancelled : Bool) :
    Within t a (a.acquireGuard ref id request action.started cancelled).state := by
  refine Within.andThen (.of_sweeps (sweeps_healthyLocked a _ _)) fun _ hok => ?_
  obtain ⟨hexp, hupkeep, hco, hadm, hphases, hac⟩ := guard_upkeep (t := t) h hget hok id
  dsimp only
  split_ifs with hgo hretired
  · exact .of_sweeps hexp
  · exact .of_sweeps hexp
  refine Within.trans (.of_sweeps hupkeep) ?_
  split
  · rename_i o r ho hr
    exact within_acquireDecision (hac hgo) hp hca hwait hacq
      hres ho hr hadm
  · exact .refl

lemma within_renewGuard (h : Core a) {grant : GrantID} {request : RenewRequest}
    (hget : a.actionRecords.get? ref = some action) (hp : action.receipt.outcome = .pending)
    (hca : action.call = some .guarding) (hacq : action.receipt.acquire = none)
    (hrenew : action.receipt.renew = some request) (hres : action.resource = some id)
    (hgrant : action.grant = some grant) (cancelled : Bool) :
    Within t a (a.renewGuard ref id grant request cancelled).state := by
  refine Within.andThen (.of_sweeps (sweeps_healthyLocked a _ _)) fun _ hok => ?_
  obtain ⟨hexp, hupkeep, hco, hadm, hphases, hac⟩ := guard_upkeep (t := t) h hget hok id
  dsimp only
  split
  · exact .of_sweeps hexp
  rename_i hgo
  refine Within.trans (.of_sweeps hupkeep) ?_
  have hac := hac hgo
  generalize Authority.expireGrantsLocked _ id _ = c at *
  split
  · rename_i o r g ho hr hg
    obtain ⟨g', hg', hplace, hholder⟩ := (hco.actions.booked hac).granted hgrant
    have heq : g' = g := Option.some.inj (hg'.symm.trans hg)
    rw [heq] at hplace hholder
    have hwhere : g.resource = id := Option.some.inj (hplace.symm.trans hres)
    have hclock : Within t c c.ticked := .of_sweeps (.single (.clock c))
    split_ifs with hended hlate hbu
    · exact .refl
    · exact hclock
    · exact hclock
    rw [not_or, not_not] at hended
    have hextended := extendGrant_action (a := c.ticked) hac grant g
      request
    have hprolong : ((c.ticked.extendGrant ref grant g
        request).finishLocked ref .renewed none).touchLocked o =
          c.ticked.prolong ref action o grant g request := by
      rw [finishLocked_eq_finishPending hextended hp]
      rfl
    rw [hprolong]
    exact hclock.trans ⟨Move.chain (.prolong hac hp hca hrenew hacq ho hr hg
      hwhere hholder hended.2 (Bool.eq_false_iff.mpr hbu) hadm.ticked),
      prolong_phase ref action o grant g request⟩
  · exact .refl

lemma within_workerGuard (h : Core a) (hget : a.actionRecords.get? ref = some action)
    (hp : action.receipt.outcome = .pending)
    (hph : a.phase? (.worker id) = some (ref, .guarding))
    (hacq : action.receipt.acquire = some request)
    (hres : action.resource = some id) (cancelled : Bool) :
    Within t a (a.workerGuard ref id request action.waitUntil cancelled).state := by
  refine Within.andThen (.of_sweeps (sweeps_healthyLocked a _ _)) fun _ hok => ?_
  obtain ⟨hexp, hupkeep, hco, hadm, hphases, hac⟩ := guard_upkeep (t := t) h hget hok id
  dsimp only
  split
  · exact .of_sweeps hexp
  rename_i hgo
  split
  · exact .of_sweeps hexp
  refine Within.trans (.of_sweeps hupkeep) ?_
  split
  · exact .of_sweeps (sweeps_finishLocked _ ref .timedOut none True.intro)
  split
  · rename_i o r ho hr
    split_ifs with hturn
    · exact within_grantLocked (hac hgo) hp
        ((hphases _).trans hph) hacq hres ho hr
        (by simpa using hturn.2.1) hturn.2.2 (.inr hturn.1) hadm
    · exact .refl
  · exact .refl

lemma phase?_call (hph : a.phase? (.call owner) = some (ref, phase)) :
    ref = owner ∧ ∃ action, a.actionRecords.get? ref = some action ∧
      action.call = some phase := by
  obtain ⟨place, hca, heq⟩ := Option.map_eq_some_iff.mp hph
  obtain ⟨action, hac, hca⟩ := Option.bind_eq_some_iff.mp hca
  obtain ⟨rfl, rfl⟩ := Prod.mk.inj heq
  exact ⟨rfl, action, hac, hca⟩

lemma phase?_worker (hph : a.phase? (.worker id) = some (ref, phase)) :
    ∃ r, a.resourceRecords.get? id = some r ∧ r.worker.attempt = some (ref, phase) :=
  Option.bind_eq_some_iff.mp hph

lemma setPhase_phase (hph : a.phase? job = some (ref, before)) (after : Phase) :
    (a.setPhase job ref after).phase? job = some (ref, after) := by
  cases job with
  | call owner =>
    obtain ⟨rfl, action, hac, -⟩ := phase?_call hph
    change (((Table.modify _ _ _).get? ref).bind _).map _ = _
    rw [Table.get?_modified hac]
    rfl
  | worker id =>
    obtain ⟨r, hr, -⟩ := phase?_worker hph
    change ((Table.modify _ _ _).get? id).bind _ = _
    rw [Table.get?_modified hr]
    rfl

/-- The callback of a call that is not queued, and of any worker. -/
lemma within_callback (h : Core a) (hph : a.phase? job = some (ref, .guarding))
    (hwait : ∀ action, a.actionRecords.get? ref = some action →
      job = .call ref → action.waitUntil = none) (cancelled : Bool) :
    Within t a (a.callback job ref cancelled).state := by
  unfold callback
  split
  · exact .refl
  rename_i action hget
  split
  · exact .refl
  rename_i hp
  have hp := not_not.mp hp
  split
  · rename_i owner request id hacq hres
    obtain ⟨rfl, found, hfd, hca⟩ := phase?_call hph
    cases hget.symm.trans hfd
    exact within_acquireGuard h hget hp hca (hwait action hget rfl)
      hacq hres cancelled
  · rename_i owner request id grant hacq hrenew hres hgrant
    obtain ⟨rfl, found, hfd, hca⟩ := phase?_call hph
    cases hget.symm.trans hfd
    exact within_renewGuard h hget hp hca hacq hrenew hres
      hgrant cancelled
  · rename_i id request hacq
    obtain ⟨r, hr, hattempt⟩ := phase?_worker hph
    obtain ⟨found, hfd, hplace, -⟩ := h.actions.attempted hr
      (show r.current = some ref by
        unfold ResourceRecord.current
        rw [hattempt]
        rfl)
    cases hget.symm.trans hfd
    exact within_workerGuard h hget hp hph hacq hplace a.closed
  · exact .refl

lemma chain_guard (h : Core a) (job : Job) (ran cancelled : Bool)
    (err : Option Fault) : Chain t a (a.guard job ran cancelled err) := by
  unfold Authority.guard
  split
  · rename_i ref hph
    split_ifs
    · have henter : Move t a (a.setPhase job ref .guarding) := .phase hph .enterGuard
      have hguarding := setPhase_phase hph .guarding
      have hcallback : Within t (a.setPhase job ref .guarding)
          ((a.setPhase job ref .guarding).callback job ref cancelled).state := by
        refine within_callback (h.chain henter.chain) hguarding ?_ cancelled
        rintro action hac rfl
        obtain ⟨-, old, hold, hca⟩ := phase?_call hph
        change (Table.modify _ _ _).get? ref = some action at hac
        rw [Table.get?_modify_self, hold] at hac
        cases hac
        exact (h.actions.booked hold).early hca True.intro
      have hopen : Phase.guarding ≠ .persisting ∧ Phase.guarding ≠ .persisted := by decide
      exact (henter.chain.trans hcallback.chain).tail
        (.phase ((hcallback.phase job).trans hguarding) (.abandon _ hopen))
    · have hopen : Phase.raised ≠ .persisting ∧ Phase.raised ≠ .persisted := by decide
      exact Move.chain (.phase hph (.abandon _ hopen))
  · exact .refl

end Guard

/-! ## Leaving, and the queue worker -/

section Leaving

variable {t : Terms} {a : Authority}

lemma chain_leave (job : Job) : Chain t a (a.leave job) := by
  unfold leave
  split
  · rename_i ref err hph
    have hunhold : Move t a (a.unhold job ref) := .unhold hph
    dsimp only
    split
    · exact hunhold.chain
    rename_i fault
    split_ifs
    · have hnote : Move t (a.unhold job ref) ((a.unhold job ref).modifyAction
          ref ({ · with failure := some fault })) :=
        .noteAction _ (fun _ => ⟨rfl, rfl, rfl, rfl, rfl, rfl⟩) (.inl fun _ => rfl)
      exact (hunhold.chain.tail hnote).trans
        (sweeps_finishLocked _ ref .rejected _ True.intro).chain
    · exact hunhold.chain
  · exact .refl

lemma move_worker (next : Worker) (hr : a.resourceRecords.get? id = some r)
    (hbefore : r.worker.attempt = none) (hafter : next.attempt = none) :
    Move t a (a.modifyResource id ({ · with worker := next })) := by
  refine .tidy _ fun found hfd => ?_
  cases hr.symm.trans hfd
  exact ⟨rfl, rfl, rfl, rfl, rfl, hafter.trans hbefore.symm⟩

lemma chain_work (h : Core a) (id : ResourceID) : Chain t a (a.work id) := by
  unfold work
  split
  · exact .refl
  rename_i r hr
  split
  · exact .refl
  rename_i hlooping
  have hlooping := not_not.mp hlooping
  split
  · exact Move.chain (move_worker .returning hr (by rw [hlooping]; rfl) rfl)
  have hgrants := sweeps_expireGrantsNow (t := t) h.grants id
  have hsw := hgrants.trans (sweeps_expireQueuedLocked
    (a.ticked.expireGrantsLocked id a.time) id a.time)
  dsimp only
  split
  · exact hsw.chain
  rename_i r' hr'
  obtain ⟨old, hold, hframe⟩ := hsw.swept.resource.exists hr'
  cases hr.symm.trans hold
  have hworker : r'.worker = .looping := by
    have hsm := congrArg ResourceRecord.worker hframe
    exact hsm.trans hlooping
  split
  · exact hsw.chain.tail (move_worker .returning hr' (by rw [hworker]; rfl) rfl)
  · split_ifs
    · exact hsw.chain.tail (.attempt hr' hworker ‹_›)
    · exact hsw.chain

lemma chain_stop (id : ResourceID) : Chain t a (a.stop id) := by
  unfold stop
  split
  · exact .refl
  rename_i r hr
  split_ifs with hreturning
  · exact Move.chain (move_worker .stopped hr (by rw [hreturning]; rfl) rfl)
  · exact .refl

end Leaving

/-! ## Queries, release and cancellation -/

section Answers

variable {t : Terms} {a : Authority}

lemma chain_reportAction (h : Core a) (o : OwnerRecord) (ref : ActionRef)
    (action : ActionRecord) : Chain t a (a.reportAction o ref action).state := by
  unfold reportAction
  have hsw : Sweeps t a (if action.receipt.outcome = .pending ∧ action.waitUntil.isSome then
        if action.waitUntil.any (a.time < ·) then a.ticked
        else a.ticked.finishLocked ref .timedOut none
      else a) := by
    split_ifs
    · exact .single (.clock a)
    · exact .trans (.single (.clock a)) (sweeps_finishLocked a.ticked ref .timedOut none True.intro)
    · exact .refl
  have htouched := hsw.chain.tail (.touch _ o.ref.session)
  dsimp only
  split
  · exact htouched
  · exact htouched.trans (sweeps_actionResultLocked (h.chain htouched).grants o _).chain

lemma chain_queryAction (h : Core a) (ref : OwnerRef) (request : RequestID) :
    Chain t a (a.queryAction ref request).state := by
  refine chain_owned false false fun b o hsw _ _ _ _ => ?_
  split
  · exact .refl
  split
  · exact .refl
  · split_ifs
    · exact .refl
    · exact chain_reportAction (h.chain hsw.chain) o _ _

lemma chain_queryGrant (h : Core a) (ref : OwnerRef) (grant : GrantRef) :
    Chain t a (a.queryGrant ref grant).state := by
  refine chain_owned false false fun b o hsw _ _ _ _ => ?_
  have hco := h.chain hsw.chain
  have hfin := (sweeps_grantLockedForOwner (t := t) hco.grants o grant).chain
  refine chain_andThen hfin fun g _ => ?_
  split
  · exact .refl
  have htouch := Move.chain (.touch (t := t)
    (b.grantLockedForOwner o grant).state o.ref.session)
  have hstatus := htouch.trans (sweeps_grantStatusLocked
    ((hco.chain hfin).chain htouch).grants grant.id).chain
  dsimp only
  split <;> exact hstatus

lemma chain_recordRelease (hget : a.grantRecords.get? id = some g)
    (hidl : a.busy g.resource = false) : Chain t a (a.recordRelease id g) := by
  unfold recordRelease
  split_ifs
  · exact .refl
  have hend : Sweeps t a (a.endGrantLocked id .released) := by
    refine sweeps_endGrantLocked a id (by decide) fun found hfd => ?_
    cases hget.symm.trans hfd
    exact .inl hidl
  exact hend.chain.tail (.noteRelease _ id fun g => some g.state)

lemma chain_release (h : Core a) (ref : OwnerRef) (grant : GrantRef) :
    Chain t a (a.release ref grant).state := by
  refine chain_owned false false fun b o hsw _ _ _ _ => ?_
  have hco := h.chain hsw.chain
  have hfin := (sweeps_grantLockedForOwner (t := t) hco.grants o grant).chain
  refine chain_andThen hfin fun g hg => ?_
  split
  · exact .refl
  rename_i hidl
  have hre := (chain_recordRelease (t := t) (grantLockedForOwner_eq_ok hco.grants hg).1
    (Bool.eq_false_iff.mpr hidl)).tail (.touch _ o.ref.session)
  have hstatus := hre.trans (sweeps_grantStatusLocked
    ((hco.chain hfin).chain hre).grants grant.id).chain
  dsimp only
  split
  · exact hstatus.tail (.clock _)
  · exact hstatus

lemma Swept.grantBusy (h : Swept a a') (grant : Option GrantID) :
    a'.grantBusy grant = a.grantBusy grant := by
  cases grant with
  | none => rfl
  | some id =>
    have hplaces := (h.grant.coarsen GrantRecord.resource) id
    have hany : ∀ c : Authority, c.grantBusy (some id) =
        ((c.grantRecords.get? id).map GrantRecord.resource).any c.busy := by
      intro c
      unfold Authority.grantBusy
      rw [Option.bind_some, Option.any_map]
    have hbu : a'.busy = a.busy := funext h.busy
    rw [hany, hany, hbu]
    exact congrArg (Option.any a.busy) hplaces

lemma sweeps_releaseCancelled (h : Core a) (hidl : a.grantBusy grant = false) :
    Sweeps t a (a.releaseCancelled grant).1 := by
  unfold releaseCancelled
  split
  · exact .refl
  rename_i id
  split
  · exact .refl
  rename_i g hg
  have hexp := sweeps_expireGrantsNow (t := t) h.grants g.resource
  dsimp only
  split_ifs
  · refine hexp.trans (sweeps_endGrantLocked _ id (by decide) ?_)
    intro g' hg'
    obtain ⟨old, hold, hframe⟩ := hexp.swept.grant.exists hg'
    cases hg.symm.trans hold
    have hplace := GrantRecord.resource_eq hframe
    unfold grantBusy at hidl
    rw [Option.bind_some, hg] at hidl
    rw [hexp.swept.busy, hplace]
    exact .inl hidl
  · exact hexp

lemma releaseCancelled_ended (h : Core a) (hsome : (a.grantRecords.get? id).isSome) :
    ∃ g, (a.releaseCancelled (some id)).1.grantRecords.get? id = some g ∧ g.state ≠ .active := by
  obtain ⟨g, hg⟩ := Option.isSome_iff_exists.mp hsome
  have hexp := sweeps_expireGrantsNow (t := anyTerms) h.grants g.resource
  obtain ⟨g', hg', -⟩ := hexp.swept.grant.symm.exists hg
  unfold releaseCancelled
  simp only [hg]
  split_ifs with hactive
  · have hend : Sweeps anyTerms (a.ticked.expireGrantsLocked g.resource a.time)
        ((a.ticked.expireGrantsLocked g.resource a.time).endGrantLocked id .released) :=
      sweeps_endGrantLocked _ id (by decide) fun _ _ => .inr True.intro
    obtain ⟨last, hlast, -⟩ := hend.swept.grant.symm.exists hg'
    exact ⟨last, hlast, endGrantLocked_ended (by decide) hlast⟩
  · rw [hg'] at hactive
    exact ⟨g', hg', fun hst => hactive (by simp [hst])⟩

lemma chain_recordCancel (h : Core a) (hget : a.actionRecords.get? ref = some action)
    (hidl : a.grantBusy action.grant = false) : Chain t a (a.recordCancel ref action) := by
  unfold recordCancel
  split_ifs
  · exact .refl
  have hfinish : Sweeps t a (a.finishLocked ref .cancelled none) :=
    sweeps_finishLocked a ref .cancelled none True.intro
  set b := a.finishLocked ref .cancelled none with hb
  have hidle' : b.grantBusy action.grant = false :=
    (hfinish.swept.grantBusy action.grant).trans hidl
  have hco := h.chain hfinish.chain
  have hrelease := sweeps_releaseCancelled (t := t) hco hidle'
  have hrevoked : (b.releaseCancelled action.grant).1.Revoked ref := by
    obtain ⟨action', hget', hframe⟩ := hfinish.swept.action.symm.exists hget
    have hgrant : action.grant = action'.grant := by
      have hsm := congrArg ActionRecord.grant hframe
      exact hsm
    have hse := finishLocked_settled none (by decide) hget'
    refine ⟨⟨action', hrelease.swept.settled hget' hse, hse⟩, ?_⟩
    intro id hid
    rw [hrelease.swept.issued] at hid
    obtain ⟨found, hfd, -, hh⟩ := hco.issued.settled hid
    cases hget'.symm.trans hfd
    obtain ⟨g, hg, -⟩ := (hco.actions.booked hget').granted hh
    rw [hgrant, hh]
    exact releaseCancelled_ended hco (by rw [hg]; rfl)
  have hnote : Move t (b.releaseCancelled action.grant).1
      ((b.releaseCancelled action.grant).1.modifyAction ref fun found =>
        { found with cancel := some ⟨found.receipt.outcome,
          (b.releaseCancelled action.grant).2⟩ }) :=
    .noteAction _ (fun _ => ⟨rfl, rfl, rfl, rfl, rfl, rfl⟩) (.inr hrevoked)
  exact (hfinish.trans hrelease).chain.tail hnote

lemma chain_cancelAction (h : Core a) (o : OwnerRecord)
    (hget : a.actionRecords.get? ref = some action) :
    Chain t a (a.cancelAction o ref action).state := by
  unfold cancelAction
  split_ifs with hkind hbu
  · exact .refl
  · exact .refl
  have hre := (chain_recordCancel (t := t) h hget
    (Bool.eq_false_iff.mpr hbu)).tail (.touch _ o.ref.session)
  dsimp only
  split
  · exact hre
  · exact hre.tail (.clock _)

lemma chain_cancel (h : Core a) (ref : OwnerRef) (request : RequestID) :
    Chain t a (a.cancel ref request).state := by
  refine chain_owned false false fun b o hsw how _ _ _ => ?_
  have hco := h.chain hsw.chain
  split
  · exact .refl
  split
  · exact chain_cancelAction hco o ‹_›
  rename_i hnew
  split_ifs with hro
  · exact .refl
  have henroll : Move t b (b.enroll ⟨ref.owner, request⟩ (tombstone request)) := by
    refine move_enroll _ true how hnew hro ?_ (.inr rfl)
    exact ⟨fun _ hasked => (by cases hasked), fun _ hasked => (by cases hasked)⟩
  exact henroll.chain.trans (chain_cancelAction
    (hco.chain henroll.chain) o (Table.get?_set_self _ _ _))

end Answers

/-! ## Publication -/

section Publication

variable {t : Terms} {a : Authority}

/-- What the loop over the targets knows of the resources it has found. -/
structure Found (a : Authority) (keys : List BackendKey)
    (resources : List ResourceID) : Prop where
  nodup : resources.Nodup
  idle : ∀ id ∈ resources, ∃ r, a.resourceRecords.get? id = some r ∧ r.busy = false ∧ r.key ∈ keys

lemma Found.swept (hfd : Found a keys resources) (hswept : Swept a b) :
    Found b keys resources := by
  refine ⟨hfd.nodup, fun id hid => ?_⟩
  obtain ⟨r, hr, hidl, hkey⟩ := hfd.idle id hid
  obtain ⟨r', hr', hframe⟩ := hswept.resource.symm.exists hr
  have hkey' : r.key = r'.key := by
    have hsm := congrArg ResourceRecord.key hframe
    exact hsm
  have hbu : r.busy = r'.busy := by
    have hsm := congrArg ResourceRecord.busy hframe
    exact hsm
  exact ⟨r', hr', hbu ▸ hidl, hkey' ▸ hkey⟩

lemma Found.cons (h : Core a) (hfd : Found a keys resources)
    (hnew : key ∉ keys) (hkey : a.keys.get? key = some id) (hidl : a.busy id = false) :
    Found a (key :: keys) (resources ++ [id]) := by
  obtain ⟨r, hr, hrkey⟩ := h.tokens.keyed hkey
  have hbu : r.busy = false := by
    unfold busy at hidl
    rwa [hr] at hidl
  refine ⟨List.nodup_append.mpr ⟨hfd.nodup, List.nodup_singleton id, ?_⟩, ?_⟩
  · rintro other hother last hlast rfl
    rw [List.mem_singleton] at hlast
    rw [hlast] at hother
    obtain ⟨r', hr', -, hm⟩ := hfd.idle id hother
    cases hr.symm.trans hr'
    rw [hrkey] at hm
    exact hnew hm
  · intro other hother
    rw [List.mem_append, List.mem_singleton] at hother
    rcases hother with hold | rfl
    · obtain ⟨r', hr', hidle', hm⟩ := hfd.idle other hold
      exact ⟨r', hr', hidle', List.mem_cons_of_mem _ hm⟩
    · exact ⟨r, hr, hbu, hrkey ▸ List.mem_cons_self⟩

lemma Found.key (hfd : Found a keys resources) (key : BackendKey) :
    Found a (key :: keys) resources := by
  refine ⟨hfd.nodup, fun id hid => ?_⟩
  obtain ⟨r, hr, hidl, hm⟩ := hfd.idle id hid
  exact ⟨r, hr, hidl, List.mem_cons_of_mem _ hm⟩

lemma sweeps_admitTargets (h : Core a) (targets : List BackendKey) (keys : List BackendKey)
    (resources : List ResourceID) : Sweeps t a (admitTargets keys resources targets a).state := by
  induction targets generalizing a keys resources with
  | nil => exact .refl
  | cons key rest ih =>
    unfold admitTargets
    split
    · exact .refl
    split
    · exact ih h keys resources
    split
    · exact ih h (key :: keys) resources
    rename_i id hid
    split
    · exact .refl
    · have hexp := sweeps_expireGrantsNow (t := t) h.grants id
      exact hexp.trans (ih (h.chain hexp.chain) _ _)

lemma admitTargets_found (h : Core a) (hfd : Found a keys resources)
    (hok : (admitTargets keys resources targets a).result = .ok found) :
    Found (admitTargets keys resources targets a).state found.1 found.2 := by
  induction targets generalizing a keys resources with
  | nil =>
    cases hok
    exact hfd
  | cons key rest ih =>
    unfold admitTargets at hok ⊢
    split at hok
    · cases hok
    rename_i hkey
    rw [if_neg hkey]
    split at hok
    · rename_i hseen
      rw [if_pos hseen]
      exact ih h hfd hok
    rename_i hnew
    rw [if_neg hnew]
    split at hok
    · exact ih h (hfd.key key) hok
    rename_i id hid
    split at hok
    · cases hok
    rename_i hbu
    rw [if_neg hbu]
    have hexp := sweeps_expireGrantsNow (t := anyTerms) h.grants id
    exact ih (h.chain hexp.chain) ((hfd.cons h hnew hid
      (Bool.eq_false_iff.mpr hbu)).swept hexp.swept) hok

lemma sweeps_checkProofs (h : Core a)
    (o : OwnerRecord) (keys : List BackendKey) (checked : Table ResourceID GrantID) :
    Sweeps t a (checkProofs o keys checked proofs a).state := by
  induction proofs generalizing a checked with
  | nil => exact .refl
  | cons proof rest ih =>
    unfold checkProofs Outcome.andThen
    have hfin := sweeps_grantLockedForOwner (t := t) h.grants o proof
    split
    · exact hfin
    have hclock := hfin.trans (.single (.clock _))
    dsimp only
    split
    · exact hfin
    split
    · exact hfin
    split
    · exact hclock
    · split
      · exact hclock
      · exact hclock.trans (ih (h.chain hclock.chain) _)

lemma sweeps_scopeProofs (h : Core a) (owner : Option OwnerRecord) (keys : List BackendKey)
    (grants : List GrantRef) : Sweeps t a (a.scopeProofs owner keys grants).state := by
  unfold scopeProofs
  split
  · exact .refl
  · exact sweeps_checkProofs h _ keys .empty

lemma chain_publish (h : Core a) (publication : Publication) :
    Chain t a (a.publish publication).state := by
  unfold publish
  split
  · exact .refl
  split
  · exact .refl
  refine chain_andThen .refl fun _ _ => ?_
  have hhealthy := sweeps_healthyLocked (t := t) a false true
  refine chain_andThen hhealthy.chain fun _ hok => ?_
  set b := (a.healthyLocked false true).state.expireSessionsNow with hb
  have hexp := hhealthy.trans (sweeps_expireSessionsNow (t := t)
    (a.healthyLocked false true).state)
  refine chain_andThen (sweeps_expireSessionsNow _).chain fun owner _ => ?_
  have hco : Core b := h.chain hexp.chain
  have htargets := sweeps_admitTargets (t := t) hco publication.targets
    [] []
  refine chain_andThen htargets.chain fun found hfd => ?_
  have hcore' := hco.chain htargets.chain
  have hidl := admitTargets_found hco
    (⟨List.nodup_nil, fun _ hid => absurd hid List.not_mem_nil⟩ : Found b [] []) hfd
  have hproofs := sweeps_scopeProofs (t := t) hcore' owner found.1
    publication.scope.grants
  refine chain_andThen hproofs.chain fun proofs _ => ?_
  split_ifs
  · exact .refl
  · exact Move.chain (.clock _)
  have hready := hidl.swept hproofs.swept
  have hadm := (healthyLocked_admitted hok).swept
    (((sweeps_expireSessionsNow (t := t) _).trans htargets).trans
      hproofs).swept
  exact (Move.chain (.clock _)).tail (.launch hready.nodup hready.idle hadm.ticked)

lemma chain_retireTarget (h : Core a) (hgo : ∀ id, a.keys.get? key = some id → t.gone id) :
    Chain t a (a.retireTarget key) ∧ (a.retireTarget key).keys = a.keys ∧
      (a.retireTarget key).flights = a.flights := by
  unfold retireTarget
  split
  · exact ⟨.refl, rfl, rfl⟩
  rename_i id hid
  set b := a.ticked.modifyResource id
    ({ · with retired := true, referenceUntil := a.time }) with hb
  have htidy : Chain t a b := (Move.chain (.clock a)).tail
    (.tidy _ fun _ _ => ⟨rfl, rfl, rfl, rfl, rfl, rfl⟩)
  set c := (b.liveGrants id).foldl
    (fun a grant => a.endGrantLocked grant .targetGone) b with hc
  have hgrants : Sweeps t b c := by
    refine sweeps_foldl_grants (fun hfree =>
      sweeps_endGrantLocked _ _ (by decide) hfree) fun grant hgrant g hg => ?_
    rw [(h.chain htidy).grants.place hgrant hg]
    exact .inr (hgo id hid)
  have hqueue := sweeps_foldl (t := t)
    (fun a ref => sweeps_finishLocked a ref .rejected (some .staleResource) True.intro)
  have hsw := hgrants.trans (hqueue (c.queue id) c)
  exact ⟨htidy.trans hsw.chain, hsw.swept.keys, hsw.swept.flights⟩

lemma chain_retireTargets (h : Core a) {retired : List BackendKey}
    (hgo : ∀ key ∈ retired, ∀ id, a.keys.get? key = some id → t.gone id) :
    Chain t a (retired.foldl retireTarget a) ∧
      (retired.foldl retireTarget a).flights = a.flights := by
  induction retired generalizing a with
  | nil => exact ⟨.refl, rfl⟩
  | cons key rest ih =>
    obtain ⟨hfi, hkeys, hflights⟩ := chain_retireTarget h
      (hgo key List.mem_cons_self)
    obtain ⟨hrest, hsm⟩ := ih (h.chain hfi) (by
      intro other hother id hid
      rw [hkeys] at hid
      exact hgo other (List.mem_cons_of_mem _ hother) id hid)
    exact ⟨hfi.trans hrest, hsm.trans hflights⟩

lemma declaredOutcome_retired (f : Flight) (outcome : PublicationOutcome) :
    (declaredOutcome f outcome).retired = outcome.retired := by
  unfold declaredOutcome
  split_ifs <;> rfl

lemma chain_completePublication (h : Core a) (flight : ℕ) (outcome : PublicationOutcome)
    (hgo : ∀ id, a.Retires flight outcome id → t.gone id) :
    Chain t a (a.completePublication flight outcome) := by
  unfold completePublication
  split
  · exact .refl
  rename_i f hf
  dsimp only
  split_ifs with hknown
  · have hretired : ∀ key ∈ (declaredOutcome f outcome).retired, ∀ id,
        a.keys.get? key = some id → t.gone id := by
      intro key hkey id hid
      rw [declaredOutcome_retired] at hkey
      exact hgo id ⟨f, hf, hknown, key, hkey, hid⟩
    obtain ⟨hchain, hflights⟩ := chain_retireTargets h hretired
    exact hchain.tail (.land (by rw [hflights]; exact hf))
  · exact (Move.chain (.flag a _ a.closed)).tail (.land hf)

end Publication

/-! ## Maintenance and closing -/

section Maintenance

variable {t : Terms} {a : Authority}

lemma chain_tend (h : Core a) (now : Time) (id : ResourceID) : Chain t a (tend now a id) := by
  have hsw := (sweeps_expireGrantsLocked (t := t) h.grants id now).trans
    (sweeps_expireQueuedLocked (a.expireGrantsLocked id now) id now)
  have hstart := hsw.chain.trans (within_startWorkerLocked id).chain
  unfold tend
  dsimp only
  split
  · exact hstart
  · split_ifs
    · exact hstart.tail (.tidy _ fun _ _ => ⟨rfl, rfl, rfl, rfl, rfl, rfl⟩)
    · exact hstart

lemma chain_tendAll (h : Core a) (now : Time) (ids : List ResourceID) :
    Chain t a (ids.foldl (tend now) a) := by
  induction ids generalizing a with
  | nil => exact .refl
  | cons id rest ih =>
    have hfi := chain_tend (t := t) h now id
    exact hfi.trans (ih (h.chain hfi))

lemma chain_maintain (h : Core a) : Chain t a a.maintain := by
  unfold maintain
  split_ifs
  · exact .refl
  · have hsw : Sweeps t a (a.ticked.expireSessionsLocked a.time) :=
      .trans (.single (.clock a)) (sweeps_expireSessionsLocked a.ticked a.time)
    exact hsw.chain.trans (chain_tendAll (h.chain hsw.chain) _ _)

lemma chain_forgotten (id : ResourceID) (err : Option Fault) :
    Chain t a (a.forgotten id err) := by
  unfold forgotten
  split
  · exact .refl
  split
  · exact Move.chain (.flag a _ a.closed)
  refine Move.chain (.unlist ?_ ?_)
  · intro key found hfd
    exact (Table.erase_cases hfd).2
  · exact List.length_erase_le

lemma chain_drain : Chain t a a.drain := by
  unfold drain
  split_ifs
  · exact Move.chain (.unlist (fun _ _ hfd => by cases hfd)
      (Nat.zero_le _))
  · exact .refl

end Maintenance

lemma exec_chain (h : Core a) (step : Step) : Chain (step.terms a) a (exec a step) := by
  cases step with
  | openSession ticket => exact chain_openSession ticket
  | createOwner id request => exact chain_createOwner id request
  | retireOwner ref => exact chain_retireOwner ref
  | closeSession id => exact chain_closeSession id
  | resolve ref => exact chain_resolve ref
  | discover ref key cancelled => exact chain_discover ref key cancelled
  | acquire request => exact chain_acquire h request id
  | renew request => exact chain_renew h request
  | raise job cancelled => exact chain_raise job cancelled
  | persist job stored err => exact chain_persist job stored err
  | advance job => exact chain_advance job
  | guard job ran cancelled err => exact chain_guard h job ran cancelled err
  | leave job => exact chain_leave job
  | work id => exact chain_work h id
  | stop id => exact chain_stop id
  | queryAction ref request => exact chain_queryAction h ref request
  | queryGrant ref grant => exact chain_queryGrant h ref grant
  | release ref grant => exact chain_release h ref grant
  | cancel ref request => exact chain_cancel h ref request
  | publish publication => exact chain_publish h publication
  | complete flight outcome => exact chain_completePublication h flight outcome fun _ hgo => hgo
  | fence err => exact Move.chain (.flag a _ a.closed)
  | maintain => exact chain_maintain h
  | forgotten id err => exact chain_forgotten id err
  | close => exact Move.chain (.flag a a.fenced true)
  | drain => exact chain_drain

end RemoteFs.Locking
