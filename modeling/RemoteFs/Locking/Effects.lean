import RemoteFs.Locking.Exclusion

/-!
# Clock, phases and leases

What a move can do to the readings of the clock, to the places of the calls, to
the lease an action asks for and to the deadline of a grant.  The invariants
about time are read off from these.
-/

namespace RemoteFs.Locking

open Authority

variable {ref : ActionRef} {action : ActionRecord}

variable {t : Terms} {a a' : Authority}

/-- The configuration never changes, and the clock is only read. -/
structure Authority.Onward (a a' : Authority) : Prop where
  options : a'.options = a.options
  now : a'.now = a.now
  recoveryUntil : a'.recoveryUntil = a.recoveryUntil
  reads : a.reads ≤ a'.reads

lemma Move.onward (hmove : Move t a a') : a.Onward a' := by
  cases hmove with
  | clock | touch => exact ⟨rfl, rfl, rfl, Nat.le_succ _⟩
  | issue | prolong => exact ⟨rfl, rfl, rfl, Nat.le_add_right _ 2⟩
  | _ => exact ⟨rfl, rfl, rfl, le_refl _⟩

lemma Authority.Admitted.onward (honward : a.Onward a') (h : a.Admitted) : a'.Admitted := by
  obtain ⟨k, hk, hpast⟩ := h
  refine ⟨k, lt_of_lt_of_le hk honward.reads, ?_⟩
  rwa [honward.now, honward.recoveryUntil]

/-! ## Phases -/

lemma Actions.known_of_phase (h : Actions a) {job : Job} {phase : Phase}
    (hph : a.phase? job = some (ref, phase)) :
    ∃ action, a.actionRecords.get? ref = some action := by
  cases job with
  | call owner =>
    obtain ⟨-, action, hget, -⟩ := phase?_call hph
    exact ⟨action, hget⟩
  | worker id =>
    obtain ⟨r, hr, hattempt⟩ := phase?_worker hph
    obtain ⟨action, hget, -⟩ := h.attempted hr
      (show r.current = some ref by
        unfold ResourceRecord.current
        rw [hattempt]
        rfl)
    exact ⟨action, hget⟩

/-- The lease that a call in progress asks for never changes. -/
lemma Actions.ttl_of_phase (h : Actions a) (hmove : Move t a a') {job : Job} {phase : Phase}
    (hph : a.phase? job = some (ref, phase)) : a'.ttl ref = a.ttl ref := by
  obtain ⟨action, hget⟩ := h.known_of_phase hph
  obtain ⟨action', hget', hnext⟩ := hmove.continues hget
  obtain ⟨hacquire, hrenew⟩ := Prod.mk.inj hnext.request
  unfold ttl
  rw [hget, hget']
  dsimp only
  rw [hacquire, hrenew]

lemma phase?_of_call (hget : a.actionRecords.get? ref = some action)
    (hcall : action.call = some phase) : a.phase? (.call ref) = some (ref, phase) := by
  change ((a.actionRecords.get? ref).bind ActionRecord.call).map _ = _
  rw [hget, Option.bind_some, hcall]
  rfl

lemma phase?_of_attempt {id : ResourceID} {r : ResourceRecord} {place : ActionRef × Phase}
    (hget : a.resourceRecords.get? id = some r) (hattempt : r.worker.attempt = some place) :
    a.phase? (.worker id) = some place := by
  change (a.resourceRecords.get? id).bind _ = _
  rwa [hget]

lemma setPhase_phase_ne (hph : a.phase? job = some (ref, before)) (hne : other ≠ job)
    (after : Phase) : (a.setPhase job ref after).phase? other = a.phase? other := by
  cases job with
  | call owner =>
    obtain ⟨rfl, -⟩ := phase?_call hph
    cases other with
    | call ref' =>
      have hne' : ref' ≠ ref := fun heq => hne (by rw [heq])
      change (((Table.modify _ _ _).get? ref').bind _).map _ = _
      rw [Table.get?_modify_ne hne']
      rfl
    | worker id => rfl
  | worker id =>
    cases other with
    | call ref' => rfl
    | worker id' =>
      have hne' : id' ≠ id := fun heq => hne (by rw [heq])
      change ((Table.modify _ _ _).get? id').bind _ = _
      rw [Table.get?_modify_ne hne']
      rfl

/-- No call has advanced, though one may have begun or left. -/
structure Authority.Stands (a a' : Authority) : Prop where
  raising : a'.raising = a.raising
  watermark : a'.watermark = a.watermark
  durable : a'.durable = a.durable
  phase : ∀ {job ref phase}, a'.phase? job = some (ref, phase) →
    phase ≠ .raising → a.phase? job = some (ref, phase)

def Authority.AdvancesTo (a a' : Authority) : Prop :=
  ∃ job ref before after raising watermark durable,
    a.phase? job = some (ref, before) ∧
      Advances a job ref before after raising watermark durable ∧
        a' = { a.setPhase job ref after with raising, watermark, durable }

lemma Authority.Stands.of_agree (hraising : a'.raising = a.raising)
    (hwatermark : a'.watermark = a.watermark) (hdurable : a'.durable = a.durable)
    (hactions : Table.Agree ActionRecord.call a.actionRecords a'.actionRecords)
    (hres : Table.Agree (fun r => r.worker.attempt) a.resourceRecords
      a'.resourceRecords) : a.Stands a' := by
  refine ⟨hraising, hwatermark, hdurable, ?_⟩
  intro job ref phase hph _
  rwa [← phase?_of_agree hactions hres job]

lemma Authority.Stands.hold (ref₀ : ActionRef) (place : ResourceID) (grant : Option GrantID)
    (started : Time) : a.Stands (a.hold ref₀ place grant started) := by
  refine ⟨rfl, rfl, rfl, ?_⟩
  intro job ref phase hph hlate
  cases job with
  | call owner =>
    obtain ⟨rfl, action, hget, hcall⟩ := phase?_call hph
    obtain ⟨old, hold, rfl⟩ := Table.of_get?_modify hget
    split_ifs at hcall
    · cases hcall
      exact absurd rfl hlate
    · exact phase?_of_call hold hcall
  | worker id =>
    have hagree : Table.Agree (fun r => r.worker.attempt) a.resourceRecords
        (a.hold ref₀ place grant started).resourceRecords :=
      .edit rfl
    exact (phase?_worker_congr hagree id).symm.trans hph

lemma Authority.Stands.unhold (job₀ : Job) (ref₀ : ActionRef) :
    a.Stands (a.unhold job₀ ref₀) := by
  refine ⟨rfl, rfl, rfl, ?_⟩
  intro job ref phase hph hlate
  cases job₀ with
  | call owner =>
    cases job with
    | call ref' =>
      obtain ⟨rfl, action, hget, hcall⟩ := phase?_call hph
      obtain ⟨old, hold, rfl⟩ := Table.of_get?_modify hget
      split_ifs at hcall
      exact phase?_of_call hold hcall
    | worker id =>
      have hagree : Table.Agree (fun r => r.worker.attempt)
          a.resourceRecords (a.unhold (.call owner) ref₀).resourceRecords :=
        .edit rfl
      exact (phase?_worker_congr hagree id).symm.trans hph
  | worker place =>
    cases job with
    | call ref' =>
      have hagree : Table.Agree ActionRecord.call a.actionRecords
          (a.unhold (.worker place) ref₀).actionRecords :=
        .edit rfl
      exact (phase?_call_congr hagree ref').symm.trans hph
    | worker id =>
      obtain ⟨r, hr, hattempt⟩ := phase?_worker hph
      obtain ⟨old, hold, rfl⟩ := Table.of_get?_modify hr
      split_ifs at hattempt
      · cases hattempt
      · exact phase?_of_attempt hold hattempt

lemma Authority.Stands.attempt (place : ResourceID) (current : ActionRef) :
    a.Stands (a.attempt place current) := by
  refine ⟨rfl, rfl, rfl, ?_⟩
  intro job ref phase hph hlate
  cases job with
  | call ref' =>
    have hagree : Table.Agree ActionRecord.call a.actionRecords
        (a.attempt place current).actionRecords :=
      .edit rfl
    exact (phase?_call_congr hagree ref').symm.trans hph
  | worker id =>
    obtain ⟨r', hr', hattempt⟩ := phase?_worker hph
    obtain ⟨old, hold, rfl⟩ := Table.of_get?_modify hr'
    split_ifs at hattempt
    · cases hattempt
      exact absurd rfl hlate
    · exact phase?_of_attempt hold hattempt

lemma Authority.Stands.adopt (key : BackendKey) : a.Stands (a.adopt key) := by
  refine ⟨rfl, rfl, rfl, ?_⟩
  intro job ref phase hph hlate
  cases job with
  | call ref' => exact hph
  | worker id =>
    change ((Table.set _ _ _).get? id).bind _ = _ at hph
    rw [Table.get?_set] at hph
    split_ifs at hph
    · cases hph
    · exact hph

lemma Authority.Stands.enroll (ref₀ : ActionRef) (receipt : ActionReceipt) (tombstone : Bool) :
    a.Stands (a.enroll ref₀ (.enrolled receipt tombstone)) := by
  refine ⟨rfl, rfl, rfl, ?_⟩
  intro job ref phase hph hlate
  cases job with
  | call ref' =>
    change (((Table.set _ _ _).get? ref').bind _).map _ = _ at hph
    rw [Table.get?_set] at hph
    split_ifs at hph
    · cases hph
    · exact hph
  | worker id => exact hph

lemma Move.stands (hmove : Move t a a') : a.Stands a' ∨ a.AdvancesTo a' := by
  cases hmove with
  | endGrant => exact .inl (.of_agree rfl rfl rfl .refl (.edit rfl))
  | finish => exact .inl (.of_agree rfl rfl rfl (.edit rfl) (finishPending_resources _ _ rfl))
  | adopt => exact .inl (.adopt _)
  | tidy change hlike =>
    exact .inl (.of_agree rfl rfl rfl .refl (.modify fun r hr => (hlike r hr).attempt))
  | enroll receipt tombstone => exact .inl (.enroll _ receipt tombstone)
  | hold grant started => exact .inl (.hold _ _ grant started)
  | phase hph hnext => exact .inr ⟨_, _, _, _, _, _, _, hph, hnext, rfl⟩
  | enqueue => exact .inl (.of_agree rfl rfl rfl (.edit rfl) (.edit rfl))
  | issue =>
    refine .inl ⟨rfl, rfl, rfl, fun hph _ => ?_⟩
    rwa [← issue_phase]
  | prolong =>
    refine .inl ⟨rfl, rfl, rfl, fun hph _ => ?_⟩
    rwa [← prolong_phase]
  | unhold => exact .inl (.unhold _ _)
  | attempt => exact .inl (.attempt _ _)
  | noteAction change hlike =>
    exact .inl (.of_agree rfl rfl rfl (.modify fun found _ => (hlike found).call) .refl)
  | launch | land => exact .inl (.of_agree rfl rfl rfl .refl (agree_setBusy rfl))
  | _ => exact .inl ⟨rfl, rfl, rfl, fun hph _ => hph⟩

/-! ## Leases -/

/-- The lease of an active grant: as it was, new, or extended. -/
inductive Authority.Lease (a a' : Authority) (id : GrantID) (g' : GrantRecord) : Prop
  | same {g : GrantRecord} (hget : a.grantRecords.get? id = some g)
      (hat : g.state = .active) (hdl : g'.deadline = g.deadline)
      (hholder : g'.owner = g.owner)
  | set {job : Job} {ref : ActionRef} {o : OwnerRecord}
      (hph : a.phase? job = some (ref, .guarding))
      (howner : a.owners.get? ref.owner = some o)
      (hholder : g'.owner = ref.owner)
      (hdl : g'.deadline = a.time + a.ttl ref ∨
        ∃ g, a.grantRecords.get? id = some g ∧ g.state = .active ∧ g.owner = ref.owner ∧
            g'.deadline = max g.deadline (a.time + a.ttl ref))
      (hreads : a'.reads = a.reads + 2)
      (hsessions : a'.sessions = a.sessions.modify o.ref.session
        (SessionRecord.extend · (a.now (a.reads + 1) + a.options.sessionIdle)))

lemma ttl_of_acquire (hget : a.actionRecords.get? ref = some action)
    (hacquire : action.receipt.acquire = some request) : a.ttl ref = request.ttl := by
  unfold ttl
  rw [hget]
  dsimp only
  rw [hacquire]

lemma ttl_of_renew (hget : a.actionRecords.get? ref = some action)
    (hacquire : action.receipt.acquire = none) (hrenew : action.receipt.renew = some request) :
    a.ttl ref = request.ttl := by
  unfold ttl
  rw [hget]
  dsimp only
  rw [hacquire, hrenew]

lemma Move.lease (hmove : Move t a a') {id : GrantID} {g' : GrantRecord}
    (hget' : a'.grantRecords.get? id = some g') (hat : g'.state = .active) :
    a.Lease a' id g' := by
  cases hmove with
  | @endGrant ended g state hget hactive₀ hstate =>
    obtain ⟨g, hg, rfl⟩ := Table.of_get?_modify hget'
    split_ifs at hat ⊢ with heq
    · exact absurd hat hstate
    · exact .same hg hat rfl rfl
  | @issue ref action o place r request job hget hpending hph hacquire
      hres howner =>
      rcases Table.set_cases hget' with ⟨-, rfl⟩ | ⟨-, hget'⟩
      · refine .set hph howner rfl (.inl ?_) rfl rfl
        rw [ttl_of_acquire hget hacquire]
        rfl
      · exact .same hget' hat rfl rfl
  | @prolong ref action o place r grant g request hget hpending hcall hrenew
      hacquire howner hrecord hgrant hplace hholder hactive₀ =>
      obtain ⟨old, hold, rfl⟩ := Table.of_get?_modify hget'
      split_ifs at hat ⊢ with heq
      · rw [heq, hgrant] at hold
        cases hold
        refine .set (phase?_of_call hget hcall) howner hholder
          (.inr ⟨g, heq ▸ hgrant, hactive₀, hholder, ?_⟩) rfl rfl
        rw [ttl_of_renew hget hacquire hrenew]
      · exact .same hold hat rfl rfl
  | noteRelease grant change =>
    obtain ⟨g, hg, rfl⟩ := Table.of_get?_modify hget'
    split_ifs at hat ⊢ with heq
    · exact .same hg hat rfl rfl
    · exact .same hg hat rfl rfl
  | _ => exact .same hget' hat rfl rfl

end RemoteFs.Locking
