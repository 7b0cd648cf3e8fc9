import RemoteFs.Locking.Effects

/-!
# Recovery of leases

The authority caches the largest lease it may grant in `watermark` and stores it
before it raises the cache.  A lease is therefore never longer than the stored
maximum, and an incarnation that starts after the crash and waits for the stored
maximum outlives every lease of the one before it.
-/

namespace RemoteFs.Locking

open Authority

variable {a : Authority}

/-- How far the calls have come with `raise`, and what the leases are bounded
by. -/
structure Leases (a : Authority) : Prop where
  stored : a.watermark ≤ a.durable
  holder : ∀ {job ref phase}, a.phase? job = some (ref, phase) →
    phase = .persisting ∨ phase = .persisted → a.raising = some job ∧ a.watermark < a.ttl ref
  persisted : ∀ {job ref}, a.phase? job = some (ref, .persisted) → a.ttl ref ≤ a.durable
  covered : ∀ {job ref phase}, a.phase? job = some (ref, phase) →
    phase = .raised ∨ phase = .guarding → a.ttl ref ≤ a.watermark
  bounded : ∀ {id g}, a.grantRecords.get? id = some g → g.state = .active →
    ∃ k < a.reads, g.deadline ≤ a.now k + a.watermark

namespace Leases

lemma initial (options : Options) (verify : Capability → Except Fault Unit)
    (now : ℕ → Time) (maxLease : Duration) (start : Time) :
    Leases (Authority.initial options verify now maxLease start) := by
  have hph : ∀ job, (Authority.initial options verify now maxLease start).phase? job = none := by
    intro job
    cases job <;> rfl
  refine ⟨le_refl _, ?_, ?_, ?_, ?_⟩
  · intro job ref phase hst
    rw [hph] at hst
    cases hst
  · intro job ref hst
    rw [hph] at hst
    cases hst
  · intro job ref phase hst
    rw [hph] at hst
    cases hst
  · intro id g hg
    rw [show (Authority.initial options verify now maxLease
      start).grantRecords.get? id = none from Table.get?_empty id] at hg
    cases hg

variable {t : Terms} {a a' : Authority}

lemma bounded_move (h : Leases a) (hmv : Move t a a') (hgrows : a.watermark ≤ a'.watermark)
    {id : GrantID} {g' : GrantRecord} (hget' : a'.grantRecords.get? id = some g')
    (hat : g'.state = .active) : ∃ k < a'.reads, g'.deadline ≤ a'.now k + a'.watermark := by
  have hon := hmv.onward
  rw [hon.now]
  have hold : ∀ {g}, a.grantRecords.get? id = some g → g.state = .active →
      ∃ k < a'.reads, g.deadline ≤ a.now k + a'.watermark := by
    intro g hg hat
    obtain ⟨k, hk, hbound⟩ := h.bounded hg hat
    exact ⟨k, lt_of_lt_of_le hk hon.reads, hbound.trans (Int.add_le_add_left hgrows _)⟩
  rcases hmv.lease hget' hat with
    ⟨hg, hat, hdl, -⟩ | ⟨hph, -, -, hdl, hreads, -⟩
  · rw [hdl]
    exact hold hg hat
  have hcovered := h.covered hph (.inr rfl)
  have hnew : a.time + a.ttl _ ≤ a.now a.reads + a'.watermark :=
    Int.add_le_add_left (hcovered.trans hgrows) _
  have hread : a.reads < a'.reads := by omega
  rcases hdl with hdl | ⟨g, hg, hat, -, hdl⟩
  · exact ⟨a.reads, hread, hdl ▸ hnew⟩
  rcases max_choice g.deadline (a.time + a.ttl _) with hmax | hmax
  · rw [hdl, hmax]
    exact hold hg hat
  · rw [hdl, hmax]
    exact ⟨a.reads, hread, hnew⟩

lemma stands (h : Leases a) (hcore : Core a) (hmv : Move t a a')
    (hst : a.Stands a') : Leases a' := by
  have httl : ∀ {job ref phase}, a.phase? job = some (ref, phase) →
      a'.ttl ref = a.ttl ref := hcore.actions.ttl_of_phase hmv
  constructor
  · rw [hst.watermark, hst.durable]
    exact h.stored
  · intro job ref phase hph hla
    have hbefore := hst.phase hph (by
      rintro rfl
      simp at hla)
    rw [hst.raising, hst.watermark, httl hbefore]
    exact h.holder hbefore hla
  · intro job ref hph
    have hbefore := hst.phase hph Phase.noConfusion
    rw [hst.durable, httl hbefore]
    exact h.persisted hbefore
  · intro job ref phase hph hla
    have hbefore := hst.phase hph (by
      rintro rfl
      simp at hla)
    rw [hst.watermark, httl hbefore]
    exact h.covered hbefore hla
  · intro id g' hget' hat
    exact h.bounded_move hmv (le_of_eq hst.watermark.symm) hget' hat

section Advance

variable {job₀ : Job} {ref₀ : ActionRef} {before after : Phase}
  {raising : Option Job} {watermark durable : Duration}
  (hph : a.phase? job₀ = some (ref₀, before))
  (hnex : Advances a job₀ ref₀ before after raising watermark durable)

include hph hnex

lemma grows (h : Leases a) :
    a.watermark ≤ watermark ∧ a.durable ≤ durable ∧ watermark ≤ durable := by
  cases hnex with
  | store => exact ⟨le_refl _, le_max_left _ _, h.stored.trans (le_max_left _ _)⟩
  | storeFailed err hdurable => exact ⟨le_refl _, hdurable, h.stored.trans hdurable⟩
  | leaveRaise => exact ⟨(h.holder hph (.inr rfl)).2.le, le_refl _, h.persisted hph⟩
  | _ => exact ⟨le_refl _, le_refl _, h.stored⟩

/-- While another call holds `raiseMu` the maximum stays. -/
lemma other_holds (h : Leases a) (hne : job ≠ job₀) (hraising : a.raising = some job) :
    raising = some job ∧ watermark = a.watermark := by
  cases hnex with
  | enterRaise hfree => cases hfree.symm.trans hraising
  | storeFailed =>
    rw [(h.holder hph (.inl rfl)).1] at hraising
    cases hraising
    exact absurd rfl hne
  | leaveRaise =>
    rw [(h.holder hph (.inr rfl)).1] at hraising
    cases hraising
    exact absurd rfl hne
  | _ => exact ⟨hraising, rfl⟩

lemma self_holds (h : Leases a) (hla : after = .persisting ∨ after = .persisted) :
    raising = some job₀ ∧ watermark < a.ttl ref₀ := by
  cases hnex with
  | enterRaise hfree hhigh => exact ⟨rfl, hhigh⟩
  | store => exact h.holder hph (.inl rfl)
  | _ => simp at hla

lemma self_covered (h : Leases a)
    (hla : after = .raised ∨ after = .guarding) : a.ttl ref₀ ≤ watermark := by
  cases hnex with
  | sufficient hlow => exact hlow
  | leaveRaise => exact le_refl _
  | enterGuard => exact h.covered hph (.inl rfl)
  | _ => simp at hla

omit hph in
lemma self_persisted (hla : after = .persisted) : a.ttl ref₀ ≤ durable := by
  cases hnex with
  | store => exact le_max_right _ _
  | _ => cases hla

end Advance

lemma advances (h : Leases a) (hcore : Core a) (hmv : Move t a a')
    (hadvances : a.AdvancesTo a') : Leases a' := by
  obtain ⟨job₀, ref₀, before, after, raising, watermark, durable, hph, hnex, rfl⟩ := hadvances
  obtain ⟨hgrows, hdurable, hstored⟩ := grows hph hnex h
  have httl : ∀ {job ref phase}, a.phase? job = some (ref, phase) →
      Authority.ttl { a.setPhase job₀ ref₀ after with
        raising, watermark, durable } ref = a.ttl ref := by
    intro job ref phase
    exact hcore.actions.ttl_of_phase hmv
  -- a call is the one that advances, or it stands where it stood
  have hwhere : ∀ {job ref phase}, Authority.phase? { a.setPhase job₀ ref₀ after
      with raising, watermark, durable } job = some (ref, phase) →
        (job = job₀ ∧ ref = ref₀ ∧ phase = after) ∨
          (job ≠ job₀ ∧ a.phase? job = some (ref, phase)) := by
    intro job ref phase hst
    by_cases heq : job = job₀
    · rw [heq] at hst
      obtain ⟨href, hafter⟩ := Prod.mk.inj (Option.some.inj
        (hst.symm.trans (setPhase_phase hph after)))
      exact .inl ⟨heq, href, hafter⟩
    · exact .inr ⟨heq, (setPhase_phase_ne hph heq after).symm.trans hst⟩
  constructor
  · exact hstored
  · intro job ref phase hst hla
    rcases hwhere hst with ⟨rfl, rfl, rfl⟩ | ⟨hne, hold⟩
    · rw [httl hph]
      exact self_holds hph hnex h hla
    obtain ⟨hraising, hhigh⟩ := h.holder hold hla
    obtain ⟨hkept, hsame⟩ := other_holds hph hnex h hne hraising
    rw [httl hold]
    exact ⟨hkept, lt_of_eq_of_lt hsame hhigh⟩
  · intro job ref hst
    rcases hwhere hst with ⟨rfl, rfl, hafter⟩ | ⟨-, hold⟩
    · rw [httl hph]
      exact self_persisted hnex hafter.symm
    · rw [httl hold]
      exact (h.persisted hold).trans hdurable
  · intro job ref phase hst hla
    rcases hwhere hst with ⟨rfl, rfl, rfl⟩ | ⟨-, hold⟩
    · rw [httl hph]
      exact self_covered hph hnex h hla
    · rw [httl hold]
      exact (h.covered hold hla).trans hgrows
  · intro id g' hget' hat
    exact h.bounded_move hmv hgrows hget' hat

lemma move (h : Leases a) (hcore : Core a) (hmv : Move t a a') : Leases a' := by
  rcases hmv.stands with hst | hadvances
  · exact h.stands hcore hmv hst
  · exact h.advances hcore hmv hadvances

end Leases

/-! ## The next incarnation -/

/-- Before the end of the recovery interval there are no grants and no
publications. -/
def Authority.Quiet (a : Authority) : Prop :=
  a.Admitted ∨ (∀ id, a.grantRecords.get? id = none) ∧
    ∀ flight, a.flights.get? flight = none

lemma Authority.Quiet.move (hmv : Move t a a') (hquiet : a.Quiet) : a'.Quiet := by
  have hon := hmv.onward
  rcases hquiet with hadm | ⟨hgrants, hflights⟩
  · exact .inl (hadm.onward hon)
  cases hmv with
  | endGrant state hg =>
    rw [hgrants] at hg
    cases hg
  | issue job _ _ _ _ _ _ _ _ _ _ _ _ hadm => exact .inl (hadm.onward hon)
  | prolong _ _ _ _ _ _ _ _ _ _ _ _ hadm => exact .inl (hadm.onward hon)
  | noteRelease id change =>
    refine .inr ⟨fun other => ?_, hflights⟩
    rw [Table.get?_modify, hgrants, hgrants]
    split_ifs <;> rfl
  | launch _ _ hadm => exact .inl (hadm.onward hon)
  | land hf =>
    rw [hflights] at hf
    cases hf
  | _ => exact .inr ⟨hgrants, hflights⟩

lemma healthyLocked_refuses (hearly : a.time < a.recoveryUntil) :
    ∃ fault, (a.healthyLocked false true).result = .error fault := by
  cases hresult : (a.healthyLocked false true).result with
  | error fault => exact ⟨fault, rfl⟩
  | ok _ => exact absurd (healthyLocked_admits hresult).2 (not_le.mpr hearly)

lemma andThen_refuses {α β : Type} {first : Outcome α}
    (hfirst : ∃ fault, first.result = .error fault) (next : Authority → α → Outcome β) :
    ∃ fault, (first.andThen next).result = .error fault := by
  obtain ⟨fault, hfault⟩ := hfirst
  refine ⟨fault, ?_⟩
  unfold Outcome.andThen
  rw [hfault]

lemma ok_andThen {α β : Type} (a : Authority) (x : α) (next : Authority → α → Outcome β) :
    Outcome.andThen ⟨a, .ok x⟩ next = next a x := rfl

lemma publish_refuses (hearly : a.time < a.recoveryUntil) (publication : Publication) :
    ∃ fault, (a.publish publication).result = .error fault := by
  unfold publish
  split_ifs
  · exact ⟨_, rfl⟩
  · exact ⟨_, rfl⟩
  cases hscope : validateScope publication.scope a.options.maxProofs with
  | error fault => exact andThen_refuses ⟨fault, rfl⟩ _
  | ok _ =>
    rw [ok_andThen]
    exact andThen_refuses (healthyLocked_refuses hearly) _

/-- A run stops at `crash`, and the next authority starts with the stored maximum
and a recovery start that is not earlier.  Then every lease that was active has
ended by `recoveryUntil`, and until the clock reaches it the new authority refuses
acquisitions, renewals and publications and has neither grants nor publications. -/
theorem recovery_outlives_leases {options options' : Options}
    {verify verify' : Capability → Except Fault Unit} {now now' : ℕ → Time}
    {maxLease : Duration} {start : Option Time} {a₀ a₁ : Authority}
    (hnew : Authority.new options verify now maxLease start = .ok a₀)
    (steps : List Step) {crash start' : Time}
    (hcrash : ∀ k < (steps.foldl exec a₀).reads, now k ≤ crash) (hstart : crash ≤ start')
    (hnex : Authority.new options' verify' now' (steps.foldl exec a₀).durable
      (some start') = .ok a₁) (steps' : List Step) :
    let b := steps'.foldl exec a₁
    (∀ id g, (steps.foldl exec a₀).grantRecords.get? id = some g →
      g.state = .active → g.deadline ≤ a₁.recoveryUntil) ∧
      b.recoveryUntil = a₁.recoveryUntil ∧
      (b.time < b.recoveryUntil →
        (∀ request, ∃ fault, (b.acquire request).result = .error fault) ∧
          (∀ request, ∃ fault, (b.renew request).result = .error fault) ∧
            ∀ publication, ∃ fault, (b.publish publication).result = .error fault) ∧
      ((∀ k < b.reads, now' k < b.recoveryUntil) → (∀ id, b.grantRecords.get? id = none) ∧
          ∀ flight, b.flights.get? flight = none) := by
  intro b
  obtain ⟨-, -, from₁, hfrom₁, rfl⟩ := new_eq_ok hnex
  cases hfrom₁
  set fresh := Authority.initial options' verify' now'
    (steps.foldl exec a₀).durable start' with hfresh
  have hb := Core.run (motive := fun c => c.Quiet ∧ fresh.Onward c)
    (fun {t c c'} _ hmv hc => ⟨hc.1.move hmv, by
      have hon := hmv.onward
      exact ⟨hon.options.trans hc.2.options, hon.now.trans hc.2.now,
        hon.recoveryUntil.trans hc.2.recoveryUntil,
        hc.2.reads.trans hon.reads⟩⟩)
    (Core.initial options' verify' now' _ start')
    ⟨.inr ⟨fun id => Table.get?_empty id, fun id => Table.get?_empty id⟩,
      ⟨rfl, rfl, rfl, le_refl _⟩⟩ steps'
  obtain ⟨-, hquiet, hon⟩ := hb
  refine ⟨?_, hon.recoveryUntil, ?_, ?_⟩
  · intro id g hg hat
    obtain ⟨-, -, from₀, -, rfl⟩ := new_eq_ok hnew
    have hrun := Core.run
      (motive := fun c => Leases c ∧ c.now = now)
      (fun hcore hmv hc =>
        ⟨hc.1.move hcore hmv, hmv.onward.now.trans hc.2⟩)
      (Core.initial options verify now maxLease from₀)
      ⟨Leases.initial options verify now maxLease from₀, rfl⟩ steps
    obtain ⟨-, hleases, hnow⟩ := hrun
    obtain ⟨k, hk, hbound⟩ := hleases.bounded hg hat
    rw [hnow] at hbound
    calc g.deadline ≤ now k + _ := hbound
      _ ≤ crash + _ := Int.add_le_add_right (hcrash k hk) _
      _ ≤ start' + _ := Int.add_le_add hstart hleases.stored
  · intro hearly
    exact ⟨fun _ => andThen_refuses (healthyLocked_refuses hearly) _,
      fun _ => andThen_refuses (healthyLocked_refuses hearly) _,
      publish_refuses hearly⟩
  · intro hearly
    refine hquiet.resolve_left ?_
    rintro ⟨k, hk, hpast⟩
    have hnow := hon.now
    rw [hnow] at hpast
    exact absurd hpast (not_le.mpr (hearly k hk))

theorem recovery_outlives_leases_of_lock :
    let a := (Sample.enter ++ Sample.lock ⟨1, 2⟩ [9] 3 .exclusive
      (1000 * millisecond) 0).foldl exec Sample.fresh
    a.liveGrants 3 = [1] ∧ ∀ g, a.grantRecords.get? 1 = some g →
      g.state = .active → g.deadline ≤ 1019 * millisecond := by
  have hcrash : ∀ k < ((Sample.enter ++ Sample.lock ⟨1, 2⟩ [9] 3 .exclusive
      (1000 * millisecond) 0).foldl exec Sample.fresh).reads,
        Sample.clock k ≤ 19 * millisecond := by decide +kernel
  have hnex : Authority.new DefaultOptions (fun _ => .ok ()) Sample.clock
      ((Sample.enter ++ Sample.lock ⟨1, 2⟩ [9] 3 .exclusive (1000 * millisecond)
        0).foldl exec Sample.fresh).durable (some (19 * millisecond)) =
        .ok (.initial DefaultOptions (fun _ => .ok ()) Sample.clock
          (1000 * millisecond) (19 * millisecond)) := rfl
  exact ⟨by decide +kernel,
    (recovery_outlives_leases Sample.new_fresh _ hcrash (le_refl _) hnex []).1 1⟩

end RemoteFs.Locking
