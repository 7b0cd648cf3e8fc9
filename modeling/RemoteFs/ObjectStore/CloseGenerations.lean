import RemoteFs.ObjectStore.CloseSections

/-!
# Close generations

For all interleavings of close calls, queries, pruning and native closes: a
reference has one native close at a time and none after its release, its
generation advances by determined results only, and the answer "not executed" is
given only to attempts that were never admitted.
-/

namespace RemoteFs

open Storage (Failure)

namespace ObjectStore
namespace Session

open Book (Chain Move Grows)

variable {c generation ref : ℕ} {call : CloseCall} {r : CloseState}
  {result : ReferenceCloseResult} {err : Option NativeError}

variable {ρ : Type}

/-! ## Every state of a run -/

structure Good (s : Session ρ) : Prop where
  sound : s.book.Sound
  calls : ∀ {c call}, s.closeCalls.get? c = some call → call.Fits s.book

lemma good_initial (history : Time) (maxLockActions : ℤ) (lease : Time) (now : ℕ → Time) :
    Good (initial history maxLockActions lease now : Session ρ) where
  sound := Book.sound_empty 1
  calls := fun hg => by cases (Table.get?_empty _).symm.trans hg

def caller (s : Session ρ) : Step ρ → Option (ℕ × CloseAttempt)
  | .stepClose c _ _ =>
    (s.closeCalls.get? c).map fun call => (call.ref, call.attempt)
  | _ => none

def Step.lands : Step ρ → Bool
  | .landClose .. => true
  | _ => false

namespace Good

variable {s s' : Session ρ}

lemma quiet (h : Good s) (hquiet : Quiet s s') : Good s' := by
  refine ⟨h.sound.chain hquiet.chain, fun hg => ?_⟩
  rw [hquiet.calls] at hg
  exact (h.calls hg).grows (hquiet.chain.grows h.sound)

lemma outcome (h : Good s) (hout : Outcome s c call s') : Good s' := by
  have hc := h.sound.chain hout.chain
  obtain ⟨call', hfits, hcalls⟩ := hout.call
  refine ⟨hc, fun {other found} hg => ?_⟩
  rw [hcalls other] at hg
  split_ifs at hg
  · cases hg
    exact hfits hc
  · exact (h.calls hg).grows (hout.chain.grows h.sound)

lemma addCall (h : Good s) (hfits : call.Fits s.book) :
    Good { s with closeCalls := s.closeCalls.set c call } := by
  refine ⟨h.sound, fun {other found} hg => ?_⟩
  rw [Table.get?_set] at hg
  split_ifs at hg
  · cases hg
    exact hfits
  · exact h.calls hg

lemma beginClose (h : Good s) (c ref : ℕ) (attempt : Option CloseAttempt) :
    Good (s.beginClose c ref attempt) := by
  unfold Session.beginClose
  split
  · exact h
  split
  · exact h.addCall ⟨by simp, by simp, by simp [ClosePhase.error?]⟩
  next attempt =>
  split
  · exact h.addCall ⟨by simp, by simp, by simp [ClosePhase.error?, refusal]⟩
  next hcheck =>
  refine h.addCall ⟨fun _ => Nat.pos_of_ne_zero fun hzero => ?_, by simp,
    by simp [ClosePhase.error?]⟩
  rw [CloseAttempt.check, if_pos hzero] at hcheck
  cases hcheck

lemma landClose (h : Good s) (run : ℕ) (result : ReferenceCloseResult)
    (err : Option NativeError) : Good (s.landClose run result err) := by
  unfold Session.landClose
  split
  · exact h
  next ref generation hf =>
  exact ⟨h.sound.land (result.checked err).1 (result.checked err).2
    (s.time + s.history) hf, fun hg =>
      ⟨(h.calls hg).positive, (h.calls hg).implicit, fun epoch herr =>
        ⟨((h.calls hg).missed epoch herr).passed, ((h.calls hg).missed epoch herr).never⟩⟩⟩

lemma openReference (s : Session ρ) (ref : ℕ) : Quiet s (s.exec (.openReference ref)) := by
  change Quiet s (if (s.refs.get? ref).isSome then s
    else { s with refs := s.refs.set ref .fresh })
  split
  · exact .refl
  · next hnone =>
    refine ⟨.single (Move.openRef (b := s.book) ?_), rfl⟩
    exact Option.not_isSome_iff_eq_none.mp hnone

/-- A step other than the return of a native close is a chain of moves. -/
lemma step (h : Good s) {step : Step ρ} (hla : step.lands = false) :
    Good (s.exec step) ∧ Chain (s.caller step) s.book (s.exec step).book := by
  have of_quiet : ∀ {s'}, Quiet s s' → Good s' ∧ Chain none s.book s'.book :=
    fun hquiet => ⟨h.quiet hquiet, hquiet.chain⟩
  cases step with
  | beginAction c id operation digest => exact of_quiet (.beginAction s c id operation digest)
  | stepAction c reply => exact of_quiet (.stepAction s c reply)
  | beginQuery q id =>
    refine of_quiet ?_
    change Quiet s (s.beginQuery q id)
    unfold Session.beginQuery
    split <;> exact .of_eq rfl
  | stepQuery q failure => exact of_quiet (.stepQuery s q failure)
  | openReference ref => exact of_quiet (openReference s ref)
  | beginClose c ref attempt =>
    refine ⟨h.beginClose c ref attempt, ?_⟩
    have hbook : (s.beginClose c ref attempt).book = s.book := by
      unfold Session.beginClose
      split
      · rfl
      · split
        · rfl
        · split <;> rfl
    change Chain none s.book (s.beginClose c ref attempt).book
    rw [hbook]
  | stepClose c cancelled id =>
    cases hg : s.closeCalls.get? c with
    | none =>
      have hs : s.exec (.stepClose c cancelled id) = s := by
        simp [Session.exec, Session.stepClose, hg]
      rw [hs]
      exact ⟨h, .refl⟩
    | some call =>
      have hout := stepClose_outcome hg h.sound (h.calls hg) cancelled id
      refine ⟨h.outcome hout, ?_⟩
      rw [caller, hg]
      exact hout.chain
  | landClose run result err => cases hla
  | queryClose ref attempt cancelled => exact of_quiet (.queryClose s ref attempt cancelled)
  | statusClose ref cancelled => exact of_quiet (.statusClose s ref cancelled)
  | readHistory => exact of_quiet (.epochLocked s none)
  | setLease active expires locks => exact of_quiet (.of_eq rfl)

lemma exec (h : Good s) (step : Step ρ) : Good (s.exec step) := by
  cases hla : step.lands with
  | false => exact (h.step hla).1
  | true =>
    cases step with
    | landClose run result err => exact h.landClose run result err
    | _ => cases hla

lemma run (h : Good s) (steps : List (Step ρ)) : Good (steps.foldl Session.exec s) :=
  Runs.invariant (fun _ step h => h.exec step) h steps

end Good

/-! ## The generation -/

lemma settled_generation (hpos : 0 < r.next) (generation : ℕ)
    (result : ReferenceCloseResult) (err : Option NativeError) (expires : Time)
    (hch : (CloseState.settled r generation result err expires).generation ≠ r.generation) :
    result.determined = true ∧ result.released = false ∧
      (CloseState.settled r generation result err expires).generation = r.generation + 1 := by
  unfold CloseState.settled at hch ⊢
  cases hrel : result.released with
  | true =>
    rw [hrel] at hch
    exact absurd rfl hch
  | false =>
    cases hdet : result.determined with
    | false =>
      rw [hrel, hdet] at hch
      exact absurd rfl hch
    | true =>
      refine ⟨rfl, rfl, ?_⟩
      simp [CloseState.generation, hpos.ne']

variable {s : Session ρ}

/-- The generation of a reference advances only when a native close of that
generation returns a determined result without a release. -/
lemma generation_advances (h : Good s) (hr : s.refs.get? ref = some r)
    (hr' : (s.exec step).refs.get? ref = some r') (hch : r'.generation ≠ r.generation) :
    ∃ run result err, step = .landClose run result err ∧
      s.flights.get? run = some (ref, r.generation) ∧ (result.checked err).1.determined = true ∧
      (result.checked err).1.released = false ∧ r'.generation = r.generation + 1 := by
  cases hla : step.lands with
  | false =>
    obtain ⟨found, hfd, -, hs⟩ := ((h.step hla).2.grows h.sound).refs hr
    have heq : found = r' := Option.some.inj (hfd.symm.trans hr')
    exact absurd (heq ▸ hs) hch
  | true =>
    cases step with
    | landClose run result err =>
      change (s.landClose run result err).refs.get? ref = some r' at hr'
      unfold Session.landClose at hr'
      split at hr'
      · cases hr.symm.trans hr'
        exact absurd rfl hch
      next other generation hf =>
      change (s.refs.modify other _).get? ref = some r' at hr'
      rw [Table.get?_modify] at hr'
      split_ifs at hr' with heq
      · rw [← heq, hr] at hr'
        cases hr'
        rw [← heq] at hf
        obtain ⟨hnext, -, receipt, hre, -⟩ := (h.sound.kept hr).flight_next hf
        have hpos := ((h.sound.kept hr).receipt hre).fits.positive
        rw [hnext] at hpos
        have hgen : generation = r.generation := hnext.trans (if_neg hpos.ne').symm
        obtain ⟨hdet, hrel, hnew⟩ := settled_generation hpos _ _ _ _ hch
        exact ⟨run, result, err, rfl, hgen ▸ hf, hdet, hrel, hnew⟩
      · cases hr.symm.trans hr'
        exact absurd rfl hch
    | _ => cases hla

/-! ## Starting a native close -/

lemma native_close_starts (h : Good s) {step : Step ρ}
    {run : ℕ} (hnone : s.flights.get? run = none)
    (hf : (s.exec step).flights.get? run = some (ref, generation)) :
    ∃ c cancelled id call, step = .stepClose c cancelled id ∧
      s.closeCalls.get? c = some call ∧ call.ref = ref ∧
      call.attempt.generation = generation ∧
      ((∃ receipt, s.receipt? ref generation = some receipt ∧
          receipt.action = call.attempt.action ∧ receipt.outcome = .unknown) ∨
        ∀ other, (ref, other) ∈ s.admitted → other.generation ≠ generation) := by
  cases hla : step.lands with
  | false =>
    obtain ⟨attempt, hcaller, hgen, -, hwhy⟩ :=
      ((h.step hla).2.grows h.sound).starts hnone hf
    cases step with
    | stepClose c cancelled id =>
      obtain ⟨call, hg, heq⟩ := Option.map_eq_some_iff.mp hcaller
      cases heq
      exact ⟨c, cancelled, id, call, rfl, hg, rfl, hgen, hwhy⟩
    | _ => cases hcaller
  | true =>
    cases step with
    | landClose returned result err =>
      change (s.landClose returned result err).flights.get? run = _ at hf
      unfold Session.landClose at hf
      split at hf
      · cases hnone.symm.trans hf
      cases hnone.symm.trans (Table.erase_cases hf).2
    | _ => cases hla

/-! ## After the release -/

def Released (ref : ℕ) (s : Session ρ) : Prop :=
  ∃ r, s.refs.get? ref = some r ∧ r.released = true

lemma settled_released {expires : Time} (hrel : result.released = true ∨ r.released = true) :
    (CloseState.settled r generation result err expires).released = true := by
  unfold CloseState.settled
  cases hresult : result.released with
  | true => rfl
  | false =>
    rw [hresult] at hrel
    have ho := hrel.resolve_left Bool.false_ne_true
    cases result.determined <;> exact ho

lemma Released.landClose (hrel : Released ref s) (run : ℕ) (result : ReferenceCloseResult)
    (err : Option NativeError) : Released ref (s.landClose run result err) := by
  obtain ⟨r, hr, ho⟩ := hrel
  unfold Session.landClose
  split
  · exact ⟨r, hr, ho⟩
  next other generation hf =>
  change ∃ r', (s.refs.modify other _).get? ref = some r' ∧ _
  rw [Table.get?_modify]
  split_ifs with heq
  · rw [← heq, hr]
    exact ⟨_, rfl, settled_released (.inr ho)⟩
  · exact ⟨r, hr, ho⟩

lemma Released.exec (hrel : Released ref s) (h : Good s)
    (step : Step ρ) : Released ref (s.exec step) := by
  cases hla : step.lands with
  | false =>
    obtain ⟨r, hr, ho⟩ := hrel
    obtain ⟨r', hr', hs, -⟩ := ((h.step hla).2.grows h.sound).refs hr
    exact ⟨r', hr', hs.trans ho⟩
  | true =>
    cases step with
    | landClose run result err => exact hrel.landClose run result err
    | _ => cases hla

lemma Released.no_flight (hrel : Released ref s) (h : Good s) (run generation : ℕ) :
    s.flights.get? run ≠ some (ref, generation) := by
  intro hf
  obtain ⟨r, hr, hrel⟩ := hrel
  obtain ⟨-, ho, -⟩ := (h.sound.kept hr).flight_next hf
  cases hrel.symm.trans ho

/-- After a released result no native close of the reference is under way in any
later state. -/
lemma no_native_close_after_release (h : Good s) {run : ℕ}
    (hf : s.flights.get? run = some (ref, generation))
    (hrel : (result.checked err).1.released = true) (rest : List (Step ρ))
    (run' generation' : ℕ) :
    (rest.foldl exec (s.landClose run result err)).flights.get? run' ≠
      some (ref, generation') := by
  have hlanded : Released ref (s.landClose run result err) := by
    obtain ⟨r, hr⟩ := Option.isSome_iff_exists.mp (h.sound.flown hf)
    unfold Session.landClose
    simp only [hf]
    change ∃ r', (s.refs.modify ref _).get? ref = some r' ∧ _
    rw [Table.get?_modify_self, show s.refs.get? ref = some r from hr]
    exact ⟨_, rfl, settled_released (.inl hrel)⟩
  have hrun := Runs.invariant (motive := fun t : Session ρ => Released ref t ∧ Good t)
      (fun _ step ht => ⟨ht.1.exec ht.2 step, ht.2.exec step⟩)
      ⟨hlanded, h.landClose run result err⟩ rest
  exact hrun.1.no_flight hrun.2 run' generation'

/-! ## Replays -/

def CloseCall.answered (call : CloseCall) (answer : CloseAnswer) : CloseCall :=
  { call with phase :=
      if call.pass.isSome then .implicitEnd answer else .returned answer }

/-- What a replay of an attempt with that receipt does. -/
structure Replayed (s : Session ρ) (c : ℕ) (call : CloseCall)
    (receipt : CloseReceipt) (s' : Session ρ) : Prop where
  completed : receipt.outcome = .completed → s'.flights = s.flights ∧
    s'.closeCalls.get? c = some (CloseCall.answered call
      (receipt.result, receipt.err.map .native))
  pending : receipt.outcome = .pending → s'.flights = s.flights ∧
    s'.closeCalls.get? c = some { call with phase := .wait receipt.run }
  unknown : receipt.outcome = .unknown → s'.flights = s.flights.set (s.lastRun + 1)
      (call.ref, call.attempt.generation) ∧
    s'.closeCalls.get? c = some { call with phase := .wait (s.lastRun + 1) }

lemma existingLocked_replayed
    (hg : s.closeCalls.get? c = some call) (haction : receipt.action = call.attempt.action) :
    Replayed s c call receipt (s.existingLocked c call receipt) := by
  unfold existingLocked
  rw [if_neg (not_not.mpr haction)]
  constructor
  · intro hout
    simp only [hout]
    exact ⟨rfl, Table.get?_modified hg⟩
  · intro hout
    simp only [hout]
    exact ⟨rfl, Table.get?_modified hg⟩
  · intro hout
    simp only [hout]
    exact ⟨rfl, Table.get?_modified hg⟩

lemma inspectClose_replayed (hg : s.closeCalls.get? c = some call)
    (hre : s.receipt? call.ref call.attempt.generation = some receipt)
    (haction : receipt.action = call.attempt.action)
    (hk : CloseReceipt.prunable receipt s.time = false) :
    Replayed s c call receipt (s.inspectClose c call) := by
  obtain ⟨refs, closeActions, heq⟩ := s.pruneCloseHistory_eq
  have hpruned := receipt?_pruneCloseHistory hre hk
  have hnext : (s.pruneCloseHistory.initNext call.ref).receipt? call.ref
      call.attempt.generation = some receipt := by
    obtain ⟨r, hr, hre⟩ := receipt?_eq_some.mp hpruned
    refine receipt?_eq_some.mpr ?_
    change ∃ r', (s.pruneCloseHistory.refs.modify call.ref _).get? call.ref = some r' ∧ _
    rw [Table.get?_modify_self, hr]
    exact ⟨_, rfl, hre⟩
  unfold inspectClose
  simp only [hnext]
  have hcall : (s.pruneCloseHistory.initNext call.ref).closeCalls.get? c =
      some call := by
    change s.pruneCloseHistory.closeCalls.get? c = some call
    rw [pruneCloseHistory_closeCalls, hg]
  have hflights : (s.pruneCloseHistory.initNext call.ref).flights =
      s.flights := by
    change s.pruneCloseHistory.flights = s.flights
    rw [heq]
  have hlast : (s.pruneCloseHistory.initNext call.ref).lastRun = s.lastRun := by
    change s.pruneCloseHistory.lastRun = s.lastRun
    rw [heq]
  obtain ⟨hcomp, hp, hunk⟩ := existingLocked_replayed hcall haction
  rw [hflights] at hcomp hp hunk
  rw [hlast] at hunk
  exact ⟨hcomp, hp, hunk⟩

lemma awaitClose_answers {run : ℕ} (hg : s.closeCalls.get? c = some call)
    (hrun : s.runs.get? run = some (result, err)) :
    (s.awaitClose c call run none).closeCalls.get? c =
      some (CloseCall.answered call (result, err.map .native)) := by
  unfold awaitClose
  simp only [hrun]
  change (s.closeCalls.modify c _).get? c = _
  exact Table.get?_modified hg

/-! ## Not executed -/

lemma queryClose_notExecuted (h : Good s)
    (han : (s.queryClose ref attempt cancelled).2 = .ok receipt)
    (hout : receipt.outcome = .notExecuted) : (ref, attempt) ∉ s.admitted := by
  intro hm
  unfold queryClose at han
  have hadvance := Quiet.advance s
  split at han
  · cases han
  · cases han
  split at han
  · cases han
  next s₁ heq =>
  rw [heq] at hadvance
  have hquiet := hadvance.trans
    ((Quiet.initNext _ ref).trans (Quiet.pruneCloseHistory _))
  obtain ⟨s₂, hs₂⟩ : ∃ s₂, s₂ = (s₁.initNext ref).pruneCloseHistory := ⟨_, rfl⟩
  rw [← hs₂] at hquiet
  have hc := h.sound.chain hquiet.chain
  have hmem₂ := (hquiet.chain.grows h.sound).admitted hm
  simp only [← hs₂] at han
  split at han
  · cases han
  next r href =>
  have hk := hc.kept href
  split at han
  · next found hfilter =>
    -- a receipt is never recorded as not executed
    cases han
    obtain ⟨hfd, -⟩ := Option.filter_eq_some_iff.mp hfilter
    have ho := (hk.receipt hfd).fits.open_ (by
      rw [show found.outcome = .notExecuted from hout]
      exact FileActionOutcome.noConfusion)
    rcases ho.2.2 with hp | hunk
    · cases hout.symm.trans hp
    · cases hout.symm.trans hunk
  next hfilter =>
  split_ifs at han with hlater hearlier hsome hahead hbehind
  · cases han
    cases hout
  · -- the receipt of that generation belongs to another attempt
    obtain ⟨found, hfd⟩ := Option.isSome_iff_exists.mp hsome
    have heq := hk.once (hk.receipt hfd).known hmem₂ rfl
    rw [hfd, ← heq] at hfilter
    simp at hfilter
  · cases han
    cases hout
  rw [Bool.or_eq_true, not_or, decide_eq_true_eq, Bool.not_eq_true] at hbehind
  have hnext : attempt.generation = r.next :=
    Nat.le_antisymm (Nat.le_of_not_lt hahead) (Nat.le_of_not_lt hbehind.1)
  refine hk.never_admitted hnext hbehind.2 ?_ hmem₂ rfl
  exact Option.not_isSome_iff_eq_none.mp hsome

/-! ## All of it, for every run -/

theorem close_generations (history : Time) (maxLockActions : ℤ) (lease : Time)
    (now : ℕ → Time) (steps : List (Step ρ)) :
    let s := steps.foldl exec (initial history maxLockActions lease now)
    -- one native close of a reference at a time
    (∀ run run' ref generation generation', s.flights.get? run = some (ref, generation) →
      s.flights.get? run' = some (ref, generation') → run = run') ∧
    -- the generation advances by a determined result that does not release
    (∀ step ref r r', s.refs.get? ref = some r →
      (s.exec step).refs.get? ref = some r' → r'.generation ≠ r.generation →
      ∃ run result err, step = .landClose run result err ∧
        s.flights.get? run = some (ref, r.generation) ∧
        (result.checked err).1.determined = true ∧
        (result.checked err).1.released = false ∧
        r'.generation = r.generation + 1) ∧
    -- after a released result there is no native close any more
    (∀ run ref generation result err, s.flights.get? run = some (ref, generation) →
      (result.checked err).1.released = true →
      ∀ (rest : List (Step ρ)) (run' generation' : ℕ),
        (rest.foldl exec (s.landClose run result err)).flights.get? run' ≠
          some (ref, generation')) ∧
    -- a native close starts for a first attempt or an unknown result
    (∀ step run ref generation, s.flights.get? run = none →
      (s.exec step).flights.get? run = some (ref, generation) →
      ∃ c cancelled id call, step = .stepClose c cancelled id ∧
        s.closeCalls.get? c = some call ∧ call.ref = ref ∧
        call.attempt.generation = generation ∧
        ((∃ receipt, s.receipt? ref generation = some receipt ∧
            receipt.action = call.attempt.action ∧
            receipt.outcome = .unknown) ∨
          ∀ other, (ref, other) ∈ s.admitted → other.generation ≠ generation)) ∧
    -- a replay follows its retained receipt, which holds the result of its run
    (∀ c call receipt cancelled id, s.closeCalls.get? c = some call → call.phase = .inspect →
      s.receipt? call.ref call.attempt.generation = some receipt →
      receipt.action = call.attempt.action →
      CloseReceipt.prunable receipt s.time = false →
      Replayed s c call receipt (s.exec (.stepClose c cancelled id))) ∧
    (∀ ref generation receipt, s.receipt? ref generation = some receipt →
      receipt.outcome ≠ .pending →
      s.runs.get? receipt.run = some (receipt.result, receipt.err)) ∧
    (∀ c call run result err id, s.closeCalls.get? c = some call →
      call.phase = .wait run → s.runs.get? run = some (result, err) →
      (s.exec (.stepClose c none id)).closeCalls.get? c =
        some (CloseCall.answered call (result, err.map .native))) ∧
    -- "not executed" is answered for attempts that were never admitted
    (∀ c call epoch, s.closeCalls.get? c = some call →
      call.phase.error? = some (.notExecuted epoch) →
      (call.ref, call.attempt) ∉ s.admitted) ∧
    (∀ ref attempt cancelled receipt, (s.queryClose ref attempt cancelled).2 = .ok receipt →
      receipt.outcome = .notExecuted → (ref, attempt) ∉ s.admitted) := by
  intro s
  have h : Good s := (good_initial history maxLockActions lease now).run steps
  refine ⟨?_, ?_, ?_, ?_, ?_, ?_, ?_, ?_, ?_⟩
  · intro run run' ref generation generation' hf hf'
    exact h.sound.flight_unique hf hf'
  · intro step ref r r' hr hr' hch
    exact generation_advances h hr hr' hch
  · intro run ref generation result err hf hrel rest run' generation'
    exact no_native_close_after_release h hf hrel rest run' generation'
  · intro step run ref generation hnone hf
    exact native_close_starts h hnone hf
  · intro c call receipt cancelled id hg hph hre haction hk
    have hreplayed := inspectClose_replayed hg hre haction hk
    simpa only [exec, stepClose, hg, hph] using hreplayed
  · intro ref generation receipt hre hdone
    obtain ⟨r, hr, hre⟩ := receipt?_eq_some.mp hre
    exact ((h.sound.kept hr).receipt hre).placed.recorded hdone
  · intro c call run result err id hg hph hrun
    have han := awaitClose_answers hg hrun
    simpa only [exec, stepClose, hg, hph] using han
  · intro c call epoch hg herr
    exact ((h.calls hg).missed epoch herr).never
  · intro ref attempt cancelled receipt han houtcome
    exact queryClose_notExecuted h han houtcome

/-- The native closes that run are those of the pending receipts.  A generation is admitted
for one action only, and none after it until it is settled. -/
theorem native_closes_have_receipts (history : Time) (maxLockActions : ℤ) (lease : Time)
    (now : ℕ → Time) (steps : List (Step ρ)) :
    let s := steps.foldl exec (initial history maxLockActions lease now)
    (∀ run ref generation, s.flights.get? run = some (ref, generation) ↔
      ∃ receipt, s.receipt? ref generation = some receipt ∧
        receipt.outcome = .pending ∧ receipt.run = run) ∧
    (∀ ref attempt other, (ref, attempt) ∈ s.admitted → (ref, other) ∈ s.admitted →
      attempt.generation = other.generation → attempt = other) ∧
    ∀ ref generation receipt attempt, s.receipt? ref generation = some receipt →
      receipt.outcome ≠ .completed → (ref, attempt) ∈ s.admitted →
      attempt.generation ≤ generation := by
  intro s
  have h : s.book.Sound := ((good_initial history maxLockActions lease now).run steps).sound
  refine ⟨fun run ref generation => ⟨fun hf => ?_, ?_⟩, ?_, ?_⟩
  · obtain ⟨r, hr⟩ := Option.isSome_iff_exists.mp (h.flown hf)
    obtain ⟨receipt, hg, hp, hrun⟩ := (h.kept hr).flight hf
    exact ⟨receipt, receipt?_eq_some.mpr ⟨r, hr, hg⟩, hp, hrun⟩
  · rintro ⟨receipt, hre, hp, rfl⟩
    obtain ⟨r, hr, hg⟩ := receipt?_eq_some.mp hre
    exact ((h.kept hr).receipt hg).placed.pending hp
  · intro ref attempt other hm hother
    obtain ⟨r, hr⟩ := Option.isSome_iff_exists.mp (h.homed hm)
    exact (h.kept hr).once hm hother
  · intro ref generation receipt attempt hre ho hm
    obtain ⟨r, hr, hg⟩ := receipt?_eq_some.mp hre
    rw [(((h.kept hr).receipt hg).fits.open_ ho).1]
    exact ((h.kept hr).past hm).1

end Session

end ObjectStore
end RemoteFs
