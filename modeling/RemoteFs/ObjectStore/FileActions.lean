import RemoteFs.ObjectStore.ActionSections

/-!
# File actions are executed at most once

A call of `runFileAction` looks for a record of its action, reads the epoch
without the mutex, and then looks again and admits the action.  The record that
it could have found may be completed and pruned between the two looks, if they
are a full history apart; otherwise no action is executed twice.
-/

namespace RemoteFs

open Storage (Failure Text)

namespace ObjectStore
namespace Session

variable {c : ℕ}

variable {ρ : Type}

def Timely (s : Session ρ) : Step ρ → Prop
  | .stepAction c _ => ∀ call, s.actionCalls.get? c = some call →
      call.phase = .enter → s.time < call.seen + s.history
  | _ => True

variable {s : Session ρ} {call : ActionCall ρ}

/-! ## Executed once -/

lemma enterAction_nodup (h : Tracked s) (hg : s.actionCalls.get? c = some call)
    (hph : call.phase = .enter) (htimely : s.time < call.seen + s.history)
    (hno : s.started.Nodup) : (s.enterAction c call).started.Nodup := by
  obtain ⟨refs, closeActions, heq⟩ := s.pruneFileActions.pruneCloseHistory_eq
  unfold enterAction
  rw [heq]
  simp only
  split
  · exact hno
  split
  · exact hno
  next hunk =>
  split
  · exact hno
  · refine List.nodup_cons.mpr ⟨fun hused => hunk ?_, hno⟩
    have hcovered := (h.calls hg).entering hph hused
    exact Option.isSome_iff_exists.mpr (hcovered.remembered h.safe.clock htimely)

lemma inspectAction_started (s : Session ρ) (c : ℕ) (call : ActionCall ρ) :
    (s.inspectAction c call).started = s.started := by
  obtain ⟨refs, closeActions, heq⟩ := s.ticked.pruneFileActions.pruneCloseHistory_eq
  unfold inspectAction
  simp only [heq]
  split
  · rfl
  · split
    · rfl
    · split <;> rfl

lemma readEpoch_started (s : Session ρ) (c : ℕ) (call : ActionCall ρ)
    (cancelled : Option Failure) : (s.readEpoch c call cancelled).started = s.started := by
  have hstarted : (s.epochLocked cancelled).1.started = s.started :=
    (Aside.epochLocked s cancelled).chain.started
  unfold readEpoch
  split
  · next heq => rwa [heq] at hstarted
  next heq =>
  rw [heq] at hstarted
  split
  · exact hstarted
  · split <;> exact hstarted

lemma stepQuery_started (s : Session ρ) (q : ℕ) (failure : Option Failure) :
    (s.stepQuery q failure).started = s.started := by
  have hprune : s.pruneFileActions.pruneCloseHistory.started = s.started :=
    (Aside.prune s).chain.started
  have hepoch : (s.epochLocked failure).1.started = s.started :=
    (Aside.epochLocked s failure).chain.started
  unfold stepQuery
  split
  · rfl
  split
  · unfold inspectQuery
    split
    · rfl
    · rfl
    simp only
    split <;> split <;> exact hprune
  · unfold epochQuery
    split
    · rfl
    split
    · next heq => rwa [heq] at hepoch
    · next heq =>
      rw [heq] at hepoch
      split <;> exact hepoch
  · rfl

lemma exec_nodup (h : Tracked s) {step : Step ρ} (htimely : Timely s step)
    (hno : s.started.Nodup) : (s.exec step).started.Nodup := by
  cases hconcerns : step.concerns with
  | false =>
    have hstarted : (s.exec step).started = s.started := (exec_aside s hconcerns).chain.started
    rwa [hstarted]
  | true =>
    cases step with
    | beginAction c id operation digest =>
      change (s.beginAction c id operation digest).started.Nodup
      unfold beginAction
      simp only
      split_ifs
      · exact hno
      · exact hno
      · split <;> exact hno
    | stepAction c reply =>
      change (s.stepAction c reply).started.Nodup
      unfold stepAction
      split
      · exact hno
      next call hg =>
      split
      · rwa [inspectAction_started]
      · rwa [readEpoch_started]
      · next hph =>
        exact enterAction_nodup h hg hph (htimely call hg hph) hno
      · exact hno
      · unfold wakeAction
        split
        · exact hno
        · split <;> exact hno
      · exact hno
      · exact hno
    | beginQuery q id =>
      change (s.beginQuery q id).started.Nodup
      unfold beginQuery
      split <;> exact hno
    | stepQuery q failure =>
      change (s.stepQuery q failure).started.Nodup
      rwa [stepQuery_started]
    | _ => cases hconcerns

/-! ## Later uses of an identity -/

lemma inspectAction_retained {retained : FileAction ρ} (hg : s.actionCalls.get? c = some call)
    (hret : s.actions.get? call.id = some retained)
    (hk : retained.outcome = .pending ∨ s.ticked.time < retained.expires)
    (hother : retained.operation ≠ call.operation ∨ retained.digest ≠ call.digest) :
    ∃ call', (s.inspectAction c call).actionCalls.get? c = some call' ∧
      (call'.phase = .returned (.error ⟨.EINVAL, ""⟩) ∨ (s.active = false ∨ s.expires ≤ s.time) ∧
          call'.phase = .returned (.error ⟨.ESTALE, ""⟩)) := by
  obtain ⟨refs, closeActions, heq⟩ := s.ticked.pruneFileActions.pruneCloseHistory_eq
  have hpruned : s.ticked.pruneFileActions.actions.get? call.id =
      some retained := by
    refine Table.get?_filter_iff.mpr ⟨hret, ?_⟩
    rwa [Bool.or_eq_true, decide_eq_true_eq, decide_eq_true_eq]
  have hph : retainedPhase call retained = .returned (.error ⟨.EINVAL, ""⟩) := if_pos hother
  unfold inspectAction
  simp only [heq, hpruned, hph]
  split
  · next hended =>
    refine ⟨_, Table.get?_modified hg, .inr ⟨?_, rfl⟩⟩
    rw [Bool.or_eq_true, Bool.not_eq_true', Bool.not_eq_true',
      decide_eq_false_iff_not, not_lt] at hended
    exact hended
  -- both refusals follow the note of what the call has seen
  split <;> exact ⟨_, Table.get?_modified (Table.get?_modified hg), .inl rfl⟩

lemma inspectAction_before {call' : ActionCall ρ} (hg : s.actionCalls.get? c = some call)
    (haf : (s.inspectAction c call).actionCalls.get? c = some call')
    (hph : call'.phase = .epoch) : call'.before = s.started := by
  obtain ⟨refs, closeActions, heq⟩ := s.ticked.pruneFileActions.pruneCloseHistory_eq
  unfold inspectAction at haf
  simp only [heq] at haf
  split at haf
  · cases (Table.get?_modified hg).symm.trans haf
    cases hph
  split at haf
  · cases (Table.get?_modified (Table.get?_modified hg)).symm.trans haf
    cases hph
  split at haf
  · cases (Table.get?_modified (Table.get?_modified hg)).symm.trans haf
    rfl
  · cases (Table.get?_modified (Table.get?_modified hg)).symm.trans haf
    rfl

/-- A call that found no record of an executed action is refused. -/
lemma readEpoch_stale (h : Tracked s) {requested : ℕ} (hg : s.actionCalls.get? c = some call)
    (hph : call.phase = .epoch) (hrequested : Storage.lockRequestEpoch call.id = .ok requested)
    (hm : call.id ∈ call.before) (cancelled : Option Failure) :
    ∃ err call', (s.readEpoch c call cancelled).actionCalls.get? c =
        some call' ∧ call'.phase = .returned (.error err) ∧
      (err = ⟨.ESTALE, ""⟩ ∨ (s.epochLocked cancelled).2 = .error err) := by
  have htracked := h.calls hg
  have hcalls := (Aside.epochLocked s cancelled).calls
  unfold readEpoch
  split
  · next s₁ err hread =>
    rw [hread] at hcalls
    exact ⟨err, _, Table.get?_modified (hcalls ▸ hg), rfl, .inr (by rw [hread])⟩
  next s₁ epoch hread =>
  rw [hread] at hcalls
  have hlate := (epochLocked_over h.safe hread).2 _
    (htracked.before _ hm) (htracked.late hph hm)
  rw [actionEpoch_eq hrequested] at hlate
  simp only [hrequested, ne_eq, hlate.ne, not_false_eq_true, if_true]
  exact ⟨_, _, Table.get?_modified (hcalls ▸ hg), rfl, .inl rfl⟩

/-! ## All of it, for every run -/

theorem file_actions_at_most_once (history : Time) (maxLockActions : ℤ)
    (lease : Time) (now : ℕ → Time) (hclock : Monotone now) (steps : List (Step ρ))
    (htimely : Runs.Along exec Timely (initial history maxLockActions lease now) steps) :
    let s := steps.foldl exec (initial history maxLockActions lease now)
    -- no identity is executed twice
    s.started.Nodup ∧
    -- another intent is refused while the record is retained
    (∀ c call retained reply, s.actionCalls.get? c = some call →
      call.phase = .inspect → s.actions.get? call.id = some retained →
      (retained.outcome = .pending ∨ s.ticked.time < retained.expires) →
      (retained.operation ≠ call.operation ∨ retained.digest ≠ call.digest) →
      ∃ call', (s.exec (.stepAction c reply)).actionCalls.get? c = some call' ∧
        (call'.phase = .returned (.error ⟨.EINVAL, ""⟩) ∨
          (s.active = false ∨ s.expires ≤ s.time) ∧
            call'.phase = .returned (.error ⟨.ESTALE, ""⟩))) ∧
    -- afterwards the identity is stale
    (∀ c call call' reply, s.actionCalls.get? c = some call → call.phase = .inspect →
      (s.exec (.stepAction c reply)).actionCalls.get? c = some call' →
      call'.phase = .epoch → call'.before = s.started) ∧
    (∀ c call requested reply, s.actionCalls.get? c = some call → call.phase = .epoch →
      Storage.lockRequestEpoch call.id = .ok requested →
      call.id ∈ call.before →
      ∃ err call', (s.exec (.stepAction c reply)).actionCalls.get? c =
          some call' ∧ call'.phase = .returned (.error err) ∧
        (err = ⟨.ESTALE, ""⟩ ∨ (s.epochLocked reply.cancelled).2 = .error err)) ∧
    -- a query does not deny what was executed before it began
    (∀ q query receipt, s.queries.get? q = some query →
      query.phase = .answered (.ok receipt) → query.id ∈ query.before →
      ¬(receipt.operation = none ∧ receipt.outcome = .notExecuted)) := by
  intro s
  have hrun := Runs.Along.invariant (motive := fun t : Session ρ => Tracked t ∧ t.started.Nodup)
      (fun _ step ht htimely => ⟨ht.1.exec step, exec_nodup ht.1 htimely ht.2⟩)
      ⟨Tracked.initial history maxLockActions lease hclock, List.nodup_nil⟩
      htimely
  obtain ⟨h, hno⟩ := hrun
  refine ⟨hno, ?_, ?_, ?_, ?_⟩
  · intro c call retained reply hg hph hret hk hother
    have hrefused := inspectAction_retained hg hret hk hother
    simpa only [exec, stepAction, hg, hph] using hrefused
  · intro c call call' reply hg hph haf hepoch
    simp only [exec, stepAction, hg, hph] at haf
    exact inspectAction_before hg haf hepoch
  · intro c call requested reply hg hph hrequested hm
    have hstale := readEpoch_stale h hg hph hrequested hm reply.cancelled
    simpa only [exec, stepAction, hg, hph] using hstale
  · intro q query receipt hg hph hm
    exact (h.queries hg).truthful receipt hph hm

section Stalled

def firstID : FileActionID := [49, 58] ++ List.replicate 32 48

def silent : Reply Unit := ⟨none, (), true, none⟩

/-- Two calls for one action.  The first stops between its two looks. -/
def twoCalls : List (Step Unit) :=
  [.beginAction 0 firstID .fileOpenNodeRef (.ok []), .stepAction 0 silent,
    .stepAction 0 silent,
    .beginAction 1 firstID .fileOpenNodeRef (.ok []), .stepAction 1 silent,
    .stepAction 1 silent, .stepAction 1 silent, .stepAction 1 silent,
    .stepAction 0 silent]

/-- The clock stands still until the second call is over. -/
def leap (k : ℕ) : Time := if k < 13 then 0 else 20

lemma leap_monotone : Monotone leap := by
  refine monotone_nat_of_le_succ fun k => ?_
  unfold leap
  split_ifs
  · exact le_rfl
  · decide
  · omega
  · exact le_rfl

theorem stalled_call_executes_again : Monotone leap ∧
      (twoCalls.foldl exec (initial 10 100 1000 leap)).started = [firstID, firstID] :=
  ⟨leap_monotone, by decide +kernel⟩

lemma twoCalls_timely : Runs.Along exec Timely (initial 10 100 1000 fun _ => 0) twoCalls := by
  refine ⟨trivial, ?_, ?_, trivial, ?_, ?_, ?_, ?_, ?_, trivial⟩
  all_goals
    intro call hg hph
    cases hg
  -- only the two second looks have a deadline
  · cases hph
  · cases hph
  · cases hph
  · cases hph
  · decide +kernel
  · cases hph
  · decide +kernel

theorem file_actions_at_most_once_two_calls :
    (twoCalls.foldl exec (initial 10 100 1000 fun _ => 0)).started.Nodup :=
  (file_actions_at_most_once 10 100 1000 (fun _ => 0) monotone_const twoCalls twoCalls_timely).1

end Stalled

end Session

end ObjectStore
end RemoteFs
