import RemoteFs.Lib.Callers
import RemoteFs.Storage.Failure

/-!
# Admission of mutations to be confirmed

`expect`, `forget`, `change` and `Close` of `packages/storage/replicated`.  A step is
a section under `mu`; a caller that waits looks again once its channel is closed, its
context is done or the lifetime of the storage has ended.  What a mutation does
between its admission and `forget` does not touch the counters, and an opening file
session counts apart from the `expect` it makes.
-/

namespace RemoteFs.Replicated

open Storage

inductive Phase where
  /-- In the loop of `expect`, waiting on a channel after the first look. -/
  | expecting (op path : String) (channel : Option ℕ)
  | refused (err : Failure)
  | confirming
  | forgotten
  | opening
  | opened
  /-- In `Close` before its wait. -/
  | stopping
  | draining (channel : ℕ)
  | drained

structure Confirmations where
  MaxActiveConfirmations : ℕ
  MaxWaitingConfirmations : ℕ
  confirmationCapacity : ℕ := 0
  activeConfirmations : ℤ := 0
  confirmationWaiters : ℤ := 0
  fileSessionOpening : ℤ := 0
  closing : Bool := false
  /-- The lifetime has ended. -/
  stop : Bool := false
  failure : Option String := some "the copy of this volume has not been built yet"
  callers : Table ℕ Phase := .empty

def pathError (op path : String) (err : Failure) : Failure :=
  ⟨err.errno, op ++ " " ++ path ++ ": " ++ err.text⟩

def confirmationRefusal (op path : String) (errno : Errno) (cause : String) : Failure :=
  pathError op path
    ⟨errno, "mutation confirmation was not admitted before the mutation was sent: " ++ cause⟩

namespace Confirmations

variable (s : Confirmations)

def usable (op path : String) : Option Failure :=
  if s.closing then
    some (pathError op path (.mk Errno.EIO "the replicated storage is closing"))
  else s.failure.map fun failure => pathError op path (.mk Errno.EIO
    ("the copy of this volume is not being kept current, so nothing about it can be answered: "
      ++ failure))

/-- `change` up to its `expect`; `cleaned` is what `CleanPath` fails with. -/
def change (op path : String) (cleaned : Option Failure) : Phase :=
  match s.usable op path with
  | some err => .refused err
  | none => cleaned.elim (.expecting op path none) fun err => .refused (pathError op path err)

/-- A caller leaves `expect` without a confirmation. -/
def leave (channel : Option ℕ) : Confirmations :=
  if channel.isSome then
    { s with
      confirmationWaiters := s.confirmationWaiters - 1
      confirmationCapacity := s.confirmationCapacity + 1 }
  else s

/-- One iteration of the loop. -/
def expect (op path : String) (channel : Option ℕ) : Confirmations × Phase :=
  if s.closing then
    (s.leave channel,
      .refused (confirmationRefusal op path .EAGAIN "the replicated storage is closing"))
  else match s.failure with
  | some failure => (s.leave channel, .refused (pathError op path (.mk Errno.EIO
      ("the copy of this volume is not being kept current, so the mutation cannot be " ++
        "confirmed: " ++ failure))))
  | none =>
    if s.activeConfirmations < s.MaxActiveConfirmations then
      ({ s with
        confirmationWaiters :=
          if channel.isSome then s.confirmationWaiters - 1 else s.confirmationWaiters
        activeConfirmations := s.activeConfirmations + 1 }, .confirming)
    else if channel.isSome then (s, .expecting op path (some s.confirmationCapacity))
    else if s.confirmationWaiters = s.MaxWaitingConfirmations then
      (s, .refused (confirmationRefusal op path .EAGAIN
        (s!"{s.MaxWaitingConfirmations} callers are already waiting for mutation " ++
          "confirmation capacity")))
    else
      ({ s with confirmationWaiters := s.confirmationWaiters + 1 },
        .expecting op path (some s.confirmationCapacity))

def forget : Confirmations :=
  if s.activeConfirmations = 0 then s
  else { s with
    activeConfirmations := s.activeConfirmations - 1
    confirmationCapacity := s.confirmationCapacity + 1 }

/-- The admission of a file session to be opened; `full` is the test of its limit. -/
def newFileSession (full : Bool) : Confirmations × Phase :=
  if s.closing ∨ full then
    (s, .refused ⟨.EAGAIN, "replicated file session admission is closed or full"⟩)
  else ({ s with fileSessionOpening := s.fileSessionOpening + 1 }, .opening)

def registered : Confirmations :=
  { s with
    fileSessionOpening := s.fileSessionOpening - 1
    confirmationCapacity := s.confirmationCapacity + 1 }

def close : Confirmations :=
  { s with closing := true, confirmationCapacity := s.confirmationCapacity + 1 }

def Idle : Prop :=
  s.activeConfirmations = 0 ∧ s.confirmationWaiters = 0 ∧ s.fileSessionOpening = 0

instance : Decidable s.Idle := inferInstanceAs (Decidable (_ ∧ _ ∧ _))

/-- The test of the loop of `Close`. -/
def drain : Confirmations × Phase :=
  ({ s with stop := true }, if s.Idle then .drained else .draining s.confirmationCapacity)

inductive Action where
  | change (op path : String) (cleaned : Option Failure)
  | expect
  | cancel (errno : Errno) (cause : String)
  | forget
  | newFileSession (full : Bool)
  | registered
  | close
  | drain

/-- A caller goes to its next phase. -/
@[simp] def put (id : ℕ) (reached : Confirmations × Phase) : Confirmations :=
  { reached.1 with callers := reached.1.callers.set id reached.2 }

/-- A section of one caller. -/
def call (id : ℕ) (action : Action) : Confirmations :=
  match s.callers.get? id, action with
  | none, .change op path cleaned => put id (s, s.change op path cleaned)
  | some (.expecting op path channel), .expect =>
    if s.stop ∨ ∀ n ∈ channel, n < s.confirmationCapacity then put id (s.expect op path channel)
    else s
  | some (.expecting op path (some channel)), .cancel errno cause =>
    put id (s.leave (some channel), .refused (confirmationRefusal op path errno cause))
  | some .confirming, .forget => put id (s.forget, .forgotten)
  | none, .newFileSession full => put id (s.newFileSession full)
  | some .opening, .registered => put id (s.registered, .opened)
  | none, .close => put id (s.close, .stopping)
  | some .stopping, .drain => put id s.drain
  | some (.draining channel), .drain =>
    if channel < s.confirmationCapacity then put id s.drain else s
  | _, _ => s

inductive Step where
  | call (id : ℕ) (action : Action)
  /-- `fail`, which wakes the callers of `expect`. -/
  | fail (err : String)
  /-- The other sections of the stream that set `failure`. -/
  | stream (failure : Option String)

def exec : Step → Confirmations
  | .call id action => s.call id action
  | .fail err =>
    { s with failure := some err, confirmationCapacity := s.confirmationCapacity + 1 }
  | .stream failure => { s with failure }

end Confirmations

namespace Phase

/-- The confirmations, waiters and opening sessions a caller counts for. -/
@[simp] def holds : Phase → ℤ × ℤ × ℤ
  | .confirming => (1, 0, 0)
  | .expecting _ _ (some _) => (0, 1, 0)
  | .opening => (0, 0, 1)
  | _ => 0

@[simp] def channel? : Phase → Option ℕ
  | .expecting _ _ channel => channel
  | .draining channel => some channel
  | _ => none

@[simp] def closer : Phase → Bool
  | .stopping | .draining _ | .drained => true
  | _ => false

@[simp] def passed : Phase → Bool
  | .drained => true
  | _ => false

lemma holds_nonneg (phase : Phase) : 0 ≤ phase.holds := by
  unfold holds
  split <;> simp [Prod.le_def]

end Phase

namespace Confirmations

def Ready (s : Confirmations) : Phase → Prop
  | .expecting _ _ _ => s.activeConfirmations < s.MaxActiveConfirmations
  | .draining _ => s.Idle
  | _ => False

def component (bounds : ℕ × ℕ) : Closable Confirmations Phase (ℤ × ℤ × ℤ) where
  callers := callers
  counters s := (s.activeConfirmations, s.confirmationWaiters, s.fileSessionOpening)
  changed := confirmationCapacity
  holds := Phase.holds
  channel? := Phase.channel?
  Ready := Ready
  Within s := (s.MaxActiveConfirmations, s.MaxWaitingConfirmations) = bounds ∧
    s.activeConfirmations ≤ s.MaxActiveConfirmations ∧
    s.confirmationWaiters ≤ s.MaxWaitingConfirmations
  Closing s := s.closing
  load s := s.activeConfirmations + s.confirmationWaiters + s.fileSessionOpening
  closer := Phase.closer
  passed := Phase.passed

variable {s : Confirmations} {bounds : ℕ × ℕ} (h : (component bounds).Sound s) {id : ℕ}

include h

lemma nonneg : 0 ≤ s.activeConfirmations ∧ 0 ≤ s.confirmationWaiters ∧
    0 ≤ s.fileSessionOpening := by
  simpa [component, Prod.le_def] using h.nonneg Phase.holds_nonneg

/-- A section takes its caller to a phase and the counters with it. -/
lemma moves_to {capacity : ℕ} {closing stop : Bool}
    (hcount : (active, waiters, opening) + (s.callers.get? id).elim 0 Phase.holds =
      (s.activeConfirmations, s.confirmationWaiters, s.fileSessionOpening) + next.holds)
    (hchannel : ∀ channel, next.channel? = some channel → channel = capacity ∧ ¬Ready { s with
        activeConfirmations := active
        confirmationWaiters := waiters
        fileSessionOpening := opening } next := by simp) (hcloser : next.closer → closing ∧
      (next.passed → active = 0 ∧ waiters = 0 ∧ opening = 0) := by simp)
    (hadmits : s.closing → closing ∧ active + waiters + opening ≤
      s.activeConfirmations + s.confirmationWaiters + s.fileSessionOpening := by grind)
    (hlimits : active ≤ max s.activeConfirmations s.MaxActiveConfirmations ∧
      waiters ≤ max s.confirmationWaiters s.MaxWaitingConfirmations := by omega)
    (hnotified : s.confirmationCapacity < capacity ∨ s.confirmationCapacity = capacity ∧
      s.activeConfirmations ≤ active ∧ s.fileSessionOpening ≤ opening ∧
      (active = 0 → s.confirmationWaiters ≤ waiters) := by omega) :
    ∃ next', (component bounds).Moves s (put id ({ s with
      activeConfirmations := active
      confirmationWaiters := waiters
      fileSessionOpening := opening
      confirmationCapacity := capacity
      closing, stop }, next)) id next' := by
  obtain ⟨hbounds, hwithin⟩ := h.within
  have hpos := nonneg h
  refine ⟨next, ⟨rfl, hcount, hnotified.imp_right fun hmore => ⟨hmore.1, fun phase hready => ?_⟩,
    fun channel hnext => ?_, hbounds, ?_⟩, hadmits, fun hnext => ?_⟩
  · cases phase <;> simp only [component, Ready, Idle, put] at hready ⊢ <;> omega
  · obtain ⟨heq, hnot⟩ := hchannel channel hnext
    exact ⟨heq, by cases next <;> exact hnot⟩
  · simp only [put]
    omega
  · refine (hcloser hnext).imp_right fun hidle hpassed => ?_
    simp only [component, put, hidle hpassed, add_zero, le_refl]

lemma leave_moves {channel : Option ℕ}
    (hg : s.callers.get? id = some (.expecting op path channel)) (err : Failure) :
    ∃ next, (component bounds).Moves s (put id (s.leave channel, .refused err)) id next := by
  unfold leave
  cases channel with
  | none | some => exact moves_to h (by simp [hg])

lemma expect_moves {channel : Option ℕ}
    (hg : s.callers.get? id = some (.expecting op path channel)) :
    ∃ next, (component bounds).Moves s (put id (s.expect op path channel)) id next := by
  have hpos := nonneg h
  have hwithin := h.within.2.2
  unfold expect
  split
  · exact leave_moves h hg _
  split
  · exact leave_moves h hg _
  cases channel with
  | none =>
    simp only [Option.isSome_none, Bool.false_eq_true, if_false]
    split_ifs with hroom hfull
    · exact moves_to h (by simp [hg])
    · exact moves_to h (by simp [hg])
    · exact moves_to h (by simp [hg]) (by simpa [Ready] using hroom)
  | some channel =>
    simp only [Option.isSome_some, if_true]
    split_ifs with hroom
    · exact moves_to h (by simp [hg])
    · exact moves_to h (by simp [hg]) (by simpa [Ready] using hroom)

lemma forget_moves (hg : s.callers.get? id = some .confirming) :
    ∃ next, (component bounds).Moves s (put id (s.forget, .forgotten)) id next := by
  have hsome : 1 ≤ s.activeConfirmations := (h.holds_le Phase.holds_nonneg hg).1
  unfold forget
  rw [if_neg (by omega)]
  exact moves_to h (by simp [hg])

lemma newFileSession_moves (hg : s.callers.get? id = none) (full : Bool) :
    ∃ next, (component bounds).Moves s (put id (s.newFileSession full)) id next := by
  unfold newFileSession
  split_ifs with hrefused
  · exact moves_to h (by simp [hg])
  · exact moves_to h (by simp [hg])

lemma drain_moves (hg : s.callers.get? id = some phase) (hphase : phase.holds = 0)
    (hclosing : s.closing) : ∃ next, (component bounds).Moves s (put id s.drain) id next := by
  have hcount : ∀ next : Phase, next.holds = 0 →
      (s.activeConfirmations, s.confirmationWaiters, s.fileSessionOpening) +
        (s.callers.get? id).elim 0 Phase.holds =
      (s.activeConfirmations, s.confirmationWaiters, s.fileSessionOpening) + next.holds := by
    intro next hnext
    rw [hg, Option.elim_some, hphase, hnext]
  unfold drain
  split_ifs with hidle
  · exact moves_to h (hcount _ rfl) (by simp) fun _ => ⟨hclosing, fun _ => hidle⟩
  · exact moves_to h (hcount _ rfl) (by simpa [Ready, Idle] using hidle)
      fun _ => ⟨hclosing, by simp⟩

omit h

lemma call_moves (h : (component bounds).Orderly s) (id : ℕ) (action : Action) :
    s.call id action = s ∨ ∃ next, (component bounds).Moves s (s.call id action) id next := by
  have hs := h.toSound
  unfold call
  split
  · next cleaned hg =>
    unfold change
    split
    · exact .inr (moves_to hs (by simp [hg]))
    · cases cleaned with
      | none | some => exact .inr (moves_to hs (by simp [hg]))
  · next hg =>
    split_ifs
    · exact .inr (expect_moves hs hg)
    · exact .inl rfl
  · next hg => exact .inr (leave_moves hs hg _)
  · next hg => exact .inr (forget_moves hs hg)
  · next hg => exact .inr (newFileSession_moves hs hg _)
  · next hg => exact .inr (moves_to hs (by simp [hg]))
  · next hg => exact .inr (moves_to hs (by simp [hg]))
  · next hg => exact .inr (drain_moves hs hg rfl (h.closers _ _ hg rfl).1)
  · next hg =>
    split_ifs
    · exact .inr (drain_moves hs hg rfl (h.closers _ _ hg rfl).1)
    · exact .inl rfl
  · exact .inl rfl

lemma exec_orderly (h : (component bounds).Orderly s) (step : Step) :
    (component bounds).Orderly (s.exec step) := by
  cases step with
  | call id action =>
    rcases call_moves h id action with heq | ⟨next, hmoves⟩
    · exact (congrArg _ heq).mpr h
    · exact h.moves hmoves
  | fail err =>
    refine ⟨⟨h.counters, fun id phase channel hg hchannel => ?_, h.within⟩, h.closers⟩
    have hle : channel ≤ s.confirmationCapacity := (h.watched hg hchannel).1
    exact ⟨hle.trans (Nat.le_succ _), fun heq => by simp [heq, component, exec] at hle⟩
  | stream failure => exact ⟨⟨h.counters, h.watched, h.within⟩, h.closers⟩

/-- Every run of the callers and the stream. -/
theorem confirmations_balanced (active waiting : ℕ) (steps : List Step) :
    let s := steps.foldl exec
      { MaxActiveConfirmations := active, MaxWaitingConfirmations := waiting }
    (s.activeConfirmations, s.confirmationWaiters, s.fileSessionOpening) =
      s.callers.sum (fun _ => Phase.holds) ∧
    s.activeConfirmations ≤ active ∧ s.confirmationWaiters ≤ waiting ∧
    -- with capacity free the channel of a caller that waits has been closed
    (∀ id op path channel, s.callers.get? id = some (.expecting op path (some channel)) →
      s.activeConfirmations < active → channel < s.confirmationCapacity) ∧
    -- a confirmation is given back, and a caller that is cancelled waits no longer
    (∀ id, s.callers.get? id = some .confirming →
      let s' := s.call id .forget
      s'.callers.get? id = some .forgotten ∧
        s'.activeConfirmations = s.activeConfirmations - 1) ∧
    (∀ id op path channel errno cause,
      s.callers.get? id = some (.expecting op path (some channel)) →
      let s' := s.call id (.cancel errno cause)
      s'.callers.get? id = some (.refused (confirmationRefusal op path errno cause)) ∧
        s'.confirmationWaiters = s.confirmationWaiters - 1) ∧
    ∀ id, s.callers.get? id = some .drained →
      s.activeConfirmations = 0 ∧ s.confirmationWaiters = 0 := by
  intro s
  have h : (component (active, waiting)).Orderly s := by
    refine Runs.invariant (motive := Closable.Orderly _) (fun _ step h => exec_orderly h step)
      (.of_empty rfl rfl ?_) steps
    exact ⟨rfl, Int.natCast_nonneg _, Int.natCast_nonneg _⟩
  have hpos := nonneg h.toSound
  obtain ⟨hbounds, hactive, hwaiters⟩ := h.within
  simp only [Prod.mk.injEq] at hbounds
  obtain ⟨hmaxActive, hmaxWaiting⟩ := hbounds
  refine ⟨h.counters, hmaxActive ▸ hactive, hmaxWaiting ▸ hwaiters,
    fun id op path channel hg hfree => h.closed hg rfl ?_, fun id hg => ?_,
    fun id op path channel errno cause hg => by simp [call, hg, leave], fun id hg => ?_⟩
  · simp only [component, Ready, hmaxActive]
    exact hfree
  · have hsome : 1 ≤ s.activeConfirmations := (h.holds_le Phase.holds_nonneg hg).1
    simp [call, hg, forget, show s.activeConfirmations ≠ 0 by omega]
  · have hload : s.activeConfirmations + s.confirmationWaiters + s.fileSessionOpening ≤ 0 :=
      (h.closers id _ hg rfl).2 rfl
    omega

end Confirmations

end RemoteFs.Replicated
