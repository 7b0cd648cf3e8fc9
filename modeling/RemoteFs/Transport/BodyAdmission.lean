import RemoteFs.Lib.Callers
import RemoteFs.Storage.Failure

/-!
# Admission of HTTP bodies

`bodyAdmission` of `packages/transport/httprest/body.go`.  A step is a locked
section of one caller; a caller that waits looks again once its channel is closed or
its context is done.
-/

namespace RemoteFs.Transport

open Storage

inductive BodyPhase where
  /-- In the loop, waiting on a channel after the first look. -/
  | looking (reservation : ℕ) (channel : Option ℕ)
  /-- The context of a waiting caller is done. -/
  | leaving (err : Failure)
  | refused (err : Failure)
  /-- The caller holds the release function; `released` is its `sync.Once`. -/
  | admitted (reservation : ℕ) (released : Bool)

structure BodyAdmission where
  maxOperations : ℕ
  operations : ℤ
  maxBytes : ℕ
  bytes : ℤ
  maxWaiters : ℕ
  waiters : ℤ
  changed : ℕ
  callers : Table ℕ BodyPhase

namespace BodyAdmission

def newBodyAdmission (operations bytes waiters : ℕ) : BodyAdmission :=
  ⟨operations, 0, bytes, 0, waiters, 0, 0, .empty⟩

variable (a : BodyAdmission)

def acquire (reservation : ℤ) : BodyPhase :=
  if reservation < 0 ∨ a.maxBytes < reservation then
    .refused ⟨.EFBIG, s!"an admission reservation of {reservation} bytes " ++
      s!"cannot fit under the {a.maxBytes}-byte bound"⟩
  else .looking reservation.toNat none

/-- Whether a reservation fits now. -/
def Fits (reservation : ℕ) : Prop :=
  a.operations < a.maxOperations ∧ reservation ≤ a.maxBytes - a.bytes

instance (reservation : ℕ) : Decidable (a.Fits reservation) :=
  inferInstanceAs (Decidable (_ ∧ _))

/-- One iteration of the loop; `err` is what `ctx.Err()` gives. -/
def look (reservation : ℕ) (channel : Option ℕ) : Option Failure → BodyAdmission × BodyPhase
  | some err => (a, if channel.isSome then .leaving err else .refused err)
  | none =>
    if a.Fits reservation then
      ({ a with
        waiters := if channel.isSome then a.waiters - 1 else a.waiters
        operations := a.operations + 1
        bytes := a.bytes + reservation }, .admitted reservation false)
    else if channel.isSome then (a, .looking reservation (some a.changed))
    else if a.maxWaiters ≤ a.waiters then
      (a, .refused ⟨.EAGAIN,
        s!"the bounded admission queue already holds {a.maxWaiters} waiters"⟩)
    else ({ a with waiters := a.waiters + 1 }, .looking reservation (some a.changed))

def release (reservation : ℕ) : BodyAdmission :=
  { a with
    operations := a.operations - 1
    bytes := a.bytes - reservation
    changed := a.changed + 1 }

inductive Action where
  | acquire (reservation : ℤ)
  | look (err : Option Failure)
  | leave
  | release

/-- A caller goes to its next phase. -/
@[simp] def put (id : ℕ) (phase : BodyPhase) : BodyAdmission :=
  { a with callers := a.callers.set id phase }

/-- A step of one caller. -/
def exec (step : ℕ × Action) : BodyAdmission :=
  match a.callers.get? step.1, step.2 with
  | none, .acquire reservation => a.put step.1 (a.acquire reservation)
  | some (.looking reservation channel), .look err =>
    if err.isSome ∨ ∀ n ∈ channel, n < a.changed then
      (a.look reservation channel err).1.put step.1 (a.look reservation channel err).2
    else a
  | some (.leaving err), .leave => { a with waiters := a.waiters - 1 }.put step.1 (.refused err)
  | some (.admitted reservation false), .release =>
    (a.release reservation).put step.1 (.admitted reservation true)
  | _, _ => a

end BodyAdmission

namespace BodyPhase

/-- The operations, bytes and waiters a caller counts for; it is a waiter from its
first wait to its return. -/
@[simp] def holds : BodyPhase → ℤ × ℤ × ℤ
  | .admitted reservation false => (1, reservation, 0)
  | .looking _ (some _) | .leaving _ => (0, 0, 1)
  | _ => 0

@[simp] def channel? : BodyPhase → Option ℕ
  | .looking _ channel => channel
  | _ => none

@[simp] def reservation : BodyPhase → ℕ
  | .looking reservation _ | .admitted reservation _ => reservation
  | _ => 0

end BodyPhase

namespace BodyAdmission

def component (bounds : ℕ × ℕ × ℕ) : Component BodyAdmission BodyPhase (ℤ × ℤ × ℤ) where
  callers := callers
  counters a := (a.operations, a.bytes, a.waiters)
  changed := changed
  holds := BodyPhase.holds
  channel? := BodyPhase.channel?
  Ready a phase := a.Fits phase.reservation
  Within a := (a.maxOperations, a.maxBytes, a.maxWaiters) = bounds ∧
    a.operations ≤ a.maxOperations ∧ a.bytes ≤ a.maxBytes ∧ a.waiters ≤ a.maxWaiters

variable {a : BodyAdmission} {bounds : ℕ × ℕ × ℕ} (h : (component bounds).Sound a) {id : ℕ}

include h

lemma put_sound {next : BodyPhase}
    (hsame : (a.callers.get? id).elim 0 BodyPhase.holds = next.holds)
    (hchannel : ∀ channel, next.channel? = some channel →
      channel = a.changed ∧ ¬a.Fits next.reservation) :
    (component bounds).Sound (a.put id next) :=
  h.goes ⟨rfl, congrArg _ hsame, .inr ⟨rfl, fun _ hready => hready⟩, hchannel, h.within⟩

lemma look_sound {reservation : ℕ} {channel : Option ℕ}
    (hg : a.callers.get? id = some (.looking reservation channel))
    (err : Option Failure) : (component bounds).Sound
      ((a.look reservation channel err).1.put id (a.look reservation channel err).2) := by
  obtain ⟨hbounds, hoperations, hbytes, hwaiters⟩ := h.within
  unfold BodyAdmission.look
  cases err with
  | some err => cases channel <;> exact put_sound h (by simp [hg]) (by simp)
  | none =>
    by_cases hfits : a.Fits reservation
    · simp only [if_pos hfits]
      refine h.goes (?_ : Component.Goes _ a _ id (.admitted reservation false))
      refine ⟨rfl, ?_, .inr ⟨rfl, fun phase hphase => ?_⟩, by simp [component], hbounds, ?_⟩
      · cases channel <;> simp [component, hg]
      · simp only [component, Fits, put] at hphase ⊢
        omega
      · unfold Fits at hfits
        simp only [put]
        grind
    simp only [if_neg hfits]
    cases channel with
    | some channel => exact put_sound h (by simp [hg]) (by simp [hfits])
    | none =>
      simp only [Option.isSome_none, Bool.false_eq_true, if_false]
      split_ifs with hfull
      · exact put_sound h (by simp [hg]) (by simp)
      refine h.goes (?_ : Component.Goes _ a _ id (.looking reservation (some a.changed)))
      refine ⟨rfl, by simp [component, hg], .inr ⟨rfl, fun _ hready => hready⟩, ?_,
        hbounds, hoperations, hbytes, ?_⟩
      · simpa [component, Fits] using hfits
      · simp only [put]
        omega

lemma release_sound {reservation : ℕ}
    (hg : a.callers.get? id = some (.admitted reservation false)) :
    (component bounds).Sound ((a.release reservation).put id (.admitted reservation true)) := by
  obtain ⟨hbounds, hoperations, hbytes, hwaiters⟩ := h.within
  unfold BodyAdmission.release
  refine h.goes (?_ : Component.Goes _ a _ id (.admitted reservation true))
  refine ⟨rfl, by simp [component, hg], .inl (Nat.lt_succ_self _), by simp [component],
    hbounds, ?_, ?_, hwaiters⟩
  all_goals simp only [put]
  all_goals omega

lemma exec_sound (step : ℕ × Action) : (component bounds).Sound (a.exec step) := by
  unfold BodyAdmission.exec
  split
  · next hg _ =>
    unfold BodyAdmission.acquire
    split_ifs <;> exact put_sound h (by simp [hg]) (by simp)
  · next hg _ =>
    split_ifs
    · exact look_sound h hg _
    · exact h
  · next err hg _ =>
    obtain ⟨hbounds, hoperations, hbytes, hwaiters⟩ := h.within
    refine h.goes (?_ : Component.Goes _ a _ step.1 (.refused err))
    refine ⟨rfl, by simp [component, hg], .inr ⟨rfl, fun _ hready => hready⟩,
      by simp [component], hbounds, hoperations, hbytes, ?_⟩
    simp only [put]
    omega
  · next hg _ => exact release_sound h hg
  · exact h

omit h

theorem body_admissions_balanced (operations bytes waiters : ℕ) (steps : List (ℕ × Action)) :
    let a := steps.foldl exec (newBodyAdmission operations bytes waiters)
    (a.operations, a.bytes, a.waiters) = a.callers.sum (fun _ => BodyPhase.holds) ∧
    a.operations ≤ operations ∧ a.bytes ≤ bytes ∧ a.waiters ≤ waiters ∧
    -- a release gives back what was admitted and wakes the waiters; a second one does nothing
    (∀ id reservation, a.callers.get? id = some (.admitted reservation false) →
      let a' := a.exec (id, .release)
      a'.callers.get? id = some (.admitted reservation true) ∧
        a'.operations = a.operations - 1 ∧ a'.bytes = a.bytes - reservation ∧
        a.changed < a'.changed) ∧
    (∀ id reservation, a.callers.get? id = some (.admitted reservation true) →
      a.exec (id, .release) = a) ∧
    -- a waiter whose context is done is one no longer
    (∀ id reservation channel err,
      a.callers.get? id = some (.looking reservation (some channel)) →
      let a' := (a.exec (id, .look (some err))).exec (id, .leave)
      a'.callers.get? id = some (.refused err) ∧ a'.waiters = a.waiters - 1) ∧
    -- the channel of a caller that could be admitted has been closed
    ∀ id reservation channel, a.callers.get? id = some (.looking reservation (some channel)) →
      a.Fits reservation → channel < a.changed := by
  intro a
  have h : (component (operations, bytes, waiters)).Sound a := by
    refine Runs.invariant (motive := Component.Sound _) (fun _ step h => exec_sound h step)
      (.of_empty rfl rfl ?_) steps
    exact ⟨rfl, Int.natCast_nonneg _, Int.natCast_nonneg _, Int.natCast_nonneg _⟩
  obtain ⟨hbounds, hwithin⟩ := h.within
  simp only [Prod.mk.injEq] at hbounds
  obtain ⟨hoperations, hbytes, hwaiters⟩ := hbounds
  rw [hoperations, hbytes, hwaiters] at hwithin
  refine ⟨h.counters, hwithin.1, hwithin.2.1, hwithin.2.2, fun id reservation hg => ?_,
    fun id reservation hg => ?_, fun id reservation channel err hg => ?_,
    fun id reservation channel hg hfits => h.closed hg rfl hfits⟩
  · simp [exec, hg, release]
  · simp only [exec, hg]
  · simp [exec, hg, look]

end BodyAdmission

end RemoteFs.Transport
