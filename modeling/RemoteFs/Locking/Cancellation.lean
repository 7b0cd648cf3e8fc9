import RemoteFs.Locking.Exclusion

/-!
# Receipts and cancellation

A receipt with a final outcome stays as it is.  A cancellation is recorded in the
action only once the action has ended together with the grant it was given, and
nothing gives an ended action a grant; so a cancelled request holds no lease from
then on, whatever reaches the authority later.
-/

namespace RemoteFs.Locking

open Authority

variable {a : Authority} {ref : ActionRef}

/-! ## Final receipts -/

lemma Core.verdict_run (h : Core a) (hget : a.actionRecords.get? ref = some action)
    (hse : action.receipt.outcome ≠ .pending) (steps : List Step) :
    ∃ action', (steps.foldl exec a).actionRecords.get? ref = some action' ∧
      action'.verdict = action.verdict := by
  refine (Core.run (motive := fun b => ∃ action', b.actionRecords.get? ref = some action' ∧
    action'.verdict = action.verdict) ?_ h ⟨action, hget, rfl⟩ steps).2
  rintro t b b' - hmv ⟨action', hget', hs⟩
  have hreceipt := (Prod.mk.inj hs).1
  obtain ⟨last, hlast, hnext⟩ := hmv.continues hget'
  exact ⟨last, hlast, (hnext.verdict (hreceipt ▸ hse)).trans hs⟩

/-! ## Cancelled requests -/

lemma Authority.Revoked.move (h : Core a) (hrevoked : a.Revoked ref) (hmv : Move t a a') :
    a'.Revoked ref := by
  obtain ⟨action, hget, hse⟩ := hrevoked.settled
  obtain ⟨action', hget', hnext⟩ := hmv.continues hget
  have hreceipt := (Prod.mk.inj (hnext.verdict hse)).1
  refine ⟨⟨action', hget', hreceipt ▸ hse⟩, ?_⟩
  have hold : ∀ {id}, (ref, id) ∈ a.issued →
      ∃ g, a'.grantRecords.get? id = some g ∧ g.state ≠ .active := by
    intro id hid
    obtain ⟨g, hg, hended⟩ := hrevoked.ended hid
    obtain ⟨g', hg', hfollows⟩ := h.follows hmv hg
    exact ⟨g', hg', hfollows hended ▸ hended⟩
  cases hmv with
  | issue job hget₀ hpending =>
    intro id hid
    rcases List.mem_cons.mp hid with heq | hid
    · obtain ⟨rfl, -⟩ := Prod.mk.inj heq
      cases hget.symm.trans hget₀
      exact absurd hpending hse
    · exact hold hid
  | _ =>
    intro id hid
    exact hold hid

def Authority.Cancellations (a : Authority) : Prop :=
  ∀ ref action, a.actionRecords.get? ref = some action →
    action.cancel.isSome → a.Revoked ref

lemma Authority.Cancellations.move (h : Core a) (hmv : Move t a a')
    (hcancelled : a.Cancellations) : a'.Cancellations := by
  intro ref action' hget' hcancel
  rcases hmv.entry ref with ⟨-, hnone⟩ | ⟨hget, hf, hnext⟩ |
    ⟨receipt, tombstone, -, hf⟩
  · cases hget'.symm.trans hnone
  · cases hget'.symm.trans hf
    rcases hnext.cancel with hs | hrevoked
    · exact (hcancelled ref _ hget (hs ▸ hcancel)).move h hmv
    · exact hrevoked.move h hmv
  · cases hget'.symm.trans hf
    cases hcancel

lemma cancelAction_recorded (hdo : (a.cancelAction o ref action).result = .ok (.done result)) :
    ∃ found, (a.cancelAction o ref action).state.actionRecords.get? ref =
      some found ∧ found.cancel.isSome := by
  unfold cancelAction at hdo ⊢
  split_ifs at hdo ⊢ with hkind hbusy
  · cases hdo
  dsimp only at hdo ⊢
  split at hdo
  · cases hdo
  · rename_i record hrecord
    obtain ⟨found, hf, hcancel⟩ := Option.bind_eq_some_iff.mp hrecord
    exact ⟨found, hf, by rw [hcancel]; rfl⟩

lemma cancel_recorded (hdo : (a.cancel owner request).result = .ok (.done result)) :
    ∃ action, (a.cancel owner request).state.actionRecords.get?
      ⟨owner.owner, request⟩ = some action ∧ action.cancel.isSome := by
  unfold Authority.cancel at hdo ⊢
  obtain ⟨-, -, heq, hdo⟩ := Outcome.andThen_eq_ok hdo
  rw [heq]
  obtain ⟨o, -, heq, hdo⟩ := Outcome.andThen_eq_ok hdo
  rw [heq]
  split at hdo
  · cases hdo
  rename_i hvalid
  rw [if_neg hvalid]
  split at hdo
  · exact cancelAction_recorded hdo
  · split_ifs at hdo ⊢ with hfull
    exact cancelAction_recorded hdo

/-- In every run an acquisition is given at most one grant, a final receipt
never changes, and after `Cancel` has answered no grant of the request is active
in any later state. -/
theorem acquisition_settles_once {options : Options}
    {verify : Capability → Except Fault Unit} {now : ℕ → Time}
    {maxLease : Duration} {start : Option Time} {a₀ : Authority}
    (hnew : Authority.new options verify now maxLease start = .ok a₀) (before after : List Step) :
    let a := before.foldl exec a₀
    (∀ ref id id', (ref, id) ∈ a.issued → (ref, id') ∈ a.issued → id = id') ∧
      (∀ id, (a.grantRecords.get? id).isSome → ∃ ref, (ref, id) ∈ a.issued) ∧
      (∀ ref action, a.actionRecords.get? ref = some action → action.receipt.outcome ≠ .pending →
          ∃ action', (after.foldl exec a).actionRecords.get? ref =
            some action' ∧ action'.receipt = action.receipt) ∧
      ∀ owner request result, (a.cancel owner request).result = .ok (.done result) →
          let b := after.foldl exec (exec a (.cancel owner request))
          ∀ id, (⟨owner.owner, request⟩, id) ∈ b.issued →
            ∃ g, b.grantRecords.get? id = some g ∧ g.state ≠ .active := by
  intro a
  have hcore : Core a := Core.reached hnew before
  have hcancelled : a.Cancellations := by
    obtain ⟨-, -, from_, -, rfl⟩ := new_eq_ok hnew
    refine (Core.run (motive := Authority.Cancellations)
      (fun h hmv hc => hc.move h hmv) (Core.initial options verify now
        maxLease from_) ?_ before).2
    intro ref action hget
    rw [show (Authority.initial options verify now maxLease
      from_).actionRecords.get? ref = none from Table.get?_empty ref] at hget
    cases hget
  refine ⟨fun ref id id' => hcore.issued.once, ?_, ?_, ?_⟩
  · intro id hsome
    obtain ⟨g, hg⟩ := Option.isSome_iff_exists.mp hsome
    exact hcore.issued.complete hg
  · intro ref action hget hse
    obtain ⟨action', hget', hs⟩ := hcore.verdict_run hget hse after
    exact ⟨action', hget', (Prod.mk.inj hs).1⟩
  · intro owner request result hdo b
    have hchain := exec_chain hcore (.cancel owner request)
    have hstep := Chain.invariant (motive := fun c => Core c ∧ c.Cancellations)
        (fun c c' hmv hc => ⟨hc.1.move hmv, hc.2.move hc.1 hmv⟩) hchain
        ⟨hcore, hcancelled⟩
    obtain ⟨action, hget, hrecorded⟩ := cancel_recorded hdo
    have hrevoked := hstep.2 _ action hget hrecorded
    intro id hid
    exact (Core.run (motive := fun c => c.Revoked ⟨owner.owner, request⟩)
      (fun h hmv hc => hc.move h hmv) hstep.1 hrevoked after).2.ended hid

def isDone {α : Type} : Except Fault (Turn α) → Bool
  | .ok (.done _) => true
  | _ => false

lemma exists_done {α : Type} {answer : Except Fault (Turn α)} (h : isDone answer = true) :
    ∃ result, answer = .ok (.done result) := by
  unfold isDone at h
  split at h
  · exact ⟨_, rfl⟩
  · cases h

def Sample.locked : List Step :=
  Sample.enter ++ Sample.lock ⟨1, 2⟩ [9] 3 .exclusive (1000 * millisecond) 0

/-- A granted request is cancelled, and its grant ends. -/
theorem acquisition_settles_once_of_lock :
    let b := exec (Sample.locked.foldl exec Sample.fresh) (.cancel ⟨1, 2⟩ [9])
    (Sample.locked.foldl exec Sample.fresh).liveGrants 3 = [1] ∧ (⟨2, [9]⟩, 1) ∈ b.issued ∧
      ∃ g, b.grantRecords.get? 1 = some g ∧ g.state ≠ .active := by
  have hissued : ((⟨2, [9]⟩, 1) : ActionRef × GrantID) ∈
      (exec (Sample.locked.foldl exec Sample.fresh) (.cancel ⟨1, 2⟩ [9])).issued := by
    decide +kernel
  have hanswer : isDone ((Sample.locked.foldl exec Sample.fresh).cancel ⟨1, 2⟩ [9]).result =
      true := by
    decide +kernel
  obtain ⟨result, hdone⟩ := exists_done hanswer
  have hends := (acquisition_settles_once Sample.new_fresh Sample.locked []).2.2.2
    ⟨1, 2⟩ [9] result hdone 1 hissued
  exact ⟨by decide +kernel, hissued, hends⟩

end RemoteFs.Locking
