import RemoteFs.Locking.Frames

/-!
# Settled actions

A receipt with a final outcome is never written again.  An acquisition gets its
grant in the move that settles it, so `issued` names at most one grant for each
action, and every grant is named there.
-/

namespace RemoteFs.Locking

open Authority

variable {a a' : Authority} {t : Terms} {ref : ActionRef}

/-- What the owner of a settled action can rely on. -/
def ActionRecord.verdict (action : ActionRecord) : ActionReceipt × Option GrantID :=
  (action.receipt, action.grant)

def ActionRecord.request (action : ActionRecord) : Option AcquireRequest × Option RenewRequest :=
  (action.receipt.acquire, action.receipt.renew)

/-- What a move leaves of the record of an action: the request, the receipt of a
settled action, and the cancellation of one that is not revoked. -/
structure ActionRecord.Continues (action : ActionRecord) (a : Authority)
    (ref : ActionRef) (action' : ActionRecord) : Prop where
  request : action'.request = action.request
  verdict : action.receipt.outcome ≠ .pending → action'.verdict = action.verdict
  cancel : action'.cancel = action.cancel ∨ a.Revoked ref

/-- What the table of actions holds under one name before and after a move. -/
inductive Authority.Entry (a a' : Authority) (ref : ActionRef) : Prop
  | absent (hget : a.actionRecords.get? ref = none) (hget' : a'.actionRecords.get? ref = none)
  | known {action action' : ActionRecord} (hget : a.actionRecords.get? ref = some action)
      (hget' : a'.actionRecords.get? ref = some action')
      (hnext : action.Continues a ref action')
  | enrolled (receipt : ActionReceipt) (tombstone : Bool) (hget : a.actionRecords.get? ref = none)
      (hget' : a'.actionRecords.get? ref = some (.enrolled receipt tombstone))

lemma Authority.Entry.of_agree (hagree : Table.Agree (fun action : ActionRecord =>
      (action.request, action.verdict, action.cancel)) a.actionRecords
        a'.actionRecords) : a.Entry a' ref := by
  cases hget : a.actionRecords.get? ref with
  | none =>
    have hs := hagree ref
    rw [hget] at hs
    exact .absent hget (Option.map_eq_none_iff.mp hs)
  | some action =>
    obtain ⟨action', hget', hs⟩ := hagree.symm.exists hget
    simp only [Prod.mk.injEq] at hs
    obtain ⟨hrequest, hverdict, hcancel⟩ := hs
    exact .known hget hget' ⟨hrequest.symm, fun _ => hverdict.symm, .inl hcancel.symm⟩

lemma Authority.Entry.of_eq (hs : a'.actionRecords.get? ref = a.actionRecords.get? ref) :
    a.Entry a' ref := by
  cases hget : a.actionRecords.get? ref with
  | none => exact .absent hget (hs.trans hget)
  | some action => exact .known hget (hs.trans hget) ⟨rfl, fun _ => rfl, .inl rfl⟩

lemma Move.entry (hmv : Move t a a') (ref : ActionRef) : a.Entry a' ref := by
  -- the record of one pending action is written
  have hwrite : ∀ {ref₀ action action'}, a.actionRecords.get? ref₀ = some action →
      action.receipt.outcome = .pending →
      a'.actionRecords.get? ref₀ = some action' →
      action'.request = action.request → action'.cancel = action.cancel →
      (ref ≠ ref₀ → a'.actionRecords.get? ref = a.actionRecords.get? ref) →
      a.Entry a' ref := by
    intro ref₀ action action' hget hp hget' hrequest hcancel hother
    by_cases heq : ref = ref₀
    · rw [← heq] at hget hget'
      exact .known hget hget' ⟨hrequest, fun hse => absurd hp hse, .inl hcancel⟩
    · exact .of_eq (hother heq)
  cases hmv with
  | finish code hget hp =>
    exact hwrite hget hp ((Table.get?_modify_self _ _ _).trans (congrArg (Option.map _) hget))
      rfl rfl Table.get?_modify_ne
  | @enroll ref₀ o receipt tombstone howner hnew =>
    by_cases heq : ref = ref₀
    · rw [heq]
      exact .enrolled receipt tombstone hnew (Table.get?_set_self _ _ _)
    · exact .of_eq (Table.get?_set_ne heq)
  | hold grant started hget hp =>
    exact hwrite hget hp ((Table.get?_modify_self _ _ _).trans (congrArg (Option.map _) hget))
      rfl rfl Table.get?_modify_ne
  | phase => exact .of_agree (setPhase_actions rfl)
  | enqueue | attempt => exact .of_agree (.edit rfl)
  | issue job hget hp =>
    exact hwrite hget hp (issue_action hget _ _ _) rfl rfl fun hne => issue_other hne _ _ _
  | prolong hget hp =>
    exact hwrite hget hp (prolong_action hget _ _ _ _) rfl rfl
      fun hne => prolong_other hne _ _ _ _
  | unhold => exact .of_agree (unhold_actions rfl)
  | @noteAction ref₀ change hlike hcancel =>
    by_cases heq : ref = ref₀
    · cases hget : a.actionRecords.get? ref with
      | none => exact .absent hget (Table.get?_modify_of_none hget)
      | some action =>
        have hlike := hlike action
        refine .known hget
          ((Table.get?_modify_of_some hget).trans (congrArg some (if_pos heq))) ⟨?_, ?_, ?_⟩
        · exact Prod.ext (congrArg ActionReceipt.acquire hlike.receipt)
            (congrArg ActionReceipt.renew hlike.receipt)
        · exact fun _ => Prod.ext hlike.receipt hlike.grant
        · exact heq ▸ hcancel.imp_left fun hs => hs action
    · exact .of_eq (Table.get?_modify_ne heq)
  | _ => exact .of_eq rfl

/-- A move neither loses an action nor turns it into another. -/
lemma Move.continues (hmv : Move t a a') {action : ActionRecord}
    (hget : a.actionRecords.get? ref = some action) :
    ∃ action', a'.actionRecords.get? ref = some action' ∧ action.Continues a ref action' := by
  rcases hmv.entry ref with ⟨hnone, -⟩ | ⟨hf, hget', hnext⟩ |
    ⟨-, -, hnone, -⟩
  · cases hget.symm.trans hnone
  · cases hget.symm.trans hf
    exact ⟨_, hget', hnext⟩
  · cases hget.symm.trans hnone

/-- The history of the grants agrees with the records. -/
structure Issued (a : Authority) : Prop where
  settled : ∀ {ref id}, (ref, id) ∈ a.issued → ∃ action, a.actionRecords.get? ref = some action ∧
      action.receipt.outcome ≠ .pending ∧ action.grant = some id
  complete : ∀ {id g}, a.grantRecords.get? id = some g → ∃ ref, (ref, id) ∈ a.issued

namespace Issued

lemma once (h : Issued a) {id id' : GrantID} (hid : (ref, id) ∈ a.issued)
    (hid' : (ref, id') ∈ a.issued) : id = id' := by
  obtain ⟨action, hget, -, hgrant⟩ := h.settled hid
  obtain ⟨found, hf, -, hgrant'⟩ := h.settled hid'
  cases hget.symm.trans hf
  exact Option.some.inj (hgrant.symm.trans hgrant')

lemma settled_move (h : Issued a) (hmv : Move t a a') {id : GrantID}
    (hid : (ref, id) ∈ a.issued) :
    ∃ action, a'.actionRecords.get? ref = some action ∧
      action.receipt.outcome ≠ .pending ∧ action.grant = some id := by
  obtain ⟨action, hget, hse, hgrant⟩ := h.settled hid
  obtain ⟨action', hget', hnext⟩ := hmv.continues hget
  have hs := hnext.verdict hse
  obtain ⟨hreceipt, hgrant'⟩ := Prod.mk.inj hs
  exact ⟨action', hget', hreceipt ▸ hse, hgrant'.trans hgrant⟩

lemma move (h : Issued a) (hmv : Move t a a') : Issued a' := by
  have hold : ∀ {ref id}, (ref, id) ∈ a.issued →
      ∃ action, a'.actionRecords.get? ref = some action ∧
        action.receipt.outcome ≠ .pending ∧ action.grant = some id :=
    fun hid => h.settled_move hmv hid
  have hkeeps : Table.Agree (fun _ => ()) a.grantRecords a'.grantRecords →
      ∀ {id g'}, a'.grantRecords.get? id = some g' →
        ∃ ref, (ref, id) ∈ a.issued := by
    intro hgrants id g' hg'
    obtain ⟨g, hg, -⟩ := hgrants.exists hg'
    exact h.complete hg
  cases hmv with
  | @issue ref action o id r request job hget =>
    constructor
    · intro other grant hm
      rcases List.mem_cons.mp hm with heq | hm
      · obtain ⟨rfl, rfl⟩ := Prod.mk.inj heq
        exact ⟨_, issue_action hget o id request, ActionOutcome.noConfusion, rfl⟩
      · exact hold hm
    · intro grant g' hg'
      rcases Table.set_cases hg' with ⟨rfl, -⟩ | ⟨-, hg'⟩
      · exact ⟨ref, List.mem_cons_self⟩
      · obtain ⟨other, hm⟩ := h.complete hg'
        exact ⟨other, List.mem_cons_of_mem _ hm⟩
  | endGrant | prolong | noteRelease => exact ⟨hold, hkeeps (.edit rfl)⟩
  | _ => exact ⟨hold, h.complete⟩

end Issued

end RemoteFs.Locking
