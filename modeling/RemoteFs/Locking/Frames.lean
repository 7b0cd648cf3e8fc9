import RemoteFs.Locking.Moves

/-!
# What the changes of the authority leave alone

For every change that a move makes to a table, the fields of the records that it
keeps.  A field is named by a view of its record, and the view is required to
ignore the fields that the change assigns.
-/

namespace RemoteFs.Locking

namespace Authority

section Finish

variable {β : Type} {a : Authority} {ref : ActionRef} {action : ActionRecord}
  (outcome : ActionOutcome) (code : Option Code)

lemma finishPending_owners {view : OwnerRecord → β}
    (hvi : (fun o n => view { o with queued := n }) = fun o _ => view o) :
    Table.Agree view a.owners (a.finishPending ref action outcome code).owners := by
  change Table.Agree view a.owners (if _ then _ else _)
  split_ifs
  · exact .modify fun o _ => congrFun₂ hvi o _
  · exact .refl

lemma finishPending_resources {view : ResourceRecord → β}
    (hvi : (fun r q => view { r with queue := q }) = fun r _ => view r) :
    Table.Agree view a.resourceRecords
      (a.finishPending ref action outcome code).resourceRecords := by
  change Table.Agree view a.resourceRecords (if _ then _ else _)
  split_ifs
  · unfold dequeue
    split
    · exact .refl
    · exact .modify fun r _ => congrFun₂ hvi r _
  · exact .refl

end Finish

/-! The records of the decided action and of the others. -/

section Decided

variable {a : Authority} {ref other : ActionRef} {action : ActionRecord}

section

variable (hg : a.actionRecords.get? ref = some action)
include hg

lemma finishPending_action (outcome : ActionOutcome) (code : Option Code) :
    (a.finishPending ref action outcome code).actionRecords.get? ref =
      some (action.finished outcome code) := by
  change (Table.modify _ _ _).get? ref = _
  exact Table.get?_modified hg

lemma insertGrant_action (id : ResourceID) (request : AcquireRequest) :
    (a.insertGrant ref id request).actionRecords.get? ref =
      some (a.issuedRecord ref action id request) := by
  change (Table.modify _ _ _).get? ref = _
  exact Table.get?_modified hg

lemma issue_action (o : OwnerRecord) (id : ResourceID) (request : AcquireRequest) :
    (a.issue ref action o id request).actionRecords.get? ref =
      some ((a.issuedRecord ref action id request).finished .granted none) :=
  finishPending_action (insertGrant_action hg id request) .granted none

end

lemma issue_other (hne : other ≠ ref) (o : OwnerRecord) (id : ResourceID)
    (request : AcquireRequest) :
    (a.issue ref action o id request).actionRecords.get? other = a.actionRecords.get? other :=
  (Table.get?_modify_ne hne).trans (Table.get?_modify_ne hne)

lemma extendGrant_action (hg : a.actionRecords.get? ref = some action)
    (grant : GrantID) (g : GrantRecord) (request : RenewRequest) :
    (a.extendGrant ref grant g request).actionRecords.get? ref =
      some (a.renewedRecord action g request) := by
  change (Table.modify _ _ _).get? ref = _
  exact Table.get?_modified hg

lemma prolong_action (hg : a.actionRecords.get? ref = some action)
    (o : OwnerRecord) (grant : GrantID) (g : GrantRecord) (request : RenewRequest) :
    (a.prolong ref action o grant g request).actionRecords.get? ref =
      some ((a.renewedRecord action g request).finished .renewed none) :=
  finishPending_action (extendGrant_action hg grant g request) .renewed none

lemma prolong_other (hne : other ≠ ref) (o : OwnerRecord) (grant : GrantID)
    (g : GrantRecord) (request : RenewRequest) :
    (a.prolong ref action o grant g request).actionRecords.get? other =
      a.actionRecords.get? other :=
  (Table.get?_modify_ne hne).trans (Table.get?_modify_ne hne)

end Decided

section Phases

variable {β : Type} {a : Authority} {job : Job} {ref : ActionRef}

lemma setPhase_actions {view : ActionRecord → β} {phase : Phase}
    (hvi : (fun action call => view { action with call }) = fun action _ => view action) :
    Table.Agree view a.actionRecords (a.setPhase job ref phase).actionRecords := by
  cases job with
  | call _ => exact .modify fun action _ => congrFun₂ hvi action _
  | worker _ => exact .refl

lemma setPhase_resources {view : ResourceRecord → β} {phase : Phase}
    (hvi : (fun r worker => view { r with worker }) = fun r _ => view r) :
    Table.Agree view a.resourceRecords (a.setPhase job ref phase).resourceRecords := by
  cases job with
  | call _ => exact .refl
  | worker _ => exact .modify fun r _ => congrFun₂ hvi r _

lemma unhold_actions {view : ActionRecord → β}
    (hvi : (fun action processing call => view { action with processing, call }) =
      fun action _ _ => view action) :
    Table.Agree view a.actionRecords (a.unhold job ref).actionRecords := by
  cases job with
  | call _ => exact .modify fun action _ => congrFun₃ hvi action _ _
  | worker _ => exact .modify fun action _ => congrFun₃ hvi action false action.call

lemma unhold_resources {view : ResourceRecord → β}
    (hvi : (fun r holds worker => view { r with holds, worker }) = fun r _ _ => view r) :
    Table.Agree view a.resourceRecords (a.unhold job ref).resourceRecords := by
  cases job with
  | call _ => exact .modify fun r _ => congrFun₃ hvi r _ r.worker
  | worker _ => exact .modify fun r _ => congrFun₃ hvi r _ _

end Phases

lemma agree_setBusy {β : Type} {view : ResourceRecord → β} {flag : Bool}
    {ids : List ResourceID} {records : Table ResourceID ResourceRecord}
    (hvi : (fun r busy => view { r with busy }) = fun r _ => view r) :
    Table.Agree view records (ids.foldl (setBusy flag) records) := by
  induction ids generalizing records with
  | nil => exact .refl
  | cons id rest ih =>
    have hfirst : Table.Agree view records (setBusy flag records id) :=
      .modify fun r _ => congrFun₂ hvi r _
    exact hfirst.trans ih

end Authority

end RemoteFs.Locking
