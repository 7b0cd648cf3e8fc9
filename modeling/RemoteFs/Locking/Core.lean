import RemoteFs.Locking.Actions
import RemoteFs.Locking.Receipts

/-!
# The structural invariant

Tokens, grants, actions and the history of the grants together are preserved by
every move.
-/

namespace RemoteFs.Locking

open Authority

structure Core (a : Authority) : Prop where
  tokens : Tokens a
  grants : Grants a
  actions : Actions a
  issued : Issued a

namespace Core

lemma initial (options : Options) (verify : Capability → Except Fault Unit)
    (now : ℕ → Time) (maxLease : Duration) (start : Time) :
    Core (Authority.initial options verify now maxLease start) := by
  have hnone : ∀ {κ α : Type} [DecidableEq κ] {key : κ} {value : α},
      (Table.empty : Table κ α).get? key ≠ some value := by
    intro κ α _ key value hg
    rw [Table.get?_empty] at hg
    cases hg
  refine ⟨⟨?_, ?_, ?_, ?_, ?_, ?_, ?_, ?_⟩, ⟨?_, ?_, ?_⟩, ⟨?_, ?_, ?_, ?_, ?_⟩,
    ⟨fun hmem => absurd hmem List.not_mem_nil, ?_⟩⟩ <;>
    (intros; exact absurd ‹_› hnone)

variable {t : Terms} {a a' : Authority} (h : Core a)

include h

lemma moveGrants (hmv : Move t a a') : Grants a' := by
  have hgr := h.grants
  cases hmv with
  | touch id => exact hgr.touch id
  | addOwner request => exact hgr.addOwner h.tokens _ request
  | endGrant state hg hactive hstate => exact hgr.endActive hg hstate
  | finish code => exact hgr.finishPending _ _ _ code
  | dropOwner hg ha hended => exact hgr.dropOwner hg hended
  | adopt => exact hgr.adopt h.tokens _
  | tidy change hlike => exact hgr.congr ⟨.modify fun r hr => (hlike r hr).grants, .refl, .refl⟩
  | phase => exact hgr.congr ⟨setPhase_resources rfl, .refl, .refl⟩
  | issue job hg _ _ hacquire _ howner hrecord _ hcompatible =>
    have hmode := ((h.actions.booked hg).intent.acquire _ hacquire).2.1
    exact ((hgr.insertGrant h.tokens howner hrecord hcompatible
      hmode).finishPending _ _ _ _).touch _
  | prolong => exact ((hgr.extendGrant _ _ _ _).finishPending _ _ _ _).touch _
  | unhold => exact hgr.congr ⟨unhold_resources rfl, .refl, .refl⟩
  | launch | land => exact hgr.congr ⟨agree_setBusy rfl, .refl, .refl⟩
  | _ => refine hgr.congr ⟨?_, ?_, ?_⟩ <;> first | exact .refl | exact .edit rfl

lemma moveActions (hmv : Move t a a') : Actions a' := by
  have ha := h.actions
  cases hmv with
  | touch id => exact ha.touch id
  | addOwner request => exact ha.addOwner h.tokens _ request
  | finish code hg hp hout =>
    refine ha.finishPending code hg ?_
    intro heq
    rwa [heq] at hout
  | dropOwner hg hended => exact ha.dropOwner hg hended
  | adopt => exact ha.adopt _
  | tidy change hlike =>
    exact ha.keep { Actions.Agree.refl with
      queues := .modify fun r hr => (hlike r hr).queue
      current := .modify fun r hr => congrArg (Option.map Prod.fst) (hlike r hr).attempt }
  | enroll receipt tombstone howner hnew hintent =>
    exact ha.enroll receipt tombstone howner hnew hintent
  | hold grant started hg _ _ _ _ hheld => exact ha.hold grant started hg hheld
  | phase hph hnext => exact ha.phase hph hnext
  | enqueue hg hp hcall hwait hacquire hres _ hrecord =>
    exact ha.enqueue _ hg hp hcall hwait (by simp [hacquire])
      hres hrecord
  | @issue ref action o id r request job hg _ _ _ hres =>
    exact ((ha.insertGrant h.tokens request hg hres).finishPending none
      (insertGrant_action hg id request) ActionOutcome.noConfusion).touch _
  | @prolong ref action o id r grant g request hg =>
    exact ((ha.extendGrant ref grant g request).finishPending none
      (extendGrant_action hg grant g request) ActionOutcome.noConfusion).touch _
  | unhold hph => exact ha.unhold hph
  | attempt hrecord _ hhead => exact ha.attempt hrecord hhead
  | noteAction change hlike =>
    exact ha.keep { Actions.Agree.refl with
      actions := .modify fun action _ => ActionRecord.core_of_like (hlike action) }
  | launch | land =>
    exact ha.keep { Actions.Agree.refl with
      queues := agree_setBusy rfl, current := agree_setBusy rfl }
  | _ => refine ha.keep ⟨?_, ?_, ?_, ?_, ?_, rfl⟩ <;> first | exact .refl | exact .edit rfl

lemma move (hmv : Move t a a') : Core a' :=
  ⟨h.tokens.move hmv, h.moveGrants hmv, h.moveActions hmv, h.issued.move hmv⟩

lemma chain (hchain : Chain t a a') : Core a' :=
  Chain.invariant (fun _ _ hmv hcore => hcore.move hmv) hchain h

end Core

end RemoteFs.Locking
