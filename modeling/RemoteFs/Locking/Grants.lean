import RemoteFs.Locking.Tokens

/-!
# Live grants

A grant is active exactly while its resource lists it, and then its owner is
registered and lists it as well.  Two grants of one resource belong to different
owners and none of them is exclusive.
-/

namespace RemoteFs.Locking

open Authority

/-- The fields of a grant that no renewal or release changes. -/
def GrantRecord.core (g : GrantRecord) : GrantRecord :=
  { g with deadline := 0, revision := 0, release := none }

/-- Two records of one grant that differ at most in its lease. -/
structure GrantRecord.Alike (g g' : GrantRecord) : Prop where
  owner : g'.owner = g.owner
  resource : g'.resource = g.resource
  ref : g'.ref = g.ref
  mode : g'.mode = g.mode
  state : g'.state = g.state

lemma GrantRecord.alike_of_core {g g' : GrantRecord} (hcore : g'.core = g.core) : g.Alike g' where
  owner := (congrArg GrantRecord.owner hcore : g'.core.owner = g.core.owner)
  resource := (congrArg GrantRecord.resource hcore : g'.core.resource = g.core.resource)
  ref := (congrArg GrantRecord.ref hcore : g'.core.ref = g.core.ref)
  mode := (congrArg GrantRecord.mode hcore : g'.core.mode = g.core.mode)
  state := (congrArg GrantRecord.state hcore : g'.core.state = g.core.state)

/-- What holds of the record of a grant. -/
structure Granted (a : Authority) (id : GrantID) (g : GrantRecord) : Prop where
  named : g.ref.id = id ∧ g.ref.resource = g.resource
  mode : g.mode = .shared ∨ g.mode = .exclusive
  listed : g.state = .active → ∃ r, a.resourceRecords.get? g.resource = some r ∧ id ∈ r.grants
  held : g.state = .active → ∃ o, a.owners.get? g.owner = some o ∧ id ∈ o.grants

/-- What holds of the grants that a resource lists. -/
structure Lists (records : Table GrantID GrantRecord) (place : ResourceID)
    (grants : List GrantID) : Prop where
  live : ∀ {id}, id ∈ grants →
    ∃ g, records.get? id = some g ∧ g.state = .active ∧ g.resource = place
  nodup : grants.Nodup
  compatible : ∀ {x y gx gy}, x ∈ grants → y ∈ grants → x ≠ y →
    records.get? x = some gx → records.get? y = some gy →
      gx.owner ≠ gy.owner ∧ gx.mode ≠ .exclusive

structure Grants (a : Authority) : Prop where
  granted : ∀ {id g}, a.grantRecords.get? id = some g → Granted a id g
  resource : ∀ {place r}, a.resourceRecords.get? place = some r →
    Lists a.grantRecords place r.grants
  owner : ∀ {owner o id}, a.owners.get? owner = some o → id ∈ o.grants →
    ∃ g, a.grantRecords.get? id = some g ∧ g.owner = owner

section Keeping

variable {a a' : Authority} {records records' : Table GrantID GrantRecord}
  {place : ResourceID} {owner : OwnerID} {grants : List GrantID} {id : GrantID}
  {g g' : GrantRecord}

lemma Granted.keep (h : Granted a id g) (hal : g.Alike g')
    (hres : ∀ r, a.resourceRecords.get? g.resource = some r → id ∈ r.grants →
      ∃ r', a'.resourceRecords.get? g.resource = some r' ∧ id ∈ r'.grants)
    (howner : ∀ o, a.owners.get? g.owner = some o → id ∈ o.grants →
      ∃ o', a'.owners.get? g.owner = some o' ∧ id ∈ o'.grants) :
    Granted a' id g' := by
  obtain ⟨howner', hplace', href, hmode, hs⟩ := hal
  refine ⟨href ▸ hplace' ▸ h.named, hmode ▸ h.mode, fun hat => ?_, fun hat => ?_⟩
  · obtain ⟨r, hr, hm⟩ := h.listed (hs.symm.trans hat)
    exact hplace' ▸ hres r hr hm
  · obtain ⟨o, ho, hm⟩ := h.held (hs.symm.trans hat)
    exact howner' ▸ howner o ho hm

lemma Lists.nil : Lists records place [] :=
  ⟨fun hm => (by cases hm), .nil, fun hm => by cases hm⟩

lemma Lists.sublist (h : Lists records place grants)
    (hsub : fewer.Sublist grants) : Lists records place fewer :=
  ⟨fun hm => h.live (hsub.subset hm), h.nodup.sublist hsub,
    fun hx hy => h.compatible (hsub.subset hx) (hsub.subset hy)⟩

lemma Lists.keep (h : Lists records place grants)
    (hkeep : ∀ x g, x ∈ grants → records.get? x = some g →
      ∃ g', records'.get? x = some g' ∧ g.Alike g') : Lists records' place grants where
  live := by
    intro id hm
    obtain ⟨g, hg, hat, hplace⟩ := h.live hm
    obtain ⟨g', hg', hal⟩ := hkeep id g hm hg
    exact ⟨g', hg', hal.state.trans hat, hal.resource.trans hplace⟩
  nodup := h.nodup
  compatible := by
    have hback : ∀ {x g'}, x ∈ grants → records'.get? x = some g' →
        ∃ g, records.get? x = some g ∧ g.Alike g' := by
      intro x g' hm hx
      obtain ⟨g, hg, -⟩ := h.live hm
      obtain ⟨found, hfound, hal⟩ := hkeep x g hm hg
      cases hx.symm.trans hfound
      exact ⟨g, hg, hal⟩
    intro x y gx' gy' hx hy hne hgx' hgy'
    obtain ⟨gx, hgx, hal⟩ := hback hx hgx'
    obtain ⟨gy, hgy, halike'⟩ := hback hy hgy'
    rw [hal.owner, halike'.owner, hal.mode]
    exact h.compatible hx hy hne hgx hgy

end Keeping

lemma GrantRecord.Alike.refl {g : GrantRecord} : g.Alike g := ⟨rfl, rfl, rfl, rfl, rfl⟩

namespace Grants

/-- The parts of two authorities that the invariant reads. -/
structure Agree (a a' : Authority) : Prop where
  resources : Table.Agree ResourceRecord.grants a.resourceRecords a'.resourceRecords
  owners : Table.Agree OwnerRecord.grants a.owners a'.owners
  grants : Table.Agree GrantRecord.core a.grantRecords a'.grantRecords

lemma Agree.refl : Agree a a := ⟨.refl, .refl, .refl⟩

lemma congr {a a' : Authority} (h : Grants a) (hsm : Agree a a') : Grants a' := by
  obtain ⟨hres, howners, hgrants⟩ := hsm
  have hforth : ∀ id g, a.grantRecords.get? id = some g →
      ∃ g', a'.grantRecords.get? id = some g' ∧ g.Alike g' := by
    intro id g hget
    obtain ⟨g', hg', hcore⟩ := hgrants.symm.exists hget
    exact ⟨g', hg', GrantRecord.alike_of_core hcore.symm⟩
  constructor
  · intro id g' hget
    obtain ⟨g, hg, hcore⟩ := hgrants.exists hget
    refine (h.granted hg).keep (GrantRecord.alike_of_core hcore) ?_ ?_
    · intro r hr hm
      obtain ⟨r', hr', hsm⟩ := hres.symm.exists hr
      exact ⟨r', hr', hsm ▸ hm⟩
    · intro o ho hm
      obtain ⟨o', ho', hsm⟩ := howners.symm.exists ho
      exact ⟨o', ho', hsm ▸ hm⟩
  · intro place r' hr'
    obtain ⟨r, hr, hsm⟩ := hres.exists hr'
    rw [hsm]
    exact (h.resource hr).keep fun x g _ => hforth x g
  · intro owner o' id ho' hm
    obtain ⟨o, ho, hsm⟩ := howners.exists ho'
    obtain ⟨g, hg, howner⟩ := h.owner ho (hsm ▸ hm)
    obtain ⟨g', hg', hal⟩ := hforth id g hg
    exact ⟨g', hg', hal.owner.trans howner⟩

variable {a : Authority} (h : Grants a)

include h

lemma ticked : Grants a.ticked := h.congr { Agree.refl with }

lemma touch (id : SessionID) : Grants (a.touchSessionLocked id) := h.congr { Agree.refl with }

lemma finishPending (ref : ActionRef) (action : ActionRecord) (outcome : ActionOutcome)
    (code : Option Code) : Grants (a.finishPending ref action outcome code) :=
  h.congr ⟨finishPending_resources _ _ rfl, finishPending_owners _ _ rfl, .refl⟩

lemma extendGrant (ref : ActionRef) (grant : GrantID) (g : GrantRecord)
    (request : RenewRequest) : Grants (a.extendGrant ref grant g request) :=
  h.congr ⟨.refl, .refl, .edit rfl⟩

lemma addOwner (htokens : Tokens a) (id : SessionID) (request : RequestID) :
    Grants (a.addOwner id request) := by
  have hfresh := htokens.fresh_owner
  refine ⟨fun hget => ?_, h.resource, fun hget hm => ?_⟩
  · refine (h.granted hget).keep .refl (fun r hr hm => ⟨r, hr, hm⟩)
      fun o ho hm => ⟨o, (Table.get?_set_ne fun heq => ?_).trans ho, hm⟩
    rw [heq, hfresh] at ho
    cases ho
  · rcases Table.set_cases hget with ⟨-, rfl⟩ | ⟨-, hold⟩
    · cases hm
    · exact h.owner hold hm

lemma dropOwner {id : OwnerID} {o : OwnerRecord} (hget : a.owners.get? id = some o)
    (hended : ∀ grant ∈ o.grants, ∀ g, a.grantRecords.get? grant = some g → g.state ≠ .active) :
    Grants (a.dropOwner id o) := by
  refine ⟨fun {grant g} hgrant => { h.granted hgrant with held := fun hat => ?_ },
    h.resource, fun hget => h.owner (Table.erase_cases hget).2⟩
  obtain ⟨holder, hholder, hm⟩ := (h.granted hgrant).held hat
  refine ⟨holder, (Table.get?_erase_ne fun heq => ?_).trans hholder, hm⟩
  rw [heq, hget] at hholder
  cases hholder
  exact hended grant hm g hgrant hat

lemma adopt (htokens : Tokens a) (key : BackendKey) : Grants (a.adopt key) := by
  have hfresh := htokens.fresh_resource
  refine ⟨fun hget => ?_, fun hget => ?_, h.owner⟩
  · refine (h.granted hget).keep .refl (fun r hr hm =>
      ⟨r, (Table.get?_set_ne fun heq => ?_).trans hr, hm⟩) fun o ho hm => ⟨o, ho, hm⟩
    rw [heq, hfresh] at hr
    cases hr
  · rcases Table.set_cases hget with ⟨-, rfl⟩ | ⟨-, hold⟩
    · exact .nil
    · exact h.resource hold

lemma endActive {id : GrantID} {g : GrantRecord} {state : GrantState}
    (hget : a.grantRecords.get? id = some g) (hs : state ≠ .active) :
    Grants (a.endActive id g state) := by
  have howners : Table.Agree OwnerRecord.grants a.owners
      (a.endActive id g state).owners := .edit rfl
  have hother : ∀ {x gx}, x ≠ id → a.grantRecords.get? x = some gx →
      (a.endActive id g state).grantRecords.get? x = some gx :=
    fun hne hx => (Table.get?_modify_ne hne).trans hx
  constructor
  · intro x gx' hx
    -- Up to the state of the ended grant the records are the old ones.
    rcases Table.modify_cases hx with ⟨gx, hgx, rfl, rfl⟩ | ⟨hne, hgx⟩
    · have hgr := h.granted hgx
      exact ⟨hgr.named, hgr.mode, fun hat => absurd hat hs,
        fun hat => absurd hat hs⟩
    refine (h.granted hgx).keep .refl ?_ ?_
    · intro r hr hm
      refine ⟨_, Table.get?_modify_of_some hr, ?_⟩
      split_ifs
      · exact (List.mem_erase_of_ne hne).mpr hm
      · exact hm
    · intro o ho hm
      obtain ⟨o', ho', hsm⟩ := howners.symm.exists ho
      exact ⟨o', ho', hsm ▸ hm⟩
  · intro place r' hr'
    -- The lists lose the ended grant and nothing else.
    obtain ⟨r, hr, rfl⟩ := Table.of_get?_modify hr'
    have hli := h.resource hr
    have hkeep : ∀ {grants}, Lists a.grantRecords place grants → id ∉ grants →
        Lists (a.endActive id g state).grantRecords place grants :=
      fun hli hnot => hli.keep fun x gx hx hgx =>
        ⟨gx, hother (fun heq => hnot (heq ▸ hx)) hgx, .refl⟩
    split_ifs with heq
    · exact hkeep (hli.sublist List.erase_sublist) hli.nodup.not_mem_erase
    refine hkeep hli fun hm => ?_
    obtain ⟨gx, hgx, -, hplace⟩ := hli.live hm
    cases hget.symm.trans hgx
    exact heq hplace.symm
  · intro owner o' x ho' hm
    obtain ⟨o, ho, hsm⟩ := howners.exists ho'
    obtain ⟨gx, hgx, hwho⟩ := h.owner ho (hsm ▸ hm)
    refine ⟨_, Table.get?_modify_of_some hgx, ?_⟩
    split_ifs <;> exact hwho

/-- A new grant is compatible with those that its resource lists. -/
lemma insertGrant (htokens : Tokens a) {ref : ActionRef} {o : OwnerRecord}
    {id : ResourceID} {r : ResourceRecord} {request : AcquireRequest}
    (howner : a.owners.get? ref.owner = some o) (hrecord : a.resourceRecords.get? id = some r)
    (hcompatible : a.compatibleLocked r ref.owner request.mode = true)
    (hmode : request.mode = .shared ∨ request.mode = .exclusive) :
    Grants (a.insertGrant ref id request) := by
  have hfresh := htokens.fresh_grant
  set n := a.lastGeneration + 1 with hn
  have hgrant : ∀ x, (a.insertGrant ref id request).grantRecords.get? x =
      if x = n then some (a.newGrant ref id request)
      else a.grantRecords.get? x := fun x => Table.get?_set _ _ _ _
  have hres : ∀ place, (a.insertGrant ref id request).resourceRecords.get? place =
        if place = id then some { r with grants := n :: r.grants }
        else a.resourceRecords.get? place := by
    intro place
    change (Table.modify _ _ _).get? place = _
    rw [Table.get?_modify, hrecord]
    rfl
  have howner' : ∀ x, (a.insertGrant ref id request).owners.get? x =
      if x = ref.owner then
        some { o with
          grants := n :: o.grants, liveGrants := o.liveGrants + 1 }
      else a.owners.get? x := by
    intro x
    change (Table.modify _ _ _).get? x = _
    rw [Table.get?_modify, howner]
    rfl
  have hold : ∀ {x gx}, a.grantRecords.get? x = some gx → x ≠ n := by
    intro x gx hgx heq
    rw [heq, hfresh] at hgx
    cases hgx
  have hkeep : ∀ {x gx}, a.grantRecords.get? x = some gx →
      (a.insertGrant ref id request).grantRecords.get? x = some gx :=
    fun hgx => (hgrant _).trans ((if_neg (hold hgx)).trans hgx)
  -- Every grant that the resource already lists leaves room for the new one.
  have hroom : ∀ {x gx}, x ∈ r.grants → a.grantRecords.get? x = some gx →
      gx.owner ≠ ref.owner ∧ request.mode ≠ .exclusive ∧ gx.mode ≠ .exclusive := by
    intro x gx hx hgx
    have hall := List.all_eq_true.mp hcompatible x hx
    simpa [hgx] using hall
  have hkeepList : ∀ {place grants}, Lists a.grantRecords place grants →
      Lists (a.insertGrant ref id request).grantRecords place grants :=
    fun hli => hli.keep fun x gx _ hgx => ⟨gx, hkeep hgx, .refl⟩
  have hself := (hgrant n).trans (if_pos rfl)
  constructor
  · intro x g hx
    rw [hgrant] at hx
    split_ifs at hx with heq
    · cases hx
      exact ⟨⟨heq.symm, rfl⟩, hmode,
        fun _ => ⟨_, (hres id).trans (if_pos rfl), heq ▸ List.mem_cons_self⟩,
        fun _ => ⟨_, (howner' ref.owner).trans (if_pos rfl), heq ▸ List.mem_cons_self⟩⟩
    refine (h.granted hx).keep .refl ?_ ?_
    · intro rx hrx hm
      by_cases hplace : g.resource = id
      · rw [hplace, hrecord] at hrx
        cases hrx
        exact ⟨_, (hres _).trans (if_pos hplace), List.mem_cons_of_mem _ hm⟩
      · exact ⟨rx, (hres _).trans ((if_neg hplace).trans hrx), hm⟩
    · intro ox hox hm
      by_cases hsm : g.owner = ref.owner
      · rw [hsm, howner] at hox
        cases hox
        exact ⟨_, (howner' _).trans (if_pos hsm), List.mem_cons_of_mem _ hm⟩
      · exact ⟨ox, (howner' _).trans ((if_neg hsm).trans hox), hm⟩
  · intro place r' hr'
    rw [hres] at hr'
    split_ifs at hr' with hplace
    · cases hr'
      have hli := h.resource hrecord
      have hk := hkeepList hli
      refine ⟨fun {x} hm => ?_, List.nodup_cons.mpr ⟨fun hm => ?_, hli.nodup⟩, ?_⟩
      · rcases List.mem_cons.mp hm with rfl | hm
        · exact ⟨_, hself, rfl, hplace.symm⟩
        · exact hplace ▸ hk.live hm
      · obtain ⟨g, hg, -⟩ := hli.live hm
        exact hold hg rfl
      · intro x y gx gy hx hy hne hgx hgy
        rcases List.mem_cons.mp hx with rfl | hx <;>
          rcases List.mem_cons.mp hy with rfl | hy
        · exact absurd rfl hne
        · cases hself.symm.trans hgx
          rw [hgrant, if_neg hne.symm] at hgy
          obtain ⟨hwho, hasked, -⟩ := hroom hy hgy
          exact ⟨hwho.symm, hasked⟩
        · cases hself.symm.trans hgy
          rw [hgrant, if_neg hne] at hgx
          obtain ⟨hwho, -, hheld⟩ := hroom hx hgx
          exact ⟨hwho, hheld⟩
        · exact hk.compatible hx hy hne hgx hgy
    · exact hkeepList (h.resource hr')
  · intro owner o' x ho' hm
    have hkeepOwn : ∀ {o}, a.owners.get? owner = some o → x ∈ o.grants → ∃ g,
        (a.insertGrant ref id request).grantRecords.get? x = some g ∧ g.owner = owner := by
      intro o ho hm
      obtain ⟨gx, hgx, hwho⟩ := h.owner ho hm
      exact ⟨gx, hkeep hgx, hwho⟩
    rw [howner'] at ho'
    split_ifs at ho' with hsm
    · cases ho'
      rcases List.mem_cons.mp hm with rfl | hm
      · exact ⟨_, hself, hsm.symm⟩
      · exact hkeepOwn (hsm ▸ howner) hm
    · exact hkeepOwn ho' hm

end Grants

end RemoteFs.Locking
