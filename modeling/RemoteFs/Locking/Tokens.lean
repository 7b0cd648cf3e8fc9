import RemoteFs.Locking.Frames

/-!
# Tokens

Sessions, owners, resources and publications are named by tokens that were never
used before, grants by a generation.  An owner is stored under its own token and
its session exists; a key lists a resource object for that key.
-/

namespace RemoteFs.Locking

open Authority

structure Tokens (a : Authority) : Prop where
  session : ∀ {id s}, a.sessions.get? id = some s → id ≤ a.lastToken
  owner : ∀ {id o}, a.owners.get? id = some o → id ≤ a.lastToken
  resource : ∀ {id r}, a.resourceRecords.get? id = some r → id ≤ a.lastToken
  flight : ∀ {id f}, a.flights.get? id = some f → id ≤ a.lastToken
  action : ∀ {ref action}, a.actionRecords.get? ref = some action → ref.owner ≤ a.lastToken
  grant : ∀ {id g}, a.grantRecords.get? id = some g → id ≤ a.lastGeneration
  home : ∀ {id o}, a.owners.get? id = some o → (a.sessions.get? o.ref.session).isSome
  keyed : ∀ {key id}, a.keys.get? key = some id →
    ∃ r, a.resourceRecords.get? id = some r ∧ r.key = key

namespace Tokens

/-- The parts of two authorities that the invariant reads. -/
structure Agree (a a' : Authority) : Prop where
  resources : Table.Agree ResourceRecord.key a.resourceRecords a'.resourceRecords
  actions : Table.Agree (fun _ => ()) a.actionRecords a'.actionRecords
  owners : Table.Agree OwnerRecord.ref a.owners a'.owners
  sessions : Table.Agree (fun _ => ()) a.sessions a'.sessions
  grants : Table.Agree (fun _ => ()) a.grantRecords a'.grantRecords
  flights : a'.flights = a.flights
  keys : a'.keys = a.keys
  token : a'.lastToken = a.lastToken
  generation : a'.lastGeneration = a.lastGeneration

lemma Agree.refl : Agree a a := ⟨.refl, .refl, .refl, .refl, .refl, rfl, rfl, rfl, rfl⟩

lemma congr (h : Tokens a) (hs : Agree a a') : Tokens a' where
  session := fun hget => hs.token ▸ h.session (hs.sessions.exists hget).choose_spec.1
  owner := fun hget => hs.token ▸ h.owner (hs.owners.exists hget).choose_spec.1
  resource := fun hget => hs.token ▸ h.resource (hs.resources.exists hget).choose_spec.1
  flight := fun hget => hs.token ▸ h.flight (hs.flights ▸ hget)
  action := fun hget => hs.token ▸ h.action (hs.actions.exists hget).choose_spec.1
  grant := fun hget => hs.generation ▸ h.grant (hs.grants.exists hget).choose_spec.1
  home := by
    intro id o hget
    obtain ⟨old, hold, href⟩ := hs.owners.exists hget
    rw [href, hs.sessions.isSome]
    exact h.home hold
  keyed := by
    intro key id hget
    rw [hs.keys] at hget
    obtain ⟨r, hr, hkey⟩ := h.keyed hget
    obtain ⟨r', hr', hkey'⟩ := hs.resources.symm.exists hr
    exact ⟨r', hr', hkey'.symm.trans hkey⟩

variable {a : Authority} (h : Tokens a)

include h

lemma fresh_owner : a.owners.get? (a.lastToken + 1) = none := by
  by_contra hget
  obtain ⟨o, ho⟩ := Option.ne_none_iff_exists'.mp hget
  exact Nat.not_succ_le_self _ (h.owner ho)

lemma fresh_resource : a.resourceRecords.get? (a.lastToken + 1) = none := by
  by_contra hget
  obtain ⟨r, hr⟩ := Option.ne_none_iff_exists'.mp hget
  exact Nat.not_succ_le_self _ (h.resource hr)

lemma fresh_action (request : RequestID) :
    a.actionRecords.get? ⟨a.lastToken + 1, request⟩ = none := by
  by_contra hget
  obtain ⟨action, haction⟩ := Option.ne_none_iff_exists'.mp hget
  exact Nat.not_succ_le_self _ (h.action haction)

lemma fresh_grant : a.grantRecords.get? (a.lastGeneration + 1) = none := by
  by_contra hget
  obtain ⟨g, hg⟩ := Option.ne_none_iff_exists'.mp hget
  exact Nat.not_succ_le_self _ (h.grant hg)

lemma touch (id : SessionID) : Tokens (a.touchSessionLocked id) :=
  h.congr { Agree.refl with sessions := .edit rfl }

lemma finishPending (ref : ActionRef) (action : ActionRecord) (outcome : ActionOutcome)
    (code : Option Code) : Tokens (a.finishPending ref action outcome code) :=
  h.congr { Agree.refl with
    resources := finishPending_resources _ _ rfl
    actions := .edit rfl
    owners := finishPending_owners _ _ rfl }

lemma addSession (ticket : EnrollmentTicket) (now expiry : Time) :
    Tokens (a.addSession ticket now expiry) where
  session := by
    intro id s hget
    rcases Table.set_cases hget with ⟨rfl, -⟩ | ⟨-, hold⟩
    · exact le_refl _
    · exact Nat.le_succ_of_le (h.session hold)
  owner := fun hget => Nat.le_succ_of_le (h.owner hget)
  resource := fun hget => Nat.le_succ_of_le (h.resource hget)
  flight := fun hget => Nat.le_succ_of_le (h.flight hget)
  action := fun hget => Nat.le_succ_of_le (h.action hget)
  grant := h.grant
  home := by
    intro id o hget
    change ((Table.set _ _ _).get? o.ref.session).isSome
    rw [Table.get?_set]
    split_ifs
    · rfl
    · exact h.home hget
  keyed := h.keyed

lemma addOwner {id : SessionID} (request : RequestID) (hsess : (a.sessions.get? id).isSome) :
    Tokens (a.addOwner id request) := by
  have hs : Table.Agree (fun _ => ()) a.sessions (a.addOwner id request).sessions := .edit rfl
  refine ⟨?_, ?_, fun hget => Nat.le_succ_of_le (h.resource hget),
    fun hget => Nat.le_succ_of_le (h.flight hget),
    fun hget => Nat.le_succ_of_le (h.action hget), h.grant, ?_, h.keyed⟩
  · intro session s hget
    obtain ⟨old, hold, -⟩ := hs.exists hget
    exact Nat.le_succ_of_le (h.session hold)
  · intro owner o hget
    rcases Table.set_cases hget with ⟨rfl, -⟩ | ⟨-, hold⟩
    · exact le_refl _
    · exact Nat.le_succ_of_le (h.owner hold)
  · intro owner o hget
    rw [hs.isSome]
    rcases Table.set_cases hget with ⟨-, rfl⟩ | ⟨-, hold⟩
    · exact hsess
    · exact h.home hold

lemma dropOwner (id : OwnerID) (o : OwnerRecord) : Tokens (a.dropOwner id o) := by
  exact ⟨h.session, fun hget => h.owner (Table.erase_cases hget).2, h.resource, h.flight,
    h.action, h.grant, fun hget => h.home (Table.erase_cases hget).2, h.keyed⟩

lemma dropSession {id : SessionID}
    (hempty : ∀ owner o, a.owners.get? owner = some o → o.ref.session ≠ id) :
    Tokens { a with sessions := a.sessions.erase id } := by
  refine ⟨?_, h.owner, h.resource, h.flight, h.action, h.grant, ?_, h.keyed⟩
  · intro session s hget
    exact h.session (Table.erase_cases hget).2
  · intro owner o hget
    change ((Table.erase _ _).get? o.ref.session).isSome
    rw [Table.get?_erase_ne (hempty owner o hget)]
    exact h.home hget

lemma adopt (key : BackendKey) : Tokens (a.adopt key) := by
  refine ⟨fun hget => Nat.le_succ_of_le (h.session hget),
    fun hget => Nat.le_succ_of_le (h.owner hget), ?_,
    fun hget => Nat.le_succ_of_le (h.flight hget),
    fun hget => Nat.le_succ_of_le (h.action hget), h.grant, h.home, ?_⟩
  · intro id r hget
    rcases Table.set_cases hget with ⟨rfl, -⟩ | ⟨-, hold⟩
    · exact le_refl _
    · exact Nat.le_succ_of_le (h.resource hold)
  · intro other id hget
    change (Table.set _ _ _).get? other = some id at hget
    change ∃ r : ResourceRecord, (Table.set _ _ _).get? id = some r ∧ r.key = other
    rcases Table.set_cases hget with ⟨heq, rfl⟩ | ⟨-, hget⟩
    · exact ⟨_, Table.get?_set_self _ _ _, heq.symm⟩
    obtain ⟨r, hr, hkey⟩ := h.keyed hget
    have hne : id ≠ a.lastToken + 1 := ne_of_lt (Nat.lt_succ_of_le (h.resource hr))
    exact ⟨r, (Table.get?_set_ne hne).trans hr, hkey⟩

lemma insertGrant (ref : ActionRef) (id : ResourceID)
    (request : AcquireRequest) : Tokens (a.insertGrant ref id request) := by
  have hba : Tokens { a.insertGrant ref id request with
      grantRecords := a.grantRecords
      lastGeneration := a.lastGeneration } :=
    h.congr ⟨.edit rfl, .edit rfl, .edit rfl, .refl, .refl, rfl, rfl, rfl, rfl⟩
  refine ⟨hba.session, hba.owner, hba.resource, hba.flight,
    hba.action, ?_, hba.home, hba.keyed⟩
  intro grant g hget
  rcases Table.set_cases hget with ⟨rfl, -⟩ | ⟨-, hold⟩
  · exact le_refl _
  · exact Nat.le_succ_of_le (h.grant hold)

lemma extendGrant (ref : ActionRef) (grant : GrantID) (g : GrantRecord)
    (request : RenewRequest) : Tokens (a.extendGrant ref grant g request) :=
  h.congr { Agree.refl with grants := .edit rfl, actions := .edit rfl }

lemma launch (keys : List BackendKey) (resources : List ResourceID) :
    Tokens (a.launch keys resources) := by
  have hba : Tokens { a with
      resourceRecords := resources.foldl (setBusy true) a.resourceRecords } :=
    h.congr { Agree.refl with resources := agree_setBusy rfl }
  refine ⟨fun hget => Nat.le_succ_of_le (hba.session hget),
    fun hget => Nat.le_succ_of_le (hba.owner hget),
    fun hget => Nat.le_succ_of_le (hba.resource hget), ?_,
    fun hget => Nat.le_succ_of_le (h.action hget), h.grant, h.home, hba.keyed⟩
  intro id f hget
  rcases Table.set_cases hget with ⟨rfl, -⟩ | ⟨-, hold⟩
  · exact le_refl _
  · exact Nat.le_succ_of_le (h.flight hold)

lemma land (flight : ℕ) (f : Flight) : Tokens (a.land flight f) := by
  have hba : Tokens { a with
      resourceRecords := f.resources.foldl (setBusy false) a.resourceRecords } :=
    h.congr { Agree.refl with resources := agree_setBusy rfl }
  refine ⟨hba.session, hba.owner, hba.resource, ?_, h.action, h.grant, h.home, hba.keyed⟩
  intro id kept hget
  exact h.flight (Table.erase_cases hget).2

lemma enroll (action : ActionRecord) (howner : a.owners.get? ref.owner = some o) :
    Tokens (a.enroll ref action) := by
  have hba : Tokens { a with
      owners := (a.enroll ref action).owners, actions := a.actions + 1 } :=
    h.congr { Agree.refl with owners := .edit rfl }
  refine ⟨h.session, hba.owner, h.resource, h.flight, ?_, h.grant, hba.home, h.keyed⟩
  intro other found hget
  rcases Table.set_cases hget with ⟨rfl, -⟩ | ⟨-, hold⟩
  · exact h.owner howner
  · exact h.action hold

lemma move {t : Terms} {a' : Authority} (hmove : Move t a a') : Tokens a' := by
  cases hmove with
  | touch id => exact h.touch id
  | addSession ticket now expiry => exact h.addSession ticket now expiry
  | addOwner request hsess => exact h.addOwner request (by simp [hsess])
  | finish code => exact h.finishPending _ _ _ code
  | dropOwner => exact h.dropOwner _ _
  | dropSession hempty => exact h.dropSession hempty
  | adopt => exact h.adopt _
  | tidy change hlike =>
    exact h.congr { Agree.refl with resources := .modify fun r hr => (hlike r hr).key }
  | unlist hkeys =>
    exact ⟨h.session, h.owner, h.resource, h.flight, h.action, h.grant,
      h.home, fun hget => h.keyed (hkeys _ _ hget)⟩
  | enroll receipt tombstone howner => exact h.enroll _ howner
  | phase =>
    exact h.congr { Agree.refl with
      resources := setPhase_resources rfl, actions := setPhase_actions rfl }
  | issue job => exact ((h.insertGrant _ _ _).finishPending _ _ _ _).touch _
  | prolong => exact ((h.extendGrant _ _ _ _).finishPending _ _ _ _).touch _
  | unhold =>
    exact h.congr { Agree.refl with
      resources := unhold_resources rfl, actions := unhold_actions rfl }
  | launch => exact h.launch _ _
  | land => exact h.land _ _
  | _ =>
    refine h.congr ⟨?_, ?_, ?_, ?_, ?_, rfl, rfl, rfl, rfl⟩ <;>
      first | exact .refl | exact .edit rfl

end Tokens

end RemoteFs.Locking
