import RemoteFs.Advisory.Soundness

/-!
# What a critical section does

Most sections differ in what they check and agree in what they then do to the
state.  `Acts` lists the possible effects of a section on a sound state, each
with the facts its checks established.  Properties that every section has are
proved by cases on it.
-/

namespace RemoteFs.Advisory

open Storage Coordinator

/-- What an operation on use claims does to the installed ones. -/
inductive Claims (uses : Table UseScope UseRecord) : Table UseScope UseRecord → Prop
  | added {node : ℕ} {scope : UseScope} {claim : UseClaim}
      (hnode : node ≠ 0) (hscope : scope.check = .ok ())
      (hcl : claim.check = .ok ()) (hnew : uses.get? scope = none)
      (hfree : ∀ other record, uses.get? other = some record →
        record.node = node → claim.uses &&& record.claim.deny = 0 ∧
          record.claim.uses &&& claim.deny = 0) :
      Claims uses (uses.set scope ⟨node, claim⟩)
  | dropped (scope : UseScope) : Claims uses (uses.erase scope)

/-- The keys of an owner in the three conflict domains. -/
def ownerKeys (session owner node : ℕ) : List OwnerKey :=
  [.record, .wholeFile, .enforced].map (⟨session, owner, node, ·⟩)

/-- An owner loses its ranges and its registration. -/
def Coordinator.unboundBy (c : Coordinator) (session owner node : ℕ) : Coordinator :=
  let dropped := (ownerKeys session owner node).foldl dropLocked c
  { dropped.modifySession session (Session.unbind owner) with
    registeredOwners := dropped.registeredOwners - 1 }

inductive Acts (slip : Prop) (c : Coordinator) : Coordinator → Prop
  | aged {c' : Coordinator} (hag : Aging c c') : Acts slip c c'
  | created {options : FileSessionOptions} (hoptions : options.check = .ok ()) :
      Acts slip c (c.withSession options)
  | bound {session : ℕ} {s : Session} (node : ℕ) (scope : UseScope)
      (options : OwnerOptions) (hs : c.sessions.get? session = some s)
      (hroom : c.registeredOwners + c.uses.size < c.config.maxOwners) :
      Acts slip c { c.modifySession session (Session.bind node scope options) with
          registeredOwners := c.registeredOwners + 1 }
  | started {c₁ : Coordinator} {s : Session} {key : OwnerKey}
      {id : LockRequestID} {epoch : ℕ} {commands : List RangeCommand}
      (hag : Aging c c₁) (hadmits : Admits slip c₁ key id epoch commands s)
      (hclock : Timely c → ∃ k, c₁.reads = k + 1 ∧ c₁.now k < s.epochUntil)
      (hslip : ∀ before command rest, commands = before ++ command :: rest →
        c₁.Overdraws (freshRequest key id epoch commands) before command →
        slip) :
      Acts slip c (c₁.startedBy key id epoch commands).ticked
  | retried {ref : RequestRef} {a : Request} (hp : Poised c ref a) :
      Acts slip c (c.retryLocked ref a)
  | cancelled {c₁ c' : Coordinator} {ref : RequestRef} {a : Request}
      (hag : Aging c c₁) (hret : Retained c₁ ref a)
      (hst : a.result.state = .pending)
      (haging' : Aging (c₁.completeLocked ref .cancelled none) c') :
      Acts slip c c'
  | dropped {key : OwnerKey} {s : Session} (hs : c.sessions.get? key.session = some s) :
      Acts slip c (c.dropLocked key)
  | unbound {session owner : ℕ} {s : Session} {binding : OwnerBinding}
      (hs : c.sessions.get? session = some s)
      (hbinding : s.bindings.get? owner = some binding)
      (hretire : (c.retireOwner session owner).state = c.unboundBy session owner binding.node) :
      Acts slip c (c.retireOwner session owner).state
  | marked (session : ℕ) (change : Session → Session) (hchange : change = Session.startRetiring ∨
        change = Session.failRetiring) :
      Acts slip c (c.modifySession session change)
  | dissolved {session : ℕ} {s : Session} (hs : c.sessions.get? session = some s) :
      Acts slip c (c.dissolve session s)
  | used {uses : Table UseScope UseRecord} (hclaims : Claims c.uses uses)
      (hbound : c.registeredOwners + uses.size ≤ c.config.maxOwners) :
      Acts slip c { c with uses := uses }

section

variable {slip : Prop} {c : Coordinator}

lemma Acts.refl {c : Coordinator} : Acts slip c c := .aged .refl

lemma newSession_acts (c : Coordinator) (options : FileSessionOptions)
    (fence : Bool) : Acts slip c (c.newSession options fence).state := by
  unfold newSession
  split
  · exact .refl
  next hoptions =>
  split
  · exact .refl
  split
  · exact .refl
  · exact .created hoptions

section

variable (hc : Sound slip c)
include hc

lemma newOwner_acts (session node : ℕ) (scope : UseScope) (options : OwnerOptions) :
    Acts slip c (c.newOwner session node scope options).state := by
  unfold newOwner
  split
  · exact .refl
  · exact .refl
  split
  · exact .refl
  split
  · exact .refl
  next s hknown =>
  split
  · exact .refl
  next hactive =>
  split
  · exact .refl
  next hroom =>
  push Not at hroom
  exact .bound node scope options (hc.active hknown hactive) hroom.1

lemma applyOrdered_acts (session node owner : ℕ) (commands : List RangeCommand)
    (id : LockRequestID) (hslip : c.OverdrawnBy (.apply session node owner commands id) → slip) :
    Acts slip c (c.applyOrdered session node owner commands id).state := by
  have hlaunches := applyOrdered_launches hc session node owner commands id
  revert hlaunches
  generalize c.applyOrdered session node owner commands id = outcome
  intro hlaunches
  cases hlaunches with
  | aged hag _ => exact .aged hag
  | started hag hfirst hadmits _ hclock _ _ =>
    obtain ⟨rest, rfl⟩ := List.head?_eq_some_iff.mp hfirst
    refine .started hag hadmits hclock
      fun before command after hsplit hover =>
        hslip ⟨_, rest, rfl, before, command, after, hsplit, ?_⟩
    exact SameView.overdraws (hag.ages.view _) rfl |>.mp hover

lemma advanceOrdered_acts (ref : RequestRef) : Acts slip c (c.advanceOrdered ref).state := by
  rcases hc.advanceOrdered_cases ref with
    hsm | ⟨a, -, hp, -, -, hretry⟩
  · rw [hsm]
    exact .refl
  · rw [hretry]
    exact .retried hp

lemma cancel_acts (session node owner : ℕ)
    (id : LockRequestID) : Acts slip c (c.cancel session node owner id).state := by
  unfold cancel
  split
  · exact .refl
  obtain ⟨hag, hf⟩ := Sound.findLocked_found c session node owner id
  revert hag hf
  generalize c.findLocked session node owner id = outcome
  intro hag hf
  obtain ⟨next, result⟩ := outcome
  cases result with
  | error failure => exact .aged hag
  | ok pair =>
    obtain ⟨action, ref⟩ := pair
    obtain ⟨hkept, -⟩ := Sound.Found.retained (hc.aging hag) (hf rfl).1
    simp only
    split
    · next hst =>
      exact .cancelled hag hkept hst (readReceipt_aging _ session ref)
    · exact .aged (hag.trans (readReceipt_aging _ session ref))

lemma drop_acts (session node owner : ℕ) (domain : ConflictDomain) :
    Acts slip c (c.drop session node owner domain).state := by
  unfold drop
  split
  · exact .refl
  split
  · exact .refl
  split
  · exact .refl
  next s hknown =>
  split
  · exact .refl
  next hactive =>
  split
  · exact .refl
  have hs := hc.active hknown hactive
  refine .dropped (s := s) ?_
  change c.sessions.get? s.id = some s
  rwa [(hc.directory.session hs).1]

end

lemma foldl_dropLocked_frame (c : Coordinator) (keys : List OwnerKey) :
    Frame c (keys.foldl dropLocked c) :=
  List.foldlRecOn _ _ .refl fun c' hfold key _ => hfold.trans (c'.dropLocked_frame key)

lemma retireOwner_cases (hc : Sound slip c) (session owner : ℕ) :
    (c.retireOwner session owner).state = c ∨ ∃ s binding, c.sessions.get? session = some s ∧
        s.bindings.get? owner = some binding ∧ c.retireOwner session owner =
          ⟨c.unboundBy session owner binding.node, .ok ()⟩ := by
  unfold retireOwner
  split
  · exact .inl rfl
  next s hknown =>
  split
  · exact .inl rfl
  split
  · exact .inl rfl
  next binding hbind =>
  have hs := hc.bound hknown hbind
  obtain rfl := (hc.directory.session hs).1
  exact .inr ⟨s, binding, hs, hbind, rfl⟩

lemma retireOwner_acts (hc : Sound slip c) (session owner : ℕ) :
    Acts slip c (c.retireOwner session owner).state := by
  rcases retireOwner_cases hc session owner with
    hsm | ⟨s, binding, hs, hbind, hretire⟩
  · rw [hsm]
    exact .refl
  · exact .unbound hs hbind (by rw [hretire])

variable (c)

lemma history_aging (session : ℕ) : Aging c (c.history session).state := by
  have hag := c.advanced_aging session
  unfold history
  split
  · exact .refl
  split
  · exact .refl
  split
  · next hnext =>
    rwa [hnext] at hag
  next hnext =>
  rw [hnext] at hag
  split <;> exact hag

lemma applyReceipt_aging (session : ℕ) (id : LockRequestID) (ref : RequestRef) :
    Aging c (c.applyReceipt session id ref).state := by
  unfold applyReceipt
  split
  · exact .refl
  split
  · exact .refl
  split
  · exact .refl
  · exact readReceipt_aging c session ref

lemma queryReceipt_aging (session : ℕ)
    (ref : RequestRef) : Aging c (c.queryReceipt session ref).state := by
  unfold queryReceipt
  split
  · exact .refl
  split
  · exact .refl
  · exact readReceipt_aging c session ref

lemma beginRetire_acts (session : ℕ) : Acts slip c (c.beginRetire session).state := by
  unfold beginRetire
  split
  · exact .refl
  split
  · exact .refl
  · exact .marked session _ (.inl rfl)

lemma endRetire_acts (session : ℕ) (fence : Except Failure Unit) :
    Acts slip c (c.endRetire session fence).state := by
  unfold endRetire
  split
  · exact .refl
  next s hs =>
  split
  · exact .refl
  split
  · exact .marked session _ (.inr rfl)
  · exact .dissolved hs

lemma addUse_acts (node : ℕ) (scope : UseScope)
    (claim : UseClaim) : Acts slip c (c.addUse node scope claim).state := by
  unfold addUse
  split
  · exact .refl
  · exact .refl
  · exact .refl
  next hcall hscope hcl =>
  split
  · split <;> exact .refl
  next hnew =>
  split
  · exact .refl
  next hfree =>
  split
  · exact .refl
  next hroom =>
    refine .used (.added ?_ hscope hcl hnew fun other record hg hnode => ?_) ?_
    · exact refuse_ok.mp hcall
    · simp only [List.any_eq_true, not_exists, not_and, Bool.and_eq_true,
        Bool.or_eq_true, decide_eq_true_eq, not_or, not_not] at hfree
      exact hfree (other, record) (Table.mem_toList.mpr hg) hnode
    · rw [Table.size_set_of_none _ hnew]
      push_cast
      omega

variable {c}

section

variable (hc : Sound slip c)
include hc

lemma erasesUse_acts {scope : UseScope}
    {record : UseRecord} (hg : c.uses.get? scope = some record) :
    Acts slip c { c with uses := c.uses.erase scope } := by
  have hbound := hc.directory.ownersBound
  have hsize := Table.size_erase hg
  exact .used (.dropped scope) (by omega)

lemma dropUse_acts (node : ℕ) (scope : UseScope) : Acts slip c (c.dropUse node scope).state := by
  unfold dropUse
  split
  · exact .refl
  · exact .refl
  split
  · exact .refl
  next hg =>
  split
  · exact .refl
  · exact erasesUse_acts hc hg

lemma dropUseExact_acts (node : ℕ) (scope : UseScope)
    (claim : UseClaim) : Acts slip c (c.dropUseExact node scope claim).state := by
  unfold dropUseExact
  split
  · exact .refl
  · exact .refl
  · exact .refl
  split
  · next hg => exact erasesUse_acts hc hg
  · exact .refl

lemma exec_acts (step : Section)
    (hslip : c.OverdrawnBy step → slip) : Acts slip c (c.exec step) := by
  cases step with
  | newSession options fence => exact newSession_acts c options fence
  | newOwner session node scope options => exact newOwner_acts hc session node scope options
  | apply session node owner commands id =>
    exact applyOrdered_acts hc session node owner commands id hslip
  | advance ref => exact advanceOrdered_acts hc ref
  | applyReceipt session id ref => exact .aged (applyReceipt_aging c session id ref)
  | queryReceipt session ref => exact .aged (queryReceipt_aging c session ref)
  | find session node owner id => exact .aged (Sound.findLocked_found c session node owner id).1
  | requestNode session owner id => exact .aged (Sound.requestLocked_found c session owner id).1
  | cancel session node owner id => exact cancel_acts hc session node owner id
  | drop session node owner domain => exact drop_acts hc session node owner domain
  | retireOwner session owner => exact retireOwner_acts hc session owner
  | history session => exact .aged (history_aging c session)
  | closeAdmission session => exact .aged (c.advanced_aging session)
  | beginRetire session => exact beginRetire_acts c session
  | endRetire session fence => exact endRetire_acts c session fence
  | addUse node scope claim => exact addUse_acts c node scope claim
  | dropUse node scope => exact dropUse_acts hc node scope
  | dropUseExact node scope claim => exact dropUseExact_acts hc node scope claim

end

end

end RemoteFs.Advisory
