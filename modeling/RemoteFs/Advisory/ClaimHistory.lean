import RemoteFs.Advisory.ExactClaims

/-!
# The lifecycle of exact claims

Dropping the ranges of an owner, retiring it and retiring its session end claims
without a `RemoveExact` command.  Together with the batches these are all the
sections that change a claim, so the facts about exact claims hold in every
reachable state.
-/

namespace RemoteFs.Advisory

open Storage Coordinator

variable {key : OwnerKey} {ref : RequestRef} {a : Request} {s : Session}

/-! ## Dropping the ranges of an owner -/

/-- Requests of a key may have been completed, and none was granted. -/
structure Ends (key : OwnerKey) (heap heap' : RequestRef → Option Request) : Prop where
  granted : ∀ {ref a}, heap' ref = some a → a.result.state = .granted → heap ref = some a
  other : ∀ {ref a}, heap ref = some a → a.key ≠ key → heap' ref = some a

variable {heap : RequestRef → Option Request}

lemma Ends.refl : Ends key heap heap := ⟨fun h _ => h, fun h _ => h⟩

lemma Ends.trans {heap' heap'' : RequestRef → Option Request} (h : Ends key heap heap')
    (h' : Ends key heap' heap'') : Ends key heap heap'' :=
  ⟨fun hg hst => h.granted (h'.granted hg hst) hst,
    fun hg hne => h'.other (h.other hg hne) hne⟩

variable {c : Coordinator}

lemma completeLocked_ends (hg : c.heap ref = some a) (hst : state ≠ .granted) :
    Ends a.key c.heap (c.completeLocked ref state none).heap := by
  rw [completeLocked_heap hg]
  constructor
  · intro other b hb hgr
    rcases heap_cases rfl hb with ⟨-, rfl⟩ | ⟨-, hb⟩
    · exact absurd hgr hst
    · exact hb
  · intro other b hb hne
    rw [Function.update_of_ne]
    · exact hb
    · rintro rfl
      cases hg.symm.trans hb
      exact hne rfl

lemma settleDropped_ends (key : OwnerKey) (c : Coordinator)
    (ref : RequestRef) : Ends key c.heap (settleDropped key c ref).heap := by
  unfold settleDropped
  split
  · exact .refl
  next action hg =>
  split
  · exact .refl
  next hkey =>
  rw [not_not] at hkey
  subst hkey
  split
  · exact completeLocked_ends hg (by decide)
  split
  · exact completeLocked_ends hg (by decide)
  · exact .refl

lemma settleDropped_done
    (hg : (settleDropped key c ref).heap ref = some a) (hkey : a.key = key) :
    a.result.state ≠ .granted := by
  intro hgr
  have hold := (settleDropped_ends key c ref).granted hg hgr
  unfold settleDropped at hg
  simp only [hold, hkey, ne_eq, not_true_eq_false, if_false, hgr,
    reduceCtorEq, if_true] at hg
  rw [completeLocked_heap hold, Function.update_self, Option.some.injEq] at hg
  rw [← hg] at hgr
  cases hgr

lemma foldl_settleDropped (key : OwnerKey) (refs : List RequestRef) (c : Coordinator) :
    Ends key c.heap (refs.foldl (settleDropped key) c).heap ∧ ∀ ref ∈ refs, ∀ {a},
        (refs.foldl (settleDropped key) c).heap ref = some a →
        a.key = key → a.result.state ≠ .granted := by
  induction refs generalizing c with
  | nil => exact ⟨.refl, nofun⟩
  | cons first rest ih =>
    obtain ⟨hends, hdone⟩ := ih (settleDropped key c first)
    refine ⟨(settleDropped_ends key c first).trans hends, ?_⟩
    intro ref hm a hg hkey hgr
    rcases List.mem_cons.mp hm with rfl | hrest
    · exact settleDropped_done (hends.granted hg hgr) hkey hgr
    · exact hdone ref hrest hg hkey hgr

lemma settleDropped_heldRanges (key other : OwnerKey) (c : Coordinator) (ref : RequestRef) :
    (settleDropped key c ref).heldRanges other = c.heldRanges other := by
  unfold settleDropped
  split
  · rfl
  split
  · rfl
  split
  · exact completeLocked_heldRanges ..
  split
  · exact completeLocked_heldRanges ..
  · rfl

section

variable {c : Coordinator} {key : OwnerKey}

variable {other : OwnerKey}

lemma clearLocked_heldRanges_ne (hne : other ≠ key) :
    (c.clearLocked key).heldRanges other = c.heldRanges other := by
  unfold clearLocked
  split
  · rfl
  unfold replaceLocked
  split
  · exact installRangesLocked_heldRanges_ne [] hne
  · rfl

lemma dropLocked_heldRanges_ne (hne : other ≠ key) :
    (c.dropLocked key).heldRanges other = c.heldRanges other := by
  unfold dropLocked
  rw [pruneOwnerLocked_heldRanges]
  exact List.foldlRecOn (motive := fun c' : Coordinator =>
    c'.heldRanges other = c.heldRanges other) _ _
    (clearLocked_heldRanges_ne hne) fun c' hfold ref _ =>
      (settleDropped_heldRanges key other c' ref).trans hfold

lemma dropLocked_ends (c : Coordinator) (key : OwnerKey) :
    Ends key c.heap (c.dropLocked key).heap ∧ ∀ {ref a}, Retained c ref a → ∀ {a'},
        (c.dropLocked key).heap ref = some a' → a.key = key →
        a'.key = key → a'.result.state ≠ .granted := by
  unfold dropLocked
  simp only [pruneOwnerLocked_heap]
  have hfold := fun refs => foldl_settleDropped key refs (c.clearLocked key)
  simp only [clearLocked_heap] at hfold
  refine ⟨(hfold _).1, fun {ref a} hk {a'} hg hkey => (hfold _).2 ref ?_ hg⟩
  obtain ⟨s, hs, hl⟩ := hk.listed
  rw [hkey] at hs
  rw [hs]
  exact List.mem_map.mpr ⟨(a.id, ref), Table.mem_toList.mpr hl, rfl⟩

lemma Exact.dropLocked (hexa : Exact c) (hc : Sound True c)
    (hs : c.sessions.get? key.session = some s) : Exact (c.dropLocked key) := by
  obtain ⟨hends, hdone⟩ := dropLocked_ends c key
  have hempty : (c.dropLocked key).claimIds key = [] := by
    unfold claimIds heldRanges
    rw [(hc.ledger.dropLocked hc.directory hs).2.1]
    rfl
  have hsm : ∀ {other}, other ≠ key →
      (c.dropLocked key).claimIds other = c.claimIds other :=
    fun hne => congrArg _ (dropLocked_heldRanges_ne hne)
  constructor
  · intro other he
    by_cases heq : other = key
    · rw [heq, hempty]
      exact List.nodup_nil
    · rw [hsm heq]
      exact hexa.nodup he
  · intro other claim he hcl
    by_cases heq : other = key
    · rw [heq, hempty] at hcl
      cases hcl
    · rw [hsm heq] at hcl
      obtain ⟨ref, a, ha, hkey, hrest⟩ := hexa.origin he hcl
      exact ⟨ref, a, hends.other ha (hkey ▸ heq), hkey, hrest⟩
  · intro ref a he hk hgr had
    obtain ⟨b, hb⟩ := hk.back (c.dropLocked_frame key)
    have hold := hends.granted hk.heap hgr
    obtain rfl := Option.some.inj (hold.symm.trans hb.heap)
    have hne : a.key ≠ key := fun hkey => hdone hb hk.heap hkey hkey hgr
    rw [hsm hne]
    exact hexa.live he hb hgr had

end

/-! ## Sections that keep every claim -/

section

variable {c c' : Coordinator}

/-- Nothing but session records changed, and no history gained a request. -/
lemma Carries.of_sessions (howners : c'.owners = c.owners) (hheap : c'.heap = c.heap)
    (hback : ∀ {id s' request ref}, c'.sessions.get? id = some s' →
      s'.actions.get? request = some ref →
      ∃ s, c.sessions.get? id = some s ∧ s.actions.get? request = some ref) :
    Carries c c' where
  held := by simp [heldRanges, howners]
  forth := fun hg _ => hheap ▸ hg
  back := fun hk _ => by
    obtain ⟨s', hs', hl⟩ := hk.listed
    exact ⟨hheap ▸ hk.heap, hback hs' hl⟩

lemma modifySession_carries (c : Coordinator) (session : ℕ)
    (change : Session → Session) (hactions : ∀ s, (change s).actions = s.actions) (count : ℤ) :
    Carries c { c.modifySession session change with
      registeredOwners := count } := by
  refine .of_sessions rfl rfl fun {id s' request ref} hs' hl => ?_
  obtain ⟨s, hs, rfl⟩ := Table.of_get?_modify hs'
  refine ⟨s, hs, ?_⟩
  split at hl
  · rwa [hactions] at hl
  · exact hl

lemma withSession_carries (c : Coordinator) (options : FileSessionOptions) :
    Carries c (c.withSession options) := by
  refine .of_sessions rfl rfl fun {id s' request ref} hs' hl => ?_
  rcases Table.set_cases hs' with ⟨-, rfl⟩ | ⟨-, hs'⟩
  · cases (Table.get?_empty _).symm.trans hl
  · exact ⟨s', hs', hl⟩

lemma admitLocked_carries (hc : Sound True c) (action : Request)
    (hst : action.result.state = .pending) :
    Carries c (c.admitLocked action.key.session action) where
  held := fun _ => rfl
  forth := fun hg _ => by
    change Function.update c.heap c.allocated (some action) _ = _
    rwa [Function.update_of_ne (hc.directory.allocated hg).ne]
  back := fun {ref a} hk hgr => by
    have hg := hk.heap
    change Function.update c.heap c.allocated (some action) ref = some a at hg
    have hne : ref ≠ c.allocated := by
      rintro rfl
      rw [Function.update_self, Option.some.injEq] at hg
      rw [← hg, hst] at hgr
      cases hgr
    rw [Function.update_of_ne hne] at hg
    obtain ⟨s', hs', hl⟩ := hk.listed
    obtain ⟨s, hs, rfl⟩ := Table.of_get?_modify hs'
    refine ⟨hg, s, hs, ?_⟩
    split at hl
    · rcases Table.set_cases hl with ⟨-, rfl⟩ | ⟨-, hl⟩
      · exact absurd rfl hne
      · exact hl
    · exact hl

variable {session : ℕ}

lemma dissolve_heldRanges_ne (hne : key.session ≠ session) :
    (c.dissolve session s).heldRanges key = c.heldRanges key := by
  have hg : (c.dissolve session s).owners.get? key = c.owners.get? key := by
    ext state
    exact Table.get?_filter_iff.trans (by simp [hne])
  unfold heldRanges
  rw [hg]

lemma dissolve_heldRanges_self (hkey : key.session = session) :
    (c.dissolve session s).heldRanges key = [] := by
  have hg : (c.dissolve session s).owners.get? key = none := by
    rw [Option.eq_none_iff_forall_not_mem]
    intro state hst
    have hk := (Table.get?_filter_iff.mp hst).2
    simp [hkey] at hk
  unfold heldRanges
  rw [hg]

lemma Exact.dissolve (hexa : Exact c) (session : ℕ) (s : Session) :
    Exact (c.dissolve session s) := by
  have hli : ∀ {key claim}, claim ∈ (c.dissolve session s).claimIds key →
      key.session ≠ session ∧ claim ∈ c.claimIds key := by
    intro key claim hcl
    by_cases hkey : key.session = session
    · rw [claimIds, dissolve_heldRanges_self hkey] at hcl
      cases hcl
    · rw [claimIds, dissolve_heldRanges_ne hkey] at hcl
      exact ⟨hkey, hcl⟩
  constructor
  · intro key he
    by_cases hkey : key.session = session
    · rw [claimIds, dissolve_heldRanges_self hkey]
      exact List.nodup_nil
    · rw [claimIds, dissolve_heldRanges_ne hkey]
      exact hexa.nodup he
  · intro key claim he hcl
    exact hexa.origin he (hli hcl).2
  · intro ref a he hk hgr had
    obtain ⟨hold, hne⟩ := Sound.retained_dissolve.mp hk
    rw [claimIds, dissolve_heldRanges_ne hne]
    exact hexa.live he hold hgr had

end

/-! ## Every section -/

/-- How a claim may cease to live in one section. -/
inductive Ceases (c c' : Coordinator) (key : OwnerKey) (claim : ClaimID) : Prop
  | removed {ref : RequestRef} {a : Request} (hg : c'.heap ref = some a)
      (hkey : a.key = key) (hremoved : Removed claim a.result.effects)
  | dropped (hdrop : c' = c.dropLocked key)
  | unbound (hretire : c' = (c.retireOwner key.session key.owner).state)
  | dissolved {s : Session} (hs : c.sessions.get? key.session = some s)
      (hend : c' = c.dissolve key.session s)

/-- A section keeps the invariant and accounts for every claim it ends. -/
structure Accounts (c c' : Coordinator) : Prop where
  exact : Exact c'
  ceases : ∀ {key claim}, key.domain = .enforced → claim ∈ c.claimIds key →
    claim ∉ c'.claimIds key → Ceases c c' key claim

section

variable {c c' : Coordinator}

lemma Accounts.of_carries (hexa : Exact c) (hcarries : Carries c c') : Accounts c c' := by
  refine ⟨hcarries.exact hexa, fun {key claim} he hli hgo => ?_⟩
  rw [claimIds, hcarries.held he] at hgo
  exact absurd hli hgo

lemma Edited.accounts (hedited : Edited ref key c c') : Accounts c c' := by
  refine ⟨hedited.exact, fun {other claim} he hli hgo => ?_⟩
  obtain ⟨rfl, a, ha, hkey, hremoved⟩ := (hedited.persists he hli).resolve_left hgo
  exact .removed ha hkey hremoved

lemma startedBy_edited (hexa : Exact c) {id : LockRequestID} {epoch : ℕ}
    {commands : List RangeCommand} (hadmits : Admits True c key id epoch commands s)
    (hunique : ∀ {ref ref' a a'}, (c.startedBy key id epoch commands).heap ref = some a →
      (c.startedBy key id epoch commands).heap ref' = some a' →
      a.key.session = a'.key.session → a.id = a'.id → ref = ref') :
    Edited c.allocated key c (c.startedBy key id epoch commands) := by
  have hp := hadmits.enrolled.1
  have hf := startLocked_frame (c.enrolledBy key id epoch commands)
    c.allocated
  have hcarries := admitLocked_carries hadmits.sound (freshRequest key id epoch commands) rfl
  have hready : Ready (c.enrolledBy key id epoch commands) c.allocated
      (freshRequest key id epoch commands) :=
    { exact := hcarries.exact hexa
      directory := hp.directory
      shaped := fun other b hne hb => by
        change Function.update c.heap c.allocated _ other = some b at hb
        rw [Function.update_of_ne hne] at hb
        exact hadmits.sound.shaped other b hb
      get := hp.retained.heap
      pending := rfl
      unanswered := hadmits.unanswered
      unique := fun {other b} hb hsess hid => by
        obtain ⟨b', hb', hsm⟩ := hf.request_forth hb
        obtain ⟨a', ha', hself⟩ := hf.request_forth hp.retained.heap
        refine hunique hb' ha' ?_ ?_
        · rw [show b'.key = b.key from congrArg Identity.key hsm,
            show a'.key = _ from congrArg Identity.key hself]
          exact hsess
        · rw [show b'.id = b.id from congrArg Identity.id hsm,
            show a'.id = _ from congrArg Identity.id hself]
          exact hid }
  exact (hready.startLocked hp).after hcarries

lemma retryLocked_edited (hexa : Exact c) (hse : Settled c) (hp : Poised c ref a) :
    Edited ref a.key c (c.retryLocked ref a) := by
  have hg := hp.retained.heap
  have hshape := hse.sound.shaped ref a hg
  have hready : Ready c ref a :=
    { exact := hexa
      directory := hse.sound.directory
      shaped := fun other b _ hb => hse.sound.shaped other b hb
      get := hg
      pending := hp.pending
      unanswered := hshape.unanswered hp.pending
      unique := fun hb hsess hid => hse.registry.unique hb hg hsess hid }
  exact hready.retryLocked hp (hshape.pending_body hp.pending).2

lemma foldl_dropLocked (keys : List OwnerKey) (hexa : Exact c) (hc : Sound True c)
    (hs : c.sessions.get? session = some s) (hkeys : ∀ key ∈ keys, key.session = session) :
    Exact (keys.foldl Coordinator.dropLocked c) ∧ ∀ {key}, key ∉ keys →
      (keys.foldl Coordinator.dropLocked c).heldRanges key = c.heldRanges key := by
  induction keys generalizing c s with
  | nil => exact ⟨hexa, fun _ => rfl⟩
  | cons key rest ih =>
    obtain ⟨hkey, hrest⟩ := List.forall_mem_cons.mp hkeys
    rw [← hkey] at hs hrest
    obtain ⟨next, hnext, -⟩ := (c.dropLocked_frame key).session_forth hs
    obtain ⟨hdropped, hk⟩ := ih (hexa.dropLocked hc hs)
      (hc.dropLocked hs) (hkey ▸ hnext) (hkey ▸ hrest)
    refine ⟨hdropped, fun hot => ?_⟩
    rw [List.mem_cons, not_or] at hot
    exact (hk hot.2).trans (dropLocked_heldRanges_ne hot.1)

lemma Exact.unboundBy (hexa : Exact c) (hc : Sound True c)
    (hs : c.sessions.get? session = some s) (owner node : ℕ) :
    Exact (c.unboundBy session owner node) ∧ ∀ {key}, key.domain = .enforced →
      (key.session ≠ session ∨ key.owner ≠ owner) →
      (c.unboundBy session owner node).heldRanges key = c.heldRanges key := by
  obtain ⟨hdropped, hk⟩ := foldl_dropLocked (ownerKeys session owner node)
    hexa hc hs (by simp [ownerKeys])
  have hunbound : Carries ((ownerKeys session owner node).foldl
      Coordinator.dropLocked c) (c.unboundBy session owner node) :=
    modifySession_carries _ session (Session.unbind owner) (fun _ => rfl) _
  refine ⟨hunbound.exact hdropped, fun {key} he hot =>
    (hunbound.held he).trans (hk fun hm => ?_)⟩
  obtain ⟨domain, -, rfl⟩ := List.mem_map.mp hm
  exact hot.elim (fun h => h rfl) fun h => h rfl

lemma Acts.accounts (hacts : Acts True c c') (hexa : Exact c)
    (hse : Settled c) (hreg : Registry c') : Accounts c c' := by
  cases hacts with
  | aged haging => exact .of_carries hexa (.of_ages haging.ages)
  | created _ => exact .of_carries hexa (withSession_carries c _)
  | bound node scope options _ _ =>
    exact .of_carries hexa (modifySession_carries c _
      (Session.bind node scope options) (fun _ => rfl) _)
  | started haging hadmits _ _ =>
    have hcarries := Carries.of_ages haging.ages
    have hstarted := startedBy_edited (hcarries.exact hexa) hadmits
      fun ha ha' => hreg.unique ha ha'
    exact ((hstarted.after hcarries).trans_carries
      (.of_ages (ticked_ages _)) fun {a} ha => ⟨a, ha, rfl, rfl⟩).accounts
  | retried hp => exact (retryLocked_edited hexa hse hp).accounts
  | cancelled haging hret hst haging' =>
    exact .of_carries hexa ((Carries.of_ages haging.ages).trans
      ((completeLocked_carries hret.heap hst (by decide) none).trans
        (.of_ages haging'.ages)))
  | @dropped key s hs =>
    refine ⟨hexa.dropLocked hse.sound hs, fun {other claim} _ hli hgo => ?_⟩
    by_cases heq : other = key
    · exact .dropped (heq ▸ rfl)
    · rw [claimIds, dropLocked_heldRanges_ne heq] at hgo
      exact absurd hli hgo
  | @unbound session owner s binding hs _ hretire =>
    obtain ⟨hretired, hk⟩ := hexa.unboundBy hse.sound hs owner
      binding.node
    rw [← hretire] at hretired hk
    refine ⟨hretired, fun {key claim} he hli hgo => ?_⟩
    by_cases hot : key.session ≠ session ∨ key.owner ≠ owner
    · rw [claimIds, hk he hot] at hgo
      exact absurd hli hgo
    · simp only [not_or, not_not] at hot
      obtain ⟨rfl, rfl⟩ := hot
      exact .unbound rfl
  | marked session change hchange =>
    refine .of_carries hexa (modifySession_carries c session change
      (fun s => ?_) c.registeredOwners)
    rcases hchange with rfl | rfl
    · rfl
    · rfl
  | @dissolved session s hs =>
    refine ⟨hexa.dissolve session s, fun {key claim} _ hli hgo => ?_⟩
    by_cases hkey : key.session = session
    · subst hkey
      exact .dissolved hs rfl
    · rw [claimIds, dissolve_heldRanges_ne hkey] at hgo
      exact absurd hli hgo
  | used _ _ => exact .of_carries hexa (.of_sessions rfl rfl fun hs hl => ⟨_, hs, hl⟩)

/-- What is known of exact claims in a reachable state. -/
structure Claimed (c : Coordinator) : Prop where
  settled : Settled c
  exact : Exact c

variable {config : Config} {now : ℕ → Time}

lemma exact_new (hnew : new config now = .ok c) : Exact c := by
  obtain ⟨-, rfl⟩ := new_eq_ok hnew
  have hnone : ∀ key, (empty config now).claimIds key = [] := by
    intro key
    simp [empty, claimIds, heldRanges]
  constructor
  · intro key _
    rw [hnone]
    exact List.nodup_nil
  · intro key claim _ hcl
    rw [hnone] at hcl
    cases hcl
  · intro ref a _ hk
    cases hk.heap

lemma Claimed.exec (hcla : Claimed c) (step : Section) : Claimed (c.exec step) :=
  have hse := hcla.settled.exec step
  ⟨hse, ((exec_acts hcla.settled.sound step fun _ =>
    trivial).accounts hcla.exact hcla.settled hse.registry).exact⟩

lemma claimed_of_run (hclock : Monotone now) (hnew : new config now = .ok c)
    (steps : List Section) : Claimed (steps.foldl exec c) :=
  Runs.invariant (fun _ step hcla => hcla.exec step)
    ⟨settled_of_run hclock hnew [], exact_new hnew⟩ steps

end

/-! ## The lifecycle -/

section

variable {slip : Prop} {a : Request}

lemma Request.Shape.applied (hshape : a.Shape slip)
    (hdone : a.result.everGranted = true ∨ a.result.claims ≠ []) :
    a.Applied ∧ (a.result.state = .granted ∨ a.result.state = .released) := by
  have hbo := hshape.body
  unfold Request.Body at hbo
  have hnot : a.result.everGranted = false → a.result.claims = [] → False := by
    intro hever hclaims
    simp [hever, hclaims] at hdone
  cases hst : a.result.state with
  | granted =>
    rw [hst] at hbo
    exact ⟨hbo.1, .inl rfl⟩
  | released =>
    rw [hst] at hbo
    exact ⟨hbo.1, .inr rfl⟩
  | pending =>
    rw [hst] at hbo
    exact (hnot hbo.1.everGranted hbo.1.claims).elim
  | cancelled | rejected =>
    rw [hst] at hbo
    exact (hnot hbo.everGranted hbo.claims).elim
  | undefined _ =>
    rw [hst] at hbo
    exact hbo.elim

lemma Request.Shape.everGranted_of_released (hshape : a.Shape slip)
    (hr : a.result.state = .released) (had : a.AddsExact) :
    a.result.everGranted = true := by
  have hbo := hshape.body
  unfold Request.Body at hbo
  rw [hr] at hbo
  obtain ⟨command, hm, hedit⟩ := had
  refine hbo.2.trans (List.any_eq_true.mpr ⟨command, hm, ?_⟩)
  rw [hedit]
  rfl

end

/-- The identities of the live claims of enforced ranges in a session. -/
def Coordinator.sessionClaims (c : Coordinator) (session : ℕ) : List ClaimID :=
  c.owners.toList.flatMap fun entry =>
    if entry.1.session = session ∧ entry.1.domain = .enforced
    then entry.2.ranges.map RangeClaim.id else []

namespace Claimed

variable {c : Coordinator}

section

variable (hcla : Claimed c)
include hcla

variable {claim : ClaimID}

lemma origin (he : key.domain = .enforced) (hli : claim ∈ c.claimIds key) :
    ∃ ref a suffix, c.heap ref = some a ∧ a.key = key ∧ a.result.state = .granted ∧
      claim ∈ a.result.claims ∧ cutLastColon claim = some (a.id, suffix) := by
  obtain ⟨ref, a, ha, hkey, hgr, hl⟩ := hcla.exact.origin he hli
  have hadm := hcla.settled.sound.directory.admitted ha
  obtain ⟨index, hindex, rfl⟩ := ((hcla.settled.sound.shaped ref a
    ha).granted_body hgr).1.mem_claims hadm hl
  exact ⟨ref, a, _, ha, hkey, hgr, hl, cutLastColon_claimAt hadm.epoch hindex⟩

/-- A claim identity names the request that created it. -/
lemma creator (hg : c.heap ref = some a) (hsess : a.key.session = key.session)
    (he : key.domain = .enforced) (hli : claim ∈ c.claimIds key)
    (hnames : cutLastColon claim = some (a.id, suffix)) :
    a.key = key ∧ a.result.state = .granted ∧ claim ∈ a.result.claims := by
  obtain ⟨ref', b, suffix', hb, hkey, hgr, hl, hcut⟩ := hcla.origin he hli
  rw [hnames, Option.some.injEq, Prod.mk.injEq] at hcut
  obtain rfl := hcla.settled.registry.unique hg hb
    (by rw [hsess, hkey]) hcut.1
  cases hg.symm.trans hb
  exact ⟨hkey, hgr, hl⟩

lemma sessionClaims_nodup (session : ℕ) : (c.sessionClaims session).Nodup := by
  have hheld : ∀ {key state}, (key, state) ∈ c.owners.toList →
      c.claimIds key = state.ranges.map RangeClaim.id := by
    intro key state hm
    rw [claimIds, Ledger.heldRanges_eq (Table.mem_toList.mp hm)]
  refine List.nodup_flatMap.mpr ⟨fun entry hm => ?_, ?_⟩
  · split
    · next hkey =>
      rw [← hheld hm]
      exact hcla.exact.nodup hkey.2
    · exact List.nodup_nil
  · refine c.owners.toList_pairwise.imp_of_mem ?_
    intro first second hfirst hsecond hne claim hcl hclaim'
    beta_reduce at hcl hclaim'
    split at hcl
    · next hkey =>
      split at hclaim'
      · next hkey' =>
        rw [← hheld hfirst] at hcl
        rw [← hheld hsecond] at hclaim'
        obtain ⟨ref, a, suffix, ha, hown, -, -, hcut⟩ := hcla.origin hkey.2 hcl
        have hsm := hcla.creator ha
          (by rw [hown, hkey.1, hkey'.1]) hkey'.2 hclaim' hcut
        exact hne (hown.symm.trans hsm.1)
      · cases hclaim'
    · cases hcl

lemma granted_iff (hk : Retained c ref a) (had : a.AddsExact) :
    a.result.state = .granted ↔ ∃ claim ∈ a.result.claims, claim ∈ c.claimIds a.key := by
  have hadm := hcla.settled.sound.directory.admitted hk.heap
  have he := had.enforced hadm
  constructor
  · exact fun hgr => hcla.exact.live he hk hgr had
  · rintro ⟨claim, hl, hli⟩
    obtain ⟨happlied, -⟩ := (hcla.settled.sound.shaped ref a
      hk.heap).applied (.inr (List.ne_nil_of_mem hl))
    obtain ⟨index, hindex, rfl⟩ := happlied.mem_claims hadm hl
    exact (hcla.creator hk.heap rfl he hli
      (cutLastColon_claimAt hadm.epoch hindex)).2.1

lemma released_iff (hk : Retained c ref a) (had : a.AddsExact) :
    a.result.state = .released ↔ a.result.everGranted = true ∧
      ∀ claim ∈ a.result.claims, claim ∉ c.claimIds a.key := by
  have hshape := hcla.settled.sound.shaped ref a hk.heap
  have hlive := hcla.granted_iff hk had
  constructor
  · intro hr
    refine ⟨hshape.everGranted_of_released hr had, fun claim hl hli => ?_⟩
    have hgr := hlive.mpr ⟨claim, hl, hli⟩
    cases hr.symm.trans hgr
  · rintro ⟨hever, hgo⟩
    refine (hshape.applied (.inl hever)).2.resolve_left fun hgr => ?_
    obtain ⟨claim, hl, hli⟩ := hlive.mp hgr
    exact hgo claim hl hli

end

end Claimed

/-- In every reachable state the live claims of a session have distinct
identities; a request that is still in the history and created a live claim is
granted and lists it; a request with exact claims is granted as long as one of
its claims lives, and released from the moment the last one has ceased; a claim
ceases only by a recorded removal under its owner, by dropping or retiring the
owner, or with the session.  The states of each receipt form a chain of allowed
changes.

Identities are used once because epochs end; that needs a clock which does not
go back, as the monotonic readings that `New` installs. -/
theorem exact_claim_lifecycle {config : Config} {now : ℕ → Time}
    {c₀ c : Coordinator} (hclock : Monotone now)
    (hnew : new config now = .ok c₀) (steps : List Section) (hrun : steps.foldl exec c₀ = c) :
    (∀ session, (c.sessionClaims session).Nodup) ∧ (∀ {ref a key claim suffix}, Retained c ref a →
        a.key.session = key.session → key.domain = .enforced →
        claim ∈ c.claimIds key → cutLastColon claim = some (a.id, suffix) →
        a.key = key ∧ a.result.state = .granted ∧ claim ∈ a.result.claims) ∧
      (∀ {ref a}, Retained c ref a → a.AddsExact → (a.result.state = .granted ↔
          ∃ claim ∈ a.result.claims, claim ∈ c.claimIds a.key) ∧
        (a.result.state = .released ↔ a.result.everGranted = true ∧
          ∀ claim ∈ a.result.claims, claim ∉ c.claimIds a.key)) ∧
      (∀ (step : Section) {key claim}, key.domain = .enforced →
        claim ∈ c.claimIds key → claim ∉ (c.exec step).claimIds key →
        Ceases c (c.exec step) key claim) ∧
      ∀ {ref a}, c.heap ref = some a → List.IsChain Follows (.pending :: c.entered ref) ∧
        a.result.state = (c.entered ref).getLastD .pending ∧
        (a.result.everGranted = true ↔ .granted ∈ c.entered ref) := by
  subst hrun
  have hcla := claimed_of_run hclock hnew steps
  have hchronicle := chronicle_of_run hnew steps
  refine ⟨hcla.sessionClaims_nodup, ?_, ?_, ?_, ?_⟩
  · intro ref a key claim suffix hret hsession he hli hnames
    exact hcla.creator hret.heap hsession he hli hnames
  · intro ref a hret had
    exact ⟨hcla.granted_iff hret had, hcla.released_iff hret had⟩
  · intro step key claim
    have hse := hcla.settled.exec step
    exact ((exec_acts hcla.settled.sound step fun _ =>
      trivial).accounts hcla.exact hcla.settled hse.registry).ceases
  · intro ref a hg
    exact ⟨hchronicle.chain ref, hchronicle.state hg, hchronicle.granted hg⟩

/-- A command on a range that other openers must not read. -/
def exactLock (edit : RangeEdit) (start : UInt64) (claim : ClaimID) : RangeCommand :=
  ⟨.enforced, .exclusive, ⟨.bytes, start, 10, 0⟩, edit, claim, false,
    .preserveBeforeAcquire, ⟨0, readData⟩⟩

/-- One batch creates two claims, and a later one removes the first of them. -/
def partialRelease : List Section :=
  [.newSession DefaultFileSessionOptions true,
    .newOwner 1 7 ⟨[97]⟩ ⟨.explicit, 0, 1⟩,
    .apply 1 7 1 [exactLock .addExact 0 [], exactLock .addExact 20 []]
      (sampleRequest 49),
    .apply 1 7 1 [exactLock .removeExact 0 (claimAt (sampleRequest 49) 0)]
      (sampleRequest 50)]

/-- The second claim lives, and ceases when the owner drops its ranges. -/
theorem exact_claim_lifecycle_partialRelease :
    (partialRelease.foldl exec (.empty DefaultConfig fun _ => 0)).sessionClaims
        1 = [claimAt (sampleRequest 49) 1] ∧
      Ceases (partialRelease.foldl exec (.empty DefaultConfig fun _ => 0))
        ((partialRelease.foldl exec (.empty DefaultConfig fun _ => 0)).exec
          (.drop 1 7 1 .enforced)) ⟨1, 1, 7, .enforced⟩
        (claimAt (sampleRequest 49) 1) :=
  ⟨by decide, (exact_claim_lifecycle monotone_const new_default partialRelease
    rfl).2.2.2.1 (.drop 1 7 1 .enforced) rfl (by decide) (by decide)⟩

end RemoteFs.Advisory
