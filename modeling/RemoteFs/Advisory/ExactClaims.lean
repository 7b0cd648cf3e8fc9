import RemoteFs.Advisory.History
import RemoteFs.Advisory.Lifecycle
import RemoteFs.Advisory.WaitGraph

/-!
# Exact claims of enforced ranges

An `AddExact` command creates a claim whose identity names the request and the
index of the command.  The claim lives until a `RemoveExact` command names it or
the ranges of its owner are dropped.  Since a request identity is used once in a
session, claim identities are never repeated, and the receipt of a request with
exact claims is granted as long as one of them lives.
-/

namespace RemoteFs.Advisory

open Storage Coordinator

variable {a : Request} {epoch index : ℕ} {ref : RequestRef} {id : LockRequestID}
  {state : OwnerState} {claim : ClaimID} {effects : List RangeEffect} {c : Coordinator}

/-! ## Identities -/

lemma claimAt_eq (hep : lockRequestEpoch id = .ok epoch) (hin : index < maxRangeCommands) :
    claimAt id index = id ++ colon :: formatUint index := by
  rw [claimAt, newClaimID_eq_ok hep hin]

lemma cutLastColon_claimAt (hep : lockRequestEpoch id = .ok epoch)
    (hin : index < maxRangeCommands) :
    cutLastColon (claimAt id index) = some (id, formatUint index) := by
  rw [claimAt_eq hep hin]
  exact cutLastColon_append (formatUint_index index hin).2.1

lemma claimAt_inj {epoch' index' : ℕ} (hep : lockRequestEpoch id = .ok epoch)
    (hepoch' : lockRequestEpoch id' = .ok epoch') (hin : index < maxRangeCommands)
    (hindex' : index' < maxRangeCommands) (heq : claimAt id index = claimAt id' index') :
    id = id' ∧ index = index' := by
  have hcut := congrArg cutLastColon heq
  rw [cutLastColon_claimAt hep hin, cutLastColon_claimAt hepoch' hindex',
    Option.some.injEq, Prod.mk.injEq] at hcut
  refine ⟨hcut.1, ?_⟩
  have hnumber := congrArg atoi hcut.2
  rw [(formatUint_index index hin).1, (formatUint_index index' hindex').1,
    Option.some.injEq] at hnumber
  exact_mod_cast hnumber

def Coordinator.claimIds (c : Coordinator) (key : OwnerKey) : List ClaimID :=
  (c.heldRanges key).map RangeClaim.id

def Removed (claim : ClaimID) (effects : List RangeEffect) : Prop :=
  ∃ effect ∈ effects, effect.released = true ∧ effect.claim = claim ∧
    effect.command.edit = .removeExact

lemma Removed.mono (hre : Removed claim effects) (hsubset : effects ⊆ more) :
    Removed claim more := by
  obtain ⟨effect, hm, hrest⟩ := hre
  exact ⟨effect, hsubset hm, hrest⟩

lemma map_removeClaim (claim : ClaimID) (ranges : List RangeClaim) :
    (removeClaim claim ranges).map RangeClaim.id = (ranges.map RangeClaim.id).erase claim := by
  induction ranges with
  | nil => rfl
  | cons held ranges ih =>
    unfold removeClaim at ih ⊢
    by_cases heq : held.id = claim
    · simp [heq]
    · simp [heq, ih]

/-! ## Claims in a draft -/

/-- The claims of a draft that has reached an index of its batch. -/
structure Tracked (live : List ClaimID) (id : LockRequestID) (index : ℕ)
    (result : EditResult) : Prop where
  nodup : (result.ranges.map RangeClaim.id).Nodup
  ranges : ∀ x ∈ result.ranges.map RangeClaim.id, x ∈ live ∨ x ∈ result.claims
  kept : ∀ x, x ∈ live ∨ x ∈ result.claims →
    x ∈ result.ranges.map RangeClaim.id ∨ Removed x result.effects
  claims : ∀ x ∈ result.claims, ∃ j < index, x = claimAt id j
  releaseNodup : (result.releaseRanges.map RangeClaim.id).Nodup
  releases : ∀ x ∈ result.releaseRanges.map RangeClaim.id, x ∈ live
  released : ∀ x ∈ live, x ∈ result.releaseRanges.map RangeClaim.id ∨
    Removed x result.releaseEffects

namespace Tracked

variable {live : List ClaimID} {id : LockRequestID} {index : ℕ} {result : EditResult}

lemma start (hnodup : (held.map RangeClaim.id).Nodup) :
    Tracked (held.map RangeClaim.id) id 0 (.start held) where
  nodup := hnodup
  ranges := fun _ hx => .inl hx
  kept := fun _ hx => .inl (hx.resolve_right List.not_mem_nil)
  claims := fun _ hx => absurd hx List.not_mem_nil
  releaseNodup := hnodup
  releases := fun _ hx => hx
  released := fun _ hx => .inl hx

lemma mono {later : ℕ} (htr : Tracked live id index result)
    (hle : index ≤ later) : Tracked live id later result :=
  { htr with
    claims := fun x hx => by
      obtain ⟨j, hj, rfl⟩ := htr.claims x hx
      exact ⟨j, hj.trans_le hle, rfl⟩ }

lemma reject (htr : Tracked live id index result) (code : RejectionCode)
    (at' : ℕ) (conflict : RangeConflict) :
    Tracked live id index ({ result with conflict := conflict }.reject code at') :=
  { htr with }

lemma recordEffect (htr : Tracked live id index { result with
      effects := result.effects ++ [effect] }) (at' : ℕ) :
    Tracked live id index (c.recordEffect key at' effect result) := by
  unfold Coordinator.recordEffect
  simp only
  split
  · exact htr
  · exact { htr with }

lemma addExact (htr : Tracked live id index result)
    (hep : lockRequestEpoch id = .ok epoch) (hin : index < maxRangeCommands)
    (hfresh : claimAt id index ∉ live) (held : RangeCommand) (effect : RangeEffect) :
    Tracked live id (index + 1) { result with
      ranges := result.ranges ++ [⟨claimAt id index, held⟩]
      claims := result.claims ++ [claimAt id index]
      acquired := true
      effects := result.effects ++ [effect] } := by
  have hnew : claimAt id index ∉ result.claims := by
    intro hm
    obtain ⟨j, hj, heq⟩ := htr.claims _ hm
    exact hj.ne' (claimAt_inj hep hep hin (hj.trans hin) heq).2
  have hids : (result.ranges ++ [(⟨claimAt id index, held⟩ : RangeClaim)]).map
      RangeClaim.id = result.ranges.map RangeClaim.id ++ [claimAt id index] := by
    simp
  have heffects : result.effects ⊆ result.effects ++ [effect] := List.subset_append_left _ _
  refine ⟨?_, fun x hx => ?_, fun x hx => ?_, fun x hx => ?_,
    htr.releaseNodup, htr.releases, htr.released⟩
  · simp only [hids]
    refine htr.nodup.append (List.nodup_singleton _) ?_
    rw [List.disjoint_singleton]
    intro hm
    exact (htr.ranges _ hm).elim hfresh hnew
  · simp only [hids, List.mem_append, List.mem_singleton] at hx ⊢
    rcases hx with hold | rfl
    · exact (htr.ranges x hold).imp_right .inl
    · exact .inr (.inr rfl)
  · simp only [hids, List.mem_append, List.mem_singleton] at hx ⊢
    rcases hx with hold | hold | rfl
    · exact (htr.kept x (.inl hold)).imp .inl fun h => h.mono heffects
    · exact (htr.kept x (.inr hold)).imp .inl fun h => h.mono heffects
    · exact .inl (.inr rfl)
  · simp only [List.mem_append, List.mem_singleton] at hx
    rcases hx with hold | rfl
    · obtain ⟨j, hj, heq⟩ := htr.claims x hold
      exact ⟨j, hj.trans (Nat.lt_succ_self _), heq⟩
    · exact ⟨index, Nat.lt_succ_self _, rfl⟩

lemma removeExact (htr : Tracked live id index result)
    (hedi : command.edit = .removeExact) (indexes : List ℕ) :
    Tracked live id (index + 1) { result with
      ranges := removeClaim command.claim result.ranges
      releaseRanges := removeClaim command.claim result.releaseRanges
      releaseEffects := result.releaseEffects ++ [⟨command.claim, command, true⟩]
      releaseIndexes := indexes
      effects := result.effects ++ [⟨command.claim, command, true⟩] } := by
  have hself : ∀ effects : List RangeEffect, Removed command.claim
      (effects ++ [⟨command.claim, command, true⟩]) := fun effects =>
    ⟨_, List.mem_append_right _ (List.mem_singleton_self _), rfl, rfl, hedi⟩
  refine ⟨?_, fun x hx => ?_, fun x hx => ?_, fun x hx => ?_, ?_, fun x hx => ?_, fun x hx => ?_⟩
  · simp only [map_removeClaim]
    exact htr.nodup.erase _
  · simp only [map_removeClaim] at hx
    exact htr.ranges x (List.mem_of_mem_erase hx)
  · simp only [map_removeClaim]
    by_cases heq : x = command.claim
    · exact .inr (heq ▸ hself _)
    · exact (htr.kept x hx).imp (fun h => (List.mem_erase_of_ne heq).mpr h)
        fun h => h.mono (List.subset_append_left _ _)
  · obtain ⟨j, hj, heq⟩ := htr.claims x hx
    exact ⟨j, hj.trans (Nat.lt_succ_self _), heq⟩
  · simp only [map_removeClaim]
    exact htr.releaseNodup.erase _
  · simp only [map_removeClaim] at hx
    exact htr.releases x (List.mem_of_mem_erase hx)
  · simp only [map_removeClaim]
    by_cases heq : x = command.claim
    · exact .inr (heq ▸ hself _)
    · exact (htr.released x hx).imp (fun h => (List.mem_erase_of_ne heq).mpr h)
        fun h => h.mono (List.subset_append_left _ _)

end Tracked

section

variable {c : Coordinator} {action : Request} {live : List ClaimID}

lemma draftCommand_tracked (htr : Tracked live action.id index result)
    (hep : lockRequestEpoch action.id = .ok epoch)
    (hin : index < maxRangeCommands) (hfresh : claimAt action.id index ∉ live)
    (hedi : command.edit = .addExact ∨ command.edit = .removeExact) :
    Tracked live action.id (index + 1) (c.draftCommand action index command result) := by
  unfold draftCommand
  rcases hedi with hedi | hedi
  · rw [hedi]
    exact Tracked.recordEffect (htr.addExact hep hin hfresh _ _) _
  have hre := htr.removeExact hedi
    (result.releaseIndexes ++ [index])
  rw [hedi]
  simp only
  split
  · exact (htr.mono (Nat.le_succ _)).reject _ _ _
  · split
    · exact (htr.mono (Nat.le_succ _)).reject _ _ _
    · exact Tracked.recordEffect hre _

/-- The claims of a batch in the enforced domain, however its draft ends. -/
lemma draftFrom_tracked (hep : lockRequestEpoch action.id = .ok epoch)
    (hfresh : ∀ index, index < maxRangeCommands → claimAt action.id index ∉ live)
    (hedits : ∀ command ∈ commands, command.edit = .addExact ∨ command.edit = .removeExact)
    (hcount : index + commands.length ≤ maxRangeCommands)
    (htr : Tracked live action.id index result) :
    Tracked live action.id (index + commands.length)
      (c.draftFrom action index commands result) := by
  induction commands generalizing index result with
  | nil => exact htr
  | cons command rest ih =>
    rw [List.length_cons] at hcount ⊢
    have hin : index < maxRangeCommands := by omega
    have hnext := htr.mono (Nat.le_succ index)
    have hrest : ∀ command ∈ rest, command.edit = .addExact ∨ command.edit = .removeExact :=
      fun other hm => hedits other (List.mem_cons_of_mem _ hm)
    have hcount' : index + 1 + rest.length ≤ maxRangeCommands := by omega
    have hsum : index + (rest.length + 1) = index + 1 + rest.length := by omega
    rw [hsum]
    unfold draftFrom
    split
    · exact ih hrest hcount' hnext
    simp only
    split
    · exact (hnext.mono (Nat.le_add_right _ _)).reject _ _ _
    have hdrafted := draftCommand_tracked (c := c) htr hep hin
      (hfresh index hin) (hedits command (List.mem_cons_self ..))
    split
    · exact hdrafted.mono (Nat.le_add_right _ _)
    · exact ih hrest hcount' hdrafted

end

/-! ## Operations that keep the held ranges -/

section

variable (c : Coordinator) (key other : OwnerKey) (ref : RequestRef)

lemma heldRanges_modify (change : OwnerState → OwnerState)
    (hchange : ∀ o, (change o).ranges = o.ranges) :
    Coordinator.heldRanges { c with owners := c.owners.modify key change }
      other = c.heldRanges other := by
  unfold heldRanges
  simp only [Table.get?_modify]
  by_cases heq : other = key
  · subst heq
    cases hg : c.owners.get? other with
    | none => simp
    | some o => simp [hchange]
  · simp [heq]

lemma pruneOwnerLocked_heldRanges :
    (c.pruneOwnerLocked key).heldRanges other = c.heldRanges other := by
  unfold pruneOwnerLocked
  cases hg : c.owners.get? key with
  | none => rfl
  | some o =>
    simp only
    split
    · next hempty =>
      unfold heldRanges
      simp only [Table.get?_erase]
      by_cases heq : other = key
      · rw [if_pos heq, heq, hg]
        exact (List.length_eq_zero_iff.mp hempty.1).symm
      · rw [if_neg heq]
    · rfl

lemma completeLocked_heldRanges (state : AttemptState) (rejection : Option RejectionCode) :
    (c.completeLocked ref state rejection).heldRanges other = c.heldRanges other := by
  unfold completeLocked
  split
  · rfl
  next action _ =>
  split
  · rw [pruneOwnerLocked_heldRanges]
    exact heldRanges_modify c action.key other _ fun _ => rfl
  · rfl

lemma reconcileRemovedClaimsLocked_heldRanges (effects : List RangeEffect) :
    (c.reconcileRemovedClaimsLocked key effects).heldRanges other = c.heldRanges other := by
  unfold reconcileRemovedClaimsLocked
  split
  · rfl
  refine List.foldlRecOn (motive := fun c' : Coordinator =>
    c'.heldRanges other = c.heldRanges other) _ _ rfl
    fun c' hfold id _ => Eq.trans ?_ hfold
  unfold settleRemoved
  split
  · rfl
  split
  · rfl
  split
  · rfl
  split
  · rfl
  · exact completeLocked_heldRanges ..

lemma reconcileRemovedClaimsLocked_claimIds (effects : List RangeEffect) :
    (c.reconcileRemovedClaimsLocked key effects).claimIds other = c.claimIds other :=
  congrArg _ (reconcileRemovedClaimsLocked_heldRanges c key other effects)

variable {c key other}

lemma installRangesLocked_heldRanges_ne (ranges : List RangeClaim) (hne : other ≠ key) :
    (c.installRangesLocked key ranges).heldRanges other = c.heldRanges other := by
  simp [installRangesLocked, heldRanges, Table.get?_modify, hne]

lemma installRangesLocked_heldRanges_self (hg : c.owners.get? key = some state)
    (ranges : List RangeClaim) : (c.installRangesLocked key ranges).heldRanges key = ranges := by
  simp [installRangesLocked, heldRanges, Table.get?_modify, hg]

end

/-! ## Reconciliation -/

/-- Requests of a key all of whose claims are gone may have been released. -/
def Lapses (key : OwnerKey) (live : List ClaimID)
    (heap heap' : RequestRef → Option Request) : Prop :=
  ∀ ref, heap' ref = heap ref ∨
    ∃ a expires, heap ref = some a ∧ a.key = key ∧
      a.result.state = .granted ∧ (∀ claim ∈ a.result.claims, claim ∉ live) ∧
      heap' ref = some (a.completed .released none expires)

namespace Lapses

variable {key : OwnerKey} {live : List ClaimID} {heap heap' heap'' : RequestRef → Option Request}

lemma refl {heap : RequestRef → Option Request} : Lapses key live heap heap := fun _ => .inl rfl

section

variable (h : Lapses key live heap heap')
include h

lemma trans (h' : Lapses key live heap' heap'') : Lapses key live heap heap'' := by
  intro ref
  rcases h ref with hsm | ⟨a, expires, ha, hkey, hst, hgone, hr⟩
  · have hnext := h' ref
    rwa [hsm] at hnext
  rcases h' ref with hsm | ⟨b, -, hb, -, hgr, -⟩
  · exact .inr ⟨a, expires, ha, hkey, hst, hgone, hsm ▸ hr⟩
  · rw [hr, Option.some.injEq] at hb
    rw [← hb] at hgr
    cases hgr

lemma granted_back (hg : heap' ref = some a) (hgr : a.result.state = .granted) :
    heap ref = some a := by
  rcases h ref with hsm | ⟨b, expires, -, -, -, -, hr⟩
  · rwa [hsm] at hg
  · rw [hr, Option.some.injEq] at hg
    rw [← hg] at hgr
    cases hgr

lemma granted_forth (hg : heap ref = some a)
    (hkeep : a.key = key → ∃ claim ∈ a.result.claims, claim ∈ live) : heap' ref = some a := by
  rcases h ref with hsm | ⟨b, expires, hb, hkey, -, hgone, -⟩
  · rwa [hsm]
  cases hg.symm.trans hb
  obtain ⟨claim, hc, hlive⟩ := hkeep hkey
  exact absurd hlive (hgone claim hc)

end

end Lapses

section

variable {actions : Table LockRequestID RequestRef} {key : OwnerKey} {live : List ClaimID}

lemma settleRemoved_lapses (c : Coordinator) (id : LockRequestID) :
    Lapses key live c.heap (settleRemoved actions key live c id).heap := by
  unfold settleRemoved
  split
  · exact .refl
  next ref _ =>
  split
  · exact .refl
  next action hg =>
  split
  · exact .refl
  next hgr =>
  rw [not_or, not_not, not_not] at hgr
  split
  · exact .refl
  next hgone =>
  rw [completeLocked_heap hg]
  intro other
  by_cases heq : other = ref
  · subst heq
    refine .inr ⟨action, _, hg, hgr.1, hgr.2, ?_, Function.update_self ..⟩
    simpa using hgone
  · exact .inl (Function.update_of_ne heq ..)

lemma settleRemoved_done (c : Coordinator) (hl : actions.get? id = some ref)
    (hg : (settleRemoved actions key live c id).heap ref = some a) (hkey : a.key = key)
    (hgr : a.result.state = .granted) : ∃ claim ∈ a.result.claims, claim ∈ live := by
  have hold := (settleRemoved_lapses c id).granted_back hg hgr
  unfold settleRemoved at hg
  simp only [hl, hold] at hg
  rw [if_neg (by simp [hkey, hgr])] at hg
  split at hg
  · next hany => simpa using hany
  · rw [completeLocked_heap hold, Function.update_self, Option.some.injEq] at hg
    rw [← hg] at hgr
    cases hgr

variable (actions key live)

/-- The whole loop: of every listed request that is still granted, a claim
lives. -/
lemma foldl_settleRemoved (ids : List LockRequestID) (c : Coordinator) :
    Lapses key live c.heap (ids.foldl (settleRemoved actions key live) c).heap ∧
      ∀ id ∈ ids, ∀ {ref a}, actions.get? id = some ref →
      (ids.foldl (settleRemoved actions key live) c).heap ref = some a → a.key = key →
      a.result.state = .granted → ∃ claim ∈ a.result.claims, claim ∈ live := by
  induction ids generalizing c with
  | nil => exact ⟨.refl, fun _ h => absurd h List.not_mem_nil⟩
  | cons first ids ih =>
    obtain ⟨hlapses, hdone⟩ := ih (settleRemoved actions key live c first)
    refine ⟨(settleRemoved_lapses c first).trans hlapses, ?_⟩
    intro id hid ref a hl hg hkey hgr
    rcases List.mem_cons.mp hid with rfl | hrest
    · exact settleRemoved_done c hl (hlapses.granted_back hg hgr) hkey hgr
    · exact hdone id hrest hl hg hkey hgr

end

lemma reconcileRemovedClaimsLocked_spec (c : Coordinator) (key : OwnerKey)
    (effects : List RangeEffect) :
    Lapses key (c.claimIds key) c.heap (c.reconcileRemovedClaimsLocked key effects).heap ∧
      ∀ {id s ref a}, id ∈ removedRequests effects → c.sessions.get? key.session = some s →
      s.actions.get? id = some ref →
      (c.reconcileRemovedClaimsLocked key effects).heap ref = some a → a.key = key →
      a.result.state = .granted → ∃ claim ∈ a.result.claims, claim ∈ c.claimIds key := by
  unfold reconcileRemovedClaimsLocked
  cases hs : c.sessions.get? key.session with
  | none => exact ⟨.refl, nofun⟩
  | some s =>
    obtain ⟨hlapses, hdone⟩ := foldl_settleRemoved s.actions key
      (c.claimIds key) (removedRequests effects) c
    refine ⟨hlapses, fun {id s' ref a} hid hs' hl => ?_⟩
    obtain rfl := Option.some.inj hs'
    exact hdone id hid hl

lemma mem_removedRequests (hre : Removed claim effects)
    (hcut : cutLastColon claim = some (id, suffix)) : id ∈ removedRequests effects := by
  obtain ⟨effect, hm, hr, rfl, -⟩ := hre
  rw [removedRequests, List.mem_dedup, List.mem_filterMap]
  have hne : effect.claim ≠ [] := by
    intro hnil
    rw [hnil] at hcut
    cases hcut
  exact ⟨effect, hm, by simp [hr, hne, hcut]⟩

/-! ## The invariant -/

def Request.AddsExact (a : Request) : Prop :=
  ∃ command ∈ a.commands, command.edit = .addExact

lemma Request.Applied.mem_claims (happlied : a.Applied)
    (hadm : a.identity.Admitted) (hc : claim ∈ a.result.claims) :
    ∃ index < maxRangeCommands, claim = claimAt a.id index := by
  rw [happlied.claims, List.mem_filterMap] at hc
  obtain ⟨⟨command, index⟩, hm, hof⟩ := hc
  have hin : index < a.commands.length := by
    have hlookup := List.mem_zipIdx hm
    omega
  unfold claimOf at hof
  split at hof
  · exact ⟨index, hin.trans_le hadm.count, (Option.some.inj hof).symm⟩
  · cases hof

lemma Request.Applied.exists_claim (happlied : a.Applied)
    (hadds : a.AddsExact) : ∃ claim, claim ∈ a.result.claims := by
  obtain ⟨command, hm, hedi⟩ := hadds
  obtain ⟨index, hin, hg⟩ := List.getElem_of_mem hm
  refine ⟨claimAt a.id index, ?_⟩
  rw [happlied.claims, List.mem_filterMap]
  refine ⟨(command, index), ?_, by simp [claimOf, hedi]⟩
  rw [List.mem_zipIdx_iff_getElem?]
  simp [hin, hg]

/-- Exact claims exist in the enforced domain only. -/
lemma Request.AddsExact.enforced (hadds : a.AddsExact)
    (hadm : a.identity.Admitted) : a.key.domain = .enforced := by
  obtain ⟨command, hm, hedi⟩ := hadds
  have hdo : command.domain = a.key.domain := hadm.domain command hm
  by_contra hne
  rw [← hdo] at hne
  exact ((hadm.valid command hm).advisory hne).2.1 hedi

structure Exact (c : Coordinator) : Prop where
  nodup : ∀ {key}, key.domain = .enforced → (c.claimIds key).Nodup
  origin : ∀ {key claim}, key.domain = .enforced → claim ∈ c.claimIds key →
    ∃ ref a, c.heap ref = some a ∧ a.key = key ∧
      a.result.state = .granted ∧ claim ∈ a.result.claims
  live : ∀ {ref a}, a.key.domain = .enforced → Retained c ref a →
    a.result.state = .granted → a.AddsExact →
    ∃ claim ∈ a.result.claims, claim ∈ c.claimIds a.key

/-- Nothing that the invariant depends on has changed. -/
structure Carries (c c' : Coordinator) : Prop where
  held : ∀ {key}, key.domain = .enforced → c'.heldRanges key = c.heldRanges key
  forth : ∀ {ref a}, c.heap ref = some a → a.result.state = .granted → c'.heap ref = some a
  back : ∀ {ref a}, Retained c' ref a → a.result.state = .granted → Retained c ref a

namespace Carries

variable {c c' c'' : Coordinator}

lemma refl : Carries c c := ⟨fun _ => rfl, fun h _ => h, fun h _ => h⟩

lemma trans (h : Carries c c') (h' : Carries c' c'') : Carries c c'' where
  held := fun hkey => (h'.held hkey).trans (h.held hkey)
  forth := fun hg hst => h'.forth (h.forth hg hst) hst
  back := fun hret hst => h.back (h'.back hret hst) hst

lemma exact (h : Carries c c') (hexact : Exact c) : Exact c' where
  nodup := fun hkey => by
    rw [claimIds, h.held hkey]
    exact hexact.nodup hkey
  origin := fun hkey hc => by
    rw [claimIds, h.held hkey] at hc
    obtain ⟨ref, a, ha, hrest⟩ := hexact.origin hkey hc
    exact ⟨ref, a, h.forth ha hrest.2.1, hrest⟩
  live := fun hkey hk hst hadds => by
    rw [claimIds, h.held hkey]
    exact hexact.live hkey (h.back hk hst) hst hadds

lemma of_frame (hf : Frame c c') (hh : ∀ {key}, key.domain = .enforced →
      c'.heldRanges key = c.heldRanges key)
    (hforth : ∀ {ref a}, c.heap ref = some a → a.result.state = .granted → c'.heap ref = some a)
    (hback : ∀ {ref a}, c'.heap ref = some a → a.result.state = .granted →
      c.heap ref = some a) : Carries c c' := by
  refine ⟨hh, hforth, fun {ref a} hk hst => ?_⟩
  obtain ⟨b, hb⟩ := hk.back hf
  have hsm := hb.heap.symm.trans (hback hk.heap hst)
  exact Option.some.inj hsm ▸ hb

lemma of_update (hf : Frame c c') (hh : ∀ {key}, key.domain = .enforced →
      c'.heldRanges key = c.heldRanges key) (hg : c.heap ref = some a)
    (hhe : c'.heap = Function.update c.heap ref (some a'))
    (hst : a.result.state ≠ .granted) (hstate' : a'.result.state ≠ .granted)
    : Carries c c' := by
  refine of_frame hf hh (fun {other b} hb hgr => ?_)
    fun {other b} hb hgr => ?_
  · have hne : other ≠ ref := by
      rintro rfl
      cases hg.symm.trans hb
      exact hst hgr
    rwa [hhe, Function.update_of_ne hne]
  · have hne : other ≠ ref := by
      rintro rfl
      rw [hhe, Function.update_self, Option.some.injEq] at hb
      exact hstate' (hb ▸ hgr)
    rwa [hhe, Function.update_of_ne hne] at hb

lemma of_heap (hf : Frame c c') (hh : ∀ {key}, key.domain = .enforced →
      c'.heldRanges key = c.heldRanges key) (hhe : c'.heap = c.heap) : Carries c c' :=
  of_frame hf hh (fun hg _ => hhe ▸ hg) fun hg _ => hhe ▸ hg

lemma of_ages (hages : Ages c c') : Carries c c' where
  held := by simp [heldRanges, hages.owners]
  forth := fun hg _ => hages.heap ▸ hg
  back := fun hk _ => by
    obtain ⟨s', hs', hl⟩ := hk.listed
    obtain ⟨s, hs, hactions⟩ := hages.actions hs'
    exact ⟨hages.heap ▸ hk.heap, s, hs, hactions hl⟩

end Carries

section

variable {c : Coordinator} {ref : RequestRef} {a : Request}

lemma completeLocked_carries (hg : c.heap ref = some a) (hst : a.result.state = .pending)
    {state : AttemptState} (hdecided : state ≠ .granted) (rejection : Option RejectionCode) :
    Carries c (c.completeLocked ref state rejection) :=
  .of_update (c.completeLocked_frame ref state rejection)
    (fun _ => completeLocked_heldRanges ..) hg (completeLocked_heap hg ..)
    (by simp [hst]) hdecided

lemma modifyRequest_carries (hg : c.heap ref = some a)
    (hst : a.result.state = .pending) (change : Request → Request)
    (hkeeps : Request.Keeps change) : Carries c (c.modifyRequest ref change) :=
  .of_update (c.modifyRequest_frame ref change hkeeps.identity) (fun _ => rfl) hg
    (modifyRequest_heap hg change) (by simp [hst]) (by simp [hkeeps.state, hst])

end

lemma replaceLocked_heap (c : Coordinator) (key : OwnerKey) (ranges : List RangeClaim) :
    (c.replaceLocked key ranges).heap = c.heap := by
  unfold replaceLocked
  split <;> rfl

lemma replaceLocked_carries (hadvisory : key.domain ≠ .enforced) (ranges : List RangeClaim) :
    Carries c (c.replaceLocked key ranges) := by
  refine .of_heap (c.replaceLocked_frame key ranges) (fun {other} he => ?_)
    (replaceLocked_heap c key ranges)
  unfold replaceLocked
  split
  · refine installRangesLocked_heldRanges_ne ranges ?_
    rintro rfl
    exact hadvisory he
  · rfl

/-! ## Committing a batch -/

/-- How the claims under a key change when the ranges of a batch are
installed. -/
structure Replaces (before after : List ClaimID) (a : Request)
    (effects : List RangeEffect) : Prop where
  nodup : after.Nodup
  source : ∀ x ∈ after, x ∈ before ∨ (a.result.state = .granted ∧ x ∈ a.result.claims)
  kept : ∀ x ∈ before, x ∈ after ∨ Removed x effects
  own : a.result.state = .granted → ∀ x ∈ a.result.claims, x ∈ after ∨ Removed x effects

/-- The installed ranges and the new receipt of the batch, followed by the
reconciliation of the receipts whose claims are gone. -/
lemma Exact.commit (hexact : Exact c) (hdir : Directory c)
    (hshaped : ∀ other b, other ≠ ref → c.heap other = some b → b.Shape True)
    (hg : c.heap ref = some a) (hpd : a.result.state = .pending) (hf : Frame c c₁)
    (hhe : c₁.heap = Function.update c.heap ref (some a₁))
    (hidentity : a₁.identity = a.identity) (happlied : a₁.result.state = .granted → a₁.Applied)
    (hothers : ∀ other ≠ a.key, c₁.heldRanges other = c.heldRanges other)
    (hreplaces : a.key.domain = .enforced →
      Replaces (c.claimIds a.key) (c₁.claimIds a.key) a₁ effects) :
    Exact (c₁.reconcileRemovedClaimsLocked a.key effects) := by
  obtain ⟨hlapses, hdone⟩ := reconcileRemovedClaimsLocked_spec c₁ a.key effects
  have hh : ∀ key, (c₁.reconcileRemovedClaimsLocked a.key
      effects).claimIds key = c₁.claimIds key :=
    fun key => reconcileRemovedClaimsLocked_claimIds c₁ a.key key effects
  have hsm : ∀ {key}, key ≠ a.key → c₁.claimIds key = c.claimIds key :=
    fun hne => by rw [claimIds, hothers _ hne, claimIds]
  have hkey : a₁.key = a.key := congrArg Identity.key hidentity
  have hforth : ∀ {other b}, c.heap other = some b →
      b.result.state = .granted → c₁.heap other = some b := by
    intro other b hb hgr
    rw [hhe, Function.update_of_ne]
    · exact hb
    · rintro rfl
      cases hg.symm.trans hb
      rw [hpd] at hgr
      cases hgr
  constructor
  · intro key he
    rw [hh]
    by_cases heq : key = a.key
    · subst heq
      exact (hreplaces he).nodup
    · rw [hsm heq]
      exact hexact.nodup he
  · intro key claim he hc
    rw [hh] at hc
    by_cases heq : key = a.key
    · subst heq
      rcases (hreplaces he).source claim hc with
        hold | ⟨hgr, hown⟩
      · obtain ⟨other, b, hb, hbk, hbstate, hbclaim⟩ := hexact.origin he hold
        exact ⟨other, b, hlapses.granted_forth (hforth hb hbstate)
          fun _ => ⟨claim, hbclaim, hc⟩, hbk, hbstate, hbclaim⟩
      · refine ⟨ref, a₁, hlapses.granted_forth ?_
          fun _ => ⟨claim, hown, hc⟩, hkey, hgr, hown⟩
        rw [hhe, Function.update_self]
    rw [hsm heq] at hc
    obtain ⟨other, b, hb, hbk, hbstate, hbclaim⟩ := hexact.origin he hc
    refine ⟨other, b, hlapses.granted_forth (hforth hb hbstate) fun h => ?_,
      hbk, hbstate, hbclaim⟩
    exact absurd (hbk.symm.trans h) heq
  · intro other b he hk hgr hadds
    rw [hh]
    have hb₁ := hlapses.granted_back hk.heap hgr
    obtain ⟨b', hkept₁⟩ := hk.back
      (c₁.reconcileRemovedClaimsLocked_frame a.key effects)
    obtain rfl := Option.some.inj (hb₁.symm.trans hkept₁.heap)
    -- a claim of the key that is gone is among the removals, so its request
    -- was looked at and would have been released
    have hlooked : ∀ {claim}, b.key = a.key → b.Applied →
        b.identity.Admitted → claim ∈ b.result.claims →
        claim ∈ c₁.claimIds a.key ∨ Removed claim effects →
        ∃ x ∈ b.result.claims, x ∈ c₁.claimIds b.key := by
      intro claim hbk hbapplied hbadmitted hc hfate
      rcases hfate with hlives | hre
      · exact ⟨claim, hc, hbk ▸ hlives⟩
      obtain ⟨index, hin, rfl⟩ := hbapplied.mem_claims hbadmitted hc
      have hid := mem_removedRequests hre
        (cutLastColon_claimAt hbadmitted.epoch hin)
      obtain ⟨s, hs, hl⟩ := hkept₁.listed
      rw [hbk] at hs ⊢
      exact hdone hid hs hl hk.heap hbk hgr
    by_cases heq : other = ref
    · subst heq
      rw [hhe, Function.update_self, Option.some.injEq] at hb₁
      subst hb₁
      have hadm := hidentity ▸ hdir.admitted hg
      obtain ⟨claim, hc⟩ := (happlied hgr).exists_claim hadds
      exact hlooked hkey (happlied hgr) hadm hc
        ((hreplaces (hkey ▸ he)).own hgr claim hc)
    rw [hhe, Function.update_of_ne heq] at hb₁
    obtain ⟨old, hold⟩ := hkept₁.back hf
    obtain rfl := Option.some.inj (hb₁.symm.trans hold.heap)
    obtain ⟨claim, hc, hlives⟩ := hexact.live he hold hgr hadds
    by_cases hbk : b.key = a.key
    · rw [hbk] at hlives
      exact hlooked hbk ((hshaped other b heq hb₁).granted_body hgr).1 (hdir.admitted hb₁)
        hc ((hreplaces (hbk ▸ he)).kept claim hlives)
    · rw [hsm hbk]
      exact ⟨claim, hc, hlives⟩

lemma Settles.receipt {heap heap' : RequestRef → Option Request}
    (hsettles : Settles heap heap') (hg : heap ref = some a) :
    ∃ a', heap' ref = some a' ∧ a'.key = a.key ∧ a'.result.effects = a.result.effects := by
  rcases hsettles ref with hsm | ⟨b, expires, hb, -, hr⟩
  · exact ⟨a, hsm.trans hg, rfl, rfl⟩
  · cases hg.symm.trans hb
    exact ⟨_, hr, rfl, rfl⟩

/-- A state in which a request may be started or retried. -/
structure Ready (c : Coordinator) (ref : RequestRef) (action : Request) : Prop where
  exact : Exact c
  directory : Directory c
  shaped : ∀ other b, other ≠ ref → c.heap other = some b → b.Shape True
  get : c.heap ref = some action
  pending : action.result.state = .pending
  unanswered : action.Unanswered
  unique : ∀ {other b}, c.heap other = some b →
    b.key.session = action.key.session → b.id = action.id → other = ref

/-- The invariant holds, and a claim that does not live any more is named by an
effect in the receipt of the request. -/
structure Edited (ref : RequestRef) (key : OwnerKey) (c c' : Coordinator) : Prop where
  exact : Exact c'
  persists : ∀ {other claim}, other.domain = .enforced →
    claim ∈ c.claimIds other → claim ∈ c'.claimIds other ∨
      (other = key ∧ ∃ a, c'.heap ref = some a ∧ a.key = key ∧ Removed claim a.result.effects)

namespace Edited

variable {ref : RequestRef} {key : OwnerKey} {c c' c'' : Coordinator}

lemma of_carries (hexact : Exact c) (hcarries : Carries c c') :
    Edited ref key c c' where
  exact := hcarries.exact hexact
  persists := fun hdo hc => .inl (by
    rw [claimIds, hcarries.held hdo]
    exact hc)

lemma after (hed : Edited ref key c' c'') (hcarries : Carries c c') :
    Edited ref key c c'' where
  exact := hed.exact
  persists := fun hdo hc => hed.persists hdo (by
    rw [claimIds, hcarries.held hdo]
    exact hc)

lemma trans_carries (hed : Edited ref key c c') (hcarries : Carries c' c'')
    (heffects : ∀ {a}, c'.heap ref = some a → ∃ a', c''.heap ref = some a' ∧
      a'.key = a.key ∧ a'.result.effects = a.result.effects) :
    Edited ref key c c'' where
  exact := hcarries.exact hed.exact
  persists := by
    intro other claim hdo hc
    rcases hed.persists hdo hc with
      hlives | ⟨heq, a, ha, hkey, hre⟩
    · refine .inl ?_
      rwa [claimIds, hcarries.held hdo]
    · obtain ⟨a', ha', hsm, heffect⟩ := heffects ha
      exact .inr ⟨heq, a', ha', hsm.trans hkey, heffect ▸ hre⟩

variable (hed : Edited ref key c c') (hg : c'.heap ref = some a)
  (hpd : a.result.state = .pending)
include hed hg hpd

lemma completeLocked {state : AttemptState} (hdecided : state ≠ .granted)
    (rejection : Option RejectionCode) :
    Edited ref key c (c'.completeLocked ref state rejection) := by
  refine hed.trans_carries
    (completeLocked_carries hg hpd hdecided rejection) fun {b} hb => ?_
  cases hg.symm.trans hb
  rw [completeLocked_heap hg, Function.update_self]
  exact ⟨_, rfl, rfl, rfl⟩

lemma modifyRequest (change : Request → Request) (hkeeps : Request.Keeps change)
    (heffects : (·.result.effects) ∘ change = (·.result.effects)) :
    Edited ref key c (c'.modifyRequest ref change) := by
  refine hed.trans_carries (modifyRequest_carries hg hpd change hkeeps) fun {b} hb => ?_
  cases hg.symm.trans hb
  rw [modifyRequest_heap hg, Function.update_self]
  exact ⟨_, rfl, congrArg Identity.key (congrFun hkeeps.identity a), congrFun heffects a⟩

lemma rejectAt (failedAt : Option ℕ) (code : RejectionCode) :
    Edited ref key c (c'.rejectAt ref failedAt code) := by
  refine (hed.modifyRequest hg hpd (Request.failAt failedAt) rfl rfl).completeLocked
    (a := a.failAt failedAt) ?_ hpd (by decide) _
  rw [modifyRequest_heap hg, Function.update_self]

lemma enqueueLocked (owner : OwnerKey) : Edited ref key c (c'.enqueueLocked ref owner) := by
  have hhe := modifyRequest_heap hg Request.await
  refine hed.trans_carries (.of_update (c'.enqueueLocked_frame ref owner)
    (fun {other} _ => heldRanges_modify _ owner other _ fun _ => rfl) hg hhe
    (by simp [hpd]) (by simp [Request.await, hpd])) fun {b} hb => ?_
  cases hg.symm.trans hb
  refine ⟨a.await, ?_, rfl, rfl⟩
  change (c'.modifyRequest ref Request.await).heap ref = some a.await
  rw [hhe, Function.update_self]

lemma awaitLocked (action : Request) (failedAt : Option ℕ) :
    Edited ref key c (c'.awaitLocked ref action failedAt) := by
  unfold Coordinator.awaitLocked
  split
  · exact hed.rejectAt hg hpd _ _
  split
  · split
    · exact hed.rejectAt hg hpd _ _
    · exact hed.rejectAt hg hpd _ _
    · exact hed.enqueueLocked hg hpd _
  · exact hed.enqueueLocked hg hpd _

end Edited

namespace Ready

variable {c : Coordinator} {ref : RequestRef} {action : Request}

section

variable (hrd : Ready c ref action)
include hrd

lemma admitted : action.identity.Admitted := hrd.directory.admitted hrd.get

lemma fresh (he : action.key.domain = .enforced) (index : ℕ)
    (hin : index < maxRangeCommands) : claimAt action.id index ∉ c.claimIds action.key := by
  intro hm
  obtain ⟨other, b, hb, hkey, hgr, hc⟩ := hrd.exact.origin he hm
  have hne : other ≠ ref := by
    rintro rfl
    obtain rfl := Option.some.inj (hrd.get.symm.trans hb)
    rw [hrd.pending] at hgr
    cases hgr
  have hbadmitted := hrd.directory.admitted hb
  obtain ⟨index', hindex', heq⟩ := (((hrd.shaped other b hne hb).granted_body
    hgr).1).mem_claims hbadmitted hc
  have hid := (claimAt_inj hrd.admitted.epoch hbadmitted.epoch hin hindex'
    heq).1
  exact hne (hrd.unique hb (by rw [hkey]) hid.symm)

lemma tracked (he : action.key.domain = .enforced) :
    Tracked (c.claimIds action.key) action.id (0 + action.commands.length)
      (c.draftLocked action) := by
  refine draftFrom_tracked hrd.admitted.epoch (hrd.fresh he)
    (fun command hm => ?_) ?_
    (.start (hrd.exact.nodup he))
  · have hdo := hrd.admitted.domain command hm
    exact ((hrd.admitted.valid command hm).enforced (hdo.trans he)).1
  · rw [Nat.zero_add]
    exact hrd.admitted.count

section

variable (how : c.owners.get? action.key = some state)
include how

/-- Ranges and a receipt are installed, and the receipts whose claims are gone are
reconciled. -/
lemma committed {c₁ : Coordinator} {a₁ : Request} {ranges : List RangeClaim}
    {effects : List RangeEffect} (hf : Frame c c₁)
    (hhe : c₁.heap = Function.update c.heap ref (some a₁))
    (hid : a₁.identity = action.identity) (heffects : effects ⊆ a₁.result.effects)
    (hh : ∀ other, c₁.heldRanges other =
      (c.installRangesLocked action.key ranges).heldRanges other)
    (happlied : a₁.result.state = .granted → a₁.Applied)
    (hreplaces : action.key.domain = .enforced →
      Replaces (c.claimIds action.key) (ranges.map RangeClaim.id) a₁ effects) :
    Edited ref action.key c (c₁.reconcileRemovedClaimsLocked action.key effects) := by
  have hothers : ∀ other ≠ action.key, c₁.heldRanges other = c.heldRanges other :=
    fun other hne => (hh other).trans (installRangesLocked_heldRanges_ne _ hne)
  have hself : c₁.claimIds action.key = ranges.map RangeClaim.id :=
    congrArg _ ((hh _).trans (installRangesLocked_heldRanges_self how _))
  refine ⟨hrd.exact.commit hrd.directory hrd.shaped hrd.get hrd.pending hf
    hhe hid happlied hothers (hself ▸ hreplaces), fun {other claim} he hc => ?_⟩
  rw [reconcileRemovedClaimsLocked_claimIds]
  by_cases heq : other = action.key
  · subst heq
    rcases (hreplaces he).kept claim hc with hlives | hre
    · exact .inl (hself ▸ hlives)
    obtain ⟨a, ha, hkey, hsm⟩ := (reconcileRemovedClaimsLocked_settles c₁ action.key
      effects).receipt (by rw [hhe, Function.update_self])
    exact .inr ⟨rfl, a, ha, hkey.trans (congrArg Identity.key hid), hsm ▸ hre.mono heffects⟩
  · exact .inl (by rwa [claimIds, hothers other heq])

lemma commitReleasePrefixLocked :
    Edited ref action.key c (c.commitReleasePrefixLocked ref action.key
      (c.draftLocked action)) := by
  unfold Coordinator.commitReleasePrefixLocked
  split
  · exact .of_carries hrd.exact .refl
  have hg : (c.installRangesLocked action.key
      (c.draftLocked action).releaseRanges).heap ref = some action := hrd.get
  have hungranted : action.result.state ≠ .granted := by
    rw [hrd.pending]
    decide
  refine hrd.committed how ((c.installRangesLocked_frame action.key _).trans
    (modifyRequest_frame _ ref _ rfl)) (modifyRequest_heap hg _) rfl
    (List.subset_append_right _ _) (fun _ => rfl) (fun hgr => absurd hgr hungranted)
    fun he => ?_
  have htr := hrd.tracked he
  exact ⟨htr.releaseNodup, fun x hx => .inl (htr.releases x hx),
    htr.released, fun hgr => absurd hgr hungranted⟩

lemma commitEditLocked (hd : Drafted c action action.commands (c.draftLocked action)) :
    Edited ref action.key c (c.commitEditLocked ref action.key (c.draftLocked action)) := by
  have hshape : ∀ expires, ((action.keepEdit (c.draftLocked action)).completed
      (if (c.draftLocked action).acquired then .granted else .released) none
        expires).Shape True := hd.shape hrd.unanswered
  unfold Coordinator.commitEditLocked
  rw [if_pos hd.fits]
  revert hshape
  generalize hdecided : (if (c.draftLocked action).acquired = true then
    AttemptState.granted else .released) = decided
  intro hshape
  have hg : (c.installRangesLocked action.key
      (c.draftLocked action).ranges).heap ref = some action := hrd.get
  have hkeep := modifyRequest_heap hg (Request.keepEdit (c.draftLocked action))
  have hhe := completeLocked_heap (hkeep ▸ Function.update_self ..) decided none
  rw [hkeep, Function.update_idem] at hhe
  -- a claim of the batch makes it a grant
  have hgrants : ∀ x ∈ (c.draftLocked action).claims, decided = .granted := by
    intro x hx
    rw [hd.claims, List.mem_filterMap] at hx
    obtain ⟨⟨command, index⟩, hm, hof⟩ := hx
    have hcmd : command ∈ action.commands := List.fst_mem_of_mem_zipIdx hm
    have hedi : command.edit = .addExact := by
      unfold claimOf at hof
      split at hof
      · assumption
      · cases hof
    have hacquired : (c.draftLocked action).acquired = true := by
      rw [hd.acquired, List.any_eq_true]
      exact ⟨command, hcmd, by simp [RangeEdit.acquires, hedi]⟩
    rw [← hdecided, if_pos hacquired]
  have hf := (c.installRangesLocked_frame action.key (c.draftLocked action).ranges).trans
    (modifyRequest_frame _ ref (Request.keepEdit (c.draftLocked action)) rfl)
  refine hrd.committed how (hf.trans (completeLocked_frame _ ref decided none)) hhe
    rfl (List.subset_append_right _ _) (fun _ => completeLocked_heldRanges ..)
    (fun hgr => ((hshape _).granted_body hgr).1) fun he => ?_
  have htr := hrd.tracked he
  refine ⟨htr.nodup, fun x hx => ?_, fun x hx => htr.kept x (.inl hx),
    fun _ x hx => htr.kept x (.inr hx)⟩
  exact (htr.ranges x hx).imp_right fun hown => ⟨hgrants x hown, hown⟩

lemma of_starts (hfirst : first ∈ action.commands)
    (hstarts : Starts c ref action first c') : Edited ref action.key c c' := by
  have hsm : Edited ref action.key c c := .of_carries hrd.exact .refl
  cases hstarts with
  | oversize => exact hsm.completeLocked hrd.get hrd.pending (by decide) _
  | dropped hdrops _ =>
    -- only whole-file owners give up their ranges before a conversion
    have hadvisory : action.key.domain ≠ .enforced := by
      simp only [dropsFirst, Bool.and_eq_true, decide_eq_true_eq] at hdrops
      have hdo : first.domain = action.key.domain := hrd.admitted.domain first hfirst
      rw [← hdo, ((hrd.admitted.valid first hfirst).drop hdrops.1.2).1]
      decide
    have hk := heap_self (modifyRequest_heap hrd.get
      (Request.keepDrops (dropEffects (c.heldRanges action.key))))
    refine .of_carries hrd.exact ?_
    refine (modifyRequest_carries hrd.get hrd.pending (Request.keepDrops _) rfl).trans
        ((replaceLocked_carries hadvisory []).trans
          (modifyRequest_carries (Eq.trans ?_ hk) hrd.pending Request.convert rfl))
    rw [replaceLocked_heap]
  | committed _ hd => exact hrd.commitEditLocked how hd
  | refused _ _ _ _ =>
    obtain ⟨a, ha, hid, hresult, -⟩ := commitReleasePrefixLocked_heap
      hrd.get hrd.pending action.key (c.draftLocked action)
    have hpd : a.result.state = .pending := by
      rw [hresult]
      exact hrd.pending
    exact ((hrd.commitReleasePrefixLocked how).modifyRequest ha
      hpd (Request.observe (c.draftLocked action).conflict) rfl rfl).rejectAt
        (heap_self (modifyRequest_heap ha _)) hpd _ _
  | waited _ _ _ _ _ _ =>
    exact (hsm.modifyRequest hrd.get hrd.pending
      (Request.observe (c.draftLocked action).conflict) rfl rfl).awaitLocked
        (heap_self (modifyRequest_heap hrd.get _)) hrd.pending _ _

end

lemma of_heap (hf : Frame c c') (hhe : c'.heap = c.heap)
    (hh : ∀ {key}, key.domain = .enforced → c'.heldRanges key = c.heldRanges key) :
    Ready c' ref action :=
  { hrd with
    exact := (Carries.of_heap hf hh hhe).exact hrd.exact
    directory := hrd.directory.of_frame hf
    shaped := by rw [hhe]; exact hrd.shaped
    get := by rw [hhe]; exact hrd.get
    unique := by rw [hhe]; exact hrd.unique }

lemma startLocked (hp : Poised c ref action) :
    Edited ref action.key c (c.startLocked ref) := by
  obtain ⟨first, rest, c', hlist, hstarts, heq⟩ := hp.starts
  have hbegins := hp.begins
  obtain ⟨state, how⟩ := hbegins.owner
  have hh : ∀ {key}, key.domain = .enforced →
      (c.begunLocked ref action.key).heldRanges key = c.heldRanges key :=
    fun _ => begunLocked_heldRanges ..
  have hstarted := (hrd.of_heap hbegins.frame hbegins.heap hh).of_starts how (hlist ▸ List.mem_cons_self ..) hstarts
  rw [heq]
  refine (hstarted.after (.of_heap hbegins.frame hh
    hbegins.heap)).trans_carries (.of_heap (pruneOwnerLocked_frame _ _)
      (fun _ => pruneOwnerLocked_heldRanges ..) (pruneOwnerLocked_heap _ _))
    fun {a} ha => ?_
  rw [pruneOwnerLocked_heap]
  exact ⟨a, ha, rfl, rfl⟩

lemma resume : Ready (c.modifyRequest ref Request.resume) ref action.resume := by
  have hhe := modifyRequest_heap hrd.get Request.resume
  have hother : ∀ {other b}, other ≠ ref →
      (c.modifyRequest ref Request.resume).heap other = some b → c.heap other = some b := by
    intro other b hne hb
    rwa [hhe, Function.update_of_ne hne] at hb
  exact {
      exact := (modifyRequest_carries hrd.get hrd.pending
        Request.resume rfl).exact hrd.exact
      directory := hrd.directory.of_frame
        (c.modifyRequest_frame ref Request.resume rfl)
      shaped := fun other b hne hb => hrd.shaped other b hne (hother hne hb)
      get := by rw [hhe, Function.update_self]
      pending := hrd.pending
      unanswered := { hrd.unanswered with
        converts := fun h => absurd h Bool.false_ne_true
        prepared := fun h => absurd h Bool.false_ne_true }
      unique := fun {other b} hb hsess hid => by
        by_contra hne
        exact hne (hrd.unique (hother hne hb) hsess hid) }

lemma retryLocked (hp : Poised c ref action) (hwaits : action.pending = !action.converting) :
    Edited ref action.key c (c.retryLocked ref action) := by
  rcases hp.retries hwaits with ⟨-, heq⟩ | ⟨-, hpd, hretries⟩
  · rw [heq]
    exact (hrd.resume.startLocked hp.resume).after
      (modifyRequest_carries hrd.get hrd.pending Request.resume rfl)
  obtain ⟨state, how, -⟩ := hp.queued hpd
  have hsm : Edited ref action.key c c := .of_carries hrd.exact .refl
  revert hretries
  generalize c.retryLocked ref action = c'
  intro hretries
  cases hretries with
  | committed hd => exact hrd.commitEditLocked how hd
  | blocked _ _ _ => exact hsm.modifyRequest hrd.get hrd.pending _ rfl rfl
  | exhausted _ _ _ _ => exact hsm.completeLocked hrd.get hrd.pending (by decide) _

end

end Ready

end RemoteFs.Advisory
