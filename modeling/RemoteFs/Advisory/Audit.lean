import RemoteFs.Advisory.Wakeups

/-!
# A receipt accounts for the ranges of its owner

A batch is drafted twice in parallel, with its acquisitions and without them.
Both drafts follow the effects they list, so the effects that a section adds to
a receipt, replayed on the ranges that the owner held before the section, give
the ranges it holds afterwards.  The ranges of every other owner stay.
-/

namespace RemoteFs.Advisory

open Storage Coordinator

variable (held : List RangeClaim)

/-- What one effect of a receipt does to the ranges of its owner.  An acquiring
command that is listed as released is a range that a conversion gave up. -/
def applyEffect (effect : RangeEffect) : List RangeClaim :=
  if effect.released = true ∧ effect.command.edit.acquires = true then
    held.erase ⟨effect.claim, effect.command⟩
  else
    match effect.command.edit with
    | .replace | .subtract => replaceRanges held effect.command
    | .addExact => held ++ [⟨effect.claim, { effect.command with
        wait := false, conversion := .preserveBeforeAcquire }⟩]
    | .removeExact => removeClaim effect.claim held
    | .undefined _ => held

def applyEffects (effects : List RangeEffect) : List RangeClaim :=
  effects.foldl applyEffect held

@[simp]
lemma applyEffects_nil : applyEffects held [] = held := rfl

@[simp]
lemma applyEffects_concat (effects : List RangeEffect) (effect : RangeEffect) :
    applyEffects held (effects ++ [effect]) = applyEffect (applyEffects held effects) effect := by
  simp [applyEffects]

/-- A conversion lists every range it gives up. -/
lemma applyEffects_dropEffects {held : List RangeClaim}
    (hh : ∀ claim ∈ held, claim.command.edit.acquires = true) :
    applyEffects held (dropEffects held) = [] := by
  induction held with
  | nil => rfl
  | cons claim rest ih =>
    rw [List.forall_mem_cons] at hh
    have hfirst : applyEffect (claim :: rest) ⟨claim.id, claim.command, true⟩ = rest := by
      simp [applyEffect, hh.1]
    change applyEffects (applyEffect (claim :: rest) _) (dropEffects rest) = []
    rw [hfirst, ih hh.2]

/-! ## Drafts -/

/-- The two drafts of a batch follow their effects. -/
structure Tallied (live : List RangeClaim) (r : EditResult) : Prop where
  ranges : r.rejected = none → r.ranges = applyEffects live r.effects
  kept : r.releaseRanges = applyEffects live r.releaseEffects
  releases : ∀ effect ∈ r.releaseEffects, effect.released = true

section

variable {c : Coordinator} {action : Request} {live : List RangeClaim} {r : EditResult}

lemma Tallied.stop (hta : Tallied live r) {r' : EditResult}
    (hstops : r'.rejected ≠ none) (hk : r'.releaseRanges = r.releaseRanges)
    (heffects : r'.releaseEffects = r.releaseEffects) : Tallied live r' :=
  ⟨fun hno => absurd hno hstops, by rw [hk, heffects, hta.kept],
    heffects ▸ hta.releases⟩

lemma Tallied.record {effect : RangeEffect}
    (hra : r.ranges = applyEffects live (r.effects ++ [effect]))
    (hk : r.releaseRanges = applyEffects live r.releaseEffects)
    (hreleases : ∀ effect ∈ r.releaseEffects, effect.released = true)
    (key : OwnerKey) (index : ℕ) : Tallied live (c.recordEffect key index effect r) := by
  simp only [recordEffect]
  split <;> exact ⟨fun _ => hra, hk, hreleases⟩

lemma Tallied.draftCommand (hta : Tallied live r) (hnone : r.rejected = none) (index : ℕ)
    (command : RangeCommand) : Tallied live (c.draftCommand action index command r) := by
  have hra := hta.ranges hnone
  have hreleases : ∀ claim, ∀ effect ∈
      r.releaseEffects ++ [⟨claim, command, true⟩], effect.released = true := by
    intro claim effect hmem
    rcases List.mem_append.mp hmem with hold | hnew
    · exact hta.releases effect hold
    · simp [List.mem_singleton.mp hnew]
  unfold Coordinator.draftCommand
  split
  · next hed =>
    apply record
    · simp [applyEffect, hed, hra]
    · exact hta.kept
    · exact hta.releases
  · next hed =>
    simp only
    split
    · apply record
      · simp [applyEffect, RangeEdit.acquires, hed, hra]
      · simp [applyEffect, RangeEdit.acquires, hed, hta.kept]
      · exact hreleases _
    · exact hta.stop (by simp [EditResult.reject]) rfl rfl
  · next hed =>
    apply record
    · simp [applyEffect, hed, hra]
    · exact hta.kept
    · exact hta.releases
  · next hed =>
    split
    · exact hta.stop (by simp [EditResult.reject]) rfl rfl
    split
    · exact hta.stop (by simp [EditResult.reject]) rfl rfl
    apply record
    · simp [applyEffect, RangeEdit.acquires, hed, hra]
    · simp [applyEffect, RangeEdit.acquires, hed, hta.kept]
    · exact hreleases _
  next hed =>
  apply record
  · simp [applyEffect, hed, hra]
  · exact hta.kept
  · exact hta.releases

lemma Tallied.draftFrom (hta : Tallied live r) (hnone : r.rejected = none) (index : ℕ)
    (commands : List RangeCommand) : Tallied live (c.draftFrom action index commands r) := by
  induction commands generalizing index r with
  | nil => exact hta
  | cons command rest ih =>
    simp only [Coordinator.draftFrom]
    split
    · exact ih hta hnone _
    split
    · exact hta.stop (by simp [EditResult.reject]) rfl rfl
    have hnext : Tallied live (c.draftCommand action index command r) :=
      hta.draftCommand hnone index command
    split
    · exact hnext
    · next hgoes => exact ih hnext hgoes _

lemma draftLocked_tallied : Tallied (c.heldRanges action.key) (c.draftLocked action) :=
  Tallied.draftFrom ⟨fun _ => rfl, rfl, by simp [EditResult.start]⟩ rfl 0 _

end

/-! ## Starting and retrying a request -/

section

variable {slack : Set OwnerKey} {c c' : Coordinator} {ref : RequestRef}
  {action a : Request} {state : OwnerState}

/-- The effects that a request gained describe what happened to the ranges of
its owner.  While it is not granted they are releases. -/
def Audited (c : Coordinator) (ref : RequestRef) (action : Request) (c' : Coordinator) : Prop :=
  ∃ a added, c'.heap ref = some a ∧
    a.result.effects = action.result.effects ++ added ∧
    c'.heldRanges action.key =
      applyEffects (c.heldRanges action.key) added ∧
    (a.result.state = .pending ∨ a.result.state = .rejected →
      ∀ effect ∈ added, effect.released = true)

lemma Audited.of_same (hg : c'.heap ref = some a)
    (heffects : a.result.effects = action.result.effects)
    (hh : c'.heldRanges action.key = c.heldRanges action.key) : Audited c ref action c' :=
  ⟨a, [], hg, by simp [heffects], hh, by simp⟩

lemma commitReleasePrefixLocked_kept (ref : RequestRef)
    (how : c.owners.get? action.key = some state) :
    (c.commitReleasePrefixLocked ref action.key (c.draftLocked action)).heldRanges action.key =
      applyEffects (c.heldRanges action.key) (c.draftLocked action).releaseEffects := by
  unfold commitReleasePrefixLocked
  split
  · next hnone =>
    rw [List.length_eq_zero_iff.mp hnone, applyEffects_nil]
  · rw [reconcileRemovedClaimsLocked_heldRanges, ← draftLocked_tallied.kept]
    exact installRangesLocked_heldRanges_self how _

lemma commitEditLocked_audited (hg : c.heap ref = some action)
    (hs : action.result.state = .pending) (how : c.owners.get? action.key = some state)
    (hdrafted : (c.draftLocked action).rejected = none) :
    Audited c ref action (c.commitEditLocked ref action.key (c.draftLocked action)) := by
  by_cases hfits : c.replacementFitsLocked action.key (c.draftLocked action).ranges.length = true
  · obtain ⟨expires, hsettles⟩ := commitEditLocked_settles hg hfits
    have hra : (c.commitEditLocked ref action.key
        (c.draftLocked action)).heldRanges action.key =
          applyEffects (c.heldRanges action.key) (c.draftLocked action).effects := by
      unfold commitEditLocked
      rw [if_pos hfits, reconcileRemovedClaimsLocked_heldRanges,
        completeLocked_heldRanges, ← draftLocked_tallied.ranges hdrafted]
      exact installRangesLocked_heldRanges_self how _
    rcases hsettles ref with hsm | ⟨b, expires', hb, -, hreleased⟩
    · rw [Function.update_self] at hsm
      refine ⟨_, _, hsm, rfl, hra, ?_⟩
      simp only [Request.completed]
      split <;> simp
    · rw [Function.update_self, Option.some.injEq] at hb
      subst hb
      exact ⟨_, _, hreleased, rfl, hra, by simp [Request.completed]⟩
  obtain ⟨a, ha, -, hresult, -⟩ := commitReleasePrefixLocked_heap hg hs
    action.key (c.draftLocked action)
  unfold commitEditLocked
  rw [if_neg hfits]
  refine ⟨_, _, heap_self (completeLocked_heap ha ..), congrArg RangeAttempt.effects hresult, ?_,
    fun _ => draftLocked_tallied.releases⟩
  rw [completeLocked_heldRanges, commitReleasePrefixLocked_kept ref how]

lemma awaitLocked_effects (hg : c.heap ref = some a) (action : Request) (failedAt : Option ℕ) :
    ∃ b, (c.awaitLocked ref action failedAt).heap ref = some b ∧
      b.result.effects = a.result.effects := by
  have hreject : ∀ code, ∃ b, (c.rejectAt ref failedAt code).heap ref =
      some b ∧ b.result.effects = a.result.effects := by
    intro code
    obtain ⟨expires, hheap⟩ := rejectAt_heap hg failedAt code
    exact ⟨_, heap_self hheap, rfl⟩
  have hqueue : ∃ b, (c.enqueueLocked ref action.key).heap ref = some b ∧
      b.result.effects = a.result.effects := by
    exact ⟨_, heap_self (modifyRequest_heap hg Request.await), rfl⟩
  unfold awaitLocked
  split
  · exact hreject _
  split
  · split
    · exact hreject _
    · exact hreject _
    · exact hqueue
  · exact hqueue

lemma Starts.audited (hl : Ledger slack c) (hg : c.heap ref = some action)
    (hs : action.result.state = .pending) (how : c.owners.get? action.key = some state)
    (hstarts : Starts c ref action first c') : Audited c ref action c' := by
  cases hstarts with
  | oversize =>
    exact .of_same (heap_self (completeLocked_heap hg ..)) rfl (completeLocked_heldRanges ..)
  | dropped _ _ =>
    refine ⟨_, _, heap_self (converted_heap hg _ _), rfl,
      (converted_spec hl how ref _).2.trans ?_, fun _ => ?_⟩
    · refine (applyEffects_dropEffects fun claim hcl => ?_).symm
      rw [Ledger.heldRanges_eq how] at hcl
      exact (hl.exclusion.held how claim hcl).acquires
    · simp [dropEffects]
  | committed _ hdraft => exact commitEditLocked_audited hg hs how hdraft.rejected
  | refused _ _ _ _ =>
    obtain ⟨a, ha, -, hresult, -⟩ := commitReleasePrefixLocked_heap hg hs
      action.key (c.draftLocked action)
    obtain ⟨expires, hheap⟩ := rejectAt_heap (heap_self (modifyRequest_heap ha
      (Request.observe (c.draftLocked action).conflict))) (c.draftLocked action).failedAt _
    exact ⟨_, _, heap_self hheap, congrArg RangeAttempt.effects hresult,
      (completeLocked_heldRanges ..).trans (commitReleasePrefixLocked_kept ref how),
      fun _ => draftLocked_tallied.releases⟩
  | waited _ _ _ _ _ _ =>
    obtain ⟨b, hb, hsm⟩ := awaitLocked_effects (heap_self (modifyRequest_heap hg
      (Request.observe (c.draftLocked action).conflict))) action (c.draftLocked action).failedAt
    exact .of_same hb hsm (awaitLocked_heldRanges ..)

lemma startLocked_audited (hp : Poised c ref action) :
    Audited c ref action (c.startLocked ref) := by
  obtain ⟨first, rest, c', -, hstarts, heq⟩ := hp.starts
  have hbegins := hp.begins
  obtain ⟨state, how⟩ := hbegins.owner
  obtain ⟨a, added, ha, heffects, hh, hreleases⟩ := hstarts.audited
    hbegins.ledger hp.begun_heap hp.pending how
  rw [begunLocked_heldRanges] at hh
  rw [heq]
  refine ⟨a, added, ?_, heffects, ?_, hreleases⟩
  · rwa [pruneOwnerLocked_heap]
  · rwa [pruneOwnerLocked_heldRanges]

lemma retryLocked_audited (hc : Sound True c) (hp : Poised c ref action) :
    Audited c ref action (c.retryLocked ref action) ∧
      ∀ other ≠ action.key, (c.retryLocked ref action).heldRanges other = c.heldRanges other := by
  have hg := hp.retained.heap
  have hwaits := ((hc.shaped ref action hg).pending_body
    hp.pending).2
  rcases hp.retries hwaits with ⟨-, heq⟩ | ⟨-, hpending, hretries⟩
  · rw [heq]
    refine ⟨?_, fun other hne => startLocked_heldRanges_ne hp.resume hne⟩
    change Audited (c.modifyRequest ref Request.resume) ref action.resume _
    exact startLocked_audited hp.resume
  obtain ⟨state, how, -⟩ := hp.queued hpending
  revert hretries
  generalize c.retryLocked ref action = c'
  intro hretries
  refine ⟨?_, fun other hne => hretries.heldRanges_ne hne⟩
  cases hretries with
  | committed hdraft => exact commitEditLocked_audited hg hp.pending how hdraft.rejected
  | blocked _ _ _ => exact .of_same (heap_self (modifyRequest_heap hg _)) rfl rfl
  | exhausted _ _ _ _ =>
    exact .of_same (heap_self (completeLocked_heap hg ..)) rfl (completeLocked_heldRanges ..)

end

/-! ## Every section -/

lemma receiptLocked_result (s : Session) (a : Request) (now : Time) :
    (receiptLocked s a now).effects = a.result.effects ∧
      (receiptLocked s a now).state = a.result.state := by
  unfold receiptLocked
  split <;> exact ⟨rfl, rfl⟩

/-- In every reachable state.  The section of `Apply` that starts a new request
leaves to its owner key the ranges it held before, with the effects of the
receipt applied in order; as long as the receipt is not one of a grant or a
release, the effects are releases; and no other key gains or loses a range.  A
later section that advances a pending request does the same with the effects it
adds to the receipt of that request. -/
theorem receipt_effects_replay {config : Config} {now : ℕ → Time}
    {c₀ c : Coordinator} (hnew : new config now = .ok c₀)
    (sections : List Section) (hrun : sections.foldl exec c₀ = c) :
    (∀ session node owner commands id receipt ref,
      (c.applyOrdered session node owner commands id).result =
        .ok (receipt, ref) → c.heap ref = none →
      ∃ first, commands.head? = some first ∧
        let key : OwnerKey := ⟨session, owner, node, first.domain⟩
        let c' := (c.applyOrdered session node owner commands id).state
        c'.heldRanges key = applyEffects (c.heldRanges key) receipt.effects ∧
          (receipt.state = .pending ∨ receipt.state = .rejected →
            ∀ effect ∈ receipt.effects, effect.released = true) ∧
          ∀ other ≠ key, c'.heldRanges other = c.heldRanges other) ∧
    ∀ ref, let c' := (c.advanceOrdered ref).state
      c' = c ∨ ∃ a, c.heap ref = some a ∧ a.result.state = .pending ∧ Audited c ref a c' ∧
        ∀ other ≠ a.key, c'.heldRanges other = c.heldRanges other := by
  have hc := sound_of_run hnew sections
  rw [hrun] at hc
  constructor
  · intro session node owner commands id receipt ref hresult hfresh
    have hlaunches := applyOrdered_launches hc session node owner commands
      id
    revert hlaunches hresult
    generalize c.applyOrdered session node owner commands id = outcome
    intro hresult hlaunches
    cases hlaunches with
    | aged _ hknown => exact absurd hfresh (hknown receipt ref hresult)
    | @started p first epoch s s' a haging hfirst hadmits _ _ _ hg =>
      cases hresult
      have hp := hadmits.enrolled.1
      have hh : ∀ key, (p.enrolledBy ⟨session, owner, node, first.domain⟩
          id epoch commands).heldRanges key = c.heldRanges key := by
        intro key
        change p.heldRanges key = _
        rw [heldRanges, heldRanges, haging.ages.owners]
      obtain ⟨b, added, hb, heffects, hra, hreleases⟩ :=
        startLocked_audited hp
      obtain rfl := Option.some.inj (hb.symm.trans hg)
      obtain ⟨hsm, hs⟩ := receiptLocked_result s' b (p.startedBy
        ⟨session, owner, node, first.domain⟩ id epoch commands).time
      rw [hsm, hs, show b.result.effects = added from heffects]
      refine ⟨first, hfirst, ?_, hreleases, fun other hne => ?_⟩
      · rwa [← hh]
      · rw [← hh]
        exact startLocked_heldRanges_ne hp hne
  · intro ref
    rcases hc.advanceOrdered_cases ref with
      hsm | ⟨a, -, hp, -, -, hretry⟩
    · exact .inl hsm
    · simp only [hretry]
      exact .inr ⟨a, hp.retained.heap, hp.pending, retryLocked_audited hc hp⟩

/-- An owner that holds ten bytes of node 7. -/
def holderRun : List Section :=
  [.newSession DefaultFileSessionOptions true, .newOwner 1 7 ⟨[97]⟩ ⟨.explicit, 0, 1⟩,
    .apply 1 7 1 [byteLock .shared .replace 0 10 false] (sampleRequest 49)]

def holeBatch : List RangeCommand :=
  [byteLock .exclusive .replace 20 10 false, byteLock .shared .subtract 4 2 false]

/-- It locks another range and cuts a hole into the first. -/
theorem receipt_effects_replay_granted :
    let c := holderRun.foldl exec (.empty DefaultConfig fun _ => 0)
    let c' := (c.applyOrdered 1 7 1 holeBatch (sampleRequest 50)).state
    (c'.heldRanges ⟨1, 1, 7, .record⟩).length = 3 ∧ c'.heldRanges ⟨1, 1, 7, .record⟩ =
      applyEffects (c.heldRanges ⟨1, 1, 7, .record⟩)
        (holeBatch.map fun x => ⟨[], x, x.edit.releases⟩) := by
  refine ⟨by decide +kernel, ?_⟩
  obtain ⟨first, hfirst, hh, -⟩ := (receipt_effects_replay new_default holderRun rfl).1 1 7 1
    holeBatch (sampleRequest 50) ⟨sampleRequest 50, .granted, holeBatch, [], .zero, none, none,
      holeBatch.map fun x => ⟨[], x, x.edit.releases⟩, true,
      DefaultFileSessionOptions.history⟩ 1 (by decide +kernel) (by decide +kernel)
  obtain rfl := Option.some.inj hfirst
  exact hh

/-- `Apply` pumps between the two halves of a conversion.  A batch of the same
owner that waited is granted there, so the owner holds more than the receipt of
the conversion accounts for. -/
theorem overtakenConversion_holds_more :
    let c := overtakenConversion.dropLast.foldl perform
      (.empty DefaultConfig fun _ => 0)
    let c' := overtakenConversion.foldl perform
      (.empty DefaultConfig fun _ => 0)
    new DefaultConfig (fun _ => 0) = .ok (.empty DefaultConfig fun _ => 0) ∧ c.heap 5 = none ∧
      (c'.heap 5).map (fun a => a.result.state) = some .granted ∧
      (c'.heap 5).map (fun a => applyEffects (c.heldRanges a.key)
        a.result.effects) ≠ (c'.heap 5).map fun a => c'.heldRanges a.key :=
  ⟨new_default, by decide +kernel, by decide +kernel, by decide +kernel⟩

end RemoteFs.Advisory
