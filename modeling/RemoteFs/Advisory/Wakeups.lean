import RemoteFs.Advisory.Pump

/-!
# No lost wakeup

Whole operations run one after another, with contexts that are not cancelled and
order callbacks that run their transitions.  After an operation that pumps, no
waiting request is ready.  `Apply` advances its own request once more after its
last pump, and `Query` does not pump at all.  A retry of a waiting request gives
nothing up, but the second half of a conversion may: if another request of the
same owner was granted in between, the conversion can weaken what that one took,
and nobody is woken.
-/

namespace RemoteFs.Advisory

open Storage Coordinator

variable {key other : OwnerKey} {first : RangeCommand} {c : Coordinator} {state : OwnerState}

/-! ## Operations -/

/-- An operation that runs to its end before the next one starts. -/
inductive Call where
  | newSession (options : FileSessionOptions) (fence : Bool)
  | newOwner (session node : ℕ) (scope : UseScope) (options : OwnerOptions)
  | apply (session node owner : ℕ) (commands : List RangeCommand) (id : LockRequestID)
  | query (session node owner : ℕ) (id : LockRequestID)
  | cancel (session node owner : ℕ) (id : LockRequestID)
  | requestNode (session owner : ℕ) (id : LockRequestID)
  | drop (session node owner : ℕ) (domain : ConflictDomain)
  | retireOwner (session owner : ℕ)
  | retire (session : ℕ) (fence : Except Failure Unit)
  | history (session : ℕ)
  | closeAdmission (session : ℕ)
  | addUse (node : ℕ) (scope : UseScope) (claim : UseClaim)
  | dropUse (node : ℕ) (scope : UseScope)
  | dropUseExact (node : ℕ) (scope : UseScope) (claim : UseClaim)

namespace Coordinator

/-- The rest of `Apply` once the batch was admitted or found. -/
def finishApply (c : Coordinator) (session : ℕ) (id : LockRequestID)
    (ref : RequestRef) : Coordinator :=
  match c.pump.advance ref with
  | ⟨c, .error _⟩ => c
  | ⟨c, .ok _⟩ => (c.applyReceipt session id ref).state

def finishQuery (c : Coordinator) (session : ℕ) (ref : RequestRef) : Coordinator :=
  match c.advance ref with
  | ⟨c, .error _⟩ => c
  | ⟨c, .ok _⟩ => (c.queryReceipt session ref).state

/-- The waiting requests are retried if the operation succeeded. -/
def pumped {α : Type} : Outcome α → Coordinator
  | ⟨c, .error _⟩ => c
  | ⟨c, .ok _⟩ => c.pump

def perform (c : Coordinator) : Call → Coordinator
  | .newSession options fence => (c.newSession options fence).state
  | .newOwner session node scope options =>
    (c.newOwner session node scope options).state
  | .apply session node owner commands id =>
    match c.applyOrdered session node owner commands id with
    | ⟨c, .error _⟩ => c
    | ⟨c, .ok (_, ref)⟩ => c.finishApply session id ref
  | .query session node owner id =>
    match checkCall node, c.findLocked session node owner id with
    | .error _, _ => c
    | .ok _, ⟨c, .error _⟩ => c
    | .ok _, ⟨c, .ok (_, ref)⟩ => c.finishQuery session ref
  | .cancel session node owner id => pumped (c.cancel session node owner id)
  | .requestNode session owner id => (c.requestLocked session owner id).state
  | .drop session node owner domain => pumped (c.drop session node owner domain)
  | .retireOwner session owner => pumped (c.retireOwner session owner)
  | .retire session fence =>
    match c.session? session with
    | none => c
    | some s =>
      if s.retired ∨ s.retireDone then c
      else pumped ((c.beginRetire session).state.endRetire session fence)
  | .history session => (c.history session).state
  | .closeAdmission session => (c.closeAdmission session).state
  | .addUse node scope claim => (c.addUse node scope claim).state
  | .dropUse node scope => (c.dropUse node scope).state
  | .dropUseExact node scope claim => (c.dropUseExact node scope claim).state

end Coordinator

section

variable {slack : Set OwnerKey} {c c' : Coordinator} {ref : RequestRef} {action : Request}

/-! ## Starting a request -/

lemma commitReleasePrefixLocked_heldRanges_ne {edit : EditResult} (hne : other ≠ key) :
    (c.commitReleasePrefixLocked ref key edit).heldRanges other = c.heldRanges other := by
  unfold commitReleasePrefixLocked
  split
  · rfl
  · rw [reconcileRemovedClaimsLocked_heldRanges]
    exact installRangesLocked_heldRanges_ne _ hne

lemma commitEditLocked_heldRanges_ne {edit : EditResult} (hne : other ≠ key) :
    (c.commitEditLocked ref key edit).heldRanges other = c.heldRanges other := by
  unfold commitEditLocked
  split
  · rw [reconcileRemovedClaimsLocked_heldRanges, completeLocked_heldRanges]
    exact installRangesLocked_heldRanges_ne _ hne
  · rw [completeLocked_heldRanges]
    exact commitReleasePrefixLocked_heldRanges_ne hne

lemma awaitLocked_heldRanges (failedAt : Option ℕ) (other : OwnerKey) :
    (c.awaitLocked ref action failedAt).heldRanges other = c.heldRanges other := by
  have hreject : ∀ code, (c.rejectAt ref failedAt code).heldRanges other =
      c.heldRanges other := fun code => completeLocked_heldRanges ..
  have hqueue : (c.enqueueLocked ref action.key).heldRanges other =
      c.heldRanges other :=
    heldRanges_modify c action.key other _ fun _ => rfl
  unfold awaitLocked
  split
  · exact hreject _
  split
  · split
    · exact hreject _
    · exact hreject _
    · exact hqueue
  · exact hqueue

lemma replaceLocked_heldRanges_ne (hne : other ≠ key) (ranges : List RangeClaim) :
    (c.replaceLocked key ranges).heldRanges other = c.heldRanges other := by
  unfold replaceLocked
  split
  · exact installRangesLocked_heldRanges_ne ranges hne
  · rfl

lemma Starts.heldRanges_ne (hne : other ≠ action.key) (hsta : Starts c ref action first c') :
    c'.heldRanges other = c.heldRanges other := by
  cases hsta with
  | oversize => exact completeLocked_heldRanges ..
  | dropped _ _ => exact replaceLocked_heldRanges_ne hne []
  | committed _ _ => exact commitEditLocked_heldRanges_ne hne
  | refused _ _ _ _ =>
    exact (completeLocked_heldRanges ..).trans (commitReleasePrefixLocked_heldRanges_ne hne)
  | waited _ _ _ _ _ _ => exact awaitLocked_heldRanges ..

lemma startLocked_heldRanges_ne (hp : Poised c ref action) (hne : other ≠ action.key) :
    (c.startLocked ref).heldRanges other = c.heldRanges other := by
  obtain ⟨first, rest, c', -, hsta, heq⟩ := hp.starts
  rw [heq, pruneOwnerLocked_heldRanges, hsta.heldRanges_ne hne]
  exact begunLocked_heldRanges ..

lemma awaitLocked_waiting (failedAt : Option ℕ) :
    ∀ other ∈ (c.awaitLocked ref action failedAt).waiting, other ∈ c.waiting ∨ other = ref := by
  have hreject : ∀ code, ∀ other ∈ (c.rejectAt ref failedAt code).waiting,
      other ∈ c.waiting ∨ other = ref := by
    intro code other hm
    have heases : Eases ∅ c (c.rejectAt ref failedAt code) := rejectAt_eases c ref failedAt code
    exact .inl (heases.waiting other hm)
  have hqueue : ∀ other ∈ (c.enqueueLocked ref action.key).waiting,
      other ∈ c.waiting ∨ other = ref := by
    intro other hm
    change other ∈ c.waiting ++ [ref] at hm
    simpa using hm
  unfold awaitLocked
  split
  · exact hreject _
  split
  · split
    · exact hreject _
    · exact hreject _
    · exact hqueue
  · exact hqueue

/-- A request joins the waiting list only if a rival blocks it. -/
lemma Starts.waiting (hsta : Starts c ref action first c') :
    ∀ other ∈ c'.waiting, other ∈ c.waiting ∨ (other = ref ∧ c.Stuck action) := by
  have hold : ∀ except, Eases except c c' → ∀ other ∈ c'.waiting,
      other ∈ c.waiting ∨ (other = ref ∧ c.Stuck action) :=
    fun _ heases other hm => .inl (heases.waiting other hm)
  cases hsta with
  | oversize => exact hold ∅ (completeLocked_eases c _ _ _)
  | dropped _ _ =>
    exact hold ∅ ((modifyRequest_eases c ref _).trans
      ((replaceLocked_nil_eases _ _).trans (modifyRequest_eases _ ref _)))
  | committed _ hdraft => exact hold {action.key} (commitEditLocked_eases ref hdraft (.inl rfl))
  | refused _ _ href _ =>
    obtain ⟨done, hreleases⟩ := href.exists_releases
    exact hold ∅ ((commitReleasePrefixLocked_eases ref hreleases).trans
      ((modifyRequest_eases _ ref _).trans (rejectAt_eases _ _ _ _)))
  | waited _ hsplit href hcode _ _ =>
    intro other hm
    rcases awaitLocked_waiting _ other hm with hold | rfl
    · exact .inl hold
    · exact .inr ⟨rfl, href.stuck hsplit hcode⟩

lemma startLocked_waiting (hp : Poised c ref action) : ∀ other ∈ (c.startLocked ref).waiting,
      other ∈ c.waiting ∨ (other = ref ∧ c.Stuck action) := by
  obtain ⟨first, rest, c', -, hsta, heq⟩ := hp.starts
  intro other hm
  rw [heq, pruneOwnerLocked_waiting] at hm
  rcases hsta.waiting other hm with hold | ⟨rfl, hstu⟩
  · exact .inl (hp.begins.waiting ▸ hold)
  · refine .inr ⟨rfl, hstu.of_held rfl rfl fun key claim hcl => ?_⟩
    rwa [begunLocked_heldRanges] at hcl

/-- A conversion that gives the ranges of its owner up for the moment. -/
structure Converted (c : Coordinator) (action : Request) (first : RangeCommand)
    (c' : Coordinator) : Prop where
  conversion : first.conversion = .dropBeforeAcquire
  waiting : c'.waiting = c.waiting
  held : c'.heldRanges action.key = []

lemma converted_spec (hl : Ledger slack c)
    (howner : c.owners.get? key = some state) (ref : RequestRef) (effects : List RangeEffect) :
    let c' := ((c.modifyRequest ref (Request.keepDrops effects)).replaceLocked
      key []).modifyRequest ref Request.convert
    c'.waiting = c.waiting ∧ c'.heldRanges key = [] := by
  have hfits : (c.modifyRequest ref (Request.keepDrops
      effects)).replacementFitsLocked key ([] : List RangeClaim).length =
        true :=
    replacementFitsLocked_mono (Nat.zero_le _) (hl.live_fits howner)
  unfold replaceLocked
  rw [if_pos hfits]
  exact ⟨rfl, installRangesLocked_heldRanges_self howner []⟩

lemma Starts.steady_or_converted (hl : Ledger slack c) (hg : c.heap ref = some action)
    (hadm : action.identity.Admitted) (hst : action.result.state = .pending)
    (ho : action.Unanswered) (hpd : action.pending = false)
    (hco : action.converting = false) (howner : c.owners.get? action.key = some state)
    (hfi : first ∈ action.commands) (hsta : Starts c ref action first c') :
    (∀ a, c'.heap ref = some a → a.Steady) ∨ Converted c action first c' := by
  have hk : dropsFirst (c.heldRanges action.key) action first = false →
      ∀ a, c'.heap ref = some a → a.Steady := by
    intro hke a ha hpending'
    have hdecides := hsta.decides hl hg hadm
      hst ho hpd hco howner hfi fun _ _ _ _ _ => trivial
    obtain ⟨b, -, hste, hsettles⟩ := hdecides
    have hsm := hsettles.quiets ref a ha hpending'
    rw [Function.update_self, Option.some.injEq] at hsm
    exact hsm ▸ hste hke (hsm ▸ hpending')
  cases hsta with
  | oversize =>
    refine .inl fun a ha => ?_
    rw [completeLocked_heap hg, Function.update_self, Option.some.injEq] at ha
    exact ha ▸ Request.steady_completed _ (by decide) _ _
  | dropped hdrops _ =>
    obtain ⟨hwa, hh⟩ := converted_spec hl howner ref _
    refine .inr ⟨?_, hwa, hh⟩
    simp only [dropsFirst, Bool.and_eq_true, decide_eq_true_eq] at hdrops
    exact hdrops.1.2
  | committed hke _ => exact .inl (hk hke)
  | refused hke _ _ _ => exact .inl (hk hke)
  | waited hke _ _ _ _ _ => exact .inl (hk hke)

lemma startLocked_steady_or_converted (hp : Poised c ref action)
    (ho : action.Unanswered) (hpd : action.pending = false)
    (hco : action.converting = false) (hfi : action.commands.head? = some first) :
    (∀ a, (c.startLocked ref).heap ref = some a → a.Steady) ∨
      Converted c action first (c.startLocked ref) := by
  obtain ⟨head, rest, c', hlist, hsta, heq⟩ := hp.starts
  cases (congrArg List.head? hlist).symm.trans hfi
  have hbegins := hp.begins
  obtain ⟨state, howner⟩ := hbegins.owner
  rw [heq, pruneOwnerLocked_heap]
  refine (hsta.steady_or_converted hbegins.ledger hp.begun_heap
    (hp.directory.admitted hp.retained.heap) hp.pending ho
    hpd hco howner (hlist ▸ List.mem_cons_self ..)).imp
    (fun hste => hste) fun hconverted => ?_
  refine ⟨hconverted.conversion, ?_, ?_⟩
  · rw [pruneOwnerLocked_waiting]
    exact hconverted.waiting.trans hbegins.waiting
  · rw [pruneOwnerLocked_heldRanges]
    exact hconverted.held

end

/-! ## Rest between operations -/

/-- No session is in the middle of a retirement. -/
def Coordinator.Opened (c : Coordinator) : Prop :=
  ∀ id s, c.sessions.get? id = some s → s.retiring = false

/-- Between two operations nothing in the waiting list is ready, no conversion is
half done, and no retirement either if all fences of the run are `calm`. -/
structure Rested (calm : Prop) (c : Coordinator) : Prop where
  sound : Sound True c
  quiet : c.Quiet
  steady : ∀ ref a, c.heap ref = some a → a.Steady
  opened : calm → c.Opened

/-- Ranges, requests and the waiting list are as before, and no retirement was
undone or, if `calm`, begun. -/
structure Idles (calm : Prop) (c c' : Coordinator) : Prop where
  heap : c'.heap = c.heap
  owners : c'.owners = c.owners
  waiting : c'.waiting = c.waiting
  retiring : ∀ {id s s'}, c.sessions.get? id = some s →
    c'.sessions.get? id = some s' → s.retiring = true → s'.retiring = true
  opened : calm → c.Opened → c'.Opened

section

variable {calm : Prop} {c c' : Coordinator} {ref : RequestRef}

lemma Coordinator.Opened.of_frame (hop : c.Opened) (hf : Frame c c') : c'.Opened := by
  intro id s' hs'
  obtain ⟨s, hs, halike⟩ := hf.session_back hs'
  exact halike.retiring.trans (hop id s hs)

lemma Coordinator.Opened.of_ages (hop : c.Opened) (hag : Ages c c') : c'.Opened := by
  intro id s' hs'
  obtain ⟨s, hs, holder⟩ := hag.session_back hs'
  exact holder.retiring.trans (hop id s hs)

lemma Coordinator.Opened.modify (hop : c.Opened) (session : ℕ)
    (change : Session → Session) (hchange : ∀ s, (change s).retiring = s.retiring) :
    (c.modifySession session change).Opened := by
  intro id s' hs'
  rcases Table.modify_cases hs' with ⟨s, hs, -, rfl⟩ | ⟨-, hs⟩
  · exact (hchange s).trans (hop session s hs)
  · exact hop id s' hs

lemma Idles.refl {calm : Prop} {c : Coordinator} : Idles calm c c := by
  refine ⟨rfl, rfl, rfl, fun hs hs' h => ?_, fun _ h => h⟩
  exact Option.some.inj (hs.symm.trans hs') ▸ h

lemma Idles.of_ages (hag : Ages c c') : Idles calm c c' := by
  refine ⟨hag.heap, hag.owners, hag.waiting, fun hs hs' h => ?_,
    fun _ hop => hop.of_ages hag⟩
  obtain ⟨s, hold, holder⟩ := hag.session_back hs'
  cases hs.symm.trans hold
  exact holder.retiring.trans h

/-- A ready request was ready before unless a rival range has gone. -/
lemma Coordinator.Quiet.of_stuck (hqu : c.Quiet) (hc : Sound True c)
    (hc' : Sound True c') (hwa : ∀ ref ∈ c'.waiting, ref ∈ c.waiting ∨
      ∀ a, c'.heap ref = some a → c'.Stuck a)
    (hback : ∀ {ref a'}, ref ∈ c.waiting → c'.heap ref = some a' →
      ∃ a, c.heap ref = some a ∧ a'.key = a.key ∧ a'.commands = a.commands)
    (hretiring : ∀ {id s s'}, c.sessions.get? id = some s →
      c'.sessions.get? id = some s' → s.retiring = true → s'.retiring = true)
    (hh : ∀ key, ∀ claim ∈ c.heldRanges key, claim ∈ c'.heldRanges key) : c'.Quiet := by
  intro ref hm
  obtain ⟨a', hp, -⟩ := exists_poised hc' hm
  obtain ⟨s', hs', -⟩ := hp.retained.listed
  rw [← Bool.not_eq_true]
  intro hrd
  obtain ⟨ho, hfree⟩ := (readyLocked_eq_true_iff hp.retained.heap hs').mp hrd
  rcases hwa ref hm with hold | hstu
  · obtain ⟨a, ha, hkey, hcmds⟩ := hback hold hp.retained.heap
    obtain ⟨b, hwaited, -⟩ := exists_poised hc hold
    obtain rfl := Option.some.inj (ha.symm.trans hwaited.retained.heap)
    obtain ⟨s, hs, -⟩ := hwaited.retained.listed
    rw [hkey] at hs'
    have hwas : s.retiring = false := by
      by_contra hclosed
      rw [hretiring hs hs' (by simpa using hclosed)] at ho
      cases ho
    have hrd := (readyLocked_eq_true_iff ha hs).mpr ⟨hwas, fun hstu =>
      hfree (hstu.of_held hkey hcmds hh)⟩
    rw [hqu ref hold] at hrd
    cases hrd
  · exact hfree (hstu a' hp.retained.heap)

lemma Coordinator.Quiet.of_frame (hqu : c.Quiet) (hc : Sound True c)
    (hc' : Sound True c') (hf : Frame c c')
    (hwa : ∀ ref ∈ c'.waiting, ref ∈ c.waiting ∨ ∀ a, c'.heap ref = some a → c'.Stuck a)
    (hh : ∀ key, ∀ claim ∈ c.heldRanges key, claim ∈ c'.heldRanges key) : c'.Quiet := by
  refine hqu.of_stuck hc hc' hwa (fun {ref a'} _ ha' => ?_)
    (fun {id s s'} hs hs' hclosed => ?_) hh
  · obtain ⟨a, ha, hid⟩ := hf.request_back ha'
    exact ⟨a, ha, (congrArg Identity.key hid).symm, (congrArg Identity.commands hid).symm⟩
  · obtain ⟨s₁, hs₁, halike⟩ := hf.session_back hs'
    cases hs.symm.trans hs₁
    exact halike.retiring.trans hclosed

lemma Rested.of_idles (hre : Rested calm c) (hidles : Idles calm c c')
    (hc' : Sound True c') : Rested calm c' := by
  refine ⟨hc', ?_, by rw [hidles.heap]; exact hre.steady,
    fun hca => hidles.opened hca (hre.opened hca)⟩
  refine hre.quiet.of_stuck hre.sound hc' (fun ref hm => .inl (hidles.waiting ▸ hm))
    (fun {ref a} _ ha => ⟨a, hidles.heap ▸ ha, rfl, rfl⟩) hidles.retiring
    fun key claim hcl => ?_
  unfold heldRanges
  rwa [hidles.owners]

lemma Rested.aging (hre : Rested calm c) (haging : Aging c c') : Rested calm c' :=
  hre.of_idles (.of_ages haging.ages) (hre.sound.aging haging)

lemma advance_quiet (hc : Sound True c) (hqu : c.Quiet)
    (hste : ∀ a, c.heap ref = some a → a.Steady) : (c.advance ref).state.Quiet := by
  have hc' := advance_sound hc ref
  rcases advance_cases hc ref with
    hsm | ⟨a, s, hp, hs, ho, hretry⟩
  · rwa [hsm]
  rw [hretry] at hc' ⊢
  have hg := hp.retained.heap
  have ha := hste a hg
  have hm := hp.waiting hc ha
  have hretries := retryLocked_retries hc hp ha
  have hstu : c.Stuck a := by
    by_contra hfree
    have hrd := (readyLocked_eq_true_iff hg hs).mpr ⟨ho, hfree⟩
    rw [hqu ref hm] at hrd
    cases hrd
  refine hqu.of_frame hc hc' (c.retryLocked_frame ref a)
    (fun other hother => .inl (hretries.waiting other hother))
    fun key claim hcl => ?_
  rwa [hretries.heldRanges_of_stuck hstu]

/-- The second half of a conversion whose owner holds nothing. -/
lemma retryLocked_converting_quiet (hc : Sound True c) (hqu : c.Quiet) {a : Request}
    (hp : Poised c ref a) (hco : a.converting = true) (hempty : c.heldRanges a.key = [])
    (hc' : Sound True (c.retryLocked ref a)) : (c.retryLocked ref a).Quiet := by
  have hf := c.modifyRequest_frame ref Request.resume rfl
  have hresumed := hp.resume
  have hretry : c.retryLocked ref a = (c.modifyRequest ref Request.resume).startLocked ref := by
    unfold retryLocked
    rw [if_pos hco]
  rw [hretry] at hc' ⊢
  have hh : ∀ key, ∀ claim ∈ c.heldRanges key, claim ∈
      ((c.modifyRequest ref Request.resume).startLocked ref).heldRanges key := by
    intro key claim hcl
    by_cases heq : key = a.key
    · rw [heq, hempty] at hcl
      cases hcl
    · rwa [startLocked_heldRanges_ne hresumed heq]
  refine hqu.of_frame hc hc'
    (hf.trans (startLocked_frame _ ref)) (fun other hm => ?_) hh
  rcases startLocked_waiting hresumed other hm with hold | ⟨rfl, hstu⟩
  · exact .inl hold
  refine .inr fun b hb => ?_
  obtain ⟨a', ha', hid⟩ := (startLocked_frame _ other).request_back hb
  obtain rfl := Option.some.inj (hresumed.retained.heap.symm.trans ha')
  exact hstu.of_held (congrArg Identity.key hid).symm (congrArg Identity.commands hid).symm hh

/-! ## The operations -/

lemma rested_pump (hc : Sound True c) (hste : ∀ ref a, c.heap ref = some a → a.Steady)
    (hop : calm → c.Opened) : Rested calm c.pump := by
  obtain ⟨hpu, hqu⟩ := pump_spec hc
  exact ⟨hpu.sound, hqu, fun ref => hpu.steady (hste ref),
    fun hca => (hop hca).of_frame hpu.frame⟩

lemma steady_of_keeps (hste : ∀ ref a, c.heap ref = some a → a.Steady) (hke : Keeps c c')
    (hback : ∀ {ref a'}, c'.heap ref = some a' → ∃ a, c.heap ref = some a) :
    ∀ ref a, c'.heap ref = some a → a.Steady := by
  intro ref b hb
  obtain ⟨a, ha⟩ := hback hb
  obtain ⟨b', hb', -, hk⟩ := hke.requests ha
  cases hb.symm.trans hb'
  exact hk (hste ref a ha)

lemma Rested.pumped {α : Type} (hre : Rested calm c) (outcome : Outcome α)
    (hc : Sound True outcome.state) (hke : Keeps c outcome.state)
    (hback : ∀ {ref a'}, outcome.state.heap ref = some a' →
      ∃ a, c.heap ref = some a) (hop : calm → c.Opened → outcome.state.Opened)
    (href : ∀ failure, outcome.result = .error failure →
      Idles calm c outcome.state) : Rested calm (pumped outcome) := by
  obtain ⟨next, result⟩ := outcome
  cases result with
  | error failure => exact hre.of_idles (href failure rfl) hc
  | ok _ =>
    exact rested_pump hc (steady_of_keeps hre.steady hke hback)
      fun hca => hop hca (hre.opened hca)

/-- A cancellation completes at most one request, and none if it fails. -/
lemma cancel_spec (c : Coordinator) (session node owner : ℕ) (id : LockRequestID) :
    (∀ {ref a'}, (c.cancel session node owner id).state.heap ref = some a' →
      ∃ a, c.heap ref = some a) ∧
    (c.Opened → (c.cancel session node owner id).state.Opened) ∧
    ∀ failure, (c.cancel session node owner id).result = .error failure →
      Idles calm c (c.cancel session node owner id).state := by
  unfold Coordinator.cancel
  split
  · exact ⟨fun h => ⟨_, h⟩, fun h => h, fun _ _ => .refl⟩
  obtain ⟨haging, hfd⟩ := Sound.findLocked_found c session node owner id
  have hag := haging.ages
  revert hag hfd
  generalize c.findLocked session node owner id = outcome
  intro hfd hag
  obtain ⟨next, result⟩ := outcome
  cases result with
  | error failure =>
    exact ⟨fun h => ⟨_, hag.heap ▸ h⟩, fun h => h.of_ages hag, fun _ _ => .of_ages hag⟩
  | ok pair =>
    obtain ⟨action, ref⟩ := pair
    obtain ⟨hlookup, -⟩ := hfd rfl
    obtain ⟨s, hs, -⟩ := hlookup.listed
    simp only
    split
    · have hf := next.completeLocked_frame ref .cancelled none
      obtain ⟨s', hs', -⟩ := hf.session?_forth hs
      obtain ⟨a, ha, -⟩ := hf.request_forth hlookup.heap
      rw [readReceipt_eq hs' ha]
      refine ⟨fun {other a'} h => ?_, fun h => ?_, fun _ h => by cases h⟩
      · obtain ⟨b, hb, -⟩ := hf.request_back h
        exact ⟨b, hag.heap ▸ hb⟩
      · exact ((h.of_ages hag).of_frame hf).of_ages (ticked_ages _)
    · have hread := hag.trans (readReceipt_aging next session ref).ages
      exact ⟨fun h => ⟨_, hread.heap ▸ h⟩, fun h => h.of_ages hread, fun _ _ => .of_ages hread⟩

lemma Rested.cancel (hre : Rested calm c) (session node owner : ℕ) (id : LockRequestID) :
    Rested calm (Coordinator.pumped (c.cancel session node owner id)) := by
  obtain ⟨hback, hop, href⟩ := cancel_spec c session node owner id
  exact hre.pumped _ (hre.sound.exec (.cancel session node owner id)
    fun _ => trivial) (.acts hre.sound (cancel_acts hre.sound session
      node owner id)) hback (fun _ => hop) href

lemma drop_cases (c : Coordinator) (session node owner : ℕ) (domain : ConflictDomain) :
    (∃ failure, c.drop session node owner domain = ⟨c, .error failure⟩) ∨
      ∃ key, c.drop session node owner domain = ⟨c.dropLocked key, .ok ()⟩ := by
  unfold Coordinator.drop
  split
  · exact .inl ⟨_, rfl⟩
  split
  · exact .inl ⟨_, rfl⟩
  split
  · exact .inl ⟨_, rfl⟩
  split
  · exact .inl ⟨_, rfl⟩
  split
  · exact .inl ⟨_, rfl⟩
  · exact .inr ⟨_, rfl⟩

lemma Rested.drop (hre : Rested calm c) (session node owner : ℕ) (domain : ConflictDomain) :
    Rested calm (Coordinator.pumped (c.drop session node owner domain)) := by
  have hc := hre.sound.exec (.drop session node owner domain)
    fun _ => trivial
  simp only [exec] at hc
  rcases drop_cases c session node owner domain with
    ⟨failure, href⟩ | ⟨key, hdropped⟩
  · rwa [href]
  rw [hdropped] at hc ⊢
  refine hre.pumped _ hc (.dropLocked c key) (fun {ref a'} hg => ?_)
    (fun _ h => h.of_frame (c.dropLocked_frame key)) fun _ h => by cases h
  obtain ⟨a, ha, -⟩ := (c.dropLocked_frame key).request_back hg
  exact ⟨a, ha⟩

lemma Rested.retireOwner (hre : Rested calm c) (session owner : ℕ) :
    Rested calm (Coordinator.pumped (c.retireOwner session owner)) := by
  have hc := hre.sound.exec (.retireOwner session owner) fun _ => trivial
  have hke : Keeps c _ := .acts hre.sound
    (retireOwner_acts hre.sound session owner)
  rcases retireOwner_cases hre.sound session owner with
    hsm | ⟨s, binding, hs, hbind, hretire⟩
  · refine hre.pumped _ hc hke ?_ ?_ fun _ _ => ?_ <;> rw [hsm]
    · exact fun hg => ⟨_, hg⟩
    · exact fun _ h => h
    · exact .refl
  have hf := foldl_dropLocked_frame c (ownerKeys session owner binding.node)
  simp only [exec, hretire, unboundBy] at hc hke ⊢
  generalize (ownerKeys session owner binding.node).foldl dropLocked c = c₁ at *
  refine hre.pumped _ hc hke (fun hg => ?_) (fun _ h => ?_) fun _ h => by cases h
  · obtain ⟨a, ha, -⟩ := hf.request_back hg
    exact ⟨a, ha⟩
  · exact (h.of_frame hf).modify session (Session.unbind owner) fun _ => rfl

lemma modifySession_idles (session : ℕ) (change : Session → Session)
    (hke : ∀ s, s.retiring = true → (change s).retiring = true)
    (hca : calm → ∀ s, (change s).retiring = s.retiring) :
    Idles calm c (c.modifySession session change) := by
  refine ⟨rfl, rfl, rfl, fun {id s s'} hs hs' hclosed => ?_,
    fun h hop => hop.modify session change (hca h)⟩
  obtain ⟨old, hold, rfl⟩ := Table.of_get?_modify hs'
  cases hs.symm.trans hold
  split
  · exact hke s hclosed
  · exact hclosed

lemma endRetire_spec (calm : Prop) (c : Coordinator) (session : ℕ) (fence : Except Failure Unit) :
    (c.endRetire session fence).state.heap = c.heap ∧
      ∀ failure, (c.endRetire session fence).result = .error failure →
        Idles calm c (c.endRetire session fence).state := by
  unfold endRetire
  split
  · exact ⟨rfl, fun _ _ => .refl⟩
  split
  · exact ⟨rfl, fun _ _ => .refl⟩
  split
  · exact ⟨rfl, fun _ _ => modifySession_idles session _ (fun _ h => h) fun _ _ => rfl⟩
  · exact ⟨rfl, fun _ h => by cases h⟩

lemma Coordinator.Opened.pumped {α : Type} {outcome : Outcome α} (hop : outcome.state.Opened)
    (hc : Sound True outcome.state) : (Coordinator.pumped outcome).Opened := by
  obtain ⟨next, result⟩ := outcome
  cases result with
  | error failure => exact hop
  | ok _ => exact hop.of_frame (pump_spec hc).1.frame

/-- A retirement whose fence does not fail removes the session. -/
lemma endRetire_opened (hop : c.Opened) (session : ℕ) :
    ((c.modifySession session Session.startRetiring).endRetire session
      (.ok ())).state.Opened := by
  have hother : ∀ {id s'}, id ≠ session →
      (c.sessions.modify session Session.startRetiring).get? id = some s' →
      s'.retiring = false := by
    intro id s' hne hs'
    rw [Table.get?_modify_ne hne] at hs'
    exact hop id s' hs'
  have hself := Table.get?_modify_self c.sessions session Session.startRetiring
  unfold endRetire
  cases hlive : c.sessions.get? session with
  | none =>
    rw [hlive, Option.map_none] at hself
    simp only [modifySession, hself]
    intro id s' hs'
    refine hother ?_ hs'
    rintro rfl
    cases hself.symm.trans hs'
  | some live =>
    rw [hlive, Option.map_some] at hself
    simp only [modifySession, hself, Session.startRetiring, Bool.true_eq_false, if_false]
    intro id s' hs'
    obtain ⟨hne, hs'⟩ := Table.erase_cases hs'
    exact hother hne hs'

lemma Rested.retire (hre : Rested calm c) (session : ℕ) (fence : Except Failure Unit)
    (hfence : calm → fence = .ok ()) : Rested calm (c.perform (.retire session fence)) := by
  simp only [perform]
  split
  · exact hre
  next s hknown =>
  split
  · exact hre
  next hfresh =>
  have hbe : c.beginRetire session =
      ⟨c.modifySession session Session.startRetiring, .ok ()⟩ := by
    unfold beginRetire
    rw [hknown]
    exact if_neg hfresh
  rw [hbe]
  have hmarked : Rested False (c.modifySession session Session.startRetiring) := by
    refine Rested.of_idles ⟨hre.sound, hre.quiet, hre.steady,
      False.elim⟩ (modifySession_idles session _ (fun _ _ => rfl) False.elim) ?_
    have hc := hre.sound.exec (.beginRetire session) fun _ => trivial
    simpa only [exec, hbe] using hc
  obtain ⟨hheap, href⟩ := endRetire_spec False
    (c.modifySession session Session.startRetiring) session fence
  have hended := hmarked.sound.exec (.endRetire session fence) fun _ => trivial
  have hdone := hmarked.pumped _ hended
    (.acts hmarked.sound (endRetire_acts _ session fence))
    (fun hg => ⟨_, hheap ▸ hg⟩) False.elim href
  refine ⟨hdone.sound, hdone.quiet, hdone.steady, fun hca => ?_⟩
  rw [hfence hca] at hended ⊢
  exact (endRetire_opened (hre.opened hca) session).pumped hended

lemma Rested.finishQuery (hre : Rested calm c) (session : ℕ)
    (ref : RequestRef) : Rested calm (c.finishQuery session ref) := by
  have hadvanced : Rested calm (c.advance ref).state :=
    have hpu := Pumps.advance hre.sound (hre.steady ref)
    ⟨hpu.sound, advance_quiet hre.sound hre.quiet
      (hre.steady ref), fun other => hpu.steady (hre.steady other),
      fun hca => (hre.opened hca).of_frame hpu.frame⟩
  unfold Coordinator.finishQuery
  revert hadvanced
  generalize c.advance ref = outcome
  intro hadvanced
  obtain ⟨next, result⟩ := outcome
  cases result with
  | error failure => exact hadvanced
  | ok _ => exact hadvanced.aging (queryReceipt_aging next session ref)

lemma Rested.query (hre : Rested calm c) (session node owner : ℕ) (id : LockRequestID) :
    Rested calm (c.perform (.query session node owner id)) := by
  have hfd := hre.aging
    (Sound.findLocked_found c session node owner id).1
  simp only [perform]
  split
  · exact hre
  · next hfind =>
    rwa [hfind] at hfd
  · next hfind =>
    rw [hfind] at hfd
    exact hfd.finishQuery session _

lemma Decides.steady (hdecides : Decides True True c ref c')
    (hothers : ∀ other a, other ≠ ref → c.heap other = some a → a.Steady) :
    ∀ other a, c'.heap other = some a → a.Steady := by
  obtain ⟨a, -, hown, hsettles⟩ := hdecides
  intro other b hb hst
  have hsm := hsettles.quiets other b hb hst
  rcases heap_cases rfl hsm with ⟨-, rfl⟩ | ⟨hne, hsm⟩
  · exact hown trivial hst
  · exact hothers other b hne hsm hst

/-- What the first section of `Apply` leaves to the rest of the call. -/
structure Begun (calm : Prop) (c : Coordinator) (ref : RequestRef) : Prop where
  sound : Sound True c
  opened : calm → c.Opened
  others : ∀ other a, other ≠ ref → c.heap other = some a → a.Steady
  own : (∀ a, c.heap ref = some a → a.Steady) ∨ ∃ a s, c.heap ref = some a ∧
    Owned c a.key ∧ c.sessions.get? a.key.session = some s ∧
    s.retiring = false ∧ c.heldRanges a.key = [] ∧
    ∀ other ∈ c.waiting, ∀ b, c.heap other = some b → b.key ≠ a.key

lemma Begun.finishApply (hbe : Begun calm c ref) (session : ℕ)
    (id : LockRequestID) : Rested calm (c.finishApply session id ref) := by
  obtain ⟨hpu, hqu⟩ := pump_spec hbe.sound
  have hadvanced : Rested calm (c.pump.advance ref).state := by
    have hc := advance_sound hpu.sound ref
    have hop : calm → c.pump.Opened := fun hca => (hbe.opened hca).of_frame hpu.frame
    by_cases hste : ∀ a, c.pump.heap ref = some a → a.Steady
    · have hpumped := Pumps.advance hpu.sound hste
      refine ⟨hc, advance_quiet hpu.sound hqu hste, fun other => ?_,
        fun hca => (hop hca).of_frame hpumped.frame⟩
      refine hpumped.steady ?_
      by_cases heq : other = ref
      · exact heq ▸ hste
      · exact hpu.steady (fun a => hbe.others other a heq)
    simp only [not_forall] at hste
    obtain ⟨a', ha', hmiddle⟩ := hste
    obtain ⟨hst, hco⟩ : a'.result.state = .pending ∧ a'.converting = true := by
      simpa [Request.Steady] using hmiddle
    obtain ⟨a, s, ha, howned, hs, ho, hempty, hnone⟩ :=
      hbe.own.resolve_left fun hown => hmiddle (hpu.steady hown a' ha')
    obtain ⟨b, hb, hid⟩ := hpu.frame.request_back ha'
    cases ha.symm.trans hb
    have hkey : a.key = a'.key := congrArg Identity.key hid
    have hempty' := (hpu.held hnone).trans hempty
    have howned' := howned.of_frame hpu.frame
    obtain ⟨s', hs', halike⟩ := hpu.frame.session_forth hs
    rw [hkey] at hempty' howned' hs'
    have hp := hpu.sound.poised
      (hpu.sound.kept ref a' s' ha' hst hs') hst howned'
    rw [advance_eq hpu.sound ha' hst howned' hs' (halike.retiring.trans ho)] at hc ⊢
    have hdecides := retryLocked_decides hp
      (hpu.sound.shaped ref a' ha')
    refine ⟨hc, retryLocked_converting_quiet hpu.sound hqu hp hco hempty' hc,
      hdecides.steady fun other b hne => ?_,
      fun hca => (hop hca).of_frame (c.pump.retryLocked_frame ref a')⟩
    exact hpu.steady (fun a => hbe.others other a hne) b
  unfold Coordinator.finishApply
  revert hadvanced
  generalize c.pump.advance ref = outcome
  intro hadvanced
  obtain ⟨next, result⟩ := outcome
  cases result with
  | error failure => exact hadvanced
  | ok _ => exact hadvanced.aging (applyReceipt_aging next session id ref)

/-- A conversion by an owner that has a waiting request already. -/
def Coordinator.ConvertsBeside (c : Coordinator) : Call → Prop
  | .apply session node owner commands _ =>
    ∃ first, commands.head? = some first ∧
      first.conversion = .dropBeforeAcquire ∧
      ∃ ref ∈ c.waiting, ∃ a, c.heap ref = some a ∧
        a.key = ⟨session, owner, node, first.domain⟩
  | _ => False

lemma startedBy_begun (hste : ∀ ref a, c.heap ref = some a → a.Steady)
    {s : Session} {id : LockRequestID} {epoch : ℕ}
    {commands : List RangeCommand} (hfi : commands.head? = some first)
    (hadmits : Admits True c key id epoch commands s) (ho : s.retiring = false)
    (hbeside : first.conversion = .dropBeforeAcquire →
      ∀ ref ∈ c.waiting, ∀ a, c.heap ref = some a → a.key ≠ key) (hop : calm → c.Opened) :
    Begun calm (c.startedBy key id epoch commands) c.allocated := by
  have hp := hadmits.enrolled.1
  have hc := hadmits.sound
  have hf := startLocked_frame (c.enrolledBy key id epoch commands)
    c.allocated
  have hke := Keeps.startedBy hadmits
  have hold : ∀ {other b}, other ≠ c.allocated →
      (c.startedBy key id epoch commands).heap other = some b →
      ∃ a, c.heap other = some a ∧ a.key = b.key := by
    intro other b hne hb
    obtain ⟨a, ha, hid⟩ := hf.request_back hb
    change Function.update c.heap c.allocated _ other = some a at ha
    rw [Function.update_of_ne hne] at ha
    exact ⟨a, ha, congrArg Identity.key hid⟩
  refine ⟨(hadmits.started fun _ _ _ _ _ => trivial).1, fun hca => ?_,
    fun other b hne hb => ?_, ?_⟩
  · have henrolled : (c.enrolledBy key id epoch commands).Opened :=
      (hop hca).modify key.session (Session.record id c.allocated) fun _ => rfl
    exact henrolled.of_frame hf
  · obtain ⟨a, ha, -⟩ := hold hne hb
    obtain ⟨b', hb', -, hk⟩ := hke.requests ha
    cases hb.symm.trans hb'
    exact hk (hste other a ha)
  · refine (startLocked_steady_or_converted hp hadmits.unanswered rfl rfl
      hfi).imp (fun h => h) fun hconverted => ?_
    obtain ⟨a, ha, hid⟩ := hf.request_forth hp.retained.heap
    have hkey : a.key = key := congrArg Identity.key hid
    obtain ⟨s', hs', halike⟩ := hf.session_forth hadmits.enrolled_session
    have howned' := hp.owned.of_frame hf
    refine ⟨a, s', ha, hkey ▸ howned', hkey ▸ hs',
      halike.retiring.trans ho, hkey ▸ hconverted.held,
      fun other hm b hb => ?_⟩
    have hmem' := hconverted.waiting ▸ hm
    obtain ⟨old, hwaited, -⟩ := hc.ledger.queue.waiting.mp hmem'
    obtain ⟨b', hb', hsm⟩ := hold
      (hc.directory.allocated hwaited.heap).ne hb
    rw [← hsm, hkey]
    exact hbeside hconverted.conversion other hmem' b' hb'

lemma Begun.of_rested (hre : Rested calm c) (ref : RequestRef) : Begun calm c ref :=
  ⟨hre.sound, hre.opened, fun other a _ => hre.steady other a,
    .inl (hre.steady ref)⟩

lemma Rested.apply (hre : Rested calm c) (session node owner : ℕ)
    (commands : List RangeCommand) (id : LockRequestID)
    (hbeside : ¬c.ConvertsBeside (.apply session node owner commands id)) :
    Rested calm (c.perform (.apply session node owner commands id)) := by
  have hlaunches := applyOrdered_launches hre.sound session node owner
    commands id
  simp only [perform]
  revert hlaunches
  generalize c.applyOrdered session node owner commands id = outcome
  intro hlaunches
  cases hlaunches with
  | @aged outcome haging _ =>
    have hwaited := hre.aging haging
    obtain ⟨next, result⟩ := outcome
    cases result with
    | error failure => exact hwaited
    | ok pair => exact (Begun.of_rested hwaited pair.2).finishApply _ _
  | started haging hfi hadmits ho _ _ _ =>
    have hag := haging.ages
    have hbe := startedBy_begun (by rw [hag.heap]; exact hre.steady)
      hfi hadmits ho (fun hco other hm b hb heq => hbeside
        ⟨_, hfi, hco, other, hag.waiting ▸ hm, b,
          hag.heap ▸ hb, heq⟩) fun hca => (hre.opened hca).of_ages hag
    exact Begun.finishApply ⟨hbe.sound.ticked, hbe.opened, hbe.others, hbe.own⟩ _ _

lemma newSession_idles (hc : Sound True c) (options : FileSessionOptions)
    (fence : Bool) : Idles calm c (c.newSession options fence).state := by
  unfold newSession
  split
  · exact .refl
  split
  · exact .refl
  split
  · exact .refl
  change Idles calm c (c.withSession options)
  have hlookup : ∀ id, (c.withSession options).sessions.get? id =
      if id = c.nextSession + 1 then
        some (freshSession (c.nextSession + 1) options c.time)
      else c.sessions.get? id := fun id => Table.get?_set ..
  refine ⟨rfl, rfl, rfl, fun {id s s'} hs hs' hclosed => ?_, fun _ hop id s' hs' => ?_⟩
  · have hbound := (hc.directory.session hs).2.1
    rw [hlookup, if_neg (by omega)] at hs'
    exact Option.some.inj (hs.symm.trans hs') ▸ hclosed
  · rw [hlookup] at hs'
    split at hs'
    · obtain rfl := Option.some.inj hs'
      rfl
    · exact hop id s' hs'

lemma newOwner_idles (session node : ℕ) (scope : UseScope) (options : OwnerOptions) :
    Idles calm c (c.newOwner session node scope options).state := by
  unfold newOwner
  split
  · exact .refl
  · exact .refl
  split
  · exact .refl
  split
  · exact .refl
  split
  · exact .refl
  split
  · exact .refl
  have hidles : Idles calm c (c.modifySession session (Session.bind node scope options)) :=
    modifySession_idles session _ (fun _ h => h) fun _ _ => rfl
  exact { hidles with }

lemma uses_idles (uses : Table UseScope UseRecord) : Idles calm c { c with uses := uses } :=
  { Idles.refl with }

lemma addUse_idles (node : ℕ) (scope : UseScope) (claim : UseClaim) :
    Idles calm c (c.addUse node scope claim).state := by
  unfold addUse
  split
  · exact .refl
  · exact .refl
  · exact .refl
  split
  · split <;> exact .refl
  split
  · exact .refl
  split
  · exact .refl
  · exact uses_idles _

lemma dropUse_idles (node : ℕ) (scope : UseScope) :
    Idles calm c (c.dropUse node scope).state := by
  unfold dropUse
  split
  · exact .refl
  · exact .refl
  split
  · exact .refl
  split
  · exact .refl
  · exact uses_idles _

lemma dropUseExact_idles (node : ℕ) (scope : UseScope) (claim : UseClaim) :
    Idles calm c (c.dropUseExact node scope claim).state := by
  unfold dropUseExact
  split
  · exact .refl
  · exact .refl
  · exact .refl
  split
  · exact uses_idles _
  · exact .refl

lemma Rested.perform (hre : Rested calm c) (call : Call) (hbeside : ¬c.ConvertsBeside call)
    (hfence : calm → ∀ session failure, call ≠ .retire session (.error failure)) :
    Rested calm (c.perform call) := by
  have hc := hre.sound
  cases call with
  | newSession options fence =>
    exact hre.of_idles (newSession_idles hc options fence)
      (hc.exec (.newSession options fence) fun _ => trivial)
  | newOwner session node scope options =>
    exact hre.of_idles (newOwner_idles session node scope options)
      (hc.exec (.newOwner session node scope options) fun _ => trivial)
  | apply session node owner commands id =>
    exact hre.apply session node owner commands id hbeside
  | query session node owner id => exact hre.query session node owner id
  | cancel session node owner id => exact hre.cancel session node owner id
  | requestNode session owner id =>
    exact hre.aging (Sound.requestLocked_found c session owner id).1
  | drop session node owner domain => exact hre.drop session node owner domain
  | retireOwner session owner => exact hre.retireOwner session owner
  | retire session fence =>
    refine hre.retire session fence fun hca => ?_
    cases fence with
    | error failure => exact absurd rfl (hfence hca session failure)
    | ok _ => rfl
  | history session => exact hre.aging (history_aging c session)
  | closeAdmission session => exact hre.aging (c.advanced_aging session)
  | addUse node scope claim =>
    exact hre.of_idles (addUse_idles node scope claim)
      (hc.exec (.addUse node scope claim) fun _ => trivial)
  | dropUse node scope =>
    exact hre.of_idles (dropUse_idles node scope)
      (hc.exec (.dropUse node scope) fun _ => trivial)
  | dropUseExact node scope claim =>
    exact hre.of_idles (dropUseExact_idles node scope claim)
      (hc.exec (.dropUseExact node scope claim) fun _ => trivial)

end

/-! ## Runs -/

lemma Rested.run {calm : Prop} (hre : Rested calm c) {calls : List Call}
    (halong : Runs.Along Coordinator.perform (fun c call => ¬c.ConvertsBeside call) c calls)
    (hfences : calm → ∀ session failure, .retire session (.error failure) ∉ calls) :
    Rested calm (calls.foldl Coordinator.perform c) := by
  induction calls generalizing c with
  | nil => exact hre
  | cons call rest ih =>
    refine ih (hre.perform call halong.1 fun hca session failure heq => ?_)
      halong.2 fun hca session failure hm =>
        hfences hca session failure (List.mem_cons_of_mem _ hm)
    exact hfences hca session failure (heq ▸ List.mem_cons_self ..)

lemma rested_new {calm : Prop} {config : Config} {now : ℕ → Time}
    (hnew : new config now = .ok c) : Rested calm c := by
  refine ⟨sound_of_run hnew [], ?_, ?_, fun _ => ?_⟩
  · obtain ⟨-, rfl⟩ := new_eq_ok hnew
    exact fun ref hm => by cases hm
  · obtain ⟨-, rfl⟩ := new_eq_ok hnew
    exact fun ref a hg => by cases hg
  · obtain ⟨-, rfl⟩ := new_eq_ok hnew
    exact fun id s hg => by cases hg

/-- Let no owner start a conversion while another of its requests for the same
file and domain waits.  Then after every operation no waiting request is ready:
a rival range blocks it, or its session is stuck in a retirement whose fence
failed.  Where no fence fails, every waiting request is blocked by a rival. -/
theorem no_lost_wakeup {config : Config} {now : ℕ → Time}
    {c₀ c : Coordinator} (hnew : new config now = .ok c₀) (calls : List Call)
    (hrun : calls.foldl perform c₀ = c)
    (halong : Runs.Along perform (fun c call => ¬c.ConvertsBeside call) c₀ calls) :
    (∀ ref ∈ c.waiting, c.readyLocked ref = false) ∧
      ((∀ session failure, .retire session (.error failure) ∉ calls) →
        ∀ ref ∈ c.waiting, ∃ a, c.heap ref = some a ∧ ∃ command ∈ a.commands,
            (command.edit = .replace ∨ command.edit = .addExact) ∧
            ∃ other state held, c.owners.get? other = some state ∧
              other ≠ a.key ∧ other.node = a.key.node ∧
              other.domain = a.key.domain ∧ held ∈ state.ranges ∧
              clashes held.command command = true) := by
  subst hrun
  have hre : Rested (∀ session failure, .retire session (.error failure) ∉ calls)
      (calls.foldl perform c₀) := (rested_new hnew).run halong id
  refine ⟨hre.quiet, fun hfences ref hm => ?_⟩
  obtain ⟨a, hp, -⟩ := exists_poised hre.sound hm
  obtain ⟨s, hs, -⟩ := hp.retained.listed
  have ho := hre.opened hfences a.key.session s hs
  have hstu : (calls.foldl perform c₀).Stuck a := by
    by_contra hfree
    have hrd := (readyLocked_eq_true_iff hp.retained.heap hs).mpr
      ⟨ho, hfree⟩
    rw [hre.quiet ref hm] at hrd
    cases hrd
  obtain ⟨command, hcommand, hacq, hblocked⟩ := hstu
  simp only [Free, not_forall] at hblocked
  obtain ⟨other, state, hst, hrival, held, hh, hclash⟩ := hblocked
  obtain ⟨hne, hnode, hdomain⟩ := rivals_iff.mp hrival
  refine ⟨a, hp.retained.heap, command, hcommand, ?_, other, state, held,
    hst, hne, hnode, hdomain, hh, by simpa using hclash⟩
  simpa [RangeEdit.acquires] using hacq

def fileLock (mode : RangeMode) (start : UInt64) (conversion : ConversionRule) : RangeCommand :=
  ⟨.wholeFile, mode, ⟨.bytes, start, 10, 0⟩, .replace, [], true, conversion,
    .zero⟩

lemma not_convertsBeside {session node owner : ℕ} {rest : List RangeCommand}
    {id : LockRequestID} (hke : first.conversion ≠ .dropBeforeAcquire) :
    ¬c.ConvertsBeside (.apply session node owner (first :: rest) id) := by
  rintro ⟨found, hfd, hco, -⟩
  obtain rfl := Option.some.inj hfd
  exact hke hco

/-- The second of two owners waits for bytes that the first one holds. -/
def contendedCalls : List Call :=
  [.newSession DefaultFileSessionOptions true,
    .newOwner 1 7 ⟨[97]⟩ ⟨.explicit, 0, 1⟩,
    .newOwner 1 7 ⟨[98]⟩ ⟨.explicit, 0, 2⟩,
    .apply 1 7 1 [fileLock .exclusive 0 .preserveBeforeAcquire]
      (sampleRequest 49),
    .apply 1 7 2 [fileLock .exclusive 5 .preserveBeforeAcquire]
      (sampleRequest 50)]

theorem no_lost_wakeup_contended :
    (contendedCalls.foldl perform (.empty DefaultConfig fun _ => 0)).waiting = [1] ∧
      (contendedCalls.foldl perform (.empty DefaultConfig fun _ => 0)).readyLocked 1 = false := by
  have hwa : (contendedCalls.foldl perform
      (.empty DefaultConfig fun _ => 0)).waiting = [1] := by decide +kernel
  refine ⟨hwa, (no_lost_wakeup new_default contendedCalls rfl ?_).1 1 (by simp [hwa])⟩
  exact ⟨fun h => h, fun h => h, fun h => h, not_convertsBeside (by decide),
    not_convertsBeside (by decide), trivial⟩

/-- The first owner converts while a batch of its own waits.  The second owner
gets the range that was given up and weakens the one it had, so the waiting
batch is granted by the pump inside the conversion and blocks the third owner.
The rest of the conversion weakens that range again, and the request of the third
owner stays in the list although nothing blocks it. -/
def overtakenConversion : List Call :=
  [.newSession DefaultFileSessionOptions true,
    .newOwner 1 7 ⟨[97]⟩ ⟨.explicit, 0, 1⟩,
    .newOwner 1 7 ⟨[98]⟩ ⟨.explicit, 0, 2⟩,
    .newOwner 1 7 ⟨[99]⟩ ⟨.explicit, 0, 3⟩,
    .apply 1 7 2 [fileLock .exclusive 0 .preserveBeforeAcquire]
      (sampleRequest 49),
    .apply 1 7 1 [fileLock .exclusive 20 .preserveBeforeAcquire]
      (sampleRequest 50),
    .apply 1 7 1 [fileLock .shared 0 .preserveBeforeAcquire,
      fileLock .exclusive 40 .preserveBeforeAcquire] (sampleRequest 51),
    .apply 1 7 3 [fileLock .shared 0 .preserveBeforeAcquire,
      fileLock .shared 40 .preserveBeforeAcquire] (sampleRequest 52),
    .apply 1 7 2 [fileLock .exclusive 20 .preserveBeforeAcquire,
      fileLock .shared 0 .preserveBeforeAcquire] (sampleRequest 53),
    .apply 1 7 1 [fileLock .shared 40 .dropBeforeAcquire] (sampleRequest 54)]

theorem lost_wakeup_overtakenConversion :
    new DefaultConfig (fun _ => 0) = .ok (.empty DefaultConfig fun _ => 0) ∧
      3 ∈ (overtakenConversion.foldl perform (.empty DefaultConfig fun _ => 0)).waiting ∧
      (overtakenConversion.foldl perform
        (.empty DefaultConfig fun _ => 0)).readyLocked 3 = true :=
  ⟨new_default, by decide +kernel, by decide +kernel⟩

end RemoteFs.Advisory
