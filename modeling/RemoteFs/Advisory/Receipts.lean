import RemoteFs.Advisory.Upkeep

/-!
# The receipts of requests

A request object carries its receipt, which is assembled by drafting, by
keeping releases, by conversion and by completion.  `Request.Shape` describes
the receipt in every state of a request.  One case is set apart: a rejection
may report the release of the very `Subtract` it failed at.  Whether that case
is allowed is the parameter `slip`, so that the same proof describes all runs
and the runs in which no draft overdraws its limits.
-/

namespace RemoteFs.Advisory

open Storage Coordinator

variable {ref : RequestRef} {a action : Request} {c c' : Coordinator}
  {slip steady : Prop} {edit : EditResult} {state : AttemptState}
  {before : List RangeCommand} {command first : RangeCommand} {code : RejectionCode}

/-- The effect of giving up one whole-file range before a conversion. -/
structure DropEffect (effect : RangeEffect) : Prop where
  released : effect.released = true
  claim : effect.claim = []
  valid : effect.command.Valid
  domain : effect.command.domain = .wholeFile
  edit : effect.command.edit = .replace
  bytes : effect.command.range.kind = .bytes
  wait : effect.command.wait = false
  conversion : effect.command.conversion = .preserveBeforeAcquire
  policy : effect.command.policy = .zero

/-- The effects that a conversion leaves at the front of a receipt. -/
structure Drops (commands : List RangeCommand) (effects : List RangeEffect) : Prop where
  each : ∀ effect ∈ effects, DropEffect effect
  converts : effects ≠ [] → ∀ command ∈ commands, command.conversion = .dropBeforeAcquire

variable (commands : List RangeCommand)

lemma Drops.nil : Drops commands [] := ⟨fun _ h => absurd h List.not_mem_nil, fun h => absurd rfl h⟩

def ConflictOk (conflict : RangeConflict) : Prop :=
  conflict = .zero ∨
    (conflict.found = true ∧ conflict.mode.defined = true ∧
      conflict.range.Valid)

def acquiresAny : Bool :=
  commands.any fun command => command.edit.acquires

/-- The receipt of a request that has not been decided. -/
structure Request.Open (a : Request) : Prop where
  everGranted : a.result.everGranted = false
  rejection : a.result.rejection = none
  failedAt : a.result.failedAt = none
  claims : a.result.claims = []
  drops : Drops a.commands a.result.effects
  room : a.result.effects.length + a.commands.length ≤ maxRangeEffects
  released : ∀ index, a.released.getD index false = false
  waits : a.pending = true → ∀ command ∈ a.commands, command.wait = true
  converts : a.converting = true → ∀ command ∈ a.commands, command.conversion = .dropBeforeAcquire
  prepared : a.converting = true → a.prepared = true
  order : a.order = true

/-- The receipt of a request whose commands took effect. -/
structure Request.Applied (a : Request) : Prop where
  rejection : a.result.rejection = none
  failedAt : a.result.failedAt = none
  effects : ∃ drops, Drops a.commands drops ∧
    a.result.effects = drops ++ a.commands.zipIdx.map (effectOf a.id)
  size : a.result.effects.length ≤ maxRangeEffects
  claims : a.result.claims = a.commands.zipIdx.filterMap (claimOf a.id)

structure Request.Cancelled (a : Request) : Prop where
  everGranted : a.result.everGranted = false
  rejection : a.result.rejection = none
  failedAt : a.result.failedAt = none
  claims : a.result.claims = []
  drops : Drops a.commands a.result.effects
  size : a.result.effects.length ≤ maxRangeEffects

def RejectionCode.known : RejectionCode → Bool
  | .unknown _ => false
  | _ => true

/-- A rejection with a failing command; the releases before it are kept. -/
structure Request.FailedAt (slip : Prop) (a : Request)
    (before : List RangeCommand) (command : RangeCommand) : Prop where
  failedAt : a.result.failedAt = some before.length
  effects : ∃ drops kept, Drops a.commands drops ∧
    a.result.effects = drops ++ releasePrefix kept ∧
    (kept = before ∨ (slip ∧ command.edit = .subtract ∧ kept = before ++ [command]))

structure Request.Rejected (slip : Prop) (a : Request) : Prop where
  everGranted : a.result.everGranted = false
  claims : a.result.claims = []
  size : a.result.effects.length ≤ maxRangeEffects
  rejection : ∃ code, a.result.rejection = some code ∧ RejectionCode.known code = true ∧
    ((a.result.failedAt = none ∧ (code = .exhausted ∨ code = .tooLarge) ∧
        Drops a.commands a.result.effects) ∨
      ∃ before command rest, a.commands = before ++ command :: rest ∧
        a.FailedAt slip before command)

/-- The receipt of a request in each of its states. -/
def Request.Body (slip : Prop) (a : Request) : Prop :=
  match a.result.state with
  | .pending => a.Open ∧ a.pending = !a.converting
  | .granted => a.Applied ∧ a.result.everGranted = true ∧
      acquiresAny a.commands = true
  | .released => a.Applied ∧ a.result.everGranted = acquiresAny a.commands
  | .cancelled => a.Cancelled
  | .rejected => a.Rejected slip
  | .undefined _ => False

structure Request.Shape (slip : Prop) (a : Request) : Prop where
  request : a.result.request = a.id
  commands : a.result.commands = a.commands
  conflict : ConflictOk a.result.conflict
  body : a.Body slip

/-- A request that has no answer yet, whether or not it waits for one. -/
structure Request.Unanswered (a : Request) : Prop extends a.Open where
  request : a.result.request = a.id
  commands : a.result.commands = a.commands
  conflict : ConflictOk a.result.conflict

/-- Every action object has a well-formed receipt. -/
def Shaped (slip : Prop) (c : Coordinator) : Prop :=
  ∀ ref a, c.heap ref = some a → a.Shape slip

/-! ## Completing one request -/

section

variable {slip : Prop} {a : Request}

lemma ConflictOk.completed {rejection : Option RejectionCode} {expires : Time}
    (hconflict : ConflictOk a.result.conflict) :
    ConflictOk (a.completed state rejection expires).result.conflict := by
  simp only [Request.completed]
  split
  · exact .inl rfl
  · exact hconflict

lemma Request.body_of_pending (hs : a.result.state = .pending) (ho : a.Open)
    (hwaits : a.pending = !a.converting) : a.Body slip := by
  rw [Request.Body, hs]
  exact ⟨ho, hwaits⟩

lemma Request.Shape.pending_body (hsh : a.Shape slip) (hs : a.result.state = .pending) :
    a.Open ∧ a.pending = !a.converting := by
  have hbody := hsh.body
  rwa [Request.Body, hs] at hbody

lemma Request.Shape.unanswered (hsh : a.Shape slip)
    (hs : a.result.state = .pending) : a.Unanswered :=
  ⟨(hsh.pending_body hs).1, hsh.request, hsh.commands, hsh.conflict⟩

lemma Request.Unanswered.shape (ho : a.Unanswered) (hs : a.result.state = .pending)
    (hwaits : a.pending = !a.converting) : a.Shape slip :=
  ⟨ho.request, ho.commands, ho.conflict, body_of_pending hs ho.toOpen hwaits⟩

lemma Request.Shape.granted_body (hsh : a.Shape slip) (hs : a.result.state = .granted) :
    a.Applied ∧ a.result.everGranted = true ∧ acquiresAny a.commands = true := by
  have hbody := hsh.body
  rwa [Request.Body, hs] at hbody

lemma Request.Shape.release (hsh : a.Shape slip) (hs : a.result.state = .granted)
    (expires : Time) : (a.completed .released none expires).Shape slip := by
  obtain ⟨happlied, hgr, hacq⟩ := hsh.granted_body hs
  refine ⟨hsh.request, hsh.commands, hsh.conflict.completed, ?_⟩
  refine ⟨⟨rfl, happlied.failedAt, happlied.effects, happlied.size, happlied.claims⟩, ?_⟩
  change (a.result.everGranted || decide (AttemptState.released = .granted)) =
    acquiresAny a.commands
  rw [hgr, hacq]
  rfl

lemma Request.Open.size (ho : a.Open) : a.result.effects.length ≤ maxRangeEffects :=
  (Nat.le_add_right _ _).trans ho.room

lemma Request.Shape.cancel (hsh : a.Shape slip) (hs : a.result.state = .pending)
    (expires : Time) : (a.completed .cancelled none expires).Shape slip := by
  obtain ⟨ho, -⟩ := hsh.pending_body hs
  refine ⟨hsh.request, hsh.commands, hsh.conflict.completed, ?_⟩
  refine ⟨?_, rfl, ho.failedAt, ho.claims, ho.drops, ho.size⟩
  simp [Request.completed, ho.everGranted]

lemma Request.Unanswered.reject (ho : a.Unanswered)
    (hco : code = .exhausted ∨ code = .tooLarge) (expires : Time) :
    (a.completed .rejected (some code) expires).Shape slip := by
  refine ⟨ho.request, ho.commands, ho.conflict.completed, ?_⟩
  refine ⟨?_, ho.claims, ho.size, code, rfl, ?_, .inl ⟨ho.failedAt, hco, ho.drops⟩⟩
  · simp [Request.completed, ho.everGranted]
  · rcases hco with rfl | rfl <;> rfl

end

/-! ## Settling granted requests -/

/-- Some granted requests were released; nothing else changed. -/
def Settles (heap heap' : RequestRef → Option Request) : Prop :=
  ∀ ref, heap' ref = heap ref ∨
    ∃ a expires, heap ref = some a ∧ a.result.state = .granted ∧
      heap' ref = some (a.completed .released none expires)

variable {heap : RequestRef → Option Request}

lemma Settles.refl : Settles heap heap := fun _ => .inl rfl

variable {heap' heap'' : RequestRef → Option Request}

lemma Settles.trans (h : Settles heap heap') (h' : Settles heap' heap'') :
    Settles heap heap'' := by
  intro ref
  rcases h ref with hsm | ⟨a, expires, ha, hs, hr⟩
  · have hnext := h' ref
    rwa [hsm] at hnext
  rcases h' ref with hsm | ⟨b, -, hb, hstate', -⟩
  · exact .inr ⟨a, expires, ha, hs, hsm.trans hr⟩
  · cases hr.symm.trans hb
    cases hstate'

lemma Settles.shape (hse : Settles heap heap')
    (hsh : ∀ a, heap ref = some a → a.Shape slip) {a' : Request}
    (hg : heap' ref = some a') : a'.Shape slip := by
  rcases hse ref with hsm | ⟨a, expires, ha, hs, hr⟩
  · rw [hsm] at hg
    exact hsh a' hg
  · cases hr.symm.trans hg
    exact (hsh a ha).release hs expires

lemma Settles.keeps (hse : Settles heap heap') (hg : heap ref = some a)
    (hs : a.result.state ≠ .granted) : heap' ref = some a := by
  rcases hse ref with hsm | ⟨b, -, hb, hgr, -⟩
  · rw [hsm, hg]
  · cases hg.symm.trans hb
    exact absurd hgr hs

lemma settleRemoved_settles (actions : Table LockRequestID RequestRef)
    (key : OwnerKey) (live : List ClaimID) (c : Coordinator) (id : LockRequestID) :
    Settles c.heap (settleRemoved actions key live c id).heap := by
  unfold settleRemoved
  split
  · exact .refl
  next ref _ =>
  split
  · exact .refl
  next action hg =>
  split
  · exact .refl
  next hguard =>
  split
  · exact .refl
  have hs : action.result.state = .granted := by
    by_contra hne
    exact hguard (.inr hne)
  rw [completeLocked_heap hg]
  intro other
  by_cases heq : other = ref
  · subst heq
    exact .inr ⟨action, _, hg, hs, Function.update_self ..⟩
  · exact .inl (Function.update_of_ne heq ..)

lemma reconcileRemovedClaimsLocked_settles (c : Coordinator)
    (key : OwnerKey) (effects : List RangeEffect) :
    Settles c.heap (c.reconcileRemovedClaimsLocked key effects).heap := by
  unfold reconcileRemovedClaimsLocked
  split
  · exact .refl
  · exact List.foldlRecOn (motive := fun c' : Coordinator => Settles c.heap c'.heap) _ _
      .refl fun c' hstep id _ => Settles.trans hstep (settleRemoved_settles _ _ _ c' id)

/-! ## Deciding one request -/

/-- No request became pending. -/
def Quiets (heap heap' : RequestRef → Option Request) : Prop :=
  ∀ ref a, heap' ref = some a → a.result.state = .pending →
    heap ref = some a

lemma Quiets.trans (h : Quiets heap heap') (h' : Quiets heap' heap'') : Quiets heap heap'' :=
  fun ref a hg hs => h ref a (h' ref a hg hs) hs

lemma Settles.quiets (h : Settles heap heap') : Quiets heap heap' := by
  intro ref a hg hs
  rcases h ref with hsm | ⟨b, expires, -, -, hr⟩
  · rwa [← hsm]
  · cases hr.symm.trans hg
    cases hs

lemma completeLocked_quiets (hs : state ≠ .pending) (rejection : Option RejectionCode) :
    Quiets c.heap (c.completeLocked ref state rejection).heap := by
  intro other a hg hpd
  cases hold : c.heap ref with
  | none =>
    simp only [completeLocked, hold] at hg
    exact hg
  | some action =>
    rcases heap_cases (completeLocked_heap hold ..) hg with ⟨-, rfl⟩ | ⟨-, hg⟩
    · exact absurd hpd hs
    · exact hg

/-- A request that is decided or waits, and is not in the middle of a
conversion. -/
def Request.Steady (a : Request) : Prop :=
  a.result.state = .pending → a.converting = false

lemma Request.steady_completed (a : Request) (hs : state ≠ .pending)
    (rejection : Option RejectionCode) (expires : Time) :
    (a.completed state rejection expires).Steady :=
  fun hpd => absurd hpd hs

/-- One request got a new well-formed receipt and some granted requests were
released. -/
def Decides (slip steady : Prop) (c : Coordinator) (ref : RequestRef) (c' : Coordinator) : Prop :=
  ∃ a : Request, a.Shape slip ∧ (steady → a.Steady) ∧
    Settles (Function.update c.heap ref (some a)) c'.heap

lemma Decides.of_heap (hsh : a.Shape slip) (hsteady : steady → a.Steady)
    (hheap : c'.heap = Function.update c.heap ref (some a)) : Decides slip steady c ref c' := by
  refine ⟨a, hsh, hsteady, ?_⟩
  rw [hheap]
  exact .refl

lemma Decides.shaped (hothers : ∀ other a, other ≠ ref → c.heap other = some a → a.Shape slip)
    (hdecides : Decides slip steady c ref c') : Shaped slip c' := by
  obtain ⟨a, hsh, -, hse⟩ := hdecides
  intro other b hg
  refine hse.shape (fun b' hb' => ?_) hg
  rcases heap_cases rfl hb' with ⟨-, rfl⟩ | ⟨hne, hb'⟩
  · exact hsh
  · exact hothers other b' hne hb'

lemma Settles.update {x : Option Request} (hse : Settles (Function.update heap ref x) heap')
    (y : Option Request) :
    Settles (Function.update heap ref y) (Function.update heap' ref y) := by
  intro other
  by_cases heq : other = ref
  · subst heq
    left
    rw [Function.update_self, Function.update_self]
  · have hother := hse other
    rw [Function.update_of_ne heq] at hother ⊢
    rwa [Function.update_of_ne heq]

lemma modifyRequest_heap (hg : c.heap ref = some a) (change : Request → Request) :
    (c.modifyRequest ref change).heap = Function.update c.heap ref (some (change a)) := by
  simp [modifyRequest, hg]

lemma heap_self (hheap : heap' = Function.update heap ref (some a)) : heap' ref = some a := by
  rw [hheap, Function.update_self]

section

variable (hg : c.heap ref = some a)
include hg

lemma Decides.of_modify (change : Request → Request)
    (hdecides : Decides slip steady (c.modifyRequest ref change) ref c') :
    Decides slip steady c ref c' := by
  obtain ⟨b, hsh, hsteady, hse⟩ := hdecides
  rw [modifyRequest_heap hg, Function.update_idem] at hse
  exact ⟨b, hsh, hsteady, hse⟩

lemma converted_heap (effects : List RangeEffect) (key : OwnerKey) :
    (((c.modifyRequest ref (Request.keepDrops effects)).replaceLocked key
      []).modifyRequest ref Request.convert).heap =
        Function.update c.heap ref (some (a.keepDrops effects).convert) := by
  have hreplaced : ((c.modifyRequest ref (Request.keepDrops effects)).replaceLocked key []).heap =
        Function.update c.heap ref (some (a.keepDrops effects)) := by
    rw [← modifyRequest_heap hg]
    unfold replaceLocked
    split <;> rfl
  rw [modifyRequest_heap (by rw [hreplaced, Function.update_self]), hreplaced, Function.update_idem]

lemma rejectAt_heap (failedAt : Option ℕ) (code : RejectionCode) :
    ∃ expires, (c.rejectAt ref failedAt code).heap =
      Function.update c.heap ref (some ((a.failAt failedAt).completed
        .rejected (some code) expires)) := by
  unfold rejectAt
  have hfailed : (c.modifyRequest ref (Request.failAt failedAt)).heap ref =
      some (a.failAt failedAt) := by
    rw [modifyRequest_heap hg, Function.update_self]
  rw [completeLocked_heap hfailed, modifyRequest_heap hg, Function.update_idem]
  exact ⟨_, rfl⟩

end

lemma commitReleasePrefixLocked_heap (hg : c.heap ref = some action)
    (hs : action.result.state = .pending) (key : OwnerKey) (edit : EditResult) :
    ∃ a, (c.commitReleasePrefixLocked ref key edit).heap ref = some a ∧
      a.identity = action.identity ∧
      a.result = { action.result with
        effects := action.result.effects ++ edit.releaseEffects } ∧
      Settles (Function.update c.heap ref (some a))
        (c.commitReleasePrefixLocked ref key edit).heap := by
  unfold commitReleasePrefixLocked
  split
  · next hnone =>
    rw [List.length_eq_zero_iff] at hnone
    refine ⟨action, hg, rfl, ?_, ?_⟩
    · rw [hnone, List.append_nil]
    · rw [Function.update_eq_self_iff.mpr hg.symm]
      exact .refl
  have hinstalled : (c.installRangesLocked key edit.releaseRanges).heap ref =
      some action := hg
  have hse := reconcileRemovedClaimsLocked_settles ((c.installRangesLocked key
    edit.releaseRanges).modifyRequest ref (Request.keepReleases edit)) key edit.releaseEffects
  rw [modifyRequest_heap hinstalled] at hse
  refine ⟨action.keepReleases edit, ?_, rfl, rfl, hse⟩
  apply hse.keeps (Function.update_self ..)
  change action.result.state ≠ .granted
  rw [hs]
  decide

section

variable {slip steady : Prop} {slack : Set OwnerKey} {c : Coordinator}

/-- A refused draft reports nothing, or a well-formed conflict. -/
lemma Refused.conflictOk (hexcl : Exclusion c.owners)
    (hre : Refused c action before command edit) : ConflictOk edit.conflict := by
  obtain ⟨code, -, hrea⟩ := hre.reason
  revert hrea
  generalize edit.conflict = conflict
  intro hrea
  cases hrea with
  | blocked conflict hacq hspec hf =>
    cases hspec with
    | absent => cases hf
    | found other state held hother hrival hheld hclash =>
      have hvalid := (hexcl.held hother held hheld).valid
      exact .inr ⟨rfl, hvalid.mode, hvalid.range⟩
  | exhausted | notHeld | invalid => exact .inl rfl

lemma Refused.known (hre : Refused c action before command edit)
    (hco : edit.rejected = some code) : RejectionCode.known code = true := by
  obtain ⟨found, hf, hrea⟩ := hre.reason
  cases hf.symm.trans hco
  revert hrea
  generalize edit.conflict = conflict
  intro hrea
  cases hrea <;> rfl

lemma releasePrefix_length_le (commands : List RangeCommand) :
    (releasePrefix commands).length ≤ commands.length := by
  unfold releasePrefix
  rw [List.length_map]
  exact List.length_filter_le _ _

variable {rest : List RangeCommand}

lemma Refused.shape (ho : action.Unanswered) (hexcl : Exclusion c.owners)
    (hsp : action.commands = before ++ command :: rest)
    (hre : Refused c action before command edit)
    (hslip : c.Overdraws action before command → slip) (hidentity : a.identity = action.identity)
    (hresult : a.result = { action.result with
      effects := action.result.effects ++ edit.releaseEffects })
    (hco : RejectionCode.known code = true) (expires : Time) :
    (((a.observe edit.conflict).failAt edit.failedAt).completed .rejected
      (some code) expires).Shape slip := by
  have hid : a.id = action.id := congrArg Identity.id hidentity
  have hcmds : a.commands = action.commands := congrArg Identity.commands hidentity
  have hk : ∃ kept, edit.releaseEffects = releasePrefix kept ∧ (kept = before ∨
        (slip ∧ command.edit = .subtract ∧ kept = before ++ [command])) := by
    rcases hre.releases with hreleases | ⟨hover, hreleases⟩
    · exact ⟨before, hreleases.effects, .inl rfl⟩
    · exact ⟨before ++ [command], hreleases.effects, .inr ⟨hslip hover, hover.1, rfl⟩⟩
  obtain ⟨kept, heffects, hkind⟩ := hk
  have hsize : (action.result.effects ++ edit.releaseEffects).length ≤
      maxRangeEffects := by
    have hle := releasePrefix_length_le kept
    have hroom := ho.room
    have hcount : kept.length ≤ action.commands.length := by
      rcases hkind with rfl | ⟨-, -, rfl⟩
      · simp [hsp]
      · simp [hsp]
    rw [List.length_append, heffects]
    omega
  have hconflict := hre.conflictOk hexcl
  refine ⟨?_, ?_, hconflict.completed (a := (a.observe edit.conflict).failAt
    edit.failedAt), ?_⟩
  · change a.result.request = a.id
    rw [hresult, hid]
    exact ho.request
  · change a.result.commands = a.commands
    rw [hresult, hcmds]
    exact ho.commands
  · refine ⟨?_, ?_, ?_, code, rfl, hco, .inr ⟨before, command, rest, ?_,
      hre.failedAt, action.result.effects, kept, ?_, ?_, hkind⟩⟩
    · change (a.result.everGranted || false) = false
      rw [hresult]
      simpa using ho.everGranted
    · change a.result.claims = []
      rw [hresult]
      exact ho.claims
    · change a.result.effects.length ≤ maxRangeEffects
      rwa [hresult]
    · exact hcmds.trans hsp
    · change Drops a.commands action.result.effects
      rw [hcmds]
      exact ho.drops
    · change a.result.effects = action.result.effects ++ releasePrefix kept
      rw [hresult, heffects]

lemma Drafted.shape (ho : action.Unanswered)
    (hd : Drafted c action action.commands edit) (expires : Time) :
    ((action.keepEdit edit).completed (if edit.acquired then .granted else .released) none expires
      ).Shape slip := by
  have happlied : ∀ state, ((action.keepEdit edit).completed state none expires).Applied := by
    intro state
    refine ⟨rfl, ho.failedAt, ⟨action.result.effects, ho.drops, ?_⟩, ?_, hd.claims⟩
    · change action.result.effects ++ edit.effects = _
      rw [hd.effects]
      rfl
    · change (action.result.effects ++ edit.effects).length ≤ _
      rw [hd.effects, List.length_append, List.length_map, List.length_zipIdx]
      exact ho.room
  refine ⟨ho.request, ho.commands, ho.conflict.completed (a := action.keepEdit edit), ?_⟩
  by_cases hacquired : edit.acquired = true
  · rw [if_pos hacquired]
    refine ⟨happlied _, ?_, ?_⟩
    · simp [Request.completed]
    · exact hd.acquired.symm.trans hacquired
  rw [if_neg hacquired]
  refine ⟨happlied _, ?_⟩
  change (action.result.everGranted || false) = acquiresAny action.commands
  rw [ho.everGranted, acquiresAny, ← hd.acquired]
  simpa using hacquired

lemma commitEditLocked_settles (hg : c.heap ref = some action) {key : OwnerKey}
    (hfits : c.replacementFitsLocked key edit.ranges.length = true) :
    ∃ expires, Settles (Function.update c.heap ref (some ((action.keepEdit edit).completed
          (if edit.acquired then .granted else .released) none expires)))
      (c.commitEditLocked ref key edit).heap := by
  unfold commitEditLocked
  rw [if_pos hfits]
  have hinstalled : (c.installRangesLocked key edit.ranges).heap ref =
      some action := hg
  have hk : ((c.installRangesLocked key edit.ranges).modifyRequest
      ref (Request.keepEdit edit)).heap ref = some (action.keepEdit edit) := by
    rw [modifyRequest_heap hinstalled, Function.update_self]
  have hse := reconcileRemovedClaimsLocked_settles
    (((c.installRangesLocked key edit.ranges).modifyRequest ref
      (Request.keepEdit edit)).completeLocked ref
        (if edit.acquired then .granted else .released) none) key edit.effects
  rw [completeLocked_heap hk, modifyRequest_heap hinstalled, Function.update_idem] at hse
  exact ⟨_, hse⟩

lemma commitEditLocked_decides (hg : c.heap ref = some action)
    (ho : action.Unanswered) (hd : Drafted c action action.commands edit) :
    Decides slip steady c ref (c.commitEditLocked ref action.key edit) := by
  obtain ⟨expires, hse⟩ := commitEditLocked_settles hg hd.fits
  refine ⟨_, hd.shape ho expires, fun _ => ?_, hse⟩
  apply Request.steady_completed
  split <;> decide

/-- A batch that waits stops only for a conflict or for want of room. -/
lemma Refused.exhausted_of_wait (hadm : action.identity.Admitted)
    (hwait : ∀ command ∈ action.commands, command.wait = true)
    (hsp : action.commands = before ++ command :: rest)
    (hre : Refused c action before command edit) (hco : edit.rejected = some code)
    (hblocked : code ≠ .blocked) : code = .exhausted := by
  have hm : command ∈ action.commands := by
    rw [hsp]
    simp
  have hremove : command.edit ≠ .removeExact := by
    intro hedit
    have hno := ((hadm.valid command hm).removeExact hedit).1
    rw [hwait command hm] at hno
    cases hno
  obtain ⟨found, hf, hrea⟩ := hre.reason
  cases hco.symm.trans hf
  revert hrea
  generalize edit.conflict = conflict
  intro hrea
  cases hrea with
  | blocked => exact absurd rfl hblocked
  | exhausted => rfl
  | notHeld hedit => exact absurd hedit hremove
  | invalid hedit => exact absurd hedit hremove

lemma Identity.Admitted.converts {identity : Identity} (hadm : identity.Admitted)
    (hfi : first ∈ identity.commands) (hcon : first.conversion = .dropBeforeAcquire) :
    ∀ command ∈ identity.commands, command.conversion = .dropBeforeAcquire := by
  intro command hcmd
  have hsingle := hadm.single first hfi hcon
  obtain ⟨only, honly⟩ := List.length_eq_one_iff.mp hsingle
  rw [honly, List.mem_singleton] at hfi hcmd
  rwa [hcmd, ← hfi]

lemma dropEffects_drops (hadm : action.identity.Admitted) (hfi : first ∈ action.commands)
    (hcon : first.conversion = .dropBeforeAcquire) {held : List RangeClaim}
    (hheld : ∀ claim ∈ held, claim.Held action.key.domain) :
    Drops action.commands (dropEffects held) := by
  have hdomain : action.key.domain = .wholeFile :=
    (hadm.domain first hfi).symm.trans ((hadm.valid first hfi).drop hcon).1
  have hne : action.key.domain ≠ .enforced := by
    rw [hdomain]
    decide
  constructor
  · intro effect hm
    obtain ⟨claim, hclaim, rfl⟩ := List.mem_map.mp hm
    have hin := hheld claim hclaim
    obtain ⟨hedit, hpolicy⟩ := hin.replace hne
    exact ⟨rfl, hin.anonymous hne, hin.valid, hin.domain_eq.trans hdomain,
      hedit, hin.bytes hne, hin.wait, hin.preserve, hpolicy⟩
  · exact fun _ => hadm.converts hfi hcon

lemma Drops.append {commands : List RangeCommand}
    {effects more : List RangeEffect} (h : Drops commands effects)
    (h' : Drops commands more) : Drops commands (effects ++ more) := by
  constructor
  · intro effect hm
    rcases List.mem_append.mp hm with hleft | hright
    · exact h.each effect hleft
    · exact h'.each effect hright
  · intro hne
    by_cases hnil : effects = []
    · subst hnil
      exact h'.converts hne
    · exact h.converts hnil

/-- The first part of `startLocked` that can refuse a request counts every
command of an undecided batch. -/
lemma Request.Open.projected (ho : action.Open) (held : List RangeClaim) (dropping : Bool) :
    projectedEffects held action dropping =
      action.result.effects.length + action.commands.length +
        if dropping then held.length else 0 := by
  have hcount : (List.range action.commands.length).countP
      (fun index => !action.released.getD index false) =
        action.commands.length := by
    have hall : ∀ index ∈ List.range action.commands.length,
        (!action.released.getD index false) = true := by
      intro index _
      rw [ho.released index]
      rfl
    rw [List.countP_eq_length.mpr hall, List.length_range]
  unfold projectedEffects
  rw [hcount]

/-- A batch without releases before its first decision: queue or refuse. -/
lemma awaitLocked_decides (hg : c.heap ref = some action) {failedAt : Option ℕ}
    (hrejected : ∀ code expires, RejectionCode.known code = true →
      ((action.failAt failedAt).completed .rejected (some code)
        expires).Shape slip) (hawait : action.await.Shape slip)
    (hcon : action.converting = false) {caller : Request} :
    Decides slip steady c ref (c.awaitLocked ref caller failedAt) := by
  have hreject : ∀ code, RejectionCode.known code = true →
      Decides slip steady c ref (c.rejectAt ref failedAt code) := by
    intro code hco
    obtain ⟨expires, hheap⟩ := rejectAt_heap hg failedAt code
    exact .of_heap (hrejected code expires hco)
      (fun _ => Request.steady_completed _ (by decide) _ _) hheap
  have henqueue : Decides slip steady c ref (c.enqueueLocked ref caller.key) :=
    .of_heap hawait (fun _ _ => hcon) (modifyRequest_heap hg Request.await)
  unfold awaitLocked
  split
  · exact hreject _ rfl
  split
  · split
    · exact hreject _ rfl
    · exact hreject _ rfl
    · exact henqueue
  · exact henqueue

lemma Starts.decides (hl : Ledger slack c) (hg : c.heap ref = some action)
    (hadm : action.identity.Admitted)
    (hs : action.result.state = .pending) (ho : action.Unanswered)
    (hpd : action.pending = false) (hcon : action.converting = false) {state : OwnerState}
    (howner : c.owners.get? action.key = some state)
    (hfi : first ∈ action.commands) (hslip : ∀ before command rest,
      action.commands = before ++ command :: rest →
      c.Overdraws action before command → slip) (hstarts : Starts c ref action first c') :
    Decides slip (dropsFirst (c.heldRanges action.key) action first = false) c ref c' := by
  cases hstarts with
  | oversize =>
    exact .of_heap (ho.reject (.inr rfl) _) (fun _ => Request.steady_completed _ (by decide) _ _)
      (completeLocked_heap hg _ _)
  | dropped hdrops hroom =>
    have hconversion : first.conversion = .dropBeforeAcquire := by
      simp only [dropsFirst, Bool.and_eq_true, decide_eq_true_eq] at hdrops
      exact hdrops.1.2
    have hheld : ∀ claim ∈ c.heldRanges action.key, claim.Held action.key.domain := by
      rw [Ledger.heldRanges_eq howner]
      exact hl.exclusion.held howner
    rw [ho.projected, if_pos rfl] at hroom
    refine .of_heap (Request.Unanswered.shape (a := (action.keepDrops
      (dropEffects (c.heldRanges action.key))).convert) ?_ hs hpd)
      (fun hkeeps => by rw [hkeeps] at hdrops; cases hdrops)
      (converted_heap hg _ action.key)
    refine { ho with
      drops := ho.drops.append (dropEffects_drops hadm hfi
        hconversion hheld)
      room := ?_
      waits := fun hwaits => by cases hpd.symm.trans hwaits
      converts := fun _ => hadm.converts hfi hconversion
      prepared := fun _ => rfl }
    change (action.result.effects ++ dropEffects (c.heldRanges action.key)).length +
        action.commands.length ≤ maxRangeEffects
    rw [List.length_append, dropEffects, List.length_map]
    omega
  | committed _ hd => exact commitEditLocked_decides hg ho hd
  | refused _ hsp hre hco =>
    obtain ⟨a, ha, hid, hresult, hse⟩ :=
      commitReleasePrefixLocked_heap hg hs action.key (c.draftLocked action)
    obtain ⟨expires, hheap⟩ := rejectAt_heap (heap_self (modifyRequest_heap ha
      (Request.observe (c.draftLocked action).conflict))) (c.draftLocked action).failedAt _
    refine ⟨_, hre.shape ho hl.exclusion hsp
      (hslip _ _ _ hsp) hid hresult (hre.known hco) expires,
      fun _ => Request.steady_completed _ (by decide) _ _, ?_⟩
    rw [hheap, modifyRequest_heap ha, Function.update_idem]
    exact hse.update _
  | waited _ hsp hre hco hwait hnone =>
    apply Decides.of_modify hg (Request.observe (c.draftLocked action).conflict)
    refine awaitLocked_decides (heap_self (modifyRequest_heap hg _)) ?_ ?_ hcon
    · intro code expires hknown
      exact hre.shape ho hl.exclusion hsp
        (hslip _ _ _ hsp) rfl (by rw [hnone, List.append_nil]) hknown expires
    · refine Request.Unanswered.shape { ho with
        conflict := hre.conflictOk hl.exclusion
        waits := fun _ other hother => (hadm.wait other hother first hfi).trans hwait } hs ?_
      change true = !action.converting
      rw [hcon]
      rfl

lemma startLocked_decides (hp : Poised c ref action)
    (ho : action.Unanswered) (hpd : action.pending = false)
    (hcon : action.converting = false) (hslip : ∀ before command rest,
      action.commands = before ++ command :: rest →
      c.Overdraws action before command → slip) :
    Decides slip (action.prepared = true) c ref (c.startLocked ref) := by
  obtain ⟨first, rest, c', hlist, hstarts, heq⟩ := hp.starts
  have hbegins := hp.begins
  obtain ⟨state, howner⟩ := hbegins.owner
  have hview : SameView action.key c (c.begunLocked ref action.key) := by
    refine (c.ownerLocked_view action.key).trans ?_
    exact .of_rivals rfl rfl rfl rfl (fun _ => rfl) rfl
  obtain ⟨a, hsh, hsteady, hse⟩ := hstarts.decides hbegins.ledger
    hp.begun_heap (hp.directory.admitted hp.retained.heap)
    hp.pending ho hpd hcon howner
    (hlist ▸ List.mem_cons_self ..) fun before command rest hsp hover =>
      hslip before command rest hsp ((hview.overdraws rfl).mp hover)
  rw [hbegins.heap] at hse
  refine ⟨a, hsh, fun hprepared => hsteady ?_, ?_⟩
  · simp [dropsFirst, hprepared]
  · rwa [heq, pruneOwnerLocked_heap]

lemma retryLocked_decides (hp : Poised c ref action) (hsh : action.Shape slip) :
    Decides slip True c ref (c.retryLocked ref action) := by
  have hg := hp.retained.heap
  have hadm := hp.directory.admitted hg
  have ho := hsh.unanswered hp.pending
  have hwaits := (hsh.pending_body hp.pending).2
  rcases hp.retries hwaits with
    ⟨hcon, heq⟩ | ⟨hsteady, hpd, hretries⟩
  · rw [heq]
    apply Decides.of_modify hg Request.resume
    have hprepared : (action.resume.prepared = true) = True := eq_true (ho.prepared hcon)
    rw [← hprepared]
    refine startLocked_decides hp.resume { ho with
      converts := fun h => by cases h
      prepared := fun h => by cases h }
      (hwaits.trans (by rw [hcon]; rfl)) rfl ?_
    intro before command rest hsp hover
    have hm : command ∈ action.commands := by
      rw [show action.commands = before ++ command :: rest from hsp]
      simp
    have hedit := ((hadm.valid command hm).drop
      (ho.converts hcon command hm)).2
    rw [hover.1] at hedit
    cases hedit
  revert hretries
  generalize c.retryLocked ref action = c'
  intro hretries
  cases hretries with
  | committed hd => exact commitEditLocked_decides hg ho hd
  | blocked _ hre _ =>
    exact .of_heap (Request.Unanswered.shape (a := action.observe
      (c.draftLocked action).conflict) { ho with
        conflict := hre.conflictOk hp.ledger.exclusion }
      hp.pending hwaits) (fun _ _ => hsteady)
      (modifyRequest_heap hg (Request.observe _))
  | exhausted hsp hre hco hother =>
    obtain rfl := hre.exhausted_of_wait hadm (ho.waits hpd)
      hsp hco hother
    exact .of_heap (ho.reject (.inl rfl) _) (fun _ => Request.steady_completed _ (by decide) _ _)
      (completeLocked_heap hg _ _)

end

/-! ## Dropping and cancelling -/

lemma Shaped.complete (hsha : Shaped slip c) (hg : c.heap ref = some a)
    (hcomp : ∀ expires, (a.completed state none expires).Shape slip) :
    Shaped slip (c.completeLocked ref state none) := by
  intro other b hb
  rcases heap_cases (completeLocked_heap hg ..) hb with ⟨-, rfl⟩ | ⟨-, hb⟩
  · exact hcomp _
  · exact hsha other b hb

lemma Shaped.settleDropped (hsha : Shaped slip c) (key : OwnerKey) (ref : RequestRef) :
    Shaped slip (settleDropped key c ref) := by
  unfold Coordinator.settleDropped
  split
  · exact hsha
  next action hg =>
  split
  · exact hsha
  split
  · next hs =>
    exact hsha.complete hg fun expires => (hsha ref action hg).cancel hs expires
  split
  · next hs =>
    exact hsha.complete hg fun expires => (hsha ref action hg).release hs expires
  · exact hsha

lemma settleDropped_quiets (key : OwnerKey) (c : Coordinator) (ref : RequestRef) :
    Quiets c.heap (settleDropped key c ref).heap := by
  unfold settleDropped
  split
  · exact fun _ _ h _ => h
  split
  · exact fun _ _ h _ => h
  split
  · exact completeLocked_quiets (by decide) _
  split
  · exact completeLocked_quiets (by decide) _
  · exact fun _ _ h _ => h

lemma clearLocked_heap (c : Coordinator) (key : OwnerKey) :
    (c.clearLocked key).heap = c.heap := by
  unfold clearLocked
  split
  · rfl
  · unfold replaceLocked
    split <;> rfl

lemma dropLocked_quiets (c : Coordinator) (key : OwnerKey) :
    Quiets c.heap (c.dropLocked key).heap := by
  unfold dropLocked
  rw [pruneOwnerLocked_heap]
  exact List.foldlRecOn (motive := fun c' : Coordinator => Quiets c.heap c'.heap) _ _
    (by rw [clearLocked_heap]; exact fun _ _ h _ => h)
    fun c' hstep ref _ => Quiets.trans hstep (settleDropped_quiets key c' ref)

lemma Shaped.dropLocked (hsha : Shaped slip c) (key : OwnerKey) :
    Shaped slip (c.dropLocked key) := by
  have hstart : Shaped slip (c.clearLocked key) := by
    intro ref a hg
    rw [clearLocked_heap] at hg
    exact hsha ref a hg
  unfold Coordinator.dropLocked
  intro ref a hg
  rw [pruneOwnerLocked_heap] at hg
  revert ref a
  exact List.foldlRecOn (motive := Shaped slip) _ _ hstart
    fun c' hstep ref _ => hstep.settleDropped key ref

end RemoteFs.Advisory
