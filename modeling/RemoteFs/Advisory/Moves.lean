import RemoteFs.Advisory.Books

/-!
# The moves of a history

What the history of a session remembers depends on the request objects, the
log, the clock, and four fields of the session record.  `Move` lists every way
in which a critical section changes any of these, each with the guard under
which the code takes it; every section is a sequence of moves.  Invariants of
histories are then proved one move at a time.
-/

namespace RemoteFs.Advisory

open Storage Coordinator

variable {c c' : Coordinator} {ref : RequestRef} {k : ℕ}

/-- The part of a session record that its history depends on. -/
structure Memory where
  options : FileSessionOptions
  epoch : ℕ
  epochUntil : Time
  actions : Table LockRequestID RequestRef

def Session.memory (s : Session) : Memory :=
  ⟨s.options, s.epoch, s.epochUntil, s.actions⟩

/-- Nothing that a history depends on has changed. -/
structure Unmoved (c c' : Coordinator) : Prop where
  now : c'.now = c.now
  reads : c'.reads = c.reads
  nextSession : c'.nextSession = c.nextSession
  sessions : ∀ id, (c'.sessions.get? id).map Session.memory =
    (c.sessions.get? id).map Session.memory
  retired : ∀ id, (c'.retired.get? id).map Session.memory = (c.retired.get? id).map Session.memory
  heap : c'.heap = c.heap
  allocated : c'.allocated = c.allocated
  log : c'.log = c.log

lemma Unmoved.refl : Unmoved c c := ⟨rfl, rfl, rfl, fun _ => rfl, fun _ => rfl, rfl, rfl, rfl⟩

/-- The changes of state that a completion makes. -/
def Follows (state next : AttemptState) : Prop :=
  (state = .pending ∧ (next = .granted ∨ next = .rejected ∨
    next = .cancelled ∨ next = .released)) ∨
    (state = .granted ∧ next = .released)

inductive Move : Coordinator → Coordinator → Prop
  | quiet {c c' : Coordinator} (hsm : Unmoved c c') : Move c c'
  | tick (c : Coordinator) : Move c c.ticked
  | touch {c : Coordinator} {ref : RequestRef} {a : Request}
      (change : Request → Request) (hget : c.heap ref = some a)
      (hidentity : (change a).identity = a.identity)
      (hexpires : (change a).expires = a.expires)
      (hst : (change a).result.state = a.result.state)
      (hgr : (change a).result.everGranted = a.result.everGranted) :
      Move c (c.modifyRequest ref change)
  | start {c : Coordinator} {ref : RequestRef} {a : Request} (hget : c.heap ref = some a) :
      Move c { c with log := c.log ++ [.started ref] }
  | settle {c : Coordinator} {ref : RequestRef} {a : Request}
      (hret : Retained c ref a) {state : AttemptState}
      (hfollows : Follows a.result.state state)
      (rejection : Option RejectionCode) :
      Move c (c.settleLocked ref a state rejection)
  | renew {c : Coordinator} {session k : ℕ} {s : Session}
      (hs : c.session? session = some s) (hpast : k < c.reads)
      (hdue : s.epochUntil ≤ c.now k) :
      Move c (c.modifySession session (Session.renew (c.now k)))
  | prune {c : Coordinator} {k : ℕ} (session : ℕ) (hpast : k < c.reads) :
      Move c (c.pruneHistoryLocked session (c.now k))
  | enroll {c : Coordinator} {k : ℕ} {s : Session} (action : Request)
      (hs : c.sessions.get? action.key.session = some s)
      (hnew : s.actions.get? action.id = none)
      (hid : lockRequestEpoch action.id = .ok s.epoch)
      (hepoch : action.epoch = s.epoch) (hread : c.reads = k + 1)
      (hlive : c.now k < s.epochUntil)
      (hst : action.result.state = .pending)
      (hgr : action.result.everGranted = false) :
      Move c (c.admitLocked action.key.session action)
  | create {c : Coordinator} {options : FileSessionOptions} (hop : options.check = .ok ()) :
      Move c (c.withSession options)
  | dissolve {c : Coordinator} {session : ℕ} {s : Session}
      (hs : c.sessions.get? session = some s) :
      Move c (c.dissolve session s)

abbrev Moves : Coordinator → Coordinator → Prop :=
  Relation.ReflTransGen Move

lemma Move.moves (hmove : Move c c') : Moves c c' := .single hmove

lemma Moves.invariant (holds : Coordinator → Prop)
    (hmove : ∀ {c c'}, holds c → Move c c' → holds c') (hmoves : Moves c c')
    (hc : holds c) : holds c' := by
  induction hmoves with
  | refl => exact hc
  | tail _ hstep ih => exact hmove ih hstep

/-! ## Editing -/

lemma Unmoved.of_frame (hf : Frame c c') (hreads : c'.reads = c.reads)
    (hheap : c'.heap = c.heap) (hlog : c'.log = c.log) : Unmoved c c' where
  now := hf.now
  reads := hreads
  nextSession := hf.nextSession
  sessions := by
    intro id
    have hsm := congrArg (Option.map Session.memory) (hf.sessions id)
    rwa [Option.map_map, Option.map_map] at hsm
  retired := by
    intro id
    rw [hf.retired]
  heap := hheap
  allocated := hf.allocated
  log := hlog

/-- The history of some live session holds the request, and it has not been
decided. -/
def Undecided (c : Coordinator) (ref : RequestRef) : Prop :=
  ∃ a, Retained c ref a ∧ a.result.state = .pending

section

variable (ho : Undecided c ref)
include ho

lemma Undecided.of_frame (hf : Frame c c')
    (hst : ∀ a, c.heap ref = some a → a.result.state = .pending →
      ∀ a', c'.heap ref = some a' → a'.result.state = .pending) : Undecided c' ref := by
  obtain ⟨a, hk, hpd⟩ := ho
  obtain ⟨a', hkept'⟩ := hk.of_frame hf
  exact ⟨a', hkept', hst a hk.heap hpd a' hkept'.heap⟩

lemma Undecided.of_heap (hf : Frame c c') (hheap : c'.heap = c.heap) : Undecided c' ref :=
  ho.of_frame hf fun a ha hpd a' ha' => by
    rw [hheap, ha] at ha'
    exact Option.some.inj ha' ▸ hpd

lemma Undecided.modifyRequest (change : Request → Request)
    (hkeeps : Request.Keeps change) : Undecided (c.modifyRequest ref change) ref :=
  ho.of_frame (c.modifyRequest_frame ref change hkeeps.identity) fun a ha hpd a' ha' => by
      rw [modifyRequest_heap ha, Function.update_self] at ha'
      rwa [← Option.some.inj ha', hkeeps.state]

lemma Undecided.commitReleasePrefixLocked (key : OwnerKey) (edit : EditResult) :
    Undecided (c.commitReleasePrefixLocked ref key edit) ref :=
  ho.of_frame (c.commitReleasePrefixLocked_frame ref key edit) fun a ha hpd a' ha' => by
      obtain ⟨b, hb, -, hresult, -⟩ := commitReleasePrefixLocked_heap ha hpd key edit
      rw [ha', Option.some.injEq] at hb
      rwa [hb, hresult]

end

section

variable {c : Coordinator} {ref : RequestRef}

variable (c)

lemma ownerLocked_moves (key : OwnerKey) : Moves c (c.ownerLocked key) := by
  have hf := c.ownerLocked_frame key
  refine (Move.quiet (.of_frame hf ?_ ?_ ?_)).moves
  all_goals
    unfold ownerLocked
    split <;> rfl

lemma pruneOwnerLocked_moves (key : OwnerKey) : Moves c (c.pruneOwnerLocked key) := by
  have hf := c.pruneOwnerLocked_frame key
  refine (Move.quiet (.of_frame hf ?_ ?_ ?_)).moves
  all_goals
    unfold pruneOwnerLocked
    split
    · rfl
    · split <;> rfl

lemma installRangesLocked_moves (key : OwnerKey)
    (ranges : List RangeClaim) : Moves c (c.installRangesLocked key ranges) :=
  (Move.quiet (.of_frame (c.installRangesLocked_frame key ranges) rfl rfl
    rfl)).moves

lemma replaceLocked_moves (key : OwnerKey)
    (ranges : List RangeClaim) : Moves c (c.replaceLocked key ranges) := by
  unfold replaceLocked
  split
  · exact installRangesLocked_moves c key ranges
  · exact .refl

variable {c}

lemma modifyRequest_moves (ho : Undecided c ref) (change : Request → Request)
    (hkeeps : Request.Keeps change) : Moves c (c.modifyRequest ref change) := by
  obtain ⟨a, hk, -⟩ := ho
  exact (Move.touch change hk.heap (congrFun hkeeps.identity a)
    (congrArg (·.2.1) (congrFun hkeeps a)) (hkeeps.state a)
    (congrArg (·.2.2.2) (congrFun hkeeps a))).moves

lemma completeLocked_moves (hk : Retained c ref a) (hfollows : Follows a.result.state state)
    (rejection : Option RejectionCode) : Moves c (c.completeLocked ref state rejection) := by
  have hse := (Move.settle hk hfollows rejection).moves
  unfold completeLocked
  rw [hk.heap]
  simp only
  split
  · refine hse.trans (.trans ?_ (pruneOwnerLocked_moves _ _))
    exact (Move.quiet (.of_frame (withdrawLocked_frame _ ref a.key) rfl rfl
      rfl)).moves
  · exact hse

lemma decide_moves (ho : Undecided c ref)
    (hst : state = .granted ∨ state = .rejected ∨ state = .cancelled ∨ state = .released)
    (rejection : Option RejectionCode) : Moves c (c.completeLocked ref state rejection) := by
  obtain ⟨a, hk, hpd⟩ := ho
  exact completeLocked_moves hk (.inl ⟨hpd, hst⟩) rejection

lemma foldl_moves {α : Type} {step : Coordinator → α → Coordinator}
    (hf : ∀ c item, Frame c (step c item)) {items : List α}
    (hstep : ∀ c', Frame c c' → ∀ item ∈ items, Moves c' (step c' item)) :
    Moves c (items.foldl step c) := by
  induction items generalizing c with
  | nil => exact .refl
  | cons item items ih =>
    have hfirst := hstep c .refl item (List.mem_cons_self ..)
    refine hfirst.trans (ih fun c' hf' other hother => ?_)
    exact hstep c' ((hf c item).trans hf') other (List.mem_cons_of_mem _ hother)

lemma reconcileRemovedClaimsLocked_moves (hdir : Directory c) (key : OwnerKey)
    (effects : List RangeEffect) : Moves c (c.reconcileRemovedClaimsLocked key effects) := by
  unfold reconcileRemovedClaimsLocked
  split
  · exact .refl
  next s hs =>
  refine foldl_moves (settleRemoved_frame _ _ _) fun c' hf id _ => ?_
  obtain ⟨s', hs', halike⟩ := hf.session_forth hs
  unfold settleRemoved
  split
  · exact .refl
  next ref hl =>
  rw [← halike.actions] at hl
  obtain ⟨a, hk, -⟩ := (hdir.of_frame hf).retained hs' hl
  rw [hk.heap]
  simp only
  split
  · exact .refl
  next hgr =>
  split
  · exact .refl
  · rw [not_or, not_not, not_not] at hgr
    exact completeLocked_moves hk (.inr ⟨hgr.2, rfl⟩) _

lemma commitReleasePrefixLocked_moves (hdir : Directory c)
    (ho : Undecided c ref) (key : OwnerKey) (edit : EditResult) :
    Moves c (c.commitReleasePrefixLocked ref key edit) := by
  unfold commitReleasePrefixLocked
  split
  · exact .refl
  have hinstall := c.installRangesLocked_frame key edit.releaseRanges
  have hkeep := modifyRequest_frame (c.installRangesLocked key
    edit.releaseRanges) ref (Request.keepReleases edit) rfl
  refine (installRangesLocked_moves c key edit.releaseRanges).trans (.trans
    (modifyRequest_moves (ho.of_heap hinstall rfl) (Request.keepReleases edit) rfl) ?_)
  exact reconcileRemovedClaimsLocked_moves (hdir.of_frame (hinstall.trans hkeep)) key _

lemma commitEditLocked_moves (hdir : Directory c) (ho : Undecided c ref) (key : OwnerKey)
    (edit : EditResult) : Moves c (c.commitEditLocked ref key edit) := by
  unfold commitEditLocked
  split
  · have hinstall := c.installRangesLocked_frame key edit.ranges
    have hkeep := modifyRequest_frame (c.installRangesLocked key edit.ranges)
      ref (Request.keepEdit edit) rfl
    have hopen' := ho.of_heap hinstall rfl
    have hdecided : (if edit.acquired then AttemptState.granted else .released) =
        .granted ∨ (if edit.acquired then AttemptState.granted else .released) = .released := by
      cases edit.acquired <;> simp
    refine (installRangesLocked_moves c key edit.ranges).trans (.trans
      (modifyRequest_moves hopen' (Request.keepEdit edit) rfl) (.trans
        (decide_moves (hopen'.modifyRequest (Request.keepEdit edit) rfl)
          (hdecided.imp_right fun h => .inr (.inr h)) none) ?_))
    exact reconcileRemovedClaimsLocked_moves (hdir.of_frame
      ((hinstall.trans hkeep).trans (completeLocked_frame _ ref _ _))) key _
  · exact (commitReleasePrefixLocked_moves hdir ho key edit).trans
      (decide_moves (ho.commitReleasePrefixLocked key edit) (.inr (.inl rfl)) _)

lemma rejectAt_moves (ho : Undecided c ref) (failedAt : Option ℕ)
    (code : RejectionCode) : Moves c (c.rejectAt ref failedAt code) :=
  (modifyRequest_moves ho (Request.failAt failedAt) rfl).trans (decide_moves
      (ho.modifyRequest (Request.failAt failedAt) rfl) (.inr (.inl rfl)) _)

lemma enqueueLocked_moves (ho : Undecided c ref) (key : OwnerKey) :
    Moves c (c.enqueueLocked ref key) := by
  refine (modifyRequest_moves ho Request.await rfl).tail (.quiet ?_)
  exact { Unmoved.refl with
    sessions := fun _ => Table.map_get?_modify _ _ _ _ fun _ => rfl }

lemma awaitLocked_moves (ho : Undecided c ref) (action : Request)
    (failedAt : Option ℕ) : Moves c (c.awaitLocked ref action failedAt) := by
  unfold awaitLocked
  split
  · exact rejectAt_moves ho _ _
  split
  · split
    · exact rejectAt_moves ho _ _
    · exact rejectAt_moves ho _ _
    · exact enqueueLocked_moves ho _
  · exact enqueueLocked_moves ho _

lemma Starts.moves (hdir : Directory c) (ho : Undecided c ref)
    (hstarts : Starts c ref action first c') : Moves c c' := by
  cases hstarts with
  | oversize => exact decide_moves ho (.inr (.inl rfl)) _
  | dropped _ _ =>
    have hdropped := ho.modifyRequest (Request.keepDrops
      (dropEffects (c.heldRanges action.key))) rfl
    refine (modifyRequest_moves ho (Request.keepDrops (dropEffects (c.heldRanges action.key)))
      rfl).trans (.trans (replaceLocked_moves _ action.key []) ?_)
    refine modifyRequest_moves (hdropped.of_heap (replaceLocked_frame _ _ _) ?_) Request.convert rfl
    unfold replaceLocked
    split <;> rfl
  | committed _ _ => exact commitEditLocked_moves hdir ho _ _
  | refused _ _ _ _ =>
    have hopen' := ho.commitReleasePrefixLocked action.key
      (c.draftLocked action)
    refine (commitReleasePrefixLocked_moves hdir ho action.key (c.draftLocked action)).trans ?_
    exact (modifyRequest_moves hopen' (Request.observe _) rfl).trans (rejectAt_moves
        (hopen'.modifyRequest (Request.observe _) rfl) _ _)
  | waited _ _ _ _ _ _ =>
    exact (modifyRequest_moves ho (Request.observe _) rfl).trans (awaitLocked_moves
        (ho.modifyRequest (Request.observe _) rfl) _ _)

lemma startLocked_moves (hp : Poised c ref action) : Moves c (c.startLocked ref) := by
  obtain ⟨first, rest, c', -, hstarts, heq⟩ := hp.starts
  have hbegins := hp.begins
  have ho : Undecided c ref := ⟨_, hp.retained, hp.pending⟩
  have hlog : (c.ownerLocked action.key).log = c.log := by
    unfold ownerLocked
    split <;> rfl
  obtain ⟨a, ha, -⟩ := (c.ownerLocked_frame action.key).request_forth hp.retained.heap
  have hstart := (Move.start ha).moves
  rw [hlog] at hstart
  rw [heq]
  exact (ownerLocked_moves c action.key).trans (hstart.trans ((hstarts.moves
    (hp.directory.of_frame hbegins.frame)
    (ho.of_heap hbegins.frame hbegins.heap)).trans (pruneOwnerLocked_moves _ _)))

lemma retryLocked_moves (hp : Poised c ref action)
    (hwaits : action.pending = !action.converting) : Moves c (c.retryLocked ref action) := by
  have ho : Undecided c ref := ⟨_, hp.retained, hp.pending⟩
  rcases hp.retries hwaits with ⟨-, heq⟩ | ⟨-, -, hretries⟩
  · rw [heq]
    exact (modifyRequest_moves ho Request.resume rfl).trans (startLocked_moves hp.resume)
  revert hretries
  generalize c.retryLocked ref action = c'
  intro hretries
  cases hretries with
  | committed _ => exact commitEditLocked_moves hp.directory ho _ _
  | blocked _ _ _ => exact modifyRequest_moves ho (Request.observe _) rfl
  | exhausted _ _ _ _ => exact decide_moves ho (.inr (.inl rfl)) _

lemma dropLocked_moves (hdir : Directory c) (key : OwnerKey) : Moves c (c.dropLocked key) := by
  have hclear : Moves c (c.clearLocked key) := by
    unfold clearLocked
    split
    · exact .refl
    · exact replaceLocked_moves c key []
  unfold dropLocked
  refine hclear.trans (.trans ?_ (pruneOwnerLocked_moves _ _))
  refine foldl_moves (settleDropped_frame key) fun c' hf ref hm => ?_
  obtain ⟨a, hk⟩ : ∃ a, Retained c' ref a := by
    split at hm
    · cases hm
    next s hs =>
    obtain ⟨⟨id, _⟩, hentry, rfl⟩ := List.mem_map.mp hm
    obtain ⟨a, hk, -⟩ := hdir.retained hs
      (Table.mem_toList.mp hentry)
    obtain ⟨a', hkept'⟩ := hk.of_frame
      ((c.clearLocked_frame key).trans hf)
    exact ⟨a', hkept'⟩
  unfold settleDropped
  rw [hk.heap]
  simp only
  split
  · exact .refl
  split
  · next hpd =>
    exact completeLocked_moves hk (.inl ⟨hpd, .inr (.inr (.inl rfl))⟩) _
  split
  · next hgr =>
    exact completeLocked_moves hk (.inr ⟨hgr, rfl⟩) _
  · exact .refl

end

/-! ## Aging -/

variable (c)

lemma modifySession_unmoved (id : ℕ) (change : Session → Session)
    (hchange : ∀ s, (change s).memory = s.memory) : Unmoved c (c.modifySession id change) :=
  { Unmoved.refl with
    sessions := fun _ => Table.map_get?_modify _ _ _ _ hchange
    retired := fun _ => Table.map_get?_modify _ _ _ _ hchange }

lemma registration_unmoved (id : ℕ) (change : Session → Session) (count : ℤ)
    (hchange : ∀ s, (change s).memory = s.memory) :
    Unmoved c { c.modifySession id change with registeredOwners := count } :=
  have hsm := modifySession_unmoved c id change hchange
  ⟨rfl, rfl, rfl, hsm.sessions, hsm.retired, rfl, rfl, rfl⟩

lemma uses_unmoved (uses : Table UseScope UseRecord) : Unmoved c { c with uses := uses } :=
  ⟨rfl, rfl, rfl, fun _ => rfl, fun _ => rfl, rfl, rfl, rfl⟩

variable {c}

lemma Aging.moves (haging : Aging c c') : Moves c c' := by
  refine Relation.ReflTransGen.mono (fun _ _ hage => ?_) _ _ haging
  cases hage with
  | tick => exact .tick _
  | renew hs hpast hdue => exact .renew hs hpast hdue
  | prune session hpast => exact .prune session hpast

/-! ## Epochs after aging -/

lemma Timely.of_options (hti : Timely c) (hop : ∀ {id s'}, c'.session? id = some s' →
      ∃ s, c.session? id = some s ∧ s'.options = s.options) : Timely c' := by
  intro id s' hs'
  obtain ⟨s, hs, hsm⟩ := hop hs'
  rw [hsm]
  exact hti id s hs

lemma Timely.modifySession (hti : Timely c) (session : ℕ)
    (change : Session → Session) (hchange : ∀ s, (change s).options = s.options) :
    Timely (c.modifySession session change) := by
  refine hti.of_options fun {id s'} hs' => ?_
  rw [session?_modifySession] at hs'
  split at hs'
  · obtain ⟨s, hs, rfl⟩ := Option.map_eq_some_iff.mp hs'
    exact ⟨s, hs, hchange s⟩
  · exact ⟨s', hs', rfl⟩

lemma FileSessionOptions.history_pos {options : FileSessionOptions}
    (hop : options.check = .ok ()) : 0 < options.history := by
  unfold FileSessionOptions.check at hop
  rw [check_bind_ok, refuse_ok] at hop
  push Not at hop
  exact hop.1.2

lemma Timely.move (hti : Timely c) (hmove : Move c c') : Timely c' := by
  cases hmove with
  | quiet hsm =>
    refine hti.of_options fun {id s'} hs' => ?_
    have hmemory := session?_map Session.memory (hsm.sessions id)
      (hsm.retired id)
    rw [hs', Option.map_some] at hmemory
    obtain ⟨s, hs, heq⟩ := Option.map_eq_some_iff.mp hmemory.symm
    exact ⟨s, hs, (congrArg Memory.options heq).symm⟩
  | tick | touch | start | settle => exact hti
  | renew _ _ _ => exact hti.modifySession _ _ fun _ => rfl
  | prune session _ =>
    unfold pruneHistoryLocked
    split
    · exact hti
    · exact hti.modifySession session (Session.forget _) fun _ => rfl
  | enroll action _ _ _ _ _ _ _ _ =>
    exact hti.modifySession _ (Session.record action.id c.allocated) fun _ => rfl
  | @create options hop =>
    intro id s' hs'
    rw [session?_withSession] at hs'
    split at hs'
    · cases hs'
      exact FileSessionOptions.history_pos hop
    · exact hti id s' hs'
  | @dissolve session s hs =>
    intro id s' hs'
    rw [session?_dissolve] at hs'
    split at hs'
    · cases hs'
      exact hti session s (by simp [session?, hs])
    · exact hti id s' hs'

lemma timely_new {config : Config} {now : ℕ → Time}
    (hnew : new config now = .ok c) : Timely c := by
  obtain ⟨-, rfl⟩ := new_eq_ok hnew
  intro id s hs
  simp [session?, Coordinator.empty, Table.get?_empty] at hs

/-! ## Critical sections -/

section

variable {slip : Prop} {c : Coordinator}

lemma unboundBy_moves (hsound : Sound slip c) (session owner node : ℕ) :
    Moves c (c.unboundBy session owner node) := by
  have hdrops : Moves c ((ownerKeys session owner node).foldl dropLocked c) :=
    foldl_moves (fun c key => c.dropLocked_frame key) fun c' hf key _ =>
      dropLocked_moves (hsound.directory.of_frame hf) key
  exact hdrops.tail (.quiet (registration_unmoved _ session (Session.unbind owner) _ fun _ => rfl))

lemma Acts.moves (hacts : Acts slip c c') (hsound : Sound slip c)
    (hti : Timely c) : Moves c c' := by
  cases hacts with
  | aged haging => exact haging.moves
  | created hop => exact (Move.create hop).moves
  | bound node scope options _ _ =>
    exact (Move.quiet (registration_unmoved c _
      (Session.bind node scope options) _ fun _ => rfl)).moves
  | @started c₁ s key id epoch commands haging hadmits hclock _ =>
    obtain ⟨k, hread, hlive⟩ := hclock hti
    have hid := hadmits.current ▸ hadmits.admitted.epoch
    have henroll : Move c₁ (c₁.enrolledBy key id epoch commands) := .enroll (freshRequest key id
      epoch commands) hadmits.live hadmits.fresh hid hadmits.current hread hlive rfl rfl
    exact haging.moves.trans (henroll.moves.trans (.tail
      (startLocked_moves hadmits.enrolled.1) (.tick _)))
  | @retried ref a hp =>
    exact retryLocked_moves hp ((hsound.shaped ref a
      hp.retained.heap).pending_body hp.pending).2
  | cancelled haging hk hst haging' =>
    exact haging.moves.trans ((decide_moves ⟨_, hk, hst⟩
      (.inr (.inr (.inl rfl))) none).trans haging'.moves)
  | dropped _ => exact dropLocked_moves hsound.directory _
  | unbound _ _ hretire =>
    rw [hretire]
    exact unboundBy_moves hsound _ _ _
  | marked session change hchange =>
    refine (Move.quiet (modifySession_unmoved c session change ?_)).moves
    rcases hchange with rfl | rfl
    · exact fun _ => rfl
    · exact fun _ => rfl
  | dissolved hs => exact (Move.dissolve hs).moves
  | used _ _ => exact (Move.quiet (uses_unmoved c _)).moves

lemma exec_moves (hsound : Sound True c) (hti : Timely c)
    (step : Section) : Moves c (c.exec step) :=
  (exec_acts hsound step fun _ => trivial).moves hsound hti

end

end RemoteFs.Advisory
