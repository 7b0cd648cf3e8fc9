import RemoteFs.Advisory.Run

/-!
# What editing leaves alone

The functions that draft, commit, complete and drop requests change owner
states, the waiting list, range and waiter counters, and the mutable fields of
requests.  They never touch session identities, bindings, epochs or retained
histories.  `Frame` says so once for all of them.
-/

namespace RemoteFs.Advisory

open Storage

variable {id : ℕ} {s s' : Session}

/-- A session without the counters that editing maintains. -/
def Session.blank (s : Session) : Session :=
  { s with ranges := 0, pending := 0 }

/-- Sessions that differ at most in the counters that editing maintains. -/
structure Session.Alike (s s' : Session) : Prop where
  id : s'.id = s.id
  options : s'.options = s.options
  actions : s'.actions = s.actions
  bindings : s'.bindings = s.bindings
  nextOwner : s'.nextOwner = s.nextOwner
  owners : s'.owners = s.owners
  retiring : s'.retiring = s.retiring
  retired : s'.retired = s.retired

lemma Session.alike_of_blank (h : s'.blank = s.blank) : s.Alike s' := by
  have hfi : ∀ {α : Type} (field : Session → α),
      field s'.blank = field s.blank := fun field => congrArg field h
  exact ⟨hfi Session.id, hfi Session.options, hfi Session.actions,
    hfi Session.bindings, hfi Session.nextOwner, hfi Session.owners,
    hfi Session.retiring, hfi Session.retired⟩

/-- The fields of a request that never change. -/
structure Identity where
  key : OwnerKey
  id : LockRequestID
  epoch : ℕ
  commands : List RangeCommand

def Request.identity (action : Request) : Identity :=
  ⟨action.key, action.id, action.epoch, action.commands⟩

structure Frame (c c' : Coordinator) : Prop where
  config : c'.config = c.config
  now : c'.now = c.now
  reads : c.reads ≤ c'.reads
  nextSession : c'.nextSession = c.nextSession
  sessions : ∀ id, (c'.sessions.get? id).map Session.blank =
    (c.sessions.get? id).map Session.blank
  retired : c'.retired = c.retired
  heap : ∀ ref, (c'.heap ref).map Request.identity = (c.heap ref).map Request.identity
  allocated : c'.allocated = c.allocated
  requests : c'.requests = c.requests
  registeredOwners : c'.registeredOwners = c.registeredOwners
  uses : c'.uses = c.uses

namespace Frame

variable {c c' c'' : Coordinator}

lemma refl : Frame c c :=
  ⟨rfl, rfl, le_rfl, rfl, fun _ => rfl, rfl, fun _ => rfl, rfl, rfl, rfl, rfl⟩

section

variable (h : Frame c c')
include h

lemma trans (h' : Frame c' c'') : Frame c c'' where
  config := h'.config.trans h.config
  now := h'.now.trans h.now
  reads := h.reads.trans h'.reads
  nextSession := h'.nextSession.trans h.nextSession
  sessions := fun id => (h'.sessions id).trans (h.sessions id)
  retired := h'.retired.trans h.retired
  heap := fun ref => (h'.heap ref).trans (h.heap ref)
  allocated := h'.allocated.trans h.allocated
  requests := h'.requests.trans h.requests
  registeredOwners := h'.registeredOwners.trans h.registeredOwners
  uses := h'.uses.trans h.uses

lemma session_back (hg : c'.sessions.get? id = some s') :
    ∃ s, c.sessions.get? id = some s ∧ s.Alike s' := by
  obtain ⟨s, hs, hblank⟩ := of_map_eq (h.sessions id) hg
  exact ⟨s, hs, Session.alike_of_blank hblank.symm⟩

lemma session_forth (hg : c.sessions.get? id = some s) :
    ∃ s', c'.sessions.get? id = some s' ∧ s.Alike s' := by
  obtain ⟨s', hs', hblank⟩ := of_map_eq (h.sessions id).symm hg
  exact ⟨s', hs', Session.alike_of_blank hblank⟩

variable {ref : RequestRef}

lemma request_back (hg : c'.heap ref = some a') :
    ∃ a, c.heap ref = some a ∧ a.identity = a'.identity := by
  exact of_map_eq (h.heap ref) hg

lemma request_forth (hg : c.heap ref = some a) :
    ∃ a', c'.heap ref = some a' ∧ a'.identity = a.identity := by
  exact of_map_eq (h.heap ref).symm hg

end

end Frame

/-- What a heap holds after a request has been written. -/
lemma heap_cases {heap heap' : RequestRef → Option Request}
    (hheap : heap' = Function.update heap ref (some a)) (hg : heap' other = some b) :
    other = ref ∧ a = b ∨ other ≠ ref ∧ heap other = some b := by
  subst hheap
  by_cases heq : other = ref
  · subst heq
    rw [Function.update_self, Option.some.injEq] at hg
    exact .inl ⟨rfl, hg⟩
  · exact .inr ⟨heq, (Function.update_of_ne heq ..).symm.trans hg⟩

/-- What of a request stays until it is decided. -/
def Request.fixed (a : Request) : Identity × Time × AttemptState × Bool :=
  (a.identity, a.expires, a.result.state, a.result.everGranted)

/-- A change that does not decide. -/
def Request.Keeps (change : Request → Request) : Prop :=
  Request.fixed ∘ change = Request.fixed

namespace Request.Keeps

variable {change : Request → Request} (hkeeps : Keeps change)
include hkeeps

lemma identity : Request.identity ∘ change = Request.identity :=
  funext fun a => congrArg Prod.fst (congrFun hkeeps a)

lemma state (a : Request) : (change a).result.state = a.result.state :=
  congrArg (·.2.2.1) (congrFun hkeeps a)

end Request.Keeps

namespace Coordinator

variable (c : Coordinator) (ref : RequestRef) (key : OwnerKey)

lemma ticked_frame : Frame c c.ticked :=
  { Frame.refl with reads := Nat.le_succ _ }

lemma modifyRequest_frame (change : Request → Request)
    (hsm : Request.identity ∘ change = Request.identity) :
    Frame c (c.modifyRequest ref change) := by
  refine { Frame.refl with heap := fun other => ?_ }
  by_cases heq : other = ref
  · subst heq
    simp only [modifyRequest, Function.update_self, Option.map_map, hsm]
  · simp only [modifyRequest, Function.update_of_ne heq]

lemma ownerLocked_frame : Frame c (c.ownerLocked key) := by
  unfold ownerLocked
  cases c.owners.get? key with
  | none => exact { Frame.refl with }
  | some o => exact .refl

lemma pruneOwnerLocked_frame : Frame c (c.pruneOwnerLocked key) := by
  unfold pruneOwnerLocked
  cases c.owners.get? key with
  | none => exact .refl
  | some o =>
    simp only
    split
    · exact ⟨rfl, rfl, le_rfl, rfl, fun _ => rfl, rfl, fun _ => rfl, rfl, rfl, rfl, rfl⟩
    · exact .refl

lemma installRangesLocked_frame
    (ranges : List RangeClaim) : Frame c (c.installRangesLocked key ranges) :=
  { Frame.refl with
    sessions := fun _ => Table.map_get?_modify _ _ _ _ fun _ => rfl }

lemma replaceLocked_frame (ranges : List RangeClaim) : Frame c (c.replaceLocked key ranges) := by
  unfold replaceLocked
  split
  · exact c.installRangesLocked_frame key ranges
  · exact .refl

lemma withdrawLocked_frame : Frame c (c.withdrawLocked ref key) :=
  { Frame.refl with
    sessions := fun _ => Table.map_get?_modify _ _ _ _ fun _ => rfl }

lemma settleLocked_frame (action : Request) (state : AttemptState)
    (rejection : Option RejectionCode) : Frame c (c.settleLocked ref action state rejection) :=
  { c.ticked_frame.trans (c.ticked.modifyRequest_frame ref
      (fun a => a.completed state rejection (c.time + c.historyOf action.key.session)) rfl) with }

lemma completeLocked_frame (state : AttemptState) (rejection : Option RejectionCode) :
    Frame c (c.completeLocked ref state rejection) := by
  unfold completeLocked
  cases c.heap ref with
  | none => exact .refl
  | some action =>
    have hse := c.settleLocked_frame ref action state rejection
    simp only
    split
    · exact (hse.trans (withdrawLocked_frame _ ref action.key)).trans
        (pruneOwnerLocked_frame _ action.key)
    · exact hse

lemma foldl_frame {α : Type} {step : Coordinator → α → Coordinator}
    (hstep : ∀ c a, Frame c (step c a)) (items : List α) (c : Coordinator) :
    Frame c (items.foldl step c) := by
  induction items generalizing c with
  | nil => exact .refl
  | cons item items ih => exact (hstep c item).trans (ih (step c item))

lemma settleRemoved_frame (actions : Table LockRequestID RequestRef)
    (key : OwnerKey) (live : List ClaimID) (c : Coordinator)
    (id : LockRequestID) : Frame c (settleRemoved actions key live c id) := by
  unfold settleRemoved
  split
  · exact .refl
  split
  · exact .refl
  split
  · exact .refl
  split
  · exact .refl
  · exact c.completeLocked_frame _ _ _

lemma reconcileRemovedClaimsLocked_frame (effects : List RangeEffect) :
    Frame c (c.reconcileRemovedClaimsLocked key effects) := by
  unfold reconcileRemovedClaimsLocked
  cases c.sessions.get? key.session with
  | none => exact .refl
  | some s => exact foldl_frame (settleRemoved_frame _ _ _) _ c

lemma commitReleasePrefixLocked_frame (edit : EditResult) :
    Frame c (c.commitReleasePrefixLocked ref key edit) := by
  unfold commitReleasePrefixLocked
  split
  · exact .refl
  · exact ((c.installRangesLocked_frame key _).trans (modifyRequest_frame _ ref
      (Request.keepReleases edit) rfl)).trans (reconcileRemovedClaimsLocked_frame _ key _)

lemma commitEditLocked_frame (edit : EditResult) : Frame c (c.commitEditLocked ref key edit) := by
  unfold commitEditLocked
  split
  · exact (((c.installRangesLocked_frame key _).trans (modifyRequest_frame _ ref
      (Request.keepEdit edit) rfl)).trans (completeLocked_frame _ ref _ _)).trans
      (reconcileRemovedClaimsLocked_frame _ key _)
  · exact (c.commitReleasePrefixLocked_frame ref key edit).trans (completeLocked_frame _ ref _ _)

lemma rejectAt_frame (failedAt : Option ℕ) (code : RejectionCode) :
    Frame c (c.rejectAt ref failedAt code) :=
  (c.modifyRequest_frame ref (Request.failAt failedAt) rfl).trans (completeLocked_frame _ ref _ _)

lemma enqueueLocked_frame : Frame c (c.enqueueLocked ref key) :=
  { c.modifyRequest_frame ref Request.await rfl with
    sessions := fun _ => Table.map_get?_modify _ _ _ _ fun _ => rfl }

lemma awaitLocked_frame (action : Request) (failedAt : Option ℕ) :
    Frame c (c.awaitLocked ref action failedAt) := by
  unfold awaitLocked
  split
  · exact c.rejectAt_frame ref _ _
  split
  · split
    · exact c.rejectAt_frame ref _ _
    · exact c.rejectAt_frame ref _ _
    · exact c.enqueueLocked_frame ref _
  · exact c.enqueueLocked_frame ref _

lemma startOwned_frame (action : Request) (first : RangeCommand) :
    Frame c (c.startOwned ref action first) := by
  unfold startOwned
  simp only
  split
  · exact c.completeLocked_frame ref _ _
  split
  · exact ((c.modifyRequest_frame ref (Request.keepDrops _) rfl).trans
      (replaceLocked_frame _ _ _)).trans (modifyRequest_frame _ ref Request.convert rfl)
  split
  · exact c.commitEditLocked_frame ref _ _
  have hprefix := (c.commitReleasePrefixLocked_frame ref action.key (c.draftLocked action)).trans
    (modifyRequest_frame _ ref (Request.observe (c.draftLocked action).conflict) rfl)
  split
  · exact hprefix.trans (rejectAt_frame _ ref _ _)
  · exact hprefix.trans (awaitLocked_frame _ ref _ _)

lemma startLocked_frame : Frame c (c.startLocked ref) := by
  unfold startLocked
  cases c.heap ref with
  | none => exact .refl
  | some action =>
    cases hcmds : action.commands with
    | nil => simpa only [hcmds] using Frame.refl
    | cons first rest =>
      simp only [hcmds]
      apply Frame.trans _ (pruneOwnerLocked_frame _ _)
      apply Frame.trans _ (startOwned_frame _ ref _ _)
      exact { c.ownerLocked_frame action.key with }

lemma retryLocked_frame (action : Request) : Frame c (c.retryLocked ref action) := by
  unfold retryLocked
  split
  · exact (c.modifyRequest_frame ref Request.resume rfl).trans (startLocked_frame _ ref)
  split
  · exact c.commitEditLocked_frame ref _ _
  · exact c.modifyRequest_frame ref (Request.observe _) rfl
  · exact c.completeLocked_frame ref _ _

lemma settleDropped_frame (c : Coordinator)
    (ref : RequestRef) : Frame c (settleDropped key c ref) := by
  unfold settleDropped
  split
  · exact .refl
  split
  · exact .refl
  split
  · exact c.completeLocked_frame ref _ _
  split
  · exact c.completeLocked_frame ref _ _
  · exact .refl

lemma clearLocked_frame : Frame c (c.clearLocked key) := by
  unfold clearLocked
  cases c.owners.get? key with
  | none => exact .refl
  | some o => exact c.replaceLocked_frame key []

lemma dropLocked_frame : Frame c (c.dropLocked key) := by
  unfold dropLocked
  apply Frame.trans _ (pruneOwnerLocked_frame _ key)
  apply Frame.trans _ (foldl_frame (settleDropped_frame key) _ _)
  exact c.clearLocked_frame key

end Coordinator

/-! ## Session records -/

lemma session?_map {c c' : Coordinator} {β : Type} (field : Session → β)
    (hlive : (c'.sessions.get? id).map field = (c.sessions.get? id).map field)
    (hgone : (c'.retired.get? id).map field = (c.retired.get? id).map field) :
    (c'.session? id).map field = (c.session? id).map field := by
  unfold Coordinator.session?
  cases hs : c.sessions.get? id with
  | some s =>
    rw [hs] at hlive
    obtain ⟨s', hs', -⟩ := Option.map_eq_some_iff.mp hlive
    rw [hs'] at hlive ⊢
    exact hlive
  | none =>
    rw [hs, Option.map_none] at hlive
    rwa [Option.map_eq_none_iff.mp hlive]

lemma session?_modifySession (c : Coordinator) (id other : ℕ) (change : Session → Session) :
    (c.modifySession id change).session? other =
      if other = id then (c.session? other).map change
      else c.session? other := by
  unfold Coordinator.session? Coordinator.modifySession
  simp only [Table.get?_modify]
  by_cases heq : other = id
  · subst heq
    simp only [if_true]
    cases c.sessions.get? other with
    | none | some => rfl
  · simp only [if_neg heq]

lemma session?_dissolve (c : Coordinator) (session : ℕ) (s : Session) (other : ℕ) :
    (c.dissolve session s).session? other =
      if other = session then some s.cleared else c.session? other := by
  unfold Coordinator.session? Coordinator.dissolve
  simp only [Table.get?_erase, Table.get?_set]
  by_cases heq : other = session
  · simp only [if_pos heq]
  · simp only [if_neg heq]

lemma Frame.session?_forth {c c' : Coordinator} (hf : Frame c c')
    (hs : c.session? id = some s) : ∃ s', c'.session? id = some s' ∧ s.Alike s' := by
  have hsm := session?_map Session.blank (hf.sessions id)
    (congrArg (fun table => (Table.get? table id).map Session.blank) hf.retired)
  rw [hs, Option.map_some] at hsm
  obtain ⟨s', hs', hblank⟩ := Option.map_eq_some_iff.mp hsm
  exact ⟨s', hs', Session.alike_of_blank hblank⟩

/-! ## Aging -/

/-- A session without its epoch and its history. -/
def Session.ageless (s : Session) : Session :=
  { s with epoch := 0, epochUntil := 0, actions := .empty }

/-- The same session with a later epoch or a shorter history. -/
structure Session.Older (s s' : Session) : Prop where
  id : s'.id = s.id
  bindings : s'.bindings = s.bindings
  retiring : s'.retiring = s.retiring
  retired : s'.retired = s.retired

lemma Session.older_of_ageless (h : s'.ageless = s.ageless) : s.Older s' := by
  have hfi : ∀ {α : Type} (field : Session → α),
      field s'.ageless = field s.ageless := fun field => congrArg field h
  exact ⟨hfi Session.id, hfi Session.bindings, hfi Session.retiring,
    hfi Session.retired⟩

/-- Only the clock, epochs and the log have moved, and histories may have been
pruned. -/
structure Ages (c c' : Coordinator) : Prop where
  config : c'.config = c.config
  now : c'.now = c.now
  reads : c.reads ≤ c'.reads
  nextSession : c'.nextSession = c.nextSession
  sessions : ∀ id, (c'.sessions.get? id).map Session.ageless =
    (c.sessions.get? id).map Session.ageless
  retired : ∀ id, (c'.retired.get? id).map Session.ageless =
    (c.retired.get? id).map Session.ageless
  actions : ∀ {id s'}, c'.sessions.get? id = some s' → ∃ s, c.sessions.get? id = some s ∧
      ∀ {request ref}, s'.actions.get? request = some ref → s.actions.get? request = some ref
  owners : c'.owners = c.owners
  heap : c'.heap = c.heap
  allocated : c'.allocated = c.allocated
  waiting : c'.waiting = c.waiting
  ranges : c'.ranges = c.ranges
  registeredOwners : c'.registeredOwners = c.registeredOwners
  uses : c'.uses = c.uses

namespace Ages

variable {c c' c'' : Coordinator}

lemma refl : Ages c c :=
  ⟨rfl, rfl, le_rfl, rfl, fun _ => rfl, fun _ => rfl,
    fun h => ⟨_, h, fun h => h⟩, rfl, rfl, rfl, rfl, rfl, rfl, rfl⟩

lemma trans (h : Ages c c') (h' : Ages c' c'') : Ages c c'' where
  config := h'.config.trans h.config
  now := h'.now.trans h.now
  reads := h.reads.trans h'.reads
  nextSession := h'.nextSession.trans h.nextSession
  sessions := fun id => (h'.sessions id).trans (h.sessions id)
  retired := fun id => (h'.retired id).trans (h.retired id)
  actions := by
    intro id s'' hg
    obtain ⟨s', hs', hsubset'⟩ := h'.actions hg
    obtain ⟨s, hs, hsubset⟩ := h.actions hs'
    exact ⟨s, hs, fun ha => hsubset (hsubset' ha)⟩
  owners := h'.owners.trans h.owners
  heap := h'.heap.trans h.heap
  allocated := h'.allocated.trans h.allocated
  waiting := h'.waiting.trans h.waiting
  ranges := h'.ranges.trans h.ranges
  registeredOwners := h'.registeredOwners.trans h.registeredOwners
  uses := h'.uses.trans h.uses

lemma session_forth (h : Ages c c') (hg : c.sessions.get? id = some s) :
    ∃ s', c'.sessions.get? id = some s' ∧ s.Older s' := by
  obtain ⟨s', hs', hageless⟩ := of_map_eq (h.sessions id).symm hg
  exact ⟨s', hs', Session.older_of_ageless hageless⟩

lemma session_back (h : Ages c c') (hg : c'.sessions.get? id = some s') :
    ∃ s, c.sessions.get? id = some s ∧ s.Older s' := by
  obtain ⟨s, hs, hageless⟩ := of_map_eq (h.sessions id) hg
  exact ⟨s, hs, Session.older_of_ageless hageless.symm⟩

lemma map_sessions (h : Ages c c') {β : Type} (field : Session → β)
    (hfi : ∀ s, field s.ageless = field s) (id : ℕ) :
    (c'.sessions.get? id).map field = (c.sessions.get? id).map field := by
  have hsm := congrArg (Option.map field) (h.sessions id)
  simpa only [Option.map_map, Function.comp_def, hfi] using hsm

end Ages

namespace Coordinator

variable (c : Coordinator)

lemma ticked_ages : Ages c c.ticked :=
  { Ages.refl with reads := Nat.le_succ _ }

lemma modifySession_ages (id : ℕ) (change : Session → Session)
    (hchange : ∀ s, (change s).ageless = s.ageless) (ha : ∀ s {request ref},
      (change s).actions.get? request = some ref → s.actions.get? request = some ref) :
    Ages c (c.modifySession id change) :=
  { Ages.refl with
    sessions := fun _ => Table.map_get?_modify _ _ _ _ hchange
    retired := fun _ => Table.map_get?_modify _ _ _ _ hchange
    actions := by
      intro other s' hg
      obtain ⟨s, hs, rfl⟩ := Table.of_get?_modify hg
      refine ⟨s, hs, fun {request ref} hfd => ?_⟩
      split at hfd
      · exact ha s hfd
      · exact hfd }

lemma pruneHistoryLocked_ages (session : ℕ)
    (now : Time) : Ages c (c.pruneHistoryLocked session now) := by
  unfold pruneHistoryLocked
  split
  · exact .refl
  · exact { c.modifySession_ages session
      (Session.forget fun s => c.prunable s now) (fun _ => rfl)
      fun s _ _ hfd => (Table.get?_filter_iff.mp hfd).1 with }

end Coordinator

/-- One step of aging: the clock is read, an epoch that is over is renewed, or a
history forgets what it need not keep. -/
inductive Age : Coordinator → Coordinator → Prop
  | tick (c : Coordinator) : Age c c.ticked
  | renew {c : Coordinator} {session k : ℕ} {s : Session}
      (hs : c.session? session = some s) (hpast : k < c.reads)
      (hdue : s.epochUntil ≤ c.now k) :
      Age c (c.modifySession session (Session.renew (c.now k)))
  | prune {c : Coordinator} {k : ℕ} (session : ℕ) (hpast : k < c.reads) :
      Age c (c.pruneHistoryLocked session (c.now k))

abbrev Aging : Coordinator → Coordinator → Prop :=
  Relation.ReflTransGen Age

section Aging

variable {c c' : Coordinator} {k : ℕ}

lemma Age.ages (hage : Age c c') : Ages c c' := by
  cases hage with
  | tick => exact c.ticked_ages
  | renew _ _ _ => exact c.modifySession_ages _ _ (fun _ => rfl) fun _ _ _ hfd => hfd
  | prune session _ => exact c.pruneHistoryLocked_ages session _

lemma Aging.ages (haging : Aging c c') : Ages c c' := by
  induction haging with
  | refl => exact .refl
  | tail _ hage ih => exact ih.trans hage.ages

namespace Coordinator

variable (c) (session : ℕ)

lemma advanceLocked_aging (hpast : k < c.reads) :
    Aging c (c.advanceLocked session (c.now k)).state := by
  unfold advanceLocked
  split
  · exact .refl
  next s hs =>
  split
  · next hdue =>
    split
    · exact .refl
    · have hrenew : Aging c _ := .single (.renew hs hpast hdue)
      exact hrenew.tail (.prune session hpast)
  · exact .single (.prune session hpast)

/-- The advance of a history with which most sections begin. -/
lemma advanced_aging : Aging c (c.ticked.advanceLocked session c.time).state :=
  .trans (.single (.tick c)) (c.ticked.advanceLocked_aging session (Nat.lt_succ_self c.reads))

lemma pruneAtLimit_aging (hpast : k < c.reads) : Aging c (c.pruneAtLimit (c.now k)) := by
  unfold pruneAtLimit
  split
  · refine List.foldlRecOn (motive := Aging c) _ _ .refl
      fun c' haging entry _ => ?_
    have hprune := Age.prune (c := c') entry.1
      (hpast.trans_le haging.ages.reads)
    rw [haging.ages.now] at hprune
    exact haging.tail hprune
  · exact .refl

lemma readReceipt_aging (ref : RequestRef) : Aging c (c.readReceipt session ref).state := by
  unfold readReceipt
  split
  · exact .single (.tick c)
  · exact .refl

end Coordinator

end Aging

/-! ## Epochs after aging -/

/-- Every session has a positive history interval. -/
def Timely (c : Coordinator) : Prop :=
  ∀ id s, c.session? id = some s → 0 < s.options.history

section Epochs

open Coordinator

variable (c : Coordinator)

lemma pruneHistoryLocked_epochs (session other : ℕ) (now : Time) :
    ((c.pruneHistoryLocked session now).session? other).map (fun s => (s.epoch, s.epochUntil)) =
      (c.session? other).map fun s => (s.epoch, s.epochUntil) := by
  unfold pruneHistoryLocked
  split
  · rfl
  change ((c.modifySession session
    (Session.forget fun s => c.prunable s now)).session? other).map _ = _
  rw [session?_modifySession]
  split
  · rw [Option.map_map]
    rfl
  · rfl

lemma pruneAtLimit_epochs (other : ℕ) (now : Time) :
    ((c.pruneAtLimit now).session? other).map (fun s => (s.epoch, s.epochUntil)) =
      (c.session? other).map fun s => (s.epoch, s.epochUntil) := by
  unfold pruneAtLimit
  split
  · exact List.foldlRecOn (motive := fun c' : Coordinator =>
      (c'.session? other).map (fun s => (s.epoch, s.epochUntil)) =
        (c.session? other).map fun s => (s.epoch, s.epochUntil)) _ _ rfl
      fun c' hfold entry _ => (pruneHistoryLocked_epochs c' entry.1 other now).trans hfold
  · rfl

lemma pruneAtLimit_reads (now : Time) : (c.pruneAtLimit now).reads = c.reads := by
  unfold pruneAtLimit
  split
  · refine List.foldlRecOn (motive := fun c' : Coordinator => c'.reads = c.reads) _ _ rfl
      fun c' hfold entry _ => ?_
    rw [← hfold]
    unfold pruneHistoryLocked
    split <;> rfl
  · rfl

lemma advanceLocked_reads (session : ℕ) (now : Time) :
    (c.advanceLocked session now).state.reads = c.reads := by
  have hpruned : ∀ d : Coordinator, (d.pruneHistoryLocked session now).reads = d.reads := by
    intro d
    unfold pruneHistoryLocked
    split <;> rfl
  unfold advanceLocked
  split
  · rfl
  split
  · split
    · rfl
    · exact hpruned _
  · exact hpruned c

variable {c}

lemma advanceLocked_live (htimely : Timely c) {session : ℕ} {now : Time}
    {s : Session} (hok : (c.advanceLocked session now).result = .ok ())
    (hs : (c.advanceLocked session now).state.session? session = some s) :
    now < s.epochUntil := by
  have hpruned : ∀ (d : Coordinator) (s₀ : Session),
      d.session? session = some s₀ → now < s₀.epochUntil →
      (d.pruneHistoryLocked session now).session? session = some s →
      now < s.epochUntil := by
    intro d s₀ hs₀ hlive hg
    have hsm := pruneHistoryLocked_epochs d session session now
    rw [hg, hs₀, Option.map_some, Option.map_some, Option.some.injEq, Prod.mk.injEq] at hsm
    rwa [hsm.2]
  unfold advanceLocked at hok hs
  split at hs
  · next hnone =>
    cases hnone.symm.trans hs
  next s₀ hs₀ =>
  simp only [hs₀] at hok
  split at hs
  · next hdue =>
    split at hs
    · next hlast =>
      rw [if_pos hdue, if_pos hlast] at hok
      cases hok
    refine hpruned _ (s₀.renew now) ?_ ?_ hs
    · rw [session?_modifySession, if_pos rfl, hs₀]
      rfl
    · exact lt_add_of_pos_right now (htimely session s₀ hs₀)
  · next hdue => exact hpruned c s₀ hs₀ (not_le.mp hdue) hs

end Epochs

end RemoteFs.Advisory
