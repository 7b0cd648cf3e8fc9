import RemoteFs.Advisory.Ledger

/-!
# Editing keeps the books

Every function that commits, rejects, queues, retries or drops requests maps a
correct ledger to a correct ledger.  Each proof follows the function: a commit
installs ranges that the draft has cleared, completes its request, and settles
the requests whose claims it removed.
-/

namespace RemoteFs.Advisory

open Storage Coordinator

variable {ref : RequestRef} {a action : Request} {state : OwnerState}
  {edit : EditResult} {key : OwnerKey} {c : Coordinator} {first : RangeCommand}

namespace Ledger

variable {slack : Set OwnerKey} {c : Coordinator}

/-! ## Completions in a loop -/

/-- A ledger together with the session whose history a loop walks through. -/
structure Walk (slack : Set OwnerKey) (session : ℕ)
    (actions : Table LockRequestID RequestRef) (c : Coordinator) : Prop where
  directory : Directory c
  ledger : Ledger slack c
  listed : ∃ s, c.sessions.get? session = some s ∧ s.actions = actions

variable {actions : Table LockRequestID RequestRef}

lemma Walk.completeLocked {session : ℕ} (hwa : Walk slack session actions c)
    {id : LockRequestID} (hac : actions.get? id = some ref) (state : AttemptState)
    (rejection : Option RejectionCode) :
    Walk slack session actions (c.completeLocked ref state rejection) := by
  obtain ⟨s, hs, rfl⟩ := hwa.listed
  obtain ⟨a, hk, -⟩ := hwa.directory.retained hs hac
  have hf := c.completeLocked_frame ref state rejection
  obtain ⟨s', hs', halike⟩ := hf.session_forth hs
  exact ⟨hwa.directory.of_frame hf, hwa.ledger.completeLocked hk state rejection,
    s', hs', halike.actions⟩

lemma settleRemoved (hwa : Walk slack key.session actions c) (id : LockRequestID) :
    Walk slack key.session actions (settleRemoved actions key live c id) := by
  unfold Coordinator.settleRemoved
  cases hac : actions.get? id with
  | none => exact hwa
  | some ref =>
    simp only
    split
    · exact hwa
    split
    · exact hwa
    split
    · exact hwa
    · exact hwa.completeLocked hac _ _

lemma reconcileRemovedClaimsLocked (hdir : Directory c)
    (hl : Ledger slack c) (key : OwnerKey) (effects : List RangeEffect) :
    Ledger slack (c.reconcileRemovedClaimsLocked key effects) := by
  unfold Coordinator.reconcileRemovedClaimsLocked
  cases hs : c.sessions.get? key.session with
  | none => exact hl
  | some s =>
    have hwa : Walk slack key.session s.actions c := ⟨hdir, hl, s, hs, rfl⟩
    exact (List.foldlRecOn (removedRequests effects) _ hwa
      fun _ hstep id _ => settleRemoved hstep id).ledger

/-! ## Commits -/

/-- The live ranges of an owner are a source of unopposed claims. -/
lemma live_source (hl : Ledger slack c) (hg : c.owners.get? key = some state) :
    ∀ x ∈ (c.heldRanges key).map RangeClaim.command,
      Comparable key.domain x ∧ Free c.owners key x := by
  intro x hx
  obtain ⟨claim, hc, rfl⟩ := List.mem_map.mp hx
  rw [heldRanges_eq hg] at hc
  exact ⟨(hl.exclusion.held hg claim hc).comparable,
    hl.exclusion.free hg claim hc⟩

variable {done : List RangeCommand}

lemma releaseRanges_free (hl : Ledger slack c)
    (hg : c.owners.get? action.key = some state) (hreleases : Releases c action done edit) :
    ∀ claim ∈ edit.releaseRanges, claim.Held action.key.domain ∧
        Free c.owners action.key claim.command := by
  intro claim hc
  obtain ⟨hheld, hwithin⟩ := hreleases.ranges claim hc
  exact ⟨hheld, Free.of_within hl.exclusion (hl.live_source hg)
    hheld.comparable hwithin⟩

lemma drafted_free (hl : Ledger slack c) (hg : c.owners.get? action.key = some state)
    (hadm : action.identity.Admitted) (hd : Drafted c action action.commands edit) :
    ∀ claim ∈ edit.ranges, claim.Held action.key.domain ∧
        Free c.owners action.key claim.command := by
  intro claim hc
  obtain ⟨hheld, hwithin⟩ := hd.ranges claim hc
  refine ⟨hheld, Free.of_within hl.exclusion ?_ hheld.comparable hwithin⟩
  intro x hx
  rcases List.mem_append.mp hx with hlive | hnew
  · exact hl.live_source hg x hlive
  · obtain ⟨hm, hacq⟩ := List.mem_filter.mp hnew
    exact ⟨hadm.comparable hm, hd.free x hm hacq⟩

lemma commitReleasePrefixLocked (hdir : Directory c) (hl : Ledger slack c) (ref : RequestRef)
    (hg : c.owners.get? action.key = some state) (hslack : action.key ∈ slack)
    (hreleases : Releases c action done edit) :
    Ledger slack (c.commitReleasePrefixLocked ref action.key edit) := by
  unfold Coordinator.commitReleasePrefixLocked
  split
  · exact hl
  have hinstalled := hl.installRangesLocked hg
    (hl.releaseRanges_free hg hreleases) hreleases.fits (.inl hslack)
  have hf := (c.installRangesLocked_frame action.key
    edit.releaseRanges).trans (modifyRequest_frame _ ref (Request.keepReleases edit) rfl)
  apply reconcileRemovedClaimsLocked (hdir.of_frame hf)
  exact hinstalled.modifyRequest ref (Request.keepReleases edit) rfl rfl

lemma commitEditLocked (hdir : Directory c) (hl : Ledger slack c)
    (hk : Retained c ref action) (hg : c.owners.get? action.key = some state)
    (hkeep : action.key ∈ slack ∨ 0 < state.pending)
    (hd : Drafted c action action.commands edit) :
    Ledger slack (c.commitEditLocked ref action.key edit) := by
  unfold Coordinator.commitEditLocked
  rw [if_pos hd.fits]
  have hadm := hdir.admitted hk.heap
  have hinstalled := hl.installRangesLocked hg (hl.drafted_free hg hadm hd)
    hd.fits (hkeep.imp_right .inr)
  have hmodified := hinstalled.modifyRequest ref (Request.keepEdit edit) rfl rfl
  have hf := (c.installRangesLocked_frame action.key
    edit.ranges).trans (modifyRequest_frame _ ref (Request.keepEdit edit) rfl)
  obtain ⟨a, ha⟩ := hk.of_frame hf
  have hcompleted := hmodified.completeLocked ha
    (if edit.acquired then .granted else .released) none
  exact reconcileRemovedClaimsLocked (hdir.of_frame (hf.trans (completeLocked_frame _ ref _ _)))
    hcompleted action.key edit.effects

lemma rejectAt (hl : Ledger slack c) (hk : Retained c ref a) (failedAt : Option ℕ)
    (code : RejectionCode) : Ledger slack (c.rejectAt ref failedAt code) := by
  obtain ⟨a', ha'⟩ := hk.of_frame
    (c.modifyRequest_frame ref (Request.failAt failedAt) rfl)
  exact (hl.modifyRequest ref (Request.failAt failedAt) rfl rfl).completeLocked ha' _ _

lemma awaitLocked (hl : Ledger slack c) (hk : Retained c ref a)
    (hkey : action.key = a.key) (hpd : a.pending = false)
    (hst : a.result.state = .pending) (how : c.owners.get? a.key = some owner)
    (failedAt : Option ℕ) : Ledger slack (c.awaitLocked ref action failedAt) := by
  unfold Coordinator.awaitLocked
  split
  · exact hl.rejectAt hk _ _
  next hfull =>
  rw [hkey, Bool.not_eq_true] at hfull
  have henqueued := hl.enqueueLocked hk hpd hst how hfull
  rw [hkey]
  split
  · split
    · exact hl.rejectAt hk _ _
    · exact hl.rejectAt hk _ _
    · exact henqueued
  · exact henqueued

/-! ## Starting a request -/

lemma replaceLocked_nil (hl : Ledger slack c) (hg : c.owners.get? key = some state)
    (hkeep : key ∈ slack) : Ledger slack (c.replaceLocked key []) := by
  unfold Coordinator.replaceLocked
  split
  · next hfits =>
    exact hl.installRangesLocked hg (fun _ h => by cases h) hfits
      (.inl hkeep)
  · exact hl

lemma draftLocked_spec (hdir : Directory c) (hl : Ledger slack c)
    (hheap : c.heap ref = some action)
    (hr : ∀ index, action.released.getD index false = false)
    (hg : c.owners.get? action.key = some state) :
    Drafted c action action.commands (c.draftLocked action) ∨
      ∃ before command rest, action.commands = before ++ command :: rest ∧
        Refused c action before command (c.draftLocked action) := by
  apply draftPrefix_spec (hdir.admitted hheap) hr
  · rw [heldRanges_eq hg]
    exact hl.exclusion.held hg
  · exact hl.live_fits hg
  · exact fun _ h => h

end Ledger

lemma Identity.Admitted.releases_of_wait {identity : Identity}
    (hadm : identity.Admitted) (hfirst : first ∈ identity.commands) (hwait : first.wait = true) :
    ∀ command ∈ identity.commands, command.edit.releases = false := by
  intro command hm
  have hsm := hadm.wait command hm first hfirst
  rw [hwait] at hsm
  have hvalid := hadm.valid command hm
  rw [← Bool.not_eq_true, RangeEdit.releases, decide_eq_true_eq]
  rintro (hedit | hedit)
  · rw [(hvalid.subtract hedit).1] at hsm
    cases hsm
  · rw [(hvalid.removeExact hedit).1] at hsm
    cases hsm

lemma releasePrefix_eq_nil (hn : ∀ command ∈ commands, command.edit.releases = false) :
    releasePrefix commands = [] := by
  unfold releasePrefix
  rw [List.map_eq_nil_iff, List.filter_eq_nil_iff]
  intro command hm
  simp [hn command hm]

variable {before : List RangeCommand} {command : RangeCommand}

/-- Nothing of a refused batch survives when the batch may wait. -/
lemma Refused.releaseEffects_eq_nil (hadm : action.identity.Admitted)
    (hfirst : first ∈ action.commands) (hwait : first.wait = true) {rest : List RangeCommand}
    (hsp : action.commands = before ++ command :: rest)
    (hre : Refused c action before command edit) : edit.releaseEffects = [] := by
  have hn := hadm.releases_of_wait hfirst hwait
  have hin : ∀ x ∈ before ++ [command], x ∈ action.commands := by
    intro x hx
    rw [hsp]
    rcases List.mem_append.mp hx with h | h
    · exact List.mem_append_left _ h
    · rw [List.mem_singleton] at h
      subst h
      simp
  rcases hre.releases with hreleases | ⟨-, hreleases⟩
  · rw [hreleases.effects]
    exact releasePrefix_eq_nil fun x hx => hn x (hin x (List.mem_append_left _ hx))
  · rw [hreleases.effects]
    exact releasePrefix_eq_nil fun x hx => hn x (hin x hx)

lemma Coordinator.commitReleasePrefixLocked_of_nil
    (hn : edit.releaseEffects = []) (c : Coordinator) (ref : RequestRef)
    (key : OwnerKey) : c.commitReleasePrefixLocked ref key edit = c := by
  simp [commitReleasePrefixLocked, hn]

lemma Refused.exists_releases (hre : Refused c action before command edit) :
    ∃ done, Releases c action done edit :=
  hre.releases.elim (fun h => ⟨_, h⟩) fun h => ⟨_, h.2⟩

/-- What starting a request makes of the state, between obtaining the owner
state and pruning it. -/
inductive Starts (c : Coordinator) (ref : RequestRef) (action : Request)
    (first : RangeCommand) : Coordinator → Prop
  | oversize : Starts c ref action first (c.completeLocked ref .rejected (some .tooLarge))
  | dropped (hdrops : dropsFirst (c.heldRanges action.key) action first = true)
    (hroom : projectedEffects (c.heldRanges action.key) action true ≤ maxRangeEffects) :
    Starts c ref action first (((c.modifyRequest ref (Request.keepDrops
      (dropEffects (c.heldRanges action.key)))).replaceLocked action.key
        []).modifyRequest ref Request.convert)
  | committed (hkeeps : dropsFirst (c.heldRanges action.key) action first = false)
    (hd : Drafted c action action.commands (c.draftLocked action)) :
    Starts c ref action first (c.commitEditLocked ref action.key (c.draftLocked action))
  | refused {before rest : List RangeCommand} {command : RangeCommand} {code : RejectionCode}
    (hkeeps : dropsFirst (c.heldRanges action.key) action first = false)
    (hsp : action.commands = before ++ command :: rest)
    (hre : Refused c action before command (c.draftLocked action))
    (hcode : (c.draftLocked action).rejected = some code) :
    Starts c ref action first (((c.commitReleasePrefixLocked ref action.key
      (c.draftLocked action)).modifyRequest ref (Request.observe
        (c.draftLocked action).conflict)).rejectAt ref (c.draftLocked action).failedAt code)
  | waited {before rest : List RangeCommand} {command : RangeCommand}
    (hkeeps : dropsFirst (c.heldRanges action.key) action first = false)
    (hsp : action.commands = before ++ command :: rest)
    (hre : Refused c action before command (c.draftLocked action))
    (hcode : (c.draftLocked action).rejected = some .blocked)
    (hwait : first.wait = true)
    (hn : (c.draftLocked action).releaseEffects = []) :
    Starts c ref action first ((c.modifyRequest ref (Request.observe
      (c.draftLocked action).conflict)).awaitLocked ref action (c.draftLocked action).failedAt)

/-- What retrying a request that waits makes of the state. -/
inductive Retries (c : Coordinator) (ref : RequestRef) (action : Request) : Coordinator → Prop
  | committed (hd : Drafted c action action.commands (c.draftLocked action)) :
    Retries c ref action (c.commitEditLocked ref action.key (c.draftLocked action))
  | blocked {before rest : List RangeCommand} {command : RangeCommand}
    (hsp : action.commands = before ++ command :: rest)
    (hre : Refused c action before command (c.draftLocked action))
    (hcode : (c.draftLocked action).rejected = some .blocked) :
    Retries c ref action (c.modifyRequest ref (Request.observe (c.draftLocked action).conflict))
  | exhausted {before rest : List RangeCommand} {command : RangeCommand}
    {code : RejectionCode} (hsp : action.commands = before ++ command :: rest)
    (hre : Refused c action before command (c.draftLocked action))
    (hcode : (c.draftLocked action).rejected = some code)
    (hother : code ≠ .blocked) :
    Retries c ref action (c.completeLocked ref .rejected (some code))

variable {slack : Set OwnerKey}

lemma Ledger.starts (hdir : Directory c)
    (hl : Ledger slack c) (hg : c.heap ref = some action)
    (hr : ∀ index, action.released.getD index false = false)
    (how : c.owners.get? action.key = some state) (hfirst : first ∈ action.commands) :
    Starts c ref action first (c.startOwned ref action first) := by
  unfold Coordinator.startOwned
  simp only
  split
  · exact .oversize
  next hsize =>
  rw [not_or, not_lt] at hsize
  split
  · next hdrops => exact .dropped hdrops (hdrops ▸ hsize.1)
  next hkeeps =>
  rw [Bool.not_eq_true] at hkeeps
  rcases hl.draftLocked_spec hdir hg hr how with
    hd | ⟨before, command, rest, hsp, hre⟩
  · rw [hd.rejected]
    exact .committed hkeeps hd
  obtain ⟨code, hcode, -⟩ := hre.reason
  simp only [hcode]
  split
  · exact .refused hkeeps hsp hre hcode
  next hwaits =>
  rw [not_or, not_not, Bool.not_eq_false] at hwaits
  obtain ⟨rfl, hwait⟩ := hwaits
  have hn := hre.releaseEffects_eq_nil (hdir.admitted hg)
    hfirst hwait hsp
  rw [commitReleasePrefixLocked_of_nil hn]
  exact .waited hkeeps hsp hre hcode hwait hn

/-- A pending request that the coordinator is about to start or to retry. -/
structure Poised (c : Coordinator) (ref : RequestRef) (action : Request) : Prop where
  directory : Directory c
  ledger : Ledger ∅ c
  retained : Retained c ref action
  owned : Owned c action.key
  pending : action.result.state = .pending
  released : ∀ index, action.released.getD index false = false

namespace Poised

variable (hp : Poised c ref action)
include hp

lemma resume : Poised (c.modifyRequest ref Request.resume) ref action.resume := by
  have hf := c.modifyRequest_frame ref Request.resume rfl
  refine ⟨hp.directory.of_frame hf, hp.ledger.modifyRequest ref Request.resume rfl
    rfl, ⟨?_, hp.retained.listed⟩, hp.owned.of_frame hf, hp.pending,
    hp.released⟩
  simp [Coordinator.modifyRequest, hp.retained.heap]

lemma begins : Begins c action.key (c.begunLocked ref action.key) :=
  hp.ledger.begins hp.owned ref

lemma begun_heap : (c.begunLocked ref action.key).heap ref = some action :=
  hp.begins.heap ▸ hp.retained.heap

lemma starts : ∃ first rest c', action.commands = first :: rest ∧
      Starts (c.begunLocked ref action.key) ref action first c' ∧
      c.startLocked ref = c'.pruneOwnerLocked action.key := by
  obtain ⟨first, rest, hlist⟩ := hp.directory.first_command hp.retained.heap
  have hbegins := hp.begins
  obtain ⟨state, how⟩ := hbegins.owner
  exact ⟨first, rest, _, hlist, hbegins.ledger.starts (hp.directory.of_frame hbegins.frame)
    hp.begun_heap hp.released how (hlist ▸ List.mem_cons_self ..),
    startLocked_eq hp.retained.heap hlist⟩

lemma queued (hpd : action.pending = true)
    : ∃ state, c.owners.get? action.key = some state ∧ 0 < state.pending := by
  have hm : ref ∈ c.waiting :=
    hp.ledger.queue.waiting.mpr ⟨action, hp.retained, hpd⟩
  obtain ⟨state, hg⟩ := hp.ledger.queue.queued hm hp.retained.heap
  have hpos : 0 < c.waitersOf fun other => decide (other = action.key) :=
    waitersOf_pos hm hp.retained.heap (by simp)
  refine ⟨state, hg, ?_⟩
  rw [hp.ledger.queue.ownerPending hg]
  omega

/-- A request in the middle of a conversion is started again; any other request
that is retried is in the queue. -/
lemma retries (hwaits : action.pending = !action.converting) :
    (action.converting = true ∧ c.retryLocked ref action =
      (c.modifyRequest ref Request.resume).startLocked ref) ∨
    (action.converting = false ∧ action.pending = true ∧
      Retries c ref action (c.retryLocked ref action)) := by
  unfold Coordinator.retryLocked
  split
  · exact .inl ⟨‹_›, rfl⟩
  next hsteady =>
  rw [Bool.not_eq_true] at hsteady
  rw [hsteady] at hwaits
  refine .inr ⟨hsteady, hwaits, ?_⟩
  obtain ⟨state, how, -⟩ := hp.queued hwaits
  rcases hp.ledger.draftLocked_spec hp.directory hp.retained.heap
    hp.released how with hd | ⟨before, command, rest, hsp, hre⟩
  · rw [hd.rejected]
    exact .committed hd
  obtain ⟨code, hcode, -⟩ := hre.reason
  split
  · next hn => cases hcode.symm.trans hn
  · next hblocked => exact .blocked hsp hre hblocked
  · next hother hsome => exact .exhausted hsp hre hsome hother

end Poised

namespace Ledger

variable {slack : Set OwnerKey} {c c' : Coordinator}

lemma of_starts (hdir : Directory c) (hl : Ledger slack c)
    (hret : Retained c ref action) (hst : action.result.state = .pending)
    (hpd : action.pending = false) (hg : c.owners.get? action.key = some state)
    (hslack : action.key ∈ slack) (hstarts : Starts c ref action first c') : Ledger slack c' := by
  cases hstarts with
  | oversize => exact hl.completeLocked hret _ _
  | dropped _ _ =>
    have hk := hl.modifyRequest ref
      (Request.keepDrops (dropEffects (c.heldRanges action.key))) rfl rfl
    exact (hk.replaceLocked_nil hg hslack).modifyRequest ref Request.convert rfl rfl
  | committed _ hd => exact hl.commitEditLocked hdir hret hg (.inl hslack) hd
  | refused _ _ hre _ =>
    obtain ⟨done, hreleases⟩ := hre.exists_releases
    have hk := commitReleasePrefixLocked hdir hl ref hg
      hslack hreleases
    obtain ⟨a, ha⟩ := hret.of_frame
      ((c.commitReleasePrefixLocked_frame ref action.key (c.draftLocked action)).trans
      (modifyRequest_frame _ ref (Request.observe (c.draftLocked action).conflict) rfl))
    exact (hk.modifyRequest ref
      (Request.observe (c.draftLocked action).conflict) rfl rfl).rejectAt ha _ _
  | waited _ _ _ _ _ _ =>
    have hobserved := hl.modifyRequest ref
      (Request.observe (c.draftLocked action).conflict) rfl rfl
    refine hobserved.awaitLocked (a := action.observe (c.draftLocked action).conflict) ⟨?_,
      hret.listed⟩ rfl hpd hst hg _
    simp [Coordinator.modifyRequest, hret.heap]

lemma startLocked (hp : Poised c ref action)
    (hpd : action.pending = false) : Ledger ∅ (c.startLocked ref) := by
  obtain ⟨first, rest, c', -, hstarts, heq⟩ := hp.starts
  have hbegins := hp.begins
  obtain ⟨state, how⟩ := hbegins.owner
  obtain ⟨a, ha⟩ := hp.retained.of_frame hbegins.frame
  cases hp.begun_heap.symm.trans ha.heap
  have hstarted := hbegins.ledger.of_starts (hp.directory.of_frame hbegins.frame) ha
    hp.pending hpd how (Set.mem_insert _ _) hstarts
  rw [heq]
  apply (hstarted.pruneOwnerLocked action.key).mono
  rintro key ⟨hin, hne⟩
  exact absurd ((Set.mem_insert_iff.mp hin).resolve_right (Set.notMem_empty key)) hne

lemma retryLocked (hp : Poised c ref action) (hwaits : action.pending = !action.converting) :
    Ledger ∅ (c.retryLocked ref action) := by
  rcases hp.retries hwaits with
    ⟨hconv, heq⟩ | ⟨-, hpd, hretries⟩
  · rw [heq]
    exact startLocked hp.resume (hwaits.trans (by simp [hconv]))
  obtain ⟨state, hg, hcount⟩ := hp.queued hpd
  revert hretries
  generalize c.retryLocked ref action = c'
  intro hretries
  cases hretries with
  | committed hd =>
    exact hp.ledger.commitEditLocked hp.directory hp.retained
      hg (.inr hcount) hd
  | blocked _ _ _ => exact hp.ledger.modifyRequest ref (Request.observe _) rfl rfl
  | exhausted _ _ _ _ => exact hp.ledger.completeLocked hp.retained _ _

end Ledger

/-! ## Dropping an owner -/

lemma Coordinator.pruneOwnerLocked_heap (c : Coordinator) (key : OwnerKey) :
    (c.pruneOwnerLocked key).heap = c.heap := by
  unfold pruneOwnerLocked
  split
  · rfl
  · split <;> rfl

lemma Coordinator.completeLocked_heap (hg : c.heap ref = some a)
    (state : AttemptState) (rejection : Option RejectionCode) :
    (c.completeLocked ref state rejection).heap =
      Function.update c.heap ref (some (a.completed state rejection
        (c.time + c.historyOf a.key.session))) := by
  have hsettled : (c.settleLocked ref a state rejection).heap =
      Function.update c.heap ref (some (a.completed state rejection
        (c.time + c.historyOf a.key.session))) := by
    simp [settleLocked, modifyRequest, ticked, hg]
  unfold completeLocked
  simp only [hg]
  split
  · rwa [pruneOwnerLocked_heap]
  · exact hsettled

/-- Every owner state was there before and holds what it held before. -/
def OwnersKept (c c' : Coordinator) : Prop :=
  ∀ key state', c'.owners.get? key = some state' →
    ∃ state, c.owners.get? key = some state ∧ state.ranges = state'.ranges

variable {c' : Coordinator}

lemma OwnersKept.of_eq (h : c'.owners = c.owners) : OwnersKept c c' := by
  intro key state' hg
  rw [h] at hg
  exact ⟨state', hg, rfl⟩

lemma OwnersKept.trans (h : OwnersKept c c') (h' : OwnersKept c' c'') : OwnersKept c c'' := by
  intro key state'' hg
  obtain ⟨state', hstate', hsame'⟩ := h' key state'' hg
  obtain ⟨state, hst, hsm⟩ := h key state' hstate'
  exact ⟨state, hst, hsm.trans hsame'⟩

lemma Coordinator.pruneOwnerLocked_kept (c : Coordinator) (key : OwnerKey) :
    OwnersKept c (c.pruneOwnerLocked key) := by
  unfold pruneOwnerLocked
  split
  · exact .of_eq rfl
  split
  · intro other state' hg
    exact ⟨state', (Table.erase_cases hg).2, rfl⟩
  · exact .of_eq rfl

lemma Coordinator.completeLocked_kept (c : Coordinator) (ref : RequestRef) (state : AttemptState)
    (rejection : Option RejectionCode) : OwnersKept c (c.completeLocked ref state rejection) := by
  unfold completeLocked
  split
  · exact .of_eq rfl
  next action _ =>
  simp only
  split
  · apply OwnersKept.trans _ (pruneOwnerLocked_kept _ _)
    intro other state' hg
    obtain ⟨old, hold, rfl⟩ := Table.of_get?_modify hg
    exact ⟨old, hold, by split_ifs <;> rfl⟩
  · exact .of_eq rfl

lemma Coordinator.settleDropped_kept (key : OwnerKey) (c : Coordinator)
    (ref : RequestRef) : OwnersKept c (settleDropped key c ref) := by
  unfold settleDropped
  split
  · exact .of_eq rfl
  split
  · exact .of_eq rfl
  split
  · exact c.completeLocked_kept _ _ _
  split
  · exact c.completeLocked_kept _ _ _
  · exact .of_eq rfl

/-- The request behind a pointer is not waiting for the owner key. -/
def Unpending (key : OwnerKey) (c : Coordinator) (ref : RequestRef) : Prop :=
  ∀ a, c.heap ref = some a → a.key = key → a.result.state ≠ .pending

lemma settleDropped_unpending (key : OwnerKey) (c : Coordinator) (ref : RequestRef) :
    Unpending key (settleDropped key c ref) ref ∧ ∀ other, Unpending key c other →
        Unpending key (settleDropped key c ref) other := by
  have hcompleted : ∀ {a : Request} {state : AttemptState},
      c.heap ref = some a → state ≠ .pending →
      Unpending key (c.completeLocked ref state none) ref ∧ ∀ other, Unpending key c other →
          Unpending key (c.completeLocked ref state none) other := by
    intro a state hg hst
    have hself : Unpending key (c.completeLocked ref state none) ref := by
      rintro b hb -
      rw [completeLocked_heap hg, Function.update_self, Option.some.injEq] at hb
      subst hb
      exact hst
    refine ⟨hself, fun other hother => ?_⟩
    by_cases heq : other = ref
    · subst heq
      exact hself
    · intro b hb
      rw [completeLocked_heap hg, Function.update_of_ne heq] at hb
      exact hother b hb
  unfold settleDropped
  split
  · next hn =>
    refine ⟨fun a ha => ?_, fun _ h => h⟩
    cases hn.symm.trans ha
  next action hg =>
  have hsm : ∀ a, c.heap ref = some a → a = action := fun a ha =>
    Option.some.inj (ha.symm.trans hg)
  split
  · next hkey =>
    exact ⟨fun a ha ha' => absurd (hsm a ha ▸ ha') hkey, fun _ h => h⟩
  split
  · exact hcompleted hg (by decide)
  split
  · exact hcompleted hg (by decide)
  · next hst _ =>
    exact ⟨fun a ha _ => hsm a ha ▸ hst, fun _ h => h⟩

lemma foldl_settleDropped_unpending (key : OwnerKey) (refs : List RequestRef) (c : Coordinator) :
    (∀ ref ∈ refs, Unpending key (refs.foldl (settleDropped key) c) ref) ∧ ∀ other,
      Unpending key c other → Unpending key (refs.foldl (settleDropped key) c) other := by
  induction refs generalizing c with
  | nil => exact ⟨fun _ h => absurd h List.not_mem_nil, fun _ h => h⟩
  | cons ref refs ih =>
    obtain ⟨hself, hothers⟩ := settleDropped_unpending key c ref
    obtain ⟨hrest, hkeep⟩ := ih (settleDropped key c ref)
    exact ⟨List.forall_mem_cons.mpr ⟨hkeep ref hself, hrest⟩,
      fun other hother => hkeep other (hothers other hother)⟩

namespace Ledger

variable {c : Coordinator}

lemma settleDropped
    (hwa : Walk slack key.session actions c) (hm : ref ∈ actions.toList.map Prod.snd) :
    Walk slack key.session actions (Coordinator.settleDropped key c ref) := by
  obtain ⟨⟨id, found⟩, hentry, rfl⟩ := List.mem_map.mp hm
  have hac := Table.mem_toList.mp hentry
  unfold Coordinator.settleDropped
  split
  · exact hwa
  split
  · exact hwa
  split
  · exact hwa.completeLocked hac _ _
  split
  · exact hwa.completeLocked hac _ _
  · exact hwa

lemma clearLocked (hl : Ledger ∅ c) (key : OwnerKey) :
    Ledger (insert key ∅) (c.clearLocked key) ∧
      (∀ {state}, (c.clearLocked key).owners.get? key = some state → state.ranges = []) ∧
      ∀ {other state}, (c.clearLocked key).owners.get? other = some state →
        other ≠ key → c.owners.get? other = some state := by
  have hbooks : Ledger (insert key ∅) c := hl.mono (Set.empty_subset _)
  unfold Coordinator.clearLocked
  cases hg : c.owners.get? key with
  | none =>
    refine ⟨hbooks, fun {state} hst => ?_, fun h _ => h⟩
    cases hg.symm.trans hst
  | some state =>
    have hfits : c.replacementFitsLocked key ([] : List RangeClaim).length = true :=
      replacementFitsLocked_mono (Nat.zero_le _) (hl.live_fits hg)
    have hcleared := hbooks.replaceLocked_nil hg (Set.mem_insert _ _)
    simp only [Coordinator.replaceLocked, hfits, if_true] at hcleared ⊢
    refine ⟨hcleared, fun {found} hfd => ?_, fun {other found} hfd hne => ?_⟩
    · change (c.owners.modify key _).get? key = some found at hfd
      rw [Table.get?_modify_self, hg, Option.map_some, Option.some.injEq] at hfd
      subst hfd
      rfl
    · change (c.owners.modify key _).get? other = some found at hfd
      rwa [Table.get?_modify_ne hne] at hfd

/-- Dropping a key of a live session keeps the books, removes its owner state,
and creates none. -/
lemma dropLocked (hdir : Directory c) (hl : Ledger ∅ c)
    (hs : c.sessions.get? key.session = some s) :
    Ledger ∅ (c.dropLocked key) ∧ (c.dropLocked key).owners.get? key = none ∧
      ∀ {other state'}, (c.dropLocked key).owners.get? other = some state' → other ≠ key →
      ∃ state, c.owners.get? other = some state ∧ state.ranges = state'.ranges := by
  have hf := c.clearLocked_frame key
  obtain ⟨hbooks, hempty, hk⟩ := hl.clearLocked key
  obtain ⟨s', hs', halike⟩ := hf.session_forth hs
  have hwa : Walk (insert key ∅) key.session s.actions (c.clearLocked key) :=
    ⟨hdir.of_frame hf, hbooks, s', hs', halike.actions⟩
  have hfolded : Walk (insert key ∅) key.session s.actions
      ((s.actions.toList.map Prod.snd).foldl (Coordinator.settleDropped key) (c.clearLocked key)) :=
    List.foldlRecOn _ _ hwa fun _ hstep ref hm => settleDropped hstep hm
  have howners : OwnersKept (c.clearLocked key)
      ((s.actions.toList.map Prod.snd).foldl (Coordinator.settleDropped key) (c.clearLocked key)) :=
    List.foldlRecOn _ _ (OwnersKept.of_eq rfl) fun c' hstep ref _ =>
      OwnersKept.trans hstep (settleDropped_kept key c' ref)
  have hunpending := (foldl_settleDropped_unpending key
    (s.actions.toList.map Prod.snd) (c.clearLocked key)).1
  unfold Coordinator.dropLocked
  simp only [hs]
  revert hfolded howners hunpending
  generalize (s.actions.toList.map Prod.snd).foldl
    (Coordinator.settleDropped key) (c.clearLocked key) = folded
  intro hfolded howners hunpending
  have hslack : (insert key ∅ : Set OwnerKey) \ {key} ⊆ ∅ := by
    rintro other ⟨hin, hne⟩
    exact absurd ((Set.mem_insert_iff.mp hin).resolve_right (Set.notMem_empty other)) hne
  refine ⟨(hfolded.ledger.pruneOwnerLocked key).mono hslack, ?_, ?_⟩
  · have hnowaiters : folded.waitersOf (fun other => decide (other = key)) = 0 := by
      rw [Coordinator.waitersOf, List.countP_eq_zero]
      intro ref hm hkey
      obtain ⟨a, hret, hpd⟩ := hfolded.ledger.queue.waiting.mp hm
      have hst := hfolded.ledger.queue.unsettled hret hpd
      simp only [Coordinator.keyOf, hret.heap, Option.map_some,
        Option.any_some, decide_eq_true_eq] at hkey
      obtain ⟨current, hcur, hac⟩ := hfolded.listed
      obtain ⟨found, hfd, hls⟩ := hret.listed
      rw [hkey, hcur, Option.some.injEq] at hfd
      subst hfd
      rw [hac] at hls
      exact hunpending ref (List.mem_map.mpr ⟨(a.id, ref),
        Table.mem_toList.mpr hls, rfl⟩) a hret.heap hkey hst
    unfold Coordinator.pruneOwnerLocked
    cases hg : folded.owners.get? key with
    | none => exact hg
    | some state =>
      obtain ⟨old, hold, hsm⟩ := howners key state hg
      have hranges : state.ranges.length = 0 := by
        rw [← hsm, hempty hold]
        rfl
      have hpd : state.pending = 0 := by
        rw [hfolded.ledger.queue.ownerPending hg, hnowaiters]
        rfl
      simp only [hranges, hpd, and_self, if_true]
      exact Table.get?_erase_self ..
  · intro other state' hg hne
    obtain ⟨state, hst, hsm⟩ :=
      howners.trans (folded.pruneOwnerLocked_kept key) other state' hg
    exact ⟨state, hk hst hne, hsm⟩

end Ledger

end RemoteFs.Advisory
