import RemoteFs.Advisory.Drafts

/-!
# The books of the coordinator

`Directory` collects the facts about sessions, registrations and retained
histories; editing cannot disturb them, so one lemma carries all of them
across a `Frame`.  `Ledger` collects the facts that editing maintains: which
owner states exist, what they hold, and how the counters add up.  An owner
state may be empty for a moment inside an operation; the keys for which that is
tolerated form the `slack` of a ledger, which is empty between operations.
-/

namespace RemoteFs.Advisory

open Storage Coordinator

variable {c c' : Coordinator} {ref : RequestRef} {a action : Request}
  {key : OwnerKey} {state : OwnerState}

structure Directory (c : Coordinator) : Prop where
  session : ∀ {id s}, c.sessions.get? id = some s →
    s.id = id ∧ id ≤ c.nextSession ∧ s.retired = false
  gone : ∀ {id s}, c.retired.get? id = some s →
    id ≤ c.nextSession ∧ c.sessions.get? id = none ∧ s.retired = true ∧
      s.actions = .empty ∧ s.bindings = .empty
  owners : ∀ {id s}, c.sessions.get? id = some s → s.owners = s.bindings.size ∧
      ∀ {owner binding}, s.bindings.get? owner = some binding → owner ≤ s.nextOwner
  indexed : ∀ {id s request ref}, c.sessions.get? id = some s →
    s.actions.get? request = some ref →
    ∃ a, c.heap ref = some a ∧ a.id = request ∧ a.key.session = id
  allocated : ∀ {ref a}, c.heap ref = some a → ref < c.allocated
  admitted : ∀ {ref a}, c.heap ref = some a → a.identity.Admitted
  born : ∀ {ref a}, c.heap ref = some a → a.key.session ≤ c.nextSession
  requests : c.requests = c.sessions.total fun _ s => s.actions.size
  registered : c.registeredOwners = c.sessions.total fun _ s => s.bindings.size
  requestsBound : c.requests ≤ c.config.maxRequests
  ownersBound : c.registeredOwners + c.uses.size ≤ c.config.maxOwners

lemma Frame.total_sessions (hf : Frame c c') (weight : Session → ℕ)
    (hweight : ∀ s, weight s.blank = weight s) :
    (c'.sessions.total fun _ s => weight s) = c.sessions.total fun _ s => weight s := by
  apply Table.total_ext
  intro id
  have hsm := congrArg (Option.map weight) (hf.sessions id)
  simpa only [Option.map_map, Function.comp_def, hweight] using hsm

lemma Directory.of_frame (hf : Frame c c') (hdir : Directory c) :
    Directory c' where
  session := by
    intro id s' hg
    obtain ⟨s, hs, hal⟩ := hf.session_back hg
    obtain ⟨hid, hle, hretired⟩ := hdir.session hs
    rw [hf.nextSession]
    exact ⟨hal.id.trans hid, hle, hal.retired.trans hretired⟩
  gone := by
    intro id s hg
    rw [hf.retired] at hg
    obtain ⟨hle, hnone, hrest⟩ := hdir.gone hg
    rw [hf.nextSession]
    refine ⟨hle, ?_, hrest⟩
    have hsm := hf.sessions id
    rw [hnone, Option.map_none] at hsm
    exact Option.map_eq_none_iff.mp hsm
  owners := by
    intro id s' hg
    obtain ⟨s, hs, hal⟩ := hf.session_back hg
    rw [hal.owners, hal.bindings, hal.nextOwner]
    exact hdir.owners hs
  indexed := by
    intro id s' request ref hg hac
    obtain ⟨s, hs, hal⟩ := hf.session_back hg
    rw [hal.actions] at hac
    obtain ⟨a, ha, hid, hsess⟩ := hdir.indexed hs hac
    obtain ⟨a', ha', hide⟩ := hf.request_forth ha
    exact ⟨a', ha', (congrArg Identity.id hide).trans hid,
      (congrArg (fun i => i.key.session) hide).trans hsess⟩
  allocated := by
    intro ref a' hg
    obtain ⟨a, ha, -⟩ := hf.request_back hg
    rw [hf.allocated]
    exact hdir.allocated ha
  admitted := by
    intro ref a' hg
    obtain ⟨a, ha, hide⟩ := hf.request_back hg
    rw [← hide]
    exact hdir.admitted ha
  born := by
    intro ref a' hg
    obtain ⟨a, ha, hide⟩ := hf.request_back hg
    have hkey : a.key = a'.key := congrArg Identity.key hide
    rw [hf.nextSession, ← hkey]
    exact hdir.born ha
  requests := by
    rw [hf.requests, hdir.requests]
    exact congrArg _ (hf.total_sessions (fun s => s.actions.size) fun _ => rfl).symm
  registered := by
    rw [hf.registeredOwners, hdir.registered]
    exact congrArg _ (hf.total_sessions (fun s => s.bindings.size) fun _ => rfl).symm
  requestsBound := by
    rw [hf.requests, hf.config]
    exact hdir.requestsBound
  ownersBound := by
    rw [hf.registeredOwners, hf.config, hf.uses]
    exact hdir.ownersBound

/-! ## Retained requests and waiters -/

/-- The object behind a pointer that the history of a live session retains. -/
structure Listed (heap : RequestRef → Option Request)
    (sessions : Table ℕ Session) (ref : RequestRef) (a : Request) : Prop where
  heap : heap ref = some a
  listed : ∃ s, sessions.get? a.key.session = some s ∧ s.actions.get? a.id = some ref

abbrev Retained (c : Coordinator) : RequestRef → Request → Prop :=
  Listed c.heap c.sessions

lemma Directory.retained (hdir : Directory c) {id : ℕ} (hs : c.sessions.get? id = some s)
    (hac : s.actions.get? request = some ref) :
    ∃ a, Retained c ref a ∧ a.id = request ∧ a.key.session = id := by
  obtain ⟨a, ha, rfl, rfl⟩ := hdir.indexed hs hac
  exact ⟨a, ⟨ha, s, hs, hac⟩, rfl, rfl⟩

lemma Retained.of_frame (hf : Frame c c') (hk : Retained c ref a) :
    ∃ a', Retained c' ref a' := by
  obtain ⟨a', ha', hide⟩ := hf.request_forth hk.heap
  obtain ⟨s, hs, hac⟩ := hk.listed
  obtain ⟨s', hs', hal⟩ := hf.session_forth hs
  have hkey : a'.key = a.key := congrArg Identity.key hide
  have hid : a'.id = a.id := congrArg Identity.id hide
  refine ⟨a', ha', s', ?_, ?_⟩
  · rwa [hkey]
  · rwa [hid, hal.actions]

lemma Retained.back (hf : Frame c c') (hk : Retained c' ref a') :
    ∃ a, Retained c ref a := by
  obtain ⟨a, ha, hide⟩ := hf.request_back hk.heap
  obtain ⟨s', hs', hac⟩ := hk.listed
  obtain ⟨s, hs, hal⟩ := hf.session_back hs'
  have hkey : a.key = a'.key := congrArg Identity.key hide
  have hid : a.id = a'.id := congrArg Identity.id hide
  refine ⟨a, ha, s, ?_, ?_⟩
  · rwa [hkey]
  · rwa [hid, ← hal.actions]

def Coordinator.keyOf (c : Coordinator) (ref : RequestRef) : Option OwnerKey :=
  (c.heap ref).map Request.key

/-- The number of waiting requests whose owner key is selected. -/
def Coordinator.waitersOf (c : Coordinator) (select : OwnerKey → Bool) : ℕ :=
  c.waiting.countP fun ref => (c.keyOf ref).any select

lemma Frame.keyOf (hf : Frame c c') (ref : RequestRef) : c'.keyOf ref = c.keyOf ref := by
  have hsm := congrArg (Option.map Identity.key) (hf.heap ref)
  rwa [Option.map_map, Option.map_map] at hsm

lemma Frame.waitersOf (hf : Frame c c') (hwa : c'.waiting = c.waiting)
    (select : OwnerKey → Bool) : c'.waitersOf select = c.waitersOf select := by
  simp only [Coordinator.waitersOf, hwa, hf.keyOf]

/-- A live registration stands behind an owner key. -/
def Owned (c : Coordinator) (key : OwnerKey) : Prop :=
  ∃ s binding, c.sessions.get? key.session = some s ∧
    s.bindings.get? key.owner = some binding ∧ binding.node = key.node ∧
    key.domain.defined = true

lemma Owned.of_frame (hf : Frame c c') (howned : Owned c key) : Owned c' key := by
  obtain ⟨s, binding, hs, hbind, hrest⟩ := howned
  obtain ⟨s', hs', hal⟩ := hf.session_forth hs
  exact ⟨s', binding, hs', hal.bindings.symm ▸ hbind, hrest⟩

/-! ## The ledger -/

def rangeCount (_ : OwnerKey) (state : OwnerState) : ℕ := state.ranges.length

def sessionRangeCount (id : ℕ) (key : OwnerKey) (state : OwnerState) : ℕ :=
  if key.session = id then state.ranges.length else 0

/-- The waiting list and the counters of waiters. -/
structure Queue (c : Coordinator) : Prop where
  nodup : c.waiting.Nodup
  waiting : ∀ {ref}, ref ∈ c.waiting ↔ ∃ a, Retained c ref a ∧ a.pending = true
  unsettled : ∀ {ref a}, Retained c ref a → a.pending = true → a.result.state = .pending
  queued : ∀ {ref a}, ref ∈ c.waiting → c.heap ref = some a →
    ∃ state, c.owners.get? a.key = some state
  ownerPending : ∀ {key state}, c.owners.get? key = some state →
    state.pending = c.waitersOf fun other => decide (other = key)
  sessionPending : ∀ {id s}, c.sessions.get? id = some s →
    s.pending = c.waitersOf fun other => decide (other.session = id)
  bound : (c.waiting.length : ℤ) ≤ c.config.maxWaiters

structure Ledger (slack : Set OwnerKey) (c : Coordinator) : Prop where
  exclusion : Exclusion c.owners
  owned : ∀ {key state}, c.owners.get? key = some state → Owned c key
  populated : ∀ {key state}, c.owners.get? key = some state → key ∉ slack →
    state.ranges ≠ [] ∨ 0 < state.pending
  ranges : c.ranges = c.owners.total rangeCount
  sessionRanges : ∀ {id s}, c.sessions.get? id = some s →
    s.ranges = c.owners.total (sessionRangeCount id)
  rangesBound : c.ranges ≤ c.config.maxRanges
  sessionRangesBound : ∀ {id s}, c.sessions.get? id = some s → s.ranges ≤ s.options.maxLockRanges
  queue : Queue c

variable {owners : Table OwnerKey OwnerState}

/-- Owner tables whose states hold nothing that was not held before. -/
lemma Exclusion.of_ranges (hexcl : Exclusion owners)
    (hra : ∀ {key state'}, owners'.get? key = some state' → state'.ranges = [] ∨
        ∃ state, owners.get? key = some state ∧
          state.ranges = state'.ranges) : Exclusion owners' where
  held := by
    intro key state' hg claim hc
    rcases hra hg with hempty | ⟨state, hold, hsm⟩
    · rw [hempty] at hc
      cases hc
    · rw [← hsm] at hc
      exact hexcl.held hold claim hc
  free := by
    intro key state' hg claim hc other rival hrivalGet hrival held hh
    rcases hra hg with hempty | ⟨state, hold, hsm⟩
    · rw [hempty] at hc
      cases hc
    rcases hra hrivalGet with hempty | ⟨rivalOld, hrivalOld, hrivalSame⟩
    · rw [hempty] at hh
      cases hh
    rw [← hsm] at hc
    rw [← hrivalSame] at hh
    exact hexcl.free hold claim hc other rivalOld hrivalOld hrival held hh

lemma Queue.of_frame (hqu : Queue c) (hf : Frame c c') (hwa : c'.waiting = c.waiting)
    (hown : ∀ key, (c'.owners.get? key).map OwnerState.pending =
      (c.owners.get? key).map OwnerState.pending)
    (hse : ∀ id, (c'.sessions.get? id).map Session.pending =
      (c.sessions.get? id).map Session.pending)
    (hp : ∀ {ref a a'}, Retained c ref a → c'.heap ref = some a' →
      a'.pending = a.pending ∧ (a.pending = true → a'.result.state = a.result.state)) :
    Queue c' where
  nodup := by
    rw [hwa]
    exact hqu.nodup
  waiting := by
    intro ref
    rw [hwa, hqu.waiting]
    constructor
    · rintro ⟨a, hk, ha⟩
      obtain ⟨a', hkept'⟩ := hk.of_frame hf
      exact ⟨a', hkept', (hp hk hkept'.heap).1.trans ha⟩
    · rintro ⟨a', hkept', ha'⟩
      obtain ⟨a, hk⟩ := hkept'.back hf
      exact ⟨a, hk, (hp hk hkept'.heap).1.symm.trans ha'⟩
  unsettled := by
    intro ref a' hkept' ha'
    obtain ⟨a, hk⟩ := hkept'.back hf
    obtain ⟨hsm, hst⟩ := hp hk hkept'.heap
    have ha := hsm.symm.trans ha'
    exact (hst ha).trans (hqu.unsettled hk ha)
  queued := by
    intro ref a' hm hg
    rw [hwa] at hm
    obtain ⟨a, ha, hid⟩ := hf.request_back hg
    have hkey : a.key = a'.key := congrArg Identity.key hid
    obtain ⟨state, hst⟩ := hqu.queued hm ha
    have hsm := hown a'.key
    rw [← hkey, hst, Option.map_some] at hsm
    obtain ⟨state', hstate', -⟩ := Option.map_eq_some_iff.mp hsm
    exact ⟨state', hkey ▸ hstate'⟩
  ownerPending := by
    intro key state' hg
    obtain ⟨state, hst, hvalue⟩ := of_map_eq (hown key) hg
    rw [hf.waitersOf hwa, ← hvalue]
    exact hqu.ownerPending hst
  sessionPending := by
    intro id s' hg
    obtain ⟨s, hs, hvalue⟩ := of_map_eq (hse id) hg
    rw [hf.waitersOf hwa, ← hvalue]
    exact hqu.sessionPending hs
  bound := by
    rw [hwa, hf.config]
    exact hqu.bound

namespace Ledger

variable {slack : Set OwnerKey} {c : Coordinator}

lemma mono (hl : Ledger slack c) (hsubset : slack ⊆ larger) : Ledger larger c :=
  { hl with
    populated := fun hg hnot => hl.populated hg fun hin => hnot (hsubset hin) }

lemma of_ranges (hl : Ledger slack c)
    (hf : Frame c c') (hown : ∀ key, (c'.owners.get? key).map OwnerState.ranges =
      (c.owners.get? key).map OwnerState.ranges)
    (hse : ∀ id, (c'.sessions.get? id).map Session.ranges =
      (c.sessions.get? id).map Session.ranges) (hra : c'.ranges = c.ranges)
    (hpopulated : ∀ {key state}, c'.owners.get? key = some state →
      key ∉ slack' → state.ranges ≠ [] ∨ 0 < state.pending) (hqu : Queue c')
    : Ledger slack' c' := by
  have hback : ∀ {key state'}, c'.owners.get? key = some state' →
      ∃ state, c.owners.get? key = some state ∧ state.ranges = state'.ranges := by
    intro key state' hg
    exact of_map_eq (hown key) hg
  have hsess : ∀ {id s'}, c'.sessions.get? id = some s' →
      ∃ s, c.sessions.get? id = some s ∧ s'.ranges = s.ranges ∧ s'.options = s.options := by
    intro id s' hg
    obtain ⟨s, hs, hal⟩ := hf.session_back hg
    have hsm := hse id
    rw [hg, hs, Option.map_some, Option.map_some, Option.some.injEq] at hsm
    exact ⟨s, hs, hsm, hal.options⟩
  have htotal : ∀ weight : OwnerKey → List RangeClaim → ℕ,
      (c'.owners.total fun key state => weight key state.ranges) =
        c.owners.total fun key state => weight key state.ranges := by
    intro weight
    apply Table.total_ext
    intro key
    have hsm := congrArg (Option.map (weight key)) (hown key)
    simpa only [Option.map_map, Function.comp_def] using hsm
  exact {
    exclusion := hl.exclusion.of_ranges fun hg => .inr (hback hg)
    owned := by
      intro key state' hg
      obtain ⟨state, hst, -⟩ := hback hg
      exact (hl.owned hst).of_frame hf
    populated := hpopulated
    ranges := by
      rw [hra, hl.ranges]
      exact congrArg _ (htotal fun _ ranges => ranges.length).symm
    sessionRanges := by
      intro id s' hg
      obtain ⟨s, hs, hsm, -⟩ := hsess hg
      rw [hsm, hl.sessionRanges hs]
      exact congrArg _ (htotal fun key ranges =>
        if key.session = id then ranges.length else 0).symm
    rangesBound := by
      rw [hra, hf.config]
      exact hl.rangesBound
    sessionRangesBound := by
      intro id s' hg
      obtain ⟨s, hs, hsm, hoptions⟩ := hsess hg
      rw [hsm, hoptions]
      exact hl.sessionRangesBound hs
    queue := hqu }

lemma of_frame (hl : Ledger slack c) (hf : Frame c c')
    (hown : c'.owners = c.owners) (hse : c'.sessions = c.sessions)
    (hwa : c'.waiting = c.waiting) (hra : c'.ranges = c.ranges)
    (hp : ∀ {ref a a'}, Retained c ref a → c'.heap ref = some a' →
      a'.pending = a.pending ∧ (a.pending = true → a'.result.state = a.result.state)) :
    Ledger slack c' := by
  apply hl.of_ranges hf (fun _ => by rw [hown])
    (fun _ => by rw [hse]) hra
  · intro key state hg
    rw [hown] at hg
    exact hl.populated hg
  · exact hl.queue.of_frame hf hwa (fun _ => by rw [hown])
      (fun _ => by rw [hse]) hp

lemma modifyRequest (hl : Ledger slack c) (ref : RequestRef) (change : Request → Request)
    (hkeeps : Request.Keeps change) (hp : Request.pending ∘ change = Request.pending) :
    Ledger slack (c.modifyRequest ref change) := by
  refine hl.of_frame (c.modifyRequest_frame ref change hkeeps.identity) rfl rfl
    rfl rfl ?_
  intro other a a' hk hg
  by_cases heq : other = ref
  · subst heq
    simp only [Coordinator.modifyRequest, Function.update_self,
      hk.heap, Option.map_some, Option.some.injEq] at hg
    subst hg
    exact ⟨congrFun hp a, fun _ => hkeeps.state a⟩
  simp only [Coordinator.modifyRequest, Function.update_of_ne heq,
    hk.heap, Option.some.injEq] at hg
  subst hg
  exact ⟨rfl, fun _ => rfl⟩

end Ledger

variable {ranges : List RangeClaim}

/-! ## Replacing the ranges of one owner -/

lemma Exclusion.install (hexcl : Exclusion owners)
    (hnew : ∀ claim ∈ ranges, claim.Held key.domain ∧ Free owners key claim.command) :
    Exclusion (owners.modify key fun o => { o with ranges := ranges }) := by
  have hh : ∀ {other found},
      (owners.modify key fun o => { o with ranges := ranges }).get? other =
        some found → ∀ claim ∈ found.ranges, claim.Held other.domain := by
    intro other found hfd claim hc
    rcases Table.modify_cases hfd with ⟨_, _, rfl, rfl⟩ | ⟨-, hold⟩
    · exact (hnew claim hc).1
    · exact hexcl.held hold claim hc
  refine ⟨hh, ?_⟩
  intro other found hfd claim hc rival rivalState hrivalGet hrival held hheldMem
  have hclaimHeld := hh hfd claim hc
  have hrivalHeld := hh hrivalGet held hheldMem
  have hne := (rivals_iff.mp hrival).1
  rcases Table.modify_cases hfd with ⟨_, _, rfl, rfl⟩ | ⟨-, hold⟩
  · rcases Table.modify_cases hrivalGet with ⟨-, -, rfl, -⟩ | ⟨-, hrivalOld⟩
    · exact absurd rfl hne
    · exact (hnew claim hc).2 rival rivalState hrivalOld hrival held hheldMem
  rcases Table.modify_cases hrivalGet with ⟨_, _, rfl, rfl⟩ | ⟨-, hrivalOld⟩
  · have hback : rivals rival other = true := by
      obtain ⟨-, hnode, hdomain⟩ := rivals_iff.mp hrival
      exact rivals_iff.mpr ⟨hne.symm, hnode.symm, hdomain.symm⟩
    rw [clashes_comm hrivalHeld.valid hclaimHeld.valid]
    exact (hnew held hheldMem).2 other found hold hback claim hc
  · exact hexcl.free hold claim hc rival rivalState hrivalOld hrival held hheldMem

namespace Ledger

variable {slack : Set OwnerKey} {c : Coordinator}

lemma heldRanges_eq (hg : c.owners.get? key = some state) :
    c.heldRanges key = state.ranges := by
  simp [Coordinator.heldRanges, hg]

/-- What one owner holds fits the limits it was admitted under. -/
lemma live_fits (hl : Ledger slack c) (hg : c.owners.get? key = some state) :
    c.replacementFitsLocked key (c.heldRanges key).length = true := by
  obtain ⟨s, -, hs, -⟩ := hl.owned hg
  rw [replacementFitsLocked_iff]
  have hglobal := hl.rangesBound
  have hsess := hl.sessionRangesBound hs
  exact ⟨s, hs, by omega, by omega⟩

lemma installRangesLocked (hl : Ledger slack c) (hg : c.owners.get? key = some state)
    (hnew : ∀ claim ∈ ranges, claim.Held key.domain ∧ Free c.owners key claim.command)
    (hfits : c.replacementFitsLocked key ranges.length = true)
    (hkeep : key ∈ slack ∨ ranges ≠ [] ∨ 0 < state.pending) :
    Ledger slack (c.installRangesLocked key ranges) := by
  have hf := c.installRangesLocked_frame key ranges
  obtain ⟨s, hs, hglobal, hsess⟩ := replacementFitsLocked_iff.mp hfits
  have hh := heldRanges_eq hg
  rw [hh] at hglobal hsess
  have hse : ∀ {id found},
      (c.installRangesLocked key ranges).sessions.get? id = some found →
      ∃ old, c.sessions.get? id = some old ∧ found.options = old.options ∧
        found.ranges = old.ranges + if key.session = id then
          (ranges.length : ℤ) - state.ranges.length else 0 := by
    intro id found hfd
    rcases Table.modify_cases hfd with ⟨old, hold, rfl, rfl⟩ | ⟨hne, hold⟩
    · exact ⟨old, hold, rfl, by simp [hh]⟩
    · exact ⟨found, hold, rfl, by simp [Ne.symm hne]⟩
  have htotal : ∀ weight : OwnerKey → OwnerState → ℕ,
      (c.installRangesLocked key ranges).owners.total weight + weight key state =
        c.owners.total weight + weight key { state with ranges := ranges } :=
    fun weight => Table.total_modify _ weight hg
  exact {
    exclusion := hl.exclusion.install hnew
    owned := by
      intro other found hfd
      obtain ⟨old, hold, -⟩ := Table.of_get?_modify hfd
      exact (hl.owned hold).of_frame hf
    populated := by
      intro other found hfd hnot
      rcases Table.modify_cases hfd with ⟨old, hold, rfl, rfl⟩ | ⟨-, hold⟩
      · cases hg.symm.trans hold
        exact hkeep.resolve_left hnot
      · exact hl.populated hold hnot
    ranges := by
      have hsum := htotal rangeCount
      have hold := hl.ranges
      simp only [rangeCount] at hsum
      simp only [Coordinator.installRangesLocked, hh] at hsum ⊢
      omega
    sessionRanges := by
      intro id found hfd
      obtain ⟨old, hold, -, hra⟩ := hse hfd
      have hsum := htotal (sessionRangeCount id)
      have hbefore := hl.sessionRanges hold
      simp only [sessionRangeCount] at hsum
      by_cases heq : key.session = id
      · simp only [heq, if_true] at hsum ⊢
        omega
      · simp only [heq, if_false] at hsum ⊢
        omega
    rangesBound := by
      simp only [Coordinator.installRangesLocked, hh]
      omega
    sessionRangesBound := by
      intro id found hfd
      obtain ⟨old, hold, hoptions, hra⟩ := hse hfd
      have hbefore := hl.sessionRangesBound hold
      rw [hra, hoptions]
      by_cases heq : key.session = id
      · subst heq
        cases hs.symm.trans hold
        omega
      · omega
    queue := by
      apply hl.queue.of_frame hf rfl
      · exact fun _ => Table.map_get?_modify _ _ _ _ fun _ => rfl
      · exact fun _ => Table.map_get?_modify _ _ _ _ fun _ => rfl
      · intro ref a a' hk hheap
        have hsm : a' = a := Option.some.inj
          (hheap.symm.trans hk.heap)
        subst hsm
        exact ⟨rfl, fun _ => rfl⟩ }

end Ledger

/-! ## Creating and pruning owner states -/

lemma Coordinator.waitersOf_pos {select : OwnerKey → Bool} (hm : ref ∈ c.waiting)
    (hg : c.heap ref = some a) (hselect : select a.key = true) : 0 < c.waitersOf select := by
  apply List.countP_pos_iff.mpr
  exact ⟨ref, hm, by simp [Coordinator.keyOf, hg, hselect]⟩

namespace Ledger

variable {slack : Set OwnerKey} {c : Coordinator}

lemma pruneOwnerLocked (hl : Ledger slack c) (key : OwnerKey) :
    Ledger (slack \ {key}) (c.pruneOwnerLocked key) := by
  have hf := c.pruneOwnerLocked_frame key
  unfold Coordinator.pruneOwnerLocked at hf ⊢
  cases hg : c.owners.get? key with
  | none =>
    refine { hl with populated := fun hot hnot => ?_ }
    apply hl.populated hot
    intro hin
    apply hnot
    refine ⟨hin, ?_⟩
    rintro rfl
    cases hg.symm.trans hot
  | some state =>
    have hp := hl.queue.ownerPending hg
    simp only [hg] at hf ⊢
    split
    · next hempty =>
      rw [if_pos hempty] at hf
      exact {
        exclusion := hl.exclusion.of_ranges fun hfd =>
          .inr ⟨_, (Table.erase_cases hfd).2, rfl⟩
        owned := fun hfd => (hl.owned (Table.erase_cases hfd).2).of_frame hf
        populated := by
          intro other found hfd hnot
          obtain ⟨hne, hold⟩ := Table.erase_cases hfd
          exact hl.populated hold fun hin => hnot ⟨hin, hne⟩
        ranges := by
          have hsum := Table.total_erase rangeCount hg
          have hzero : rangeCount key state = 0 := hempty.1
          have hold := hl.ranges
          change c.ranges = ((c.owners.erase key).total rangeCount : ℤ)
          omega
        sessionRanges := by
          intro id s hs
          have hsum := Table.total_erase (sessionRangeCount id) hg
          have hzero : sessionRangeCount id key state = 0 := by simp [sessionRangeCount, hempty.1]
          have hold := hl.sessionRanges hs
          change s.ranges = ((c.owners.erase key).total (sessionRangeCount id) : ℤ)
          omega
        rangesBound := hl.rangesBound
        sessionRangesBound := hl.sessionRangesBound
        queue := { hl.queue with
          waiting := hl.queue.waiting
          unsettled := hl.queue.unsettled
          queued := by
            intro ref a hm ha
            obtain ⟨found, hfd⟩ := hl.queue.queued hm ha
            refine ⟨found, ?_⟩
            rw [Table.get?_erase_ne, hfd]
            intro heq
            have hpos : 0 < c.waitersOf fun other =>
                decide (other = key) :=
              waitersOf_pos hm ha (by simpa using heq)
            omega
          ownerPending := fun hfd => hl.queue.ownerPending (Table.erase_cases hfd).2 } }
    next hnonempty =>
    refine { hl with populated := fun {other} {found} hot hnot => ?_ }
    by_cases hin : other ∈ slack
    · have heq : other = key := by
        by_contra hne
        exact hnot ⟨hin, hne⟩
      subst heq
      cases hg.symm.trans hot
      rw [List.length_eq_zero_iff] at hnonempty
      by_cases hra : state.ranges = []
      · right
        have hpositive : state.pending ≠ 0 := fun hzero => hnonempty ⟨hra, hzero⟩
        omega
      · exact .inl hra
    · exact hl.populated hot hin

lemma ownerLocked (hl : Ledger slack c) (howned : Owned c key) :
    Ledger (insert key slack) (c.ownerLocked key) ∧
      ∃ state, (c.ownerLocked key).owners.get? key = some state := by
  have hf := c.ownerLocked_frame key
  unfold Coordinator.ownerLocked at hf ⊢
  cases hg : c.owners.get? key with
  | some state => exact ⟨hl.mono (Set.subset_insert key slack), state, hg⟩
  | none =>
    simp only [hg] at hf ⊢
    refine ⟨?_, _, Table.get?_set_self ..⟩
    exact {
      exclusion := by
        apply hl.exclusion.of_ranges
        intro other found hfd
        rcases Table.set_cases hfd with ⟨-, rfl⟩ | ⟨-, hold⟩
        · exact .inl rfl
        · exact .inr ⟨found, hold, rfl⟩
      owned := by
        intro other found hfd
        rcases Table.set_cases hfd with ⟨rfl, -⟩ | ⟨-, hold⟩
        · exact howned.of_frame hf
        · exact (hl.owned hold).of_frame hf
      populated := by
        intro other found hfd hnot
        rcases Table.set_cases hfd with ⟨rfl, -⟩ | ⟨-, hold⟩
        · exact absurd (Set.mem_insert other slack) hnot
        · exact hl.populated hold fun hin => hnot (Set.mem_insert_of_mem key hin)
      ranges := by
        rw [Table.total_set_of_none _ _ hg, hl.ranges]
        rfl
      sessionRanges := by
        intro id s hs
        rw [Table.total_set_of_none _ _ hg, hl.sessionRanges hs]
        simp [sessionRangeCount]
      rangesBound := hl.rangesBound
      sessionRangesBound := hl.sessionRangesBound
      queue := { hl.queue with
        waiting := hl.queue.waiting
        unsettled := hl.queue.unsettled
        queued := by
          intro ref a hm ha
          obtain ⟨found, hfd⟩ := hl.queue.queued hm ha
          refine ⟨found, ?_⟩
          rw [Table.get?_set_ne, hfd]
          rintro rfl
          cases hg.symm.trans hfd
        ownerPending := by
          intro other found hfd
          rcases Table.set_cases hfd with ⟨rfl, rfl⟩ | ⟨-, hold⟩
          · symm
            rw [Nat.cast_eq_zero, Coordinator.waitersOf, List.countP_eq_zero]
            intro ref hm hkey
            obtain ⟨a, hk, -⟩ := hl.queue.waiting.mp hm
            simp only [Coordinator.keyOf, hk.heap, Option.map_some,
              Option.any_some, decide_eq_true_eq] at hkey
            obtain ⟨found, hfd⟩ := hl.queue.queued hm hk.heap
            rw [hkey, hg] at hfd
            cases hfd
          · exact hl.queue.ownerPending hold } }

end Ledger

variable {state : AttemptState} {rejection : Option RejectionCode}

/-! ## Leaving and joining the waiting list -/

lemma Coordinator.settleLocked_heap_self (hg : c.heap ref = some a) :
    (c.settleLocked ref action state rejection).heap ref =
      some (a.completed state rejection (c.time + c.historyOf action.key.session)) := by
  simp [settleLocked, Coordinator.modifyRequest, ticked, hg]

lemma Coordinator.settleLocked_heap_ne (hne : other ≠ ref) :
    (c.settleLocked ref action state rejection).heap other = c.heap other := by
  simp [settleLocked, Coordinator.modifyRequest, ticked, hne]

lemma Coordinator.waitersOf_erase (hm : ref ∈ c.waiting)
    (hg : c.heap ref = some a) (select : OwnerKey → Bool) :
    ((c.waiting.erase ref).countP fun other => (c.keyOf other).any select : ℤ) =
      c.waitersOf select - if select a.key then 1 else 0 := by
  have hselected : ((c.keyOf ref).any select) = select a.key := by simp [Coordinator.keyOf, hg]
  rw [List.countP_erase, hselected]
  by_cases hkey : select a.key = true
  · have hpos := waitersOf_pos hm hg hkey
    unfold waitersOf at hpos ⊢
    simp only [hm, hkey, and_self, if_true]
    omega
  · simp [hkey, waitersOf]

variable {owner : OwnerState}

/-- One request joins or leaves the waiters of its key and session; `step` is
what happens to the counters. -/
lemma Queue.adjust (hqu : Queue c) (hf : Frame c c') {count : ℤ → ℤ}
    (hcount : ∀ x, count x = x + step) (howner : c.owners.get? a.key = some owner)
    (hown : c'.owners = c.owners.modify a.key fun o => { o with pending := count o.pending })
    (hse : c'.sessions = c.sessions.modify a.key.session fun s =>
      { s with pending := count s.pending })
    (hheap : ∀ {other}, other ≠ ref → c'.heap other = c.heap other)
    (hm : ∀ {other}, other ≠ ref → (other ∈ c'.waiting ↔ other ∈ c.waiting))
    (hself : ∀ {a'}, Retained c' ref a' → a'.key = a.key ∧
      (ref ∈ c'.waiting ↔ a'.pending = true) ∧
      (a'.pending = true → a'.result.state = .pending))
    (hls : ref ∈ c'.waiting → ∃ a', Retained c' ref a')
    (hwaiters : ∀ select : OwnerKey → Bool, (c'.waitersOf select : ℤ) =
      c.waitersOf select + if select a.key then step else 0) (hnodup : c'.waiting.Nodup)
    (hbound : (c'.waiting.length : ℤ) ≤ c.config.maxWaiters) : Queue c' := by
  -- another request is what it was
  have hot : ∀ {other b'}, other ≠ ref → Retained c' other b' →
      Retained c other b' := by
    intro other b' hne hb'
    obtain ⟨b, hb⟩ := hb'.back hf
    cases (hheap hne).symm.trans hb'.heap ▸ hb.heap
    exact hb
  exact {
    nodup := hnodup
    waiting := by
      intro other
      by_cases heq : other = ref
      · subst heq
        refine ⟨fun hin => ?_, fun ⟨a', ha', hp⟩ => (hself ha').2.1.mpr hp⟩
        obtain ⟨a', ha'⟩ := hls hin
        exact ⟨a', ha', (hself ha').2.1.mp hin⟩
      rw [hm heq, hqu.waiting]
      constructor
      · rintro ⟨b, hb, hp⟩
        obtain ⟨b', hb'⟩ := hb.of_frame hf
        cases hb.heap.symm.trans (hot heq hb').heap
        exact ⟨b, hb', hp⟩
      · rintro ⟨b', hb', hp⟩
        exact ⟨b', hot heq hb', hp⟩
    unsettled := by
      intro other b' hb' hp
      by_cases heq : other = ref
      · subst heq
        exact (hself hb').2.2 hp
      · exact hqu.unsettled (hot heq hb') hp
    queued := by
      intro other b' hin hg
      rw [hown]
      by_cases heq : other = ref
      · subst heq
        obtain ⟨a', ha'⟩ := hls hin
        cases hg.symm.trans ha'.heap
        rw [(hself ha').1]
        exact ⟨_, Table.get?_modify_of_some howner⟩
      · rw [hheap heq] at hg
        obtain ⟨state, hst⟩ := hqu.queued ((hm heq).mp hin) hg
        exact ⟨_, Table.get?_modify_of_some hst⟩
    ownerPending := by
      intro key found hfd
      rw [hwaiters]
      rw [hown] at hfd
      rcases Table.modify_cases hfd with ⟨old, hold, rfl, rfl⟩ | ⟨hne, hold⟩
      · simp [hcount, hqu.ownerPending hold]
      · simp [Ne.symm hne, hqu.ownerPending hold]
    sessionPending := by
      intro id found hfd
      rw [hwaiters]
      rw [hse] at hfd
      rcases Table.modify_cases hfd with ⟨old, hold, rfl, rfl⟩ | ⟨hne, hold⟩
      · simp [hcount, hqu.sessionPending hold]
      · simp [Ne.symm hne, hqu.sessionPending hold]
    bound := by
      rw [hf.config]
      exact hbound }

namespace Ledger

variable {slack : Set OwnerKey} {c : Coordinator}

lemma withdraw (hl : Ledger slack c) (hk : Retained c ref a)
    (hp : a.pending = true) (state : AttemptState) (rejection : Option RejectionCode) :
    Ledger (insert a.key slack)
      ((c.settleLocked ref a state rejection).withdrawLocked ref a.key) := by
  have hsettled := c.settleLocked_frame ref a state rejection
  have hf := hsettled.trans (withdrawLocked_frame _ ref a.key)
  have hm := hl.queue.waiting.mpr ⟨a, hk, hp⟩
  obtain ⟨owner, howner⟩ := hl.queue.queued hm hk.heap
  have hnodup := hl.queue.nodup
  apply hl.of_ranges hf
  · exact fun _ => Table.map_get?_modify _ _ _ _ fun _ => rfl
  · exact fun _ => Table.map_get?_modify _ _ _ _ fun _ => rfl
  · rfl
  · intro key found hfd hnot
    rcases Table.modify_cases hfd with ⟨-, -, rfl, -⟩ | ⟨-, hold⟩
    · exact absurd (Set.mem_insert _ _) hnot
    · exact hl.populated hold fun hin => hnot (Set.mem_insert_of_mem _ hin)
  · have hgone : ref ∉ c.waiting.erase ref := fun hin => (hnodup.mem_erase_iff.mp hin).1 rfl
    refine hl.queue.adjust hf (fun x => sub_eq_add_neg x 1) howner rfl
      rfl settleLocked_heap_ne
      (fun hne => hnodup.mem_erase_iff.trans (and_iff_right hne)) ?_
      (fun hin => absurd hin hgone) ?_ (hnodup.erase ref) ?_
    · intro a' ha'
      cases (settleLocked_heap_self hk.heap).symm.trans ha'.heap
      refine ⟨rfl, ⟨fun hin => absurd hin hgone, fun hno => ?_⟩, fun hno => ?_⟩
      · cases hno
      · cases hno
    · intro select
      have herase := waitersOf_erase hm hk.heap select
      simp only [Coordinator.waitersOf, hf.keyOf] at herase ⊢
      refine herase.trans ?_
      split
      · rfl
      · simp
    · have hle : (c.waiting.erase ref).length ≤ c.waiting.length := List.erase_sublist.length_le
      have hbound := hl.queue.bound
      change ((c.waiting.erase ref).length : ℤ) ≤ c.config.maxWaiters
      omega

lemma completeLocked (hl : Ledger slack c) (hk : Retained c ref a) (state : AttemptState)
    (rejection : Option RejectionCode) : Ledger slack (c.completeLocked ref state rejection) := by
  unfold Coordinator.completeLocked
  simp only [hk.heap]
  split
  · next hp =>
    apply ((hl.withdraw hk hp state rejection).pruneOwnerLocked a.key).mono
    rintro key ⟨hin, hne⟩
    exact (Set.mem_insert_iff.mp hin).resolve_left hne
  next hp =>
  refine hl.of_frame (c.settleLocked_frame ref a state rejection) rfl
    rfl rfl rfl ?_
  intro other b b' hb hb'
  by_cases heq : other = ref
  · subst heq
    have hsm : b = a := Option.some.inj
      (hb.heap.symm.trans hk.heap)
    subst hsm
    rw [settleLocked_heap_self hk.heap, Option.some.injEq] at hb'
    subst hb'
    refine ⟨?_, fun h => absurd h hp⟩
    simpa [Request.completed] using hp
  · rw [settleLocked_heap_ne heq, hb.heap, Option.some.injEq] at hb'
    subst hb'
    exact ⟨rfl, fun _ => rfl⟩

lemma enqueueLocked (hl : Ledger slack c) (hk : Retained c ref a)
    (hp : a.pending = false) (hst : a.result.state = .pending)
    (howner : c.owners.get? a.key = some owner) (hroom : c.waitersFull a.key = false) :
    Ledger slack (c.enqueueLocked ref a.key) := by
  have hf := c.enqueueLocked_frame ref a.key
  have hnot : ref ∉ c.waiting := by
    intro hm
    obtain ⟨b, hb, hbpending⟩ := hl.queue.waiting.mp hm
    cases hb.heap.symm.trans hk.heap
    cases hp.symm.trans hbpending
  have hself : (c.enqueueLocked ref a.key).heap ref = some a.await := by
    simp [Coordinator.enqueueLocked, Coordinator.modifyRequest, hk.heap]
  apply hl.of_ranges hf
  · exact fun _ => Table.map_get?_modify _ _ _ _ fun _ => rfl
  · exact fun _ => Table.map_get?_modify _ _ _ _ fun _ => rfl
  · rfl
  · intro key found hfd hnotSlack
    rcases Table.modify_cases hfd with ⟨old, hold, rfl, rfl⟩ | ⟨-, hold⟩
    · refine (hl.populated hold hnotSlack).imp_right fun hpos => ?_
      change 0 < old.pending + 1
      omega
    · exact hl.populated hold hnotSlack
  · refine hl.queue.adjust hf (fun _ => rfl) howner rfl rfl
      (fun {other} (hne : other ≠ ref) => ?_) (fun {other} hne => ?_) ?_
      (fun _ => ?_) ?_ ?_ ?_
    · simp [Coordinator.enqueueLocked, Coordinator.modifyRequest, hne]
    · change other ∈ c.waiting ++ [ref] ↔ _
      simp [hne]
    · intro a' ha'
      cases hself.symm.trans ha'.heap
      exact ⟨rfl, ⟨fun _ => rfl, fun _ => List.mem_append_right _
        (List.mem_singleton_self ref)⟩, fun _ => hst⟩
    · obtain ⟨a', ha'⟩ := hk.of_frame hf
      exact ⟨a', ha'⟩
    · intro select
      simp only [Coordinator.waitersOf, hf.keyOf]
      change (((c.waiting ++ [ref]).countP _ : ℕ) : ℤ) = _
      simp [Coordinator.keyOf, hk.heap, List.countP_cons]
    · change (c.waiting ++ [ref]).Nodup
      rw [← List.concat_eq_append]
      exact hl.queue.nodup.concat hnot
    change ((c.waiting ++ [ref]).length : ℤ) ≤ c.config.maxWaiters
    unfold waitersFull at hroom
    obtain ⟨s, hs, -⟩ := hk.listed
    simp only [hs, Bool.or_eq_false_iff, decide_eq_false_iff_not] at hroom
    simp only [List.length_append, List.length_singleton]
    omega

end Ledger

/-! ## Opening a request -/

/-- The coordinator a request starts from: its owner state exists. -/
def Coordinator.begunLocked (c : Coordinator) (ref : RequestRef) (key : OwnerKey) : Coordinator :=
  { c.ownerLocked key with log := c.log ++ [Event.started ref] }

structure Begins (c : Coordinator) (key : OwnerKey) (c' : Coordinator) : Prop where
  frame : Frame c c'
  heap : c'.heap = c.heap
  waiting : c'.waiting = c.waiting
  owner : ∃ state, c'.owners.get? key = some state
  ledger : Ledger (insert key ∅) c'

lemma Ledger.begins (hl : Ledger ∅ c) (howned : Owned c key) (ref : RequestRef) :
    Begins c key (c.begunLocked ref key) := by
  obtain ⟨hcreated, howner⟩ := hl.ownerLocked howned
  refine ⟨{ c.ownerLocked_frame key with }, ?_, ?_, howner,
    { hcreated with queue := { hcreated.queue with } }⟩
  all_goals
    unfold Coordinator.begunLocked Coordinator.ownerLocked
    split <;> rfl

lemma Directory.first_command (hdir : Directory c) (hg : c.heap ref = some action) :
    ∃ first rest, action.commands = first :: rest :=
  List.exists_cons_of_ne_nil (hdir.admitted hg).nonempty

lemma startLocked_eq (hg : c.heap ref = some action) (hlist : action.commands = first :: rest) :
    c.startLocked ref = ((c.begunLocked ref action.key).startOwned ref action
      first).pruneOwnerLocked action.key := by
  simp only [Coordinator.startLocked, hg, hlist, Coordinator.begunLocked]

end RemoteFs.Advisory
