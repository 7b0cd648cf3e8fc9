import RemoteFs.Lib.Epochs
import RemoteFs.Advisory.Moves

/-!
# Histories execute a request at most once

The requests that a session has ever admitted, its retained history and its
epoch form a deduplication window.  Every move of the coordinator keeps the
windows of all live sessions safe, so a request identity names at most one
action object.  The log shows that a receipt is pruned only after the history
interval that began with its last completion.
-/

namespace RemoteFs.Advisory

open Storage Coordinator

variable {c c' : Coordinator} {s : Session} {ref : RequestRef} {a : Request}

def epochOf (id : LockRequestID) : ℕ :=
  match lockRequestEpoch id with
  | .error _ => 0
  | .ok epoch => epoch

lemma epochOf_eq {id : LockRequestID} {epoch : ℕ}
    (hepoch : lockRequestEpoch id = .ok epoch) : epochOf id = epoch := by
  simp [epochOf, hepoch]

/-- The identities of all action objects that a session ever had. -/
def Coordinator.usedIds (c : Coordinator) (session : ℕ) : Set LockRequestID :=
  {id | ∃ ref a, c.heap ref = some a ∧ a.key.session = session ∧ a.id = id}

def Coordinator.readings (c : Coordinator) : Set Time :=
  {t | ∃ k < c.reads, t = c.now k}

def Memory.window (m : Memory) (used : Set LockRequestID) : Window LockRequestID Time where
  epoch := m.epoch
  deadline := m.epochUntil
  remembered := {id | ∃ ref, m.actions.get? id = some ref}
  used := used

/-- What holds of sessions, histories and request objects along any sequence
of moves. -/
structure Registry (c : Coordinator) : Prop where
  clock : Monotone c.now
  allocated : ∀ {ref a}, c.heap ref = some a → ref < c.allocated
  born : ∀ {ref a}, c.heap ref = some a → a.key.session ≤ c.nextSession
  epoch : ∀ {ref a}, c.heap ref = some a → lockRequestEpoch a.id = .ok a.epoch
  live : ∀ {id s}, c.sessions.get? id = some s → id ≤ c.nextSession
  gone : ∀ {id s}, c.retired.get? id = some s →
    id ≤ c.nextSession ∧ c.sessions.get? id = none ∧ s.actions = .empty
  indexed : ∀ {id s request ref}, c.sessions.get? id = some s →
    s.actions.get? request = some ref →
    ∃ a, c.heap ref = some a ∧ a.id = request ∧ a.key.session = id
  windows : ∀ {id s}, c.sessions.get? id = some s →
    (s.memory.window (c.usedIds id)).Safe epochOf c.readings
  unique : ∀ {ref ref' a a'}, c.heap ref = some a → c.heap ref' = some a' →
    a.key.session = a'.key.session → a.id = a'.id → ref = ref'

/-! ## Moves that leave sessions and identities alone -/

/-- Histories and identities are the same; the clock may have moved. -/
structure Still (c c' : Coordinator) : Prop where
  now : c'.now = c.now
  reads : c.reads ≤ c'.reads
  nextSession : c'.nextSession = c.nextSession
  sessions : ∀ id, (c'.sessions.get? id).map Session.memory =
    (c.sessions.get? id).map Session.memory
  retired : ∀ id, (c'.retired.get? id).map Session.memory = (c.retired.get? id).map Session.memory
  heap : ∀ ref, (c'.heap ref).map Request.identity = (c.heap ref).map Request.identity
  allocated : c'.allocated = c.allocated

lemma Still.of_frame (hf : Frame c c') :
    Still c c' where
  now := hf.now
  reads := hf.reads
  nextSession := hf.nextSession
  sessions := by
    intro id
    have hsm := congrArg (Option.map Session.memory) (hf.sessions id)
    rwa [Option.map_map, Option.map_map] at hsm
  retired := by
    intro id
    rw [hf.retired]
  heap := hf.heap
  allocated := hf.allocated

lemma Still.modifyRequest {change : Request → Request} (hg : c.heap ref = some a)
    (hid : (change a).identity = a.identity) : Still c (c.modifyRequest ref change) := by
  refine ⟨rfl, le_rfl, rfl, fun _ => rfl, fun _ => rfl, fun other => ?_, rfl⟩
  rw [modifyRequest_heap hg]
  by_cases heq : other = ref
  · rw [heq, Function.update_self, hg, Option.map_some, Option.map_some, hid]
  · rw [Function.update_of_ne heq]

lemma Unmoved.still (hsm : Unmoved c c') :
    Still c c' where
  now := hsm.now
  reads := hsm.reads.ge
  nextSession := hsm.nextSession
  sessions := hsm.sessions
  retired := hsm.retired
  heap := fun ref => by rw [hsm.heap]
  allocated := hsm.allocated

namespace Still

variable {c c' : Coordinator}

lemma usedIds (hst : Still c c') (session : ℕ) : c'.usedIds session = c.usedIds session := by
  ext id
  constructor
  · rintro ⟨ref, a', ha', hses, hid⟩
    obtain ⟨a, ha, hide⟩ := of_map_eq (hst.heap ref) ha'
    exact ⟨ref, a, ha, (congrArg (fun i : Identity => i.key.session) hide).trans hses,
      (congrArg Identity.id hide).trans hid⟩
  · rintro ⟨ref, a, ha, hses, hid⟩
    obtain ⟨a', ha', hide⟩ := of_map_eq (hst.heap ref).symm ha
    exact ⟨ref, a', ha', (congrArg (fun i : Identity => i.key.session) hide).trans hses,
      (congrArg Identity.id hide).trans hid⟩

lemma readings (hst : Still c c') : c.readings ⊆ c'.readings := by
  rintro t ⟨k, hk, rfl⟩
  exact ⟨k, hk.trans_le hst.reads, by rw [hst.now]⟩

end Still

lemma Registry.of_still (hreg : Registry c) (hst : Still c c') : Registry c' where
  clock := by
    rw [hst.now]
    exact hreg.clock
  allocated := by
    intro ref a' ha'
    obtain ⟨a, ha, -⟩ := of_map_eq (hst.heap ref) ha'
    rw [hst.allocated]
    exact hreg.allocated ha
  born := by
    intro ref a' ha'
    obtain ⟨a, ha, hide⟩ := of_map_eq (hst.heap ref) ha'
    have hkey : a.key = a'.key := congrArg Identity.key hide
    rw [hst.nextSession, ← hkey]
    exact hreg.born ha
  epoch := by
    intro ref a' ha'
    obtain ⟨a, ha, hide⟩ := of_map_eq (hst.heap ref) ha'
    have hid : a.id = a'.id := congrArg Identity.id hide
    have hepoch : a.epoch = a'.epoch := congrArg Identity.epoch hide
    rw [← hid, ← hepoch]
    exact hreg.epoch ha
  live := by
    intro id s' hs'
    obtain ⟨s, hs, -⟩ := of_map_eq (hst.sessions id) hs'
    rw [hst.nextSession]
    exact hreg.live hs
  gone := by
    intro id s' hs'
    obtain ⟨s, hs, hmemory⟩ := of_map_eq (hst.retired id) hs'
    have hac : s.actions = s'.actions := congrArg Memory.actions hmemory
    obtain ⟨hle, hn, hempty⟩ := hreg.gone hs
    rw [hst.nextSession, ← hac]
    refine ⟨hle, ?_, hempty⟩
    have hsm := hst.sessions id
    rw [hn] at hsm
    exact Option.map_eq_none_iff.mp hsm
  indexed := by
    intro id s' request ref hs' hl
    obtain ⟨s, hs, hmemory⟩ := of_map_eq (hst.sessions id) hs'
    have hac : s.actions = s'.actions := congrArg Memory.actions hmemory
    rw [← hac] at hl
    obtain ⟨a, ha, hid, hses⟩ := hreg.indexed hs hl
    obtain ⟨a', ha', hide⟩ := of_map_eq (hst.heap ref).symm ha
    exact ⟨a', ha', (congrArg Identity.id hide).trans hid,
      (congrArg (fun i : Identity => i.key.session) hide).trans hses⟩
  windows := by
    intro id s' hs'
    obtain ⟨s, hs, hmemory⟩ := of_map_eq (hst.sessions id) hs'
    rw [hst.usedIds, ← hmemory]
    exact (hreg.windows hs).later hst.readings
  unique := by
    intro ref ref' b b' hb hb' hses hid
    obtain ⟨a, ha, hide⟩ := of_map_eq (hst.heap ref) hb
    obtain ⟨a', ha', hid'⟩ := of_map_eq (hst.heap ref') hb'
    have hkey : a.key = b.key := congrArg Identity.key hide
    have hkey' : a'.key = b'.key := congrArg Identity.key hid'
    have hsm : a.id = b.id := congrArg Identity.id hide
    have hsame' : a'.id = b'.id := congrArg Identity.id hid'
    exact hreg.unique ha ha' (by rw [hkey, hkey', hses])
      (by rw [hsm, hsame', hid])

/-! ## Moves of one session -/

section

variable {c : Coordinator}

section

variable (hreg : Registry c)
include hreg

lemma Registry.modifySession (session : ℕ)
    (change : Session → Session) (hac : ∀ s {request ref},
      (change s).actions.get? request = some ref → s.actions.get? request = some ref)
    (hwindow : ∀ {s}, c.sessions.get? session = some s →
      ((change s).memory.window (c.usedIds session)).Safe epochOf
        c.readings) : Registry (c.modifySession session change) := by
  refine { hreg with
    live := ?_, gone := ?_, indexed := ?_, windows := ?_ }
  · intro id s' hs'
    obtain ⟨s, hs, -⟩ := Table.of_get?_modify hs'
    exact hreg.live hs
  · intro id s' hs'
    obtain ⟨s, hs, rfl⟩ := Table.of_get?_modify hs'
    obtain ⟨hle, hn, hempty⟩ := hreg.gone hs
    refine ⟨hle, ?_, ?_⟩
    · change (c.sessions.modify session change).get? id = none
      rw [Table.get?_modify]
      split
      · next heq => rw [← heq, hn, Option.map_none]
      · exact hn
    · split
      · apply Table.eq_empty_of_get?
        intro request
        rw [Option.eq_none_iff_forall_not_mem]
        intro ref hfd
        have hold := hac s hfd
        rw [hempty, Table.get?_empty] at hold
        cases hold
      · exact hempty
  · intro id s' request ref hs' hl
    obtain ⟨s, hs, rfl⟩ := Table.of_get?_modify hs'
    refine hreg.indexed hs ?_
    split at hl
    · exact hac s hl
    · exact hl
  · intro id s' hs'
    obtain ⟨s, hs, rfl⟩ := Table.of_get?_modify hs'
    split
    · next heq =>
      subst heq
      exact hwindow hs
    · exact hreg.windows hs

lemma Registry.prune {k : ℕ} (session : ℕ) (hpast : k < c.reads) :
    Registry (c.pruneHistoryLocked session (c.now k)) := by
  unfold pruneHistoryLocked
  split
  · exact hreg
  have hpruned := hreg.modifySession session
    (Session.forget fun s => c.prunable s (c.now k))
    (fun s _ _ hfd => (Table.get?_filter_iff.mp hfd).1)
    (fun {s} hs => by
      refine (hreg.windows hs).forget ?_
      -- only a request whose epoch is over is forgotten
      rintro id ⟨ref, hl⟩ hforgotten
      have hprunable : c.prunable s (c.now k) ref = true := by
        by_contra hno
        refine hforgotten ⟨ref, ?_⟩
        exact Table.get?_filter_iff.mpr ⟨hl, by simpa using hno⟩
      obtain ⟨a, ha, rfl, -⟩ := hreg.indexed hs hl
      simp only [prunable, ha, Bool.and_eq_true, decide_eq_true_eq] at hprunable
      rw [epochOf_eq (hreg.epoch ha)]
      exact hprunable.1.1.imp_right fun hover => ⟨c.now k, ⟨k, hpast, rfl⟩, hover⟩)
  exact { hpruned with }

lemma Registry.renew (session : ℕ)
    (now : Time) : Registry (c.modifySession session (Session.renew now)) :=
  hreg.modifySession session (Session.renew now) (fun _ _ _ hfd => hfd)
    (fun hs => (hreg.windows hs).renew _)

lemma Registry.enroll {k : ℕ} (hs : c.sessions.get? action.key.session = some s)
    (hnew : s.actions.get? action.id = none) (hid : lockRequestEpoch action.id = .ok s.epoch)
    (hepoch : action.epoch = s.epoch) (hread : c.reads = k + 1) (hlive : c.now k < s.epochUntil) :
    Registry (c.admitLocked action.key.session action) := by
  have hunused : action.id ∉ c.usedIds action.key.session := by
    refine (hreg.windows hs).unused ?_ (epochOf_eq hid) ?_
    · rintro ⟨ref, hl⟩
      change s.actions.get? action.id = some ref at hl
      cases hnew.symm.trans hl
    · rintro t ⟨j, hj, rfl⟩
      exact (hreg.clock (by omega : j ≤ k)).trans_lt hlive
  have hhe : ∀ {ref a},
      (c.admitLocked action.key.session action).heap ref = some a →
      ref = c.allocated ∧ action = a ∨ c.heap ref = some a :=
    fun ha => (heap_cases rfl ha).imp_right And.right
  have hold : ∀ {ref a}, c.heap ref = some a →
      (c.admitLocked action.key.session action).heap ref = some a := by
    intro ref a ha
    change Function.update c.heap c.allocated (some action) ref = some a
    rwa [Function.update_of_ne (hreg.allocated ha).ne]
  have hself : (c.admitLocked action.key.session action).heap c.allocated =
      some action := Function.update_self ..
  have hused : ∀ session, (c.admitLocked action.key.session action).usedIds session =
        if session = action.key.session
        then insert action.id (c.usedIds session) else c.usedIds session := by
    intro session
    ext id
    constructor
    · rintro ⟨ref, a, ha, rfl, rfl⟩
      rcases hhe ha with ⟨-, rfl⟩ | ha
      · rw [if_pos rfl]
        exact Set.mem_insert ..
      · split
        · exact Set.mem_insert_of_mem _ ⟨ref, a, ha, rfl, rfl⟩
        · exact ⟨ref, a, ha, rfl, rfl⟩
    · intro hm
      split at hm
      · next heq =>
        rcases hm with rfl | ⟨ref, a, ha, hses, hsm⟩
        · exact ⟨c.allocated, action, hself, heq.symm, rfl⟩
        · exact ⟨ref, a, hold ha, hses, hsm⟩
      · obtain ⟨ref, a, ha, hses, hsm⟩ := hm
        exact ⟨ref, a, hold ha, hses, hsm⟩
  constructor
  · exact hreg.clock
  · intro ref a ha
    rcases hhe ha with ⟨rfl, -⟩ | ha
    · exact Nat.lt_succ_self _
    · exact Nat.lt_succ_of_lt (hreg.allocated ha)
  · intro ref a ha
    rcases hhe ha with ⟨-, rfl⟩ | ha
    · exact hreg.live hs
    · exact hreg.born ha
  · intro ref a ha
    rcases hhe ha with ⟨-, rfl⟩ | ha
    · rwa [hepoch]
    · exact hreg.epoch ha
  · intro id s' hs'
    obtain ⟨old, hg, -⟩ := Table.of_get?_modify hs'
    exact hreg.live hg
  · intro id s' hs'
    obtain ⟨old, hg, rfl⟩ := Table.of_get?_modify hs'
    obtain ⟨hle, hn, hempty⟩ := hreg.gone hg
    have hne : id ≠ action.key.session := by
      rintro rfl
      cases hs.symm.trans hn
    rw [if_neg hne]
    refine ⟨hle, ?_, hempty⟩
    change (c.sessions.modify action.key.session _).get? id = none
    rwa [Table.get?_modify, if_neg hne]
  · intro id s' request ref hs' hl
    obtain ⟨old, hg, rfl⟩ := Table.of_get?_modify hs'
    split at hl
    · next heq =>
      subst heq
      rcases Table.set_cases hl with ⟨hsm, rfl⟩ | ⟨-, hl⟩
      · exact ⟨action, hself, hsm.symm, rfl⟩
      · obtain ⟨a, ha, hrest⟩ := hreg.indexed hg hl
        exact ⟨a, hold ha, hrest⟩
    · obtain ⟨a, ha, hrest⟩ := hreg.indexed hg hl
      exact ⟨a, hold ha, hrest⟩
  · intro id s' hs'
    obtain ⟨old, hg, rfl⟩ := Table.of_get?_modify hs'
    rw [hused]
    split
    · next heq =>
      subst heq
      cases hs.symm.trans hg
      have hsafe := (hreg.windows hs).use (epochOf_eq hid).le
      refine hsafe.forget ?_
      rintro other hm hforgotten
      refine absurd ?_ hforgotten
      change ∃ ref, (s.actions.set action.id c.allocated).get? other = some ref
      rw [Table.get?_set]
      split
      · exact ⟨_, rfl⟩
      · next hne => exact hm.resolve_left hne
    · exact hreg.windows hg
  · intro ref ref' a a' ha ha' hses hsm
    rcases hhe ha with ⟨rfl, rfl⟩ | hg
    · rcases hhe ha' with ⟨rfl, rfl⟩ | hget'
      · rfl
      · exact absurd ⟨ref', a', hget', hses.symm, hsm.symm⟩ hunused
    · rcases hhe ha' with ⟨rfl, rfl⟩ | hget'
      · exact absurd ⟨ref, a, hg, hses, hsm⟩ hunused
      · exact hreg.unique hg hget' hses hsm

lemma Registry.create (options : FileSessionOptions) : Registry (c.withSession options) := by
  have hticked := hreg.of_still (.of_frame c.ticked_frame)
  refine { hticked with
    born := ?_, live := ?_, gone := ?_, indexed := ?_, windows := ?_ }
  · intro ref a ha
    exact (hreg.born ha).trans (Nat.le_succ _)
  · intro id s hg
    rcases Table.set_cases hg with ⟨rfl, rfl⟩ | ⟨-, hold⟩
    · exact le_rfl
    · exact (hreg.live hold).trans (Nat.le_succ _)
  · intro id s hg
    obtain ⟨hle, hn, hempty⟩ := hreg.gone hg
    refine ⟨hle.trans (Nat.le_succ _), ?_, hempty⟩
    change (c.sessions.set (c.nextSession + 1) _).get? id = none
    rwa [Table.get?_set_ne (Nat.lt_succ_of_le hle).ne]
  · intro id s request ref hg hl
    rcases Table.set_cases hg with ⟨rfl, rfl⟩ | ⟨-, hold⟩
    · cases (Table.get?_empty _).symm.trans hl
    · exact hreg.indexed hold hl
  · intro id s hg
    rcases Table.set_cases hg with ⟨rfl, rfl⟩ | ⟨-, hold⟩
    · apply Window.safe_of_unused
      rw [Set.eq_empty_iff_forall_notMem]
      rintro request ⟨ref, a, ha, hses, -⟩
      have hle := hreg.born ha
      rw [hses] at hle
      exact absurd hle (Nat.not_succ_le_self _)
    · exact hticked.windows hold

variable {session : ℕ}

lemma Registry.dissolve (hs : c.sessions.get? session = some s) :
    Registry (c.dissolve session s) := by
  refine { hreg with
    live := fun hg => hreg.live (Table.erase_cases hg).2
    gone := ?_
    indexed := fun hg => hreg.indexed (Table.erase_cases hg).2
    windows := fun hg => hreg.windows (Table.erase_cases hg).2 }
  intro id found hg
  rcases Table.set_cases hg with ⟨rfl, rfl⟩ | ⟨hne, hg⟩
  · exact ⟨hreg.live hs, Table.get?_erase_self _ _, rfl⟩
  · change _ ∧ (c.sessions.erase session).get? id = none ∧ _
    rw [Table.get?_erase_ne hne]
    exact hreg.gone hg

lemma Registry.move (hmove : Move c c') : Registry c' := by
  cases hmove with
  | quiet hsm => exact hreg.of_still hsm.still
  | tick => exact hreg.of_still (.of_frame c.ticked_frame)
  | @touch ref a change hg hide hexp =>
    exact hreg.of_still (.modifyRequest hg hide)
  | start hg => exact { hreg with }
  | @settle _ _ hkp state _ rejection =>
    exact hreg.of_still (.of_frame (c.settleLocked_frame _ _ _ _))
  | renew hs hpast hdue => exact hreg.renew _ _
  | prune session hpast => exact hreg.prune session hpast
  | enroll action hs hnew hid hepoch hread hlive _ _ =>
    exact hreg.enroll hs hnew hid hepoch hread hlive
  | create hoptions => exact hreg.create _
  | dissolve hs => exact hreg.dissolve hs

end

end

lemma Registry.listed (hreg : Registry c) {id : ℕ} (hknown : c.session? id = some s)
    (hl : s.actions.get? request = some ref) :
    c.sessions.get? id = some s ∧
      ∃ a, c.heap ref = some a ∧ a.id = request ∧ a.key.session = id := by
  unfold Coordinator.session? at hknown
  cases hs : c.sessions.get? id with
  | some found =>
    rw [hs] at hknown
    cases hknown
    exact ⟨rfl, hreg.indexed hs hl⟩
  | none =>
    rw [hs] at hknown
    rw [(hreg.gone hknown).2.2, Table.get?_empty] at hl
    cases hl

/-! ## The log -/

/-- What the log says about completions and prunings. -/
structure Logbook (c : Coordinator) : Prop where
  completed : ∀ {ref t}, .completed ref t ∈ c.log → t ∈ c.readings ∧ ∃ a, c.heap ref = some a
  expires : ∀ {ref t a s}, .completed ref t ∈ c.log → c.heap ref = some a →
    c.session? a.key.session = some s → t + s.options.history ≤ a.expires
  pruned : ∀ {ref t}, .pruned ref t ∈ c.log → ∃ a, c.heap ref = some a ∧ a.expires ≤ t ∧
      ∀ s, c.sessions.get? a.key.session = some s → s.actions.get? a.id ≠ some ref

/-- Moves that record no completion and no pruning, keep expiry times and
bring nothing back into a history. -/
lemma Logbook.transfer (hlo : Logbook c)
    (hlog : ∀ event ∈ c'.log, event ∈ c.log ∨ ∃ ref, event = .started ref)
    (hreadings : c.readings ⊆ c'.readings) (hhe : ∀ {ref a}, c.heap ref = some a →
      ∃ a', c'.heap ref = some a' ∧ a'.identity = a.identity ∧
        a'.expires = a.expires) (hses : ∀ {ref a s'}, c.heap ref = some a →
      c'.session? a.key.session = some s' →
      ∃ s, c.session? a.key.session = some s ∧ s'.options = s.options)
    (hac : ∀ {ref a s'}, c.heap ref = some a → c'.sessions.get? a.key.session = some s' →
      s'.actions.get? a.id = some ref →
      ∃ s, c.sessions.get? a.key.session = some s ∧
        s.actions.get? a.id = some ref) : Logbook c' where
  completed := by
    intro ref t hm
    rcases hlog _ hm with hold | ⟨_, hev⟩
    · obtain ⟨ht, a, ha⟩ := hlo.completed hold
      obtain ⟨a', ha', -⟩ := hhe ha
      exact ⟨hreadings ht, a', ha'⟩
    · cases hev
  expires := by
    intro ref t a' s' hm ha' hs'
    rcases hlog _ hm with hold | ⟨_, hev⟩
    · obtain ⟨-, a, ha⟩ := hlo.completed hold
      obtain ⟨b, hb, hide, hexp⟩ := hhe ha
      have hsm : b = a' := Option.some.inj (hb.symm.trans ha')
      subst hsm
      have hkey : b.key = a.key := congrArg Identity.key hide
      rw [hkey] at hs'
      obtain ⟨s, hs, hoptions⟩ := hses ha hs'
      rw [hoptions, hexp]
      exact hlo.expires hold ha hs
    · cases hev
  pruned := by
    intro ref t hm
    rcases hlog _ hm with hold | ⟨_, hev⟩
    · obtain ⟨a, ha, hexp, hgone⟩ := hlo.pruned hold
      obtain ⟨a', ha', hide, hsm⟩ := hhe ha
      have hkey : a'.key = a.key := congrArg Identity.key hide
      have hid : a'.id = a.id := congrArg Identity.id hide
      refine ⟨a', ha', hsm ▸ hexp, fun s' hs' hl => ?_⟩
      rw [hkey] at hs'
      rw [hid] at hl
      obtain ⟨s, hs, hlisted'⟩ := hac ha hs' hl
      exact hgone s hs hlisted'
    · cases hev

lemma Still.session? (hst : Still c c') (id : ℕ) :
    (c'.session? id).map Session.memory = (c.session? id).map Session.memory :=
  session?_map Session.memory (hst.sessions id) (hst.retired id)

lemma Logbook.of_still (hlo : Logbook c) (hst : Still c c')
    (hlog : ∀ event ∈ c'.log, event ∈ c.log ∨ ∃ ref, event = .started ref)
    (hexp : ∀ {ref a a'}, c.heap ref = some a → c'.heap ref = some a' →
      a'.expires = a.expires) : Logbook c' := by
  refine hlo.transfer hlog hst.readings ?_ ?_ ?_
  · intro ref a ha
    obtain ⟨a', ha', hid⟩ := of_map_eq (hst.heap ref).symm ha
    exact ⟨a', ha', hid, hexp ha ha'⟩
  · intro ref a s' _ hs'
    obtain ⟨s, hs, hmemory⟩ := of_map_eq (hst.session? _) hs'
    exact ⟨s, hs, (congrArg Memory.options hmemory).symm⟩
  · intro ref a s' _ hs' hl
    obtain ⟨s, hs, hmemory⟩ := of_map_eq (hst.sessions _) hs'
    have hac : s.actions = s'.actions := congrArg Memory.actions hmemory
    exact ⟨s, hs, hac ▸ hl⟩

/-- A change of session records that keeps options and lengthens no history,
as far as old requests are concerned. -/
lemma Logbook.modifySession (hlo : Logbook c) (session : ℕ)
    (change : Session → Session) (hoptions : ∀ s, (change s).options = s.options)
    (hac : ∀ s {request ref}, (change s).actions.get? request = some ref →
        s.actions.get? request = some ref) : Logbook (c.modifySession session change) := by
  refine hlo.transfer (fun _ h => .inl h) Set.Subset.rfl (fun ha => ⟨_, ha, rfl, rfl⟩) ?_ ?_
  · intro ref a s' _ hs'
    rw [session?_modifySession] at hs'
    split at hs'
    · obtain ⟨s, hs, rfl⟩ := Option.map_eq_some_iff.mp hs'
      exact ⟨s, hs, hoptions s⟩
    · exact ⟨s', hs', rfl⟩
  · intro ref a s' _ hs' hl
    obtain ⟨s, hs, rfl⟩ := Table.of_get?_modify hs'
    refine ⟨s, hs, ?_⟩
    split at hl
    · exact hac s hl
    · exact hl

section

variable {c : Coordinator}

section

variable (hlo : Logbook c)
include hlo

lemma Logbook.settle (hreg : Registry c) (hkp : Retained c ref a) (state : AttemptState)
    (rejection : Option RejectionCode) : Logbook (c.settleLocked ref a state rejection) := by
  have hst : Still c (c.settleLocked ref a state rejection) :=
    .of_frame (c.settleLocked_frame ref a state rejection)
  have hlog : ∀ {event}, event ∈ (c.settleLocked ref a state rejection).log →
      event ∈ c.log ∨ event = .completed ref c.time ∨ event = .entered ref state := by
    intro event hm
    rcases List.mem_append.mp hm with hold | hnew
    · exact .inl hold
    · simpa using Or.inr hnew
  have hself : (c.settleLocked ref a state rejection).heap ref =
      some (a.completed state rejection (c.time + c.historyOf a.key.session)) := by
    change Function.update c.heap ref ((c.heap ref).map _) ref = _
    rw [Function.update_self, hkp.heap]
    rfl
  have hother : ∀ {other}, other ≠ ref →
      (c.settleLocked ref a state rejection).heap other = c.heap other :=
    fun hne => Function.update_of_ne hne ..
  obtain ⟨s, hs, hl⟩ := hkp.listed
  have hhistory : c.historyOf a.key.session = s.options.history := by simp [historyOf, hs]
  have hknown : c.session? a.key.session = some s := by simp [Coordinator.session?, hs]
  refine ⟨?_, ?_, ?_⟩
  · intro other t hm
    rcases hlog hm with hold | hev | hev
    · obtain ⟨ht, b, hb⟩ := hlo.completed hold
      obtain ⟨b', hb', -⟩ := of_map_eq (hst.heap other).symm hb
      exact ⟨hst.readings ht, b', hb'⟩
    · cases hev
      exact ⟨⟨c.reads, Nat.lt_succ_self _, rfl⟩, _, hself⟩
    · cases hev
  · intro other t b found hm hb hfd
    by_cases heq : other = ref
    · subst heq
      cases hself.symm.trans hb
      change c.session? a.key.session = some found at hfd
      cases hknown.symm.trans hfd
      rw [hhistory]
      rcases hlog hm with hold | hev | hev
      · obtain ⟨⟨k, hk, rfl⟩, -⟩ := hlo.completed hold
        exact add_le_add_left (hreg.clock hk.le) _
      · cases hev
        exact le_rfl
      · cases hev
    rw [hother heq] at hb
    rcases hlog hm with hold | hev | hev
    · exact hlo.expires hold hb hfd
    · cases hev
      exact absurd rfl heq
    · cases hev
  · intro other t hm
    rcases hlog hm with hold | hev | hev
    · obtain ⟨b, hb, hexp, hgone⟩ := hlo.pruned hold
      have hne : other ≠ ref := by
        rintro rfl
        have hsm : b = a := Option.some.inj (hb.symm.trans hkp.heap)
        subst hsm
        exact hgone s hs hl
      exact ⟨b, (hother hne).trans hb, hexp, hgone⟩
    · cases hev
    · cases hev

lemma Logbook.prune (hreg : Registry c) (session : ℕ) (now : Time) :
    Logbook (c.pruneHistoryLocked session now) := by
  unfold pruneHistoryLocked
  split
  · exact hlo
  next known hknown =>
  have hbase := hlo.modifySession session
    (Session.forget fun s => c.prunable s now) (fun _ => rfl)
    (fun s _ _ hfd => (Table.get?_filter_iff.mp hfd).1)
  have hlog : ∀ {event}, event ∈ c.log ++ ((known.actions.filter
      fun _ ref => c.prunable known now ref).toList.map fun entry => Event.pruned entry.2 now) →
      event ∈ c.log ∨ ∃ id ref, event = .pruned ref now ∧ known.actions.get? id = some ref ∧
        c.prunable known now ref = true := by
    intro event hm
    rcases List.mem_append.mp hm with hold | hnew
    · exact .inl hold
    obtain ⟨⟨id, ref⟩, hentry, rfl⟩ := List.mem_map.mp hnew
    obtain ⟨hl, hprunable⟩ := Table.get?_filter_iff.mp (Table.mem_toList.mp hentry)
    exact .inr ⟨id, ref, rfl, hl, hprunable⟩
  refine ⟨?_, ?_, ?_⟩
  · intro ref t hm
    rcases hlog hm with hold | ⟨_, _, hev, -⟩
    · exact hbase.completed hold
    · cases hev
  · intro ref t a s hm
    rcases hlog hm with hold | ⟨_, _, hev, -⟩
    · exact hbase.expires hold
    · cases hev
  · intro ref t hm
    rcases hlog hm with hold | ⟨id, _, hev, hl, hprunable⟩
    · exact hbase.pruned hold
    cases hev
    -- the pruned request is due and has just left its history
    obtain ⟨hs, a, ha, rfl, rfl⟩ := hreg.listed hknown hl
    refine ⟨a, ha, ?_, ?_⟩
    · simp only [prunable, ha, Bool.and_eq_true, decide_eq_true_eq] at hprunable
      exact hprunable.2
    · intro s' hs' hkp
      change (c.sessions.modify a.key.session _).get? a.key.session = some s' at hs'
      rw [Table.get?_modify_self, hs, Option.map_some, Option.some.injEq] at hs'
      subst hs'
      have hstays := (Table.get?_filter_iff.mp hkp).2
      change (!c.prunable known now ref) = true at hstays
      rw [hprunable] at hstays
      cases hstays

lemma Logbook.enroll (hreg : Registry c) (action : Request) :
    Logbook (c.admitLocked action.key.session action) := by
  refine hlo.transfer (fun _ h => .inl h) Set.Subset.rfl ?_ ?_ ?_
  · intro ref a ha
    refine ⟨a, ?_, rfl, rfl⟩
    change Function.update c.heap c.allocated (some action) ref = some a
    rwa [Function.update_of_ne (hreg.allocated ha).ne]
  · intro ref a s' _ hs'
    change (c.modifySession action.key.session
      (Session.record action.id c.allocated)).session? _ = some s' at hs'
    rw [session?_modifySession] at hs'
    split at hs'
    · obtain ⟨s, hs, rfl⟩ := Option.map_eq_some_iff.mp hs'
      exact ⟨s, hs, rfl⟩
    · exact ⟨s', hs', rfl⟩
  · intro ref a s' ha hs' hl
    obtain ⟨s, hs, rfl⟩ := Table.of_get?_modify hs'
    refine ⟨s, hs, ?_⟩
    split at hl
    · rcases Table.set_cases hl with ⟨-, rfl⟩ | ⟨-, hl⟩
      · exact absurd (hreg.allocated ha) (lt_irrefl _)
      · exact hl
    · exact hl

lemma Logbook.create (hreg : Registry c) (options : FileSessionOptions) :
    Logbook (c.withSession options) := by
  have hold : ∀ {ref a}, c.heap ref = some a →
      a.key.session ≠ c.nextSession + 1 :=
    fun ha => (Nat.lt_succ_of_le (hreg.born ha)).ne
  refine hlo.transfer (fun _ h => .inl h) ?_ (fun ha => ⟨_, ha, rfl, rfl⟩) ?_ ?_
  · rintro t ⟨k, hk, rfl⟩
    exact ⟨k, Nat.lt_succ_of_lt hk, rfl⟩
  · intro ref a s' ha hs'
    rw [session?_withSession, if_neg (hold ha)] at hs'
    exact ⟨s', hs', rfl⟩
  · intro ref a s' ha hs' hl
    change (c.sessions.set (c.nextSession + 1) _).get? _ = some s' at hs'
    rw [Table.get?_set_ne (hold ha)] at hs'
    exact ⟨s', hs', hl⟩

lemma Logbook.dissolve (hs : c.sessions.get? session = some s) :
    Logbook (c.dissolve session s) := by
  refine hlo.transfer (fun _ h => .inl h) Set.Subset.rfl (fun ha => ⟨_, ha, rfl, rfl⟩) ?_ ?_
  · intro ref a s' _ hs'
    rw [session?_dissolve] at hs'
    split at hs'
    · next heq =>
      cases hs'
      refine ⟨s, ?_, rfl⟩
      simp [Coordinator.session?, heq, hs]
    · exact ⟨s', hs', rfl⟩
  · intro ref a s' _ hs' hl
    exact ⟨s', (Table.erase_cases hs').2, hl⟩

lemma Logbook.move (hreg : Registry c) (hmove : Move c c') : Logbook c' := by
  cases hmove with
  | quiet hsm =>
    refine hlo.of_still hsm.still ?_ ?_
    · rw [hsm.log]
      exact fun _ h => .inl h
    · intro ref a a' ha ha'
      rw [hsm.heap, ha] at ha'
      cases ha'
      rfl
  | tick =>
    refine hlo.of_still (.of_frame c.ticked_frame) (fun _ h => .inl h) ?_
    intro ref a a' ha ha'
    have hsm : a = a' := Option.some.inj (ha.symm.trans ha')
    rw [hsm]
  | @touch ref a change hg hide hexp =>
    have hhe := modifyRequest_heap hg change
    refine hlo.of_still (.modifyRequest hg hide) (fun _ h => .inl h) ?_
    intro other b b' hb hb'
    rcases heap_cases hhe hb' with ⟨rfl, rfl⟩ | ⟨-, hb'⟩
    · cases hg.symm.trans hb
      exact hexp
    · cases hb.symm.trans hb'
      rfl
  | @start ref a hg =>
    refine hlo.transfer ?_ Set.Subset.rfl
      (fun ha => ⟨_, ha, rfl, rfl⟩) (fun _ hs => ⟨_, hs, rfl⟩)
      (fun _ hs hl => ⟨_, hs, hl⟩)
    intro event hm
    rcases List.mem_append.mp hm with hold | hnew
    · exact .inl hold
    · exact .inr ⟨ref, List.mem_singleton.mp hnew⟩
  | @settle _ _ hkp state _ rejection => exact hlo.settle hreg hkp state rejection
  | renew hs hpast hdue =>
    exact hlo.modifySession _ (Session.renew _) (fun _ => rfl) fun _ _ _ hfd => hfd
  | prune session hpast => exact hlo.prune hreg session _
  | enroll action hs hnew hid hepoch hread hlive _ _ => exact hlo.enroll hreg action
  | create hoptions => exact hlo.create hreg _
  | dissolve hs => exact hlo.dissolve hs

end

end

variable {config : Config} {now : ℕ → Time}

/-! ## Whole runs -/

lemma registry_new (hclock : Monotone now) (hnew : new config now = .ok c) :
    Registry c ∧ Logbook c := by
  obtain ⟨-, rfl⟩ := new_eq_ok hnew
  have hn : ∀ {κ α : Type} [DecidableEq κ] {key : κ} {value : α},
      (Table.empty : Table κ α).get? key ≠ some value := by
    intro κ α _ key value hg
    cases hg
  refine ⟨⟨hclock, ?_, ?_, ?_, fun h => absurd h hn,
    fun h => absurd h hn, fun h => absurd h hn, fun h => absurd h hn,
    ?_⟩, fun h => absurd h List.not_mem_nil, fun h => absurd h List.not_mem_nil,
    fun h => absurd h List.not_mem_nil⟩
  · intro ref a ha
    cases ha
  · intro ref a ha
    cases ha
  · intro ref a ha
    cases ha
  · intro ref ref' a a' ha
    cases ha

/-- The invariants of a run together. -/
structure Settled (c : Coordinator) : Prop where
  sound : Sound True c
  timely : Timely c
  registry : Registry c
  logbook : Logbook c

lemma Settled.exec (hse : Settled c) (step : Section) : Settled (c.exec step) := by
  have hmoves := exec_moves hse.sound hse.timely step
  have hboth := Moves.invariant (fun c => Registry c ∧ Logbook c)
      (fun hc hmove => ⟨hc.1.move hmove, hc.2.move hc.1 hmove⟩) hmoves
      ⟨hse.registry, hse.logbook⟩
  exact ⟨hse.sound.exec step fun _ => trivial,
    hmoves.invariant Timely Timely.move hse.timely, hboth.1, hboth.2⟩

lemma settled_of_run (hclock : Monotone now) (hnew : new config now = .ok c)
    (steps : List Section) : Settled (steps.foldl exec c) := by
  obtain ⟨hreg, hlo⟩ := registry_new hclock hnew
  exact Runs.invariant (fun _ step hse => hse.exec step)
    ⟨sound_new hnew, timely_new hnew, hreg, hlo⟩ steps

/-! ## Replays -/

/-- The outcomes of `Apply` with the identity of a request that already has
an action object.  In each of them nothing but the clock, epochs and histories
has moved. -/
inductive Replays (c : Coordinator) (session node owner : ℕ)
    (commands : List RangeCommand) (id : LockRequestID) (ref : RequestRef)
    (a : Request) : Outcome (RangeAttempt × RequestRef) → Prop
  | refused {failure : Failure} (hwhy : c.Refuses session node owner commands id failure) :
      Replays c session node owner commands id ref a ⟨c, .error failure⟩
  | overflow {s : Session} (hs : c.sessions.get? session = some s)
      (hlast : s.epoch = maxCount) (hover : s.epochUntil ≤ c.time) :
      Replays c session node owner commands id ref a ⟨c.ticked, .error EOVERFLOW⟩
  | retained {next : Coordinator} {s : Session} {first : RangeCommand}
      (hag : Ages c next) (hs : next.sessions.get? session = some s)
      (hl : s.actions.get? id = some ref)
      (hfirst : commands.head? = some first)
      (hkey : a.key = ⟨session, owner, node, first.domain⟩)
      (hcommands : a.commands = commands) :
      Replays c session node owner commands id ref a ⟨next, .ok (receiptLocked s a c.time, ref)⟩
  | changed {next : Coordinator} {first : RangeCommand} (hag : Ages c next)
      (hfirst : commands.head? = some first)
      (hintent : a.key ≠ ⟨session, owner, node, first.domain⟩ ∨ a.commands ≠ commands) :
      Replays c session node owner commands id ref a ⟨next, .error EINVAL⟩
  | pruned {next : Coordinator} {s : Session} (hag : Ages c next)
      (hs : next.sessions.get? session = some s)
      (hforgotten : s.actions.get? id = none) :
      Replays c session node owner commands id ref a ⟨next, .error ESTALE⟩

lemma Settled.replays (hse : Settled c) (ha : c.heap ref = some a)
    (node owner : ℕ) (commands : List RangeCommand) :
    Replays c a.key.session node owner commands a.id ref a
      (c.applyOrdered a.key.session node owner commands a.id) := by
  have hcases := applyOrdered_cases hse.sound a.key.session node owner
    commands a.id
  have haging := c.advanced_aging a.key.session
  revert hcases
  generalize c.applyOrdered a.key.session node owner commands a.id = outcome
  intro hcases
  cases hcases with
  | refused hwhy => exact .refused hwhy
  | overflow hs hlast hover => exact .overflow hs hlast hover
  | @advanced next s s' first epoch _ hfirst _ hepoch hs _ _ hnext hs'
      happlies =>
      rw [hnext] at haging
      have hag := haging.ages
      have hreg : Registry next := haging.moves.invariant Registry Registry.move hse.registry
      have ha' : next.heap ref = some a := by rwa [hag.heap]
      have hsm : ∀ {other old}, s'.actions.get? a.id = some other →
          next.heap other = some old → other = ref ∧ old = a := by
        intro other old hl hg
        obtain ⟨b, hb, hid, hses⟩ := hreg.indexed hs' hl
        obtain rfl := hreg.unique hb ha' hses hid
        exact ⟨rfl, Option.some.inj (hg.symm.trans ha')⟩
      -- an identity that was used before is retained or of a past epoch
      have hpast : s'.actions.get? a.id = none → epoch ≠ s'.epoch := by
        rintro hunk rfl
        have hlive := advanceLocked_live (c := c.ticked)
          hse.timely (s := s') (by rw [hnext])
          (by rw [hnext]; simp [Coordinator.session?, hs'])
        have hreads := advanceLocked_reads c.ticked a.key.session c.time
        rw [hnext] at hreads
        refine (hreg.windows hs').unused ?_ (epochOf_eq hepoch) ?_ ⟨ref, a, ha', rfl, rfl⟩
        · rintro ⟨other, hl⟩
          change s'.actions.get? a.id = some other at hl
          cases hunk.symm.trans hl
        · rintro t ⟨k, hk, rfl⟩
          rw [hag.now]
          change next.reads = c.reads + 1 at hreads
          exact (hse.registry.clock (by omega : k ≤ c.reads)).trans_lt
            hlive
      cases happlies with
      | replayed hl hg hkey hcmds =>
        obtain ⟨rfl, rfl⟩ := hsm hl hg
        exact .retained hag hs' hl hfirst hkey hcmds
      | changed hl hg hintent =>
        obtain ⟨rfl, rfl⟩ := hsm hl hg
        exact .changed hag hfirst hintent
      | expired hunk _ => exact .pruned hag hs' hunk
      | full hunk hcur => exact absurd hcur (hpast hunk)
      | started hunk hcur => exact absurd hcur (hpast hunk)

lemma advanceOrdered_decided (ha : c.heap ref = some a) (hstate : a.result.state ≠ .pending) :
    (c.advanceOrdered ref).state = c := by
  unfold advanceOrdered
  simp only [ha]
  split
  · rfl
  · rw [if_pos hstate]

/-- With a clock that never goes back: a request identity of a session is
started through at most one action object; a later `Apply` with it is a replay,
which changes no held range and leaves a decided request decided; and a receipt
is pruned no earlier than one history interval after its completions. -/
theorem requests_start_once {config : Config} {now : ℕ → Time}
    {c₀ : Coordinator} (hclock : Monotone now)
    (hnew : new config now = .ok c₀) (steps : List Section) :
    (∀ ref ref' a a', .started ref ∈ (steps.foldl exec c₀).log →
      .started ref' ∈ (steps.foldl exec c₀).log →
      (steps.foldl exec c₀).heap ref = some a →
      (steps.foldl exec c₀).heap ref' = some a' →
      a.key.session = a'.key.session → a.id = a'.id → ref = ref') ∧
    (∀ ref a node owner commands, (steps.foldl exec c₀).heap ref = some a →
      Replays (steps.foldl exec c₀) a.key.session node owner commands a.id ref a
        ((steps.foldl exec c₀).applyOrdered a.key.session node owner commands a.id) ∧
      ((steps.foldl exec c₀).applyOrdered a.key.session node owner commands
        a.id).state.owners = (steps.foldl exec c₀).owners ∧
      (a.result.state ≠ .pending →
        ((steps.foldl exec c₀).advanceOrdered ref).state = steps.foldl exec c₀)) ∧
    ∀ ref a s t t', .completed ref t ∈ (steps.foldl exec c₀).log →
      .pruned ref t' ∈ (steps.foldl exec c₀).log →
      (steps.foldl exec c₀).heap ref = some a →
      (steps.foldl exec c₀).session? a.key.session = some s →
      t + s.options.history ≤ t' := by
  have hse := settled_of_run hclock hnew steps
  refine ⟨?_, ?_, ?_⟩
  · intro ref ref' a a' _ _ ha ha' hsession hid
    exact hse.registry.unique ha ha' hsession hid
  · intro ref a node owner commands ha
    have hreplays := hse.replays ha node owner commands
    refine ⟨hreplays, ?_, advanceOrdered_decided ha⟩
    revert hreplays
    generalize Coordinator.applyOrdered _ _ node owner commands a.id = outcome
    intro hreplays
    cases hreplays with
    | refused _ => rfl
    | overflow => rfl
    | retained hag _ _ _ _ _ => exact hag.owners
    | changed hag _ _ => exact hag.owners
    | pruned hag _ _ => exact hag.owners
  · intro ref a s t t' hcomp hpruned ha hs
    obtain ⟨b, hb, hexp, -⟩ := hse.logbook.pruned hpruned
    have hsm : b = a := Option.some.inj (hb.symm.trans ha)
    subst hsm
    exact (hse.logbook.expires hcomp ha hs).trans hexp

theorem requests_start_once_sample : Monotone (fun _ : ℕ => (0 : Time)) ∧
    ∃ a, (sampleRun.foldl exec (.empty DefaultConfig fun _ => 0)).heap 0 = some a ∧
      Replays (sampleRun.foldl exec (.empty DefaultConfig fun _ => 0))
        a.key.session 7 1 [byteLock .shared .replace 0 10 false] a.id 0 a
        ((sampleRun.foldl exec (.empty DefaultConfig fun _ => 0)).applyOrdered
          a.key.session 7 1 [byteLock .shared .replace 0 10 false] a.id) := by
  refine ⟨monotone_const, ?_⟩
  have hfd : ((sampleRun.foldl exec (.empty DefaultConfig fun _ => 0)).heap
      0).isSome = true := by decide
  obtain ⟨a, ha⟩ := Option.isSome_iff_exists.mp hfd
  exact ⟨a, ha, ((requests_start_once monotone_const new_default
    sampleRun).2.1 0 a 7 1 [byteLock .shared .replace 0 10 false] ha).1⟩

/-- After its owner was retired, a replayed `Apply` is refused as stale even
though its receipt is still retained. -/
theorem replay_after_retireOwner : (((sampleRun ++ [Section.retireOwner 1 1]).foldl exec
      (.empty DefaultConfig fun _ => 0)).applyOrdered 1 7 1
        [byteLock .shared .replace 0 10 false] (sampleRequest 49)).result =
      .error ESTALE ∧
    ((((sampleRun ++ [Section.retireOwner 1 1]).foldl exec
      (.empty DefaultConfig fun _ => 0)).applyOrdered 1 7 1 [byteLock .shared .replace 0 10 false]
        (sampleRequest 49)).state.sessions.get? 1).map
        (fun s => s.actions.get? (sampleRequest 49)) = some (some 0) :=
  ⟨rfl, rfl⟩

end RemoteFs.Advisory
