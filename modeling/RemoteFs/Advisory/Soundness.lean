import RemoteFs.Advisory.Receipts

/-!
# Critical sections keep the books

`Sound` joins the directory, the ledger and the receipts.  Every critical
section of the coordinator maps sound states to sound states, so every state
that a run reaches is sound.
-/

namespace RemoteFs.Advisory

open Storage Coordinator

variable {s : Session} {c c' : Coordinator} {session : ℕ} {ref : RequestRef}
  {a : Request} {slip : Prop} {key : OwnerKey}

/-- A pending request of a live session is still in its history. -/
def PendingKept (c : Coordinator) : Prop :=
  ∀ ref a s, c.heap ref = some a → a.result.state = .pending →
    c.sessions.get? a.key.session = some s → Retained c ref a

structure Sound (slip : Prop) (c : Coordinator) : Prop where
  directory : Directory c
  ledger : Ledger ∅ c
  shaped : Shaped slip c
  kept : PendingKept c

lemma PendingKept.of_frame (hk : PendingKept c) (hf : Frame c c')
    (hpd : ∀ {ref a'}, c'.heap ref = some a' → a'.result.state = .pending →
        c.heap ref = some a' ∨ ∃ a, Retained c ref a) : PendingKept c' := by
  intro ref a' s' hg hst hs'
  have hls : ∃ a, Retained c ref a := by
    rcases hpd hg hst with hold | hret
    · obtain ⟨s, hs, -⟩ := hf.session_back hs'
      exact ⟨a', hk ref a' s hold hst hs⟩
    · exact hret
  obtain ⟨a, hret⟩ := hls
  obtain ⟨b, hb⟩ := hret.of_frame hf
  have hsm : b = a' := Option.some.inj (hb.heap.symm.trans hg)
  exact hsm ▸ hb

lemma PendingKept.of_decides (hk : PendingKept c)
    (hf : Frame c c') (hret : Retained c ref a)
    (hdecides : Decides slip steady c ref c') : PendingKept c' := by
  refine hk.of_frame hf fun {other a'} hg hst => ?_
  obtain ⟨b, -, -, hsettles⟩ := hdecides
  by_cases heq : other = ref
  · exact .inr ⟨a, heq ▸ hret⟩
  · have hold := hsettles.quiets other a' hg hst
    rw [Function.update_of_ne heq] at hold
    exact .inl hold

/-! ## Changes to session records -/

lemma Ledger.of_sessions (hl : Ledger slack c)
    (howners : c'.owners = c.owners) (hwa : c'.waiting = c.waiting)
    (hranges : c'.ranges = c.ranges) (hconfig : c'.config = c.config)
    (hheap : ∀ ref ∈ c.waiting, c'.heap ref = c.heap ref)
    (hsessions : ∀ {id s'}, c'.sessions.get? id = some s' →
      (∃ s, c.sessions.get? id = some s ∧ s'.ranges = s.ranges ∧
          s'.pending = s.pending ∧ s'.options = s.options) ∨
        (c.sessions.get? id = none ∧ s'.ranges = 0 ∧ s'.pending = 0 ∧
          0 ≤ s'.options.maxLockRanges))
    (howned : ∀ {key state}, c.owners.get? key = some state → Owned c' key)
    (hforth : ∀ {ref a}, Retained c ref a → a.pending = true → Retained c' ref a)
    (hback : ∀ {ref a}, Retained c' ref a → a.pending = true →
      Retained c ref a) : Ledger slack c' := by
  have hwaiters : ∀ select, c'.waitersOf select = c.waitersOf select := by
    intro select
    unfold Coordinator.waitersOf Coordinator.keyOf
    rw [hwa]
    apply List.countP_congr
    intro ref hm
    rw [hheap ref hm]
  have hn : ∀ {id : ℕ}, c.sessions.get? id = none →
      c.owners.total (sessionRangeCount id) = 0 ∧
        c.waitersOf (fun other => decide (other.session = id)) = 0 := by
    intro id hid
    constructor
    · rw [Table.total_eq_zero_iff]
      intro key state hg
      obtain ⟨s, -, hs, -⟩ := hl.owned hg
      have hne : key.session ≠ id := by
        rintro rfl
        cases hid.symm.trans hs
      simp [sessionRangeCount, hne]
    · rw [Coordinator.waitersOf, List.countP_eq_zero]
      intro ref hm hkey
      obtain ⟨a, hk, -⟩ := hl.queue.waiting.mp hm
      simp only [Coordinator.keyOf, hk.heap, Option.map_some,
        Option.any_some, decide_eq_true_eq] at hkey
      obtain ⟨s, hs, -⟩ := hk.listed
      rw [hkey, hid] at hs
      cases hs
  exact {
    exclusion := by
      rw [howners]
      exact hl.exclusion
    owned := by
      intro key state hg
      rw [howners] at hg
      exact howned hg
    populated := by
      intro key state hg
      rw [howners] at hg
      exact hl.populated hg
    ranges := by
      rw [hranges, howners]
      exact hl.ranges
    sessionRanges := by
      intro id s' hg
      rw [howners]
      rcases hsessions hg with ⟨s, hs, hcount, -⟩ | ⟨hid, hzero, -⟩
      · rw [hcount]
        exact hl.sessionRanges hs
      · rw [hzero, (hn hid).1]
        rfl
    rangesBound := by
      rw [hranges, hconfig]
      exact hl.rangesBound
    sessionRangesBound := by
      intro id s' hg
      rcases hsessions hg with ⟨s, hs, hcount, -, hoptions⟩ |
        ⟨-, hzero, -, hlimit⟩
      · rw [hcount, hoptions]
        exact hl.sessionRangesBound hs
      · rwa [hzero]
    queue := {
      nodup := by
        rw [hwa]
        exact hl.queue.nodup
      waiting := by
        intro ref
        rw [hwa, hl.queue.waiting]
        constructor
        · rintro ⟨a, hk, ha⟩
          exact ⟨a, hforth hk ha, ha⟩
        · rintro ⟨a, hk, ha⟩
          exact ⟨a, hback hk ha, ha⟩
      unsettled := fun hk ha => hl.queue.unsettled (hback hk ha) ha
      queued := by
        intro ref a hm hg
        rw [hwa] at hm
        rw [hheap ref hm] at hg
        rw [howners]
        exact hl.queue.queued hm hg
      ownerPending := by
        intro key state hg
        rw [howners] at hg
        rw [hwaiters]
        exact hl.queue.ownerPending hg
      sessionPending := by
        intro id s' hg
        rw [hwaiters]
        rcases hsessions hg with ⟨s, hs, -, hcount, -⟩ | ⟨hid, -, hzero, -⟩
        · rw [hcount]
          exact hl.queue.sessionPending hs
        · rw [hzero, (hn hid).2]
          rfl
      bound := by
        rw [hwa, hconfig]
        exact hl.queue.bound } }

/-- The part of a session record that rewriting it leaves alone. -/
structure Session.Rewritten (s s' : Session) : Prop where
  id : s'.id = s.id
  options : s'.options = s.options
  ranges : s'.ranges = s.ranges
  pending : s'.pending = s.pending
  retired : s'.retired = s.retired

/-- The record of one session is rewritten: its pending requests and the bindings
of its owners stay, and the counters follow. -/
structure Coordinator.Rewrites (c : Coordinator) (session : ℕ)
    (change : Session → Session) (retained bound : ℤ) : Prop where
  row : ∀ s : Session, s.Rewritten (change s)
  gone : ∀ {s}, c.retired.get? session = some s →
    (change s).actions = .empty ∧ (change s).bindings = .empty
  owners : ∀ {s}, c.sessions.get? session = some s →
    (change s).owners = (change s).bindings.size ∧
      ∀ {owner binding}, (change s).bindings.get? owner = some binding →
        owner ≤ (change s).nextOwner
  bindings : ∀ {s key state binding}, c.sessions.get? session = some s →
    c.owners.get? key = some state → key.session = session →
    s.bindings.get? key.owner = some binding →
    (change s).bindings.get? key.owner = some binding
  kept : ∀ {s request ref a}, c.sessions.get? session = some s →
    s.actions.get? request = some ref → c.heap ref = some a →
    a.result.state = .pending → (change s).actions.get? request = some ref
  requests : retained = (c.sessions.modify session change).total fun _ s => s.actions.size
  registered : bound = (c.sessions.modify session change).total fun _ s => s.bindings.size
  requestsBound : retained ≤ c.config.maxRequests
  ownersBound : bound + c.uses.size ≤ c.config.maxOwners

section Rewriting

variable {c : Coordinator} {session : ℕ} {change : Session → Session}
  {requests registered : ℤ} {log : List Event}

lemma Directory.rewrite (hdir : Directory c)
    (hch : c.Rewrites session change requests registered)
    (hindexed : ∀ {s request ref}, c.sessions.get? session = some s →
      (change s).actions.get? request = some ref →
      ∃ a, c.heap ref = some a ∧ a.id = request ∧ a.key.session = session) :
    Directory { c.modifySession session change with
      requests := requests, registeredOwners := registered, log := log } where
  session := by
    intro other s' hg
    rcases Table.modify_cases hg with ⟨s, hs, rfl, rfl⟩ | ⟨-, hs⟩
    · rw [(hch.row s).id, (hch.row s).retired]
      exact hdir.session hs
    · exact hdir.session hs
  gone := by
    intro other s' hg
    rcases Table.modify_cases hg with ⟨s, hs, rfl, rfl⟩ | ⟨-, hs⟩
    · obtain ⟨hle, hn, hretired, -⟩ := hdir.gone hs
      exact ⟨hle, Table.get?_modify_of_none hn,
        (hch.row s).retired.trans hretired, hch.gone hs⟩
    · obtain ⟨hle, hn, hre⟩ := hdir.gone hs
      exact ⟨hle, Table.get?_modify_of_none hn, hre⟩
  owners := by
    intro other s' hg
    rcases Table.modify_cases hg with ⟨s, hs, rfl, rfl⟩ | ⟨-, hs⟩
    · exact hch.owners hs
    · exact hdir.owners hs
  indexed := by
    intro other s' request ref hg hac
    rcases Table.modify_cases hg with ⟨s, hs, rfl, rfl⟩ | ⟨-, hs⟩
    · exact hindexed hs hac
    · exact hdir.indexed hs hac
  allocated := hdir.allocated
  admitted := hdir.admitted
  born := hdir.born
  requests := hch.requests
  registered := hch.registered
  requestsBound := hch.requestsBound
  ownersBound := hch.ownersBound

lemma Listed.rewrite (hk : Retained c ref a) (hst : a.result.state = .pending)
    (hch : c.Rewrites session change requests registered) :
    Listed c.heap (c.sessions.modify session change) ref a := by
  obtain ⟨s, hs, hac⟩ := hk.listed
  refine ⟨hk.heap, _, Table.get?_modify_of_some hs, ?_⟩
  split
  · next heq => exact hch.kept (heq ▸ hs) hac hk.heap hst
  · exact hac

lemma Ledger.rewrite (hl : Ledger slack c)
    (hch : c.Rewrites session change requests registered)
    (hac : ∀ {s request ref}, c.sessions.get? session = some s →
      (change s).actions.get? request = some ref →
      s.actions.get? request = some ref ∨ ∀ {a}, c.heap ref = some a → a.pending = false) :
    Ledger slack { c.modifySession session change with
      requests := requests, registeredOwners := registered, log := log } := by
  refine hl.of_sessions rfl rfl rfl rfl (fun _ _ => rfl) ?_ ?_ ?_ ?_
  · intro other s' hg
    rcases Table.modify_cases hg with ⟨s, hs, rfl, rfl⟩ | ⟨-, hs⟩
    · have hrow := hch.row s
      exact .inl ⟨s, hs, hrow.ranges, hrow.pending, hrow.options⟩
    · exact .inl ⟨s', hs, rfl, rfl, rfl⟩
  · intro key state hg
    obtain ⟨s, binding, hs, hbi, hre⟩ := hl.owned hg
    refine ⟨_, binding, Table.get?_modify_of_some hs, ?_, hre⟩
    split
    · next heq => exact hch.bindings (heq ▸ hs) hg heq hbi
    · exact hbi
  · intro ref a hk hpd
    exact hk.rewrite (hl.queue.unsettled hk hpd) hch
  · intro ref a hk hpd
    obtain ⟨s', hs', hls⟩ := hk.listed
    rcases Table.modify_cases hs' with ⟨s, hs, heq, rfl⟩ | ⟨-, hs⟩
    · rcases hac hs hls with hold | hfresh
      · exact ⟨hk.heap, s, heq ▸ hs, hold⟩
      · rw [hfresh hk.heap] at hpd
        cases hpd
    · exact ⟨hk.heap, s', hs, hls⟩

end Rewriting

def freshSession (id : ℕ) (options : FileSessionOptions) (now : Time) : Session where
  id := id
  options := options
  epoch := 1
  epochUntil := now + options.history
  actions := .empty
  bindings := .empty
  nextOwner := 0
  owners := 0
  ranges := 0
  pending := 0
  retiring := false
  retired := false
  retireDone := false

def Coordinator.withSession (c : Coordinator) (options : FileSessionOptions) : Coordinator :=
  { c.ticked with
    nextSession := c.nextSession + 1
    sessions := c.sessions.set (c.nextSession + 1)
      (freshSession (c.nextSession + 1) options c.time) }

lemma session?_withSession (c : Coordinator) (options : FileSessionOptions) (id : ℕ) :
    (c.withSession options).session? id =
      if id = c.nextSession + 1 then some (freshSession (c.nextSession + 1) options c.time)
      else c.session? id := by
  unfold session? withSession
  simp only [Table.get?_set]
  by_cases heq : id = c.nextSession + 1
  · simp only [if_pos heq]
  · simp only [if_neg heq]
    rfl

namespace Sound

variable {slip : Prop} {c : Coordinator}

section

variable (hc : Sound slip c)
include hc

lemma active {id : ℕ} (hg : c.session? id = some s) (hat : s.activeLocked = .ok ()) :
    c.sessions.get? id = some s := by
  unfold session? at hg
  cases hs : c.sessions.get? id with
  | some found => rwa [hs] at hg
  | none =>
    rw [hs] at hg
    have hretired := (hc.directory.gone hg).2.2.1
    simp [Session.activeLocked, hretired] at hat

lemma bound {owner : ℕ} (hkn : c.session? session = some s)
    (hbi : s.bindings.get? owner = some binding) : c.sessions.get? session = some s := by
  unfold session? at hkn
  cases hg : c.sessions.get? session with
  | some found => rwa [hg] at hkn
  | none =>
    rw [hg] at hkn
    rw [(hc.directory.gone hkn).2.2.2.2, Table.get?_empty] at hbi
    cases hbi

lemma ticked : Sound slip c.ticked where
  directory := hc.directory.of_frame c.ticked_frame
  ledger := hc.ledger.of_frame c.ticked_frame rfl rfl rfl rfl
    fun hk hg => by
      have hsm := hk.heap.symm.trans hg
      rw [Option.some.injEq] at hsm
      subst hsm
      exact ⟨rfl, fun _ => rfl⟩
  shaped := hc.shaped
  kept := hc.kept

lemma rewrite {change : Session → Session} {requests registered : ℤ} {log : List Event}
    (hch : c.Rewrites session change requests registered)
    (hac : ∀ {s request ref}, c.sessions.get? session = some s →
      (change s).actions.get? request = some ref →
      s.actions.get? request = some ref) :
    Sound slip { c.modifySession session change with
      requests := requests, registeredOwners := registered, log := log } where
  directory := hc.directory.rewrite hch fun hs hls =>
    hc.directory.indexed hs (hac hs hls)
  ledger := hc.ledger.rewrite hch fun hs hls => .inl (hac hs hls)
  shaped := hc.shaped
  kept := by
    intro ref a s' hg hst hs'
    obtain ⟨s, hs, -⟩ := Table.of_get?_modify hs'
    exact (hc.kept _ _ _ hg hst hs).rewrite hst hch

lemma not_retired (hs : c.sessions.get? session = some s) : c.retired.get? session = none := by
  cases hg : c.retired.get? session with
  | none => rfl
  | some old =>
    have hn := (hc.directory.gone hg).2.1
    cases hs.symm.trans hn

/-- Epochs and retirement marks are outside the books. -/
lemma modifySession (id : ℕ) (change : Session → Session)
    (hch : ∀ s : Session, s.Rewritten (change s) ∧
      (change s).actions = s.actions ∧ (change s).bindings = s.bindings ∧
      (change s).nextOwner = s.nextOwner ∧ (change s).owners = s.owners) :
    Sound slip (c.modifySession id change) := by
  have htotal : ∀ weight : Session → ℕ, (∀ s, weight (change s) = weight s) →
      ((c.sessions.modify id change).total fun _ s => weight s) =
        c.sessions.total fun _ s => weight s :=
    fun weight hweight => Table.total_modify_of_eq fun s _ => hweight s
  refine hc.rewrite ⟨fun s => (hch s).1, ?_, ?_, ?_, ?_, ?_, ?_,
    hc.directory.requestsBound, hc.directory.ownersBound⟩ ?_
  · intro s hs
    rw [(hch s).2.1, (hch s).2.2.1]
    exact (hc.directory.gone hs).2.2.2
  · intro s hs
    obtain ⟨-, -, hbindings, hnex, howners⟩ := hch s
    rw [hbindings, hnex, howners]
    exact hc.directory.owners hs
  · intro s key state binding _ _ _ hbi
    rwa [(hch s).2.2.1]
  · intro s request ref a _ hls _ _
    rwa [(hch s).2.1]
  · rw [htotal (fun s => s.actions.size) fun s => by rw [(hch s).2.1]]
    exact hc.directory.requests
  · rw [htotal (fun s => s.bindings.size) fun s => by rw [(hch s).2.2.1]]
    exact hc.directory.registered
  · intro s request ref _ hls
    rwa [(hch s).2.1] at hls

end

/-! ## Pruning histories -/

lemma prunable_state {now : Time} (hg : c.heap ref = some a)
    (hprunable : c.prunable s now ref = true) : a.result.state ≠ .pending := by
  simp only [prunable, hg, Bool.and_eq_true, decide_eq_true_eq] at hprunable
  exact hprunable.1.2

section

variable (hc : Sound slip c)
include hc

lemma pruneHistoryLocked (session : ℕ)
    (now : Time) : Sound slip (c.pruneHistoryLocked session now) := by
  unfold Coordinator.pruneHistoryLocked
  cases hkn : c.session? session with
  | none => exact hc
  | some known =>
    have hcount := hc.directory.requests
    refine hc.rewrite ⟨fun _ => ⟨rfl, rfl, rfl, rfl, rfl⟩, ?_,
      hc.directory.owners, fun _ _ _ h => h, ?_, ?_, ?_, ?_,
      hc.directory.ownersBound⟩ fun _ hls => (Table.get?_filter_iff.mp hls).1
    · intro s hs
      obtain ⟨-, -, -, hac, hbindings⟩ := hc.directory.gone hs
      refine ⟨?_, hbindings⟩
      show (s.actions.filter fun _ ref => !c.prunable s now ref) = .empty
      rw [hac]
      rfl
    · intro s request ref a _ hls hg hst
      refine Table.get?_filter_iff.mpr ⟨hls, ?_⟩
      rw [Bool.not_eq_true', ← Bool.not_eq_true]
      exact fun hprunable => prunable_state hg hprunable hst
    · unfold session? at hkn
      cases hs : c.sessions.get? session with
      | some s =>
        rw [hs, Option.some.injEq] at hkn
        subst hkn
        have hsum := Table.total_modify
          (Session.forget fun s => c.prunable s now)
          (fun _ s => s.actions.size) hs
        have hsplit := Table.size_filter_add_size_filter_not s.actions
          fun _ ref => c.prunable s now ref
        simp only [Session.forget] at hsum ⊢
        omega
      | none =>
        rw [hs] at hkn
        have hempty := (hc.directory.gone hkn).2.2.2.1
        have hsm : c.sessions.modify session
            (Session.forget fun s => c.prunable s now) = c.sessions := by
          simp [Table.modify, hs]
        rw [hsm, hempty]
        change c.requests - ((0 : ℕ) : ℤ) = _
        omega
    · rw [Table.total_modify_of_eq]
      · exact hc.directory.registered
      · exact fun _ _ => rfl
    · have hbound := hc.directory.requestsBound
      omega

lemma aging (hag : Aging c c') : Sound slip c' := by
  induction hag with
  | refl => exact hc
  | tail _ hage ih =>
    cases hage with
    | tick => exact ih.ticked
    | renew _ _ _ =>
      exact ih.modifySession _ _ fun _ => ⟨⟨rfl, rfl, rfl, rfl, rfl⟩, rfl, rfl, rfl, rfl⟩
    | prune session _ => exact ih.pruneHistoryLocked session _

/-! ## Sessions and owners -/

lemma nextSession_unused : c.sessions.get? (c.nextSession + 1) = none ∧
      c.retired.get? (c.nextSession + 1) = none := by
  constructor
  · cases hg : c.sessions.get? (c.nextSession + 1) with
    | none => rfl
    | some s =>
      have hle := (hc.directory.session hg).2.1
      omega
  · cases hg : c.retired.get? (c.nextSession + 1) with
    | none => rfl
    | some s =>
      have hle := (hc.directory.gone hg).1
      omega

lemma created (hcheck : options.check = .ok ()) : Sound slip (c.withSession options) := by
  have hlimit : 0 < options.maxLockRanges := by
    unfold FileSessionOptions.check at hcheck
    rw [check_bind_ok] at hcheck
    have hpos := refuse_ok.mp hcheck.2
    push Not at hpos
    exact hpos.2.2.2.2.2.1
  obtain ⟨hn, hgone⟩ := hc.nextSession_unused
  refine ⟨{ hc.directory with
      session := ?_, gone := ?_, owners := ?_, indexed := ?_,
      born := fun hg => Nat.le_succ_of_le (hc.directory.born hg),
      requests := ?_, registered := ?_ }, ?_, hc.shaped, ?_⟩
  · intro other s' hg
    rcases Table.set_cases hg with ⟨rfl, rfl⟩ | ⟨-, hold⟩
    · exact ⟨rfl, le_rfl, rfl⟩
    · obtain ⟨hid, hle, hretired⟩ := hc.directory.session hold
      exact ⟨hid, Nat.le_succ_of_le hle, hretired⟩
  · intro other s' hg
    obtain ⟨hle, hsessions, hre⟩ := hc.directory.gone hg
    refine ⟨Nat.le_succ_of_le hle, ?_, hre⟩
    change (c.sessions.set (c.nextSession + 1) _).get? other = none
    rw [Table.get?_set_ne]
    · exact hsessions
    · omega
  · intro other s' hg
    rcases Table.set_cases hg with ⟨rfl, rfl⟩ | ⟨-, hold⟩
    · exact ⟨rfl, fun hbi => by cases (Table.get?_empty _).symm.trans hbi⟩
    · exact hc.directory.owners hold
  · intro other s' request ref hg hac
    rcases Table.set_cases hg with ⟨rfl, rfl⟩ | ⟨-, hold⟩
    · cases (Table.get?_empty _).symm.trans hac
    · exact hc.directory.indexed hold hac
  · change c.requests = ((c.sessions.set (c.nextSession + 1) _).total fun _ s => s.actions.size : ℕ)
    rw [Table.total_set_of_none _ _ hn, hc.directory.requests]
    rfl
  · change c.registeredOwners = ((c.sessions.set (c.nextSession + 1) _).total
        fun _ s => s.bindings.size : ℕ)
    rw [Table.total_set_of_none _ _ hn, hc.directory.registered]
    rfl
  · refine hc.ledger.of_sessions rfl rfl rfl rfl (fun _ _ => rfl) ?_ ?_ ?_ ?_
    · intro other s' hg
      rcases Table.set_cases hg with ⟨rfl, rfl⟩ | ⟨-, hold⟩
      · exact .inr ⟨hn, rfl, rfl, hlimit.le⟩
      · exact .inl ⟨s', hold, rfl, rfl, rfl⟩
    · intro key state hg
      obtain ⟨s, binding, hs, hre⟩ := hc.ledger.owned hg
      exact ⟨s, binding, Table.get?_set_of_some hn hs, hre⟩
    · intro ref a hk _
      obtain ⟨s, hs, hac⟩ := hk.listed
      exact ⟨hk.heap, s, Table.get?_set_of_some hn hs, hac⟩
    · intro ref a hk _
      obtain ⟨s, hs, hac⟩ := hk.listed
      rcases Table.set_cases hs with ⟨-, rfl⟩ | ⟨-, hold⟩
      · cases (Table.get?_empty _).symm.trans hac
      · exact ⟨hk.heap, s, hold, hac⟩
  · intro ref a s' hg hst hs'
    rcases Table.set_cases hs' with ⟨hnewest, -⟩ | ⟨-, hold⟩
    · have hle := hc.directory.born hg
      omega
    · obtain ⟨found, hfd, hac⟩ := (hc.kept _ _ _ hg hst hold).listed
      exact ⟨hg, found, Table.get?_set_of_some hn hfd, hac⟩

lemma bind (hs : c.sessions.get? session = some s) (node : ℕ) (scope : UseScope)
    (options : OwnerOptions) (hroom : c.registeredOwners + c.uses.size < c.config.maxOwners) :
    Sound slip { c.modifySession session (Session.bind node scope options) with
      registeredOwners := c.registeredOwners + 1 } := by
  obtain ⟨hcount, hnex⟩ := hc.directory.owners hs
  have hnew : s.bindings.get? (s.nextOwner + 1) = none := by
    cases hg : s.bindings.get? (s.nextOwner + 1) with
    | none => rfl
    | some binding =>
      have hle := hnex hg
      omega
  have hrow : ∀ {found}, c.sessions.get? session = some found → found = s :=
    fun hfd => Option.some.inj (hfd.symm.trans hs)
  have hsize : (Session.bind node scope options s).bindings.size =
      s.bindings.size + 1 := Table.size_set_of_none _ hnew
  refine hc.rewrite ⟨fun _ => ⟨rfl, rfl, rfl, rfl, rfl⟩, ?_, ?_, ?_,
    fun _ h _ _ => h, ?_, ?_, hc.directory.requestsBound, ?_⟩ fun _ h => h
  · intro old hold
    rw [hc.not_retired hs] at hold
    cases hold
  · intro found hfd
    cases hrow hfd
    rw [hsize]
    refine ⟨?_, fun {owner binding} hbi => ?_⟩
    · change s.owners + 1 = _
      rw [hcount]
      rfl
    · rcases Table.set_cases hbi with ⟨rfl, -⟩ | ⟨-, hold⟩
      · exact le_rfl
      · exact Nat.le_succ_of_le (hnex hold)
  · intro found key state binding hfd _ _ hbi
    cases hrow hfd
    exact Table.get?_set_of_some hnew hbi
  · rw [Table.total_modify_of_eq]
    · exact hc.directory.requests
    · exact fun _ _ => rfl
  · have hsum := Table.total_modify (Session.bind node scope options)
      (fun _ s => s.bindings.size) hs
    have hold := hc.directory.registered
    omega
  · omega

/-! ## New requests -/

lemma admitLocked (hs : c.sessions.get? session = some s) (hnew : s.actions.get? action.id = none)
    (hadm : action.identity.Admitted) (hkey : action.key.session = session)
    (hpd : action.pending = false) (hroom : c.requests < c.config.maxRequests) :
    Directory (c.admitLocked session action) ∧ Ledger ∅ (c.admitLocked session action) ∧
      PendingKept (c.admitLocked session action) ∧
      Retained (c.admitLocked session action) c.allocated action := by
  have hunused : c.heap c.allocated = none := by
    cases hg : c.heap c.allocated with
    | none => rfl
    | some a => exact absurd (hc.directory.allocated hg) (lt_irrefl _)
  -- the request is allocated before the history lists it
  set d : Coordinator := { c with
    heap := Function.update c.heap c.allocated (some action)
    allocated := c.allocated + 1 } with hd
  have hheap : ∀ {ref a}, c.heap ref = some a → d.heap ref = some a := by
    intro ref a hg
    refine (Function.update_of_ne ?_ _ _).trans hg
    rintro rfl
    cases hunused.symm.trans hg
  have hback : ∀ {ref a}, d.heap ref = some a →
      ref = c.allocated ∧ action = a ∨ c.heap ref = some a :=
    fun hg => (heap_cases rfl hg).imp_right And.right
  have hrow : ∀ {found}, c.sessions.get? session = some found → found = s :=
    fun hfd => Option.some.inj (hfd.symm.trans hs)
  have hdir : Directory d := by
    refine { hc.directory with
      indexed := fun hg hac => ?_, allocated := fun {ref a} hg => ?_,
      admitted := fun hg => ?_, born := fun hg => ?_ }
    · obtain ⟨a, ha, hre⟩ := hc.directory.indexed hg hac
      exact ⟨a, hheap ha, hre⟩
    · rcases hback hg with ⟨rfl, -⟩ | hold
      · exact Nat.lt_succ_self _
      · exact Nat.lt_succ_of_lt (hc.directory.allocated hold)
    · rcases hback hg with ⟨-, rfl⟩ | hold
      · exact hadm
      · exact hc.directory.admitted hold
    · rcases hback hg with ⟨-, rfl⟩ | hold
      · rw [hkey]
        exact (hc.directory.session hs).2.1
      · exact hc.directory.born hold
  have hl : Ledger ∅ d := by
    refine hc.ledger.of_sessions rfl rfl rfl rfl (fun ref hm => ?_)
      (fun hg => .inl ⟨_, hg, rfl, rfl, rfl⟩) hc.ledger.owned
      (fun hk _ => ⟨hheap hk.heap, hk.listed⟩)
      fun {ref a} hk ha => ?_
    · obtain ⟨a, hk, -⟩ := hc.ledger.queue.waiting.mp hm
      rw [hheap hk.heap, hk.heap]
    · rcases hback hk.heap with ⟨-, rfl⟩ | hold
      · cases hpd.symm.trans ha
      · exact ⟨hold, hk.listed⟩
  have hsource : ∀ {found request ref}, c.sessions.get? session = some found →
      (found.record action.id c.allocated).actions.get? request = some ref →
      found.actions.get? request = some ref ∨
        (request = action.id ∧ ref = c.allocated) := fun _ hls =>
    (Table.set_cases hls).symm.imp_left And.right
  have hself : Retained (c.admitLocked session action) c.allocated action :=
    ⟨Function.update_self .., _, hkey ▸ Table.get?_modify_of_some hs, by
      rw [if_pos hkey]
      exact Table.get?_set_self ..⟩
  have hch : d.Rewrites session (Session.record action.id c.allocated)
      (c.requests + 1) c.registeredOwners := by
    refine ⟨fun _ => ⟨rfl, rfl, rfl, rfl, rfl⟩, fun hold => ?_, hdir.owners,
      fun _ _ _ h => h, fun hfd hls _ _ => ?_, ?_, ?_, ?_,
      hc.directory.ownersBound⟩
    · rw [hc.not_retired hs] at hold
      cases hold
    · cases hrow hfd
      exact Table.get?_set_of_some hnew hls
    · have hsum := Table.total_modify (Session.record action.id c.allocated)
        (fun _ s => s.actions.size) hs
      have hsize : (s.record action.id c.allocated).actions.size =
          s.actions.size + 1 := Table.size_set_of_none _ hnew
      have hold := hc.directory.requests
      change c.requests + 1 = ((c.sessions.modify session _).total fun _ s => s.actions.size : ℕ)
      omega
    · rw [Table.total_modify_of_eq]
      · exact hc.directory.registered
      · exact fun _ _ => rfl
    · change c.requests + 1 ≤ c.config.maxRequests
      omega
  refine ⟨hdir.rewrite hch ?_, hl.rewrite hch ?_, ?_, hself⟩
  · intro found request ref hfd hls
    rcases hsource hfd hls with hold | ⟨rfl, rfl⟩
    · exact hdir.indexed hfd hold
    · exact ⟨action, Function.update_self .., rfl, hkey⟩
  · intro found request ref hfd hls
    refine (hsource hfd hls).imp_right ?_
    rintro ⟨-, rfl⟩ a hg
    rcases hback hg with ⟨-, rfl⟩ | hold
    · exact hpd
    · cases hunused.symm.trans hold
  · intro ref a s' hg hst hs'
    rcases hback hg with ⟨rfl, rfl⟩ | hold
    · exact hself
    · obtain ⟨found, hfd, -⟩ := Table.of_get?_modify hs'
      have hls := (hc.kept _ _ _ hold hst hfd).listed
      exact Listed.rewrite (c := d) ⟨hheap hold, hls⟩ hst hch

end

lemma freshRequest_unanswered {id : LockRequestID} {epoch : ℕ}
    {commands : List RangeCommand} (hcount : commands.length ≤ maxRangeCommands) :
    (freshRequest key id epoch commands).Unanswered := by
  refine ⟨⟨rfl, rfl, rfl, rfl, Drops.nil _, ?_, ?_, fun h => ?_, fun h => ?_,
    fun h => ?_, rfl⟩, rfl, rfl, .inl rfl⟩
  · change 0 + commands.length ≤ maxRangeEffects
    rwa [Nat.zero_add]
  · intro index
    change (List.replicate commands.length false).getD index false = false
    rw [List.getD_eq_getElem?_getD, List.getElem?_replicate]
    split <;> rfl
  · cases h
  · cases h
  · cases h

lemma owned_of_check {node owner : ℕ} (hs : c.sessions.get? session = some s)
    (how : s.checkOwnerLocked node owner = .ok ()) (hdomain : domain.defined = true) :
    Owned c ⟨session, owner, node, domain⟩ := by
  unfold Session.checkOwnerLocked at how
  cases hbi : s.bindings.get? owner with
  | none =>
    rw [hbi] at how
    cases how
  | some binding =>
    rw [hbi] at how
    simp only [refuse_ok, not_not] at how
    exact ⟨s, binding, hs, hbi, how, hdomain⟩

end Sound

abbrev Coordinator.enrolledBy (c : Coordinator) (key : OwnerKey)
    (id : LockRequestID) (epoch : ℕ) (commands : List RangeCommand) : Coordinator :=
  c.admitLocked key.session (freshRequest key id epoch commands)

def Coordinator.startedBy (c : Coordinator) (key : OwnerKey)
    (id : LockRequestID) (epoch : ℕ) (commands : List RangeCommand) : Coordinator :=
  (c.admitLocked key.session (freshRequest key id epoch commands)).startLocked
    c.allocated

/-- What `Apply` has established when it admits a new batch. -/
structure Admits (slip : Prop) (c : Coordinator) (key : OwnerKey)
    (id : LockRequestID) (epoch : ℕ) (commands : List RangeCommand) (s : Session) : Prop where
  sound : Sound slip c
  live : c.sessions.get? key.session = some s
  fresh : s.actions.get? id = none
  current : epoch = s.epoch
  admitted : (⟨key, id, epoch, commands⟩ : Identity).Admitted
  owned : Owned c key
  room : c.requests < c.config.maxRequests

namespace Admits

variable {slip : Prop} {c : Coordinator} {key : OwnerKey}
  {id : LockRequestID} {epoch : ℕ} {commands : List RangeCommand} {s : Session}

section

variable (had : Admits slip c key id epoch commands s)
include had

lemma enrolled_session : (c.enrolledBy key id epoch commands).sessions.get? key.session =
      some (s.record id c.allocated) := by
  exact Table.get?_modified had.live

lemma unanswered : (freshRequest key id epoch commands).Unanswered :=
  Sound.freshRequest_unanswered had.admitted.count

lemma enrolled : Poised (c.enrolledBy key id epoch commands) c.allocated
        (freshRequest key id epoch commands) ∧
      PendingKept (c.enrolledBy key id epoch commands) := by
  obtain ⟨hdir, hl, hk, hret⟩ :=
    had.sound.admitLocked had.live (show s.actions.get? (freshRequest
      key id epoch commands).id = none from had.fresh) had.admitted rfl
      rfl had.room
  obtain ⟨found, binding, hfd, hbi, hre⟩ := had.owned
  obtain rfl := Option.some.inj (hfd.symm.trans had.live)
  exact ⟨⟨hdir, hl, hret, ⟨_, binding, had.enrolled_session, hbi, hre⟩, rfl,
    had.unanswered.released⟩, hk⟩

lemma started (hslip : ∀ before command rest, commands = before ++ command :: rest →
      c.Overdraws (freshRequest key id epoch commands) before command →
      slip) :
    Sound slip (c.startedBy key id epoch commands) ∧
      Decides slip False c c.allocated (c.startedBy key id epoch commands) := by
  obtain ⟨hp, hk⟩ := had.enrolled
  have hview : SameView key c (c.enrolledBy key id epoch commands) := by
    refine .of_rivals rfl rfl rfl rfl (fun other => ?_) ?_
    · exact Table.map_get?_modify _ _ _ _ fun _ => rfl
    · exact Table.map_get?_modify _ _ _ _ fun _ => rfl
  have hdecides := startLocked_decides hp had.unanswered rfl rfl
    fun before command rest hsplit hover =>
      hslip before command rest hsplit ((hview.overdraws rfl).mp hover)
  refine ⟨⟨hp.directory.of_frame (startLocked_frame _ _), .startLocked hp rfl,
    hdecides.shaped ?_, hk.of_decides (startLocked_frame _ _) hp.retained hdecides⟩, ?_⟩
  · intro other a hne hg
    change Function.update c.heap c.allocated _ other = some a at hg
    rw [Function.update_of_ne hne] at hg
    exact had.sound.shaped other a hg
  · obtain ⟨a, hshape, -, hsettles⟩ := hdecides
    change Settles (Function.update (Function.update c.heap c.allocated _)
      c.allocated (some a)) _ at hsettles
    rw [Function.update_idem] at hsettles
    exact ⟨a, hshape, False.elim, hsettles⟩

end

end Admits

/-- The outcomes of `Apply` in the state that its history advance left. -/
inductive Applies (c : Coordinator) (key : OwnerKey)
    (commands : List RangeCommand) (id : LockRequestID) (epoch : ℕ)
    (now : Time) (s : Session) : Outcome (RangeAttempt × RequestRef) → Prop
  | replayed {ref : RequestRef} {old : Request}
      (hls : s.actions.get? id = some ref) (hg : c.heap ref = some old)
      (hkey : old.key = key) (hcommands : old.commands = commands) :
      Applies c key commands id epoch now s ⟨c, .ok (receiptLocked s old now, ref)⟩
  | changed {ref : RequestRef} {old : Request}
      (hls : s.actions.get? id = some ref) (hg : c.heap ref = some old)
      (hintent : old.key ≠ key ∨ old.commands ≠ commands) :
      Applies c key commands id epoch now s ⟨c, .error EINVAL⟩
  | expired (hunk : s.actions.get? id = none) (hep : epoch ≠ s.epoch) :
      Applies c key commands id epoch now s ⟨c, .error ESTALE⟩
  | full (hunk : s.actions.get? id = none) (hep : epoch = s.epoch) :
      Applies c key commands id epoch now s ⟨c.pruneAtLimit now, .error ENOLCK⟩
  | started {s' s'' : Session} {a : Request}
      (hunk : s.actions.get? id = none) (hep : epoch = s.epoch)
      (hs' : (c.pruneAtLimit now).sessions.get? key.session = some s')
      (hnew : s'.actions.get? id = none)
      (hroom : (c.pruneAtLimit now).requests < (c.pruneAtLimit now).config.maxRequests)
      (hs'' : ((c.pruneAtLimit now).startedBy key id epoch
        commands).session? key.session = some s'')
      (hg : ((c.pruneAtLimit now).startedBy key id epoch commands).heap
        (c.pruneAtLimit now).allocated = some a) :
      Applies c key commands id epoch now s
        ⟨((c.pruneAtLimit now).startedBy key id epoch commands).ticked,
          .ok (receiptLocked s'' a ((c.pruneAtLimit now).startedBy key id epoch
            commands).time, (c.pruneAtLimit now).allocated)⟩

lemma readReceipt_eq (hs : c.session? session = some s) (hg : c.heap ref = some a) :
    c.readReceipt session ref = ⟨c.ticked, .ok (receiptLocked s a c.time)⟩ := by
  simp only [readReceipt, hs, hg]

lemma startedBy_found (hs : c.sessions.get? key.session = some s)
    (id : LockRequestID) (epoch : ℕ) (commands : List RangeCommand) :
    ∃ s' a, (c.startedBy key id epoch commands).session? key.session = some s' ∧
      (c.startedBy key id epoch commands).heap c.allocated = some a := by
  have hf := startLocked_frame (c.admitLocked key.session
    (freshRequest key id epoch commands)) c.allocated
  have hadm : (c.admitLocked key.session (freshRequest key id epoch
      commands)).sessions.get? key.session = some (s.record id c.allocated) := by
    exact Table.get?_modified hs
  obtain ⟨s', hs', -⟩ := hf.session_forth hadm
  obtain ⟨a, ha, -⟩ := hf.request_forth
    (show (c.admitLocked key.session (freshRequest key id epoch commands)).heap
      c.allocated = some (freshRequest key id epoch commands) from
        Function.update_self ..)
  refine ⟨s', a, ?_, ha⟩
  change (c.startedBy key id epoch commands).sessions.get? key.session = some s' at hs'
  simp [session?, hs']

lemma applyAdvanced_cases (hdir : Directory c) (hs : c.sessions.get? session = some s) {k : ℕ}
    (hpast : k < c.reads) (node owner : ℕ) (commands : List RangeCommand) (id : LockRequestID)
    (epoch : ℕ) (domain : ConflictDomain) :
    Applies c ⟨session, owner, node, domain⟩ commands id epoch (c.now k) s
      (c.applyAdvanced session node owner commands id epoch domain (c.now k)) := by
  have hkn : c.session? session = some s := by simp [session?, hs]
  have hkey : s.key node owner domain = ⟨session, owner, node, domain⟩ := by
    rw [Session.key, (hdir.session hs).1]
  unfold Coordinator.applyAdvanced
  simp only [hkn, hkey]
  cases hac : s.actions.get? id with
  | some ref =>
    simp only
    cases hg : c.heap ref with
    | none =>
      obtain ⟨a, ha, -⟩ := hdir.indexed hs hac
      cases hg.symm.trans ha
    | some old =>
      simp only
      split
      · next hintent => exact .changed hac hg hintent
      · next hsm =>
        rw [not_or, not_not, not_not] at hsm
        exact .replayed hac hg hsm.1 hsm.2
  | none =>
    simp only
    split
    · next hep => exact .expired hac hep
    next hep =>
    rw [not_not] at hep
    have hages := (c.pruneAtLimit_aging hpast).ages
    obtain ⟨s', hs', holder⟩ := hages.session_forth hs
    have hknown' : (c.pruneAtLimit (c.now k)).session? session = some s' := by simp [session?, hs']
    have hkey' : s'.key node owner domain = ⟨session, owner, node, domain⟩ := by
      rw [Session.key, holder.id, (hdir.session hs).1]
    simp only [hknown', hkey']
    split
    · exact .full hac hep
    next hroom =>
    push Not at hroom
    have hnew : s'.actions.get? id = none := by
      cases hg : s'.actions.get? id with
      | none => rfl
      | some ref =>
        obtain ⟨old, hold, hsubset⟩ := hages.actions hs'
        cases hs.symm.trans hold
        rw [hsubset hg] at hac
        cases hac
    have hlive : (c.pruneAtLimit (c.now k)).sessions.get?
        (⟨session, owner, node, domain⟩ : OwnerKey).session =
          some s' := hs'
    obtain ⟨s'', a, hs'', ha⟩ := startedBy_found hlive id epoch commands
    have hread := readReceipt_eq hs'' ha
    simp only [startedBy] at hread
    simp only [hread]
    exact .started hac hep hs' hnew hroom.2 hs'' ha

/-- The draft of a batch that a section would start overdraws its limits. -/
def Coordinator.OverdrawnBy (c : Coordinator) : Section → Prop
  | .apply session node owner commands id =>
    ∃ first rest, commands = first :: rest ∧
      ∃ before command after, commands = before ++ command :: after ∧
        c.Overdraws (freshRequest ⟨session, owner, node, first.domain⟩ id 0
          commands) before command
  | _ => False

/-- The checks of `Apply` that come before it reads the clock. -/
def Coordinator.Refuses (c : Coordinator) (session node owner : ℕ)
    (commands : List RangeCommand) (id : LockRequestID) (failure : Failure) : Prop :=
  checkCall node = .error failure ∨ c.checkCommands commands = .error failure ∨
    lockRequestEpoch id = .error failure ∨
    (c.session? session = none ∧ failure = ESTALE) ∨
    ∃ s, c.session? session = some s ∧
      (s.activeLocked = .error failure ∨
        s.checkOwnerLocked node owner = .error failure)

/-- The outcomes of the ordered transition of `Apply`. -/
inductive Orders (c : Coordinator) (session node owner : ℕ)
    (commands : List RangeCommand) (id : LockRequestID) :
    Outcome (RangeAttempt × RequestRef) → Prop
  | refused {failure : Failure} (hwhy : c.Refuses session node owner commands id failure) :
      Orders c session node owner commands id ⟨c, .error failure⟩
  | overflow {s : Session} (hs : c.sessions.get? session = some s)
      (hlast : s.epoch = maxCount) (hover : s.epochUntil ≤ c.time) :
      Orders c session node owner commands id ⟨c.ticked, .error EOVERFLOW⟩
  | advanced {next : Coordinator} {s s' : Session} {first : RangeCommand}
      {epoch : ℕ} {outcome : Outcome (RangeAttempt × RequestRef)}
      (hfirst : commands.head? = some first)
      (hcommands : c.checkCommands commands = .ok ())
      (hep : lockRequestEpoch id = .ok epoch)
      (hs : c.sessions.get? session = some s)
      (hat : s.activeLocked = .ok ())
      (how : s.checkOwnerLocked node owner = .ok ())
      (hnex : c.ticked.advanceLocked session c.time = ⟨next, .ok ()⟩)
      (hs' : next.sessions.get? session = some s')
      (happlies : Applies next ⟨session, owner, node, first.domain⟩ commands
        id epoch c.time s' outcome) :
      Orders c session node owner commands id outcome

lemma advanceLocked_error {next : Coordinator} {now : Time} {failure : Failure}
    (hkn : c.session? session = some s)
    (hnex : c.advanceLocked session now = ⟨next, .error failure⟩) :
    next = c ∧ failure = EOVERFLOW ∧ s.epoch = maxCount ∧ s.epochUntil ≤ now := by
  simp only [Coordinator.advanceLocked, hkn] at hnex
  split_ifs at hnex with hover hlast
  all_goals cases hnex
  exact ⟨rfl, rfl, hlast, hover⟩

lemma applyOrdered_cases (hc : Sound slip c) (session node owner : ℕ)
    (commands : List RangeCommand) (id : LockRequestID) :
    Orders c session node owner commands id (c.applyOrdered session node owner commands id) := by
  unfold Coordinator.applyOrdered
  split
  · next failure hcall => exact .refused (.inl hcall)
  · next failure _ hcmds => exact .refused (.inr (.inl hcmds))
  · next failure hep _ _ => exact .refused (.inr (.inr (.inl hep)))
  · exact .refused (.inr (.inl rfl))
  next epoch first rest _ hep hcmds =>
  split
  · next hn => exact .refused (.inr (.inr (.inr (.inl ⟨hn, rfl⟩))))
  next s hkn =>
  split
  · next hinactive =>
    exact .refused (.inr (.inr (.inr (.inr ⟨s, hkn, .inl hinactive⟩))))
  next hat =>
  split
  · next hforeign =>
    exact .refused (.inr (.inr (.inr (.inr ⟨s, hkn, .inr hforeign⟩))))
  next how =>
  have hs := hc.active hkn hat
  have hag := c.advanced_aging session
  have hread := advanceLocked_reads c.ticked session c.time
  cases hnex : c.ticked.advanceLocked session c.time with
  | mk next result =>
    rw [hnex] at hag hread
    cases result with
    | error failure =>
      obtain ⟨rfl, rfl, hlast, hover⟩ := advanceLocked_error (c := c.ticked) hkn hnex
      exact .overflow hs hlast hover
    | ok _ =>
      obtain ⟨s', hs', -⟩ := hag.ages.session_forth hs
      have happlies := applyAdvanced_cases (hc.aging hag).directory hs' ((Nat.lt_succ_self
        c.reads).trans_eq hread.symm) node owner (first :: rest) id epoch first.domain
      rw [hag.ages.now] at happlies
      exact .advanced rfl hcmds hep hs hat how hnex hs' happlies

/-- The ordered transition of `Apply` ages the state, or it starts a new batch
in an aged one. -/
inductive Launches (slip : Prop) (c : Coordinator) (session node owner : ℕ)
    (commands : List RangeCommand) (id : LockRequestID) :
    Outcome (RangeAttempt × RequestRef) → Prop
  | aged {outcome : Outcome (RangeAttempt × RequestRef)} (hag : Aging c outcome.state)
      (hkn : ∀ receipt ref, outcome.result = .ok (receipt, ref) → c.heap ref ≠ none) :
      Launches slip c session node owner commands id outcome
  | started {p : Coordinator} {first : RangeCommand} {epoch : ℕ}
      {s s' : Session} {a : Request} (hag : Aging c p)
      (hfirst : commands.head? = some first)
      (had : Admits slip p ⟨session, owner, node, first.domain⟩ id epoch
        commands s) (hopen : s.retiring = false)
      (hclock : Timely c → ∃ k, p.reads = k + 1 ∧ p.now k < s.epochUntil)
      (hs' : (p.startedBy ⟨session, owner, node, first.domain⟩ id epoch
        commands).session? session = some s')
      (hg : (p.startedBy ⟨session, owner, node, first.domain⟩ id epoch
        commands).heap p.allocated = some a) :
      Launches slip c session node owner commands id
        ⟨(p.startedBy ⟨session, owner, node, first.domain⟩ id epoch commands).ticked,
          .ok (receiptLocked s' a (p.startedBy ⟨session, owner, node,
            first.domain⟩ id epoch commands).time, p.allocated)⟩

lemma applyOrdered_launches (hc : Sound slip c) (session node owner : ℕ)
    (commands : List RangeCommand) (id : LockRequestID) :
    Launches slip c session node owner commands id
      (c.applyOrdered session node owner commands id) := by
  have hcases := applyOrdered_cases hc session node owner commands id
  have hag := c.advanced_aging session
  have hread := advanceLocked_reads c.ticked session c.time
  revert hcases
  generalize c.applyOrdered session node owner commands id = outcome
  intro hcases
  cases hcases with
  | refused _ => exact .aged .refl fun _ _ h => by cases h
  | overflow => exact .aged (.single (.tick c)) fun _ _ h => by cases h
  | @advanced next s s' first epoch _ hfirst hcmds hep hs hat how
      hnex hs' happlies =>
      rw [hnex] at hag hread
      have htime : c.time = next.now c.reads := by
        rw [hag.ages.now]
        rfl
      rw [htime] at happlies
      have hpruned : Aging c (next.pruneAtLimit (next.now c.reads)) :=
        hag.trans (next.pruneAtLimit_aging ((Nat.lt_succ_self c.reads).trans_eq hread.symm))
      cases happlies with
      | @replayed ref old _ hg _ _ =>
        refine .aged hag fun receipt other hresult => ?_
        cases hresult
        rw [← hag.ages.heap, hg]
        exact Option.some_ne_none old
      | changed | expired => exact .aged hag fun _ _ h => by cases h
      | full _ _ => exact .aged hpruned fun _ _ h => by cases h
      | @started found s'' a _ hcur hfd hnew hroom hs'' hg =>
        obtain ⟨rest, rfl⟩ := List.head?_eq_some_iff.mp hfirst
        obtain ⟨old, hold, holder⟩ := hpruned.ages.session_back hfd
        cases hs.symm.trans hold
        have hepochs := pruneAtLimit_epochs next session (next.now c.reads)
        simp only [session?, hs', hfd, Option.map_some, Option.some.injEq,
          Prod.mk.injEq] at hepochs
        have hadm : (⟨⟨session, owner, node, first.domain⟩, id, epoch,
            first :: rest⟩ : Identity).Admitted :=
          checkCommands_eq_ok hcmds rfl hep
        have hchecked : found.checkOwnerLocked node owner = .ok () := by
          unfold Session.checkOwnerLocked at how ⊢
          rwa [holder.bindings]
        have hopen : found.retiring = false := holder.retiring.trans
          (Session.activeLocked_eq_ok_iff.mp hat).2
        refine .started hpruned hfirst ⟨hc.aging hpruned, hfd, hnew,
          hcur.trans hepochs.1.symm, hadm,
          Sound.owned_of_check hfd hchecked hadm.defined, hroom⟩ hopen
          (fun htimely => ⟨c.reads, ?_, ?_⟩) hs'' hg
        · rwa [pruneAtLimit_reads]
        · have hlive := advanceLocked_live (c := c.ticked) htimely (s := s')
            (by rw [hnex]) (by rw [hnex]; simp [session?, hs'])
          rwa [hpruned.ages.now, hepochs.2]

namespace Sound

variable {slip : Prop} {c : Coordinator}

section

variable (hc : Sound slip c)
include hc

lemma poised (hk : Retained c ref a) (hst : a.result.state = .pending)
    (howned : Owned c a.key) : Poised c ref a :=
  ⟨hc.directory, hc.ledger, hk, howned, hst,
    ((hc.shaped ref a hk.heap).unanswered hst).released⟩

/-- `advanceOrdered` does nothing, or it retries the request. -/
lemma advanceOrdered_cases (ref : RequestRef) :
    (c.advanceOrdered ref).state = c ∨ ∃ a s, Poised c ref a ∧
      c.sessions.get? a.key.session = some s ∧ s.retiring = false ∧
      (c.advanceOrdered ref).state = c.retryLocked ref a := by
  unfold advanceOrdered
  split
  · exact .inl rfl
  next action hg =>
  split
  · exact .inl rfl
  next s hs =>
  split
  · exact .inl rfl
  next hst =>
  rw [not_not] at hst
  split
  · exact .inl rfl
  next hat =>
  split
  · exact .inl rfl
  next how =>
  exact .inr ⟨action, s, hc.poised (hc.kept _ _ _ hg hst hs) hst
    (owned_of_check hs how (hc.directory.admitted hg).defined), hs,
    (Session.activeLocked_eq_ok_iff.mp hat).2, rfl⟩

lemma retried (hp : Poised c ref a) : Sound slip (c.retryLocked ref a) := by
  have hf := c.retryLocked_frame ref a
  have hshape := hc.shaped ref a hp.retained.heap
  have hdecides := retryLocked_decides hp hshape
  exact ⟨hc.directory.of_frame hf,
    .retryLocked hp (hshape.pending_body hp.pending).2,
    hdecides.shaped fun other a _ h => hc.shaped other a h,
    hc.kept.of_decides hf hp.retained hdecides⟩

/-! ## Removal -/

lemma dropLocked (hs : c.sessions.get? key.session = some s) : Sound slip (c.dropLocked key) :=
  ⟨hc.directory.of_frame (c.dropLocked_frame key),
    (hc.ledger.dropLocked hc.directory hs).1,
    hc.shaped.dropLocked key,
    hc.kept.of_frame (c.dropLocked_frame key) fun hg hst =>
      .inl (dropLocked_quiets c key _ _ hg hst)⟩

end

/-! ## Lookup and cancellation -/

/-- What a successful lookup returns. -/
structure Found (c : Coordinator) (session : ℕ) (id : LockRequestID)
    (action : Request) (ref : RequestRef) : Prop where
  heap : c.heap ref = some action
  listed : ∃ s, c.session? session = some s ∧ s.actions.get? id = some ref

lemma requestLocked_found (c : Coordinator) (session owner : ℕ) (id : LockRequestID) :
    Aging c (c.requestLocked session owner id).state ∧ ∀ {action ref},
        (c.requestLocked session owner id).result = .ok (action, ref) →
        Found (c.requestLocked session owner id).state session id action ref := by
  have hag := c.advanced_aging session
  unfold requestLocked
  split
  · exact ⟨.refl, fun h => by cases h⟩
  split
  · exact ⟨.refl, fun h => by cases h⟩
  split
  · exact ⟨.refl, fun h => by cases h⟩
  split
  · next hnex =>
    rw [hnex] at hag
    exact ⟨hag, fun h => by cases h⟩
  next hnex =>
  rw [hnex] at hag
  split
  · exact ⟨hag, fun h => by cases h⟩
  next ref hls =>
  split
  · exact ⟨hag, fun h => by cases h⟩
  next action hg =>
  split
  · exact ⟨hag, fun h => by cases h⟩
  refine ⟨hag, fun {a r} hresult => ?_⟩
  obtain ⟨rfl, rfl⟩ := Prod.mk.inj (Except.ok.inj hresult)
  exact ⟨hg, Option.bind_eq_some_iff.mp hls⟩

lemma findLocked_found (c : Coordinator) (session node owner : ℕ) (id : LockRequestID) :
    Aging c (c.findLocked session node owner id).state ∧ ∀ {action ref},
        (c.findLocked session node owner id).result = .ok (action, ref) →
        Found (c.findLocked session node owner id).state session id action ref ∧
          action.key.node = node := by
  obtain ⟨hag, hfd⟩ := requestLocked_found c session owner id
  unfold findLocked
  revert hag hfd
  generalize c.requestLocked session owner id = outcome
  intro hag hfd
  obtain ⟨next, result⟩ := outcome
  cases result with
  | error failure => exact ⟨hag, fun h => by cases h⟩
  | ok pair =>
    simp only
    split
    · exact ⟨hag, fun h => by cases h⟩
    next hnode =>
    refine ⟨hag, fun {a r} hresult => ?_⟩
    obtain ⟨rfl, rfl⟩ := Prod.mk.inj (Except.ok.inj hresult)
    exact ⟨hfd rfl, not_not.mp hnode⟩

lemma Found.retained (hc : Sound slip c) {id : LockRequestID}
    {action : Request} (hfd : Found c session id action ref) :
    Retained c ref action ∧ action.id = id ∧ action.key.session = session := by
  obtain ⟨s, hkn, hls⟩ := hfd.listed
  unfold session? at hkn
  cases hs : c.sessions.get? session with
  | some found =>
    rw [hs] at hkn
    cases hkn
    obtain ⟨a, hk, hid, hsess⟩ := hc.directory.retained hs hls
    have hsm : a = action := Option.some.inj
      (hk.heap.symm.trans hfd.heap)
    subst hsm
    exact ⟨hk, hid, hsess⟩
  | none =>
    rw [hs] at hkn
    rw [(hc.directory.gone hkn).2.2.2.1, Table.get?_empty] at hls
    cases hls

lemma complete (hc : Sound slip c) (hk : Retained c ref a) (hst : state ≠ .pending)
    (hshape : ∀ expires, (a.completed state none expires).Shape slip) :
    Sound slip (c.completeLocked ref state none) :=
  ⟨hc.directory.of_frame (c.completeLocked_frame ref state none),
    hc.ledger.completeLocked hk state none,
    hc.shaped.complete hk.heap hshape,
    hc.kept.of_frame (c.completeLocked_frame ref state none)
      fun hg hpd => .inl (completeLocked_quiets hst none _ _ hg hpd)⟩

end Sound

end RemoteFs.Advisory
