import RemoteFs.Lib.Runs
import RemoteFs.Advisory.Retirement

/-!
# What holds in every reachable state

A run starts from a coordinator that `New` returned and takes any sequence of
critical sections.  All its states are sound; this module reads off mutual
exclusion of the held ranges and the agreement of all counters and limits.
-/

namespace RemoteFs.Advisory

open Storage Coordinator

variable {c : Coordinator} {config : Config} {slip : Prop} {a : Request}

lemma Config.check_eq_ok (hcheck : config.check = .ok ()) :
    0 < config.maxOwners ∧ 0 < config.maxRanges ∧ 0 < config.maxRequests ∧
      0 ≤ config.maxWaiters := by
  unfold Config.check at hcheck
  rw [check_bind_ok, refuse_ok] at hcheck
  obtain ⟨hlimits, -⟩ := hcheck
  push Not at hlimits
  obtain ⟨-, howners, hranges, hrequests, hwaiters, -⟩ := hlimits
  exact ⟨howners, hranges, hrequests, hwaiters⟩

variable {now : ℕ → Time}

lemma new_eq_ok (hnew : new config now = .ok c) :
    config.check = .ok () ∧ c = .empty config now := by
  unfold new at hnew
  cases hcheck : config.check with
  | error failure =>
    rw [hcheck] at hnew
    cases hnew
  | ok _ =>
    rw [hcheck] at hnew
    exact ⟨rfl, (Except.ok.inj hnew).symm⟩

lemma new_default : new DefaultConfig (fun _ => 0) =
    .ok (.empty DefaultConfig fun _ => 0) := rfl

lemma sound_new (hnew : new config now = .ok c) : Sound slip c := by
  obtain ⟨hcheck, rfl⟩ := new_eq_ok hnew
  obtain ⟨howners, hranges, hrequests, hwaiters⟩ := Config.check_eq_ok hcheck
  have hn : ∀ {κ α : Type} [DecidableEq κ] {key : κ} {value : α},
      (Table.empty : Table κ α).get? key ≠ some value := by
    intro κ α _ key value hg
    rw [Table.get?_empty] at hg
    cases hg
  refine ⟨?_, ?_, ?_, ?_⟩
  · exact {
      session := fun hg => absurd hg hn
      gone := fun hg => absurd hg hn
      owners := fun hg => absurd hg hn
      indexed := fun hg => absurd hg hn
      allocated := fun hg => by cases hg
      admitted := fun hg => by cases hg
      born := fun hg => by cases hg
      requests := rfl
      registered := rfl
      requestsBound := hrequests.le
      ownersBound := by
        change (0 : ℤ) + ((0 : ℕ) : ℤ) ≤ config.maxOwners
        omega }
  · exact {
      exclusion := ⟨fun hg => absurd hg hn, fun hg => absurd hg hn⟩
      owned := fun hg => absurd hg hn
      populated := fun hg => absurd hg hn
      ranges := rfl
      sessionRanges := fun hg => absurd hg hn
      rangesBound := hranges.le
      sessionRangesBound := fun hg => absurd hg hn
      queue := {
        nodup := List.nodup_nil
        waiting := by
          intro ref
          constructor
          · intro hm
            cases hm
          · rintro ⟨a, hk, -⟩
            cases hk.heap
        unsettled := fun hk => by cases hk.heap
        queued := fun hm => absurd hm List.not_mem_nil
        ownerPending := fun hg => absurd hg hn
        sessionPending := fun hg => absurd hg hn
        bound := hwaiters } }
  · intro ref a hg
    cases hg
  · intro ref a s hg
    cases hg

lemma sound_run (hnew : new config now = .ok c) (halong : Runs.Along Coordinator.exec
      (fun c step => c.OverdrawnBy step → slip) c steps) :
    Sound slip (steps.foldl Coordinator.exec c) :=
  halong.invariant (fun _ step hc hslip => hc.exec step hslip) (sound_new hnew)

lemma sound_of_run (hnew : new config now = .ok c) (steps : List Section) :
    Sound True (steps.foldl Coordinator.exec c) :=
  Runs.invariant (fun _ step hc => hc.exec step fun _ => trivial) (sound_new hnew) steps

/-! ## Mutual exclusion -/

def sampleRequest (serial : UInt8) : LockRequestID :=
  [49, 58] ++ List.replicate 31 48 ++ [serial]

def byteLock (mode : RangeMode) (edit : RangeEdit) (start length : UInt64)
    (wait : Bool) : RangeCommand :=
  ⟨.record, mode, ⟨.bytes, start, length, 0⟩, edit, [], wait,
    .preserveBeforeAcquire, .zero⟩

/-- Two owners of one session share bytes of node 7. -/
def sampleRun : List Section :=
  [.newSession DefaultFileSessionOptions true,
    .newOwner 1 7 ⟨[97]⟩ ⟨.explicit, 0, 1⟩,
    .newOwner 1 7 ⟨[98]⟩ ⟨.explicit, 0, 2⟩,
    .apply 1 7 1 [byteLock .shared .replace 0 10 false] (sampleRequest 49),
    .apply 1 7 2 [byteLock .shared .replace 5 10 false] (sampleRequest 50)]

/-- In every reachable state, distinct owner keys of one node and one conflict
domain hold overlapping ranges only if both are shared, and behind every owner
key stands a live session with a live registration. -/
theorem held_ranges_exclusive {config : Config} {now : ℕ → Time}
    {c₀ : Coordinator} (hnew : new config now = .ok c₀) (steps : List Section) :
    (∀ key other state rival, (steps.foldl exec c₀).owners.get? key = some state →
      (steps.foldl exec c₀).owners.get? other = some rival →
      other ≠ key → other.node = key.node → other.domain = key.domain →
      ∀ claim ∈ state.ranges, ∀ held ∈ rival.ranges,
        overlaps held.command.range claim.command.range = true →
        held.command.mode = .shared ∧ claim.command.mode = .shared) ∧
    ∀ key state, (steps.foldl exec c₀).owners.get? key = some state →
      ∃ s binding, (steps.foldl exec c₀).sessions.get? key.session = some s ∧
        s.bindings.get? key.owner = some binding ∧
        binding.node = key.node := by
  have hl := (sound_of_run hnew steps).ledger
  refine ⟨?_, ?_⟩
  · intro key other state rival hg hrival hne hnode hdomain claim hclaim held hheld hoverlap
    have hfree := hl.exclusion.free hg claim hclaim other rival hrival
      (rivals_iff.mpr ⟨hne, hnode, hdomain⟩) held hheld
    simpa [clashes, hoverlap] using hfree
  · intro key state hg
    obtain ⟨s, binding, hs, hbinding, hnode, -⟩ := hl.owned hg
    exact ⟨s, binding, hs, hbinding, hnode⟩

theorem held_ranges_exclusive_sample : ∃ state rival,
      (sampleRun.foldl exec (.empty DefaultConfig fun _ => 0)).owners.get?
        ⟨1, 1, 7, .record⟩ = some state ∧
      (sampleRun.foldl exec (.empty DefaultConfig fun _ => 0)).owners.get?
        ⟨1, 2, 7, .record⟩ = some rival ∧
      state.ranges.length = 1 ∧ rival.ranges.length = 1 ∧
      ∀ claim ∈ state.ranges, ∀ held ∈ rival.ranges,
        overlaps held.command.range claim.command.range = true →
        held.command.mode = .shared ∧ claim.command.mode = .shared := by
  refine ⟨⟨[⟨[], byteLock .shared .replace 0 10 false⟩], 0⟩,
    ⟨[⟨[], byteLock .shared .replace 5 10 false⟩], 0⟩, rfl, rfl, rfl, rfl, ?_⟩
  exact (held_ranges_exclusive new_default sampleRun).1 ⟨1, 1, 7, .record⟩
    ⟨1, 2, 7, .record⟩ _ _ rfl rfl (by decide) rfl rfl

/-! ## Counters and limits -/

lemma Request.Shape.effects_le (hshape : a.Shape slip) :
    a.result.effects.length ≤ maxRangeEffects := by
  have hbo := hshape.body
  unfold Request.Body at hbo
  split at hbo
  · exact hbo.1.size
  · exact hbo.1.size
  · exact hbo.1.size
  · exact hbo.size
  · exact hbo.size
  · exact hbo.elim

lemma Request.Applied.claims_le (happlied : a.Applied)
    (hcount : a.commands.length ≤ maxRangeCommands) :
    a.result.claims.length ≤ maxRangeClaims := by
  rw [happlied.claims]
  refine (List.length_filterMap_le _ _).trans ?_
  rwa [List.length_zipIdx]

lemma Request.Shape.claims_le (hshape : a.Shape slip)
    (hcount : a.commands.length ≤ maxRangeCommands) :
    a.result.claims.length ≤ maxRangeClaims := by
  have hbo := hshape.body
  unfold Request.Body at hbo
  split at hbo
  · rw [hbo.1.claims]
    exact Nat.zero_le _
  · exact hbo.1.claims_le hcount
  · exact hbo.1.claims_le hcount
  · rw [hbo.claims]
    exact Nat.zero_le _
  · rw [hbo.claims]
    exact Nat.zero_le _
  · exact hbo.elim

/-- The counters of a coordinator agree with what they count, and nothing
exceeds its limit. -/
structure Balanced (c : Coordinator) : Prop where
  ranges : c.ranges = c.owners.total fun _ state => state.ranges.length
  sessionRanges : ∀ {id s}, c.sessions.get? id = some s →
    s.ranges = c.owners.total fun key state => if key.session = id then state.ranges.length else 0
  requests : c.requests = c.sessions.total fun _ s => s.actions.size
  registeredOwners : c.registeredOwners = c.sessions.total fun _ s => s.bindings.size
  owners : ∀ {id s}, c.sessions.get? id = some s → s.owners = s.bindings.size
  waitingOnce : c.waiting.Nodup
  waiting : ∀ {ref}, ref ∈ c.waiting ↔ ∃ id s request a, c.sessions.get? id = some s ∧
      s.actions.get? request = some ref ∧ c.heap ref = some a ∧
      a.pending = true
  waitingState : ∀ {ref a}, ref ∈ c.waiting → c.heap ref = some a → a.result.state = .pending
  sessionPending : ∀ {id s}, c.sessions.get? id = some s → s.pending = c.waiting.countP fun ref =>
      (c.keyOf ref).any fun key => decide (key.session = id)
  ownerPending : ∀ {key state}, c.owners.get? key = some state →
    state.pending = c.waiting.countP fun ref =>
      (c.keyOf ref).any fun other => decide (other = key)
  populated : ∀ key, (∃ state, c.owners.get? key = some state) ↔
    c.heldRanges key ≠ [] ∨ ∃ ref ∈ c.waiting, c.keyOf ref = some key
  rangesBound : c.ranges ≤ c.config.maxRanges
  sessionRangesBound : ∀ {id s}, c.sessions.get? id = some s → s.ranges ≤ s.options.maxLockRanges
  requestsBound : c.requests ≤ c.config.maxRequests
  waitingBound : (c.waiting.length : ℤ) ≤ c.config.maxWaiters
  ownersBound : c.registeredOwners + c.uses.size ≤ c.config.maxOwners
  receiptBound : ∀ {ref a}, c.heap ref = some a →
    a.result.effects.length ≤ 64 ∧ a.result.claims.length ≤ 64

/-- An owner state exists exactly while its key holds or awaits something. -/
lemma Ledger.populated_iff (hl : Ledger ∅ c) (key : OwnerKey) :
    (∃ state, c.owners.get? key = some state) ↔
      c.heldRanges key ≠ [] ∨ ∃ ref ∈ c.waiting, c.keyOf ref = some key := by
  constructor
  · rintro ⟨state, hg⟩
    rcases hl.populated hg (Set.notMem_empty key) with hranges | hp
    · rw [Ledger.heldRanges_eq hg]
      exact .inl hranges
    rw [hl.queue.ownerPending hg, Nat.cast_pos,
      Coordinator.waitersOf, List.countP_pos_iff] at hp
    obtain ⟨ref, hm, hkey⟩ := hp
    obtain ⟨a, hk, -⟩ := hl.queue.waiting.mp hm
    have hkeyOf : c.keyOf ref = some a.key := by simp [Coordinator.keyOf, hk.heap]
    rw [hkeyOf, Option.any_some, decide_eq_true_eq] at hkey
    exact .inr ⟨ref, hm, hkeyOf.trans (congrArg some hkey)⟩
  · rintro (hranges | ⟨ref, hm, hkey⟩)
    · unfold heldRanges at hranges
      cases hg : c.owners.get? key with
      | none => simp [hg] at hranges
      | some state => exact ⟨state, rfl⟩
    · obtain ⟨a, ha, rfl⟩ := Option.map_eq_some_iff.mp hkey
      exact hl.queue.queued hm ha

lemma Sound.balanced (hc : Sound slip c) : Balanced c where
  ranges := hc.ledger.ranges
  sessionRanges := hc.ledger.sessionRanges
  requests := hc.directory.requests
  registeredOwners := hc.directory.registered
  owners := fun hs => (hc.directory.owners hs).1
  waitingOnce := hc.ledger.queue.nodup
  waiting := by
    intro ref
    rw [hc.ledger.queue.waiting]
    constructor
    · rintro ⟨a, ⟨hheap, s, hs, hac⟩, hp⟩
      exact ⟨a.key.session, s, a.id, a, hs, hac, hheap, hp⟩
    · rintro ⟨id, s, request, a, hs, hac, hheap, hp⟩
      obtain ⟨b, hk, -⟩ := hc.directory.retained hs hac
      have hsm : b = a := Option.some.inj (hk.heap.symm.trans hheap)
      exact ⟨a, hsm ▸ hk, hp⟩
  waitingState := by
    intro ref a hm hheap
    obtain ⟨b, hk, hp⟩ := hc.ledger.queue.waiting.mp hm
    have hsm : b = a := Option.some.inj (hk.heap.symm.trans hheap)
    subst hsm
    exact hc.ledger.queue.unsettled hk hp
  sessionPending := hc.ledger.queue.sessionPending
  ownerPending := hc.ledger.queue.ownerPending
  populated := hc.ledger.populated_iff
  rangesBound := hc.ledger.rangesBound
  sessionRangesBound := hc.ledger.sessionRangesBound
  requestsBound := hc.directory.requestsBound
  waitingBound := hc.ledger.queue.bound
  ownersBound := hc.directory.ownersBound
  receiptBound := by
    intro ref a hheap
    have hshape := hc.shaped ref a hheap
    exact ⟨hshape.effects_le, hshape.claims_le (hc.directory.admitted hheap).count⟩

theorem balanced_of_run {config : Config} {now : ℕ → Time} {c₀ : Coordinator}
    (hnew : new config now = .ok c₀) (steps : List Section) :
    Balanced (steps.foldl exec c₀) :=
  (sound_of_run hnew steps).balanced

theorem balanced_of_run_sample :
    new DefaultConfig (fun _ => 0) = .ok (.empty DefaultConfig fun _ => 0) ∧
      Balanced (sampleRun.foldl exec (.empty DefaultConfig fun _ => 0)) :=
  ⟨rfl, balanced_of_run new_default sampleRun⟩

end RemoteFs.Advisory
