import RemoteFs.Lib.Callers
import RemoteFs.Storage.Failure

/-!
# The gate of a replica

`replicaGate` of `packages/metastore/sqlite/replica_gate.go`.  A step is a section
under `mu`; a caller that waits goes on once its channel is closed or its context is
done.  A reader that waits on a batch below the current one has been granted.
-/

namespace RemoteFs.Metastore

open Storage

inductive GatePhase where
  /-- `since` records how many writers had been admitted when the wait began. -/
  | waiting (batch since : ℕ)
  | reading
  | pending (channel : Option ℕ)
  | writing
  | refused (err : Failure)
  | released

structure ReplicaGate where
  activeReaders : ℤ := 0
  writerActive : Bool := false
  pendingWriters : ℤ := 0
  waitingReaders : ℤ := 0
  readerBatch : ℕ := 0
  changed : ℕ := 0
  callers : Table ℕ GatePhase := .empty
  /-- The writers admitted so far, which the code does not count. -/
  writes : ℕ := 0

namespace ReplicaGate

variable (g : ReplicaGate)

def acquireRead : Option Failure → ReplicaGate × GatePhase
  | some err => (g, .refused err)
  | none =>
    if g.writerActive = false ∧ g.pendingWriters = 0 then
      ({ g with activeReaders := g.activeReaders + 1 }, .reading)
    else
      ({ g with waitingReaders := g.waitingReaders + 1 }, .waiting g.readerBatch g.writes)

def releaseReadLocked : ReplicaGate :=
  { g with
    activeReaders := g.activeReaders - 1
    changed := if g.activeReaders - 1 = 0 then g.changed + 1 else g.changed }

/-- The second section of `acquireRead`. -/
def resumeRead (batch : ℕ) : Option Failure → ReplicaGate × GatePhase
  | some err =>
    (if batch = g.readerBatch then { g with waitingReaders := g.waitingReaders - 1 }
      else g.releaseReadLocked, .refused err)
  | none => (g, .reading)

def grantReadersLocked : ReplicaGate :=
  if g.waitingReaders = 0 then g
  else { g with
    activeReaders := g.activeReaders + g.waitingReaders
    waitingReaders := 0
    readerBatch := g.readerBatch + 1 }

def notifyLocked : ReplicaGate := { g with changed := g.changed + 1 }

/-- One iteration of the loop of `acquireWrite`. -/
def tryWrite : Option Failure → ReplicaGate × GatePhase
  | some err =>
    let left := { g with pendingWriters := g.pendingWriters - 1 }
    (if g.writerActive = false ∧ g.pendingWriters - 1 = 0 then
      left.grantReadersLocked.notifyLocked
    else left.notifyLocked, .refused err)
  | none =>
    if g.writerActive = false ∧ g.activeReaders = 0 then
      ({ g with
        pendingWriters := g.pendingWriters - 1
        writerActive := true
        writes := g.writes + 1 }, .writing)
    else (g, .pending (some g.changed))

def acquireWrite : Option Failure → ReplicaGate × GatePhase :=
  { g with pendingWriters := g.pendingWriters + 1 }.tryWrite

def releaseWrite : ReplicaGate :=
  { g with writerActive := false }.grantReadersLocked.notifyLocked

inductive Action where
  | acquireRead (err : Option Failure)
  | acquireWrite (err : Option Failure)
  /-- The next section of the call the caller is in. -/
  | go (err : Option Failure)
  | releaseRead
  | releaseWrite

/-- A caller goes to its next phase. -/
@[simp] def put (id : ℕ) (reached : ReplicaGate × GatePhase) : ReplicaGate :=
  { reached.1 with callers := reached.1.callers.set id reached.2 }

def exec (step : ℕ × Action) : ReplicaGate :=
  match g.callers.get? step.1, step.2 with
  | none, .acquireRead err => put step.1 (g.acquireRead err)
  | some (.waiting batch _), .go err =>
    if err.isSome ∨ batch < g.readerBatch then put step.1 (g.resumeRead batch err) else g
  | some .reading, .releaseRead => put step.1 (g.releaseReadLocked, .released)
  | none, .acquireWrite err => put step.1 (g.acquireWrite err)
  | some (.pending channel), .go err =>
    if err.isSome ∨ ∀ n ∈ channel, n < g.changed then put step.1 (g.tryWrite err) else g
  | some .writing, .releaseWrite => put step.1 (g.releaseWrite, .released)
  | _, _ => g

end ReplicaGate

namespace GatePhase

/-- The active readers, active writers, pending writers and waiting readers a caller
counts for, with its batch of readers granted or not. -/
@[simp] def holds (readerBatch : ℕ) : GatePhase → ℤ × ℤ × ℤ × ℤ
  | .waiting batch _ => if batch = readerBatch then (0, 0, 0, 1) else (1, 0, 0, 0)
  | .reading => (1, 0, 0, 0)
  | .pending _ => (0, 0, 1, 0)
  | .writing => (0, 1, 0, 0)
  | _ => 0

@[simp] def channel? : GatePhase → Option ℕ
  | .pending channel => channel
  | _ => none

lemma holds_nonneg (readerBatch : ℕ) (phase : GatePhase) : 0 ≤ phase.holds readerBatch := by
  unfold holds
  split
  · split <;> simp [Prod.le_def]
  all_goals simp [Prod.le_def]

end GatePhase

namespace ReplicaGate

/-- The writers a reader that waits now could find admitted in the end. -/
def ahead (g : ReplicaGate) : ℕ := g.writes + if g.writerActive then 0 else 1

/-- No reader that waits is overtaken twice. -/
def Fair (g : ReplicaGate) : Prop :=
  ∀ id batch since, g.callers.get? id = some (.waiting batch since) →
    batch ≤ g.readerBatch ∧ (batch = g.readerBatch → g.ahead ≤ since + 1)

def Free (g : ReplicaGate) : Prop := g.writerActive = false ∧ g.activeReaders = 0

def component (readerBatch : ℕ) : Component ReplicaGate GatePhase (ℤ × ℤ × ℤ × ℤ) where
  callers := callers
  counters g := (g.activeReaders, if g.writerActive then 1 else 0, g.pendingWriters,
    g.waitingReaders)
  changed := changed
  holds := GatePhase.holds readerBatch
  channel? := GatePhase.channel?
  Ready g _ := g.Free
  Within := Fair

abbrev Sound (g : ReplicaGate) : Prop := (component g.readerBatch).Sound g

structure Orderly (g : ReplicaGate) : Prop where
  sound : g.Sound
  excludes : g.writerActive → g.activeReaders = 0
  waits : g.waitingReaders ≠ 0 → g.writerActive ∨ g.pendingWriters ≠ 0

variable {g : ReplicaGate} {id : ℕ}

section Sound

variable (h : g.Sound)

include h

lemma nonneg : 0 ≤ g.activeReaders ∧ 0 ≤ g.pendingWriters ∧ 0 ≤ g.waitingReaders := by
  have hpos := h.nonneg (GatePhase.holds_nonneg _)
  exact ⟨hpos.1, hpos.2.2.1, hpos.2.2.2⟩

/-- A section takes its caller to a phase and the counters with it. -/
lemma goes_to {writer : Bool}
    {changed writes : ℕ} (hcount : (active, if writer then 1 else 0, pending, waiting) +
        (g.callers.get? id).elim 0 (GatePhase.holds g.readerBatch) =
      (g.activeReaders, if g.writerActive then 1 else 0, g.pendingWriters, g.waitingReaders) +
        next.holds g.readerBatch) (hchannel : ∀ channel, next.channel? = some channel →
      channel = changed ∧ ¬(writer = false ∧ active = 0) := by simp)
    (hnext : ∀ batch since, next = .waiting batch since →
      batch = g.readerBatch ∧ since = writes := by simp)
    (hahead : writes + (if writer then 0 else 1) ≤ g.ahead ∨ g.waitingReaders = 0 := by
      grind [ahead])
    (hnotified : g.changed < changed ∨ g.changed = changed ∧
      (writer = false ∧ active = 0 → g.Free) := by grind [Free])
    (hexcludes : writer → active = 0 := by grind)
    (hwaits : waiting ≠ 0 → writer ∨ pending ≠ 0 := by grind) :
    Orderly { g with
      callers := g.callers.set id next
      activeReaders := active
      writerActive := writer
      pendingWriters := pending
      waitingReaders := waiting
      changed, writes } := by
  refine ⟨h.goes ⟨rfl, hcount, hnotified.imp_right fun hfr => ⟨hfr.1, fun _ => hfr.2⟩,
    hchannel, fun other batch since hg => ?_⟩, hexcludes, hwaits⟩
  rcases Table.set_cases hg with ⟨-, heq⟩ | ⟨-, hg⟩
  · obtain ⟨rfl, rfl⟩ := hnext batch since heq.symm
    refine ⟨le_rfl, fun _ => ?_⟩
    simp only [ahead]
    split <;> omega
  obtain ⟨hle, hfair⟩ := h.within other batch since hg
  refine ⟨hle, fun hbatch => ?_⟩
  rcases hahead with hahead | hn
  · exact hahead.trans (hfair hbatch)
  · have hone := (h.holds_le (GatePhase.holds_nonneg _) hg).2.2.2
    simp [component, hbatch, hn] at hone

end Sound

/-- What a grant makes of the counters. -/
def granted : ℤ × ℤ × ℤ × ℤ →+ ℤ × ℤ × ℤ × ℤ where
  toFun counters := (counters.1 + counters.2.2.2, counters.2.1, counters.2.2.1, 0)
  map_zero' := rfl
  map_add' first second := by
    simp only [Prod.fst_add, Prod.snd_add, Prod.mk_add_mk, add_zero, Prod.mk.injEq, and_true]
    omega

lemma sum_granted (hfair : g.Fair) :
    (g.callers.sum fun _ => GatePhase.holds (g.readerBatch + 1)) =
      granted (g.callers.sum fun _ => GatePhase.holds g.readerBatch) := by
  have hph : ∀ key phase, g.callers.get? key = some phase →
      phase.holds (g.readerBatch + 1) = granted (phase.holds g.readerBatch) := by
    intro key phase hg
    cases phase with
    | waiting batch since =>
      have hle := (hfair key batch since hg).1
      have hne : batch ≠ g.readerBatch + 1 := by omega
      by_cases hbatch : batch = g.readerBatch <;> simp [granted, hbatch, hne]
    | reading | pending | writing | refused | released => rfl
  rw [Table.sum_congr hph]
  simp only [Table.sum, map_list_sum, List.map_map]
  rfl

lemma grant_sound (h : g.Sound) : g.grantReadersLocked.Sound := by
  unfold grantReadersLocked
  split_ifs with hn
  · exact h
  refine ⟨?_, fun other phase channel hg hchannel => ?_, fun other batch since hg => ?_⟩
  · exact (congrArg granted h.counters).trans (sum_granted h.within).symm
  · obtain ⟨hle, hnot⟩ := h.watched hg hchannel
    refine ⟨hle, fun heq hfr => hnot heq ?_⟩
    have hpos := nonneg h
    have hactive : g.activeReaders + g.waitingReaders = 0 := hfr.2
    exact ⟨hfr.1, by omega⟩
  · have hle := (h.within other batch since hg).1
    exact ⟨hle.trans (Nat.le_succ _), fun hbatch => by simp only at hbatch; omega⟩

variable (h : g.Orderly)

include h

lemma acquireRead_orderly (hg : g.callers.get? id = none) (err : Option Failure) :
    (put id (g.acquireRead err)).Orderly := by
  obtain ⟨hc, hexcludes, hwaits⟩ := h
  have hpos := nonneg hc
  unfold acquireRead
  cases err with
  | some err => exact goes_to hc (by simp [hg])
  | none =>
    simp only
    split_ifs with hfr
    · exact goes_to hc (by simp [hg])
    · exact goes_to hc (by simp [hg])

lemma releaseReadLocked_orderly (hg : g.callers.get? id = some phase)
    (hph : phase.holds g.readerBatch = (1, 0, 0, 0))
    (hnext : next = .released ∨ ∃ err, next = .refused err) :
    (put id (g.releaseReadLocked, next)).Orderly := by
  obtain ⟨hc, hexcludes, hwaits⟩ := h
  have hle := hc.holds_le (GatePhase.holds_nonneg _) hg
  rw [show (component g.readerBatch).holds phase = _ from hph] at hle
  have hone : 1 ≤ g.activeReaders := hle.1
  unfold releaseReadLocked
  rcases hnext with rfl | ⟨err, rfl⟩
  · exact goes_to hc (by rw [hg, Option.elim_some, hph]; simp)
  · exact goes_to hc (by rw [hg, Option.elim_some, hph]; simp)

lemma resumeRead_orderly {batch since : ℕ}
    (hg : g.callers.get? id = some (.waiting batch since))
    (hgo : err.isSome ∨ batch < g.readerBatch) : (put id (g.resumeRead batch err)).Orderly := by
  have horderly := h
  obtain ⟨hc, hexcludes, hwaits⟩ := h
  unfold resumeRead
  cases err with
  | some err =>
    simp only
    split_ifs with hbatch
    · have hone := (hc.holds_le (GatePhase.holds_nonneg _) hg).2.2.2
      simp only [component, GatePhase.holds, if_pos hbatch] at hone
      exact goes_to hc (by simp [hg, hbatch])
    · exact releaseReadLocked_orderly horderly hg (by simp [hbatch]) (.inr ⟨_, rfl⟩)
  | none =>
    have hne : batch ≠ g.readerBatch := by simp at hgo; omega
    exact goes_to hc (by simp [hg, hne])

/-- The writer is pending already, or is so from now on. -/
lemma tryWrite_orderly {n : ℕ}
    (hg : ∀ batch, (g.callers.get? id).elim 0 (GatePhase.holds batch) = (0, 0, 1 - (n : ℤ), 0))
    (err : Option Failure) :
    (put id ({ g with pendingWriters := g.pendingWriters + n }.tryWrite err)).Orderly := by
  obtain ⟨hc, hexcludes, hwaits⟩ := h
  have hpos := nonneg hc
  unfold tryWrite
  cases err with
  | some err =>
    simp only [grantReadersLocked, notifyLocked]
    split_ifs with hlast hn
    · exact goes_to hc (by simp [hg])
    · -- the grant and the leaving writer do not meet
      have hgrant := grant_sound hc
      rw [grantReadersLocked, if_neg hn] at hgrant
      exact goes_to hgrant (by simp [hg])
    · exact goes_to hc (by simp [hg])
  | none =>
    simp only
    split_ifs with hfr
    · exact goes_to hc (by simp [hg, hfr])
    · exact goes_to hc (by simp [hg]) (by simpa using hfr)

lemma releaseWrite_orderly (hg : g.callers.get? id = some .writing) :
    (put id (g.releaseWrite, .released)).Orderly := by
  obtain ⟨hc, hexcludes, hwaits⟩ := h
  have hwriter : g.writerActive := by
    have hle := (hc.holds_le (GatePhase.holds_nonneg _) hg).2.1
    by_contra hn
    simp [component, hn] at hle
  unfold releaseWrite grantReadersLocked notifyLocked
  split_ifs with hn
  · exact goes_to hc (by simp [hg, hwriter])
  · have hgrant := grant_sound hc
    rw [grantReadersLocked, if_neg hn] at hgrant
    exact goes_to hgrant (by simp [hg, hwriter])

lemma exec_orderly (step : ℕ × Action) : (g.exec step).Orderly := by
  unfold exec
  split
  · next hg _ => exact acquireRead_orderly h hg _
  · next hg _ =>
    split_ifs with hgo
    · exact resumeRead_orderly h hg hgo
    · exact h
  · next hg _ => exact releaseReadLocked_orderly h hg rfl (.inl rfl)
  · next hg _ => exact tryWrite_orderly (n := 1) h (fun _ => by rw [hg]; rfl) _
  · next hg _ =>
    split_ifs
    · have horderly := tryWrite_orderly (n := 0) h fun _ => by rw [hg]; rfl
      rw [Int.natCast_zero, add_zero] at horderly
      exact horderly _
    · exact h
  · next hg _ => exact releaseWrite_orderly h hg
  · exact h

omit h

/-- Every run of readers and writers. -/
theorem replica_gate_orderly (steps : List (ℕ × Action)) :
    let g := steps.foldl exec {}
    (g.activeReaders, if g.writerActive then 1 else 0, g.pendingWriters, g.waitingReaders) =
      g.callers.sum (fun _ => GatePhase.holds g.readerBatch) ∧
    (g.writerActive → g.activeReaders = 0) ∧
    -- readers wait only for writers
    (∀ id since, g.callers.get? id = some (.waiting g.readerBatch since) →
      g.writerActive ∨ g.pendingWriters ≠ 0) ∧
    -- a reader that waits is overtaken by one writer at most
    (∀ id since, g.callers.get? id = some (.waiting g.readerBatch since) → g.writes ≤ since + 1) ∧
    -- who is cancelled or releases counts for nothing any more
    (∀ id phase err, g.callers.get? id = some phase →
      (∀ batch since, phase = .waiting batch since →
        (g.exec (id, .go (some err))).callers.get? id = some (.refused err)) ∧
      (∀ channel, phase = .pending channel →
        (g.exec (id, .go (some err))).callers.get? id = some (.refused err)) ∧
      (phase = .reading → (g.exec (id, .releaseRead)).callers.get? id = some .released) ∧
      (phase = .writing → (g.exec (id, .releaseWrite)).callers.get? id = some .released)) ∧
    -- the channel of a writer that could be admitted has been closed
    ∀ id channel, g.callers.get? id = some (.pending (some channel)) →
      g.writerActive = false ∧ g.activeReaders = 0 → channel < g.changed := by
  intro g
  have hempty : Fair {} := fun id _ _ hg => by cases (Table.get?_empty id).symm.trans hg
  have h : g.Orderly := Runs.invariant (motive := Orderly) (fun _ step h => exec_orderly h step)
    ⟨.of_empty rfl rfl hempty, by simp, by simp⟩ steps
  refine ⟨h.sound.counters, h.excludes, fun id since hg => h.waits ?_,
    fun id since hg => ?_, fun id phase err hg => ?_,
    fun id channel hg hfr => h.sound.closed hg rfl hfr⟩
  · have hone := (h.sound.holds_le (GatePhase.holds_nonneg _) hg).2.2.2
    simp only [component, GatePhase.holds, if_true] at hone
    omega
  · have hahead := (h.sound.within id _ since hg).2 rfl
    exact (Nat.le_add_right _ _).trans hahead
  · refine ⟨?_, ?_, ?_, ?_⟩
    all_goals
      intros
      subst phase
      simp [exec, hg, resumeRead, tryWrite]

end ReplicaGate

end RemoteFs.Metastore
