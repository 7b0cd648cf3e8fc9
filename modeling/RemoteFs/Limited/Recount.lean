import RemoteFs.Limited.Ledger

/-!
# Recounting

`Recount` reads the revision, measures the volume and replaces the count if the
revision is still the same.  Every charge and every release advances the
revision, so an unchanged revision means that no publication was prepared since
the measurement, and the measurement itself excludes the publications that were
under way.
-/

namespace RemoteFs

open Storage (Failure PublicationResult)

namespace Limited
namespace System

variable {sys : System}

/-! ## Revisions -/

lemma reserve_eq_ok (hok : reserve s name delta = .ok (charged, s')) :
    s.fault = none ∧ ¬(0 < delta ∧ s.limit - s.count < delta) ∧ charged = max delta 0 ∧
      s' = { s with
        count := s.count + max delta 0
        revision := s.revision + 1 } := by
  unfold reserve at hok
  split at hok
  · cases hok
  rename_i hfault
  split_ifs at hok with hroom
  cases hok
  exact ⟨hfault, hroom, rfl, rfl⟩

/-- A step either leaves the publications, the usage and the revision as they
are, or changes a publication that is pending, or advances the revision. -/
structure Moves (sys sys' : System) : Prop where
  revision : sys.storage.revision ≤ sys'.storage.revision
  quiet : sys.pending = .empty → sys'.storage.revision = sys.storage.revision →
      sys'.pending = .empty ∧ sys'.usage = sys.usage

lemma Moves.of_eq (hrevision : sys'.storage.revision = sys.storage.revision)
    (hp : sys'.pending = sys.pending) (husage : sys'.usage = sys.usage) : Moves sys sys' :=
  ⟨hrevision.ge, fun hempty _ => ⟨hp.trans hempty, husage⟩⟩

lemma preparePublication_eq_ok (hok : preparePublication s name previous next = .ok (p, s')) :
    reserve s name (next - previous) = .ok (p.reserved, s') ∧
      p = ⟨name, next - previous, p.reserved, false⟩ := by
  simp only [preparePublication] at hok
  split at hok
  · cases hok
  · cases hok
    exact ⟨‹_›, rfl⟩

lemma moves_prepare (sys : System) (name : String) (previous next : Int64) :
    Moves sys (sys.prepare name previous next) := by
  unfold prepare
  split
  · exact .of_eq rfl rfl rfl
  rename_i p storage hok
  obtain ⟨hreserve, -⟩ := preparePublication_eq_ok hok
  obtain ⟨-, -, -, rfl⟩ := reserve_eq_ok hreserve
  exact ⟨Nat.le_succ _, fun _ hs => absurd hs (Nat.succ_ne_self _)⟩

lemma moves_commit (sys : System) (id : ℕ) : Moves sys (sys.commit id) := by
  unfold commit
  split
  · exact .of_eq rfl rfl rfl
  rename_i p hg
  split_ifs
  · exact .of_eq rfl rfl rfl
  · refine ⟨le_refl _, fun hempty => ?_⟩
    rw [hempty, Table.get?_empty] at hg
    cases hg

lemma settle_revision (p : Publication) (result : PublicationResult)
    (s : Storage) : s.revision ≤ (p.settle result s).1.revision := by
  unfold Publication.settle
  split
  · exact Nat.le_succ _
  · dsimp only
    split_ifs
    · exact Nat.le_succ _
    · exact le_refl _
  · exact le_refl _

lemma moves_settle (sys : System) (id : ℕ) (result : PublicationResult) :
    Moves sys (sys.settle id result) := by
  unfold settle
  split
  · exact .of_eq rfl rfl rfl
  rename_i p hg
  refine ⟨settle_revision p result sys.storage, fun hempty => ?_⟩
  rw [hempty, Table.get?_empty] at hg
  cases hg

lemma publicationError_revision (s : Storage) (err : Fault) :
    (Limited.publicationError s err).revision = s.revision := by
  unfold Limited.publicationError
  split_ifs <;> rfl

/-! ## What a measurement under way is worth -/

/-- The measurement that a call of `Recount` has under way: an unchanged revision
means that it is exact. -/
structure Sound (sys : System) : Prop where
  measuring : ∀ {attempt revision}, sys.recount = .measuring attempt revision →
    revision ≤ sys.storage.revision
  measured : ∀ {attempt revision count}, sys.recount = .measured attempt revision count →
      revision ≤ sys.storage.revision ∧ (sys.storage.revision = revision →
          sys.pending = .empty ∧ count.toInt = sys.usage)

/-- A measurement excludes the publications and answers what the volume holds. -/
def Exclusive (sys : System) : Step → Prop
  | .measure backing => sys.pending = .empty ∧ backing.Truthful sys.usage
  | _ => True

lemma Sound.of_moves (h : Sound sys) (hmoves : Moves sys sys')
    (hrecount : sys'.recount = sys.recount) : Sound sys' := by
  constructor
  · intro attempt revision hmeasuring
    exact (h.measuring (hrecount.symm.trans hmeasuring)).trans hmoves.revision
  · intro attempt revision count hmeas
    obtain ⟨hle, hexact⟩ := h.measured (hrecount.symm.trans hmeas)
    refine ⟨hle.trans hmoves.revision, fun hs => ?_⟩
    have hbefore : sys.storage.revision = revision :=
      le_antisymm (hmoves.revision.trans hs.le) hle
    obtain ⟨hempty, hcount⟩ := hexact hbefore
    obtain ⟨hstill, husage⟩ := hmoves.quiet hempty (hs.trans hbefore.symm)
    exact ⟨hstill, hcount.trans husage.symm⟩

lemma sound_of_idle (hidl : sys.recount = .idle last) : Sound sys := by
  constructor <;> intros <;> simp_all

lemma sound_of_reading {attempt : ℕ} (hreading : sys.recount = .reading attempt) : Sound sys := by
  constructor <;> intros <;> simp_all

lemma Sound.startRecount (h : Sound sys) : Sound sys.startRecount := by
  unfold System.startRecount
  split
  · split
    · exact sound_of_idle rfl
    · exact sound_of_reading rfl
  · exact h

lemma Sound.readRevision (h : Sound sys) : Sound sys.readRevision := by
  unfold System.readRevision
  split
  · constructor
    · intro attempt revision hmeasuring
      cases hmeasuring
      exact le_refl _
    · intro attempt revision count hmeas
      cases hmeas
  · exact h

lemma measureUsage_truthful {b : Backing} {usage : ℤ} (htruthful : b.Truthful usage)
    {count : Int64} (hok : measureUsage b = .ok count) : count.toInt = usage := by
  have hwalk : measureWalk b = .ok count → count.toInt = usage := by
    intro hwalk
    unfold measureWalk at hwalk
    split at hwalk
    · exact htruthful.walk count hwalk
    · cases hwalk
    · split_ifs at hwalk
      exact htruthful.walk count hwalk
  unfold measureUsage at hok
  split at hok
  · exact hwalk hok
  · rename_i n hsource
    split_ifs at hok
    cases hok
    exact htruthful.source _ hsource
  · split_ifs at hok
    exact hwalk hok

lemma Sound.measure (h : Sound sys) {backing : Backing}
    (hexc : Exclusive sys (.measure backing)) : Sound (sys.measure backing) := by
  unfold System.measure
  split
  · rename_i attempt revision hmeasuring
    split
    · exact sound_of_idle rfl
    rename_i count hok
    constructor
    · intro attempt revision heq
      cases heq
    · intro attempt revision count heq
      cases heq
      exact ⟨h.measuring hmeasuring, fun _ =>
        ⟨hexc.1, measureUsage_truthful hexc.2 hok⟩⟩
  · exact h

lemma Sound.replace (h : Sound sys) : Sound sys.replace := by
  unfold System.replace
  split
  · split
    · exact sound_of_idle rfl
    · split_ifs
      · exact sound_of_idle rfl
      · exact sound_of_reading rfl
      · exact sound_of_idle rfl
  · exact h

lemma prepare_recount (sys : System) (name : String) (previous next : Int64) :
    (sys.prepare name previous next).recount = sys.recount := by
  unfold prepare
  split <;> rfl

lemma commit_recount (sys : System) (id : ℕ) : (sys.commit id).recount = sys.recount := by
  unfold commit
  split
  · rfl
  · split_ifs <;> rfl

lemma settle_recount (sys : System) (id : ℕ) (result : PublicationResult) :
    (sys.settle id result).recount = sys.recount := by
  unfold settle
  split <;> rfl

lemma Sound.exec (h : Sound sys) (hexc : Exclusive sys step) : Sound (sys.exec step) := by
  cases step with
  | prepare name previous next =>
    exact h.of_moves (moves_prepare sys name previous next) (prepare_recount sys name previous next)
  | commit id => exact h.of_moves (moves_commit sys id) (commit_recount sys id)
  | settle id result => exact h.of_moves (moves_settle sys id result) (settle_recount sys id result)
  | publicationError err =>
    exact h.of_moves (.of_eq (publicationError_revision sys.storage err) rfl
      rfl) rfl
  | startRecount => exact h.startRecount
  | readRevision => exact h.readRevision
  | measure backing => exact h.measure hexc
  | replace => exact h.replace

/-! ## A successful `Recount` -/

def Returns (sys : System) (step : Step) (result : Except Failure Unit) : Prop :=
  (∀ last, sys.recount ≠ .idle last) ∧
    (sys.exec step).recount = .idle (some result)

def outstanding (sys : System) : ℤ :=
  sys.pending.sum fun _ p => max p.delta.toInt 0

lemma replace_eq {attempt : ℕ}
    (hmeas : sys.recount = .measured attempt sys.storage.revision count)
    (hfault : sys.storage.fault = none) :
    sys.replace = { sys with
      storage := { sys.storage with
        count
        revision := sys.storage.revision + 1 }
      recount := .idle (some (.ok ())) } := by
  simp [System.replace, hmeas, hfault]

lemma returns_ok (hreturns : Returns sys step (.ok ())) : step = .replace ∧ ∃ attempt count,
      sys.recount = .measured attempt sys.storage.revision count ∧
        (sys.exec step).storage.count = count ∧
        (sys.exec step).pending = sys.pending ∧
        (sys.exec step).usage = sys.usage := by
  obtain ⟨hbusy, hidl⟩ := hreturns
  cases step with
  | prepare name previous next =>
    exact absurd ((prepare_recount sys name previous next).symm.trans hidl) (hbusy _)
  | commit id => exact absurd ((commit_recount sys id).symm.trans hidl) (hbusy _)
  | settle id result => exact absurd ((settle_recount sys id result).symm.trans hidl) (hbusy _)
  | publicationError err => exact absurd hidl (hbusy _)
  | startRecount =>
    change sys.startRecount.recount = _ at hidl
    unfold System.startRecount at hidl
    split at hidl
    · exact absurd ‹_› (hbusy _)
    · exact absurd hidl (hbusy _)
  | readRevision =>
    change sys.readRevision.recount = _ at hidl
    unfold System.readRevision at hidl
    split at hidl
    · cases hidl
    · exact absurd hidl (hbusy _)
  | measure backing =>
    change (sys.measure backing).recount = _ at hidl
    unfold System.measure at hidl
    split at hidl
    · split at hidl <;> cases hidl
    · exact absurd hidl (hbusy _)
  | replace =>
    have hreturned : sys.replace.recount = .idle (some (.ok ())) := hidl
    unfold System.replace at hreturned
    split at hreturned
    · rename_i attempt revision count hmeas
      split at hreturned
      · cases hreturned
      rename_i hfault
      split_ifs at hreturned with hs hmore
      · subst hs
        have hreplace := replace_eq hmeas hfault
        refine ⟨rfl, attempt, count, hmeas, ?_⟩
        change sys.replace.storage.count = count ∧
          sys.replace.pending = sys.pending ∧ sys.replace.usage = sys.usage
        rw [hreplace]
        exact ⟨rfl, rfl, rfl⟩
      · cases hreturned
    · exact absurd hreturned (hbusy _)

/-- Whatever the count was before, after a `Recount` that succeeds it is what the
volume holds together with the outstanding growth. -/
theorem recount_restores_count {sys₀ : System}
    {last : Option (Except Failure Unit)} (hidl : sys₀.recount = .idle last)
    {steps : List Step} (hrun : Runs.Along exec Exclusive sys₀ steps) {step : Step} :
    let sys := steps.foldl exec sys₀
    Returns sys step (.ok ()) → (sys.exec step).storage.count.toInt =
        (sys.exec step).usage + (sys.exec step).outstanding := by
  intro sys hreturns
  have hc : Sound sys := Runs.Along.invariant (motive := Sound)
    (fun _ _ h hexc => h.exec hexc) (sound_of_idle hidl) hrun
  obtain ⟨-, attempt, count, hmeas, hcount, hp, husage⟩ :=
    returns_ok hreturns
  obtain ⟨hempty, hexact⟩ := (hc.measured hmeas).2 rfl
  have hnone : (sys.exec step).outstanding = 0 := by
    unfold outstanding
    rw [hp, hempty, Table.sum_empty]
  rwa [hcount, husage, hnone, add_zero]

/-! ### A retirement during the first measurement

The count is too high by ten bytes; a file of 100 bytes is retired between the
reading of the revision and the measurement, so a second attempt is made. -/

namespace Sample

def drifted : System := { initial 5000 300 with storage := ⟨5000, 310, none, 0⟩ }

def answer (count : Int64) : Backing := ⟨some (.ok count), none, .ok count⟩

def recounted : List Step :=
  [.startRecount, .readRevision, .prepare "pending cleanup" 100 0, .commit 0,
    .settle 0 .applied, .measure (answer 200), .replace, .readRevision,
    .measure (answer 200)]

end Sample

theorem recount_restores_count_after_retirement :
    (Sample.recounted.foldl exec Sample.drifted).storage.count = 210 ∧
      ((Sample.recounted.foldl exec Sample.drifted).exec .replace).storage.count.toInt =
        ((Sample.recounted.foldl exec Sample.drifted).exec .replace).usage +
          ((Sample.recounted.foldl exec Sample.drifted).exec .replace).outstanding := by
  have hanswer : (Sample.answer 200).Truthful 200 :=
    ⟨fun n heq => by cases heq; rfl, fun n heq => by cases heq; rfl⟩
  have hrun : Runs.Along exec Exclusive Sample.drifted Sample.recounted :=
    ⟨True.intro, True.intro, True.intro, True.intro, True.intro,
      ⟨rfl, hanswer⟩, True.intro, True.intro, ⟨rfl, hanswer⟩, True.intro⟩
  have hreturns : Returns (Sample.recounted.foldl exec Sample.drifted) .replace (.ok ()) :=
    ⟨fun last heq => Recount.noConfusion heq, rfl⟩
  exact ⟨rfl, recount_restores_count rfl hrun hreturns⟩

end System
end Limited
end RemoteFs
