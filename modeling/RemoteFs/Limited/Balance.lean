import RemoteFs.Limited.Recount

/-!
# The balance of the ledger

Growth is charged when a publication is prepared and takes effect when the
volume changes; shrinkage takes effect when the volume changes and is given back
at the settlement.  In either case the publication is charged for something that
the volume does not hold, and the count is what the volume holds together with
all these charges.  None of them is negative, so the count neither falls below
zero nor leaves the range of a machine word.
-/

namespace RemoteFs

open Storage (Failure PublicationResult)

namespace Limited

variable {sys : System} {id : ℕ} {p : Publication} {result : PublicationResult}
  {step : Step} {s : Storage}

/-- What a publication has changed so far. -/
def Publication.effect (p : Publication) : ℤ :=
  if p.committed then p.delta.toInt else 0

/-- What a publication is charged beyond its effect. -/
def Publication.owed (p : Publication) : ℤ := p.reserved.toInt - p.effect

/-- A publication as `preparePublication` makes it from sizes that are not
negative. -/
structure Publication.Regular (p : Publication) : Prop where
  reserved : p.reserved.toInt = max p.delta.toInt 0
  negatable : Word.Fits (-p.delta.toInt)

lemma Publication.Regular.owed_nonneg (h : p.Regular) : 0 ≤ p.owed := by
  unfold Publication.owed Publication.effect
  rw [h.reserved]
  split_ifs <;> omega

namespace System

/-- Sizes are not negative, the volume never holds less than nothing, a
publication is settled by what has happened to the volume, and a measurement
excludes the publications. -/
def Proper (sys : System) : Step → Prop
  | .prepare _ previous next => 0 ≤ previous ∧ 0 ≤ next
  | .commit id => ∀ p, sys.pending.get? id = some p → p.committed = false →
      0 ≤ sys.usage + p.delta.toInt
  | .settle id result => ∀ p, sys.pending.get? id = some p →
      (result = .applied ∧ p.committed = true) ∨
        (result = .notApplied ∧ p.committed = false)
  | .measure backing => sys.pending = .empty ∧ backing.Truthful sys.usage
  | _ => True

lemma Proper.exclusive (h : Proper sys step) : Exclusive sys step := by
  cases step with
  | measure backing => exact h
  | _ => exact True.intro

/-- The limit stands, and so does a fault once there is one. -/
def Stays (s s' : Storage) : Prop :=
  s'.limit = s.limit ∧ (s.fault.isSome → s'.fault.isSome)

lemma Stays.refl : Stays s s := ⟨rfl, id⟩

lemma settle_stays (p : Publication) (result : PublicationResult) (s : Storage) :
    Stays s (p.settle result s).1 := by
  unfold Publication.settle
  split
  · exact .refl
  · dsimp only
    split_ifs <;> exact .refl
  · exact ⟨rfl, fun _ => rfl⟩

lemma exec_stays (sys : System) (step : Step) : Stays sys.storage (sys.exec step).storage := by
  cases step with
  | prepare name previous next =>
    change Stays _ (sys.prepare name previous next).storage
    unfold System.prepare
    split
    · exact .refl
    rename_i p storage hok
    obtain ⟨hreserve, -⟩ := preparePublication_eq_ok hok
    obtain ⟨-, -, -, rfl⟩ := reserve_eq_ok hreserve
    exact ⟨rfl, id⟩
  | commit id =>
    change Stays _ (sys.commit id).storage
    unfold System.commit
    split
    · exact .refl
    · split_ifs <;> exact .refl
  | settle id result =>
    change Stays _ (sys.settle id result).storage
    unfold System.settle
    split
    · exact .refl
    · exact settle_stays _ _ _
  | publicationError err =>
    change Stays _ (publicationError sys.storage err)
    unfold publicationError
    split_ifs
    · exact .refl
    · exact .refl
    · exact ⟨rfl, fun _ => rfl⟩
  | startRecount =>
    change Stays _ sys.startRecount.storage
    unfold System.startRecount
    split
    · split <;> exact .refl
    · exact .refl
  | readRevision =>
    change Stays _ sys.readRevision.storage
    unfold System.readRevision
    split <;> exact .refl
  | measure backing =>
    change Stays _ (sys.measure backing).storage
    unfold System.measure
    split
    · split <;> exact .refl
    · exact .refl
  | replace =>
    change Stays _ sys.replace.storage
    unfold System.replace
    split
    · split
      · exact .refl
      · split_ifs <;> exact ⟨rfl, id⟩
    · exact .refl

/-- The books of a volume that held `start` bytes at first. -/
structure Balanced (start : ℤ) (sys : System) : Prop where
  nonneg : 0 ≤ sys.usage
  allowance : 0 ≤ sys.storage.limit.toInt
  count : sys.storage.count.toInt = sys.usage + sys.pending.sum fun _ p => p.owed
  ceiling : sys.storage.count.toInt ≤ max sys.storage.limit.toInt start
  settled : sys.usage = start + sys.applied + sys.pending.sum fun _ p => p.effect
  regular : ∀ {id p}, sys.pending.get? id = some p → p.Regular
  fresh : ∀ {id p}, sys.pending.get? id = some p → id < sys.issued
  sound : Sound sys

namespace Balanced

variable {start : ℤ} {sys : System}

lemma initial {limit usage : Int64} (hlimit : MinLimit ≤ limit) (husage : 0 ≤ usage) :
    Balanced usage.toInt (System.initial limit usage) where
  nonneg := Int64.le_iff_toInt_le.mp husage
  allowance := le_trans (by decide) (Int64.le_iff_toInt_le.mp hlimit)
  count := by simp [System.initial]
  ceiling := le_max_right _ _
  settled := by simp [System.initial]
  regular := fun hg => by cases (Table.get?_empty _).symm.trans hg
  fresh := fun hg => by cases (Table.get?_empty _).symm.trans hg
  sound := sound_of_idle rfl

lemma release_count (hdelta : 0 ≤ delta.toInt) (hcovers : delta.toInt ≤ s.count.toInt) :
    (release s delta).count.toInt = s.count.toInt - delta.toInt := by
  have hexact := Word.toInt_sub (Word.fits_sub (hdelta.trans hcovers) hdelta)
  change (max (s.count - delta) 0).toInt = _
  rw [Word.toInt_max, hexact]
  exact max_eq_left (Int.sub_nonneg_of_le hcovers)

variable (h : Balanced start sys)
include h

lemma owed_nonneg : 0 ≤ sys.pending.sum fun _ p => p.owed :=
  Table.sum_nonneg fun _ _ hg => (h.regular hg).owed_nonneg

lemma count_nonneg : 0 ≤ sys.storage.count.toInt := by
  have howed := h.owed_nonneg
  have hnonneg := h.nonneg
  rw [h.count]
  omega

lemma room : (sys.storage.limit - sys.storage.count).toInt =
      sys.storage.limit.toInt - sys.storage.count.toInt :=
  Word.toInt_sub (Word.fits_sub h.allowance h.count_nonneg)

lemma charged (hroom : ¬(0 < delta ∧ sys.storage.limit - sys.storage.count < delta)) :
    (sys.storage.count + max delta 0).toInt = sys.storage.count.toInt + max delta.toInt 0 ∧
      sys.storage.count.toInt + max delta.toInt 0 ≤ max sys.storage.limit.toInt start := by
  have hnonneg := h.count_nonneg
  have hceiling := h.ceiling
  have hfits := (Word.fits_toInt sys.storage.count).2
  have hlimit := (Word.fits_toInt sys.storage.limit).2
  have hmax : (max delta 0).toInt = max delta.toInt 0 := Word.toInt_max delta 0
  rw [Int64.lt_iff_toInt_lt, Int64.lt_iff_toInt_lt, h.room] at hroom
  change ¬(0 < delta.toInt ∧ _) at hroom
  have hbound : sys.storage.count.toInt + max delta.toInt 0 ≤
      max sys.storage.limit.toInt sys.storage.count.toInt := by omega
  constructor
  · rw [Word.toInt_add, hmax]
    rw [hmax]
    unfold Word.Fits
    omega
  · omega

lemma prepare (name : String) (hprev : 0 ≤ previous)
    (hnext : 0 ≤ next) : Balanced start (sys.prepare name previous next) := by
  have hc := h.sound.of_moves (moves_prepare sys name previous next)
    (prepare_recount sys name previous next)
  unfold System.prepare at hc ⊢
  split at hc
  · exact h
  rename_i p storage hok
  obtain ⟨hreserve, hp⟩ := preparePublication_eq_ok hok
  obtain ⟨-, hroom, hreserved, rfl⟩ := reserve_eq_ok hreserve
  obtain ⟨hcount, hceiling⟩ := h.charged hroom
  have hfresh : sys.pending.get? sys.issued = none := by
    by_contra hsome
    obtain ⟨other, hother⟩ := Option.ne_none_iff_exists'.mp hsome
    exact Nat.lt_irrefl _ (h.fresh hother)
  have hdelta := Word.toInt_sub (Word.fits_sub (Int64.le_iff_toInt_le.mp hnext)
      (Int64.le_iff_toInt_le.mp hprev))
  have hregular : p.Regular := by
    constructor
    · rw [hreserved, hp]
      exact Word.toInt_max _ _
    · rw [hp]
      change Word.Fits (-(next - previous).toInt)
      rw [hdelta, neg_sub]
      exact Word.fits_sub (Int64.le_iff_toInt_le.mp hprev) (Int64.le_iff_toInt_le.mp hnext)
  have heffect : p.effect = 0 := by rw [hp]; rfl
  have hcharge : p.reserved.toInt = max (next - previous).toInt 0 := by
    rw [hreserved]
    exact Word.toInt_max _ _
  refine ⟨h.nonneg, h.allowance, ?_, hcount ▸ hceiling, ?_, ?_, ?_, hc⟩
  · rw [Table.sum_set_of_none p _ hfresh]
    change (sys.storage.count + max (next - previous) 0).toInt = _
    rw [hcount, h.count, Publication.owed, heffect, hcharge]
    ring
  · rw [Table.sum_set_of_none p _ hfresh, heffect, add_zero]
    exact h.settled
  · intro id q hg
    rcases Table.set_cases hg with ⟨-, rfl⟩ | ⟨-, hg⟩
    · exact hregular
    · exact h.regular hg
  · intro id q hg
    rcases Table.set_cases hg with ⟨rfl, -⟩ | ⟨-, hg⟩
    · exact Nat.lt_succ_self _
    · exact Nat.lt_succ_of_lt (h.fresh hg)

lemma commit (hpr : Proper sys (.commit id)) : Balanced start (sys.commit id) := by
  have hc := h.sound.of_moves (moves_commit sys id) (commit_recount sys id)
  unfold System.commit at hc ⊢
  split at hc
  · exact h
  rename_i p hg
  split_ifs at hc ⊢ with hco
  · exact h
  rw [Bool.not_eq_true] at hco
  have howed := Table.sum_set { p with committed := true }
    (fun _ (p : Publication) => p.owed) hg
  have heffect := Table.sum_set { p with committed := true }
    (fun _ (p : Publication) => p.effect) hg
  simp only [Publication.owed, Publication.effect, hco,
    Bool.false_eq_true, if_false, if_true] at howed heffect
  have hcount := h.count
  have hse := h.settled
  simp only [Publication.owed, Publication.effect] at hcount hse
  refine ⟨hpr p hg hco, h.allowance, ?_, h.ceiling, ?_, ?_, ?_, hc⟩
  · simp only [Publication.owed, Publication.effect]
    omega
  · simp only [Publication.effect]
    omega
  · intro other q hq
    rcases Table.set_cases hq with ⟨-, rfl⟩ | ⟨-, hq⟩
    · exact ⟨(h.regular hg).reserved, (h.regular hg).negatable⟩
    · exact h.regular hq
  · intro other q hq
    rcases Table.set_cases hq with ⟨rfl, -⟩ | ⟨-, hq⟩
    · exact h.fresh hg
    · exact h.fresh hq

lemma covers (hg : sys.pending.get? id = some p) : p.owed ≤ sys.storage.count.toInt := by
  have herase := Table.sum_erase (fun _ (p : Publication) => p.owed) hg
  have hrest : 0 ≤ (sys.pending.erase id).sum fun _ p => p.owed := by
    refine Table.sum_nonneg fun other q hq => ?_
    exact (h.regular (Table.erase_cases hq).2).owed_nonneg
  have hnonneg := h.nonneg
  rw [h.count, ← herase]
  omega

/-- A settlement gives back exactly what the publication is charged beyond its
effect. -/
lemma settle_count (hg : sys.pending.get? id = some p)
    (hresult : (result = .applied ∧ p.committed = true) ∨ (result = .notApplied ∧ p.committed = false)) :
    (p.settle result sys.storage).1.count.toInt = sys.storage.count.toInt - p.owed := by
  have hregular := h.regular hg
  have hcovers := h.covers hg
  have howed : p.owed = p.reserved.toInt - p.effect := rfl
  have hreserved := hregular.reserved
  rcases hresult with ⟨rfl, hco⟩ | ⟨rfl, hco⟩
  · have heffect : p.effect = p.delta.toInt := by simp [Publication.effect, hco]
    simp only [Publication.settle]
    split_ifs with hshrinks
    · have hshrinks : p.delta.toInt < 0 := Int64.lt_iff_toInt_lt.mp hshrinks
      have hneg := Word.toInt_neg hregular.negatable
      rw [release_count (by omega) (by omega)]
      omega
    · have hgrows : ¬p.delta.toInt < 0 := fun hneg => hshrinks (Int64.lt_iff_toInt_lt.mpr hneg)
      omega
  have heffect : p.effect = 0 := by simp [Publication.effect, hco]
  simp only [Publication.settle]
  rw [release_count (by omega) (by omega)]
  omega

lemma settle (hpr : Proper sys (.settle id result)) :
    Balanced start (sys.settle id result) := by
  have hc := h.sound.of_moves (moves_settle sys id result)
    (settle_recount sys id result)
  unfold System.settle at hc ⊢
  split at hc
  · exact h
  rename_i p hg
  have hresult := hpr p hg
  have hcount := h.settle_count hg hresult
  have howed := Table.sum_erase (fun _ (p : Publication) => p.owed) hg
  have heffect := Table.sum_erase (fun _ (p : Publication) => p.effect) hg
  have hbalance := h.count
  have hse := h.settled
  have hceiling := h.ceiling
  have hnonneg := (h.regular hg).owed_nonneg
  refine ⟨h.nonneg, ?_, ?_, ?_, ?_, ?_, ?_, hc⟩
  · exact (settle_stays p result sys.storage).1.symm ▸ h.allowance
  · change (p.settle result sys.storage).1.count.toInt = _
    rw [hcount]
    change _ = sys.usage + (sys.pending.erase id).sum fun _ p => p.owed
    omega
  · change (p.settle result sys.storage).1.count.toInt ≤
      max (p.settle result sys.storage).1.limit.toInt start
    rw [hcount, (settle_stays ..).1]
    omega
  · change sys.usage = start + (if result = .applied then sys.applied + p.delta.toInt
        else sys.applied) + _
    rcases hresult with ⟨rfl, hco⟩ | ⟨rfl, hco⟩
    · simp only [Publication.effect, hco, if_true] at heffect hse ⊢
      omega
    simp only [Publication.effect, hco, Bool.false_eq_true, if_false] at heffect hse ⊢
    rw [if_neg (by intro heq; cases heq)]
    omega
  · intro other q hq
    exact h.regular (Table.erase_cases hq).2
  · intro other q hq
    exact h.fresh (Table.erase_cases hq).2

lemma of_recount {recount : Recount} (hc : Sound { sys with recount }) :
    Balanced start { sys with recount } :=
  ⟨h.nonneg, h.allowance, h.count, h.ceiling, h.settled, h.regular, h.fresh, hc⟩

lemma startRecount : Balanced start sys.startRecount := by
  have hc := h.sound.startRecount
  unfold System.startRecount at hc ⊢
  split at hc
  · split at hc <;> exact h.of_recount hc
  · exact h

lemma readRevision : Balanced start sys.readRevision := by
  have hc := h.sound.readRevision
  unfold System.readRevision at hc ⊢
  split at hc
  · exact h.of_recount hc
  · exact h

lemma measure (hpr : Proper sys (.measure backing)) :
    Balanced start (sys.measure backing) := by
  have hc := h.sound.measure hpr.exclusive
  unfold System.measure at hc ⊢
  split at hc
  · split at hc <;> exact h.of_recount hc
  · exact h

lemma replace : Balanced start sys.replace := by
  have hc := h.sound.replace
  unfold System.replace at hc ⊢
  split at hc
  · rename_i attempt revision count hmeas
    split at hc
    · exact h.of_recount hc
    split_ifs at hc ⊢ with hs hmore
    · obtain ⟨hempty, hexact⟩ := (h.sound.measured hmeas).2 hs
      have hcount := h.count
      have howed : (sys.pending.sum fun _ p => p.owed) = 0 := by rw [hempty, Table.sum_empty]
      refine ⟨h.nonneg, h.allowance, ?_, ?_, h.settled, h.regular, h.fresh, hc⟩
      · change count.toInt = sys.usage + sys.pending.sum fun _ p => p.owed
        omega
      · have hceiling := h.ceiling
        change count.toInt ≤ max sys.storage.limit.toInt start
        omega
    · exact h.of_recount hc
    · exact h.of_recount hc
  · exact h

lemma exec (hpr : Proper sys step) : Balanced start (sys.exec step) := by
  cases step with
  | prepare name previous next => exact h.prepare name hpr.1 hpr.2
  | commit id => exact h.commit hpr
  | settle id result => exact h.settle hpr
  | publicationError err =>
    have hc : Sound (sys.exec (.publicationError err)) := h.sound.exec True.intro
    change Balanced start { sys with
      storage := publicationError sys.storage err }
    change Sound { sys with
      storage := publicationError sys.storage err } at hc
    unfold publicationError at hc ⊢
    split_ifs at hc ⊢
    · exact h
    · exact h
    · exact ⟨h.nonneg, h.allowance, h.count, h.ceiling, h.settled, h.regular, h.fresh, hc⟩
  | startRecount => exact h.startRecount
  | readRevision => exact h.readRevision
  | measure backing => exact h.measure hpr
  | replace => exact h.replace

lemma outstanding_eq : sys.outstanding = sys.pending.sum fun _ p => p.owed + p.effect := by
  refine Table.sum_congr fun _ p hg => ?_
  rw [Publication.owed, (h.regular hg).reserved]
  ring

lemma count_eq : sys.storage.count.toInt = start + sys.applied + sys.outstanding := by
  have hcount := h.count
  have hse := h.settled
  have hsplit := Table.sum_add sys.pending (fun _ p => p.owed)
    (fun _ p => p.effect)
  rw [h.outstanding_eq]
  omega

lemma usage_le : sys.usage ≤ max sys.storage.limit.toInt start := by
  have hcount := h.count
  have howed := h.owed_nonneg
  have hceiling := h.ceiling
  omega

end Balanced

/-! ## Refusal -/

lemma reserve_refused (hfault : s.fault.isSome) (name : String) (delta : Int64) :
    ∃ err, reserve s name delta = .error err := by
  obtain ⟨fault, hfault⟩ := Option.isSome_iff_exists.mp hfault
  unfold reserve
  rw [hfault]
  exact ⟨fault.failure, rfl⟩

lemma recount_refused (hfault : sys.storage.fault.isSome) (step : Step) :
    ¬Returns sys step (.ok ()) := by
  intro hreturns
  obtain ⟨rfl, attempt, count, hmeas, -⟩ := returns_ok hreturns
  obtain ⟨fault, hfault⟩ := Option.isSome_iff_exists.mp hfault
  have hidle : sys.replace.recount = .idle (some (.ok ())) := hreturns.2
  simp [System.replace, hmeas, hfault] at hidle

lemma unknown_faults (hg : sys.pending.get? id = some p) (happlied : result ≠ .applied)
    (hnot : result ≠ .notApplied) : (sys.settle id result).storage.fault.isSome := by
  unfold System.settle
  rw [hg]
  change (p.settle result sys.storage).1.fault.isSome
  unfold Publication.settle
  split
  · exact absurd rfl hnot
  · exact absurd rfl happlied
  · rfl

/-! ## Whole runs -/

/-- The sums of the next step are computed exactly, and a release is covered by
the count. -/
structure Exact (sys : System) : Prop where
  room : (sys.storage.limit - sys.storage.count).toInt =
    sys.storage.limit.toInt - sys.storage.count.toInt
  growth : ∀ previous next : Int64, 0 ≤ previous → 0 ≤ next →
    (next - previous).toInt = next.toInt - previous.toInt
  charge : ∀ name delta charged s, reserve sys.storage name delta = .ok (charged, s) →
      s.count.toInt = sys.storage.count.toInt + charged.toInt
  refund : ∀ id p, sys.pending.get? id = some p → p.committed = false →
    (sys.storage.count - p.reserved).toInt = sys.storage.count.toInt - p.reserved.toInt ∧
      0 ≤ sys.storage.count.toInt - p.reserved.toInt
  shrink : ∀ id p, sys.pending.get? id = some p → p.committed = true →
    p.delta < 0 → (-p.delta).toInt = -p.delta.toInt ∧ (sys.storage.count - -p.delta).toInt =
        sys.storage.count.toInt + p.delta.toInt ∧
      0 ≤ sys.storage.count.toInt + p.delta.toInt

lemma Balanced.exact {start : ℤ} (h : Balanced start sys) :
    Exact sys where
  room := h.room
  growth := fun previous next hprev hnext =>
    Word.toInt_sub (Word.fits_sub (Int64.le_iff_toInt_le.mp hnext) (Int64.le_iff_toInt_le.mp hprev))
  charge := by
    intro name delta charged s hok
    obtain ⟨-, hroom, rfl, rfl⟩ := reserve_eq_ok hok
    rw [Word.toInt_max]
    exact (h.charged hroom).1
  refund := by
    intro id p hg hco
    have hcovers := h.covers hg
    have hreserved := (h.regular hg).reserved
    simp only [Publication.owed, Publication.effect, hco,
      Bool.false_eq_true, if_false] at hcovers
    exact ⟨Word.toInt_sub (Word.fits_sub h.count_nonneg (by omega)), by omega⟩
  shrink := by
    intro id p hg hco hshrinks
    have hcovers := h.covers hg
    have hreserved := (h.regular hg).reserved
    have hneg := Word.toInt_neg (h.regular hg).negatable
    have hshrinks : p.delta.toInt < 0 := Int64.lt_iff_toInt_lt.mp hshrinks
    simp only [Publication.owed, Publication.effect, hco, if_true] at hcovers
    refine ⟨hneg, ?_, by omega⟩
    rw [Word.toInt_sub (Word.fits_sub h.count_nonneg (by omega)), hneg]
    ring

/-- In every interleaving of publications the count is what the volume held at
first together with the applied changes and the outstanding growth; it stays
within the allowance or the initial usage, its sums are exact and need no floor;
and an unknown outcome refuses every later reservation and every `Recount`. -/
theorem ledger_balances {limit usage : Int64} (hlimit : MinLimit ≤ limit)
    (husage : 0 ≤ usage) {steps : List Step}
    (hrun : Runs.Along exec Proper (initial limit usage) steps) :
    let sys := steps.foldl exec (initial limit usage)
    sys.storage.count.toInt = usage.toInt + sys.applied + sys.outstanding ∧
      sys.storage.count.toInt ≤ max limit.toInt usage.toInt ∧
      sys.usage ≤ max limit.toInt usage.toInt ∧ Exact sys ∧
      ∀ (id : ℕ) (p : Publication) (result : PublicationResult)
          (after : List Step), sys.pending.get? id = some p →
        result ≠ .applied → result ≠ .notApplied →
          let faulty := after.foldl exec (sys.exec (.settle id result))
          (∀ name delta, ∃ err, reserve faulty.storage name delta = .error err) ∧
          ∀ step, ¬Returns faulty step (.ok ()) := by
  intro sys
  obtain ⟨hbalanced, hs⟩ := Runs.Along.invariant
    (motive := fun sys : System =>
      Balanced usage.toInt sys ∧ sys.storage.limit = limit)
    (fun sys step h hpr =>
      ⟨h.1.exec hpr, (exec_stays sys step).1.trans h.2⟩)
    ⟨Balanced.initial hlimit husage, rfl⟩ hrun
  refine ⟨hbalanced.count_eq, ?_, ?_, hbalanced.exact, ?_⟩
  · have hceiling := hbalanced.ceiling
    rwa [hs] at hceiling
  · have hbound := hbalanced.usage_le
    rwa [hs] at hbound
  · intro id p result after hg happlied hnot faulty
    have hfault := Runs.invariant (motive := fun sys : System => sys.storage.fault.isSome)
        (fun sys step h => (exec_stays sys step).2 h)
        (unknown_faults hg happlied hnot) after
    exact ⟨reserve_refused hfault, recount_refused hfault⟩

/-! ## Chains of hooks

The context of a request may carry the hooks of several volumes.  Whatever the
others answer, preparing the chain and giving back a refused one is a proper run
of this volume's machine. -/

/-- A settlement of this volume, or one that another hook has handed out. -/
inductive Token where
  | ours (id : ℕ)
  | foreign (answer : PublicationResult → Option Failure)

def Token.settle : Token → PublicationResult → System → System × Option Failure
  | .ours id, result, sys =>
    (sys.settle id result, (sys.pending.get? id).bind fun p =>
      (p.settle result sys.storage).2)
  | .foreign answer, result, sys => (sys, answer result)

/-- The hook that `accountingContext` installs. -/
def accountingContext (name : String) :
    Storage.PublicationAccounting System Token := fun previous next sys =>
  match preparePublication sys.storage name previous next with
  | .error err => (sys, none, some err)
  | .ok _ => (sys.prepare name previous next, some (.ours sys.issued), none)

/-- A hook that does not touch this volume. -/
def foreignAccounting (handed : Option (PublicationResult → Option Failure))
    (err : Option Failure) : Storage.PublicationAccounting System Token :=
  fun _ _ sys => (sys, handed.map .foreign, err)

/-- A preparation reaches the state by proper steps of its own, and each of the given
settlements of this volume is pending, with a change that has not happened. -/
structure Underway (prepare : Step) (sys₀ : System) (tokens : List Token) (sys : System) :
    Prop where
  run : ∃ steps, Runs.Along exec Proper sys₀ steps ∧ sys = steps.foldl exec sys₀ ∧
    ∀ step ∈ steps, step = prepare ∨ ∃ id, step = .settle id .notApplied
  distinct : tokens.Pairwise fun a b => ∀ id, a = .ours id → b ≠ .ours id
  pending : ∀ id, .ours id ∈ tokens → id < sys.issued ∧
    ∃ p, sys.pending.get? id = some p ∧ p.committed = false

section

variable {prepare : Step}

lemma Underway.exec (h : Underway prepare sys₀ tokens sys) (hpr : Proper sys step)
    (hkind : step = prepare ∨ ∃ id, step = .settle id .notApplied) :
    ∃ steps, Runs.Along exec Proper sys₀ steps ∧ sys.exec step = steps.foldl exec sys₀ ∧
      ∀ step ∈ steps, step = prepare ∨ ∃ id, step = .settle id .notApplied := by
  obtain ⟨steps, halong, rfl, hkinds⟩ := h.run
  refine ⟨steps ++ [step], Runs.along_append.mpr ⟨halong, hpr, True.intro⟩, by simp, ?_⟩
  exact List.forall_mem_append.mpr ⟨hkinds, List.forall_mem_singleton.mpr hkind⟩

lemma underway_settles (prepare : Step) (sys₀ : System) :
    Storage.Consumes Token.settle (Underway prepare sys₀) .notApplied := by
  intro tokens token sys h
  obtain ⟨hdistinct, -, happart⟩ := List.pairwise_append.mp h.distinct
  cases token with
  | foreign answer =>
    exact ⟨h.run, hdistinct, fun id hm => h.pending id (List.mem_append_left _ hm)⟩
  | ours id =>
    obtain ⟨-, p, hg, hco⟩ := h.pending id (by simp)
    have hpr : Proper sys (.settle id .notApplied) := fun q hq => by
      cases hg.symm.trans hq
      exact .inr ⟨rfl, hco⟩
    refine ⟨h.exec hpr (.inr ⟨id, rfl⟩), hdistinct, fun other hm => ?_⟩
    have hne : other ≠ id := fun heq =>
      happart _ hm _ List.mem_cons_self other rfl (by rw [heq])
    obtain ⟨hissued, q, hq, hopen⟩ := h.pending other (List.mem_append_left _ hm)
    simp only [Token.settle, System.settle, hg]
    exact ⟨hissued, q, by rwa [Table.get?_erase_ne hne], hopen⟩

lemma underway_prepares (sys₀ : System) (name : String)
    (hprev : 0 ≤ previous) (hnext : 0 ≤ next) :
    Storage.Hands (Underway (.prepare name previous next) sys₀) previous next
      (accountingContext name) := by
  intro tokens sys h
  unfold accountingContext
  split
  · simpa using h
  rename_i prepared hok
  obtain ⟨q, storage⟩ := prepared
  have hpr : Proper sys (.prepare name previous next) := ⟨hprev, hnext⟩
  refine ⟨h.exec hpr (.inl rfl), ?_, fun id hm => ?_⟩
  · refine List.pairwise_append.mpr ⟨h.distinct, List.pairwise_singleton .., ?_⟩
    rintro _ hm _ hnew id rfl hs
    cases List.mem_singleton.mp (hs ▸ hnew)
    exact (h.pending _ hm).1.ne rfl
  simp only [System.prepare, hok]
  rcases List.mem_append.mp hm with hm | hm
  · obtain ⟨hissued, p, hg, hopen⟩ := h.pending id hm
    exact ⟨by omega, p, by rwa [Table.get?_set_ne hissued.ne], hopen⟩
  · cases List.mem_singleton.mp hm
    exact ⟨by omega, q, Table.get?_set_self .., by rw [(preparePublication_eq_ok hok).2]⟩

end

/-- Preparing a chain of this volume's hook and of any others is a proper run of
prepare steps and of settlements as not applied; what it returns is pending. -/
theorem preparation_is_run (sys : System) (name : String)
    (hothers : ∀ hook ∈ before ++ after, ∃ handed err, hook = foreignAccounting handed err)
    (ctx : ℕ → Option Failure) (previous next : Int64) :
    let outcome := Storage.PreparePublication Token.settle
      (before ++ accountingContext name :: after) ctx previous next sys
    Underway (.prepare name previous next) sys (Storage.owedBy outcome.2) outcome.1 := by
  have hstart : Underway (.prepare name previous next) sys [] sys :=
    ⟨⟨[], True.intro, rfl, by simp⟩, .nil, by simp⟩
  refine Storage.PreparePublication_owes (underway_settles _ sys) ctx ?_ hstart
  intro hprev hnext hook hm
  have hcases : hook = accountingContext name ∨ hook ∈ before ++ after := by
    simp only [List.mem_append, List.mem_cons] at hm ⊢
    tauto
  rcases hcases with rfl | hother
  · exact underway_prepares sys name hprev hnext
  obtain ⟨handed, err, rfl⟩ := hothers hook hother
  intro tokens reached h
  cases handed with
  | none => simpa [foreignAccounting] using h
  | some answer =>
    refine ⟨h.run, ?_, fun id hours => h.pending id ?_⟩
    · refine List.pairwise_append.mpr ⟨h.distinct, List.pairwise_singleton .., ?_⟩
      rintro _ - _ hnew id rfl rfl
      simp [foreignAccounting] at hnew
    · simpa [foreignAccounting] using hours

/-- A later hook that hands out nothing makes the reservation come back. -/
theorem preparation_is_run_refused :
    let sys := initial 4096 50
    let outcome := Storage.PreparePublication Token.settle
      [accountingContext "a", foreignAccounting none none] (fun _ => none) 0 700 sys
    outcome.1.storage.count = 50 ∧ outcome.1.issued = 1 ∧
      Underway (.prepare "a" 0 700) sys (Storage.owedBy outcome.2) outcome.1 :=
  ⟨rfl, rfl, @preparation_is_run [] [foreignAccounting none none] _ _
    (fun _ hm => ⟨none, none, by simpa using hm⟩) _ _ _⟩

/-! ### Two publications settled out of order -/

namespace Sample

def interleaved : List Step :=
  [.prepare "a" 0 700, .commit 0, .prepare "b" 700 100, .commit 1,
    .settle 1 .applied]

end Sample

theorem ledger_balances_out_of_order :
    let sys := Sample.interleaved.foldl exec (initial 4096 50)
    sys.storage.count = 150 ∧ sys.storage.count.toInt = 50 + sys.applied + sys.outstanding := by
  have hrun : Runs.Along exec Proper (initial 4096 50) Sample.interleaved :=
    ⟨⟨by decide, by decide⟩, fun p hg _ => by cases hg; decide,
      ⟨by decide, by decide⟩, fun p hg _ => by cases hg; decide,
      fun p hg => by cases hg; decide, True.intro⟩
  exact ⟨rfl, (ledger_balances (by decide) (by decide) hrun).1⟩

end System
end Limited
end RemoteFs
