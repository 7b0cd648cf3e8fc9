import Mathlib.Logic.Relation
import RemoteFs.Lib.Epochs
import RemoteFs.ObjectStore.Session

/-!
# The window of file actions

What the sections of a session do to its clock, its epoch and its table of file
actions.  The table with the current epoch is a window of deduplication: a
record is dropped only when the epoch of its action is over.
-/

namespace RemoteFs.ObjectStore

variable {id : FileActionID}

/-- The epoch in the text of an action's identity. -/
def actionEpoch (id : FileActionID) : ℕ :=
  match Storage.lockRequestEpoch id with
  | .ok epoch => epoch
  | .error _ => 0

structure Track (ρ : Type) where
  history : Time
  now : ℕ → Time
  reads : ℕ
  epoch : ℕ
  epochUntil : Time
  actions : Table FileActionID (FileAction ρ)
  started : List FileActionID

namespace Track

variable {ρ : Type}

def past (t : Track ρ) : Set Time := {x | ∃ k < t.reads, x = t.now k}

def window (t : Track ρ) : Window FileActionID Time where
  epoch := t.epoch
  deadline := t.epochUntil
  remembered := {id | (t.actions.get? id).isSome}
  used := {id | id ∈ t.started}

inductive Move : Track ρ → Track ρ → Prop
  | tick (t : Track ρ) : Move t { t with reads := t.reads + 1 }
  | advance (t : Track ρ) : Move t { t with
      reads := t.reads + 1
      epoch := t.epoch + 1
      epochUntil := t.now t.reads + t.history }
  | prune (t : Track ρ) : Move t { t with
      reads := t.reads + 1
      actions := t.actions.filter fun _ action => action.outcome = .pending ||
          decide (t.now t.reads < action.expires) }
  | finish (t : Track ρ) (id : FileActionID) {change : FileAction ρ → FileAction ρ}
      (hexpires : ∀ action, (change action).expires = t.now t.reads + t.history) :
      Move t { t with
        reads := t.reads + 1
        actions := t.actions.modify id change }

abbrev Chain : Track ρ → Track ρ → Prop := Relation.ReflTransGen Move

def start (t : Track ρ) (id : FileActionID) (action : FileAction ρ) : Track ρ :=
  { t with actions := t.actions.set id action, started := id :: t.started }

/-! ## The invariant -/

structure Safe (t : Track ρ) : Prop where
  clock : Monotone t.now
  deadline : ∃ k < t.reads, t.epochUntil = t.now k + t.history
  window : t.window.Safe actionEpoch t.past
  recorded : ∀ {id action}, t.actions.get? id = some action → id ∈ t.started
  expiry : ∀ {id action}, t.actions.get? id = some action → action.outcome ≠ .pending →
      actionEpoch id < t.epoch ∨ t.epochUntil ≤ action.expires

def Over (t : Track ρ) (id : FileActionID) : Prop :=
  actionEpoch id < t.epoch ∨ ∃ x ∈ t.past, t.epochUntil ≤ x

/-- Since an instant `seen`, the record of an action is there and stays for a
full history, or that history is past. -/
def Covered (t : Track ρ) (id : FileActionID) (seen : Time) : Prop :=
  (∃ action, t.actions.get? id = some action ∧
      (action.outcome = .pending ∨ seen + t.history ≤ action.expires)) ∨
    ∃ x ∈ t.past, seen + t.history ≤ x

lemma past_mono {t : Track ρ} {reads : ℕ} (hle : t.reads ≤ reads) :
    t.past ⊆ ({ t with reads } : Track ρ).past := by
  rintro x ⟨k, hk, hx⟩
  exact ⟨k, hk.trans_le hle, hx⟩

lemma le_now {t : Track ρ} (hclock : Monotone t.now) {x : Time}
    (hx : x ∈ t.past) : x ≤ t.now t.reads := by
  obtain ⟨k, hk, rfl⟩ := hx
  exact hclock hk.le

lemma get?_prune {t : Track ρ} {action : FileAction ρ} (hg : t.actions.get? id = some action) :
    (t.actions.filter fun _ action => action.outcome = .pending ||
        decide (t.now t.reads < action.expires)).get? id = some action ∨
      action.outcome ≠ .pending ∧ action.expires ≤ t.now t.reads := by
  by_cases hkeep : (action.outcome = .pending ||
      decide (t.now t.reads < action.expires)) = true
  · exact .inl (Table.get?_filter_iff.mpr ⟨hg, hkeep⟩)
  · rw [Bool.or_eq_true, not_or, decide_eq_true_eq, decide_eq_true_eq] at hkeep
    exact .inr ⟨hkeep.1, not_lt.mp hkeep.2⟩

/-! ## One move -/

namespace Safe

variable {t t' : Track ρ}

lemma until_le (h : Safe t) : t.epochUntil ≤ t.now t.reads + t.history := by
  obtain ⟨k, hk, heq⟩ := h.deadline
  rw [heq]
  exact add_le_add_left (h.clock hk.le) _

lemma tick (h : Safe t) : Safe { t with reads := t.reads + 1 } where
  clock := h.clock
  deadline := by
    obtain ⟨k, hk, heq⟩ := h.deadline
    exact ⟨k, Nat.lt_succ_of_lt hk, heq⟩
  window := h.window.later (past_mono (Nat.le_succ _))
  recorded := h.recorded
  expiry := h.expiry

lemma move (h : Safe t) (hmv : Move t t') : Safe t' := by
  cases hmv with
  | tick => exact h.tick
  | advance =>
    refine ⟨h.clock, ⟨t.reads, Nat.lt_succ_self _, rfl⟩, (h.tick.window.renew _), h.recorded, ?_⟩
    intro id action hg _
    exact .inl (Nat.lt_succ_of_le (h.window.begun id (h.recorded hg)))
  | prune =>
    refine ⟨h.clock, h.tick.deadline, h.tick.window.forget ?_, ?_, ?_⟩
    · intro id hknown hdropped
      obtain ⟨action, hg⟩ := Option.isSome_iff_exists.mp hknown
      have hg : t.actions.get? id = some action := hg
      rcases get?_prune hg with hkp | ⟨hdo, hexpired⟩
      · exact absurd (Option.isSome_iff_exists.mpr ⟨action, hkp⟩) hdropped
      · refine (h.expiry hg hdo).imp_right fun hlate => ?_
        exact ⟨t.now t.reads, ⟨t.reads, Nat.lt_succ_self _, rfl⟩, hlate.trans hexpired⟩
    · intro id action hg
      exact h.recorded (Table.get?_filter_iff.mp hg).1
    · intro id action hg hdo
      exact h.expiry (Table.get?_filter_iff.mp hg).1 hdo
  | @finish id change hexpires =>
    refine ⟨h.clock, h.tick.deadline, h.tick.window.forget ?_, ?_, ?_⟩
    · intro other hknown hdropped
      obtain ⟨action, hg⟩ := Option.isSome_iff_exists.mp hknown
      refine absurd ?_ hdropped
      change ((t.actions.modify id change).get? other).isSome
      rw [Table.get?_modify]
      split_ifs with heq
      · rw [← heq, hg]
        rfl
      · exact hknown
    · intro other action' hget'
      obtain ⟨action, hg, -⟩ := Table.of_get?_modify hget'
      exact h.recorded hg
    · intro other action' hget' hdo
      obtain ⟨action, hg, rfl⟩ := Table.of_get?_modify hget'
      split_ifs at hdo ⊢
      · rw [hexpires]
        exact .inr h.until_le
      · exact h.expiry hg hdo

lemma chain (h : Safe t) (hch : Chain t t') : Safe t' := by
  induction hch with
  | refl => exact h
  | tail _ hmv ih => exact ih.move hmv

lemma start (h : Safe t)
    (hepoch : actionEpoch id ≤ t.epoch) (hpending : action.outcome = .pending) :
    Safe (t.start id action) where
  clock := h.clock
  deadline := h.deadline
  window := by
    have hused := h.window.use hepoch
    refine ⟨fun other hm => ?_, fun other hm => ?_⟩
    · exact hused.begun other (List.mem_cons.mp hm)
    · refine (hused.kept other (List.mem_cons.mp hm)).imp_left ?_
      intro hknown
      change ((t.actions.set id action).get? other).isSome
      rw [Table.get?_set]
      split_ifs with heq
      · rfl
      · exact hknown.resolve_left heq
  recorded := by
    intro other found hg
    change (t.actions.set id action).get? other = some found at hg
    rw [Table.get?_set] at hg
    split_ifs at hg with heq
    · exact heq ▸ List.mem_cons_self
    · exact List.mem_cons_of_mem _ (h.recorded hg)
  expiry := by
    intro other found hg hdo
    change (t.actions.set id action).get? other = some found at hg
    rw [Table.get?_set] at hg
    split_ifs at hg
    · cases hg
      exact absurd hpending hdo
    · exact h.expiry hg hdo

/-- The epoch of an action that was used and is not known any more is over. -/
lemma over_of_unknown (h : Safe t) (hused : id ∈ t.started)
    (hunk : t.actions.get? id = none) : Over t id := by
  rcases h.window.kept id hused with hknown | hover
  · change ((t.actions.get? id).isSome) at hknown
    rw [hunk] at hknown
    cases hknown
  · exact hover

end Safe

section Moves

variable {t t' : Track ρ} {id : FileActionID} {seen : Time}

lemma Move.started (hmv : Move t t') : t'.started = t.started := by
  cases hmv <;> rfl

lemma Move.past (hmv : Move t t') : t.past ⊆ t'.past := by
  cases hmv <;> exact past_mono (Nat.le_succ _)

lemma Move.epoch (hmv : Move t t') : t.epoch ≤ t'.epoch := by
  cases hmv with
  | advance => exact Nat.le_succ _
  | _ => exact le_rfl

lemma Move.over (h : Safe t) (hmv : Move t t') (hused : id ∈ t.started)
    (hover : Over t id) : Over t' id := by
  have hlater : ∀ {x}, x ∈ t.past → x ∈ t'.past := fun hx => hmv.past hx
  cases hmv with
  | advance => exact .inl (Nat.lt_succ_of_le (h.window.begun id hused))
  | _ =>
    refine hover.imp_right ?_
    rintro ⟨x, hx, hle⟩
    exact ⟨x, hlater hx, hle⟩

lemma Move.covered (h : Safe t) (hmv : Move t t') (hseen : seen ∈ t.past)
    (hcovered : Covered t id seen) : Covered t' id seen := by
  have hlater : ∀ {x}, x ∈ t.past → x ∈ t'.past := fun hx => hmv.past hx
  have hlapsed : (∃ x ∈ t.past, seen + t.history ≤ x) → ∃ x ∈ t'.past, seen + t.history ≤ x := by
    rintro ⟨x, hx, hle⟩
    exact ⟨x, hlater hx, hle⟩
  rcases hcovered with ⟨action, hg, hkeeps⟩ | hlapsed'
  · cases hmv with
    | tick | advance => exact .inl ⟨action, hg, hkeeps⟩
    | prune =>
      rcases get?_prune hg with hkp | ⟨hdo, hexpired⟩
      · exact .inl ⟨action, hkp, hkeeps⟩
      · -- the record is dropped, so its history is past
        refine .inr ⟨t.now t.reads, ⟨t.reads, Nat.lt_succ_self _, rfl⟩, ?_⟩
        exact (hkeeps.resolve_left hdo).trans hexpired
    | @finish other change hexpires =>
      left
      change ∃ action', (t.actions.modify other change).get? id = some action' ∧ _
      rw [Table.get?_modify]
      split_ifs with heq
      · rw [← heq, hg]
        refine ⟨_, rfl, .inr ?_⟩
        rw [hexpires]
        exact add_le_add_left (le_now h.clock hseen) _
      · exact ⟨action, hg, hkeeps⟩
  · cases hmv <;> exact .inr (hlapsed hlapsed')

lemma Chain.started (hch : Chain t t') : t'.started = t.started := by
  induction hch with
  | refl => rfl
  | tail _ hmv ih => exact hmv.started.trans ih

lemma Chain.past (hch : Chain t t') : t.past ⊆ t'.past := by
  induction hch with
  | refl => exact subset_rfl
  | tail _ hmv ih => exact ih.trans hmv.past

lemma Chain.epoch (hch : Chain t t') : t.epoch ≤ t'.epoch := by
  induction hch with
  | refl => exact le_rfl
  | tail _ hmv ih => exact ih.trans hmv.epoch

lemma Chain.over (h : Safe t) (hch : Chain t t') (hused : id ∈ t.started)
    (hover : Over t id) : Over t' id := by
  induction hch with
  | refl => exact hover
  | tail hch hmv ih => exact hmv.over (h.chain hch) (Chain.started hch ▸ hused) ih

lemma Chain.covered (h : Safe t) (hch : Chain t t') (hseen : seen ∈ t.past)
    (hcovered : Covered t id seen) : Covered t' id seen := by
  induction hch with
  | refl => exact hcovered
  | tail hch hmv ih => exact hmv.covered (h.chain hch) (Chain.past hch hseen) ih

end Moves

/-- A covered action whose history is not past survives pruning. -/
lemma Covered.remembered {t : Track ρ} {seen : Time} (hclock : Monotone t.now)
    (hcovered : Covered t id seen) (htimely : t.now t.reads < seen + t.history) :
    ∃ action, (t.actions.filter fun _ action => action.outcome = .pending ||
      decide (t.now t.reads < action.expires)).get? id = some action := by
  rcases hcovered with ⟨action, hg, hkeeps⟩ | ⟨x, hx, hle⟩
  · rcases get?_prune hg with hkp | ⟨hdo, hexpired⟩
    · exact ⟨action, hkp⟩
    · have hlapsed := (hkeeps.resolve_left hdo).trans hexpired
      exact absurd htimely (not_lt.mpr hlapsed)
  · exact absurd htimely (not_lt.mpr (hle.trans (le_now hclock hx)))

end Track

end RemoteFs.ObjectStore
