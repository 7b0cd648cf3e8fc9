import Mathlib.Algebra.Order.Monoid.Prod
import RemoteFs.Lib.Runs
import RemoteFs.Lib.Table

/-!
# Components with callers that wait

Each caller of a component is in a phase, holds a part of the component's counters
and may wait on its channel.  To wake those that wait, a component closes its
channel and makes a new one, so channels are numbered, and those below the current
one are closed.
-/

namespace RemoteFs

structure Component (σ π A : Type) where
  callers : σ → Table ℕ π
  counters : σ → A
  changed : σ → ℕ
  holds : π → A
  channel? : π → Option ℕ
  /-- Whether a caller that waits could go on. -/
  Ready : σ → π → Prop
  Within : σ → Prop

namespace Component

variable {σ ι π A : Type} [AddCommGroup A] {c : Component σ π A} {s s' : σ} {id : ℕ} {next : π}

structure Sound (c : Component σ π A) (s : σ) : Prop where
  counters : c.counters s = (c.callers s).sum fun _ => c.holds
  /-- No caller waits on the current channel that could go on. -/
  watched : ∀ ⦃id phase channel⦄, (c.callers s).get? id = some phase →
    c.channel? phase = some channel →
    channel ≤ c.changed s ∧ (channel = c.changed s → ¬c.Ready s phase)
  within : c.Within s

/-- One caller goes to another phase and the counters follow. -/
structure Goes (c : Component σ π A) (s s' : σ) (id : ℕ) (next : π) : Prop where
  callers : c.callers s' = (c.callers s).set id next
  counters : c.counters s' + ((c.callers s).get? id).elim 0 c.holds = c.counters s + c.holds next
  notified : c.changed s < c.changed s' ∨
    c.changed s = c.changed s' ∧ ∀ phase, c.Ready s' phase → c.Ready s phase
  blocked : ∀ channel, c.channel? next = some channel → channel = c.changed s' ∧ ¬c.Ready s' next
  within : c.Within s'

lemma Sound.of_empty (hcallers : c.callers s = .empty) (hcounters : c.counters s = 0)
    (hwithin : c.Within s) : Sound c s := by
  refine ⟨by rw [hcounters, hcallers, Table.sum_empty], fun id phase channel hg => ?_, hwithin⟩
  rw [hcallers, Table.get?_empty] at hg
  cases hg

lemma sum_set_elim (callers : Table ℕ π) (id : ℕ) (next : π) (holds : π → A) :
    ((callers.set id next).sum fun _ => holds) + (callers.get? id).elim 0 holds =
      (callers.sum fun _ => holds) + holds next := by
  cases hg : callers.get? id with
  | none => simp [Table.sum_set_of_none _ _ hg]
  | some phase => exact Table.sum_set next _ hg

lemma Sound.goes (h : Sound c s) (hgoes : Goes c s s' id next) : Sound c s' where
  counters := by
    have hsum := sum_set_elim (c.callers s) id next c.holds
    rw [← hgoes.callers, ← h.counters, ← hgoes.counters] at hsum
    exact (add_right_cancel hsum).symm
  watched := by
    intro other phase channel hg hchannel
    rw [hgoes.callers] at hg
    rcases Table.set_cases hg with ⟨-, rfl⟩ | ⟨-, hg⟩
    · obtain ⟨rfl, hnot⟩ := hgoes.blocked channel hchannel
      exact ⟨le_rfl, fun _ => hnot⟩
    obtain ⟨hle, hwaits⟩ := h.watched hg hchannel
    rcases hgoes.notified with hlt | ⟨heq, hready⟩
    · exact ⟨by omega, fun heq => by omega⟩
    · exact ⟨heq ▸ hle, fun hnow hphase => hwaits (hnow.trans heq.symm) (hready _ hphase)⟩
  within := hgoes.within

/-- A caller whose channel is not closed could not go on. -/
lemma Sound.closed {channel : ℕ} {phase : π} (h : Sound c s)
    (hg : (c.callers s).get? id = some phase) (hchannel : c.channel? phase = some channel)
    (hready : c.Ready s phase) : channel < c.changed s :=
  lt_of_le_of_ne (h.watched hg hchannel).1 fun heq => (h.watched hg hchannel).2 heq hready

section Order

variable [PartialOrder A] [IsOrderedAddMonoid A] (h : Sound c s)
  (hpos : ∀ phase, 0 ≤ c.holds phase)

include hpos

lemma sum_nonneg (callers : Table ℕ π) : 0 ≤ callers.sum fun _ => c.holds := by
  refine List.sum_nonneg fun _ hmem => ?_
  obtain ⟨entry, -, rfl⟩ := List.mem_map.1 hmem
  exact hpos entry.2

include h

lemma Sound.nonneg : 0 ≤ c.counters s := h.counters ▸ sum_nonneg hpos _

lemma Sound.holds_le {phase : π} (hg : (c.callers s).get? id = some phase) :
    c.holds phase ≤ c.counters s := by
  rw [h.counters, ← Table.sum_erase _ hg]
  exact le_add_of_nonneg_left (sum_nonneg hpos _)

end Order

end Component

/-- A component that can be closed: `load` is what a closer waits for to go away. -/
structure Closable (σ π A : Type) extends Component σ π A where
  Closing : σ → Prop
  load : σ → ℤ
  closer : π → Bool
  /-- The closer has passed its wait. -/
  passed : π → Bool

namespace Closable

variable {σ ι π A : Type} [AddCommGroup A] {c : Closable σ π A} {s s' : σ} {id : ℕ} {next : π}

structure Orderly (c : Closable σ π A) (s : σ) : Prop extends c.Sound s where
  closers : ∀ id phase, (c.callers s).get? id = some phase → c.closer phase →
    c.Closing s ∧ (c.passed phase → c.load s ≤ 0)

lemma Orderly.of_empty (hcallers : c.callers s = .empty) (hcounters : c.counters s = 0)
    (hwithin : c.Within s) : Orderly c s := by
  refine ⟨.of_empty hcallers hcounters hwithin, fun id phase hg => ?_⟩
  rw [hcallers, Table.get?_empty] at hg
  cases hg

/-- A step of one caller, which admits nothing while the component closes. -/
structure Moves (c : Closable σ π A) (s s' : σ) (id : ℕ) (next : π) : Prop
    extends c.Goes s s' id next where
  admits : c.Closing s → c.Closing s' ∧ c.load s' ≤ c.load s
  closers : c.closer next → c.Closing s' ∧ (c.passed next → c.load s' ≤ 0)

lemma Orderly.moves (h : Orderly c s) (hmoves : Moves c s s' id next) : Orderly c s' where
  toSound := h.goes hmoves.toGoes
  closers := by
    intro other phase hg hcloser
    rw [hmoves.callers] at hg
    rcases Table.set_cases hg with ⟨-, rfl⟩ | ⟨-, hg⟩
    · exact hmoves.closers hcloser
    · obtain ⟨hclosing, hload⟩ := h.closers other phase hg hcloser
      exact (hmoves.admits hclosing).imp_right fun hless hpassed => hless.trans (hload hpassed)

end Closable

end RemoteFs
