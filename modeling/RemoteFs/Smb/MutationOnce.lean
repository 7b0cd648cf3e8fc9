import RemoteFs.Lib.Runs
import RemoteFs.Smb.MutationOwner

/-!
# A mutation takes effect once

The authority may fail a call before or after its effect, and may execute what it
received at any later time, but it executes an action at most once and never one
that a receipt denied.  Seen from there, an owner sends a command only when all
that it sent before is the same command or was denied.
-/

namespace RemoteFs.Smb

inductive Event (ι : Type) where
  | received (command : MutationCommand ι)
  /-- A receipt, bound to its operation, said that the action did not execute. -/
  | denied (action : ι)

def FileActionReceipt.Denies {ι : Type} (r : FileActionReceipt ι) (action : ι) : Prop :=
  r.action = action ∧ r.operation.isSome ∧ r.outcome = .notExecuted

/-- What happened at the authority up to a state of it. -/
structure Record (σ ι : Type) where
  journal : σ → List (Event ι)
  executed : σ → List (MutationCommand ι)

/-- Nothing arrives; something that arrived before may be executed. -/
def Record.Quiet {σ ι : Type} (r : Record σ ι) (s s' : σ) : Prop :=
  r.journal s' = r.journal s ∧ r.executed s ⊆ r.executed s'

/-- An authority that executes each action at most once and tells the truth. -/
structure Truthful {σ ι α : Type} (a : Authority σ ι α) (r : Record σ ι) : Prop where
  once : ∀ s, ((r.executed s).map (·.action)).Nodup
  known : ∀ s, ∀ c ∈ r.executed s, .received c ∈ r.journal s
  upheld : ∀ s, ∀ c ∈ r.executed s, .denied c.action ∉ r.journal s
  authorize : ∀ s, r.Quiet s (a.authorize s).2
  authorizeQuery : ∀ s, r.Quiet s (a.authorizeQuery s).2
  reobserve : ∀ f ∈ a.reobserve, ∀ s, r.Quiet s (f s).2
  reserve : ∀ payload s, r.Quiet s (a.reserve payload s).2
  newFileActionID : ∀ s, r.Quiet s (a.newFileActionID s).2
  idle : ∀ s, r.Quiet s (a.idle s)
  mutate : ∀ c s, r.journal (a.mutate c s).2 = r.journal s ++ [.received c] ∧
    r.executed s ⊆ r.executed (a.mutate c s).2
  succeeded : ∀ c s, (a.mutate c s).1.err = none →
    ∃ x ∈ r.executed (a.mutate c s).2, x.action = c.action
  denial : ∀ action s answer, (a.queryFileAction action s).1 = .ok answer → answer.Denies action →
    r.journal (a.queryFileAction action s).2 = r.journal s ++ [.denied action]
  answered : ∀ action s, (r.journal (a.queryFileAction action s).2 = r.journal s ∨
      r.journal (a.queryFileAction action s).2 = r.journal s ++ [.denied action]) ∧
    r.executed s ⊆ r.executed (a.queryFileAction action s).2

/-- Obtained by replacements of observations that `sameEffect` allows. -/
def Renewed (root : Bool) : MutationPayload → MutationPayload → Prop :=
  Relation.ReflTransGen fun old fresh => old.sameEffect root fresh = true

/-- A command arrives only when all that arrived before is the same command, or
was denied and has the same effect. -/
inductive Orderly {ι : Type} (root : Bool) : List (Event ι) → Prop
  | nil : Orderly root []
  | received {journal : List (Event ι)} {c : MutationCommand ι} : Orderly root journal →
      (∀ before, .received before ∈ journal → (before = c ∨ .denied before.action ∈ journal) ∧
          Renewed root before.payload c.payload) →
      Orderly root (journal ++ [.received c])
  | denied {journal : List (Event ι)} {action : ι} :
      Orderly root journal → Orderly root (journal ++ [.denied action])

namespace MutationOwner

variable {σ ι α : Type} {a : Authority σ ι α} {r : Record σ ι}
  {o o' : MutationOwner ι} {s s' : σ} {root : Bool} {first : MutationPayload}

/-- The owner, seen from the authority. -/
structure Kept (r : Record σ ι) (root : Bool) (first : MutationPayload)
    (o : MutationOwner ι) (s : σ) : Prop where
  rooted : o.root = root
  orderly : Orderly root (r.journal s)
  past : ∀ c, .received c ∈ r.journal s → (c = o.command ∨ .denied c.action ∈ r.journal s) ∧
      Renewed root c.payload o.command.payload
  origin : Renewed root first o.command.payload
  origins : ∀ c, .received c ∈ r.journal s → Renewed root first c.payload
  unsent : o.dispatched = false → ∀ c, .received c ∈ r.journal s → .denied c.action ∈ r.journal s
  completed : o.execution = .completed → r.executed s ≠ []
  notExecuted : o.execution = .notExecuted → ∀ c, .received c ∈ r.journal s →
    .denied c.action ∈ r.journal s
  settled : o.settled = true ↔ o.execution ≠ .unknown

/-- Errors and marks do not bear on what was sent. -/
lemma Kept.of_eq (h : Kept r root first o s) (hcmd : o'.command = o.command)
    (hroot : o'.root = o.root) (hdispatched : o'.dispatched = o.dispatched)
    (hexecution : o'.execution = o.execution) (hse : o'.settled = o.settled) :
    Kept r root first o' s := by
  constructor
  case rooted => rw [hroot]; exact h.rooted
  case orderly => exact h.orderly
  case past => rw [hcmd]; exact h.past
  case origin => rw [hcmd]; exact h.origin
  case origins => exact h.origins
  case unsent => rw [hdispatched]; exact h.unsent
  case completed => rw [hexecution]; exact h.completed
  case notExecuted => rw [hexecution]; exact h.notExecuted
  case settled => rw [hexecution, hse]; exact h.settled

lemma Kept.failLocked (h : Kept r root first o s) (err : Err) :
    Kept r root first (o.failLocked err) s :=
  h.of_eq rfl rfl rfl rfl rfl

lemma nonempty_of_subset {α : Type} {xs ys : List α} (hsub : xs ⊆ ys)
    (hne : xs ≠ []) : ys ≠ [] := by
  obtain ⟨x, hx⟩ := List.exists_mem_of_ne_nil xs hne
  exact List.ne_nil_of_mem (hsub hx)

section

variable (h : Kept r root first o s)
include h

lemma Kept.quiet (hquiet : r.Quiet s s') : Kept r root first o s' := by
  obtain ⟨hjo, hexecuted⟩ := hquiet
  refine ⟨h.rooted, hjo ▸ h.orderly, hjo ▸ h.past, h.origin,
    hjo ▸ h.origins, hjo ▸ h.unsent, fun hdo => ?_,
    hjo ▸ h.notExecuted, h.settled⟩
  exact nonempty_of_subset hexecuted (h.completed hdo)

lemma Kept.denied {action : ι} (hjo : r.journal s' = r.journal s ++ [.denied action])
    (hexecuted : r.executed s ⊆ r.executed s') : Kept r root first o s' := by
  have hold : ∀ {c}, Event.received c ∈ r.journal s' → .received c ∈ r.journal s := by
    intro c hc
    simpa [hjo] using hc
  have hgrow : ∀ {event}, event ∈ r.journal s → event ∈ r.journal s' := by
    intro event hevent
    rw [hjo]
    exact List.mem_append_left _ hevent
  refine ⟨h.rooted, hjo ▸ h.orderly.denied, fun c hc => ?_, h.origin,
    fun c hc => h.origins c (hold hc),
    fun hunsent c hc => hgrow (h.unsent hunsent c (hold hc)), fun hdo => ?_,
    fun hnot c hc => hgrow (h.notExecuted hnot c (hold hc)), h.settled⟩
  · obtain ⟨hs, hef⟩ := h.past c (hold hc)
    exact ⟨hs.imp_right hgrow, hef⟩
  · exact nonempty_of_subset hexecuted (h.completed hdo)

lemma Kept.received (hse : o.settled = false)
    (hjo : r.journal s' = r.journal s ++ [.received o.command]) :
    Kept r root first { o with dispatched := true } s' := by
  have hunk : o.execution = .unknown := by
    by_contra hne
    simp [h.settled.mpr hne] at hse
  refine ⟨h.rooted, hjo ▸ h.orderly.received h.past, fun c hc => ?_, h.origin,
    fun c hc => ?_, (fun hunsent => by cases hunsent), fun hdo => ?_, fun hnot => ?_, h.settled⟩
  · rw [hjo, List.mem_append, List.mem_singleton] at hc
    rcases hc with hc | hc
    · obtain ⟨hs, hef⟩ := h.past c hc
      refine ⟨hs.imp_right fun hde => ?_, hef⟩
      rw [hjo]
      exact List.mem_append_left _ hde
    · cases hc
      exact ⟨.inl rfl, .refl⟩
  · rw [hjo, List.mem_append, List.mem_singleton] at hc
    rcases hc with hc | hc
    · exact h.origins c hc
    · cases hc
      exact h.origin
  · simp [hunk] at hdo
  · simp [hunk] at hnot

lemma Kept.completeLocked (hdo : r.executed s ≠ []) : Kept r root first o.completeLocked s :=
  ⟨h.rooted, h.orderly, h.past, h.origin, h.origins, h.unsent, fun _ => hdo,
    (fun hnot => by cases hnot), by simp [MutationOwner.completeLocked]⟩

lemma Kept.rejectLocked (err : Err)
    (hde : ∀ c, .received c ∈ r.journal s → .denied c.action ∈ r.journal s) :
    Kept r root first (o.rejectLocked err) s :=
  ⟨h.rooted, h.orderly, h.past, h.origin, h.origins, h.unsent, (fun hdo => by cases hdo),
    fun _ => hde, by simp [MutationOwner.rejectLocked]⟩

lemma Kept.allDenied (hcur : .denied o.command.action ∈ r.journal s) (c : MutationCommand ι)
    (hc : .received c ∈ r.journal s) : .denied c.action ∈ r.journal s := by
  rcases (h.past c hc).1 with rfl | hde
  · exact hcur
  · exact hde

lemma Kept.renewed (hde : ∀ c, .received c ∈ r.journal s → .denied c.action ∈ r.journal s)
    {command : MutationCommand ι} {last : Option Err} {retries : ℕ}
    (hef : o.command.payload.sameEffect o.root command.payload = true) :
    Kept r root first { o with
      command, lastErr := last, conditionRetries := retries, dispatched := false } s := by
  rw [h.rooted] at hef
  refine ⟨h.rooted, h.orderly, fun c hc => ?_, h.origin.tail hef, h.origins,
    fun _ => hde, h.completed, h.notExecuted, h.settled⟩
  exact ⟨.inr (hde c hc), (h.past c hc).2.tail hef⟩

end

/-! ## Calls -/

lemma dispatchLocked_err (h : (o.dispatchLocked a s).1.2 = none) :
    (a.mutate o.command s).1.err = none := by
  simp only [dispatchLocked] at h
  cases herr : (a.mutate o.command s).1.err with
  | none => rfl
  | some err => simp [herr] at h

variable (t : Truthful a r)
include t

section

variable (h : Kept r root first o s)
include h

/-- One call: it is recorded, and a success means that the action executed. -/
lemma Kept.call (hse : o.settled = false)
    {err : Option Err} (hca : { o with dispatched := true }.call a s = (err, o', s')) :
    Kept r root first o' s' ∧
      (err.isSome → ∃ last, o' = { o with dispatched := true, lastErr := last }) := by
  obtain ⟨hjo, hexecuted⟩ := t.mutate o.command s
  have hsent := h.received hse hjo
  have hlater : ({ o with dispatched := true }.dispatchLocked a s).2 =
      (a.mutate o.command s).2 := rfl
  have herr := dispatchLocked_err (o := { o with dispatched := true }) (a := a) (s := s)
  simp only [MutationOwner.call] at hca
  split at hca
  case _ attr failure later heq =>
    rw [heq] at hlater
    cases hlater
    cases hca
    exact ⟨hsent.of_eq rfl rfl rfl rfl rfl, fun _ => ⟨_, rfl⟩⟩
  case _ attr later heq =>
    rw [heq] at hlater herr
    cases hlater
    obtain ⟨x, hx, -⟩ := t.succeeded o.command s (herr rfl)
    split_ifs at hca
    · cases hca
      exact ⟨hsent.completeLocked (List.ne_nil_of_mem hx), fun hsome => by cases hsome⟩
    · cases hca
      exact ⟨hsent.of_eq rfl rfl rfl rfl rfl, fun _ => ⟨_, rfl⟩⟩

lemma Kept.replay (hse : o.settled = false) (hdispatched : o.dispatched = true)
    (before : Err) : Kept r root first (o.replay a before s).1 (o.replay a before s).2 := by
  have hs : { o with dispatched := true } = o := by rw [← hdispatched]
  have hau := h.quiet (t.authorize s)
  unfold MutationOwner.replay
  split
  case _ err later heq =>
    rw [heq] at hau
    exact hau.failLocked _
  case _ later heq =>
    rw [heq] at hau
    split
    case _ o' s' hca =>
      exact (hau.call t hse (hs.symm ▸ hca)).1
    case _ err o' s' hca =>
      exact (hau.call t hse (hs.symm ▸ hca)).1.failLocked _

lemma Kept.renewal {answer : Except Err (MutationCommand ι)}
    (hre : o.renewal a s = (answer, s')) :
    Kept r root first o s' ∧ r.journal s' = r.journal s ∧ ∀ command, answer = .ok command →
      o.command.payload.sameEffect o.root command.payload = true := by
  unfold MutationOwner.renewal at hre
  split at hre
  · cases hre
    exact ⟨h, rfl, fun _ hok => by cases hok⟩
  case _ reobserve hreobserve =>
    have hquiet := t.reobserve reobserve hreobserve s
    have hseen := h.quiet hquiet
    split at hre
    case _ err later heq =>
      rw [heq] at hseen hquiet
      cases hre
      exact ⟨hseen, hquiet.1, fun _ hok => by cases hok⟩
    case _ fresh later heq =>
      rw [heq] at hseen hquiet
      split_ifs at hre with hef
      · have hquiet' := t.reserve fresh later
        have hreserved := hseen.quiet hquiet'
        split at hre
        case _ err later' heq' =>
          rw [heq'] at hreserved hquiet'
          cases hre
          exact ⟨hreserved, hquiet'.1.trans hquiet.1, fun _ hok => by cases hok⟩
        case _ later' heq' =>
          rw [heq'] at hreserved hquiet'
          have hquiet'' := t.newFileActionID later'
          have hminted := hreserved.quiet hquiet''
          have hjo := hquiet''.1.trans (hquiet'.1.trans hquiet.1)
          split at hre
          case _ err later'' heq'' =>
            rw [heq''] at hminted hjo
            cases hre
            exact ⟨hminted, hjo, fun _ hok => by cases hok⟩
          case _ action later'' heq'' =>
            rw [heq''] at hminted hjo
            cases hre
            refine ⟨hminted, hjo, fun command hok => ?_⟩
            cases hok
            exact hef
      · cases hre
        exact ⟨hseen, hquiet.1, fun _ hok => by cases hok⟩

end

variable [DecidableEq ι]

section

variable (h : Kept r root first o s)
include h

/-- A query keeps the books; a receipt that it accepts and that says that the
action did not execute, denies it. -/
lemma Kept.queryLocked {answer : Except Err (FileActionReceipt ι)}
    (hqu : o.queryLocked a s = (answer, s')) :
    Kept r root first o s' ∧ ∀ receipt, answer = .ok receipt → receipt.outcome = .notExecuted →
      receipt.operation = some o.command.payload.operation →
      .denied o.command.action ∈ r.journal s' := by
  have hasked := h.quiet (t.authorize s)
  unfold MutationOwner.queryLocked at hqu
  split at hqu
  case _ err later heq =>
    rw [heq] at hasked
    cases hqu
    exact ⟨hasked, fun _ hok => by cases hok⟩
  case _ later heq =>
    rw [heq] at hasked
    have hallowed := hasked.quiet (t.authorizeQuery later)
    split at hqu
    case _ err later' heq' =>
      rw [heq'] at hallowed
      cases hqu
      exact ⟨hallowed, fun _ hok => by cases hok⟩
    case _ later' heq' =>
      rw [heq'] at hallowed
      obtain ⟨hjo, hexecuted⟩ := t.answered o.command.action later'
      have hanswered : Kept r root first o (a.queryFileAction o.command.action later').2 := by
        rcases hjo with hjo | hjo
        · exact hallowed.quiet ⟨hjo, hexecuted⟩
        · exact hallowed.denied hjo hexecuted
      have hdenial := t.denial o.command.action later'
      split at hqu
      case _ err later'' heq'' =>
        rw [heq''] at hanswered
        cases hqu
        exact ⟨hanswered, fun _ hok => by cases hok⟩
      case _ receipt later'' heq'' =>
        rw [heq''] at hanswered hdenial
        split_ifs at hqu with hbound
        · cases hqu
          refine ⟨hanswered, fun receipt' hok hnot hoperation => ?_⟩
          cases hok
          rw [hdenial receipt rfl ⟨hbound.2.2.1, by simp [hoperation], hnot⟩]
          simp
        · cases hqu
          exact ⟨hanswered, fun _ hok => by cases hok⟩

/-- The whole of `executeCommand`; the recursion is on the retries that are left. -/
lemma Kept.executeCommand (hse : o.settled = false) :
    Kept r root first (executeCommand a o s).1 (executeCommand a o s).2 := by
  induction hleft : maxMutationConditionRetries - o.conditionRetries
    using Nat.strong_induction_on generalizing o s with
  | _ left ih =>
  have hau := h.quiet (t.authorize s)
  rw [MutationOwner.executeCommand]
  split
  case _ err later heq =>
    rw [heq] at hau
    simp only
    split_ifs with hdispatched
    · exact hau.failLocked _
    · rw [Bool.not_eq_true] at hdispatched
      exact (hau.rejectLocked err (hau.unsent hdispatched)).failLocked _
  case _ later heq =>
    rw [heq] at hau
    split
    case _ o' s' hca => exact (hau.call t hse hca).1
    case _ err called s' hca =>
      obtain ⟨hcalled, hlast⟩ := hau.call t hse hca
      obtain ⟨last, rfl⟩ := hlast rfl
      split
      case _ queryErr asked hqu =>
        exact (hcalled.queryLocked t hqu).1.failLocked _
      case _ receipt asked hqu =>
        obtain ⟨hque, hdenial⟩ := hcalled.queryLocked t hqu
        split_ifs with hbound hagain hdo
        · -- the receipt denies the action, hence all that was sent
          have hde := hque.allDenied (hdenial receipt rfl hbound.1 hbound.2)
          split
          case _ observeErr seen hre =>
            obtain ⟨hk, hjo, -⟩ := hque.renewal t hre
            exact (hk.rejectLocked err (hjo ▸ hde)).failLocked _
          case _ command seen hre =>
            obtain ⟨hk, hjo, hef⟩ := hque.renewal t hre
            refine ih _ ?_ (hk.renewed (hjo ▸ hde) (hef command rfl)) hse rfl
            simp only [maxMutationConditionRetries] at hleft hagain ⊢
            omega
        · exact (hque.rejectLocked err (hque.allDenied
            (hdenial receipt rfl hbound.1 hbound.2))).failLocked _
        · exact hque.replay t hse rfl err
        · exact hque.failLocked _

lemma Kept.reconcile : Kept r root first (o.reconcile a s).1 (o.reconcile a s).2 := by
  unfold MutationOwner.reconcile
  split_ifs with hdo
  · exact h
  simp only [Bool.or_eq_true, not_or, Bool.not_eq_true, Bool.not_eq_true',
    Bool.not_eq_false] at hdo
  obtain ⟨⟨hse, -⟩, hdispatched⟩ := hdo
  have hau := h.quiet (t.authorize s)
  split
  case _ err later heq =>
    rw [heq] at hau
    exact hau.failLocked _
  case _ later heq =>
    rw [heq] at hau
    split
    case _ err s' hqu => exact (hau.queryLocked t hqu).1.failLocked _
    case _ receipt s' hqu =>
      obtain ⟨hque, hdenial⟩ := hau.queryLocked t hqu
      split_ifs with hbound
      · exact hque.rejectLocked _ (hque.allDenied (hdenial receipt rfl hbound.2 hbound.1))
      · exact hque.failLocked _
      · exact hque.replay t hse hdispatched _

end

lemma Kept.exec {step : Step} {p : MutationOwner ι × σ} (h : Kept r root first p.1 p.2) :
    Kept r root first (exec a p step).1 (exec a p step).2 := by
  obtain ⟨o, s⟩ := p
  cases step with
  | reconcile => exact h.reconcile t
  | retire released settled =>
    simp only [MutationOwner.exec, MutationOwner.retire]
    split
    · exact h
    · exact h.of_eq rfl rfl rfl rfl rfl
  | idle => exact h.quiet (t.idle s)

variable (command : MutationCommand ι)

omit t [DecidableEq ι] in
lemma Kept.reserve (root : Bool) (hnew : r.journal s = []) :
    Kept r root command.payload (MutationOwner.reserve command root) s := by
  constructor <;> simp [MutationOwner.reserve, hnew, Orderly.nil, Renewed,
    Relation.ReflTransGen.refl]

lemma Kept.run (root : Bool) (steps : List Step) (hnew : r.journal s = []) :
    Kept r root command.payload (MutationOwner.run a command root steps s).1
      (MutationOwner.run a command root steps s).2 :=
  Runs.invariant (motive := fun p : MutationOwner ι × σ =>
      Kept r root command.payload p.1 p.2) (fun _ _ h => h.exec t)
    ((Kept.reserve command root hnew).executeCommand t rfl) steps

omit t in
lemma exec_of_settled {step : Step} {p : MutationOwner ι × σ} (hse : p.1.settled = true) :
    (MutationOwner.exec a p step).1.settled = true ∧
      (MutationOwner.exec a p step).1.execution = p.1.execution := by
  obtain ⟨o, s⟩ := p
  cases step with
  | reconcile =>
    simp only at hse
    simp [MutationOwner.exec, MutationOwner.reconcile, hse]
  | retire released settled =>
    simp only [MutationOwner.exec, MutationOwner.retire]
    split_ifs <;> exact ⟨hse, rfl⟩
  | idle => exact ⟨hse, rfl⟩

/-- Against an authority that executes each action at most once and tells the
truth, whatever fails: a command takes effect at most once; it is sent under a new
action only after a receipt denied all actions before, and with the effect that it
had; the ledger says completed only if it executed and not executed only if no
action of it did, and what it says remains. -/
theorem mutation_takes_effect_once (root : Bool) (steps : List Step) (hnew : r.journal s = []) :
    let p := MutationOwner.run a command root steps s
    (r.executed p.2).length ≤ 1 ∧ Orderly root (r.journal p.2) ∧
      (∀ c, .received c ∈ r.journal p.2 → Renewed root command.payload c.payload) ∧
      (p.1.execution = .completed → r.executed p.2 ≠ []) ∧
      (p.1.execution = .notExecuted → r.executed p.2 = []) ∧
      (p.1.execution ≠ .unknown → ∀ more,
        (MutationOwner.run a command root (steps ++ more) s).1.execution = p.1.execution) := by
  intro p
  have h := Kept.run t command root steps hnew
  refine ⟨?_, h.orderly, h.origins, h.completed, fun hnot => ?_, fun hknown more => ?_⟩
  · -- whatever executed was not denied, so it is the current command
    have hcurrent : ∀ action ∈ (r.executed p.2).map (·.action), action = p.1.command.action := by
      intro action haction
      obtain ⟨c, hc, rfl⟩ := List.mem_map.mp haction
      rcases (h.past c (t.known p.2 c hc)).1 with rfl | hde
      · rfl
      · exact absurd hde (t.upheld p.2 c hc)
    rw [← List.length_map (·.action), List.eq_replicate_of_mem hcurrent, List.length_replicate]
    have honce := t.once p.2
    rwa [List.eq_replicate_of_mem hcurrent, List.nodup_replicate] at honce
  · rw [List.eq_nil_iff_forall_not_mem]
    intro c hc
    exact t.upheld p.2 c hc (h.notExecuted hnot c (t.known p.2 c hc))
  · have hse := h.settled.mpr hknown
    rw [MutationOwner.run, List.foldl_append]
    exact (Runs.invariant (motive := fun q : MutationOwner ι × σ =>
        q.1.settled = true ∧ q.1.execution = p.1.execution)
      (fun q step hq => (exec_of_settled hq.1).imp_right (·.trans hq.2))
      ⟨hse, rfl⟩ more).2

end MutationOwner

/-! ## An authority that keeps conflicting until action 2 -/

namespace Conflicting

structure State where
  journal : List (Event ℕ)
  done : Option (MutationCommand ℕ)
  known : ∀ c ∈ done, .received c ∈ journal
  second : ∀ c ∈ done, c.action = 2
  open_ : .denied 2 ∉ journal

def State.start : State := ⟨[], none, by simp, by simp, by simp⟩

def State.receive (s : State) (c : MutationCommand ℕ) : State :=
  if h : s.done = none ∧ c.action = 2 then
    ⟨s.journal ++ [.received c], some c, by simp, by simp [h.2], by simp [s.open_]⟩
  else
    ⟨s.journal ++ [.received c], s.done,
      fun x hx => List.mem_append_left _ (s.known x hx), s.second, by simp [s.open_]⟩

def State.deny (s : State) (action : ℕ) (h : action ≠ 2) : State :=
  ⟨s.journal ++ [.denied action], s.done,
    fun x hx => List.mem_append_left _ (s.known x hx), s.second,
    by simp [s.open_, h.symm]⟩

def clear : MutationPayload := .clear [] []

def authority : Authority State ℕ Unit where
  authorize s := (none, s)
  authorizeQuery s := (none, s)
  mutate c s :=
    (⟨some ⟨5, ()⟩, true, if c.action = 2 then none else some [.conditionConflict]⟩,
      s.receive c)
  queryFileAction action s :=
    if h : action = 2 then (.ok ⟨action, some clear.operation, .completed⟩, s)
    else (.ok ⟨action, some clear.operation, .notExecuted⟩, s.deny action h)
  reobserve := some fun s => (.ok clear, s)
  reserve _ s := (none, s)
  newFileActionID s := (.ok 2, s)
  idle s := s
  actionValid _ := true
  checkResultIdentity _ := true
  resultFits _ _ := true

def record : Record State ℕ := ⟨State.journal, fun s => s.done.toList⟩

lemma receive_journal (s : State) (c : MutationCommand ℕ) :
    (s.receive c).journal = s.journal ++ [.received c] := by
  unfold State.receive
  split_ifs <;> rfl

lemma receive_done (s : State) (c : MutationCommand ℕ) :
    (s.receive c).done = if s.done = none ∧ c.action = 2 then some c else s.done := by
  unfold State.receive
  split_ifs <;> rfl

lemma quiet (s : State) : record.Quiet s s := ⟨rfl, fun _ h => h⟩

lemma truthful : Truthful authority record where
  once s := by
    cases hdo : s.done <;> simp [record, hdo]
  known s c hc := s.known c (by simpa [record] using hc)
  upheld s c hc := by
    rw [s.second c (by simpa [record] using hc)]
    exact s.open_
  authorize := quiet
  authorizeQuery := quiet
  reobserve f hf s := by
    cases hf
    exact quiet s
  reserve _ := quiet
  newFileActionID := quiet
  idle := quiet
  mutate c s := by
    refine ⟨receive_journal s c, fun x hx => ?_⟩
    simp only [record, authority, receive_done, Option.mem_toList] at hx ⊢
    split_ifs with hfirst
    · rw [hfirst.1] at hx
      cases hx
    · exact hx
  succeeded c s herr := by
    simp only [authority, ite_eq_left_iff, reduceCtorEq, imp_false, not_not] at herr
    cases hdo : s.done with
    | none => exact ⟨c, by simp [record, authority, receive_done, hdo, herr], rfl⟩
    | some x =>
      refine ⟨x, by simp [record, authority, receive_done, hdo], ?_⟩
      exact (s.second x hdo).trans herr.symm
  denial action s answer hanswer hdenies := by
    simp only [authority] at hanswer ⊢
    split_ifs at hanswer ⊢
    · cases hanswer
      simp [FileActionReceipt.Denies] at hdenies
    · rfl
  answered action s := by
    simp only [authority]
    split_ifs
    · exact ⟨.inl rfl, fun _ h => h⟩
    · exact ⟨.inr rfl, fun _ h => h⟩

end Conflicting

/-- The first action is denied after a conflict, the second executes. -/
theorem mutation_takes_effect_once_retried :
    let p := MutationOwner.run Conflicting.authority ⟨1, Conflicting.clear⟩ false
      [.reconcile] Conflicting.State.start
    (Conflicting.record.executed p.2).length ≤ 1 ∧
      (p.1.execution = .notExecuted → Conflicting.record.executed p.2 = []) := by
  intro p
  have h := MutationOwner.mutation_takes_effect_once Conflicting.truthful
    ⟨1, Conflicting.clear⟩ false [.reconcile] (s := Conflicting.State.start) rfl
  exact ⟨h.1, h.2.2.2.2.1⟩

end RemoteFs.Smb
