import RemoteFs.Advisory.WaitGraph

/-!
# Use claims of native references

A reference announces what it may do with a node and what it denies to all
other references.  `AddUse` compares a new claim with the installed ones, in
both directions, and no other operation adds a claim.  So any two installed
claims on one node stay compatible, and `CheckUse` never turns a holder away
because of somebody else's claim.
-/

namespace RemoteFs.Advisory

open Storage Coordinator

variable {scope : UseScope} {record : UseRecord}

/-! ## Checks of an operation -/

namespace Coordinator

variable (c : Coordinator)

def exactUseLocked (node : ℕ) (scope : UseScope) (claim : UseClaim) : Bool :=
  decide (c.uses.get? scope = some ⟨node, claim⟩)

def checkOtherUsesLocked (node : ℕ) (scope : UseScope) (uses : UInt8) : Except Failure Unit :=
  refuse (c.uses.toList.any fun entry =>
    decide (entry.2.node = node) && decide (entry.1 ≠ scope) &&
      decide (uses &&& entry.2.claim.deny ≠ 0)) ErrUseConflict

def checkUseLocked (node : ℕ) (scope : UseScope) (uses : UInt8) : Except Failure Unit :=
  if scope.token ≠ [] then
    match c.uses.get? scope with
    | none => .error ErrInvalidScope
    | some own =>
      if own.node ≠ node then .error ErrInvalidScope
      else if uses &&& ~~~own.claim.uses ≠ 0 then .error { errno := .EBADF }
      else c.checkOtherUsesLocked node scope uses
  else c.checkOtherUsesLocked node scope uses

def checkUse (node : ℕ) (scope : UseScope) (uses : UInt8) : Except Failure Unit := do
  checkCall node
  refuse (uses &&& ~~~allUses ≠ 0) EINVAL
  c.checkUseLocked node scope uses

/-- A reference may settle a deletion that was accepted earlier even though its
own claim lacks the use. -/
def checkCloseUnlink (node : ℕ) (scope : UseScope) (claim : UseClaim) : Except Failure Unit := do
  checkCall node
  scope.check
  claim.check
  refuse (c.exactUseLocked node scope claim = false) ErrInvalidScope
  c.checkOtherUsesLocked node scope deleteName

end Coordinator

/-! ## The installed claims -/

structure Compatibles (uses : Table UseScope UseRecord) : Prop where
  node : ∀ {scope record}, uses.get? scope = some record → record.node ≠ 0
  scope : ∀ {scope record}, uses.get? scope = some record → scope.check = .ok ()
  claim : ∀ {scope record}, uses.get? scope = some record → record.claim.check = .ok ()
  compatible : ∀ {scope other record rival},
    uses.get? scope = some record → uses.get? other = some rival →
    scope ≠ other → record.node = rival.node →
    record.claim.Compatible rival.claim

lemma Compatibles.of_claims {uses uses' : Table UseScope UseRecord} (hall : Compatibles uses)
    (hclaims : Claims uses uses') : Compatibles uses' := by
  cases hclaims with
  | @added node scope claim hnode hscope hclaim hnew hfree =>
    refine ⟨fun hg => ?_, fun hg => ?_, fun hg => ?_, fun hg hrival hne hsm => ?_⟩
    · rcases Table.set_cases hg with ⟨-, rfl⟩ | ⟨-, hold⟩
      · exact hnode
      · exact hall.node hold
    · rcases Table.set_cases hg with ⟨rfl, -⟩ | ⟨-, hold⟩
      · exact hscope
      · exact hall.scope hold
    · rcases Table.set_cases hg with ⟨-, rfl⟩ | ⟨-, hold⟩
      · exact hclaim
      · exact hall.claim hold
    · rcases Table.set_cases hg with ⟨rfl, rfl⟩ | ⟨-, hold⟩ <;>
        rcases Table.set_cases hrival with ⟨rfl, rfl⟩ | ⟨-, hold'⟩
      · exact absurd rfl hne
      · exact hfree _ _ hold' hsm.symm
      · exact (hfree _ _ hold hsm).symm
      · exact hall.compatible hold hold' hne hsm
  | dropped scope =>
    exact ⟨fun hg => hall.node (Table.erase_cases hg).2,
      fun hg => hall.scope (Table.erase_cases hg).2,
      fun hg => hall.claim (Table.erase_cases hg).2,
      fun hg hrival => hall.compatible (Table.erase_cases hg).2 (Table.erase_cases hrival).2⟩

/-- Sections other than those on use claims leave the claims alone. -/
lemma Acts.uses (hacts : Acts True c c') : c'.uses = c.uses ∨ Claims c.uses c'.uses := by
  cases hacts with
  | aged haging => exact .inl haging.ages.uses
  | created | bound | marked | dissolved => exact .inl rfl
  | @started c₁ _ key id epoch commands haging _ _ _ =>
    have hf := startLocked_frame (c₁.admitLocked key.session
      (freshRequest key id epoch commands)) c₁.allocated
    exact .inl (hf.uses.trans haging.ages.uses)
  | @retried ref a hp => exact .inl (c.retryLocked_frame ref a).uses
  | cancelled haging _ _ haging' =>
    exact .inl (haging'.ages.uses.trans ((completeLocked_frame ..).uses.trans haging.ages.uses))
  | @dropped key s hs => exact .inl (c.dropLocked_frame key).uses
  | @unbound session owner _ binding _ _ hretire =>
    have hf := foldl_dropLocked_frame c (ownerKeys session owner binding.node)
    rw [hretire, unboundBy]
    generalize (ownerKeys session owner binding.node).foldl dropLocked c = c₁ at *
    exact .inl hf.uses
  | used hclaims _ => exact .inr hclaims

lemma compatibles_of_run {config : Config} {now : ℕ → Time}
    {c₀ : Coordinator} (hnew : new config now = .ok c₀)
    (steps : List Section) : Compatibles (steps.foldl exec c₀).uses := by
  have hinit : Sound True c₀ ∧ Compatibles c₀.uses := by
    refine ⟨sound_of_run hnew [], ?_⟩
    rw [(new_eq_ok hnew).2]
    exact ⟨by simp [empty], by simp [empty], by simp [empty], by simp [empty]⟩
  refine (Runs.invariant (motive := fun c => Sound True c ∧ Compatibles c.uses)
    (fun c step h => ⟨h.1.exec step fun _ => trivial, ?_⟩) hinit steps).2
  rcases (exec_acts h.1 step fun _ => trivial).uses with hsm | hclaims
  · rw [hsm]
    exact h.2
  · exact h.2.of_claims hclaims

/-! ## Holders and failing calls -/

lemma checkUse_eq {c : Coordinator} {node : ℕ} {uses : UInt8}
    (hnode : node ≠ 0) (huses : uses &&& ~~~allUses = 0) (scope : UseScope) :
    c.checkUse node scope uses = c.checkUseLocked node scope uses := by
  rw [checkUse, checkCall, refuse, refuse, if_neg hnode, if_neg (not_not.mpr huses)]
  rfl

namespace Compatibles

variable {c : Coordinator}

/-- Nothing that a holder announced is denied by anybody else. -/
lemma checkOtherUses (hall : Compatibles c.uses) (hg : c.uses.get? scope = some record)
    {uses : UInt8} (huses : uses &&& ~~~record.claim.uses = 0) :
    c.checkOtherUsesLocked record.node scope uses = .ok () := by
  unfold checkOtherUsesLocked
  rw [refuse_ok]
  simp only [List.any_eq_true, not_exists, not_and, Bool.and_eq_true,
    decide_eq_true_eq, not_not, Prod.forall]
  rintro other rival hmem ⟨hnode, hne⟩
  exact land_eq_zero_of_subset huses (hall.compatible hg
    (Table.mem_toList.mp hmem) (Ne.symm hne) hnode.symm).1

lemma checkUse_holder (hall : Compatibles c.uses) (hg : c.uses.get? scope = some record)
    {uses : UInt8} (huses : uses &&& ~~~record.claim.uses = 0) (node : ℕ) :
    c.checkUse node scope uses ≠ .error ErrUseConflict ∧
      c.checkUse record.node scope uses = .ok () := by
  have hbits := land_eq_zero_of_subset huses (UseClaim.uses_le_allUses (hall.claim hg))
  have htoken := UseScope.token_ne_nil (hall.scope hg)
  have hown : c.checkUse record.node scope uses = .ok () := by
    rw [checkUse_eq (hall.node hg) hbits]
    simp [checkUseLocked, htoken, hg, huses, hall.checkOtherUses hg huses]
  refine ⟨?_, hown⟩
  by_cases hnode : node = record.node
  · rw [hnode, hown]
    intro hfailed
    cases hfailed
  by_cases hzero : node = 0
  · rw [hzero]
    intro hfailed
    cases hfailed
  · rw [checkUse_eq hzero hbits]
    simp [checkUseLocked, htoken, hg, Ne.symm hnode, ErrInvalidScope, ErrUseConflict]

lemma addUse_again (hall : Compatibles c.uses) (hg : c.uses.get? scope = some record) :
    c.addUse record.node scope record.claim = ⟨c, .ok ()⟩ := by
  simp [addUse, checkCall, refuse, hall.node hg, hall.scope hg, hall.claim hg, hg]

end Compatibles

section

variable {c : Coordinator} {node : ℕ} {scope : UseScope} {claim : UseClaim} {failure : Failure}

lemma addUse_error (herr : (c.addUse node scope claim).result = .error failure) :
    (c.addUse node scope claim).state = c := by
  unfold addUse at *
  split at herr
  · rfl
  · rfl
  · rfl
  split at herr
  · split <;> rfl
  split at herr
  · rw [if_pos ‹_›]
  split at herr
  · rw [if_neg ‹_›, if_pos ‹_›]
  · cases herr

lemma dropUse_error (herr : (c.dropUse node scope).result = .error failure) :
    (c.dropUse node scope).state = c := by
  unfold dropUse at *
  split at herr
  · rfl
  · rfl
  split at herr
  · rfl
  split at herr
  · rw [if_pos ‹_›]
  · cases herr

lemma dropUseExact_error (herr : (c.dropUseExact node scope claim).result = .error failure) :
    (c.dropUseExact node scope claim).state = c := by
  unfold dropUseExact at *
  split at herr
  · rfl
  · rfl
  · rfl
  split at herr
  · cases herr
  · rw [if_neg ‹_›]

end

/-- In every reachable state the claims on one node are compatible in both
directions, so that a holder is never refused a use it announced; adding a claim
again changes nothing, and neither does a call that fails. -/
theorem use_claims_compatible {config : Config} {now : ℕ → Time}
    {c₀ : Coordinator} (hnew : new config now = .ok c₀) (steps : List Section) :
    (∀ scope other record rival, (steps.foldl exec c₀).uses.get? scope = some record →
      (steps.foldl exec c₀).uses.get? other = some rival →
      scope ≠ other → record.node = rival.node →
      record.claim.Compatible rival.claim) ∧
    (∀ scope record uses node, (steps.foldl exec c₀).uses.get? scope = some record →
      uses &&& ~~~record.claim.uses = 0 →
      (steps.foldl exec c₀).checkUse node scope uses ≠ .error ErrUseConflict ∧
        (steps.foldl exec c₀).checkUse record.node scope uses = .ok ()) ∧
    (∀ scope record, (steps.foldl exec c₀).uses.get? scope = some record →
      (steps.foldl exec c₀).addUse record.node scope record.claim =
        ⟨steps.foldl exec c₀, .ok ()⟩) ∧
    (∀ node scope claim failure,
      (((steps.foldl exec c₀).addUse node scope claim).result = .error failure →
        ((steps.foldl exec c₀).addUse node scope claim).state = steps.foldl exec c₀) ∧
      (((steps.foldl exec c₀).dropUse node scope).result = .error failure →
        ((steps.foldl exec c₀).dropUse node scope).state = steps.foldl exec c₀) ∧
      (((steps.foldl exec c₀).dropUseExact node scope claim).result = .error failure →
        ((steps.foldl exec c₀).dropUseExact node scope claim).state = steps.foldl exec c₀)) := by
  have hall := compatibles_of_run hnew steps
  exact ⟨fun _ _ _ _ hg hrival => hall.compatible hg hrival,
    fun _ _ _ node hg huses => hall.checkUse_holder hg huses node,
    fun _ _ hg => hall.addUse_again hg,
    fun _ _ _ _ => ⟨addUse_error, dropUse_error, dropUseExact_error⟩⟩

/-- A reader that denies deletion and a second reader, on node 7. -/
def sharedUses : List Section :=
  [.addUse 7 ⟨[97]⟩ ⟨1, 8⟩, .addUse 7 ⟨[98]⟩ ⟨1, 2⟩]

theorem use_claims_compatible_shared :
    (sharedUses.foldl exec (.empty DefaultConfig fun _ => 0)).uses.get? ⟨[97]⟩ =
        some ⟨7, ⟨1, 8⟩⟩ ∧
      (sharedUses.foldl exec (.empty DefaultConfig fun _ => 0)).uses.get?
        ⟨[98]⟩ = some ⟨7, ⟨1, 2⟩⟩ ∧
      UseClaim.Compatible ⟨1, 8⟩ ⟨1, 2⟩ := by
  refine ⟨rfl, rfl, ?_⟩
  exact (use_claims_compatible new_default sharedUses).1 ⟨[97]⟩ ⟨[98]⟩
    ⟨7, ⟨1, 8⟩⟩ ⟨7, ⟨1, 2⟩⟩ rfl rfl (by decide) rfl

end RemoteFs.Advisory
