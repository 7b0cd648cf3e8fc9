import RemoteFs.Advisory.Acts

/-!
# Who waits for what

How critical sections change the waiting list and the ranges held under each
key.  Most operations only ease the situation: nothing new waits, and what a key
holds afterwards protects nothing that it did not protect before.  The two
exceptions are a grant, which changes what one key holds, and a request that
joins the waiting list.
-/

namespace RemoteFs.Advisory

open Storage Coordinator

variable {c c' : Coordinator} {edit : EditResult}

/-- Nothing new waits, and no key outside `except` protects anything new. -/
structure Eases (except : Set OwnerKey) (c c' : Coordinator) : Prop where
  waiting : ∀ ref ∈ c'.waiting, ref ∈ c.waiting
  ranges : ∀ key ∉ except, ∀ claim ∈ c'.heldRanges key,
    Within key.domain ((c.heldRanges key).map RangeClaim.command) claim.command

lemma Within.trans (hc : Within domain middle claim)
    (hmiddle : ∀ x ∈ middle, Within domain source x) : Within domain source claim := by
  rcases hc with ⟨x, hx, hrange, hmode⟩ | ⟨hdomain, hcover⟩
  · rcases hmiddle x hx with ⟨y, hy, hyrange, hymode⟩ | ⟨hdomain, hcover⟩
    · exact .inl ⟨y, hy, hyrange.trans hrange, hymode.trans hmode⟩
    · rw [hrange, hmode] at hcover
      exact .inr ⟨hdomain, hcover⟩
  refine .inr ⟨hdomain, fun offset hoffset => ?_⟩
  obtain ⟨x, hx, hxcovers, hxmode⟩ := hcover offset hoffset
  rcases hmiddle x hx with ⟨y, hy, hyrange, hymode⟩ | ⟨-, hfrom⟩
  · exact ⟨y, hy, hyrange ▸ hxcovers, hymode.trans hxmode⟩
  · obtain ⟨y, hy, hycovers, hymode⟩ := hfrom offset hxcovers
    exact ⟨y, hy, hycovers, hymode.trans hxmode⟩

lemma OwnersKept.mem_heldRanges (hk : OwnersKept c c') (hc : claim ∈ c'.heldRanges key) :
    claim ∈ c.heldRanges key := by
  cases hg : c'.owners.get? key with
  | none => simp [heldRanges, hg] at hc
  | some state' =>
    obtain ⟨state, hstate, hs⟩ := hk key state' hg
    rw [Ledger.heldRanges_eq hg, ← hs] at hc
    rwa [Ledger.heldRanges_eq hstate]

namespace Eases

variable {except : Set OwnerKey} {c c' c'' : Coordinator}

lemma of_held (hwa : ∀ ref ∈ c'.waiting, ref ∈ c.waiting)
    (hh : ∀ key, ∀ claim ∈ c'.heldRanges key, claim ∈ c.heldRanges key) : Eases except c c' :=
  ⟨hwa, fun key _ claim hc => .self (List.mem_map_of_mem (hh key claim hc))⟩

lemma of_owners (hwa : c'.waiting = c.waiting)
    (howners : c'.owners = c.owners) : Eases except c c' := by
  refine of_held (by simp [hwa]) fun key claim hc => ?_
  simpa [heldRanges, howners] using hc

lemma refl : Eases except c c := of_owners rfl rfl

lemma trans (h : Eases except c c') (h' : Eases except c' c'') :
    Eases except c c'' where
  waiting := fun ref hm => h.waiting ref (h'.waiting ref hm)
  ranges := by
    intro key hkey claim hc
    refine (h'.ranges key hkey claim hc).trans fun x hx => ?_
    obtain ⟨held, hh, rfl⟩ := List.mem_map.mp hx
    exact h.ranges key hkey held hh

lemma mono (h : Eases except c c') (hsubset : except ⊆ larger) : Eases larger c c' :=
  ⟨h.waiting, fun key hkey => h.ranges key fun hm => hkey (hsubset hm)⟩

lemma of_kept (hwa : ∀ ref ∈ c'.waiting, ref ∈ c.waiting)
    (hk : OwnersKept c c') : Eases except c c' :=
  of_held hwa fun _ _ hc => hk.mem_heldRanges hc

lemma foldl {α : Type} {step : Coordinator → α → Coordinator}
    (hstep : ∀ c item, Eases except c (step c item)) (items : List α)
    (c : Coordinator) : Eases except c (items.foldl step c) := by
  induction items generalizing c with
  | nil => exact refl
  | cons item items ih => exact (hstep c item).trans (ih (step c item))

end Eases

/-! ## Operations -/

section

variable {except : Set OwnerKey}

variable (c)

lemma pruneOwnerLocked_waiting (key : OwnerKey) :
    (c.pruneOwnerLocked key).waiting = c.waiting := by
  unfold pruneOwnerLocked
  split
  · rfl
  · split <;> rfl

lemma pruneOwnerLocked_eases (key : OwnerKey) : Eases except c (c.pruneOwnerLocked key) :=
  .of_kept (by simp [pruneOwnerLocked_waiting]) (c.pruneOwnerLocked_kept key)

lemma ownerLocked_heldRanges (key other : OwnerKey) :
    (c.ownerLocked key).heldRanges other = c.heldRanges other := by
  unfold ownerLocked
  cases hg : c.owners.get? key with
  | some state => rfl
  | none =>
    by_cases heq : other = key
    · simp [heldRanges, heq, hg]
    · simp [heldRanges, Table.get?_set, heq]

lemma begunLocked_heldRanges (ref : RequestRef) (key other : OwnerKey) :
    (c.begunLocked ref key).heldRanges other = c.heldRanges other :=
  ownerLocked_heldRanges c key other

lemma completeLocked_waiting (ref : RequestRef)
    (state : AttemptState) (rejection : Option RejectionCode) :
    ∀ other ∈ (c.completeLocked ref state rejection).waiting, other ∈ c.waiting := by
  unfold completeLocked
  split
  · simp
  simp only
  split
  · rw [pruneOwnerLocked_waiting]
    exact fun other hm => List.mem_of_mem_erase hm
  · exact fun other hm => hm

lemma completeLocked_eases (ref : RequestRef) (state : AttemptState)
    (rejection : Option RejectionCode) : Eases except c (c.completeLocked ref state rejection) :=
  .of_kept (completeLocked_waiting c ref state rejection)
    (c.completeLocked_kept ref state rejection)

lemma modifyRequest_eases (ref : RequestRef) (change : Request → Request) :
    Eases except c (c.modifyRequest ref change) :=
  .of_owners rfl rfl

variable {c}

lemma installRangesLocked_eases {key : OwnerKey} {ranges : List RangeClaim}
    (hranges : key ∈ except ∨ ∀ claim ∈ ranges, Within key.domain
      ((c.heldRanges key).map RangeClaim.command) claim.command) :
    Eases except c (c.installRangesLocked key ranges) := by
  refine ⟨fun _ hm => hm, fun other hother claim hc => ?_⟩
  by_cases heq : other = key
  · subst heq
    refine hranges.resolve_left hother claim ?_
    cases hg : c.owners.get? other with
    | none => simp [heldRanges, installRangesLocked, Table.get?_modify, hg]
        at hc
    | some state => simpa [heldRanges, installRangesLocked, Table.get?_modify, hg] using hc
  · refine .self (List.mem_map_of_mem ?_)
    simpa [heldRanges, installRangesLocked, Table.get?_modify, heq] using hc

lemma replaceLocked_nil_eases (c : Coordinator) (key : OwnerKey) :
    Eases except c (c.replaceLocked key []) := by
  unfold replaceLocked
  split
  · exact installRangesLocked_eases (.inr (by simp))
  · exact .refl

lemma reconcileRemovedClaimsLocked_eases (c : Coordinator) (key : OwnerKey)
    (effects : List RangeEffect) :
    Eases except c (c.reconcileRemovedClaimsLocked key effects) := by
  unfold reconcileRemovedClaimsLocked
  split
  · exact .refl
  refine .foldl (fun c id => ?_) _ c
  unfold settleRemoved
  split
  · exact .refl
  split
  · exact .refl
  split
  · exact .refl
  split
  · exact .refl
  · exact completeLocked_eases c _ _ _

lemma commitReleasePrefixLocked_eases {action : Request}
    {done : List RangeCommand} (ref : RequestRef) (hreleases : Releases c action done edit) :
    Eases except c (c.commitReleasePrefixLocked ref action.key edit) := by
  unfold commitReleasePrefixLocked
  split
  · exact .refl
  · exact (installRangesLocked_eases (.inr fun claim hc =>
      (hreleases.ranges claim hc).2)).trans ((modifyRequest_eases _ ref _).trans
          (reconcileRemovedClaimsLocked_eases _ _ _))

/-- A batch without acquisitions holds nothing new afterwards. -/
lemma commitEditLocked_eases {action : Request} (ref : RequestRef)
    (hd : Drafted c action action.commands edit)
    (hexcept : action.key ∈ except ∨ edit.acquired = false) :
    Eases except c (c.commitEditLocked ref action.key edit) := by
  unfold commitEditLocked
  rw [if_pos hd.fits]
  refine (installRangesLocked_eases ?_).trans ((modifyRequest_eases _ ref
    _).trans ((completeLocked_eases _ _ _ _).trans (reconcileRemovedClaimsLocked_eases _ _ _)))
  refine hexcept.imp_right fun hacquired claim hc => ?_
  have hnone : (action.commands.filter fun command =>
      command.edit.acquires) = [] := by
    rw [hd.acquired] at hacquired
    simpa [List.filter_eq_nil_iff] using hacquired
  have hwithin := (hd.ranges claim hc).2
  rwa [hnone, List.append_nil] at hwithin

lemma rejectAt_eases (c : Coordinator) (ref : RequestRef) (failedAt : Option ℕ)
    (code : RejectionCode) : Eases except c (c.rejectAt ref failedAt code) :=
  (modifyRequest_eases c ref _).trans (completeLocked_eases _ _ _ _)

lemma dropLocked_eases (c : Coordinator) (key : OwnerKey) :
    Eases except c (c.dropLocked key) := by
  have hclear : Eases except c (c.clearLocked key) := by
    unfold clearLocked
    split
    · exact .refl
    · exact replaceLocked_nil_eases c key
  unfold dropLocked
  refine hclear.trans ((Eases.foldl (fun c ref => ?_) _ _).trans (pruneOwnerLocked_eases _ key))
  unfold settleDropped
  split
  · exact .refl
  split
  · exact .refl
  split
  · exact completeLocked_eases c _ _ _
  split
  · exact completeLocked_eases c _ _ _
  · exact .refl

end

/-! ## Deciding a request -/

/-- What starting or retrying a request does: it eases the situation, grants an
acquisition, or lets the request join the waiting list of a state that the
deadlock search passed. -/
inductive Turns (ref : RequestRef) (key : OwnerKey)
    (commands : List RangeCommand) (c c' : Coordinator) : Prop
  | eased (hea : Eases ∅ c c')
  | granted {a' : Request} (hea : Eases {key} c c') (hg : c'.heap ref = some a')
      (hgr : a'.result.everGranted = true)
  | queued {c₁ : Coordinator} (hea : Eases ∅ c c₁) (hf : Frame c₁ c')
      (hwa : c'.waiting = c₁.waiting ++ [ref])
      (hh : ∀ other, ∀ claim ∈ c'.heldRanges other, claim ∈ c₁.heldRanges other)
      (hclear : key.domain = .record → c₁.deadlockLocked key commands = (false, true))

section

variable {slack : Set OwnerKey} {c : Coordinator} {ref : RequestRef}
  {key : OwnerKey} {commands : List RangeCommand} {action : Request}

lemma Turns.after (hbefore : Eases ∅ before c) (hturns : Turns ref key commands c c') :
    Turns ref key commands before c' := by
  cases hturns with
  | eased hea => exact .eased (hbefore.trans hea)
  | granted hea hg hgr =>
    exact .granted ((hbefore.mono (Set.empty_subset _)).trans hea) hg hgr
  | queued hea hf hwa hh hclear =>
    exact .queued (hbefore.trans hea) hf hwa hh hclear

lemma Turns.prune (hturns : Turns ref key commands c c') (owner : OwnerKey) :
    Turns ref key commands c (c'.pruneOwnerLocked owner) := by
  have hprune : ∀ {except}, Eases except c' (c'.pruneOwnerLocked owner) :=
    pruneOwnerLocked_eases c' owner
  cases hturns with
  | eased hea => exact .eased (hea.trans hprune)
  | granted hea hg hgr =>
    refine .granted (hea.trans hprune) ?_ hgr
    rwa [pruneOwnerLocked_heap]
  | queued hea hf hwa hh hclear =>
    refine .queued hea (hf.trans (c'.pruneOwnerLocked_frame owner)) ?_
      (fun other claim hc => hh other claim ?_) hclear
    · rwa [pruneOwnerLocked_waiting]
    · exact (c'.pruneOwnerLocked_kept owner).mem_heldRanges hc

lemma commitEditLocked_turns (hg : c.heap ref = some action)
    (hd : Drafted c action action.commands edit) :
    Turns ref action.key action.commands c (c.commitEditLocked ref action.key edit) := by
  cases hacquired : edit.acquired with
  | false => exact .eased (commitEditLocked_eases ref hd (.inr hacquired))
  | true =>
    have hea : Eases {action.key} c
        (c.commitEditLocked ref action.key edit) :=
      commitEditLocked_eases ref hd (.inl rfl)
    obtain ⟨expires, hsettles⟩ := commitEditLocked_settles hg hd.fits
    rw [hacquired, if_pos rfl] at hsettles
    -- the claims of the batch may be removed by the batch itself
    rcases hsettles ref with hs | ⟨a, expires', ha, -, hreleased⟩
    · rw [Function.update_self] at hs
      exact .granted hea hs (by simp [Request.completed])
    · rw [Function.update_self, Option.some.injEq] at ha
      refine .granted hea hreleased ?_
      simp [Request.completed, ← ha]

lemma awaitLocked_turns (failedAt : Option ℕ) :
    Turns ref action.key action.commands c (c.awaitLocked ref action failedAt) := by
  have hqueued : (action.key.domain = .record →
        c.deadlockLocked action.key action.commands = (false, true)) →
      Turns ref action.key action.commands c (c.enqueueLocked ref action.key) := by
    intro hclear
    refine .queued .refl (c.enqueueLocked_frame ref action.key) rfl
      (fun key claim hc => ?_) hclear
    change claim ∈ Coordinator.heldRanges { c with
      owners := c.owners.modify action.key _ } key at hc
    by_cases heq : key = action.key
    · cases hg : c.owners.get? action.key with
      | none => simp [heldRanges, Table.get?_modify, heq, hg] at hc
      | some state => simpa [heldRanges, Table.get?_modify, heq, hg] using hc
    · simpa [heldRanges, Table.get?_modify, heq] using hc
  unfold awaitLocked
  split
  · exact .eased (rejectAt_eases c _ _ _)
  split
  · split
    · exact .eased (rejectAt_eases c _ _ _)
    · exact .eased (rejectAt_eases c _ _ _)
    · next hclear => exact hqueued fun _ => hclear
  · next hdomain => exact hqueued fun hrecord => absurd hrecord hdomain

lemma Starts.turns (hg : c.heap ref = some action) (hstarts : Starts c ref action first c') :
    Turns ref action.key action.commands c c' := by
  cases hstarts with
  | oversize => exact .eased (completeLocked_eases c _ _ _)
  | dropped _ _ =>
    exact .eased ((modifyRequest_eases c ref _).trans
      ((replaceLocked_nil_eases _ _).trans (modifyRequest_eases _ ref _)))
  | committed _ hd => exact commitEditLocked_turns hg hd
  | refused _ _ hrefused _ =>
    obtain ⟨done, hreleases⟩ := hrefused.exists_releases
    exact .eased ((commitReleasePrefixLocked_eases ref hreleases).trans
      ((modifyRequest_eases _ ref _).trans (rejectAt_eases _ _ _ _)))
  | waited _ _ _ _ _ _ => exact (awaitLocked_turns _).after (modifyRequest_eases _ ref _)

lemma startLocked_turns (hp : Poised c ref action) :
    Turns ref action.key action.commands c (c.startLocked ref) := by
  obtain ⟨first, rest, c', -, hstarts, heq⟩ := hp.starts
  have hcreate : Eases ∅ c (c.begunLocked ref action.key) := by
    refine .of_held (fun other hm => hp.begins.waiting ▸ hm) fun key claim hc => ?_
    rwa [begunLocked_heldRanges] at hc
  rw [heq]
  exact ((hstarts.turns hp.begun_heap).after hcreate).prune action.key

lemma retryLocked_turns (hp : Poised c ref action)
    (hwaits : action.pending = !action.converting) :
    Turns ref action.key action.commands c (c.retryLocked ref action) := by
  rcases hp.retries hwaits with ⟨-, heq⟩ | ⟨-, -, hretries⟩
  · rw [heq]
    have hturns := startLocked_turns hp.resume
    exact Turns.after (modifyRequest_eases c ref _) hturns
  revert hretries
  generalize c.retryLocked ref action = c'
  intro hretries
  cases hretries with
  | committed hd => exact commitEditLocked_turns hp.retained.heap hd
  | blocked _ _ _ => exact .eased (modifyRequest_eases c ref _)
  | exhausted _ _ _ _ => exact .eased (completeLocked_eases c _ _ _)

end

end RemoteFs.Advisory
