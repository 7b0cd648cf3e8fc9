import RemoteFs.Advisory.Books
import RemoteFs.Transport.FileReceipt

/-!
# The client accepts the receipts of the coordinator

The receipt in a request object has the form `Request.Shape`.  With `slip`
false, that is, when no rejection reports the command it failed at, the client
accepts every such receipt whose request is decided or waits.
-/

namespace RemoteFs.Transport

open Storage Advisory

variable {effect : RangeEffect} {drops : List RangeEffect}

/-! ## Applied effects -/

lemma appliedClaims_effects {epoch : ℕ} (hepoch : lockRequestEpoch request = .ok epoch)
    {start : ℕ} (hv : ∀ command ∈ commands, command.Valid)
    (hcount : start + commands.length ≤ maxRangeCommands) :
    appliedClaims request start commands ((commands.zipIdx start).map (effectOf request)) =
      .ok ((commands.zipIdx start).filterMap (claimOf request)) := by
  induction commands generalizing start with
  | nil => rfl
  | cons command rest ih =>
    have hcmd := hv command (List.mem_cons_self ..)
    have hroom : start + 1 + rest.length ≤ maxRangeCommands := by
      rw [List.length_cons] at hcount
      omega
    have hrest := ih
      (fun other hother => hv other (List.mem_cons_of_mem _ hother))
      hroom
    have hindex : start < maxRangeCommands := by
      rw [List.length_cons] at hcount
      omega
    have hc := newClaimID_eq_ok hepoch hindex
    rw [List.zipIdx_cons, List.map_cons, List.filterMap_cons]
    cases hedit : command.edit with
    | replace | undefined =>
      simp [appliedClaims, effectOf, claimOf, hedit, RangeEdit.releases,
        refuse, hrest, bind, Except.bind]
    | subtract =>
      have hnone := hcmd.claim (by rw [hedit]; decide)
      simp [appliedClaims, effectOf, claimOf, hedit, RangeEdit.releases,
        releaseEffect, hnone, refuse, hrest, bind, Except.bind]
    | addExact =>
      simp [appliedClaims, effectOf, claimOf, claimAt, hedit, hc,
        RangeEdit.releases, refuse, hrest, bind, Except.bind, Except.map]
    | removeExact =>
      simp [appliedClaims, effectOf, claimOf, hedit, RangeEdit.releases,
        releaseEffect, refuse, hrest, bind, Except.bind]

lemma priorRelease_of_dropEffect (hdro : DropEffect effect) : priorRelease effect = true := by
  simp [priorRelease, hdro.released, hdro.claim, hdro.domain, hdro.edit,
    hdro.bytes, hdro.wait, hdro.conversion, hdro.policy]

lemma convertsFirst_of_drops (hcm : commands ≠ []) (hdr : Drops commands effects)
    (hne : effects ≠ []) : convertsFirst commands = true := by
  cases commands with
  | nil => exact absurd rfl hcm
  | cons first rest => simp [convertsFirst, hdr.converts hne first (List.mem_cons_self ..)]

lemma checkPrior_drops (hcl : a.claims = claims) (hcm : a.commands ≠ [])
    (hdr : Drops a.commands drops) (hef : a.effects = drops ++ rest) :
    checkPrior a claims drops.length = .ok () := by
  have htake : a.effects.take drops.length = drops := by rw [hef, List.take_left]
  unfold checkPrior
  rw [check_bind_ok, check_bind_ok, refuse_ok, refuse_ok, refuse_ok, htake]
  refine ⟨not_not.mpr hcl, ?_, ?_⟩
  · rintro ⟨hpos, hfirst⟩
    rw [convertsFirst_of_drops hcm hdr (List.length_pos_iff.mp hpos)] at hfirst
    cases hfirst
  · rw [Bool.not_eq_false, List.all_eq_true]
    exact fun effect hm => priorRelease_of_dropEffect (hdr.each effect hm)

lemma checkPrior_all (hcl : a.claims = []) (hcm : a.commands ≠ [])
    (hdr : Drops a.commands a.effects) : checkPrior a [] a.effects.length = .ok () :=
  checkPrior_drops hcl hcm hdr (List.append_nil _).symm

lemma validateApplied_eq_ok {r : RangeAttempt} {identity : Identity} (hadm : identity.Admitted)
    (hrequest : r.request = identity.id) (hcm : r.commands = identity.commands)
    (hdr : Drops identity.commands drops)
    (hef : r.effects = drops ++ identity.commands.zipIdx.map (effectOf identity.id))
    (hcl : r.claims = identity.commands.zipIdx.filterMap (claimOf identity.id)) :
    validateApplied r = .ok () := by
  have hlen : r.effects.length = drops.length + identity.commands.length := by
    rw [hef, List.length_append, List.length_map, List.length_zipIdx]
  have hprior : r.effects.length - identity.commands.length =
      drops.length := by
    omega
  have hap := appliedClaims_effects hadm.epoch hadm.valid
    (show 0 + identity.commands.length ≤ maxRangeCommands by
      rw [Nat.zero_add]
      exact hadm.count)
  have hdro : r.effects.drop drops.length =
      identity.commands.zipIdx.map (effectOf identity.id) := by
    rw [hef, List.drop_left]
  simp only [validateApplied, hcm, hrequest, hprior, hdro, hap]
  rw [if_neg (by omega)]
  refine checkPrior_drops hcl ?_ ?_ hef
  · rw [hcm]
    exact hadm.nonempty
  · rwa [hcm]

/-! ## One receipt -/

/-- The receipt that `receiptLocked` makes of an action object. -/
def receiptOf (a : Request) (remaining : ℤ) : RangeAttempt :=
  { a.result with historyRemaining := remaining }

section

variable {a : Request} {remaining : ℤ}

lemma receiptOf_state : (receiptOf a remaining).state = a.result.state := rfl

lemma receiptOf_failedAt : (receiptOf a remaining).failedAt = a.result.failedAt := rfl

lemma receiptOf_rejection : (receiptOf a remaining).rejection = a.result.rejection := rfl

lemma validateApplied_receipt (hadm : a.identity.Admitted) (hrequest : a.result.request = a.id)
    (hcm : a.result.commands = a.commands) (hap : a.Applied) :
    validateApplied (receiptOf a remaining) = .ok () := by
  obtain ⟨drops, hdr, hef⟩ := hap.effects
  exact validateApplied_eq_ok hadm hrequest hcm hdr hef hap.claims

/-- A rejection that keeps the releases before the failing command. -/
lemma validateRejected_receipt (hadm : a.identity.Admitted)
    (hcm : a.result.commands = a.commands) (hcl : a.result.claims = [])
    (hsplit : a.commands = before ++ command :: rest) (hdr : Drops a.commands drops)
    (hef : a.result.effects = drops ++ releasePrefix before) :
    (if convertsFirst a.result.commands = false then
        refuse (a.result.effects ≠ completedReleases a.result.commands
          before.length ∨ a.result.claims ≠ [])
          (.text "range rejection changes its completed release prefix")
      else checkPrior (receiptOf a remaining) [] a.result.effects.length) = .ok () := by
  have hnonempty : a.commands ≠ [] := hadm.nonempty
  rw [hcm]
  split
  · next hplain =>
    have hnone : drops = [] := by
      by_contra hne
      rw [convertsFirst_of_drops hnonempty hdr hne] at hplain
      cases hplain
    rw [refuse_ok, not_or, not_not, not_not]
    refine ⟨?_, hcl⟩
    rw [hef, hnone, completedReleases, hsplit, List.take_left]
    rfl
  next hconverts =>
  -- a conversion is a batch of one command, so nothing precedes it
  have hsingle : a.commands.length = 1 := by
    cases hlist : a.commands with
    | nil => exact absurd hlist hnonempty
    | cons first others =>
      simp only [convertsFirst, hlist, decide_eq_false_iff_not, not_not] at hconverts
      rw [← hlist]
      exact hadm.single first (show first ∈ a.commands by simp [hlist]) hconverts
  have hbefore : before = [] := by
    rw [hsplit, List.length_append, List.length_cons] at hsingle
    exact List.eq_nil_of_length_eq_zero (by omega)
  have hall : a.result.effects = drops := by
    rw [hef, hbefore]
    exact List.append_nil drops
  refine checkPrior_all hcl ?_ ?_
  · change a.result.commands ≠ []
    rwa [hcm]
  · change Drops a.result.commands a.result.effects
    rwa [hcm, hall]

lemma validateRangeEffects_receipt (hadm : a.identity.Admitted) (hsh : a.Shape False) :
    validateRangeEffects (receiptOf a remaining) = .ok () := by
  have hnonempty : a.result.commands ≠ [] := by
    rw [hsh.commands]
    exact hadm.nonempty
  have hdropsOnly : Drops a.commands a.result.effects → a.result.claims = [] →
      checkPrior (receiptOf a remaining) [] a.result.effects.length = .ok () := by
    intro hdr hcl
    refine checkPrior_all hcl hnonempty ?_
    change Drops a.result.commands a.result.effects
    rwa [hsh.commands]
  have hbo := hsh.body
  unfold Request.Body at hbo
  unfold validateRangeEffects
  rw [receiptOf_state, receiptOf_failedAt]
  cases hs : a.result.state with
  | pending =>
    simp only [hs] at hbo
    exact hdropsOnly hbo.1.drops hbo.1.claims
  | granted | released =>
    simp only [hs] at hbo
    exact validateApplied_receipt hadm hsh.request hsh.commands hbo.1
  | cancelled =>
    simp only [hs] at hbo
    exact hdropsOnly hbo.drops hbo.claims
  | undefined number => simp only [hs] at hbo
  | rejected =>
    simp only [hs] at hbo
    obtain ⟨code, -, -, hfail⟩ := hbo.rejection
    rcases hfail with ⟨hnone, -, hdr⟩ |
      ⟨before, command, rest, hsplit, hfailed⟩
    · rw [hnone]
      exact hdropsOnly hdr hbo.claims
    rw [hfailed.failedAt]
    obtain ⟨drops, kept, hdr, hef, hk⟩ := hfailed.effects
    obtain rfl : kept = before := hk.resolve_right fun hslip => hslip.1
    exact validateRejected_receipt hadm hsh.commands hbo.claims hsplit hdr hef

lemma checkFailedAt_receipt (hsh : a.Shape False) :
    checkFailedAt (receiptOf a remaining) = .ok () := by
  have hbo := hsh.body
  unfold Request.Body at hbo
  unfold checkFailedAt
  rw [receiptOf_state, receiptOf_failedAt, receiptOf_rejection]
  cases hs : a.result.state with
  | rejected =>
    simp only [hs] at hbo
    rw [if_pos rfl]
    obtain ⟨code, hcode, -, hfail⟩ := hbo.rejection
    rcases hfail with ⟨hnone, hreason, -⟩ |
      ⟨before, command, rest, hsplit, hfailed⟩
    · rw [hnone, hcode]
      rcases hreason with rfl | rfl <;> rfl
    rw [hfailed.failedAt]
    change refuse (a.result.commands.length ≤ before.length) _ = .ok ()
    rw [refuse_ok, hsh.commands, hsplit, List.length_append, List.length_cons]
    omega
  | pending | granted | released =>
    simp only [hs] at hbo
    simp [refuse, hbo.1.failedAt]
  | cancelled =>
    simp only [hs] at hbo
    simp [refuse, hbo.failedAt]
  | undefined number => simp only [hs] at hbo

lemma checkState_receipt (hadm : a.identity.Admitted)
    (hsh : a.Shape False) (hsteady : a.Steady) :
    checkState (receiptOf a remaining)
      (a.result.commands.any fun command => command.edit.acquires)
      (a.result.commands.any fun command => command.wait) = .ok () := by
  have hbo := hsh.body
  unfold Request.Body at hbo
  rw [hsh.commands]
  unfold checkState
  rw [receiptOf_state]
  cases hs : a.result.state with
  | pending =>
    simp only [hs] at hbo
    obtain ⟨hopen, hwaits⟩ := hbo
    have hpending : a.pending = true := by
      rw [hwaits, hsteady hs]
      rfl
    obtain ⟨first, hfirst⟩ := List.exists_mem_of_ne_nil _ hadm.nonempty
    have hwait : (a.commands.any fun command => command.wait) = true :=
      List.any_eq_true.mpr ⟨first, hfirst, hopen.waits hpending first hfirst⟩
    simp [refuse, receiptOf, hopen.everGranted, hopen.rejection, hwait]
  | granted =>
    simp only [hs] at hbo
    obtain ⟨hap, hgr, hacq⟩ := hbo
    unfold acquiresAny at hacq
    simp [refuse, receiptOf, hgr, hap.rejection, hacq]
  | released =>
    simp only [hs] at hbo
    obtain ⟨hap, hgr⟩ := hbo
    unfold acquiresAny at hgr
    simp [refuse, receiptOf, hgr, hap.rejection]
  | cancelled =>
    simp only [hs] at hbo
    simp [refuse, receiptOf, hbo.everGranted, hbo.rejection]
  | rejected =>
    simp only [hs] at hbo
    obtain ⟨code, hcode, hknown, -⟩ := hbo.rejection
    have hlisted : knownRejection (some code) = true := by
      cases code <;> simp_all [knownRejection, RejectionCode.known]
    simp [refuse, receiptOf, hbo.everGranted, hcode, hlisted, bind, Except.bind]
  | undefined number => simp only [hs] at hbo

lemma validateFileConflict_eq_ok (hconflict : ConflictOk conflict) :
    validateFileConflict conflict = .ok () := by
  rcases hconflict with rfl | ⟨hfound, hmode, hrange⟩
  · rfl
  have hshared : conflict.mode = .shared ∨ conflict.mode = .exclusive := by
    cases hcase : conflict.mode with
    | shared => exact .inl rfl
    | exclusive => exact .inr rfl
    | undefined number =>
      rw [hcase] at hmode
      cases hmode
  unfold validateFileConflict
  rw [if_neg (by rw [hfound]; decide), check_bind_ok,
    refuse_ok, fromStorage_eq_ok_iff, Range.check_eq_ok_iff]
  refine ⟨?_, hrange⟩
  rintro ⟨hne, hne'⟩
  exact hshared.elim hne hne'

lemma checkEffect_eq_ok (hv : effect.command.Valid)
    (hc : effect.claim = [] ∨ ClaimID.check effect.claim = .ok ()) :
    checkEffect effect = .ok () := by
  unfold checkEffect
  rw [check_bind_ok, fromStorage_eq_ok_iff, RangeCommand.check_eq_ok_iff]
  refine ⟨hv, ?_⟩
  split
  · next hne => exact fromStorage_eq_ok_iff.mpr (hc.resolve_left hne)
  · rfl

lemma checkEffect_dropEffect (hdro : DropEffect effect) : checkEffect effect = .ok () :=
  checkEffect_eq_ok hdro.valid (.inl hdro.claim)

lemma checkEffect_releaseEffect (hv : command.Valid) :
    checkEffect (releaseEffect command) = .ok () := by
  refine checkEffect_eq_ok hv ?_
  by_cases hedit : command.edit = .removeExact
  · exact .inr (hv.removeExact hedit).2.2
  · exact .inl (hv.claim hedit)

lemma check_claimAt {identity : Identity} (hadm : identity.Admitted)
    {index : ℕ} (hindex : index < identity.commands.length) :
    ClaimID.check (claimAt identity.id index) = .ok () := by
  have hbound := hindex.trans_le hadm.count
  rw [claimAt, newClaimID_eq_ok hadm.epoch hbound]
  exact ClaimID.check_newClaimID hadm.epoch hbound

lemma applied_items (hadm : a.identity.Admitted) (hap : a.Applied) :
    (∀ effect ∈ a.result.effects, checkEffect effect = .ok ()) ∧
      ∀ claim ∈ a.result.claims, ClaimID.check claim = .ok () := by
  obtain ⟨drops, hdr, hef⟩ := hap.effects
  rw [hef, hap.claims]
  refine ⟨?_, ?_⟩
  · intro effect hm
    rcases List.mem_append.mp hm with hdro | happly
    · exact checkEffect_dropEffect (hdr.each effect hdro)
    obtain ⟨⟨command, index⟩, hentry, rfl⟩ := List.mem_map.mp happly
    have hv := hadm.valid command (List.fst_mem_of_mem_zipIdx hentry)
    have hindex := List.snd_lt_of_mem_zipIdx hentry
    unfold effectOf
    split
    · exact checkEffect_releaseEffect hv
    split
    · exact checkEffect_eq_ok hv (.inr (check_claimAt hadm hindex))
    · exact checkEffect_eq_ok hv (.inl rfl)
  · intro claim hm
    obtain ⟨⟨command, index⟩, hentry, hc⟩ := List.mem_filterMap.mp hm
    have hindex := List.snd_lt_of_mem_zipIdx hentry
    unfold claimOf at hc
    split at hc
    · rw [← Option.some.inj hc]
      exact check_claimAt hadm hindex
    · cases hc

lemma receipt_items (hadm : a.identity.Admitted) (hsh : a.Shape False) :
    (∀ effect ∈ a.result.effects, checkEffect effect = .ok ()) ∧
      ∀ claim ∈ a.result.claims, ClaimID.check claim = .ok () := by
  have hplain : Drops a.commands a.result.effects → a.result.claims = [] →
      (∀ effect ∈ a.result.effects, checkEffect effect = .ok ()) ∧
        ∀ claim ∈ a.result.claims, ClaimID.check claim = .ok () := by
    intro hdr hcl
    rw [hcl]
    exact ⟨fun effect hm => checkEffect_dropEffect (hdr.each effect hm),
      fun _ hm => absurd hm List.not_mem_nil⟩
  have hbo := hsh.body
  unfold Request.Body at hbo
  split at hbo
  · exact hplain hbo.1.drops hbo.1.claims
  · exact applied_items hadm hbo.1
  · exact applied_items hadm hbo.1
  · exact hplain hbo.drops hbo.claims
  · obtain ⟨code, -, -, hfail⟩ := hbo.rejection
    rcases hfail with ⟨-, -, hdr⟩ | ⟨before, command, rest, hsplit, hfailed⟩
    · exact hplain hdr hbo.claims
    obtain ⟨drops, kept, hdr, hef, hk⟩ := hfailed.effects
    obtain rfl : kept = before := hk.resolve_right fun hslip => hslip.1
    rw [hef, hbo.claims]
    refine ⟨?_, fun _ hm => absurd hm List.not_mem_nil⟩
    intro effect hm
    rcases List.mem_append.mp hm with hdro | hrelease
    · exact checkEffect_dropEffect (hdr.each effect hdro)
    obtain ⟨released, hreleased, rfl⟩ := List.mem_map.mp hrelease
    refine checkEffect_releaseEffect (hadm.valid released ?_)
    change released ∈ a.commands
    rw [hsplit]
    exact List.mem_append_left _ (List.mem_of_mem_filter hreleased)
  · exact hbo.elim

lemma validateFileAttempt_receipt (hadm : a.identity.Admitted) (hsh : a.Shape False)
    (hsteady : a.Steady) (hremaining : 0 ≤ remaining) (hid : req.lockID = a.id)
    (hsame : req.op = .rangeApply → req.commands = a.commands) :
    validateFileAttempt req (receiptOf a remaining) = .ok () := by
  obtain ⟨hitems, hcl⟩ := receipt_items hadm hsh
  have hnonempty := hadm.nonempty
  have hcount := hadm.count
  have hef := hsh.effects_le
  have hclaimCount := hsh.claims_le hcount
  unfold validateFileAttempt
  simp only [check_bind_ok, refuse_ok, checkEach_eq_ok_iff, fromStorage_eq_ok_iff]
  refine ⟨?_, ?_, ?_, ?_, hcl, hitems, validateFileConflict_eq_ok hsh.conflict,
    not_lt.mpr hremaining, checkFailedAt_receipt hsh, checkState_receipt hadm hsh hsteady,
    validateRangeEffects_receipt hadm hsh⟩
  · rw [hid]
    exact not_not.mpr hsh.request
  · change ¬(a.result.commands.length = 0 ∨ maxRangeCommands < a.result.commands.length ∨
      maxRangeClaims < a.result.claims.length ∨
      maxRangeEffects < a.result.effects.length)
    rw [hsh.commands, List.length_eq_zero_iff]
    push Not
    exact ⟨hnonempty, hcount, hclaimCount, hef⟩
  · intro command hm
    change command ∈ a.result.commands at hm
    rw [hsh.commands] at hm
    exact RangeCommand.check_eq_ok_iff.mpr (hadm.valid command hm)
  · rintro ⟨hop, hne⟩
    exact hne (hsh.commands.trans (hsame hop).symm)

end

end RemoteFs.Transport
