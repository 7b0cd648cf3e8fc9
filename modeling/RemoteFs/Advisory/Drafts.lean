import RemoteFs.Advisory.Conflicts
import RemoteFs.Advisory.Frame

/-!
# What a draft contains

`conflictLocked` finds a rival range exactly when there is one, and a draft
that is not rejected holds only claims that no rival range clashes with.  The
specification of a draft follows its loop: `Drafted` describes the draft after
a prefix of the batch, `Refused` describes the draft that stops at a command.
-/

namespace RemoteFs.Advisory

open Storage Coordinator

variable {c c' : Coordinator} {key : OwnerKey}
  {claim command first : RangeCommand} {domain : ConflictDomain}
  {done source : List RangeCommand} {count : ℕ} {result : EditResult}

/-! ## Clashes -/

lemma overlaps_comm (ha : a.Valid) (hb : b.Valid) : overlaps a b = overlaps b a := by
  rcases ha.kind with hak | hak <;> rcases hb.kind with hbk | hbk
  · rw [Bool.eq_iff_iff, overlaps_bytes_iff ha hb hak hbk, overlaps_bytes_iff hb ha hbk hak]
    simp only [and_comm]
  · simp [overlaps, hak, hbk]
  · simp [overlaps, hak, hbk]
  · simp [overlaps, hak, hbk]

lemma clashes_comm (ha : a.Valid) (hb : b.Valid) : clashes a b = clashes b a := by
  unfold clashes
  rw [overlaps_comm ha.range hb.range, Bool.and_comm (decide _)]

/-- A command protects only what some command of a source protects, and in the
same mode.  Only outside the enforced domain is protection counted by offset,
since there the ranges of one owner are cut and merged. -/
def Within (domain : ConflictDomain) (source : List RangeCommand) (claim : RangeCommand) : Prop :=
  (∃ x ∈ source, x.range = claim.range ∧ x.mode = claim.mode) ∨
    (domain ≠ .enforced ∧
      ∀ offset, Covers claim.range offset →
        ∃ x ∈ source, Covers x.range offset ∧ x.mode = claim.mode)

/-- Commands whose protection can be compared in a domain. -/
structure Comparable (domain : ConflictDomain) (command : RangeCommand) : Prop where
  valid : command.Valid
  bytes : domain ≠ .enforced → command.range.kind = .bytes

lemma RangeClaim.Held.comparable {held : RangeClaim} (hh : held.Held domain) :
    Comparable domain held.command :=
  ⟨hh.valid, hh.bytes⟩

lemma Within.mono (hwi : Within domain source claim) (hsubset : ∀ x ∈ source, x ∈ larger)
    : Within domain larger claim := by
  rcases hwi with ⟨x, hx, hsm⟩ | ⟨hdo, hcover⟩
  · exact .inl ⟨x, hsubset x hx, hsm⟩
  · refine .inr ⟨hdo, fun offset hoffset => ?_⟩
    obtain ⟨x, hx, hsm⟩ := hcover offset hoffset
    exact ⟨x, hsubset x hx, hsm⟩

lemma Within.self (hm : claim ∈ source) : Within domain source claim :=
  .inl ⟨claim, hm, rfl, rfl⟩

lemma clashes_of_within (hsource : ∀ x ∈ source, Comparable domain x)
    (hh : Comparable domain held) (hc : Comparable domain claim)
    (hwi : Within domain source claim) (hclash : clashes held claim = true) :
    ∃ x ∈ source, clashes held x = true := by
  simp only [clashes, Bool.and_eq_true] at hclash ⊢
  obtain ⟨hoverlap, hmodes⟩ := hclash
  rcases hwi with ⟨x, hx, hrange, hmode⟩ | ⟨hdo, hcover⟩
  · exact ⟨x, hx, hrange ▸ hoverlap, hmode ▸ hmodes⟩
  have hheldBytes := hh.bytes hdo
  rw [overlaps_bytes_iff hh.valid.range hc.valid.range hheldBytes
    (hc.bytes hdo)] at hoverlap
  obtain ⟨offset, hleft, hright⟩ := hoverlap
  obtain ⟨x, hx, hoffset, hmode⟩ := hcover offset hright
  refine ⟨x, hx, ?_, hmode ▸ hmodes⟩
  rw [overlaps_bytes_iff hh.valid.range (hsource x hx).valid.range
    hheldBytes ((hsource x hx).bytes hdo)]
  exact ⟨offset, hleft, hoffset⟩

lemma replaceRanges_within (hdo : domain ≠ .enforced)
    (hold : ∀ held ∈ old, held.Held domain ∧ Within domain source held.command)
    (hcmd : command.Valid) (hcommandDomain : command.domain = domain)
    (hed : command.edit = .replace ∨ command.edit = .subtract) :
    ∀ claim ∈ replaceRanges old command, claim.Held domain ∧ Within domain
          (source ++ [command].filter fun x => x.edit.acquires) claim.command := by
  intro claim hm
  obtain ⟨hh, hcover⟩ := replaceRanges_spec hdo
    (fun held h => (hold held h).1) hcmd hcommandDomain hed hm
  refine ⟨hh, .inr ⟨hdo, fun offset hoffset => ?_⟩⟩
  rcases hcover offset hoffset with ⟨held, hmemOld, hin, hmode⟩ |
    ⟨hac, hin, hmode⟩
  · rcases (hold held hmemOld).2 with ⟨x, hx, hrange, hxmode⟩ | ⟨-, hfrom⟩
    · exact ⟨x, List.mem_append_left _ hx, hrange ▸ hin, hxmode.trans hmode⟩
    · obtain ⟨x, hx, hxin, hxmode⟩ := hfrom offset hin
      exact ⟨x, List.mem_append_left _ hx, hxin, hxmode.trans hmode⟩
  · have hreplace := hed.resolve_right hac
    exact ⟨command, by simp [RangeEdit.acquires, hreplace], hin, hmode⟩

/-! ## Conflicts with rivals -/

/-- The mutual exclusion of owners, with the form of the claims they hold. -/
structure Exclusion (owners : Table OwnerKey OwnerState) : Prop where
  held : ∀ {key state}, owners.get? key = some state →
    ∀ claim ∈ state.ranges, claim.Held key.domain
  free : ∀ {key state}, owners.get? key = some state →
    ∀ claim ∈ state.ranges, Free owners key claim.command

lemma Free.of_within {owners : Table OwnerKey OwnerState} (hexcl : Exclusion owners)
    (hsource : ∀ x ∈ source, Comparable key.domain x ∧ Free owners key x)
    (hc : Comparable key.domain claim)
    (hwi : Within key.domain source claim) : Free owners key claim := by
  intro other state hg hrival held hh
  have hdo := (rivals_iff.mp hrival).2.2
  have hheldIn := (hexcl.held hg held hh).comparable
  rw [hdo] at hheldIn
  by_contra hclash
  rw [Bool.not_eq_false] at hclash
  obtain ⟨x, hx, hxclash⟩ := clashes_of_within
    (fun x hx => (hsource x hx).1) hheldIn hc hwi hclash
  rw [(hsource x hx).2 other state hg hrival held hh] at hxclash
  cases hxclash

/-- The result of `conflictLocked`: nothing, or one clashing rival range. -/
inductive ConflictSpec (c : Coordinator) (key : OwnerKey)
    (command : RangeCommand) : RangeConflict → Prop
  | absent (hfr : Free c.owners key command) : ConflictSpec c key command .zero
  | found (other : OwnerKey) (state : OwnerState) (held : RangeClaim)
      (hg : c.owners.get? other = some state)
      (hrival : rivals key other = true) (hh : held ∈ state.ranges)
      (hclash : clashes held.command command = true) :
      ConflictSpec c key command ⟨true, c.diagnostic other, held.command.range, held.command.mode⟩

namespace Coordinator

lemma conflictLocked_spec (c : Coordinator) (key : OwnerKey) (command : RangeCommand) :
    ConflictSpec c key command (c.conflictLocked key command) := by
  rcases c.conflictLocked_cases key command with ⟨hzero, hnone⟩ | ⟨x, hx, hreport, -⟩
  · rw [hzero]
    exact .absent (free_iff.mpr hnone)
  rw [hreport]
  obtain ⟨state, hg, hh⟩ := hx.held
  exact .found x.owner state x.held hg hx.rival (List.mem_of_getElem? hh)
    (clashes_iff.mpr ⟨hx.overlap, hx.unshared⟩)

lemma free_of_conflictLocked (hf : (c.conflictLocked key command).found = false) :
    Free c.owners key command := by
  rcases c.conflictLocked_cases key command with ⟨-, hnone⟩ | ⟨x, -, hreport, -⟩
  · exact free_iff.mpr hnone
  · rw [hreport] at hf
    cases hf

/-! ## Room for a replacement -/

lemma replacementFitsLocked_iff : c.replacementFitsLocked key count = true ↔
      ∃ s, c.sessions.get? key.session = some s ∧
        (count : ℤ) - (c.heldRanges key).length ≤ c.config.maxRanges - c.ranges ∧
        (count : ℤ) - (c.heldRanges key).length ≤ s.options.maxLockRanges - s.ranges := by
  unfold replacementFitsLocked
  cases c.sessions.get? key.session with
  | none => simp
  | some s => simp

lemma replacementFitsLocked_mono {smaller : ℕ} (hle : smaller ≤ count)
    (hfi : c.replacementFitsLocked key count = true) :
    c.replacementFitsLocked key smaller = true := by
  rw [replacementFitsLocked_iff] at hfi ⊢
  obtain ⟨s, hs, hglobal, hsess⟩ := hfi
  exact ⟨s, hs, by omega, by omega⟩

end Coordinator

/-! ## Admitted requests -/

/-- What `Apply` checks before it creates an action object. -/
structure Identity.Admitted (identity : Identity) : Prop where
  nonempty : identity.commands ≠ []
  count : identity.commands.length ≤ maxRangeCommands
  valid : ∀ command ∈ identity.commands, command.Valid
  domain : ∀ command ∈ identity.commands, command.domain = identity.key.domain
  wait : ∀ command ∈ identity.commands, ∀ other ∈ identity.commands, command.wait = other.wait
  single : ∀ command ∈ identity.commands,
    command.conversion = .dropBeforeAcquire → identity.commands.length = 1
  bytes : identity.key.domain ≠ .enforced →
    ∀ command ∈ identity.commands, command.range.kind = .bytes
  epoch : lockRequestEpoch identity.id = .ok identity.epoch

lemma Coordinator.checkCommand_eq_ok (hch : checkCommand first count command = .ok ()) :
    command.Valid ∧ command.domain = first.domain ∧ command.wait = first.wait ∧
      (command.conversion = .dropBeforeAcquire → count = 1) ∧
      (command.domain ≠ .enforced → command.range.kind = .bytes) := by
  unfold checkCommand at hch
  simp only [check_bind_ok, RangeCommand.check_eq_ok_iff, refuse_ok] at hch
  obtain ⟨hv, hsm, hsingle, hbytes⟩ := hch
  push Not at hsm hsingle hbytes
  exact ⟨hv, hsm.1, hsm.2, hsingle, hbytes⟩

lemma Coordinator.checkAll_eq_ok (hch : checkAll first count commands = .ok ()) :
    ∀ command ∈ commands, checkCommand first count command = .ok () := by
  induction commands with
  | nil => exact fun _ h => by cases h
  | cons command rest ih =>
    unfold checkAll at hch
    rw [check_bind_ok] at hch
    exact List.forall_mem_cons.mpr ⟨hch.1, ih hch.2⟩

lemma Coordinator.checkCommands_eq_ok {rest : List RangeCommand}
    {id : LockRequestID} {epoch : ℕ} (hch : c.checkCommands (first :: rest) = .ok ())
    (hdo : key.domain = first.domain) (hepoch : lockRequestEpoch id = .ok epoch) :
    (⟨key, id, epoch, first :: rest⟩ : Identity).Admitted := by
  unfold checkCommands at hch
  simp only at hch
  split at hch
  · cases hch
  next hcount =>
  push Not at hcount
  have hall := fun command hm => checkCommand_eq_ok (checkAll_eq_ok hch command hm)
  exact {
    nonempty := List.cons_ne_nil _ _
    count := hcount.2
    valid := fun command hm => (hall command hm).1
    domain := fun command hm => (hall command hm).2.1.trans hdo.symm
    wait := fun command hm other hother =>
      (hall command hm).2.2.1.trans (hall other hother).2.2.1.symm
    single := fun command hm => (hall command hm).2.2.2.1
    bytes := fun he command hm =>
      (hall command hm).2.2.2.2 (by
        rw [(hall command hm).2.1, ← hdo]
        exact he)
    epoch := hepoch }

variable {identity : Identity}

lemma Identity.Admitted.defined
    (hadm : identity.Admitted) : identity.key.domain.defined = true := by
  obtain ⟨first, hfirst⟩ := List.exists_mem_of_ne_nil _ hadm.nonempty
  rw [← hadm.domain first hfirst]
  exact (hadm.valid first hfirst).domain

lemma Identity.Admitted.comparable
    (hadm : identity.Admitted) (hm : command ∈ identity.commands) :
    Comparable identity.key.domain command :=
  ⟨hadm.valid command hm, fun hdo => hadm.bytes hdo command hm⟩

/-! ## Drafts -/

def releaseEffect (command : RangeCommand) : RangeEffect :=
  ⟨command.claim, command, true⟩

def effectOf (id : LockRequestID) (entry : RangeCommand × ℕ) : RangeEffect :=
  if entry.1.edit.releases then releaseEffect entry.1
  else if entry.1.edit = .addExact then
    ⟨claimAt id entry.2, entry.1, false⟩
  else ⟨[], entry.1, false⟩

def claimOf (id : LockRequestID) (entry : RangeCommand × ℕ) : Option ClaimID :=
  if entry.1.edit = .addExact then some (claimAt id entry.2) else none

def releasePrefix (commands : List RangeCommand) : List RangeEffect :=
  (commands.filter fun command => command.edit.releases).map releaseEffect

/-- The part of a draft that survives a rejection. -/
structure Releases (c : Coordinator) (action : Request)
    (done : List RangeCommand) (result : EditResult) : Prop where
  ranges : ∀ claim ∈ result.releaseRanges, claim.Held action.key.domain ∧ Within action.key.domain
        ((c.heldRanges action.key).map RangeClaim.command) claim.command
  fits : c.replacementFitsLocked action.key result.releaseRanges.length = true
  effects : result.releaseEffects = releasePrefix done

/-- The draft after a prefix of the batch. -/
structure Drafted (c : Coordinator) (action : Request)
    (done : List RangeCommand) (result : EditResult) : Prop where
  releases : Releases c action done result
  ranges : ∀ claim ∈ result.ranges, claim.Held action.key.domain ∧ Within action.key.domain
        ((c.heldRanges action.key).map RangeClaim.command ++
          done.filter fun command => command.edit.acquires) claim.command
  fits : c.replacementFitsLocked action.key result.ranges.length = true
  effects : result.effects = done.zipIdx.map (effectOf action.id)
  claims : result.claims = done.zipIdx.filterMap (claimOf action.id)
  acquired : result.acquired = done.any fun command => command.edit.acquires
  free : ∀ command ∈ done, command.edit.acquires = true → Free c.owners action.key command
  conflict : result.conflict = .zero
  rejected : result.rejected = none

namespace Coordinator

def draftPrefix (c : Coordinator) (action : Request) (done : List RangeCommand) : EditResult :=
  c.draftFrom action 0 done (.start (c.heldRanges action.key))

/-- What is left of the live ranges after some commands fits the limits. -/
def foldFits (c : Coordinator) (key : OwnerKey) (commands : List RangeCommand) : Bool :=
  c.replacementFitsLocked key (commands.foldl replaceRanges (c.heldRanges key)).length

/-- After commands that are not blocked and fit the limits one by one, a `Subtract` whose
release fits them too, while the provisional ranges, acquisitions included, do not. -/
def Overdraws (c : Coordinator) (action : Request)
    (done : List RangeCommand) (command : RangeCommand) : Prop :=
  command.edit = .subtract ∧ (∀ before, before <+: done → c.foldFits action.key before = true) ∧
    (∀ x ∈ done, x.edit.acquires = true → (c.conflictLocked action.key x).found = false) ∧
    c.foldFits action.key (done.filter (·.edit.releases) ++ [command]) = true ∧
    c.foldFits action.key (done ++ [command]) = false

end Coordinator

/-- States in which a key sees the same conflicts, limits and live ranges. -/
structure SameView (key : OwnerKey) (c c' : Coordinator) : Prop where
  conflict : ∀ command, c'.conflictLocked key command = c.conflictLocked key command
  fits : ∀ count, c'.replacementFitsLocked key count = c.replacementFitsLocked key count
  held : c'.heldRanges key = c.heldRanges key

lemma SameView.trans (h : SameView key c c') (h' : SameView key c' c'') :
    SameView key c c'' where
  conflict := fun command => (h'.conflict command).trans (h.conflict command)
  fits := fun count => (h'.fits count).trans (h.fits count)
  held := h'.held.trans h.held

lemma SameView.of_rivals
    (hrivals : rivalHoldings c'.owners.toList key = rivalHoldings c.owners.toList key)
    (hh : c'.heldRanges key = c.heldRanges key)
    (hconfig : c'.config = c.config) (hranges : c'.ranges = c.ranges)
    (hbindings : ∀ id, (c'.sessions.get? id).map Session.bindings =
      (c.sessions.get? id).map Session.bindings)
    (hlimits : (c'.sessions.get? key.session).map (fun s => (s.options, s.ranges)) =
      (c.sessions.get? key.session).map (fun s => (s.options, s.ranges))) :
    SameView key c c' := by
  have hdiagnostic : c'.diagnostic = c.diagnostic := by
    funext other
    have hsm := hbindings other.session
    unfold Coordinator.diagnostic
    cases hs' : c'.sessions.get? other.session with
    | none =>
      rw [hs', Option.map_none] at hsm
      rw [Option.map_eq_none_iff.mp hsm.symm]
    | some s' =>
      rw [hs', Option.map_some] at hsm
      obtain ⟨s, hs, hvalue⟩ := Option.map_eq_some_iff.mp hsm.symm
      simp only [hs, hvalue]
  refine ⟨fun command => ?_, fun count => ?_, hh⟩
  · change c'.conflictAmong _ key command = c.conflictAmong _ key command
    rw [conflictAmong_eq, conflictAmong_eq, hrivals]
    unfold selectHolding selectConflict
    rw [hdiagnostic]
  · unfold Coordinator.replacementFitsLocked
    rw [hh, hconfig, hranges]
    cases hs' : c'.sessions.get? key.session with
    | none =>
      rw [hs', Option.map_none] at hlimits
      rw [Option.map_eq_none_iff.mp hlimits.symm]
    | some s' =>
      rw [hs', Option.map_some] at hlimits
      obtain ⟨s, hs, hvalue⟩ := Option.map_eq_some_iff.mp hlimits.symm
      obtain ⟨hoptions, hcount⟩ := Prod.mk.inj hvalue
      simp only [hs, hoptions, hcount]

lemma Ages.view (hages : Ages c c') (key : OwnerKey) : SameView key c c' := by
  refine .of_rivals ?_ ?_ hages.config hages.ranges
    (hages.map_sessions Session.bindings fun _ => rfl)
    (hages.map_sessions (fun s => (s.options, s.ranges)) (fun _ => rfl) _)
  · rw [hages.owners]
  · simp only [Coordinator.heldRanges, hages.owners]

lemma Coordinator.ownerLocked_view (c : Coordinator) (key : OwnerKey) :
    SameView key c (c.ownerLocked key) := by
  unfold ownerLocked
  cases hg : c.owners.get? key with
  | some state => exact ⟨fun _ => rfl, fun _ => rfl, rfl⟩
  | none =>
    refine SameView.of_rivals ?_ ?_ rfl rfl (fun _ => rfl) rfl
    · have hself : rivals key key = false := by simp [rivals]
      simp only [rivalHoldings, Table.toList, Table.entries_set_of_none _ hg, List.map_cons,
        List.flatMap_cons, hself, Bool.false_eq_true, if_false, List.nil_append]
    · simp [heldRanges, hg]

variable {action action' : Request}

lemma SameView.overdraws (hview : SameView action.key c c') (hkey : action'.key = action.key) :
    c'.Overdraws action' done command ↔ c.Overdraws action done command := by
  simp only [Coordinator.Overdraws, Coordinator.foldFits, hkey, hview.fits, hview.held, hview.conflict]

/-- Why a draft stops at a command. -/
inductive Refusal (c : Coordinator) (action : Request)
    (command : RangeCommand) : RejectionCode → RangeConflict → Prop
  | blocked (conflict : RangeConflict) (hac : command.edit.acquires = true)
      (hspec : ConflictSpec c action.key command conflict)
      (hf : conflict.found = true) :
      Refusal c action command .blocked conflict
  | exhausted : Refusal c action command .exhausted .zero
  | notHeld (hed : command.edit = .removeExact) : Refusal c action command .notHeld .zero
  | invalid (hed : command.edit = .removeExact) : Refusal c action command .invalid .zero

structure Refused (c : Coordinator) (action : Request)
    (done : List RangeCommand) (command : RangeCommand) (result : EditResult) : Prop where
  failedAt : result.failedAt = some done.length
  reason : ∃ code, result.rejected = some code ∧ Refusal c action command code result.conflict
  releases : Releases c action done result ∨ (c.Overdraws action done command ∧
      Releases c action (done ++ [command]) result)

lemma releasePrefix_append (done : List RangeCommand) (command : RangeCommand) :
    releasePrefix (done ++ [command]) = releasePrefix done ++
        if command.edit.releases then [releaseEffect command] else [] := by
  unfold releasePrefix
  by_cases hre : command.edit.releases = true <;> simp [List.filter_append, hre]

section

variable {c : Coordinator} {action : Request}

lemma Coordinator.draftFrom_append (index : ℕ) (done rest : List RangeCommand)
    (hrejected : result.rejected = none) :
    c.draftFrom action index (done ++ rest) result =
      let before := c.draftFrom action index done result
      if before.rejected = none then c.draftFrom action (index + done.length) rest before
      else before := by
  induction done generalizing index result with
  | nil => simp [draftFrom, hrejected]
  | cons command done ih =>
    simp only [List.cons_append, draftFrom]
    split
    · rw [ih (index + 1) hrejected]
      simp only [List.length_cons, Nat.add_right_comm, Nat.add_assoc]
    split
    · simp [EditResult.reject]
    split
    · next code hcode => simp [hcode]
    · next hcode =>
      rw [ih (index + 1) hcode]
      simp only [List.length_cons, Nat.add_right_comm, Nat.add_assoc]

lemma Coordinator.draftPrefix_concat (hr : ∀ index, action.released.getD index false = false)
    (done : List RangeCommand) (command : RangeCommand) :
    c.draftPrefix action (done ++ [command]) =
      let before := c.draftPrefix action done
      let conflict := c.conflictLocked action.key command
      if before.rejected ≠ none then before
      else if command.edit.acquires = true ∧ conflict.found = true then
        { before with conflict := conflict }.reject .blocked done.length
      else c.draftCommand action done.length command before := by
  refine (c.draftFrom_append 0 done [command] rfl).trans ?_
  rw [ite_not]
  refine if_congr Iff.rfl ?_ rfl
  simp only [draftFrom, hr, Bool.false_eq_true, if_false, Nat.zero_add]
  refine if_congr Iff.rfl rfl ?_
  split <;> rfl

variable {next : EditResult}

lemma Releases.congr (hre : Releases c action done result)
    (hranges : next.releaseRanges = result.releaseRanges)
    (heffects : next.releaseEffects = result.releaseEffects) :
    Releases c action done next where
  ranges := by
    rw [hranges]
    exact hre.ranges
  fits := by
    rw [hranges]
    exact hre.fits
  effects := heffects.trans hre.effects

lemma Releases.of_acquires (hed : command.edit.releases = false) :
    Releases c action (done ++ [command]) result ↔ Releases c action done result := by
  have hsm : releasePrefix (done ++ [command]) = releasePrefix done := by
    simp [releasePrefix_append, hed]
  constructor
  · intro h
    exact ⟨h.ranges, h.fits, h.effects.trans hsm⟩
  · intro h
    exact ⟨h.ranges, h.fits, h.effects.trans hsm.symm⟩

/-- A draft in which one more command took effect, before the effect is
recorded and the limits are checked. -/
structure Amended (c : Coordinator) (action : Request)
    (done : List RangeCommand) (command : RangeCommand) (result : EditResult) : Prop where
  releases : Releases c action (done ++ [command]) result
  ranges : ∀ claim ∈ result.ranges, claim.Held action.key.domain ∧ Within action.key.domain
        ((c.heldRanges action.key).map RangeClaim.command ++
          (done ++ [command]).filter fun command => command.edit.acquires)
        claim.command
  claims : result.claims = (done ++ [command]).zipIdx.filterMap (claimOf action.id)
  acquired : result.acquired = (done ++ [command]).any fun command => command.edit.acquires

section

variable (hadm : action.identity.Admitted)
  {done : List RangeCommand} {command : RangeCommand} {result : EditResult}
  (hm : command ∈ action.commands) (hd : Drafted c action done result)
  (hfr : command.edit.acquires = true → Free c.owners action.key command)

include hd in
lemma Drafted.reject (hreason : Refusal c action command code .zero)
    (hranges : next.releaseRanges = result.releaseRanges)
    (heffects : next.releaseEffects = result.releaseEffects)
    (hconflict : next.conflict = result.conflict) :
    Refused c action done command (next.reject code done.length) := by
  have hzero := hconflict.trans hd.conflict
  exact ⟨rfl, ⟨code, rfl, hzero ▸ hreason⟩, .inl (hd.releases.congr hranges heffects)⟩

include hd hfr in
/-- A command that took effect is recorded, unless the ranges are too many. -/
lemma Drafted.record (ham : Amended c action done command next)
    (heffect : effect = effectOf action.id (command, done.length))
    (hsm : next.effects = result.effects ∧ next.conflict = result.conflict ∧
      next.rejected = result.rejected)
    (hover : c.replacementFitsLocked action.key next.ranges.length = false →
      command.edit.releases = false ∨ c.Overdraws action done command) :
    Drafted c action (done ++ [command]) (c.recordEffect action.key done.length effect next) ∨
      Refused c action done command (c.recordEffect action.key done.length effect next) := by
  obtain ⟨heffects, hconflict, hrejected⟩ := hsm
  have hzero := hconflict.trans hd.conflict
  simp only [Coordinator.recordEffect]
  split_ifs with hfi
  · refine .inl {
      releases := ham.releases.congr rfl rfl
      ranges := ham.ranges
      fits := hfi
      effects := by simp [heffects, hd.effects, List.zipIdx_append, heffect]
      claims := ham.claims
      acquired := ham.acquired
      free := ?_
      conflict := hzero
      rejected := hrejected.trans hd.rejected }
    intro other hother hac
    rcases List.mem_append.mp hother with hold | hnew
    · exact hd.free other hold hac
    · rw [List.mem_singleton] at hnew
      subst hnew
      exact hfr hac
  refine .inr ⟨rfl, ⟨.exhausted, rfl, hzero ▸ .exhausted⟩, ?_⟩
  rcases hover (by simpa using hfi) with hre | hover
  · exact .inl (((Releases.of_acquires hre).mp ham.releases).congr rfl rfl)
  · exact .inr ⟨hover, ham.releases.congr rfl rfl⟩

/-- The ranges of a draft that only cuts and merges them. -/
structure Folded (c : Coordinator) (action : Request) (done : List RangeCommand)
    (result : EditResult) : Prop where
  ranges : result.ranges = done.foldl replaceRanges (c.heldRanges action.key)
  releaseRanges : result.releaseRanges =
    (done.filter (·.edit.releases)).foldl replaceRanges (c.heldRanges action.key)
  fits : ∀ before, before <+: done → c.foldFits action.key before = true
  unblocked : ∀ x ∈ done, x.edit.acquires = true → (c.conflictLocked action.key x).found = false

/-- The next command of such a draft, if it is not rejected. -/
lemma Folded.draftCommand (h : Folded c action done result) (index : ℕ)
    (hed : command.edit = .replace ∨ command.edit = .subtract)
    (hfree : command.edit.acquires = true → (c.conflictLocked action.key command).found = false)
    (hrejected : (c.draftCommand action index command result).rejected = none) :
    Folded c action (done ++ [command]) (c.draftCommand action index command result) := by
  have hun : ∀ x ∈ done ++ [command], x.edit.acquires = true →
      (c.conflictLocked action.key x).found = false :=
    List.forall_mem_append.mpr ⟨h.unblocked, List.forall_mem_singleton.mpr hfree⟩
  revert hrejected
  rcases hed with hed | hed
  all_goals
    simp only [Coordinator.draftCommand, hed, Coordinator.recordEffect]
    split_ifs
    · refine fun _ => ⟨by simp [h.ranges], by simp [h.releaseRanges, RangeEdit.releases, hed],
        fun before hbefore => ?_, hun⟩
      rcases List.prefix_concat_iff.mp hbefore with rfl | hbefore
      · simp only [Coordinator.foldFits, List.foldl_concat, ← h.ranges]
        assumption
      · exact h.fits before hbefore
    all_goals exact nofun

lemma draftPrefix_folded (hr : ∀ index, action.released.getD index false = false)
    (hfi : c.foldFits action.key [] = true)
    (hdone : ∀ x ∈ done, x.edit = .replace ∨ x.edit = .subtract)
    (hrejected : (c.draftPrefix action done).rejected = none) :
    Folded c action done (c.draftPrefix action done) := by
  induction done using List.reverseRecOn with
  | nil => exact ⟨rfl, rfl, fun _ hnil => List.prefix_nil.mp hnil ▸ hfi, by simp⟩
  | append_singleton done command ih =>
    rw [List.forall_mem_append, List.forall_mem_singleton] at hdone
    rw [c.draftPrefix_concat hr] at hrejected ⊢
    dsimp only at hrejected ⊢
    split_ifs at hrejected ⊢ with hbefore hblocked
    · exact absurd hrejected hbefore
    · cases hrejected
    refine (ih hdone.1 (not_not.mp hbefore)).draftCommand done.length hdone.2 (fun hac => ?_)
      hrejected
    exact Bool.not_eq_true _ ▸ fun hf => hblocked ⟨hac, hf⟩

include hadm hm in
/-- Ranges are cut and merged outside the enforced domain only. -/
lemma Identity.Admitted.not_enforced
    (hed : command.edit = .replace ∨ command.edit = .subtract) :
    action.key.domain ≠ .enforced := by
  intro he
  have hdo := (hadm.domain command hm).trans he
  rcases ((hadm.valid command hm).enforced hdo).1 with h | h
  · simp [h] at hed
  · simp [h] at hed

include hadm hm in
lemma Identity.Admitted.cuts (hed : command.edit = .replace ∨ command.edit = .subtract)
    {other : RangeCommand} (hother : other ∈ action.commands) :
    other.edit = .replace ∨ other.edit = .subtract := by
  have hne : other.domain ≠ .enforced := by
    rw [hadm.domain other hother]
    exact hadm.not_enforced hm hed
  have hv := hadm.valid other hother
  have hna := hv.advisory hne
  have hde := hv.edit
  cases hkind : other.edit <;> simp_all [RangeEdit.defined]

include hadm hm hd hfr in
lemma draftCommand_replace (hed : command.edit = .replace) :
    let next := c.draftCommand action done.length command result
    Drafted c action (done ++ [command]) next ∨ Refused c action done command next := by
  have hre : command.edit.releases = false := by simp [RangeEdit.releases, hed]
  have ham : Amended c action done command { result with
      ranges := replaceRanges result.ranges command
      acquired := true } := {
    releases := (Releases.of_acquires hre).mpr
      (hd.releases.congr rfl rfl)
    ranges := by
      have hwi := replaceRanges_within (hadm.not_enforced hm (.inl hed)) hd.ranges
        (hadm.valid command hm) (hadm.domain command hm) (.inl hed)
      simpa only [List.append_assoc, List.filter_append] using hwi
    claims := by simp [hd.claims, List.zipIdx_append, claimOf, hed]
    acquired := by simp [RangeEdit.acquires, hed] }
  simp only [Coordinator.draftCommand, hed]
  exact hd.record hfr ham (by simp [effectOf, RangeEdit.releases, hed])
    ⟨rfl, rfl, rfl⟩ fun _ => .inl hre

include hadm hm hd hfr in
lemma draftCommand_addExact (hed : command.edit = .addExact) :
    let next := c.draftCommand action done.length command result
    Drafted c action (done ++ [command]) next ∨ Refused c action done command next := by
  have hv := hadm.valid command hm
  have hcommandDomain : command.domain = action.key.domain := hadm.domain command hm
  have hre : command.edit.releases = false := by simp [RangeEdit.releases, hed]
  have hac : command.edit.acquires = true := by simp [RangeEdit.acquires, hed]
  have hdo : action.key.domain = .enforced := by
    by_contra hne
    rw [← hcommandDomain] at hne
    exact (hv.advisory hne).2.1 hed
  have hadded : RangeClaim.Held action.key.domain ⟨claimAt action.id done.length, { command with
        wait := false, conversion := .preserveBeforeAcquire }⟩ := {
    valid := {
      range := hv.range
      boundary := hv.boundary
      domain := hv.domain
      mode := hv.mode
      edit := hv.edit
      conversion := rfl
      removeExact := fun h => absurd (hed.symm.trans h) (by decide)
      claim := hv.claim
      subtract := fun h => absurd (hed.symm.trans h) (by decide)
      policy := hv.policy
      enforced := hv.enforced
      advisory := hv.advisory
      drop := fun h => by cases h }
    domain_eq := hcommandDomain
    acquires := hac
    wait := rfl
    preserve := rfl
    anonymous := fun h => absurd hdo h }
  have ham : Amended c action done command { result with
      ranges := result.ranges ++ [⟨claimAt action.id done.length, { command
        with wait := false, conversion := .preserveBeforeAcquire }⟩]
      claims := result.claims ++ [claimAt action.id done.length]
      acquired := true } := {
    releases := (Releases.of_acquires hre).mpr
      (hd.releases.congr rfl rfl)
    ranges := by
      intro claim hc
      rcases List.mem_append.mp hc with hold | hnew
      · obtain ⟨hh, hwi⟩ := hd.ranges claim hold
        refine ⟨hh, hwi.mono fun x hx => ?_⟩
        rw [List.filter_append]
        rcases List.mem_append.mp hx with hlive | hdone
        · exact List.mem_append_left _ hlive
        · exact List.mem_append_right _ (List.mem_append_left _ hdone)
      · rw [List.mem_singleton] at hnew
        subst hnew
        exact ⟨hadded, .inl ⟨command, by simp [hac], rfl, rfl⟩⟩
    claims := by simp [hd.claims, List.zipIdx_append, claimOf, hed]
    acquired := by simp [hac] }
  simp only [Coordinator.draftCommand, hed]
  rw [← hed]
  exact hd.record hfr ham (by simp [effectOf, RangeEdit.releases, hed])
    ⟨rfl, rfl, rfl⟩ fun _ => .inl hre

include hadm hm hd hfr in
lemma draftCommand_subtract (hed : command.edit = .subtract) (hfolds : Folded c action done result) :
    let next := c.draftCommand action done.length command result
    Drafted c action (done ++ [command]) next ∨ Refused c action done command next := by
  have hv := hadm.valid command hm
  have hcommandDomain := hadm.domain command hm
  have hdo := hadm.not_enforced hm (.inr hed)
  have hre : command.edit.releases = true := by simp [RangeEdit.releases, hed]
  have hac : command.edit.acquires = false := by simp [RangeEdit.acquires, hed]
  have hc := hv.claim (by rw [hed]; decide)
  simp only [Coordinator.draftCommand, hed]
  split_ifs with hfi
  · have ham : Amended c action done command { result with
        ranges := replaceRanges result.ranges command
        releaseRanges := replaceRanges result.releaseRanges command
        releaseEffects := result.releaseEffects ++ [⟨[], command, true⟩]
        releaseIndexes := result.releaseIndexes ++ [done.length] } := {
      releases := {
        ranges := by
          have hwi := replaceRanges_within hdo hd.releases.ranges
            hv hcommandDomain (.inr hed)
          simpa [hac] using hwi
        fits := hfi
        effects := by
          simp [releasePrefix_append, hd.releases.effects, hre, releaseEffect, hc] }
      ranges := by
        have hwi := replaceRanges_within hdo hd.ranges hv
          hcommandDomain (.inr hed)
        simpa only [List.append_assoc, List.filter_append] using hwi
      claims := by simp [hd.claims, List.zipIdx_append, claimOf, hed]
      acquired := by simp [hd.acquired, hac] }
    refine hd.record hfr ham
      (by simp [effectOf, hre, releaseEffect, hc]) ⟨rfl, rfl, rfl⟩
      fun hover => .inr ⟨hed, hfolds.fits, hfolds.unblocked, ?_, ?_⟩
    · simpa only [Coordinator.foldFits, List.foldl_concat, ← hfolds.releaseRanges] using hfi
    · simpa only [Coordinator.foldFits, List.foldl_concat, ← hfolds.ranges] using hover
  · exact .inr (hd.reject .exhausted rfl rfl rfl)

include hd hfr in
lemma draftCommand_removeExact (hed : command.edit = .removeExact) :
    let next := c.draftCommand action done.length command result
    Drafted c action (done ++ [command]) next ∨ Refused c action done command next := by
  have hre : command.edit.releases = true := by simp [RangeEdit.releases, hed]
  have hac : command.edit.acquires = false := by simp [RangeEdit.acquires, hed]
  simp only [Coordinator.draftCommand, hed]
  cases findClaim command.claim result.ranges with
  | none => exact .inr (hd.reject (.notHeld hed) rfl rfl rfl)
  | some held =>
    dsimp only
    split_ifs with hdiffers
    · exact .inr (hd.reject (.invalid hed) rfl rfl rfl)
    have ham : Amended c action done command { result with
        ranges := removeClaim command.claim result.ranges
        releaseRanges := removeClaim command.claim result.releaseRanges
        releaseEffects := result.releaseEffects ++
          [⟨command.claim, command, true⟩]
        releaseIndexes := result.releaseIndexes ++ [done.length] } := {
      releases := {
        ranges := fun claim hc => hd.releases.ranges claim
          (List.mem_of_mem_eraseP hc)
        fits := Coordinator.replacementFitsLocked_mono
          (List.eraseP_sublist.length_le) hd.releases.fits
        effects := by
          simp [releasePrefix_append, hd.releases.effects, hre, releaseEffect] }
      ranges := by
        intro claim hc
        obtain ⟨hh, hwi⟩ := hd.ranges claim (List.mem_of_mem_eraseP hc)
        exact ⟨hh, by simpa [hac] using hwi⟩
      claims := by simp [hd.claims, List.zipIdx_append, claimOf, hed]
      acquired := by simp [hd.acquired, hac] }
    have hfi := Coordinator.replacementFitsLocked_mono (List.eraseP_sublist.length_le :
      (removeClaim command.claim result.ranges).length ≤ _) hd.fits
    exact hd.record hfr ham (by simp [effectOf, hre, releaseEffect])
      ⟨rfl, rfl, rfl⟩ fun hover => absurd (hfi.symm.trans hover) (by simp)

end

lemma draftPrefix_spec (hadm : action.identity.Admitted)
    (hr : ∀ index, action.released.getD index false = false)
    (hh : ∀ claim ∈ c.heldRanges action.key, claim.Held action.key.domain)
    (hfi : c.replacementFitsLocked action.key (c.heldRanges action.key).length = true)
    (hdone : ∀ x ∈ done, x ∈ action.commands) :
    Drafted c action done (c.draftPrefix action done) ∨
      ∃ before command rest, done = before ++ command :: rest ∧
        Refused c action before command (c.draftPrefix action done) := by
  induction done using List.reverseRecOn with
  | nil =>
    have hlive : ∀ claim ∈ c.heldRanges action.key, claim.Held action.key.domain ∧
          Within action.key.domain ((c.heldRanges action.key).map RangeClaim.command)
            claim.command :=
      fun claim hc => ⟨hh claim hc, .self (List.mem_map_of_mem hc)⟩
    exact .inl {
      releases := ⟨hlive, hfi, rfl⟩
      ranges := by
        intro claim hc
        simpa using hlive claim hc
      fits := hfi
      effects := rfl
      claims := rfl
      acquired := rfl
      free := fun _ h => by cases h
      conflict := rfl
      rejected := rfl }
  | append_singleton done command ih =>
    have hm := hdone command (by simp)
    have happend := c.draftPrefix_concat hr done command
    rcases ih fun x hx => hdone x (List.mem_append_left _ hx) with
      hd | ⟨before, stop, rest, hsplit, hrefused⟩
    · simp only [hd.rejected, ne_eq, not_true_eq_false, if_false] at happend
      by_cases hblocked : command.edit.acquires = true ∧
          (c.conflictLocked action.key command).found = true
      · rw [if_pos hblocked] at happend
        refine .inr ⟨done, command, [], by simp, ?_⟩
        rw [happend]
        exact ⟨rfl, ⟨.blocked, rfl, .blocked _ hblocked.1 (c.conflictLocked_spec action.key
          command) hblocked.2⟩, .inl (hd.releases.congr rfl rfl)⟩
      rw [if_neg hblocked] at happend
      have hfr : command.edit.acquires = true → Free c.owners action.key command := by
        intro hac
        apply Coordinator.free_of_conflictLocked
        rw [← Bool.not_eq_true]
        exact fun hf => hblocked ⟨hac, hf⟩
      have hstep : Drafted c action (done ++ [command])
          (c.draftCommand action done.length command (c.draftPrefix action done)) ∨
          Refused c action done command (c.draftCommand action done.length command
              (c.draftPrefix action done)) := by
        cases hed : command.edit with
        | replace => exact draftCommand_replace hadm hm hd hfr hed
        | subtract =>
          refine draftCommand_subtract hadm hm hd hfr hed
            (draftPrefix_folded hr hfi (fun x hx => ?_) hd.rejected)
          exact hadm.cuts hm (.inr hed) (hdone x (List.mem_append_left _ hx))
        | addExact => exact draftCommand_addExact hadm hm hd hfr hed
        | removeExact => exact draftCommand_removeExact hd hfr hed
        | undefined number =>
          have hdefined := (hadm.valid command hm).edit
          rw [hed] at hdefined
          cases hdefined
      rw [happend]
      rcases hstep with hdrafted | hrefused
      · exact .inl hdrafted
      · exact .inr ⟨done, command, [], by simp, hrefused⟩
    obtain ⟨code, hcode, -⟩ := hrefused.reason
    simp only [hcode, ne_eq, reduceCtorEq, not_false_eq_true, if_true] at happend
    refine .inr ⟨before, stop, rest ++ [command], by simp [hsplit], ?_⟩
    rwa [happend]

end

end RemoteFs.Advisory
