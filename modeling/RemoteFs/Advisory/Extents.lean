import Mathlib.Data.List.Sort
import RemoteFs.Storage.Ranges

/-!
# Extents held by one owner

The overlap tests of `packages/advisory/extents.go` and the overlay
`replaceRanges` of `packages/advisory/ranges.go`.  The proofs read a valid byte
range as the set of offsets it covers; an overlay never covers an offset in a
mode that neither the old ranges nor the command had there.
-/

namespace RemoteFs.Advisory

open Storage

variable {command : RangeCommand} {existing held previous : RangeClaim}
  {domain : ConflictDomain} {old rest : List RangeClaim}

def byteLast (start length : UInt64) : UInt64 × Bool :=
  if length = 0 ∨ maxUint64 - start < length - 1 then (0, false)
  else (start + length - 1, true)

def bytesOverlap (aStart aLength bStart bLength : UInt64) : Bool :=
  (byteLast aStart aLength).2 && (byteLast bStart bLength).2 &&
    decide (aStart ≤ (byteLast bStart bLength).1) &&
    decide (bStart ≤ (byteLast aStart aLength).1)

def boundaryOverlaps (start length cut : UInt64) : Bool :=
  (byteLast start length).2 && decide (start < cut) &&
    decide (cut - start < length)

def overlaps (a b : Range) : Bool :=
  if a.kind = .boundary then
    decide (b.kind = .bytes) && boundaryOverlaps b.start b.length a.cutAt
  else if b.kind = .boundary then boundaryOverlaps a.start a.length b.cutAt
  else bytesOverlap a.start a.length b.start b.length

structure RangeClaim where
  id : ClaimID
  command : RangeCommand
  deriving DecidableEq

/-- What remains of an existing range outside the command's range. -/
def fragments (command : RangeCommand) (existing : RangeClaim) : List RangeClaim :=
  let oldRange := existing.command.range
  let last := (byteLast command.range.start command.range.length).1
  let oldLast := (byteLast oldRange.start oldRange.length).1
  if overlaps oldRange command.range = false then [existing]
  else
    (if oldRange.start < command.range.start then
      [{ existing with command := { existing.command with range :=
          { oldRange with length := command.range.start - oldRange.start } } }]
    else []) ++
    (if last < oldLast then
      [{ existing with command := { existing.command with range :=
          { oldRange with start := last + 1, length := oldLast - last } } }]
    else [])

def acquired (command : RangeCommand) : List RangeClaim :=
  if command.edit = .subtract then []
  else [⟨[], { command with
    wait := false, conversion := .preserveBeforeAcquire }⟩]

def mergeable (previous current : RangeClaim) : Bool :=
  let previousLast :=
    (byteLast previous.command.range.start previous.command.range.length).1
  decide (previousLast ≠ maxUint64) &&
    decide (previousLast + 1 = current.command.range.start) &&
    decide (previous.command.mode = current.command.mode) &&
    decide (previous.command.policy = current.command.policy) &&
    decide (current.command.range.length ≤
      maxUint64 - previous.command.range.length)

def RangeClaim.extend (previous current : RangeClaim) : RangeClaim :=
  { previous with command := { previous.command with range :=
      { previous.command.range with length :=
          previous.command.range.length + current.command.range.length } } }

def mergeFrom : RangeClaim → List RangeClaim → List RangeClaim
  | previous, [] => [previous]
  | previous, current :: rest =>
    if mergeable previous current then
      mergeFrom (previous.extend current) rest
    else previous :: mergeFrom current rest

def mergeAdjacent : List RangeClaim → List RangeClaim
  | [] => []
  | first :: rest => mergeFrom first rest

def replaceRanges (old : List RangeClaim) (command : RangeCommand) : List RangeClaim :=
  mergeAdjacent ((old.flatMap (fragments command) ++ acquired command).insertionSort
    fun a b => a.command.range.start ≤ b.command.range.start)

/-! ## Offsets -/

def Covers (r : Range) (offset : ℕ) : Prop :=
  r.start.toNat ≤ offset ∧ offset < r.start.toNat + r.length.toNat

variable {start length : UInt64}

lemma byteLast_of_fits (hpos : 0 < length.toNat) (hfits : start.toNat + length.toNat ≤ 2 ^ 64) :
    (byteLast start length).2 = true ∧
      (byteLast start length).1.toNat = start.toNat + length.toNat - 1 := by
  have hlen : length ≠ 0 := by
    intro hzero
    rw [hzero] at hpos
    exact absurd hpos (by decide)
  have hroom := (lengthFits_iff start length hlen).mpr hfits
  have hcondition : ¬(length = 0 ∨ maxUint64 - start < length - 1) := by
    rintro (hzero | hover)
    · exact hlen hzero
    · exact hroom hover
  unfold byteLast
  rw [if_neg hcondition]
  refine ⟨rfl, ?_⟩
  have hlast : (length - 1).toNat = length.toNat - 1 :=
    UInt64.toNat_sub_of_le _ _ (UInt64.le_iff_toNat_le.mpr hpos)
  have hassoc : start + length - 1 = start + (length - 1) := by
    rw [UInt64.sub_eq_add_neg, UInt64.sub_eq_add_neg, UInt64.add_assoc]
  change (start + length - 1).toNat = _
  rw [hassoc, UInt64.toNat_add, hlast, Nat.mod_eq_of_lt (by omega)]
  omega

/-- A valid range of bytes. -/
structure Extent (r : Range) : Prop where
  valid : r.Valid
  kind : r.kind = .bytes

def rangeEnd (r : Range) : ℕ := r.start.toNat + r.length.toNat

namespace Extent

variable {r : Range}

lemma pos (h : Extent r) : r.start.toNat < rangeEnd r :=
  Nat.lt_add_of_pos_right (h.valid.bytes h.kind).1

lemma fits (h : Extent r) : rangeEnd r ≤ 2 ^ 64 := (h.valid.bytes h.kind).2.2

lemma last (h : Extent r) : (byteLast r.start r.length).2 = true ∧
    (byteLast r.start r.length).1.toNat = rangeEnd r - 1 :=
  byteLast_of_fits (h.valid.bytes h.kind).1 h.fits

lemma resize (h : Extent r)
    (hpos : 0 < length.toNat) (hfits : start.toNat + length.toNat ≤ 2 ^ 64) :
    Extent { r with start := start, length := length } := by
  refine ⟨⟨.inl h.kind, fun _ => ⟨hpos, (h.valid.bytes h.kind).2.1, hfits⟩,
    fun hboundary => ?_⟩, h.kind⟩
  cases h.kind.symm.trans hboundary

lemma overlaps_iff (ha : Extent a) (hb : Extent b) :
    overlaps a b = true ↔ a.start.toNat < rangeEnd b ∧ b.start.toNat < rangeEnd a := by
  have hapos := ha.pos
  have hbpos := hb.pos
  simp only [overlaps, ha.kind, hb.kind, reduceCtorEq, if_false, bytesOverlap,
    ha.last.1, hb.last.1, Bool.true_and, Bool.and_eq_true, decide_eq_true_eq,
    UInt64.le_iff_toNat_le, ha.last.2, hb.last.2]
  omega

end Extent

lemma overlaps_bytes_iff (ha : a.Valid) (hb : b.Valid)
    (hakind : a.kind = .bytes) (hbkind : b.kind = .bytes) :
    overlaps a b = true ↔ ∃ offset, Covers a offset ∧ Covers b offset := by
  have hapos := Extent.pos ⟨ha, hakind⟩
  have hbpos := Extent.pos ⟨hb, hbkind⟩
  rw [Extent.overlaps_iff ⟨ha, hakind⟩ ⟨hb, hbkind⟩]
  unfold Covers rangeEnd at *
  constructor
  · intro hboth
    exact ⟨max a.start.toNat b.start.toNat, by omega, by omega⟩
  · rintro ⟨offset, hleft, hright⟩
    omega

/-! ## Claims that can be held in a domain -/

lemma RangeCommand.Valid.withRange {c : RangeCommand} {r : Range}
    (hv : c.Valid) (hrange : r.Valid) (hki : r.kind = c.range.kind) :
    { c with range := r }.Valid where
  range := hrange
  boundary := by
    intro h
    exact hv.boundary (hki ▸ h)
  domain := hv.domain
  mode := hv.mode
  edit := hv.edit
  conversion := hv.conversion
  removeExact := hv.removeExact
  claim := hv.claim
  subtract := hv.subtract
  policy := hv.policy
  enforced := hv.enforced
  advisory := hv.advisory
  drop := hv.drop

/-- A claim as the coordinator stores it for an owner of the domain. -/
structure RangeClaim.Held (domain : ConflictDomain) (held : RangeClaim) : Prop where
  valid : held.command.Valid
  domain_eq : held.command.domain = domain
  acquires : held.command.edit.acquires = true
  wait : held.command.wait = false
  preserve : held.command.conversion = .preserveBeforeAcquire
  anonymous : domain ≠ .enforced → held.id = []

lemma RangeClaim.Held.replace (hh : held.Held domain) (hdomain : domain ≠ .enforced) :
    held.command.edit = .replace ∧ held.command.policy = .zero := by
  have hne : held.command.domain ≠ .enforced := by rwa [hh.domain_eq]
  obtain ⟨hpolicy, hadd, -⟩ := hh.valid.advisory hne
  have hacquires := hh.acquires
  simp only [RangeEdit.acquires, decide_eq_true_eq] at hacquires
  exact ⟨hacquires.resolve_right hadd, hpolicy⟩

lemma RangeClaim.Held.bytes (hh : held.Held domain) (hdomain : domain ≠ .enforced) :
    held.command.range.kind = .bytes := by
  rcases hh.valid.range.kind with hki | hki
  · exact hki
  · exact absurd (hh.replace hdomain).1 (hh.valid.boundary hki).1

lemma RangeClaim.Held.withRange {r : Range} (hh : held.Held domain)
    (hrange : r.Valid) (hki : r.kind = held.command.range.kind) :
    RangeClaim.Held domain
      { held with command := { held.command with range := r } } where
  valid := RangeCommand.Valid.withRange hh.valid hrange hki
  domain_eq := hh.domain_eq
  acquires := hh.acquires
  wait := hh.wait
  preserve := hh.preserve
  anonymous := hh.anonymous

/-! ## The overlay -/

lemma command_bytes (hco : command.Valid)
    (hedit : command.edit = .replace ∨ command.edit = .subtract) :
    command.range.kind = .bytes := by
  rcases hco.range.kind with hki | hki
  · exact hki
  · obtain ⟨hreplace, hsubtract⟩ := hco.boundary hki
    exact (hedit.elim hreplace hsubtract).elim

def RangeClaim.resized (claim : RangeClaim) (r : Range) : RangeClaim :=
  { claim with command := { claim.command with range := r } }

/-- Some claim of the list covers the offset in the mode. -/
def Holds (claims : List RangeClaim) (offset : ℕ) (mode : RangeMode) : Prop :=
  ∃ claim ∈ claims, Covers claim.command.range offset ∧
    claim.command.mode = mode

def Before (a b : RangeClaim) : Prop :=
  rangeEnd a.command.range ≤ b.command.range.start.toNat

lemma fragments_of_overlap (hco : Extent command.range)
    (hold : Extent existing.command.range)
    (hoverlap : overlaps existing.command.range command.range = true) :
    ∃ left right, fragments command existing =
      (if existing.command.range.start.toNat < command.range.start.toNat then
        [existing.resized left] else []) ++
      (if rangeEnd command.range < rangeEnd existing.command.range then
        [existing.resized right] else []) ∧
      (existing.command.range.start.toNat < command.range.start.toNat → Extent left ∧
        left.start.toNat = existing.command.range.start.toNat ∧
        rangeEnd left = command.range.start.toNat) ∧
      (rangeEnd command.range < rangeEnd existing.command.range →
        Extent right ∧ right.start.toNat = rangeEnd command.range ∧
        rangeEnd right = rangeEnd existing.command.range) := by
  obtain ⟨hbefore, hbehind⟩ := (hold.overlaps_iff hco).mp hoverlap
  have hpos := hold.pos
  have hcpos := hco.pos
  have hfits := hold.fits
  have hlt : (byteLast command.range.start command.range.length).1 <
      (byteLast existing.command.range.start existing.command.range.length).1 ↔
      rangeEnd command.range < rangeEnd existing.command.range := by
    rw [UInt64.lt_iff_toNat_lt, hold.last.2, hco.last.2]
    omega
  refine ⟨{ existing.command.range with
      length := command.range.start - existing.command.range.start },
    { existing.command.range with
      start := (byteLast command.range.start command.range.length).1 + 1
      length := (byteLast existing.command.range.start
          existing.command.range.length).1 -
        (byteLast command.range.start command.range.length).1 },
    ?_, fun hleft => ?_, fun hright => ?_⟩
  · simp only [fragments, hoverlap, Bool.true_eq_false, if_false, hlt, UInt64.lt_iff_toNat_lt]
    rfl
  · have hlen := UInt64.toNat_sub_of_le command.range.start
      existing.command.range.start (UInt64.le_iff_toNat_le.mpr hleft.le)
    refine ⟨hold.resize ?_ ?_, rfl, ?_⟩ <;>
      simp only [rangeEnd, hlen] at * <;> omega
  · have hle := UInt64.le_of_lt (hlt.mpr hright)
    have hlen := UInt64.toNat_sub_of_le _ _ hle
    have hstart := UInt64.toNat_add
      (byteLast command.range.start command.range.length).1 1
    rw [hold.last.2, hco.last.2] at hlen
    rw [hco.last.2, show UInt64.toNat 1 = 1 from rfl,
      Nat.mod_eq_of_lt (by omega), Nat.sub_add_cancel (by omega)] at hstart
    refine ⟨hold.resize ?_ ?_, hstart, ?_⟩ <;>
      simp only [hlen, hstart, rangeEnd] at * <;> omega

lemma fragments_spec (hco : Extent command.range) (hold : Extent existing.command.range) :
    (∀ f ∈ fragments command existing, ∃ r, Extent r ∧ f = existing.resized r) ∧
    (∀ offset, (∃ f ∈ fragments command existing, Covers f.command.range offset) ↔
      Covers existing.command.range offset ∧ ¬Covers command.range offset) ∧
    (fragments command existing).Pairwise Before := by
  have hpos := hold.pos
  have hcpos := hco.pos
  by_cases hoverlap : overlaps existing.command.range command.range = true
  · have hmeet := (hold.overlaps_iff hco).mp hoverlap
    obtain ⟨left, right, heq, hleft, hright⟩ := fragments_of_overlap hco hold hoverlap
    rw [heq]
    simp only [List.mem_append, List.mem_ite_nil_right, List.mem_singleton,
      or_imp, forall_and, and_imp, forall_eq_apply_imp_iff, or_and_right,
      exists_or, and_assoc, exists_and_left, exists_eq_left]
    refine ⟨fun h => ⟨left, (hleft h).1, rfl⟩,
      fun h => ⟨right, (hright h).1, rfl⟩, fun offset => ?_, ?_⟩
    · clear heq
      simp only [Covers, RangeClaim.resized, rangeEnd] at *
      omega
    · split_ifs with hl hr hr <;>
        simp only [List.cons_append, List.nil_append, List.append_nil,
          List.pairwise_pair, List.pairwise_singleton, List.Pairwise.nil]
      exact ((hleft hl).2.2.trans_le (by omega)).trans (hright hr).2.1.ge
  have hapart := mt (hold.overlaps_iff hco).mpr hoverlap
  simp only [fragments, Bool.not_eq_true _ ▸ hoverlap, if_true, List.mem_singleton, forall_eq,
    exists_eq_left, List.pairwise_singleton, and_true]
  refine ⟨⟨_, hold, rfl⟩, fun offset => ?_⟩
  unfold Covers rangeEnd at *
  omega

variable {current : RangeClaim}

lemma mergeable_iff (hpr : Extent previous.command.range) : mergeable previous current = true ↔
      rangeEnd previous.command.range = current.command.range.start.toNat ∧
      previous.command.mode = current.command.mode ∧
      previous.command.policy = current.command.policy ∧
      previous.command.range.length.toNat + current.command.range.length.toNat < 2 ^ 64 := by
  have hpos := hpr.pos
  have hfits := hpr.fits
  have hstart := current.command.range.start.toNat_lt
  have hlen := previous.command.range.length.toNat_lt
  have hlast := hpr.last.2
  generalize hl : (byteLast previous.command.range.start
    previous.command.range.length).1 = last at hlast
  have hmax : last = maxUint64 ↔ last.toNat = 2 ^ 64 - 1 := UInt64.toNat_inj.symm
  have hnext : last + 1 = current.command.range.start ↔
      (last.toNat + 1) % 2 ^ 64 = current.command.range.start.toNat := by
    rw [← UInt64.toNat_inj, UInt64.toNat_add]
    rfl
  have hroom : (maxUint64 - previous.command.range.length).toNat =
      2 ^ 64 - 1 - previous.command.range.length.toNat :=
    UInt64.toNat_sub_of_le _ _ (UInt64.le_iff_toNat_le.mpr (Nat.le_sub_one_of_lt hlen))
  simp only [mergeable, hl, ne_eq, hmax, hnext, UInt64.le_iff_toNat_le, hroom,
    Bool.and_eq_true, decide_eq_true_eq]
  constructor
  · rintro ⟨⟨⟨⟨hmax, hnext⟩, hmode⟩, hpolicy⟩, hroom⟩
    exact ⟨by omega, hmode, hpolicy, by omega⟩
  · rintro ⟨hadjacent, hmode, hpolicy, hroom⟩
    exact ⟨⟨⟨⟨by omega, by omega⟩, hmode⟩, hpolicy⟩, by omega⟩

lemma extend_spec (hpr : Extent previous.command.range)
    (hcur : Extent current.command.range) (hme : mergeable previous current = true) :
    Extent (previous.extend current).command.range ∧
      rangeEnd (previous.extend current).command.range = rangeEnd current.command.range := by
  obtain ⟨hadjacent, -, -, hroom⟩ := (mergeable_iff hpr).mp hme
  have hlen : (previous.command.range.length + current.command.range.length).toNat = _ :=
    (UInt64.toNat_add _ _).trans (Nat.mod_eq_of_lt hroom)
  have hpos := hpr.pos
  have hfits := hcur.fits
  refine ⟨hpr.resize ?_ ?_, ?_⟩ <;>
    simp only [RangeClaim.extend, rangeEnd, hlen] at * <;> omega

/-- What merging keeps of a list of claims. -/
structure Merged (claims result : List RangeClaim) : Prop where
  shape : ∀ merged ∈ result, ∃ claim ∈ claims, ∃ r, Extent r ∧ merged = claim.resized r
  holds : ∀ offset mode, Holds result offset mode ↔ Holds claims offset mode

variable {claim : RangeClaim} {claims : List RangeClaim}

lemma holds_cons {offset : ℕ} : Holds (claim :: claims) offset mode ↔
      Covers claim.command.range offset ∧ claim.command.mode = mode ∨
        Holds claims offset mode := by
  simp [Holds]

lemma mergeFrom_merged (hall : ∀ claim ∈ previous :: rest, Extent claim.command.range) :
    Merged (previous :: rest) (mergeFrom previous rest) := by
  induction rest generalizing previous with
  | nil =>
    simp only [List.mem_singleton, forall_eq] at hall
    refine ⟨fun merged hm => ?_, fun _ _ => Iff.rfl⟩
    exact ⟨merged, hm, _, (List.mem_singleton.mp hm) ▸ hall, rfl⟩
  | cons current rest ih =>
    obtain ⟨hpr, hcur, hrest⟩ := by simpa only [List.forall_mem_cons] using hall
    unfold mergeFrom
    split_ifs with hme
    · obtain ⟨hadjacent, hmode, -, -⟩ := (mergeable_iff hpr).mp hme
      obtain ⟨hext, hend⟩ := extend_spec hpr hcur hme
      obtain ⟨hshape, hholds⟩ := ih (List.forall_mem_cons.mpr ⟨hext, hrest⟩)
      refine ⟨fun merged hm => ?_, fun offset mode => ?_⟩
      · obtain ⟨claim, hc, r, hr, rfl⟩ := hshape merged hm
        rcases List.mem_cons.mp hc with rfl | hlater
        · exact ⟨previous, List.mem_cons_self, r, hr, rfl⟩
        · exact ⟨claim, by simp [hlater], r, hr, rfl⟩
      · have hcover : Covers (previous.extend current).command.range offset ↔
            Covers previous.command.range offset ∨ Covers current.command.range offset := by
          have hpos := hpr.pos
          have hcpos := hcur.pos
          simp only [Covers, RangeClaim.extend, rangeEnd] at *
          omega
        rw [hholds, holds_cons, holds_cons, holds_cons, hcover, ← hmode]
        change (_ ∨ _) ∧ previous.command.mode = mode ∨ _ ↔ _
        tauto
    obtain ⟨hshape, hholds⟩ := ih (List.forall_mem_cons.mpr ⟨hcur, hrest⟩)
    refine ⟨List.forall_mem_cons.mpr ⟨⟨previous, List.mem_cons_self, _,
      hpr, rfl⟩, fun merged hm => ?_⟩, fun offset mode => ?_⟩
    · obtain ⟨claim, hc, hr⟩ := hshape merged hm
      exact ⟨claim, List.mem_cons_of_mem _ hc, hr⟩
    · rw [holds_cons, hholds, ← holds_cons]

lemma mergeAdjacent_merged (hall : ∀ claim ∈ claims, Extent claim.command.range) :
    Merged claims (mergeAdjacent claims) := by
  cases claims with
  | nil => exact ⟨by simp [mergeAdjacent], fun _ _ => Iff.rfl⟩
  | cons first rest => exact mergeFrom_merged hall

/-- The pieces an overlay sorts and merges. -/
def parts (old : List RangeClaim) (command : RangeCommand) : List RangeClaim :=
  (old.flatMap (fragments command) ++ acquired command).insertionSort
    fun a b => a.command.range.start ≤ b.command.range.start

section Overlay

variable {old : List RangeClaim} {command : RangeCommand}

variable {part : RangeClaim}

lemma mem_parts : part ∈ parts old command ↔
    (∃ held ∈ old, part ∈ fragments command held) ∨ part ∈ acquired command := by
  simp [parts, (List.perm_insertionSort _ _).mem_iff]

lemma mem_acquired : part ∈ acquired command ↔
    command.edit ≠ .subtract ∧ part = ⟨[], { command with
      wait := false, conversion := .preserveBeforeAcquire }⟩ := by
  simp [acquired, List.mem_ite_nil_left]

variable (hold : ∀ held ∈ old, Extent held.command.range) (hco : Extent command.range)

include hold hco

lemma parts_extent : ∀ part ∈ parts old command, Extent part.command.range := by
  intro part hpa
  rcases mem_parts.mp hpa with ⟨held, hh, hpa⟩ | hpa
  · obtain ⟨r, hr, rfl⟩ := (fragments_spec hco (hold held hh)).1 part hpa
    exact hr
  · obtain ⟨-, rfl⟩ := mem_acquired.mp hpa
    exact hco

/-- An offset is held as before outside the command's range and as the command
asks inside it. -/
lemma holds_replaceRanges (offset : ℕ) (mode : RangeMode) :
    Holds (replaceRanges old command) offset mode ↔
      Holds old offset mode ∧ ¬Covers command.range offset ∨
      command.edit ≠ .subtract ∧ Covers command.range offset ∧ command.mode = mode := by
  refine ((mergeAdjacent_merged (parts_extent hold hco)).holds offset mode).trans ?_
  simp only [Holds, mem_parts, or_and_right, exists_or, mem_acquired]
  refine or_congr ⟨?_, ?_⟩ (by simp)
  · rintro ⟨part, ⟨held, hh, hpa⟩, hcovers, rfl⟩
    obtain ⟨hshape, hcover, -⟩ := fragments_spec hco (hold held hh)
    obtain ⟨r, -, rfl⟩ := hshape part hpa
    obtain ⟨hheldCovers, hout⟩ := (hcover offset).mp ⟨_, hpa, hcovers⟩
    exact ⟨⟨held, hh, hheldCovers, rfl⟩, hout⟩
  · rintro ⟨⟨held, hh, hcovers, rfl⟩, hout⟩
    obtain ⟨hshape, hcover, -⟩ := fragments_spec hco (hold held hh)
    obtain ⟨part, hpa, hpartCovers⟩ := (hcover offset).mpr ⟨hcovers, hout⟩
    obtain ⟨r, -, rfl⟩ := hshape part hpa
    exact ⟨_, ⟨held, hh, hpa⟩, hpartCovers, rfl⟩

end Overlay

/-- An overlay holds valid claims, and an offset it covers was covered in the
same mode before or is acquired by the command. -/
lemma replaceRanges_spec (hdomain : domain ≠ .enforced) (hold : ∀ held ∈ old, held.Held domain)
    (hco : command.Valid) (hcd : command.domain = domain)
    (hedit : command.edit = .replace ∨ command.edit = .subtract)
    (hm : claim ∈ replaceRanges old command) :
    claim.Held domain ∧ ∀ offset, Covers claim.command.range offset →
        (∃ held ∈ old, Covers held.command.range offset ∧
          held.command.mode = claim.command.mode) ∨
        (command.edit ≠ .subtract ∧ Covers command.range offset ∧
          command.mode = claim.command.mode) := by
  have hextents : ∀ held ∈ old, Extent held.command.range :=
    fun held hh => ⟨(hold held hh).valid.range, (hold held hh).bytes hdomain⟩
  have hext : Extent command.range := ⟨hco.range, command_bytes hco hedit⟩
  constructor
  · obtain ⟨part, hpa, r, hr, rfl⟩ := (mergeAdjacent_merged
      (parts_extent hextents hext)).shape claim hm
    suffices hpartHeld : part.Held domain from
      hpartHeld.withRange hr.valid (hr.kind.trans
        (parts_extent hextents hext part hpa).kind.symm)
    rcases mem_parts.mp hpa with ⟨held, hh, hfragment⟩ | hacquired
    · obtain ⟨r, hr, rfl⟩ := (fragments_spec hext (hextents held hh)).1 part hfragment
      exact (hold held hh).withRange hr.valid (hr.kind.trans (hextents held hh).kind.symm)
    obtain ⟨hsubtract, rfl⟩ := mem_acquired.mp hacquired
    have hreplace := hedit.resolve_right hsubtract
    refine ⟨?_, hcd, by simp [RangeEdit.acquires, hreplace], rfl, rfl, fun _ => rfl⟩
    exact {
      range := hco.range
      boundary := hco.boundary
      domain := hco.domain
      mode := hco.mode
      edit := hco.edit
      conversion := rfl
      removeExact := fun h => absurd (hreplace.symm.trans h) (by decide)
      claim := hco.claim
      subtract := fun h => absurd h hsubtract
      policy := hco.policy
      enforced := hco.enforced
      advisory := hco.advisory
      drop := fun h => by cases h }
  · intro offset hcovers
    exact ((holds_replaceRanges hextents hext offset _).mp
      ⟨claim, hm, hcovers, rfl⟩).imp_left And.left

/-! ## Order and arithmetic -/

/-- Adjacent claims that could be one differ in mode or policy, or are together
the whole offset space, whose length has no 64-bit value. -/
def Coalesced (a b : RangeClaim) : Prop :=
  rangeEnd a.command.range = b.command.range.start.toNat →
  a.command.mode = b.command.mode → a.command.policy = b.command.policy →
    a.command.range.start.toNat = 0 ∧ rangeEnd b.command.range = 2 ^ 64

lemma mergeFrom_head (hall : ∀ claim ∈ previous :: rest, Extent claim.command.range) :
    ∃ r tail, mergeFrom previous rest = previous.resized r :: tail ∧ Extent r ∧
      r.start = previous.command.range.start ∧ rangeEnd previous.command.range ≤ rangeEnd r := by
  induction rest generalizing previous with
  | nil => exact ⟨_, [], rfl, hall _ List.mem_cons_self, rfl, le_rfl⟩
  | cons current rest ih =>
    obtain ⟨hpr, hcur, hrest⟩ := by simpa only [List.forall_mem_cons] using hall
    unfold mergeFrom
    split_ifs with hme
    · obtain ⟨hext, hend⟩ := extend_spec hpr hcur hme
      obtain ⟨r, tail, heq, hr, hstart, hle⟩ := ih (List.forall_mem_cons.mpr ⟨hext, hrest⟩)
      have hadjacent := ((mergeable_iff hpr).mp hme).1
      have hpos := hcur.pos
      exact ⟨r, tail, heq, hr, hstart, by omega⟩
    · exact ⟨_, _, rfl, hpr, rfl, le_rfl⟩

lemma mergeFrom_ordered (hall : ∀ claim ∈ previous :: rest, Extent claim.command.range)
    (hordered : (previous :: rest).Pairwise Before) :
    (mergeFrom previous rest).Pairwise Before ∧ (mergeFrom previous rest).IsChain Coalesced ∧
      ∀ merged ∈ mergeFrom previous rest, previous.command.range.start.toNat ≤
          merged.command.range.start.toNat := by
  induction rest generalizing previous with
  | nil => simp [mergeFrom]
  | cons current rest ih =>
    obtain ⟨hpr, hcur, hrest⟩ := by simpa only [List.forall_mem_cons] using hall
    obtain ⟨⟨hbefore, hbeforeRest⟩, hcurrentRest, htail⟩ := by
      simpa only [List.pairwise_cons, List.forall_mem_cons] using hordered
    have hpos := hpr.pos
    unfold mergeFrom
    split_ifs with hme
    · obtain ⟨hext, hend⟩ := extend_spec hpr hcur hme
      exact ih (List.forall_mem_cons.mpr ⟨hext, hrest⟩)
        (List.pairwise_cons.mpr ⟨fun claim hc =>
          hend.trans_le (hcurrentRest claim hc), htail⟩)
    have hlater : ∀ claim ∈ current :: rest, Extent claim.command.range :=
      List.forall_mem_cons.mpr ⟨hcur, hrest⟩
    obtain ⟨hpairwise, hchain, hleast⟩ := ih hlater (List.pairwise_cons.mpr ⟨hcurrentRest, htail⟩)
    obtain ⟨r, tail, heq, hr, hstart, hle⟩ := mergeFrom_head hlater
    refine ⟨List.pairwise_cons.mpr ⟨fun merged hm =>
      le_trans hbefore (hleast merged hm), hpairwise⟩,
      List.isChain_cons.mpr ⟨?_, hchain⟩,
      List.forall_mem_cons.mpr ⟨le_rfl, fun merged hm => ?_⟩⟩
    · simp only [heq, List.head?_cons, Option.mem_some_iff, forall_eq']
      intro hadjacent hmode hpolicy
      have hfull : ¬_ < _ := fun hroom => hme
        ((mergeable_iff hpr).mpr ⟨hadjacent.trans (congrArg _ hstart), hmode, hpolicy, hroom⟩)
      have hfits := hr.fits
      have hstartNat := congrArg UInt64.toNat hstart
      simp only [RangeClaim.resized, rangeEnd] at *
      omega
    · have := hleast merged hm
      unfold Before at hbefore
      omega

lemma parts_ordered (hold : ∀ held ∈ old, Extent held.command.range)
    (hordered : old.Pairwise Before) (hco : Extent command.range) :
    (parts old command).Pairwise Before := by
  -- No two pieces share an offset, so the order of their starts separates them.
  have hapart : (parts old command).Pairwise fun a b =>
      ∀ offset, ¬(Covers a.command.range offset ∧ Covers b.command.range offset) := by
    rw [parts, (List.perm_insertionSort _ _).pairwise_iff
      (fun h offset => (h offset).imp And.symm), List.pairwise_append,
      List.pairwise_flatMap]
    refine ⟨⟨fun held hh => ?_, hordered.imp_of_mem ?_⟩, ?_, ?_⟩
    · refine (fragments_spec hco (hold held hh)).2.2.imp ?_
      intro a b hbefore offset
      simp only [Before, rangeEnd, Covers] at *
      omega
    · intro a b ha hb hbefore x hx y hy offset hboth
      have hfirst := (fragments_spec hco (hold a ha)).2.1 offset
      have hsecond := (fragments_spec hco (hold b hb)).2.1 offset
      have hxa := (hfirst.mp ⟨x, hx, hboth.1⟩).1
      have hyb := (hsecond.mp ⟨y, hy, hboth.2⟩).1
      simp only [Before, rangeEnd, Covers] at *
      omega
    · unfold acquired
      split_ifs <;> simp
    · intro x hx y hy offset hboth
      obtain ⟨held, hh, hx⟩ := List.mem_flatMap.mp hx
      obtain ⟨-, rfl⟩ := mem_acquired.mp hy
      exact (((fragments_spec hco (hold held hh)).2.1 offset).mp ⟨x, hx, hboth.1⟩).2 hboth.2
  have hsorted : (parts old command).Pairwise fun a b =>
      a.command.range.start.toNat ≤ b.command.range.start.toNat :=
    List.pairwise_insertionSort _ _
  refine (hapart.and hsorted).imp_of_mem ?_
  rintro a b - hb ⟨hdisjoint, hle⟩
  have hpos := (parts_extent hold hco b hb).pos
  have hnot := hdisjoint b.command.range.start.toNat
  simp only [Before, rangeEnd, Covers] at *
  omega

/-- The computations of one cut are exact: the last offsets, the length in
front of the command, and the start and length behind it. -/
structure CutsExactly (command : RangeCommand) (existing : RangeClaim) : Prop where
  last : (byteLast existing.command.range.start existing.command.range.length).1.toNat + 1 =
      rangeEnd existing.command.range
  left : existing.command.range.start < command.range.start →
    (command.range.start - existing.command.range.start).toNat +
      existing.command.range.start.toNat = command.range.start.toNat
  right : (byteLast command.range.start command.range.length).1 <
      (byteLast existing.command.range.start existing.command.range.length).1 →
    ((byteLast command.range.start command.range.length).1 + 1).toNat =
        (byteLast command.range.start command.range.length).1.toNat + 1 ∧
      ((byteLast existing.command.range.start existing.command.range.length).1 -
        (byteLast command.range.start command.range.length).1).toNat +
        (byteLast command.range.start command.range.length).1.toNat =
        (byteLast existing.command.range.start existing.command.range.length).1.toNat

/-- The computations of the merging loop are exact: the last offset, its
successor, and the length of each merged range. -/
def MergesExactly : RangeClaim → List RangeClaim → Prop
  | _, [] => True
  | previous, current :: rest =>
    let previousLast := (byteLast previous.command.range.start
      previous.command.range.length).1
    previousLast.toNat + 1 = rangeEnd previous.command.range ∧
    (previousLast ≠ maxUint64 →
      (previousLast + 1).toNat = previousLast.toNat + 1) ∧
    if mergeable previous current then
      (previous.command.range.length + current.command.range.length).toNat =
          previous.command.range.length.toNat +
            current.command.range.length.toNat ∧
        MergesExactly (previous.extend current) rest
    else MergesExactly current rest

lemma succ_exact {a b : UInt64} (hlt : a.toNat < b.toNat) : (a + 1).toNat = a.toNat + 1 := by
  have hb := b.toNat_lt
  rw [UInt64.toNat_add]
  exact Nat.mod_eq_of_lt (by change a.toNat + 1 < _; omega)

lemma cutsExactly (hold : Extent existing.command.range) : CutsExactly command existing := by
  refine ⟨?_, fun hlt => ?_, fun hlt => ⟨succ_exact hlt, ?_⟩⟩
  · have hpos := hold.pos
    rw [hold.last.2]
    omega
  · rw [UInt64.toNat_sub_of_le _ _ (UInt64.le_of_lt hlt)]
    exact Nat.sub_add_cancel (UInt64.le_of_lt hlt)
  · rw [UInt64.toNat_sub_of_le _ _ (UInt64.le_of_lt hlt)]
    exact Nat.sub_add_cancel (UInt64.le_of_lt hlt)

lemma mergesExactly (hall : ∀ claim ∈ previous :: rest, Extent claim.command.range) :
    MergesExactly previous rest := by
  induction rest generalizing previous with
  | nil => trivial
  | cons current rest ih =>
    obtain ⟨hpr, hcur, hrest⟩ := by simpa only [List.forall_mem_cons] using hall
    have hpos := hpr.pos
    refine ⟨by rw [hpr.last.2]; omega, fun hmax => ?_, ?_⟩
    · refine succ_exact (b := maxUint64) (lt_of_le_of_ne
        (Nat.le_sub_one_of_lt (UInt64.toNat_lt _)) fun h => ?_)
      exact hmax (UInt64.toNat_inj.mp h)
    · split_ifs with hme
      · exact ⟨(UInt64.toNat_add _ _).trans (Nat.mod_eq_of_lt
          ((mergeable_iff hpr).mp hme).2.2.2),
          ih (List.forall_mem_cons.mpr ⟨(extend_spec hpr hcur hme).1, hrest⟩)⟩
      · exact ih (List.forall_mem_cons.mpr ⟨hcur, hrest⟩)

/-- The overlay of a command over sorted disjoint ranges, offset by offset; its
arithmetic stays below `2 ^ 64` except for the sum inside `byteLast`. -/
theorem replaceRanges_overlay (hold : ∀ held ∈ old, Extent held.command.range)
    (hordered : old.Pairwise Before) (hco : command.Valid)
    (hedit : command.edit = .replace ∨ command.edit = .subtract) :
    (∀ claim ∈ replaceRanges old command, Extent claim.command.range) ∧
    (replaceRanges old command).Pairwise Before ∧
    (∀ offset mode, Covers command.range offset → (Holds (replaceRanges old command) offset mode ↔
        command.edit = .replace ∧ command.mode = mode)) ∧
    (∀ offset mode, ¬Covers command.range offset →
      (Holds (replaceRanges old command) offset mode ↔ Holds old offset mode)) ∧
    (replaceRanges old command).IsChain Coalesced ∧
    (byteLast command.range.start command.range.length).1.toNat + 1 = rangeEnd command.range ∧
    (∀ held ∈ old, CutsExactly command held) ∧
    ∀ first rest, parts old command = first :: rest → MergesExactly first rest := by
  have hext : Extent command.range :=
    ⟨hco.range, command_bytes hco hedit⟩
  have hparts := parts_extent hold hext
  have hholds := holds_replaceRanges hold hext
  have hreplace : command.edit ≠ .subtract ↔ command.edit = .replace := by
    rcases hedit with h | h <;> simp [h]
  obtain ⟨hpairwise, hchain⟩ : (replaceRanges old command).Pairwise Before ∧
      (replaceRanges old command).IsChain Coalesced := by
    have hsorted := parts_ordered hold hordered hext
    change (mergeAdjacent (parts old command)).Pairwise _ ∧
      (mergeAdjacent (parts old command)).IsChain _
    cases hcase : parts old command with
    | nil => simp [mergeAdjacent]
    | cons first rest =>
      obtain ⟨hpairwise, hchain, -⟩ :=
        mergeFrom_ordered (hcase ▸ hparts) (hcase ▸ hsorted)
      exact ⟨hpairwise, hchain⟩
  refine ⟨fun claim hc => ?_, hpairwise, fun offset mode hcovers => ?_,
    fun offset mode hcovers => ?_, hchain, ?_,
    fun held hh => cutsExactly (hold held hh),
    fun first rest hcase => mergesExactly (hcase ▸ hparts)⟩
  · obtain ⟨_, _, r, hr, rfl⟩ :=
      (mergeAdjacent_merged hparts).shape claim hc
    exact hr
  · simp [hholds, hcovers, hreplace]
  · simp [hholds, hcovers]
  · have hpos := hext.pos
    rw [hext.last.2]
    omega

def recordCommand (mode : RangeMode) (edit : RangeEdit) (start length : UInt64) : RangeCommand :=
  ⟨.record, mode, ⟨.bytes, start, length, 0⟩, edit, [], false,
    .preserveBeforeAcquire, .zero⟩

/-- Subtracting the last half of the space from two neighbours. -/
theorem replaceRanges_overlay_at_end :
    (replaceRanges [⟨[], recordCommand .exclusive .replace 1 7⟩,
        ⟨[], recordCommand .shared .replace 8 0xFFFFFFFFFFFFFFF8⟩]
      (recordCommand .shared .subtract 16 0xFFFFFFFFFFFFFFF0)).IsChain Coalesced :=
  (replaceRanges_overlay (by
      simp only [List.forall_mem_cons, List.not_mem_nil, false_imp_iff, implies_true, and_true]
      exact ⟨⟨Range.check_eq_ok_iff.mp (by decide), rfl⟩,
        ⟨Range.check_eq_ok_iff.mp (by decide), rfl⟩⟩)
    (by simp [Before, rangeEnd, recordCommand])
    (RangeCommand.check_eq_ok_iff.mp (by decide)) (.inr rfl)).2.2.2.2.1

/-- For a valid command that reaches the last offset, the sum `start + length`
that `byteLast` forms first wraps to zero. -/
theorem byteLast_sum_wraps : (recordCommand .shared .replace 1 0xFFFFFFFFFFFFFFFF).Valid ∧
      (byteLast 1 0xFFFFFFFFFFFFFFFF).2 = true ∧
      ((1 : UInt64) + 0xFFFFFFFFFFFFFFFF).toNat ≠
        (1 : UInt64).toNat + (0xFFFFFFFFFFFFFFFF : UInt64).toNat :=
  ⟨RangeCommand.check_eq_ok_iff.mp (by decide), by decide, by decide⟩

end RemoteFs.Advisory
