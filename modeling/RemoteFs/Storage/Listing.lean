import RemoteFs.Lib.Runs
import RemoteFs.Lib.Word
import RemoteFs.Storage.Metadata

/-!
# Bounded listings

`ListResult` of `packages/storage/storage.go`: a listing charges every entry
before its name is loaded, and a reservation is committed later, perhaps after
the listing has failed.  The charge and the projections of the caller are
parameters.  A `ListState` keeps the reservations that have been handed out and,
for the statements only, what each was charged and what it committed.
-/

namespace RemoteFs.Storage

/-- An instant, and the zone in which it is shown; zone 0 is UTC. -/
structure Instant where
  nanos : ℤ
  zone : ℕ
  deriving DecidableEq

def Instant.UTC (instant : Instant) : Instant := { instant with zone := 0 }

structure Attr where
  id : UInt64
  kind : UInt8
  birthTime : Option Instant
  changeTime : Option Instant
  /-- No table is the nil map. -/
  metadata : Option Metadata
  size : Int64
  allocationSize : Int64
  allocationKnown : Bool
  accessTime : Instant
  modTime : Instant

def Attr.utcTimes (attr : Attr) : Attr :=
  { attr with accessTime := attr.accessTime.UTC, modTime := attr.modTime.UTC }

def Attr.Clone (attr : Attr) : Attr :=
  { attr.utcTimes with
    birthTime := attr.birthTime.map Instant.UTC
    changeTime := attr.changeTime.map Instant.UTC }

structure Entry where
  name : List UInt8
  attr : Attr

abbrev EntryBytes := ℤ → Int64 → Int64 → Attr → Except Failure Int64

structure ListResult where
  maxBytes : Int64
  usedBytes : Int64
  entryBytes : EntryBytes
  projectAttrs : List (Attr → Attr)
  entries : List Entry
  pending : ℤ
  prefixReserved : Bool
  failure : Option Failure

structure ListReservation where
  nameBytes : Int64
  metadataBytes : Int64
  attr : Attr
  committed : Bool

/-- `slices.SortFunc` on the names; it need not keep the order of equal ones. -/
structure NameSort where
  sort : List Entry → List Entry
  perm : ∀ entries, (sort entries).Perm entries
  sorted : ∀ entries, (sort entries).Pairwise fun a b => a.name ≤ b.name

def NameSort.merge : NameSort where
  sort entries := entries.mergeSort fun a b => decide (a.name ≤ b.name)
  perm entries := List.mergeSort_perm entries _
  sorted entries := by
    refine (List.pairwise_mergeSort (fun a b c => ?_) (fun a b => ?_) entries).imp
      of_decide_eq_true
    · simpa using List.le_trans
    · simpa using List.le_total a.name b.name

def NewListResult (maxBytes fixedBytes : Int64) (entryBytes : Option EntryBytes) :
    Except Failure ListResult := do
  refuse (maxBytes < 0)
    ⟨.EINVAL, "a listing byte bound cannot be negative"⟩
  refuse (fixedBytes < 0 ∨ maxBytes < fixedBytes)
    ⟨.EFBIG, s!"the empty listing requires {fixedBytes} bytes under a " ++
      s!"{maxBytes}-byte bound"⟩
  match entryBytes with
  | none => .error ⟨.EINVAL, "a listing result needs an entry byte charge"⟩
  | some entryBytes =>
    return ⟨maxBytes, fixedBytes, entryBytes, [], [], 0, false, none⟩

namespace ListResult

variable (r : ListResult)

def fail (err : Failure) : Failure × ListResult :=
  let failure := r.failure.getD err
  (failure, { r with failure := some failure, entries := [], pending := 0 })

/-- A call that is refused invalidates the listing, and an invalid one refuses
every call with its first failure. -/
def guarded (step : Except Failure (α × ListResult)) : Except Failure α × ListResult :=
  match r.failure with
  | some failure => (.error failure, r)
  | none =>
    match step with
    | .error err => ((.error (r.fail err).1), (r.fail err).2)
    | .ok (answer, r') => (.ok answer, r')

/-- A nil projection is refused like a late one. -/
def ProjectAttrs (project : Option (Attr → Attr)) : Except Failure Unit × ListResult :=
  r.guarded do
    refuse (project.isNone = true ∨ r.pending ≠ 0 ∨ r.entries.length ≠ 0) ⟨.EINVAL,
      "listing attribute projections must precede entries and be non-nil"⟩
    return ((), { r with projectAttrs := r.projectAttrs ++ project.toList })

/-- The last registered projection runs first. -/
def projected (attr : Attr) : Except Failure Attr :=
  r.projectAttrs.foldrM (fun project attr => do
    refuse ((project attr).metadata.isSome = true)
      ⟨.EINVAL, "listing attribute projection cannot supply metadata"⟩
    return project attr) attr

/-- The part of `Reserve` that computes the charge. -/
def charge (nameBytes metadataBytes : Int64) (attr : Attr) : Except Failure (Int64 × Attr) := do
  refuse (nameBytes < 0)
    (.mk Errno.EIO "a listing name cannot have negative length")
  refuse ((attr.metadata.getD ∅).size ≠ 0) ⟨.EINVAL, ""⟩
  refuse (metadataBytes < 6 ∨ Int64.ofNat maxMetadataBytes < metadataBytes)
    (.mk Errno.EIO "")
  let attr ← r.projected attr.utcTimes
  let attr := attr.utcTimes
  let index := r.entries.length + r.pending
  let bytes ← r.entryBytes index nameBytes metadataBytes attr
  refuse (bytes < 0)
    ⟨.EINVAL, s!"the listing charge at index {index} is negative"⟩
  refuse (r.maxBytes - r.usedBytes < bytes) (.mk Errno.EIO
    ("the complete listing exceeds its " ++ toString r.maxBytes ++
      "-byte result bound"))
  return (bytes, attr)

def Reserve (nameBytes metadataBytes : Int64) (attr : Attr) :
    Except Failure ListReservation × ListResult :=
  r.guarded do
    let (bytes, attr) ← r.charge nameBytes metadataBytes attr
    return (⟨nameBytes, metadataBytes, attr.Clone, false⟩,
      { r with usedBytes := r.usedBytes + bytes, pending := r.pending + 1 })

def ReservePrefix (charge : Int64) : Except Failure Unit × ListResult :=
  r.guarded do
    refuse (r.prefixReserved = true ∨ r.pending ≠ 0 ∨ r.entries.length ≠ 0)
      ⟨.EINVAL, "listing prefix must precede entries and be reserved once"⟩
    refuse (charge < 0)
      ⟨.EINVAL, "listing prefix charge cannot be negative"⟩
    refuse (r.maxBytes - r.usedBytes < charge)
      ⟨.EFBIG, "listing prefix exceeds its result bound"⟩
    return ((), { r with usedBytes := r.usedBytes + charge, prefixReserved := true })

/-- The slice is sorted in place. -/
def sorted (order : NameSort) : ListResult :=
  { r with entries := order.sort r.entries }

def Entries (order : NameSort) : Except Failure (List Entry) × ListResult :=
  match r.failure with
  | some failure => (.error failure, r)
  | none =>
    if r.pending ≠ 0 then
      (.error (.mk Errno.EIO ("the listing has " ++ toString r.pending ++
        " entries whose names were reserved but not loaded")), r)
    else
      (.ok (r.sorted order).entries, r.sorted order)

def Fail (err : Option Failure) : Option Failure × ListResult :=
  match err with
  | none => (none, r)
  | some err => (some (r.fail err).1, (r.fail err).2)

end ListResult

/-- A name of another length is refused before an earlier failure is looked at. -/
def ListReservation.Commit (reservation : ListReservation) (r : ListResult)
    (name : List UInt8) (metadata : Option Metadata) :
    Except Failure ListReservation × ListResult :=
  if reservation.committed then
    (.error ⟨.EINVAL, "a listing reservation can be committed exactly once"⟩, r)
  else if (name.length : ℤ) ≠ reservation.nameBytes.toInt then
    let (err, r) := r.fail (.mk Errno.EIO ("the listing name has " ++
      toString name.length ++ " bytes after " ++
      toString reservation.nameBytes ++ " were reserved"))
    (.error err, r)
  else
    r.guarded do
      let size ← metadataSize (metadata.getD ∅)
      refuse ((size : ℤ) ≠ reservation.metadataBytes.toInt)
        (.mk Errno.EIO "listing metadata length differs from reservation")
      let attr := { reservation.attr with metadata }
      return ({ reservation with attr, committed := true }, { r with
        pending := r.pending - 1, entries := r.entries ++ [⟨name, attr⟩] })

/-! ## Runs -/

/-- A reservation, the bytes that it was charged and the entry that it has
committed. -/
structure Reserved where
  reservation : ListReservation
  charge : Int64
  entry : Option Entry

structure ListState where
  result : ListResult
  reserved : List Reserved
  prefixCharge : Int64

inductive ListCall where
  | projectAttrs (project : Option (Attr → Attr))
  | reservePrefix (charge : Int64)
  | reserve (nameBytes metadataBytes : Int64) (attr : Attr)
  | commit (index : ℕ) (name : List UInt8) (metadata : Option Metadata)
  | add (entry : Entry)
  | fail (err : Option Failure)
  | entries

namespace ListState

variable (order : NameSort) (s : ListState)

/-- The error that a caller sees, and the state after an answer. -/
def settle (answer : Except Failure α × ListResult) (next : α → ListResult → ListState) :
    Option Failure × ListState :=
  match answer with
  | (.error err, r) => (some err, { s with result := r })
  | (.ok value, r) => (none, next value r)

def reserve (nameBytes metadataBytes : Int64) (attr : Attr) : Option Failure × ListState :=
  s.settle (s.result.Reserve nameBytes metadataBytes attr) fun reservation r =>
    let bytes := match s.result.charge nameBytes metadataBytes attr with
      | .ok (bytes, _) => bytes
      | .error _ => 0
    { s with result := r, reserved := s.reserved ++ [⟨reservation, bytes, none⟩] }

def commit (index : ℕ) (name : List UInt8) (metadata : Option Metadata) :
    Option Failure × ListState :=
  match s.reserved[index]? with
  | none => (none, s)
  | some made =>
    s.settle (made.reservation.Commit s.result name metadata) fun reservation r =>
      { s with
        result := r
        reserved := s.reserved.set index
          { made with reservation, entry := some ⟨name, reservation.attr⟩ } }

def fail (err : Option Failure) : Option Failure × ListState :=
  ((s.result.Fail err).1, { s with result := (s.result.Fail err).2 })

/-- Two calls in a row; an error of the first is returned. -/
def andThen (first : Option Failure × ListState)
    (second : ListState → Option Failure × ListState) : Option Failure × ListState :=
  match first with
  | (some err, s') => (some err, s')
  | (none, s') => second s'

def add (entry : Entry) : Option Failure × ListState :=
  match metadataSize (entry.attr.metadata.getD ∅) with
  | .error err => s.fail (some err)
  | .ok size =>
    andThen (s.reserve (Int64.ofNat entry.name.length) (Int64.ofNat size)
        { entry.attr with metadata := none })
      fun s' => s'.commit s.reserved.length entry.name entry.attr.metadata

def call : ListCall → Option Failure × ListState
  | .projectAttrs project =>
    s.settle (s.result.ProjectAttrs project) fun _ r => { s with result := r }
  | .reservePrefix charge =>
    s.settle (s.result.ReservePrefix charge) fun _ r =>
      { s with result := r, prefixCharge := charge }
  | .reserve nameBytes metadataBytes attr => s.reserve nameBytes metadataBytes attr
  | .commit index name metadata => s.commit index name metadata
  | .add entry => s.add entry
  | .fail err => s.fail err
  | .entries =>
    s.settle (s.result.Entries order) fun _ r => { s with result := r }

def exec (call : ListCall) : ListState := (s.call order call).2

end ListState

/-! ## The invariant -/

/-- A reservation was charged for its lengths, and the entry that it committed
has them. -/
structure Reserved.Exact (entryBytes : EntryBytes) (made : Reserved) : Prop where
  charged : ∃ index attr, entryBytes index made.reservation.nameBytes
    made.reservation.metadataBytes attr = .ok made.charge
  nonneg : 0 ≤ made.charge.toInt
  committed : made.reservation.committed = made.entry.isSome
  lengths : ∀ entry ∈ made.entry, (entry.name.length : ℤ) = made.reservation.nameBytes.toInt ∧
      ∃ size : ℕ, metadataSize (entry.attr.metadata.getD ∅) = .ok size ∧
        (size : ℤ) = made.reservation.metadataBytes.toInt

namespace ListState

/-- The bytes that have been charged, as a number. -/
def charges (fixedBytes : Int64) (s : ListState) : ℤ :=
  fixedBytes.toInt + s.prefixCharge.toInt +
    (s.reserved.map fun made => made.charge.toInt).sum

def committedEntries (s : ListState) : List Entry :=
  s.reserved.filterMap Reserved.entry

def outstanding (s : ListState) : ℕ :=
  s.reserved.countP fun made => made.entry.isNone

structure Sound (maxBytes fixedBytes : Int64) (entryBytes : EntryBytes)
    (s : ListState) : Prop where
  maxBytes_eq : s.result.maxBytes = maxBytes
  entryBytes_eq : s.result.entryBytes = entryBytes
  unreserved : s.result.prefixReserved = false → s.prefixCharge = 0
  used : s.result.usedBytes.toInt = s.charges fixedBytes
  nonneg : 0 ≤ s.result.usedBytes.toInt
  bound : s.result.usedBytes.toInt ≤ maxBytes.toInt
  exact : ∀ made ∈ s.reserved, made.Exact entryBytes
  kept : s.result.failure = none →
    s.result.entries.Perm s.committedEntries ∧ s.result.pending = s.outstanding
  dropped : s.result.failure ≠ none → s.result.entries = []

/-- What an answered call leaves behind. -/
structure Onward (s s' : ListState) : Prop where
  failure : s'.result.failure = s.result.failure
  sound : ∀ {maxBytes fixedBytes entryBytes},
    s.Sound maxBytes fixedBytes entryBytes → s'.Sound maxBytes fixedBytes entryBytes

/-- A call answers with the failure of the listing, or fails the listing itself,
or goes on.  After a failure only an `idle` call answers differently. -/
inductive Outcome (s : ListState) (idle : Prop) : Option Failure × ListState → Prop
  | refused {err : Failure} (hfa : s.result.failure = some err) : Outcome s idle (some err, s)
  | failed {s' : ListState} (hon : s.Onward s') (err : Failure) :
    Outcome s idle (some (s'.result.fail err).1, { s' with result := (s'.result.fail err).2 })
  | went {s' : ListState} (hon : s.Onward s') (reply : Option Failure)
    (hidle : s.result.failure ≠ none → idle) : Outcome s idle (reply, s')

variable {s s' : ListState} {maxBytes fixedBytes : Int64} {entryBytes : EntryBytes}

lemma Onward.refl : s.Onward s := ⟨rfl, id⟩

lemma Onward.trans (h : s.Onward s') (h' : s'.Onward s'') : s.Onward s'' :=
  ⟨h'.failure.trans h.failure, fun hc => h'.sound (h.sound hc)⟩

/-- A guarded call answers with the failure of the listing, fails it, or does
what it is about to do. -/
lemma settle_guarded_outcome {next : α → ListResult → ListState}
    (hnext : ∀ answer r, s.result.failure = none → step = .ok (answer, r) →
      s.Onward (next answer r)) : Outcome s idle (s.settle (s.result.guarded step) next) := by
  unfold ListResult.guarded
  cases hfai : s.result.failure with
  | some err => exact .refused hfai
  | none =>
    cases step with
    | error err => exact .failed .refl err
    | ok pair => exact .went (hnext pair.1 pair.2 hfai rfl) none (absurd hfai)

lemma Outcome.andThen {second : ListState → Option Failure × ListState} {idle : ListState → Prop}
    (hfirst : Outcome s False first) (hsecond : ∀ s', Outcome s' (idle s') (second s')) :
    Outcome s False (andThen first second) := by
  cases hfirst with
  | refused hfa => exact .refused hfa
  | failed hon err => exact .failed hon err
  | @went s' hon reply hidle =>
    cases reply with
    | some err => exact .went hon (some err) hidle
    | none =>
      have ho := hon.failure.trans (not_not.mp hidle)
      have hnext := hsecond s'
      simp only [ListState.andThen]
      generalize second s' = pair at hnext
      cases hnext with
      | refused hfa => simp [ho] at hfa
      | failed honward' err => exact .failed (hon.trans honward') err
      | went honward' reply _ => exact .went (hon.trans honward') reply hidle

/-! ## One call -/

/-- A charge within the room left is added without overflow. -/
lemma Sound.toInt_add (hc : s.Sound maxBytes fixedBytes entryBytes) (hno : ¬charge < 0)
    (hroom : ¬s.result.maxBytes - s.result.usedBytes < charge) :
    (s.result.usedBytes + charge).toInt = s.result.usedBytes.toInt + charge.toInt ∧
      0 ≤ charge.toInt ∧ s.result.usedBytes.toInt + charge.toInt ≤ maxBytes.toInt := by
  have hused := hc.nonneg
  have hbound := hc.bound
  have hbelow := maxBytes.toInt_lt
  rw [Int64.lt_iff_toInt_lt, not_lt] at hno hroom
  rw [hc.maxBytes_eq, Word.toInt_sub (Word.fits_sub (hused.trans hbound) hused)] at hroom
  change 0 ≤ charge.toInt at hno
  exact ⟨Word.toInt_add ⟨by omega, by omega⟩, hno, by omega⟩

lemma charge_eq_ok {r : ListResult} {nameBytes metadataBytes : Int64} {attr : Attr}
    {charged : Int64 × Attr} (hcharge : r.charge nameBytes metadataBytes attr = .ok charged) :
    r.entryBytes (r.entries.length + r.pending) nameBytes metadataBytes charged.2 =
      .ok charged.1 ∧ ¬charged.1 < 0 ∧ ¬r.maxBytes - r.usedBytes < charged.1 := by
  simp only [ListResult.charge, bind_ok, pure, Except.pure, Except.ok.injEq] at hcharge
  obtain ⟨_, -, _, -, _, -, attr', -, bytes, hbytes, _, hno, _, hroom, rfl⟩ := hcharge
  exact ⟨hbytes, refuse_ok.mp hno, refuse_ok.mp hroom⟩

lemma reserve_outcome (s : ListState) (nameBytes metadataBytes : Int64) (attr : Attr) :
    Outcome s False (s.reserve nameBytes metadataBytes attr) := by
  refine settle_guarded_outcome fun answer r ho hstep => ?_
  obtain ⟨charged, hcharge, hpair⟩ := bind_ok.mp hstep
  obtain ⟨hbytes, hno, hroom⟩ := charge_eq_ok hcharge
  cases hpair
  rw [hcharge]
  refine ⟨rfl, fun {maxBytes fixedBytes entryBytes} hc => ?_⟩
  obtain ⟨hadd, hpos, hbound⟩ := hc.toInt_add hno hroom
  obtain ⟨hperm, hp⟩ := hc.kept ho
  have hmade : Reserved.Exact entryBytes
      ⟨⟨nameBytes, metadataBytes, charged.2.Clone, false⟩, charged.1, none⟩ :=
    ⟨⟨_, _, hc.entryBytes_eq ▸ hbytes⟩, hpos, rfl, by simp⟩
  have hused := hc.used
  exact { hc with
    used := by
      simp only [charges, List.map_append, List.map_singleton, List.sum_append,
        List.sum_singleton] at hused ⊢
      omega
    nonneg := (add_nonneg hc.nonneg hpos).trans_eq hadd.symm
    bound := hadd.trans_le hbound
    exact := by simpa [or_imp, forall_and] using ⟨hc.exact, hmade⟩
    kept := fun _ => by simpa [committedEntries, outstanding, hp] using hperm }

lemma prefix_outcome (order : NameSort) (s : ListState) (charge : Int64) :
    Outcome s False (s.call order (.reservePrefix charge)) := by
  refine settle_guarded_outcome fun answer r ho hstep => ?_
  obtain ⟨hfresh, hrest⟩ := check_bind_ok.mp hstep
  obtain ⟨hno, hrest⟩ := check_bind_ok.mp hrest
  obtain ⟨hroom, hpair⟩ := check_bind_ok.mp hrest
  cases hpair
  rw [refuse_ok] at hfresh hno hroom
  refine ⟨rfl, fun hc => ?_⟩
  obtain ⟨hadd, hpos, hbound⟩ := hc.toInt_add hno hroom
  have hused := hc.used
  have hzero : s.prefixCharge.toInt = 0 := by
    rw [hc.unreserved (by simpa using fun h => hfresh (.inl h))]
    rfl
  exact { hc with
    unreserved := by simp
    used := by
      simp only [charges] at hused ⊢
      omega
    nonneg := (add_nonneg hc.nonneg hpos).trans_eq hadd.symm
    bound := hadd.trans_le hbound }

/-- The reservations before and after the one that is committed. -/
lemma exists_split {reserved : List Reserved} {made : Reserved} {index : ℕ}
    (hmade : reserved[index]? = some made) :
    ∃ before after, reserved = before ++ made :: after ∧
      ∀ new, reserved.set index new = before ++ new :: after := by
  obtain ⟨hindex, rfl⟩ := List.getElem?_eq_some_iff.mp hmade
  refine ⟨reserved.take index, reserved.drop (index + 1), ?_, fun new => ?_⟩
  · rw [List.getElem_cons_drop, List.take_append_drop]
  · rw [List.set_eq_take_append_cons_drop, if_pos hindex]

lemma commit_onward {index size : ℕ} {made : Reserved} {name : List UInt8}
    {attr : Attr} (ho : s.result.failure = none)
    (hmade : s.reserved[index]? = some made) (hnew : made.reservation.committed = false)
    (hname : (name.length : ℤ) = made.reservation.nameBytes.toInt)
    (hsize : metadataSize (attr.metadata.getD ∅) = .ok size)
    (hsizes : (size : ℤ) = made.reservation.metadataBytes.toInt) :
    s.Onward { s with
      result := { s.result with
        pending := s.result.pending - 1
        entries := s.result.entries ++ [⟨name, attr⟩] }
      reserved := s.reserved.set index { made with
          reservation := { made.reservation with attr, committed := true }
          entry := some ⟨name, attr⟩ } } := by
  refine ⟨rfl, fun {maxBytes fixedBytes entryBytes} hc => ?_⟩
  obtain ⟨before, after, hsplit, hset⟩ := exists_split hmade
  have hexact := hc.exact
  simp only [hsplit, List.mem_append, List.mem_cons, or_imp, forall_and, forall_eq] at hexact
  obtain ⟨hbefore, hold, hafter⟩ := hexact
  have hnone : made.entry = none := by simpa [hnew] using hold.committed
  obtain ⟨hperm, hp⟩ := hc.kept ho
  rw [hset]
  refine { hc with
    used := ?_, exact := ?_, kept := fun _ => ⟨?_, ?_⟩, dropped := absurd ho }
  · simpa [charges, hsplit] using hc.used
  · have hnow : Reserved.Exact entryBytes { made with
        reservation := { made.reservation with attr, committed := true }
        entry := some ⟨name, attr⟩ } :=
      ⟨hold.charged, hold.nonneg, rfl, by simp [hname, hsize, hsizes]⟩
    simpa [or_imp, forall_and] using ⟨hbefore, hnow, hafter⟩
  · -- the entry goes to the end of the slice, and into the middle of the list of
    -- reservations
    simp only [committedEntries, hsplit, List.filterMap_append, hnone,
      List.filterMap_cons_none] at hperm
    simp only [committedEntries, List.filterMap_append]
    exact (List.perm_append_singleton _ _).trans ((hperm.cons _).trans List.perm_middle.symm)
  · simp only [outstanding, hsplit, List.countP_append, List.countP_cons, hnone] at hp
    simp [outstanding, hp, ← add_assoc]

lemma commit_outcome (s : ListState) (index : ℕ) (name : List UInt8)
    (metadata : Option Metadata) :
    Outcome s (∀ made, s.reserved[index]? = some made →
        made.reservation.committed = true) (s.commit index name metadata) := by
  unfold commit ListReservation.Commit
  cases hmade : s.reserved[index]? with
  | none => exact .went .refl none (by simp)
  | some made =>
    by_cases hnew : made.reservation.committed = true
    · simp only [hnew, if_true]
      exact .went .refl _ (by simp [hnew])
    simp only [hnew, if_false, Bool.false_eq_true]
    split_ifs with hname
    · exact .failed .refl _
    refine settle_guarded_outcome fun answer r ho hstep => ?_
    obtain ⟨size, hsize, hrest⟩ := bind_ok.mp hstep
    obtain ⟨hsizes, hpair⟩ := check_bind_ok.mp hrest
    cases hpair
    exact commit_onward ho hmade (by simpa using hnew) (not_not.mp hname) hsize
      (not_not.mp (refuse_ok.mp hsizes))

/-- The calls that do not read the failure of the listing. -/
def Idle (s : ListState) : ListCall → Prop
  | .commit index _ _ => ∀ made, s.reserved[index]? = some made →
    made.reservation.committed = true
  | .fail err => err = none
  | _ => False

lemma call_outcome (order : NameSort) (s : ListState) (call : ListCall) :
    Outcome s (s.Idle call) (s.call order call) := by
  cases call with
  | projectAttrs project =>
    refine settle_guarded_outcome fun answer r ho hstep => ?_
    obtain ⟨-, hpair⟩ := check_bind_ok.mp hstep
    cases hpair
    exact ⟨rfl, fun hc => { hc with }⟩
  | reservePrefix charge => exact s.prefix_outcome order charge
  | reserve nameBytes metadataBytes attr => exact s.reserve_outcome _ _ _
  | commit index name metadata => exact s.commit_outcome _ _ _
  | add entry =>
    simp only [ListState.call, add]
    cases metadataSize (entry.attr.metadata.getD ∅) with
    | error err => exact .failed .refl err
    | ok size => exact (s.reserve_outcome _ _ _).andThen fun s' => s'.commit_outcome _ _ _
  | fail err =>
    cases err with
    | none => exact .went .refl none fun _ => rfl
    | some err => exact .failed .refl err
  | entries =>
    simp only [ListState.call, ListResult.Entries]
    cases hfai : s.result.failure with
    | some err => exact .refused hfai
    | none =>
      split_ifs
      · exact .went .refl _ (absurd hfai)
      have hon : s.Onward { s with result := s.result.sorted order } :=
        ⟨rfl, fun hc => { hc with
          kept := fun ho => ⟨(order.perm _).trans (hc.kept ho).1, (hc.kept ho).2⟩
          dropped := absurd hfai }⟩
      exact .went hon none (absurd hfai)

/-! ## Runs -/

lemma Sound.exec (hc : s.Sound maxBytes fixedBytes entryBytes) (order : NameSort)
    (call : ListCall) : (s.exec order call).Sound maxBytes fixedBytes entryBytes := by
  have hout := s.call_outcome order call
  unfold ListState.exec
  generalize s.call order call = pair at hout
  cases hout with
  | refused _ => exact hc
  | failed hon err =>
    exact { hon.sound hc with
      kept := by simp [ListResult.fail]
      dropped := fun _ => rfl }
  | went hon _ _ => exact hon.sound hc

lemma Sound.start (hnew : NewListResult maxBytes fixedBytes (some entryBytes) = .ok r) :
    Sound maxBytes fixedBytes entryBytes ⟨r, [], 0⟩ := by
  obtain ⟨_, hrest⟩ := check_bind_ok.mp hnew
  obtain ⟨hfixed, hresult⟩ := check_bind_ok.mp hrest
  obtain ⟨hno, hbound⟩ := not_or.mp (refuse_ok.mp hfixed)
  cases hresult
  exact {
    maxBytes_eq := rfl
    entryBytes_eq := rfl
    unreserved := fun _ => rfl
    used := by simp [charges]
    nonneg := Int64.le_iff_toInt_le.mp (Int64.not_lt.mp hno)
    bound := Int64.le_iff_toInt_le.mp (Int64.not_lt.mp hbound)
    exact := by simp
    kept := fun _ => ⟨.refl _, rfl⟩
    dropped := fun h => absurd rfl h }

/-- A complete listing holds what was committed, and nothing is outstanding. -/
lemma Sound.entries (hc : s.Sound maxBytes fixedBytes entryBytes) (order : NameSort)
    {entries : List Entry} (hentries : (s.result.Entries order).1 = .ok entries) :
    entries.Perm s.committedEntries ∧ entries.Pairwise (fun a b => a.name ≤ b.name) ∧
      ∀ made ∈ s.reserved, made.reservation.committed = true := by
  unfold ListResult.Entries at hentries
  cases hfai : s.result.failure with
  | some err => simp [hfai] at hentries
  | none =>
    obtain ⟨hperm, hp⟩ := hc.kept hfai
    simp only [hfai] at hentries
    split_ifs at hentries with hzero
    cases hentries
    refine ⟨(order.perm _).trans hperm, order.sorted _, fun made hmade => ?_⟩
    have hcount : s.outstanding = 0 := by omega
    have hsome := List.countP_eq_zero.mp hcount made hmade
    rw [(hc.exact made hmade).committed]
    simpa [Option.ne_none_iff_isSome] using hsome

variable {idle : Prop} {pair : Option Failure × ListState} {err : Failure}

/-- A failed listing keeps its failure, and answers with it. -/
lemma Outcome.of_failed (hout : Outcome s idle pair) (hfa : s.result.failure = some err) :
    pair.2.result.failure = some err ∧ (¬idle → pair.1 = some err) := by
  cases hout with
  | refused hfailed' => exact ⟨hfa, fun _ => hfailed'.symm.trans hfa⟩
  | failed hon err' => simp [ListResult.fail, hon.failure, hfa]
  | went hon reply hidle =>
    exact ⟨hon.failure.trans hfa, fun hnot => absurd (hidle (by simp [hfa])) hnot⟩

/-- The call that fails a listing returns the failure that is kept. -/
lemma Outcome.of_open (hout : Outcome s idle pair) (ho : s.result.failure = none)
    (hfa : pair.2.result.failure = some err) : pair.1 = some err := by
  cases hout with
  | refused hfailed' => simp [ho] at hfailed'
  | failed hon err' => exact hfa
  | went hon reply hidle => simp [hon.failure, ho] at hfa

lemma failure_of_run (order : NameSort) (hfa : s.result.failure = some err)
    (calls : List ListCall) : (calls.foldl (exec order) s).result.failure = some err :=
  Runs.invariant (motive := fun s : ListState => s.result.failure = some err)
    (fun s call h => ((s.call_outcome order call).of_failed h).1) hfa calls

end ListState

/-- In every state the charges fill the bytes in use; a listing is exposed only
when it is complete, and never after its first failure. -/
theorem listing_complete_or_refused (order : NameSort) {maxBytes fixedBytes : Int64}
    {entryBytes : EntryBytes} {r : ListResult}
    (hnew : NewListResult maxBytes fixedBytes (some entryBytes) = .ok r) (calls : List ListCall) :
    let s := calls.foldl (ListState.exec order) ⟨r, [], 0⟩
    (∀ entries, (s.result.Entries order).1 = .ok entries → entries.Perm s.committedEntries ∧
          entries.Pairwise (fun a b => a.name ≤ b.name) ∧
          ∀ made ∈ s.reserved, made.reservation.committed = true) ∧
      (s.result.usedBytes.toInt = s.charges fixedBytes ∧
        s.result.usedBytes.toInt ≤ maxBytes.toInt) ∧
      (∀ made ∈ s.reserved, made.Exact entryBytes) ∧
      (∀ call err, s.result.failure = none → (s.exec order call).result.failure = some err →
          (s.call order call).1 = some err) ∧
      ∀ err, s.result.failure = some err →
        (∀ call, ¬s.Idle call → (s.call order call).1 = some err) ∧
          ∀ later : List ListCall, let s' := later.foldl (ListState.exec order) s
            s'.result.entries = [] ∧ (s'.result.Entries order).1 = .error err := by
  intro s
  have hc : s.Sound maxBytes fixedBytes entryBytes :=
    Runs.invariant (fun s call hc => hc.exec order call) (.start hnew) calls
  refine ⟨fun entries => hc.entries order, ⟨hc.used, hc.bound⟩,
    hc.exact, fun call err => (s.call_outcome order call).of_open,
    fun err hfa => ⟨fun call => ((s.call_outcome order call).of_failed hfa).2,
      fun later => ?_⟩⟩
  have hlater := ListState.failure_of_run order hfa later
  have hc' : (later.foldl (ListState.exec order) s).Sound maxBytes fixedBytes
      entryBytes :=
    Runs.invariant (fun s call hc => hc.exec order call) hc later
  exact ⟨hc'.dropped (by simp [hlater]), by simp [ListResult.Entries, hlater]⟩

theorem listing_of_two_reservations :
    let attr : Attr := ⟨7, 1, none, none, none, 0, 0, true, ⟨5, 2⟩, ⟨6, 2⟩⟩
    let entryBytes : EntryBytes := fun _ name metadata _ => .ok (name + metadata)
    let s := [ListCall.reserve 1 6 attr, .reserve 2 6 attr, .commit 1 [97, 98] none].foldl
      (ListState.exec .merge) ⟨⟨64, 2, entryBytes, [], [], 0, false, none⟩, [], 0⟩
    s.result.usedBytes.toInt = s.charges 2 ∧ s.result.usedBytes.toInt ≤ 64 := by
  intro attr entryBytes s
  have hnew : NewListResult 64 2 (some entryBytes) =
      .ok ⟨64, 2, entryBytes, [], [], 0, false, none⟩ := rfl
  exact (listing_complete_or_refused .merge hnew _).2.1

end RemoteFs.Storage
