import RemoteFs.Lib.Table
import RemoteFs.Storage.Ranges

/-!
# The change log of a volume

`packages/metastore/sqlite/internal/changes`: recording a change, trimming the
log of a volume to its window, and reading a page.  All volumes of a database
share one sequence of positions.  A statement that fails leaves the database as
it was, since its transaction is rolled back; a stored row is the change that was
recorded, in typed columns.
-/

namespace RemoteFs

open Storage (Errno Failure Text refuse)

namespace Metastore

abbrev Time := ℤ

inductive ChangeKind where
  | created
  | removed
  | modified
  | renamed
  deriving DecidableEq

inductive NodeKind where
  | regular
  | directory
  | symlink
  deriving DecidableEq

def maxInt64 : ℕ := 9223372036854775807
def maxMetadataBytes : ℕ := 65536
def maxLinkTargetBytes : ℕ := 32768
def maxObservationTokenBytes : ℕ := 64
def maxLeafBytes : ℕ := 4096

/-- The metadata of a node as `EncodeMetadata` writes it. -/
structure EncodedMetadata where
  bytes : Text
  bounds : 6 ≤ bytes.length ∧ bytes.length ≤ maxMetadataBytes

structure Node where
  id : ℤ
  kind : NodeKind
  size : ℤ
  accessTime : Time
  modTime : Time
  birthTime : Option Time
  changeTime : Option Time
  metadata : EncodedMetadata
  linkTarget : Text
  directoryRevision : Text
  /-- The key of the object with the bytes, empty for none. -/
  content : Text

structure Location where
  parent : ℤ
  name : Option Text

structure Change where
  kind : ChangeKind
  parent : ℤ
  name : Option Text
  source : Option Location
  node : Option Node

def validNativeDirectoryRevision (token : Text) : Bool :=
  token.length = 8 && decide (token.headD 0 &&& 128 = 0) &&
    decide (token ≠ List.replicate 8 0)

def validStoredComponent (name : Text) : Bool :=
  name ≠ [] && decide (name.length ≤ maxLeafBytes) && name ≠ [46] &&
    name ≠ [46, 46] && !name.contains 47 && !name.contains 0

variable (node : Node)

/-- What `Record` asks of the node of a change. -/
def Node.recordable : Bool :=
  !(decide (maxLinkTargetBytes < node.linkTarget.length) ||
    decide (maxObservationTokenBytes < node.directoryRevision.length) ||
    (node.kind = .directory &&
      !validNativeDirectoryRevision node.directoryRevision) ||
    (node.kind ≠ .directory && node.directoryRevision ≠ []) ||
    (node.kind = .symlink && (node.linkTarget = [] ||
      decide ((node.linkTarget.length : ℤ) ≠ node.size) ||
      node.content ≠ [])) ||
    (node.kind ≠ .symlink && node.linkTarget ≠ []))

/-! ## Reading a row back -/

/-- What `scanChangeMetadata` asks of the allocation that the trigger on the
table has computed. -/
def Node.allocationCheck (position : ℕ) : Except Failure Unit :=
  refuse (node.size < 0 ∨
      node.kind = .regular ∧ (maxInt64 : ℤ) - 4095 < node.size)
    (.mk Errno.EIO s!"change {position} stores allocation_size")

/-- What `validateChangeMetadata` asks of the node of a row. -/
def Node.metadataCheck (position : ℕ) : Except Failure Unit := do
  refuse (node.id ≤ 0 ∨ node.size < 0)
    (.mk Errno.EIO s!"change {position} carries invalid node metadata")
  refuse (node.kind = .directory ∧ (node.size ≠ 0 ∨ node.content ≠ []))
    (.mk Errno.EIO s!"change {position} carries bytes for a directory")
  refuse (node.kind = .regular ∧ node.content = [] ∧ node.size ≠ 0)
    (.mk Errno.EIO s!"change {position} carries file bytes without a content key")
  refuse (node.kind = .symlink ∧ (node.linkTarget = [] ∨
      (node.linkTarget.length : ℤ) ≠ node.size ∨ node.content ≠ []))
    (.mk Errno.EIO s!"change {position} carries invalid symbolic-link bytes")
  refuse (node.kind ≠ .symlink ∧ node.linkTarget ≠ [])
    (.mk Errno.EIO s!"change {position} carries a link target for another node kind")

/-- `changeExtraMetadata.apply` for a node. -/
def Node.extraCheck : Except Failure Unit := do
  refuse (maxLinkTargetBytes < node.linkTarget.length)
    (.mk Errno.EIO "invalid event metadata representation")
  refuse (maxObservationTokenBytes < node.directoryRevision.length ∨
      (node.kind ≠ .directory ∧ node.directoryRevision ≠ []) ∨
      (node.kind = .directory ∧
        ¬validNativeDirectoryRevision node.directoryRevision))
    (.mk Errno.EIO "invalid event directory revision")

/-- A name with at least one byte under a directory. -/
def addressable (parent : ℤ) (name : Option Text) : Bool :=
  decide (0 < parent) && decide (0 < (name.getD []).length)

variable (change : Change)

/-- The last part of `validateChangeMetadata`. -/
def Change.destinationCheck (position : ℕ) : Except Failure Unit :=
  match change.kind with
  | .created => refuse (¬addressable change.parent change.name)
      (.mk Errno.EIO s!"change {position} has no addressable destination")
  | .removed => refuse (¬addressable change.parent change.name)
      (.mk Errno.EIO s!"change {position} has no addressable destination")
  | .modified => refuse (¬(change.parent = 0 ∧ change.name = none ∨
      addressable change.parent change.name))
      (.mk Errno.EIO s!"modified change {position} has no valid location")
  | .renamed => refuse (¬(addressable change.parent change.name ∧
      change.source.any fun source => addressable source.parent source.name))
      (.mk Errno.EIO s!"renamed change {position} has an incomplete location")

/-- A check of the node of a change that has one. -/
def Change.nodeCheck (check : Node → Except Failure Unit) : Except Failure Unit :=
  match change.node with
  | none => .ok ()
  | some node => check node

/-- `scanChangeMetadata`, up to the predecessor. -/
def Change.scanCheck (volume position : ℕ) : Except Failure Unit := do
  change.nodeCheck fun node => node.allocationCheck position
  refuse (position = 0 ∨ volume = 0 ∨ change.parent < 0)
    (.mk Errno.EIO s!"change position {position} has invalid identity, parent, or recorded time")
  refuse (change.source.isSome ≠ decide (change.kind = .renamed))
    (.mk Errno.EIO s!"change {position} has an incomplete source location")
  refuse (change.node.isSome ≠ decide (change.kind ≠ .removed))
    (.mk Errno.EIO s!"change {position} has an incomplete node")
  change.nodeCheck fun node => node.metadataCheck position
  change.destinationCheck position
  change.nodeCheck Node.extraCheck

def Change.payloadCheck (position : ℕ) : Except Failure Unit := do
  refuse (change.name.any fun name => !validStoredComponent name)
    (.mk Errno.EIO s!"change {position} carries an invalid destination name")
  refuse (change.source.any fun source =>
      !validStoredComponent (source.name.getD []))
    (.mk Errno.EIO s!"change {position} carries an invalid source name")

def Change.maxIdentity : ℤ :=
  max change.parent (max ((change.source.map Location.parent).getD 0)
    ((change.node.map Node.id).getD 0))

/-! ## A page under construction -/

structure Retention where
  tail : ℕ
  trimmedThrough : ℕ
  trimmedByAge : Bool
  oldest : ℕ

structure ChangeResult where
  maxBytes : ℤ
  fixedBytes : ℤ
  usedBytes : ℤ
  changeBytes : ℕ → Change → Except Failure ℤ
  changes : List (ℕ × Change)

def newChangeResult (maxBytes fixedBytes : ℤ) (changeBytes : ℕ → Change → Except Failure ℤ) :
    Except Failure ChangeResult :=
  if maxBytes < 0 then
    .error ⟨.EINVAL, "a change-page byte bound cannot be negative"⟩
  else if fixedBytes < 0 ∨ maxBytes < fixedBytes then
    .error ⟨.EFBIG, "an empty change page exceeds its byte bound"⟩
  else .ok ⟨maxBytes, fixedBytes, fixedBytes, changeBytes, []⟩

/-- What `Reserve` asks of the node of a change. -/
def Node.reserveCheck (node : Node) : Except Failure Unit := do
  refuse (maxObservationTokenBytes < node.directoryRevision.length) ⟨.EFBIG, ""⟩
  refuse ((node.kind = .directory ∧ node.directoryRevision = []) ∨
    (node.kind ≠ .directory ∧ node.directoryRevision ≠ [])) (.mk Errno.EIO "")

/-- `Reserve`: the charge of a change, or nothing when it does not fit any
more. -/
def ChangeResult.reserve (r : ChangeResult) (change : Change) : Except Failure (Option ℤ) := do
  change.nodeCheck Node.reserveCheck
  let charge ← r.changeBytes r.changes.length change
  refuse (charge < 0) ⟨.EINVAL, "the change charge is negative"⟩
  refuse (r.maxBytes - r.fixedBytes < charge)
    ⟨.EFBIG, "one change exceeds the result bound"⟩
  if r.maxBytes - r.usedBytes < charge then pure none else pure (some charge)

/-- `Reserve` and `Commit` of a change that fits. -/
def ChangeResult.retain (r : ChangeResult) (position : ℕ) (change : Change)
    (charge : ℤ) : ChangeResult :=
  { r with
    usedBytes := r.usedBytes + charge
    changes := r.changes ++ [(position, change)] }

/-! ## The database -/

structure Entry where
  position : ℕ
  previous : ℕ
  volume : ℕ
  change : Change
  recorded : Time

structure Log where
  incarnation : Text
  committedPosition : ℕ
  trimmedThrough : ℕ
  trimmedByAge : Bool

/-- The name of a run of history: 32 lower hexadecimal digits. -/
structure Incarnation where
  text : Text
  valid : text.length = 32 ∧ text.all Storage.isLowerHex = true

structure Database where
  /-- The rows of `changes`, in the order of their positions. -/
  changes : List Entry
  logs : Table ℕ Log
  changeHighWater : ℕ
  /-- The row of `changes` in `sqlite_sequence`. -/
  changeSequence : ℕ
  nodeHighWater : ℤ

namespace Database

def empty (nodeHighWater : ℤ) : Database := ⟨[], .empty, 0, 0, nodeHighWater⟩

variable (db : Database)

/-- The rows of a volume, `WHERE volume = ? ORDER BY position`. -/
def held (volume : ℕ) : List Entry :=
  db.changes.filter fun entry => entry.volume = volume

/-- `SELECT COALESCE(MAX(position), 0)`. -/
def maxPosition (entries : List Entry) : ℕ :=
  entries.foldl (fun newest entry => max newest entry.position) 0

def noRows : Failure := .mk Errno.EIO "sql: no rows in result set"

def allocateChangePosition : Except Failure ℕ :=
  if db.changeSequence ≠ db.changeHighWater then
    .error (.mk Errno.EIO "SQLite change sequence disagrees with durable high-water mark")
  else if db.changeHighWater = maxInt64 then
    .error ⟨.ENOSPC, "the change position space is exhausted"⟩
  else .ok (db.changeHighWater + 1)

/-- `Record`, at the instant `now`. -/
def record (volume : ℕ) (change : Change) (now : Time) : Except Failure (Database × Entry) :=
  if change.node.any fun node => !node.recordable then .error (.mk Errno.EIO "")
  else
    match db.logs.get? volume with
    | none => .error noRows
    | some log =>
      match db.allocateChangePosition with
      | .error err => .error err
      | .ok position =>
        if position ≤ log.committedPosition then
          .error (.mk Errno.EIO "the volume log tail does not precede allocated position")
        else
          let entry : Entry :=
            ⟨position, log.committedPosition, volume, change, now⟩
          .ok
            ({ db with
                changes := db.changes ++ [entry]
                logs := db.logs.modify volume
                  ({ · with committedPosition := position })
                changeHighWater := position
                changeSequence := position },
              entry)

/-- `CreateLog` for a volume, whose identity is positive. -/
def createLog (volume : ℕ) (incarnation : Incarnation) : Except Failure Database :=
  if volume = 0 ∨ (db.logs.get? volume).isSome then
    .error (.mk Errno.EIO "constraint failed")
  else .ok { db with logs := db.logs.set volume ⟨incarnation.text, 0, 0, false⟩ }

/-! ### Retention -/

structure Window where
  floor : ℤ
  cap : ℤ
  age : ℤ

def defaultWindow : Window := ⟨100, 10000, 600000000000⟩

def checkWindow (w : Window) : Except Failure Unit := do
  refuse (w.floor < 1)
    ⟨.EINVAL, "a log keeping at least that many entries would have nothing to resume from"⟩
  refuse (w.cap < w.floor)
    ⟨.EINVAL, "a log capped below the entries it is required to keep"⟩
  refuse (w.age ≤ 0)
    ⟨.EINVAL, "entries older than that is every entry there will ever be"⟩

/-- The position of the nth oldest entry; zero for a count of zero or below. -/
def nthOldest (entries : List Entry) (n : ℤ) : Except Failure ℕ :=
  if n ≤ 0 then .ok 0
  else
    match entries[(n - 1).toNat]? with
    | none => .error noRows
    | some entry => .ok entry.position

/-- The newest position recorded before an instant. -/
def lastBefore (entries : List Entry) (cutoff : Time) : ℕ :=
  maxPosition (entries.filter fun entry => entry.recorded < cutoff)

/-- The deletion of a prefix and its note in the header. -/
def trimThrough (volume cut : ℕ) (byAge : Bool) : Database :=
  { db with
    changes := db.changes.filter fun entry =>
      !(entry.volume = volume && decide (entry.position ≤ cut))
    logs := db.logs.modify volume
      ({ · with trimmedThrough := cut, trimmedByAge := byAge }) }

/-- `Trim`, with its two readings of the clock. -/
def trim (volume : ℕ) (w : Window) (now later : Time) : Except Failure Database :=
  match db.held volume with
  | [] => .ok db
  | oldest :: rest =>
    let entries := oldest :: rest
    let span : ℤ := maxPosition entries - oldest.position + 1
    let overCap : Bool := w.cap < span
    let tooOld : Bool := oldest.recorded < now - w.age
    if !overCap && !tooOld then .ok db
    else
      let count : ℤ := entries.length
      match nthOldest entries (count - w.cap),
          nthOldest entries (count - w.floor) with
      | .error err, _ => .error err
      | .ok _, .error err => .error err
      | .ok byVolume, .ok byFloor =>
        let byAge := min (lastBefore entries (later - w.age)) byFloor
        let cut := max byVolume byAge
        if cut = 0 then .ok db
        else .ok (db.trimThrough volume cut (byVolume < byAge))

/-! ### Reading a page -/

/-- The part of `dbstate.Validate` that is about changes and logs. -/
def validate : Except Failure Unit := do
  refuse (db.changeSequence ≠ db.changeHighWater)
    (.mk Errno.EIO "SQLite sequences disagree with durable high-water marks")
  refuse (db.changes.any fun entry =>
      decide (db.nodeHighWater < entry.change.maxIdentity) ||
        decide (db.changeHighWater < max entry.position entry.previous))
    (.mk Errno.EIO "durable high-water marks are below surviving identities")
  refuse (db.logs.toList.any fun entry =>
      decide (db.changeHighWater <
        max entry.2.committedPosition entry.2.trimmedThrough))
    (.mk Errno.EIO "durable high-water marks are below surviving identities")

def storedPositionPair (entry : Entry) : Except Failure Unit :=
  refuse (entry.position = 0 ∨ entry.position ≤ entry.previous)
    (.mk Errno.EIO "the log stores an invalid position/predecessor pair")

structure PageState where
  retention : Retention
  /-- The predecessor of the first row of the page. -/
  expected : ℕ
  fixedWork : ℤ

def logPageState (volume after : ℕ) : Except Failure PageState := do
  db.validate
  match db.logs.get? volume with
  | none => .error noRows
  | some log =>
    refuse (log.committedPosition < log.trimmedThrough)
      (.mk Errno.EIO "the volume log header is invalid")
    refuse (log.incarnation.length ≠ 32 ∨
        ¬log.incarnation.all Storage.isLowerHex)
      (.mk Errno.EIO "the volume log incarnation is invalid")
    refuse (db.changeHighWater < log.committedPosition ∨
        db.changeHighWater < log.trimmedThrough)
      (.mk Errno.EIO "the volume log header exceeds durable change high-water")
    match db.held volume with
    | [] =>
      refuse (log.committedPosition ≠ log.trimmedThrough)
        (.mk Errno.EIO "the empty retained log ends beyond its trim anchor")
      pure ⟨⟨log.committedPosition, log.trimmedThrough, log.trimmedByAge,
        0⟩, log.trimmedThrough, 1⟩
    | oldest :: rest =>
      storedPositionPair oldest
      refuse (oldest.position ≤ log.trimmedThrough ∨
          oldest.previous ≠ log.trimmedThrough)
        (.mk Errno.EIO "the oldest retained change does not follow the trim anchor")
      let newest := maxPosition (oldest :: rest)
      refuse (newest ≠ log.committedPosition)
        (.mk Errno.EIO "the newest retained change is not the committed tail")
      let below := (oldest :: rest).filter fun entry =>
        entry.position ≤ after
      let expected :=
        if below = [] then log.trimmedThrough else maxPosition below
      refuse (db.changeHighWater < oldest.position ∨
          db.changeHighWater < oldest.previous ∨
          db.changeHighWater < newest ∨ db.changeHighWater < expected)
        (.mk Errno.EIO "the volume log anchors exceed durable change high-water")
      pure ⟨⟨log.committedPosition, log.trimmedThrough, log.trimmedByAge,
        oldest.position⟩, expected, if below = [] then 3 else 4⟩

/-- Where the loop over the rows of a page stands. -/
structure Scan where
  result : ChangeResult
  cursor : ℕ
  expected : ℕ
  examined : ℕ
  stoppedAtCapacity : Bool

/-- The loop of `ReadPage`. -/
def scanRows (db : Database) (volume : ℕ) : Scan → List Entry → Except Failure Scan
  | scan, [] => .ok scan
  | scan, row :: rows => do
    let examined := scan.examined + 1
    row.change.scanCheck volume row.position
    refuse (row.position ≤ row.previous) (.mk Errno.EIO "change has invalid predecessor")
    refuse (row.previous ≠ scan.expected)
      (.mk Errno.EIO "change follows another position than expected")
    refuse (db.changeHighWater < row.position ∨
        db.changeHighWater < row.previous)
      (.mk Errno.EIO "change or its predecessor exceeds durable high-water")
    match ← scan.result.reserve row.change with
    | none => .ok { scan with examined, stoppedAtCapacity := true }
    | some charge =>
      row.change.payloadCheck row.position
      db.scanRows volume
        ⟨scan.result.retain row.position row.change charge, row.position,
          row.position, examined, false⟩ rows

def readPage (volume : ℕ) (maxIntegrityRecords : ℤ)
    (after : ℕ) (limit : ℤ) (result : ChangeResult) :
    Except Failure (Retention × ChangeResult) := do
  let state ← db.logPageState volume after
  refuse (maxIntegrityRecords < state.fixedWork)
    ⟨.EFBIG, "the log page anchors exceed the integrity limit"⟩
  let pageLimit := min limit (maxIntegrityRecords - state.fixedWork)
  refuse (pageLimit = 0 ∧ 0 < limit ∧ after < state.retention.tail)
    ⟨.EFBIG, "the log page has no record budget remaining"⟩
  let rows := ((db.held volume).filter fun entry =>
    after < entry.position).take pageLimit.toNat
  let scan ← db.scanRows volume ⟨result, after, state.expected, 0, false⟩ rows
  refuse (scan.stoppedAtCapacity = false ∧ (scan.examined : ℤ) < pageLimit ∧
      0 < limit ∧ state.retention.trimmedThrough ≤ scan.cursor ∧
      scan.cursor < state.retention.tail)
    (.mk Errno.EIO "the log ends before its committed tail")
  pure (state.retention, scan.result)

end Database

end Metastore
end RemoteFs
