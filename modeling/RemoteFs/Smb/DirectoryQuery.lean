import RemoteFs.Smb.Connection
import RemoteFs.Smb.DirectoryPage

/-!
# Enumerating a directory

The cursor of `directory_cursor.go` and the command around it.  A request either
answers from the snapshot of its handle or first takes a new one; what the
authority and the checks of the handle answer is the input `Outside`.
-/

namespace RemoteFs.Smb

open Wire (DirectoryEntry)

inductive Status where
  | ok
  | invalid
  | unsupported
  | io
  | invalidInfoClass
  | infoLengthMismatch
  | bufferOverflow
  | noMoreFiles
  | noSuchFile
  /-- What `ioStatusError` makes of an error. -/
  | failure (code : UInt32)
  deriving DecidableEq, Repr

structure DirectorySnapshotEntry where
  record : DirectoryEntry
  richStatus : Status
  matched : Bool

/-- `directorySnapshot`, up to its observation and its charge. -/
structure DirectorySnapshot where
  entries : List DirectorySnapshotEntry

/-- The first status that keeps a snapshot from being listed with attributes. -/
def DirectorySnapshot.richStatus (snapshot : DirectorySnapshot) : Status :=
  ((snapshot.entries.map (·.richStatus)).find? (· ≠ .ok)).getD .ok

structure DirectoryCursor where
  snapshot : Option DirectorySnapshot
  pattern : List UInt16
  next : ℕ
  returned : Bool
  settled : Bool

structure Reply where
  body : Bytes
  status : Status

def Reply.error (status : Status) : Reply := ⟨[], status⟩

structure DirectoryPageCandidate where
  reply : Reply
  next : ℕ
  returned : Bool
  settled : Bool

def matching (entries : List DirectorySnapshotEntry) : List DirectoryEntry :=
  (entries.filter (·.matched)).map (·.record)

/-- The last loop of `page`: how far the cursor moves over so many matches. -/
def advance : List DirectorySnapshotEntry → ℕ → ℕ
  | [], _ => 0
  | entry :: rest, remaining =>
    if entry.matched then
      match remaining with
      | 0 => 0
      | remaining + 1 => advance rest remaining + 1
    else advance rest remaining + 1

namespace DirectoryCursor

variable (c : DirectoryCursor)

def page (snapshot : DirectorySnapshot) (infoClass : UInt8) (limit : ℕ)
    (single : Bool) : Except Fault DirectoryPageCandidate := do
  let rest := snapshot.entries.drop c.next
  let entries := matching rest
  if entries = [] then
    let status := if !c.returned && !c.settled then Status.noSuchFile
      else .noMoreFiles
    pure ⟨.error status, snapshot.entries.length, c.returned, true⟩
  else
    let page ← Wire.encodeDirectoryPage infoClass entries limit single
    let body ← Wire.queryInfoResponseBody page.data
    pure
      { reply := ⟨body, if page.isPartial then .bufferOverflow else .ok⟩
        next := c.next + advance rest page.completed
        returned := c.returned || page.completed ≠ 0
        settled := c.settled }

end DirectoryCursor

/-! ## The command -/

/-- The parts of a parsed QUERY_DIRECTORY that the command reads after the handle
was found. -/
structure DirectoryQuery where
  infoClass : UInt8
  flags : UInt8
  pattern : List Char
  outputBufferLength : UInt32

namespace DirectoryQuery

def restart (query : DirectoryQuery) : Bool := query.flags &&& 0x11 ≠ 0

def single (query : DirectoryQuery) : Bool := query.flags &&& 0x02 ≠ 0

end DirectoryQuery

/-- What the rest of the server answers to a request. -/
structure Outside where
  /-- The handle, its ticket, its authorization and its state. -/
  admission : Option Status
  /-- `compileDirectoryPattern` accepts a pattern. -/
  compiles : List UInt16 → Bool
  reserveDirectoryCursor : Option Status
  /-- The authorization and the scope for a new snapshot, and
  `captureDirectorySnapshot`. -/
  captureDirectorySnapshot : List UInt16 → Except Status DirectorySnapshot
  /-- The authorization before the answer is given. -/
  authorize : Option Status

def nameUnits (name : List Char) : List UInt16 :=
  name.flatMap fun rune =>
    if rune.toNat ≤ 0xffff then [UInt16.ofNat rune.toNat]
    else
      let value := rune.toNat - 0x10000
      [UInt16.ofNat (0xd800 + value / 0x400), UInt16.ofNat (0xdc00 + value % 0x400)]

/-- The enumeration of one handle. -/
structure Enumeration where
  directory : Option DirectoryCursor

namespace Enumeration

variable (limits : Limits) (e : Enumeration) (query : DirectoryQuery) (outside : Outside)

/-- The pattern a new snapshot is matched with. -/
def newPattern : List UInt16 :=
  let kept := match e.directory with
    | some cursor => if cursor.pattern = [] then [42] else cursor.pattern
    | none => [42]
  if query.pattern ≠ [] ∧ (e.directory.isNone ∨ query.restart) then
    nameUnits query.pattern
  else kept

/-- The part of `queryDirectory` that makes sure of a snapshot.  A request that
fails after the old snapshot was given up leaves a cursor without one. -/
def ensureSnapshot : Enumeration × Except Status (DirectoryCursor × DirectorySnapshot) :=
  match e.directory, e.directory.bind (·.snapshot), query.restart with
  | some cursor, some snapshot, false => (e, .ok (cursor, snapshot))
  | _, _, _ =>
    let pattern := newPattern e query
    if !outside.compiles pattern then (e, .error .invalid)
    else
      match e.directory.isNone, outside.reserveDirectoryCursor with
      | true, some status => (e, .error status)
      | _, _ =>
        let cursor : DirectoryCursor := ⟨none, pattern, 0, false, false⟩
        match outside.captureDirectorySnapshot pattern with
        | .error status => (⟨some cursor⟩, .error status)
        | .ok snapshot =>
          let cursor := { cursor with snapshot := some snapshot }
          (⟨some cursor⟩, .ok (cursor, snapshot))

/-- The part of `queryDirectory` that answers from a snapshot. -/
def answer (cursor : DirectoryCursor) (snapshot : DirectorySnapshot) : Enumeration × Reply :=
  if query.infoClass ≠ Wire.fileNamesInformation ∧ snapshot.richStatus ≠ .ok then
    (⟨some cursor⟩, .error snapshot.richStatus)
  else
    match cursor.page snapshot query.infoClass query.outputBufferLength.toNat
        query.single with
    | .error _ => (⟨some cursor⟩, .error .io)
    | .ok candidate =>
      match outside.authorize with
      | some status => (⟨some cursor⟩, .error status)
      | none =>
        (⟨some { cursor with
            next := candidate.next
            returned := candidate.returned
            settled := candidate.settled }⟩, candidate.reply)

def queryDirectory : Enumeration × Reply :=
  match Wire.directoryInformationHeadSize query.infoClass with
  | none =>
    if Wire.isDirectoryInformationClass query.infoClass then
      (e, .error .unsupported)
    else (e, .error .invalidInfoClass)
  | some head =>
    if limits.maxIOBytes < query.outputBufferLength.toNat then
      (e, .error .invalid)
    else
      match outside.admission with
      | some status => (e, .error status)
      | none =>
        if query.outputBufferLength.toNat < head then
          match outside.authorize with
          | some status => (e, .error status)
          | none =>
            (e, ⟨Wire.infoLengthMismatchErrorBody, .infoLengthMismatch⟩)
        else
          match e.ensureSnapshot query outside with
          | (e, .error status) => (e, .error status)
          | (_, .ok (cursor, snapshot)) =>
            answer query outside cursor snapshot

end Enumeration

end RemoteFs.Smb
