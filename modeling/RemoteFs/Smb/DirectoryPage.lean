import RemoteFs.Smb.Wire

/-!
# Pages of a directory

`EncodeDirectoryPage` of `query_directory.go`: as many records as fit under a
limit, each at a multiple of eight and with the distance to the next one in its
first word.  When not even the first record fits, the page is a cut-off copy of
it and completes nothing.
-/

namespace RemoteFs

open Storage (refuse check_bind_ok)

namespace Smb
namespace Wire

variable {entries : List DirectoryEntry} {completed size : ℕ}

/-! ## Information classes -/

def fileDirectoryInformation : UInt8 := 0x01
def fileFullDirectoryInformation : UInt8 := 0x02
def fileBothDirectoryInformation : UInt8 := 0x03
def fileNamesInformation : UInt8 := 0x0c
def fileIdBothDirectoryInformation : UInt8 := 0x25
def fileIdFullDirectoryInformation : UInt8 := 0x26

variable (infoClass : UInt8)

def isDirectoryInformationClass : Bool :=
  [fileDirectoryInformation, fileFullDirectoryInformation,
    fileBothDirectoryInformation, fileNamesInformation,
    fileIdBothDirectoryInformation, fileIdFullDirectoryInformation,
    0x3c, 0x4e, 0x4f, 0x50, 0x51].contains infoClass

/-- The bytes of a record before its name, for a supported class. -/
def directoryInformationHeadSize : Option ℕ :=
  if infoClass = fileNamesInformation then some 12
  else if infoClass = fileDirectoryInformation then some 64
  else if infoClass = fileFullDirectoryInformation then some 68
  else if infoClass = fileBothDirectoryInformation then some 94
  else if infoClass = fileIdFullDirectoryInformation then some 80
  else if infoClass = fileIdBothDirectoryInformation then some 104
  else none

/-! ## Records -/

structure DirectoryEntry where
  name : List UInt16
  creationTime : ℤ
  lastAccessTime : ℤ
  lastWriteTime : ℤ
  changeTime : ℤ
  endOfFile : ℤ
  allocationSize : ℤ
  attributes : UInt32
  eaSize : UInt32
  fileID : UInt64
  deriving DecidableEq

def checkDirectoryEntry (entry : DirectoryEntry) : Except Fault Unit := do
  refuse (entry.name = [] ∨
    (maxDirectTCPPayload - headerSize - 8 - 104) / 2 < entry.name.length)
    Fault.malformed
  refuse (¬validUnits entry.name) Fault.malformed
  if infoClass = fileNamesInformation then pure ()
  else
    refuse (entry.creationTime < 0 ∨ entry.lastAccessTime < 0 ∨
      entry.lastWriteTime < 0 ∨ entry.changeTime < 0 ∨ entry.endOfFile < 0 ∨
      entry.allocationSize < 0 ∨
      ((infoClass = fileIdFullDirectoryInformation ∨
        infoClass = fileIdBothDirectoryInformation) ∧ entry.fileID = 0))
      Fault.malformed

def putInt64 (value : ℤ) : Bytes := RemoteFs.Bytes.ofNat 8 (UInt64.ofInt value).toNat

def zeros (count : ℕ) : Bytes := List.replicate count 0

def putHead (entry : DirectoryEntry) (nextOffset : ℕ) : Bytes :=
  let nameLength := RemoteFs.Bytes.ofNat 4 (2 * entry.name.length)
  let start := RemoteFs.Bytes.ofNat 4 nextOffset ++ zeros 4
  if infoClass = fileNamesInformation then start ++ nameLength
  else
    let scalars := start ++ putInt64 entry.creationTime ++
      putInt64 entry.lastAccessTime ++ putInt64 entry.lastWriteTime ++
      putInt64 entry.changeTime ++ putInt64 entry.endOfFile ++
      putInt64 entry.allocationSize ++
      RemoteFs.Bytes.ofNat 4 entry.attributes.toNat ++ nameLength
    if infoClass = fileDirectoryInformation then scalars
    else
      let full := scalars ++ RemoteFs.Bytes.ofNat 4 entry.eaSize.toNat
      let fileID := RemoteFs.Bytes.ofNat 8 entry.fileID.toNat
      -- the short name stays empty
      if infoClass = fileBothDirectoryInformation then full ++ zeros 26
      else if infoClass = fileIdFullDirectoryInformation then
        full ++ zeros 4 ++ fileID
      else if infoClass = fileIdBothDirectoryInformation then
        full ++ zeros 28 ++ fileID
      else full

/-- `putDirectoryEntry` into a slice of `available` bytes. -/
def putDirectoryEntry (infoClass : UInt8) (entry : DirectoryEntry)
    (nextOffset available : ℕ) : Bytes :=
  (putHead infoClass entry nextOffset ++
    entry.name.flatMap fun unit => RemoteFs.Bytes.ofNat 2 unit.toNat).take available

/-! ## Pages -/

structure DirectoryPage where
  data : Bytes
  completed : ℕ
  isPartial : Bool

def align8 (value : ℕ) : ℕ := (value + 7) / 8 * 8

/-- The first loop of `EncodeDirectoryPage`: the size of the page, the number of
records, and whether the first one is cut off. -/
def measure (infoClass : UInt8) (head limit : ℕ) (single : Bool) :
    ℕ → ℕ → List DirectoryEntry → Except Fault (ℕ × ℕ × Bool)
  | size, completed, [] => .ok (size, completed, false)
  | size, completed, entry :: rest => do
    checkDirectoryEntry infoClass entry
    let stop := align8 size + (head + 2 * entry.name.length)
    if limit < stop then
      if completed = 0 then pure (limit, 0, true)
      else pure (size, completed, false)
    else if single then pure (stop, completed + 1, false)
    else measure infoClass head limit single stop (completed + 1) rest

/-- The second loop: the records one after the other. -/
def putEntries (infoClass : UInt8) (head : ℕ) : ℕ → List DirectoryEntry → Bytes
  | _, [] => []
  | _, [entry] =>
    putDirectoryEntry infoClass entry 0 (head + 2 * entry.name.length)
  | start, entry :: rest =>
    let length := head + 2 * entry.name.length
    let next := align8 (start + length)
    putDirectoryEntry infoClass entry (next - start) length ++
      zeros (next - start - length) ++ putEntries infoClass head next rest

def encodeDirectoryPage (entries : List DirectoryEntry)
    (limit : ℕ) (single : Bool) : Except Fault DirectoryPage := do
  match directoryInformationHeadSize infoClass with
  | none => .error .malformed
  | some head => do
    refuse (limit < head ∨ maxDirectTCPPayload - headerSize - 8 < limit)
      Fault.malformed
    let (size, completed, isPartial) ←
      measure infoClass head limit single 0 0 entries
    if size = 0 then pure ⟨[], completed, isPartial⟩
    else if isPartial then
      pure ⟨(entries.take 1).flatMap fun entry =>
        putDirectoryEntry infoClass entry 0 size, completed, true⟩
    else
      pure ⟨putEntries infoClass head 0 (entries.take completed), completed,
        false⟩

def queryInfoResponseBody (data : Bytes) : Except Fault Bytes := do
  refuse (maxDirectTCPPayload - headerSize - 8 < data.length) Fault.malformed
  pure (RemoteFs.Bytes.ofNat 2 9 ++ RemoteFs.Bytes.ofNat 2 (headerSize + 8) ++
    RemoteFs.Bytes.ofNat 4 data.length ++ data)

def infoLengthMismatchErrorBody : Bytes :=
  [9, 0, 1, 0, 8, 0, 0, 0, 0, 0, 0, 0, 0, 0, 0, 0]

/-! ## What a page completes -/

variable {infoClass : UInt8} {head limit : ℕ} {single : Bool}

variable {first : DirectoryEntry} {rest : List DirectoryEntry}

end Wire

end Smb
end RemoteFs
