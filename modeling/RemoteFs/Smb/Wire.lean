import RemoteFs.Lib.Bytes
import RemoteFs.Storage.Failure

/-!
# Requests as bytes

What `packages/smb/internal/wire` reads from a frame: headers, the commands of a
compound, and the bodies whose lengths decide what a request costs.  Fields keep
their machine widths.  A slice expression outside its slice would be a panic in
Go; here it is the error `outOfRange`, so that a parser that never panics is one
that never returns it.
-/

namespace RemoteFs

open Storage (refuse)

namespace Smb

abbrev Bytes := List UInt8

inductive Fault where
  /-- `wire.ErrMalformed`. -/
  | malformed
  | outOfRange
  /-- "SMB request capacity exhausted". -/
  | exhausted
  deriving DecidableEq, Repr

namespace Wire

def headerSize : ℕ := 64

def maxDirectTCPPayload : ℕ := 0xffffff

/-! ## Commands and flags -/

namespace Command

def negotiate : UInt16 := 0
def sessionSetup : UInt16 := 1
def logoff : UInt16 := 2
def treeConnect : UInt16 := 3
def treeDisconnect : UInt16 := 4
def read : UInt16 := 8
def write : UInt16 := 9
def cancel : UInt16 := 12
def echo : UInt16 := 13
def queryDirectory : UInt16 := 14
def queryInfo : UInt16 := 16
def oplockBreak : UInt16 := 18

end Command

namespace Flag

def response : UInt32 := 1
def async : UInt32 := 2
def related : UInt32 := 4
def dfs : UInt32 := 0x10000000
def replay : UInt32 := 0x20000000

end Flag

/-! ## Little-endian fields -/

variable (data : Bytes)

def slice (low high : ℕ) : Except Fault Bytes := RemoteFs.Bytes.slice .outOfRange data low high

def byte (index : ℕ) : Except Fault UInt8 :=
  match data[index]? with
  | none => .error .outOfRange
  | some value => .ok value

def uint16 (low : ℕ) : Except Fault UInt16 := do
  pure (UInt16.ofNat (RemoteFs.Bytes.value (← slice data low (low + 2))))

def uint32 (low : ℕ) : Except Fault UInt32 := do
  pure (UInt32.ofNat (RemoteFs.Bytes.value (← slice data low (low + 4))))

def uint64 (low : ℕ) : Except Fault UInt64 := do
  pure (UInt64.ofNat (RemoteFs.Bytes.value (← slice data low (low + 8))))

/-! ## Headers -/

structure Header where
  creditCharge : UInt16
  status : UInt32
  command : UInt16
  credits : UInt16
  flags : UInt32
  nextCommand : UInt32
  messageID : UInt64
  processID : UInt32
  treeID : UInt32
  asyncID : UInt64
  sessionID : UInt64
  signature : Bytes
  deriving DecidableEq

def Header.isRelated (header : Header) : Bool := header.flags &&& Flag.related ≠ 0

/-- The first four bytes of every packet. -/
def protocolID : Bytes := [0xfe, 0x53, 0x4d, 0x42]

def parseHeader (packet : Bytes) : Except Fault Header := do
  refuse (packet.length < headerSize) Fault.malformed
  refuse ((← slice packet 0 4) ≠ protocolID) Fault.malformed
  refuse ((← uint16 packet 4).toNat ≠ headerSize) Fault.malformed
  let flags ← uint32 packet 16
  let isAsync := flags &&& Flag.async ≠ 0
  pure
    { creditCharge := ← uint16 packet 6
      status := ← uint32 packet 8
      command := ← uint16 packet 12
      credits := ← uint16 packet 14
      flags
      nextCommand := ← uint32 packet 20
      messageID := ← uint64 packet 24
      sessionID := ← uint64 packet 40
      asyncID := ← if isAsync then uint64 packet 32 else pure 0
      processID := ← if isAsync then pure 0 else uint32 packet 32
      treeID := ← if isAsync then pure 0 else uint32 packet 36
      signature := ← slice packet 48 64 }

/-! ## Frames -/

structure Limits where
  maxBytes : ℕ
  maxCommands : ℕ
  maxContexts : ℕ

structure Request where
  header : Header
  body : Bytes
  packet : Bytes
  maxContexts : ℕ
  deriving DecidableEq

/-- Where the next command of a compound begins. -/
def commandBytes (header : Header) (remaining : Bytes) : Except Fault ℕ := do
  if header.nextCommand = 0 then pure remaining.length
  else
    let next := header.nextCommand.toNat
    refuse (next < headerSize + 2 ∨ next % 8 ≠ 0 ∨
      remaining.length < next + headerSize) Fault.malformed
    pure next

/-- The loop of `ParseFrame`: the requests so far, and whether the commands after
the first are related. -/
def parseCommands (limits : Limits) :
    ℕ → List Request → Bool → Bytes → Except Fault (List Request)
  | 0, _, _, _ => .error .malformed
  | fuel + 1, requests, compoundRelated, remaining => do
    refuse (limits.maxCommands ≤ requests.length) Fault.malformed
    let header ← parseHeader remaining
    refuse (Command.oplockBreak < header.command ∨
      header.flags &&& Flag.response ≠ 0 ∨
      (requests = [] ∧ header.isRelated)) Fault.malformed
    refuse (1 < requests.length ∧ header.isRelated ≠ compoundRelated)
      Fault.malformed
    let compoundRelated :=
      if requests.length = 1 then header.isRelated else compoundRelated
    let count ← commandBytes header remaining
    refuse (count < headerSize + 2) Fault.malformed
    let command ← slice remaining 0 count
    let body ← slice command headerSize command.length
    let requests := requests ++ [⟨header, body, command, limits.maxContexts⟩]
    if header.nextCommand = 0 then pure requests
    else
      parseCommands limits fuel requests compoundRelated
        (← slice remaining count remaining.length)

def parseFrame (packet : Bytes) (limits : Limits) : Except Fault (List Request) := do
  refuse (limits.maxBytes < headerSize ∨ 0xffffff < limits.maxBytes ∨
    limits.maxCommands < 1 ∨ limits.maxContexts < 1 ∨
    packet.length < headerSize ∨ limits.maxBytes < packet.length) Fault.malformed
  -- every command takes at least a header from what remains
  parseCommands limits packet.length [] false packet

/-! ## Bodies -/

namespace Request

def fixed (request : Request) (command structureSize : UInt16) (minimum : ℕ) :
    Except Fault Unit := do
  refuse (request.header.command ≠ command ∨ request.body.length < minimum)
    Fault.malformed
  refuse ((← uint16 request.body 0) ≠ structureSize) Fault.malformed

/-- A buffer that a body names by its place in the packet. -/
def field (request : Request) (offset length : UInt32) (minimum : ℕ) : Except Fault Bytes := do
  let start := offset.toNat
  if length = 0 then
    refuse (offset ≠ 0 ∧ (start < minimum ∨ request.packet.length < start))
      Fault.malformed
    pure []
  else
    -- the sum of two 32-bit numbers fits a 64-bit word
    let stop := start + length.toNat
    refuse (start < minimum ∨ request.packet.length < stop) Fault.malformed
    slice request.packet start stop

end Request

abbrev FileID := Bytes

def FileID.hasPartialRelatedPlaceholder (id : FileID) : Bool :=
  (id.take 8 = List.replicate 8 0xff) != (id.drop 8 = List.replicate 8 0xff)

structure ReadRequest where
  padding : UInt8
  flags : UInt8
  length : UInt32
  offset : UInt64
  fileID : FileID
  minimumCount : UInt32
  channel : UInt32
  remainingBytes : UInt32
  channelInfoOffset : UInt16
  channelInfoLength : UInt16
  channelInfo : Bytes

structure WriteRequest where
  dataOffset : UInt16
  length : UInt32
  offset : UInt64
  fileID : FileID
  channel : UInt32
  remainingBytes : UInt32
  channelInfoOffset : UInt16
  channelInfoLength : UInt16
  flags : UInt32
  data : Bytes
  channelInfo : Bytes

structure QueryInfoRequest where
  infoType : UInt8
  fileInfoClass : UInt8
  outputBufferLength : UInt32
  inputBufferLength : UInt32
  fileID : FileID

structure QueryDirectoryRequest where
  fileInformationClass : UInt8
  flags : UInt8
  fileIndex : UInt32
  fileID : FileID
  pattern : List Char
  outputBufferLength : UInt32

def channelNone : UInt32 := 0

/-! ### UTF-16 -/

def isHighSurrogate (unit : UInt16) : Bool := 0xd800 ≤ unit && unit ≤ 0xdbff

def isLowSurrogate (unit : UInt16) : Bool := 0xdc00 ≤ unit && unit ≤ 0xdfff

/-- Units of a text without NUL whose surrogates come in pairs. -/
def validUnits : List UInt16 → Bool
  | [] => true
  | [unit] => unit ≠ 0 && !isHighSurrogate unit && !isLowSurrogate unit
  | unit :: next :: rest =>
    if isHighSurrogate unit then isLowSurrogate next && validUnits rest
    else unit ≠ 0 && !isLowSurrogate unit && validUnits (next :: rest)

/-- `utf16.Decode`. -/
def utf16Decode : List UInt16 → List Char
  | [] => []
  | [unit] =>
    [if isHighSurrogate unit || isLowSurrogate unit then Char.ofNat 0xfffd
      else Char.ofNat unit.toNat]
  | unit :: next :: rest =>
    if isHighSurrogate unit && isLowSurrogate next then
      Char.ofNat ((unit.toNat - 0xd800) * 0x400 + (next.toNat - 0xdc00) + 0x10000)
        :: utf16Decode rest
    else
      (if isHighSurrogate unit || isLowSurrogate unit then Char.ofNat 0xfffd
        else Char.ofNat unit.toNat) :: utf16Decode (next :: rest)

/-- The units of an even number of bytes. -/
def words : Bytes → List UInt16
  | low :: high :: rest => UInt16.ofNat (low.toNat + 256 * high.toNat) :: words rest
  | _ => []

def decodeUTF16 (data : Bytes) : Except Fault (List Char) := do
  refuse (data.length % 2 ≠ 0) Fault.malformed
  refuse (¬validUnits (words data)) Fault.malformed
  pure (utf16Decode (words data))

namespace Request

/-! ### The bodies that decide the cost of a request -/

def channelInfo (request : Request) (channel : UInt32) (offset length : UInt16) :
    Except Fault Bytes :=
  if channel = channelNone then pure []
  else request.field offset.toUInt32 length.toUInt32 (headerSize + 48)

def read (request : Request) : Except Fault ReadRequest := do
  request.fixed Command.read 49 48
  let fileID ← slice request.body 16 32
  refuse (FileID.hasPartialRelatedPlaceholder fileID) Fault.malformed
  let channel ← uint32 request.body 36
  let channelInfoOffset ← uint16 request.body 44
  let channelInfoLength ← uint16 request.body 46
  pure
    { padding := ← byte request.body 2
      flags := ← byte request.body 3
      length := ← uint32 request.body 4
      offset := ← uint64 request.body 8
      fileID
      minimumCount := ← uint32 request.body 32
      channel
      remainingBytes := ← uint32 request.body 40
      channelInfoOffset
      channelInfoLength
      channelInfo :=
        ← request.channelInfo channel channelInfoOffset channelInfoLength }

def write (request : Request) : Except Fault WriteRequest := do
  request.fixed Command.write 49 48
  let dataOffset ← uint16 request.body 2
  let length ← uint32 request.body 4
  let fileID ← slice request.body 16 32
  let channel ← uint32 request.body 32
  let channelInfoOffset ← uint16 request.body 40
  let channelInfoLength ← uint16 request.body 42
  refuse (FileID.hasPartialRelatedPlaceholder fileID) Fault.malformed
  refuse (channel = channelNone ∧
    (256 < dataOffset.toNat ∨ request.packet.length < dataOffset.toNat))
    Fault.malformed
  let data ← if length ≠ 0 then
      request.field dataOffset.toUInt32 length (headerSize + 48)
    else pure []
  pure
    { dataOffset
      length
      offset := ← uint64 request.body 8
      fileID
      channel
      remainingBytes := ← uint32 request.body 36
      channelInfoOffset
      channelInfoLength
      flags := ← uint32 request.body 44
      data
      channelInfo :=
        ← request.channelInfo channel channelInfoOffset channelInfoLength }

def queryInfo (request : Request) : Except Fault QueryInfoRequest := do
  request.fixed Command.queryInfo 41 40
  let fileID ← slice request.body 24 40
  refuse (FileID.hasPartialRelatedPlaceholder fileID) Fault.malformed
  pure
    { infoType := ← byte request.body 2
      fileInfoClass := ← byte request.body 3
      outputBufferLength := ← uint32 request.body 4
      inputBufferLength := ← uint32 request.body 12
      fileID }

def queryDirectory (request : Request) : Except Fault QueryDirectoryRequest := do
  request.fixed Command.queryDirectory 33 32
  let flags ← byte request.body 3
  let fileID ← slice request.body 8 24
  let outputBufferLength ← uint32 request.body 28
  -- restart, single entry, index specified and reopen are the only flags
  refuse (flags &&& ~~~0x17 ≠ 0 ∨ FileID.hasPartialRelatedPlaceholder fileID ∨
    maxDirectTCPPayload - headerSize - 8 < outputBufferLength.toNat)
    Fault.malformed
  let offset ← uint16 request.body 24
  let length ← uint16 request.body 26
  refuse (offset &&& 1 ≠ 0 ∨ length &&& 1 ≠ 0 ∨ (length = 0 ∧ offset ≠ 0))
    Fault.malformed
  let pattern ← request.field offset.toUInt32 length.toUInt32 (headerSize + 32)
  pure
    { fileInformationClass := ← byte request.body 2
      flags
      fileIndex := ← uint32 request.body 4
      fileID
      pattern := ← decodeUTF16 pattern
      outputBufferLength }

end Request

/-! ## The first packet of an older client -/

/-- "SMB 2.???". -/
def dialectWildcard : Bytes := [83, 77, 66, 32, 50, 46, 63, 63, 63]

/-- The dialects of a multi-protocol negotiation: whether one of them is
"SMB 2.???". -/
def parseDialects : ℕ → Bool → Bytes → Except Fault Bool
  | _, found, [] => .ok found
  | 0, _, _ :: _ => .error .malformed
  | fuel + 1, found, kind :: rest => do
    refuse (kind ≠ 2) Fault.malformed
    let stop := rest.idxOf 0
    -- no terminator, or an empty name
    refuse (rest.length ≤ stop ∨ stop = 0) Fault.malformed
    parseDialects fuel (found || rest.take stop == dialectWildcard)
      (rest.drop (stop + 1))

def parseMultiProtocolNegotiate (packet : Bytes) : Except Fault Unit := do
  refuse (packet.length < 35) Fault.malformed
  refuse ((← slice packet 0 4) ≠ [0xff, 0x53, 0x4d, 0x42] ∨
    (← byte packet 4) ≠ 0x72 ∨ (← byte packet 9) &&& 0x80 ≠ 0 ∨
    (← byte packet 32) ≠ 0) Fault.malformed
  let byteCount := (← uint16 packet 33).toNat
  refuse (byteCount = 0 ∨ byteCount ≠ packet.length - 35) Fault.malformed
  let found ← parseDialects packet.length false (packet.drop 35)
  refuse (¬found) Fault.malformed

end Wire

end Smb
end RemoteFs
