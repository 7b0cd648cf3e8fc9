import RemoteFs.Lib.Runs
import RemoteFs.Lib.Table
import RemoteFs.Smb.Wire
import RemoteFs.Storage.Files

/-!
# Credits of a connection

`connection.run` reads frames and takes the message ids of their requests from
the set of credits; `process` and `rejectRequests` grant new ones.  The reader
and the goroutines that process frames meet only in sections under `c.mu`, and
each step below is one such section.  Sessions, signatures and the handlers are
outside: whether they fail is an input of the step.
-/

namespace RemoteFs

open Storage (Failure FileSessionOptions DefaultFileSessionOptions refuse)

namespace Smb

/-! ## Limits -/

structure Limits where
  maxExports : ℤ
  maxConnections : ℤ
  maxSessions : ℤ
  maxTrees : ℤ
  maxRequests : ℤ
  maxCompound : ℤ
  maxContexts : ℤ
  maxHandles : ℤ
  maxUnresolvedOwners : ℤ
  maxDiagnosticBytes : ℤ
  maxWriteOwners : ℤ
  maxRetainedWriteBytes : ℤ
  maxHandleIORequests : ℤ
  maxDirectoryBytes : ℤ
  maxRetainedDirectoryBytes : ℤ
  maxDirectoryMatchWork : ℕ
  maxFrameBytes : ℤ
  maxIOBytes : ℤ
  maxTokenBytes : ℤ
  handshakeTimeout : ℤ
  requestTimeout : ℤ
  cleanupTimeout : ℤ
  fileSession : FileSessionOptions

def DefaultLimits : Limits where
  maxExports := 32
  maxConnections := 16
  maxSessions := 16
  maxTrees := 32
  maxRequests := 128
  maxCompound := 32
  maxContexts := 16
  maxHandles := 256
  maxUnresolvedOwners := 256
  maxDiagnosticBytes := 65536
  maxWriteOwners := 128
  maxRetainedWriteBytes := 33554432
  maxHandleIORequests := 32
  maxDirectoryBytes := 8388608
  maxRetainedDirectoryBytes := 67108864
  maxDirectoryMatchWork := 16777216
  maxFrameBytes := 2097152
  maxIOBytes := 1048576
  maxTokenBytes := 65535
  handshakeTimeout := 30000000000
  requestTimeout := 60000000000
  cleanupTimeout := 30000000000
  fileSession := DefaultFileSessionOptions

inductive ConfigFault where
  /-- `ErrConfig`. -/
  | config
  | fileSession (failure : Failure)
  deriving DecidableEq

def diagnosticOwnerBytes : ℤ := 256

def Limits.check (l : Limits) : Except ConfigFault Unit := do
  refuse (l.maxExports < 1 ∨ l.maxConnections < 1 ∨ l.maxSessions < 1 ∨
      l.maxTrees < 1 ∨ l.maxRequests < 1 ∨ 65535 < l.maxRequests ∨
      l.maxCompound < 1 ∨ 128 < l.maxCompound ∨ l.maxRequests < l.maxCompound ∨
      l.maxDirectoryBytes < 1 ∨ l.maxRetainedDirectoryBytes < 1 ∨
      l.maxDirectoryMatchWork < 1 ∨ l.maxHandles < 1 ∨
      l.maxUnresolvedOwners < 1 ∨ l.maxDiagnosticBytes < diagnosticOwnerBytes ∨
      l.maxWriteOwners < 1 ∨ l.maxRetainedWriteBytes < 1 ∨
      l.maxHandleIORequests < 1 ∨ l.maxRequests < l.maxHandleIORequests ∨
      l.maxContexts < 1 ∨ l.maxIOBytes < 65536 ∨ 8388608 < l.maxIOBytes ∨
      l.maxFrameBytes < l.maxIOBytes + 65536 ∨ 0xffffff < l.maxFrameBytes ∨
      l.maxTokenBytes < 1 ∨ 65535 < l.maxTokenBytes ∨
      l.handshakeTimeout ≤ 0 ∨ l.requestTimeout ≤ 0 ∨ l.cleanupTimeout ≤ 0)
    ConfigFault.config
  l.fileSession.check.mapError .fileSession

lemma DefaultLimits_check : DefaultLimits.check = .ok () := by decide

lemma Limits.maxRequests_of_check {l : Limits} (h : l.check = .ok ()) :
    1 ≤ l.maxRequests ∧ l.maxRequests ≤ 65535 := by
  rw [Limits.check, Storage.check_bind_ok, Storage.refuse_ok] at h
  obtain ⟨hrange, -⟩ := h
  omega

/-! ## What a request costs -/

open Wire hiding Limits

def requestEnvelopeBytes : ℤ := 256
def maxControlFrameBytes : ℕ := 69632

def controlCommand (command : UInt16) : Bool :=
  command = Command.negotiate || command = Command.sessionSetup ||
    command = Command.logoff || command = Command.treeConnect ||
    command = Command.treeDisconnect || command = Command.cancel ||
    command = Command.echo

def creditsFor (bytes : ℕ) : ℕ := max 1 ((bytes + 65535) / 65536)

def requiredCredits (request : Request) : ℕ :=
  let command := request.header.command
  let packet := creditsFor request.packet.length
  if controlCommand command then 1
  else if command = Command.read then
    match request.read with
    | .ok parsed => creditsFor parsed.length.toNat
    | .error _ => packet
  else if command = Command.queryInfo then
    match request.queryInfo with
    | .ok parsed =>
      creditsFor
        (max parsed.inputBufferLength.toNat parsed.outputBufferLength.toNat)
    | .error _ => packet
  else if command = Command.queryDirectory then
    match request.queryDirectory with
    | .ok parsed => creditsFor parsed.outputBufferLength.toNat
    | .error _ => packet
  else if command = Command.write then
    match request.write with
    | .ok parsed => creditsFor parsed.length.toNat
    | .error _ => packet
  else packet

/-- The charge of a request that names none is one. -/
def chargeOf (header : Header) : UInt16 :=
  if header.creditCharge = 0 then 1 else header.creditCharge

/-- The message ids `MessageID+offset` for every offset below the charge. -/
def idRange (id : UInt64) (charge : UInt16) : List UInt64 :=
  (List.range charge.toNat).map fun offset => id + UInt64.ofNat offset

def checkReceivedRequests (limits : Limits) (negotiated : Bool)
    (requests : List Request) (frameBytes : ℕ) : Except Fault Unit := do
  refuse (negotiated ∧ limits.maxIOBytes + requestEnvelopeBytes < frameBytes)
    Fault.malformed
  refuse (requests.any (fun request =>
      controlCommand request.header.command &&
        (maxControlFrameBytes < request.packet.length ||
          1 < request.header.creditCharge)) = true) Fault.malformed

/-! ## The connection -/

structure PendingRequest where
  frame : UInt64
  command : UInt16
  charge : UInt16

/-- Where `run` is. -/
inductive Reading where
  /-- At the next frame. -/
  | waiting
  /-- Taking the credits of a frame, of which `rest` is left. -/
  | consuming (requests rest : List Request) (reject : Bool)
  /-- In `rejectRequests`. -/
  | rejecting (rest : List Request)
  /-- In `process` of a negotiation. -/
  | negotiating (worker : ℕ)
  | stopped

/-- A goroutine in `process`, at the first of the requests that are left. -/
structure Worker where
  requests : List Request
  rest : List Request
  /-- The pending request was found, the credits are not granted yet. -/
  found : Bool

structure Connection where
  credits : Finset UInt64
  nextCredit : UInt64
  pending : Table UInt64 PendingRequest
  negotiated : Bool
  firstPacket : Bool
  bootstrapped : Bool
  reading : Reading
  workers : Table ℕ Worker
  nextWorker : ℕ

namespace Connection

def maxUint64 : UInt64 := 0xffffffffffffffff

/-- `newConnection`. -/
def new : Connection where
  credits := {0}
  nextCredit := 1
  pending := .empty
  negotiated := false
  firstPacket := true
  bootstrapped := false
  reading := .waiting
  workers := .empty
  nextWorker := 0

variable (limits : Limits) (c : Connection)

def stop : Connection := { c with reading := .stopped }

def bootstrap : Connection :=
  { c with credits := {1}, nextCredit := 2, bootstrapped := true }

/-- `run`, from a frame to its requests. -/
def receive (packet : Bytes) : Except Fault Connection := do
  refuse (packet.length < 35 ∨ limits.maxFrameBytes < packet.length)
    Fault.malformed
  let initial := c.firstPacket
  let c := { c with firstPacket := false }
  if packet.take 4 = [0xff, 0x53, 0x4d, 0x42] then
    refuse (¬initial) Fault.malformed
    Wire.parseMultiProtocolNegotiate packet
    pure c.bootstrap
  else
    let requests ← Wire.parseFrame packet
      ⟨limits.maxFrameBytes.toNat, limits.maxCompound.toNat,
        limits.maxContexts.toNat⟩
    checkReceivedRequests limits c.negotiated requests packet.length
    refuse (requests.any (fun request =>
        request.header.command = Command.negotiate &&
          (c.negotiated || request.header.flags &&&
            (Flag.async ||| Flag.replay ||| Flag.dfs) ≠ 0)) = true)
      Fault.malformed
    refuse (1 < requests.length ∧ requests.any (fun request =>
        request.header.command = Command.negotiate ||
          request.header.command = Command.sessionSetup) = true)
      Fault.malformed
    refuse (c.bootstrapped ∧ ¬(requests.length = 1 ∧ requests.all (fun request =>
        request.header.command = Command.negotiate) = true)) Fault.malformed
    let reject := limits.maxRequests < c.pending.size + requests.length
    pure { c with
      bootstrapped := false
      reading := .consuming requests requests reject }

/-- The credits after a request has taken its ids. -/
def takeCredits (request : Request) : Except Fault (Finset UInt64) := do
  let charge := chargeOf request.header
  let ids := idRange request.header.messageID charge
  refuse (maxUint64 - charge.toUInt64 < request.header.messageID) Fault.exhausted
  refuse (charge.toNat < requiredCredits request) Fault.malformed
  refuse (¬ids.all (· ∈ c.credits)) Fault.malformed
  pure (c.credits \ ids.toFinset)

/-- The section that charges one request of a frame. -/
def consume (frame : UInt64) (request : Request) (reject : Bool) : Except Fault Connection := do
  let credits ← c.takeCredits request
  pure { c with
    credits
    pending := if reject then c.pending
      else c.pending.set request.header.messageID
        ⟨frame, request.header.command, chargeOf request.header⟩ }

def grantIds : ℕ → UInt64 → List UInt64
  | 0, _ => []
  | count + 1, next =>
    if next = maxUint64 then [] else next :: grantIds count (next + 1)

def grantCount (requested : UInt16) : ℤ :=
  let count : ℤ := max requested.toNat 1
  let capacity := limits.maxRequests - c.credits.card
  if capacity < count then capacity else count

/-- The connection after a grant, and the number that is granted. -/
def grantCredits (requested : UInt16) : Connection × UInt16 :=
  let count := grantCount limits c requested
  let ids := grantIds count.toNat c.nextCredit
  ({ c with
    credits := c.credits ∪ ids.toFinset
    nextCredit := c.nextCredit + UInt64.ofNat ids.length },
    -- the loop ends early at the last id
    if ids.length < count.toNat then UInt16.ofNat ids.length else UInt16.ofInt count)

/-- A goroutine for a frame whose credits are taken. -/
def spawn (requests : List Request) : Connection :=
  { c with
    workers := c.workers.set c.nextWorker ⟨requests, requests, false⟩
    nextWorker := c.nextWorker + 1 }

/-- `run`, after the last request of a frame was charged. -/
def dispatch (requests : List Request) (reject : Bool) : Connection :=
  if reject then { c with reading := .rejecting requests }
  else if requests.head?.any (fun request =>
      request.header.command = Command.negotiate) then
    if requests.length ≠ 1 then c.stop
    else { c.spawn requests with reading := .negotiating c.nextWorker }
  else { c.spawn requests with reading := .waiting }

/-- One request of the frame that is being read. -/
def read : Connection :=
  match c.reading with
  | .consuming requests (request :: rest) reject =>
    let frame := (requests.head?.map (·.header.messageID)).getD 0
    if request.header.command = Command.cancel then c.stop
    else
      match c.consume frame request reject with
      | .error _ => c.stop
      | .ok c => { c with reading := .consuming requests rest reject }
  | .consuming requests [] reject => c.dispatch requests reject
  | _ => c

/-- One request of `rejectRequests`; it fails where a signature does. -/
def rejectRequest (fails : Bool) : Connection :=
  match c.reading with
  | .rejecting (request :: rest) =>
    if fails then c.stop
    else
      { (c.grantCredits limits request.header.credits).1 with
        reading := .rejecting rest }
  | .rejecting [] => { c with reading := if fails then .stopped else .waiting }
  | _ => c

def retireRequests (requests : List Request) : Connection :=
  { c with
    pending := requests.foldl
      (fun pending request => pending.erase request.header.messageID) c.pending }

/-- A goroutine returns with an error: the connection is closed. -/
def abort (worker : ℕ) : Connection :=
  match c.workers.get? worker with
  | none => c
  | some w =>
    { (c.retireRequests w.requests).stop with
      workers := c.workers.erase worker }

/-- `process` finds the pending request of its next request. -/
def find (worker : ℕ) : Connection :=
  match c.workers.get? worker with
  | some ⟨requests, request :: rest, false⟩ =>
    match c.pending.get? request.header.messageID with
    | none => c.abort worker
    | some _ =>
      { c with
        workers := c.workers.set worker ⟨requests, request :: rest, true⟩ }
  | _ => c

/-- `process` grants the credits of a response. -/
def grant (worker : ℕ) : Connection :=
  match c.workers.get? worker with
  | some ⟨requests, request :: rest, true⟩ =>
    { (c.grantCredits limits request.header.credits).1 with
      workers := c.workers.set worker ⟨requests, rest, false⟩ }
  | _ => c

/-- `process` has written its response; a negotiation may have succeeded. -/
def finish (worker : ℕ) (negotiated : Bool) : Connection :=
  match c.workers.get? worker, c.reading with
  | some ⟨requests, [], _⟩, .negotiating reader =>
    { c.retireRequests requests with
      workers := c.workers.erase worker
      negotiated := c.negotiated || (negotiated && reader = worker)
      reading := if reader = worker then .waiting else .negotiating reader }
  | some ⟨requests, [], _⟩, _ =>
    { c.retireRequests requests with workers := c.workers.erase worker }
  | _, _ => c

inductive Step where
  | receive (packet : Bytes)
  | read
  | rejectRequest (fails : Bool)
  | find (worker : ℕ)
  | grant (worker : ℕ)
  | finish (worker : ℕ) (negotiated : Bool)
  | abort (worker : ℕ)
  /-- The network is closed. -/
  | stop

def exec : Step → Connection
  | .receive packet =>
    match c.reading with
    | .waiting =>
      match c.receive limits packet with
      | .error _ => c.stop
      | .ok c => c
    | _ => c
  | .read => c.read
  | .rejectRequest fails => c.rejectRequest limits fails
  | .find worker => c.find worker
  | .grant worker => c.grant limits worker
  | .finish worker negotiated => c.finish worker negotiated
  | .abort worker => c.abort worker
  | .stop => c.stop

end Connection

end Smb
end RemoteFs
