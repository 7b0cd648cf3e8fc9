import RemoteFs.Lib.Table
import RemoteFs.Smb.Wire
import RemoteFs.Storage.Files

/-!
# The owner of one mutation

`mutation_owner.go`: a command of an SMB client is sent to the authority under an
action identity.  When the answer is lost or is an error, the receipt of the action
decides what follows: the command is sent again under its identity, or once more
under a new one when the receipt says that the old one did not execute.

What lies outside is a parameter with a state `σ` of its own: the authority, the
authorization callbacks, the observation of fresh conditions and the making of
identities.  The checks of results and of fresh commands are its verdicts.
-/

namespace RemoteFs

open Storage (Errno)

namespace Smb


/-! ## Commands -/

structure TargetUse where
  nodeID : ℕ
  scope : Bytes
  deriving DecidableEq

structure AttrChange where
  birthTime : Option ℤ
  accessTime : Option ℤ
  modTime : Option ℤ
  deriving DecidableEq

inductive FileMutationKind where
  | truncate
  | attributes
  | writeAt
  | append
  deriving DecidableEq

/-- The fields of `FileMutation` that are compared as a whole. -/
structure FileContent where
  contentEffects : List ℕ
  offset : ℤ
  data : Bytes
  expectedSize : Option ℤ
  kind : FileMutationKind
  size : ℤ
  attr : AttrChange
  uses : List TargetUse
  deriving DecidableEq

inductive NameOperation where
  | create
  | mkdir
  | remove
  | removeDir
  | rename
  | symlink
  deriving DecidableEq

inductive ExpectedChild where
  | any
  | absent
  | sameNode
  deriving DecidableEq

/-- A name with the directory that it is in. -/
structure ChildName where
  parent : ℕ
  rawLeaf : Bytes

structure RenameTarget where
  parent : ℕ
  outputLeaf : Bytes

structure NameCommand where
  kind : NameOperation
  name : ChildName
  targetState : ExpectedChild
  targetNode : ℕ
  destination : Option RenameTarget
  uses : List TargetUse
  requireNoOpenDescendants : Bool

inductive UnlinkCondition where
  | file
  | ifEmpty
  deriving DecidableEq

/-- The four variants of `mutationCommand`, without the action. -/
inductive MutationPayload where
  | file (content : FileContent) (expectedMetadata : Table Bytes Bytes)
      (metadata : Table Bytes Bytes)
  | name (command : NameCommand)
  | pending (condition : UnlinkCondition) (expectedMetadata : Table Bytes Bytes)
      (uses : List TargetUse)
  | clear (generation : Bytes) (uses : List TargetUse)

/-- `storage.Operation`. -/
inductive Operation where
  | fileMutate
  | fileMutateName
  | fileSetPendingUnlink
  | fileClearPendingUnlink
  | fileClose
  | other
  deriving DecidableEq

structure MutationCommand (ι : Type) where
  action : ι
  payload : MutationPayload

def MutationPayload.operation : MutationPayload → Operation
  | .file .. => .fileMutate
  | .name _ => .fileMutateName
  | .pending .. => .fileSetPendingUnlink
  | .clear .. => .fileClearPendingUnlink

/-- The successful removal of a name may return no attributes. -/
def MutationPayload.removes : MutationPayload → Bool
  | .name command => command.kind = .remove || command.kind = .removeDir
  | _ => false

def windowsMetadataKey : Bytes := [115, 109, 98, 46, 119, 105, 110, 100, 111, 119, 115]

def dosSettableAttributes : ℕ := 0xa7
def dosNormal : ℕ := 0x80

def validDOSAttributes (attributes : ℕ) : Bool :=
  attributes &&& dosSettableAttributes = attributes &&
    (attributes &&& dosNormal = 0 || attributes = dosNormal)

/-- `decodeWindowsMetadataPayload`: the attributes after the bytes `SMW` and the
format 1. -/
def decodeWindowsMetadataPayload (data : Bytes) : Option ℕ :=
  if data.take 4 = [83, 77, 87, 1] ∧ data.length = 8 then
    let attributes := RemoteFs.Bytes.value (data.drop 4)
    if validDOSAttributes attributes then some attributes else none
  else none

/-- The attributes without hidden and system. -/
def visibleAttributes (attributes : ℕ) : ℕ := attributes &&& 0xfffffff9

/-- `sameEffect` for one metadata namespace. -/
def sameMetadata (root : Bool) (name before after : Bytes) : Bool :=
  if root && name = windowsMetadataKey then
    match decodeWindowsMetadataPayload before, decodeWindowsMetadataPayload after with
    | some before, some after => visibleAttributes before = visibleAttributes after
    | _, _ => false
  else before = after

/-- `sameEffect`: `fresh` differs in its observations only. -/
def MutationPayload.sameEffect (root : Bool) (old fresh : MutationPayload) : Bool :=
  match old, fresh with
  | .file content _ metadata, .file content' _ metadata' =>
    content = content' && metadata.size = metadata'.size &&
      metadata.toList.all fun entry =>
        (metadata'.get? entry.1).any (sameMetadata root entry.1 entry.2)
  | .name c, .name c' =>
    c.kind = c'.kind && c.targetState = c'.targetState &&
      c.targetNode = c'.targetNode &&
      c.requireNoOpenDescendants = c'.requireNoOpenDescendants &&
      c.uses = c'.uses &&
      (c.destination.map (·.outputLeaf) = c'.destination.map (·.outputLeaf))
  | .pending condition _ uses, .pending condition' _ uses' =>
    condition = condition' && uses = uses'
  | .clear _ uses, .clear _ uses' => uses = uses'
  | _, _ => false

/-! ## What lies outside -/

inductive Cause where
  | conditionConflict
  | errno (errno : Errno)
  deriving DecidableEq

/-- An error, joined from its causes. -/
abbrev Err := List Cause

inductive FileActionOutcome where
  | pending
  | completed
  | notExecuted
  | unknown
  | retired
  deriving DecidableEq

structure FileActionReceipt (ι : Type) where
  action : ι
  operation : Option Operation
  outcome : FileActionOutcome

/-- `FileActionReceipt.Check` for a well-formed action. -/
def FileActionReceipt.check {ι : Type} (r : FileActionReceipt ι) : Bool :=
  r.operation.isSome || r.outcome = .notExecuted || r.outcome = .unknown ||
    r.outcome = .retired

structure Attr (α : Type) where
  id : ℕ
  fields : α

/-- What a mutation returns: no attributes stand for a nil or a zero result, and
`projected` tells that the state of a reference passes its checks. -/
structure MutationReply (α : Type) where
  attr : Option (Attr α)
  projected : Bool
  err : Option Err

structure Authority (σ ι α : Type) where
  authorize : σ → Option Err × σ
  /-- The server's own authorizer, for a query. -/
  authorizeQuery : σ → Option Err × σ
  /-- `MutateFile`, `MutateName`, `SetPendingUnlink` or `ClearPendingUnlink`. -/
  mutate : MutationCommand ι → σ → MutationReply α × σ
  queryFileAction : ι → σ → Except Err (FileActionReceipt ι) × σ
  /-- A fresh command after a conflict, checked as the first one was, if the
  caller can make one. -/
  reobserve : Option (σ → Except Err MutationPayload × σ)
  /-- `reserveReplacementPayload`. -/
  reserve : MutationPayload → σ → Option Err × σ
  newFileActionID : σ → Except Err ι × σ
  /-- Time passes. -/
  idle : σ → σ
  actionValid : ι → Bool
  checkResultIdentity : Attr α → Bool
  /-- The other checks of `acceptResultLocked`. -/
  resultFits : MutationPayload → Attr α → Bool

/-! ## The owner -/

inductive WriteExecution where
  | unknown
  | completed
  | notExecuted
  deriving DecidableEq

/-- `mutationOwner` with its record in the ledger of writes. -/
structure MutationOwner (ι : Type) where
  command : MutationCommand ι
  /-- The handle is that of the root of the volume. -/
  root : Bool
  firstErr : Option Err
  lastErr : Option Err
  conditionRetries : ℕ
  dispatched : Bool
  settled : Bool
  retired : Bool
  execution : WriteExecution
  terminal : Bool
  failed : Bool

def maxMutationConditionRetries : ℕ := 2

namespace MutationOwner

variable {σ ι α : Type} [DecidableEq ι] (a : Authority σ ι α)

/-- `reserveMutationCommand`. -/
def reserve (command : MutationCommand ι) (root : Bool) : MutationOwner ι where
  command
  root
  firstErr := none
  lastErr := none
  conditionRetries := 0
  dispatched := false
  settled := false
  retired := false
  execution := .unknown
  terminal := false
  failed := false

variable (o : MutationOwner ι)

def completeLocked : MutationOwner ι :=
  { o with settled := true, lastErr := none, terminal := true, execution := .completed }

def rejectLocked (err : Err) : MutationOwner ι :=
  { o with
    settled := true, lastErr := some err, terminal := true, execution := .notExecuted }

def failLocked (err : Err) : MutationOwner ι :=
  let err := if o.settled then err else .errno Errno.EIO :: err
  { o with firstErr := o.firstErr <|> some err, lastErr := some err, failed := true }

def dispatchLocked (s : σ) : (Option (Attr α) × Option Err) × σ :=
  let (reply, s) := a.mutate o.command s
  let fault : Bool :=
    match o.command.payload with
    | .file .. => false
    | .name _ =>
      match reply.attr with
      | none => !o.command.payload.removes
      | some attr => !a.checkResultIdentity attr
    | _ => !reply.projected
  ((reply.attr, reply.err <|> if fault then some [.errno Errno.EIO] else none), s)

/-- `acceptResultLocked` when the call reported no error. -/
def accepts (attr : Option (Attr α)) : Bool :=
  if attr.all (·.id = 0) && o.command.payload.removes then true
  else attr.any fun attr =>
    a.checkResultIdentity attr && a.resultFits o.command.payload attr

def queryLocked (s : σ) : Except Err (FileActionReceipt ι) × σ :=
  match a.authorize s with
  | (some err, s) => (.error err, s)
  | (none, s) =>
    match a.authorizeQuery s with
    | (some err, s) => (.error err, s)
    | (none, s) =>
      match a.queryFileAction o.command.action s with
      | (.error err, s) => (.error err, s)
      | (.ok r, s) =>
        if a.actionValid r.action ∧ r.check ∧ r.action = o.command.action ∧
            (r.operation = none ∨
              r.operation = some o.command.payload.operation) then (.ok r, s)
        else (.error [.errno Errno.EIO], s)

/-- A call and what is made of its result: the error, if any. -/
def call (s : σ) : Option Err × MutationOwner ι × σ :=
  match o.dispatchLocked a s with
  | ((_, some err), s) => (some err, { o with lastErr := some err }, s)
  | ((attr, none), s) =>
    if o.accepts a attr then (none, o.completeLocked, s)
    else (some [.errno Errno.EIO], { o with lastErr := some [.errno Errno.EIO] }, s)

/-- `replayLocked` and the failure that follows it. -/
def replay (before : Err) (s : σ) : MutationOwner ι × σ :=
  match a.authorize s with
  | (some err, s) => (o.failLocked (before ++ err), s)
  | (none, s) =>
    match o.call a s with
    | (none, o, s) => (o, s)
    | (some err, o, s) => (o.failLocked (before ++ err), s)

/-- The command to try next after a conflict, under a new action. -/
def renewal (s : σ) : Except Err (MutationCommand ι) × σ :=
  match a.reobserve with
  | none => (.error [], s)
  | some reobserve =>
    match reobserve s with
    | (.error err, s) => (.error err, s)
    | (.ok fresh, s) =>
      if o.command.payload.sameEffect o.root fresh then
        match a.reserve fresh s with
        | (some err, s) => (.error err, s)
        | (none, s) =>
          match a.newFileActionID s with
          | (.error err, s) => (.error err, s)
          | (.ok action, s) => (.ok ⟨action, fresh⟩, s)
      else (.error [.errno .EINVAL], s)

/-- `executeCommand`, which its callers call once, after the reservation. -/
def executeCommand (o : MutationOwner ι) (s : σ) : MutationOwner ι × σ :=
  match a.authorize s with
  | (some err, s) =>
    let o := if o.dispatched then o else o.rejectLocked err
    (o.failLocked err, s)
  | (none, s) =>
    match { o with dispatched := true }.call a s with
    | (none, o, s) => (o, s)
    | (some err, called, s) =>
      match called.queryLocked a s with
      | (.error queryErr, s) => (called.failLocked (err ++ queryErr), s)
      | (.ok receipt, s) =>
        if receipt.outcome = .notExecuted ∧
            receipt.operation = some called.command.payload.operation then
          if Cause.conditionConflict ∈ err ∧
              o.conditionRetries < maxMutationConditionRetries ∧
              a.reobserve.isSome then
            match called.renewal a s with
            | (.error observeErr, s) =>
              ((called.rejectLocked err).failLocked (err ++ observeErr), s)
            | (.ok command, s) =>
              executeCommand { o with
                command
                lastErr := some err
                conditionRetries := o.conditionRetries + 1
                dispatched := false } s
          else ((called.rejectLocked err).failLocked err, s)
        else if receipt.outcome = .completed ∨ receipt.outcome = .pending then
          called.replay a err s
        else (called.failLocked (err ++ [.errno Errno.EIO]), s)
termination_by maxMutationConditionRetries - o.conditionRetries
decreasing_by
  simp only [maxMutationConditionRetries] at *
  omega

def reconcile (s : σ) : MutationOwner ι × σ :=
  if o.settled || o.retired || !o.dispatched then (o, s)
  else
    match a.authorize s with
    | (some err, s) => (o.failLocked err, s)
    | (none, s) =>
      match o.queryLocked a s with
      | (.error err, s) => (o.failLocked err, s)
      | (.ok receipt, s) =>
        if receipt.operation = some o.command.payload.operation ∧
            receipt.outcome = .notExecuted then
          (o.rejectLocked (o.lastErr.getD [.errno Errno.EIO]), s)
        else if receipt.outcome ≠ .completed ∧ receipt.outcome ≠ .pending then
          (o.failLocked [.errno Errno.EIO], s)
        else o.replay a [] s

def retire (released settled : Bool) : MutationOwner ι :=
  if !released || !settled then o
  else
    let firstErr :=
      if o.settled then o.firstErr else o.firstErr <|> some [.errno Errno.EIO]
    { o with
      retired := true, firstErr, terminal := true
      failed := o.failed || firstErr.isSome }

/-- What follows the execution, as often as it does. -/
inductive Step where
  | reconcile
  | retire (released settled : Bool)
  | idle

def exec : MutationOwner ι × σ → Step → MutationOwner ι × σ
  | (o, s), .reconcile => o.reconcile a s
  | (o, s), .retire released settled => (o.retire released settled, s)
  | (o, s), .idle => (o, a.idle s)

/-- A command from its reservation on. -/
def run (command : MutationCommand ι) (root : Bool) (steps : List Step) (s : σ) :
    MutationOwner ι × σ :=
  steps.foldl (exec a) (executeCommand a (reserve command root) s)

end MutationOwner

end Smb
end RemoteFs
