import RemoteFs.Lib.Runs
import RemoteFs.Lib.Table
import RemoteFs.Storage.Ranges

/-!
# File sessions of the object store

The parts of `packages/storage/objectstore` that keep receipts: the actions of
`runFileAction` and the close attempts of retained references.  Both live in one
session under one mutex, and both are admitted in the current epoch of the
session's advisory half.

A call is cut where the code releases the mutex; `Session` holds the program
point of every call that is under way.  A run is a list of such sections of any
number of calls.  `started` and `admitted` record what has been executed or
admitted so far; the code does not keep them.
-/

namespace RemoteFs

open Storage (Errno Failure Text)

namespace ObjectStore

abbrev Time := ℤ
abbrev FileActionID := Storage.LockRequestID

inductive Operation where
  | fileClose
  | fileOpenNodeRef
  | fileOpenChildRef
  | other (name : Text)
  deriving DecidableEq

inductive FileActionOutcome where
  | pending
  | completed
  | notExecuted
  | unknown
  | retired
  deriving DecidableEq

/-- The answer to a query.  An absent operation means that no record identifies
the action. -/
structure FileActionReceipt where
  action : FileActionID
  operation : Option Operation
  outcome : FileActionOutcome
  deriving DecidableEq

/-! ## File actions -/

/-- The error of a supplied call. -/
inductive CallError where
  | nodeOpen (cause : Failure) (notExecuted : Bool)
  /-- One of the conflicts of conditions, uses, ranges or scopes. -/
  | conflict (cause : Failure)
  | failed (cause : Failure)
  deriving DecidableEq

def knownFileActionRefusal (operation : Operation) (err : CallError) : Bool :=
  match err with
  | .nodeOpen _ notExecuted => notExecuted &&
      (operation = .fileOpenNodeRef || operation = .fileOpenChildRef)
  | .conflict _ => true
  | .failed cause =>
    cause.errno ∈ [.EINVAL, .EACCES, .EPERM, .EBADF, .ESTALE, .ENOENT,
      .EEXIST, .ENOTDIR, .EISDIR, .ENOTEMPTY, .ELOOP, .EBUSY, .EFBIG,
      .EMFILE, .EDQUOT, .ENOSPC, .EOPNOTSUPP]

/-- A record of `fs.actions`; `serial` tells apart the records of one id. -/
structure FileAction (ρ : Type) where
  serial : ℕ
  operation : Operation
  digest : Text
  expires : Time
  outcome : FileActionOutcome
  result : Option (ρ × Option CallError)

/-- The outcome of a call that has returned. -/
def actionOutcome (operation : Operation) (hasEffect : Bool)
    (err : Option CallError) : FileActionOutcome :=
  match err with
  | none => .completed
  | some err =>
    if !hasEffect && knownFileActionRefusal operation err then .notExecuted
    else .unknown

/-- Where a call of `runFileAction` stands. -/
inductive ActionPhase (ρ : Type) where
  /-- Without an id the call is made directly. -/
  | direct
  | inspect
  | epoch
  | enter
  | running
  | wait (serial : ℕ)
  | returned (result : Except Failure (ρ × Option CallError))

structure ActionCall (ρ : Type) where
  id : FileActionID
  operation : Operation
  digest : Text
  phase : ActionPhase ρ
  /-- The reading of the clock in the latest `inspect`. -/
  seen : Time
  /-- What had been executed by then. -/
  before : List FileActionID

/-- Where a call of `QueryFileAction` stands. -/
inductive QueryPhase where
  | inspect
  | epoch
  | answered (receipt : Except Failure FileActionReceipt)

structure QueryCall where
  id : FileActionID
  phase : QueryPhase
  /-- What had been executed when the query began. -/
  before : List FileActionID

/-! ## Closing references -/

structure CloseAttempt where
  action : FileActionID
  generation : ℕ
  deriving DecidableEq

/-- The epoch of the attempt's action; an action that passes its check has one. -/
def CloseAttempt.requested (attempt : CloseAttempt) : ℕ :=
  match Storage.lockRequestEpoch attempt.action with
  | .ok epoch => epoch
  | .error _ => 0

def CloseAttempt.check (attempt : CloseAttempt) : Except Failure ℕ :=
  if attempt.generation = 0 then .error ⟨.EINVAL, ""⟩
  else Storage.lockRequestEpoch attempt.action

structure ReferenceCloseResult where
  released : Bool
  determined : Bool
  deriving DecidableEq

/-- The error of a native close: its causes and, if it holds a settlement error,
whether that one passes its check. -/
structure NativeError where
  causes : List Failure
  settlement : Option Bool
  deriving DecidableEq

def ReferenceCloseResult.check (r : ReferenceCloseResult)
    (err : Option NativeError) : Option Failure :=
  match err with
  | none =>
    if r.released then none
    else some (.mk Errno.EIO
      "close retained ownership without an error: invalid result")
  | some err =>
    match err.settlement with
    | none => none
    | some valid =>
      if r.released && valid then none else some ⟨.EINVAL, ""⟩

/-- What `launchClose` keeps of the answer of the native close. -/
def ReferenceCloseResult.checked (r : ReferenceCloseResult) (err : Option NativeError) :
    ReferenceCloseResult × Option NativeError :=
  match r.check err with
  | none => (r, err)
  | some invalid =>
    let known := err.getD ⟨[], none⟩
    (⟨false, false⟩, some { known with causes := known.causes ++ [invalid] })

structure CloseReceipt where
  action : FileActionID
  run : ℕ
  result : ReferenceCloseResult
  err : Option NativeError
  expires : Time
  outcome : FileActionOutcome

/-- `referenceCloseState`; receipts are listed by their generation. -/
structure CloseState where
  receipts : Table ℕ CloseReceipt
  next : ℕ
  released : Bool
  implicit : Option CloseAttempt
  finalResult : ReferenceCloseResult
  finalErr : Option NativeError

def CloseState.fresh : CloseState :=
  ⟨.empty, 0, false, none, ⟨false, false⟩, none⟩

inductive CloseError where
  | failed (cause : Failure)
  | notExecuted (currentEpoch : ℕ)
  | native (err : NativeError)
  deriving DecidableEq

abbrev CloseAnswer := ReferenceCloseResult × Option CloseError

def refusal (err : CloseError) : CloseAnswer := (⟨false, false⟩, some err)

/-- Where a call of `runAttempt` or `runImplicit` stands. -/
inductive ClosePhase where
  | implicitRead
  | implicitEpoch (generation : ℕ)
  | inspect
  | admission
  | recheck (err : CloseError)
  | wait (run : ℕ)
  | implicitEnd (answer : CloseAnswer)
  | returned (answer : CloseAnswer)

structure CloseCall where
  ref : ℕ
  attempt : CloseAttempt
  /-- The pass of the loop in `runImplicit`. -/
  pass : Option ℕ
  phase : ClosePhase

/-- The number of passes in `runImplicit`. -/
def implicitPasses : ℕ := 4

/-! ## The session -/

structure Session (ρ : Type) where
  history : Time
  maxLockActions : ℤ
  /-- The values of successive readings of the clock, and how many were made. -/
  now : ℕ → Time
  reads : ℕ
  active : Bool
  expires : Time
  /-- The advisory half of the session. -/
  locks : Except Failure Unit
  epoch : ℕ
  epochUntil : Time
  actions : Table FileActionID (FileAction ρ)
  /-- The owner and the generation of the receipt listed under an action. -/
  closeActions : Table FileActionID (ℕ × ℕ)
  refs : Table ℕ CloseState
  /-- The native closes that have not returned, by the run they belong to. -/
  flights : Table ℕ (ℕ × ℕ)
  /-- The results of the runs that are done. -/
  runs : Table ℕ (ReferenceCloseResult × Option NativeError)
  lastRun : ℕ
  actionCalls : Table ℕ (ActionCall ρ)
  queries : Table ℕ QueryCall
  closeCalls : Table ℕ CloseCall
  /-- The ids under which a supplied call was executed, latest first. -/
  started : List FileActionID
  /-- The attempts that were admitted, with their reference. -/
  admitted : List (ℕ × CloseAttempt)

namespace Session

variable {ρ : Type}

def initial (history : Time) (maxLockActions : ℤ) (lease : Time)
    (now : ℕ → Time) : Session ρ where
  history := history
  maxLockActions := maxLockActions
  now := now
  reads := 2
  active := true
  expires := now 0 + lease
  locks := .ok ()
  epoch := 1
  epochUntil := now 1 + history
  actions := .empty
  closeActions := .empty
  refs := .empty
  flights := .empty
  runs := .empty
  lastRun := 0
  actionCalls := .empty
  queries := .empty
  closeCalls := .empty
  started := []
  admitted := []

variable (s : Session ρ)

def time : Time := s.now s.reads

def ticked : Session ρ := { s with reads := s.reads + 1 }

/-! ### Pruning and epochs -/

def pruneFileActionsLocked (now : Time) : Session ρ :=
  { s with actions := s.actions.filter fun _ action =>
      action.outcome = .pending || decide (now < action.expires) }

def receipt? (ref generation : ℕ) : Option CloseReceipt :=
  (s.refs.get? ref).bind fun r => r.receipts.get? generation

def modifyRef (ref : ℕ) (change : CloseState → CloseState) : Session ρ :=
  { s with refs := s.refs.modify ref change }

def CloseReceipt.prunable (receipt : CloseReceipt) (now : Time) : Bool :=
  receipt.outcome ≠ .pending && receipt.outcome ≠ .unknown &&
    decide (receipt.expires ≤ now)

/-- One pass of the loop of `pruneCloseHistoryLocked`. -/
def pruneCloseAction (now : Time) (s : Session ρ) (entry : FileActionID × ℕ × ℕ) : Session ρ :=
  match s.receipt? entry.2.1 entry.2.2 with
  | none => s
  | some receipt =>
    if CloseReceipt.prunable receipt now then
      { s with
        closeActions := s.closeActions.erase entry.1
        refs := s.refs.modify entry.2.1 fun r =>
          { r with receipts := r.receipts.erase entry.2.2 } }
    else s

variable (s : Session ρ)

def pruneCloseHistoryLocked (now : Time) : Session ρ :=
  s.closeActions.toList.foldl (pruneCloseAction now) s

/-- `fs.pruneFileActionsLocked(time.Now())`. -/
def pruneFileActions : Session ρ :=
  s.ticked.pruneFileActionsLocked s.time

/-- `fs.pruneCloseHistoryLocked(time.Now())`. -/
def pruneCloseHistory : Session ρ :=
  s.ticked.pruneCloseHistoryLocked s.time

def maxEpoch : ℕ := 18446744073709551615

/-- `advanceLocked` of the advisory half. -/
def advanceLocked (now : Time) : Session ρ × Except Failure Unit :=
  if s.epochUntil ≤ now then
    if s.epoch = maxEpoch then (s, .error ⟨.EOVERFLOW, ""⟩)
    else ({ s with epoch := s.epoch + 1, epochUntil := now + s.history }, .ok ())
  else (s, .ok ())

def advance : Session ρ × Except Failure Unit :=
  s.ticked.advanceLocked s.time

/-- `fs.locks.Epoch(ctx)`. -/
def epochLocked (cancelled : Option Failure) : Session ρ × Except Failure ℕ :=
  match cancelled with
  | some err => (s, .error err)
  | none =>
    match s.locks with
    | .error err => (s, .error err)
    | .ok () =>
      match s.advance with
      | (s, .error err) => (s, .error err)
      | (s, .ok ()) => (s, .ok s.epoch)

/-! ### `runFileAction` -/

variable (c : ℕ)

def setActionPhase (phase : ActionPhase ρ) : Session ρ :=
  { s with actionCalls := s.actionCalls.modify c ({ · with phase }) }

def returnAction (result : Except Failure (ρ × Option CallError)) : Session ρ :=
  s.setActionPhase c (.returned result)

/-- The start of a call, up to its loop. -/
def beginAction (id : FileActionID)
    (operation : Operation) (digest : Except Failure Text) : Session ρ :=
  if (s.actionCalls.get? c).isSome then s
  else
    let call (digest : Text) (phase : ActionPhase ρ) : Session ρ :=
      { s with
        actionCalls := s.actionCalls.set c
          ⟨id, operation, digest, phase, 0, []⟩ }
    if id = [] then call [] .direct
    else
      match Storage.lockRequestEpoch id, digest with
      | .error err, _ => call [] (.returned (.error err))
      | _, .error err => call [] (.returned (.error err))
      | .ok _, .ok digest => call digest .inspect

/-- What the first section answers for a retained action. -/
def retainedPhase (call : ActionCall ρ) (retained : FileAction ρ) : ActionPhase ρ :=
  if retained.operation ≠ call.operation ∨ retained.digest ≠ call.digest then
    .returned (.error ⟨.EINVAL, ""⟩)
  else if retained.outcome = .pending then .wait retained.serial
  else
    match retained.result with
    | none => .returned (.error (.mk Errno.EIO ""))
    | some result => .returned (.ok result)

/-- The first section of an iteration. -/
def inspectAction (call : ActionCall ρ) : Session ρ :=
  let lease := s.time
  let s := s.ticked
  if !s.active || !decide (lease < s.expires) then
    s.returnAction c (.error ⟨.ESTALE, ""⟩)
  else
    let seen := s.time
    let s := s.pruneFileActions.pruneCloseHistory
    let s := { s with actionCalls := s.actionCalls.modify c fun call =>
      { call with seen, before := s.started } }
    if (s.closeActions.get? call.id).isSome then
      s.returnAction c (.error ⟨.EINVAL, ""⟩)
    else
      match s.actions.get? call.id with
      | some retained => s.setActionPhase c (retainedPhase call retained)
      | none => s.setActionPhase c .epoch

/-- Reading the epoch between the two sections. -/
def readEpoch (call : ActionCall ρ) (cancelled : Option Failure) : Session ρ :=
  match s.epochLocked cancelled with
  | (s, .error err) => s.returnAction c (.error err)
  | (s, .ok epoch) =>
    match Storage.lockRequestEpoch call.id with
    | .error err => s.returnAction c (.error err)
    | .ok requested =>
      if requested ≠ epoch then s.returnAction c (.error ⟨.ESTALE, ""⟩)
      else s.setActionPhase c .enter

/-- The admission of an action and the start of its call. -/
def startAction (call : ActionCall ρ) : Session ρ :=
  { (s.setActionPhase c .running) with
    actions := s.actions.set call.id
      ⟨s.started.length, call.operation, call.digest, 0, .pending, none⟩
    started := call.id :: s.started }

/-- The second section of an iteration. -/
def enterAction (call : ActionCall ρ) : Session ρ :=
  let s := s.pruneFileActions.pruneCloseHistory
  if (s.closeActions.get? call.id).isSome then
    s.returnAction c (.error ⟨.EINVAL, ""⟩)
  else if (s.actions.get? call.id).isSome then s.setActionPhase c .inspect
  else if s.maxLockActions ≤ s.actions.size then
    s.returnAction c (.error ⟨.EAGAIN, ""⟩)
  else s.startAction c call

/-- The supplied call has returned. -/
def finishAction (call : ActionCall ρ) (result : ρ)
    (hasEffect : Bool) (err : Option CallError) : Session ρ :=
  let expires := s.time + s.history
  let s := { s.ticked with actions := s.actions.modify call.id fun action =>
    { action with
      result := some (result, err)
      outcome := actionOutcome call.operation hasEffect err
      expires } }
  s.returnAction c (.ok (result, err))

def actionDone (id : FileActionID) (serial : ℕ) : Bool :=
  match s.actions.get? id with
  | none => true
  | some action => action.serial ≠ serial || action.outcome ≠ .pending

def wakeAction (call : ActionCall ρ) (serial : ℕ) (cancelled : Option Failure) : Session ρ :=
  match cancelled with
  | some err => s.returnAction c (.error err)
  | none =>
    if s.actionDone call.id serial then s.setActionPhase c .inspect else s

/-- What the environment answers to the step of a call. -/
structure Reply (ρ : Type) where
  cancelled : Option Failure
  result : ρ
  hasEffect : Bool
  err : Option CallError

/-- The next step of a call of `runFileAction`. -/
def stepAction (reply : Reply ρ) : Session ρ :=
  match s.actionCalls.get? c with
  | none => s
  | some call =>
    match call.phase with
    | .inspect => s.inspectAction c call
    | .epoch => s.readEpoch c call reply.cancelled
    | .enter => s.enterAction c call
    | .running =>
      s.finishAction c call reply.result reply.hasEffect reply.err
    | .wait serial => s.wakeAction c call serial reply.cancelled
    | .direct => s
    | .returned _ => s

/-! ### `QueryFileAction` -/

variable (q : ℕ)

def answerQuery (receipt : Except Failure FileActionReceipt) : Session ρ :=
  { s with
    queries := s.queries.modify q ({ · with phase := .answered receipt }) }

def beginQuery (id : FileActionID) : Session ρ :=
  if (s.queries.get? q).isSome then s
  else { s with queries := s.queries.set q ⟨id, .inspect, s.started⟩ }

/-- The first section of a query; `refused` is an error of `beginControl`. -/
def inspectQuery (query : QueryCall) (refused : Option Failure) : Session ρ :=
  match Storage.lockRequestEpoch query.id, refused with
  | .error err, _ => s.answerQuery q (.error err)
  | .ok _, some err => s.answerQuery q (.error err)
  | .ok _, none =>
    let s := s.pruneFileActions.pruneCloseHistory
    match s.closeActions.get? query.id with
    | some (ref, generation) =>
      match s.receipt? ref generation with
      | none => s
      | some receipt => s.answerQuery q
          (.ok ⟨query.id, some .fileClose, receipt.outcome⟩)
    | none =>
      match s.actions.get? query.id with
      | some action => s.answerQuery q
          (.ok ⟨query.id, some action.operation, action.outcome⟩)
      | none =>
        { s with
          queries := s.queries.modify q ({ · with phase := .epoch }) }

def epochQuery (query : QueryCall) (cancelled : Option Failure) : Session ρ :=
  match Storage.lockRequestEpoch query.id with
  | .error err => s.answerQuery q (.error err)
  | .ok requested =>
    match s.epochLocked cancelled with
    | (s, .error err) => s.answerQuery q (.error err)
    | (s, .ok epoch) =>
      if epoch < requested then s.answerQuery q (.error ⟨.EINVAL, ""⟩)
      else s.answerQuery q (.ok ⟨query.id, none,
        if requested < epoch then .retired else .notExecuted⟩)

def stepQuery (failure : Option Failure) : Session ρ :=
  match s.queries.get? q with
  | none => s
  | some query =>
    match query.phase with
    | .inspect => s.inspectQuery q query failure
    | .epoch => s.epochQuery q query failure
    | .answered _ => s

/-! ### Close attempts -/

/-- `if r.next == 0 { r.next = 1 }`. -/
def initNext (ref : ℕ) : Session ρ :=
  s.modifyRef ref fun r => { r with next := if r.next = 0 then 1 else r.next }

def setClosePhase (phase : ClosePhase) : Session ρ :=
  { s with closeCalls := s.closeCalls.modify c ({ · with phase }) }

/-- The return of `runAttempt`, to the caller or to the loop of `runImplicit`. -/
def returnClose (call : CloseCall) (answer : CloseAnswer) : Session ρ :=
  s.setClosePhase c (if call.pass.isSome then .implicitEnd answer
    else .returned answer)

/-- `launchClose`: the native close of a receipt is under way. -/
def launchClose (ref generation : ℕ) : Session ρ :=
  { s with
    flights := s.flights.set (s.lastRun + 1) (ref, generation)
    lastRun := s.lastRun + 1 }

/-- The new run of a receipt whose result is unknown. -/
def relaunch (ref generation : ℕ) : Session ρ :=
  (s.modifyRef ref fun r => { r with
    receipts := r.receipts.modify generation fun receipt =>
      { receipt with run := s.lastRun + 1, outcome := .pending } }).launchClose
    ref generation

/-- How `existingLocked` handles an attempt whose generation has a receipt. -/
def existingLocked (c : ℕ) (call : CloseCall) (receipt : CloseReceipt) : Session ρ :=
  if receipt.action ≠ call.attempt.action then
    s.returnClose c call (refusal (.failed ⟨.EINVAL, ""⟩))
  else
    match receipt.outcome with
    | .unknown => (s.relaunch call.ref call.attempt.generation).setClosePhase c
        (.wait (s.lastRun + 1))
    | .pending => s.setClosePhase c (.wait receipt.run)
    | _ => s.returnClose c call (receipt.result, receipt.err.map .native)

/-- A new receipt and its native close. -/
def recordAttempt (ref : ℕ) (attempt : CloseAttempt) : Session ρ :=
  { (s.modifyRef ref fun r => { r with
      receipts := r.receipts.set attempt.generation
        ⟨attempt.action, s.lastRun + 1, ⟨false, false⟩, none, 0, .pending⟩ })
      with
    closeActions := s.closeActions.set attempt.action
      (ref, attempt.generation)
    admitted := (ref, attempt) :: s.admitted }

def admitLocked (call : CloseCall) (r : CloseState) : Session ρ :=
  if call.attempt.generation ≠ r.next ∨ r.released then
    s.setClosePhase c (.recheck (.failed ⟨.ESTALE, ""⟩))
  else if 2 ≤ r.receipts.size then
    s.setClosePhase c (.recheck (.failed ⟨.EAGAIN, ""⟩))
  else if (s.closeActions.get? call.attempt.action).isSome ||
      (s.actions.get? call.attempt.action).isSome then
    s.setClosePhase c (.recheck (.failed ⟨.EINVAL, ""⟩))
  else
    ((s.recordAttempt call.ref call.attempt).launchClose call.ref
      call.attempt.generation).setClosePhase c (.wait (s.lastRun + 1))

/-- The start of a call on a reference. -/
def beginClose (c ref : ℕ) (attempt : Option CloseAttempt) : Session ρ :=
  if (s.closeCalls.get? c).isSome then s
  else
    match attempt with
    | none =>
      { s with
        closeCalls := s.closeCalls.set c
          ⟨ref, ⟨[], 0⟩, some 0, .implicitRead⟩ }
    | some attempt =>
      match attempt.check with
      | .error err =>
        { s with
          closeCalls := s.closeCalls.set c
            ⟨ref, attempt, none, .returned (refusal (.failed err))⟩ }
      | .ok _ =>
        { s with
          closeCalls := s.closeCalls.set c
            ⟨ref, attempt, none, .inspect⟩ }

variable (c : ℕ)

/-- The first section of `runAttempt`. -/
def inspectClose (call : CloseCall) : Session ρ :=
  let s := s.pruneCloseHistory.initNext call.ref
  match s.receipt? call.ref call.attempt.generation with
  | some receipt => s.existingLocked c call receipt
  | none => s.setClosePhase c .admission

/-- The callback that `runAttempt` passes to `WithCloseAdmission`. -/
def admitClose (call : CloseCall) : Session ρ :=
  let s := s.pruneCloseHistory
  match s.refs.get? call.ref with
  | none => s
  | some r =>
    match r.receipts.get? call.attempt.generation with
    | some receipt => s.existingLocked c call receipt
    | none =>
      if call.attempt.generation ≠ r.next ∨ r.released then
        s.setClosePhase c (.recheck (.failed ⟨.ESTALE, ""⟩))
      else if s.epoch < call.attempt.requested then
        s.setClosePhase c (.recheck (.failed ⟨.EINVAL, ""⟩))
      else if call.attempt.requested < s.epoch then
        s.setClosePhase c (.recheck (.notExecuted s.epoch))
      else s.admitLocked c call r

/-- `WithCloseAdmission`. -/
def admissionClose (call : CloseCall) (cancelled : Option Failure) : Session ρ :=
  match cancelled with
  | some err => s.setClosePhase c (.recheck (.failed err))
  | none =>
    match s.advance with
    | (s, .error err) => s.setClosePhase c (.recheck (.failed err))
    | (s, .ok ()) => s.admitClose c call

/-- The last section of `runAttempt` after a refused admission. -/
def recheckClose (call : CloseCall) (err : CloseError) : Session ρ :=
  match s.receipt? call.ref call.attempt.generation with
  | some receipt => s.existingLocked c call receipt
  | none => s.returnClose c call (refusal err)

def awaitClose (call : CloseCall) (run : ℕ) (cancelled : Option Failure) : Session ρ :=
  match cancelled with
  | some err => s.returnClose c call (refusal (.failed err))
  | none =>
    match s.runs.get? run with
    | none => s
    | some (result, err) => s.returnClose c call (result, err.map .native)

/-- The first section of a pass of `runImplicit`. -/
def implicitRead (call : CloseCall) : Session ρ :=
  match s.refs.get? call.ref with
  | none => s
  | some r =>
    if r.released then
      s.setClosePhase c (.returned (r.finalResult, r.finalErr.map .native))
    else
      let s := s.initNext call.ref
      let generation := if r.next = 0 then 1 else r.next
      match r.receipts.get? generation with
      | none => s.setClosePhase c (.implicitEpoch generation)
      | some current =>
        { s with closeCalls := s.closeCalls.modify c ({ · with
            attempt := ⟨current.action, generation⟩
            phase := .inspect }) }

/-- `CloseEpoch` and a new action id of that epoch. -/
def implicitEpoch (generation : ℕ) (cancelled : Option Failure) (id : FileActionID) : Session ρ :=
  match cancelled with
  | some err => s.setClosePhase c (.returned (refusal (.failed err)))
  | none =>
    match s.advance with
    | (s, .error err) =>
      s.setClosePhase c (.returned (refusal (.failed err)))
    | (s, .ok ()) =>
      if Storage.lockRequestEpoch id = .ok s.epoch then
        { s with closeCalls := s.closeCalls.modify c ({ · with
            attempt := ⟨id, generation⟩
            phase := .inspect }) }
      else s

/-- The errors after which `runImplicit` makes another pass. -/
def retries (answer : CloseAnswer) : Bool :=
  match answer.2 with
  | some (.notExecuted _) => true
  | some (.failed cause) => cause.errno = .EINVAL
  | some (.native err) => err.causes.any fun cause => cause.errno = .EINVAL
  | none => false

/-- The last section of a pass of `runImplicit`. -/
def implicitEnd (call : CloseCall) (answer : CloseAnswer) : Session ρ :=
  let current := (s.receipt? call.ref call.attempt.generation).filter
    fun receipt => receipt.action = call.attempt.action
  let s := if current.isSome then
      s.modifyRef call.ref fun r => { r with implicit := some call.attempt }
    else s
  let pass := call.pass.getD 0 + 1
  if current.isNone && retries answer then
    if pass < implicitPasses then
      { s with closeCalls := s.closeCalls.modify c ({ · with
          pass := some pass
          phase := .implicitRead }) }
    else s.setClosePhase c (.returned (refusal (.failed ⟨.EAGAIN, ""⟩)))
  else s.setClosePhase c (.returned answer)

def stepClose (cancelled : Option Failure) (id : FileActionID) : Session ρ :=
  match s.closeCalls.get? c with
  | none => s
  | some call =>
    match call.phase with
    | .implicitRead => s.implicitRead c call
    | .implicitEpoch generation => s.implicitEpoch c generation cancelled id
    | .inspect => s.inspectClose c call
    | .admission => s.admissionClose c call cancelled
    | .recheck err => s.recheckClose c call err
    | .wait run => s.awaitClose c call run cancelled
    | .implicitEnd answer => s.implicitEnd c call answer
    | .returned _ => s

/-- What the return of a native close does to its reference. -/
def CloseState.settled (r : CloseState) (generation : ℕ)
    (result : ReferenceCloseResult) (err : Option NativeError) (expires : Time) : CloseState :=
  let outcome : FileActionOutcome :=
    if result.released || result.determined then .completed else .unknown
  let receipts := r.receipts.modify generation fun receipt =>
    { receipt with result, err, expires, outcome }
  if result.released then
    { r with receipts, released := true, finalResult := result, finalErr := err }
  else if result.determined then { r with receipts, next := r.next + 1 }
  else { r with receipts }

/-- The native close of a run returns. -/
def landClose (run : ℕ) (result : ReferenceCloseResult) (err : Option NativeError) : Session ρ :=
  match s.flights.get? run with
  | none => s
  | some (ref, generation) =>
    let (result, err) := result.checked err
    let expires := s.time + s.history
    { (s.ticked.modifyRef ref fun r =>
        CloseState.settled r generation result err expires) with
      flights := s.flights.erase run
      runs := s.runs.set run (result, err) }

/-- `referenceCloseState.query`, one section under both mutexes. -/
def queryClose (ref : ℕ) (attempt : CloseAttempt) (cancelled : Option Failure) :
    Session ρ × Except Failure FileActionReceipt :=
  match attempt.check, cancelled with
  | .error err, _ => (s, .error err)
  | .ok _, some err => (s, .error err)
  | .ok _, none =>
    match s.advance with
    | (s, .error err) => (s, .error err)
    | (s, .ok ()) =>
      let s := (s.initNext ref).pruneCloseHistory
      let requested := attempt.requested
      let answer (outcome : FileActionOutcome) :
          Except Failure FileActionReceipt :=
        .ok ⟨attempt.action, some .fileClose, outcome⟩
      match s.refs.get? ref with
      | none => (s, .error ⟨.EINVAL, ""⟩)
      | some r =>
        let receipt := r.receipts.get? attempt.generation
        match receipt.filter fun found =>
            found.action = attempt.action with
        | some found => (s, answer found.outcome)
        | none =>
          if s.epoch < requested then (s, .error ⟨.EINVAL, ""⟩)
          else if requested < s.epoch then (s, answer .retired)
          else if receipt.isSome then (s, answer .notExecuted)
          else if r.next < attempt.generation then
            (s, .error ⟨.EINVAL, ""⟩)
          else if attempt.generation < r.next || r.released then
            (s, answer .retired)
          else (s, answer .notExecuted)

structure CloseOwnerStatus where
  released : Bool
  ready : Bool
  current : Option (CloseAttempt × FileActionOutcome)
  nextGeneration : ℕ
  currentEpoch : ℕ

/-- `referenceCloseState.status`, up to the check of its result. -/
def statusClose (ref : ℕ) (cancelled : Option Failure) :
    Session ρ × Except Failure CloseOwnerStatus :=
  match cancelled with
  | some err => (s, .error err)
  | none =>
    match s.advance with
    | (s, .error err) => (s, .error err)
    | (s, .ok ()) =>
      let s := s.pruneCloseHistory.initNext ref
      match s.refs.get? ref with
      | none => (s, .error ⟨.EINVAL, ""⟩)
      | some r =>
        let open_ := (r.receipts.get? r.next).filter fun receipt =>
          receipt.outcome = .pending || receipt.outcome = .unknown
        (s, .ok
          ⟨r.released, !r.released && open_.isNone &&
              decide (r.receipts.size < 2),
            open_.map fun receipt =>
              (⟨receipt.action, r.next⟩, receipt.outcome),
            r.next, s.epoch⟩)

/-! ### What pruning and the epoch leave alone -/

lemma pruneCloseHistoryLocked_eq (now : Time) : ∃ refs closeActions,
      s.pruneCloseHistoryLocked now = { s with refs, closeActions } := by
  refine Runs.invariant (motive := fun t => ∃ refs closeActions, t = { s with refs, closeActions })
    ?_ ⟨s.refs, s.closeActions, rfl⟩ _
  rintro _ entry ⟨refs, closeActions, rfl⟩
  unfold pruneCloseAction
  split
  · exact ⟨_, _, rfl⟩
  · split <;> exact ⟨_, _, rfl⟩

lemma pruneCloseHistory_eq : ∃ refs closeActions,
      s.pruneCloseHistory = { s with refs, closeActions, reads := s.reads + 1 } :=
  s.ticked.pruneCloseHistoryLocked_eq s.time

lemma advance_eq : ∃ epoch epochUntil, s.epoch ≤ epoch ∧
      s.advance.1 = { s with epoch, epochUntil, reads := s.reads + 1 } := by
  unfold advance advanceLocked
  split
  · split
    · exact ⟨s.epoch, s.epochUntil, le_rfl, rfl⟩
    · exact ⟨s.epoch + 1, _, Nat.le_succ _, rfl⟩
  · exact ⟨s.epoch, s.epochUntil, le_rfl, rfl⟩

@[simp] lemma pruneCloseHistory_closeCalls : s.pruneCloseHistory.closeCalls = s.closeCalls := by
  obtain ⟨refs, closeActions, heq⟩ := s.pruneCloseHistory_eq
  rw [heq]

@[simp] lemma advance_closeCalls : s.advance.1.closeCalls = s.closeCalls := by
  obtain ⟨epoch, epochUntil, -, heq⟩ := s.advance_eq
  rw [heq]

/-! ### Runs -/

inductive Step (ρ : Type) where
  | beginAction (call : ℕ) (id : FileActionID) (operation : Operation)
      (digest : Except Failure Text)
  | stepAction (call : ℕ) (reply : Reply ρ)
  | beginQuery (query : ℕ) (id : FileActionID)
  | stepQuery (query : ℕ) (failure : Option Failure)
  | openReference (ref : ℕ)
  | beginClose (call ref : ℕ) (attempt : Option CloseAttempt)
  | stepClose (call : ℕ) (cancelled : Option Failure) (id : FileActionID)
  | landClose (run : ℕ) (result : ReferenceCloseResult) (err : Option NativeError)
  | queryClose (ref : ℕ) (attempt : CloseAttempt) (cancelled : Option Failure)
  | statusClose (ref : ℕ) (cancelled : Option Failure)
  /-- The history of the session is read (`Epoch`, `History`). -/
  | readHistory
  /-- The lease is renewed or the session ends. -/
  | setLease (active : Bool) (expires : Time) (locks : Except Failure Unit)

def exec : Step ρ → Session ρ
  | .beginAction c id operation digest => s.beginAction c id operation digest
  | .stepAction c reply => s.stepAction c reply
  | .beginQuery q id => s.beginQuery q id
  | .stepQuery q failure => s.stepQuery q failure
  | .openReference ref =>
    if (s.refs.get? ref).isSome then s
    else { s with refs := s.refs.set ref .fresh }
  | .beginClose c ref attempt => s.beginClose c ref attempt
  | .stepClose c cancelled id => s.stepClose c cancelled id
  | .landClose run result err => s.landClose run result err
  | .queryClose ref attempt cancelled => (s.queryClose ref attempt cancelled).1
  | .statusClose ref cancelled => (s.statusClose ref cancelled).1
  | .readHistory => (s.epochLocked none).1
  | .setLease active expires locks => { s with active, expires, locks }

end Session

end ObjectStore
end RemoteFs
