import RemoteFs.Lib.Runs
import RemoteFs.Smb.MutationOwner

/-!
# Closing a handle

`closeFileHandlePrepared` and what it calls in `file_handles.go`.  The reference of
a handle is closed by an attempt, which the authority admits at most once; after a
lost answer the handle resumes from what the receipt of the attempt and the status
of the owner say.  The authority is a parameter with a state `σ`, and any answer is
possible.

A handle with a `pendingOpen` gets its reference before what is modelled here, or
returns without one; `terminal`, which only the recovery of the authority sets, makes
every later close return at once.  Neither sends anything, and both are left out.
-/

namespace RemoteFs.Smb

/-- A `FileActionID`, which carries its epoch. -/
structure CloseAction where
  epoch : ℕ
  nonce : ℕ
  deriving DecidableEq

structure CloseAttempt where
  action : CloseAction
  generation : ℕ
  deriving DecidableEq

/-- A `ReferenceCloseResult` with its error: `missed` is the epoch of a
`CloseActionNotExecutedError`, and `settlement` tells whether a
`CloseSettlementError` passes its check. -/
structure CloseAnswer where
  released : Bool
  determined : Bool
  failed : Bool
  missed : Option ℕ
  settlement : Option Bool
  deriving DecidableEq

/-- `ReferenceCloseResult.Check`. -/
def CloseAnswer.check (answer : CloseAnswer) : Bool :=
  (answer.released || answer.failed) &&
    answer.settlement.all fun valid => answer.released && valid

def CloseAnswer.failure : CloseAnswer := ⟨false, false, true, none, none⟩

structure CloseOwnerStatus where
  released : Bool
  ready : Bool
  current : Option CloseAttempt
  currentOutcome : Option FileActionOutcome
  nextGeneration : ℕ
  currentEpoch : ℕ

def CloseOwnerStatus.check (status : CloseOwnerStatus) : Bool :=
  status.nextGeneration ≠ 0 && status.currentEpoch ≠ 0 &&
    !(status.released && status.ready) &&
    match status.current with
    | none => status.currentOutcome = none
    | some current =>
      !status.ready && !status.released &&
        current.generation = status.nextGeneration &&
        (status.currentOutcome = some .pending || status.currentOutcome = some .unknown)

structure CloseAuthority (σ : Type) where
  closeWithAction : CloseAttempt → σ → CloseAnswer × σ
  queryCloseAttempt : CloseAttempt → σ → Option (FileActionReceipt CloseAction) × σ
  closeOwnerStatus : σ → Option CloseOwnerStatus × σ
  closeWithResult : σ → CloseAnswer × σ
  /-- `NewFileActionID` of an epoch. -/
  newNonce : ℕ → σ → Option ℕ × σ

/-- What passes between a handle and its authority. -/
inductive Exchange where
  | status (status : CloseOwnerStatus)
  | receipt (attempt : CloseAttempt) (receipt : FileActionReceipt CloseAction)
  | close (attempt : CloseAttempt) (answer : CloseAnswer)
  | closeWithResult (answer : CloseAnswer)
  /-- The handle records that its reference is released. -/
  | released

/-- The fields of `fileHandle` that closing reads, and the exchanges so far. -/
structure ClosingHandle where
  /-- The reference has `ReferenceCloseActions`. -/
  hasActions : Bool
  published : Bool
  attempt : Option CloseAttempt
  attemptAdmitted : Bool
  remintEpoch : ℕ
  released : Bool
  log : List Exchange

namespace ClosingHandle

variable {σ : Type} (a : CloseAuthority σ) (h : ClosingHandle)

def note (exchange : Exchange) : ClosingHandle :=
  { h with log := h.log ++ [exchange] }

def acceptCloseResult (answer : CloseAnswer) : ClosingHandle :=
  if !answer.check then h
  else if answer.released then { h.note .released with released := true }
  else if h.released then h
  else if answer.determined && h.attempt.isSome then
    { h with attempt := none, attemptAdmitted := false, remintEpoch := 0 }
  else h

/-- `remintCloseAttempt` if an epoch was missed; the attempt to send. -/
def remintCloseAttempt (s : σ) : Option CloseAttempt × ClosingHandle × σ :=
  if h.remintEpoch = 0 then (h.attempt, h, s)
  else
    match a.newNonce h.remintEpoch s, h.attempt with
    | (some nonce, s), some old =>
      let attempt := ⟨⟨h.remintEpoch, nonce⟩, old.generation⟩
      (some attempt,
        { h with attempt := some attempt, attemptAdmitted := false, remintEpoch := 0 }, s)
    | (_, s), _ => (none, h, s)

/-- `runCloseAttempt` with the tries that are left. -/
def runCloseAttempt : ℕ → ClosingHandle → σ → CloseAnswer × ClosingHandle × σ
  | 0, h, s => (.failure, h, s)
  | left + 1, h, s =>
    match h.remintCloseAttempt a s with
    | (none, h, s) => (.failure, h, s)
    | (some attempt, h, s) =>
      let (answer, s) := a.closeWithAction attempt s
      let h := h.note (.close attempt answer)
      match answer.missed with
      | none => (answer, h, s)
      | some epoch =>
        if h.attemptAdmitted || answer.released || h.released ||
            epoch ≤ attempt.action.epoch then (.failure, h, s)
        else
          let h := { h with remintEpoch := epoch }
          if left = 0 then (.failure, h, s) else runCloseAttempt left h s

/-- `CloseWithResult` and its acceptance. -/
def closePlain (s : σ) : ClosingHandle × σ :=
  let (answer, s) := a.closeWithResult s
  ((h.note (.closeWithResult answer)).acceptCloseResult answer, s)

def runAndAccept (s : σ) : ClosingHandle × σ :=
  let (answer, h, s) := runCloseAttempt a 2 h s
  (h.acceptCloseResult answer, s)

/-- A receipt about the attempt that can be believed. -/
def Believed (old : CloseAttempt) (r : FileActionReceipt CloseAction) : Prop :=
  r.check = true ∧ r.action = old.action ∧
    (r.operation = none ∨ r.operation = some .fileClose)

instance (old : CloseAttempt) (r : FileActionReceipt CloseAction) :
    Decidable (Believed old r) := by
  unfold Believed
  infer_instance

/-- What follows an attempt `old` that failed and did not execute. -/
def resume (old : CloseAttempt) (answer : CloseAnswer) (s : σ) : ClosingHandle × σ :=
  match a.closeOwnerStatus s with
  | (none, s) => (h.acceptCloseResult answer, s)
  | (some status, s) =>
    if !status.check then (h.acceptCloseResult answer, s)
    else
      let h := h.note (.status status)
      match status.current with
      | some current =>
        { h with attempt := some current, attemptAdmitted := true }.runAndAccept a s
      | none =>
        if status.released then { h with attempt := none }.closePlain a s
        else if status.ready && old.generation < status.nextGeneration then
          match a.newNonce status.currentEpoch s with
          | (none, s) => (h, s)
          | (some nonce, s) =>
            { h with
              attempt := some ⟨⟨status.currentEpoch, nonce⟩, status.nextGeneration⟩
              attemptAdmitted := false }.runAndAccept a s
        else (h.acceptCloseResult answer, s)

/-- The attempt is run, and looked into when its result is not determined. -/
def attemptClose (s : σ) : ClosingHandle × σ :=
  let (answer, h, s) := runCloseAttempt a 2 h s
  if answer.failed && !answer.released && !answer.determined && h.remintEpoch = 0 then
    match h.attempt with
    | none => (h.acceptCloseResult answer, s)
    | some old =>
      match a.queryCloseAttempt old s with
      | (none, s) => (h.acceptCloseResult answer, s)
      | (some r, s) =>
        if Believed old r ∧ r.outcome = .notExecuted then
          (h.note (.receipt old r)).resume a old answer s
        else (h.acceptCloseResult answer, s)
  else (h.acceptCloseResult answer, s)

/-- `closeFileHandlePrepared` for a handle with a reference. -/
def closeFileHandlePrepared (s : σ) : ClosingHandle × σ :=
  if !h.hasActions then
    if h.published then (h, s) else h.closePlain a s
  else
    match h.attempt with
    | none =>
      match a.closeOwnerStatus s with
      | (none, s) => (h, s)
      | (some status, s) =>
        if !status.check then (h, s)
        else
          let h := h.note (.status status)
          match status.current with
          | some current =>
            { h with attempt := some current, attemptAdmitted := true }.attemptClose a s
          | none =>
            if status.released then h.closePlain a s
            else if !status.ready then (h, s)
            else
              match a.newNonce status.currentEpoch s with
              | (none, s) => (h, s)
              | (some nonce, s) =>
                { h with
                  attempt := some
                    ⟨⟨status.currentEpoch, nonce⟩, status.nextGeneration⟩
                }.attemptClose a s
    | some attempt =>
      if h.released || h.remintEpoch ≠ 0 then h.attemptClose a s
      else
        match a.queryCloseAttempt attempt s with
        | (none, s) => (h, s)
        | (some r, s) =>
          if ¬Believed attempt r ∨ r.outcome = .retired then (h, s)
          else
            { h.note (.receipt attempt r) with
              attemptAdmitted := h.attemptAdmitted ||
                (r.operation.isSome && r.outcome ≠ FileActionOutcome.notExecuted) }.attemptClose a s

def opened (hasActions published : Bool) : ClosingHandle where
  hasActions
  published
  attempt := none
  attemptAdmitted := false
  remintEpoch := 0
  released := false
  log := []

def run (hasActions published : Bool) : ℕ → σ → ClosingHandle × σ
  | 0, s => (opened hasActions published, s)
  | n + 1, s =>
    let (h, s) := run hasActions published n s
    h.closeFileHandlePrepared a s

end ClosingHandle

end RemoteFs.Smb
