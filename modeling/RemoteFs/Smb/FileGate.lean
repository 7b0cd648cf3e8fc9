import RemoteFs.Lib.Runs
import RemoteFs.Lib.Table
import RemoteFs.Storage.Failure

/-!
# The turn of a file handle

`file_io_gate.go`: the operations on one handle take turns, in the order in which
they were admitted.  A ticket waits until its `ready` channel is closed; whoever
finishes hands the turn over.  The tree counts what is admitted and not finished,
and `fileIdle` is closed when the count is zero again.

Each step below is one section under `tree.fileMu` or `handle.ioMu`.  Closing a
channel that is nil or closed already is a panic in Go, recorded by `panicked`.
-/

namespace RemoteFs

open Storage (Errno)

namespace Smb

/-- Channels, by what they are made for. -/
inductive Channel where
  | ready (ticket : ℕ)
  /-- The `ioIdle` that is made when a ticket gets the turn. -/
  | ioIdle (ticket : ℕ)
  /-- The `fileIdle` that is made for the so-manieth time. -/
  | fileIdle (serial : ℕ)
  deriving DecidableEq

inductive TicketFailure where
  /-- `syscall.EBADF`. -/
  | badHandle
  /-- `context.Canceled`. -/
  | canceled
  deriving DecidableEq

structure Ticket where
  handle : ℕ
  sequence : ℕ
  started : Bool
  complete : Bool
  err : Option TicketFailure

/-- The fields of `fileHandle` that the gate reads. -/
structure FileHandle where
  /-- In `tree.handles`. -/
  listed : Bool
  /-- In state `handleLive`, with the identity of its tree and its session. -/
  live : Bool
  ioSequence : ℕ
  ioQueue : List ℕ
  ioRunning : Option ℕ
  ioIdle : Option Channel
  ioFenced : Bool

structure FileTree where
  fileStopping : Bool
  fileActive : ℤ
  fileIdle : Option Channel
  handles : Table ℕ FileHandle
  tickets : Table ℕ Ticket
  /-- Work between `beginFileWork` and `endFileWork`. -/
  works : Finset ℕ
  nextHandle : ℕ
  nextTicket : ℕ
  nextWork : ℕ
  nextIdle : ℕ
  /-- The turns that were given, with their handles. -/
  starts : List (ℕ × ℕ)
  /-- The tickets that were completed. -/
  completions : List ℕ
  closes : List Channel
  panicked : Bool

namespace FileTree

def new : FileTree where
  fileStopping := false
  fileActive := 0
  fileIdle := none
  handles := .empty
  tickets := .empty
  works := ∅
  nextHandle := 0
  nextTicket := 0
  nextWork := 0
  nextIdle := 0
  starts := []
  completions := []
  closes := []
  panicked := false

variable (t : FileTree)

def close : Option Channel → FileTree
  | none => { t with panicked := true }
  | some channel =>
    if channel ∈ t.closes then { t with panicked := true }
    else { t with closes := t.closes ++ [channel] }

def updateHandle (handle : ℕ) (change : FileHandle → FileHandle) : FileTree :=
  { t with handles := t.handles.modify handle change }

/-- One more operation is admitted. -/
def countFileWork : FileTree :=
  let t := if t.fileActive = 0 then
      { t with fileIdle := some (.fileIdle t.nextIdle), nextIdle := t.nextIdle + 1 }
    else t
  { t with fileActive := t.fileActive + 1 }

def endFileWorkLocked : FileTree :=
  let t := { t with fileActive := t.fileActive - 1 }
  if t.fileActive = 0 then { t.close t.fileIdle with fileIdle := none } else t

def startFileIoLocked (handle ticket : ℕ) : FileTree :=
  let t := t.updateHandle handle fun h =>
    { h with ioRunning := some ticket, ioIdle := some (.ioIdle ticket) }
  { t.close (some (.ready ticket)) with starts := t.starts ++ [(handle, ticket)] }

def completeTicket (ticket : ℕ) (err : Option TicketFailure) : FileTree :=
  { t with
    tickets := t.tickets.modify ticket ({ · with complete := true, err })
    completions := t.completions ++ [ticket] }

def stopFileIo (handle : ℕ) (idle : Option Channel) : FileTree :=
  (t.close idle).updateHandle handle ({ · with ioRunning := none, ioIdle := none })

def maxUint64 : ℕ := 18446744073709551615

/-- `admitFileIo`; `refused` tells that the context, the session or the authority
refuses. -/
def admitFileIo (handle limit : ℕ) (refused : Bool) : Except Errno FileTree :=
  if refused then .error .ESTALE
  else if limit < 1 then .error .EINVAL
  else if t.fileStopping then .error .ESTALE
  else
    match t.handles.get? handle with
    | none => .error .EBADF
    | some h =>
      if !h.listed || !h.live || h.ioFenced then .error .EBADF
      else if limit ≤ h.ioQueue.length + h.ioRunning.toList.length then
        .error .EMFILE
      else if h.ioSequence = maxUint64 then .error .EOVERFLOW
      else
        let ticket := t.nextTicket
        let t := t.updateHandle handle
          ({ · with ioSequence := h.ioSequence + 1 })
        let t := t.countFileWork
        let t := { t with
          tickets := t.tickets.set ticket
            ⟨handle, h.ioSequence + 1, false, false, none⟩
          nextTicket := ticket + 1 }
        match h.ioRunning with
        | none => .ok (t.startFileIoLocked handle ticket)
        | some _ =>
          .ok (t.updateHandle handle ({ · with ioQueue := h.ioQueue ++ [ticket] }))

/-- The last section of `wait`: the ticket was ready and its context is alive. -/
def start (ticket : ℕ) : FileTree :=
  match t.tickets.get? ticket with
  | none => t
  | some held =>
    if held.err = none ∧ held.complete = false then
      { t with tickets := t.tickets.modify ticket ({ · with started := true }) }
    else t

/-- `finish`: what `wait` calls when its context ends, and every operation when
it is done. -/
def finish (ticket : ℕ) : FileTree :=
  match t.tickets.get? ticket with
  | none => t
  | some held =>
    if held.complete then t
    else
      match t.handles.get? held.handle with
      | none => t
      | some h =>
        if h.ioRunning = some ticket then
          let t := (t.completeTicket ticket held.err).stopFileIo held.handle
            h.ioIdle
          match h.ioQueue with
          | [] => t.endFileWorkLocked
          | next :: rest =>
            let t := t.updateHandle held.handle ({ · with ioQueue := rest })
            (t.startFileIoLocked held.handle next).endFileWorkLocked
        else
          let t := t.updateHandle held.handle
            ({ · with ioQueue := h.ioQueue.erase ticket })
          let t := (t.completeTicket ticket (some .canceled)).close
            (some (.ready ticket))
          t.endFileWorkLocked

/-- A queued ticket is dropped by a fence. -/
def dropTicket (ticket : ℕ) : FileTree :=
  let t := t.completeTicket ticket (some .badHandle)
  (t.close (some (.ready ticket))).endFileWorkLocked

/-- A ticket that has the turn is dropped if its operation has not started. -/
def dropRunning (handle : ℕ) (h : FileHandle) : FileTree :=
  match h.ioRunning with
  | none => t
  | some running =>
    match t.tickets.get? running with
    | none => t
    | some held =>
      if held.started then t
      else
        ((t.completeTicket running (some .badHandle)).stopFileIo handle
          h.ioIdle).endFileWorkLocked

def fenceHandleFileIoLocked (handle : ℕ) : FileTree :=
  match t.handles.get? handle with
  | none => t
  | some h =>
    let t := t.updateHandle handle ({ · with ioFenced := true })
    let t := t.dropRunning handle h
    let t := h.ioQueue.foldl dropTicket t
    t.updateHandle handle ({ · with ioQueue := [] })

def fenceFileWork : FileTree :=
  ((t.handles.toList.filter (·.2.listed)).map (·.1)).foldl fenceHandleFileIoLocked
    { t with fileStopping := true }

/-- `beginFileWork`; `retired` tells that the session is. -/
def beginFileWork (retired : Bool) : FileTree :=
  if t.fileStopping || retired then t
  else
    { t.countFileWork with
      works := insert t.nextWork t.works
      nextWork := t.nextWork + 1 }

/-- `endFileWork`, which follows a successful `beginFileWork` once. -/
def endFileWork (work : ℕ) : FileTree :=
  if work ∈ t.works then { t with works := t.works.erase work }.endFileWorkLocked
  else t

inductive Step where
  /-- A handle is reserved and bound to its reference. -/
  | openHandle
  /-- The handle enters or leaves the state `handleLive`. -/
  | setLive (handle : ℕ) (live : Bool)
  /-- `releaseFileHandle`. -/
  | releaseFileHandle (handle : ℕ)
  | enqueue (handle limit : ℕ) (refused : Bool)
  | start (ticket : ℕ)
  | finish (ticket : ℕ)
  | fenceHandle (handle : ℕ)
  | fenceFileWork
  | beginFileWork (retired : Bool)
  | endFileWork (work : ℕ)

def exec : Step → FileTree
  | .openHandle =>
    { t with
      handles := t.handles.set t.nextHandle ⟨true, true, 0, [], none, none, false⟩
      nextHandle := t.nextHandle + 1 }
  | .setLive handle live => t.updateHandle handle ({ · with live })
  | .releaseFileHandle handle => t.updateHandle handle ({ · with listed := false })
  | .enqueue handle limit refused =>
    match t.admitFileIo handle limit refused with
    | .error _ => t
    | .ok t => t
  | .start ticket =>
    -- `wait` gets here only through its `ready` channel
    if .ready ticket ∈ t.closes then t.start ticket else t
  | .finish ticket => t.finish ticket
  | .fenceHandle handle => t.fenceHandleFileIoLocked handle
  | .fenceFileWork => t.fenceFileWork
  | .beginFileWork retired => t.beginFileWork retired
  | .endFileWork work => t.endFileWork work

end FileTree

end Smb
end RemoteFs
