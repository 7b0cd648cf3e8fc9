import RemoteFs.Advisory.Sessions

/-!
# Runs of the coordinator

A run interleaves critical sections of any number of calls.  The sections that
a native order callback guards are steps of their own, so a callback that
fails without running its transition is a run in which that step is absent,
and a retry by `pump`, `Query` or `Apply` may happen at any point.
-/

namespace RemoteFs.Advisory

open Storage

inductive Section where
  | newSession (options : FileSessionOptions) (fence : Bool)
  | newOwner (session node : ℕ) (scope : UseScope) (options : OwnerOptions)
  | apply (session node owner : ℕ) (commands : List RangeCommand) (id : LockRequestID)
  | advance (ref : RequestRef)
  | applyReceipt (session : ℕ) (id : LockRequestID) (ref : RequestRef)
  | queryReceipt (session : ℕ) (ref : RequestRef)
  | find (session node owner : ℕ) (id : LockRequestID)
  | requestNode (session owner : ℕ) (id : LockRequestID)
  | cancel (session node owner : ℕ) (id : LockRequestID)
  | drop (session node owner : ℕ) (domain : ConflictDomain)
  | retireOwner (session owner : ℕ)
  | history (session : ℕ)
  | closeAdmission (session : ℕ)
  | beginRetire (session : ℕ)
  | endRetire (session : ℕ) (fence : Except Failure Unit)
  | addUse (node : ℕ) (scope : UseScope) (claim : UseClaim)
  | dropUse (node : ℕ) (scope : UseScope)
  | dropUseExact (node : ℕ) (scope : UseScope) (claim : UseClaim)

def Coordinator.exec (c : Coordinator) : Section → Coordinator
  | .newSession options fence => (c.newSession options fence).state
  | .newOwner session node scope options =>
    (c.newOwner session node scope options).state
  | .apply session node owner commands id =>
    (c.applyOrdered session node owner commands id).state
  | .advance ref => (c.advanceOrdered ref).state
  | .applyReceipt session id ref => (c.applyReceipt session id ref).state
  | .queryReceipt session ref => (c.queryReceipt session ref).state
  | .find session node owner id => (c.findLocked session node owner id).state
  | .requestNode session owner id => (c.requestLocked session owner id).state
  | .cancel session node owner id => (c.cancel session node owner id).state
  | .drop session node owner domain => (c.drop session node owner domain).state
  | .retireOwner session owner => (c.retireOwner session owner).state
  | .history session => (c.history session).state
  | .closeAdmission session => (c.closeAdmission session).state
  | .beginRetire session => (c.beginRetire session).state
  | .endRetire session fence => (c.endRetire session fence).state
  | .addUse node scope claim => (c.addUse node scope claim).state
  | .dropUse node scope => (c.dropUse node scope).state
  | .dropUseExact node scope claim => (c.dropUseExact node scope claim).state

end RemoteFs.Advisory
