import RemoteFs.Lib.Runs
import RemoteFs.Lib.Table
import RemoteFs.Lib.Word
import RemoteFs.Storage.Publication

/-!
# The ledger of a volume under an allowance

`packages/storage/limited` keeps one count of bytes.  A publication charges its
growth when it is prepared and gives back what it shrinks when it is settled.
The machine below interleaves the critical sections of any number of
publications and of `Recount`; between the preparation and the settlement of a
publication the volume itself changes, and `usage` is what it then really holds.

The main invariant is one equation: the count exceeds what the volume holds by
exactly the charges that are not yet effective.
-/

namespace RemoteFs

open Storage (Failure PublicationResult)

namespace Limited

/-! ## The count -/

/-- An error kept as the reason to refuse further accounting;
`IsPublicationAccountingUncertain` tells whether it is marked as uncertain. -/
structure Fault where
  failure : Failure
  uncertain : Bool
  deriving DecidableEq

/-- The fields of `limited.Storage` that `countMu` guards, and the limit. -/
structure Storage where
  limit : Int64
  count : Int64
  fault : Option Fault
  revision : ℕ
  deriving DecidableEq

def MinLimit : Int64 := 4096

def floor (count : Int64) : Int64 := max count 0

def reserve (s : Storage) (name : String) (delta : Int64) : Except Failure (Int64 × Storage) :=
  match s.fault with
  | some fault => .error fault.failure
  | none =>
    -- a subtraction from the allowance: the sum with the count could wrap
    if 0 < delta ∧ s.limit - s.count < delta then
      .error ⟨.EDQUOT, s!"write {name}: {delta} more bytes would carry the " ++
        s!"volume past its allowance of {s.limit} bytes, of which " ++
        s!"{s.count} are taken"⟩
    else
      let charged := max delta 0
      .ok (charged, { s with
        count := s.count + charged
        revision := s.revision + 1 })

def release (s : Storage) (delta : Int64) : Storage :=
  { s with
    count := floor (s.count - delta)
    revision := s.revision + 1 }

/-- What the settlement of a prepared publication remembers. -/
structure Publication where
  name : String
  delta : Int64
  reserved : Int64
  /-- The volume has changed. -/
  committed : Bool
  deriving DecidableEq

def preparePublication (s : Storage) (name : String) (previous next : Int64) :
    Except Failure (Publication × Storage) :=
  let delta := next - previous
  match reserve s name delta with
  | .error err => .error err
  | .ok (reserved, s) => .ok (⟨name, delta, reserved, false⟩, s)

/-- The settlement that `preparePublication` returns. -/
def Publication.settle (p : Publication) (result : PublicationResult)
    (s : Storage) : Storage × Option Failure :=
  match result with
  | .notApplied => (release s p.reserved, none)
  | .applied => (if p.delta < 0 then release s (-p.delta) else s, none)
  | _ =>
    let fault := s.fault.getD ⟨(.mk Storage.Errno.EIO
      (s!"publication outcome for {p.name} is unknown; reopen the volume " ++
        "before using its allowance")), false⟩
    ({ s with fault := some fault }, some fault.failure)

def publicationError (s : Storage) (err : Fault) : Storage :=
  if !err.uncertain then s
  else if (s.fault.map (·.uncertain)).getD false then s
  else { s with fault := some err }

/-! ## Measuring -/

/-- What the backing volume answers to a measurement: its authoritative usage if
it is a `usageSource`, the check of its retained files if it has any, and the
result of the walk. -/
structure Backing where
  source : Option (Except Failure Int64)
  files : Option (Except Failure Unit)
  walk : Except Failure Int64

/-- A successful answer of the backing volume is what it holds. -/
structure Backing.Truthful (b : Backing) (usage : ℤ) : Prop where
  source : ∀ n, b.source = some (.ok n) → n.toInt = usage
  walk : ∀ n, b.walk = .ok n → n.toInt = usage

/-- The answers `ENOSYS` and `EOPNOTSUPP`, compared as bare values. -/
def unsupported (err : Failure) : Bool :=
  err = ⟨.ENOSYS, ""⟩ || err = ⟨.EOPNOTSUPP, ""⟩

/-- The part of `measureUsage` after the authoritative source. -/
def measureWalk (b : Backing) : Except Failure Int64 :=
  match b.files with
  | none => b.walk
  | some (.ok ()) => .error ⟨.EOPNOTSUPP,
      "retained files require authoritative usage measurement"⟩
  | some (.error err) =>
    if err = ⟨.EOPNOTSUPP, ""⟩ then b.walk else .error err

def measureUsage (b : Backing) : Except Failure Int64 :=
  match b.source with
  | none => measureWalk b
  | some (.ok count) =>
    if count < 0 then
      .error (.mk Storage.Errno.EIO s!"authoritative usage reports {count} bytes")
    else .ok count
  | some (.error err) =>
    if unsupported err then measureWalk b else .error err

/-- The call of `Recount` that holds the gate, by the last step it has made. -/
inductive Recount where
  | idle (last : Option (Except Failure Unit))
  | reading (attempt : ℕ)
  | measuring (attempt revision : ℕ)
  | measured (attempt revision : ℕ) (count : Int64)

/-- The bound of the loop in `Recount`. -/
def recountAttempts : ℕ := 8

/-! ## The machine -/

structure System where
  storage : Storage
  /-- Publications that are prepared and not yet settled. -/
  pending : Table ℕ Publication
  issued : ℕ
  /-- What the volume holds. -/
  usage : ℤ
  /-- The sum of the changes settled as applied. -/
  applied : ℤ
  recount : Recount

inductive Step where
  | prepare (name : String) (previous next : Int64)
  | commit (id : ℕ)
  | settle (id : ℕ) (result : PublicationResult)
  | publicationError (err : Fault)
  | startRecount
  | readRevision
  | measure (backing : Backing)
  | replace

namespace System

def initial (limit usage : Int64) : System where
  storage := ⟨limit, usage, none, 0⟩
  pending := .empty
  issued := 0
  usage := usage.toInt
  applied := 0
  recount := .idle none

variable (sys : System)

def prepare (name : String) (previous next : Int64) : System :=
  match preparePublication sys.storage name previous next with
  | .error _ => sys
  | .ok (p, storage) =>
    { sys with
      storage
      pending := sys.pending.set sys.issued p
      issued := sys.issued + 1 }

def commit (id : ℕ) : System :=
  match sys.pending.get? id with
  | none => sys
  | some p =>
    if p.committed then sys
    else
      { sys with
        pending := sys.pending.set id { p with committed := true }
        usage := sys.usage + p.delta.toInt }

/-- A settlement is consumed by its first use. -/
def settle (sys : System) (id : ℕ) (result : PublicationResult) : System :=
  match sys.pending.get? id with
  | none => sys
  | some p =>
    { sys with
      storage := (p.settle result sys.storage).1
      pending := sys.pending.erase id
      applied :=
        if result = .applied then sys.applied + p.delta.toInt
        else sys.applied }

def startRecount : System :=
  match sys.recount with
  | .idle _ =>
    match sys.storage.fault with
    | some fault =>
      { sys with recount := .idle (some (.error fault.failure)) }
    | none => { sys with recount := .reading 0 }
  | _ => sys

def readRevision : System :=
  match sys.recount with
  | .reading attempt =>
    { sys with recount := .measuring attempt sys.storage.revision }
  | _ => sys

def measure (backing : Backing) : System :=
  match sys.recount with
  | .measuring attempt revision =>
    match measureUsage backing with
    | .error err => { sys with recount := .idle (some (.error err)) }
    | .ok count => { sys with recount := .measured attempt revision count }
  | _ => sys

/-- The last critical section of an attempt: `count` replaces the old figure
unless the revision shows that something was charged or released meanwhile. -/
def replace (sys : System) : System :=
  match sys.recount with
  | .measured attempt revision count =>
    match sys.storage.fault with
    | some fault =>
      { sys with recount := .idle (some (.error fault.failure)) }
    | none =>
      if sys.storage.revision = revision then
        { sys with
          storage := { sys.storage with
            count
            revision := revision + 1 }
          recount := .idle (some (.ok ())) }
      else if attempt + 1 < recountAttempts then
        { sys with recount := .reading (attempt + 1) }
      else
        { sys with recount := .idle (some (.error ⟨.EAGAIN,
          "retained-file cleanup changed usage during every " ++
            "recount attempt"⟩)) }
  | _ => sys

def exec : Step → System
  | .prepare name previous next => sys.prepare name previous next
  | .commit id => sys.commit id
  | .settle id result => sys.settle id result
  | .publicationError err =>
    { sys with storage := Limited.publicationError sys.storage err }
  | .startRecount => sys.startRecount
  | .readRevision => sys.readRevision
  | .measure backing => sys.measure backing
  | .replace => sys.replace

end System

end Limited
end RemoteFs
