import Mathlib.Tactic

/-!
# Errors of the storage layer

The Go code reports errno values, sometimes wrapped in a text.  Both parts are
kept.  Validation code is a sequence of guards; `refuse` is one guard, and the
lemmas about it turn an accepted sequence into the conjunction of the negated
conditions.
-/

namespace RemoteFs.Storage

inductive Errno where
  | EINVAL
  | ESTALE
  | ENOLCK
  | EOVERFLOW
  | EOPNOTSUPP
  | EIO
  | EBADF
  | EAGAIN
  | ENOSYS
  | EDQUOT
  | EACCES
  | EPERM
  | ENOENT
  | EEXIST
  | ENOTDIR
  | EISDIR
  | ENOTEMPTY
  | ELOOP
  | EBUSY
  | EFBIG
  | EMFILE
  | ENOSPC
  | ENAMETOOLONG
  | EDEADLK
  | EINTR
  | EMLINK
  | ENFILE
  | ENODEV
  | ENOMEM
  | ENXIO
  | EROFS
  | ETXTBSY
  | EXDEV
  deriving DecidableEq, Repr

structure Failure where
  errno : Errno
  text : String := ""
  deriving DecidableEq, Repr

/-- One validation guard: the failure is returned exactly when the condition
holds. -/
def refuse (condition : Prop) [Decidable condition] (failure : ε) : Except ε Unit :=
  if condition then .error failure else .ok ()

@[simp] lemma refuse_ok {ε : Type} {condition : Prop} [Decidable condition] {failure : ε} :
    refuse condition failure = .ok () ↔ ¬condition := by
  unfold refuse
  split_ifs with hcondition <;> simp [hcondition]

lemma check_bind_ok {ε α : Type} {first : Except ε Unit} {next : Unit → Except ε α} {a : α} :
    (first >>= next) = .ok a ↔ first = .ok () ∧ next () = .ok a := by
  cases first with
  | error | ok => simp [bind, Except.bind]

lemma bind_ok {ε α β : Type} {first : Except ε α} {next : α → Except ε β} {b : β} :
    (first >>= next) = .ok b ↔ ∃ a, first = .ok a ∧ next a = .ok b := by
  cases first with
  | error | ok => simp [bind, Except.bind]

end RemoteFs.Storage
