import Mathlib.Logic.Relation
import RemoteFs.Storage.Failure

/-!
# Error trees

A Go error is a tree: it may wrap one cause or join several, and an error with a
`Classification` method names its own result and hides its causes from
`ErrnoOf`, though not from `errors.Is`.  `ErrnoOf` folds the results of a join
with an operation that is associative and commutative, which is why neither the
order nor the nesting of the parts matters.  The object store prunes the trees
that object keys produce, so that their errnos are never taken for facts about
the volume.
-/

namespace RemoteFs.Storage

/-- An error as `ErrnoOf`, `errors.Is` and unwrapping see it.  A classified error
also answers `errors.Is` with a method of its own. -/
inductive Err where
  | nil
  | errno (errno : Errno)
  | number (value : ℕ)
  | canceled
  | deadlineExceeded
  | text (message : String)
  | classified (result : Err) (answers : Errno → Bool) (causes : List Err)
  | joined (text : String) (children : List Err)
  | wrapped (text : String) (cause : Err)

namespace Err

def isNil : Err → Bool
  | nil => true
  | _ => false

@[simp] lemma isNil_iff : err.isNil = true ↔ err = nil := by
  cases err <;> simp [isNil]

lemma tree_induction {motive : Err → Prop} (hnil : motive nil)
    (herrno : ∀ e, motive (errno e)) (hnumber : ∀ n, motive (number n))
    (hcanceled : motive canceled) (hdl : motive deadlineExceeded)
    (htext : ∀ message, motive (text message))
    (hclassified : ∀ result answers causes, motive result → (∀ cause ∈ causes, motive cause) →
      motive (classified result answers causes))
    (hjoined : ∀ message children, (∀ child ∈ children, motive child) →
      motive (joined message children))
    (hwrapped : ∀ message cause, motive cause → motive (wrapped message cause)) :
    ∀ err, motive err :=
  @Err.rec motive (fun children => ∀ child ∈ children, motive child) hnil
    herrno hnumber hcanceled hdl htext hclassified hjoined hwrapped
    (by simp) fun child rest hchild hrest => by simpa using ⟨hchild, hrest⟩

end Err

/-! ## Classification -/

mutual

/-- The errno that an error reports; `none` is success. -/
def ErrnoOf : Err → Option Errno
  | .nil => none
  | .classified result _ _ =>
    if result.isNil then some Errno.EIO else ErrnoOf result
  | .errno errno => some errno
  | .canceled => some .EINTR
  | .joined _ children => joinedErrno none children
  | .wrapped _ cause => if cause.isNil then some Errno.EIO else ErrnoOf cause
  | .number _ | .deadlineExceeded | .text _ => some Errno.EIO

/-- The loop over the parts of a join. -/
def joinedErrno (result : Option Errno) : List Err → Option Errno
  | [] => some (result.getD Errno.EIO)
  | child :: rest =>
    let next := ErrnoOf child
    if next = none then joinedErrno result rest
    else if result = none ∨ result = some .EINTR then joinedErrno next rest
    else if next = some .EINTR ∨ next = result then joinedErrno result rest
    else some Errno.EIO

end

/-- One turn of that loop without its early return. -/
def combine (result next : Option Errno) : Option Errno :=
  if next = none then result
  else if result = none ∨ result = some .EINTR then next
  else if next = some .EINTR ∨ next = result then result
  else some Errno.EIO

section

variable {result : Option Errno} {results : List (Option Errno)}

lemma combine_assoc (a b c : Option Errno) :
    combine (combine a b) c = combine a (combine b c) := by
  unfold combine
  grind

lemma combine_comm (a b : Option Errno) : combine a b = combine b a := by
  unfold combine
  grind

@[simp] lemma combine_none (result : Option Errno) : combine result none = result := rfl

@[simp] lemma none_combine (next : Option Errno) : combine none next = next := by
  cases next <;> rfl

lemma foldl_combine_top (results : List (Option Errno)) :
    results.foldl combine (some Errno.EIO) = some Errno.EIO := by
  induction results with
  | nil => rfl
  | cons next rest ih =>
    have hstays : combine (some Errno.EIO) next = some Errno.EIO := by
      unfold combine
      grind
    rw [List.foldl_cons, hstays, ih]

lemma joinedErrno_eq (children : List Err) (result : Option Errno) : joinedErrno result children =
      some (((children.map ErrnoOf).foldl combine result).getD Errno.EIO) := by
  induction children generalizing result with
  | nil => simp [joinedErrno]
  | cons child rest ih =>
    simp only [joinedErrno, ih, List.map_cons, List.foldl_cons]
    unfold combine
    split_ifs
    · rfl
    · rfl
    · rfl
    · simp [← combine.eq_1, foldl_combine_top]

lemma foldl_combine_eq (result : Option Errno) (results : List (Option Errno)) :
    results.foldl combine result = combine result (results.foldl combine none) := by
  induction results generalizing result with
  | nil => rfl
  | cons next rest ih =>
    rw [List.foldl_cons, List.foldl_cons, ih, ih (combine none next), combine_assoc, none_combine]

lemma combine_foldl_of_mem (hpart : part ∈ results) :
    combine part (results.foldl combine none) = results.foldl combine none := by
  have hself : combine part part = part := by
    unfold combine
    grind
  obtain ⟨before, after, rfl⟩ := List.append_of_mem hpart
  rw [List.foldl_append, List.foldl_cons, foldl_combine_eq _ after,
    ← combine_assoc, combine_comm _ part, ← combine_assoc, hself]

lemma foldl_combine_eq_EINTR_iff : results.foldl combine result = some .EINTR ↔
      (result = some .EINTR ∨ (result = none ∧ some .EINTR ∈ results)) ∧
        ∀ next ∈ results, next = none ∨ next = some .EINTR := by
  induction results generalizing result with
  | nil => simp
  | cons next rest ih =>
    rw [List.foldl_cons, ih, List.forall_mem_cons, List.mem_cons]
    -- the rest of the list enters only through two facts about it
    generalize (∀ next ∈ rest, next = none ∨ next = some .EINTR) = hrest
    generalize (some Errno.EINTR ∈ rest) = hlater
    unfold combine
    grind

lemma mem_of_foldl_combine (hknown : errno ≠ Errno.EIO)
    (hfo : results.foldl combine result = some errno) :
    result = some errno ∨ some errno ∈ results := by
  induction results generalizing result with
  | nil => exact .inl hfo
  | cons next rest ih =>
    rcases ih hfo with hnow | hlater
    · unfold combine at hnow
      grind
    · exact .inr (List.mem_cons_of_mem _ hlater)

end

lemma ErrnoOf_joined (message : String) (children : List Err) :
    ErrnoOf (.joined message children) =
      some (((children.map ErrnoOf).foldl combine none).getD Errno.EIO) := by
  rw [ErrnoOf, joinedErrno_eq]

lemma ErrnoOf_eq_none_iff : ErrnoOf err = none ↔ err = .nil := by
  induction err using Err.tree_induction with
  | hclassified result answers causes ih _ =>
    rw [ErrnoOf]
    split_ifs <;> simp_all
  | hjoined message children _ => simp [ErrnoOf_joined]
  | hwrapped message cause ih =>
    rw [ErrnoOf]
    split_ifs <;> simp_all
  | _ => simp [ErrnoOf]

lemma ErrnoOf_wrapped (hne : cause ≠ .nil) :
    ErrnoOf (.wrapped message cause) = ErrnoOf cause := by
  rw [ErrnoOf, if_neg (by simpa using hne)]

lemma ErrnoOf_classified {answers : Errno → Bool} (hne : result ≠ .nil) :
    ErrnoOf (.classified result answers causes) = ErrnoOf result := by
  rw [ErrnoOf, if_neg (by simpa using hne)]

/-- A tree whose parts are all cancellations: what classifications, wraps and
joins leave of it is a canceled context or `EINTR`. -/
inductive Cancellation : Err → Prop
  | canceled : Cancellation .canceled
  | interrupted : Cancellation (.errno .EINTR)
  | classified {result : Err} {answers : Errno → Bool} {causes : List Err}
    (hresult : Cancellation result) :
    Cancellation (.classified result answers causes)
  | joined {message : String} {children : List Err} (hsome : ∃ child ∈ children, child ≠ .nil)
    (hparts : ∀ child ∈ children, child ≠ .nil → Cancellation child) :
    Cancellation (.joined message children)
  | wrapped {message : String} {cause : Err} (hcause : Cancellation cause) :
    Cancellation (.wrapped message cause)

lemma Cancellation.errno (h : Cancellation err) : ErrnoOf err = some .EINTR := by
  induction h with
  | canceled => rfl
  | interrupted => rfl
  | @classified result _ _ _ ih =>
    rw [ErrnoOf_classified, ih]
    rintro rfl
    cases ih
  | @joined message children hsome _ ih =>
    have hfo : (children.map ErrnoOf).foldl combine none = some .EINTR := by
      rw [foldl_combine_eq_EINTR_iff]
      obtain ⟨child, hm, hne⟩ := hsome
      refine ⟨.inr ⟨rfl, List.mem_map.mpr ⟨child, hm, ih child hm hne⟩⟩, ?_⟩
      simp only [List.mem_map, forall_exists_index, and_imp,
        forall_apply_eq_imp_iff₂, ErrnoOf_eq_none_iff]
      exact fun child hm => Classical.or_iff_not_imp_left.mpr (ih child hm)
    rw [ErrnoOf_joined, hfo]
    rfl
  | @wrapped _ cause _ ih =>
    rw [ErrnoOf_wrapped, ih]
    rintro rfl
    cases ih

lemma cancellation_of_errno (h : ErrnoOf err = some .EINTR) : Cancellation err := by
  induction err using Err.tree_induction with
  | herrno errno => cases h; exact .interrupted
  | hcanceled => exact .canceled
  | hclassified result answers causes ih _ =>
    rw [ErrnoOf] at h
    split_ifs at h
    · cases h
    · exact .classified (ih h)
  | hjoined message children ih =>
    rw [ErrnoOf_joined, Option.some.injEq] at h
    have hfo : (children.map ErrnoOf).foldl combine none = some .EINTR := by
      cases hfo : (children.map ErrnoOf).foldl combine none <;> simp_all
    obtain ⟨hsome, hparts⟩ := foldl_combine_eq_EINTR_iff.mp hfo
    simp only [reduceCtorEq, true_and, false_or, List.mem_map] at hsome
    simp only [List.mem_map, forall_exists_index, and_imp,
      forall_apply_eq_imp_iff₂, ErrnoOf_eq_none_iff] at hparts
    obtain ⟨child, hm, herrno⟩ := hsome
    refine .joined ⟨child, hm, fun hnil => ?_⟩ fun child hm hne =>
      ih child hm ((hparts child hm).resolve_left hne)
    rw [ErrnoOf_eq_none_iff.mpr hnil] at herrno
    cases herrno
  | hwrapped message cause ih =>
    rw [ErrnoOf] at h
    split_ifs at h
    · cases h
    · exact .wrapped (ih h)
  | _ => cases h

/-- Neither the order nor the nesting of joined errors matters; only success has
no errno, parts that disagree report `EIO`, and only cancellations report
`EINTR`. -/
theorem errnoOf_join_laws : (∀ message (children children' : List Err), children.Perm children' →
      ErrnoOf (.joined message children) = ErrnoOf (.joined message children')) ∧
    (∀ message inside (before inner after : List Err), (∃ child ∈ inner, child ≠ .nil) →
      ErrnoOf (.joined message (before ++ .joined inside inner :: after)) =
        ErrnoOf (.joined message (before ++ inner ++ after))) ∧
    (∀ err, ErrnoOf err = none ↔ err = .nil) ∧
    (∀ message (children : List Err), ∀ a ∈ children, ∀ b ∈ children,
      a ≠ .nil → b ≠ .nil → ErrnoOf a ≠ some .EINTR →
      ErrnoOf b ≠ some .EINTR → ErrnoOf a ≠ ErrnoOf b →
      ErrnoOf (.joined message children) = some Errno.EIO) ∧
    ∀ err, ErrnoOf err = some .EINTR ↔ Cancellation err := by
  refine ⟨fun message children children' hperm => ?_,
    fun message inside before inner after hsome => ?_,
    fun err => ErrnoOf_eq_none_iff,
    fun message children a ha b hb hane hbne ha' hb' hdiffer => ?_,
    fun err => ⟨cancellation_of_errno, Cancellation.errno⟩⟩
  · have hfo : (children.map ErrnoOf).foldl combine none =
        (children'.map ErrnoOf).foldl combine none := by
      refine (hperm.map ErrnoOf).foldl_eq' (fun x _ y _ z => ?_) none
      rw [combine_assoc, combine_comm x, ← combine_assoc]
    rw [ErrnoOf_joined, ErrnoOf_joined, hfo]
  · obtain ⟨child, hm, hne⟩ := hsome
    have hbelow := combine_foldl_of_mem
      (List.mem_map_of_mem (f := ErrnoOf) hm)
    have hinner : ErrnoOf (.joined inside inner) = (inner.map ErrnoOf).foldl combine none := by
      rw [ErrnoOf_joined]
      cases hfo : (inner.map ErrnoOf).foldl combine none with
      | none =>
        rw [hfo, combine_none, ErrnoOf_eq_none_iff] at hbelow
        exact absurd hbelow hne
      | some errno => rfl
    rw [ErrnoOf_joined, ErrnoOf_joined]
    simp only [List.map_append, List.map_cons, List.foldl_append,
      List.foldl_cons, hinner, ← foldl_combine_eq]
  · have hbelow := combine_foldl_of_mem (List.mem_map_of_mem (f := ErrnoOf) ha)
    have hbelow' := combine_foldl_of_mem (List.mem_map_of_mem (f := ErrnoOf) hb)
    rw [ne_eq, ← ErrnoOf_eq_none_iff] at hane hbne
    rw [ErrnoOf_joined]
    revert hbelow hbelow'
    generalize (children.map ErrnoOf).foldl combine none = result
    unfold combine
    grind

end RemoteFs.Storage
