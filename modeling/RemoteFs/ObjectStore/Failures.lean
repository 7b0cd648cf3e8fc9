import RemoteFs.Storage.Errors

/-!
# Object failures are not volume facts

`objectFailure` and `internalFailure` report what an object key did wrong.  An
errno among those causes that would read as a fact about the volume is pruned
away; what carries no such errno stays below the error that is returned.
-/

namespace RemoteFs.Storage

open Relation (ReflTransGen)

/-! ## The other readers of a tree -/

mutual

/-- `errors.Is` with an errno as its target. -/
def Err.is (target : Errno) : Err → Bool
  | .errno found => found = target
  | .classified _ answers causes => answers target || Err.anyIs target causes
  | .joined _ children => Err.anyIs target children
  | .wrapped _ cause => Err.is target cause
  | .nil | .number _ | .canceled | .deadlineExceeded | .text _ => false

def Err.anyIs (target : Errno) : List Err → Bool
  | [] => false
  | child :: rest => Err.is target child || Err.anyIs target rest

end

/-- One `Unwrap`, of either signature. -/
inductive Unwraps : Err → Err → Prop
  | wrapped (message : String) (cause : Err) : Unwraps (.wrapped message cause) cause
  | joined {message : String} {children : List Err} {child : Err}
    (hm : child ∈ children) : Unwraps (.joined message children) child
  | classified {result : Err} {answers : Errno → Bool} {causes : List Err}
    {cause : Err} (hm : cause ∈ causes) :
    Unwraps (.classified result answers causes) cause

mutual

/-- A classified error satisfies `errors.Is` for its classification. -/
def Honest : Err → Prop
  | .classified result answers causes =>
    (∀ target, Err.is target result = true →
      Err.is target (.classified result answers causes) = true) ∧ Honest result
  | .joined _ children => HonestAll children
  | .wrapped _ cause => Honest cause
  | .nil | .errno _ | .number _ | .canceled | .deadlineExceeded | .text _ => True

def HonestAll : List Err → Prop
  | [] => True
  | child :: rest => Honest child ∧ HonestAll rest

end

lemma Err.anyIs_eq_any (target : Errno) (children : List Err) :
    Err.anyIs target children = children.any (Err.is target) := by
  induction children with
  | nil => rfl
  | cons child rest ih => rw [Err.anyIs, ih, List.any_cons]

lemma honestAll_iff {children : List Err} :
    HonestAll children ↔ ∀ child ∈ children, Honest child := by
  induction children with
  | nil => simp [HonestAll]
  | cons child rest ih => simp [HonestAll, ih]

/-- An errno that is more than a summary stands somewhere in the tree. -/
lemma is_of_ErrnoOf {err : Err} {errno : Errno} (hio : errno ≠ Errno.EIO) (hintr : errno ≠ .EINTR)
    (hhonest : Honest err) (herrno : ErrnoOf err = some errno) : Err.is errno err = true := by
  induction err using Err.tree_induction with
  | herrno found => simpa [ErrnoOf, Err.is] using herrno
  | hclassified result answers causes ih _ =>
    rw [ErrnoOf] at herrno
    split_ifs at herrno
    · exact absurd (Option.some.inj herrno).symm hio
    · exact hhonest.1 errno (ih hhonest.2 herrno)
  | hjoined message children ih =>
    rw [ErrnoOf_joined, Option.some.injEq] at herrno
    have hfold : (children.map ErrnoOf).foldl combine none = some errno := by
      cases hfold : (children.map ErrnoOf).foldl combine none <;> simp_all
    rcases mem_of_foldl_combine hio hfold with hnone | hm
    · cases hnone
    obtain ⟨child, hchild, hreports⟩ := List.mem_map.mp hm
    rw [Err.is, Err.anyIs_eq_any, List.any_eq_true]
    exact ⟨child, hchild, ih child hchild (honestAll_iff.mp hhonest child hchild) hreports⟩
  | hwrapped message cause ih =>
    rw [ErrnoOf] at herrno
    split_ifs at herrno
    · exact absurd (Option.some.inj herrno).symm hio
    · exact ih hhonest herrno
  | _ => simp_all [ErrnoOf]

/-! ## Pruning -/

def volumeFacts : List Errno :=
  [.ENOENT, .EEXIST, .EISDIR, .ENOTDIR, .ENOTEMPTY, .EINVAL]

lemma volumeFacts_ne : ∀ fact ∈ volumeFacts, fact ≠ Errno.EIO ∧ fact ≠ .EINTR := by decide

def isVolumeFact (err : Err) : Bool :=
  volumeFacts.any (Err.is · err)

mutual

def acceptedSubtrees (reject : Err → Bool) : Err → List Err
  | .nil => []
  | .classified result answers causes =>
    if reject (.classified result answers causes) then []
    else [.classified result answers causes]
  | .joined message children =>
    if reject (.joined message children) then acceptedAmong reject children
    else [.joined message children]
  | .wrapped message cause =>
    if reject (.wrapped message cause) then acceptedSubtrees reject cause
    else [.wrapped message cause]
  | .errno errno => if reject (.errno errno) then [] else [.errno errno]
  | .number value => if reject (.number value) then [] else [.number value]
  | .canceled => if reject .canceled then [] else [.canceled]
  | .deadlineExceeded =>
    if reject .deadlineExceeded then [] else [.deadlineExceeded]
  | .text message => if reject (.text message) then [] else [.text message]

def acceptedAmong (reject : Err → Bool) : List Err → List Err
  | [] => []
  | child :: rest => acceptedSubtrees reject child ++ acceptedAmong reject rest

end

/-- The result unwraps to `EIO` and to the subtrees that were accepted. -/
def sanitizeFailure (description : String) (err : Err) (reject : Err → Bool) : Err :=
  .joined description (.errno Errno.EIO :: acceptedSubtrees reject err)

def objectFailure (action path : String) (err : Err) : Err :=
  if isVolumeFact err then
    sanitizeFailure
      s!"{action} the contents of {path} failed with an object-key result" err
      isVolumeFact
  else .wrapped s!"{action} the contents of {path}" err

def internalFailure (action path : String) (err : Err) : Err :=
  if isVolumeFact err then
    sanitizeFailure
      s!"{action} the object reserved for {path} reached an internal state" err
      isVolumeFact
  else .wrapped s!"{action} the object reserved for {path}" err

lemma acceptedAmong_eq (reject : Err → Bool) (children : List Err) :
    acceptedAmong reject children = children.flatMap (acceptedSubtrees reject) := by
  induction children with
  | nil => rfl
  | cons child rest ih => rw [acceptedAmong, ih, List.flatMap_cons]

section

variable {reject : Err → Bool} {err sub : Err}

lemma acceptedSubtrees_of_accepted (hne : err ≠ .nil)
    (haccepted : reject err = false) : acceptedSubtrees reject err = [err] := by
  cases err <;> simp_all [acceptedSubtrees]

lemma not_reject_of_mem (hm : sub ∈ acceptedSubtrees reject err) : reject sub = false := by
  induction err using Err.tree_induction with
  | hjoined message children ih =>
    rw [acceptedSubtrees] at hm
    split_ifs at hm with hreject
    · rw [acceptedAmong_eq, List.mem_flatMap] at hm
      obtain ⟨child, hchild, hsub⟩ := hm
      exact ih child hchild hsub
    · simp_all
  | hwrapped message cause ih =>
    rw [acceptedSubtrees] at hm
    split_ifs at hm with hreject
    · exact ih hm
    · simp_all
  | _ =>
    rw [acceptedSubtrees] at hm
    first
      | cases hm
      | split_ifs at hm
        · cases hm
        · simp_all

/-- One `Unwrap` of an error that is not a rejected classified one. -/
def Exposes (reject : Err → Bool) (err part : Err) : Prop :=
  Unwraps err part ∧
    ∀ result answers causes, err = .classified result answers causes →
      reject err = false

lemma exists_accepted (hexposed : ReflTransGen (Exposes reject) err sub)
    (hne : sub ≠ .nil) (haccepted : reject sub = false) :
    ∃ kept ∈ acceptedSubtrees reject err, ReflTransGen Unwraps kept sub := by
  induction hexposed using ReflTransGen.head_induction_on with
  | refl =>
    rw [acceptedSubtrees_of_accepted hne haccepted]
    exact ⟨sub, List.mem_singleton_self _, .refl⟩
  | @head err part hfirst hrest ih =>
    obtain ⟨hunwraps, hopen⟩ := hfirst
    cases hreject : reject err with
    | false =>
      have hnil : err ≠ .nil := by
        rintro rfl
        cases hunwraps
      rw [acceptedSubtrees_of_accepted hnil hreject]
      exact ⟨err, List.mem_singleton_self _, .head hunwraps
        (ReflTransGen.mono (fun _ _ hstep => hstep.1) _ _ hrest)⟩
    | true =>
      obtain ⟨kept, hk, hreaches⟩ := ih
      refine ⟨kept, ?_, hreaches⟩
      cases hunwraps with
      | wrapped message cause => rwa [acceptedSubtrees, if_pos hreject]
      | joined hm =>
        rw [acceptedSubtrees, if_pos hreject, acceptedAmong_eq, List.mem_flatMap]
        exact ⟨part, hm, hk⟩
      | classified hm => cases hreject.symm.trans (hopen _ _ _ rfl)

end

lemma isVolumeFact_eq_false_iff {err : Err} :
    isVolumeFact err = false ↔ ∀ fact ∈ volumeFacts, Err.is fact err = false := by
  simp [isVolumeFact]

lemma ErrnoOf_sanitizeFailure (description : String) (err : Err) (reject : Err → Bool) :
    ErrnoOf (sanitizeFailure description err reject) = some Errno.EIO := by
  rw [sanitizeFailure, ErrnoOf_joined, List.map_cons, List.foldl_cons, ErrnoOf,
    none_combine, foldl_combine_top]
  rfl

lemma sanitizeFailure_hides (description : String) (err : Err) :
    isVolumeFact (sanitizeFailure description err isVolumeFact) = false := by
  rw [isVolumeFact_eq_false_iff]
  intro fact hfact
  rw [sanitizeFailure, Err.is, Err.anyIs_eq_any, List.any_cons]
  have hio : Err.is fact (.errno Errno.EIO) = false := by
    simpa [Err.is] using (volumeFacts_ne fact hfact).1.symm
  rw [hio, Bool.false_or, List.any_eq_false]
  intro kept hk
  rw [isVolumeFact_eq_false_iff.mp (not_reject_of_mem hk) fact hfact]
  exact Bool.false_ne_true

/-- Neither failure function returns an error that reads as a fact about the
volume, and both keep what carries no such fact. -/
theorem object_failures_hide_volume_facts (action path : String) (err : Err)
    (hhonest : Honest err) :
    ∀ failed ∈ [objectFailure action path err, internalFailure action path err],
      (∀ fact ∈ volumeFacts, Err.is fact failed = false ∧ ErrnoOf failed ≠ some fact) ∧
      ∀ sub, sub ≠ .nil → isVolumeFact sub = false → ReflTransGen (Exposes isVolumeFact) err sub →
          ReflTransGen Unwraps failed sub := by
  have hshape : ∀ description plain, ∀ failed, failed = (if isVolumeFact err then
        sanitizeFailure description err isVolumeFact
        else .wrapped plain err) →
      (∀ fact ∈ volumeFacts, Err.is fact failed = false ∧ ErrnoOf failed ≠ some fact) ∧
      ∀ sub, sub ≠ .nil → isVolumeFact sub = false → ReflTransGen (Exposes isVolumeFact) err sub →
          ReflTransGen Unwraps failed sub := by
    rintro description plain failed rfl
    split_ifs with hfact
    · refine ⟨fun fact hm => ⟨isVolumeFact_eq_false_iff.mp
        (sanitizeFailure_hides description err) fact hm, ?_⟩,
        fun sub hne haccepted hexposed => ?_⟩
      · rw [ErrnoOf_sanitizeFailure]
        exact fun heq => (volumeFacts_ne fact hm).1 (Option.some.inj heq).symm
      · obtain ⟨kept, hk, hreaches⟩ := exists_accepted hexposed hne haccepted
        exact .head (.joined (List.mem_cons_of_mem _ hk)) hreaches
    rw [Bool.not_eq_true] at hfact
    have hnot := isVolumeFact_eq_false_iff.mp hfact
    refine ⟨fun fact hm => ⟨hnot fact hm, fun hreports => ?_⟩,
      fun sub _ _ hexposed => .head (.wrapped _ _)
        (ReflTransGen.mono (fun _ _ hstep => hstep.1) _ _ hexposed)⟩
    rw [ErrnoOf] at hreports
    split_ifs at hreports
    · exact (volumeFacts_ne fact hm).1 (Option.some.inj hreports).symm
    · obtain ⟨hio, hintr⟩ := volumeFacts_ne fact hm
      cases (is_of_ErrnoOf hio hintr hhonest hreports).symm.trans (hnot fact hm)
  intro failed hfailed
  simp only [List.mem_cons, List.not_mem_nil, or_false] at hfailed
  rcases hfailed with rfl | rfl
  · exact hshape _ _ _ rfl
  · exact hshape _ _ _ rfl

/-- A missing object hides behind `EIO`; the text joined to it stays. -/
theorem object_failures_hide_missing_object :
    let err := Err.joined "" [.errno .ENOENT, .text "retry"]
    isVolumeFact err = true ∧ Err.is .ENOENT (objectFailure "reading" "a" err) = false ∧
      ReflTransGen Unwraps (objectFailure "reading" "a" err) (.text "retry") := by
  have hhides := object_failures_hide_volume_facts "reading" "a"
    (.joined "" [.errno .ENOENT, .text "retry"]) ⟨trivial, trivial, trivial⟩ _
    List.mem_cons_self
  refine ⟨by decide, (hhides.1 .ENOENT (by decide)).1, ?_⟩
  refine hhides.2 _ (fun hnil => by cases hnil) (by decide) (.single ⟨.joined ?_,
    fun _ _ _ hclassified => by cases hclassified⟩)
  simp

end RemoteFs.Storage
