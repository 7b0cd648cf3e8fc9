import RemoteFs.Metastore.Changes

/-!
# Open nodes below a directory

`checkNoOpenDescendants` of `namespace_guards.go`: a directory may not be moved
while a node below it is open.  The search climbs from every pinned node towards
the root, and all climbs share one budget.  The rows of the tables stand in typed
columns; the order in which the pins are visited is the order of the list.  `ctx` is
what the context says at each charge, told apart by the budget that is left.
-/

namespace RemoteFs.Metastore

open Storage (Errno Failure)

structure NameRow where
  volume : ℤ
  kind : NodeKind
  detached : Bool

structure EntryRow where
  volume : ℤ
  parent : ℤ
  name : Storage.Text
  node : ℤ

/-- `storage.NameObservation` without the bytes of the name. -/
inductive NameState where
  | root
  | detached
  | linked (parent : ℤ)

/-- The rows that the store reads, with its volume and root. -/
structure NameTable where
  volume : ℤ
  root : ℤ
  nodes : ℤ → Option NameRow
  entries : List EntryRow

namespace NameTable

variable (s : NameTable)

def entriesOf (id : ℤ) : List EntryRow := s.entries.filter (·.node = id)

def parentFits (id : ℤ) (entry : EntryRow) : Bool :=
  entry.volume = s.volume ∧ 1 ≤ entry.parent ∧ entry.parent ≠ id ∧ entry.name ≠ [] ∧
    (s.nodes entry.parent).any fun p =>
      p.kind = .directory ∧ p.volume = s.volume ∧ p.detached = false

def nameObservationHeader (id : ℤ) : Except Errno NameState :=
  match s.nodes id with
  | none => .error Errno.EIO
  | some node =>
    if node.volume ≠ s.volume then .error Errno.EIO
    else
      match (s.entriesOf id).take 2 with
      | [] =>
        if id = s.root then
          if node.detached ∨ node.kind ≠ .directory then .error Errno.EIO
          else .ok .root
        else if node.detached then .ok .detached
        else .error Errno.EIO
      | [entry] =>
        if s.parentFits id entry ∧ id ≠ s.root ∧ node.detached = false then
          .ok (.linked entry.parent)
        else .error Errno.EIO
      | _ => .error Errno.EIO

inductive SearchError where
  | errno (errno : Errno)
  /-- The error of the context. -/
  | context (err : Failure)
  deriving DecidableEq

variable (ctx : ℕ → Option Failure)

/-- One unit of work: the budget that is left after it. -/
def charge (remaining : ℕ) : Except SearchError ℕ :=
  match ctx remaining with
  | some err => .error (.context err)
  | none => if remaining = 0 then .error (.errno .EFBIG) else .ok (remaining - 1)

/-- The inner loop, with the budget that is left. -/
def climb (source candidate : ℤ) : ℕ → List ℤ → ℤ → Except SearchError ℕ
  | 0, _, _ => charge ctx 0
  | remaining + 1, seen, id =>
    match charge ctx (remaining + 1) with
    | .error err => .error err
    | .ok _ =>
      if id ∈ seen then .error (.errno Errno.EIO)
      else
        match s.nameObservationHeader id with
        | .error errno => .error (.errno errno)
        | .ok .detached =>
          if id ≠ candidate then .error (.errno Errno.EIO) else .ok remaining
        | .ok .root => .ok remaining
        | .ok (.linked parent) =>
          if parent = source then .error (.errno .EACCES)
          else climb source candidate remaining (id :: seen) parent

/-- The outer loop over the pins and their counts. -/
def visitPins (source : ℤ) : ℕ → List (ℤ × ℤ) → Except SearchError Unit
  | _, [] => .ok ()
  | remaining, (candidate, count) :: pins =>
    if count ≤ 0 ∨ candidate = source then visitPins source remaining pins
    else
      match charge ctx remaining with
      | .error err => .error err
      | .ok left =>
        match s.climb ctx source candidate left [] candidate with
        | .error err => .error err
        | .ok left => visitPins source left pins

def checkNoOpenDescendants (maxFiles maxIntegrityRecords : ℕ) (pins : List (ℤ × ℤ))
    (source : ℤ) : Except SearchError Unit :=
  if maxFiles < pins.length then .error (.errno .EFBIG)
  else s.visitPins ctx source maxIntegrityRecords pins

/-! ## Trees -/

/-- The one entry of a node says who its parent is. -/
def Below (child parent : ℤ) : Prop :=
  ∃ entry ∈ s.entries, entry.node = child ∧ entry.parent = parent

/-- A node of the volume that is the root, is detached, or has its one entry in a
directory. -/
inductive Placed (id : ℤ) (node : NameRow) : Prop where
  | root (hroot : id = s.root) (hfree : s.entriesOf id = [])
      (hk : node.detached = false) (hkind : node.kind = .directory)
  | detached (hroot : id ≠ s.root) (hfree : s.entriesOf id = [])
      (hdetached : node.detached = true)
  | linked (entry : EntryRow) (hroot : id ≠ s.root) (hone : s.entriesOf id = [entry])
      (hfits : s.parentFits id entry = true) (hk : node.detached = false)

/-- A pin of an open node, other than the source, that lies below it. -/
def OpenBelow (source : ℤ) (pin : ℤ × ℤ) : Prop :=
  0 < pin.2 ∧ pin.1 ≠ source ∧ Relation.TransGen s.Below pin.1 source

/-- A node of the volume. -/
def Has (id : ℤ) (node : NameRow) : Prop :=
  s.nodes id = some node ∧ node.volume = s.volume

/-- Every node of the volume is placed, and no node is below itself. -/
structure IsTree : Prop where
  placed : ∀ {id node}, s.Has id node → s.Placed id node
  acyclic : ∀ id, ¬Relation.TransGen s.Below id id

end NameTable

/-- A tree with the pins of its open nodes. -/
structure PinnedTree extends NameTable where
  pins : List (ℤ × ℤ)
  isTree : toNameTable.IsTree
  pinned : ∀ pin ∈ pins, ∃ node, toNameTable.Has pin.1 node

/-- A search that decides a fact, unless its budget is spent or the context ends;
`passed` is what holds of the result of one that finds nothing. -/
def Decides {α : Type} (ctx : ℕ → Option Failure) (result : Except NameTable.SearchError α)
    (spent found : Prop) (passed : α → Prop) : Prop :=
  result = .error (.errno .EFBIG) ∧ spent ∨
    (∃ n err, ctx n = some err ∧ result = .error (.context err)) ∨
    result = .error (.errno .EACCES) ∧ found ∨ ∃ left, result = .ok left ∧ passed left ∧ ¬found

namespace NameTable

variable {s : NameTable} {id candidate : ℤ}

lemma below_iff (hone : s.entriesOf id = [entry]) :
    s.Below id parent ↔ parent = entry.parent := by
  have hm : ∀ e, e ∈ s.entriesOf id ↔ e ∈ s.entries ∧ e.node = id := by
    intro e
    simp [entriesOf]
  simp only [hone, List.mem_singleton] at hm
  constructor
  · rintro ⟨e, he, hnod, rfl⟩
    rw [(hm e).mpr ⟨he, hnod⟩]
  · rintro rfl
    obtain ⟨he, hnod⟩ := (hm entry).mp rfl
    exact ⟨entry, he, hnod, rfl⟩

lemma not_below (hfree : s.entriesOf id = []) : ¬s.Below id parent := by
  rintro ⟨e, he, hnod, -⟩
  have hm : e ∈ s.entriesOf id := by simp [entriesOf, he, hnod]
  rw [hfree] at hm
  exact List.not_mem_nil hm

open Classical in
/-- The number of directories above a node. -/
noncomputable def ancestors (s : NameTable) (id : ℤ) : ℕ :=
  ((s.entries.map (·.parent)).toFinset.filter (Relation.TransGen s.Below id)).card

open Classical in
lemma IsTree.ancestors_lt (h : s.IsTree) (hup : s.Below id parent) :
    s.ancestors parent < s.ancestors id := by
  have hparent : parent ∈ s.entries.map (·.parent) := by
    obtain ⟨entry, hentry, -, rfl⟩ := hup
    exact List.mem_map_of_mem hentry
  refine Finset.card_lt_card ((Finset.ssubset_iff_of_subset fun a ha => ?_).mpr ⟨parent, ?_, ?_⟩)
  · rw [Finset.mem_filter] at ha ⊢
    exact ⟨ha.1, .head hup ha.2⟩
  · exact Finset.mem_filter.mpr ⟨List.mem_toFinset.mpr hparent, .single hup⟩
  · exact fun ha => h.acyclic parent (Finset.mem_filter.mp ha).2

lemma charge_cases (ctx : ℕ → Option Failure) (remaining : ℕ) :
    (∃ err, ctx remaining = some err ∧ charge ctx remaining = .error (.context err)) ∨
      remaining = 0 ∧ charge ctx remaining = .error (.errno .EFBIG) ∨
      ∃ left, remaining = left + 1 ∧ charge ctx remaining = .ok left := by
  unfold charge
  cases ctx remaining with
  | some err => exact .inl ⟨err, rfl, rfl⟩
  | none =>
    cases remaining with
    | zero => exact .inr (.inl ⟨rfl, rfl⟩)
    | succ left => exact .inr (.inr ⟨left, rfl, rfl⟩)

variable {node : NameRow} (h : s.IsTree) (hhas : s.Has id node)
include h hhas

/-- What the store observes of a node of a tree. -/
lemma IsTree.header : (s.nameObservationHeader id = .ok .root ∧ ∀ p, ¬s.Below id p) ∨
      (s.nameObservationHeader id = .ok .detached ∧ node.detached = true ∧ ∀ p, ¬s.Below id p) ∨
      ∃ parent p, s.nameObservationHeader id = .ok (.linked parent) ∧
        s.Has parent p ∧ p.detached = false ∧ ∀ q, s.Below id q ↔ q = parent := by
  obtain ⟨hnod, hvolume⟩ := hhas
  cases h.placed ⟨hnod, hvolume⟩ with
  | root hroot hfree hk hkind =>
    subst hroot
    refine .inl ⟨?_, fun _ => not_below hfree⟩
    simp [nameObservationHeader, hnod, hvolume, hfree, hk, hkind]
  | detached hroot hfree hdetached =>
    refine .inr (.inl ⟨?_, hdetached, fun _ => not_below hfree⟩)
    simp [nameObservationHeader, hnod, hvolume, hfree, hroot, hdetached]
  | linked entry hroot hone hfits hk =>
    have hparent := hfits
    simp only [parentFits, Option.any_eq_true_iff_get, decide_eq_true_eq] at hparent
    obtain ⟨-, -, -, -, hsome, -, hhome, hlive⟩ := hparent
    refine .inr (.inr ⟨entry.parent, _, ?_, ⟨(Option.some_get hsome).symm, hhome⟩, hlive,
      fun q => below_iff hone⟩)
    simp [nameObservationHeader, hnod, hvolume, hone, hfits, hroot, hk]

/-- One climb.  What was seen lies below the node that is reached, so no node is
met twice; a node above the candidate is not detached; and every step has one node
less above it. -/
lemma IsTree.climb_spec (ctx : ℕ → Option Failure) (source : ℤ) (remaining : ℕ)
    (hfirst : node.detached = true → id = candidate)
    (hseen : ∀ x ∈ seen, Relation.TransGen s.Below x id) :
    Decides ctx (s.climb ctx source candidate remaining seen id)
      (remaining < s.ancestors id + 1) (Relation.TransGen s.Below id source)
      fun left => remaining ≤ left + s.ancestors id + 1 := by
  induction remaining generalizing seen id node with
  | zero =>
    rcases charge_cases ctx 0 with ⟨err, hctx, hch⟩ | ⟨-, hch⟩ | ⟨left, hzero, -⟩
    · exact .inr (.inl ⟨0, err, hctx, hch⟩)
    · exact .inl ⟨hch, by omega⟩
    · cases hzero
  | succ remaining ih =>
    rcases charge_cases ctx (remaining + 1) with
      ⟨err, hctx, hch⟩ | ⟨hzero, -⟩ | ⟨left, -, hch⟩
    · exact .inr (.inl ⟨_, err, hctx, by simp [climb, hch]⟩)
    · cases hzero
    have hfresh : id ∉ seen := fun hmem => h.acyclic id (hseen id hmem)
    have hover : (∀ p, ¬s.Below id p) → ¬Relation.TransGen s.Below id source := by
      intro hnone hbelow
      obtain ⟨p, hp, -⟩ := Relation.TransGen.head'_iff.mp hbelow
      exact hnone p hp
    rcases h.header hhas with
      ⟨hroot, hnone⟩ | ⟨hdetached, hgone, hnone⟩ | ⟨parent, p, hlinked, hp, hlive, hone⟩
    · refine .inr (.inr (.inr ⟨remaining, ?_, by omega, hover hnone⟩))
      simp [climb, hch, hfresh, hroot]
    · obtain rfl := hfirst hgone
      refine .inr (.inr (.inr ⟨remaining, ?_, by omega, hover hnone⟩))
      simp [climb, hch, hfresh, hdetached]
    have hup : s.Below id parent := (hone parent).mpr rfl
    by_cases heq : parent = source
    · refine .inr (.inr (.inl ⟨?_, .single (heq ▸ hup)⟩))
      simp [climb, hch, hfresh, hlinked, heq]
    have hnext : s.climb ctx source candidate (remaining + 1) seen id =
        s.climb ctx source candidate remaining (id :: seen) parent := by
      simp [climb, hch, hfresh, hlinked, heq]
    have hiff : Relation.TransGen s.Below id source ↔ Relation.TransGen s.Below parent source := by
      rw [Relation.TransGen.head'_iff]
      simp only [hone, exists_eq_left, Relation.reflTransGen_iff_eq_or_transGen,
        or_iff_right (Ne.symm heq)]
    have hless := h.ancestors_lt hup
    have hseen' : ∀ x ∈ id :: seen, Relation.TransGen s.Below x parent :=
      List.forall_mem_cons.mpr ⟨.single hup, fun x hx => (hseen x hx).tail hup⟩
    rw [hnext, hiff]
    rcases ih hp (fun hgone => absurd (hlive.symm.trans hgone) Bool.false_ne_true) hseen' with
      ⟨hlimit, hspent⟩ | hctx | hrefused | ⟨left, hok, hleft, hnot⟩
    · exact .inl ⟨hlimit, by omega⟩
    · exact .inr (.inl hctx)
    · exact .inr (.inr (.inl hrefused))
    · exact .inr (.inr (.inr ⟨left, hok, by omega, hnot⟩))

end NameTable

open NameTable

lemma NameTable.IsTree.visitPins_spec {s : NameTable} (h : s.IsTree)
    (ctx : ℕ → Option Failure) (source : ℤ) (remaining : ℕ) {pins : List (ℤ × ℤ)} (hpins : ∀ pin ∈ pins, ∃ node, s.Has pin.1 node) :
    Decides ctx (s.visitPins ctx source remaining pins)
      (remaining < (pins.map fun pin => s.ancestors pin.1 + 2).sum)
      (∃ pin ∈ pins, s.OpenBelow source pin) fun _ => True := by
  induction pins generalizing remaining with
  | nil => exact .inr (.inr (.inr ⟨(), rfl, True.intro, by simp⟩))
  | cons pin pins ih =>
    obtain ⟨candidate, count⟩ := pin
    obtain ⟨⟨node, hnod⟩, hrest⟩ := List.forall_mem_cons.mp hpins
    replace hnod : s.Has candidate node := hnod
    have hsum : (((candidate, count) :: pins).map fun pin => s.ancestors pin.1 + 2).sum =
        s.ancestors candidate + 2 + (pins.map fun pin => s.ancestors pin.1 + 2).sum := rfl
    have hlater : ∀ left, ¬s.OpenBelow source (candidate, count) →
        remaining ≤ left + (s.ancestors candidate + 2) →
        Decides ctx (s.visitPins ctx source left pins)
          (remaining < (((candidate, count) :: pins).map fun pin => s.ancestors pin.1 + 2).sum)
          (∃ pin ∈ (candidate, count) :: pins, s.OpenBelow source pin) fun _ => True := by
      intro left hno hleft
      simp only [List.mem_cons, exists_eq_or_imp, or_iff_right hno]
      exact (ih left hrest).imp_left fun ⟨hlimit, hspent⟩ => ⟨hlimit, by omega⟩
    unfold visitPins
    split_ifs with hskip
    · refine hlater remaining ?_ (by omega)
      rintro ⟨hcount, hne, -⟩
      exact hskip.elim (not_le.mpr hcount) hne
    obtain ⟨hcount, hne⟩ := not_or.mp hskip
    rcases charge_cases ctx remaining with
      ⟨err, hctx, hch⟩ | ⟨hzero, hch⟩ | ⟨left, hsucc, hch⟩
    · exact .inr (.inl ⟨_, err, hctx, by rw [hch]⟩)
    · exact .inl ⟨by rw [hch], by omega⟩
    rw [hch]
    dsimp only
    rcases h.climb_spec hnod ctx source left
      (fun _ => rfl) (fun x hx => absurd hx List.not_mem_nil) with
      ⟨hlimit, hspent⟩ | ⟨n, err, hctx, hended⟩ | ⟨hrefused, hbelow⟩ | ⟨kept, hok, hkept, hbelow⟩
    · exact .inl ⟨by rw [hlimit], by omega⟩
    · exact .inr (.inl ⟨n, err, hctx, by rw [hended]⟩)
    · exact .inr (.inr (.inl ⟨by rw [hrefused],
        _, List.mem_cons_self, not_le.mp hcount, hne, hbelow⟩))
    · rw [hok]
      exact hlater kept (fun hopen => hbelow hopen.2.2) (by omega)

/-- Unless the context ends or a bound is exceeded, the search refuses a directory
exactly when an open node, other than the directory itself, lies strictly below it; a
budget of two units a pin and one for each directory above it is not exceeded. -/
theorem open_descendants_refused (t : PinnedTree) (ctx : ℕ → Option Failure)
    (maxFiles maxIntegrityRecords : ℕ) (source : ℤ) :
    let result := t.checkNoOpenDescendants ctx maxFiles maxIntegrityRecords t.pins source
    let found := ∃ pin ∈ t.pins, t.OpenBelow source pin
    result = .error (.errno .EFBIG) ∧ (maxFiles < t.pins.length ∨
        maxIntegrityRecords < (t.pins.map fun pin => t.ancestors pin.1 + 2).sum) ∨
      (∃ n err, ctx n = some err ∧ result = .error (.context err)) ∨
      result = .error (.errno .EACCES) ∧ found ∨ result = .ok () ∧ ¬found := by
  intro result found
  unfold result checkNoOpenDescendants
  split_ifs with hmany
  · exact .inl ⟨rfl, .inl hmany⟩
  rcases t.isTree.visitPins_spec ctx source maxIntegrityRecords t.pinned with
    ⟨hlimit, hspent⟩ | hctx | hrefused | ⟨_, hok, -, hnone⟩
  · exact .inl ⟨hlimit, .inr hspent⟩
  · exact .inr (.inl hctx)
  · exact .inr (.inr (.inl hrefused))
  · exact .inr (.inr (.inr ⟨hok, hnone⟩))

/-- Directories 2 and 4 in the root 1, and a file 3 in the directory 2. -/
def NameTable.sample : NameTable where
  volume := 7
  root := 1
  nodes id :=
    if id = 3 then some ⟨7, .regular, false⟩
    else if 1 ≤ id ∧ id ≤ 4 then some ⟨7, .directory, false⟩
    else none
  entries := [⟨7, 1, [97], 2⟩, ⟨7, 2, [98], 3⟩, ⟨7, 1, [99], 4⟩]

lemma NameTable.sample_isTree : sample.IsTree := by
  constructor
  · rintro id node ⟨hnod, -⟩
    have hid : id = 1 ∨ id = 2 ∨ id = 3 ∨ id = 4 := by
      simp only [sample] at hnod
      split_ifs at hnod <;> omega
    rcases hid with rfl | rfl | rfl | rfl <;> cases hnod
    · exact .root rfl rfl rfl rfl
    all_goals exact .linked _ (by decide) rfl (by decide) rfl
  · have hup : ∀ {a b}, Relation.TransGen sample.Below a b → b < a := by
      have hone : ∀ entry ∈ sample.entries, entry.parent < entry.node := by decide
      intro a b hbelow
      induction hbelow with
      | single h =>
        obtain ⟨entry, hentry, rfl, rfl⟩ := h
        exact hone entry hentry
      | tail _ h ih =>
        obtain ⟨entry, hentry, rfl, rfl⟩ := h
        exact (hone entry hentry).trans ih
    exact fun id hbelow => lt_irrefl id (hup hbelow)

def PinnedTree.sample : PinnedTree where
  toNameTable := .sample
  pins := [(4, 0), (3, 1)]
  isTree := NameTable.sample_isTree
  pinned := by
    simp only [List.forall_mem_cons]
    exact ⟨⟨_, rfl, rfl⟩, ⟨_, rfl, rfl⟩, by simp⟩

/-- The open file keeps its directory, but not the other one, in place. -/
theorem open_descendants_refused_sample :
    let check := PinnedTree.sample.checkNoOpenDescendants (fun _ => none) 2 6 [(4, 0), (3, 1)]
    check 2 = .error (.errno .EACCES) ∧ check 4 = .ok () ∧
      ∃ pin ∈ PinnedTree.sample.pins, PinnedTree.sample.OpenBelow 2 pin := by
  refine ⟨by decide, by decide, ?_⟩
  rcases open_descendants_refused PinnedTree.sample (fun _ => none) 2 6 2 with
    ⟨hlimit, -⟩ | ⟨_, _, hctx, -⟩ | ⟨-, hfound⟩ | ⟨hok, -⟩
  · exact absurd hlimit (by decide)
  · cases hctx
  · exact hfound
  · exact absurd hok (by decide)

end RemoteFs.Metastore
