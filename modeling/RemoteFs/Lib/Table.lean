import Mathlib.Data.List.AList
import Mathlib.Algebra.BigOperators.Group.List.Basic
import Mathlib.Tactic

/-!
# Finite tables

A table is an association list without repeated keys.  It stands for a map
whose iteration order carries no meaning: everything proved here is about
lookup, about the set of entries, and about weights summed over all entries.
The weight lemmas are the ones an incrementally maintained counter needs, one
for each way of changing a table.
-/

namespace RemoteFs

lemma of_map_eq {α β : Type} {f : α → β} {x y : Option α} (hs : x.map f = y.map f) {a : α}
    (hx : x = some a) : ∃ b, y = some b ∧ f b = f a := by
  rw [hx, Option.map_some] at hs
  exact Option.map_eq_some_iff.mp hs.symm

abbrev Table (κ α : Type) := AList fun _ : κ => α

namespace Table

variable {κ α : Type} {table : Table κ α} {key other : κ} {old value value' : α}
  {change : α → α} {weight : κ → α → ℕ}

def empty : Table κ α := ∅

def toList (table : Table κ α) : List (κ × α) :=
  table.entries.map fun entry => (entry.1, entry.2)

def filter (table : Table κ α) (keep : κ → α → Bool) : Table κ α where
  entries := table.entries.filter fun entry => keep entry.1 entry.2
  nodupKeys := table.nodupKeys.sublist List.filter_sublist

def sum {M : Type} [AddCommMonoid M] (table : Table κ α) (weight : κ → α → M) : M :=
  (table.entries.map fun entry => weight entry.1 entry.2).sum

def total (table : Table κ α) (weight : κ → α → ℕ) : ℕ :=
  (table.entries.map fun entry => weight entry.1 entry.2).sum

def size (table : Table κ α) : ℕ := table.entries.length

@[simp] lemma sum_empty {M : Type} [AddCommMonoid M] (weight : κ → α → M) :
    (empty : Table κ α).sum weight = 0 := rfl

lemma sum_add {M : Type} [AddCommMonoid M] (table : Table κ α) (first second : κ → α → M) :
    (table.sum fun key value => first key value + second key value) =
      table.sum first + table.sum second :=
  List.sum_map_add

variable (table)

lemma size_eq_total : table.size = table.total fun _ _ => 1 := by simp [size, total]

lemma total_filter_add (keep : κ → α → Bool) (weight : κ → α → ℕ) :
    (table.filter keep).total weight + (table.total fun key value =>
          if keep key value then 0 else weight key value) =
      table.total weight := by
  change ((table.entries.filter _).map _).sum + (table.entries.map fun entry =>
        if keep entry.1 entry.2 then 0 else weight entry.1 entry.2).sum =
    (table.entries.map _).sum
  induction table.entries with
  | nil => rfl
  | cons entry rest ih =>
    by_cases hkeep : keep entry.1 entry.2 = true
    · simp only [List.filter_cons, hkeep, if_true, List.map_cons, List.sum_cons]
      omega
    · simp only [List.filter_cons, hkeep, Bool.false_eq_true, if_false,
        List.map_cons, List.sum_cons]
      omega

lemma size_filter_add_size_filter_not (keep : κ → α → Bool) :
    (table.filter keep).size + (table.filter fun key value => !keep key value).size =
      table.size :=
  (List.length_eq_length_filter_add _).symm

lemma toList_pairwise : table.toList.Pairwise fun first second => first.1 ≠ second.1 := by
  refine List.pairwise_map.mpr ?_
  exact List.pairwise_map.mp table.nodupKeys

variable {table}

variable [DecidableEq κ]

variable (table)

def get? (key : κ) : Option α := table.lookup key

def set (key : κ) (value : α) : Table κ α :=
  table.insert key value

def erase (table : Table κ α) (key : κ) : Table κ α := AList.erase key table

def modify (key : κ) (change : α → α) : Table κ α :=
  match table.get? key with
  | none => table
  | some value => table.set key (change value)

variable {table}

/-! ## Lookup -/

@[simp] lemma get?_empty (key : κ) : (empty : Table κ α).get? key = none :=
  AList.lookup_empty key

lemma get?_eq_some_iff : table.get? key = some value ↔ ⟨key, value⟩ ∈ table.entries :=
  AList.mem_lookup_iff

@[simp] lemma get?_set_self (table : Table κ α) (key : κ) (value : α) :
    (table.set key value).get? key = some value :=
  AList.lookup_insert table

lemma get?_set_ne (hne : other ≠ key) : (table.set key value).get? other = table.get? other :=
  AList.lookup_insert_ne hne

lemma get?_set (table : Table κ α) (key other : κ) (value : α) :
    (table.set key value).get? other =
      if other = key then some value else table.get? other := by
  by_cases heq : other = key
  · subst heq
    simp
  · rw [if_neg heq, get?_set_ne heq]

@[simp] lemma get?_erase_self (table : Table κ α) (key : κ) : (table.erase key).get? key = none :=
  AList.lookup_erase key table

lemma get?_erase_ne (hne : other ≠ key) : (table.erase key).get? other = table.get? other :=
  AList.lookup_erase_ne hne

lemma get?_erase (table : Table κ α) (key other : κ) : (table.erase key).get? other =
      if other = key then none else table.get? other := by
  by_cases heq : other = key
  · subst heq
    simp
  · rw [if_neg heq, get?_erase_ne heq]

lemma get?_modify (table : Table κ α) (key other : κ) (change : α → α) :
    (table.modify key change).get? other =
      if other = key then (table.get? key).map change
      else table.get? other := by
  unfold modify
  cases hg : table.get? key with
  | none =>
    by_cases heq : other = key
    · subst heq
      simp [hg]
    · simp [heq]
  | some value => simp only [get?_set, Option.map_some]

section

variable (hg : (table.modify key change).get? other = some value')
include hg

lemma of_get?_modify : ∃ value, table.get? other = some value ∧
      value' = if other = key then change value else value := by
  rw [get?_modify] at hg
  by_cases heq : other = key
  · rw [if_pos heq, Option.map_eq_some_iff] at hg
    obtain ⟨value, hvalue, rfl⟩ := hg
    exact ⟨value, heq ▸ hvalue, (if_pos heq).symm⟩
  · rw [if_neg heq] at hg
    exact ⟨value', hg, (if_neg heq).symm⟩

lemma modify_cases :
    (∃ value, table.get? key = some value ∧ other = key ∧ value' = change value) ∨
      (other ≠ key ∧ table.get? other = some value') := by
  obtain ⟨value, hvalue, rfl⟩ := of_get?_modify hg
  by_cases heq : other = key
  · subst heq
    exact .inl ⟨value, hvalue, rfl, if_pos rfl⟩
  · rw [if_neg heq]
    exact .inr ⟨heq, hvalue⟩

end

lemma get?_modify_of_some (hg : table.get? other = some value) :
    (table.modify key change).get? other =
      some (if other = key then change value else value) := by
  rw [get?_modify]
  by_cases heq : other = key
  · rw [if_pos heq, if_pos heq, ← heq, hg, Option.map_some]
  · rw [if_neg heq, if_neg heq, hg]

lemma get?_modify_of_none (hg : table.get? other = none) :
    (table.modify key change).get? other = none := by
  rw [get?_modify]
  by_cases heq : other = key
  · rw [if_pos heq, ← heq, hg, Option.map_none]
  · rw [if_neg heq, hg]

lemma set_cases (hg : (table.set key value).get? other = some value') :
    (other = key ∧ value' = value) ∨ (other ≠ key ∧ table.get? other = some value') := by
  rw [get?_set] at hg
  split_ifs at hg with heq
  · exact .inl ⟨heq, (Option.some.inj hg).symm⟩
  · exact .inr ⟨heq, hg⟩

lemma get?_set_of_some (hnew : table.get? key = none) (hg : table.get? other = some old) :
    (table.set key value).get? other = some old := by
  rw [get?_set_ne, hg]
  rintro rfl
  cases hnew.symm.trans hg

lemma erase_cases (hg : (table.erase key).get? other = some value) :
    other ≠ key ∧ table.get? other = some value := by
  rw [get?_erase] at hg
  split_ifs at hg with heq
  exact ⟨heq, hg⟩

lemma map_get?_modify {β : Type} {field : α → β} (table : Table κ α)
    (key other : κ) (change : α → α) (hkeep : ∀ value, field (change value) = field value) :
    ((table.modify key change).get? other).map field = (table.get? other).map field := by
  rw [get?_modify]
  by_cases heq : other = key
  · rw [if_pos heq, heq, Option.map_map]
    congr 1
    funext value
    exact hkeep value
  · rw [if_neg heq]

lemma get?_modify_self (table : Table κ α) (key : κ) (change : α → α) :
    (table.modify key change).get? key = (table.get? key).map change := by
  rw [get?_modify, if_pos rfl]

lemma get?_modified (hg : table.get? key = some value) :
    (table.modify key change).get? key = some (change value) := by
  rw [get?_modify_self, hg, Option.map_some]

lemma get?_modify_ne (hne : other ≠ key) :
    (table.modify key change).get? other = table.get? other := by
  rw [get?_modify, if_neg hne]

lemma get?_filter_iff {keep : κ → α → Bool} : (table.filter keep).get? key = some value ↔
      table.get? key = some value ∧ keep key value = true := by
  rw [get?_eq_some_iff, get?_eq_some_iff]
  simp [filter]

lemma mem_toList : (key, value) ∈ table.toList ↔ table.get? key = some value := by
  rw [get?_eq_some_iff]
  unfold toList
  constructor
  · intro hm
    obtain ⟨entry, hentry, heq⟩ := List.mem_map.mp hm
    obtain ⟨rfl, rfl⟩ := Prod.mk.inj heq
    exact hentry
  · intro hm
    exact List.mem_map.mpr ⟨_, hm, rfl⟩

/-! ## Views -/

/-- Two tables have the same keys and agree on a view of their values. -/
def Agree {β : Type} (view : α → β) (table other : Table κ α) : Prop :=
  ∀ key, (other.get? key).map view = (table.get? key).map view

section Views

variable {β γ : Type} {view : α → β} {table other third : Table κ α}

lemma Agree.refl {view : α → β} : Agree view table table := fun _ => rfl

lemma Agree.symm (hagree : Agree view table other) :
    Agree view other table := fun key => (hagree key).symm

lemma Agree.trans (hfirst : Agree view table other)
    (hsecond : Agree view other third) : Agree view table third :=
  fun key => (hsecond key).trans (hfirst key)

lemma Agree.of_eq (heq : other = table) : Agree view table other := fun _ => by rw [heq]

lemma Agree.modify
    (hkeep : ∀ value, table.get? key = some value → view (change value) = view value) :
    Agree view table (table.modify key change) := by
  intro other
  rw [get?_modify]
  by_cases heq : other = key
  · subst heq
    rw [if_pos rfl]
    cases hg : table.get? other with
    | none => rfl
    | some value => exact congrArg some (hkeep value hg)
  · rw [if_neg heq]

lemma Agree.edit (hs : view ∘ change = view) : Agree view table (table.modify key change) :=
  .modify fun value _ => congrFun hs value

section

variable (hagree : Agree view table other)
include hagree

lemma Agree.exists (hg : other.get? key = some value) :
    ∃ old, table.get? key = some old ∧ view value = view old := by
  obtain ⟨old, hold, heq⟩ := of_map_eq (hagree key) hg
  exact ⟨old, hold, heq.symm⟩

lemma Agree.coarsen (coarse : β → γ) : Agree (coarse ∘ view) table other := by
  intro key
  rw [← Option.map_map, ← Option.map_map, hagree key]

/-- A partial field that the view determines is found in both tables. -/
lemma Agree.bind_eq {field : α → Option γ}
    (hfield : ∀ {value old}, view value = view old → field value = field old)
    (key : κ) : (other.get? key).bind field = (table.get? key).bind field := by
  cases hg : other.get? key with
  | none =>
    have hnone : table.get? key = none := by
      have hview := hagree key
      rw [hg, Option.map_none] at hview
      exact Option.map_eq_none_iff.mp hview.symm
    rw [hnone]
  | some value =>
    obtain ⟨old, hold, hview⟩ := hagree.exists hg
    rw [hold]
    exact hfield hview

lemma Agree.isSome (key : κ) : (other.get? key).isSome = (table.get? key).isSome := by
  have hview := congrArg Option.isSome (hagree key)
  simpa using hview

end

lemma isSome_get?_modify (table : Table κ α) (key : κ) (change : α → α) (other : κ) :
    ((table.modify key change).get? other).isSome = (table.get? other).isSome := by
  have hagree : Agree (fun _ => ()) table (table.modify key change) := .edit rfl
  exact hagree.isSome other

end Views

/-! ## Weights -/

lemma entries_set_of_none (value : α) (hg : table.get? key = none) :
    (table.set key value).entries = ⟨key, value⟩ :: table.entries :=
  AList.entries_insert_of_notMem (AList.lookup_eq_none.mp hg)

lemma entries_perm_of_get? (hg : table.get? key = some value) :
    table.entries.Perm (⟨key, value⟩ :: (table.erase key).entries) := by
  have hm : key ∈ table.entries.keys := List.mem_keys_of_mem (get?_eq_some_iff.mp hg)
  obtain ⟨found, before, after, hnot, hsplit, herase⟩ := List.exists_of_kerase hm
  have hfound : (⟨key, found⟩ : Sigma fun _ : κ => α) ∈ table.entries := by
    rw [hsplit]
    simp
  have hvalue := table.nodupKeys.eq_of_mk_mem hfound (get?_eq_some_iff.mp hg)
  subst hvalue
  have hentries : (table.erase key).entries = before ++ after := herase
  rw [hentries, hsplit]
  exact List.perm_middle

lemma entries_set (table : Table κ α) (key : κ) (value : α) :
    (table.set key value).entries = ⟨key, value⟩ :: (table.erase key).entries :=
  AList.entries_insert

section Sums

variable {M : Type} [AddCommMonoid M]

lemma sum_set_of_none (value : α) (weight : κ → α → M) (hg : table.get? key = none) :
    (table.set key value).sum weight = table.sum weight + weight key value := by
  unfold sum
  rw [entries_set_of_none value hg, List.map_cons, List.sum_cons, add_comm]

lemma sum_erase (weight : κ → α → M) (hg : table.get? key = some value) :
    (table.erase key).sum weight + weight key value = table.sum weight := by
  unfold sum
  rw [((entries_perm_of_get? hg).map
    fun entry => weight entry.1 entry.2).sum_eq, List.map_cons, List.sum_cons,
    add_comm]

lemma sum_set (value : α) (weight : κ → α → M) (hg : table.get? key = some old) :
    (table.set key value).sum weight + weight key old = table.sum weight + weight key value := by
  rw [← sum_erase weight hg]
  unfold sum
  rw [entries_set, List.map_cons, List.sum_cons]
  abel

lemma sum_modify (change : α → α) (weight : κ → α → M) (hg : table.get? key = some old) :
    (table.modify key change).sum weight + weight key old =
      table.sum weight + weight key (change old) := by
  unfold modify
  rw [hg]
  exact sum_set (change old) weight hg

lemma sum_congr {weight other : κ → α → M}
    (hs : ∀ key value, table.get? key = some value → weight key value = other key value) :
    table.sum weight = table.sum other := by
  unfold sum
  congr 1
  apply List.map_congr_left
  intro entry hentry
  exact hs entry.1 entry.2 (get?_eq_some_iff.mpr hentry)

lemma sum_nonneg [PartialOrder M] [IsOrderedAddMonoid M] {weight : κ → α → M}
    (hweight : ∀ key value, table.get? key = some value → 0 ≤ weight key value) :
    0 ≤ table.sum weight := by
  refine List.sum_nonneg fun x hx => ?_
  obtain ⟨entry, hentry, rfl⟩ := List.mem_map.mp hx
  exact hweight entry.1 entry.2 (get?_eq_some_iff.mpr hentry)

end Sums

lemma total_set_of_none (value : α) (weight : κ → α → ℕ) (hg : table.get? key = none) :
    (table.set key value).total weight = table.total weight + weight key value :=
  sum_set_of_none value weight hg

lemma total_erase (weight : κ → α → ℕ) (hg : table.get? key = some value) :
    (table.erase key).total weight + weight key value = table.total weight :=
  sum_erase weight hg

lemma total_modify (change : α → α) (weight : κ → α → ℕ) (hg : table.get? key = some old) :
    (table.modify key change).total weight + weight key old =
      table.total weight + weight key (change old) :=
  sum_modify change weight hg

lemma total_congr {other : κ → α → ℕ}
    (hs : ∀ key value, table.get? key = some value → weight key value = other key value) :
    table.total weight = table.total other :=
  sum_congr hs

lemma total_modify_of_eq (hs : ∀ value, table.get? key = some value →
      weight key (change value) = weight key value) :
    (table.modify key change).total weight = table.total weight := by
  cases hg : table.get? key with
  | none => simp [modify, hg]
  | some value =>
    have hmodify := total_modify change weight hg
    have hvalue := hs value hg
    omega

lemma le_total (weight : κ → α → ℕ) (hg : table.get? key = some value) :
    weight key value ≤ table.total weight := by
  have herase := total_erase weight hg
  omega

lemma size_set_of_none (value : α) (hg : table.get? key = none) :
    (table.set key value).size = table.size + 1 := by
  simp [size, entries_set_of_none value hg]

lemma size_erase (hg : table.get? key = some value) :
    (table.erase key).size + 1 = table.size := by
  rw [size_eq_total, size_eq_total]
  exact total_erase _ hg

lemma total_eq_zero_iff : table.total weight = 0 ↔
      ∀ key value, table.get? key = some value → weight key value = 0 := by
  constructor
  · intro hzero key value hg
    have hle := le_total weight hg
    omega
  · intro hall
    have hs := total_congr hall
    rw [hs]
    simp [total]

lemma eq_empty_of_get? (hnone : ∀ key, table.get? key = none) : table = empty := by
  apply AList.ext
  rw [show (empty : Table κ α).entries = [] from rfl, List.eq_nil_iff_forall_not_mem]
  intro entry hentry
  have hg := get?_eq_some_iff.mpr hentry
  rw [hnone] at hg
  cases hg

lemma total_ext {β : Type} {other : Table κ β} {weight' : κ → β → ℕ}
    (hs : ∀ key, (table.get? key).map (weight key) = (other.get? key).map (weight' key)) :
    table.total weight = other.total weight' := by
  induction hsize : table.size generalizing table other with
  | zero =>
    have hempty : table = empty := AList.ext (List.eq_nil_of_length_eq_zero hsize)
    subst hempty
    have hother : other = empty := by
      apply eq_empty_of_get?
      intro key
      have hkey := hs key
      rw [get?_empty, Option.map_none] at hkey
      exact Option.map_eq_none_iff.mp hkey.symm
    rw [hother]
    rfl
  | succ n ih =>
    obtain ⟨entry, hentry⟩ : ∃ entry, entry ∈ table.entries :=
      List.exists_mem_of_length_pos (by
        change 0 < table.size
        omega)
    have hg := get?_eq_some_iff.mpr hentry
    have hkey := hs entry.1
    rw [hg, Option.map_some] at hkey
    obtain ⟨value, hvalue, hweight⟩ := Option.map_eq_some_iff.mp hkey.symm
    have hrest : (table.erase entry.1).total weight = (other.erase entry.1).total weight' := by
      apply ih
      · intro key
        rw [get?_erase, get?_erase]
        by_cases heq : key = entry.1
        · simp [heq]
        · simp only [heq, if_false]
          exact hs key
      · have herase := size_erase hg
        omega
    have hleft := total_erase weight hg
    have hright := total_erase weight' hvalue
    omega

end Table

end RemoteFs
