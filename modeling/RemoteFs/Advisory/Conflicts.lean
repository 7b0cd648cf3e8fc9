import RemoteFs.Advisory.Coordinator
import Mathlib.Data.Prod.Lex

/-!
# The conflict that is reported

Go visits the owners of a map in any order, and `conflictLocked` keeps one of
the holdings that stand in the way.  It is the least of them in an order that
tells any two rival holdings apart, so the visit does not show in the result.
-/

namespace RemoteFs.Advisory

open Storage Coordinator

variable {c : Coordinator} {key : OwnerKey} {command : RangeCommand}
  {entries : List (OwnerKey × OwnerState)}

def Free (owners : Table OwnerKey OwnerState) (key : OwnerKey) (command : RangeCommand) : Prop :=
  ∀ other state, owners.get? other = some state → rivals key other = true →
    ∀ held ∈ state.ranges, clashes held.command command = false

lemma rivals_iff : rivals key other = true ↔
      other ≠ key ∧ other.node = key.node ∧ other.domain = key.domain := by
  simp [rivals, and_assoc]

/-- Among the rivals of a key, session and number tell the owners apart. -/
lemma eq_of_rivals (ha : rivals key a = true) (hb : rivals key b = true)
    (hsess : a.session = b.session) (howner : a.owner = b.owner) : a = b := by
  obtain ⟨-, hnode, hdomain⟩ := rivals_iff.mp ha
  obtain ⟨-, hnode', hdomain'⟩ := rivals_iff.mp hb
  cases a
  cases b
  simp_all

lemma clashes_iff : clashes held command = true ↔ overlaps held.range command.range = true ∧
        ¬(held.mode = .shared ∧ command.mode = .shared) := by
  simp [clashes, imp_iff_not_or]

/-! ## Holdings -/

/-- A range with its owner and its place in the list of the owner. -/
structure Holding where
  owner : OwnerKey
  place : ℕ
  held : RangeClaim

namespace Holding

def rank (x : Holding) : ℕ ×ₗ ℕ ×ₗ ℕ ×ₗ ℕ :=
  toLex ((rangeStart x.held.command.range).toNat,
    toLex (x.owner.session, toLex (x.owner.owner, x.place)))

def report (c : Coordinator) (x : Holding) : RangeConflict :=
  ⟨true, c.diagnostic x.owner, x.held.command.range, x.held.command.mode⟩

/-- A holding that stands in the way of a command. -/
structure Blocks (c : Coordinator) (key : OwnerKey) (command : RangeCommand)
    (x : Holding) : Prop where
  held : ∃ state, c.owners.get? x.owner = some state ∧ state.ranges[x.place]? = some x.held
  other : x.owner ≠ key
  node : x.owner.node = key.node
  domain : x.owner.domain = key.domain
  overlap : overlaps x.held.command.range command.range = true
  unshared : ¬(x.held.command.mode = .shared ∧ command.mode = .shared)

variable {x : Holding}

lemma rank_le_iff {y :  Holding} : x.rank ≤ y.rank ↔
    rangeStart x.held.command.range < rangeStart y.held.command.range ∨
      rangeStart x.held.command.range = rangeStart y.held.command.range ∧
        (x.owner.session < y.owner.session ∨ x.owner.session = y.owner.session ∧
          (x.owner.owner < y.owner.owner ∨ x.owner.owner = y.owner.owner ∧
            x.place ≤ y.place)) := by
  simp only [rank, Prod.Lex.toLex_le_toLex, UInt64.lt_iff_toNat_lt, UInt64.toNat_inj]

lemma Blocks.exclusive (hbl : x.Blocks c key command)
    (hh : x.held.command.mode.defined = true) (hmode : command.mode.defined = true) :
    x.held.command.mode = .exclusive ∨ command.mode = .exclusive := by
  have hunshared := hbl.unshared
  revert hunshared hh hmode
  cases x.held.command.mode <;> cases command.mode <;> simp [RangeMode.defined]

lemma Blocks.rival (hbl : x.Blocks c key command) : rivals key x.owner = true :=
  rivals_iff.mpr ⟨hbl.other, hbl.node, hbl.domain⟩

/-- Rival holdings of one rank are one holding. -/
lemma Blocks.eq_of_rank (hx : x.Blocks c key command) (hy : y.Blocks c key command)
    (hxy : x.rank ≤ y.rank) (hyx : y.rank ≤ x.rank) : x = y := by
  rw [rank_le_iff, UInt64.lt_iff_toNat_lt, ← UInt64.toNat_inj] at hxy hyx
  have howner := eq_of_rivals hx.rival hy.rival (by omega) (by omega)
  have hplace : x.place = y.place := by omega
  obtain ⟨state, hs, hh⟩ := hx.held
  obtain ⟨state', hstate', hheld'⟩ := hy.held
  rw [howner, hstate', Option.some.injEq] at hs
  rw [← hs, hplace, hheld', Option.some.injEq] at hh
  cases x
  cases y
  simp_all

end Holding

lemma free_iff : Free c.owners key command ↔ ∀ x : Holding, ¬x.Blocks c key command := by
  constructor
  · intro hfree x hx
    obtain ⟨state, hg, hh⟩ := hx.held
    have hcl := hfree x.owner state hg hx.rival x.held
      (List.mem_of_getElem? hh)
    rw [clashes_iff.mpr ⟨hx.overlap, hx.unshared⟩] at hcl
    cases hcl
  · intro hnone other state hg hrival held hh
    by_contra hcl
    obtain ⟨place, hplace⟩ := List.mem_iff_getElem?.mp hh
    obtain ⟨hother, hnode, hdomain⟩ := rivals_iff.mp hrival
    obtain ⟨hoverlap, hunshared⟩ := clashes_iff.mp (Bool.not_eq_false _ ▸ hcl)
    exact hnone ⟨other, place, held⟩
      ⟨⟨state, hg, hplace⟩, hother, hnode, hdomain, hoverlap, hunshared⟩

/-- The rival holdings in the order in which the loops visit them. -/
def rivalHoldings (entries : List (OwnerKey × OwnerState)) (key : OwnerKey) : List Holding :=
  entries.flatMap fun entry =>
    if rivals key entry.1 then
      entry.2.ranges.zipIdx.map fun range => ⟨entry.1, range.2, range.1⟩
    else []

lemma mem_rivalHoldings : x ∈ rivalHoldings entries key ↔
    rivals key x.owner = true ∧ ∃ state, (x.owner, state) ∈ entries ∧
      state.ranges[x.place]? = some x.held := by
  simp only [rivalHoldings, List.mem_flatMap]
  constructor
  · rintro ⟨⟨other, state⟩, hentry, hm⟩
    split at hm
    · rename_i hrival
      obtain ⟨range, hrange, rfl⟩ := List.mem_map.mp hm
      exact ⟨hrival, state, hentry, List.mem_zipIdx_iff_getElem?.mp hrange⟩
    · cases hm
  · rintro ⟨hrival, state, hentry, hh⟩
    refine ⟨_, hentry, ?_⟩
    rw [if_pos hrival]
    exact List.mem_map.mpr ⟨(x.held, x.place), List.mem_zipIdx_iff_getElem?.mpr hh, rfl⟩

lemma rivalHoldings_ordered (key : OwnerKey)
    (hkeys : entries.Pairwise fun first second => first.1 ≠ second.1) :
    (rivalHoldings entries key).Pairwise fun x y => x.owner = y.owner → x.place < y.place := by
  have howner : ∀ entry : OwnerKey × OwnerState, ∀ x ∈ (if rivals key entry.1 then
      entry.2.ranges.zipIdx.map fun range => (⟨entry.1, range.2, range.1⟩ : Holding)
      else []), x.owner = entry.1 := by
    intro entry x hx
    split at hx
    · obtain ⟨range, -, rfl⟩ := List.mem_map.mp hx
      rfl
    · cases hx
  refine List.pairwise_flatMap.mpr ⟨fun entry _ => ?_, hkeys.imp ?_⟩
  · split
    · rw [List.pairwise_map, List.pairwise_iff_getElem]
      simp
    · exact .nil
  · intro first second hne x hx y hy hsm
    rw [howner first x hx, howner second y hy] at hsm
    exact absurd hsm hne

/-! ## The running minimum -/

namespace Coordinator

/-- The loops of `conflictLocked` over the owners in a given order. -/
def conflictAmong (c : Coordinator) (entries : List (OwnerKey × OwnerState))
    (key : OwnerKey) (command : RangeCommand) : RangeConflict :=
  (entries.foldl (fun best entry =>
    if rivals key entry.1 then
      entry.2.ranges.foldl (c.selectConflict command entry.1) best
    else best) (RangeConflict.zero, noOwner)).1

def selectHolding (c : Coordinator) (command : RangeCommand)
    (best : RangeConflict × OwnerKey) (x : Holding) : RangeConflict × OwnerKey :=
  c.selectConflict command x.owner best x.held

lemma conflictAmong_eq (c : Coordinator) (entries : List (OwnerKey × OwnerState))
    (key : OwnerKey) (command : RangeCommand) :
    c.conflictAmong entries key command =
      ((rivalHoldings entries key).foldl (c.selectHolding command)
        (RangeConflict.zero, noOwner)).1 := by
  unfold conflictAmong rivalHoldings
  rw [List.foldl_flatMap]
  congr 2
  funext best entry
  split
  · rw [List.foldl_map]
    conv_lhs => rw [← List.zipIdx_map_fst 0 entry.2.ranges, List.foldl_map]
    rfl
  · rfl

end Coordinator

/-- What the loops know after some visits: nothing clashes, or the least of the
holdings that clash. -/
inductive Least (c : Coordinator) (command : RangeCommand) (visited : List Holding) :
    RangeConflict × OwnerKey → Prop
  | none (hfree : ∀ x ∈ visited, clashes x.held.command command = false) :
      Least c command visited (.zero, noOwner)
  | some (x : Holding) (hm : x ∈ visited) (hcl : clashes x.held.command command = true)
      (hle : ∀ y ∈ visited, clashes y.held.command command = true → x.rank ≤ y.rank) :
      Least c command visited (x.report c, x.owner)

variable {visited : List Holding}

lemma Least.keep (hm : best ∈ visited) (hcl : clashes best.held.command command = true)
    (hle : ∀ y ∈ visited, clashes y.held.command command = true → best.rank ≤ y.rank)
    (hx : clashes x.held.command command = true → best.rank ≤ x.rank) :
    Least c command (visited ++ [x]) (best.report c, best.owner) :=
  .some best (List.mem_append_left _ hm) hcl
    (List.forall_mem_append.mpr ⟨hle, List.forall_mem_singleton.mpr hx⟩)

/-- One visit.  A rival with the session and the owner number of the best one is
the same owner, whose later ranges never replace an earlier one. -/
lemma Least.visit (hbest : Least c command visited best)
    (hrivals : ∀ y ∈ visited ++ [x], rivals key y.owner = true)
    (hlater : ∀ y ∈ visited, y.owner = x.owner → y.place < x.place) :
    Least c command (visited ++ [x]) (c.selectHolding command best x) := by
  have hlast : x ∈ visited ++ [x] := by simp
  have htaken : clashes x.held.command command = true →
      (∀ y ∈ visited, clashes y.held.command command = true → x.rank ≤ y.rank) →
      Least c command (visited ++ [x]) (x.report c, x.owner) := fun hcl hle =>
    .some x hlast hcl (List.forall_mem_append.mpr
      ⟨hle, List.forall_mem_singleton.mpr fun _ => le_rfl⟩)
  unfold selectHolding selectConflict
  cases hbest with
  | none hfree =>
    split
    · rename_i hcl
      exact .none (List.forall_mem_append.mpr ⟨hfree, List.forall_mem_singleton.mpr hcl⟩)
    rename_i hcl
    rw [if_neg fun hkeep => absurd hkeep.1 (by decide)]
    refine htaken (Bool.not_eq_false _ ▸ hcl) fun y hy hclashes => ?_
    rw [hfree y hy] at hclashes
    cases hclashes
  | some best hm hbest hle =>
    have hbefore : best.owner.session = x.owner.session →
        best.owner.owner = x.owner.owner → best.place < x.place := by
      intro hsess howner
      have hrival := hrivals best (List.mem_append_left _ hm)
      exact hlater best hm (eq_of_rivals hrival (hrivals x hlast) hsess howner)
    split
    · rename_i hcl
      exact .keep hm hbest hle fun h => absurd (hcl.symm.trans h) (by decide)
    split
    · rename_i hkeep
      refine .keep hm hbest hle fun _ => Holding.rank_le_iff.mpr ?_
      rcases hkeep.2 with hlt | ⟨heq, hnot⟩
      · exact .inl hlt
      · simp only [ownerBefore, decide_eq_false_iff_not] at hnot
        exact .inr ⟨heq.symm, by omega⟩
    rename_i hcl htake
    refine htaken (Bool.not_eq_false _ ▸ hcl) fun y hy hclashes =>
      le_trans (Holding.rank_le_iff.mpr ?_) (hle y hy hclashes)
    simp only [Holding.report, true_and, not_or, not_and, Bool.not_eq_false,
      ownerBefore, decide_eq_true_eq] at htake
    rcases UInt64.lt_or_eq_of_le (UInt64.not_lt.mp htake.1) with hlt | heq
    · exact .inl hlt
    · have hearlier := htake.2 heq
      exact .inr ⟨heq, by omega⟩

lemma Coordinator.least_of_visits (c : Coordinator) (command : RangeCommand)
    (hrivals : ∀ x ∈ visits, rivals key x.owner = true)
    (hordered : visits.Pairwise fun x y => x.owner = y.owner → x.place < y.place) :
    Least c command visits
      (visits.foldl (c.selectHolding command) (RangeConflict.zero, noOwner)) := by
  induction visits using List.reverseRecOn with
  | nil => exact .none fun _ hm => by cases hm
  | append_singleton visited x ih =>
    rw [List.foldl_append]
    obtain ⟨hvisited, -, hlater⟩ := List.pairwise_append.mp hordered
    have hbest := ih (fun y hy => hrivals y (List.mem_append_left _ hy)) hvisited
    exact hbest.visit hrivals fun y hy => hlater y hy x (List.mem_singleton_self x)

/-! ## The result -/

/-- The holdings visited are those of the owners, whatever the order. -/
lemma blocks_iff (hperm : entries.Perm c.owners.toList) : x.Blocks c key command ↔
      x ∈ rivalHoldings entries key ∧ clashes x.held.command command = true := by
  rw [mem_rivalHoldings, rivals_iff, clashes_iff]
  simp only [hperm.mem_iff, Table.mem_toList]
  constructor
  · intro hbl
    exact ⟨⟨⟨hbl.other, hbl.node, hbl.domain⟩, hbl.held⟩,
      hbl.overlap, hbl.unshared⟩
  · rintro ⟨⟨⟨hother, hnode, hdomain⟩, hh⟩, hoverlap, hunshared⟩
    exact ⟨hh, hother, hnode, hdomain, hoverlap, hunshared⟩

lemma conflictAmong_cases (key : OwnerKey) (command : RangeCommand)
    (hperm : entries.Perm c.owners.toList) :
    (c.conflictAmong entries key command = .zero ∧ ∀ x : Holding, ¬x.Blocks c key command) ∨
      ∃ x : Holding, x.Blocks c key command ∧ c.conflictAmong entries key command = x.report c ∧
        ∀ y : Holding, y.Blocks c key command → x.rank ≤ y.rank := by
  have hkeys := hperm.symm.pairwise c.owners.toList_pairwise Ne.symm
  have hle := c.least_of_visits command
    (fun x hx => (mem_rivalHoldings.mp hx).1) (rivalHoldings_ordered key hkeys)
  rw [conflictAmong_eq]
  revert hle
  generalize (rivalHoldings entries key).foldl _ _ = best
  intro hle
  cases hle with
  | none hfree =>
    refine .inl ⟨rfl, fun x hbl => ?_⟩
    obtain ⟨hm, hcl⟩ := (blocks_iff hperm).mp hbl
    rw [hfree x hm] at hcl
    cases hcl
  | some x hm hcl hle =>
    refine .inr ⟨x, (blocks_iff hperm).mpr ⟨hm, hcl⟩, rfl, fun y hbl => ?_⟩
    obtain ⟨hm, hcl⟩ := (blocks_iff hperm).mp hbl
    exact hle y hm hcl

lemma Coordinator.conflictLocked_cases (c : Coordinator) (key : OwnerKey)
    (command : RangeCommand) :
    (c.conflictLocked key command = .zero ∧ ∀ x : Holding, ¬x.Blocks c key command) ∨
      ∃ x : Holding, x.Blocks c key command ∧ c.conflictLocked key command = x.report c ∧
        ∀ y : Holding, y.Blocks c key command → x.rank ≤ y.rank :=
  conflictAmong_cases key command (.refl _)

/-- In whatever order the owners are visited, a conflict is found exactly when a
holding stands in the way, and the least such holding is reported. -/
theorem conflict_is_least_holding (c : Coordinator) (key : OwnerKey)
    (command : RangeCommand) (entries : List (OwnerKey × OwnerState))
    (hperm : entries.Perm c.owners.toList) :
    c.conflictAmong entries key command = c.conflictLocked key command ∧
      ((c.conflictLocked key command).found = true ↔ ∃ x : Holding, x.Blocks c key command) ∧
      ((c.conflictLocked key command).found = true → ∃ x : Holding, x.Blocks c key command ∧
          c.conflictLocked key command = x.report c ∧
          ∀ y : Holding, y.Blocks c key command → x.rank ≤ y.rank) ∧
      (∀ x : Holding, x.Blocks c key command →
        x.held.command.mode.defined = true → command.mode.defined = true →
        x.held.command.mode = .exclusive ∨ command.mode = .exclusive) := by
  rcases conflictAmong_cases key command hperm with
      ⟨hzero, hnone⟩ | ⟨x, hx, hreport, hle⟩ <;>
    rcases c.conflictLocked_cases key command with
      ⟨hzero', hnone'⟩ | ⟨y, hy, hreport', hleast'⟩
  · simp [hzero, hzero', hnone, RangeConflict.zero]
  · exact absurd hy (hnone y)
  · exact absurd hx (hnone' x)
  have hsm := hx.eq_of_rank hy (hle y hy) (hleast' x hx)
  subst hsm
  rw [hreport, hreport']
  exact ⟨rfl, ⟨fun _ => ⟨x, hx⟩, fun _ => rfl⟩, fun _ => ⟨x, hx, rfl, hle⟩,
    fun _ => Holding.Blocks.exclusive⟩

/-- Two owners hold the first bytes of node 7, one of them twice. -/
def contestedNode : Coordinator :=
  let first : RangeClaim := ⟨[], ⟨.record, .shared, ⟨.bytes, 0, 8, 0⟩, .replace, [],
    false, .preserveBeforeAcquire, .zero⟩⟩
  { Coordinator.empty DefaultConfig fun _ => 0 with
    owners := (Table.empty.set ⟨2, 1, 7, .record⟩ ⟨[first], 0⟩).set
      ⟨1, 2, 7, .record⟩ ⟨[first, first], 0⟩ }

theorem conflict_is_least_holding_reversed :
    let key : OwnerKey := ⟨1, 1, 7, .record⟩
    let command : RangeCommand := ⟨.record, .exclusive, ⟨.bytes, 4, 1, 0⟩, .replace, [],
      false, .preserveBeforeAcquire, .zero⟩
    (contestedNode.conflictLocked key command).found = true ∧
      contestedNode.conflictAmong contestedNode.owners.toList.reverse key command =
        contestedNode.conflictLocked key command :=
  ⟨by decide, (conflict_is_least_holding _ _ _ _ (List.reverse_perm _)).1⟩

end RemoteFs.Advisory
