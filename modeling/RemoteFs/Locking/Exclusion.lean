import RemoteFs.Lib.Runs
import RemoteFs.Locking.Sections

/-!
# Exclusion

A run interleaves the sections of any number of calls, workers and publications.
Every state of it satisfies the structural invariant, so what each move keeps,
each run keeps.  The grants of a resource are then compatible throughout, and a
grant that has ended stays as it ended.
-/

namespace RemoteFs.Locking

open Authority

variable {a : Authority} {g : GrantRecord} {id : GrantID} {place : ResourceID}
  {r : ResourceRecord}

/-! ## Runs -/

lemma Core.runAlong {allowed : Authority → Step → Prop}
    {motive : Authority → Prop} (hmove : ∀ {a step b b'}, allowed a step → Core b →
      Move (step.terms a) b b' → motive b → motive b') (h : Core a)
    (hstart : motive a) (halong : Runs.Along exec allowed a steps) :
    Core (steps.foldl exec a) ∧ motive (steps.foldl exec a) := by
  refine Runs.Along.invariant (motive := fun b => Core b ∧ motive b) ?_
    ⟨h, hstart⟩ halong
  intro b step hb hallowed
  refine Chain.invariant (motive := fun c => Core c ∧ motive c) ?_
    (exec_chain hb.1 step) hb
  intro c c' hlast hc
  exact ⟨hc.1.move hlast, hmove hallowed hc.1 hlast hc.2⟩

lemma Core.run {motive : Authority → Prop}
    (hmove : ∀ {t a a'}, Core a → Move t a a' → motive a → motive a')
    (h : Core a) (hstart : motive a) (steps : List Step) :
    Core (steps.foldl exec a) ∧ motive (steps.foldl exec a) := by
  refine Runs.invariant (motive := fun b => Core b ∧ motive b) ?_
    ⟨h, hstart⟩ steps
  intro b step hb
  refine Chain.invariant (motive := fun c => Core c ∧ motive c) ?_
    (exec_chain hb.1 step) hb
  intro c c' hlast hc
  exact ⟨hc.1.move hlast, hmove hc.1 hlast hc.2⟩

lemma Core.reached {options : Options} {verify : Capability → Except Fault Unit} {now : ℕ → Time}
    {maxLease : Duration} {start : Option Time}
    (hnew : Authority.new options verify now maxLease start = .ok a)
    (steps : List Step) : Core (steps.foldl exec a) := by
  obtain ⟨-, -, from_, -, rfl⟩ := new_eq_ok hnew
  exact (Core.run (motive := fun _ => True) (fun _ _ _ => True.intro)
    (Core.initial options verify now maxLease from_) True.intro steps).1

/-! ### A first caller

The clock advances a millisecond at each reading.  Session, owner and resource
get the tokens 1, 2 and 3. -/

namespace Sample

def clock (n : ℕ) : Time := n * millisecond

def fresh : Authority :=
  .initial DefaultOptions (fun _ => .ok ()) clock 0 0

lemma new_fresh : Authority.new DefaultOptions (fun _ => .ok ()) clock 0 (some 0) = .ok fresh := rfl

def enter : List Step :=
  [.openSession ⟨7, 1000⟩, .createOwner 1 [1], .discover ⟨1, 2⟩ [5] false]

/-- A whole `Acquire` without interruption. -/
def lock (owner : OwnerRef) (request : RequestID) (resource : ResourceID)
    (mode : Mode) (ttl wait : Duration) : List Step :=
  let job := Job.call ⟨owner.owner, request⟩
  [.acquire ⟨owner, request, ⟨resource, 60000, 0, 0⟩, mode, ttl, wait⟩,
    .raise job false, .persist job true none, .advance job,
    .guard job true false none, .leave job]

end Sample

/-! ## The life of a grant -/

/-- A later record of a grant: what has ended keeps its state. -/
def GrantRecord.Follows (g g' : GrantRecord) : Prop :=
  g.state ≠ .active → g'.state = g.state

namespace GrantRecord.Follows

lemma refl : g.Follows g := fun _ => rfl

lemma trans (hfirst : g.Follows g') (hsecond : g'.Follows g'') : g.Follows g'' := by
  intro hended
  have hs := hfirst hended
  exact (hsecond (hs ▸ hended)).trans hs

end GrantRecord.Follows

lemma follows_modify {grants : Table GrantID GrantRecord} {change : GrantRecord → GrantRecord}
    (hchange : ∀ g, grants.get? id = some g → g.Follows (change g))
    {other : GrantID} (hg : grants.get? other = some g) :
    ∃ g', (grants.modify id change).get? other = some g' ∧ g.Follows g' := by
  rw [Table.get?_modify]
  split_ifs with heq
  · rw [heq] at hg
    rw [hg]
    exact ⟨change g, rfl, hchange g hg⟩
  · exact ⟨g, hg, .refl⟩

/-- Grants are never forgotten, and no move revives one. -/
lemma Core.follows {t : Terms} {a' : Authority} (h : Core a)
    (hmove : Move t a a') (hg : a.grantRecords.get? id = some g) :
    ∃ g', a'.grantRecords.get? id = some g' ∧ g.Follows g' := by
  cases hmove with
  | endGrant state hget hactive hstate =>
    refine follows_modify (fun found hfound => ?_) hg
    cases hget.symm.trans hfound
    exact fun hended => absurd hactive hended
  | issue =>
    have hne : id ≠ a.lastGeneration + 1 := ne_of_lt (Nat.lt_succ_of_le (h.tokens.grant hg))
    exact ⟨g, (Table.get?_set_ne hne).trans hg, .refl⟩
  | prolong | noteRelease =>
    refine follows_modify (fun _ _ => ?_) hg
    exact fun _ => rfl
  | _ => exact ⟨g, hg, .refl⟩

lemma Core.follows_run (h : Core a) (hg : a.grantRecords.get? id = some g) (steps : List Step) :
    ∃ g', (steps.foldl exec a).grantRecords.get? id = some g' ∧ g.Follows g' := by
  refine (Core.run (motive := fun b => ∃ g', b.grantRecords.get? id = some g' ∧ g.Follows g') ?_ h
    ⟨g, hg, .refl⟩ steps).2
  rintro t b b' hb hmove ⟨g', hg', hfollows⟩
  obtain ⟨g'', hg'', hnext⟩ := hb.follows hmove hg'
  exact ⟨g'', hg'', hfollows.trans hnext⟩

/-! ## The live grants of a resource -/

/-- Shared grants of pairwise distinct owners. -/
def Authority.AllShared (a : Authority) (grants : List GrantID) : Prop :=
  (∀ id ∈ grants, ∃ g, a.grantRecords.get? id = some g ∧ g.mode = .shared) ∧
    grants.Pairwise fun first second => ∀ g g',
      a.grantRecords.get? first = some g →
        a.grantRecords.get? second = some g' → g.owner ≠ g'.owner

def Authority.OneExclusive (a : Authority) (grants : List GrantID) : Prop :=
  ∃ id g, grants = [id] ∧ a.grantRecords.get? id = some g ∧
    g.mode = .exclusive

/-- The grants that a resource lists as live. -/
structure Authority.LiveSet (a : Authority) (r : ResourceRecord) : Prop where
  compatible : r.grants = [] ∨ a.AllShared r.grants ∨ a.OneExclusive r.grants
  active : ∀ id ∈ r.grants, ∃ g, a.grantRecords.get? id = some g ∧
    g.state = .active ∧ ∃ o, a.owners.get? g.owner = some o ∧ id ∈ o.grants

lemma Grants.allShared (h : Grants a) (hr : a.resourceRecords.get? place = some r)
    (hshared : ∀ id ∈ r.grants, ∀ g, a.grantRecords.get? id = some g →
      g.mode ≠ .exclusive) : a.AllShared r.grants := by
  refine ⟨fun id hid => ?_, ?_⟩
  · obtain ⟨g, hg, -⟩ := (h.resource hr).live hid
    exact ⟨g, hg, (h.granted hg).mode.resolve_right (hshared id hid g hg)⟩
  · refine (h.resource hr).nodup.imp_of_mem ?_
    intro first second hfirst hsecond hne g g' hg hg'
    exact ((h.resource hr).compatible hfirst hsecond hne hg hg').1

lemma Grants.oneExclusive (h : Grants a) (hr : a.resourceRecords.get? place = some r)
    (hid : id ∈ r.grants) (hg : a.grantRecords.get? id = some g)
    (hexc : g.mode = .exclusive) : a.OneExclusive r.grants := by
  refine ⟨id, g, ?_, hg, hexc⟩
  have honly : ∀ other ∈ r.grants, other = id := by
    intro other hother
    by_contra hne
    obtain ⟨g', hg', -⟩ := (h.resource hr).live hother
    exact ((h.resource hr).compatible hid hother (Ne.symm hne) hg hg').2 hexc
  exact List.perm_singleton.mp ((List.perm_ext_iff_of_nodup (h.resource hr).nodup
    (List.nodup_singleton id)).mpr fun other =>
      ⟨fun hother => List.mem_singleton.mpr (honly other hother),
        fun heq => List.mem_singleton.mp heq ▸ hid⟩)

lemma Grants.liveSet (h : Grants a) (hr : a.resourceRecords.get? place = some r) :
    a.LiveSet r := by
  constructor
  · by_cases hexc : ∃ id ∈ r.grants, ∃ g,
        a.grantRecords.get? id = some g ∧ g.mode = .exclusive
    · obtain ⟨id, hid, g, hg, hmode⟩ := hexc
      exact .inr (.inr (h.oneExclusive hr hid hg hmode))
    · refine .inr (.inl (h.allShared hr ?_))
      intro id hid g hg hmode
      exact hexc ⟨id, hid, g, hg, hmode⟩
  · intro id hid
    obtain ⟨g, hg, hactive, -⟩ := (h.resource hr).live hid
    exact ⟨g, hg, hactive, (h.granted hg).held hactive⟩

/-- In every state of every run the live grants of each resource are compatible
and are exactly its active grants, and a grant that has ended never becomes
active again. -/
theorem live_grants_compatible {options : Options}
    {verify : Capability → Except Fault Unit} {now : ℕ → Time}
    {maxLease : Duration} {start : Option Time} {a₀ : Authority}
    (hnew : Authority.new options verify now maxLease start = .ok a₀) (before after : List Step) :
    let a := before.foldl exec a₀
    (∀ id r, a.resourceRecords.get? id = some r → a.LiveSet r) ∧
      (∀ id g, a.grantRecords.get? id = some g → g.state = .active →
        id ∈ a.liveGrants g.resource) ∧
      ∀ id g, a.grantRecords.get? id = some g → g.state ≠ .active →
        ∃ g', (after.foldl exec a).grantRecords.get? id = some g' ∧ g'.state ≠ .active := by
  intro a
  have hcore : Core a := Core.reached hnew before
  refine ⟨fun id r hr => hcore.grants.liveSet hr, ?_, ?_⟩
  · intro id g hg hactive
    obtain ⟨r, hr, hmem⟩ := (hcore.grants.granted hg).listed hactive
    exact mem_liveGrants.mpr ⟨r, hr, hmem⟩
  · intro id g hg hended
    obtain ⟨g', hg', hfollows⟩ := hcore.follows_run hg after
    refine ⟨g', hg', ?_⟩
    rwa [hfollows hended]

/-- Two shared grants of two owners are live at once. -/
theorem live_grants_compatible_of_lock :
    let a := (Sample.enter ++ Sample.lock ⟨1, 2⟩ [9] 3 .shared (1000 * millisecond) 0 ++
      .createOwner 1 [2] ::
        Sample.lock ⟨1, 4⟩ [8] 3 .shared (1000 * millisecond) 0).foldl exec Sample.fresh
    a.liveGrants 3 = [2, 1] ∧ ∀ r, a.resourceRecords.get? 3 = some r → a.LiveSet r := by
  exact ⟨by decide +kernel, fun r hr =>
    (live_grants_compatible Sample.new_fresh _ []).1 3 r hr⟩

end RemoteFs.Locking
