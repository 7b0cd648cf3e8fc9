import RemoteFs.Advisory.Acts

/-!
# Retirement

An owner is retired by dropping its keys in the three conflict domains and then
removing its registration; a session is retired by removing everything it owns
at once.  Both leave sound states sound, and with them every critical section
is covered.
-/

namespace RemoteFs.Advisory

open Storage Coordinator

namespace Sound

variable {session : ℕ} {s : Session}

variable {slip : Prop} {c : Coordinator}

/-! ## Owners -/

lemma unbind (hc : Sound slip c) {owner : ℕ} (hs : c.sessions.get? session = some s)
    (hbind : s.bindings.get? owner = some binding)
    (hidle : ∀ {key state}, c.owners.get? key = some state →
      key.session = session → key.owner ≠ owner) :
    Sound slip { c.modifySession session (Session.unbind owner) with
      registeredOwners := c.registeredOwners - 1 } := by
  obtain ⟨hcount, hnext⟩ := hc.directory.owners hs
  have hsize := Table.size_erase hbind
  have hbo := hc.directory.ownersBound
  refine hc.rewrite ⟨fun _ => ⟨rfl, rfl, rfl, rfl, rfl⟩, ?_, ?_, ?_,
    fun _ h _ _ => h, ?_, ?_, hc.directory.requestsBound, ?_⟩ fun _ h => h
  · intro old hold
    rw [hc.not_retired hs] at hold
    cases hold
  · intro found hfd
    cases hs.symm.trans hfd
    refine ⟨?_, fun hbo => hnext (Table.erase_cases hbo).2⟩
    change s.owners - 1 = ((s.bindings.erase owner).size : ℤ)
    omega
  · intro found key state bound _ hg hkey hbo
    exact (Table.get?_erase_ne (hidle hg hkey)).trans hbo
  · rw [Table.total_modify_of_eq]
    · exact hc.directory.requests
    · exact fun _ _ => rfl
  · have hsum := Table.total_modify (Session.unbind owner)
      (fun _ s => s.bindings.size) hs
    have hold := hc.directory.registered
    simp only [Session.unbind] at hsum ⊢
    omega
  · omega

lemma dropAll (hc : Sound slip c) (hs : c.sessions.get? session = some s)
    (keys : List OwnerKey) (hkeys : ∀ key ∈ keys, key.session = session) :
    Sound slip (keys.foldl Coordinator.dropLocked c) ∧
      Frame c (keys.foldl Coordinator.dropLocked c) ∧
      (∀ key ∈ keys, (keys.foldl Coordinator.dropLocked c).owners.get? key = none) ∧
      ∀ key, c.owners.get? key = none →
        (keys.foldl Coordinator.dropLocked c).owners.get? key = none := by
  induction keys generalizing c s with
  | nil => exact ⟨hc, Frame.refl, fun _ h => absurd h List.not_mem_nil, fun _ h => h⟩
  | cons key keys ih =>
    have hkey := hkeys key (List.mem_cons_self ..)
    have hsKey : c.sessions.get? key.session = some s := by rwa [hkey]
    have hf := c.dropLocked_frame key
    obtain ⟨-, hnone, hk⟩ := hc.ledger.dropLocked hc.directory hsKey
    obtain ⟨s', hs', -⟩ := hf.session_forth hs
    obtain ⟨hdropped, hf', hgone, hstays⟩ := ih (hc.dropLocked hsKey)
      hs' fun other h => hkeys other (List.mem_cons_of_mem _ h)
    have hcreates : ∀ other, c.owners.get? other = none →
        (c.dropLocked key).owners.get? other = none := by
      intro other hother
      by_cases heq : other = key
      · rwa [heq]
      cases hg : (c.dropLocked key).owners.get? other with
      | none => rfl
      | some state =>
        obtain ⟨old, hold, -⟩ := hk hg heq
        cases hother.symm.trans hold
    refine ⟨hdropped, hf.trans hf', ?_, fun other hother =>
      hstays other (hcreates other hother)⟩
    exact List.forall_mem_cons.mpr ⟨hstays key hnone, hgone⟩

lemma unboundBy (hc : Sound slip c) {owner : ℕ}
    (hs : c.sessions.get? session = some s) (hbind : s.bindings.get? owner = some binding) :
    Sound slip (c.unboundBy session owner binding.node) := by
  obtain ⟨hdropped, hf, hgone, -⟩ := hc.dropAll hs
    (ownerKeys session owner binding.node) (by simp [ownerKeys])
  obtain ⟨s', hs', halike⟩ := hf.session_forth hs
  have hbind' : s'.bindings.get? owner = some binding := by rwa [halike.bindings]
  refine hdropped.unbind hs' hbind' ?_
  intro key state hg hsess howner
  obtain ⟨found, bound, hfd, hbo, hnode, hdomain⟩ := hdropped.ledger.owned hg
  rw [hsess, hs', Option.some.injEq] at hfd
  subst hfd
  rw [howner, hbind', Option.some.injEq] at hbo
  subst hbo
  have hm : key ∈ ownerKeys session owner binding.node := by
    obtain ⟨_, _, _, domain⟩ := key
    cases domain with
    | undefined number => cases hdomain
    | _ => simp_all [ownerKeys]
  rw [hgone key hm] at hg
  cases hg

/-! ## Sessions -/

lemma ownedBy_eq (hg : c.heap ref = some a) :
    ownedBy session c ref = decide (a.key.session = session) := by
  simp [ownedBy, hg]

lemma waitersOf_dissolve (hc : Sound slip c) (s : Session) {select : OwnerKey → Bool}
    (hselect : ∀ key, select key = true → key.session ≠ session) :
    (c.dissolve session s).waitersOf select = c.waitersOf select := by
  unfold Coordinator.waitersOf
  change (c.waiting.filter _).countP (fun ref => (c.keyOf ref).any select) = _
  rw [List.countP_filter]
  apply List.countP_congr
  intro ref hm
  obtain ⟨a, hk, -⟩ := hc.ledger.queue.waiting.mp hm
  simp only [Coordinator.keyOf, hk.heap, Option.map_some,
    Option.any_some, ownedBy_eq hk.heap, Bool.and_eq_true,
    Bool.not_eq_true', decide_eq_false_iff_not, and_iff_left_iff_imp]
  exact hselect a.key

lemma dissolve_directory (hc : Sound slip c) (hs : c.sessions.get? session = some s) :
    Directory (c.dissolve session s) := by
  have hactions := Table.total_erase (fun _ s => s.actions.size) hs
  have hbindings := Table.total_erase (fun _ s => s.bindings.size) hs
  refine { hc.directory with
    session := ?_, gone := ?_, owners := ?_, indexed := ?_,
    requests := ?_, registered := ?_, requestsBound := ?_, ownersBound := ?_ }
  · intro id s' hg
    exact hc.directory.session (Table.erase_cases hg).2
  · intro id s' hg
    rcases Table.set_cases hg with ⟨rfl, rfl⟩ | ⟨hne, hg⟩
    · exact ⟨(hc.directory.session hs).2.1, Table.get?_erase_self _ _, rfl, rfl, rfl⟩
    · obtain ⟨hle, hnone, hrest⟩ := hc.directory.gone hg
      exact ⟨hle, (Table.get?_erase_ne hne).trans hnone, hrest⟩
  · intro id s' hg
    exact hc.directory.owners (Table.erase_cases hg).2
  · intro id s' request ref hg hls
    exact hc.directory.indexed (Table.erase_cases hg).2 hls
  · have hcount := hc.directory.requests
    change c.requests - (s.actions.size : ℤ) =
      ((c.sessions.erase session).total fun _ s => s.actions.size : ℕ)
    omega
  · have hcount := hc.directory.registered
    change c.registeredOwners - (s.bindings.size : ℤ) =
      ((c.sessions.erase session).total fun _ s => s.bindings.size : ℕ)
    omega
  · have hbo := hc.directory.requestsBound
    change c.requests - (s.actions.size : ℤ) ≤ c.config.maxRequests
    omega
  · have hbo := hc.directory.ownersBound
    change c.registeredOwners - (s.bindings.size : ℤ) + (c.uses.size : ℤ) ≤ c.config.maxOwners
    omega

lemma retained_dissolve :
    Retained (c.dissolve session s) ref a ↔ Retained c ref a ∧ a.key.session ≠ session := by
  constructor
  · rintro ⟨hheap, found, hfd, hls⟩
    obtain ⟨hne, hfd⟩ := Table.erase_cases hfd
    exact ⟨⟨hheap, found, hfd, hls⟩, hne⟩
  · rintro ⟨⟨hheap, found, hfd, hls⟩, hne⟩
    refine ⟨hheap, found, ?_, hls⟩
    change (c.sessions.erase session).get? _ = some found
    rwa [Table.get?_erase_ne hne]

lemma dissolve_owners : (c.dissolve session s).owners.get? key = some state ↔
    c.owners.get? key = some state ∧ key.session ≠ session := by
  change (c.owners.filter _).get? key = some state ↔ _
  rw [Table.get?_filter_iff, decide_eq_true_eq]

lemma dissolve_queue (hc : Sound slip c) (s : Session) : Queue (c.dissolve session s) := by
  have hqueue := hc.ledger.queue
  have hm : ∀ {ref a}, c.heap ref = some a →
      (ref ∈ (c.dissolve session s).waiting ↔ ref ∈ c.waiting ∧ a.key.session ≠ session) := by
    intro ref a hg
    change ref ∈ c.waiting.filter _ ↔ _
    rw [List.mem_filter, ownedBy_eq hg]
    simp
  refine ⟨hqueue.nodup.filter _, ?_, ?_, ?_, ?_, ?_, ?_⟩
  · intro ref
    constructor
    · intro hwaits
      obtain ⟨a, hk, hpd⟩ := hqueue.waiting.mp (List.mem_of_mem_filter hwaits)
      exact ⟨a, retained_dissolve.mpr ⟨hk, ((hm hk.heap).mp hwaits).2⟩, hpd⟩
    · rintro ⟨a, hk, hpd⟩
      obtain ⟨hold, hne⟩ := retained_dissolve.mp hk
      exact (hm hold.heap).mpr ⟨hqueue.waiting.mpr ⟨a, hold, hpd⟩, hne⟩
  · intro ref a hk
    exact hqueue.unsettled (retained_dissolve.mp hk).1
  · intro ref a hwaits hg
    obtain ⟨hold, hne⟩ := (hm hg).mp hwaits
    obtain ⟨state, hst⟩ := hqueue.queued hold hg
    exact ⟨state, dissolve_owners.mpr ⟨hst, hne⟩⟩
  · intro key state hg
    obtain ⟨hold, hne⟩ := dissolve_owners.mp hg
    rw [hc.waitersOf_dissolve s]
    · exact hqueue.ownerPending hold
    · intro other hother
      rwa [of_decide_eq_true hother]
  · intro id found hfd
    obtain ⟨hne, hfd⟩ := Table.erase_cases hfd
    rw [hc.waitersOf_dissolve s]
    · exact hqueue.sessionPending hfd
    · intro other hother
      rwa [of_decide_eq_true hother]
  · have hbo := hqueue.bound
    have hle := List.length_filter_le (fun ref => !ownedBy session c ref)
      c.waiting
    change ((c.waiting.filter _).length : ℤ) ≤ c.config.maxWaiters
    omega

lemma dissolve_ledger (hc : Sound slip c) (s : Session) :
    Ledger ∅ (c.dissolve session s) := by
  have hl := hc.ledger
  have hsplit : ∀ weight : OwnerKey → OwnerState → ℕ,
      (c.dissolve session s).owners.total weight + (c.owners.total fun key state =>
          if key.session = session then weight key state else 0) =
      c.owners.total weight := by
    intro weight
    have hsum := c.owners.total_filter_add
      (fun key _ => decide (key.session ≠ session)) weight
    simp only [decide_eq_true_eq, ite_not] at hsum
    exact hsum
  have hranges : (c.dissolve session s).ranges =
      (c.dissolve session s).owners.total rangeCount := by
    have hsum := hsplit rangeCount
    have hcount := hl.ranges
    change c.ranges - ((c.owners.total fun key state =>
      if key.session = session then state.ranges.length else 0 : ℕ) : ℤ) = _
    simp only [rangeCount] at hsum hcount ⊢
    omega
  refine ⟨?_, ?_, ?_, hranges, ?_, ?_, ?_, hc.dissolve_queue s⟩
  · exact hl.exclusion.of_ranges fun hg => .inr ⟨_, (dissolve_owners.mp hg).1, rfl⟩
  · intro key state hg
    obtain ⟨hold, hne⟩ := dissolve_owners.mp hg
    obtain ⟨found, binding, hfd, hrest⟩ := hl.owned hold
    refine ⟨found, binding, ?_, hrest⟩
    change (c.sessions.erase session).get? _ = some found
    rwa [Table.get?_erase_ne hne]
  · intro key state hg
    exact hl.populated (dissolve_owners.mp hg).1
  · intro id found hfd
    obtain ⟨hne, hfd⟩ := Table.erase_cases hfd
    have hsum := hsplit (sessionRangeCount id)
    have hzero : (c.owners.total fun key state =>
        if key.session = session then sessionRangeCount id key state
          else 0) = 0 := by
      rw [Table.total_eq_zero_iff]
      intro key state _
      split
      · next heq => simp [sessionRangeCount, heq, Ne.symm hne]
      · rfl
    have hcount := hl.sessionRanges hfd
    omega
  · have hbo := hl.rangesBound
    change c.ranges - (_ : ℕ) ≤ c.config.maxRanges
    omega
  · intro id found hfd
    exact hl.sessionRangesBound (Table.erase_cases hfd).2

lemma dissolved (hc : Sound slip c) (hs : c.sessions.get? session = some s) :
    Sound slip (c.dissolve session s) := by
  refine ⟨hc.dissolve_directory hs, hc.dissolve_ledger s, hc.shaped, ?_⟩
  intro ref a found hg hst hfd
  obtain ⟨hne, hold⟩ := Table.erase_cases hfd
  exact retained_dissolve.mpr ⟨hc.kept ref a found hg hst hold, hne⟩

/-! ## Use claims -/

lemma of_uses (hc : Sound slip c) {uses : Table UseScope UseRecord}
    (hbo : c.registeredOwners + uses.size ≤ c.config.maxOwners) :
    Sound slip { c with uses := uses } :=
  ⟨{ hc.directory with ownersBound := hbo },
    hc.ledger.of_sessions rfl rfl rfl rfl (fun _ _ => rfl)
      (fun hg => .inl ⟨_, hg, rfl, rfl, rfl⟩) hc.ledger.owned
      (fun h _ => h) (fun h _ => h),
    hc.shaped, hc.kept⟩

end Sound

/-! ## Every section -/

lemma Acts.sound (hacts : Acts slip c c') (hc : Sound slip c) : Sound slip c' := by
  cases hacts with
  | aged haging => exact hc.aging haging
  | created hoptions => exact hc.created hoptions
  | bound node scope options hs hroom => exact hc.bind hs node scope options hroom
  | started _ hadmits _ hslip => exact (hadmits.started hslip).1.ticked
  | retried hp => exact hc.retried hp
  | @cancelled c₁ _ ref a haging hk hst haging' =>
    have hsound₁ := hc.aging haging
    exact (hsound₁.complete hk (by decide) fun expires =>
      (hsound₁.shaped ref a hk.heap).cancel hst expires).aging haging'
  | dropped hs => exact hc.dropLocked hs
  | unbound hs hbind hretire =>
    rw [hretire]
    exact hc.unboundBy hs hbind
  | marked session change hchange =>
    refine hc.modifySession session change fun s => ?_
    rcases hchange with rfl | rfl
    · exact ⟨⟨rfl, rfl, rfl, rfl, rfl⟩, rfl, rfl, rfl, rfl⟩
    · exact ⟨⟨rfl, rfl, rfl, rfl, rfl⟩, rfl, rfl, rfl, rfl⟩
  | dissolved hs => exact hc.dissolved hs
  | used _ hbo => exact hc.of_uses hbo

lemma Sound.exec (hc : Sound slip c) (step : Section) (hslip : c.OverdrawnBy step → slip) :
    Sound slip (c.exec step) :=
  (exec_acts hc step hslip).sound hc

end RemoteFs.Advisory
