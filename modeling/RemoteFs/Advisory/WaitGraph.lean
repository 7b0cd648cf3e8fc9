import RemoteFs.Lib.Acyclic
import RemoteFs.Advisory.Books
import RemoteFs.Advisory.Eases

/-!
# The wait-for graph of the record domain

Its vertices are the deadlock participants.  A waiting request puts edges from
its participant to the participants behind the ranges that block it.  The
deadlock search decides whether a candidate would lie on a cycle.  A run in
which nobody is granted an acquisition while another of its requests waits
keeps the graph acyclic.
-/

namespace RemoteFs.Advisory

open Storage Coordinator

variable {c c' c₁ : Coordinator} {key : OwnerKey} {commands : List RangeCommand}
  {a : Request} {p q : DeadlockParticipant} {s : Session} {session : ℕ}

namespace Coordinator

/-- The edges of one request. -/
def WaitsFor (c : Coordinator) (key : OwnerKey) (commands : List RangeCommand)
    (p q : DeadlockParticipant) : Prop :=
  key.domain = .record ∧ p = c.participant key ∧
    ∃ other, rivals key other = true ∧
      blockedBy commands (c.heldRanges other) = true ∧ q = c.participant other

def Waits (c : Coordinator) (p q : DeadlockParticipant) : Prop :=
  ∃ ref ∈ c.waiting, ∃ a, c.heap ref = some a ∧
    c.WaitsFor a.key a.commands p q

/-! ## The deadlock search -/

lemma mem_waitEdges : (p, q) ∈ c.waitEdges key commands ↔ c.WaitsFor key commands p q := by
  unfold waitEdges WaitsFor
  by_cases hdomain : key.domain = .record
  · rw [if_neg (not_not.mpr hdomain)]
    simp only [List.mem_filterMap, hdomain, true_and]
    constructor
    · rintro ⟨⟨other, state⟩, hmem, hed⟩
      simp only [Bool.and_eq_true, Option.ite_none_right_eq_some,
        Option.some.injEq, Prod.mk.injEq] at hed
      obtain ⟨⟨hrivals, hbl⟩, rfl, rfl⟩ := hed
      refine ⟨rfl, other, hrivals, ?_, rfl⟩
      rwa [Ledger.heldRanges_eq (Table.mem_toList.mp hmem)]
    · rintro ⟨rfl, other, hrivals, hbl, rfl⟩
      cases hg : c.owners.get? other with
      | none => simp [heldRanges, hg, blockedBy] at hbl
      | some state =>
        rw [Ledger.heldRanges_eq hg] at hbl
        exact ⟨(other, state), Table.mem_toList.mpr hg, by simp [hrivals, hbl]⟩
  · simp [hdomain]

lemma addEdges_eq_some (hall : addEdges limit edges more = some all) :
    ∃ known, edges = some known ∧ all = known ++ more := by
  unfold addEdges at hall
  split at hall
  · cases hall
  next known =>
  split at hall
  · cases hall
  · exact ⟨known, rfl, (Option.some.inj hall).symm⟩

/-- The edges that a loop over requests collects, if its step adds those of one
request. -/
lemma foldl_addEdges {refs : List RequestRef}
    {step : Option (List (DeadlockParticipant × DeadlockParticipant)) →
      RequestRef → Option (List (DeadlockParticipant × DeadlockParticipant))}
    {start : Option (List (DeadlockParticipant × DeadlockParticipant))}
    {all : List (DeadlockParticipant × DeadlockParticipant)}
    (hall : refs.foldl step start = some all)
    (hgone : ∀ edges ref, c.heap ref = none → step edges ref = edges)
    (hstep : ∀ edges ref a, c.heap ref = some a → step edges ref =
      addEdges c.config.maxDeadlockEdges edges (c.waitEdges a.key a.commands)) :
    ∃ known, start = some known ∧ ∀ edge, edge ∈ all ↔ edge ∈ known ∨
      ∃ ref ∈ refs, ∃ a, c.heap ref = some a ∧ edge ∈ c.waitEdges a.key a.commands := by
  induction refs generalizing start with
  | nil => exact ⟨all, hall, by simp⟩
  | cons ref refs ih =>
    obtain ⟨known, hknown, hmem⟩ := ih hall
    cases hg : c.heap ref with
    | none =>
      rw [hgone _ _ hg] at hknown
      exact ⟨known, hknown, by simp [hmem, hg]⟩
    | some waiter =>
      rw [hstep _ _ _ hg] at hknown
      obtain ⟨before, rfl, rfl⟩ := addEdges_eq_some hknown
      exact ⟨before, rfl, by simp [hmem, hg, or_assoc]⟩

/-- A bounded search reports a deadlock exactly when the candidate could reach
itself. -/
lemma deadlockLocked_iff (hbounded : (c.deadlockLocked key commands).2 = true) :
    (c.deadlockLocked key commands).1 = true ↔
      Relation.TransGen (fun p q => c.Waits p q ∨ c.WaitsFor key commands p q)
        (c.participant key) (c.participant key) := by
  unfold deadlockLocked at hbounded ⊢
  simp only at hbounded ⊢
  split at hbounded
  · cases hbounded
  next edges hedges =>
  obtain ⟨waiting, hwaiting, rfl⟩ := addEdges_eq_some hedges
  obtain ⟨start, hstart, hmem⟩ := foldl_addEdges (c := c) hwaiting
    (fun edges ref hg => by simp only [hg])
    (fun edges ref a hg => by simp only [hg])
  obtain rfl := Option.some.inj hstart
  have hsm : Search.Edge (waiting ++ c.waitEdges key commands) =
      fun p q => c.Waits p q ∨ c.WaitsFor key commands p q := by
    funext p q
    simp [Search.Edge, Waits, hmem, mem_waitEdges]
  rw [Search.onCycle_iff, hsm]

/-- The edges of the requests in a list, each as often as it is met. -/
def edgesOf (c : Coordinator) (refs : List RequestRef) :
    List (DeadlockParticipant × DeadlockParticipant) :=
  refs.flatMap fun ref => ((c.heap ref).map fun a => c.waitEdges a.key a.commands).getD []

lemma foldl_addEdges_of_le {refs : List RequestRef}
    {step : Option (List (DeadlockParticipant × DeadlockParticipant)) →
      RequestRef → Option (List (DeadlockParticipant × DeadlockParticipant))}
    {known : List (DeadlockParticipant × DeadlockParticipant)}
    (hfits : ((known ++ c.edgesOf refs).length : ℤ) ≤ c.config.maxDeadlockEdges)
    (hgone : ∀ edges ref, c.heap ref = none → step edges ref = edges)
    (hstep : ∀ edges ref a, c.heap ref = some a → step edges ref =
      addEdges c.config.maxDeadlockEdges edges (c.waitEdges a.key a.commands)) :
    refs.foldl step (some known) = some (known ++ c.edgesOf refs) := by
  induction refs generalizing known with
  | nil => simp [edgesOf]
  | cons ref refs ih =>
    have hcons : c.edgesOf (ref :: refs) =
      ((c.heap ref).map fun a => c.waitEdges a.key a.commands).getD [] ++ c.edgesOf refs := rfl
    rw [hcons] at hfits ⊢
    cases hg : c.heap ref with
    | none =>
      simp only [hg, Option.map_none, Option.getD_none, List.nil_append] at hfits ⊢
      rw [List.foldl_cons, hgone _ _ hg, ih hfits]
    | some waiter =>
      simp only [hg, Option.map_some, Option.getD_some, ← List.append_assoc] at hfits ⊢
      have hmore : ¬c.config.maxDeadlockEdges <
          (known ++ c.waitEdges waiter.key waiter.commands).length := by
        simp only [List.length_append] at hfits ⊢
        omega
      rw [List.foldl_cons, hstep _ _ _ hg, addEdges, if_neg hmore, ih hfits]

/-- The search is bounded if the graph has no more edges than its limit. -/
lemma deadlockLocked_bounded (hfits : ((c.edgesOf c.waiting ++ c.waitEdges key commands).length : ℤ) ≤
      c.config.maxDeadlockEdges) : (c.deadlockLocked key commands).2 = true := by
  have hwaiting : (([] ++ c.edgesOf c.waiting).length : ℤ) ≤ c.config.maxDeadlockEdges := by
    rw [List.length_append] at hfits
    rw [List.nil_append]
    omega
  unfold deadlockLocked
  simp only
  rw [foldl_addEdges_of_le hwaiting (fun edges ref hg => by simp only [hg])
    (fun edges ref a hg => by simp only [hg]), List.nil_append, addEdges,
    if_neg (not_lt.mpr hfits)]

end Coordinator

/-! ## Edges that a section can add -/

lemma blockedBy_iff (hcm : ∀ command ∈ commands, command.Valid)
    (hh : ∀ claim ∈ held, claim.command.Valid) :
    blockedBy commands held = true ↔ ∃ command ∈ commands, ∃ claim ∈ held,
        clashes command claim.command = true := by
  have hblocks : ∀ {a b : RangeCommand}, a.Valid → b.Valid →
      (overlaps b.range a.range && (decide (b.mode = .exclusive) ||
        decide (a.mode = .exclusive))) = clashes a b := by
    intro a b ha hb
    rw [clashes_comm ha hb, clashes]
    have hmodes : ∀ {m n : RangeMode}, m.defined = true → n.defined = true →
        (decide (n = .exclusive) || decide (m = .exclusive)) =
          !(decide (n = .shared) && decide (m = .shared)) := by
      intro m n hm hn
      cases m <;> cases n <;> simp_all [RangeMode.defined]
    rw [hmodes ha.mode hb.mode]
  simp only [blockedBy, List.any_eq_true]
  constructor
  · rintro ⟨command, hcmd, claim, hcl, hblock⟩
    rw [hblocks (hcm command hcmd) (hh claim hcl)] at hblock
    exact ⟨command, hcmd, claim, hcl, hblock⟩
  · rintro ⟨command, hcmd, claim, hcl, hclash⟩
    rw [← hblocks (hcm command hcmd) (hh claim hcl)] at hclash
    exact ⟨command, hcmd, claim, hcl, hclash⟩

lemma Exclusion.heldRanges (hexcl : Exclusion c.owners) (hcl : claim ∈ c.heldRanges key) :
    claim.Held key.domain := by
  cases hg : c.owners.get? key with
  | none => simp [Coordinator.heldRanges, hg] at hcl
  | some state =>
    rw [Ledger.heldRanges_eq hg] at hcl
    exact hexcl.held hg claim hcl

lemma blockedBy_heldRanges (hbl : blockedBy commands (c.heldRanges key) = true) :
    ∃ state, c.owners.get? key = some state := by
  cases hg : c.owners.get? key with
  | none => simp [heldRanges, hg, blockedBy] at hbl
  | some state => exact ⟨state, rfl⟩

/-- What blocks a request after a section eased the ranges of a key blocked it
before. -/
lemma blockedBy_of_within (hexcl : Exclusion c.owners) (hexclusion' : Exclusion c'.owners)
    (hcm : ∀ command ∈ commands, Comparable key.domain command)
    (hwithin : ∀ claim ∈ c'.heldRanges key,
      Within key.domain ((c.heldRanges key).map RangeClaim.command) claim.command)
    (hbl : blockedBy commands (c'.heldRanges key) = true) :
    blockedBy commands (c.heldRanges key) = true := by
  have hvalid : ∀ command ∈ commands, command.Valid :=
    fun command hcmd => (hcm command hcmd).valid
  rw [blockedBy_iff hvalid fun _ h => (hexclusion'.heldRanges h).valid] at hbl
  rw [blockedBy_iff hvalid fun _ h => (hexcl.heldRanges h).valid]
  obtain ⟨command, hcmd, claim, hcl, hclash⟩ := hbl
  have hsource : ∀ x ∈ (c.heldRanges key).map RangeClaim.command, Comparable key.domain x := by
    intro x hx
    obtain ⟨held, hh, rfl⟩ := List.mem_map.mp hx
    exact (hexcl.heldRanges hh).comparable
  obtain ⟨x, hx, hclash⟩ := clashes_of_within hsource (hcm command hcmd)
    (hexclusion'.heldRanges hcl).comparable (hwithin claim hcl) hclash
  obtain ⟨held, hh, rfl⟩ := List.mem_map.mp hx
  exact ⟨command, hcmd, held, hh, hclash⟩

/-- Requests that still wait are the ones they were, and owners that still
exist belong to the same participant. -/
structure Linked (c c' : Coordinator) : Prop where
  identity : ∀ {ref a'}, ref ∈ c.waiting → c'.heap ref = some a' →
    ∃ a, c.heap ref = some a ∧ a.identity = a'.identity
  participant : ∀ {key state}, c'.owners.get? key = some state →
    c'.participant key = c.participant key

section

variable {c c' : Coordinator} {except : Set OwnerKey}

/-- No key outside `except` protects anything new. -/
def Shelters (except : Set OwnerKey) (c c' : Coordinator) : Prop :=
  ∀ key ∉ except, ∀ claim ∈ c'.heldRanges key,
    Within key.domain ((c.heldRanges key).map RangeClaim.command)
      claim.command

lemma WaitsFor.back (hc : Sound True c) (hc' : Sound True c')
    (hranges : Shelters except c c') (hpa : ∀ {key state}, c'.owners.get? key = some state →
      c'.participant key = c.participant key) (hkey : c'.owners.get? key = some state)
    (hcm : ∀ command ∈ commands, Comparable key.domain command)
    (hwa : c'.WaitsFor key commands p q) :
    c.WaitsFor key commands p q ∨
      ∃ other ∈ except, other.domain = .record ∧ q = c'.participant other := by
  obtain ⟨hre, rfl, other, hrivals, hbl, rfl⟩ := hwa
  obtain ⟨_, hother⟩ := blockedBy_heldRanges hbl
  have hdomain := (rivals_iff.mp hrivals).2.2
  by_cases hexcept : other ∈ except
  · exact .inr ⟨other, hexcept, hdomain.trans hre, rfl⟩
  refine .inl ⟨hre, hpa hkey, other, hrivals, ?_, hpa hother⟩
  rw [← hdomain] at hcm
  exact blockedBy_of_within hc.ledger.exclusion hc'.ledger.exclusion
    hcm (hranges other hexcept) hbl

lemma waits_back_of_mem (hc : Sound True c) (hc' : Sound True c')
    (hranges : Shelters except c c') (hli : Linked c c')
    (hmem : ref ∈ c.waiting) (hmem' : ref ∈ c'.waiting)
    (hg : c'.heap ref = some a) (hwa : c'.WaitsFor a.key a.commands p q) :
    c.Waits p q ∨ ∃ other ∈ except, other.domain = .record ∧ q = c'.participant other := by
  obtain ⟨state, hst⟩ := hc'.ledger.queue.queued hmem' hg
  obtain ⟨old, hold, hid⟩ := hli.identity hmem hg
  have hkey : old.key = a.key := congrArg Identity.key hid
  have hcm : old.commands = a.commands := congrArg Identity.commands hid
  refine (WaitsFor.back hc hc' hranges hli.participant hst
    (fun _ => (hc'.directory.admitted hg).comparable) hwa).imp_left
      fun hed => ⟨ref, hmem, old, hold, ?_⟩
  rwa [hkey, hcm]

lemma waits_back (hc : Sound True c) (hc' : Sound True c')
    (hea : Eases except c c') (hli : Linked c c') (hwa : c'.Waits p q) :
    c.Waits p q ∨ ∃ other ∈ except, other.domain = .record ∧ q = c'.participant other := by
  obtain ⟨ref, hmem, a, hg, hed⟩ := hwa
  exact waits_back_of_mem hc hc' hea.ranges hli
    (hea.waiting ref hmem) hmem hg hed

lemma acyclic_of_eases (hc : Sound True c) (hc' : Sound True c') (hea : Eases ∅ c c')
    (hli : Linked c c') (hac : Acyclic c.Waits) : Acyclic c'.Waits :=
  hac.mono fun hwa =>
    (waits_back hc hc' hea hli hwa).resolve_right (by simp)

end

/-! ## Participants -/

lemma participant_congr (hsm : ((c'.sessions.get? key.session).bind
        fun s => s.bindings.get? key.owner) =
      (c.sessions.get? key.session).bind fun s => s.bindings.get? key.owner) :
    c'.participant key = c.participant key := by
  have hgroup : ∀ c : Coordinator, c.participant key = (((c.sessions.get? key.session).bind fun s =>
        s.bindings.get? key.owner).elim ⟨key.session, key.owner, false⟩
          fun binding => if binding.options.group ≠ 0 then
            ⟨key.session, binding.options.group, true⟩
          else ⟨key.session, key.owner, false⟩) := by
    intro c
    unfold participant
    cases hs : c.sessions.get? key.session with
    | none => simp
    | some s =>
      cases hbi : s.bindings.get? key.owner with
      | none | some => simp [hbi]
  rw [hgroup, hgroup, hsm]

lemma participant_of_view (view : Session → Session) (hview : ∀ s, (view s).bindings = s.bindings)
    (hsm : (c'.sessions.get? key.session).map view = (c.sessions.get? key.session).map view) :
    c'.participant key = c.participant key := by
  apply participant_congr
  have hbi := congrArg (fun found : Option Session =>
    found.bind fun s => s.bindings.get? key.owner) hsm
  simpa [Option.bind_map, Function.comp_def, hview] using hbi

lemma Frame.participant (hf : Frame c c') (key : OwnerKey) :
    c'.participant key = c.participant key :=
  participant_of_view Session.blank (fun _ => rfl) (hf.sessions key.session)

lemma Ages.participant (hag : Ages c c') (key : OwnerKey) :
    c'.participant key = c.participant key :=
  participant_of_view Session.ageless (fun _ => rfl) (hag.sessions key.session)

lemma modifySession_participant (c : Coordinator) (session : ℕ) (change : Session → Session)
    (hchange : ∀ s, (change s).bindings = s.bindings) (key : OwnerKey) :
    (c.modifySession session change).participant key = c.participant key := by
  apply participant_congr
  change ((c.sessions.modify session change).get? key.session).bind _ = _
  rw [Table.get?_modify]
  split
  · next heq =>
    subst heq
    cases c.sessions.get? key.session with
    | none => rfl
    | some s => simp [hchange]
  · rfl

lemma participant_of_owned
    (hs : c.sessions.get? key.session = some s) (hs' : c'.sessions.get? key.session = some s')
    (hbi : s.bindings.get? key.owner = some binding)
    (hbind' : s'.bindings.get? key.owner = some binding) :
    c'.participant key = c.participant key :=
  participant_congr (by simp [hs, hs', hbi, hbind'])

namespace Linked

variable {c c' c'' : Coordinator}

lemma of_frame (hf : Frame c c') : Linked c c' where
  identity := fun _ hg => hf.request_back hg
  participant := fun _ => hf.participant _

lemma of_ages (hag : Ages c c') : Linked c c' where
  identity := fun _ hg => ⟨_, hag.heap ▸ hg, rfl⟩
  participant := fun _ => hag.participant _

lemma of_heap (hheap : c'.heap = c.heap) (hpa : ∀ {key state}, c'.owners.get? key = some state →
      c'.participant key = c.participant key) : Linked c c' where
  identity := fun _ hg => ⟨_, hheap ▸ hg, rfl⟩
  participant := hpa

end Linked

/-! ## Sections that decide a request -/

/-- A step from `c` to `c'` grants an acquisition in the record domain to a
participant of which another request waits. -/
def GrantsWaiting (c c' : Coordinator) : Prop :=
  ∃ ref a, c'.heap ref = some a ∧ a.result.everGranted = true ∧
    (∀ old, c.heap ref = some old → old.result.everGranted = false) ∧
    a.key.domain = .record ∧
    ∃ other b, other ∈ c.waiting ∧ other ≠ ref ∧ c.heap other = some b ∧
      b.key.domain = .record ∧ c.participant b.key = c.participant a.key

section

variable {c c' : Coordinator} {ref : RequestRef} {key : OwnerKey} {commands : List RangeCommand}

lemma Sound.waiting_ungranted (hc : Sound True c) (hmem : ref ∈ c.waiting)
    (hg : c.heap ref = some a) : a.result.everGranted = false := by
  obtain ⟨b, hk, hpending⟩ := hc.ledger.queue.waiting.mp hmem
  obtain rfl := Option.some.inj (hg.symm.trans hk.heap)
  exact ((hc.shaped ref a hg).pending_body
    (hc.ledger.queue.unsettled hk hpending)).1.everGranted

/-- A participant that was just granted an acquisition waits for nobody. -/
lemma granted_sink (hc' : Sound True c') (hea : Eases {key} c c') (hli : Linked c c')
    (hpa : ∀ key, c'.participant key = c.participant key)
    (hg : c'.heap ref = some a) (hkey : a.key = key) (hgr : a.result.everGranted = true)
    (hfirst : ∀ old, c.heap ref = some old → old.result.everGranted = false)
    (hre : key.domain = .record) (hgra : ¬GrantsWaiting c c')
    (q : DeadlockParticipant) : ¬c'.Waits (c'.participant key) q := by
  rintro ⟨other, hmem, b, hb, hdomain, hself, -⟩
  have hne : other ≠ ref := by
    rintro rfl
    cases hg.symm.trans hb
    rw [hc'.waiting_ungranted hmem hb] at hgr
    cases hgr
  obtain ⟨old, hold, hid⟩ := hli.identity (hea.waiting other hmem) hb
  have hold_key : old.key = b.key := congrArg Identity.key hid
  refine hgra ⟨ref, a, hg, hgr, hfirst, hkey ▸ hre, other, old,
    hea.waiting other hmem, hne, hold, hold_key ▸ hdomain, ?_⟩
  rw [hold_key, hkey, ← hpa, ← hpa, hself]

lemma queued_edges (hf : Frame c₁ c') (hwaiting : c'.waiting = c₁.waiting ++ [ref])
    (hh : ∀ other, ∀ claim ∈ c'.heldRanges other, claim ∈ c₁.heldRanges other)
    (hg : c'.heap ref = some a) (hkey : a.key = key) (hcm : a.commands = commands)
    (hwa : c'.Waits p q) : c₁.Waits p q ∨ c₁.WaitsFor key commands p q := by
  have hed : ∀ {key commands}, c'.WaitsFor key commands p q →
      c₁.WaitsFor key commands p q := by
    rintro key commands ⟨hre, rfl, other, hrivals, hbl, rfl⟩
    refine ⟨hre, hf.participant key, other, hrivals, ?_, hf.participant other⟩
    simp only [blockedBy, List.any_eq_true] at hbl ⊢
    obtain ⟨command, hcmd, claim, hcl, hblock⟩ := hbl
    exact ⟨command, hcmd, claim, hh other claim hcl, hblock⟩
  obtain ⟨other, hmem, b, hb, hwaitsFor⟩ := hwa
  rw [hwaiting, List.mem_append, List.mem_singleton] at hmem
  rcases hmem with hmem | rfl
  · obtain ⟨old, hold, hid⟩ := hf.request_back hb
    refine .inl ⟨other, hmem, old, hold, ?_⟩
    rw [show old.key = b.key from congrArg Identity.key hid,
      show old.commands = b.commands from congrArg Identity.commands hid]
    exact hed hwaitsFor
  · cases hg.symm.trans hb
    rw [hkey, hcm] at hwaitsFor
    exact .inr (hed hwaitsFor)

lemma Turns.acyclic (hturns : Turns ref key commands c c') (hc : Sound True c)
    (hc' : Sound True c') (hli : Linked c c')
    (hpa : ∀ key, c'.participant key = c.participant key) (hg : c'.heap ref = some a)
    (hkey : a.key = key) (hcm : a.commands = commands)
    (hfirst : ∀ old, c.heap ref = some old → old.result.everGranted = false)
    (hgra : ¬GrantsWaiting c c') (hac : Acyclic c.Waits) : Acyclic c'.Waits := by
  cases hturns with
  | eased hea => exact acyclic_of_eases hc hc' hea hli hac
  | granted hea hget' hgr =>
    cases hg.symm.trans hget'
    have hback : ∀ {p q}, c'.Waits p q → c.Waits p q ∨
        (key.domain = .record ∧ q = c'.participant key) := by
      intro p q hwa
      rcases waits_back hc hc' hea hli hwa with
        hold | ⟨other, rfl, hnew⟩
      · exact .inl hold
      · exact .inr hnew
    by_cases hre : key.domain = .record
    · exact hac.of_sink (fun hwa => (hback hwa).imp_right And.right)
        (granted_sink hc' hea hli hpa hg hkey hgr hfirst hre hgra)
    · exact hac.mono fun hwa => (hback hwa).resolve_right fun hnew => hre hnew.1
  | @queued c₁ hea hf hwaiting hh hclear =>
    have hranges : Shelters ∅ c c' := fun other hother claim hcl =>
      hea.ranges other hother claim (hh other claim hcl)
    have hback : ∀ {p q}, c'.Waits p q → c.Waits p q ∨
        (key.domain = .record ∧ p = c'.participant key) := by
      rintro p q ⟨other, hmem, b, hb, hed⟩
      have hsplit := hmem
      rw [hwaiting, List.mem_append, List.mem_singleton] at hsplit
      rcases hsplit with hold | rfl
      · exact .inl ((waits_back_of_mem hc hc' hranges hli
          (hea.waiting other hold) hmem hb hed).resolve_right (by simp))
      · cases hg.symm.trans hb
        exact .inr ⟨hkey ▸ hed.1, hkey ▸ hed.2.1⟩
    by_cases hre : key.domain = .record
    · refine hac.of_source (p := c'.participant key)
        (fun hwa => (hback hwa).imp_right And.right) fun hcycle => ?_
      have hbounded : (c₁.deadlockLocked key commands).2 = true := by rw [hclear hre]
      have hdeadlock := (deadlockLocked_iff hbounded).mpr (by
        rw [← hf.participant]
        exact hcycle.lift id fun _ _ => queued_edges hf hwaiting hh hg hkey hcm)
      rw [hclear hre] at hdeadlock
      cases hdeadlock
    · exact hac.mono fun hwa => (hback hwa).resolve_right fun hnew => hre hnew.1

end

/-! ## Every section -/

section

variable {c : Coordinator}

lemma startedBy_acyclic {id : LockRequestID} {epoch : ℕ}
    (hadmits : Admits True c key id epoch commands s)
    (hgra : ¬GrantsWaiting c (c.startedBy key id epoch commands))
    (hac : Acyclic c.Waits) : Acyclic (c.startedBy key id epoch commands).Waits := by
  have hp := hadmits.enrolled.1
  have hc := hadmits.sound
  have hc' := (hadmits.started fun _ _ _ _ _ => trivial).1
  have hf := startLocked_frame (c.enrolledBy key id epoch commands)
    c.allocated
  have hturns := startLocked_turns hp
  have hadm : Eases ∅ c (c.enrolledBy key id epoch commands) := .of_owners rfl rfl
  have hpa : ∀ other, (c.startedBy key id epoch commands).participant
      other = c.participant other := fun other =>
    (hf.participant other).trans (modifySession_participant c key.session
      (Session.record id c.allocated) (fun _ => rfl) other)
  have hfresh : ∀ {ref a}, c.heap ref = some a → ref ≠ c.allocated :=
    fun hg => (hc.directory.allocated hg).ne
  obtain ⟨a, ha, hid⟩ := hf.request_forth hp.retained.heap
  have hli : Linked c (c.startedBy key id epoch commands) := by
    refine ⟨fun {ref a'} hmem hg => ?_, fun _ => hpa _⟩
    obtain ⟨old, hold, -⟩ := hc.ledger.queue.waiting.mp hmem
    obtain ⟨b, hb, hsm⟩ := hf.request_back hg
    change Function.update c.heap c.allocated _ ref = some b at hb
    rw [Function.update_of_ne (hfresh hold.heap)] at hb
    exact ⟨b, hb, hsm⟩
  exact (hturns.after hadm).acyclic hc hc' hli hpa ha
    (congrArg Identity.key hid) (congrArg Identity.commands hid)
    (fun _ hg => absurd rfl (hfresh hg)) hgra hac

lemma retryLocked_acyclic (hc : Sound True c) (hc' : Sound True (c.retryLocked ref a))
    (hp : Poised c ref a) (hgra : ¬GrantsWaiting c (c.retryLocked ref a))
    (hac : Acyclic c.Waits) : Acyclic (c.retryLocked ref a).Waits := by
  have hg := hp.retained.heap
  obtain ⟨hopen, hwa⟩ := (hc.shaped ref a hg).pending_body hp.pending
  have hf := c.retryLocked_frame ref a
  obtain ⟨a', ha', hid⟩ := hf.request_forth hg
  refine (retryLocked_turns hp hwa).acyclic hc hc' (.of_frame hf)
      hf.participant ha' (congrArg Identity.key hid)
      (congrArg Identity.commands hid) (fun old hold => ?_) hgra
      hac
  cases hg.symm.trans hold
  exact hopen.everGranted

lemma withSession_linked (hc : Sound True c)
    (options : FileSessionOptions) : Linked c (c.withSession options) := by
  refine .of_heap rfl fun {key state} hst => ?_
  obtain ⟨s, binding, hs, hbi, -⟩ := hc.ledger.owned hst
  refine participant_of_owned hs (?_ : (c.sessions.set (c.nextSession + 1)
    _).get? key.session = some s) hbi hbi
  have hbound := (hc.directory.session hs).2.1
  rwa [Table.get?_set, if_neg (by omega)]

lemma bind_linked (hc : Sound True c) (session node : ℕ)
    (scope : UseScope) (options : OwnerOptions) :
    Linked c { c.modifySession session (Session.bind node scope options) with
      registeredOwners := c.registeredOwners + 1 } := by
  refine .of_heap rfl fun {key state} hst => ?_
  obtain ⟨s, binding, hs, hbi, -⟩ := hc.ledger.owned hst
  by_cases heq : key.session = session
  · subst heq
    refine participant_of_owned hs (?_ : (c.sessions.modify key.session (Session.bind node scope
      options)).get? key.session = some (s.bind node scope options)) hbi ?_
    · exact Table.get?_modified hs
    · have hbound := (hc.directory.owners hs).2 hbi
      change (s.bindings.set (s.nextOwner + 1) _).get? key.owner = some binding
      rwa [Table.get?_set, if_neg (by omega)]
  refine participant_of_owned hs (?_ : (c.sessions.modify session
    (Session.bind node scope options)).get? key.session = some s) hbi hbi
  rwa [Table.get?_modify, if_neg heq]

lemma unbind_participant {owner : ℕ}
    (howned : Owned { c.modifySession session (Session.unbind owner) with
      registeredOwners := count } key) :
    Coordinator.participant { c.modifySession session (Session.unbind owner)
      with registeredOwners := count } key = c.participant key := by
  obtain ⟨s', binding, hs', hbi, -⟩ := howned
  have hlookup := hs'
  change (c.sessions.modify session (Session.unbind owner)).get? key.session = some s' at hlookup
  rw [Table.get?_modify] at hlookup
  split at hlookup
  · next heq =>
    obtain ⟨s, hs, rfl⟩ := Option.map_eq_some_iff.mp hlookup
    have hold := hbi
    exact participant_of_owned (heq ▸ hs) hs' (Table.erase_cases hold).2 hbi
  · exact participant_of_owned hlookup hs' hbi hbi

lemma dissolve_participant (howned : Owned (c.dissolve session s) key) :
    (c.dissolve session s).participant key = c.participant key := by
  obtain ⟨s', binding, hs', hbi, -⟩ := howned
  have hlookup := hs'
  exact participant_of_owned (Table.erase_cases hlookup).2 hs' hbi hbi

lemma dissolve_eases (c : Coordinator) (session : ℕ) (s : Session) :
    Eases ∅ c (c.dissolve session s) :=
  .of_kept (fun _ hmem => (List.mem_filter.mp hmem).1) fun _ state hg =>
    ⟨state, (Table.get?_filter_iff.mp hg).1, rfl⟩

lemma unboundBy_acyclic (hc : Sound True c) {owner : ℕ}
    (hs : c.sessions.get? session = some s) (hbi : s.bindings.get? owner = some binding)
    (hac : Acyclic c.Waits) : Acyclic (c.unboundBy session owner binding.node).Waits := by
  have hf := foldl_dropLocked_frame c (ownerKeys session owner binding.node)
  have hea : Eases ∅ c ((ownerKeys session owner binding.node).foldl
      dropLocked c) := .foldl (fun c key => dropLocked_eases c key) _ c
  have hc' := hc.unboundBy hs hbi
  unfold unboundBy at hc' ⊢
  simp only at hc' ⊢
  generalize (ownerKeys session owner binding.node).foldl dropLocked c = c₁ at *
  refine acyclic_of_eases hc hc' (hea.trans (.of_owners rfl rfl))
    ⟨fun _ hg => hf.request_back hg, fun {key state} hst => ?_⟩
    hac
  exact (unbind_participant (hc'.ledger.owned hst)).trans (hf.participant key)

lemma GrantsWaiting.of_ages (hag : Ages c c₁) (hages' : Ages c₂ c')
    (hgra : GrantsWaiting c₁ c₂) : GrantsWaiting c c' := by
  obtain ⟨ref, a, hg, hgr, hfirst, hre, other, b, hmem, hne, hb,
    hdomain, hsm⟩ := hgra
  rw [hag.participant, hag.participant] at hsm
  exact ⟨ref, a, hages'.heap ▸ hg, hgr, hag.heap ▸ hfirst, hre,
    other, b, hag.waiting ▸ hmem, hne, hag.heap ▸ hb, hdomain, hsm⟩

lemma acyclic_of_ages (hag : Ages c c') (hc : Sound True c)
    (hc' : Sound True c') (hac : Acyclic c.Waits) : Acyclic c'.Waits :=
  acyclic_of_eases hc hc' (.of_owners hag.waiting hag.owners) (.of_ages hag) hac

/-- A section that grants nothing to a waiting participant keeps the graph
acyclic. -/
lemma Acts.acyclic (hacts : Acts True c c') (hc : Sound True c) (hc' : Sound True c')
    (hgra : ¬GrantsWaiting c c') (hac : Acyclic c.Waits) : Acyclic c'.Waits := by
  cases hacts with
  | aged haging => exact acyclic_of_ages haging.ages hc hc' hac
  | created _ =>
    exact acyclic_of_eases hc hc' (.of_owners rfl rfl)
      (withSession_linked hc _) hac
  | bound node scope options _ _ =>
    exact acyclic_of_eases hc hc' (.of_owners rfl rfl)
      (bind_linked hc _ node scope options) hac
  | started haging hadmits _ _ =>
    exact acyclic_of_ages (ticked_ages _) (hadmits.started fun _ _ _ _ _ => trivial).1 hc'
      (startedBy_acyclic hadmits (fun h => hgra (h.of_ages haging.ages (ticked_ages _)))
        (acyclic_of_ages haging.ages hc hadmits.sound hac))
  | retried hp => exact retryLocked_acyclic hc hc' hp hgra hac
  | @cancelled c₁ _ ref a haging hk hst haging' =>
    have hag := haging.ages
    have hages' := haging'.ages
    have hf := c₁.completeLocked_frame ref .cancelled none
    refine acyclic_of_eases hc hc' ((Eases.of_owners hag.waiting hag.owners).trans
        ((completeLocked_eases c₁ ref .cancelled none).trans
          (.of_owners hages'.waiting hages'.owners)))
      ⟨fun _ hg => ?_, fun _ => ?_⟩ hac
    · rw [← hag.heap]
      exact hf.request_back (hages'.heap ▸ hg)
    · rw [hages'.participant, hf.participant, hag.participant]
  | @dropped key s hs =>
    exact acyclic_of_eases hc hc' (dropLocked_eases c key)
      (.of_frame (c.dropLocked_frame key)) hac
  | unbound hs hbi hretire =>
    rw [hretire]
    exact unboundBy_acyclic hc hs hbi hac
  | marked session change hchange =>
    refine acyclic_of_eases hc hc' (.of_owners rfl rfl)
      (.of_heap rfl fun _ => modifySession_participant c session
        change ?_ _)
      hac
    rcases hchange with rfl | rfl <;> exact fun _ => rfl
  | @dissolved session s hs =>
    exact acyclic_of_eases hc hc' (dissolve_eases c session s) (.of_heap rfl fun hst =>
        dissolve_participant (hc'.ledger.owned hst)) hac
  | used _ _ =>
    exact acyclic_of_eases hc hc' (.of_owners rfl rfl) (.of_heap rfl fun _ => rfl) hac

end

/-! ## Every run -/

lemma acyclic_run {config : Config} {now : ℕ → Time} {c₀ : Coordinator}
    (hnew : new config now = .ok c₀) {steps : List Section}
    (halong : Runs.Along exec (fun c step => ¬GrantsWaiting c (c.exec step))
      c₀ steps) : Acyclic (steps.foldl exec c₀).Waits := by
  have hinit : Sound True c₀ ∧ Acyclic c₀.Waits := by
    refine ⟨sound_of_run hnew [], fun p hcycle => ?_⟩
    obtain ⟨q, ⟨ref, hmem, -⟩, -⟩ := Relation.TransGen.head'_iff.mp hcycle
    rw [(new_eq_ok hnew).2] at hmem
    cases hmem
  refine (halong.invariant (motive := fun c => Sound True c ∧ Acyclic c.Waits)
    (fun c step h hgra => ?_) hinit).2
  have hc' := h.1.exec step fun _ => trivial
  exact ⟨hc', (exec_acts h.1 step fun _ => trivial).acyclic h.1 hc' hgra h.2⟩

/-- Let no participant be granted an acquisition while another request of it
waits.  Then the graph is acyclic in every state of the run, whether or not
participants queue several requests.  In any state the deadlock search, when it
stays within its limit, reports exactly the cycles that the candidate would
close; and it stays within its limit if the graph has no more edges. -/
theorem wait_graph_acyclic {config : Config} {now : ℕ → Time}
    {c₀ : Coordinator} (hnew : new config now = .ok c₀) (steps : List Section)
    (halong : Runs.Along exec (fun c step => ¬GrantsWaiting c (c.exec step)) c₀ steps) :
    Acyclic (steps.foldl exec c₀).Waits ∧ ∀ key commands,
        ((((steps.foldl exec c₀).edgesOf (steps.foldl exec c₀).waiting ++
            (steps.foldl exec c₀).waitEdges key commands).length : ℤ) ≤
          (steps.foldl exec c₀).config.maxDeadlockEdges →
            ((steps.foldl exec c₀).deadlockLocked key commands).2 = true) ∧
        (((steps.foldl exec c₀).deadlockLocked key commands).2 = true →
        (((steps.foldl exec c₀).deadlockLocked key commands).1 = true ↔
          Relation.TransGen (fun p q => (steps.foldl exec c₀).Waits p q ∨
              (steps.foldl exec c₀).WaitsFor key commands p q)
            ((steps.foldl exec c₀).participant key) ((steps.foldl exec c₀).participant key))) :=
  ⟨acyclic_run hnew halong, fun _ _ => ⟨deadlockLocked_bounded, deadlockLocked_iff⟩⟩

/-- The second of two owners waits for bytes that the first one holds. -/
def contendedRun : List Section :=
  [.newSession DefaultFileSessionOptions true,
    .newOwner 1 7 ⟨[97]⟩ ⟨.explicit, 0, 1⟩,
    .newOwner 1 7 ⟨[98]⟩ ⟨.explicit, 0, 2⟩,
    .apply 1 7 1 [byteLock .exclusive .replace 0 10 false] (sampleRequest 49),
    .apply 1 7 2 [byteLock .exclusive .replace 5 10 true] (sampleRequest 50)]

lemma not_grantsWaiting_of_nil (hwaiting : c.waiting = []) : ¬GrantsWaiting c c' := by
  rintro ⟨ref, a, -, -, -, -, other, b, hmem, -⟩
  rw [hwaiting] at hmem
  cases hmem

theorem wait_graph_acyclic_contended :
    (contendedRun.foldl exec (.empty DefaultConfig fun _ => 0)).waiting = [1] ∧
      Acyclic (contendedRun.foldl exec (.empty DefaultConfig fun _ => 0)).Waits := by
  refine ⟨rfl, (wait_graph_acyclic new_default contendedRun ?_).1⟩
  exact ⟨not_grantsWaiting_of_nil rfl, not_grantsWaiting_of_nil rfl,
    not_grantsWaiting_of_nil rfl, not_grantsWaiting_of_nil rfl,
    not_grantsWaiting_of_nil rfl, trivial⟩

end RemoteFs.Advisory
