import RemoteFs.Lib.Drain
import RemoteFs.Advisory.Calls
import RemoteFs.Advisory.ExactClaims

/-!
# Waking waiting requests

Whoever gives ranges up afterwards runs `pump`, which retries the waiting
requests that nothing blocks any more, and repeats this until a pass finds none.
With order callbacks that run their transitions every retry of such a request
decides it, so each pass shortens the waiting list and the loop ends with no
request that could proceed.
-/

namespace RemoteFs.Advisory

open Storage Coordinator

namespace Coordinator

/-! ## The loop -/

/-- `advance` with an order callback that runs its transition. -/
def advance (c : Coordinator) (ref : RequestRef) : Outcome Unit :=
  if c.retriable ref then c.advanceOrdered ref else ⟨c, .ok ()⟩

variable (c : Coordinator)

def readyLocked (ref : RequestRef) : Bool :=
  match c.heap ref with
  | none => false
  | some action =>
    match c.sessions.get? action.key.session with
    | none => false
    | some s => !s.retiring && action.commands.all fun command =>
      !(command.edit.acquires &&
        (c.conflictLocked action.key command).found)

def candidates : List RequestRef :=
  c.waiting.filter c.readyLocked

def pumpPass : Coordinator :=
  c.candidates.foldl (fun c ref => (c.advance ref).state) c

/-- The loop starts at pass zero and includes the limit. -/
def pump : Coordinator :=
  Drain.run (fun c => !c.candidates.isEmpty) pumpPass (fun c => c.waiting.length)
    (c.waiting.length + 1) c

end Coordinator

/-! ## What blocks a request -/

/-- A rival holds a range that one of the acquisitions needs. -/
def Coordinator.Stuck (c : Coordinator) (a : Request) : Prop :=
  ∃ command ∈ a.commands, command.edit.acquires = true ∧
    ¬Free c.owners a.key command

section

variable {c c' : Coordinator} {ref : RequestRef} {a a' : Request}

variable {key : OwnerKey} {command : RangeCommand}

lemma conflictLocked_found_iff :
    (c.conflictLocked key command).found = true ↔ ¬Free c.owners key command := by
  rw [free_iff, not_forall_not]
  rcases c.conflictLocked_cases key command with ⟨hzero, hnone⟩ | ⟨x, hx, hreport, -⟩
  · simp [hzero, hnone, RangeConflict.zero]
  · exact ⟨fun _ => ⟨x, hx⟩, fun _ => by rw [hreport]; rfl⟩

lemma readyLocked_eq_true_iff (hg : c.heap ref = some a)
    (hs : c.sessions.get? a.key.session = some s) :
    c.readyLocked ref = true ↔ s.retiring = false ∧ ¬c.Stuck a := by
  simp only [readyLocked, hg, hs, Stuck, Bool.and_eq_true, Bool.not_eq_true', List.all_eq_true,
    Bool.and_eq_false_iff, not_exists, not_and, ← conflictLocked_found_iff]
  refine and_congr_right fun _ => forall₂_congr fun command _ => ?_
  cases command.edit.acquires <;> simp

lemma Coordinator.Stuck.of_held (hstuck : c.Stuck a) (hkey : a'.key = a.key)
    (hcmds : a'.commands = a.commands)
    (hheld : ∀ key, ∀ claim ∈ c.heldRanges key, claim ∈ c'.heldRanges key) : c'.Stuck a' := by
  obtain ⟨command, hm, hacq, hblocked⟩ := hstuck
  refine ⟨command, hcmds ▸ hm, hacq, fun hfree => hblocked ?_⟩
  intro other state hst hrival claim hclaim
  have hlives := hheld other claim (by
    rw [Ledger.heldRanges_eq hst]
    exact hclaim)
  unfold heldRanges at hlives
  cases hstate' : c'.owners.get? other with
  | none =>
    rw [hstate'] at hlives
    cases hlives
  | some state' =>
    rw [hstate'] at hlives
    exact hfree other state' hstate' (hkey ▸ hrival) claim hlives

lemma Refusal.stuck (hrefusal : Refusal c a command .blocked conflict)
    (hm : command ∈ a.commands) : c.Stuck a := by
  cases hrefusal with
  | blocked conflict hacq hspec hfd =>
    refine ⟨command, hm, hacq, fun hfree => ?_⟩
    cases hspec with
    | absent _ => cases hfd
    | found other state held hg hrival hheld hclash =>
      rw [hfree other state hg hrival held hheld] at hclash
      cases hclash

variable {edit : EditResult}

/-! ## One retry -/

lemma Refused.stuck (hrefused : Refused c a before command edit)
    (hsplit : a.commands = before ++ command :: rest)
    (hcode : edit.rejected = some .blocked) : c.Stuck a := by
  obtain ⟨code, hfd, hrefusal⟩ := hrefused.reason
  cases hfd.symm.trans hcode
  exact hrefusal.stuck (by simp [hsplit])

lemma Drafted.not_stuck (hd : Drafted c a a.commands edit) : ¬c.Stuck a := by
  rintro ⟨command, hm, hacq, hblocked⟩
  exact hblocked (hd.free command hm hacq)

lemma retryLocked_retries (hc : Sound True c) (hp : Poised c ref a)
    (hste : a.Steady) : Retries c ref a (c.retryLocked ref a) := by
  have hwaits := ((hc.shaped ref a hp.retained.heap).pending_body
    hp.pending).2
  rcases hp.retries hwaits with ⟨hconv, -⟩ | ⟨-, -, hretries⟩
  · cases (hste hp.pending).symm.trans hconv
  · exact hretries

namespace Retries

section

variable (h : Retries c ref a c')
include h

lemma waiting : ∀ other ∈ c'.waiting, other ∈ c.waiting := by
  cases h with
  | committed hd =>
    have heases := commitEditLocked_eases ref hd (.inl rfl)
    exact heases.waiting
  | blocked _ _ _ => exact fun _ hm => hm
  | exhausted _ _ _ _ => exact completeLocked_waiting c ref _ _

lemma decided (hg : c.heap ref = some a) (hfree : ¬c.Stuck a) (hget' : c'.heap ref = some a') :
    a'.result.state ≠ .pending := by
  cases h with
  | committed hd =>
    obtain ⟨expires, hsettles⟩ := commitEditLocked_settles hg hd.fits
    rcases hsettles ref with hsm | ⟨b, expires', hb, -, hreleased⟩
    · rw [hget', Function.update_self, Option.some.injEq] at hsm
      rw [hsm]
      change (if _ then AttemptState.granted else .released) ≠ .pending
      split <;> decide
    · cases hget'.symm.trans hreleased
      exact nofun
  | blocked hsplit hrefused hcode => exact absurd (hrefused.stuck hsplit hcode) hfree
  | exhausted _ _ _ _ =>
    rw [completeLocked_heap hg, Function.update_self, Option.some.injEq] at hget'
    rw [← hget']
    exact nofun

lemma heldRanges_ne (hne : key ≠ a.key) : c'.heldRanges key = c.heldRanges key := by
  cases h with
  | committed hd =>
    unfold commitEditLocked
    rw [if_pos hd.fits, reconcileRemovedClaimsLocked_heldRanges, completeLocked_heldRanges]
    exact installRangesLocked_heldRanges_ne _ hne
  | blocked _ _ _ => rfl
  | exhausted _ _ _ _ => exact completeLocked_heldRanges ..

lemma heldRanges_of_stuck (hstuck : c.Stuck a)
    (key : OwnerKey) : c'.heldRanges key = c.heldRanges key := by
  cases h with
  | committed hd => exact absurd hstuck hd.not_stuck
  | blocked _ _ _ => rfl
  | exhausted _ _ _ _ => exact completeLocked_heldRanges ..

end

end Retries

/-- A request in the waiting list is not in the middle of a conversion. -/
lemma exists_poised (hc : Sound True c) (hm : ref ∈ c.waiting) :
    ∃ a, Poised c ref a ∧ a.Steady := by
  obtain ⟨a, hk, hpd⟩ := hc.ledger.queue.waiting.mp hm
  have hst := hc.ledger.queue.unsettled hk hpd
  obtain ⟨state, howner⟩ := hc.ledger.queue.queued hm hk.heap
  refine ⟨a, hc.poised hk hst (hc.ledger.owned howner), fun _ => ?_⟩
  have hwaits := ((hc.shaped ref a hk.heap).pending_body hst).2
  rw [hpd] at hwaits
  simpa using hwaits.symm

/-- A steady request that is pending is in the waiting list. -/
lemma Poised.waiting (hp : Poised c ref a) (hc : Sound True c)
    (hste : a.Steady) : ref ∈ c.waiting := by
  have hwaits := ((hc.shaped ref a hp.retained.heap).pending_body
    hp.pending).2
  refine hc.ledger.queue.waiting.mpr ⟨a, hp.retained, ?_⟩
  rw [hwaits, hste hp.pending]
  rfl

lemma advance_cases (hc : Sound True c) (ref : RequestRef) :
    (c.advance ref).state = c ∨ ∃ a s, Poised c ref a ∧ c.sessions.get? a.key.session = some s ∧
      s.retiring = false ∧ (c.advance ref).state = c.retryLocked ref a := by
  unfold advance
  split
  · exact hc.advanceOrdered_cases ref
  · exact .inl rfl

/-- A pending request of an owner in a session that is not being retired is
retried. -/
lemma advance_eq (hc : Sound True c) (hg : c.heap ref = some a)
    (hst : a.result.state = .pending) (howned : Owned c a.key)
    (hs : c.sessions.get? a.key.session = some s) (hretiring : s.retiring = false) :
    (c.advance ref).state = c.retryLocked ref a := by
  have horder := ((hc.shaped ref a hg).pending_body hst).1.order
  obtain ⟨s', binding, hs', hbind, hnode, -⟩ := howned
  cases hs.symm.trans hs'
  have hretriable : c.retriable ref = true := by
    simp [retriable, hg, hs, hretiring, hst, horder]
  have hactive : s.activeLocked = .ok () := by
    simp [Session.activeLocked, (hc.directory.session hs).2.2, hretiring]
  have howner : s.checkOwnerLocked a.key.node a.key.owner = .ok () := by
    simp [Session.checkOwnerLocked, hbind, hnode]
  simp [advance, hretriable, advanceOrdered, hg, hs, hst, hactive, howner]

lemma advance_sound (hc : Sound True c) (ref : RequestRef) :
    Sound True (c.advance ref).state := by
  unfold advance
  split
  · exact hc.exec (.advance ref) fun _ => trivial
  · exact hc

/-! ## Any number of retries -/

/-- Waiting requests may have been decided. -/
structure Pumps (c c' : Coordinator) : Prop where
  sound : Sound True c'
  frame : Frame c c'
  keeps : Keeps c c'
  waiting : ∀ ref ∈ c'.waiting, ref ∈ c.waiting
  held : ∀ {key}, (∀ ref ∈ c.waiting, ∀ a, c.heap ref = some a →
    a.key ≠ key) → c'.heldRanges key = c.heldRanges key

namespace Pumps

lemma refl (hc : Sound True c) : Pumps c c := ⟨hc, .refl, .refl, fun _ h => h, fun _ => rfl⟩

lemma trans (h : Pumps c c') (h' : Pumps c' c'') :
    Pumps c c'' where
  sound := h'.sound
  frame := h.frame.trans h'.frame
  keeps := h.keeps.trans h'.keeps
  waiting := fun ref hm => h.waiting ref (h'.waiting ref hm)
  held := fun {key} hnone => by
    refine (h'.held fun ref hm a' ha' => ?_).trans (h.held hnone)
    obtain ⟨a, ha, hid⟩ := h.frame.request_back ha'
    have hkey : a.key = a'.key := congrArg Identity.key hid
    exact hkey ▸ hnone ref (h.waiting ref hm) a ha

lemma steady (h : Pumps c c') (hste : ∀ a, c.heap ref = some a → a.Steady) :
    ∀ a, c'.heap ref = some a → a.Steady := by
  intro b hb
  obtain ⟨a, ha, -⟩ := h.frame.request_back hb
  obtain ⟨b', hb', -, hk⟩ := h.keeps.requests ha
  cases hb.symm.trans hb'
  exact hk (hste a ha)

lemma advance (hc : Sound True c) (hste : ∀ a, c.heap ref = some a → a.Steady) :
    Pumps c (c.advance ref).state := by
  rcases advance_cases hc ref with
    hsm | ⟨a, s, hp, -, -, hretry⟩
  · rw [hsm]
    exact refl hc
  have hg := hp.retained.heap
  have hretries := retryLocked_retries hc hp (hste a hg)
  have hc' := advance_sound hc ref
  rw [hretry] at hc' ⊢
  have hf := c.retryLocked_frame ref a
  have hdecides := retryLocked_decides hp (hc.shaped ref a hg)
  refine ⟨hc', hf, .of_decides hf hdecides, hretries.waiting,
    fun {key} hnone => hretries.heldRanges_ne fun heq => ?_⟩
  exact hnone ref (hp.waiting hc (hste a hg)) a hg heq.symm

lemma foldl (hc : Sound True c) (refs : List RequestRef)
    (hste : ∀ ref ∈ refs, ∀ a, c.heap ref = some a → a.Steady) :
    Pumps c (refs.foldl (fun c ref => (c.advance ref).state) c) := by
  induction refs generalizing c with
  | nil => exact refl hc
  | cons ref rest ih =>
    have hfirst := Pumps.advance hc (hste ref (List.mem_cons_self ..))
    exact hfirst.trans (ih hfirst.sound fun other hm =>
      hfirst.steady (hste other (List.mem_cons_of_mem _ hm)))

end Pumps

section

variable (hc : Sound True c)
include hc

lemma steady_of_candidate (hm : ref ∈ c.candidates) : ∀ a, c.heap ref = some a → a.Steady := by
  intro a ha
  obtain ⟨b, hp, hste⟩ := exists_poised hc (List.mem_of_mem_filter hm)
  obtain rfl := Option.some.inj (ha.symm.trans hp.retained.heap)
  exact hste

lemma pumpPass_pumps : Pumps c c.pumpPass :=
  .foldl hc c.candidates fun _ hm => steady_of_candidate hc hm

lemma advance_ready (hm : ref ∈ c.waiting) (hready : c.readyLocked ref = true) :
    ref ∉ (c.advance ref).state.waiting := by
  obtain ⟨a, hp, hste⟩ := exists_poised hc hm
  have hg := hp.retained.heap
  obtain ⟨s, hs, -⟩ := hp.retained.listed
  obtain ⟨hretiring, hfree⟩ := (readyLocked_eq_true_iff hg hs).mp hready
  intro hstill
  obtain ⟨a', hp', -⟩ := exists_poised (advance_sound hc ref) hstill
  have hget' := hp'.retained.heap
  rw [advance_eq hc hg hp.pending hp.owned hs hretiring] at hget'
  exact (retryLocked_retries hc hp hste).decided hg hfree hget' hp'.pending

lemma pumpPass_shorter (hwork : c.candidates.isEmpty = false) :
    c.pumpPass.waiting.length < c.waiting.length := by
  have hste : ∀ ref ∈ c.candidates, ∀ a, c.heap ref = some a → a.Steady :=
    fun _ => steady_of_candidate hc
  have hnodup := (pumpPass_pumps hc).sound.ledger.queue.nodup
  unfold pumpPass at hnodup ⊢
  cases hlist : c.candidates with
  | nil => simp [hlist] at hwork
  | cons first rest =>
    rw [hlist] at hste hnodup
    obtain ⟨hm, hready⟩ : first ∈ c.waiting ∧ c.readyLocked first = true :=
      List.mem_filter.mp (by
        change first ∈ c.candidates
        simp [hlist])
    have hfirst := Pumps.advance hc (hste first (by simp))
    have hrest := Pumps.foldl hfirst.sound rest fun ref hm =>
      hfirst.steady (hste ref (List.mem_cons_of_mem _ hm))
    have hgone := advance_ready hc hm hready
    have hsubset : ∀ ref ∈ (rest.foldl (fun c ref => (c.advance ref).state)
        (c.advance first).state).waiting, ref ∈ c.waiting.erase first := by
      intro ref hlast
      have hnext := hrest.waiting ref hlast
      refine (List.mem_erase_of_ne ?_).mpr (hfirst.waiting ref hnext)
      rintro rfl
      exact hgone hnext
    have hle := (List.subperm_of_subset hnodup hsubset).length_le
    have hpos := List.length_pos_of_mem hm
    rw [List.length_erase_of_mem hm] at hle
    omega

end

def Coordinator.Quiet (c : Coordinator) : Prop :=
  ∀ ref ∈ c.waiting, c.readyLocked ref = false

/-- `pump` ends, and when it does nothing in the waiting list is ready. -/
lemma pump_spec (hc : Sound True c) : Pumps c c.pump ∧ c.pump.Quiet := by
  have hpass : ∀ c₁, Pumps c c₁ → (!c₁.candidates.isEmpty) = true →
      Pumps c c₁.pumpPass ∧ c₁.pumpPass.waiting.length < c₁.waiting.length := by
    intro c₁ hpumps hwork
    exact ⟨hpumps.trans (pumpPass_pumps hpumps.sound),
      pumpPass_shorter hpumps.sound (by simpa using hwork)⟩
  have hstart : Pumps c c := .refl hc
  refine ⟨Drain.invariant (fun c₁ hpumps hwork => (hpass c₁ hpumps hwork).1) _
    hstart, fun ref hm => ?_⟩
  have hdone := Drain.work_run (fun c => c.waiting.length) hpass
    (c.waiting.length + 1) hstart (Nat.lt_succ_self _)
  change (!c.pump.candidates.isEmpty) = false at hdone
  simp only [Bool.not_eq_false', List.isEmpty_iff] at hdone
  rw [← Bool.not_eq_true]
  intro hready
  have hcandidate : ref ∈ c.pump.candidates := List.mem_filter.mpr ⟨hm, hready⟩
  rw [hdone] at hcandidate
  cases hcandidate

end

end RemoteFs.Advisory
