import RemoteFs.Advisory.Moves

/-!
# Calls that return a receipt

`Apply` and `Query` consist of several critical sections.  Between them, and
while `advance` waits for the native order callback, any sections of other
calls run.  `Returns` describes the runs over which one call returns a receipt
without an error.  When it does, its request is decided or waits; it is never
in the middle of a conversion.
-/

namespace RemoteFs.Advisory

open Storage Coordinator

variable {ref : RequestRef} {receipt : RangeAttempt} {id : LockRequestID}
  {session : ℕ} {s : Session} {c : Coordinator} {identity : Identity}

/-- `advance` returned without an error over a run: it found nothing to do, or
the order callback ran its transition. -/
inductive Advanced (ref : RequestRef) (c : Coordinator) : List Section → Prop
  | idle (hidle : c.retriable ref = false) : Advanced ref c []
  | ordered (others : List Section) (hretry : c.retriable ref = true)
      (hok : ((others.foldl exec c).advanceOrdered ref).result = .ok ()) :
      Advanced ref c (others ++ [.advance ref])

inductive Operation where
  | apply (commands : List RangeCommand)
  | query
  | cancel

/-- A call from its first to its last section: the run, the operation, the
request identity and the receipt returned. -/
inductive Returns (c : Coordinator) :
    List Section → Operation → LockRequestID → RangeAttempt → Prop
  | apply {session node owner : ℕ} {commands : List RangeCommand}
      {id : LockRequestID} {ref : RequestRef} {first receipt : RangeAttempt}
      {advancing : List Section} (pumping others : List Section)
      (hfi : (c.applyOrdered session node owner commands id).result = .ok (first, ref))
      (had : Advanced ref (pumping.foldl exec
        (c.exec (.apply session node owner commands id))) advancing)
      (hlast : ((others.foldl exec (advancing.foldl exec (pumping.foldl exec
        (c.exec (.apply session node owner commands id))))).applyReceipt
          session id ref).result = .ok receipt) :
      Returns c (.apply session node owner commands id ::
        (pumping ++ (advancing ++ (others ++ [.applyReceipt session id ref]))))
        (.apply commands) id receipt
  | query {session node owner : ℕ} {id : LockRequestID} {ref : RequestRef}
      {action : Request} {receipt : RangeAttempt}
      {advancing : List Section} (waiting others : List Section)
      (hcall : checkCall node = .ok ())
      (hfi : (c.findLocked session node owner id).result = .ok (action, ref))
      (had : Advanced ref (waiting.foldl exec
        (c.exec (.find session node owner id))) advancing)
      (hlast : ((others.foldl exec (advancing.foldl exec (waiting.foldl exec
        (c.exec (.find session node owner id))))).queryReceipt
          session ref).result = .ok receipt) :
      Returns c (.find session node owner id ::
        (waiting ++ (advancing ++ (others ++ [.queryReceipt session ref]))))
        .query id receipt
  | cancel {session node owner : ℕ} {id : LockRequestID}
      {receipt : RangeAttempt} (others : List Section)
      (hre : (c.cancel session node owner id).result = .ok receipt) :
      Returns c (.cancel session node owner id :: others) .cancel id receipt

/-! ## What the rest of a call relies on -/

def Session.Closed (s : Session) : Prop :=
  s.retiring = true ∨ s.retired = true

lemma Session.Closed.not_active (hcl : s.Closed) : s.activeLocked ≠ .ok () := by
  intro hat
  obtain ⟨hretired, hretiring⟩ := Session.activeLocked_eq_ok_iff.mp hat
  simp [Session.Closed, hretired, hretiring] at hcl

/-- Requests keep their identity and never go back into a conversion, and
sessions never become active again. -/
structure Keeps (c c' : Coordinator) : Prop where
  requests : ∀ {ref a}, c.heap ref = some a →
    ∃ a', c'.heap ref = some a' ∧ a'.identity = a.identity ∧ (a.Steady → a'.Steady)
  sessions : ∀ {id s}, c.session? id = some s →
    ∃ s', c'.session? id = some s' ∧ (s.Closed → s'.Closed)

namespace Keeps

variable {c c' c'' : Coordinator}

lemma refl : Keeps c c := ⟨fun hg => ⟨_, hg, rfl, id⟩, fun hs => ⟨_, hs, id⟩⟩

lemma trans (h : Keeps c c') (h' : Keeps c' c'') : Keeps c c'' where
  requests := by
    intro ref a hg
    obtain ⟨a', hget', hid, hste⟩ := h.requests hg
    obtain ⟨a'', hget'', hid', hsteady'⟩ := h'.requests hget'
    exact ⟨a'', hget'', hid'.trans hid, fun ha => hsteady' (hste ha)⟩
  sessions := by
    intro id s hs
    obtain ⟨s', hs', hcl⟩ := h.sessions hs
    obtain ⟨s'', hs'', hclosed'⟩ := h'.sessions hs'
    exact ⟨s'', hs'', fun hc => hclosed' (hcl hc)⟩

lemma of_heap (hheap : c'.heap = c.heap) (hsessions : ∀ {id s}, c.session? id = some s →
      ∃ s', c'.session? id = some s' ∧ (s.Closed → s'.Closed)) :
    Keeps c c' where
  requests := fun hg => ⟨_, hheap ▸ hg, rfl, fun h => h⟩
  sessions := hsessions

lemma of_ages (hages : Ages c c') : Keeps c c' := by
  refine of_heap hages.heap fun {id s} hs => ?_
  have hsm := session?_map Session.ageless (hages.sessions id)
    (hages.retired id)
  rw [hs, Option.map_some] at hsm
  obtain ⟨s', hs', hageless⟩ := Option.map_eq_some_iff.mp hsm
  have holder := Session.older_of_ageless hageless
  refine ⟨s', hs', ?_⟩
  unfold Session.Closed
  rw [holder.retiring, holder.retired]
  exact fun hcl => hcl

lemma of_frame (hf : Frame c c')
    (hste : ∀ {ref a a'}, c.heap ref = some a → c'.heap ref = some a' →
      a.Steady → a'.Steady) : Keeps c c' where
  requests := by
    intro ref a hg
    obtain ⟨a', hget', hid⟩ := hf.request_forth hg
    exact ⟨a', hget', hid, hste hg hget'⟩
  sessions := by
    intro id s hs
    obtain ⟨s', hs', halike⟩ := hf.session?_forth hs
    refine ⟨s', hs', ?_⟩
    unfold Session.Closed
    rw [halike.retiring, halike.retired]
    exact fun hcl => hcl

lemma of_quiets (hf : Frame c c') (hquiets : Quiets c.heap c'.heap) : Keeps c c' := by
  refine of_frame hf fun {ref a a'} hg hget' hste hst => ?_
  have hsm := hg.symm.trans (hquiets ref a' hget' hst)
  rw [Option.some.injEq] at hsm
  exact hsm ▸ hste (hsm ▸ hst)

lemma of_decides (hf : Frame c c') (hdecides : Decides slip True c ref c') : Keeps c c' := by
  obtain ⟨b, -, hb, hsettles⟩ := hdecides
  refine of_frame hf fun {other a a'} hg hget' hste hst => ?_
  have hold := hsettles.quiets other a' hget' hst
  rcases heap_cases rfl hold with ⟨-, rfl⟩ | ⟨-, hold⟩
  · exact hb trivial hst
  · cases hg.symm.trans hold
    exact hste hst

lemma modifySession (c : Coordinator) (session : ℕ) (change : Session → Session)
    (hchange : ∀ s, s.Closed → (change s).Closed) : Keeps c (c.modifySession session change) := by
  refine of_heap rfl fun {id s} hs => ?_
  rw [session?_modifySession, hs]
  split
  · exact ⟨change s, rfl, hchange s⟩
  · exact ⟨s, rfl, fun hcl => hcl⟩

lemma registration (c : Coordinator) (session : ℕ) (change : Session → Session) (count : ℤ)
    (hchange : ∀ s, s.Closed → (change s).Closed) :
    Keeps c { c.modifySession session change with registeredOwners := count } :=
  have hkeeps := modifySession c session change hchange
  ⟨hkeeps.requests, hkeeps.sessions⟩

variable {commands : List RangeCommand}

lemma startedBy {epoch : ℕ} (hadmits : Admits True c key id epoch commands s) :
    Keeps c (c.startedBy key id epoch commands) := by
  have hf := startLocked_frame (c.enrolledBy key id epoch commands)
    c.allocated
  constructor
  · intro ref a hg
    have hne : ref ≠ c.allocated := (hadmits.sound.directory.allocated hg).ne
    obtain ⟨a', hget', hid⟩ := hf.request_forth (a := a)
      ((Function.update_of_ne hne ..).trans hg)
    refine ⟨a', hget', hid, fun hste hst => ?_⟩
    obtain ⟨b, -, -, hsettles⟩ := (hadmits.started fun _ _ _ _ _ => trivial).2
    have hold := hsettles.quiets ref a' hget' hst
    rw [Function.update_of_ne hne, hg, Option.some.injEq] at hold
    exact hold ▸ hste (hold ▸ hst)
  · intro other found hfd
    obtain ⟨s', hs', hcl⟩ := (modifySession c key.session
      (Session.record id c.allocated) fun _ h => h).sessions hfd
    obtain ⟨s'', hs'', halike⟩ := hf.session?_forth (s := s') hs'
    refine ⟨s'', hs'', fun h => ?_⟩
    unfold Session.Closed
    rw [halike.retiring, halike.retired]
    exact hcl h

variable (c)

lemma dropLocked (key : OwnerKey) : Keeps c (c.dropLocked key) :=
  of_quiets (c.dropLocked_frame key) (dropLocked_quiets c key)

lemma unboundBy (session owner node : ℕ) : Keeps c (c.unboundBy session owner node) :=
  .trans (List.foldlRecOn _ _ refl fun c' hfold key _ =>
    hfold.trans (dropLocked c' key)) (registration _ session (Session.unbind owner) _ fun _ h => h)

lemma dissolve (session : ℕ) (s : Session) : Keeps c (c.dissolve session s) := by
  refine of_heap rfl fun {id found} hfd => ?_
  rw [session?_dissolve]
  split
  · exact ⟨s.cleared, rfl, fun _ => .inr rfl⟩
  · exact ⟨found, hfd, fun h => h⟩

variable {c}

lemma acts (hso : Sound True c) (hacts : Acts True c c') : Keeps c c' := by
  cases hacts with
  | aged hag => exact of_ages hag.ages
  | created _ =>
    refine of_heap rfl fun {id s} hs => ?_
    refine ⟨s, ?_, fun h => h⟩
    rw [session?_withSession, if_neg]
    · exact hs
    · rintro rfl
      obtain ⟨hnone, hgone⟩ := hso.nextSession_unused
      simp [session?, hnone, hgone] at hs
  | bound node scope options _ _ =>
    exact registration c _ (Session.bind node scope options) _ fun _ h => h
  | started hag hadmits _ _ =>
    exact (of_ages hag.ages).trans ((startedBy hadmits).trans (of_ages (ticked_ages _)))
  | @retried ref a hp =>
    exact of_decides (c.retryLocked_frame ref a) (retryLocked_decides hp
      (hso.shaped ref a hp.retained.heap))
  | cancelled hag hk hst haging' =>
    exact (of_ages hag.ages).trans ((of_quiets (completeLocked_frame ..)
      (completeLocked_quiets (by decide) none)).trans (of_ages haging'.ages))
  | dropped hs => exact dropLocked c _
  | unbound _ _ hretire =>
    rw [hretire]
    exact unboundBy c _ _ _
  | marked session change hchange =>
    refine modifySession c session change fun s hcl => ?_
    rcases hchange with rfl | rfl
    · exact .inl rfl
    · exact hcl
  | dissolved hs => exact dissolve c _ _
  | used _ _ => exact of_heap rfl fun hs => ⟨_, hs, fun h => h⟩

lemma run (hso : Sound True c) (steps : List Section) : Keeps c (steps.foldl exec c) := by
  induction steps generalizing c with
  | nil => exact refl
  | cons step steps ih =>
    exact (acts hso (exec_acts hso step fun _ => trivial)).trans
      (ih (hso.exec step fun _ => trivial))

end Keeps

/-! ## The request at the end of a call -/

/-- The request is decided or waits, unless its session is closed. -/
def Rests (c : Coordinator) (identity : Identity) (ref : RequestRef) : Prop :=
  ∃ a, c.heap ref = some a ∧ a.identity = identity ∧
    (a.Steady ∨ ∃ s, c.session? identity.key.session = some s ∧ s.Closed)

variable {c' : Coordinator}

lemma Rests.keeps (hrests : Rests c identity ref) (hkeeps : Keeps c c') :
    Rests c' identity ref := by
  obtain ⟨a, hg, hid, hcase⟩ := hrests
  obtain ⟨a', hget', hid', hste⟩ := hkeeps.requests hg
  refine ⟨a', hget', hid'.trans hid, ?_⟩
  rcases hcase with ha | ⟨s, hs, hcl⟩
  · exact .inl (hste ha)
  · obtain ⟨s', hs', hclosed'⟩ := hkeeps.sessions hs
    exact .inr ⟨s', hs', hclosed' hcl⟩

def Knows (c : Coordinator) (identity : Identity) (ref : RequestRef) : Prop :=
  (∃ a, c.heap ref = some a ∧ a.identity = identity) ∧
    ∃ s, c.session? identity.key.session = some s

lemma Knows.keeps (hkn : Knows c identity ref) (hkeeps : Keeps c c') :
    Knows c' identity ref := by
  obtain ⟨⟨a, hg, hid⟩, s, hs⟩ := hkn
  obtain ⟨a', hget', hid', -⟩ := hkeeps.requests hg
  obtain ⟨s', hs', -⟩ := hkeeps.sessions hs
  exact ⟨⟨a', hget', hid'.trans hid⟩, s', hs'⟩

section

variable {c : Coordinator} {identity : Identity} {ref : RequestRef}

lemma closed_of_gone (hso : Sound slip c) {id : ℕ} (hs : c.session? id = some s)
    (hnone : c.sessions.get? id = none) : s.Closed := by
  unfold session? at hs
  rw [hnone] at hs
  exact .inr (hso.directory.gone hs).2.2.1

section

variable (hso : Sound True c)
include hso

lemma rests_of_idle (hkn : Knows c identity ref)
    (hidle : c.retriable ref = false) : Rests c identity ref := by
  obtain ⟨⟨a, hg, rfl⟩, s, hs⟩ := hkn
  refine ⟨a, hg, rfl, ?_⟩
  change _ ∨ ∃ s, c.session? a.key.session = some s ∧ _
  cases hlive : c.sessions.get? a.key.session with
  | none => exact .inr ⟨s, hs, closed_of_gone hso hs hlive⟩
  | some found =>
    have hfd : c.session? a.key.session = some found := by simp [session?, hlive]
    simp only [retriable, hg, hlive, Bool.and_eq_false_iff,
      Bool.not_eq_false', decide_eq_false_iff_not] at hidle
    rcases hidle with (hretiring | hst) | horder
    · exact .inr ⟨found, hfd, .inl hretiring⟩
    · exact .inl fun hpd => absurd hpd hst
    refine .inl fun hpd => ?_
    have hopen := ((hso.shaped ref a hg).pending_body hpd).1
    rw [hopen.order] at horder
    cases horder

lemma rests_of_ordered (hkn : Knows c identity ref)
    (hok : (c.advanceOrdered ref).result = .ok ()) :
    Rests (c.exec (.advance ref)) identity ref := by
  obtain ⟨⟨a, hg, rfl⟩, s, hs⟩ := hkn
  change c.session? a.key.session = some s at hs
  change Rests (c.advanceOrdered ref).state a.identity ref
  unfold advanceOrdered at hok ⊢
  simp only [hg] at hok ⊢
  cases hlive : c.sessions.get? a.key.session with
  | none => exact ⟨a, hg, rfl, .inr ⟨s, hs, closed_of_gone hso hs hlive⟩⟩
  | some found =>
    simp only [hlive] at hok ⊢
    split at hok
    · next hst =>
      rw [if_pos hst]
      exact ⟨a, hg, rfl, .inl fun hpd => absurd hpd hst⟩
    next hst =>
    rw [if_neg hst]
    rw [not_not] at hst
    cases hat : found.activeLocked with
    | error failure =>
      rw [hat] at hok
      cases hok
    | ok _ =>
      simp only [hat] at hok ⊢
      cases howner : found.checkOwnerLocked a.key.node a.key.owner with
      | error failure =>
        rw [howner] at hok
        cases hok
      | ok _ =>
        simp only
        obtain ⟨a', hget', hid⟩ := (c.retryLocked_frame ref a).request_forth hg
        obtain ⟨b, -, hb, hsettles⟩ := retryLocked_decides (hso.poised
          (hso.kept _ _ _ hg hst hlive) hst (Sound.owned_of_check hlive howner
          (hso.directory.admitted hg).defined)) (hso.shaped ref a hg)
        refine ⟨a', hget', hid, .inl fun hpd => ?_⟩
        have hold := hsettles.quiets ref a' hget' hpd
        rw [Function.update_self, Option.some.injEq] at hold
        exact hold ▸ hb trivial (hold ▸ hpd)

variable {steps : List Section}

lemma Advanced.rests (hkn : Knows c identity ref) (had : Advanced ref c steps) :
    Rests (steps.foldl exec c) identity ref := by
  cases had with
  | idle hidle => exact rests_of_idle hso hkn hidle
  | ordered others _ hok =>
    rw [List.foldl_append]
    exact rests_of_ordered (Runs.invariant (fun _ step hso =>
      hso.exec step fun _ => trivial) hso others)
      (hkn.keeps (.run hso others)) hok

lemma Advanced.rests_after (hkn : Knows c identity ref) (before : List Section)
    (had : Advanced ref (before.foldl exec c) steps) (after : List Section) :
    Rests (after.foldl exec (steps.foldl exec (before.foldl exec c))) identity ref := by
  have hbefore :=
    Runs.invariant (fun _ step hso => hso.exec step fun _ => trivial) hso before
  have hsteps :=
    Runs.invariant (fun _ step hso => hso.exec step fun _ => trivial) hbefore steps
  exact (had.rests hbefore (hkn.keeps (.run hso before))).keeps (.run hsteps after)

end

end

/-! ## The receipt that a call returns -/

/-- The commands are the ones that an operation asked for. -/
def Operation.Asks : Operation → List RangeCommand → Prop
  | .apply asked, commands => commands = asked
  | _, _ => True

/-- A receipt was read from a resting request object. -/
structure Reads (c : Coordinator) (op : Operation) (id : LockRequestID)
    (a : Request) (receipt : RangeAttempt) : Prop where
  heap : ∃ ref, c.heap ref = some a
  steady : a.Steady
  id : a.id = id
  commands : op.Asks a.commands
  receipt : ∃ s now, c.session? a.key.session = some s ∧ receipt = receiptLocked s a now

section

variable {c : Coordinator}

lemma readReceipt_inv (hrea : (c.readReceipt session ref).result = .ok receipt) :
    ∃ s a, c.session? session = some s ∧ c.heap ref = some a ∧
      receipt = receiptLocked s a c.time := by
  unfold readReceipt at hrea
  split at hrea
  · next s a hs ha => exact ⟨s, a, hs, ha, (Except.ok.inj hrea).symm⟩
  · cases hrea

lemma Rests.reads (hrests : Rests c identity ref) (hs : c.session? identity.key.session = some s)
    (hat : s.activeLocked = .ok ())
    (hrea : (c.readReceipt identity.key.session ref).result = .ok receipt) (op : Operation)
    (hasks : op.Asks identity.commands) : ∃ a, Reads c op identity.id a receipt := by
  obtain ⟨a, hg, rfl, hcase⟩ := hrests
  obtain ⟨found, b, hfd, hb, hreceipt⟩ := readReceipt_inv hrea
  have hsm : b = a := Option.some.inj (hb.symm.trans hg)
  subst hsm
  refine ⟨b, ⟨ref, hg⟩, ?_, rfl, hasks, found, c.time, hfd, hreceipt⟩
  refine hcase.resolve_right ?_
  rintro ⟨other, hother, hcl⟩
  have hsm : other = s := Option.some.inj (hother.symm.trans hs)
  exact hcl.not_active (hsm ▸ hat)

lemma queryReceipt_inv (hre : (c.queryReceipt session ref).result = .ok receipt) :
    ∃ s, c.session? session = some s ∧ s.activeLocked = .ok () ∧
      (c.readReceipt session ref).result = .ok receipt := by
  unfold queryReceipt at hre
  split at hre
  · cases hre
  next s hs =>
  split at hre
  · cases hre
  next hat => exact ⟨s, hs, hat, hre⟩

lemma applyReceipt_inv (hre : (c.applyReceipt session id ref).result = .ok receipt) :
    ∃ s, c.session? session = some s ∧ s.activeLocked = .ok () ∧
      (c.readReceipt session ref).result = .ok receipt := by
  unfold applyReceipt at hre
  split at hre
  · cases hre
  next s hs =>
  split at hre
  · cases hre
  next hat =>
  split at hre
  · cases hre
  · exact ⟨s, hs, hat, hre⟩

lemma applyOrdered_knows (hso : Sound True c) {node owner : ℕ}
    (hfi : (c.applyOrdered session node owner commands id).result = .ok (first, ref)) :
    ∃ identity : Identity, identity.key.session = session ∧ identity.id = id ∧
      identity.commands = commands ∧
      Knows (c.applyOrdered session node owner commands id).state identity ref := by
  have hcases := applyOrdered_cases hso session node owner commands id
  have had := hso.aging (c.advanced_aging session)
  revert hcases hfi
  generalize c.applyOrdered session node owner commands id = outcome
  intro hfi hcases
  cases hcases with
  | refused | overflow => cases hfi
  | @advanced next s s' command epoch _ _ _ _ _ _ _ hnext hs' happlies =>
    rw [hnext] at had
    cases happlies with
    | @replayed other old hlisted hg hkey hcmds =>
      cases hfi
      obtain ⟨a, ha, hid, hsess⟩ := had.directory.indexed hs' hlisted
      have hsm : a = old := Option.some.inj (ha.symm.trans hg)
      subst hsm
      refine ⟨a.identity, hsess, hid, hcmds, ⟨a, hg, rfl⟩, s', ?_⟩
      change next.session? a.key.session = some s'
      simp [session?, hsess, hs']
    | changed | expired | full => cases hfi
    | @started _ s'' a _ _ _ _ _ hs'' hg =>
      cases hfi
      have hf := startLocked_frame ((next.pruneAtLimit c.time).admitLocked session
        (freshRequest ⟨session, owner, node, command.domain⟩ id epoch commands))
        (next.pruneAtLimit c.time).allocated
      obtain ⟨b, hb, hidentity⟩ := hf.request_back hg
      change Function.update (next.pruneAtLimit c.time).heap
        (next.pruneAtLimit c.time).allocated _ _ = some b at hb
      rw [Function.update_self, Option.some.injEq] at hb
      subst hb
      exact ⟨_, rfl, rfl, rfl, ⟨a, hg, hidentity.symm⟩, s'', hs''⟩

lemma cancel_reads (hso : Sound True c) {node owner : ℕ}
    (hre : (c.cancel session node owner id).result = .ok receipt) :
    ∃ a, Reads (c.cancel session node owner id).state .cancel id a receipt := by
  have hrea : ∀ {d : Coordinator} {ref : RequestRef} {a : Request},
      d.heap ref = some a → a.result.state ≠ .pending → a.id = id →
      a.key.session = session →
      (d.readReceipt session ref).result = .ok receipt →
      ∃ a, Reads (d.readReceipt session ref).state .cancel id a receipt := by
    intro d ref a hg hst hid hsess hrea
    obtain ⟨s, b, hs, hb, hreceipt⟩ := readReceipt_inv hrea
    have hsm : b = a := Option.some.inj (hb.symm.trans hg)
    subst hsm
    rw [readReceipt_eq hs hb]
    exact ⟨b, ⟨ref, hb⟩, fun h => absurd h hst, hid, trivial, s, d.time, hsess ▸ hs, hreceipt⟩
  revert hre
  unfold cancel
  split
  · intro hre
    cases hre
  obtain ⟨hag, hfd⟩ := Sound.findLocked_found c session node owner id
  revert hag hfd
  generalize c.findLocked session node owner id = outcome
  intro hag hfd hre
  obtain ⟨next, result⟩ := outcome
  cases result with
  | error failure => cases hre
  | ok pair =>
    obtain ⟨action, ref⟩ := pair
    obtain ⟨hk, hid, hsess⟩ := Sound.Found.retained (hso.aging hag) (hfd rfl).1
    simp only at hre ⊢
    split at hre
    · next hst =>
      rw [if_pos hst]
      have hg : (next.completeLocked ref .cancelled none).heap ref =
          some (action.completed .cancelled none
            (next.time + next.historyOf action.key.session)) := by
        rw [completeLocked_heap hk.heap, Function.update_self]
      have hdecided : AttemptState.cancelled ≠ .pending := by decide
      exact hrea hg hdecided hid hsess hre
    · next hst =>
      rw [if_neg hst]
      exact hrea hk.heap hst hid hsess hre

end

lemma Returns.reads (hso : Sound True c) (hreturns : Returns c call op id receipt) :
    ∃ steps rest a, call = steps ++ rest ∧ Reads (steps.foldl exec c) op id a receipt := by
  cases hreturns with
  | @apply session node owner commands id ref first receipt advancing pumping
      others hfi had hlast =>
      obtain ⟨identity, rfl, rfl, rfl, hkn⟩ := applyOrdered_knows hso hfi
      have hsound' := hso.exec (.apply identity.key.session node owner
        identity.commands identity.id) fun _ => trivial
      have hrests := had.rests_after hsound' hkn pumping others
      obtain ⟨s, hs, hat, hrea⟩ := applyReceipt_inv hlast
      obtain ⟨a, hreads⟩ := hrests.reads hs hat hrea
        (.apply identity.commands) rfl
      refine ⟨.apply identity.key.session node owner identity.commands identity.id :: (pumping ++
        (advancing ++ others)), [.applyReceipt identity.key.session identity.id ref], a, ?_, ?_⟩
      · simp
      · rwa [List.foldl_cons, List.foldl_append, List.foldl_append]
  | @query session node owner id ref action receipt advancing waiting others _
      hfi had hlast =>
      obtain ⟨hag, hfd⟩ := Sound.findLocked_found c session node owner id
      have hsound' := hso.aging hag
      have hit := (hfd hfi).1
      obtain ⟨hk, rfl, rfl⟩ := hit.retained hsound'
      obtain ⟨s₀, hs₀, -⟩ := hit.listed
      have hkn : Knows (c.exec (.find action.key.session node owner
          action.id)) action.identity ref := ⟨⟨action, hit.heap, rfl⟩, s₀, hs₀⟩
      have hrests := had.rests_after hsound' hkn waiting others
      obtain ⟨s, hs, hat, hrea⟩ := queryReceipt_inv hlast
      obtain ⟨a, hreads⟩ := hrests.reads hs hat hrea .query trivial
      refine ⟨.find action.key.session node owner action.id :: (waiting ++ (advancing ++ others)),
        [.queryReceipt action.key.session ref], a, ?_, ?_⟩
      · simp
      · rwa [List.foldl_cons, List.foldl_append, List.foldl_append]
  | @cancel session node owner id receipt others hre =>
    obtain ⟨a, hreads⟩ := cancel_reads hso hre
    exact ⟨[.cancel session node owner id], others, a, rfl, hreads⟩

end RemoteFs.Advisory
