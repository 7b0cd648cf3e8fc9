import RemoteFs.ObjectStore.ActionWindow

/-!
# Sections of file actions and their queries

Every section moves the window of file actions, and what a call or a query has
seen stays true while others run: the epoch of an action that was executed and is
not known is over, and a record that appears between the two looks of a call is
kept for a full history.
-/

namespace RemoteFs

open Storage (Failure Text)

namespace ObjectStore
namespace Session

variable {query : QueryCall} {epoch q : ℕ} {id : FileActionID}

variable {ρ : Type}

def track (s : Session ρ) : Track ρ :=
  ⟨s.history, s.now, s.reads, s.epoch, s.epochUntil, s.actions, s.started⟩

/-! ## Sections that belong to no action and to no query -/

structure Aside (s s' : Session ρ) : Prop where
  chain : Track.Chain s.track s'.track
  calls : s'.actionCalls = s.actionCalls
  queries : s'.queries = s.queries

namespace Aside

variable {s s' s'' : Session ρ}

lemma refl : Aside s s := ⟨.refl, rfl, rfl⟩

lemma trans (h : Aside s s') (h' : Aside s' s'') : Aside s s'' :=
  ⟨h.chain.trans h'.chain, h'.calls.trans h.calls, h'.queries.trans h.queries⟩

lemma of_eq (hs : (s'.track, s'.actionCalls, s'.queries) =
    (s.track, s.actionCalls, s.queries)) : Aside s s' := by
  obtain ⟨htrack, hrest⟩ := Prod.mk.inj hs
  obtain ⟨hcalls, hqueries⟩ := Prod.mk.inj hrest
  exact ⟨htrack ▸ .refl, hcalls, hqueries⟩

variable (s : Session ρ) (c : ℕ) (call : CloseCall)

lemma ticked : Aside s s.ticked := ⟨.single (.tick s.track), rfl, rfl⟩

lemma pruneFileActions : Aside s s.pruneFileActions := ⟨.single (.prune s.track), rfl, rfl⟩

lemma pruneCloseHistory : Aside s s.pruneCloseHistory := by
  obtain ⟨refs, closeActions, heq⟩ := s.pruneCloseHistory_eq
  rw [heq]
  exact ⟨.single (.tick s.track), rfl, rfl⟩

lemma prune : Aside s s.pruneFileActions.pruneCloseHistory :=
  (pruneFileActions s).trans (pruneCloseHistory _)

lemma advance : Aside s s.advance.1 := by
  unfold Session.advance Session.advanceLocked
  split
  · split
    · exact ticked s
    · exact ⟨.single (.advance s.track), rfl, rfl⟩
  · exact ticked s

lemma epochLocked (cancelled : Option Failure) : Aside s (s.epochLocked cancelled).1 := by
  have had := advance s
  unfold Session.epochLocked
  split
  · exact refl
  split
  · exact refl
  · split <;> next heq => rwa [heq] at had

lemma existingLocked (receipt : CloseReceipt) : Aside s (s.existingLocked c call receipt) := by
  unfold Session.existingLocked
  split
  · exact of_eq rfl
  · split <;> exact of_eq rfl

lemma inspectClose : Aside s (s.inspectClose c call) := by
  unfold Session.inspectClose
  have hprune : Aside s (s.pruneCloseHistory.initNext call.ref) :=
    (pruneCloseHistory s).trans (of_eq rfl)
  simp only
  split
  · exact hprune.trans (existingLocked _ c call _)
  · exact hprune.trans (of_eq rfl)

lemma admitLocked (r : CloseState) : Aside s (s.admitLocked c call r) := by
  unfold Session.admitLocked
  split_ifs <;> exact of_eq rfl

lemma admitClose : Aside s (s.admitClose c call) := by
  unfold Session.admitClose
  have hprune := pruneCloseHistory s
  simp only
  split
  · exact hprune
  split
  · exact hprune.trans (existingLocked _ c call _)
  split_ifs
  · exact hprune.trans (of_eq rfl)
  · exact hprune.trans (of_eq rfl)
  · exact hprune.trans (of_eq rfl)
  · exact hprune.trans (admitLocked _ c call _)

lemma stepClose (cancelled : Option Failure) (id : FileActionID) :
    Aside s (s.stepClose c cancelled id) := by
  have had := advance s
  unfold Session.stepClose
  split
  · exact refl
  next call _ =>
  split
  · unfold implicitRead
    split
    · exact refl
    split
    · exact of_eq rfl
    · simp only
      split <;> exact of_eq rfl
  · unfold implicitEpoch
    split
    · exact of_eq rfl
    split
    · next heq =>
      rw [heq] at had
      exact had.trans (of_eq rfl)
    next heq =>
    rw [heq] at had
    split
    · exact had.trans (of_eq rfl)
    · exact had
  · exact inspectClose s c call
  · unfold admissionClose
    split
    · exact of_eq rfl
    split
    · next heq =>
      rw [heq] at had
      exact had.trans (of_eq rfl)
    · next heq =>
      rw [heq] at had
      exact had.trans (admitClose _ c call)
  · unfold recheckClose
    split
    · exact existingLocked s c call _
    · exact of_eq rfl
  · unfold awaitClose
    split
    · exact of_eq rfl
    · split
      · exact refl
      · exact of_eq rfl
  · unfold implicitEnd
    simp only
    split_ifs <;> exact of_eq rfl
  · exact refl

lemma landClose (run : ℕ) (result : ReferenceCloseResult) (err : Option NativeError) :
    Aside s (s.landClose run result err) := by
  unfold Session.landClose
  split
  · exact refl
  · exact (ticked s).trans (of_eq rfl)

lemma queryClose (ref : ℕ) (attempt : CloseAttempt) (cancelled : Option Failure) :
    Aside s (s.queryClose ref attempt cancelled).1 := by
  unfold Session.queryClose
  have had := advance s
  split
  · exact refl
  · exact refl
  split
  · next heq => rwa [heq] at had
  next s₁ heq =>
  rw [heq] at had
  have hnext : Aside s₁ (s₁.initNext ref) := of_eq rfl
  have hasi := had.trans (hnext.trans (pruneCloseHistory _))
  simp only
  split
  · exact hasi
  · split
    · exact hasi
    · split_ifs <;> exact hasi

lemma statusClose (ref : ℕ) (cancelled : Option Failure) :
    Aside s (s.statusClose ref cancelled).1 := by
  unfold Session.statusClose
  have had := advance s
  split
  · exact refl
  split
  · next heq => rwa [heq] at had
  next s₁ heq =>
  rw [heq] at had
  have hasi : Aside s (s₁.pruneCloseHistory.initNext ref) :=
    had.trans ((pruneCloseHistory _).trans (of_eq rfl))
  simp only
  split <;> exact hasi

lemma beginClose (c ref : ℕ) (attempt : Option CloseAttempt) :
    Aside s (s.beginClose c ref attempt) := by
  unfold Session.beginClose
  split
  · exact refl
  · split
    · exact of_eq rfl
    · split <;> exact of_eq rfl

end Aside

/-- The steps of actions and of queries. -/
def Step.concerns : Step ρ → Bool
  | .beginAction .. => true
  | .stepAction .. => true
  | .beginQuery .. => true
  | .stepQuery .. => true
  | _ => false

lemma exec_aside (s : Session ρ) (hother : step.concerns = false) : Aside s (s.exec step) := by
  cases step with
  | openReference ref =>
    change Aside s (if (s.refs.get? ref).isSome then s
      else { s with refs := s.refs.set ref .fresh })
    split <;> exact .of_eq rfl
  | beginClose c ref attempt => exact .beginClose s c ref attempt
  | stepClose c cancelled id => exact .stepClose s c cancelled id
  | landClose run result err => exact .landClose s run result err
  | queryClose ref attempt cancelled => exact .queryClose s ref attempt cancelled
  | statusClose ref cancelled => exact .statusClose s ref cancelled
  | readHistory => exact .epochLocked s none
  | setLease active expires locks => exact .of_eq rfl
  | _ => cases hother

/-! ## What calls and queries have established -/

def ActionPhase.idle : ActionPhase ρ → Bool
  | .epoch => false
  | .enter => false
  | _ => true

structure ActionCall.Tracked (call : ActionCall ρ) (t : Track ρ) : Prop where
  before : ∀ id ∈ call.before, id ∈ t.started
  seen : call.phase = .epoch ∨ call.phase = .enter → call.seen ∈ t.past
  /-- Whoever finds no record of an action that was executed is late. -/
  late : call.phase = .epoch → call.id ∈ call.before → t.Over call.id
  covered : call.phase = .epoch → call.id ∈ t.started →
    t.Covered call.id call.seen ∨ t.Over call.id
  begun : call.phase = .enter → actionEpoch call.id ≤ t.epoch
  entering : call.phase = .enter → call.id ∈ t.started → t.Covered call.id call.seen

structure QueryCall.Tracked (query : QueryCall) (t : Track ρ) : Prop where
  before : ∀ id ∈ query.before, id ∈ t.started
  late : query.phase = .epoch → query.id ∈ query.before → t.Over query.id
  truthful : ∀ receipt, query.phase = .answered (.ok receipt) → query.id ∈ query.before →
      ¬(receipt.operation = none ∧ receipt.outcome = .notExecuted)

structure Tracked (s : Session ρ) : Prop where
  safe : s.track.Safe
  calls : ∀ {c call}, s.actionCalls.get? c = some call → ActionCall.Tracked call s.track
  queries : ∀ {q query}, s.queries.get? q = some query → QueryCall.Tracked query s.track

section Chains

variable {t t' : Track ρ}

lemma ActionCall.Tracked.chain (h : ActionCall.Tracked call t) (hsafe : t.Safe)
    (hch : Track.Chain t t') : ActionCall.Tracked call t' where
  before := fun id hm => Track.Chain.started hch ▸ h.before id hm
  seen := fun hph => Track.Chain.past hch (h.seen hph)
  late := fun hph hm => Track.Chain.over hsafe hch (h.before _ hm) (h.late hph hm)
  covered := by
    intro hph hm
    rw [Track.Chain.started hch] at hm
    exact (h.covered hph hm).imp (Track.Chain.covered hsafe hch (h.seen (.inl hph)))
      (Track.Chain.over hsafe hch hm)
  begun := fun hph => (h.begun hph).trans (Track.Chain.epoch hch)
  entering := by
    intro hph hm
    rw [Track.Chain.started hch] at hm
    exact Track.Chain.covered hsafe hch (h.seen (.inr hph)) (h.entering hph hm)

lemma QueryCall.Tracked.chain (h : QueryCall.Tracked query t) (hsafe : t.Safe)
    (hch : Track.Chain t t') : QueryCall.Tracked query t' where
  before := fun id hm => Track.Chain.started hch ▸ h.before id hm
  late := fun hph hm => Track.Chain.over hsafe hch (h.before _ hm) (h.late hph hm)
  truthful := h.truthful

lemma Tracked.aside (h : Tracked s) (hasi : Aside s s') : Tracked s' := by
  refine ⟨h.safe.chain hasi.chain, fun hg => ?_, fun hg => ?_⟩
  · rw [hasi.calls] at hg
    exact (h.calls hg).chain h.safe hasi.chain
  · rw [hasi.queries] at hg
    exact (h.queries hg).chain h.safe hasi.chain

lemma ActionCall.Tracked.idle {call : ActionCall ρ} {phase : ActionPhase ρ}
    (hbefore : ∀ id ∈ call.before, id ∈ t.started) (hidle : ActionPhase.idle phase = true) :
    ActionCall.Tracked { call with phase } t := by
  have hepoch : phase ≠ .epoch := fun heq => by
    rw [heq] at hidle
    cases hidle
  have henter : phase ≠ .enter := fun heq => by
    rw [heq] at hidle
    cases hidle
  exact {
      before := hbefore
      seen := fun hph => (hph.elim hepoch henter).elim
      late := fun hph => absurd hph hepoch
      covered := fun hph => absurd hph hepoch
      begun := fun hph => absurd hph henter
      entering := fun hph => absurd hph henter }

end Chains

namespace Tracked

variable {s s' : Session ρ} {c : ℕ} {call : ActionCall ρ}

section

variable (h : Tracked s)
include h

lemma modifyCall (hg : s.actionCalls.get? c = some call)
    {change : ActionCall ρ → ActionCall ρ} (hcall : ActionCall.Tracked (change call) s.track) :
    Tracked { s with actionCalls := s.actionCalls.modify c change } := by
  refine ⟨h.safe, fun {other found'} hfound' => ?_, h.queries⟩
  obtain ⟨found, hf, rfl⟩ := Table.of_get?_modify hfound'
  split_ifs with heq
  · rw [heq, hg] at hf
    cases hf
    exact hcall
  · exact h.calls hf

lemma rest (hg : s.actionCalls.get? c = some call) {phase : ActionPhase ρ}
    (hidle : ActionPhase.idle phase = true) : Tracked (s.setActionPhase c phase) :=
  h.modifyCall hg (.idle (h.calls hg).before hidle)

lemma returnAction (hg : s.actionCalls.get? c = some call)
    (result : Except Failure (ρ × Option CallError)) : Tracked (s.returnAction c result) :=
  h.rest hg rfl

lemma addCall (hbefore : call.before = []) (hidle : ActionPhase.idle call.phase = true) :
    Tracked { s with actionCalls := s.actionCalls.set c call } := by
  refine ⟨h.safe, fun {other found} hf => ?_, h.queries⟩
  rw [Table.get?_set] at hf
  split_ifs at hf
  · cases hf
    exact ActionCall.Tracked.idle (by simp [hbefore]) hidle
  · exact h.calls hf

/-! ## The sections of a call -/

lemma beginAction (c : ℕ) (id : FileActionID) (operation : Operation)
    (digest : Except Failure Text) : Tracked (s.beginAction c id operation digest) := by
  unfold Session.beginAction
  simp only
  split
  · exact h
  · split
    · exact h.addCall rfl rfl
    · split <;> exact h.addCall rfl rfl

end

lemma retainedPhase_idle (call : ActionCall ρ) (retained : FileAction ρ) :
    ActionPhase.idle (retainedPhase call retained) = true := by
  unfold retainedPhase
  split
  · rfl
  · split
    · rfl
    · split <;> rfl

lemma inspectAction (h : Tracked s) (hg : s.actionCalls.get? c = some call)
    (hph : call.phase = .inspect) : Tracked (s.inspectAction c call) := by
  unfold Session.inspectAction
  simp only
  split
  · exact (h.aside (.ticked s)).returnAction hg _
  obtain ⟨s₂, hs₂⟩ : ∃ s₂, s₂ = s.ticked.pruneFileActions.pruneCloseHistory := ⟨_, rfl⟩
  have hasi := hs₂ ▸ (Aside.ticked s).trans (.prune s.ticked)
  have hget₂ : s₂.actionCalls.get? c = some call := by rw [hasi.calls, hg]
  have hseen : s.ticked.time ∈ s₂.track.past := by
    refine hs₂ ▸ (Aside.pruneCloseHistory _).chain.past ?_
    exact ⟨s.ticked.reads, Nat.lt_succ_self _, rfl⟩
  have h₂ := h.aside hasi
  -- the call with what it has seen
  obtain ⟨look, hlook⟩ : ∃ look : ActionCall ρ,
      look = { call with seen := s.ticked.time, before := s₂.started } :=
    ⟨_, rfl⟩
  obtain ⟨s₃, hs₃⟩ : ∃ s₃ : Session ρ, s₃ = { s₂ with
      actionCalls := s₂.actionCalls.modify c fun call =>
        { call with seen := s.ticked.time, before := s₂.started } } :=
    ⟨_, rfl⟩
  have hget₃ : s₃.actionCalls.get? c = some look := by
    rw [hs₃, hlook]
    change (s₂.actionCalls.modify c _).get? c = _
    exact Table.get?_modified hget₂
  have h₃ : Tracked s₃ := by
    rw [hs₃]
    refine h₂.modifyCall hget₂ ?_
    have hidle : ActionCall.Tracked { look with phase := .inspect } s₂.track :=
      .idle (by simp [hlook, track]) rfl
    rw [hlook] at hidle
    rwa [hph]
  simp only [← hs₂, ← hs₃]
  split
  · exact h₃.returnAction hget₃ _
  split
  · next retained _ => exact h₃.rest hget₃ (retainedPhase_idle call retained)
  next hn =>
  refine h₃.modifyCall hget₃ ?_
  have hover : look.id ∈ s₃.started → s₃.track.Over look.id := by
    intro hm
    refine h₃.safe.over_of_unknown hm ?_
    rwa [hs₃, hlook]
  refine ⟨(h₃.calls hget₃).before, fun _ => ?_, fun _ hm => ?_,
    fun _ hm => .inr (hover hm), fun hph => ?_, fun hph => ?_⟩
  · rwa [hlook, hs₃]
  · exact hover ((h₃.calls hget₃).before _ hm)
  · cases hph
  · cases hph

end Tracked

lemma advance_over {s : Session ρ} (h : s.track.Safe) (hused : id ∈ s.started)
    (hover : s.track.Over id) (hok : s.advance.2 = .ok ()) :
    actionEpoch id < s.advance.1.epoch := by
  have hbegun := h.window.begun id hused
  unfold advance advanceLocked at hok ⊢
  split at hok
  · next hlate =>
    split at hok
    · cases hok
    · next hroom =>
      simp only [if_pos hlate, if_neg hroom]
      exact Nat.lt_succ_of_le hbegun
  next hearly =>
  simp only [if_neg hearly]
  rcases hover with hover | ⟨x, hx, hle⟩
  · exact hover
  · exact absurd (hle.trans (Track.le_now h.clock hx)) hearly

lemma epochLocked_over {s s' : Session ρ} (h : s.track.Safe)
    {cancelled : Option Failure} (hre : s.epochLocked cancelled = (s', .ok epoch)) :
    epoch = s'.epoch ∧ ∀ id ∈ s.started, s.track.Over id → actionEpoch id < epoch := by
  unfold epochLocked at hre
  split at hre
  · cases hre
  split at hre
  · cases hre
  split at hre
  · cases hre
  next s₁ heq =>
  cases hre
  refine ⟨rfl, fun id hused hover => ?_⟩
  have hlate := advance_over h hused hover (by rw [heq])
  rwa [heq] at hlate

lemma actionEpoch_eq (hepoch : Storage.lockRequestEpoch id = .ok epoch) :
    actionEpoch id = epoch := by
  simp [actionEpoch, hepoch]

lemma not_over_of_epochLocked {s s' : Session ρ} (h : s.track.Safe) {cancelled : Option Failure}
    (hre : s.epochLocked cancelled = (s', .ok epoch)) (hepoch : actionEpoch id = epoch)
    (hused : id ∈ s.started) : ¬s.track.Over id := by
  intro hover
  exact absurd hepoch ((epochLocked_over h hre).2 id hused hover).ne

namespace Tracked

variable {s s' : Session ρ} {c : ℕ} {call : ActionCall ρ}

section

variable (h : Tracked s)
include h

section

variable (hg : s.actionCalls.get? c = some call)
include hg

lemma readEpoch (hph : call.phase = .epoch) (cancelled : Option Failure) :
    Tracked (s.readEpoch c call cancelled) := by
  have hasi := Aside.epochLocked s cancelled
  have htracked := h.calls hg
  unfold Session.readEpoch
  split
  · next s₁ err hre =>
    rw [hre] at hasi
    exact (h.aside hasi).returnAction (hasi.calls ▸ hg) _
  next s₁ epoch hre =>
  rw [hre] at hasi
  have hget₁ := hasi.calls ▸ hg
  have h₁ := h.aside hasi
  split
  · exact h₁.returnAction hget₁ _
  next requested hrequested =>
  split
  · exact h₁.returnAction hget₁ _
  next hs =>
  have hepoch : actionEpoch call.id = epoch := (actionEpoch_eq hrequested).trans (not_not.mp hs)
  have htracked₁ := h₁.calls hget₁
  refine h₁.modifyCall hget₁ ⟨htracked₁.before,
    fun _ => htracked₁.seen (.inl hph), fun hne => ?_, fun hne => ?_,
    fun _ => ?_, fun _ hm => ?_⟩
  · cases hne
  · cases hne
  · exact (hepoch.trans (epochLocked_over h.safe hre).1).le
  · have hused : call.id ∈ s.started := by
      have hstarted := hasi.chain.started
      change s₁.started = s.started at hstarted
      exact hstarted ▸ hm
    have hcovered := (htracked.covered hph hused).resolve_right
      (not_over_of_epochLocked h.safe hre hepoch hused)
    exact hasi.chain.covered h.safe (htracked.seen (.inl hph)) hcovered

lemma startAction (hph : call.phase = .enter) : Tracked (s.startAction c call) := by
  have hbegun := (h.calls hg).begun hph
  obtain ⟨action, haction⟩ : ∃ action : FileAction ρ, action =
    ⟨s.started.length, call.operation, call.digest, 0, .pending, none⟩ :=
    ⟨_, rfl⟩
  have htrack : (s.startAction c call).track = s.track.start call.id action := by
    rw [haction]
    rfl
  have hsafe : (s.track.start call.id action).Safe := h.safe.start hbegun (by rw [haction])
  -- a record of the started action covers every call that waits for it
  have hcovers : ∀ {id seen}, id ∈ (s.track.start call.id action).started →
      (id ∈ s.started → s.track.Covered id seen) →
        (s.track.start call.id action).Covered id seen := by
    intro id seen hm hcovered
    by_cases heq : id = call.id
    · refine .inl ⟨action, ?_, .inl (by rw [haction])⟩
      rw [heq]
      exact Table.get?_set_self _ _ _
    · refine (hcovered ((List.mem_cons.mp hm).resolve_left heq)).imp_left ?_
      rintro ⟨found, hf, hkeeps⟩
      exact ⟨found, (Table.get?_set_ne heq).trans hf, hkeeps⟩
  have hothers : ∀ {found : ActionCall ρ}, ActionCall.Tracked found s.track →
      ActionCall.Tracked found (s.track.start call.id action) := by
    intro found hf
    refine ⟨fun id hm => List.mem_cons_of_mem _ (hf.before id hm),
      hf.seen, hf.late, fun hph hm => ?_, hf.begun,
      fun hph hm => hcovers hm (hf.entering hph)⟩
    by_cases heq : found.id = call.id
    · refine .inl (.inl ⟨action, ?_, .inl (by rw [haction])⟩)
      rw [heq]
      exact Table.get?_set_self _ _ _
    · have hused := (List.mem_cons.mp hm).resolve_left heq
      exact (hf.covered hph hused).imp_left fun hcovered => hcovers hm fun _ => hcovered
  refine ⟨htrack ▸ hsafe, fun {other found'} hfound' => ?_, fun hf => ?_⟩
  · rw [htrack]
    obtain ⟨found, hf, rfl⟩ := Table.of_get?_modify hfound'
    split_ifs
    · exact .idle (hothers (h.calls hf)).before rfl
    · exact hothers (h.calls hf)
  · rw [htrack]
    have hquery := h.queries hf
    exact ⟨fun id hm => List.mem_cons_of_mem _ (hquery.before id hm),
      hquery.late, hquery.truthful⟩

lemma enterAction (hph : call.phase = .enter) : Tracked (s.enterAction c call) := by
  have hasi := Aside.prune s
  have hget₁ : s.pruneFileActions.pruneCloseHistory.actionCalls.get? c =
      some call := by
    rw [hasi.calls, hg]
  have h₁ := h.aside hasi
  unfold Session.enterAction
  simp only
  split
  · exact h₁.returnAction hget₁ _
  split
  · exact h₁.rest hget₁ rfl
  · split
    · exact h₁.returnAction hget₁ _
    · exact h₁.startAction hget₁ hph

lemma finishAction (result : ρ) (hasEffect : Bool) (err : Option CallError) :
    Tracked (s.finishAction c call result hasEffect err) := by
  unfold Session.finishAction
  have hasi : Aside s { s.ticked with
      actions := s.actions.modify call.id fun action => { action with
        result := some (result, err)
        outcome := actionOutcome call.operation hasEffect err
        expires := s.time + s.history } } :=
    ⟨.single (.finish s.track call.id fun _ => rfl), rfl, rfl⟩
  exact (h.aside hasi).returnAction hg _

end

lemma stepAction (c : ℕ) (reply : Reply ρ) : Tracked (s.stepAction c reply) := by
  unfold Session.stepAction
  split
  · exact h
  next call hg =>
  split
  · next hph => exact h.inspectAction hg hph
  · next hph => exact h.readEpoch hg hph reply.cancelled
  · next hph => exact h.enterAction hg hph
  · exact h.finishAction hg reply.result reply.hasEffect reply.err
  · unfold Session.wakeAction
    split
    · exact h.returnAction hg _
    · split
      · exact h.rest hg rfl
      · exact h
  · exact h
  · exact h

/-! ## The sections of a query -/

lemma modifyQuery (hg : s.queries.get? q = some query)
    (hquery : QueryCall.Tracked { query with phase } s.track) :
    Tracked { s with queries := s.queries.modify q ({ · with phase }) } := by
  refine ⟨h.safe, h.calls, fun {other found'} hfound' => ?_⟩
  obtain ⟨found, hf, rfl⟩ := Table.of_get?_modify hfound'
  split_ifs with heq
  · rw [heq, hg] at hf
    cases hf
    exact hquery
  · exact h.queries hf

lemma answerQuery (hg : s.queries.get? q = some query)
    (htruthful : ∀ found, receipt = .ok found → query.id ∈ query.before → ¬(found.operation = none ∧ found.outcome = .notExecuted)) :
     Tracked (s.answerQuery q receipt) := by
  refine h.modifyQuery hg ⟨(h.queries hg).before, fun hph => ?_, ?_⟩
  · cases hph
  · intro found hph
    cases hph
    exact htruthful found rfl

lemma beginQuery (q : ℕ) (id : FileActionID) : Tracked (s.beginQuery q id) := by
  unfold Session.beginQuery
  split
  · exact h
  refine ⟨h.safe, h.calls, fun {other found} hf => ?_⟩
  change (s.queries.set q _).get? other = some found at hf
  rw [Table.get?_set] at hf
  split_ifs at hf
  · cases hf
    refine ⟨fun _ hm => hm, fun hph => ?_, fun _ hph => ?_⟩
    · cases hph
    · cases hph
  · exact h.queries hf

lemma inspectQuery (hg : s.queries.get? q = some query) (refused : Option Failure) :
    Tracked (s.inspectQuery q query refused) := by
  have hasi := Aside.prune s
  have hget₁ : s.pruneFileActions.pruneCloseHistory.queries.get? q =
      some query := by
    rw [hasi.queries, hg]
  have h₁ := h.aside hasi
  unfold Session.inspectQuery
  split
  · exact h.answerQuery hg fun _ hok => by cases hok
  · exact h.answerQuery hg fun _ hok => by cases hok
  simp only
  split
  · split
    · exact h₁
    · refine h₁.answerQuery hget₁ fun found hok _ hn => ?_
      cases hok
      cases hn.1
  split
  · refine h₁.answerQuery hget₁ fun found hok _ hn => ?_
    cases hok
    cases hn.1
  next hunk =>
  refine h₁.modifyQuery hget₁ ⟨(h₁.queries hget₁).before, fun _ hm => ?_, fun _ hph => ?_⟩
  · exact h₁.safe.over_of_unknown ((h₁.queries hget₁).before _ hm) hunk
  · cases hph

lemma epochQuery (hg : s.queries.get? q = some query) (hph : query.phase = .epoch)
    (cancelled : Option Failure) : Tracked (s.epochQuery q query cancelled) := by
  have hasi := Aside.epochLocked s cancelled
  have hquery := h.queries hg
  unfold Session.epochQuery
  split
  · exact h.answerQuery hg fun _ hok => by cases hok
  next requested hrequested =>
  split
  · next s₁ err hre =>
    rw [hre] at hasi
    exact (h.aside hasi).answerQuery (hasi.queries ▸ hg) fun _ hok => by cases hok
  next s₁ epoch hre =>
  rw [hre] at hasi
  have hget₁ := hasi.queries ▸ hg
  have h₁ := h.aside hasi
  split
  · exact h₁.answerQuery hget₁ fun _ hok => by cases hok
  refine h₁.answerQuery hget₁ fun found hok hm hn => ?_
  cases hok
  -- the epoch of an executed action is over by now
  have hlate := (epochLocked_over h.safe hre).2 _
    (hquery.before _ hm) (hquery.late hph hm)
  rw [actionEpoch_eq hrequested] at hlate
  obtain ⟨-, hn⟩ := hn
  rw [if_pos hlate] at hn
  cases hn

lemma stepQuery (q : ℕ) (failure : Option Failure) : Tracked (s.stepQuery q failure) := by
  unfold Session.stepQuery
  split
  · exact h
  next query hg =>
  split
  · exact h.inspectQuery hg failure
  · next hph => exact h.epochQuery hg hph failure
  · exact h

/-! ## Runs -/

lemma exec (step : Step ρ) : Tracked (s.exec step) := by
  cases hconcerns : step.concerns with
  | false => exact h.aside (exec_aside s hconcerns)
  | true =>
    cases step with
    | beginAction c id operation digest => exact h.beginAction c id operation digest
    | stepAction c reply => exact h.stepAction c reply
    | beginQuery q id => exact h.beginQuery q id
    | stepQuery q failure => exact h.stepQuery q failure
    | _ => cases hconcerns

end

lemma initial (history : Time) (maxLockActions : ℤ) (lease : Time)
    {now : ℕ → Time} (hclock : Monotone now) :
    Tracked (Session.initial history maxLockActions lease now : Session ρ) where
  safe :=
    { clock := hclock
      deadline := ⟨1, Nat.one_lt_two, rfl⟩
      window := Window.safe_of_unused (by simp [track, Track.window, Session.initial])
      recorded := fun hg => by cases (Table.get?_empty _).symm.trans hg
      expiry := fun hg => by cases (Table.get?_empty _).symm.trans hg }
  calls := fun hg => by cases (Table.get?_empty _).symm.trans hg
  queries := fun hg => by cases (Table.get?_empty _).symm.trans hg

end Tracked

end Session

end ObjectStore
end RemoteFs
