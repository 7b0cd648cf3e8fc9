import RemoteFs.ObjectStore.CloseBook

/-!
# Sections as moves of the book

Every section of a session is a chain of moves of its book, for the close call
that it belongs to or for none.
-/

namespace RemoteFs

open Storage (Failure)

namespace ObjectStore

variable {generation ref : ℕ} {receipt : CloseReceipt}

/-- The error that a phase carries. -/
def ClosePhase.error? : ClosePhase → Option CloseError
  | .recheck err => some err
  | .implicitEnd answer => answer.2
  | .returned answer => answer.2
  | _ => none

/-- The attempt was not admitted, and its epoch is over. -/
structure Book.Missed (b : Book) (ref : ℕ) (attempt : CloseAttempt) : Prop where
  passed : attempt.requested < b.epoch
  never : (ref, attempt) ∉ b.admitted

/-- What a call has established at its program point. -/
structure CloseCall.Fits (call : CloseCall) (b : Book) : Prop where
  positive : call.phase = .inspect ∨ call.phase = .admission → 0 < call.attempt.generation
  implicit : ∀ generation, call.phase = .implicitEpoch generation → 0 < generation
  missed : ∀ epoch, call.phase.error? = some (.notExecuted epoch) → b.Missed call.ref call.attempt

variable {caller : Option (ℕ × CloseAttempt)}

lemma Book.Missed.grows (h : b.Missed ref attempt)
    (hgrows : Grows caller b b') : b'.Missed ref attempt :=
  ⟨h.passed.trans_le hgrows.epoch, hgrows.missed h.passed h.never⟩

lemma CloseCall.Fits.grows {call : CloseCall} {b b' : Book} (h : call.Fits b)
    (hgrows : Book.Grows caller b b') : call.Fits b' :=
  ⟨h.positive, h.implicit, fun epoch herr => (h.missed epoch herr).grows hgrows⟩

namespace Session

open Book (Chain Move)

variable {ρ : Type} {caller : Option (ℕ × CloseAttempt)}

variable {s : Session ρ}

lemma receipt?_eq_some :
    s.receipt? ref generation = some receipt ↔ ∃ r, s.refs.get? ref = some r ∧
        r.receipts.get? generation = some receipt :=
  Option.bind_eq_some_iff

/-! ## Pruning, epochs and generations -/

lemma pruneCloseAction_chain (now : Time) (s : Session ρ) (entry : FileActionID × ℕ × ℕ) :
    Chain caller s.book (pruneCloseAction now s entry).book := by
  unfold pruneCloseAction
  split
  · exact .refl
  next receipt hg =>
  split
  · next hprunable =>
    have hprunable' := hprunable
    simp only [CloseReceipt.prunable, Bool.and_eq_true, decide_eq_true_eq] at hprunable'
    exact .single (Move.drop (b := s.book) hg hprunable'.1.1 hprunable'.1.2)
  · exact .refl

lemma pruneCloseHistory_chain (s : Session ρ) : Chain caller s.book s.pruneCloseHistory.book := by
  unfold pruneCloseHistory pruneCloseHistoryLocked
  have hstart : Chain caller s.book s.ticked.book := .refl
  refine Runs.invariant (motive := fun t : Session ρ => Chain caller s.book t.book) ?_ hstart _
  intro t entry hchain
  exact hchain.trans (pruneCloseAction_chain _ t entry)

lemma advance_chain (s : Session ρ) : Chain caller s.book s.advance.1.book := by
  obtain ⟨epoch, epochUntil, hle, heq⟩ := s.advance_eq
  rw [heq]
  exact .single (Move.advance s.book hle)

lemma initNext_chain (s : Session ρ) (ref : ℕ) : Chain caller s.book (s.initNext ref).book := by
  refine .single (Move.note s.book ref fun r => ⟨rfl, rfl, ?_⟩)
  by_cases hzero : r.next = 0
  · exact .inr ⟨hzero, if_pos hzero⟩
  · exact .inl (if_neg hzero)

lemma receipt?_pruneCloseHistory (hg : s.receipt? ref generation = some receipt)
    (hkeep : CloseReceipt.prunable receipt s.time = false) :
    s.pruneCloseHistory.receipt? ref generation = some receipt := by
  unfold pruneCloseHistory pruneCloseHistoryLocked
  have hstart : s.ticked.receipt? ref generation = some receipt := hg
  refine Runs.invariant (motive := fun t : Session ρ => t.receipt? ref generation = some receipt)
    ?_ hstart _
  intro t entry hg
  unfold pruneCloseAction
  split
  · exact hg
  next found hf =>
  split
  · next hprunable =>
    obtain ⟨r, hr, hreceipt⟩ := receipt?_eq_some.mp hg
    refine receipt?_eq_some.mpr ?_
    rw [Table.get?_modify]
    split_ifs with href
    · rw [← href, hr]
      refine ⟨_, rfl, (Table.get?_erase_ne ?_).trans hreceipt⟩
      intro hgen
      rw [← href, ← hgen, hg] at hf
      cases hf
      cases hkeep.symm.trans hprunable
    · exact ⟨r, hr, hreceipt⟩
  · exact hg

/-! ## The sections of a call -/

/-- What a section of the call `c` does. -/
structure Outcome (s : Session ρ) (c : ℕ) (call : CloseCall) (s' : Session ρ) : Prop where
  chain : Chain (some (call.ref, call.attempt)) s.book s'.book
  call : ∃ call' : CloseCall, (s'.book.Sound → call'.Fits s'.book) ∧
    ∀ other, s'.closeCalls.get? other = if other = c then some call' else s.closeCalls.get? other

/-- A section of the call `c` has come from `s` to `s₁` and has not yet moved the
call. -/
structure Midway (s : Session ρ) (c : ℕ) (call : CloseCall) (s₁ : Session ρ) : Prop where
  get : s.closeCalls.get? c = some call
  chain : Chain (some (call.ref, call.attempt)) s.book s₁.book
  calls : s₁.closeCalls = s.closeCalls

variable {s s₁ : Session ρ} {c : ℕ} {call : CloseCall}

namespace Midway

lemma start (hg : s.closeCalls.get? c = some call) : Midway s c call s := ⟨hg, .refl, rfl⟩

lemma prune (h : Midway s c call s₁) : Midway s c call s₁.pruneCloseHistory :=
  ⟨h.get, h.chain.trans s₁.pruneCloseHistory_chain, s₁.pruneCloseHistory_closeCalls.trans h.calls⟩

lemma init (h : Midway s c call s₁) (ref : ℕ) : Midway s c call (s₁.initNext ref) :=
  ⟨h.get, h.chain.trans (s₁.initNext_chain ref), h.calls⟩

lemma advance (h : Midway s c call s₁) : Midway s c call s₁.advance.1 :=
  ⟨h.get, h.chain.trans s₁.advance_chain, s₁.advance_closeCalls.trans h.calls⟩

variable (h : Midway s c call s₁)
include h

lemma update {change : CloseCall → CloseCall}
    (hfi : s₁.book.Sound → (change call).Fits s₁.book) :
    Outcome s c call { s₁ with closeCalls := s₁.closeCalls.modify c change } := by
  refine ⟨h.chain, change call, hfi, fun other => ?_⟩
  change (s₁.closeCalls.modify c change).get? other = _
  rw [h.calls, Table.get?_modify, h.get]
  rfl

lemma wait (run : ℕ) : Outcome s c call (s₁.setClosePhase c (.wait run)) :=
  h.update fun _ => ⟨by simp, by simp, by simp [ClosePhase.error?]⟩

lemma refused (err : Failure) : Outcome s c call (s₁.setClosePhase c (.recheck (.failed err))) :=
  h.update fun _ => ⟨by simp, by simp, by simp [ClosePhase.error?]⟩

lemma returned (herr : ∀ epoch, answer.2 = some (.notExecuted epoch) →
      s₁.book.Missed call.ref call.attempt) :
    Outcome s c call (s₁.setClosePhase c (.returned answer)) :=
  h.update fun _ => ⟨by simp, by simp, herr⟩

lemma still (hc : s.book.Sound) (hfi : call.Fits s.book) : Outcome s c call s₁ := by
  refine ⟨h.chain, call, fun _ => hfi.grows (h.chain.grows hc), ?_⟩
  intro other
  rw [h.calls]
  split_ifs with heq
  · rw [heq, h.get]
  · rfl

lemma answer {answer : CloseAnswer} (herr : ∀ epoch, answer.2 = some (.notExecuted epoch) →
      s₁.book.Missed call.ref call.attempt) :
    Outcome s c call (s₁.returnClose c call answer) := by
  refine h.update fun _ => ⟨?_, ?_, ?_⟩
  · split_ifs <;> simp
  · split_ifs <;> simp
  · intro epoch h
    refine herr epoch ?_
    revert h
    split_ifs <;> exact id

end Midway

lemma native_ne_notExecuted {err : Option NativeError} {epoch : ℕ} :
    err.map CloseError.native ≠ some (.notExecuted epoch) := by
  cases err <;> simp

lemma existingLocked_outcome (h : Midway s c call s₁)
    (hreceipt : s₁.receipt? call.ref call.attempt.generation = some receipt) :
    Outcome s c call (s₁.existingLocked c call receipt) := by
  unfold existingLocked
  split
  · exact h.answer fun epoch herr => by cases herr
  next haction =>
  split
  · next hunk =>
    have hrelaunch : Midway s c call (s₁.relaunch call.ref call.attempt.generation) :=
      ⟨h.get, h.chain.tail (Move.relaunch (b := s₁.book) rfl hreceipt
        (not_not.mp haction) hunk), h.calls⟩
    exact hrelaunch.wait (s₁.lastRun + 1)
  · exact h.wait receipt.run
  · exact h.answer fun epoch herr => absurd herr native_ne_notExecuted

lemma inspectClose_outcome (hg : s.closeCalls.get? c = some call)
    (hpos : 0 < call.attempt.generation) : Outcome s c call (s.inspectClose c call) := by
  unfold inspectClose
  have hmidway := (Midway.start hg).prune.init call.ref
  simp only
  split
  · next receipt hreceipt => exact existingLocked_outcome hmidway hreceipt
  · exact hmidway.update fun _ => ⟨fun _ => hpos, by simp, by simp [ClosePhase.error?]⟩

lemma admitLocked_outcome (h : Midway s c call s₁) (href : s₁.refs.get? call.ref = some r)
    (hnone : r.receipts.get? call.attempt.generation = none)
    (hpos : 0 < call.attempt.generation) (hep : call.attempt.requested = s₁.epoch) :
    Outcome s c call (s₁.admitLocked c call r) := by
  unfold admitLocked
  split
  · exact h.refused _
  next hopen =>
  rw [not_or, not_not, Bool.not_eq_true] at hopen
  split
  · exact h.refused _
  split
  · exact h.refused _
  have hlaunch : Midway s c call ((s₁.recordAttempt call.ref
      call.attempt).launchClose call.ref call.attempt.generation) :=
    ⟨h.get, h.chain.tail (Move.record (b := s₁.book) rfl href hopen.1 hpos
      hopen.2 hnone hep), h.calls⟩
  exact hlaunch.wait (s₁.lastRun + 1)

lemma admitClose_outcome (h₁ : Midway s c call s₁) (hc : s.book.Sound)
    (hfi : call.Fits s.book) (hpos : 0 < call.attempt.generation) :
    Outcome s c call (s₁.admitClose c call) := by
  unfold admitClose
  have h := h₁.prune
  generalize s₁.pruneCloseHistory = s₂ at h
  simp only
  split
  · exact h.still hc hfi
  next r href =>
  split
  · next receipt hreceipt =>
    exact existingLocked_outcome h (receipt?_eq_some.mpr ⟨r, href, hreceipt⟩)
  next hnone =>
  split
  · exact h.refused _
  next hopen =>
  rw [not_or, not_not, Bool.not_eq_true] at hopen
  split
  · exact h.refused _
  next hnotLater =>
  split
  · next hover =>
    -- the epoch of the attempt is over, and it has no receipt
    refine h.update fun hsound₂ => ⟨by simp, by simp, fun epoch _ => ⟨hover, fun hmem => ?_⟩⟩
    exact (hsound₂.kept href).never_admitted hopen.1 hopen.2 hnone hmem
      rfl
  next hnotEarlier =>
  exact admitLocked_outcome h href hnone hpos (Nat.le_antisymm (Nat.le_of_not_lt hnotLater)
      (Nat.le_of_not_lt hnotEarlier))

section Sections

variable (hg : s.closeCalls.get? c = some call) (hc : s.book.Sound)
include hg

lemma recheckClose_outcome {err : CloseError}
    (herr : ∀ epoch, err = .notExecuted epoch → s.book.Missed call.ref call.attempt) :
    Outcome s c call (s.recheckClose c call err) := by
  unfold recheckClose
  split
  · next receipt hreceipt => exact existingLocked_outcome (.start hg) hreceipt
  · exact (Midway.start hg).answer fun epoch heq => herr epoch (Option.some.inj heq)

include hc

lemma implicitEnd_outcome
    (herr : ∀ epoch, answer.2 = some (.notExecuted epoch) → s.book.Missed call.ref call.attempt) :
    Outcome s c call (s.implicitEnd c call answer) := by
  unfold implicitEnd
  obtain ⟨current, hcur⟩ : ∃ current, current = (s.receipt? call.ref call.attempt.generation).filter
      fun receipt => receipt.action = call.attempt.action := ⟨_, rfl⟩
  obtain ⟨s₁, hs₁⟩ : ∃ s₁, s₁ = if current.isSome then
      s.modifyRef call.ref fun r => { r with implicit := some call.attempt }
    else s := ⟨_, rfl⟩
  have h : Midway s c call s₁ := by
    rw [hs₁]
    split
    · exact ⟨hg, .single (Move.note s.book call.ref fun r => ⟨rfl, rfl, .inl rfl⟩), rfl⟩
    · exact .start hg
  simp only [← hcur, ← hs₁]
  split
  · split
    · exact h.update fun _ => ⟨by simp, by simp, by simp [ClosePhase.error?]⟩
    · exact h.returned fun epoch herr => by cases herr
  · exact h.returned fun epoch heq => (herr epoch heq).grows (h.chain.grows hc)

variable (hfi : call.Fits s.book)
include hfi

lemma admissionClose_outcome (hpos : 0 < call.attempt.generation) (cancelled : Option Failure) :
    Outcome s c call (s.admissionClose c call cancelled) := by
  unfold admissionClose
  have h := (Midway.start hg).advance
  split
  · exact (Midway.start hg).refused _
  split
  · next s₁ err heq =>
    rw [heq] at h
    exact h.refused err
  · next s₁ heq =>
    rw [heq] at h
    exact admitClose_outcome h hc hfi hpos

lemma awaitClose_outcome (run : ℕ) (cancelled : Option Failure) :
    Outcome s c call (s.awaitClose c call run cancelled) := by
  have h := Midway.start hg
  unfold awaitClose
  split
  · exact h.answer fun epoch herr => by cases herr
  · split
    · exact h.still hc hfi
    · exact h.answer fun epoch herr => absurd herr native_ne_notExecuted

lemma implicitRead_outcome : Outcome s c call (s.implicitRead c call) := by
  have h := Midway.start hg
  unfold implicitRead
  split
  · exact h.still hc hfi
  next r href =>
  split
  · exact h.returned fun epoch herr => absurd herr native_ne_notExecuted
  have hpos : 0 < if r.next = 0 then 1 else r.next := by
    split_ifs with hzero
    · exact Nat.one_pos
    · exact Nat.pos_of_ne_zero hzero
  simp only
  split
  · refine (h.init call.ref).update fun _ => ⟨by simp, ?_, by simp [ClosePhase.error?]⟩
    intro generation hph
    cases hph
    exact hpos
  · exact (h.init call.ref).update fun _ => ⟨fun _ => hpos, by simp, by simp [ClosePhase.error?]⟩

lemma implicitEpoch_outcome (hpos : 0 < generation) (cancelled : Option Failure)
    (id : FileActionID) : Outcome s c call (s.implicitEpoch c generation cancelled id) := by
  unfold implicitEpoch
  have h := (Midway.start hg).advance
  split
  · exact (Midway.start hg).returned fun epoch herr => by cases herr
  split
  · next s₁ err heq =>
    rw [heq] at h
    exact h.returned fun epoch herr => by cases herr
  next s₁ heq =>
  rw [heq] at h
  split
  · exact h.update fun _ => ⟨fun _ => hpos, by simp, by simp [ClosePhase.error?]⟩
  · exact h.still hc hfi

lemma stepClose_outcome (cancelled : Option Failure) (id : FileActionID) :
    Outcome s c call (s.stepClose c cancelled id) := by
  obtain ⟨phase, hph⟩ : ∃ phase, call.phase = phase := ⟨_, rfl⟩
  have hmissed := hfi.missed
  unfold stepClose
  simp only [hg, hph] at hmissed ⊢
  cases phase with
  | implicitRead => exact implicitRead_outcome hg hc hfi
  | implicitEpoch generation =>
    exact implicitEpoch_outcome hg hc hfi (hfi.implicit generation hph) cancelled id
  | inspect => exact inspectClose_outcome hg (hfi.positive (.inl hph))
  | admission =>
    exact admissionClose_outcome hg hc hfi (hfi.positive (.inr hph)) cancelled
  | recheck err =>
    exact recheckClose_outcome hg fun epoch heq => hmissed epoch (congrArg some heq)
  | wait run => exact awaitClose_outcome hg hc hfi run cancelled
  | implicitEnd answer => exact implicitEnd_outcome hg hc hmissed
  | returned answer => exact (Midway.start hg).still hc hfi

end Sections

/-! ## The other sections -/

/-- A section of no close call. -/
structure Quiet (s s' : Session ρ) : Prop where
  chain : Chain none s.book s'.book
  calls : s'.closeCalls = s.closeCalls

namespace Quiet

variable {s s' s'' : Session ρ}

lemma refl : Quiet s s := ⟨.refl, rfl⟩

lemma trans (h : Quiet s s') (h' : Quiet s' s'') : Quiet s s'' :=
  ⟨h.chain.trans h'.chain, h'.calls.trans h.calls⟩

lemma of_eq (hsame : (s'.book, s'.closeCalls) = (s.book, s.closeCalls)) : Quiet s s' := by
  obtain ⟨hbook, hcalls⟩ := Prod.mk.inj hsame
  exact ⟨hbook ▸ .refl, hcalls⟩

variable (s : Session ρ) (c : ℕ) (call : ActionCall ρ)

lemma pruneFileActions : Quiet s s.pruneFileActions := of_eq rfl

lemma pruneCloseHistory : Quiet s s.pruneCloseHistory :=
  ⟨s.pruneCloseHistory_chain, s.pruneCloseHistory_closeCalls⟩

lemma prune : Quiet s s.pruneFileActions.pruneCloseHistory :=
  (pruneFileActions s).trans (pruneCloseHistory _)

lemma advance : Quiet s s.advance.1 := ⟨s.advance_chain, s.advance_closeCalls⟩

lemma initNext (ref : ℕ) : Quiet s (s.initNext ref) := ⟨s.initNext_chain ref, rfl⟩

lemma epochLocked (cancelled : Option Failure) : Quiet s (s.epochLocked cancelled).1 := by
  have hadvance := advance s
  unfold Session.epochLocked
  split
  · exact refl
  split
  · exact refl
  · split <;> next heq => rwa [heq] at hadvance

lemma inspectAction : Quiet s (s.inspectAction c call) := by
  unfold Session.inspectAction
  simp only
  split
  · exact of_eq rfl
  have hprune : Quiet s s.ticked.pruneFileActions.pruneCloseHistory :=
    (of_eq rfl : Quiet s s.ticked).trans (prune s.ticked)
  split
  · exact hprune.trans (of_eq rfl)
  · split <;> exact hprune.trans (of_eq rfl)

lemma readEpoch (cancelled : Option Failure) : Quiet s (s.readEpoch c call cancelled) := by
  have hep := epochLocked s cancelled
  unfold Session.readEpoch
  split
  · next heq =>
    rw [heq] at hep
    exact hep.trans (of_eq rfl)
  next heq =>
  rw [heq] at hep
  split
  · exact hep.trans (of_eq rfl)
  · split <;> exact hep.trans (of_eq rfl)

lemma enterAction : Quiet s (s.enterAction c call) := by
  unfold Session.enterAction
  have hprune := prune s
  simp only
  split
  · exact hprune.trans (of_eq rfl)
  split
  · exact hprune.trans (of_eq rfl)
  · split <;> exact hprune.trans (of_eq rfl)

lemma wakeAction (serial : ℕ) (cancelled : Option Failure) :
    Quiet s (s.wakeAction c call serial cancelled) := by
  unfold Session.wakeAction
  split
  · exact of_eq rfl
  · split
    · exact of_eq rfl
    · exact refl

lemma beginAction (id : FileActionID) (operation : Operation)
    (digest : Except Failure Storage.Text) : Quiet s (s.beginAction c id operation digest) := by
  unfold Session.beginAction
  simp only
  split
  · exact refl
  · split
    · exact of_eq rfl
    · split <;> exact of_eq rfl

lemma stepAction (reply : Reply ρ) : Quiet s (s.stepAction c reply) := by
  unfold Session.stepAction
  split
  · exact refl
  next call _ =>
  split
  · exact inspectAction s c call
  · exact readEpoch s c call reply.cancelled
  · exact enterAction s c call
  · exact of_eq rfl
  · exact wakeAction s c call _ reply.cancelled
  · exact refl
  · exact refl

lemma stepQuery (q : ℕ) (failure : Option Failure) : Quiet s (s.stepQuery q failure) := by
  unfold Session.stepQuery
  split
  · exact refl
  next query _ =>
  split
  · unfold inspectQuery
    have hprune := prune s
    split
    · exact of_eq rfl
    · exact of_eq rfl
    simp only
    split
    · split
      · exact hprune
      · exact hprune.trans (of_eq rfl)
    · split <;> exact hprune.trans (of_eq rfl)
  · unfold epochQuery
    have hep := epochLocked s failure
    split
    · exact of_eq rfl
    split
    · next heq =>
      rw [heq] at hep
      exact hep.trans (of_eq rfl)
    next heq =>
    rw [heq] at hep
    split <;> exact hep.trans (of_eq rfl)
  · exact refl

lemma queryClose (ref : ℕ) (attempt : CloseAttempt) (cancelled : Option Failure) :
    Quiet s (s.queryClose ref attempt cancelled).1 := by
  unfold Session.queryClose
  have hadvance := advance s
  split
  · exact refl
  · exact refl
  split
  · next heq => rwa [heq] at hadvance
  next heq =>
  rw [heq] at hadvance
  have hquiet := hadvance.trans ((initNext _ ref).trans (pruneCloseHistory _))
  simp only
  split
  · exact hquiet
  · split
    · exact hquiet
    · split_ifs <;> exact hquiet

lemma statusClose (ref : ℕ) (cancelled : Option Failure) :
    Quiet s (s.statusClose ref cancelled).1 := by
  unfold Session.statusClose
  have hadvance := advance s
  split
  · exact refl
  split
  · next heq => rwa [heq] at hadvance
  next heq =>
  rw [heq] at hadvance
  have hquiet := hadvance.trans ((pruneCloseHistory _).trans (initNext _ ref))
  simp only
  split <;> exact hquiet

end Quiet

end Session

end ObjectStore
end RemoteFs
