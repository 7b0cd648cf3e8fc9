import RemoteFs.Smb.CloseProtocol

/-!
# A close attempt needs evidence

`Knowledge` is what the exchanges so far say about the last attempt that was sent,
and `May` tells which attempts may be sent then.  A status, a receipt or a result counts
only if it passes its check, and a receipt only if it is about that attempt.  Every
attempt of a handle is one of these, whatever the authority answers.
-/

namespace RemoteFs.Smb

variable {p : CloseAttempt} {status : CloseOwnerStatus} {answer : CloseAnswer}

/-- What is known about an attempt that was sent. -/
inductive Fate where
  | unknown
  /-- It was decided and did not release. -/
  | determined
  /-- It missed its epoch; this is the current one. -/
  | missed (epoch : ℕ)
  /-- Its receipt says that it did not execute. -/
  | notExecuted
  /-- After such a receipt the owner was said to be released. -/
  | withdrawn
  deriving DecidableEq

def CloseAnswer.fate (answer : CloseAnswer) : Fate :=
  if answer.released then .unknown
  else
    match answer.missed with
    | some epoch => .missed epoch
    | none => if answer.check && answer.determined then .determined else .unknown

structure Knowledge where
  last : Option CloseAttempt
  fate : Fate
  /-- The last attempt is known to be admitted. -/
  admitted : Bool
  /-- The status that came after the last attempt and its receipt. -/
  status : Option CloseOwnerStatus
  released : Bool

namespace Knowledge

def initial : Knowledge := ⟨none, .unknown, false, none, false⟩

variable (k : Knowledge)

/-- An attempt that is sent is known to be admitted. -/
def admits (attempt : CloseAttempt) : Bool :=
  match k.status with
  | some status => status.current = some attempt
  | none => k.last = some attempt && k.admitted

def learn : Exchange → Knowledge
  | .status status => if status.check then { k with status := some status } else k
  | .receipt attempt r =>
    if k.last = some attempt ∧ r.check = true ∧ r.action = attempt.action ∧
        (r.operation = none ∨ r.operation = some .fileClose) then
      if r.outcome = .notExecuted then { k with fate := .notExecuted, status := none }
      else { k with admitted := k.admitted || r.operation.isSome, status := none }
    else k
  | .close attempt answer =>
    ⟨some attempt, answer.fate, k.admits attempt, none, k.released⟩
  | .closeWithResult _ =>
    if k.fate = .notExecuted && k.status.any (·.released) then
      { k with fate := .withdrawn }
    else k
  | .released => { k with released := true }

/-- The attempt before, if any, is settled for a new one of this generation. -/
def Settled (generation : ℕ) : Prop :=
  k.last = none ∨ k.fate = .determined ∨ k.fate = .withdrawn ∨
    k.fate = .notExecuted ∧ ∃ old ∈ k.last, old.generation < generation

/-- The attempts that may be sent. -/
inductive May : CloseAttempt → Prop
  /-- The last one again. -/
  | again {attempt : CloseAttempt} : k.last = some attempt → May attempt
  /-- The one that the owner reports. -/
  | adopted {attempt : CloseAttempt} {status : CloseOwnerStatus} :
      k.status = some status → status.current = some attempt →
      attempt.generation = status.nextGeneration → May attempt
  /-- A new one of the reported generation and epoch. -/
  | minted {status : CloseOwnerStatus} {nonce : ℕ} :
      k.status = some status → status.ready = true →
      k.Settled status.nextGeneration →
      May ⟨⟨status.currentEpoch, nonce⟩, status.nextGeneration⟩
  /-- The last one in the epoch that it missed. -/
  | reminted {old : CloseAttempt} {epoch nonce : ℕ} :
      k.last = some old → k.fate = .missed epoch → old.action.epoch < epoch →
      k.admitted = false → k.released = false →
      May ⟨⟨epoch, nonce⟩, old.generation⟩

end Knowledge

def knowledge (log : List Exchange) : Knowledge := log.foldl Knowledge.learn .initial

@[simp] lemma knowledge_append (log : List Exchange) (exchange : Exchange) :
    knowledge (log ++ [exchange]) = (knowledge log).learn exchange := by
  simp [knowledge]

/-- Every attempt in the log may be sent when it is. -/
inductive Legal : List Exchange → Prop
  | nil : Legal []
  | snoc {log : List Exchange} {exchange : Exchange} : Legal log →
      (∀ attempt answer, exchange = .close attempt answer → (knowledge log).May attempt) →
      Legal (log ++ [exchange])

namespace ClosingHandle

variable {σ : Type} {a : CloseAuthority σ} {h : ClosingHandle}

/-- What the handle remembers, compared with what is known. -/
structure Sound (h : ClosingHandle) : Prop where
  acts : h.attempt.isSome → h.hasActions = true
  legal : Legal h.log
  attempt : ∀ p, h.attempt = some p → (knowledge h.log).last = some p
  vacant : h.attempt = none → (knowledge h.log).last = none ∨
    (knowledge h.log).fate = .determined ∨ (knowledge h.log).fate = .withdrawn
  admitted : h.attempt.isSome → h.attemptAdmitted = false → (knowledge h.log).admitted = false
  remint : h.remintEpoch ≠ 0 → ∃ p, h.attempt = some p ∧
    (knowledge h.log).fate = .missed h.remintEpoch ∧ p.action.epoch < h.remintEpoch ∧
    (knowledge h.log).admitted = false ∧ (knowledge h.log).released = false ∧
    (knowledge h.log).status = none
  status : h.attempt.isSome → ∀ status, (knowledge h.log).status = some status →
    status.current = none
  released : (knowledge h.log).released = h.released

/-- The handle is about to send an attempt. -/
structure Poised (h : ClosingHandle) (p : CloseAttempt) : Prop where
  acts : h.hasActions = true
  legal : Legal h.log
  attempt : h.attempt = some p
  may : (knowledge h.log).May p
  admitted : h.attemptAdmitted = false → (knowledge h.log).admits p = false
  remint : h.remintEpoch ≠ 0 → (knowledge h.log).last = some p ∧
    (knowledge h.log).fate = .missed h.remintEpoch ∧ p.action.epoch < h.remintEpoch ∧
    (knowledge h.log).admitted = false ∧ (knowledge h.log).released = false ∧
    (knowledge h.log).status = none
  released : (knowledge h.log).released = h.released

lemma Sound.poised (hs : h.Sound) (hp : h.attempt = some p) : h.Poised p := by
  have hla := hs.attempt p hp
  refine ⟨hs.acts (by simp [hp]), hs.legal, hp, .again hla, fun hnot => ?_, fun hne => ?_, hs.released⟩
  · unfold Knowledge.admits
    split
    case _ status hstatus => simp [hs.status (by simp [hp]) status hstatus]
    case _ => simp [hs.admitted (by simp [hp]) hnot]
  · obtain ⟨q, hq, hrest⟩ := hs.remint hne
    cases hp.symm.trans hq
    exact ⟨hla, hrest⟩

lemma Sound.noteStatus (hs : h.Sound) (hze : h.remintEpoch = 0)
    (hch : status.check = true) (hcur : status.current = none) :
    (h.note (.status status)).Sound := by
  refine ⟨hs.acts, .snoc hs.legal (fun _ _ heq => by cases heq), ?_, ?_, ?_,
    fun hne => absurd hze hne, ?_, ?_⟩ <;>
    simp only [ClosingHandle.note, knowledge_append, Knowledge.learn, hch, if_true]
  · exact hs.attempt
  · exact hs.vacant
  · exact hs.admitted
  · rintro - _ ⟨⟩
    exact hcur
  · exact hs.released

/-- A result is accepted; a determined one that did not release ends the attempt. -/
lemma Sound.acceptCloseResult (hs : h.Sound)
    (hremint : answer.released = true → h.remintEpoch = 0)
    (hfate : answer.check = true → answer.determined = true → answer.released = false →
      h.attempt.isSome → (knowledge h.log).fate = .determined) :
    (h.acceptCloseResult answer).Sound := by
  unfold ClosingHandle.acceptCloseResult
  split_ifs with hch hr hold hdetermined
  · exact hs
  · refine ⟨hs.acts, .snoc hs.legal (fun _ _ heq => by cases heq),
      ?_, ?_, ?_, ?_, ?_, ?_⟩ <;>
      simp only [ClosingHandle.note, knowledge_append, Knowledge.learn]
    · exact hs.attempt
    · exact hs.vacant
    · exact hs.admitted
    · exact fun hne => absurd (hremint hr) hne
    · exact hs.status
  · exact hs
  · rw [Bool.and_eq_true] at hdetermined
    refine ⟨by simp, hs.legal, by simp, fun _ => .inr (.inl ?_), by simp, by simp, by simp,
      hs.released⟩
    exact hfate (by simpa using hch) hdetermined.1 (by simpa using hr) hdetermined.2
  · exact hs

lemma Poised.send (hp : h.Poised p) (hze : h.remintEpoch = 0)
    (answer : CloseAnswer) : (h.note (.close p answer)).Sound := by
  refine ⟨fun _ => hp.acts, .snoc hp.legal fun _ _ heq => ?_, ?_, ?_, ?_, ?_, ?_, ?_⟩
  · cases heq
    exact hp.may
  all_goals simp only [ClosingHandle.note, knowledge_append, Knowledge.learn]
  · exact fun q hq => hp.attempt.symm.trans hq
  · simp [hp.attempt]
  · exact fun _ => hp.admitted
  · exact fun hne => absurd hze hne
  · simp
  · exact hp.released

lemma Poised.remintCloseAttempt (hp : h.Poised p) {s s' : σ} {attempt : CloseAttempt}
    {h' : ClosingHandle} (heq : h.remintCloseAttempt a s = (some attempt, h', s')) :
    h'.Poised attempt ∧ h'.remintEpoch = 0 := by
  unfold ClosingHandle.remintCloseAttempt at heq
  split_ifs at heq with hze
  · simp only [Prod.mk.injEq] at heq
    obtain ⟨hattempt, rfl, -⟩ := heq
    cases hp.attempt.symm.trans hattempt
    exact ⟨hp, hze⟩
  obtain ⟨hla, hfate, hlt, hadm, hr, hstatus⟩ := hp.remint hze
  split at heq
  case _ nonce later old hnonce hold =>
    cases hp.attempt.symm.trans hold
    cases heq
    refine ⟨⟨hp.acts, hp.legal, rfl, .reminted hla hfate hlt hadm hr, fun _ => ?_,
      by simp, hp.released⟩, rfl⟩
    have hne : p ≠ ⟨⟨h.remintEpoch, nonce⟩, p.generation⟩ := by
      intro heq
      rw [heq] at hlt
      exact lt_irrefl _ hlt
    simp [Knowledge.admits, hstatus, hla, hne]
  · cases heq

/-- What an attempt leaves, with its answer. -/
structure Answered (answer : CloseAnswer) (h : ClosingHandle) : Prop where
  sound : h.Sound
  released : answer.released = true → h.remintEpoch = 0
  determined : answer.check = true → answer.determined = true → answer.released = false →
    (knowledge h.log).fate = .determined

lemma Sound.answered (hs : h.Sound) : Answered .failure h :=
  ⟨hs, by simp [CloseAnswer.failure], by simp [CloseAnswer.failure]⟩

lemma Answered.accept (hans : Answered answer h) : (h.acceptCloseResult answer).Sound :=
  hans.sound.acceptCloseResult hans.released fun hch hdet hrel _ =>
    hans.determined hch hdet hrel

/-- The loop of an attempt, by induction on the tries that are left. -/
lemma Poised.runCloseAttempt {left : ℕ} (hleft : left ≠ 0) (hp : h.Poised p) (s : σ) :
    Answered (runCloseAttempt a left h s).1 (runCloseAttempt a left h s).2.1 := by
  induction left generalizing h p s with
  | zero => exact absurd rfl hleft
  | succ left ih =>
    rw [ClosingHandle.runCloseAttempt]
    split
    case _ h' s' hn =>
      -- no identity could be made: the attempt that missed its epoch is kept
      unfold ClosingHandle.remintCloseAttempt at hn
      split_ifs at hn with hze
      · simp [hp.attempt] at hn
      obtain ⟨hla, hrest⟩ := hp.remint hze
      have hsame : h' = h := by
        split at hn
        · cases hn
        · cases hn
          rfl
      rw [hsame]
      refine Sound.answered ⟨fun _ => hp.acts, hp.legal, ?_, ?_, ?_, ?_, ?_, hp.released⟩
      · exact fun q hq => hla.trans (hp.attempt.symm.trans hq)
      · simp [hp.attempt]
      · exact fun _ _ => hrest.2.2.1
      · exact fun _ => ⟨p, hp.attempt, hrest⟩
      · simp [hrest.2.2.2.2]
    case _ attempt h' s' hsome =>
      obtain ⟨hpoised, hze⟩ := hp.remintCloseAttempt hsome
      cases hcall : a.closeWithAction attempt s' with
      | mk answer later =>
      have hse := hpoised.send hze answer
      have hattempt := hpoised.attempt
      simp only
      cases hmissed : answer.missed with
      | none =>
        refine ⟨hse, fun _ => hze, fun hch hdet hrel => ?_⟩
        simp only at hch hdet hrel
        simp [ClosingHandle.note, Knowledge.learn, CloseAnswer.fate, hmissed, hch, hdet, hrel]
      | some epoch =>
        simp only
        split_ifs with hstop hla
        · exact hse.answered
        all_goals
          simp only [Bool.or_eq_true, decide_eq_true_eq, not_or, Bool.not_eq_true, not_le] at hstop
          obtain ⟨⟨⟨hadm, hnot⟩, hr⟩, hlt⟩ := hstop
          have hremint : Sound { h'.note (.close attempt answer) with
              remintEpoch := epoch } := by
            refine ⟨hse.acts, hse.legal, hse.attempt, hse.vacant, hse.admitted,
              fun _ => ⟨attempt, hattempt, ?_, hlt, ?_, ?_, ?_⟩, hse.status,
              hse.released⟩
            · simp [ClosingHandle.note, Knowledge.learn, CloseAnswer.fate, hmissed, hnot]
            · exact hse.admitted (by simp [ClosingHandle.note, hattempt]) hadm
            · exact hse.released.trans hr
            · simp [ClosingHandle.note, Knowledge.learn]
        · exact hremint.answered
        · exact ih hla (hremint.poised hattempt) later

lemma Poised.runAndAccept (hp : h.Poised p) (s : σ) : (h.runAndAccept a s).1.Sound :=
  (hp.runCloseAttempt two_ne_zero s).accept

lemma closePlain_sound (hlegal : Legal h.log) (hn : h.attempt = none)
    (hze : h.remintEpoch = 0) (hr : (knowledge h.log).released = h.released)
    (hvacant : (knowledge h.log).last = none ∨ (knowledge h.log).fate = .determined ∨
      (knowledge h.log).fate = .withdrawn ∨ (knowledge h.log).fate = .notExecuted ∧
        (knowledge h.log).status.any (·.released)) (s : σ) : (h.closePlain a s).1.Sound := by
  refine Sound.acceptCloseResult (h := h.note _) ?_ (fun _ => hze) ?_
  · refine ⟨?_, .snoc hlegal (fun _ _ heq => by cases heq), ?_, fun _ => ?_, ?_,
      fun hne => absurd hze hne, ?_, ?_⟩ <;>
      simp only [ClosingHandle.note, knowledge_append, Knowledge.learn, hn]
    · simp
    · simp
    · split_ifs with hwithdrawn
      · exact .inr (.inr rfl)
      · rw [Bool.and_eq_true, decide_eq_true_eq] at hwithdrawn
        tauto
    · simp
    · simp
    · split_ifs <;> exact hr
  · simp [ClosingHandle.note, hn]

lemma Sound.remint_of_none (hs : h.Sound) (hn : h.attempt = none) : h.remintEpoch = 0 := by
  by_contra hne
  obtain ⟨p, hp, -⟩ := hs.remint hne
  simp [hn] at hp

lemma current_of_check (hch : status.check = true) (hcur : status.current = some current) :
    current.generation = status.nextGeneration := by
  simp only [CloseOwnerStatus.check, hcur, Bool.and_eq_true, decide_eq_true_eq] at hch
  exact hch.2.1.2

lemma Sound.adopt (hs : h.Sound) (hac : h.hasActions = true) (hze : h.remintEpoch = 0)
    (hch : status.check = true) (hcur : status.current = some current) :
    Poised { h.note (.status status) with
      attempt := some current, attemptAdmitted := true } current := by
  refine ⟨hac, .snoc hs.legal (fun _ _ heq => by cases heq), rfl,
    .adopted ?_ hcur (current_of_check hch hcur),
    (fun hnot => by cases hnot), fun hne => absurd hze hne, ?_⟩ <;>
    simp [ClosingHandle.note, Knowledge.learn, hch, hs.released]

lemma Sound.mint (hs : h.Sound) (hac : h.hasActions = true)
    (hze : h.remintEpoch = 0) (hch : status.check = true) (hcur : status.current = none)
    (hrd : status.ready = true)
    (hsettled : (knowledge h.log).Settled status.nextGeneration) (nonce : ℕ) {admitted : Bool} :
    Poised { h.note (.status status) with
      attempt := some ⟨⟨status.currentEpoch, nonce⟩, status.nextGeneration⟩
      attemptAdmitted := admitted } ⟨⟨status.currentEpoch, nonce⟩, status.nextGeneration⟩ := by
  have hlearn : (knowledge (h.log ++ [.status status])).status = some status := by
    simp [Knowledge.learn, hch]
  refine ⟨hac, .snoc hs.legal (fun _ _ heq => by cases heq), rfl, .minted hlearn hrd ?_,
    fun _ => ?_, fun hne => absurd hze hne, ?_⟩
  · simpa [ClosingHandle.note, Knowledge.learn, Knowledge.Settled, hch] using hsettled
  · simp [ClosingHandle.note, Knowledge.admits, Knowledge.learn, hch, hcur]
  · simp [ClosingHandle.note, Knowledge.learn, hch, hs.released]

lemma Answered.resume (hans : Answered answer h) (hze : h.remintEpoch = 0)
    (hold : h.attempt = some old) (hfate : (knowledge h.log).fate = .notExecuted)
    (hdetermined : answer.determined = false) (s : σ) : (h.resume a old answer s).1.Sound := by
  have hs := hans.sound
  have hla := hs.attempt old hold
  have hac := hs.acts (by simp [hold])
  have haccept : ∀ {h' : ClosingHandle}, h'.Sound → h'.remintEpoch = 0 →
      (h'.acceptCloseResult answer).Sound := by
    intro h' hs' hzero'
    exact hs'.acceptCloseResult (fun _ => hzero') (by simp [hdetermined])
  unfold ClosingHandle.resume
  split
  · exact haccept hs hze
  case _ status later heq =>
    split
    · exact haccept hs hze
    case _ hch =>
    rw [Bool.not_eq_true', Bool.not_eq_false] at hch
    simp only
    split
    case _ current hcur => exact (hs.adopt hac hze hch hcur).runAndAccept later
    case _ hcur =>
      have hno := hs.noteStatus hze hch hcur
      split_ifs with hr hrd
      · refine closePlain_sound (h := { h.note (.status status) with attempt := none })
          hno.legal rfl hze hno.released ?_ later
        simp [ClosingHandle.note, Knowledge.learn, hch, hfate, hr]
      · rw [Bool.and_eq_true, decide_eq_true_eq] at hrd
        split
        · exact hno
        case _ nonce later' hnonce =>
          refine (hs.mint hac hze hch hcur hrd.1 ?_ nonce).runAndAccept later'
          exact .inr (.inr (.inr ⟨hfate, old, hla, hrd.2⟩))
      · exact haccept hno hze

lemma learn_receipt {k : Knowledge} {r : FileActionReceipt CloseAction}
    (hla : k.last = some p) (hr : Believed p r) : k.learn (.receipt p r) =
      if r.outcome = .notExecuted then { k with fate := .notExecuted, status := none }
      else { k with admitted := k.admitted || r.operation.isSome, status := none } :=
  if_pos ⟨hla, hr⟩

lemma Sound.noteReceipt (hs : h.Sound) (hze : h.remintEpoch = 0)
    (hp : h.attempt = some p) (r : FileActionReceipt CloseAction) (hr : Believed p r) :
    Sound { h.note (.receipt p r) with
      attemptAdmitted := h.attemptAdmitted ||
        (r.operation.isSome && r.outcome ≠ FileActionOutcome.notExecuted) } := by
  have hla := hs.attempt p hp
  refine ⟨hs.acts, .snoc hs.legal (fun _ _ heq => by cases heq), ?_, ?_, ?_,
    fun hne => absurd hze hne, ?_, ?_⟩ <;>
    simp only [ClosingHandle.note, knowledge_append, learn_receipt hla hr]
  · intro q hq
    split_ifs <;> exact hla.trans (hp.symm.trans hq)
  · simp [hp]
  · intro hsome hnot
    rw [Bool.or_eq_false_iff] at hnot
    have hadm := hs.admitted hsome hnot.1
    split_ifs with hout
    · exact hadm
    · simpa [hadm, hout] using hnot.2
  · intro _ status
    split_ifs <;> simp
  · split_ifs <;> exact hs.released

lemma Poised.attemptClose (hp : h.Poised p) (s : σ) : (h.attemptClose a s).1.Sound := by
  have hans := hp.runCloseAttempt (a := a) two_ne_zero s
  unfold ClosingHandle.attemptClose
  simp only
  split
  case isTrue hopen =>
    simp only [Bool.and_eq_true, Bool.not_eq_true', decide_eq_true_eq] at hopen
    obtain ⟨⟨⟨-, -⟩, hdetermined⟩, hze⟩ := hopen
    split
    · exact hans.accept
    case _ old hold =>
      split
      · exact hans.accept
      case _ r later heq =>
        split_ifs with hbelieved
        · have hno := hans.sound.noteReceipt hze hold r hbelieved.1
          simp only [hbelieved.2, ne_eq, not_true_eq_false, decide_false, Bool.and_false,
            Bool.or_false] at hno
          refine Answered.resume ⟨hno, fun _ => hze, ?_⟩ hze hold ?_ hdetermined later
          · simp [hdetermined]
          · have hlearn := learn_receipt (hans.sound.attempt old hold) hbelieved.1
            simp only [ClosingHandle.note, knowledge_append, hlearn, if_pos hbelieved.2]
        · exact hans.accept
  case isFalse => exact hans.accept

lemma Sound.closeFileHandlePrepared (hs : h.Sound) (s : σ) :
    (h.closeFileHandlePrepared a s).1.Sound := by
  unfold ClosingHandle.closeFileHandlePrepared
  split
  case isTrue ha =>
    rw [Bool.not_eq_true'] at ha
    have hn : h.attempt = none := by
      by_contra hne
      have hac := hs.acts (Option.ne_none_iff_isSome.mp hne)
      simp [hac] at ha
    split
    · exact hs
    · exact closePlain_sound hs.legal hn (hs.remint_of_none hn) hs.released
        ((hs.vacant hn).imp_right (.imp_right .inl)) s
  case isFalse hac =>
    rw [Bool.not_eq_true', Bool.not_eq_false] at hac
    split
    case _ hn =>
      have hze := hs.remint_of_none hn
      split
      · exact hs
      case _ status later heq =>
        split
        · exact hs
        case _ hch =>
        rw [Bool.not_eq_true', Bool.not_eq_false] at hch
        simp only
        split
        case _ current hcur => exact (hs.adopt hac hze hch hcur).attemptClose later
        case _ hcur =>
          have hno := hs.noteStatus hze hch hcur
          split
          · refine closePlain_sound hno.legal hn hze hno.released ?_ later
            exact (hno.vacant hn).imp_right (.imp_right .inl)
          split
          · exact hno
          case _ hrd =>
          rw [Bool.not_eq_true', Bool.not_eq_false] at hrd
          split
          · exact hno
          case _ nonce later' hnonce =>
            refine (hs.mint hac hze hch hcur hrd ?_ nonce).attemptClose later'
            exact (hs.vacant hn).imp_right (.imp_right .inl)
    case _ attempt hattempt =>
      split
      · exact (hs.poised hattempt).attemptClose s
      case _ hquery =>
        split
        · exact hs
        case _ r later heq =>
          split
          · exact hs
          case _ hdoubt =>
            have hidle : h.released = false ∧ h.remintEpoch = 0 := by simpa using hquery
            have hr : Believed attempt r := not_not.mp (not_or.mp hdoubt).1
            exact ((hs.noteReceipt hidle.2 hattempt r hr).poised hattempt).attemptClose later

/-- Whatever the authority answers, over any number of closes: an attempt is sent
only when what is known allows it, so that a new action needs evidence about the
attempt before, or is the one that the owner reports. -/
theorem attempts_have_evidence (a : CloseAuthority σ) (hasActions published : Bool)
    (closes : ℕ) (s : σ) :
    Legal (run a hasActions published closes s).1.log := by
  have hc : (run a hasActions published closes s).1.Sound := by
    induction closes with
    | zero =>
      refine ⟨by simp [run, opened], .nil, ?_, fun _ => .inl rfl, ?_, ?_, ?_, rfl⟩ <;>
        simp [run, opened]
    | succ closes ih => exact ih.closeFileHandlePrepared _
  exact hc.legal

/-- An authority that releases the reference and stays unsettled. -/
def unsettled : CloseAuthority Unit where
  closeWithAction _ s := (⟨true, true, true, none, some true⟩, s)
  queryCloseAttempt _ s := (none, s)
  closeOwnerStatus s := (some ⟨false, true, none, none, 1, 1⟩, s)
  closeWithResult s := (.failure, s)
  newNonce _ s := (some 7, s)

/-- An authority that executes nothing, whose owner is said to be released in the second
of its statuses. -/
def withdrawing : CloseAuthority ℕ where
  closeWithAction _ s := (.failure, s)
  queryCloseAttempt attempt s := (some ⟨attempt.action, none, .notExecuted⟩, s)
  closeOwnerStatus s := (some ⟨s = 1, s ≠ 1, none, none, 5, 1⟩, s + 1)
  closeWithResult s := (.failure, s)
  newNonce _ s := (some s, s)

/-- The attempt is sent again after its release was recorded; and once an owner was said
to be released, a new action of the same generation follows one that did not execute. -/
theorem closes_after_release :
    (∃ answer status, (run unsettled true true 2 ()).1.log =
      [.status status, .close ⟨⟨1, 7⟩, 1⟩ answer, .released,
        .close ⟨⟨1, 7⟩, 1⟩ answer, .released]) ∧
    ∃ ready released receipt later, (run withdrawing true true 2 0).1.log =
      [.status ready, .close ⟨⟨1, 1⟩, 5⟩ .failure, .receipt ⟨⟨1, 1⟩, 5⟩ receipt,
        .status released, .closeWithResult .failure, .status ready,
        .close ⟨⟨1, 3⟩, 5⟩ .failure] ++ later :=
  ⟨⟨_, _, rfl⟩, _, _, _, _, rfl⟩

end ClosingHandle

end RemoteFs.Smb
