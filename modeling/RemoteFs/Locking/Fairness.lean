import RemoteFs.Lib.Fifo
import RemoteFs.Locking.Exclusion

/-!
# Fairness of the queues

The queue of a resource loses an action exactly when the action is decided and
gains one only at its end.  A grant goes to the head of the queue, or past an
empty queue, so no acquisition overtakes a pending one that was queued before it.
-/

namespace RemoteFs.Locking

open Authority

variable {a a' : Authority} {ref : ActionRef} {t : Terms} {id : ResourceID}

def Authority.pending (a : Authority) (ref : ActionRef) : Bool :=
  (a.actionRecords.get? ref).any (·.receipt.outcome = .pending)

def Authority.Granted (a : Authority) (ref : ActionRef) (id : ResourceID) : Prop :=
  ∃ action, a.actionRecords.get? ref = some action ∧
    action.receipt.outcome = .granted ∧ action.resource = some id

lemma pending_eq_true : a.pending ref = true ↔ ∃ action, a.actionRecords.get? ref = some action ∧
      action.receipt.outcome = .pending := by
  unfold pending
  rw [Option.any_eq_true]
  simp

lemma not_pending (hg : a.actionRecords.get? ref = some action)
    (hse : action.receipt.outcome ≠ .pending) : a.pending ref = false := by
  unfold pending
  rw [hg]
  simpa using hse

lemma Actions.pending_of_mem (h : Actions a) (id : ResourceID) (hm : ref ∈ a.queue id) :
    a.pending ref = true := by
  obtain ⟨r, hr, hqueued⟩ := mem_queue.mp hm
  obtain ⟨action, hg, hp, -⟩ := h.queued hr hqueued
  exact pending_eq_true.mpr ⟨action, hg, hp⟩

lemma Actions.nodup_queue (h : Actions a) (id : ResourceID) : (a.queue id).Nodup := by
  unfold queue
  cases hg : a.resourceRecords.get? id with
  | none => exact List.nodup_nil
  | some r => exact h.queueNodup hg

lemma queue_eq_of_agree (hagree : Table.Agree ResourceRecord.queue a.resourceRecords
      a'.resourceRecords) (id : ResourceID) : a'.queue id = a.queue id :=
  congrArg (Option.getD · []) (hagree id)

/-! ## Records over time -/

lemma Move.known (hmv : Move t a a') (hsome : (a.actionRecords.get? ref).isSome) :
    (a'.actionRecords.get? ref).isSome := by
  obtain ⟨action, hg⟩ := Option.isSome_iff_exists.mp hsome
  obtain ⟨action', hget', -⟩ := hmv.continues hg
  exact Option.isSome_iff_exists.mpr ⟨action', hget'⟩

lemma Move.pending_before (hmv : Move t a a') (hsome : (a.actionRecords.get? ref).isSome)
    (hp : a'.pending ref = true) : a.pending ref = true := by
  obtain ⟨action, hg⟩ := Option.isSome_iff_exists.mp hsome
  by_contra hnot
  have hse : action.receipt.outcome ≠ .pending := fun heq =>
    hnot (pending_eq_true.mpr ⟨action, hg, heq⟩)
  obtain ⟨action', hget', hnext⟩ := hmv.continues hg
  obtain ⟨found, hf, hstill⟩ := pending_eq_true.mp hp
  cases hget'.symm.trans hf
  have hreceipt := (Prod.mk.inj (hnext.verdict hse)).1
  rw [hreceipt] at hstill
  exact hse hstill

/-- The move that grants an acquisition finds it at the head of the queue or
finds the queue empty. -/
lemma Move.granted (hmv : Move t a a') (hgr : a'.Granted ref id) :
    a.Granted ref id ∨ a.pending ref = true ∧ (a.queue id = [] ∨ (a.queue id).head? = some ref) ∧
        ∀ other, other ≠ ref → a'.pending other = a.pending other := by
  obtain ⟨action', hget', hout, hres⟩ := hgr
  have hkeeps : Table.Agree (fun action : ActionRecord =>
      (action.receipt.outcome, action.resource)) a.actionRecords
        a'.actionRecords → a.Granted ref id := by
    intro hagree
    obtain ⟨action, hg, hs⟩ := hagree.exists hget'
    obtain ⟨hs, hplace⟩ := Prod.mk.inj hs
    exact ⟨action, hg, hs.symm.trans hout, hplace.symm.trans hres⟩
  cases hmv with
  | @finish ref₀ action outcome code hget₀ hp hfruitless =>
    obtain ⟨action, hg, rfl⟩ := Table.of_get?_modify hget'
    split_ifs at hout hres with heq
    · change outcome = .granted at hout
      rw [hout] at hfruitless
      cases hfruitless
    · exact .inl ⟨action, hg, hout, hres⟩
  | @enroll ref₀ o receipt tombstone howner hnew hintent hstart =>
    rcases Table.set_cases hget' with ⟨-, rfl⟩ | ⟨-, hget'⟩
    · change receipt.outcome = .granted at hout
      rw [hout] at hstart
      simp at hstart
    · exact .inl ⟨action', hget', hout, hres⟩
  | @hold ref₀ receipt o place r grant started hget₀ hp =>
    obtain ⟨action, hg, rfl⟩ := Table.of_get?_modify hget'
    split_ifs at hout hres with heq
    · rw [heq, hget₀] at hg
      cases hg
      change receipt.outcome = .granted at hout
      cases hp.symm.trans hout
    · exact .inl ⟨action, hg, hout, hres⟩
  | phase => exact .inl (hkeeps (setPhase_actions rfl))
  | enqueue | attempt => exact .inl (hkeeps (.edit rfl))
  | @issue ref₀ action o place r request job hg hp _ _ hplace _ hrecord
      _ _ hturn =>
      by_cases heq : ref = ref₀
      · rw [heq]
        rw [heq, issue_action hg] at hget'
        cases hget'
        have hs : place = id := Option.some.inj (hplace.symm.trans hres)
        refine .inr ⟨pending_eq_true.mpr ⟨action, hg, hp⟩, ?_, ?_⟩
        · have hqueue : a.queue id = r.queue := by
            unfold queue
            rw [← hs, hrecord]
            rfl
          rwa [hqueue]
        · intro other hne
          unfold pending
          rw [issue_other hne]
      · rw [issue_other heq] at hget'
        exact .inl ⟨action', hget', hout, hres⟩
  | @prolong ref₀ action o place r grant g request hg =>
    by_cases heq : ref = ref₀
    · rw [heq, prolong_action hg] at hget'
      cases hget'
      cases hout
    · rw [prolong_other heq] at hget'
      exact .inl ⟨action', hget', hout, hres⟩
  | unhold => exact .inl (hkeeps (unhold_actions rfl))
  | noteAction change hlike =>
    refine .inl (hkeeps (.modify fun found _ => ?_))
    exact Prod.ext (congrArg ActionReceipt.outcome (hlike found).receipt) (hlike found).resource
  | _ => exact .inl ⟨action', hget', hout, hres⟩

/-! ## The queue over time -/

/-- A decided action leaves the queue it waits in, and no other. -/
lemma finishPending_queue (outcome : ActionOutcome) (code : Option Code) (id : ResourceID) :
    (a.finishPending ref action outcome code).queue id = a.queue id ∨
      (a.finishPending ref action outcome code).queue id = (a.queue id).erase ref := by
  by_cases hwait : action.waitUntil.isSome
  · cases hplace : action.resource with
    | none =>
      left
      refine queue_eq_of_agree (.of_eq ?_) id
      simp [Authority.finishPending, hwait, hplace, dequeue]
    | some place =>
      have hrecords : (a.finishPending ref action outcome
          code).resourceRecords = a.resourceRecords.modify place
            fun r => { r with queue := r.queue.erase ref } := by
        simp [Authority.finishPending, hwait, hplace, dequeue]
      unfold queue
      rw [hrecords, Table.get?_modify]
      split_ifs with heq
      · right
        rw [heq]
        cases a.resourceRecords.get? place <;> rfl
      · exact .inl rfl
  · left
    refine queue_eq_of_agree (.of_eq ?_) id
    simp [Authority.finishPending, hwait]

lemma Core.later (h : Core a) (hmv : Move t a a') (id : ResourceID) :
    Fifo.Later a'.pending (a.queue id) (a'.queue id) := by
  have hco := h.move hmv
  have hs : a'.queue id = a.queue id → Fifo.Later a'.pending (a.queue id) (a'.queue id) := by
    intro heq
    rw [heq]
    refine .refl fun ref hm => hco.actions.pending_of_mem id ?_
    rwa [heq]
  have herase : ∀ ref, a'.pending ref = false →
      (a'.queue id = a.queue id ∨ a'.queue id = (a.queue id).erase ref) →
        Fifo.Later a'.pending (a.queue id) (a'.queue id) := by
    intro ref hgone hqueue
    rcases hqueue with heq | heq
    · exact hs heq
    rw [heq]
    refine .erase (h.actions.nodup_queue id) ?_ hgone
    intro other hm
    refine hco.actions.pending_of_mem id ?_
    rwa [heq]
  have hkeeps : Table.Agree ResourceRecord.queue a.resourceRecords
      a'.resourceRecords → Fifo.Later a'.pending (a.queue id) (a'.queue id) :=
    fun hagree => hs (queue_eq_of_agree hagree id)
  cases hmv with
  | endGrant | hold | attempt => exact hkeeps (.edit rfl)
  | @finish ref action outcome code hg hp hfruitless =>
    refine herase ref ?_ (finishPending_queue outcome code id)
    refine not_pending (finishPending_action hg outcome code) ?_
    rintro (rfl : outcome = .pending)
    exact hfruitless
  | @adopt key hnew =>
    refine hs ?_
    by_cases heq : id = a.lastToken + 1
    · have hfresh := heq ▸ h.tokens.fresh_resource
      have hempty : (a.adopt key).queue id = [] := by
        unfold queue
        change (((Table.set _ _ _).get? id).map _).getD [] = []
        rw [heq, Table.get?_set_self]
        rfl
      rw [hempty]
      unfold queue
      rw [hfresh]
      rfl
    · unfold queue
      change (((Table.set _ _ _).get? id).map _).getD [] = _
      rw [Table.get?_set_ne heq]
  | tidy change hlike => exact hkeeps (.modify fun r hr => (hlike r hr).queue)
  | phase => exact hkeeps (setPhase_resources rfl)
  | @enqueue ref action o place r request hg hp hcall hwait hacquire
      hres howner hrecord =>
      by_cases heq : id = place
      · have hpush : (a.enqueue ref place (action.started +
            request.wait)).queue id = a.queue id ++ [ref] := by
          unfold queue
          change (((Table.modify _ _ _).get? id).map _).getD [] = _
          rw [heq, Table.get?_modify_self, hrecord]
          rfl
        have habsent : ref ∉ a.queue id := by
          intro hm
          obtain ⟨r', hr', hqueued⟩ := mem_queue.mp hm
          obtain ⟨found, hf, -, hsome, -⟩ := h.actions.queued hr' hqueued
          cases hg.symm.trans hf
          rw [hwait] at hsome
          cases hsome
        rw [hpush]
        refine .push (fun other hm => ?_) habsent
        refine hco.actions.pending_of_mem id ?_
        rw [hpush]
        exact List.mem_append_left _ hm
      refine hs ?_
      unfold queue
      change (((Table.modify _ _ _).get? id).map _).getD [] = _
      rw [Table.get?_modify_ne heq]
  | @issue ref action o place r request job hg hp =>
    have hagree : Table.Agree ResourceRecord.queue a.resourceRecords
        (a.insertGrant ref place request).resourceRecords :=
      .edit rfl
    refine herase ref (not_pending (issue_action hg o place request) ActionOutcome.noConfusion) ?_
    rw [← queue_eq_of_agree hagree id]
    exact finishPending_queue .granted none id
  | @prolong ref action o place r grant g request hg =>
    exact herase ref (not_pending (prolong_action hg o grant g request)
      ActionOutcome.noConfusion) (finishPending_queue .renewed none id)
  | unhold => exact hkeeps (unhold_resources rfl)
  | launch | land => exact hkeeps (agree_setBusy rfl)
  | _ => exact hs rfl

/-- The queue of a later state, seen from an earlier one. -/
structure Authority.Tracks (a : Authority) (id : ResourceID) (b : Authority) : Prop where
  later : Fifo.Later b.pending (a.queue id) (b.queue id)
  known : ∀ ref ∈ a.queue id, (b.actionRecords.get? ref).isSome

lemma Core.tracks (h : Core a) (id : ResourceID) : a.Tracks id a := by
  refine ⟨.refl fun ref hm => h.actions.pending_of_mem id hm, ?_⟩
  intro ref hm
  obtain ⟨action, hg, -⟩ := pending_eq_true.mp (h.actions.pending_of_mem id hm)
  rw [hg]
  rfl

lemma Authority.Tracks.move (h : Core b) (htracks : a.Tracks id b) (hmv : Move t b b') :
    a.Tracks id b' := by
  refine ⟨htracks.later.trans (h.later hmv id) ?_ ?_, ?_⟩
  · intro ref hm hp
    exact hmv.pending_before (htracks.known ref hm) hp
  · intro ref hm
    exact (h.move hmv).actions.pending_of_mem id hm
  · intro ref hm
    exact hmv.known (htracks.known ref hm)

lemma Core.tracks_chain (h : Core a) (id : ResourceID) (hchain : Chain t a b) : a.Tracks id b :=
  (Chain.invariant (motive := fun c => Core c ∧ a.Tracks id c)
    (fun _ _ hmv hc => ⟨hc.1.move hmv, hc.2.move hc.1 hmv⟩) hchain
    ⟨h, h.tracks id⟩).2

lemma Core.tracks_run (h : Core a) (id : ResourceID) (steps : List Step) :
    a.Tracks id (steps.foldl exec a) :=
  (Core.run (motive := fun c => a.Tracks id c)
    (fun hc hmv htracks => htracks.move hc hmv) h (h.tracks id) steps).2

/-- A queued acquisition and one that is not ahead of it: while the first is
pending it stays ahead, and the second is not granted. -/
structure Authority.Yields (a : Authority) (id : ResourceID)
    (first second : ActionRef) : Prop where
  known : (a.actionRecords.get? first).isSome
  ahead : a.pending first = true → first ∈ a.queue id ∧
    (second ∈ a.queue id → [first, second].Sublist (a.queue id))
  fair : a.Granted second id → a.pending first = false

lemma Authority.Yields.move (h : Core a) (hmv : Move t a a') (hne : first ≠ second)
    (hyields : a.Yields id first second) : a'.Yields id first second := by
  have hlater := h.later hmv id
  have hbefore := hmv.pending_before hyields.known
  refine ⟨hmv.known hyields.known, ?_, ?_⟩
  · intro hp
    obtain ⟨hm, hahead⟩ := hyields.ahead (hbefore hp)
    exact ⟨hlater.mem hm hp, hlater.ahead hm hp hahead⟩
  · intro hgr
    by_contra hp
    rw [Bool.not_eq_false] at hp
    obtain ⟨hm, hahead⟩ := hyields.ahead (hbefore hp)
    rcases hmv.granted hgr with hold | ⟨-, hturn, -⟩
    · have hdecided := hyields.fair hold
      rw [hbefore hp] at hdecided
      cases hdecided
    rcases hturn with hempty | hhead
    · rw [hempty] at hm
      cases hm
    · exact Fifo.not_ahead_of_head (h.actions.nodup_queue id) hne hhead
        (hahead (List.mem_of_head? hhead))

/-- The grant of a queued acquisition is one move of its section, and at that
move the acquisition is the head of the queue. -/
lemma Core.granted_at_head (h : Core a) (hchain : Chain t a a')
    (hm : ref ∈ a.queue id) (hgr : a'.Granted ref id) :
    ∃ b c, Chain t a b ∧ Move t b c ∧ Chain t c a' ∧ b.pending ref = true ∧
      c.Granted ref id ∧ (b.queue id).head? = some ref := by
  induction hchain with
  | refl =>
    obtain ⟨action, hg, hout, -⟩ := hgr
    have hp := h.actions.pending_of_mem id hm
    rw [not_pending hg (by rw [hout]; exact ActionOutcome.noConfusion)]
      at hp
    cases hp
  | @tail b c hchain hmv ih =>
    rcases hmv.granted hgr with hold | ⟨hp, hturn, -⟩
    · obtain ⟨d, e, hd, hgrant, he, hfacts⟩ := ih hold
      exact ⟨d, e, hd, hgrant, he.tail hmv, hfacts⟩
    refine ⟨b, c, hchain, hmv, .refl, hp, hgr, ?_⟩
    have hqueued := (h.tracks_chain id hchain).later.mem hm hp
    refine hturn.resolve_left fun hempty => ?_
    rw [hempty] at hqueued
    cases hqueued

/-! ## Expiry of queued entries -/

def Authority.waits (a : Authority) (now : Time) (ref : ActionRef) : Bool :=
  (a.actionRecords.get? ref).any fun action =>
    action.waitUntil.any (now < ·)

/-- Deciding a queued action removes it from its queue and changes no other
record. -/
lemma finishLocked_queue (h : Core a) (hm : ref ∈ a.queue id)
    (outcome : ActionOutcome) (code : Option Code) :
    (a.finishLocked ref outcome code).queue id = (a.queue id).erase ref := by
  obtain ⟨r, hr, hqueued⟩ := mem_queue.mp hm
  obtain ⟨action, hg, hp, hwait, hplace⟩ := h.actions.queued hr hqueued
  rw [finishLocked_eq_finishPending hg hp]
  have hrecords : (a.finishPending ref action outcome code).resourceRecords =
      a.resourceRecords.modify id fun r => { r with queue := r.queue.erase ref } := by
    simp [Authority.finishPending, hwait, hplace, dequeue]
  unfold queue
  rw [hrecords, Table.get?_modify_self, hr]
  rfl

/-- The loop of `expireQueuedLocked` runs backwards: behind the index it has
reached the queue is filtered already. -/
lemma expireQueuedBelow_queue (id : ResourceID) (now : Time)
    (h : Core a) (hqueue : a.queue id = front ++ back) :
    (expireQueuedBelow id now front.length a).queue id = front.filter (a.waits now) ++ back := by
  induction front using List.reverseRecOn generalizing a back with
  | nil => exact hqueue
  | append_singleton init last ih =>
    rw [List.length_append, List.length_singleton]
    unfold expireQueuedBelow
    have hlast : (a.queue id)[init.length]? = some last := by
      rw [hqueue]
      simp
    have hm : last ∈ a.queue id := by
      rw [hqueue]
      simp
    have hsplit : a.queue id = init ++ (last :: back) := by
      rw [hqueue, List.append_assoc]
      rfl
    obtain ⟨r, hr, hqueued⟩ := mem_queue.mp hm
    obtain ⟨action, hg, -⟩ := h.actions.queued hr hqueued
    rw [hlast]
    have hentry : a.expireEntry last now =
        if a.waits now last then a
        else a.finishLocked last .timedOut none := by
      unfold expireEntry waits
      rw [hg]
      rfl
    dsimp only
    rw [hentry, List.filter_append]
    split_ifs with hwaits
    · rw [ih h hsplit, List.filter_cons_of_pos hwaits, List.append_assoc]
      rfl
    have hnodup := h.actions.nodup_queue id
    rw [hsplit] at hnodup
    have hnotin : last ∉ init := fun hin =>
      (List.nodup_append.mp hnodup).2.2 last hin last List.mem_cons_self rfl
    have hfinish := sweeps_finishLocked (t := anyTerms) a last .timedOut none
      True.intro
    have hqueue' : (a.finishLocked last .timedOut none).queue id = init ++ back := by
      rw [finishLocked_queue h hm, hsplit, List.erase_append_right _ hnotin, List.erase_cons_head]
    rw [ih (h.chain hfinish.chain) hqueue',
      List.filter_cons_of_neg hwaits, List.filter_nil, List.append_nil]
    congr 1
    refine List.filter_congr fun ref hin => ?_
    have hne : ref ≠ last := fun heq => hnotin (heq ▸ hin)
    unfold waits
    rw [finishLocked_other hne]

lemma expireQueuedLocked_queue (h : Core a) (id : ResourceID) (now : Time) :
    (a.expireQueuedLocked id now).queue id = (a.queue id).filter (a.waits now) := by
  have hloop := expireQueuedBelow_queue id now h
    (List.append_nil (a.queue id)).symm
  rwa [List.append_nil] at hloop

/-- In every run a queued acquisition is not overtaken on its resource while it
is pending, a queued acquisition is granted only at the head of the queue, and the
queue keeps exactly its undecided entries in their order; expiry and the decision
of one entry remove what they should. -/
theorem queue_is_fair {options : Options}
    {verify : Capability → Except Fault Unit} {now : ℕ → Time}
    {maxLease : Duration} {start : Option Time} {a₀ : Authority}
    (hnew : Authority.new options verify now maxLease start = .ok a₀)
    (before after : List Step) (id : ResourceID) :
    let a := before.foldl exec a₀
    let a' := after.foldl exec a
    (∀ first second, first ≠ second → first ∈ a.queue id →
      (second ∈ a.queue id → [first, second].Sublist (a.queue id)) →
        ¬a.Granted second id → a'.Granted second id → a'.pending first = false) ∧
      (∀ step ref, ref ∈ a.queue id → (exec a step).Granted ref id →
        ∃ b c, Chain (step.terms a) a b ∧ Move (step.terms a) b c ∧
          Chain (step.terms a) c (exec a step) ∧ b.pending ref = true ∧
            c.Granted ref id ∧ (b.queue id).head? = some ref) ∧
      Fifo.Later a'.pending (a.queue id) (a'.queue id) ∧
      (∀ t, (a.expireQueuedLocked id t).queue id = (a.queue id).filter (a.waits t)) ∧
      ∀ ref ∈ a.queue id, ∀ outcome code,
        (a.finishLocked ref outcome code).queue id = (a.queue id).erase ref := by
  intro a a'
  have hco : Core a := Core.reached hnew before
  refine ⟨?_, ?_, (hco.tracks_run id after).later, expireQueuedLocked_queue hco id, ?_⟩
  · intro first second hne hm hahead hnot hgr
    have hyields : a.Yields id first second :=
      ⟨(hco.tracks id).known first hm, fun _ => ⟨hm, hahead⟩, fun hold => absurd hold hnot⟩
    exact (Core.run (motive := fun b => b.Yields id first second)
      (fun h hmv hb => hb.move h hmv hne) hco hyields
      after).2.fair hgr
  · intro step ref hm hgr
    exact hco.granted_at_head (exec_chain hco step) hm hgr
  · intro ref hm outcome code
    exact finishLocked_queue hco hm outcome code

/-- Two requests wait behind an exclusive grant, in the order in which they came. -/
theorem queue_is_fair_of_waiter :
    let a := (Sample.enter ++ Sample.lock ⟨1, 2⟩ [9] 3 .exclusive
      (1000 * millisecond) 0 ++ .createOwner 1 [2] ::
        Sample.lock ⟨1, 4⟩ [8] 3 .shared millisecond minute ++ .createOwner 1 [3] ::
          Sample.lock ⟨1, 5⟩ [7] 3 .exclusive millisecond minute).foldl exec Sample.fresh
    a.queue 3 = [⟨4, [8]⟩, ⟨5, [7]⟩] ∧ ∀ t, (a.expireQueuedLocked 3 t).queue 3 =
      (a.queue 3).filter (a.waits t) := by
  exact ⟨by decide +kernel, (queue_is_fair Sample.new_fresh _ [] 3).2.2.2.1⟩

end RemoteFs.Locking
