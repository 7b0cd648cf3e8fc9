import RemoteFs.Advisory.Calls
import RemoteFs.Transport.Acceptance

/-!
# The client accepts what calls return

A receipt that `Apply`, `Query` or `Cancel` returns is read from a request
object that is decided or waits, so the client accepts it, provided that no
batch of the run was cut short by the limits at a `Subtract` whose release had
already been noted.  In that one case the receipt reports the effect of the
command that failed, which the client takes for a changed prefix of releases.
-/

namespace RemoteFs.Transport

open Storage Advisory
open Advisory.Coordinator

/-- The request that a client sends for an operation. -/
def FileRequest.Sends (req : FileRequest) (op : Operation) (id : LockRequestID) : Prop :=
  req.lockID = id ∧
    match op with
    | .apply commands => req.op = .rangeApply ∧ req.commands = commands
    | .query => req.op = .rangeQuery
    | .cancel => req.op = .rangeCancel

/-- An accepted rejection reports the releases before the failing command. -/
lemma effects_of_accepted (haccepted : validateFileAttempt req a = .ok ()) {failedAt : ℕ}
    (hstate : a.state = .rejected) (hfailed : a.failedAt = some failedAt)
    (hplain : convertsFirst a.commands = false) :
    a.effects = completedReleases a.commands failedAt := by
  unfold validateFileAttempt at haccepted
  simp only [check_bind_ok] at haccepted
  obtain ⟨-, -, -, -, -, -, -, -, -, -, heffects⟩ := haccepted
  simp only [validateRangeEffects, hstate, hfailed, hplain, if_true,
    refuse_ok, not_or, not_not] at heffects
  exact heffects.1

lemma receiptLocked_eq (now : Time) (hhistory : 0 < s.options.history) :
    ∃ remaining, 0 ≤ remaining ∧ receiptLocked s a now = receiptOf a remaining := by
  unfold receiptLocked
  split
  · exact ⟨_, hhistory.le, rfl⟩
  · exact ⟨_, le_max_left 0 _, rfl⟩

lemma timely_of_run {config : Config} {now : ℕ → Time} {c : Coordinator}
    (hnew : new config now = .ok c) (steps : List Section) : Timely (steps.foldl exec c) := by
  have hstep : ∀ c step, Sound True c ∧ Timely c →
      Sound True (c.exec step) ∧ Timely (c.exec step) := by
    rintro c step ⟨hc, htimely⟩
    exact ⟨hc.exec step fun _ => trivial,
      (exec_moves hc htimely step).invariant Timely Timely.move htimely⟩
  exact (Runs.invariant hstep ⟨sound_new hnew, timely_new hnew⟩ steps).2

lemma accepted_of_reads {c : Coordinator} (hc : Sound False c) (htimely : Timely c)
    {op : Operation} {id : LockRequestID} {a : Request} {receipt : RangeAttempt}
    (hreads : Reads c op id a receipt) {req : FileRequest} (hsends : req.Sends op id) :
    validateFileAttempt req receipt = .ok () := by
  obtain ⟨ref, hg⟩ := hreads.heap
  obtain ⟨s, now, hs, rfl⟩ := hreads.receipt
  obtain ⟨remaining, hremaining, hreceipt⟩ := receiptLocked_eq (a := a) now (htimely _ _ hs)
  rw [hreceipt]
  refine validateFileAttempt_receipt (hc.directory.admitted hg)
    (hc.shaped ref a hg) hreads.steady hremaining
    (hsends.1.trans hreads.id.symm) fun hop => ?_
  obtain ⟨-, hsent⟩ := hsends
  cases op with
  | apply commands => exact hsent.2.trans hreads.commands.symm
  | query | cancel => cases hop.symm.trans hsent

/-- In a run in which no admitted batch overdraws its limits, the client accepts
every receipt that a call returns, and a rejected batch reports exactly the
releases before its failing command. -/
theorem returned_receipts_accepted {config : Config} {now : ℕ → Time}
    {c₀ : Coordinator} (hnew : new config now = .ok c₀) (before call : List Section)
    (halong : Runs.Along exec (fun c step => ¬c.OverdrawnBy step) c₀ (before ++ call))
    {op : Operation} {id : LockRequestID} {receipt : RangeAttempt}
    (hreturns : Returns (before.foldl exec c₀) call op id receipt)
    {req : FileRequest} (hsends : req.Sends op id) :
    validateFileAttempt req receipt = .ok () ∧
      ∀ failedAt, receipt.state = .rejected → receipt.failedAt = some failedAt →
        convertsFirst receipt.commands = false →
        receipt.effects = completedReleases receipt.commands failedAt := by
  obtain ⟨steps, rest, a, rfl, hreads⟩ :=
    hreturns.reads (sound_of_run hnew before)
  rw [← List.append_assoc] at halong
  rw [← List.foldl_append] at hreads
  have haccepted := accepted_of_reads
    (sound_run hnew (Runs.along_append.mp halong).1)
    (timely_of_run hnew (before ++ steps)) hreads hsends
  exact ⟨haccepted, fun _ => effects_of_accepted haccepted⟩

def splitBatch : List RangeCommand :=
  [byteLock .exclusive .replace 20 10 false,
    byteLock .shared .subtract 4 2 false]

/-- A session that may hold a given number of ranges, and holds one. -/
def splitRun (maxLockRanges : ℤ) : List Section :=
  [.newSession { DefaultFileSessionOptions with
      maxLockRanges := maxLockRanges } true,
    .newOwner 1 7 ⟨[97]⟩ ⟨.explicit, 0, 1⟩,
    .apply 1 7 1 [byteLock .shared .replace 0 10 false] (sampleRequest 49)]

/-- The call of the batch, with no other section in between. -/
def splitCall : List Section :=
  [.apply 1 7 1 splitBatch (sampleRequest 50),
    .applyReceipt 1 (sampleRequest 50) 1]

def splitGranted : RangeAttempt where
  request := sampleRequest 50
  state := .granted
  commands := splitBatch
  claims := []
  conflict := .zero
  rejection := none
  failedAt := none
  effects := [⟨[], byteLock .exclusive .replace 20 10 false, false⟩,
    ⟨[], byteLock .shared .subtract 4 2 false, true⟩]
  everGranted := true
  historyRemaining := 60000000000

theorem returned_receipts_accepted_split :
    validateFileAttempt ⟨.rangeApply, sampleRequest 50, splitBatch⟩ splitGranted = .ok () := by
  have hreturns : Returns ((splitRun 65536).foldl exec
      (.empty DefaultConfig fun _ => 0)) splitCall (.apply splitBatch)
      (sampleRequest 50) splitGranted := .apply [] [] rfl (.idle rfl) rfl
  refine (returned_receipts_accepted new_default (splitRun 65536) splitCall ?_
    hreturns ⟨rfl, rfl, rfl⟩).1
  refine ⟨id, id, ?_, ?_, id, trivial⟩
  · rintro ⟨first, rest, -, before, command, after, hsplit, hover⟩
    cases before with
    | nil =>
      obtain rfl := (List.cons.inj hsplit).1
      cases hover.1
    | cons _ _ => simp at hsplit
  · rintro ⟨first, rest, hbatch, before, command, after, hsplit, hover⟩
    obtain rfl := (List.cons.inj hbatch).1
    rcases before with _ | ⟨_, _ | ⟨_, _⟩⟩
    · obtain rfl := (List.cons.inj hsplit).1
      cases hover.1
    · obtain ⟨rfl, hsplit'⟩ := List.cons.inj hsplit
      obtain rfl := (List.cons.inj hsplit').1
      exact absurd hover.2.2.2.2 (by decide)
    · simp [splitBatch] at hsplit

def splitRejected : RangeAttempt where
  request := sampleRequest 50
  state := .rejected
  commands := splitBatch
  claims := []
  conflict := .zero
  rejection := some .exhausted
  failedAt := some 1
  effects := [⟨[], byteLock .shared .subtract 4 2 false, true⟩]
  everGranted := false
  historyRemaining := 60000000000

/-- With room for two ranges the `Subtract` alone fits and the whole batch does
not: the receipt reports the release at which it failed. -/
theorem overdrawn_receipt_refused :
    Returns ((splitRun 2).foldl exec (.empty DefaultConfig fun _ => 0))
      splitCall (.apply splitBatch) (sampleRequest 50) splitRejected ∧
    validateFileAttempt ⟨.rangeApply, sampleRequest 50, splitBatch⟩ splitRejected = .error
        (.text "range rejection changes its completed release prefix") ∧
    completedReleases splitBatch 1 = [] := by
  exact ⟨.apply [] [] rfl (.idle rfl) rfl, rfl, rfl⟩

end RemoteFs.Transport
