import RemoteFs.Storage.Failure

/-!
# Publication accounting

`PreparePublication` calls a chain of accounting hoo in the order of their
registration, and `settlePublication` calls the settlements that the hoo have
han out in the reverse order.  A hook acts on a state that others may share;
the hoo and the state are parameters here.  `Outstanding` describes which
settlements a state still owes: the rule at the end says that a prepared chain
owes all of its settlements and that a refused one owes none.
-/

namespace RemoteFs.Storage

inductive PublicationResult where
  | notApplied
  | applied
  | unknown
  | other (value : UInt8)
  deriving DecidableEq

/-- One part of a joined error; `uncertain` is a
`publicationAccountingUncertain` with its causes. -/
inductive PublicationError where
  | failure (failure : Failure)
  | uncertain (causes : List Failure)

def IsPublicationAccountingUncertain (errors : List PublicationError) : Prop :=
  ∃ causes, .uncertain causes ∈ errors

/-- What `settlePublication` makes of the failures that it has collected. -/
def settlementError (failures : List Failure) : List PublicationError :=
  if failures = [] then [] else [.uncertain failures]

section Chain

variable {σ τ : Type}

/-- A hook hands out a settlement, or reports an error, or both. -/
abbrev PublicationAccounting (σ τ : Type) :=
  Int64 → Int64 → σ → σ × Option τ × Option Failure

variable (settle : τ → PublicationResult → σ → σ × Option Failure)

def settlePublication (settlements : List τ) (result : PublicationResult)
    (state : σ) : σ × List Failure :=
  settlements.foldr (fun settlement reached =>
      let (state, err) := settle settlement result reached.1
      (state, reached.2 ++ err.toList))
    (state, if result = .unknown then [.mk Errno.EIO ""] else [])

/-- A preparation that fails gives back what it has reserved. -/
def unwind (err : Failure) (settlements : List τ) (state : σ) :
    σ × Except (List PublicationError) (List τ) :=
  let (state, failures) := settlePublication settle settlements .notApplied state
  (state, .error (.failure err :: settlementError failures))

def withoutSettlement : Failure :=
  .mk Errno.EIO "publication accounting succeeded without a settlement"

/-- The loop of `PreparePublication`; `ctx n` is the `n`-th reading of the
context's error. -/
def prepareHooks (ctx : ℕ → Option Failure) (previous next : Int64) :
    List (PublicationAccounting σ τ) → ℕ → List τ → σ →
      σ × Except (List PublicationError) (List τ)
  | [], n, settlements, state =>
    match ctx n with
    | some err => unwind settle err settlements state
    | none => (state, .ok settlements)
  | hook :: rest, n, settlements, state =>
    match ctx n with
    | some err => unwind settle err settlements state
    | none =>
      let (state, han, failure) := hook previous next state
      let settlements := settlements ++ han.toList
      match failure with
      | some err => unwind settle err settlements state
      | none =>
        if han.isNone then unwind settle withoutSettlement settlements state
        else prepareHooks ctx previous next rest (n + 1) settlements state

def PreparePublication (hoo : List (PublicationAccounting σ τ))
    (ctx : ℕ → Option Failure) (previous next : Int64) (state : σ) :
    σ × Except (List PublicationError) (List τ) :=
  if previous < 0 ∨ next < 0 then
    (state, .error [.failure ⟨.EINVAL,
      "publication byte counts must be non-negative"⟩])
  else
    match ctx 0 with
    | some err => (state, .error [.failure err])
    | none => prepareHooks settle ctx previous next hoo 1 [] state

/-- The settlement that `PreparePublication` returns: an invalid result does not
consume it, and a second valid one is refused. -/
def settleOnce (settlements : List τ) (consumed : Bool) (result : PublicationResult) (state : σ) :
    σ × Bool × List PublicationError :=
  match result with
  | .other value =>
    (state, consumed, [.failure
      ⟨.EINVAL, s!"publication result {value} is invalid"⟩])
  | _ =>
    if consumed then
      (state, true, [.failure
        ⟨.EINVAL, "publication accounting can be settled exactly once"⟩])
    else
      let (state, failures) :=
        settlePublication settle settlements result state
      (state, true, settlementError failures)

/-! ## Settlements that are owed -/

variable {settle} {Outstanding : List τ → σ → Prop}

/-- Settling the last of the settlements removes it from what is owed. -/
def Consumes (settle : τ → PublicationResult → σ → σ × Option Failure)
    (Outstanding : List τ → σ → Prop) (result : PublicationResult) : Prop :=
  ∀ settlements settlement state,
    Outstanding (settlements ++ [settlement]) state →
      Outstanding settlements (settle settlement result state).1

/-- A hook owes the settlement that it hands out. -/
def Hands (Outstanding : List τ → σ → Prop) (previous next : Int64)
    (hook : PublicationAccounting σ τ) : Prop :=
  ∀ settlements state, Outstanding settlements state →
    Outstanding (settlements ++ (hook previous next state).2.1.toList)
      (hook previous next state).1

variable {state : σ}

lemma settlePublication_owes (hconsumes : Consumes settle Outstanding result)
    (kept settlements : List τ) (howe : Outstanding (kept ++ settlements) state) :
    Outstanding kept (settlePublication settle settlements result state).1 := by
  induction settlements generalizing kept with
  | nil => simpa [settlePublication] using howe
  | cons settlement rest ih =>
    have hrest := ih (kept ++ [settlement]) (by simpa using howe)
    exact hconsumes kept settlement _ hrest

variable {settlements : List τ}

lemma unwind_owes (hconsumes : Consumes settle Outstanding .notApplied) (err : Failure)
    (howe : Outstanding settlements state) :
    Outstanding [] (unwind settle err settlements state).1 :=
  settlePublication_owes hconsumes [] settlements howe

/-- The settlements that a preparation leaves to its caller. -/
def owedBy (outcome : Except (List PublicationError) (List τ)) : List τ :=
  match outcome with
  | .ok settlements => settlements
  | .error _ => []

variable {previous next : Int64} {hoo : List (PublicationAccounting σ τ)}

/-- What every hook keeps holds of the state in which a preparation gives up or
returns. -/
lemma prepareHooks_rule {motive : σ × Except (List PublicationError) (List τ) → Prop}
    (hhooks : ∀ hook ∈ hoo, Hands Outstanding previous next hook)
    (hunwind : ∀ err settlements state, Outstanding settlements state →
      motive (unwind settle err settlements state))
    (hdone : ∀ settlements state, Outstanding settlements state →
      motive (state, .ok settlements)) (ctx : ℕ → Option Failure) (n : ℕ)
    (howe : Outstanding settlements state) :
    motive (prepareHooks settle ctx previous next hoo n settlements state) := by
  induction hoo generalizing n settlements state with
  | nil =>
    simp only [prepareHooks]
    split
    · exact hunwind _ _ _ howe
    · exact hdone _ _ howe
  | cons hook rest ih =>
    have hhanded := hhooks hook List.mem_cons_self settlements state howe
    simp only [prepareHooks]
    split
    · exact hunwind _ _ _ howe
    split
    · exact hunwind _ _ _ hhanded
    split_ifs
    · exact hunwind _ _ _ hhanded
    · exact ih (fun other hm => hhooks other (List.mem_cons_of_mem _ hm)) (n + 1) hhanded

/-- A prepared chain owes exactly the settlements that it returns, and a refused
one owes none. -/
lemma PreparePublication_owes (hconsumes : Consumes settle Outstanding .notApplied)
    (ctx : ℕ → Option Failure) (hhooks : 0 ≤ previous → 0 ≤ next →
      ∀ hook ∈ hoo, Hands Outstanding previous next hook) (howe : Outstanding [] state) :
    let outcome := PreparePublication settle hoo ctx previous next state
    Outstanding (owedBy outcome.2) outcome.1 := by
  simp only [PreparePublication]
  split_ifs with hnegative
  · exact howe
  split
  · exact howe
  rw [not_or, Int64.not_lt, Int64.not_lt] at hnegative
  exact prepareHooks_rule (motive := fun outcome => Outstanding (owedBy outcome.2) outcome.1)
    (hhooks hnegative.1 hnegative.2)
    (fun err _ _ => unwind_owes hconsumes err) (fun _ _ h => h) ctx 1 howe

/-! ## The calls of hoo and settlements -/

/-- A call that the publication made, with what it returned. -/
inductive Call (τ : Type) where
  | prepared (han : Option τ) (err : Option Failure)
  | settled (settlement : τ) (result : PublicationResult) (err : Option Failure)

namespace Call

def report : Call τ → Option (Option τ × Option Failure)
  | prepared han err => some (han, err)
  | settled _ _ _ => none

def settlement : Call τ → Option (τ × PublicationResult)
  | prepared _ _ => none
  | settled settlement result _ => some (settlement, result)

def failed : Call τ → Bool
  | prepared _ _ => false
  | settled _ _ err => err.isSome

end Call

/-- What the hoo that were called have returned. -/
def reported (calls : List (Call τ)) : List (Option τ × Option Failure) :=
  calls.filterMap Call.report

def handedOut (calls : List (Call τ)) : List τ := (reported calls).filterMap Prod.fst

def settledWith (calls : List (Call τ)) : List (τ × PublicationResult) :=
  calls.filterMap Call.settlement

/-- A hook that also records its call. -/
def recordHook (hook : PublicationAccounting σ τ) :
    PublicationAccounting (σ × List (Call τ)) τ := fun previous next reached =>
  let (state, han, failure) := hook previous next reached.1
  ((state, reached.2 ++ [.prepared han failure]), han, failure)

def recordSettle (settle : τ → PublicationResult → σ → σ × Option Failure) :
    τ → PublicationResult → σ × List (Call τ) →
      (σ × List (Call τ)) × Option Failure := fun settlement result reached =>
  let (state, err) := settle settlement result reached.1
  ((state, reached.2 ++ [.settled settlement result err]), err)

/-- What the hoo return when each is called on the state that the one before has left. -/
def reports (previous next : Int64) :
    List (PublicationAccounting σ τ) → σ → List (Option τ × Option Failure)
  | [], _ => []
  | hook :: rest, state =>
    let (state, report) := hook previous next state
    report :: reports previous next rest state

/-- The error for which a preparation stops at what a hook has returned. -/
def reportError (report : Option τ × Option Failure) : Option Failure :=
  report.2.or (if report.1.isNone then some withoutSettlement else none)

/-- What a preparation looks at from the `n`-th reading of the context on: the context
before every hook, what the hook returns, and the context once more at the end. -/
def checks (ctx : ℕ → Option Failure) : ℕ → List (Option τ × Option Failure) →
    List (Option Failure)
  | n, [] => [ctx n]
  | n, report :: rest => ctx n :: reportError report :: checks ctx (n + 1) rest

/-- The preparation succeeds if it meets no error, and fails with the first one. -/
def Answers (checks : List (Option Failure)) : Except (List PublicationError) (List τ) → Prop
  | .ok _ => checks.findSome? id = none
  | .error errors => ∃ err more, checks.findSome? id = some err ∧ errors = .failure err :: more

def PublicationResult.valid : PublicationResult → Bool
  | other _ => false
  | _ => true

/-- Calls of the settlement that `PreparePublication` returned, in the order in
which they test whether it is consumed. -/
def settleAll (settle : τ → PublicationResult → σ → σ × Option Failure)
    (settlements : List τ) : List PublicationResult → Bool → σ → σ
  | [], _, state => state
  | result :: rest, consumed, state =>
    let returned := settleOnce settle settlements consumed result state
    settleAll settle settlements rest returned.2.1 returned.1

section Discipline

variable {settle : τ → PublicationResult → σ → σ × Option Failure}
  {settlements : List τ} {result : PublicationResult} {reached : σ × List (Call τ)}

/-- The calls of one settlement: all of them from the last to the first,
whatever they return. -/
structure Settling (settlements : List τ) (result : PublicationResult)
    (failures : List Failure) (calls : List (Call τ)) : Prop where
  reported : reported calls = []
  order : settledWith calls = settlements.reverse.map fun s => (s, result)
  failures : failures ≠ [] ↔ result = .unknown ∨ ∃ call ∈ calls, call.failed

lemma settlePublication_calls (settle) (settlements : List τ)
    (result : PublicationResult) (reached : σ × List (Call τ)) :
    let outcome := settlePublication (recordSettle settle) settlements result
      reached
    ∃ calls, outcome.1.2 = reached.2 ++ calls ∧
      Settling settlements result outcome.2 calls := by
  induction settlements with
  | nil =>
    refine ⟨[], by simp [settlePublication], rfl, rfl, ?_⟩
    by_cases hunk : result = .unknown <;>
      simp [settlePublication, hunk]
  | cons settlement rest ih =>
    obtain ⟨calls, hlog, hca⟩ := ih
    simp only [settlePublication, List.foldr_cons] at hlog hca ⊢
    revert hlog hca
    generalize List.foldr _ _ rest = after
    intro hlog hca
    refine ⟨calls ++ [.settled settlement result
      (settle settlement result after.1.1).2], ?_, ?_, ?_, ?_⟩
    · simp [recordSettle, hlog]
    · simpa [reported, Call.report] using hca.reported
    · have horder := hca.order
      simp only [settledWith] at horder ⊢
      simp [horder, Call.settlement]
    · have hfailures := hca.failures
      simp only [recordSettle, ne_eq, List.append_eq_nil_iff, not_and_or, List.mem_append,
        List.mem_singleton, or_and_right, exists_or, exists_eq_left, ← or_assoc] at hfailures ⊢
      rw [hfailures]
      cases (settle settlement result after.1.1).2 <;> simp [Call.failed]

lemma marked_settlementError (failures : List Failure) :
    IsPublicationAccountingUncertain (settlementError failures) ↔ failures ≠ [] := by
  unfold IsPublicationAccountingUncertain settlementError
  split_ifs with hnone <;> simp [hnone]

lemma settledWith_append (calls later : List (Call τ)) :
    settledWith (calls ++ later) = settledWith calls ++ settledWith later :=
  List.filterMap_append

lemma reported_append (calls later : List (Call τ)) :
    reported (calls ++ later) = reported calls ++ reported later :=
  List.filterMap_append

/-- What a preparation has called when it returns. -/
def Prepared (calls : List (Call τ)) : Except (List PublicationError) (List τ) → Prop
  | .ok settlements => settledWith calls = [] ∧ settlements = handedOut calls
  | .error errors =>
    settledWith calls =
        (handedOut calls).reverse.map (fun s => (s, .notApplied)) ∧
      (IsPublicationAccountingUncertain errors ↔ ∃ call ∈ calls, call.failed)

lemma unwind_prepared (err : Failure) (hhanded : handedOut reached.2 = settlements)
    (hse : settledWith reached.2 = []) :
    let outcome := unwind (recordSettle settle) err settlements reached
    Prepared outcome.1.2 outcome.2 := by
  obtain ⟨calls, hlog, hca⟩ := settlePublication_calls settle settlements .notApplied reached
  have hearly : ∀ call ∈ reached.2, ¬call.failed := fun call hm hfailed => by
    have hnone := List.filterMap_eq_nil_iff.mp hse call hm
    cases call <;> simp [Call.settlement, Call.failed] at hnone hfailed
  have hfailures := hca.failures
  rw [← marked_settlementError] at hfailures
  rw [handedOut] at hhanded
  simp only [unwind, Prepared, hlog, settledWith_append, handedOut, reported_append, hse,
    hhanded, hca.order, hca.reported, List.nil_append, List.append_nil, true_and]
  simp only [IsPublicationAccountingUncertain, List.mem_cons, reduceCtorEq, false_or,
    List.mem_append, or_and_right, exists_or] at hfailures ⊢
  rw [hfailures]
  constructor
  · exact .inr
  · rintro (⟨call, hm, hfailed⟩ | hlate)
    · exact (hearly call hm hfailed).elim
    · exact hlate

lemma recordHook_hands (hook : PublicationAccounting σ τ) (previous next : Int64) :
    Hands (fun settlements (reached : σ × List (Call τ)) =>
        handedOut reached.2 = settlements ∧ settledWith reached.2 = [])
      previous next (recordHook hook) := by
  rintro settlements reached ⟨rfl, hse⟩
  constructor
  · simp only [recordHook, handedOut, reported_append, List.filterMap_append]
    cases hnew : (hook previous next reached.1).2.1 <;> simp [reported, Call.report]
  · refine (settledWith_append ..).trans ?_
    rw [hse]
    rfl

lemma unwind_answers (settle) (err : Failure) (settlements : List τ) (reached : σ × List (Call τ)) :
    let outcome := unwind (recordSettle settle) err settlements reached
    reported outcome.1.2 = reported reached.2 ∧
      ∃ more, outcome.2 = .error (.failure err :: more) := by
  obtain ⟨calls, hlog, hca⟩ := settlePublication_calls settle settlements .notApplied reached
  refine ⟨?_, _, rfl⟩
  simp only [unwind, hlog, reported_append, hca.reported, List.append_nil]

/-- A hook is called for every two checks that were passed. -/
lemma prepareHooks_answers (hoo : List (PublicationAccounting σ τ)) (ctx : ℕ → Option Failure)
    (previous next : Int64) (n : ℕ) (settlements : List τ) (reached : σ × List (Call τ)) :
    let outcome := prepareHooks (recordSettle settle) ctx previous next
      (hoo.map recordHook) n settlements reached
    let found := reports previous next hoo reached.1
    let passed := (checks ctx n found).takeWhile Option.isNone
    reported outcome.1.2 = reported reached.2 ++ found.take ((passed.length + 1) / 2) ∧
      Answers (checks ctx n found) outcome.2 := by
  induction hoo generalizing n settlements reached with
  | nil =>
    simp only [prepareHooks, List.map_nil, reports, checks, List.take_nil, List.append_nil]
    split
    · next err herr =>
      obtain ⟨hca, more, herrors⟩ := unwind_answers settle err settlements reached
      exact ⟨hca, herrors ▸ ⟨err, more, by simp [herr], rfl⟩⟩
    · next hnone => exact ⟨rfl, by simp [Answers, hnone]⟩
  | cons hook rest ih =>
    simp only [prepareHooks, List.map_cons, reports, checks]
    split
    · next err herr =>
      obtain ⟨hca, more, herrors⟩ := unwind_answers settle err settlements reached
      exact ⟨by simp [hca, herr], herrors ▸ ⟨err, more, by simp [herr], rfl⟩⟩
    next hlive =>
    rcases hhook : hook previous next reached.1 with ⟨state, han, err⟩
    have hstops : ∀ cause settlements, reportError (han, err) = some cause →
        let outcome := unwind (recordSettle settle) cause settlements
          (state, reached.2 ++ [.prepared han err])
        let found := checks ctx n ((han, err) :: reports previous next rest state)
        reported outcome.1.2 = reported reached.2 ++
          ((han, err) :: reports previous next rest state).take
            (((found.takeWhile Option.isNone).length + 1) / 2) ∧
          Answers found outcome.2 := by
      intro cause settlements hcause
      obtain ⟨hca, more, herrors⟩ := unwind_answers settle cause settlements
        (state, reached.2 ++ [.prepared han err])
      refine ⟨?_, herrors ▸ ⟨cause, more, by simp [checks, hlive, hcause], rfl⟩⟩
      rw [hca, reported_append]
      simp [checks, hlive, hcause, reported, Call.report]
    simp only [recordHook, hhook]
    cases err with
    | some err => exact hstops err _ rfl
    | none =>
      cases han with
      | none => exact hstops _ _ rfl
      | some han =>
        obtain ⟨hca, hanswers⟩ := ih (n + 1) (settlements ++ [han])
          (state, reached.2 ++ [.prepared (some han) none])
        have hpasses : reportError (some han, none) = none := rfl
        have hhalf : ∀ k, (k + 1 + 1 + 1) / 2 = (k + 1) / 2 + 1 := by omega
        refine ⟨hca.trans ?_, ?_⟩
        · rw [reported_append]
          simp [hlive, hpasses, hhalf, reported, Call.report]
        · rw [hlive, hpasses]
          exact hanswers

lemma settleOnce_unchanged (settle) (settlements : List τ) (state : σ)
    {consumed : Bool} (h : ¬(result.valid = true ∧ consumed = false)) :
    (settleOnce settle settlements consumed result state).1 = state ∧
      (settleOnce settle settlements consumed result state).2.1 = consumed := by
  cases result <;> simp_all [settleOnce, PublicationResult.valid]

lemma settleOnce_first (settle) (settlements : List τ) (state : σ)
    (hvalid : result.valid = true) :
    settleOnce settle settlements false result state =
      ((settlePublication settle settlements result state).1, true, settlementError
          (settlePublication settle settlements result state).2) := by
  cases result <;> simp_all [settleOnce, PublicationResult.valid]

variable (results : List PublicationResult)

lemma settleAll_consumed (state : σ) :
    settleAll settle settlements results true state = state := by
  induction results with
  | nil => rfl
  | cons result rest ih =>
    have hlate : ¬(result.valid = true ∧ true = false) := fun h => by cases h.2
    obtain ⟨hs, hconsumed⟩ := settleOnce_unchanged settle settlements state hlate
    rw [settleAll, hs, hconsumed, ih]

lemma settleAll_calls (hse : settledWith reached.2 = []) :
    settledWith (settleAll (recordSettle settle) settlements results false reached).2 =
      (results.find? PublicationResult.valid).elim [] fun first =>
        settlements.reverse.map fun s => (s, first) := by
  induction results with
  | nil => exact hse
  | cons result rest ih =>
    rw [settleAll]
    by_cases hvalid : result.valid = true
    · obtain ⟨calls, hlog, hca⟩ := settlePublication_calls settle settlements result reached
      rw [settleOnce_first _ _ _ hvalid, settleAll_consumed,
        List.find?_cons_of_pos hvalid, hlog, settledWith_append, hse]
      exact hca.order
    · obtain ⟨hs, hconsumed⟩ := settleOnce_unchanged (recordSettle settle)
        settlements reached fun h => hvalid h.1
      rw [hs, hconsumed, List.find?_cons_of_neg hvalid, ih]

end Discipline

/-- The hoo are called in order until the context or what one of them returns is an
error, which is then the first error of the preparation.  However the hoo, the context
and the callers behave, a settlement that a hook han out is called at most once: as not applied, in reverse order, when
the preparation fails, and otherwise with the first valid result.  A failed
settlement and an unknown result leave a mark on the error. -/
theorem settlements_called_once (settle : τ → PublicationResult → σ → σ × Option Failure)
    (hoo : List (PublicationAccounting σ τ)) (ctx : ℕ → Option Failure)
    (previous next : Int64) (state : σ) :
    let outcome := PreparePublication (recordSettle settle)
      (hoo.map recordHook) ctx previous next (state, [])
    let found := reports previous next hoo state
    let looked := ctx 0 :: checks ctx 1 found
    (previous < 0 ∨ next < 0 → outcome = ((state, []), .error [.failure
      ⟨.EINVAL, "publication byte counts must be non-negative"⟩])) ∧
    (¬(previous < 0 ∨ next < 0) → Answers looked outcome.2 ∧
      reported outcome.1.2 = found.take ((looked.takeWhile Option.isNone).length / 2)) ∧
    Prepared outcome.1.2 outcome.2 ∧
    (∀ settlements, outcome.2 = .ok settlements → ∀ results,
      settledWith (settleAll (recordSettle settle) settlements results false outcome.1).2 =
        (results.find? PublicationResult.valid).elim [] fun first =>
          (handedOut outcome.1.2).reverse.map fun s => (s, first)) ∧
    ∀ settlements result (reached : σ × List (Call τ)) consumed,
      let returned := settleOnce (recordSettle settle) settlements consumed
        result reached
      if result.valid = true ∧ consumed = false then
        ∃ calls, returned.1.2 = reached.2 ++ calls ∧
          (IsPublicationAccountingUncertain returned.2.2 ↔
            result = .unknown ∨ ∃ call ∈ calls, call.failed)
      else returned.1 = reached := by
  intro outcome found looked
  have hprepared : Prepared outcome.1.2 outcome.2 := by
    simp only [outcome, PreparePublication]
    split_ifs
    · exact ⟨rfl, by simp [IsPublicationAccountingUncertain]⟩
    split
    · exact ⟨rfl, by simp [IsPublicationAccountingUncertain]⟩
    have hhooks := List.forall_mem_map.mpr fun hook (_ : hook ∈ hoo) =>
      recordHook_hands hook previous next
    refine prepareHooks_rule (motive := fun outcome => Prepared outcome.1.2 outcome.2) hhooks
      (fun err _ _ h => unwind_prepared err h.1 h.2)
      (fun _ _ h => ⟨h.2, h.1.symm⟩) ctx 1 ?_
    exact ⟨rfl, rfl⟩
  refine ⟨fun hnegative => if_pos hnegative, fun hcounts => ?_, hprepared,
    fun settlements hok results => ?_, fun settlements result reached consumed => ?_⟩
  · simp only [outcome, looked, PreparePublication, if_neg hcounts]
    cases hfirst : ctx 0 with
    | some err => exact ⟨⟨err, [], rfl, rfl⟩, by simp [reported]⟩
    | none =>
      exact (prepareHooks_answers hoo ctx previous next 1 [] (state, [])).symm
  · rw [hok] at hprepared
    obtain ⟨hse, rfl⟩ := hprepared
    exact settleAll_calls results hse
  · split_ifs with hfirst
    · obtain ⟨hvalid, rfl⟩ := hfirst
      obtain ⟨calls, hlog, hca⟩ :=
        settlePublication_calls settle settlements result reached
      rw [settleOnce_first _ _ _ hvalid]
      exact ⟨calls, hlog, (marked_settlementError _).trans hca.failures⟩
    · exact (settleOnce_unchanged _ settlements reached hfirst).1

end Chain

end RemoteFs.Storage
