import Mathlib.Logic.Relation
import RemoteFs.ObjectStore.Session

/-!
# The book of close attempts

What the sections of a session do to the references, to the native closes under
way and to the record of admitted attempts, as moves of a smaller state.  The
invariant is that the only receipt that is not completed is the one of the next
generation, and that a native close is under way only for such a receipt.
-/

namespace RemoteFs

open Storage (Failure)

namespace ObjectStore

/-- The generation that a reference is at; zero stands for the first one. -/
def CloseState.generation (r : CloseState) : ℕ :=
  if r.next = 0 then 1 else r.next

structure Book where
  refs : Table ℕ CloseState
  flights : Table ℕ (ℕ × ℕ)
  runs : Table ℕ (ReferenceCloseResult × Option NativeError)
  lastRun : ℕ
  admitted : List (ℕ × CloseAttempt)
  epoch : ℕ

def Session.book {ρ : Type} (s : Session ρ) : Book :=
  ⟨s.refs, s.flights, s.runs, s.lastRun, s.admitted, s.epoch⟩

namespace Book

def receipt? (b : Book) (ref generation : ℕ) : Option CloseReceipt :=
  (b.refs.get? ref).bind fun r => r.receipts.get? generation

/-- A change of a reference that neither touches its receipts nor advances its
generation, except from the initial zero. -/
structure Idle (r r' : CloseState) : Prop where
  receipts : r'.receipts = r.receipts
  released : r'.released = r.released
  next : r'.next = r.next ∨ r.next = 0 ∧ r'.next = 1

/-- What a section may do for a call with that reference and that attempt, or
for none.  Only a call starts native closes. -/
inductive Move (caller : Option (ℕ × CloseAttempt)) : Book → Book → Prop
  | advance (b : Book) {epoch : ℕ} (hlater : b.epoch ≤ epoch) : Move caller b { b with epoch }
  | openRef {b : Book} {ref : ℕ} (hnew : b.refs.get? ref = none) :
      Move caller b { b with refs := b.refs.set ref .fresh }
  | note (b : Book) (ref : ℕ) {change : CloseState → CloseState}
      (hidl : ∀ r, Idle r (change r)) :
      Move caller b { b with refs := b.refs.modify ref change }
  | drop {b : Book} {ref generation : ℕ} {receipt : CloseReceipt}
      (hget : b.receipt? ref generation = some receipt)
      (hp : receipt.outcome ≠ .pending)
      (hun : receipt.outcome ≠ .unknown) :
      Move caller b { b with refs := b.refs.modify ref fun r =>
        { r with receipts := r.receipts.erase generation } }
  | relaunch {b : Book} {ref : ℕ} {attempt : CloseAttempt}
      {receipt : CloseReceipt} (hcaller : caller = some (ref, attempt))
      (hget : b.receipt? ref attempt.generation = some receipt)
      (haction : receipt.action = attempt.action)
      (hun : receipt.outcome = .unknown) :
      Move caller b { b with
        refs := b.refs.modify ref fun r => { r with
          receipts := r.receipts.modify attempt.generation fun receipt =>
            { receipt with run := b.lastRun + 1, outcome := .pending } }
        flights := b.flights.set (b.lastRun + 1) (ref, attempt.generation)
        lastRun := b.lastRun + 1 }
  | record {b : Book} {ref : ℕ} {r : CloseState} {attempt : CloseAttempt}
      (hcaller : caller = some (ref, attempt))
      (href : b.refs.get? ref = some r)
      (hnex : attempt.generation = r.next)
      (hpositive : 0 < attempt.generation)
      (ho : r.released = false)
      (hnew : r.receipts.get? attempt.generation = none)
      (hepoch : attempt.requested = b.epoch) :
      Move caller b { b with
        refs := b.refs.modify ref fun r => { r with
          receipts := r.receipts.set attempt.generation
            ⟨attempt.action, b.lastRun + 1, ⟨false, false⟩, none, 0, .pending⟩ }
        flights := b.flights.set (b.lastRun + 1) (ref, attempt.generation)
        lastRun := b.lastRun + 1
        admitted := (ref, attempt) :: b.admitted }

/-- The native close of a run returns. -/
def land (b : Book) (run ref generation : ℕ) (result : ReferenceCloseResult)
    (err : Option NativeError) (expires : Time) : Book :=
  { b with
    refs := b.refs.modify ref fun r =>
      Session.CloseState.settled r generation result err expires
    flights := b.flights.erase run
    runs := b.runs.set run (result, err) }

/-! ## The invariant -/

/-- Where a receipt may stand, given the generation of its reference. -/
structure CloseReceipt.Fits (receipt : CloseReceipt) (generation : ℕ)
    (r : CloseState) : Prop where
  positive : 0 < generation
  reached : generation ≤ r.next
  completed : receipt.outcome = .completed → generation = r.next → r.released = true
  open_ : receipt.outcome ≠ .completed → generation = r.next ∧ r.released = false ∧
      (receipt.outcome = .pending ∨ receipt.outcome = .unknown)

/-- The run of a receipt is under way while the receipt is pending, and has
left its result otherwise. -/
structure CloseReceipt.Placed (receipt : CloseReceipt) (b : Book)
    (ref generation : ℕ) : Prop where
  issued : receipt.run ≤ b.lastRun
  pending : receipt.outcome = .pending → b.flights.get? receipt.run = some (ref, generation)
  done : receipt.outcome ≠ .pending → b.flights.get? receipt.run = none
  recorded : receipt.outcome ≠ .pending →
    b.runs.get? receipt.run = some (receipt.result, receipt.err)

structure CloseReceipt.Kept (receipt : CloseReceipt) (b : Book)
    (ref generation : ℕ) (r : CloseState) : Prop where
  fits : CloseReceipt.Fits receipt generation r
  placed : CloseReceipt.Placed receipt b ref generation
  known : (ref, ⟨receipt.action, generation⟩) ∈ b.admitted

/-- The book of one reference. -/
structure Kept (b : Book) (ref : ℕ) (r : CloseState) : Prop where
  receipt : ∀ {generation receipt}, r.receipts.get? generation = some receipt →
    CloseReceipt.Kept receipt b ref generation r
  flight : ∀ {run generation}, b.flights.get? run = some (ref, generation) →
    ∃ receipt, r.receipts.get? generation = some receipt ∧
      receipt.outcome = .pending ∧ receipt.run = run
  past : ∀ {attempt}, (ref, attempt) ∈ b.admitted → attempt.generation ≤ r.next ∧
      (attempt.generation = r.next → r.released = true ∨
        ∃ receipt, r.receipts.get? attempt.generation = some receipt)
  once : ∀ {attempt other}, (ref, attempt) ∈ b.admitted →
    (ref, other) ∈ b.admitted → attempt.generation = other.generation → attempt = other

structure Sound (b : Book) : Prop where
  kept : ∀ {ref r}, b.refs.get? ref = some r → Kept b ref r
  issued : ∀ {run flight}, b.flights.get? run = some flight → run ≤ b.lastRun
  flown : ∀ {run ref generation},
    b.flights.get? run = some (ref, generation) → (b.refs.get? ref).isSome
  homed : ∀ {ref attempt}, (ref, attempt) ∈ b.admitted → (b.refs.get? ref).isSome

variable {generation ref run : ℕ} {b b' : Book} {receipt : CloseReceipt}
  {r : CloseState} {attempt : CloseAttempt}

lemma receipt?_eq_some : b.receipt? ref generation = some receipt ↔
      ∃ r, b.refs.get? ref = some r ∧ r.receipts.get? generation = some receipt :=
  Option.bind_eq_some_iff

lemma sound_empty (epoch : ℕ) : Sound ⟨.empty, .empty, .empty, 0, [], epoch⟩ where
  kept := fun href => by cases (Table.get?_empty _).symm.trans href
  issued := fun hf => by cases (Table.get?_empty _).symm.trans hf
  flown := fun hf => by cases (Table.get?_empty _).symm.trans hf
  homed := fun hm => by cases hm

variable {r' : CloseState}

lemma CloseReceipt.Kept.restate (h : CloseReceipt.Kept receipt b ref generation r)
    (hnex : r'.next = r.next) (hrel : r'.released = r.released) :
    CloseReceipt.Kept receipt b ref generation r' := by
  obtain ⟨⟨hpos, hreached, hcomp, ho⟩, hpl, hknown⟩ := h
  exact ⟨⟨hpos, hnex ▸ hreached, by rw [hnex, hrel]; exact hcomp,
    by rw [hnex, hrel]; exact ho⟩, hpl, hknown⟩

/-- A receipt that is neither pending nor unknown is completed. -/
lemma CloseReceipt.Fits.done (hfi : CloseReceipt.Fits receipt generation r)
    (hp : receipt.outcome ≠ .pending) (hun : receipt.outcome ≠ .unknown) :
    receipt.outcome = .completed := by
  by_contra ho
  rcases (hfi.open_ ho).2.2 with heq | heq
  · exact hp heq
  · exact hun heq

lemma CloseReceipt.Placed.frame (h : CloseReceipt.Placed receipt b ref generation)
    (hla : b.lastRun ≤ b'.lastRun)
    (hf : b'.flights.get? receipt.run = b.flights.get? receipt.run)
    (hrun : b'.runs.get? receipt.run = b.runs.get? receipt.run) :
    CloseReceipt.Placed receipt b' ref generation where
  issued := h.issued.trans hla
  pending := fun hp => hf.trans (h.pending hp)
  done := fun hdo => hf.trans (h.done hdo)
  recorded := fun hdo => hrun.trans (h.recorded hdo)

variable {refs : Table ℕ CloseState} {admitted : List (ℕ × CloseAttempt)}

lemma CloseReceipt.Placed.launch (h : CloseReceipt.Placed receipt b ref generation)
    {flight : ℕ × ℕ} :
    CloseReceipt.Placed receipt { b with
        refs
        flights := b.flights.set (b.lastRun + 1) flight
        lastRun := b.lastRun + 1
        admitted } ref generation :=
  h.frame (Nat.le_succ _) (Table.get?_set_ne (Nat.ne_of_lt (Nat.lt_succ_of_le h.issued))) rfl

lemma Sound.change (h : Sound b)
    (hot : ∀ {other}, other ≠ ref → b'.refs.get? other = b.refs.get? other)
    (hself : b'.refs.get? ref = some r) (hflights : ∀ {other run generation}, other ≠ ref →
      b'.flights.get? run = some (other, generation) →
        b.flights.get? run = some (other, generation))
    (hla : b.lastRun ≤ b'.lastRun) (hruns : ∀ {run}, run ≤ b.lastRun →
      (∀ generation, b.flights.get? run ≠ some (ref, generation)) →
        b'.flights.get? run = b.flights.get? run ∧ b'.runs.get? run = b.runs.get? run)
    (hadm : ∀ {other attempt}, other ≠ ref →
      ((other, attempt) ∈ b'.admitted ↔ (other, attempt) ∈ b.admitted))
    (hissued : ∀ {run flight}, b'.flights.get? run = some flight →
      run ≤ b'.lastRun) (hk : Kept b' ref r) : Sound b' := by
  refine ⟨?_, hissued, ?_, ?_⟩
  · intro other r' hr'
    by_cases heq : other = ref
    · rw [heq] at hr' ⊢
      rw [hself] at hr'
      cases hr'
      exact hk
    have hbe := h.kept ((hot heq).symm.trans hr')
    have hpl : ∀ {generation receipt},
        r'.receipts.get? generation = some receipt →
          CloseReceipt.Placed receipt b' other generation := by
      intro generation receipt hget
      have hbe := (hbe.receipt hget).placed
      have hapart : ∀ g, b.flights.get? receipt.run ≠ some (ref, g) := by
        intro g hf
        by_cases hp : receipt.outcome = .pending
        · have hown := hbe.pending hp
          rw [hf] at hown
          cases hown
          exact heq rfl
        · rw [hbe.done hp] at hf
          cases hf
      obtain ⟨hf, hrun⟩ := hruns hbe.issued hapart
      exact hbe.frame hla hf hrun
    exact ⟨fun hget => ⟨(hbe.receipt hget).fits, hpl hget,
        (hadm heq).mpr (hbe.receipt hget).known⟩,
      fun hf => hbe.flight (hflights heq hf),
      fun hm => hbe.past ((hadm heq).mp hm),
      fun hm hmem' => hbe.once ((hadm heq).mp hm) ((hadm heq).mp hmem')⟩
  · intro run other generation hf
    by_cases heq : other = ref
    · rw [heq, hself]
      rfl
    · rw [hot heq]
      exact h.flown (hflights heq hf)
  · intro other attempt hm
    by_cases heq : other = ref
    · rw [heq, hself]
      rfl
    · rw [hot heq]
      exact h.homed ((hadm heq).mp hm)

lemma Kept.rebook (h : Kept b ref r) (hflights : b'.flights = b.flights)
    (hruns : b'.runs = b.runs) (hla : b'.lastRun = b.lastRun)
    (hadm : b'.admitted = b.admitted) : Kept b' ref r := by
  refine ⟨fun hget => ?_, hflights ▸ h.flight, hadm ▸ h.past, hadm ▸ h.once⟩
  have hk := h.receipt hget
  exact ⟨hk.fits, hk.placed.frame hla.ge (by rw [hflights]) (by rw [hruns]),
    hadm ▸ hk.known⟩

variable {change : CloseState → CloseState}

lemma Sound.modify (h : Sound b)
    (hk : ∀ r, b.refs.get? ref = some r → Kept b ref r → Kept b ref (change r)) :
    Sound { b with refs := b.refs.modify ref change } := by
  cases hget : b.refs.get? ref with
  | none =>
    have hs : b.refs.modify ref change = b.refs := by simp [Table.modify, hget]
    rwa [hs]
  | some r =>
    have hself : (b.refs.modify ref change).get? ref = some (change r) := Table.get?_modified hget
    exact h.change (fun hne => Table.get?_modify_ne hne) hself
      (fun _ hf => hf) le_rfl (fun _ _ => ⟨rfl, rfl⟩)
      (fun _ => Iff.rfl) h.issued
      ((hk r hget (h.kept hget)).rebook rfl rfl rfl rfl)

/-- A native close is started for a reference that has none under way. -/
lemma Sound.launch (h : Sound b) (href : b.refs.get? ref = some r)
    (hadm : ∀ {other attempt}, other ≠ ref →
      ((other, attempt) ∈ admitted ↔ (other, attempt) ∈ b.admitted)) (hk : Kept { b with
        refs := b.refs.modify ref change
        flights := b.flights.set (b.lastRun + 1) (ref, generation)
        lastRun := b.lastRun + 1
        admitted } ref (change r)) :
    Sound { b with
      refs := b.refs.modify ref change
      flights := b.flights.set (b.lastRun + 1) (ref, generation)
      lastRun := b.lastRun + 1
      admitted } := by
  refine h.change (fun hne => Table.get?_modify_ne hne)
    (by rw [Table.get?_modify_self, href]; rfl) ?_ (Nat.le_succ _)
    (fun hle _ => ⟨Table.get?_set_ne (Nat.ne_of_lt (Nat.lt_succ_of_le hle)), rfl⟩)
    hadm ?_ hk
  · intro other run g hne hf
    rcases Table.set_cases hf with ⟨-, heq⟩ | ⟨-, hf⟩
    · cases heq
      exact absurd rfl hne
    · exact hf
  · intro run flight hf
    rcases Table.set_cases hf with ⟨heq, -⟩ | ⟨-, hf⟩
    · exact heq.le
    · exact Nat.le_succ_of_le (h.issued hf)

/-! ## One move -/

/-- What the return of a native close does to the generation of its reference,
with the outcome that its receipt gets. -/
inductive Turn (r r' : CloseState) : FileActionOutcome → Prop
  | release (hrel : r'.released = true) (hnex : r'.next = r.next) : Turn r r' .completed
  | renew (hrel : r'.released = r.released)
      (hnex : r'.next = r.next + 1) : Turn r r' .completed
  | keep (hrel : r'.released = r.released) (hnex : r'.next = r.next) : Turn r r' .unknown

lemma settled_turn (r : CloseState) (generation : ℕ)
    (result : ReferenceCloseResult) (err : Option NativeError) (expires : Time) :
    ∃ outcome, (Session.CloseState.settled r generation result err expires).receipts =
        r.receipts.modify generation (fun receipt =>
          { receipt with result, err, expires, outcome }) ∧
      Turn r (Session.CloseState.settled r generation result err expires) outcome := by
  unfold Session.CloseState.settled
  cases hrel : result.released with
  | true => exact ⟨.completed, rfl, .release rfl rfl⟩
  | false =>
    cases hdet : result.determined with
    | true => exact ⟨.completed, rfl, .renew rfl rfl⟩
    | false => exact ⟨.unknown, rfl, .keep rfl rfl⟩

namespace Turn

variable {r r' : CloseState} {outcome : FileActionOutcome} (h : Turn r r' outcome)
include h

lemma next_le (hle : generation ≤ r.next) : generation ≤ r'.next := by
  cases h <;> omega

/-- A completed receipt of the old generation is the last one only if the
reference is released. -/
lemma settles (hdo : outcome = .completed) (hold : generation = r.next)
    (hnew : generation = r'.next) : r'.released = true := by
  cases h with
  | release hrel hnex => exact hrel
  | renew hrel hnex => omega
  | keep hrel hnex => cases hdo

lemma stays (hle : generation ≤ r.next) (hold : generation ≠ r.next)
    (hnew : generation = r'.next) : r'.released = true := by
  cases h with
  | release hrel hnex => exact hrel
  | renew | keep => omega

lemma not_pending : outcome ≠ .pending := by
  cases h <;> exact FileActionOutcome.noConfusion

lemma unsettled (ho : outcome ≠ .completed) :
    r'.next = r.next ∧ r'.released = r.released ∧ outcome = .unknown := by
  cases h with
  | keep hrel hnex => exact ⟨hnex, hrel, rfl⟩
  | _ => exact absurd rfl ho

end Turn

section Kept

variable {b : Book} {ref : ℕ} {r : CloseState}

section

variable (h : Kept b ref r)
include h

lemma Kept.idle (hidl : Idle r r') : Kept b ref r' := by
  refine ⟨?_, hidl.receipts ▸ h.flight, ?_, h.once⟩
  · intro generation receipt hget
    rw [hidl.receipts] at hget
    have hk := h.receipt hget
    have hfi := hk.fits
    refine ⟨?_, hk.placed, hk.known⟩
    rcases hidl.next with hnex | ⟨hzero, -⟩
    · constructor
      · exact hfi.positive
      · exact hnex ▸ hfi.reached
      · rw [hnex, hidl.released]
        exact hfi.completed
      · rw [hnex, hidl.released]
        exact hfi.open_
    · have hpos := hfi.positive
      have hreached := hfi.reached
      omega
  · intro attempt hm
    obtain ⟨hle, hla⟩ := h.past hm
    rw [hidl.released, hidl.receipts]
    rcases hidl.next with hnex | ⟨hzero, hone⟩
    · rw [hnex]
      exact ⟨hle, hla⟩
    · omega

lemma Kept.drop (hget : r.receipts.get? generation = some receipt)
    (hp : receipt.outcome ≠ .pending) (hun : receipt.outcome ≠ .unknown) :
    Kept b ref { r with receipts := r.receipts.erase generation } := by
  refine ⟨fun hfd => ?_, ?_, ?_, h.once⟩
  · exact (h.receipt (Table.erase_cases hfd).2).restate rfl rfl
  · intro run g hf
    obtain ⟨found, hfd, hfly, hrun⟩ := h.flight hf
    refine ⟨found, ?_, hfly, hrun⟩
    refine (Table.get?_erase_ne ?_).trans hfd
    rintro rfl
    rw [hget] at hfd
    cases hfd
    exact hp hfly
  · intro attempt hm
    obtain ⟨hle, hla⟩ := h.past hm
    refine ⟨hle, fun hgen => ?_⟩
    by_cases heq : attempt.generation = generation
    · have hfi := (h.receipt hget).fits
      exact .inl (hfi.completed (hfi.done hp hun) (heq ▸ hgen))
    · rcases hla hgen with hrel | ⟨found, hfd⟩
      · exact .inl hrel
      · exact .inr ⟨found, (Table.get?_erase_ne heq).trans hfd⟩

/-- A reference has a native close under way only for its next generation. -/
lemma Kept.flight_next (hf : b.flights.get? run = some (ref, generation)) :
    generation = r.next ∧ r.released = false ∧ ∃ receipt,
      r.receipts.get? generation = some receipt ∧
        receipt.outcome = .pending ∧ receipt.run = run := by
  obtain ⟨receipt, hget, hp, hrun⟩ := h.flight hf
  obtain ⟨hnex, ho, -⟩ := (h.receipt hget).fits.open_ (by
    rw [hp]
    exact FileActionOutcome.noConfusion)
  exact ⟨hnex, ho, receipt, hget, hp, hrun⟩

/-- No attempt of a generation that is open and has no receipt was admitted. -/
lemma Kept.never_admitted (hnex : generation = r.next) (ho : r.released = false)
    (hn : r.receipts.get? generation = none) (hm : (ref, attempt) ∈ b.admitted) :
    attempt.generation ≠ generation := by
  intro heq
  rcases (h.past hm).2 (heq.trans hnex) with hrel | ⟨receipt, hget⟩
  · rw [ho] at hrel
    cases hrel
  · rw [heq, hn] at hget
    cases hget

end

end Kept

namespace Sound

variable {b : Book}

section

variable (h : Sound b)
include h

lemma openRef (hnew : b.refs.get? ref = none) :
    Sound { b with refs := b.refs.set ref .fresh } := by
  have hn : ∀ attempt, (ref, attempt) ∉ b.admitted := by
    intro attempt hm
    have hsome := h.homed hm
    rw [hnew] at hsome
    cases hsome
  refine h.change (fun hne => Table.get?_set_ne hne) (Table.get?_set_self _ _ _)
    (fun _ hf => hf) le_rfl (fun _ _ => ⟨rfl, rfl⟩)
    (fun _ => Iff.rfl) h.issued ⟨?_, ?_, ?_, ?_⟩
  · intro generation receipt hget
    cases (Table.get?_empty generation).symm.trans hget
  · intro run generation hf
    have hsome := h.flown hf
    rw [hnew] at hsome
    cases hsome
  · exact fun hm => absurd hm (hn _)
  · exact fun hm => absurd hm (hn _)

lemma relaunch (hget : b.receipt? ref generation = some receipt)
    (hun : receipt.outcome = .unknown) :
    Sound { b with
      refs := b.refs.modify ref fun r => { r with
        receipts := r.receipts.modify generation fun receipt =>
          { receipt with run := b.lastRun + 1, outcome := .pending } }
      flights := b.flights.set (b.lastRun + 1) (ref, generation)
      lastRun := b.lastRun + 1 } := by
  obtain ⟨r, hr, hget⟩ := receipt?_eq_some.mp hget
  have hk := h.kept hr
  obtain ⟨hnex, ho, -⟩ := (hk.receipt hget).fits.open_ (by
    rw [hun]
    exact FileActionOutcome.noConfusion)
  have hn : ∀ run g, b.flights.get? run ≠ some (ref, g) := by
    intro run g hf
    obtain ⟨hg, -, found, hfd, hp, -⟩ := hk.flight_next hf
    rw [hg, ← hnex, hget] at hfd
    cases hfd
    rw [hun] at hp
    cases hp
  refine h.launch hr (fun _ => Iff.rfl) ⟨?_, ?_, ?_, hk.once⟩
  · intro g found' hfound'
    obtain ⟨found, hfd, rfl⟩ := Table.of_get?_modify hfound'
    obtain ⟨hfi, hpl, hknown⟩ := hk.receipt hfd
    split_ifs with heq
    · refine ⟨⟨hfi.positive, hfi.reached, fun hdo => ?_,
        fun _ => ⟨heq ▸ hnex, ho, .inl rfl⟩⟩, ⟨le_rfl, fun _ => ?_,
        fun hne => absurd rfl hne, fun hne => absurd rfl hne⟩, hknown⟩
      · cases hdo
      · rw [heq]
        exact Table.get?_set_self _ _ _
    · exact .restate ⟨hfi, hpl.launch, hknown⟩ rfl rfl
  · intro run g hf
    rcases Table.set_cases hf with ⟨heq, hs⟩ | ⟨-, hf⟩
    · cases hs
      refine ⟨{ receipt with run := b.lastRun + 1, outcome := .pending }, ?_, rfl, heq.symm⟩
      exact Table.get?_modified hget
    · exact absurd hf (hn run g)
  · intro attempt hm
    obtain ⟨hle, hla⟩ := hk.past hm
    refine ⟨hle, fun hgen => (hla hgen).imp_right ?_⟩
    rintro ⟨found, hfd⟩
    exact ⟨_, Table.get?_modify_of_some hfd⟩

lemma record (href : b.refs.get? ref = some r)
    (hnex : attempt.generation = r.next) (hpos : 0 < attempt.generation)
    (ho : r.released = false) (hnew : r.receipts.get? attempt.generation = none) :
    Sound { b with
      refs := b.refs.modify ref fun r => { r with
        receipts := r.receipts.set attempt.generation
          ⟨attempt.action, b.lastRun + 1, ⟨false, false⟩, none, 0, .pending⟩ }
      flights := b.flights.set (b.lastRun + 1) (ref, attempt.generation)
      lastRun := b.lastRun + 1
      admitted := (ref, attempt) :: b.admitted } := by
  have hk := h.kept href
  have hn : ∀ run g, b.flights.get? run ≠ some (ref, g) := by
    intro run g hf
    obtain ⟨hg, -, found, hfd, -⟩ := hk.flight_next hf
    rw [hg, ← hnex, hnew] at hfd
    cases hfd
  have hfirst : ∀ other, (ref, other) ∈ b.admitted → other.generation ≠ attempt.generation :=
    fun other hm => hk.never_admitted hnex ho hnew hm
  refine h.launch href (fun hne => by simp [hne]) ⟨?_, ?_, ?_, ?_⟩
  · intro g found hfd
    rcases Table.set_cases hfd with ⟨heq, rfl⟩ | ⟨-, hfd⟩
    · refine ⟨⟨heq ▸ hpos, (heq.trans hnex).le, fun hdo => ?_,
        fun _ => ⟨heq.trans hnex, ho, .inl rfl⟩⟩, ?_, ?_⟩
      · cases hdo
      · rw [heq]
        exact ⟨le_rfl, fun _ => Table.get?_set_self _ _ _,
          fun hne => absurd rfl hne, fun hne => absurd rfl hne⟩
      · rw [heq]
        exact List.mem_cons_self
    · obtain ⟨hfi, hpl, hknown⟩ := hk.receipt hfd
      exact .restate ⟨hfi, hpl.launch, List.mem_cons_of_mem _ hknown⟩ rfl rfl
  · intro run g hf
    rcases Table.set_cases hf with ⟨heq, hs⟩ | ⟨-, hf⟩
    · cases hs
      exact ⟨_, Table.get?_set_self _ _ _, rfl, heq.symm⟩
    · exact absurd hf (hn run g)
  · intro other hm
    rcases List.mem_cons.mp hm with heq | hm
    · cases heq
      exact ⟨hnex.le, fun _ => .inr ⟨_, Table.get?_set_self _ _ _⟩⟩
    · obtain ⟨hle, -⟩ := hk.past hm
      refine ⟨hle, fun hgen => ?_⟩
      exact absurd (hgen.trans hnex.symm) (hfirst other hm)
  · intro first second hm hmem' hgen
    rcases List.mem_cons.mp hm with heq | hm <;>
      rcases List.mem_cons.mp hmem' with heq' | hmem'
    · cases heq
      cases heq'
      rfl
    · cases heq
      exact absurd hgen.symm (hfirst second hmem')
    · cases heq'
      exact absurd hgen (hfirst first hm)
    · exact hk.once hm hmem' hgen

lemma land (result : ReferenceCloseResult) (err : Option NativeError) (expires : Time)
    (hf : b.flights.get? run = some (ref, generation)) :
    Sound (b.land run ref generation result err expires) := by
  obtain ⟨r, hr⟩ := Option.isSome_iff_exists.mp (h.flown hf)
  have hk := h.kept hr
  obtain ⟨hnex, ho, receipt, hget, hp, hrun⟩ := hk.flight_next hf
  -- every native close of this reference belongs to that one receipt
  have honly : ∀ other g, b.flights.get? other = some (ref, g) → other = run := by
    intro other g hot
    obtain ⟨hg, -, found, hfd, -, hfoundRun⟩ := hk.flight_next hot
    rw [hg, ← hnex, hget] at hfd
    cases hfd
    exact hfoundRun.symm.trans hrun
  have hruns : ∀ {other}, other ≠ run →
      (b.flights.erase run).get? other = b.flights.get? other ∧
        (b.runs.set run (result, err)).get? other = b.runs.get? other :=
    fun hne => ⟨Table.get?_erase_ne hne, Table.get?_set_ne hne⟩
  have hself : (b.land run ref generation result err expires).refs.get? ref =
      some (Session.CloseState.settled r generation result err expires) := by
    exact Table.get?_modified hr
  refine h.change (fun hne => Table.get?_modify_ne hne) hself
    (fun _ hot => (Table.erase_cases hot).2)
    le_rfl (fun _ hapart => hruns (fun heq => hapart _ (heq ▸ hf)))
    (fun _ => Iff.rfl) (fun hot => h.issued (Table.erase_cases hot).2) ?_
  obtain ⟨outcome, hreceipts, hturn⟩ := settled_turn r generation result err expires
  -- the receipts of the other generations are completed
  have hothers : ∀ {g found}, r.receipts.get? g = some found →
      g ≠ generation → found.outcome = .completed := by
    intro g found hfd hne
    by_contra ho
    exact hne (((hk.receipt hfd).fits.open_ ho).1.trans hnex.symm)
  refine ⟨?_, ?_, ?_, hk.once⟩
  · intro g found' hfound'
    rw [hreceipts] at hfound'
    obtain ⟨found, hfd, rfl⟩ := Table.of_get?_modify hfound'
    obtain ⟨hfi, hpl, hknown⟩ := hk.receipt hfd
    have hreached := hturn.next_le hfi.reached
    split_ifs with heq
    · rw [heq, hget] at hfd
      cases hfd
      refine ⟨⟨hfi.positive, hreached,
        fun hdo hg => hturn.settles hdo (heq.trans hnex) hg, fun hdo => ?_⟩,
        ⟨hpl.issued, fun hne => absurd hne hturn.not_pending, fun _ => ?_, fun _ => ?_⟩, hknown⟩
      · obtain ⟨hs, hrel, hun⟩ := hturn.unsettled hdo
        exact ⟨hs ▸ heq.trans hnex, hrel.trans ho, .inr hun⟩
      · rw [hrun]
        exact Table.get?_erase_self _ _
      · rw [hrun]
        exact Table.get?_set_self _ _ _
    have hdo := hothers hfd heq
    have hne : found.run ≠ run := by
      intro hs
      have hn := hpl.done (by
        rw [hdo]
        exact FileActionOutcome.noConfusion)
      rw [hs, hf] at hn
      cases hn
    refine ⟨⟨hfi.positive, hreached, fun _ hg => ?_, fun hne => absurd hdo hne⟩,
      hpl.frame le_rfl (hruns hne).1 (hruns hne).2, hknown⟩
    exact hturn.stays hfi.reached (fun hla => heq (hla.trans hnex.symm)) hg
  · intro other g hot
    obtain ⟨hne, hot⟩ := Table.erase_cases hot
    exact absurd (honly other g hot) hne
  · intro attempt hm
    obtain ⟨hle, hla⟩ := hk.past hm
    refine ⟨hturn.next_le hle, fun hgen => ?_⟩
    by_cases heq : attempt.generation = generation
    · right
      rw [heq, hreceipts, Table.get?_modify_self, hget]
      exact ⟨_, rfl⟩
    · exact .inl (hturn.stays hle (fun hg => heq (hg.trans hnex.symm)) hgen)

variable {caller : Option (ℕ × CloseAttempt)}

lemma move (hmove : Move caller b b') : Sound b' := by
  cases hmove with
  | advance hlater =>
    exact ⟨fun hr => (h.kept hr).rebook rfl rfl rfl rfl, h.issued, h.flown, h.homed⟩
  | openRef hnew => exact h.openRef hnew
  | note ref hidl => exact h.modify fun r _ hk => hk.idle (hidl r)
  | drop hget hp hun =>
    obtain ⟨r, hr, hget⟩ := receipt?_eq_some.mp hget
    refine h.modify fun r' hr' hk => ?_
    rw [hr] at hr'
    cases hr'
    exact hk.drop hget hp hun
  | relaunch _ hget _ hun => exact h.relaunch hget hun
  | record _ href hnex hpos ho hnew _ => exact h.record href hnex hpos ho hnew

lemma flight_unique {run' generation' : ℕ} (hf : b.flights.get? run = some (ref, generation))
    (hf' : b.flights.get? run' = some (ref, generation')) : run = run' := by
  obtain ⟨r, hr⟩ := Option.isSome_iff_exists.mp (h.flown hf)
  obtain ⟨hg, -, found, hfd, -, hrun⟩ := (h.kept hr).flight_next hf
  obtain ⟨hg', -, found', hfound', -, hrun'⟩ := (h.kept hr).flight_next hf'
  rw [hg] at hfd
  rw [hg', hfd] at hfound'
  cases hfound'
  exact hrun.symm.trans hrun'

end

end Sound

/-! ## Chains of moves -/

/-- What the moves of a section do for a caller, seen from where it starts. -/
structure Grows (caller : Option (ℕ × CloseAttempt)) (b b' : Book) : Prop where
  epoch : b.epoch ≤ b'.epoch
  refs : ∀ {ref r}, b.refs.get? ref = some r →
    ∃ r', b'.refs.get? ref = some r' ∧ r'.released = r.released ∧ r'.generation = r.generation
  flights : ∀ {run flight}, b.flights.get? run = some flight → b'.flights.get? run = some flight
  admitted : ∀ {entry}, entry ∈ b.admitted → entry ∈ b'.admitted
  /-- Admission is over for an attempt of an earlier epoch. -/
  missed : ∀ {ref attempt}, attempt.requested < b.epoch →
    (ref, attempt) ∉ b.admitted → (ref, attempt) ∉ b'.admitted
  unknown : ∀ {ref generation receipt},
    b'.receipt? ref generation = some receipt → receipt.outcome = .unknown →
      b.receipt? ref generation = some receipt
  starts : ∀ {run ref generation}, b.flights.get? run = none →
    b'.flights.get? run = some (ref, generation) → ∃ attempt, caller = some (ref, attempt) ∧
        attempt.generation = generation ∧
        (∀ r, b.refs.get? ref = some r → r.released = false) ∧
        ((∃ receipt, b.receipt? ref generation = some receipt ∧
            receipt.action = attempt.action ∧ receipt.outcome = .unknown) ∨
          ∀ other, (ref, other) ∈ b.admitted → other.generation ≠ generation)

namespace Grows

variable {caller : Option (ℕ × CloseAttempt)} {b b' b'' : Book}

lemma refl {b : Book} :
    Grows caller b b where
  epoch := le_rfl
  refs := fun hr => ⟨_, hr, rfl, rfl⟩
  flights := fun hf => hf
  admitted := fun hm => hm
  missed := fun _ hm => hm
  unknown := fun hget _ => hget
  starts := fun hn hf => by
    rw [hn] at hf
    cases hf

lemma trans (h : Grows caller b b') (h' : Grows caller b' b'') :
    Grows caller b b'' where
  epoch := h.epoch.trans h'.epoch
  refs := fun hr => by
    obtain ⟨r', hr', hrel, hgen⟩ := h.refs hr
    obtain ⟨r'', hr'', hreleased', hgeneration'⟩ := h'.refs hr'
    exact ⟨r'', hr'', hreleased'.trans hrel, hgeneration'.trans hgen⟩
  flights := fun hf => h'.flights (h.flights hf)
  admitted := fun hm => h'.admitted (h.admitted hm)
  missed := fun hepoch hm => h'.missed (hepoch.trans_le h.epoch) (h.missed hepoch hm)
  unknown := fun hget hun => h.unknown (h'.unknown hget hun) hun
  starts := by
    intro run ref generation hn hf
    cases hmiddle : b'.flights.get? run with
    | some flight =>
      rw [h'.flights hmiddle] at hf
      cases hf
      exact h.starts hn hmiddle
    | none =>
      obtain ⟨attempt, hcaller, hgen, hrel, hwhy⟩ := h'.starts hmiddle hf
      refine ⟨attempt, hcaller, hgen, fun r hr => ?_, ?_⟩
      · obtain ⟨r', hr', heq, -⟩ := h.refs hr
        exact heq ▸ hrel r' hr'
      · rcases hwhy with ⟨receipt, hget, haction, hun⟩ | hfirst
        · exact .inl ⟨receipt, h.unknown hget hun, haction, hun⟩
        · exact .inr fun other hm => hfirst other (h.admitted hm)

/-- A change of references that keeps their generations, their release and the
receipts whose result is unknown. -/
lemma of_refs (hrefs : ∀ {ref r}, b.refs.get? ref = some r →
      ∃ r', refs.get? ref = some r' ∧ r'.released = r.released ∧
        r'.generation = r.generation) (hun : ∀ {ref generation receipt},
      (refs.get? ref).bind (fun r => r.receipts.get? generation) =
        some receipt → receipt.outcome = .unknown → b.receipt? ref generation = some receipt) :
    Grows caller b { b with refs } where
  epoch := le_rfl
  refs := hrefs
  flights := fun hf => hf
  admitted := fun hm => hm
  missed := fun _ hm => hm
  unknown := hun
  starts := Grows.refl.starts

lemma of_modify (hrefs : ∀ r, (change r).released = r.released ∧
      (change r).generation = r.generation) (hreceipts : ∀ r generation receipt,
      (change r).receipts.get? generation = some receipt →
        receipt.outcome = .unknown → r.receipts.get? generation = some receipt) :
    Grows caller b { b with refs := b.refs.modify ref change } := by
  refine of_refs ?_ ?_
  · intro other r hr
    rw [Table.get?_modify]
    split_ifs with heq
    · rw [← heq, hr]
      exact ⟨change r, rfl, hrefs r⟩
    · exact ⟨r, hr, rfl, rfl⟩
  · intro other generation receipt hget hun
    obtain ⟨r', hr', hget⟩ := Option.bind_eq_some_iff.mp hget
    obtain ⟨r, hr, rfl⟩ := Table.of_get?_modify hr'
    refine receipt?_eq_some.mpr ⟨r, hr, ?_⟩
    split_ifs at hget
    · exact hreceipts r generation receipt hget hun
    · exact hget

end Grows

lemma Idle.stage (h : Idle r r') : r'.generation = r.generation := by
  unfold CloseState.generation
  rcases h.next with hnex | ⟨hzero, hone⟩
  · rw [hnex]
  · rw [hzero, hone]
    rfl

lemma Grows.launch (h : Sound b)
    (hcaller : caller = some (ref, attempt)) (href : b.refs.get? ref = some r)
    (ho : r.released = false)
    (hmodify : Grows caller b { b with refs := b.refs.modify ref change })
    (hadm : ∀ {entry}, entry ∈ b.admitted → entry ∈ admitted)
    (hmissed : ∀ {other other'}, other'.requested < b.epoch →
      (other, other') ∉ b.admitted → (other, other') ∉ admitted)
    (hwhy : (∃ receipt, b.receipt? ref attempt.generation = some receipt ∧
        receipt.action = attempt.action ∧ receipt.outcome = .unknown) ∨
      ∀ other, (ref, other) ∈ b.admitted → other.generation ≠ attempt.generation) :
    Grows caller b { b with
      refs := b.refs.modify ref change
      flights := b.flights.set (b.lastRun + 1) (ref, attempt.generation)
      lastRun := b.lastRun + 1
      admitted } where
  epoch := le_rfl
  refs := hmodify.refs
  flights := by
    intro run flight hf
    refine (Table.get?_set_ne ?_).trans hf
    exact Nat.ne_of_lt (Nat.lt_succ_of_le (h.issued hf))
  admitted := hadm
  missed := hmissed
  unknown := hmodify.unknown
  starts := by
    intro run other generation hn hf
    rw [Table.get?_set] at hf
    split_ifs at hf
    · cases hf
      refine ⟨attempt, hcaller, rfl, fun r' hr' => ?_, hwhy⟩
      rw [href] at hr'
      cases hr'
      exact ho
    · rw [hn] at hf
      cases hf

lemma Move.grows (h : Sound b) (hmove : Move caller b b') : Grows caller b b' := by
  cases hmove with
  | advance hlater => exact { Grows.refl with epoch := hlater }
  | @openRef ref hnew =>
    refine .of_refs ?_ ?_
    · intro other r hr
      refine ⟨r, (Table.get?_set_ne ?_).trans hr, rfl, rfl⟩
      rintro rfl
      rw [hnew] at hr
      cases hr
    · intro other generation receipt hget _
      rw [Table.get?_set] at hget
      split_ifs at hget
      · cases (Table.get?_empty generation).symm.trans hget
      · exact hget
  | note ref hidl =>
    refine .of_modify (fun r => ⟨(hidl r).released, (hidl r).stage⟩) ?_
    intro r generation receipt hget _
    exact (hidl r).receipts ▸ hget
  | drop hget hp hun =>
    refine .of_modify (fun r => ⟨rfl, rfl⟩) ?_
    intro r generation receipt hget _
    exact (Table.erase_cases hget).2
  | @relaunch ref attempt receipt hcaller hget haction hun =>
    obtain ⟨r, hr, hreceipt⟩ := receipt?_eq_some.mp hget
    obtain ⟨-, ho, -⟩ := ((h.kept hr).receipt hreceipt).fits.open_ (by
      rw [hun]
      exact FileActionOutcome.noConfusion)
    refine .launch h hcaller hr ho (.of_modify (fun r => ⟨rfl, rfl⟩) ?_)
      (fun hm => hm) (fun _ hm => hm)
      (.inl ⟨receipt, hget, haction, hun⟩)
    intro r generation found' hfound' hunknown'
    obtain ⟨found, hfd, rfl⟩ := Table.of_get?_modify hfound'
    by_cases heq : generation = attempt.generation
    · rw [if_pos heq] at hunknown'
      cases hunknown'
    · rwa [if_neg heq]
  | @record ref r attempt hcaller href hnex hpos ho hnew hepoch =>
    refine .launch h hcaller href ho (.of_modify (fun r => ⟨rfl, rfl⟩) ?_)
      (List.mem_cons_of_mem _) ?_
      (.inr fun other hm => (h.kept href).never_admitted hnex ho hnew hm)
    · intro r generation found hfd hun
      rw [Table.get?_set] at hfd
      split_ifs at hfd
      · cases hfd
        cases hun
      · exact hfd
    · intro other other' hepoch' hm hmem'
      rcases List.mem_cons.mp hmem' with heq | hmem'
      · cases heq
        exact absurd hepoch hepoch'.ne
      · exact hm hmem'

abbrev Chain (caller : Option (ℕ × CloseAttempt)) : Book → Book → Prop :=
  Relation.ReflTransGen (Move caller)

lemma Sound.chain (h : Sound b) (hchain : Chain caller b b') : Sound b' := by
  induction hchain with
  | refl => exact h
  | tail _ hmove ih => exact ih.move hmove

lemma Chain.grows (h : Sound b) (hchain : Chain caller b b') : Grows caller b b' := by
  induction hchain with
  | refl => exact .refl
  | tail hchain hmove ih => exact ih.trans (hmove.grows (h.chain hchain))

end Book
end ObjectStore
end RemoteFs
