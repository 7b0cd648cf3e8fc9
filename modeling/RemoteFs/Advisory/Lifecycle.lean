import RemoteFs.Advisory.Moves

/-!
# The states of a receipt

A request is created pending.  Every change of its state is a completion, which
the log records.  The states a request entered form a chain of allowed changes
whose last element is the state of the receipt, and a receipt says that it was
granted exactly if that state occurs in the chain.
-/

namespace RemoteFs.Advisory

open Storage Coordinator

/-- The state that an event says a request entered. -/
def Event.entry (ref : RequestRef) : Event → Option AttemptState
  | .entered other state => if other = ref then some state else none
  | _ => none

/-- The states that a request entered, in order. -/
def Coordinator.entered (c : Coordinator) (ref : RequestRef) : List AttemptState :=
  c.log.filterMap (Event.entry ref)

structure Chronicle (c : Coordinator) : Prop where
  allocated : ∀ {ref a}, c.heap ref = some a → ref < c.allocated
  unborn : ∀ {ref}, c.heap ref = none → c.entered ref = []
  chain : ∀ ref, List.IsChain Follows (.pending :: c.entered ref)
  state : ∀ {ref a}, c.heap ref = some a → a.result.state = (c.entered ref).getLastD .pending
  granted : ∀ {ref a}, c.heap ref = some a →
    (a.result.everGranted = true ↔ .granted ∈ c.entered ref)

namespace Chronicle

variable {c c' : Coordinator}

section

variable (hch : Chronicle c)
include hch

lemma of_quiet (hentered : ∀ ref, c'.entered ref = c.entered ref)
    (hallocated : c'.allocated = c.allocated)
    (hforth : ∀ {ref}, c'.heap ref = none → c.heap ref = none)
    (hback : ∀ {ref a'}, c'.heap ref = some a' → ∃ a, c.heap ref = some a ∧
      a'.result.state = a.result.state ∧
      a'.result.everGranted = a.result.everGranted) : Chronicle c' where
  allocated := fun hg => by
    obtain ⟨a, ha, -⟩ := hback hg
    rw [hallocated]
    exact hch.allocated ha
  unborn := fun hg => by
    rw [hentered]
    exact hch.unborn (hforth hg)
  chain := fun ref => by
    rw [hentered]
    exact hch.chain ref
  state := fun hg => by
    obtain ⟨a, ha, hst, -⟩ := hback hg
    rw [hst, hentered]
    exact hch.state ha
  granted := fun hg => by
    obtain ⟨a, ha, -, hgr⟩ := hback hg
    rw [hgr, hentered]
    exact hch.granted ha

lemma of_heap (hhe : c'.heap = c.heap) (hallocated : c'.allocated = c.allocated)
    (hentered : ∀ ref, c'.entered ref = c.entered ref) : Chronicle c' :=
  hch.of_quiet hentered hallocated (fun hg => hhe ▸ hg)
    fun hg => ⟨_, hhe ▸ hg, rfl, rfl⟩

lemma settle {ref : RequestRef} {a : Request} (hg : c.heap ref = some a) {state : AttemptState}
    (hfollows : Follows a.result.state state) (rejection : Option RejectionCode) :
    Chronicle (c.settleLocked ref a state rejection) := by
  have hself : (c.settleLocked ref a state rejection).entered ref = c.entered ref ++ [state] := by
    simp [entered, settleLocked, List.filterMap_cons, Event.entry]
  have hother : ∀ {other}, other ≠ ref →
      (c.settleLocked ref a state rejection).entered other =
        c.entered other := by
    intro other hne
    simp [entered, settleLocked, List.filterMap_cons, Event.entry, Ne.symm hne]
  have hhe : (c.settleLocked ref a state rejection).heap =
      Function.update c.heap ref (some (a.completed state rejection
        (c.time + c.historyOf a.key.session))) := by
    change Function.update c.heap ref ((c.heap ref).map _) = _
    rw [hg]
    rfl
  constructor
  · intro other b hb
    rcases heap_cases hhe hb with ⟨rfl, -⟩ | ⟨-, hb⟩
    · exact hch.allocated hg
    · exact hch.allocated hb
  · intro other hb
    rw [hhe] at hb
    by_cases heq : other = ref
    · simp [heq] at hb
    · rw [Function.update_of_ne heq] at hb
      rw [hother heq]
      exact hch.unborn hb
  · intro other
    by_cases heq : other = ref
    · rw [heq, hself, ← List.cons_append]
      refine (hch.chain ref).append (.singleton _) fun x hx y hy => ?_
      rw [hch.state hg, List.getLastD_eq_getLast?] at hfollows
      rw [List.getLast?_cons, Option.mem_some_iff] at hx
      rw [List.head?_cons, Option.mem_some_iff] at hy
      rwa [← hx, ← hy]
    · rw [hother heq]
      exact hch.chain other
  · intro other b hb
    rcases heap_cases hhe hb with ⟨rfl, rfl⟩ | ⟨hne, hb⟩
    · rw [hself]
      simp [Request.completed]
    · rw [hother hne]
      exact hch.state hb
  · intro other b hb
    rcases heap_cases hhe hb with ⟨rfl, rfl⟩ | ⟨hne, hb⟩
    · rw [hself]
      simp only [Request.completed, Bool.or_eq_true, decide_eq_true_eq,
        hch.granted hg, List.mem_append, List.mem_singleton]
      exact or_congr_right eq_comm
    · rw [hother hne]
      exact hch.granted hb

lemma enroll (session : ℕ) {action : Request} (hst : action.result.state = .pending)
    (hgr : action.result.everGranted = false) :
    Chronicle (c.admitLocked session action) := by
  have hunused : c.entered c.allocated = [] := by
    apply hch.unborn
    cases hg : c.heap c.allocated with
    | none => rfl
    | some a => exact absurd (hch.allocated hg) (lt_irrefl _)
  have hentered : ∀ ref, (c.admitLocked session action).entered ref =
      c.entered ref := fun _ => rfl
  have hhe : (c.admitLocked session action).heap =
      Function.update c.heap c.allocated (some action) := rfl
  constructor
  · intro ref a hg
    rcases heap_cases hhe hg with ⟨rfl, -⟩ | ⟨-, hg⟩
    · exact Nat.lt_succ_self _
    · exact (hch.allocated hg).trans (Nat.lt_succ_self _)
  · intro ref hg
    rw [hhe] at hg
    by_cases heq : ref = c.allocated
    · simp [heq] at hg
    · rw [Function.update_of_ne heq] at hg
      exact hch.unborn hg
  · exact hch.chain
  · intro ref a hg
    rw [hentered]
    rcases heap_cases hhe hg with ⟨rfl, rfl⟩ | ⟨-, hg⟩
    · rw [hunused, hst]
      rfl
    · exact hch.state hg
  · intro ref a hg
    rw [hentered]
    rcases heap_cases hhe hg with ⟨rfl, rfl⟩ | ⟨-, hg⟩
    · rw [hunused, hgr]
      simp
    · exact hch.granted hg

lemma prune (session : ℕ) (now : Time) : Chronicle (c.pruneHistoryLocked session now) := by
  unfold pruneHistoryLocked
  split
  · exact hch
  · refine hch.of_heap rfl rfl fun ref => ?_
    simp [entered, Event.entry, Function.comp_def]

lemma move (hmove : Move c c') : Chronicle c' := by
  cases hmove with
  | quiet hsm =>
    refine hch.of_heap hsm.heap hsm.allocated fun ref => ?_
    simp only [entered, hsm.log]
  | tick | renew | create | dissolve => exact hch.of_heap rfl rfl fun _ => rfl
  | @touch ref a change hg hidentity hexpires hst hgr =>
    have hhe := modifyRequest_heap hg change
    refine hch.of_quiet (fun _ => rfl) rfl (fun {other} hb => ?_)
      fun {other b} hb => ?_
    · rw [hhe] at hb
      by_cases heq : other = ref
      · simp [heq] at hb
      · rwa [Function.update_of_ne heq] at hb
    · rcases heap_cases hhe hb with ⟨rfl, rfl⟩ | ⟨-, hb⟩
      · exact ⟨a, hg, hst, hgr⟩
      · exact ⟨b, hb, rfl, rfl⟩
  | start hg =>
    refine hch.of_heap rfl rfl fun ref => ?_
    simp [entered, Event.entry]
  | settle hkept hfollows rejection => exact hch.settle hkept.heap hfollows rejection
  | prune session hpast => exact hch.prune session _
  | enroll action hs hnew hid hepoch hread hlive hst hgr =>
    exact hch.enroll _ hst hgr

end

end Chronicle

lemma chronicle_of_run {config : Config} {now : ℕ → Time} {c : Coordinator}
    (hnew : new config now = .ok c) (steps : List Section) : Chronicle (steps.foldl exec c) := by
  have hinit : Chronicle c := by
    rw [(new_eq_ok hnew).2]
    exact ⟨nofun, fun _ => rfl, fun _ => .singleton _, nofun, nofun⟩
  refine (Runs.invariant (motive := fun c =>
    (Sound True c ∧ Timely c) ∧ Chronicle c) (fun c step h => ?_)
      ⟨⟨sound_new hnew, timely_new hnew⟩, hinit⟩ steps).2
  have hmoves := exec_moves h.1.1 h.1.2 step
  exact ⟨⟨h.1.1.exec step fun _ => trivial, hmoves.invariant Timely Timely.move h.1.2⟩,
    hmoves.invariant Chronicle (fun hc hmove => hc.move hmove) h.2⟩

end RemoteFs.Advisory
