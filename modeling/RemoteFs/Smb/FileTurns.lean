import RemoteFs.Smb.FileGate

/-!
# Turns are taken in order

A section of the gate is a chain of small edits.  In between, one handle may be
in the middle of a hand-over while all others are at rest: `Busy` names it, its
row and the tickets that really wait for it.  `drift` is what the tree has
finished and not yet taken from its count.  An edit concerns one handle; the
others cannot tell the tree before it from the tree after it (`Alike`).
-/

namespace RemoteFs.Smb

namespace FileTree

variable {c : Channel}

variable {t t' : FileTree} {drift n m k : ℕ} {hd : FileHandle} {queue : List ℕ}
  {err : Option TicketFailure}

/-! ## Invariants -/

def Open (t : FileTree) (handle ticket : ℕ) : Prop :=
  ∃ held, t.tickets.get? ticket = some held ∧ held.handle = handle ∧
    held.complete = false

def Had (t : FileTree) (ticket : ℕ) : Prop := ∃ handle, (handle, ticket) ∈ t.starts

/-- The channels that are to be closed. -/
def Closed (t : FileTree) : Channel → Prop
  | .ready k => t.Had k ∨ k ∈ t.completions
  | .ioIdle k => t.Had k ∧ k ∈ t.completions
  | .fileIdle n => n < t.nextIdle ∧ t.fileIdle ≠ some (.fileIdle n)

structure Channels (t : FileTree) : Prop where
  calm : t.panicked = false
  nodup : t.closes.Nodup
  closed : ∀ {c}, c ∈ t.closes ↔ t.Closed c
  current : ∀ {c}, t.fileIdle = some c → ∃ n < t.nextIdle, c = .fileIdle n

def unfinished (_ : ℕ) (held : Ticket) : ℕ := if held.complete then 0 else 1

/-- Operations that are admitted and not finished. -/
def operations (t : FileTree) : ℕ := t.tickets.total unfinished + t.works.card

structure Counts (t : FileTree) (drift : ℕ) : Prop where
  active : t.fileActive = t.operations + drift
  idle : t.fileIdle = none ↔ t.fileActive = 0
  work : ∀ w ∈ t.works, w < t.nextWork

structure Filed (t : FileTree) (k : ℕ) (held : Ticket) : Prop where
  below : k < t.nextTicket
  handle : (t.handles.get? held.handle).isSome
  completed : held.complete = true ↔ k ∈ t.completions
  began : held.started = true → t.Had k

structure Tickets (t : FileTree) : Prop where
  filed : ∀ {k held}, t.tickets.get? k = some held → t.Filed k held
  done : ∀ {k}, k ∈ t.completions → (t.tickets.get? k).isSome
  had : ∀ {n k}, (n, k) ∈ t.starts → (t.tickets.get? k).map Ticket.handle = some n
  handleBelow : ∀ {n}, (t.handles.get? n).isSome → n < t.nextHandle
  once : t.completions.Nodup
  order : t.starts.Pairwise fun a b => a.1 = b.1 → a.2 < b.2

structure Core (t : FileTree) (drift : ℕ) : Prop where
  channels : t.Channels
  counts : t.Counts drift
  tickets : t.Tickets

/-- The turn of a handle while the tickets of `queue` wait for it. -/
structure Turn (t : FileTree) (n : ℕ) (hd : FileHandle) (queue : List ℕ) : Prop where
  running : ∀ {k}, hd.ioRunning = some k → t.Open n k ∧ t.Had k ∧ hd.ioIdle = some (.ioIdle k)
  queued : ∀ {k}, k ∈ queue → t.Open n k ∧ ¬t.Had k
  owned : ∀ {k}, t.Open n k → hd.ioRunning = some k ∨ k ∈ queue
  sorted : queue.Pairwise (· < ·)
  after : ∀ {k q}, q ∈ queue → (n, k) ∈ t.starts → k < q

def Begun (t : FileTree) (hd : FileHandle) : Prop :=
  ∀ {k held}, hd.ioRunning = some k → t.tickets.get? k = some held →
    held.started = true

structure AtRest (t : FileTree) (n : ℕ) (hd : FileHandle) : Prop where
  turn : t.Turn n hd hd.ioQueue
  vacant : hd.ioRunning = none → hd.ioQueue = []
  fenced : hd.ioFenced = true → hd.ioQueue = [] ∧ t.Begun hd

structure Sound (t : FileTree) (drift : ℕ) : Prop extends t.Core drift where
  rest : ∀ {n hd}, t.handles.get? n = some hd → t.AtRest n hd

structure Busy (t : FileTree) (drift n : ℕ) (hd : FileHandle) (queue : List ℕ) :
    Prop extends t.Core drift where
  row : t.handles.get? n = some hd
  turn : t.Turn n hd queue
  rest : ∀ {m hd'}, m ≠ n → t.handles.get? m = some hd' → t.AtRest m hd'

/-! ## Trees that a handle cannot tell apart -/

structure Alike (n : ℕ) (t t' : FileTree) : Prop where
  opened : ∀ {k}, t'.Open n k ↔ t.Open n k
  had : ∀ {k}, t.Open n k → (t'.Had k ↔ t.Had k)
  given : ∀ {k}, (n, k) ∈ t'.starts → (n, k) ∈ t.starts
  started : ∀ {k held'}, t.Open n k → t'.tickets.get? k = some held' →
    ∃ held, t.tickets.get? k = some held ∧ (held.started = true → held'.started = true)

lemma Turn.of_alike (h : t.Turn n hd queue) (hal : Alike n t t') :
    t'.Turn n hd queue where
  running := by
    intro k hrun
    obtain ⟨ho, hhad, hidl⟩ := h.running hrun
    exact ⟨hal.opened.mpr ho, (hal.had ho).mpr hhad, hidl⟩
  queued := by
    intro k hk
    obtain ⟨ho, hhad⟩ := h.queued hk
    exact ⟨hal.opened.mpr ho, fun hnow => hhad ((hal.had ho).mp hnow)⟩
  owned := fun ho => h.owned (hal.opened.mp ho)
  sorted := h.sorted
  after := fun hq hsta => h.after hq (hal.given hsta)

lemma Turn.begun_of_alike (h : t.Turn n hd queue) (hal : Alike n t t')
    (hbegun : t.Begun hd) : t'.Begun hd := by
  intro k held' hrun hheld'
  obtain ⟨held, hh, hmono⟩ := hal.started (h.running hrun).1 hheld'
  exact hmono (hbegun hrun hh)

lemma AtRest.of_alike (h : t.AtRest n hd) (hal : Alike n t t') :
    t'.AtRest n hd where
  turn := h.turn.of_alike hal
  vacant := h.vacant
  fenced := fun hfenced => ⟨(h.fenced hfenced).1, h.turn.begun_of_alike hal (h.fenced hfenced).2⟩

lemma had_of_starts (hst : t'.starts = t.starts) (j : ℕ) :
    t'.Had j ↔ t.Had j := by simp only [Had, hst]

lemma had_of_given (hst : t'.starts = t.starts ++ [(n, k)]) (j : ℕ) :
    t'.Had j ↔ t.Had j ∨ j = k := by
  simp only [Had, hst, List.mem_append, List.mem_singleton, Prod.mk.injEq,
    exists_or, exists_eq_left]

lemma open_iff (n k : ℕ) : t.Open n k ↔ (t.tickets.get? k).map
    (fun held => (held.handle, held.complete)) = some (n, false) := by
  simp [Open]

lemma open_of_tickets (hti : t'.tickets = t.tickets) (m j : ℕ) :
    t'.Open m j ↔ t.Open m j := by simp only [Open, hti]

lemma open_of_complete (hti : t'.tickets = (t.completeTicket k err).tickets)
    (m j : ℕ) : t'.Open m j ↔ t.Open m j ∧ j ≠ k := by
  unfold Open
  rw [hti]
  constructor
  · rintro ⟨held', hheld', hhandle, hcomplete⟩
    obtain ⟨held, hh, rfl⟩ := Table.of_get?_modify hheld'
    split_ifs at hhandle hcomplete with heq
    exact ⟨⟨held, hh, hhandle, hcomplete⟩, heq⟩
  · rintro ⟨⟨held, hh, hhandle, hcomplete⟩, hne⟩
    exact ⟨held, (Table.get?_modify_ne hne).trans hh, hhandle, hcomplete⟩

lemma Open.handle_eq (hn : t.Open n k) (hm : t.Open m k) : n = m := by
  obtain ⟨held, hh, rfl, -⟩ := hn
  obtain ⟨held', hheld', rfl, -⟩ := hm
  cases hh.symm.trans hheld'
  rfl

lemma Open.not_completed (h : t.Tickets) (ho : t.Open n k) : k ∉ t.completions := by
  obtain ⟨held, hh, -, hfalse⟩ := ho
  rw [← (h.filed hh).completed, hfalse]
  exact Bool.false_ne_true

lemma Alike.of_eq (hti : t'.tickets = t.tickets)
    (hst : t'.starts = t.starts) : Alike n t t' where
  opened := open_of_tickets hti _ _
  had := fun _ => had_of_starts hst _
  given := fun hsta => hst ▸ hsta
  started := fun _ hh => ⟨_, hti ▸ hh, id⟩

lemma Alike.complete (ho : t.Open n k) (hne : m ≠ n)
    (hti : t'.tickets = (t.completeTicket k err).tickets)
    (hst : t'.starts = t.starts) : Alike m t t' := by
  have hother : ∀ {j}, t.Open m j → j ≠ k := by
    rintro j hj rfl
    exact hne (hj.handle_eq ho)
  refine ⟨?_, fun _ => had_of_starts hst _, fun hsta => hst ▸ hsta,
    fun hj hh => ⟨_, ?_, id⟩⟩
  · intro j
    rw [open_of_complete hti]
    exact and_iff_left_of_imp hother
  · rwa [hti, FileTree.completeTicket, Table.get?_modify_ne (hother hj)] at hh

lemma Alike.give (ho : t.Open n k) (hne : m ≠ n) (hti : t'.tickets = t.tickets)
    (hst : t'.starts = t.starts ++ [(n, k)]) : Alike m t t' := by
  refine ⟨open_of_tickets hti _ _, fun {j} hj => ?_, fun {j} hsta => ?_,
    fun _ hh => ⟨_, hti ▸ hh, id⟩⟩
  · rw [had_of_given hst]
    refine or_iff_left ?_
    rintro rfl
    exact hne (hj.handle_eq ho)
  · rw [hst, List.mem_append, List.mem_singleton, Prod.mk.injEq] at hsta
    exact hsta.resolve_right fun heq => hne heq.1

/-! ## Channels and counts -/

lemma close_eq (ho : c ∉ t.closes) :
    t.close (some c) = { t with closes := t.closes ++ [c] } := by
  simp only [close, if_neg ho]

lemma nodup_concat {α : Type} {values : List α} {value : α} (h : values.Nodup)
    (hnew : value ∉ values) : (values ++ [value]).Nodup := by
  rw [← List.concat_eq_append]
  exact h.concat hnew

lemma Channels.close (h : t.Channels) (ho : c ∉ t.closes) (hcalm : t'.panicked = t.panicked)
    (hcloses : t'.closes = t.closes ++ [c]) (hclosed : ∀ c', t'.Closed c' ↔ t.Closed c' ∨ c' = c)
    (hcur : ∀ {c'}, t'.fileIdle = some c' → t.fileIdle = some c')
    (hnext : t'.nextIdle = t.nextIdle) : t'.Channels where
  calm := hcalm.trans h.calm
  nodup := by
    rw [hcloses]
    exact nodup_concat h.nodup ho
  closed := by
    intro c'
    rw [hcloses, hclosed, List.mem_append, List.mem_singleton, h.closed]
  current := by
    rw [hnext]
    exact fun hidl => h.current (hcur hidl)

/-- The same handles and counters. -/
structure Same (t t' : FileTree) : Prop where
  handles : ∀ m, (t'.handles.get? m).isSome = (t.handles.get? m).isSome
  ticket : t'.nextTicket = t.nextTicket
  handle : t'.nextHandle = t.nextHandle

lemma Same.below (hs : Same t t') (h : t.Tickets)
    (hm : (t'.handles.get? m).isSome) : m < t'.nextHandle := by
  rw [hs.handle]
  exact h.handleBelow (hs.handles m ▸ hm)

lemma Tickets.of_eq (h : t.Tickets) (hti : t'.tickets = t.tickets)
    (hs : Same t t') (hco : t'.completions = t.completions)
    (hst : t'.starts = t.starts) : t'.Tickets where
  filed := by
    intro k held hh
    have hfi := h.filed (hti ▸ hh)
    refine ⟨hs.ticket ▸ hfi.below, by rw [hs.handles]; exact hfi.handle,
      hco ▸ hfi.completed, fun hstarted => ?_⟩
    exact (had_of_starts hst k).mpr (hfi.began hstarted)
  done := by
    rw [hco, hti]
    exact h.done
  had := by
    rw [hst, hti]
    exact h.had
  handleBelow := hs.below h
  once := hco ▸ h.once
  order := hst ▸ h.order

/-- One more operation is counted before it is there. -/
lemma Core.countFileWork (h : t.Core drift) : t.countFileWork.Core (drift + 1) := by
  have hat := h.counts.active
  unfold FileTree.countFileWork
  simp only
  split_ifs with hzero
  · have hnone := h.counts.idle.mpr hzero
    refine ⟨⟨h.channels.calm, h.channels.nodup, fun {c} => ?_, fun {c} hc => ?_⟩,
      ⟨?_, ?_, h.counts.work⟩, h.tickets.of_eq rfl ⟨fun _ => rfl, rfl, rfl⟩ rfl rfl⟩
    · refine h.channels.closed.trans ?_
      cases c with
      | ready | ioIdle => exact .rfl
      | fileIdle n =>
        simp only [Closed, hnone, ne_eq, reduceCtorEq, not_false_eq_true,
          and_true, Option.some.injEq, Channel.fileIdle.injEq]
        omega
    · cases hc
      exact ⟨t.nextIdle, Nat.lt_succ_self _, rfl⟩
    · show t.fileActive + 1 = (t.operations : ℤ) + ((drift + 1 : ℕ) : ℤ)
      push_cast
      omega
    · show some _ = none ↔ t.fileActive + 1 = 0
      simp only [reduceCtorEq, false_iff]
      omega
  refine ⟨⟨h.channels.calm, h.channels.nodup, h.channels.closed,
    h.channels.current⟩, ⟨?_, ?_, h.counts.work⟩,
    h.tickets.of_eq rfl ⟨fun _ => rfl, rfl, rfl⟩ rfl rfl⟩
  · show t.fileActive + 1 = (t.operations : ℤ) + ((drift + 1 : ℕ) : ℤ)
    push_cast
    omega
  · show t.fileIdle = none ↔ t.fileActive + 1 = 0
    rw [h.counts.idle]
    omega

lemma endFileWorkLocked_last (hone : t.fileActive = 1)
    (hidl : t.fileIdle = some c) (ho : c ∉ t.closes) :
    t.endFileWorkLocked =
      { t with fileActive := 0, fileIdle := none, closes := t.closes ++ [c] } := by
  simp [FileTree.endFileWorkLocked, hone, hidl, FileTree.close, ho]

lemma endFileWorkLocked_more (hmore : t.fileActive ≠ 1) :
    t.endFileWorkLocked = { t with fileActive := t.fileActive - 1 } := by
  have : t.fileActive - 1 ≠ 0 := by omega
  simp [FileTree.endFileWorkLocked, this]

lemma Core.endFileWorkLocked (h : t.Core (drift + 1)) : t.endFileWorkLocked.Core drift := by
  have hat := h.counts.active
  push_cast at hat
  by_cases hone : t.fileActive = 1
  · obtain ⟨c, hc⟩ : ∃ c, t.fileIdle = some c := by
      rw [← Option.ne_none_iff_exists', ne_eq, h.counts.idle]
      omega
    obtain ⟨n, hn, rfl⟩ := h.channels.current hc
    have ho : Channel.fileIdle n ∉ t.closes := by
      rw [h.channels.closed]
      exact fun hclosed => hclosed.2 hc
    rw [endFileWorkLocked_last hone hc ho]
    refine ⟨h.channels.close ho rfl rfl (fun c => ?_) (fun hnone => by cases hnone)
      rfl, ⟨?_, by simp, h.counts.work⟩,
      h.tickets.of_eq rfl ⟨fun _ => rfl, rfl, rfl⟩ rfl rfl⟩
    · cases c with
      | ready | ioIdle => simp [Closed, Had]
      | fileIdle k =>
        simp only [Closed, hc, ne_eq, Option.some.injEq, Channel.fileIdle.injEq,
          reduceCtorEq, not_false_eq_true, and_true]
        omega
    · show (0 : ℤ) = t.operations + drift
      omega
  rw [endFileWorkLocked_more hone]
  refine ⟨⟨h.channels.calm, h.channels.nodup, h.channels.closed,
    h.channels.current⟩, ⟨?_, ?_, h.counts.work⟩,
    h.tickets.of_eq rfl ⟨fun _ => rfl, rfl, rfl⟩ rfl rfl⟩
  · show t.fileActive - 1 = (t.operations : ℤ) + drift
    omega
  · show t.fileIdle = none ↔ t.fileActive - 1 = 0
    rw [h.counts.idle]
    omega

/-! ## Tickets -/

lemma Tickets.mark {change : Ticket → Ticket} (h : t.Tickets)
    (hti : t'.tickets = t.tickets.modify k change)
    (hs : Same t t') (hst : t'.starts = t.starts)
    (hhandle : ∀ held, (change held).handle = held.handle)
    (hbegan : ∀ held, t.tickets.get? k = some held → (change held).started = true → t.Had k)
    (hcomplete : ∀ j held, t.tickets.get? j = some held →
      ((if j = k then change held else held).complete = true ↔ j ∈ t'.completions))
    (hdone : ∀ {j}, j ∈ t'.completions → (t.tickets.get? j).isSome)
    (honce : t'.completions.Nodup) : t'.Tickets where
  filed := by
    intro j held' hheld'
    obtain ⟨held, hh, rfl⟩ := Table.of_get?_modify (hti ▸ hheld')
    have hfi := h.filed hh
    refine ⟨hs.ticket ▸ hfi.below, ?_, hcomplete j held hh, fun hstarted => ?_⟩
    · rw [hs.handles]
      split_ifs
      · rw [hhandle]
        exact hfi.handle
      · exact hfi.handle
    · refine (had_of_starts hst j).mpr ?_
      split_ifs at hstarted with hjk
      · subst hjk
        exact hbegan held hh hstarted
      · exact hfi.began hstarted
  done := by
    intro j hj
    rw [hti, Table.isSome_get?_modify]
    exact hdone hj
  had := by
    intro m j hmem
    rw [hti, Table.map_get?_modify _ _ _ _ hhandle]
    exact h.had (hst ▸ hmem)
  handleBelow := hs.below h
  once := honce
  order := hst ▸ h.order

lemma Tickets.complete (h : t.Tickets) (ho : t.Open n k)
    (hti : t'.tickets = (t.completeTicket k err).tickets)
    (hs : Same t t') (hst : t'.starts = t.starts)
    (hco : t'.completions = t.completions ++ [k]) : t'.Tickets := by
  have hnot := ho.not_completed h
  obtain ⟨open_, hg, -, -⟩ := ho
  refine h.mark hti hs hst (fun _ => rfl)
    (fun held hh => (h.filed hh).began) (fun j held hh => ?_)
    (fun {j} hj => ?_) ?_
  · have hcompleted := (h.filed hh).completed
    rw [hco, List.mem_append, List.mem_singleton]
    split_ifs with hjk
    · simp [hjk]
    · simp [hjk, hcompleted]
  · rw [hco, List.mem_append, List.mem_singleton] at hj
    rcases hj with hj | rfl
    · exact h.done hj
    · rw [hg]
      rfl
  · rw [hco]
    exact nodup_concat h.once hnot

lemma Counts.complete (h : t.Counts drift) (err : Option TicketFailure)
    (ho : t.Open n k) : (t.completeTicket k err).Counts (drift + 1) := by
  obtain ⟨held, hh, -, hcomplete⟩ := ho
  have hmodify := Table.total_modify
    (fun held : Ticket => { held with complete := true, err := err }) unfinished hh
  simp only [unfinished, hcomplete, if_true, Bool.false_eq_true, if_false] at hmodify
  have hat := h.active
  refine ⟨?_, h.idle, h.work⟩
  simp only [operations, FileTree.completeTicket] at hat hmodify ⊢
  push_cast at hat ⊢
  omega

lemma Tickets.give (h : t.Tickets) (ho : t.Open n k)
    (hafter : ∀ {j}, (n, j) ∈ t.starts → j < k) (hti : t'.tickets = t.tickets)
    (hs : Same t t') (hco : t'.completions = t.completions)
    (hst : t'.starts = t.starts ++ [(n, k)]) : t'.Tickets where
  filed := by
    intro j held hh
    have hfi := h.filed (hti ▸ hh)
    refine ⟨hs.ticket ▸ hfi.below, by rw [hs.handles]; exact hfi.handle,
      hco ▸ hfi.completed, fun hstarted => ?_⟩
    exact (had_of_given hst j).mpr (.inl (hfi.began hstarted))
  done := by
    rw [hco, hti]
    exact h.done
  had := by
    intro m j hmem
    rw [hst, List.mem_append, List.mem_singleton, Prod.mk.injEq] at hmem
    rw [hti]
    rcases hmem with hmem | ⟨rfl, rfl⟩
    · exact h.had hmem
    · obtain ⟨held, hh, hhandle, -⟩ := ho
      rw [hh, Option.map_some, hhandle]
  handleBelow := hs.below h
  once := hco ▸ h.once
  order := by
    rw [hst, List.pairwise_append]
    refine ⟨h.order, List.pairwise_singleton _ _, ?_⟩
    rintro ⟨m, j⟩ hmem b hb heq
    cases List.mem_singleton.mp hb
    cases heq
    exact hafter hmem

/-! ## Hand-over -/

lemma updateHandle_get?_self (change : FileHandle → FileHandle)
    (hg : t.handles.get? n = some hd) :
    (t.updateHandle n change).handles.get? n = some (change hd) := by
  simp only [updateHandle, Table.get?_modify_self, hg, Option.map_some]

lemma Sound.enter (h : t.Sound drift) (hg : t.handles.get? n = some hd) :
    t.Busy drift n hd hd.ioQueue :=
  ⟨h.toCore, hg, (h.rest hg).turn, fun _ hget' => h.rest hget'⟩

section

variable (h : t.Busy drift n hd queue)
include h

/-- It is through: the tickets in its queue are those that wait. -/
lemma Busy.settle (hqueue : hd.ioQueue = queue) (hvacant : hd.ioRunning = none → queue = [])
    (hfenced : hd.ioFenced = true → queue = [] ∧ t.Begun hd) : t.Sound drift := by
  subst hqueue
  refine ⟨h.toCore, fun {m hd'} hg => ?_⟩
  by_cases hmn : m = n
  · subst hmn
    cases h.row.symm.trans hg
    exact ⟨h.turn, hvacant, hfenced⟩
  · exact h.rest hmn hg

lemma Busy.changeHandle (change : FileHandle → FileHandle)
    (hrunning : (change hd).ioRunning = hd.ioRunning) (hidl : (change hd).ioIdle = hd.ioIdle) :
    (t.updateHandle n change).Busy drift n (change hd) queue where
  channels := ⟨h.channels.calm, h.channels.nodup, h.channels.closed, h.channels.current⟩
  counts := ⟨h.counts.active, h.counts.idle, h.counts.work⟩
  tickets := h.tickets.of_eq rfl ⟨Table.isSome_get?_modify _ _ _, rfl, rfl⟩ rfl rfl
  row := updateHandle_get?_self change h.row
  turn := by
    have hturn := h.turn.of_alike (.of_eq rfl rfl)
    refine ⟨?_, hturn.queued, ?_, hturn.sorted, hturn.after⟩
    · rw [hrunning, hidl]
      exact hturn.running
    · rw [hrunning]
      exact hturn.owned
  rest := fun hmn hg =>
    (h.rest hmn ((Table.get?_modify_ne hmn).symm.trans hg)).of_alike (.of_eq rfl rfl)

lemma Busy.not_closed (hmem : k ∈ queue) : Channel.ready k ∉ t.closes := by
  obtain ⟨ho, hhad⟩ := h.turn.queued hmem
  rw [h.channels.closed]
  exact fun hclosed => hclosed.elim hhad (ho.not_completed h.tickets)

end

variable (err)

lemma Busy.release (h : t.Busy drift n hd queue) (hrun : hd.ioRunning = some k) :
    ((t.completeTicket k err).stopFileIo n hd.ioIdle).Busy (drift + 1) n
      { hd with ioRunning := none, ioIdle := none } queue := by
  obtain ⟨ho, hhad, hidl⟩ := h.turn.running hrun
  have hnot := ho.not_completed h.tickets
  have hunclosed : Channel.ioIdle k ∉ t.closes := by
    rw [h.channels.closed]
    exact fun hclosed => hnot hclosed.2
  rw [hidl, stopFileIo, close_eq (t := t.completeTicket k err) hunclosed]
  refine ⟨⟨?_, ?_, ?_⟩, updateHandle_get?_self _ h.row, ?_, ?_⟩
  · refine h.channels.close hunclosed rfl rfl (fun c => ?_) id rfl
    cases c with
    | ready j =>
      simp only [Closed, FileTree.updateHandle, FileTree.completeTicket, Had,
        List.mem_append, List.mem_singleton, reduceCtorEq, or_false, ← or_assoc]
      refine or_iff_left_of_imp ?_
      rintro rfl
      exact .inl hhad
    | ioIdle j =>
      simp only [Closed, FileTree.updateHandle, FileTree.completeTicket, Had,
        List.mem_append, List.mem_singleton, Channel.ioIdle.injEq, and_or_left]
      refine or_congr_right (and_iff_right_of_imp ?_)
      rintro rfl
      exact hhad
    | fileIdle j => simp [Closed, FileTree.updateHandle, FileTree.completeTicket]
  · have hcounts := h.counts.complete err ho
    exact ⟨hcounts.active, hcounts.idle, hcounts.work⟩
  · exact h.tickets.complete ho rfl ⟨Table.isSome_get?_modify _ _ _, rfl, rfl⟩ rfl rfl
  · refine ⟨fun hnone => (by cases hnone), fun {j} hj => ?_, fun {j} hj => ?_,
      h.turn.sorted, h.turn.after⟩
    · obtain ⟨hjOpen, hjHad⟩ := h.turn.queued hj
      refine ⟨(open_of_complete rfl n j).mpr ⟨hjOpen, ?_⟩, hjHad⟩
      rintro rfl
      exact hjHad hhad
    · obtain ⟨hj, hne⟩ := (open_of_complete (t := t) rfl n j).mp hj
      refine .inr ((h.turn.owned hj).resolve_left fun hjRun => hne ?_)
      exact Option.some.inj (hjRun.symm.trans hrun)
  · intro m hd' hmn hg
    have hget' := (Table.get?_modify_ne hmn).symm.trans hg
    exact (h.rest hmn hget').of_alike (.complete ho hmn rfl rfl)

lemma Busy.drop (h : t.Busy drift n hd queue) (hmem : k ∈ queue) :
    ((t.completeTicket k err).close (some (.ready k))).Busy (drift + 1) n hd (queue.erase k) := by
  obtain ⟨ho, hhad⟩ := h.turn.queued hmem
  have hnot := ho.not_completed h.tickets
  have hunclosed := h.not_closed hmem
  have herase : ∀ {j}, j ∈ queue.erase k ↔ j ≠ k ∧ j ∈ queue := h.turn.sorted.nodup.mem_erase_iff
  rw [close_eq (t := t.completeTicket k err) hunclosed]
  refine ⟨⟨?_, ?_, ?_⟩, h.row, ?_, ?_⟩
  · refine h.channels.close hunclosed rfl rfl (fun c => ?_) id rfl
    cases c with
    | ready j =>
      simp only [Closed, FileTree.completeTicket, Had, List.mem_append,
        List.mem_singleton, Channel.ready.injEq, or_assoc]
    | ioIdle j =>
      simp only [Closed, FileTree.completeTicket, Had, List.mem_append,
        List.mem_singleton, reduceCtorEq, or_false, and_or_left]
      refine or_iff_left ?_
      rintro ⟨hj, rfl⟩
      exact hhad hj
    | fileIdle j => simp [Closed, FileTree.completeTicket]
  · have hcounts := h.counts.complete err ho
    exact ⟨hcounts.active, hcounts.idle, hcounts.work⟩
  · exact h.tickets.complete ho rfl ⟨fun _ => rfl, rfl, rfl⟩ rfl rfl
  · refine ⟨fun {j} hrun => ?_, fun {j} hj => ?_, fun {j} hj => ?_,
      h.turn.sorted.sublist List.erase_sublist,
      fun hq hsta => h.turn.after (herase.mp hq).2 hsta⟩
    · obtain ⟨hj, hjHad, hjIdle⟩ := h.turn.running hrun
      refine ⟨(open_of_complete rfl n j).mpr ⟨hj, ?_⟩, hjHad, hjIdle⟩
      rintro rfl
      exact hhad hjHad
    · obtain ⟨hne, hj⟩ := herase.mp hj
      obtain ⟨hjOpen, hjHad⟩ := h.turn.queued hj
      exact ⟨(open_of_complete rfl n j).mpr ⟨hjOpen, hne⟩, hjHad⟩
    · obtain ⟨hj, hne⟩ := (open_of_complete (t := t) rfl n j).mp hj
      exact (h.turn.owned hj).imp_right fun hj => herase.mpr ⟨hne, hj⟩
  · exact fun hmn hg => (h.rest hmn hg).of_alike (.complete ho hmn rfl rfl)

variable {err}

lemma Busy.giveTurn (h : t.Busy drift n hd (k :: queue)) (hfree : hd.ioRunning = none) :
    (t.startFileIoLocked n k).Busy drift n
      { hd with ioRunning := some k, ioIdle := some (.ioIdle k) } queue := by
  obtain ⟨ho, hhad⟩ := h.turn.queued List.mem_cons_self
  have hnot := ho.not_completed h.tickets
  have hunclosed := h.not_closed List.mem_cons_self
  obtain ⟨hfirst, hrest⟩ := List.pairwise_cons.mp h.turn.sorted
  have hclose : ∀ change, (t.updateHandle n change).close (some (.ready k)) =
      { t.updateHandle n change with closes := t.closes ++ [.ready k] } :=
    fun change => close_eq (t := t.updateHandle n change) hunclosed
  rw [startFileIoLocked]
  simp only [hclose]
  refine ⟨⟨?_, ⟨h.counts.active, h.counts.idle, h.counts.work⟩, ?_⟩,
    updateHandle_get?_self _ h.row, ?_, ?_⟩
  · refine h.channels.close hunclosed rfl rfl (fun c => ?_) id rfl
    cases c with
    | ready j =>
      rw [Channel.ready.injEq]
      exact (or_congr_left (had_of_given rfl j)).trans or_right_comm
    | ioIdle j =>
      simp only [reduceCtorEq, or_false]
      refine and_congr_left fun hcomplete => (had_of_given rfl j).trans ?_
      refine or_iff_left ?_
      rintro rfl
      exact hnot hcomplete
    | fileIdle j => simp [Closed, FileTree.updateHandle]
  · exact h.tickets.give ho (fun hj => h.turn.after List.mem_cons_self hj) rfl
      ⟨Table.isSome_get?_modify _ _ _, rfl, rfl⟩ rfl rfl
  · refine ⟨fun {j} hrun => ?_, fun {j} hj => ?_, fun {j} hj => ?_, hrest,
      fun {j q} hq hsta => ?_⟩
    · cases hrun
      exact ⟨ho, (had_of_given rfl k).mpr (.inr rfl), rfl⟩
    · obtain ⟨hjOpen, hjHad⟩ := h.turn.queued (List.mem_cons_of_mem k hj)
      refine ⟨hjOpen, fun hnow => ?_⟩
      exact ((had_of_given (t := t) rfl j).mp hnow).elim hjHad (hfirst j hj).ne'
    · have hold := h.turn.owned hj
      rw [hfree, List.mem_cons] at hold
      rcases hold with hnone | rfl | hj
      · cases hnone
      · exact .inl rfl
      · exact .inr hj
    · rcases List.mem_append.mp hsta with hsta | hsta
      · exact h.turn.after (List.mem_cons_of_mem k hq) hsta
      · cases List.mem_singleton.mp hsta
        exact hfirst q hq
  · intro m hd' hmn hg
    have hget' := (Table.get?_modify_ne hmn).symm.trans hg
    exact (h.rest hmn hget').of_alike (.give ho hmn rfl rfl)

lemma Busy.addTicket (sequence : ℕ) (h : t.Busy (drift + 1) n hd queue) : Busy { t with
      tickets := t.tickets.set t.nextTicket ⟨n, sequence, false, false, none⟩
      nextTicket := t.nextTicket + 1 } drift n hd (queue ++ [t.nextTicket]) := by
  have hbelow : ∀ {m j}, t.Open m j → j < t.nextTicket := by
    rintro m j ⟨held, hh, -⟩
    exact (h.tickets.filed hh).below
  have hfresh : t.tickets.get? t.nextTicket = none := by
    rw [Option.eq_none_iff_forall_ne_some]
    exact fun held hh => (h.tickets.filed hh).below.ne rfl
  set added : FileTree := { t with
    tickets := t.tickets.set t.nextTicket ⟨n, sequence, false, false, none⟩
    nextTicket := t.nextTicket + 1 }
  have hself : added.tickets.get? t.nextTicket =
      some ⟨n, sequence, false, false, none⟩ := Table.get?_set_self _ _ _
  have hother : ∀ {j}, j ≠ t.nextTicket →
      added.tickets.get? j = t.tickets.get? j := fun hj => Table.get?_set_ne hj
  have hold : ∀ {j}, (t.tickets.get? j).isSome →
      added.tickets.get? j = t.tickets.get? j := by
    intro j hj
    refine hother ?_
    rintro rfl
    rw [hfresh] at hj
    cases hj
  have ho : ∀ {m j}, added.Open m j ↔
      t.Open m j ∨ (m = n ∧ j = t.nextTicket) := by
    intro m j
    unfold Open
    by_cases hj : j = t.nextTicket
    · subst hj
      simp only [hself, hfresh, Option.some.injEq, exists_eq_left', reduceCtorEq,
        false_and, exists_false, and_true, false_or]
      exact eq_comm
    · simp only [hother hj, hj, and_false, or_false]
  have hnever : ∀ {m}, (m, t.nextTicket) ∉ t.starts := by
    intro m hmem
    have hh := h.tickets.had hmem
    rw [hfresh] at hh
    cases hh
  refine ⟨⟨⟨h.channels.calm, h.channels.nodup, h.channels.closed,
    h.channels.current⟩, ⟨?_, h.counts.idle, h.counts.work⟩, ?_⟩, h.row, ?_, ?_⟩
  · have htotal : added.tickets.total unfinished = t.tickets.total unfinished + 1 :=
      Table.total_set_of_none _ unfinished hfresh
    have hat := h.counts.active
    show t.fileActive =
      ((added.tickets.total unfinished + t.works.card : ℕ) : ℤ) + drift
    rw [htotal]
    simp only [operations] at hat
    push_cast at hat ⊢
    omega
  · refine ⟨fun {j held} hh => ?_, fun hj => ?_, fun hmem => ?_,
      h.tickets.handleBelow, h.tickets.once, h.tickets.order⟩
    · by_cases hj : j = t.nextTicket
      · subst hj
        cases hself.symm.trans hh
        refine ⟨Nat.lt_succ_self _, by rw [h.row]; rfl, ?_, fun hno => by cases hno⟩
        refine ⟨fun hno => (by cases hno), fun hdone => ?_⟩
        have hsome := h.tickets.done hdone
        rw [hfresh] at hsome
        cases hsome
      · have hfi := h.tickets.filed ((hother hj).symm.trans hh)
        exact ⟨hfi.below.trans (Nat.lt_succ_self _), hfi.handle,
          hfi.completed, hfi.began⟩
    · rw [hold (h.tickets.done hj)]
      exact h.tickets.done hj
    · have hh := h.tickets.had hmem
      rwa [hold (by rw [← Option.isSome_map, hh]; rfl)]
  · refine ⟨fun hrun => ?_, fun {j} hj => ?_, fun {j} hj => ?_, ?_, fun {j q} hq hsta => ?_⟩
    · obtain ⟨hk, hhad, hidl⟩ := h.turn.running hrun
      exact ⟨ho.mpr (.inl hk), hhad, hidl⟩
    · rcases List.mem_append.mp hj with hj | hj
      · obtain ⟨hjOpen, hjHad⟩ := h.turn.queued hj
        exact ⟨ho.mpr (.inl hjOpen), hjHad⟩
      · cases List.mem_singleton.mp hj
        refine ⟨ho.mpr (.inr ⟨rfl, rfl⟩), ?_⟩
        rintro ⟨m, hm⟩
        exact hnever hm
    · rw [List.mem_append, List.mem_singleton]
      rcases ho.mp hj with hj | ⟨-, rfl⟩
      · exact (h.turn.owned hj).imp_right .inl
      · exact .inr (.inr rfl)
    · rw [List.pairwise_append]
      refine ⟨h.turn.sorted, List.pairwise_singleton _ _, fun j hj q hq => ?_⟩
      cases List.mem_singleton.mp hq
      exact hbelow (h.turn.queued hj).1
    · rcases List.mem_append.mp hq with hq | hq
      · exact h.turn.after hq hsta
      · cases List.mem_singleton.mp hq
        have hh := h.tickets.had hsta
        obtain ⟨held, hh, -⟩ := Option.map_eq_some_iff.mp hh
        exact (h.tickets.filed hh).below
  · intro m hd' hmn hg
    refine (h.rest hmn hg).of_alike ⟨?_, fun _ => .rfl, id, fun hj hh => ?_⟩
    · intro j
      rw [ho]
      exact or_iff_left fun hnew => hmn hnew.1
    · exact ⟨_, (hother (hbelow hj).ne).symm.trans hh, id⟩

end FileTree

end RemoteFs.Smb
