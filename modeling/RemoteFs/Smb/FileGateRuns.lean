import RemoteFs.Smb.FileTurns

/-!
# The gate over whole runs

Every section of `file_io_gate.go` starts and ends with nothing under way, so
the invariants hold after any interleaving of sections.  A handle that is fenced
stays so: whatever follows gives it no turn and starts none of its operations.
-/

namespace RemoteFs.Smb

namespace FileTree

variable {m n : ℕ} {hd : FileHandle}

variable {t t' : FileTree} {drift n k : ℕ} {hd : FileHandle} {queue : List ℕ}

/-! ## What counting leaves alone -/

@[simp] lemma close_keeps (c : Option Channel) :
    (t.close c).handles = t.handles ∧ (t.close c).tickets = t.tickets ∧
      (t.close c).starts = t.starts := by
  unfold close
  split
  · exact ⟨rfl, rfl, rfl⟩
  · split_ifs <;> exact ⟨rfl, rfl, rfl⟩

@[simp] lemma endFileWorkLocked_keeps : t.endFileWorkLocked.handles = t.handles ∧
      t.endFileWorkLocked.tickets = t.tickets ∧
      t.endFileWorkLocked.starts = t.starts := by
  unfold FileTree.endFileWorkLocked
  simp only
  split_ifs
  · exact close_keeps _
  · exact ⟨rfl, rfl, rfl⟩

@[simp] lemma countFileWork_keeps :
    t.countFileWork.handles = t.handles ∧ t.countFileWork.tickets = t.tickets ∧
      t.countFileWork.starts = t.starts ∧ t.countFileWork.nextTicket = t.nextTicket ∧
      t.countFileWork.works = t.works ∧ t.countFileWork.nextWork = t.nextWork := by
  unfold FileTree.countFileWork
  simp only
  split_ifs <;> exact ⟨rfl, rfl, rfl, rfl, rfl, rfl⟩

lemma Sound.of_core (h : t.Sound drift) {drift' : ℕ} (hcore : t'.Core drift')
    (hhandles : t'.handles = t.handles) (htickets : t'.tickets = t.tickets)
    (hstarts : t'.starts = t.starts) : t'.Sound drift' :=
  ⟨hcore, fun hg => (h.rest (hhandles ▸ hg)).of_alike (.of_eq htickets hstarts)⟩

lemma Sound.countFileWork (h : t.Sound drift) : t.countFileWork.Sound (drift + 1) :=
  h.of_core h.toCore.countFileWork (by simp) (by simp) (by simp)

lemma Sound.endFileWorkLocked (h : t.Sound (drift + 1)) : t.endFileWorkLocked.Sound drift :=
  h.of_core h.toCore.endFileWorkLocked (by simp) (by simp) (by simp)

lemma Busy.endFileWorkLocked (h : t.Busy (drift + 1) n hd queue) :
    t.endFileWorkLocked.Busy drift n hd queue := by
  have halike : ∀ m, Alike m t t.endFileWorkLocked := fun m => .of_eq (by simp) (by simp)
  refine ⟨h.toCore.endFileWorkLocked, ?_, h.turn.of_alike (halike n), fun hmn hg => ?_⟩
  · rw [endFileWorkLocked_keeps.1]
    exact h.row
  · rw [endFileWorkLocked_keeps.1] at hg
    exact (h.rest hmn hg).of_alike (halike _)

/-! ## Admission and completion -/

lemma Sound.updateHandle (h : t.Sound drift) (change : FileHandle → FileHandle)
    (hchange : ∀ hd, (change hd).ioRunning = hd.ioRunning ∧
      (change hd).ioIdle = hd.ioIdle ∧ (change hd).ioQueue = hd.ioQueue ∧
      (change hd).ioFenced = hd.ioFenced) : (t.updateHandle n change).Sound drift := by
  cases hg : t.handles.get? n with
  | none => rwa [FileTree.updateHandle, Table.modify, hg]
  | some hd =>
    obtain ⟨hrunning, hidle, hqueue, hfe⟩ := hchange hd
    have hre := h.rest hg
    refine ((h.enter hg).changeHandle change hrunning hidle).settle hqueue ?_ ?_
    · rw [hrunning]
      exact hre.vacant
    · rw [hfe]
      intro hfen
      refine ⟨(hre.fenced hfen).1, fun {j held} hrun => ?_⟩
      exact (hre.fenced hfen).2 (hrunning ▸ hrun)

lemma Sound.admitFileIo {limit : ℕ} {refused : Bool} (h : t.Sound 0)
    (hok : t.admitFileIo n limit refused = .ok t') : t'.Sound 0 := by
  unfold FileTree.admitFileIo at hok
  split at hok
  · cases hok
  split at hok
  · cases hok
  split at hok
  · cases hok
  split at hok
  · cases hok
  case _ hd hg =>
    split at hok
    · cases hok
    case _ ho =>
    split at hok
    · cases hok
    split at hok
    · cases hok
    have hfe : hd.ioFenced = true → False := fun htrue => by simp [htrue] at ho
    -- the ticket is at the end of the queue before it may get the turn at once
    let bump (hd' : FileHandle) := { hd' with ioSequence := hd.ioSequence + 1 }
    have hco : (t.updateHandle n bump).countFileWork.Sound 1 :=
      (h.updateHandle bump fun _ => ⟨rfl, rfl, rfl, rfl⟩).countFileWork
    have hget' : (t.updateHandle n bump).countFileWork.handles.get? n = some (bump hd) := by
      rw [countFileWork_keeps.1]
      exact updateHandle_get?_self bump hg
    have hadded := (hco.enter hget').addTicket (hd.ioSequence + 1)
    rw [countFileWork_keeps.2.2.2.1] at hadded
    cases hrun : hd.ioRunning with
    | none =>
      simp only [hrun, Except.ok.injEq] at hok
      have hempty : (bump hd).ioQueue = [] := (h.rest hg).vacant hrun
      rw [hempty, List.nil_append] at hadded
      exact hok ▸ (hadded.giveTurn hrun).settle hempty (fun _ => rfl)
        fun htrue => (hfe htrue).elim
    | some running =>
      simp only [hrun, Except.ok.injEq] at hok
      have hqueued := hadded.changeHandle
        ({ · with ioQueue := hd.ioQueue ++ [t.nextTicket] }) rfl rfl
      exact hok ▸ hqueued.settle rfl (fun hnon => by simp [bump, hrun] at hnon)
        fun htrue => (hfe htrue).elim

lemma Sound.finish (k : ℕ) (h : t.Sound 0) : (t.finish k).Sound 0 := by
  unfold FileTree.finish
  split
  · exact h
  case _ held hh =>
    split
    · exact h
    case _ hincomplete =>
    rw [Bool.not_eq_true] at hincomplete
    have ho : t.Open held.handle k := ⟨held, hh, rfl, hincomplete⟩
    split
    · exact h
    case _ hd hg =>
      have hre := h.rest hg
      split
      case isTrue hrun =>
        have hr := (h.enter hg).release held.err hrun
        simp only
        split
        case _ hempty =>
          exact (hr.settle rfl (fun _ => hempty) fun _ =>
            ⟨hempty, fun hnon => by cases hnon⟩).endFileWorkLocked
        case _ next rest hqueue =>
          rw [hqueue] at hr
          have hcut := hr.changeHandle ({ · with ioQueue := rest }) rfl rfl
          refine ((hcut.giveTurn rfl).settle rfl (fun hnon => by cases hnon)
            fun hfe => ?_).endFileWorkLocked
          -- a fenced handle has no queue
          have hnil := (hre.fenced hfe).1
          cases hqueue.symm.trans hnil
      case isFalse hrun =>
        have hmem : k ∈ hd.ioQueue := (hre.turn.owned ho).resolve_left hrun
        have hne : hd.ioQueue ≠ [] := List.ne_nil_of_mem hmem
        have hcut := (h.enter hg).changeHandle
          ({ · with ioQueue := hd.ioQueue.erase k }) rfl rfl
        exact ((hcut.drop (some .canceled) hmem).settle rfl
          (fun hnon => absurd (hre.vacant hnon) hne)
          fun hfe => absurd (hre.fenced hfe).1 hne).endFileWorkLocked

/-! ## Fences -/

lemma Busy.dropRunning (h : t.Busy 0 n { hd with ioFenced := true } queue) :
    ∃ hd', (t.dropRunning n hd).Busy 0 n hd' queue ∧ (t.dropRunning n hd).Begun hd' := by
  unfold FileTree.dropRunning
  cases hrun : hd.ioRunning with
  | none => exact ⟨_, h, fun hsome => by simp [hrun] at hsome⟩
  | some running =>
    obtain ⟨⟨held, hh, -⟩, -⟩ := h.turn.running hrun
    simp only [hh]
    split_ifs with hst
    · refine ⟨_, h, fun {k held'} hsome hheld' => ?_⟩
      cases hrun.symm.trans hsome
      cases hh.symm.trans hheld'
      exact hst
    · exact ⟨_, (h.release (some .badHandle) hrun).endFileWorkLocked, fun hnon => by cases hnon⟩

lemma Begun.dropTicket (h : t.Begun hd) (k : ℕ) : (t.dropTicket k).Begun hd := by
  intro j held' hrun hheld'
  simp only [FileTree.dropTicket, endFileWorkLocked_keeps, close_keeps] at hheld'
  obtain ⟨held, hh, rfl⟩ := Table.of_get?_modify hheld'
  have hbegun := h hrun hh
  split_ifs <;> exact hbegun

lemma Busy.dropTickets (h : t.Busy 0 n hd queue) (hbegun : t.Begun hd) :
    (queue.foldl FileTree.dropTicket t).Busy 0 n hd [] ∧
      (queue.foldl FileTree.dropTicket t).Begun hd := by
  induction queue generalizing t with
  | nil => exact ⟨h, hbegun⟩
  | cons k rest ih =>
    have hdropped := (h.drop (some .badHandle) List.mem_cons_self).endFileWorkLocked
    rw [List.erase_cons_head] at hdropped
    exact ih hdropped (hbegun.dropTicket k)

lemma Sound.fenceHandleFileIoLocked (n : ℕ) (h : t.Sound 0) :
    (t.fenceHandleFileIoLocked n).Sound 0 := by
  unfold FileTree.fenceHandleFileIoLocked
  split
  · exact h
  case _ hd hg =>
    have hmarked := (h.enter hg).changeHandle ({ · with ioFenced := true }) rfl rfl
    obtain ⟨hd', hbusy, hbegun⟩ := hmarked.dropRunning
    obtain ⟨hbusy', hbegun'⟩ := hbusy.dropTickets hbegun
    exact (hbusy'.changeHandle ({ · with ioQueue := [] }) rfl rfl).settle rfl
      (fun _ => rfl) fun _ => ⟨rfl, hbegun'⟩

lemma Sound.fenceFileWork (h : t.Sound 0) : t.fenceFileWork.Sound 0 := by
  have hstopping : Sound { t with fileStopping := true } 0 :=
    h.of_core ⟨⟨h.channels.calm, h.channels.nodup, h.channels.closed,
      h.channels.current⟩, ⟨h.counts.active, h.counts.idle, h.counts.work⟩,
      h.tickets.of_eq rfl ⟨fun _ => rfl, rfl, rfl⟩ rfl rfl⟩ rfl rfl rfl
  exact Runs.invariant (motive := fun s : FileTree => s.Sound 0)
    (fun s n hs => hs.fenceHandleFileIoLocked n) hstopping _

/-! ## The other sections -/

lemma Sound.start (h : t.Sound 0) (hready : Channel.ready k ∈ t.closes) :
    (t.start k).Sound 0 := by
  unfold FileTree.start
  split
  · exact h
  case _ held hh =>
    split_ifs with hlive
    · have hhad : t.Had k := by
        have ho : t.Open held.handle k := ⟨held, hh, rfl, hlive.2⟩
        exact (h.channels.closed.mp hready).resolve_right (ho.not_completed h.tickets)
      let mark (held : Ticket) := { held with started := true }
      have ho : ∀ {m j}, Open { t with tickets := t.tickets.modify k mark } m j ↔
          t.Open m j := by
        intro m j
        rw [open_iff, open_iff]
        show ((t.tickets.modify k mark).get? j).map _ = _ ↔ _
        rw [Table.map_get?_modify _ _ _ mark fun _ => rfl]
      refine ⟨⟨⟨h.channels.calm, h.channels.nodup, h.channels.closed,
        h.channels.current⟩, ⟨?_, h.counts.idle, h.counts.work⟩, ?_⟩, ?_⟩
      · have htotal : (t.tickets.modify k mark).total unfinished =
            t.tickets.total unfinished := Table.total_modify_of_eq fun _ _ => rfl
        simp only [operations, mark, htotal]
        exact h.counts.active
      · refine h.tickets.mark rfl ⟨fun _ => rfl, rfl, rfl⟩ rfl (fun _ => rfl)
          (fun _ _ _ => hhad) (fun j held hh => ?_) h.tickets.done h.tickets.once
        have hcompleted := (h.tickets.filed hh).completed
        split_ifs <;> exact hcompleted
      · intro m hd hg
        refine (h.rest hg).of_alike ⟨ho, fun _ => .rfl, id, fun _ hheld' => ?_⟩
        obtain ⟨held, hh, rfl⟩ := Table.of_get?_modify hheld'
        refine ⟨held, hh, fun hst => ?_⟩
        split_ifs
        · rfl
        · exact hst
    · exact h

lemma Sound.beginFileWork (retired : Bool) (h : t.Sound 0) :
    (t.beginFileWork retired).Sound 0 := by
  unfold FileTree.beginFileWork
  split_ifs
  · exact h
  have hco := h.countFileWork
  have hnew : t.nextWork ∉ t.works := fun hmem => absurd (h.counts.work _ hmem) (lt_irrefl _)
  refine hco.of_core ⟨⟨hco.channels.calm, hco.channels.nodup,
    hco.channels.closed, hco.channels.current⟩,
    ⟨?_, hco.counts.idle, ?_⟩,
    hco.tickets.of_eq rfl ⟨fun _ => rfl, rfl, rfl⟩ rfl rfl⟩ rfl rfl rfl
  · have hactive := hco.counts.active
    simp only [operations, countFileWork_keeps] at hactive ⊢
    rw [hactive, Finset.card_insert_of_notMem hnew]
    push_cast
    omega
  · intro w hw
    rcases Finset.mem_insert.mp hw with rfl | hw
    · exact Nat.lt_succ_self _
    · exact (h.counts.work w hw).trans (Nat.lt_succ_self _)

lemma Sound.endFileWork (work : ℕ) (h : t.Sound 0) : (t.endFileWork work).Sound 0 := by
  unfold FileTree.endFileWork
  split_ifs with hmem
  · have herased : Sound { t with works := t.works.erase work } 1 := by
      refine h.of_core ⟨⟨h.channels.calm, h.channels.nodup, h.channels.closed,
        h.channels.current⟩, ⟨?_, h.counts.idle, fun w hw => h.counts.work w
        (Finset.mem_of_mem_erase hw)⟩,
        h.tickets.of_eq rfl ⟨fun _ => rfl, rfl, rfl⟩ rfl rfl⟩ rfl rfl rfl
      have hactive := h.counts.active
      have hcard := Finset.card_erase_add_one hmem
      simp only [operations] at hactive ⊢
      push_cast at hactive ⊢
      omega
    exact herased.endFileWorkLocked
  · exact h

lemma Sound.openHandle (h : t.Sound 0) : (t.exec .openHandle).Sound 0 := by
  have hfresh : t.handles.get? t.nextHandle = none := by
    rw [Option.eq_none_iff_forall_ne_some]
    intro hd hg
    exact (h.tickets.handleBelow (by rw [hg]; rfl)).ne rfl
  -- every ticket belongs to an old handle
  have hold : ∀ {m}, (t.handles.get? m).isSome →
      (t.exec .openHandle).handles.get? m = t.handles.get? m :=
    fun hm => Table.get?_set_ne (h.tickets.handleBelow hm).ne
  refine ⟨⟨⟨h.channels.calm, h.channels.nodup, h.channels.closed,
    h.channels.current⟩, ⟨h.counts.active, h.counts.idle, h.counts.work⟩,
    ⟨fun hh => ?_, h.tickets.done, h.tickets.had, fun {m} hm => ?_,
      h.tickets.once, h.tickets.order⟩⟩, fun {m hd} hg => ?_⟩
  · have hfiled := h.tickets.filed hh
    refine ⟨hfiled.below, ?_, hfiled.completed, hfiled.began⟩
    rw [hold hfiled.handle]
    exact hfiled.handle
  · change ((t.handles.set t.nextHandle _).get? m).isSome at hm
    rw [Table.get?_set] at hm
    split_ifs at hm with heq
    · exact heq ▸ Nat.lt_succ_self _
    · exact (h.tickets.handleBelow hm).trans (Nat.lt_succ_self _)
  · rcases Table.set_cases hg with ⟨heq, rfl⟩ | ⟨-, hg⟩
    · refine ⟨⟨fun hno => (by cases hno), fun hno => (by cases hno), ?_, .nil,
        fun hno => by cases hno⟩, fun _ => rfl, fun hno => by cases hno⟩
      rintro j ⟨held, hh, hha, -⟩
      have hsome := (h.tickets.filed hh).handle
      rw [hha, heq, hfresh] at hsome
      cases hsome
    · exact (h.rest hg).of_alike (.of_eq rfl rfl)

lemma Sound.exec (step : Step) (h : t.Sound 0) : (t.exec step).Sound 0 := by
  cases step with
  | openHandle => exact h.openHandle
  | setLive | releaseFileHandle => exact h.updateHandle _ fun _ => ⟨rfl, rfl, rfl, rfl⟩
  | enqueue n limit refused =>
    simp only [FileTree.exec]
    split
    · exact h
    case _ hok => exact h.admitFileIo hok
  | start k =>
    simp only [FileTree.exec]
    split_ifs with hready
    · exact h.start hready
    · exact h
  | finish k => exact h.finish k
  | fenceHandle n => exact h.fenceHandleFileIoLocked n
  | fenceFileWork => exact h.fenceFileWork
  | beginFileWork retired => exact h.beginFileWork retired
  | endFileWork work => exact h.endFileWork work

lemma Sound.new : FileTree.new.Sound 0 := by
  refine ⟨⟨⟨rfl, .nil, fun {c} => ?_, ?_⟩, ⟨rfl, ?_, ?_⟩, ?_⟩, ?_⟩
  · cases c <;> simp [FileTree.new, Closed, Had]
  · simp [FileTree.new]
  · simp [FileTree.new]
  · simp [FileTree.new]
  · constructor <;> simp [FileTree.new]
  · simp [FileTree.new]

lemma Sound.reached (steps : List Step) : (steps.foldl FileTree.exec .new).Sound 0 :=
  Runs.invariant (motive := fun t : FileTree => t.Sound 0) (fun _ step h => h.exec step)
    Sound.new steps

/-! ## A fenced handle -/

/-- The tickets of a handle that got the turn, in the order in which they did. -/
def turnsOf (t : FileTree) (n : ℕ) : List ℕ :=
  (t.starts.filter (·.1 = n)).map (·.2)

/-- No turn of a handle is given, no operation on it starts and its fence stays. -/
structure Still (n : ℕ) (t t' : FileTree) : Prop where
  turns : t'.turnsOf n = t.turnsOf n
  fenced : ∀ {hd}, t.handles.get? n = some hd →
    ∃ hd', t'.handles.get? n = some hd' ∧ (hd.ioFenced = true → hd'.ioFenced = true)
  started : ∀ {k held'}, t'.tickets.get? k = some held' → held'.handle = n →
    held'.started = true →
    ∃ held, t.tickets.get? k = some held ∧ held.handle = n ∧ held.started = true

lemma Still.refl {n : ℕ} : Still n t t :=
  ⟨rfl, fun hg => ⟨_, hg, id⟩,
    fun hg hha hst => ⟨_, hg, hha, hst⟩⟩

lemma Still.trans (h : Still n t t') (h' : Still n t' t'') : Still n t t'' := by
  refine ⟨h'.turns.trans h.turns, fun hg => ?_, fun hg hha hst => ?_⟩
  · obtain ⟨hd', hget', hfe⟩ := h.fenced hg
    obtain ⟨hd'', hget'', hfenced'⟩ := h'.fenced hget'
    exact ⟨hd'', hget'', hfenced' ∘ hfe⟩
  · obtain ⟨held, hget', hhandle', hstarted'⟩ := h'.started hg hha hst
    exact h.started hget' hhandle' hstarted'

lemma Still.of_eq (hstarts : t'.starts = t.starts) (hhandles : t'.handles = t.handles)
    (htickets : t'.tickets = t.tickets) : Still n t t' := by
  refine ⟨by rw [turnsOf, turnsOf, hstarts], fun hg => ?_, fun hg hha hst => ?_⟩
  · exact ⟨_, hhandles ▸ hg, id⟩
  · exact ⟨_, htickets ▸ hg, hha, hst⟩

lemma Still.close (n : ℕ) (c : Option Channel) : Still n t (t.close c) :=
  .of_eq (by simp) (by simp) (by simp)

lemma Still.endFileWorkLocked (n : ℕ) : Still n t t.endFileWorkLocked :=
  .of_eq (by simp) (by simp) (by simp)

lemma Still.countFileWork (n : ℕ) : Still n t t.countFileWork :=
  .of_eq (by simp) (by simp) (by simp)

/-- Nothing lifts a fence. -/
lemma Still.updateHandle (change : FileHandle → FileHandle)
    (hfe : ∀ hd, hd.ioFenced = true → (change hd).ioFenced = true) :
    Still n t (t.updateHandle m change) := by
  refine ⟨rfl, fun {hd} hg => ?_, fun hg hha hst =>
    ⟨_, hg, hha, hst⟩⟩
  by_cases hnm : n = m
  · subst hnm
    exact ⟨_, updateHandle_get?_self change hg, hfe hd⟩
  · exact ⟨hd, (Table.get?_modify_ne hnm).trans hg, id⟩

lemma Still.completeTicket (n k : ℕ) (err : Option TicketFailure) :
    Still n t (t.completeTicket k err) := by
  refine ⟨rfl, fun hg => ⟨_, hg, id⟩, fun {j held'} hg hha hst => ?_⟩
  obtain ⟨held, hh, rfl⟩ := Table.of_get?_modify hg
  refine ⟨held, hh, ?_⟩
  split_ifs at hha hst <;> exact ⟨hha, hst⟩

lemma Still.stopFileIo (n m : ℕ) (idle : Option Channel) : Still n t (t.stopFileIo m idle) :=
  (Still.close n idle).trans (.updateHandle _ fun _ hfen => hfen)

lemma Still.startFileIoLocked (k : ℕ) (hne : m ≠ n) : Still n t (t.startFileIoLocked m k) := by
  have hmoved : Still n t (t.updateHandle m
      ({ · with ioRunning := some k, ioIdle := some (.ioIdle k) })) :=
    .updateHandle _ fun _ hfen => hfen
  refine (hmoved.trans (.close n (some (.ready k)))).trans ?_
  refine ⟨?_, fun hg => ⟨_, hg, id⟩,
    fun hg hha hst => ⟨_, hg, hha, hst⟩⟩
  simp only [turnsOf, FileTree.startFileIoLocked, close_keeps, FileTree.updateHandle,
    List.filter_append, hne, decide_false, List.filter_cons_of_neg, List.filter_nil,
    List.append_nil, Bool.false_eq_true, not_false_eq_true]

lemma Still.dropRunning (n m : ℕ) (hd : FileHandle) : Still n t (t.dropRunning m hd) := by
  unfold FileTree.dropRunning
  split
  · exact .refl
  split
  · exact .refl
  split_ifs
  · exact .refl
  · exact ((Still.completeTicket n _ _).trans (.stopFileIo n m _)).trans (.endFileWorkLocked n)

lemma Still.dropTicket (n k : ℕ) : Still n t (t.dropTicket k) :=
  ((Still.completeTicket n k _).trans (.close n _)).trans (.endFileWorkLocked n)

/-- What a fence does once its flag is set. -/
lemma Still.fencing (n : ℕ) (hg : t.handles.get? m = some hd) :
    Still n (t.updateHandle m ({ · with ioFenced := true })) (t.fenceHandleFileIoLocked m) := by
  simp only [FileTree.fenceHandleFileIoLocked, hg]
  refine Still.trans ?_ (.updateHandle _ fun _ hfen => hfen)
  exact Runs.invariant (motive := Still n _)
    (fun s k hs => hs.trans (.dropTicket n k)) (Still.dropRunning n m hd) hd.ioQueue

lemma Still.fenceHandleFileIoLocked (n m : ℕ) : Still n t (t.fenceHandleFileIoLocked m) := by
  cases hg : t.handles.get? m with
  | none => simpa only [FileTree.fenceHandleFileIoLocked, hg] using .refl
  | some hd => exact (Still.updateHandle _ fun _ _ => rfl).trans (.fencing n hg)

/-- A fence over these handles raises the flag of each. -/
lemma flag_of_fences {keys : List ℕ} (hg : t.handles.get? n = some hd)
    (hn : n ∈ keys ∨ hd.ioFenced = true) :
    ∃ hd', (keys.foldl FileTree.fenceHandleFileIoLocked t).handles.get? n = some hd' ∧
      hd'.ioFenced = true := by
  induction keys generalizing t hd with
  | nil => exact ⟨hd, hg, by simpa using hn⟩
  | cons m keys ih =>
    obtain ⟨hd', hget', hfe⟩ := (Still.fenceHandleFileIoLocked n m).fenced hg
    refine ih hget' ?_
    by_cases heq : m = n
    · subst heq
      obtain ⟨_, hsame, hflag⟩ := (Still.fencing m hg).fenced (updateHandle_get?_self _ hg)
      cases hsame.symm.trans hget'
      exact .inr (hflag rfl)
    · exact hn.imp (fun hmem => List.mem_of_ne_of_mem (Ne.symm heq) hmem) hfe

lemma Still.admitFileIo {limit : ℕ} {refused : Bool}
    (hg : t.handles.get? n = some hd) (hfe : hd.ioFenced = true)
    (hok : t.admitFileIo m limit refused = .ok t') : Still n t t' := by
  unfold FileTree.admitFileIo at hok
  split at hok
  · cases hok
  split at hok
  · cases hok
  split at hok
  · cases hok
  split at hok
  · cases hok
  case _ hd' hget' =>
    split at hok
    · cases hok
    case _ ho =>
    split at hok
    · cases hok
    split at hok
    · cases hok
    have hne : m ≠ n := by
      rintro rfl
      cases hg.symm.trans hget'
      simp [hfe] at ho
    have hco := (Still.updateHandle (t := t) (n := n) (m := m)
      ({ · with ioSequence := hd'.ioSequence + 1 }) fun _ hfen => hfen).trans
        (.countFileWork n)
    have hadded : ∀ s : FileTree, Still n s { s with
        tickets := s.tickets.set t.nextTicket
          ⟨m, hd'.ioSequence + 1, false, false, none⟩
        nextTicket := t.nextTicket + 1 } := by
      intro s
      refine ⟨rfl, fun hg => ⟨_, hg, id⟩, fun {k held'} hg hha hst => ?_⟩
      rcases Table.set_cases hg with ⟨-, rfl⟩ | ⟨-, hg⟩
      · cases hst
      · exact ⟨held', hg, hha, hst⟩
    have hall := hco.trans (hadded _)
    cases hrun : hd'.ioRunning with
    | none =>
      simp only [hrun, Except.ok.injEq] at hok
      exact hok ▸ hall.trans (.startFileIoLocked _ hne)
    | some running =>
      simp only [hrun, Except.ok.injEq] at hok
      exact hok ▸ hall.trans (.updateHandle _ fun _ hfen => hfen)

lemma Still.finish (k : ℕ) (h : t.Sound 0) (hg : t.handles.get? n = some hd)
    (hfe : hd.ioFenced = true) : Still n t (t.finish k) := by
  unfold FileTree.finish
  split
  · exact .refl
  case _ held hh =>
    split
    · exact .refl
    split
    · exact .refl
    case _ hd' hget' =>
      split
      · have hfree := (Still.completeTicket (t := t) n k held.err).trans
          (.stopFileIo n held.handle hd'.ioIdle)
        simp only
        split
        · exact hfree.trans (.endFileWorkLocked n)
        case _ next rest hqueue =>
          have hne : held.handle ≠ n := by
            rintro rfl
            cases hg.symm.trans hget'
            have hnil := ((h.rest hg).fenced hfe).1
            cases hqueue.symm.trans hnil
          have hcut := hfree.trans (.updateHandle (m := held.handle)
            ({ · with ioQueue := rest }) fun _ hfen => hfen)
          exact (hcut.trans (.startFileIoLocked next hne)).trans (.endFileWorkLocked n)
      have hcut : Still n t (t.updateHandle held.handle
          ({ · with ioQueue := hd'.ioQueue.erase k })) :=
        .updateHandle _ fun _ hfen => hfen
      exact ((hcut.trans (.completeTicket n k _)).trans (.close n _)).trans (.endFileWorkLocked n)

lemma Still.start {k : ℕ} (h : t.Sound 0) (hg : t.handles.get? n = some hd)
    (hfe : hd.ioFenced = true) (hready : Channel.ready k ∈ t.closes) :
    Still n t (t.start k) := by
  unfold FileTree.start
  split
  · exact .refl
  case _ held hh =>
    split_ifs with hlive
    · refine ⟨rfl, fun hg => ⟨_, hg, id⟩, fun {j held'} hget' hha hst => ?_⟩
      obtain ⟨held', hheld', rfl⟩ := Table.of_get?_modify hget'
      refine ⟨held', hheld', ?_⟩
      split_ifs at hha hst with hjk
      · subst hjk
        cases hh.symm.trans hheld'
        -- it was ready and is not complete, so it has the turn and began before
        have ho : t.Open n j := ⟨held, hh, hha, hlive.2⟩
        have hhad := (h.channels.closed.mp hready).resolve_right
          (ho.not_completed h.tickets)
        have hre := h.rest hg
        rcases hre.turn.owned ho with hrun | hmem
        · exact ⟨hha, (hre.fenced hfe).2 hrun hh⟩
        · exact absurd hhad (hre.turn.queued hmem).2
      · exact ⟨hha, hst⟩
    · exact .refl

lemma Still.exec (step : Step) (h : t.Sound 0) (hg : t.handles.get? n = some hd)
    (hfe : hd.ioFenced = true) : Still n t (t.exec step) := by
  cases step with
  | openHandle =>
    refine ⟨rfl, fun hg => ⟨_, ?_, id⟩,
      fun hg hha hst => ⟨_, hg, hha, hst⟩⟩
    have hbelow := h.tickets.handleBelow (n := n) (by rw [hg]; rfl)
    exact (Table.get?_set_ne hbelow.ne).trans hg
  | setLive | releaseFileHandle => exact .updateHandle _ fun _ hfen => hfen
  | enqueue m limit refused =>
    simp only [FileTree.exec]
    split
    · exact .refl
    case _ hok => exact .admitFileIo hg hfe hok
  | start k =>
    simp only [FileTree.exec]
    split_ifs with hready
    · exact .start h hg hfe hready
    · exact .refl
  | finish k => exact .finish k h hg hfe
  | fenceHandle m => exact .fenceHandleFileIoLocked n m
  | fenceFileWork =>
    have hstopping : Still n t { t with fileStopping := true } := .of_eq rfl rfl rfl
    exact Runs.invariant (motive := Still n t)
      (fun s m hs => hs.trans (.fenceHandleFileIoLocked n m)) hstopping _
  | beginFileWork retired =>
    simp only [FileTree.exec, FileTree.beginFileWork]
    split_ifs
    · exact .refl
    · exact (Still.countFileWork n).trans (.of_eq rfl rfl rfl)
  | endFileWork work =>
    simp only [FileTree.exec, FileTree.endFileWork]
    split_ifs
    · have herase : Still n t { t with works := t.works.erase work } := .of_eq rfl rfl rfl
      exact herase.trans (.endFileWorkLocked n)
    · exact .refl

lemma Still.run (more : List Step) (h : t.Sound 0) (hg : t.handles.get? n = some hd)
    (hfe : hd.ioFenced = true) : Still n t (more.foldl FileTree.exec t) := by
  induction more generalizing t hd with
  | nil => exact .refl
  | cons step rest ih =>
    have hstep := Still.exec step h hg hfe
    obtain ⟨hd', hget', hfenced'⟩ := hstep.fenced hg
    exact hstep.trans (ih (h.exec step) hget' (hfenced' hfe))

/-! ## All runs -/

lemma Sound.finish_complete {k : ℕ} (h : t.Sound 0) (hh : t.tickets.get? k = some held) :
    ∃ held', (t.finish k).tickets.get? k = some held' ∧ held'.complete = true := by
  have hdone : ∀ err, (t.completeTicket k err).tickets.get? k =
      some { held with complete := true, err := err } := by
    intro err
    simp [FileTree.completeTicket, Table.get?_modify_self, hh]
  obtain ⟨hd, hg⟩ := Option.isSome_iff_exists.mp (h.tickets.filed hh).handle
  simp only [FileTree.finish, hh, hg]
  split_ifs with hcomplete hrun
  · exact ⟨held, hh, hcomplete⟩
  · refine ⟨{ held with complete := true, err := held.err }, ?_, rfl⟩
    split
    · simpa [FileTree.stopFileIo, FileTree.updateHandle] using hdone held.err
    · simpa [FileTree.startFileIoLocked, FileTree.stopFileIo,
        FileTree.updateHandle] using hdone held.err
  · refine ⟨{ held with complete := true, err := some .canceled }, ?_, rfl⟩
    simpa [FileTree.updateHandle, FileTree.completeTicket] using hdone (some .canceled)

lemma Sound.turnsOf_sorted (h : t.Sound 0) (n : ℕ) : (t.turnsOf n).Pairwise (· < ·) := by
  rw [turnsOf, List.pairwise_map]
  refine (h.tickets.order.filter _).imp_of_mem ?_
  intro a b ha hb hlt
  refine hlt ?_
  have ha' := (List.mem_filter.mp ha).2
  have hb' := (List.mem_filter.mp hb).2
  exact (of_decide_eq_true ha').trans (of_decide_eq_true hb').symm

/-- The flag of the handle is set, nothing is queued, and a ticket that is not complete has
the turn and has started. -/
def Fenced (t : FileTree) (n : ℕ) : Prop :=
  ∃ hd, t.handles.get? n = some hd ∧ hd.ioFenced = true ∧ hd.ioQueue = [] ∧
    ∀ k held, t.tickets.get? k = some held → held.handle = n →
      held.complete = true ∨ hd.ioRunning = some k ∧ held.started = true

lemma Sound.fenced (h : t.Sound 0)
    (hfen : ∃ hd, t.handles.get? n = some hd ∧ hd.ioFenced = true) : t.Fenced n := by
  obtain ⟨hd, hg, hfe⟩ := hfen
  have hre := h.rest hg
  obtain ⟨hnon, hbegun⟩ := hre.fenced hfe
  refine ⟨hd, hg, hfe, hnon, fun k held hh hha => ?_⟩
  cases hcomplete : held.complete with
  | true => exact .inl rfl
  | false =>
    have howned := hre.turn.owned ⟨held, hh, hha, hcomplete⟩
    rw [hnon] at howned
    have hrun := howned.resolve_right List.not_mem_nil
    exact .inr ⟨hrun, hbegun hrun hh⟩

/-- In whatever order the sections of the gate run: no channel is closed twice
or while it is nil; every ticket is completed once, by its `finish` at the
latest; the tickets of a handle, which are numbered as they are admitted, get the
turn in this order, one at a time, and while one waits another has the turn;
`fileActive` counts the operations that are admitted and not finished.  A fence of a
handle or of the tree leaves its tickets complete or started, and then no further
ticket of it gets the turn or starts. -/
theorem turns_taken_in_order (steps : List Step) :
    let t := steps.foldl FileTree.exec .new
    t.panicked = false ∧ t.closes.Nodup ∧ t.completions.Nodup ∧ (∀ k, k ∈ t.completions ↔
        ∃ held, t.tickets.get? k = some held ∧ held.complete = true) ∧
      (∀ k held, t.tickets.get? k = some held →
        ∃ held', (t.finish k).tickets.get? k = some held' ∧ held'.complete = true) ∧
      (∀ n, (t.turnsOf n).Pairwise (· < ·)) ∧
      (∀ n j k, t.Open n j → t.Open n k → t.Had j → t.Had k → j = k) ∧
      (∀ n k, t.Open n k → ∃ j, t.Open n j ∧ t.Had j) ∧
      t.fileActive = t.operations ∧
      (∀ n hd, t.handles.get? n = some hd → (t.exec (.fenceHandle n)).Fenced n ∧
        (hd.listed = true → (t.exec .fenceFileWork).Fenced n)) ∧
      ∀ n hd, t.handles.get? n = some hd → hd.ioFenced = true →
        t.Fenced n ∧ ∀ more : List Step, Still n t (more.foldl FileTree.exec t) := by
  intro t
  have h : t.Sound 0 := Sound.reached steps
  have hrow : ∀ {n k}, t.Open n k → ∃ hd, t.handles.get? n = some hd ∧ t.AtRest n hd := by
    rintro n k ⟨held, hh, rfl, -⟩
    obtain ⟨hd, hg⟩ := Option.isSome_iff_exists.mp (h.tickets.filed hh).handle
    exact ⟨hd, hg, h.rest hg⟩
  refine ⟨h.channels.calm, h.channels.nodup, h.tickets.once, fun k => ?_,
    fun k held hh => h.finish_complete hh, h.turnsOf_sorted, ?_, ?_, ?_,
    fun n hd hg => ?_, fun n hd hg hfe =>
      ⟨h.fenced ⟨hd, hg, hfe⟩, fun more => .run more h hg hfe⟩⟩
  · refine ⟨fun hk => ?_, ?_⟩
    · obtain ⟨held, hh⟩ := Option.isSome_iff_exists.mp (h.tickets.done hk)
      exact ⟨held, hh, (h.tickets.filed hh).completed.mpr hk⟩
    · rintro ⟨held, hh, hcomplete⟩
      exact (h.tickets.filed hh).completed.mp hcomplete
  · intro n j k hj hk hjHad hkHad
    obtain ⟨hd, -, hre⟩ := hrow hj
    have hruns : ∀ {i}, t.Open n i → t.Had i → hd.ioRunning = some i := by
      intro i hi hhad
      refine (hre.turn.owned hi).resolve_right fun hmem => ?_
      exact (hre.turn.queued hmem).2 hhad
    exact Option.some.inj ((hruns hj hjHad).symm.trans (hruns hk hkHad))
  · intro n k hk
    obtain ⟨hd, -, hre⟩ := hrow hk
    cases hrun : hd.ioRunning with
    | some j =>
      obtain ⟨ho, hhad, -⟩ := hre.turn.running hrun
      exact ⟨j, ho, hhad⟩
    | none =>
      have howned := hre.turn.owned hk
      simp [hrun, hre.vacant hrun] at howned
  · simpa using h.counts.active
  · refine ⟨(h.exec (.fenceHandle n)).fenced ?_,
      fun hlisted => (h.exec .fenceFileWork).fenced (flag_of_fences hg (.inl ?_))⟩
    · have hself : n ∈ [n] ∨ hd.ioFenced = true := .inl (List.mem_singleton_self n)
      exact flag_of_fences hg hself
    · exact List.mem_map.mpr ⟨_, List.mem_filter.mpr ⟨Table.mem_toList.mpr hg, hlisted⟩, rfl⟩

/-- No waiter is left behind: the channels of a ticket are closed exactly when it has its
turn or is complete, and every idle channel is closed once no operation is left. -/
theorem waiters_are_woken (steps : List Step) :
    let t := steps.foldl FileTree.exec .new
    (∀ k, .ready k ∈ t.closes ↔ t.Had k ∨ k ∈ t.completions) ∧
      (∀ k, .ioIdle k ∈ t.closes ↔ t.Had k ∧ k ∈ t.completions) ∧
      (t.operations = 0 ↔ ∀ n < t.nextIdle, .fileIdle n ∈ t.closes) := by
  intro t
  have h : t.Sound 0 := Sound.reached steps
  refine ⟨fun k => h.channels.closed, fun k => h.channels.closed, ?_⟩
  have hidle : t.fileIdle = none ↔ t.operations = 0 := by
    rw [h.counts.idle, h.counts.active]
    simp
  rw [← hidle]
  constructor
  · intro hnon n hn
    exact h.channels.closed.mpr ⟨hn, by simp [hnon]⟩
  · intro hall
    by_contra hne
    obtain ⟨c, hc⟩ := Option.ne_none_iff_exists'.mp hne
    obtain ⟨n, hn, rfl⟩ := h.channels.current hc
    exact (h.channels.closed.mp (hall n hn)).2 hc

end FileTree

end RemoteFs.Smb
