import RemoteFs.Lib.Linked
import RemoteFs.Lib.Runs
import RemoteFs.Metastore.Changes

/-!
# Integrity of the change log

Any number of volumes record and trim in one database.  The log of a volume is
linked from the position through which it was trimmed to its committed tail, and
it is what was recorded above that position.
-/

namespace RemoteFs.Metastore

open Storage (Failure Text)
open Database

variable {a b cut start tail volume : ℕ} {entries : List Entry}
  {db db' : Database} {now : Time} {entry : Entry} {n : ℤ}

/-- A database with everything that was ever recorded in it. -/
structure History where
  db : Database
  recorded : List Entry

inductive Step where
  | createLog (volume : ℕ) (incarnation : Incarnation)
  /-- A node is created, which raises the high-water mark of identities. -/
  | allocateNode
  | record (volume : ℕ) (change : Change) (now : Time)
  | trim (volume : ℕ) (window : Database.Window) (now later : Time)

namespace History

def initial (nodeHighWater : ℤ) : History := ⟨.empty nodeHighWater, []⟩

/-- One transaction; a failed one is rolled back. -/
def exec (s : History) : Step → History
  | .createLog volume incarnation =>
    match s.db.createLog volume incarnation with
    | .error _ => s
    | .ok db => { s with db }
  | .allocateNode =>
    { s with db := { s.db with nodeHighWater := s.db.nodeHighWater + 1 } }
  | .record volume change now =>
    match s.db.record volume change now with
    | .error _ => s
    | .ok (db, entry) => ⟨db, s.recorded ++ [entry]⟩
  | .trim volume window now later =>
    match s.db.trim volume window now later with
    | .error _ => s
    | .ok db => { s with db }

end History

abbrev Chained := Linked Entry.position Entry.previous

/-- The log of one volume. -/
structure Log.Sound (log : Log) (s : History) (volume : ℕ) : Prop where
  linked : Chained log.trimmedThrough (s.db.held volume) log.committedPosition
  exact : s.db.held volume = s.recorded.filter fun entry =>
    entry.volume = volume && decide (log.trimmedThrough < entry.position)
  reached : log.committedPosition ≤ s.db.changeHighWater
  named : log.incarnation.length = 32 ∧ log.incarnation.all Storage.isLowerHex = true
  positive : volume ≠ 0

structure History.Sound (s : History) : Prop where
  logs : ∀ {volume log}, s.db.logs.get? volume = some log → log.Sound s volume
  sequence : s.db.changeSequence = s.db.changeHighWater
  homed : ∀ entry ∈ s.recorded, (s.db.logs.get? entry.volume).isSome
  kept : ∀ entry ∈ s.db.changes, entry ∈ s.recorded

/-! ## One transaction -/

lemma record_eq_ok (hok : db.record volume change now = .ok (db', entry)) :
    ∃ log, db.logs.get? volume = some log ∧ log.committedPosition < db.changeHighWater + 1 ∧
      (∀ node ∈ change.node, node.recordable = true) ∧
      entry = ⟨db.changeHighWater + 1, log.committedPosition, volume, change, now⟩ ∧
      db' = { db with
        changes := db.changes ++ [entry]
        logs := db.logs.modify volume
          ({ · with committedPosition := db.changeHighWater + 1 })
        changeHighWater := db.changeHighWater + 1
        changeSequence := db.changeHighWater + 1 } := by
  unfold record at hok
  split at hok
  · cases hok
  next hrec =>
  have hnode : ∀ node ∈ change.node, node.recordable = true := by
    intro node hnode
    have hnode : change.node = some node := hnode
    simpa [hnode] using hrec
  split at hok
  · cases hok
  next log hlog =>
  unfold allocateChangePosition at hok
  split at hok
  · cases hok
  next position hposition =>
  split_ifs at hposition
  cases hposition
  split at hok
  · cases hok
  · next hbehind =>
    cases hok
    exact ⟨log, hlog, Nat.lt_of_not_le hbehind, hnode, rfl, rfl⟩

section Held

variable {db : Database} {volume other : ℕ}

lemma held_append (hchanges : db'.changes = db.changes ++ [entry]) : db'.held volume =
      if entry.volume = volume then db.held volume ++ [entry]
      else db.held volume := by
  unfold held
  rw [hchanges, List.filter_append]
  split_ifs with heq
  · rw [List.filter_cons_of_pos (by simpa using heq), List.filter_nil]
  · rw [List.filter_cons_of_neg (by simpa using heq), List.filter_nil, List.append_nil]

lemma held_trimThrough (cut : ℕ) (byAge : Bool) : (db.trimThrough volume cut byAge).held volume =
      (db.held volume).filter fun entry => decide (cut < entry.position) := by
  unfold held trimThrough
  rw [List.filter_filter, List.filter_filter]
  refine List.filter_congr fun entry _ => ?_
  by_cases hvo : entry.volume = volume
  · have hflip : (!decide (entry.position ≤ cut)) =
        decide (cut < entry.position) := by
      rw [← decide_not]
      exact decide_eq_decide.mpr not_le
    simp only [hvo, decide_true, Bool.true_and, Bool.and_true, hflip]
  · simp [hvo]

lemma held_trimThrough_ne (hne : other ≠ volume) (cut : ℕ) (byAge : Bool) :
    (db.trimThrough volume cut byAge).held other = db.held other := by
  unfold held trimThrough
  rw [List.filter_filter]
  refine List.filter_congr fun entry _ => ?_
  by_cases hother : entry.volume = other
  · simp [hother, hne]
  · simp [hother]

end Held

namespace History.Sound

variable {s : History}

lemma held_eq_nil (h : Sound s) (hnone : s.db.logs.get? volume = none) :
    s.db.held volume = [] := by
  refine List.filter_eq_nil_iff.mpr fun entry hm hvo => ?_
  have hsome := h.homed entry (h.kept entry hm)
  rw [decide_eq_true_eq] at hvo
  rw [hvo, hnone] at hsome
  cases hsome

lemma recorded_eq_nil (h : Sound s) (hnone : s.db.logs.get? volume = none) (keep : Entry → Bool) :
    s.recorded.filter (fun entry => entry.volume = volume && keep entry) = [] := by
  refine List.filter_eq_nil_iff.mpr fun entry hm hvo => ?_
  have hsome := h.homed entry hm
  rw [Bool.and_eq_true, decide_eq_true_eq] at hvo
  rw [hvo.1, hnone] at hsome
  cases hsome

lemma createLog (h : Sound s) (hok : s.db.createLog volume incarnation = .ok db) :
    Sound { s with db } := by
  unfold Database.createLog at hok
  split at hok
  · cases hok
  next hfree =>
  cases hok
  rw [not_or, Option.not_isSome_iff_eq_none] at hfree
  refine ⟨fun {other log} hlog => ?_, h.sequence, fun entry hm => ?_, h.kept⟩
  · rw [Table.get?_set] at hlog
    split_ifs at hlog with heq
    · cases hlog
      rw [heq]
      refine ⟨?_, ?_, Nat.zero_le _, incarnation.valid, hfree.1⟩
      · change Chained 0 (s.db.held volume) 0
        rw [h.held_eq_nil hfree.2]
        rfl
      · change s.db.held volume = _
        rw [h.held_eq_nil hfree.2, h.recorded_eq_nil hfree.2]
    · have hbefore := h.logs hlog
      exact ⟨hbefore.linked, hbefore.exact, hbefore.reached, hbefore.named, hbefore.positive⟩
  · rw [Table.get?_set]
    split_ifs
    · rfl
    · exact h.homed entry hm

lemma record (h : Sound s) (hok : s.db.record volume change now = .ok (db, entry)) :
    Sound ⟨db, s.recorded ++ [entry]⟩ := by
  obtain ⟨log, hlog, hbehind, -, rfl, rfl⟩ := record_eq_ok hok
  have hisSome : ∀ other, (s.db.logs.get? other).isSome → ((s.db.logs.modify volume ({ · with
        committedPosition := s.db.changeHighWater + 1 })).get? other).isSome := by
    intro other hsome
    rw [Table.get?_modify]
    split_ifs with heq
    · rwa [Option.isSome_map, ← heq]
    · exact hsome
  refine ⟨fun {other log'} hlog' => ?_, rfl, fun found hm => ?_, fun found hm => ?_⟩
  · obtain ⟨before, hbefore, rfl⟩ := Table.of_get?_modify hlog'
    have hc := h.logs hbefore
    by_cases heq : other = volume
    · subst heq
      rw [hlog] at hbefore
      cases hbefore
      simp only [if_true]
      have htrimmed := hc.linked.le
      refine ⟨?_, ?_, le_rfl, hc.named, hc.positive⟩
      · rw [held_append rfl, if_pos rfl]
        exact hc.linked.snoc rfl hbehind
      · rw [held_append rfl, if_pos rfl, List.filter_append, ← hc.exact,
          List.filter_cons_of_pos, List.filter_nil]
        simp only [decide_true, Bool.true_and, decide_eq_true_eq]
        exact htrimmed.trans_lt hbehind
    rw [if_neg heq]
    refine ⟨?_, ?_, ?_, hc.named, hc.positive⟩
    · rw [held_append rfl, if_neg (Ne.symm heq)]
      exact hc.linked
    · rw [held_append rfl, if_neg (Ne.symm heq), List.filter_append, ← hc.exact,
        List.filter_cons_of_neg, List.filter_nil, List.append_nil]
      simp [Ne.symm heq]
    · exact hc.reached.trans (Nat.le_succ _)
  · rcases List.mem_append.mp hm with hm | hm
    · exact hisSome _ (h.homed found hm)
    · rw [List.mem_singleton.mp hm]
      exact hisSome _ (by rw [hlog]; rfl)
  · rcases List.mem_append.mp hm with hm | hm
    · exact List.mem_append_left _ (h.kept found hm)
    · exact List.mem_append_right _ hm

/-- Removing a prefix that ends at a position of the log. -/
lemma trimThrough (h : Sound s) {byAge : Bool}
    (hcut : ∃ entry ∈ s.db.held volume, entry.position = cut) :
    Sound { s with db := s.db.trimThrough volume cut byAge } := by
  refine ⟨fun {other log'} hlog' => ?_, h.sequence, fun found hm => ?_,
    fun found hm => h.kept found (List.mem_filter.mp hm).1⟩
  · obtain ⟨log, hlog, rfl⟩ := Table.of_get?_modify hlog'
    have hc := h.logs hlog
    by_cases heq : other = volume
    · subst heq
      simp only [if_true]
      obtain ⟨last, hlast, rfl⟩ := hcut
      have habove := (hc.linked.bounds hlast).1
      refine ⟨?_, ?_, hc.reached, hc.named, hc.positive⟩
      · -- the last entry at or below the cut is the one at the cut
        obtain ⟨middle, hbelow, hrest⟩ := hc.linked.cut last.position
        have hm : last ∈ (s.db.held other).filter
            fun entry => decide (entry.position ≤ last.position) :=
          List.mem_filter.mpr ⟨hlast, decide_eq_true le_rfl⟩
        have hmiddle : middle = last.position := by
          refine Nat.le_antisymm ?_ (hbelow.bounds hm).2
          rw [hbelow.eq_of_getLast?]
          cases hfind : ((s.db.held other).filter
              fun entry => decide (entry.position ≤ last.position)).getLast? with
          | none => exact habove.le
          | some found =>
            exact of_decide_eq_true (List.mem_filter.mp (List.mem_of_getLast? hfind)).2
        rw [held_trimThrough]
        exact hmiddle ▸ hrest
      · rw [held_trimThrough, hc.exact, List.filter_filter]
        refine List.filter_congr fun entry _ => ?_
        by_cases hvo : entry.volume = other
        · simp only [hvo, decide_true, Bool.true_and]
          rw [← Bool.decide_and]
          exact decide_eq_decide.mpr ⟨fun hlt => hlt.1, fun hlt => ⟨hlt, habove.trans hlt⟩⟩
        · simp [hvo]
    rw [if_neg heq]
    refine ⟨?_, ?_, hc.reached, hc.named, hc.positive⟩
    · rw [held_trimThrough_ne heq]
      exact hc.linked
    · rw [held_trimThrough_ne heq]
      exact hc.exact
  · change ((s.db.logs.modify volume _).get? found.volume).isSome
    rw [Table.get?_modify]
    split_ifs with heq
    · rw [Option.isSome_map, ← heq]
      exact h.homed found hm
    · exact h.homed found hm

end History.Sound

/-! ## Where a trim cuts -/

section Cut

lemma foldl_max_le {newest : ℕ} :
    newest ≤ entries.foldl (fun m entry => max m entry.position) newest ∧
      ∀ entry ∈ entries, entry.position ≤
        entries.foldl (fun m entry => max m entry.position) newest := by
  induction entries generalizing newest with
  | nil => simp
  | cons first rest ih =>
    rw [List.foldl_cons]
    obtain ⟨hle, hall⟩ := @ih (max newest first.position)
    refine ⟨(le_max_left _ _).trans hle, fun entry hm => ?_⟩
    rcases List.mem_cons.mp hm with rfl | hm
    · exact (le_max_right _ _).trans hle
    · exact hall entry hm

lemma foldl_max_mem {newest : ℕ} :
    entries.foldl (fun m entry => max m entry.position) newest = newest ∨
      ∃ entry ∈ entries, entry.position =
        entries.foldl (fun m entry => max m entry.position) newest := by
  induction entries generalizing newest with
  | nil => exact .inl rfl
  | cons first rest ih =>
    rw [List.foldl_cons]
    rcases @ih (max newest first.position) with heq | ⟨entry, hm, heq⟩
    · rw [heq]
      rcases max_choice newest first.position with hmax | hmax
      · exact .inl hmax
      · exact .inr ⟨first, List.mem_cons_self, hmax.symm⟩
    · exact .inr ⟨entry, List.mem_cons_of_mem _ hm, heq⟩

lemma le_maxPosition (hm : entry ∈ entries) : entry.position ≤ maxPosition entries :=
  foldl_max_le.2 entry hm

lemma maxPosition_mem (entries : List Entry) : maxPosition entries = 0 ∨
      ∃ entry ∈ entries, entry.position = maxPosition entries :=
  foldl_max_mem

lemma maxPosition_eq (h : Chained start entries tail) (hne : entries ≠ []) :
    maxPosition entries = tail := by
  have htail := h.eq_of_getLast?
  rw [List.getLast?_eq_some_getLast hne] at htail
  refine Nat.le_antisymm ?_ ?_
  · rcases maxPosition_mem entries with hzero | ⟨entry, hm, heq⟩
    · rw [hzero]
      exact Nat.zero_le _
    · rw [← heq]
      exact (h.bounds hm).2
  · rw [htail]
    exact le_maxPosition (List.getLast_mem hne)

/-- A cut is zero or the position of an entry. -/
def Marks (entries : List Entry) (cut : ℕ) : Prop :=
  cut = 0 ∨ ∃ entry ∈ entries, entry.position = cut

lemma lastBefore_marks (entries : List Entry) (cutoff : Time) :
    Marks entries (lastBefore entries cutoff) := by
  rcases maxPosition_mem (entries.filter fun entry => entry.recorded < cutoff) with
    hzero | ⟨entry, hm, heq⟩
  · exact .inl hzero
  · exact .inr ⟨entry, (List.mem_filter.mp hm).1, heq⟩

lemma nthOldest_marks (hok : nthOldest entries n = .ok cut) : Marks entries cut := by
  unfold nthOldest at hok
  split at hok
  · cases hok
    exact .inl rfl
  split at hok
  · cases hok
  · next entry hentry =>
    cases hok
    exact .inr ⟨entry, List.mem_of_getElem? hentry, rfl⟩

lemma Marks.min (ha : Marks entries a) (hb : Marks entries b) : Marks entries (min a b) := by
  rcases min_choice a b with heq | heq
  · rwa [heq]
  · rwa [heq]

lemma Marks.max (ha : Marks entries a) (hb : Marks entries b) : Marks entries (max a b) := by
  rcases max_choice a b with heq | heq
  · rwa [heq]
  · rwa [heq]

lemma length_above_nthOldest (h : Chained start entries tail)
    (hok : nthOldest entries n = .ok cut) :
    n ≤ entries.length ∧
      ((entries.filter fun entry => decide (cut < entry.position)).length : ℤ) =
        entries.length - max n 0 := by
  unfold nthOldest at hok
  split at hok
  · next hle =>
    cases hok
    rw [h.filter_le_start (Nat.zero_le _), max_eq_right hle]
    omega
  next hpos =>
  split at hok
  · cases hok
  next entry hentry =>
  cases hok
  obtain ⟨hlt, -⟩ := List.getElem?_eq_some_iff.mp hentry
  rw [h.filter_above_getElem? hentry, List.length_drop]
  omega

lemma length_above_le (entries : List Entry) (hle : a ≤ b) :
    (entries.filter fun entry => decide (b < entry.position)).length ≤
      (entries.filter fun entry => decide (a < entry.position)).length := by
  refine (List.monotone_filter_right entries fun entry hlt => ?_).length_le
  exact decide_eq_true (hle.trans_lt (of_decide_eq_true hlt))

lemma nthOldest_mono (h : Chained start entries tail) (hle : m ≤ n)
    (ha : nthOldest entries m = .ok a) (hb : nthOldest entries n = .ok b) : a ≤ b := by
  unfold nthOldest at ha hb
  split at ha
  · cases ha
    exact Nat.zero_le _
  split at ha
  · cases ha
  next x hx =>
  rw [if_neg (by omega)] at hb
  split at hb
  · cases hb
  next y hy =>
  cases ha
  cases hb
  exact h.getElem?_le hx hy (by omega)

end Cut

/-- What a trim leaves of a log. -/
structure Trimmed (db : Database) (volume : ℕ) (w : Database.Window) (db' : Database) : Prop where
  same_or_cut : db' = db ∨ ∃ cut byAge, db' = db.trimThrough volume cut byAge ∧
      ∃ entry ∈ db.held volume, entry.position = cut
  atMost : ((db'.held volume).length : ℤ) ≤ max w.cap 0
  atLeast : w.floor ≤ w.cap → min w.floor (db.held volume).length ≤ (db'.held volume).length

lemma trim_trimmed (h : Chained start (db.held volume) tail)
    (hok : db.trim volume w now later = .ok db') : Trimmed db volume w db' := by
  unfold trim at hok
  split at hok
  · next hempty =>
    cases hok
    refine ⟨.inl rfl, ?_, fun _ => ?_⟩
    · rw [hempty]
      exact le_max_right _ _
    · exact min_le_right _ _
  next oldest rest hheld =>
  have hlinked := h
  rw [hheld] at hlinked
  have hnewest := maxPosition_eq hlinked (List.cons_ne_nil _ _)
  have hspan := hlinked.2.2.length_le
  simp only at hok
  split at hok
  · next hsmall =>
    cases hok
    refine ⟨.inl rfl, ?_, fun _ => min_le_right _ _⟩
    rw [Bool.and_eq_true, Bool.not_eq_true', decide_eq_false_iff_not, not_lt, hnewest] at hsmall
    rw [hheld, List.length_cons]
    refine le_max_of_le_left (le_trans ?_ hsmall.1)
    push_cast
    omega
  split at hok
  · cases hok
  · cases hok
  next byVolume byFloor hvo hfloor =>
  obtain ⟨-, hcap⟩ := length_above_nthOldest hlinked hvo
  obtain ⟨-, hleft⟩ := length_above_nthOldest hlinked hfloor
  split at hok
  · next hzero =>
    cases hok
    refine ⟨.inl rfl, ?_, fun _ => min_le_right _ _⟩
    have hnone : byVolume = 0 := Nat.le_zero.mp ((le_max_left _ _).trans hzero.le)
    rw [hnone, hlinked.filter_le_start (Nat.zero_le _)] at hcap
    rw [hheld]
    omega
  next hcut =>
  cases hok
  have hmarks := (nthOldest_marks hvo).max
    ((lastBefore_marks _ (later - w.age)).min (nthOldest_marks hfloor))
  refine ⟨.inr ⟨_, _, rfl, ?_⟩, ?_, fun hwindow => ?_⟩
  · rw [hheld]
    exact hmarks.resolve_left hcut
  · rw [held_trimThrough, hheld]
    have hdeeper := length_above_le (oldest :: rest) (le_max_left byVolume
      (min (lastBefore (oldest :: rest) (later - w.age)) byFloor))
    omega
  · rw [held_trimThrough, hheld]
    have hshallow := nthOldest_mono hlinked (by omega) hvo hfloor
    have hdeepest := length_above_le (oldest :: rest)
      (max_le hshallow (min_le_right (lastBefore (oldest :: rest) (later - w.age)) byFloor))
    omega

/-! ## Every run -/

namespace History

variable {s : History}

lemma Sound.trim (h : Sound s) (hok : s.db.trim volume w now later = .ok db) :
    Sound { s with db } := by
  cases hlog : s.db.logs.get? volume with
  | none =>
    unfold Database.trim at hok
    rw [h.held_eq_nil hlog] at hok
    cases hok
    exact h
  | some log =>
    have htrimmed := trim_trimmed (h.logs hlog).linked hok
    rcases htrimmed.same_or_cut with rfl | ⟨cut, byAge, rfl, hcut⟩
    · exact h
    · exact h.trimThrough hcut

lemma Sound.exec (h : Sound s) (step : Step) : Sound (s.exec step) := by
  cases step with
  | createLog volume incarnation =>
    simp only [History.exec]
    split
    · exact h
    · next hok => exact h.createLog hok
  | allocateNode =>
    exact ⟨fun hlog => ⟨(h.logs hlog).linked, (h.logs hlog).exact, (h.logs hlog).reached,
      (h.logs hlog).named, (h.logs hlog).positive⟩, h.sequence, h.homed, h.kept⟩
  | record volume change now =>
    simp only [History.exec]
    split
    · exact h
    · next hok => exact h.record hok
  | trim volume w now later =>
    simp only [History.exec]
    split
    · exact h
    · next hok => exact h.trim hok

lemma sound_initial (nodeHighWater : ℤ) : Sound (initial nodeHighWater) where
  logs := fun hlog => by cases (Table.get?_empty _).symm.trans hlog
  sequence := rfl
  homed := fun _ hm => by cases hm
  kept := fun _ hm => by cases hm

lemma sound_run (nodeHighWater : ℤ) (steps : List Step) :
    Sound (steps.foldl exec (initial nodeHighWater)) :=
  Runs.invariant (fun _ step h => h.exec step) (sound_initial nodeHighWater) steps

lemma trimmedThrough_le (h : Sound s) (step : Step) (hlog : s.db.logs.get? volume = some log) :
    ∃ log', (s.exec step).db.logs.get? volume = some log' ∧
      log.trimmedThrough ≤ log'.trimmedThrough := by
  have hs : ∃ log', s.db.logs.get? volume = some log' ∧
      log.trimmedThrough ≤ log'.trimmedThrough := ⟨log, hlog, le_rfl⟩
  cases step with
  | createLog other incarnation =>
    simp only [History.exec]
    split
    · exact hs
    next hok =>
    unfold Database.createLog at hok
    split at hok
    · cases hok
    next hfree =>
    cases hok
    rw [not_or, Option.not_isSome_iff_eq_none] at hfree
    refine ⟨log, (Table.get?_set_ne ?_).trans hlog, le_rfl⟩
    rintro rfl
    rw [hlog] at hfree
    cases hfree.2
  | allocateNode => exact hs
  | record other change now =>
    simp only [History.exec]
    split
    · exact hs
    next hok =>
    obtain ⟨before, -, -, -, -, rfl⟩ := record_eq_ok hok
    change ∃ log', (s.db.logs.modify other _).get? volume = some log' ∧ _
    rw [Table.get?_modify]
    split_ifs with heq
    · rw [← heq, hlog]
      exact ⟨_, rfl, le_rfl⟩
    · exact hs
  | trim other w now later =>
    simp only [History.exec]
    split
    · exact hs
    next hok =>
    cases hother : s.db.logs.get? other with
    | none =>
      unfold Database.trim at hok
      rw [h.held_eq_nil hother] at hok
      cases hok
      exact hs
    | some found =>
      have hlinked := (h.logs hother).linked
      rcases (trim_trimmed hlinked hok).same_or_cut with
        rfl | ⟨cut, byAge, rfl, entry, hentry, rfl⟩
      · exact hs
      change ∃ log', (s.db.logs.modify other _).get? volume = some log' ∧ _
      rw [Table.get?_modify]
      split_ifs with heq
      · rw [← heq, hlog] at hother ⊢
        cases hother
        exact ⟨_, rfl, (hlinked.bounds hentry).1.le⟩
      · exact hs

end History

end RemoteFs.Metastore
