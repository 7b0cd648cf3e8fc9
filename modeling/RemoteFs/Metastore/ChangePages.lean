import RemoteFs.Metastore.ChangeLog

/-!
# Reading the change log page by page

A page is a bounded scan of the linked log.  Rows that were recorded well formed
pass the checks of the scan, so a page fails only for want of budget; pages read
one after the other return every later change once and in order.
-/

namespace RemoteFs.Metastore

open Storage (Errno Failure Text refuse refuse_ok check_bind_ok)
open Database

variable {db : Database} {entry : Entry}

/-! ## Well-formed changes -/

/-- What the tree keeps of a node beyond the checks of `Record`. -/
structure Node.WellFormed (node : Node) : Prop where
  identified : 0 < node.id
  sized : 0 ≤ node.size
  bounded : node.kind = .regular → node.size ≤ (maxInt64 : ℤ) - 4095
  directory : node.kind = .directory → node.size = 0 ∧ node.content = []
  regular : node.kind = .regular → node.content = [] → node.size = 0

/-- A change whose parts fit its kind, as `recordCreated`, `recordChanged`,
`recordRemoved` and `recordRenamed` build it. -/
structure Change.WellFormed (change : Change) : Prop where
  parent : 0 ≤ change.parent
  source : change.source.isSome = decide (change.kind = .renamed)
  carries : change.node.isSome = decide (change.kind ≠ .removed)
  node : ∀ node ∈ change.node, node.WellFormed
  /-- Only the root, which can be modified, has no location. -/
  located : addressable change.parent change.name = true ∨
    change.kind = .modified ∧ change.parent = 0 ∧ change.name = none
  named : ∀ name ∈ change.name, validStoredComponent name = true
  moved : ∀ source ∈ change.source, addressable source.parent source.name = true ∧
      validStoredComponent (source.name.getD []) = true

lemma Node.recordable_iff {node : Node} : node.recordable = true ↔
      node.linkTarget.length ≤ maxLinkTargetBytes ∧
      node.directoryRevision.length ≤ maxObservationTokenBytes ∧
      (node.kind = .directory → validNativeDirectoryRevision node.directoryRevision = true) ∧
      (node.kind ≠ .directory → node.directoryRevision = []) ∧
      (node.kind = .symlink → node.linkTarget ≠ [] ∧
        (node.linkTarget.length : ℤ) = node.size ∧ node.content = []) ∧
      (node.kind ≠ .symlink → node.linkTarget = []) := by
  simp only [Node.recordable, Bool.not_eq_true', Bool.or_eq_false_iff,
    Bool.and_eq_false_imp, decide_eq_true_eq, decide_eq_false_iff_not, not_lt,
    Bool.not_eq_false', ne_eq, not_not, and_assoc]

section Checks

variable {node : Node} {change : Change} {position volume : ℕ}

lemma Node.allocationCheck_ok (h : node.WellFormed) : node.allocationCheck position = .ok () := by
  refine refuse_ok.mpr ?_
  rintro (hnegative | ⟨hki, hlarge⟩)
  · exact absurd h.sized (not_le.mpr hnegative)
  · exact absurd (h.bounded hki) (not_le.mpr hlarge)

lemma Node.metadataCheck_ok (h : node.WellFormed) (hrec : node.recordable = true) :
    node.metadataCheck position = .ok () := by
  obtain ⟨-, -, -, -, hsymlink, hot⟩ := Node.recordable_iff.mp hrec
  simp only [Node.metadataCheck, check_bind_ok, refuse_ok]
  refine ⟨?_, ?_, ?_, ?_, ?_⟩
  · rintro (hid | hsize)
    · exact absurd h.identified (not_lt.mpr hid)
    · exact absurd h.sized (not_le.mpr hsize)
  · rintro ⟨hki, hbytes⟩
    obtain ⟨hsize, hcontent⟩ := h.directory hki
    exact hbytes.elim (fun hne => hne hsize) fun hne => hne hcontent
  · rintro ⟨hki, hcontent, hsize⟩
    exact hsize (h.regular hki hcontent)
  · rintro ⟨hki, hbytes⟩
    obtain ⟨htarget, hlen, hcontent⟩ := hsymlink hki
    rcases hbytes with hnone | hlength' | hcontent'
    · exact htarget hnone
    · exact hlength' hlen
    · exact hcontent' hcontent
  · rintro ⟨hki, htarget⟩
    exact htarget (hot hki)

lemma Node.extraCheck_ok (hrec : node.recordable = true) : node.extraCheck = .ok () := by
  obtain ⟨htarget, hlen, hdir, hot, -, -⟩ := Node.recordable_iff.mp hrec
  simp only [Node.extraCheck, check_bind_ok, refuse_ok]
  refine ⟨not_lt.mpr htarget, ?_⟩
  rintro (hlong | ⟨hki, hne⟩ | ⟨hki, hinvalid⟩)
  · exact absurd hlen (not_le.mpr hlong)
  · exact hne (hot hki)
  · exact hinvalid (hdir hki)

lemma Node.reserveCheck_ok (hrec : node.recordable = true) :
    node.reserveCheck = .ok () := by
  obtain ⟨-, hlen, hdir, hot, -, -⟩ := Node.recordable_iff.mp hrec
  simp only [Node.reserveCheck, check_bind_ok, refuse_ok]
  refine ⟨not_lt.mpr hlen, ?_⟩
  rintro (⟨hki, hempty⟩ | ⟨hki, hne⟩)
  · have hvalid := hdir hki
    rw [hempty] at hvalid
    cases hvalid
  · exact hne (hot hki)

lemma Change.nodeCheck_ok {check : Node → Except Failure Unit}
    (h : ∀ node ∈ change.node, check node = .ok ()) : change.nodeCheck check = .ok () := by
  unfold Change.nodeCheck
  split
  · rfl
  · next node hno => exact h node hno

lemma Change.destinationCheck_ok (h : change.WellFormed) :
    change.destinationCheck position = .ok () := by
  have hlocated : change.kind ≠ .modified →
      addressable change.parent change.name = true := fun hki =>
    h.located.resolve_right fun hroot => hki hroot.1
  unfold Change.destinationCheck
  split
  · next hki =>
    exact refuse_ok.mpr (not_not.mpr (hlocated (by simp [hki])))
  · next hki =>
    exact refuse_ok.mpr (not_not.mpr (hlocated (by simp [hki])))
  · exact refuse_ok.mpr (not_not.mpr (h.located.elim .inr fun hroot => .inl hroot.2))
  next hki =>
  refine refuse_ok.mpr (not_not.mpr ⟨hlocated (by simp [hki]), ?_⟩)
  have hsome := h.source
  rw [hki] at hsome
  obtain ⟨source, hsource⟩ := Option.isSome_iff_exists.mp hsome
  rw [hsource]
  exact (h.moved source hsource).1

lemma Change.scanCheck_ok (h : change.WellFormed)
    (hrec : ∀ node ∈ change.node, node.recordable = true) (hposition : position ≠ 0)
    (hvolume : volume ≠ 0) : change.scanCheck volume position = .ok () := by
  simp only [Change.scanCheck, check_bind_ok, refuse_ok]
  refine ⟨?_, ?_, not_not.mpr h.source, not_not.mpr h.carries, ?_, ?_, ?_⟩
  · exact Change.nodeCheck_ok fun node hno => Node.allocationCheck_ok (h.node node hno)
  · rintro (hzero | hzero | hnegative)
    · exact hposition hzero
    · exact hvolume hzero
    · exact absurd h.parent (not_le.mpr hnegative)
  · exact Change.nodeCheck_ok fun node hno =>
      Node.metadataCheck_ok (h.node node hno) (hrec node hno)
  · exact Change.destinationCheck_ok h
  · exact Change.nodeCheck_ok fun node hno => Node.extraCheck_ok (hrec node hno)

lemma Change.payloadCheck_ok (h : change.WellFormed) : change.payloadCheck position = .ok () := by
  simp only [Change.payloadCheck, check_bind_ok, refuse_ok]
  refine ⟨?_, ?_⟩
  · cases hname : change.name with
    | none => simp
    | some name => simp [h.named name hname]
  · cases hsource : change.source with
    | none => simp
    | some source => simp [(h.moved source hsource).2]

end Checks

/-! ## The budget of a page -/

/-- Charges are defined and not negative. -/
def ChangeResult.Charged (r : ChangeResult) : Prop :=
  ∀ index change, ∃ charge, r.changeBytes index change = .ok charge ∧ 0 ≤ charge

/-- Any one change fits an empty page. -/
def ChangeResult.Admits (r : ChangeResult) : Prop :=
  ∀ index change charge, r.changeBytes index change = .ok charge →
    charge ≤ r.maxBytes - r.fixedBytes

/-- A change that fits no page stops the reader for want of budget; one that
does not fit any more ends the page, which is then not empty. -/
lemma ChangeResult.reserve_spec {r : ChangeResult} {change : Change} (hcharged : r.Charged)
    (hrec : ∀ node ∈ change.node, node.recordable = true) :
    (∃ f, r.reserve change = .error f ∧ f.errno = .EFBIG ∧ ¬r.Admits) ∨
      (r.reserve change = .ok none ∧ r.usedBytes ≠ r.fixedBytes) ∨
      ∃ charge, r.reserve change = .ok (some charge) := by
  have hno := Change.nodeCheck_ok fun node hno => Node.reserveCheck_ok (hrec node hno)
  obtain ⟨charge, hcharge, hpos⟩ := hcharged r.changes.length change
  have hsign : ¬charge < 0 := not_lt.mpr hpos
  by_cases hlarge : r.maxBytes - r.fixedBytes < charge
  · refine .inl ⟨⟨.EFBIG, "one change exceeds the result bound"⟩, ?_, rfl, ?_⟩
    · simp only [ChangeResult.reserve, hno, hcharge, refuse, if_neg hsign,
        if_pos hlarge, bind, Except.bind]
    · exact fun had => absurd (had _ _ _ hcharge) (not_le.mpr hlarge)
  by_cases hfull : r.maxBytes - r.usedBytes < charge
  · refine .inr (.inl ⟨?_, ?_⟩)
    · simp only [ChangeResult.reserve, hno, hcharge, refuse, if_neg hsign,
        if_neg hlarge, if_pos hfull, bind, Except.bind, pure, Except.pure]
    · intro heq
      rw [heq] at hfull
      exact hlarge hfull
  · refine .inr (.inr ⟨charge, ?_⟩)
    simp only [ChangeResult.reserve, hno, hcharge, refuse, if_neg hsign,
      if_neg hlarge, if_neg hfull, bind, Except.bind, pure, Except.pure]

/-! ## The loop over the rows -/

def Entry.read (entry : Entry) : ℕ × Change := (entry.position, entry.change)

/-- What a recorded row satisfies besides its place in the log. -/
structure Entry.Readable (entry : Entry) (db : Database) : Prop where
  wellFormed : entry.change.WellFormed
  recordable : ∀ node ∈ entry.change.node, node.recordable = true
  reached : entry.position ≤ db.changeHighWater
  identified : entry.change.maxIdentity ≤ db.nodeHighWater

/-- How a loop over rows ends: the rows taken, and whether it was stopped. -/
structure Database.Scan.Took (scan : Scan) (rows : List Entry) (n : ℕ) (scan' : Scan) : Prop where
  atMost : n ≤ rows.length
  changes : scan'.result.changes = scan.result.changes ++ (rows.take n).map Entry.read
  cursor : scan'.cursor = ((rows.take n).getLast?.map Entry.position).getD scan.cursor
  whole : scan'.stoppedAtCapacity = false →
    n = rows.length ∧ scan'.examined = scan.examined + rows.length
  some_of_empty : scan.result.usedBytes = scan.result.fixedBytes → rows ≠ [] → 0 < n

/-- The checks of the loop on one row, up to its charge. -/
structure Entry.Passes (row : Entry) (db : Database) (volume : ℕ) (scan : Scan) : Prop where
  shape : row.change.scanCheck volume row.position = .ok ()
  previous : ¬row.position ≤ row.previous
  expected : ¬row.previous ≠ scan.expected
  reached : ¬(db.changeHighWater < row.position ∨ db.changeHighWater < row.previous)

section Row

variable {db : Database} {volume : ℕ} {scan : Scan} {row : Entry} {rows : List Entry}

lemma scanRows_cons_error (h : row.Passes db volume scan)
    (hreserve : scan.result.reserve row.change = .error f) :
    db.scanRows volume scan (row :: rows) = .error f := by
  simp only [scanRows, h.shape, refuse, if_neg h.previous, if_neg h.expected,
    if_neg h.reached, hreserve, bind, Except.bind]

lemma scanRows_cons_none (h : row.Passes db volume scan)
    (hreserve : scan.result.reserve row.change = .ok none) :
    db.scanRows volume scan (row :: rows) = .ok { scan with
        examined := scan.examined + 1
        stoppedAtCapacity := true } := by
  simp only [scanRows, h.shape, refuse, if_neg h.previous, if_neg h.expected,
    if_neg h.reached, hreserve, bind, Except.bind]

lemma scanRows_cons_some (h : row.Passes db volume scan)
    (hreserve : scan.result.reserve row.change = .ok (some charge))
    (hpayload : row.change.payloadCheck row.position = .ok ()) :
    db.scanRows volume scan (row :: rows) = db.scanRows volume
        ⟨scan.result.retain row.position row.change charge, row.position,
          row.position, scan.examined + 1, false⟩ rows := by
  simp only [scanRows, h.shape, refuse, if_neg h.previous, if_neg h.expected,
    if_neg h.reached, hreserve, hpayload, bind, Except.bind]

end Row

/-- By induction on the rows, which are linked from the predecessor the loop
expects. -/
lemma scanRows_spec {volume tail : ℕ} (hvolume : volume ≠ 0) {rows : List Entry} {scan : Scan}
    (hrows : ∀ row ∈ rows, row.Readable db) (hli : Chained scan.expected rows tail)
    (hcharged : scan.result.Charged) (hopen : scan.stoppedAtCapacity = false) :
    (∃ f, db.scanRows volume scan rows = .error f ∧ f.errno = .EFBIG ∧ ¬scan.result.Admits) ∨
      ∃ n scan', db.scanRows volume scan rows = .ok scan' ∧ scan.Took rows n scan' := by
  induction rows generalizing scan with
  | nil =>
    exact .inr ⟨0, scan, rfl, le_rfl, (List.append_nil _).symm, rfl,
      fun _ => ⟨rfl, rfl⟩, fun _ hne => (hne rfl).elim⟩
  | cons row rows ih =>
    obtain ⟨hexpected, hlt, hli⟩ := hli
    have hrow := hrows row List.mem_cons_self
    have hpassed : row.Passes db volume scan := by
      have hreached := hrow.reached
      exact ⟨Change.scanCheck_ok hrow.wellFormed hrow.recordable (by omega)
        hvolume, by omega, by omega, by omega⟩
    rcases ChangeResult.reserve_spec hcharged hrow.recordable with
      ⟨f, hf, herr, had⟩ | ⟨hnone, hused⟩ | ⟨charge, hsome⟩
    · exact .inl ⟨f, scanRows_cons_error hpassed hf, herr, had⟩
    · refine .inr ⟨0, _, scanRows_cons_none hpassed hnone, Nat.zero_le _,
        (List.append_nil _).symm, rfl, ?_, fun heq => (hused heq).elim⟩
      intro hstopped
      cases hstopped
    rw [scanRows_cons_some hpassed hsome (Change.payloadCheck_ok hrow.wellFormed)]
    rcases @ih ⟨scan.result.retain row.position row.change charge,
        row.position, row.position, scan.examined + 1, false⟩
      (fun other hm => hrows other (List.mem_cons_of_mem _ hm))
      hli hcharged rfl with
      ⟨f, hf, herr, had⟩ | ⟨n, scan', hok, htook⟩
    · exact .inl ⟨f, hf, herr, had⟩
    refine .inr ⟨n + 1, scan', hok, Nat.succ_le_succ htook.atMost, ?_, ?_,
      ?_, fun _ _ => Nat.succ_pos n⟩
    · rw [htook.changes, List.take_succ_cons, List.map_cons]
      exact List.append_assoc _ _ _
    · rw [htook.cursor, List.take_succ_cons, List.getLast?_cons]
      cases (rows.take n).getLast? <;> rfl
    · intro hstopped
      obtain ⟨hn, hexamined⟩ := htook.whole hstopped
      refine ⟨congrArg Nat.succ hn, ?_⟩
      rw [hexamined, List.length_cons]
      exact Nat.succ_add_eq_add_succ _ _

/-! ## One page -/

namespace History

variable {s : History} {volume : ℕ} {log : Log}

/-- The rows of the database, whatever their volume. -/
def Readable (s : History) : Prop := ∀ entry ∈ s.db.changes, entry.Readable s.db

lemma Sound.previous_lt (h : Sound s) (hm : entry ∈ s.db.changes) :
    entry.previous < entry.position := by
  obtain ⟨log, hlog⟩ := Option.isSome_iff_exists.mp (h.homed entry (h.kept entry hm))
  refine (h.logs hlog).linked.previous_lt ?_
  exact List.mem_filter.mpr ⟨hm, decide_eq_true rfl⟩

lemma Sound.validate (h : Sound s) (hre : Readable s) : s.db.validate = .ok () := by
  simp only [Database.validate, check_bind_ok, refuse_ok]
  refine ⟨not_not.mpr h.sequence, ?_, ?_⟩
  · simp only [List.any_eq_true, Bool.or_eq_true, decide_eq_true_eq, not_exists,
      not_and, not_or, not_lt]
    intro entry hm
    exact ⟨(hre entry hm).identified, max_le (hre entry hm).reached
      ((h.previous_lt hm).le.trans (hre entry hm).reached)⟩
  · simp only [List.any_eq_true, decide_eq_true_eq, not_exists, not_and, not_lt]
    rintro ⟨volume, log⟩ hm
    have hlog := h.logs (Table.mem_toList.mp hm)
    exact max_le hlog.reached (hlog.linked.le.trans hlog.reached)

/-- The changes a reader at a position has not seen. -/
def later (s : History) (volume after : ℕ) : List Entry :=
  (s.db.held volume).filter fun entry => after < entry.position

/-- The anchors of a page: the rows above its start are linked from the
predecessor the scan expects, which is not above its start if the start has not
been trimmed. -/
lemma Sound.logPageState (h : Sound s) (hre : Readable s)
    (hlog : s.db.logs.get? volume = some log) (after : ℕ) :
    ∃ state, s.db.logPageState volume after = .ok state ∧
      state.retention.tail = log.committedPosition ∧
      state.retention.trimmedThrough = log.trimmedThrough ∧
      state.retention.trimmedByAge = log.trimmedByAge ∧ state.fixedWork ≤ 4 ∧
      (log.trimmedThrough ≤ after → state.expected ≤ after) ∧
      Chained state.expected (s.later volume after) log.committedPosition := by
  unfold later
  have hc := h.logs hlog
  have hli := hc.linked
  have hreached := hc.reached
  have horder := hli.le
  have hheader : ¬log.committedPosition < log.trimmedThrough := by omega
  have hnamed : ¬(log.incarnation.length ≠ 32 ∨ ¬log.incarnation.all Storage.isLowerHex) := by
    simp [hc.named.1, hc.named.2]
  have hbounded : ¬(s.db.changeHighWater < log.committedPosition ∨
      s.db.changeHighWater < log.trimmedThrough) := by omega
  cases hheld : s.db.held volume with
  | nil =>
    rw [hheld] at hli
    have hanchor : ¬log.committedPosition ≠ log.trimmedThrough := not_not.mpr hli.symm
    refine ⟨⟨⟨log.committedPosition, log.trimmedThrough, log.trimmedByAge,
      0⟩, log.trimmedThrough, 1⟩, ?_, rfl, rfl, rfl, by norm_num, id, hli⟩
    simp only [Database.logPageState, h.validate hre, hlog, hheld, refuse, if_neg hheader,
      if_neg hnamed, if_neg hbounded, if_neg hanchor, bind, Except.bind, pure, Except.pure]
  | cons oldest rest =>
    rw [hheld] at hli
    obtain ⟨middle, hbelow, habove⟩ := hli.cut after
    set below := (oldest :: rest).filter fun entry => decide (entry.position ≤ after) with hdef
    have hnewest := maxPosition_eq hli (List.cons_ne_nil _ _)
    have hexpected : (if below = [] then log.trimmedThrough
        else maxPosition below) = middle := by
      split_ifs with hempty
      · rwa [hempty] at hbelow
      · exact maxPosition_eq hbelow hempty
    have hmiddle := habove.le
    have hstart : log.trimmedThrough ≤ after → middle ≤ after := by
      intro hle
      rw [← hexpected]
      split_ifs with hempty
      · exact hle
      rcases maxPosition_mem below with hzero | ⟨entry, hentry, heq⟩
      · rw [hzero]
        exact Nat.zero_le _
      · rw [← heq]
        exact of_decide_eq_true (List.mem_filter.mp hentry).2
    have hpair : storedPositionPair oldest = .ok () := by
      refine refuse_ok.mpr ?_
      have hfirst := hli.1
      have hlt := hli.2.1
      omega
    have holdest : ¬(oldest.position ≤ log.trimmedThrough ∨
        oldest.previous ≠ log.trimmedThrough) := by
      have hfirst := hli.1
      have hlt := hli.2.1
      omega
    have htail : ¬maxPosition (oldest :: rest) ≠ log.committedPosition := not_not.mpr hnewest
    have hanchors : ¬(s.db.changeHighWater < oldest.position ∨
        s.db.changeHighWater < oldest.previous ∨
        s.db.changeHighWater < maxPosition (oldest :: rest) ∨
        s.db.changeHighWater < middle) := by
      have hla := (hli.bounds List.mem_cons_self).2
      omega
    refine ⟨⟨⟨log.committedPosition, log.trimmedThrough, log.trimmedByAge,
      oldest.position⟩, middle, if below = [] then 3 else 4⟩, ?_, rfl, rfl,
      rfl, ?_, hstart, habove⟩
    · simp only [Database.logPageState, h.validate hre, hlog, hheld, refuse, if_neg hheader,
        if_neg hnamed, if_neg hbounded, hpair, if_neg holdest, if_neg htail, ← hdef, hexpected,
        if_neg hanchors, bind, Except.bind, pure, Except.pure]
    · split_ifs <;> norm_num

/-- A result as `NewChangeResult` makes it, with charges for all changes. -/
structure Fresh (r : ChangeResult) : Prop where
  made : newChangeResult r.maxBytes r.fixedBytes r.changeBytes = .ok r
  charged : r.Charged

lemma Fresh.empty (h : Fresh r) : r.changes = [] ∧ r.usedBytes = r.fixedBytes := by
  have hmade := h.made
  unfold newChangeResult at hmade
  split_ifs at hmade
  rw [← Except.ok.inj hmade]
  exact ⟨rfl, rfl⟩

lemma Readable.later (hre : Readable s) {after : ℕ}
    (hm : entry ∈ s.later volume after) : entry.Readable s.db :=
  hre entry (List.mem_filter.mp (List.mem_filter.mp hm).1).1

/-- One page: it fails for want of budget only, and otherwise it holds the
oldest later changes, at least one if there is one. -/
lemma Sound.readPage (h : Sound s) (hre : Readable s) (hlog : s.db.logs.get? volume = some log)
    {after : ℕ} (maxIntegrityRecords limit : ℤ) {result : ChangeResult} (hfresh : Fresh result) :
    (∃ f, s.db.readPage volume maxIntegrityRecords after limit result =
        .error f ∧ f.errno = .EFBIG ∧
        ¬(5 ≤ maxIntegrityRecords ∧ result.Admits)) ∨
      ∃ n retention page, s.db.readPage volume maxIntegrityRecords after limit result =
          .ok (retention, page) ∧
        retention.tail = log.committedPosition ∧
        retention.trimmedThrough = log.trimmedThrough ∧
        retention.trimmedByAge = log.trimmedByAge ∧
        page.changes = ((s.later volume after).take n).map Entry.read ∧
        (0 < limit → s.later volume after ≠ [] → 0 < n) := by
  obtain ⟨state, hst, htail, htrimmed, hbyAge, hwork, hstart, hli⟩ :=
    h.logPageState hre hlog after
  set pageLimit := min limit (maxIntegrityRecords - state.fixedWork) with hpage
  by_cases hanchors : maxIntegrityRecords < state.fixedWork
  · refine .inl ⟨⟨.EFBIG, "the log page anchors exceed the integrity limit"⟩, ?_, rfl, by omega⟩
    simp only [Database.readPage, hst, refuse, if_pos hanchors, bind, Except.bind]
  by_cases hbudget : pageLimit = 0 ∧ 0 < limit ∧ after < state.retention.tail
  · refine .inl ⟨⟨.EFBIG, "the log page has no record budget remaining"⟩, ?_, rfl, by omega⟩
    simp only [Database.readPage, hst, refuse, if_neg hanchors, ← hpage,
      if_pos hbudget, bind, Except.bind]
  set rows := (s.later volume after).take pageLimit.toNat with hrows
  obtain ⟨middle, hpart⟩ : ∃ middle, Chained state.expected rows middle := by
    rw [← List.take_append_drop pageLimit.toNat (s.later volume after)] at hli
    obtain ⟨middle, hpart, -⟩ := Linked.append_iff.mp hli
    exact ⟨middle, hpart⟩
  have hscan := @scanRows_spec s.db volume middle (h.logs hlog).positive rows
    ⟨result, after, state.expected, 0, false⟩
    (fun row hm => hre.later (List.mem_of_mem_take hm)) hpart
    hfresh.charged rfl
  rcases hscan with ⟨f, hf, herr, had⟩ | ⟨n, scan, hok, htook⟩
  · refine .inl ⟨f, ?_, herr, fun hboth => had hboth.2⟩
    simp only [hrows, later] at hf
    simp only [Database.readPage, hst, refuse, if_neg hanchors, ← hpage,
      if_neg hbudget, hf, bind, Except.bind]
  have hends : ¬(scan.stoppedAtCapacity = false ∧ (scan.examined : ℤ) < pageLimit ∧ 0 < limit ∧
      state.retention.trimmedThrough ≤ scan.cursor ∧
      scan.cursor < state.retention.tail) := by
    rintro ⟨hopen, hshort, -, htrim, hbefore⟩
    obtain ⟨hn, hexamined⟩ := htook.whole hopen
    have hall : rows = s.later volume after := by
      refine List.take_of_length_le ?_
      have hcount : rows.length = min pageLimit.toNat
          (s.later volume after).length := List.length_take
      omega
    -- a page that was not cut off ends at the tail of the log
    have hcursor := htook.cursor
    rw [hn, List.take_length, hall] at hcursor
    have hla := hli.eq_of_getLast?
    rw [htail] at hbefore
    rw [htrimmed] at htrim
    cases hnewest : (s.later volume after).getLast? with
    | none =>
      rw [hnewest] at hcursor hla
      rw [hcursor] at htrim hbefore
      rw [hla] at hbefore
      exact absurd (hstart htrim) (not_le.mpr hbefore)
    | some newest =>
      rw [hnewest] at hcursor hla
      rw [hcursor, hla] at hbefore
      exact lt_irrefl _ hbefore
  refine .inr ⟨n, state.retention, scan.result, ?_, htail, htrimmed, hbyAge,
    ?_, fun hpos hne => htook.some_of_empty hfresh.empty.2 ?_⟩
  · simp only [hrows, later] at hok
    simp only [Database.readPage, hst, refuse, if_neg hanchors, ← hpage,
      if_neg hbudget, hok, if_neg hends, bind, Except.bind, pure, Except.pure]
  · have hn := htook.atMost.trans (List.length_take_le _ _)
    rw [htook.changes, hfresh.empty.1, hrows, List.take_take, Nat.min_eq_left hn, List.nil_append]
  · obtain ⟨entry, hm⟩ := List.exists_mem_of_ne_nil _ hne
    have hafter : after < entry.position := of_decide_eq_true (List.mem_filter.mp hm).2
    have hreach := (hli.bounds hm).2
    have hroom : pageLimit.toNat ≠ 0 := by
      intro hzero
      refine hbudget ⟨?_, hpos, by omega⟩
      omega
    exact fun hnil => (List.take_eq_nil_iff.mp hnil).elim hroom hne

/-! ## Page after page -/

/-- What one call of `ReadPage` is given besides the position it starts at. -/
structure PageRequest where
  limit : ℤ
  maxIntegrityRecords : ℤ
  result : ChangeResult

/-- A reader that calls `ReadPage` from the last position it was given. -/
def readPages (s : History) (volume : ℕ) :
    ℕ → List PageRequest → Except Failure (List (ℕ × Change))
  | _, [] => .ok []
  | after, request :: requests => do
    let (_, page) ← s.db.readPage volume request.maxIntegrityRecords after
      request.limit request.result
    let rest ← s.readPages volume
      ((page.changes.getLast?.map Prod.fst).getD after) requests
    pure (page.changes ++ rest)

/-- A request with a positive limit, into a result with nothing in it yet. -/
def PageRequest.Proper (request : PageRequest) : Prop :=
  0 < request.limit ∧ Fresh request.result

/-- A request whose budgets admit one change. -/
def PageRequest.Admits (request : PageRequest) : Prop :=
  5 ≤ request.maxIntegrityRecords ∧ request.result.Admits

/-- What is left after some of the later changes have been read. -/
lemma Sound.later_after_take (h : Sound s)
    (hlog : s.db.logs.get? volume = some log) (after n : ℕ) :
    s.later volume ((((s.later volume after).take n).map Entry.read).getLast?.map
          Prod.fst |>.getD after) =
      (s.later volume after).drop n := by
  obtain ⟨middle, -, hli⟩ := (h.logs hlog).linked.cut after
  rw [List.getLast?_map, Option.map_map]
  cases hla : ((s.later volume after).take n).getLast? with
  | none =>
    have hnil := List.getLast?_eq_none_iff.mp hla
    rcases List.take_eq_nil_iff.mp hnil with rfl | hempty
    · rfl
    · rwa [hempty, List.drop_nil]
  | some newest =>
    rw [List.getLast?_eq_getElem?] at hla
    obtain ⟨hlt, -⟩ := List.getElem?_eq_some_iff.mp hla
    rw [List.length_take] at hla hlt
    rw [List.getElem?_take_of_lt (by omega)] at hla
    have hnewest : after < newest.position :=
      of_decide_eq_true (List.mem_filter.mp (List.mem_of_getElem? hla)).2
    have hrest := hli.filter_above_getElem? hla
    rw [List.filter_filter] at hrest
    calc (s.db.held volume).filter (fun entry => newest.position < entry.position)
        = (s.db.held volume).filter (fun entry =>
            decide (newest.position < entry.position) &&
              decide (after < entry.position)) := by
          refine List.filter_congr fun entry _ => ?_
          by_cases habove : newest.position < entry.position
          · simp [habove, hnewest.trans habove]
          · simp [habove]
      _ = (s.later volume after).drop (min n (s.later volume after).length - 1 + 1) := hrest
      _ = (s.later volume after).drop n := by
          rw [Nat.sub_add_cancel (by omega)]
          rcases le_total n (s.later volume after).length with hle | hle
          · rw [Nat.min_eq_left hle]
          · rw [Nat.min_eq_right hle, List.drop_length, List.drop_of_length_le hle]

/-- The requests are answered in order, as long as the budgets allow; every
page but those after the tail makes progress. -/
lemma Sound.readPages (h : Sound s) (hre : Readable s) (hlog : s.db.logs.get? volume = some log)
    {requests : List PageRequest} (hproper : ∀ request ∈ requests, request.Proper) (after : ℕ) :
    (∃ f, s.readPages volume after requests = .error f ∧ f.errno = .EFBIG ∧
        ¬∀ request ∈ requests, request.Admits) ∨
      ∃ n, s.readPages volume after requests =
          .ok (((s.later volume after).take n).map Entry.read) ∧
        min requests.length (s.later volume after).length ≤ n := by
  induction requests generalizing after with
  | nil => exact .inr ⟨0, rfl, Nat.min_le_left _ _⟩
  | cons request requests ih =>
    obtain ⟨hlimit, hfresh⟩ := hproper request List.mem_cons_self
    have hproper : ∀ other ∈ requests, other.Proper := fun other hm =>
      hproper other (List.mem_cons_of_mem _ hm)
    rcases @Sound.readPage s volume log h hre hlog after
        request.maxIntegrityRecords request.limit _ hfresh with
      ⟨f, hf, herr, had⟩ | ⟨k, retention, page, hok, -, -, -, hpage, hk⟩
    · refine .inl ⟨f, ?_, herr, fun hall => had (hall request List.mem_cons_self)⟩
      simp only [History.readPages, hf, bind, Except.bind]
    rcases ih hproper ((page.changes.getLast?.map Prod.fst).getD after) with
      ⟨f, hf, herr, had⟩ | ⟨n, hrest, hn⟩
    · refine .inl ⟨f, ?_, herr, fun hall => had fun other hm =>
        hall other (List.mem_cons_of_mem _ hm)⟩
      simp only [History.readPages, hok, hf, bind, Except.bind]
    rw [hpage, h.later_after_take hlog after k] at hrest hn
    refine .inr ⟨k + n, ?_, ?_⟩
    · simp only [History.readPages, hok, hpage, hrest, bind, Except.bind, pure, Except.pure]
      rw [← List.map_append, ← List.take_add]
    · rw [List.length_drop] at hn
      rw [List.length_cons]
      have hprogress := hk hlimit
      rw [← List.length_pos_iff] at hprogress
      omega

/-! ## Every run -/

/-- A recorded change fits its kind and names nodes that exist; a window has
passed its check. -/
def Fits (s : History) : Step → Prop
  | .record _ change _ =>
    change.WellFormed ∧ change.maxIdentity ≤ s.db.nodeHighWater
  | .trim _ window _ _ => checkWindow window = .ok ()
  | _ => True

lemma Readable.record (h : Readable s)
    (hshape : change.WellFormed) (hid : change.maxIdentity ≤ s.db.nodeHighWater)
    (hok : s.db.record volume change now = .ok (db, entry)) :
    Readable { db, recorded := s.recorded ++ [entry] } := by
  obtain ⟨log, -, -, hno, rfl, rfl⟩ := record_eq_ok hok
  intro other hm
  rcases List.mem_append.mp hm with hm | hm
  · have hot := h other hm
    exact ⟨hot.wellFormed, hot.recordable,
      hot.reached.trans (Nat.le_succ _), hot.identified⟩
  · rw [List.mem_singleton.mp hm]
    exact ⟨hshape, hno, le_rfl, hid⟩

lemma Readable.trim (h : Readable s) (hc : Sound s) {w : Database.Window} {now later : Time}
    (hok : s.db.trim volume w now later = .ok db) : Readable { s with db } := by
  cases hlog : s.db.logs.get? volume with
  | none =>
    unfold Database.trim at hok
    rw [hc.held_eq_nil hlog] at hok
    cases hok
    exact h
  | some log =>
    rcases (trim_trimmed (hc.logs hlog).linked hok).same_or_cut with
      rfl | ⟨cut, byAge, rfl, -⟩
    · exact h
    · intro entry hm
      have hentry := h entry (List.mem_filter.mp hm).1
      exact ⟨hentry.wellFormed, hentry.recordable, hentry.reached, hentry.identified⟩

lemma Readable.exec (h : Readable s) (hc : Sound s)
    (hfi : s.Fits step) : Readable (s.exec step) := by
  cases step with
  | createLog other incarnation =>
    simp only [History.exec]
    split
    · exact h
    next hok =>
    unfold Database.createLog at hok
    split at hok
    · cases hok
    cases hok
    exact fun entry hm => ⟨(h entry hm).wellFormed, (h entry hm).recordable,
      (h entry hm).reached, (h entry hm).identified⟩
  | allocateNode =>
    exact fun entry hm => ⟨(h entry hm).wellFormed, (h entry hm).recordable,
      (h entry hm).reached, (h entry hm).identified.trans (Int.le_add_one le_rfl)⟩
  | record other change now =>
    simp only [History.exec]
    split
    · exact h
    · next hok => exact h.record hfi.1 hfi.2 hok
  | trim other w now later =>
    simp only [History.exec]
    split
    · exact h
    · next hok => exact h.trim hc hok

lemma readable_run {nodeHighWater : ℤ} {steps : List Step}
    (hfi : Runs.Along exec Fits (initial nodeHighWater) steps) :
    Readable (steps.foldl exec (initial nodeHighWater)) := by
  have hstart : Sound (initial nodeHighWater) ∧ Readable (initial nodeHighWater) :=
    ⟨sound_initial nodeHighWater, fun _ hm => by cases hm⟩
  have hstep : ∀ s step, Sound s ∧ Readable s → Fits s step →
      Sound (s.exec step) ∧ Readable (s.exec step) :=
    fun _ _ h hfi => ⟨h.1.exec _, h.2.exec h.1 hfi⟩
  exact (Runs.Along.invariant hstep hstart hfi).2

lemma checkWindow_ok (h : checkWindow w = .ok ()) : 1 ≤ w.floor ∧ w.floor ≤ w.cap := by
  simp only [checkWindow, check_bind_ok, refuse_ok, not_lt] at h
  exact ⟨h.1, h.2.1⟩

/-- The integrity of the log of every volume after any run: what it holds and
how it is linked, what a trim leaves of it, and, if the recorded changes are well formed,
what its readers see. -/
theorem change_log_integrity (nodeHighWater : ℤ) (steps : List Step) {s : History}
    (hs : s = steps.foldl exec (initial nodeHighWater)) {volume : ℕ} {log : Log}
    (hlog : s.db.logs.get? volume = some log) :
    (s.db.held volume = s.recorded.filter fun entry =>
      entry.volume = volume && decide (log.trimmedThrough < entry.position)) ∧
    Chained log.trimmedThrough (s.db.held volume) log.committedPosition ∧
    (∀ window now later db, checkWindow window = .ok () →
      s.db.trim volume window now later = .ok db →
      ((db.held volume).length : ℤ) ≤ window.cap ∧
        min window.floor (s.db.held volume).length ≤ (db.held volume).length) ∧
    (∀ step, ∃ log', (s.exec step).db.logs.get? volume = some log' ∧
      log.trimmedThrough ≤ log'.trimmedThrough) ∧
    (Runs.Along exec Fits (initial nodeHighWater) steps →
      (∀ maxIntegrityRecords after limit result f, 0 ≤ limit → Fresh result →
        s.db.readPage volume maxIntegrityRecords after limit result = .error f →
        f.errno = .EFBIG) ∧
      ∀ after requests, log.trimmedThrough ≤ after →
        (∀ request ∈ requests, request.Proper ∧ request.Admits) →
        ∃ n, s.readPages volume after requests =
            .ok (((s.later volume after).take n).map Entry.read) ∧
          min requests.length (s.later volume after).length ≤ n) := by
  have hc : Sound s := hs ▸ sound_run nodeHighWater steps
  refine ⟨(hc.logs hlog).exact, (hc.logs hlog).linked, ?_,
    fun step => trimmedThrough_le hc step hlog, fun hfi => ?_⟩
  · intro window now later db hwindow hok
    obtain ⟨hfloor, hcap⟩ := checkWindow_ok hwindow
    have htrimmed := trim_trimmed (hc.logs hlog).linked hok
    have hatMost := htrimmed.atMost
    rw [max_eq_left (by omega)] at hatMost
    exact ⟨hatMost, htrimmed.atLeast hcap⟩
  have hre : Readable s := hs ▸ readable_run hfi
  constructor
  · intro maxIntegrityRecords after limit result f _ hfresh hf
    rcases hc.readPage hre hlog maxIntegrityRecords limit hfresh with
      ⟨f', hf', herr, -⟩ | ⟨n, retention, page, hok, -⟩
    · cases hf.symm.trans hf'
      exact herr
    · cases hf.symm.trans hok
  · intro after requests _ hrequests
    rcases hc.readPages hre hlog (fun request hm =>
        (hrequests request hm).1) after with ⟨f, -, -, hbudget⟩ | hpages
    · exact (hbudget fun request hm => (hrequests request hm).2).elim
    · exact hpages

/-! ### Two recorded removals -/

namespace Sample

def incarnation : Incarnation := ⟨List.replicate 32 97, by decide⟩

/-- Nothing removes an entry without a name, and `Record` does not ask for
one. -/
def nameless : Change := ⟨.removed, 0, none, none, none⟩

def removal (name : UInt8) : Change := ⟨.removed, 1, some [name], none, none⟩

def result : ChangeResult := ⟨10, 0, 0, fun _ _ => .ok 1, []⟩

def request : PageRequest := ⟨1, 5, result⟩

def steps : List Step :=
  [.createLog 1 incarnation, .record 1 (removal 97) 0, .record 1 (removal 98) 0]

lemma removal_wellFormed (hname : validStoredComponent [name] = true) :
    (removal name).WellFormed where
  parent := zero_le_one
  source := rfl
  carries := rfl
  node := fun _ hm => by cases hm
  located := .inl rfl
  named := fun _ hm => by
    cases hm
    exact hname
  moved := fun _ hm => by cases hm

lemma result_fresh : Fresh result where
  made := rfl
  charged := fun _ _ => ⟨1, rfl, by decide⟩

end Sample

/-- A removal recorded without a name is committed, and no page can be read
over it any more. -/
theorem nameless_removal_is_reported :
    (([.createLog 1 Sample.incarnation, .record 1 Sample.nameless 0].foldl exec
      (initial 1)).db.held 1).map Entry.change = [Sample.nameless] ∧
    ([.createLog 1 Sample.incarnation, .record 1 Sample.nameless 0].foldl exec
      (initial 1)).db.readPage 1 5 0 1 Sample.result =
        .error (.mk Errno.EIO "change 1 has no addressable destination") := by
  exact ⟨rfl, rfl⟩

theorem change_log_integrity_two_pages : (Sample.steps.foldl exec (initial 1)).db.logs.get? 1 =
      some ⟨Sample.incarnation.text, 2, 0, false⟩ ∧
    ∃ n, (Sample.steps.foldl exec (initial 1)).readPages 1 0 [Sample.request, Sample.request] =
      .ok ((((Sample.steps.foldl exec (initial 1)).later 1 0).take n).map
        Entry.read) ∧ 2 ≤ n := by
  have hlog : (Sample.steps.foldl exec (initial 1)).db.logs.get? 1 =
      some ⟨Sample.incarnation.text, 2, 0, false⟩ := rfl
  have hfi : Runs.Along exec Fits (initial 1) Sample.steps :=
    ⟨trivial, ⟨Sample.removal_wellFormed (by decide), by decide⟩,
      ⟨Sample.removal_wellFormed (by decide), by decide⟩, trivial⟩
  refine ⟨hlog, ?_⟩
  refine ((change_log_integrity 1 Sample.steps rfl hlog).2.2.2.2 hfi).2 0
    [Sample.request, Sample.request] le_rfl fun request hm => ?_
  have hrequest : request = Sample.request := by simpa using hm
  rw [hrequest]
  refine ⟨⟨by decide, Sample.result_fresh⟩, by decide, ?_⟩
  intro index change charge hcharge
  cases hcharge
  decide

/-- The changes and logs of a database pass their checks after any run of well-formed
changes. -/
theorem runs_are_validated (nodeHighWater : ℤ) (steps : List Step)
    (hfi : Runs.Along exec Fits (initial nodeHighWater) steps) :
    (steps.foldl exec (initial nodeHighWater)).db.validate = .ok () :=
  (sound_run nodeHighWater steps).validate (readable_run hfi)

theorem runs_are_validated_two_removals :
    (Sample.steps.foldl exec (initial 1)).db.validate = .ok () :=
  runs_are_validated 1 Sample.steps ⟨trivial, ⟨Sample.removal_wellFormed (by decide), by decide⟩,
    ⟨Sample.removal_wellFormed (by decide), by decide⟩, trivial⟩

end History

end RemoteFs.Metastore
