import RemoteFs.Smb.DirectoryQuery

/-!
# Every match is listed once

The records in the bodies that a cursor has sent, followed by the matches still ahead
of it, are always the matches of its snapshot.  A request that does not get as far
as the cursor changes nothing.
-/

namespace RemoteFs

open Storage (refuse refuse_ok bind_ok check_bind_ok)

namespace Smb

open Wire (DirectoryEntry checkDirectoryEntry directoryInformationHeadSize)

/-! ## The cursor -/

@[simp] lemma matching_nil : matching [] = [] := rfl

@[simp] lemma matching_cons (entry : DirectorySnapshotEntry)
    (rest : List DirectorySnapshotEntry) :
    matching (entry :: rest) =
      if entry.matched then entry.record :: matching rest else matching rest := by
  unfold matching
  split_ifs with hmatched <;> simp [hmatched]

/-- The matches still ahead of a cursor. -/
def DirectoryCursor.remaining (c : DirectoryCursor) (snapshot : DirectorySnapshot) :
    List DirectoryEntry :=
  matching (snapshot.entries.drop c.next)

/-- A request that gets as far as the cursor. -/
structure Served (limits : Limits) (snapshot : DirectorySnapshot)
    (query : DirectoryQuery) (outside : Outside) : Prop where
  fits : ∃ head, directoryInformationHeadSize query.infoClass = some head ∧
    head ≤ query.outputBufferLength.toNat
  bounded : (query.outputBufferLength.toNat : ℤ) ≤ limits.maxIOBytes
  admission : outside.admission = none
  authorize : outside.authorize = none
  rich : query.infoClass = Wire.fileNamesInformation ∨ snapshot.richStatus = .ok

def Valid (snapshot : DirectorySnapshot) (query : DirectoryQuery) : Prop :=
  ∀ entry ∈ snapshot.entries,
    checkDirectoryEntry query.infoClass entry.record = .ok ()

variable {snapshot : DirectorySnapshot} {query : DirectoryQuery}

lemma Valid.remaining (hv : Valid snapshot query) (c : DirectoryCursor) :
    ∀ entry ∈ c.remaining snapshot, checkDirectoryEntry query.infoClass entry = .ok () := by
  intro entry hentry
  obtain ⟨held, hheld, rfl⟩ := List.mem_map.mp hentry
  exact hv held (List.mem_of_mem_drop (List.mem_of_mem_filter hheld))

variable {limits : Limits}

/-- The reply is a page of whole records. -/
def Carries (query : DirectoryQuery) (page : List DirectoryEntry) (reply : Reply) : Prop :=
  reply.status = .ok ∧ ∃ head, directoryInformationHeadSize query.infoClass = some head ∧
    Wire.queryInfoResponseBody (Wire.putEntries query.infoClass head 0 page) = .ok reply.body

/-- The whole record fits into the buffer of the request. -/
def Fits (query : DirectoryQuery) (record : DirectoryEntry) : Prop :=
  ∃ head, directoryInformationHeadSize query.infoClass = some head ∧
    head + 2 * record.name.length ≤ query.outputBufferLength.toNat

/-- The reply is a record that is cut off at the end of the buffer. -/
def CutOff (query : DirectoryQuery) (record : DirectoryEntry) (reply : Reply) : Prop :=
  reply.status = .bufferOverflow ∧ Wire.queryInfoResponseBody (Wire.putDirectoryEntry
    query.infoClass record 0 query.outputBufferLength.toNat) = .ok reply.body

/-- What a page of these records does to its cursor. -/
structure Turned (query : DirectoryQuery) (c : DirectoryCursor) (snapshot : DirectorySnapshot)
    (page : List DirectoryEntry) (candidate : DirectoryPageCandidate) : Prop where
  split : page ++ matching (snapshot.entries.drop candidate.next) = c.remaining snapshot
  returned : candidate.returned = (c.returned || page ≠ [])
  settled : candidate.settled = (c.settled || c.remaining snapshot = [])
  /-- With nothing ahead. -/
  exhausted : c.remaining snapshot = [] → candidate.reply.status =
    if !c.returned && !c.settled then .noSuchFile else .noMoreFiles
  /-- With something ahead, the page completes some of it if the first record fits;
  else this record is cut off and the cursor moves over no match. -/
  some : ∀ first rest, c.remaining snapshot = first :: rest →
    (Fits query first → page ≠ [] ∧ Carries query page candidate.reply) ∧
      (¬Fits query first → page = [] ∧ CutOff query first candidate.reply ∧
        ∃ moved, candidate.next = c.next + moved ∧
          matching ((snapshot.entries.drop c.next).take moved) = [])

namespace Enumeration

variable {limits : Limits} {e : Enumeration} {cursor : DirectoryCursor}
  {snapshot : DirectorySnapshot} {query : DirectoryQuery} {outside : Outside}

def begun (pattern : List UInt16) (snapshot : DirectorySnapshot) : Enumeration :=
  ⟨some ⟨some snapshot, pattern, 0, false, false⟩⟩

/-- The records that a reply delivers: whole ones, or none. -/
def Delivers (request : DirectoryQuery × Outside) (reply : Reply)
    (page : List DirectoryEntry) : Prop :=
  page ≠ [] → Carries request.1 page reply

/-- The pages of the replies to these requests. -/
inductive Pages : List (DirectoryQuery × Outside) → List Reply → List (List DirectoryEntry) → Prop
  | nil : Pages [] [] []
  | snoc {requests replies pages request reply page} : Pages requests replies pages →
      Delivers request reply page →
      Pages (requests ++ [request]) (replies ++ [reply]) (pages ++ [page])

/-- What has been listed after these requests, and what is still ahead. -/
structure Listed (limits : Limits) (snapshot : DirectorySnapshot)
    (requests : List (DirectoryQuery × Outside)) (cursor : DirectoryCursor)
    (replies : List Reply) (pages : List (List DirectoryEntry)) : Prop where
  held : cursor.snapshot = some snapshot
  sent : Pages requests replies pages
  split : pages.flatten ++ cursor.remaining snapshot = matching snapshot.entries
  returned : cursor.returned = true ↔ pages.flatten ≠ []
  served : matching snapshot.entries = [] →
    (cursor.settled = true ↔ ∃ r ∈ requests, Served limits snapshot r.1 r.2)

variable {requests : List (DirectoryQuery × Outside)} {replies : List Reply}
  {pages : List (List DirectoryEntry)}

/-- What a request finds that reaches a cursor with nothing ahead. -/
lemma Listed.exhausted {page : List DirectoryEntry} {candidate : DirectoryPageCandidate}
    (h : Listed limits snapshot requests cursor replies pages)
    (htu : Turned query cursor snapshot page candidate) (hnone : cursor.remaining snapshot = []) :
    (candidate.reply.status = .noSuchFile ∨ candidate.reply.status = .noMoreFiles) ∧
      (candidate.reply.status = .noSuchFile ↔ matching snapshot.entries = [] ∧
          ∀ r ∈ requests, ¬Served limits snapshot r.1 r.2) := by
  rw [htu.exhausted hnone]
  have hall : pages.flatten = matching snapshot.entries := by
    rw [← h.split, hnone, List.append_nil]
  have hreturned : cursor.returned = false ↔ matching snapshot.entries = [] := by
    rw [← Bool.not_eq_true, h.returned, hall, not_not]
  refine ⟨?_, ?_⟩
  · split_ifs
    · exact .inl rfl
    · exact .inr rfl
  · have hif : (if (!cursor.returned && !cursor.settled) = true then
        Status.noSuchFile else .noMoreFiles) = .noSuchFile ↔
        cursor.returned = false ∧ cursor.settled = false := by
      split_ifs with hcond <;> simpa using hcond
    rw [hif, hreturned]
    refine and_congr_right fun hnothing => ?_
    rw [← Bool.not_eq_true, h.served hnothing]
    simp

end Enumeration

end Smb
end RemoteFs
