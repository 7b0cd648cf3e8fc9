import RemoteFs.Lib.Bytes
import RemoteFs.Lib.Table
import RemoteFs.Storage.Failure

/-!
# The metadata envelope

`packages/storage/metadata.go`.  The namespaces of a node are encoded in the
order of their names, each with its three lengths in front.  The decoder checks
order, bounds and totals on the way and refuses everything that the encoder does
not produce; a slice that left its bounds would be the fault `outOfRange`.
-/

namespace RemoteFs.Storage

open Bytes

def maxMetadataNamespaces : ℕ := 16
def maxMetadataNamespaceBytes : ℕ := 128
def maxMetadataValueBytes : ℕ := 32768
def maxMetadataBytes : ℕ := 65536
def maxObservationTokenBytes : ℕ := 64

structure OpaquePayload where
  version : List UInt8
  data : List UInt8
  deriving DecidableEq

/-- A map of metadata; the nil map is the empty one. -/
abbrev Metadata := Table (List UInt8) OpaquePayload

abbrev MetadataEntry := List UInt8 × OpaquePayload

def namespaceByte (c : UInt8) : Bool :=
  (97 ≤ c && c ≤ 122) || (48 ≤ c && c ≤ 57) || c = 46 || c = 95 || c = 45

variable (name : List UInt8)

def checkMetadataNamespace : Except Failure Unit := do
  refuse (name.length = 0 ∨ maxMetadataNamespaceBytes < name.length) ⟨.EINVAL, ""⟩
  refuse (name.all namespaceByte = false) ⟨.EINVAL, ""⟩

def entrySize (value : OpaquePayload) : ℕ :=
  8 + name.length + value.version.length + value.data.length

/-- One iteration of the loop of `metadataSize`. -/
def addEntry (size : ℕ) (entry : MetadataEntry) : Except Failure ℕ := do
  checkMetadataNamespace entry.1
  refuse (entry.2.version.length = 0 ∨
    maxObservationTokenBytes < entry.2.version.length) ⟨.EINVAL, ""⟩
  refuse (maxMetadataValueBytes < entry.2.data.length) ⟨.EFBIG, ""⟩
  refuse (maxMetadataBytes < size + entrySize entry.1 entry.2) ⟨.EFBIG, ""⟩
  return size + entrySize entry.1 entry.2

variable (values : Metadata)

def metadataSize : Except Failure ℕ := do
  refuse (maxMetadataNamespaces < values.size) ⟨.EFBIG, ""⟩
  values.toList.foldlM addEntry 6

def checkMetadata : Except Failure Unit :=
  (fun _ => ()) <$> metadataSize values

/-! ## Encoding -/

/-- `RFM`, and the version of the format. -/
def envelopeMark : List UInt8 := [82, 70, 77, 1]

def encodeEntry (value : OpaquePayload) : List UInt8 :=
  ofNat 2 name.length ++ (ofNat 2 value.version.length ++
    (ofNat 4 value.data.length ++
      (name ++ (value.version ++ value.data))))

/-- The names in order, as `sort.Strings` leaves them. -/
def sortedNames : List (List UInt8) :=
  (values.toList.map Prod.fst).mergeSort

def encodeMetadata : Except Failure (List UInt8) := do
  let _ ← metadataSize values
  return envelopeMark ++ (ofNat 2 values.size ++
    (sortedNames values).flatMap fun name =>
      encodeEntry name ((values.get? name).getD ⟨[], []⟩))

/-! ## Decoding -/

inductive DecodeFault where
  | failed (failure : Failure)
  | outOfRange
  deriving DecidableEq

def invalidEnvelope : DecodeFault :=
  .failed (.mk Errno.EIO "invalid metadata envelope")

/-- The three lengths of an entry, and what follows them. -/
def readSizes (data : List UInt8) : Except DecodeFault (ℕ × ℕ × ℕ × List UInt8) := do
  refuse (data.length < 8) invalidEnvelope
  let keySize ← slice .outOfRange data 0 2
  let versionSize ← slice .outOfRange data 2 4
  let valueSize ← slice .outOfRange data 4 8
  let rest ← slice .outOfRange data 8 data.length
  return (value keySize, value versionSize, value valueSize, rest)

/-- One iteration of the loop of `DecodeMetadata`. -/
def readEntry (previous data : List UInt8) : Except DecodeFault (MetadataEntry × List UInt8) := do
  let (keySize, versionSize, valueSize, data) ← readSizes data
  refuse (keySize = 0 ∨ maxMetadataNamespaceBytes < keySize ∨
    versionSize = 0 ∨ maxObservationTokenBytes < versionSize ∨
    maxMetadataValueBytes < valueSize) invalidEnvelope
  refuse (data.length < keySize ∨ data.length - keySize < versionSize ∨
    data.length - keySize - versionSize < valueSize) invalidEnvelope
  let key ← slice .outOfRange data 0 keySize
  refuse (key ≤ previous ∨ checkMetadataNamespace key ≠ .ok ()) invalidEnvelope
  let version ← slice .outOfRange data keySize (keySize + versionSize)
  let payload ← slice .outOfRange data (keySize + versionSize)
    (keySize + versionSize + valueSize)
  let rest ← slice .outOfRange data (keySize + versionSize + valueSize)
    data.length
  return ((key, ⟨version, payload⟩), rest)

def readEntries : ℕ → List UInt8 → List UInt8 → Metadata →
    Except DecodeFault (List UInt8 × Metadata)
  | 0, _, data, values => .ok (data, values)
  | count + 1, previous, data, values => do
    let (entry, rest) ← readEntry previous data
    readEntries count entry.1 rest (values.set entry.1 entry.2)

/-- `DecodeMetadata` after the number of entries is known. -/
def decodeBody (count : ℕ) (data : List UInt8) : Except DecodeFault Metadata := do
  if count = 0 then
    refuse (data.length ≠ 0) invalidEnvelope
    return .empty
  else
    let (rest, values) ← readEntries count [] data .empty
    refuse (rest.length ≠ 0) invalidEnvelope
    refuse (checkMetadata values ≠ .ok ()) invalidEnvelope
    return values

def decodeMetadata (data : List UInt8) : Except DecodeFault Metadata := do
  refuse (data.length < 6 ∨ maxMetadataBytes < data.length) invalidEnvelope
  let mark ← slice .outOfRange data 0 4
  refuse (mark ≠ envelopeMark) invalidEnvelope
  let count ← slice .outOfRange data 4 6
  refuse (maxMetadataNamespaces < value count) invalidEnvelope
  let rest ← slice .outOfRange data 6 data.length
  decodeBody (value count) rest

/-! ## One entry -/

variable {previous data rest : List UInt8} {e : MetadataEntry}

/-- What both sides check of an entry. -/
structure EntryOk (e : MetadataEntry) : Prop where
  name : checkMetadataNamespace e.1 = .ok ()
  version : 0 < e.2.version.length ∧ e.2.version.length ≤ maxObservationTokenBytes
  data : e.2.data.length ≤ maxMetadataValueBytes

lemma EntryOk.name_length (hok : EntryOk e) :
    0 < e.1.length ∧ e.1.length ≤ maxMetadataNamespaceBytes := by
  have hna := hok.name
  simp only [checkMetadataNamespace, check_bind_ok, refuse_ok] at hna
  omega

lemma addEntry_eq_ok_iff {size size' : ℕ} : addEntry size e = .ok size' ↔ EntryOk e ∧
      size + entrySize e.1 e.2 ≤ maxMetadataBytes ∧
      size' = size + entrySize e.1 e.2 := by
  simp only [addEntry, check_bind_ok, refuse_ok, pure, Except.pure, Except.ok.injEq]
  constructor
  · rintro ⟨hna, hve, hda, hsize, rfl⟩
    exact ⟨⟨hna, by omega, by omega⟩, by omega, rfl⟩
  · rintro ⟨⟨hna, hve, hda⟩, hsize, rfl⟩
    exact ⟨hna, by omega, by omega, by omega, rfl⟩

lemma readSizes_append {k v d : List UInt8} (hk : k.length = 2)
    (hv : v.length = 2) (hd : d.length = 4) (hda : data = k ++ (v ++ (d ++ rest))) :
    readSizes data = .ok (value k, value v, value d, rest) := by
  have hlen : data.length = 8 + rest.length := by
    simp only [hda, List.length_append]
    omega
  have hkey : slice DecodeFault.outOfRange data 0 2 = .ok k :=
    slice_append [] k _ hda rfl (by simp [hk])
  have hve : slice DecodeFault.outOfRange data 2 4 = .ok v :=
    slice_append k v _ hda hk (by omega)
  have hvalue : slice DecodeFault.outOfRange data 4 8 = .ok d :=
    slice_append (k ++ v) d rest (by simp [hda]) (by simp [hk, hv])
      (by simp [hk, hv, hd])
  have hres : slice DecodeFault.outOfRange data 8 data.length = .ok rest :=
    slice_append (k ++ (v ++ d)) rest [] (by simp [hda])
      (by simp [hk, hv, hd]) (by simp [hk, hv, hd, hlen])
  have hlong : ¬data.length < 8 := by omega
  simp only [readSizes, refuse, if_neg hlong, hkey, hve, hvalue, hres]
  rfl

/-- Reading an entry once its lengths are known to fit the rest. -/
lemma readEntry_of_sizes (previous : List UInt8) {name version payload : List UInt8}
    (hsizes : readSizes data = .ok (name.length, version.length,
      payload.length, name ++ (version ++ (payload ++ rest)))) :
    (readEntry previous data = .ok ((name, ⟨version, payload⟩), rest) ∧
        EntryOk (name, ⟨version, payload⟩) ∧ previous < name) ∨
      (readEntry previous data = .error invalidEnvelope ∧
        ¬(EntryOk (name, ⟨version, payload⟩) ∧ previous < name)) := by
  set body := name ++ (version ++ (payload ++ rest)) with hbody
  have hlen : body.length = name.length + version.length + payload.length + rest.length := by
    simp only [hbody, List.length_append]
    omega
  have hkey : slice DecodeFault.outOfRange body 0 name.length = .ok name :=
    slice_append [] name _ hbody rfl (by simp)
  have hve : slice DecodeFault.outOfRange body name.length
      (name.length + version.length) = .ok version :=
    slice_append name version _ hbody rfl rfl
  have hpayload : slice DecodeFault.outOfRange body (name.length + version.length)
      (name.length + version.length + payload.length) = .ok payload :=
    slice_append (name ++ version) payload rest (by simp [hbody]) (by simp)
      (by simp)
  have hres : slice DecodeFault.outOfRange body
      (name.length + version.length + payload.length) body.length = .ok rest :=
    slice_append (name ++ (version ++ payload)) rest [] (by simp [hbody])
      (by simp; omega) (by simp [hlen]; omega)
  have hfits : ¬(body.length < name.length ∨ body.length - name.length < version.length ∨
      body.length - name.length - version.length < payload.length) := by
    omega
  by_cases hbad : name.length = 0 ∨ maxMetadataNamespaceBytes < name.length ∨
      version.length = 0 ∨ maxObservationTokenBytes < version.length ∨
      maxMetadataValueBytes < payload.length
  · refine .inr ⟨?_, ?_⟩
    · simp only [readEntry, hsizes, bind, Except.bind, refuse, if_pos hbad]
    · rintro ⟨hok, -⟩
      obtain ⟨hna, hve, hda⟩ := And.intro hok.name_length (And.intro hok.version hok.data)
      simp only at hna hve hda
      omega
  by_cases hna : name ≤ previous ∨ checkMetadataNamespace name ≠ .ok ()
  · refine .inr ⟨?_, ?_⟩
    · simp only [readEntry, hsizes, bind, Except.bind, refuse, if_neg hbad,
        if_neg hfits, hkey, if_pos hna]
    · rintro ⟨hok, hlater⟩
      exact hna.elim (List.not_le.mpr hlater) (absurd hok.name)
  rw [not_or, List.not_le, not_not] at hna
  refine .inl ⟨?_, ⟨hna.2, ?_, ?_⟩, hna.1⟩
  · simp only [readEntry, hsizes, bind, Except.bind, refuse, if_neg hbad,
      if_neg hfits, hkey, hve, hpayload, hres, pure, Except.pure]
    simp [hna, List.not_le.mpr]
  · constructor <;> simp only <;> omega
  · simp only
    omega

lemma readEntry_encodeEntry (hok : EntryOk e) (hlater : previous < e.1) :
    readEntry previous (encodeEntry e.1 e.2 ++ rest) = .ok (e, rest) := by
  obtain ⟨name, ⟨version, payload⟩⟩ := e
  have hna : name.length ≤ 128 := hok.name_length.2
  have hve : version.length ≤ 64 := hok.version.2
  have hda : payload.length ≤ 32768 := hok.data
  have hsizes : readSizes (encodeEntry name ⟨version, payload⟩ ++ rest) = _ :=
    readSizes_append (length_ofNat 2 name.length)
      (length_ofNat 2 version.length) (length_ofNat 4 payload.length)
      (show _ = _ ++ (_ ++ (_ ++ (name ++ (version ++ (payload ++ rest))))) by simp [encodeEntry])
  rw [value_ofNat (by omega), value_ofNat (by omega), value_ofNat (by omega)]
    at hsizes
  rcases readEntry_of_sizes previous hsizes with ⟨hre, -⟩ | ⟨-, hbad⟩
  · exact hre
  · exact absurd ⟨hok, hlater⟩ hbad

lemma readEntry_cases (previous data : List UInt8) :
    readEntry previous data = .error invalidEnvelope ∨
      ∃ e rest, readEntry previous data = .ok (e, rest) ∧
        data = encodeEntry e.1 e.2 ++ rest ∧ EntryOk e ∧ previous < e.1 := by
  by_cases hshort : data.length < 8
  · left
    simp only [readEntry, readSizes, refuse, if_pos hshort, bind, Except.bind]
  obtain ⟨k, data₁, rfl, hk⟩ := exists_append (show 2 ≤ data.length by omega)
  simp only [List.length_append] at hshort
  obtain ⟨v, data₂, rfl, hv⟩ := exists_append
    (show 2 ≤ data₁.length by omega)
  simp only [List.length_append] at hshort
  obtain ⟨d, body, rfl, hd⟩ := exists_append
    (show 4 ≤ data₂.length by omega)
  have hsizes := readSizes_append hk hv hd (rfl : _ = _ ++ (_ ++ (_ ++ body)))
  by_cases hfits : value k + value v + value d ≤ body.length
  · obtain ⟨name, rest₁, rfl, hna⟩ := exists_append
      (show value k ≤ body.length by omega)
    simp only [List.length_append] at hfits
    obtain ⟨version, rest₂, rfl, hve⟩ := exists_append
      (show value v ≤ rest₁.length by omega)
    simp only [List.length_append] at hfits
    obtain ⟨payload, rest, rfl, hpayload⟩ := exists_append
      (show value d ≤ rest₂.length by omega)
    rw [← hna, ← hve, ← hpayload] at hsizes
    rcases readEntry_of_sizes previous hsizes with
      ⟨hre, hgood⟩ | ⟨hre, -⟩
    · refine .inr ⟨_, rest, hre, ?_, hgood⟩
      have hk' := hk ▸ ofNat_value k
      have hv' := hv ▸ ofNat_value v
      have hd' := hd ▸ ofNat_value d
      simp [encodeEntry, hna, hve, hpayload, hk', hv', hd']
    · exact .inl hre
  left
  have hlong : body.length < value k ∨ body.length - value k < value v ∨
      body.length - value k - value v < value d := by
    omega
  simp only [readEntry, hsizes, bind, Except.bind, refuse, if_pos hlong]
  by_cases hbad : value k = 0 ∨ maxMetadataNamespaceBytes < value k ∨
      value v = 0 ∨ maxObservationTokenBytes < value v ∨
      maxMetadataValueBytes < value d
  · rw [if_pos hbad]
  · rw [if_neg hbad]

/-! ## The loop -/

variable {entries : List MetadataEntry} {values : Metadata}

/-- The names increase from the one before. -/
def Ascending (previous : List UInt8) (entries : List MetadataEntry) : Prop :=
  List.IsChain (· < ·) (previous :: entries.map Prod.fst)

def encodeEntries (entries : List MetadataEntry) : List UInt8 :=
  entries.flatMap fun e => encodeEntry e.1 e.2

def storeEntries (values : Metadata) (entries : List MetadataEntry) : Metadata :=
  entries.foldl (fun values e => values.set e.1 e.2) values

lemma readEntries_encodeEntries (hasc : Ascending previous entries)
    (hok : ∀ e ∈ entries, EntryOk e) (values : Metadata) :
    readEntries entries.length previous (encodeEntries entries ++ rest) values =
      .ok (rest, storeEntries values entries) := by
  induction entries generalizing previous values with
  | nil => rfl
  | cons e entries ih =>
    rw [List.forall_mem_cons] at hok
    obtain ⟨hlater, hasc⟩ := List.isChain_cons_cons.mp hasc
    have hre : readEntry previous (encodeEntry e.1 e.2 ++
        (encodeEntries entries ++ rest)) = .ok (e, encodeEntries entries ++ rest) :=
      readEntry_encodeEntry hok.1 hlater
    rw [encodeEntries, List.flatMap_cons, List.append_assoc]
    simp only [List.length_cons, readEntries]
    rw [← encodeEntries, hre]
    exact ih hasc hok.2 _

lemma readEntries_cases (count : ℕ) (previous data : List UInt8) (values : Metadata) :
    readEntries count previous data values = .error invalidEnvelope ∨ ∃ entries rest,
      readEntries count previous data values = .ok (rest, storeEntries values entries) ∧
      entries.length = count ∧ data = encodeEntries entries ++ rest ∧ Ascending previous entries ∧
      ∀ e ∈ entries, EntryOk e := by
  induction count generalizing previous data values with
  | zero => exact .inr ⟨[], data, rfl, rfl, rfl, List.isChain_singleton _, by simp⟩
  | succ count ih =>
    simp only [readEntries]
    rcases readEntry_cases previous data with
      hre | ⟨e, rest, hre, rfl, hok, hlater⟩
    · rw [hre]
      exact .inl rfl
    rw [hre]
    refine (ih e.1 rest (values.set e.1 e.2)).imp id ?_
    rintro ⟨entries, rest, hres, rfl, rfl, hasc, hall⟩
    refine ⟨e :: entries, rest, hres, rfl, by simp [encodeEntries],
      List.isChain_cons_cons.mpr ⟨hlater, hasc⟩, ?_⟩
    exact List.forall_mem_cons.mpr ⟨hok, hall⟩

/-! ## The entries of a map -/

/-- The entries of a map in the order in which they are written. -/
def entriesOf (values : Metadata) : List MetadataEntry :=
  (sortedNames values).map fun name =>
    (name, (values.get? name).getD ⟨[], []⟩)

lemma mem_sortedNames {name : List UInt8} :
    name ∈ sortedNames values ↔ ∃ value, values.get? name = some value := by
  simp only [sortedNames, List.mem_mergeSort, List.mem_map, Prod.exists,
    exists_and_right, exists_eq_right, Table.mem_toList]

lemma mem_entriesOf : e ∈ entriesOf values ↔ values.get? e.1 = some e.2 := by
  obtain ⟨name, value⟩ := e
  simp only [entriesOf, List.mem_map, mem_sortedNames, Prod.mk.injEq]
  constructor
  · rintro ⟨_, ⟨found, hg⟩, rfl, rfl⟩
    simp [hg]
  · intro hg
    exact ⟨name, ⟨value, hg⟩, rfl, by simp [hg]⟩

lemma sortedNames_pairwise (values : Metadata) : (sortedNames values).Pairwise (· < ·) := by
  have hsorted := @List.pairwise_mergeSort _ (fun a b => decide (a ≤ b))
    (by simpa using fun a b c => List.le_trans) (by simpa using List.le_total)
    (values.toList.map Prod.fst)
  have hnodup : (sortedNames values).Nodup := by
    refine (List.mergeSort_perm _ _).nodup_iff.mpr ?_
    exact List.pairwise_map.mpr (Table.toList_pairwise values)
  refine (List.Pairwise.and hsorted hnodup).imp fun h => ?_
  exact Std.lt_of_le_of_ne (of_decide_eq_true h.1) h.2

lemma Ascending.pairwise (hasc : Ascending previous entries) :
    (entries.map Prod.fst).Pairwise (· < ·) :=
  (List.isChain_iff_pairwise.mp hasc).of_cons

lemma entriesOf_eq (hpairwise : (entries.map Prod.fst).Pairwise (· < ·))
    (hm : ∀ name value, values.get? name = some value ↔ (name, value) ∈ entries) :
    entriesOf values = entries := by
  have hnames : sortedNames values = entries.map Prod.fst := by
    refine (sortedNames_pairwise values).eq_of_mem_iff hpairwise fun name => ?_
    simp [mem_sortedNames, hm]
  rw [entriesOf, hnames, List.map_map]
  refine (List.map_congr_left fun e he => ?_).trans (List.map_id entries)
  simp [(hm e.1 e.2).mpr he]

lemma get?_storeEntries (hpairwise : (entries.map Prod.fst).Pairwise (· < ·))
    (hnew : ∀ e ∈ entries, values.get? e.1 = none) (name : List UInt8) (value : OpaquePayload) :
    (storeEntries values entries).get? name = some value ↔
      (name, value) ∈ entries ∨ values.get? name = some value := by
  induction entries generalizing values with
  | nil => simp [storeEntries]
  | cons e entries ih =>
    rw [List.map_cons, List.pairwise_cons] at hpairwise
    rw [List.forall_mem_cons] at hnew
    have hlater : ∀ other ∈ entries, other.1 ≠ e.1 := fun other hm heq =>
      List.lt_irrefl _ (heq ▸ hpairwise.1 _ (List.mem_map_of_mem hm))
    refine (ih hpairwise.2 fun other hm => ?_).trans ?_
    · rw [Table.get?_set_ne (hlater other hm)]
      exact hnew.2 other hm
    · rw [Table.get?_set, List.mem_cons]
      split
      · next heq =>
        subst heq
        simp [hnew.1, Prod.ext_iff, eq_comm, or_comm]
      · next hne => simp [Prod.ext_iff, hne]

lemma entriesOf_storeEntries (hasc : Ascending [] entries) :
    entriesOf (storeEntries .empty entries) = entries :=
  entriesOf_eq hasc.pairwise fun name value => by simp [get?_storeEntries hasc.pairwise]

/-! ## Sizes -/

lemma foldlM_addEntry {size size' : ℕ} (hsize : size ≤ maxMetadataBytes) :
    entries.foldlM addEntry size = .ok size' ↔ (∀ e ∈ entries, EntryOk e) ∧
      size' = size + (encodeEntries entries).length ∧ size' ≤ maxMetadataBytes := by
  induction entries generalizing size with
  | nil => simp [encodeEntries, pure, Except.pure]; omega
  | cons e entries ih =>
    have hlen : (encodeEntry e.1 e.2).length = entrySize e.1 e.2 := by
      simp [encodeEntry, entrySize]
      omega
    rw [List.foldlM_cons, bind_ok]
    simp only [addEntry_eq_ok_iff, List.forall_mem_cons, encodeEntries,
      List.flatMap_cons, List.length_append, hlen]
    constructor
    · rintro ⟨_, ⟨hok, hfits, rfl⟩, hres⟩
      obtain ⟨hall, rfl, hsmall⟩ := (ih hfits).mp hres
      exact ⟨⟨hok, hall⟩, by simp only [encodeEntries]; omega, hsmall⟩
    · rintro ⟨⟨hok, hall⟩, rfl, hsmall⟩
      have hfits : size + entrySize e.1 e.2 ≤ maxMetadataBytes := by omega
      exact ⟨_, ⟨hok, hfits, rfl⟩, (ih hfits).mpr
        ⟨hall, by simp only [encodeEntries]; omega, hsmall⟩⟩

/-- The entries of a valid map, in order. -/
structure Canonical (entries : List MetadataEntry) : Prop where
  few : entries.length ≤ maxMetadataNamespaces
  ok : ∀ e ∈ entries, EntryOk e
  ascending : Ascending [] entries
  small : 6 + (encodeEntries entries).length ≤ maxMetadataBytes

lemma toList_perm (values : Metadata) : values.toList.Perm (entriesOf values) := by
  refine (List.perm_ext_iff_of_nodup ?_ ?_).mpr fun e => ?_
  · refine (Table.toList_pairwise values).imp ?_
    rintro a b hne rfl
    exact hne rfl
  · refine List.pairwise_map.mpr ((sortedNames_pairwise values).imp ?_)
    intro a b hlt heq
    exact List.lt_irrefl b ((Prod.mk.inj heq).1 ▸ hlt)
  · rw [mem_entriesOf]
    exact Table.mem_toList

lemma ascending_entriesOf (hok : ∀ e ∈ entriesOf values, EntryOk e) :
    Ascending [] (entriesOf values) := by
  have hnames : (entriesOf values).map Prod.fst = sortedNames values := by
    simp [entriesOf, Function.comp_def]
  refine List.isChain_iff_pairwise.mpr (List.pairwise_cons.mpr ⟨?_, ?_⟩)
  · intro name hna
    obtain ⟨e, he, rfl⟩ := List.mem_map.mp hna
    have hlen := (hok e he).name_length.1
    cases hcase : e.1 with
    | nil => simp [hcase] at hlen
    | cons byte rest => exact List.nil_lt_cons byte rest
  · rw [hnames]
    exact sortedNames_pairwise values

lemma metadataSize_eq_ok_iff {size : ℕ} :
    metadataSize values = .ok size ↔ Canonical (entriesOf values) ∧
      size = 6 + (encodeEntries (entriesOf values)).length := by
  have hperm := toList_perm values
  have hsize : values.size = (entriesOf values).length :=
    (List.length_map ..).symm.trans hperm.length_eq
  have hlen : (encodeEntries values.toList).length = (encodeEntries (entriesOf values)).length :=
    (hperm.flatMap_right _).length_eq
  rw [metadataSize, check_bind_ok, refuse_ok, foldlM_addEntry (by decide), hlen, hsize]
  constructor
  · rintro ⟨hfew, hok, rfl, hsmall⟩
    have hok' : ∀ e ∈ entriesOf values, EntryOk e := fun e he => hok e (hperm.mem_iff.mpr he)
    exact ⟨⟨not_lt.mp hfew, hok', ascending_entriesOf hok', hsmall⟩, rfl⟩
  · rintro ⟨hca, rfl⟩
    exact ⟨not_lt.mpr hca.few, fun e he => hca.ok e (hperm.mem_iff.mp he), rfl, hca.small⟩

/-! ## The envelope -/

def envelope (entries : List MetadataEntry) : List UInt8 :=
  envelopeMark ++ (ofNat 2 entries.length ++ encodeEntries entries)

lemma encodeMetadata_eq_ok_iff : encodeMetadata values = .ok data ↔ Canonical (entriesOf values) ∧
      data = envelope (entriesOf values) := by
  have hsize : values.size = (entriesOf values).length :=
    (List.length_map ..).symm.trans (toList_perm values).length_eq
  have hentries : ((sortedNames values).flatMap fun name =>
      encodeEntry name ((values.get? name).getD ⟨[], []⟩)) = encodeEntries (entriesOf values) := by
    rw [encodeEntries, entriesOf, List.flatMap_map]
  simp only [encodeMetadata, bind_ok, metadataSize_eq_ok_iff, hsize,
    hentries, pure, Except.pure, Except.ok.injEq]
  constructor
  · rintro ⟨_, ⟨hca, -⟩, rfl⟩
    exact ⟨hca, rfl⟩
  · rintro ⟨hca, rfl⟩
    exact ⟨_, ⟨hca, rfl⟩, rfl⟩

lemma decodeBody_encodeEntries (hca : Canonical entries) :
    decodeBody entries.length (encodeEntries entries) = .ok (storeEntries .empty entries) := by
  have hcheck : checkMetadata (storeEntries .empty entries) = .ok () := by
    rw [checkMetadata, metadataSize_eq_ok_iff.mpr
      ⟨(entriesOf_storeEntries hca.ascending).symm ▸ hca, rfl⟩]
    rfl
  have hre : readEntries entries.length [] (encodeEntries entries ++ []) .empty
      = _ := readEntries_encodeEntries hca.ascending hca.ok .empty
  rw [List.append_nil] at hre
  cases entries with
  | nil => rfl
  | cons e entries =>
    rw [decodeBody, if_neg (by simp), hre]
    simp [hcheck, bind, Except.bind, refuse, pure, Except.pure]

lemma decodeBody_cases (count : ℕ) (data : List UInt8) :
    decodeBody count data = .error invalidEnvelope ∨ ∃ entries, entries.length = count ∧
      data = encodeEntries entries ∧ Ascending [] entries ∧ ∀ e ∈ entries, EntryOk e := by
  unfold decodeBody
  split
  · next hzero =>
    by_cases hda : data = []
    · exact .inr ⟨[], hzero.symm, hda, List.isChain_singleton _, by simp⟩
    · exact .inl (by simp [refuse, hda, bind, Except.bind])
  rcases readEntries_cases count [] data .empty with
    hre | ⟨entries, rest, hre, hcount, rfl, hasc, hok⟩
  · exact .inl (by simp [hre, bind, Except.bind])
  by_cases hres : rest = []
  · subst hres
    exact .inr ⟨entries, hcount, List.append_nil _, hasc, hok⟩
  · exact .inl (by simp [hre, hres, refuse, bind, Except.bind])

/-- What decoding does once the head of the envelope is cut off. -/
lemma decodeMetadata_append {mark n body : List UInt8}
    (hmark : mark.length = 4) (hn : n.length = 2)
    (hda : data = mark ++ (n ++ body)) (hsmall : data.length ≤ maxMetadataBytes) :
    decodeMetadata data = (do
      refuse (mark ≠ envelopeMark) invalidEnvelope
      refuse (maxMetadataNamespaces < value n) invalidEnvelope
      decodeBody (value n) body) := by
  have hlen : data.length = 6 + body.length := by
    simp only [hda, List.length_append]
    omega
  have hfirst : slice DecodeFault.outOfRange data 0 4 = .ok mark :=
    slice_append [] mark _ hda rfl (by simp [hmark])
  have hcount : slice DecodeFault.outOfRange data 4 6 = .ok n :=
    slice_append mark n _ hda hmark (by omega)
  have hres : slice DecodeFault.outOfRange data 6 data.length = .ok body :=
    slice_append (mark ++ n) body [] (by simp [hda]) (by simp [hmark, hn])
      (by simp [hmark, hn, hlen])
  have hbounds : ¬(data.length < 6 ∨ maxMetadataBytes < data.length) := by omega
  simp only [decodeMetadata, hfirst, hcount, hres, refuse, if_neg hbounds]
  rfl

lemma length_envelope (entries : List MetadataEntry) :
    (envelope entries).length = 6 + (encodeEntries entries).length := by
  simp [envelope, envelopeMark]
  omega

lemma decodeMetadata_envelope (hca : Canonical entries) :
    decodeMetadata (envelope entries) = .ok (storeEntries .empty entries) := by
  have hfew : entries.length ≤ 16 := hca.few
  have hcount : value (ofNat 2 entries.length) = entries.length := value_ofNat (by omega)
  have hsmall := (length_envelope entries).trans_le hca.small
  rw [envelope] at hsmall ⊢
  rw [decodeMetadata_append rfl (length_ofNat ..) rfl hsmall, hcount,
    decodeBody_encodeEntries hca]
  simp [refuse, not_lt.mpr hca.few, bind, Except.bind]

lemma decodeMetadata_cases (data : List UInt8) : decodeMetadata data = .error invalidEnvelope ∨
      ∃ entries, Canonical entries ∧ data = envelope entries := by
  by_cases hbounds : data.length < 6 ∨ maxMetadataBytes < data.length
  · exact .inl (by simp [decodeMetadata, refuse, hbounds, bind, Except.bind])
  rw [not_or, not_lt, not_lt] at hbounds
  obtain ⟨mark, rest, rfl, hmark⟩ := exists_append
    (show 4 ≤ data.length by omega)
  simp only [List.length_append] at hbounds
  obtain ⟨n, body, rfl, hn⟩ := exists_append (show 2 ≤ rest.length by omega)
  rw [decodeMetadata_append hmark hn rfl (by simpa using hbounds.2)]
  by_cases hfirst : mark = envelopeMark
  swap
  · exact .inl (by simp [refuse, hfirst, bind, Except.bind])
  by_cases hfew : maxMetadataNamespaces < value n
  · exact .inl (by simp [refuse, hfirst, hfew, bind, Except.bind])
  rcases decodeBody_cases (value n) body with
    hre | ⟨entries, hcount, rfl, hasc, hok⟩
  · exact .inl (by simp [refuse, hfirst, hfew, hre, bind, Except.bind])
  have hn' := hn ▸ ofNat_value n
  refine .inr ⟨entries, ⟨by omega, hok, hasc, ?_⟩, ?_⟩
  · simp only [List.length_append] at hbounds
    omega
  · rw [envelope, hcount, hn', hfirst]

/-- Every valid map comes back from its encoding, whose length `metadataSize`
predicts; exactly the encodings are accepted; two accepted strings of one map are
the same; and no slice leaves its bounds. -/
theorem metadata_codec_canonical : (∀ values size, metadataSize values = .ok size →
      ∃ data decoded, encodeMetadata values = .ok data ∧ data.length = size ∧
        decodeMetadata data = .ok decoded ∧
        ∀ name, decoded.get? name = values.get? name) ∧
    (∀ data, (∃ values, decodeMetadata data = .ok values) ↔
      ∃ values, encodeMetadata values = .ok data) ∧
    (∀ data data' values values', decodeMetadata data = .ok values →
      decodeMetadata data' = .ok values' →
      (∀ name, values.get? name = values'.get? name) → data = data') ∧
    ∀ data, decodeMetadata data ≠ .error .outOfRange := by
  refine ⟨?_, ?_, ?_, ?_⟩
  · intro values size hsize
    obtain ⟨hcan, rfl⟩ := metadataSize_eq_ok_iff.mp hsize
    refine ⟨_, _, encodeMetadata_eq_ok_iff.mpr ⟨hcan, rfl⟩, ?_,
      decodeMetadata_envelope hcan, fun name => ?_⟩
    · exact length_envelope _
    · apply Option.ext
      intro value
      simp [get?_storeEntries hcan.ascending.pairwise, mem_entriesOf]
  · intro data
    constructor
    · rintro ⟨values, hdecode⟩
      rcases decodeMetadata_cases data with hbad | ⟨entries, hcan, rfl⟩
      · cases hbad.symm.trans hdecode
      · refine ⟨storeEntries .empty entries, encodeMetadata_eq_ok_iff.mpr ?_⟩
        rw [entriesOf_storeEntries hcan.ascending]
        exact ⟨hcan, rfl⟩
    · rintro ⟨values, hencode⟩
      obtain ⟨hcan, rfl⟩ := encodeMetadata_eq_ok_iff.mp hencode
      exact ⟨_, decodeMetadata_envelope hcan⟩
  · intro data data' values values' hdecode hdecode' hsame
    rcases decodeMetadata_cases data with hbad | ⟨entries, hcan, rfl⟩
    · cases hbad.symm.trans hdecode
    rcases decodeMetadata_cases data' with hbad | ⟨entries', hcanonical', rfl⟩
    · cases hbad.symm.trans hdecode'
    obtain rfl := Except.ok.inj
      ((decodeMetadata_envelope hcan).symm.trans hdecode)
    obtain rfl := Except.ok.inj
      ((decodeMetadata_envelope hcanonical').symm.trans hdecode')
    have hentries := entriesOf_eq hcanonical'.ascending.pairwise
      fun name value => by
        rw [hsame name]
        simp [get?_storeEntries hcanonical'.ascending.pairwise]
    rw [entriesOf_storeEntries hcan.ascending] at hentries
    rw [hentries]
  · intro data hbad
    rcases decodeMetadata_cases data with hinvalid | ⟨entries, hcan, rfl⟩
    · cases hinvalid.symm.trans hbad
    · cases (decodeMetadata_envelope hcan).symm.trans hbad

end RemoteFs.Storage
