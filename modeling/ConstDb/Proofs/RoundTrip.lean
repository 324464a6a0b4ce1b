import ConstDb.Database.Values
import ConstDb.Proofs.Lookup

/-!
# Looking up what was built

A database that was built is read back: a lookup meets the records of its key in the order in which
they were added (`Holds.inOrder` along the probe), and every other record of the bucket is passed. It
needs no more of the file than `Image.Intact` says (`Image.Fits.recalls_of_intact`). Main statement:
`recalls_of_run`.
-/

namespace ConstDb

open Lookup

/-- A source in state `s` holds `bytes`, mapped or not, and reading does not change it. -/
structure Keeps {σ : Type} (db : Database σ) (bytes : ByteArray) (s : σ) : Prop where
  serves : Serves db bytes (· = s) fun s _ => s
  mapping : db.mapped s = none ∨ db.mapped s = some bytes

theorem keeps_ofBytes {σ : Type} (bytes : ByteArray) (s : σ) :
    Keeps (Source.ofBytes bytes) bytes s := by
  refine ⟨⟨rfl, ?_, fun h _ => h⟩, .inr rfl⟩
  intro t _ position length inside
  have read : Source.readBytes bytes position length =
      .ok (bytes.extract position (position + length)) := if_pos inside
  simp only [Source.ofBytes, read]
  rfl

theorem keeps_positioned {σ : Type} (bytes : ByteArray) (s : σ) :
    Keeps (Source.positioned bytes) bytes s := by
  refine ⟨⟨rfl, ?_, fun h _ => h⟩, .inl rfl⟩
  intro t _ position length inside
  have read : Source.readBytes bytes position length =
      .ok (bytes.extract position (position + length)) := if_pos inside
  simp only [Source.positioned, read]
  rfl

theorem foldl_keep {σ : Type} (s : σ) (ranges : List Range) : ranges.foldl (fun s _ => s) s = s := by
  induction ranges with
  | nil => rfl
  | cons range ranges ih => exact ih

/-! ## Records in place -/

structure RecordAt (bytes : ByteArray) (position : Nat) (record : Record) : Prop where
  stands : Bytes.StandsAt bytes position record.encode
  le : position + record.storedSize ≤ Position.limit

def dataOf (position : Nat) (record : Record) : DataRef :=
  ⟨position + recordHeaderSize + record.key.size, record.data.size⟩

namespace RecordAt

variable {bytes : ByteArray} {position : Nat} {record : Record}

theorem parts (at_position : RecordAt bytes position record) :
    Bytes.StandsAt bytes position record.header ∧
      Bytes.StandsAt bytes (position + recordHeaderSize) record.key ∧
      Bytes.StandsAt bytes (position + recordHeaderSize + record.key.size) record.data := by
  have header : record.header.size = recordHeaderSize := Pair.size_encode ..
  have front : Bytes.StandsAt record.encode 0 (record.header ++ record.key) :=
    (Bytes.standsAt_self _).append_right record.data
  have data : Bytes.StandsAt record.encode (recordHeaderSize + record.key.size) record.data := by
    have := (Bytes.standsAt_self record.data).append_left (record.header ++ record.key)
    rwa [ByteArray.size_append, header, Nat.add_zero] at this
  have key : Bytes.StandsAt (record.header ++ record.key) recordHeaderSize record.key := by
    have := (Bytes.standsAt_self record.key).append_left record.header
    rwa [header, Nat.add_zero] at this
  have start : Bytes.StandsAt (record.header ++ record.key) 0 record.header :=
    (Bytes.standsAt_self _).append_right record.key
  have outer := at_position.stands.trans front
  rw [Nat.add_zero] at outer
  refine ⟨?_, outer.trans key, ?_⟩
  · have := outer.trans start
    rwa [Nat.add_zero] at this
  · have := at_position.stands.trans data
    rwa [← Nat.add_assoc] at this

theorem lengths (at_position : RecordAt bytes position record) :
    (Pair.decode (Bytes.pairAt bytes position)).1.toNat = record.key.size ∧
      (Pair.decode (Bytes.pairAt bytes position)).2.toNat = record.data.size := by
  have le := at_position.le
  unfold Record.storedSize at le
  rw [at_position.parts.1.pairAt (Pair.size_encode ..), Record.header, Pair.decode_encode]
  exact ⟨Image.toNat_toUInt32 (by omega), Image.toNat_toUInt32 (by omega)⟩

theorem key_eq_iff (at_position : RecordAt bytes position record) {key : ByteArray}
    (size : record.key.size = key.size) :
    Bytes.StandsAt bytes (position + recordHeaderSize) key ↔ record.key = key := by
  have own := at_position.parts.2.1
  constructor
  · intro stands
    have eq := own.2
    rw [size, stands.2] at eq
    exact eq.symm
  · rintro rfl
    exact own

end RecordAt

section reading
variable {σ : Type} {db : Database σ} {bytes key : ByteArray} {s : σ} {position : Nat} {record : Record}

theorem Keeps.readAt_eq (keeps : Keeps db bytes s) {piece : ByteArray}
    (stands : Bytes.StandsAt bytes position piece) :
    db.readAt position piece.size s = .ok piece s := by
  rw [keeps.serves.readAt_inside rfl stands.1, stands.2]

theorem Keeps.matchRecord_eq (keeps : Keeps db bytes s) (at_position : RecordAt bytes position record) :
    db.matchRecord key position s =
      .ok (if record.key = key then some (dataOf position record) else none) s := by
  have header := keeps.readAt_eq at_position.parts.1
  have size : record.header.size = Pair.size := Pair.size_encode ..
  have lengths := at_position.lengths
  rw [at_position.parts.1.pairAt size] at lengths
  rw [size] at header
  rw [Database.matchRecord_apply, header]
  dsimp only
  rw [lengths.1, lengths.2]
  by_cases other : record.key.size ≠ key.size
  · rw [if_pos other, if_neg fun same => other (congrArg ByteArray.size same)]
  have same := Decidable.not_not.1 other
  have inside : position + recordHeaderSize + key.size ≤ bytes.size := by
    rw [← same]
    exact at_position.parts.2.1.1
  obtain ⟨ranges, eq⟩ := keyMatches_inside keeps.serves (fun t h => h ▸ keeps.mapping) inside rfl
  rw [if_neg other, eq, foldl_keep, decide_eq_decide.2 (at_position.key_eq_iff same)]
  by_cases own : record.key = key
  · have le := at_position.le
    unfold Record.storedSize at le
    rw [decide_eq_true own, if_pos own]
    dsimp only
    rw [if_pos (by omega), dataOf, same]
  · rw [decide_eq_false own, if_neg own]

end reading

/-! ## Verdicts on entries -/

/-- What a lookup finds through an entry: the data of its record, if the key is the right one. -/
def matchOf (bytes key : ByteArray) (entry : Slot) : Option DataRef :=
  if (Pair.decode (Bytes.pairAt bytes entry.position.toNat)).1.toNat = key.size ∧
      Bytes.StandsAt bytes (entry.position.toNat + recordHeaderSize) key then
    some ⟨entry.position.toNat + recordHeaderSize + key.size,
      (Pair.decode (Bytes.pairAt bytes entry.position.toNat)).2.toNat⟩
  else none

def verdictOf (bytes key : ByteArray) (slot : Slot) : Verdict :=
  if slot.isEmpty then .vacant
  else
    match matchOf bytes key slot with
    | some data => .matched data
    | none => .passed

structure EntryOf (bytes : ByteArray) (entry : Slot) (record : Record) : Prop where
  hash_eq : entry.hash = Hash.ofKey record.key
  at_position : RecordAt bytes entry.position.toNat record

/-- What successive calls answer that hand out some data and then nothing any more. -/
def handedOut (refs : List DataRef) (calls : Nat) : List (Except DbError (Option DataRef)) :=
  List.take calls (refs.map (fun ref => .ok (some ref)) ++ List.replicate calls (.ok none))

theorem handedOut_nil (calls : Nat) : handedOut [] calls = List.replicate calls (.ok none) := by
  simp [handedOut]

theorem handedOut_cons (ref : DataRef) (refs : List DataRef) (calls : Nat) :
    handedOut (ref :: refs) (calls + 1) = .ok (some ref) :: handedOut refs calls := by
  unfold handedOut
  rw [List.map_cons, List.cons_append, List.take_succ_cons, List.replicate_succ', ← List.append_assoc,
    List.take_append_of_le_length (by simp)]

section entries
variable {σ : Type} {db : Database σ} {bytes whole key : ByteArray} {s : σ} {entry : Slot}
variable {record : Record}

theorem EntryOf.matchOf_eq (entryOf : EntryOf bytes entry record) : matchOf bytes key entry =
    if record.key = key then some (dataOf entry.position.toNat record) else none := by
  have lengths := entryOf.at_position.lengths
  unfold matchOf
  rw [lengths.1, lengths.2]
  by_cases size : record.key.size = key.size
  · by_cases own : record.key = key
    · rw [if_pos own, if_pos ⟨size, (entryOf.at_position.key_eq_iff size).2 own⟩, dataOf, size]
    · rw [if_neg own, if_neg fun h => own ((entryOf.at_position.key_eq_iff size).1 h.2)]
  · rw [if_neg fun h => size h.1, if_neg fun own => size (congrArg ByteArray.size own)]

theorem EntryOf.hash_of_matchOf (entryOf : EntryOf bytes entry record)
    (matched : matchOf bytes key entry ≠ none) : entry.hash = Hash.ofKey key := by
  rw [entryOf.matchOf_eq] at matched
  by_cases own : record.key = key
  · rw [entryOf.hash_eq, own]
  · exact absurd (if_neg own) matched

/-- A slot is judged as in the `whole` file if its record stands where it stands there. The record
need not be there when its hash is not the key's. -/
theorem Keeps.examine_eq (keeps : Keeps db bytes s) (whole : ByteArray) {position : Nat} {slot : Slot}
    (stands : Bytes.StandsAt bytes position slot.encode)
    (named : slot.isEmpty = false → ∃ record, EntryOf whole slot record ∧
      (Hash.ofKey record.key = Hash.ofKey key → RecordAt bytes slot.position.toNat record)) :
    db.examine key (Hash.ofKey key) position s = .ok (verdictOf whole key slot) s := by
  have read := keeps.readAt_eq stands
  rw [Slot.size_encode] at read
  rw [Database.examine, Effect.bind_apply, read]
  dsimp only
  rw [Slot.decode_encode, verdictOf]
  cases empty : slot.isEmpty with
  | true => rfl
  | false =>
    obtain ⟨record, entryOf, at_position⟩ := named empty
    rw [if_neg Bool.false_ne_true, if_neg Bool.false_ne_true, entryOf.matchOf_eq]
    by_cases other : slot.hash ≠ Hash.ofKey key
    · have unlike : record.key ≠ key := fun own => other (by rw [entryOf.hash_eq, own])
      rw [if_pos other, if_neg unlike]
      rfl
    · have own_hash := entryOf.hash_eq.symm.trans (Decidable.not_not.1 other)
      rw [if_neg other, Effect.bind_apply, keeps.matchRecord_eq (at_position own_hash)]
      by_cases own : record.key = key
      · rw [if_pos own]
        rfl
      · rw [if_neg own]
        rfl

theorem answers_verdictOf (slots : List Slot) : ∀ calls,
    answers (slots.map (verdictOf bytes key)) calls =
      handedOut ((slots.takeWhile (!·.isEmpty)).filterMap (matchOf bytes key)) calls := by
  induction slots with
  | nil =>
    intro calls
    rw [List.map_nil, answers_nil, List.takeWhile_nil, List.filterMap_nil, handedOut_nil]
  | cons slot slots ih =>
    intro calls
    rw [List.map_cons]
    cases empty : slot.isEmpty with
    | true =>
      have stop : (slot :: slots).takeWhile (!·.isEmpty) = [] := by simp [empty]
      have verdict : verdictOf bytes key slot = .vacant := by rw [verdictOf, if_pos empty]
      rw [stop, List.filterMap_nil, handedOut_nil, verdict]
      cases calls <;> rfl
    | false =>
      have goOn : (slot :: slots).takeWhile (!·.isEmpty) =
          slot :: slots.takeWhile (!·.isEmpty) := by simp [empty]
      rw [goOn]
      cases matched : matchOf bytes key slot with
      | none =>
        have verdict : verdictOf bytes key slot = .passed := by simp [verdictOf, empty, matched]
        rw [verdict, answers, ih, List.filterMap_cons_none matched]
      | some data =>
        have verdict : verdictOf bytes key slot = .matched data := by simp [verdictOf, empty, matched]
        rw [verdict, List.filterMap_cons_some matched]
        cases calls with
        | zero => rfl
        | succ calls => rw [answers, ih, handedOut_cons]

end entries

/-! ## Lookups in an image -/

namespace Image

variable {records : List Record}

/-- The bytes hold what a lookup of a key needs of the image: the header entry and the table of the
key's bucket, and the records with its hash. -/
structure Intact (records : List Record) (key bytes : ByteArray) : Prop where
  entry : Bytes.StandsAt bytes (TableRef.position (Hash.ofKey key).bucket)
    (headerEntry records (Hash.ofKey key).bucket).encode
  slot : ∀ {index slot}, (table records (Hash.ofKey key).bucket)[index]? = some slot →
    Bytes.StandsAt bytes (tableStart records (Hash.ofKey key).bucket.val + Pair.size * index)
      slot.encode
  record : ∀ {place record}, records[place]? = some record →
    Hash.ofKey record.key = Hash.ofKey key →
    Bytes.StandsAt bytes (recordStart records place) record.encode

theorem intact_append (records : List Record) (key rest : ByteArray) :
    Intact records key (ofRecords records ++ rest) :=
  ⟨(standsAt_headerEntry records _).append_right rest,
    fun at_index => (standsAt_slot at_index).append_right rest,
    fun at_place _ => (standsAt_record at_place).append_right rest⟩

theorem standsAt_recordBytes (records : List Record) :
    Bytes.StandsAt (ofRecords records) headerSize (recordBytes records) :=
  standsAt_body ((Bytes.standsAt_self _).append_right _)

theorem Fits.recordAt (fits : Fits records) {place : Nat} {record : Record}
    (at_place : records[place]? = some record) {bytes : ByteArray}
    (stands : Bytes.StandsAt bytes (recordStart records place) record.encode) :
    RecordAt bytes (recordStart records place) record := by
  have le := Nat.le_trans (standsAt_record at_place).1 ((fits_iff records).1 fits)
  rw [Record.size_encode] at le
  exact ⟨stands, le⟩

theorem Fits.exists_entryOf (fits : Fits records) {entry : Slot} (member : entry ∈ entries records) :
    ∃ place record, records[place]? = some record ∧
      entry.position.toNat = recordStart records place ∧
      EntryOf (ofRecords records) entry record := by
  obtain ⟨place, record, at_place, hash, position⟩ := fits.mem_entries member
  refine ⟨place, record, at_place, position, hash, ?_⟩
  rw [position]
  exact fits.recordAt at_place (standsAt_record at_place)

/-- The data that lookups of a key hand out, in the order in which the records were added. -/
def refs (records : List Record) (bytes key : ByteArray) : List DataRef :=
  (entries records).filterMap (matchOf bytes key)

theorem filterMap_filter_of_imp {α β : Type} {f : α → Option β} {p : α → Bool} {l : List α}
    (imp : ∀ a ∈ l, f a ≠ none → p a = true) : (l.filter p).filterMap f = l.filterMap f := by
  rw [List.filterMap_filter]
  refine List.filterMap_congr fun a member => ?_
  by_cases keep : p a = true
  · rw [if_pos keep]
  · rw [if_neg keep]
    exact Classical.byContradiction fun some => keep (imp a member (Ne.symm some))

theorem Fits.filterMap_met (fits : Fits records) (key : ByteArray) :
    (SlotTable.met (table records (Hash.ofKey key).bucket) (Hash.ofKey key)).filterMap
        (matchOf (ofRecords records) key) =
      refs records (ofRecords records) key := by
  have holds := fits.holds_table (Hash.ofKey key).bucket
  have hash_of : ∀ entry ∈ entries records, matchOf (ofRecords records) key entry ≠ none →
      entry.hash = Hash.ofKey key := by
    intro entry member matched
    obtain ⟨_, record, -, -, entryOf⟩ := fits.exists_entryOf member
    exact entryOf.hash_of_matchOf matched
  have member_of : ∀ entry ∈ bucketEntries records (Hash.ofKey key).bucket, entry ∈ entries records :=
    fun entry member => (List.mem_filter.1 member).1
  have met_in : ∀ entry ∈ SlotTable.met (table records (Hash.ofKey key).bucket) (Hash.ofKey key),
      entry ∈ bucketEntries records (Hash.ofKey key).bucket := by
    intro entry member
    refine holds.mem_iff.2 ⟨?_, by simpa using List.mem_takeWhile_imp member⟩
    obtain ⟨steps, lt, rfl⟩ := List.mem_iff_getElem.1 ((List.takeWhile_prefix _).subset member)
    rw [SlotTable.length_lap] at lt
    rw [SlotTable.getElem_lap,
      SlotTable.slotAt_eq_getElem (SlotTable.probeIndex_lt _ (by omega) steps)]
    exact Array.getElem_mem _
  -- tables keep entries of one hash in order, and only these can match
  have own : ∀ entry ∈ SlotTable.met (table records (Hash.ofKey key).bucket) (Hash.ofKey key),
      matchOf (ofRecords records) key entry ≠ none →
        decide (entry.hash = Hash.ofKey key) = true :=
    fun entry member some => decide_eq_true (hash_of entry (member_of entry (met_in entry member)) some)
  have own' : ∀ entry ∈ bucketEntries records (Hash.ofKey key).bucket,
      matchOf (ofRecords records) key entry ≠ none →
        decide (entry.hash = Hash.ofKey key) = true :=
    fun entry member some => decide_eq_true (hash_of entry (member_of entry member) some)
  rw [← filterMap_filter_of_imp own, holds.inOrder, filterMap_filter_of_imp own', refs]
  refine filterMap_filter_of_imp fun entry member some => decide_eq_true ?_
  rw [hash_of entry member some]

theorem Fits.refs_increasing (fits : Fits records) (bytes key : ByteArray) :
    (refs records bytes key).Pairwise fun a b => a.position < b.position := by
  refine List.Pairwise.filterMap _ (fun a b lt c matched d matched' => ?_) fits.entries_increasing
  unfold matchOf at matched matched'
  split at matched
  · split at matched'
    · cases matched
      cases matched'
      dsimp only
      omega
    · cases matched'
  · cases matched

theorem readAt_entriesFrom {σ : Type} {db : Database σ} {s : σ} {bytes whole : ByteArray}
    (key : ByteArray) (keeps : Keeps db bytes s) : ∀ (records : List Record) {position : Nat},
    Bytes.StandsAt whole position (recordBytes records) →
    position + recordsSize records ≤ Position.limit →
    (∀ {place record}, records[place]? = some record → record.key = key →
      Bytes.StandsAt bytes (position + recordsSize (records.take place)) record.encode) →
    ((entriesFrom position records).filterMap (matchOf whole key)).map
        (fun ref => db.readAt ref.position ref.length s) =
      (records.filter (·.key = key)).map fun record => .ok record.data s
  | [], _, _, _, _ => rfl
  | record :: records, position, stands, le, own_stands => by
    have size := recordsSize_cons record records
    rw [recordBytes_cons] at stands
    obtain ⟨first, stands⟩ := stands.of_append
    rw [Record.size_encode] at stands
    have ih := readAt_entriesFrom key keeps records stands (by omega) fun {place other} at_place own => by
      have at_later : (record :: records)[place + 1]? = some other := at_place
      have later := own_stands at_later own
      have taken : recordsSize ((record :: records).take (place + 1)) =
          record.storedSize + recordsSize (records.take place) := rfl
      rwa [taken, ← Nat.add_assoc] at later
    have stored : position.toUInt32.toNat = position := toNat_toUInt32 (by omega)
    have entryOf : EntryOf whole ⟨Hash.ofKey record.key, position.toUInt32⟩ record :=
      ⟨rfl, by rw [stored]; exact ⟨first, by omega⟩⟩
    have matched : matchOf whole key ⟨Hash.ofKey record.key, position.toUInt32⟩ =
        if record.key = key then some (dataOf position record) else none := by
      rw [entryOf.matchOf_eq, stored]
    -- `whole` says which entries match; only the records of the key have to stand in `bytes`
    rw [entriesFrom]
    by_cases own : record.key = key
    · rw [if_pos own] at matched
      have at_front : (record :: records)[0]? = some record := rfl
      have at_position : RecordAt bytes position record := ⟨own_stands at_front own, by omega⟩
      have data := keeps.readAt_eq at_position.parts.2.2
      have kept : (record :: records).filter (·.key = key) = record :: records.filter (·.key = key) := by
        simp [own]
      rw [List.filterMap_cons_some matched, List.map_cons, ih, kept, List.map_cons, dataOf, data]
    · rw [if_neg own] at matched
      have dropped : (record :: records).filter (·.key = key) = records.filter (·.key = key) := by
        simp [own]
      rw [List.filterMap_cons_none matched, ih, dropped]

section intact
variable {σ : Type} {db : Database σ} {s : σ} {bytes key : ByteArray}

theorem Fits.readAt_refs (fits : Fits records) (intact : Intact records key bytes)
    (keeps : Keeps db bytes s) :
    (refs records (ofRecords records) key).map (fun ref => db.readAt ref.position ref.length s) =
      (records.filter (·.key = key)).map fun record => .ok record.data s := by
  have le : headerSize + recordsSize records ≤ Position.limit := by
    unfold Fits at fits
    omega
  exact readAt_entriesFrom key keeps records (standsAt_recordBytes records) le
    fun at_place own => intact.record at_place (congrArg Hash.ofKey own)

end intact

theorem Fits.length_refs (fits : Fits records) (bytes key : ByteArray) :
    (refs records bytes key).length ≤ Position.limit := by
  have le := List.length_filterMap_le (matchOf bytes key) (entries records)
  rw [length_entries] at le
  unfold Fits at fits
  unfold refs
  simp only [Pair.size] at fits
  omega

theorem headerEntry_append (records : List Record) (rest : ByteArray) (bucket : Bucket) :
    Bytes.headerEntry (ofRecords records ++ rest) bucket = headerEntry records bucket := by
  have stands := (standsAt_headerEntry records bucket).append_right rest
  rw [Bytes.headerEntry, stands.pairAt (TableRef.size_encode _), TableRef.decode_encode]

def foundSlots (records : List Record) (bytes key : ByteArray) : List Found :=
  (SlotTable.lap (table records (Hash.ofKey key).bucket) (Hash.ofKey key)).map fun slot =>
    (verdictOf bytes key slot, [])

theorem verdicts_foundSlots (records : List Record) (bytes key : ByteArray) :
    verdicts (foundSlots records bytes key) =
      (SlotTable.lap (table records (Hash.ofKey key).bucket) (Hash.ofKey key)).map
        (verdictOf bytes key) := by
  unfold verdicts foundSlots
  rw [List.map_map]
  rfl

theorem Fits.finds (fits : Fits records) {σ : Type} {db : Database σ} {s : σ} {bytes key : ByteArray}
    (intact : Intact records key bytes) (keeps : Keeps db bytes s) :
    Finds db key (headerEntry records (Hash.ofKey key).bucket) (· = s) (fun s _ => s)
      (foundSlots records (ofRecords records) key) 0 := by
  rintro index ⟨verdict, read⟩ at_index t rfl
  rw [foundSlots, List.getElem?_map] at at_index
  obtain ⟨slot, at_lap, eq⟩ := Option.map_eq_some_iff.1 at_index
  obtain ⟨rfl, rfl⟩ := Prod.mk.inj eq
  obtain ⟨lt, rfl⟩ := List.getElem?_eq_some_iff.1 at_lap
  rw [SlotTable.length_lap] at lt
  have inside := SlotTable.probeIndex_lt (Hash.ofKey key) (Nat.zero_lt_of_lt lt) index
  have at_table := Array.getElem?_eq_getElem inside
  rw [SlotTable.getElem_lap, SlotTable.slotAt_eq_getElem inside, Nat.zero_add, fits.slots_eq,
    fits.slotPosition_eq]
  refine (keeps.examine_eq (ofRecords records) (intact.slot at_table) fun filled => ?_).trans ?_
  · have member := (fits.holds_table _).mem_iff.2 ⟨Array.getElem_mem inside, filled⟩
    obtain ⟨place, record, at_place, position, entryOf⟩ :=
      fits.exists_entryOf (List.mem_filter.1 member).1
    refine ⟨record, entryOf, fun own => ?_⟩
    rw [position]
    exact fits.recordAt at_place (intact.record at_place own)
  · unfold verdictOf
    split
    · rfl
    · split <;> rfl

theorem unfailed_handedOut (refs : List DataRef) (calls : Nat) : Unfailed (handedOut refs calls) := by
  intro result member
  rcases List.mem_append.1 (List.mem_of_mem_take member) with some | ended
  · obtain ⟨ref, -, rfl⟩ := List.mem_map.1 some
    exact ⟨_, rfl⟩
  · exact ⟨none, List.eq_of_mem_replicate ended⟩

theorem Fits.findNexts_eq (fits : Fits records) {σ : Type} {db : Database σ} {s : σ}
    {bytes key : ByteArray} (intact : Intact records key bytes) (keeps : Keeps db bytes s)
    (calls : Nat) :
    (db.findNexts key calls (.fresh, s)).1 = handedOut (refs records (ofRecords records) key) calls ∧
      (db.findNexts key calls (.fresh, s)).2.2 = s := by
  have inside := intact.entry.1
  rw [TableRef.size_encode] at inside
  have entry : ∀ t, t = s → db.table (Hash.ofKey key).bucket t =
      .ok (headerEntry records (Hash.ofKey key).bucket) t := by
    rintro t rfl
    rw [table_eq keeps.serves inside rfl, Bytes.headerEntry,
      intact.entry.pairAt (TableRef.size_encode _), TableRef.decode_encode]
  have all : (foundSlots records (ofRecords records) key).length =
      (headerEntry records (Hash.ofKey key).bucket).slots.toNat := by
    rw [foundSlots, List.length_map, SlotTable.length_lap, fits.slots_eq]
  obtain ⟨results, reads⟩ := Lookup.findNexts_eq keeps.serves entry calls .fresh (.fresh all)
    (fits.finds intact keeps) rfl
  have same : answers (verdicts (foundSlots records (ofRecords records) key)) calls =
      handedOut (refs records (ofRecords records) key) calls := by
    rw [verdicts_foundSlots, answers_verdictOf, ← fits.filterMap_met, SlotTable.met]
  rw [same] at results reads
  refine ⟨results, (reads (unfailed_handedOut _ calls)).trans ?_⟩
  exact foldl_keep s _

end Image

/-! ## Walking through the values of a key -/

def Yields {σ : Type} (db : Database σ) (key : ByteArray) (state : Cursor × σ)
    (refs : List DataRef) : Prop :=
  ∀ calls, (db.findNexts key calls state).1 = handedOut refs calls ∧
    (db.findNexts key calls state).2.2 = state.2

section yields
variable {σ : Type} {db : Database σ} {key : ByteArray} {cursor : Cursor} {s : σ}

theorem Yields.cons {ref : DataRef} {refs : List DataRef}
    (yields : Yields db key (cursor, s) (ref :: refs)) :
    ∃ next, db.findNext key (cursor, s) = .ok (some ref) (next, s) ∧ Yields db key (next, s) refs := by
  cases eq : db.findNext key (cursor, s) with
  | error e t =>
    have results := (yields 1).1
    rw [Database.findNexts, eq] at results
    cases results
  | ok found t =>
    have step : ∀ calls, found = some ref ∧
        (db.findNexts key calls t).1 = handedOut refs calls ∧ (db.findNexts key calls t).2.2 = s := by
      intro calls
      have all := yields (calls + 1)
      rw [Database.findNexts, eq, handedOut_cons] at all
      obtain ⟨results, state⟩ := all
      obtain ⟨first, others⟩ := List.cons.inj results
      exact ⟨Except.ok.inj first, others, state⟩
    obtain ⟨next, t⟩ := t
    obtain ⟨rfl, -, rfl⟩ := step 0
    exact ⟨next, rfl, fun calls => (step calls).2⟩

theorem Yields.nil (yields : Yields db key (cursor, s) []) :
    ∃ next, db.findNext key (cursor, s) = .ok none (next, s) := by
  have all := yields 1
  rw [handedOut_nil, Database.findNexts] at all
  cases eq : db.findNext key (cursor, s) with
  | error e t =>
    rw [eq] at all
    cases all.1
  | ok found t =>
    rw [eq] at all
    obtain ⟨next, t⟩ := t
    obtain ⟨results, rfl⟩ := all
    obtain ⟨first, -⟩ := List.cons.inj results
    rw [Except.ok.inj first]
    exact ⟨next, rfl⟩

theorem nextValue_some {ref : DataRef} {data : ByteArray} {next : Cursor}
    (found : db.findNext key (cursor, s) = .ok (some ref) (next, s))
    (read : db.readAt ref.position ref.length s = .ok data s) :
    db.nextValue key (⟨cursor, false⟩, s) = (some (.ok data), (⟨next, false⟩, s)) := by
  have nextData : db.nextData key (cursor, s) = .ok (some data) (next, s) := by
    rw [Database.nextData, Effect.bind_apply, found]
    dsimp only
    rw [Effect.bind_apply, Effect.onSecond_ok read]
    rfl
  simp only [Database.nextValue, nextData]
  rfl

theorem nextValue_none {next : Cursor} (found : db.findNext key (cursor, s) = .ok none (next, s)) :
    db.nextValue key (⟨cursor, false⟩, s) = (none, (⟨next, false⟩, s)) := by
  have nextData : db.nextData key (cursor, s) = .ok none (next, s) := by
    rw [Database.nextData, Effect.bind_apply, found]
    rfl
  simp only [Database.nextValue, nextData]
  rfl

theorem Yields.items {refs : List DataRef} {data : List ByteArray} {limit : Nat}
    (yields : Yields db key (cursor, s) refs)
    (read : refs.map (fun ref => db.readAt ref.position ref.length s) = data.map (.ok · s))
    (le : refs.length ≤ limit) :
    (Walk.items (db.nextValue key) limit (⟨cursor, false⟩, s)).1 = data.map .ok := by
  induction refs generalizing cursor data limit with
  | nil =>
    obtain rfl : data = [] := List.map_eq_nil_iff.1 read.symm
    cases limit with
    | zero => rfl
    | succ limit =>
      obtain ⟨next, found⟩ := yields.nil
      rw [Walk.items, nextValue_none found]
      rfl
  | cons ref refs ih =>
    obtain ⟨next, found, rest⟩ := yields.cons
    cases data with
    | nil => cases read
    | cons first data =>
      obtain ⟨here, read⟩ := List.cons.inj read
      cases limit with
      | zero => cases le
      | succ limit =>
        rw [Walk.items, nextValue_some found here]
        dsimp only
        rw [ih rest read (Nat.le_of_succ_le_succ le), List.map_cons]

theorem Yields.locate {refs : List DataRef} (yields : Yields db key (.fresh, s) refs) :
    db.locate key s = .ok refs.head? s := by
  have found : ∃ next, db.findNext key (.fresh, s) = .ok refs.head? (next, s) := by
    cases refs with
    | nil => exact yields.nil
    | cons ref refs =>
      obtain ⟨next, found, -⟩ := yields.cons
      exact ⟨next, found⟩
  obtain ⟨next, found⟩ := found
  simp only [Database.locate, Effect.within, Database.find, found]

theorem Yields.get_eq {refs : List DataRef} {data : List ByteArray}
    (yields : Yields db key (.fresh, s) refs)
    (read : refs.map (fun ref => db.readAt ref.position ref.length s) = data.map (.ok · s)) :
    db.get key s = .ok data.head? s := by
  rw [Database.get, Effect.bind_apply, yields.locate]
  cases data with
  | nil =>
    obtain rfl : refs = [] := List.map_eq_nil_iff.1 read
    rfl
  | cons first data =>
    cases refs with
    | nil => cases read
    | cons ref refs =>
      have here : db.readAt ref.position ref.length s = .ok first s := (List.cons.inj read).1
      dsimp only [List.head?_cons]
      rw [Effect.bind_apply, here]
      rfl

theorem Yields.contains_eq {refs : List DataRef} (yields : Yields db key (.fresh, s) refs) :
    db.contains key s = .ok refs.head?.isSome s := by
  rw [Database.contains, Effect.bind_apply, yields.locate]
  rfl

end yields

/-! ## The round trip -/

structure Recalls {σ : Type} (db : Database σ) (s : σ) (records : List Record) (key : ByteArray) :
    Prop where
  values_eq : db.values key s = (records.filter (·.key = key)).map fun record => .ok record.data
  exists_refs : ∃ refs : List DataRef,
    (∀ calls, (db.findNexts key calls (.fresh, s)).1 = handedOut refs calls) ∧
    refs.Pairwise (fun a b => a.position < b.position) ∧
    refs.map (fun ref => db.readAt ref.position ref.length s) =
      (records.filter (·.key = key)).map fun record => .ok record.data s
  get_eq : db.get key s = .ok ((records.filter (·.key = key)).head?.map Record.data) s
  get_eq_none_iff : db.get key s = .ok none s ↔ ∀ record ∈ records, record.key ≠ key
  contains_eq : db.contains key s = .ok (decide (∃ record ∈ records, record.key = key)) s

theorem Image.Fits.recalls_of_intact {records : List Record} (fits : Fits records) {σ : Type}
    {db : Database σ} {s : σ} {bytes key : ByteArray} (intact : Intact records key bytes)
    (keeps : Keeps db bytes s) : Recalls db s records key := by
  have yields : Yields db key (.fresh, s) (refs records (ofRecords records) key) :=
    fun calls => fits.findNexts_eq intact keeps calls
  have read := fits.readAt_refs intact keeps
  have length := fits.length_refs (ofRecords records) key
  have increasing := fits.refs_increasing (ofRecords records) key
  generalize refs records (ofRecords records) key = refs at *
  have read_data : refs.map (fun ref => db.readAt ref.position ref.length s) =
      ((records.filter (·.key = key)).map Record.data).map (.ok · s) := by
    rw [read, List.map_map]
    rfl
  have get := yields.get_eq read_data
  rw [List.head?_map] at get
  have never : records.filter (·.key = key) = [] ↔ ∀ record ∈ records, record.key ≠ key := by
    simp [List.filter_eq_nil_iff]
  refine ⟨?_, ⟨refs, fun calls => (yields calls).1, increasing, read⟩, get, ?_, ?_⟩
  · have items := yields.items read_data (Nat.le_succ_of_le length)
    rw [List.map_map] at items
    exact items
  · rw [get, ← never]
    cases records.filter (·.key = key) with
    | nil => simp
    | cons record others => simp
  · have lengths := congrArg List.length read
    rw [List.length_map, List.length_map] at lengths
    rw [yields.contains_eq]
    congr 1
    rw [Bool.eq_iff_iff, decide_eq_true_iff]
    cases refs with
    | nil =>
      have none := never.1 (List.eq_nil_of_length_eq_zero lengths.symm)
      simpa using none
    | cons ref refs =>
      have some : records.filter (·.key = key) ≠ [] := fun eq => by rw [eq] at lengths; cases lengths
      rw [Ne, never] at some
      simpa using some

theorem Image.Fits.recalls {records : List Record} (fits : Fits records) {σ : Type} {db : Database σ}
    {s : σ} {rest : ByteArray} (keeps : Keeps db (ofRecords records ++ rest) s) (key : ByteArray) :
    Recalls db s records key :=
  fits.recalls_of_intact (intact_append records key rest) keeps

/-- **Round trip.** Whatever the sink, lookups in what a build that did not fail has left there tell
just the records that were added, be the bytes mapped or read piece by piece. -/
theorem recalls_of_run {σ : Type} {sink : Sink σ} {shows : σ → ByteArray → Nat → Prop}
    {fragile : Prop} (file : FileLike sink shows fragile) {capacity offset : Nat} {old : ByteArray}
    {records : List Record} {s t : σ} (start : shows s old offset)
    (built : Builder.run sink capacity records s = .ok () t) :
    ∃ content offset, shows t content offset ∧ ∀ {τ : Type} (state : τ) (key : ByteArray),
      Recalls (Source.ofBytes content) state records key ∧
        Recalls (Source.positioned content) state records key := by
  obtain ⟨fits, offset, shown⟩ := (Builder.run_ends file capacity records start).of_ok built
  rw [Bytes.overwrite_eq (Nat.zero_le _), Bytes.extract_eq_empty (Nat.min_le_left ..),
    ByteArray.empty_append] at shown
  exact ⟨_, offset, shown, fun state key =>
    ⟨fits.recalls (keeps_ofBytes _ state) key, fits.recalls (keeps_positioned _ state) key⟩⟩

theorem recalls_of_run_memory :
    let records : List Record :=
      [⟨"k".toUTF8, "1".toUTF8⟩, ⟨.empty, .empty⟩, ⟨"k".toUTF8, "2".toUTF8⟩]
    ∃ t, Builder.run MemorySink.calls 0 records .empty = .ok () t ∧
      Database.values (Source.positioned t.content) "k".toUTF8 () =
        [.ok "1".toUTF8, .ok "2".toUTF8] := by
  intro records
  have steady := MemorySink.fileLike True
  have start := MemorySink.shows_empty True
  have fits : Image.Fits records := by decide
  obtain ⟨_, t, built, -⟩ := (Builder.run_ends steady 0 records start).exists_ok
    fun e t failed => failed.1.elim (· trivial) (· fits)
  obtain ⟨content, offset, ⟨-, rfl, -⟩, recalls⟩ := recalls_of_run steady start built
  refine ⟨t, built, ?_⟩
  rw [(recalls () "k".toUTF8).2.values_eq]
  decide

end ConstDb
