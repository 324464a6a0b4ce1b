import ConstDb.Database.Records
import ConstDb.Proofs.RoundTrip
import ConstDb.Proofs.Walk

/-!
# Listing the records of a file

The walk over a record area reads back what stands there, whatever that is: the records it hands out
are those whose encodings stand in the area one behind the other (`Keeps.items_from`), and no other
records have those encodings (`Keeps.items_of_stands`). Main statement: `records_invert_encoding`.
-/

namespace ConstDb

open Image

/-! ## One record -/

/-- What a record header and the lengths in it make of the bytes at a position. -/
def Bytes.recordIn (bytes : ByteArray) (position : Nat) : Record :=
  let lengths := Pair.decode (pairAt bytes position)
  let dataPosition := position + recordHeaderSize + lengths.1.toNat
  ⟨bytes.extract (position + recordHeaderSize) dataPosition,
    bytes.extract dataPosition (dataPosition + lengths.2.toNat)⟩

section record
variable {σ : Type} {db : Database σ} {bytes : ByteArray} {s : σ} {position stop : Nat}

theorem toUInt32_toNat (word : UInt32) : word.toNat.toUInt32 = word :=
  UInt32.toNat.inj (toNat_toUInt32 (Nat.le_of_lt_succ word.toNat_lt))

theorem Bytes.standsAt_extract (bytes : ByteArray) {start stop : Nat} (le : start ≤ stop)
    (inside : stop ≤ bytes.size) :
    Bytes.StandsAt bytes start (bytes.extract start stop) := by
  have size : (bytes.extract start stop).size = stop - start := by
    rw [ByteArray.size_extract, Nat.min_eq_left inside]
  refine ⟨by omega, ?_⟩
  rw [size, Nat.add_sub_cancel' le]

theorem recordAt_recordIn (header : position + Pair.size ≤ bytes.size)
    (inside : position + recordHeaderSize + (Pair.decode (Bytes.pairAt bytes position)).1.toNat +
      (Pair.decode (Bytes.pairAt bytes position)).2.toNat ≤ stop)
    (le : stop ≤ bytes.size) (near : stop ≤ Position.limit) :
    RecordAt bytes position (Bytes.recordIn bytes position) ∧
      position + (Bytes.recordIn bytes position).storedSize ≤ stop := by
  have pair := Bytes.standsAt_extract bytes (Nat.le_add_right position Pair.size) header
  have key := Bytes.standsAt_extract bytes (Nat.le_add_right (position + recordHeaderSize)
    (Pair.decode (Bytes.pairAt bytes position)).1.toNat) (by omega)
  have data := Bytes.standsAt_extract bytes (Nat.le_add_right (position + recordHeaderSize +
    (Pair.decode (Bytes.pairAt bytes position)).1.toNat)
    (Pair.decode (Bytes.pairAt bytes position)).2.toNat) (by omega)
  have keySize : (Bytes.recordIn bytes position).key.size =
      (Pair.decode (Bytes.pairAt bytes position)).1.toNat := by
    simp only [Bytes.recordIn, ByteArray.size_extract]
    omega
  have dataSize : (Bytes.recordIn bytes position).data.size =
      (Pair.decode (Bytes.pairAt bytes position)).2.toNat := by
    simp only [Bytes.recordIn, ByteArray.size_extract]
    omega
  have pairSize : (Bytes.pairAt bytes position).size = Pair.size := by
    rw [Bytes.pairAt, ByteArray.size_extract]
    omega
  have headerEq : (Bytes.recordIn bytes position).header = Bytes.pairAt bytes position := by
    rw [Record.header, keySize, dataSize, toUInt32_toNat, toUInt32_toNat, Pair.encode_decode pairSize]
  have ends : position + (Bytes.recordIn bytes position).storedSize ≤ stop := by
    rw [Record.storedSize, keySize, dataSize]
    omega
  -- the lengths in the header are those of the parts, so that encoding gives back what was read
  refine ⟨⟨?_, Nat.le_trans ends near⟩, ends⟩
  rw [Record.encode, headerEq]
  refine (pair.append ?_).append ?_
  · rw [← Bytes.pairAt, pairSize]
    exact key
  · rw [ByteArray.size_append, ← Bytes.pairAt, pairSize, keySize, ← Nat.add_assoc]
    exact data

theorem Keeps.recordAt_eq (keeps : Keeps db bytes s) {record : Record}
    (at_position : RecordAt bytes position record) (inside : position + record.storedSize ≤ stop) :
    db.recordAt position stop s = .ok (record, position + record.storedSize) s := by
  have size : record.header.size = Pair.size := Pair.size_encode ..
  have header := keeps.readAt_eq at_position.parts.1
  have lengths := at_position.lengths
  rw [at_position.parts.1.pairAt size] at lengths
  rw [size] at header
  have next : position + recordHeaderSize + record.key.size + record.data.size =
      position + record.storedSize := by
    rw [Record.storedSize]
    omega
  rw [Database.recordAt, Effect.bind_apply, header]
  dsimp only
  rw [lengths.1, lengths.2, next, if_neg (Nat.not_lt_of_le inside)]
  simp only [Effect.bind_apply, keeps.readAt_eq at_position.parts.2.1,
    keeps.readAt_eq at_position.parts.2.2]
  rfl

/-- Where no record ends in time, the walk fails. -/
theorem Keeps.recordAt_error (keeps : Keeps db bytes s) (le : stop ≤ bytes.size)
    (near : stop ≤ Position.limit)
    (none : ∀ record, RecordAt bytes position record → stop < position + record.storedSize) :
    ∃ cause, db.recordAt position stop s = .error (.truncated cause) s := by
  rcases Nat.lt_or_ge bytes.size (position + Pair.size) with outside | header
  · refine ⟨.readPastEnd Pair.size position bytes.size, ?_⟩
    rw [Database.recordAt, Effect.bind_apply, keeps.serves.readAt_outside outside]
  · by_cases past : stop < position + recordHeaderSize +
        (Pair.decode (Bytes.pairAt bytes position)).1.toNat +
          (Pair.decode (Bytes.pairAt bytes position)).2.toNat
    · refine ⟨.recordPastArea position stop, ?_⟩
      rw [Database.recordAt, Effect.bind_apply, keeps.serves.readAt_inside rfl header]
      dsimp only
      rw [← Bytes.pairAt, if_pos past]
      rfl
    · obtain ⟨at_position, ends⟩ := recordAt_recordIn header (Nat.le_of_not_lt past) le near
      exact absurd ends (Nat.not_le_of_lt (none _ at_position))

end record

/-! ## All records of an area -/

/-- How a walk over a record area ends that has come as far as `reached`: where the area ends, or with
one failure. -/
inductive AreaEnd (stop : Nat) : (reached : Nat) → List (Except DbError Record) → Prop where
  | whole : AreaEnd stop stop []
  | cut {reached : Nat} (cause : Truncation) : reached < stop →
    AreaEnd stop reached [.error (.truncated cause)]

theorem AreaEnd.le {stop reached : Nat} {ending : List (Except DbError Record)}
    (ends : AreaEnd stop reached ending) : reached ≤ stop := by
  cases ends with
  | whole => exact Nat.le_refl stop
  | cut _ lt => exact Nat.le_of_lt lt

section area
variable {σ : Type} {db : Database σ} {bytes : ByteArray} {s : σ} {position stop : Nat}

theorem nextRecord_ok {record : Record} {next : Nat} (lt : position < stop)
    (read : db.recordAt position stop s = .ok (record, next) s) :
    db.nextRecord (⟨position, stop⟩, s) = (some (.ok record), (⟨next, stop⟩, s)) := by
  simp only [Database.nextRecord, if_neg (Nat.not_le_of_lt lt), read]

theorem nextRecord_error {e : DbError} (lt : position < stop)
    (failed : db.recordAt position stop s = .error e s) :
    db.nextRecord (⟨position, stop⟩, s) = (some (.error e), (⟨stop, stop⟩, s)) := by
  simp only [Database.nextRecord, if_neg (Nat.not_le_of_lt lt), failed]

theorem nextRecord_over (db : Database σ) (stop : Nat) (s : σ) :
    Walk.Over db.nextRecord (⟨stop, stop⟩, s) := by
  simp only [Walk.Over, Database.nextRecord, if_pos (Nat.le_refl stop)]

theorem storedSize_pos (record : Record) : Pair.size ≤ record.storedSize := by
  rw [Record.storedSize, recordHeaderSize]
  omega

/-- The walk hands out what stands in the area, as far as records stand there. -/
theorem Keeps.items_from (keeps : Keeps db bytes s) (le : stop ≤ bytes.size)
    (near : stop ≤ Position.limit) (limit : Nat) (before : position ≤ stop)
    (enough : stop - position < limit) :
    ∃ listed ending, Bytes.StandsAt bytes position (recordBytes listed) ∧
      AreaEnd stop (position + recordsSize listed) ending ∧
      Walk.items db.nextRecord limit (⟨position, stop⟩, s) =
        (listed.map .ok ++ ending, (⟨stop, stop⟩, s)) := by
  have nothing : ∀ position ≤ stop, Bytes.StandsAt bytes position (recordBytes []) := by
    intro position before
    refine ⟨Nat.le_trans before le, ?_⟩
    exact ByteArray.extract_same
  -- each record moves `position` on, so that `enough` still holds for the rest of the area
  induction limit generalizing position with
  | zero => cases enough
  | succ limit ih =>
    rcases Nat.eq_or_lt_of_le before with rfl | lt
    · exact ⟨[], [], nothing _ before, .whole, (nextRecord_over db position s).items_eq _⟩
    by_cases some : ∃ record, RecordAt bytes position record ∧ position + record.storedSize ≤ stop
    · obtain ⟨record, at_position, inside⟩ := some
      have pos := storedSize_pos record
      rw [Pair.size] at pos
      obtain ⟨listed, ending, stands, ends, items⟩ := ih inside (by omega)
      refine ⟨record :: listed, ending, ?_, ?_, ?_⟩
      · rw [recordBytes_cons]
        exact at_position.stands.append (by rwa [Record.size_encode])
      · rwa [recordsSize_cons, ← Nat.add_assoc]
      · rw [Walk.items_of_some (nextRecord_ok lt (keeps.recordAt_eq at_position inside)), items]
        rfl
    · have none : ∀ record, RecordAt bytes position record → stop < position + record.storedSize :=
        fun record at_position => Nat.lt_of_not_le fun inside => some ⟨record, at_position, inside⟩
      obtain ⟨cause, failed⟩ := keeps.recordAt_error le near none
      refine ⟨[], _, nothing _ before, .cut cause lt, ?_⟩
      rw [Walk.items_of_some (nextRecord_error lt failed), (nextRecord_over db stop s).items_eq]
      rfl

theorem Keeps.items_of_stands (keeps : Keeps db bytes s) (near : stop ≤ Position.limit)
    (records : List Record) (limit : Nat) (stands : Bytes.StandsAt bytes position (recordBytes records))
    (whole : position + recordsSize records = stop) (enough : stop - position < limit) :
    Walk.items db.nextRecord limit (⟨position, stop⟩, s) = (records.map .ok, (⟨stop, stop⟩, s)) := by
  induction records generalizing position limit with
  | nil =>
    obtain rfl : position = stop := whole
    exact (nextRecord_over db position s).items_eq limit
  | cons record records ih =>
    have pos := storedSize_pos record
    rw [Pair.size] at pos
    rw [recordBytes_cons] at stands
    rw [recordsSize_cons] at whole
    obtain ⟨first, stands⟩ := stands.of_append
    rw [Record.size_encode] at stands
    have inside : position + record.storedSize ≤ stop := by omega
    have read := keeps.recordAt_eq ⟨first, by omega⟩ inside
    cases limit with
    | zero => cases enough
    | succ limit =>
      rw [Walk.items_of_some (nextRecord_ok (by omega) read),
        ih limit stands (by omega) (by omega)]
      rfl

end area

/-! ## Whole files -/

/-- Where the record area ends, by the header: where the first table starts. -/
def Bytes.recordStop (bytes : ByteArray) : Nat := (TableRef.decode (pairAt bytes 0)).offset.toNat

theorem Bytes.recordStop_eq (bytes : ByteArray) :
    recordStop bytes = (headerEntry bytes 0).offset.toNat := rfl

/-- The header says where the record area ends, and that is behind the header and inside the file. -/
def Bytes.HasRecordArea (bytes : ByteArray) : Prop :=
  Pair.size ≤ bytes.size ∧ headerSize ≤ recordStop bytes ∧ recordStop bytes ≤ bytes.size

/-- `items` is what a list of all records has to be like: the records whose encodings fill the record
area from its start to `reached`, and what the end of the walk adds to them. -/
structure ListsArea (bytes : ByteArray) (items : List (Except DbError Record)) (listed : List Record)
    (reached : Nat) : Prop where
  encoded : Bytes.concat (listed.map Record.encode) = bytes.extract headerSize reached
  reached_eq : reached = headerSize + (Bytes.concat (listed.map Record.encode)).size
  reached_le : reached ≤ Bytes.recordStop bytes
  length_le : listed.length ≤ (Bytes.recordStop bytes - headerSize) / Pair.size
  items_eq : ∃ ending, AreaEnd (Bytes.recordStop bytes) reached ending ∧
    items = listed.map .ok ++ ending

section files
variable {σ : Type} {db : Database σ} {bytes : ByteArray} {s : σ}

theorem Bytes.recordStop_le (bytes : ByteArray) : recordStop bytes ≤ Position.limit :=
  Nat.le_of_lt_succ (UInt32.toNat_lt _)

theorem Keeps.table_zero (keeps : Keeps db bytes s) (header : Pair.size ≤ bytes.size) :
    db.table ⟨0, by decide⟩ s = .ok (Bytes.headerEntry bytes 0) s := by
  have inside : TableRef.position 0 + Pair.size ≤ bytes.size := by
    rwa [TableRef.position, Fin.val_zero, Nat.zero_mul, Nat.zero_add]
  exact Lookup.table_eq keeps.serves inside rfl

theorem Keeps.recordArea_eq (keeps : Keeps db bytes s) (has : Bytes.HasRecordArea bytes) :
    db.recordArea s = .ok ⟨headerSize, Bytes.recordStop bytes⟩ s := by
  obtain ⟨header, after, inside⟩ := has
  rw [Database.recordArea, Effect.bind_apply, keeps.table_zero header]
  dsimp only
  rw [keeps.serves.size_eq, ← Bytes.recordStop_eq, if_neg (by omega)]
  rfl

theorem Keeps.recordArea_error (keeps : Keeps db bytes s) (lacks : ¬ Bytes.HasRecordArea bytes) :
    ∃ cause, db.recordArea s = .error (.truncated cause) s := by
  rw [Database.recordArea, Effect.bind_apply]
  rcases Nat.lt_or_ge bytes.size Pair.size with outside | header
  · refine ⟨.readPastEnd Pair.size 0 bytes.size, ?_⟩
    rw [Database.table, Effect.bind_apply, keeps.serves.readAt_outside (by simpa [TableRef.position])]
    rfl
  · refine ⟨.recordAreaEnd (Bytes.recordStop bytes) bytes.size, ?_⟩
    have past : Bytes.recordStop bytes < headerSize ∨ bytes.size < Bytes.recordStop bytes := by
      unfold Bytes.HasRecordArea at lacks
      omega
    rw [keeps.table_zero header]
    dsimp only
    rw [keeps.serves.size_eq, ← Bytes.recordStop_eq, if_pos past]
    rfl

theorem Keeps.records_eq (keeps : Keeps db bytes s) (has : Bytes.HasRecordArea bytes)
    {items : List (Except DbError Record)} {rest : Records × σ}
    (walked : db.restRecords ⟨headerSize, Bytes.recordStop bytes⟩ s = (items, rest)) :
    db.records s = .ok items rest.2 := by
  simp only [Database.records, keeps.recordArea_eq has, walked]

theorem Keeps.records_of_stands (keeps : Keeps db bytes s) (has : Bytes.HasRecordArea bytes)
    {records : List Record} (stands : Bytes.StandsAt bytes headerSize (recordBytes records))
    (whole : headerSize + recordsSize records = Bytes.recordStop bytes) :
    db.records s = .ok (records.map .ok) s :=
  keeps.records_eq has
    (keeps.items_of_stands (Bytes.recordStop_le bytes) records _ stands whole (Nat.lt_succ_self _))

theorem Keeps.exists_listsArea (keeps : Keeps db bytes s) (has : Bytes.HasRecordArea bytes) :
    ∃ items listed reached, ListsArea bytes items listed reached ∧
      db.restRecords ⟨headerSize, Bytes.recordStop bytes⟩ s =
        (items, (⟨Bytes.recordStop bytes, Bytes.recordStop bytes⟩, s)) := by
  obtain ⟨-, after, inside⟩ := has
  obtain ⟨listed, ending, stands, ends, items⟩ := keeps.items_from inside (Bytes.recordStop_le bytes)
    (Bytes.recordStop bytes - headerSize + 1) after (Nat.lt_succ_self _)
  have size := size_recordBytes listed
  have few := length_le_recordsSize listed
  have le := ends.le
  refine ⟨_, listed, headerSize + recordsSize listed, ?_, items⟩
  refine ⟨?_, by rw [← recordBytes, size], le, ?_, ending, ends, rfl⟩
  · rw [← recordBytes, ← size]
    exact stands.2.symm
  · rw [Nat.le_div_iff_mul_le (by decide), Nat.mul_comm]
    omega

end files

/-! ## Files that were built -/

namespace Image

variable {records : List Record}

theorem Fits.recordStop_eq (fits : Fits records) (rest : ByteArray) :
    Bytes.recordStop (ofRecords records ++ rest) = headerSize + recordsSize records := by
  rw [Bytes.recordStop_eq, headerEntry_append, fits.offset_eq, Fin.val_zero, tableStart_zero]

theorem Fits.hasRecordArea (fits : Fits records) (rest : ByteArray) :
    Bytes.HasRecordArea (ofRecords records ++ rest) := by
  have header := ((standsAt_headerEntry records 0).append_right rest).1
  have area := ((standsAt_recordBytes records).append_right rest).1
  rw [size_recordBytes] at area
  rw [TableRef.size_encode] at header
  refine ⟨Nat.le_trans (Nat.le_add_left ..) header, ?_, ?_⟩
  · rw [fits.recordStop_eq]
    exact Nat.le_add_right ..
  · rwa [fits.recordStop_eq]

theorem Fits.records_eq (fits : Fits records) {σ : Type} {db : Database σ} {s : σ} {rest : ByteArray}
    (keeps : Keeps db (ofRecords records ++ rest) s) : db.records s = .ok (records.map .ok) s :=
  keeps.records_of_stands (fits.hasRecordArea rest) ((standsAt_recordBytes records).append_right rest)
    (fits.recordStop_eq rest).symm

end Image

/-- **Listing inverts encoding.** Of any bytes whatever, a list of all records is refused unless the
header says where the record area ends; it holds the records whose encodings make up the area, as far
as there are such records, and then at most one failure. Of a file that was built it holds the records
in the order in which they were added. -/
theorem records_invert_encoding :
    (∀ {σ : Type} {db : Database σ} {bytes : ByteArray} {s : σ}, Keeps db bytes s →
      (¬ Bytes.HasRecordArea bytes → ∃ cause, db.records s = .error (.truncated cause) s) ∧
      (Bytes.HasRecordArea bytes →
        (∃ items listed reached rest, db.records s = .ok items s ∧
          ListsArea bytes items listed reached ∧
          db.restRecords ⟨headerSize, Bytes.recordStop bytes⟩ s = (items, rest) ∧
          Walk.Over db.nextRecord rest) ∧
        ∀ records : List Record, bytes.extract headerSize (Bytes.recordStop bytes) =
            Bytes.concat (records.map Record.encode) →
          db.records s = .ok (records.map .ok) s)) ∧
    ∀ {ρ : Type} {sink : Sink ρ} {shows : ρ → ByteArray → Nat → Prop} {fragile : Prop},
      FileLike sink shows fragile →
      ∀ {capacity offset : Nat} {old : ByteArray} {records : List Record} {r t : ρ},
      shows r old offset → Builder.run sink capacity records r = .ok () t →
      ∃ content offset, shows t content offset ∧
        ∀ {σ : Type} {db : Database σ} {s : σ}, Keeps db content s →
          db.records s = .ok (records.map .ok) s := by
  refine ⟨fun {σ db bytes s} keeps => ⟨fun lacks => ?_, fun has => ⟨?_, fun records fill => ?_⟩⟩, ?_⟩
  · obtain ⟨cause, refused⟩ := keeps.recordArea_error lacks
    exact ⟨cause, by simp only [Database.records, refused]⟩
  · obtain ⟨items, listed, reached, lists, walked⟩ := keeps.exists_listsArea has
    exact ⟨items, listed, reached, _, keeps.records_eq has walked, lists, walked,
      nextRecord_over db _ s⟩
  · have ⟨_, after, inside⟩ := has
    have size := congrArg ByteArray.size fill
    rw [← recordBytes, size_recordBytes, ByteArray.size_extract, Nat.min_eq_left inside] at size
    refine keeps.records_of_stands has ?_ (by omega)
    rw [← recordBytes] at fill
    rw [← fill]
    exact Bytes.standsAt_extract bytes after inside
  · intro ρ sink shows fragile file capacity offset old records r t start built
    obtain ⟨fits, offset, shown⟩ := Builder.run_image file start built
    exact ⟨_, offset, shown, fits.records_eq⟩

theorem records_invert_encoding_memory :
    let records : List Record := [⟨"k".toUTF8, "1".toUTF8⟩, ⟨.empty, .empty⟩]
    (∃ cause, Database.records (Source.positioned .empty) () = .error (.truncated cause) ()) ∧
      ∃ t, Builder.run MemorySink.calls 0 records .empty = .ok () t ∧
        Database.records (Source.positioned t.content) () = .ok (records.map .ok) () ∧
        ∃ items listed reached, Database.records (Source.ofBytes t.content) () = .ok items () ∧
          ListsArea t.content items listed reached := by
  intro records
  have steady := MemorySink.fileLike True
  have start := MemorySink.shows_empty True
  have fits : Image.Fits records := by decide
  obtain ⟨_, t, built, -⟩ := (Builder.run_ends steady 0 records start).exists_ok
    fun e t failed => failed.1.elim (· trivial) (· fits)
  obtain ⟨content, offset, ⟨-, rfl, -⟩, all⟩ := records_invert_encoding.2 steady start built
  obtain ⟨-, -, -, same, -⟩ := Builder.run_image steady start built
  have has : Bytes.HasRecordArea t.content := same ▸ fits.hasRecordArea _
  obtain ⟨items, listed, reached, _, listing, lists, -⟩ :=
    ((records_invert_encoding.1 (keeps_ofBytes t.content ())).2 has).1
  refine ⟨(records_invert_encoding.1 (keeps_positioned .empty ())).1 ?_, t, built,
    all (keeps_positioned t.content ()), items, listed, reached, listing, lists⟩
  exact fun area => absurd area.1 (by decide)

end ConstDb
