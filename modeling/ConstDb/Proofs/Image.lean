import ConstDb.Proofs.Bytes
import ConstDb.Proofs.Index.Buckets
import ConstDb.Proofs.Index.SlotTable
import ConstDb.Position
import ConstDb.Record

/-!
# Images

The bytes of a database as a function of its records: a header, the records one behind the other,
and a table for each bucket. What stands where in an image is said by `standsAt_record`,
`standsAt_headerEntry` and `standsAt_slot`.
-/

namespace ConstDb

def recordStart (records : List Record) (index : Nat) : Nat :=
  headerSize + ((records.take index).map Record.storedSize).sum

namespace Image

def recordBytes (records : List Record) : ByteArray := Bytes.concat (records.map Record.encode)

def recordsSize (records : List Record) : Nat := (records.map Record.storedSize).sum

/-- The hashes and positions of records, the first of which starts at `position`. -/
def entriesFrom : (position : Nat) → List Record → List Slot
  | _, [] => []
  | position, record :: records =>
    ⟨.ofKey record.key, position.toUInt32⟩ :: entriesFrom (position + record.storedSize) records

def entries (records : List Record) : List Slot := entriesFrom headerSize records

def bucketEntries (records : List Record) (bucket : Bucket) : List Slot :=
  Buckets.inBucket bucket (entries records)

def table (records : List Record) (bucket : Bucket) : Array Slot :=
  SlotTable.tableOf (bucketEntries records bucket)

def slotBytes (slots : List Slot) : ByteArray := Bytes.concat (slots.map Slot.encode)

def tableStart (records : List Record) (index : Nat) : Nat :=
  headerSize + recordsSize records + Pair.size * (2 * Buckets.below index (entries records))

def headerEntry (records : List Record) (bucket : Bucket) : TableRef :=
  ⟨(tableStart records bucket.val).toUInt32, (table records bucket).size.toUInt32⟩

def headerBytes (records : List Record) (buckets : List Bucket) : ByteArray :=
  Bytes.concat (buckets.map fun bucket => (headerEntry records bucket).encode)

def tableBytes (records : List Record) (buckets : List Bucket) : ByteArray :=
  Bytes.concat (buckets.map fun bucket => slotBytes (table records bucket).toList)

def header (records : List Record) : ByteArray := headerBytes records (List.finRange bucketCount)

def body (records : List Record) : ByteArray :=
  recordBytes records ++ tableBytes records (List.finRange bucketCount)

def ofRecords (records : List Record) : ByteArray := header records ++ body records

/-- All positions of the image can be stored. -/
def Fits (records : List Record) : Prop :=
  headerSize + recordsSize records + Pair.size * (2 * records.length) ≤ Position.limit

instance (records : List Record) : Decidable (Fits records) := inferInstanceAs (Decidable (_ ≤ _))

/-! ## Sizes -/

@[simp] theorem size_recordBytes (records : List Record) :
    (recordBytes records).size = recordsSize records := by
  unfold recordBytes recordsSize
  rw [Bytes.size_concat, List.map_map]
  congr 1
  exact List.map_congr_left fun record _ => Record.size_encode record

theorem recordsSize_append (front back : List Record) :
    recordsSize (front ++ back) = recordsSize front + recordsSize back := by
  simp [recordsSize]

@[simp] theorem recordsSize_singleton (record : Record) : recordsSize [record] = record.storedSize := by
  simp [recordsSize]

theorem recordsSize_cons (record : Record) (records : List Record) :
    recordsSize (record :: records) = record.storedSize + recordsSize records := by
  simp [recordsSize]

theorem length_le_recordsSize (records : List Record) :
    Pair.size * records.length ≤ recordsSize records := by
  induction records with
  | nil => exact Nat.zero_le _
  | cons record records ih =>
    rw [recordsSize_cons, List.length_cons, Nat.mul_succ, Record.storedSize, recordHeaderSize]
    omega

theorem storedSize_le {records : List Record} {record : Record} (member : record ∈ records) :
    record.storedSize ≤ recordsSize records := by
  obtain ⟨front, back, rfl⟩ := List.append_of_mem member
  rw [recordsSize_append, recordsSize_cons]
  omega

theorem recordBytes_cons (record : Record) (records : List Record) :
    recordBytes (record :: records) = record.encode ++ recordBytes records := rfl

theorem recordBytes_append (front back : List Record) :
    recordBytes (front ++ back) = recordBytes front ++ recordBytes back := by
  unfold recordBytes
  rw [List.map_append, Bytes.concat_append]

@[simp] theorem recordBytes_singleton (record : Record) : recordBytes [record] = record.encode := by
  simp [recordBytes]

@[simp] theorem size_slotBytes (slots : List Slot) :
    (slotBytes slots).size = Pair.size * slots.length := by
  have even : ∀ piece ∈ slots.map Slot.encode, piece.size = Pair.size := by
    intro piece member
    obtain ⟨slot, -, rfl⟩ := List.mem_map.1 member
    exact Slot.size_encode slot
  unfold slotBytes
  rw [Bytes.size_concat_of_forall even, List.length_map]

@[simp] theorem size_headerBytes (records : List Record) (buckets : List Bucket) :
    (headerBytes records buckets).size = Pair.size * buckets.length := by
  have even : ∀ piece ∈ buckets.map fun bucket => (headerEntry records bucket).encode,
      piece.size = Pair.size := by
    intro piece member
    obtain ⟨bucket, -, rfl⟩ := List.mem_map.1 member
    exact TableRef.size_encode _
  unfold headerBytes
  rw [Bytes.size_concat_of_forall even, List.length_map]

@[simp] theorem size_header (records : List Record) : (header records).size = headerSize := by
  unfold header
  rw [size_headerBytes, List.length_finRange, headerSize, Nat.mul_comm]

/-! ## Entries -/

theorem entriesFrom_append (position : Nat) (front back : List Record) :
    entriesFrom position (front ++ back) =
      entriesFrom position front ++ entriesFrom (position + recordsSize front) back := by
  induction front generalizing position with
  | nil => simp [entriesFrom, recordsSize]
  | cons record front ih =>
    simp [entriesFrom, ih, recordsSize, Nat.add_assoc]

@[simp] theorem length_entriesFrom (position : Nat) (records : List Record) :
    (entriesFrom position records).length = records.length := by
  induction records generalizing position with
  | nil => rfl
  | cons record records ih => simp [entriesFrom, ih]

@[simp] theorem length_entries (records : List Record) : (entries records).length = records.length :=
  length_entriesFrom _ _

theorem entries_concat (records : List Record) (record : Record) :
    entries (records ++ [record]) =
      entries records ++ [⟨.ofKey record.key, (headerSize + recordsSize records).toUInt32⟩] :=
  entriesFrom_append ..

theorem getElem?_entries (records : List Record) (index : Nat) : (entries records)[index]? =
    records[index]?.map fun record =>
      ⟨.ofKey record.key, (recordStart records index).toUInt32⟩ := by
  have step : ∀ (position : Nat) (records : List Record) (index : Nat),
      (entriesFrom position records)[index]? = records[index]?.map fun record =>
        ⟨.ofKey record.key,
          (position + ((records.take index).map Record.storedSize).sum).toUInt32⟩ := by
    intro position records
    induction records generalizing position with
    | nil => simp [entriesFrom]
    | cons record records ih =>
      intro index
      cases index with
      | zero => simp [entriesFrom]
      | succ index => simp [entriesFrom, ih, Nat.add_assoc]
  exact step headerSize records index

theorem recordStart_lt {records : List Record} {i j : Nat} (lt : i < j) (inside : i < records.length) :
    recordStart records i < recordStart records j := by
  have cut : records.take j = records.take i ++ records[i] :: (records.take j).drop (i + 1) := by
    have := List.take_append_drop i (records.take j)
    rw [List.take_take, Nat.min_eq_left (Nat.le_of_lt lt),
      List.drop_eq_getElem_cons (by rw [List.length_take]; omega), List.getElem_take] at this
    exact this.symm
  unfold recordStart
  rw [cut]
  simp only [List.map_append, List.map_cons, List.sum_append, List.sum_cons, Record.storedSize,
    recordHeaderSize, Pair.size]
  omega

theorem recordStart_le (records : List Record) (index : Nat) :
    recordStart records index ≤ headerSize + recordsSize records := by
  have := congrArg recordsSize (List.take_append_drop index records)
  rw [recordsSize_append] at this
  unfold recordStart
  unfold recordsSize at this ⊢
  omega

theorem recordStart_succ {records : List Record} {index : Nat} {record : Record}
    (at_index : records[index]? = some record) :
    recordStart records (index + 1) = recordStart records index + record.storedSize := by
  unfold recordStart
  rw [List.take_add_one, at_index]
  simp [Nat.add_assoc]

theorem recordStart_inj {records : List Record} {i j : Nat} (hi : i < records.length)
    (hj : j < records.length) (eq : recordStart records i = recordStart records j) : i = j := by
  rcases Nat.lt_trichotomy i j with lt | rfl | lt
  · have := recordStart_lt lt hi; omega
  · rfl
  · have := recordStart_lt lt hj; omega

theorem toNat_toUInt32 {n : Nat} (le : n ≤ Position.limit) : n.toUInt32.toNat = n := by
  have : Position.limit < UInt32.size := by decide
  exact UInt32.toNat_ofNat_of_lt' (by omega)

theorem Fits.within {records : List Record} (fits : Fits records) :
    headerSize + recordsSize records ≤ Position.limit := by
  unfold Fits at fits
  omega

section within
variable {records : List Record} (within : headerSize + recordsSize records ≤ Position.limit)
include within

theorem toNat_recordStart (index : Nat) :
    (recordStart records index).toUInt32.toNat = recordStart records index :=
  toNat_toUInt32 (Nat.le_trans (recordStart_le records index) within)

theorem mem_entries {entry : Slot} (member : entry ∈ entries records) :
    ∃ (index : Nat) (record : Record), records[index]? = some record ∧
      entry.hash = .ofKey record.key ∧ entry.position.toNat = recordStart records index := by
  obtain ⟨index, at_index⟩ := List.mem_iff_getElem?.1 member
  rw [getElem?_entries] at at_index
  obtain ⟨record, at_record, rfl⟩ := Option.map_eq_some_iff.1 at_index
  exact ⟨index, record, at_record, rfl, toNat_recordStart within index⟩

end within

theorem Fits.toNat_recordStart {records : List Record} (fits : Fits records) (index : Nat) :
    (recordStart records index).toUInt32.toNat = recordStart records index :=
  Image.toNat_recordStart fits.within index

theorem Fits.mem_entries {records : List Record} (fits : Fits records) {entry : Slot}
    (member : entry ∈ entries records) : ∃ (index : Nat) (record : Record),
      records[index]? = some record ∧ entry.hash = .ofKey record.key ∧
        entry.position.toNat = recordStart records index :=
  Image.mem_entries fits.within member

theorem Fits.entry_filled {records : List Record} (fits : Fits records) {entry : Slot}
    (member : entry ∈ entries records) : entry.isEmpty = false := by
  obtain ⟨index, record, -, -, eq⟩ := fits.mem_entries member
  have pos : headerSize ≤ recordStart records index := Nat.le_add_right ..
  have : 0 < headerSize := by decide
  have ne : entry.position ≠ 0 := fun zero => by
    rw [zero, UInt32.toNat_zero] at eq
    omega
  simp [Slot.isEmpty, ne]

theorem Fits.entries_increasing {records : List Record} (fits : Fits records) :
    (entries records).Pairwise fun a b => a.position.toNat < b.position.toNat := by
  rw [List.pairwise_iff_getElem]
  intro i j hi hj lt
  rw [length_entries] at hi hj
  have at_i := getElem?_entries records i
  have at_j := getElem?_entries records j
  rw [List.getElem?_eq_getElem (by rwa [length_entries]), List.getElem?_eq_getElem hi,
    Option.map_some] at at_i
  rw [List.getElem?_eq_getElem (by rwa [length_entries]), List.getElem?_eq_getElem hj,
    Option.map_some] at at_j
  rw [Option.some.inj at_i, Option.some.inj at_j]
  dsimp only
  rw [fits.toNat_recordStart, fits.toNat_recordStart]
  exact recordStart_lt lt hi

theorem Fits.entries_nodup {records : List Record} (fits : Fits records) :
    (entries records).Nodup :=
  fits.entries_increasing.imp fun lt eq => by rw [eq] at lt; exact Nat.lt_irrefl _ lt

/-! ## Where the tables start -/

@[simp] theorem size_table (records : List Record) (bucket : Bucket) :
    (table records bucket).size = 2 * (bucketEntries records bucket).length :=
  SlotTable.size_tableOf _

/-- The records alone take more room than the number of slots of any table can come to. -/
theorem size_table_le {records : List Record} (within : headerSize + recordsSize records ≤ Position.limit)
    (bucket : Bucket) : (table records bucket).size ≤ Position.limit := by
  have some : (bucketEntries records bucket).length ≤ records.length := by
    have := List.length_filter_le (fun entry => entry.hash.bucket = bucket) (entries records)
    rwa [length_entries] at this
  have room := length_le_recordsSize records
  rw [Pair.size] at room
  rw [size_table]
  omega

theorem tableStart_zero (records : List Record) :
    tableStart records 0 = headerSize + recordsSize records := by
  simp [tableStart, Buckets.below]

theorem tableStart_succ (records : List Record) (bucket : Bucket) :
    tableStart records (bucket.val + 1) =
      tableStart records bucket.val + Pair.size * (table records bucket).size := by
  unfold tableStart
  rw [Buckets.below_succ, size_table]
  unfold bucketEntries
  rw [Nat.mul_add, Nat.mul_add]
  omega

theorem below_bucketCount (entries : List Slot) : Buckets.below bucketCount entries = entries.length := by
  unfold Buckets.below
  rw [List.countP_eq_length]
  intro entry _
  simp

theorem tableStart_bucketCount (records : List Record) : tableStart records bucketCount =
    headerSize + recordsSize records + Pair.size * (2 * records.length) := by
  rw [tableStart, below_bucketCount, length_entries]

theorem tableStart_mono (records : List Record) {i j : Nat} (le : i ≤ j) :
    tableStart records i ≤ tableStart records j := by
  have := Buckets.below_mono le (entries records)
  simp only [tableStart, Pair.size]
  omega

theorem Fits.tableStart_le {records : List Record} (fits : Fits records) {index : Nat}
    (le : index ≤ bucketCount) : tableStart records index ≤ Position.limit := by
  refine Nat.le_trans (tableStart_mono records le) ?_
  rw [tableStart_bucketCount]
  exact fits

theorem tableBytes_cons (records : List Record) (bucket : Bucket) (rest : List Bucket) :
    tableBytes records (bucket :: rest) =
      slotBytes (table records bucket).toList ++ tableBytes records rest := rfl

theorem size_tableBytes_take (records : List Record) {index : Nat} (le : index ≤ bucketCount) :
    headerSize + recordsSize records +
        (tableBytes records ((List.finRange bucketCount).take index)).size =
      tableStart records index := by
  induction index with
  | zero => simp [tableBytes, tableStart_zero]
  | succ index ih =>
    have lt : index < (List.finRange bucketCount).length := by rw [List.length_finRange]; exact le
    have last : (List.finRange bucketCount)[index] = ⟨index, le⟩ := by simp
    have next := tableStart_succ records ⟨index, le⟩
    have before := ih (Nat.le_of_succ_le le)
    unfold tableBytes at before ⊢
    rw [List.take_succ_eq_append_getElem lt, last, List.map_append, Bytes.concat_append,
      ByteArray.size_append, List.map_singleton, Bytes.concat_cons, Bytes.concat_nil,
      ByteArray.append_empty, size_slotBytes, Array.length_toList]
    dsimp only at next
    omega

theorem size_body (records : List Record) :
    headerSize + (body records).size = tableStart records bucketCount := by
  have tables := size_tableBytes_take records (Nat.le_refl bucketCount)
  rw [List.take_of_length_le (by rw [List.length_finRange])] at tables
  rw [body, ByteArray.size_append, size_recordBytes, ← Nat.add_assoc, tables]

theorem size_ofRecords (records : List Record) :
    (ofRecords records).size = tableStart records bucketCount := by
  rw [ofRecords, ByteArray.size_append, size_header, size_body]

theorem fits_iff (records : List Record) :
    Fits records ↔ (ofRecords records).size ≤ Position.limit := by
  rw [size_ofRecords, tableStart_bucketCount, Fits]

/-! ## What stands where -/

theorem standsAt_headerEntry (records : List Record) (bucket : Bucket) :
    Bytes.StandsAt (ofRecords records) (TableRef.position bucket)
      (headerEntry records bucket).encode := by
  refine Bytes.StandsAt.append_right ?_ (body records)
  have at_bucket : ((List.finRange bucketCount).map fun b => (headerEntry records b).encode)[bucket.val]? =
      some (headerEntry records bucket).encode := by simp
  have even : ∀ piece ∈ (List.finRange bucketCount).map fun b => (headerEntry records b).encode,
      piece.size = Pair.size := by
    intro piece member
    obtain ⟨b, -, rfl⟩ := List.mem_map.1 member
    exact TableRef.size_encode _
  have stands := Bytes.standsAt_concat_of_forall even at_bucket
  rwa [Nat.mul_comm] at stands

theorem standsAt_body {records : List Record} {position : Nat} {piece : ByteArray}
    (stands : Bytes.StandsAt (body records) position piece) :
    Bytes.StandsAt (ofRecords records) (headerSize + position) piece := by
  have := stands.append_left (header records)
  rwa [size_header] at this

theorem standsAt_record {records : List Record} {index : Nat} {record : Record}
    (at_index : records[index]? = some record) :
    Bytes.StandsAt (ofRecords records) (recordStart records index) record.encode := by
  have stands : Bytes.StandsAt (recordBytes records) (recordsSize (records.take index)) record.encode := by
    have at_index : (records.map Record.encode)[index]? = some record.encode := by simp [at_index]
    have := Bytes.standsAt_concat_getElem? at_index
    rwa [← List.map_take, ← recordBytes, ← recordBytes, size_recordBytes] at this
  exact standsAt_body (stands.append_right _)

theorem standsAt_table (records : List Record) (bucket : Bucket) :
    Bytes.StandsAt (ofRecords records) (tableStart records bucket.val)
      (slotBytes (table records bucket).toList) := by
  have at_bucket : ((List.finRange bucketCount).map fun b =>
      slotBytes (table records b).toList)[bucket.val]? =
        some (slotBytes (table records bucket).toList) := by simp
  have stands := (Bytes.standsAt_concat_getElem? at_bucket).append_left (recordBytes records)
  rw [← List.map_take, ← tableBytes, ← tableBytes, size_recordBytes] at stands
  have := standsAt_body stands
  rwa [← Nat.add_assoc, size_tableBytes_take records (Nat.le_of_lt bucket.isLt)] at this

theorem standsAt_slot {records : List Record} {bucket : Bucket} {index : Nat} {slot : Slot}
    (at_index : (table records bucket)[index]? = some slot) :
    Bytes.StandsAt (ofRecords records) (tableStart records bucket.val + Pair.size * index)
      slot.encode := by
  refine (standsAt_table records bucket).trans ?_
  refine Bytes.standsAt_concat_of_forall (fun piece member => ?_) (by simp [at_index])
  obtain ⟨slot, -, rfl⟩ := List.mem_map.1 member
  exact Slot.size_encode slot

end Image

end ConstDb
