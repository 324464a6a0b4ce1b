import ConstDb.Proofs.Builder
import ConstDb.Proofs.Reading
import Mathlib.Algebra.BigOperators.Ring.List

/-!
# The layout of a finished file

`IsLaidOut` says of the bytes of a file, and of nothing else, where its header, its records and its
tables stand and what is in the tables. Main statement: `laidOut_of_run`.
-/

namespace ConstDb

/-! ## Reading a file -/

namespace Bytes

/-- What the header of a file says about a bucket. -/
def headerEntry (bytes : ByteArray) (bucket : Bucket) : TableRef :=
  .decode (pairAt bytes (TableRef.position bucket))

end Bytes

namespace TableRef

def slotPosition (table : TableRef) (index : Nat) : Nat := table.offset.toNat + Pair.size * index

def stop (table : TableRef) : Nat := table.slotPosition table.slots.toNat

def slotIn (table : TableRef) (bytes : ByteArray) (index : Nat) : Slot :=
  .decode (Bytes.pairAt bytes (table.slotPosition index))

def slotsIn (table : TableRef) (bytes : ByteArray) : Array Slot :=
  Array.ofFn fun index : Fin table.slots.toNat => table.slotIn bytes index.val

end TableRef

/-! ## The layout -/

/-- The slot at an index of a bucket's table holds the position of the record at `place`. -/
def NamedBy (records : List Record) (content : ByteArray) (place : Nat) (bucket : Bucket)
    (index : Nat) : Prop :=
  ∃ slot, ((Bytes.headerEntry content bucket).slotsIn content)[index]? = some slot ∧
    slot.position.toNat = recordStart records place

structure IsLaidOut (records : List Record) (content : ByteArray) : Prop where
  /-- The file is its header, its records and its tables, in bucket order, and nothing else. -/
  parts : ∃ header, header.size = headerSize ∧
    content = header ++ Bytes.concat (records.map Record.encode) ++
      Bytes.concat ((List.finRange bucketCount).map fun bucket =>
        content.extract (Bytes.headerEntry content bucket).offset.toNat
          (Bytes.headerEntry content bucket).stop)
  recordsStand : ∀ {place record}, records[place]? = some record →
    Bytes.StandsAt content (recordStart records place) record.encode
  firstTable : (Bytes.headerEntry content 0).offset.toNat =
    headerSize + (records.map Record.storedSize).sum
  nextTable : ∀ {bucket next : Bucket}, next.val = bucket.val + 1 →
    (Bytes.headerEntry content next).offset.toNat = (Bytes.headerEntry content bucket).stop
  lastTable : (Bytes.headerEntry content (Fin.last 255)).stop = content.size
  slots_eq : ∀ bucket, (Bytes.headerEntry content bucket).slots.toNat =
    2 * records.countP fun record => (Hash.ofKey record.key).bucket = bucket
  slots_sum : ((List.finRange bucketCount).map fun bucket =>
    (Bytes.headerEntry content bucket).slots.toNat).sum = 2 * records.length
  /-- One slot names a record. It is in the table of the record's bucket, holds its hash, and is
  reached from where a probe for that hash starts over slots that are not empty. -/
  named : ∀ {place record}, records[place]? = some record →
    ∃ index steps, NamedBy records content place (Hash.ofKey record.key).bucket index ∧
      (SlotTable.slotAt ((Bytes.headerEntry content (Hash.ofKey record.key).bucket).slotsIn content)
        index).hash = Hash.ofKey record.key ∧
      SlotTable.Reaches ((Bytes.headerEntry content (Hash.ofKey record.key).bucket).slotsIn content)
        (Hash.ofKey record.key) steps index ∧
      ∀ other another, NamedBy records content place other another →
        other = (Hash.ofKey record.key).bucket ∧ another = index
  /-- A slot that names no record is blank. -/
  blank : ∀ bucket index, index < (Bytes.headerEntry content bucket).slots.toNat →
    (∃ place < records.length, NamedBy records content place bucket index) ∨
      Bytes.pairAt content ((Bytes.headerEntry content bucket).slotPosition index) =
        Bytes.zeros Pair.size

/-! ## Images are laid out -/

theorem Bytes.StandsAt.pairAt {bytes piece : ByteArray} {position : Nat}
    (stands : Bytes.StandsAt bytes position piece) (size : piece.size = Pair.size) :
    Bytes.pairAt bytes position = piece := by
  have := stands.2
  rwa [size] at this

namespace Image

variable {records : List Record}

theorem headerEntry_eq (records : List Record) (bucket : Bucket) :
    Bytes.headerEntry (ofRecords records) bucket = headerEntry records bucket := by
  have stands := (standsAt_headerEntry records bucket).pairAt (TableRef.size_encode _)
  rw [Bytes.headerEntry, stands, TableRef.decode_encode]

theorem Fits.offset_eq (fits : Fits records) (bucket : Bucket) :
    (headerEntry records bucket).offset.toNat = tableStart records bucket.val :=
  toNat_toUInt32 (fits.tableStart_le (Nat.le_of_lt bucket.isLt))

theorem Fits.slots_eq (fits : Fits records) (bucket : Bucket) :
    (headerEntry records bucket).slots.toNat = (table records bucket).size := by
  refine toNat_toUInt32 ?_
  have le := fits.tableStart_le (Nat.succ_le_of_lt bucket.isLt)
  rw [tableStart_succ, Pair.size] at le
  omega

theorem Fits.slotPosition_eq (fits : Fits records) (bucket : Bucket) (index : Nat) :
    (headerEntry records bucket).slotPosition index =
      tableStart records bucket.val + Pair.size * index := by
  rw [TableRef.slotPosition, fits.offset_eq]

theorem Fits.stop_eq (fits : Fits records) (bucket : Bucket) :
    (headerEntry records bucket).stop = tableStart records (bucket.val + 1) := by
  rw [TableRef.stop, fits.slotPosition_eq, fits.slots_eq, tableStart_succ]

theorem Fits.pairAt_slot (fits : Fits records) {bucket : Bucket} {index : Nat} {slot : Slot}
    (at_index : (table records bucket)[index]? = some slot) :
    Bytes.pairAt (ofRecords records) ((headerEntry records bucket).slotPosition index) =
      slot.encode := by
  rw [fits.slotPosition_eq]
  exact (standsAt_slot at_index).pairAt (Slot.size_encode slot)

theorem Fits.slotsIn_eq (fits : Fits records) (bucket : Bucket) :
    (headerEntry records bucket).slotsIn (ofRecords records) = table records bucket := by
  apply Array.ext
  · rw [TableRef.slotsIn, Array.size_ofFn, fits.slots_eq]
  intro index _ lt
  have stands := fits.pairAt_slot (Array.getElem?_eq_getElem lt)
  simp only [TableRef.slotsIn, Array.getElem_ofFn]
  rw [TableRef.slotIn, stands, Slot.decode_encode]

theorem length_bucketEntries (records : List Record) (bucket : Bucket) :
    (bucketEntries records bucket).length =
      records.countP fun record => (Hash.ofKey record.key).bucket = bucket := by
  have step : ∀ (records : List Record) (position : Nat),
      (Buckets.inBucket bucket (entriesFrom position records)).length =
        records.countP fun record => (Hash.ofKey record.key).bucket = bucket := by
    intro records
    induction records with
    | nil => exact fun _ => rfl
    | cons record records ih =>
      intro position
      unfold Buckets.inBucket at ih ⊢
      rw [entriesFrom, List.countP_cons, ← ih (position + record.storedSize), List.filter_cons]
      by_cases own : (Hash.ofKey record.key).bucket = bucket
      · simp [own]
      · simp [own]
  exact step records headerSize

theorem sum_size_table (records : List Record) :
    ((List.finRange bucketCount).map fun bucket => (table records bucket).size).sum =
      2 * records.length := by
  have bytes := size_tableBytes_take records (Nat.le_refl bucketCount)
  rw [List.take_of_length_le (by rw [List.length_finRange]), tableStart_bucketCount] at bytes
  have sizes : (tableBytes records (List.finRange bucketCount)).size =
      Pair.size * ((List.finRange bucketCount).map fun bucket => (table records bucket).size).sum := by
    rw [tableBytes, Bytes.size_concat, List.map_map, ← List.sum_map_mul_left]
    refine congrArg List.sum (List.map_congr_left fun bucket _ => ?_)
    rw [Function.comp_apply, size_slotBytes, Array.length_toList]
  rw [sizes, Pair.size] at bytes
  omega

theorem Fits.bucketEntries_filled (fits : Fits records) {bucket : Bucket} :
    ∀ entry ∈ bucketEntries records bucket, entry.isEmpty = false :=
  fun _ member => fits.entry_filled (List.mem_filter.1 member).1

theorem Fits.holds_table (fits : Fits records) (bucket : Bucket) :
    SlotTable.Holds (table records bucket) (bucketEntries records bucket) :=
  SlotTable.holds_tableOf fits.bucketEntries_filled

theorem mem_bucketEntries {place : Nat} {record : Record} (at_place : records[place]? = some record) :
    ⟨.ofKey record.key, (recordStart records place).toUInt32⟩ ∈
      bucketEntries records (Hash.ofKey record.key).bucket := by
  refine List.mem_filter.2 ⟨List.mem_of_getElem? (i := place) ?_, by simp⟩
  rw [getElem?_entries, at_place, Option.map_some]

theorem Fits.namedBy_iff (fits : Fits records) {place index : Nat} {bucket : Bucket} :
    NamedBy records (ofRecords records) place bucket index ↔
      ∃ slot, (table records bucket)[index]? = some slot ∧
        slot.position.toNat = recordStart records place := by
  rw [NamedBy, headerEntry_eq, fits.slotsIn_eq]

theorem Fits.eq_of_named (fits : Fits records) {place index : Nat} {record : Record} {bucket : Bucket}
    {slot : Slot} (at_place : records[place]? = some record)
    (at_index : (table records bucket)[index]? = some slot)
    (names : slot.position.toNat = recordStart records place) :
    slot ∈ bucketEntries records bucket ∧
      slot = ⟨.ofKey record.key, (recordStart records place).toUInt32⟩ := by
  have ne : slot.position ≠ 0 := fun zero => by
    have : headerSize ≤ recordStart records place := Nat.le_add_right ..
    have : 0 < headerSize := by decide
    rw [zero, UInt32.toNat_zero] at names
    omega
  have member : slot ∈ bucketEntries records bucket := by
    refine (fits.holds_table bucket).mem_iff.2 ⟨Array.mem_of_getElem? at_index, ?_⟩
    simp [Slot.isEmpty, ne]
  refine ⟨member, ?_⟩
  obtain ⟨other, another, at_other, hash, position⟩ := fits.mem_entries (List.mem_filter.1 member).1
  -- no two records start at one place
  have same : place = other := by
    refine recordStart_inj ?_ ?_ (names.symm.trans position)
    · exact (List.getElem?_eq_some_iff.1 at_place).1
    · exact (List.getElem?_eq_some_iff.1 at_other).1
  subst same
  obtain rfl := Option.some.inj (at_place.symm.trans at_other)
  obtain ⟨_, stored⟩ := slot
  dsimp only at hash names
  subst hash
  congr 1
  apply UInt32.toNat.inj
  rw [names, fits.toNat_recordStart]

theorem Fits.named (fits : Fits records) {place : Nat} {record : Record}
    (at_place : records[place]? = some record) :
    ∃ index steps, (table records (Hash.ofKey record.key).bucket)[index]? =
        some ⟨.ofKey record.key, (recordStart records place).toUInt32⟩ ∧
      SlotTable.Reaches (table records (Hash.ofKey record.key).bucket) (Hash.ofKey record.key)
        steps index := by
  have holds := fits.holds_table (Hash.ofKey record.key).bucket
  obtain ⟨member, filled⟩ := holds.mem_iff.1 (mem_bucketEntries at_place)
  obtain ⟨index, lt, eq⟩ := Array.mem_iff_getElem.1 member
  have slot := SlotTable.slotAt_eq_getElem lt
  rw [eq] at slot
  obtain ⟨steps, reached⟩ := holds.reached index (by rw [SlotTable.Occupied, slot]; exact filled)
  rw [slot] at reached
  exact ⟨index, steps, by rw [Array.getElem?_eq_getElem lt, eq], reached⟩

theorem Fits.extract_table (fits : Fits records) (bucket : Bucket) :
    (ofRecords records).extract (headerEntry records bucket).offset.toNat
      (headerEntry records bucket).stop = slotBytes (table records bucket).toList := by
  have stands := (standsAt_table records bucket).2
  rwa [size_slotBytes, Array.length_toList, ← tableStart_succ, ← fits.offset_eq, ← fits.stop_eq] at stands

theorem Fits.named_unique (fits : Fits records) {place index other : Nat} {record : Record}
    {bucket : Bucket} (at_place : records[place]? = some record)
    (at_index : (table records (Hash.ofKey record.key).bucket)[index]? =
      some ⟨.ofKey record.key, (recordStart records place).toUInt32⟩)
    (names : NamedBy records (ofRecords records) place bucket other) :
    bucket = (Hash.ofKey record.key).bucket ∧ other = index := by
  obtain ⟨slot, at_other, position⟩ := fits.namedBy_iff.1 names
  obtain ⟨member, rfl⟩ := fits.eq_of_named at_place at_other position
  have own : (Hash.ofKey record.key).bucket = bucket := by simpa using (List.mem_filter.1 member).2
  subst own
  have nodup : (bucketEntries records (Hash.ofKey record.key).bucket).Nodup :=
    fits.entries_nodup.filter _
  exact ⟨rfl, (fits.holds_table _).index_inj nodup at_other at_index (fits.bucketEntries_filled _ member)⟩

theorem Fits.named_or_blank (fits : Fits records) {bucket : Bucket} {index : Nat}
    (lt : index < (table records bucket).size) :
    (∃ place < records.length, NamedBy records (ofRecords records) place bucket index) ∨
      (table records bucket)[index] = .empty := by
  cases filled : (table records bucket)[index].isEmpty with
  | true => exact .inr ((fits.holds_table bucket).blank _ (Array.getElem_mem lt) filled)
  | false =>
    have member := (fits.holds_table bucket).mem_iff.2 ⟨Array.getElem_mem lt, filled⟩
    obtain ⟨place, record, at_place, -, position⟩ := fits.mem_entries (List.mem_filter.1 member).1
    have names := fits.namedBy_iff.2 ⟨_, Array.getElem?_eq_getElem lt, position⟩
    exact .inl ⟨place, (List.getElem?_eq_some_iff.1 at_place).1, names⟩

theorem Fits.isLaidOut (fits : Fits records) : IsLaidOut records (ofRecords records) := by
  refine ⟨?_, standsAt_record, ?_, ?_, ?_, fun bucket => ?_, ?_, ?_, ?_⟩
  · refine ⟨header records, size_header records, ?_⟩
    simp only [headerEntry_eq, fits.extract_table]
    rw [ByteArray.append_assoc]
    rfl
  · rw [headerEntry_eq, fits.offset_eq]
    exact tableStart_zero records
  · intro bucket next succ
    rw [headerEntry_eq, headerEntry_eq, fits.offset_eq, fits.stop_eq, succ]
  · rw [headerEntry_eq, fits.stop_eq, size_ofRecords]
    rfl
  · rw [headerEntry_eq, fits.slots_eq, size_table, length_bucketEntries]
  · rw [← sum_size_table]
    refine congrArg List.sum (List.map_congr_left fun bucket _ => ?_)
    rw [headerEntry_eq, fits.slots_eq]
  · intro place record at_place
    obtain ⟨index, steps, at_index, reached⟩ := fits.named at_place
    obtain ⟨lt, slot⟩ := Array.getElem?_eq_some_iff.1 at_index
    have names := fits.namedBy_iff.2 ⟨_, at_index, fits.toNat_recordStart place⟩
    refine ⟨index, steps, names, ?_, ?_, fun _ _ => fits.named_unique at_place at_index⟩
    · rw [headerEntry_eq, fits.slotsIn_eq, SlotTable.slotAt_eq_getElem lt, slot]
    · rwa [headerEntry_eq, fits.slotsIn_eq]
  · intro bucket index lt
    rw [headerEntry_eq, fits.slots_eq] at lt
    rw [headerEntry_eq, fits.pairAt_slot (Array.getElem?_eq_getElem lt)]
    refine (fits.named_or_blank lt).imp_right fun blank => ?_
    rw [blank]
    rfl

end Image

/-- **What a build leaves behind.** Whatever the sink, a build that does not fail leaves a file that
is laid out for its records. What the sink held before shows only behind that, if it was longer. -/
theorem laidOut_of_run {σ : Type} {sink : Sink σ} {shows : σ → ByteArray → Nat → Prop}
    {fragile : Prop} (file : FileLike sink shows fragile) {capacity offset : Nat} {old : ByteArray}
    {records : List Record} {s t : σ} (start : shows s old offset)
    (built : Builder.run sink capacity records s = .ok () t) :
    ∃ content offset, IsLaidOut records content ∧
      shows t (content ++ old.extract content.size old.size) offset := by
  obtain ⟨fits, offset, shown⟩ := (Builder.run_ends file capacity records start).of_ok built
  rw [Bytes.overwrite_eq (Nat.zero_le _), Bytes.extract_eq_empty (Nat.min_le_left ..),
    ByteArray.empty_append, Nat.zero_add] at shown
  exact ⟨_, offset, fits.isLaidOut, shown⟩

theorem laidOut_of_run_memory :
    let records : List Record := [⟨"k".toUTF8, "v".toUTF8⟩, ⟨"k".toUTF8, .empty⟩]
    ∃ t, Builder.run MemorySink.calls 4 records .empty = .ok () t ∧ IsLaidOut records t.content := by
  intro records
  have steady := MemorySink.fileLike True
  have start := MemorySink.shows_empty True
  have fits : Image.Fits records := by decide
  obtain ⟨_, t, built, -⟩ := (Builder.run_ends steady 4 records start).exists_ok
    fun e t failed => failed.1.elim (· trivial) (· fits)
  obtain ⟨content, offset, laidOut, -, eq, -⟩ := laidOut_of_run steady start built
  rw [Bytes.extract_eq_empty (by simp), ByteArray.append_empty] at eq
  exact ⟨t, built, eq ▸ laidOut⟩

end ConstDb
