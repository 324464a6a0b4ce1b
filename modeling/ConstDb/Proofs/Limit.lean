import ConstDb.Proofs.Progress

/-!
# The limit of 32 bits

On a sink without fatal faults a build succeeds as long as what it has to store fits into 32 bits, and
not longer. One threshold decides on each record, and one on the tables: the lengths of the tables never
do, since the records take more room than that. Main statement: `exact_limit`.
-/

namespace ConstDb.Builder

open Effect Image OutBuffer

variable {σ : Type} {sink : Sink σ} {shows : σ → ByteArray → Nat → Prop}
variable {old : ByteArray} {records : List Record} {state : Builder × σ}

/-! ## What is stored -/

/-- The numbers stored with records and in their tables are the ones that are meant. -/
structure Exact (records : List Record) : Prop where
  lengths : ∀ record ∈ records, (Pair.decode record.header).1.toNat = record.key.size ∧
    (Pair.decode record.header).2.toNat = record.data.size
  slots : ∀ bucket, ∀ slot ∈ table records bucket, slot = .empty ∨ ∃ (index : Nat) (record : Record),
    records[index]? = some record ∧ slot.hash = .ofKey record.key ∧
      slot.position.toNat = recordStart records index

theorem exact_of_within (within : headerSize + recordsSize records ≤ Position.limit) : Exact records where
  lengths record member := by
    have le := storedSize_le member
    unfold Record.storedSize at le
    simp only [Record.header, Pair.decode_encode]
    exact ⟨toNat_toUInt32 (by omega), toNat_toUInt32 (by omega)⟩
  slots bucket slot member := by
    refine (SlotTable.mem_tableOf member).imp_right fun listed => ?_
    exact mem_entries within (List.mem_of_mem_filter listed)

theorem Fits.header_exact (fits : Fits records) (bucket : Bucket) :
    (headerEntry records bucket).offset.toNat = tableStart records bucket.val ∧
      (headerEntry records bucket).slots.toNat = (table records bucket).size :=
  ⟨toNat_toUInt32 (Image.Fits.tableStart_le fits (Nat.le_of_lt bucket.isLt)),
    toNat_toUInt32 (size_table_le (Image.Fits.within fits) bucket)⟩

/-- No table is too long for its length to be stored. -/
theorem Books.tables {builder : Builder} (books : Books records builder) (bucket : Bucket)
    (scratch : Array Slot) :
    SlotTable.ofEntries scratch ((Buckets.ofEntries builder.entries).run bucket) =
        .ok (table records bucket) ∧
      ∃ slots, storedLength "hash table" (table records bucket).size = .ok slots ∧
        slots.toNat = (table records bucket).size := by
  have le := size_table_le books.within bucket
  rw [ofEntries_run books.entries_eq, storedLength_of_le le]
  exact ⟨rfl, _, rfl, toNat_toUInt32 le⟩

/-! ## Thresholds -/

theorem add_exact (file : FileLike sink shows False) (record : Record)
    (building : Building shows old records state) :
    (state.1.position + record.storedSize ≤ Position.limit → ∃ next, add sink record state = .ok () next) ∧
    (Position.limit < state.1.position + record.storedSize → ∃ cause, add sink record state =
      .error (.overflow cause) ({ state.1 with failed := true }, state.2)) := by
  have booked := building_iff.1 building
  have ends := append_booked (file.takes old headerSize) record booked
  have trusted := building.trusted
  cases eq : append sink record state with
  | ok _ t =>
    have after := (ends.of_ok eq).within
    rw [recordsSize_append, recordsSize_singleton, ← Nat.add_assoc, ← booked.position_eq] at after
    exact ⟨fun _ => ⟨t, add_of_append_ok trusted eq⟩, fun long => absurd after (Nat.not_le_of_lt long)⟩
  | error e t =>
    rcases ends.of_error eq with ⟨refused, long, rfl⟩ | ⟨-, lost, -⟩
    · obtain ⟨cause, rfl⟩ := overflows_recordEnd _ _ e refused
      exact ⟨fun le => absurd le (Nat.not_le_of_lt long), fun _ => ⟨cause, add_of_append_error trusted eq⟩⟩
    · exact lost.bad.1.elim

theorem finish_exact (file : FileLike sink shows False) (building : Building shows old records state) :
    (Fits records → ∃ next, finish sink state = .ok () next) ∧
    (¬ Fits records → ∃ start length next,
      finish sink state = .error (.overflow (.position start length)) next) := by
  have ends := finish_ends file (.inl building)
  cases eq : finish sink state with
  | ok _ t => exact ⟨fun _ => ⟨t, rfl⟩, fun unfit => absurd (ends.of_ok eq).1 unfit⟩
  | error e t =>
    rcases (ends.of_error eq).1 with never | failed | ⟨unfit, start, length, rfl⟩
    · exact never.elim
    · exact absurd (building.trusted.symm.trans failed.1) Bool.false_ne_true
    · exact ⟨fun fits => absurd fits unfit, fun _ => ⟨start, length, t, rfl⟩⟩

theorem Books.fits_iff {builder : Builder} (books : Books records builder) :
    Fits records ↔ builder.position + 16 * builder.size ≤ Position.limit := by
  rw [Fits, books.position_eq, books.size_eq, ← Nat.mul_assoc]
  rfl

/-! ## Reached states -/

/-- What a builder answers, and what it has stored, whose books list the records `added`. -/
structure Limited (sink : Sink σ) (shows : σ → ByteArray → Nat → Prop) (old : ByteArray)
    (added : List Record) (state : Builder × σ) : Prop where
  add_ok_iff : ∀ record : Record, (∃ next, add sink record state = .ok () next) ↔
    state.1.failed = false ∧
      state.1.position + 8 + record.key.size + record.data.size ≤ Position.limit
  add_overflow : ∀ record : Record, state.1.failed = false →
    Position.limit < state.1.position + 8 + record.key.size + record.data.size →
    ∃ cause, add sink record state =
      .error (.overflow cause) ({ state.1 with failed := true }, state.2)
  finish_ok_iff : (∃ next, finish sink state = .ok () next) ↔
    state.1.failed = false ∧ state.1.position + 16 * state.1.size ≤ Position.limit
  finish_overflow : state.1.failed = false → Position.limit < state.1.position + 16 * state.1.size →
    ∃ start length next, finish sink state = .error (.overflow (.position start length)) next
  refused : state.1.failed = true →
    (∀ record, add sink record state = .error .aborted state) ∧ finish sink state = .error .aborted state
  books : Books added state.1
  tables : ∀ bucket scratch,
    SlotTable.ofEntries scratch ((Buckets.ofEntries state.1.entries).run bucket) =
        .ok (table added bucket) ∧
      ∃ slots, storedLength "hash table" (table added bucket).size = .ok slots ∧
        slots.toNat = (table added bucket).size
  exact : Exact added
  finished : ∀ next, finish sink state = .ok () next →
    (∃ offset, shows next.2 (Bytes.overwrite old 0 (ofRecords added)) offset) ∧
    ∀ bucket, (headerEntry added bucket).offset.toNat = tableStart added bucket.val ∧
      (headerEntry added bucket).slots.toNat = (table added bucket).size

theorem Limited.of_building (file : FileLike sink shows False)
    (building : Building shows old records state) : Limited sink shows old records state := by
  have books := (building_iff.1 building).toBooks
  have trusted := building.trusted
  have never : ∀ {p : Prop}, state.1.failed = true → p := fun failed =>
    absurd (trusted.symm.trans failed) Bool.false_ne_true
  have size : ∀ record : Record,
      state.1.position + 8 + record.key.size + record.data.size = state.1.position + record.storedSize := by
    intro record
    rw [Record.storedSize, recordHeaderSize, Pair.size]
    omega
  refine ⟨fun record => ?_, fun record _ => ?_, ?_, fun _ => ?_, never, books, books.tables,
    exact_of_within books.within, fun next eq => ?_⟩
  · obtain ⟨goes, overflows⟩ := add_exact file record building
    rw [size]
    refine ⟨fun well => ⟨trusted, Nat.le_of_not_lt fun long => ?_⟩, fun h => goes h.2⟩
    obtain ⟨next, eq⟩ := well
    obtain ⟨cause, eq'⟩ := overflows long
    rw [eq] at eq'
    cases eq'
  · rw [size]
    exact (add_exact file record building).2
  · obtain ⟨goes, overflows⟩ := finish_exact file building
    rw [← books.fits_iff]
    refine ⟨fun well => ⟨trusted, Decidable.byContradiction fun unfit => ?_⟩, fun h => goes h.2⟩
    obtain ⟨next, eq⟩ := well
    obtain ⟨start, length, last, eq'⟩ := overflows unfit
    rw [eq] at eq'
    cases eq'
  · intro long
    exact (finish_exact file building).2 fun fits => absurd (books.fits_iff.1 fits) (Nat.not_le_of_lt long)
  · obtain ⟨fits, -, written⟩ := (finish_ends file (.inl building)).of_ok eq
    exact ⟨written, Fits.header_exact fits⟩

theorem Limited.of_failed (books : Books records state.1) (failed : state.1.failed = true) :
    Limited sink shows old records state := by
  have never : ∀ {p : Prop}, state.1.failed = false → p := fun trusted =>
    absurd (trusted.symm.trans failed) Bool.false_ne_true
  have adding : ∀ record, add sink record state = .error .aborted state :=
    fun record => add_of_failed record failed
  have finishing : finish sink state = .error .aborted state := finish_of_failed failed
  refine ⟨fun record => ⟨fun well => ?_, fun h => never h.1⟩, fun _ => never,
    ⟨fun well => ?_, fun h => never h.1⟩, never, fun _ => ⟨adding, finishing⟩, books, books.tables,
    exact_of_within books.within, fun next eq => ?_⟩
  · obtain ⟨next, eq⟩ := well
    rw [adding] at eq
    cases eq
  · obtain ⟨next, eq⟩ := well
    rw [finishing] at eq
    cases eq
  · rw [finishing] at eq
    cases eq

/-- **The limit of 32 bits.** On a sink that is never at fault for good, every builder starts, and in
every state that it is brought into by additions it fails for want of positions only, just past the last
one, and leaves its sink alone when it turns a record away. No number is stored but the one that is
meant. -/
theorem exact_limit (file : FileLike sink shows False) {s : σ} {offset : Nat} (shown : shows s old offset)
    (capacity : Nat) (records : List Record) :
    ∃ t, start sink.logged capacity (#[], s) = .ok (fresh capacity) t ∧
      let run := performAll sink.logged (records.map .add) (fresh capacity, t)
      Limited sink.logged (fun state => shows state.2) old (accepted records run.1) run.2 := by
  have file := file.logged
  have started : Ends (start sink.logged capacity) (#[], s)
      (fun builder t => Building (fun state => shows state.2) old [] (builder, t))
      fun _ t => False ∧ Shown (fun state => shows state.2) t := start_ends file capacity shown
  obtain ⟨builder, t, began, building⟩ := started.exists_ok fun _ _ h => h.1
  obtain rfl := eq_fresh_of_start began
  refine ⟨t, began, ?_⟩
  rcases performAll_booked (file.takes old headerSize) records (building_iff.1 building) with
    ⟨-, all, booked⟩ | ⟨-, failed, later, -, stopped⟩
  · rw [List.nil_append] at booked
    dsimp only
    rw [all]
    exact .of_building file (building_iff.2 booked)
  · rw [List.nil_append] at stopped
    exact .of_failed stopped.toBooks stopped.failed_eq

theorem exact_limit_choppy :
    let records : List Record := [⟨"one".toUTF8, "1".toUTF8⟩, ⟨"two".toUTF8, "22".toUTF8⟩]
    MemorySink.ShowsMild choppySink .empty 0 ∧
    ∃ t, start MemorySink.calls.logged 10 (#[], choppySink) = .ok (fresh 10) t ∧
      let run := performAll MemorySink.calls.logged (records.map .add) (fresh 10, t)
      Limited MemorySink.calls.logged (fun state => MemorySink.ShowsMild state.2) .empty
        (accepted records run.1) run.2 := by
  have choppy : MemorySink.ShowsMild choppySink .empty 0 := ⟨rfl, rfl, rfl, by decide, rfl, rfl⟩
  exact ⟨choppy, exact_limit MemorySink.fileLike_mild choppy 10 _⟩

theorem recordsSize_replicate (count : Nat) (record : Record) :
    recordsSize (List.replicate count record) = count * record.storedSize := by
  simp [recordsSize]

/-- A builder that has turned a record away does not finish, though its tables would fit. -/
theorem finish_refused_within_limit :
    let record : Record := ⟨"k".toUTF8, Bytes.zeros 16777216⟩
    ∃ t, start MemorySink.calls 4096 .empty = .ok (fresh 4096) t ∧
      let reached := (performAll MemorySink.calls ((List.replicate 256 record).map .add) (fresh 4096, t)).2
      reached.1.position + 16 * reached.1.size ≤ Position.limit ∧
        finish MemorySink.calls reached = .error .aborted reached := by
  intro record
  have file := MemorySink.fileLike_mild
  obtain ⟨builder, t, began, building⟩ :=
    (start_ends file 4096 MemorySink.showsMild_empty).exists_ok fun _ _ h => h.1
  obtain rfl := eq_fresh_of_start began
  refine ⟨t, began, ?_⟩
  have size : record.storedSize = 16777225 := by
    simp only [record, Record.storedSize, Bytes.size_zeros]
    rfl
  rcases performAll_booked (file.takes .empty headerSize) (List.replicate 256 record)
    (building_iff.1 building) with ⟨-, -, booked⟩ | ⟨-, failed, later, cut, stopped⟩
  · -- all of them do not fit
    have long := booked.within
    rw [List.nil_append, recordsSize_replicate, size] at long
    exact absurd long (by decide)
  · rw [List.nil_append] at stopped
    obtain ⟨length, copies, -⟩ := List.append_eq_replicate_iff.1 cut.symm
    rw [List.length_cons] at length
    refine ⟨?_, finish_of_failed stopped.failed_eq⟩
    have position_eq := stopped.position_eq
    rw [copies, recordsSize_replicate, size] at position_eq
    rw [stopped.size_eq, position_eq, Position.limit, headerSize, Pair.size, bucketCount]
    omega

end ConstDb.Builder
