import ConstDb.Proofs.Books
import ConstDb.Proofs.Output

/-!
# The output of a builder

While it runs, a builder has put out the records behind the place of the header (`Building`), and in
the end the sink holds the image of the records (`run_ends`). A builder fails for two reasons only:
the image would be too long for 32-bit positions, or the sink fails. `imageOf_eq_ok_iff` is what that
means for a sink that does not fail.
-/

namespace ConstDb.Builder

open Effect Image OutBuffer

section output
variable {σ : Type} {sink : Sink σ} {shows : σ → ByteArray → Nat → Prop} {fragile : Prop}
variable {old written stream : ByteArray} {records : List Record} {state : Builder × σ}
variable {took broken : σ → ByteArray → Prop}

/-- `written` was put out behind the place of the header, and the position is counted along. -/
structure Written (shows : σ → ByteArray → Nat → Prop) (old written : ByteArray)
    (state : Builder × σ) : Prop where
  streamed : Streamed shows old headerSize written (state.1.output, state.2)
  position_eq : state.1.position = headerSize + written.size
  position_le : state.1.position ≤ Position.limit

/-- A builder that has taken just these records. -/
structure Building (shows : σ → ByteArray → Nat → Prop) (old : ByteArray) (records : List Record)
    (state : Builder × σ) : Prop where
  written : Written shows old (recordBytes records) state
  entries_eq : state.1.entries.toList = Image.entries records
  trusted : state.1.failed = false

/-- Such a builder, or one that has failed since. -/
def Kept (shows : σ → ByteArray → Nat → Prop) (old : ByteArray) (records : List Record)
    (state : Builder × σ) : Prop :=
  Building shows old records state ∨ state.1.failed = true ∧ Shown shows state.2

theorem Written.shown (h : Written shows old written state) : Shown shows state.2 := by
  obtain ⟨delivered, -, shown⟩ := h.streamed
  exact ⟨_, _, shown⟩

theorem Kept.shown (h : Kept shows old records state) : Shown shows state.2 := by
  rcases h with building | ⟨-, shown⟩
  · exact building.written.shown
  · exact shown

theorem Kept.of_shows {τ : Type} {shows' : τ → ByteArray → Nat → Prop} {builder : Builder} {s : σ}
    {t : τ} (h : Kept shows old records (builder, s))
    (same : ∀ content offset, shows s content offset → shows' t content offset) :
    Kept shows' old records (builder, t) := by
  rcases h with ⟨⟨⟨delivered, eq, shown⟩, position_eq, position_le⟩, entries_eq, trusted⟩ |
    ⟨failed, content, offset, shown⟩
  · exact .inl ⟨⟨⟨delivered, eq, same _ _ shown⟩, position_eq, position_le⟩, entries_eq, trusted⟩
  · exact .inr ⟨failed, content, offset, same _ _ shown⟩

/-! ## Pieces of output -/

theorem flush_sent (takes : sink.Takes took broken)
    (sent : Sent took stream (state.1.output, state.2)) :
    Ends (onOutput (OutBuffer.flush sink)) state
      (fun _ t => Sent took stream (t.1.output, t.2) ∧ t.1.output.pending = .empty)
      fun _ t => Lost broken stream (t.1.output, t.2) :=
  onOutput_ends (OutBuffer.flush_sent takes sent)

theorem putFlush_ends (file : FileLike sink shows fragile) (bytes : ByteArray)
    {content : ByteArray} {offset : Nat} (shown : shows state.2 content offset)
    (none : state.1.output.pending = .empty) :
    Ends (onOutput (OutBuffer.putFlush sink bytes)) state
      (fun _ t => shows t.2 (Bytes.overwrite content offset bytes) (offset + bytes.size))
      (fun _ t => fragile ∧ Shown shows t.2) := by
  have shown : shows (state.1.output, state.2).2 content offset := shown
  exact onOutput_ends (OutBuffer.putFlush_ends file bytes shown none)

theorem seek_ends (file : FileLike sink shows fragile) (position : Nat)
    {content : ByteArray} {offset : Nat} (shown : shows state.2 content offset)
    (none : state.1.output.pending = .empty) :
    Ends (onSink ((sink.seek position).adaptExcept .seek)) state
      (fun _ t => shows t.2 content position ∧ t.1.output.pending = .empty)
      (fun _ t => fragile ∧ Shown shows t.2) :=
  onSink_ends ((file.seek position shown).mono (fun _ _ h => ⟨h, none⟩) fun _ _ h => h)

theorem flushSink_ends (file : FileLike sink shows fragile)
    {content : ByteArray} {offset : Nat} (shown : shows state.2 content offset) :
    Ends (onSink (sink.flush.adaptExcept .io)) state (fun _ t => shows t.2 content offset)
      (fun _ t => fragile ∧ Shown shows t.2) :=
  onSink_ends (file.flush shown)

/-! ## Adding records -/

theorem building_iff : Building shows old records state ↔ Booked
    (fun s taken => shows s (Bytes.overwrite old headerSize taken) (headerSize + taken.size)) records
    state := by
  constructor
  · intro h
    obtain ⟨⟨streamed, position_eq, position_le⟩, entries_eq, trusted⟩ := h
    rw [size_recordBytes] at position_eq
    exact ⟨⟨entries_eq, position_eq, position_le⟩, streamed, trusted⟩
  · intro h
    obtain ⟨⟨entries_eq, position_eq, position_le⟩, sent, trusted⟩ := h
    rw [← size_recordBytes] at position_eq
    exact ⟨⟨sent, position_eq, position_le⟩, entries_eq, trusted⟩

theorem append_ends (file : FileLike sink shows fragile) (record : Record)
    (building : Building shows old records state) :
    Ends (append sink record) state (fun _ t => Building shows old (records ++ [record]) t)
      (fun _ t => (fragile ∨ Position.limit < headerSize + recordsSize (records ++ [record])) ∧
        Shown shows t.2) := by
  have booked := building_iff.1 building
  refine (append_booked (file.takes old headerSize) record booked).mono
    (fun _ _ booked => building_iff.2 booked) fun e t h => ?_
  rcases h with ⟨-, long, rfl⟩ | ⟨-, lost, -⟩
  · rw [booked.position_eq, Nat.add_assoc, ← recordsSize_singleton, ← recordsSize_append] at long
    exact ⟨.inr long, building.written.shown⟩
  · exact ⟨.inl lost.bad.1, lost.bad.2⟩

theorem add_ends (file : FileLike sink shows fragile) (record : Record)
    (kept : Kept shows old records state) :
    Ends (add sink record) state (fun _ t => Building shows old (records ++ [record]) t)
      (fun _ t => (fragile ∨ state.1.failed = true ∨
          Position.limit < headerSize + recordsSize (records ++ [record])) ∧
        t.1.failed = true ∧ Shown shows t.2) := by
  rcases kept with building | ⟨failed, shown⟩
  · have ends := append_ends file record building
    have trusted := building.trusted
    cases eq : append sink record state with
    | ok _ t => exact ends_of_ok (add_of_append_ok trusted eq) (ends.of_ok eq)
    | error e t =>
      obtain ⟨cause, shown⟩ := ends.of_error eq
      exact ends_of_error (add_of_append_error trusted eq) ⟨cause.imp_right .inr, rfl, shown⟩
  · exact ends_of_error (add_of_failed record failed) ⟨.inr (.inl failed), failed, shown⟩

theorem addAll_ends (file : FileLike sink shows fragile) : ∀ (more : List Record)
    {records : List Record} {state : Builder × σ}, Building shows old records state →
    Ends (addAll sink more) state (fun _ t => Building shows old (records ++ more) t)
      (fun _ t => (fragile ∨ Position.limit < headerSize + recordsSize (records ++ more)) ∧
        Shown shows t.2)
  | [], records, state, building => by
    rw [List.append_nil]
    exact ends_pure building
  | record :: more, records, state, building => by
    refine Ends.bind ((add_ends file record (.inl building)).mono ?_ ?_)
    · intro _ t building
      have ends := addAll_ends file more building
      rwa [List.append_assoc, List.singleton_append] at ends
    · intro e t h
      obtain ⟨cause, -, shown⟩ := h
      refine ⟨cause.imp_right fun cause => ?_, shown⟩
      rcases cause with failed | long
      · rw [building.trusted] at failed
        cases failed
      · rw [recordsSize_append] at long ⊢
        rw [recordsSize_singleton] at long
        rw [recordsSize_cons]
        omega

/-! ## Putting out the tables -/

/-- A failure at the end of something that cannot be stored: it lies past the last position. -/
def PastLimit (e : DbError) : Prop := ∃ position length, e = .overflow (.position position length)

theorem advance_ends (length : Nat) : Ends (advance length) state
    (fun _ t => t = ({ state.1 with position := state.1.position + length }, state.2) ∧
      state.1.position + length ≤ Position.limit)
    (fun e t => Position.limit < state.1.position + length ∧ PastLimit e ∧ t = state) := by
  refine Ends.bind (ends_get ?_)
  refine Ends.bind (ends_ofExcept (fun position eq => ?_) fun e eq => ?_)
  · obtain ⟨rfl, le⟩ := Position.advance_eq_ok_iff.1 eq
    exact ends_modify ⟨rfl, le⟩
  · unfold Position.advance at eq
    split at eq
    · cases eq
    · next long =>
      cases eq
      exact ⟨Nat.lt_of_not_le long, ⟨_, _, rfl⟩, rfl⟩

/-- The bytes `written` are sent behind the place of the header, and the position is counted along. -/
structure Placed (took : σ → ByteArray → Prop) (written : ByteArray) (state : Builder × σ) : Prop where
  sent : Sent took written (state.1.output, state.2)
  position_eq : state.1.position = headerSize + written.size
  position_le : state.1.position ≤ Position.limit

theorem Booked.placed (booked : Booked took records state) : Placed took (recordBytes records) state := by
  refine ⟨booked.sent, ?_, booked.position_le⟩
  rw [booked.position_eq, size_recordBytes]

/-- How putting out `stream` comes to nothing: it runs past the limit, and what is sent by then is good, or
the sink breaks before the end. -/
def Breaks (took broken : σ → ByteArray → Prop) (stream : ByteArray) (e : DbError) (state : Builder × σ) :
    Prop :=
  (Position.limit < headerSize + stream.size ∧ PastLimit e ∧
      ∃ front, Sent took front (state.1.output, state.2)) ∨
    Lost broken stream (state.1.output, state.2)

theorem Breaks.append_right {stream : ByteArray} {e : DbError} (breaks : Breaks took broken stream e state)
    (more : ByteArray) : Breaks took broken (stream ++ more) e state := by
  rcases breaks with ⟨long, past⟩ | lost
  · refine .inl ⟨?_, past⟩
    rw [ByteArray.size_append]
    omega
  · exact .inr (lost.append_right more)

theorem putSlots_sent (takes : sink.Takes took broken) : ∀ (slots : List Slot)
    {written : ByteArray} {state : Builder × σ}, Placed took written state →
    Ends (putSlots sink slots) state (fun _ t => Placed took (written ++ slotBytes slots) t)
      (Breaks took broken (written ++ slotBytes slots))
  | [], written, state, h => by
    have none : written ++ slotBytes [] = written := ByteArray.append_empty
    rw [none]
    exact ends_pure h
  | slot :: slots, written, state, h => by
    have cut : written ++ slotBytes (slot :: slots) = written ++ slot.encode ++ slotBytes slots :=
      ByteArray.append_assoc.symm
    rw [cut]
    refine Ends.bind ((put_sent takes slot.encode h.sent).mono ?_
      fun _ _ h => .inr (h.2.1.append_right _))
    intro _ state h
    obtain ⟨⟨output, array, position, failed⟩, s⟩ := state
    obtain ⟨sent, same⟩ := h
    obtain ⟨-, rfl, rfl, rfl⟩ := Builder.mk.inj same
    have position_eq : state.1.position + Pair.size = headerSize + (written ++ slot.encode).size := by
      rw [ByteArray.size_append, Slot.size_encode, ← Nat.add_assoc, ← h.position_eq]
    refine Ends.bind ((advance_ends _).mono ?_ ?_)
    · intro _ _ h
      obtain ⟨rfl, le⟩ := h
      exact putSlots_sent takes slots ⟨sent, position_eq, le⟩
    · -- the slot is sent already when its end turns out to be past the limit
      intro _ _ h
      obtain ⟨long, past, rfl⟩ := h
      rw [position_eq] at long
      exact Breaks.append_right (.inl ⟨long, past, _, sent⟩) _

theorem ofEntries_run {array : Array Slot} (array_eq : array.toList = Image.entries records)
    (scratch : Array Slot) (bucket : Bucket) :
    SlotTable.ofEntries scratch ((Buckets.ofEntries array).run bucket) =
      (storedLength "hash table" (table records bucket).size).map fun _ => table records bucket := by
  rw [SlotTable.ofEntries_eq, ← Array.length_toList, Buckets.toList_run, array_eq, size_table]
  rfl

theorem putTables_sent (takes : sink.Takes took broken) {array : Array Slot}
    (array_eq : array.toList = Image.entries records) (buckets : List Bucket) {index : Nat}
    {header : ByteArray} {scratch : Array Slot}
    (consecutive : buckets.map Fin.val = List.range' index buckets.length)
    (h : Placed took written state)
    (start : headerSize + written.size = tableStart records index) :
    Ends (putTables sink (Buckets.ofEntries array) buckets header scratch) state
      (fun whole t => whole = header ++ headerBytes records buckets ∧
        Placed took (written ++ tableBytes records buckets) t)
      (Breaks took broken (written ++ tableBytes records buckets)) := by
  -- `start` carries the induction: the next table starts where this one ends
  induction buckets generalizing index written header scratch state with
  | nil =>
    have none : headerBytes records [] = .empty := rfl
    have none' : tableBytes records [] = .empty := rfl
    rw [none, none', ByteArray.append_empty, ByteArray.append_empty]
    exact ends_pure ⟨rfl, h⟩
  | cons bucket rest ih =>
    rw [List.map_cons, List.length_cons, List.range'_succ, List.cons.injEq] at consecutive
    obtain ⟨rfl, consecutive⟩ := consecutive
    have cut : written ++ tableBytes records (bucket :: rest) =
        written ++ slotBytes (table records bucket).toList ++ tableBytes records rest := by
      rw [tableBytes_cons, ByteArray.append_assoc]
    have size : (slotBytes (table records bucket).toList).size =
        Pair.size * (table records bucket).size := by rw [size_slotBytes, Array.length_toList]
    have fits : (table records bucket).size ≤ Position.limit := by
      have behind := tableStart_mono records (Nat.zero_le bucket.val)
      rw [tableStart_zero, ← start, ← h.position_eq] at behind
      exact size_table_le (Nat.le_trans behind h.position_le) bucket
    unfold putTables
    rw [ofEntries_run array_eq, cut]
    rw [storedLength_of_le fits]
    refine Ends.bind (ends_ofExcept (fun slots eq => ?_) fun e eq => by cases eq)
    obtain rfl := Except.ok.inj eq
    rw [storedLength_of_le fits]
    refine Ends.bind (ends_ofExcept (fun slots eq => ?_) fun e eq => by cases eq)
    obtain rfl := Except.ok.inj eq
    refine Ends.bind (ends_get ?_)
    refine Ends.bind ((putSlots_sent takes _ h).mono ?_ fun _ _ breaks => breaks.append_right _)
    intro _ t after
    have behind : headerSize + (written ++ slotBytes (table records bucket).toList).size =
        tableStart records (bucket.val + 1) := by
      rw [tableStart_succ, ByteArray.size_append, size, ← Nat.add_assoc, start]
    refine (ih consecutive after behind).mono ?_ fun _ _ breaks => breaks
    intro _ t last
    obtain ⟨rfl, last⟩ := last
    refine ⟨?_, last⟩
    rw [h.position_eq, start, ByteArray.append_assoc]
    rfl

/-! ## Index and header -/

/-- Puts out all that goes behind the records, and answers the header. -/
def putIndex (sink : Sink σ) : Effect DbError (Builder × σ) ByteArray := do
  let (builder, _) ← get
  let header ← putTables sink (Buckets.ofEntries builder.entries) (List.finRange bucketCount) .empty #[]
  onOutput (OutBuffer.flush sink)
  return header

/-- Puts the header before all that is out already. -/
def putHeader (sink : Sink σ) (header : ByteArray) : Effect DbError (Builder × σ) Unit := do
  onSink ((sink.seek 0).adaptExcept .seek)
  onOutput (OutBuffer.putFlush sink header)
  onSink (sink.flush.adaptExcept .io)

theorem finish_of_trusted (trusted : state.1.failed = false) :
    finish sink state = (putIndex sink >>= putHeader sink) state := by
  have asked : (get : Effect DbError (Builder × σ) _) state = .ok state state := rfl
  rw [finish, putIndex, bind_assoc, bind_apply, bind_apply, asked]
  dsimp only
  rw [trusted, if_neg Bool.false_ne_true]
  simp only [bind_assoc, pure_bind]
  rfl

theorem finish_of_failed (failed : state.1.failed = true) :
    finish sink state = .error .aborted state := by
  have asked : (get : Effect DbError (Builder × σ) _) state = .ok state state := rfl
  rw [finish, bind_apply, asked]
  dsimp only
  rw [if_pos failed]
  rfl

/-- When the index is out, the sink has taken all of the image but the header. -/
theorem putIndex_sent (takes : sink.Takes took broken) (booked : Booked took records state) :
    Ends (putIndex sink) state
      (fun header t => header = Image.header records ∧ Fits records ∧ t.1.output.pending = .empty ∧
        took t.2 (body records))
      fun e t => (¬ Fits records ∧ PastLimit e ∧ ∃ front, Sent took front (t.1.output, t.2)) ∨
        Lost broken (body records) (t.1.output, t.2) := by
  have start : headerSize + (recordBytes records).size = tableStart records 0 := by
    rw [size_recordBytes, tableStart_zero]
  have consecutive : (List.finRange bucketCount).map Fin.val =
      List.range' 0 (List.finRange bucketCount).length := by
    rw [List.length_finRange, List.map_coe_finRange_eq_range, List.range_eq_range']
  have all : recordBytes records ++ tableBytes records (List.finRange bucketCount) = body records := rfl
  have whole : ByteArray.empty ++ headerBytes records (List.finRange bucketCount) =
      Image.header records := ByteArray.empty_append
  have tables : Ends (putTables sink (Buckets.ofEntries state.1.entries) (List.finRange bucketCount)
      .empty #[]) state _ _ := putTables_sent takes booked.entries_eq _ consecutive booked.placed start
  rw [all, whole] at tables
  refine Ends.bind (ends_get ?_)
  refine Ends.bind (tables.mono ?_ ?_)
  · intro _ t h
    obtain ⟨rfl, placed⟩ := h
    have fits : Fits records := by
      rw [fits_iff, size_ofRecords, ← size_body, ← placed.position_eq]
      exact placed.position_le
    refine Ends.bind ((flush_sent takes placed.sent).mono ?_ fun _ _ lost => .inr lost)
    intro _ t h
    exact ends_pure ⟨rfl, fits, h.2, h.1.whole h.2⟩
  · intro e t breaks
    refine breaks.imp_left fun past => ⟨?_, past.2⟩
    rw [fits_iff, size_ofRecords, ← size_body]
    exact Nat.not_le_of_lt past.1

/-! ## Finishing -/

theorem putHeader_ends (file : FileLike sink shows fragile) (header : ByteArray) {content : ByteArray}
    {offset : Nat} (shown : shows state.2 content offset) (none : state.1.output.pending = .empty) :
    Ends (putHeader sink header) state
      (fun _ t => shows t.2 (Bytes.overwrite content 0 header) (0 + header.size))
      fun _ t => fragile ∧ Shown shows t.2 := by
  refine Ends.bind ((seek_ends file 0 shown none).mono ?_ fun _ _ h => h)
  intro _ t h
  refine Ends.bind ((putFlush_ends file header h.1 h.2).mono ?_ fun _ _ h => h)
  exact fun _ t shown => flushSink_ends file shown

theorem finish_ends (file : FileLike sink shows fragile) (kept : Kept shows old records state) :
    Ends (finish sink) state
      (fun _ t => Fits records ∧ state.1.failed = false ∧
        ∃ offset, shows t.2 (Bytes.overwrite old 0 (ofRecords records)) offset)
      (fun e t => (fragile ∨ state.1.failed = true ∧ e = .aborted ∨ ¬ Fits records ∧ PastLimit e) ∧
        Shown shows t.2) := by
  rcases kept with building | ⟨failed, shown⟩
  · have booked := building_iff.1 building
    refine Ends.of_eq (Ends.bind ((putIndex_sent (file.takes old headerSize) booked).mono ?_ ?_))
      (finish_of_trusted building.trusted)
    · intro _ t h
      obtain ⟨rfl, fits, none, shown⟩ := h
      refine (putHeader_ends file _ shown none).mono (fun _ t shown => ?_) fun _ _ h => ⟨.inl h.1, h.2⟩
      have front := Bytes.overwrite_front old (Image.header records) (body records)
      rw [size_header] at front
      rw [front] at shown
      exact ⟨fits, building.trusted, _, shown⟩
    · intro e t h
      rcases h with ⟨unfit, past, front, delivered, -, shown⟩ | lost
      · exact ⟨.inr (.inr ⟨unfit, past⟩), _, _, shown⟩
      · exact ⟨.inl lost.bad.1, lost.bad.2⟩
  · refine ends_of_error (finish_of_failed failed) ?_
    exact ⟨.inr (.inl ⟨failed, rfl⟩), shown⟩

/-! ## Whole databases -/

theorem building_fresh (capacity : Nat) {s : σ} (shown : shows s old headerSize) :
    Building shows old [] (fresh capacity, s) := by
  have le : headerSize ≤ Position.limit := by decide
  refine ⟨⟨⟨.empty, rfl, ?_⟩, rfl, le⟩, rfl, rfl⟩
  rwa [Bytes.overwrite_empty]

theorem start_ends (file : FileLike sink shows fragile) (capacity : Nat) {s : σ} {offset : Nat}
    (shown : shows s old offset) :
    Ends (start sink capacity) s (fun builder t => Building shows old [] (builder, t))
      (fun _ t => fragile ∧ Shown shows t) := by
  refine Ends.bind (Ends.adaptExcept ((file.seek headerSize shown).mono ?_ fun _ _ h => h))
  exact fun _ _ shown => ends_pure (building_fresh capacity shown)

section calls
variable {capacity : Nat} {s t : σ} {builder : Builder} {e : DbError}

theorem run_of_start_error (records : List Record) (eq : start sink capacity s = .error e t) :
    run sink capacity records s = .error e t := by
  simp only [run, eq]

theorem run_of_ok {last : Builder × σ} (eq : start sink capacity s = .ok builder t)
    (built : (do addAll sink records; finish sink : Effect DbError _ Unit) (builder, t) = .ok () last) :
    run sink capacity records s = .ok () last.2 := by
  simp only [run, eq, built]

theorem run_of_error {last : Builder × σ} (eq : start sink capacity s = .ok builder t)
    (built : (do addAll sink records; finish sink : Effect DbError _ Unit) (builder, t) =
      .error e last) : run sink capacity records s = .error e last.2 := by
  simp only [run, eq, built]

end calls

/-- **The output of a builder.** What a build leaves in a sink is the image of the records, over
what the sink held before. -/
theorem run_ends (file : FileLike sink shows fragile) (capacity : Nat) (records : List Record)
    {s : σ} {offset : Nat} (shown : shows s old offset) :
    Ends (run sink capacity records) s
      (fun _ t => Fits records ∧
        ∃ offset, shows t (Bytes.overwrite old 0 (ofRecords records)) offset)
      (fun _ t => (fragile ∨ ¬ Fits records) ∧ Shown shows t) := by
  have whole : ∀ builder t, Building shows old [] (builder, t) →
      Ends (do addAll sink records; finish sink) (builder, t)
        (fun _ t => Fits records ∧
          ∃ offset, shows t.2 (Bytes.overwrite old 0 (ofRecords records)) offset)
        (fun _ t => (fragile ∨ ¬ Fits records) ∧ Shown shows t.2) := by
    intro builder t building
    refine Ends.bind ((addAll_ends file records building).mono ?_ ?_)
    · intro _ t building
      rw [List.nil_append] at building
      refine (finish_ends file (.inl building)).mono (fun _ _ h => ⟨h.1, h.2.2⟩) ?_
      rw [building.trusted]
      intro _ _ h
      refine ⟨h.1.imp_right fun cause => ?_, h.2⟩
      exact (cause.resolve_left fun failed => Bool.false_ne_true failed.1).1
    · intro _ t h
      obtain ⟨cause, shown⟩ := h
      refine ⟨cause.imp_right fun long fits => ?_, shown⟩
      rw [List.nil_append] at long
      unfold Fits at fits
      omega
  have started := start_ends file capacity shown
  cases eq : start sink capacity s with
  | error e t =>
    have failed := started.of_error eq
    exact ends_of_error (run_of_start_error records eq) ⟨.inl failed.1, failed.2⟩
  | ok builder t =>
    have ends := whole builder t (started.of_ok eq)
    cases built : (do addAll sink records; finish sink : Effect DbError (Builder × σ) Unit)
        (builder, t) with
    | ok _ t => exact ends_of_ok (run_of_ok eq built) (ends.of_ok built)
    | error e t => exact ends_of_error (run_of_error eq built) (ends.of_error built)

/-- After a build that did not fail the sink holds the image, and what it held before shows only
behind that. -/
theorem run_image (file : FileLike sink shows fragile) {capacity offset : Nat} {records : List Record}
    {s t : σ} (start : shows s old offset) (built : run sink capacity records s = .ok () t) :
    Fits records ∧ ∃ offset, shows t (ofRecords records ++
      old.extract (ofRecords records).size old.size) offset := by
  obtain ⟨fits, offset, shown⟩ := (run_ends file capacity records start).of_ok built
  rw [Bytes.overwrite_eq (Nat.zero_le _), Bytes.extract_eq_empty (Nat.min_le_left ..),
    ByteArray.empty_append, Nat.zero_add] at shown
  exact ⟨fits, offset, shown⟩

end output

/-- A sink in memory that does not fail takes just those databases that fit. -/
theorem imageOf_eq_ok_iff {capacity : Nat} {records : List Record} {bytes : ByteArray} :
    imageOf capacity records = .ok bytes ↔ Fits records ∧ bytes = ofRecords records := by
  have ends := run_ends (MemorySink.fileLike True) capacity records (MemorySink.shows_empty True)
  unfold imageOf
  cases eq : run MemorySink.calls capacity records .empty with
  | ok _ sink =>
    obtain ⟨fits, _, -, content, -⟩ := ends.of_ok eq
    rw [Bytes.overwrite_zero (by simp)] at content
    simp [fits, content, eq_comm]
  | error e sink =>
    have unfit : ¬ Fits records := (ends.of_error eq).1.resolve_left (not_not.2 trivial)
    simp [unfit]

end ConstDb.Builder
