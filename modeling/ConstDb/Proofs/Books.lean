import ConstDb.Builder
import ConstDb.Proofs.Image
import ConstDb.Proofs.Stream

/-!
# The books of a builder

A builder counts its position and notes its entries in memory, while the bytes of the records are on
their way through a buffer. The books agree with the bytes (`Booked`) until an addition fails: then
they leave out the record that failed, of which some bytes may be out already (`append_booked`).
-/

namespace ConstDb.Builder

open Effect Image OutBuffer

variable {σ : Type} {sink : Sink σ} {took broken : σ → ByteArray → Prop}
variable {stream : ByteArray} {records : List Record} {state : Builder × σ}

/-- The books say that just these records were added. -/
structure Books (records : List Record) (builder : Builder) : Prop where
  entries_eq : builder.entries.toList = Image.entries records
  position_eq : builder.position = headerSize + recordsSize records
  position_le : builder.position ≤ Position.limit

/-- So they say, and the bytes of the records are sent. -/
structure Booked (took : σ → ByteArray → Prop) (records : List Record) (state : Builder × σ) : Prop
    extends Books records state.1 where
  sent : Sent took (recordBytes records) (state.1.output, state.2)
  trusted : state.1.failed = false

theorem booked_fresh (capacity : Nat) {s : σ} (begins : took s .empty) :
    Booked took [] (fresh capacity, s) := by
  have le : headerSize ≤ Position.limit := by decide
  exact ⟨⟨rfl, rfl, le⟩, sent_of_took begins rfl, rfl⟩

theorem Books.of_same {builder other : Builder} (books : Books records builder)
    (entries_eq : other.entries = builder.entries) (position_eq : other.position = builder.position) :
    Books records other := by
  obtain ⟨entries, position, le⟩ := books
  rw [← entries_eq] at entries
  rw [← position_eq] at position le
  exact ⟨entries, position, le⟩

theorem Books.within {builder : Builder} (books : Books records builder) :
    headerSize + recordsSize records ≤ Position.limit := by
  rw [← books.position_eq]
  exact books.position_le

theorem Books.size_eq {builder : Builder} (books : Books records builder) :
    builder.size = records.length := by
  rw [Builder.size, ← Array.length_toList, books.entries_eq, length_entries]

/-- No position in the books is a wrapped one. -/
theorem Books.entry {builder : Builder} (books : Books records builder) {index : Nat} {record : Record}
    (at_index : records[index]? = some record) :
    ∃ position, builder.entries[index]? = some ⟨.ofKey record.key, position⟩ ∧
      position.toNat = recordStart records index := by
  refine ⟨(recordStart records index).toUInt32, ?_, toNat_recordStart books.within index⟩
  rw [← Array.getElem?_toList, books.entries_eq, getElem?_entries, at_index, Option.map_some]

/-! ## Pieces of output -/

theorem onOutput_ends {α : Type} {action : Effect IoError (OutBuffer × σ) α}
    {post : α → Builder × σ → Prop} {failed : DbError → Builder × σ → Prop}
    (ends : Ends action (state.1.output, state.2)
      (fun a t => post a ({ state.1 with output := t.1 }, t.2))
      fun e t => failed (.io e) ({ state.1 with output := t.1 }, t.2)) :
    Ends (onOutput action) state post failed :=
  Ends.within (Ends.adaptExcept ends)

theorem onSink_ends {α : Type} {action : Effect IoError σ α} {cause : IoError → DbError}
    {post : α → Builder × σ → Prop} {failed : DbError → Builder × σ → Prop}
    (ends : Ends action state.2 (fun a s => post a (state.1, s)) fun e s => failed (cause e) (state.1, s)) :
    Ends (onSink (action.adaptExcept cause)) state post failed := by
  unfold onSink onSecond
  exact Ends.within (Ends.adaptExcept ends)

theorem put_sent (takes : sink.Takes took broken) (bytes : ByteArray)
    (sent : Sent took stream (state.1.output, state.2)) :
    Ends (onOutput (OutBuffer.put sink bytes)) state
      (fun _ t => Sent took (stream ++ bytes) (t.1.output, t.2) ∧
        t.1 = { state.1 with output := t.1.output })
      fun e t => (∃ cause, e = .io cause) ∧ Lost broken (stream ++ bytes) (t.1.output, t.2) ∧
        t.1 = { state.1 with output := t.1.output } := by
  apply onOutput_ends
  exact (OutBuffer.put_sent takes bytes sent).mono (fun _ _ h => ⟨h, rfl⟩) fun e _ h => ⟨⟨e, rfl⟩, h, rfl⟩

/-- The three pieces of a record are put out. Whichever of them fails, what is sent is a part of the
record. -/
theorem put_record_sent (takes : sink.Takes took broken) (record : Record)
    {rest : Effect DbError (Builder × σ) Unit} {post : Unit → Builder × σ → Prop}
    {failed : DbError → Builder × σ → Prop}
    (sent : Sent took stream (state.1.output, state.2))
    (breaks : ∀ e t, (∃ cause, e = .io cause) →
      Lost broken (stream ++ record.encode) (t.1.output, t.2) →
      t.1 = { state.1 with output := t.1.output } → failed e t)
    (last : ∀ t, Sent took (stream ++ record.encode) (t.1.output, t.2) →
      t.1 = { state.1 with output := t.1.output } → Ends rest t post failed) :
    Ends (do
      onOutput (OutBuffer.put sink record.header)
      onOutput (OutBuffer.put sink record.key)
      onOutput (OutBuffer.put sink record.data)
      rest) state post failed := by
  have whole : stream ++ record.encode = stream ++ record.header ++ record.key ++ record.data := by
    simp only [Record.encode, ByteArray.append_assoc]
  rw [whole] at breaks last
  refine Ends.bind ((put_sent takes record.header sent).mono ?_ ?_)
  · intro _ t₁ h
    obtain ⟨sent, same₁⟩ := h
    refine Ends.bind ((put_sent takes record.key sent).mono ?_ ?_)
    · intro _ t₂ h
      obtain ⟨sent, same₂⟩ := h
      refine Ends.bind ((put_sent takes record.data sent).mono ?_ ?_)
      · exact fun _ t₃ h => last t₃ h.1 (by rw [h.2, same₂, same₁])
      · exact fun e t₃ h => breaks e t₃ h.1 h.2.1 (by rw [h.2.2, same₂, same₁])
    · exact fun e t₂ h => breaks e t₂ h.1 (h.2.1.append_right _) (by rw [h.2.2, same₁])
  · exact fun e t₁ h => breaks e t₁ h.1 ((h.2.1.append_right _).append_right _) h.2.2

/-! ## Adding records -/

theorem recordEnd_eq_ok_iff {position stop : Nat} {record : Record} :
    recordEnd position record = .ok stop ↔
      stop = position + record.storedSize ∧ stop ≤ Position.limit := by
  unfold recordEnd Record.storedSize
  simp only [except_bind_eq_ok_iff, Position.advance_eq_ok_iff]
  constructor
  · intro h
    obtain ⟨-, -, -, -, _, ⟨rfl, -⟩, _, ⟨rfl, -⟩, rfl, le⟩ := h
    exact ⟨by omega, le⟩
  · intro h
    obtain ⟨rfl, le⟩ := h
    exact ⟨_, storedLength_of_le (by omega), _, storedLength_of_le (by omega), _, ⟨rfl, by omega⟩, _,
      ⟨rfl, by omega⟩, by omega, le⟩

/-- A record that does not fit is turned away before any of it is out, or the sink breaks while its
bytes are under way. -/
theorem append_booked (takes : sink.Takes took broken) (record : Record)
    (booked : Booked took records state) :
    Ends (append sink record) state (fun _ t => Booked took (records ++ [record]) t)
      fun e t =>
        (recordEnd state.1.position record = .error e ∧
          Position.limit < state.1.position + record.storedSize ∧ t = state) ∨
        (∃ cause, e = .io cause) ∧ Lost broken (recordBytes (records ++ [record])) (t.1.output, t.2) ∧
          t.1 = { state.1 with output := t.1.output } := by
  obtain ⟨⟨entries_eq, position_eq, position_le⟩, sent, trusted⟩ := booked
  have bytes : recordBytes records ++ record.encode = recordBytes (records ++ [record]) := by
    rw [recordBytes_append, recordBytes_singleton]
  refine Ends.bind (ends_get ?_)
  refine Ends.bind (ends_ofExcept (fun stop eq => ?_) fun e eq => ?_)
  · obtain ⟨rfl, le⟩ := recordEnd_eq_ok_iff.1 eq
    refine put_record_sent takes record sent (fun e t io lost same => ?_) fun t sent same => ?_
    · rw [bytes] at lost
      exact .inr ⟨io, lost, same⟩
    · obtain ⟨⟨output, array, position, failed⟩, s⟩ := t
      obtain ⟨-, rfl, rfl, rfl⟩ := Builder.mk.inj same
      rw [bytes] at sent
      refine ends_modify ⟨⟨?_, ?_, le⟩, sent, trusted⟩
      · rw [entries_concat, ← entries_eq, ← position_eq]
        exact Array.toList_push ..
      · rw [recordsSize_append, recordsSize_singleton, ← Nat.add_assoc, ← position_eq]
        rfl
  · refine .inl ⟨eq, Nat.lt_of_not_le fun le => ?_, rfl⟩
    rw [recordEnd_eq_ok_iff.2 ⟨rfl, le⟩] at eq
    cases eq

section add
variable {record : Record} {t : Builder × σ} {e : DbError}

theorem add_of_failed (record : Record) (failed : state.1.failed = true) :
    add sink record state = .error .aborted state := by
  simp [add, failed]

theorem add_of_append_ok (trusted : state.1.failed = false)
    (eq : append sink record state = .ok () t) : add sink record state = .ok () t := by
  simp [add, trusted, eq]

theorem add_of_append_error (trusted : state.1.failed = false)
    (eq : append sink record state = .error e t) :
    add sink record state = .error e ({ t.1 with failed := true }, t.2) := by
  simp [add, trusted, eq]

/-- How a builder stands that has stopped at a record: the books leave it out, and of its bytes some
may be out. -/
structure Stopped (took broken : σ → ByteArray → Prop) (records : List Record) (record : Record)
    (state : Builder × σ) : Prop extends Books records state.1 where
  failed_eq : state.1.failed = true
  left : Sent took (recordBytes records) (state.1.output, state.2) ∨
    Lost broken (recordBytes (records ++ [record])) (state.1.output, state.2)

theorem add_booked (takes : sink.Takes took broken) (record : Record)
    (booked : Booked took records state) :
    Ends (add sink record) state (fun _ t => Booked took (records ++ [record]) t)
      fun _ t => Stopped took broken records record t := by
  have ends := append_booked takes record booked
  cases eq : append sink record state with
  | ok _ t => exact ends_of_ok (add_of_append_ok booked.trusted eq) (ends.of_ok eq)
  | error e t =>
    refine ends_of_error (add_of_append_error booked.trusted eq) ?_
    rcases ends.of_error eq with ⟨-, -, rfl⟩ | ⟨-, lost, same⟩
    · exact ⟨booked.toBooks.of_same rfl rfl, rfl, .inl booked.sent⟩
    · exact ⟨booked.toBooks.of_same (by rw [same]) (by rw [same]), rfl, .inr lost⟩

end add

end ConstDb.Builder
