import ConstDb.Proofs.RoundTrip

/-!
# Damage that a lookup does not see

A lookup of a key depends on three things in a file: the header entry of the key's bucket, the table of
that bucket, and the records with the key's hash. `Spares` says that damage leaves these alone. Main
statement: `contained_of_run`.
-/

namespace ConstDb

open Lookup

/-! ## Files that agree in a range -/

namespace Bytes

/-- Two files hold the same bytes from `position` on, `length` of them. -/
def AgreeOn (first second : ByteArray) (position length : Nat) : Prop :=
  first.extract position (position + length) = second.extract position (position + length)

variable {first second piece : ByteArray} {position length : Nat}

theorem AgreeOn.inner (agree : AgreeOn first second position length) {offset count : Nat}
    (inside : offset + count ≤ length) : AgreeOn first second (position + offset) count := by
  have cut : ∀ bytes : ByteArray, bytes.extract (position + offset) (position + offset + count) =
      (bytes.extract position (position + length)).extract offset (offset + count) := by
    intro bytes
    rw [ByteArray.extract_extract, Nat.min_eq_left (by omega), Nat.add_assoc]
  unfold AgreeOn at agree ⊢
  rw [cut first, cut second, agree]

theorem agreeOn_extract (bytes : ByteArray) {count : Nat} (inside : position + length ≤ count) :
    AgreeOn bytes (bytes.extract 0 count) position length := by
  unfold AgreeOn
  rw [ByteArray.extract_extract, Nat.zero_add, Nat.zero_add, Nat.min_eq_left inside]

theorem StandsAt.of_agreeOn (stands : StandsAt first position piece) (some : 0 < piece.size)
    (agree : AgreeOn first second position piece.size) : StandsAt second position piece := by
  obtain ⟨-, eq⟩ := stands
  unfold AgreeOn at agree
  rw [eq] at agree
  have size := congrArg ByteArray.size agree
  rw [ByteArray.size_extract] at size
  exact ⟨by omega, agree.symm⟩

end Bytes

/-! ## Damage elsewhere -/

/-- The damage done to a file of these records spares what belongs to the key. -/
structure Spares (records : List Record) (key intact damaged : ByteArray) : Prop where
  entry : Bytes.AgreeOn intact damaged (TableRef.position (Hash.ofKey key).bucket) Pair.size
  table : Bytes.AgreeOn intact damaged
    (Bytes.headerEntry intact (Hash.ofKey key).bucket).offset.toNat
    (Pair.size * (Bytes.headerEntry intact (Hash.ofKey key).bucket).slots.toNat)
  record : ∀ {place record}, records[place]? = some record →
    Hash.ofKey record.key = Hash.ofKey key →
    Bytes.AgreeOn intact damaged (recordStart records place) record.storedSize

namespace Image

variable {records : List Record} {key bytes rest : ByteArray}

theorem Fits.intact_of_spares (fits : Fits records)
    (spares : Spares records key (ofRecords records ++ rest) bytes) : Intact records key bytes := by
  obtain ⟨entry, slots, record⟩ := spares
  have intact := intact_append records key rest
  rw [headerEntry_append, fits.offset_eq, fits.slots_eq] at slots
  refine ⟨?_, fun {index slot} at_index => ?_, fun {place other} at_place own => ?_⟩
  · refine intact.entry.of_agreeOn ?_ ?_
    · rw [TableRef.size_encode]
      decide
    · rwa [TableRef.size_encode]
  · obtain ⟨lt, -⟩ := Array.getElem?_eq_some_iff.1 at_index
    have inside : Pair.size * index + Pair.size ≤
        Pair.size * (table records (Hash.ofKey key).bucket).size := by
      rw [← Nat.mul_succ]
      exact Nat.mul_le_mul_left _ lt
    refine (intact.slot at_index).of_agreeOn ?_ ?_
    · rw [Slot.size_encode]
      decide
    · rw [Slot.size_encode]
      exact slots.inner inside
  · refine (intact.record at_place own).of_agreeOn ?_ ?_
    · rw [Record.size_encode, Record.storedSize, recordHeaderSize, Pair.size]
      omega
    · rw [Record.size_encode]
      exact record at_place own

/-- Cutting a file off behind the table of its bucket spares a key. -/
theorem Fits.spares_cut (fits : Fits records) {count : Nat}
    (behind : tableStart records ((Hash.ofKey key).bucket.val + 1) ≤ count) :
    Spares records key (ofRecords records ++ rest) ((ofRecords records ++ rest).extract 0 count) := by
  have start := tableStart_mono records (Nat.zero_le ((Hash.ofKey key).bucket.val + 1))
  rw [tableStart_zero] at start
  have header : TableRef.position (Hash.ofKey key).bucket + Pair.size ≤ headerSize := by
    rw [TableRef.position, ← Nat.succ_mul]
    exact Nat.mul_le_mul_right _ (Hash.ofKey key).bucket.isLt
  refine ⟨Bytes.agreeOn_extract _ (by omega), ?_, fun {place record} at_place _ => ?_⟩
  · rw [headerEntry_append]
    refine Bytes.agreeOn_extract _ (Nat.le_trans (Nat.le_of_eq ?_) behind)
    exact fits.stop_eq _
  · have before := recordStart_le records (place + 1)
    rw [recordStart_succ at_place] at before
    exact Bytes.agreeOn_extract _ (by omega)

end Image

/-- **Faults are contained.** Whatever happens to a file that was built, a lookup of a key answers as
before as long as the header entry and the table of its bucket and the records with its hash are
spared. -/
theorem contained_of_run {σ : Type} {sink : Sink σ} {shows : σ → ByteArray → Nat → Prop}
    {fragile : Prop} (file : FileLike sink shows fragile) {capacity offset : Nat} {old : ByteArray}
    {records : List Record} {s t : σ} (start : shows s old offset)
    (built : Builder.run sink capacity records s = .ok () t) :
    ∃ content offset, shows t content offset ∧
      ∀ {τ : Type} {intact damaged : Database τ} {state : τ} {key bytes : ByteArray},
        Keeps intact content state → Keeps damaged bytes state → Spares records key content bytes →
        damaged.values key state = intact.values key state ∧
          damaged.get key state = intact.get key state ∧
          damaged.contains key state = intact.contains key state ∧
          ∀ calls, (damaged.findNexts key calls (.fresh, state)).1 =
            (intact.findNexts key calls (.fresh, state)).1 := by
  obtain ⟨fits, offset, shown⟩ := Builder.run_image file start built
  refine ⟨_, offset, shown, fun {τ intact damaged state key bytes} keeps keeps' spares => ?_⟩
  have whole := Image.intact_append records key (old.extract (Image.ofRecords records).size old.size)
  have left := fits.intact_of_spares spares
  have before := fits.recalls_of_intact whole keeps
  have after := fits.recalls_of_intact left keeps'
  refine ⟨?_, ?_, ?_, fun calls => ?_⟩
  · rw [after.values_eq, before.values_eq]
  · rw [after.get_eq, before.get_eq]
  · rw [after.contains_eq, before.contains_eq]
  · rw [(fits.findNexts_eq left keeps' calls).1, (fits.findNexts_eq whole keeps calls).1]

theorem contained_of_run_memory :
    let records : List Record := [⟨"k".toUTF8, "1".toUTF8⟩, ⟨"x".toUTF8, "2".toUTF8⟩]
    ∃ t, Builder.run MemorySink.calls 0 records .empty = .ok () t ∧
      Database.get (Source.positioned (t.content.extract 0 2084)) "k".toUTF8 () =
        Database.get (Source.ofBytes t.content) "k".toUTF8 () := by
  intro records
  have steady := MemorySink.fileLike True
  have start := MemorySink.shows_empty True
  have fits : Image.Fits records := by decide
  obtain ⟨_, t, built, -⟩ := (Builder.run_ends steady 0 records start).exists_ok
    fun e t failed => failed.1.elim (· trivial) (· fits)
  obtain ⟨content, offset, ⟨-, rfl, -⟩, contained⟩ := contained_of_run steady start built
  obtain ⟨-, -, -, same, -⟩ := Builder.run_image steady start built
  have spares : Spares records "k".toUTF8 t.content (t.content.extract 0 2084) := by
    rw [same]
    exact fits.spares_cut (by decide)
  exact ⟨t, built, (contained (keeps_ofBytes _ ()) (keeps_positioned _ ()) spares).2.1⟩

end ConstDb
