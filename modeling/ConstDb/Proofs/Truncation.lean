import ConstDb.Proofs.Containment
import ConstDb.Proofs.Dump
import ConstDb.Proofs.LookupInStep

/-!
# Files that were cut off

Reads of a file that was cut off are in step with reads of the whole file, up to the first one that
misses something (`Keeps.reads_inStep`), so that a lookup answers as before or says what is missing.
The record area is listed as a whole or not at all, since its end is known before it is read. Main
statement: `truncated_of_run`.
-/

namespace ConstDb

open Effect

/-! ## Reads -/

/-- What ends a call on a file that was cut off: something is missing, and nothing else has happened. -/
def CutAt {σ : Type} (s : σ) (e : DbError) (t : σ) : Prop := t = s ∧ ∃ cause, e = .truncated cause

def BothAt {σ : Type} (s a b : σ) : Prop := a = s ∧ b = s

section reads
variable {σ : Type} {short whole : Database σ} {bytes : ByteArray} {count : Nat} {s : σ}

theorem Bytes.size_cut_le (bytes : ByteArray) (count : Nat) : (bytes.extract 0 count).size ≤ count := by
  rw [ByteArray.size_extract, Nat.sub_zero]
  exact Nat.min_le_left ..

theorem Keeps.readAt_inStep (keeps : Keeps short (bytes.extract 0 count) s)
    (keeps' : Keeps whole bytes s) (position length : Nat) :
    InUnison (BothAt s) (CutAt s) (short.readAt position length) (whole.readAt position length) s s := by
  rcases Nat.lt_or_ge (bytes.extract 0 count).size (position + length) with outside | inside
  · exact inStep_of_broken (keeps.serves.readAt_outside outside) ⟨rfl, _, rfl⟩
  have near := Nat.le_trans inside (Bytes.size_cut_le bytes count)
  have within : position + length ≤ bytes.size := by
    rw [ByteArray.size_extract] at inside
    omega
  refine inStep_of_ok (keeps.serves.readAt_inside rfl inside) (keeps'.serves.readAt_inside rfl within) ?_
  exact ⟨(Bytes.agreeOn_extract bytes near).symm, rfl, rfl⟩

theorem keyMatches_inStep_of_mapped (mapped : short.mapped s = some (bytes.extract 0 count))
    (mapped' : whole.mapped s = some bytes) (key : ByteArray) (position : Nat) :
    InUnison (BothAt s) (CutAt s) (short.keyMatches key position) (whole.keyMatches key position) s s := by
  rcases Nat.lt_or_ge (bytes.extract 0 count).size (position + key.size) with outside | inside
  · exact inStep_of_broken (Lookup.keyMatches_mapped_outside mapped outside) ⟨rfl, _, rfl⟩
  have near := Nat.le_trans inside (Bytes.size_cut_le bytes count)
  have within : position + key.size ≤ bytes.size := by
    rw [ByteArray.size_extract] at inside
    omega
  refine inStep_of_ok (Lookup.keyMatches_mapped mapped inside) (Lookup.keyMatches_mapped mapped' within) ?_
  exact ⟨by rw [(Bytes.agreeOn_extract bytes near : _ = _)], rfl, rfl⟩

/-- The whole file to compare with is mapped if the short one is. -/
theorem Keeps.reads_inStep (keeps : Keeps short (bytes.extract 0 count) s) :
    ∃ whole : Database σ, Keeps whole bytes s ∧ ReadsInStep short whole (BothAt s) (CutAt s) := by
  rcases keeps.mapping with unmapped | mapped
  · have keeps' := keeps_positioned bytes s
    have reads : ∀ {a b}, BothAt s a b → ∀ position length,
        InUnison (BothAt s) (CutAt s) (short.readAt position length)
          (Database.readAt (Source.positioned bytes) position length) a b := by
      rintro _ _ ⟨rfl, rfl⟩
      exact keeps.readAt_inStep keeps'
    refine ⟨_, keeps', reads, ?_⟩
    rintro _ _ ⟨rfl, rfl⟩ key position
    exact keyMatches_inStep reads ⟨rfl, rfl⟩ unmapped key position
  · have keeps' := keeps_ofBytes bytes s
    refine ⟨_, keeps', ?_, ?_⟩
    · rintro _ _ ⟨rfl, rfl⟩
      exact keeps.readAt_inStep keeps'
    · rintro _ _ ⟨rfl, rfl⟩
      exact keyMatches_inStep_of_mapped mapped rfl

end reads

/-! ## Calls -/

/-- A call on a file that was cut off answers like `whole`, or says that something is missing. -/
def SameOrCut {σ α : Type} (short whole : Effect DbError σ α) (s : σ) : Prop :=
  short s = whole s ∨ ∃ cause, short s = .error (.truncated cause) s

theorem SameOrCut.of_inStep {σ α : Type} {short whole : Effect DbError σ α} {s : σ} {a : α}
    (step : InUnison (BothAt s) (CutAt s) short whole s s) (eq : whole s = .ok a s) :
    SameOrCut short whole s := by
  rcases step.of_ok eq with ⟨_, here, rfl, -⟩ | ⟨_, _, here, rfl, cause, rfl⟩
  · exact .inl (here.trans eq.symm)
  · exact .inr ⟨cause, here⟩

/-- The values of a key are handed out as far as the file goes: all of them, or the first ones and a
failure. -/
def ValuesOrCut {σ : Type} (short whole : Database σ) (key : ByteArray) (s : σ) : Prop :=
  (short.values key s = whole.values key s ∨ ∃ shown cause,
    short.values key s = (whole.values key s).take shown ++ [.error (.truncated cause)]) ∧
  Walk.Over (short.nextValue key) (short.restValues key .fresh s).2

section calls
variable {σ : Type} {short whole : Database σ} {bytes key : ByteArray} {count : Nat} {s : σ}

theorem ValuesOrCut.of_reads (reads : ReadsInStep short whole (BothAt s) (CutAt s))
    (few : (whole.values key s).length < Position.limit) : ValuesOrCut short whole key s := by
  have related : OnSecond (BothAt s) (Values.fresh, s) (Values.fresh, s) := ⟨rfl, rfl, rfl⟩
  have items := Walk.items_inStep (reads.nextValue_inStep key) Values.fresh.remaining related
  constructor
  · rcases items with ⟨same, -⟩ | ⟨shown, _, ⟨-, cause, rfl⟩, cut⟩
    · exact .inl same
    · exact .inr ⟨shown, cause, cut⟩
  · refine Walk.over_items (Database.nextValue_settles short key) _ ?_
    rw [Database.values, Database.restValues] at few
    have limit : Values.fresh.remaining = Position.limit + 1 := rfl
    rcases items with ⟨same, -⟩ | ⟨shown, _, -, cut⟩
    · rw [same]
      omega
    · rw [cut, List.length_append, List.length_take, List.length_singleton]
      omega

end calls

/-! ## Records -/

namespace Bytes

variable {bytes piece : ByteArray} {position count : Nat}

theorem StandsAt.cut (stands : StandsAt bytes position piece) (inside : position + piece.size ≤ count) :
    StandsAt (bytes.extract 0 count) position piece := by
  refine ⟨?_, (agreeOn_extract bytes inside).symm.trans stands.2⟩
  have := stands.1
  rw [ByteArray.size_extract]
  omega

theorem recordStop_cut (bytes : ByteArray) (header : Pair.size ≤ count) :
    recordStop (bytes.extract 0 count) = recordStop bytes := by
  have first : 0 + Pair.size ≤ count := by rwa [Nat.zero_add]
  have pair : pairAt (bytes.extract 0 count) 0 = pairAt bytes 0 := (agreeOn_extract bytes first).symm
  rw [recordStop, pair, ← recordStop]

end Bytes

namespace Image

variable {records : List Record} {σ : Type} {short whole : Database σ} {rest key : ByteArray}
variable {count : Nat} {s : σ}

theorem Fits.records_of_cut (fits : Fits records)
    (keeps : Keeps short ((ofRecords records ++ rest).extract 0 count) s)
    (keeps' : Keeps whole (ofRecords records ++ rest) s) : SameOrCut short.records whole.records s := by
  by_cases has : Bytes.HasRecordArea ((ofRecords records ++ rest).extract 0 count)
  · left
    have ⟨header, _, stop_le⟩ := has
    have size := Bytes.size_cut_le (ofRecords records ++ rest) count
    have stop := Bytes.recordStop_cut (ofRecords records ++ rest) (Nat.le_trans header size)
    rw [fits.recordStop_eq] at stop
    have inside : headerSize + (recordBytes records).size ≤ count := by
      rw [size_recordBytes]
      omega
    have area := ((standsAt_recordBytes records).append_right rest).cut inside
    rw [keeps.records_of_stands has area stop.symm, fits.records_eq keeps']
  · obtain ⟨cause, refused⟩ := keeps.recordArea_error has
    exact .inr ⟨cause, by simp only [Database.records, refused]⟩

theorem Fits.length_lt (fits : Fits records) : records.length < Position.limit := by
  unfold Fits at fits
  have : 0 < headerSize := by decide
  rw [Pair.size] at fits
  omega

end Image

/-- **Truncation is not silent.** Of a file that was built and then cut off, every call answers as it
does on the whole file or says that something is missing. -/
theorem truncated_of_run {σ : Type} {sink : Sink σ} {shows : σ → ByteArray → Nat → Prop}
    {fragile : Prop} (file : FileLike sink shows fragile) {capacity offset : Nat} {old : ByteArray}
    {records : List Record} {s t : σ} (start : shows s old offset)
    (built : Builder.run sink capacity records s = .ok () t) :
    ∃ content offset, shows t content offset ∧
      ∀ {τ : Type} {whole short : Database τ} {state : τ} {count : Nat},
        Keeps whole content state → Keeps short (content.extract 0 count) state →
        SameOrCut short.records whole.records state ∧
          whole.records state = .ok (records.map .ok) state ∧
          ∀ key, Recalls whole state records key ∧ SameOrCut (short.get key) (whole.get key) state ∧
            SameOrCut (short.contains key) (whole.contains key) state ∧
            ValuesOrCut short whole key state := by
  obtain ⟨fits, offset, shown⟩ := Builder.run_image file start built
  refine ⟨_, offset, shown, fun {τ whole short state count} keeps keeps' =>
    ⟨fits.records_of_cut keeps' keeps, fits.records_eq keeps, fun key => ?_⟩⟩
  obtain ⟨like, like_keeps, reads⟩ := keeps'.reads_inStep
  -- the two whole files differ at most in being mapped, and answer alike
  have told := fits.recalls keeps key
  have told' := fits.recalls like_keeps key
  have get := SameOrCut.of_inStep (reads.get_inStep key ⟨rfl, rfl⟩) told'.get_eq
  have contains := SameOrCut.of_inStep (reads.contains_inStep key ⟨rfl, rfl⟩) told'.contains_eq
  have few : (like.values key state).length < Position.limit := by
    rw [told'.values_eq, List.length_map]
    exact Nat.lt_of_le_of_lt (List.length_filter_le ..) fits.length_lt
  have values := ValuesOrCut.of_reads reads few
  rw [SameOrCut, told'.get_eq, ← told.get_eq] at get
  rw [SameOrCut, told'.contains_eq, ← told.contains_eq] at contains
  rw [ValuesOrCut, told'.values_eq, ← told.values_eq] at values
  exact ⟨told, get, contains, values⟩

theorem truncated_of_run_memory :
    let records : List Record := [⟨"k".toUTF8, "1".toUTF8⟩, ⟨"x".toUTF8, "2".toUTF8⟩]
    ∃ t, Builder.run MemorySink.calls 0 records .empty = .ok () t ∧
      let short := Source.positioned (t.content.extract 0 2060)
      Database.get (Source.ofBytes t.content) "k".toUTF8 () = .ok (some "1".toUTF8) () ∧
        SameOrCut (Database.get short "k".toUTF8) (Database.get (Source.ofBytes t.content) "k".toUTF8) () ∧
        SameOrCut (Database.records short) (Database.records (Source.ofBytes t.content)) () ∧
        ValuesOrCut short (Source.ofBytes t.content) "k".toUTF8 () := by
  intro records
  have steady := MemorySink.fileLike True
  have start := MemorySink.shows_empty True
  have fits : Image.Fits records := by decide
  obtain ⟨_, t, built, -⟩ := (Builder.run_ends steady 0 records start).exists_ok
    fun e t failed => failed.1.elim (· trivial) (· fits)
  obtain ⟨content, offset, ⟨-, rfl, -⟩, cut⟩ := truncated_of_run steady start built
  obtain ⟨listed, -, lookups⟩ := cut (keeps_ofBytes _ ())
    (keeps_positioned (t.content.extract 0 2060) ())
  obtain ⟨told, get, -, values⟩ := lookups "k".toUTF8
  have first : (records.filter (·.key = "k".toUTF8)).head?.map Record.data = some "1".toUTF8 := by
    decide
  exact ⟨t, built, told.get_eq.trans (by rw [first]), get, listed, values⟩

end ConstDb
