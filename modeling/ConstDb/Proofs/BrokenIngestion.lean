import ConstDb.Proofs.Aborted
import ConstDb.Proofs.Arrivals
import ConstDb.Proofs.LineFormat
import ConstDb.Proofs.Making.Steady

/-!
# Ingestion that breaks off

A read that fails leaves a draft with the records of the lines that were complete, and it can still be
published. An addition that fails leaves nothing to publish. Either way no more of the input is taken than
the line that was under way. Main statement: `broken_ingestion`.
-/

namespace ConstDb

open Effect

theorem Disk.Writable.of_directories {disk next : Disk} {text : String} (same : SameDirectories disk next)
    (writable : disk.Writable text) : next.Writable text := by
  obtain ⟨place, named, free⟩ := writable
  refine ⟨place, by rw [same.place?_eq, named], ?_⟩
  rwa [Ne, same]

namespace Draft

variable {disk next : Disk} {place : Place} {accepted : List Record} {draft : Draft}

/-- Adds the records of the lines of an input, of which a part may be left. -/
def ingest (separator : UInt8) : Effect DbError (Lines.Input × Draft × Disk) Nat :=
  Lines.drain add separator 0

theorem addLines_of_ingest_error {separator : UInt8} {reads : Reads} {state after : Draft × Disk}
    {e : DbError} {left : Lines.Input}
    (fails : ingest separator (.start reads, state) = .error e (left, after)) :
    addLines separator reads state = .error e after :=
  (Lines.drain_start add separator reads state).of_error fails

/-! ## Additions -/

theorem add_books (record : Record) (underway : Underway disk place accepted draft)
    (books : Builder.Books accepted draft.builder) :
    Ends (add record) (draft, disk)
      (fun _ t => Builder.Books (accepted ++ [record]) t.1.builder ∧
        t.1.builder.failed = draft.builder.failed)
      (fun _ t => Builder.Books accepted t.1.builder) := by
  apply onBuilder_ends
  rcases underway.kept with building | ⟨failed, -⟩
  · have takes := (Disk.Handle.fileLike disk draft.handle.file).takes .empty headerSize
    refine (Builder.add_booked takes record (Builder.building_iff.1 building)).mono ?_ ?_
    · exact fun _ t booked => ⟨booked.toBooks, booked.trusted.trans building.trusted.symm⟩
    · exact fun _ t stopped => stopped.toBooks
  · exact ends_of_error (Builder.add_of_failed record failed) books

/-- Where additions that succeed lead from a draft. -/
structure Gains (start : Disk) (first : Draft) (place : Place) (state : List Record × Draft × Disk) : Prop
    extends Continues start first place state where
  books : Builder.Books state.1 state.2.1.builder
  failed_eq : state.2.1.builder.failed = first.builder.failed

theorem gains_self (sound : disk.Sound) (underway : Underway disk place accepted draft)
    (books : Builder.Books accepted draft.builder) : Gains disk draft place (accepted, draft, disk) :=
  ⟨⟨underway, Disk.frame_of_same sound rfl rfl, rfl, rfl⟩, books, rfl⟩

theorem forM_gains {start : Disk} {first : Draft} {state after : Draft × Disk} {more : List Record}
    (gains : Gains start first place (accepted, state)) (adds : more.forM add state = .ok () after) :
    Gains start first place (accepted ++ more, after) := by
  have step : ∀ accepted record state, Gains start first place (accepted, state) →
      Ends (add record) state (fun _ t => Gains start first place (accepted ++ [record], t))
        fun _ _ => True := by
    intro accepted record state gains
    have continues := add_ends record gains.toContinues
    have books := add_books record gains.underway gains.books
    cases eq : add record state with
    | error e t => exact ends_of_error eq trivial
    | ok _ t =>
      obtain ⟨books, failed_eq⟩ := books.of_ok eq
      exact ends_of_ok eq ⟨continues.of_ok eq, books, failed_eq.trans gains.failed_eq⟩
  exact (Lines.forM_ends step more gains).of_ok adds

/-- On a plain disk the records of complete lines that fit are added. -/
theorem addsAll_plain {separator : UInt8} {start : Disk} {file : FileId} {old : ByteArray}
    {arrivals done : List (Option UInt8)} {tail : List UInt8} {lines : List (List UInt8)}
    (building : BuildingPlain start file old accepted (draft, disk))
    (completes : Lines.Completes done lines) (unended : Lines.newline ∉ tail)
    (cut : arrivals = done ++ tail.map some)
    (fits : headerSize + Image.recordsSize (accepted ++ lines.filterMap (Lines.record? separator)) ≤
      Position.limit) :
    ∃ draft' next, Lines.AddsAll add separator arrivals (draft, disk) lines (draft', next) ∧
      BuildingPlain start file old (accepted ++ lines.filterMap (Lines.record? separator))
        (draft', next) := by
  obtain ⟨draft', next, adds, building, -⟩ :=
    forM_sure (Disk.Handle.fileLike_plain start file) _ building fits
  exact ⟨draft', next, ⟨⟨done, tail, completes, unended, cut⟩, adds⟩, building⟩

/-! ## Publication -/

theorem publish_held (sound : disk.Sound) (underway : Underway disk place accepted draft)
    (unlike : disk.place? draft.destination ≠ some place) :
    Ends draft.publish disk
      (fun _ last => last.held draft.destination = .file (Image.ofRecords accepted))
      (fun _ last => last.held draft.destination = disk.held draft.destination) := by
  refine (publish_ends sound underway unlike).mono ?_ ?_
  · intro _ last h
    obtain ⟨-, goal, named, frame, -, standing, -⟩ := h
    rw [← frame.directories.place?_eq] at named
    rw [Disk.held_of_place? named, standing]
  · intro _ last h
    apply h.1.held_eq
    rintro other named rfl
    exact unlike named

theorem publish_steady (sound : disk.Sound) (underway : Underway disk place accepted draft)
    (unlike : disk.place? draft.destination ≠ some place) (trusted : draft.builder.failed = false)
    (fits : Image.Fits accepted) (steady : disk.Steady) (writable : disk.Writable draft.destination) :
    ∃ last, draft.publish disk = .ok () last ∧
      last.held draft.destination = .file (Image.ofRecords accepted) := by
  have building : Building (Disk.Handle.ShowsSteady disk draft.handle.file) .empty accepted
      (draft, disk) := by
    have kept : Builder.Kept (Disk.Handle.ShowsSteady disk draft.handle.file) .empty accepted
        (draft.builder, draft.handle, disk) := underway.kept.of_shows fun _ _ shown => ⟨shown, steady⟩
    rcases kept with building | ⟨failed, -⟩
    · exact building
    · rw [trusted] at failed
      cases failed
  refine publish_sure (Disk.Handle.fileLike_steady disk draft.handle.file) building fits ?_
  intro handle next offset shown
  obtain ⟨shown, steady⟩ := shown
  rw [Bytes.overwrite_zero (Nat.zero_le _)] at shown
  have unfinished : Disk.Unfinished disk place draft.handle.file next :=
    ⟨shown.confined, by rw [Disk.node?_of_names shown.names_eq, underway.file]⟩
  obtain ⟨last, installed, holds⟩ := Disk.install_steady unfinished steady sound.tree underway.named
    (by simp [underway.file]) writable unlike draft.syncs
  exact ⟨last, installed, by rw [holds, shown.content_eq]⟩

end Draft

/-- **Ingestion that breaks off.** If a read fails, the draft has what it had and the records of the lines
before, it has not failed of that, and it can be published with just these; of the input nothing behind the
failure is taken, and nothing is left of what came before. If an addition fails, the draft has the records
of the lines before, no line behind is taken, and finishing the draft publishes nothing. There is no third
way. -/
theorem broken_ingestion (separator : UInt8) {disk : Disk} {place : Place} {accepted : List Record}
    {draft : Draft} (sound : disk.Sound) (underway : Draft.Underway disk place accepted draft)
    (books : Builder.Books accepted draft.builder) (unlike : disk.place? draft.destination ≠ some place)
    (reads : Reads) :
    (∀ arrivals e rest lines draft' next,
      (Lines.Input.start reads).Brings arrivals (.error e :: rest) → ¬ e.isInterrupted = true →
      Lines.AddsAll Draft.add separator arrivals (draft, disk) lines (draft', next) →
      let records := accepted ++ lines.filterMap (Lines.record? separator)
      Draft.addLines separator reads (draft, disk) = .error (.io e) (draft', next) ∧
      Draft.ingest separator (.start reads, draft, disk) = .error (.io e) (⟨[], rest⟩, draft', next) ∧
      draft'.size = records.length ∧ draft'.builder.failed = draft.builder.failed ∧
      Draft.Underway next place records draft' ∧
      Ends draft'.publish next
        (fun _ last => last.held draft.destination = .file (Image.ofRecords records))
        (fun _ last => last.held draft.destination = disk.held draft.destination) ∧
      (draft.builder.failed = false → Image.Fits records → next.Steady →
        disk.Writable draft.destination → ∃ last, draft'.publish next = .ok () last ∧
          last.held draft.destination = .file (Image.ofRecords records))) ∧
    (∀ arrivals rest before later mid e draft' next,
      (Lines.Input.start reads).Brings arrivals rest →
      Lines.FailsAt Draft.add separator arrivals (draft, disk) before later mid e (draft', next) →
      let records := accepted ++ before.filterMap (Lines.record? separator)
      Draft.addLines separator reads (draft, disk) = .error e (draft', next) ∧
      (∃ left : Lines.Input, left.Brings later rest ∧
        Draft.ingest separator (.start reads, draft, disk) = .error e (left, draft', next)) ∧
      draft'.size = records.length ∧ Builder.Books records draft'.builder ∧
      draft'.publish next = .error .aborted (draft'.discard next) ∧
      ∀ text, disk.place? text ≠ some place → (draft'.discard next).held text = disk.held text) ∧
    ∀ err after, Draft.addLines separator reads (draft, disk) = .error err after →
      (∃ arrivals e rest lines, (Lines.Input.start reads).Brings arrivals (.error e :: rest) ∧
        ¬ e.isInterrupted = true ∧ err = .io e ∧
        Lines.AddsAll Draft.add separator arrivals (draft, disk) lines after) ∨
      ∃ arrivals rest before later mid, (Lines.Input.start reads).Brings arrivals rest ∧
        Lines.FailsAt Draft.add separator arrivals (draft, disk) before later mid err after := by
  have start := Draft.gains_self sound underway books
  refine ⟨?_, ?_, fun err after fails => Lines.addAll_error_cases fails⟩
  · intro arrivals e rest lines draft' next brings final all records
    have broken : Draft.ingest separator (.start reads, draft, disk) =
        .error (.io e) (⟨[], rest⟩, draft', next) := all.drain_eq brings final 0
    have gains := Draft.forM_gains start all.adds
    have same : Disk.SameDirectories disk next := gains.frame.directories
    have destination_eq : draft'.destination = draft.destination := gains.destination_eq
    have unlike' : next.place? draft'.destination ≠ some place := by
      rw [destination_eq, same.place?_eq]
      exact unlike
    have held : next.held draft.destination = disk.held draft.destination := by
      apply gains.frame.held_eq
      rintro other named rfl
      exact unlike named
    have published := Draft.publish_held gains.frame.sound gains.underway unlike'
    have published' := Draft.publish_steady gains.frame.sound gains.underway unlike'
    rw [destination_eq] at published published'
    rw [held] at published
    refine ⟨Draft.addLines_of_ingest_error broken, broken, gains.books.size_eq, gains.failed_eq,
      gains.underway, published, fun trusted fits steady writable => ?_⟩
    exact published' (gains.failed_eq.trans trusted) fits steady (writable.of_directories same)
  · intro arrivals rest before later mid e draft' next brings fails records
    obtain ⟨left, behind, broken⟩ := fails.drain_eq brings 0
    have gains := Draft.forM_gains start fails.adds
    obtain ⟨done, line, record, -, -, -, refuses⟩ := fails.cut
    have continues := (Draft.add_ends record gains.toContinues).of_error refuses
    have books := (Draft.add_books record gains.underway gains.books).of_error refuses
    have failed := Draft.failed_of_add_error refuses
    have discarded := (Draft.discard_frame continues.frame.sound continues.underway).1
    refine ⟨Draft.addLines_of_ingest_error broken, ⟨left, behind, broken⟩, books.size_eq, books,
      Draft.publish_of_failed failed next, fun text apart => ?_⟩
    apply (continues.frame.trans discarded).held_eq
    rintro other named rfl
    exact apart named

/-- How a connection breaks. -/
def lostConnection : IoError := ⟨.named "ConnectionReset", "connection reset"⟩

/-- A read that fails in the third line, and a disk without space for the record of the second line. -/
theorem broken_ingestion_midway :
    let disk := Disk.oneName "db.tmp" #[.empty]
    let reads : Reads := [.ok "a=1\nb".toUTF8, .error ⟨.interrupted, ""⟩, .ok "=2\r\nc=".toUTF8,
      .error lostConnection, .ok "3\n".toUTF8]
    let records : List Record := [⟨"a".toUTF8, "1".toUTF8⟩, ⟨"b".toUTF8, "2".toUTF8⟩]
    (Draft.create "db" .default .empty = .ok (.begun 0) disk ∧ disk.Sound ∧
      Draft.Underway disk ["db.tmp"] [] (.begun 0) ∧ Builder.Books [] (Draft.begun 0).builder ∧
      disk.place? "db" ≠ some ["db.tmp"] ∧
      ∃ draft next last,
        Draft.addLines 61 reads (.begun 0, disk) = .error (.io lostConnection) (draft, next) ∧
        draft.size = 2 ∧ draft.publish next = .ok () last ∧
        last.held "db" = .file (Image.ofRecords records)) ∧
    (Draft.create "db" { Config.default with bufferCapacity := 1, syncs := false }
        ⟨[], #[], [.proceed, .proceed, .fail noSpace]⟩ = .ok fullDraft.1 fullDraft.2 ∧
      fullDraft.2.Sound ∧ Draft.Underway fullDraft.2 ["db.tmp"] [] fullDraft.1 ∧
      Builder.Books [] fullDraft.1.builder ∧ fullDraft.2.place? "db" ≠ some ["db.tmp"] ∧
      ∃ draft next, Draft.addLines 61 [.ok "x\nk=v\nl=w\n".toUTF8] fullDraft =
          .error (.io noSpace) (draft, next) ∧
        draft.size = 0 ∧ draft.publish next = .error .aborted (draft.discard next) ∧
        (draft.discard next).held "db" = fullDraft.2.held "db") := by
  intro disk reads records
  constructor
  · have created : Draft.create "db" .default .empty = .ok (.begun 0) disk := by rfl
    obtain ⟨sound, underway, books, trusted⟩ := Draft.of_create Disk.sound_empty created (by rfl)
    have unlike : disk.place? "db" ≠ some ["db.tmp"] := by decide
    have completes : Lines.Completes
        ("a=1".toUTF8.data.toList.map some ++ some Lines.newline ::
          ("b=2\r".toUTF8.data.toList.map some ++ some Lines.newline :: []))
        ["a=1\n".toUTF8.data.toList, "b=2\r\n".toUTF8.data.toList] :=
      .line (by decide) (.inl rfl) (by decide) (.line (by decide) (.inl rfl) (by decide) .nil)
    have unended : Lines.newline ∉ "c=".toUTF8.data.toList := by decide
    have unfailing : Reads.Unfailing (reads.take 3) :=
      .ok (Reads.unfailing_cons.2 ⟨fun _ eq => by cases eq; rfl, .ok Reads.unfailing_nil⟩)
    have brings : (Lines.Input.start reads).Brings _
        (.error lostConnection :: [.ok "3\n".toUTF8, .ok .empty]) := ⟨_, unfailing, rfl, rfl⟩
    have found : ["a=1\n".toUTF8.data.toList, "b=2\r\n".toUTF8.data.toList].filterMap
        (Lines.record? 61) = records := by decide
    have building : Draft.BuildingPlain disk 0 .empty [] (.begun 0, disk) :=
      Draft.buildingPlain_begun rfl Nat.one_pos
    obtain ⟨draft, next, all, building⟩ :=
      Draft.addsAll_plain building completes unended rfl (by rw [found]; decide)
    have steady : next.Steady := by
      have plain : next = ⟨disk.names, next.files, []⟩ := Draft.plain_of_shown building.written.shown
      rw [plain]
      exact fun fate member => by cases member
    obtain ⟨fails, -, size, -, -, -, published⟩ :=
      (broken_ingestion 61 sound underway books unlike reads).1 _ _ _ _ draft next brings (by decide) all
    rw [found] at size published
    obtain ⟨last, published, held⟩ := published trusted (by decide) steady ⟨["db"], rfl, by decide⟩
    exact ⟨created, sound, underway, books, unlike, draft, next, last, fails, size, published, held⟩
  · have created : Draft.create "db" { Config.default with bufferCapacity := 1, syncs := false }
        ⟨[], #[], [.proceed, .proceed, .fail noSpace]⟩ = .ok fullDraft.1 fullDraft.2 := by rfl
    have failing : Disk.Frame (fun _ => False) .empty ⟨[], #[], [.proceed, .proceed, .fail noSpace]⟩ :=
      Disk.frame_of_fates Disk.sound_empty _
    obtain ⟨sound, underway, books, -⟩ := Draft.of_create failing.sound created (by rfl)
    have unlike : fullDraft.2.place? "db" ≠ some ["db.tmp"] := by decide
    have completes : Lines.Completes
        ("x".toUTF8.data.toList.map some ++ some Lines.newline ::
          ("k=v".toUTF8.data.toList.map some ++ some Lines.newline :: []))
        (["x\n".toUTF8.data.toList] ++ ["k=v\n".toUTF8.data.toList]) :=
      .line (by decide) (.inl rfl) (by decide) (.line (by decide) (.inl rfl) (by decide) .nil)
    have brings : (Lines.Input.start [.ok "x\nk=v\nl=w\n".toUTF8]).Brings _ [] :=
      ⟨_, .ok (.ok Reads.unfailing_nil), rfl, rfl⟩
    have fails : Lines.FailsAt Draft.add 61 _ fullDraft ["x\n".toUTF8.data.toList]
        ("l=w\n".toUTF8.data.toList.map some ++ [none]) fullDraft (.io noSpace) _ :=
      ⟨⟨_, _, ⟨"k".toUTF8, "v".toUTF8⟩, completes, rfl, by decide, add_fullDraft⟩, rfl⟩
    obtain ⟨fails, -, size, -, refused, held⟩ :=
      (broken_ingestion 61 sound underway books unlike _).2.1 _ _ _ _ _ _ _ _ brings fails
    exact ⟨created, sound, underway, books, unlike, _, _, fails, size, refused, held "db" unlike⟩

/-- The end of the input completes the last line. What was delivered of it is added, also if a read fails
behind the end. -/
theorem last_line_stored :
    let text := "k=v".toUTF8.data.toList
    let reads : Reads := [.ok "k=v".toUTF8, .ok .empty, .error lostConnection]
    let disk := Disk.oneName "db.tmp" #[.empty]
    (Reads.arrivals (reads.take 2)).reduceOption = text ∧ Lines.Cut text [text] ∧
      ¬ lostConnection.isInterrupted = true ∧
    ∃ draft next, Draft.addLines 61 reads (.begun 0, disk) = .error (.io lostConnection) (draft, next) ∧
      Draft.BuildingPlain disk 0 .empty [⟨"k".toUTF8, "v".toUTF8⟩] (draft, next) ∧
      draft.size ≠
        (([text].filter (·.getLast? = some Lines.newline)).filterMap (Lines.record? 61)).length := by
  intro text reads disk
  have completes : Lines.Completes (text.map some ++ none :: []) [text ++ (none : Option UInt8).toList] :=
    .line (by decide) (.inr rfl) (by decide) .nil
  have brings : (Lines.Input.start reads).Brings _ (.error lostConnection :: [.ok .empty]) :=
    ⟨reads.take 2, .ok (.ok Reads.unfailing_nil), rfl, rfl⟩
  have found : [text ++ (none : Option UInt8).toList].filterMap (Lines.record? 61) =
      [⟨"k".toUTF8, "v".toUTF8⟩] := by decide
  have building : Draft.BuildingPlain disk 0 .empty [] (.begun 0, disk) :=
    Draft.buildingPlain_begun rfl Nat.one_pos
  obtain ⟨draft, next, all, building⟩ :=
    Draft.addsAll_plain building completes List.not_mem_nil rfl (by rw [found]; decide)
  have fails : Draft.ingest 61 (.start reads, .begun 0, disk) =
      .error (.io lostConnection) (⟨[], _⟩, _) := all.drain_eq brings (by decide) 0
  rw [found, List.nil_append] at building
  have size : draft.size = 1 := (Builder.building_iff.1 building).toBooks.size_eq
  refine ⟨by decide, .last (by decide) (by decide), by decide, draft, next,
    Draft.addLines_of_ingest_error fails, building, ?_⟩
  rw [size]
  decide

end ConstDb
