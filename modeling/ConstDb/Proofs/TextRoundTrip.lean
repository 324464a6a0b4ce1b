import ConstDb.Command
import ConstDb.Proofs.Disk.Suffix
import ConstDb.Proofs.Making.Steady
import ConstDb.Proofs.Snapshot

/-!
# From databases to text and back

What is printed for a record is a line that holds the same record, if the separator and the ends of lines do
not stand in the way (`Clean.record?_line`). So a database made of the text that another one was printed as is
the same database, byte by byte: `text_round_trip`.
-/

namespace ConstDb

open Effect

/-! ## Lines that hold a record -/

namespace Lines

/-- What a line can hold of a record: a separator in the key, or the end of a line anywhere, would be read
as such. -/
structure Clean (separator : UInt8) (record : Record) : Prop where
  key : ∀ byte ∈ record.key.data.toList, byte ≠ separator ∧ byte ≠ newline
  data : newline ∉ record.data.data.toList
  ending : record.data.data.toList.getLast? ≠ some carriageReturn

theorem clean_iff {separator : UInt8} {record : Record} : Clean separator record ↔
    record.key.data.toList.all (fun byte => byte ≠ separator ∧ byte ≠ newline) = true ∧
      newline ∉ record.data.data.toList ∧ record.data.data.toList.getLast? ≠ some carriageReturn := by
  rw [List.all_eq_true]
  simp only [decide_eq_true_eq]
  exact ⟨fun h => ⟨h.key, h.data, h.ending⟩, fun h => ⟨h.1, h.2.1, h.2.2⟩⟩

instance (separator : UInt8) (record : Record) : Decidable (Clean separator record) :=
  decidable_of_iff _ clean_iff.symm

/-- The line that is printed for a record, without its end. -/
def textOf (separator : UInt8) (record : Record) : List UInt8 :=
  record.key.data.toList ++ separator :: record.data.data.toList

section clean
variable {separator : UInt8} {record : Record}

theorem toByteArray_toList (bytes : ByteArray) : bytes.data.toList.toByteArray = bytes :=
  ByteArray.ext (by simp)

theorem Clean.getLast?_textOf (clean : Clean separator record) (visible : separator ≠ carriageReturn) :
    (textOf separator record).getLast? ≠ some carriageReturn := by
  unfold textOf
  rw [List.getLast?_append_cons]
  cases data : record.data.data.toList with
  | nil => simpa using visible
  | cons byte bytes =>
    rw [List.getLast?_cons_cons, ← data]
    exact clean.ending

theorem Clean.record?_line (clean : Clean separator record) (visible : separator ≠ carriageReturn) :
    record? separator (textOf separator record ++ [newline]) = some record := by
  have text : content (textOf separator record ++ [newline]) = textOf separator record := by
    rw [content, dropLastByte_append, dropLastByte_of_ne (clean.getLast?_textOf visible)]
  have first : separator ∉ record.key.data.toList := fun member => (clean.key separator member).1 rfl
  rw [record?_of_content first text, toByteArray_toList, toByteArray_toList]

theorem Clean.unended (clean : Clean separator record) (visible : separator ≠ newline) :
    newline ∉ textOf separator record := by
  unfold textOf
  simp only [List.mem_append, List.mem_cons, not_or]
  exact ⟨fun member => (clean.key newline member).2 rfl, visible.symm, clean.data⟩

theorem records_textOf {records : List Record} (clean : ∀ record ∈ records, Clean separator record)
    (visible : separator ≠ newline ∧ separator ≠ carriageReturn) :
    Lines.records separator (records.flatMap fun record => textOf separator record ++ [newline]) =
      records := by
  induction records with
  | nil => rfl
  | cons record records ih =>
    have own := clean record List.mem_cons_self
    have rest := ih fun other member => clean other (List.mem_cons_of_mem _ member)
    unfold Lines.records at rest ⊢
    rw [List.flatMap_cons, List.append_assoc, List.singleton_append, split_ended (own.unended visible.1),
      List.filterMap_cons, own.record?_line visible.2, rest]

end clean

end Lines

/-! ## What is printed -/

namespace Command

/-- The lines of all records. -/
def listing (separator : ByteArray) (records : List Record) : ByteArray :=
  Bytes.concat (records.map (recordLine separator))

theorem print_ok {α : Type} (render : α → ByteArray) (items : List α) (output : ByteArray) :
    print render output (items.map .ok) = (output ++ Bytes.concat (items.map render), none) := by
  induction items generalizing output with
  | nil => simp [print]
  | cons item items ih => simp [print, ih, ByteArray.append_assoc]

theorem toList_recordLine (separator : UInt8) (record : Record) :
    (recordLine [separator].toByteArray record).data.toList =
      Lines.textOf separator record ++ [Lines.newline] := by
  simp [recordLine, line, Lines.textOf]

theorem toList_listing (separator : UInt8) (records : List Record) :
    (listing [separator].toByteArray records).data.toList =
      records.flatMap fun record => Lines.textOf separator record ++ [Lines.newline] := by
  induction records with
  | nil => rfl
  | cons record records ih =>
    unfold listing at ih ⊢
    rw [List.map_cons, Bytes.concat_cons, ByteArray.data_append, Array.toList_append, toList_recordLine, ih,
      List.flatMap_cons]

variable {disk : Disk} {records : List Record}

theorem run_dump {path : String} (separator : String) (fits : Image.Fits records)
    (held : disk.held path = .file (Image.ofRecords records)) :
    (Command.dump path separator).run disk = (.success (listing separator.toUTF8 records), disk) := by
  obtain ⟨opened, opens, keeps⟩ := OpenDatabase.openPath_of_held held true
  have whole : Keeps opened.source (Image.ofRecords records ++ .empty) disk := by
    rwa [ByteArray.append_empty]
  have listed := fits.records_eq whole
  simp only [run, opens, answerDump, listed, print_ok, ByteArray.empty_append, listing]

theorem run_make_of_made {input separator output : String} {syncs : Bool} {byte : UInt8} {count : Nat}
    {next : Disk} (first : separator.toUTF8.data[0]? = some byte)
    (made : makeDatabase input byte output { Config.default with syncs } disk = .ok count next) :
    (Command.make input separator output syncs).run disk =
      (.success (line (toString count).toUTF8), next) := by
  simp only [run, answerMake, first, made]

theorem run_make {input output : String} (separator : String) {byte : UInt8} {content : ByteArray}
    (syncs : Bool) (first : separator.toUTF8.data[0]? = some byte) (steady : disk.Steady) (tree : disk.Tree)
    (held : disk.held input = .file content)
    (lines : Lines.records byte content.data.toList = records) (fits : Image.Fits records)
    (temporary : disk.Writable (output ++ ".tmp")) (writable : disk.Writable output)
    (apart : disk.Apart (output ++ ".tmp") input) :
    ∃ next, (Command.make input separator output syncs).run disk =
        (.success (line (toString records.length).toUTF8), next) ∧
      next.held output = .file (Image.ofRecords records) := by
  subst lines
  have unlike : disk.place? (output ++ ".tmp") ≠ disk.place? output := by
    intro same
    obtain ⟨place, named, -⟩ := temporary
    exact Disk.place?_append_ne (by decide) (by decide) named (same.symm.trans named)
  obtain ⟨next, made, installed⟩ := makeDatabase_steady byte { Config.default with syncs } steady
    tree held fits temporary writable unlike apart
  exact ⟨next, run_make_of_made first made, installed⟩

end Command

/-! ## Separators of one byte -/

theorem toUTF8_singleton {c : Char} (ascii : c.val ≤ 127) :
    (String.singleton c).toUTF8 = [c.val.toUInt8].toByteArray := by
  have one : c.utf8Size = 1 := Char.utf8Size_eq_one_iff.2 ascii
  rw [String.toUTF8_eq_toByteArray, String.toByteArray_singleton, List.utf8Encode_singleton,
    String.utf8EncodeChar_eq_singleton one]

theorem toUInt8_ne {c d : Char} (ascii : c.val ≤ 127) (ascii' : d.val ≤ 127) (ne : c ≠ d) :
    c.val.toUInt8 ≠ d.val.toUInt8 := by
  have low : ∀ {e : Char}, e.val ≤ 127 → e.val.toUInt8.toNat = e.val.toNat := by
    intro e ascii
    have small : e.val.toNat ≤ 127 := ascii
    rw [UInt32.toNat_toUInt8]
    omega
  intro same
  apply ne
  apply Char.ext
  apply UInt32.toNat.inj
  rw [← low ascii, ← low ascii', same]

/-! ## There and back -/

/-- **Text and back.** If a file holds the image of records that lines can hold, the text that is printed for
it makes the same file again, on any disk where the calls go well, and from any file but the one that is
emptied for the database. -/
theorem text_round_trip (c : Char) (ascii : c.val ≤ 127) (inline : c ≠ '\n' ∧ c ≠ '\r')
    (records : List Record) (clean : ∀ record ∈ records, Lines.Clean c.val.toUInt8 record)
    (capacity : Nat) (bytes : ByteArray) (image : imageOf capacity records = .ok bytes)
    (disk : Disk) (path : String) (held : disk.held path = .file bytes) :
    let separator := String.singleton c
    let printed := Command.listing separator.toUTF8 records
    (Command.dump path separator).run disk = (.success printed, disk) ∧
    ∀ (syncs : Bool) (later : Disk) (input output : String), later.Steady → later.Tree →
      later.held input = .file printed → later.Writable output → later.Writable (output ++ ".tmp") →
      later.Apart (output ++ ".tmp") input →
      ∃ next, (Command.make input separator output syncs).run later =
          (.success (Command.line (toString records.length).toUTF8), next) ∧
        next.held output = .file bytes := by
  intro separator printed
  obtain ⟨fits, rfl⟩ := Builder.imageOf_eq_ok_iff.1 image
  have encoded : separator.toUTF8 = [c.val.toUInt8].toByteArray := toUTF8_singleton ascii
  have lines : Lines.records c.val.toUInt8 printed.data.toList = records := by
    simp only [printed, encoded, Command.toList_listing]
    exact Lines.records_textOf clean
      ⟨toUInt8_ne ascii (by decide) inline.1, toUInt8_ne ascii (by decide) inline.2⟩
  have first : separator.toUTF8.data[0]? = some c.val.toUInt8 := by rw [encoded]; rfl
  refine ⟨Command.run_dump separator fits held, ?_⟩
  intro syncs later input output steady tree held writable temporary apart
  exact Command.run_make separator syncs first steady tree held lines fits temporary writable apart

theorem text_round_trip_threeLines :
    let records : List Record :=
      [⟨"k".toUTF8, "v".toUTF8⟩, ⟨"k".toUTF8, .empty⟩, ⟨.empty, "=\rv".toUTF8⟩]
    let text := "k=v\nk=\n==\rv\n".toUTF8
    let disk := Disk.oneName "db" #[Image.ofRecords records]
    let later := Disk.oneName "in" #[text]
    (∀ record ∈ records, Lines.Clean 61 record) ∧ imageOf 8192 records = .ok (Image.ofRecords records) ∧
      disk.held "db" = .file (Image.ofRecords records) ∧ later.Steady ∧ later.Tree ∧
      later.held "in" = .file text ∧ later.Writable "db" ∧ later.Writable "db.tmp" ∧
      later.Apart "db.tmp" "in" ∧
    (Command.dump "db" "=").run disk = (.success text, disk) ∧
    ∃ next, (Command.make "in" "=" "db" true).run later = (.success (Command.line "3".toUTF8), next) ∧
      next.held "db" = .file (Image.ofRecords records) := by
  intro records text disk later
  have clean : ∀ record ∈ records, Lines.Clean 61 record := by decide
  have image : imageOf 8192 records = .ok (Image.ofRecords records) :=
    Builder.imageOf_eq_ok_iff.2 ⟨by decide, rfl⟩
  have held : disk.held "db" = .file (Image.ofRecords records) := by rfl
  have printed : Command.listing (String.singleton '=').toUTF8 records = text := by rfl
  have steady : later.Steady := fun fate member => absurd member List.not_mem_nil
  have tree : later.Tree := (Disk.sound_oneName "in" (by decide)).tree
  have held' : later.held "in" = .file text := by rfl
  have writable : later.Writable "db" := ⟨["db"], by rfl, by decide⟩
  have temporary : later.Writable "db.tmp" := ⟨["db.tmp"], by rfl, by decide⟩
  have apart : later.Apart "db.tmp" "in" := by
    intro file found
    have missing : later.openRead "db.tmp" = .error Errno.notFound.toIoError := by rfl
    rw [missing] at found
    cases found
  obtain ⟨dumped, makes⟩ :=
    text_round_trip '=' (by decide) (by decide) records clean 8192 _ image disk "db" held
  rw [printed] at dumped makes
  have counted : toString records.length = "3" := by decide
  rw [counted] at makes
  have made := makes true later "in" "db" steady tree held' writable temporary apart
  exact ⟨clean, image, held, steady, tree, held', writable, temporary, apart, dumped, made⟩

/-- A text that stands where the unfinished file goes is emptied before it is read. -/
theorem text_lost_as_unfinished :
    let records : List Record := [⟨"k".toUTF8, "v".toUTF8⟩]
    let disk : Disk :=
      ⟨[(["db"], .file 0), (["x.tmp"], .file 1)], #[Image.ofRecords records, oneLine], []⟩
    (∀ record ∈ records, Lines.Clean 61 record) ∧ imageOf 8192 records = .ok (Image.ofRecords records) ∧
      disk.held "db" = .file (Image.ofRecords records) ∧
      (Command.dump "db" "=").run disk = (.success oneLine, disk) ∧ disk.held "x.tmp" = .file oneLine ∧
      ∃ next, (Command.make "x.tmp" "=" "x" true).run disk = (.success (Command.line "0".toUTF8), next) ∧
        next.held "x" = .file (Image.ofRecords []) ∧ Image.ofRecords [] ≠ Image.ofRecords records := by
  intro records disk
  have clean : ∀ record ∈ records, Lines.Clean 61 record := by decide
  have fits : Image.Fits records := by decide
  have held : disk.held "db" = .file (Image.ofRecords records) := by rfl
  have printed : Command.listing "=".toUTF8 records = oneLine := by rfl
  refine ⟨clean, Builder.imageOf_eq_ok_iff.2 ⟨fits, rfl⟩, held, ?_, by rfl, ?_⟩
  · rw [← printed]
    exact Command.run_dump "=" fits held
  let opened : Disk := ⟨disk.names, #[Image.ofRecords records, .empty], []⟩
  let draft : Draft := ⟨.fresh 8192, ⟨1, headerSize⟩, "x.tmp", "x", true⟩
  have found : disk.openRead "x.tmp" = .ok (.file 1) := by rfl
  have created : Draft.create "x" .default disk = .ok draft opened := by rfl
  have building : Draft.BuildingPlain opened 1 .empty [] (draft, opened) :=
    Draft.buildingPlain_fresh 8192 "x.tmp" "x" true rfl Nat.one_lt_two
  have installs : ∀ files : Array ByteArray, Disk.install "x.tmp" "x" true ⟨disk.names, files, []⟩ =
      .ok () ⟨[(["db"], .file 0), (["x"], .file 1)], files, []⟩ := fun _ => by rfl
  obtain ⟨files, made, written⟩ := makeDatabase_plain 61 found created building
    (Reads.delivers_ofBytes .empty) (by decide) installs
  have first : "=".toUTF8.data[0]? = some 61 := by rfl
  refine ⟨⟨[(["db"], .file 0), (["x"], .file 1)], files, []⟩, ?_, ?_, ?_⟩
  · exact Command.run_make_of_made first made
  · exact congrArg Disk.Held.file (written.trans (Bytes.overwrite_zero (Nat.zero_le _)))
  · intro same
    have sizes := congrArg ByteArray.size same
    rw [Image.size_ofRecords, Image.size_ofRecords] at sizes
    revert sizes
    decide

end ConstDb
