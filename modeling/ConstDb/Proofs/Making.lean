import ConstDb.Proofs.Disk.Unfinished
import ConstDb.Proofs.LineRecords
import ConstDb.Proofs.Plain

/-!
# Databases from text files

Making a database from a text file installs the image of the records of the text, or leaves all but the
unfinished file as it was (`makeDatabase_builds`). That is so if the place of the unfinished file is neither
that of the input nor that of the output, and a file that stands there has no other name: the file there is
emptied before the input is read.
-/

namespace ConstDb

open Effect

abbrev Config.tempPath (config : Config) (output : String) : String := tempPathFor output config.tempSuffix

/-! ## Drafts of any records -/

namespace Draft

variable {disk opened : Disk} {place : Place} {file : FileId} {tempPath destination : String}
variable {accepted : List Record} {state : Draft × Disk}

/-- A draft under construction, or one that has failed, and the paths it was made for. -/
structure Making (opened : Disk) (file : FileId) (tempPath destination : String) (accepted : List Record)
    (state : Draft × Disk) : Prop where
  kept : Builder.Kept (Disk.Handle.Shows opened file) .empty accepted
    (state.1.builder, state.1.handle, state.2)
  tempPath_eq : state.1.tempPath = tempPath
  destination_eq : state.1.destination = destination

theorem Making.unfinished (making : Making opened file tempPath destination accepted state)
    (opening : Disk.Opened disk place file opened) : Disk.Unfinished disk place file state.2 := by
  obtain ⟨content, offset, shown⟩ := making.kept.shown
  exact opening.unfinished shown

theorem Making.add (making : Making opened file tempPath destination accepted state) (record : Record) :
    Ends (add record) state (fun _ => Making opened file tempPath destination (accepted ++ [record]))
      (fun _ => Making opened file tempPath destination accepted) := by
  obtain ⟨kept, tempPath_eq, destination_eq⟩ := making
  have ends := Builder.add_ends (Disk.Handle.fileLike opened file) record kept
  refine onBuilder_ends (ends.mono ?_ ?_)
  · exact fun _ t building => ⟨.inl building, tempPath_eq, destination_eq⟩
  · exact fun _ t failed => ⟨.inr failed.2, tempPath_eq, destination_eq⟩

theorem Making.discard (making : Making opened file tempPath destination accepted state)
    (opening : Disk.Opened disk place file opened) (named : disk.place? tempPath = some place) :
    Disk.Confined (· = place) (· = file) disk (state.1.discard state.2) := by
  have named : disk.place? state.1.tempPath = some place := by rw [making.tempPath_eq, named]
  have ends := (making.unfinished opening).remove named
  unfold Draft.discard
  cases eq : Disk.remove state.1.tempPath state.2 with
  | ok _ next => exact ends.of_ok eq
  | error e next => exact ends.of_error eq

theorem Making.complete (making : Making opened file tempPath destination accepted state)
    (opening : Disk.Opened disk place file opened) :
    Ends state.1.complete state.2
      (fun _ next => Image.Fits accepted ∧ Disk.Unfinished disk place file next ∧
        next.bytes file = Image.ofRecords accepted)
      (fun _ => Disk.Unfinished disk place file) := by
  refine Ends.within (onBuilder_ends ?_)
  refine (Builder.finish_ends (Disk.Handle.fileLike opened file) making.kept).mono ?_ ?_
  · intro _ t h
    obtain ⟨fits, -, offset, shown⟩ := h
    rw [Bytes.overwrite_zero (by simp)] at shown
    exact ⟨fits, opening.unfinished shown, shown.content_eq⟩
  · intro e t h
    obtain ⟨-, content, offset, shown⟩ := h
    exact opening.unfinished shown

theorem Making.publish (making : Making opened file tempPath destination accepted state)
    (opening : Disk.Opened disk place file opened)
    (below : ∀ rest, rest ≠ [] → disk.node? (place ++ rest) = none)
    (named : disk.place? tempPath = some place) (unlike : disk.place? destination ≠ some place) :
    Ends state.1.publish state.2
      (fun _ next => Image.Fits accepted ∧ ∃ goal, disk.place? destination = some goal ∧
        Disk.Installed disk place goal file (Image.ofRecords accepted) next)
      (fun _ => Disk.Confined (· = place) (· = file) disk) := by
  obtain ⟨draft, mid⟩ := state
  obtain rfl := making.tempPath_eq
  obtain rfl := making.destination_eq
  have installing : Ends draft.installing mid
      (fun _ next => Image.Fits accepted ∧ ∃ goal, disk.place? draft.destination = some goal ∧
        Disk.Installed disk place goal file (Image.ofRecords accepted) next)
      (fun _ => Disk.Unfinished disk place file) := by
    refine Ends.bind ((making.complete opening).mono ?_ fun _ _ h => h)
    intro _ complete h
    obtain ⟨fits, unfinished, written⟩ := h
    refine (unfinished.install below named unlike draft.syncs).mono ?_ fun _ _ h => h
    rw [written]
    exact fun _ _ installed => ⟨fits, installed⟩
  rw [publish_eq]
  exact installing.cleaningUp fun e other unfinished => unfinished.remove named

theorem create_making (tree : disk.Tree) (config : Config)
    (alone : ∀ place file, disk.place? (config.tempPath destination) = some place →
      disk.node? place = some (.file file) → disk.Alone place file) :
    Ends (create destination config) disk
      (fun draft next => ∃ place file opened, disk.place? (config.tempPath destination) = some place ∧
        Disk.Opened disk place file opened ∧
        Making opened file (config.tempPath destination) destination [] (draft, next))
      (fun _ => Disk.Spares (fun place => disk.place? (config.tempPath destination) = some place) disk) := by
  refine Ends.bind (Ends.adaptExcept ((Disk.create_opened tree alone).mono ?_ ?_))
  · intro handle opened h
    obtain ⟨place, named, at_start, opening⟩ := h
    obtain ⟨file, offset⟩ := handle
    obtain rfl : offset = 0 := at_start
    have shown : Disk.Handle.Shows opened file (⟨file, 0⟩, opened) .empty 0 :=
      opening.empty ▸ Disk.Handle.shows_self opening.stored
    have ends := Builder.start_ends (Disk.Handle.fileLike opened file) config.bufferCapacity shown
    refine Ends.cleaningUp (?_ : Ends _ _ _ fun _ next => Disk.Unfinished disk place file next) ?_
    · cases started : Builder.start Disk.Handle.calls config.bufferCapacity (⟨file, 0⟩, opened) with
      | ok builder state =>
        obtain ⟨handle, next⟩ := state
        have making : Making opened file (config.tempPath destination) destination []
            (⟨builder, handle, config.tempPath destination, destination, config.syncs⟩, next) :=
          ⟨.inl (ends.of_ok started), rfl, rfl⟩
        exact ends_of_ok (by simp only [started]) ⟨place, file, opened, named, opening, making⟩
      | error e state =>
        obtain ⟨-, content, offset, shown⟩ := ends.of_error started
        exact ends_of_error (e := e) (by simp only [started]) (opening.unfinished shown)
    · intro e next unfinished
      apply (unfinished.remove named).mono
      · exact fun _ _ => opening.spares_named named
      · exact fun _ _ => opening.spares_named named
  · exact fun _ next same => Disk.spares_of_same same.1 same.2

end Draft

/-! ## Making databases -/

/-- Adds the lines of what `reads` says is read by now, and gives the draft up if that fails. -/
def Draft.fill (reads : Disk → Reads) (separator : UInt8) (draft : Draft) :
    Effect DbError Disk (Draft × Nat) := fun disk =>
  match Draft.addLines separator (reads disk) (draft, disk) with
  | .ok count (draft, disk) => .ok (draft, count) disk
  | .error e (draft, disk) => .error e (draft.discard disk)

/-- Makes a database from what is read once the unfinished file is there. -/
def makeFrom (reads : Disk → Reads) (separator : UInt8) (output : String) (config : Config) :
    Effect DbError Disk Nat := do
  let draft ← Draft.create output config
  let (draft, count) ← Draft.fill reads separator draft
  draft.publish
  return count

theorem makeDatabase_eq (input : String) (separator : UInt8) (output : String) (config : Config) :
    makeDatabase input separator output config = (do
      let disk ← get
      let node ← Effect.ofExcept ((disk.openRead input).mapError .io)
      makeFrom (·.reads node) separator output config) := rfl

/-- The output holds the image of the records, the unfinished file is gone, and all other paths hold what
they held. -/
structure Made (disk : Disk) (tempPath output : String) (records : List Record) (next : Disk) : Prop where
  fits : Image.Fits records
  output_eq : next.held output = .file (Image.ofRecords records)
  gone : next.held tempPath = .nothing
  spares : Disk.Spares
    (fun place => disk.place? tempPath = some place ∨ disk.place? output = some place) disk next

/-- The place of the unfinished file is not that of the output, and no second place leads to a file that
stands there. -/
structure Disk.Reserved (disk : Disk) (tempPath output : String) : Prop where
  unlike : ∀ {place}, disk.place? tempPath = some place → disk.place? output ≠ some place
  alone : ∀ place file, disk.place? tempPath = some place → disk.node? place = some (.file file) →
    disk.Alone place file

section made
variable {disk opened next : Disk} {place goal : Place} {file : FileId} {tempPath output : String}
variable {records : List Record}

theorem made_of_installed (opening : Disk.Opened disk place file opened)
    (named : disk.place? tempPath = some place) (named' : disk.place? output = some goal)
    (unlike : disk.place? output ≠ some place) (fits : Image.Fits records)
    (installed : Disk.Installed disk place goal file (Image.ofRecords records) next) :
    Made disk tempPath output records next := by
  have same := installed.confined.directories.place?_eq
  refine ⟨fits, ?_, ?_, ?_⟩
  · rw [Disk.held_of_place? ((same _).trans named'), installed.standing]
  · have unknown : disk.node? goal ≠ some (.file file) := fun known =>
      unlike (by rw [named', opening.alone goal known])
    rw [Disk.held_of_place? ((same _).trans named), Disk.standing, installed.gone unknown]
  · refine opening.spares (.inl named) (installed.confined.mono ?_ fun _ here => here)
    rintro other (here | here)
    · exact .inl (here ▸ named)
    · exact .inr (here ▸ named')

theorem Made.held_eq (made : Made disk tempPath output records next) {path : String}
    (apart : disk.place? path ≠ disk.place? tempPath) (apart' : disk.place? path ≠ disk.place? output) :
    next.held path = disk.held path := by
  apply made.spares
  rintro place named (here | here)
  · exact apart (named.trans here.symm)
  · exact apart' (named.trans here.symm)

end made

section making
variable {disk opened next : Disk} {place : Place} {file : FileId} {tempPath output : String}
variable {config : Config} {separator : UInt8} {reads : Disk → Reads} {draft : Draft}
variable {accepts : Nat → List Record → Prop}

/-- How the lines of an input are added to a draft: the draft is kept also when that fails. -/
abbrev Draft.Fills (reads : Disk → Reads) (separator : UInt8) (opened : Disk) (file : FileId)
    (tempPath output : String) (accepts : Nat → List Record → Prop) (state : Draft × Disk) : Prop :=
  Ends (Draft.addLines separator (reads state.2)) state
    (fun count t => ∃ accepted, accepts count accepted ∧ Draft.Making opened file tempPath output accepted t)
    (fun _ t => ∃ accepted, Draft.Making opened file tempPath output accepted t)

theorem Draft.fill_ends (opening : Disk.Opened disk place file opened)
    (named : disk.place? tempPath = some place)
    (fills : Draft.Fills reads separator opened file tempPath output accepts (draft, next)) :
    Ends (draft.fill reads separator) next
      (fun filled t => ∃ accepted, accepts filled.2 accepted ∧
        Draft.Making opened file tempPath output accepted (filled.1, t))
      (fun _ => Disk.Confined (· = place) (· = file) disk) := by
  cases eq : Draft.addLines separator (reads next) (draft, next) with
  | ok count t =>
    obtain ⟨draft', next'⟩ := t
    have filled : draft.fill reads separator next = .ok (draft', count) next' := by simp only [fill, eq]
    exact ends_of_ok filled (fills.of_ok eq)
  | error e t =>
    obtain ⟨draft', next'⟩ := t
    obtain ⟨accepted, making⟩ := fills.of_error eq
    have failed : draft.fill reads separator next = .error e (draft'.discard next') := by
      simp only [fill, eq]
    exact ends_of_error failed (making.discard opening named)

theorem makeFrom_ends (accepts : Nat → List Record → Prop) (tree : disk.Tree)
    (reserved : disk.Reserved (config.tempPath output) output)
    (fills : ∀ place file opened state, disk.place? (config.tempPath output) = some place →
      Disk.Opened disk place file opened →
      Draft.Making opened file (config.tempPath output) output [] state →
      Draft.Fills reads separator opened file (config.tempPath output) output accepts state) :
    Ends (makeFrom reads separator output config) disk
      (fun count next => ∃ accepted, accepts count accepted ∧
        Made disk (config.tempPath output) output accepted next)
      (fun _ => Disk.Spares (fun place => disk.place? (config.tempPath output) = some place) disk) := by
  refine Ends.bind ((Draft.create_making tree config reserved.alone).mono ?_ fun _ _ h => h)
  intro draft next h
  obtain ⟨place, file, opened, named, opening, making⟩ := h
  have filled := Draft.fill_ends opening named (fills place file opened _ named opening making)
  refine Ends.bind (filled.mono ?_ fun _ _ => opening.spares_named named)
  rintro ⟨draft, count⟩ mid ⟨accepted, accepts, making⟩
  have published := making.publish opening (opening.nothing_below tree) named (reserved.unlike named)
  refine Ends.bind (published.mono ?_ fun _ _ => opening.spares_named named)
  intro _ last h
  obtain ⟨fits, goal, named', installed⟩ := h
  exact ends_pure ⟨accepted, accepts,
    made_of_installed opening named named' (reserved.unlike named) fits installed⟩

/-- Whatever is read, and also if reading fails. -/
theorem Draft.fills_of_reads {accepted : List Record} {state : Draft × Disk}
    (making : Draft.Making opened file tempPath output accepted state) :
    Draft.Fills reads separator opened file tempPath output (fun _ _ => True) state := by
  have kept : ∃ accepted, Draft.Making opened file tempPath output accepted state := ⟨_, making⟩
  have step : ∀ record t, (∃ accepted, Draft.Making opened file tempPath output accepted t) →
      Ends (add record) t (fun _ t => ∃ accepted, Draft.Making opened file tempPath output accepted t)
        fun _ t => ∃ accepted, Draft.Making opened file tempPath output accepted t := by
    rintro record t ⟨accepted, making⟩
    exact (making.add record).mono (fun _ _ making => ⟨_, making⟩) fun _ _ making => ⟨_, making⟩
  refine (Lines.addReads_ends step separator (reads state.2) [] 0 kept).mono ?_ fun _ _ h => h
  rintro count t ⟨accepted, making⟩
  exact ⟨accepted, trivial, making⟩

theorem Draft.fills_of_delivers {text : List UInt8} {state : Draft × Disk}
    (making : Draft.Making opened file tempPath output [] state)
    (delivers : (reads state.2).Delivers text) :
    Draft.Fills reads separator opened file tempPath output
      (fun count accepted => accepted = Lines.records separator text ∧ count = accepted.length) state := by
  have step : ∀ accepted record t, Draft.Making opened file tempPath output accepted t →
      Ends (add record) t (fun _ => Draft.Making opened file tempPath output (accepted ++ [record]))
        fun _ t => ∃ accepted, Draft.Making opened file tempPath output accepted t := by
    intro accepted record t making
    exact (making.add record).mono (fun _ _ making => making) fun _ _ making => ⟨_, making⟩
  refine (Lines.addAll_ends step delivers making).mono ?_ fun _ _ h => h
  rintro count t ⟨counted, making⟩
  exact ⟨_, ⟨rfl, counted⟩, making⟩

theorem makeFrom_file (separator : UInt8) {source : Place} {id : FileId} (tree : disk.Tree)
    (reserved : disk.Reserved (config.tempPath output) output) (leads : disk.node? source = some (.file id))
    (apart : disk.place? (config.tempPath output) ≠ some source) :
    Ends (makeFrom (·.reads (.file id)) separator output config) disk
      (fun count next => count = (Lines.records separator (disk.bytes id).data.toList).length ∧
        Made disk (config.tempPath output) output
          (Lines.records separator (disk.bytes id).data.toList) next)
      (fun _ => Disk.Spares (fun place => disk.place? (config.tempPath output) = some place) disk) := by
  let accepts (count : Nat) (accepted : List Record) : Prop :=
    accepted = Lines.records separator (disk.bytes id).data.toList ∧ count = accepted.length
  refine (makeFrom_ends accepts tree reserved ?_).mono ?_ fun _ _ h => h
  · intro place file opened state named opening making
    -- the input is not the file that was emptied, so it still holds what it held
    have other : id ≠ file := by
      intro same
      rw [← opening.alone source (same ▸ leads)] at named
      exact apart named
    have unread : state.2.bytes id = disk.bytes id := (making.unfinished opening).confined.bytes_eq other
    apply Draft.fills_of_delivers making
    rw [← unread]
    exact Reads.delivers_ofBytes _
  · rintro count next ⟨_, ⟨rfl, counted⟩, made⟩
    exact ⟨counted, made⟩

theorem makeFrom_directory (separator : UInt8) (tree : disk.Tree)
    (reserved : disk.Reserved (config.tempPath output) output) :
    Ends (makeFrom (·.reads .directory) separator output config) disk (fun _ _ => False)
      (fun _ => Disk.Spares (fun place => disk.place? (config.tempPath output) = some place) disk) := by
  refine (makeFrom_ends (fun _ _ => False) tree reserved ?_).mono ?_ fun _ _ h => h
  · intro place file opened state _ _ making
    exact ends_throw ⟨[], making⟩
  · rintro count next ⟨accepted, never, -⟩
    exact never

theorem makeDatabase_ends (separator : UInt8) {input : String} (tree : disk.Tree)
    (reserved : disk.Reserved (config.tempPath output) output)
    (apart : ∀ place, disk.place? (config.tempPath output) = some place → disk.place? input ≠ some place) :
    Ends (makeDatabase input separator output config) disk
      (fun count next => ∃ content, disk.held input = .file content ∧
        count = (Lines.records separator content.data.toList).length ∧
        Made disk (config.tempPath output) output (Lines.records separator content.data.toList) next)
      (fun _ => Disk.Spares (fun place => disk.place? (config.tempPath output) = some place) disk) := by
  rw [makeDatabase_eq]
  refine Ends.bind (ends_get (Ends.bind (ends_ofExcept ?_ fun e _ => Disk.spares_of_same rfl rfl)))
  intro node eq
  cases found : disk.openRead input with
  | error e =>
    rw [found] at eq
    cases eq
  | ok node' =>
    rw [found] at eq
    cases eq
    cases node with
    | directory =>
      exact (makeFrom_directory separator tree reserved).mono (fun _ _ never => never.elim) fun _ _ h => h
    | file id =>
      obtain ⟨source, named, leads⟩ := Disk.exists_place_of_openRead found
      have held : disk.held input = .file (disk.bytes id) := by
        rw [Disk.held_of_place? named, Disk.standing, leads]
      have unlike : disk.place? (config.tempPath output) ≠ some source := fun here => apart source here named
      refine (makeFrom_file separator tree reserved leads unlike).mono ?_ fun _ _ h => h
      exact fun count next made => ⟨disk.bytes id, held, made⟩

end making

/-- Where the file of a draft takes everything, a database is made of all records that are read, if they
fit and what is then on the disk can be installed. -/
theorem makeDatabase_sure {shows : Disk.Handle × Disk → ByteArray → Nat → Prop} {disk opened : Disk}
    {node : Node} {draft : Draft} {old : ByteArray} {text : List UInt8} {input output : String}
    {config : Config} {post : Disk → Prop} (separator : UInt8)
    (sure : FileLike Disk.Handle.calls shows False) (found : disk.openRead input = .ok node)
    (created : Draft.create output config disk = .ok draft opened)
    (building : Draft.Building shows old [] (draft, opened))
    (delivers : (opened.reads node).Delivers text) (fits : Image.Fits (Lines.records separator text))
    (installs : ∀ handle next offset, shows (handle, next)
        (Bytes.overwrite old 0 (Image.ofRecords (Lines.records separator text))) offset →
      ∃ last, Disk.install draft.tempPath draft.destination draft.syncs next = .ok () last ∧ post last) :
    ∃ last, makeDatabase input separator output config disk =
      .ok (Lines.records separator text).length last ∧ post last := by
  have room : headerSize + Image.recordsSize ([] ++ Lines.records separator text) ≤ Position.limit :=
    Nat.le_trans (Nat.le_add_right _ _) fits
  obtain ⟨filled, next, added, building, same⟩ := Draft.forM_sure sure _ building room
  obtain ⟨last, published, h⟩ := Draft.publish_sure sure building fits fun handle next offset shown => by
    rw [same.tempPath_eq, same.destination_eq, same.syncs_eq]
    exact installs handle next offset shown
  refine ⟨last, ?_, h⟩
  have ingested : Draft.addLines separator (opened.reads node) (draft, opened) =
      .ok (Lines.records separator text).length (filled, next) := by
    unfold Draft.addLines
    rw [Lines.addAll_eq delivers, Lines.addText, bind_apply]
    simp only [added]
    exact congrArg (EStateM.Result.ok · _) (Nat.zero_add _)
  have got : (get : Effect DbError Disk Disk) disk = .ok disk disk := rfl
  simp only [makeDatabase_eq, makeFrom, Draft.fill, bind_apply, got, found, Except.mapError, ofExcept_ok,
    created, ingested, published]
  rfl

theorem makeDatabase_plain {disk opened : Disk} {node : Node} {draft : Draft} {file : FileId}
    {old : ByteArray} {text : List UInt8} {names : List (Place × Node)} {input output : String}
    {config : Config} (separator : UInt8) (found : disk.openRead input = .ok node)
    (created : Draft.create output config disk = .ok draft opened)
    (building : Draft.BuildingPlain opened file old [] (draft, opened))
    (delivers : (opened.reads node).Delivers text) (fits : Image.Fits (Lines.records separator text))
    (installs : ∀ files : Array ByteArray, Disk.install draft.tempPath draft.destination draft.syncs
      ⟨opened.names, files, []⟩ = .ok () ⟨names, files, []⟩) :
    ∃ files, makeDatabase input separator output config disk =
        .ok (Lines.records separator text).length ⟨names, files, []⟩ ∧
      (⟨names, files, []⟩ : Disk).bytes file =
        Bytes.overwrite old 0 (Image.ofRecords (Lines.records separator text)) := by
  let image := Image.ofRecords (Lines.records separator text)
  have installed : ∀ handle next offset,
      Disk.Handle.ShowsPlain opened file (handle, next) (Bytes.overwrite old 0 image) offset →
      ∃ last, Disk.install draft.tempPath draft.destination draft.syncs next = .ok () last ∧
        ∃ files, last = ⟨names, files, []⟩ ∧ last.bytes file = Bytes.overwrite old 0 image := by
    intro handle next offset shown
    have next_eq : next = ⟨opened.names, next.files, []⟩ := Draft.plain_of_shown ⟨_, _, shown⟩
    rw [next_eq]
    exact ⟨_, installs _, _, rfl, shown.1.content_eq⟩
  obtain ⟨_, made, files, rfl, written⟩ := makeDatabase_sure separator
    (Disk.Handle.fileLike_plain opened file) found created building delivers fits installed
  exact ⟨files, made, written⟩

/-- **Making a database.** What is made is the image of the records that the input held when the call began,
and nothing else but the unfinished file has changed. A call that fails leaves the input and the output alone,
also if it is the reading of the input that fails. -/
theorem makeDatabase_builds (disk : Disk) (tree : disk.Tree) (input : String) (separator : UInt8)
    (output : String) (config : Config) (reserved : disk.Reserved (config.tempPath output) output)
    (apart : ∀ place, disk.place? (config.tempPath output) = some place → disk.place? input ≠ some place) :
    (∀ count next, makeDatabase input separator output config disk = .ok count next →
      ∃ content, disk.held input = .file content ∧
        count = (Lines.records separator content.data.toList).length ∧
        next.HoldsImage output (Lines.records separator content.data.toList) ∧
        next.held (config.tempPath output) = .nothing ∧
        ∀ path, disk.place? path ≠ disk.place? (config.tempPath output) →
          disk.place? path ≠ disk.place? output → next.held path = disk.held path) ∧
    ∀ e next, (makeDatabase input separator output config disk = .error e next ∨
        ∃ reads, makeFrom reads separator output config disk = .error e next) →
      next.held output = disk.held output ∧ next.held input = disk.held input := by
  have ends := makeDatabase_ends separator tree reserved apart
  constructor
  · intro count next eq
    obtain ⟨content, held, counted, made⟩ := ends.of_ok eq
    have holds := Disk.holdsImage_of_fits made.fits made.output_eq
    exact ⟨content, held, counted, holds, made.gone, fun path => made.held_eq⟩
  · intro e next failed
    have spares : Disk.Spares (fun place => disk.place? (config.tempPath output) = some place) disk next := by
      rcases failed with eq | ⟨reads, eq⟩
      · exact ends.of_error eq
      · refine (makeFrom_ends (fun _ _ => True) tree reserved ?_).of_error eq
        exact fun _ _ _ _ _ _ making => Draft.fills_of_reads making
    constructor
    · exact spares output fun place named here => reserved.unlike here named
    · exact spares input fun place named here => apart place here named

def oneLine : ByteArray := "k=v\n".toUTF8

theorem makeDatabase_oneLine : ∃ next,
    makeDatabase "in" 61 "db" .default (Disk.oneName "in" #[oneLine]) = .ok 1 next := by
  let opened : Disk := ⟨[(["db.tmp"], .file 1), (["in"], .file 0)], #[oneLine, .empty], []⟩
  have found : (Disk.oneName "in" #[oneLine]).openRead "in" = .ok (.file 0) := by rfl
  have created : Draft.create "db" .default (Disk.oneName "in" #[oneLine]) = .ok (.begun 1) opened := by rfl
  have building : Draft.BuildingPlain opened 1 .empty [] (.begun 1, opened) :=
    Draft.buildingPlain_begun rfl Nat.one_lt_two
  obtain ⟨files, made, -⟩ := makeDatabase_plain 61 found created building (Reads.delivers_ofBytes oneLine)
    (by decide) fun _ => by rfl
  exact ⟨_, made⟩

theorem makeDatabase_builds_oneLine :
    let disk := Disk.oneName "in" #[oneLine]
    disk.Tree ∧ disk.Reserved "db.tmp" "db" ∧
      (∀ place, disk.place? "db.tmp" = some place → disk.place? "in" ≠ some place) ∧
      ∃ next, makeDatabase "in" 61 "db" .default disk = .ok 1 next ∧
        next.held "db" = .file (Image.ofRecords [⟨"k".toUTF8, "v".toUTF8⟩]) ∧
        next.held "db.tmp" = .nothing ∧ next.held "in" = .file oneLine := by
  intro disk
  have tree : disk.Tree := (Disk.sound_oneName "in" (by decide)).tree
  have named : disk.place? "db.tmp" = some ["db.tmp"] := by rfl
  have reserved : disk.Reserved "db.tmp" "db" := by
    refine ⟨?_, ?_⟩
    · intro place here
      obtain rfl := Option.some.inj (named.symm.trans here)
      decide
    · intro place file here leads
      obtain rfl := Option.some.inj (named.symm.trans here)
      cases leads
  have apart : ∀ place, disk.place? "db.tmp" = some place → disk.place? "in" ≠ some place := by
    intro place here
    obtain rfl := Option.some.inj (named.symm.trans here)
    decide
  obtain ⟨next, made⟩ := makeDatabase_oneLine
  obtain ⟨content, held, -, output, gone, others⟩ :=
    (makeDatabase_builds disk tree "in" 61 "db" .default reserved apart).1 _ _ made
  have content_eq : disk.held "in" = .file oneLine := by rfl
  rw [content_eq] at held
  cases held
  refine ⟨tree, reserved, apart, next, made, output.held, gone, ?_⟩
  exact (others "in" (by decide) (by decide)).trans content_eq

/-- An input that stands where the unfinished file goes is emptied before it is read. -/
theorem makeDatabase_of_unfinished :
    let disk := Disk.oneName "db.tmp" #[oneLine]
    Config.default.check = .ok .default ∧ disk.held "db.tmp" = .file oneLine ∧
      Lines.records 61 oneLine.data.toList = [⟨"k".toUTF8, "v".toUTF8⟩] ∧
      ∃ next, makeDatabase "db.tmp" 61 "db" .default disk = .ok 0 next ∧
        next.held "db" = .file (Image.ofRecords []) := by
  intro disk
  refine ⟨Config.check_default, by rfl, by rfl, ?_⟩
  have found : disk.openRead "db.tmp" = .ok (.file 0) := by rfl
  have created : Draft.create "db" .default disk = .ok (.begun 0) (Disk.oneName "db.tmp" #[.empty]) := by rfl
  have building : Draft.BuildingPlain (Disk.oneName "db.tmp" #[.empty]) 0 .empty []
      (.begun 0, Disk.oneName "db.tmp" #[.empty]) := Draft.buildingPlain_begun rfl Nat.zero_lt_one
  obtain ⟨files, made, written⟩ := makeDatabase_plain 61 found created building
    (Reads.delivers_ofBytes .empty) (by decide) fun _ => by rfl
  refine ⟨_, made, (Disk.held_oneName rfl).trans (congrArg Disk.Held.file ?_)⟩
  exact written.trans (Bytes.overwrite_zero (Nat.zero_le _))

end ConstDb
