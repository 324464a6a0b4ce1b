import ConstDb.Proofs.Disk.Steady
import ConstDb.Proofs.Making

/-!
# Databases from text files on steady disks

On a steady disk a database is made of a text whose records fit (`makeDatabase_steady`), as long as the file
that the text is read from is not the one that is emptied to hold the unfinished database.
-/

namespace ConstDb

open Effect

namespace Disk

variable {disk : Disk} {text : String} {place : Place} {file : FileId}

/-- The path leads to a place where a file can be made, or stands already. -/
def Writable (disk : Disk) (text : String) : Prop :=
  ∃ place, disk.place? text = some place ∧ disk.node? place ≠ some .directory

/-- The paths do not lead to one file. -/
def Apart (disk : Disk) (text other : String) : Prop :=
  ∀ file, disk.openRead text = .ok (.file file) → disk.openRead other ≠ .ok (.file file)

theorem openRead_of_place? (named : disk.place? text = some place)
    (stands : disk.node? place = some (.file file)) : disk.openRead text = .ok (.file file) := by
  obtain ⟨directory, name, resolved, short, rfl⟩ := place?_eq_some_iff.1 named
  have entry : disk.entry? directory name = .ok (some (.file file)) := by simp [short, stands, entry?]
  rw [openRead, resolved]
  exact mapError_eq_ok_iff.2 (by rw [lookupTarget, entry]; rfl)

/-- A file that was written at a place of the first disk is put where the destination led on that disk. -/
theorem install_steady {next : Disk} {tempPath destination : String}
    (unfinished : Unfinished disk place file next) (steady : next.Steady) (tree : disk.Tree)
    (named : disk.place? tempPath = some place) (free : disk.node? place ≠ some .directory)
    (writable : disk.Writable destination) (unlike : disk.place? destination ≠ some place) (syncs : Bool) :
    ∃ last, install tempPath destination syncs next = .ok () last ∧
      last.held destination = .file (next.bytes file) := by
  obtain ⟨goal, named', free'⟩ := writable
  have elsewhere : place ≠ goal := fun same => unlike (by rw [named', same])
  obtain ⟨last, installed⟩ := steady.install tree unfinished.confined.directories named unfinished.node_eq
    named' free' elsewhere syncs
  obtain ⟨goal', named'', done⟩ :=
    (unfinished.install (tree.nothing_below free) named unlike syncs).of_ok installed
  have leads := (done.confined.directories.place?_eq destination).trans named''
  exact ⟨last, installed, (held_of_place? leads).trans done.standing⟩

end Disk

namespace Draft

variable {disk : Disk} {place : Place} {output : String} {config : Config}

/-- What stood at the place before may be any file, and a file that stood elsewhere only is another one. -/
theorem create_steady (steady : disk.Steady) (tree : disk.Tree)
    (named : disk.place? (config.tempPath output) = some place)
    (free : disk.node? place ≠ some .directory) :
    ∃ file opened builder handle later,
      create output config disk =
        .ok ⟨builder, handle, config.tempPath output, output, config.syncs⟩ later ∧
      Disk.Unfinished disk place file opened ∧
      (∀ other < disk.files.size, disk.node? place ≠ some (.file other) → other ≠ file) ∧
      Builder.Building (Disk.Handle.ShowsSteady opened file) .empty [] (builder, handle, later) := by
  obtain ⟨handle, opened, created, steady⟩ := steady.create named free
  obtain ⟨place', named', at_start, confined, node, empty, stored, before⟩ :=
    Disk.create_confined tree created
  obtain rfl : place = place' := Option.some.inj (named.symm.trans named')
  obtain ⟨file, offset⟩ := handle
  obtain rfl : offset = 0 := at_start
  have shown : Disk.Handle.ShowsSteady opened file (⟨file, 0⟩, opened) .empty 0 :=
    ⟨empty ▸ Disk.Handle.shows_self stored, steady⟩
  obtain ⟨builder, ⟨handle, later⟩, started, building⟩ :=
    (Builder.start_ends (Disk.Handle.fileLike_steady opened file) config.bufferCapacity shown).exists_ok
      fun _ _ failed => failed.1
  refine ⟨file, opened, builder, handle, later, ?_, ⟨confined, node⟩, ?_, building⟩
  · unfold create
    simp only [bind_apply, adaptExcept_apply, created, cleaningUp, started]
  · rintro other known elsewhere rfl
    rcases before with stood | ⟨-, fresh⟩
    · exact elsewhere stood
    · exact Nat.lt_irrefl _ (fresh ▸ known)

end Draft

theorem makeDatabase_steady {disk : Disk} {input output : String} {content : ByteArray} (separator : UInt8)
    (config : Config) (steady : disk.Steady) (tree : disk.Tree) (held : disk.held input = .file content)
    (fits : Image.Fits (Lines.records separator content.data.toList))
    (temporary : disk.Writable (config.tempPath output)) (writable : disk.Writable output)
    (unlike : disk.place? (config.tempPath output) ≠ disk.place? output)
    (apart : disk.Apart (config.tempPath output) input) :
    ∃ next, makeDatabase input separator output config disk =
        .ok (Lines.records separator content.data.toList).length next ∧
      next.held output = .file (Image.ofRecords (Lines.records separator content.data.toList)) := by
  obtain ⟨place, named, free⟩ := temporary
  obtain ⟨source, id, at_source, leads, rfl⟩ := Disk.place?_of_held held
  have found := Disk.openRead_of_place? at_source leads
  have other : disk.node? place ≠ some (.file id) := fun stands =>
    apart id (Disk.openRead_of_place? named stands) found
  rw [named] at unlike
  obtain ⟨file, opened, builder, handle, later, created, unfinished, differs, building⟩ :=
    Draft.create_steady steady tree named free
  obtain ⟨content, offset, shown, -⟩ := building.written.shown
  have unread : later.bytes id = disk.bytes id := by
    have unlike := differs id (tree.stored leads) other
    rw [shown.bytes_eq id unlike, unfinished.confined.bytes_eq unlike]
  have delivers : (later.reads (.file id)).Delivers (disk.bytes id).data.toList := by
    rw [← unread]
    exact Reads.delivers_ofBytes _
  refine makeDatabase_sure separator (Disk.Handle.fileLike_steady opened file) found created building
    delivers fits ?_
  intro handle next offset shown
  obtain ⟨shown, steady⟩ := shown
  rw [Bytes.overwrite_zero (Nat.zero_le _)] at shown
  -- the disk with the complete file in its place differs from the first one there only
  have complete : Disk.Unfinished disk place file next :=
    ⟨unfinished.confined.trans shown.confined,
      by rw [Disk.node?_of_names shown.names_eq, unfinished.node_eq]⟩
  obtain ⟨last, installed, holds⟩ := Disk.install_steady complete steady tree named free writable
    unlike.symm config.syncs
  exact ⟨last, installed, by rw [holds, shown.content_eq]⟩

end ConstDb
