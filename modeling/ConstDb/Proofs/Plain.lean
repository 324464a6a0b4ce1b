import ConstDb.Proofs.Disk.Confined
import ConstDb.Proofs.Draft

/-!
# Drafts on plain disks

On a plain disk a draft takes every record that fits, and completing it leaves the image in its file, also
when the file holds something else by then (`add_plain`, `complete_plain`). So a draft whose file was renamed
by somebody else is written all the same, and only then fails to be published (`publish_late`).
-/

namespace ConstDb

open Effect Image

namespace Draft

variable {start disk : Disk} {file : FileId} {old : ByteArray} {accepted : List Record} {draft : Draft}

/-- A draft on a plain disk that writes over `old`. -/
abbrev BuildingPlain (start : Disk) (file : FileId) : ByteArray → List Record → Draft × Disk → Prop :=
  Building (Disk.Handle.ShowsPlain start file)

theorem buildingPlain_fresh (capacity : Nat) (tempPath destination : String) (syncs : Bool)
    (plain : disk.fates = []) (stored : file < disk.files.size) :
    BuildingPlain disk file (disk.bytes file) []
      (⟨.fresh capacity, ⟨file, headerSize⟩, tempPath, destination, syncs⟩, disk) :=
  Builder.building_fresh capacity ⟨Disk.Handle.shows_self stored, plain⟩

theorem plain_of_shown {handle : Disk.Handle}
    (shown : Shown (Disk.Handle.ShowsPlain start file) (handle, disk)) :
    disk = ⟨start.names, disk.files, []⟩ := by
  obtain ⟨content, offset, shown, plain⟩ := shown
  obtain ⟨names, files, fates⟩ := disk
  obtain rfl : names = start.names := shown.names_eq
  obtain rfl : fates = [] := plain
  rfl

theorem add_plain (record : Record) (building : BuildingPlain start file old accepted (draft, disk))
    (fits : headerSize + recordsSize (accepted ++ [record]) ≤ Position.limit) :
    ∃ draft' files, add record (draft, disk) = .ok () (draft', ⟨start.names, files, []⟩) ∧
      BuildingPlain start file old (accepted ++ [record]) (draft', ⟨start.names, files, []⟩) ∧
      SameAims draft draft' := by
  obtain ⟨draft', next, added, building, same⟩ :=
    add_sure (Disk.Handle.fileLike_plain start file) record building fits
  have next_eq : next = ⟨start.names, next.files, []⟩ := plain_of_shown building.written.shown
  rw [next_eq] at added building
  exact ⟨draft', next.files, added, building, same⟩

theorem complete_plain (building : BuildingPlain start file old accepted (draft, disk))
    (fits : Fits accepted) :
    ∃ files, draft.complete disk = .ok () ⟨start.names, files, []⟩ ∧ files.size = start.files.size ∧
      (⟨start.names, files, []⟩ : Disk).bytes file = Bytes.overwrite old 0 (ofRecords accepted) := by
  obtain ⟨handle, next, offset, completed, shown⟩ :=
    complete_sure (Disk.Handle.fileLike_plain start file) building fits
  have next_eq := plain_of_shown ⟨_, _, shown⟩
  have content := shown.1.content_eq
  rw [next_eq] at completed content
  exact ⟨next.files, completed, shown.1.size_eq, content⟩

/-- If the file can be installed whatever it holds, the draft is published. -/
theorem publish_plain {names : List (Place × Node)}
    (building : BuildingPlain start file old accepted (draft, disk)) (fits : Fits accepted)
    (installs : ∀ files : Array ByteArray, Disk.install draft.tempPath draft.destination draft.syncs
      ⟨start.names, files, []⟩ = .ok () ⟨names, files, []⟩) :
    ∃ files, draft.publish disk = .ok () ⟨names, files, []⟩ ∧ files.size = start.files.size ∧
      (⟨names, files, []⟩ : Disk).bytes file = Bytes.overwrite old 0 (ofRecords accepted) := by
  obtain ⟨files, completed, size, written⟩ := complete_plain building fits
  exact ⟨files, by simp only [publish, cleaningUp, bind_apply, completed, installs], size, written⟩

/-- A draft whose file has lost its name is written to the end, and is not published. -/
theorem publish_late (building : BuildingPlain start file old accepted (draft, disk)) (fits : Fits accepted)
    (missing : start.Missing draft.tempPath) :
    Ends draft.publish disk (fun _ _ => False) fun _ next =>
      next.names = start.names ∧ next.bytes file = Bytes.overwrite old 0 (ofRecords accepted) := by
  obtain ⟨files, completed, -, written⟩ := complete_plain building fits
  have keeps : ∀ {other next : Disk}, other.names = start.names ∧
      other.bytes file = Bytes.overwrite old 0 (ofRecords accepted) →
      next.names = other.names ∧ next.files = other.files →
      next.names = start.names ∧ next.bytes file = Bytes.overwrite old 0 (ofRecords accepted) := by
    intro other next kept same
    rw [Disk.bytes, same.1, same.2]
    exact kept
  have refused : Ends draft.installing disk (fun _ _ => False) fun _ next =>
      next.names = start.names ∧ next.bytes file = Bytes.overwrite old 0 (ofRecords accepted) := by
    have missing : (⟨start.names, files, []⟩ : Disk).Missing draft.tempPath := missing.of_names rfl
    refine Ends.bind (ends_of_ok completed ?_)
    apply (missing.install draft.destination draft.syncs).mono
    · exact fun _ _ h => h
    · intro _ next same
      apply keeps ?_ same
      exact ⟨rfl, written⟩
  rw [publish_eq]
  refine refused.cleaningUp fun e other kept => ?_
  have missing := missing.of_names kept.1
  exact missing.remove.mono (fun _ _ h => h.elim) fun _ _ same => keeps kept same

/-- A draft of "db" with the default settings that has just begun. -/
def begun (file : FileId) : Draft := ⟨.fresh 8192, ⟨file, headerSize⟩, "db.tmp", "db", true⟩

theorem buildingPlain_begun (plain : disk.fates = []) (stored : file < disk.files.size) :
    BuildingPlain disk file (disk.bytes file) [] (begun file, disk) :=
  buildingPlain_fresh 8192 "db.tmp" "db" true plain stored

end Draft

namespace Disk

theorem held_oneName {disk : Disk} {files : Array ByteArray}
    (names : disk.names = (oneName "db" files).names) :
    disk.held "db" = .file (disk.bytes 0) := by
  obtain ⟨_, files', fates⟩ := disk
  cases names
  rfl

end Disk

end ConstDb
