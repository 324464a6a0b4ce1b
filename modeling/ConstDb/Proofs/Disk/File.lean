import ConstDb.Disk.File
import ConstDb.Proofs.Disk
import ConstDb.Proofs.Output

/-!
# Open files as sinks

An open file is a file-like sink, whatever fails (`fileLike`), and on a plain disk nothing does
(`fileLike_plain`). Writing to it touches nothing but its own bytes (`Shows.frame`).
-/

namespace ConstDb.Disk.Handle

open Effect

structure Shows (start : Disk) (file : FileId) (state : Handle × Disk) (content : ByteArray)
    (offset : Nat) : Prop where
  handle_eq : state.1 = ⟨file, offset⟩
  names_eq : state.2.names = start.names
  size_eq : state.2.files.size = start.files.size
  bytes_eq : ∀ other, other ≠ file → state.2.bytes other = start.bytes other
  content_eq : state.2.bytes file = content
  stored : file < start.files.size

variable {start disk : Disk} {file : FileId} {handle : Handle} {state : Handle × Disk}
variable {content : ByteArray} {offset : Nat}

theorem shows_self (stored : file < disk.files.size) :
    Shows disk file (⟨file, offset⟩, disk) (disk.bytes file) offset :=
  ⟨rfl, rfl, rfl, fun _ _ => rfl, rfl, stored⟩

theorem Shows.restart (shown : Shows start file (handle, disk) content offset) :
    Shows disk file (handle, disk) content offset :=
  ⟨shown.handle_eq, rfl, rfl, fun _ _ => rfl, shown.content_eq, shown.size_eq ▸ shown.stored⟩

theorem Shows.nextFate (shown : Shows start file (handle, disk) content offset) :
    Shows start file (handle, disk.nextFate.2) content offset := by
  obtain ⟨handle_eq, names_eq, size_eq, bytes_eq, content_eq, stored⟩ := shown
  obtain ⟨names, files, fates⟩ := disk
  cases fates <;> exact ⟨handle_eq, names_eq, size_eq, bytes_eq, content_eq, stored⟩

theorem Shows.overwrite (shown : Shows start file (handle, disk) content offset) (taken : ByteArray)
    (count : Nat) :
    Shows start file (⟨file, offset + count⟩, disk.modifyBytes file (Bytes.overwrite · offset taken))
      (Bytes.overwrite content offset taken) (offset + count) := by
  obtain ⟨-, names_eq, size_eq, bytes_eq, content_eq, stored⟩ := shown
  have bytes := bytes_modifyBytes disk (Bytes.overwrite · offset taken) (size_eq ▸ stored : file < disk.files.size)
  refine ⟨rfl, names_eq, Array.size_modify.trans size_eq, ?_, ?_, stored⟩
  · intro other unlike
    rw [bytes, if_neg unlike, bytes_eq other unlike]
  · rw [bytes, if_pos rfl, content_eq]

theorem write_ends (bytes : ByteArray) (shown : Shows start file state content offset) :
    Ends (write bytes) state
      (fun count t => Shows start file t (Bytes.overwrite content offset (bytes.extract 0 count))
          (offset + count) ∧ (count = 0 → bytes.size = 0 ∨ True))
      (fun e t => if e.isInterrupted = true then Shows start file t content offset
        else True ∧ Shown (Shows start file) t) := by
  obtain ⟨handle, disk⟩ := state
  obtain rfl := shown.handle_eq
  have next := shown.nextFate
  cases fate : disk.nextFate.1 with
  | fail e =>
    refine ends_of_error (e := e) (t := (⟨file, offset⟩, disk.nextFate.2)) ?_ ?_
    · simp [write, fate]
    · split
      · exact next
      · exact ⟨trivial, _, _, next⟩
  | proceed =>
    exact ends_of_ok (by simp only [write, fate]; rfl) ⟨next.overwrite _ _, fun _ => .inr trivial⟩
  | accept limit =>
    exact ends_of_ok (by simp only [write, fate]; rfl) ⟨next.overwrite _ _, fun _ => .inr trivial⟩

theorem seek_ends (position : Nat) (shown : Shows start file state content offset) :
    Ends (seek position) state (fun _ t => Shows start file t content position)
      (fun _ t => True ∧ Shown (Shows start file) t) := by
  obtain ⟨handle, disk⟩ := state
  obtain rfl := shown.handle_eq
  have next := shown.nextFate
  have moved : Shows start file (⟨file, position⟩, disk.nextFate.2) content position :=
    ⟨rfl, next.names_eq, next.size_eq, next.bytes_eq, next.content_eq, next.stored⟩
  cases fate : disk.nextFate.1 with
  | fail e =>
    refine ends_of_error (e := e) (t := (⟨file, offset⟩, disk.nextFate.2)) ?_ ⟨trivial, _, _, next⟩
    simp [seek, fate]
  | proceed => exact ends_of_ok (by simp only [seek, fate]; rfl) moved
  | accept limit => exact ends_of_ok (by simp only [seek, fate]; rfl) moved

theorem fileLike (start : Disk) (file : FileId) : FileLike calls (Shows start file) True :=
  ⟨write_ends, seek_ends, fun shown => ends_pure shown⟩

/-- On a plain disk nothing that is asked of an open file fails. -/
def ShowsPlain (start : Disk) (file : FileId) (state : Handle × Disk) (content : ByteArray)
    (offset : Nat) : Prop := Shows start file state content offset ∧ state.2.fates = []

theorem ShowsPlain.nextFate (shown : ShowsPlain start file (handle, disk) content offset) :
    disk.nextFate = (.proceed, disk) := by
  obtain ⟨names, files, fates⟩ := disk
  obtain rfl : fates = [] := shown.2
  rfl

theorem write_plain (bytes : ByteArray) (shown : ShowsPlain start file state content offset) :
    Ends (write bytes) state
      (fun count t => ShowsPlain start file t (Bytes.overwrite content offset (bytes.extract 0 count))
          (offset + count) ∧ (count = 0 → bytes.size = 0 ∨ False))
      (fun e t => if e.isInterrupted = true then ShowsPlain start file t content offset
        else False ∧ Shown (ShowsPlain start file) t) := by
  obtain ⟨handle, disk⟩ := state
  have fate := shown.nextFate
  obtain ⟨shown, plain⟩ := shown
  obtain rfl := shown.handle_eq
  exact ends_of_ok (by simp only [write, fate]; rfl) ⟨⟨shown.overwrite _ _, plain⟩, .inl⟩

theorem seek_plain (position : Nat) (shown : ShowsPlain start file state content offset) :
    Ends (seek position) state (fun _ t => ShowsPlain start file t content position)
      (fun _ t => False ∧ Shown (ShowsPlain start file) t) := by
  obtain ⟨handle, disk⟩ := state
  have fate := shown.nextFate
  obtain ⟨shown, plain⟩ := shown
  obtain rfl := shown.handle_eq
  have moved : ShowsPlain start file (⟨file, position⟩, disk) content position :=
    ⟨⟨rfl, shown.names_eq, shown.size_eq, shown.bytes_eq, shown.content_eq, shown.stored⟩, plain⟩
  exact ends_of_ok (by simp only [seek, fate]; rfl) moved

theorem fileLike_plain (start : Disk) (file : FileId) : FileLike calls (ShowsPlain start file) False :=
  ⟨write_plain, seek_plain, fun shown => ends_pure shown⟩

theorem Shows.frame {file : FileId} {state : Handle × Disk} {content : ByteArray} {offset : Nat}
    (sound : disk.Sound) (at_place : disk.node? place = some (.file file))
    (shown : Shows disk file state content offset) :
    Frame (· = place) disk state.2 ∧ state.2.node? place = some (.file file) := by
  refine ⟨frame_of_bytes sound at_place shown.names_eq shown.size_eq shown.bytes_eq, ?_⟩
  rw [node?_of_names shown.names_eq, at_place]

end ConstDb.Disk.Handle
