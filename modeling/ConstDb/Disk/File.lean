import ConstDb.Disk
import ConstDb.Sink

/-!
# Open files

An open file is a sink: it takes bytes at its position. What is written goes to the file that
was opened, whatever has become of its name.
-/

namespace ConstDb.Disk

def nextFate : Disk → Fate × Disk
  | ⟨names, files, fate :: fates⟩ => (fate, ⟨names, files, fates⟩)
  | ⟨names, files, []⟩ => (.proceed, ⟨names, files, []⟩)

namespace Handle

def write (bytes : ByteArray) : Effect IoError (Handle × Disk) Nat
  | (⟨file, offset⟩, disk) =>
    let (fate, disk) := disk.nextFate
    match fate with
    | .fail e => .error e (⟨file, offset⟩, disk)
    | fate =>
      let count := fate.taken bytes.size
      let taken := bytes.extract 0 count
      .ok count (⟨file, offset + count⟩, disk.modifyBytes file (Bytes.overwrite · offset taken))

def seek (position : Nat) : Effect IoError (Handle × Disk) Unit := fun (handle, disk) =>
  let (fate, disk) := disk.nextFate
  match fate with
  | .fail e => .error e (handle, disk)
  | _ => .ok () ({ handle with offset := position }, disk)

/-- The calls of an open file. It holds nothing back, so there is nothing to flush. -/
def calls : Sink (Handle × Disk) where
  write := write
  seek := seek
  flush := pure ()
  patience state := state.2.fates.length
  write_le := by
    intro bytes state count state' h
    unfold write at h
    split at h
    dsimp only at h
    split at h
    · cases h
    · cases h; exact Fate.taken_le ..
  patience_lt := by
    intro bytes state e state' h interrupted
    obtain ⟨⟨file, offset⟩, names, files, fates⟩ := state
    cases fates with
    | nil => simp [write, nextFate] at h
    | cons fate fates =>
      cases fate with
      | fail fault => simp only [write, nextFate] at h; cases h; simp
      | proceed | accept => simp [write, nextFate] at h

end Handle

/-! ## Whole files -/

/-- Opens a file for writing at a position without emptying it. -/
def openWrite (text : String) (offset : Nat) : Effect IoError Disk Handle := change fun disk => do
  match ← disk.openRead text with
  | .directory => .error Errno.isDirectory.toIoError
  | .file id => .ok (⟨id, offset⟩, disk)

def writeTo (bytes : ByteArray) (handle : Handle) : Effect IoError Disk Unit :=
  Effect.within (fun disk => ((handle, disk), Prod.snd)) (Handle.calls.writeFully bytes)

def writeFile (text : String) (bytes : ByteArray) : Effect IoError Disk Unit := do
  writeTo bytes (← create text)

def patchFile (text : String) (offset : Nat) (bytes : ByteArray) : Effect IoError Disk Unit := do
  writeTo bytes (← openWrite text offset)

end ConstDb.Disk
