import ConstDb.Bytes
import ConstDb.Disk.Path
import ConstDb.Effect
import ConstDb.Fate

/-!
# Disks

A disk has names and files. A name leads to a directory or to a file; the bytes belong to the
file and not to the name. So a file that is open keeps its bytes when its name is removed or is
given to another file, and truncating a file shows under its name and in everything that has
it open.

Calls that change a disk may fail, as its list of fates says; a call that fails changes nothing
else. A plain disk has no such fates: its calls fail for the reasons that names give.
-/

namespace ConstDb

abbrev FileId := Nat

inductive Node where
  | directory
  | file (id : FileId)
  deriving DecidableEq, Repr, Inhabited

/-- A place on the disk: the names that lead to it from the topmost directory. -/
abbrev Place := List String

structure Disk where
  /-- What each place holds. The topmost directory is always there and is not listed. -/
  names : List (Place × Node)
  /-- The bytes of each file, in order of creation. A file without a name keeps its bytes. -/
  files : Array ByteArray
  /-- What becomes of the next calls that change the disk. Behind them calls proceed. -/
  fates : List Fate
  deriving Inhabited

namespace Disk

def empty : Disk := ⟨[], #[], []⟩

def node? (disk : Disk) : Place → Option Node
  | [] => some .directory
  | place => disk.names.lookup place

def bytes (disk : Disk) (id : FileId) : ByteArray := disk.files.getD id .empty

def link (disk : Disk) (place : Place) (node : Node) : Disk :=
  { disk with names := (place, node) :: disk.names.filter (·.1 ≠ place) }

def unlink (disk : Disk) (place : Place) : Disk :=
  { disk with names := disk.names.filter (·.1 ≠ place) }

def modifyBytes : Disk → FileId → (ByteArray → ByteArray) → Disk
  | ⟨names, files, fates⟩, id, f => ⟨names, files.modify id f, fates⟩

/-! ## Walking paths -/

def enter (disk : Disk) (place : Place) (name : String) : Except Errno Place :=
  if name = "." then .ok place
  else if name = ".." then .ok place.dropLast
  else if Path.tooLong name then .error .nameTooLong
  else
    match disk.node? (place ++ [name]) with
    | some .directory => .ok (place ++ [name])
    | some (.file _) => .error .notDirectory
    | none => .error .notFound

/-- Where a path leads: an entry of a directory, which need not exist, or a directory that the
path does not name as an entry. -/
inductive Target where
  | entry (directory : Place) (name : String) (trailing : Bool)
  | directory (place : Place)
  deriving DecidableEq, Repr, Inhabited

def walk (disk : Disk) (path : Path) : Except Errno Target := do
  let place ← path.directories.foldlM disk.enter []
  match path.last with
  | .name name => .ok (.entry place name path.trailing)
  | .self | .root => .ok (.directory place)
  | .parent => .ok (.directory place.dropLast)

def resolve (disk : Disk) (text : String) : Except IoError Target := do
  let path ← Path.parse text
  (disk.walk path).mapError Errno.toIoError

def entry? (disk : Disk) (directory : Place) (name : String) : Except Errno (Option Node) :=
  if Path.tooLong name then .error .nameTooLong else .ok (disk.node? (directory ++ [name]))

def lookupTarget (disk : Disk) : Target → Except Errno Node
  | .directory _ => .ok .directory
  | .entry directory name trailing => do
    match ← disk.entry? directory name with
    | none => .error .notFound
    | some .directory => .ok .directory
    | some (.file id) => if trailing then .error .notDirectory else .ok (.file id)

def openRead (disk : Disk) (text : String) : Except IoError Node := do
  let target ← disk.resolve text
  (disk.lookupTarget target).mapError Errno.toIoError

/-! ## Calls that change the disk -/

/-- A change of the disk that meets the fate of its next call. -/
def change {α : Type} (action : Disk → Except IoError (α × Disk)) : Effect IoError Disk α :=
  fun ⟨names, files, fates⟩ =>
    match fates with
    | .fail e :: fates => .error e ⟨names, files, fates⟩
    | fates =>
      let disk : Disk := ⟨names, files, fates.tail⟩
      match action disk with
      | .ok (a, disk) => .ok a disk
      | .error e => .error e disk

structure Handle where
  file : FileId
  offset : Nat
  deriving DecidableEq, Repr, Inhabited

def truncateTarget (disk : Disk) : Target → Except Errno (Handle × Disk)
  | .directory _ | .entry _ _ true => .error .isDirectory
  | .entry directory name false => do
    match ← disk.entry? directory name with
    | some .directory => .error .isDirectory
    | some (.file id) => .ok (⟨id, 0⟩, disk.modifyBytes id fun _ => .empty)
    | none =>
      let id := disk.files.size
      let disk := { disk with files := disk.files.push .empty }
      .ok (⟨id, 0⟩, disk.link (directory ++ [name]) (.file id))

/-- Opens a file for writing: a file that is there is emptied, and keeps its names; otherwise
an empty one is made. -/
def create (text : String) : Effect IoError Disk Handle := change fun disk => do
  let target ← disk.resolve text
  (disk.truncateTarget target).mapError Errno.toIoError

def removeTarget (disk : Disk) : Target → Except Errno Disk
  | .directory _ => .error .isDirectory
  | .entry directory name trailing => do
    match ← disk.entry? directory name with
    | none => .error .notFound
    | some .directory => .error .isDirectory
    | some (.file _) =>
      if trailing then .error .notDirectory else .ok (disk.unlink (directory ++ [name]))

def remove (text : String) : Effect IoError Disk Unit := change fun disk => do
  let target ← disk.resolve text
  let disk ← (disk.removeTarget target).mapError Errno.toIoError
  return ((), disk)

/-- Makes sure that what was written lasts. That does not show on the disk. -/
def sync : Effect IoError Disk Unit := change fun disk => .ok ((), disk)

/-! ## Renaming -/

def holdsEntries (disk : Disk) (place : Place) : Bool :=
  disk.names.any fun (other, _) => place.isPrefixOf other && other ≠ place

/-- The disk after what is at `source`, with all below it, was moved to `target`. -/
def moved (disk : Disk) (source target : Place) : Disk :=
  let stay := disk.names.filter fun (place, _) => place ≠ target
  { disk with names := stay.map fun (place, node) =>
      if source.isPrefixOf place then (target ++ place.drop source.length, node)
      else (place, node) }

/-- Moves one node to a place, replacing a file by a file or an empty directory by a directory.
Between two names of one file nothing moves. -/
def replace (disk : Disk) (node : Node) (source target : Place) : Except Errno Disk :=
  if source = target then .ok disk
  else
    match node, disk.node? target with
    | _, none => .ok (disk.moved source target)
    | .directory, some (.file _) => .error .notDirectory
    | .directory, some .directory =>
      if disk.holdsEntries target then .error .notEmpty else .ok (disk.moved source target)
    | .file _, some .directory => .error .isDirectory
    | .file id, some (.file other) =>
      if other = id then .ok disk else .ok (disk.moved source target)

def renameTarget (disk : Disk) : (source target : Target) → Except Errno Disk
  | .directory _, _ | _, .directory _ => .error .busy
  | .entry sourceIn sourceName sourceTrailing, .entry targetIn targetName targetTrailing => do
    match ← disk.entry? sourceIn sourceName with
    | none => .error .notFound
    | some node =>
      let _ ← disk.entry? targetIn targetName
      let source := sourceIn ++ [sourceName]
      let target := targetIn ++ [targetName]
      if node ≠ .directory && (sourceTrailing || targetTrailing) then .error .notDirectory
      else if node = .directory && source.isPrefixOf targetIn then .error .invalid
      else if target.isPrefixOf sourceIn then .error .notEmpty
      else disk.replace node source target

def rename (source target : String) : Effect IoError Disk Unit := change fun disk => do
  let source ← disk.resolve source
  let target ← disk.resolve target
  let disk ← (disk.renameTarget source target).mapError Errno.toIoError
  return ((), disk)

/-! ## Reading whole files -/

def read (disk : Disk) (text : String) : Except IoError ByteArray := do
  match ← disk.openRead text with
  | .file id => .ok (disk.bytes id)
  | .directory => .error Errno.isDirectory.toIoError

end Disk

end ConstDb
