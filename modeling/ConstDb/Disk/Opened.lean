import ConstDb.Database
import ConstDb.Disk

/-!
# Databases on a disk

A database that is opened by a path keeps reading the file that the path named then. Mapped or
not, it sees the bytes of that file as they are when it reads, within the length that the file
had when it was opened.
-/

namespace ConstDb

structure OpenDatabase where
  node : Node
  /-- The length of the file when it was opened. -/
  size : Nat
  mapped : Bool
  deriving DecidableEq, Repr, Inhabited

namespace OpenDatabase

/-- The length that a directory claims to have. It cannot be read. -/
def directorySize : Nat := 4096

/-- Opens a node. A file is mapped on demand, unless it is empty or longer than positions
reach. -/
def ofNode (disk : Disk) (maps : Bool) : Node → OpenDatabase
  | .directory => ⟨.directory, directorySize, false⟩
  | .file id =>
    let size := (disk.bytes id).size
    ⟨.file id, size, maps && 0 < size && size ≤ Position.limit⟩

def openPath (disk : Disk) (path : String) (maps : Bool) : Except DbError OpenDatabase := do
  let node ← (disk.openRead path).mapError .io
  return ofNode disk maps node

/-- The mapped bytes of a file: as many as it had when it was opened. -/
def view (opened : OpenDatabase) (disk : Disk) (id : FileId) : ByteArray :=
  let bytes := disk.bytes id
  -- what a shorter file has lost shows as zeros
  bytes.extract 0 opened.size ++ Bytes.zeros (opened.size - bytes.size)

def readNode (disk : Disk) (position length : Nat) : Node → Except IoError ByteArray
  | .directory => if length = 0 then .ok .empty else .error Errno.isDirectory.toIoError
  | .file id =>
    if length = 0 then .ok .empty else Source.readBytes (disk.bytes id) position length

def source (opened : OpenDatabase) : Database Disk where
  size := opened.size
  mapped disk :=
    match opened.mapped, opened.node with
    | true, .file id => some (opened.view disk id)
    | _, _ => none
  read position length := fun disk =>
    match opened.mapped, opened.node with
    | true, .file id =>
      Effect.ofExcept (Source.readBytes (opened.view disk id) position length) disk
    | _, node => Effect.ofExcept (readNode disk position length node) disk

end OpenDatabase

end ConstDb
