import ConstDb.Disk

/-!
# Directories

Making directories, and listing what a disk holds.
-/

namespace ConstDb.Disk

/-- Makes a directory where there is nothing. A directory that is there already will do. -/
def makeTarget (disk : Disk) : Target → Except Errno Disk
  | .directory _ => .ok disk
  | .entry directory name _ => do
    match ← disk.entry? directory name with
    | none => .ok (disk.link (directory ++ [name]) .directory)
    | some .directory => .ok disk
    | some (.file _) => .error .exists

/-- Makes sure that a path leads to a directory. Those on the way have to be there. -/
def makeDirectory (path : Path) : Effect IoError Disk Unit := change fun disk => do
  let disk ← (do disk.makeTarget (← disk.walk path)).mapError Errno.toIoError
  return ((), disk)

/-- Makes the first directory of a list; if something on the way to it is missing, then after
those behind it in the list. -/
def makeFirst : List Path → Effect IoError Disk Unit
  | [] => pure ()
  | path :: leading => fun disk =>
    match makeDirectory path disk with
    | .ok () disk => .ok () disk
    | .error e disk =>
      if e.kind = .notFound then (do makeFirst leading; makeDirectory path) disk
      else .error e disk

def makeDirectories (text : String) : Effect IoError Disk Unit := do
  if text.isEmpty then
    return
  let path ← Effect.ofExcept (Path.parse text)
  makeFirst (path :: Path.leading (Path.components text.toList))

def shownName (place : Place) : Node → String
  | .directory => String.intercalate "/" place ++ "/"
  | .file _ => String.intercalate "/" place

/-- All names with the bytes of files, in the order of their characters. -/
def listing (disk : Disk) : List (String × Option ByteArray) :=
  let shown := disk.names.map fun (place, node) =>
    (shownName place node,
      match node with
      | .directory => none
      | .file id => some (disk.bytes id))
  shown.mergeSort fun a b => a.1 ≤ b.1

end ConstDb.Disk
