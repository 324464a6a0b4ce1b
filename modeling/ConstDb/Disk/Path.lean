import ConstDb.Error

/-!
# Paths

A path is text that names its way through directories, component by component. Reading it has
nothing to do with what the disk holds: that comes when the path is walked.
-/

namespace ConstDb

inductive Errno where
  | notFound
  | busy
  | exists
  | notDirectory
  | isDirectory
  | invalid
  | nameTooLong
  | notEmpty
  deriving DecidableEq, Repr, Inhabited

namespace Errno

def kind : Errno → IoKind
  | .notFound => .notFound
  | .busy => .resourceBusy
  | .exists => .alreadyExists
  | .notDirectory => .notADirectory
  | .isDirectory => .isADirectory
  | .invalid => .invalidInput
  | .nameTooLong => .invalidFilename
  | .notEmpty => .directoryNotEmpty

def code : Errno → Nat
  | .notFound => 2
  | .busy => 16
  | .exists => 17
  | .notDirectory => 20
  | .isDirectory => 21
  | .invalid => 22
  | .nameTooLong => 36
  | .notEmpty => 39

def text : Errno → String
  | .notFound => "No such file or directory"
  | .busy => "Device or resource busy"
  | .exists => "File exists"
  | .notDirectory => "Not a directory"
  | .isDirectory => "Is a directory"
  | .invalid => "Invalid argument"
  | .nameTooLong => "File name too long"
  | .notEmpty => "Directory not empty"

def toIoError (errno : Errno) : IoError :=
  ⟨errno.kind, s!"{errno.text} (os error {errno.code})"⟩

end Errno

inductive LastName where
  | name (name : String)
  /-- The directory itself, or the one above it; these name no entry of a directory. -/
  | self
  | parent
  | root
  deriving DecidableEq, Repr, Inhabited

/-- A path in parts: the directories to go through, the last component, and whether a trailing
slash demands that it be a directory. -/
structure Path where
  directories : List String
  last : LastName
  trailing : Bool
  deriving DecidableEq, Repr, Inhabited

namespace Path

def nameLimit : Nat := 255

def lengthLimit : Nat := 4096

def pieces : List Char → List (List Char)
  | [] => [[]]
  | c :: rest =>
    if c = '/' then [] :: pieces rest
    else
      match pieces rest with
      | [] => [[c]]
      | piece :: more => (c :: piece) :: more

/-- The names between slashes. Slashes in a row count as one. -/
def components (text : List Char) : List String :=
  ((pieces text).filter (· ≠ [])).map String.ofList

def lastName : String → LastName
  | "." => .self
  | ".." => .parent
  | name => .name name

/-- The paths that end in each of some names, which are given from the last one to the first. -/
def ofReversed : List String → List Path
  | [] => []
  | name :: names => ⟨names.reverse, lastName name, false⟩ :: ofReversed names

/-- The paths that lead to a path of these names, the longest first. A name that stands for the
directory itself leads nowhere, so there is no path that ends in it. -/
def leading (names : List String) : List Path :=
  ofReversed (names.filter (· ≠ ".")).reverse.tail

def parse (text : String) : Except IoError Path :=
  let chars := text.toList
  if '\x00' ∈ chars then
    .error ⟨.invalidInput, "file name contained an unexpected NUL byte"⟩
  else if chars = [] then .error Errno.notFound.toIoError
  else if lengthLimit ≤ text.utf8ByteSize then .error Errno.nameTooLong.toIoError
  else
    let names := components chars
    match names.getLast? with
    | none => .ok ⟨[], .root, true⟩
    | some name => .ok ⟨names.dropLast, lastName name, chars.getLast? = some '/'⟩

def tooLong (name : String) : Bool := nameLimit < name.utf8ByteSize

end Path

end ConstDb
