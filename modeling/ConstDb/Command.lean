import ConstDb.Database.Records
import ConstDb.Database.Values
import ConstDb.Disk.Opened
import ConstDb.Draft

/-!
# Commands

What the commands do: make a database from a text file, look a key up, print all records. A
command answers with an exit status and with what it printed. What it has printed before it
fails stays printed.
-/

namespace ConstDb

inductive Command where
  | make (input separator output : String) (syncs : Bool)
  | get (path key : String) (all : Bool) (maps : Bool)
  | dump (path separator : String)
  deriving DecidableEq, Repr, Inhabited

/-- What a command leaves to its caller: its exit status, what it printed, and why it failed if
it did. -/
structure Answer where
  status : UInt8
  output : ByteArray
  error : Option DbError
  deriving Inhabited

namespace Answer

def success (output : ByteArray) : Answer := ⟨0, output, none⟩

def notFound : Answer := ⟨100, .empty, none⟩

def failure (output : ByteArray) (e : DbError) : Answer := ⟨1, output, some e⟩

end Answer

namespace Command

def line (text : ByteArray) : ByteArray := text.push Lines.newline

def recordLine (separator : ByteArray) (record : Record) : ByteArray :=
  line (record.key ++ separator ++ record.data)

/-- Prints items as far as there is no failure among them. -/
def print {α : Type} (render : α → ByteArray) (output : ByteArray) :
    List (Except DbError α) → ByteArray × Option DbError
  | [] => (output, none)
  | .error e :: _ => (output, some e)
  | .ok a :: items => print render (output ++ render a) items

def answerGet {σ : Type} (db : Database σ) (key : ByteArray) (all : Bool) (s : σ) : Answer :=
  let values :=
    if all then db.values key s else (db.nextValue key (.fresh, s)).1.toList
  match values, print line .empty values with
  | [], _ => .notFound
  | _, (output, none) => .success output
  | _, (output, some e) => .failure output e

def answerDump {σ : Type} (db : Database σ) (separator : ByteArray) (s : σ) : Answer :=
  match db.records s with
  | .error e _ => .failure .empty e
  | .ok records _ =>
    match print (recordLine separator) .empty records with
    | (output, none) => .success output
    | (output, some e) => .failure output e

/-- Makes a database and prints the number of its records. The first byte of the separator is
the one that counts. -/
def answerMake (input separator output : String) (syncs : Bool) (disk : Disk) : Answer × Disk :=
  match separator.toUTF8.data[0]? with
  | none => (.failure .empty (.config .emptySeparator), disk)
  | some byte =>
    match makeDatabase input byte output { Config.default with syncs } disk with
    | .ok count disk => (.success (line (toString count).toUTF8), disk)
    | .error e disk => (.failure .empty e, disk)

def run (command : Command) (disk : Disk) : Answer × Disk :=
  match command with
  | .make input separator output syncs => answerMake input separator output syncs disk
  | .get path key all maps =>
    match OpenDatabase.openPath disk path maps with
    | .error e => (.failure .empty e, disk)
    | .ok opened => (answerGet opened.source key.toUTF8 all disk, disk)
  | .dump path separator =>
    match OpenDatabase.openPath disk path true with
    | .error e => (.failure .empty e, disk)
    | .ok opened => (answerDump opened.source separator.toUTF8 disk, disk)

end Command

end ConstDb
