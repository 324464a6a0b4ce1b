import ConstDb.Bytes
import ConstDb.Effect
import ConstDb.Error
import ConstDb.Record

/-!
# Records from lines of text

A line holds a record if it holds the separator: what stands before the first separator is the
key, what stands behind it is the data. The line terminator belongs to neither. Input arrives in
pieces of any length, and where it is cut makes no difference to the lines.
-/

namespace ConstDb

namespace Lines

def newline : UInt8 := 10

/-- The byte that may stand before the end of a line and belongs to the terminator. -/
def carriageReturn : UInt8 := 13

def dropLastByte (byte : UInt8) (line : List UInt8) : List UInt8 :=
  if line.getLast? = some byte then line.dropLast else line

def content (line : List UInt8) : List UInt8 :=
  dropLastByte carriageReturn (dropLastByte newline line)

def record? (separator : UInt8) (line : List UInt8) : Option Record :=
  let text := content line
  match text.dropWhile (· ≠ separator) with
  | [] => none
  | _ :: data => some ⟨(text.takeWhile (· ≠ separator)).toByteArray, data.toByteArray⟩

end Lines

/-! ## Input in pieces -/

/-- What the successive reads of an input deliver. An empty piece says that the input ends here,
and behind the list all reads do. -/
abbrev Reads := List (Except IoError ByteArray)

namespace Reads

/-- The most that one read of a file delivers. -/
def pieceLength : Nat := 8192

/-- The reads of an input that delivers `pieces`, while the next entry of a list is a fault or
lets a read through. -/
def withFaults : List (Option IoError) → (pieces : List ByteArray) → Reads
  | [], pieces => pieces.map .ok
  | some fault :: faults, pieces => .error fault :: withFaults faults pieces
  | none :: faults, [] => .ok .empty :: withFaults faults []
  | none :: faults, piece :: pieces => .ok piece :: withFaults faults pieces

def ofBytes (bytes : ByteArray) : Reads := withFaults [] (Bytes.chunks pieceLength bytes)

end Reads

/-! ## Adding the records of an input -/

namespace Lines

variable {τ : Type}

def addLine (add : Record → Effect DbError τ Unit) (separator : UInt8) (line : List UInt8) :
    Effect DbError τ Nat :=
  match record? separator line with
  | none => pure 0
  | some record => do
    add record
    return 1

/-- Takes bytes one by one and adds the record of each line that they complete. `line` holds the
bytes of the unfinished line, the last one first; `count` is the number of records so far. -/
def addBytes (add : Record → Effect DbError τ Unit) (separator : UInt8) :
    List UInt8 → (line : List UInt8) → (count : Nat) → Effect DbError τ (List UInt8 × Nat)
  | [], line, count => pure (line, count)
  | byte :: bytes, line, count =>
    if byte = newline then do
      let added ← addLine add separator (byte :: line).reverse
      addBytes add separator bytes [] (count + added)
    else addBytes add separator bytes (byte :: line) count

/-- Adds the record of each line of an input. Interrupted reads are made again, and any other
failure ends it; a line that is unfinished then is lost. At the end of the input an unfinished
line is complete. -/
def addReads (add : Record → Effect DbError τ Unit) (separator : UInt8) :
    Reads → (line : List UInt8) → (count : Nat) → Effect DbError τ Nat
  | [], line, count =>
    if line = [] then pure count
    else do return count + (← addLine add separator line.reverse)
  | .error e :: reads, line, count =>
    if e.isInterrupted then addReads add separator reads line count else throw (.io e)
  | .ok piece :: reads, line, count =>
    if piece.isEmpty then
      if line = [] then pure count
      else do
        let added ← addLine add separator line.reverse
        addReads add separator reads [] (count + added)
    else do
      let (line, count) ← addBytes add separator piece.data.toList line count
      addReads add separator reads line count

def addAll (add : Record → Effect DbError τ Unit) (separator : UInt8) (reads : Reads) :
    Effect DbError τ Nat :=
  addReads add separator reads [] 0

end Lines

end ConstDb
