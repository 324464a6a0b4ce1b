import ConstDb.Layout
import ConstDb.Position
import ConstDb.Source

/-!
# Reading a database

A database is whatever its source says: nothing in the bytes is trusted. Every read is checked
against the length of the source before it is made, so that a length found in the bytes never
asks for more than there is.
-/

namespace ConstDb

abbrev Database (σ : Type) := Source σ

namespace Database

variable {σ : Type}

/-- Keys are compared in pieces of this many bytes when the source shows no bytes. -/
def compareLength : Nat := 32

def checkRange (db : Database σ) (position length : Nat) : Except DbError Unit :=
  if position + length ≤ db.size then .ok ()
  else .error (.truncated (.readPastEnd length position db.size))

/-- What a failed read at `position` means for the database. -/
def readError (position : Nat) (e : IoError) : DbError :=
  if e.kind = .unexpectedEof then .truncated (.endedEarly position) else .io e

def readAt (db : Database σ) (position length : Nat) : Effect DbError σ ByteArray := do
  Effect.ofExcept (db.checkRange position length)
  (db.read position length).adaptExcept (readError position)

def table (db : Database σ) (bucket : Bucket) : Effect DbError σ TableRef := do
  return TableRef.decode (← db.readAt (TableRef.position bucket) Pair.size)

/-- Whether the pieces stand in the database from `position` on. Nothing is read behind the
first piece that differs. -/
def piecesMatch (db : Database σ) : List ByteArray → (position : Nat) → Effect DbError σ Bool
  | [], _ => pure true
  | piece :: pieces, position => do
    let found ← db.readAt position piece.size
    if found = piece then piecesMatch db pieces (position + piece.size) else pure false

def keyMatches (db : Database σ) (key : ByteArray) (position : Nat) : Effect DbError σ Bool := do
  match db.mapped (← get) with
  | some bytes =>
    -- all of the key has to be there before any of it is compared
    if position + key.size ≤ bytes.size then
      return bytes.extract position (position + key.size) = key
    else throw (.truncated (.keyPastEnd position))
  | none => db.piecesMatch (Bytes.chunks compareLength key) position

end Database

end ConstDb
