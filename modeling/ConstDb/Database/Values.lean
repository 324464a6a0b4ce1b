import ConstDb.Database.Lookup
import ConstDb.Walk

/-!
# All values of a key

The walk over the data of all records with one key, in the order in which a lookup meets them.
It ends with the first failure.
-/

namespace ConstDb

structure Values where
  cursor : Cursor
  failed : Bool
  deriving DecidableEq, Repr, Inhabited

namespace Values

def fresh : Values := ⟨.fresh, false⟩

/-- A bound on the number of items still to come. -/
def remaining (values : Values) : Nat := values.cursor.remaining + 1

end Values

namespace Database

variable {σ : Type}

def nextData (db : Database σ) (key : ByteArray) :
    Effect DbError (Cursor × σ) (Option ByteArray) := do
  match ← db.findNext key with
  | some data => return some (← Effect.onSecond (db.readAt data.position data.length))
  | none => return none

def nextValue (db : Database σ) (key : ByteArray) : Walk DbError (Values × σ) ByteArray :=
  fun (⟨cursor, failed⟩, s) =>
    if failed then (none, (⟨cursor, failed⟩, s))
    else
      match db.nextData key (cursor, s) with
      | .ok (some data) (cursor, s) => (some (.ok data), (⟨cursor, false⟩, s))
      | .ok none (cursor, s) => (none, (⟨cursor, false⟩, s))
      | .error e (cursor, s) => (some (.error e), (⟨cursor, true⟩, s))

def restValues (db : Database σ) (key : ByteArray) (values : Values) (s : σ) :
    List (Except DbError ByteArray) × (Values × σ) :=
  Walk.items (db.nextValue key) values.remaining (values, s)

def values (db : Database σ) (key : ByteArray) (s : σ) : List (Except DbError ByteArray) :=
  (db.restValues key .fresh s).1

end Database

end ConstDb
