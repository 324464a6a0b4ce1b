import ConstDb.Database
import ConstDb.Record
import ConstDb.Walk

/-!
# All records

The walk over the record area from its start to the first slot table, which is the order in which
the records were added. It ends with the first failure, because nothing behind a record that
cannot be read can be found.
-/

namespace ConstDb

/-- The state of a walk over records: the position of the next one, and the end of the area. -/
structure Records where
  position : Nat
  stop : Nat
  deriving DecidableEq, Repr, Inhabited

namespace Records

def remaining (records : Records) : Nat := records.stop - records.position + 1

end Records

namespace Database

variable {σ : Type}

/-- The record area. It ends where the first table starts. -/
def recordArea (db : Database σ) : Effect DbError σ Records := do
  let table ← db.table ⟨0, by decide⟩
  let stop := table.offset.toNat
  if stop < headerSize ∨ db.size < stop then
    throw (.truncated (.recordAreaEnd stop db.size))
  return ⟨headerSize, stop⟩

/-- The record at `position` and the position behind it, if it ends by `stop`. -/
def recordAt (db : Database σ) (position stop : Nat) : Effect DbError σ (Record × Nat) := do
  let (keyLength, dataLength) := Pair.decode (← db.readAt position Pair.size)
  let keyPosition := position + recordHeaderSize
  let dataPosition := keyPosition + keyLength.toNat
  let next := dataPosition + dataLength.toNat
  if stop < next then
    throw (.truncated (.recordPastArea position stop))
  let key ← db.readAt keyPosition keyLength.toNat
  let data ← db.readAt dataPosition dataLength.toNat
  return (⟨key, data⟩, next)

def nextRecord (db : Database σ) : Walk DbError (Records × σ) Record := fun (⟨position, stop⟩, s) =>
  if stop ≤ position then (none, (⟨position, stop⟩, s))
  else
    match db.recordAt position stop s with
    | .ok (record, next) s => (some (.ok record), (⟨next, stop⟩, s))
    | .error e s => (some (.error e), (⟨stop, stop⟩, s))

def restRecords (db : Database σ) (records : Records) (s : σ) :
    List (Except DbError Record) × (Records × σ) :=
  Walk.items db.nextRecord records.remaining (records, s)

def records (db : Database σ) : Effect DbError σ (List (Except DbError Record)) := fun s =>
  match db.recordArea s with
  | .error e s => .error e s
  | .ok area s =>
    let (items, _, s) := db.restRecords area s
    .ok items s

end Database

end ConstDb
