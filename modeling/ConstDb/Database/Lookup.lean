import ConstDb.Database

/-!
# Looking keys up

A lookup starts in the table of the key's bucket at the slot that the hash points to, and goes
from slot to slot, round the end of the table if need be, until it meets an empty slot or has
seen every slot once. A cursor remembers how far a lookup has come, so that further records with
the same key can be asked for one at a time.
-/

namespace ConstDb

structure DataRef where
  position : Nat
  length : Nat
  deriving DecidableEq, Repr, Inhabited

/-! ## Probes -/

structure Probe where
  hash : Hash
  table : Nat
  slots : Nat
  /-- The position of the next slot to look at. -/
  next : Nat
  visited : Nat
  deriving DecidableEq, Repr, Inhabited

namespace Probe

def enter (hash : Hash) (table : TableRef) : Probe :=
  let slots := table.slots.toNat
  let offset := table.offset.toNat
  ⟨hash, offset, slots, offset + hash.probeStart slots * Pair.size, 0⟩

def stop (probe : Probe) : Nat := probe.table + probe.slots * Pair.size

def step (probe : Probe) : Probe :=
  let next := probe.next + Pair.size
  { probe with
    visited := probe.visited + 1
    next := if next = probe.stop then probe.table else next }

def remaining (probe : Probe) : Nat := probe.slots - probe.visited

end Probe

/-! ## Cursors -/

inductive Progress where
  | fresh
  | probing (probe : Probe)
  | done
  deriving DecidableEq, Repr, Inhabited

/-- The progress of a lookup, and the match that the last call found. A cursor belongs to the
key it is first used with, until it is reset. -/
structure Cursor where
  progress : Progress
  found : Option DataRef
  deriving DecidableEq, Repr, Inhabited

namespace Cursor

def fresh : Cursor := ⟨.fresh, none⟩

def visited (cursor : Cursor) : Nat :=
  match cursor.progress with
  | .probing probe => probe.visited
  | .fresh | .done => 0

def remaining (cursor : Cursor) : Nat :=
  match cursor.progress with
  | .fresh => Position.limit
  | .probing probe => probe.remaining
  | .done => 0

end Cursor

/-! ## Lookups -/

namespace Database

variable {σ : Type}

def matchRecord (db : Database σ) (key : ByteArray) (position : Nat) :
    Effect DbError σ (Option DataRef) := do
  let (keyLength, dataLength) := Pair.decode (← db.readAt position Pair.size)
  if keyLength.toNat ≠ key.size then
    return none
  let keyPosition := position + recordHeaderSize
  if ← db.keyMatches key keyPosition then
    let dataPosition := keyPosition + key.size
    if dataPosition ≤ Position.limit then
      return some ⟨dataPosition, dataLength.toNat⟩
    else throw (.truncated (.dataPastLimit position))
  else return none

/-- Looks at up to `count` more slots for a record with the given key. Answers the record's data
and the walk behind its slot. -/
def search (db : Database σ) (key : ByteArray) :
    (count : Nat) → Probe → Effect DbError σ (Option (Probe × DataRef))
  | 0, _ => pure none
  | count + 1, probe => do
    let slot := Slot.decode (← db.readAt probe.next Pair.size)
    if slot.isEmpty then
      return none
    -- the probe is behind the slot before its record is looked at
    let probe := probe.step
    if slot.hash ≠ probe.hash then
      search db key count probe
    else
      match ← db.matchRecord key slot.position.toNat with
      | some data => return some (probe, data)
      | none => search db key count probe

def resume (db : Database σ) (key : ByteArray) (probe : Probe) :
    Effect DbError σ (Progress × Option DataRef) := do
  match ← db.search key probe.remaining probe with
  | some (probe, data) => return (.probing probe, some data)
  | none => return (.done, none)

def proceed (db : Database σ) (key : ByteArray) :
    Progress → Effect DbError σ (Progress × Option DataRef)
  | .done => pure (.done, none)
  | .probing probe => db.resume key probe
  | .fresh => do
    let hash := Hash.ofKey key
    let table ← db.table hash.bucket
    if table.slots = 0 then
      return (.done, none)
    else db.resume key (.enter hash table)

/-- The next record with the given key. A call that fails leaves the progress of the cursor as
it was, and so can be repeated. -/
def findNext (db : Database σ) (key : ByteArray) :
    Effect DbError (Cursor × σ) (Option DataRef) := fun (cursor, s) =>
  match db.proceed key cursor.progress s with
  | .ok (progress, found) s => .ok found (⟨progress, found⟩, s)
  | .error e s => .error e (⟨cursor.progress, none⟩, s)

def find (db : Database σ) (key : ByteArray) : Effect DbError (Cursor × σ) (Option DataRef) :=
  fun (_, s) => db.findNext key (.fresh, s)

def locate (db : Database σ) (key : ByteArray) : Effect DbError σ (Option DataRef) :=
  Effect.within (fun s => ((Cursor.fresh, s), Prod.snd)) (db.find key)

def get (db : Database σ) (key : ByteArray) : Effect DbError σ (Option ByteArray) := do
  match ← db.locate key with
  | some data => return some (← db.readAt data.position data.length)
  | none => return none

def contains (db : Database σ) (key : ByteArray) : Effect DbError σ Bool := do
  return (← db.locate key).isSome

end Database

end ConstDb
