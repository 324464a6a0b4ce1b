import ConstDb.Index.Buckets
import ConstDb.Index.SlotTable
import ConstDb.Record
import ConstDb.Sink.Buffered
import ConstDb.Sink.Memory

/-!
# Building a database

A builder streams records into a sink and remembers only where each one starts. Finishing puts
the slot tables behind the records, and then, as the last thing of all, writes the header at the
start. After a failed addition the output cannot be trusted any more, and the builder refuses
all further work.
-/

namespace ConstDb

structure Builder where
  output : OutBuffer
  /-- The hash and the position of each record, in the order of addition. -/
  entries : Array Slot
  position : Nat
  failed : Bool
  deriving Inhabited

namespace Builder

variable {σ : Type}

def size (builder : Builder) : Nat := builder.entries.size

def fresh (bufferCapacity : Nat) : Builder :=
  ⟨.ofCapacity bufferCapacity, #[], headerSize, false⟩

def start (sink : Sink σ) (bufferCapacity : Nat) : Effect DbError σ Builder := do
  (sink.seek headerSize).adaptExcept .seek
  return fresh bufferCapacity

def onOutput {α : Type} (action : Effect IoError (OutBuffer × σ) α) :
    Effect DbError (Builder × σ) α :=
  Effect.within
    (fun (⟨output, entries, position, failed⟩, s) =>
      ((output, s), fun (output, s) => (⟨output, entries, position, failed⟩, s)))
    (action.adaptExcept .io)

def onSink {α : Type} (action : Effect DbError σ α) : Effect DbError (Builder × σ) α :=
  Effect.onSecond action

/-! ## Adding records -/

/-- The position behind a record that starts at `position`, if the record fits. -/
def recordEnd (position : Nat) (record : Record) : Except DbError Nat := do
  let _ ← storedLength "key" record.key.size
  let _ ← storedLength "data" record.data.size
  let position ← Position.advance position recordHeaderSize
  let position ← Position.advance position record.key.size
  Position.advance position record.data.size

def noteRecord (record : Record) (stop : Nat) : Builder → Builder
  | ⟨output, entries, position, failed⟩ =>
    ⟨output, entries.push ⟨.ofKey record.key, position.toUInt32⟩, stop, failed⟩

/-- Puts out a record. Nothing is put out unless all of it fits below the limit. -/
def append (sink : Sink σ) (record : Record) : Effect DbError (Builder × σ) Unit := do
  let (builder, _) ← get
  let stop ← Effect.ofExcept (recordEnd builder.position record)
  onOutput (OutBuffer.put sink record.header)
  onOutput (OutBuffer.put sink record.key)
  onOutput (OutBuffer.put sink record.data)
  modify fun (builder, s) => (builder.noteRecord record stop, s)

/-- Adds a record. The first failure is final: from then on every call is refused. -/
def add (sink : Sink σ) (record : Record) : Effect DbError (Builder × σ) Unit := fun (builder, s) =>
  if builder.failed then .error .aborted (builder, s)
  else
    match append sink record (builder, s) with
    | .ok () state => .ok () state
    | .error e (builder, s) => .error e ({ builder with failed := true }, s)

/-! ## Finishing -/

def advance (length : Nat) : Effect DbError (Builder × σ) Unit := do
  let (builder, _) ← get
  let position ← Effect.ofExcept (Position.advance builder.position length)
  modify fun (builder, s) => ({ builder with position }, s)

def putSlots (sink : Sink σ) : List Slot → Effect DbError (Builder × σ) Unit
  | [] => pure ()
  | slot :: slots => do
    onOutput (OutBuffer.put sink slot.encode)
    advance Pair.size
    putSlots sink slots

/-- Puts out the tables of the given buckets in turn and extends the header by their entries.
`scratch` is storage for the tables. -/
def putTables (sink : Sink σ) (buckets : Buckets) :
    List Bucket → (header : ByteArray) → (scratch : Array Slot) →
      Effect DbError (Builder × σ) ByteArray
  | [], header, _ => pure header
  | bucket :: rest, header, scratch => do
    let table ← Effect.ofExcept (SlotTable.ofEntries scratch (buckets.run bucket))
    let slots ← Effect.ofExcept (storedLength "hash table" table.size)
    let (builder, _) ← get
    let entry : TableRef := ⟨builder.position.toUInt32, slots⟩
    putSlots sink table.toList
    putTables sink buckets rest (header ++ entry.encode) table

def finish (sink : Sink σ) : Effect DbError (Builder × σ) Unit := do
  let (builder, _) ← get
  if builder.failed then
    throw .aborted
  let buckets := Buckets.ofEntries builder.entries
  let header ← putTables sink buckets (List.finRange bucketCount) .empty #[]
  onOutput (OutBuffer.flush sink)
  -- the header goes out last: a file that has one is whole
  onSink ((sink.seek 0).adaptExcept .seek)
  onOutput (OutBuffer.putFlush sink header)
  onSink (sink.flush.adaptExcept .io)

/-! ## Whole databases -/

def addAll (sink : Sink σ) : List Record → Effect DbError (Builder × σ) Unit
  | [] => pure ()
  | record :: records => do
    add sink record
    addAll sink records

def run (sink : Sink σ) (bufferCapacity : Nat) (records : List Record) : Effect DbError σ Unit :=
  fun s =>
    match start sink bufferCapacity s with
    | .error e s => .error e s
    | .ok builder s =>
      match (do addAll sink records; finish sink : Effect DbError (Builder × σ) Unit) (builder, s) with
      | .ok () (_, s) => .ok () s
      | .error e (_, s) => .error e s

end Builder

def imageOf (bufferCapacity : Nat) (records : List Record) : Except DbError ByteArray :=
  match Builder.run MemorySink.calls bufferCapacity records .empty with
  | .ok () sink => .ok sink.content
  | .error e _ => .error e

end ConstDb
