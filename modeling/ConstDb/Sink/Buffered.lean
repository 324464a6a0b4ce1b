import ConstDb.Sink

/-!
# Buffered output

Small pieces of output wait in a buffer and go to the sink together. The order of the bytes is
the order in which they were put. When writing out the buffer fails, what was in it is given up:
it is never written a second time.
-/

namespace ConstDb

/-- Bytes that wait to be written, at most `capacity` of them. -/
structure OutBuffer where
  capacity : Nat
  pending : ByteArray
  deriving Inhabited

namespace OutBuffer

variable {σ : Type}

def ofCapacity (capacity : Nat) : OutBuffer := ⟨capacity, .empty⟩

def writeThrough (sink : Sink σ) (bytes : ByteArray) : Effect IoError (OutBuffer × σ) Unit :=
  Effect.onSecond (sink.writeFully bytes)

def flush (sink : Sink σ) : Effect IoError (OutBuffer × σ) Unit := fun (⟨capacity, pending⟩, s) =>
  writeThrough sink pending (⟨capacity, .empty⟩, s)

def append (bytes : ByteArray) : Effect IoError (OutBuffer × σ) Unit := fun (⟨capacity, pending⟩, s) =>
  .ok () (⟨capacity, pending ++ bytes⟩, s)

def room (buffer : OutBuffer) : Nat := buffer.capacity - buffer.pending.size

/-- Puts bytes behind those put before: they wait in the buffer if they fit behind what waits
there already, or else once that is written out. Pieces as large as the buffer do not wait. -/
def put (sink : Sink σ) (bytes : ByteArray) : Effect IoError (OutBuffer × σ) Unit := do
  let (buffer, _) ← get
  if buffer.room < bytes.size then
    flush sink
  if buffer.capacity ≤ bytes.size then
    writeThrough sink bytes
  else
    append bytes

def putFlush (sink : Sink σ) (bytes : ByteArray) : Effect IoError (OutBuffer × σ) Unit := do
  flush sink
  writeThrough sink bytes

end OutBuffer

end ConstDb
