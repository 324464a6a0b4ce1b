import ConstDb.Bytes
import ConstDb.Effect
import ConstDb.Error

/-!
# Sources

A source answers reads at any position, and may also show all its bytes at once, as a file does
that is mapped into memory. Nothing obliges a source to be consistent: its size, the mapped bytes
and the answers to reads may contradict each other.
-/

namespace ConstDb

structure Source (σ : Type) where
  /-- The length that the source claims to have. -/
  size : Nat
  /-- All its bytes at once, if it can show them. -/
  mapped : σ → Option ByteArray
  /-- Exactly `length` bytes from `position` on. -/
  read : (position length : Nat) → Effect IoError σ ByteArray

namespace Source

variable {σ : Type}

def readBytes (bytes : ByteArray) (position length : Nat) : Except IoError ByteArray :=
  if position + length ≤ bytes.size then .ok (bytes.extract position (position + length))
  else .error .sourceEnded

def positioned (bytes : ByteArray) : Source σ where
  size := bytes.size
  mapped _ := none
  read position length := Effect.ofExcept (readBytes bytes position length)

def ofBytes (bytes : ByteArray) : Source σ where
  size := bytes.size
  mapped _ := some bytes
  read position length := Effect.ofExcept (readBytes bytes position length)

/-- The same source with a log of the reads it was asked for, as pairs of position and length.
Reads that fail are logged as well. -/
def logged (source : Source σ) : Source (Array (Nat × Nat) × σ) where
  size := source.size
  mapped state := source.mapped state.2
  read position length := fun (log, s) =>
    let log := log.push (position, length)
    match source.read position length s with
    | .ok bytes s => .ok bytes (log, s)
    | .error e s => .error e (log, s)

/-- The same source with faults laid over it: a read fails when the next entry of the list is a
fault, and goes on to the source otherwise. -/
def faulty (source : Source σ) : Source (List (Option IoError) × σ) where
  size := source.size
  mapped state := source.mapped state.2
  read position length
    | (some fault :: faults, s) => .error fault (faults, s)
    | (none :: faults, s) => Effect.onSecond (source.read position length) (faults, s)
    | ([], s) => Effect.onSecond (source.read position length) ([], s)

end Source

end ConstDb
