import ConstDb.Bytes
import ConstDb.Fate
import ConstDb.Sink

/-!
# Sinks in memory

A sink that keeps its bytes as a file would, and whose calls meet the fates that its scripts
lay down. With `keeps` off it takes bytes in the same way and forgets them.
-/

namespace ConstDb

structure MemorySink where
  content : ByteArray
  offset : Nat
  keeps : Bool
  writes : Script
  seeks : Script
  flushes : Script
  deriving Inhabited

namespace MemorySink

/-- An empty sink that keeps what it takes and never fails. -/
def empty : MemorySink := ⟨.empty, 0, true, .clear, .clear, .clear⟩

def accept : MemorySink → ByteArray → (count : Nat) → MemorySink
  | ⟨content, offset, keeps, writes, seeks, flushes⟩, bytes, count =>
    ⟨if keeps then Bytes.overwrite content offset (bytes.extract 0 count) else content,
      offset + count, keeps, writes, seeks, flushes⟩

def write (bytes : ByteArray) : Effect IoError MemorySink Nat
  | ⟨content, offset, keeps, writes, seeks, flushes⟩ =>
    let (fate, writes) := writes.pop
    let sink : MemorySink := ⟨content, offset, keeps, writes, seeks, flushes⟩
    match fate with
    | .fail e => .error e sink
    | fate => .ok (fate.taken bytes.size) (sink.accept bytes (fate.taken bytes.size))

def seek (position : Nat) : Effect IoError MemorySink Unit := fun sink =>
  let (fate, seeks) := sink.seeks.pop
  match fate with
  | .fail e => .error e { sink with seeks }
  | _ => .ok () { sink with seeks, offset := position }

def flush : Effect IoError MemorySink Unit := fun sink =>
  let (fate, flushes) := sink.flushes.pop
  match fate with
  | .fail e => .error e { sink with flushes }
  | _ => .ok () { sink with flushes }

def calls : Sink MemorySink where
  write := write
  seek := seek
  flush := flush
  patience sink := sink.writes.patience
  write_le := by
    intro bytes s count s' h
    unfold write at h
    split at h
    dsimp only at h
    split at h
    · cases h
    · cases h; exact Fate.taken_le ..
  patience_lt := by
    intro bytes s e s' h interrupted
    unfold write at h
    split at h
    next writes seeks flushes =>
    dsimp only at h
    split at h
    · next e' fate =>
      cases h
      exact Script.patience_pop (by rw [fate]; exact interrupted)
    · cases h

end MemorySink

end ConstDb
