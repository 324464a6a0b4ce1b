import ConstDb.Sink

/-!
# Counting the calls of a sink

`Sink.tallied` is the sink it is given, with a count of the calls made to it. Calls that fail
count as well.
-/

namespace ConstDb

structure Tally where
  writes : Nat
  written : Nat
  seeks : Array Nat
  flushes : Nat
  deriving DecidableEq, Repr, Inhabited

namespace Tally

def zero : Tally := ⟨0, 0, #[], 0⟩

def countWrite (tally : Tally) (taken : Nat) : Tally :=
  { tally with writes := tally.writes + 1, written := tally.written + taken }

def countSeek (tally : Tally) (position : Nat) : Tally :=
  { tally with seeks := tally.seeks.push position }

def countFlush (tally : Tally) : Tally := { tally with flushes := tally.flushes + 1 }

end Tally

namespace Sink

variable {σ : Type}

def tallied (sink : Sink σ) : Sink (Tally × σ) where
  write bytes := fun (tally, s) =>
    match sink.write bytes s with
    | .ok count s => .ok count (tally.countWrite count, s)
    | .error e s => .error e (tally.countWrite 0, s)
  seek position := fun (tally, s) =>
    match sink.seek position s with
    | .ok () s => .ok () (tally.countSeek position, s)
    | .error e s => .error e (tally.countSeek position, s)
  flush := fun (tally, s) =>
    match sink.flush s with
    | .ok () s => .ok () (tally.countFlush, s)
    | .error e s => .error e (tally.countFlush, s)
  patience state := sink.patience state.2
  write_le := by
    intro bytes state count state' h
    dsimp only at h
    split at h
    · next written => cases h; exact sink.write_le written
    · cases h
  patience_lt := by
    intro bytes state e state' h interrupted
    dsimp only at h
    split at h
    · cases h
    · next failed => cases h; exact sink.patience_lt failed interrupted

end Sink

end ConstDb
