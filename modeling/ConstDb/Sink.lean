import ConstDb.Effect
import ConstDb.Error

/-!
# Sinks

A sink takes bytes at its current position and can be moved to another one. A write may take
less than it is offered, and may be interrupted, in which case it has done nothing and can be
tried again. `Sink.writeFully` writes on until all bytes are taken or the sink fails.
-/

namespace ConstDb

structure Sink (σ : Type) where
  /-- Offers bytes at the current position, and answers how many were taken. -/
  write : ByteArray → Effect IoError σ Nat
  seek : Nat → Effect IoError σ Unit
  /-- Passes on what the sink itself may hold back. -/
  flush : Effect IoError σ Unit
  /-- A bound on how many writes in a row are interrupted. -/
  patience : σ → Nat
  write_le : ∀ {bytes s count s'}, write bytes s = .ok count s' → count ≤ bytes.size
  patience_lt : ∀ {bytes s e s'}, write bytes s = .error e s' → e.isInterrupted = true →
    patience s' < patience s

namespace Sink

variable {σ : Type}

/-- Writes until all bytes are taken. Interrupted writes are tried again; any other failure ends
it, and so does a write that takes nothing. -/
def writeFully (sink : Sink σ) (bytes : ByteArray) : Effect IoError σ Unit := fun s =>
  if bytes.size = 0 then .ok () s
  else
    match h : sink.write bytes s with
    | .ok 0 s' => .error .acceptedNothing s'
    | .ok (count + 1) s' => writeFully sink (bytes.extract (count + 1) bytes.size) s'
    | .error e s' =>
      if _again : e.isInterrupted = true then writeFully sink bytes s' else .error e s'
termination_by s => (bytes.size, sink.patience s)
decreasing_by
  · exact Prod.Lex.left _ _ (by simp; omega)
  · exact Prod.Lex.right _ (sink.patience_lt h _again)

end Sink

end ConstDb
