import ConstDb.Source

/-!
# Sparse sources

Bytes that are zero but for a few segments, so that sources much larger than memory can be
written down.
-/

namespace ConstDb

/-- Bytes laid over zeros from a position on. -/
structure Segment where
  position : Nat
  bytes : ByteArray
  deriving Inhabited

namespace Segment

def stop (segment : Segment) : Nat := segment.position + segment.bytes.size

/-- Lays the part of a segment that falls into the range over `range`, whose first byte is at
`start`. -/
def overlay (start : Nat) (range : ByteArray) (segment : Segment) : ByteArray :=
  let first := max start segment.position
  let last := min (start + range.size) segment.stop
  if first < last then
    Bytes.overwrite range (first - start)
      (segment.bytes.extract (first - segment.position) (last - segment.position))
  else range

end Segment

namespace Source

/-- Zeros up to `stop` under the given segments, later ones over earlier ones. -/
def sparse {σ : Type} (stop : Nat) (segments : List Segment) : Source σ where
  size := stop
  mapped _ := none
  read position length :=
    if position + length ≤ stop then
      pure (segments.foldl (Segment.overlay position) (Bytes.zeros length))
    else throw .sourceEnded

end Source

end ConstDb
