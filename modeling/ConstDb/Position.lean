import ConstDb.Effect
import ConstDb.Error

/-!
# Positions and lengths

The file stores every position and length in 32 bits. Positions are computed as natural numbers
and checked against the limit at each step, so that what is stored is never a wrapped value.
-/

namespace ConstDb

namespace Position

/-- The greatest position and the greatest length: the greatest word of 32 bits. -/
def limit : Nat := 4294967295

def advance (position length : Nat) : Except DbError Nat :=
  if position + length ≤ limit then .ok (position + length)
  else .error (.overflow (.position position length))

theorem advance_eq_ok_iff {position length next : Nat} :
    advance position length = .ok next ↔ next = position + length ∧ next ≤ limit := by
  unfold advance
  split <;> simp <;> omega

end Position

/-- A length as a stored word; `what` names what is measured. -/
def storedLength (what : String) (length : Nat) : Except DbError UInt32 :=
  if length ≤ Position.limit then .ok length.toUInt32
  else .error (.overflow (.length what length))

theorem storedLength_of_le {what : String} {length : Nat} (fits : length ≤ Position.limit) :
    storedLength what length = .ok length.toUInt32 := by
  simp [storedLength, fits]

end ConstDb
