import ConstDb.Layout
import ConstDb.Position

/-!
# Slot tables

A bucket's table has two slots for each entry. An entry goes into the first empty slot at or
after the one where probing for its hash starts, going round at the end of the table. As half
of the slots stay empty, there always is one.
-/

namespace ConstDb.SlotTable

/-- The index after `index` in a table of `size` slots, going round at its end. -/
def successor (size index : Nat) : Nat := if index + 1 = size then 0 else index + 1

/-- The index of the first empty slot from `index` on, among the next `tries` slots. -/
def firstEmpty (table : Array Slot) : (tries index : Nat) → Option Nat
  | 0, _ => none
  | tries + 1, index =>
    match table[index]? with
    | none => none
    | some slot =>
      if slot.isEmpty then some index
      else firstEmpty table tries (successor table.size index)

/-- Puts an entry into its slot; a table that is full stays as it is. -/
def insert (table : Array Slot) (entry : Slot) : Array Slot :=
  match firstEmpty table table.size (entry.hash.probeStart table.size) with
  | none => table
  | some index => table.setIfInBounds index entry

/-- A table of `size` empty slots, in the storage of an array that is no longer needed. -/
def cleared (scratch : Array Slot) (size : Nat) : Array Slot :=
  size.fold (fun _ _ table => table.push Slot.empty) (scratch.shrink 0)

/-- The table for one bucket's entries. The storage of `scratch` is used again, its contents
are not. -/
def ofEntries (scratch : Array Slot) (entries : Array Slot) : Except DbError (Array Slot) := do
  let size := entries.size * 2
  let _ ← storedLength "hash table" size
  return entries.foldl insert (cleared scratch size)

@[simp] theorem cleared_eq (scratch : Array Slot) (size : Nat) :
    cleared scratch size = Array.replicate size Slot.empty := by
  unfold cleared
  rw [show scratch.shrink 0 = #[] by simp]
  induction size with
  | zero => rfl
  | succ size ih => rw [Nat.fold_succ, ih, Array.replicate_succ]

end ConstDb.SlotTable
