import ConstDb.Hash
import ConstDb.Pair

/-!
# Layout of a database file

A database file has three areas, one after the other: the header, with one entry for each
bucket; the records, without padding; and the slot tables, in bucket order. A header entry says
where a bucket's table starts and how many slots it has; a slot holds the hash of a key and the
position of its record.
-/

namespace ConstDb

/-- The header takes one pair for each bucket. The record area starts behind it. -/
def headerSize : Nat := bucketCount * Pair.size

/-- A record starts with the lengths of its key and its data. -/
def recordHeaderSize : Nat := Pair.size

/-! ## Header entries -/

structure TableRef where
  offset : UInt32
  slots : UInt32
  deriving DecidableEq, Repr, Inhabited

namespace TableRef

def encode (table : TableRef) : ByteArray := Pair.encode table.offset table.slots

def decode (bytes : ByteArray) : TableRef :=
  let (offset, slots) := Pair.decode bytes
  ⟨offset, slots⟩

def position (bucket : Bucket) : Nat := bucket.val * Pair.size

@[simp] theorem size_encode (table : TableRef) : table.encode.size = Pair.size :=
  Pair.size_encode ..

@[simp] theorem decode_encode (table : TableRef) : decode table.encode = table := by
  simp [decode, encode]

end TableRef

/-! ## Slots -/

/-- The hash of a key and the position of a record with that key. -/
structure Slot where
  hash : Hash
  position : UInt32
  deriving DecidableEq, Repr, Inhabited

namespace Slot

/-- The slot that holds nothing: eight zero bytes in the file. -/
def empty : Slot := ⟨0, 0⟩

/-- No record starts at position 0, where the header is. -/
def isEmpty (slot : Slot) : Bool := slot.position = 0

def encode (slot : Slot) : ByteArray := Pair.encode slot.hash slot.position

def decode (bytes : ByteArray) : Slot :=
  let (hash, position) := Pair.decode bytes
  ⟨hash, position⟩

@[simp] theorem isEmpty_empty : empty.isEmpty = true := rfl

@[simp] theorem size_encode (slot : Slot) : slot.encode.size = Pair.size :=
  Pair.size_encode ..

@[simp] theorem decode_encode (slot : Slot) : decode slot.encode = slot := by
  simp [decode, encode]

end Slot

end ConstDb
