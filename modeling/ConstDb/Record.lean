import ConstDb.Layout

/-!
# Records

A record is a key and its data. In the file the two lengths come first, then the key, then the
data.
-/

namespace ConstDb

structure Record where
  key : ByteArray
  data : ByteArray
  deriving DecidableEq, Inhabited

namespace Record

def header (record : Record) : ByteArray :=
  Pair.encode record.key.size.toUInt32 record.data.size.toUInt32

def encode (record : Record) : ByteArray := record.header ++ record.key ++ record.data

def storedSize (record : Record) : Nat :=
  recordHeaderSize + record.key.size + record.data.size

@[simp] theorem size_encode (record : Record) : record.encode.size = record.storedSize := by
  simp [encode, header, storedSize, recordHeaderSize]

end Record

end ConstDb
