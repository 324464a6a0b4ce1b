import ConstDb.Bytes

/-!
# The key hash

A 32-bit hash of the key's bytes. Its low byte chooses one of 256 buckets, and the other bits
choose where in the bucket's table a search for the key starts.
-/

namespace ConstDb

/-- The number of buckets: one for each value of the hash's low byte. -/
abbrev bucketCount : Nat := 256

abbrev Bucket := Fin bucketCount

abbrev Hash := UInt32

namespace Hash

def start : Hash := 5381

/-- Takes one more byte into the hash. All arithmetic wraps at 32 bits. -/
def step (h : Hash) (byte : UInt8) : Hash := (h + (h <<< 5)) ^^^ byte.toUInt32

def ofKey (key : ByteArray) : Hash := key.foldl step start

def bucket (h : Hash) : Bucket := Fin.ofNat bucketCount h.toNat

def probeStart (h : Hash) (slots : Nat) : Nat := (h >>> 8).toNat % slots

theorem ofKey_eq (key : ByteArray) : ofKey key = key.data.toList.foldl step start :=
  Bytes.foldl_eq step start key

theorem probeStart_lt (h : Hash) {slots : Nat} (pos : 0 < slots) : probeStart h slots < slots :=
  Nat.mod_lt _ pos

end Hash

end ConstDb
