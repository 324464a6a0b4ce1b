import ConstDb.Bytes

/-!
# Pairs of words

Header entries, slots and record headers are all pairs of 32-bit words, stored least
significant byte first. Main statements: `decode_encode` and `encode_decode`, by which every eight
bytes are the stored form of one pair.
-/

namespace ConstDb.Pair

def size : Nat := 8

def wordBytes (word : UInt32) : List UInt8 :=
  [UInt8.ofNat word.toNat, UInt8.ofNat (word.toNat / 256), UInt8.ofNat (word.toNat / 65536),
    UInt8.ofNat (word.toNat / 16777216)]

def encode (first second : UInt32) : ByteArray :=
  (wordBytes first ++ wordBytes second).toByteArray

def wordAt (bytes : ByteArray) (index : Nat) : UInt32 :=
  let byte (i : Nat) := (Bytes.byteAt bytes (index + i)).toNat
  UInt32.ofNat (byte 0 + 256 * byte 1 + 65536 * byte 2 + 16777216 * byte 3)

def decode (bytes : ByteArray) : UInt32 × UInt32 := (wordAt bytes 0, wordAt bytes 4)

@[simp] theorem size_encode (first second : UInt32) : (encode first second).size = size := by
  simp [encode, wordBytes, size]

theorem wordBytes_join (word : UInt32) :
    UInt32.ofNat (word.toNat % 256 + 256 * (word.toNat / 256 % 256) +
      65536 * (word.toNat / 65536 % 256) + 16777216 * (word.toNat / 16777216 % 256)) = word := by
  have := word.toNat_lt
  apply UInt32.toNat.inj
  rw [UInt32.toNat_ofNat']
  omega

@[simp] theorem decode_encode (first second : UInt32) :
    decode (encode first second) = (first, second) := by
  have join := wordBytes_join
  simp only [decode, wordAt, Bytes.byteAt, encode, wordBytes]
  simp_all

theorem wordBytes_ofNat (a b c d : UInt8) :
    wordBytes (UInt32.ofNat (a.toNat + 256 * b.toNat + 65536 * c.toNat + 16777216 * d.toNat)) =
      [a, b, c, d] := by
  have ha := a.toNat_lt
  have hb := b.toNat_lt
  have hc := c.toNat_lt
  have hd := d.toNat_lt
  unfold wordBytes
  rw [UInt32.toNat_ofNat']
  simp only [List.cons.injEq, and_true]
  refine ⟨?_, ?_, ?_, ?_⟩ <;> apply UInt8.toNat.inj <;> rw [UInt8.toNat_ofNat'] <;> omega

theorem encode_decode {bytes : ByteArray} (full : bytes.size = size) :
    encode (decode bytes).1 (decode bytes).2 = bytes := by
  obtain ⟨⟨list⟩⟩ := bytes
  match list, full with
  | [b₀, b₁, b₂, b₃, b₄, b₅, b₆, b₇], _ =>
    have first : wordBytes (wordAt ⟨⟨[b₀, b₁, b₂, b₃, b₄, b₅, b₆, b₇]⟩⟩ 0) = [b₀, b₁, b₂, b₃] :=
      wordBytes_ofNat b₀ b₁ b₂ b₃
    have second : wordBytes (wordAt ⟨⟨[b₀, b₁, b₂, b₃, b₄, b₅, b₆, b₇]⟩⟩ 4) = [b₄, b₅, b₆, b₇] :=
      wordBytes_ofNat b₄ b₅ b₆ b₇
    rw [decode, encode, first, second]
    rfl

end ConstDb.Pair
