/-!
# Byte strings

Operations on byte strings that sinks, sources and disks share: runs of zeros, overwriting in
the way of a file, and cutting into pieces of one length.
-/

namespace ConstDb.Bytes

/-- The one test for equality of byte strings, whatever others a module may import. -/
instance (priority := high) decidableEq : DecidableEq ByteArray := ByteArray.decEq

def zeros (count : Nat) : ByteArray := ⟨Array.replicate count 0⟩

/-- Writes `new` over `old` from `offset` on, as a file does: the result grows when `new` runs
past the end, a gap before it is filled with zeros, and writing nothing changes nothing. -/
def overwrite (old : ByteArray) (offset : Nat) (new : ByteArray) : ByteArray :=
  if new.isEmpty then old
  else new.copySlice 0 (old ++ zeros (offset - old.size)) offset new.size false

/-- The bytes cut into pieces of `length` bytes, the last one shorter if need be. -/
def chunks (length : Nat) (bytes : ByteArray) : List ByteArray :=
  (List.range ((bytes.size + length - 1) / length)).map fun i =>
    bytes.extract (i * length) (i * length + length)

def byteAt (bytes : ByteArray) (index : Nat) : UInt8 :=
  if h : index < bytes.size then bytes[index] else 0

@[simp] theorem size_zeros (count : Nat) : (zeros count).size = count := by
  simp [zeros, ByteArray.size]

@[simp] theorem overwrite_empty (old : ByteArray) (offset : Nat) :
    overwrite old offset .empty = old := by
  simp [overwrite, ByteArray.isEmpty]

@[simp] theorem zeros_zero : zeros 0 = .empty := rfl

theorem isEmpty_iff (bytes : ByteArray) : bytes.isEmpty = true ↔ bytes = .empty := by
  simp [ByteArray.isEmpty]

theorem overwrite_eq {old new : ByteArray} {offset : Nat} (fits : offset ≤ old.size) :
    overwrite old offset new =
      old.extract 0 offset ++ new ++ old.extract (offset + new.size) old.size := by
  unfold overwrite
  split
  · next h => simp [(isEmpty_iff new).1 h]
  · simp [Nat.sub_eq_zero_of_le fits, ByteArray.copySlice_eq_append]

/-! ## Folds -/

theorem foldl_loop {β : Type} (f : β → UInt8 → β) (bytes : ByteArray)
    (h : bytes.size ≤ bytes.size) : ∀ (i j : Nat) (b : β), i + j = bytes.size →
      Id.run (ByteArray.foldlM.loop (fun b byte => pure (f b byte)) bytes bytes.size h i j b) =
        (bytes.data.toList.drop j).foldl f b := by
  intro i
  induction i with
  | zero =>
    intro j b hj
    have : bytes.data.toList.drop j = [] := by simp [← hj]
    rw [this]
    unfold ByteArray.foldlM.loop; simp
  | succ i ih =>
    intro j b hj
    have hlt : j < bytes.size := by omega
    rw [List.drop_eq_getElem_cons (by simpa using hlt), List.foldl_cons, ← ih (j + 1) _ (by omega)]
    conv => lhs; unfold ByteArray.foldlM.loop
    simp only [hlt, dite_true]
    rfl

theorem foldl_eq {β : Type} (f : β → UInt8 → β) (b : β) (bytes : ByteArray) :
    bytes.foldl f b = bytes.data.toList.foldl f b := by
  have := foldl_loop f bytes (Nat.le_refl _) bytes.size 0 b (by simp)
  simp only [List.drop_zero] at this
  simpa [ByteArray.foldl, ByteArray.foldlM] using this

end ConstDb.Bytes
