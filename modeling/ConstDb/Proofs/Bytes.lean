import ConstDb.Bytes
import Mathlib.Algebra.GroupWithZero.Nat

/-!
# Bytes in place

What stands where in a byte string, and what successive writes leave there. `overwrite_overwrite`
and `overwrite_front` are what a sink sees of a stream that is written behind a gap which is
filled last of all.
-/

namespace ConstDb.Bytes

/-! ## Pieces one behind the other -/

def concat : List ByteArray → ByteArray
  | [] => .empty
  | piece :: pieces => piece ++ concat pieces

@[simp] theorem concat_nil : concat [] = .empty := rfl

@[simp] theorem concat_cons (piece : ByteArray) (pieces : List ByteArray) :
    concat (piece :: pieces) = piece ++ concat pieces := rfl

theorem concat_append (front back : List ByteArray) :
    concat (front ++ back) = concat front ++ concat back := by
  induction front with
  | nil => simp
  | cons piece front ih => simp [ih, ByteArray.append_assoc]

theorem size_concat (pieces : List ByteArray) :
    (concat pieces).size = (pieces.map ByteArray.size).sum := by
  induction pieces with
  | nil => rfl
  | cons piece pieces ih => simp [ih]

theorem size_concat_of_forall {pieces : List ByteArray} {size : Nat}
    (even : ∀ piece ∈ pieces, piece.size = size) : (concat pieces).size = size * pieces.length := by
  induction pieces with
  | nil => simp
  | cons piece pieces ih =>
    rw [concat_cons, ByteArray.size_append, ih fun p h => even p (List.mem_cons_of_mem _ h),
      even piece (List.mem_cons_self ..), List.length_cons, Nat.mul_succ, Nat.add_comm]

/-! ## What stands at a position -/

/-- `piece` is what `bytes` holds from `position` on. -/
def StandsAt (bytes : ByteArray) (position : Nat) (piece : ByteArray) : Prop :=
  position + piece.size ≤ bytes.size ∧ bytes.extract position (position + piece.size) = piece

instance (bytes : ByteArray) (position : Nat) (piece : ByteArray) :
    Decidable (StandsAt bytes position piece) :=
  inferInstanceAs (Decidable (_ ∧ _))

theorem standsAt_self (bytes : ByteArray) : StandsAt bytes 0 bytes := by
  refine ⟨by omega, ?_⟩
  rw [Nat.zero_add]
  exact ByteArray.extract_zero_size

theorem extract_eq_empty {bytes : ByteArray} {start stop : Nat} (past : min stop bytes.size ≤ start) :
    bytes.extract start stop = .empty :=
  ByteArray.extract_eq_empty_iff.2 past

theorem StandsAt.append_right {bytes piece : ByteArray} {position : Nat}
    (stands : StandsAt bytes position piece) (rest : ByteArray) :
    StandsAt (bytes ++ rest) position piece := by
  obtain ⟨inside, eq⟩ := stands
  refine ⟨by simp; omega, ?_⟩
  rw [ByteArray.extract_append, eq, Nat.sub_eq_zero_of_le inside, extract_eq_empty (by simp)]
  simp

theorem StandsAt.append_left {bytes piece : ByteArray} {position : Nat}
    (stands : StandsAt bytes position piece) (before : ByteArray) :
    StandsAt (before ++ bytes) (before.size + position) piece := by
  obtain ⟨inside, eq⟩ := stands
  refine ⟨by simp; omega, ?_⟩
  rw [Nat.add_assoc, ByteArray.extract_append_size_add, eq]

theorem StandsAt.append {bytes front back : ByteArray} {position : Nat}
    (first : StandsAt bytes position front) (second : StandsAt bytes (position + front.size) back) :
    StandsAt bytes position (front ++ back) := by
  obtain ⟨-, first⟩ := first
  obtain ⟨inside, second⟩ := second
  refine ⟨by rw [ByteArray.size_append]; omega, ?_⟩
  rw [ByteArray.size_append, ← Nat.add_assoc]
  conv => rhs; rw [← first, ← second]
  rw [ByteArray.extract_append_extract, Nat.min_eq_left (Nat.le_add_right ..),
    Nat.max_eq_right (Nat.le_add_right ..)]

theorem StandsAt.trans {bytes piece part : ByteArray} {position offset : Nat}
    (outer : StandsAt bytes position piece) (inner : StandsAt piece offset part) :
    StandsAt bytes (position + offset) part := by
  obtain ⟨outside, outer⟩ := outer
  obtain ⟨inside, inner⟩ := inner
  refine ⟨by omega, ?_⟩
  have : (bytes.extract position (position + piece.size)).extract offset (offset + part.size) = part := by
    rw [outer, inner]
  rwa [ByteArray.extract_extract, ← Nat.add_assoc, Nat.min_eq_left (by omega)] at this

theorem StandsAt.of_append {bytes front back : ByteArray} {position : Nat}
    (stands : StandsAt bytes position (front ++ back)) :
    StandsAt bytes position front ∧ StandsAt bytes (position + front.size) back := by
  have first := (standsAt_self front).append_right back
  have second := (standsAt_self back).append_left front
  rw [Nat.add_zero] at second
  exact ⟨stands.trans first, stands.trans second⟩

theorem standsAt_concat {front back : List ByteArray} {piece : ByteArray} :
    StandsAt (concat (front ++ piece :: back)) (concat front).size piece := by
  rw [concat_append, concat_cons]
  have := ((standsAt_self piece).append_right (concat back)).append_left (concat front)
  simpa using this

theorem standsAt_concat_getElem? {pieces : List ByteArray} {index : Nat} {piece : ByteArray}
    (at_index : pieces[index]? = some piece) :
    StandsAt (concat pieces) (concat (pieces.take index)).size piece := by
  obtain ⟨lt, rfl⟩ := List.getElem?_eq_some_iff.1 at_index
  have cut : pieces.take index ++ pieces[index] :: pieces.drop (index + 1) = pieces := by simp
  have stands : StandsAt (concat (pieces.take index ++ pieces[index] :: pieces.drop (index + 1)))
      (concat (pieces.take index)).size pieces[index] := standsAt_concat
  rwa [cut] at stands

theorem standsAt_concat_of_forall {pieces : List ByteArray} {index size : Nat} {piece : ByteArray}
    (even : ∀ piece ∈ pieces, piece.size = size) (at_index : pieces[index]? = some piece) :
    StandsAt (concat pieces) (size * index) piece := by
  have stands := standsAt_concat_getElem? at_index
  have lt := (List.getElem?_eq_some_iff.1 at_index).1
  rwa [size_concat_of_forall fun p member => even p (List.mem_of_mem_take member),
    List.length_take, Nat.min_eq_left (Nat.le_of_lt lt)] at stands

/-! ## Ends of byte strings -/

theorem extract_end_append (front back : ByteArray) (skipped : Nat) :
    (front ++ back).extract (front.size + skipped) (front ++ back).size =
      back.extract skipped back.size := by
  rw [ByteArray.size_append, ByteArray.extract_append_size_add]

theorem extract_end_extract_end (bytes : ByteArray) (start skipped : Nat) :
    (bytes.extract start bytes.size).extract skipped (bytes.extract start bytes.size).size =
      bytes.extract (start + skipped) bytes.size := by
  rw [ByteArray.extract_extract]
  rcases Nat.le_total (start + skipped) bytes.size with h | h
  · congr 1; simp; omega
  · rw [extract_eq_empty (by omega), extract_eq_empty (by omega)]

/-! ## Fronts -/

/-- `whole` starts with `front`. -/
def Leads (front whole : ByteArray) : Prop := ∃ rest, front ++ rest = whole

/-- It does, and there is more of it. -/
def LeadsShort (front whole : ByteArray) : Prop := ∃ rest, front ++ rest = whole ∧ rest ≠ .empty

theorem Leads.append_right {front whole : ByteArray} (leads : Leads front whole) (more : ByteArray) :
    Leads front (whole ++ more) := by
  obtain ⟨rest, rfl⟩ := leads
  exact ⟨rest ++ more, ByteArray.append_assoc.symm⟩

theorem leads_refl (bytes : ByteArray) : Leads bytes bytes := ⟨.empty, ByteArray.append_empty⟩

theorem Leads.trans {first second third : ByteArray} (leads : Leads first second)
    (leads' : Leads second third) : Leads first third := by
  obtain ⟨rest, rfl⟩ := leads
  obtain ⟨rest', rfl⟩ := leads'
  exact ⟨rest ++ rest', ByteArray.append_assoc.symm⟩

theorem LeadsShort.leads {front whole : ByteArray} (short : LeadsShort front whole) :
    Leads front whole := by
  obtain ⟨rest, eq, -⟩ := short
  exact ⟨rest, eq⟩

theorem LeadsShort.append_right {front whole : ByteArray} (short : LeadsShort front whole)
    (more : ByteArray) : LeadsShort front (whole ++ more) := by
  obtain ⟨rest, rfl, some⟩ := short
  exact ⟨rest ++ more, ByteArray.append_assoc.symm, fun none => some (ByteArray.append_eq_empty_iff.1 none).1⟩

theorem LeadsShort.append_left {front whole : ByteArray} (short : LeadsShort front whole)
    (before : ByteArray) : LeadsShort (before ++ front) (before ++ whole) := by
  obtain ⟨rest, rfl, some⟩ := short
  exact ⟨rest, ByteArray.append_assoc, some⟩

theorem leadsShort_empty {bytes : ByteArray} (some : bytes.size ≠ 0) : LeadsShort .empty bytes :=
  ⟨bytes, ByteArray.empty_append, fun none => some (ByteArray.size_eq_zero_iff.2 none)⟩

theorem extract_append_rest {bytes : ByteArray} {count : Nat} (le : count ≤ bytes.size) :
    bytes.extract 0 count ++ bytes.extract count bytes.size = bytes := by
  rw [ByteArray.extract_append_extract, Nat.min_eq_left (Nat.zero_le _), Nat.max_eq_right le]
  exact ByteArray.extract_zero_size

/-! ## Overwriting -/

/-- The part of a file before `offset` once something is written there: a gap shows zeros. -/
def padded (old : ByteArray) (offset : Nat) : ByteArray :=
  (old ++ zeros (offset - old.size)).extract 0 offset

@[simp] theorem size_padded (old : ByteArray) (offset : Nat) : (padded old offset).size = offset := by
  simp [padded]
  omega

@[simp] theorem padded_zero (old : ByteArray) : padded old 0 = .empty :=
  extract_eq_empty (by simp)

theorem overwrite_of_ne_empty (old : ByteArray) (offset : Nat) {new : ByteArray}
    (ne : new ≠ .empty) : overwrite old offset new =
      padded old offset ++ new ++ old.extract (offset + new.size) old.size := by
  have filled : new.isEmpty = false := Bool.eq_false_iff.2 fun h => ne ((isEmpty_iff new).1 h)
  unfold overwrite padded
  rw [if_neg (by simp [filled]), ByteArray.copySlice_eq_append, Nat.zero_add,
    ByteArray.extract_zero_size]
  congr 1
  have size : min new.size (new.data.size - 0) = new.size := by simp
  rw [size]
  rcases Nat.le_total offset old.size with h | h
  · simp [Nat.sub_eq_zero_of_le h]
  · rw [extract_eq_empty (by simp; omega), extract_eq_empty (by simp; omega)]

theorem overwrite_overwrite (old front back : ByteArray) (offset : Nat) :
    overwrite (overwrite old offset front) (offset + front.size) back =
      overwrite old offset (front ++ back) := by
  by_cases hf : front = .empty
  · subst hf; simp
  by_cases hb : back = .empty
  · subst hb; simp
  have hfb : front ++ back ≠ .empty := fun h => hf (ByteArray.append_eq_empty_iff.1 h).1
  rw [overwrite_of_ne_empty old offset hf, overwrite_of_ne_empty old offset hfb]
  have size : offset + front.size = (padded old offset ++ front).size := by simp
  rw [overwrite_eq (by simp), size, ByteArray.extract_append_eq_left rfl, extract_end_append,
    extract_end_extract_end]
  simp only [ByteArray.size_append, size_padded, ByteArray.append_assoc, Nat.add_assoc]

/-- A front that is written last, before everything else, is as good as written first. -/
theorem overwrite_front (old front back : ByteArray) :
    overwrite (overwrite old front.size back) 0 front = overwrite old 0 (front ++ back) := by
  by_cases hb : back = .empty
  · subst hb; simp
  by_cases hf : front = .empty
  · subst hf; simp
  have hfb : front ++ back ≠ .empty := fun h => hf (ByteArray.append_eq_empty_iff.1 h).1
  rw [overwrite_of_ne_empty old _ hb, overwrite_of_ne_empty old 0 hfb, overwrite_of_ne_empty _ 0 hf]
  have size : 0 + front.size = (padded old front.size).size + 0 := by simp
  rw [ByteArray.append_assoc (a := padded old front.size), size, extract_end_append,
    ByteArray.extract_zero_size]
  simp [ByteArray.append_assoc]

/-- Behind the place where something is written stands that, and then what stood behind it. -/
theorem extract_overwrite (old new : ByteArray) (offset : Nat) :
    (overwrite old offset new).extract offset (overwrite old offset new).size =
      new ++ old.extract (offset + new.size) old.size := by
  by_cases h : new = .empty
  · subst h
    simp
  · have behind := extract_end_append (padded old offset)
      (new ++ old.extract (offset + new.size) old.size) 0
    rw [size_padded, Nat.add_zero, ByteArray.extract_zero_size] at behind
    rwa [overwrite_of_ne_empty old offset h, ByteArray.append_assoc]

/-- A front that is no longer leaves what stands behind it. -/
theorem extract_overwrite_front {front : ByteArray} {offset : Nat} (old : ByteArray)
    (le : front.size ≤ offset) :
    (overwrite old 0 front).extract offset (overwrite old 0 front).size = old.extract offset old.size := by
  obtain ⟨more, rfl⟩ := Nat.exists_eq_add_of_le le
  rw [overwrite_eq (Nat.zero_le _), extract_eq_empty (Nat.min_le_left ..), ByteArray.empty_append,
    Nat.zero_add, extract_end_append, extract_end_extract_end]

theorem extract_overwrite_self (old front : ByteArray) :
    (overwrite old 0 front).extract 0 front.size = front := by
  rw [overwrite_eq (Nat.zero_le _), extract_eq_empty (Nat.min_le_left ..), ByteArray.empty_append,
    ByteArray.extract_append_eq_left rfl]

theorem overwrite_zero {old new : ByteArray} (le : old.size ≤ new.size) :
    overwrite old 0 new = new := by
  by_cases h : new = .empty
  · subst h
    have : old = .empty := ByteArray.size_eq_zero_iff.1 (by simpa using le)
    simp [this]
  · rw [overwrite_of_ne_empty old 0 h, extract_eq_empty (by omega)]
    simp

/-! ## Pieces of one length -/

section chunks
variable {length : Nat} {bytes piece : ByteArray}

theorem isEmpty_of_mem_chunks (positive : 0 < length) (member : piece ∈ chunks length bytes) :
    piece.isEmpty = false := by
  obtain ⟨i, here, rfl⟩ := List.mem_map.1 member
  have starts := (Nat.lt_div_iff_mul_lt positive).1 (List.mem_range.1 here)
  rw [Bool.eq_false_iff, Ne, isEmpty_iff, ← ByteArray.size_eq_zero_iff, ByteArray.size_extract]
  omega

theorem concat_pieces (length : Nat) (bytes : ByteArray) (count : Nat) :
    concat ((List.range count).map fun i => bytes.extract (i * length) (i * length + length)) =
      bytes.extract 0 (count * length) := by
  induction count with
  | zero => simp
  | succ count ih =>
    rw [List.range_succ, List.map_append, concat_append, ih, List.map_singleton, concat_cons, concat_nil,
      ByteArray.append_empty, ByteArray.extract_append_extract, Nat.min_eq_left (Nat.zero_le _),
      Nat.max_eq_right (Nat.le_add_right ..), Nat.succ_mul]

theorem concat_chunks (positive : 0 < length) (bytes : ByteArray) :
    concat (chunks length bytes) = bytes := by
  have le : bytes.size ≤ (bytes.size + length - 1) / length * length := by
    have := Nat.lt_div_mul_add positive (a := bytes.size + length - 1)
    omega
  have whole := ByteArray.extract_zero_max_size (a := bytes)
    (i := (bytes.size + length - 1) / length * length)
  rw [Nat.max_eq_left le] at whole
  exact (concat_pieces length bytes _).trans whole

end chunks

end ConstDb.Bytes
