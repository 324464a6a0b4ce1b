import ConstDb.Index.SlotTable
import Mathlib.Data.List.TakeWhile
import Mathlib.Data.Nat.Find
import Mathlib.Data.Nat.ModEq

/-!
# Linear probing

What a slot table holds after its entries were put in. `Holds` is the invariant of one insertion:
the occupied slots are the entries, each is reached from the start of its own probe over occupied
slots only, and a probe that stops at the first empty slot meets the entries with one hash in the
order in which they were put in. Main statement: `holds_tableOf`.
-/

namespace ConstDb.SlotTable

/-! ## Probe sequences -/

/-- The index of the slot that a probe for `h` looks at after `steps` others. -/
def probeIndex (h : Hash) (size steps : Nat) : Nat := ((h >>> 8).toNat + steps) % size

theorem probeIndex_zero (h : Hash) (size : Nat) : probeIndex h size 0 = h.probeStart size := rfl

theorem probeIndex_lt (h : Hash) {size : Nat} (pos : 0 < size) (steps : Nat) :
    probeIndex h size steps < size := Nat.mod_lt _ pos

theorem successor_probeIndex (h : Hash) {size : Nat} (pos : 0 < size) (steps : Nat) :
    successor size (probeIndex h size steps) = probeIndex h size (steps + 1) := by
  have lt := probeIndex_lt h pos steps
  have next : probeIndex h size (steps + 1) = (probeIndex h size steps + 1) % size := by
    rw [probeIndex, probeIndex, Nat.mod_add_mod, Nat.add_assoc]
  rw [next]
  unfold successor
  split
  · next wraps => rw [wraps, Nat.mod_self]
  · rw [Nat.mod_eq_of_lt (by omega)]

theorem probeIndex_inj (h : Hash) {size i j : Nat} (hi : i < size) (hj : j < size)
    (eq : probeIndex h size i = probeIndex h size j) : i = j := by
  have : i ≡ j [MOD size] := Nat.ModEq.add_left_cancel' _ eq
  rwa [Nat.ModEq, Nat.mod_eq_of_lt hi, Nat.mod_eq_of_lt hj] at this

theorem exists_probeIndex_eq (h : Hash) {size index : Nat} (lt : index < size) :
    ∃ steps < size, probeIndex h size steps = index := by
  have pos : 0 < size := by omega
  refine ⟨(index + (size - (h >>> 8).toNat % size)) % size, Nat.mod_lt _ pos, ?_⟩
  have le := Nat.mod_lt (h >>> 8).toNat pos
  unfold probeIndex
  rw [Nat.add_mod_mod, ← Nat.mod_add_mod]
  rw [show (h >>> 8).toNat % size + (index + (size - (h >>> 8).toNat % size)) = index + size by omega,
    Nat.add_mod_right, Nat.mod_eq_of_lt lt]

/-! ## Occupied slots -/

def slotAt (table : Array Slot) (index : Nat) : Slot := table.getD index .empty

def Occupied (table : Array Slot) (index : Nat) : Prop := (slotAt table index).isEmpty = false

instance (table : Array Slot) (index : Nat) : Decidable (Occupied table index) :=
  inferInstanceAs (Decidable (_ = _))

/-- A probe for `h` looks at the slot at `index` after `steps` others, all of them occupied. -/
def Reaches (table : Array Slot) (h : Hash) (steps index : Nat) : Prop :=
  steps < table.size ∧ probeIndex h table.size steps = index ∧
    ∀ earlier < steps, Occupied table (probeIndex h table.size earlier)

theorem firstEmpty_of_occupied {table : Array Slot} {tries index : Nat} (lt : index < table.size)
    (occupied : Occupied table index) : firstEmpty table (tries + 1) index =
      firstEmpty table tries (successor table.size index) := by
  have : (table[index]).isEmpty = false := by simpa [Occupied, slotAt, Array.getD, lt] using occupied
  simp [firstEmpty, lt, this]

theorem firstEmpty_of_empty {table : Array Slot} {tries index : Nat} (lt : index < table.size)
    (empty : ¬ Occupied table index) : firstEmpty table (tries + 1) index = some index := by
  have : (table[index]).isEmpty = true := by simpa [Occupied, slotAt, Array.getD, lt] using empty
  simp [firstEmpty, lt, this]

theorem firstEmpty_eq {table : Array Slot} {h : Hash} (pos : 0 < table.size) :
    ∀ {tries start steps : Nat}, start ≤ steps → steps < start + tries →
      (∀ j < steps, start ≤ j → Occupied table (probeIndex h table.size j)) →
      ¬ Occupied table (probeIndex h table.size steps) →
      firstEmpty table tries (probeIndex h table.size start) =
        some (probeIndex h table.size steps)
  | 0, _, _, le, lt, _, _ => by omega
  | tries + 1, start, steps, le, lt, occupied, empty => by
    have inside := probeIndex_lt h pos start
    rcases Nat.eq_or_lt_of_le le with rfl | before
    · exact firstEmpty_of_empty inside empty
    · rw [firstEmpty_of_occupied inside (occupied start before (Nat.le_refl _)),
        successor_probeIndex h pos]
      exact firstEmpty_eq pos (by omega) (by omega) (fun j hj hs => occupied j hj (by omega)) empty

theorem slotAt_setIfInBounds (table : Array Slot) {place : Nat} (lt : place < table.size)
    (entry : Slot) (index : Nat) : slotAt (table.setIfInBounds place entry) index =
      if place = index then entry else slotAt table index := by
  unfold slotAt
  simp only [Array.getD_eq_getD_getElem?, Array.getElem?_setIfInBounds]
  by_cases h : place = index
  · subst h; simp [lt]
  · simp [h]

theorem occupied_setIfInBounds {table : Array Slot} {place index : Nat} {entry : Slot}
    (lt : place < table.size) (filled : entry.isEmpty = false) (occupied : Occupied table index) :
    Occupied (table.setIfInBounds place entry) index := by
  unfold Occupied at *
  rw [slotAt_setIfInBounds table lt]
  split
  · exact filled
  · exact occupied

/-! ## What a probe meets -/

/-- The slots of a table in the order of a probe for `h`. -/
def lap (table : Array Slot) (h : Hash) : List Slot :=
  (List.range table.size).map fun steps => slotAt table (probeIndex h table.size steps)

/-- What a probe for `h` meets before the first empty slot. -/
def met (table : Array Slot) (h : Hash) : List Slot := (lap table h).takeWhile (!·.isEmpty)

@[simp] theorem length_lap (table : Array Slot) (h : Hash) : (lap table h).length = table.size := by
  simp [lap]

theorem getElem_lap (table : Array Slot) (h : Hash) {steps : Nat}
    (inside : steps < (lap table h).length) :
    (lap table h)[steps] = slotAt table (probeIndex h table.size steps) := by
  simp [lap]

theorem lap_setIfInBounds (table : Array Slot) (h : Hash) (entry : Slot) {steps : Nat}
    (lt : steps < table.size) :
    lap (table.setIfInBounds (probeIndex h table.size steps) entry) h =
      (lap table h).set steps entry := by
  apply List.ext_getElem
  · simp
  intro j hj _
  have hj : j < table.size := by simpa using hj
  rw [List.getElem_set, getElem_lap _ h (by simpa using hj), getElem_lap table h (by simpa using hj),
    Array.size_setIfInBounds, slotAt_setIfInBounds table (probeIndex_lt h (by omega) steps)]
  by_cases eq : steps = j
  · subst eq; simp
  · have ne : probeIndex h table.size steps ≠ probeIndex h table.size j :=
      fun same => eq (probeIndex_inj h lt hj same)
    simp [eq, ne]

/-! ## The invariant of an insertion -/

/-- What a table holds after `entries` were put in one after the other. -/
structure Holds (table : Array Slot) (entries : List Slot) : Prop where
  perm : (table.toList.filter (!·.isEmpty)).Perm entries
  blank : ∀ slot ∈ table, slot.isEmpty = true → slot = .empty
  reached : ∀ index, Occupied table index →
    ∃ steps, Reaches table (slotAt table index).hash steps index
  inOrder : ∀ h, (met table h).filter (·.hash = h) = entries.filter (·.hash = h)

theorem slotAt_eq_getElem {table : Array Slot} {index : Nat} (lt : index < table.size) :
    slotAt table index = table[index] := by
  simp [slotAt, Array.getD, lt]

theorem Holds.mem_iff {table : Array Slot} {entries : List Slot} (holds : Holds table entries)
    {slot : Slot} : slot ∈ entries ↔ slot ∈ table ∧ slot.isEmpty = false := by
  rw [← holds.perm.mem_iff, List.mem_filter, Array.mem_toList_iff]
  simp

theorem Holds.index_inj {table : Array Slot} {entries : List Slot} (holds : Holds table entries)
    (nodup : entries.Nodup) {slot : Slot} {i j : Nat} (at_i : table[i]? = some slot)
    (at_j : table[j]? = some slot) (filled : slot.isEmpty = false) : i = j := by
  have apart := (List.pairwise_filter.1 (holds.perm.nodup_iff.2 nodup) : table.toList.Pairwise _)
  rw [List.pairwise_iff_getElem] at apart
  obtain ⟨hi, eqi⟩ := Array.getElem?_eq_some_iff.1 at_i
  obtain ⟨hj, eqj⟩ := Array.getElem?_eq_some_iff.1 at_j
  have clash : ∀ {i j : Nat} (hi : i < table.size) (hj : j < table.size), table[i] = slot →
      table[j] = slot → ¬ i < j := by
    intro i j hi hj eqi eqj lt
    refine apart i j hi hj lt ?_ ?_ ?_ <;> simp [eqi, eqj, filled]
  have := clash hi hj eqi eqj
  have := clash hj hi eqj eqi
  omega

theorem holds_replicate (size : Nat) : Holds (Array.replicate size .empty) [] := by
  have vacant : ∀ index, ¬ Occupied (Array.replicate size .empty) index := by
    intro index occupied
    unfold Occupied slotAt at occupied
    rw [Array.getD_eq_getD_getElem?, Array.getElem?_replicate] at occupied
    split at occupied <;> simp at occupied
  refine ⟨?_, ?_, fun index occupied => absurd occupied (vacant index), fun h => ?_⟩
  · simp
  · intro slot member _
    exact Array.eq_of_mem_replicate member
  · have : met (Array.replicate size .empty) h = [] := by
      unfold met lap
      cases size with
      | zero => rfl
      | succ size =>
        rw [Array.size_replicate, List.range_succ_eq_map, List.map_cons, List.takeWhile_cons]
        have := vacant (probeIndex h (size + 1) 0)
        unfold Occupied at this
        simp [this]
    simp [this]

theorem Holds.exists_vacant {table : Array Slot} {entries : List Slot} (holds : Holds table entries)
    (room : entries.length < table.size) : ∃ index < table.size, ¬ Occupied table index := by
  by_contra none
  have full : ∀ index < table.size, Occupied table index := fun index lt =>
    Classical.byContradiction fun vacant => none ⟨index, lt, vacant⟩
  have all : ∀ slot ∈ table.toList, (!slot.isEmpty) = true := by
    intro slot member
    obtain ⟨index, lt, rfl⟩ := Array.mem_iff_getElem.1 (Array.mem_toList_iff.1 member)
    have := full index lt
    rw [Occupied, slotAt_eq_getElem lt] at this
    simp [this]
  have := holds.perm.length_eq
  rw [List.filter_eq_self.2 all, Array.length_toList] at this
  omega

theorem insert_eq {table : Array Slot} {index : Nat} (entry : Slot) (lt : index < table.size)
    (vacant : ¬ Occupied table index) : ∃ steps < table.size,
      (∀ j < steps, Occupied table (probeIndex entry.hash table.size j)) ∧
      ¬ Occupied table (probeIndex entry.hash table.size steps) ∧
      insert table entry = table.setIfInBounds (probeIndex entry.hash table.size steps) entry := by
  have pos : 0 < table.size := by omega
  have some : ∃ steps, ¬ Occupied table (probeIndex entry.hash table.size steps) := by
    obtain ⟨steps, _, eq⟩ := exists_probeIndex_eq entry.hash lt
    exact ⟨steps, by rwa [eq]⟩
  have first : ∀ j < Nat.find some, Occupied table (probeIndex entry.hash table.size j) :=
    fun j hj => Classical.not_not.1 (Nat.find_min some hj)
  have bound : Nat.find some < table.size := by
    obtain ⟨steps, hs, eq⟩ := exists_probeIndex_eq entry.hash lt
    exact Nat.lt_of_le_of_lt (Nat.find_min' some (by rwa [eq])) hs
  refine ⟨Nat.find some, bound, first, Nat.find_spec some, ?_⟩
  have found : firstEmpty table table.size (probeIndex entry.hash table.size 0) =
      Option.some (probeIndex entry.hash table.size (Nat.find some)) :=
    firstEmpty_eq pos (Nat.zero_le _) (by omega) (fun j hj _ => first j hj) (Nat.find_spec some)
  rw [probeIndex_zero] at found
  rw [insert, found]

theorem perm_filter_set {p : Slot → Bool} {slots : List Slot} {place : Nat} {entry : Slot}
    (lt : place < slots.length) (old : p slots[place] = false) (new : p entry = true) :
    ((slots.set place entry).filter p).Perm (slots.filter p ++ [entry]) := by
  have split : slots = slots.take place ++ slots[place] :: slots.drop (place + 1) := by simp
  have before : slots.filter p = (slots.take place).filter p ++ (slots.drop (place + 1)).filter p := by
    conv => lhs; rw [split, List.filter_append, List.filter_cons_of_neg (by simp [old])]
  rw [List.set_eq_take_append_cons_drop, if_pos lt, List.filter_append, List.filter_cons_of_pos new,
    before]
  calc
    _ = (slots.take place).filter p ++ ([entry] ++ (slots.drop (place + 1)).filter p) := rfl
    List.Perm _ ((slots.take place).filter p ++ ((slots.drop (place + 1)).filter p ++ [entry])) :=
      List.Perm.append_left _ List.perm_append_comm
    _ = _ := (List.append_assoc ..).symm

/-- Slots that a probe meets beyond an empty slot belong to other probes. -/
theorem Holds.hash_ne_of_vacant_before {table : Array Slot} {entries : List Slot}
    (holds : Holds table entries) {h : Hash} {steps later : Nat} (before : steps < later)
    (lt : later < table.size) (vacant : ¬ Occupied table (probeIndex h table.size steps))
    (occupied : Occupied table (probeIndex h table.size later)) :
    (slotAt table (probeIndex h table.size later)).hash ≠ h := by
  intro same
  obtain ⟨own, bound, eq, earlier⟩ := holds.reached _ occupied
  rw [same] at eq earlier
  have := probeIndex_inj h bound lt eq
  subst this
  exact vacant (earlier steps before)

/-- Entries with one hash keep their order along their probe when another entry is put in. -/
theorem Holds.inOrder_fill {table : Array Slot} {entries : List Slot} {entry : Slot} {steps : Nat}
    (holds : Holds table entries) (filled : entry.isEmpty = false) (lt : steps < table.size)
    (first : ∀ j < steps, Occupied table (probeIndex entry.hash table.size j))
    (vacant : ¬ Occupied table (probeIndex entry.hash table.size steps)) (h : Hash) :
    (met (table.setIfInBounds (probeIndex entry.hash table.size steps) entry) h).filter (·.hash = h) =
      (entries ++ [entry]).filter (·.hash = h) := by
  obtain ⟨own, hown, eq⟩ :=
    exists_probeIndex_eq h (probeIndex_lt entry.hash (by omega : 0 < table.size) steps)
  rw [← eq] at vacant ⊢
  have old := holds.inOrder h
  unfold met at old ⊢
  rw [lap_setIfInBounds table h entry hown, List.set_eq_take_append_cons_drop,
    if_pos (by simpa using hown), List.filter_append, ← old]
  have cut : lap table h = (lap table h).take own ++
      slotAt table (probeIndex h table.size own) :: (lap table h).drop (own + 1) := by
    rw [← getElem_lap table h (by simpa using hown)]; simp
  have stop : (slotAt table (probeIndex h table.size own)).isEmpty = true := by
    simpa [Occupied] using vacant
  by_cases all : ∀ slot ∈ (lap table h).take own, (!slot.isEmpty) = true
  · -- the probe for `h` stopped at the place that is filled, and now goes on behind it
    have later :
        (((lap table h).drop (own + 1)).takeWhile (!·.isEmpty)).filter (·.hash = h) = [] := by
      rw [List.filter_eq_nil_iff]
      intro slot member
      have passed := List.mem_takeWhile_imp member
      obtain ⟨j, hj, rfl⟩ := List.mem_drop_iff_getElem.1 ((List.takeWhile_prefix _).subset member)
      have hj : own + 1 + j < table.size := by simpa [Nat.add_comm] using hj
      rw [getElem_lap] at passed ⊢
      simpa using holds.hash_ne_of_vacant_before (by omega) hj vacant (by simpa [Occupied] using passed)
    rw [List.takeWhile_append_of_pos all, List.takeWhile_cons_of_pos (by simp [filled])]
    conv => rhs; rw [cut, List.takeWhile_append_of_pos all, List.takeWhile_cons_of_neg (by simp [stop])]
    simp [List.filter_append, List.filter_cons, later]
  · -- the probe for `h` stops earlier, so that the entry has another hash
    have other : entry.hash ≠ h := by
      intro same
      subst same
      have := probeIndex_inj entry.hash hown lt eq
      subst this
      refine all fun slot member => ?_
      obtain ⟨j, hj, rfl⟩ := List.mem_take_iff_getElem.1 member
      have hj : j < own := by simp at hj; omega
      rw [getElem_lap]
      simpa [Occupied] using first j hj
    have stops : ∀ rest, ((lap table h).take own ++ rest).takeWhile (!·.isEmpty) =
        ((lap table h).take own).takeWhile (!·.isEmpty) := by
      intro rest
      rw [List.takeWhile_append, if_neg]
      intro same
      exact all (List.takeWhile_eq_self_iff.1 ((List.takeWhile_prefix _).eq_of_length same))
    conv => rhs; rw [cut, stops]
    rw [stops, List.filter_cons_of_neg (by simpa using other)]
    simp

@[simp] theorem size_insert (table : Array Slot) (entry : Slot) :
    (insert table entry).size = table.size := by
  unfold insert
  split <;> simp

@[simp] theorem size_foldl_insert (entries : List Slot) : ∀ table : Array Slot,
    (entries.foldl insert table).size = table.size := by
  induction entries with
  | nil => exact fun _ => rfl
  | cons entry entries ih =>
    intro table
    rw [List.foldl_cons, ih, size_insert]

theorem Holds.insert {table : Array Slot} {entries : List Slot} {entry : Slot}
    (holds : Holds table entries) (room : entries.length < table.size)
    (filled : entry.isEmpty = false) : Holds (insert table entry) (entries ++ [entry]) := by
  obtain ⟨index, inside, vacant⟩ := holds.exists_vacant room
  obtain ⟨steps, lt, first, vacant, eq⟩ := insert_eq entry inside vacant
  have place := probeIndex_lt entry.hash (by omega : 0 < table.size) steps
  rw [eq]
  refine ⟨?_, ?_, ?_, holds.inOrder_fill filled lt first vacant⟩
  · rw [Array.toList_setIfInBounds]
    have old : (!table.toList[probeIndex entry.hash table.size steps].isEmpty) = false := by
      simpa [Occupied, slotAt_eq_getElem place] using vacant
    exact (perm_filter_set (by simpa using place) old (by simp [filled])).trans
      (holds.perm.append_right _)
  · intro slot member empty
    rcases Array.mem_or_eq_of_mem_setIfInBounds member with old | rfl
    · exact holds.blank slot old empty
    · rw [filled] at empty; cases empty
  · intro other occupied
    have grown : ∀ j, Occupied table j →
        Occupied (table.setIfInBounds (probeIndex entry.hash table.size steps) entry) j :=
      fun j => occupied_setIfInBounds place filled
    rw [slotAt_setIfInBounds table place]
    split
    · next here =>
      subst here
      exact ⟨steps, by simpa using lt, by simp, fun j hj => by simpa using grown _ (first j hj)⟩
    · next elsewhere =>
      rw [Occupied, slotAt_setIfInBounds table place, if_neg elsewhere] at occupied
      obtain ⟨own, bound, reached, earlier⟩ := holds.reached other occupied
      exact ⟨own, by simpa using bound, by simpa using reached,
        fun j hj => by simpa using grown _ (earlier j hj)⟩

theorem holds_foldl : ∀ (more : List Slot) {table : Array Slot} {entries : List Slot},
    Holds table entries → entries.length + more.length < table.size ∨ more = [] →
    (∀ entry ∈ more, entry.isEmpty = false) →
    Holds (more.foldl insert table) (entries ++ more)
  | [], table, entries, holds, _, _ => by simpa using holds
  | entry :: more, table, entries, holds, room, filled => by
    rcases room with room | none
    · rw [List.length_cons] at room
      have next := holds.insert (by omega) (filled entry (List.mem_cons_self ..))
      have := holds_foldl more next (.inl (by simp; omega))
        fun e member => filled e (List.mem_cons_of_mem _ member)
      simpa using this
    · cases none

/-! ## The table of a bucket -/

def tableOf (entries : List Slot) : Array Slot :=
  entries.foldl insert (Array.replicate (2 * entries.length) .empty)

theorem ofEntries_eq (scratch entries : Array Slot) : ofEntries scratch entries =
    (storedLength "hash table" (2 * entries.size)).map fun _ => tableOf entries.toList := by
  unfold ofEntries tableOf
  simp only [cleared_eq, Array.foldl_toList, Array.length_toList, Nat.mul_comm 2]
  cases storedLength "hash table" (entries.size * 2) <;> rfl

/-- A table of two slots for each entry has room for them all, and one to spare. -/
theorem room_for (entries : List Slot) : ([] : List Slot).length + entries.length <
    (Array.replicate (2 * entries.length) Slot.empty).size ∨ entries = [] := by
  rcases Nat.eq_zero_or_pos entries.length with none | some
  · exact .inr (List.eq_nil_of_length_eq_zero none)
  · left; simp; omega

theorem holds_tableOf {entries : List Slot} (filled : ∀ entry ∈ entries, entry.isEmpty = false) :
    Holds (tableOf entries) entries := by
  simpa [tableOf] using holds_foldl entries (holds_replicate _) (room_for entries) filled

theorem mem_insert {table : Array Slot} {entry slot : Slot} (member : slot ∈ insert table entry) :
    slot ∈ table ∨ slot = entry := by
  unfold insert at member
  split at member
  · exact .inl member
  · exact Array.mem_or_eq_of_mem_setIfInBounds member

theorem mem_foldl_insert {entries : List Slot} {table : Array Slot} {slot : Slot}
    (member : slot ∈ entries.foldl insert table) : slot ∈ table ∨ slot ∈ entries := by
  induction entries generalizing table with
  | nil => exact .inl member
  | cons entry entries ih =>
    rcases ih member with inserted | later
    · rcases mem_insert inserted with old | rfl
      · exact .inl old
      · exact .inr List.mem_cons_self
    · exact .inr (List.mem_cons_of_mem _ later)

theorem mem_tableOf {entries : List Slot} {slot : Slot} (member : slot ∈ tableOf entries) :
    slot = .empty ∨ slot ∈ entries :=
  (mem_foldl_insert member).imp_left fun blank => (Array.mem_replicate.1 blank).2

@[simp] theorem size_tableOf (entries : List Slot) : (tableOf entries).size = 2 * entries.length := by
  unfold tableOf
  rw [size_foldl_insert]
  simp

end ConstDb.SlotTable
