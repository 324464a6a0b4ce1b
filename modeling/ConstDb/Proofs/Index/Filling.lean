import ConstDb.Proofs.Index.SlotTable

/-!
# Filling a slot table

The search for an empty slot has no counter. `Stops` is a finite run of it, with every index that it looks at
inside the table, and `Fills` is the run of the loop over the entries. Half of the slots stay empty, so that
each search stops (`Holds.stops`), and the loop fills the table (`fills_foldl`). Main statement:
`filled_by_probing`.
-/

namespace ConstDb.SlotTable

/-- The search for an empty slot goes from the first index to the second. -/
inductive Stops (table : Array Slot) : Nat → Nat → Prop
  | here {index : Nat} (inside : index < table.size) (vacant : ¬ Occupied table index) :
      Stops table index index
  | further {index last : Nat} (inside : index < table.size) (occupied : Occupied table index)
      (onward : Stops table (successor table.size index) last) : Stops table index last

/-- Putting in the entries one after the other makes the second table from the first. -/
inductive Fills : Array Slot → List Slot → Array Slot → Prop
  | done {table : Array Slot} : Fills table [] table
  | put {table final : Array Slot} {entry : Slot} {more : List Slot} {index : Nat}
      (stops : Stops table (entry.hash.probeStart table.size) index)
      (onward : Fills (table.setIfInBounds index entry) more final) : Fills table (entry :: more) final

/-! ## One outcome -/

theorem Stops.unique {table : Array Slot} {index last other : Nat} (stops : Stops table index last)
    (again : Stops table index other) : last = other := by
  induction stops with
  | here _ vacant =>
    cases again with
    | here => rfl
    | further _ occupied => exact absurd occupied vacant
  | further _ occupied _ ih =>
    cases again with
    | here _ vacant => exact absurd occupied vacant
    | further _ _ onward => exact ih onward

theorem Fills.unique {table final other : Array Slot} {entries : List Slot}
    (fills : Fills table entries final) (again : Fills table entries other) : final = other := by
  induction fills with
  | done => cases again; rfl
  | put stops _ ih =>
    cases again with
    | put stops' onward =>
      rw [stops'.unique stops] at onward
      exact ih onward

/-! ## The search stops -/

theorem stops_probeIndex {table : Array Slot} {h : Hash} {steps : Nat} (pos : 0 < table.size)
    (first : ∀ j < steps, Occupied table (probeIndex h table.size j))
    (vacant : ¬ Occupied table (probeIndex h table.size steps)) :
    Stops table (h.probeStart table.size) (probeIndex h table.size steps) := by
  -- backwards from the empty slot
  have from_end : ∀ back ≤ steps,
      Stops table (probeIndex h table.size (steps - back)) (probeIndex h table.size steps) := by
    intro back
    induction back with
    | zero => exact fun _ => .here (probeIndex_lt h pos steps) vacant
    | succ back ih =>
      intro le
      apply Stops.further (probeIndex_lt h pos _) (first _ (by omega))
      rw [successor_probeIndex h pos, show steps - (back + 1) + 1 = steps - back by omega]
      exact ih (by omega)
  have := from_end steps (Nat.le_refl _)
  rwa [Nat.sub_self, probeIndex_zero] at this

/-- As there is an empty slot, the search stops, at the slot that the entry is put into. -/
theorem Holds.stops {table : Array Slot} {entries : List Slot} (holds : Holds table entries)
    (room : entries.length < table.size) (entry : Slot) :
    ∃ index, Stops table (entry.hash.probeStart table.size) index ∧
      SlotTable.insert table entry = table.setIfInBounds index entry := by
  obtain ⟨index, inside, vacant⟩ := holds.exists_vacant room
  obtain ⟨steps, lt, first, vacant, eq⟩ := insert_eq entry inside vacant
  exact ⟨_, stops_probeIndex (by omega) first vacant, eq⟩

theorem fills_foldl : ∀ (more : List Slot) {table : Array Slot} {entries : List Slot},
    Holds table entries → entries.length + more.length < table.size ∨ more = [] →
    (∀ entry ∈ more, entry.isEmpty = false) → Fills table more (more.foldl insert table)
  | [], _, _, _, _, _ => .done
  | entry :: more, table, entries, holds, room, filled => by
    rcases room with room | none
    · rw [List.length_cons] at room
      obtain ⟨index, stops, eq⟩ := holds.stops (by omega) entry
      have next := holds.insert (by omega) (filled entry (List.mem_cons_self ..))
      have onward := fills_foldl more next (.inl (by simp; omega))
        fun e member => filled e (List.mem_cons_of_mem _ member)
      rw [eq] at onward
      rw [List.foldl_cons, eq]
      exact .put stops onward
    · cases none

/-! ## The table -/

theorem fills_tableOf {entries : List Slot} (filled : ∀ entry ∈ entries, entry.isEmpty = false) :
    Fills (Array.replicate (2 * entries.length) .empty) entries (tableOf entries) :=
  fills_foldl entries (holds_replicate _) (room_for entries) filled

/-- **Linear probing fills the table.** Whatever `scratch` held, the loop ends, with a table of two slots for
each entry: the occupied slots are the entries, the others are zero, each entry is reached from the start of
its own probe over occupied slots only, and a probe meets the entries with one hash in their order. -/
theorem filled_by_probing (scratch entries : Array Slot) (filled : ∀ entry ∈ entries, entry.position ≠ 0)
    (fits : 2 * entries.size < 2 ^ 32) :
    ∃ table, ofEntries scratch entries = .ok table ∧
      Fills (Array.replicate (2 * entries.size) .empty) entries.toList table ∧
      (∀ other, Fills (Array.replicate (2 * entries.size) .empty) entries.toList other → other = table) ∧
      table.size = 2 * entries.size ∧
      (table.toList.filter (·.position ≠ 0)).Perm entries.toList ∧
      (∀ slot ∈ table, slot.position = 0 → slot = .empty) ∧
      (∀ (index : Nat) (inside : index < table.size), table[index].position ≠ 0 →
        ∃ steps, Reaches table table[index].hash steps index) ∧
      ∀ h, (met table h).filter (·.hash = h) = entries.toList.filter (·.hash = h) := by
  have filled : ∀ entry ∈ entries.toList, entry.isEmpty = false := by
    intro entry member
    simpa [Slot.isEmpty] using filled entry (Array.mem_toList_iff.1 member)
  have holds := holds_tableOf filled
  have fills := fills_tableOf filled
  rw [Array.length_toList] at fills
  refine ⟨tableOf entries.toList, ?_, fills, fun other again => again.unique fills, by simp, ?_, ?_, ?_,
    holds.inOrder⟩
  · rw [ofEntries_eq, storedLength_of_le (by unfold Position.limit; omega)]
    rfl
  · have same : (fun slot : Slot => decide (slot.position ≠ 0)) = (!·.isEmpty) := by
      funext slot
      simp [Slot.isEmpty]
    rw [same]
    exact holds.perm
  · intro slot member zero
    exact holds.blank slot member (by simp [Slot.isEmpty, zero])
  · intro index inside position
    have occupied : Occupied (tableOf entries.toList) index := by
      simpa [Occupied, slotAt_eq_getElem inside, Slot.isEmpty] using position
    rw [← slotAt_eq_getElem inside]
    exact holds.reached index occupied

/-- Two entries with one hash whose probe starts at the last slot, and one whose probe runs into theirs. -/
theorem filled_by_probing_round_the_end :
    ofEntries #[⟨9, 9⟩] #[⟨0x500, 2048⟩, ⟨0x600, 2060⟩, ⟨0x500, 2072⟩] =
      .ok #[⟨0x600, 2060⟩, ⟨0x500, 2072⟩, .empty, .empty, .empty, ⟨0x500, 2048⟩] ∧
    ∃ table, ofEntries #[⟨9, 9⟩] #[⟨0x500, 2048⟩, ⟨0x600, 2060⟩, ⟨0x500, 2072⟩] = .ok table ∧
      Fills (Array.replicate 6 .empty) [⟨0x500, 2048⟩, ⟨0x600, 2060⟩, ⟨0x500, 2072⟩] table ∧
      (met table 0x500).filter (·.hash = 0x500) = [⟨0x500, 2048⟩, ⟨0x500, 2072⟩] := by
  obtain ⟨table, made, fills, -, -, -, -, -, inOrder⟩ :=
    filled_by_probing #[⟨9, 9⟩] #[⟨0x500, 2048⟩, ⟨0x600, 2060⟩, ⟨0x500, 2072⟩] (by decide) (by decide)
  exact ⟨by rfl, table, made, fills, inOrder 0x500⟩

end ConstDb.SlotTable
