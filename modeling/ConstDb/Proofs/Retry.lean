import ConstDb.Proofs.Faults

/-!
# Calls that are repeated

Successive calls of a lookup on one cursor, some of which fail because a read has failed. Such a call
can be repeated as if it had not been made: the others find what they find when no read fails. Main
statement: `retries_lose_nothing`.
-/

namespace ConstDb

open Effect

/-! ## Turns -/

/-- One call of a lookup: what it starts from, what it answers, and what it leaves. -/
structure Turn (σ : Type) where
  before : Cursor × σ
  result : Except DbError (Option DataRef)
  after : Cursor × σ

def Turn.seen {σ : Type} (turn : Turn σ) : Except DbError (Option DataRef) × Cursor :=
  (turn.result, turn.after.1)

namespace Database

variable {σ : Type}

def turn (db : Database σ) (key : ByteArray) (state : Cursor × σ) : Turn σ :=
  ⟨state, (db.findNext key).answer state, (db.findNext key).leaves state⟩

def turns (db : Database σ) (key : ByteArray) : (calls : Nat) → Cursor × σ → List (Turn σ)
  | 0, _ => []
  | calls + 1, state => db.turn key state :: turns db key calls (db.turn key state).after

end Database

/-! ## Turns that a fault has struck -/

def usedUp (faults rest : Faults) : Faults := faults.take (faults.length - rest.length)

/-- One of the reads that the call has made has failed. -/
def Turn.struck {σ : Type} (turn : Turn (Faults × σ)) : Bool :=
  (usedUp turn.before.2.1 turn.after.2.1).any Option.isSome

theorem Quiet.usedUp {faults rest : Faults} (quiet : Quiet faults rest) :
    (usedUp faults rest).any Option.isSome = false := by
  obtain ⟨count, rfl⟩ := quiet
  simp [ConstDb.usedUp]

theorem Struck.usedUp {faults rest : Faults} {fault : IoError} (struck : Struck faults fault rest) :
    (usedUp faults rest).any Option.isSome = true := by
  obtain ⟨count, rfl⟩ := struck
  have length : (List.replicate count none ++ some fault :: rest).length - rest.length =
      (List.replicate count (none : Option IoError)).length + 1 := by
    simp
    omega
  rw [ConstDb.usedUp, length, List.take_length_add_append]
  simp

section turns
variable {σ : Type} {db : Database σ} {bytes : ByteArray} {s : σ}

/-- The call has failed with the failed read, and has left the cursor where it was. -/
structure Turn.Repeatable (turn : Turn (Faults × σ)) : Prop where
  failed : ∃ fault e, Struck turn.before.2.1 fault turn.after.2.1 ∧ Reported fault e ∧
    turn.result = .error e
  progress_eq : turn.after.1.progress = turn.before.1.progress
  visited_eq : turn.after.1.visited = turn.before.1.visited
  found_eq : turn.after.1.found = none

theorem Keeps.turn_cases (keeps : Keeps db bytes s) (key : ByteArray) (cursor : Cursor)
    (faults : Faults) (found : Option DataRef) :
    let turn := Database.turn (Source.faulty db) key (cursor, faults, s)
    let clear := db.turn key (⟨cursor.progress, found⟩, s)
    turn.after.2.2 = s ∧
      (turn.struck = false ∧ turn.seen = clear.seen ∧ clear.after.2 = s ∨
        turn.struck = true ∧ turn.Repeatable) := by
  intro turn clear
  have along : Along faults s (faults, s) s := ⟨rfl, rfl, quiet_refl faults⟩
  have stepped := (keeps.faulty_inStep faults).proceed_inStep key cursor.progress along
  rcases stepped.cases with
    ⟨⟨progress, data⟩, ⟨left, u⟩, _, t, eq, eq', rfl, same, rfl, quiet⟩ |
    ⟨e, ⟨left, u⟩, t, eq, eq', same, rfl, quiet⟩ | ⟨e, ⟨left, u⟩, eq, same, fault, struck, reported⟩
  · obtain rfl : u = t := same
    have here := Database.findNext_ok eq
    have there : db.findNext key (⟨cursor.progress, found⟩, u) = .ok data (⟨progress, data⟩, u) :=
      Database.findNext_ok eq'
    simp [turn, clear, Database.turn, answer, leaves, Turn.seen, Turn.struck, here, there, quiet.usedUp]
  · obtain rfl : u = t := same
    have here := Database.findNext_error eq
    have there : db.findNext key (⟨cursor.progress, found⟩, u) = .error e (⟨cursor.progress, none⟩, u) :=
      Database.findNext_error eq'
    simp [turn, clear, Database.turn, answer, leaves, Turn.seen, Turn.struck, here, there, quiet.usedUp]
  · obtain rfl : u = s := same
    have here := Database.findNext_error eq
    have struck' : turn.struck = true := by
      simp only [turn, Database.turn, leaves, Turn.struck, here, struck.usedUp]
    simp only [turn, Database.turn, answer, leaves, here] at struck' ⊢
    exact ⟨trivial, .inr ⟨struck', ⟨fault, e, struck, reported, rfl⟩, rfl, rfl, rfl⟩⟩

theorem Keeps.turns_kept (keeps : Keeps db bytes s) (key : ByteArray) (calls : Nat) (cursor : Cursor)
    (faults : Faults) (found : Option DataRef) :
    let turns := Database.turns (Source.faulty db) key calls (cursor, faults, s)
    (∀ turn ∈ turns, turn.struck → turn.Repeatable) ∧
    let kept := turns.filter (!·.struck)
    kept.map Turn.seen =
      (db.turns key kept.length (⟨cursor.progress, found⟩, s)).map Turn.seen := by
  -- a struck call clears the match of its cursor, so that `found` is any match: no call reads it
  induction calls generalizing cursor faults found with
  | zero => simp [Database.turns]
  | succ calls ih =>
    intro turns
    obtain ⟨same, one⟩ := keeps.turn_cases key cursor faults found
    let turn := Database.turn (Source.faulty db) key (cursor, faults, s)
    have after : turn.after = (turn.after.1, turn.after.2.1, s) := by
      rw [← same]
    have all : turns = turn :: Database.turns (Source.faulty db) key calls turn.after := rfl
    rw [after] at all
    rcases one with ⟨whole, seen, steady⟩ | ⟨struck, repeatable⟩
    · obtain ⟨first, rest⟩ := ih turn.after.1 turn.after.2.1 turn.after.1.found
      constructor
      · intro other member struck
        rw [all] at member
        rcases List.mem_cons.1 member with rfl | member
        · simp [turn, whole] at struck
        · exact first other member struck
      · have next : (db.turn key (⟨cursor.progress, found⟩, s)).after = (turn.after.1, s) :=
          Prod.ext (congrArg Prod.snd seen).symm steady
        simp only [all, List.filter_cons, turn, whole]
        simp only [Bool.not_false, if_true, List.length_cons, List.map_cons, Database.turns]
        rw [next, seen]
        exact congrArg _ rest
    · obtain ⟨first, rest⟩ := ih turn.after.1 turn.after.2.1 found
      constructor
      · intro other member struck
        rw [all] at member
        rcases List.mem_cons.1 member with rfl | member
        · exact repeatable
        · exact first other member struck
      · rw [show turn.after.1.progress = cursor.progress from repeatable.progress_eq] at rest
        simp only [all, List.filter_cons, turn, struck]
        simp only [Bool.not_true, Bool.false_eq_true, if_false]
        exact rest

/-- **A call that fails loses nothing.** Of successive calls on one cursor, the ones that a failed read
has struck leave the cursor where it was, and the others find, one after the other, what as many calls
find when no read fails. -/
theorem retries_lose_nothing (keeps : Keeps db bytes s) (key : ByteArray) (faults : Faults)
    (cursor : Cursor) (calls : Nat) :
    let turns := Database.turns (Source.faulty db) key calls (cursor, faults, s)
    (∀ turn ∈ turns, turn.struck → turn.Repeatable) ∧
    let kept := turns.filter (!·.struck)
    kept.map Turn.seen = (db.turns key kept.length (cursor, s)).map Turn.seen :=
  keeps.turns_kept key calls cursor faults cursor.found

theorem retries_lose_nothing_positioned :
    let bytes := Bytes.zeros 40 ++
      ⟨#[56, 0, 0, 0, 1, 0, 0, 0, 0, 0, 0, 0, 0, 0, 0, 0, 5, 21, 0, 0, 48, 0, 0, 0]⟩
    let db : Database Unit := Source.positioned bytes
    let faults : Faults := [none, none, some ⟨.interrupted, "interrupted"⟩]
    let turns := Database.turns (Source.faulty db) .empty 3 (.fresh, faults, ())
    turns.map Turn.struck = [true, false, false] ∧
      turns.map (·.after.1.found) = [none, some ⟨56, 0⟩, none] ∧
      (turns.filter (!·.struck)).map Turn.seen = (db.turns .empty 2 (.fresh, ())).map Turn.seen := by
  intro bytes db faults turns
  -- one record with an empty key, whose header cannot be read at first
  have struck : turns.map Turn.struck = [true, false, false] := by decide +kernel
  have found : turns.map (·.after.1.found) = [none, some ⟨56, 0⟩, none] := by decide +kernel
  have kept : (turns.filter (!·.struck)).length = 2 := by decide +kernel
  have same : (turns.filter (!·.struck)).map Turn.seen = (db.turns .empty
      (turns.filter (!·.struck)).length (.fresh, ())).map Turn.seen :=
    (retries_lose_nothing (keeps_positioned bytes ()) .empty faults .fresh 3).2
  rw [kept] at same
  exact ⟨struck, found, same⟩

end turns

end ConstDb
