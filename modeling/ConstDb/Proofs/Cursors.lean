import ConstDb.Proofs.Retry
import Mathlib.Logic.Function.Basic

/-!
# Cursors in use

Cursors may be used in any order with any readers and any keys, also with another key than the one they
began with, and may be reset and cloned in between. The first call after a reset chooses a table, and every
match stands behind a slot of that table that no earlier match stands behind. Main statement:
`cursors_sound`.
-/

namespace ConstDb

open Effect

/-! ## Probes behind a match -/

/-- A probe that has seen some slots of its table, perhaps all, and stands at the slot that comes next from
the one where its hash points. -/
structure Probe.InPlace (probe : Probe) : Prop where
  slots_pos : 1 ≤ probe.slots
  visited_pos : 1 ≤ probe.visited
  visited_le : probe.visited ≤ probe.slots
  next_eq : probe.next =
    probe.table + Pair.size * (((probe.hash >>> 8).toNat + probe.visited) % probe.slots)
  at_slot : ∃ index < probe.slots, probe.next = probe.table + Pair.size * index

theorem Probe.inPlace_after (hash : Hash) {table : TableRef} {visited : Nat} (seen : 1 ≤ visited)
    (le : visited ≤ table.slots.toNat) : (Probe.after hash table visited).InPlace where
  slots_pos := seen.trans le
  visited_pos := seen
  visited_le := le
  next_eq := rfl
  at_slot := ⟨_, SlotTable.probeIndex_lt hash (seen.trans le) visited, rfl⟩

/-- Nothing is left to look at. -/
def Cursor.Spent (cursor : Cursor) : Prop :=
  match cursor.progress with
  | .fresh => False
  | .probing probe => probe.visited = probe.slots
  | .done => True

namespace Database

variable {σ : Type} {db : Database σ} {key : ByteArray} {s t : σ}

theorem proceed_spent {cursor : Cursor} (spent : cursor.Spent) (db : Database σ) (key : ByteArray) (s : σ) :
    db.proceed key cursor.progress s = .ok (.done, none) s := by
  unfold Cursor.Spent at spent
  cases eq : cursor.progress with
  | fresh => simp only [eq] at spent
  | done => rfl
  | probing probe =>
    simp only [eq] at spent
    have nothing : probe.remaining = 0 := by
      unfold Probe.remaining
      omega
    rw [proceed, resume, nothing]
    rfl

theorem findNext_spent {cursor : Cursor} (spent : cursor.Spent) (db : Database σ) (key : ByteArray)
    (s : σ) : db.findNext key (cursor, s) = .ok none (⟨.done, none⟩, s) :=
  findNext_ok (proceed_spent spent db key s)

/-! ## One call -/

section search
variable {hash : Hash} {table : TableRef} {visited : Nat}

theorem search_further (nonempty : 0 < table.slots.toNat) {probe : Probe} {data : DataRef} {count : Nat}
    (eq : db.search key count (.after hash table visited) s = .ok (some (probe, data)) t) :
    ∃ later, visited < later ∧ later ≤ visited + count ∧ probe = .after hash table later := by
  induction count generalizing visited s with
  | zero => cases eq
  | succ count ih =>
    have on : ∀ {u}, db.search key count (Probe.after hash table visited).step u =
        .ok (some (probe, data)) t →
        ∃ later, visited < later ∧ later ≤ visited + (count + 1) ∧ probe = .after hash table later := by
      intro u eq
      rw [Probe.step_after hash nonempty] at eq
      obtain ⟨later, lt, le, here⟩ := ih eq
      exact ⟨later, by omega, by omega, here⟩
    rw [search_succ] at eq
    cases looked : db.examine key (Probe.after hash table visited).hash
        (Probe.after hash table visited).next s with
    | error e u =>
      rw [looked] at eq
      cases eq
    | ok verdict u =>
      rw [looked] at eq
      cases verdict with
      | vacant => cases eq
      | matched found =>
        cases eq
        exact ⟨visited + 1, Nat.lt_succ_self visited, by omega, Probe.step_after hash nonempty visited⟩
      | passed => exact on eq
      | cut => exact on eq

/-- What a call leaves of a lookup that has seen so many slots of a table. -/
inductive Further (hash : Hash) (table : TableRef) (visited : Nat) : Progress × Option DataRef → Prop
  | ended : Further hash table visited (.done, none)
  | found (later : Nat) (data : DataRef) (lt : visited < later) (le : later ≤ table.slots.toNat) :
    Further hash table visited (.probing (.after hash table later), some data)

theorem resume_further (nonempty : 0 < table.slots.toNat) (le : visited ≤ table.slots.toNat)
    {found : Progress × Option DataRef}
    (eq : db.resume key (.after hash table visited) s = .ok found t) : Further hash table visited found := by
  rw [resume, bind_eq_ok_iff] at eq
  obtain ⟨outcome, u, searched, eq⟩ := eq
  cases outcome with
  | none =>
    cases eq
    exact .ended
  | some outcome =>
    obtain ⟨probe, data⟩ := outcome
    cases eq
    obtain ⟨later, lt, le', rfl⟩ := search_further nonempty searched
    have left : (Probe.after hash table visited).remaining = table.slots.toNat - visited := rfl
    rw [left] at le'
    exact .found later data lt (by omega)

end search

end Database

/-! ## Calls on one cursor -/

namespace Turn

variable {σ : Type}

def match? (turn : Turn σ) : Option DataRef :=
  match turn.result with
  | .ok found => found
  | .error _ => none

def matched (turn : Turn σ) : Bool := turn.match?.isSome

theorem match?_eq_some_iff {turn : Turn σ} {data : DataRef} :
    turn.match? = some data ↔ turn.result = .ok (some data) := by
  unfold match?
  cases turn.result with
  | ok found => simp
  | error e => simp

theorem filter_of_missed {turn : Turn σ} (missed : turn.match? = none) : [turn].filter matched = [] := by
  rw [List.filter_singleton, matched, missed]
  rfl

end Turn

/-- A cursor with the calls made on it since it was reset. A clone has those of its original as well. -/
structure Tracked (σ : Type) where
  cursor : Cursor
  turns : List (Turn σ)

namespace Tracked

variable {σ : Type}

def fresh : Tracked σ := ⟨.fresh, []⟩

def append (tracked : Tracked σ) (turn : Turn σ) : Tracked σ := ⟨turn.after.1, tracked.turns ++ [turn]⟩

def hits (tracked : Tracked σ) : List (Turn σ) := tracked.turns.filter Turn.matched

end Tracked

section trail
variable {σ : Type} {db : Database σ} {key : ByteArray} {s t : σ} {hash : Hash} {table : TableRef}
variable {visited : Nat} {found : List (Turn σ)} {progress : Progress}

/-- The matches of a lookup that has seen so many slots, each behind a slot of its own. -/
structure Trail (hash : Hash) (table : TableRef) (visited : Nat) (found : List (Turn σ)) : Prop where
  behind : ∀ turn ∈ found, ∃ later, 1 ≤ later ∧ later ≤ visited ∧
    turn.after.1.progress = .probing (.after hash table later)
  rising : found.Pairwise fun first second => first.after.1.visited < second.after.1.visited

theorem trail_nil (hash : Hash) (table : TableRef) (visited : Nat) :
    Trail hash table visited ([] : List (Turn σ)) :=
  ⟨fun _ member => absurd member List.not_mem_nil, .nil⟩

theorem Trail.visited_mem (trail : Trail hash table visited found) {turn : Turn σ} (member : turn ∈ found) :
    1 ≤ turn.after.1.visited ∧ turn.after.1.visited ≤ visited := by
  obtain ⟨later, pos, le, here⟩ := trail.behind turn member
  have same : turn.after.1.visited = later := by
    rw [Cursor.visited, here]
    rfl
  rw [same]
  exact ⟨pos, le⟩

theorem Trail.concat (trail : Trail hash table visited found) {turn : Turn σ} {later : Nat}
    (lt : visited < later) (here : turn.after.1.progress = .probing (.after hash table later)) :
    Trail hash table later (found ++ [turn]) := by
  constructor
  · intro other member
    rcases List.mem_append.1 member with before | last
    · obtain ⟨place, pos, le, at_place⟩ := trail.behind other before
      exact ⟨place, pos, by omega, at_place⟩
    · obtain rfl := List.mem_singleton.1 last
      exact ⟨later, by omega, Nat.le_refl later, here⟩
  · refine List.pairwise_append.2 ⟨trail.rising, List.pairwise_singleton .., ?_⟩
    intro first before second last
    obtain rfl := List.mem_singleton.1 last
    have at_last : second.after.1.visited = later := by
      rw [Cursor.visited, here]
      rfl
    rw [at_last]
    exact Nat.lt_of_le_of_lt (trail.visited_mem before).2 lt

theorem Trail.length_le (trail : Trail hash table visited found) : found.length ≤ visited := by
  let places := found.map fun turn => turn.after.1.visited
  have nodup : places.Nodup := by
    refine List.pairwise_map.2 (trail.rising.imp ?_)
    exact fun lt => Nat.ne_of_lt lt
  have inside : places ⊆ List.range' 1 visited := by
    intro place member
    obtain ⟨turn, hit, rfl⟩ := List.mem_map.1 member
    have bounds := trail.visited_mem hit
    rw [List.mem_range'_1]
    omega
  have le := (List.subperm_of_subset nodup inside).length_le
  rwa [List.length_map, List.length_range'] at le

/-- A lookup that has not begun, that stands behind a match, or that has ended. -/
inductive Stands (hash : Hash) (table : TableRef) : Progress → (visited : Nat) → Prop
  | fresh : Stands hash table .fresh 0
  | probing {visited : Nat} (seen : 1 ≤ visited) (le : visited ≤ table.slots.toNat) :
    Stands hash table (.probing (.after hash table visited)) visited
  | done {visited : Nat} (le : visited ≤ table.slots.toNat) : Stands hash table .done visited

theorem Stands.visited_le (stands : Stands hash table progress visited) : visited ≤ table.slots.toNat := by
  cases stands with
  | fresh => exact Nat.zero_le _
  | probing _ le => exact le
  | done le => exact le

/-- The first call chooses the table, and later ones go on in it. -/
theorem Stands.proceed (stands : Stands hash table progress visited) (trail : Trail hash table visited found)
    {outcome : Progress × Option DataRef} (eq : db.proceed key progress s = .ok outcome t) :
    ∃ hash table, visited ≤ table.slots.toNat ∧ Trail hash table visited found ∧
      Database.Further hash table visited outcome := by
  cases stands with
  | probing seen le =>
    exact ⟨hash, table, le, trail, Database.resume_further (seen.trans le) le eq⟩
  | done le =>
    cases eq
    exact ⟨hash, table, le, trail, .ended⟩
  | fresh =>
    have none : found = [] := List.eq_nil_of_length_eq_zero (Nat.le_zero.1 trail.length_le)
    rw [none]
    rw [Database.proceed, bind_eq_ok_iff] at eq
    obtain ⟨entry, u, -, eq⟩ := eq
    refine ⟨Hash.ofKey key, entry, Nat.zero_le _, trail_nil .., ?_⟩
    split at eq
    · cases eq
      exact .ended
    · next some =>
      rw [Probe.enter_eq] at eq
      refine Database.resume_further (Nat.pos_of_ne_zero fun zero => some ?_) (Nat.zero_le _) eq
      rw [← UInt32.toNat_inj, zero, UInt32.toNat_zero]

/-- What calls keep of a cursor. -/
structure Tracked.Kept (hash : Hash) (table : TableRef) (visited : Nat) (tracked : Tracked σ) : Prop where
  stands : Stands hash table tracked.cursor.progress visited
  trail : Trail hash table visited tracked.hits
  found_eq : tracked.cursor.found = tracked.turns.getLast?.bind Turn.match?
  spent : ∀ turn ∈ tracked.turns, turn.after.1.Spent → tracked.cursor.Spent
  stays_spent : tracked.turns.Pairwise fun first second =>
    first.after.1.Spent → second.result = .ok none ∧ second.after.2 = second.before.2

theorem Tracked.kept_fresh (hash : Hash) (table : TableRef) : (fresh : Tracked σ).Kept hash table 0 where
  stands := .fresh
  trail := trail_nil ..
  found_eq := rfl
  spent _ member := absurd member List.not_mem_nil
  stays_spent := .nil

/-- What a call of `findNext` on a cursor was. -/
structure Turn.Of (turn : Turn σ) (db : Database σ) (key : ByteArray) (cursor : Cursor) : Prop where
  result_eq : turn.result = (db.findNext key).answer (cursor, turn.before.2)
  after_eq : turn.after = (db.findNext key).leaves (cursor, turn.before.2)

/-- What a call of `find` was. -/
def Database.findTurn (db : Database σ) (key : ByteArray) (state : Cursor × σ) : Turn σ :=
  ⟨state, (db.find key).answer state, (db.find key).leaves state⟩

theorem Database.turn_of (db : Database σ) (key : ByteArray) (state : Cursor × σ) :
    (db.turn key state).Of db key state.1 := ⟨rfl, rfl⟩

theorem Database.findTurn_of (db : Database σ) (key : ByteArray) (state : Cursor × σ) :
    (db.findTurn key state).Of db key .fresh := ⟨rfl, rfl⟩

theorem Turn.Of.of_ok {turn : Turn σ} {cursor : Cursor} (of : turn.Of db key cursor)
    {progress : Progress} {found : Option DataRef}
    (eq : db.proceed key cursor.progress turn.before.2 = .ok (progress, found) t) :
    turn.result = .ok found ∧ turn.after = (⟨progress, found⟩, t) := by
  have called := Database.findNext_ok eq
  rw [of.result_eq, of.after_eq, answer, leaves, called]
  exact ⟨rfl, rfl⟩

theorem Turn.Of.of_error {turn : Turn σ} {cursor : Cursor} (of : turn.Of db key cursor) {e : DbError}
    (eq : db.proceed key cursor.progress turn.before.2 = .error e t) :
    turn.result = .error e ∧ turn.after = (⟨cursor.progress, none⟩, t) := by
  have called := Database.findNext_error eq
  rw [of.result_eq, of.after_eq, answer, leaves, called]
  exact ⟨rfl, rfl⟩

theorem Turn.Of.spent {turn : Turn σ} {cursor : Cursor} (of : turn.Of db key cursor) (spent : cursor.Spent) :
    turn.result = .ok none ∧ turn.after = (⟨.done, none⟩, turn.before.2) :=
  of.of_ok (Database.proceed_spent spent db key turn.before.2)

theorem Tracked.hits_append (tracked : Tracked σ) (turn : Turn σ) :
    (tracked.append turn).hits = tracked.hits ++ [turn].filter Turn.matched :=
  List.filter_append ..

theorem Tracked.Kept.append {tracked : Tracked σ} (kept : tracked.Kept hash table visited) {turn : Turn σ}
    (of : turn.Of db key tracked.cursor) :
    ∃ hash table visited, (tracked.append turn).Kept hash table visited := by
  have last : ∀ other ∈ (tracked.append turn).turns, other ∈ tracked.turns ∨ other = turn := by
    intro other member
    exact (List.mem_append.1 member).imp_right List.mem_singleton.1
  have spent : ∀ other ∈ (tracked.append turn).turns, other.after.1.Spent → turn.after.1.Spent := by
    intro other member behind
    rcases last other member with before | rfl
    · rw [(of.spent (kept.spent other before behind)).2]
      trivial
    · exact behind
  have stays_spent : (tracked.append turn).turns.Pairwise fun first second =>
      first.after.1.Spent → second.result = .ok none ∧ second.after.2 = second.before.2 := by
    refine List.pairwise_append.2 ⟨kept.stays_spent, List.pairwise_singleton .., ?_⟩
    intro first before second at_end behind
    obtain rfl := List.mem_singleton.1 at_end
    obtain ⟨result, after⟩ := of.spent (kept.spent first before behind)
    exact ⟨result, by rw [after]⟩
  have found_eq : ∀ {found : Option DataRef}, turn.after.1.found = found → turn.match? = found →
      (tracked.append turn).cursor.found = (tracked.append turn).turns.getLast?.bind Turn.match? := by
    intro found here there
    have at_end : (tracked.append turn).turns.getLast? = some turn := List.getLast?_concat
    rw [at_end, Option.bind_some, there]
    exact here
  cases eq : db.proceed key tracked.cursor.progress turn.before.2 with
  | error e t =>
    obtain ⟨result, after⟩ := of.of_error eq
    have missed : turn.match? = none := by rw [Turn.match?, result]
    have stands : Stands hash table (tracked.append turn).cursor.progress visited := by
      rw [Tracked.append, after]
      exact kept.stands
    refine ⟨hash, table, visited, stands, ?_, found_eq (by rw [after]) missed, spent, stays_spent⟩
    rw [tracked.hits_append, turn.filter_of_missed missed, List.append_nil]
    exact kept.trail
  | ok outcome t =>
    obtain ⟨hash, table, le, trail, further⟩ := kept.stands.proceed kept.trail eq
    cases further with
    | ended =>
      obtain ⟨result, after⟩ := of.of_ok eq
      have missed : turn.match? = none := by rw [Turn.match?, result]
      have stands : Stands hash table (tracked.append turn).cursor.progress visited := by
        rw [Tracked.append, after]
        exact .done le
      refine ⟨hash, table, visited, stands, ?_, found_eq (by rw [after]) missed, spent, stays_spent⟩
      rw [tracked.hits_append, turn.filter_of_missed missed, List.append_nil]
      exact trail
    | found later data lt le' =>
      obtain ⟨result, after⟩ := of.of_ok eq
      have hit : turn.match? = some data := Turn.match?_eq_some_iff.2 result
      have here : turn.after.1.progress = .probing (.after hash table later) := by rw [after]
      have stands : Stands hash table (tracked.append turn).cursor.progress later := by
        rw [Tracked.append, here]
        exact .probing (Nat.one_le_of_lt lt) le'
      refine ⟨hash, table, later, stands, ?_, found_eq (by rw [after]) hit, spent, stays_spent⟩
      have matched : turn.matched = true := by rw [Turn.matched, hit]; rfl
      rw [tracked.hits_append, List.filter_singleton, matched]
      exact trail.concat lt here

end trail

/-! ## All cursors in use -/

/-- Cursors in use, each with its number, and the state of the sources behind the readers. -/
structure Desk (σ : Type) where
  tracked : Nat → Tracked σ
  sources : σ

inductive Use (σ : Type) where
  | find (cursor : Nat) (db : Database σ) (key : ByteArray)
  | findNext (cursor : Nat) (db : Database σ) (key : ByteArray)
  | reset (cursor : Nat)
  | clone (original copy : Nat)

namespace Desk

variable {σ : Type}

def fresh (s : σ) : Desk σ := ⟨fun _ => .fresh, s⟩

def put (desk : Desk σ) (cursor : Nat) (tracked : Tracked σ) (sources : σ) : Desk σ :=
  ⟨Function.update desk.tracked cursor tracked, sources⟩

/-- One use of a cursor. `find` resets the cursor that it is given. -/
def apply (desk : Desk σ) : Use σ → Desk σ
  | .find cursor db key =>
    let turn := db.findTurn key ((desk.tracked cursor).cursor, desk.sources)
    desk.put cursor (Tracked.fresh.append turn) turn.after.2
  | .findNext cursor db key =>
    let turn := db.turn key ((desk.tracked cursor).cursor, desk.sources)
    desk.put cursor ((desk.tracked cursor).append turn) turn.after.2
  | .reset cursor => desk.put cursor .fresh desk.sources
  | .clone original copy => desk.put copy (desk.tracked original) desk.sources

def run (desk : Desk σ) (uses : List (Use σ)) : Desk σ := uses.foldl apply desk

def Kept (desk : Desk σ) : Prop :=
  ∀ cursor, ∃ hash table visited, (desk.tracked cursor).Kept hash table visited

theorem Kept.put {desk : Desk σ} (kept : desk.Kept) {tracked : Tracked σ}
    (one : ∃ hash table visited, tracked.Kept hash table visited) (cursor : Nat) (s : σ) :
    (desk.put cursor tracked s).Kept := by
  intro other
  by_cases same : other = cursor
  · simpa only [same, Desk.put, Function.update_self] using one
  · simpa only [Desk.put, Function.update_of_ne same] using kept other

theorem Kept.apply {desk : Desk σ} (kept : desk.Kept) (use : Use σ) : (desk.apply use).Kept := by
  cases use with
  | find cursor db key =>
    have began : (Tracked.fresh : Tracked σ).Kept 0 ⟨0, 0⟩ 0 := Tracked.kept_fresh ..
    exact kept.put (began.append (db.findTurn_of key _)) cursor _
  | findNext cursor db key =>
    obtain ⟨hash, table, visited, before⟩ := kept cursor
    exact kept.put (before.append (db.turn_of key _)) cursor _
  | reset cursor => exact kept.put ⟨0, ⟨0, 0⟩, 0, Tracked.kept_fresh ..⟩ cursor _
  | clone original copy => exact kept.put (kept original) copy _

theorem Kept.run {desk : Desk σ} (kept : desk.Kept) (uses : List (Use σ)) : (desk.run uses).Kept := by
  induction uses generalizing desk with
  | nil => exact kept
  | cons use uses ih => exact ih (kept.apply use)

end Desk

/-! ## Main statement -/

section sound
variable {σ : Type}

/-- What holds of a cursor in use: where it stands, that it shows the match of the last call, that every
match stands behind later slots than the one before, and that a cursor with no slot left to look at finds
nothing more, whatever it is used for, and reads nothing. -/
structure Tracked.Sound (tracked : Tracked σ) : Prop where
  in_place : ∀ probe, tracked.cursor.progress = .probing probe → probe.InPlace
  found_iff : ∀ data, tracked.cursor.found = some data ↔
    ∃ turn, tracked.turns.getLast? = some turn ∧ turn.result = .ok (some data)
  rising : tracked.hits.Pairwise fun first second => first.after.1.visited < second.after.1.visited
  hits_le : ∃ slots, tracked.hits.length ≤ slots ∧
    (∀ turn ∈ tracked.hits, ∃ probe, turn.after.1.progress = .probing probe ∧ probe.slots = slots) ∧
    ∀ probe, tracked.cursor.progress = .probing probe → probe.slots = slots
  spent : tracked.cursor.Spent → ∀ {τ : Type} (db : Database τ) (key : ByteArray) (s : τ),
    db.findNext key (tracked.cursor, s) = .ok none (⟨.done, none⟩, s)
  stays_spent : tracked.turns.Pairwise fun first second =>
    first.after.1.Spent → second.result = .ok none ∧ second.after.2 = second.before.2

theorem Tracked.Kept.sound {hash : Hash} {table : TableRef} {visited : Nat} {tracked : Tracked σ}
    (kept : tracked.Kept hash table visited) : tracked.Sound where
  in_place probe here := by
    have stands := kept.stands
    rw [here] at stands
    cases stands with
    | probing seen le => exact Probe.inPlace_after hash seen le
  found_iff data := by
    rw [kept.found_eq, Option.bind_eq_some_iff]
    simp only [Turn.match?_eq_some_iff]
  rising := kept.trail.rising
  hits_le := by
    refine ⟨table.slots.toNat, kept.trail.length_le.trans kept.stands.visited_le, ?_, ?_⟩
    · intro turn member
      obtain ⟨later, -, -, here⟩ := kept.trail.behind turn member
      exact ⟨_, here, rfl⟩
    · intro probe here
      have stands := kept.stands
      rw [here] at stands
      cases stands with
      | probing => rfl
  spent spent _ := Database.findNext_spent spent
  stays_spent := kept.stays_spent

/-- **Cursors.** Whatever is done with cursors that are fresh at first, each of them is sound. -/
theorem cursors_sound (uses : List (Use σ)) (s : σ) (cursor : Nat) :
    (((Desk.fresh s).run uses).tracked cursor).Sound := by
  have fresh : (Desk.fresh s).Kept := fun _ => ⟨0, ⟨0, 0⟩, 0, Tracked.kept_fresh ..⟩
  obtain ⟨hash, table, visited, kept⟩ := fresh.run uses cursor
  exact kept.sound

end sound

end ConstDb
