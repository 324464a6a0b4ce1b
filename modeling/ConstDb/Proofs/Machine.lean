import ConstDb.Database.Lookup
import ConstDb.Database.Records
import ConstDb.Database.Values
import ConstDb.Proofs.Effect
import Mathlib.Algebra.Group.Nat.Defs

/-!
# Reading in machine words

The reader again, in words of 32 and 64 bits, with slices and buffers. What must not happen is a trap: a
sum or a product that does not fit into its word, a remainder by zero, a slice that runs past its bytes,
a buffer longer than the source, a read past the end of the source. `Tracks` says that an action of this
reader does what the action of the other one does, so that it does not trap.
-/

namespace ConstDb

open Effect

inductive Trap where
  | overflow
  | remainderByZero
  | slice
  | allocation
  | read
  deriving DecidableEq, Repr

/-- How an action ends that does not succeed. -/
inductive Stop where
  | trap (trap : Trap)
  | failure (e : DbError)
  deriving DecidableEq, Repr

namespace Machine

variable {σ : Type}

/-! ## Words, slices and buffers -/

def ensure (holds : Prop) [Decidable holds] (trap : Trap) : Effect Stop σ Unit :=
  if holds then pure () else throw (.trap trap)

def add (bits first second : Nat) : Effect Stop σ Nat := do
  ensure (first + second < 2 ^ bits) .overflow
  return first + second

def mul (bits first second : Nat) : Effect Stop σ Nat := do
  ensure (first * second < 2 ^ bits) .overflow
  return first * second

def rem (first second : Nat) : Effect Stop σ Nat := do
  ensure (second ≠ 0) .remainderByZero
  return first % second

def slice (bytes : ByteArray) (start stop : Nat) : Effect Stop σ ByteArray := do
  ensure (start ≤ stop ∧ stop ≤ bytes.size) .slice
  return bytes.extract start stop

/-! ## Reading bytes -/

def checkRange (db : Database σ) (position length : Nat) : Effect Stop σ Unit :=
  -- an end that does not fit into a word is past the end of any source
  if position + length < 2 ^ 64 ∧ position + length ≤ db.size then pure ()
  else throw (.failure (.truncated (.readPastEnd length position db.size)))

def ask (db : Database σ) (position length : Nat) : Effect Stop σ ByteArray := do
  ensure (position + length ≤ db.size) .read
  (db.read position length).adaptExcept fun e => .failure (Database.readError position e)

/-- Reads into a buffer that is there already. -/
def readInto (db : Database σ) (position length : Nat) : Effect Stop σ ByteArray := do
  checkRange db position length
  ask db position length

def allocate (db : Database σ) (length : Nat) : Effect Stop σ Unit :=
  ensure (length ≤ db.size) .allocation

def readAt (db : Database σ) (position length : Nat) : Effect Stop σ ByteArray := do
  checkRange db position length
  allocate db length
  readInto db position length

def table (db : Database σ) (bucket : Bucket) : Effect Stop σ TableRef := do
  let position ← mul 32 bucket.val Pair.size
  return TableRef.decode (← readInto db position Pair.size)

def piecesMatch (db : Database σ) : List ByteArray → (position : Nat) → Effect Stop σ Bool
  | [], _ => pure true
  | piece :: pieces, position => do
    -- one buffer serves all pieces
    ensure (piece.size ≤ Database.compareLength) .slice
    let found ← readInto db position piece.size
    if found = piece then do
      let position ← add 64 position piece.size
      piecesMatch db pieces position
    else pure false

def keyMatches (db : Database σ) (key : ByteArray) (position : Nat) : Effect Stop σ Bool := do
  match db.mapped (← get) with
  | some bytes => do
    let stop ← add 64 position key.size
    if stop ≤ bytes.size then do
      let found ← slice bytes position stop
      return found = key
    else throw (.failure (.truncated (.keyPastEnd position)))
  | none => piecesMatch db (Bytes.chunks Database.compareLength key) position

/-! ## Lookups -/

def enter (hash : Hash) (table : TableRef) : Effect Stop σ Probe := do
  let start ← rem (hash >>> 8).toNat table.slots.toNat
  let behind ← mul 64 start Pair.size
  let next ← add 64 table.offset.toNat behind
  return ⟨hash, table.offset.toNat, table.slots.toNat, next, 0⟩

def matchRecord (db : Database σ) (key : ByteArray) (position : Nat) :
    Effect Stop σ (Option DataRef) := do
  let (keyLength, dataLength) := Pair.decode (← readInto db position Pair.size)
  if keyLength.toNat ≠ key.size then
    return none
  let keyPosition ← add 64 position recordHeaderSize
  if ← keyMatches db key keyPosition then
    let dataPosition ← add 64 keyPosition keyLength.toNat
    if dataPosition ≤ Position.limit then
      return some ⟨dataPosition, dataLength.toNat⟩
    else throw (.failure (.truncated (.dataPastLimit position)))
  else return none

def step (stop : Nat) (probe : Probe) : Effect Stop σ Probe := do
  let visited ← add 32 probe.visited 1
  let next ← add 64 probe.next Pair.size
  return { probe with visited, next := if next = stop then probe.table else next }

/-- Looks at `count` more slots of the table that ends at `stop`. -/
def search (db : Database σ) (key : ByteArray) (stop : Nat) :
    (count : Nat) → Probe → Effect Stop σ (Option (Probe × DataRef))
  | 0, _ => pure none
  | count + 1, probe => do
    let slot := Slot.decode (← readInto db probe.next Pair.size)
    if slot.isEmpty then
      return none
    let probe ← step stop probe
    if slot.hash ≠ probe.hash then
      search db key stop count probe
    else
      match ← matchRecord db key slot.position.toNat with
      | some data => return some (probe, data)
      | none => search db key stop count probe

def resume (db : Database σ) (key : ByteArray) (probe : Probe) :
    Effect Stop σ (Progress × Option DataRef) := do
  let length ← mul 64 probe.slots Pair.size
  let stop ← add 64 probe.table length
  match ← search db key stop probe.remaining probe with
  | some (probe, data) => return (.probing probe, some data)
  | none => return (.done, none)

def proceed (db : Database σ) (key : ByteArray) :
    Progress → Effect Stop σ (Progress × Option DataRef)
  | .done => pure (.done, none)
  | .probing probe => resume db key probe
  | .fresh => do
    let hash := Hash.ofKey key
    let table ← table db hash.bucket
    if table.slots = 0 then
      return (.done, none)
    else do
      let probe ← enter hash table
      resume db key probe

/-! ## Records -/

def recordArea (db : Database σ) : Effect Stop σ Records := do
  let table ← table db ⟨0, Nat.succ_pos _⟩
  let stop := table.offset.toNat
  if stop < headerSize ∨ db.size < stop then
    throw (.failure (.truncated (.recordAreaEnd stop db.size)))
  return ⟨headerSize, stop⟩

def recordAt (db : Database σ) (position stop : Nat) : Effect Stop σ (Record × Nat) := do
  let (keyLength, dataLength) := Pair.decode (← readInto db position Pair.size)
  let keyPosition ← add 64 position recordHeaderSize
  let dataPosition ← add 64 keyPosition keyLength.toNat
  let next ← add 64 dataPosition dataLength.toNat
  if stop < next then
    throw (.failure (.truncated (.recordPastArea position stop)))
  allocate db keyLength.toNat
  let key ← readInto db keyPosition keyLength.toNat
  allocate db dataLength.toNat
  let data ← readInto db dataPosition dataLength.toNat
  return (⟨key, data⟩, next)

/-! ## Reading without a trap -/

/-- The action does what the other one does, its failures included, and what it answers satisfies
`post`. -/
def Tracks {α : Type} (action : Effect Stop σ α) (plain : Effect DbError σ α) (s : σ)
    (post : α → Prop) : Prop :=
  Ends plain s (fun a t => action s = .ok a t ∧ post a) fun e t => action s = .error (.failure e) t

section rules
variable {α β : Type} {s : σ} {post : α → Prop} {last : β → Prop}
variable {action : Effect Stop σ α} {plain : Effect DbError σ α}

theorem Tracks.cases (tracks : Tracks action plain s post) :
    (∃ a t, plain s = .ok a t ∧ action s = .ok a t ∧ post a) ∨
      ∃ e t, plain s = .error e t ∧ action s = .error (.failure e) t := by
  cases eq : plain s with
  | ok a t => exact .inl ⟨a, t, rfl, tracks.of_ok eq⟩
  | error e t => exact .inr ⟨e, t, rfl, tracks.of_error eq⟩

theorem tracks_pure {a : α} (h : post a) : Tracks (pure a) (pure a) s post := ends_pure ⟨rfl, h⟩

theorem tracks_get : Tracks get get s fun _ => True := ends_get ⟨rfl, trivial⟩

theorem tracks_throw (e : DbError) : Tracks (throw (.failure e)) (throw e) s post := ends_throw rfl

theorem Tracks.bind {next : α → Effect Stop σ β} {next' : α → Effect DbError σ β}
    (first : Tracks action plain s post) (rest : ∀ a t, post a → Tracks (next a) (next' a) t last) :
    Tracks (action >>= next) (plain >>= next') s last := by
  refine Ends.bind (Ends.mono first ?_ ?_)
  · intro a t h
    refine Ends.mono (rest a t h.2) ?_ ?_
    · intro b u h'
      rw [bind_apply, h.1]
      exact h'
    · intro e u eq
      rw [bind_apply, h.1]
      exact eq
  · intro e t eq
    rw [bind_apply, eq]

theorem tracks_throw_bind (e : DbError) {next : α → Effect Stop σ β} {next' : α → Effect DbError σ β} :
    Tracks (throw (.failure e) >>= next) (throw e >>= next') s last := ends_throw rfl

theorem Tracks.ensure {holds : Prop} [Decidable holds] {trap : Trap} {next : Unit → Effect Stop σ α}
    (rest : Tracks (next ()) plain s post) (h : holds) :
    Tracks (ensure holds trap >>= next) plain s post := by
  unfold Machine.ensure
  rwa [if_pos h]

theorem Tracks.add {bits first second : Nat} {next : Nat → Effect Stop σ α}
    (rest : Tracks (next (first + second)) plain s post) (fits : first + second < 2 ^ bits) :
    Tracks (add bits first second >>= next) plain s post := by
  unfold Machine.add Machine.ensure
  rwa [if_pos fits]

theorem Tracks.mul {bits first second : Nat} {next : Nat → Effect Stop σ α}
    (rest : Tracks (next (first * second)) plain s post) (fits : first * second < 2 ^ bits) :
    Tracks (mul bits first second >>= next) plain s post := by
  unfold Machine.mul Machine.ensure
  rwa [if_pos fits]

theorem Tracks.rem {first second : Nat} {next : Nat → Effect Stop σ α}
    (rest : Tracks (next (first % second)) plain s post) (some : second ≠ 0) :
    Tracks (rem first second >>= next) plain s post := by
  unfold Machine.rem Machine.ensure
  rwa [if_pos some]

theorem Tracks.slice {bytes : ByteArray} {start stop : Nat} {next : ByteArray → Effect Stop σ α}
    (rest : Tracks (next (bytes.extract start stop)) plain s post)
    (inside : start ≤ stop ∧ stop ≤ bytes.size) :
    Tracks (slice bytes start stop >>= next) plain s post := by
  unfold Machine.slice Machine.ensure
  rwa [if_pos inside]

end rules

/-! ## Reads -/

theorem toNat_le_limit (word : UInt32) : word.toNat ≤ Position.limit := by
  have := word.toNat_lt
  unfold Position.limit
  omega

section reads
variable {db : Database σ} {s : σ} {position length : Nat}

theorem tracks_adaptExcept {α : Type} (action : Effect IoError σ α) (cause : IoError → DbError) :
    Tracks (action.adaptExcept fun e => .failure (cause e)) (action.adaptExcept cause) s
      fun _ => True := by
  unfold Tracks
  apply Ends.adaptExcept
  cases eq : action s with
  | ok a t => exact ends_of_ok eq ⟨by rw [adaptExcept_apply, eq], trivial⟩
  | error e t => exact ends_of_error eq (by rw [adaptExcept_apply, eq])

theorem checkRange_eq (small : position + length < 2 ^ 64) (inside : position + length ≤ db.size) :
    checkRange db position length = pure () := if_pos ⟨small, inside⟩

theorem checkRange_tracks (small : position + length < 2 ^ 64) :
    Tracks (checkRange db position length) (Effect.ofExcept (db.checkRange position length)) s
      fun _ => position + length ≤ db.size := by
  unfold Database.checkRange
  by_cases inside : position + length ≤ db.size
  · rw [checkRange_eq small inside, if_pos inside]
    exact ends_of_ok rfl ⟨rfl, inside⟩
  · unfold checkRange
    rw [if_neg fun h => inside h.2, if_neg inside]
    exact ends_of_error rfl rfl

theorem ask_tracks (inside : position + length ≤ db.size) :
    Tracks (ask db position length)
      ((db.read position length).adaptExcept (Database.readError position)) s fun _ => True :=
  Tracks.ensure (tracks_adaptExcept _ _) inside

theorem readInto_tracks (small : position + length < 2 ^ 64) :
    Tracks (readInto db position length) (db.readAt position length) s fun _ => True :=
  (checkRange_tracks small).bind fun _ _ inside => ask_tracks inside

theorem readAt_tracks (small : position + length < 2 ^ 64) :
    Tracks (readAt db position length) (db.readAt position length) s fun _ => True := by
  refine (checkRange_tracks small).bind fun _ t inside => Tracks.ensure ?_ (by omega)
  unfold readInto
  rw [checkRange_eq small inside]
  exact ask_tracks inside

theorem table_tracks (bucket : Bucket) :
    Tracks (table db bucket) (db.table bucket) s fun _ => True := by
  have lt : bucket.val < 256 := bucket.isLt
  have small : bucket.val * Pair.size + Pair.size < 2 ^ 32 := by
    unfold Pair.size
    omega
  refine Tracks.mul ?_ (by omega)
  exact (readInto_tracks (by omega)).bind fun _ _ _ => tracks_pure trivial

theorem piecesMatch_tracks (pieces : List ByteArray)
    (short : ∀ piece ∈ pieces, piece.size ≤ Database.compareLength)
    (small : position + Database.compareLength * pieces.length < 2 ^ 64) :
    Tracks (piecesMatch db pieces position) (db.piecesMatch pieces position) s fun _ => True := by
  induction pieces generalizing position s with
  | nil => exact tracks_pure trivial
  | cons piece pieces ih =>
    have fits := short piece (List.mem_cons_self ..)
    rw [List.length_cons, Nat.mul_succ] at small
    refine Tracks.ensure ?_ fits
    refine (readInto_tracks (by omega)).bind fun found t _ => ?_
    split
    · refine Tracks.add ?_ (by omega)
      exact ih (fun piece member => short piece (List.mem_cons_of_mem _ member)) (by omega)
    · exact tracks_pure trivial

theorem size_le_of_mem_chunks {length : Nat} {bytes piece : ByteArray}
    (member : piece ∈ Bytes.chunks length bytes) : piece.size ≤ length := by
  obtain ⟨i, -, rfl⟩ := List.mem_map.1 member
  rw [ByteArray.size_extract]
  omega

theorem keyMatches_tracks {key : ByteArray} (size_le : key.size ≤ Position.limit)
    (position_le : position ≤ Position.limit + recordHeaderSize) :
    Tracks (keyMatches db key position) (db.keyMatches key position) s fun _ => True := by
  unfold Position.limit at size_le position_le
  unfold recordHeaderSize Pair.size at position_le
  refine tracks_get.bind fun state t _ => ?_
  cases db.mapped state with
  | some bytes =>
    refine Tracks.add ?_ (by omega)
    dsimp only
    split
    · next inside => exact Tracks.slice (tracks_pure trivial) ⟨by omega, inside⟩
    · exact tracks_throw _
  | none =>
    apply piecesMatch_tracks
    · exact fun piece member => size_le_of_mem_chunks member
    · have : (Bytes.chunks Database.compareLength key).length =
          (key.size + Database.compareLength - 1) / Database.compareLength := by
        simp [Bytes.chunks]
      rw [this]
      unfold Database.compareLength
      omega

end reads

end Machine

/-! ## Lookups -/

/-- Positions and lengths that words of 32 bits hold. -/
structure DataRef.Sane (data : DataRef) : Prop where
  position_le : data.position ≤ Position.limit
  length_le : data.length ≤ Position.limit

/-- A probe that stands at a slot of its table, which is not empty. -/
structure Probe.Sane (probe : Probe) : Prop where
  table_le : probe.table ≤ Position.limit
  slots_le : probe.slots ≤ Position.limit
  visited_le : probe.visited ≤ probe.slots
  at_slot : ∃ index < probe.slots, probe.next = probe.table + index * Pair.size

def Progress.Sane : Progress → Prop
  | .probing probe => probe.Sane
  | .fresh | .done => True

namespace Probe.Sane

variable {probe : Probe}

theorem enter (hash : Hash) {table : TableRef} (some : table.slots ≠ 0) :
    (Probe.enter hash table).Sane := by
  have pos : 0 < table.slots.toNat := Nat.pos_of_ne_zero fun none => some (UInt32.toNat_inj.1 none)
  exact ⟨Machine.toNat_le_limit _, Machine.toNat_le_limit _, Nat.zero_le _, _, hash.probeStart_lt pos, rfl⟩

theorem step (sane : probe.Sane) (more : probe.visited < probe.slots) : probe.step.Sane := by
  obtain ⟨table_le, slots_le, -, index, lt, next_eq⟩ := sane
  refine ⟨table_le, slots_le, more, ?_⟩
  by_cases last : index + 1 = probe.slots
  · have at_stop : probe.next + Pair.size = probe.stop := by
      rw [next_eq, Probe.stop, ← last, Nat.succ_mul, Nat.add_assoc]
    exact ⟨0, Nat.zero_lt_of_lt lt, by simp [Probe.step, at_stop]⟩
  · have behind : probe.next + Pair.size = probe.table + (index + 1) * Pair.size := by
      rw [next_eq, Nat.succ_mul, Nat.add_assoc]
    have before : probe.next + Pair.size ≠ probe.stop := by
      rw [behind, Probe.stop]
      unfold Pair.size
      omega
    refine ⟨index + 1, ?_, ?_⟩
    · simp only [Probe.step]
      omega
    · simp only [Probe.step, if_neg before]
      exact behind

theorem next_le (sane : probe.Sane) : probe.next + Pair.size ≤ probe.stop := by
  obtain ⟨-, -, -, index, lt, next_eq⟩ := sane
  rw [next_eq, Probe.stop]
  unfold Pair.size
  omega

theorem stop_le (sane : probe.Sane) : probe.stop < 2 ^ 64 := by
  obtain ⟨table_le, slots_le, -⟩ := sane
  unfold Position.limit at table_le slots_le
  unfold Probe.stop Pair.size
  omega

end Probe.Sane

namespace Machine

section lookups
variable {db : Database σ} {s : σ}

theorem Tracks.enter {α : Type} {post : α → Prop} {hash : Hash} {table : TableRef}
    {next : Probe → Effect Stop σ α} {plain : Effect DbError σ α}
    (rest : Tracks (next (.enter hash table)) plain s post) (some : table.slots ≠ 0) :
    Tracks (enter hash table >>= next) plain s post := by
  have pos : table.slots.toNat ≠ 0 := fun none => some (UInt32.toNat_inj.1 none)
  have sane := Probe.Sane.enter hash some
  have below := sane.next_le
  have stop := sane.stop_le
  have next_eq : (Probe.enter hash table).next =
      table.offset.toNat + (hash >>> 8).toNat % table.slots.toNat * Pair.size := rfl
  rw [next_eq] at below
  unfold Machine.enter
  simp only [bind_assoc, pure_bind]
  refine Tracks.rem ?_ pos
  refine Tracks.mul ?_ (by omega)
  exact Tracks.add rest (by omega)

theorem Tracks.step {α : Type} {post : α → Prop} {probe : Probe} {next : Probe → Effect Stop σ α}
    {plain : Effect DbError σ α} (rest : Tracks (next probe.step) plain s post)
    (sane : probe.Sane) (more : probe.visited < probe.slots) :
    Tracks (step probe.stop probe >>= next) plain s post := by
  have limit : Position.limit < 2 ^ 32 := by decide
  have slots_le := sane.slots_le
  have below := sane.next_le
  have stop := sane.stop_le
  unfold Machine.step
  simp only [bind_assoc, pure_bind]
  refine Tracks.add ?_ (by omega)
  exact Tracks.add rest (by omega)

theorem matchRecord_tracks (key : ByteArray) {position : Nat} (position_le : position ≤ Position.limit) :
    Tracks (matchRecord db key position) (db.matchRecord key position) s
      fun found => ∀ data, found = some data → data.Sane := by
  have limit : Position.limit < 2 ^ 32 := by decide
  have pair : Pair.size = 8 := rfl
  have header : recordHeaderSize = 8 := rfl
  refine (readInto_tracks (by omega)).bind fun bytes t _ => ?_
  dsimp only
  have length_le := toNat_le_limit (Pair.decode bytes).1
  split
  · exact tracks_pure fun data none => by cases none
  · next same =>
    have same := Decidable.not_not.1 same
    refine Tracks.add ?_ (by omega)
    refine (keyMatches_tracks (by omega) (by omega)).bind fun found u _ => ?_
    split
    · refine Tracks.add ?_ (by omega)
      rw [same]
      split
      · next fits =>
        refine tracks_pure fun data eq => ?_
        cases eq
        exact ⟨fits, toNat_le_limit _⟩
      · exact tracks_throw _
    · exact tracks_pure fun data none => by cases none

theorem search_tracks (key : ByteArray) (count : Nat) {probe : Probe} (sane : probe.Sane)
    (left : probe.visited + count ≤ probe.slots) :
    Tracks (search db key probe.stop count probe) (db.search key count probe) s
      fun found => ∀ probe data, found = some (probe, data) → probe.Sane ∧ data.Sane := by
  induction count generalizing probe s with
  | zero => exact tracks_pure fun _ _ none => by cases none
  | succ count ih =>
    have below := sane.next_le
    have stop := sane.stop_le
    have sane' := sane.step (by omega)
    have rest : ∀ t, Tracks (search db key probe.stop count probe.step) (db.search key count probe.step) t
        fun found => ∀ probe data, found = some (probe, data) → probe.Sane ∧ data.Sane := by
      intro t
      have visited_eq : probe.step.visited = probe.visited + 1 := rfl
      have slots_eq : probe.step.slots = probe.slots := rfl
      exact ih sane' (by omega)
    refine (readInto_tracks (by omega)).bind fun bytes t _ => ?_
    dsimp only
    split
    · exact tracks_pure fun _ _ none => by cases none
    refine Tracks.step ?_ sane (by omega)
    split
    · exact rest t
    · refine (matchRecord_tracks key (toNat_le_limit _)).bind fun found u sound => ?_
      cases found with
      | none => exact rest u
      | some data =>
        refine tracks_pure fun probe' data' eq => ?_
        cases eq
        exact ⟨sane', sound data rfl⟩

/-- What a lookup leaves for the next one, and what it has found. -/
def Reached (reached : Progress × Option DataRef) : Prop :=
  reached.1.Sane ∧ ∀ data, reached.2 = some data → data.Sane

theorem reached_done : Reached (.done, none) := ⟨trivial, fun _ none => by cases none⟩

theorem resume_tracks (key : ByteArray) {probe : Probe} (sane : probe.Sane) :
    Tracks (resume db key probe) (db.resume key probe) s Reached := by
  have visited_le := sane.visited_le
  have stop := sane.stop_le
  have stop_eq : probe.table + probe.slots * Pair.size = probe.stop := rfl
  have left : probe.visited + probe.remaining ≤ probe.slots := by
    unfold Probe.remaining
    omega
  refine Tracks.mul ?_ (by omega)
  refine Tracks.add ?_ (by omega)
  refine (search_tracks key probe.remaining sane left).bind fun found t sound => ?_
  cases found with
  | none => exact tracks_pure reached_done
  | some found =>
    refine tracks_pure ⟨(sound _ _ rfl).1, fun data eq => ?_⟩
    cases eq
    exact (sound _ _ rfl).2

theorem proceed_tracks (key : ByteArray) {progress : Progress} (sane : progress.Sane) :
    Tracks (proceed db key progress) (db.proceed key progress) s Reached := by
  cases progress with
  | done => exact tracks_pure reached_done
  | probing probe => exact resume_tracks key sane
  | fresh =>
    refine (table_tracks _).bind fun table t _ => ?_
    split
    · exact tracks_pure reached_done
    · next some => exact Tracks.enter (resume_tracks key (.enter _ some)) some

end lookups

/-! ## Records -/

section records
variable {db : Database σ} {s : σ}

/-- A walk in an area that the source holds, if its claimed length is right. -/
structure InArea (db : Database σ) (records : Records) : Prop where
  position_le : records.position ≤ records.stop
  stop_le : records.stop ≤ Position.limit
  stop_le_size : records.stop ≤ db.size

theorem recordArea_tracks : Tracks (recordArea db) db.recordArea s (InArea db) := by
  refine (table_tracks _).bind fun table t _ => ?_
  dsimp only
  split
  · exact tracks_throw_bind _
  · next inside =>
    have inside := not_or.1 inside
    exact tracks_pure ⟨Nat.le_of_not_lt inside.1, toNat_le_limit _, Nat.le_of_not_lt inside.2⟩

theorem recordAt_tracks {position stop : Nat} (position_le : position ≤ stop)
    (stop_le : stop ≤ Position.limit) (stop_le_size : stop ≤ db.size) :
    Tracks (recordAt db position stop) (db.recordAt position stop) s fun read => read.2 ≤ stop := by
  have limit : Position.limit < 2 ^ 32 := by decide
  have pair : Pair.size = 8 := rfl
  have header : recordHeaderSize = 8 := rfl
  refine (readInto_tracks (by omega)).bind fun bytes t _ => ?_
  have key_le := toNat_le_limit (Pair.decode bytes).1
  have data_le := toNat_le_limit (Pair.decode bytes).2
  dsimp only
  refine Tracks.add ?_ (by omega)
  refine Tracks.add ?_ (by omega)
  refine Tracks.add ?_ (by omega)
  split
  · exact tracks_throw_bind _
  · refine Tracks.ensure ?_ (by omega)
    refine (readInto_tracks (by omega)).bind fun key u _ => ?_
    refine Tracks.ensure ?_ (by omega)
    refine (readInto_tracks (by omega)).bind fun data v _ => ?_
    exact tracks_pure (by omega)

end records

end Machine

end ConstDb
