import ConstDb.Proofs.Machine
import Mathlib.Logic.Function.Basic

/-!
# Readers in use

Any number of readers, whose sources may be anything, are asked in any order. They share their cursors,
and the key may change under a cursor. Reading in machine words answers like the readers themselves and
never traps (`reading_never_traps`).
-/

namespace ConstDb

open Effect

variable {ε σ : Type}

/-! ## What can be asked of a reader -/

structure Api (ε σ : Type) where
  table : Bucket → Effect ε σ TableRef
  readAt : (position length : UInt32) → Effect ε σ ByteArray
  get : ByteArray → Effect ε σ (Option ByteArray)
  contains : ByteArray → Effect ε σ Bool
  find : ByteArray → Effect ε (Cursor × σ) (Option DataRef)
  findNext : ByteArray → Effect ε (Cursor × σ) (Option DataRef)
  nextValue : ByteArray → Walk ε (Values × σ) ByteArray
  recordArea : Effect ε σ Records
  nextRecord : Walk ε (Records × σ) Record

def Database.api (db : Database σ) : Api DbError σ where
  table := db.table
  readAt position length := db.readAt position.toNat length.toNat
  get := db.get
  contains := db.contains
  find := db.find
  findNext := db.findNext
  nextValue := db.nextValue
  recordArea := db.recordArea
  nextRecord := db.nextRecord

namespace Machine

def findNext (db : Database σ) (key : ByteArray) : Effect Stop (Cursor × σ) (Option DataRef) :=
  fun (cursor, s) =>
    match proceed db key cursor.progress s with
    | .ok (progress, found) s => .ok found (⟨progress, found⟩, s)
    | .error e s => .error e (⟨cursor.progress, none⟩, s)

def find (db : Database σ) (key : ByteArray) : Effect Stop (Cursor × σ) (Option DataRef) :=
  fun (_, s) => findNext db key (.fresh, s)

def locate (db : Database σ) (key : ByteArray) : Effect Stop σ (Option DataRef) :=
  Effect.within (fun s => ((Cursor.fresh, s), Prod.snd)) (find db key)

def get (db : Database σ) (key : ByteArray) : Effect Stop σ (Option ByteArray) := do
  match ← locate db key with
  | some data => return some (← readAt db data.position data.length)
  | none => return none

def contains (db : Database σ) (key : ByteArray) : Effect Stop σ Bool := do
  return (← locate db key).isSome

def nextData (db : Database σ) (key : ByteArray) : Effect Stop (Cursor × σ) (Option ByteArray) := do
  match ← findNext db key with
  | some data => return some (← Effect.onSecond (readAt db data.position data.length))
  | none => return none

def nextValue (db : Database σ) (key : ByteArray) : Walk Stop (Values × σ) ByteArray :=
  fun (⟨cursor, failed⟩, s) =>
    if failed then (none, (⟨cursor, failed⟩, s))
    else
      match nextData db key (cursor, s) with
      | .ok (some data) (cursor, s) => (some (.ok data), (⟨cursor, false⟩, s))
      | .ok none (cursor, s) => (none, (⟨cursor, false⟩, s))
      | .error e (cursor, s) => (some (.error e), (⟨cursor, true⟩, s))

def nextRecord (db : Database σ) : Walk Stop (Records × σ) Record := fun (⟨position, stop⟩, s) =>
  if stop ≤ position then (none, (⟨position, stop⟩, s))
  else
    match recordAt db position stop s with
    | .ok (record, next) s => (some (.ok record), (⟨next, stop⟩, s))
    | .error e s => (some (.error e), (⟨stop, stop⟩, s))

def api (db : Database σ) : Api Stop σ where
  table := table db
  readAt position length := readAt db position.toNat length.toNat
  get := get db
  contains := contains db
  find := find db
  findNext := findNext db
  nextValue := nextValue db
  recordArea := recordArea db
  nextRecord := nextRecord db

end Machine

/-! ## Sessions -/

/-- One thing that is asked of the readers. Readers, cursors and walks go by number. -/
inductive Operation where
  | table (reader : Nat) (bucket : Bucket)
  | readAt (reader : Nat) (position length : UInt32)
  | get (reader : Nat) (key : ByteArray)
  | contains (reader : Nat) (key : ByteArray)
  | find (reader cursor : Nat) (key : ByteArray)
  | findNext (reader cursor : Nat) (key : ByteArray)
  | reset (cursor : Nat)
  | findAll (reader walk : Nat) (key : ByteArray)
  | nextValue (walk : Nat)
  | records (reader walk : Nat)
  | nextRecord (walk : Nat)

inductive Outcome where
  | nothing
  | table (table : TableRef)
  | bytes (bytes : ByteArray)
  | holds (found : Bool)
  | found (data : DataRef)
  | record (record : Record)

/-- All cursors and walks that are in use, and whose they are. -/
structure Session where
  cursors : Nat → Cursor
  values : Nat → Option (Nat × ByteArray × Values)
  areas : Nat → Option (Nat × Records)

namespace Session

def start : Session := ⟨fun _ => .fresh, fun _ => none, fun _ => none⟩

def setCursor (session : Session) (i : Nat) (cursor : Cursor) : Session :=
  { session with cursors := Function.update session.cursors i cursor }

def setValues (session : Session) (i reader : Nat) (key : ByteArray) (values : Values) : Session :=
  { session with values := Function.update session.values i (some (reader, key, values)) }

def setArea (session : Session) (i reader : Nat) (records : Records) : Session :=
  { session with areas := Function.update session.areas i (some (reader, records)) }

/-- An action on a cursor of the session. -/
def onCursor {α : Type} (i : Nat) (action : Effect ε (Cursor × σ) α) : Effect ε (Session × σ) α :=
  Effect.within (fun (session, s) =>
    ((session.cursors i, s), fun (cursor, s) => (session.setCursor i cursor, s))) action

/-- The next item of a walk whose state is put back by `keep`. -/
def onWalk {α ρ : Type} (outcome : α → Outcome) (keep : ρ → Session) (step : Option (Except ε α) × (ρ × σ)) :
    EStateM.Result ε (Session × σ) Outcome :=
  match step with
  | (none, (r, s)) => .ok .nothing (keep r, s)
  | (some (.ok a), (r, s)) => .ok (outcome a) (keep r, s)
  | (some (.error e), (r, s)) => .error e (keep r, s)

/-- What an operation does. A walk that nobody has opened hands out nothing. -/
def perform (apis : Nat → Api ε σ) : Operation → Effect ε (Session × σ) Outcome
  | .table reader bucket => do return .table (← onSecond ((apis reader).table bucket))
  | .readAt reader position length => do return .bytes (← onSecond ((apis reader).readAt position length))
  | .get reader key => do
    return (← onSecond ((apis reader).get key)).elim .nothing .bytes
  | .contains reader key => do return .holds (← onSecond ((apis reader).contains key))
  | .find reader cursor key => do
    return (← onCursor cursor ((apis reader).find key)).elim .nothing .found
  | .findNext reader cursor key => do
    return (← onCursor cursor ((apis reader).findNext key)).elim .nothing .found
  | .reset cursor => fun (session, s) => .ok .nothing (session.setCursor cursor .fresh, s)
  | .findAll reader walk key => fun (session, s) => .ok .nothing (session.setValues walk reader key .fresh, s)
  | .nextValue walk => fun (session, s) =>
    match session.values walk with
    | none => .ok .nothing (session, s)
    | some (reader, key, values) =>
      onWalk .bytes (session.setValues walk reader key) ((apis reader).nextValue key (values, s))
  | .records reader walk => do
    let records ← onSecond (apis reader).recordArea
    fun (session, s) => .ok .nothing (session.setArea walk reader records, s)
  | .nextRecord walk => fun (session, s) =>
    match session.areas walk with
    | none => .ok .nothing (session, s)
    | some (reader, records) =>
      onWalk .record (session.setArea walk reader) ((apis reader).nextRecord (records, s))

def performAll (apis : Nat → Api ε σ) : List Operation → Session × σ → List (Except ε Outcome) × (Session × σ)
  | [], state => ([], state)
  | operation :: operations, state =>
    let action := perform apis operation
    let (answers, last) := performAll apis operations (action.leaves state)
    (action.answer state :: answers, last)

end Session

namespace Machine

/-! ## Cursors and walks -/

/-- What an action leaves that fails as a reader does. -/
def failing {α : Type} : EStateM.Result DbError σ α → EStateM.Result Stop σ α
  | .ok a s => .ok a s
  | .error e s => .error (.failure e) s

section retraces
variable {τ α β : Type} {action : Effect Stop σ α} {plain : Effect DbError σ α} {s t : σ}
variable {kept : σ → Prop} {post : α → Prop}

/-- The action does what the other one does, and leaves something that satisfies `kept`. -/
def Retraces (action : Effect Stop σ α) (plain : Effect DbError σ α) (s : σ) (kept : σ → Prop) : Prop :=
  action s = failing (plain s) ∧ kept (plain.leaves s)

theorem retraces_of_ok {a : α} (eq : plain s = .ok a t) (eq' : action s = .ok a t) (h : kept t) :
    Retraces action plain s kept := by
  unfold Retraces leaves
  rw [eq, eq']
  exact ⟨rfl, h⟩

theorem retraces_of_error {e : DbError} (eq : plain s = .error e t) (eq' : action s = .error (.failure e) t)
    (h : kept t) : Retraces action plain s kept := by
  unfold Retraces leaves
  rw [eq, eq']
  exact ⟨rfl, h⟩

theorem Retraces.cases (retraces : Retraces action plain s kept) :
    (∃ a t, plain s = .ok a t ∧ action s = .ok a t ∧ kept t) ∨
      ∃ e t, plain s = .error e t ∧ action s = .error (.failure e) t ∧ kept t := by
  obtain ⟨eq, h⟩ := retraces
  unfold leaves at h
  cases eq' : plain s with
  | ok a t =>
    rw [eq'] at eq h
    exact .inl ⟨a, t, rfl, eq, h⟩
  | error e t =>
    rw [eq'] at eq h
    exact .inr ⟨e, t, rfl, eq, h⟩

theorem retraces_bind_of_ok {next : α → Effect Stop σ β} {next' : α → Effect DbError σ β} {a : α}
    (eq : plain s = .ok a t) (eq' : action s = .ok a t) (rest : Retraces (next a) (next' a) t kept) :
    Retraces (action >>= next) (plain >>= next') s kept := by
  have here : (plain >>= next') s = next' a t := by rw [bind_apply, eq]
  have here' : (action >>= next) s = next a t := by rw [bind_apply, eq']
  unfold Retraces leaves at *
  rwa [here, here']

theorem retraces_bind_of_error {next : α → Effect Stop σ β} {next' : α → Effect DbError σ β} {e : DbError}
    (eq : plain s = .error e t) (eq' : action s = .error (.failure e) t) (h : kept t) :
    Retraces (action >>= next) (plain >>= next') s kept :=
  retraces_of_error (by rw [bind_apply, eq]) (by rw [bind_apply, eq']) h

theorem Retraces.map (retraces : Retraces action plain s kept) (f : α → β) :
    Retraces (action >>= fun a => pure (f a)) (plain >>= fun a => pure (f a)) s kept := by
  rcases retraces.cases with ⟨a, t, eq, eq', h⟩ | ⟨e, t, eq, eq', h⟩
  · exact retraces_bind_of_ok eq eq' (retraces_of_ok rfl rfl h)
  · exact retraces_bind_of_error eq eq' h

theorem Retraces.within {focus : τ → σ × (σ → τ)} {u : τ} {kept' : τ → Prop}
    (retraces : Retraces action plain (focus u).1 kept) (back : ∀ t, kept t → kept' ((focus u).2 t)) :
    Retraces (within focus action) (within focus plain) u kept' := by
  rcases retraces.cases with ⟨a, t, eq, eq', h⟩ | ⟨e, t, eq, eq', h⟩
  · exact retraces_of_ok (within_ok eq) (within_ok eq') (back t h)
  · exact retraces_of_error (within_error eq) (within_error eq') (back t h)

theorem Tracks.retraces (tracks : Tracks action plain s post) (h : ∀ t, kept t) :
    Retraces action plain s kept := by
  rcases tracks.cases with ⟨a, t, eq, eq', -⟩ | ⟨e, t, eq, eq'⟩
  · exact retraces_of_ok eq eq' (h t)
  · exact retraces_of_error eq eq' (h t)

end retraces

section reader
variable {db : Database σ} {cursor : Cursor} {s : σ}

theorem findNext_cases (db : Database σ) (key : ByteArray) (s : σ) (sane : cursor.progress.Sane) :
    (∃ progress found t, db.findNext key (cursor, s) = .ok found (⟨progress, found⟩, t) ∧
      findNext db key (cursor, s) = .ok found (⟨progress, found⟩, t) ∧ Reached (progress, found)) ∨
    ∃ e t, db.findNext key (cursor, s) = .error e (⟨cursor.progress, none⟩, t) ∧
      findNext db key (cursor, s) = .error (.failure e) (⟨cursor.progress, none⟩, t) := by
  have tracks : Tracks (proceed db key cursor.progress) (db.proceed key cursor.progress) s Reached :=
    proceed_tracks key sane
  rcases tracks.cases with ⟨⟨progress, found⟩, t, eq, eq', reached⟩ | ⟨e, t, eq, eq'⟩
  · exact .inl ⟨progress, found, t, by simp only [Database.findNext, eq], by simp only [findNext, eq'],
      reached⟩
  · exact .inr ⟨e, t, by simp only [Database.findNext, eq], by simp only [findNext, eq']⟩

theorem findNext_retraces (key : ByteArray) (sane : cursor.progress.Sane) :
    Retraces (findNext db key) (db.findNext key) (cursor, s) fun t => t.1.progress.Sane := by
  rcases findNext_cases db key s sane with ⟨progress, found, t, eq, eq', reached⟩ | ⟨e, t, eq, eq'⟩
  · exact retraces_of_ok eq eq' reached.1
  · exact retraces_of_error eq eq' sane

theorem find_retraces (key : ByteArray) :
    Retraces (find db key) (db.find key) (cursor, s) fun t => t.1.progress.Sane :=
  findNext_retraces key (trivial : Cursor.fresh.progress.Sane)

theorem readAt_data_tracks {data : DataRef} (sane : data.Sane) :
    Tracks (readAt db data.position data.length) (db.readAt data.position data.length) s fun _ => True := by
  obtain ⟨position_le, length_le⟩ := sane
  unfold Position.limit at position_le length_le
  exact readAt_tracks (by omega)

theorem locate_tracks (key : ByteArray) :
    Tracks (locate db key) (db.locate key) s fun found => ∀ data, found = some data → data.Sane := by
  have fresh : Cursor.fresh.progress.Sane := trivial
  rcases findNext_cases db key s fresh with ⟨progress, found, t, eq, eq', reached⟩ | ⟨e, t, eq, eq'⟩
  · exact ends_of_ok (within_ok eq) ⟨within_ok eq', reached.2⟩
  · exact ends_of_error (within_error eq) (within_error eq')

theorem get_tracks (key : ByteArray) : Tracks (get db key) (db.get key) s fun _ => True := by
  refine (locate_tracks key).bind fun found t sane => ?_
  cases found with
  | none => exact tracks_pure trivial
  | some data => exact (readAt_data_tracks (sane data rfl)).bind fun _ _ _ => tracks_pure trivial

theorem contains_tracks (key : ByteArray) :
    Tracks (contains db key) (db.contains key) s fun _ => True :=
  (locate_tracks key).bind fun _ _ _ => tracks_pure trivial

theorem nextData_retraces (key : ByteArray) (sane : cursor.progress.Sane) :
    Retraces (nextData db key) (db.nextData key) (cursor, s) fun t => t.1.progress.Sane := by
  rcases findNext_cases db key s sane with ⟨progress, found, t, eq, eq', reached⟩ | ⟨e, t, eq, eq'⟩
  · refine retraces_bind_of_ok eq eq' ?_
    cases found with
    | none => exact retraces_of_ok rfl rfl reached.1
    | some data =>
      have read : Retraces (readAt db data.position data.length) (db.readAt data.position data.length) t
          fun _ => True := (readAt_data_tracks (reached.2 data rfl)).retraces fun _ => trivial
      exact Retraces.map (Retraces.within read fun _ _ => reached.1) some
  · exact retraces_bind_of_error eq eq' sane

/-- A step of a walk whose failures are those of the reader. -/
def failingStep {α ρ : Type} (step : Option (Except DbError α) × ρ) : Option (Except Stop α) × ρ :=
  (step.1.map (Except.mapError .failure), step.2)

theorem nextValue_retraces (db : Database σ) (key : ByteArray) (s : σ) {values : Values}
    (sane : values.cursor.progress.Sane) :
    nextValue db key (values, s) = failingStep (db.nextValue key (values, s)) ∧
      (db.nextValue key (values, s)).2.1.cursor.progress.Sane := by
  obtain ⟨cursor, failed⟩ := values
  unfold nextValue Database.nextValue
  cases failed with
  | true => exact ⟨rfl, sane⟩
  | false =>
    have retraces : Retraces (nextData db key) (db.nextData key) (cursor, s) fun t => t.1.progress.Sane :=
      nextData_retraces key sane
    rcases retraces.cases with ⟨found, t, eq, eq', kept⟩ | ⟨e, t, eq, eq', kept⟩
    · simp only [eq, eq', Bool.false_eq_true, if_false]
      cases found with
      | none => exact ⟨rfl, kept⟩
      | some data => exact ⟨rfl, kept⟩
    · simp only [eq, eq', Bool.false_eq_true, if_false]
      exact ⟨rfl, kept⟩

theorem nextRecord_retraces (db : Database σ) (s : σ) {records : Records} (inside : InArea db records) :
    nextRecord db (records, s) = failingStep (db.nextRecord (records, s)) ∧
      InArea db (db.nextRecord (records, s)).2.1 := by
  obtain ⟨position, stop⟩ := records
  obtain ⟨position_le, stop_le, stop_le_size⟩ := inside
  unfold nextRecord Database.nextRecord
  by_cases ended : stop ≤ position
  · simp only [ended, if_true]
    exact ⟨rfl, position_le, stop_le, stop_le_size⟩
  · simp only [ended, if_false]
    have tracks : Tracks (recordAt db position stop) (db.recordAt position stop) s
        fun read => read.2 ≤ stop := recordAt_tracks position_le stop_le stop_le_size
    rcases tracks.cases with ⟨⟨record, next⟩, t, eq, eq', next_le⟩ | ⟨e, t, eq, eq'⟩
    · simp only [eq, eq']
      exact ⟨rfl, next_le, stop_le, stop_le_size⟩
    · simp only [eq, eq']
      exact ⟨rfl, Nat.le_refl _, stop_le, stop_le_size⟩

end reader

end Machine

/-! ## Sessions without a trap -/

namespace Session

open Machine

/-- All cursors and walks are such as readers leave them. -/
structure Sane (dbs : Nat → Database σ) (session : Session) : Prop where
  cursors : ∀ i, (session.cursors i).progress.Sane
  values : ∀ {i reader key values}, session.values i = some (reader, key, values) →
    values.cursor.progress.Sane
  areas : ∀ {i reader records}, session.areas i = some (reader, records) → InArea (dbs reader) records

section sane
variable {dbs : Nat → Database σ} {session : Session} {s : σ}

theorem sane_start : Sane dbs start := by
  refine ⟨fun _ => trivial, ?_, ?_⟩
  · intro i reader key values none
    cases none
  · intro i reader records none
    cases none

theorem update_cases {α : Type} {entries : Nat → Option α} {entry a : α} {i j : Nat}
    (eq : Function.update entries i (some entry) j = some a) : a = entry ∨ entries j = some a := by
  by_cases here : j = i
  · rw [here, Function.update_self] at eq
    exact .inl (Option.some.inj eq).symm
  · rw [Function.update_of_ne here] at eq
    exact .inr eq

theorem Sane.setCursor (sane : session.Sane dbs) (i : Nat) {cursor : Cursor}
    (h : cursor.progress.Sane) : (session.setCursor i cursor).Sane dbs := by
  refine ⟨fun j => ?_, sane.values, sane.areas⟩
  by_cases here : j = i
  · simpa [Session.setCursor, here] using h
  · simpa [Session.setCursor, here] using sane.cursors j

theorem Sane.setValues (sane : session.Sane dbs) (i reader : Nat) (key : ByteArray) {values : Values}
    (h : values.cursor.progress.Sane) : (session.setValues i reader key values).Sane dbs := by
  refine ⟨sane.cursors, fun {j reader key values} eq => ?_, sane.areas⟩
  rcases update_cases eq with same | there
  · cases same
    exact h
  · exact sane.values there

theorem Sane.setArea (sane : session.Sane dbs) (i : Nat) {reader : Nat} {records : Records}
    (h : InArea (dbs reader) records) : (session.setArea i reader records).Sane dbs := by
  refine ⟨sane.cursors, sane.values, fun {j reader records} eq => ?_⟩
  rcases update_cases eq with same | there
  · cases same
    exact h
  · exact sane.areas there

theorem onSecond_retraces {α : Type} {action : Effect Stop σ α} {plain : Effect DbError σ α} {post : α → Prop}
    (sane : session.Sane dbs) (tracks : Tracks action plain s post) :
    Retraces (onSecond action) (onSecond plain) (session, s) fun t => t.1.Sane dbs :=
  Retraces.within (tracks.retraces fun _ => trivial : Retraces _ _ _ fun _ => True) fun _ _ => sane

theorem onCursor_retraces {α : Type} {action : Effect Stop (Cursor × σ) α}
    {plain : Effect DbError (Cursor × σ) α} (i : Nat) (sane : session.Sane dbs)
    (retraces : Retraces action plain (session.cursors i, s) fun t => t.1.progress.Sane) :
    Retraces (onCursor i action) (onCursor i plain) (session, s) fun t => t.1.Sane dbs :=
  Retraces.within retraces fun _ h => sane.setCursor i h

theorem onWalk_retraces {α ρ : Type} {action : Effect Stop (Session × σ) Outcome}
    {plain : Effect DbError (Session × σ) Outcome} {state : Session × σ} {outcome : α → Outcome}
    {keep : ρ → Session} {step : Option (Except DbError α) × (ρ × σ)}
    (eq : plain state = onWalk outcome keep step)
    (eq' : action state = onWalk outcome keep (failingStep step)) (h : (keep step.2.1).Sane dbs) :
    Retraces action plain state fun t => t.1.Sane dbs := by
  obtain ⟨item, r, t⟩ := step
  cases item with
  | none => exact retraces_of_ok eq eq' h
  | some item =>
    cases item with
    | ok a => exact retraces_of_ok eq eq' h
    | error e => exact retraces_of_error eq eq' h

theorem perform_retraces (operation : Operation) (s : σ) (sane : session.Sane dbs) :
    Retraces (perform (fun i => Machine.api (dbs i)) operation) (perform (fun i => (dbs i).api) operation)
      (session, s) fun t => t.1.Sane dbs := by
  cases operation with
  | table reader bucket => exact (onSecond_retraces sane (table_tracks bucket)).map _
  | readAt reader position length =>
    have small : position.toNat + length.toNat < 2 ^ 64 := by
      have := position.toNat_lt
      have := length.toNat_lt
      omega
    exact (onSecond_retraces sane (readAt_tracks small)).map _
  | get reader key => exact (onSecond_retraces sane (get_tracks key)).map _
  | contains reader key => exact (onSecond_retraces sane (contains_tracks key)).map _
  | find reader cursor key => exact (onCursor_retraces cursor sane (find_retraces key)).map _
  | findNext reader cursor key =>
    exact (onCursor_retraces cursor sane (findNext_retraces key (sane.cursors cursor))).map _
  | reset cursor => exact retraces_of_ok rfl rfl (sane.setCursor cursor trivial)
  | findAll reader walk key => exact retraces_of_ok rfl rfl (sane.setValues walk reader key trivial)
  | nextValue walk =>
    cases entry : session.values walk with
    | none =>
      have idle : ∀ {ε} (apis : Nat → Api ε σ),
          perform apis (.nextValue walk) (session, s) = .ok .nothing (session, s) := by
        intro ε apis
        simp only [perform, entry]
      exact retraces_of_ok (idle _) (idle _) sane
    | some walking =>
      obtain ⟨reader, key, values⟩ := walking
      have steps : ∀ {ε} (apis : Nat → Api ε σ), perform apis (.nextValue walk) (session, s) =
          onWalk .bytes (session.setValues walk reader key) ((apis reader).nextValue key (values, s)) := by
        intro ε apis
        simp only [perform, entry]
      obtain ⟨same, kept⟩ := nextValue_retraces (dbs reader) key s (sane.values entry)
      exact onWalk_retraces (steps _) ((steps _).trans (congrArg _ same))
        (sane.setValues walk reader key kept)
  | records reader walk =>
    have tracks : Tracks (recordArea (dbs reader)) (dbs reader).recordArea s (InArea (dbs reader)) :=
      recordArea_tracks
    rcases tracks.cases with ⟨records, t, eq, eq', inside⟩ | ⟨e, t, eq, eq'⟩
    · exact retraces_bind_of_ok (onSecond_ok eq session) (onSecond_ok eq' session)
        (retraces_of_ok rfl rfl (sane.setArea walk inside))
    · exact retraces_bind_of_error (within_error eq) (within_error eq') sane
  | nextRecord walk =>
    cases entry : session.areas walk with
    | none =>
      have idle : ∀ {ε} (apis : Nat → Api ε σ),
          perform apis (.nextRecord walk) (session, s) = .ok .nothing (session, s) := by
        intro ε apis
        simp only [perform, entry]
      exact retraces_of_ok (idle _) (idle _) sane
    | some walking =>
      obtain ⟨reader, records⟩ := walking
      have steps : ∀ {ε} (apis : Nat → Api ε σ), perform apis (.nextRecord walk) (session, s) =
          onWalk .record (session.setArea walk reader) ((apis reader).nextRecord (records, s)) := by
        intro ε apis
        simp only [perform, entry]
      obtain ⟨same, kept⟩ := nextRecord_retraces (dbs reader) s (sane.areas entry)
      exact onWalk_retraces (steps _) ((steps _).trans (congrArg _ same)) (sane.setArea walk kept)

theorem performAll_retraces (operations : List Operation) (sane : session.Sane dbs) :
    performAll (fun i => Machine.api (dbs i)) operations (session, s) =
      ((performAll (fun i => (dbs i).api) operations (session, s)).1.map (Except.mapError .failure),
        (performAll (fun i => (dbs i).api) operations (session, s)).2) := by
  induction operations generalizing session s with
  | nil => rfl
  | cons operation operations ih =>
    unfold performAll answer leaves
    rcases (perform_retraces operation s sane).cases with
      ⟨outcome, ⟨session', t⟩, eq, eq', kept⟩ | ⟨e, ⟨session', t⟩, eq, eq', kept⟩
    · simp only [eq, eq', ih kept, List.map_cons]
      rfl
    · simp only [eq, eq', ih kept, List.map_cons]
      rfl

end sane

/-- **Reading never traps.** Whatever the sources answer, and in whatever way readers, cursors and keys
are mixed: each answer is a value or a failure of the reader, the same as without words, slices and
buffers. -/
theorem reading_never_traps (dbs : Nat → Database σ) (operations : List Operation) (s : σ) :
    let checked := performAll (fun i => Machine.api (dbs i)) operations (start, s)
    let plain := performAll (fun i => (dbs i).api) operations (start, s)
    checked = (plain.1.map (Except.mapError .failure), plain.2) ∧
      ∀ answer ∈ checked.1, ∀ trap, answer ≠ .error (.trap trap) := by
  intro checked plain
  have same : checked = (plain.1.map (Except.mapError .failure), plain.2) :=
    performAll_retraces operations sane_start
  refine ⟨same, fun answer member trap trapped => ?_⟩
  rw [same] at member
  obtain ⟨answer', -, eq⟩ := List.mem_map.1 member
  rw [trapped] at eq
  cases answer' <;> cases eq

end Session

end ConstDb
