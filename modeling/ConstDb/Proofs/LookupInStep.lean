import ConstDb.Database.Values
import ConstDb.Proofs.InStep
import ConstDb.Proofs.Lookup
import ConstDb.Proofs.Walk

/-!
# Lookups in step

Two databases whose reads are in step answer lookups in step: `get_inStep`, `contains_inStep`, and
`nextValue_inStep` for the walk over the values of a key. What breaks a read of the first database
breaks its lookup, and nothing else does. A walk over values comes to its end (`restValues_over`).
-/

namespace ConstDb

open Effect

theorem readAt_inStep_of_read {σ τ : Type} {db : Database σ} {other : Database τ} {rel : σ → τ → Prop}
    {broken : DbError → σ → Prop} {s : σ} {t : τ} {position length : Nat} (size : db.size = other.size)
    (related : rel s t)
    (read : position + length ≤ other.size →
      InUnison rel (fun e s => broken (Database.readError position e) s) (db.read position length)
        (other.read position length) s t) :
    InUnison rel broken (db.readAt position length) (other.readAt position length) s t := by
  rw [Database.readAt, Database.readAt, Database.checkRange, Database.checkRange, size]
  by_cases inside : position + length ≤ other.size
  · rw [if_pos inside]
    exact ((read inside).adaptExcept).of_eq rfl rfl
  · rw [if_neg inside]
    exact inStep_of_error rfl rfl related

theorem piecesMatch_inStep {σ τ : Type} {db : Database σ} {other : Database τ} {rel : σ → τ → Prop}
    {broken : DbError → σ → Prop}
    (reads : ∀ {s t}, rel s t → ∀ position length,
      InUnison rel broken (db.readAt position length) (other.readAt position length) s t)
    (pieces : List ByteArray) (position : Nat) {s : σ} {t : τ} (related : rel s t) :
    InUnison rel broken (db.piecesMatch pieces position) (other.piecesMatch pieces position) s t := by
  induction pieces generalizing position s t with
  | nil => exact inStep_pure ⟨rfl, related⟩
  | cons piece pieces ih =>
    refine (reads related _ _).bind ?_
    rintro found s _ t ⟨rfl, related⟩
    by_cases same : found = piece
    · rw [if_pos same, if_pos same]
      exact ih _ related
    · rw [if_neg same, if_neg same]
      exact inStep_pure ⟨rfl, related⟩

/-- Sources that show the same bytes compare a key alike, be the bytes mapped or not. -/
theorem keyMatches_inStep {σ τ : Type} {db : Database σ} {other : Database τ} {rel : σ → τ → Prop}
    {broken : DbError → σ → Prop}
    (reads : ∀ {s t}, rel s t → ∀ position length,
      InUnison rel broken (db.readAt position length) (other.readAt position length) s t)
    {s : σ} {t : τ} (related : rel s t) (same : db.mapped s = other.mapped t) (key : ByteArray)
    (position : Nat) :
    InUnison rel broken (db.keyMatches key position) (other.keyMatches key position) s t := by
  cases shown : other.mapped t with
  | none =>
    rw [shown] at same
    exact (piecesMatch_inStep reads _ position related).of_eq (Lookup.keyMatches_unmapped same)
      (Lookup.keyMatches_unmapped shown)
  | some bytes =>
    rw [shown] at same
    rcases Nat.lt_or_ge bytes.size (position + key.size) with outside | inside
    · exact inStep_of_error (Lookup.keyMatches_mapped_outside same outside)
        (Lookup.keyMatches_mapped_outside shown outside) related
    · exact inStep_of_ok (Lookup.keyMatches_mapped same inside) (Lookup.keyMatches_mapped shown inside)
        ⟨rfl, related⟩

theorem readTable_inStep {σ τ : Type} {db : Database σ} {other : Database τ} {rel : σ → τ → Prop}
    {broken : DbError → σ → Prop}
    (reads : ∀ {s t}, rel s t → ∀ position length,
      InUnison rel broken (db.readAt position length) (other.readAt position length) s t)
    {s : σ} {t : τ} (related : rel s t) (bucket : Bucket) :
    InUnison rel broken (db.table bucket) (other.table bucket) s t := by
  apply (reads related _ _).bind
  intro pair s _ t alike
  obtain ⟨rfl, related⟩ := alike
  exact inStep_pure ⟨rfl, related⟩

/-- Reads of `db` are in step with those of `other` as long as the states are related. -/
structure ReadsInStep {σ τ : Type} (db : Database σ) (other : Database τ) (rel : σ → τ → Prop)
    (broken : DbError → σ → Prop) : Prop where
  readAt : ∀ {s t}, rel s t → ∀ position length,
    InUnison rel broken (db.readAt position length) (other.readAt position length) s t
  keyMatches : ∀ {s t}, rel s t → ∀ key position,
    InUnison rel broken (db.keyMatches key position) (other.keyMatches key position) s t

namespace ReadsInStep

section lookups
variable {σ τ : Type} {db : Database σ} {other : Database τ} {rel : σ → τ → Prop}
variable {broken : DbError → σ → Prop} {s : σ} {t : τ}

theorem table_inStep (reads : ReadsInStep db other rel broken) (related : rel s t) (bucket : Bucket) :
    InUnison rel broken (db.table bucket) (other.table bucket) s t :=
  readTable_inStep reads.readAt related bucket

theorem matchRecord_inStep (reads : ReadsInStep db other rel broken) (related : rel s t)
    (key : ByteArray) (position : Nat) :
    InUnison rel broken (db.matchRecord key position) (other.matchRecord key position) s t := by
  refine (reads.readAt related _ _).bind ?_
  rintro pair s _ t ⟨rfl, related⟩
  dsimp only
  by_cases differs : (Pair.decode pair).1.toNat ≠ key.size
  · rw [if_pos differs, if_pos differs]
    exact inStep_pure ⟨rfl, related⟩
  rw [if_neg differs, if_neg differs]
  refine (reads.keyMatches related _ _).bind ?_
  rintro same s _ t ⟨rfl, related⟩
  cases same with
  | false => exact inStep_pure ⟨rfl, related⟩
  | true =>
    rw [if_pos rfl, if_pos rfl]
    by_cases near : position + recordHeaderSize + key.size ≤ Position.limit
    · rw [if_pos near, if_pos near]
      exact inStep_pure ⟨rfl, related⟩
    · rw [if_neg near, if_neg near]
      exact inStep_throw related

theorem search_inStep (reads : ReadsInStep db other rel broken) (key : ByteArray) (count : Nat)
    (probe : Probe) (related : rel s t) :
    InUnison rel broken (db.search key count probe) (other.search key count probe) s t := by
  induction count generalizing probe s t with
  | zero => exact inStep_pure ⟨rfl, related⟩
  | succ count ih =>
    refine (reads.readAt related _ _).bind ?_
    rintro pair s _ t ⟨rfl, related⟩
    dsimp only
    by_cases vacant : (Slot.decode pair).isEmpty = true
    · rw [if_pos vacant, if_pos vacant]
      exact inStep_pure ⟨rfl, related⟩
    rw [if_neg vacant, if_neg vacant]
    by_cases differs : (Slot.decode pair).hash ≠ probe.step.hash
    · rw [if_pos differs, if_pos differs]
      exact ih probe.step related
    rw [if_neg differs, if_neg differs]
    refine (reads.matchRecord_inStep related _ _).bind ?_
    rintro found s _ t ⟨rfl, related⟩
    cases found with
    | none => exact ih probe.step related
    | some data => exact inStep_pure ⟨rfl, related⟩

theorem resume_inStep (reads : ReadsInStep db other rel broken) (key : ByteArray) (probe : Probe)
    (related : rel s t) :
    InUnison rel broken (db.resume key probe) (other.resume key probe) s t := by
  refine (reads.search_inStep key _ probe related).bind ?_
  rintro found s _ t ⟨rfl, related⟩
  cases found <;> exact inStep_pure ⟨rfl, related⟩

theorem proceed_inStep (reads : ReadsInStep db other rel broken) (key : ByteArray)
    (progress : Progress) (related : rel s t) :
    InUnison rel broken (db.proceed key progress) (other.proceed key progress) s t := by
  cases progress with
  | done => exact inStep_pure ⟨rfl, related⟩
  | probing probe => exact reads.resume_inStep key probe related
  | fresh =>
    refine (reads.table_inStep related _).bind ?_
    rintro table s _ t ⟨rfl, related⟩
    by_cases none : table.slots = 0
    · rw [if_pos none, if_pos none]
      exact inStep_pure ⟨rfl, related⟩
    · rw [if_neg none, if_neg none]
      exact reads.resume_inStep key _ related

end lookups

/-! ## Calls on a cursor -/

section calls
variable {σ τ : Type} {db : Database σ} {other : Database τ} {rel : σ → τ → Prop}
variable {broken : DbError → σ → Prop} {s : σ} {t : τ}

theorem findNext_inStep (reads : ReadsInStep db other rel broken) (key : ByteArray) (cursor : Cursor)
    (related : rel s t) :
    InUnison (OnSecond rel) (fun e state => broken e state.2) (db.findNext key)
      (other.findNext key) (cursor, s) (cursor, t) := by
  rcases (reads.proceed_inStep key cursor.progress related).cases with
    ⟨⟨progress, found⟩, s', _, t', eq, eq', rfl, related⟩ | ⟨e, s', t', eq, eq', related⟩ |
    ⟨e, s', eq, alone⟩
  · exact inStep_of_ok (Database.findNext_ok eq) (Database.findNext_ok eq') ⟨rfl, rfl, related⟩
  · exact inStep_of_error (Database.findNext_error eq) (Database.findNext_error eq') ⟨rfl, related⟩
  · exact inStep_of_broken (Database.findNext_error eq) alone

theorem locate_inStep (reads : ReadsInStep db other rel broken) (key : ByteArray) (related : rel s t) :
    InUnison rel broken (db.locate key) (other.locate key) s t := by
  have found := reads.findNext_inStep key .fresh related
  refine InStep.within (InStep.of_eq (found.mono ?_ ?_ ?_) rfl rfl)
  · exact fun _ _ _ _ h => ⟨h.1, h.2.2⟩
  · exact fun _ _ _ h => h.2
  · exact fun _ _ h => h

theorem get_inStep (reads : ReadsInStep db other rel broken) (key : ByteArray) (related : rel s t) :
    InUnison rel broken (db.get key) (other.get key) s t := by
  refine (reads.locate_inStep key related).bind ?_
  rintro found s _ t ⟨rfl, related⟩
  cases found with
  | none => exact inStep_pure ⟨rfl, related⟩
  | some data =>
    refine (reads.readAt related _ _).bind ?_
    rintro value s _ t ⟨rfl, related⟩
    exact inStep_pure ⟨rfl, related⟩

theorem contains_inStep (reads : ReadsInStep db other rel broken) (key : ByteArray)
    (related : rel s t) :
    InUnison rel broken (db.contains key) (other.contains key) s t := by
  refine (reads.locate_inStep key related).bind ?_
  rintro found s _ t ⟨rfl, related⟩
  exact inStep_pure ⟨rfl, related⟩

theorem nextData_inStep (reads : ReadsInStep db other rel broken) (key : ByteArray) (cursor : Cursor)
    (related : rel s t) :
    InUnison (OnSecond rel) (fun e state => broken e state.2) (db.nextData key)
      (other.nextData key) (cursor, s) (cursor, t) := by
  refine (reads.findNext_inStep key cursor related).bind ?_
  rintro found ⟨next, s⟩ _ ⟨_, t⟩ ⟨rfl, rfl, related⟩
  cases found with
  | none => exact inStep_pure ⟨rfl, rfl, related⟩
  | some data =>
    refine (reads.readAt related _ _).onSecond.bind ?_
    rintro value state _ state' ⟨rfl, related⟩
    exact inStep_pure ⟨rfl, related⟩

end calls

/-! ## The values of a key -/

theorem nextValue_inStep {σ τ : Type} {db : Database σ} {other : Database τ} {rel : σ → τ → Prop}
    {broken : DbError → σ → Prop} (reads : ReadsInStep db other rel broken) (key : ByteArray)
    (state : Values × σ) (state' : Values × τ) (related : OnSecond rel state state') :
    Walk.InStep (db.nextValue key) (other.nextValue key) (OnSecond rel)
      (fun e state => broken e state.2) state state' := by
  obtain ⟨⟨cursor, failed⟩, s⟩ := state
  obtain ⟨_, t⟩ := state'
  obtain ⟨rfl, related⟩ := related
  cases failed with
  | true => exact .inl ⟨rfl, rfl, related⟩
  | false =>
    rcases (reads.nextData_inStep key cursor related).cases with
      ⟨found, ⟨next, s'⟩, _, ⟨_, t'⟩, eq, eq', rfl, rfl, related⟩ |
      ⟨e, ⟨next, s'⟩, ⟨_, t'⟩, eq, eq', rfl, related⟩ | ⟨e, ⟨next, s'⟩, eq, alone⟩
    · left
      cases found <;> simp only [Database.nextValue, eq, eq'] <;> exact ⟨rfl, rfl, related⟩
    · left
      simp only [Database.nextValue, eq, eq']
      exact ⟨rfl, rfl, related⟩
    · refine .inr ⟨e, (⟨next, true⟩, s'), ?_, alone, rfl⟩
      simp only [Database.nextValue, eq]
      rfl

end ReadsInStep

/-! ## The end of the values -/

namespace Database

variable {σ : Type} {db : Database σ} {key : ByteArray} {s t : σ}

theorem progress_of_resume_none {probe : Probe} {progress : Progress}
    (ended : db.resume key probe s = .ok (progress, none) t) : progress = .done := by
  rw [resume, Effect.bind_apply] at ended
  cases eq : db.search key probe.remaining probe s with
  | error e t => rw [eq] at ended; cases ended
  | ok found t =>
    rw [eq] at ended
    cases found <;> cases ended
    rfl

theorem progress_of_proceed_none {progress next : Progress}
    (ended : db.proceed key progress s = .ok (next, none) t) : next = .done := by
  cases progress with
  | done => cases ended; rfl
  | probing probe => exact progress_of_resume_none ended
  | fresh =>
    rw [proceed, Effect.bind_apply] at ended
    cases eq : db.table (Hash.ofKey key).bucket s with
    | error e t => rw [eq] at ended; cases ended
    | ok table u =>
      rw [eq] at ended
      dsimp only at ended
      by_cases none : table.slots = 0
      · rw [if_pos none] at ended
        cases ended
        rfl
      · rw [if_neg none] at ended
        exact progress_of_resume_none ended

theorem cursor_of_findNext_none {cursor next : Cursor}
    (ended : db.findNext key (cursor, s) = .ok none (next, t)) : next = ⟨.done, none⟩ := by
  cases eq : db.proceed key cursor.progress s with
  | error e u =>
    rw [findNext_error eq] at ended
    cases ended
  | ok found u =>
    obtain ⟨progress, found⟩ := found
    rw [findNext_ok eq] at ended
    cases ended
    rw [progress_of_proceed_none eq]

theorem findNext_of_nextData_none {cursor : Cursor} {state : Cursor × σ}
    (ended : db.nextData key (cursor, s) = .ok none state) :
    db.findNext key (cursor, s) = .ok none state := by
  rw [nextData, Effect.bind_apply] at ended
  cases eq : db.findNext key (cursor, s) with
  | error e u => rw [eq] at ended; cases ended
  | ok found u =>
    rw [eq] at ended
    cases found with
    | none => cases ended; rfl
    | some data =>
      dsimp only at ended
      rw [Effect.bind_apply] at ended
      cases read : Effect.onSecond (db.readAt data.position data.length) u with
      | error e v => rw [read] at ended; cases ended
      | ok value v => rw [read] at ended; cases ended

/-- A walk over the values of a key that has ended does not start again. -/
theorem nextValue_settles (db : Database σ) (key : ByteArray) :
    Walk.Settles (db.nextValue key) := by
  rintro ⟨⟨cursor, failed⟩, s⟩ u ended
  cases failed with
  | true => cases ended; rfl
  | false =>
    rw [nextValue, if_neg Bool.false_ne_true] at ended
    cases eq : db.nextData key (cursor, s) with
    | error e v => rw [eq] at ended; cases ended
    | ok value v =>
      obtain ⟨next, t⟩ := v
      rw [eq] at ended
      cases value with
      | some value => cases ended
      | none =>
        cases ended
        rw [cursor_of_findNext_none (findNext_of_nextData_none eq)]
        rfl

theorem nextValue_halts (db : Database σ) (key : ByteArray) : Walk.Halts (db.nextValue key) := by
  intro state e u failed
  obtain ⟨⟨cursor, halted⟩, s⟩ := state
  cases halted with
  | true => cases failed
  | false =>
    rw [nextValue, if_neg Bool.false_ne_true] at failed
    cases eq : db.nextData key (cursor, s) with
    | ok value v =>
      rw [eq] at failed
      cases value <;> cases failed
    | error e v =>
      rw [eq] at failed
      cases failed
      rfl

/-! A match uses up slots, and a walk over values ends when none are left. -/

theorem remaining_of_search_some {count : Nat} {probe next : Probe} {data : DataRef}
    (le : count ≤ probe.remaining) (found : db.search key count probe s = .ok (some (next, data)) t) :
    next.remaining < probe.remaining := by
  induction count generalizing probe s with
  | zero => cases found
  | succ count ih =>
    have less := probe.remaining_step
    rw [search_succ] at found
    split at found
    · cases found
    · cases found
    · cases found
      omega
    · have := ih (by omega) found
      omega

theorem remaining_of_resume_some {probe : Probe} {progress : Progress} {data : DataRef}
    (found : db.resume key probe s = .ok (progress, some data) t) :
    (⟨progress, some data⟩ : Cursor).remaining < probe.remaining := by
  obtain ⟨answer, u, searched, eq⟩ := Effect.bind_eq_ok_iff.1 found
  cases answer with
  | none => cases eq
  | some answer =>
    cases eq
    exact remaining_of_search_some (Nat.le_refl _) searched

theorem remaining_of_proceed_some {cursor : Cursor} {progress : Progress} {data : DataRef}
    (found : db.proceed key cursor.progress s = .ok (progress, some data) t) :
    (⟨progress, some data⟩ : Cursor).remaining < cursor.remaining := by
  unfold Cursor.remaining at *
  cases start : cursor.progress with
  | done =>
    rw [start] at found
    cases found
  | probing probe =>
    rw [start] at found
    exact remaining_of_resume_some found
  | fresh =>
    rw [start] at found
    obtain ⟨table, u, -, eq⟩ := Effect.bind_eq_ok_iff.1 found
    by_cases none : table.slots = 0
    · rw [if_pos none] at eq
      cases eq
    · rw [if_neg none] at eq
      have fewer := remaining_of_resume_some eq
      have few : (Probe.enter (Hash.ofKey key) table).remaining ≤ Position.limit :=
        Nat.le_of_lt_succ (UInt32.toNat_lt table.slots)
      exact Nat.lt_of_lt_of_le fewer few

theorem remaining_of_findNext_some {cursor next : Cursor} {data : DataRef}
    (found : db.findNext key (cursor, s) = .ok (some data) (next, t)) :
    next.remaining < cursor.remaining := by
  cases eq : db.proceed key cursor.progress s with
  | error e u =>
    rw [findNext_error eq] at found
    cases found
  | ok answer u =>
    obtain ⟨progress, answer⟩ := answer
    rw [findNext_ok eq] at found
    cases found
    exact remaining_of_proceed_some eq

theorem nextValue_lessens {state next : Values × σ} {value : ByteArray}
    (found : db.nextValue key state = (some (.ok value), next)) :
    next.1.cursor.remaining < state.1.cursor.remaining := by
  obtain ⟨⟨cursor, halted⟩, s⟩ := state
  cases halted with
  | true => cases found
  | false =>
    rw [nextValue, if_neg Bool.false_ne_true] at found
    cases eq : db.nextData key (cursor, s) with
    | error e v =>
      rw [eq] at found
      cases found
    | ok value v =>
      rw [eq] at found
      cases value with
      | none => cases found
      | some value =>
        cases found
        obtain ⟨data, u, matched, rest⟩ := Effect.bind_eq_ok_iff.1 eq
        cases data with
        | none => cases rest
        | some data =>
          obtain ⟨bytes, w, read, rest⟩ := Effect.bind_eq_ok_iff.1 rest
          cases rest
          obtain ⟨first, second⟩ := u
          -- reading the data does not move the cursor
          have kept : v.1 = first := by
            simp only [Effect.onSecond, Effect.within] at read
            cases at_data : db.readAt data.position data.length second with
            | error e w =>
              rw [at_data] at read
              cases read
            | ok found w =>
              rw [at_data] at read
              cases read
              rfl
          rw [kept]
          exact remaining_of_findNext_some matched

theorem restValues_over (db : Database σ) (key : ByteArray) (values : Values) (s : σ) :
    Walk.Over (db.nextValue key) (db.restValues key values s).2 := by
  apply Walk.over_items_of_lessens (fun state => state.1.cursor.remaining)
    (nextValue_settles db key) (nextValue_halts db key)
  · exact fun _ _ _ found => nextValue_lessens found
  · exact Nat.lt_succ_self _

end Database

end ConstDb
