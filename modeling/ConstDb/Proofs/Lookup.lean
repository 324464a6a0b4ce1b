import ConstDb.Proofs.Index.SlotTable
import ConstDb.Proofs.Layout
import ConstDb.Proofs.Reading

/-!
# Lookups call by call

A cursor carries a lookup from call to call. `answers` says what successive calls answer when the
slots of a table are judged in the order of the probe, and `examined` how many of them are looked at.
Main statement: `findNexts_positioned`, which holds for any bytes whatever.
-/

namespace ConstDb

open Lookup

/-! ## Verdicts in a row -/

namespace Lookup

/-- What successive calls answer about slots with these verdicts. -/
def answers : List Verdict → (calls : Nat) → List (Except DbError (Option DataRef))
  | [], calls => List.replicate calls (.ok none)
  | .vacant :: _, calls => List.replicate calls (.ok none)
  | .cut cause :: _, calls => List.replicate calls (.error (.truncated cause))
  | .passed :: rest, calls => answers rest calls
  | .matched _ :: _, 0 => []
  | .matched data :: rest, calls + 1 => .ok (some data) :: answers rest calls

def examined : List Verdict → (calls : Nat) → Nat
  | _, 0 => 0
  | [], _ => 0
  | .vacant :: _, _ + 1 => 1
  | .cut _ :: _, _ + 1 => 1
  | .passed :: rest, calls + 1 => examined rest (calls + 1) + 1
  | .matched _ :: rest, calls + 1 => examined rest calls + 1

/-- One call: how many slots it looks at, and the verdict that ends it. A table that is exhausted
ends a call like a slot that holds nothing. -/
def scan : List Verdict → Nat × Verdict
  | [] => (0, .vacant)
  | .passed :: rest => ((scan rest).1 + 1, (scan rest).2)
  | .vacant :: _ => (1, .vacant)
  | .matched data :: _ => (1, .matched data)
  | .cut cause :: _ => (1, .cut cause)

theorem scan_le (verdicts : List Verdict) : (scan verdicts).1 ≤ verdicts.length := by
  induction verdicts with
  | nil => exact Nat.le_refl 0
  | cons verdict rest ih =>
    cases verdict with
    | passed => exact Nat.succ_le_succ ih
    | vacant | matched | cut => exact Nat.succ_le_succ (Nat.zero_le _)

theorem examined_le (verdicts : List Verdict) : ∀ calls, examined verdicts calls ≤ verdicts.length := by
  induction verdicts with
  | nil => intro calls; cases calls <;> exact Nat.le_refl 0
  | cons verdict rest ih =>
    intro calls
    cases calls with
    | zero => cases verdict <;> exact Nat.zero_le _
    | succ calls =>
      cases verdict with
      | passed => exact Nat.succ_le_succ (ih (calls + 1))
      | matched data => exact Nat.succ_le_succ (ih calls)
      | vacant | cut => exact Nat.succ_le_succ (Nat.zero_le _)

theorem answers_nil (calls : Nat) : answers [] calls = List.replicate calls (.ok none) := by
  cases calls <;> rfl

theorem answers_zero (verdicts : List Verdict) : answers verdicts 0 = [] := by
  induction verdicts with
  | nil => rfl
  | cons verdict rest ih =>
    cases verdict with
    | passed => exact ih
    | vacant | matched | cut => rfl

theorem examined_zero (verdicts : List Verdict) : examined verdicts 0 = 0 := by
  cases verdicts with
  | nil => rfl
  | cons verdict rest => cases verdict <;> rfl

theorem scan_ne_passed (verdicts : List Verdict) : (scan verdicts).2 ≠ .passed := by
  induction verdicts with
  | nil => exact Verdict.noConfusion
  | cons verdict rest ih =>
    cases verdict with
    | passed => exact ih
    | vacant | matched | cut => exact Verdict.noConfusion

section ends
variable {verdicts : List Verdict}

theorem answers_of_vacant (ends : (scan verdicts).2 = .vacant) (calls : Nat) :
    answers verdicts calls = List.replicate calls (.ok none) := by
  induction verdicts with
  | nil => exact answers_nil calls
  | cons verdict rest ih =>
    cases verdict with
    | passed => exact ih ends
    | vacant => cases calls <;> rfl
    | matched | cut => cases ends

theorem answers_of_cut {cause : Truncation} (ends : (scan verdicts).2 = .cut cause) (calls : Nat) :
    answers verdicts calls = List.replicate calls (.error (.truncated cause)) := by
  induction verdicts with
  | nil => cases ends
  | cons verdict rest ih =>
    cases verdict with
    | passed => exact ih ends
    | cut => cases ends; cases calls <;> rfl
    | matched | vacant => cases ends

theorem answers_of_matched {data : DataRef} (ends : (scan verdicts).2 = .matched data) (calls : Nat) :
    answers verdicts (calls + 1) =
      .ok (some data) :: answers (verdicts.drop (scan verdicts).1) calls := by
  induction verdicts with
  | nil => cases ends
  | cons verdict rest ih =>
    cases verdict with
    | passed => exact ih ends
    | matched => cases ends; rfl
    | cut | vacant => cases ends

theorem examined_of_vacant (ends : (scan verdicts).2 = .vacant) (calls : Nat) :
    examined verdicts (calls + 1) = (scan verdicts).1 := by
  induction verdicts with
  | nil => rfl
  | cons verdict rest ih =>
    cases verdict with
    | passed => exact congrArg (· + 1) (ih ends)
    | vacant => rfl
    | matched | cut => cases ends

theorem examined_of_matched {data : DataRef} (ends : (scan verdicts).2 = .matched data)
    (calls : Nat) : examined verdicts (calls + 1) =
      (scan verdicts).1 + examined (verdicts.drop (scan verdicts).1) calls := by
  induction verdicts with
  | nil => cases ends
  | cons verdict rest ih =>
    cases verdict with
    | passed => exact (congrArg (· + 1) (ih ends)).trans (Nat.add_right_comm ..)
    | matched => exact Nat.add_comm ..
    | cut | vacant => cases ends

end ends

end Lookup

/-! ## The slots of a probe -/

namespace Probe

def after (hash : Hash) (table : TableRef) (visited : Nat) : Probe :=
  ⟨hash, table.offset.toNat, table.slots.toNat,
    table.slotPosition (SlotTable.probeIndex hash table.slots.toNat visited), visited⟩

theorem enter_eq (hash : Hash) (table : TableRef) : enter hash table = after hash table 0 := by
  rw [enter, after, TableRef.slotPosition, SlotTable.probeIndex_zero, Nat.mul_comm]

theorem remaining_step (probe : Probe) : probe.step.remaining = probe.remaining - 1 :=
  Nat.sub_add_eq ..

theorem step_after (hash : Hash) {table : TableRef} (some : 0 < table.slots.toNat) (visited : Nat) :
    (after hash table visited).step = after hash table (visited + 1) := by
  have next := SlotTable.successor_probeIndex hash some visited
  unfold step after stop TableRef.slotPosition
  dsimp only
  rw [← next, SlotTable.successor, Nat.mul_comm table.slots.toNat, Nat.add_assoc, ← Nat.mul_succ]
  by_cases last : SlotTable.probeIndex hash table.slots.toNat visited + 1 = table.slots.toNat
  · rw [if_pos (by rw [Nat.succ_eq_add_one, last]), if_pos last, Nat.mul_zero]
    rfl
  · rw [if_neg last, if_neg]
    intro eq
    exact last (Nat.eq_of_mul_eq_mul_left (by decide : 0 < Pair.size) (Nat.add_left_cancel eq))

end Probe

/-! ## One call -/

namespace Lookup

abbrev Found := Verdict × List Range

def verdicts (slots : List Found) : List Verdict := slots.map Prod.fst

def ranges (slots : List Found) : List Range := slots.flatMap Prod.snd

/-- The slots from `visited` on are found by each of their examinations. -/
def Finds {σ : Type} (db : Database σ) (key : ByteArray) (table : TableRef) (holds : σ → Prop)
    (note : σ → Range → σ) (slots : List Found) (visited : Nat) : Prop :=
  ∀ {index slot}, slots[index]? = some slot → ∀ s, holds s →
    db.examine key (Hash.ofKey key) (table.slotPosition
      (SlotTable.probeIndex (Hash.ofKey key) table.slots.toNat (visited + index))) s =
        slot.1.result (slot.2.foldl note s)

def searched {σ : Type} (hash : Hash) (table : TableRef) (visited : Nat) (verdict : Verdict) (s : σ) :
    EStateM.Result DbError σ (Option (Probe × DataRef)) :=
  match verdict with
  | .matched data => .ok (some (.after hash table visited, data)) s
  | .cut cause => .error (.truncated cause) s
  | _ => .ok none s

section calls
variable {σ : Type} {db : Database σ} {bytes key : ByteArray} {table : TableRef}
variable {holds : σ → Prop} {note : σ → Range → σ} {s : σ}

theorem Finds.tail {slot₀ : Found} {slots : List Found} {visited : Nat}
    (finds : Finds db key table holds note (slot₀ :: slots) visited) :
    Finds db key table holds note slots (visited + 1) := by
  intro index slot at_index
  have at_next : (slot₀ :: slots)[index + 1]? = some slot := at_index
  have := finds at_next
  rwa [← Nat.add_assoc, Nat.add_right_comm] at this

theorem Finds.drop {slots : List Found} {visited : Nat}
    (finds : Finds db key table holds note slots visited) (count : Nat) :
    Finds db key table holds note (slots.drop count) (visited + count) := by
  intro index slot at_index
  rw [List.getElem?_drop] at at_index
  have := finds at_index
  rwa [← Nat.add_assoc] at this

theorem search_eq (serves : Serves db bytes holds note) (some : 0 < table.slots.toNat)
    {slots : List Found} {visited : Nat} (finds : Finds db key table holds note slots visited)
    (h : holds s) :
    db.search key slots.length (.after (Hash.ofKey key) table visited) s =
      searched (Hash.ofKey key) table (visited + (scan (verdicts slots)).1)
        (scan (verdicts slots)).2
        ((ranges (slots.take (scan (verdicts slots)).1)).foldl note s) := by
  induction slots generalizing visited s with
  | nil => rfl
  | cons slot slots ih =>
    obtain ⟨verdict, read⟩ := slot
    have first : ((verdict, read) :: slots)[0]? = Option.some (verdict, read) := rfl
    have here := finds first s h
    have more : ∀ count, (ranges (((verdict, read) :: slots).take (count + 1))).foldl note s =
        (ranges (slots.take count)).foldl note (read.foldl note s) := by
      intro count
      rw [List.take_succ_cons, ranges, List.flatMap_cons, List.foldl_append]
      rfl
    have one := more 0
    rw [List.take_zero] at one
    rw [Nat.add_zero] at here
    rw [List.length_cons, Database.search_succ, Probe.after]
    dsimp only
    rw [here]
    -- only a slot that is passed leaves anything to the slots behind it
    cases verdict with
    | passed =>
      have next := ih finds.tail (serves.holds_foldl h read)
      rw [← Probe.step_after _ some, Nat.add_assoc, Nat.add_comm 1, ← more] at next
      exact next
    | matched data =>
      rw [verdicts, List.map_cons]
      unfold scan searched
      rw [one, ← Probe.step_after _ some]
      rfl
    | vacant | cut =>
      rw [verdicts, List.map_cons]
      unfold scan
      rw [one]
      rfl

/-- What a call of a lookup starts from: the slots still ahead of it, how many are behind it, and
what it reads before it looks at a slot. -/
inductive Ahead (key : ByteArray) (table : TableRef) :
    Progress → List Found → Nat → List Range → Prop where
  | fresh {slots} : slots.length = table.slots.toNat →
    Ahead key table .fresh slots 0 [(TableRef.position (Hash.ofKey key).bucket, Pair.size)]
  | probing {slots visited} : visited + slots.length = table.slots.toNat → 0 < table.slots.toNat →
    Ahead key table (.probing (.after (Hash.ofKey key) table visited)) slots visited []
  | done {visited} : Ahead key table .done [] visited []

def proceeded (hash : Hash) (table : TableRef) (visited : Nat) (verdict : Verdict) (s : σ) :
    EStateM.Result DbError σ (Progress × Option DataRef) :=
  match verdict with
  | .matched data => .ok (.probing (.after hash table visited), some data) s
  | .cut cause => .error (.truncated cause) s
  | _ => .ok (.done, none) s

theorem resume_eq (serves : Serves db bytes holds note) (some : 0 < table.slots.toNat)
    {slots : List Found} {visited : Nat} (all : visited + slots.length = table.slots.toNat)
    (finds : Finds db key table holds note slots visited) (h : holds s) :
    db.resume key (.after (Hash.ofKey key) table visited) s =
      proceeded (Hash.ofKey key) table (visited + (scan (verdicts slots)).1)
        (scan (verdicts slots)).2
        ((ranges (slots.take (scan (verdicts slots)).1)).foldl note s) := by
  have left : (Probe.after (Hash.ofKey key) table visited).remaining = slots.length := by
    simp only [Probe.remaining, Probe.after]
    omega
  rw [Database.resume, left, Effect.bind_apply, search_eq serves some finds h]
  cases (scan (verdicts slots)).2 <;> rfl

theorem proceed_eq (serves : Serves db bytes holds note)
    (entry : ∀ s, holds s → db.table (Hash.ofKey key).bucket s =
      .ok table (note s (TableRef.position (Hash.ofKey key).bucket, Pair.size)))
    {progress : Progress} {slots : List Found} {visited : Nat} {first : List Range}
    (ahead : Ahead key table progress slots visited first)
    (finds : Finds db key table holds note slots visited) (h : holds s) :
    db.proceed key progress s =
      proceeded (Hash.ofKey key) table (visited + (scan (verdicts slots)).1)
        (scan (verdicts slots)).2
        ((first ++ ranges (slots.take (scan (verdicts slots)).1)).foldl note s) := by
  cases ahead with
  | done => rfl
  | probing all some => exact resume_eq serves some all finds h
  | fresh all =>
    rw [Database.proceed, Effect.bind_apply, entry s h]
    dsimp only
    by_cases none : table.slots = 0
    · rw [if_pos none]
      rw [none, UInt32.toNat_zero, List.length_eq_zero_iff] at all
      subst all
      rfl
    · have some : 0 < table.slots.toNat := by
        refine Nat.pos_of_ne_zero fun zero => none (UInt32.toNat.inj ?_)
        rw [zero, UInt32.toNat_zero]
      rw [if_neg none, Probe.enter_eq,
        resume_eq serves some (by omega) finds (serves.holds_note h _)]
      rfl

theorem Ahead.next {progress : Progress} {slots : List Found} {visited : Nat} {first : List Range}
    {data : DataRef} (ahead : Ahead key table progress slots visited first)
    (ends : (scan (verdicts slots)).2 = .matched data) :
    Ahead key table (.probing (.after (Hash.ofKey key) table (visited + (scan (verdicts slots)).1)))
      (slots.drop (scan (verdicts slots)).1) (visited + (scan (verdicts slots)).1) [] := by
  have le := scan_le (verdicts slots)
  have length : (verdicts slots).length = slots.length := List.length_map _
  have some : 0 < slots.length := by
    cases slots with
    | nil => cases ends
    | cons => exact Nat.succ_pos _
  have all : visited + slots.length = table.slots.toNat := by
    cases ahead with
    | fresh all => omega
    | probing all => exact all
    | done => cases ends
  refine .probing ?_ ?_
  · rw [List.length_drop]
    omega
  · omega

end calls

end Lookup

/-! ## Successive calls -/

namespace Database

variable {σ : Type}

def findNexts (db : Database σ) (key : ByteArray) :
    (calls : Nat) → Cursor × σ → List (Except DbError (Option DataRef)) × (Cursor × σ)
  | 0, state => ([], state)
  | calls + 1, state =>
    match db.findNext key state with
    | .ok found state =>
      (.ok found :: (findNexts db key calls state).1, (findNexts db key calls state).2)
    | .error e state =>
      (.error e :: (findNexts db key calls state).1, (findNexts db key calls state).2)

theorem findNext_ok {db : Database σ} {key : ByteArray} {cursor : Cursor} {s t : σ}
    {progress : Progress} {found : Option DataRef}
    (eq : db.proceed key cursor.progress s = .ok (progress, found) t) :
    db.findNext key (cursor, s) = .ok found (⟨progress, found⟩, t) := by
  unfold findNext
  dsimp only
  rw [eq]

theorem findNext_error {db : Database σ} {key : ByteArray} {cursor : Cursor} {s t : σ} {e : DbError}
    (eq : db.proceed key cursor.progress s = .error e t) :
    db.findNext key (cursor, s) = .error e (⟨cursor.progress, none⟩, t) := by
  unfold findNext
  dsimp only
  rw [eq]

theorem progress_of_findNext_error {db : Database σ} {key : ByteArray} {state state' : Cursor × σ}
    {e : DbError} (failed : db.findNext key state = .error e state') :
    state'.1.progress = state.1.progress := by
  obtain ⟨cursor, s⟩ := state
  cases eq : db.proceed key cursor.progress s with
  | ok found t =>
    obtain ⟨progress, found⟩ := found
    rw [findNext_ok eq] at failed
    cases failed
  | error e t =>
    rw [findNext_error eq] at failed
    cases failed
    rfl

end Database

namespace Lookup

section runs
variable {σ : Type} {db : Database σ} {bytes key : ByteArray} {table : TableRef}
variable {holds : σ → Prop} {note : σ → Range → σ} {s : σ}

def callRanges (first : List Range) (slots : List Found) (calls : Nat) : List Range :=
  (if calls = 0 then [] else first) ++ ranges (slots.take (examined (verdicts slots) calls))

def Unfailed (results : List (Except DbError (Option DataRef))) : Prop :=
  ∀ result ∈ results, ∃ found, result = .ok found

theorem findNexts_eq (serves : Serves db bytes holds note)
    (entry : ∀ s, holds s → db.table (Hash.ofKey key).bucket s =
      .ok table (note s (TableRef.position (Hash.ofKey key).bucket, Pair.size)))
    (calls : Nat) (cursor : Cursor) {slots : List Found} {visited : Nat} {first : List Range}
    (ahead : Ahead key table cursor.progress slots visited first)
    (finds : Finds db key table holds note slots visited) (h : holds s) :
    (db.findNexts key calls (cursor, s)).1 = answers (verdicts slots) calls ∧
      (Unfailed (answers (verdicts slots) calls) → (db.findNexts key calls (cursor, s)).2.2 =
        (callRanges first slots calls).foldl note s) := by
  induction calls generalizing cursor slots visited first s with
  | zero =>
    refine ⟨(answers_zero _).symm, fun _ => ?_⟩
    rw [callRanges, examined_zero]
    rfl
  | succ calls ih =>
    have proceeds := proceed_eq serves entry ahead finds h
    have after := serves.holds_foldl h (first ++ ranges (slots.take (scan (verdicts slots)).1))
    rw [Database.findNexts]
    cases ends : (scan (verdicts slots)).2 with
    | passed => exact absurd ends (scan_ne_passed _)
    | matched data =>
      rw [ends] at proceeds
      obtain ⟨results, reads⟩ := ih ⟨.probing _, some data⟩ (ahead.next ends)
        (finds.drop _) after
      have rest : verdicts (slots.drop (scan (verdicts slots)).1) =
          (verdicts slots).drop (scan (verdicts slots)).1 := List.map_drop
      rw [rest] at results reads
      rw [Database.findNext_ok proceeds, answers_of_matched ends]
      refine ⟨congrArg _ results, fun unfailed => ?_⟩
      refine (reads fun result member => unfailed result (List.mem_cons_of_mem _ member)).trans ?_
      rw [callRanges, callRanges, examined_of_matched ends, List.take_add, rest, ← List.foldl_append]
      simp [ranges]
    | vacant =>
      rw [ends] at proceeds
      have done : Ahead key table .done [] 0 [] := .done
      obtain ⟨results, reads⟩ := ih ⟨.done, none⟩ done
        (fun {index slot} at_index => by simp at at_index) after
      rw [Database.findNext_ok proceeds, answers_of_vacant ends, List.replicate_succ]
      have none : answers (verdicts []) calls = List.replicate calls (.ok none) := answers_nil calls
      rw [none] at results reads
      refine ⟨congrArg _ results, fun unfailed => ?_⟩
      refine (reads fun result member => unfailed result (List.mem_cons_of_mem _ member)).trans ?_
      rw [callRanges, callRanges, examined_of_vacant ends]
      simp [ranges]
    | cut cause =>
      -- the cursor stays where it is, and the next call meets the same slots again
      rw [ends] at proceeds
      obtain ⟨results, -⟩ := ih ⟨cursor.progress, none⟩ ahead finds after
      rw [answers_of_cut ends] at results
      rw [Database.findNext_error proceeds, answers_of_cut ends, List.replicate_succ]
      refine ⟨congrArg _ results, fun unfailed => ?_⟩
      obtain ⟨found, eq⟩ := unfailed _ (List.mem_cons_self ..)
      cases eq

theorem findNexts_outside (serves : Serves db bytes holds note)
    (outside : bytes.size < TableRef.position (Hash.ofKey key).bucket + Pair.size)
    (calls : Nat) (cursor : Cursor) (fresh : cursor.progress = .fresh) :
    (db.findNexts key calls (cursor, s)).1 = List.replicate calls (.error (.truncated
      (.readPastEnd Pair.size (TableRef.position (Hash.ofKey key).bucket) bytes.size))) := by
  induction calls generalizing cursor with
  | zero => rfl
  | succ calls ih =>
    have proceeds : db.proceed key cursor.progress s = .error (.truncated
        (.readPastEnd Pair.size (TableRef.position (Hash.ofKey key).bucket) bytes.size)) s := by
      rw [fresh, Database.proceed, Effect.bind_apply, Database.table, Effect.bind_apply,
        serves.readAt_outside outside]
    rw [Database.findNexts, Database.findNext_error proceeds, List.replicate_succ]
    exact congrArg _ (ih ⟨cursor.progress, none⟩ fresh)

theorem table_eq (serves : Serves db bytes holds note) {bucket : Bucket}
    (inside : TableRef.position bucket + Pair.size ≤ bytes.size) (h : holds s) :
    db.table bucket s = .ok (Bytes.headerEntry bytes bucket)
      (note s (TableRef.position bucket, Pair.size)) := by
  rw [Database.table, Effect.bind_apply, serves.readAt_inside h inside]
  rfl

theorem slotPositions_nodup (hash : Hash) (table : TableRef) :
    ((List.range table.slots.toNat).map fun index =>
      table.slotPosition (SlotTable.probeIndex hash table.slots.toNat index)).Nodup := by
  refine List.Nodup.map_on (fun i hi j hj same => ?_) List.nodup_range
  rw [List.mem_range] at hi hj
  refine SlotTable.probeIndex_inj hash hi hj ?_
  exact Nat.eq_of_mul_eq_mul_left (by decide : 0 < Pair.size) (Nat.add_left_cancel same)

end runs

/-! ## Any bytes whatever -/

def logRead {σ : Type} (state : Array Range × σ) (range : Range) : Array Range × σ :=
  (state.1.push range, state.2)

theorem foldl_logRead {σ : Type} (log : Array Range) (s : σ) (ranges : List Range) :
    ranges.foldl logRead (log, s) = (log ++ ranges.toArray, s) := by
  induction ranges generalizing log with
  | nil => simp
  | cons range ranges ih =>
    rw [List.foldl_cons, logRead, ih]
    simp

theorem serves_logged (σ : Type) (bytes : ByteArray) :
    Serves (Source.positioned bytes : Database σ).logged bytes (fun _ => True) logRead where
  size_eq := rfl
  read_eq := by
    rintro ⟨log, s⟩ - position length inside
    have read : Source.readBytes bytes position length =
        .ok (bytes.extract position (position + length)) := if_pos inside
    simp only [Source.logged, Source.positioned, read]
    rfl
  holds_note _ _ := trivial

/-- **A lookup trusts nothing.** Successive calls on the bytes of a positioned source look at the
slots of the bucket's table in the order of the probe, answer what `Judged` says of them one by one,
and read what it says and nothing more. -/
theorem findNexts_positioned {σ : Type} (bytes key : ByteArray) (s : σ) :
    let db : Database (Array Range × σ) := (Source.positioned bytes).logged
    let hash := Hash.ofKey key
    let entry := TableRef.position hash.bucket
    let run := fun calls => db.findNexts key calls (.fresh, (#[], s))
    (bytes.size < entry + Pair.size → ∀ calls, (run calls).1 = List.replicate calls
      (.error (.truncated (.readPastEnd Pair.size entry bytes.size)))) ∧
    (entry + Pair.size ≤ bytes.size →
      let table := Bytes.headerEntry bytes hash.bucket
      let position := fun index =>
        table.slotPosition (SlotTable.probeIndex hash table.slots.toNat index)
      ((List.range table.slots.toNat).map position).Nodup ∧
      ∃ slots : List Found, slots.length = table.slots.toNat ∧
        (∀ index slot, slots[index]? = some slot →
          Judged bytes key (position index) slot.1 slot.2) ∧
        ∀ calls, (run calls).1 = answers (verdicts slots) calls ∧
          examined (verdicts slots) calls ≤ table.slots.toNat ∧
          (Unfailed (run calls).1 → (run calls).2.2.1.toList =
            (if calls = 0 then [] else [(entry, Pair.size)]) ++
              ranges (slots.take (examined (verdicts slots) calls)))) ∧
    ∀ state e state', db.findNext key state = .error e state' →
      state'.1.progress = state.1.progress := by
  intro db hash entry run
  have serves := serves_logged σ bytes
  refine ⟨fun outside calls => findNexts_outside serves outside calls .fresh rfl, fun inside => ?_,
    fun _ _ _ => Database.progress_of_findNext_error⟩
  intro table position
  refine ⟨slotPositions_nodup hash table, ?_⟩
  choose verdict read judged found using exists_judged serves (fun _ _ => rfl) key
  let slots : List Found := (List.range table.slots.toNat).map fun index =>
    (verdict (position index), read (position index))
  have length : slots.length = table.slots.toNat := by simp [slots]
  have at_index : ∀ {index slot}, slots[index]? = some slot →
      slot = (verdict (position index), read (position index)) := by
    intro index slot at_index
    rw [List.getElem?_map] at at_index
    obtain ⟨place, at_place, rfl⟩ := Option.map_eq_some_iff.1 at_index
    obtain ⟨-, rfl⟩ := List.getElem?_eq_some_iff.1 at_place
    rw [List.getElem_range]
  refine ⟨slots, length, fun index slot eq => ?_, fun calls => ?_⟩
  · rw [at_index eq]
    exact judged _
  have finds : Finds db key table (fun _ => True) logRead slots 0 := by
    intro index slot eq state _
    rw [at_index eq, Nat.zero_add]
    exact found _ _ trivial
  obtain ⟨results, reads⟩ := findNexts_eq serves (fun _ h => table_eq serves inside h) calls
    .fresh (s := (#[], s)) (.fresh length) finds trivial
  refine ⟨results, ?_, fun unfailed => ?_⟩
  · have le := examined_le (verdicts slots) calls
    rwa [verdicts, List.length_map, length] at le
  · have log := reads (results ▸ unfailed)
    rw [foldl_logRead] at log
    have := congrArg (fun state => state.1.toList) log
    simpa [callRanges] using this

end Lookup

end ConstDb
