import ConstDb.Database.Lookup
import ConstDb.Proofs.Bytes
import ConstDb.Proofs.Effect

/-!
# Reading from bytes

What a lookup makes of one slot, when the source holds some bytes and does not fail. `Judged` says
it of any bytes: nothing in them is trusted. Main statement: `exists_judged`, by which a lookup
that looks at a slot finds what `Judged` says and reads just that much.
-/

namespace ConstDb

def Bytes.pairAt (bytes : ByteArray) (position : Nat) : ByteArray :=
  bytes.extract position (position + Pair.size)

/-! ## Sources that hold bytes -/

abbrev Range := Nat × Nat

/-- A source that holds `bytes` and does not fail, as long as its state satisfies `holds`. A read
changes the state as `note` says. -/
structure Serves {σ : Type} (db : Database σ) (bytes : ByteArray) (holds : σ → Prop)
    (note : σ → Range → σ) : Prop where
  size_eq : db.size = bytes.size
  read_eq : ∀ {s}, holds s → ∀ {position length}, position + length ≤ bytes.size →
    db.read position length s =
      .ok (bytes.extract position (position + length)) (note s (position, length))
  holds_note : ∀ {s}, holds s → ∀ range, holds (note s range)

namespace Serves

variable {σ : Type} {db : Database σ} {bytes : ByteArray} {holds : σ → Prop}
variable {note : σ → Range → σ} {s : σ}

theorem holds_foldl (serves : Serves db bytes holds note) (h : holds s) (ranges : List Range) :
    holds (ranges.foldl note s) := by
  induction ranges generalizing s with
  | nil => exact h
  | cons range ranges ih => exact ih (serves.holds_note h range)

theorem readAt_inside (serves : Serves db bytes holds note) (h : holds s) {position length : Nat}
    (inside : position + length ≤ bytes.size) : db.readAt position length s =
      .ok (bytes.extract position (position + length)) (note s (position, length)) := by
  have check : db.checkRange position length = .ok () := by
    rw [Database.checkRange, serves.size_eq, if_pos inside]
  rw [Database.readAt, check, Effect.bind_apply, Effect.ofExcept_ok]
  dsimp only
  rw [Effect.adaptExcept_apply, serves.read_eq h inside]

theorem readAt_outside (serves : Serves db bytes holds note) {position length : Nat}
    (outside : bytes.size < position + length) : db.readAt position length s =
      .error (.truncated (.readPastEnd length position bytes.size)) s := by
  have check : db.checkRange position length =
      .error (.truncated (.readPastEnd length position bytes.size)) := by
    rw [Database.checkRange, serves.size_eq, if_neg (Nat.not_le_of_lt outside)]
  rw [Database.readAt, check, Effect.bind_apply, Effect.ofExcept_error]

end Serves

/-! ## Comparing keys piece by piece -/

namespace Lookup

def keyPiece (key : ByteArray) (index : Nat) : ByteArray :=
  key.extract (index * Database.compareLength)
    (index * Database.compareLength + Database.compareLength)

def pieceCount (key : ByteArray) : Nat :=
  (key.size + Database.compareLength - 1) / Database.compareLength

def piecePosition (position index : Nat) : Nat := position + index * Database.compareLength

def pieceRanges (key : ByteArray) (position count : Nat) : List Range :=
  (List.range count).map fun index => (piecePosition position index, (keyPiece key index).size)

/-- How a key compares with what stands at a position, and what is read to find out: nothing behind
the first piece that differs or lies outside. -/
inductive Compared (bytes key : ByteArray) (position : Nat) :
    Except Truncation Bool → List Range → Prop where
  | same : Bytes.StandsAt bytes position key →
    Compared bytes key position (.ok true) (pieceRanges key position (pieceCount key))
  | differs {index : Nat} : index < pieceCount key →
    Bytes.StandsAt bytes position (key.extract 0 (index * Database.compareLength)) →
    piecePosition position index + (keyPiece key index).size ≤ bytes.size →
    ¬ Bytes.StandsAt bytes (piecePosition position index) (keyPiece key index) →
    Compared bytes key position (.ok false) (pieceRanges key position (index + 1))
  | cut {index : Nat} : index < pieceCount key →
    Bytes.StandsAt bytes position (key.extract 0 (index * Database.compareLength)) →
    bytes.size < piecePosition position index + (keyPiece key index).size →
    Compared bytes key position
      (.error (.readPastEnd (keyPiece key index).size (piecePosition position index) bytes.size))
      (pieceRanges key position index)

def comparison {σ : Type} (answer : Except Truncation Bool) (s : σ) : EStateM.Result DbError σ Bool :=
  match answer with
  | .ok same => .ok same s
  | .error cause => .error (.truncated cause) s

theorem chunks_eq (key : ByteArray) :
    Bytes.chunks Database.compareLength key = (List.range (pieceCount key)).map (keyPiece key) := rfl

theorem pieceRanges_succ (key : ByteArray) (position count : Nat) :
    pieceRanges key position (count + 1) = pieceRanges key position count ++
      [(piecePosition position count, (keyPiece key count).size)] := by
  unfold pieceRanges
  rw [List.range_succ, List.map_append, List.map_singleton]

theorem lt_size_of_lt_pieceCount {key : ByteArray} {index : Nat} (lt : index < pieceCount key) :
    index * Database.compareLength < key.size := by
  simp only [pieceCount, Database.compareLength] at lt ⊢
  omega

theorem size_keyPiece_of_lt {key : ByteArray} {index : Nat} (lt : index + 1 < pieceCount key) :
    (keyPiece key index).size = Database.compareLength := by
  have := lt_size_of_lt_pieceCount lt
  simp only [keyPiece, ByteArray.size_extract, Database.compareLength] at this ⊢
  omega

theorem extract_pieceCount (key : ByteArray) :
    key.extract 0 (pieceCount key * Database.compareLength) = key := by
  have le : key.size ≤ pieceCount key * Database.compareLength := by
    simp only [pieceCount, Database.compareLength]
    omega
  have whole := ByteArray.extract_zero_max_size (a := key)
    (i := pieceCount key * Database.compareLength)
  rwa [Nat.max_eq_left le] at whole

theorem standsAt_succ {bytes key : ByteArray} {position index : Nat} (lt : index < pieceCount key)
    (before : Bytes.StandsAt bytes position (key.extract 0 (index * Database.compareLength)))
    (here : Bytes.StandsAt bytes (piecePosition position index) (keyPiece key index)) :
    Bytes.StandsAt bytes position (key.extract 0 ((index + 1) * Database.compareLength)) := by
  have size : (key.extract 0 (index * Database.compareLength)).size =
      index * Database.compareLength := by
    have := lt_size_of_lt_pieceCount lt
    rw [ByteArray.size_extract]
    omega
  have stands := before.append (by rw [size]; exact here)
  rw [keyPiece, ByteArray.extract_append_extract, Nat.min_eq_left (Nat.zero_le _),
    Nat.max_eq_right (Nat.le_add_right ..), ← Nat.succ_mul] at stands
  exact stands

variable {σ : Type} {db : Database σ} {bytes key : ByteArray} {holds : σ → Prop}
variable {note : σ → Range → σ}

theorem piecesMatch_from (serves : Serves db bytes holds note) {position : Nat} :
    ∀ (left : Nat) {index next : Nat}, index + left = pieceCount key →
    left = 0 ∨ next = piecePosition position index →
    Bytes.StandsAt bytes position (key.extract 0 (index * Database.compareLength)) →
    ∃ answer ranges, Compared bytes key position answer (pieceRanges key position index ++ ranges) ∧
      ∀ s, holds s → db.piecesMatch ((List.range' index left).map (keyPiece key)) next s =
        comparison answer (ranges.foldl note s)
  | 0, index, next, all, _, before => by
    obtain rfl : index = pieceCount key := all
    rw [extract_pieceCount] at before
    exact ⟨.ok true, [], by rw [List.append_nil]; exact .same before, fun _ _ => rfl⟩
  | left + 1, index, next, all, at_next, before => by
    have lt : index < pieceCount key := by omega
    obtain rfl := at_next.resolve_left (Nat.succ_ne_zero left)
    -- the piece is the same and the comparison goes on, or it differs, or it is cut off
    by_cases inside : piecePosition position index + (keyPiece key index).size ≤ bytes.size
    · by_cases here : Bytes.StandsAt bytes (piecePosition position index) (keyPiece key index)
      · have at_next : left = 0 ∨ piecePosition position index + (keyPiece key index).size =
            piecePosition position (index + 1) := by
          rcases Nat.eq_zero_or_pos left with none | some
          · exact .inl none
          · right
            rw [size_keyPiece_of_lt (by omega), piecePosition, piecePosition, Nat.succ_mul,
              Nat.add_assoc]
        obtain ⟨answer, ranges, compared, eq⟩ :=
          piecesMatch_from serves left (by omega) at_next (standsAt_succ lt before here)
        rw [pieceRanges_succ, List.append_assoc] at compared
        refine ⟨answer, _ :: ranges, compared, fun s h => ?_⟩
        rw [List.range'_succ, List.map_cons, Database.piecesMatch, Effect.bind_apply,
          serves.readAt_inside h inside]
        dsimp only
        rw [if_pos here.2, eq _ (serves.holds_note h _)]
        rfl
      · refine ⟨.ok false, [_], by rw [← pieceRanges_succ]; exact .differs lt before inside here,
          fun s h => ?_⟩
        rw [List.range'_succ, List.map_cons, Database.piecesMatch, Effect.bind_apply,
          serves.readAt_inside h inside]
        dsimp only
        rw [if_neg fun same => here ⟨inside, same⟩]
        rfl
    · have outside := Nat.lt_of_not_le inside
      refine ⟨_, [], by rw [List.append_nil]; exact .cut lt before outside, fun s h => ?_⟩
      rw [List.range'_succ, List.map_cons, Database.piecesMatch, Effect.bind_apply,
        serves.readAt_outside outside]
      rfl

theorem keyMatches_unmapped {position : Nat} {s : σ} (unmapped : db.mapped s = none) :
    db.keyMatches key position s =
      db.piecesMatch (Bytes.chunks Database.compareLength key) position s := by
  rw [Database.keyMatches, Effect.bind_apply]
  show (match db.mapped s with | _ => _ : Effect DbError σ Bool) s = _
  rw [unmapped]

theorem keyMatches_mapped {position : Nat} {s : σ} (mapped : db.mapped s = some bytes)
    (inside : position + key.size ≤ bytes.size) : db.keyMatches key position s =
      .ok (decide (bytes.extract position (position + key.size) = key)) s := by
  rw [Database.keyMatches, Effect.bind_apply]
  show (match db.mapped s with | _ => _ : Effect DbError σ Bool) s = _
  rw [mapped]
  dsimp only
  rw [if_pos inside]
  rfl

theorem keyMatches_mapped_outside {position : Nat} {s : σ} (mapped : db.mapped s = some bytes)
    (outside : bytes.size < position + key.size) : db.keyMatches key position s =
      .error (.truncated (.keyPastEnd position)) s := by
  rw [Database.keyMatches, Effect.bind_apply]
  show (match db.mapped s with | _ => _ : Effect DbError σ Bool) s = _
  rw [mapped]
  dsimp only
  rw [if_neg (Nat.not_le_of_lt outside)]
  rfl

theorem exists_compared (key : ByteArray) (serves : Serves db bytes holds note) {position : Nat}
    (le : position ≤ bytes.size) :
    ∃ answer ranges, Compared bytes key position answer ranges ∧
      ∀ s, holds s → db.mapped s = none →
        db.keyMatches key position s = comparison answer (ranges.foldl note s) := by
  have start : Bytes.StandsAt bytes position (key.extract 0 (0 * Database.compareLength)) := by
    rw [Nat.zero_mul, ByteArray.extract_same]
    exact ⟨le, ByteArray.extract_same⟩
  obtain ⟨answer, ranges, compared, eq⟩ := piecesMatch_from serves (pieceCount key)
    (Nat.zero_add _) (.inr (by rw [piecePosition, Nat.zero_mul, Nat.add_zero])) start
  refine ⟨answer, ranges, compared, fun s h unmapped => ?_⟩
  rw [← eq s h, ← List.range_eq_range', ← chunks_eq, keyMatches_unmapped unmapped]

theorem standsAt_keyPiece {key : ByteArray} {index : Nat} (lt : index < pieceCount key) :
    Bytes.StandsAt key (index * Database.compareLength) (keyPiece key index) := by
  have before := lt_size_of_lt_pieceCount lt
  have whole := ByteArray.extract_extract (a := key) (i := index * Database.compareLength)
    (j := index * Database.compareLength + Database.compareLength) (k := 0)
    (l := (keyPiece key index).size)
  refine ⟨by rw [keyPiece, ByteArray.size_extract]; omega, ?_⟩
  rw [← keyPiece, ByteArray.extract_zero_size, Nat.add_zero] at whole
  have le : (keyPiece key index).size ≤ Database.compareLength := by
    rw [keyPiece, ByteArray.size_extract]
    omega
  rw [Nat.min_eq_left (Nat.add_le_add_left le _)] at whole
  exact whole.symm

theorem keyMatches_inside (serves : Serves db bytes holds note)
    (mapping : ∀ s, holds s → db.mapped s = none ∨ db.mapped s = some bytes) {position : Nat}
    (inside : position + key.size ≤ bytes.size) {s : σ} (h : holds s) :
    ∃ ranges : List Range, db.keyMatches key position s =
      .ok (decide (Bytes.StandsAt bytes position key)) (ranges.foldl note s) := by
  rcases mapping s h with unmapped | mapped
  · obtain ⟨answer, ranges, compared, eq⟩ := exists_compared key serves (Nat.le_of_add_right_le inside)
    refine ⟨ranges, (eq s h unmapped).trans ?_⟩
    cases compared with
    | same stands => rw [decide_eq_true stands]; rfl
    | differs lt _ _ other =>
      have unlike : ¬ Bytes.StandsAt bytes position key :=
        fun stands => other (stands.trans (standsAt_keyPiece lt))
      rw [decide_eq_false unlike]
      rfl
    | cut lt _ outside =>
      have := (standsAt_keyPiece lt).1
      unfold piecePosition at outside
      omega
  · refine ⟨[], (keyMatches_mapped mapped inside).trans ?_⟩
    have same : bytes.extract position (position + key.size) = key ↔
        Bytes.StandsAt bytes position key := ⟨fun eq => ⟨inside, eq⟩, fun stands => stands.2⟩
    rw [decide_eq_decide.2 same]
    rfl

/-! ## Judging a slot -/

/-- What a lookup makes of a slot. -/
inductive Verdict where
  /-- The slot holds nothing, and the lookup ends. -/
  | vacant
  /-- The slot names no record with the key. -/
  | passed
  | matched (data : DataRef)
  /-- The bytes end too early to tell, or the data is out of reach. -/
  | cut (cause : Truncation)
  deriving DecidableEq, Repr

inductive JudgedRecord (bytes key : ByteArray) (position : Nat) : Verdict → List Range → Prop where
  | headerCut : bytes.size < position + Pair.size →
    JudgedRecord bytes key position (.cut (.readPastEnd Pair.size position bytes.size)) []
  | otherLength : position + Pair.size ≤ bytes.size →
    (Pair.decode (Bytes.pairAt bytes position)).1.toNat ≠ key.size →
    JudgedRecord bytes key position .passed [(position, Pair.size)]
  | keyCut {cause ranges} : position + Pair.size ≤ bytes.size →
    (Pair.decode (Bytes.pairAt bytes position)).1.toNat = key.size →
    Compared bytes key (position + recordHeaderSize) (.error cause) ranges →
    JudgedRecord bytes key position (.cut cause) ((position, Pair.size) :: ranges)
  | otherKey {ranges} : position + Pair.size ≤ bytes.size →
    (Pair.decode (Bytes.pairAt bytes position)).1.toNat = key.size →
    Compared bytes key (position + recordHeaderSize) (.ok false) ranges →
    JudgedRecord bytes key position .passed ((position, Pair.size) :: ranges)
  | dataCut {ranges} : position + Pair.size ≤ bytes.size →
    (Pair.decode (Bytes.pairAt bytes position)).1.toNat = key.size →
    Compared bytes key (position + recordHeaderSize) (.ok true) ranges →
    Position.limit < position + recordHeaderSize + key.size →
    JudgedRecord bytes key position (.cut (.dataPastLimit position))
      ((position, Pair.size) :: ranges)
  | matched {ranges} : position + Pair.size ≤ bytes.size →
    (Pair.decode (Bytes.pairAt bytes position)).1.toNat = key.size →
    Compared bytes key (position + recordHeaderSize) (.ok true) ranges →
    position + recordHeaderSize + key.size ≤ Position.limit →
    JudgedRecord bytes key position
      (.matched ⟨position + recordHeaderSize + key.size,
        (Pair.decode (Bytes.pairAt bytes position)).2.toNat⟩)
      ((position, Pair.size) :: ranges)

/-- A verdict on the slot at a position, and what is read for it. -/
inductive Judged (bytes key : ByteArray) (position : Nat) : Verdict → List Range → Prop where
  | slotCut : bytes.size < position + Pair.size →
    Judged bytes key position (.cut (.readPastEnd Pair.size position bytes.size)) []
  | vacant : position + Pair.size ≤ bytes.size →
    (Slot.decode (Bytes.pairAt bytes position)).isEmpty = true →
    Judged bytes key position .vacant [(position, Pair.size)]
  | otherHash : position + Pair.size ≤ bytes.size →
    (Slot.decode (Bytes.pairAt bytes position)).isEmpty = false →
    (Slot.decode (Bytes.pairAt bytes position)).hash ≠ Hash.ofKey key →
    Judged bytes key position .passed [(position, Pair.size)]
  | record {verdict ranges} : position + Pair.size ≤ bytes.size →
    (Slot.decode (Bytes.pairAt bytes position)).isEmpty = false →
    (Slot.decode (Bytes.pairAt bytes position)).hash = Hash.ofKey key →
    JudgedRecord bytes key (Slot.decode (Bytes.pairAt bytes position)).position.toNat
      verdict ranges →
    Judged bytes key position verdict ((position, Pair.size) :: ranges)

def Verdict.result {σ : Type} (verdict : Verdict) (s : σ) : EStateM.Result DbError σ Verdict :=
  match verdict with
  | .cut cause => .error (.truncated cause) s
  | verdict => .ok verdict s

def Verdict.found {σ : Type} (verdict : Verdict) (s : σ) :
    EStateM.Result DbError σ (Option DataRef) :=
  match verdict with
  | .cut cause => .error (.truncated cause) s
  | .matched data => .ok (some data) s
  | _ => .ok none s

end Lookup

namespace Database

open Lookup

variable {σ : Type}

def examine (db : Database σ) (key : ByteArray) (hash : Hash) (position : Nat) :
    Effect DbError σ Verdict := do
  let slot := Slot.decode (← db.readAt position Pair.size)
  if slot.isEmpty then
    return .vacant
  if slot.hash ≠ hash then
    return .passed
  match ← db.matchRecord key slot.position.toNat with
  | some data => return .matched data
  | none => return .passed

theorem search_succ (db : Database σ) (key : ByteArray) (count : Nat) (probe : Probe) (s : σ) :
    db.search key (count + 1) probe s =
      match db.examine key probe.hash probe.next s with
      | .error e t => .error e t
      | .ok .vacant t => .ok none t
      | .ok (.matched data) t => .ok (some (probe.step, data)) t
      | .ok _ t => db.search key count probe.step t := by
  rw [search, examine, Effect.bind_apply, Effect.bind_apply]
  cases db.readAt probe.next Pair.size s with
  | error e t => rfl
  | ok bytes t =>
    dsimp only
    by_cases empty : (Slot.decode bytes).isEmpty = true
    · rw [if_pos empty, if_pos empty]
      rfl
    rw [if_neg empty, if_neg empty]
    by_cases other : (Slot.decode bytes).hash ≠ probe.hash
    · rw [if_pos other, if_pos (show (Slot.decode bytes).hash ≠ probe.step.hash from other)]
      rfl
    rw [if_neg other, if_neg (show ¬ (Slot.decode bytes).hash ≠ probe.step.hash from other),
      Effect.bind_apply, Effect.bind_apply]
    cases db.matchRecord key (Slot.decode bytes).position.toNat t with
    | error e t => rfl
    | ok found t => cases found <;> rfl

theorem matchRecord_apply (db : Database σ) (key : ByteArray) (position : Nat) (s : σ) :
    db.matchRecord key position s =
      match db.readAt position Pair.size s with
      | .error e t => .error e t
      | .ok pair t =>
        if (Pair.decode pair).1.toNat ≠ key.size then .ok none t
        else
          match db.keyMatches key (position + recordHeaderSize) t with
          | .error e t => .error e t
          | .ok false t => .ok none t
          | .ok true t =>
            if position + recordHeaderSize + key.size ≤ Position.limit then
              .ok (some ⟨position + recordHeaderSize + key.size, (Pair.decode pair).2.toNat⟩) t
            else .error (.truncated (.dataPastLimit position)) t := by
  rw [matchRecord, Effect.bind_apply]
  cases db.readAt position Pair.size s with
  | error e t => rfl
  | ok pair t =>
    dsimp only
    by_cases other : (Pair.decode pair).1.toNat ≠ key.size
    · rw [if_pos other, if_pos other]
      rfl
    rw [if_neg other, if_neg other, Effect.bind_apply]
    cases db.keyMatches key (position + recordHeaderSize) t with
    | error e t => rfl
    | ok same t =>
      cases same with
      | false => rfl
      | true =>
        dsimp only
        by_cases near : position + recordHeaderSize + key.size ≤ Position.limit
        · rw [if_pos near, if_pos rfl, if_pos near]
          rfl
        · rw [if_neg near, if_pos rfl, if_neg near]
          rfl

end Database

/-! ## A lookup finds what the bytes say -/

namespace Lookup

variable {σ : Type} {db : Database σ} {bytes : ByteArray} {holds : σ → Prop}
variable {note : σ → Range → σ}

theorem exists_judgedRecord (serves : Serves db bytes holds note)
    (unmapped : ∀ s, holds s → db.mapped s = none) (key : ByteArray) (position : Nat) :
    ∃ verdict ranges, JudgedRecord bytes key position verdict ranges ∧
      ∀ s, holds s → db.matchRecord key position s = verdict.found (ranges.foldl note s) := by
  rcases Nat.lt_or_ge bytes.size (position + Pair.size) with outside | inside
  · refine ⟨_, _, .headerCut outside, fun s _ => ?_⟩
    rw [Database.matchRecord_apply, serves.readAt_outside outside]
    rfl
  by_cases other : (Pair.decode (Bytes.pairAt bytes position)).1.toNat ≠ key.size
  · refine ⟨_, _, .otherLength inside other, fun s h => ?_⟩
    rw [Database.matchRecord_apply, serves.readAt_inside h inside]
    exact if_pos other
  have same := Decidable.not_not.1 other
  obtain ⟨answer, ranges, compared, eq⟩ := exists_compared key serves inside
  have run : ∀ s, holds s → db.matchRecord key position s =
      match comparison answer (((position, Pair.size) :: ranges).foldl note s) with
      | .error e t => .error e t
      | .ok false t => .ok none t
      | .ok true t =>
        if position + recordHeaderSize + key.size ≤ Position.limit then
          .ok (some ⟨position + recordHeaderSize + key.size,
            (Pair.decode (Bytes.pairAt bytes position)).2.toNat⟩) t
        else .error (.truncated (.dataPastLimit position)) t := by
    intro s h
    rw [Database.matchRecord_apply, serves.readAt_inside h inside]
    dsimp only
    rw [← Bytes.pairAt, if_neg other, List.foldl_cons,
      ← eq _ (serves.holds_note h _) (unmapped _ (serves.holds_note h _))]
    rfl
  rcases answer with cause | same_key
  · exact ⟨_, _, .keyCut inside same compared, run⟩
  cases same_key with
  | false => exact ⟨_, _, .otherKey inside same compared, run⟩
  | true =>
    by_cases near : position + recordHeaderSize + key.size ≤ Position.limit
    · refine ⟨_, _, .matched inside same compared near, fun s h => ?_⟩
      rw [run s h]
      exact if_pos near
    · refine ⟨_, _, .dataCut inside same compared (Nat.lt_of_not_le near), fun s h => ?_⟩
      rw [run s h]
      exact if_neg near

theorem exists_judged (serves : Serves db bytes holds note)
    (unmapped : ∀ s, holds s → db.mapped s = none) (key : ByteArray) (position : Nat) :
    ∃ verdict ranges, Judged bytes key position verdict ranges ∧
      ∀ s, holds s → db.examine key (Hash.ofKey key) position s =
        verdict.result (ranges.foldl note s) := by
  rcases Nat.lt_or_ge bytes.size (position + Pair.size) with outside | inside
  · refine ⟨_, _, .slotCut outside, fun s _ => ?_⟩
    rw [Database.examine, Effect.bind_apply, serves.readAt_outside outside]
    rfl
  have run : ∀ s, holds s → db.examine key (Hash.ofKey key) position s =
      (if (Slot.decode (Bytes.pairAt bytes position)).isEmpty then
        pure .vacant
      else if (Slot.decode (Bytes.pairAt bytes position)).hash ≠ Hash.ofKey key then
        pure .passed
      else do
        match ← db.matchRecord key (Slot.decode (Bytes.pairAt bytes position)).position.toNat with
        | some data => return .matched data
        | none => return .passed : Effect DbError σ Verdict) (note s (position, Pair.size)) := by
    intro s h
    rw [Database.examine, Effect.bind_apply, serves.readAt_inside h inside]
    rfl
  cases empty : (Slot.decode (Bytes.pairAt bytes position)).isEmpty with
  | true =>
    refine ⟨_, _, .vacant inside empty, fun s h => ?_⟩
    rw [run s h, if_pos empty]
    rfl
  | false =>
    by_cases other : (Slot.decode (Bytes.pairAt bytes position)).hash ≠ Hash.ofKey key
    · refine ⟨_, _, .otherHash inside empty other, fun s h => ?_⟩
      rw [run s h, if_neg (by rw [empty]; exact Bool.false_ne_true), if_pos other]
      rfl
    have own := Decidable.not_not.1 other
    obtain ⟨verdict, ranges, judged, eq⟩ := exists_judgedRecord serves unmapped key
      (Slot.decode (Bytes.pairAt bytes position)).position.toNat
    refine ⟨_, _, .record inside empty own judged, fun s h => ?_⟩
    rw [run s h, if_neg (by rw [empty]; exact Bool.false_ne_true), if_neg other,
      Effect.bind_apply, eq _ (serves.holds_note h _), List.foldl_cons]
    cases judged <;> rfl

end Lookup

end ConstDb
