import ConstDb.Proofs.DumpInStep

/-!
# Mapped and positioned sources

Two sources that hold the same bytes, of which one shows them all at once. Lookups compare a whole key
on the first and a key piece by piece on the second, and answer alike unless they meet a slot at which
the two ways differ (`Diverges`). Main statement: `mapped_agrees_with_positioned`.
-/

namespace ConstDb

open Effect Image

/-! ## Slots that are passed, and slots at which lookups part -/

namespace Lookup

def slotAt (bytes : ByteArray) (position : Nat) : Slot := Slot.decode (Bytes.pairAt bytes position)

def keyLengthAt (bytes : ByteArray) (record : Nat) : Nat :=
  (Pair.decode (Bytes.pairAt bytes record)).1.toNat

/-- The slot at a position has this hash, and its record a key of the right length. The key itself may
lie outside the bytes. -/
structure Candidate (bytes key : ByteArray) (hash : Hash) (position record : Nat) : Prop where
  inside : position + Pair.size ≤ bytes.size
  occupied : (slotAt bytes position).isEmpty = false
  hash_eq : (slotAt bytes position).hash = hash
  record_eq : (slotAt bytes position).position.toNat = record
  header_inside : record + Pair.size ≤ bytes.size
  length_eq : keyLengthAt bytes record = key.size

/-- The slot at a position names no record with the key, and all bytes that tell so are there. -/
inductive Passes (bytes key : ByteArray) (hash : Hash) (position : Nat) : Prop where
  | otherHash : position + Pair.size ≤ bytes.size → (slotAt bytes position).isEmpty = false →
    (slotAt bytes position).hash ≠ hash → Passes bytes key hash position
  | otherLength {record : Nat} : position + Pair.size ≤ bytes.size →
    (slotAt bytes position).isEmpty = false → (slotAt bytes position).hash = hash →
    (slotAt bytes position).position.toNat = record → record + Pair.size ≤ bytes.size →
    keyLengthAt bytes record ≠ key.size → Passes bytes key hash position
  | otherKey {record : Nat} : Candidate bytes key hash position record →
    record + recordHeaderSize + key.size ≤ bytes.size →
    ¬ Bytes.StandsAt bytes (record + recordHeaderSize) key → Passes bytes key hash position

def PieceDiffers (bytes key : ByteArray) (position index : Nat) : Prop :=
  index < pieceCount key ∧ piecePosition position index + (keyPiece key index).size ≤ bytes.size ∧
    ¬ Bytes.StandsAt bytes (piecePosition position index) (keyPiece key index)

/-- The key of the slot's record runs past the end of the bytes, and a piece before the end differs. -/
structure Diverges (bytes key : ByteArray) (hash : Hash) (position record : Nat) : Prop
    extends Candidate bytes key hash position record where
  past : bytes.size < record + recordHeaderSize + key.size
  differs : ∃ index, PieceDiffers bytes key (record + recordHeaderSize) index

section slots
variable {bytes key : ByteArray} {hash : Hash} {position record : Nat}

theorem Diverges.long (diverges : Diverges bytes key hash position record) :
    Database.compareLength < key.size := by
  obtain ⟨index, lt, inside, -⟩ := diverges.differs
  have past := diverges.past
  have before := lt_size_of_lt_pieceCount lt
  simp only [piecePosition, keyPiece, ByteArray.size_extract, Database.compareLength] at *
  omega

theorem standsAt_keyPiece_front {index count : Nat} (lt : index < count)
    (at_key : index < pieceCount key) :
    Bytes.StandsAt (key.extract 0 (count * Database.compareLength)) (index * Database.compareLength)
      (keyPiece key index) := by
  have before := lt_size_of_lt_pieceCount at_key
  obtain ⟨inside, eq⟩ := standsAt_keyPiece at_key
  have le : index * Database.compareLength + (keyPiece key index).size ≤
      count * Database.compareLength := by
    simp only [keyPiece, ByteArray.size_extract, Database.compareLength] at *
    omega
  refine ⟨?_, ?_⟩
  · rw [ByteArray.size_extract]
    omega
  · rw [ByteArray.extract_extract, Nat.zero_add, Nat.zero_add, Nat.min_eq_left le]
    exact eq

theorem Compared.of_pieceDiffers {answer : Except Truncation Bool} {ranges : List Range} {index : Nat}
    (compared : Compared bytes key position answer ranges)
    (differs : PieceDiffers bytes key position index) : answer = .ok false := by
  obtain ⟨lt, inside, other⟩ := differs
  cases compared with
  | same stands => exact absurd (stands.trans (standsAt_keyPiece lt)) other
  | differs => rfl
  | @cut stop _ before outside =>
    -- the pieces before `stop` agree, `stop` itself lies outside, and all behind it even more so
    exfalso
    rcases Nat.lt_trichotomy index stop with sooner | same | later
    · exact other (before.trans (standsAt_keyPiece_front sooner lt))
    · rw [same] at inside
      omega
    · have whole : (keyPiece key stop).size = Database.compareLength :=
        size_keyPiece_of_lt (Nat.lt_of_le_of_lt later lt)
      have : (stop + 1) * Database.compareLength ≤ index * Database.compareLength :=
        Nat.mul_le_mul_right _ later
      rw [Nat.succ_mul] at this
      unfold piecePosition at *
      omega

end slots

end Lookup

open Lookup

/-! ## One slot -/

section slots
variable {σ : Type} {db : Database σ} {bytes key : ByteArray} {s : σ} {hash : Hash}
variable {position record : Nat}

theorem Keeps.examine_outside (keeps : Keeps db bytes s) (outside : bytes.size < position + Pair.size) :
    db.examine key hash position s =
      .error (.truncated (.readPastEnd Pair.size position bytes.size)) s := by
  rw [Database.examine, bind_apply, keeps.serves.readAt_outside outside]

theorem Keeps.examine_slotAt (keeps : Keeps db bytes s) (inside : position + Pair.size ≤ bytes.size) :
    db.examine key hash position s =
      if (slotAt bytes position).isEmpty then .ok .vacant s
      else if (slotAt bytes position).hash ≠ hash then .ok .passed s
      else
        match db.matchRecord key (slotAt bytes position).position.toNat s with
        | .error e t => .error e t
        | .ok none t => .ok .passed t
        | .ok (some data) t => .ok (.matched data) t := by
  rw [Database.examine, bind_apply, keeps.serves.readAt_inside rfl inside]
  dsimp only
  rw [← Bytes.pairAt, ← slotAt]
  by_cases empty : (slotAt bytes position).isEmpty = true
  · rw [if_pos empty, if_pos empty]
    rfl
  by_cases other : (slotAt bytes position).hash ≠ hash
  · rw [if_neg empty, if_neg empty, if_pos other, if_pos other]
    rfl
  · rw [if_neg empty, if_neg empty, if_neg other, if_neg other, bind_apply]
    cases db.matchRecord key (slotAt bytes position).position.toNat s with
    | error e t => rfl
    | ok found t => cases found <;> rfl

theorem Keeps.matchRecord_outside (keeps : Keeps db bytes s) (outside : bytes.size < record + Pair.size) :
    db.matchRecord key record s =
      .error (.truncated (.readPastEnd Pair.size record bytes.size)) s := by
  rw [Database.matchRecord_apply, keeps.serves.readAt_outside outside]

theorem Keeps.matchRecord_of_length (keeps : Keeps db bytes s)
    (inside : record + Pair.size ≤ bytes.size) (other : keyLengthAt bytes record ≠ key.size) :
    db.matchRecord key record s = .ok none s := by
  rw [Database.matchRecord_apply, keeps.serves.readAt_inside rfl inside]
  exact if_pos other

theorem Keeps.examine_candidate (keeps : Keeps db bytes s)
    (candidate : Candidate bytes key hash position record) :
    db.examine key hash position s =
      match db.keyMatches key (record + recordHeaderSize) s with
      | .error e t => .error e t
      | .ok false t => .ok .passed t
      | .ok true t =>
        if record + recordHeaderSize + key.size ≤ Position.limit then
          .ok (.matched ⟨record + recordHeaderSize + key.size,
            (Pair.decode (Bytes.pairAt bytes record)).2.toNat⟩) t
        else .error (.truncated (.dataPastLimit record)) t := by
  obtain ⟨inside, occupied, rfl, rfl, header, length⟩ := candidate
  have same : ¬ keyLengthAt bytes (slotAt bytes position).position.toNat ≠ key.size := fun h => h length
  rw [keeps.examine_slotAt inside, if_neg (by simp [occupied]), if_neg (fun h => h rfl),
    Database.matchRecord_apply, keeps.serves.readAt_inside rfl header]
  dsimp only
  rw [← Bytes.pairAt, ← keyLengthAt, if_neg same]
  cases db.keyMatches key ((slotAt bytes position).position.toNat + recordHeaderSize) s with
  | error e t => rfl
  | ok same t =>
    cases same with
    | false => rfl
    | true =>
      dsimp only
      by_cases near : (slotAt bytes position).position.toNat + recordHeaderSize + key.size ≤ Position.limit
      · simp only [if_pos near]
      · simp only [if_neg near]

theorem Keeps.keyMatches_inside (keeps : Keeps db bytes s) (inside : position + key.size ≤ bytes.size) :
    db.keyMatches key position s = .ok (decide (Bytes.StandsAt bytes position key)) s := by
  have mapping : ∀ t, t = s → db.mapped t = none ∨ db.mapped t = some bytes := by
    rintro t rfl
    exact keeps.mapping
  obtain ⟨ranges, eq⟩ := Lookup.keyMatches_inside keeps.serves mapping inside rfl
  rwa [foldl_keep] at eq

theorem Keeps.examine_of_passes (keeps : Keeps db bytes s) (passes : Passes bytes key hash position) :
    db.examine key hash position s = .ok .passed s := by
  cases passes with
  | otherHash inside occupied other =>
    rw [keeps.examine_slotAt inside, if_neg (by simp [occupied]), if_pos other]
  | otherLength inside occupied same at_record header other =>
    rw [keeps.examine_slotAt inside, if_neg (by simp [occupied]), if_neg (fun h => h same), at_record,
      keeps.matchRecord_of_length header other]
  | otherKey candidate inside other =>
    rw [keeps.examine_candidate candidate, keeps.keyMatches_inside inside, decide_eq_false other]

theorem Keeps.examine_of_past (keeps : Keeps db bytes s) (mapped : db.mapped s = some bytes)
    (candidate : Candidate bytes key hash position record)
    (past : bytes.size < record + recordHeaderSize + key.size) :
    db.examine key hash position s =
      .error (.truncated (.keyPastEnd (record + recordHeaderSize))) s := by
  rw [keeps.examine_candidate candidate, keyMatches_mapped_outside mapped past]

theorem Keeps.exists_compared (keeps : Keeps db bytes s) (unmapped : db.mapped s = none)
    (candidate : Candidate bytes key hash position record) :
    ∃ answer ranges, Compared bytes key (record + recordHeaderSize) answer ranges ∧
      db.keyMatches key (record + recordHeaderSize) s = comparison answer s := by
  obtain ⟨answer, ranges, compared, eq⟩ :=
    Lookup.exists_compared key keeps.serves candidate.header_inside
  refine ⟨answer, ranges, compared, ?_⟩
  have matches_eq := eq s rfl unmapped
  rwa [foldl_keep] at matches_eq

theorem Keeps.examine_of_diverges (keeps : Keeps db bytes s) (unmapped : db.mapped s = none)
    (diverges : Diverges bytes key hash position record) :
    db.examine key hash position s = .ok .passed s := by
  obtain ⟨index, differs⟩ := diverges.differs
  -- the comparison stops at the first piece that differs and never comes to the end of the bytes
  obtain ⟨answer, ranges, compared, eq⟩ := keeps.exists_compared unmapped diverges.toCandidate
  rw [keeps.examine_candidate diverges.toCandidate, eq, compared.of_pieceDiffers differs]
  rfl

end slots

/-! ## One slot of both -/

section pair
variable {σ τ : Type} {mapped : Database σ} {positioned : Database τ} {bytes key : ByteArray}
variable {s : σ} {t : τ} {hash : Hash} {position : Nat}

/-- The two sources hold the same bytes, and only the first one shows them. -/
structure Twins (mapped : Database σ) (positioned : Database τ) (bytes : ByteArray) (s : σ) (t : τ) :
    Prop where
  mapped_keeps : Keeps mapped bytes s
  positioned_keeps : Keeps positioned bytes t
  mapped_eq : mapped.mapped s = some bytes
  positioned_eq : positioned.mapped t = none

inductive BothEnd (s : σ) (t : τ) :
    EStateM.Result DbError σ Verdict → EStateM.Result DbError τ Verdict → Prop where
  | vacant : BothEnd s t (.ok .vacant s) (.ok .vacant t)
  | matched {data : DataRef} : BothEnd s t (.ok (.matched data) s) (.ok (.matched data) t)
  | cut {cause cause' : Truncation} :
    BothEnd s t (.error (.truncated cause) s) (.error (.truncated cause') t)

theorem Twins.bothEnd_of_candidate {record : Nat} (twins : Twins mapped positioned bytes s t)
    (candidate : Candidate bytes key hash position record)
    (stays : ¬ Passes bytes key hash position) (never : ¬ Diverges bytes key hash position record) :
    BothEnd s t (mapped.examine key hash position s) (positioned.examine key hash position t) := by
  obtain ⟨keeps, keeps', shown, hidden⟩ := twins
  rcases Nat.lt_or_ge bytes.size (record + recordHeaderSize + key.size) with past | whole
  · -- the mapped key is cut off, and the pieces of the other one are the same up to the end
    obtain ⟨answer, ranges, compared, eq⟩ := keeps'.exists_compared hidden candidate
    cases compared with
    | same stands => exact absurd stands.1 (Nat.not_le_of_lt past)
    | differs lt _ within unlike => exact absurd ⟨candidate, past, _, lt, within, unlike⟩ never
    | cut =>
      rw [keeps.examine_of_past shown candidate past, keeps'.examine_candidate candidate, eq]
      exact .cut
  · by_cases stands : Bytes.StandsAt bytes (record + recordHeaderSize) key
    · rw [keeps.examine_candidate candidate, keeps'.examine_candidate candidate,
        keeps.keyMatches_inside whole, keeps'.keyMatches_inside whole, decide_eq_true stands]
      by_cases near : record + recordHeaderSize + key.size ≤ Position.limit
      · simp only [if_pos near]
        exact .matched
      · simp only [if_neg near]
        exact .cut
    · exact absurd (.otherKey candidate whole stands) stays

theorem Twins.bothEnd (twins : Twins mapped positioned bytes s t)
    (stays : ¬ Passes bytes key hash position)
    (never : ∀ record, ¬ Diverges bytes key hash position record) :
    BothEnd s t (mapped.examine key hash position s) (positioned.examine key hash position t) := by
  have keeps := twins.mapped_keeps
  have keeps' := twins.positioned_keeps
  rcases Nat.lt_or_ge bytes.size (position + Pair.size) with outside | inside
  · rw [keeps.examine_outside outside, keeps'.examine_outside outside]
    exact .cut
  by_cases empty : (slotAt bytes position).isEmpty = true
  · rw [keeps.examine_slotAt inside, if_pos empty, keeps'.examine_slotAt inside, if_pos empty]
    exact .vacant
  have occupied := Bool.eq_false_iff.2 empty
  by_cases other : (slotAt bytes position).hash ≠ hash
  · exact absurd (.otherHash inside occupied other) stays
  have same := Decidable.not_not.1 other
  rcases Nat.lt_or_ge bytes.size ((slotAt bytes position).position.toNat + Pair.size) with
    outside | header
  · rw [keeps.examine_slotAt inside, if_neg empty, if_neg other, keeps.matchRecord_outside outside,
      keeps'.examine_slotAt inside, if_neg empty, if_neg other, keeps'.matchRecord_outside outside]
    exact .cut
  by_cases length : keyLengthAt bytes (slotAt bytes position).position.toNat ≠ key.size
  · exact absurd (.otherLength inside occupied same rfl header length) stays
  exact twins.bothEnd_of_candidate
    ⟨inside, occupied, same, rfl, header, Decidable.not_not.1 length⟩ stays (never _)

end pair

/-! ## The slots that a call meets -/

/-- A lookup at the first probe comes to look at the slot of the second one. -/
inductive Meets (bytes key : ByteArray) : Probe → Probe → Prop where
  | here {probe : Probe} : 0 < probe.remaining → Meets bytes key probe probe
  | behind {probe later : Probe} : 0 < probe.remaining → Passes bytes key probe.hash probe.next →
    Meets bytes key probe.step later → Meets bytes key probe later

inductive Starts (bytes key : ByteArray) : Progress → Probe → Prop where
  | probing {probe : Probe} : Starts bytes key (.probing probe) probe
  | fresh : TableRef.position (Hash.ofKey key).bucket + Pair.size ≤ bytes.size →
    Starts bytes key .fresh
      (.enter (Hash.ofKey key) (Bytes.headerEntry bytes (Hash.ofKey key).bucket))

def Comes (bytes key : ByteArray) (progress : Progress) (later : Probe) : Prop :=
  ∃ start, Starts bytes key progress start ∧ Meets bytes key start later

section meets
variable {σ : Type} {db : Database σ} {bytes key : ByteArray} {s : σ} {probe later : Probe}

theorem Meets.remaining_pos (meets : Meets bytes key probe later) : 0 < later.remaining := by
  induction meets with
  | here some => exact some
  | behind _ _ _ ih => exact ih

theorem Keeps.search_of_meets (keeps : Keeps db bytes s) (meets : Meets bytes key probe later) :
    db.search key probe.remaining probe s = db.search key later.remaining later s := by
  induction meets with
  | here => rfl
  | @behind probe later some passes _ ih =>
    rw [← ih, probe.remaining_step, ← Nat.sub_one_add_one (Nat.ne_of_gt some), Database.search_succ,
      keeps.examine_of_passes passes]
    rfl

theorem Keeps.resume_of_meets (keeps : Keeps db bytes s) (meets : Meets bytes key probe later) :
    db.resume key probe s = db.resume key later s := by
  rw [Database.resume, Database.resume, bind_apply, bind_apply, keeps.search_of_meets meets]

theorem Keeps.proceed_of_comes (keeps : Keeps db bytes s) {progress : Progress}
    (comes : Comes bytes key progress later) : db.proceed key progress s = db.resume key later s := by
  obtain ⟨start, starts, meets⟩ := comes
  cases starts with
  | probing => exact keeps.resume_of_meets meets
  | fresh inside =>
    rw [Database.proceed, bind_apply, table_eq keeps.serves inside rfl, ← keeps.resume_of_meets meets]
    have some : ¬ (Bytes.headerEntry bytes (Hash.ofKey key).bucket).slots = 0 := by
      intro none
      have : (Probe.enter (Hash.ofKey key) (Bytes.headerEntry bytes (Hash.ofKey key).bucket)).remaining =
          0 := by simp [Probe.enter, Probe.remaining, none]
      cases meets <;> omega
    exact congrFun (if_neg some) s

end meets

/-! ## One call -/

/-- Two calls answer alike, or both find the bytes too short, and leave related states. -/
inductive Agree {σ τ α : Type} (rel : σ → τ → Prop) :
    EStateM.Result DbError σ α → EStateM.Result DbError τ α → Prop where
  | ok {a : α} {s : σ} {t : τ} : rel s t → Agree rel (.ok a s) (.ok a t)
  | cut {cause cause' : Truncation} {s : σ} {t : τ} : rel s t →
    Agree rel (.error (.truncated cause) s) (.error (.truncated cause') t)

section pair
variable {σ τ : Type} {mapped : Database σ} {positioned : Database τ} {bytes key : ByteArray}
variable {s : σ} {t : τ}

theorem Twins.search_agree (twins : Twins mapped positioned bytes s t) (count : Nat) (probe : Probe)
    (le : count ≤ probe.remaining) (never : ∀ later record, Meets bytes key probe later →
      ¬ Diverges bytes key later.hash later.next record) :
    Agree (Unmoved s t) (mapped.search key count probe s) (positioned.search key count probe t) := by
  induction count generalizing probe with
  | zero => exact .ok ⟨rfl, rfl⟩
  | succ count ih =>
    have some : 0 < probe.remaining := Nat.lt_of_lt_of_le (Nat.succ_pos count) le
    rw [Database.search_succ, Database.search_succ]
    by_cases passes : Passes bytes key probe.hash probe.next
    · rw [twins.mapped_keeps.examine_of_passes passes, twins.positioned_keeps.examine_of_passes passes]
      apply ih
      · rw [probe.remaining_step]
        omega
      · exact fun later record meets => never later record (.behind some passes meets)
    · have ends := twins.bothEnd passes fun record => never probe record (.here some)
      generalize mapped.examine key probe.hash probe.next s = here at *
      generalize positioned.examine key probe.hash probe.next t = there at *
      cases ends with
      | vacant | matched => exact .ok ⟨rfl, rfl⟩
      | cut => exact .cut ⟨rfl, rfl⟩

theorem Twins.resume_agree (twins : Twins mapped positioned bytes s t) (probe : Probe)
    (never : ∀ later record, Meets bytes key probe later →
      ¬ Diverges bytes key later.hash later.next record) :
    Agree (Unmoved s t) (mapped.resume key probe s) (positioned.resume key probe t) := by
  have agree := twins.search_agree probe.remaining probe (Nat.le_refl _) never
  rw [Database.resume, Database.resume, bind_apply, bind_apply]
  generalize mapped.search key probe.remaining probe s = here at *
  generalize positioned.search key probe.remaining probe t = there at *
  cases agree with
  | @ok found _ _ related => cases found <;> exact .ok related
  | cut related => exact .cut related

theorem Twins.proceed_agree (twins : Twins mapped positioned bytes s t) (progress : Progress)
    (never : ∀ later record, Comes bytes key progress later →
      ¬ Diverges bytes key later.hash later.next record) :
    Agree (Unmoved s t) (mapped.proceed key progress s) (positioned.proceed key progress t) := by
  cases progress with
  | done => exact .ok ⟨rfl, rfl⟩
  | probing probe =>
    exact twins.resume_agree probe fun later record meets => never later record ⟨probe, .probing, meets⟩
  | fresh =>
    have keeps := twins.mapped_keeps
    have keeps' := twins.positioned_keeps
    rw [Database.proceed, Database.proceed, bind_apply, bind_apply]
    rcases Nat.lt_or_ge bytes.size (TableRef.position (Hash.ofKey key).bucket + Pair.size) with
      outside | inside
    · rw [Database.table, Database.table, bind_apply, bind_apply, keeps.serves.readAt_outside outside,
        keeps'.serves.readAt_outside outside]
      exact .cut ⟨rfl, rfl⟩
    · rw [table_eq keeps.serves inside rfl, table_eq keeps'.serves inside rfl]
      dsimp only
      by_cases none : (Bytes.headerEntry bytes (Hash.ofKey key).bucket).slots = 0
      · rw [if_pos none, if_pos none]
        exact .ok ⟨rfl, rfl⟩
      · rw [if_neg none, if_neg none]
        exact twins.resume_agree _ fun later record meets =>
          never later record ⟨_, .fresh inside, meets⟩

theorem Twins.findNext_agree (twins : Twins mapped positioned bytes s t) (cursor : Cursor)
    (never : ∀ later record, Comes bytes key cursor.progress later →
      ¬ Diverges bytes key later.hash later.next record) :
    Agree (OnSecond (Unmoved s t)) (mapped.findNext key (cursor, s))
      (positioned.findNext key (cursor, t)) := by
  have agree := twins.proceed_agree cursor.progress never
  unfold Database.findNext
  dsimp only
  generalize mapped.proceed key cursor.progress s = here at *
  generalize positioned.proceed key cursor.progress t = there at *
  cases agree with
  | ok related => exact .ok ⟨rfl, related⟩
  | cut related => exact .cut ⟨rfl, related⟩

theorem Twins.proceed_of_diverges (twins : Twins mapped positioned bytes s t) {progress : Progress}
    {later : Probe} {record : Nat} (comes : Comes bytes key progress later)
    (diverges : Diverges bytes key later.hash later.next record) :
    mapped.proceed key progress s = .error (.truncated (.keyPastEnd (record + recordHeaderSize))) s ∧
      positioned.proceed key progress t = positioned.proceed key (.probing later.step) t := by
  -- both start over at the slot itself, as all slots before it are passed
  have more : 0 < later.remaining := comes.elim fun _ both => both.2.remaining_pos
  obtain ⟨count, left⟩ := Nat.exists_eq_succ_of_ne_zero (Nat.ne_of_gt more)
  have left' : later.step.remaining = count := by
    rw [later.remaining_step, left, Nat.succ_sub_one]
  obtain ⟨keeps, keeps', shown, hidden⟩ := twins
  constructor
  · rw [keeps.proceed_of_comes comes, Database.resume, bind_apply, left, Database.search_succ,
      keeps.examine_of_past shown diverges.toCandidate diverges.past]
  · rw [keeps'.proceed_of_comes comes, Database.proceed, Database.resume, Database.resume, bind_apply,
      bind_apply, left, left', Database.search_succ, keeps'.examine_of_diverges hidden diverges]

/-! ## Successive calls, reads and listings -/

theorem Twins.findNexts_eq (twins : Twins mapped positioned bytes s t) (calls : Nat) (cursor : Cursor)
    (unfailed : Unfailed (mapped.findNexts key calls (cursor, s)).1) :
    (mapped.findNexts key calls (cursor, s)).1 = (positioned.findNexts key calls (cursor, t)).1 ∧
      (mapped.findNexts key calls (cursor, s)).2.1 = (positioned.findNexts key calls (cursor, t)).2.1 := by
  induction calls generalizing cursor with
  | zero => exact ⟨rfl, rfl⟩
  | succ calls ih =>
    rw [Database.findNexts] at unfailed
    -- a slot at which the ways part fails the mapped call
    have never : ∀ later record, Comes bytes key cursor.progress later →
        ¬ Diverges bytes key later.hash later.next record := by
      intro later record comes diverges
      rw [Database.findNext_error (twins.proceed_of_diverges comes diverges).1] at unfailed
      obtain ⟨found, eq⟩ := unfailed _ (List.mem_cons_self ..)
      cases eq
    have agree := twins.findNext_agree cursor never
    rw [Database.findNexts, Database.findNexts]
    generalize mapped.findNext key (cursor, s) = here at *
    generalize positioned.findNext key (cursor, t) = there at *
    cases agree with
    | @ok found state state' related =>
      obtain ⟨next, u⟩ := state
      obtain ⟨next', v⟩ := state'
      obtain ⟨same, stayed, stayed'⟩ := related
      obtain rfl : next = next' := same
      obtain rfl : u = s := stayed
      obtain rfl : v = t := stayed'
      obtain ⟨results, cursors⟩ := ih next fun result member =>
        unfailed result (List.mem_cons_of_mem _ member)
      exact ⟨congrArg _ results, cursors⟩
    | cut related =>
      obtain ⟨found, eq⟩ := unfailed _ (List.mem_cons_self ..)
      cases eq

theorem Twins.readAt_inUnison (twins : Twins mapped positioned bytes s t) {s' : σ} {t' : τ}
    (unmoved : Unmoved s t s' t') (position length : Nat) :
    InUnison (Unmoved s t) (fun _ _ => False) (mapped.readAt position length)
      (positioned.readAt position length) s' t' := by
  obtain ⟨rfl, rfl⟩ := unmoved
  have serves := twins.mapped_keeps.serves
  have serves' := twins.positioned_keeps.serves
  rcases Nat.lt_or_ge bytes.size (position + length) with outside | inside
  · exact inStep_of_error (serves.readAt_outside outside) (serves'.readAt_outside outside) ⟨rfl, rfl⟩
  · exact inStep_of_ok (serves.readAt_inside rfl inside) (serves'.readAt_inside rfl inside)
      ⟨rfl, rfl, rfl⟩

end pair

/-- **Mapped and positioned lookups agree**, but for one thing: a key of more than one piece that runs
past the end of the bytes fails a mapped lookup, and a positioned one passes it when a piece before the
end differs. No file that was built has such a key. -/
theorem mapped_agrees_with_positioned :
    (∀ {σ τ : Type} {mapped : Database σ} {positioned : Database τ} {bytes : ByteArray} {s : σ} {t : τ},
      Twins mapped positioned bytes s t →
      (∀ (key : ByteArray) (cursor : Cursor),
        ((∀ later record, Comes bytes key cursor.progress later →
            ¬ Diverges bytes key later.hash later.next record) →
          Agree (OnSecond (Unmoved s t)) (mapped.findNext key (cursor, s))
            (positioned.findNext key (cursor, t))) ∧
        ∀ later record, Comes bytes key cursor.progress later →
          Diverges bytes key later.hash later.next record →
          Database.compareLength < key.size ∧
            mapped.findNext key (cursor, s) =
              .error (.truncated (.keyPastEnd (record + recordHeaderSize))) (⟨cursor.progress, none⟩, s) ∧
            positioned.proceed key cursor.progress t = positioned.proceed key (.probing later.step) t) ∧
      (∀ key : ByteArray, key.size ≤ Database.compareLength → ∀ cursor : Cursor,
        Agree (OnSecond (Unmoved s t)) (mapped.findNext key (cursor, s))
          (positioned.findNext key (cursor, t))) ∧
      (∀ position length, (mapped.readAt position length).answer s =
        (positioned.readAt position length).answer t) ∧
      (∀ bucket, (mapped.table bucket).answer s = (positioned.table bucket).answer t) ∧
      mapped.records.answer s = positioned.records.answer t) ∧
    ∀ {ρ : Type} {sink : Sink ρ} {shows : ρ → ByteArray → Nat → Prop} {fragile : Prop},
      FileLike sink shows fragile → ∀ {capacity offset : Nat} {old : ByteArray} {records : List Record}
      {before after : ρ}, shows before old offset →
      Builder.run sink capacity records before = .ok () after →
      ∃ content offset, shows after content offset ∧
        ∀ {σ τ : Type} {mapped : Database σ} {positioned : Database τ} {s : σ} {t : τ},
          Twins mapped positioned content s t → ∀ key calls,
            let here := mapped.findNexts key calls (.fresh, s)
            let there := positioned.findNexts key calls (.fresh, t)
            here.1 = there.1 ∧ here.2.1 = there.2.1 := by
  constructor
  · intro σ τ mapped positioned bytes s t twins
    have unmoved : Unmoved s t s t := ⟨rfl, rfl⟩
    refine ⟨fun key cursor => ⟨twins.findNext_agree cursor, ?_⟩, ?_, ?_, ?_, ?_⟩
    · intro later record comes diverges
      obtain ⟨failed, goes_on⟩ := twins.proceed_of_diverges comes diverges
      exact ⟨diverges.long, Database.findNext_error failed, goes_on⟩
    · intro key short cursor
      apply twins.findNext_agree
      intro later record _ diverges
      exact Nat.not_lt_of_le short diverges.long
    · exact fun position length => (twins.readAt_inUnison unmoved position length).answer_eq.1
    · exact fun bucket => (readTable_inStep twins.readAt_inUnison unmoved bucket).answer_eq.1
    · have size : mapped.size = positioned.size :=
        twins.mapped_keeps.serves.size_eq.trans twins.positioned_keeps.serves.size_eq.symm
      exact (records_inUnison twins.readAt_inUnison size unmoved).answer_eq.1
  · intro ρ sink shows fragile file capacity offset old records before after start built
    obtain ⟨fits, offset, shown⟩ := Builder.run_image file start built
    refine ⟨_, offset, shown, fun twins key calls => ?_⟩
    have intact := intact_append records key (old.extract (ofRecords records).size old.size)
    have unfailed := fits.findNexts_eq intact twins.mapped_keeps calls
    apply twins.findNexts_eq
    rw [unfailed.1]
    exact unfailed_handedOut _ calls

theorem mapped_parts_from_positioned :
    let key : ByteArray := ⟨Array.replicate 32 120 ++ #[165]⟩
    let bytes : ByteArray := ⟨#[8, 0, 0, 0, 1, 0, 0, 0, 0, 117, 152, 58, 16, 0, 0, 0,
      33, 0, 0, 0, 0, 0, 0, 0] ++ Array.replicate 32 0⟩
    let start : Cursor × Unit := (.fresh, ())
    Database.findNext (Source.ofBytes bytes) key start =
        .error (.truncated (.keyPastEnd 24)) (.fresh, ()) ∧
      (Database.findNext (Source.positioned bytes) key).answer start = .ok none ∧
      (Database.table (Source.ofBytes bytes) 0).answer () =
        (Database.table (Source.positioned bytes) 0).answer () := by
  intro key bytes start
  -- a key of 33 bytes in a file that ends behind the first 32 of them, which are other ones there
  have twins : Twins (Source.ofBytes bytes) (Source.positioned bytes) bytes () () :=
    ⟨keeps_ofBytes bytes (), keeps_positioned bytes (), rfl, rfl⟩
  obtain ⟨lookups, -, -, tables, -⟩ := mapped_agrees_with_positioned.1 twins
  let probe : Probe := .enter (Hash.ofKey key) (Bytes.headerEntry bytes (Hash.ofKey key).bucket)
  have comes : Comes bytes key .fresh probe :=
    ⟨probe, .fresh (by decide +kernel), .here (by decide +kernel)⟩
  have candidate : Candidate bytes key probe.hash probe.next 16 := by
    constructor <;> decide +kernel
  have diverges : Diverges bytes key probe.hash probe.next 16 :=
    ⟨candidate, by decide +kernel, 0, by decide +kernel, by decide +kernel, by decide +kernel⟩
  have passed : (Database.findNext (Source.positioned bytes) key).answer start = .ok none := by
    decide +kernel
  exact ⟨((lookups key .fresh).2 probe 16 comes diverges).2.1, passed, tables 0⟩

end ConstDb
