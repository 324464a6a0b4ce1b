import ConstDb.Proofs.DumpInStep

/-!
# Reads that fail

Faults laid over a source that holds some bytes. A call on it is in step with the call on the source
itself up to the first read that fails (`Keeps.faulty_inStep`), so that no fault is ever taken for
something that the bytes say. Main statement: `faults_reported`.
-/

namespace ConstDb

open Effect

/-! ## Scripts of faults -/

abbrev Faults := List (Option IoError)

/-- Reads have used up the script as far as `rest`, and none of them has failed. -/
def Quiet (faults rest : Faults) : Prop := ∃ count, faults = List.replicate count none ++ rest

/-- Reads have used up the script as far as `rest`, and the last of them alone has failed. -/
def Struck (faults : Faults) (fault : IoError) (rest : Faults) : Prop := Quiet faults (some fault :: rest)

structure Reported (fault : IoError) (e : DbError) : Prop where
  truncated : fault.kind = .unexpectedEof → ∃ position, e = .truncated (.endedEarly position)
  io : fault.kind ≠ .unexpectedEof → e = .io fault

theorem quiet_refl (faults : Faults) : Quiet faults faults := ⟨0, rfl⟩

theorem Quiet.trans {faults between rest : Faults} (first : Quiet faults between)
    (second : Quiet between rest) : Quiet faults rest := by
  obtain ⟨count, rfl⟩ := first
  obtain ⟨more, rfl⟩ := second
  exact ⟨count + more, by simp [← List.append_assoc]⟩

theorem Struck.not_quiet {faults rest : Faults} {fault : IoError} (struck : Struck faults fault rest) :
    ¬ Quiet faults rest := by
  intro quiet
  obtain ⟨count, eq⟩ := struck
  obtain ⟨count', eq'⟩ := quiet
  -- a quiet script as long as the struck one has nothing in place of the fault
  have length := congrArg List.length (eq.symm.trans eq')
  simp only [List.length_append, List.length_replicate, List.length_cons] at length
  obtain rfl : count' = count + 1 := by omega
  rw [eq, List.replicate_succ', List.append_assoc] at eq'
  cases List.append_cancel_left eq'

theorem reported_readError (position : Nat) (fault : IoError) :
    Reported fault (Database.readError position fault) := by
  unfold Database.readError
  constructor
  · intro ended
    exact ⟨position, if_pos ended⟩
  · intro other
    exact if_neg other

/-! ## Reads under faults -/

section reads
variable {σ : Type} {db : Database σ} {bytes : ByteArray} {s : σ} {faults : Faults}

def Along (faults : Faults) (s : σ) (state : Faults × σ) (t : σ) : Prop :=
  state.2 = s ∧ t = s ∧ Quiet faults state.1

def Broken (faults : Faults) (s : σ) (e : DbError) (state : Faults × σ) : Prop :=
  state.2 = s ∧ ∃ fault, Struck faults fault state.1 ∧ Reported fault e

theorem Keeps.readAt_faulty_inStep (keeps : Keeps db bytes s) {state : Faults × σ} {t : σ}
    (along : Along faults s state t) (position length : Nat) :
    InUnison (Along faults s) (Broken faults s) (Database.readAt (Source.faulty db) position length)
      (db.readAt position length) state t := by
  refine readAt_inStep_of_read rfl along ?_
  intro inside
  obtain ⟨left, u⟩ := state
  obtain ⟨rfl, rfl, quiet⟩ := along
  have read := keeps.serves.read_eq rfl (inside.trans_eq keeps.serves.size_eq)
  cases left with
  | nil => exact inStep_of_ok (onSecond_ok read _) read ⟨rfl, rfl, rfl, quiet⟩
  | cons entry left =>
    cases entry with
    | none => exact inStep_of_ok (onSecond_ok read _) read ⟨rfl, rfl, rfl, quiet.trans ⟨1, rfl⟩⟩
    | some fault => exact inStep_of_broken rfl ⟨rfl, fault, quiet, reported_readError position fault⟩

theorem Keeps.faulty_inStep (keeps : Keeps db bytes s) (faults : Faults) :
    ReadsInStep (Source.faulty db) db (Along faults s) (Broken faults s) where
  readAt along := keeps.readAt_faulty_inStep along
  keyMatches {state t} along key position := by
    have same : (Source.faulty db).mapped state = db.mapped t := by
      show db.mapped state.2 = db.mapped t
      rw [along.1, along.2.1]
    exact keyMatches_inStep keeps.readAt_faulty_inStep along same key position

end reads

/-! ## Calls and listings under faults -/

section outcomes
variable {σ α : Type} {db : Database σ} {bytes : ByteArray} {s : σ} {faults : Faults}

/-- A call answers as it does without the faults, or says that a read has failed. -/
structure FailsOpenly (faults : Faults) (call : Effect DbError (Faults × σ) α)
    (clear : Effect DbError σ α) (s : σ) : Prop where
  outcome : call.answer (faults, s) = clear.answer s ∨
    ∃ fault e, Struck faults fault (call.leaves (faults, s)).1 ∧ Reported fault e ∧
      call.answer (faults, s) = .error e
  quiet : Quiet faults (call.leaves (faults, s)).1 → call.answer (faults, s) = clear.answer s

/-- Items as they are without the faults, or some of the first of them and then the failed read.
`rest` is what has not been used up of the faults. -/
structure EndsOpenly (faults rest : Faults) (items clear : List (Except DbError α)) : Prop where
  outcome : items = clear ∨
    ∃ (data : List α) (fault : IoError) (e : DbError), Struck faults fault rest ∧ Reported fault e ∧
      data.map .ok <+: clear ∧ items = data.map .ok ++ [.error e]
  quiet : Quiet faults rest → items = clear

theorem FailsOpenly.of_inStep {call : Effect DbError (Faults × σ) α} {clear : Effect DbError σ α}
    (step : InUnison (Along faults s) (Broken faults s) call clear (faults, s) s) :
    FailsOpenly faults call clear s := by
  rcases step.answer_cases with ⟨same, -⟩ | ⟨e, failed, -, fault, struck, reported⟩
  · exact ⟨.inl same, fun _ => same⟩
  · exact ⟨.inr ⟨fault, e, struck, reported, failed⟩, fun quiet => absurd quiet struck.not_quiet⟩

theorem EndsOpenly.of_inStep {ρ : Type} {walk : Walk DbError (ρ × Faults × σ) α}
    {clear : Walk DbError (ρ × σ) α} (halts : walk.Halts)
    (step : ∀ state t, OnSecond (Along faults s) state t → walk.InStep clear
      (OnSecond (Along faults s)) (fun e state => Broken faults s e state.2) state t)
    (limit : Nat) {state : ρ × Faults × σ} {t : ρ × σ} (along : OnSecond (Along faults s) state t) :
    EndsOpenly faults (walk.items limit state).2.2.1 (walk.items limit state).1
      (clear.items limit t).1 := by
  rcases Walk.items_inStep_of_halts halts step limit along with
    ⟨same, -⟩ | ⟨data, e, ⟨-, fault, struck, reported⟩, first, cut⟩
  · exact ⟨.inl same, fun _ => same⟩
  · exact ⟨.inr ⟨data, fault, e, struck, reported, first, cut⟩,
      fun quiet => absurd quiet struck.not_quiet⟩

structure ListsOpenly (faults : Faults) (call : Effect DbError (Faults × σ) (List (Except DbError α)))
    (clear : Effect DbError σ (List (Except DbError α))) (s : σ) : Prop where
  outcome : call.answer (faults, s) = clear.answer s ∨
    ∃ fault e, Struck faults fault (call.leaves (faults, s)).1 ∧ Reported fault e ∧
      (call.answer (faults, s) = .error e ∨ ∃ (data : List α) (items : List (Except DbError α)),
        data.map .ok <+: items ∧ clear.answer s = .ok items ∧
          call.answer (faults, s) = .ok (data.map .ok ++ [.error e]))
  quiet : Quiet faults (call.leaves (faults, s)).1 → call.answer (faults, s) = clear.answer s

theorem Keeps.records_listsOpenly (keeps : Keeps db bytes s) (faults : Faults) :
    ListsOpenly faults (Database.records (Source.faulty db)) db.records s := by
  have reads := keeps.faulty_inStep faults
  have along : Along faults s (faults, s) s := ⟨rfl, rfl, quiet_refl faults⟩
  rcases (recordArea_inStep reads.readAt rfl along).cases with
    ⟨area, state, _, t, eq, eq', rfl, along⟩ | ⟨e, state, t, eq, eq', -⟩ |
    ⟨e, state, eq, -, fault, struck, reported⟩
  · -- the area is known, and the records in it are a walk of their own
    have start : OnSecond (Along faults s) (area, state) (area, t) := ⟨rfl, along⟩
    have ends := EndsOpenly.of_inStep (Database.nextRecord_halts _) (nextRecord_inStep reads.readAt)
      area.remaining start
    have here : Database.records (Source.faulty db) (faults, s) =
      .ok (Database.restRecords (Source.faulty db) area state).1
        (Database.restRecords (Source.faulty db) area state).2.2 := by
      simp only [Database.records, eq]
    have there : db.records s = .ok (db.restRecords area t).1 (db.restRecords area t).2.2 := by
      simp only [Database.records, eq']
    constructor
    · rcases ends.outcome with same | ⟨data, fault, e, struck, reported, first, cut⟩
      · left
        simp only [answer, here, there]
        exact congrArg _ same
      · refine .inr ⟨fault, e, ?_, reported, .inr ⟨data, _, first, ?_, ?_⟩⟩
        · simp only [leaves, here]
          exact struck
        · simp only [answer, there]
          rfl
        · simp only [answer, here]
          exact congrArg _ cut
    · intro quiet
      simp only [leaves, here] at quiet
      simp only [answer, here, there]
      exact congrArg _ (ends.quiet quiet)
  · have same : answer (Database.records (Source.faulty db)) (faults, s) = db.records.answer s := by
      simp only [answer, Database.records, eq, eq']
    exact ⟨.inl same, fun _ => same⟩
  · constructor
    · refine .inr ⟨fault, e, ?_, reported, .inl ?_⟩
      · simpa only [leaves, Database.records, eq] using struck
      · simp only [answer, Database.records, eq]
    · intro quiet
      simp only [leaves, Database.records, eq] at quiet
      exact absurd quiet struck.not_quiet

/-- **No wrong answer when reads fail.** Whichever reads of a source fail, every call on it answers
what the bytes say or tells of the first read that failed, every listing is whole or ends with that
failure, and a listing that has ended or failed hands out nothing more. -/
theorem faults_reported (keeps : Keeps db bytes s) (faults : Faults) :
    let under : Database (Faults × σ) := Source.faulty db
    (∀ key, FailsOpenly faults (under.get key) (db.get key) s ∧
      FailsOpenly faults (under.contains key) (db.contains key) s) ∧
    (∀ bucket, FailsOpenly faults (under.table bucket) (db.table bucket) s) ∧
    (∀ key values, EndsOpenly faults (under.restValues key values (faults, s)).2.2.1
      (under.restValues key values (faults, s)).1 (db.restValues key values s).1) ∧
    ListsOpenly faults under.records db.records s ∧
    (∀ key, (under.nextValue key).Settles ∧ (under.nextValue key).Halts ∧ ∀ values state,
      (under.nextValue key).Over (under.restValues key values state).2 ∧
        (db.nextValue key).Over (db.restValues key values s).2) ∧
    under.nextRecord.Settles ∧ under.nextRecord.Halts ∧ ∀ area state,
      under.nextRecord.Over (under.restRecords area state).2 ∧
        db.nextRecord.Over (db.restRecords area s).2 := by
  intro under
  have reads := keeps.faulty_inStep faults
  have along : Along faults s (faults, s) s := ⟨rfl, rfl, quiet_refl faults⟩
  refine ⟨fun key => ⟨?_, ?_⟩, fun bucket => ?_, fun key values => ?_,
    keeps.records_listsOpenly faults, fun key => ⟨?_, ?_, fun values state => ?_⟩, ?_, ?_,
    fun area state => ?_⟩
  · exact .of_inStep (reads.get_inStep key along)
  · exact .of_inStep (reads.contains_inStep key along)
  · exact .of_inStep (reads.table_inStep along bucket)
  · exact .of_inStep (Database.nextValue_halts _ key) (reads.nextValue_inStep key) _ ⟨rfl, along⟩
  · exact Database.nextValue_settles under key
  · exact Database.nextValue_halts under key
  · exact ⟨Database.restValues_over under key values state, Database.restValues_over db key values s⟩
  · exact Database.nextRecord_settles under
  · exact Database.nextRecord_halts under
  · exact ⟨Database.restRecords_over under area state, Database.restRecords_over db area s⟩

theorem faults_reported_positioned :
    let db : Database Unit := Source.positioned (Bytes.zeros 48)
    let fault : IoError := ⟨.resourceBusy, "busy"⟩
    (Database.get (Source.faulty db) .empty).answer ([some fault], ()) = .error (.io fault) ∧
      FailsOpenly [some fault] (Database.get (Source.faulty db) .empty) (db.get .empty) () ∧
      (db.get .empty).answer () = .ok none := by
  intro db fault
  have reported := faults_reported (keeps_positioned (Bytes.zeros 48) ()) [some fault]
  exact ⟨by rfl, (reported.1 .empty).1, by rfl⟩

end outcomes

end ConstDb
