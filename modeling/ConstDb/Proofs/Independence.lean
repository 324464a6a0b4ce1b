import ConstDb.Proofs.Calls

/-!
# Builds that do not depend on the sink

What the calls of a build answer, and what is in the file in the end, does not depend on the size of
the buffer or on how the sink takes what it is offered; and a build fails only when a call of the sink
is faulty, as long as the records fit. Main statement: `independent_of_sink`.
-/

namespace ConstDb

open Effect Image

namespace Builder

/-! ## Builds call by call -/

/-- What a call answers, and the number of records and the position that the builder shows after it,
if there is a builder. -/
structure Step where
  answer : Except DbError Unit
  books : Option (Nat × Nat)

def AllWell (steps : List Step) : Prop := ∀ step ∈ steps, step.answer = .ok ()

@[simp] theorem allWell_nil : AllWell [] := fun _ member => absurd member List.not_mem_nil

@[simp] theorem allWell_cons {step : Step} {steps : List Step} :
    AllWell (step :: steps) ↔ step.answer = .ok () ∧ AllWell steps :=
  List.forall_mem_cons

theorem allWell_concat {step : Step} {steps : List Step} :
    AllWell (steps ++ [step]) ↔ AllWell steps ∧ step.answer = .ok () := by
  simp only [AllWell, List.forall_mem_append, List.forall_mem_singleton]

theorem not_allWell_of_error {step : Step} {steps : List Step} {e : DbError}
    (failed : step.answer = .error e) : ¬ AllWell (step :: steps) := by
  rw [allWell_cons, failed]
  rintro ⟨⟨⟩, -⟩

def Step.after (answer : Except DbError Unit) (builder : Builder) : Step :=
  ⟨answer, some (builder.size, builder.position)⟩

section steps
variable {σ : Type}

def call (action : Effect DbError (Builder × σ) Unit) (state : Builder × σ) :
    Step × (Builder × σ) :=
  match action state with
  | .ok () state => (.after (.ok ()) state.1, state)
  | .error e state => (.after (.error e) state.1, state)

/-- The records are added one after the other, whatever becomes of those before, and then the build is
finished. -/
def callAll (sink : Sink σ) : List Record → Builder × σ → List Step × (Builder × σ)
  | [], state =>
    let (step, state) := call (finish sink) state
    ([step], state)
  | record :: records, state =>
    let (step, state) := call (add sink record) state
    let (steps, state) := callAll sink records state
    (step :: steps, state)

def session (sink : Sink σ) (capacity : Nat) (records : List Record) (s : σ) : List Step × σ :=
  match start sink capacity s with
  | .error e s => ([⟨.error e, none⟩], s)
  | .ok builder s =>
    let (steps, state) := callAll sink records (builder, s)
    (.after (.ok ()) builder :: steps, state.2)

variable {sink : Sink σ} {state t : Builder × σ}

theorem call_ok {action : Effect DbError (Builder × σ) Unit} (eq : action state = .ok () t) :
    call action state = (.after (.ok ()) t.1, t) := by
  simp only [call, eq]

theorem call_error {action : Effect DbError (Builder × σ) Unit} {e : DbError}
    (eq : action state = .error e t) : call action state = (.after (.error e) t.1, t) := by
  simp only [call, eq]

theorem callAll_nil (sink : Sink σ) (state : Builder × σ) :
    callAll sink [] state = ([(call (finish sink) state).1], (call (finish sink) state).2) := rfl

theorem callAll_cons (sink : Sink σ) (record : Record) (records : List Record) (state : Builder × σ) :
    callAll sink (record :: records) state =
      ((call (add sink record) state).1 :: (callAll sink records (call (add sink record) state).2).1,
        (callAll sink records (call (add sink record) state).2).2) := rfl

theorem callAll_eq_ok_iff (records : List Record) :
    (do addAll sink records; finish sink : Effect DbError (Builder × σ) Unit) state = .ok () t ↔
      AllWell (callAll sink records state).1 ∧ (callAll sink records state).2 = t := by
  induction records generalizing state with
  | nil =>
    have none : (do addAll sink []; finish sink : Effect DbError (Builder × σ) Unit) state =
        finish sink state := rfl
    rw [none, callAll_nil]
    cases eq : finish sink state with
    | ok _ u => simp [call_ok eq, Step.after]
    | error e u => simp [call_error eq, Step.after]
  | cons record records ih =>
    rw [callAll_cons]
    cases eq : add sink record state with
    | ok _ u =>
      have rest : (do addAll sink (record :: records); finish sink : Effect DbError _ Unit) state =
          (do addAll sink records; finish sink : Effect DbError _ Unit) u := by
        simp only [addAll, Effect.bind_apply, eq]
      rw [rest, ih, call_ok eq]
      simp [Step.after]
    | error e u =>
      have stop : (do addAll sink (record :: records); finish sink : Effect DbError _ Unit) state =
          .error e u := by
        simp only [addAll, Effect.bind_apply, eq]
      rw [stop, call_error eq]
      simp [Step.after]

theorem session_of_error {capacity : Nat} {s u : σ} {e : DbError} (records : List Record)
    (eq : start sink capacity s = .error e u) :
    session sink capacity records s = ([⟨.error e, none⟩], u) := by
  simp only [session, eq]

theorem session_of_ok {capacity : Nat} {s u : σ} {builder : Builder} (records : List Record)
    (eq : start sink capacity s = .ok builder u) :
    session sink capacity records s =
      (.after (.ok ()) builder :: (callAll sink records (builder, u)).1,
        (callAll sink records (builder, u)).2.2) := by
  simp only [session, eq]

theorem run_of_session {capacity : Nat} {records : List Record} {s : σ}
    (well : AllWell (session sink capacity records s).1) :
    run sink capacity records s = .ok () (session sink capacity records s).2 := by
  cases eq : start sink capacity s with
  | error e u =>
    rw [session_of_error records eq, allWell_cons] at well
    cases well.1
  | ok builder u =>
    rw [session_of_ok records eq] at well ⊢
    exact run_of_ok eq ((callAll_eq_ok_iff records).2 ⟨(allWell_cons.1 well).2, rfl⟩)

theorem session_of_run {capacity : Nat} {records : List Record} {s u : σ}
    (built : run sink capacity records s = .ok () u) : AllWell (session sink capacity records s).1 := by
  cases eq : start sink capacity s with
  | error e v =>
    rw [run_of_start_error records eq] at built
    cases built
  | ok builder v =>
    cases eq' : (do addAll sink records; finish sink : Effect DbError _ Unit) (builder, v) with
    | error e w =>
      rw [run_of_error eq eq'] at built
      cases built
    | ok _ w =>
      rw [session_of_ok records eq]
      exact allWell_cons.2 ⟨rfl, ((callAll_eq_ok_iff records).1 eq').1⟩

end steps

/-! ## Sessions in step -/

section sessions
variable {σ τ : Type} {sink : Sink σ} {other : Sink τ} {rel : OutBuffer × σ → OutBuffer × τ → Prop}
variable {shared : DbError → Prop} {broken : σ → Prop}
variable {state : Builder × σ} {state' : Builder × τ}

/-- The same steps, in which nothing goes wrong but failures that are `shared`. -/
def SameSteps (shared : DbError → Prop) (steps steps' : List Step) : Prop :=
  steps = steps' ∧ ∀ step ∈ steps, ∀ e, step.answer = .error e → shared e

theorem sameSteps_nil : SameSteps shared [] [] := ⟨rfl, fun _ member => absurd member List.not_mem_nil⟩

theorem SameSteps.cons {step : Step} {steps steps' : List Step} (same : SameSteps shared steps steps')
    (first : ∀ e, step.answer = .error e → shared e) :
    SameSteps shared (step :: steps) (step :: steps') := by
  obtain ⟨rfl, others⟩ := same
  refine ⟨rfl, fun other member => ?_⟩
  rcases List.mem_cons.1 member with rfl | member
  · exact first
  · exact others other member

theorem Step.after_eq (answer : Except DbError Unit) (abreast : Abreast rel state state') :
    Step.after answer state.1 = .after answer state'.1 := by
  rw [Step.after, Step.after, size, size, abreast.entries_eq, abreast.position_eq]

theorem call_inStep {action : Effect DbError (Builder × σ) Unit}
    {action' : Effect DbError (Builder × τ) Unit}
    (step : Together rel shared broken action action' state state') :
    ((call action state).1 = (call action' state').1 ∧
      (∀ e, (call action state).1.answer = .error e → shared e) ∧
      Abreast rel (call action state).2 (call action' state').2) ∨
    ∃ e t, action state = .error e t ∧ broken t.2 := by
  rcases step.cases with ⟨_, t, _, t', eq, eq', -, abreast⟩ | ⟨e, t, t', eq, eq', known, abreast⟩ |
    ⟨e, t, eq, alone⟩
  · rw [call_ok eq, call_ok eq']
    refine .inl ⟨Step.after_eq _ abreast, ?_, abreast⟩
    rintro e ⟨⟩
  · rw [call_error eq, call_error eq']
    refine .inl ⟨Step.after_eq _ abreast, ?_, abreast⟩
    rintro e ⟨⟩
    exact known
  · exact .inr ⟨e, t, eq, alone⟩

theorem failed_of_add_error {record : Record} {e : DbError} {t : Builder × σ}
    (eq : add sink record state = .error e t) : t.1.failed = true := by
  cases trusted : state.1.failed with
  | true =>
    rw [add_of_failed record trusted] at eq
    cases eq
    exact trusted
  | false =>
    cases appended : append sink record state with
    | ok _ u =>
      rw [add_of_append_ok trusted appended] at eq
      cases eq
    | error e u =>
      rw [add_of_append_error trusted appended] at eq
      cases eq
      rfl

/-- After a failure nothing is asked of the sink any more. -/
theorem callAll_of_failed (records : List Record) (failed : state.1.failed = true) :
    (callAll sink records state).2 = state := by
  induction records with
  | nil => rw [callAll_nil, call_error (finish_of_failed failed)]
  | cons record records ih => rw [callAll_cons, call_error (add_of_failed record failed), ih]

variable (outputs : OutputsInStep sink other rel shared broken)
include outputs

theorem callAll_inStep (records : List Record) (abreast : Abreast rel state state') :
    (SameSteps shared (callAll sink records state).1 (callAll other records state').1 ∧
      Abreast rel (callAll sink records state).2 (callAll other records state').2) ∨
    ¬ AllWell (callAll sink records state).1 ∧ broken (callAll sink records state).2.2 := by
  induction records generalizing state state' with
  | nil =>
    rw [callAll_nil, callAll_nil]
    rcases call_inStep (finish_inStep outputs abreast) with ⟨same, known, abreast⟩ | ⟨e, t, eq, alone⟩
    · refine .inl ⟨?_, abreast⟩
      rw [← same]
      exact sameSteps_nil.cons known
    · rw [call_error eq]
      exact .inr ⟨not_allWell_of_error rfl, alone⟩
  | cons record records ih =>
    rw [callAll_cons, callAll_cons]
    rcases call_inStep (add_inStep outputs record abreast) with ⟨same, known, abreast⟩ | ⟨e, t, eq, alone⟩
    · rcases ih abreast with ⟨rest, abreast⟩ | ⟨fails, alone⟩
      · refine .inl ⟨?_, abreast⟩
        rw [← same]
        exact rest.cons known
      · exact .inr ⟨fun well => fails (allWell_cons.1 well).2, alone⟩
    · -- the builder has failed: the calls that follow are refused, and the sink stays as it is
      rw [call_error eq]
      refine .inr ⟨not_allWell_of_error rfl, ?_⟩
      rwa [callAll_of_failed records (failed_of_add_error eq)]

theorem session_inStep (capacity capacity' : Nat) (records : List Record) {s : σ} {t : τ}
    (related : rel (.ofCapacity capacity, s) (.ofCapacity capacity', t)) :
    (SameSteps shared (session sink capacity records s).1 (session other capacity' records t).1 ∧
      ∃ buffer buffer', rel (buffer, (session sink capacity records s).2)
        (buffer', (session other capacity' records t).2)) ∨
    ¬ AllWell (session sink capacity records s).1 ∧ broken (session sink capacity records s).2 := by
  rcases (start_inStep outputs related).cases with
    ⟨builder, s', builder', t', eq, eq', abreast⟩ | ⟨e, s', t', eq, eq', known, related⟩ |
    ⟨e, s', eq, alone⟩
  · rw [session_of_ok records eq, session_of_ok records eq']
    rcases callAll_inStep outputs records abreast with ⟨rest, last⟩ | ⟨fails, alone⟩
    · refine .inl ⟨?_, _, _, last.output⟩
      rw [Step.after_eq _ abreast]
      refine rest.cons ?_
      rintro e ⟨⟩
    · exact .inr ⟨fun well => fails (allWell_cons.1 well).2, alone⟩
  · rw [session_of_error records eq, session_of_error records eq']
    refine .inl ⟨sameSteps_nil.cons ?_, _, _, related⟩
    rintro _ ⟨⟩
    exact known
  · rw [session_of_error records eq]
    exact .inr ⟨not_allWell_of_error rfl, alone⟩

end sessions

/-- A sink that may fail takes the same steps as one that does not, or some step fails. -/
theorem session_failsInto {σ τ : Type} {sink : Sink σ} {other : Sink τ} {good bad : σ → Prop}
    {good' : τ → Prop} {s : σ} {t : τ} (fails : sink.FailsInto good bad)
    (steady : other.FailsInto good' fun _ => False) (capacity capacity' : Nat)
    (records : List Record) (h : good s) (h' : good' t) :
    (SameSteps DbError.IsRefusal (session sink capacity records s).1
        (session other capacity' records t).1 ∧ good (session sink capacity records s).2) ∨
      ¬ AllWell (session sink capacity records s).1 ∧ bad (session sink capacity records s).2 := by
  have outputs := OutputsInStep.of_failsInto fails steady
  rcases session_inStep outputs capacity capacity' records ⟨h, h'⟩ with ⟨same, _, _, last, -⟩ | alone
  · exact .inl ⟨same, last⟩
  · exact .inr alone

theorem session_wraps {σ τ : Type} {outer : Sink τ} {inner : Sink σ} {view : τ → σ}
    (wraps : outer.Wraps inner view) (capacity : Nat) (records : List Record) (t : τ) :
    (session outer capacity records t).1 = (session inner capacity records (view t)).1 ∧
      view (session outer capacity records t).2 = (session inner capacity records (view t)).2 := by
  have start : SameOutput view (.ofCapacity capacity, t) (.ofCapacity capacity, view t) := ⟨rfl, rfl⟩
  rcases session_inStep wraps.outputsInStep capacity capacity records start with
    ⟨same, _, _, -, last⟩ | ⟨-, never⟩
  · exact ⟨same.1, last⟩
  · exact never.elim

theorem session_of_fits (capacity : Nat) {records : List Record} (fits : Fits records) :
    AllWell (session MemorySink.calls capacity records .empty).1 := by
  have ends := run_ends MemorySink.fileLike_mild capacity records MemorySink.showsMild_empty
  obtain ⟨_, t, built, -⟩ := ends.exists_ok fun e t failed => failed.1.elim id (· fits)
  exact session_of_run built

/-- **Buffers and sinks do not show.** Every call of a build answers alike, whatever the size of the
buffer is and however the sinks take what they are offered, and in the end the same bytes are there. A
sink that fails makes a build fail that fits, and nothing else does. -/
theorem independent_of_sink :
    (∀ {σ τ : Type} {sink : Sink σ} {other : Sink τ} {shows : σ → ByteArray → Nat → Prop}
      {shows' : τ → ByteArray → Nat → Prop}, FileLike sink shows False → FileLike other shows' False →
      ∀ (capacity capacity' : Nat) (records : List Record) {old : ByteArray} {offset offset' : Nat}
        {s : σ} {t : τ}, shows s old offset → shows' t old offset' →
      (session sink capacity records s).1 = (session other capacity' records t).1 ∧
        (∀ step ∈ (session sink capacity records s).1, Refuses step.answer) ∧
        (AllWell (session sink capacity records s).1 →
          ∃ content offset offset', shows (session sink capacity records s).2 content offset ∧
            shows' (session other capacity' records t).2 content offset')) ∧
    ∀ {σ : Type} (sink : Sink σ) (capacity : Nat) (records : List Record) (s : σ),
      (session sink.logged capacity records (#[], s)).1 = (session sink capacity records s).1 ∧
        (session sink.logged capacity records (#[], s)).2.2 = (session sink capacity records s).2 ∧
        (Fits records → (AllWell (session sink capacity records s).1 ↔
          (session sink.logged capacity records (#[], s)).2.1.Faultless)) := by
  constructor
  · intro σ τ sink other shows shows' file file' capacity capacity' records old offset offset' s t
      start start'
    rcases session_failsInto file.steady file'.steady capacity capacity' records ⟨_, _, start⟩
      ⟨_, _, start'⟩ with ⟨⟨same, refuses⟩, -⟩ | ⟨-, never⟩
    · refine ⟨same, refuses, fun well => ?_⟩
      obtain ⟨-, offset, shown⟩ := run_image file start (run_of_session well)
      rw [same] at well
      obtain ⟨-, offset', shown'⟩ := run_image file' start' (run_of_session well)
      exact ⟨_, offset, offset', shown, shown'⟩
    · exact never.elim
  · intro σ sink capacity records s
    obtain ⟨same, last⟩ := session_wraps sink.logged_wraps capacity records (#[], s)
    refine ⟨same, last, fun fits => ?_⟩
    -- a sink in memory that does its part tells what the calls answer unless one is faulty
    have well := session_of_fits 0 fits
    have empty : ((#[], s) : Log × σ).1.Faultless := Log.faultless_empty
    rcases session_failsInto (Sink.logged_failsInto sink) MemorySink.fileLike_mild.steady capacity 0
        records empty ⟨_, _, MemorySink.showsMild_empty⟩ with ⟨⟨like, -⟩, faultless⟩ | ⟨fails, faulty⟩
    · rw [← same, like]
      exact ⟨fun _ => faultless, fun _ => well⟩
    · rw [← same]
      exact ⟨fun well => absurd well fails, fun faultless => absurd faultless faulty⟩

/-- An empty sink that takes three bytes at a time, and is interrupted before each write. -/
def choppySink : MemorySink :=
  { MemorySink.empty with
    writes := ⟨[], [.fail ⟨.interrupted, "signal"⟩, .accept 3], .inr ⟨.accept 3, by simp, rfl⟩⟩ }

theorem independent_of_sink_choppy :
    let records : List Record := [⟨"k".toUTF8, "1".toUTF8⟩, ⟨.empty, .empty⟩]
    (session MemorySink.calls 0 records .empty).1 = (session MemorySink.calls 20 records choppySink).1 ∧
      (session MemorySink.calls 0 records .empty).2.content =
        (session MemorySink.calls 20 records choppySink).2.content ∧
      (AllWell (session MemorySink.calls 20 records choppySink).1 ↔
        (session MemorySink.calls.logged 20 records (#[], choppySink)).2.1.Faultless) := by
  intro records
  have fits : Fits records := by decide
  have choppy : MemorySink.ShowsMild choppySink .empty 0 := ⟨rfl, rfl, rfl, by decide, rfl, rfl⟩
  obtain ⟨same, -, contents⟩ := independent_of_sink.1 MemorySink.fileLike_mild MemorySink.fileLike_mild
    0 20 records MemorySink.showsMild_empty choppy
  obtain ⟨_, _, _, shown, shown'⟩ := contents (session_of_fits 0 fits)
  refine ⟨same, ?_, (independent_of_sink.2 MemorySink.calls 20 records choppySink).2.2 fits⟩
  rw [shown.2.1, shown'.2.1]

end Builder

end ConstDb
