import ConstDb.Proofs.Builder
import ConstDb.Proofs.InStep

/-!
# Builders in step

Two builders that add the same records answer alike as long as their outputs do, whatever the
buffers and the sinks are like: what else decides an answer, the entries and the position, does not
depend on the output (`start_inStep`, `add_inStep`, `finish_inStep`).
-/

namespace ConstDb

open Effect

/-! ## Refusals -/

/-- A builder refuses what cannot be stored in 32 bits, and everything after a failure. -/
def DbError.IsRefusal : DbError → Prop
  | .overflow _ | .aborted => True
  | _ => False

def Refuses {α : Type} (answer : Except DbError α) : Prop := ∀ e, answer = .error e → e.IsRefusal

/-- What fails here does not fit into 32 bits. -/
def Overflows {α : Type} (answer : Except DbError α) : Prop :=
  ∀ e, answer = .error e → ∃ cause, e = .overflow cause

theorem Overflows.refuses {α : Type} {answer : Except DbError α} (overflows : Overflows answer) :
    Refuses answer := by
  intro e eq
  obtain ⟨cause, rfl⟩ := overflows e eq
  trivial

theorem Overflows.bind {α β : Type} {answer : Except DbError α} {next : α → Except DbError β}
    (overflows : Overflows answer) (rest : ∀ a, Overflows (next a)) : Overflows (answer >>= next) := by
  cases answer with
  | ok a => exact rest a
  | error e =>
    rintro _ ⟨⟩
    exact overflows e rfl

theorem overflows_ok {α : Type} (a : α) : Overflows (.ok a) := fun _ eq => by cases eq

theorem Position.overflows_advance (position length : Nat) : Overflows (advance position length) := by
  unfold advance
  split
  · exact overflows_ok _
  · rintro _ ⟨⟩
    exact ⟨_, rfl⟩

theorem overflows_storedLength (what : String) (length : Nat) :
    Overflows (storedLength what length) := by
  unfold storedLength
  split
  · exact overflows_ok _
  · rintro _ ⟨⟩
    exact ⟨_, rfl⟩

theorem SlotTable.overflows_ofEntries (scratch entries : Array Slot) :
    Overflows (ofEntries scratch entries) :=
  (overflows_storedLength _ _).bind fun _ => overflows_ok _

theorem Builder.overflows_recordEnd (position : Nat) (record : Record) :
    Overflows (recordEnd position record) :=
  (overflows_storedLength _ _).bind fun _ => (overflows_storedLength _ _).bind fun _ =>
    (Position.overflows_advance _ _).bind fun _ => (Position.overflows_advance _ _).bind fun _ =>
      Position.overflows_advance _ _

/-! ## Outputs -/

/-- What a builder asks of its output is answered alike by two sinks behind their buffers, as long as
they are related. `shared` are the failures that both may meet. -/
structure OutputsInStep {σ τ : Type} (sink : Sink σ) (other : Sink τ)
    (rel : OutBuffer × σ → OutBuffer × τ → Prop) (shared : DbError → Prop) (broken : σ → Prop) :
    Prop where
  refused : ∀ {e}, e.IsRefusal → shared e
  put : ∀ {s t}, rel s t → ∀ bytes,
    InStep (OutBuffer.put sink bytes) (OutBuffer.put other bytes) s t (fun _ s _ t => rel s t)
      (fun e s t => shared (.io e) ∧ rel s t) fun _ s => broken s.2
  flush : ∀ {s t}, rel s t →
    InStep (OutBuffer.flush sink) (OutBuffer.flush other) s t (fun _ s _ t => rel s t)
      (fun e s t => shared (.io e) ∧ rel s t) fun _ s => broken s.2
  putFlush : ∀ {s t}, rel s t → ∀ bytes,
    InStep (OutBuffer.putFlush sink bytes) (OutBuffer.putFlush other bytes) s t
      (fun _ s _ t => rel s t) (fun e s t => shared (.io e) ∧ rel s t) fun _ s => broken s.2
  seek : ∀ {buffer buffer' s t}, rel (buffer, s) (buffer', t) → ∀ position,
    InStep (sink.seek position) (other.seek position) s t
      (fun _ s _ t => rel (buffer, s) (buffer', t))
      (fun e s t => shared (.seek e) ∧ rel (buffer, s) (buffer', t)) fun _ s => broken s
  flushSink : ∀ {buffer buffer' s t}, rel (buffer, s) (buffer', t) →
    InStep sink.flush other.flush s t (fun _ s _ t => rel (buffer, s) (buffer', t))
      (fun e s t => shared (.io e) ∧ rel (buffer, s) (buffer', t)) fun _ s => broken s

namespace Builder

/-- Two builders have come equally far, and their outputs are related. -/
structure Abreast {σ τ : Type} (rel : OutBuffer × σ → OutBuffer × τ → Prop) (state : Builder × σ)
    (other : Builder × τ) : Prop where
  entries_eq : state.1.entries = other.1.entries
  position_eq : state.1.position = other.1.position
  failed_eq : state.1.failed = other.1.failed
  output : rel (state.1.output, state.2) (other.1.output, other.2)

/-- Two actions on builders are in step, and leave the builders abreast. -/
abbrev Together {σ τ α : Type} (rel : OutBuffer × σ → OutBuffer × τ → Prop) (shared : DbError → Prop)
    (broken : σ → Prop) (action : Effect DbError (Builder × σ) α)
    (other : Effect DbError (Builder × τ) α) (state : Builder × σ) (state' : Builder × τ) : Prop :=
  InStep action other state state' (Alike (Abreast rel))
    (fun e state state' => shared e ∧ Abreast rel state state') fun _ state => broken state.2

section steps
variable {σ τ : Type} {sink : Sink σ} {other : Sink τ} {rel : OutBuffer × σ → OutBuffer × τ → Prop}
variable {shared : DbError → Prop} {broken : σ → Prop}
variable {state : Builder × σ} {state' : Builder × τ}

theorem onOutput_inStep {action : Effect IoError (OutBuffer × σ) Unit}
    {action' : Effect IoError (OutBuffer × τ) Unit} (abreast : Abreast rel state state')
    (step : InStep action action' (state.1.output, state.2) (state'.1.output, state'.2)
      (fun _ s _ t => rel s t) (fun e s t => shared (.io e) ∧ rel s t) fun _ s => broken s.2) :
    Together rel shared broken (onOutput action) (onOutput action') state state' := by
  obtain ⟨entries_eq, position_eq, failed_eq, -⟩ := abreast
  unfold onOutput
  refine InStep.within (InStep.adaptExcept (step.mono ?_ ?_ fun _ _ h => h))
  · exact fun _ _ _ _ related => ⟨rfl, entries_eq, position_eq, failed_eq, related⟩
  · exact fun _ _ _ h => ⟨h.1, entries_eq, position_eq, failed_eq, h.2⟩

theorem onSink_inStep {action : Effect IoError σ Unit} {action' : Effect IoError τ Unit}
    {cause : IoError → DbError} (abreast : Abreast rel state state')
    (step : InStep action action' state.2 state'.2
      (fun _ s _ t => rel (state.1.output, s) (state'.1.output, t))
      (fun e s t => shared (cause e) ∧ rel (state.1.output, s) (state'.1.output, t))
      fun _ s => broken s) :
    Together rel shared broken (onSink (action.adaptExcept cause))
      (onSink (action'.adaptExcept cause)) state state' := by
  obtain ⟨entries_eq, position_eq, failed_eq, -⟩ := abreast
  unfold onSink onSecond
  refine InStep.within (InStep.adaptExcept (step.mono ?_ ?_ fun _ _ h => h))
  · exact fun _ _ _ _ related => ⟨rfl, entries_eq, position_eq, failed_eq, related⟩
  · exact fun _ _ _ h => ⟨h.1, entries_eq, position_eq, failed_eq, h.2⟩

variable (outputs : OutputsInStep sink other rel shared broken)
include outputs

theorem ofExcept_inStep {α : Type} {answer : Except DbError α} (overflows : Overflows answer)
    (abreast : Abreast rel state state') :
    Together rel shared broken (Effect.ofExcept answer) (Effect.ofExcept answer) state state' :=
  inStep_ofExcept (fun _ _ => ⟨rfl, abreast⟩) fun e eq =>
    ⟨outputs.refused (overflows.refuses e eq), abreast⟩

/-! ## Adding records -/

theorem append_inStep (record : Record) (abreast : Abreast rel state state') :
    Together rel shared broken (append sink record) (append other record) state state' := by
  refine InStep.get_bind ?_
  dsimp only
  rw [abreast.position_eq]
  refine (ofExcept_inStep outputs (overflows_recordEnd _ _) abreast).bind ?_
  rintro stop state _ state' ⟨rfl, abreast⟩
  refine (onOutput_inStep abreast (outputs.put abreast.output _)).bind ?_
  rintro _ state _ state' ⟨-, abreast⟩
  refine (onOutput_inStep abreast (outputs.put abreast.output _)).bind ?_
  rintro _ state _ state' ⟨-, abreast⟩
  refine (onOutput_inStep abreast (outputs.put abreast.output _)).bind ?_
  rintro _ state _ state' ⟨-, entries_eq, position_eq, failed_eq, related⟩
  refine inStep_modify ⟨rfl, ?_, rfl, failed_eq, related⟩
  simp only [noteRecord, entries_eq, position_eq]

theorem add_inStep (record : Record) (abreast : Abreast rel state state') :
    Together rel shared broken (add sink record) (add other record) state state' := by
  have failed_eq := abreast.failed_eq
  cases trusted : state'.1.failed with
  | true =>
    rw [trusted] at failed_eq
    exact inStep_of_error (add_of_failed record failed_eq) (add_of_failed record trusted)
      ⟨outputs.refused trivial, abreast⟩
  | false =>
    rw [trusted] at failed_eq
    rcases (append_inStep outputs record abreast).cases with
      ⟨_, t, _, t', eq, eq', -, abreast⟩ | ⟨e, t, t', eq, eq', refused, abreast⟩ | ⟨e, t, eq, alone⟩
    · exact inStep_of_ok (add_of_append_ok failed_eq eq) (add_of_append_ok trusted eq') ⟨rfl, abreast⟩
    · exact inStep_of_error (add_of_append_error failed_eq eq) (add_of_append_error trusted eq')
        ⟨refused, abreast.entries_eq, abreast.position_eq, rfl, abreast.output⟩
    · exact inStep_of_broken (add_of_append_error failed_eq eq) alone

/-! ## Finishing -/

theorem advance_inStep (length : Nat) (abreast : Abreast rel state state') :
    Together rel shared broken (advance length) (advance length) state state' := by
  refine InStep.get_bind ?_
  dsimp only
  rw [abreast.position_eq]
  refine (ofExcept_inStep outputs (Position.overflows_advance _ _) abreast).bind ?_
  rintro position state _ state' ⟨rfl, abreast⟩
  exact inStep_modify ⟨rfl, abreast.entries_eq, rfl, abreast.failed_eq, abreast.output⟩

theorem putSlots_inStep (slots : List Slot) (abreast : Abreast rel state state') :
    Together rel shared broken (putSlots sink slots) (putSlots other slots) state state' := by
  induction slots generalizing state state' with
  | nil => exact inStep_pure ⟨rfl, abreast⟩
  | cons slot slots ih =>
    refine (onOutput_inStep abreast (outputs.put abreast.output _)).bind ?_
    rintro _ state _ state' ⟨-, abreast⟩
    refine (advance_inStep outputs _ abreast).bind ?_
    rintro _ state _ state' ⟨-, abreast⟩
    exact ih abreast

theorem putTables_inStep (buckets : Buckets) (rest : List Bucket) (header : ByteArray)
    (scratch : Array Slot) (abreast : Abreast rel state state') :
    Together rel shared broken (putTables sink buckets rest header scratch)
      (putTables other buckets rest header scratch) state state' := by
  induction rest generalizing header scratch state state' with
  | nil => exact inStep_pure ⟨rfl, abreast⟩
  | cons bucket rest ih =>
    refine (ofExcept_inStep outputs (SlotTable.overflows_ofEntries _ _) abreast).bind ?_
    rintro table state _ state' ⟨rfl, abreast⟩
    refine (ofExcept_inStep outputs (overflows_storedLength _ _) abreast).bind ?_
    rintro slots state _ state' ⟨rfl, abreast⟩
    refine InStep.get_bind ?_
    dsimp only
    rw [abreast.position_eq]
    refine (putSlots_inStep outputs _ abreast).bind ?_
    rintro _ state _ state' ⟨-, abreast⟩
    exact ih _ _ abreast

theorem finish_inStep (abreast : Abreast rel state state') :
    Together rel shared broken (finish sink) (finish other) state state' := by
  refine InStep.get_bind ?_
  dsimp only
  rw [abreast.failed_eq, abreast.entries_eq]
  cases state'.1.failed with
  | true => exact InStep.bind (inStep_throw ⟨outputs.refused trivial, abreast⟩) fun _ _ _ _ h => h
  | false =>
    refine (putTables_inStep outputs _ _ _ _ abreast).bind ?_
    rintro header state _ state' ⟨rfl, abreast⟩
    refine (onOutput_inStep abreast (outputs.flush abreast.output)).bind ?_
    rintro _ state _ state' ⟨-, abreast⟩
    refine (onSink_inStep abreast (outputs.seek abreast.output _)).bind ?_
    rintro _ state _ state' ⟨-, abreast⟩
    refine (onOutput_inStep abreast (outputs.putFlush abreast.output _)).bind ?_
    rintro _ state _ state' ⟨-, abreast⟩
    exact onSink_inStep abreast (outputs.flushSink abreast.output)

/-! ## Starting -/

theorem start_inStep {capacity capacity' : Nat} {s : σ} {t : τ}
    (related : rel (.ofCapacity capacity, s) (.ofCapacity capacity', t)) :
    InStep (start sink capacity) (start other capacity') s t
      (fun builder s builder' t => Abreast rel (builder, s) (builder', t))
      (fun e s t => shared e ∧ rel (.ofCapacity capacity, s) (.ofCapacity capacity', t))
      fun _ s => broken s := by
  refine InStep.bind (InStep.adaptExcept (outputs.seek related headerSize)) ?_
  exact fun _ _ _ _ related => inStep_pure ⟨rfl, rfl, rfl, related⟩

end steps

end Builder

end ConstDb
