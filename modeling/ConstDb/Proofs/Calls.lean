import ConstDb.Proofs.BuildInStep
import ConstDb.Proofs.Output

/-!
# The calls of a sink

`Sink.logged` keeps a log of the calls made to a sink and of how each of them went. Writing on after
calls that are interrupted or take part of an offer goes well until a call is `Faulty`
(`Sink.logged_failsInto`). A sink that is wrapped so that what is done with it is noted answers as it
does without (`Sink.Wraps.outputsInStep`), and keeping a log is a case of that (`Sink.logged_wraps`).
-/

namespace ConstDb

open Effect

/-! ## Logs -/

/-- A call of a sink, and how it went. -/
inductive Call where
  | wrote (offered : Nat) (taken : Except IoError Nat)
  | sought (position : Nat) (answer : Except IoError Unit)
  | flushed (answer : Except IoError Unit)

namespace Call

/-- A call that a writer cannot make up for: all failures but interrupted writes, and writes that take
nothing of what they are offered. -/
def Faulty : Call → Prop
  | .wrote offered (.ok taken) => taken = 0 ∧ offered ≠ 0
  | .wrote _ (.error e) => e.isInterrupted = false
  | .sought _ (.error _) | .flushed (.error _) => True
  | .sought _ (.ok _) | .flushed (.ok _) => False

instance : DecidablePred Faulty
  | .wrote offered (.ok taken) => inferInstanceAs (Decidable (taken = 0 ∧ offered ≠ 0))
  | .wrote _ (.error e) => inferInstanceAs (Decidable (e.isInterrupted = false))
  | .sought _ (.error _) | .flushed (.error _) => inferInstanceAs (Decidable True)
  | .sought _ (.ok _) | .flushed (.ok _) => inferInstanceAs (Decidable False)

end Call

abbrev Log := Array Call

namespace Log

def Faultless (log : Log) : Prop := ∀ call ∈ log, ¬ call.Faulty

theorem faultless_empty : Faultless #[] := fun call member =>
  absurd member (Array.not_mem_empty call)

theorem faultless_push {log : Log} {call : Call} :
    Faultless (log.push call) ↔ Faultless log ∧ ¬ call.Faulty := by
  simp only [Faultless, Array.mem_push, or_imp, forall_and, forall_eq]

end Log

/-- The action, and a log in which `note` enters how it went. -/
def logging {σ α : Type} (note : Except IoError α → Call) (action : Effect IoError σ α) :
    Effect IoError (Log × σ) α := fun (log, s) =>
  match action s with
  | .ok a s => .ok a (log.push (note (.ok a)), s)
  | .error e s => .error e (log.push (note (.error e)), s)

section logging
variable {σ α : Type} {note : Except IoError α → Call} {action : Effect IoError σ α} {s t : σ}

theorem logging_ok {a : α} (log : Log) (eq : action s = .ok a t) :
    logging note action (log, s) = .ok a (log.push (note (.ok a)), t) := by
  simp only [logging, eq]

theorem logging_error {e : IoError} (log : Log) (eq : action s = .error e t) :
    logging note action (log, s) = .error e (log.push (note (.error e)), t) := by
  simp only [logging, eq]

theorem logging_inStep (state : Log × σ) :
    InUnison (fun state s => state.2 = s) (fun _ _ => False) (logging note action) action state
      state.2 := by
  obtain ⟨log, s⟩ := state
  cases eq : action s with
  | ok a t => exact inStep_of_ok (logging_ok log eq) eq ⟨rfl, rfl⟩
  | error e t => exact inStep_of_error (logging_error log eq) eq rfl

theorem logging_keeps {post : α → σ → Prop} {failed : IoError → σ → Prop} {state : Log × σ}
    (ends : Ends action state.2 post failed) :
    Ends (logging note action) state (fun a t => post a t.2) fun e t => failed e t.2 := by
  obtain ⟨log, s⟩ := state
  cases eq : action s with
  | ok a t => exact ends_of_ok (logging_ok log eq) (ends.of_ok eq)
  | error e t => exact ends_of_error (logging_error log eq) (ends.of_error eq)

theorem logging_ends {state : Log × σ} (faultless : state.1.Faultless) :
    Ends (logging note action) state
      (fun a state => state.1.Faultless ↔ ¬ (note (.ok a)).Faulty)
      fun e state => state.1.Faultless ↔ ¬ (note (.error e)).Faulty := by
  obtain ⟨log, s⟩ := state
  have after : ∀ call : Call, Log.Faultless (log.push call) ↔ ¬ call.Faulty := fun call =>
    Log.faultless_push.trans (and_iff_right faultless)
  cases eq : action s with
  | ok a t => exact ends_of_ok (logging_ok log eq) (after _)
  | error e t => exact ends_of_error (logging_error log eq) (after _)

end logging

namespace Sink

variable {σ : Type}

def logged (sink : Sink σ) : Sink (Log × σ) where
  write bytes := logging (.wrote bytes.size) (sink.write bytes)
  seek position := logging (.sought position) (sink.seek position)
  flush := logging .flushed sink.flush
  patience state := sink.patience state.2
  write_le := by
    rintro bytes ⟨log, s⟩ count state' h
    cases eq : sink.write bytes s with
    | ok count t =>
      rw [logging_ok log eq] at h
      cases h
      exact sink.write_le eq
    | error e t =>
      rw [logging_error log eq] at h
      cases h
  patience_lt := by
    rintro bytes ⟨log, s⟩ e state' h interrupted
    cases eq : sink.write bytes s with
    | ok count t =>
      rw [logging_ok log eq] at h
      cases h
    | error e t =>
      rw [logging_error log eq] at h
      cases h
      exact sink.patience_lt eq interrupted

/-! ## Sinks that fail into a bad state -/

/-- Calls that go well, or can be made up for, leave a good state, and others a bad one. -/
structure FailsInto (sink : Sink σ) (good bad : σ → Prop) : Prop where
  write : ∀ {s}, good s → ∀ bytes, Ends (sink.write bytes) s
    (fun count t => if count = 0 ∧ bytes.size ≠ 0 then bad t else good t)
    fun e t => if e.isInterrupted = true then good t else bad t
  seek : ∀ {s}, good s → ∀ position,
    Ends (sink.seek position) s (fun _ t => good t) fun _ t => bad t
  flush : ∀ {s}, good s → Ends sink.flush s (fun _ t => good t) fun _ t => bad t

section failing
variable {sink : Sink σ} {good bad : σ → Prop}

/-- Whatever it takes, all that is said of such a sink is that it is good or bad. -/
theorem FailsInto.takes (fails : FailsInto sink good bad) :
    sink.Takes (fun s _ => good s) fun s _ => bad s :=
  ⟨fun bytes h => fails.write h bytes⟩

theorem logged_failsInto (sink : Sink σ) :
    FailsInto sink.logged (fun state => state.1.Faultless) fun state => ¬ state.1.Faultless := by
  refine ⟨fun {state} faultless bytes => ?_, fun {state} faultless position => ?_,
    fun {state} faultless => ?_⟩
  · refine (logging_ends faultless).mono (fun count state after => ?_) fun e state after => ?_
    · split
      · next stuck => exact fun kept => after.1 kept stuck
      · next taken => exact after.2 taken
    · split
      · next again => exact after.2 fun final => Bool.false_ne_true (final.symm.trans again)
      · next final => exact fun kept => after.1 kept (Bool.eq_false_iff.2 final)
  · exact (logging_ends faultless).mono (fun _ _ after => after.2 id)
      fun _ _ after kept => after.1 kept trivial
  · exact (logging_ends faultless).mono (fun _ _ after => after.2 id)
      fun _ _ after kept => after.1 kept trivial

end failing

end Sink

theorem FileLike.logged {σ : Type} {sink : Sink σ} {shows : σ → ByteArray → Nat → Prop}
    {fragile : Prop} (file : FileLike sink shows fragile) :
    FileLike sink.logged (fun state => shows state.2) fragile where
  write bytes shown := logging_keeps (file.write bytes shown)
  seek position shown := logging_keeps (file.seek position shown)
  flush shown := logging_keeps (file.flush shown)

theorem FileLike.failsInto {σ : Type} {sink : Sink σ} {shows : σ → ByteArray → Nat → Prop}
    {fragile : Prop} (file : FileLike sink shows fragile) :
    sink.FailsInto (Shown shows) fun t => fragile ∧ Shown shows t := by
  refine ⟨?_, ?_, ?_⟩
  · rintro s ⟨content, offset, shown⟩ bytes
    refine (file.write bytes shown).mono (fun count t after => ?_) fun e t after => ?_
    · obtain ⟨shown, stuck⟩ := after
      split
      · next none => exact ⟨(stuck none.1).resolve_left none.2, _, _, shown⟩
      · exact ⟨_, _, shown⟩
    · by_cases again : e.isInterrupted = true
      · rw [if_pos again] at after ⊢
        exact ⟨_, _, after⟩
      · rw [if_neg again] at after ⊢
        exact after
  · rintro s ⟨content, offset, shown⟩ position
    exact (file.seek position shown).mono (fun _ _ shown => ⟨_, _, shown⟩) fun _ _ h => h
  · rintro s ⟨content, offset, shown⟩
    exact (file.flush shown).mono (fun _ _ shown => ⟨_, _, shown⟩) fun _ _ h => h

theorem FileLike.steady {σ : Type} {sink : Sink σ} {shows : σ → ByteArray → Nat → Prop}
    (file : FileLike sink shows False) : sink.FailsInto (Shown shows) fun _ => False := by
  simpa only [false_and] using file.failsInto

/-! ## Outputs that do not depend on each other -/

namespace OutBuffer

variable {σ : Type} {sink : Sink σ} {good bad : σ → Prop} {state : OutBuffer × σ}

theorem flush_failsInto (fails : sink.FailsInto good bad) (h : good state.2) :
    Ends (flush sink) state (fun _ t => good t.2) fun _ t => bad t.2 :=
  (flush_sent fails.takes ⟨.empty, rfl, h⟩).mono (fun _ _ h => h.1.good) fun _ _ lost => lost.bad

theorem put_failsInto (fails : sink.FailsInto good bad) (h : good state.2) (bytes : ByteArray) :
    Ends (put sink bytes) state (fun _ t => good t.2) fun _ t => bad t.2 :=
  (put_sent fails.takes bytes ⟨.empty, rfl, h⟩).mono (fun _ _ h => h.good) fun _ _ lost => lost.bad

theorem putFlush_failsInto (fails : sink.FailsInto good bad) (h : good state.2) (bytes : ByteArray) :
    Ends (putFlush sink bytes) state (fun _ t => good t.2) fun _ t => bad t.2 :=
  (putFlush_sent fails.takes bytes ⟨.empty, rfl, h⟩).mono (fun _ _ h => h.1.good)
    fun _ _ lost => lost.bad

end OutBuffer

/-- A sink that may fail is in step with one that does not, whatever either of them does with what it
is given. -/
theorem OutputsInStep.of_failsInto {σ τ : Type} {sink : Sink σ} {other : Sink τ} {good bad : σ → Prop}
    {good' : τ → Prop} (fails : sink.FailsInto good bad) (steady : other.FailsInto good' fun _ => False) :
    OutputsInStep sink other (fun s t => good s.2 ∧ good' t.2) DbError.IsRefusal bad where
  refused h := h
  put h bytes := .of_ends (OutBuffer.put_failsInto fails h.1 bytes)
    (OutBuffer.put_failsInto steady h.2 bytes) fun _ _ _ _ => And.intro
  flush h := .of_ends (OutBuffer.flush_failsInto fails h.1) (OutBuffer.flush_failsInto steady h.2)
    fun _ _ _ _ => And.intro
  putFlush h bytes := .of_ends (OutBuffer.putFlush_failsInto fails h.1 bytes)
    (OutBuffer.putFlush_failsInto steady h.2 bytes) fun _ _ _ _ => And.intro
  seek h position := .of_ends (fails.seek h.1 position) (steady.seek h.2 position)
    fun _ _ _ _ => And.intro
  flushSink h := .of_ends (fails.flush h.1) (steady.flush h.2) fun _ _ _ _ => And.intro

/-! ## Sinks around sinks -/

section wrapping
variable {σ τ : Type} {outer : Sink τ} {inner : Sink σ} {view : τ → σ}

/-- Each call does to what is viewed of a state what the other sink does, and answers the same. -/
structure Sink.Wraps (outer : Sink τ) (inner : Sink σ) (view : τ → σ) : Prop where
  write : ∀ bytes t, InUnison (fun t s => view t = s) (fun _ _ => False) (outer.write bytes)
    (inner.write bytes) t (view t)
  seek : ∀ position t, InUnison (fun t s => view t = s) (fun _ _ => False) (outer.seek position)
    (inner.seek position) t (view t)
  flush : ∀ t, InUnison (fun t s => view t = s) (fun _ _ => False) outer.flush inner.flush t (view t)

/-- Logs change nothing. -/
theorem Sink.logged_wraps (sink : Sink σ) : sink.logged.Wraps sink Prod.snd where
  write _ := logging_inStep
  seek _ := logging_inStep
  flush := logging_inStep

abbrev SameOutput (view : τ → σ) (state : OutBuffer × τ) (state' : OutBuffer × σ) : Prop :=
  OnSecond (fun t s => view t = s) state state'

theorem Sink.Wraps.writeFully_inStep (wraps : outer.Wraps inner view) (bytes : ByteArray) (s : σ) :
    ∀ {t : τ}, view t = s → InUnison (fun t s => view t = s) (fun _ _ => False)
      (outer.writeFully bytes) (inner.writeFully bytes) t s := by
  have taken : ∀ {bytes : ByteArray} {t : τ} {s u : σ} {count : Nat}, view t = s →
      inner.write bytes s = .ok count u → ∃ v, outer.write bytes t = .ok count v ∧ view v = u := by
    intro bytes t s u count same eq
    rw [← same] at eq
    exact ((wraps.write bytes t).of_ok eq).resolve_right fun h => h.choose_spec.choose_spec.2
  have refused : ∀ {bytes : ByteArray} {t : τ} {s u : σ} {e : IoError}, view t = s →
      inner.write bytes s = .error e u → ∃ v, outer.write bytes t = .error e v ∧ view v = u := by
    intro bytes t s u e same eq
    rw [← same] at eq
    exact (wraps.write bytes t).of_error eq
  induction bytes, s using Sink.writeFully.induct inner with
  | case1 bytes s none =>
    intro t same
    exact inStep_of_ok (by rw [writeFully_eq, if_pos none]) (by rw [writeFully_eq, if_pos none])
      ⟨rfl, same⟩
  | case2 bytes s some u eq =>
    intro t same
    obtain ⟨v, eq', same⟩ := taken same eq
    exact inStep_of_error (by rw [writeFully_eq, if_neg some, eq'])
      (by rw [writeFully_eq, if_neg some, eq]) same
  | case3 bytes s some count u eq ih =>
    intro t same
    obtain ⟨v, eq', same⟩ := taken same eq
    exact (ih same).of_eq (by rw [writeFully_eq, if_neg some, eq'])
      (by rw [writeFully_eq, if_neg some, eq])
  | case4 bytes s some e u eq again ih =>
    intro t same
    obtain ⟨v, eq', same⟩ := refused same eq
    refine (ih same).of_eq ?_ ?_
    · rw [writeFully_eq, if_neg some, eq']
      exact if_pos again
    · rw [writeFully_eq, if_neg some, eq]
      exact if_pos again
  | case5 bytes s some e u eq final =>
    intro t same
    obtain ⟨v, eq', same⟩ := refused same eq
    exact inStep_of_error (writeFully_of_error some eq' final) (writeFully_of_error some eq final) same

namespace OutBuffer

/-- An action on a wrapped output does what the other does on the output itself. -/
def Transparent (view : τ → σ) (action : Effect IoError (OutBuffer × τ) Unit)
    (action' : Effect IoError (OutBuffer × σ) Unit) : Prop :=
  ∀ {state state'}, SameOutput view state state' →
    InUnison (SameOutput view) (fun _ _ => False) action action' state state'

theorem append_transparent (view : τ → σ) (bytes : ByteArray) :
    Transparent view (append bytes) (append bytes) := by
  intro state state' same
  obtain ⟨⟨capacity, pending⟩, t⟩ := state
  obtain ⟨_, s⟩ := state'
  obtain ⟨rfl, same⟩ := same
  exact inStep_of_ok rfl rfl ⟨rfl, rfl, same⟩

variable (wraps : outer.Wraps inner view)
include wraps

theorem writeThrough_transparent (bytes : ByteArray) :
    Transparent view (writeThrough outer bytes) (writeThrough inner bytes) := by
  intro state state' same
  obtain ⟨buffer, t⟩ := state
  obtain ⟨_, s⟩ := state'
  obtain ⟨rfl, same⟩ := same
  exact (wraps.writeFully_inStep bytes s same).onSecond

theorem flush_transparent : Transparent view (flush outer) (flush inner) := by
  intro state state' same
  obtain ⟨⟨capacity, pending⟩, t⟩ := state
  obtain ⟨_, s⟩ := state'
  obtain ⟨rfl, same⟩ := same
  have emptied : SameOutput view (⟨capacity, .empty⟩, t) (⟨capacity, .empty⟩, s) := ⟨rfl, same⟩
  exact (writeThrough_transparent wraps pending emptied).of_eq rfl rfl

theorem put_transparent (bytes : ByteArray) : Transparent view (put outer bytes) (put inner bytes) := by
  intro state state' same
  have last : Transparent view
      (if state'.1.capacity ≤ bytes.size then writeThrough outer bytes else append bytes)
      (if state'.1.capacity ≤ bytes.size then writeThrough inner bytes else append bytes) := by
    split
    · exact writeThrough_transparent wraps bytes
    · exact append_transparent view bytes
  refine InStep.get_bind ?_
  dsimp only
  rw [same.1]
  split
  · exact (flush_transparent wraps same).bind fun _ _ _ _ h => last h.2
  · exact last same

theorem putFlush_transparent (bytes : ByteArray) :
    Transparent view (putFlush outer bytes) (putFlush inner bytes) := by
  intro state state' same
  exact (flush_transparent wraps same).bind fun _ _ _ _ h => writeThrough_transparent wraps bytes h.2

end OutBuffer

theorem Sink.Wraps.outputsInStep (wraps : outer.Wraps inner view) :
    OutputsInStep outer inner (SameOutput view) (fun _ => True) fun _ => False where
  refused _ := trivial
  put same bytes := (OutBuffer.put_transparent wraps bytes same).mono (fun _ _ _ _ h => h.2)
    (fun _ _ _ h => ⟨trivial, h⟩) fun _ _ h => h
  flush same := (OutBuffer.flush_transparent wraps same).mono (fun _ _ _ _ h => h.2)
    (fun _ _ _ h => ⟨trivial, h⟩) fun _ _ h => h
  putFlush same bytes := (OutBuffer.putFlush_transparent wraps bytes same).mono (fun _ _ _ _ h => h.2)
    (fun _ _ _ h => ⟨trivial, h⟩) fun _ _ h => h
  seek {buffer buffer' t s} same position := by
    obtain ⟨same, rfl⟩ := same
    exact (wraps.seek position t).mono (fun _ _ _ _ h => ⟨same, h.2⟩)
      (fun _ _ _ h => ⟨trivial, same, h⟩) fun _ _ h => h
  flushSink {buffer buffer' t s} same := by
    obtain ⟨same, rfl⟩ := same
    exact (wraps.flush t).mono (fun _ _ _ _ h => ⟨same, h.2⟩) (fun _ _ _ h => ⟨trivial, same, h⟩)
      fun _ _ h => h

end wrapping

end ConstDb
