import ConstDb.Proofs.Stream

/-!
# Writing to files

A sink is file-like if its writes overwrite what it holds at its position, whatever its calls take
at a time and however they fail. What is put into an output buffer then arrives at such a sink as
one stream (`FileLike.takes`). When calls fail for good, nothing is left of the stream but the sink
itself.
-/

namespace ConstDb

open Effect

variable {σ : Type}

/-! ## File-like sinks -/

/-- The sink of state `s` shows some content at some position. -/
def Shown (shows : σ → ByteArray → Nat → Prop) (s : σ) : Prop :=
  ∃ content offset, shows s content offset

/-- A sink that treats its content as a file does. `shows s content offset` says what the sink of
state `s` holds and where it stands. A call that is interrupted has done nothing; only a sink that
is `fragile` fails for other reasons, or takes no byte of an offer. -/
structure FileLike (sink : Sink σ) (shows : σ → ByteArray → Nat → Prop) (fragile : Prop) : Prop where
  write : ∀ {s content offset} (bytes : ByteArray), shows s content offset →
    Ends (sink.write bytes) s
      (fun count t =>
        shows t (Bytes.overwrite content offset (bytes.extract 0 count)) (offset + count) ∧
          (count = 0 → bytes.size = 0 ∨ fragile))
      (fun e t =>
        if e.isInterrupted = true then shows t content offset else fragile ∧ Shown shows t)
  seek : ∀ {s content offset} (position : Nat), shows s content offset →
    Ends (sink.seek position) s (fun _ t => shows t content position)
      (fun _ t => fragile ∧ Shown shows t)
  flush : ∀ {s content offset}, shows s content offset →
    Ends sink.flush s (fun _ t => shows t content offset) (fun _ t => fragile ∧ Shown shows t)

variable {sink : Sink σ} {shows : σ → ByteArray → Nat → Prop} {fragile : Prop}

/-- What such a sink takes overwrites what it held from its position on. -/
theorem FileLike.takes (file : FileLike sink shows fragile) (old : ByteArray) (start : Nat) :
    sink.Takes (fun s taken => shows s (Bytes.overwrite old start taken) (start + taken.size))
      fun s _ => fragile ∧ Shown shows s where
  write {s taken} bytes shown := by
    cases eq : sink.write bytes s with
    | ok count t =>
      obtain ⟨after, stuck⟩ := (file.write bytes shown).of_ok eq
      refine ends_of_ok eq ?_
      split
      · next none => exact ⟨(stuck none.1).resolve_left none.2, _, _, after⟩
      · have le := sink.write_le eq
        have size : (bytes.extract 0 count).size = count := by simp; omega
        rwa [Bytes.overwrite_overwrite, Nat.add_assoc, ← size, ← ByteArray.size_append, size] at after
    | error e t => exact ends_of_error eq ((file.write bytes shown).of_error eq)

/-! ## Streams through a buffer -/

/-- The bytes `written` were put out one after the other, the first of them at `start`, where the
sink held `old`. Some of them may still wait in the buffer. -/
def Streamed (shows : σ → ByteArray → Nat → Prop) (old : ByteArray) (start : Nat)
    (written : ByteArray) (state : OutBuffer × σ) : Prop :=
  ∃ delivered, delivered ++ state.1.pending = written ∧
    shows state.2 (Bytes.overwrite old start delivered) (start + delivered.size)

namespace OutBuffer

variable {state : OutBuffer × σ}

theorem putFlush_ends (file : FileLike sink shows fragile) (bytes : ByteArray)
    {content : ByteArray} {offset : Nat} (shown : shows state.2 content offset)
    (none : state.1.pending = .empty) :
    Ends (putFlush sink bytes) state
      (fun _ t => shows t.2 (Bytes.overwrite content offset bytes) (offset + bytes.size))
      (fun _ t => fragile ∧ Shown shows t.2) := by
  have streamed : Streamed shows content offset .empty state :=
    ⟨.empty, by rw [none, ByteArray.append_empty], by simpa using shown⟩
  refine (putFlush_sent (file.takes content offset) bytes streamed).mono (fun _ t h => ?_)
    fun _ _ lost => lost.bad
  have after := h.1.whole h.2
  rwa [ByteArray.empty_append] at after

end OutBuffer

/-! ## Sinks in memory -/

namespace MemorySink

/-- The content and the position of a sink that keeps what it takes. The calls of a steady one all
proceed. -/
def Shows (steady : Prop) (sink : MemorySink) (content : ByteArray) (offset : Nat) : Prop :=
  sink.keeps = true ∧ sink.content = content ∧ sink.offset = offset ∧
    (steady → sink.writes = .clear ∧ sink.seeks = .clear ∧ sink.flushes = .clear)

theorem shows_empty (steady : Prop) : Shows steady empty .empty 0 :=
  ⟨rfl, rfl, rfl, fun _ => ⟨rfl, rfl, rfl⟩⟩

theorem write_ends {steady : Prop} {sink : MemorySink} {content : ByteArray} {offset : Nat}
    (bytes : ByteArray) (shown : Shows steady sink content offset) :
    Ends (write bytes) sink
      (fun count t =>
        Shows steady t (Bytes.overwrite content offset (bytes.extract 0 count)) (offset + count) ∧
          (count = 0 → bytes.size = 0 ∨ ¬ steady))
      (fun e t => if e.isInterrupted = true then Shows steady t content offset
        else ¬ steady ∧ Shown (Shows steady) t) := by
  obtain ⟨content, offset, keeps, writes, seeks, flushes⟩ := sink
  obtain ⟨kept, rfl, rfl, clear⟩ := shown
  obtain rfl : keeps = true := kept
  have settled : steady → writes.pop = (.proceed, .clear) := fun h => by
    obtain ⟨rfl, -, -⟩ := clear h
    rfl
  have after : steady → writes.pop.2 = .clear ∧ seeks = .clear ∧ flushes = .clear :=
    fun h => ⟨congrArg Prod.snd (settled h), (clear h).2⟩
  let next : MemorySink := ⟨content, offset, true, writes.pop.2, seeks, flushes⟩
  have unsteady : writes.pop.1 ≠ .proceed → ¬ steady := fun ne h => ne (by rw [settled h])
  have accepted : ∀ count, Shows steady (next.accept bytes count)
      (Bytes.overwrite content offset (bytes.extract 0 count)) (offset + count) :=
    fun count => ⟨rfl, rfl, rfl, after⟩
  unfold write
  cases fate : writes.pop.1 with
  | fail e =>
    refine ends_of_error (t := next) (by simp only [fate]; rfl) ?_
    have shown : Shows steady next content offset := ⟨rfl, rfl, rfl, after⟩
    split
    · exact shown
    · exact ⟨unsteady (by simp [fate]), _, _, shown⟩
  | proceed =>
    exact ends_of_ok (t := next.accept bytes bytes.size) (by simp only [fate]; rfl)
      ⟨accepted _, .inl⟩
  | accept limit =>
    exact ends_of_ok (t := next.accept bytes (min limit bytes.size)) (by simp only [fate]; rfl)
      ⟨accepted _, fun _ => .inr (unsteady (by simp [fate]))⟩

theorem seek_ends {steady : Prop} {sink : MemorySink} {content : ByteArray} {offset : Nat}
    (position : Nat) (shown : Shows steady sink content offset) :
    Ends (seek position) sink (fun _ t => Shows steady t content position)
      (fun _ t => ¬ steady ∧ Shown (Shows steady) t) := by
  obtain ⟨kept, rfl, rfl, clear⟩ := shown
  have settled : steady → sink.seeks.pop = (.proceed, .clear) := fun h => by
    rw [(clear h).2.1]
    rfl
  have after : steady →
      sink.writes = .clear ∧ sink.seeks.pop.2 = .clear ∧ sink.flushes = .clear :=
    fun h => ⟨(clear h).1, congrArg Prod.snd (settled h), (clear h).2.2⟩
  let next : MemorySink := { sink with seeks := sink.seeks.pop.2 }
  unfold seek
  cases fate : sink.seeks.pop.1 with
  | fail e =>
    refine ends_of_error (t := next) (by simp only [fate]; rfl) ⟨fun h => ?_, _, _, kept, rfl, rfl, after⟩
    rw [settled h] at fate
    cases fate
  | proceed | accept =>
    exact ends_of_ok (t := { next with offset := position }) (by simp only [fate]; rfl)
      ⟨kept, rfl, rfl, after⟩

theorem flush_ends {steady : Prop} {sink : MemorySink} {content : ByteArray} {offset : Nat}
    (shown : Shows steady sink content offset) :
    Ends flush sink (fun _ t => Shows steady t content offset)
      (fun _ t => ¬ steady ∧ Shown (Shows steady) t) := by
  obtain ⟨kept, rfl, rfl, clear⟩ := shown
  have settled : steady → sink.flushes.pop = (.proceed, .clear) := fun h => by
    rw [(clear h).2.2]
    rfl
  have after : steady →
      sink.writes = .clear ∧ sink.seeks = .clear ∧ sink.flushes.pop.2 = .clear :=
    fun h => ⟨(clear h).1, (clear h).2.1, congrArg Prod.snd (settled h)⟩
  let next : MemorySink := { sink with flushes := sink.flushes.pop.2 }
  unfold flush
  cases fate : sink.flushes.pop.1 with
  | fail e =>
    refine ends_of_error (t := next) (by simp only [fate]; rfl) ⟨fun h => ?_, _, _, kept, rfl, rfl, after⟩
    rw [settled h] at fate
    cases fate
  | proceed | accept =>
    exact ends_of_ok (t := next) (by simp only [fate]; rfl) ⟨kept, rfl, rfl, after⟩

theorem fileLike (steady : Prop) : FileLike calls (Shows steady) (¬ steady) :=
  ⟨write_ends, seek_ends, flush_ends⟩

/-! ## Sinks that take little at a time -/

/-- A write that is interrupted or takes part of its offer: one that a writer makes up for. -/
def Mild : Fate → Prop
  | .proceed => True
  | .accept limit => limit ≠ 0
  | .fail e => e.isInterrupted = true

instance : DecidablePred Mild
  | .proceed => inferInstanceAs (Decidable True)
  | .accept limit => inferInstanceAs (Decidable (limit ≠ 0))
  | .fail e => inferInstanceAs (Decidable (e.isInterrupted = true))

def MildScript (script : Script) : Prop := ∀ fate ∈ script.next ++ script.again, Mild fate

instance (script : Script) : Decidable (MildScript script) :=
  inferInstanceAs (Decidable (∀ fate ∈ _, _))

theorem mild_pop {script : Script} (mild : MildScript script) :
    Mild script.pop.1 ∧ MildScript script.pop.2 := by
  match script, mild with
  | ⟨fate :: next, again, _⟩, mild =>
    exact ⟨mild fate List.mem_cons_self, fun other member => mild other (List.mem_cons_of_mem _ member)⟩
  | ⟨[], fate :: again, _⟩, mild =>
    refine ⟨mild fate List.mem_cons_self, fun other member => mild other ?_⟩
    rcases List.mem_append.1 member with more | all
    · exact List.mem_cons_of_mem _ more
    · exact all
  | ⟨[], [], _⟩, mild => exact ⟨trivial, mild⟩

/-- The content and the position of a sink that keeps what it takes, and whose calls go well or can be
made up for. -/
def ShowsMild (sink : MemorySink) (content : ByteArray) (offset : Nat) : Prop :=
  sink.keeps = true ∧ sink.content = content ∧ sink.offset = offset ∧ MildScript sink.writes ∧
    sink.seeks = .clear ∧ sink.flushes = .clear

theorem showsMild_empty : ShowsMild empty .empty 0 :=
  ⟨rfl, rfl, rfl, by decide, rfl, rfl⟩

theorem write_mild {sink : MemorySink} {content : ByteArray} {offset : Nat} (bytes : ByteArray)
    (shown : ShowsMild sink content offset) :
    Ends (write bytes) sink
      (fun count t => ShowsMild t (Bytes.overwrite content offset (bytes.extract 0 count))
          (offset + count) ∧ (count = 0 → bytes.size = 0 ∨ False))
      (fun e t => if e.isInterrupted = true then ShowsMild t content offset
        else False ∧ Shown ShowsMild t) := by
  obtain ⟨content, offset, keeps, writes, seeks, flushes⟩ := sink
  obtain ⟨kept, rfl, rfl, mild, clear⟩ := shown
  obtain rfl : keeps = true := kept
  obtain ⟨first, rest⟩ := mild_pop mild
  let next : MemorySink := ⟨content, offset, true, writes.pop.2, seeks, flushes⟩
  have accepted : ∀ count, ShowsMild (next.accept bytes count)
      (Bytes.overwrite content offset (bytes.extract 0 count)) (offset + count) :=
    fun count => ⟨rfl, rfl, rfl, rest, clear⟩
  unfold write
  cases fate : writes.pop.1 with
  | fail e =>
    rw [fate] at first
    refine ends_of_error (t := next) (by simp only [fate]; rfl) ?_
    rw [if_pos (show e.isInterrupted = true from first)]
    exact ⟨rfl, rfl, rfl, rest, clear⟩
  | proceed =>
    exact ends_of_ok (t := next.accept bytes bytes.size) (by simp only [fate]; rfl) ⟨accepted _, .inl⟩
  | accept limit =>
    rw [fate] at first
    have some : limit ≠ 0 := first
    exact ends_of_ok (t := next.accept bytes (min limit bytes.size)) (by simp only [fate]; rfl)
      ⟨accepted _, fun none => .inl (by omega)⟩

theorem fileLike_mild : FileLike calls ShowsMild False := by
  refine ⟨write_mild, ?_, ?_⟩
  · rintro ⟨content, offset, keeps, writes, seeks, flushes⟩ _ _ position ⟨kept, rfl, rfl, mild, clear⟩
    obtain ⟨rfl, rfl⟩ := clear
    exact ends_of_ok rfl ⟨kept, rfl, rfl, mild, rfl, rfl⟩
  · rintro ⟨content, offset, keeps, writes, seeks, flushes⟩ _ _ ⟨kept, rfl, rfl, mild, clear⟩
    obtain ⟨rfl, rfl⟩ := clear
    exact ends_of_ok rfl ⟨kept, rfl, rfl, mild, rfl, rfl⟩

end MemorySink

end ConstDb
