import ConstDb.Proofs.Progress
import ConstDb.Proofs.Watched

/-!
# The header is written last

Until everything else is out, nothing is written where the header goes, whatever fails on the way. Then
fronts of the header are, and nothing else any more. Main statement: `header_last`.
-/

namespace ConstDb.Builder

open Effect Image OutBuffer

variable {σ : Type} {sink : Sink σ} {shows : σ → ByteArray → Nat → Prop} {old taken : ByteArray}
variable {records : List Record} {history : History σ} {state : Builder × History σ}

/-! ## Before the header -/

theorem behind_of_mem_laid (bytes : ByteArray) :
    ∀ byte offset, (byte, offset) ∈ laid headerSize bytes → headerSize ≤ offset :=
  fun _ _ member => (mem_laid member).1

/-- Nothing was written where the header goes, and the file holds what it held there. -/
def Untouched (shows : σ → ByteArray → Nat → Prop) (old : ByteArray) (moment : Moment σ) : Prop :=
  (∀ byte offset, (byte, offset) ∈ moment.written → headerSize ≤ offset) ∧
    ∃ bytes position, shows moment.state (Bytes.overwrite old headerSize bytes) position

/-- Nothing was written at all. -/
def Unwritten (shows : σ → ByteArray → Nat → Prop) (old : ByteArray) (moment : Moment σ) : Prop :=
  moment.written = [] ∧ ∃ position, shows moment.state old position

/-- Since the builder has started, just the bytes `taken` were written. -/
abbrev Filling (shows : σ → ByteArray → Nat → Prop) (old : ByteArray) :
    History σ → ByteArray → Prop :=
  Follows shows (Unwritten shows old) old headerSize []

theorem untouched_of_filling (filling : Filling shows old history taken) :
    history.Throughout (Untouched shows old) := by
  intro moment member
  rcases filling.moments moment member with ⟨none, position, shown⟩ | ⟨front, -, written, shown⟩
  · rw [← Bytes.overwrite_empty old headerSize] at shown
    refine ⟨?_, .empty, position, shown⟩
    rw [none]
    exact fun _ _ member => absurd member List.not_mem_nil
  · refine ⟨?_, front, shown⟩
    rw [written, List.nil_append]
    exact behind_of_mem_laid front

theorem untouched_of_left {stream : ByteArray}
    (left : (∃ front, Sent (Filling shows old) front (state.1.output, state.2)) ∨
      Lost (Filling shows old) stream (state.1.output, state.2)) :
    state.2.Throughout (Untouched shows old) := by
  rcases left with ⟨_, front, -, filling⟩ | ⟨-, front, -, filling⟩
  · exact untouched_of_filling filling
  · exact untouched_of_filling filling

theorem start_filling (file : FaultyFile sink shows) (capacity : Nat) {offset : Nat} {s : σ}
    (shown : shows s old offset) :
    Ends (start sink.watched capacity) (.begin offset s)
      (fun builder next => builder = fresh capacity ∧ Filling shows old next .empty)
      fun _ next => next.Throughout (Unwritten shows old) := by
  have quiet : (History.begin offset s).Throughout (Unwritten shows old) := by
    intro moment member
    obtain rfl := List.mem_singleton.1 member
    exact ⟨rfl, offset, shown⟩
  have sought := file.seek_follows headerSize quiet (fun _ offset shown => ⟨rfl, offset, shown⟩) shown
  refine Ends.bind (Ends.adaptExcept (sought.mono ?_ fun _ _ h => h))
  exact fun _ _ filling => ends_pure ⟨rfl, filling⟩

/-! ## The header -/

/-- What was written where the header goes. -/
def headerPart (written : List (UInt8 × Nat)) : List (UInt8 × Nat) := written.filter (·.2 < headerSize)

theorem headerPart_of_behind {written : List (UInt8 × Nat)}
    (behind : ∀ byte offset, (byte, offset) ∈ written → headerSize ≤ offset) : headerPart written = [] := by
  refine List.filter_eq_nil_iff.2 fun place member => ?_
  have behind := behind place.1 place.2 member
  simpa using behind

theorem headerPart_laid {front : ByteArray} (le : front.size ≤ headerSize) (bytes : ByteArray) :
    headerPart (laid headerSize bytes ++ laid 0 front) = laid 0 front := by
  have before := headerPart_of_behind (behind_of_mem_laid bytes)
  unfold headerPart at before ⊢
  rw [List.filter_append, before, List.nil_append, List.filter_eq_self]
  intro place member
  obtain ⟨byte, offset⟩ := place
  have within := (mem_laid member).2
  simp only [decide_eq_true_eq]
  omega

/-- The file holds this front of a header, behind the header all that belongs there, and still further
behind what it held. -/
def Filled (shows : σ → ByteArray → Nat → Prop) (old : ByteArray) (records : List Record)
    (front : ByteArray) (s : σ) : Prop :=
  ∃ content position, shows s content position ∧ content.extract 0 front.size = front ∧
    content.extract headerSize content.size =
      body records ++ old.extract (headerSize + (body records).size) old.size

theorem filled_of_shows {front : ByteArray} (le : front.size ≤ headerSize) {s : σ} {position : Nat}
    (shown : shows s (Bytes.overwrite (Bytes.overwrite old headerSize (body records)) 0 front) position) :
    Filled shows old records front s := by
  have behind := Bytes.extract_overwrite_front (Bytes.overwrite old headerSize (body records)) le
  rw [Bytes.extract_overwrite] at behind
  exact ⟨_, position, shown, Bytes.extract_overwrite_self _ front, behind⟩

theorem size_le_of_leads {front : ByteArray} (leads : Bytes.Leads front (Image.header records)) :
    front.size ≤ headerSize := by
  obtain ⟨rest, eq⟩ := leads
  rw [← size_header records, ← eq, ByteArray.size_append]
  exact Nat.le_add_right ..

/-- Behind the records and their index, just the front `taken` of the header was written. -/
structure Sealing (shows : σ → ByteArray → Nat → Prop) (old : ByteArray) (records : List Record)
    (history : History σ) (taken : ByteArray) : Prop where
  fits : Fits records
  leads : Bytes.Leads taken (Image.header records)
  follows : Follows shows (Untouched shows old) (Bytes.overwrite old headerSize (body records)) 0
    (laid headerSize (body records)) history taken

theorem Sealing.now (sealing : Sealing shows old records history taken) :
    headerPart history.now.written = laid 0 taken ∧ Filled shows old records taken history.now.state := by
  have le := size_le_of_leads sealing.leads
  rw [sealing.follows.written_eq, headerPart_laid le]
  exact ⟨rfl, filled_of_shows le sealing.follows.shown⟩

theorem Sealing.moment (sealing : Sealing shows old records history taken) {moment : Moment σ}
    (member : moment ∈ history.moments) :
    ∃ front, Bytes.Leads front (Image.header records) ∧ headerPart moment.written = laid 0 front ∧
      (headerPart moment.written ≠ [] → Filled shows old records front moment.state) := by
  rcases sealing.follows.moments moment member with untouched | ⟨front, leads, written, position, shown⟩
  · have none := headerPart_of_behind untouched.1
    exact ⟨.empty, ⟨_, ByteArray.empty_append⟩, none, fun some => absurd none some⟩
  · have leads := leads.trans sealing.leads
    have le := size_le_of_leads leads
    refine ⟨front, leads, ?_, fun _ => filled_of_shows le shown⟩
    rw [written, headerPart_laid le]

theorem putHeader_sealing (file : FaultyFile sink shows) (fits : Fits records)
    (filling : Filling shows old state.2 (body records)) (none : state.1.output.pending = .empty) :
    Ends (putHeader sink.watched (Image.header records)) state
      (fun _ t => Sealing shows old records t.2 (Image.header records))
      fun _ t => t.2.Throughout (Untouched shows old) ∨ ∃ taken, Sealing shows old records t.2 taken := by
  have accounts := file.accounts (Untouched shows old) (Bytes.overwrite old headerSize (body records)) 0
    (laid headerSize (body records))
  have base : state.2.now.written = laid headerSize (body records) := by
    rw [filling.written_eq, List.nil_append]
  have untouched := untouched_of_filling filling
  have sought := file.seek_follows 0 untouched
    (fun _ offset shown => ⟨(untouched _ state.2.now_mem).1, body records, offset, shown⟩) filling.shown
  rw [base] at sought
  refine Ends.bind (onSink_ends (sought.mono ?_ fun _ _ h => .inl h))
  intro _ next follows
  have sent : Sent _ .empty (state.1.output, next) := sent_of_took follows none
  refine Ends.bind (onOutput_ends ((putFlush_sent accounts.takes _ sent).mono ?_ ?_))
  · intro _ t h
    have whole := h.1.whole h.2
    rw [ByteArray.empty_append] at whole
    refine onSink_ends ((file.flush_follows whole).mono ?_ ?_)
    · exact fun _ _ follows => ⟨fits, Bytes.leads_refl _, follows⟩
    · exact fun _ _ follows => .inr ⟨_, fits, Bytes.leads_refl _, follows⟩
  · intro _ t lost
    obtain ⟨-, front, short, follows⟩ := lost
    rw [ByteArray.empty_append] at short
    exact .inr ⟨front, fits, short.leads, follows⟩

theorem finish_sealing (file : FaultyFile sink shows) (booked : Booked (Filling shows old) records state) :
    let indexed := ∃ header t, putIndex sink.watched state = .ok header t
    Ends (finish sink.watched) state
      (fun _ t => indexed ∧ Sealing shows old records t.2 (Image.header records))
      fun _ t => t.2.Throughout (Untouched shows old) ∨
        indexed ∧ ∃ taken, Sealing shows old records t.2 taken := by
  have ends := putIndex_sent (file.accounts (Unwritten shows old) old headerSize []).takes booked
  have parts : finish sink.watched state = _ := finish_of_trusted booked.trusted
  rw [bind_apply] at parts
  cases eq : putIndex sink.watched state with
  | error e t =>
    rw [eq] at parts
    exact ends_of_error parts (.inl (untouched_of_left ((ends.of_error eq).imp_left fun past => past.2.2)))
  | ok header t =>
    rw [eq] at parts
    obtain ⟨rfl, fits, none, filling⟩ := ends.of_ok eq
    refine ((putHeader_sealing file fits filling none).mono ?_ ?_).of_eq parts
    · exact fun _ _ sealing => ⟨⟨_, t, rfl⟩, sealing⟩
    · exact fun _ _ left => left.imp_right fun sealing => ⟨⟨_, t, rfl⟩, sealing⟩

/-! ## Runs -/

theorem run_sealing (file : FaultyFile sink shows) (capacity : Nat) (filling : Filling shows old history .empty)
    (records : List Record) {last : Request} (closing : last = .finish ∨ last = .drop) :
    let adds := performAll sink.watched (records.map .add) (fresh capacity, history)
    let run := performAll sink.watched (records.map .add ++ [last]) (fresh capacity, history)
    (run.2.2.Throughout (Untouched shows old) ∧ (last = .finish → ¬ AllWell run.1)) ∨
    AllWell adds.1 ∧ (∃ header t, putIndex sink.watched adds.2 = .ok header t) ∧
      ∃ taken, Sealing shows old records run.2.2 taken ∧ (AllWell run.1 → taken = Image.header records) := by
  intro adds run
  have accounts := file.accounts (Unwritten shows old) old headerSize []
  have ends := performAll_booked accounts.takes records (booked_fresh capacity filling)
  have run_eq : run = (adds.1 ++ [(call (perform sink.watched last) adds.2).1],
      (call (perform sink.watched last) adds.2).2) := performAll_append ..
  rw [run_eq]
  rcases ends with ⟨well, -, booked⟩ | ⟨fails, failed, -, -, stopped⟩
  · rw [List.nil_append] at booked
    rcases closing with rfl | rfl
    · have ends := finish_sealing file booked
      cases eq : finish sink.watched adds.2 with
      | ok _ t =>
        have made : call (perform sink.watched .finish) adds.2 = (.after (.ok ()) t.1, t) := call_ok eq
        obtain ⟨indexed, sealing⟩ := ends.of_ok eq
        rw [made]
        exact .inr ⟨well, indexed, _, sealing, fun _ => rfl⟩
      | error e t =>
        have made : call (perform sink.watched .finish) adds.2 = (.after (.error e) t.1, t) := call_error eq
        have stuck : ¬ AllWell (adds.1 ++ [.after (.error e) t.1]) := by
          rw [allWell_concat]
          rintro ⟨-, ⟨⟩⟩
        rw [made]
        rcases ends.of_error eq with untouched | ⟨indexed, taken, sealing⟩
        · exact .inl ⟨untouched, fun _ => stuck⟩
        · exact .inr ⟨well, indexed, taken, sealing, fun all => absurd all stuck⟩
    · have made : call (perform sink.watched .drop) adds.2 = (.after (.ok ()) adds.2.1, adds.2) := call_ok rfl
      obtain ⟨front, -, filling⟩ := booked.sent
      rw [made]
      exact .inl ⟨untouched_of_filling filling, fun other => by cases other⟩
  · rw [call_of_failed stopped.failed_eq]
    have untouched := untouched_of_left (stopped.left.imp_left fun sent => ⟨_, sent⟩)
    exact .inl ⟨untouched, fun _ all => fails (allWell_concat.1 all).1⟩

theorem start_watched (sink : Sink σ) (capacity : Nat) (history : History σ) :
    InUnison (fun history s => history.now.state = s) (fun _ _ => False) (start sink.watched capacity)
      (start sink capacity) history history.now.state := by
  refine InStep.bind (InStep.adaptExcept (sink.watched_wraps.seek headerSize history)) ?_
  exact fun _ _ _ _ alike => inStep_pure ⟨rfl, alike.2⟩

/-- **The header is last.** At every moment of a build on a file that may fail anywhere, a front of the
header is all that was written where the header goes. As soon as that front is not empty, every addition
has gone well, and behind the header stands all of the image. A build in which an addition fails, or the
index does, writes nothing where the header goes; one in which all goes well writes the whole header.
Watching the file changes nothing about it. -/
theorem header_last (file : FaultyFile sink shows) (capacity : Nat) {offset : Nat} {s : σ}
    (shown : shows s old offset) :
    (∀ e t, start sink capacity s = .error e t → ∃ history,
      start sink.watched capacity (.begin offset s) = .error e history ∧ history.now.state = t ∧
        history.Throughout (Unwritten shows old)) ∧
    ∀ builder t, start sink capacity s = .ok builder t → ∃ history,
      start sink.watched capacity (.begin offset s) = .ok builder history ∧ history.now.state = t ∧
      ∀ (records : List Record) (last : Request), last = .finish ∨ last = .drop →
        let requests := records.map .add ++ [last]
        let plain := performAll sink requests (builder, t)
        let run := performAll sink.watched requests (builder, history)
        let adds := performAll sink.watched (records.map .add) (builder, history)
        run.1 = plain.1 ∧ run.2.2.now.state = plain.2.2 ∧
        (∀ moment ∈ run.2.2.moments, ∃ front, Bytes.Leads front (Image.header records) ∧
          headerPart moment.written = laid 0 front ∧ (headerPart moment.written ≠ [] →
            AllWell adds.1 ∧ Fits records ∧ Filled shows old records front moment.state)) ∧
        (¬ AllWell adds.1 ∨ (∃ e failed, putIndex sink.watched adds.2 = .error e failed) →
          run.2.2.Throughout (Untouched shows old)) ∧
        (last = .finish → AllWell run.1 → headerPart run.2.2.now.written = laid 0 (Image.header records) ∧
          Filled shows old records (Image.header records) run.2.2.now.state) := by
  have started := start_filling file capacity shown
  have watched := start_watched sink capacity (.begin offset s)
  constructor
  · intro e t eq
    obtain ⟨history, eq', same⟩ := watched.of_error eq
    exact ⟨history, eq', same, started.of_error eq'⟩
  · intro builder t eq
    obtain ⟨history, eq', same⟩ | ⟨_, _, -, never⟩ := watched.of_ok eq
    swap
    · exact never.elim
    obtain ⟨rfl, filling⟩ := started.of_ok eq'
    refine ⟨history, eq', same, fun records last closing => ?_⟩
    intro requests plain run adds
    have abreast : Abreast (SameOutput fun history : History σ => history.now.state)
        (fresh capacity, history) (fresh capacity, t) := ⟨rfl, rfl, rfl, rfl, same⟩
    obtain ⟨steps, reached⟩ := performAll_inStep sink.watched_wraps.outputsInStep requests abreast
    have sealed := run_sealing file capacity filling records closing
    refine ⟨steps, reached.output.2, fun moment member => ?_, fun fails => ?_, fun finished all => ?_⟩
    · rcases sealed with ⟨throughout, -⟩ | ⟨well, -, taken, sealing, -⟩
      · have none := headerPart_of_behind (throughout moment member).1
        exact ⟨.empty, ⟨_, ByteArray.empty_append⟩, none, fun some => absurd none some⟩
      · obtain ⟨front, leads, written, filled⟩ := sealing.moment member
        exact ⟨front, leads, written, fun some => ⟨well, sealing.fits, filled some⟩⟩
    · rcases sealed with ⟨throughout, -⟩ | ⟨well, ⟨header, _, indexed⟩, -⟩
      · exact throughout
      · rcases fails with fails | ⟨e, failed, eq⟩
        · exact absurd well fails
        · cases indexed.symm.trans eq
    · rcases sealed with ⟨-, fails⟩ | ⟨-, -, taken, sealing, whole⟩
      · exact absurd all (fails finished)
      · have now := sealing.now
        rwa [whole all] at now

/-- It has no space left when five bytes of the header are out. -/
def tornSink : MemorySink :=
  { MemorySink.empty with writes := .once [.proceed, .accept 5, .fail noSpace] }

theorem header_last_torn :
    let records : List Record := [⟨"one".toUTF8, "1".toUTF8⟩]
    let started : MemorySink := { tornSink with offset := headerSize }
    MemorySink.Shows False tornSink .empty 0 ∧
    start MemorySink.calls 4096 tornSink = .ok (fresh 4096) started ∧ ∃ history,
      start MemorySink.calls.watched 4096 (.begin 0 tornSink) = .ok (fresh 4096) history ∧
      let requests := records.map .add ++ [.finish]
      let plain := performAll MemorySink.calls requests (fresh 4096, started)
      let run := performAll MemorySink.calls.watched requests (fresh 4096, history)
      let adds := performAll MemorySink.calls.watched (records.map .add) (fresh 4096, history)
      run.1 = plain.1 ∧ run.2.2.now.state = plain.2.2 ∧
      (∀ moment ∈ run.2.2.moments, ∃ front, Bytes.Leads front (Image.header records) ∧
        headerPart moment.written = laid 0 front ∧ (headerPart moment.written ≠ [] →
          AllWell adds.1 ∧ Fits records ∧
            Filled (MemorySink.Shows False) .empty records front moment.state)) ∧
      (¬ AllWell adds.1 ∨ (∃ e failed, putIndex MemorySink.calls.watched adds.2 = .error e failed) →
        run.2.2.Throughout (Untouched (MemorySink.Shows False) .empty)) ∧
      (AllWell run.1 → headerPart run.2.2.now.written = laid 0 (Image.header records) ∧
        Filled (MemorySink.Shows False) .empty records (Image.header records) run.2.2.now.state) := by
  intro records started
  have shown : MemorySink.Shows False tornSink .empty 0 := ⟨rfl, rfl, rfl, False.elim⟩
  have began : start MemorySink.calls 4096 tornSink = .ok (fresh 4096) started := rfl
  obtain ⟨history, watched, -, sealed⟩ := (header_last MemorySink.faultyFile 4096 shown).2 _ _ began
  obtain ⟨steps, last, moments, fails, whole⟩ := sealed records .finish (.inl rfl)
  exact ⟨shown, began, history, watched, steps, last, moments, fails, whole rfl⟩

end ConstDb.Builder
