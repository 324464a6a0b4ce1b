import ConstDb.Proofs.Disk.Confined
import ConstDb.Proofs.Draft
import ConstDb.Proofs.Independence

/-!
# Builds that have failed

The first addition that fails is final. Before it a builder fails for causes of its own only
(`append_faults`, `finish_faults`). After it the builder refuses what it is asked and leaves its sink
alone (`performAll_of_failed`), and all that a draft still does is to remove its unfinished file
(`Draft.publish_of_failed`). Main statement: `failed_add_final`.
-/

namespace ConstDb

open Effect

namespace Builder

/-! ## Requests -/

/-- What can be asked of a builder that has started. Dropping it asks nothing of its sink. -/
inductive Request where
  | add (record : Record)
  | finish
  | drop

/-- What a builder that has failed answers. -/
def Request.refusal : Request → Except DbError Unit
  | .add _ | .finish => .error .aborted
  | .drop => .ok ()

section requests
variable {σ : Type} {sink : Sink σ} {state : Builder × σ}

def perform (sink : Sink σ) : Request → Effect DbError (Builder × σ) Unit
  | .add record => add sink record
  | .finish => finish sink
  | .drop => pure ()

/-- The requests are made one after the other, whatever becomes of those before. -/
def performAll (sink : Sink σ) : List Request → Builder × σ → List Step × (Builder × σ)
  | [], state => ([], state)
  | request :: requests, state =>
    let (step, state) := call (perform sink request) state
    let (steps, state) := performAll sink requests state
    (step :: steps, state)

theorem performAll_cons (sink : Sink σ) (request : Request) (requests : List Request)
    (state : Builder × σ) : performAll sink (request :: requests) state =
      ((call (perform sink request) state).1 ::
        (performAll sink requests (call (perform sink request) state).2).1,
        (performAll sink requests (call (perform sink request) state).2).2) := rfl

theorem performAll_append (sink : Sink σ) (first second : List Request) (state : Builder × σ) :
    performAll sink (first ++ second) state =
      ((performAll sink first state).1 ++ (performAll sink second (performAll sink first state).2).1,
        (performAll sink second (performAll sink first state).2).2) := by
  induction first generalizing state with
  | nil => rfl
  | cons request first ih => rw [List.cons_append, performAll_cons, performAll_cons, ih, List.cons_append]

theorem call_of_failed (failed : state.1.failed = true) (request : Request) :
    call (perform sink request) state = (.after request.refusal state.1, state) := by
  cases request with
  | add record => exact call_error (add_of_failed record failed)
  | finish => exact call_error (finish_of_failed failed)
  | drop => exact call_ok rfl

theorem performAll_of_failed (failed : state.1.failed = true) (requests : List Request) :
    performAll sink requests state =
      (requests.map fun request => .after request.refusal state.1, state) := by
  induction requests with
  | nil => rfl
  | cons request requests ih => rw [performAll_cons, call_of_failed failed, ih, List.map_cons]

theorem performAll_inStep {τ : Type} {other : Sink τ} {rel : OutBuffer × σ → OutBuffer × τ → Prop}
    {shared : DbError → Prop} (outputs : OutputsInStep sink other rel shared fun _ => False)
    (requests : List Request) {state' : Builder × τ} (abreast : Abreast rel state state') :
    (performAll sink requests state).1 = (performAll other requests state').1 ∧
      Abreast rel (performAll sink requests state).2 (performAll other requests state').2 := by
  induction requests generalizing state state' with
  | nil => exact ⟨rfl, abreast⟩
  | cons request requests ih =>
    have step : Together rel shared (fun _ => False) (perform sink request) (perform other request) state
        state' := by
      cases request with
      | add record => exact add_inStep outputs record abreast
      | finish => exact finish_inStep outputs abreast
      | drop => exact inStep_pure ⟨rfl, abreast⟩
    rw [performAll_cons, performAll_cons]
    rcases call_inStep step with ⟨same, -, abreast⟩ | ⟨_, _, -, never⟩
    · obtain ⟨rest, last⟩ := ih abreast
      exact ⟨by rw [same, rest], last⟩
    · exact never.elim

end requests

/-! ## Causes of failure -/

/-- The causes for which an addition fails first. -/
def Fault (e : DbError) : Prop := (∃ cause, e = .io cause) ∨ ∃ cause, e = .overflow cause

theorem Fault.ne_aborted {e : DbError} (fault : Fault e) : e ≠ .aborted := by
  rcases fault with ⟨_, rfl⟩ | ⟨_, rfl⟩
  · exact DbError.noConfusion
  · exact DbError.noConfusion

section faults
variable {σ : Type} {sink : Sink σ} {state : Builder × σ}

theorem onOutput_faults (action : Effect IoError (OutBuffer × σ) Unit) (state : Builder × σ) :
    Ends (onOutput action) state (fun _ t => t.1.failed = state.1.failed) fun e _ => Fault e := by
  apply onOutput_ends
  cases eq : action (state.1.output, state.2) with
  | ok _ t => exact ends_of_ok eq rfl
  | error e t => exact ends_of_error eq (.inl ⟨e, rfl⟩)

theorem onSink_faults {cause : IoError → DbError} (own : ∀ e, cause e ≠ .aborted)
    (action : Effect IoError σ Unit) (state : Builder × σ) :
    Ends (onSink (action.adaptExcept cause)) state (fun _ _ => True) fun e _ => e ≠ .aborted := by
  apply onSink_ends
  cases eq : action state.2 with
  | ok _ t => exact ends_of_ok eq trivial
  | error e t => exact ends_of_error eq (own e)

theorem append_faults (sink : Sink σ) (record : Record) (state : Builder × σ) :
    Ends (append sink record) state (fun _ t => t.1.failed = state.1.failed) fun e _ => Fault e := by
  refine Ends.bind (ends_get ?_)
  refine Ends.bind (ends_ofExcept (fun stop _ => ?_) fun e eq => .inr (overflows_recordEnd _ _ e eq))
  refine Ends.bind ((onOutput_faults _ _).mono ?_ fun _ _ h => h)
  intro _ first kept
  refine Ends.bind ((onOutput_faults _ _).mono ?_ fun _ _ h => h)
  intro _ second kept'
  refine Ends.bind ((onOutput_faults _ _).mono ?_ fun _ _ h => h)
  intro _ third kept''
  apply ends_modify
  simp only [noteRecord, kept'', kept', kept]

theorem add_faults (record : Record) (trusted : state.1.failed = false) :
    Ends (add sink record) state (fun _ t => t.1.failed = false) fun e _ => Fault e := by
  have ends := append_faults sink record state
  rw [trusted] at ends
  cases eq : append sink record state with
  | ok _ t => exact ends_of_ok (add_of_append_ok trusted eq) (ends.of_ok eq)
  | error e t => exact ends_of_error (add_of_append_error trusted eq) (ends.of_error eq)

theorem putSlots_faults (slots : List Slot) :
    Ends (putSlots sink slots) state (fun _ _ => True) fun e _ => Fault e := by
  induction slots generalizing state with
  | nil => exact ends_pure trivial
  | cons slot slots ih =>
    refine Ends.bind ((onOutput_faults _ state).mono (fun _ _ _ => ?_) fun _ _ h => h)
    refine Ends.bind (Ends.bind (ends_get ?_))
    refine Ends.bind (ends_ofExcept (fun _ _ => ?_)
      fun e eq => .inr (Position.overflows_advance _ _ e eq))
    exact ends_modify ih

theorem putTables_faults (buckets : Buckets) (rest : List Bucket) (header : ByteArray)
    (scratch : Array Slot) :
    Ends (putTables sink buckets rest header scratch) state (fun _ _ => True) fun e _ => Fault e := by
  induction rest generalizing header scratch state with
  | nil => exact ends_pure trivial
  | cons bucket rest ih =>
    refine Ends.bind (ends_ofExcept (fun table _ => ?_)
      fun e eq => .inr (SlotTable.overflows_ofEntries _ _ e eq))
    refine Ends.bind (ends_ofExcept (fun slots _ => ?_)
      fun e eq => .inr (overflows_storedLength _ _ e eq))
    refine Ends.bind (ends_get ?_)
    exact Ends.bind ((putSlots_faults _).mono (fun _ _ _ => ih _ _) fun _ _ h => h)

theorem finish_faults (trusted : state.1.failed = false) :
    Ends (finish sink) state (fun _ _ => True) fun e _ => e ≠ .aborted := by
  refine Ends.bind (ends_get ?_)
  simp only [trusted, Bool.false_eq_true, if_false]
  refine Ends.bind ((putTables_faults _ _ _ _).mono (fun header t _ => ?_) fun _ _ h => h.ne_aborted)
  refine Ends.bind ((onOutput_faults _ t).mono (fun _ t _ => ?_) fun _ _ h => h.ne_aborted)
  refine Ends.bind ((onSink_faults (fun _ => DbError.noConfusion) _ t).mono (fun _ t _ => ?_)
    fun _ _ h => h)
  refine Ends.bind ((onOutput_faults _ t).mono (fun _ t _ => ?_) fun _ _ h => h.ne_aborted)
  exact onSink_faults (fun _ => DbError.noConfusion) _ t

theorem perform_faults (request : Request) (trusted : state.1.failed = false) :
    Ends (perform sink request) state (fun _ _ => True) fun e _ => e ≠ .aborted := by
  cases request with
  | add record => exact (add_faults record trusted).mono (fun _ _ _ => trivial) fun _ _ h => h.ne_aborted
  | finish => exact finish_faults trusted
  | drop => exact ends_pure trivial

theorem start_faults (sink : Sink σ) (capacity : Nat) (s : σ) :
    Ends (start sink capacity) s (fun builder _ => builder.failed = false) fun e _ => e ≠ .aborted := by
  refine Ends.bind (Ends.adaptExcept ?_)
  cases eq : sink.seek headerSize s with
  | ok _ t => exact ends_of_ok eq (ends_pure rfl)
  | error e t => exact ends_of_error eq DbError.noConfusion

theorem trusted_of_allWell (records : List Record) (trusted : state.1.failed = false)
    (well : AllWell (performAll sink (records.map .add) state).1) :
    (performAll sink (records.map .add) state).2.1.failed = false := by
  induction records generalizing state with
  | nil => exact trusted
  | cons record records ih =>
    rw [List.map_cons, performAll_cons] at well ⊢
    cases eq : add sink record state with
    | ok _ t =>
      have made : call (perform sink (.add record)) state = (.after (.ok ()) t.1, t) := call_ok eq
      rw [made] at well ⊢
      exact ih ((add_faults record trusted).of_ok eq) (allWell_cons.1 well).2
    | error e t =>
      have made : call (perform sink (.add record)) state = (.after (.error e) t.1, t) := call_error eq
      rw [made] at well
      exact absurd well (not_allWell_of_error rfl)

end faults

end Builder

/-! ## Drafts that have failed -/

namespace Draft

variable {draft : Draft} {disk : Disk}

theorem failed_of_add_error {record : Record} {state : Draft × Disk} {e : DbError}
    (eq : add record state = .error e (draft, disk)) : draft.builder.failed = true := by
  unfold add onBuilder within at eq
  cases added : Builder.add Disk.Handle.calls record
      (state.1.builder, state.1.handle, state.2) with
  | ok _ t => simp [added] at eq
  | error e t =>
    have failed := Builder.failed_of_add_error added
    simp only [added] at eq
    cases eq
    exact failed

theorem add_of_failed (failed : draft.builder.failed = true) (record : Record) (disk : Disk) :
    add record (draft, disk) = .error .aborted (draft, disk) := by
  have refused : Builder.add Disk.Handle.calls record (draft.builder, draft.handle, disk) =
      .error .aborted (draft.builder, draft.handle, disk) := Builder.add_of_failed record failed
  simp only [add, onBuilder, within, refused]

theorem addLines_of_failed (failed : draft.builder.failed = true) (separator : UInt8) (reads : Reads)
    (disk : Disk) : (addLines separator reads).leaves (draft, disk) = (draft, disk) := by
  have keeps : ∀ record t, t = (draft, disk) →
      Ends (add record) t (fun _ t => t = (draft, disk)) fun _ t => t = (draft, disk) := by
    rintro record _ rfl
    exact ends_of_error (add_of_failed failed record disk) rfl
  have kept := Lines.addReads_ends keeps separator reads [] 0 rfl
  unfold leaves addLines Lines.addAll
  cases eq : Lines.addReads add separator reads [] 0 (draft, disk) with
  | ok count t => exact kept.of_ok eq
  | error e t => exact kept.of_error eq

theorem publish_of_failed (failed : draft.builder.failed = true) (disk : Disk) :
    draft.publish disk = .error .aborted (draft.discard disk) := by
  have refused : Builder.finish Disk.Handle.calls (draft.builder, draft.handle, disk) =
      .error .aborted (draft.builder, draft.handle, disk) := Builder.finish_of_failed failed
  have stopped : draft.installing disk = .error .aborted disk := by
    simp only [installing, complete, onBuilder, within, bind_apply, refused]
  unfold discard
  rw [publish_eq]
  cases removed : Disk.remove draft.tempPath disk with
  | ok _ next => simp only [cleaningUp, stopped, removed]
  | error e next => simp only [cleaningUp, stopped, removed]

theorem files_discard (draft : Draft) (disk : Disk) : (draft.discard disk).files = disk.files := by
  unfold discard
  cases removed : Disk.remove draft.tempPath disk with
  | ok _ next =>
    obtain ⟨-, -, -, -, -, files, -⟩ := Disk.remove_confined removed
    exact files
  | error e next => exact (Disk.change_error removed).2

theorem discard_confined (draft : Draft) (disk : Disk) :
    Disk.Confined (fun place => disk.place? draft.tempPath = some place) (fun _ => False) disk
      (draft.discard disk) := by
  unfold discard
  cases removed : Disk.remove draft.tempPath disk with
  | ok _ next =>
    obtain ⟨place, id, named, -, -, -, confined⟩ := Disk.remove_confined removed
    apply confined.mono
    · intro other here
      rw [here, named]
    · exact fun _ h => h
  | error e next =>
    obtain ⟨names, files⟩ := Disk.change_error removed
    exact Disk.confined_of_same names files

theorem held_tempPath_discard (draft : Draft) {bytes : ByteArray}
    (held : disk.held draft.tempPath = .file bytes) (proceeds : ∀ e, disk.nextFate.1 ≠ .fail e) :
    (draft.discard disk).held draft.tempPath = .nothing := by
  obtain ⟨place, id, named, file, -⟩ := Disk.place?_of_held held
  obtain ⟨next, removed⟩ := Disk.remove_file named file proceeds
  obtain ⟨place', -, named', -, gone, -, confined⟩ := Disk.remove_confined removed
  rw [named] at named'
  cases named'
  have named : next.place? draft.tempPath = some place := by
    rw [confined.directories.place?_eq, named]
  unfold discard
  rw [removed]
  rw [Disk.held_of_place? named, Disk.standing, gone]

end Draft

/-! ## The first failure is final -/

open Builder in
/-- **The first failure is final.** While no addition has failed, nothing is refused. After one that
fails, whatever is asked is refused: the builder and the sink stay as they are, and no call of the sink is
made. A draft over such a builder makes one more call, which removes its unfinished file and gets at
nothing else. -/
theorem failed_add_final :
    (∀ {σ : Type} (sink : Sink σ) (capacity : Nat) (s : σ),
      (∀ e state, start sink.logged capacity (#[], s) = .error e state → e ≠ .aborted) ∧
      ∀ builder state, start sink.logged capacity (#[], s) = .ok builder state →
        ∀ records : List Record, AllWell (performAll sink.logged (records.map .add) (builder, state)).1 →
          let reached := (performAll sink.logged (records.map .add) (builder, state)).2
          (∀ request e last, perform sink.logged request reached = .error e last → e ≠ .aborted) ∧
          ∀ record e failed, perform sink.logged (.add record) reached = .error e failed →
            Fault e ∧ failed.1.failed = true ∧ ∀ requests, performAll sink.logged requests failed =
              (requests.map fun request => .after request.refusal failed.1, failed)) ∧
    ∀ {record start e draft disk}, Draft.add record start = .error e (draft, disk) →
      (∀ record later, Draft.add record (draft, later) = .error .aborted (draft, later)) ∧
      (∀ separator reads later, (Draft.addLines separator reads).leaves (draft, later) = (draft, later)) ∧
      ∀ later : Disk, draft.publish later = .error .aborted (draft.discard later) ∧
        (draft.discard later).files = later.files ∧
        (∀ text, (∀ place, later.place? text = some place → later.place? draft.tempPath ≠ some place) →
          (draft.discard later).held text = later.held text) ∧
        ∀ bytes, later.held draft.tempPath = .file bytes → (∀ e, later.nextFate.1 ≠ .fail e) →
          (draft.discard later).held draft.tempPath = .nothing := by
  constructor
  · intro σ sink capacity s
    have started := start_faults sink.logged capacity (#[], s)
    refine ⟨fun e state eq => started.of_error eq, fun builder state eq records well => ?_⟩
    have began : (builder, state).1.failed = false := started.of_ok eq
    have trusted := trusted_of_allWell records began well
    refine ⟨fun request e last eq => (perform_faults request trusted).of_error eq, ?_⟩
    intro record e failed eq
    have final := failed_of_add_error eq
    exact ⟨(add_faults record trusted).of_error eq, final, performAll_of_failed final⟩
  · intro record start e draft disk eq
    have final := Draft.failed_of_add_error eq
    refine ⟨Draft.add_of_failed final, Draft.addLines_of_failed final, fun later => ?_⟩
    refine ⟨Draft.publish_of_failed final later, draft.files_discard later, ?_, ?_⟩
    · intro text unlike
      exact (draft.discard_confined later).held_eq unlike fun _ _ _ _ => not_false
    · exact fun bytes held proceeds => draft.held_tempPath_discard held proceeds

section
variable {σ : Type} {sink : Sink σ} {s t : σ} {e : IoError} {capacity : Nat}

theorem OutBuffer.put_of_write_error {bytes : ByteArray} (large : capacity ≤ bytes.size)
    (some : bytes.size ≠ 0) (refused : sink.write bytes s = .error e t)
    (final : ¬ e.isInterrupted = true) :
    put sink bytes (.ofCapacity capacity, s) = .error e (.ofCapacity capacity, t) := by
  have failed : writeThrough sink bytes (.ofCapacity capacity, s) = .error e (.ofCapacity capacity, t) := by
    simp only [writeThrough, onSecond, within, Sink.writeFully_of_error some refused final]
  have flushed : flush sink (.ofCapacity capacity, s) = .ok () (.ofCapacity capacity, s) :=
    writeThrough_empty (ofCapacity capacity, s)
  have got : (get : Effect IoError (OutBuffer × σ) (OutBuffer × σ)) (.ofCapacity capacity, s) =
      .ok (.ofCapacity capacity, s) (.ofCapacity capacity, s) := rfl
  have capacity_eq : (ofCapacity capacity).capacity = capacity := rfl
  unfold put
  rw [bind_apply, got]
  dsimp only
  rw [capacity_eq, if_pos large]
  split
  · rw [bind_apply, flushed]
    exact failed
  · exact failed

theorem Builder.add_of_write_error {record : Record} {stop : Nat}
    (fits : recordEnd headerSize record = .ok stop) (small : capacity ≤ Pair.size)
    (refused : sink.write record.header s = .error e t) (final : ¬ e.isInterrupted = true) :
    add sink record (fresh capacity, s) = .error (.io e) ({ fresh capacity with failed := true }, t) := by
  have size : record.header.size = Pair.size := Pair.size_encode ..
  have put := OutBuffer.put_of_write_error (size ▸ small) (by simp [size, Pair.size]) refused final
  have got : (get : Effect DbError (Builder × σ) (Builder × σ)) (fresh capacity, s) =
      .ok (fresh capacity, s) (fresh capacity, s) := rfl
  have first : onOutput (OutBuffer.put sink record.header) (fresh capacity, s) =
      .error (.io e) (fresh capacity, t) := by
    simp only [onOutput, within, adaptExcept_apply, fresh, put]
  have failed : append sink record (fresh capacity, s) = .error (.io e) (fresh capacity, t) := by
    unfold append
    rw [bind_apply, got]
    have position_eq : (fresh capacity).position = headerSize := rfl
    simp only [position_eq, fits, bind_apply, ofExcept_ok, first]
  exact add_of_append_error rfl failed

end

def noSpace : IoError := ⟨.named "StorageFull", "no space left on device"⟩

/-- An empty sink whose first write fails, and no call after that. -/
def fullSink : MemorySink := { MemorySink.empty with writes := .once [.fail noSpace] }

/-- A draft on a disk whose next call fails, and no call after that. -/
def fullDraft : Draft × Disk :=
  (⟨.fresh 1, ⟨0, headerSize⟩, "db.tmp", "db", false⟩, ⟨[(["db.tmp"], .file 0)], #[.empty], [.fail noSpace]⟩)

theorem add_fullDraft : Draft.add ⟨"k".toUTF8, "v".toUTF8⟩ fullDraft = .error (.io noSpace)
    ({ fullDraft.1 with builder := { Builder.fresh 1 with failed := true } },
      { fullDraft.2 with fates := [] }) := by
  let record : Record := ⟨"k".toUTF8, "v".toUTF8⟩
  have fits : Builder.recordEnd headerSize record = .ok 2058 := by decide
  have refused : Disk.Handle.calls.write record.header (fullDraft.1.handle, fullDraft.2) =
      .error noSpace (fullDraft.1.handle, { fullDraft.2 with fates := [] }) := rfl
  have small : 1 ≤ Pair.size := by decide
  have added := Builder.add_of_write_error fits small refused (by decide)
  unfold Draft.add Draft.onBuilder within
  dsimp only [fullDraft] at added ⊢
  rw [added]

theorem failed_add_final_full :
    let record : Record := ⟨"k".toUTF8, "v".toUTF8⟩
    let started : Builder × Log × MemorySink :=
      (.fresh 1, #[.sought headerSize (.ok ())], { fullSink with offset := headerSize })
    Builder.start MemorySink.calls.logged 1 (#[], fullSink) = .ok started.1 started.2 ∧
    (∃ e failed, Builder.perform MemorySink.calls.logged (.add record) started = .error e failed ∧
      Builder.performAll MemorySink.calls.logged [.add record, .finish, .drop] failed =
        ([.after (.error .aborted) failed.1, .after (.error .aborted) failed.1, .after (.ok ()) failed.1],
          failed)) ∧
    ∃ e draft disk, Draft.add record fullDraft = .error e (draft, disk) ∧
      draft.publish disk = .error .aborted (draft.discard disk) ∧
      (draft.discard disk).held "db.tmp" = .nothing := by
  intro record started
  have fits : Builder.recordEnd headerSize record = .ok 2058 := by decide
  have small : 1 ≤ Pair.size := by decide
  have final : ¬ noSpace.isInterrupted = true := by decide
  have began : Builder.start MemorySink.calls.logged 1 (#[], fullSink) = .ok started.1 started.2 := rfl
  refine ⟨began, ?_, ?_⟩
  · have refused : MemorySink.calls.logged.write record.header started.2 = .error noSpace
        (started.2.1.push (.wrote 8 (.error noSpace)), { MemorySink.empty with offset := headerSize }) := rfl
    have added := Builder.add_of_write_error fits small refused final
    obtain ⟨-, -, later⟩ := ((failed_add_final.1 MemorySink.calls 1 fullSink).2 _ _ began []
      Builder.allWell_nil).2 record _ _ added
    exact ⟨_, _, added, later _⟩
  · obtain ⟨-, -, later⟩ := failed_add_final.2 add_fullDraft
    obtain ⟨refused, -, -, removed⟩ := later { fullDraft.2 with fates := [] }
    exact ⟨_, _, _, add_fullDraft, refused, removed .empty (by rfl) fun e eq => by cases eq⟩

end ConstDb
