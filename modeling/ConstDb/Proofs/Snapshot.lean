import ConstDb.Disk.Opened
import ConstDb.Proofs.DumpInStep
import ConstDb.Proofs.Publication

/-!
# Readers while others write

A reader that has opened a file keeps seeing the bytes that the file had then, whatever writers do
after that, as long as none of them makes its unfinished file where the reader's path leads
(`readers_keep_their_snapshot`).
-/

namespace ConstDb

open Effect

/-! ## The same answers from the same bytes -/

/-- The call answers alike in both states, and leaves the state as it is. -/
def Unvaried {σ α : Type} (call : Effect DbError σ α) (later first : σ) : Prop :=
  call.answer later = call.answer first ∧ call.leaves later = later

/-- A database answers all calls in the one state as it does in the other. Cursors and walks that are
under way go on alike. -/
structure SameAnswers {σ : Type} (db : Database σ) (later first : σ) : Prop where
  readAt : ∀ position length, Unvaried (db.readAt position length) later first
  table : ∀ bucket, Unvaried (db.table bucket) later first
  get : ∀ key, Unvaried (db.get key) later first
  contains : ∀ key, Unvaried (db.contains key) later first
  findNext : ∀ key cursor,
    (db.findNext key).answer (cursor, later) = (db.findNext key).answer (cursor, first) ∧
      (db.findNext key).leaves (cursor, later) = (((db.findNext key).leaves (cursor, first)).1, later)
  values : ∀ key, db.values key later = db.values key first
  nextValue : ∀ key values,
    db.nextValue key (values, later) =
      ((db.nextValue key (values, first)).1, (db.nextValue key (values, first)).2.1, later)
  records : Unvaried db.records later first
  nextRecord : ∀ records,
    db.nextRecord (records, later) =
      ((db.nextRecord (records, first)).1, (db.nextRecord (records, first)).2.1, later)

section answers
variable {σ ω α : Type} {db : Database σ} {later first : σ}

theorem unvaried_of_inStep {call : Effect DbError σ α}
    (step : InUnison (Unmoved later first) (fun _ _ => False) call call later first) :
    Unvaried call later first :=
  ⟨step.answer_eq.1, step.answer_eq.2.1⟩

theorem walk_eq_of_inStep {walk : Walk DbError (ω × σ) α} {w : ω}
    (step : walk.InStep walk (OnSecond (Unmoved later first)) (fun _ _ => False) (w, later) (w, first)) :
    walk (w, later) = ((walk (w, first)).1, (walk (w, first)).2.1, later) := by
  rcases step with ⟨same, state, moved, -⟩ | ⟨e, u, -, never, -⟩
  · exact Prod.ext same (Prod.ext state moved)
  · exact never.elim

theorem ReadsInStep.sameAnswers
    (reads : ReadsInStep db db (Unmoved later first) fun _ _ => False) : SameAnswers db later first := by
  have unmoved : Unmoved later first later first := ⟨rfl, rfl⟩
  refine ⟨?_, ?_, ?_, ?_, ?_, ?_, ?_, ?_, ?_⟩
  · intro position length
    exact unvaried_of_inStep (reads.readAt unmoved position length)
  · intro bucket
    exact unvaried_of_inStep (reads.table_inStep unmoved bucket)
  · intro key
    exact unvaried_of_inStep (reads.get_inStep key unmoved)
  · intro key
    exact unvaried_of_inStep (reads.contains_inStep key unmoved)
  · intro key cursor
    obtain ⟨same, state, moved, -⟩ := (reads.findNext_inStep key cursor unmoved).answer_eq
    exact ⟨same, Prod.ext state moved⟩
  · intro key
    have start : OnSecond (Unmoved later first) (Values.fresh, later) (Values.fresh, first) :=
      ⟨rfl, unmoved⟩
    rcases Walk.items_inStep (reads.nextValue_inStep key) Values.fresh.remaining start with
      ⟨same, -⟩ | ⟨shown, e, never, -⟩
    · exact same
    · exact never.elim
  · intro key values
    exact walk_eq_of_inStep (reads.nextValue_inStep key _ _ ⟨rfl, unmoved⟩)
  · exact unvaried_of_inStep (records_inUnison reads.readAt rfl unmoved)
  · intro records
    exact walk_eq_of_inStep (nextRecord_inStep reads.readAt _ _ ⟨rfl, unmoved⟩)

end answers

/-! ## Readers of a disk -/

namespace OpenDatabase

section readers
variable {opened : OpenDatabase} {later first disk : Disk} {maps : Bool} {path : String}

theorem view_congr {id : FileId} (same : later.bytes id = first.bytes id) :
    opened.view later id = opened.view first id := by
  unfold view
  rw [same]

theorem source_mapped_eq (same : ∀ id, opened.node = .file id → later.bytes id = first.bytes id) :
    opened.source.mapped later = opened.source.mapped first := by
  obtain ⟨node, size, mapped⟩ := opened
  cases mapped with
  | false => rfl
  | true =>
    cases node with
    | directory => rfl
    | file id => exact congrArg some (view_congr (same id rfl))

theorem exists_source_read (same : ∀ id, opened.node = .file id → later.bytes id = first.bytes id)
    (position length : Nat) : ∃ answer : Except IoError ByteArray,
      opened.source.read position length later = Effect.ofExcept answer later ∧
        opened.source.read position length first = Effect.ofExcept answer first := by
  obtain ⟨node, size, mapped⟩ := opened
  cases node with
  | directory =>
    refine ⟨readNode first position length .directory, ?_, ?_⟩ <;> cases mapped <;> rfl
  | file id =>
    have bytes := same id rfl
    cases mapped with
    | false =>
      refine ⟨readNode first position length (.file id), ?_, rfl⟩
      simp only [source, readNode, bytes]
    | true =>
      refine ⟨Source.readBytes (view ⟨.file id, size, true⟩ first id) position length, ?_, rfl⟩
      simp only [source, view_congr bytes]

theorem reads_inStep (same : ∀ id, opened.node = .file id → later.bytes id = first.bytes id) :
    ReadsInStep opened.source opened.source (Unmoved later first) fun _ _ => False := by
  have reads : ∀ {s t}, Unmoved later first s t → ∀ position length,
      InUnison (Unmoved later first) (fun _ _ => False) (Database.readAt opened.source position length)
        (Database.readAt opened.source position length) s t := by
    intro s t unmoved position length
    refine readAt_inStep_of_read rfl unmoved ?_
    intro _
    obtain ⟨rfl, rfl⟩ := unmoved
    obtain ⟨answer, here, there⟩ := exists_source_read same position length
    have alike : InUnison (Unmoved s t) (fun _ _ => False) (Effect.ofExcept answer)
        (Effect.ofExcept answer) s t :=
      inStep_ofExcept (fun _ _ => ⟨rfl, rfl, rfl⟩) fun _ _ => ⟨rfl, rfl⟩
    exact alike.of_eq here there
  refine ⟨reads, ?_⟩
  intro s t unmoved key position
  refine keyMatches_inStep reads unmoved ?_ key position
  obtain ⟨rfl, rfl⟩ := unmoved
  exact source_mapped_eq same

theorem keeps_ofNode (disk : Disk) (maps : Bool) (id : FileId) :
    Keeps (ofNode disk maps (.file id)).source (disk.bytes id) disk := by
  have view_eq : view (ofNode disk maps (.file id)) disk id = disk.bytes id := by
    simp [view, ofNode]
  have read_bytes : ∀ {position length}, position + length ≤ (disk.bytes id).size →
      Source.readBytes (disk.bytes id) position length =
        .ok ((disk.bytes id).extract position (position + length)) := fun inside => if_pos inside
  unfold source
  cases mapped : (ofNode disk maps (.file id)).mapped with
  | true =>
    refine ⟨⟨rfl, ?_, fun h _ => h⟩, .inr (congrArg some view_eq)⟩
    intro s same position length inside
    subst same
    show Effect.ofExcept (Source.readBytes (view _ s id) position length) s = _
    rw [view_eq, read_bytes inside]
    rfl
  | false =>
    refine ⟨⟨rfl, ?_, fun h _ => h⟩, .inl rfl⟩
    intro s same position length inside
    subst same
    show Effect.ofExcept (readNode s position length (.file id)) s = _
    by_cases none : length = 0
    · rw [readNode, if_pos none, none, Nat.add_zero, ByteArray.extract_same]
      rfl
    · rw [readNode, if_neg none, read_bytes inside]
      rfl

theorem openPath_of_held {bytes : ByteArray} (held : disk.held path = .file bytes) (maps : Bool) :
    ∃ opened, openPath disk path maps = .ok opened ∧ Keeps opened.source bytes disk := by
  unfold Disk.held at held
  cases eq : disk.openRead path with
  | error e =>
    rw [eq] at held
    cases held
  | ok node =>
    rw [eq] at held
    cases node with
    | directory => cases held
    | file id =>
      cases held
      refine ⟨_, ?_, keeps_ofNode disk maps id⟩
      simp [openPath, eq, Except.mapError, bind, Except.bind, pure, Except.pure]

theorem exists_place_of_openPath {id : FileId} (opens : openPath disk path maps = .ok opened)
    (file : opened.node = .file id) :
    ∃ place, disk.place? path = some place ∧ disk.node? place = some (.file id) := by
  obtain ⟨node, found, eq⟩ := except_bind_eq_ok_iff.1 opens
  have node_eq : opened.node = node := by
    cases eq
    cases node <;> rfl
  rw [node_eq] at file
  subst file
  apply Disk.exists_place_of_openRead
  cases read : disk.openRead path with
  | error e => simp [read, Except.mapError] at found
  | ok node =>
    rw [read] at found
    cases found
    rfl

end readers

end OpenDatabase

/-! ## Files that writers leave alone -/

/-- The disk has a file of these bytes, and no place but `home` leads to it. -/
structure Disk.Snapshot (file : FileId) (home : Place) (bytes : ByteArray) (disk : Disk) : Prop where
  stored : file < disk.files.size
  bytes_eq : disk.bytes file = bytes
  named : ∀ {place}, disk.node? place = some (.file file) → place = home

theorem Disk.Snapshot.of_undisturbed {file : FileId} {home : Place} {bytes : ByteArray} {disk next : Disk}
    (snapshot : Snapshot file home bytes disk) (undisturbed : Undisturbed file disk next) :
    Snapshot file home bytes next :=
  ⟨Nat.lt_of_lt_of_le snapshot.stored undisturbed.larger, undisturbed.bytes_eq.trans snapshot.bytes_eq,
    fun eq => snapshot.named (undisturbed.named eq)⟩

namespace World

section steps
variable {initial : Disk} {finals : List String} {world : World} {action : Action} {file : FileId}

theorem Inv.undisturbed (inv : Inv initial finals world) (clear : world.Clear finals action)
    (listed : ∀ path, action.destination? = some path → path ∈ finals)
    (stored : file < world.disk.files.size)
    (elsewhere : ∀ place, world.Touches action place → world.disk.node? place ≠ some (.file file)) :
    Disk.Undisturbed file world.disk (world.next action).disk := by
  have quiet : (∀ i, action ≠ .finish i) ∨ (∃ e next, step action world = .error e next) →
      Disk.Undisturbed file world.disk (world.next action).disk := fun unpublished =>
    (inv.frame_of_unpublished clear listed unpublished).undisturbed stored elsewhere
  -- a publication replaces a file by name, and its bytes stay
  by_cases finishes : ∃ i, action = .finish i
  · obtain ⟨i, rfl⟩ := finishes
    cases live : world.writers i with
    | none =>
      have same : world.next (.finish i) = world := by simp only [World.next, step, live]
      rw [same]
      exact ⟨rfl, Nat.le_refl _, id⟩
    | some writer =>
      obtain ⟨place, underway, member, free⟩ := inv.underway live
      have ends := Draft.publish_ends inv.sound underway (free _ member)
      cases published : writer.draft.publish world.disk with
      | error e disk => exact quiet (.inr ⟨e, world.put i disk none, by simp only [step, live, published]⟩)
      | ok _ disk =>
        obtain ⟨-, -, -, -, -, -, others⟩ := ends.of_ok published
        have next_eq : (world.next (.finish i)).disk = disk := by
          simp only [World.next, step, live, published, disk_put]
        rw [next_eq]
        apply others file stored
        intro own
        rw [own] at elsewhere
        exact elsewhere place (.inr ⟨writer, live, underway.named⟩) underway.file
  · exact quiet (.inl fun i eq => finishes ⟨i, eq⟩)

variable {path : String} {home : Place} {bytes : ByteArray}

theorem Inv.snapshot_next (inv : Inv initial (path :: finals) world)
    (clear : world.Clear (path :: finals) action)
    (listed : ∀ path, action.destination? = some path → path ∈ finals)
    (leads : initial.place? path = some home) (snapshot : world.disk.Snapshot file home bytes) :
    (world.next action).disk.Snapshot file home bytes := by
  apply snapshot.of_undisturbed
  apply inv.undisturbed clear (fun path eq => List.mem_cons_of_mem _ (listed path eq)) snapshot.stored
  intro place touches here
  have apart := (inv.touches clear touches).1 path (List.mem_cons_self ..)
  rw [inv.place?_eq, leads, snapshot.named here] at apart
  exact apart rfl

theorem Inv.snapshot_run {actions : List Action} {world : World} (inv : Inv initial (path :: finals) world)
    (own : Private (path :: finals) world actions)
    (listed : ∀ action ∈ actions, ∀ path, action.destination? = some path → path ∈ finals)
    (leads : initial.place? path = some home) (snapshot : world.disk.Snapshot file home bytes) :
    (world.run actions).disk.Snapshot file home bytes := by
  induction actions generalizing world with
  | nil => exact snapshot
  | cons action actions ih =>
    have here := listed action (List.mem_cons_self ..)
    apply ih
    · exact (inv.next own.1 fun path eq => List.mem_cons_of_mem _ (here path eq)).1
    · exact own.2
    · exact fun action member => listed action (List.mem_cons_of_mem _ member)
    · exact inv.snapshot_next own.1 here leads snapshot

end steps

/-! ## Runs from a later start -/

/-- The worlds differ at most in what has been published so far, which decides nothing. -/
def SameWork (world other : World) : Prop := world.disk = other.disk ∧ world.writers = other.writers

theorem SameWork.next {world other : World} (same : SameWork world other) (action : Action) :
    SameWork (world.next action) (other.next action) := by
  obtain ⟨disk, writers, published⟩ := world
  obtain ⟨_, _, published'⟩ := other
  obtain ⟨rfl, rfl⟩ := same
  cases action with
  | create i path config =>
    cases live : writers i with
    | some writer => simp [SameWork, World.next, step, live]
    | none => cases made : Draft.create path config disk <;> simp [SameWork, World.next, step, live, made, put]
  | add i record =>
    cases live : writers i with
    | none => simp [SameWork, World.next, step, live]
    | some writer =>
      cases added : Draft.add record (writer.draft, disk) <;>
        simp [SameWork, World.next, step, live, added, put]
  | ingest i separator reads =>
    cases live : writers i with
    | none => simp [SameWork, World.next, step, live]
    | some writer =>
      cases added : Draft.addLines separator reads (writer.draft, disk) <;>
        simp [SameWork, World.next, step, live, added, put]
  | finish i =>
    cases live : writers i with
    | none => simp [SameWork, World.next, step, live]
    | some writer =>
      cases published : writer.draft.publish disk <;>
        simp [SameWork, World.next, step, live, published, put]
  | drop i =>
    cases live : writers i with
    | none => simp [SameWork, World.next, step, live]
    | some writer => simp [SameWork, World.next, step, live, put]

theorem SameWork.run {world other : World} (same : SameWork world other) (actions : List Action) :
    SameWork (world.run actions) (other.run actions) := by
  induction actions generalizing world other with
  | nil => exact same
  | cons action actions ih => exact ih (same.next action)

theorem SameWork.clear {finals : List String} {world other : World} (same : SameWork world other)
    {action : Action} (clear : world.Clear finals action) : other.Clear finals action := by
  obtain ⟨disk, writers, published⟩ := world
  obtain ⟨_, _, published'⟩ := other
  obtain ⟨rfl, rfl⟩ := same
  intro place opened
  apply clear place
  cases action <;> exact opened

theorem SameWork.privately {finals : List String} {world other : World} (same : SameWork world other)
    {actions : List Action} (own : Private finals world actions) : Private finals other actions := by
  induction actions generalizing world other with
  | nil => trivial
  | cons action actions ih => exact ⟨same.clear own.1, ih (same.next action) own.2⟩

theorem private_of_cons {finals : List String} {path : String} {world : World} {actions : List Action}
    (own : Private (path :: finals) world actions) : Private finals world actions := by
  induction actions generalizing world with
  | nil => trivial
  | cons action actions ih =>
    refine ⟨fun place opens => ?_, ih own.2⟩
    obtain ⟨free, alone⟩ := own.1 place opens
    exact ⟨fun final member => free final (List.mem_cons_of_mem _ member), alone⟩

theorem Inv.watched {initial : Disk} {finals : List String} {world : World} {path : String}
    (inv : Inv initial finals world)
    (apart : ∀ i writer, world.writers i = some writer →
      ∀ place, world.disk.place? path = some place → world.disk.place? writer.draft.tempPath ≠ some place) :
    Inv world.disk (path :: finals) { world with published := [] } := by
  refine ⟨inv.sound, fun _ => Iff.rfl, ?_, inv.apart, fun _ _ => ⟨fun _ => rfl, fun none => by cases none⟩⟩
  intro i writer live
  obtain ⟨place, underway, listed, free⟩ := inv.underway live
  refine ⟨place, underway, List.mem_cons_of_mem _ listed, fun final member => ?_⟩
  rcases List.mem_cons.1 member with rfl | member
  · intro leads
    exact apart i writer live place leads underway.named
  · exact free final member

/-! ## Open readers and new ones -/

structure ReadsImage (disk : Disk) (path : String) (records : List Record) : Prop where
  holds : disk.HoldsImage path records
  reads : ∀ maps, ∃ opened, OpenDatabase.openPath disk path maps = .ok opened ∧
    Keeps opened.source (Image.ofRecords records) disk ∧
    (∀ key, Recalls opened.source disk records key) ∧
    opened.source.records disk = .ok (records.map .ok) disk

section runs
variable {disk : Disk} {finals : List String} {world : World} {path : String}

theorem Inv.readsImage (inv : Inv disk finals world) (member : path ∈ finals) {destination : String}
    {records : List Record} (latest : world.latest? disk path = some (destination, records)) :
    ReadsImage world.disk path records := by
  have holds := (inv.current path member).published latest
  refine ⟨holds, fun maps => ?_⟩
  obtain ⟨opened, opens, keeps⟩ := OpenDatabase.openPath_of_held holds.held maps
  have whole : Keeps opened.source (Image.ofRecords records ++ .empty) world.disk := by
    rwa [ByteArray.append_empty]
  exact ⟨opened, opens, keeps, fun key => holds.fits.recalls whole key, holds.fits.records_eq whole⟩

theorem latest?_of_finish (disk : Disk) {i : Nat} {writer : Writer} {next : World}
    (live : world.writers i = some writer) (finished : step (.finish i) world = .ok () next) :
    next.latest? disk writer.draft.destination = some (writer.draft.destination, writer.accepted) := by
  cases published : writer.draft.publish world.disk with
  | error e between =>
    simp only [step, live, published] at finished
    cases finished
  | ok _ between =>
    simp only [step, live, published] at finished
    cases finished
    exact List.find?_cons_of_pos (by simp)

theorem Inv.reader_keeps {opened : OpenDatabase} {maps : Bool} {actions : List Action}
    (inv : Inv disk finals world) (opens : OpenDatabase.openPath world.disk path maps = .ok opened)
    (finished : ∀ i writer, world.writers i = some writer →
      ∀ place, world.disk.place? path = some place → world.disk.place? writer.draft.tempPath ≠ some place)
    (own : Private (path :: finals) world actions)
    (listed : ∀ action ∈ actions, ∀ path, action.destination? = some path → path ∈ finals) :
    SameAnswers opened.source (world.run actions).disk world.disk := by
  apply ReadsInStep.sameAnswers
  apply OpenDatabase.reads_inStep
  intro id file
  obtain ⟨place, leads, here⟩ := OpenDatabase.exists_place_of_openPath opens file
  -- from here on the path of the reader counts as a destination, so that no writer opens it
  have snapshot : world.disk.Snapshot id place (world.disk.bytes id) :=
    ⟨inv.sound.stored here, rfl, fun there => inv.sound.one_name there here⟩
  have same : SameWork world { world with published := [] } := ⟨rfl, rfl⟩
  have later := (inv.watched finished).snapshot_run (same.privately own) listed leads snapshot
  rw [(same.run actions).1]
  exact later.bytes_eq

end runs

/-- **Open readers keep their snapshot.** Whatever writers do after a reader was opened, also to its own
path, it answers every call as it did at first, unless an unfinished file is made where its path leads;
and whoever opens a destination reads what was published there last. -/
theorem readers_keep_their_snapshot (disk : Disk) (sound : disk.Sound) (before after : List Action)
    (own : Private (Action.destinations (before ++ after)) (start disk) before) (path : String)
    (maps : Bool) (opened : OpenDatabase)
    (opens : OpenDatabase.openPath ((start disk).run before).disk path maps = .ok opened)
    (finished : ∀ i writer, ((start disk).run before).writers i = some writer →
      ∀ place, ((start disk).run before).disk.place? path = some place →
        ((start disk).run before).disk.place? writer.draft.tempPath ≠ some place)
    (spared : Private (path :: Action.destinations (before ++ after)) ((start disk).run before) after) :
    (∀ meanwhile, meanwhile <+: after → SameAnswers opened.source
      ((start disk).run (before ++ meanwhile)).disk ((start disk).run before).disk) ∧
    (∀ done, done <+: before ++ after → ∀ final ∈ Action.destinations (before ++ after),
      ∀ destination records,
        ((start disk).run done).latest? disk final = some (destination, records) →
        ReadsImage ((start disk).run done).disk final records) ∧
    ∀ done i writer next, done ++ [.finish i] <+: before ++ after →
      ((start disk).run done).writers i = some writer →
      step (.finish i) ((start disk).run done) = .ok () next →
      next.latest? disk writer.draft.destination =
          some (writer.draft.destination, writer.accepted) ∧
        ReadsImage next.disk writer.draft.destination writer.accepted := by
  have listed : ∀ action ∈ before ++ after, ∀ path, action.destination? = some path →
      path ∈ Action.destinations (before ++ after) :=
    fun action member path eq => List.mem_filterMap.2 ⟨action, member, eq⟩
  have whole : Private (Action.destinations (before ++ after)) (start disk) (before ++ after) :=
    private_append.2 ⟨own, private_of_cons spared⟩
  refine ⟨?_, ?_, ?_⟩
  · intro meanwhile h
    obtain ⟨rest, rfl⟩ := h
    have inv := (inv_of_cut sound whole listed rfl).1
    have run_append : (start disk).run (before ++ meanwhile) = ((start disk).run before).run meanwhile :=
      List.foldl_append
    rw [run_append]
    apply inv.reader_keeps opens finished (private_append.1 spared).1
    intro action member
    exact listed action (List.mem_append_right _ (List.mem_append_left _ member))
  · intro done h final member destination records latest
    obtain ⟨rest, cut⟩ := h
    exact (inv_of_cut sound whole listed cut).1.readsImage member latest
  · intro done i writer next h live finishes
    obtain ⟨rest, cut⟩ := h
    have latest := latest?_of_finish disk live finishes
    have cut' : done ++ .finish i :: rest = before ++ after := by rw [← cut, List.append_assoc]; rfl
    obtain ⟨-, -, member, -⟩ := (inv_of_cut sound whole listed cut').1.underway live
    have inv := (inv_of_cut sound whole listed cut).1
    have next_eq : (start disk).run (done ++ [.finish i]) = next := by
      rw [World.run, List.foldl_append]
      show ((start disk).run done).next (.finish i) = next
      simp only [World.next, finishes]
    rw [next_eq] at inv
    exact ⟨latest, inv.readsImage member latest⟩

/-! ## One file -/

def oneFile (name : String) (bytes : ByteArray) : Disk := ⟨[([name], .file 0)], #[bytes], []⟩

theorem sound_oneFile (name : String) (bytes : ByteArray) : (oneFile name bytes).Sound :=
  Disk.sound_oneName name Nat.zero_lt_one

/-- A writer that comes later may take the file of a reader for its unfinished one, and empties it. -/
theorem reader_of_unfinished_file :
    let disk := oneFile "db.tmp" (Bytes.zeros 48)
    let actions : List Action := [.create 0 "db" .default]
    disk.Sound ∧ Private (Action.destinations actions) (start disk) actions ∧
      (∀ i, (start disk).writers i = none) ∧
      ∃ opened, OpenDatabase.openPath disk "db.tmp" false = .ok opened ∧
        (Database.get opened.source .empty).answer disk = .ok none ∧
        (Database.get opened.source .empty).answer ((start disk).run actions).disk =
          .error (.truncated (.endedEarly 40)) := by
  intro disk actions
  refine ⟨sound_oneFile _ _, ⟨?_, trivial⟩, fun _ => rfl, ⟨.file 0, 48, false⟩, by decide +kernel,
    by decide +kernel, by decide +kernel⟩
  intro place eq
  have opened : (start disk).opens? (.create 0 "db" .default) = some ["db.tmp"] := by rfl
  obtain rfl := Option.some.inj (opened.symm.trans eq)
  exact ⟨by decide, fun _ _ live => by cases live⟩

theorem readers_keep_their_snapshot_oneFile :
    let disk := oneFile "db" (Bytes.zeros 48)
    let actions : List Action :=
      [.create 0 "db" .default, .add 0 ⟨"key".toUTF8, "data".toUTF8⟩, .finish 0]
    ∃ opened, OpenDatabase.openPath disk "db" true = .ok opened ∧
      (Database.get opened.source .empty).answer ((start disk).run actions).disk = .ok none ∧
      SameAnswers opened.source ((start disk).run actions).disk disk := by
  intro disk actions
  have opens : OpenDatabase.openPath disk "db" true = .ok ⟨.file 0, 48, true⟩ := by
    decide +kernel
  have idle : ∀ {world : World} {action : Action} {finals : List String}, world.opens? action = none →
      world.Clear finals action := by
    intro world action finals none place eq
    rw [none] at eq
    cases eq
  have spared : Private ("db" :: Action.destinations ([] ++ actions)) (start disk) actions := by
    refine ⟨?_, idle rfl, idle rfl, trivial⟩
    intro place eq
    have opened : (start disk).opens? (.create 0 "db" .default) = some ["db.tmp"] := by rfl
    obtain rfl := Option.some.inj (opened.symm.trans eq)
    exact ⟨by decide, fun _ _ live => by cases live⟩
  obtain ⟨same, -⟩ := readers_keep_their_snapshot disk (sound_oneFile _ _) [] actions trivial "db" true
    _ opens (fun _ _ live => by cases live) spared
  have whole := same actions List.prefix_rfl
  have first : (Database.get (OpenDatabase.source ⟨.file 0, 48, true⟩) .empty).answer disk = .ok none := by
    decide +kernel
  exact ⟨_, opens, (whole.get .empty).1.trans first, whole⟩

end World

end ConstDb
