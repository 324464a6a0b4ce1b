import ConstDb.Draft
import ConstDb.Proofs.Disk.Places

/-!
# What calls do to a disk

A call that succeeds changes what stands at the places that its paths name, and nothing else
(`create_ok`, `remove_ok`, `rename_ok`); a call that fails changes nothing (`change_error`). `Frame` says
what stays: the nodes of all other places, the bytes of the files that stand there, and all
directories.
-/

namespace ConstDb.Disk

open Effect

/-! ## Sound disks -/

/-- The names form a tree of directories with files for leaves, and no file has two names. -/
structure Sound (disk : Disk) : Prop where
  parent : ∀ {place name node}, disk.node? (place ++ [name]) = some node →
    disk.node? place = some .directory
  stored : ∀ {place id}, disk.node? place = some (.file id) → id < disk.files.size
  one_name : ∀ {place other id}, disk.node? place = some (.file id) →
    disk.node? other = some (.file id) → place = other

/-- The names form a tree of directories. Files may have several names. -/
structure Tree (disk : Disk) : Prop where
  parent : ∀ {place name node}, disk.node? (place ++ [name]) = some node →
    disk.node? place = some .directory
  stored : ∀ {place id}, disk.node? place = some (.file id) → id < disk.files.size

theorem Sound.tree {disk : Disk} (sound : disk.Sound) : disk.Tree := ⟨sound.parent, sound.stored⟩

theorem Tree.nothing_below {disk : Disk} (tree : disk.Tree) {place : Place}
    (leaf : disk.node? place ≠ some .directory) (rest : Place) :
    rest ≠ [] → disk.node? (place ++ rest) = none := by
  induction rest using List.reverseRecOn with
  | nil => exact fun some => absurd rfl some
  | append_singleton rest name ih =>
    intro _
    cases node : disk.node? (place ++ (rest ++ [name])) with
    | none => rfl
    | some node' =>
      rw [← List.append_assoc] at node
      have directory := tree.parent node
      by_cases whole : rest = []
      · rw [whole, List.append_nil] at directory
        exact absurd directory leaf
      · rw [ih whole] at directory
        cases directory

theorem Sound.alone {disk : Disk} (sound : disk.Sound) {place : Place} {id : FileId}
    (file : disk.node? place = some (.file id)) (rest : Place) :
    rest ≠ [] → disk.node? (place ++ rest) = none := by
  apply sound.tree.nothing_below
  simp [file]

theorem Tree.enter {disk : Disk} (tree : disk.Tree) {place goal : Place} {name : String}
    (directory : disk.node? place = some .directory) (entered : disk.enter place name = .ok goal) :
    disk.node? goal = some .directory := by
  unfold Disk.enter at entered
  split at entered
  · cases entered
    exact directory
  split at entered
  · cases entered
    rcases List.eq_nil_or_concat place with rfl | ⟨above, name, rfl⟩
    · rfl
    · rw [List.concat_eq_append] at directory
      rw [List.concat_eq_append, List.dropLast_concat]
      exact tree.parent directory
  split at entered
  · cases entered
  cases node : disk.node? (place ++ [name]) with
  | none => simp [node] at entered
  | some node' =>
    cases node' with
    | directory =>
      simp only [node] at entered
      cases entered
      exact node
    | file id => simp [node] at entered

theorem Tree.foldlM_enter {disk : Disk} (tree : disk.Tree) : ∀ {names : List String}
    {place goal : Place}, disk.node? place = some .directory →
    names.foldlM disk.enter place = .ok goal → disk.node? goal = some .directory
  | [], _, _, directory, walked => by
    cases walked
    exact directory
  | name :: names, place, goal, directory, walked => by
    rw [List.foldlM_cons] at walked
    obtain ⟨between, entered, walked⟩ := Effect.except_bind_eq_ok_iff.1 walked
    exact tree.foldlM_enter (tree.enter directory entered) walked

theorem Tree.directory_of_resolve {disk : Disk} (tree : disk.Tree) {text name : String}
    {directory : Place} {trailing : Bool}
    (resolved : disk.resolve text = .ok (.entry directory name trailing)) :
    disk.node? directory = some .directory := by
  unfold Disk.resolve at resolved
  obtain ⟨path, -, walked⟩ := Effect.except_bind_eq_ok_iff.1 resolved
  cases eq : disk.walk path with
  | error e => simp [eq, Except.mapError] at walked
  | ok target =>
    rw [eq] at walked
    cases walked
    obtain ⟨place, entered, last⟩ := Effect.except_bind_eq_ok_iff.1 eq
    have : place = directory := by
      cases kind : path.last <;> simp [kind] at last
      exact last.1
    subst this
    exact tree.foldlM_enter rfl entered

/-! ## What stays -/

/-- `next` differs from `disk` at the places of `changed` at most, and no directory has come or
gone. Files that no place leads to stay as they are. -/
structure Frame (changed : Place → Prop) (disk next : Disk) : Prop where
  sound : next.Sound
  directories : SameDirectories disk next
  node_eq : ∀ {place}, ¬ changed place → next.node? place = disk.node? place
  bytes_eq : ∀ {place id}, ¬ changed place → disk.node? place = some (.file id) →
    next.bytes id = disk.bytes id
  larger : disk.files.size ≤ next.files.size
  nameless : ∀ {id}, id < disk.files.size → (∀ place, disk.node? place ≠ some (.file id)) →
    next.bytes id = disk.bytes id ∧ ∀ place, next.node? place ≠ some (.file id)

namespace Frame

variable {changed changed' : Place → Prop} {disk next last : Disk}

theorem mono (frame : Frame changed disk next) (more : ∀ place, changed place → changed' place) :
    Frame changed' disk next :=
  ⟨frame.sound, frame.directories, fun still => frame.node_eq fun h => still (more _ h),
    fun still => frame.bytes_eq fun h => still (more _ h), frame.larger, frame.nameless⟩

theorem trans (first : Frame changed disk next) (second : Frame changed next last) :
    Frame changed disk last := by
  refine ⟨second.sound, fun place => (second.directories place).trans (first.directories place), ?_, ?_,
    Nat.le_trans first.larger second.larger, ?_⟩
  · intro place still
    rw [second.node_eq still, first.node_eq still]
  · intro place id still file
    have file' : next.node? place = some (.file id) := by rw [first.node_eq still, file]
    rw [second.bytes_eq still file', first.bytes_eq still file]
  · intro id stored unnamed
    obtain ⟨bytes, unnamed⟩ := first.nameless stored unnamed
    obtain ⟨bytes', unnamed⟩ := second.nameless (Nat.lt_of_lt_of_le stored first.larger) unnamed
    exact ⟨bytes'.trans bytes, unnamed⟩

theorem standing_eq (frame : Frame changed disk next) {place : Place} (still : ¬ changed place) :
    next.standing place = disk.standing place := by
  unfold standing
  rw [frame.node_eq still]
  cases node : disk.node? place with
  | none => rfl
  | some node' =>
    cases node' with
    | directory => rfl
    | file id => exact congrArg Held.file (frame.bytes_eq still node)

theorem held_eq (frame : Frame changed disk next) {text : String}
    (still : ∀ place, disk.place? text = some place → ¬ changed place) :
    next.held text = disk.held text := by
  cases eq : disk.place? text with
  | none => exact frame.directories.held_eq eq
  | some place =>
    have eq' : next.place? text = some place := by rw [frame.directories.place?_eq, eq]
    rw [held_of_place? eq, held_of_place? eq', frame.standing_eq (still place eq)]

theorem of_files (sound : disk.Sound) (larger : disk.files.size ≤ next.files.size)
    (node_eq : ∀ place, ¬ changed place → next.node? place = disk.node? place)
    (bytes_eq : ∀ place id, ¬ changed place → disk.node? place = some (.file id) →
      next.bytes id = disk.bytes id)
    (nameless : ∀ id, id < disk.files.size → (∀ place, disk.node? place ≠ some (.file id)) →
      next.bytes id = disk.bytes id ∧ ∀ place, next.node? place ≠ some (.file id))
    (before : ∀ place, changed place → disk.node? place ≠ some .directory)
    (after : ∀ place, changed place → next.node? place = none ∨
      ∃ id, next.node? place = some (.file id) ∧ id < next.files.size ∧
        (∀ other, next.node? other = some (.file id) → other = place) ∧
        ∃ directory name, place = directory ++ [name] ∧ disk.node? directory = some .directory) :
    Frame changed disk next := by
  -- a changed place is no directory before, and holds nothing or a file after
  have directories : SameDirectories disk next := by
    intro place
    by_cases h : changed place
    · have := before place h
      rcases after place h with none | ⟨id, file, -⟩
      · simp [none, this]
      · simp [file, this]
    · rw [node_eq place h]
  refine ⟨⟨?_, ?_, ?_⟩, directories, node_eq _, bytes_eq _ _, larger, nameless _⟩
  · intro place name node eq
    rw [directories]
    by_cases h : changed (place ++ [name])
    · rcases after _ h with none | ⟨id, -, -, -, directory, name', same, found⟩
      · rw [none] at eq
        cases eq
      · rwa [(List.append_inj' same rfl).1]
    · rw [node_eq _ h] at eq
      exact sound.parent eq
  · intro place id eq
    by_cases h : changed place
    · rcases after _ h with none | ⟨id', file, lt, -⟩
      · rw [none] at eq
        cases eq
      · rw [file] at eq
        cases eq
        exact lt
    · rw [node_eq _ h] at eq
      exact Nat.lt_of_lt_of_le (sound.stored eq) larger
  · intro place other id eq eq'
    have own : ∀ {place other : Place}, changed place → next.node? place = some (.file id) →
        next.node? other = some (.file id) → other = place := by
      intro place other h eq eq'
      rcases after _ h with none | ⟨id', file, -, only, -⟩
      · rw [none] at eq
        cases eq
      · rw [file] at eq
        cases eq
        exact only other eq'
    by_cases h : changed place
    · exact (own h eq eq').symm
    by_cases h' : changed other
    · exact own h' eq' eq
    rw [node_eq _ h] at eq
    rw [node_eq _ h'] at eq'
    exact sound.one_name eq eq'

end Frame

/-- The bytes of the file stay as they are, and no further place leads to it. -/
structure Undisturbed (file : FileId) (disk next : Disk) : Prop where
  bytes_eq : next.bytes file = disk.bytes file
  larger : disk.files.size ≤ next.files.size
  named : ∀ {place}, next.node? place = some (.file file) → disk.node? place = some (.file file)

theorem Undisturbed.trans {file : FileId} {disk next last : Disk} (first : Undisturbed file disk next)
    (second : Undisturbed file next last) : Undisturbed file disk last :=
  ⟨second.bytes_eq.trans first.bytes_eq, Nat.le_trans first.larger second.larger,
    fun eq => first.named (second.named eq)⟩

/-- Whether or not some place leads to it: a file is changed at a changed place only. -/
theorem Frame.undisturbed {changed : Place → Prop} {disk next : Disk} {file : FileId}
    (frame : Frame changed disk next) (stored : file < disk.files.size)
    (elsewhere : ∀ place, changed place → disk.node? place ≠ some (.file file)) :
    Undisturbed file disk next := by
  by_cases named : ∃ place, disk.node? place = some (.file file)
  · obtain ⟨place, here⟩ := named
    have still : ¬ changed place := fun h => elsewhere place h here
    refine ⟨frame.bytes_eq still here, frame.larger, fun {other} eq => ?_⟩
    have there : next.node? place = some (.file file) := by rw [frame.node_eq still, here]
    rwa [frame.sound.one_name eq there]
  · have unnamed : ∀ place, disk.node? place ≠ some (.file file) :=
      fun place here => named ⟨place, here⟩
    obtain ⟨bytes, unnamed⟩ := frame.nameless stored unnamed
    exact ⟨bytes, frame.larger, fun {place} eq => absurd eq (unnamed place)⟩

theorem frame_of_same {changed : Place → Prop} {disk next : Disk} (sound : disk.Sound)
    (names : next.names = disk.names) (files : next.files = disk.files) : Frame changed disk next := by
  obtain ⟨names', files', fates⟩ := next
  subst names files
  have node := node?_of_fates disk fates
  refine ⟨⟨?_, ?_, ?_⟩, fun place => by rw [node], fun _ => node _, fun _ _ => rfl, Nat.le_refl _, ?_⟩
  · intro place name node' eq
    rw [node] at eq ⊢
    exact sound.parent eq
  · intro place id eq
    rw [node] at eq
    exact sound.stored eq
  · intro place other id eq eq'
    rw [node] at eq eq'
    exact sound.one_name eq eq'
  · intro id _ unnamed
    exact ⟨rfl, fun place => by rw [node]; exact unnamed place⟩

theorem frame_of_bytes {disk next : Disk} {place : Place} {id : FileId} (sound : disk.Sound)
    (file : disk.node? place = some (.file id)) (names : next.names = disk.names)
    (size : next.files.size = disk.files.size)
    (bytes_eq : ∀ other, other ≠ id → next.bytes other = disk.bytes other) :
    Frame (· = place) disk next := by
  have node := node?_of_names names
  refine Frame.of_files sound (Nat.le_of_eq size.symm) (fun other _ => node other) ?_ ?_ ?_ ?_
  · intro other id' elsewhere file'
    apply bytes_eq
    intro same
    subst same
    exact elsewhere (sound.one_name file' file)
  · intro id' _ unnamed
    refine ⟨bytes_eq id' ?_, fun other => by rw [node]; exact unnamed other⟩
    intro same
    exact unnamed place (same ▸ file)
  · intro other same
    simp [same, file]
  · intro other same
    rw [same]
    refine .inr ⟨id, by rw [node, file], size ▸ sound.stored file, ?_, ?_⟩
    · intro other file'
      rw [node] at file'
      exact sound.one_name file' file
    · rcases List.eq_nil_or_concat place with rfl | ⟨directory, name, rfl⟩
      · cases file
      · rw [List.concat_eq_append] at file ⊢
        exact ⟨directory, name, rfl, sound.parent file⟩

/-! ## Calls -/

theorem change_error {α : Type} {action : Disk → Except IoError (α × Disk)} {disk next : Disk}
    {e : IoError} (failed : change action disk = .error e next) :
    next.names = disk.names ∧ next.files = disk.files := by
  obtain ⟨names, files, fates⟩ := disk
  unfold change at failed
  dsimp only at failed
  split at failed
  · cases failed
    exact ⟨rfl, rfl⟩
  · split at failed
    · cases failed
    · cases failed
      exact ⟨rfl, rfl⟩

theorem change_ok {α : Type} {action : Disk → Except IoError (α × Disk)} {disk next : Disk} {a : α}
    (ok : change action disk = .ok a next) :
    ∃ fates, action ⟨disk.names, disk.files, fates⟩ = .ok (a, next) := by
  obtain ⟨names, files, fates⟩ := disk
  unfold change at ok
  dsimp only at ok
  split at ok
  · cases ok
  · split at ok
    · next eq =>
      cases ok
      exact ⟨_, eq⟩
    · cases ok

theorem sameDirectories_of_fates (disk : Disk) (fates : List Fate) :
    SameDirectories disk ⟨disk.names, disk.files, fates⟩ := by
  intro place
  rw [node?_of_fates]

theorem frame_of_error {α : Type} {action : Disk → Except IoError (α × Disk)} {disk next : Disk}
    {e : IoError} {changed : Place → Prop} (sound : disk.Sound)
    (failed : change action disk = .error e next) : Frame changed disk next :=
  frame_of_same sound (change_error failed).1 (change_error failed).2

theorem frame_of_fates {changed : Place → Prop} {disk : Disk} (sound : disk.Sound) (fates : List Fate) :
    Frame changed disk ⟨disk.names, disk.files, fates⟩ :=
  frame_of_same sound rfl rfl

theorem mapError_eq_ok_iff {α : Type} {answer : Except Errno α} {a : α} :
    answer.mapError Errno.toIoError = .ok a ↔ answer = .ok a := by
  cases answer <;> simp [Except.mapError]

theorem exists_place_of_openRead {disk : Disk} {text : String} {id : FileId}
    (opened : disk.openRead text = .ok (.file id)) :
    ∃ place, disk.place? text = some place ∧ disk.node? place = some (.file id) := by
  obtain ⟨target, resolved, found⟩ := Effect.except_bind_eq_ok_iff.1 opened
  have found := mapError_eq_ok_iff.1 found
  cases target with
  | directory place => cases found
  | entry directory name trailing =>
    obtain ⟨node, entry, last⟩ := Effect.except_bind_eq_ok_iff.1 found
    unfold Disk.entry? at entry
    cases long : Path.tooLong name with
    | true => simp [long] at entry
    | false =>
      simp only [long, Bool.false_eq_true, if_false] at entry
      cases node with
      | none => cases last
      | some node =>
        cases node with
        | directory => cases last
        | file other =>
          cases trailing with
          | true => cases last
          | false =>
            cases last
            exact ⟨_, place?_eq_some_iff.2 ⟨directory, name, resolved, long, rfl⟩, Except.ok.inj entry⟩

theorem place?_of_held {disk : Disk} {text : String} {bytes : ByteArray}
    (held : disk.held text = .file bytes) : ∃ place id, disk.place? text = some place ∧
      disk.node? place = some (.file id) ∧ disk.bytes id = bytes := by
  unfold Disk.held at held
  cases opened : disk.openRead text with
  | error e => simp [opened] at held
  | ok node =>
    cases node with
    | directory => simp [opened] at held
    | file id =>
      obtain ⟨place, named, file⟩ := exists_place_of_openRead opened
      exact ⟨place, id, named, file, by simpa [opened] using held⟩

theorem bytes_modifyBytes (disk : Disk) {id : FileId} (f : ByteArray → ByteArray)
    (stored : id < disk.files.size) (other : FileId) :
    (disk.modifyBytes id f).bytes other = if other = id then f (disk.bytes id) else disk.bytes other := by
  unfold bytes modifyBytes
  by_cases same : other = id
  · subst same
    simp [stored, Array.getElem_modify]
  · simp [Array.getD_eq_getD_getElem?, Array.getElem?_modify, same, Ne.symm same]

def addFile (disk : Disk) (place : Place) : Disk :=
  link ⟨disk.names, disk.files.push .empty, disk.fates⟩ place (.file disk.files.size)

theorem bytes_push (disk : Disk) (names : List (Place × Node)) (fates : List Fate) (bytes : ByteArray)
    (other : FileId) : (⟨names, disk.files.push bytes, fates⟩ : Disk).bytes other =
      if other = disk.files.size then bytes else disk.bytes other := by
  simp only [Disk.bytes, Array.getD_eq_getD_getElem?, Array.getElem?_push]
  by_cases same : other = disk.files.size
  · simp [same]
  · simp [same]

theorem frame_linked {disk : Disk} {directory : Place} {name : String} (sound : disk.Sound)
    (found : disk.node? directory = some .directory) (free : disk.node? (directory ++ [name]) = none) :
    Frame (· = directory ++ [name]) disk (disk.addFile (directory ++ [name])) ∧
      (disk.addFile (directory ++ [name])).node? (directory ++ [name]) = some (.file disk.files.size) ∧
      (disk.addFile (directory ++ [name])).bytes disk.files.size = .empty := by
  have node : ∀ other, (disk.addFile (directory ++ [name])).node? other =
      if other = directory ++ [name] then some (.file disk.files.size) else disk.node? other := by
    intro other
    rw [addFile, node?_link _ _ (List.concat_ne_nil name directory)]
    cases other <;> rfl
  have bytes : ∀ other, (disk.addFile (directory ++ [name])).bytes other =
      if other = disk.files.size then .empty else disk.bytes other :=
    fun other => bytes_push disk disk.names disk.fates .empty other
  have larger : (disk.addFile (directory ++ [name])).files.size = disk.files.size + 1 :=
    Array.size_push _
  refine ⟨?_, by rw [node, if_pos rfl], by rw [bytes, if_pos rfl]⟩
  apply Frame.of_files sound
  · exact Nat.le_trans (Nat.le_succ _) (Nat.le_of_eq larger.symm)
  · intro other elsewhere
    rw [node, if_neg elsewhere]
  · intro other id _ file
    rw [bytes, if_neg (Nat.ne_of_lt (sound.stored file))]
  · intro id stored unnamed
    refine ⟨by rw [bytes, if_neg (Nat.ne_of_lt stored)], fun other => ?_⟩
    rw [node]
    split
    · intro same
      cases same
      exact Nat.lt_irrefl _ stored
    · exact unnamed other
  · intro other here
    simp [here, free]
  · intro other here
    refine .inr ⟨disk.files.size, by rw [node, if_pos here], ?_, ?_, directory, name, here, found⟩
    · exact Nat.lt_of_lt_of_eq (Nat.lt_succ_self _) larger.symm
    · intro place file
      rw [node] at file
      by_cases there : place = directory ++ [name]
      · rw [there, here]
      · rw [if_neg there] at file
        exact absurd (sound.stored file) (Nat.lt_irrefl _)

theorem frame_unlinked {disk : Disk} {place : Place} {id : FileId} (sound : disk.Sound)
    (file : disk.node? place = some (.file id)) :
    Frame (· = place) disk (disk.unlink place) ∧ (disk.unlink place).node? place = none := by
  have below : place ≠ [] := by
    intro top
    rw [top] at file
    cases file
  have node := node?_unlink disk below
  have larger : disk.files.size ≤ (disk.unlink place).files.size := Nat.le_refl _
  refine ⟨?_, by rw [node, if_pos rfl]⟩
  apply Frame.of_files sound larger
  · intro other elsewhere
    rw [node, if_neg elsewhere]
  · exact fun _ _ _ _ => rfl
  · intro id _ unnamed
    refine ⟨rfl, fun other => ?_⟩
    rw [node]
    split
    · simp
    · exact unnamed other
  · intro other here
    simp [here, file]
  · intro other here
    exact .inl (by rw [node, if_pos here])

theorem truncateTarget_cases {disk next : Disk} {directory : Place} {name : String} {handle : Handle}
    (ok : disk.truncateTarget (.entry directory name false) = .ok (handle, next)) :
    Path.tooLong name = false ∧ handle.offset = 0 ∧
      (disk.node? (directory ++ [name]) = some (.file handle.file) ∧
          next = disk.modifyBytes handle.file (fun _ => .empty) ∨
        disk.node? (directory ++ [name]) = none ∧ handle.file = disk.files.size ∧
          next = disk.addFile (directory ++ [name])) := by
  cases long : Path.tooLong name with
  | true => simp [truncateTarget, entry?, long, bind, Except.bind] at ok
  | false =>
    simp only [truncateTarget, entry?, long, Bool.false_eq_true, if_false, bind, Except.bind] at ok
    cases node : disk.node? (directory ++ [name]) with
    | none =>
      simp only [node] at ok
      cases ok
      exact ⟨rfl, rfl, .inr ⟨rfl, rfl, rfl⟩⟩
    | some node' =>
      cases node' with
      | directory => simp [node] at ok
      | file id =>
        simp only [node] at ok
        cases ok
        exact ⟨rfl, rfl, .inl ⟨rfl, rfl⟩⟩

theorem truncateTarget_ok {disk next : Disk} {directory : Place} {name : String} {handle : Handle}
    (sound : disk.Sound) (found : disk.node? directory = some .directory)
    (ok : disk.truncateTarget (.entry directory name false) = .ok (handle, next)) :
    Path.tooLong name = false ∧ handle.offset = 0 ∧ Frame (· = directory ++ [name]) disk next ∧
      next.node? (directory ++ [name]) = some (.file handle.file) ∧
      next.bytes handle.file = .empty := by
  obtain ⟨short, at_start, ⟨file, rfl⟩ | ⟨free, same, rfl⟩⟩ := truncateTarget_cases ok
  · have bytes := bytes_modifyBytes disk (fun _ => .empty) (sound.stored file)
    refine ⟨short, at_start, ?_, file, by rw [bytes, if_pos rfl]⟩
    refine frame_of_bytes sound file rfl Array.size_modify fun other unlike => ?_
    rw [bytes, if_neg unlike]
  · rw [same]
    exact ⟨short, at_start, frame_linked sound found free⟩

theorem removeTarget_cases {disk next : Disk} {directory : Place} {name : String} {trailing : Bool}
    (ok : disk.removeTarget (.entry directory name trailing) = .ok next) :
    Path.tooLong name = false ∧ trailing = false ∧
      ∃ id, disk.node? (directory ++ [name]) = some (.file id) ∧
        next = disk.unlink (directory ++ [name]) := by
  cases long : Path.tooLong name with
  | true => simp [removeTarget, entry?, long, bind, Except.bind] at ok
  | false =>
    simp only [removeTarget, entry?, long, Bool.false_eq_true, if_false, bind, Except.bind] at ok
    cases node : disk.node? (directory ++ [name]) with
    | none => simp [node] at ok
    | some node' =>
      cases node' with
      | directory => simp [node] at ok
      | file id =>
        cases trailing with
        | true => simp [node] at ok
        | false =>
          simp only [node] at ok
          cases ok
          exact ⟨rfl, rfl, id, rfl, rfl⟩

theorem frame_moved {disk : Disk} {source directory : Place} {name : String} {id : FileId}
    (sound : disk.Sound) (file : disk.node? source = some (.file id))
    (found : disk.node? directory = some .directory) (unlike : source ≠ directory ++ [name])
    (free : disk.node? (directory ++ [name]) ≠ some .directory) :
    Frame (fun place => place = source ∨ place = directory ++ [name]) disk
        (disk.moved source (directory ++ [name])) ∧
      (disk.moved source (directory ++ [name])).node? source = none ∧
      (disk.moved source (directory ++ [name])).node? (directory ++ [name]) = some (.file id) ∧
      ∀ other, other ≠ id → Undisturbed other disk (disk.moved source (directory ++ [name])) := by
  have below : source ≠ [] := by
    intro top
    rw [top] at file
    cases file
  have node := node?_moved disk below (List.concat_ne_nil name directory) unlike (sound.alone file)
  have gone : (disk.moved source (directory ++ [name])).node? source = none := by
    rw [node, if_neg unlike, if_pos rfl]
  have taken : (disk.moved source (directory ++ [name])).node? (directory ++ [name]) =
      some (.file id) := by
    rw [node, if_pos rfl, file]
  have others : ∀ other, other ≠ id →
      Undisturbed other disk (disk.moved source (directory ++ [name])) := by
    intro other apart
    refine ⟨rfl, Nat.le_refl _, fun {place} eq => ?_⟩
    rw [node] at eq
    split at eq
    · rw [file] at eq
      cases eq
      exact absurd rfl apart
    · split at eq
      · cases eq
      · exact eq
  -- the file that had the name before keeps its bytes and has no name any more
  refine ⟨?_, gone, taken, others⟩
  refine Frame.of_files sound (Nat.le_refl _) ?_ (fun _ _ _ _ => rfl) ?_ ?_ ?_
  · intro other elsewhere
    rw [node, if_neg fun here => elsewhere (.inr here), if_neg fun here => elsewhere (.inl here)]
  · intro id _ unnamed
    refine ⟨rfl, fun other => ?_⟩
    rw [node]
    split
    · exact unnamed source
    · split
      · simp
      · exact unnamed other
  · intro other h
    rcases h with here | here
    · simp [here, file]
    · rwa [here]
  · intro other h
    rcases h with here | here
    · exact .inl (by rw [here, gone])
    refine .inr ⟨id, by rw [here, taken], sound.stored file, ?_, directory, name, here, found⟩
    intro place file'
    rw [node] at file'
    by_cases there : place = directory ++ [name]
    · rw [there, here]
    rw [if_neg there] at file'
    by_cases left : place = source
    · simp [left] at file'
    · rw [if_neg left] at file'
      exact absurd (sound.one_name file' file) left

theorem renameTarget_ok {disk next : Disk} {sourceIn targetIn : Place} {sourceName targetName : String}
    {trailing : Bool} {id : FileId}
    (file : disk.node? (sourceIn ++ [sourceName]) = some (.file id))
    (unlike : Path.tooLong targetName = false → trailing = false →
      sourceIn ++ [sourceName] ≠ targetIn ++ [targetName])
    (ok : disk.renameTarget (.entry sourceIn sourceName false) (.entry targetIn targetName trailing) =
      .ok next) :
    Path.tooLong targetName = false ∧ trailing = false ∧
      (disk.node? (targetIn ++ [targetName]) = some (.file id) ∧ next = disk ∨
        disk.node? (targetIn ++ [targetName]) ≠ some (.file id) ∧
          disk.node? (targetIn ++ [targetName]) ≠ some .directory ∧
          next = disk.moved (sourceIn ++ [sourceName]) (targetIn ++ [targetName])) := by
  cases longSource : Path.tooLong sourceName with
  | true => simp [renameTarget, entry?, longSource, bind, Except.bind] at ok
  | false =>
    cases long : Path.tooLong targetName with
    | true => simp [renameTarget, entry?, longSource, long, file, bind, Except.bind] at ok
    | false =>
      cases trailing with
      | true => simp [renameTarget, entry?, longSource, long, file, bind, Except.bind] at ok
      | false =>
        have unlike := unlike long rfl
        simp only [renameTarget, entry?, longSource, long, file, bind, Except.bind, Bool.false_eq_true,
          if_false, Bool.or_false, Bool.and_false, reduceCtorEq, decide_false, Bool.false_and] at ok
        split at ok
        · cases ok
        -- a directory is never replaced, and another file loses its name
        simp only [replace, if_neg unlike] at ok
        cases node : disk.node? (targetIn ++ [targetName]) with
        | none =>
          simp only [node] at ok
          cases ok
          exact ⟨rfl, rfl, .inr ⟨by simp, by simp, rfl⟩⟩
        | some node' =>
          cases node' with
          | directory => simp [node] at ok
          | file other =>
            simp only [node] at ok
            split at ok
            · next same =>
              cases ok
              exact ⟨rfl, rfl, .inl ⟨by rw [same], rfl⟩⟩
            · next apart =>
              cases ok
              exact ⟨rfl, rfl, .inr ⟨by simpa using apart, by simp, rfl⟩⟩

section calls
variable {disk next : Disk} {text : String}

theorem create_inv {handle : Handle} (ok : create text disk = .ok handle next) :
    ∃ fates directory name, disk.resolve text = .ok (.entry directory name false) ∧
      (⟨disk.names, disk.files, fates⟩ : Disk).truncateTarget (.entry directory name false) =
        .ok (handle, next) := by
  obtain ⟨fates, eq⟩ := change_ok ok
  obtain ⟨target, resolved, eq⟩ := Effect.except_bind_eq_ok_iff.1 eq
  have resolved := (sameDirectories_of_fates disk fates).symm.resolve resolved
  have eq := mapError_eq_ok_iff.1 eq
  cases target with
  | directory place => simp [truncateTarget] at eq
  | entry directory name trailing =>
    cases trailing with
    | true => simp [truncateTarget] at eq
    | false => exact ⟨fates, directory, name, resolved, eq⟩

theorem remove_inv (ok : remove text disk = .ok () next) :
    ∃ fates directory name trailing, disk.resolve text = .ok (.entry directory name trailing) ∧
      (⟨disk.names, disk.files, fates⟩ : Disk).removeTarget (.entry directory name trailing) =
        .ok next := by
  obtain ⟨fates, eq⟩ := change_ok ok
  obtain ⟨target, resolved, eq⟩ := Effect.except_bind_eq_ok_iff.1 eq
  obtain ⟨removed, eq, last⟩ := Effect.except_bind_eq_ok_iff.1 eq
  cases last
  have resolved := (sameDirectories_of_fates disk fates).symm.resolve resolved
  have eq := mapError_eq_ok_iff.1 eq
  cases target with
  | directory place => simp [removeTarget] at eq
  | entry directory name trailing => exact ⟨fates, directory, name, trailing, resolved, eq⟩

theorem rename_inv {source target : String} (ok : rename source target disk = .ok () next) :
    ∃ fates first second, disk.resolve source = .ok first ∧ disk.resolve target = .ok second ∧
      (⟨disk.names, disk.files, fates⟩ : Disk).renameTarget first second = .ok next := by
  obtain ⟨fates, eq⟩ := change_ok ok
  obtain ⟨first, resolved, eq⟩ := Effect.except_bind_eq_ok_iff.1 eq
  obtain ⟨second, resolved', eq⟩ := Effect.except_bind_eq_ok_iff.1 eq
  obtain ⟨renamed, eq, last⟩ := Effect.except_bind_eq_ok_iff.1 eq
  cases last
  have same := (sameDirectories_of_fates disk fates).symm
  exact ⟨fates, first, second, same.resolve resolved, same.resolve resolved', mapError_eq_ok_iff.1 eq⟩

theorem create_ok {handle : Handle} (sound : disk.Sound) (ok : create text disk = .ok handle next) :
    ∃ place, disk.place? text = some place ∧ handle.offset = 0 ∧ Frame (· = place) disk next ∧
      next.node? place = some (.file handle.file) ∧ next.bytes handle.file = .empty := by
  obtain ⟨fates, directory, name, resolved, eq⟩ := create_inv ok
  have still : Frame (· = directory ++ [name]) disk ⟨disk.names, disk.files, fates⟩ :=
    frame_of_fates sound fates
  have found := (still.directories directory).2 (sound.tree.directory_of_resolve resolved)
  obtain ⟨short, at_start, frame, file, empty⟩ := truncateTarget_ok still.sound found eq
  exact ⟨_, place?_eq_some_iff.2 ⟨directory, name, resolved, short, rfl⟩, at_start, still.trans frame,
    file, empty⟩

theorem remove_ok (sound : disk.Sound) (ok : remove text disk = .ok () next) :
    ∃ place, disk.place? text = some place ∧ Frame (· = place) disk next ∧ next.node? place = none := by
  obtain ⟨fates, directory, name, trailing, resolved, eq⟩ := remove_inv ok
  have still : Frame (· = directory ++ [name]) disk ⟨disk.names, disk.files, fates⟩ :=
    frame_of_fates sound fates
  obtain ⟨short, rfl, id, file, rfl⟩ := removeTarget_cases eq
  obtain ⟨frame, none⟩ := frame_unlinked still.sound file
  exact ⟨_, place?_eq_some_iff.2 ⟨directory, name, resolved, short, rfl⟩, still.trans frame, none⟩

theorem rename_ok {source target : String} {place : Place} {id : FileId} (sound : disk.Sound)
    (named : disk.place? source = some place) (file : disk.node? place = some (.file id))
    (unlike : disk.place? target ≠ some place) (ok : rename source target disk = .ok () next) :
    ∃ goal, disk.place? target = some goal ∧
      Frame (fun other => other = place ∨ other = goal) disk next ∧ next.node? place = none ∧
      next.node? goal = some (.file id) ∧ next.bytes id = disk.bytes id ∧
      ∀ other, other ≠ id → Undisturbed other disk next := by
  obtain ⟨fates, first, second, resolved, resolved', eq⟩ := rename_inv ok
  -- the call has used up a fate of the disk, and that is all until the names change
  have still : ∀ changed, Frame changed disk ⟨disk.names, disk.files, fates⟩ :=
    fun _ => frame_of_fates sound fates
  have sound' := (still fun _ => True).sound
  obtain ⟨directory, name, found, -, rfl⟩ := place?_eq_some_iff.1 named
  rw [found] at resolved
  cases resolved
  cases second with
  | directory place => simp [renameTarget] at eq
  | entry directory' name' trailing =>
    have goal : Path.tooLong name' = false → trailing = false →
        disk.place? target = some (directory' ++ [name']) := by
      rintro long rfl
      exact place?_eq_some_iff.2 ⟨directory', name', resolved', long, rfl⟩
    have file' : (⟨disk.names, disk.files, fates⟩ : Disk).node? (directory ++ [name]) =
        some (.file id) := by
      rw [(still fun _ => False).node_eq not_false, file]
    have unlike' : Path.tooLong name' = false → trailing = false →
        directory ++ [name] ≠ directory' ++ [name'] :=
      fun long slash here => unlike (by rw [goal long slash, here])
    obtain ⟨long, rfl, ⟨known, -⟩ | ⟨-, free, rfl⟩⟩ := renameTarget_ok file' unlike' eq
    · exact absurd (sound'.one_name file' known) (unlike' long rfl)
    have inside := ((still fun _ => True).directories directory').2 (sound.tree.directory_of_resolve resolved')
    obtain ⟨frame, gone, taken, others⟩ := frame_moved sound' file' inside (unlike' long rfl) free
    refine ⟨_, goal long rfl, (still _).trans frame, gone, taken, rfl, fun other apart => ?_⟩
    obtain ⟨bytes, larger, named⟩ := others other apart
    refine ⟨bytes, larger, fun {place} eq => ?_⟩
    rw [← (still fun _ => False).node_eq not_false]
    exact named eq

/-- The place where opening a path for writing would empty or make a file. -/
def opens? (disk : Disk) (text : String) : Option Place :=
  match create text disk with
  | .ok _ _ => disk.place? text
  | .error _ _ => none

theorem remove_ends {place : Place} (sound : disk.Sound) (named : disk.place? text = some place) :
    Ends (remove text) disk (fun _ next => Frame (· = place) disk next ∧ next.node? place = none)
      (fun _ next => Frame (· = place) disk next) := by
  cases eq : remove text disk with
  | error e next => exact ends_of_error eq (frame_of_error sound eq)
  | ok _ next =>
    obtain ⟨other, named', frame, none⟩ := remove_ok sound eq
    rw [named] at named'
    cases named'
    exact ends_of_ok eq ⟨frame, none⟩

theorem rename_ends {source target : String} {place : Place} {id : FileId} (sound : disk.Sound)
    (named : disk.place? source = some place)
    (file : disk.node? place = some (.file id)) (unlike : disk.place? target ≠ some place) :
    Ends (rename source target) disk
      (fun _ next => ∃ goal, disk.place? target = some goal ∧
        Frame (fun other => other = place ∨ other = goal) disk next ∧ next.node? place = none ∧
        next.standing goal = .file (disk.bytes id) ∧ ∀ other, other ≠ id → Undisturbed other disk next)
      (fun _ next => Frame (· = place) disk next) := by
  cases eq : rename source target disk with
  | error e next => exact ends_of_error eq (frame_of_error sound eq)
  | ok _ next =>
    obtain ⟨goal, named', frame, gone, taken, bytes, others⟩ := rename_ok sound named file unlike eq
    refine ends_of_ok eq ⟨goal, named', frame, gone, ?_, others⟩
    simp [standing, taken, bytes]

/-- Installing a file is renaming it, on a disk that may have been synced before. -/
theorem install_of_rename {source target : String} {post failed : Disk → Prop} (syncs : Bool)
    (renames : ∀ next, next.names = disk.names → next.files = disk.files →
      Ends (rename source target) next (fun _ => post) fun _ => failed)
    (unsynced : ∀ next, next.names = disk.names → next.files = disk.files → failed next) :
    Ends (install source target syncs) disk (fun _ => post) fun _ => failed := by
  unfold install
  cases syncs with
  | false => exact Ends.adaptExcept (renames disk rfl rfl)
  | true =>
    refine Ends.bind (Ends.adaptExcept ?_)
    cases eq : sync disk with
    | error e next => exact ends_of_error eq (unsynced next (change_error eq).1 (change_error eq).2)
    | ok _ next =>
      obtain ⟨fates, same⟩ := change_ok eq
      cases same
      exact ends_of_ok eq (Ends.adaptExcept (renames _ rfl rfl))

end calls

/-! ## Disks with no name and with one -/

theorem sound_empty : empty.Sound := by
  have none : ∀ place, place ≠ [] → empty.node? place = none := by
    intro place below
    rw [node?_eq_lookup _ below]
    rfl
  have unfiled : ∀ place id, empty.node? place ≠ some (.file id) := by
    intro place id file
    by_cases top : place = []
    · rw [top] at file
      cases file
    · rw [none place top] at file
      cases file
  refine ⟨?_, fun file => absurd file (unfiled _ _), fun file => absurd file (unfiled _ _)⟩
  intro place name node eq
  rw [none _ (by simp)] at eq
  cases eq

/-- A plain disk with one name. -/
def oneName (name : String) (files : Array ByteArray) : Disk := ⟨[([name], .file 0)], files, []⟩

section oneName
variable (name : String) {files : Array ByteArray}

theorem node?_oneName (files : Array ByteArray) {place : Place} (below : place ≠ []) :
    (oneName name files).node? place = if place = [name] then some (.file 0) else none := by
  rw [node?_eq_lookup _ below, oneName, lookup_cons]
  rfl

theorem place_of_oneName {place : Place} {id : FileId}
    (file : (oneName name files).node? place = some (.file id)) : place = [name] ∧ id = 0 := by
  by_cases top : place = []
  · rw [top] at file
    cases file
  · rw [node?_oneName name files top] at file
    split at file
    · next here =>
      cases file
      exact ⟨here, rfl⟩
    · cases file

theorem sound_oneName (stored : 0 < files.size) : (oneName name files).Sound := by
  refine ⟨?_, ?_, ?_⟩
  · intro place last node eq
    rw [node?_oneName name files (List.concat_ne_nil last place)] at eq
    split at eq
    · next here =>
      have top : place = [] := List.eq_nil_of_length_eq_zero (by simpa using congrArg List.length here)
      rw [top]
      rfl
    · cases eq
  · intro place id file
    rwa [(place_of_oneName name file).2]
  · intro place other id file file'
    rw [(place_of_oneName name file).1, (place_of_oneName name file').1]

end oneName

end ConstDb.Disk
