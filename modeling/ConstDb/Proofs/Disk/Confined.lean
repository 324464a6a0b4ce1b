import ConstDb.Proofs.Disk.File

/-!
# Changes of one file

On any disk, also on one where files have several names, the calls of a writer change the places of its
own paths and the bytes of its own file, and nothing else (`create_confined`, `remove_confined`,
`rename_confined`, `Handle.Shows.confined`).
-/

namespace ConstDb.Disk

open Effect

/-- `next` differs from `disk` at the places of `changed` and in the files of `written` at most, and no
directory has come or gone. -/
structure Confined (changed : Place → Prop) (written : FileId → Prop) (disk next : Disk) : Prop where
  directories : SameDirectories disk next
  node_eq : ∀ {place}, ¬ changed place → next.node? place = disk.node? place
  bytes_eq : ∀ {id}, ¬ written id → next.bytes id = disk.bytes id

/-- No other place leads to the file. -/
def Alone (disk : Disk) (place : Place) (file : FileId) : Prop :=
  ∀ other, disk.node? other = some (.file file) → other = place

section confined
variable {changed changed' : Place → Prop} {written written' : FileId → Prop} {file : FileId}
variable {disk next last : Disk}

theorem confined_of_same (names : next.names = disk.names) (files : next.files = disk.files) :
    Confined changed written disk next := by
  have node := node?_of_names names
  have bytes : ∀ id, next.bytes id = disk.bytes id := by
    intro id
    rw [Disk.bytes, files, Disk.bytes]
  exact ⟨fun place => by rw [node], fun _ => node _, fun _ => bytes _⟩

theorem Confined.mono (confined : Confined changed written disk next)
    (more : ∀ place, changed place → changed' place) (more' : ∀ id, written id → written' id) :
    Confined changed' written' disk next :=
  ⟨confined.directories, fun still => confined.node_eq fun h => still (more _ h),
    fun still => confined.bytes_eq fun h => still (more' _ h)⟩

theorem Confined.trans (first : Confined changed written disk next)
    (second : Confined changed written next last) : Confined changed written disk last := by
  refine ⟨fun place => (second.directories place).trans (first.directories place), ?_, ?_⟩
  · intro place still
    rw [second.node_eq still, first.node_eq still]
  · intro id still
    rw [second.bytes_eq still, first.bytes_eq still]

theorem Confined.held_eq (confined : Confined changed written disk next) {text : String}
    (still : ∀ place, disk.place? text = some place → ¬ changed place)
    (unwritten : ∀ place id, disk.place? text = some place → disk.node? place = some (.file id) →
      ¬ written id) : next.held text = disk.held text := by
  cases named : disk.place? text with
  | none => exact confined.directories.held_eq named
  | some place =>
    have named' : next.place? text = some place := by rw [confined.directories.place?_eq, named]
    rw [held_of_place? named, held_of_place? named', standing, standing,
      confined.node_eq (still place named)]
    cases node : disk.node? place with
    | none => rfl
    | some node' =>
      cases node' with
      | directory => rfl
      | file id => exact congrArg Held.file (confined.bytes_eq (unwritten place id named node))

/-! ## Calls -/

variable {place : Place} {text : String}

theorem sameDirectories_of_leaf (node_eq : ∀ other, other ≠ place → next.node? other = disk.node? other)
    (before : disk.node? place ≠ some .directory) (after : next.node? place ≠ some .directory) :
    SameDirectories disk next := by
  intro other
  by_cases here : other = place
  · rw [here]
    exact ⟨fun h => absurd h after, fun h => absurd h before⟩
  · rw [node_eq other here]

theorem create_confined {handle : Handle} (tree : disk.Tree) (ok : create text disk = .ok handle next) :
    ∃ place, disk.place? text = some place ∧ handle.offset = 0 ∧
      Confined (· = place) (· = handle.file) disk next ∧ next.node? place = some (.file handle.file) ∧
      next.bytes handle.file = .empty ∧ handle.file < next.files.size ∧
      (disk.node? place = some (.file handle.file) ∨
        disk.node? place = none ∧ handle.file = disk.files.size) := by
  obtain ⟨fates, directory, name, resolved, eq⟩ := create_inv ok
  have same : Confined (· = directory ++ [name]) (· = handle.file) disk ⟨disk.names, disk.files, fates⟩ :=
    confined_of_same rfl rfl
  have start := node?_of_fates disk fates
  obtain ⟨short, at_start, ⟨file, rfl⟩ | ⟨free, fresh, rfl⟩⟩ := truncateTarget_cases eq
  · rw [start] at file
    have stored := tree.stored file
    have bytes := bytes_modifyBytes ⟨disk.names, disk.files, fates⟩ (fun _ => .empty) stored
    refine ⟨_, place?_eq_some_iff.2 ⟨directory, name, resolved, short, rfl⟩, at_start,
      same.trans ⟨fun _ => Iff.rfl, fun _ => rfl, fun apart => ?_⟩, (start _).trans file, ?_, ?_, .inl file⟩
    · rw [bytes, if_neg apart]
    · rw [bytes, if_pos rfl]
    · exact Nat.lt_of_lt_of_eq stored Array.size_modify.symm
  · have node := node?_link ⟨disk.names, disk.files.push .empty, fates⟩ (.file disk.files.size)
      (List.concat_ne_nil name directory)
    have bytes := bytes_push disk ((directory ++ [name], .file disk.files.size) ::
      disk.names.filter (·.1 ≠ directory ++ [name])) fates .empty
    have gone : disk.node? (directory ++ [name]) = none := by rw [← start, free]
    have elsewhere : ∀ other, other ≠ directory ++ [name] →
        (addFile ⟨disk.names, disk.files, fates⟩ (directory ++ [name])).node? other = disk.node? other := by
      intro other unlike
      rw [addFile, node, if_neg unlike]
      exact node?_of_names rfl other
    have here : (addFile ⟨disk.names, disk.files, fates⟩ (directory ++ [name])).node?
        (directory ++ [name]) = some (.file handle.file) := by
      rw [addFile, node, if_pos rfl, fresh]
    refine ⟨_, place?_eq_some_iff.2 ⟨directory, name, resolved, short, rfl⟩, at_start,
      ⟨sameDirectories_of_leaf elsewhere (by simp [gone]) (by simp [here]), elsewhere _,
        fun {id} apart => ?_⟩,
      here, ?_, ?_, .inr ⟨gone, fresh⟩⟩
    · have apart : id ≠ disk.files.size := fun same => apart (same.trans fresh.symm)
      exact (bytes id).trans (if_neg apart)
    · exact (bytes handle.file).trans (if_pos fresh)
    · rw [fresh]
      exact Nat.lt_of_lt_of_eq (Nat.lt_succ_self _) (Array.size_push _).symm

theorem remove_confined (ok : remove text disk = .ok () next) :
    ∃ place id, disk.place? text = some place ∧ disk.node? place = some (.file id) ∧
      next.node? place = none ∧ next.files = disk.files ∧
      Confined (· = place) (fun _ => False) disk next := by
  obtain ⟨fates, directory, name, trailing, resolved, eq⟩ := remove_inv ok
  obtain ⟨short, rfl, id, file, rfl⟩ := removeTarget_cases eq
  have start := node?_of_fates disk fates
  have node := node?_unlink ⟨disk.names, disk.files, fates⟩ (List.concat_ne_nil name directory)
  have gone : (unlink ⟨disk.names, disk.files, fates⟩ (directory ++ [name])).node? (directory ++ [name]) =
      none := by rw [node, if_pos rfl]
  have elsewhere : ∀ other, other ≠ directory ++ [name] →
      (unlink ⟨disk.names, disk.files, fates⟩ (directory ++ [name])).node? other = disk.node? other := by
    intro other unlike
    rw [node, if_neg unlike, start]
  rw [start] at file
  refine ⟨_, id, place?_eq_some_iff.2 ⟨directory, name, resolved, short, rfl⟩, file, gone, rfl, ?_⟩
  exact ⟨sameDirectories_of_leaf elsewhere (by simp [file]) (by simp [gone]), elsewhere _, fun _ => rfl⟩

theorem rename_confined {source target : String} {id : FileId} (named : disk.place? source = some place)
    (file : disk.node? place = some (.file id))
    (below : ∀ rest, rest ≠ [] → disk.node? (place ++ rest) = none)
    (unlike : disk.place? target ≠ some place) (ok : rename source target disk = .ok () next) :
    ∃ goal, disk.place? target = some goal ∧
      (disk.node? goal ≠ some (.file id) → next.node? place = none) ∧
      next.node? goal = some (.file id) ∧ next.files = disk.files ∧
      Confined (fun other => other = place ∨ other = goal) (fun _ => False) disk next := by
  obtain ⟨fates, first, second, resolved, resolved', eq⟩ := rename_inv ok
  have start := node?_of_fates disk fates
  obtain ⟨directory, name, found, -, rfl⟩ := place?_eq_some_iff.1 named
  rw [found] at resolved
  cases resolved
  cases second with
  | directory place => simp [renameTarget] at eq
  | entry directory' name' trailing =>
    have goal : Path.tooLong name' = false → trailing = false →
        disk.place? target = some (directory' ++ [name']) := by
      rintro short rfl
      exact place?_eq_some_iff.2 ⟨directory', name', resolved', short, rfl⟩
    obtain ⟨short, rfl, ⟨known, rfl⟩ | ⟨-, free, rfl⟩⟩ := renameTarget_ok ((start _).trans file)
      (fun short slash here => unlike (by rw [goal short slash, here])) eq
    · -- the paths name one file, and it keeps both names
      have known' := known
      rw [start] at known'
      exact ⟨_, goal short rfl, fun apart => absurd known' apart, known, rfl, confined_of_same rfl rfl⟩
    have named' := goal short rfl
    have apart : directory ++ [name] ≠ directory' ++ [name'] := fun here => unlike (by rw [named', here])
    have node := node?_moved ⟨disk.names, disk.files, fates⟩ (List.concat_ne_nil name directory)
      (List.concat_ne_nil name' directory') apart fun rest some => (start _).trans (below rest some)
    have gone : (moved ⟨disk.names, disk.files, fates⟩ (directory ++ [name]) (directory' ++ [name'])).node?
        (directory ++ [name]) = none := by
      rw [node, if_neg apart, if_pos rfl]
    have taken : (moved ⟨disk.names, disk.files, fates⟩ (directory ++ [name]) (directory' ++ [name'])).node?
        (directory' ++ [name']) = some (.file id) := by
      rw [node, if_pos rfl, start, file]
    have elsewhere : ∀ {other}, ¬ (other = directory ++ [name] ∨ other = directory' ++ [name']) →
        (moved ⟨disk.names, disk.files, fates⟩ (directory ++ [name]) (directory' ++ [name'])).node? other =
          disk.node? other := by
      intro other still
      rw [node, if_neg fun here => still (.inr here), if_neg fun here => still (.inl here), start]
    refine ⟨_, named', fun _ => gone, taken, rfl, ⟨fun other => ?_, elsewhere, fun _ => rfl⟩⟩
    rw [start] at free
    by_cases from_here : other = directory ++ [name]
    · simp [from_here, gone, file]
    by_cases to_here : other = directory' ++ [name']
    · simp [to_here, taken, free]
    · rw [elsewhere fun h => h.elim from_here to_here]

example : let disk : Disk := ⟨[(["a"], .file 0), (["b"], .file 0)], #[.empty], []⟩
    rename "a" "b" disk = .ok () disk := by
  rfl

theorem Handle.Shows.confined {state : Handle × Disk} {content : ByteArray} {offset : Nat}
    (shown : Handle.Shows disk file state content offset) : Confined changed (· = file) disk state.2 := by
  have node := node?_of_names shown.names_eq
  exact ⟨fun place => by rw [node], fun _ => node _, fun apart => shown.bytes_eq _ apart⟩

/-! ## Removing a file -/

theorem change_apply {α : Type} (action : Disk → Except IoError (α × Disk)) (disk : Disk) :
    change action disk = match disk.nextFate.1 with
      | .fail e => .error e disk.nextFate.2
      | _ => match action disk.nextFate.2 with
        | .ok (a, next) => .ok a next
        | .error e => .error e disk.nextFate.2 := by
  obtain ⟨names, files, fates⟩ := disk
  cases fates with
  | nil => rfl
  | cons fate fates => cases fate <;> rfl

theorem nextFate_eq (disk : Disk) : ∃ fates, disk.nextFate.2 = ⟨disk.names, disk.files, fates⟩ := by
  obtain ⟨names, files, fates⟩ := disk
  cases fates <;> exact ⟨_, rfl⟩

/-- Removing a file succeeds unless the call itself fails. -/
theorem remove_file {id : FileId} (named : disk.place? text = some place)
    (file : disk.node? place = some (.file id)) (proceeds : ∀ e, disk.nextFate.1 ≠ .fail e) :
    ∃ next, remove text disk = .ok () next := by
  obtain ⟨directory, name, resolved, short, rfl⟩ := place?_eq_some_iff.1 named
  obtain ⟨fates, eq⟩ := nextFate_eq disk
  have resolved' := (sameDirectories_of_fates disk fates).resolve resolved
  have file' : (⟨disk.names, disk.files, fates⟩ : Disk).node? (directory ++ [name]) = some (.file id) := by
    rw [node?_of_fates, file]
  have removed : (⟨disk.names, disk.files, fates⟩ : Disk).removeTarget (.entry directory name false) =
      .ok ((⟨disk.names, disk.files, fates⟩ : Disk).unlink (directory ++ [name])) := by
    simp [removeTarget, entry?, short, file', bind, Except.bind]
  refine ⟨(⟨disk.names, disk.files, fates⟩ : Disk).unlink (directory ++ [name]), ?_⟩
  unfold remove
  rw [change_apply, eq]
  cases fate : disk.nextFate.1 with
  | fail e => exact absurd fate (proceeds e)
  | proceed | accept => simp [resolved', removed, bind, Except.bind, Except.mapError, pure, Except.pure]

/-! ## Missing files -/

/-- The path leads to a place where nothing stands. -/
def Missing (disk : Disk) (text : String) : Prop :=
  ∃ place, disk.place? text = some place ∧ disk.node? place = none

theorem Missing.of_names (missing : disk.Missing text) (names : next.names = disk.names) :
    next.Missing text := by
  obtain ⟨place, named, gone⟩ := missing
  have node := node?_of_names names
  have same : SameDirectories disk next := fun place => by rw [node]
  exact ⟨place, by rw [same.place?_eq, named], by rw [node, gone]⟩

/-- The call fails, and nothing changes. -/
abbrev Fails {ε α : Type} (action : Effect ε Disk α) (disk : Disk) : Prop :=
  Ends action disk (fun _ _ => False) fun _ next => next.names = disk.names ∧ next.files = disk.files

theorem Missing.rename {source : String} (missing : disk.Missing source) (target : String) :
    Fails (rename source target) disk := by
  obtain ⟨place, named, gone⟩ := missing
  cases eq : Disk.rename source target disk with
  | error e next => exact ends_of_error eq (change_error eq)
  | ok _ next =>
    obtain ⟨fates, first, second, resolved, -, eq⟩ := rename_inv eq
    obtain ⟨directory, name, found, short, rfl⟩ := place?_eq_some_iff.1 named
    rw [found] at resolved
    cases resolved
    rw [← node?_of_fates disk fates] at gone
    cases second <;> simp [renameTarget, entry?, short, gone, bind, Except.bind] at eq

theorem Missing.remove (missing : disk.Missing text) : Fails (remove text) disk := by
  obtain ⟨place, named, gone⟩ := missing
  cases eq : Disk.remove text disk with
  | error e next => exact ends_of_error eq (change_error eq)
  | ok _ next =>
    obtain ⟨other, id, named', file, -⟩ := remove_confined eq
    rw [named] at named'
    cases named'
    rw [gone] at file
    cases file

theorem Missing.install {source : String} (missing : disk.Missing source) (target : String)
    (syncs : Bool) : Fails (install source target syncs) disk := by
  apply install_of_rename syncs
  · intro next names files
    refine ((missing.of_names names).rename target).mono (fun _ _ never => never) ?_
    exact fun _ last same => ⟨same.1.trans names, same.2.trans files⟩
  · exact fun next names files => ⟨names, files⟩

end confined

end ConstDb.Disk
