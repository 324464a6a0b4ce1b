import ConstDb.Proofs.Disk.Confined

/-!
# Unfinished files

From its opening on an unfinished file is all that changes on a disk (`Unfinished`), until it is put in the
place of another one (`Unfinished.install`). Files may have several names elsewhere, but nobody else knows
this one (`Opened`).
-/

namespace ConstDb.Disk

open Effect

variable {disk opened next : Disk} {place : Place} {file : FileId} {text : String}
variable {changed : Place → Prop}

/-- All paths but those to changed places hold what they held. -/
def Spares (changed : Place → Prop) (disk next : Disk) : Prop :=
  ∀ text, (∀ place, disk.place? text = some place → ¬ changed place) → next.held text = disk.held text

theorem spares_of_same (names : next.names = disk.names) (files : next.files = disk.files) :
    Spares changed disk next := by
  have same : Confined changed (fun _ => False) disk next := confined_of_same names files
  exact fun text still => same.held_eq still fun _ _ _ _ => not_false

/-! ## Opening an unfinished file -/

/-- An empty file was opened at a place, and no other place of the disk leads to it. -/
structure Opened (disk : Disk) (place : Place) (file : FileId) (opened : Disk) : Prop where
  confined : Confined (· = place) (· = file) disk opened
  node_eq : opened.node? place = some (.file file)
  empty : opened.bytes file = .empty
  stored : file < opened.files.size
  alone : disk.Alone place file

theorem create_opened (tree : disk.Tree)
    (alone : ∀ place file, disk.place? text = some place → disk.node? place = some (.file file) →
      disk.Alone place file) :
    Ends (create text) disk
      (fun handle next => ∃ place, disk.place? text = some place ∧ handle.offset = 0 ∧
        Opened disk place handle.file next)
      (fun _ next => next.names = disk.names ∧ next.files = disk.files) := by
  cases eq : create text disk with
  | error e next => exact ends_of_error eq (change_error eq)
  | ok handle next =>
    obtain ⟨place, named, at_start, confined, node, empty, stored, before⟩ := create_confined tree eq
    refine ends_of_ok eq ⟨place, named, at_start, confined, node, empty, stored, ?_⟩
    rcases before with file | ⟨-, fresh⟩
    · exact alone place _ named file
    · -- a new file is one that no place leads to
      intro other leads
      have stored := tree.stored leads
      rw [fresh] at stored
      exact absurd stored (Nat.lt_irrefl _)

theorem Opened.nothing_below (opening : Opened disk place file opened) (tree : disk.Tree) (rest : Place) :
    rest ≠ [] → disk.node? (place ++ rest) = none := by
  apply tree.nothing_below
  rw [Ne, ← opening.confined.directories, opening.node_eq]
  exact fun h => by cases h

theorem Opened.spares (opening : Opened disk place file opened) (here : changed place)
    (confined : Confined changed (· = file) disk next) : Spares changed disk next := by
  intro text still
  refine confined.held_eq still fun other id named node same => still other named ?_
  rw [opening.alone other (same ▸ node)]
  exact here

theorem Opened.spares_named (opening : Opened disk place file opened) (named : disk.place? text = some place)
    (confined : Confined (· = place) (· = file) disk next) :
    Spares (fun place => disk.place? text = some place) disk next :=
  opening.spares named (confined.mono (fun _ here => here ▸ named) fun _ here => here)

/-- What is known of a disk while the unfinished file is under its name. -/
structure Unfinished (disk : Disk) (place : Place) (file : FileId) (next : Disk) : Prop where
  confined : Confined (· = place) (· = file) disk next
  node_eq : next.node? place = some (.file file)

theorem Opened.unfinished {handle : Handle} {content : ByteArray} {offset : Nat}
    (opening : Opened disk place file opened)
    (shown : Handle.Shows opened file (handle, next) content offset) :
    Unfinished disk place file next := by
  refine ⟨opening.confined.trans shown.confined, ?_⟩
  rw [node?_of_names shown.names_eq, opening.node_eq]

theorem Unfinished.of_same (unfinished : Unfinished disk place file opened)
    (names : next.names = opened.names) (files : next.files = opened.files) :
    Unfinished disk place file next := by
  refine ⟨unfinished.confined.trans (confined_of_same names files), ?_⟩
  rw [node?_of_names names, unfinished.node_eq]

theorem Unfinished.remove (named : disk.place? text = some place)
    (unfinished : Unfinished disk place file opened) :
    Ends (remove text) opened (fun _ => Confined (· = place) (· = file) disk)
      (fun _ => Confined (· = place) (· = file) disk) := by
  cases eq : Disk.remove text opened with
  | error e next =>
    obtain ⟨names, files⟩ := change_error eq
    exact ends_of_error eq (unfinished.of_same names files).confined
  | ok _ next =>
    obtain ⟨other, -, named', -, -, -, confined⟩ := remove_confined eq
    rw [unfinished.confined.directories.place?_eq, named] at named'
    cases named'
    refine ends_of_ok eq (unfinished.confined.trans (confined.mono (fun _ here => here) ?_))
    exact fun _ => False.elim

/-- The unfinished file is put in the place of another one. If that place leads to it already, it keeps
both names. -/
structure Installed (disk : Disk) (place goal : Place) (file : FileId) (bytes : ByteArray) (next : Disk) :
    Prop where
  confined : Confined (fun other => other = place ∨ other = goal) (· = file) disk next
  gone : disk.node? goal ≠ some (.file file) → next.node? place = none
  standing : next.standing goal = .file bytes

section install
variable {tempPath destination : String}

theorem Unfinished.rename (below : ∀ rest, rest ≠ [] → disk.node? (place ++ rest) = none)
    (named : disk.place? tempPath = some place) (unlike : disk.place? destination ≠ some place)
    (unfinished : Unfinished disk place file opened) :
    Ends (rename tempPath destination) opened
      (fun _ next => ∃ goal, disk.place? destination = some goal ∧
        Installed disk place goal file (opened.bytes file) next)
      (fun _ => Unfinished disk place file) := by
  have same := unfinished.confined.directories.place?_eq
  cases eq : Disk.rename tempPath destination opened with
  | error e next =>
    obtain ⟨names, files⟩ := change_error eq
    exact ends_of_error eq (unfinished.of_same names files)
  | ok _ next =>
    have below' : ∀ rest, rest ≠ [] → opened.node? (place ++ rest) = none := by
      intro rest nonempty
      rw [unfinished.confined.node_eq (by simpa using nonempty), below rest nonempty]
    obtain ⟨goal, named', gone, taken, -, confined⟩ :=
      rename_confined ((same _).trans named) unfinished.node_eq below' (by rwa [same]) eq
    rw [same] at named'
    have elsewhere : goal ≠ place := fun here => unlike (by rw [named', here])
    rw [unfinished.confined.node_eq elsewhere] at gone
    refine ends_of_ok eq ⟨goal, named', ?_, gone, ?_⟩
    · exact (unfinished.confined.mono (fun _ => .inl) fun _ here => here).trans
        (confined.mono (fun _ here => here) fun _ => False.elim)
    · rw [standing, taken]
      exact congrArg Held.file (confined.bytes_eq not_false)

theorem Unfinished.install (below : ∀ rest, rest ≠ [] → disk.node? (place ++ rest) = none)
    (named : disk.place? tempPath = some place) (unlike : disk.place? destination ≠ some place)
    (syncs : Bool) (unfinished : Unfinished disk place file opened) :
    Ends (install tempPath destination syncs) opened
      (fun _ next => ∃ goal, disk.place? destination = some goal ∧
        Installed disk place goal file (opened.bytes file) next)
      (fun _ => Unfinished disk place file) := by
  apply install_of_rename syncs
  · intro next names files
    have bytes_eq : next.bytes file = opened.bytes file := by rw [Disk.bytes, files, Disk.bytes]
    rw [← bytes_eq]
    exact (unfinished.of_same names files).rename below named unlike
  · exact fun next names files => unfinished.of_same names files

end install

end ConstDb.Disk
