import ConstDb.Proofs.Disk.Unfinished

/-!
# Disks whose calls go well

On a steady disk no call fails of itself, though a write may take part of its offer. Then a file is opened
wherever a path leads to a place that is no directory (`Steady.create`), what is written to it arrives
(`fileLike_steady`), and it can be put in the place of another file (`Steady.install`).
-/

namespace ConstDb

/-- A call with such a fate does not fail, and takes something of what it is offered. -/
def Fate.Goes : Fate → Prop
  | .proceed => True
  | .accept limit => limit ≠ 0
  | .fail _ => False

namespace Disk

open Effect

/-- No call that changes the disk fails of itself. -/
def Steady (disk : Disk) : Prop := ∀ fate ∈ disk.fates, fate.Goes

variable {disk next : Disk} {text : String} {place : Place} {file : FileId}

theorem Steady.of_fates (steady : disk.Steady) (fates : next.fates = disk.fates) : next.Steady := by
  unfold Steady
  rwa [fates]

theorem Steady.nextFate (steady : disk.Steady) : disk.nextFate.1.Goes ∧ disk.nextFate.2.Steady := by
  obtain ⟨names, files, fates⟩ := disk
  cases fates with
  | nil => exact ⟨trivial, steady⟩
  | cons fate fates =>
    exact ⟨steady fate List.mem_cons_self, fun other member => steady other (List.mem_cons_of_mem _ member)⟩

theorem Steady.change {α : Type} {action : Disk → Except IoError (α × Disk)} {a : α} (steady : disk.Steady)
    (eq : action disk.nextFate.2 = .ok (a, next)) : change action disk = .ok a next := by
  have goes := steady.nextFate.1
  rw [change_apply, eq]
  cases fate : disk.nextFate.1 with
  | fail e =>
    rw [fate] at goes
    exact goes.elim
  | proceed | accept => rfl

/-! ## Opening and renaming -/

theorem truncateTarget_goes {directory : Place} {name : String} (short : Path.tooLong name = false)
    (free : disk.node? (directory ++ [name]) ≠ some .directory) :
    ∃ handle next, disk.truncateTarget (.entry directory name false) = .ok (handle, next) ∧
      next.fates = disk.fates := by
  simp only [truncateTarget, entry?, short, Bool.false_eq_true, if_false, bind, Except.bind]
  cases node : disk.node? (directory ++ [name]) with
  | none => exact ⟨_, _, rfl, rfl⟩
  | some node' =>
    cases node' with
    | directory => exact absurd node free
    | file id => exact ⟨_, _, rfl, rfl⟩

theorem Steady.create (steady : disk.Steady) (named : disk.place? text = some place)
    (free : disk.node? place ≠ some .directory) :
    ∃ handle next, create text disk = .ok handle next ∧ next.Steady := by
  obtain ⟨directory, name, resolved, short, rfl⟩ := place?_eq_some_iff.1 named
  obtain ⟨fates, eq⟩ := nextFate_eq disk
  have later := steady.nextFate.2
  rw [← node?_of_fates disk fates, ← eq] at free
  obtain ⟨handle, next, opened, same⟩ := truncateTarget_goes short free
  have resolved : disk.nextFate.2.resolve text = .ok (.entry directory name false) := by
    rw [eq]
    exact (sameDirectories_of_fates disk fates).resolve resolved
  refine ⟨handle, next, steady.change ?_, later.of_fates same⟩
  rw [resolved]
  exact mapError_eq_ok_iff.2 opened

/-- A place that is no directory is not on the way to anything. -/
theorem Tree.isPrefixOf_eq_false (tree : disk.Tree) {directory goal : Place} {name : String} {trailing : Bool}
    (resolved : disk.resolve text = .ok (.entry directory name trailing))
    (free : disk.node? goal ≠ some .directory) : goal.isPrefixOf directory = false := by
  have found := tree.directory_of_resolve resolved
  rw [Bool.eq_false_iff, Ne, List.isPrefixOf_iff_prefix]
  intro way
  obtain ⟨rest, rfl⟩ := way
  by_cases whole : rest = []
  · rw [whole, List.append_nil] at found
    exact free found
  · rw [tree.nothing_below free rest whole] at found
    cases found

theorem renameTarget_goes {sourceIn targetIn : Place} {sourceName targetName : String}
    (short : Path.tooLong sourceName = false) (short' : Path.tooLong targetName = false)
    (stands : disk.node? (sourceIn ++ [sourceName]) = some (.file file))
    (free : disk.node? (targetIn ++ [targetName]) ≠ some .directory)
    (unlike : sourceIn ++ [sourceName] ≠ targetIn ++ [targetName])
    (apart : (targetIn ++ [targetName]).isPrefixOf sourceIn = false) :
    ∃ next, disk.renameTarget (.entry sourceIn sourceName false) (.entry targetIn targetName false) =
      .ok next := by
  unfold renameTarget
  simp only [short, entry?, short', stands, apart, bind, Except.bind, Bool.false_eq_true, if_false,
    Bool.or_false, Bool.and_false, reduceCtorEq, decide_false, Bool.false_and, replace, if_neg unlike]
  cases node : disk.node? (targetIn ++ [targetName]) with
  | none => exact ⟨_, rfl⟩
  | some node' =>
    cases node' with
    | directory => exact absurd node free
    | file other =>
      simp only
      split <;> exact ⟨_, rfl⟩

section install
variable {start : Disk} {tempPath destination : String} {goal : Place}

/-- What matters is where the paths led to on the disk on which the file was opened. -/
theorem Steady.rename (steady : disk.Steady) (tree : start.Tree) (same : SameDirectories start disk)
    (named : start.place? tempPath = some place) (stands : disk.node? place = some (.file file))
    (named' : start.place? destination = some goal) (free : start.node? goal ≠ some .directory)
    (unlike : place ≠ goal) :
    ∃ next, rename tempPath destination disk = .ok () next := by
  obtain ⟨sourceIn, sourceName, resolved, short, rfl⟩ := place?_eq_some_iff.1 named
  obtain ⟨targetIn, targetName, resolved', short', rfl⟩ := place?_eq_some_iff.1 named'
  have apart := tree.isPrefixOf_eq_false resolved free
  obtain ⟨fates, eq⟩ := nextFate_eq disk
  have node := node?_of_fates disk fates
  have same' : SameDirectories start disk.nextFate.2 := fun place => by rw [eq, node, same place]
  rw [← node, ← eq] at stands
  rw [Ne, ← same'] at free
  obtain ⟨next, goes⟩ := renameTarget_goes short short' stands free unlike apart
  have renamed := mapError_eq_ok_iff.2 goes
  refine ⟨next, steady.change ?_⟩
  simp only [same'.resolve resolved, same'.resolve resolved', bind, Except.bind, renamed]
  rfl

theorem Steady.sync (steady : disk.Steady) : sync disk = .ok () disk.nextFate.2 :=
  steady.change rfl

theorem Steady.install (steady : disk.Steady) (tree : start.Tree) (same : SameDirectories start disk)
    (named : start.place? tempPath = some place) (stands : disk.node? place = some (.file file))
    (named' : start.place? destination = some goal) (free : start.node? goal ≠ some .directory)
    (unlike : place ≠ goal) (syncs : Bool) :
    ∃ next, install tempPath destination syncs disk = .ok () next := by
  have renames : ∀ mid : Disk, mid.names = disk.names → mid.Steady →
      ∃ next, (Disk.rename tempPath destination).adaptExcept DbError.io mid = .ok () next := by
    intro mid names steady
    have node := node?_of_names names
    have same : SameDirectories start mid := fun place => by rw [node, same place]
    rw [← node] at stands
    obtain ⟨next, eq⟩ := steady.rename tree same named stands named' free unlike
    exact ⟨next, by rw [adaptExcept_apply, eq]⟩
  unfold Disk.install
  cases syncs with
  | false => exact renames disk rfl steady
  | true =>
    obtain ⟨fates, eq⟩ := nextFate_eq disk
    obtain ⟨next, renamed⟩ := renames disk.nextFate.2 (by rw [eq]) steady.nextFate.2
    refine ⟨next, ?_⟩
    rw [if_pos rfl, bind_apply, adaptExcept_apply, steady.sync]
    exact renamed

end install

/-! ## Writing -/

namespace Handle

variable {start : Disk} {handle : Handle} {state : Handle × Disk} {content : ByteArray} {offset : Nat}

def ShowsSteady (start : Disk) (file : FileId) (state : Handle × Disk) (content : ByteArray)
    (offset : Nat) : Prop := Shows start file state content offset ∧ state.2.Steady

theorem write_steady (bytes : ByteArray) (shown : ShowsSteady start file state content offset) :
    Ends (write bytes) state
      (fun count t => ShowsSteady start file t (Bytes.overwrite content offset (bytes.extract 0 count))
          (offset + count) ∧ (count = 0 → bytes.size = 0 ∨ False))
      (fun e t => if e.isInterrupted = true then ShowsSteady start file t content offset
        else False ∧ Shown (ShowsSteady start file) t) := by
  obtain ⟨handle, disk⟩ := state
  obtain ⟨shown, steady⟩ := shown
  obtain rfl := shown.handle_eq
  obtain ⟨goes, later⟩ := Steady.nextFate steady
  have shown := shown.nextFate
  cases fate : disk.nextFate.1 with
  | fail e =>
    rw [fate] at goes
    exact goes.elim
  | proceed =>
    refine ends_of_ok (by simp only [write, fate]; rfl) ⟨⟨shown.overwrite _ _, later⟩, .inl⟩
  | accept limit =>
    rw [fate] at goes
    have some : limit ≠ 0 := goes
    refine ends_of_ok (by simp only [write, fate]; rfl) ⟨⟨shown.overwrite _ _, later⟩, fun none => .inl ?_⟩
    simp only [Fate.taken] at none
    omega

theorem seek_steady (position : Nat) (shown : ShowsSteady start file state content offset) :
    Ends (seek position) state (fun _ t => ShowsSteady start file t content position)
      (fun _ t => False ∧ Shown (ShowsSteady start file) t) := by
  obtain ⟨handle, disk⟩ := state
  obtain ⟨shown, steady⟩ := shown
  obtain rfl := shown.handle_eq
  obtain ⟨goes, later⟩ := Steady.nextFate steady
  have shown := shown.nextFate
  have moved : ShowsSteady start file (⟨file, position⟩, disk.nextFate.2) content position :=
    ⟨⟨rfl, shown.names_eq, shown.size_eq, shown.bytes_eq, shown.content_eq, shown.stored⟩, later⟩
  cases fate : disk.nextFate.1 with
  | fail e =>
    rw [fate] at goes
    exact goes.elim
  | proceed | accept => exact ends_of_ok (by simp only [seek, fate]; rfl) moved

theorem fileLike_steady (start : Disk) (file : FileId) : FileLike calls (ShowsSteady start file) False :=
  ⟨write_steady, seek_steady, fun shown => ends_pure shown⟩

end Handle

end Disk
end ConstDb
