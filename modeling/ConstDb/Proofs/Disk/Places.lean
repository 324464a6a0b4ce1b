import ConstDb.Disk
import ConstDb.Proofs.Effect
import Mathlib.Data.List.Induction

/-!
# Places on a disk

What stands where after a change of the names, and where paths lead. Paths go through directories only,
so that files may come and go and a path still leads to the same place (`place?_eq`, `held_eq`).
-/

namespace ConstDb.Disk

/-! ## Nodes -/

theorem node?_eq_lookup (disk : Disk) {place : Place} (below : place ≠ []) :
    disk.node? place = disk.names.lookup place := by
  cases place with
  | nil => exact absurd rfl below
  | cons name place => rfl

theorem node?_of_names {disk next : Disk} (names : next.names = disk.names) (place : Place) :
    next.node? place = disk.node? place := by
  cases place with
  | nil => rfl
  | cons name place => exact congrArg _ names

theorem node?_of_fates (disk : Disk) (fates : List Fate) (place : Place) :
    (⟨disk.names, disk.files, fates⟩ : Disk).node? place = disk.node? place := node?_of_names rfl place

theorem lookup_cons (place key : Place) (node : Node) (names : List (Place × Node)) :
    ((key, node) :: names).lookup place = if place = key then some node else names.lookup place := by
  rw [List.lookup_cons]
  by_cases here : place = key
  · rw [beq_iff_eq.2 here, if_pos here]
  · rw [beq_false_of_ne here, if_neg here]

theorem lookup_filter_ne (removed place : Place) : ∀ names : List (Place × Node),
    (names.filter (·.1 ≠ removed)).lookup place =
      if place = removed then none else names.lookup place
  | [] => by simp
  | (key, node) :: names => by
    have ih := lookup_filter_ne removed place names
    rw [lookup_cons]
    by_cases same : key = removed
    · subst same
      rw [List.filter_cons_of_neg (by simp), ih]
      by_cases here : place = key
      · rw [if_pos here, if_pos here]
      · rw [if_neg here, if_neg here, if_neg here]
    · rw [List.filter_cons_of_pos (by simp [same]), lookup_cons, ih]
      by_cases here : place = key
      · subst here
        simp [same]
      · rw [if_neg here, if_neg here]

theorem node?_link (disk : Disk) (node : Node) {place : Place} (below : place ≠ []) (other : Place) :
    (disk.link place node).node? other = if other = place then some node else disk.node? other := by
  by_cases top : other = []
  · subst top
    rw [if_neg (Ne.symm below)]
    rfl
  rw [node?_eq_lookup _ top, node?_eq_lookup _ top]
  unfold link
  rw [lookup_cons, lookup_filter_ne]
  by_cases here : other = place
  · rw [if_pos here, if_pos here]
  · rw [if_neg here, if_neg here, if_neg here]

theorem node?_unlink (disk : Disk) {place : Place} (below : place ≠ []) (other : Place) :
    (disk.unlink place).node? other = if other = place then none else disk.node? other := by
  by_cases top : other = []
  · subst top
    rw [if_neg (Ne.symm below)]
    rfl
  rw [node?_eq_lookup _ top, node?_eq_lookup _ top]
  exact lookup_filter_ne place other disk.names

theorem lookup_map_key (source target other : Place) : ∀ names : List (Place × Node),
    (∀ entry ∈ names, entry.1 ≠ target) →
      (names.map fun entry => (if entry.1 = source then target else entry.1, entry.2)).lookup other =
        if other = target then names.lookup source
        else if other = source then none else names.lookup other
  | [], _ => by simp
  | (key, node) :: names, fresh => by
    have unlike : key ≠ target := fresh (key, node) (List.mem_cons_self ..)
    have ih := lookup_map_key source target other names
      fun entry member => fresh entry (List.mem_cons_of_mem _ member)
    rw [List.map_cons, lookup_cons, lookup_cons, lookup_cons, ih]
    by_cases renamed : key = source
    · subst renamed
      by_cases here : other = target
      · simp [here]
      · by_cases there : other = key
        · simp [there, unlike]
        · simp [here, there]
    · by_cases here : other = target
      · subst here
        simp [renamed, Ne.symm renamed, Ne.symm unlike]
      · by_cases there : other = source
        · subst there
          simp [renamed, here, Ne.symm renamed]
        · simp [renamed, here, there]

/-- Moving a file: nothing is below it, so that just its own name changes. -/
theorem node?_moved (disk : Disk) {source target : Place} (atSource : source ≠ [])
    (atTarget : target ≠ []) (unlike : source ≠ target)
    (alone : ∀ rest, rest ≠ [] → disk.node? (source ++ rest) = none) (other : Place) :
    (disk.moved source target).node? other =
      if other = target then disk.node? source else if other = source then none else disk.node? other := by
  have stay : ∀ entry ∈ disk.names.filter (·.1 ≠ target), entry.1 ≠ target := by
    intro entry member
    simpa using (List.mem_filter.1 member).2
  have renamed : (disk.moved source target).names = (disk.names.filter (·.1 ≠ target)).map
      fun entry => (if entry.1 = source then target else entry.1, entry.2) := by
    unfold moved
    apply List.map_congr_left
    intro entry member
    obtain ⟨place, node⟩ := entry
    by_cases inside : source <+: place
    · obtain ⟨rest, rfl⟩ := inside
      by_cases whole : rest = []
      · simp [whole]
      · have nothing := alone rest whole
        have below : source ++ rest ≠ [] := by simp [whole]
        rw [node?_eq_lookup _ below, List.lookup_eq_none_iff] at nothing
        have := nothing _ (List.mem_filter.1 member).1
        simp at this
    · have apart : place ≠ source := fun same => inside (same ▸ List.prefix_rfl)
      simp [inside, apart]
  by_cases top : other = []
  · subst top
    rw [if_neg (Ne.symm atTarget), if_neg (Ne.symm atSource)]
    rfl
  rw [node?_eq_lookup _ top, renamed, lookup_map_key _ _ _ _ stay, lookup_filter_ne, lookup_filter_ne,
    if_neg unlike, node?_eq_lookup _ atSource, node?_eq_lookup _ top]
  by_cases here : other = target
  · rw [if_pos here, if_pos here]
  · rw [if_neg here, if_neg here, if_neg here]

/-! ## Where paths lead -/

inductive Held where
  | nothing
  | directory
  | file (bytes : ByteArray)
  deriving DecidableEq

def standing (disk : Disk) (place : Place) : Held :=
  match disk.node? place with
  | none => .nothing
  | some .directory => .directory
  | some (.file id) => .file (disk.bytes id)

/-- What a path names, for a reader that opens it. -/
def held (disk : Disk) (text : String) : Held :=
  match disk.openRead text with
  | .error _ => .nothing
  | .ok .directory => .directory
  | .ok (.file id) => .file (disk.bytes id)

/-- The place where a path names a file, if there is one. -/
def place? (disk : Disk) (text : String) : Option Place :=
  match disk.resolve text with
  | .ok (.entry directory name false) =>
    if Path.tooLong name then none else some (directory ++ [name])
  | _ => none

theorem place?_eq_some_iff {disk : Disk} {text : String} {place : Place} :
    disk.place? text = some place ↔ ∃ directory name, disk.resolve text = .ok (.entry directory name false) ∧
      Path.tooLong name = false ∧ place = directory ++ [name] := by
  unfold place?
  constructor
  · intro eq
    split at eq
    · next directory name resolved =>
      cases long : Path.tooLong name with
      | true => simp [long] at eq
      | false => exact ⟨directory, name, resolved, long, by simpa [long] using eq.symm⟩
    · cases eq
  · intro h
    obtain ⟨directory, name, resolved, long, rfl⟩ := h
    simp [resolved, long]

theorem held_of_place? {disk : Disk} {text : String} {place : Place}
    (eq : disk.place? text = some place) : disk.held text = disk.standing place := by
  obtain ⟨directory, name, resolved, long, rfl⟩ := place?_eq_some_iff.1 eq
  have opened : disk.openRead text =
      (disk.lookupTarget (.entry directory name false)).mapError Errno.toIoError := by
    rw [openRead, resolved]
    rfl
  have entry : disk.entry? directory name = .ok (disk.node? (directory ++ [name])) := by
    simp [long, entry?]
  unfold held standing
  rw [opened, lookupTarget, entry]
  cases disk.node? (directory ++ [name]) with
  | none => rfl
  | some node => cases node <;> rfl

theorem held_of_unresolved {disk : Disk} {text : String} {e : IoError}
    (unresolved : disk.resolve text = .error e) : disk.held text = .nothing := by
  unfold held openRead
  rw [unresolved]
  rfl

theorem held_of_entry {disk : Disk} {text name : String} {directory : Place} {trailing : Bool}
    (resolved : disk.resolve text = .ok (.entry directory name trailing))
    (unnamed : disk.place? text = none) :
    disk.held text =
      if Path.tooLong name = false ∧ disk.node? (directory ++ [name]) = some .directory then .directory
      else .nothing := by
  have opened : disk.openRead text =
      (disk.lookupTarget (.entry directory name trailing)).mapError Errno.toIoError := by
    rw [openRead, resolved]
    rfl
  unfold held
  rw [opened, lookupTarget]
  cases long : Path.tooLong name with
  | true => simp [long, entry?, bind, Except.bind, Except.mapError]
  | false =>
    have slash : trailing = true := by
      cases trailing with
      | true => rfl
      | false =>
        rw [place?_eq_some_iff.2 ⟨directory, name, resolved, long, rfl⟩] at unnamed
        cases unnamed
    cases node : disk.node? (directory ++ [name]) with
    | none => simp [long, entry?, node, bind, Except.bind, Except.mapError]
    | some node' =>
      cases node' <;> simp [long, entry?, node, slash, bind, Except.bind, Except.mapError]

/-! ## Disks with the same directories -/

def SameDirectories (disk next : Disk) : Prop :=
  ∀ place, next.node? place = some .directory ↔ disk.node? place = some .directory

namespace SameDirectories

variable {disk next : Disk}

theorem symm (same : SameDirectories disk next) : SameDirectories next disk :=
  fun place => (same place).symm

theorem enter (same : SameDirectories disk next) {place goal : Place} {name : String}
    (entered : disk.enter place name = .ok goal) : next.enter place name = .ok goal := by
  unfold Disk.enter at entered ⊢
  by_cases self : name = "."
  · simpa [self] using entered
  by_cases parent : name = ".."
  · simpa [parent] using entered
  cases long : Path.tooLong name with
  | true => simp [self, parent, long] at entered
  | false =>
    cases node : disk.node? (place ++ [name]) with
    | none => simp [self, parent, long, node] at entered
    | some node' =>
      cases node' with
      | directory => simpa [self, parent, long, node, (same _).2 node] using entered
      | file id => simp [self, parent, long, node] at entered

theorem foldlM_enter (same : SameDirectories disk next) : ∀ {names : List String} {place goal : Place},
    names.foldlM disk.enter place = .ok goal → names.foldlM next.enter place = .ok goal
  | [], _, _, walked => walked
  | name :: names, place, goal, walked => by
    rw [List.foldlM_cons] at walked ⊢
    obtain ⟨between, entered, walked⟩ := Effect.except_bind_eq_ok_iff.1 walked
    exact Effect.except_bind_eq_ok_iff.2 ⟨between, same.enter entered, same.foldlM_enter walked⟩

theorem walk (same : SameDirectories disk next) {path : Path} {target : Target}
    (walked : disk.walk path = .ok target) : next.walk path = .ok target := by
  unfold Disk.walk at walked ⊢
  obtain ⟨place, entered, last⟩ := Effect.except_bind_eq_ok_iff.1 walked
  exact Effect.except_bind_eq_ok_iff.2 ⟨place, same.foldlM_enter entered, last⟩

theorem resolve (same : SameDirectories disk next) {text : String} {target : Target}
    (resolved : disk.resolve text = .ok target) : next.resolve text = .ok target := by
  unfold Disk.resolve at resolved ⊢
  obtain ⟨path, parsed, walked⟩ := Effect.except_bind_eq_ok_iff.1 resolved
  refine Effect.except_bind_eq_ok_iff.2 ⟨path, parsed, ?_⟩
  cases eq : disk.walk path with
  | error e => simp [eq, Except.mapError] at walked
  | ok target' =>
    rw [same.walk eq]
    rwa [eq] at walked

theorem place?_eq (same : SameDirectories disk next) (text : String) :
    next.place? text = disk.place? text := by
  apply Option.ext
  intro place
  rw [place?_eq_some_iff, place?_eq_some_iff]
  constructor
  · intro h
    obtain ⟨directory, name, resolved, rest⟩ := h
    exact ⟨directory, name, same.symm.resolve resolved, rest⟩
  · intro h
    obtain ⟨directory, name, resolved, rest⟩ := h
    exact ⟨directory, name, same.resolve resolved, rest⟩

theorem held_eq (same : SameDirectories disk next) {text : String} (unnamed : disk.place? text = none) :
    next.held text = disk.held text := by
  have unnamed' : next.place? text = none := by rw [same.place?_eq, unnamed]
  cases resolved : disk.resolve text with
  | error e =>
    cases resolved' : next.resolve text with
    | error e' => rw [held_of_unresolved resolved, held_of_unresolved resolved']
    | ok target =>
      rw [same.symm.resolve resolved'] at resolved
      cases resolved
  | ok target =>
    have resolved' := same.resolve resolved
    cases target with
    | directory place => simp [held, openRead, resolved, resolved', lookupTarget, bind, Except.bind, Except.mapError]
    | entry directory name trailing =>
      rw [held_of_entry resolved unnamed, held_of_entry resolved' unnamed']
      simp only [same (directory ++ [name])]

end SameDirectories

end ConstDb.Disk
