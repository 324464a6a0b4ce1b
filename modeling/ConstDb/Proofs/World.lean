import ConstDb.Proofs.Draft
import Mathlib.Logic.Function.Basic

/-!
# Writers on one disk

Any number of writers make databases on one disk, whose calls may fail at any time. Each action touches
the place of one unfinished file, and only a publication that succeeds touches another place, that of
its destination (`Inv.step_ends`).
-/

namespace ConstDb

open Effect

/-! ## Writers at work -/

/-- A writer under way, and what it has accepted, in the order of addition. -/
structure Writer where
  draft : Draft
  accepted : List Record

structure World where
  disk : Disk
  writers : Nat → Option Writer
  /-- The successful publications, the latest one first. -/
  published : List (String × List Record)

inductive Action where
  | create (writer : Nat) (path : String) (config : Config)
  | add (writer : Nat) (record : Record)
  | ingest (writer : Nat) (separator : UInt8) (reads : Reads)
  | finish (writer : Nat)
  | drop (writer : Nat)

namespace Action

def writer : Action → Nat
  | create i _ _ | add i _ | ingest i _ _ | finish i | drop i => i

def destination? : Action → Option String
  | create _ path _ => some path
  | _ => none

def destinations (actions : List Action) : List String := actions.filterMap destination?

end Action

namespace World

def start (disk : Disk) : World := ⟨disk, fun _ => none, []⟩

def put (world : World) (i : Nat) (disk : Disk) (writer : Option Writer) : World :=
  { world with disk, writers := Function.update world.writers i writer }

@[simp] theorem disk_put (world : World) (i : Nat) (disk : Disk) (writer : Option Writer) :
    (world.put i disk writer).disk = disk := rfl

@[simp] theorem published_put (world : World) (i : Nat) (disk : Disk) (writer : Option Writer) :
    (world.put i disk writer).published = world.published := rfl

/-- What an action does. A number that is taken makes no second writer, and a number without a writer
does nothing. -/
def step : Action → Effect DbError World Unit
  | .create i path config => fun world =>
    match world.writers i with
    | some _ => .ok () world
    | none =>
      match Draft.create path config world.disk with
      | .ok draft disk => .ok () (world.put i disk (some ⟨draft, []⟩))
      | .error e disk => .error e (world.put i disk none)
  | .add i record => fun world =>
    match world.writers i with
    | none => .ok () world
    | some ⟨draft, accepted⟩ =>
      match Draft.add record (draft, world.disk) with
      | .ok () (draft, disk) => .ok () (world.put i disk (some ⟨draft, accepted ++ [record]⟩))
      | .error e (draft, disk) => .error e (world.put i disk (some ⟨draft, accepted⟩))
  | .ingest i separator reads => fun world =>
    match world.writers i with
    | none => .ok () world
    | some ⟨draft, accepted⟩ =>
      let accepted := Draft.acceptedLines accepted separator reads (draft, world.disk)
      match Draft.addLines separator reads (draft, world.disk) with
      | .ok _ (draft, disk) => .ok () (world.put i disk (some ⟨draft, accepted⟩))
      | .error e (draft, disk) => .error e (world.put i disk (some ⟨draft, accepted⟩))
  | .finish i => fun world =>
    match world.writers i with
    | none => .ok () world
    | some ⟨draft, accepted⟩ =>
      match draft.publish world.disk with
      | .ok () disk => .ok () { world.put i disk none with
          published := (draft.destination, accepted) :: world.published }
      | .error e disk => .error e (world.put i disk none)
  | .drop i => fun world =>
    match world.writers i with
    | none => .ok () world
    | some ⟨draft, _⟩ => .ok () (world.put i (draft.discard world.disk) none)

def next (world : World) (action : Action) : World :=
  match step action world with
  | .ok _ next | .error _ next => next

def run (world : World) (actions : List Action) : World := actions.foldl next world

/-- How the removal of an unfinished file fails, if an action attempts one. -/
def removalFailure? (world : World) : Action → Option IoError
  | .finish i => do
    let writer ← world.writers i
    writer.draft.installing.cleanupFailure? (Disk.remove writer.draft.tempPath) world.disk
  | .drop i => do
    let writer ← world.writers i
    (Disk.remove writer.draft.tempPath).failure? world.disk
  | _ => none

/-! ## Private unfinished files -/

/-- The place where an action empties or makes an unfinished file. -/
def opens? (world : World) : Action → Option Place
  | .create i path config =>
    if (world.writers i).isSome then none else world.disk.opens? (tempPathFor path config.tempSuffix)
  | _ => none

/-- An unfinished file is opened only where no path of `finals` and no writer under way has its own. -/
def Clear (finals : List String) (world : World) (action : Action) : Prop :=
  ∀ place, world.opens? action = some place →
    (∀ final ∈ finals, world.disk.place? final ≠ some place) ∧
    ∀ i writer, world.writers i = some writer → world.disk.place? writer.draft.tempPath ≠ some place

def Private (finals : List String) : World → List Action → Prop
  | _, [] => True
  | world, action :: actions => world.Clear finals action ∧ Private finals (world.next action) actions

def latest? (initial : Disk) (world : World) (path : String) : Option (String × List Record) :=
  world.published.find? fun entry => initial.place? entry.1 = initial.place? path

/-- A path holds what it held at first, or the image of what was published last at its place. -/
structure Current (initial : Disk) (world : World) (path : String) : Prop where
  unpublished : world.latest? initial path = none → world.disk.held path = initial.held path
  published : ∀ {destination records}, world.latest? initial path = some (destination, records) →
    world.disk.HoldsImage path records

/-! ## What holds all the time -/

structure Inv (initial : Disk) (finals : List String) (world : World) : Prop where
  sound : world.disk.Sound
  directories : Disk.SameDirectories initial world.disk
  underway : ∀ {i writer}, world.writers i = some writer → ∃ place,
    Draft.Underway world.disk place writer.accepted writer.draft ∧
      writer.draft.destination ∈ finals ∧ ∀ final ∈ finals, world.disk.place? final ≠ some place
  apart : ∀ {i j writer other place}, world.writers i = some writer → world.writers j = some other →
    world.disk.place? writer.draft.tempPath = some place →
    world.disk.place? other.draft.tempPath = some place → i = j
  current : ∀ path ∈ finals, Current initial world path

/-- The places of unfinished files that an action gets at. -/
def Touches (world : World) (action : Action) (place : Place) : Prop :=
  world.opens? action = some place ∨ ∃ writer, world.writers action.writer = some writer ∧
    world.disk.place? writer.draft.tempPath = some place

def Installs (world : World) (action : Action) (place : Place) : Prop :=
  ∃ i writer, action = .finish i ∧ world.writers i = some writer ∧
    world.disk.place? writer.draft.destination = some place

variable {initial disk : Disk} {finals : List String} {world : World} {action : Action} {i : Nat}
variable {place : Place}

theorem inv_start (sound : disk.Sound) : Inv disk finals (start disk) := by
  refine ⟨sound, fun _ => Iff.rfl, ?_, ?_, fun _ _ => ⟨fun _ => rfl, fun none => by cases none⟩⟩
  · intro i writer none
    cases none
  · intro i j writer other place none
    cases none

theorem Inv.touches (inv : Inv initial finals world) (clear : world.Clear finals action)
    (touches : world.Touches action place) :
    (∀ final ∈ finals, world.disk.place? final ≠ some place) ∧
      ∀ j writer, world.writers j = some writer → j ≠ action.writer →
        world.disk.place? writer.draft.tempPath ≠ some place := by
  rcases touches with opens | ⟨writer, live, named⟩
  · obtain ⟨free, alone⟩ := clear place opens
    exact ⟨free, fun j writer live _ => alone j writer live⟩
  · obtain ⟨own, underway, -, free⟩ := inv.underway live
    rw [underway.named] at named
    cases named
    refine ⟨free, fun j other live' unlike named' => ?_⟩
    exact unlike (inv.apart live' live named' underway.named)

theorem Inv.installs (inv : Inv initial finals world) (installs : world.Installs action place) :
    ∀ j writer, world.writers j = some writer → world.disk.place? writer.draft.tempPath ≠ some place := by
  obtain ⟨i, writer, -, live, named⟩ := installs
  obtain ⟨-, -, listed, -⟩ := inv.underway live
  intro j other live' named'
  obtain ⟨own, underway, -, free⟩ := inv.underway live'
  rw [underway.named] at named'
  cases named'
  exact free _ listed named

theorem update_cases {writers : Nat → Option Writer} {entry : Option Writer} {writer : Writer} {j : Nat}
    (live : Function.update writers i entry j = some writer) :
    j = i ∧ entry = some writer ∨ j ≠ i ∧ writers j = some writer := by
  by_cases here : j = i
  · rw [here, Function.update_self] at live
    exact .inl ⟨here, live⟩
  · rw [Function.update_of_ne here] at live
    exact .inr ⟨here, live⟩

theorem Inv.replace {changed : Place → Prop} {entry : Option Writer}
    {published : List (String × List Record)} (inv : Inv initial finals world)
    (frame : Disk.Frame changed world.disk disk)
    (alone : ∀ place, changed place → ∀ j writer, world.writers j = some writer → j ≠ i →
      world.disk.place? writer.draft.tempPath ≠ some place)
    (own : ∀ writer, entry = some writer → ∃ place, changed place ∧
      Draft.Underway disk place writer.accepted writer.draft ∧
      writer.draft.destination ∈ finals ∧ ∀ final ∈ finals, world.disk.place? final ≠ some place)
    (current : ∀ path ∈ finals,
      Current initial ⟨disk, Function.update world.writers i entry, published⟩ path) :
    Inv initial finals ⟨disk, Function.update world.writers i entry, published⟩ := by
  have same : ∀ text, disk.place? text = world.disk.place? text := frame.directories.place?_eq
  -- the writer that has changed has its file where no other writer has one
  have strange : ∀ {j writer other place}, entry = some writer → world.writers j = some other → j ≠ i →
      disk.place? writer.draft.tempPath = some place →
      disk.place? other.draft.tempPath ≠ some place := by
    intro j writer other place eq live unlike named
    obtain ⟨own, h, underway, -⟩ := own writer eq
    rw [underway.named] at named
    cases named
    rw [same]
    exact alone _ h j other live unlike
  refine ⟨frame.sound, fun place => (frame.directories place).trans (inv.directories place), ?_, ?_, current⟩
  · intro j writer live
    rcases update_cases live with ⟨-, eq⟩ | ⟨unlike, live⟩
    · obtain ⟨place, -, underway, listed, free⟩ := own writer eq
      refine ⟨place, underway, listed, fun final member => ?_⟩
      rw [same]
      exact free final member
    · obtain ⟨place, underway, listed, free⟩ := inv.underway live
      refine ⟨place, underway.of_frame frame fun h => ?_, listed, fun final member => ?_⟩
      · exact alone place h j writer live unlike underway.named
      · rw [same]
        exact free final member
  · intro j k writer other place live live' named named'
    rcases update_cases live with ⟨here, eq⟩ | ⟨unlike, live⟩
    · rcases update_cases live' with ⟨there, -⟩ | ⟨unlike', live'⟩
      · rw [here, there]
      · exact absurd named' (strange eq live' unlike' named)
    · rcases update_cases live' with ⟨-, eq'⟩ | ⟨-, live'⟩
      · exact absurd named (strange eq' live unlike named')
      · rw [same] at named named'
        exact inv.apart live live' named named'

theorem Current.of_latest {next : World} {path : String} (current : Current initial world path)
    (same : next.latest? initial path = world.latest? initial path)
    (held : next.disk.held path = world.disk.held path) : Current initial next path := by
  refine ⟨fun none => ?_, fun found => ?_⟩
  · rw [held]
    exact current.unpublished (same.symm.trans none)
  · obtain ⟨standing, built⟩ := current.published (same.symm.trans found)
    exact ⟨held.trans standing, built⟩

theorem Inv.put {entry : Option Writer} (inv : Inv initial finals world)
    (clear : world.Clear finals action) (frame : Disk.Frame (world.Touches action) world.disk disk)
    (own : ∀ writer, entry = some writer → ∃ place, world.Touches action place ∧
      Draft.Underway disk place writer.accepted writer.draft ∧ writer.draft.destination ∈ finals) :
    Inv initial finals (world.put action.writer disk entry) := by
  refine inv.replace frame (fun place h => (inv.touches clear h).2) ?_ ?_
  · intro writer eq
    obtain ⟨place, h, underway, listed⟩ := own writer eq
    exact ⟨place, h, underway, listed, (inv.touches clear h).1⟩
  · intro path member
    refine Current.of_latest (inv.current path member) ?_ ?_
    · rfl
    · exact frame.held_eq fun place named h => (inv.touches clear h).1 path member named

/-! ## Steps -/

def Reaches (initial : Disk) (finals : List String) (changed : Place → Prop) (world next : World) : Prop :=
  Inv initial finals next ∧ Disk.Frame changed world.disk next.disk

theorem Inv.stay {changed : Place → Prop} (inv : Inv initial finals world) :
    Reaches initial finals changed world world :=
  ⟨inv, Disk.frame_of_same inv.sound rfl rfl⟩

section live
variable {writer : Writer} {accepted : List Record} {draft : Draft}

theorem touches_own (live : world.writers action.writer = some writer)
    (underway : Draft.Underway world.disk place writer.accepted writer.draft) :
    ∀ other, other = place → world.Touches action other := by
  intro other here
  rw [here]
  exact .inr ⟨writer, live, underway.named⟩

theorem Inv.proceed (inv : Inv initial finals world) (clear : world.Clear finals action)
    (live : world.writers action.writer = some writer)
    (underway : Draft.Underway world.disk place writer.accepted writer.draft)
    (listed : writer.draft.destination ∈ finals)
    (continues : Draft.Continues world.disk writer.draft place (accepted, draft, disk)) :
    Reaches initial finals (world.Touches action) world
      (world.put action.writer disk (some ⟨draft, accepted⟩)) := by
  have frame := continues.frame.mono (touches_own live underway)
  refine ⟨inv.put clear frame ?_, frame⟩
  intro _ eq
  cases eq
  refine ⟨place, touches_own live underway place rfl, continues.underway, ?_⟩
  rw [continues.destination_eq]
  exact listed

theorem Inv.leave (inv : Inv initial finals world) (clear : world.Clear finals action)
    (live : world.writers action.writer = some writer)
    (underway : Draft.Underway world.disk place writer.accepted writer.draft)
    (frame : Disk.Frame (· = place) world.disk disk) :
    Reaches initial finals (world.Touches action) world (world.put action.writer disk none) := by
  have frame := frame.mono (touches_own live underway)
  refine ⟨inv.put clear frame ?_, frame⟩
  intro _ eq
  cases eq

end live

theorem Inv.create_ends (inv : Inv initial finals world) (path : String) (config : Config)
    (clear : world.Clear finals (.create i path config)) (listed : path ∈ finals) :
    Ends (step (.create i path config)) world
      (fun _ => Reaches initial finals (world.Touches (.create i path config)) world)
      (fun _ => Reaches initial finals (world.Touches (.create i path config)) world) := by
  cases live : world.writers i with
  | some writer => exact ends_of_ok (a := ()) (by simp only [step, live]) inv.stay
  | none =>
    have opens : ∀ place, world.disk.opens? (tempPathFor path config.tempSuffix) = some place →
        world.Touches (.create i path config) place := by
      intro place eq
      apply Or.inl
      simpa [opens?, live] using eq
    have ends := Draft.create_ends path config inv.sound
    cases eq : Draft.create path config world.disk with
    | ok draft disk =>
      obtain ⟨-, destination, -, -, place, opened, underway, frame⟩ := ends.of_ok eq
      have frame : Disk.Frame (world.Touches (.create i path config)) world.disk disk :=
        frame.mono fun other same => opens other (by rw [same, opened])
      refine ends_of_ok (a := ()) (t := world.put i disk (some ⟨draft, []⟩))
        (by simp only [step, live, eq]) ⟨inv.put clear frame ?_, frame⟩
      intro _ eq
      cases eq
      exact ⟨place, opens place opened, underway, destination ▸ listed⟩
    | error e disk =>
      have frame := (ends.of_error eq).mono opens
      refine ends_of_error (e := e) (t := world.put i disk none)
        (by simp only [step, live, eq]) ⟨inv.put clear frame ?_, frame⟩
      intro _ eq
      cases eq

theorem continues_self (sound : world.disk.Sound) {writer : Writer}
    (underway : Draft.Underway world.disk place writer.accepted writer.draft) :
    Draft.Continues world.disk writer.draft place (writer.accepted, writer.draft, world.disk) :=
  ⟨underway, Disk.frame_of_same sound rfl rfl, rfl, rfl⟩

theorem Inv.add_ends (inv : Inv initial finals world) (record : Record)
    (clear : world.Clear finals (.add i record)) :
    Ends (step (.add i record)) world
      (fun _ => Reaches initial finals (world.Touches (.add i record)) world)
      (fun _ => Reaches initial finals (world.Touches (.add i record)) world) := by
  cases live : world.writers i with
  | none => exact ends_of_ok (a := ()) (by simp only [step, live]) inv.stay
  | some writer =>
    obtain ⟨place, underway, listed, -⟩ := inv.underway live
    have ends := Draft.add_ends record (continues_self inv.sound underway)
    cases eq : Draft.add record (writer.draft, world.disk) with
    | ok _ state =>
      exact ends_of_ok (a := ()) (t := world.put i state.2 (some ⟨state.1, writer.accepted ++ [record]⟩))
        (by simp only [step, live, eq]) (inv.proceed clear live underway listed (ends.of_ok eq))
    | error e state =>
      exact ends_of_error (e := e) (t := world.put i state.2 (some ⟨state.1, writer.accepted⟩))
        (by simp only [step, live, eq]) (inv.proceed clear live underway listed (ends.of_error eq))

theorem Inv.ingest_ends (inv : Inv initial finals world) (separator : UInt8) (reads : Reads)
    (clear : world.Clear finals (.ingest i separator reads)) :
    Ends (step (.ingest i separator reads)) world
      (fun _ => Reaches initial finals (world.Touches (.ingest i separator reads)) world)
      (fun _ => Reaches initial finals (world.Touches (.ingest i separator reads)) world) := by
  cases live : world.writers i with
  | none => exact ends_of_ok (a := ()) (by simp only [step, live]) inv.stay
  | some writer =>
    obtain ⟨place, underway, listed, -⟩ := inv.underway live
    have ends := Draft.addLines_ends separator reads (continues_self inv.sound underway)
    cases eq : Draft.addLines separator reads (writer.draft, world.disk) with
    | ok _ state =>
      exact ends_of_ok (a := ()) (t := world.put i state.2 (some ⟨state.1, _⟩))
        (by simp only [step, live, eq]) (inv.proceed clear live underway listed (ends.of_ok eq))
    | error e state =>
      exact ends_of_error (e := e) (t := world.put i state.2 (some ⟨state.1, _⟩))
        (by simp only [step, live, eq]) (inv.proceed clear live underway listed (ends.of_error eq))

theorem Inv.drop_ends (inv : Inv initial finals world) (clear : world.Clear finals (.drop i)) :
    Ends (step (.drop i)) world
      (fun _ => Reaches initial finals (world.Touches (.drop i)) world)
      (fun _ => Reaches initial finals (world.Touches (.drop i)) world) := by
  cases live : world.writers i with
  | none => exact ends_of_ok (a := ()) (by simp only [step, live]) inv.stay
  | some writer =>
    obtain ⟨place, underway, -⟩ := inv.underway live
    have frame := (Draft.discard_frame inv.sound underway).1
    exact ends_of_ok (a := ()) (t := world.put i (writer.draft.discard world.disk) none)
      (by simp only [step, live]) (inv.leave clear live underway frame)

theorem current_of_published {next : World} {entry : String × List Record} {path : String}
    (published : next.published = entry :: world.published)
    (here : initial.place? path = initial.place? entry.1) (fits : Image.Fits entry.2)
    (held : next.disk.held path = .file (Image.ofRecords entry.2)) : Current initial next path := by
  have latest : next.latest? initial path = some entry := by
    rw [latest?, published, List.find?_cons_of_pos (by simp [here])]
  refine ⟨fun none => ?_, fun found => ?_⟩
  · rw [latest] at none
    cases none
  · rw [latest] at found
    cases found
    exact Disk.holdsImage_of_fits fits held

theorem Current.of_published {next : World} {entry : String × List Record} {path : String}
    (current : Current initial world path) (published : next.published = entry :: world.published)
    (elsewhere : initial.place? path ≠ initial.place? entry.1)
    (held : next.disk.held path = world.disk.held path) : Current initial next path := by
  apply current.of_latest ?_ held
  rw [latest?, published, List.find?_cons_of_neg (by simp [Ne.symm elsewhere])]
  rfl

theorem Inv.finish_ends (inv : Inv initial finals world) (clear : world.Clear finals (.finish i)) :
    Ends (step (.finish i)) world
      (fun _ => Reaches initial finals
        (fun place => world.Touches (.finish i) place ∨ world.Installs (.finish i) place) world)
      (fun _ => Reaches initial finals (world.Touches (.finish i)) world) := by
  cases live : world.writers i with
  | none => exact ends_of_ok (a := ()) (by simp only [step, live]) inv.stay
  | some writer =>
    obtain ⟨place, underway, listed, free⟩ := inv.underway live
    have ends := Draft.publish_ends inv.sound underway (free _ listed)
    cases eq : writer.draft.publish world.disk with
    | error e disk =>
      exact ends_of_error (e := e) (t := world.put i disk none) (by simp only [step, live, eq])
        (inv.leave clear live underway (ends.of_error eq).1)
    | ok _ disk =>
      obtain ⟨fits, goal, named, frame, -, standing, -⟩ := ends.of_ok eq
      have installs : world.Installs (.finish i) goal := ⟨i, writer, rfl, live, named⟩
      have frame' : Disk.Frame (fun place => world.Touches (.finish i) place ∨
          world.Installs (.finish i) place) world.disk disk := by
        apply frame.mono
        intro other h
        rcases h with here | here
        · exact .inl (touches_own live underway other here)
        · exact .inr (here ▸ installs)
      have same := inv.directories.place?_eq
      refine ends_of_ok (a := ()) (t := ⟨disk, Function.update world.writers i none,
        (writer.draft.destination, writer.accepted) :: world.published⟩)
        (by simp only [step, live, eq]; rfl) ⟨inv.replace frame' ?_ ?_ ?_, frame'⟩
      · intro other h
        rcases h with h | h
        · exact (inv.touches clear h).2
        · exact fun j writer live _ => inv.installs h j writer live
      · intro _ eq
        cases eq
      · intro path member
        by_cases here : initial.place? path = initial.place? writer.draft.destination
        · refine current_of_published rfl here fits ?_
          have leads : disk.place? path = some goal := by
            rw [frame.directories.place?_eq, same, here, ← same, named]
          exact (Disk.held_of_place? leads).trans standing
        · -- another destination keeps what it held
          refine Current.of_published (inv.current path member) rfl here ?_
          refine frame.held_eq fun other leads h => ?_
          rcases h with h | h
          · rw [h] at leads
            exact free path member leads
          · rw [h, ← named, same, same] at leads
            exact here leads

theorem Inv.step_ends (inv : Inv initial finals world) (clear : world.Clear finals action)
    (listed : ∀ path, action.destination? = some path → path ∈ finals) :
    Ends (step action) world
      (fun _ => Reaches initial finals
        (fun place => world.Touches action place ∨ world.Installs action place) world)
      (fun _ => Reaches initial finals (world.Touches action) world) := by
  have more : ∀ next, Reaches initial finals (world.Touches action) world next → Reaches initial finals
      (fun place => world.Touches action place ∨ world.Installs action place) world next :=
    fun next h => ⟨h.1, h.2.mono fun _ => .inl⟩
  cases action with
  | create i path config =>
    exact (inv.create_ends path config clear (listed path rfl)).mono (fun _ => more) fun _ _ h => h
  | add i record => exact (inv.add_ends record clear).mono (fun _ => more) fun _ _ h => h
  | ingest i separator reads =>
    exact (inv.ingest_ends separator reads clear).mono (fun _ => more) fun _ _ h => h
  | finish i => exact inv.finish_ends clear
  | drop i => exact (inv.drop_ends clear).mono (fun _ => more) fun _ _ h => h

theorem Inv.next (inv : Inv initial finals world) (clear : world.Clear finals action)
    (listed : ∀ path, action.destination? = some path → path ∈ finals) :
    Reaches initial finals (fun place => world.Touches action place ∨ world.Installs action place) world
      (world.next action) := by
  have ends := inv.step_ends clear listed
  unfold World.next
  cases eq : step action world with
  | ok _ next => exact ends.of_ok eq
  | error e next =>
    have reaches := ends.of_error eq
    exact ⟨reaches.1, reaches.2.mono fun _ => .inl⟩

theorem Inv.frame_of_unpublished (inv : Inv initial finals world) (clear : world.Clear finals action)
    (listed : ∀ path, action.destination? = some path → path ∈ finals)
    (unpublished : (∀ i, action ≠ .finish i) ∨ ∃ e next, step action world = .error e next) :
    Disk.Frame (world.Touches action) world.disk (world.next action).disk := by
  rcases unpublished with other | ⟨e, next, failed⟩
  · apply (inv.next clear listed).2.mono
    intro place h
    rcases h with h | ⟨i, writer, finish, -⟩
    · exact h
    · exact absurd finish (other i)
  · unfold World.next
    rw [failed]
    exact ((inv.step_ends clear listed).of_error failed).2

theorem Inv.held_eq (inv : Inv initial finals world) (clear : world.Clear finals action)
    (listed : ∀ path, action.destination? = some path → path ∈ finals)
    (unpublished : (∀ i, action ≠ .finish i) ∨ ∃ e next, step action world = .error e next) :
    ∀ path ∈ finals, (world.next action).disk.held path = world.disk.held path := by
  intro path member
  have frame := inv.frame_of_unpublished clear listed unpublished
  exact frame.held_eq fun place named h => (inv.touches clear h).1 path member named

end World

end ConstDb
