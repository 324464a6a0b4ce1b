import ConstDb.Proofs.Plain
import ConstDb.Proofs.World

/-!
# Atomic publication

As long as nobody else gets at the unfinished files of writers, each destination holds what it held at
the start or the whole image of the records that the last successful publication there has accepted,
and writers leave no unfinished files behind (`atomic_publication`).
-/

namespace ConstDb.World

variable {initial disk : Disk} {finals : List String} {world : World} {action : Action} {i : Nat}
variable {place : Place}

/-! ## Unfinished files that are gone -/

theorem Inv.place?_eq (inv : Inv initial finals world) (text : String) :
    world.disk.place? text = initial.place? text := inv.directories.place?_eq text

theorem Inv.gone (inv : Inv initial finals world) {writer : Writer} (live : world.writers i = some writer)
    (ending : action = .finish i ∨ action = .drop i) (removed : world.removalFailure? action = none) :
    ∃ place, initial.place? writer.draft.tempPath = some place ∧
      (∀ final ∈ finals, initial.place? final ≠ some place) ∧
      (world.next action).disk.node? place = none := by
  obtain ⟨place, underway, listed, free⟩ := inv.underway live
  refine ⟨place, by rw [← inv.place?_eq, underway.named], ?_, ?_⟩
  · intro final member
    rw [← inv.place?_eq]
    exact free final member
  rcases ending with rfl | rfl
  · have ends := Draft.publish_ends inv.sound underway (free _ listed)
    simp only [removalFailure?, live] at removed
    cases eq : writer.draft.publish world.disk with
    | ok _ disk =>
      obtain ⟨-, goal, -, -, gone, -⟩ := ends.of_ok eq
      simpa only [World.next, step, live, eq, disk_put] using gone
    | error e disk =>
      have gone := (ends.of_error eq).2 removed
      simpa only [World.next, step, live, eq, disk_put] using gone
  · simp only [removalFailure?, live] at removed
    have gone := (Draft.discard_frame inv.sound underway).2 removed
    simpa only [World.next, step, live, disk_put] using gone

theorem Inv.stays_gone (inv : Inv initial finals world) (clear : world.Clear finals action)
    (listed : ∀ path, action.destination? = some path → path ∈ finals)
    (free : ∀ final ∈ finals, initial.place? final ≠ some place)
    (unopened : ∀ j path config, action = .create j path config →
      initial.place? (tempPathFor path config.tempSuffix) ≠ some place)
    (gone : world.disk.node? place = none) : (world.next action).disk.node? place = none := by
  rw [(inv.next clear listed).2.node_eq, gone]
  intro h
  -- the place would be opened, or have the file of a live writer, or be a destination
  rcases h with (opens | ⟨writer, live, named⟩) | ⟨j, writer, -, live, named⟩
  · cases action with
    | create j path config =>
      have named : world.disk.place? (tempPathFor path config.tempSuffix) = some place := by
        simp only [opens?, Disk.opens?] at opens
        split at opens
        · cases opens
        · split at opens
          · exact opens
          · cases opens
      rw [inv.place?_eq] at named
      exact unopened j path config rfl named
    | add | ingest | finish | drop => cases opens
  · obtain ⟨own, underway, -⟩ := inv.underway live
    rw [underway.named] at named
    cases named
    rw [underway.file] at gone
    cases gone
  · obtain ⟨-, -, member, -⟩ := inv.underway live
    rw [inv.place?_eq] at named
    exact free _ member named

/-! ## Runs -/

section steps
variable {draft draft' : Draft} {accepted : List Record}

theorem next_add (live : world.writers i = some ⟨draft, accepted⟩) {record : Record}
    (added : Draft.add record (draft, world.disk) = .ok () (draft', disk)) :
    world.next (.add i record) = world.put i disk (some ⟨draft', accepted ++ [record]⟩) := by
  simp only [World.next, step, live, added]

theorem next_finish (live : world.writers i = some ⟨draft, accepted⟩)
    (published : draft.publish world.disk = .ok () disk) :
    world.next (.finish i) = { world.put i disk none with
      published := (draft.destination, accepted) :: world.published } := by
  simp only [World.next, step, live, published]

theorem next_drop (live : world.writers i = some ⟨draft, accepted⟩) :
    world.next (.drop i) = world.put i (draft.discard world.disk) none := by
  simp only [World.next, step, live]

theorem removalFailure?_drop {writer : Writer} (live : world.writers i = some writer) :
    world.removalFailure? (.drop i) = (Disk.remove writer.draft.tempPath).failure? world.disk := by
  simp only [removalFailure?, live]
  rfl

theorem step_finish_error (live : world.writers i = some ⟨draft, accepted⟩) {e : DbError}
    (failed : draft.publish world.disk = .error e disk) :
    step (.finish i) world = .error e (world.put i disk none) := by
  simp only [step, live, failed]

theorem next_of_error {action : Action} {e : DbError} {world' : World}
    (failed : step action world = .error e world') : world.next action = world' := by
  simp only [World.next, failed]

end steps

theorem run_nil (world : World) : world.run [] = world := rfl

theorem run_concat (actions : List Action) (action : Action) :
    world.run (actions ++ [action]) = (world.run actions).next action := List.foldl_concat ..

theorem private_append {before after : List Action} {world : World} :
    Private finals world (before ++ after) ↔
      Private finals world before ∧ Private finals (world.run before) after := by
  induction before generalizing world with
  | nil => simp [Private, run]
  | cons action before ih => simp only [List.cons_append, Private, ih, and_assoc, run, List.foldl_cons]

theorem Inv.run {actions : List Action} {world : World} (inv : Inv initial finals world)
    (own : Private finals world actions)
    (listed : ∀ action ∈ actions, ∀ path, action.destination? = some path → path ∈ finals) :
    Inv initial finals (world.run actions) := by
  induction actions generalizing world with
  | nil => exact inv
  | cons action actions ih =>
    apply ih
    · exact (inv.next own.1 (listed action (List.mem_cons_self ..))).1
    · exact own.2
    · exact fun action member => listed action (List.mem_cons_of_mem _ member)

theorem inv_of_cut {actions before after : List Action} (sound : disk.Sound)
    (own : Private finals (start disk) actions)
    (listed : ∀ action ∈ actions, ∀ path, action.destination? = some path → path ∈ finals)
    (cut : before ++ after = actions) :
    Inv disk finals ((start disk).run before) ∧ Private finals ((start disk).run before) after := by
  subst cut
  obtain ⟨first, rest⟩ := private_append.1 own
  refine ⟨(inv_start sound).run first fun action member => ?_, rest⟩
  exact listed action (List.mem_append_left _ member)

theorem Inv.stays_gone_run {actions : List Action} {world : World} (inv : Inv initial finals world)
    (own : Private finals world actions)
    (listed : ∀ action ∈ actions, ∀ path, action.destination? = some path → path ∈ finals)
    (free : ∀ final ∈ finals, initial.place? final ≠ some place)
    (unopened : ∀ j path config, Action.create j path config ∈ actions →
      initial.place? (tempPathFor path config.tempSuffix) ≠ some place)
    (gone : world.disk.node? place = none) : (world.run actions).disk.node? place = none := by
  induction actions generalizing world with
  | nil => exact gone
  | cons action actions ih =>
    have here := listed action (List.mem_cons_self ..)
    apply ih
    · exact (inv.next own.1 here).1
    · exact own.2
    · exact fun action member => listed action (List.mem_cons_of_mem _ member)
    · intro j path config member
      exact unopened j path config (List.mem_cons_of_mem _ member)
    · apply inv.stays_gone own.1 here free ?_ gone
      intro j path config same
      exact unopened j path config (same ▸ List.mem_cons_self ..)

/-- **Atomic publication.** Whatever fails, and in whatever order the writers act: at any time each
destination holds what it held at the start or the image of the latest publication; only a
publication that succeeds changes what a destination holds; and after the end of a writer nothing
stands under the name of its unfinished file, unless its removal failed or somebody takes the name
again. -/
theorem atomic_publication (disk : Disk) (sound : disk.Sound) (actions : List Action)
    (own : Private (Action.destinations actions) (start disk) actions) :
    (∀ before, before <+: actions → ∀ path ∈ Action.destinations actions,
      Current disk ((start disk).run before) path) ∧
    (∀ before action, before ++ [action] <+: actions →
      let world := (start disk).run before
      (∀ i, action ≠ .finish i) ∨ (∃ e failed, step action world = .error e failed) →
      ∀ path ∈ Action.destinations actions, (world.next action).disk.held path = world.disk.held path) ∧
    ∀ before action after, before ++ action :: after <+: actions →
      let world := (start disk).run before
      ∀ i writer, world.writers i = some writer → action = .finish i ∨ action = .drop i →
        world.removalFailure? action = none →
        (∀ j path config, Action.create j path config ∈ after →
          disk.place? (tempPathFor path config.tempSuffix) ≠ disk.place? writer.draft.tempPath) →
        ((world.next action).run after).disk.held writer.draft.tempPath = .nothing := by
  have listed : ∀ action ∈ actions, ∀ path, action.destination? = some path →
      path ∈ Action.destinations actions :=
    fun action member path eq => List.mem_filterMap.2 ⟨action, member, eq⟩
  refine ⟨?_, ?_, ?_⟩
  · intro before h
    obtain ⟨after, cut⟩ := h
    exact (inv_of_cut sound own listed cut).1.current
  · intro before action h world unpublished
    obtain ⟨after, cut⟩ := h
    have cut : before ++ action :: after = actions := by rw [← cut, List.append_assoc]; rfl
    obtain ⟨inv, own⟩ := inv_of_cut sound own listed cut
    apply inv.held_eq own.1 ?_ unpublished
    exact listed action (cut ▸ List.mem_append_right _ (List.mem_cons_self ..))
  · intro before action after h world i writer live ending removed unopened
    obtain ⟨rest, cut⟩ := h
    have cut : before ++ action :: (after ++ rest) = actions := by rw [← cut, List.append_assoc]; rfl
    obtain ⟨inv, own⟩ := inv_of_cut sound own listed cut
    obtain ⟨place, named, free, gone⟩ := inv.gone live ending removed
    have member : ∀ other, other ∈ action :: after → other ∈ actions := by
      intro other h
      rw [← cut, ← List.cons_append]
      exact List.mem_append_right _ (List.mem_append_left _ h)
    have later : Inv disk (Action.destinations actions) (world.next action) :=
      (inv.next own.1 (listed action (member _ (List.mem_cons_self ..)))).1
    have first : Private (Action.destinations actions) (world.next action) after :=
      (private_append.1 own.2).1
    have listed' : ∀ action ∈ after, ∀ path, action.destination? = some path →
        path ∈ Action.destinations actions :=
      fun other h => listed other (member other (List.mem_cons_of_mem _ h))
    have unopened : ∀ j path config, Action.create j path config ∈ after →
        disk.place? (tempPathFor path config.tempSuffix) ≠ some place := by
      intro j path config h
      rw [← named]
      exact unopened j path config h
    have gone := later.stays_gone_run first listed' free unopened gone
    have named : ((world.next action).run after).disk.place? writer.draft.tempPath = some place := by
      rw [(later.run first listed').place?_eq, named]
    rw [Disk.held_of_place? named, Disk.standing, gone]

/-- The first writer is published while the second one is under way, and the second one gives up. -/
def twoWriters : List Action :=
  [.create 0 "db" .default, .create 1 "other" .default, .add 0 ⟨"key".toUTF8, "data".toUTF8⟩, .finish 0,
    .drop 1]

theorem clear_of_idle (idle : world.opens? action = none) : world.Clear finals action := by
  intro place eq
  rw [idle] at eq
  cases eq

theorem private_twoWriters : Private (Action.destinations twoWriters) (start .empty) twoWriters := by
  refine ⟨?_, ?_, clear_of_idle rfl, clear_of_idle rfl, clear_of_idle rfl, trivial⟩
  · intro place eq
    have opened : (start .empty).opens? (.create 0 "db" .default) = some ["db.tmp"] := by rfl
    obtain rfl := Option.some.inj (opened.symm.trans eq)
    exact ⟨by decide, fun _ _ live => by cases live⟩
  · intro place eq
    have opened : ((start .empty).next (.create 0 "db" .default)).opens? (.create 1 "other" .default) =
        some ["other.tmp"] := by rfl
    obtain rfl := Option.some.inj (opened.symm.trans eq)
    refine ⟨by decide, fun i writer live => ?_⟩
    by_cases first : i = 0
    · subst first
      cases live
      decide
    · have none : ((start .empty).next (.create 0 "db" .default)).writers i = none :=
        Function.update_of_ne first ..
      rw [none] at live
      cases live

def secondWriter : Writer := ⟨⟨.fresh 8192, ⟨1, headerSize⟩, "other.tmp", "other", true⟩, []⟩

theorem publish_first :
    let world := (start .empty).run (twoWriters.take 4)
    world.published = [("db", [⟨"key".toUTF8, "data".toUTF8⟩])] ∧ world.writers 1 = some secondWriter ∧
      world.removalFailure? (.drop 1) = none := by
  intro world
  let both : Disk := ⟨[(["other.tmp"], .file 1), (["db.tmp"], .file 0)], #[.empty, .empty], []⟩
  let writers : Nat → Option Writer :=
    Function.update (Function.update (fun _ => none) 0 (some ⟨.begun 0, []⟩)) 1 (some secondWriter)
  have created : (start .empty).run (twoWriters.take 2) = ⟨both, writers, []⟩ := by rfl
  have building : Draft.BuildingPlain both 0 .empty [] (.begun 0, both) :=
    Draft.buildingPlain_begun rfl Nat.zero_lt_two
  obtain ⟨draft, files, added, building, same⟩ :=
    Draft.add_plain ⟨"key".toUTF8, "data".toUTF8⟩ building (by decide)
  have installs : ∀ files : Array ByteArray, Disk.install draft.tempPath draft.destination draft.syncs
      ⟨both.names, files, []⟩ =
        .ok () ⟨[(["other.tmp"], .file 1), (["db"], .file 0)], files, []⟩ := by
    rw [same.tempPath_eq, same.destination_eq, same.syncs_eq]
    exact fun _ => by rfl
  obtain ⟨files', published, -, -⟩ := Draft.publish_plain building (by decide) installs
  have grown : (start .empty).run (twoWriters.take 3) = ⟨⟨both.names, files, []⟩,
      Function.update writers 0 (some ⟨draft, [⟨"key".toUTF8, "data".toUTF8⟩]⟩), []⟩ := by
    have parts : twoWriters.take 3 = twoWriters.take 2 ++ [.add 0 ⟨"key".toUTF8, "data".toUTF8⟩] := rfl
    have live : (⟨both, writers, []⟩ : World).writers 0 = some ⟨.begun 0, []⟩ := rfl
    rw [parts, run_concat, created, next_add live added]
    rfl
  have first : ((start .empty).run (twoWriters.take 3)).writers 0 =
      some ⟨draft, [⟨"key".toUTF8, "data".toUTF8⟩]⟩ := by
    rw [grown]
    rfl
  have finished : world = { ((start .empty).run (twoWriters.take 3)).put 0
        ⟨[(["other.tmp"], .file 1), (["db"], .file 0)], files', []⟩ none with
      published := [("db", [⟨"key".toUTF8, "data".toUTF8⟩])] } := by
    have parts : twoWriters.take 4 = twoWriters.take 3 ++ [.finish 0] := rfl
    have last : world = ((start .empty).run (twoWriters.take 3)).next (.finish 0) := by
      rw [← run_concat, ← parts]
    rw [last, next_finish first (by rw [grown]; exact published), same.destination_eq, grown]
    rfl
  have second : world.writers 1 = some secondWriter := by
    rw [finished, grown]
    rfl
  refine ⟨by rw [finished], second, ?_⟩
  rw [removalFailure?_drop second, finished]
  rfl

theorem atomic_publication_twoWriters :
    let world := (start .empty).run twoWriters
    Disk.empty.Sound ∧ Private (Action.destinations twoWriters) (start .empty) twoWriters ∧
      Current .empty world "db" ∧ Current .empty world "other" ∧
      world.published = [("db", [⟨"key".toUTF8, "data".toUTF8⟩])] ∧
      world.disk.held "db" = .file (Image.ofRecords [⟨"key".toUTF8, "data".toUTF8⟩]) ∧
      world.disk.held "other" = .nothing ∧ world.disk.held "other.tmp" = .nothing := by
  intro world
  obtain ⟨current, -, gone⟩ := atomic_publication .empty Disk.sound_empty twoWriters private_twoWriters
  have whole := current twoWriters List.prefix_rfl
  have db := whole "db" (by decide)
  have other := whole "other" (by decide)
  obtain ⟨first, live, removed⟩ := publish_first
  have last : world = ((start .empty).run (twoWriters.take 4)).next (.drop 1) := by
    have parts : twoWriters = twoWriters.take 4 ++ [.drop 1] := rfl
    rw [← run_concat, ← parts]
  have published : world.published = [("db", [⟨"key".toUTF8, "data".toUTF8⟩])] := by
    rw [last, next_drop live, published_put, first]
  have latest : world.latest? .empty "db" = some ("db", [⟨"key".toUTF8, "data".toUTF8⟩]) := by
    rw [latest?, published]
    rfl
  have unpublished : world.latest? .empty "other" = none := by
    rw [latest?, published]
    rfl
  have dropped := gone (twoWriters.take 4) (.drop 1) [] List.prefix_rfl 1 _ live (.inr rfl) removed
    fun _ _ _ member => absurd member List.not_mem_nil
  rw [← last, run_nil] at dropped
  have nothing : Disk.empty.held "other" = .nothing := by rfl
  exact ⟨Disk.sound_empty, private_twoWriters, db, other, published, (db.published latest).held,
    (other.unpublished unpublished).trans nothing, dropped⟩

end ConstDb.World
