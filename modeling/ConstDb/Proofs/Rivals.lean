import ConstDb.Proofs.Plain
import ConstDb.Proofs.Publication

/-!
# Writers of one destination

Writers of one destination do not get in each other's way as long as their unfinished files are different
files (`rivals_atomic`). The name of an unfinished file says nothing about its writer. So two writers may
share one, and after one of them is published the other still writes into what is the destination by then
(`lateWriter_tears`).
-/

namespace ConstDb.World

open Disk Effect

variable {initial : Disk} {world : World} {path : String}

/-- The path holds what it held at first, or the whole image of a successful publication. -/
def Whole (initial : Disk) (world : World) (path : String) : Prop :=
  world.disk.held path = initial.held path ∨
    ∃ entry ∈ world.published, world.disk.HoldsImage path entry.2

theorem Current.whole (current : Current initial world path) : Whole initial world path := by
  cases found : world.latest? initial path with
  | none => exact .inl (current.unpublished found)
  | some entry => exact .inr ⟨entry, List.mem_of_find?_eq_some found, current.published found⟩

theorem Whole.of_image {image : ByteArray} (whole : Whole initial world path)
    (held : world.disk.held path = .file image) (other : initial.held path ≠ .file image) :
    ∃ entry ∈ world.published, image = Image.ofRecords entry.2 := by
  rcases whole with same | ⟨entry, member, holds⟩
  · exact absurd (same.symm.trans held) other
  · have held' := holds.held
    rw [held] at held'
    exact ⟨entry, member, Disk.Held.file.inj held'⟩

/-- **Rivals.** Any number of writers of one destination, whose unfinished files are different files as
long as they are under way: whatever fails, the destination is whole at any time, and changes by a
publication that succeeds only. -/
theorem rivals_atomic (disk : Disk) (sound : disk.Sound) (path : String) (actions : List Action)
    (rivals : ∀ action ∈ actions, ∀ other, action.destination? = some other → other = path)
    (own : Private [path] (start disk) actions) :
    (∀ before, before <+: actions → Whole disk ((start disk).run before) path) ∧
    ∀ before action, before ++ [action] <+: actions →
      let world := (start disk).run before
      (∀ i, action ≠ .finish i) ∨ (∃ e failed, step action world = .error e failed) →
      (world.next action).disk.held path = world.disk.held path := by
  have listed : ∀ action ∈ actions, ∀ other, action.destination? = some other → other ∈ [path] := by
    intro action member other eq
    rw [rivals action member other eq]
    exact List.mem_singleton_self path
  constructor
  · intro before h
    obtain ⟨after, cut⟩ := h
    exact ((inv_of_cut sound own listed cut).1.current path (List.mem_singleton_self path)).whole
  · intro before action h world unpublished
    obtain ⟨after, cut⟩ := h
    have cut : before ++ action :: after = actions := by rw [← cut, List.append_assoc]; rfl
    obtain ⟨inv, own⟩ := inv_of_cut sound own listed cut
    apply inv.held_eq own.1 ?_ unpublished path (List.mem_singleton_self path)
    exact listed action (cut ▸ List.mem_append_right _ (List.mem_cons_self ..))

def newConfig : Config := { Config.default with tempSuffix := ".new" }

def apartWriters : List Action :=
  [.create 0 "db" .default, .create 1 "db" newConfig, .add 1 ⟨"key".toUTF8, "data".toUTF8⟩, .finish 1,
    .finish 0]

theorem rivals_atomic_apartWriters : Disk.empty.Sound ∧ newConfig.check = .ok newConfig ∧
    Private ["db"] (start .empty) apartWriters ∧ Whole .empty ((start .empty).run apartWriters) "db" := by
  have own : Private ["db"] (start .empty) apartWriters := by
    refine ⟨?_, ?_, clear_of_idle rfl, clear_of_idle rfl, clear_of_idle rfl, trivial⟩
    · intro place eq
      have opened : (start .empty).opens? (.create 0 "db" .default) = some ["db.tmp"] := by rfl
      obtain rfl := Option.some.inj (opened.symm.trans eq)
      exact ⟨by decide, fun _ _ live => by cases live⟩
    · intro place eq
      have opened : ((start .empty).next (.create 0 "db" .default)).opens? (.create 1 "db" newConfig) =
          some ["db.new"] := by rfl
      obtain rfl := Option.some.inj (opened.symm.trans eq)
      refine ⟨by decide, fun i writer live => ?_⟩
      by_cases first : i = 0
      · subst first
        cases live
        decide
      · have none : ((start .empty).next (.create 0 "db" .default)).writers i = none :=
          Function.update_of_ne first ..
        rw [none] at live
        cases live
  have rivals : ∀ action ∈ apartWriters, ∀ other, action.destination? = some other → other = "db" := by
    simp [apartWriters, Action.destination?]
  refine ⟨Disk.sound_empty, by simp [Config.check, newConfig, Config.default], own, ?_⟩
  exact (rivals_atomic .empty Disk.sound_empty "db" apartWriters rivals own).1 _ List.prefix_rfl

/-! ## Writers that share an unfinished file -/

/-- Both writers have the unfinished file "db.tmp". The second one goes on when the first is published. -/
def lateWriter (record : Record) : List Action :=
  [.create 0 "db" .default, .create 1 "db" .default, .finish 0, .add 1 record, .finish 1]

theorem publish_begun : ∃ files : Array ByteArray, files.size = 1 ∧
    (Draft.begun 0).publish (oneName "db.tmp" #[.empty]) = .ok () (oneName "db" files) ∧
    (oneName "db" files).bytes 0 = Image.ofRecords [] := by
  have building : Draft.BuildingPlain (oneName "db.tmp" #[.empty]) 0 .empty []
      (.begun 0, oneName "db.tmp" #[.empty]) := Draft.buildingPlain_begun rfl Nat.zero_lt_one
  obtain ⟨files, published, size, written⟩ := Draft.publish_plain building (by decide) fun _ => by rfl
  exact ⟨files, size, published, written.trans (Bytes.overwrite_zero (Nat.zero_le _))⟩

/-- Both writers under way. -/
def sharing : Nat → Option Writer :=
  Function.update (Function.update (fun _ => none) 0 (some ⟨.begun 0, []⟩)) 1 (some ⟨.begun 0, []⟩)

theorem lateWriter_underway (record : Record) (fits : Image.Fits [record]) :
    ∃ files files' draft, (oneName "db" files).bytes 0 = Image.ofRecords [] ∧
      (start .empty).run ((lateWriter record).take 3) =
        ⟨oneName "db" files, Function.update sharing 0 none, [("db", [])]⟩ ∧
      (start .empty).run ((lateWriter record).take 4) = ⟨oneName "db" files',
        Function.update (Function.update sharing 0 none) 1 (some ⟨draft, [record]⟩), [("db", [])]⟩ ∧
      draft.tempPath = "db.tmp" ∧ Draft.BuildingPlain (oneName "db" files) 0 (Image.ofRecords []) [record]
        (draft, oneName "db" files') := by
  obtain ⟨files, stored, published, first⟩ := publish_begun
  have room : headerSize + Image.recordsSize ([] ++ [record]) ≤ Position.limit :=
    Nat.le_trans (Nat.le_add_right _ _) fits
  have plain : (oneName "db" files).fates = [] := rfl
  have inside : 0 < (oneName "db" files).files.size := Nat.lt_of_lt_of_eq Nat.zero_lt_one stored.symm
  obtain ⟨draft, files', added, building, same⟩ :=
    Draft.add_plain record (Draft.buildingPlain_begun plain inside) room
  have created : (start .empty).run ((lateWriter record).take 2) =
      ⟨oneName "db.tmp" #[.empty], sharing, []⟩ := by rfl
  have finished : (start .empty).run ((lateWriter record).take 3) =
      ⟨oneName "db" files, Function.update sharing 0 none, [("db", [])]⟩ := by
    have parts : (lateWriter record).take 3 = (lateWriter record).take 2 ++ [.finish 0] := rfl
    have live : (⟨oneName "db.tmp" #[.empty], sharing, []⟩ : World).writers 0 = some ⟨.begun 0, []⟩ := rfl
    rw [parts, run_concat, created]
    exact next_finish live published
  refine ⟨files, files', draft, first, finished, ?_, same.tempPath_eq, first ▸ building⟩
  have parts : (lateWriter record).take 4 = (lateWriter record).take 3 ++ [.add 1 record] := rfl
  have live : (⟨oneName "db" files, Function.update sharing 0 none, [("db", [])]⟩ : World).writers 1 =
      some ⟨.begun 0, []⟩ := rfl
  rw [parts, run_concat, finished]
  exact next_add live added

/-- The second writer is not published, and yet the destination holds its records then. -/
theorem lateWriter_tears (record : Record) (fits : Image.Fits [record]) :
    ((start .empty).run ((lateWriter record).take 3)).disk.held "db" = .file (Image.ofRecords []) ∧
    ∃ e, ∃ last : World,
      step (.finish 1) ((start .empty).run ((lateWriter record).take 4)) = .error e last ∧
      (start .empty).run (lateWriter record) = last ∧ last.published = [("db", [])] ∧
      last.disk.held "db" = .file (Image.ofRecords [record]) := by
  obtain ⟨files, files', draft, first, finished, underway, tempPath_eq, building⟩ :=
    lateWriter_underway record fits
  have missing : (oneName "db" files).Missing draft.tempPath := by
    rw [tempPath_eq]
    exact ⟨["db.tmp"], by rfl, by rfl⟩
  have refused := Draft.publish_late building fits missing
  constructor
  · rw [finished]
    exact (held_oneName rfl).trans (congrArg Disk.Held.file first)
  · cases eq : draft.publish (oneName "db" files') with
    | ok _ disk => exact (refused.of_ok eq).elim
    | error e disk =>
      obtain ⟨names, torn⟩ := refused.of_error eq
      have longer : (Image.ofRecords []).size ≤ (Image.ofRecords [record]).size := by
        simp only [Image.size_ofRecords, Image.tableStart_bucketCount]
        exact Nat.add_le_add (Nat.add_le_add_left (Nat.zero_le _) _) (Nat.zero_le _)
      rw [Bytes.overwrite_zero longer] at torn
      have live : (⟨oneName "db" files', Function.update (Function.update sharing 0 none) 1
          (some ⟨draft, [record]⟩), [("db", [])]⟩ : World).writers 1 = some ⟨draft, [record]⟩ := rfl
      have failed := step_finish_error live eq
      rw [← underway] at failed
      have parts : lateWriter record = (lateWriter record).take 4 ++ [.finish 1] := rfl
      refine ⟨e, _, failed, ?_, by rw [underway]; rfl, (held_oneName names).trans (congrArg Held.file torn)⟩
      rw [congrArg (start .empty).run parts, run_concat, next_of_error failed]

theorem rivals_not_atomic : Config.default.check = .ok .default ∧
    ¬ Whole .empty ((start .empty).run (lateWriter ⟨"k".toUTF8, "v".toUTF8⟩)) "db" := by
  refine ⟨Config.check_default, fun whole => ?_⟩
  obtain ⟨-, e, last, -, same, published, held⟩ := lateWriter_tears ⟨"k".toUTF8, "v".toUTF8⟩ (by decide)
  rw [same] at whole
  have other : Disk.empty.held "db" ≠ .file (Image.ofRecords [⟨"k".toUTF8, "v".toUTF8⟩]) := by
    intro here
    cases here
  obtain ⟨entry, member, eq⟩ := whole.of_image held other
  rw [published, List.mem_singleton] at member
  have sizes := congrArg ByteArray.size eq
  rw [member, Image.size_ofRecords, Image.size_ofRecords] at sizes
  revert sizes
  decide

end ConstDb.World
