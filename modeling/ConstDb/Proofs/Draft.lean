import ConstDb.Draft
import ConstDb.Proofs.Builder
import ConstDb.Proofs.Disk.File
import ConstDb.Proofs.Lines

/-!
# Drafts on a disk

What holds of any builder says of a draft that it writes to its own file only, and that the file holds
the image of the accepted records when the draft is complete (`Underway`, `publish_ends`).
-/

namespace ConstDb

open Effect

section install
variable {disk : Disk} {place : Place} {id : FileId} {tempPath destination : String}

theorem Disk.install_ends (syncs : Bool) (sound : disk.Sound) (named : disk.place? tempPath = some place)
    (file : disk.node? place = some (.file id)) (unlike : disk.place? destination ≠ some place) :
    Ends (Disk.install tempPath destination syncs) disk
      (fun _ next => ∃ goal, disk.place? destination = some goal ∧
        Disk.Frame (fun other => other = place ∨ other = goal) disk next ∧ next.node? place = none ∧
        next.standing goal = .file (disk.bytes id) ∧
        ∀ other, other < disk.files.size → other ≠ id → Disk.Undisturbed other disk next)
      (fun _ next => Disk.Frame (· = place) disk next) := by
  apply Disk.install_of_rename syncs
  · intro synced names files
    have still : ∀ changed, Disk.Frame changed disk synced := fun _ => Disk.frame_of_same sound names files
    have same := (still fun _ => False).directories
    have file' : synced.node? place = some (.file id) := by rw [Disk.node?_of_names names, file]
    have bytes := (still fun _ => False).bytes_eq not_false file
    refine (Disk.rename_ends (still fun _ => False).sound ?_ file' ?_).mono ?_ ?_
    · rw [same.place?_eq, named]
    · rwa [same.place?_eq]
    · intro _ next h
      obtain ⟨goal, named', frame, gone, taken, others⟩ := h
      rw [same.place?_eq] at named'
      rw [bytes] at taken
      refine ⟨goal, named', (still _).trans frame, gone, taken, fun other stored apart => ?_⟩
      have first := (still fun _ => False).undisturbed stored fun _ => False.elim
      exact first.trans (others other apart)
    · exact fun _ next frame => (still _).trans frame
  · exact fun next names files => Disk.frame_of_same sound names files

end install

/-- The path holds the image of the records, and that is what a builder makes of them with any buffer. -/
structure Disk.HoldsImage (disk : Disk) (text : String) (records : List Record) : Prop where
  held : disk.held text = .file (Image.ofRecords records)
  built : ∀ capacity, imageOf capacity records = .ok (Image.ofRecords records)

section image
variable {disk : Disk} {text : String} {records : List Record}

theorem Disk.holdsImage_of_fits (fits : Image.Fits records)
    (held : disk.held text = .file (Image.ofRecords records)) : disk.HoldsImage text records :=
  ⟨held, fun _ => Builder.imageOf_eq_ok_iff.2 ⟨fits, rfl⟩⟩

theorem Disk.HoldsImage.fits (holds : disk.HoldsImage text records) : Image.Fits records :=
  (Builder.imageOf_eq_ok_iff.1 (holds.built 0)).1

end image

/-! ## Drafts under construction -/

namespace Draft

/-- A draft whose unfinished file stands at a place, and that has accepted just these records. -/
structure Underway (disk : Disk) (place : Place) (accepted : List Record) (draft : Draft) : Prop where
  named : disk.place? draft.tempPath = some place
  file : disk.node? place = some (.file draft.handle.file)
  kept : Builder.Kept (Disk.Handle.Shows disk draft.handle.file) .empty accepted
    (draft.builder, draft.handle, disk)

variable {start disk next : Disk} {place : Place} {accepted : List Record} {draft first : Draft}

theorem Underway.of_frame {changed : Place → Prop} (underway : Underway disk place accepted draft)
    (frame : Disk.Frame changed disk next) (still : ¬ changed place) :
    Underway next place accepted draft := by
  have file : next.node? place = some (.file draft.handle.file) := by
    rw [frame.node_eq still, underway.file]
  refine ⟨by rw [frame.directories.place?_eq, underway.named], file, ?_⟩
  refine underway.kept.of_shows fun content offset shown => ?_
  refine ⟨shown.handle_eq, rfl, rfl, fun _ _ => rfl, ?_, frame.sound.stored file⟩
  rw [← shown.content_eq]
  exact frame.bytes_eq still underway.file

theorem underway_of_kept (draft : Draft) {id : FileId} (sound : disk.Sound)
    (named : disk.place? draft.tempPath = some place)
    (file : disk.node? place = some (.file id))
    (kept : Builder.Kept (Disk.Handle.Shows disk id) .empty accepted (draft.builder, draft.handle, next)) :
    Underway next place accepted draft ∧ Disk.Frame (· = place) disk next := by
  obtain ⟨content, offset, shown⟩ := kept.shown
  obtain ⟨frame, file⟩ := shown.frame sound file
  have handle_eq : draft.handle = ⟨id, offset⟩ := shown.handle_eq
  have same : draft.handle.file = id := by rw [handle_eq]
  refine ⟨⟨?_, by rw [file, same], ?_⟩, frame⟩
  · rw [frame.directories.place?_eq, named]
  · rw [same]
    exact kept.of_shows fun content offset shown => shown.restart

/-! ## Creating -/

theorem create_ends (path : String) (config : Config) (sound : disk.Sound) :
    Ends (create path config) disk
      (fun draft next => draft.tempPath = tempPathFor path config.tempSuffix ∧ draft.destination = path ∧
        Builder.Books [] draft.builder ∧ draft.builder.failed = false ∧
        ∃ place, disk.opens? (tempPathFor path config.tempSuffix) = some place ∧
          Underway next place [] draft ∧ Disk.Frame (· = place) disk next)
      (fun _ next => Disk.Frame
        (fun place => disk.opens? (tempPathFor path config.tempSuffix) = some place) disk next) := by
  refine Ends.bind (Ends.adaptExcept ?_)
  cases opened : Disk.create (tempPathFor path config.tempSuffix) disk with
  | error e next => exact ends_of_error opened (Disk.frame_of_error sound opened)
  | ok handle between =>
    refine ends_of_ok opened ?_
    obtain ⟨place, named, at_start, frame, file, empty⟩ := Disk.create_ok sound opened
    have opens : disk.opens? (tempPathFor path config.tempSuffix) = some place := by
      simp [Disk.opens?, opened, named]
    have named' : between.place? (tempPathFor path config.tempSuffix) = some place := by
      rw [frame.directories.place?_eq, named]
    obtain ⟨id, offset⟩ := handle
    obtain rfl : offset = 0 := at_start
    have shown : Disk.Handle.Shows between id (⟨id, 0⟩, between) .empty 0 :=
      empty ▸ Disk.Handle.shows_self (frame.sound.stored file)
    have ends := Builder.start_ends (Disk.Handle.fileLike between id) config.bufferCapacity shown
    have after : ∀ next, Disk.Frame (· = place) between next → Disk.Frame
        (fun place => disk.opens? (tempPathFor path config.tempSuffix) = some place) disk next := by
      intro next frame'
      apply (frame.trans frame').mono
      intro other here
      rw [here, opens]
    -- from here on the file is there, and a builder that does not start has it removed
    refine Ends.cleaningUp (?_ : Ends _ _ _ fun _ next => Disk.Frame (· = place) between next) ?_
    · cases started : Builder.start Disk.Handle.calls config.bufferCapacity (⟨id, 0⟩, between) with
      | ok builder state =>
        obtain ⟨handle, next⟩ := state
        have building := ends.of_ok started
        have books := (Builder.building_iff.1 building).toBooks
        obtain ⟨underway, frame'⟩ := underway_of_kept
          ⟨builder, handle, tempPathFor path config.tempSuffix, path, config.syncs⟩
          frame.sound named' file (.inl building)
        exact ends_of_ok (by simp only [started])
          ⟨rfl, rfl, books, building.trusted, place, opens, underway, frame.trans frame'⟩
      | error e state =>
        obtain ⟨handle, next⟩ := state
        obtain ⟨-, content, offset, shown⟩ := ends.of_error started
        exact ends_of_error (e := e) (by simp only [started]) (shown.frame frame.sound file).1
    · intro e next frame'
      have named'' : next.place? (tempPathFor path config.tempSuffix) = some place := by
        rw [frame'.directories.place?_eq, named']
      refine (Disk.remove_ends frame'.sound named'').mono ?_ ?_
      · exact fun _ last h => after last (frame'.trans h.1)
      · exact fun _ last h => after last (frame'.trans h)

/-- A draft that was created has accepted nothing. -/
theorem of_create {path : String} {config : Config} (sound : disk.Sound)
    (created : create path config disk = .ok draft next)
    (named : disk.place? (tempPathFor path config.tempSuffix) = some place) :
    next.Sound ∧ Underway next place [] draft ∧ Builder.Books [] draft.builder ∧
      draft.builder.failed = false := by
  obtain ⟨tempPath_eq, -, books, trusted, place', -, underway, frame⟩ :=
    (create_ends path config sound).of_ok created
  have named' := underway.named
  rw [frame.directories.place?_eq, tempPath_eq, named] at named'
  cases named'
  exact ⟨frame.sound, underway, books, trusted⟩

/-! ## Adding records -/

/-- Where additions to a draft lead: to the same draft with more records, and the disk differs in its
file only. -/
structure Continues (start : Disk) (first : Draft) (place : Place) (state : List Record × Draft × Disk) :
    Prop where
  underway : Underway state.2.2 place state.1 state.2.1
  frame : Disk.Frame (· = place) start state.2.2
  tempPath_eq : state.2.1.tempPath = first.tempPath
  destination_eq : state.2.1.destination = first.destination

theorem onBuilder_ends {α : Type} {action : Effect DbError (Builder × Disk.Handle × Disk) α}
    {post : α → Draft × Disk → Prop} {failed : DbError → Draft × Disk → Prop}
    (ends : Ends action (draft.builder, draft.handle, disk)
      (fun a t => post a ({ draft with builder := t.1, handle := t.2.1 }, t.2.2))
      fun e t => failed e ({ draft with builder := t.1, handle := t.2.1 }, t.2.2)) :
    Ends (onBuilder action) (draft, disk) post failed :=
  Ends.within ends

theorem add_ends (record : Record) (continues : Continues start first place (accepted, draft, disk)) :
    Ends (add record) (draft, disk)
      (fun _ t => Continues start first place (accepted ++ [record], t))
      (fun _ t => Continues start first place (accepted, t)) := by
  obtain ⟨underway, frame, tempPath_eq, destination_eq⟩ := continues
  have next : ∀ accepted' (t : Builder × Disk.Handle × Disk),
      Builder.Kept (Disk.Handle.Shows disk draft.handle.file) .empty accepted' t →
        Continues start first place (accepted', { draft with builder := t.1, handle := t.2.1 }, t.2.2) := by
    intro accepted' t kept
    obtain ⟨underway', frame'⟩ := underway_of_kept { draft with builder := t.1, handle := t.2.1 }
      frame.sound underway.named underway.file kept
    exact ⟨underway', frame.trans frame', tempPath_eq, destination_eq⟩
  have ends := Builder.add_ends (Disk.Handle.fileLike disk draft.handle.file) record underway.kept
  refine onBuilder_ends (ends.mono ?_ ?_)
  · intro _ t building
    exact next _ t (.inl building)
  · intro e t failed
    exact next _ t (.inr failed.2)

/-- The records that a draft has accepted after the lines of an input. -/
def acceptedLines (accepted : List Record) (separator : UInt8) (reads : Reads) (state : Draft × Disk) :
    List Record :=
  match Lines.addAll (Lines.noting add) separator reads (accepted, state) with
  | .ok _ noted | .error _ noted => noted.1

theorem addLines_ends (separator : UInt8) (reads : Reads)
    (continues : Continues start first place (accepted, draft, disk)) :
    Ends (addLines separator reads) (draft, disk)
      (fun _ t => Continues start first place (acceptedLines accepted separator reads (draft, disk), t))
      (fun _ t => Continues start first place (acceptedLines accepted separator reads (draft, disk), t)) := by
  have keeps : ∀ record state, Continues start first place state →
      Ends (Lines.noting add record) state (fun _ => Continues start first place)
        fun _ => Continues start first place :=
    fun record state h => Lines.noting_ends (add_ends record h)
  have kept := Lines.addReads_ends keeps separator reads [] 0 continues
  have follows := Lines.addReads_follows add separator reads [] 0 accepted (draft, disk)
  unfold acceptedLines Lines.addAll
  cases eq : Lines.addReads (Lines.noting add) separator reads [] 0 (accepted, draft, disk) with
  | ok count noted => exact ends_of_ok (follows.of_ok eq) (kept.of_ok eq)
  | error e noted => exact ends_of_error (follows.of_error eq) (kept.of_error eq)

/-! ## Finishing and giving up -/

/-- The part of publishing that may fail and is cleaned up after. -/
def installing (draft : Draft) : Effect DbError Disk Unit := do
  draft.complete
  Disk.install draft.tempPath draft.destination draft.syncs

theorem publish_eq (draft : Draft) :
    draft.publish = draft.installing.cleaningUp (Disk.remove draft.tempPath) := rfl

theorem complete_ends (sound : disk.Sound) (underway : Underway disk place accepted draft) :
    Ends draft.complete disk
      (fun _ next => Image.Fits accepted ∧ Disk.Frame (· = place) disk next ∧
        next.node? place = some (.file draft.handle.file) ∧
        next.bytes draft.handle.file = Image.ofRecords accepted)
      (fun _ next => Disk.Frame (· = place) disk next) := by
  refine Ends.within (onBuilder_ends ?_)
  have ends := Builder.finish_ends (Disk.Handle.fileLike disk draft.handle.file) underway.kept
  refine ends.mono ?_ ?_
  · intro _ state h
    obtain ⟨builder, handle, next⟩ := state
    obtain ⟨fits, -, offset, shown⟩ := h
    obtain ⟨frame, file⟩ := shown.frame sound underway.file
    rw [Bytes.overwrite_zero (by simp)] at shown
    exact ⟨fits, frame, file, shown.content_eq⟩
  · intro e state h
    obtain ⟨builder, handle, next⟩ := state
    obtain ⟨-, content, offset, shown⟩ := h
    exact (shown.frame sound underway.file).1

theorem installing_ends (sound : disk.Sound) (underway : Underway disk place accepted draft)
    (unlike : disk.place? draft.destination ≠ some place) :
    Ends draft.installing disk
      (fun _ next => Image.Fits accepted ∧ ∃ goal, disk.place? draft.destination = some goal ∧
        Disk.Frame (fun other => other = place ∨ other = goal) disk next ∧ next.node? place = none ∧
        next.standing goal = .file (Image.ofRecords accepted) ∧
        ∀ other, other < disk.files.size → other ≠ draft.handle.file → Disk.Undisturbed other disk next)
      (fun _ next => Disk.Frame (· = place) disk next) := by
  refine Ends.bind ((complete_ends sound underway).mono ?_ fun _ _ h => h)
  intro _ complete h
  obtain ⟨fits, frame, file, bytes⟩ := h
  have same := frame.directories
  refine (Disk.install_ends draft.syncs frame.sound ?_ file ?_).mono ?_ ?_
  · rw [same.place?_eq, underway.named]
  · rwa [same.place?_eq]
  · intro _ next h
    obtain ⟨goal, named, frame', gone, taken, others⟩ := h
    rw [same.place?_eq] at named
    rw [bytes] at taken
    refine ⟨fits, goal, named, (frame.mono fun _ => .inl).trans frame', gone, taken, ?_⟩
    intro other stored apart
    have first : Disk.Undisturbed other disk complete := by
      apply frame.undisturbed stored
      intro here eq file'
      rw [eq, underway.file] at file'
      cases file'
      exact apart rfl
    exact first.trans (others other (Nat.lt_of_lt_of_le stored frame.larger) apart)
  · exact fun _ next frame' => frame.trans frame'

/-- **Publishing.** Either the destination holds the whole image of the accepted records, or only the
unfinished file was touched; its name is gone, unless it had to be removed and could not be. No other
file is touched, also not the one that had the name of the destination. -/
theorem publish_ends (sound : disk.Sound) (underway : Underway disk place accepted draft)
    (unlike : disk.place? draft.destination ≠ some place) :
    Ends draft.publish disk
      (fun _ next => Image.Fits accepted ∧ ∃ goal, disk.place? draft.destination = some goal ∧
        Disk.Frame (fun other => other = place ∨ other = goal) disk next ∧ next.node? place = none ∧
        next.standing goal = .file (Image.ofRecords accepted) ∧
        ∀ other, other < disk.files.size → other ≠ draft.handle.file → Disk.Undisturbed other disk next)
      (fun _ next => Disk.Frame (· = place) disk next ∧
        (draft.installing.cleanupFailure? (Disk.remove draft.tempPath) disk = none →
          next.node? place = none)) := by
  rw [publish_eq]
  have ends := installing_ends sound underway unlike
  cases eq : draft.installing disk with
  | ok _ next => exact ends_of_ok (by simp only [cleaningUp, eq]; rfl) (ends.of_ok eq)
  | error e between =>
    have frame := ends.of_error eq
    have named : between.place? draft.tempPath = some place := by
      rw [frame.directories.place?_eq, underway.named]
    have removed := Disk.remove_ends frame.sound named
    cases clean : Disk.remove draft.tempPath between with
    | ok _ next =>
      obtain ⟨frame', gone⟩ := removed.of_ok clean
      exact ends_of_error (by simp only [cleaningUp, eq, clean]; rfl) ⟨frame.trans frame', fun _ => gone⟩
    | error e' next =>
      refine ends_of_error (by simp only [cleaningUp, eq, clean]; rfl)
        ⟨frame.trans (removed.of_error clean), fun cleaned => ?_⟩
      simp [cleanupFailure?, failure?, eq, clean] at cleaned

theorem discard_frame (sound : disk.Sound) (underway : Underway disk place accepted draft) :
    Disk.Frame (· = place) disk (draft.discard disk) ∧
      ((Disk.remove draft.tempPath).failure? disk = none → (draft.discard disk).node? place = none) := by
  have removed := Disk.remove_ends sound underway.named
  unfold discard failure?
  cases clean : Disk.remove draft.tempPath disk with
  | ok _ next =>
    obtain ⟨frame, gone⟩ := removed.of_ok clean
    exact ⟨frame, fun _ => gone⟩
  | error e next => exact ⟨removed.of_error clean, fun none => by cases none⟩

/-! ## Drafts that take everything

On a disk where no call fails a draft takes all records that fit, and what it leaves can be installed. -/

/-- A draft under construction that writes over `old`. -/
abbrev Building (shows : Disk.Handle × Disk → ByteArray → Nat → Prop) (old : ByteArray)
    (accepted : List Record) (state : Draft × Disk) : Prop :=
  Builder.Building shows old accepted (state.1.builder, state.1.handle, state.2)

/-- The same unfinished file, made for the same destination. -/
structure SameAims (first draft : Draft) : Prop where
  tempPath_eq : draft.tempPath = first.tempPath
  destination_eq : draft.destination = first.destination
  syncs_eq : draft.syncs = first.syncs

theorem SameAims.trans {first second third : Draft} (same : SameAims first second)
    (same' : SameAims second third) : SameAims first third :=
  ⟨same'.tempPath_eq.trans same.tempPath_eq, same'.destination_eq.trans same.destination_eq,
    same'.syncs_eq.trans same.syncs_eq⟩

section sure
variable {shows : Disk.Handle × Disk → ByteArray → Nat → Prop} {old : ByteArray}

theorem add_sure (sure : FileLike Disk.Handle.calls shows False) (record : Record)
    (building : Building shows old accepted (draft, disk))
    (fits : headerSize + Image.recordsSize (accepted ++ [record]) ≤ Position.limit) :
    ∃ draft' next, add record (draft, disk) = .ok () (draft', next) ∧
      Building shows old (accepted ++ [record]) (draft', next) ∧ SameAims draft draft' := by
  obtain ⟨_, t, eq, building'⟩ := (Builder.add_ends sure record (.inl building)).exists_ok fun e t failed => by
    rcases failed.1 with never | failed | long
    · exact never
    · exact Bool.false_ne_true (building.trusted.symm.trans failed)
    · exact Nat.not_lt_of_le fits long
  obtain ⟨builder, handle, next⟩ := t
  have eq : Builder.add Disk.Handle.calls record (draft.builder, draft.handle, disk) = _ := eq
  refine ⟨{ draft with builder, handle }, next, ?_, building', rfl, rfl, rfl⟩
  simp only [add, onBuilder, within, eq]

theorem forM_sure (sure : FileLike Disk.Handle.calls shows False) :
    ∀ (more : List Record) {accepted : List Record} {draft : Draft} {disk : Disk},
      Building shows old accepted (draft, disk) →
      headerSize + Image.recordsSize (accepted ++ more) ≤ Position.limit →
      ∃ draft' next, more.forM add (draft, disk) = .ok () (draft', next) ∧
        Building shows old (accepted ++ more) (draft', next) ∧ SameAims draft draft'
  | [], accepted, draft, disk, building, _ => by
    rw [List.append_nil]
    exact ⟨draft, disk, rfl, building, rfl, rfl, rfl⟩
  | record :: more, accepted, draft, disk, building, fits => by
    rw [← List.singleton_append, ← List.append_assoc] at fits ⊢
    have first : headerSize + Image.recordsSize (accepted ++ [record]) ≤ Position.limit := by
      rw [Image.recordsSize_append] at fits
      omega
    obtain ⟨draft', next, added, building, same⟩ := add_sure sure record building first
    obtain ⟨last, next', rest, building, same'⟩ := forM_sure sure more building fits
    refine ⟨last, next', ?_, building, same.trans same'⟩
    have parts : (record :: more).forM add = add record >>= fun _ => more.forM add := rfl
    rw [List.singleton_append, parts, bind_apply, added]
    exact rest

theorem complete_sure (sure : FileLike Disk.Handle.calls shows False)
    (building : Building shows old accepted (draft, disk)) (fits : Image.Fits accepted) :
    ∃ handle next offset, draft.complete disk = .ok () next ∧
      shows (handle, next) (Bytes.overwrite old 0 (Image.ofRecords accepted)) offset := by
  obtain ⟨_, t, eq, -, -, offset, shown⟩ :=
    (Builder.finish_ends sure (.inl building)).exists_ok fun e t failed => by
      rcases failed.1 with never | failed | unfit
      · exact never
      · exact Bool.false_ne_true (building.trusted.symm.trans failed.1)
      · exact unfit.1 fits
  obtain ⟨builder, handle, next⟩ := t
  have eq : Builder.finish Disk.Handle.calls (draft.builder, draft.handle, disk) = _ := eq
  refine ⟨handle, next, offset, ?_, shown⟩
  simp only [complete, onBuilder, within, eq]

theorem publish_sure (sure : FileLike Disk.Handle.calls shows False)
    (building : Building shows old accepted (draft, disk)) (fits : Image.Fits accepted)
    {post : Disk → Prop}
    (installs : ∀ handle next offset,
      shows (handle, next) (Bytes.overwrite old 0 (Image.ofRecords accepted)) offset →
      ∃ last, Disk.install draft.tempPath draft.destination draft.syncs next = .ok () last ∧ post last) :
    ∃ last, draft.publish disk = .ok () last ∧ post last := by
  obtain ⟨handle, next, offset, completed, shown⟩ := complete_sure sure building fits
  obtain ⟨last, installed, h⟩ := installs handle next offset shown
  exact ⟨last, by simp only [publish, cleaningUp, bind_apply, completed, installed], h⟩

end sure

end Draft

end ConstDb
