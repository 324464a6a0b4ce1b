import ConstDb.Builder
import ConstDb.Config
import ConstDb.Disk.File
import ConstDb.Lines

/-!
# Drafts

A draft is a database under construction. It is written to a file of its own beside its
destination, and takes the name of the destination only when it is complete, in one step. However
a draft ends, its own file is gone afterwards.
-/

namespace ConstDb

structure Draft where
  builder : Builder
  handle : Disk.Handle
  /-- The name of the unfinished file. -/
  tempPath : String
  destination : String
  syncs : Bool
  deriving Inhabited

def tempPathFor (path suffix : String) : String := path ++ suffix

/-- Gives a complete file the name of its destination, after syncing it on demand. -/
def Disk.install (tempPath destination : String) (syncs : Bool) : Effect DbError Disk Unit := do
  if syncs then
    Disk.sync.adaptExcept .io
  (Disk.rename tempPath destination).adaptExcept .io

namespace Draft

def size (draft : Draft) : Nat := draft.builder.size

def create (path : String) (config : Config) : Effect DbError Disk Draft := do
  let tempPath := tempPathFor path config.tempSuffix
  let handle ← (Disk.create tempPath).adaptExcept .io
  let start : Effect DbError Disk Draft := fun disk =>
    match Builder.start Disk.Handle.calls config.bufferCapacity (handle, disk) with
    | .ok builder (handle, disk) => .ok ⟨builder, handle, tempPath, path, config.syncs⟩ disk
    | .error e (_, disk) => .error e disk
  -- the file is there from here on, and goes if no builder starts on it
  start.cleaningUp (Disk.remove tempPath)

def onBuilder {α : Type} (action : Effect DbError (Builder × Disk.Handle × Disk) α) :
    Effect DbError (Draft × Disk) α :=
  Effect.within
    (fun (⟨builder, handle, tempPath, destination, syncs⟩, disk) =>
      ((builder, handle, disk), fun (builder, handle, disk) =>
        (⟨builder, handle, tempPath, destination, syncs⟩, disk)))
    action

def add (record : Record) : Effect DbError (Draft × Disk) Unit :=
  onBuilder (Builder.add Disk.Handle.calls record)

def addLines (separator : UInt8) (reads : Reads) : Effect DbError (Draft × Disk) Nat :=
  Lines.addAll add separator reads

def discard (draft : Draft) (disk : Disk) : Disk :=
  match Disk.remove draft.tempPath disk with
  | .ok () disk | .error _ disk => disk

def complete (draft : Draft) : Effect DbError Disk Unit :=
  Effect.within (fun disk => ((draft, disk), Prod.snd))
    (onBuilder (Builder.finish Disk.Handle.calls))

def publish (draft : Draft) : Effect DbError Disk Unit :=
  Effect.cleaningUp
    (do
      draft.complete
      Disk.install draft.tempPath draft.destination draft.syncs)
    (Disk.remove draft.tempPath)

end Draft

/-! ## Databases from text files -/

def Disk.reads (disk : Disk) : Node → Reads
  | .directory => [.error Errno.isDirectory.toIoError]
  | .file id => Reads.ofBytes (disk.bytes id)

/-- Makes the database `output` from the lines of `input`, and answers the number of its
records. The input is opened before the unfinished file is made, and is read after that. -/
def makeDatabase (input : String) (separator : UInt8) (output : String) (config : Config) :
    Effect DbError Disk Nat := do
  let disk ← get
  let node ← Effect.ofExcept ((disk.openRead input).mapError .io)
  let draft ← Draft.create output config
  let (draft, count) ← fun disk =>
    match Draft.addLines separator (disk.reads node) (draft, disk) with
    | .ok count (draft, disk) => .ok (draft, count) disk
    | .error e (draft, disk) => .error e (draft.discard disk)
  draft.publish
  return count

end ConstDb
