import ConstDb.Error

/-!
# Settings

Settings for building and for opening databases. Settings that a caller puts together are
checked once, by `Config.check`.
-/

namespace ConstDb

structure Config where
  /-- How many bytes of output wait before they are written. -/
  bufferCapacity : Nat
  syncs : Bool
  /-- What is put behind the name of a database to name its unfinished file. -/
  tempSuffix : String
  maps : Bool
  deriving DecidableEq, Repr

namespace Config

def default : Config := ⟨8192, true, ".tmp", true⟩

instance : Inhabited Config := ⟨default⟩

def check (config : Config) : Except DbError Config :=
  if config.bufferCapacity = 0 then .error (.config .emptyBuffer)
  else if config.tempSuffix.isEmpty then .error (.config .emptySuffix)
  else .ok config

theorem check_default : default.check = .ok default := by
  simp [check, default]

end Config

end ConstDb
