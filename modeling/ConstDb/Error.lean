/-!
# Causes of failure

A failure is a cause, not a text: each constructor names what went wrong and holds the numbers
that say where. `DbError.message` is the one place where the wording lives.
-/

namespace ConstDb

/-! ## Failures of a device -/

/-- The kinds of failure that a sink, a source or a disk reports. The kinds that decide what a
caller does next, or that a disk reports by itself, have constructors of their own. -/
inductive IoKind where
  | notFound
  | alreadyExists
  | notADirectory
  | isADirectory
  | directoryNotEmpty
  | resourceBusy
  | invalidInput
  | invalidFilename
  | interrupted
  | unexpectedEof
  | writeZero
  | named (name : String)
  deriving DecidableEq, Repr, Inhabited

structure IoError where
  kind : IoKind
  message : String
  deriving DecidableEq, Repr, Inhabited

namespace IoError

/-- An interrupted call has done nothing and is worth trying again. -/
def isInterrupted (e : IoError) : Bool := e.kind = .interrupted

/-- A sink that takes no byte of a non-empty offer never will. -/
def acceptedNothing : IoError := ⟨.writeZero, "sink accepted zero bytes"⟩

/-- A source ends before the range that is asked for. -/
def sourceEnded : IoError := ⟨.unexpectedEof, "database ended before requested range"⟩

end IoError

/-! ## Failures of a database -/

inductive Truncation where
  | readPastEnd (length position size : Nat)
  /-- The source ends earlier than its length promises. -/
  | endedEarly (position : Nat)
  /-- A key to compare with runs past the end of the mapped bytes. -/
  | keyPastEnd (position : Nat)
  /-- The data of a matching record lies past the reach of 32-bit positions. -/
  | dataPastLimit (position : Nat)
  /-- The record area does not end between the header and the end of the source. -/
  | recordAreaEnd (stop size : Nat)
  | recordPastArea (position stop : Nat)
  deriving DecidableEq, Repr, Inhabited

inductive Overflow where
  | position (start length : Nat)
  | length (what : String) (count : Nat)
  deriving DecidableEq, Repr, Inhabited

inductive ConfigFault where
  | emptyBuffer
  | emptySuffix
  | emptySeparator
  deriving DecidableEq, Repr, Inhabited

/-- Why a call fails. Memory is assumed to suffice for what a builder remembers, for the tables that
it makes and for what a reader asks for: no cause stands for memory that is refused. -/
inductive DbError where
  | io (cause : IoError)
  | seek (cause : IoError)
  | truncated (cause : Truncation)
  | overflow (cause : Overflow)
  /-- An earlier failure has left the build unusable. -/
  | aborted
  | config (cause : ConfigFault)
  deriving DecidableEq, Repr, Inhabited

/-! ## Wording -/

def Truncation.message : Truncation → String
  | .readPastEnd length position size =>
    s!"read of {length} bytes at {position} exceeds database size {size}"
  | .endedEarly position => s!"database ended while reading at {position}"
  | .keyPastEnd position => s!"key at {position} runs past end of database"
  | .dataPastLimit position => s!"record at {position} points past 4 GiB"
  | .recordAreaEnd stop size => s!"record area end {stop} outside database of {size} bytes"
  | .recordPastArea position stop =>
    s!"record at {position} runs into the hash tables at {stop}"

def Overflow.message : Overflow → String
  | .position start count => s!"position {start} + {count} exceeds u32"
  | .length what count => s!"{what} length {count} exceeds u32"

def ConfigFault.message : ConfigFault → String
  | .emptyBuffer => "write_buffer_size must be greater than zero"
  | .emptySuffix => "temp_suffix must not be empty"
  | .emptySeparator => "separator must not be empty"

def DbError.message : DbError → String
  | .io cause => s!"IO error: {cause.message}"
  | .seek cause => s!"Seek failed: {cause.message}"
  | .truncated cause => s!"Truncated database: {cause.message}"
  | .overflow cause => s!"32-bit limit exceeded: {cause.message}"
  | .aborted => "Build aborted: an earlier add or finish failed"
  | .config cause => s!"Configuration error: {cause.message}"

end ConstDb
