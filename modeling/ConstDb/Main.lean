import ConstDb.Command.Usage

/-!
# The program

Carries a command line out on the files of the machine. The file that a command reads is put on a
disk of its own, and there the command runs as the library says (`Command.run`). What it has made
there takes the place of its output.
-/

namespace ConstDb.Program

def load (path : String) : IO Disk :=
  return ⟨[(["input"], .file 0)], #[← IO.FS.readBinFile path], []⟩

/-- Gives a file of the machine other bytes in one step. Nothing is synced: the runtime has no call
that does it. -/
def install (path : String) (bytes : ByteArray) : IO Unit := do
  let tempPath := tempPathFor path Config.default.tempSuffix
  try
    IO.FS.writeBinFile tempPath bytes
    IO.FS.rename tempPath path
  catch e =>
    discard (IO.FS.removeFile tempPath).toBaseIO
    throw e

def carryOut : Command → IO Answer
  | .make input separator output syncs => do
    let (answer, disk) := (Command.make "input" separator "output" syncs).run (← load input)
    if let .ok image := disk.read "output" then
      install output image
    return answer
  | .get path key all maps => return ((Command.get "input" key all maps).run (← load path)).1
  | .dump path separator => return ((Command.dump "input" separator).run (← load path)).1

def answer : Invocation → IO Answer
  | .carryOut command => carryOut command
  | .misuse => do
    IO.eprint Topic.program.text
    return Invocation.misuseAnswer
  | invocation => return (invocation.run .empty).1

end ConstDb.Program

def main (arguments : List String) : IO UInt32 := do
  try
    let answer ← ConstDb.Program.answer (ConstDb.Invocation.parse arguments)
    let stdout ← IO.getStdout
    stdout.write answer.output
    stdout.flush
    if let some e := answer.error then
      IO.eprintln e.message
    return answer.status.toUInt32
  catch e =>
    IO.eprintln s!"IO error: {e}"
    return 1
