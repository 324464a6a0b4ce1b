import ConstDb.Command.Arguments

/-!
# Answers to command lines

What the program prints about itself, and its answer to a whole command line.
-/

namespace ConstDb

def programVersion : String := "0.1.0"

def Topic.text : Topic → String
  | .program => "Build and query constant databases

Usage: scdb <COMMAND>

Commands:
  make  Build a database from a text file of `key<sep>value` lines
  get   Look up a key
  dump  Print every record as `key<sep>value`
  help  Print this message or the help of the given subcommand(s)

Options:
  -h, --help     Print help
  -V, --version  Print version
"
  | .make => "Build a database from a text file of `key<sep>value` lines

Usage: scdb make [OPTIONS] <INPUT> <SEP> <OUTPUT>

Arguments:
  <INPUT>   Input text file
  <SEP>     Separator between key and value (first byte is used)
  <OUTPUT>  Database file to create or replace

Options:
      --no-sync  Skip fsync around the install rename
  -h, --help     Print help
"
  | .get => "Look up a key

Usage: scdb get [OPTIONS] <DB> <KEY>

Arguments:
  <DB>   Database file
  <KEY>  The key to look up

Options:
  -a, --all      Print every value stored under the key
      --no-mmap  Read with positioned reads instead of a memory map
  -h, --help     Print help
"
  | .dump => "Print every record as `key<sep>value`

Usage: scdb dump [OPTIONS] <DB>

Arguments:
  <DB>  Database file

Options:
  -s, --sep <SEP>  Separator to print between key and value [default: =]
  -h, --help       Print help
"
  | .help => "Print this message or the help of the given subcommand(s)

Usage: scdb help [COMMAND]...

Arguments:
  [COMMAND]...  Print help for the subcommand(s)
"

namespace Invocation

def misuseAnswer : Answer := ⟨2, .empty, none⟩

def versionAnswer : Answer := .success (Command.line s!"scdb {programVersion}".toUTF8)

def helpAnswer (topic : Topic) : Answer := .success topic.text.toUTF8

def run (invocation : Invocation) (disk : Disk) : Answer × Disk :=
  match invocation with
  | .carryOut command => command.run disk
  | .help topic => (helpAnswer topic, disk)
  | .version => (versionAnswer, disk)
  | .misuse => (misuseAnswer, disk)

end Invocation

end ConstDb
