import ConstDb.Command

/-!
# Command lines

A command line names a command and then gives its operands and options, in any order. Options
have a long name behind two dashes or a letter behind one; letters can stand together, and the
value of an option can stand in the same argument or in the next one. Behind two dashes alone
all arguments are operands.
-/

namespace ConstDb

/-! ## Grammars -/

/-- What an operand is. A path cannot be empty. -/
inductive OperandKind where
  | path
  | text
  deriving DecidableEq, Repr, Inhabited

structure OptionSpec where
  long : String
  letter : Option Char
  takesValue : Bool
  deriving DecidableEq, Repr, Inhabited

structure Grammar where
  operands : List OperandKind
  options : List OptionSpec
  deriving Repr, Inhabited

/-- Why a command line names no command to carry out. -/
inductive Detour where
  | help
  | misuse
  deriving DecidableEq, Repr, Inhabited

namespace Grammar

structure Reading where
  /-- The operands, the last one first. -/
  operands : List String
  /-- The options and their values; an option without a value has an empty one. -/
  options : List (String × String)
  awaiting : Option String
  operandsOnly : Bool
  deriving DecidableEq, Repr, Inhabited

namespace Reading

def start : Reading := ⟨[], [], none, false⟩

/-- Takes note of an option. None may be given twice, or while another waits for its value. -/
def addOption (reading : Reading) (long value : String) : Except Detour Reading :=
  if reading.awaiting.isSome || (reading.options.lookup long).isSome then .error .misuse
  else .ok { reading with options := (long, value) :: reading.options }

def await (reading : Reading) (long : String) : Except Detour Reading :=
  if reading.awaiting.isSome then .error .misuse
  else .ok { reading with awaiting := some long }

/-- Help is given on demand, unless an option waits for its value. -/
def askHelp (reading : Reading) : Except Detour Reading :=
  .error (if reading.awaiting.isSome then .misuse else .help)

end Reading

def readOperand (grammar : Grammar) (reading : Reading) (text : String) : Except Detour Reading :=
  match grammar.operands[reading.operands.length]? with
  | none => .error .misuse
  | some kind =>
    if kind = .path && text.isEmpty then .error .misuse
    else .ok { reading with operands := text :: reading.operands }

def readLong (grammar : Grammar) (reading : Reading) (name : String) (value : Option String) :
    Except Detour Reading :=
  match grammar.options.find? (·.long = name), value with
  | some spec, some value =>
    if spec.takesValue then reading.addOption name value else .error .misuse
  | some spec, none => if spec.takesValue then reading.await name else reading.addOption name ""
  | none, none => if name = "help" then reading.askHelp else .error .misuse
  | none, some _ => .error .misuse

def attachedValue : List Char → String
  | '=' :: value => String.ofList value
  | value => String.ofList value

/-- Reads letters that stand together. The value of an option takes all that is left. -/
def readLetters (grammar : Grammar) (reading : Reading) : List Char → Except Detour Reading
  | [] => .ok reading
  | letter :: rest =>
    match grammar.options.find? (·.letter = some letter) with
    | some spec =>
      if !spec.takesValue then do
        let reading ← reading.addOption spec.long ""
        readLetters grammar reading rest
      else if rest = [] then reading.await spec.long
      else reading.addOption spec.long (attachedValue rest)
    | none => if letter = 'h' then reading.askHelp else .error .misuse

def readArgument (grammar : Grammar) (reading : Reading) (text : String) : Except Detour Reading :=
  if reading.operandsOnly then grammar.readOperand reading text
  else
    match text.toList with
    | ['-', '-'] =>
      if reading.awaiting.isSome then .error .misuse
      else .ok { reading with operandsOnly := true }
    | '-' :: '-' :: rest =>
      let name := rest.takeWhile (· ≠ '=')
      let value := (rest.dropWhile (· ≠ '=')).tail?
      grammar.readLong reading (String.ofList name) (value.map String.ofList)
    | '-' :: letter :: rest => grammar.readLetters reading (letter :: rest)
    | _ =>
      match reading.awaiting with
      | some long => { reading with awaiting := none }.addOption long text
      | none => grammar.readOperand reading text

def read (grammar : Grammar) (arguments : List String) :
    Except Detour (List String × List (String × String)) := do
  let reading ← arguments.foldlM grammar.readArgument .start
  if reading.awaiting.isSome || reading.operands.length < grammar.operands.length then
    .error .misuse
  else .ok (reading.operands.reverse, reading.options)

end Grammar

/-! ## The commands -/

inductive Topic where
  | program
  | make
  | get
  | dump
  | help
  deriving DecidableEq, Repr, Inhabited

inductive Invocation where
  | carryOut (command : Command)
  | help (topic : Topic)
  | version
  | misuse
  deriving DecidableEq, Repr, Inhabited

namespace Invocation

def makeGrammar : Grammar := ⟨[.path, .text, .path], [⟨"no-sync", none, false⟩]⟩

def getGrammar : Grammar :=
  ⟨[.path, .text], [⟨"all", some 'a', false⟩, ⟨"no-mmap", none, false⟩]⟩

def dumpGrammar : Grammar := ⟨[.path], [⟨"sep", some 's', true⟩]⟩

def defaultSeparator : String := "="

def given (options : List (String × String)) (long : String) : Bool :=
  (options.lookup long).isSome

def ofArguments (topic : Topic) (grammar : Grammar)
    (build : List String → List (String × String) → Option Command) (arguments : List String) :
    Invocation :=
  match grammar.read arguments with
  | .error .help => .help topic
  | .error .misuse => .misuse
  | .ok (operands, options) =>
    match build operands options with
    | some command => .carryOut command
    | none => .misuse

def parseMake : List String → Invocation :=
  ofArguments .make makeGrammar fun operands options =>
    match operands with
    | [input, separator, output] =>
      some (.make input separator output (!given options "no-sync"))
    | _ => none

def parseGet : List String → Invocation :=
  ofArguments .get getGrammar fun operands options =>
    match operands with
    | [path, key] => some (.get path key (given options "all") (!given options "no-mmap"))
    | _ => none

def parseDump : List String → Invocation :=
  ofArguments .dump dumpGrammar fun operands options =>
    match operands with
    | [path] => some (.dump path ((options.lookup "sep").getD defaultSeparator))
    | _ => none

def parseHelp : List String → Invocation
  | [] => .help .program
  | ["make"] => .help .make
  | ["get"] => .help .get
  | ["dump"] => .help .dump
  | ["help"] => .help .help
  | _ => .misuse

def parseLetters : List Char → Invocation
  | 'h' :: _ => .help .program
  | 'V' :: _ => .version
  | _ => .misuse

def parse : List String → Invocation
  | [] => .misuse
  | "make" :: arguments => parseMake arguments
  | "get" :: arguments => parseGet arguments
  | "dump" :: arguments => parseDump arguments
  | "help" :: arguments => parseHelp arguments
  | "--help" :: _ => .help .program
  | "--version" :: _ => .version
  | text :: _ =>
    match text.toList with
    | '-' :: letters => parseLetters letters
    | _ => .misuse

end Invocation

end ConstDb
