import ApiPages.Run.Basic

/-!
# The command line

Arguments are read from left to right. Options are written `--name value` or `--name=value`; a
separate value does not start with a dash. An option is given once, except where it may be repeated.
The options for logging may stand before and after the command.

* `OptionRule`, `scan` — the options of a level and the reading of arguments.
* `Command`, `Invocation`, `Invocation.parse` — what the arguments ask for.
* `execute` — the exit code and the output of a run.
-/

namespace ApiPages

/-! ## Options -/

/-- An option of a level of the command line. -/
structure OptionRule where
  name : String
  /-- The option comes with a value. -/
  takesValue : Bool
  /-- The option may be given more than once. -/
  repeatable : Bool
  /-- The value is one the option understands. -/
  accepts : String → Bool

/-- An option that was given: its name and its value, empty if it takes none. -/
abbrev Given := String × String

/-- Where reading the arguments of a level ends. -/
inductive Scan where
  /-- At the end of the arguments. -/
  | finished (given : List Given)
  /-- At a word that is no option, with the arguments after it. -/
  | word (given : List Given) (word : String) (rest : List String)
  | help
  | version
  | misuse

/-- The option after two dashes: its name and what follows an equals sign. -/
def splitOption (s : List Char) : String × Option String :=
  match Text.splitFirst '=' s with
  | some (name, value) => (String.ofList name, some (String.ofList value))
  | none => (String.ofList s, none)

/-- The argument may be the value of the option before it. -/
def isPlainValue (arg : String) : Bool := arg == "-" || arg.toList.head? != some '-'

/-- Adds an option to those given, unless its value or a repetition is refused. -/
def admit? (rule : OptionRule) (value : String) (given : List Given) : Option (List Given) :=
  if (given.any fun g => g.1 == rule.name) && !rule.repeatable then none
  else if rule.accepts value then some (given ++ [(rule.name, value)])
  else none

/-- Reads the arguments of a level. The level may know the option for the version. -/
def scan (rules : List OptionRule) (knowsVersion : Bool) (given : List Given) : List String → Scan
  | [] => .finished given
  | arg :: rest =>
    match arg.toList with
    | ['-', '-'] => if rest.isEmpty then .finished given else .misuse
    | '-' :: '-' :: s =>
      match splitOption s with
      | ("help", none) => .help
      | ("version", none) => if knowsVersion then .version else .misuse
      | (name, attached) =>
        match rules.find? fun r => r.name == name with
        | none => .misuse
        | some rule =>
          match rule.takesValue, attached, rest with
          | false, none, rest =>
            match admit? rule "" given with
            | some given => scan rules knowsVersion given rest
            | none => .misuse
          | true, some value, rest =>
            match admit? rule value given with
            | some given => scan rules knowsVersion given rest
            | none => .misuse
          | true, none, value :: rest =>
            if isPlainValue value then
              match admit? rule value given with
              | some given => scan rules knowsVersion given rest
              | none => .misuse
            else .misuse
          | _, _, _ => .misuse
    | '-' :: c :: _ =>
      if c = 'h' then .help
      else if c = 'V' && knowsVersion then .version
      else .misuse
    | _ => .word given arg rest

/-- The value of an option that was given. -/
def valueOf? (given : List Given) (name : String) : Option String :=
  (given.find? fun g => g.1 == name).map Prod.snd

/-- All values of an option. -/
def valuesOf (given : List Given) (name : String) : List String :=
  (given.filter fun g => g.1 == name).map Prod.snd

/-! ## Values -/

/-- A number of 64 bits, which may have a plus sign. -/
def parseCount? (text : String) : Option Nat :=
  let ds :=
    match text.toList with
    | '+' :: r => r
    | r => r
  if ds.isEmpty || !ds.all (isDigitOf 10) then none
  else
    let n := digitsValue 10 ds
    if n < UInt64.size then some n else none

/-- The format of a word. -/
def SummaryFormat.ofWord? : String → Option SummaryFormat
  | "text" => some .text
  | "json" => some .json
  | _ => none

/-- An option with a value out of a list. -/
def choice (name : String) (values : List String) : OptionRule :=
  ⟨name, true, false, fun v => values.contains v⟩

/-- An option with a path, which is not empty. -/
def pathOption (name : String) : OptionRule := ⟨name, true, false, fun v => !v.isEmpty⟩

/-- The options for logging. -/
def logRules : List OptionRule :=
  [choice "log-level" ["trace", "debug", "info", "warn", "error"],
    choice "log-format" ["text", "json"]]

/-- The options of both commands. -/
def inputRules : List OptionRule :=
  [pathOption "snapshot", pathOption "config", ⟨"nav", true, false, fun _ => true⟩,
    pathOption "out", ⟨"external", true, true, fun v => (parseExternalLink v).toOption.isSome⟩,
    ⟨"no-std-links", false, false, fun _ => true⟩,
    ⟨"max-depth", true, false, fun v => (parseCount? v).isSome⟩]

/-- The options of the command that writes pages. -/
def generateRules : List OptionRule := choice "summary" ["text", "json"] :: inputRules

/-! ## Invocations -/

/-- The input of a command. -/
structure Input where
  snapshot : String
  config : Option String
  overrides : Overrides
deriving DecidableEq, Repr

/-- The input that options give; a snapshot is needed. -/
def Input.ofGiven? (given : List Given) : Option Input :=
  (valueOf? given "snapshot").map fun snapshot =>
    { snapshot
      config := valueOf? given "config"
      overrides :=
        { baseNav := valueOf? given "nav"
          out := valueOf? given "out"
          externalLinks := (valuesOf given "external").filterMap fun v =>
            (parseExternalLink v).toOption
          noStandardLinks := (valueOf? given "no-std-links").isSome
          maxDepth := (valueOf? given "max-depth").bind parseCount? } }

/-- A command. -/
inductive Command where
  /-- Writes pages. -/
  | generate (input : Input) (format : SummaryFormat)
  /-- Prints the tables. -/
  | symbols (input : Input)
deriving DecidableEq, Repr

/-- What the arguments ask for. -/
inductive Invocation where
  | run (command : Command)
  | help
  | version
  | misuse
deriving DecidableEq, Repr

namespace Invocation

/-- The invocation of a command with its arguments. -/
def ofCommand (rules : List OptionRule) (args : List String) (make : List Given → Input → Command) :
    Invocation :=
  match scan (rules ++ logRules) false [] args with
  | .finished given =>
    match Input.ofGiven? given with
    | some input => .run (make given input)
    | none => .misuse
  | .help => .help
  | _ => .misuse

/-- The words that name commands. -/
def commandWords : List String := ["generate", "symbols", "help"]

/-- What a command word and its arguments ask for. -/
def ofWord (word : String) (args : List String) : Invocation :=
  match word with
  | "generate" =>
    ofCommand generateRules args fun given input =>
      .generate input (((valueOf? given "summary").bind SummaryFormat.ofWord?).getD .text)
  | "symbols" => ofCommand inputRules args fun _ input => .symbols input
  | "help" =>
    match args with
    | [] => .help
    | [topic] => if commandWords.contains topic then .help else .misuse
    | _ => .misuse
  | _ => .misuse

/-- What the arguments ask for. -/
def parse (args : List String) : Invocation :=
  match scan logRules true [] args with
  | .word _ word rest => ofWord word rest
  | .help => .help
  | .version => .version
  | _ => .misuse

end Invocation

/-! ## Execution -/

/-- How a run ends. -/
structure Outcome where
  exitCode : Nat
  /-- What is printed. -/
  output : String
deriving DecidableEq, Repr

/-- The name and the version of the program. -/
def versionText : String := "tugdoc 0.1.0\n"

/-- How the program is used. -/
def usageText : String :=
  "Usage: tugdoc [--log-level LEVEL] [--log-format FORMAT] <generate|symbols> --snapshot FILE\n"
    ++ "         [--config FILE] [--nav PREFIX] [--out DIR] [--external NAME=URL]...\n"
    ++ "         [--no-std-links] [--max-depth N] [--summary text|json]\n"

variable {m : Type → Type} [Monad m]

/-- Carries out a command. -/
def Command.run (fs : FileSystem m) : Command → ExceptT Failure m String
  | .generate input format => do
    let settings ← loadSettings fs input.config input.overrides
    let summary ← runGenerate fs input.snapshot settings
    return summary.inFormat format
  | .symbols input => do
    let settings ← loadSettings fs input.config input.overrides
    runSymbols fs input.snapshot settings

/-- The outcome of what the arguments ask for. -/
def execute (fs : FileSystem m) (args : List String) : m Outcome := do
  match Invocation.parse args with
  | .misuse => return ⟨2, ""⟩
  | .version => return ⟨0, versionText⟩
  | .help => return ⟨0, usageText⟩
  | .run command =>
    match ← (command.run fs).run with
    | .ok output => return ⟨0, output⟩
    | .error f => return ⟨f.exitCode, f.response⟩

end ApiPages
