import MkCompiler.Build

/-!
# Command line

A command line names a subcommand and sets arguments. An argument is set by its name behind two
dashes or by its short name behind one, and always has a value. A word that is no subcommand is the
trace of a build.
-/

namespace MkCompiler.CommandLine

inductive Subcommand where
  | build
  | version
  deriving DecidableEq, Repr

def Subcommand.ofName? : String → Option Subcommand
  | "build" => some .build
  | "version" => some .version
  | _ => none

/-- The arguments that can be set. -/
inductive Parameter where
  | logLevel
  | output
  | config
  deriving DecidableEq, Repr

namespace Parameter

def name : Parameter → String
  | logLevel => "loglevel"
  | output => "output"
  | config => "config"

def shortName : Parameter → String
  | logLevel => "ll"
  | output => "o"
  | config => "c"

/-- The arguments that can be set behind a subcommand. -/
def available : Option Subcommand → List Parameter
  | some .build => [output, config, logLevel]
  | _ => [logLevel]

end Parameter

/-- How an argument is named: with two dashes or with one. -/
inductive Dashes where
  | long
  | short
  deriving DecidableEq, Repr

inductive UsageError where
  | unknownFlag (dashes : Dashes) (name : String)
  | unknownArgument (dashes : Dashes) (name : String)
  | setTwice (p : Parameter)
  | invalidLogLevel (value : String)
  | secondTrace
  | unknownSubcommand (name : String)
  | unexpectedSubcommand (name : String)
  | missingSubcommand
  | missingTrace
  deriving DecidableEq, Repr

def UsageError.message : UsageError → String
  | unknownFlag .long name => "unknown flag: `" ++ name ++ "`"
  | unknownFlag .short name => "unknown flag by short name: `" ++ name ++ "`"
  | unknownArgument .long name => "unknown argument: `" ++ name ++ "`"
  | unknownArgument .short name => "unknown argument by short name: `" ++ name ++ "`"
  | setTwice p => "argument `" ++ p.name ++ "` set multiple times"
  | invalidLogLevel value =>
    "`" ++ value ++ "` is not a valid value for argument [" ++ Parameter.logLevel.name ++ "]"
  | secondTrace => "multiple primary arguments specified for command `build`"
  | unknownSubcommand name => "unknown subcommand: `" ++ name ++ "`"
  | unexpectedSubcommand name => "unexpected subcommand: `" ++ name ++ "`"
  | missingSubcommand => "`mkc` requires a subcommand"
  | missingTrace => "missing required primary argument `build` for subcommand `trace-path`"

/-- What has been read of a command line. The trace is empty until one is given. -/
structure Arguments where
  subcommand : Option Subcommand := none
  trace : String := ""
  logLevel : Option LogLevel := none
  output : Option String := none
  config : Option String := none
  /-- Whether an argument has been set, behind which no subcommand can stand. -/
  dashed : Bool := false

namespace Arguments

def isSet (a : Arguments) : Parameter → Bool
  | .logLevel => a.logLevel.isSome
  | .output => a.output.isSome
  | .config => a.config.isSome

def setParameter (a : Arguments) (p : Parameter) (value : String) : Except UsageError Arguments :=
  if a.isSet p then .error (.setTwice p)
  else
    match p with
    | .logLevel =>
      match LogLevel.ofName? value with
      | some level => .ok { a with logLevel := some level }
      | none => .error (.invalidLogLevel value)
    | .output => .ok { a with output := some value }
    | .config => .ok { a with config := some value }

/-- Reads a word with dashes. What stands behind the first equals sign is the value; without a value
the word is a flag, and there are no flags. -/
def readDashed (a : Arguments) (dashes : Dashes) (word : List Char) : Except UsageError Arguments :=
  let text := word.dropWhile (· = '-')
  let name := String.ofList (text.takeWhile (· ≠ '='))
  let value := String.ofList ((text.dropWhile (· ≠ '=')).drop 1)
  let called (p : Parameter) : String :=
    match dashes with
    | .long => p.name
    | .short => p.shortName
  if value = "" then .error (.unknownFlag dashes name)
  else
    match (Parameter.available a.subcommand).find? fun p => called p = name with
    | some p => setParameter { a with dashed := true } p value
    | none => .error (.unknownArgument dashes name)

/-- Reads a word without dashes. -/
def readWord (a : Arguments) (word : String) : Except UsageError Arguments :=
  match a.subcommand with
  | some .build => if a.trace = "" then .ok { a with trace := word } else .error .secondTrace
  | some .version =>
    .error (if a.dashed then .unexpectedSubcommand word else .unknownSubcommand word)
  | none =>
    if a.dashed then .error (.unexpectedSubcommand word)
    else
      match Subcommand.ofName? word with
      | some c => .ok { a with subcommand := some c }
      | none => .error (.unknownSubcommand word)

def read (a : Arguments) (word : String) : Except UsageError Arguments :=
  match word.toList with
  | '-' :: '-' :: _ => a.readDashed .long word.toList
  | '-' :: _ => a.readDashed .short word.toList
  | _ => a.readWord word

end Arguments

/-- What a command line asks for. -/
inductive Task where
  | build (r : BuildRequest)
  | version
  deriving DecidableEq, Repr

structure Invocation where
  level : LogLevel
  task : Task
  deriving DecidableEq, Repr

/-- The task of a command line that has been read. -/
def Arguments.task (a : Arguments) : Except UsageError Task :=
  match a.subcommand with
  | none => .error .missingSubcommand
  | some .version => .ok .version
  | some .build =>
    if a.trace = "" then .error .missingTrace
    else .ok (.build { trace := a.trace, config := a.config, output := a.output })

/-- Reads a command line. The first error ends the reading. -/
def parse (words : List String) : Except UsageError Invocation := do
  let a ← words.foldlM Arguments.read {}
  return { level := a.logLevel.getD .verbose, task := ← a.task }

/-- What a run has written, its status, and the error of a failed build. -/
structure Outcome where
  status : Nat
  out : String := ""
  log : String
  error : Option BuildError := none

def version : String := "0.3.0"

variable {m : Type → Type} [Monad m] [FileStore m]

/-- Runs a build. A build that breaks an invariant of the compiler or has no defined outcome has a
status of its own. -/
def build (reporter : Reporter) (r : BuildRequest) : m Outcome := do
  let outcome ← r.run
  match outcome.result with
  | .ok out =>
    let reports := outcome.warnings ++ [.finished (r.output.getD "standard out")]
    return { status := 0, out, log := (reporter.reportAll reports).2 }
  | .error e =>
    let log := (reporter.reportAll (outcome.warnings ++ [← e.report])).2
    let status := match e with
      | .compile (.internal _) => 2
      | e => if e.isUndefined then 2 else 1
    return { status, log, error := some e }

/-- Runs a command line. -/
def execute (words : List String) : m Outcome := do
  match parse words with
  | .error e =>
    return { status := 1, log := (Reporter.report {} (.alert "CLI Usage Error" e.message)).2 }
  | .ok ⟨level, .version⟩ =>
    return { status := 0, log := (Reporter.report { level } (.notice "MK Version" version)).2 }
  | .ok ⟨level, .build r⟩ => build { level } r

end MkCompiler.CommandLine
