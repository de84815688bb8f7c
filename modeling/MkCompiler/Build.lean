import MkCompiler.Compilation.Handle
import MkCompiler.FileStore
import MkCompiler.Path
import MkCompiler.Report
import MkCompiler.RuntimeConfig
import MkCompiler.Trace

/-!
# Builds

A build reads a configuration and a trace, compiles the trace, and writes the program. The
configuration comes first: if it is wrong, nothing is said about the trace.
-/

namespace MkCompiler

structure BuildRequest where
  trace : String
  /-- The configuration. Without one, that in the directory of the trace is taken if there is
  one. -/
  config : Option String := none
  /-- Where the program is written to. Without a path, it is written to standard out. -/
  output : Option String := none
  deriving DecidableEq, Repr

inductive BuildError where
  | unreadableConfig (path : String) (e : FileError)
  | config (path : String) (e : ConfigError)
  | unreadableTrace (path : String) (e : FileError)
  | trace (path : String) (e : TraceError)
  | compile (e : CompileFailure)
  | unwritable (path : String) (e : FileError)
  deriving DecidableEq, Repr

def BuildError.message : BuildError → String
  | unreadableConfig path e => "read config: " ++ e.readMessage path
  | config path e => "config " ++ path ++ ": " ++ e.message
  | unreadableTrace path e => "read trace: " ++ e.readMessage path
  | trace path e => "trace " ++ path ++ ": " ++ e.message
  | compile e => e.message
  | unwritable path e => "write program: " ++ e.writeMessage path

/-- Whether a build ended without a defined outcome. -/
def BuildError.isUndefined : BuildError → Bool
  | config _ .undefined => true
  | trace _ .undefined => true
  | compile .undefined => true
  | _ => false

/-- What a build reports, and its error or the text it writes to standard out. -/
structure BuildOutcome where
  warnings : List Report := []
  result : Except BuildError String

namespace BuildRequest

def configName : String := "mkc.toml"

/-- A trace has one of two extensions. -/
def warnings (r : BuildRequest) : List Report :=
  let extension := Path.extension r.trace
  if extension = ".mkt" ∨ extension = ".toml" then []
  else
    [.ofTemplate (.warning "Trace") "unexpected extension `%s` for trace file %s"
      [extension, r.trace]]

/-- The symbols of a configuration that has been read. -/
def symbolsOf (path : String) : Except FileError String → Except BuildError RuntimeSymbols
  | .ok text => (RuntimeSymbols.parse text).mapError (.config path)
  | .error e => .error (.unreadableConfig path e)

/-- The trace in a file that has been read. A trace that names no source file is its own source. -/
def traceOf (path : String) : Except FileError String → Except BuildError Trace
  | .ok text =>
    match Trace.parse text with
    | .ok t => .ok { t with source := if t.source = "" then path else t.source }
    | .error e => .error (.trace path e)
  | .error e => .error (.unreadableTrace path e)

/-- The program of a trace. -/
def programOf (symbols : RuntimeSymbols) (t : Trace) : Except BuildError String :=
  match compile t.source t.commands symbols with
  | .ok lines => .ok (textOfLines lines)
  | .error e => .error (.compile e)

variable {m : Type → Type} [Monad m] [FileStore m]

def loadSymbols (r : BuildRequest) : m (Except BuildError RuntimeSymbols) := do
  match r.config with
  | some path => return symbolsOf path (← FileStore.read path)
  | none =>
    let path := Path.sibling r.trace configName
    match ← FileStore.read path with
    | .error e =>
      if e.isAbsence then return .ok .standard else return .error (.unreadableConfig path e)
    | contents => return symbolsOf path contents

/-- Writes a program. The result is the text for standard out. -/
def writeProgram (r : BuildRequest) (program : String) : m (Except BuildError String) := do
  match r.output with
  | none => return .ok program
  | some path =>
    match ← FileStore.write path program with
    | .ok () => return .ok ""
    | .error e => return .error (.unwritable path e)

def run (r : BuildRequest) : m BuildOutcome := do
  match ← r.loadSymbols with
  | .error e => return { result := .error e }
  | .ok symbols =>
    let trace := traceOf r.trace (← FileStore.read r.trace)
    match trace.bind (programOf symbols) with
    | .error e => return { warnings := r.warnings, result := .error e }
    | .ok program => return { warnings := r.warnings, result := ← r.writeProgram program }

end BuildRequest

variable {m : Type → Type} [Monad m] [FileStore m]

/-- The source line a diagnostic is about, if it can be read. -/
def Diagnostic.sourceLine (d : Diagnostic) : m (Option String) := do
  if d.file = "" ∨ d.line < 1 then
    return none
  match ← FileStore.read d.file with
  | .ok text => return Source.line? text d.line
  | .error _ => return none

def BuildError.report (e : BuildError) : m Report := do
  match e with
  | compile (.violation v) => return .diagnostic v.diagnostic (← v.diagnostic.sourceLine)
  | compile (.internal i) => return .internal i.message
  | e => return .failure e.message

end MkCompiler
