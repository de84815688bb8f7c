import MkCompiler.RuntimeSymbols
import MkCompiler.Text.Quoted
import MkCompiler.Toml.Document

/-!
# Runtime configuration

A configuration document can name other runtime symbols than the standard ones, under their keys in
the table `runtime`. It can hold nothing else. Every symbol has to be a global identifier.
-/

namespace MkCompiler

/-- Why a text is no configuration. -/
inductive ConfigError where
  | malformed
  /-- The document has no defined outcome. -/
  | undefined
  | unknownKey (name : String) (at_ : Toml.Position)
  | unknownSymbol (name : String) (at_ : Toml.Position)
  | notATable
  | misfit
  | invalidSymbol (key value : String)
  deriving DecidableEq, Repr

def Toml.Position.text (p : Toml.Position) : String :=
  "(" ++ toString p.line ++ ", " ++ toString p.column ++ ")"

def ConfigError.message : ConfigError → String
  | .malformed => "parse"
  | .undefined => ""
  | .unknownKey name p => "unknown table or key `" ++ name ++ "` at " ++ p.text
  | .unknownSymbol name p => "unknown runtime symbol `" ++ name ++ "` at " ++ p.text
  | .notATable => "`runtime` must be a table"
  | .misfit => "decode"
  | .invalidSymbol key value =>
    "runtime symbol `" ++ key ++ "` must be a global identifier: got " ++ Quoted.encode value

namespace RuntimeSymbols

/-- The symbols under their keys in a configuration. -/
def toList (s : RuntimeSymbols) : List (String × String) :=
  [("printInt", s.printInt), ("printReal", s.printReal), ("scanInt", s.scanInt),
    ("scanReal", s.scanReal), ("printf", s.printf), ("scanf", s.scanf)]

def keys : List String :=
  standard.toList.map Prod.fst

/-- A symbol starts with `@` and goes on without spaces, line breaks, commas and parentheses. -/
def isGlobalIdentifier (symbol : String) : Bool :=
  2 ≤ symbol.utf8ByteSize && symbol.toList.head? = some '@' &&
    symbol.toList.all fun c => !" \t\n,()".toList.contains c

/-- A configured symbol, or the standard one if none is given. -/
def choose (configured standard : String) : String :=
  if configured = "" then standard else configured

/-- The configured symbol under a key. It has to be a string. -/
def configured (n : Toml.Node) (key : String) : Except ConfigError String :=
  match n.child? key with
  | none => .ok ""
  | some (.string s) => .ok s
  | some _ => .error .misfit

/-- The symbols of a configuration, with the standard ones for those it does not name. -/
def ofTable (n : Toml.Node) : Except ConfigError RuntimeSymbols := do
  let printInt ← configured n "printInt"
  let printReal ← configured n "printReal"
  let scanInt ← configured n "scanInt"
  let scanReal ← configured n "scanReal"
  let printf ← configured n "printf"
  let scanf ← configured n "scanf"
  return {
    printInt := choose printInt standard.printInt
    printReal := choose printReal standard.printReal
    scanInt := choose scanInt standard.scanInt
    scanReal := choose scanReal standard.scanReal
    printf := choose printf standard.printf
    scanf := choose scanf standard.scanf }

/-- Refuses symbols that are no global identifiers. -/
def validate (s : RuntimeSymbols) : Except ConfigError RuntimeSymbols :=
  match s.toList.find? fun entry => !isGlobalIdentifier entry.2 with
  | some (key, value) => .error (.invalidSymbol key value)
  | none => .ok s

/-- The symbols of a configuration document. -/
def ofDocument (root : Toml.Node) : Except ConfigError RuntimeSymbols :=
  match root.keys.find? (· ≠ "runtime") with
  | some key => .error (.unknownKey key (root.position key))
  | none =>
    match root.child? "runtime" with
    | none => .ok standard
    | some (.table origin closed entries) =>
      let table := Toml.Node.table origin closed entries
      match table.keys.find? (· ∉ keys) with
      | some key => .error (.unknownSymbol key (table.position key))
      | none => (ofTable table).bind validate
    | some _ => .error .notATable

/-- Reads a configuration. -/
def parse (text : String) : Except ConfigError RuntimeSymbols :=
  match Toml.parse text with
  | .ok root => ofDocument root
  | .error .malformed => .error .malformed
  | .error .undefined => .error .undefined

end RuntimeSymbols

end MkCompiler
