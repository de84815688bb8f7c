import MkCompiler.Command
import MkCompiler.Toml.Document

/-!
# Traces

A trace is a recorded stream of notifications. It is written as a document with the name of the
source file under `source` and one table under `exit` for every notification. A key may also be
written in capital letters; keys that mean nothing are ignored.
-/

namespace MkCompiler

structure Trace where
  source : String
  commands : List Command
  deriving DecidableEq, Repr

/-- What can be wrong with a recorded notification. -/
inductive RecordError where
  | unknownKind (name : String)
  | negativeLine (line : Int)
  | negativeCount
  | unknownType (name : String)
  | malformedParam (type name : String)
  deriving DecidableEq, Repr

def RecordError.message : RecordError → String
  | .unknownKind name => "unknown notification kind `" ++ name ++ "`"
  | .negativeLine line => "negative line number " ++ toString line
  | .negativeCount => "counts and lengths must not be negative"
  | .unknownType name => "unknown data type `" ++ name ++ "`"
  | .malformedParam type name => "malformed parameter `" ++ type ++ " " ++ name ++ "`"

/-- Why a text is no trace: it is no document of the expected shape, or one of its notifications,
counted from one, is wrong. -/
inductive TraceError where
  | malformed
  /-- The document has no defined outcome. -/
  | undefined
  | record (position : Nat) (e : RecordError)
  deriving DecidableEq, Repr

def TraceError.message : TraceError → String
  | .malformed => "parse"
  | .undefined => ""
  | .record position e => "exit no. " ++ toString position ++ ": " ++ e.message

namespace Toml.Node

/-- The value of a field, under its name in small or in capital letters. -/
def field? (n : Node) (name : String) : Option Node :=
  match n.child? name with
  | some v => some v
  | none => n.child? name.toUpper

def stringField? (n : Node) (name : String) : Option String :=
  match n.field? name with
  | none => some ""
  | some (string s) => some s
  | some _ => none

def integerField? (n : Node) (name : String) : Option Int :=
  match n.field? name with
  | none => some 0
  | some (integer v) => some v
  | some _ => none

def booleanField? (n : Node) (name : String) : Option Bool :=
  match n.field? name with
  | none => some false
  | some (boolean b) => some b
  | some _ => none

def tablesField? (n : Node) (name : String) : Option (List Node) :=
  match n.field? name with
  | none => some []
  | some (tables items) => some items
  | some _ => none

end Toml.Node

namespace Trace

/-- The fields of a recorded notification. -/
structure Fields where
  line : Int
  kind : String
  name : String
  target : String
  text : String
  type : String
  count : Int
  length : Int
  init : Bool
  /-- The types and names of the parameters. -/
  params : List (String × String)

def paramFields? (n : Toml.Node) : Option (String × String) := do
  let name ← n.stringField? "name"
  let type ← n.stringField? "type"
  return (type, name)

def fields? (n : Toml.Node) : Option Fields := do
  let params ← (← n.tablesField? "params").mapM paramFields?
  return {
    line := ← n.integerField? "line"
    kind := ← n.stringField? "kind"
    name := ← n.stringField? "name"
    target := ← n.stringField? "target"
    text := ← n.stringField? "text"
    type := ← n.stringField? "type"
    count := ← n.integerField? "count"
    length := ← n.integerField? "length"
    init := ← n.booleanField? "init"
    params }

def param (p : String × String) : Except RecordError Param :=
  match DataType.ofName? p.1 with
  | some type => if p.2 = "" then .error (.malformedParam p.1 p.2) else .ok ⟨p.2, type⟩
  | none => .error (.malformedParam p.1 p.2)

def command (f : Fields) : Except RecordError Command := do
  match CommandKind.ofName? f.kind with
  | none => throw (.unknownKind f.kind)
  | some kind =>
    if f.line < 0 then
      throw (.negativeLine f.line)
    if f.count < 0 ∨ f.length < 0 then
      throw .negativeCount
    match DataType.ofName? f.type with
    | none => throw (.unknownType f.type)
    | some type =>
      let params ← f.params.mapM param
      return {
        kind, type, params
        line := f.line
        name := f.name
        target := f.target
        text := f.text
        count := f.count
        length := f.length
        hasInit := f.init }

/-- Converts recorded notifications in turn. `position` counts from one. -/
def convert (position : Nat) : List Fields → Except TraceError (List Command)
  | [] => .ok []
  | f :: rest =>
    match command f with
    | .error e => .error (.record position e)
    | .ok cmd => (convert (position + 1) rest).map (cmd :: ·)

/-- The name of the source file and the notifications of a document. -/
def records? (root : Toml.Node) : Option (String × List Fields) := do
  let source ← root.stringField? "source"
  let records ← (← root.tablesField? "exit").mapM fields?
  return (source, records)

/-- Reads a trace. -/
def parse (text : String) : Except TraceError Trace :=
  match Toml.parse text with
  | .error .malformed => .error .malformed
  | .error .undefined => .error .undefined
  | .ok root =>
    match records? root with
    | none => .error .malformed
    | some (source, records) => (convert 1 records).map fun commands => { source, commands }

end Trace

end MkCompiler
