import MkCompiler.Toml.Token

/-!
# Trees of configuration documents

A document is a tree of tables. A non-empty array that holds nothing but tables is an array of
tables, however it is written. A path leads through the last table of such an array.
-/

namespace MkCompiler.Toml

/-- A value of a document. A table knows where it starts; every entry knows where its key stands.
A `closed` table was written in braces and takes no further entries. -/
inductive Node where
  | string (text : String)
  | integer (value : Int)
  | boolean (value : Bool)
  | float
  /-- A date, a time, or both. -/
  | moment
  | array (items : List Node)
  | table (origin : Position) (closed : Bool) (entries : List (String × Position × Node))
  | tables (items : List Node)
  deriving Repr, Inhabited

namespace Node

def emptyTable (origin : Position) (closed : Bool) : Node :=
  table origin closed []

/-- An array of values. -/
def ofItems (items : List Node) : Node :=
  let isTable : Node → Bool
    | table _ _ _ => true
    | _ => false
  if items ≠ [] ∧ items.all isTable then tables items else array items

/-- The table a path goes on from: the last one of an array of tables. -/
def innermost : Node → Node
  | tables items => items.getLast?.getD (tables [])
  | n => n

def modifyInnermost (f : Node → Node) : Node → Node
  | tables items =>
    match items.getLast? with
    | some last => tables (items.dropLast ++ [f last])
    | none => tables []
  | n => f n

def entries : Node → List (String × Position × Node)
  | table _ _ entries => entries
  | _ => []

def keys (n : Node) : List String :=
  n.entries.map Prod.fst

def origin : Node → Position
  | table origin _ _ => origin
  | _ => ⟨0, 0⟩

def isClosed : Node → Bool
  | table _ closed _ => closed
  | _ => false

/-- Whether a path can lead through a value. -/
def isTabular : Node → Bool
  | table _ _ _ => true
  | tables _ => true
  | _ => false

/-- The entry of a table under a key. -/
def entry? (n : Node) (key : String) : Option (Position × Node) :=
  n.entries.lookup key

def child? (n : Node) (key : String) : Option Node :=
  (n.entry? key).map Prod.snd

/-- Replaces the entry under a key, or adds one. -/
def putEntry (key : String) (p : Position) (v : Node) :
    List (String × Position × Node) → List (String × Position × Node)
  | [] => [(key, p, v)]
  | (k, q, w) :: rest => if k = key then (k, p, v) :: rest else (k, q, w) :: putEntry key p v rest

def put (key : String) (p : Position) (v : Node) : Node → Node
  | table origin closed entries => table origin closed (putEntry key p v entries)
  | n => n

/-- The value at the end of a path. -/
def get? : List String → Node → Option Node
  | [], n => some n
  | key :: path, n =>
    match n.innermost.child? key with
    | some c => get? path c
    | none => none

/-- The position shown for an entry of a table: that of a table itself, that of the key of any
other value. -/
def entryPosition (n : Node) (key : String) : Position :=
  match n.entry? key with
  | some (_, table origin _ _) => origin
  | some (_, tables items) => (tables items).innermost.origin
  | some (p, _) => p
  | none => ⟨0, 0⟩

/-- The position shown for a name. Dots in a name separate the keys of a path; the empty name stands
for the table itself. -/
def position (n : Node) (name : String) : Position :=
  if name = "" then n.origin
  else
    let path := name.splitOn "."
    match get? path.dropLast n with
    | some parent => parent.innermost.entryPosition (path.getLast?.getD "")
    | none => ⟨0, 0⟩

/-- Changes the table at the end of a path. -/
def modifyAt (f : Node → Node) : List String → Node → Node
  | [], n => n.modifyInnermost f
  | key :: path, n =>
    n.modifyInnermost fun t =>
      match t.entry? key with
      | some (p, c) => put key p (modifyAt f path c) t
      | none => t

/-- Creates the tables on a path that do not exist yet. The second result is false if a value that
is no table stands in the way. A table inside a closed one is closed. -/
def create (p : Position) : List String → Node → Node × Bool
  | [], n => (n, true)
  | key :: path, n =>
    match n.innermost.entry? key with
    | some (q, c) =>
      if c.isTabular then
        let (c, ok) := create p path c
        (n.modifyInnermost (put key q c), ok)
      else
        (n, false)
    | none =>
      let (c, ok) := create p path (emptyTable p n.innermost.isClosed)
      (n.modifyInnermost (put key p c), ok)

/-- Puts a value at the end of a path, whatever stands there. New tables on the path start one line
below the other; a value takes the line behind the entries of its table. A value that is no table
does not lead any further: its key is passed over. -/
def putAt (start : Position) (depth : Nat) (v : Node) : List String → Node → Node
  | [], n => n
  | [key], n =>
    n.modifyInnermost fun t =>
      put key ⟨t.origin.line + t.entries.length + 1, t.origin.column⟩ v t
  | key :: path, n =>
    match n.innermost.entry? key with
    | some (q, c) =>
      if c.isTabular then
        n.modifyInnermost (put key q (putAt start (depth + 1) v path c))
      else
        putAt start (depth + 1) v path n
    | none =>
      let c := emptyTable ⟨start.line + depth, start.column⟩ false
      n.modifyInnermost (put key c.origin (putAt start (depth + 1) v path c))

end Node

end MkCompiler.Toml
