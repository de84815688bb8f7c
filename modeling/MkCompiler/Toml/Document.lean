import MkCompiler.Toml.Node

/-!
# Configuration documents

Reading of a document from its text: entries and table headers in turn, each put into the tree at
its path. A key or a table can be defined only once.
-/

namespace MkCompiler.Toml

/-- Whether every separator in a number stands behind a digit and in front of something. -/
def separatorsFit (digit : Char → Bool) : Bool → List Char → Bool
  | _, [] => true
  | before, c :: rest => (c ≠ '_' || (before && rest ≠ [])) && separatorsFit digit (digit c) rest

/-- The value of digits in a base. -/
def baseValue (base : Nat) (digits : List Char) : Nat :=
  digits.foldl (fun n c => base * n + Numeral.hexDigitValue c) 0

/-- The value of an integer. A number with a leading zero and more than two characters has to name
a base. -/
def integerValue (text : List Char) : Option Int :=
  let digits := text.filter (· ≠ '_')
  let fits (v : Int) : Option Int := if Numeral.fitsWord 63 v then some v else none
  let inBase (base : Nat) (digit : Char → Bool) (ds : List Char) : Option Int :=
    if separatorsFit digit false text ∧ ds ≠ [] then fits (baseValue base ds) else none
  match digits with
  | '0' :: 'x' :: d :: ds => inBase 16 Numeral.isHexDigit (d :: ds)
  | '0' :: 'o' :: d :: ds => inBase 8 Numeral.isDigit (d :: ds)
  | '0' :: 'b' :: d :: ds => inBase 2 Numeral.isDigit (d :: ds)
  | '0' :: _ :: _ :: _ => none
  | _ =>
    if separatorsFit Numeral.isDigit false text then (Numeral.integer? digits).bind fits else none

/-- Whether a text is a float of finite value. -/
def isFloat (text : List Char) : Bool :=
  separatorsFit Numeral.isDigit false text && (Numeral.real? (text.filter (· ≠ '_'))).isSome

/-- What stands in front of a field of a table in braces. -/
inductive FieldState where
  | start
  | field
  | comma
  deriving DecidableEq

/-- Why a document cannot be read: it is malformed, or something stands in the place of a value for
which there is no defined outcome. -/
inductive ReadError where
  | malformed
  | undefined
  deriving DecidableEq, Repr

/-- A value with the tokens behind it, if a condition on it holds. -/
def valueIf (p : Bool) (v : Node) (rest : List Token) : Except ReadError (Node × List Token) :=
  if p then .ok (v, rest) else .error .malformed

/-- Reads a date behind its token. A time can follow it, and behind the time the distance to
universal time. -/
def dateValue (d : List Char) : List Token → Except ReadError (Node × List Token)
  | .time t :: .offset o :: rest => valueIf (isDay d && isSecond t && isOffset o) .moment rest
  | .time t :: rest => valueIf (isDay d && isSecond t) .moment rest
  | rest => valueIf (isDay d) .moment rest

mutual

/-- Reads a value. The number of steps is bounded by the number of tokens. A token that belongs to
a key, a header or a list and not to a value has no defined outcome here. -/
def value : Nat → List Token → Except ReadError (Node × List Token)
  | steps + 1, token :: rest =>
    match token with
    | .string s => .ok (.string s, rest)
    | .boolean b => .ok (.boolean b, rest)
    | .integer text =>
      match integerValue text with
      | some v => .ok (.integer v, rest)
      | none => .error .malformed
    | .float text => valueIf (isFloat text) .float rest
    | .nonFinite => .ok (.float, rest)
    | .date d => dateValue d rest
    | .time t => valueIf (isSecond t) .moment rest
    | .openBracket _ => arrayItems steps [] rest
    | .openBrace => tableFields steps .start (.emptyTable ⟨0, 0⟩ false) rest
    | .equals => .error .malformed
    | .malformed => .error .malformed
    | _ => .error .undefined
  | _, _ => .error .malformed

/-- Reads the items of an array. The last one may be followed by a comma. -/
def arrayItems : Nat → List Node → List Token → Except ReadError (Node × List Token)
  | steps + 1, items, tokens =>
    match tokens with
    | .closeBracket :: rest => .ok (.ofItems items, rest)
    | _ =>
      match value steps tokens with
      | .ok (v, .comma :: rest) => arrayItems steps (items ++ [v]) rest
      | .ok (v, .closeBracket :: rest) => .ok (.ofItems (items ++ [v]), rest)
      | .ok _ => .error .malformed
      | .error e => .error e
  | 0, _, _ => .error .malformed

/-- Reads the fields of a table in braces. The last one may not be followed by a comma. -/
def tableFields :
    Nat → FieldState → Node → List Token → Except ReadError (Node × List Token)
  | steps + 1, state, n, token :: rest =>
    match token with
    | .closeBrace =>
      if state = .comma then .error .malformed
      else .ok (.table n.origin true n.entries, rest)
    | .comma => if state = .comma then .error .malformed else tableFields steps .comma n rest
    | .key text _ =>
      if state = .field then .error .malformed
      else
        match parseKey text, rest with
        | some path, .equals :: rest =>
          match value steps rest with
          | .ok (v, rest) => tableFields steps .field (Node.putAt ⟨0, 0⟩ 0 v path n) rest
          | .error e => .error e
        | _, _ => .error .malformed
    | _ => .error .malformed
  | _, _, _, _ => .error .malformed

end

/-- The document read so far, the table that entries go to, and the headers that may not come
again. -/
structure Reader where
  root : Node := .emptyTable ⟨1, 1⟩ false
  current : List String := []
  headers : List (List Char) := []

namespace Reader

/-- Opens the table of a header. -/
def openTable (r : Reader) (key : List Char) (p : Position) : Option Reader :=
  if key ∈ r.headers then none
  else
    match parseKey key with
    | none => none
    | some path =>
      let (root, ok) := r.root.create p path
      let closed := match root.get? path with
        | some t => t.isClosed
        | none => false
      if ok = false ∨ closed = true then none
      else some ⟨root, path, r.headers ++ [key]⟩

/-- Adds a table to the array of tables of a header. Headers of tables inside the previous table
may come again. -/
def addTable (r : Reader) (key : List Char) (p : Position) : Option Reader :=
  match parseKey key with
  | none => none
  | some path =>
    let (root, _) := r.root.create p path.dropLast
    let items := match root.get? path with
      | none => some []
      | some (.tables items) => some items
      | some _ => none
    match items with
    | none => none
    | some items =>
      let root := Node.putAt root.origin 0 (.tables (items ++ [.emptyTable p false])) path root
      let headers := r.headers.filter fun h => !(key ++ ['.']).isPrefixOf h
      some ⟨root, path, if headers.getLast? = some key then headers else headers ++ [key]⟩

/-- Adds an entry to the current table, under the parts of its key. -/
def addEntry (r : Reader) (parts : List String) (p : Position) (v : Node) : Option Reader :=
  let path := r.current ++ parts.dropLast
  let name := parts.getLast?.getD ""
  let root? := match r.root.get? path with
    | some t => if t.isTabular then some r.root else none
    | none =>
      let (root, ok) := r.root.create p path
      if ok then some root else none
  match root? with
  | none => none
  | some root =>
    match (root.get? path).map Node.innermost with
    | none => none
    | some t =>
      if t.isClosed ∨ (t.child? name).isSome then none
      else some { r with root := root.modifyAt (Node.put name p v) path }

/-- Reads one entry or header. -/
def readStatement (r : Reader) : List Token → Except ReadError (Reader × List Token)
  | .openBracket p :: .tableKey key :: .closeBracket :: rest => goOn (r.openTable key p) rest
  | .openDouble p :: .tableArrayKey key :: .closeDouble :: rest => goOn (r.addTable key p) rest
  | .key key p :: .equals :: rest =>
    match parseKey key with
    | none => .error .malformed
    | some parts =>
      match value (2 * rest.length + 1) rest with
      | .ok (v, rest) => goOn (r.addEntry parts p v) rest
      | .error e => .error e
  | _ => .error .malformed
where
  goOn (next : Option Reader) (rest : List Token) : Except ReadError (Reader × List Token) :=
    match next with
    | some r => .ok (r, rest)
    | none => .error .malformed

/-- Reads the tokens of a document. Every step takes at least one token. -/
def run : Nat → Reader → List Token → Except ReadError Reader
  | _, r, [] => .ok r
  | 0, _, _ :: _ => .error .malformed
  | steps + 1, r, token :: rest =>
    match r.readStatement (token :: rest) with
    | .ok (r, rest) => run steps r rest
    | .error e => .error e

end Reader

/-- Reads a document. -/
def parse (text : String) : Except ReadError Node :=
  let ts := tokens text.toList
  (Reader.run ts.length {} ts).map Reader.root

end MkCompiler.Toml
