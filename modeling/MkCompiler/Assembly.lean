import MkCompiler.Failure

/-!
# Assembly of the output

An assembly collects pieces in the four sections of the output. Appended pieces go to the selected
section, or, while the output is held, to a buffer. A mark is a position in a section at which
pieces can be inserted later. The pieces may be bytes or whole lines: nothing here depends on what
they are.
-/

namespace MkCompiler

/-- Where appended pieces go: straight to a section, or to a buffer that is released later, when
`resume` becomes the selected section. -/
inductive Routing (α : Type) where
  | direct (target : Section)
  | held (resume : Section) (buffer : List α)
  deriving DecidableEq, Repr

/-- The output collected so far. -/
structure Assembly (α : Type) where
  prologue : List α
  header : List α
  entryDeclaration : List α
  entryBody : List α
  functions : List α
  routing : Routing α
  deriving DecidableEq, Repr

/-- A position in a section. -/
structure Mark where
  target : Section
  position : Int
  deriving DecidableEq, Repr

namespace Assembly

variable {α : Type}

/-- An empty assembly behind a prologue. The body of the entry point is selected. -/
def start (prologue : List α) : Assembly α :=
  ⟨prologue, [], [], [], [], .direct .entryBody⟩

/-- The pieces of a section. -/
def content (a : Assembly α) : Section → List α
  | .header => a.header
  | .entryDeclaration => a.entryDeclaration
  | .entryBody => a.entryBody
  | .functions => a.functions
  | .unassigned _ => []

/-- Replaces the pieces of a section. -/
def setContent (a : Assembly α) (pieces : List α) : Section → Assembly α
  | .header => { a with header := pieces }
  | .entryDeclaration => { a with entryDeclaration := pieces }
  | .entryBody => { a with entryBody := pieces }
  | .functions => { a with functions := pieces }
  | .unassigned _ => a

/-- Appends pieces to a section, whatever the routing. -/
def appendTo (a : Assembly α) (target : Section) (pieces : List α) : Assembly α :=
  a.setContent (a.content target ++ pieces) target

/-- Appends pieces where the routing says. -/
def append (a : Assembly α) (pieces : List α) : Assembly α :=
  match a.routing with
  | .direct target => a.appendTo target pieces
  | .held resume buffer => { a with routing := .held resume (buffer ++ pieces) }

/-- Selects a section. While the output is held the selection takes effect on release. -/
def select (a : Assembly α) (target : Section) : Assembly α :=
  match a.routing with
  | .direct _ => { a with routing := .direct target }
  | .held _ buffer => { a with routing := .held target buffer }

/-- All pieces in the order of the output. -/
def pieces (a : Assembly α) : List α :=
  a.prologue ++ a.header ++ a.entryDeclaration ++ a.entryBody ++ a.functions

/-- Directs appended pieces to a fresh buffer. -/
def hold : Action (Assembly α) Unit := do
  let a ← get
  match a.routing with
  | .direct target => set { a with routing := .held target [] }
  | .held _ _ => throw (.internal .heldTwice)

/-- Ends the hold and returns what was captured. -/
def release : Action (Assembly α) (List α) := do
  let a ← get
  match a.routing with
  | .direct _ => throw (.internal .releasedUnheld)
  | .held resume buffer =>
    set { a with routing := Routing.direct resume }
    return buffer

/-- The end of the selected section. -/
def mark : Action (Assembly α) Mark := do
  let a ← get
  match a.routing with
  | .direct (.unassigned _) => throw (.fault .outOfRange)
  | .direct target => return ⟨target, (a.content target).length⟩
  | .held _ _ => throw (.internal .markedWhileHeld)

/-- Inserts pieces at a mark, whatever the routing, and returns the mark behind them. A negative
position empties the section before it fails. -/
def insert (m : Mark) (pieces : List α) : Action (Assembly α) Mark := do
  let a ← get
  let old := a.content m.target
  if m.target.isAssigned = false then
    throw (.fault .outOfRange)
  else if (old.length : Int) < m.position then
    throw (.internal (.markPastEnd m.target))
  else if m.position < 0 then
    set (a.setContent [] m.target)
    throw (.fault .outOfRange)
  else
    let n := m.position.toNat
    set (a.setContent (old.take n ++ pieces ++ old.drop n) m.target)
    return { m with position := m.position + pieces.length }

/-- Appends pieces where the routing says, if that section exists. -/
def write (pieces : List α) : Action (Assembly α) Unit := do
  let a ← get
  match a.routing with
  | .direct (.unassigned _) => throw (.fault .outOfRange)
  | _ => set (a.append pieces)

/-- The pieces of a section, if it exists. -/
def read (target : Section) : Action (Assembly α) (List α) := do
  let a ← get
  if target.isAssigned then return a.content target else throw (.fault .outOfRange)

end Assembly

end MkCompiler
