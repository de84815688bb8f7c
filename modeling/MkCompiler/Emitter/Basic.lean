import MkCompiler.Assembly
import MkCompiler.Operand
import MkCompiler.RuntimeSymbols
import MkCompiler.SymbolTable

/-!
# Emitter

The emitter turns constructs into lines of the emitted program. Statements outside of any function
go to the entry point, whose context stays as it is while a function is open. Values are numbered
in the order of their lines; a line behind a terminator without a label opens a block that takes a
number as well.
-/

namespace MkCompiler

/-- The state of one emitted function. -/
structure FunctionContext where
  /-- The section the body is written to. -/
  target : Section
  /-- The number of the next value or unlabelled block. -/
  nextNumber : Int
  /-- The open control constructs, the innermost one first. -/
  pending : List Nat := []
  /-- The control construct whose condition is being computed. -/
  openCompare : Option Nat := none
  /-- The slots allocated for the results of method calls. -/
  results : List String := []
  /-- The position behind the named slots at the top of the body. -/
  slots : Mark
  /-- Whether the last instruction was a terminator and no label followed it. -/
  detached : Bool := false
  deriving DecidableEq, Repr

/-- A function or method whose body is open. -/
structure OpenFunction where
  signature : Signature
  context : FunctionContext
  deriving DecidableEq, Repr

structure Emitter where
  symbols : RuntimeSymbols
  output : Assembly Line
  entry : FunctionContext
  function : Option OpenFunction := none
  /-- The number of control constructs opened so far, in all functions. -/
  labels : Nat := 0
  finished : Bool := false
  deriving DecidableEq, Repr

namespace Emitter

variable {α : Type}

/-- An emitter for a new program. The parameters of a function take the first numbers and its
first block the one behind them, so the entry point starts with one. -/
def start (symbols : RuntimeSymbols) : Emitter where
  symbols
  output := (Assembly.start symbols.prologue).appendTo .entryDeclaration [.defineEntry]
  entry := { target := .entryBody, nextNumber := 1, slots := ⟨.entryBody, 0⟩ }

/-- Whether a function or method body is open. -/
def inFunction (e : Emitter) : Bool :=
  e.function.isSome

/-- The context that receives instructions. -/
def active (e : Emitter) : FunctionContext :=
  match e.function with
  | some f => f.context
  | none => e.entry

/-- Changes the context that receives instructions. -/
def modifyActive (f : FunctionContext → FunctionContext) (e : Emitter) : Emitter :=
  match e.function with
  | some o => { e with function := some { o with context := f o.context } }
  | none => { e with entry := f e.entry }

/-- Whether a condition has been opened and not compared yet. -/
def conditionOpen (e : Emitter) : Bool :=
  e.active.openCompare.isSome

/-- The type a return statement converts its value to. The entry point returns an integer. -/
def returnType (e : Emitter) : DataType :=
  match e.function with
  | some f => f.signature.result
  | none => .int

/-- The number of the unlabelled block that follows a terminator is taken as soon as anything is
placed in it. -/
def openBlock (c : FunctionContext) : FunctionContext :=
  if c.detached then { c with nextNumber := c.nextNumber + 1, detached := false } else c

/-- Runs an operation on the output. -/
def onOutput (x : Action (Assembly Line) α) : Action Emitter α :=
  Action.zoom Emitter.output (fun output e => { e with output }) x

def appendLines (lines : List Line) (e : Emitter) : Emitter :=
  { e with output := e.output.append lines }

/-- Adds a declaration to the header. -/
def appendHeader (line : Line) (e : Emitter) : Emitter :=
  { e with output := e.output.appendTo .header [line] }

/-- Takes the next number. -/
def fresh : Action Emitter Int := do
  modify (modifyActive openBlock)
  let n := (← get).active.nextNumber
  modify (modifyActive fun c => { c with nextNumber := c.nextNumber + 1 })
  return n

def emit (i : Instr) : Action Emitter Unit := do
  modify (modifyActive openBlock)
  modify (appendLines [.instr i])

/-- Ends the current block. -/
def terminate (i : Instr) : Action Emitter Unit := do
  emit i
  modify (modifyActive fun c => { c with detached := true })

/-- Starts a labelled block. -/
def placeLabel (l : Label) : Action Emitter Unit := do
  modify (appendLines [.label l])
  modify (modifyActive fun c => { c with detached := false })

/-- Allocates a named slot at the top of the function, where it comes before every block. -/
def hoist (name : LocalName) (type : DataType) : Action Emitter Unit := do
  let slots ← onOutput
    (Assembly.insert (← get).active.slots [.instr (.alloca name type.irType)])
  modify (modifyActive fun c => { c with slots })

/-- Allocates a numbered slot. -/
def allocate (type : DataType) : Action Emitter Register := do
  let n ← fresh
  emit (.alloca (.number n) type.irType)
  return ⟨n, type.storage⟩

def loadFrom (type : DataType) (source : Pointer) : Action Emitter Value := do
  let n ← fresh
  emit (.load n type.irType source)
  return .number n

def load (r : Register) : Action Emitter Value :=
  loadFrom r.type (.frame r.slot)

def store (type : DataType) (value : Value) (target : Pointer) : Action Emitter Unit :=
  emit (.store type.irType value target)

/-- Refuses an operand that has no value code can be generated for. -/
def checkLowered (op : Operand) : Action Emitter Unit := do
  Action.require (op.type.isLowered = true) (.unsupportedValue op.type)
  Action.require (op.kind ≠ .array) (.arrayAsValue op.name)

/-- Closes the entry point and returns the lines of the program. -/
def finish : Action Emitter (List Line) := do
  let e ← get
  if e.finished then
    throw (.internal .materializedTwice)
  match e.function with
  | some f => Action.reject (.programEndsInsideFunction f.signature.name)
  | none =>
    Action.require (e.entry.pending = [] ∧ e.entry.openCompare = none) .programEndsInsideControl
    emit (.ret .i32 (.constant "0"))
    modify fun e => { appendLines [.close] e with finished := true }
    return (← get).output.pieces

end Emitter

end MkCompiler
