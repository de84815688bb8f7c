import MkCompiler.Emitter.Control
import MkCompiler.Emitter.Function
import MkCompiler.Emitter.Transfer

/-!
# Compilation

A compilation consumes the notifications of one program. It threads operands between constructs on
a stack and turns every notification into operations on the symbol table and the emitter. While a
class is open, notifications are recorded in its body instead.
-/

namespace MkCompiler

structure Compilation where
  /-- The source file the notifications come from. -/
  file : String
  table : SymbolTable := {}
  emitter : Emitter
  /-- The operand stack, its top first. -/
  stack : List Operand := []
  /-- The function or method whose body is being compiled. -/
  function : Option Signature := none
  /-- Whether that body has a return. -/
  returned : Bool := false
  /-- The class whose body is being recorded. -/
  recording : Option Nat := none
  /-- The method whose body is being recorded. -/
  method : Option Signature := none
  /-- Whether that method has a return. -/
  methodReturned : Bool := false
  /-- The lines of the program, once its end has been reached. -/
  program : Option (List Line) := none
  deriving DecidableEq, Repr

namespace Compilation

variable {α : Type}

def start (file : String) (symbols : RuntimeSymbols) : Compilation where
  file
  emitter := Emitter.start symbols

/-- Whether the end of the program has been reached. -/
def ended (c : Compilation) : Bool :=
  c.program.isSome

/-- The text of the program. It is empty until the end of the program has been reached. -/
def programText (c : Compilation) : String :=
  textOfLines (c.program.getD [])

def onTable (x : Action SymbolTable α) : Action Compilation α :=
  Action.zoom Compilation.table (fun table c => { c with table }) x

def onEmitter (x : Action Emitter α) : Action Compilation α :=
  Action.zoom Compilation.emitter (fun emitter c => { c with emitter }) x

def push (op : Operand) : Action Compilation Unit :=
  modify fun c => { c with stack := op :: c.stack }

def pop : Action Compilation Operand := do
  let c ← get
  match c.stack with
  | [] => throw (.stream .underflow)
  | op :: stack =>
    set { c with stack }
    return op

/-- The number of operands from which on no list of them can be set up. -/
def operandLimit : Int := Nat.pow 2 44

/-- Pops a number of operands, in the order in which they were pushed. If there are fewer, all of
them are gone. -/
def popMany (count : Int) : Action Compilation (List Operand) := do
  let c ← get
  if count < 0 then
    throw (.stream (.negativeCount count))
  else if count ≤ c.stack.length then
    set { c with stack := c.stack.drop count.toNat }
    return (c.stack.take count.toNat).reverse
  else if operandLimit < count then
    throw (.fault .memory)
  else
    set { c with stack := [] }
    throw (.stream .underflow)

/-- Pops the two operands of a construct, the left one below the right one. -/
def popPair : Action Compilation (Operand × Operand) := do
  let right ← pop
  let left ← pop
  return (left, right)

/-- Refuses a declared type that is neither an integer nor a real. -/
def requireScalar (type : DataType) (place : TypedPlace) (name : String) :
    Action Compilation Unit :=
  Action.require (type = .int ∨ type = .real) (.notScalar place name type)

/-- Refuses a construct inside a function body. -/
def requireOutside (violation : String → Violation) : Action Compilation Unit := do
  let c ← get
  if c.emitter.inFunction then
    match c.function with
    | some f => Action.reject (violation f.name)
    | none => throw (.fault .absentFunction)

end Compilation

end MkCompiler
