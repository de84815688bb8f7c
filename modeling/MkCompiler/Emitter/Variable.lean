import MkCompiler.Emitter.Value

/-!
# Variables

Storage of variables, fields and arrays, and assignment. A variable that takes a value of another
storage type moves to a new version with storage of its own.
-/

namespace MkCompiler.Emitter

/-- Allocates the storage of a variable. Program-level storage starts out as zero; a slot is set
to zero if `zeroed` asks for it. -/
def declareStorage (b : Binding) (zeroed : Bool) : Action Emitter Unit := do
  Action.require (b.type.isLowered = true) (.unsupportedVariable b.type)
  let type := b.type.storage
  match b with
  | .global g =>
    if g.kind = .variable then
      modify (appendHeader (.cell g.symbol type.irType type.zero))
    else
      throw (.internal (.scalarExpected g.kind))
  | .slot l =>
    if (← get).inFunction then
      hoist l.slot type
      if zeroed then
        store type (.constant type.zero) (.frame l.slot)
    else
      throw (.internal (.localOutsideFunction l.name))

def declareVariable (b : Binding) : Action Emitter Unit :=
  declareStorage b true

/-- Allocates the storage of a field of an instance. -/
def declareField (g : Global) : Action Emitter Unit :=
  if g.inst = "" then throw (.internal (.fieldWithoutInstance g.name))
  else declareStorage (.global g) true

/-- The binding that is to hold a value of a type. A variable without a type takes the type of its
first value; one whose storage does not fit moves to a new version. -/
def rebind (b : Binding) (type : DataType) : Action Emitter Binding := do
  if b.type.storage = type.storage then
    if b.type ≠ .unresolved ∨ type = .unresolved then
      return b
    else
      return b.withVersion b.version type
  else
    let next := b.withVersion (b.version + 1) type
    declareStorage next false
    return next

/-- Stores a value in an element of an array. -/
def assignElement (g : Global) (right : Operand) : Action Emitter Unit := do
  Action.require (right.type.storage = g.type.storage) (.elementType right.type g.type g.name)
  let v ← value right
  let p ← elementPointer g
  store g.type v p

/-- Stores a value in a variable. The result is the binding that holds it now. -/
def assignVariable (left : Binding) (right : Operand) : Action Emitter Binding := do
  let target ← rebind left right.type
  let v ← value right
  store right.type v target.pointer
  return target

/-- Stores a value in a variable or an element of an array. The result is the binding that holds
it now. -/
def assign (left : Binding) (right : Operand) : Action Emitter Binding := do
  checkLowered right
  match left with
  | .slot _ => assignVariable left right
  | .global g =>
    match g.kind with
    | .array => Action.reject (.assignToArray g.name)
    | .arrayElement =>
      assignElement g right
      return left
    | _ => assignVariable left right

/-- Refuses initial elements that do not fit the type of an array. `position` counts from one. -/
def checkElements (array : Global) (position : Nat) : List Operand → Action Emitter Unit
  | [] => pure ()
  | op :: rest => do
    Action.require (op.type.storage = array.type.storage)
      (.initialElementType position array.name op.type array.type)
    checkElements array (position + 1) rest

/-- Stores the initial elements of an array from a position on. -/
def storeElements (array : Global) (position : Nat) : List Operand → Action Emitter Unit
  | [] => pure ()
  | op :: rest => do
    let _ ← assign (.global (array.element (.literal (Literal.ofInt position)))) op
    storeElements array (position + 1) rest

/-- Declares an array and stores its initial elements. A length of zero stands for the number of
initial elements. -/
def declareArray (array : Global) (length : Int) (elements : List Operand) :
    Action Emitter Global := do
  match (← get).function with
  | some f => Action.reject (.arrayInsideFunction array.name f.signature.name)
  | none =>
    Action.require (array.type.isLowered = true) (.unsupportedArray array.type)
    let length := if length = 0 then (elements.length : Int) else length
    Action.require (0 < length) (.arrayWithoutLength array.name)
    Action.require (elements.length ≤ length)
      (.tooManyElements elements.length array.name length)
    checkElements array 1 elements
    let declared := { array with kind := .array, length := length }
    modify (appendHeader (.array declared.symbol array.type.irType length))
    storeElements declared 0 elements
    return declared

end MkCompiler.Emitter
