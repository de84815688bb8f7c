import MkCompiler.Emitter.Basic

/-!
# Values

Reading operands, converting between integers and reals, and arithmetic.
-/

namespace MkCompiler.Emitter

/-- Computes the address of an array element. The index is extended to 64 bits. -/
def address (c : Cell) (index : Value) : Action Emitter Pointer := do
  let wide ← fresh
  emit (.extend wide index)
  let n ← fresh
  emit (.element n c.type.irType c.length c.symbol wide)
  return .frame (.number n)

/-- Reads an operand. A literal needs no instructions. -/
def value : Operand → Action Emitter Value
  | .literal l => do
    checkLowered (.literal l)
    return .constant l.text
  | .register r => do
    checkLowered (.register r)
    load r
  | .slot l => do
    checkLowered (.slot l)
    loadFrom l.type (.frame l.slot)
  | .global c => do
    checkLowered (.global c)
    if c.kind = .arrayElement then
      throw (.fault .absentIndex)
    else
      loadFrom c.type (.global c.symbol)
  | .element c index => do
    checkLowered (.element c index)
    if c.kind = .arrayElement then
      let i ← value index
      let p ← address c i
      loadFrom c.type p
    else
      loadFrom c.type (.global c.symbol)

/-- The address of the element a binding refers to. -/
def elementPointer (g : Global) : Action Emitter Pointer :=
  match g.index with
  | none => throw (.fault .absentIndex)
  | some index => do
    let i ← value index
    address g.toCell i

/-- Copies the current value of an operand to a numbered slot. A numbered slot stays as it is. -/
def materialize (op : Operand) : Action Emitter Register :=
  match op with
  | .register r => pure r
  | _ => do
    checkLowered op
    let slot ← allocate op.type.storage
    let v ← value op
    store slot.type v (.frame slot.slot)
    return slot

/-- Converts the value in a numbered slot. A value of the wanted type stays where it is. -/
def cast (r : Register) (target : DataType) : Action Emitter Register := do
  let source := r.type.storage
  let target := target.storage
  if source = target then
    return r
  else
    let slot ← allocate target
    let v ← load r
    let n ← fresh
    let op := if target = .real then Conversion.toReal else Conversion.toInteger
    emit (.convert n op source.irType v target.irType)
    store target (.number n) (.frame slot.slot)
    return slot

/-- Copies two operands to numbered slots, as reals if one of them is real or if `force` is set. -/
def widen (left right : Operand) (force : Bool) : Action Emitter (Register × Register) := do
  let l ← materialize left
  let r ← materialize right
  if force = true ∨ l.type = .real ∨ r.type = .real then
    let l ← cast l .real
    let r ← cast r .real
    return (l, r)
  else
    return (l, r)

/-- Applies an arithmetic operator. Division works on reals only. -/
def arithmetic (left : Operand) (op : ArithOp) (right : Operand) : Action Emitter Register := do
  let (l, r) ← widen left right (op = .div)
  match op.opcode? l.type with
  | none => throw (.internal (.operatorWithoutOpcode op l.type))
  | some opcode =>
    let result ← allocate l.type
    let lv ← load l
    let rv ← load r
    let n ← fresh
    emit (.binary n opcode l.type.irType lv rv)
    store l.type (.number n) (.frame result.slot)
    return result

/-- Refers to an element of an array. A literal index has to lie within the array; other indices
are not checked. -/
def element (array : Binding) (index : Operand) : Action Emitter Global :=
  match array with
  | .slot l => Action.reject (.notAnArray l.name)
  | .global g => do
    Action.require (g.kind = .array) (.notAnArray g.name)
    Action.require (index.type.storage = .int) (.indexType g.name index.type)
    checkLowered index
    match index with
    | .literal l =>
      let n := Numeral.clamped64 l.text.toList
      Action.require (0 ≤ n ∧ n < g.length) (.indexOutOfBounds n g.name g.length)
    | _ => pure ()
    return g.element index

end MkCompiler.Emitter
