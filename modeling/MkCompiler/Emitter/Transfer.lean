import MkCompiler.Emitter.Variable

/-!
# Printing and scanning
-/

namespace MkCompiler.Emitter

/-- Prints a value on a line of its own. -/
def print (op : Operand) : Action Emitter Unit := do
  let r ← materialize op
  let v ← load r
  let n ← fresh
  let symbols := (← get).symbols
  emit (.print n (.external symbols.printf) (symbols.printFormat r.type) r.type.irType v)

/-- The place a scanned value goes to, and the binding that holds it then. -/
def scanTarget (type : DataType) (target : Binding) : Action Emitter (Binding × Pointer) := do
  match target with
  | .global g =>
    if g.kind = .variable then
      let b ← rebind target type
      return (b, b.pointer)
    else
      Action.require (g.kind ≠ .array) (.scanIntoArray g.name)
      Action.require (g.type.storage = type) (.scannedElementType type g.type g.name)
      let p ← elementPointer g
      return (target, p)
  | .slot _ =>
    let b ← rebind target type
    return (b, b.pointer)

/-- Scans a value into a variable or an element of an array. The result is the binding that holds
it then. -/
def scan (type : DataType) (target : Binding) : Action Emitter Binding := do
  let type := type.storage
  Action.require (type.isLowered = true) (.unsupportedScan type)
  let (b, p) ← scanTarget type target
  let n ← fresh
  let symbols := (← get).symbols
  emit (.scan n (.external symbols.scanf) (symbols.scanFormat type) type.irType p)
  return b

end MkCompiler.Emitter
