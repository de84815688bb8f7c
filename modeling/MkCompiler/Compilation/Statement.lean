import MkCompiler.Compilation.Expression

/-!
# Statements

Declarations of variables and arrays, assignments, printing and scanning, control flow, returns.
-/

namespace MkCompiler.Compilation

/-- Assigns a value and installs the binding that holds it then. -/
def assignTo (b : Binding) (value : Operand) : Action Compilation Unit := do
  let next ← onEmitter (Emitter.assign b value)
  onTable (SymbolTable.rebind next)

/-- Declares a variable of the scope being compiled: of the function body, of the current instance
or of the program. -/
def declareScalar (name : String) (type : DataType) : Action Compilation Binding := do
  let c ← get
  if c.emitter.inFunction then
    let l : Local := { name, type }
    onTable (SymbolTable.declareLocal l)
    onEmitter (Emitter.declareVariable (.slot l))
    return .slot l
  else
    match c.table.instance? with
    | some inst =>
      let g := { (Global.ofVariable name type).forInstance inst.name with
        classId := inst.classId }
      onTable (SymbolTable.declareField g)
      onEmitter (Emitter.declareField g)
      return .global g
    | none =>
      let g := Global.ofVariable name type
      onTable (SymbolTable.declareGlobal g)
      onEmitter (Emitter.declareVariable (.global g))
      return .global g

/-- A variable with an initial value starts out with the type of that value. -/
def declareVariable (name : String) (hasInit : Bool) : Action Compilation Unit := do
  if hasInit then
    let value ← pop
    let b ← declareScalar name value.type
    assignTo b value
  else
    let _ ← declareScalar name .unresolved

def declareArray (name : String) (type : DataType) (length count : Int) :
    Action Compilation Unit := do
  let elements ← popMany count
  requireOutside (.arrayInsideFunction name)
  requireScalar type .array name
  Action.require (0 ≤ length) (.arrayWithoutLength name)
  let length := if length = 0 then (elements.length : Int) else length
  let array := Global.ofArray name type length
  match (← get).table.instance? with
  | some inst =>
    let array := { array.forInstance inst.name with classId := inst.classId }
    onTable (SymbolTable.declareField array)
    let declared ← onEmitter (Emitter.declareArray array length elements)
    onTable (SymbolTable.rebind (.global declared))
  | none =>
    onTable (SymbolTable.declareGlobal array)
    let declared ← onEmitter (Emitter.declareArray array length elements)
    onTable (SymbolTable.rebind (.global declared))

def assign (name : String) : Action Compilation Unit := do
  let value ← pop
  let b ← onTable (SymbolTable.lookup name)
  assignTo b value

def assignElement (array : String) : Action Compilation Unit := do
  let (index, value) ← popPair
  let g ← arrayElement array index
  let _ ← onEmitter (Emitter.assign (.global g) value)

def assignMember (inst field : String) : Action Compilation Unit := do
  let value ← pop
  let g ← instanceField inst field
  assignTo (.global g) value

def print : Action Compilation Unit := do
  let value ← pop
  onEmitter (Emitter.print value)

def scan (type : DataType) (name : String) : Action Compilation Unit := do
  requireScalar type.storage .scannedValue name
  let b ← onTable (SymbolTable.lookup name)
  let next ← onEmitter (Emitter.scan type b)
  onTable (SymbolTable.rebind next)

def beginCondition : Action Compilation Unit := do
  if (← get).emitter.conditionOpen then
    throw (.stream .conditionBegunTwice)
  else
    onEmitter Emitter.openCondition

def compare (token : String) : Action Compilation Unit :=
  match Comparison.ofToken? token with
  | none => Action.reject (.unknownComparison token)
  | some op => do
    let (left, right) ← popPair
    onEmitter (Emitter.compare left op right)

def ret : Action Compilation Unit := do
  let value ← pop
  onEmitter (Emitter.ret value)
  modify fun c => { c with returned := true }

end MkCompiler.Compilation
