import MkCompiler.Compilation.Basic

/-!
# Expressions

Every expression pops its operands and pushes one operand.
-/

namespace MkCompiler.Compilation

def int (text : String) : Action Compilation Unit :=
  match Literal.int? text with
  | some l => push (.literal l)
  | none => Action.reject (.malformedInteger text)

def real (text : String) : Action Compilation Unit :=
  match Literal.real? text with
  | some l => push (.literal l)
  | none => Action.reject (.malformedReal text)

def name (name : String) : Action Compilation Unit := do
  let b ← onTable (SymbolTable.lookup name)
  push b.toOperand

/-- An element of a named array. -/
def arrayElement (array : String) (index : Operand) : Action Compilation Global := do
  let b ← onTable (SymbolTable.lookup array)
  onEmitter (Emitter.element b index)

def element (array : String) : Action Compilation Unit := do
  let index ← pop
  let g ← arrayElement array index
  push g.toOperand

/-- A field of a named instance. -/
def instanceField (inst field : String) : Action Compilation Global := do
  let i ← onTable (SymbolTable.lookupInstance inst)
  match i.fields.find? field with
  | some g => return g
  | none => Action.reject (.unknownField inst field)

def member (inst field : String) : Action Compilation Unit := do
  let g ← instanceField inst field
  push g.toOperand

def arith (token : String) : Action Compilation Unit :=
  match ArithOp.ofToken? token with
  | none => Action.reject (.unknownArithmetic token)
  | some op => do
    let (left, right) ← popPair
    let r ← onEmitter (Emitter.arithmetic left op right)
    push (.register r)

/-- The method that a bare call names inside a class body: methods of the current instance come
before functions. -/
def ownMethod? (name : String) : Action Compilation (Option (InstanceInfo × Signature)) := do
  match (← get).table.instance? with
  | none => return none
  | some inst =>
    let c ← onTable (SymbolTable.classAt inst.classId)
    return (c.methods.find? name).map fun sig => (inst, sig)

def call (name : String) (count : Int) : Action Compilation Unit := do
  let args ← popMany count
  match ← ownMethod? name with
  | some (inst, sig) =>
    let r ← onEmitter (Emitter.callMethod inst.name sig args)
    push (.register r)
  | none =>
    let sig ← onTable (SymbolTable.lookupFunction name)
    let r ← onEmitter (Emitter.callFunction sig args)
    push (.register r)

def callMethod (inst method : String) (count : Int) : Action Compilation Unit := do
  let args ← popMany count
  let i ← onTable (SymbolTable.lookupInstance inst)
  let c ← onTable (SymbolTable.classAt i.classId)
  match c.methods.find? method with
  | none => Action.reject (.unknownMethod i.name method)
  | some sig =>
    let r ← onEmitter (Emitter.callMethod i.name sig args)
    push (.register r)

end MkCompiler.Compilation
