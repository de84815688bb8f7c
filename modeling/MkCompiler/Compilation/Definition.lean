import MkCompiler.Compilation.Statement

/-!
# Definitions

Functions, classes, and the end of the program.
-/

namespace MkCompiler.Compilation

def checkParams : List Param → Action Compilation Unit
  | [] => pure ()
  | p :: rest => do
    requireScalar p.type .parameter p.name
    checkParams rest

/-- Refuses a signature with types other than integers and reals. -/
def checkSignature (name : String) (result : DataType) (params : List Param) :
    Action Compilation Unit := do
  requireScalar result .returnType name
  checkParams params

def declareLocals : List Local → Action Compilation Unit
  | [] => pure ()
  | l :: rest => do
    onTable (SymbolTable.declareLocal l)
    declareLocals rest

/-- Opens a function, or a method of the current instance. Methods were declared when the class was
recorded. -/
def openBody (name : String) (result : DataType) (params : List Param) :
    Action Compilation (Signature × List Local) := do
  match (← get).table.instance? with
  | some inst =>
    let c ← onTable (SymbolTable.classAt inst.classId)
    match c.methods.find? name with
    | none => throw (.fault .absentMethod)
    | some sig =>
      let locals ← onEmitter (Emitter.declareMethod inst.name sig params)
      return (sig, locals)
  | none =>
    checkSignature name result params
    let sig := Signature.ofParams name result params
    onTable (SymbolTable.declareFunction sig)
    let locals ← onEmitter (Emitter.declareFunction sig params)
    return (sig, locals)

def declareFunction (name : String) (result : DataType) (params : List Param) :
    Action Compilation Unit := do
  requireOutside (.functionInsideFunction name)
  let (sig, locals) ← openBody name result params
  modify fun c => { c with table := c.table.enterFunction }
  declareLocals locals
  modify fun c => { c with function := some sig, returned := false }

def endFunction : Action Compilation Unit := do
  let c ← get
  match c.function with
  | none => Action.reject .endOutsideFunction
  | some f =>
    Action.require (c.returned = true) (.missingReturn f.name)
    onEmitter Emitter.endFunction
    modify fun c => { c with table := c.table.leaveFunction, function := none }

def beginClass (name : String) : Action Compilation Unit := do
  requireOutside (.classInsideFunction name)
  let info ← onTable (SymbolTable.declareClass name)
  modify fun c => { c with recording := some info.id, method := none }

def endClass : Action Compilation Unit := do
  let c ← get
  match c.recording with
  | none => Action.reject .endOutsideClass
  | some id =>
    match c.method with
    | some m =>
      let info ← onTable (SymbolTable.classAt id)
      Action.reject (.classEndsInsideMethod info.name m.name)
    | none =>
      onTable (SymbolTable.freeze id)
      modify fun c => { c with recording := none }

def endProgram : Action Compilation Unit := do
  match (← get).function with
  | some f => Action.reject (.programEndsInsideFunction f.name)
  | none =>
    let lines ← onEmitter Emitter.finish
    modify fun c => { c with program := some lines }

end MkCompiler.Compilation
