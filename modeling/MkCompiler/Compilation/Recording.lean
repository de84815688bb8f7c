import MkCompiler.Compilation.Definition

/-!
# Recording of class bodies

While a class is open its notifications are recorded. Declarations are checked when they are
recorded, so that errors in a class are reported even if it has no instance.
-/

namespace MkCompiler.Compilation

/-- Checks a notification inside the body of a class and notes what it declares there. -/
def checkRecorded (info : ClassInfo) (cmd : Command) : Action Compilation Unit := do
  let method := (← get).method
  match cmd.kind with
  | .beginClass => Action.reject (.classInsideClass cmd.name info.name)
  | .declareInstance => Action.reject (.instanceInsideClass cmd.name info.name)
  | .endProgram => Action.reject (.programEndsInsideClass info.name)
  | .declareFunction =>
    match method with
    | some m => Action.reject (.methodInsideMethod cmd.name m.name)
    | none =>
      checkSignature cmd.name cmd.type cmd.params
      let sig := Signature.ofParams cmd.name cmd.type cmd.params
      onTable (SymbolTable.declareClassMethod info.id sig)
      modify fun c => { c with method := some sig, methodReturned := false }
  | .endFunction =>
    match method with
    | none => Action.reject .endOutsideMethod
    | some m =>
      Action.require ((← get).methodReturned = true) (.missingMethodReturn m.name info.name)
      modify fun c => { c with method := none }
  | .ret =>
    Action.require (method.isSome = true) (.returnOutsideMethod info.name)
    modify fun c => { c with methodReturned := true }
  | .beginCondition | .compare | .endIf | .endWhile =>
    Action.require (method.isSome = true) (.controlOutsideMethod info.name)
  | .declareVariable =>
    if method.isNone then
      onTable (SymbolTable.declareClassField info.id (Global.ofVariable cmd.name cmd.type))
  | .declareArray =>
    match method with
    | some m => Action.reject (.arrayInsideMethod cmd.name m.name)
    | none =>
      onTable (SymbolTable.declareClassField info.id
        (Global.ofArray cmd.name cmd.type cmd.length))
  | _ => pure ()

/-- Records a notification in the body of a class. -/
def record (id : Nat) (cmd : Command) : Action Compilation Unit := do
  let info ← onTable (SymbolTable.classAt id)
  checkRecorded info cmd
  let recorded ← onTable (SymbolTable.record id cmd)
  if recorded = false then
    throw (.internal (.recordedIntoClosedClass info.name))

end MkCompiler.Compilation
