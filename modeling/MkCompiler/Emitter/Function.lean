import MkCompiler.Emitter.Value

/-!
# Functions

Bodies of functions and methods, returns, and calls. The result of a method call goes to a slot
that is allocated once in every function that calls the method.
-/

namespace MkCompiler.Emitter

variable {α : Type}

/-- Stores the incoming arguments, numbered from `position`, in slots of their own. -/
def bindParams (position : Nat) : List Param → Action Emitter (List Local)
  | [] => pure []
  | p :: rest => do
    let l : Local := { name := p.name, type := p.type }
    emit (.alloca l.slot p.type.irType)
    store p.type (.number position) (.frame l.slot)
    let locals ← bindParams (position + 1) rest
    return l :: locals

/-- Refuses parameters that are neither integers nor reals. -/
def checkParams (function : String) : List Param → Action Emitter Unit
  | [] => pure ()
  | p :: rest => do
    Action.require (p.type.isLowered = true ∧ p.type ≠ .unresolved)
      (.parameterNotScalar p.name function)
    checkParams function rest

/-- Opens the body of a function. The result are the variables of its parameters. -/
def openFunction (name : GlobalName) (sig : Signature) (params : List Param) :
    Action Emitter (List Local) := do
  match (← get).function with
  | some f => Action.reject (.definitionInsideFunction sig.name f.signature.name)
  | none =>
    Action.require (sig.result.isLowered = true ∧ sig.result ≠ .unresolved)
      (.returnTypeNotScalar sig.name)
    checkParams sig.name params
    let context : FunctionContext :=
      { target := .functions, nextNumber := params.length + 1, slots := ⟨.functions, 0⟩ }
    modify fun e =>
      { e with function := some ⟨sig, context⟩, output := e.output.select .functions }
    onOutput Assembly.hold
    let locals ← bindParams 0 params
    let lines ← onOutput Assembly.release
    modify (appendLines
      (.define sig.result.irType name (params.map fun p => p.type.irType) :: lines))
    let slots ← onOutput Assembly.mark
    modify (modifyActive fun c => { c with slots })
    return locals

def declareFunction (sig : Signature) (params : List Param) : Action Emitter (List Local) :=
  openFunction (.function sig.name) sig params

def declareMethod (inst : String) (sig : Signature) (params : List Param) :
    Action Emitter (List Local) :=
  openFunction (.method inst sig.name) sig params

/-- Closes the body of a function. Control cannot reach the end of a body that does not end in a
return. -/
def endFunction : Action Emitter Unit := do
  match (← get).function with
  | none => Action.reject .endOutsideFunction
  | some f =>
    Action.require (f.context.pending = [] ∧ f.context.openCompare = none)
      (.endInsideControl f.signature.name)
    if f.context.detached = false then
      emit .unreachable
    modify (appendLines [.close])
    modify fun e => { e with function := none, output := e.output.select .entryBody }

/-- Runs an operation with the output held and returns what it captured. If the program is
rejected the output is released and what was captured is lost. -/
def capture (x : Action Emitter α) : Action Emitter (α × List Line) := do
  onOutput Assembly.hold
  let a ← fun e =>
    match x e with
    | .error (.rejected v) e => (onOutput Assembly.release *> Action.reject v) e
    | r => r
  let lines ← onOutput Assembly.release
  return (a, lines)

/-- Returns a value from the open function, converted to its result type. -/
def ret (op : Operand) : Action Emitter Unit := do
  match (← get).function with
  | none => Action.reject .returnOutsideFunction
  | some f =>
    let type := f.signature.result.storage
    let (v, lines) ← capture do
      let r ← materialize op
      load (← cast r type)
    modify (appendLines (lines ++ [.instr (.ret type.irType v)]))
    modify (modifyActive fun c => { c with detached := true })

/-- Refuses arguments that do not fit the parameters of a function. `position` counts from one. -/
def checkArgTypes (function : String) (position : Nat) :
    List Operand → List DataType → Action Emitter Unit
  | arg :: args, type :: types => do
    Action.require (arg.type.storage = type.storage)
      (.argumentType position function arg.type type)
    checkArgTypes function (position + 1) args types
  | _, _ => pure ()

def checkArgs (sig : Signature) (args : List Operand) : Action Emitter Unit := do
  Action.require (args.length = sig.params.length)
    (.argumentCount sig.name sig.params.length args.length)
  checkArgTypes sig.name 1 args sig.params

/-- Reads arguments from left to right. -/
def argValues : List Operand → Action Emitter (List (IrType × Value))
  | [] => pure []
  | arg :: rest => do
    let r ← materialize arg
    let v ← load r
    let values ← argValues rest
    return (r.type.irType, v) :: values

def call (callee : GlobalName) (sig : Signature) (args : List Operand) : Action Emitter Value := do
  checkArgs sig args
  let values ← argValues args
  let n ← fresh
  emit (.call n sig.result.irType callee values)
  return .number n

/-- Calls a function. The result is in a numbered slot. -/
def callFunction (sig : Signature) (args : List Operand) : Action Emitter Register := do
  let v ← call (.function sig.name) sig args
  let slot ← allocate sig.result
  store sig.result v (.frame slot.slot)
  return slot

/-- Calls a method of an instance. The result is copied to a numbered slot. -/
def callMethod (inst : String) (sig : Signature) (args : List Operand) :
    Action Emitter Register := do
  let v ← call (.method inst sig.name) sig args
  let slot : Local := { name := "ret." ++ inst ++ "." ++ sig.name, type := sig.result }
  if slot.name ∉ (← get).active.results then
    hoist slot.slot sig.result
    modify (modifyActive fun c => { c with results := c.results ++ [slot.name] })
  store sig.result v (.frame slot.slot)
  materialize (.slot slot)

end MkCompiler.Emitter
