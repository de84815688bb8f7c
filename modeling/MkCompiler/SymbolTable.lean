import MkCompiler.Command
import MkCompiler.Failure
import MkCompiler.Operand
import MkCompiler.Scope

/-!
# Symbol table

All names of one program: its variables and arrays, the variables of the function body being
compiled, functions, classes and instances. A declaration that is refused leaves the table as it
was.
-/

namespace MkCompiler

/-- Both spellings of the entry point are taken. -/
def isReservedName (name : String) : Bool :=
  name = "main" || name = "Main"

/-- The signature of a function or method. -/
structure Signature where
  name : String
  result : DataType
  params : List DataType
  deriving DecidableEq, Repr, Inhabited

def Signature.ofParams (name : String) (result : DataType) (params : List Param) : Signature :=
  ⟨name, result, params.map Param.type⟩

/-- A class. Its fields carry no instance. Its body is recorded and run again for every instance;
once the class is closed it does not change any more. -/
structure ClassInfo where
  id : Nat
  name : String
  fields : Scope Global := .empty
  methods : Scope Signature := .empty
  commands : List Command := []
  frozen : Bool := false
  deriving DecidableEq, Repr, Inhabited

/-- An instance of a class, with the storage of its fields. -/
structure InstanceInfo where
  name : String
  classId : Nat
  fields : Scope Global := .empty
  deriving DecidableEq, Repr, Inhabited

structure SymbolTable where
  globals : Scope Global := .empty
  /-- The variables of the function body being compiled, if there is one. -/
  locals : Option (Scope Local) := none
  functions : Scope Signature := .empty
  /-- The classes, at the position of their handle. -/
  classes : List ClassInfo := []
  /-- The handles of the classes under their names. -/
  classNames : Scope Nat := .empty
  instances : Scope InstanceInfo := .empty
  /-- The instance whose class body is being run. -/
  current : Option String := none
  deriving DecidableEq, Repr, Inhabited

namespace SymbolTable

variable {α : Type}

def class? (t : SymbolTable) (name : String) : Option ClassInfo :=
  (t.classNames.find? name).bind fun id => t.classes[id]?

/-- The fields visible in the instance whose class body is being run. -/
def currentFields (t : SymbolTable) : Scope Global :=
  match t.current.bind t.instances.find? with
  | some inst => inst.fields
  | none => .empty

/-- What a name stands for: a variable of the function body, a field of the current instance, or a
variable of the program, in this order. -/
def resolve? (t : SymbolTable) (name : String) : Option Binding :=
  match t.locals.bind (·.find? name) with
  | some l => some (.slot l)
  | none =>
    match t.currentFields.find? name with
    | some f => some (.global f)
    | none => (t.globals.find? name).map .global

/-- Refuses a new program-level name that is in use. -/
def checkProgramName (name : String) : Action SymbolTable Unit := do
  let t ← get
  Action.require ((t.classNames.find? name).isNone) (.nameOfClass name)
  Action.require ((t.instances.find? name).isNone) (.nameOfInstance name)
  Action.require ((t.globals.find? name).isNone) (.variableExists name)

def declareGlobal (g : Global) : Action SymbolTable Unit := do
  checkProgramName g.name
  modify fun t => { t with globals := t.globals.insert g.name g }

/-- Declares a field of the current instance. -/
def declareField (g : Global) : Action SymbolTable Unit := do
  let t ← get
  match t.current with
  | none => Action.reject (.fieldOutsideInstance g.name)
  | some name =>
    match t.instances.find? name with
    | none => throw (.fault .absentInstance)
    | some inst =>
      Action.require ((inst.fields.find? g.name).isNone) (.fieldExists g.name inst.name)
      let fields := inst.fields.insert g.name g
      set { t with instances := t.instances.insert name { inst with fields } }

def enterFunction (t : SymbolTable) : SymbolTable :=
  { t with locals := some .empty }

def leaveFunction (t : SymbolTable) : SymbolTable :=
  { t with locals := none }

def declareLocal (l : Local) : Action SymbolTable Unit := do
  let t ← get
  match t.locals with
  | none => Action.reject (.localOutsideFunction l.name)
  | some locals =>
    Action.require ((locals.find? l.name).isNone) (.localExists l.name)
    set { t with locals := some (locals.insert l.name l) }

def lookup (name : String) : Action SymbolTable Binding := do
  let t ← get
  match t.resolve? name with
  | some b => return b
  | none => Action.reject (.unknownVariable name)

/-- Installs a new version of a binding in the scope that owns it. -/
def rebind (b : Binding) : Action SymbolTable Unit := do
  let t ← get
  match b with
  | .slot l =>
    match t.locals with
    | none => throw (.fault .absentLocals)
    | some locals => set { t with locals := some (locals.insert l.name l) }
  | .global g =>
    if g.inst = "" then
      set { t with globals := t.globals.insert g.name g }
    else
      match t.instances.find? g.inst with
      | none => throw (.fault .absentInstance)
      | some inst =>
        let fields := inst.fields.insert g.name g
        set { t with instances := t.instances.insert g.inst { inst with fields } }

def declareFunction (sig : Signature) : Action SymbolTable Unit := do
  let t ← get
  Action.require (isReservedName sig.name = false) (.reservedName sig.name)
  Action.require ((t.functions.find? sig.name).isNone) (.functionExists sig.name)
  set { t with functions := t.functions.insert sig.name sig }

def lookupFunction (name : String) : Action SymbolTable Signature := do
  let t ← get
  Action.require (isReservedName name = false) (.entryPointCalled name)
  match t.functions.find? name with
  | some sig => return sig
  | none => Action.reject (.unknownFunction name)

/-- Declares a class and opens it for recording. -/
def declareClass (name : String) : Action SymbolTable ClassInfo := do
  Action.require (isReservedName name = false) (.reservedName name)
  checkProgramName name
  let t ← get
  let c : ClassInfo := { id := t.classes.length, name }
  set { t with classes := t.classes ++ [c], classNames := t.classNames.insert name c.id }
  return c

/-- The class with a handle. -/
def classAt (id : Int) : Action SymbolTable ClassInfo := do
  let t ← get
  match (if id < 0 then none else t.classes[id.toNat]?) with
  | some c => return c
  | none => throw (.fault .outOfRange)

def lookupClass (name : String) : Action SymbolTable ClassInfo := do
  let t ← get
  match t.classNames.find? name with
  | some id => classAt id
  | none => Action.reject (.unknownClass name)

/-- Replaces the class with a handle. -/
def setClass (t : SymbolTable) (c : ClassInfo) : SymbolTable :=
  { t with classes := t.classes.set c.id c }

/-- Adds a field to an open class. -/
def declareClassField (id : Nat) (g : Global) : Action SymbolTable Unit := do
  let c ← classAt id
  Action.require ((c.fields.find? g.name).isNone) (.classFieldExists g.name c.name)
  let field := { g with classId := c.id }
  modify fun t => t.setClass { c with fields := c.fields.insert g.name field }

/-- Adds a method to an open class. -/
def declareClassMethod (id : Nat) (sig : Signature) : Action SymbolTable Unit := do
  Action.require (isReservedName sig.name = false) (.reservedName sig.name)
  let c ← classAt id
  Action.require ((c.methods.find? sig.name).isNone) (.classMethodExists sig.name c.name)
  modify fun t => t.setClass { c with methods := c.methods.insert sig.name sig }

/-- Adds a command to the body of a class. The result is false if the class is closed. -/
def record (id : Nat) (cmd : Command) : Action SymbolTable Bool := do
  let c ← classAt id
  if c.frozen then
    return false
  else
    modify fun t => t.setClass { c with commands := c.commands ++ [cmd] }
    return true

/-- Closes a class. -/
def freeze (id : Nat) : Action SymbolTable Unit := do
  let c ← classAt id
  modify fun t => t.setClass { c with frozen := true }

/-- Declares an instance of a closed class. -/
def declareInstance (name className : String) : Action SymbolTable InstanceInfo := do
  let c ← lookupClass className
  Action.require (c.frozen = true) (.instanceOfOpenClass className)
  Action.require (isReservedName name = false) (.reservedName name)
  checkProgramName name
  let inst : InstanceInfo := { name, classId := c.id }
  modify fun t => { t with instances := t.instances.insert name inst }
  return inst

def lookupInstance (name : String) : Action SymbolTable InstanceInfo := do
  let t ← get
  match t.instances.find? name with
  | some inst => return inst
  | none => Action.reject (.unknownInstance name)

/-- Sets the instance whose class body is being run. -/
def setInstance (t : SymbolTable) (current : Option String) : SymbolTable :=
  { t with current }

/-- The instance whose class body is being run. -/
def instance? (t : SymbolTable) : Option InstanceInfo :=
  t.current.bind t.instances.find?

end SymbolTable

end MkCompiler
