import MkCompiler.Ir.Name
import MkCompiler.Literal

/-!
# Operands

The values that the constructs of a program hand to one another: literals, variables and array
elements of the program or of an instance, variables of a function body, and numbered stack slots
that hold intermediate results.
-/

namespace MkCompiler

/-- The handle that stands for no class. -/
def noClass : Int := -1

/-- Program-level storage: a variable, an array, or the array an element belongs to. Each change of
a variable's storage type gives it a new version with a cell of its own. A field carries its class
and the instance that owns the storage; a field of a class without instance carries the class
only. -/
structure Cell where
  name : String
  type : DataType := .unresolved
  version : Int := 0
  kind : ObjectKind := .variable
  length : Int := 0
  classId : Int := noClass
  inst : String := ""
  deriving DecidableEq, Repr, Inhabited

/-- The symbol of the storage. All elements of an array share the symbol of the array. -/
def Cell.symbol (c : Cell) : GlobalName :=
  if c.kind = .variable then .cell c.inst c.name c.version else .array c.inst c.name

/-- A variable of the function body being compiled. -/
structure Local where
  name : String
  type : DataType := .unresolved
  version : Int := 0
  deriving DecidableEq, Repr, Inhabited

def Local.slot (l : Local) : LocalName :=
  .slot l.name l.version

/-- A numbered stack slot that holds an intermediate value. -/
structure Register where
  number : Int
  type : DataType
  deriving DecidableEq, Repr, Inhabited

def Register.slot (r : Register) : LocalName :=
  .number r.number

inductive Operand where
  | literal (l : Literal)
  | global (c : Cell)
  | element (c : Cell) (index : Operand)
  | slot (l : Local)
  | register (r : Register)
  deriving DecidableEq, Repr, Inhabited

namespace Operand

def type : Operand → DataType
  | literal l => l.type
  | global c => c.type
  | element c _ => c.type
  | slot l => l.type
  | register r => r.type

def kind : Operand → ObjectKind
  | literal _ => .constant
  | global c => c.kind
  | element c _ => c.kind
  | slot _ => .variable
  | register _ => .variable

/-- The source name of an operand that has one. -/
def name : Operand → String
  | global c => c.name
  | element c _ => c.name
  | slot l => l.name
  | _ => ""

end Operand

/-- What a program-level name is bound to: storage, together with an index if it is an element of
an array. -/
structure Global extends Cell where
  index : Option Operand := none
  deriving DecidableEq, Repr, Inhabited

namespace Global

def toOperand (g : Global) : Operand :=
  match g.index with
  | none => .global g.toCell
  | some i => .element g.toCell i

/-- The same variable at another version, holding another type. -/
def withVersion (g : Global) (version : Int) (type : DataType) : Global :=
  { g with version, type }

/-- An element of an array. -/
def element (g : Global) (index : Operand) : Global :=
  { g with kind := .arrayElement, index := some index }

/-- A field bound to the instance that owns its storage. -/
def forInstance (g : Global) (inst : String) : Global :=
  { g with inst }

/-- A new variable. -/
def ofVariable (name : String) (type : DataType) : Global :=
  { name, type }

/-- A new array. -/
def ofArray (name : String) (type : DataType) (length : Int) : Global :=
  { name, type, kind := .array, length }

end Global

/-- The same variable at another version, holding another type. -/
def Local.withVersion (l : Local) (version : Int) (type : DataType) : Local :=
  { l with version, type }

/-- What a name can be bound to. -/
inductive Binding where
  | global (g : Global)
  | slot (l : Local)
  deriving DecidableEq, Repr, Inhabited

namespace Binding

def toOperand : Binding → Operand
  | global g => g.toOperand
  | slot l => .slot l

def type : Binding → DataType
  | global g => g.type
  | slot l => l.type

def kind : Binding → ObjectKind
  | global g => g.kind
  | slot _ => .variable

def name : Binding → String
  | global g => g.name
  | slot l => l.name

def version : Binding → Int
  | global g => g.version
  | slot l => l.version

/-- Where the value of a binding is stored. -/
def pointer : Binding → Pointer
  | global g => .global g.symbol
  | slot l => .frame l.slot

/-- The same variable at another version, holding another type. -/
def withVersion (b : Binding) (version : Int) (type : DataType) : Binding :=
  match b with
  | global g => global (g.withVersion version type)
  | slot l => slot (l.withVersion version type)

@[simp]
theorem type_toOperand (b : Binding) : b.toOperand.type = b.type := by
  cases b with
  | global g => cases h : g.index <;> simp [toOperand, Global.toOperand, type, Operand.type, h]
  | slot l => rfl

@[simp]
theorem kind_toOperand (b : Binding) : b.toOperand.kind = b.kind := by
  cases b with
  | global g => cases h : g.index <;> simp [toOperand, Global.toOperand, kind, Operand.kind, h]
  | slot l => rfl

end Binding

end MkCompiler
