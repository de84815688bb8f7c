import MkCompiler.DataType
import MkCompiler.Operator

/-!
# Notifications

A program arrives as a stream of notifications, one for each construct, in the order in which the
constructs close in the source. A `Command` is a notification as it is recorded: its kind and all
fields a notification can have. A `Notification` has exactly the fields of its kind.
-/

namespace MkCompiler

/-- The kinds of notifications. A number that belongs to no kind is kept. -/
inductive CommandKind where
  | int
  | real
  | name
  | element
  | member
  | arith
  | call
  | callMethod
  | declareVariable
  | declareArray
  | assign
  | assignElement
  | assignMember
  | print
  | scan
  | beginCondition
  | compare
  | endIf
  | endWhile
  | ret
  | declareFunction
  | endFunction
  | beginClass
  | endClass
  | declareInstance
  | endProgram
  | unknown (code : Int)
  deriving DecidableEq, Repr, Inhabited

namespace CommandKind

/-- The kinds in the order of their numbers, with their names. -/
def table : List (CommandKind × String) :=
  [(int, "int"), (real, "real"), (name, "name"), (element, "element"), (member, "member"),
    (arith, "arith"), (call, "call"), (callMethod, "call-method"),
    (declareVariable, "declare-variable"), (declareArray, "declare-array"), (assign, "assign"),
    (assignElement, "assign-element"), (assignMember, "assign-member"), (print, "print"),
    (scan, "scan"), (beginCondition, "begin-condition"), (compare, "compare"), (endIf, "end-if"),
    (endWhile, "end-while"), (ret, "return"), (declareFunction, "declare-function"),
    (endFunction, "end-function"), (beginClass, "begin-class"), (endClass, "end-class"),
    (declareInstance, "declare-instance"), (endProgram, "end-program")]

def ofCode (n : Int) : CommandKind :=
  if n < 0 then unknown n
  else
    match table[n.toNat]? with
    | some entry => entry.1
    | none => unknown n

def ofName? (text : String) : Option CommandKind :=
  (table.find? fun entry => entry.2 = text).map Prod.fst

/-- The name of a kind. A negative number has none. -/
def name? : CommandKind → Option String
  | unknown n => if n < 0 then none else some ("CommandKind(" ++ toString n ++ ")")
  | k => table.lookup k

/-- How a kind is shown in a message. -/
def display : CommandKind → String
  | unknown n =>
    if n < 0 then
      "%!v(PANIC=String method: runtime error: index out of range [" ++ toString n ++ "])"
    else
      "CommandKind(" ++ toString n ++ ")"
  | k => (table.lookup k).getD ""

end CommandKind

/-- A parameter of a function or method. -/
structure Param where
  name : String
  type : DataType
  deriving DecidableEq, Repr, Inhabited

/-- A notification as it is recorded. Every kind reads some of the fields only. -/
structure Command where
  kind : CommandKind
  /-- The source line of the construct. -/
  line : Int := 0
  /-- The variable, array, function, method, class, instance or field. -/
  name : String := ""
  /-- The instance of a member or method, or the class of an instance. -/
  target : String := ""
  /-- The text of a literal, or the token or name of an operator. -/
  text : String := ""
  /-- The declared type of a function or array, or the type to scan. -/
  type : DataType := .unresolved
  /-- The number of arguments or initial elements. -/
  count : Int := 0
  /-- The declared length of an array; zero if it is the number of initial elements. -/
  length : Int := 0
  /-- Whether a variable declaration has an initial value. -/
  hasInit : Bool := false
  /-- The parameters of a function. -/
  params : List Param := []
  deriving DecidableEq, Repr, Inhabited

/-- What a notification says, apart from where. -/
inductive Notification where
  | int (text : String)
  | real (text : String)
  | variable (name : String)
  | element (array : String)
  | member (inst field : String)
  | arith (op : ArithOp)
  | call (name : String) (count : Int)
  | callMethod (inst method : String) (count : Int)
  | declareVariable (name : String) (hasInit : Bool)
  | declareArray (type : DataType) (name : String) (length count : Int)
  | assign (name : String)
  | assignElement (array : String)
  | assignMember (inst field : String)
  | print
  | scan (type : DataType) (name : String)
  | beginCondition
  | compare (op : Comparison)
  | endIf
  | endWhile
  | ret
  | declareFunction (result : DataType) (name : String) (params : List Param)
  | endFunction
  | beginClass (name : String)
  | endClass
  | declareInstance (className name : String)
  | endProgram
  deriving DecidableEq, Repr

namespace Notification

/-- The command that records a notification of the construct at a source line. -/
def toCommand (line : Int) : Notification → Command
  | int text => { kind := .int, line, text }
  | real text => { kind := .real, line, text }
  | .variable name => { kind := .name, line, name }
  | element array => { kind := .element, line, name := array }
  | member inst field => { kind := .member, line, target := inst, name := field }
  | arith op => { kind := .arith, line, text := op.name }
  | call name count => { kind := .call, line, name, count }
  | callMethod inst method count =>
    { kind := .callMethod, line, target := inst, name := method, count }
  | declareVariable name hasInit => { kind := .declareVariable, line, name, hasInit }
  | declareArray type name length count =>
    { kind := .declareArray, line, type, name, length, count }
  | assign name => { kind := .assign, line, name }
  | assignElement array => { kind := .assignElement, line, name := array }
  | assignMember inst field => { kind := .assignMember, line, target := inst, name := field }
  | print => { kind := .print, line }
  | scan type name => { kind := .scan, line, type, name }
  | beginCondition => { kind := .beginCondition, line }
  | compare op => { kind := .compare, line, text := op.name }
  | endIf => { kind := .endIf, line }
  | endWhile => { kind := .endWhile, line }
  | ret => { kind := .ret, line }
  | declareFunction result name params =>
    { kind := .declareFunction, line, type := result, name, params }
  | endFunction => { kind := .endFunction, line }
  | beginClass name => { kind := .beginClass, line, name }
  | endClass => { kind := .endClass, line }
  | declareInstance className name => { kind := .declareInstance, line, target := className, name }
  | endProgram => { kind := .endProgram, line }

end Notification

end MkCompiler
