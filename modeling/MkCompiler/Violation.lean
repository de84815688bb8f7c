import MkCompiler.Text.Quoted
import MkCompiler.DataType

/-!
# Violations

Everything a program can do wrong, by cause. The kind under which a violation is reported and its
wording are functions of the cause.
-/

namespace MkCompiler

/-- The kinds of compilation errors. A number that belongs to no kind is kept. -/
inductive ErrorKind where
  | duplicateDeclaration
  | unknownIdentifier
  | arityMismatch
  | typeMismatch
  | missingReturn
  | scopeViolation
  | arrayOverflow
  | reservedNameViolation
  | unknown (code : Int)
  deriving DecidableEq, Repr, Inhabited

namespace ErrorKind

def ofCode (n : Int) : ErrorKind :=
  if n = 0 then duplicateDeclaration
  else if n = 1 then unknownIdentifier
  else if n = 2 then arityMismatch
  else if n = 3 then typeMismatch
  else if n = 4 then missingReturn
  else if n = 5 then scopeViolation
  else if n = 6 then arrayOverflow
  else if n = 7 then reservedNameViolation
  else unknown n

/-- The name of a kind. A negative number has none. -/
def name? : ErrorKind → Option String
  | duplicateDeclaration => some "DuplicateDeclaration"
  | unknownIdentifier => some "UnknownIdentifier"
  | arityMismatch => some "ArityMismatch"
  | typeMismatch => some "TypeMismatch"
  | missingReturn => some "MissingReturn"
  | scopeViolation => some "ScopeViolation"
  | arrayOverflow => some "ArrayOverflow"
  | reservedNameViolation => some "ReservedNameViolation"
  | unknown n => if n < 0 then none else some ("ErrorKind(" ++ toString n ++ ")")

end ErrorKind

/-- The control constructs that have a condition. -/
inductive ControlKind where
  | conditional
  | loop
  deriving DecidableEq, Repr, Inhabited

def ControlKind.name : ControlKind → String
  | .conditional => "if"
  | .loop => "while"

/-- Where a declaration gives a type that has to be an integer or a real. -/
inductive TypedPlace where
  | array
  | scannedValue
  | returnType
  | parameter
  deriving DecidableEq, Repr, Inhabited

def TypedPlace.description : TypedPlace → String
  | .array => "array"
  | .scannedValue => "scanned value"
  | .returnType => "return type of"
  | .parameter => "parameter"

/-- What a program can do wrong. -/
inductive Violation where
  -- names
  | nameOfClass (name : String)
  | nameOfInstance (name : String)
  | variableExists (name : String)
  | unknownVariable (name : String)
  | reservedName (name : String)
  -- fields and locals
  | fieldOutsideInstance (name : String)
  | fieldExists (name inst : String)
  | localOutsideFunction (name : String)
  | localExists (name : String)
  | unknownInstance (name : String)
  | unknownField (inst name : String)
  | unknownMethod (inst name : String)
  -- functions
  | functionExists (name : String)
  | entryPointCalled (name : String)
  | unknownFunction (name : String)
  | functionInsideFunction (name outer : String)
  | definitionInsideFunction (name outer : String)
  | returnTypeNotScalar (name : String)
  | parameterNotScalar (name function : String)
  | endOutsideFunction
  | endInsideControl (function : String)
  | returnOutsideFunction
  | missingReturn (function : String)
  | argumentCount (function : String) (expected actual : Nat)
  | argumentType (position : Nat) (function : String) (actual expected : DataType)
  -- classes
  | unknownClass (name : String)
  | classFieldExists (name className : String)
  | classMethodExists (name className : String)
  | instanceOfOpenClass (className : String)
  | classInsideFunction (name outer : String)
  | instanceInsideFunction (name outer : String)
  | endOutsideClass
  | classEndsInsideMethod (className method : String)
  | classInsideClass (name className : String)
  | instanceInsideClass (name className : String)
  | programEndsInsideClass (className : String)
  | methodInsideMethod (name outer : String)
  | endOutsideMethod
  | missingMethodReturn (method className : String)
  | returnOutsideMethod (className : String)
  | controlOutsideMethod (className : String)
  | arrayInsideMethod (name method : String)
  -- values
  | malformedInteger (text : String)
  | malformedReal (text : String)
  | unknownArithmetic (token : String)
  | unknownComparison (token : String)
  | unsupportedValue (type : DataType)
  | unsupportedVariable (type : DataType)
  | notScalar (place : TypedPlace) (name : String) (type : DataType)
  | unsupportedScan (type : DataType)
  -- arrays
  | arrayAsValue (name : String)
  | notAnArray (name : String)
  | indexType (array : String) (type : DataType)
  | indexOutOfBounds (index : Int) (array : String) (length : Int)
  | assignToArray (name : String)
  | scanIntoArray (name : String)
  | elementType (value : DataType) (type : DataType) (array : String)
  | scannedElementType (value : DataType) (type : DataType) (array : String)
  | arrayInsideFunction (name function : String)
  | unsupportedArray (type : DataType)
  | arrayWithoutLength (name : String)
  | tooManyElements (count : Nat) (array : String) (length : Int)
  | initialElementType (position : Nat) (array : String) (actual expected : DataType)
  -- control flow
  | closeWithoutCondition (kind : ControlKind)
  | programEndsInsideFunction (function : String)
  | programEndsInsideControl
  deriving DecidableEq, Repr

namespace Violation

def kind : Violation → ErrorKind
  | nameOfClass _ => .duplicateDeclaration
  | nameOfInstance _ => .duplicateDeclaration
  | variableExists _ => .duplicateDeclaration
  | unknownVariable _ => .unknownIdentifier
  | reservedName _ => .reservedNameViolation
  | fieldOutsideInstance _ => .scopeViolation
  | fieldExists _ _ => .duplicateDeclaration
  | localOutsideFunction _ => .scopeViolation
  | localExists _ => .duplicateDeclaration
  | unknownInstance _ => .unknownIdentifier
  | unknownField _ _ => .unknownIdentifier
  | unknownMethod _ _ => .unknownIdentifier
  | functionExists _ => .duplicateDeclaration
  | entryPointCalled _ => .reservedNameViolation
  | unknownFunction _ => .unknownIdentifier
  | functionInsideFunction _ _ => .scopeViolation
  | definitionInsideFunction _ _ => .scopeViolation
  | returnTypeNotScalar _ => .typeMismatch
  | parameterNotScalar _ _ => .typeMismatch
  | endOutsideFunction => .scopeViolation
  | endInsideControl _ => .scopeViolation
  | returnOutsideFunction => .scopeViolation
  | missingReturn _ => .missingReturn
  | argumentCount _ _ _ => .arityMismatch
  | argumentType _ _ _ _ => .typeMismatch
  | unknownClass _ => .unknownIdentifier
  | classFieldExists _ _ => .duplicateDeclaration
  | classMethodExists _ _ => .duplicateDeclaration
  | instanceOfOpenClass _ => .scopeViolation
  | classInsideFunction _ _ => .scopeViolation
  | instanceInsideFunction _ _ => .scopeViolation
  | endOutsideClass => .scopeViolation
  | classEndsInsideMethod _ _ => .scopeViolation
  | classInsideClass _ _ => .scopeViolation
  | instanceInsideClass _ _ => .scopeViolation
  | programEndsInsideClass _ => .scopeViolation
  | methodInsideMethod _ _ => .scopeViolation
  | endOutsideMethod => .scopeViolation
  | missingMethodReturn _ _ => .missingReturn
  | returnOutsideMethod _ => .scopeViolation
  | controlOutsideMethod _ => .scopeViolation
  | arrayInsideMethod _ _ => .scopeViolation
  | malformedInteger _ => .typeMismatch
  | malformedReal _ => .typeMismatch
  | unknownArithmetic _ => .typeMismatch
  | unknownComparison _ => .typeMismatch
  | unsupportedValue _ => .typeMismatch
  | unsupportedVariable _ => .typeMismatch
  | notScalar _ _ _ => .typeMismatch
  | unsupportedScan _ => .typeMismatch
  | arrayAsValue _ => .typeMismatch
  | notAnArray _ => .typeMismatch
  | indexType _ _ => .typeMismatch
  | indexOutOfBounds _ _ _ => .arrayOverflow
  | assignToArray _ => .typeMismatch
  | scanIntoArray _ => .typeMismatch
  | elementType _ _ _ => .typeMismatch
  | scannedElementType _ _ _ => .typeMismatch
  | arrayInsideFunction _ _ => .scopeViolation
  | unsupportedArray _ => .typeMismatch
  | arrayWithoutLength _ => .typeMismatch
  | tooManyElements _ _ _ => .arrayOverflow
  | initialElementType _ _ _ _ => .typeMismatch
  | closeWithoutCondition _ => .scopeViolation
  | programEndsInsideFunction _ => .scopeViolation
  | programEndsInsideControl => .scopeViolation

def message : Violation → String
  | nameOfClass name => "name " ++ name ++ " is already used by a class"
  | nameOfInstance name => "name " ++ name ++ " is already used by an instance"
  | variableExists name => "declaring already existing variable " ++ name
  | unknownVariable name => "using non-existing variable " ++ name
  | reservedName name => name ++ " is reserved for the program entry point"
  | fieldOutsideInstance name => "declaring field " ++ name ++ " outside a class instance"
  | fieldExists name inst => "declaring already existing field " ++ name ++ " of " ++ inst
  | localOutsideFunction name =>
    "declaring local variable " ++ name ++ " outside a function body"
  | localExists name => "declaring already existing variable " ++ name ++ " in function body"
  | unknownInstance name => "using non-existing instance " ++ name
  | unknownField inst name => "instance " ++ inst ++ " has no field " ++ name
  | unknownMethod inst name => "instance " ++ inst ++ " has no method " ++ name
  | functionExists name => "defining already existing function " ++ name
  | entryPointCalled name => "the program entry point " ++ name ++ " cannot be called"
  | unknownFunction name => "calling non-existing function " ++ name
  | functionInsideFunction name outer =>
    "declaring function " ++ name ++ " inside the body of " ++ outer
  | definitionInsideFunction name outer => "declaring " ++ name ++ " inside the body of " ++ outer
  | returnTypeNotScalar name => "return type of " ++ name ++ " must be INT or REAL"
  | parameterNotScalar name function =>
    "parameter " ++ name ++ " of " ++ function ++ " must be INT or REAL"
  | endOutsideFunction => "closing a function outside of a function body"
  | endInsideControl function =>
    "body of " ++ function ++ " ends inside an unclosed control construct"
  | returnOutsideFunction => "returning outside of a function body"
  | missingReturn function => "function " ++ function ++ " has no return statement"
  | argumentCount function expected actual =>
    function ++ " expects " ++ toString expected ++ " arguments, got " ++ toString actual
  | argumentType position function actual expected =>
    "argument no. " ++ toString position ++ " of " ++ function ++ " type is " ++ actual.name ++
      ", expected " ++ expected.name
  | unknownClass name => "using non-existing class " ++ name
  | classFieldExists name className =>
    "declaring already existing field " ++ name ++ " in class " ++ className
  | classMethodExists name className =>
    "defining already existing method " ++ name ++ " in class " ++ className
  | instanceOfOpenClass className => "instantiating class " ++ className ++ " inside its own body"
  | classInsideFunction name outer => "declaring class " ++ name ++ " inside the body of " ++ outer
  | instanceInsideFunction name outer =>
    "declaring instance " ++ name ++ " inside the body of " ++ outer
  | endOutsideClass => "closing a class outside of a class body"
  | classEndsInsideMethod className method =>
    "class " ++ className ++ " ends inside the body of method " ++ method
  | classInsideClass name className =>
    "declaring class " ++ name ++ " inside the body of class " ++ className
  | instanceInsideClass name className =>
    "declaring instance " ++ name ++ " inside the body of class " ++ className
  | programEndsInsideClass className => "program ends inside the body of class " ++ className
  | methodInsideMethod name outer => "declaring method " ++ name ++ " inside the body of " ++ outer
  | endOutsideMethod => "closing a method outside of a method body"
  | missingMethodReturn method className =>
    "method " ++ method ++ " of class " ++ className ++ " has no return statement"
  | returnOutsideMethod className => "returning outside of a method body in class " ++ className
  | controlOutsideMethod className => "control flow outside of a method body in class " ++ className
  | arrayInsideMethod name method =>
    "array " ++ name ++ " declared inside the body of method " ++ method
  | malformedInteger text => "malformed integer literal " ++ Quoted.encode text
  | malformedReal text => "malformed real literal " ++ Quoted.encode text
  | unknownArithmetic token => "unknown arithmetic operator `" ++ token ++ "`"
  | unknownComparison token => "unknown comparison operator `" ++ token ++ "`"
  | unsupportedValue type => "values of type " ++ type.name ++ " are not supported"
  | unsupportedVariable type => "variables of type " ++ type.name ++ " are not supported"
  | notScalar place name type =>
    place.description ++ " " ++ name ++ " must be INT or REAL, got " ++ type.name
  | unsupportedScan type => "cannot scan a value of type " ++ type.name
  | arrayAsValue name => "array " ++ name ++ " cannot be used as a value"
  | notAnArray name => name ++ " is not an array"
  | indexType array type => "index of array " ++ array ++ " is " ++ type.name ++ ", expected INT"
  | indexOutOfBounds index array length =>
    "index " ++ toString index ++ " is out of bounds of array " ++ array ++ " of length " ++
      toString length
  | assignToArray name => "cannot assign a value to array " ++ name
  | scanIntoArray name => "cannot scan into array " ++ name
  | elementType value type array =>
    "assigning " ++ value.name ++ " to an element of " ++ type.name ++ " array " ++ array
  | scannedElementType value type array =>
    "scanning " ++ value.name ++ " into an element of " ++ type.name ++ " array " ++ array
  | arrayInsideFunction name function =>
    "array " ++ name ++ " declared inside the body of " ++ function
  | unsupportedArray type => "arrays of type " ++ type.name ++ " are not supported"
  | arrayWithoutLength name => "array " ++ name ++ " must have a positive length"
  | tooManyElements count array length =>
    "assigning " ++ toString count ++ " elements to array " ++ array ++ " of length " ++
      toString length
  | initialElementType position array actual expected =>
    "element no. " ++ toString position ++ " of array " ++ array ++ " is " ++ actual.name ++
      ", expected " ++ expected.name
  | closeWithoutCondition kind => "closing " ++ kind.name ++ " without an open condition"
  | programEndsInsideFunction function => "program ends inside the body of " ++ function
  | programEndsInsideControl => "program ends inside an unclosed control construct"

end Violation

/-- A report on a construct of the source program. -/
structure Diagnostic where
  kind : ErrorKind
  line : Int
  message : String
  file : String
  deriving DecidableEq, Repr

/-- The wording of a report with its place. -/
def Diagnostic.text (d : Diagnostic) : String :=
  "Compilation error at line " ++ toString d.line ++ " - " ++ d.message ++ " in " ++ d.file

/-- A violation with the source position it is reported at. -/
structure CompileError where
  violation : Violation
  line : Int
  file : String
  deriving DecidableEq, Repr

def CompileError.diagnostic (e : CompileError) : Diagnostic :=
  ⟨e.violation.kind, e.line, e.violation.message, e.file⟩

/-- The wording of a compilation error. -/
def CompileError.message (e : CompileError) : String :=
  e.diagnostic.text

end MkCompiler
