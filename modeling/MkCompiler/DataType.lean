/-!
# Data types of MK values

The logical types a value of the language can have, the machine types that store them, and the
kinds of object an operand can stand for.
-/

namespace MkCompiler

/-- A machine type of the emitted program. -/
inductive IrType where
  | i32
  | double
  | i8
  deriving DecidableEq, Repr, Inhabited

namespace IrType

def spelling : IrType → String
  | i32 => "i32"
  | double => "double"
  | i8 => "i8"

def pointerSpelling (t : IrType) : String :=
  t.spelling ++ "*"

/-- An array type. The length is written as an unsigned 64-bit number. -/
def arraySpelling (t : IrType) (length : Int) : String :=
  "[" ++ toString (length % Nat.pow 2 64).toNat ++ " x " ++ t.spelling ++ "]"

end IrType

/-- The logical type of an MK value. An `unresolved` type is stored as an integer; `char` belongs
to the language, but no code is generated for it. -/
inductive DataType where
  | unresolved
  | int
  | real
  | char
  deriving DecidableEq, Repr, Inhabited

namespace DataType

def name : DataType → String
  | unresolved => "NONE"
  | int => "INT"
  | real => "REAL"
  | char => "CHAR"

/-- Lower case of the characters whose simple lower case is an ASCII letter; all others stay. -/
def lowerLetter (c : Char) : Char :=
  if c = '\u0130' then 'i' else if c = '\u212a' then 'k' else c.toLower

/-- Reads a type name in any case. The empty name is the unresolved type. -/
def ofName? (text : String) : Option DataType :=
  match String.ofList (text.toList.map lowerLetter) with
  | "" => some unresolved
  | "none" => some unresolved
  | "int" => some int
  | "real" => some real
  | "char" => some char
  | _ => none

/-- The type that stores a value of this type. -/
def storage : DataType → DataType
  | unresolved => int
  | t => t

/-- Whether code can be generated for values of this type. -/
def isLowered : DataType → Bool
  | char => false
  | _ => true

def irType : DataType → IrType
  | unresolved => .i32
  | int => .i32
  | real => .double
  | char => .i8

/-- The spelling of the zero of this type. -/
def zero : DataType → String
  | real => "0.0"
  | _ => "0"

@[simp]
theorem storage_storage (t : DataType) : t.storage.storage = t.storage := by
  cases t <;> rfl

@[simp]
theorem irType_storage (t : DataType) : t.storage.irType = t.irType := by
  cases t <;> rfl

@[simp]
theorem isLowered_storage (t : DataType) : t.storage.isLowered = t.isLowered := by
  cases t <;> rfl

end DataType

/-- What an operand stands for, and so how it has to be addressed. -/
inductive ObjectKind where
  | variable
  | constant
  | array
  | arrayElement
  | function
  deriving DecidableEq, Repr, Inhabited

def ObjectKind.name : ObjectKind → String
  | .variable => "VARIABLE"
  | .constant => "CONSTANT"
  | .array => "ARRAY"
  | .arrayElement => "ARRAY_ELEMENT"
  | .function => "FUNCTION"

end MkCompiler
