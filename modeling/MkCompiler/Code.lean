import MkCompiler.Operator

/-!
# Numbers of types and operators

Data types, kinds of object, operators and comparisons can be given by number. The functions on
numbers agree with those on the enumerations and extend them to the numbers outside: such a number
is a type that is stored as it is, spelled like a character and lowered; an operator spelled like
the last one of its kind; and it has no name of its own.
-/

namespace MkCompiler

namespace DataType

def ofCode? (n : Int) : Option DataType :=
  if n = 0 then some unresolved
  else if n = 1 then some int
  else if n = 2 then some real
  else if n = 3 then some char
  else none

def code : DataType → Int
  | unresolved => 0
  | int => 1
  | real => 2
  | char => 3

@[simp]
theorem ofCode?_code (t : DataType) : ofCode? t.code = some t := by
  cases t <;> rfl

def codeStorage (n : Int) : Int :=
  match ofCode? n with
  | some t => t.storage.code
  | none => n

def codeIsLowered (n : Int) : Bool :=
  match ofCode? n with
  | some t => t.isLowered
  | none => true

def codeIrType (n : Int) : IrType :=
  match ofCode? n with
  | some t => t.irType
  | none => .i8

def codeZero (n : Int) : String :=
  match ofCode? n with
  | some t => t.zero
  | none => "0"

end DataType

def ObjectKind.ofCode? (n : Int) : Option ObjectKind :=
  if n = 0 then some .variable
  else if n = 1 then some .constant
  else if n = 2 then some .array
  else if n = 3 then some .arrayElement
  else if n = 4 then some .function
  else none

namespace ArithOp

def ofCode? (n : Int) : Option ArithOp :=
  if n = 0 then some add
  else if n = 1 then some sub
  else if n = 2 then some mul
  else if n = 3 then some div
  else none

def codeName (n : Int) : String :=
  ((ofCode? n).getD div).name

/-- The spelling of an operator on values of a type. Only division of integers has none. -/
def codeOpcode? (n type : Int) : Option String :=
  match ofCode? n with
  | some op => (op.opcode? ((DataType.ofCode? type).getD .char)).map BinaryOp.spelling
  | none => some (if type = DataType.real.code then "f" ++ codeName n else codeName n ++ " nsw")

end ArithOp

namespace Comparison

def ofCode? (n : Int) : Option Comparison :=
  if n = 0 then some eq
  else if n = 1 then some ne
  else if n = 2 then some lt
  else if n = 3 then some le
  else if n = 4 then some gt
  else if n = 5 then some ge
  else none

def ofCode (n : Int) : Comparison :=
  (ofCode? n).getD ge

end Comparison

end MkCompiler
