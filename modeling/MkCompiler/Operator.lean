import MkCompiler.DataType

/-!
# Operators

The arithmetic operators and comparisons of the language and the machine operations that
implement them. Division has a machine operation on reals only.
-/

namespace MkCompiler

/-- An arithmetic operation of the emitted program. Integer operations do not wrap. -/
inductive BinaryOp where
  | add
  | sub
  | mul
  | fadd
  | fsub
  | fmul
  | fdiv
  deriving DecidableEq, Repr, Inhabited

def BinaryOp.spelling : BinaryOp → String
  | .add => "add nsw"
  | .sub => "sub nsw"
  | .mul => "mul nsw"
  | .fadd => "fadd"
  | .fsub => "fsub"
  | .fmul => "fmul"
  | .fdiv => "fdiv"

/-- An arithmetic operator of the language. -/
inductive ArithOp where
  | add
  | sub
  | mul
  | div
  deriving DecidableEq, Repr, Inhabited

namespace ArithOp

def name : ArithOp → String
  | add => "add"
  | sub => "sub"
  | mul => "mul"
  | div => "div"

/-- Reads the token of an operator or its name. -/
def ofToken? : String → Option ArithOp
  | "+" => some add
  | "add" => some add
  | "-" => some sub
  | "sub" => some sub
  | "*" => some mul
  | "mul" => some mul
  | "/" => some div
  | "div" => some div
  | _ => none

/-- The machine operation on values of a type. There is none for division of integers. -/
def opcode? (op : ArithOp) (t : DataType) : Option BinaryOp :=
  match t, op with
  | .real, add => some .fadd
  | .real, sub => some .fsub
  | .real, mul => some .fmul
  | .real, div => some .fdiv
  | _, add => some .add
  | _, sub => some .sub
  | _, mul => some .mul
  | _, div => none

theorem ofToken?_name (op : ArithOp) : ofToken? op.name = some op := by
  cases op <;> rfl

end ArithOp

/-- A comparison of the language. -/
inductive Comparison where
  | eq
  | ne
  | lt
  | le
  | gt
  | ge
  deriving DecidableEq, Repr, Inhabited

namespace Comparison

def name : Comparison → String
  | eq => "eq"
  | ne => "ne"
  | lt => "lt"
  | le => "le"
  | gt => "gt"
  | ge => "ge"

/-- Reads the token of a comparison or its name. -/
def ofToken? : String → Option Comparison
  | "==" => some eq
  | "eq" => some eq
  | "!=" => some ne
  | "ne" => some ne
  | "<" => some lt
  | "lt" => some lt
  | "<=" => some le
  | "le" => some le
  | ">" => some gt
  | "gt" => some gt
  | ">=" => some ge
  | "ge" => some ge
  | _ => none

/-- The signed integer predicate. -/
def integerPredicate : Comparison → String
  | eq => "eq"
  | ne => "ne"
  | lt => "slt"
  | le => "sle"
  | gt => "sgt"
  | ge => "sge"

/-- The predicate on reals. Inequality is unordered: it holds if either side is not a number. -/
def realPredicate : Comparison → String
  | eq => "oeq"
  | ne => "une"
  | lt => "olt"
  | le => "ole"
  | gt => "ogt"
  | ge => "oge"

/-- The machine comparison of two values of a machine type. -/
def spelling (c : Comparison) : IrType → String
  | .double => "fcmp " ++ c.realPredicate
  | _ => "icmp " ++ c.integerPredicate

theorem ofToken?_name (c : Comparison) : ofToken? c.name = some c := by
  cases c <;> rfl

end Comparison

end MkCompiler
