import Mathlib.Data.List.Forall2
import MkCompiler.Emitter.Control
import MkCompiler.Proofs.Endings

/-!
# Operands

Which operands are in order. An operand for which no code can be generated and an array cannot be
read, and are refused.
-/

namespace MkCompiler

open MkCompiler.Action

/-- The types that values have at run time. -/
def DataType.IsScalar (type : DataType) : Prop :=
  type = .int ∨ type = .real

namespace DataType

variable {type : DataType}

theorem IsScalar.storage_eq (h : type.IsScalar) : type.storage = type := by
  rcases h with rfl | rfl <;> rfl

theorem IsScalar.isLowered (h : type.IsScalar) : type.isLowered = true := by
  rcases h with rfl | rfl <;> rfl

theorem isScalar_storage (h : type.isLowered = true) : type.storage.IsScalar := by
  cases type with
  | unresolved | int => exact .inl rfl
  | real => exact .inr rfl
  | char => cases h

theorem storage_eq_real : type.storage = .real ↔ type = .real := by
  cases type <;> simp [storage]

theorem IsScalar.eq_int (h : type.IsScalar) (hreal : type ≠ .real) : type = .int :=
  h.resolve_right hreal

end DataType

def ArithOp.resultType (op : ArithOp) (left right : DataType) : DataType :=
  if op = .div ∨ left = .real ∨ right = .real then .real else .int

theorem ArithOp.isScalar_resultType (op : ArithOp) (left right : DataType) :
    (op.resultType left right).IsScalar := by
  unfold resultType
  split
  · exact .inr rfl
  · exact .inl rfl

namespace Signature

def IsScalar (sig : Signature) : Prop :=
  sig.result.IsScalar ∧ ∀ type ∈ sig.params, type.IsScalar

/-- The arguments are as many as the parameters and of their types, and none is an array. -/
def Accepts (sig : Signature) (args : List Operand) : Prop :=
  List.Forall₂ (fun arg type => arg.type.storage = type.storage ∧ arg.kind ≠ .array) args sig.params

end Signature

namespace Operand

/-- An operand of a type that code can be generated for. A computed value is an integer or a
real. -/
def Typed : Operand → Prop
  | literal l => l.type.isLowered = true
  | register r => r.type.IsScalar
  | slot l => l.type.isLowered = true
  | global c => c.type.isLowered = true
  | element c _ => c.type.isLowered = true

/-- An operand whose value can be read. Only the array of an array element is not one. -/
def Readable : Operand → Prop
  | literal l => l.type.isLowered = true
  | register r => r.type.IsScalar
  | slot l => l.type.isLowered = true
  | global c => c.type.isLowered = true ∧ c.kind = .variable
  | element c index => c.type.isLowered = true ∧ c.kind = .arrayElement ∧ index.Readable

variable {op : Operand}

theorem Typed.isLowered (h : op.Typed) : op.type.isLowered = true := by
  cases op with
  | register r => exact DataType.IsScalar.isLowered h
  | literal l => exact h
  | slot l => exact h
  | global c => exact h
  | element c index => exact h

theorem Readable.typed (h : op.Readable) : op.Typed := by
  cases op with
  | literal l => exact h
  | register r => exact h
  | slot l => exact h
  | global c => exact h.1
  | element c index => exact h.1

theorem Readable.kind_ne_array (h : op.Readable) : op.kind ≠ .array := by
  cases op with
  | global c => simp [kind, h.2]
  | element c index => simp [kind, h.2.1]
  | literal l | register r | slot l => simp [kind]

end Operand

/-- An operand that stands for an element of an array has an index, and so have the elements that
occur in its index. -/
def Operand.Proper : Operand → Prop
  | .global c => c.kind ≠ .arrayElement
  | .element _ index => index.Proper
  | _ => True

/-- Mistakes about the values that are computed with. -/
def Violation.isOfValue : Violation → Bool
  | .unsupportedValue _ | .unsupportedVariable _ | .arrayAsValue _ | .assignToArray _ => true
  | .argumentCount _ _ _ | .argumentType _ _ _ _ => true
  | .elementType _ _ _ | .initialElementType _ _ _ _ | .tooManyElements _ _ _ => true
  | _ => false

def Action.Reports (F : Failure → Prop) : Prop :=
  ∀ v : Violation, v.isOfValue = true → F (.rejected v)

def Operand.Admitted (F : Failure → Prop) (op : Operand) : Prop :=
  op.Readable ∨ Reports F ∧ (op.Proper ∨ F (.fault .absentIndex))

theorem Operand.Admitted.index {F : Failure → Prop} {c : Cell} {index : Operand}
    (h : (Operand.element c index).Admitted F) : index.Admitted F :=
  h.imp_left fun h => h.2.2

def Signature.Admits (F : Failure → Prop) (sig : Signature) (args : List Operand) : Prop :=
  (sig.Accepts args ∨ Reports F) ∧ ∀ arg ∈ args, arg.Admitted F

end MkCompiler
