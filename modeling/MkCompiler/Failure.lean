import MkCompiler.Section
import MkCompiler.Violation
import MkCompiler.Operator

/-!
# Failures

An operation can fail in four ways: the program is wrong, the stream of notifications is wrong,
one of the compiler's own invariants is broken, or the operation has no defined outcome at all.
The state in which an operation stops is kept, so that a caller can go on from it.
-/

namespace MkCompiler

/-- What can be wrong with a stream of notifications, whatever program it describes. -/
inductive StreamError where
  | underflow
  | negativeCount (count : Int)
  | conditionBegunTwice
  | unknownKind (kind : String)
  | afterEnd (kind : String)
  deriving DecidableEq, Repr

/-- The wording of a stream error met at a source line. -/
def StreamError.message (line : Int) : StreamError → String
  | .underflow => "operand stack underflow at line " ++ toString line
  | .negativeCount count =>
    "negative operand count " ++ toString count ++ " at line " ++ toString line
  | .conditionBegunTwice =>
    "condition begun at line " ++ toString line ++ " before the previous one was compared"
  | .unknownKind kind => "unknown notification kind " ++ kind
  | .afterEnd kind => kind ++ " notification after the end of the program"

/-- The invariants whose violation is an error of the compiler itself. -/
inductive InternalError where
  | heldTwice
  | releasedUnheld
  | markedWhileHeld
  | markPastEnd (target : Section)
  | conditionOpenedTwice
  | fieldWithoutInstance (name : String)
  | scalarExpected (kind : ObjectKind)
  | localOutsideFunction (name : String)
  | operatorWithoutOpcode (op : ArithOp) (type : DataType)
  | recordedIntoClosedClass (name : String)
  | materializedTwice
  deriving DecidableEq, Repr

def InternalError.message : InternalError → String
  | .heldTwice => "output buffer held twice"
  | .releasedUnheld => "output buffer released without being held"
  | .markedWhileHeld => "output position marked while held"
  | .markPastEnd target =>
    "insertion mark past the end of the " ++ target.name?.getD "" ++ " section"
  | .conditionOpenedTwice => "condition opened twice"
  | .fieldWithoutInstance name => "field " ++ name ++ " declared without an instance"
  | .scalarExpected kind => kind.name ++ " declared as a scalar global"
  | .localOutsideFunction name => "local " ++ name ++ " declared outside of a function body"
  | .operatorWithoutOpcode op type => op.name ++ " on " ++ type.name ++ " operands"
  | .recordedIntoClosedClass name => "recording into closed class " ++ name
  | .materializedTwice => "program materialized twice"

/-- Why an operation has no defined outcome. -/
inductive Fault where
  /-- More operands are asked for than any memory holds. -/
  | memory
  | absentFunction
  | absentMethod
  | absentInstance
  | absentLocals
  | absentIndex
  | absentCondition
  /-- A handle, a section or a position does not exist. -/
  | outOfRange
  /-- The body of a class declares an instance. -/
  | nestedInstance
  deriving DecidableEq, Repr

/-- Why an operation did not finish. -/
inductive Failure where
  | rejected (v : Violation)
  | stream (e : StreamError)
  | internal (e : InternalError)
  | fault (cause : Fault)
  deriving DecidableEq, Repr

/-- There is no defined outcome, whatever the cause. -/
@[match_pattern]
def Failure.undefined {cause : Fault} : Failure := .fault cause

/-- An operation on a state that can fail. A failure keeps the state reached so far. -/
abbrev Action (σ : Type) := EStateM Failure σ

namespace Action

variable {σ τ α : Type}

/-- Stops because the program is wrong. -/
def reject (v : Violation) : Action σ α :=
  throw (.rejected v)

/-- Goes on only if a condition holds. -/
def require (p : Prop) [Decidable p] (v : Violation) : Action σ Unit :=
  if p then pure () else reject v

/-- Runs an operation on a part of the state. -/
def zoom (get : σ → τ) (set : τ → σ → σ) (x : Action τ α) : Action σ α := fun s =>
  match x (get s) with
  | .ok a t => .ok a (set t s)
  | .error e t => .error e (set t s)

end Action

end MkCompiler
