import MkCompiler.Command
import MkCompiler.Proofs.Machine
import MkCompiler.RuntimeSymbols

/-!
# Straight-line programs

Programs of declarations, assignments and printing: the notifications that announce them, and what
they mean. A variable holds the value assigned to it last, and the integer zero before that. An
operator works on reals if it is the division or if one of its operands is real.
-/

namespace MkCompiler

variable {ι ρ : Type}

structure IntNumeral where
  text : String
  value : Int
  read : Numeral.word32? text.toList = some value

structure RealNumeral where
  text : String
  value : Binary64
  read : Numeral.real? text.toList = some value

inductive Expr where
  | int (l : IntNumeral)
  | real (l : RealNumeral)
  | name (x : String)
  | arith (op : ArithOp) (left right : Expr)

inductive Stmt where
  | declare (x : String)
  | init (x : String) (value : Expr)
  | assign (x : String) (value : Expr)
  | print (value : Expr)

/-! ## Notifications -/

/-- The notifications of an expression: its operands come before their operator. -/
def Expr.notifications : Expr → List Notification
  | int l => [.int l.text]
  | real l => [.real l.text]
  | name x => [.variable x]
  | arith op left right => left.notifications ++ right.notifications ++ [.arith op]

def Stmt.notifications : Stmt → List Notification
  | declare x => [.declareVariable x false]
  | init x e => e.notifications ++ [.declareVariable x true]
  | assign x e => e.notifications ++ [.assign x]
  | print e => e.notifications ++ [.print]

def announce (program : List Stmt) : List Notification :=
  program.flatMap Stmt.notifications ++ [.endProgram]

/-! ## Scopes -/

def Expr.names : Expr → List String
  | int _ => []
  | real _ => []
  | name x => [x]
  | arith _ left right => left.names ++ right.names

def Expr.fits (declared : List String) (e : Expr) : Bool :=
  e.names.all (· ∈ declared)

def Stmt.fits (declared : List String) : Stmt → Bool
  | declare x => x ∉ declared
  | init x e => x ∉ declared && e.fits declared
  | assign x e => x ∈ declared && e.fits declared
  | print e => e.fits declared

def Stmt.declares : Stmt → List String
  | declare x => [x]
  | init x _ => [x]
  | _ => []

/-- Whether every variable is declared once, and before it is used. -/
def wellScoped (declared : List String) : List Stmt → Bool
  | [] => true
  | s :: rest => s.fits declared && wellScoped (s.declares ++ declared) rest

/-! ## Meaning -/

namespace Arithmetic

variable (A : Arithmetic ι ρ)

def asReal : Datum ι ρ → ρ
  | .int a => A.toReal a
  | .real a => a

def onReals : ArithOp → ρ → ρ → ρ
  | .add => A.fadd
  | .sub => A.fsub
  | .mul => A.fmul
  | .div => A.fdiv

def apply (op : ArithOp) : Datum ι ρ → Datum ι ρ → Datum ι ρ
  | .int a, .int b =>
    match op with
    | .add => .int (A.add a b)
    | .sub => .int (A.sub a b)
    | .mul => .int (A.mul a b)
    | .div => .real (A.fdiv (A.toReal a) (A.toReal b))
  | a, b => .real (A.onReals op (A.asReal a) (A.asReal b))

/-- The value of a variable before the first assignment. -/
def zero : Datum ι ρ :=
  .int (A.int 0)

end Arithmetic

def Datum.format (symbols : RuntimeSymbols) : Datum ι ρ → GlobalName
  | int _ => .external symbols.printInt
  | real _ => .external symbols.printReal

/-- The value of every variable, and what has been printed. -/
structure Evaluation (ι ρ : Type) where
  values : String → Datum ι ρ
  printed : List (GlobalName × Datum ι ρ)

def Expr.eval (A : Arithmetic ι ρ) (values : String → Datum ι ρ) : Expr → Datum ι ρ
  | int l => .int (A.int l.value)
  | real l => .real (A.real l.value)
  | name x => values x
  | arith op left right => A.apply op (left.eval A values) (right.eval A values)

namespace Evaluation

def start (A : Arithmetic ι ρ) : Evaluation ι ρ :=
  ⟨fun _ => A.zero, []⟩

def assign (s : Evaluation ι ρ) (x : String) (d : Datum ι ρ) : Evaluation ι ρ :=
  { s with values := Function.update s.values x d }

@[simp] theorem values_assign_self (s : Evaluation ι ρ) (x : String) (d : Datum ι ρ) :
    (s.assign x d).values x = d :=
  Function.update_self ..

theorem values_assign_of_ne (s : Evaluation ι ρ) {x y : String} (h : y ≠ x) (d : Datum ι ρ) :
    (s.assign x d).values y = s.values y :=
  Function.update_of_ne h ..

theorem assign_assign (s : Evaluation ι ρ) (x : String) (d d' : Datum ι ρ) :
    (s.assign x d).assign x d' = s.assign x d' := by
  simp [assign]

def execute (A : Arithmetic ι ρ) (symbols : RuntimeSymbols) (s : Evaluation ι ρ) :
    Stmt → Evaluation ι ρ
  | .declare x => s.assign x A.zero
  | .init x e => s.assign x (e.eval A s.values)
  | .assign x e => s.assign x (e.eval A s.values)
  | .print e =>
    let d := e.eval A s.values
    { s with printed := s.printed ++ [(d.format symbols, d)] }

end Evaluation

def output (A : Arithmetic ι ρ) (symbols : RuntimeSymbols) (program : List Stmt) :
    List (GlobalName × Datum ι ρ) :=
  (program.foldl (Evaluation.execute A symbols) (.start A)).printed

end MkCompiler
