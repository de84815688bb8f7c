import MkCompiler.DataType

/-!
# Names in the emitted program

Local names belong to one emitted function, global names to the whole program. Both are kept as
data; their spelling is computed from it.
-/

namespace MkCompiler

/-- The number a version is spelled with. It is a signed 64-bit word: behind the greatest one comes
the least. -/
def versionWord (version : Int) : Int :=
  version.bmod (Nat.pow 2 64)

/-- A name in one emitted function: a numbered value, or a named stack slot. -/
inductive LocalName where
  | number (n : Int)
  | slot (name : String) (version : Int)
  deriving DecidableEq, Repr, Inhabited

def LocalName.spelling : LocalName → String
  | .number n => "%" ++ toString n
  | .slot name version => "%var_" ++ name ++ "." ++ toString (versionWord version)

/-- A symbol of the emitted program. Cells and arrays belong to the program if `owner` is empty and
to the instance of that name otherwise. -/
inductive GlobalName where
  | cell (owner name : String) (version : Int)
  | array (owner name : String)
  | function (name : String)
  | method (owner name : String)
  | entry
  | external (symbol : String)
  deriving DecidableEq, Repr, Inhabited

namespace GlobalName

/-- The name of a variable behind the name of the instance that owns it, if any. -/
def qualified (owner name : String) : String :=
  if owner = "" then name else owner ++ "." ++ name

def spelling : GlobalName → String
  | cell owner name version =>
    "@var_" ++ qualified owner name ++ "." ++ toString (versionWord version)
  | array owner name => "@arr_" ++ qualified owner name
  | function name => "@func_" ++ name
  | method owner name => "@method_" ++ owner ++ "." ++ name
  | entry => "@main"
  | external symbol => symbol

end GlobalName

/-- Where a value can be loaded from and stored to. -/
inductive Pointer where
  | frame (name : LocalName)
  | global (name : GlobalName)
  deriving DecidableEq, Repr, Inhabited

def Pointer.spelling : Pointer → String
  | .frame name => name.spelling
  | .global name => name.spelling

/-- A value used by an instruction: the numbered result of another one, or a constant. -/
inductive Value where
  | number (n : Int)
  | constant (text : String)
  deriving DecidableEq, Repr, Inhabited

def Value.spelling : Value → String
  | .number n => "%" ++ toString n
  | .constant text => text

/-- The three blocks of a control construct: its condition, its body, and what follows it. -/
inductive LabelRole where
  | compare
  | body
  | exit
  deriving DecidableEq, Repr, Inhabited

/-- A block label. All labels of one control construct carry its number. -/
structure Label where
  role : LabelRole
  id : Nat
  deriving DecidableEq, Repr, Inhabited

def LabelRole.spelling : LabelRole → String
  | .compare => "compare"
  | .body => "then"
  | .exit => "end"

def Label.spelling (l : Label) : String :=
  l.role.spelling ++ toString l.id

end MkCompiler
