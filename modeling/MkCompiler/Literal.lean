import MkCompiler.DataType
import MkCompiler.Numeral.Shortest

/-!
# Literals

An immediate value with its type and its spelling in the emitted program. A literal read from
source text is spelled canonically: equal values have equal spellings.
-/

namespace MkCompiler

structure Literal where
  type : DataType
  text : String
  deriving DecidableEq, Repr, Inhabited

namespace Literal

def ofInt (v : Int) : Literal :=
  ⟨.int, toString v⟩

def ofReal (v : Binary64) : Literal :=
  ⟨.real, String.ofList (Numeral.realText v)⟩

/-- Reads an integer literal: a numeral that fits 32 bits. -/
def int? (text : String) : Option Literal :=
  (Numeral.word32? text.toList).map ofInt

/-- Reads a real literal. -/
def real? (text : String) : Option Literal :=
  (Numeral.real? text.toList).map ofReal

end Literal

end MkCompiler
