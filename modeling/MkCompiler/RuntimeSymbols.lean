import MkCompiler.Ir.Line

/-!
# Runtime symbols

The external functions and format strings that printing and scanning refer to. Every program
starts with their declarations.
-/

namespace MkCompiler

structure RuntimeSymbols where
  printInt : String
  printReal : String
  scanInt : String
  scanReal : String
  printf : String
  scanf : String
  deriving DecidableEq, Repr, Inhabited

namespace RuntimeSymbols

/-- The symbols used where a configuration names no others. -/
def standard : RuntimeSymbols where
  printInt := "@sysvar_printint"
  printReal := "@sysvar_printreal"
  scanInt := "@sysvar_scanint"
  scanReal := "@sysvar_scanreal"
  printf := "@printf"
  scanf := "@scanf"

/-- The declarations a program starts with. -/
def prologue (s : RuntimeSymbols) : List Line :=
  [.declareVariadic (.external s.printf),
    .declareVariadic (.external s.scanf),
    .formatString (.external s.printInt) 4 "%d\\0A\\00",
    .formatString (.external s.printReal) 4 "%f\\0A\\00",
    .formatString (.external s.scanInt) 3 "%d\\00",
    .formatString (.external s.scanReal) 4 "%lf\\00",
    .blank]

/-- The format string that prints a value of a type. -/
def printFormat (s : RuntimeSymbols) : DataType → GlobalName
  | .real => .external s.printReal
  | _ => .external s.printInt

/-- The format string that scans a value of a type. -/
def scanFormat (s : RuntimeSymbols) : DataType → GlobalName
  | .real => .external s.scanReal
  | _ => .external s.scanInt

end RuntimeSymbols

end MkCompiler
