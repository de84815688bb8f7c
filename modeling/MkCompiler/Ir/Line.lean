import MkCompiler.Operator
import MkCompiler.Ir.Name

/-!
# Lines of the emitted program

The emitted program is a list of lines. Instructions, labels, definitions and declarations are
data; `Line.text` is the only place that spells them.
-/

namespace MkCompiler

/-- A conversion between integers and reals. -/
inductive Conversion where
  | toReal
  | toInteger
  deriving DecidableEq, Repr, Inhabited

def Conversion.spelling : Conversion → String
  | .toReal => "sitofp"
  | .toInteger => "fptosi"

/-- An instruction. A numbered result is given as `dest`. -/
inductive Instr where
  | alloca (dest : LocalName) (type : IrType)
  | load (dest : Int) (type : IrType) (source : Pointer)
  | store (type : IrType) (value : Value) (target : Pointer)
  | extend (dest : Int) (value : Value)
  | element (dest : Int) (type : IrType) (length : Int) (array : GlobalName) (index : Int)
  | convert (dest : Int) (op : Conversion) (source : IrType) (value : Value) (target : IrType)
  | binary (dest : Int) (op : BinaryOp) (type : IrType) (left right : Value)
  | compare (dest : Int) (op : Comparison) (type : IrType) (left right : Value)
  | call (dest : Int) (result : IrType) (callee : GlobalName) (args : List (IrType × Value))
  | print (dest : Int) (callee format : GlobalName) (type : IrType) (value : Value)
  | scan (dest : Int) (callee format : GlobalName) (type : IrType) (target : Pointer)
  | jump (target : Label)
  | branch (condition : Int) (yes no : Label)
  | ret (type : IrType) (value : Value)
  | unreachable
  deriving DecidableEq, Repr, Inhabited

namespace Instr

/-- Whether the instruction ends its block. -/
def isTerminator : Instr → Bool
  | jump _ => true
  | branch _ _ _ => true
  | ret _ _ => true
  | unreachable => true
  | _ => false

/-- The local name an instruction defines. -/
def dest? : Instr → Option LocalName
  | alloca dest _ => some dest
  | load dest _ _ => some (.number dest)
  | extend dest _ => some (.number dest)
  | element dest _ _ _ _ => some (.number dest)
  | convert dest _ _ _ _ => some (.number dest)
  | binary dest _ _ _ _ => some (.number dest)
  | compare dest _ _ _ _ => some (.number dest)
  | call dest _ _ _ => some (.number dest)
  | print dest _ _ _ _ => some (.number dest)
  | scan dest _ _ _ _ => some (.number dest)
  | _ => none

/-- A constant address of the first character of a format string. -/
def formatAddress (arrayType : String) (format : GlobalName) : String :=
  "i8* getelementptr inbounds (" ++ arrayType ++ ", " ++ arrayType ++ "* " ++ format.spelling ++
    ", i32 0, i32 0)"

/-- The type of the format string that scans a value: the one for reals has one character more. -/
def scanFormatType : IrType → String
  | .double => "[4 x i8]"
  | _ => "[3 x i8]"

def argument (arg : IrType × Value) : String :=
  arg.1.spelling ++ " " ++ arg.2.spelling

def operation : Instr → String
  | alloca _ type => "alloca " ++ type.spelling
  | load _ type source =>
    "load " ++ type.spelling ++ ", " ++ type.pointerSpelling ++ " " ++ source.spelling
  | store type value target =>
    "store " ++ type.spelling ++ " " ++ value.spelling ++ ", " ++ type.pointerSpelling ++ " " ++
      target.spelling
  | extend _ value => "sext i32 " ++ value.spelling ++ " to i64"
  | element _ type length array index =>
    let arrayType := type.arraySpelling length
    "getelementptr inbounds " ++ arrayType ++ ", " ++ arrayType ++ "* " ++ array.spelling ++
      ", i64 0, i64 %" ++ toString index
  | convert _ op source value target =>
    op.spelling ++ " " ++ source.spelling ++ " " ++ value.spelling ++ " to " ++ target.spelling
  | binary _ op type left right =>
    op.spelling ++ " " ++ type.spelling ++ " " ++ left.spelling ++ ", " ++ right.spelling
  | compare _ op type left right =>
    op.spelling type ++ " " ++ type.spelling ++ " " ++ left.spelling ++ ", " ++ right.spelling
  | call _ result callee args =>
    "call " ++ result.spelling ++ " " ++ callee.spelling ++ "(" ++
      ", ".intercalate (args.map argument) ++ ")"
  | print _ callee format type value =>
    "call i32 (i8*, ...) " ++ callee.spelling ++ "(" ++ formatAddress "[4 x i8]" format ++ ", " ++
      type.spelling ++ " " ++ value.spelling ++ ")"
  | scan _ callee format type target =>
    "call i32 (i8*, ...) " ++ callee.spelling ++ "(" ++
      formatAddress (scanFormatType type) format ++ ", " ++ type.pointerSpelling ++ " " ++
      target.spelling ++ ")"
  | jump target => "br label %" ++ target.spelling
  | branch condition yes no =>
    "br i1 %" ++ toString condition ++ ", label %" ++ yes.spelling ++ ", label %" ++ no.spelling
  | ret type value => "ret " ++ type.spelling ++ " " ++ value.spelling
  | unreachable => "unreachable"

def spelling (i : Instr) : String :=
  match i.dest? with
  | some dest => dest.spelling ++ " = " ++ i.operation
  | none => i.operation

end Instr

/-- A line of the emitted program. -/
inductive Line where
  | instr (i : Instr)
  | label (l : Label)
  | define (result : IrType) (name : GlobalName) (params : List IrType)
  | defineEntry
  | close
  | cell (name : GlobalName) (type : IrType) (value : String)
  | array (name : GlobalName) (type : IrType) (length : Int)
  | declareVariadic (name : GlobalName)
  | formatString (name : GlobalName) (size : Nat) (content : String)
  | blank
  deriving DecidableEq, Repr, Inhabited

namespace Line

/-- The text of a line with all its line breaks. Labels and definitions stand behind an empty
line. -/
def text : Line → String
  | instr i => "  " ++ i.spelling ++ "\n"
  | label l => "\n" ++ l.spelling ++ ":\n"
  | define result name params =>
    "\ndefine " ++ result.spelling ++ " " ++ name.spelling ++ "(" ++
      ", ".intercalate (params.map IrType.spelling) ++ ") nounwind \x7b\n"
  | defineEntry => "define i32 " ++ GlobalName.entry.spelling ++ "() nounwind \x7b\n"
  | close => "\x7d\n"
  | cell name type value => name.spelling ++ " = global " ++ type.spelling ++ " " ++ value ++ "\n"
  | array name type length =>
    name.spelling ++ " = global " ++ type.arraySpelling length ++ " zeroinitializer\n"
  | declareVariadic name => "declare i32 " ++ name.spelling ++ "(i8*, ...)\n"
  | formatString name size content =>
    name.spelling ++ " = constant [" ++ toString size ++ " x i8] c\"" ++ content ++ "\"\n"
  | blank => "\n"

/-- The size of a line in bytes. -/
def size (l : Line) : Nat :=
  l.text.utf8ByteSize

end Line

/-- The text of consecutive lines. -/
def textOfLines (lines : List Line) : String :=
  String.join (lines.map Line.text)

end MkCompiler
