import MkCompiler.Failure
import MkCompiler.Markup
import MkCompiler.Text.Template
import MkCompiler.Text.Whitespace

/-!
# Reports

What a compiler run tells its user: errors with the source line they are about, warnings, notes, and
how it ended. The level of a reporter decides which reports it displays.
-/

namespace MkCompiler

structure LogLevel where
  rank : Int
  deriving DecidableEq, Repr

namespace LogLevel

def silent : LogLevel := ⟨0⟩

def error : LogLevel := ⟨1⟩

def warn : LogLevel := ⟨2⟩

def verbose : LogLevel := ⟨3⟩

def ofName? : String → Option LogLevel
  | "silent" => some silent
  | "error" => some error
  | "warn" => some warn
  | "verbose" => some verbose
  | _ => none

end LogLevel

/-- How serious a message is, which decides how it is coloured. -/
inductive Severity where
  | error
  | warning
  | info
  deriving DecidableEq, Repr

namespace Severity

/-- The style of tags. -/
def tagCode : Severity → String
  | error => "41;37"
  | warning => "43;30"
  | info => "102;30"

/-- The style of messages. -/
def messageCode : Severity → String
  | error => "31"
  | warning => "33"
  | info => "92"

/-- A tag is styled as a whole. -/
def tag (s : Severity) (text : String) : String :=
  Markup.styled s.tagCode (Markup.resume s.tagCode (Markup.render text))

/-- A message is styled line by line. -/
def paint (s : Severity) (text : String) : String :=
  let lines := (Markup.resume s.messageCode (Markup.render text)).splitOn "\n"
  "\n".intercalate (lines.map (Markup.styled s.messageCode))

/-- A message under a tag. -/
def message (s : Severity) (title text : String) : String :=
  s.tag title ++ " " ++ s.paint text ++ "\n"

end Severity

/-- The heading of errors of a kind. -/
def ErrorKind.banner : ErrorKind → String
  | duplicateDeclaration => "Definition"
  | unknownIdentifier => "Name"
  | arityMismatch => "Argument"
  | typeMismatch => "Type"
  | missingReturn => "Return"
  | scopeViolation => "Scope"
  | arrayOverflow => "Array"
  | reservedNameViolation => "Name"
  | unknown _ => ""

namespace Source

/-- Lines of this size and all behind them are not read. -/
def lineLimit : Nat := 65536

/-- Drops a carriage return at the end of a line. -/
def dropReturn (line : List Char) : List Char :=
  if line.getLast? = some '\r' then line.dropLast else line

/-- The lines of a text. A line break at the end of the text does not start another line. -/
def lines (text : String) : List String :=
  let parts := text.splitOn "\n"
  if parts.getLast? = some "" then parts.dropLast else parts

/-- A line of a text, counted from one. -/
def line? (text : String) (number : Int) : Option String :=
  if number < 1 then none
  else
    (((lines text).takeWhile fun line => line.utf8ByteSize < lineLimit)[number.toNat - 1]?).map
      fun line => String.ofList (dropReturn line.toList)

/-- A line as it is displayed: tabs are four spaces wide, and the ends are trimmed. -/
def display (line : String) : String :=
  String.ofList (Text.trim (line.toList.flatMap fun c => if c = '\t' then "    ".toList else [c]))

end Source

inductive Report where
  /-- A wrong construct, with the source line it stands on if that can be read. -/
  | diagnostic (d : Diagnostic) (line : Option String)
  | failure (message : String)
  | warning (tag message : String)
  | info (tag message : String)
  /-- The end of a run that wrote its result to a path. -/
  | finished (path : String)
  /-- An error that is displayed at every level. -/
  | alert (tag message : String)
  /-- A message that is displayed at every level. -/
  | notice (tag message : String)
  /-- A broken invariant of the compiler. -/
  | internal (message : String)
  deriving DecidableEq, Repr

namespace Report

/-- A report whose message is a template with arguments. -/
def ofTemplate (report : String → Report) (template : String) (args : List String) : Report :=
  report (Template.fill template args)

def isError : Report → Bool
  | diagnostic _ _ => true
  | failure _ => true
  | alert _ _ => true
  | _ => false

def isShown (level : LogLevel) : Report → Bool
  | diagnostic _ _ => LogLevel.silent.rank < level.rank
  | failure _ => LogLevel.silent.rank < level.rank
  | warning _ _ => LogLevel.warn.rank ≤ level.rank
  | info _ _ => level = .verbose
  | finished _ => level = .verbose
  | alert _ _ => true
  | notice _ _ => true
  | internal _ => true

/-- The wording of a report, after a run with or without errors so far. -/
def text (anyErrors : Bool) : Report → String
  | diagnostic d line =>
    let excerpt := match line with
      | some line =>
        Severity.info.paint (toString d.line) ++ " | " ++ Source.display line ++ "\n"
      | none => ""
    Severity.error.message (d.kind.banner ++ " Error") d.text ++ excerpt ++ "\n"
  | failure message => Severity.error.message "Error" message
  | warning tag message => Severity.warning.message tag message
  | info tag message => Severity.info.message tag message
  | finished path =>
    if anyErrors then
      Severity.error.paint "Oh no! " ++ "(compilation failed)\n"
    else
      let place := if path = "" then "" else "(wrote " ++ path ++ ")"
      Severity.info.paint "All done! " ++ place ++ "\n"
  | alert tag message => Severity.error.message tag message
  | notice tag message => Severity.info.message tag message
  | internal message =>
    Severity.error.message "Internal Compiler Error" ("internal compiler error: " ++ message) ++
      "This error was not supposed to happen: it is a bug in the compiler.\n\n"

end Report

structure Reporter where
  level : LogLevel := .verbose
  anyErrors : Bool := false
  deriving DecidableEq, Repr

namespace Reporter

/-- Takes a report. The result is what is displayed. -/
def report (r : Reporter) (x : Report) : Reporter × String :=
  let anyErrors := r.anyErrors || x.isError
  ({ r with anyErrors }, if x.isShown r.level then x.text anyErrors else "")

def reportAll (r : Reporter) : List Report → Reporter × String
  | [] => (r, "")
  | x :: rest =>
    let (r, shown) := r.report x
    let (r, others) := reportAll r rest
    (r, shown ++ others)

end Reporter

end MkCompiler
