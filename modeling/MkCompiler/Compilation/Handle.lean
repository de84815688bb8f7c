import MkCompiler.Compilation.Recording

/-!
# Handling of notifications

Every notification is handled at its own source line. Declaring an instance runs the recorded body
of its class, each recorded notification at the line it was recorded with.
-/

namespace MkCompiler

/-- A failure, and the source line of the notification that failed. -/
structure Stop where
  failure : Failure
  line : Int
  deriving DecidableEq, Repr

namespace Compilation

variable {α : Type}

/-- Runs an operation at a source line. -/
def locate (line : Int) (x : Action Compilation α) : EStateM Stop Compilation α := fun c =>
  match x c with
  | .ok a c => .ok a c
  | .error failure c => .error ⟨failure, line⟩ c

/-- Compiles any notification but the declaration of an instance, which never occurs in the body of
a class. -/
def construct (cmd : Command) : Action Compilation Unit :=
  match cmd.kind with
  | .int => int cmd.text
  | .real => real cmd.text
  | .name => name cmd.name
  | .element => element cmd.name
  | .member => member cmd.target cmd.name
  | .arith => arith cmd.text
  | .call => call cmd.name cmd.count
  | .callMethod => callMethod cmd.target cmd.name cmd.count
  | .declareVariable => declareVariable cmd.name cmd.hasInit
  | .declareArray => declareArray cmd.name cmd.type cmd.length cmd.count
  | .assign => assign cmd.name
  | .assignElement => assignElement cmd.name
  | .assignMember => assignMember cmd.target cmd.name
  | .print => print
  | .scan => scan cmd.type cmd.name
  | .beginCondition => beginCondition
  | .compare => compare cmd.text
  | .endIf => onEmitter (Emitter.endControl .conditional)
  | .endWhile => onEmitter (Emitter.endControl .loop)
  | .ret => ret
  | .declareFunction => declareFunction cmd.name cmd.type cmd.params
  | .endFunction => endFunction
  | .beginClass => beginClass cmd.name
  | .endClass => endClass
  | .declareInstance => throw (.fault .nestedInstance)
  | .endProgram => endProgram
  | .unknown _ => throw (.stream (.unknownKind cmd.kind.display))

/-- Runs recorded notifications one after the other. -/
def replay : List Command → EStateM Stop Compilation Unit
  | [] => pure ()
  | cmd :: rest => do
    locate cmd.line (construct cmd)
    replay rest

/-- Declares an instance, makes it the current one and returns the body of its class. -/
def openInstance (name className : String) : Action Compilation (List Command) := do
  requireOutside (.instanceInsideFunction name)
  let inst ← onTable (SymbolTable.declareInstance name className)
  let info ← onTable (SymbolTable.classAt inst.classId)
  modify fun c => { c with table := c.table.setInstance (some name) }
  return info.commands

/-- Runs an operation and leaves the current instance, however the operation ends. -/
def leavingInstance (x : EStateM Stop Compilation α) : EStateM Stop Compilation α := fun c =>
  match x c with
  | .ok a c => .ok a { c with table := c.table.setInstance none }
  | .error e c => .error e { c with table := c.table.setInstance none }

/-- Declares an instance: every field and method of its class gets storage and code of its own. -/
def declareInstance (line : Int) (name className : String) : EStateM Stop Compilation Unit := do
  let body ← locate line (openInstance name className)
  leavingInstance (replay body)

/-- Compiles a notification. -/
def dispatch (cmd : Command) : EStateM Stop Compilation Unit :=
  match cmd.kind with
  | .declareInstance => declareInstance cmd.line cmd.name cmd.target
  | _ => locate cmd.line (construct cmd)

/-- Handles a notification: compiles it, or records it if a class is open. -/
def handle (cmd : Command) : EStateM Stop Compilation Unit := do
  let c ← get
  if c.ended then
    throw ⟨.stream (.afterEnd cmd.kind.display), cmd.line⟩
  else
    match c.recording with
    | some id =>
      if cmd.kind = .endClass then dispatch cmd else locate cmd.line (record id cmd)
    | none => dispatch cmd

/-- Handles a notification of the construct at a source line. -/
def notify (line : Int) (n : Notification) : EStateM Stop Compilation Unit :=
  handle (n.toCommand line)

/-- Handles notifications in turn, up to the first that fails. `position` counts from one. -/
def handleAll (position : Nat) : List Command → EStateM (Nat × Command × Stop) Compilation Unit
  | [] => pure ()
  | cmd :: rest => fun c =>
    match handle cmd c with
    | .ok _ c => handleAll (position + 1) rest c
    | .error stop c => .error (position, cmd, stop) c

end Compilation

/-- Why a trace was not compiled. -/
inductive CompileFailure where
  | violation (e : CompileError)
  | stream (position : Nat) (kind : CommandKind) (e : StreamError) (line : Int)
  | unfinished (file : String)
  | internal (e : InternalError)
  | fault (cause : Fault)
  deriving DecidableEq, Repr

@[match_pattern, inherit_doc Failure.undefined]
def CompileFailure.undefined {cause : Fault} : CompileFailure := .fault cause

def CompileFailure.message : CompileFailure → String
  | .violation e => e.message
  | .stream position kind e line =>
    "notification no. " ++ toString position ++ " (" ++ kind.display ++ "): " ++ e.message line
  | .unfinished file => "trace of " ++ file ++ " ends before the end of the program"
  | .internal e => e.message
  | .undefined => ""

/-- Compiles the notifications of a program. The result are the lines of the emitted program. -/
def compile (file : String) (commands : List Command) (symbols : RuntimeSymbols) :
    Except CompileFailure (List Line) :=
  match Compilation.handleAll 1 commands (Compilation.start file symbols) with
  | .ok _ c =>
    match c.program with
    | some lines => .ok lines
    | none => .error (.unfinished file)
  | .error (position, cmd, stop) _ =>
    match stop.failure with
    | .rejected violation => .error (.violation ⟨violation, stop.line, file⟩)
    | .stream e => .error (.stream position cmd.kind e stop.line)
    | .internal e => .error (.internal e)
    | .fault cause => .error (.fault cause)

end MkCompiler
