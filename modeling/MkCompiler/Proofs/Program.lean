import MkCompiler.Ir.Line

/-!
# Reading a program

An emitted program is read as a list of definitions: each starts with an opening line and goes up
to the next closing one. Lines outside of definitions declare storage and symbols.
-/

namespace MkCompiler

/-- The part of a program that declares a symbol. -/
inductive Part where
  | runtime
  | storage
  | entry
  | functions
  deriving DecidableEq

def GlobalName.part : GlobalName → Part
  | cell _ _ _ => .storage
  | array _ _ => .storage
  | function _ => .functions
  | method _ _ => .functions
  | entry => .entry
  | external _ => .runtime

def Line.opens : Line → Bool
  | .define _ _ _ => true
  | .defineEntry => true
  | _ => false

def Line.arity : Line → Nat
  | .define _ _ params => params.length
  | _ => 0

def Line.isCode : Line → Bool
  | .instr _ => true
  | .label _ => true
  | _ => false

def Line.isStorage : Line → Bool
  | .cell name _ _ => name.part = .storage
  | .array name _ _ => name.part = .storage
  | _ => false

def Line.opensFunction : Line → Bool
  | .define _ name _ => name.part = .functions
  | _ => false

structure Definition where
  opening : Line
  body : List Line
  deriving DecidableEq, Repr

def Definition.lines (d : Definition) : List Line :=
  d.opening :: d.body ++ [.close]

/-- Reads definitions from lines. The definition that is open, if any, is given with what has been
read of its body. -/
def readDefinitions : Option Definition → List Line → List Definition
  | none, [] => []
  | some d, [] => [d]
  | none, line :: rest =>
    if line.opens then readDefinitions (some ⟨line, []⟩) rest else readDefinitions none rest
  | some d, line :: rest =>
    if line = .close then d :: readDefinitions none rest
    else readDefinitions (some { d with body := d.body ++ [line] }) rest

def definitions (program : List Line) : List Definition :=
  readDefinitions none program

theorem readDefinitions_outside {lines : List Line} (h : ∀ line ∈ lines, line.opens = false)
    (rest : List Line) : readDefinitions none (lines ++ rest) = readDefinitions none rest := by
  induction lines with
  | nil => rfl
  | cons line lines ih =>
    have hline := h line (by simp)
    simp [readDefinitions, hline, ih fun x hx => h x (by simp [hx])]

theorem readDefinitions_body {body : List Line} (h : ∀ line ∈ body, line.isCode = true)
    (d : Definition) (rest : List Line) :
    readDefinitions (some d) (body ++ .close :: rest) =
      { d with body := d.body ++ body } :: readDefinitions none rest := by
  induction body generalizing d with
  | nil => simp [readDefinitions]
  | cons line body ih =>
    have hline : line ≠ .close := by
      rintro rfl
      have hclose := h .close (by simp)
      simp [Line.isCode] at hclose
    simp [readDefinitions, hline, ih fun x hx => h x (by simp [hx])]

/-- Definitions are read back from their lines. -/
theorem readDefinitions_lines {ds : List Definition}
    (h : ∀ d ∈ ds, d.opening.opens = true ∧ ∀ line ∈ d.body, line.isCode = true) :
    readDefinitions none (ds.flatMap Definition.lines) = ds := by
  induction ds with
  | nil => rfl
  | cons d ds ih =>
    obtain ⟨hopen, hbody⟩ := h d (by simp)
    have hrest := ih fun x hx => h x (by simp [hx])
    have hd : (d :: ds).flatMap Definition.lines =
        d.opening :: (d.body ++ .close :: ds.flatMap Definition.lines) := by
      simp [Definition.lines]
    rw [hd, readDefinitions, if_pos hopen, readDefinitions_body hbody, hrest]
    simp

end MkCompiler
