import Mathlib.Logic.Function.Basic
import MkCompiler.Ir.Line
import MkCompiler.Numeral.Real

/-!
# A machine for emitted code

A machine executes the straight code of one body: slots, loads and stores, conversions to reals,
arithmetic and printing. The numbers it works on are a parameter. An instruction that does not fit
the state, say a load at another type than the one stored, has no effect to speak of: there is no
machine behind it.
-/

namespace MkCompiler

variable {ι ρ : Type}

inductive Datum (ι ρ : Type) where
  | int (v : ι)
  | real (v : ρ)
  deriving DecidableEq, Repr

namespace Datum

def type : Datum ι ρ → DataType
  | int _ => .int
  | real _ => .real

def irType (d : Datum ι ρ) : IrType :=
  d.type.irType

@[simp] theorem storage_type (d : Datum ι ρ) : d.type.storage = d.type := by
  cases d <;> rfl

@[simp] theorem irType_type (d : Datum ι ρ) : d.type.irType = d.irType := rfl

end Datum

/-- The numbers of the machine and the primitive operations on them. -/
structure Arithmetic (ι ρ : Type) where
  int : Int → ι
  real : Binary64 → ρ
  toReal : ι → ρ
  add : ι → ι → ι
  sub : ι → ι → ι
  mul : ι → ι → ι
  fadd : ρ → ρ → ρ
  fsub : ρ → ρ → ρ
  fmul : ρ → ρ → ρ
  fdiv : ρ → ρ → ρ

namespace Arithmetic

variable (A : Arithmetic ι ρ)

def constant? : IrType → String → Option (Datum ι ρ)
  | .i32, text => (Numeral.word32? text.toList).map fun v => .int (A.int v)
  | .double, text => (Numeral.real? text.toList).map fun v => .real (A.real v)
  | .i8, _ => none

def binary? : BinaryOp → Datum ι ρ → Datum ι ρ → Option (Datum ι ρ)
  | .add, .int a, .int b => some (.int (A.add a b))
  | .sub, .int a, .int b => some (.int (A.sub a b))
  | .mul, .int a, .int b => some (.int (A.mul a b))
  | .fadd, .real a, .real b => some (.real (A.fadd a b))
  | .fsub, .real a, .real b => some (.real (A.fsub a b))
  | .fmul, .real a, .real b => some (.real (A.fmul a b))
  | .fdiv, .real a, .real b => some (.real (A.fdiv a b))
  | _, _, _ => none

def convert? : Conversion → Datum ι ρ → Option (Datum ι ρ)
  | .toReal, .int a => some (.real (A.toReal a))
  | _, _ => none

end Arithmetic

/-- What a local name stands for: the result of an instruction, or a stack slot and what has been
stored in it. -/
inductive Content (ι ρ : Type) where
  | value (d : Datum ι ρ)
  | slot (type : IrType) (d : Option (Datum ι ρ))

/-- The state of an execution. What has been printed is kept with the format it was printed in. -/
structure Machine (ι ρ : Type) where
  frame : LocalName → Option (Content ι ρ)
  cells : GlobalName → Option (Datum ι ρ)
  printed : List (GlobalName × Datum ι ρ)

/-- The initial value that a line gives to a cell. -/
def Line.initial? (A : Arithmetic ι ρ) (name : GlobalName) : Line → Option (Datum ι ρ)
  | .cell n type text => if n = name then A.constant? type text else none
  | _ => none

namespace Machine

def start (A : Arithmetic ι ρ) (program : List Line) : Machine ι ρ where
  frame _ := none
  cells name := program.findSome? (Line.initial? A name)
  printed := []

def define (m : Machine ι ρ) (name : LocalName) (c : Content ι ρ) : Machine ι ρ :=
  { m with frame := Function.update m.frame name (some c) }

def setCell (m : Machine ι ρ) (name : GlobalName) (d : Datum ι ρ) : Machine ι ρ :=
  { m with cells := Function.update m.cells name (some d) }

def print (m : Machine ι ρ) (format : GlobalName) (d : Datum ι ρ) : Machine ι ρ :=
  { m with printed := m.printed ++ [(format, d)] }

def typed? (type : IrType) (d : Datum ι ρ) : Option (Datum ι ρ) :=
  if d.irType = type then some d else none

def operand? (m : Machine ι ρ) (A : Arithmetic ι ρ) (type : IrType) : Value → Option (Datum ι ρ)
  | .number n =>
    match m.frame (.number n) with
    | some (.value d) => typed? type d
    | _ => none
  | .constant text => A.constant? type text

def load? (m : Machine ι ρ) (type : IrType) : Pointer → Option (Datum ι ρ)
  | .frame name =>
    match m.frame name with
    | some (.slot t (some d)) => if t = type then typed? type d else none
    | _ => none
  | .global name => (m.cells name).bind (typed? type)

def store? (m : Machine ι ρ) (type : IrType) (d : Datum ι ρ) : Pointer → Option (Machine ι ρ)
  | .frame name =>
    match m.frame name with
    | some (.slot t _) => if t = type then some (m.define name (.slot t (some d))) else none
    | _ => none
  | .global name => ((m.cells name).bind (typed? type)).map fun _ => m.setCell name d

/-- Executes an instruction. The number of characters printed is not kept. -/
def step? (A : Arithmetic ι ρ) (printf : GlobalName) (m : Machine ι ρ) :
    Instr → Option (Machine ι ρ)
  | .alloca dest type => some (m.define dest (.slot type none))
  | .load dest type source => do
    let d ← m.load? type source
    return m.define (.number dest) (.value d)
  | .store type value target => do
    let d ← m.operand? A type value
    m.store? type d target
  | .convert dest op source value target => do
    let d ← m.operand? A source value
    let r ← (A.convert? op d).bind (typed? target)
    return m.define (.number dest) (.value r)
  | .binary dest op type left right => do
    let a ← m.operand? A type left
    let b ← m.operand? A type right
    let r ← A.binary? op a b
    return m.define (.number dest) (.value r)
  | .print _ callee format type value =>
    if callee = printf then do
      let d ← m.operand? A type value
      return m.print format d
    else
      none
  | _ => none

def steps? (A : Arithmetic ι ρ) (printf : GlobalName) (m : Machine ι ρ) (code : List Instr) :
    Option (Machine ι ρ) :=
  code.foldlM (step? A printf) m

/-- Executes a body up to the first return. The result is what has been printed. -/
def run? (A : Arithmetic ι ρ) (printf : GlobalName) :
    List Line → Machine ι ρ → Option (List (GlobalName × Datum ι ρ))
  | .instr (.ret _ _) :: _, m => some m.printed
  | .instr i :: rest, m => (step? A printf m i).bind (run? A printf rest)
  | _, _ => none

section Updates

variable (m : Machine ι ρ) (name : LocalName) (c : Content ι ρ) (cell : GlobalName) (d : Datum ι ρ)

@[simp] theorem frame_define_self : (m.define name c).frame name = some c :=
  Function.update_self ..

@[simp] theorem cells_setCell_self : (m.setCell cell d).cells cell = some d :=
  Function.update_self ..

variable {m name c cell d}

theorem frame_define_of_ne {other : LocalName} (h : other ≠ name) :
    (m.define name c).frame other = m.frame other :=
  Function.update_of_ne h ..

theorem cells_setCell_of_ne {other : GlobalName} (h : other ≠ cell) :
    (m.setCell cell d).cells other = m.cells other :=
  Function.update_of_ne h ..

end Updates

section Access

variable {m m' : Machine ι ρ} {type : IrType} {d d' : Datum ι ρ}

theorem typed?_eq_some : typed? type d = some d' ↔ d' = d ∧ d.irType = type := by
  unfold typed?
  split <;> simp_all [eq_comm]

theorem operand?_number {A : Arithmetic ι ρ} {n : Int} :
    m.operand? A type (.number n) = some d ↔
      m.frame (.number n) = some (.value d) ∧ d.irType = type := by
  rw [operand?]
  split
  · next d' hframe =>
    rw [typed?_eq_some, hframe]
    grind
  · next hframe =>
    simp only [reduceCtorEq, false_iff, not_and]
    intro hvalue
    exact absurd hvalue (hframe d)

theorem load?_frame {name : LocalName} : m.load? type (.frame name) = some d ↔
    m.frame name = some (.slot type (some d)) ∧ d.irType = type := by
  rw [load?]
  split
  · next t d' hframe =>
    rw [hframe]
    grind [typed?_eq_some]
  · next hframe =>
    simp only [reduceCtorEq, false_iff, not_and]
    intro hslot
    exact absurd hslot (hframe type d)

theorem load?_global {name : GlobalName} : m.load? type (.global name) = some d ↔
    m.cells name = some d ∧ d.irType = type := by
  rw [load?]
  cases m.cells name <;> grind [typed?_eq_some]

theorem store?_frame {name : LocalName} : m.store? type d (.frame name) = some m' ↔
    (∃ old, m.frame name = some (.slot type old)) ∧ m' = m.define name (.slot type (some d)) := by
  rw [store?]
  split
  · next t old hframe =>
    rw [hframe]
    grind
  · next hframe =>
    simp only [reduceCtorEq, false_iff, not_and]
    rintro ⟨old, hslot⟩
    exact absurd hslot (hframe type old)

theorem store?_global {name : GlobalName} : m.store? type d (.global name) = some m' ↔
    (∃ old, m.cells name = some old ∧ old.irType = type) ∧ m' = m.setCell name d := by
  simp only [store?, Option.map_eq_some_iff, Option.bind_eq_some_iff, typed?_eq_some]
  constructor
  · rintro ⟨_, ⟨old, hold, rfl, htype⟩, rfl⟩
    exact ⟨⟨_, hold, htype⟩, rfl⟩
  · rintro ⟨⟨old, hold, htype⟩, rfl⟩
    exact ⟨old, ⟨old, hold, rfl, htype⟩, rfl⟩

end Access

section Step

variable {A : Arithmetic ι ρ} {printf : GlobalName} {m m' : Machine ι ρ} {dest : Int}
variable {type : IrType} {d : Datum ι ρ}

theorem step?_load {source : Pointer} (h : m.load? type source = some d) :
    m.step? A printf (.load dest type source) = some (m.define (.number dest) (.value d)) :=
  Option.bind_eq_some_iff.mpr ⟨d, h, rfl⟩

theorem step?_store {value : Value} {target : Pointer} (hvalue : m.operand? A type value = some d)
    (h : m.store? type d target = some m') :
    m.step? A printf (.store type value target) = some m' :=
  Option.bind_eq_some_iff.mpr ⟨d, hvalue, h⟩

theorem step?_convert {op : Conversion} {source : IrType} {value : Value} {r : Datum ι ρ}
    (hvalue : m.operand? A source value = some d)
    (h : (A.convert? op d).bind (typed? type) = some r) :
    m.step? A printf (.convert dest op source value type) =
      some (m.define (.number dest) (.value r)) :=
  Option.bind_eq_some_iff.mpr ⟨d, hvalue, Option.bind_eq_some_iff.mpr ⟨r, h, rfl⟩⟩

theorem step?_binary {op : BinaryOp} {left right : Value} {a b : Datum ι ρ}
    (ha : m.operand? A type left = some a) (hb : m.operand? A type right = some b)
    (h : A.binary? op a b = some d) :
    m.step? A printf (.binary dest op type left right) =
      some (m.define (.number dest) (.value d)) := by
  refine Option.bind_eq_some_iff.mpr ⟨a, ha, Option.bind_eq_some_iff.mpr ⟨b, hb, ?_⟩⟩
  exact Option.bind_eq_some_iff.mpr ⟨d, h, rfl⟩

theorem step?_print {format : GlobalName} {value : Value} (h : m.operand? A type value = some d) :
    m.step? A printf (.print dest printf format type value) = some (m.print format d) := by
  rw [step?, if_pos rfl]
  exact Option.bind_eq_some_iff.mpr ⟨d, h, rfl⟩

end Step

/-! ## Cells that are not there

Code that runs without a cell runs in the same way beside it, whatever it holds. -/

section Frame

variable {A : Arithmetic ι ρ} {printf cell : GlobalName} {m m' : Machine ι ρ} {d : Datum ι ρ}
variable {type : IrType} {pointer : Pointer}

theorem load?_setCell {v : Datum ι ρ} (hcell : m.cells cell = none)
    (h : m.load? type pointer = some v) : (m.setCell cell d).load? type pointer = some v := by
  cases pointer with
  | frame name => exact h
  | global name =>
    obtain ⟨hname, htype⟩ := load?_global.mp h
    have hne : name ≠ cell := by
      rintro rfl
      simp [hcell] at hname
    exact load?_global.mpr ⟨(cells_setCell_of_ne hne).trans hname, htype⟩

theorem store?_setCell {v : Datum ι ρ} (hcell : m.cells cell = none)
    (h : m.store? type v pointer = some m') :
    (m.setCell cell d).store? type v pointer = some (m'.setCell cell d) := by
  cases pointer with
  | frame name =>
    obtain ⟨hold, rfl⟩ := store?_frame.mp h
    exact store?_frame.mpr ⟨hold, rfl⟩
  | global name =>
    obtain ⟨⟨old, hname, htype⟩, rfl⟩ := store?_global.mp h
    have hne : name ≠ cell := by
      rintro rfl
      simp [hcell] at hname
    refine store?_global.mpr ⟨⟨old, (cells_setCell_of_ne hne).trans hname, htype⟩, ?_⟩
    simp only [setCell, Function.update_comm hne]

theorem cells_eq_none_of_store? {v : Datum ι ρ} (h : m.store? type v pointer = some m')
    (hcell : m'.cells cell = none) : m.cells cell = none := by
  cases pointer with
  | frame name =>
    obtain ⟨-, rfl⟩ := store?_frame.mp h
    exact hcell
  | global name =>
    obtain ⟨-, rfl⟩ := store?_global.mp h
    have hne : cell ≠ name := by
      rintro rfl
      simp at hcell
    rwa [cells_setCell_of_ne hne] at hcell

theorem step?_setCell {i : Instr} (h : m.step? A printf i = some m')
    (hcell : m'.cells cell = none) :
    m.cells cell = none ∧ (m.setCell cell d).step? A printf i = some (m'.setCell cell d) := by
  cases i with
  | alloca dest type =>
    obtain rfl := Option.some.inj h
    exact ⟨hcell, rfl⟩
  | load dest type source =>
    obtain ⟨v, hload, h⟩ := Option.bind_eq_some_iff.mp h
    obtain rfl := Option.some.inj h
    exact ⟨hcell, step?_load (load?_setCell hcell hload)⟩
  | store type value target =>
    obtain ⟨v, hvalue, hstore⟩ := Option.bind_eq_some_iff.mp h
    have hcell := cells_eq_none_of_store? hstore hcell
    exact ⟨hcell, step?_store hvalue (store?_setCell hcell hstore)⟩
  | convert dest op source value target =>
    obtain ⟨v, hvalue, h⟩ := Option.bind_eq_some_iff.mp h
    obtain ⟨r, hconvert, h⟩ := Option.bind_eq_some_iff.mp h
    obtain rfl := Option.some.inj h
    exact ⟨hcell, step?_convert hvalue hconvert⟩
  | binary dest op type left right =>
    obtain ⟨a, ha, h⟩ := Option.bind_eq_some_iff.mp h
    obtain ⟨b, hb, h⟩ := Option.bind_eq_some_iff.mp h
    obtain ⟨r, hr, h⟩ := Option.bind_eq_some_iff.mp h
    obtain rfl := Option.some.inj h
    exact ⟨hcell, step?_binary ha hb hr⟩
  | print dest callee format type value =>
    rw [step?] at h
    split at h
    · next hcallee =>
      obtain ⟨v, hvalue, h⟩ := Option.bind_eq_some_iff.mp h
      obtain rfl := Option.some.inj h
      subst hcallee
      exact ⟨hcell, step?_print hvalue⟩
    · cases h
  | _ => cases h

theorem steps?_setCell {code : List Instr} (h : m.steps? A printf code = some m')
    (hcell : m'.cells cell = none) :
    m.cells cell = none ∧ (m.setCell cell d).steps? A printf code = some (m'.setCell cell d) := by
  induction code generalizing m with
  | nil =>
    obtain rfl := Option.some.inj h
    exact ⟨hcell, rfl⟩
  | cons i code ih =>
    obtain ⟨m₁, hstep, hrest⟩ := Option.bind_eq_some_iff.mp h
    obtain ⟨hcell₁, hrest'⟩ := ih hrest
    obtain ⟨hcell₀, hstep'⟩ := step?_setCell hstep hcell₁
    exact ⟨hcell₀, Option.bind_eq_some_iff.mpr ⟨_, hstep', hrest'⟩⟩

end Frame

/-! ## Whole programs -/

section Programs

variable {A : Arithmetic ι ρ} {printf : GlobalName} {m m' : Machine ι ρ}

theorem steps?_append (a b : List Instr) :
    m.steps? A printf (a ++ b) = (m.steps? A printf a).bind (·.steps? A printf b) :=
  List.foldlM_append

theorem start_cell {lines : List Line} {name : GlobalName} {type : IrType} {text : String}
    {d : Datum ι ρ} (hname : (start A lines).cells name = none)
    (htext : A.constant? type text = some d) :
    start A (lines ++ [.cell name type text]) = (start A lines).setCell name d := by
  have hcells : ∀ n, (start A (lines ++ [.cell name type text])).cells n =
      Function.update (start A lines).cells name (some d) n := by
    intro n
    change (lines ++ [_]).findSome? _ = _
    rw [List.findSome?_append]
    by_cases hn : n = name
    · subst hn
      rw [Function.update_self, show lines.findSome? _ = none from hname]
      simp [Line.initial?, htext]
    · rw [Function.update_of_ne hn]
      simp [Line.initial?, Ne.symm hn, start]
  rw [setCell, ← funext hcells]
  rfl

theorem start_eq {a b lines : List Line} (ha : ∀ line ∈ a, ∀ name, line.initial? A name = none)
    (hb : ∀ line ∈ b, ∀ name, line.initial? A name = none) :
    start A (a ++ lines ++ b) = start A lines := by
  have hcells : ∀ name, (start A (a ++ lines ++ b)).cells name = (start A lines).cells name := by
    intro name
    change (a ++ lines ++ b).findSome? _ = lines.findSome? _
    rw [List.findSome?_append, List.findSome?_append,
      List.findSome?_eq_none_iff.mpr fun line hline => ha line hline name,
      List.findSome?_eq_none_iff.mpr fun line hline => hb line hline name]
    simp
  rw [start, start]
  congr 1
  exact funext hcells

theorem run?_of_steps? {code : List Instr} (h : m.steps? A printf code = some m') (type : IrType)
    (value : Value) (rest : List Line) :
    run? A printf (code.map .instr ++ .instr (.ret type value) :: rest) m = some m'.printed := by
  induction code generalizing m with
  | nil =>
    obtain rfl := Option.some.inj h
    rfl
  | cons i code ih =>
    obtain ⟨m₁, hstep, hrest⟩ := Option.bind_eq_some_iff.mp h
    rw [List.map_cons, List.cons_append, run?]
    · rw [hstep]
      exact ih hrest
    · rintro t v ⟨⟩
      cases hstep

end Programs

/-! ## Growing frames -/

/-- Code that only adds local names: all others, the cells and the output stay. -/
structure Extends (m m' : Machine ι ρ) : Prop where
  frame : ∀ name c, m.frame name = some c → m'.frame name = some c
  cells : m'.cells = m.cells
  printed : m'.printed = m.printed

section Extends

variable {m m' m'' : Machine ι ρ} {name : LocalName}

@[refl] theorem Extends.refl (m : Machine ι ρ) : m.Extends m :=
  ⟨fun _ _ h => h, rfl, rfl⟩

theorem Extends.trans (h : m.Extends m') (h' : m'.Extends m'') : m.Extends m'' :=
  ⟨fun name c hc => h'.frame name c (h.frame name c hc), h'.cells.trans h.cells,
    h'.printed.trans h.printed⟩

/-- A name that was not in use at the start may be defined, and defined again. -/
theorem Extends.define (h : m.Extends m') (hname : m.frame name = none) (c : Content ι ρ) :
    m.Extends (m'.define name c) := by
  refine ⟨fun other c' hc' => ?_, h.cells, h.printed⟩
  have hne : other ≠ name := by
    rintro rfl
    rw [hname] at hc'
    cases hc'
  rw [frame_define_of_ne hne]
  exact h.frame other c' hc'

theorem Extends.operand? {A : Arithmetic ι ρ} {type : IrType} {v : Value} {d : Datum ι ρ}
    (h : m.Extends m') (hv : m.operand? A type v = some d) : m'.operand? A type v = some d := by
  cases v with
  | constant text => exact hv
  | number n =>
    obtain ⟨hframe, htype⟩ := operand?_number.mp hv
    exact operand?_number.mpr ⟨h.frame _ _ hframe, htype⟩

end Extends

end Machine

end MkCompiler
