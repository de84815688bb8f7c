import MkCompiler.Proofs.Handling
import MkCompiler.Proofs.Numerals
import MkCompiler.Proofs.Snapshots

/-!
# Translation of straight-line programs

A straight-line program is accepted, and the code emitted for it prints what the program prints. The
expressions leave operands on the stack that denote their values; the statements keep every variable
bound to a cell that holds its value.
-/

namespace MkCompiler

open MkCompiler.Action

variable {ι ρ : Type} {A : Arithmetic ι ρ} {symbols : RuntimeSymbols}

/-! ## Notifications -/

def commandsOf (trace : List (Int × Notification)) : List Command :=
  trace.map fun t => t.2.toCommand t.1

namespace Compilation

variable {c c' c'' : Compilation} {a b : List Notification}

def Accepts (c : Compilation) (ns : List Notification) (c' : Compilation) : Prop :=
  ∀ trace, trace.map Prod.snd = ns → handled? (commandsOf trace) c = some c'

theorem Accepts.nil (c : Compilation) : c.Accepts [] c := by
  rintro trace htrace
  rw [List.map_eq_nil_iff.mp htrace]
  rfl

theorem Accepts.append (ha : c.Accepts a c') (hb : c'.Accepts b c'') :
    c.Accepts (a ++ b) c'' := by
  intro trace htrace
  obtain ⟨ta, tb, rfl, hta, htb⟩ := List.map_eq_append_iff.mp htrace
  rw [commandsOf, List.map_append]
  exact handled?_append.mpr ⟨c', ha ta hta, hb tb htb⟩

end Compilation

namespace Snapshot

variable {s s' : Snapshot A symbols} {file : String} {globals : Scope Global}
variable {stack : List Operand} {declared declared' : List String} {ev : Evaluation ι ρ}
variable {x : String} {g : Global} {op : Operand} {d : Datum ι ρ}

def compilation (s : Snapshot A symbols) (file : String) (globals : Scope Global)
    (stack : List Operand) : Compilation where
  file
  table := { globals }
  emitter := s.emitter
  stack

/-- The machine agrees with the evaluation: each declared variable is bound to a cell that holds its
value, all others have no cells, and the same values have been printed. -/
structure Agrees (s : Snapshot A symbols) (globals : Scope Global) (declared : List String)
    (ev : Evaluation ι ρ) : Prop where
  bound : ∀ x ∈ declared, ∃ g, globals.find? x = some g ∧ s.machine.Bound x g (ev.values x)
  unbound : ∀ x, x ∉ declared → globals.find? x = none ∧ ∀ v, s.machine.cells (.cell "" x v) = none
  printed : s.machine.printed = ev.printed

theorem Agrees.congr {ev' : Evaluation ι ρ} (h : s.Agrees globals declared ev)
    (hcells : s'.machine.cells = s.machine.cells) (hvalues : ev'.values = ev.values)
    (hprinted : s'.machine.printed = ev'.printed) : s'.Agrees globals declared ev' := by
  refine ⟨fun x hx => ?_, fun x hx => ?_, hprinted⟩
  · obtain ⟨g, hfind, hg⟩ := h.bound x hx
    rw [hvalues]
    exact ⟨g, hfind, hg.congr fun v => by rw [hcells]⟩
  · rw [hcells]
    exact h.unbound x hx

theorem Agrees.extend (h : s.Agrees globals declared ev) (hext : s.machine.Extends s'.machine) :
    s'.Agrees globals declared ev :=
  h.congr hext.cells rfl (hext.printed.trans h.printed)

/-- A variable that is assigned to is declared, and no other one changes. -/
theorem Agrees.assign (h : s.Agrees globals declared ev) (hg : s'.machine.Bound x g d)
    (htouches : s.machine.Touches x s'.machine) (hx : x ∈ declared')
    (hdeclared : ∀ y, y ≠ x → (y ∈ declared' ↔ y ∈ declared)) :
    s'.Agrees (globals.insert x g) declared' (ev.assign x d) := by
  refine ⟨fun y hy => ?_, fun y hy => ?_, htouches.printed.trans h.printed⟩
  · by_cases hyx : y = x
    · subst hyx
      refine ⟨g, by simp, ?_⟩
      rw [Evaluation.values_assign_self]
      exact hg
    · obtain ⟨g', hfind, hg'⟩ := h.bound y ((hdeclared y hyx).mp hy)
      refine ⟨g', by simpa [hyx] using hfind, ?_⟩
      rw [Evaluation.values_assign_of_ne ev hyx]
      exact hg'.congr fun v => htouches.cells y v hyx
  · have hyx : y ≠ x := by
      rintro rfl
      exact hy hx
    obtain ⟨hfind, hcells⟩ := h.unbound y fun hy' => hy ((hdeclared y hyx).mpr hy')
    refine ⟨by simpa [hyx] using hfind, fun v => ?_⟩
    rw [htouches.cells y v hyx]
    exact hcells v

/-! ## Expressions -/

theorem yields_onEmitter {α : Type} {x : Action Emitter α} {Q : α → Snapshot A symbols → Prop}
    (h : s.Leads x Q) : Yields (Compilation.onEmitter x) (s.compilation file globals stack)
      fun a c => ∃ s' : Snapshot A symbols, c = s'.compilation file globals stack ∧ Q a s' := by
  refine yields_zoom.mpr (Yields.mono h ?_)
  rintro a _ ⟨s', rfl, hq⟩
  exact ⟨s', rfl, hq⟩

theorem onTable_eq {α : Type} {x : Action SymbolTable α} {a : α} {globals' : Scope Global}
    (h : x { globals } = .ok a { globals := globals' }) :
    Compilation.onTable x (s.compilation file globals stack) =
      .ok a (s.compilation file globals' stack) :=
  zoom_eq_ok h

theorem onTable_lookup (hfind : globals.find? x = some g) :
    Compilation.onTable (SymbolTable.lookup x) (s.compilation file globals stack) =
      .ok (.global g) (s.compilation file globals stack) := by
  have hresolve : SymbolTable.resolve? { globals } x = some (.global g) := by
    change (globals.find? x).map Binding.global = _
    rw [hfind]
    rfl
  have hlookup : SymbolTable.lookup x { globals } = .ok (.global g) { globals } := by
    refine Action.bind_eq_ok.mpr ⟨{ globals }, { globals }, rfl, ?_⟩
    rw [hresolve]
    rfl
  exact onTable_eq hlookup

theorem accepts_of_construct {n : Notification} {c : Compilation} (x : Action Compilation Unit)
    (hx : ∀ line, Compilation.construct (n.toCommand line) = x ∧
      (n.toCommand line).kind ≠ .declareInstance)
    (h : x (s.compilation file globals stack) = .ok () c) :
    (s.compilation file globals stack).Accepts [n] c := by
  intro trace htrace
  obtain ⟨⟨line, n'⟩, rfl, rfl⟩ := List.map_eq_singleton_iff.mp htrace
  obtain ⟨hconstruct, hkind⟩ := hx line
  refine Compilation.handled?_single.mpr ?_
  rw [Compilation.handle_eq_construct rfl rfl hkind]
  refine Compilation.locate_eq_ok.mpr ?_
  rw [hconstruct]
  exact h

theorem exists_accepts {n : Notification} (x : Action Compilation Unit) {Q : Compilation → Prop}
    (hx : ∀ line, Compilation.construct (n.toCommand line) = x ∧
      (n.toCommand line).kind ≠ .declareInstance)
    (h : Yields x (s.compilation file globals stack) fun _ c => Q c) :
    ∃ c, (s.compilation file globals stack).Accepts [n] c ∧ Q c := by
  obtain ⟨_, c, hc, hq⟩ := h
  exact ⟨c, accepts_of_construct x hx hc, hq⟩

theorem exists_int (m : Machine ι ρ) (l : IntNumeral) :
    ∃ literal, Literal.int? l.text = some literal ∧
      m.Denotes A (.literal literal) (.int (A.int l.value)) := by
  refine ⟨Literal.ofInt l.value, by simp [Literal.int?, l.read], .literal ?_ rfl⟩
  change (Numeral.word32? (toString l.value).toList).map _ = _
  rw [Numeral.word32?_toString l.read]
  rfl

theorem exists_real (m : Machine ι ρ) (l : RealNumeral) :
    ∃ literal, Literal.real? l.text = some literal ∧
      m.Denotes A (.literal literal) (.real (A.real l.value)) := by
  refine ⟨Literal.ofReal l.value, by simp [Literal.real?, l.read], .literal ?_ rfl⟩
  change (Numeral.real? (String.ofList (Numeral.realText l.value)).toList).map _ = _
  rw [String.toList_ofList, Numeral.real?_realText l.read]
  rfl

theorem yields_arith {l r : Operand} {a b : Datum ι ρ} (op : ArithOp)
    (hl : s.machine.Denotes A l a) (hr : s.machine.Denotes A r b) :
    Yields (Compilation.arith op.name) (s.compilation file globals (r :: l :: stack)) fun _ c =>
      ∃ (s' : Snapshot A symbols) (result : Register),
        c = s'.compilation file globals (.register result :: stack) ∧
        s.machine.Extends s'.machine ∧
        s'.machine.Denotes A (.register result) (A.apply op a b) := by
  rw [Compilation.arith, ArithOp.ofToken?_name]
  refine yields_bind.mpr ⟨(l, r), s.compilation file globals stack, rfl, yields_bind.mpr ?_⟩
  refine (yields_onEmitter (leads_arithmetic hl hr op)).mono ?_
  rintro result _ ⟨s', rfl, hext, hresult⟩
  exact yields_modify.mpr ⟨s', result, rfl, hext, hresult⟩

/-- The notifications of an expression leave an operand on the stack that denotes its value. -/
theorem exists_operand (file : String) (stack : List Operand) (e : Expr)
    (hs : s.Agrees globals declared ev) (he : e.fits declared = true) :
    ∃ (s' : Snapshot A symbols) (op : Operand),
      (s.compilation file globals stack).Accepts e.notifications
        (s'.compilation file globals (op :: stack)) ∧
      s.machine.Extends s'.machine ∧ s'.machine.Denotes A op (e.eval A ev.values) := by
  induction e generalizing s stack with
  | int l =>
    obtain ⟨literal, hread, hdenotes⟩ := exists_int (A := A) s.machine l
    refine ⟨s, .literal literal, ?_, .refl _, hdenotes⟩
    refine accepts_of_construct (Compilation.int l.text) (fun _ => ⟨rfl, nofun⟩) ?_
    rw [Compilation.int, hread]
    rfl
  | real l =>
    obtain ⟨literal, hread, hdenotes⟩ := exists_real (A := A) s.machine l
    refine ⟨s, .literal literal, ?_, .refl _, hdenotes⟩
    refine accepts_of_construct (Compilation.real l.text) (fun _ => ⟨rfl, nofun⟩) ?_
    rw [Compilation.real, hread]
    rfl
  | name x =>
    obtain ⟨g, hfind, hg⟩ := hs.bound x (by simpa [Expr.fits, Expr.names] using he)
    refine ⟨s, g.toOperand, ?_, .refl _, hg.denotes⟩
    refine accepts_of_construct (Compilation.name x) (fun _ => ⟨rfl, nofun⟩) ?_
    exact bind_eq_ok.mpr ⟨_, _, onTable_lookup hfind, rfl⟩
  | arith op left right ihl ihr =>
    have hfits : left.fits declared = true ∧ right.fits declared = true := by
      simpa [Expr.fits, Expr.names] using he
    obtain ⟨s₁, l, haccepts₁, hext₁, hl⟩ := ihl stack hs hfits.1
    obtain ⟨s₂, r, haccepts₂, hext₂, hr⟩ := ihr (l :: stack) (hs.extend hext₁) hfits.2
    obtain ⟨_, haccepts₃, s₃, result, rfl, hext₃, hresult⟩ := exists_accepts (n := .arith op) _
      (fun _ => ⟨rfl, nofun⟩) (yields_arith op (hl.mono hext₂) hr)
    refine ⟨s₃, .register result, (haccepts₁.append haccepts₂).append haccepts₃, ?_, hresult⟩
    exact hext₁.trans (hext₂.trans hext₃)

/-! ## Statements -/

theorem declareGlobal_eq (hname : g.name = x) (hfind : globals.find? x = none) :
    SymbolTable.declareGlobal g { globals } = .ok () { globals := globals.insert x g } := by
  have hcheck : Yields (SymbolTable.checkProgramName g.name) { globals } fun _ t =>
      t = { globals } := by
    refine yields_bind.mpr (yields_get.mpr (yields_bind.mpr (yields_require.mpr ⟨rfl, ?_⟩)))
    refine yields_bind.mpr (yields_require.mpr ⟨rfl, ?_⟩)
    exact yields_require.mpr ⟨by simp [hname, hfind], rfl⟩
  obtain ⟨_, _, hcheck, rfl⟩ := hcheck
  rw [← hname]
  exact bind_eq_ok.mpr ⟨(), _, hcheck, rfl⟩

/-- A new variable is bound to a new cell. What operands denote stays as it is. -/
theorem yields_declareScalar (type : DataType) (htype : type.isLowered = true)
    (hfind : globals.find? x = none) (hcells : ∀ v, s.machine.cells (.cell "" x v) = none) :
    Yields (Compilation.declareScalar x type) (s.compilation file globals stack) fun b c =>
      ∃ (s' : Snapshot A symbols) (g : Global) (d : Datum ι ρ), b = .global g ∧
        c = s'.compilation file (globals.insert x g) stack ∧ s'.machine.Bound x g d ∧
        s.machine.Touches x s'.machine ∧ (type.storage = .int → d = A.zero) ∧
        ∀ op d, s.machine.Denotes A op d → s'.machine.Denotes A op d := by
  have htable := declareGlobal_eq (g := .ofVariable x type) rfl hfind
  have hstorage := leads_declareStorage (s := s) (g := .ofVariable x type) true rfl htype (hcells 0)
  refine yields_bind.mpr (yields_get.mpr ?_)
  refine yields_bind.mpr ((yields_of_eq (onTable_eq htable)).mpr (yields_bind.mpr ?_))
  refine (yields_onEmitter hstorage).mono ?_
  rintro _ _ ⟨s', rfl, d, hs', hd, hzero⟩
  change s'.machine = s.machine.setCell (.cell "" x 0) d at hs'
  refine yields_pure.mpr ⟨s', .ofVariable x type, d, rfl, rfl, ?_⟩
  rw [hs']
  refine ⟨⟨rfl, rfl, rfl, rfl, Machine.cells_setCell_self .., hd.symm, ?_⟩,
    Machine.touches_setCell .., hzero, fun op d h => h.setCell (hcells 0)⟩
  exact Machine.cells_setCell_later fun w _ => hcells w

theorem yields_assignTo {d₀ : Datum ι ρ} (hg : s.machine.Bound x g d₀)
    (h : s.machine.Denotes A op d) :
    Yields (Compilation.assignTo (.global g) op) (s.compilation file globals stack) fun _ c =>
      ∃ (s' : Snapshot A symbols) (g' : Global),
        c = s'.compilation file (globals.insert x g') stack ∧ s'.machine.Bound x g' d ∧
        s.machine.Touches x s'.machine := by
  refine yields_bind.mpr ((yields_onEmitter (leads_assign hg h)).mono ?_)
  rintro _ _ ⟨s', rfl, g', rfl, hg', htouches⟩
  have htable : SymbolTable.rebind (.global g') { globals } =
      .ok () { globals := globals.insert x g' } := by
    change (if g'.inst = "" then _ else _ : Action SymbolTable Unit) { globals } = _
    rw [if_pos hg'.inst, hg'.name]
    rfl
  exact (yields_of_eq (onTable_eq htable)).mpr ⟨s', g', rfl, hg', htouches⟩

/-- The compilation stands between two statements, in agreement with the evaluation. -/
def Settled (A : Arithmetic ι ρ) (symbols : RuntimeSymbols) (file : String) (declared : List String)
    (ev : Evaluation ι ρ) (c : Compilation) : Prop :=
  ∃ (s : Snapshot A symbols) (globals : Scope Global),
    c = s.compilation file globals [] ∧ s.Agrees globals declared ev

theorem yields_declare (hs : s.Agrees globals declared ev) (hx : x ∉ declared) :
    Yields (Compilation.declareVariable x false) (s.compilation file globals []) fun _ c =>
      Settled A symbols file (x :: declared) (ev.assign x A.zero) c := by
  obtain ⟨hfind, hcells⟩ := hs.unbound x hx
  refine yields_bind.mpr ((yields_declareScalar .unresolved rfl hfind hcells).mono ?_)
  rintro _ _ ⟨s', g, d, rfl, rfl, hg, htouches, hzero, -⟩
  rw [hzero rfl] at hg
  exact yields_pure.mpr ⟨s', _, rfl, hs.assign hg htouches (by simp) (by simp +contextual)⟩

theorem yields_init (hs : s.Agrees globals declared ev) (hx : x ∉ declared)
    (hop : s.machine.Denotes A op d) :
    Yields (Compilation.declareVariable x true) (s.compilation file globals [op]) fun _ c =>
      Settled A symbols file (x :: declared) (ev.assign x d) c := by
  obtain ⟨hfind, hcells⟩ := hs.unbound x hx
  refine yields_bind.mpr ⟨op, s.compilation file globals [], rfl, yields_bind.mpr ?_⟩
  refine (yields_declareScalar op.type hop.isLowered_type hfind hcells).mono ?_
  rintro _ _ ⟨s₁, g, d₀, rfl, rfl, hg, htouches, -, hkeeps⟩
  have hs₁ : s₁.Agrees (globals.insert x g) (x :: declared) (ev.assign x d₀) :=
    hs.assign hg htouches (by simp) (by simp +contextual)
  refine (yields_assignTo hg (hkeeps op d hop)).mono ?_
  rintro _ _ ⟨s', g', rfl, hg', htouches'⟩
  refine ⟨s', _, rfl, ?_⟩
  rw [← ev.assign_assign x d₀]
  exact hs₁.assign hg' htouches' (by simp) fun _ _ => Iff.rfl

theorem yields_assign (hs : s.Agrees globals declared ev) (hx : x ∈ declared)
    (hop : s.machine.Denotes A op d) :
    Yields (Compilation.assign x) (s.compilation file globals [op]) fun _ c =>
      Settled A symbols file declared (ev.assign x d) c := by
  obtain ⟨g, hfind, hg⟩ := hs.bound x hx
  refine yields_bind.mpr ⟨op, s.compilation file globals [], rfl, yields_bind.mpr ?_⟩
  refine (yields_of_eq (onTable_lookup hfind)).mpr ((yields_assignTo hg hop).mono ?_)
  rintro _ _ ⟨s', g', rfl, hg', htouches⟩
  exact ⟨s', _, rfl, hs.assign hg' htouches hx fun _ _ => Iff.rfl⟩

theorem yields_print (hs : s.Agrees globals declared ev) (hop : s.machine.Denotes A op d) :
    Yields Compilation.print (s.compilation file globals [op]) fun _ c =>
      Settled A symbols file declared
        { ev with printed := ev.printed ++ [(d.format symbols, d)] } c := by
  refine yields_bind.mpr ⟨op, s.compilation file globals [], rfl, ?_⟩
  refine (yields_onEmitter (leads_print hop)).mono ?_
  rintro _ _ ⟨s', rfl, hcells, hprinted⟩
  rw [hs.printed] at hprinted
  exact ⟨s', globals, rfl, hs.congr hcells rfl hprinted⟩

theorem exists_accepts_operand {Q : Compilation → Prop} {n : Notification} {e : Expr}
    (x : Action Compilation Unit) (hs : s.Agrees globals declared ev)
    (he : e.fits declared = true)
    (hx : ∀ line, Compilation.construct (n.toCommand line) = x ∧
      (n.toCommand line).kind ≠ .declareInstance)
    (h : ∀ (s' : Snapshot A symbols) (op : Operand), s'.Agrees globals declared ev →
      s'.machine.Denotes A op (e.eval A ev.values) →
      Yields x (s'.compilation file globals [op]) fun _ c => Q c) :
    ∃ c, (s.compilation file globals []).Accepts (e.notifications ++ [n]) c ∧ Q c := by
  obtain ⟨s', op, haccepts, hext, hop⟩ := exists_operand file [] e hs he
  obtain ⟨c, haccepts', hq⟩ := exists_accepts x hx (h s' op (hs.extend hext) hop)
  exact ⟨c, haccepts.append haccepts', hq⟩

/-- The notifications of a statement keep the compilation in agreement with the evaluation. -/
theorem Settled.stmt {c : Compilation} {stmt : Stmt} (h : Settled A symbols file declared ev c)
    (hfits : stmt.fits declared = true) :
    ∃ c', c.Accepts stmt.notifications c' ∧
      Settled A symbols file (stmt.declares ++ declared) (ev.execute A symbols stmt) c' := by
  obtain ⟨s, globals, rfl, hs⟩ := h
  cases stmt with
  | declare x =>
    have hx : x ∉ declared := by simpa [Stmt.fits] using hfits
    exact exists_accepts _ (fun _ => ⟨rfl, nofun⟩) (yields_declare hs hx)
  | init x e =>
    have hfits : x ∉ declared ∧ e.fits declared = true := by simpa [Stmt.fits] using hfits
    exact exists_accepts_operand _ hs hfits.2 (fun _ => ⟨rfl, nofun⟩) fun s' op hs' hop =>
      yields_init hs' hfits.1 hop
  | assign x e =>
    have hfits : x ∈ declared ∧ e.fits declared = true := by simpa [Stmt.fits] using hfits
    exact exists_accepts_operand _ hs hfits.2 (fun _ => ⟨rfl, nofun⟩) fun s' op hs' hop =>
      yields_assign hs' hfits.1 hop
  | print e =>
    exact exists_accepts_operand _ hs hfits (fun _ => ⟨rfl, nofun⟩) fun s' op hs' hop =>
      yields_print hs' hop

/-! ## Programs -/

theorem settled_start (A : Arithmetic ι ρ) (symbols : RuntimeSymbols) (file : String) :
    Settled A symbols file [] (.start A) (Compilation.start file symbols) :=
  ⟨start A symbols, .empty, rfl, by simp, fun _ _ => ⟨rfl, fun _ => rfl⟩, rfl⟩

theorem Settled.program {c : Compilation} {program : List Stmt}
    (h : Settled A symbols file declared ev c) (hscoped : wellScoped declared program = true) :
    ∃ c' declared', c.Accepts (program.flatMap Stmt.notifications) c' ∧
      Settled A symbols file declared' (program.foldl (Evaluation.execute A symbols) ev) c' := by
  induction program generalizing c declared ev with
  | nil => exact ⟨c, declared, .nil c, h⟩
  | cons stmt rest ih =>
    obtain ⟨hfits, hscoped⟩ : stmt.fits declared = true ∧ _ := by
      simpa [wellScoped] using hscoped
    obtain ⟨c₁, haccepts, h₁⟩ := h.stmt hfits
    obtain ⟨c', declared', haccepts', h'⟩ := ih h₁ hscoped
    exact ⟨c', declared', haccepts.append haccepts', h'⟩

def body (s : Snapshot A symbols) : List Line :=
  s.code.map .instr ++ [.instr (.ret .i32 (.constant "0"))]

def lines (s : Snapshot A symbols) : List Line :=
  symbols.prologue ++ s.cells.map cellLine ++ Definition.lines ⟨.defineEntry, s.body⟩

theorem yields_endProgram (s : Snapshot A symbols) (file : String) (globals : Scope Global)
    (stack : List Operand) :
    Yields Compilation.endProgram (s.compilation file globals stack) fun _ c =>
      c.program = some s.lines := by
  have hfinish : Yields Emitter.finish s.emitter fun lines _ => lines = s.lines := by
    refine yields_bind.mpr (yields_get.mpr ?_)
    change Yields (require _ _ >>= _) _ _
    refine yields_bind.mpr (yields_require.mpr ⟨⟨rfl, rfl⟩, ?_⟩)
    refine yields_bind.mpr ⟨(), _, rfl, yields_bind.mpr (yields_modify.mpr ?_)⟩
    refine yields_bind.mpr (yields_get.mpr (yields_pure.mpr ?_))
    change symbols.prologue ++ s.cells.map cellLine ++ [.defineEntry] ++
      (s.code.map .instr ++ [_] ++ [.close]) ++ [] = s.lines
    simp [lines, body, Definition.lines]
  refine yields_bind.mpr (yields_get.mpr ?_)
  change Yields (Compilation.onEmitter _ >>= _) _ _
  refine yields_bind.mpr (yields_zoom.mpr (hfinish.mono ?_))
  rintro _ _ rfl
  exact yields_modify.mpr rfl

theorem exists_instr_of_mem_body {line : Line} (h : line ∈ s.body) : ∃ i, line = .instr i := by
  rcases List.mem_append.mp h with h | h
  · obtain ⟨i, -, rfl⟩ := List.mem_map.mp h
    exact ⟨i, rfl⟩
  · exact ⟨_, List.mem_singleton.mp h⟩

theorem definitions_lines (s : Snapshot A symbols) :
    definitions s.lines = [⟨.defineEntry, s.body⟩] := by
  have hcells : IsPreamble (s.cells.map cellLine) := by
    constructor <;>
    · intro line hline
      obtain ⟨cell, -, rfl⟩ := List.mem_map.mp hline
      rfl
  have hcode : ∀ line ∈ s.body, line.isCode = true := by
    intro line hline
    obtain ⟨i, rfl⟩ := exists_instr_of_mem_body hline
    rfl
  have hread : readDefinitions none ([⟨.defineEntry, s.body⟩].flatMap Definition.lines) = _ :=
    readDefinitions_lines (by simpa [Line.opens] using hcode)
  rw [definitions, lines, readDefinitions_outside (isPreamble_header hcells).opens]
  simpa using hread

theorem run?_body (s : Snapshot A symbols) :
    Machine.run? A (.external symbols.printf) s.body (.start A s.lines) =
      some s.machine.printed := by
  have hstart : Machine.start A s.lines = Machine.start A (s.cells.map cellLine) := by
    refine Machine.start_eq (fun line hline name => ?_) fun line hline name => ?_
    · simp only [RuntimeSymbols.prologue, List.mem_cons, List.not_mem_nil, or_false] at hline
      rcases hline with rfl | rfl | rfl | rfl | rfl | rfl | rfl <;> rfl
    · rcases List.mem_append.mp hline with hline | hline
      · rcases List.mem_cons.mp hline with rfl | hline
        · rfl
        · obtain ⟨i, rfl⟩ := exists_instr_of_mem_body hline
          rfl
      · rw [List.mem_singleton.mp hline]
        rfl
  rw [hstart, body]
  exact Machine.run?_of_steps? s.steps ..

end Snapshot

/-- A straight-line program in which every variable is declared once, and before it is used, is
compiled, whatever its source lines are. Executing the entry point of the emitted program prints
what the program prints. -/
theorem compile_preserves_output (A : Arithmetic ι ρ) (file : String) (symbols : RuntimeSymbols)
    {program : List Stmt} (hscoped : wellScoped [] program = true)
    {trace : List (Int × Notification)} (htrace : trace.map Prod.snd = announce program) :
    ∃ lines body, compile file (commandsOf trace) symbols = .ok lines ∧
      definitions lines = [⟨.defineEntry, body⟩] ∧
      Machine.run? A (.external symbols.printf) body (.start A lines) =
        some (output A symbols program) := by
  obtain ⟨c, declared, haccepts, s, globals, rfl, hs⟩ :=
    (Snapshot.settled_start A symbols file).program hscoped
  obtain ⟨c', haccepts', hlines⟩ := Snapshot.exists_accepts (n := .endProgram) _
    (fun _ => ⟨rfl, nofun⟩) (s.yields_endProgram file globals [])
  have hhandled := haccepts.append haccepts' trace htrace
  refine ⟨s.lines, s.body, ?_, s.definitions_lines, ?_⟩
  · exact compile_eq_ok.mpr ⟨c', Compilation.handleAll_eq_ok.mpr hhandled, hlines⟩
  · rw [s.run?_body, hs.printed]
    rfl

/-- Words of 32 bits and exact reals. -/
def exactArithmetic : Arithmetic (BitVec 32) ℚ where
  int := BitVec.ofInt 32
  real
    | .finite negative m e => (if negative then -1 else 1) * m * 2 ^ e
    | _ => 0
  toReal v := v.toInt
  add a b := a + b
  sub a b := a - b
  mul a b := a * b
  fadd a b := a + b
  fsub a b := a - b
  fmul a b := a * b
  fdiv a b := a / b

/-- A program whose variable `x` is an integer, a real and an integer again. -/
def retypingProgram : List Stmt :=
  let two : Expr := .int ⟨"+02", 2, by decide⟩
  let seven : Expr := .int ⟨"7", 7, by decide⟩
  let half : Expr := .real ⟨"5e-1", .finite false 4503599627370496 (-53), by decide +kernel⟩
  [.declare "x", .print (.name "x"), .assign "x" seven,
    .init "y" (.arith .div (.name "x") two),
    .assign "x" (.arith .add (.arith .mul (.name "x") (.name "y")) half), .print (.name "x"),
    .assign "x" (.arith .sub two seven), .print (.name "x"),
    .print (.arith .sub (.name "x") (.name "y"))]

def retypingTrace : List (Int × Notification) :=
  (announce retypingProgram).zipIdx.map fun (n, i) => ((i : Int), n)

theorem compile_preserves_output_sample :
    wellScoped [] retypingProgram = true ∧
      retypingTrace.map Prod.snd = announce retypingProgram ∧
      ∃ lines body, compile "retyping.mk" (commandsOf retypingTrace) .standard = .ok lines ∧
        definitions lines = [⟨.defineEntry, body⟩] ∧
        Machine.run? exactArithmetic (.external "@printf") body (.start exactArithmetic lines) =
          some [(.external "@sysvar_printint", .int 0), (.external "@sysvar_printreal", .real 25),
            (.external "@sysvar_printint", .int (-5)),
            (.external "@sysvar_printreal", .real (-17 / 2))] := by
  have hscoped : wellScoped [] retypingProgram = true := by decide
  have htrace : retypingTrace.map Prod.snd = announce retypingProgram := rfl
  have houtput : output exactArithmetic .standard retypingProgram =
      [(.external "@sysvar_printint", .int 0), (.external "@sysvar_printreal", .real 25),
        (.external "@sysvar_printint", .int (-5)),
        (.external "@sysvar_printreal", .real (-17 / 2))] := by
    decide +kernel
  rw [← houtput]
  exact ⟨hscoped, htrace,
    compile_preserves_output exactArithmetic "retyping.mk" .standard hscoped htrace⟩

end MkCompiler
