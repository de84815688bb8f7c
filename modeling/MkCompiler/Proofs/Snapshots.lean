import MkCompiler.Emitter.Transfer
import MkCompiler.Proofs.Action
import MkCompiler.Proofs.StraightLine

/-!
# Emitters and the machines their code leads to

A snapshot pairs the emitter of a straight-line program with the machine that the code emitted so
far leads to. Each operation of the emitter is described once, by what the code it appends does:
reading an operand computes its value, and an assignment leaves the value in the cell its variable
is bound to.
-/

namespace MkCompiler

open MkCompiler.Action

variable {ι ρ α β : Type} {A : Arithmetic ι ρ} {symbols : RuntimeSymbols}

/-! ## Operators -/

namespace Arithmetic

/-- The operands an operator works on: reals if one of them is, or if `force` is set. -/
def widened (A : Arithmetic ι ρ) (force : Bool) (a b : Datum ι ρ) : Datum ι ρ × Datum ι ρ :=
  if force = true ∨ a.type = .real ∨ b.type = .real then (.real (A.asReal a), .real (A.asReal b))
  else (a, b)

/-- Widened operands and the result have one type, and there is a machine operation for it. -/
theorem exists_opcode (A : Arithmetic ι ρ) (op : ArithOp) (a b : Datum ι ρ) :
    ∃ l r opcode, A.widened (op = .div) a b = (l, r) ∧ op.opcode? l.type = some opcode ∧
      A.binary? opcode l r = some (A.apply op a b) ∧ r.type = l.type ∧
      (A.apply op a b).type = l.type := by
  cases a <;> cases b <;> cases op <;> exact ⟨_, _, _, rfl, rfl, rfl, rfl, rfl⟩

end Arithmetic

/-! ## Operands -/

namespace Machine

variable {m₀ m m' : Machine ι ρ} {op : Operand} {r : Register} {d : Datum ι ρ} {type : DataType}

/-- The value an operand stands for while the machine is in a state. -/
inductive Denotes (A : Arithmetic ι ρ) (m : Machine ι ρ) : Operand → Datum ι ρ → Prop
  | literal {l : Literal} {d : Datum ι ρ} : A.constant? d.irType l.text = some d →
      l.type = d.type → Denotes A m (.literal l) d
  | global {c : Cell} {d : Datum ι ρ} : m.cells c.symbol = some d → c.type.storage = d.type →
      c.kind = .variable → Denotes A m (.global c) d
  | register {r : Register} {d : Datum ι ρ} : m.frame r.slot = some (.slot d.irType (some d)) →
      r.type = d.type → Denotes A m (.register r) d

theorem Denotes.storage_type (h : Denotes A m op d) : op.type.storage = d.type := by
  cases h with
  | literal _ htype => rw [Operand.type, htype, Datum.storage_type]
  | global _ htype _ => exact htype
  | register _ htype => rw [Operand.type, htype, Datum.storage_type]

theorem Denotes.type_eq (h : Denotes A m (.register r) d) : r.type = d.type := by
  cases h with
  | register _ htype => exact htype

theorem Denotes.irType_type (h : Denotes A m op d) : op.type.irType = d.irType := by
  rw [← DataType.irType_storage, h.storage_type, Datum.irType_type]

theorem Denotes.kind_ne_array (h : Denotes A m op d) : op.kind ≠ .array := by
  cases h with
  | global _ _ hkind => simp [Operand.kind, hkind]
  | _ => simp [Operand.kind]

theorem Denotes.isLowered_type (h : Denotes A m op d) : op.type.isLowered = true := by
  rw [← DataType.isLowered_storage, h.storage_type]
  cases d <;> rfl

theorem Denotes.mono (h : Denotes A m op d) (he : m.Extends m') : Denotes A m' op d := by
  cases h with
  | literal htext htype => exact .literal htext htype
  | global hcell htype hkind => exact .global (he.cells ▸ hcell) htype hkind
  | register hslot htype => exact .register (he.frame _ _ hslot) htype

theorem Denotes.setCell {cell : GlobalName} {d' : Datum ι ρ} (h : Denotes A m op d)
    (hcell : m.cells cell = none) : Denotes A (m.setCell cell d') op d := by
  cases h with
  | literal htext htype => exact .literal htext htype
  | @global c _ hsymbol htype hkind =>
    refine .global ?_ htype hkind
    have hne : c.symbol ≠ cell := by
      rintro rfl
      rw [hcell] at hsymbol
      cases hsymbol
    rw [cells_setCell_of_ne hne]
    exact hsymbol
  | register hslot htype => exact .register hslot htype

/-- A slot that was allocated behind `m₀` and holds nothing yet. -/
structure Allocated (m₀ m : Machine ι ρ) (r : Register) : Prop where
  unused : m₀.frame r.slot = none
  extends_start : m₀.Extends m
  slot : m.frame r.slot = some (.slot r.type.irType none)

theorem Allocated.mono (h : Allocated m₀ m r) (he : m.Extends m') : Allocated m₀ m' r :=
  ⟨h.unused, h.extends_start.trans he, he.frame _ _ h.slot⟩

theorem cells_setCell_later {x : String} {v : Int}
    (h : ∀ w, v < w → m.cells (.cell "" x w) = none) :
    ∀ w, v < w → (m.setCell (.cell "" x v) d).cells (.cell "" x w) = none := by
  intro w hw
  have hne : GlobalName.cell "" x w ≠ .cell "" x v := by
    intro heq
    have hwv : w = v := (GlobalName.cell.inj heq).2.2
    exact absurd hw (hwv ▸ Int.lt_irrefl _)
  rw [cells_setCell_of_ne hne]
  exact h w hw

/-- The variable `x` is bound to a cell that holds a value, and has no later versions. -/
structure Bound (m : Machine ι ρ) (x : String) (g : Global) (d : Datum ι ρ) : Prop where
  name : g.name = x
  inst : g.inst = ""
  kind : g.kind = .variable
  index : g.index = none
  cell : m.cells (.cell "" x g.version) = some d
  type : g.type.storage = d.type
  later : ∀ v, g.version < v → m.cells (.cell "" x v) = none

theorem Bound.symbol_withVersion {x : String} {g : Global} (h : Bound m x g d) (v : Int)
    (type : DataType) : (g.withVersion v type).symbol = .cell "" x v := by
  have hkind : (g.withVersion v type).kind = .variable := h.kind
  rw [Cell.symbol, if_pos hkind, ← h.inst, ← h.name]
  rfl

theorem Bound.symbol {x : String} {g : Global} (h : Bound m x g d) :
    g.symbol = .cell "" x g.version :=
  h.symbol_withVersion g.version g.type

theorem Bound.denotes {x : String} {g : Global} (h : Bound m x g d) :
    Denotes A m g.toOperand d := by
  rw [Global.toOperand, h.index]
  exact .global (h.symbol ▸ h.cell) h.type h.kind

theorem Bound.congr {x : String} {g : Global} (h : Bound m x g d)
    (hcells : ∀ v, m'.cells (.cell "" x v) = m.cells (.cell "" x v)) : Bound m' x g d :=
  ⟨h.name, h.inst, h.kind, h.index, (hcells _).trans h.cell, h.type,
    fun v hv => (hcells v).trans (h.later v hv)⟩

/-- A value is stored in the current version or in a later one. -/
theorem Bound.setCell {x : String} {g : Global} {v : Int} {d' : Datum ι ρ} (h : Bound m x g d)
    (hv : g.version ≤ v) (htype : type.storage = d'.type) :
    Bound (m.setCell (.cell "" x v) d') x (g.withVersion v type) d' := by
  refine ⟨h.name, h.inst, h.kind, h.index, cells_setCell_self .., htype, ?_⟩
  exact cells_setCell_later fun w hw => h.later w (Int.lt_of_le_of_lt hv hw)

/-- Only the cells of the variable `x` may have changed. -/
structure Touches (x : String) (m m' : Machine ι ρ) : Prop where
  cells : ∀ y v, y ≠ x → m'.cells (.cell "" y v) = m.cells (.cell "" y v)
  printed : m'.printed = m.printed

theorem Touches.trans {x : String} {m'' : Machine ι ρ} (h : Touches x m m')
    (h' : Touches x m' m'') : Touches x m m'' :=
  ⟨fun y v hy => (h'.cells y v hy).trans (h.cells y v hy), h'.printed.trans h.printed⟩

theorem Extends.touches (h : m.Extends m') (x : String) : Touches x m m' :=
  ⟨fun _ _ _ => by rw [h.cells], h.printed⟩

theorem touches_setCell (m : Machine ι ρ) (x : String) (v : Int) (d : Datum ι ρ) :
    Touches x m (m.setCell (.cell "" x v) d) := by
  refine ⟨fun y w hy => cells_setCell_of_ne ?_, rfl⟩
  intro h
  exact hy (GlobalName.cell.inj h).2.1

end Machine

/-! ## Snapshots -/

/-- The declaration of a cell, which starts out as zero. -/
def cellLine (cell : GlobalName × DataType) : Line :=
  .cell cell.1 cell.2.irType cell.2.zero

/-- A point of the translation of a straight-line program: the cells declared so far, the code of
the entry point and its numbering, and the machine this code leads to. -/
structure Snapshot (A : Arithmetic ι ρ) (symbols : RuntimeSymbols) where
  cells : List (GlobalName × DataType)
  code : List Instr
  next : Int
  machine : Machine ι ρ
  steps : (Machine.start A (cells.map cellLine)).steps? A (.external symbols.printf) code =
    some machine
  fresh : ∀ n, next ≤ n → machine.frame (.number n) = none

namespace Snapshot

def emitter (s : Snapshot A symbols) : Emitter where
  symbols
  output := ⟨symbols.prologue, s.cells.map cellLine, [.defineEntry], s.code.map .instr, [],
    .direct .entryBody⟩
  entry := { target := .entryBody, nextNumber := s.next, slots := ⟨.entryBody, 0⟩ }

def start (A : Arithmetic ι ρ) (symbols : RuntimeSymbols) : Snapshot A symbols where
  cells := []
  code := []
  next := 1
  machine := Machine.start A []
  steps := rfl
  fresh _ _ := rfl

def append (s : Snapshot A symbols) {i : Instr} {m : Machine ι ρ} (next : Int)
    (hstep : s.machine.step? A (.external symbols.printf) i = some m)
    (hfresh : ∀ n, next ≤ n → m.frame (.number n) = none) : Snapshot A symbols where
  cells := s.cells
  code := s.code ++ [i]
  next := next
  machine := m
  steps := by
    rw [Machine.steps?_append, s.steps, Option.bind_some]
    exact Option.bind_eq_some_iff.mpr ⟨m, hstep, rfl⟩
  fresh := hfresh

def declare (s : Snapshot A symbols) {name : GlobalName} {type : DataType} {d : Datum ι ρ}
    (hname : s.machine.cells name = none) (hzero : A.constant? type.irType type.zero = some d) :
    Snapshot A symbols where
  cells := s.cells ++ [(name, type)]
  code := s.code
  next := s.next
  machine := s.machine.setCell name d
  steps := by
    obtain ⟨hstart, hsteps⟩ := Machine.steps?_setCell (d := d) s.steps hname
    rw [List.map_append, List.map_singleton, cellLine, Machine.start_cell hstart hzero]
    exact hsteps
  fresh := s.fresh

def Leads (s : Snapshot A symbols) (x : Action Emitter α) (Q : α → Snapshot A symbols → Prop) :
    Prop :=
  Yields x s.emitter fun a e => ∃ s' : Snapshot A symbols, e = s'.emitter ∧ Q a s'

section Rules

variable {s : Snapshot A symbols} {x : Action Emitter α} {f : α → Action Emitter β}
variable {P : α → Snapshot A symbols → Prop} {Q : β → Snapshot A symbols → Prop}

theorem Leads.bind (hx : s.Leads x P) (hf : ∀ a s', P a s' → s'.Leads (f a) Q) :
    s.Leads (x >>= f) Q := by
  refine yields_bind.mpr (hx.mono ?_)
  rintro a _ ⟨s', rfl, hp⟩
  exact hf a s' hp

theorem Leads.mono {Q : α → Snapshot A symbols → Prop} (hx : s.Leads x P)
    (hq : ∀ a s', P a s' → Q a s') : s.Leads x Q := by
  refine Yields.mono hx ?_
  rintro a _ ⟨s', rfl, hp⟩
  exact ⟨s', rfl, hq a s' hp⟩

theorem Leads.pure {a : α} (h : P a s) : s.Leads (Pure.pure a) P :=
  yields_pure.mpr ⟨s, rfl, h⟩

end Rules

section Emission

variable {s : Snapshot A symbols} {m : Machine ι ρ} {i : Instr}

theorem emit_append {next : Int} (hstep : s.machine.step? A (.external symbols.printf) i = some m)
    (hfresh : ∀ n, next ≤ n → m.frame (.number n) = none) :
    Emitter.emit i { s.emitter with entry := { s.emitter.entry with nextNumber := next } } =
      .ok () (s.append next hstep hfresh).emitter := by
  simp only [emitter, append, List.map_append]
  rfl

theorem leads_emit (hstep : s.machine.step? A (.external symbols.printf) i = some m)
    (hfresh : ∀ n, s.next ≤ n → m.frame (.number n) = none) :
    s.Leads (Emitter.emit i) fun _ s' => s'.machine = m :=
  (yields_of_eq (emit_append hstep hfresh)).mpr ⟨_, rfl, rfl⟩

theorem leads_numbered {f : Int → Instr} {c : Content ι ρ} {x : Int → Action Emitter α}
    {Q : α → Snapshot A symbols → Prop}
    (hstep : s.machine.step? A (.external symbols.printf) (f s.next) =
      some (s.machine.define (.number s.next) c))
    (hx : ∀ s' : Snapshot A symbols, s'.machine = s.machine.define (.number s.next) c →
      s'.Leads (x s.next) Q) :
    s.Leads (Emitter.fresh >>= fun n => Emitter.emit (f n) >>= fun _ => x n) Q := by
  have hfresh : ∀ n, s.next + 1 ≤ n →
      (s.machine.define (.number s.next) c).frame (.number n) = none := by
    intro n hn
    have hne : LocalName.number n ≠ .number s.next := by
      intro h
      have := LocalName.number.inj h
      omega
    rw [Machine.frame_define_of_ne hne]
    exact s.fresh n (by omega)
  have hfirst : Emitter.fresh s.emitter = .ok s.next
      { s.emitter with entry := { s.emitter.entry with nextNumber := s.next + 1 } } := rfl
  refine yields_bind.mpr ((yields_of_eq hfirst).mpr (yields_bind.mpr ?_))
  exact (yields_of_eq (emit_append hstep hfresh)).mpr (hx _ rfl)

theorem leads_result {f : Int → Instr} {d : Datum ι ρ} {x : Int → Action Emitter α}
    {Q : α → Snapshot A symbols → Prop}
    (hstep : s.machine.step? A (.external symbols.printf) (f s.next) =
      some (s.machine.define (.number s.next) (.value d)))
    (hx : ∀ s' : Snapshot A symbols, s.machine.Extends s'.machine →
      s'.machine.operand? A d.irType (.number s.next) = some d → s'.Leads (x s.next) Q) :
    s.Leads (Emitter.fresh >>= fun n => Emitter.emit (f n) >>= fun _ => x n) Q := by
  refine leads_numbered hstep fun s' hs' => hx s' ?_ ?_
  · rw [hs']
    exact (Machine.Extends.refl _).define (s.fresh s.next (Int.le_refl _)) _
  · rw [hs']
    exact Machine.operand?_number.mpr ⟨Machine.frame_define_self .., rfl⟩

end Emission

/-! ## Values -/

section Values

variable {s : Snapshot A symbols} {m₀ : Machine ι ρ} {type : DataType} {op : Operand}
variable {r : Register} {d : Datum ι ρ}

/-- An operand that denotes a value passes the check that code can be generated for it. -/
theorem leads_checkLowered {x : Action Emitter α} {Q : α → Snapshot A symbols → Prop}
    (h : s.machine.Denotes A op d) (hx : s.Leads x Q) :
    s.Leads (Emitter.checkLowered op >>= fun _ => x) Q := by
  refine yields_bind.mpr (yields_bind.mpr (yields_require.mpr ⟨h.isLowered_type, ?_⟩))
  exact yields_require.mpr ⟨h.kind_ne_array, hx⟩

theorem leads_allocate (type : DataType) :
    s.Leads (Emitter.allocate type) fun r s' =>
      s.machine.Allocated s'.machine r ∧ r.type = type.storage := by
  refine leads_numbered rfl fun s' hs' => .pure ⟨?_, rfl⟩
  have hunused : s.machine.frame (.number s.next) = none := s.fresh s.next (Int.le_refl _)
  rw [hs']
  refine ⟨hunused, (Machine.Extends.refl _).define hunused _, ?_⟩
  rw [DataType.irType_storage]
  exact Machine.frame_define_self ..

theorem leads_loadFrom {source : Pointer} (h : s.machine.load? type.irType source = some d) :
    s.Leads (Emitter.loadFrom type source) fun v s' =>
      s.machine.Extends s'.machine ∧ s'.machine.operand? A d.irType v = some d :=
  leads_result (Machine.step?_load h) fun _ hext hv => .pure ⟨hext, hv⟩

theorem leads_load (h : s.machine.Denotes A (.register r) d) :
    s.Leads (Emitter.load r) fun v s' =>
      s.machine.Extends s'.machine ∧ s'.machine.operand? A d.irType v = some d := by
  cases h with
  | register hslot htype =>
    have hload : s.machine.load? r.type.irType (.frame r.slot) = some d := by
      rw [htype]
      exact Machine.load?_frame.mpr ⟨hslot, rfl⟩
    exact leads_loadFrom hload

theorem leads_value (h : s.machine.Denotes A op d) :
    s.Leads (Emitter.value op) fun v s' =>
      s.machine.Extends s'.machine ∧ s'.machine.operand? A d.irType v = some d := by
  cases h with
  | literal htext htype =>
    exact leads_checkLowered (.literal htext htype) (.pure ⟨.refl _, htext⟩)
  | register hslot htype =>
    exact leads_checkLowered (.register hslot htype) (leads_load (.register hslot htype))
  | @global c _ hcell htype hkind =>
    refine leads_checkLowered (.global hcell htype hkind) ?_
    rw [if_neg (by simp [hkind])]
    have hirType : c.type.irType = d.irType := by
      rw [← DataType.irType_storage, htype, Datum.irType_type]
    exact leads_loadFrom (Machine.load?_global.mpr ⟨hcell, hirType.symm⟩)

/-- Fills a slot that is new since `m₀`. -/
theorem leads_store {v : Value} (hslot : m₀.Allocated s.machine r) (hr : r.type = d.type)
    (htype : type.irType = d.irType) (hv : s.machine.operand? A d.irType v = some d) :
    s.Leads (Emitter.store type v (.frame r.slot)) fun _ s' =>
      m₀.Extends s'.machine ∧ s'.machine.Denotes A (.register r) d := by
  have hempty := hslot.slot
  rw [hr, Datum.irType_type] at hempty
  have hstore : s.machine.store? d.irType d (.frame r.slot) =
      some (s.machine.define r.slot (.slot d.irType (some d))) :=
    Machine.store?_frame.mpr ⟨⟨none, hempty⟩, rfl⟩
  rw [Emitter.store, htype]
  refine (leads_emit (Machine.step?_store hv hstore) fun n hn => ?_).mono ?_
  · have hne : LocalName.number n ≠ r.slot := by
      intro heq
      rw [← heq, s.fresh n hn] at hempty
      cases hempty
    rw [Machine.frame_define_of_ne hne]
    exact s.fresh n hn
  · rintro _ s' hs'
    rw [hs']
    refine ⟨hslot.extends_start.define hslot.unused _, ?_⟩
    exact .register (Machine.frame_define_self ..) hr

theorem leads_materialize (h : s.machine.Denotes A op d) :
    s.Leads (Emitter.materialize op) fun r s' =>
      s.machine.Extends s'.machine ∧ s'.machine.Denotes A (.register r) d := by
  unfold Emitter.materialize
  split
  · exact .pure ⟨.refl _, h⟩
  · refine leads_checkLowered h ?_
    refine (leads_allocate _).bind fun slot s₁ ⟨hslot, hr⟩ => ?_
    rw [DataType.storage_storage, h.storage_type] at hr
    refine (leads_value (h.mono hslot.extends_start)).bind fun v s₂ ⟨hext, hv⟩ => ?_
    refine (leads_store (hslot.mono hext) hr (by rw [hr]; rfl) hv).bind fun _ s₃ hs₃ => ?_
    exact .pure hs₃

theorem leads_cast (h : s.machine.Denotes A (.register r) d) :
    s.Leads (Emitter.cast r .real) fun r' s' => s.machine.Extends s'.machine ∧
      s'.machine.Denotes A (.register r') (.real (A.asReal d)) := by
  have hr : r.type.storage = d.type := h.storage_type
  unfold Emitter.cast
  rw [hr]
  cases d with
  | real v => exact .pure ⟨.refl _, h⟩
  | int v =>
    refine (leads_allocate _).bind fun slot s₁ ⟨hslot, hslotType⟩ => ?_
    refine (leads_load (h.mono hslot.extends_start)).bind fun value s₂ ⟨hext, hvalue⟩ => ?_
    refine leads_result (Machine.step?_convert hvalue rfl) fun s₃ hext' hresult => ?_
    have hslot' := hslot.mono (hext.trans hext')
    refine (leads_store (d := .real (A.toReal v)) hslot' hslotType rfl hresult).bind ?_
    exact fun _ s₄ hs₄ => .pure hs₄

theorem leads_widen {left right : Operand} {a b : Datum ι ρ} (ha : s.machine.Denotes A left a)
    (hb : s.machine.Denotes A right b) (force : Bool) :
    s.Leads (Emitter.widen left right force) fun p s' => s.machine.Extends s'.machine ∧
      s'.machine.Denotes A (.register p.1) (A.widened force a b).1 ∧
      s'.machine.Denotes A (.register p.2) (A.widened force a b).2 := by
  refine (leads_materialize ha).bind fun l s₁ ⟨hext₁, hl⟩ => ?_
  refine (leads_materialize (hb.mono hext₁)).bind fun r s₂ ⟨hext₂, hr⟩ => ?_
  have hl := hl.mono hext₂
  have hext := hext₁.trans hext₂
  unfold Arithmetic.widened
  rw [hl.type_eq, hr.type_eq]
  split
  · refine (leads_cast hl).bind fun l' s₃ ⟨hext₃, hl'⟩ => ?_
    refine (leads_cast (hr.mono hext₃)).bind fun r' s₄ ⟨hext₄, hr'⟩ => ?_
    exact .pure ⟨hext.trans (hext₃.trans hext₄), hl'.mono hext₄, hr'⟩
  · exact .pure ⟨hext, hl, hr⟩

theorem leads_arithmetic {left right : Operand} {a b : Datum ι ρ}
    (ha : s.machine.Denotes A left a) (hb : s.machine.Denotes A right b) (op : ArithOp) :
    s.Leads (Emitter.arithmetic left op right) fun r s' => s.machine.Extends s'.machine ∧
      s'.machine.Denotes A (.register r) (A.apply op a b) := by
  obtain ⟨x, y, opcode, hwidened, hopcode, hresult, hy, htype⟩ := A.exists_opcode op a b
  refine (leads_widen ha hb (op = .div)).bind fun (l, r) s₁ ⟨hext₁, hl, hr⟩ => ?_
  rw [hwidened] at hl hr
  dsimp only
  rw [hl.type_eq, hopcode]
  dsimp only
  -- The slot of the result comes first; it is filled once the operands have been loaded.
  refine (leads_allocate _).bind fun slot s₂ ⟨hslot, hslotType⟩ => ?_
  refine (leads_load (hl.mono hslot.extends_start)).bind fun lv s₃ ⟨hext₃, hlv⟩ => ?_
  have hr' := hr.mono (hslot.extends_start.trans hext₃)
  refine (leads_load hr').bind fun rv s₄ ⟨hext₄, hrv⟩ => ?_
  rw [← Datum.irType_type y, hy] at hrv
  refine leads_result (Machine.step?_binary (hext₄.operand? hlv) hrv hresult) ?_
  intro s₅ hext₅ hv
  have hslot' := hslot.mono (hext₃.trans (hext₄.trans hext₅))
  rw [Datum.storage_type, ← htype] at hslotType
  refine (leads_store hslot' hslotType (by rw [← htype]; rfl) hv).bind fun _ s₆ ⟨hext₆, hd⟩ => ?_
  exact .pure ⟨hext₁.trans hext₆, hd⟩

end Values

/-! ## Variables -/

section Variables

variable {s : Snapshot A symbols} {op : Operand} {d d₀ : Datum ι ρ} {x : String} {g : Global}

theorem leads_print (h : s.machine.Denotes A op d) :
    s.Leads (Emitter.print op) fun _ s' => s'.machine.cells = s.machine.cells ∧
      s'.machine.printed = s.machine.printed ++ [(d.format symbols, d)] := by
  refine (leads_materialize h).bind fun r s₁ ⟨hext₁, hr⟩ => ?_
  refine (leads_load hr).bind fun v s₂ ⟨hext₂, hv⟩ => ?_
  have hformat : symbols.printFormat r.type = d.format symbols := by
    rw [hr.type_eq]
    cases d <;> rfl
  have hstep : s₂.machine.step? A (.external symbols.printf) (.print s₂.next
      (.external symbols.printf) (symbols.printFormat r.type) r.type.irType v) =
      some (s₂.machine.print (d.format symbols) d) := by
    rw [hformat, hr.type_eq]
    exact Machine.step?_print hv
  -- The call takes a number, but the machine keeps no result for it.
  refine yields_bind.mpr ⟨_, _, rfl, yields_bind.mpr (yields_get.mpr ?_)⟩
  refine (yields_of_eq (emit_append hstep fun n hn => s₂.fresh n ?_)).mpr ⟨_, rfl, ?_⟩
  · exact Int.le_of_lt hn
  · have hext := hext₁.trans hext₂
    refine ⟨hext.cells, ?_⟩
    change s₂.machine.printed ++ _ = _
    rw [hext.printed]

theorem exists_zero (A : Arithmetic ι ρ) {type : DataType} (h : type.isLowered = true) :
    ∃ d, A.constant? type.storage.irType type.storage.zero = some d ∧ d.type = type.storage ∧
      (type.storage = .int → d = A.zero) := by
  cases type with
  | unresolved => exact ⟨_, rfl, rfl, fun _ => rfl⟩
  | int => exact ⟨_, rfl, rfl, fun _ => rfl⟩
  | real => exact ⟨_, rfl, rfl, by simp [DataType.storage]⟩
  | char => cases h

theorem leads_declareStorage (zeroed : Bool) (hkind : g.kind = .variable)
    (htype : g.type.isLowered = true) (hname : s.machine.cells g.symbol = none) :
    s.Leads (Emitter.declareStorage (.global g) zeroed) fun _ s' => ∃ d,
      s'.machine = s.machine.setCell g.symbol d ∧ d.type = g.type.storage ∧
      (g.type.storage = .int → d = A.zero) := by
  obtain ⟨d, hconstant, hd⟩ := exists_zero A htype
  refine yields_bind.mpr (yields_require.mpr ⟨htype, ?_⟩)
  dsimp only
  rw [if_pos hkind]
  refine yields_modify.mpr ⟨s.declare hname hconstant, ?_, d, rfl, hd⟩
  simp only [emitter, declare, List.map_append]
  rfl

/-- The binding that is to hold a value has a cell of its type, and the value can still be read. -/
theorem leads_rebind (hg : s.machine.Bound x g d₀) (h : s.machine.Denotes A op d) :
    s.Leads (Emitter.rebind (.global g) op.type) fun b s' => ∃ g' d', b = .global g' ∧
      s'.machine.Bound x g' d' ∧ d'.type = d.type ∧ s'.machine.Denotes A op d ∧
      s.machine.Touches x s'.machine := by
  have hop := h.storage_type
  unfold Emitter.rebind
  split
  · next hsame =>
    have hd₀ : d₀.type = d.type := by
      rw [← hg.type, ← hop]
      exact hsame
    split
    · exact .pure ⟨g, d₀, rfl, hg, hd₀, h, (Machine.Extends.refl _).touches x⟩
    · -- A variable without a type takes that of its first value, in the cell it has.
      refine .pure ⟨g.withVersion g.version op.type, d₀, rfl, ?_, hd₀, h,
        (Machine.Extends.refl _).touches x⟩
      exact ⟨hg.name, hg.inst, hg.kind, hg.index, hg.cell, hop.trans hd₀.symm, hg.later⟩
  · -- The version behind the current one has no cell yet.
    have hnext := hg.later (g.version + 1) (Int.lt_succ _)
    have hsymbol := hg.symbol_withVersion (g.version + 1) op.type
    refine (leads_declareStorage false (g := g.withVersion (g.version + 1) op.type) hg.kind
      h.isLowered_type (hsymbol ▸ hnext)).bind ?_
    rintro _ s₁ ⟨d', hs₁, hd', -⟩
    refine .pure ⟨_, d', rfl, ?_⟩
    rw [hs₁, hsymbol]
    refine ⟨hg.setCell (Int.le_of_lt (Int.lt_succ _)) hd'.symm, hd'.trans hop, ?_⟩
    exact ⟨h.setCell hnext, Machine.touches_setCell ..⟩

theorem leads_assign (hg : s.machine.Bound x g d₀) (h : s.machine.Denotes A op d) :
    s.Leads (Emitter.assign (.global g) op) fun b s' => ∃ g', b = .global g' ∧
      s'.machine.Bound x g' d ∧ s.machine.Touches x s'.machine := by
  refine leads_checkLowered h ?_
  dsimp only
  rw [hg.kind]
  dsimp only
  refine (leads_rebind hg h).bind ?_
  rintro _ s₁ ⟨g', d', rfl, hg', hd', h', htouches⟩
  refine (leads_value h').bind fun v s₂ ⟨hext, hv⟩ => ?_
  have hcell : s₂.machine.cells (.cell "" x g'.version) = some d' := by
    rw [hext.cells, hg'.cell]
  have hstore : s₂.machine.store? d.irType d (.global g'.symbol) =
      some (s₂.machine.setCell (.cell "" x g'.version) d) := by
    rw [hg'.symbol]
    exact Machine.store?_global.mpr ⟨⟨d', hcell, congrArg DataType.irType hd'⟩, rfl⟩
  rw [Emitter.store, h.irType_type]
  refine (leads_emit (Machine.step?_store hv hstore) s₂.fresh).bind fun _ s₃ hs₃ => ?_
  refine .pure ⟨g', rfl, ?_⟩
  rw [hs₃]
  refine ⟨?_, htouches.trans ((hext.touches x).trans (Machine.touches_setCell ..))⟩
  have hg₂ : s₂.machine.Bound x g' d' := hg'.congr fun v => by rw [hext.cells]
  have hg₃ : Machine.Bound _ x (g'.withVersion g'.version g'.type) d :=
    hg₂.setCell (Int.le_refl _) (hg'.type.trans hd')
  exact hg₃

end Variables

end Snapshot

end MkCompiler
