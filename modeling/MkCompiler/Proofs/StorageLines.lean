import Mathlib.Data.List.DropRight
import MkCompiler.Proofs.Bodies
import MkCompiler.Proofs.Linkage
import MkCompiler.Proofs.TypeHistories

/-!
# Storage in the text

The cells of a variable are found in the text that has been written so far: those of the program and
of instances in the header, those of a function at the top of its body, in front of the mark for
slots. Most operations of the emitter leave them alone. Assignments and scans allocate the cell that
the variable moves on to, if any, and write one store or scan, to the cell the variable is in then.
-/

namespace MkCompiler

open MkCompiler.Action

/-! ## Lines -/

def Place.ofOwner (owner name : String) : Place :=
  if owner = "" then .program name else .field owner name

def Line.cellOf? (x : Place) : Line → Option (Int × IrType)
  | .cell (.cell owner name version) type _ =>
    if x = .ofOwner owner name then some (version, type) else none
  | .instr (.alloca (.slot name version) type) =>
    if x = .slot name then some (version, type) else none
  | _ => none

def Line.target? : Line → Option (Pointer × IrType)
  | .instr (.store type _ p) => some (p, type)
  | .instr (.scan _ _ _ type p) => some (p, type)
  | _ => none

/-- The code of a body allocates no cells of variables. -/
theorem Counter.Reads.cellOf?_eq_none {k k' : Counter} {code : List Line} (h : k.Reads code k')
    (x : Place) : ∀ line ∈ code, line.cellOf? x = none := by
  have hstep {k k' : Counter} {line : Line} (hs : k.Step line k') : line.cellOf? x = none := by
    cases hs with
    | label _ => rfl
    | value hd _ | effect hd _ | terminator hd =>
      unfold Line.cellOf?
      split
      · next heq => cases heq
      · next heq =>
        cases heq
        cases hd
      · rfl
  induction h with
  | nil => simp
  | cons hs _ ih =>
    intro line hline
    rcases List.mem_cons.mp hline with rfl | hline
    · exact hstep hs
    · exact ih line hline

/-- The code ends with storing a value in a variable, and stores values nowhere else. -/
structure Binding.Receives (b : Binding) (code : List Line) : Prop where
  last : ∃ front line, code = front ++ [line] ∧ line.target? = some (b.pointer, b.type.irType)
  only : ∀ target ∈ code.filterMap Line.target?, target = (b.pointer, b.type.irType)

theorem Binding.receives_concat {b : Binding} {front : List Line} {line : Line}
    (hfront : ∀ line ∈ front, line.target? = none)
    (hline : line.target? = some (b.pointer, b.type.irType)) : b.Receives (front ++ [line]) := by
  refine ⟨⟨front, line, rfl, hline⟩, ?_⟩
  intro target htarget
  have hnone : front.filterMap Line.target? = [] := List.filterMap_eq_nil_iff.mpr hfront
  simpa [hnone, hline] using htarget

/-- Values may be stored in the variable before. -/
theorem Binding.Receives.prepend {b : Binding} {front code : List Line} (h : b.Receives code)
    (hfront : ∀ target ∈ front.filterMap Line.target?, target = (b.pointer, b.type.irType)) :
    b.Receives (front ++ code) := by
  obtain ⟨front', line, rfl, hline⟩ := h.last
  refine ⟨⟨front ++ front', line, (List.append_assoc _ _ _).symm, hline⟩, ?_⟩
  intro target htarget
  rw [List.filterMap_append, List.mem_append] at htarget
  exact htarget.elim (hfront target) (h.only target)

/-- An operand is read without storing anything. -/
theorem Operand.ReadBy.target?_eq_none {op : Operand} {code : List Line} {v : Value}
    (h : op.ReadBy code v) : ∀ line ∈ code, line.target? = none := by
  induction h with
  | literal l => simp
  | register r n | slot l n | global n _ | whole n _ => simp [Line.target?]
  | element wide a n _ _ ih => simpa [addressing, or_imp, forall_and, Line.target?] using ih

/-- New storage is all that is set to zero. -/
theorem Binding.target_of_zeroing (b : Binding) :
    ∀ target ∈ (b.zeroing true).filterMap Line.target?, target = (b.pointer, b.type.irType) := by
  cases b <;> simp [zeroing, Line.target?, pointer, type]

/-! ## Views of the text -/

namespace Emitter

/-- The top of the open function: what stands between its opening line and the mark for slots. -/
def frame (e : Emitter) : List Line :=
  match e.function with
  | none => []
  | some f => (e.output.functions.take f.context.slots.position.toNat).rtakeWhile fun line =>
      !line.opens

/-- The cells that have been allocated for the variable at a place, from top to bottom. -/
def cells (e : Emitter) (x : Place) : List (Int × IrType) :=
  (if x.isSlot then e.frame else e.output.header).filterMap (Line.cellOf? x)

end Emitter

namespace Layout

variable (l : Layout)

def frame : List Line :=
  if l.suspended.isSome then l.active.slots.map .instr else []

def cells (x : Place) : List (Int × IrType) :=
  (if x.isSlot then l.frame else l.header).filterMap (Line.cellOf? x)

end Layout

def Storage.cells (s : Storage) (x : Place) : List (Int × IrType) :=
  (if x.isSlot then s.allocas.map .instr else s.header).filterMap (Line.cellOf? x)

theorem Layout.cells_grow {l : Layout} {s : Storage}
    (h : s.slots ≠ [] → l.suspended.isSome = true) (code : List Line) (x : Place) :
    (l.grow s.header s.allocas code).cells x = l.cells x ++ s.cells x := by
  unfold Layout.cells Storage.cells Layout.frame
  cases x.isSlot with
  | false => exact List.filterMap_append
  | true =>
    by_cases hslots : s.slots = []
    · simp [Storage.allocas, hslots, Layout.grow]
    · simp [h hslots, Layout.grow]

theorem Layout.cells_enter (l : Layout) (opening : Line) (slots : List Instr) (x : Place) :
    (l.enter opening slots).cells x =
      (if x.isSlot then slots.map .instr else l.header).filterMap (Line.cellOf? x) := by
  simp [Layout.cells, Layout.frame, Layout.enter]

theorem Layout.cells_leave (l : Layout) (d : Draft) (x : Place) :
    (l.leave d).cells x = if x.isSlot then [] else l.cells x := by
  unfold Layout.cells Layout.frame
  cases x.isSlot <;> simp [Layout.leave]

namespace Emitter

variable {e e' : Emitter} {l : Layout}

theorem Lays.header_eq (h : e.Lays l) : e.output.header = l.header := by
  rw [h.output]
  rfl

theorem Lays.isSome_suspended (h : e.Lays l) : l.suspended.isSome = e.inFunction := by
  unfold inFunction
  cases hf : e.function with
  | none => rw [h.suspended_eq_none hf]; rfl
  | some f =>
    obtain ⟨d, hd, -⟩ := h.exists_suspended (by rw [hf]; rfl)
    rw [hd]
    rfl

theorem Lays.frame_eq (h : e.Lays l) : e.frame = l.frame := by
  unfold Emitter.frame Layout.frame
  rw [h.isSome_suspended, inFunction]
  cases hf : e.function with
  | none => rfl
  | some f =>
    obtain ⟨d, hd, -, hopens, -⟩ := h.exists_suspended (by rw [hf]; rfl)
    have hslots :
        f.context.slots = ⟨l.target, (l.before.length + l.active.slots.length : Nat)⟩ := by
      rw [← h.active.slots_eq, Emitter.active, hf]
    have hfunctions : e.output.functions =
        (l.closedLines ++ [l.active.opening] ++ l.active.slots.map .instr) ++ l.active.code := by
      rw [h.output]
      simp [Layout.assembly, hd, Layout.before, Draft.body]
    have hposition : f.context.slots.position.toNat =
        (l.closedLines ++ [l.active.opening] ++ l.active.slots.map Line.instr).length := by
      rw [hslots, Int.toNat_natCast]
      simp [Layout.before, hd]
      omega
    have hreverse : (l.closedLines ++ [l.active.opening] ++ l.active.slots.map Line.instr).reverse =
        (l.active.slots.map Line.instr).reverse ++ l.active.opening :: l.closedLines.reverse := by
      simp
    have hplain : ∀ line ∈ (l.active.slots.map Line.instr).reverse, (!line.opens) = true := by
      intro line hline
      obtain ⟨i, -, rfl⟩ := List.mem_map.mp (List.mem_reverse.mp hline)
      rfl
    dsimp only
    rw [hfunctions, hposition, List.take_left, List.rtakeWhile, hreverse,
      List.takeWhile_append_of_pos hplain, List.takeWhile_cons_of_neg (by simp [hopens]),
      List.append_nil, List.reverse_reverse]
    rfl

theorem Lays.cells_eq (h : e.Lays l) : e.cells = l.cells := by
  funext x
  rw [Emitter.cells, Layout.cells, h.frame_eq, h.header_eq]

theorem Lays.cells_grow {s : Storage} (h : e.Lays l)
    (hinside : s.slots ≠ [] → e.inFunction = true) (code : List Line) (x : Place) :
    (l.grow s.header s.allocas code).cells x = l.cells x ++ s.cells x :=
  l.cells_grow (fun hslots => h.isSome_suspended.trans (hinside hslots)) code x

theorem Adds.code_eq {s : Storage} {code : List Line} (h : Adds e e' s code) (hl : e.Lays l) :
    e'.code = e.code ++ code := by
  rw [(h.layout l hl).code_eq, hl.code_eq]
  rfl

/-! ## Operations that leave variables alone -/

def SameCells (e e' : Emitter) : Prop :=
  ∀ l, e.Lays l → ∃ l', e'.Lays l' ∧ ∀ x, x.IsPlain → l'.cells x = l.cells x

instance : IsPreorder Emitter SameCells where
  refl _ l hl := ⟨l, hl, fun _ _ => rfl⟩
  trans := by
    intro e₁ e₂ e₃ h h' l hl
    obtain ⟨l₂, hl₂, hcells₂⟩ := h l hl
    obtain ⟨l₃, hl₃, hcells₃⟩ := h' l₂ hl₂
    exact ⟨l₃, hl₃, fun x hx => (hcells₃ x hx).trans (hcells₂ x hx)⟩

theorem sameCells_code {code : List Line} (h : ∀ l, e.Lays l → e'.Lays (l.grow [] [] code)) :
    SameCells e e' := by
  intro l hl
  refine ⟨_, h l hl, fun x _ => ?_⟩
  have hcells := l.cells_grow (s := {}) (by simp) code x
  simpa [Storage.allocas, Storage.cells] using hcells

theorem Turns.sameCells {pending : List Nat} {openCompare : Option Nat} {labels : Nat}
    {code : List Line} (h : Turns e e' pending openCompare labels code) : SameCells e e' :=
  sameCells_code h.layout

theorem Extends.sameCells (h : Extends e e') : SameCells e e' := by
  obtain ⟨code, k, -, hk, rfl⟩ := h
  exact sameCells_code fun l hl => hl.write hk

theorem computes_sameCells : Computes fun {_} x => Moves SameCells x :=
  computes_moves Extends.sameCells

/-- The slot for the result of a method is no cell of a variable. -/
theorem sameCells_hoist (inst method : String) (type : DataType) :
    Moves SameCells (hoist (.slot (resultName inst method) 0) type) := by
  intro e
  refine (ensures_hoist _ _ type e).mono ?_
  rintro _ e' ⟨slots, o, -, hlays⟩ l hl
  refine ⟨_, hlays l hl, ?_⟩
  intro x hx
  unfold Layout.cells Layout.frame Layout.grow
  cases x with
  | slot name =>
    have hne : Place.slot name ≠ .slot (resultName inst method) := by
      rintro heq
      apply hx
      rw [Place.slot.inj heq]
      exact SymbolTable.dot_mem_resultName inst method
    cases l.suspended <;> simp [Place.isSlot, Line.cellOf?, hne]
  | _ => simp [Place.isSlot]

theorem sameCells_callMethod (inst : String) (sig : Signature) (args : List Operand) :
    Moves SameCells (callMethod inst sig args) := by
  refine computes_sameCells.callMethod (sameCells_hoist inst sig.name _) ?_ args
  intro name e
  exact ensures_modify.mpr fun l hl => ⟨l, hl.modifyActive rfl rfl rfl, fun _ _ => rfl⟩

theorem sameCells_declareArray (array : Global) (length : Int) (elements : List Operand) :
    Moves SameCells (declareArray array length elements) := by
  refine computes_sameCells.declareArray array length elements ?_ .reject
  intro c type length e
  refine ensures_modify.mpr fun l hl => ⟨_, hl.appendHeader (Line.isStorage_array c _ _), ?_⟩
  intro x _
  unfold Layout.cells Layout.frame Layout.grow
  cases x.isSlot <;> simp [Line.cellOf?]

theorem sameCells_openCondition : Moves SameCells openCondition :=
  fun e => (turns_openCondition e).mono fun _ _ h => h.2.sameCells

/-- Control flow and returns write code only. -/
theorem Performs.sameCells {kind : CommandKind} (h : Performs kind e e')
    (hkind : kind ∈ [.beginCondition, .compare, .endIf, .endWhile, .ret]) : SameCells e e' := by
  have hend (kind : ControlKind) (hrun : endControl kind e = .ok () e') : SameCells e e' := by
    obtain ⟨id, pending, -, hturns⟩ := turns_endControl kind e () e' hrun
    exact hturns.sameCells
  cases kind with
  | beginCondition => exact sameCells_openCondition e () e' h
  | compare =>
    obtain ⟨left, op, right, hrun⟩ := h
    obtain ⟨e₁, id, n, code, hopen, -, -, hturns⟩ := turns_compare left op right e () e' hrun
    rcases hopen with rfl | hopen
    · exact hturns.sameCells
    · exact trans_of SameCells (sameCells_openCondition e () e₁ hopen) hturns.sameCells
  | endIf => exact hend .conditional h
  | endWhile => exact hend .loop h
  | ret =>
    obtain ⟨op, hrun⟩ := h
    obtain ⟨-, code, type, v, -, hturns⟩ := turns_ret op e () e' hrun
    exact hturns.sameCells
  | _ => simp at hkind

end Emitter

/-! ## Operations on variables -/

namespace Binding

variable {b : Binding}

theorem cells_storage (hkind : b.kind = .variable) (x : Place) :
    b.storage.cells x = if x = b.place then [(b.version, b.type.irType)] else [] := by
  cases b with
  | slot l =>
    cases x with
    | slot name =>
      by_cases h : name = l.name <;>
        simp [Storage.cells, storage, Place.isSlot, Storage.allocas, Line.cellOf?, Local.slot,
          place, version, type, h]
    | _ => simp [Storage.cells, storage, Place.isSlot, place]
  | global g =>
    have hvariable : g.kind = .variable := hkind
    have hplace : (Binding.global g).place = .ofOwner g.inst g.name := rfl
    by_cases h : x = .ofOwner g.inst g.name
    · have hslot : (Place.ofOwner g.inst g.name).isSlot = false := by
        unfold Place.ofOwner
        split <;> rfl
      simp [Storage.cells, storage, h, hslot, Line.cellOf?, Cell.symbol, hvariable, hplace, version,
        type]
    · cases x.isSlot <;>
        simp [Storage.cells, storage, h, Storage.allocas, Line.cellOf?, Cell.symbol, hvariable,
          hplace]

theorem cells_added (hkind : b.kind = .variable) (type : DataType) (x : Place) :
    (b.added type).cells x = if x = b.place then b.addedCells type else [] := by
  unfold added addedCells
  by_cases hsame : b.type.storage = type.storage
  · simp [hsame, Storage.cells, Storage.allocas]
  · rw [if_neg hsame, if_neg hsame, cells_storage ((b.kind_withVersion _ _).trans hkind),
      place_withVersion, version_withVersion, type_withVersion]

end Binding

namespace Emitter

variable {e e' : Emitter} {l : Layout}

theorem StoresCode.receives {left : Binding} {right : Operand} {code : List Line}
    (h : StoresCode right (left.rebound right.type).pointer code) :
    (left.rebound right.type).Receives code := by
  obtain ⟨front, v, hread, rfl⟩ := h
  refine Binding.receives_concat hread.target?_eq_none ?_
  rw [Line.target?, Binding.irType_rebound]

theorem ScansCode.receives {symbols : RuntimeSymbols} {target : Binding} {type : DataType}
    {code : List Line} (h : ScansCode symbols type (target.rebound type).pointer code) :
    (target.rebound type).Receives code := by
  obtain ⟨n, rfl⟩ := h
  refine Binding.receives_concat (List.forall_mem_nil _) ?_
  rw [Line.target?, Binding.irType_rebound]

end Emitter

end MkCompiler
