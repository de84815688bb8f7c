import Mathlib.Data.List.Forall2
import Mathlib.Data.List.TakeWhile
import MkCompiler.Proofs.Growth
import MkCompiler.Proofs.Mirrors
import MkCompiler.Proofs.Spelling

/-!
# Counterparts

Two runs that differ in the name of a new instance refer to the same things, up to that name. Names,
operands and lines of the one run have counterparts in the other one. The texts of two lines that
are counterparts come from one text with holes, which is filled with the one name and with the
other.
-/

namespace MkCompiler

/-! ## Texts with holes -/

inductive Piece where
  | text (s : String)
  | hole
  deriving DecidableEq, Repr

def Piece.fill (x : String) : Piece → String
  | text s => s
  | hole => x

def fill (x : String) (pieces : List Piece) : String :=
  String.join (pieces.map (Piece.fill x))

theorem fill_append (x : String) (a b : List Piece) : fill x (a ++ b) = fill x a ++ fill x b := by
  simp [fill, String.join_append]

/-! ## Names -/

/-- The part of a name in front of its first dot. -/
def stem (name : String) : String :=
  String.ofList (name.toList.takeWhile (· ≠ '.'))

theorem stem_of_isIdentifier {name : String} (h : IsIdentifier name) : stem name = name := by
  have htake : name.toList.takeWhile (· ≠ '.') = name.toList := by
    rw [List.takeWhile_eq_self_iff]
    intro c hc
    have hne : c ≠ '.' := fun heq => h.undotted (heq ▸ hc)
    simpa using hne
  rw [stem, htake, String.ofList_toList]

theorem takeWhile_append_dot (a b : List Char) :
    (a ++ '.' :: b).takeWhile (· ≠ '.') = a.takeWhile (· ≠ '.') := by
  induction a with
  | nil => rfl
  | cons c a ih =>
    rw [List.cons_append, List.takeWhile_cons, List.takeWhile_cons, ih]

theorem stem_eq_of_resultName_eq {o o' n n' : String}
    (h : Emitter.resultName o n = Emitter.resultName o' n') : stem o = stem o' := by
  have hlist := congrArg String.toList h
  simp only [Emitter.resultName, String.toList_append, List.append_assoc] at hlist
  have htake := congrArg (List.takeWhile (· ≠ '.')) (List.append_cancel_left hlist)
  change (o.toList ++ '.' :: n.toList).takeWhile (· ≠ '.') =
    (o'.toList ++ '.' :: n'.toList).takeWhile (· ≠ '.') at htake
  rw [takeWhile_append_dot, takeWhile_append_dot] at htake
  rw [stem, stem, htake]

/-- The names of a new instance in two runs. Up to its declaration nothing refers to it. -/
structure NamePair where
  fst : String
  snd : String
  declared : Prop
  fst_identifier : IsIdentifier fst
  snd_identifier : IsIdentifier snd

namespace NamePair

variable {p : NamePair} {x x' y y' s s' u u' : String}

/-- The new name in the one run and in the other one, or a name that has nothing to do with
them. -/
inductive Counterpart (p : NamePair) : String → String → Prop
  | renamed (h : p.declared) : Counterpart p p.fst p.snd
  | same {x : String} (hfst : stem x ≠ p.fst) (hsnd : stem x ≠ p.snd) : Counterpart p x x

def Fixes (p : NamePair) (x : String) : Prop :=
  p.declared → x ≠ p.fst ∧ x ≠ p.snd

/-- The same names once the instance is declared, or before. -/
def declare (p : NamePair) (declared : Prop) : NamePair :=
  { p with declared }

theorem stem_fst (p : NamePair) : stem p.fst = p.fst :=
  stem_of_isIdentifier p.fst_identifier

theorem stem_snd (p : NamePair) : stem p.snd = p.snd :=
  stem_of_isIdentifier p.snd_identifier

namespace Counterpart

theorem eq_iff (hx : p.Counterpart x x') (hy : p.Counterpart y y') : x = y ↔ x' = y' := by
  cases hx with
  | renamed _ =>
    cases hy with
    | renamed _ => simp
    | same hfst hsnd =>
      constructor
      · rintro rfl
        exact absurd p.stem_fst hfst
      · rintro rfl
        exact absurd p.stem_snd hsnd
  | same hfst hsnd =>
    cases hy with
    | renamed _ =>
      constructor
      · rintro rfl
        exact absurd p.stem_fst hfst
      · rintro rfl
        exact absurd p.stem_snd hsnd
    | same _ _ => rfl

theorem const_eq_iff (hx : p.Counterpart x x') (hy : p.Fixes y) :
    y = x ↔ y = x' := by
  cases hx with
  | renamed h => simp [hy h]
  | same _ _ => rfl

theorem mono (h : p.Counterpart x x') {d : Prop} (hd : p.declared → d) :
    (p.declare d).Counterpart x x' := by
  cases h with
  | renamed h => exact .renamed (p := p.declare d) (hd h)
  | same hfst hsnd => exact .same hfst hsnd

theorem empty (p : NamePair) : p.Counterpart "" "" :=
  .same p.fst_identifier.nonempty.symm p.snd_identifier.nonempty.symm

theorem eq_empty_iff (hx : p.Counterpart x x') : x = "" ↔ x' = "" :=
  hx.eq_iff (empty p)

theorem resultName_eq_iff (hx : p.Counterpart x x') (hy : p.Counterpart y y') (n m : String) :
    Emitter.resultName x n = Emitter.resultName y m ↔
      Emitter.resultName x' n = Emitter.resultName y' m := by
  have hself (o : String) : Emitter.resultName o n = Emitter.resultName o m ↔ n = m := by
    simp [Emitter.resultName]
  cases hx with
  | renamed _ =>
    cases hy with
    | renamed _ => rw [hself, hself]
    | same hfst hsnd =>
      constructor
      · intro h
        exact absurd ((stem_eq_of_resultName_eq h).symm.trans p.stem_fst) hfst
      · intro h
        exact absurd ((stem_eq_of_resultName_eq h).symm.trans p.stem_snd) hsnd
  | same hfst hsnd =>
    cases hy with
    | renamed _ =>
      constructor
      · intro h
        exact absurd ((stem_eq_of_resultName_eq h).trans p.stem_fst) hfst
      · intro h
        exact absurd ((stem_eq_of_resultName_eq h).trans p.stem_snd) hsnd
    | same _ _ => rfl

end Counterpart

/-! ## Spellings -/

/-- Two texts come from one text with holes. -/
def Alike (p : NamePair) (s s' : String) : Prop :=
  ∃ pieces, s = fill p.fst pieces ∧ s' = fill p.snd pieces

namespace Alike

theorem refl (p : NamePair) (s : String) : p.Alike s s :=
  ⟨[.text s], by simp [fill, Piece.fill], by simp [fill, Piece.fill]⟩

theorem append (h : p.Alike s s') (h' : p.Alike u u') : p.Alike (s ++ u) (s' ++ u') := by
  obtain ⟨a, rfl, rfl⟩ := h
  obtain ⟨b, rfl, rfl⟩ := h'
  exact ⟨a ++ b, (fill_append _ a b).symm, (fill_append _ a b).symm⟩

theorem append_left (s : String) (h : p.Alike u u') : p.Alike (s ++ u) (s ++ u') :=
  (refl p s).append h

theorem append_right (h : p.Alike s s') (u : String) : p.Alike (s ++ u) (s' ++ u) :=
  h.append (refl p u)

theorem join {l l' : List String} (h : List.Forall₂ p.Alike l l') :
    p.Alike (String.join l) (String.join l') := by
  induction h with
  | nil => exact refl p _
  | cons hx _ ih =>
    rw [String.join_cons, String.join_cons]
    exact hx.append ih

end Alike

theorem Counterpart.alike (h : p.Counterpart x x') : p.Alike x x' := by
  cases h with
  | renamed _ => exact ⟨[.hole], by simp [fill, Piece.fill], by simp [fill, Piece.fill]⟩
  | same _ _ => exact .refl p x

/-! ### Names of the emitted program -/

theorem alike_qualified (h : p.Counterpart x x') (n : String) :
    p.Alike (GlobalName.qualified x n) (GlobalName.qualified x' n) := by
  unfold GlobalName.qualified
  by_cases hempty : x = ""
  · rw [if_pos hempty, if_pos (h.eq_empty_iff.mp hempty)]
    exact .refl p n
  · rw [if_neg hempty, if_neg (mt h.eq_empty_iff.mpr hempty)]
    exact (h.alike.append_right ".").append_right n

theorem alike_cell (h : p.Counterpart x x') (n : String) (v : Int) :
    p.Alike (GlobalName.cell x n v).spelling (GlobalName.cell x' n v).spelling :=
  (((alike_qualified h n).append_left "@var_").append_right ".").append_right _

theorem alike_array (h : p.Counterpart x x') (n : String) :
    p.Alike (GlobalName.array x n).spelling (GlobalName.array x' n).spelling :=
  (alike_qualified h n).append_left "@arr_"

theorem alike_method (h : p.Counterpart x x') (n : String) :
    p.Alike (GlobalName.method x n).spelling (GlobalName.method x' n).spelling :=
  ((h.alike.append_left "@method_").append_right ".").append_right n

theorem alike_resultName (h : p.Counterpart x x') (n : String) :
    p.Alike (Emitter.resultName x n) (Emitter.resultName x' n) :=
  ((h.alike.append_left "ret.").append_right ".").append_right n

theorem alike_slot (h : p.Alike s s') (v : Int) :
    p.Alike (LocalName.slot s v).spelling (LocalName.slot s' v).spelling :=
  ((h.append_left "%var_").append_right ".").append_right _

/-! ### Instructions and lines -/

section Instr

variable {d d' : LocalName} {source source' target target' : Pointer} {g g' : GlobalName}

theorem alike_alloca (h : p.Alike d.spelling d'.spelling) (type : IrType) :
    p.Alike (Instr.alloca d type).spelling (Instr.alloca d' type).spelling :=
  (h.append_right " = ").append_right _

theorem alike_load (h : p.Alike source.spelling source'.spelling) (n : Int) (type : IrType) :
    p.Alike (Instr.load n type source).spelling (Instr.load n type source').spelling :=
  (h.append_left _).append_left _

theorem alike_store (h : p.Alike target.spelling target'.spelling) (type : IrType) (v : Value) :
    p.Alike (Instr.store type v target).spelling (Instr.store type v target').spelling :=
  h.append_left _

theorem alike_element (h : p.Alike g.spelling g'.spelling) (n : Int) (type : IrType)
    (length index : Int) : p.Alike (Instr.element n type length g index).spelling
      (Instr.element n type length g' index).spelling :=
  (((h.append_left _).append_right _).append_right _).append_left _

theorem alike_call (h : p.Alike g.spelling g'.spelling) (n : Int) (type : IrType)
    (args : List (IrType × Value)) :
    p.Alike (Instr.call n type g args).spelling (Instr.call n type g' args).spelling :=
  ((((h.append_left _).append_right _).append_right _).append_right _).append_left _

theorem alike_scan (h : p.Alike target.spelling target'.spelling) (n : Int)
    (callee format : GlobalName) (type : IrType) :
    p.Alike (Instr.scan n callee format type target).spelling
      (Instr.scan n callee format type target').spelling :=
  ((h.append_left _).append_right _).append_left _

end Instr

end NamePair

def Line.Alike (p : NamePair) (l l' : Line) : Prop :=
  p.Alike l.text l'.text

namespace Line.Alike

variable {p : NamePair} {g g' : GlobalName}

theorem refl (p : NamePair) (l : Line) : l.Alike p l :=
  NamePair.Alike.refl p l.text

theorem instr {i i' : Instr} (h : p.Alike i.spelling i'.spelling) :
    (Line.instr i).Alike p (.instr i') :=
  (h.append_left "  ").append_right "\n"

theorem define (h : p.Alike g.spelling g'.spelling) (result : IrType) (params : List IrType) :
    (Line.define result g params).Alike p (.define result g' params) :=
  (((h.append_left _).append_right _).append_right _).append_right _

theorem cell (h : p.Alike g.spelling g'.spelling) (type : IrType) (value : String) :
    (Line.cell g type value).Alike p (.cell g' type value) :=
  ((((h.append_right _).append_right _).append_right _).append_right _).append_right _

theorem array (h : p.Alike g.spelling g'.spelling) (type : IrType) (length : Int) :
    (Line.array g type length).Alike p (.array g' type length) :=
  ((h.append_right _).append_right _).append_right _

theorem textOfLines {lines lines' : List Line} (h : List.Forall₂ (Line.Alike p) lines lines') :
    p.Alike (textOfLines lines) (textOfLines lines') := by
  apply NamePair.Alike.join
  rw [List.forall₂_map_left_iff, List.forall₂_map_right_iff]
  exact h

end Line.Alike

/-! ## Operands -/

variable {p : NamePair}

/-- The same storage, of instances that are counterparts. -/
def Cell.Alike (p : NamePair) (c c' : Cell) : Prop :=
  ∃ inst, p.Counterpart c.inst inst ∧ c' = { c with inst }

theorem Cell.Alike.symbol {c c' : Cell} (h : c.Alike p c') :
    p.Alike c.symbol.spelling c'.symbol.spelling := by
  obtain ⟨inst, hinst, rfl⟩ := h
  unfold Cell.symbol
  by_cases hkind : c.kind = .variable
  · rw [if_pos hkind, if_pos hkind]
    exact NamePair.alike_cell hinst _ _
  · rw [if_neg hkind, if_neg hkind]
    exact NamePair.alike_array hinst _

theorem Cell.Alike.mono {c c' : Cell} (h : c.Alike p c') {d : Prop} (hd : p.declared → d) :
    c.Alike (p.declare d) c' := by
  obtain ⟨inst, hinst, rfl⟩ := h
  exact ⟨inst, hinst.mono hd, rfl⟩

inductive Operand.Alike (p : NamePair) : Operand → Operand → Prop
  | literal (l : Literal) : Alike p (.literal l) (.literal l)
  | global {c c' : Cell} (h : c.Alike p c') : Alike p (.global c) (.global c')
  | element {c c' : Cell} {i i' : Operand} (h : c.Alike p c') (hi : Alike p i i') :
      Alike p (.element c i) (.element c' i')
  | slot (l : Local) : Alike p (.slot l) (.slot l)
  | register (r : Register) : Alike p (.register r) (.register r)

namespace Operand.Alike

variable {op op' : Operand}

theorem type_eq (h : op.Alike p op') : op'.type = op.type := by
  cases h with
  | global h | element h _ =>
    obtain ⟨inst, -, rfl⟩ := h
    rfl
  | literal l | slot l | register r => rfl

theorem kind_eq (h : op.Alike p op') : op'.kind = op.kind := by
  cases h with
  | global h | element h _ =>
    obtain ⟨inst, -, rfl⟩ := h
    rfl
  | literal l | slot l | register r => rfl

theorem mono (h : op.Alike p op') {d : Prop} (hd : p.declared → d) :
    op.Alike (p.declare d) op' := by
  induction h with
  | literal l => exact .literal l
  | global h => exact .global (h.mono hd)
  | element h _ ih => exact .element (h.mono hd) ih
  | slot l => exact .slot l
  | register r => exact .register r

end Operand.Alike

def Global.Alike (p : NamePair) (g g' : Global) : Prop :=
  ∃ inst index, p.Counterpart g.inst inst ∧ Option.Rel (Operand.Alike p) g.index index ∧
    g' = { g with inst, index }

namespace Global.Alike

variable {g g' : Global}

theorem toCell (h : g.Alike p g') : g.toCell.Alike p g'.toCell := by
  obtain ⟨inst, index, hinst, -, rfl⟩ := h
  exact ⟨inst, hinst, rfl⟩

theorem toOperand (h : g.Alike p g') : g.toOperand.Alike p g'.toOperand := by
  have hcell := h.toCell
  obtain ⟨inst, index, hinst, hindex, rfl⟩ := h
  unfold Global.toOperand
  rcases optionRel_cases hindex with ⟨hi, rfl⟩ | ⟨i, i', hi, rfl, hop⟩
  · rw [hi]
    exact .global hcell
  · rw [hi]
    exact .element hcell hop

theorem withVersion (h : g.Alike p g') (version : Int) (type : DataType) :
    (g.withVersion version type).Alike p (g'.withVersion version type) := by
  obtain ⟨inst, index, hinst, hindex, rfl⟩ := h
  exact ⟨inst, index, hinst, hindex, rfl⟩

theorem element (h : g.Alike p g') {i i' : Operand} (hi : i.Alike p i') :
    (g.element i).Alike p (g'.element i') := by
  obtain ⟨inst, index, hinst, -, rfl⟩ := h
  exact ⟨inst, some i', hinst, .some hi, rfl⟩

theorem mono (h : g.Alike p g') {d : Prop} (hd : p.declared → d) : g.Alike (p.declare d) g' := by
  obtain ⟨inst, index, hinst, hindex, rfl⟩ := h
  refine ⟨inst, index, hinst.mono hd, ?_, rfl⟩
  rcases optionRel_cases hindex with ⟨hi, rfl⟩ | ⟨i, i', hi, rfl, hop⟩
  · rw [hi]
    exact .none
  · rw [hi]
    exact .some (hop.mono hd)

theorem forInstance {x x' : String} (h : p.Counterpart x x') (hindex : g.index = none) (id : Int) :
    ({ g.forInstance x with classId := id } : Global).Alike p
      { g.forInstance x' with classId := id } := by
  refine ⟨x', none, h, ?_, ?_⟩
  · rw [show ({ g.forInstance x with classId := id } : Global).index = none from hindex]
    exact .none
  · simp [Global.forInstance, hindex]

end Global.Alike

/-- Bindings to storage of instances that are counterparts. Variables of functions are the same. -/
inductive Binding.Alike (p : NamePair) : Binding → Binding → Prop
  | global {g g' : Global} (h : g.Alike p g') : Alike p (.global g) (.global g')
  | slot (l : Local) : Alike p (.slot l) (.slot l)

namespace Binding.Alike

variable {b b' : Binding}

theorem type_eq (h : b.Alike p b') : b'.type = b.type := by
  cases h with
  | global h =>
    obtain ⟨inst, index, -, -, rfl⟩ := h
    rfl
  | slot l => rfl

theorem version_eq (h : b.Alike p b') : b'.version = b.version := by
  cases h with
  | global h =>
    obtain ⟨inst, index, -, -, rfl⟩ := h
    rfl
  | slot l => rfl

theorem pointer (h : b.Alike p b') : p.Alike b.pointer.spelling b'.pointer.spelling := by
  cases h with
  | global h => exact h.toCell.symbol
  | slot l => exact .refl p _

theorem toOperand (h : b.Alike p b') : b.toOperand.Alike p b'.toOperand := by
  cases h with
  | global h => exact h.toOperand
  | slot l => exact .slot l

theorem withVersion (h : b.Alike p b') (version : Int) (type : DataType) :
    (b.withVersion version type).Alike p (b'.withVersion version type) := by
  cases h with
  | global h => exact .global (h.withVersion version type)
  | slot l => exact .slot _

end Binding.Alike

end MkCompiler
