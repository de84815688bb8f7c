import Mathlib.Data.List.Basic
import MkCompiler.RuntimeSymbols
import MkCompiler.Proofs.Program

/-!
# Uses of names

Every line of a program declares names and uses names that others declare, each at a machine type.
Code is typed in an environment if every use finds its name there at the same type; what a line
defines is in the environment of the lines behind it.
-/

namespace MkCompiler

inductive SymbolType where
  | cell (type : IrType)
  | array (type : IrType) (length : Int)
  | function (result : IrType) (params : List IrType)
  | variadic
  | text (size : Nat)
  deriving DecidableEq, Repr

/-- What a local name is defined as: a value, a pointer, a 64-bit index, or the result of a
comparison. -/
inductive LocalType where
  | value (type : IrType)
  | pointer (type : IrType)
  | index
  | flag
  deriving DecidableEq, Repr

/-- The number of characters of the format string that scans a value, with its terminator. -/
def scanFormatSize : IrType → Nat
  | .double => 4
  | _ => 3

def Value.uses (type : IrType) : Value → List (LocalName × LocalType)
  | .number n => [(.number n, .value type)]
  | .constant _ => []

def Pointer.localUses (type : IrType) : Pointer → List (LocalName × LocalType)
  | .frame name => [(name, .pointer type)]
  | .global _ => []

def Pointer.symbolUses (type : IrType) : Pointer → List (GlobalName × SymbolType)
  | .frame _ => []
  | .global name => [(name, .cell type)]

namespace Instr

/-- The global symbols an instruction refers to, each as what it is used as. -/
def symbolUses : Instr → List (GlobalName × SymbolType)
  | load _ type source => source.symbolUses type
  | store type _ target => target.symbolUses type
  | element _ type length array _ => [(array, .array type length)]
  | call _ result callee args => [(callee, .function result (args.map Prod.fst))]
  | print _ callee format _ _ => [(callee, .variadic), (format, .text 4)]
  | scan _ callee format type target =>
    [(callee, .variadic), (format, .text (scanFormatSize type))] ++ target.symbolUses type
  | _ => []

def localUses : Instr → List (LocalName × LocalType)
  | load _ type source => source.localUses type
  | store type value target => value.uses type ++ target.localUses type
  | extend _ value => value.uses .i32
  | element _ _ _ _ index => [(.number index, .index)]
  | convert _ _ source value _ => value.uses source
  | binary _ _ type left right => left.uses type ++ right.uses type
  | compare _ _ type left right => left.uses type ++ right.uses type
  | call _ _ _ args => args.flatMap fun arg => arg.2.uses arg.1
  | print _ _ _ type value => value.uses type
  | scan _ _ _ type target => target.localUses type
  | branch condition _ _ => [(.number condition, .flag)]
  | ret type value => value.uses type
  | _ => []

def defines : Instr → List (LocalName × LocalType)
  | alloca dest type => [(dest, .pointer type)]
  | load dest type _ => [(.number dest, .value type)]
  | extend dest _ => [(.number dest, .index)]
  | element dest type _ _ _ => [(.number dest, .pointer type)]
  | convert dest _ _ _ target => [(.number dest, .value target)]
  | binary dest _ type _ _ => [(.number dest, .value type)]
  | compare dest _ _ _ _ => [(.number dest, .flag)]
  | call dest result _ _ => [(.number dest, .value result)]
  | print dest _ _ _ _ => [(.number dest, .value .i32)]
  | scan dest _ _ _ _ => [(.number dest, .value .i32)]
  | _ => []

theorem map_fst_defines (i : Instr) : i.defines.map Prod.fst = i.dest?.toList := by
  cases i <;> rfl

end Instr

namespace Line

def symbolUses : Line → List (GlobalName × SymbolType)
  | instr i => i.symbolUses
  | _ => []

def localUses : Line → List (LocalName × LocalType)
  | instr i => i.localUses
  | _ => []

def defines : Line → List (LocalName × LocalType)
  | instr i => i.defines
  | _ => []

def declares : Line → List (GlobalName × SymbolType)
  | cell name type _ => [(name, .cell type)]
  | array name type length => [(name, .array type length)]
  | define result name params => [(name, .function result params)]
  | defineEntry => [(.entry, .function .i32 [])]
  | declareVariadic name => [(name, .variadic)]
  | formatString name size _ => [(name, .text size)]
  | _ => []

/-- The incoming arguments of the definition a line opens. They are numbered from zero. -/
def arguments : Line → List (LocalName × LocalType)
  | define _ _ params => params.mapIdx fun n type => (.number n, .value type)
  | _ => []

@[simp] theorem declares_instr (i : Instr) : (instr i).declares = [] := rfl

end Line

/-! ## Environments -/

/-- The names that code may use. -/
@[ext]
structure Env where
  globals : GlobalName → SymbolType → Prop
  locals : LocalName → LocalType → Prop

namespace Env

variable {Γ Γ' Γ'' : Env} {line : Line} {a b code : List Line}

structure Le (Γ Γ' : Env) : Prop where
  globals : ∀ name type, Γ.globals name type → Γ'.globals name type
  locals : ∀ name type, Γ.locals name type → Γ'.locals name type

theorem Le.refl (Γ : Env) : Γ.Le Γ :=
  ⟨fun _ _ h => h, fun _ _ h => h⟩

theorem Le.trans (h : Γ.Le Γ') (h' : Γ'.Le Γ'') : Γ.Le Γ'' :=
  ⟨fun n t hn => h'.globals n t (h.globals n t hn), fun n t hn => h'.locals n t (h.locals n t hn)⟩

structure Allows (Γ : Env) (line : Line) : Prop where
  symbols : ∀ u ∈ line.symbolUses, Γ.globals u.1 u.2
  locals : ∀ u ∈ line.localUses, Γ.locals u.1 u.2

theorem Allows.mono (h : Γ.Allows line) (hle : Γ.Le Γ') : Γ'.Allows line :=
  ⟨fun u hu => hle.globals _ _ (h.symbols u hu), fun u hu => hle.locals _ _ (h.locals u hu)⟩

def after (Γ : Env) (code : List Line) : Env :=
  { Γ with locals := fun name type => Γ.locals name type ∨ (name, type) ∈ code.flatMap Line.defines }

theorem le_after (Γ : Env) (code : List Line) : Γ.Le (Γ.after code) :=
  ⟨fun _ _ h => h, fun _ _ h => .inl h⟩

@[simp] theorem after_nil (Γ : Env) : Γ.after [] = Γ := by
  ext <;> simp [after]

theorem after_append (Γ : Env) (a b : List Line) : Γ.after (a ++ b) = (Γ.after a).after b := by
  ext <;> simp [after, or_assoc]

theorem after_mono (h : Γ.Le Γ') (code : List Line) : (Γ.after code).Le (Γ'.after code) :=
  ⟨h.globals, fun n t hn => hn.imp (h.locals n t) id⟩

theorem locals_after {u : LocalName × LocalType} (h : u ∈ code.flatMap Line.defines) :
    (Γ.after code).locals u.1 u.2 :=
  .inr h

/-- Every line uses only names of the environment and those that the lines before it define. -/
def Types (Γ : Env) : List Line → Prop
  | [] => True
  | line :: rest => Γ.Allows line ∧ (Γ.after [line]).Types rest

theorem types_append : Γ.Types (a ++ b) ↔ Γ.Types a ∧ (Γ.after a).Types b := by
  induction a generalizing Γ with
  | nil => simp [Types]
  | cons line a ih =>
    rw [List.cons_append, Types, Types, ih, and_assoc, ← after_append]
    rfl

theorem types_singleton : Γ.Types [line] ↔ Γ.Allows line := by
  simp [Types]

theorem Types.mono (h : Γ.Types code) (hle : Γ.Le Γ') : Γ'.Types code := by
  induction code generalizing Γ Γ' with
  | nil => trivial
  | cons line rest ih => exact ⟨h.1.mono hle, ih h.2 (after_mono hle [line])⟩

theorem Types.append (ha : Γ.Types a) (hb : (Γ.after a).Types b) : Γ.Types (a ++ b) :=
  types_append.mpr ⟨ha, hb⟩

end Env

/-! ## Indices -/

def Value.Within (length : Int) (v : Value) : Prop :=
  ∀ text, v = .constant text → ∃ k : Int, text = toString k ∧ 0 ≤ k ∧ k < length

def Line.isElement : Line → Bool
  | instr (.element _ _ _ _ _) => true
  | _ => false

theorem Line.isElement_of_isTerminator {i : Instr} (h : i.isTerminator = true) :
    Line.isElement (.instr i) = false := by
  cases i <;> first | rfl | cases h

/-- The address of an element is computed right behind the extension of its index, which lies within
the array if it is constant. -/
inductive Addressed : List Line → Prop
  | nil : Addressed []
  | other {line : Line} {rest : List Line} : line.isElement = false → Addressed rest →
      Addressed (line :: rest)
  | element {wide n length : Int} {index : Value} {type : IrType} {array : GlobalName}
      {rest : List Line} : index.Within length → Addressed rest →
      Addressed (.instr (.extend wide index) :: .instr (.element n type length array wide) :: rest)

namespace Addressed

variable {a b : List Line}

theorem append (ha : Addressed a) (hb : Addressed b) : Addressed (a ++ b) := by
  induction ha with
  | nil => exact hb
  | other h _ ih => exact .other h ih
  | element h _ ih => exact .element h ih

theorem of_isElement (h : ∀ line ∈ a, line.isElement = false) : Addressed a := by
  induction a with
  | nil => exact .nil
  | cons line a ih =>
    exact .other (h line (by simp)) (ih fun line' hline' => h line' (by simp [hline']))

theorem flatMap {α : Type} {f : α → List Line} {l : List α} (h : ∀ x ∈ l, Addressed (f x)) :
    Addressed (l.flatMap f) := by
  induction l with
  | nil => exact .nil
  | cons x l ih => exact (h x (by simp)).append (ih fun y hy => h y (by simp [hy]))

/-- The line in front of an address extends its index. -/
theorem exists_extend {n length wide : Int} {type : IrType} {array : GlobalName}
    (h : Addressed (a ++ .instr (.element n type length array wide) :: b)) :
    ∃ front index, a = front ++ [.instr (.extend wide index)] ∧ index.Within length := by
  generalize hcode : a ++ .instr (.element n type length array wide) :: b = code at h
  induction h generalizing a with
  | nil => simp at hcode
  | other hline _ ih =>
    cases a with
    | nil =>
      obtain ⟨rfl, -⟩ := List.cons.inj hcode
      cases hline
    | cons x a =>
      obtain ⟨front, index, rfl, hindex⟩ := ih (List.cons.inj hcode).2
      exact ⟨x :: front, index, rfl, hindex⟩
  | element hwithin _ ih =>
    cases a with
    | nil => cases (List.cons.inj hcode).1
    | cons x a =>
      obtain ⟨rfl, hrest⟩ := List.cons.inj hcode
      cases a with
      | nil =>
        cases (List.cons.inj hrest).1
        exact ⟨[], _, rfl, hwithin⟩
      | cons y a =>
        obtain ⟨front, index, rfl, hindex⟩ := ih (List.cons.inj hrest).2
        exact ⟨_ :: y :: front, index, rfl, hindex⟩

end Addressed

namespace Env

variable {Γ Γ' : Env} {line : Line} {a b code : List Line}

/-- Typed code that addresses arrays within their bounds. -/
structure Accepts (Γ : Env) (code : List Line) : Prop where
  types : Γ.Types code
  addressed : Addressed code

theorem accepts_nil : Γ.Accepts [] :=
  ⟨trivial, .nil⟩

theorem accepts_singleton (h : Γ.Allows line) (hline : line.isElement = false) :
    Γ.Accepts [line] :=
  ⟨types_singleton.mpr h, .other hline .nil⟩

theorem Accepts.append (ha : Γ.Accepts a) (hb : (Γ.after a).Accepts b) : Γ.Accepts (a ++ b) :=
  ⟨ha.types.append hb.types, ha.addressed.append hb.addressed⟩

theorem Accepts.mono (h : Γ.Accepts code) (hle : Γ.Le Γ') : Γ'.Accepts code :=
  ⟨h.types.mono hle, h.addressed⟩

end Env

end MkCompiler
