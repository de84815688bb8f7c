import Mathlib.Logic.Relation
import MkCompiler.Proofs.Constructs
import MkCompiler.Proofs.Steps

/-!
# What a notification does

A notification that is compiled performs one step of the emitter, and which one follows from its
kind. Apart from that it keeps the recorded classes, unless it opens or closes one.
-/

namespace MkCompiler

open MkCompiler.Action

namespace SymbolTable

theorem ensures_classAt {id : Int} {t : SymbolTable} {Q : ClassInfo → SymbolTable → Prop} :
    Ensures (classAt id) t Q ↔ ∀ k, 0 ≤ id → t.classes[id.toNat]? = some k → Q k t := by
  unfold classAt
  rw [ensures_bind, ensures_get]
  by_cases h : id < 0
  · simp [h, Int.not_le.mpr h]
  · cases t.classes[id.toNat]? <;> simp [h, Int.not_lt.mp h]

structure SameClasses (t t' : SymbolTable) : Prop where
  classes : t'.classes = t.classes
  classNames : t'.classNames = t.classNames

instance : IsPreorder SymbolTable SameClasses where
  refl _ := ⟨rfl, rfl⟩
  trans _ _ _ h h' := ⟨h'.classes.trans h.classes, h'.classNames.trans h.classNames⟩

theorem sameClasses_of_leads {α : Type} {x : Action SymbolTable α} (h : Leads SameStage x) :
    Moves SameClasses x :=
  fun t _ _ hrun => ⟨((h t).of_ok hrun).classes, ((h t).of_ok hrun).classNames⟩

end SymbolTable

namespace Compilation

variable {α : Type} {R S : Emitter → Emitter → Prop} {c c' c'' : Compilation}

/-- The emitter moves as described. The classes, what is being recorded, and the program stay as
they are. -/
structure Along (R : Emitter → Emitter → Prop) (c c' : Compilation) : Prop where
  emitter : R c.emitter c'.emitter
  classes : c'.table.classes = c.table.classes
  classNames : c'.table.classNames = c.table.classNames
  recording : c'.recording = c.recording
  method : c'.method = c.method
  program : c'.program = c.program

theorem Along.mono (h : Along R c c') (hR : R c.emitter c'.emitter → S c.emitter c'.emitter) :
    Along S c c' :=
  { h with emitter := hR h.emitter }

theorem Along.comp (h : Along R c c') (h' : Along S c' c'') :
    Along (Relation.Comp R S) c c'' where
  emitter := ⟨c'.emitter, h.emitter, h'.emitter⟩
  classes := h'.classes.trans h.classes
  classNames := h'.classNames.trans h.classNames
  recording := h'.recording.trans h.recording
  method := h'.method.trans h.method
  program := h'.program.trans h.program

instance [IsPreorder Emitter R] : IsPreorder Compilation (Along R) where
  refl _ := ⟨refl_of R _, rfl, rfl, rfl, rfl, rfl⟩
  trans _ _ _ h h' := (h.comp h').mono fun ⟨_, hr, hr'⟩ => trans_of R hr hr'

theorem along_onEmitter {x : Action Emitter α} (hx : Moves R x) :
    Moves (Along R) (onEmitter x) :=
  fun c => ensures_zoom.mpr ((hx c.emitter).mono fun _ _ h => ⟨h, rfl, rfl, rfl, rfl, rfl⟩)

section Preorder

variable [IsPreorder Emitter R]

theorem along_onTable {x : Action SymbolTable α} (hx : Moves SymbolTable.SameClasses x) :
    Moves (Along R) (onTable x) :=
  fun c => ensures_zoom.mpr ((hx c.table).mono fun _ _ h =>
    ⟨refl_of R _, h.classes, h.classNames, rfl, rfl, rfl⟩)

theorem works_along : Works (fun {_} x => Moves (Along R) x) fun {_} x => Moves R x :=
  works_moves (fun _ _ => ⟨refl_of R _, rfl, rfl, rfl, rfl, rfl⟩) along_onEmitter

theorem along_pop : Moves (Along R) pop :=
  works_along.pop

theorem along_popMany (count : Int) : Moves (Along R) (popMany count) :=
  works_along.popMany count

end Preorder

theorem moves_requireOutside {R : Compilation → Compilation → Prop} [IsPreorder Compilation R]
    (violation : String → Violation) : Moves R (requireOutside violation) :=
  (leads_requireOutside violation).moves

theorem declares_along : Declares (fun {_} x => Moves (Along Emitter.Straight) x)
    fun {_} x => Moves Emitter.Straight x :=
  .of_scopes works_along (fun hx => along_onTable (SymbolTable.sameClasses_of_leads hx))
    moves_requireOutside Emitter.straight_declareArray

end Compilation

/-- What the emitter does when a notification of a kind is compiled. -/
def Emitter.Performs (kind : CommandKind) (e e' : Emitter) : Prop :=
  match kind with
  | .beginCondition => openCondition e = .ok () e'
  | .compare => ∃ left op right, compare left op right e = .ok () e'
  | .endIf => endControl .conditional e = .ok () e'
  | .endWhile => endControl .loop e = .ok () e'
  | .ret => ∃ op, ret op e = .ok () e'
  | .declareFunction => ∃ name sig params locals, name.part = .functions ∧
      openFunction name sig params e = .ok locals e'
  | .endFunction => endFunction e = .ok () e'
  | .beginClass | .endClass => e = e'
  | .endProgram => ∃ lines, finish e = .ok lines e'
  | .declareInstance | .unknown _ => False
  | _ => Straight e e'

theorem Emitter.performs_straight {kind : CommandKind} (h : kind.isStraight = true) :
    Performs kind = Straight := by
  cases kind <;> simp [CommandKind.isStraight] at h <;> rfl

namespace Compilation

open SymbolTable

theorem along_bind_left {β : Type} {x : Action Compilation α} {f : α → Action Compilation β}
    (hx : Moves (Along Eq) x) (hf : ∀ a, Moves (Along R) (f a)) : Moves (Along R) (x >>= f) := by
  intro c
  refine ensures_bind.mpr ((hx c).mono fun a c₁ h₁ => ?_)
  exact (hf a c₁).mono fun _ _ h₂ => (h₁.comp h₂).mono fun ⟨_, he, hr⟩ => he ▸ hr

theorem along_bind_right {β : Type} {x : Action Compilation α} {f : α → Action Compilation β}
    (hx : Moves (Along R) x) (hf : ∀ a, Moves (Along Eq) (f a)) : Moves (Along R) (x >>= f) := by
  intro c
  refine ensures_bind.mpr ((hx c).mono fun a c₁ h₁ => ?_)
  exact (hf a c₁).mono fun _ _ h₂ => (h₁.comp h₂).mono fun ⟨_, hr, he⟩ => he ▸ hr

theorem along_modify {g : Compilation → Compilation} (hg : ∀ c, Along Eq c (g c)) :
    Moves (Along Eq) (modify g : Action Compilation PUnit) :=
  fun c => ensures_modify.mpr (hg c)

theorem along_beginCondition :
    Moves (Along (Emitter.Performs .beginCondition)) beginCondition := by
  refine along_bind_left Moves.get fun c => .ite (fun _ => .throw _) fun _ => ?_
  exact along_onEmitter fun _ _ _ h => h

theorem along_compare (token : String) :
    Moves (Along (Emitter.Performs .compare)) (compare token) := by
  unfold compare
  cases Comparison.ofToken? token with
  | none => exact .reject _
  | some op =>
    exact along_bind_left works_along.popPair fun (left, right) =>
      along_onEmitter fun _ _ _ h => ⟨left, op, right, h⟩

theorem along_ret : Moves (Along (Emitter.Performs .ret)) ret := by
  refine along_bind_left along_pop fun value => along_bind_right ?_ fun _ => along_modify ?_
  · exact along_onEmitter fun _ _ _ h => ⟨value, h⟩
  · exact fun _ => ⟨rfl, rfl, rfl, rfl, rfl, rfl⟩

theorem along_checkSignature (name : String) (result : DataType) (params : List Param) :
    Moves (Along Eq) (checkSignature name result params) :=
  (composes_moves _).checkSignature name result params

theorem along_declareLocals (locals : List Local) : Moves (Along Eq) (declareLocals locals) := by
  induction locals with
  | nil => exact .pure _
  | cons l rest ih =>
    exact (along_onTable (sameClasses_of_leads (leads_declareLocal _))).bind fun _ => ih

theorem along_openBody (name : String) (result : DataType) (params : List Param) :
    Moves (Along (Emitter.Performs .declareFunction)) (openBody name result params) := by
  refine along_bind_left Moves.get fun c => ?_
  cases c.table.instance? with
  | some inst =>
    refine along_bind_left (along_onTable ((composes_moves _).classAt _)) fun k => ?_
    cases k.methods.find? name with
    | none => exact .throw _
    | some sig =>
      refine along_bind_right ?_ fun _ => .pure _
      exact along_onEmitter fun _ locals _ h => ⟨_, _, _, locals, rfl, h⟩
  | none =>
    refine along_bind_left (along_checkSignature _ _ _) fun _ => ?_
    refine along_bind_left (along_onTable (sameClasses_of_leads (leads_declareFunction _)))
      fun _ => ?_
    refine along_bind_right ?_ fun _ => .pure _
    exact along_onEmitter fun _ locals _ h => ⟨_, _, _, locals, rfl, h⟩

theorem along_declareFunction (name : String) (result : DataType) (params : List Param) :
    Moves (Along (Emitter.Performs .declareFunction)) (declareFunction name result params) := by
  refine along_bind_left (moves_requireOutside _) fun _ => ?_
  refine along_bind_right (along_openBody _ _ _) fun (sig, locals) => ?_
  refine Moves.bind (along_modify fun _ => ⟨rfl, rfl, rfl, rfl, rfl, rfl⟩) fun _ => ?_
  refine (along_declareLocals locals).bind fun _ => ?_
  exact along_modify fun _ => ⟨rfl, rfl, rfl, rfl, rfl, rfl⟩

theorem along_endFunction : Moves (Along (Emitter.Performs .endFunction)) endFunction := by
  refine along_bind_left Moves.get fun c => ?_
  cases c.function with
  | none => exact .reject _
  | some f =>
    refine along_bind_left (Moves.require _ _) fun _ => along_bind_right ?_ fun _ => ?_
    · exact along_onEmitter fun _ _ _ h => h
    · exact along_modify fun _ => ⟨rfl, rfl, rfl, rfl, rfl, rfl⟩

/-- Every notification that is compiled performs the step of its kind. The three kinds left out
open and close classes and end the program. -/
theorem along_construct {cmd : Command} (hbegin : cmd.kind ≠ .beginClass)
    (hend : cmd.kind ≠ .endClass) (hprogram : cmd.kind ≠ .endProgram) :
    Moves (Along (Emitter.Performs cmd.kind)) (construct cmd) := by
  by_cases hstraight : cmd.kind.isStraight = true
  · rw [Emitter.performs_straight hstraight]
    exact declares_along.straight Emitter.declares_straight hstraight
  · unfold construct
    cases hkind : cmd.kind with
    | beginCondition => exact along_beginCondition
    | compare => exact along_compare _
    | endIf => exact along_onEmitter fun _ _ _ h => h
    | endWhile => exact along_onEmitter fun _ _ _ h => h
    | ret => exact along_ret
    | declareFunction => exact along_declareFunction _ _ _
    | endFunction => exact along_endFunction
    | declareInstance => exact .throw _
    | unknown n => exact .throw _
    | beginClass => exact absurd hkind hbegin
    | endClass => exact absurd hkind hend
    | endProgram => exact absurd hkind hprogram
    | _ => simp [hkind, CommandKind.isStraight] at hstraight

theorem ensures_endProgram (c : Compilation) : Ensures endProgram c fun _ c' =>
    ∃ lines e, Emitter.finish c.emitter = .ok lines e ∧
      c' = { c with emitter := e, program := some lines } := by
  refine ensures_bind.mpr (ensures_get.mpr ?_)
  split
  · exact ensures_reject.mpr trivial
  · refine ensures_bind.mpr (ensures_zoom.mpr fun lines e h => ?_)
    exact ensures_modify.mpr ⟨lines, e, h, rfl⟩

end Compilation

end MkCompiler
