import MkCompiler.Proofs.MirroredEmitter
import MkCompiler.Proofs.MirroredTables

/-!
# Mirrored constructs

Every notification of a class body is compiled in the same way for each instance of the class. Main
result: from compilations that are counterparts, a notification leads to counterparts again, or it
fails with errors of one kind.
-/

namespace MkCompiler

open MkCompiler.Action

inductive Compilation.Alike (p : NamePair) (c : Compilation) : Compilation → Prop
  | mk {table : SymbolTable} {emitter : Emitter} {stack : List Operand} (ht : c.table.Alike p table)
      (he : c.emitter.Alike p emitter) (hs : List.Forall₂ (Operand.Alike p) c.stack stack) :
      Alike p c { c with table, emitter, stack }

namespace Compilation

abbrev InStep (p : NamePair) {α α' : Type} (Q : α → α' → Prop) (x : Action Compilation α)
    (y : Action Compilation α') : Prop :=
  Mirrors (Compilation.Alike p) Q x y

variable {p : NamePair} {c c' : Compilation}

namespace Alike

theorem table (h : c.Alike p c') : c.table.Alike p c'.table := by
  obtain ⟨ht, -, -⟩ := h
  exact ht

theorem emitter (h : c.Alike p c') : c.emitter.Alike p c'.emitter := by
  obtain ⟨-, he, -⟩ := h
  exact he

theorem stack (h : c.Alike p c') : List.Forall₂ (Operand.Alike p) c.stack c'.stack := by
  obtain ⟨-, -, hs⟩ := h
  exact hs

end Alike

/-! ## Operands -/

section Basic

variable {α α' : Type} {Q : α → α' → Prop}

theorem inStep_onTable {x : Action SymbolTable α} {y : Action SymbolTable α'}
    (h : Mirrors (SymbolTable.Alike p) Q x y) : InStep p Q (onTable x) (onTable y) := by
  apply Mirrors.zoom h
  · intro c c' hc
    exact hc.table
  · rintro c _ t t' ⟨-, he, hs⟩ ht
    exact ⟨ht, he, hs⟩

theorem inStep_onEmitter {x : Action Emitter α} {y : Action Emitter α'}
    (h : Emitter.InStep p Q x y) : InStep p Q (onEmitter x) (onEmitter y) := by
  apply Mirrors.zoom h
  · intro c c' hc
    exact hc.emitter
  · rintro c _ e e' ⟨ht, -, hs⟩ he
    exact ⟨ht, he, hs⟩

theorem inStep_push {op op' : Operand} (h : op.Alike p op') :
    InStep p Eq (push op) (push op') := by
  apply Mirrors.update
  rintro c _ ⟨ht, he, hs⟩
  exact ⟨ht, he, .cons h hs⟩

theorem inStep_pop (p : NamePair) : InStep p (Operand.Alike p) pop pop := by
  unfold pop
  apply Mirrors.get.bind
  rintro c _ ⟨ht, he, hs⟩
  dsimp only
  cases hstack : c.stack with
  | nil =>
    rw [hstack] at hs
    rw [List.forall₂_nil_left_iff.mp hs]
    exact .throw (.refl _)
  | cons op rest =>
    rw [hstack] at hs
    obtain ⟨op', rest', hop, hrest, rfl⟩ := List.forall₂_cons_left_iff.mp hs
    apply (Mirrors.set ⟨ht, he, hrest⟩).bind
    intro _ _ _
    exact .pure hop

theorem inStep_popMany (p : NamePair) (count : Int) :
    InStep p (List.Forall₂ (Operand.Alike p)) (popMany count) (popMany count) := by
  unfold popMany
  apply Mirrors.get.bind
  rintro c _ ⟨ht, he, hs⟩
  apply Mirrors.ite Iff.rfl
  · intro _
    exact .throw (.refl _)
  intro _
  apply Mirrors.ite (by rw [hs.length_eq])
  · intro _
    apply (Mirrors.set ⟨ht, he, List.forall₂_drop count.toNat hs⟩).bind
    intro _ _ _
    exact .pure (List.rel_reverse (List.forall₂_take count.toNat hs))
  intro _
  apply Mirrors.ite Iff.rfl
  · intro _
    exact .throw (.refl _)
  · intro _
    apply (Mirrors.set ⟨ht, he, .nil⟩).bind
    intro _ _ _
    exact .throw (.refl _)

theorem inStep_popPair (p : NamePair) :
    InStep p (fun a b => a.1.Alike p b.1 ∧ a.2.Alike p b.2) popPair popPair := by
  unfold popPair
  apply (inStep_pop p).bind
  intro right right' hright
  apply (inStep_pop p).bind
  intro left left' hleft
  exact .pure ⟨hleft, hright⟩

theorem inStep_requireScalar (p : NamePair) (type : DataType) (place : TypedPlace)
    (name : String) :
    InStep p Eq (requireScalar type place name) (requireScalar type place name) :=
  Mirrors.require Iff.rfl rfl

theorem inStep_requireOutside (p : NamePair) (violation : String → Violation) :
    InStep p Eq (requireOutside violation) (requireOutside violation) := by
  unfold requireOutside
  apply Mirrors.get.bind
  rintro c _ ⟨-, he, -⟩
  apply Mirrors.ite (by rw [he.inFunction_eq])
  · intro _
    dsimp only
    cases c.function with
    | some f => exact .reject rfl
    | none => exact .throw (.refl _)
  · intro _
    exact .pure rfl

end Basic

/-! ## Expressions -/

theorem inStep_int (p : NamePair) (text : String) : InStep p Eq (int text) (int text) := by
  unfold int
  cases Literal.int? text with
  | some l => exact inStep_push (.literal l)
  | none => exact .reject rfl

theorem inStep_real (p : NamePair) (text : String) : InStep p Eq (real text) (real text) := by
  unfold real
  cases Literal.real? text with
  | some l => exact inStep_push (.literal l)
  | none => exact .reject rfl

theorem inStep_name (p : NamePair) (n : String) : InStep p Eq (name n) (name n) := by
  unfold name
  apply (inStep_onTable (SymbolTable.mirrors_lookup p n)).bind
  intro b b' hb
  exact inStep_push hb.toOperand

theorem inStep_arrayElement {index index' : Operand} (h : index.Alike p index')
    (array : String) :
    InStep p (Global.Alike p) (arrayElement array index) (arrayElement array index') := by
  unfold arrayElement
  apply (inStep_onTable (SymbolTable.mirrors_lookup p array)).bind
  intro b b' hb
  exact inStep_onEmitter (Emitter.inStep_element hb h)

theorem inStep_element (p : NamePair) (array : String) :
    InStep p Eq (element array) (element array) := by
  unfold element
  apply (inStep_pop p).bind
  intro index index' hindex
  apply (inStep_arrayElement hindex array).bind
  intro g g' hg
  exact inStep_push hg.toOperand

theorem inStep_instanceField {inst : String} (hinst : p.Fixes inst) (field : String) :
    InStep p (Global.Alike p) (instanceField inst field) (instanceField inst field) := by
  unfold instanceField
  apply (inStep_onTable (SymbolTable.mirrors_lookupInstance hinst)).bind
  intro i i' hi
  rcases optionRel_cases (hi.fields.find?_same field) with ⟨hg, hg'⟩ | ⟨g, g', hg, hg', halike⟩
  · rw [hg, hg']
    exact .reject rfl
  · rw [hg, hg']
    exact .pure halike

theorem inStep_member {inst : String} (hinst : p.Fixes inst) (field : String) :
    InStep p Eq (member inst field) (member inst field) := by
  unfold member
  apply (inStep_instanceField hinst field).bind
  intro g g' hg
  exact inStep_push hg.toOperand

theorem inStep_arith (p : NamePair) (token : String) :
    InStep p Eq (arith token) (arith token) := by
  unfold arith
  cases ArithOp.ofToken? token with
  | none => exact .reject rfl
  | some op =>
    apply (inStep_popPair p).bind
    rintro ⟨left, right⟩ ⟨left', right'⟩ ⟨hleft, hright⟩
    apply (inStep_onEmitter (Emitter.inStep_arithmetic hleft hright op)).bind
    rintro r _ rfl
    exact inStep_push (.register r)

def MethodAlike (p : NamePair) (m m' : InstanceInfo × Signature) : Prop :=
  m.1.Alike p m'.1 ∧ m'.2 = m.2

theorem inStep_ownMethod? (p : NamePair) (n : String) :
    InStep p (Option.Rel (MethodAlike p)) (ownMethod? n) (ownMethod? n) := by
  unfold ownMethod?
  apply Mirrors.get.bind
  intro c c' hc
  rcases optionRel_cases hc.table.instance? with ⟨hi, hi'⟩ | ⟨i, i', hi, hi', halike⟩
  · rw [hi, hi']
    exact .pure .none
  · rw [hi, hi']
    dsimp only
    rw [halike.classId]
    apply (inStep_onTable (SymbolTable.mirrors_classAt p i.classId)).bind
    rintro k _ rfl
    apply Mirrors.pure
    cases k.methods.find? n with
    | none => exact .none
    | some sig => exact .some ⟨halike, rfl⟩

theorem inStep_call (p : NamePair) (n : String) (count : Int) :
    InStep p Eq (call n count) (call n count) := by
  unfold call
  apply (inStep_popMany p count).bind
  intro args args' hargs
  apply (inStep_ownMethod? p n).bind
  intro m m' hm
  rcases optionRel_cases hm with ⟨rfl, rfl⟩ | ⟨⟨i, sig⟩, ⟨i', sig'⟩, rfl, rfl, hi, hsig⟩
  · apply (inStep_onTable (SymbolTable.mirrors_lookupFunction p n)).bind
    rintro sig _ rfl
    apply (inStep_onEmitter (Emitter.inStep_callFunction sig hargs)).bind
    rintro r _ rfl
    exact inStep_push (.register r)
  · obtain rfl : sig' = sig := hsig
    apply (inStep_onEmitter (Emitter.inStep_callMethod hi.name sig' hargs)).bind
    rintro r _ rfl
    exact inStep_push (.register r)

theorem inStep_callMethod {inst : String} (hinst : p.Fixes inst) (method : String) (count : Int) :
    InStep p Eq (callMethod inst method count) (callMethod inst method count) := by
  unfold callMethod
  apply (inStep_popMany p count).bind
  intro args args' hargs
  apply (inStep_onTable (SymbolTable.mirrors_lookupInstance hinst)).bind
  intro i i' hi
  rw [hi.classId]
  apply (inStep_onTable (SymbolTable.mirrors_classAt p i.classId)).bind
  rintro k _ rfl
  cases k.methods.find? method with
  | none => exact .reject rfl
  | some sig =>
    apply (inStep_onEmitter (Emitter.inStep_callMethod hi.name sig hargs)).bind
    rintro r _ rfl
    exact inStep_push (.register r)

/-! ## Statements -/

theorem inStep_rebind {b b' : Binding} (h : b.Alike p b') :
    InStep p Eq (onTable (SymbolTable.rebind b)) (onTable (SymbolTable.rebind b')) :=
  inStep_onTable (SymbolTable.mirrors_rebind h)

theorem inStep_assignTo {b b' : Binding} {value value' : Operand} (hb : b.Alike p b')
    (hvalue : value.Alike p value') : InStep p Eq (assignTo b value) (assignTo b' value') := by
  unfold assignTo
  apply (inStep_onEmitter (Emitter.inStep_assign hb hvalue)).bind
  intro next next' hnext
  exact inStep_rebind hnext

theorem alike_program {g : Global} (hinst : g.inst = "") (hindex : g.index = none) :
    g.Alike p g := by
  refine ⟨"", none, ?_, ?_, ?_⟩
  · rw [hinst]
    exact .empty p
  · rw [hindex]
    exact .none
  · rw [← hinst, ← hindex]

/-- Where no class body is run, the new instance has not been declared. -/
theorem Alike.fixes (h : c.Alike p c') (hnone : c.table.instance? = none) (x : String) :
    p.Fixes x := by
  intro hdeclared
  have hrunning := h.table.running hdeclared
  rw [hnone] at hrunning
  cases hrunning

theorem inStep_declareScalar (p : NamePair) (n : String) (type : DataType) :
    InStep p (Binding.Alike p) (declareScalar n type) (declareScalar n type) := by
  unfold declareScalar
  apply Mirrors.get.bind
  intro c c' hc
  apply Mirrors.ite (by rw [hc.emitter.inFunction_eq])
  · intro _
    apply (inStep_onTable (SymbolTable.mirrors_declareLocal p _)).bind
    intro _ _ _
    apply (inStep_onEmitter (Emitter.inStep_declareStorage (.slot _) true)).bind
    intro _ _ _
    exact .pure (.slot _)
  intro _
  rcases optionRel_cases hc.table.instance? with ⟨hi, hi'⟩ | ⟨i, i', hi, hi', halike⟩
  · rw [hi, hi']
    have hg : (Global.ofVariable n type).Alike p (Global.ofVariable n type) :=
      alike_program rfl rfl
    apply (inStep_onTable (SymbolTable.mirrors_declareGlobal hg (hc.fixes hi _))).bind
    intro _ _ _
    apply (inStep_onEmitter (Emitter.inStep_declareStorage (.global hg) true)).bind
    intro _ _ _
    exact .pure (.global hg)
  · rw [hi, hi']
    dsimp only
    rw [halike.classId]
    have hg := Global.Alike.forInstance halike.name
      (show (Global.ofVariable n type).index = none from rfl) i.classId
    apply (inStep_onTable (SymbolTable.mirrors_declareField hg)).bind
    intro _ _ _
    apply (inStep_onEmitter (Emitter.inStep_declareField hg)).bind
    intro _ _ _
    exact .pure (.global hg)

theorem inStep_declareVariable (p : NamePair) (n : String) (hasInit : Bool) :
    InStep p Eq (declareVariable n hasInit) (declareVariable n hasInit) := by
  unfold declareVariable
  apply Mirrors.ite Iff.rfl
  · intro _
    apply (inStep_pop p).bind
    intro value value' hvalue
    rw [hvalue.type_eq]
    apply (inStep_declareScalar p n value.type).bind
    intro b b' hb
    exact inStep_assignTo hb hvalue
  · intro _
    apply (inStep_declareScalar p n .unresolved).bind
    intro _ _ _
    exact .pure rfl

theorem inStep_declareArray (p : NamePair) (n : String) (type : DataType) (length count : Int) :
    InStep p Eq (declareArray n type length count) (declareArray n type length count) := by
  unfold declareArray
  apply (inStep_popMany p count).bind
  intro elements elements' helements
  apply (inStep_requireOutside p _).bind
  intro _ _ _
  apply (inStep_requireScalar p _ _ _).bind
  intro _ _ _
  apply Mirrors.require_bind Iff.rfl rfl
  intro _
  dsimp only
  rw [helements.length_eq]
  apply Mirrors.get.bind
  intro c c' hc
  rcases optionRel_cases hc.table.instance? with ⟨hi, hi'⟩ | ⟨i, i', hi, hi', halike⟩
  · rw [hi, hi']
    have hg (l : Int) : (Global.ofArray n type l).Alike p (Global.ofArray n type l) :=
      alike_program rfl rfl
    apply (inStep_onTable (SymbolTable.mirrors_declareGlobal (hg _) (hc.fixes hi _))).bind
    intro _ _ _
    apply (inStep_onEmitter (Emitter.inStep_declareArray (hg _) helements _)).bind
    intro declared declared' hdeclared
    exact inStep_rebind (.global hdeclared)
  · rw [hi, hi']
    dsimp only
    rw [halike.classId]
    have hg (l : Int) := Global.Alike.forInstance halike.name
      (show (Global.ofArray n type l).index = none from rfl) i.classId
    apply (inStep_onTable (SymbolTable.mirrors_declareField (hg _))).bind
    intro _ _ _
    apply (inStep_onEmitter (Emitter.inStep_declareArray (hg _) helements _)).bind
    intro declared declared' hdeclared
    exact inStep_rebind (.global hdeclared)

theorem inStep_assign (p : NamePair) (n : String) : InStep p Eq (assign n) (assign n) := by
  unfold assign
  apply (inStep_pop p).bind
  intro value value' hvalue
  apply (inStep_onTable (SymbolTable.mirrors_lookup p n)).bind
  intro b b' hb
  exact inStep_assignTo hb hvalue

theorem inStep_assignElement (p : NamePair) (array : String) :
    InStep p Eq (assignElement array) (assignElement array) := by
  unfold assignElement
  apply (inStep_popPair p).bind
  rintro ⟨index, value⟩ ⟨index', value'⟩ ⟨hindex, hvalue⟩
  apply (inStep_arrayElement hindex array).bind
  intro g g' hg
  apply (inStep_onEmitter (Emitter.inStep_assign (.global hg) hvalue)).bind
  intro _ _ _
  exact .pure rfl

theorem inStep_assignMember {inst : String} (hinst : p.Fixes inst) (field : String) :
    InStep p Eq (assignMember inst field) (assignMember inst field) := by
  unfold assignMember
  apply (inStep_pop p).bind
  intro value value' hvalue
  apply (inStep_instanceField hinst field).bind
  intro g g' hg
  exact inStep_assignTo (.global hg) hvalue

theorem inStep_print (p : NamePair) : InStep p Eq print print := by
  unfold print
  apply (inStep_pop p).bind
  intro value value' hvalue
  exact inStep_onEmitter (Emitter.inStep_print hvalue)

theorem inStep_scan (p : NamePair) (type : DataType) (n : String) :
    InStep p Eq (scan type n) (scan type n) := by
  unfold scan
  apply (inStep_requireScalar p _ _ _).bind
  intro _ _ _
  apply (inStep_onTable (SymbolTable.mirrors_lookup p n)).bind
  intro b b' hb
  apply (inStep_onEmitter (Emitter.inStep_scan hb type)).bind
  intro next next' hnext
  exact inStep_rebind hnext

theorem inStep_beginCondition (p : NamePair) : InStep p Eq beginCondition beginCondition := by
  unfold beginCondition
  apply Mirrors.get.bind
  intro c c' hc
  apply Mirrors.ite (by rw [hc.emitter.conditionOpen_eq])
  · intro _
    exact .throw (.refl _)
  · intro _
    exact inStep_onEmitter (Emitter.inStep_openCondition p)

theorem inStep_compare (p : NamePair) (token : String) :
    InStep p Eq (compare token) (compare token) := by
  unfold compare
  cases Comparison.ofToken? token with
  | none => exact .reject rfl
  | some op =>
    apply (inStep_popPair p).bind
    rintro ⟨left, right⟩ ⟨left', right'⟩ ⟨hleft, hright⟩
    exact inStep_onEmitter (Emitter.inStep_compare hleft hright op)

theorem inStep_ret (p : NamePair) : InStep p Eq ret ret := by
  unfold ret
  apply (inStep_pop p).bind
  intro value value' hvalue
  apply (inStep_onEmitter (Emitter.inStep_ret hvalue)).bind
  intro _ _ _
  apply Mirrors.update
  rintro c _ ⟨ht, he, hs⟩
  exact ⟨ht, he, hs⟩

/-! ## Functions -/

theorem inStep_checkParams (p : NamePair) (params : List Param) :
    InStep p Eq (checkParams params) (checkParams params) := by
  induction params with
  | nil => exact .pure rfl
  | cons q rest ih =>
    apply (inStep_requireScalar p _ _ _).bind
    intro _ _ _
    exact ih

theorem inStep_checkSignature (p : NamePair) (n : String) (result : DataType)
    (params : List Param) :
    InStep p Eq (checkSignature n result params) (checkSignature n result params) := by
  apply (inStep_requireScalar p _ _ _).bind
  intro _ _ _
  exact inStep_checkParams p params

theorem inStep_declareLocals (p : NamePair) (locals : List Local) :
    InStep p Eq (declareLocals locals) (declareLocals locals) := by
  induction locals with
  | nil => exact .pure rfl
  | cons l rest ih =>
    apply (inStep_onTable (SymbolTable.mirrors_declareLocal p l)).bind
    intro _ _ _
    exact ih

theorem inStep_openBody (p : NamePair) (n : String) (result : DataType) (params : List Param) :
    InStep p Eq (openBody n result params) (openBody n result params) := by
  unfold openBody
  apply Mirrors.get.bind
  intro c c' hc
  rcases optionRel_cases hc.table.instance? with ⟨hi, hi'⟩ | ⟨i, i', hi, hi', halike⟩
  · rw [hi, hi']
    apply (inStep_checkSignature p n result params).bind
    intro _ _ _
    apply (inStep_onTable (SymbolTable.mirrors_declareFunction p _)).bind
    intro _ _ _
    apply (inStep_onEmitter (Emitter.inStep_openFunction (.refl p _) _ params)).bind
    rintro locals _ rfl
    exact .pure rfl
  · rw [hi, hi']
    dsimp only
    rw [halike.classId]
    apply (inStep_onTable (SymbolTable.mirrors_classAt p i.classId)).bind
    rintro k _ rfl
    cases k.methods.find? n with
    | none => exact .throw (.refl _)
    | some sig =>
      apply (inStep_onEmitter (Emitter.inStep_openFunction
        (NamePair.alike_method halike.name sig.name) sig params)).bind
      rintro locals _ rfl
      exact .pure rfl

theorem inStep_declareFunction (p : NamePair) (n : String) (result : DataType)
    (params : List Param) :
    InStep p Eq (declareFunction n result params) (declareFunction n result params) := by
  unfold declareFunction
  apply (inStep_requireOutside p _).bind
  intro _ _ _
  apply (inStep_openBody p n result params).bind
  rintro ⟨sig, locals⟩ _ rfl
  refine Mirrors.bind (Q := Eq) (Mirrors.update ?_) ?_
  · rintro c _ ⟨ht, he, hs⟩
    exact ⟨ht.withLocals _, he, hs⟩
  intro _ _ _
  apply (inStep_declareLocals p locals).bind
  intro _ _ _
  apply Mirrors.update
  rintro c _ ⟨ht, he, hs⟩
  exact ⟨ht, he, hs⟩

theorem inStep_endFunction (p : NamePair) : InStep p Eq endFunction endFunction := by
  unfold endFunction
  apply Mirrors.get.bind
  rintro c _ ⟨-, -, -⟩
  dsimp only
  cases c.function with
  | none => exact .reject rfl
  | some f =>
    apply Mirrors.require_bind Iff.rfl rfl
    intro _
    apply (inStep_onEmitter (Emitter.inStep_endFunction p)).bind
    intro _ _ _
    apply Mirrors.update
    rintro c _ ⟨ht, he, hs⟩
    exact ⟨ht.withLocals none, he, hs⟩

/-! ## Notifications -/

/-- A notification that does not refer to the new instance is compiled in both runs alike. -/
theorem inStep_construct {cmd : Command}
    (hkind : cmd.kind ∉ [.beginClass, .endClass, .declareInstance, .endProgram])
    (htarget : p.Fixes cmd.target) : InStep p Eq (construct cmd) (construct cmd) := by
  unfold construct
  cases hcmd : cmd.kind with
  | int => exact inStep_int p _
  | real => exact inStep_real p _
  | name => exact inStep_name p _
  | element => exact inStep_element p _
  | member => exact inStep_member htarget _
  | arith => exact inStep_arith p _
  | call => exact inStep_call p _ _
  | callMethod => exact inStep_callMethod htarget _ _
  | declareVariable => exact inStep_declareVariable p _ _
  | declareArray => exact inStep_declareArray p _ _ _ _
  | assign => exact inStep_assign p _
  | assignElement => exact inStep_assignElement p _
  | assignMember => exact inStep_assignMember htarget _
  | print => exact inStep_print p
  | scan => exact inStep_scan p _ _
  | beginCondition => exact inStep_beginCondition p
  | compare => exact inStep_compare p _
  | endIf => exact inStep_onEmitter (Emitter.inStep_endControl p _)
  | endWhile => exact inStep_onEmitter (Emitter.inStep_endControl p _)
  | ret => exact inStep_ret p
  | declareFunction => exact inStep_declareFunction p _ _ _
  | endFunction => exact inStep_endFunction p
  | beginClass | endClass => simp [hcmd] at hkind
  | declareInstance | endProgram => simp [hcmd] at hkind
  | unknown n => exact .throw (.refl _)

end Compilation

end MkCompiler
