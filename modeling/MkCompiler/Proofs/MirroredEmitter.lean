import MkCompiler.Proofs.MirroredOutput

/-!
# Mirrored code

Reading and writing of operands, control flow, functions and calls. Operands that are counterparts
get code that is the same up to the names of cells and methods, and the registers that hold the
results are the same.
-/

namespace MkCompiler.Emitter

open MkCompiler.Action

variable {p : NamePair}

/-! ## Values -/

theorem inStep_address {c c' : Cell} (h : c.Alike p c') (index : Value) :
    InStep p Eq (address c index) (address c' index) := by
  have hsymbol := h.symbol
  obtain ⟨inst, -, rfl⟩ := h
  unfold address
  apply (inStep_fresh p).bind
  rintro wide _ rfl
  apply (inStep_emit_same p _).bind
  intro _ _ _
  apply (inStep_fresh p).bind
  rintro n _ rfl
  apply (inStep_emit (NamePair.alike_element hsymbol n _ _ _)).bind
  intro _ _ _
  exact .pure rfl

theorem inStep_value_slot {l l' : Local} (htype : l'.type = l.type)
    (hslot : p.Alike l.slot.spelling l'.slot.spelling) :
    InStep p Eq (value (.slot l)) (value (.slot l')) := by
  have hcheck : InStep p Eq (checkLowered (.slot l)) (checkLowered (.slot l')) :=
    inStep_checkLowered htype rfl
  unfold value
  apply hcheck.bind
  intro _ _ _
  rw [htype]
  exact inStep_loadFrom hslot l.type

theorem inStep_value {op op' : Operand} (h : op.Alike p op') :
    InStep p Eq (value op) (value op') := by
  induction h with
  | literal l =>
    unfold value
    apply (inStep_checkLowered rfl rfl).bind
    intro _ _ _
    exact .pure rfl
  | @global c c' h =>
    have hop : (Operand.global c).Alike p (.global c') := .global h
    have hsymbol := h.symbol
    obtain ⟨inst, -, rfl⟩ := h
    unfold value
    apply (inStep_checkLowered hop.type_eq hop.kind_eq).bind
    intro _ _ _
    apply Mirrors.ite Iff.rfl
    · intro _
      exact .throw (.refl _)
    · intro _
      exact inStep_loadFrom hsymbol c.type
  | @element c c' i i' h hi ih =>
    have hop : (Operand.element c i).Alike p (.element c' i') := .element h hi
    have hsymbol := h.symbol
    have hcell := h
    obtain ⟨inst, -, rfl⟩ := h
    unfold value
    apply (inStep_checkLowered hop.type_eq hop.kind_eq).bind
    intro _ _ _
    apply Mirrors.ite Iff.rfl
    · intro _
      apply ih.bind
      rintro v _ rfl
      apply (inStep_address hcell v).bind
      rintro q _ rfl
      exact inStep_loadFrom (.refl p _) c.type
    · intro _
      exact inStep_loadFrom hsymbol c.type
  | slot l => exact inStep_value_slot rfl (.refl p _)
  | register r =>
    unfold value
    apply (inStep_checkLowered rfl rfl).bind
    intro _ _ _
    exact inStep_load p r

theorem inStep_elementPointer {g g' : Global} (h : g.Alike p g') :
    InStep p Eq (elementPointer g) (elementPointer g') := by
  have hcell := h.toCell
  obtain ⟨inst, index, -, hindex, rfl⟩ := h
  unfold elementPointer
  rcases optionRel_cases hindex with ⟨hi, rfl⟩ | ⟨i, i', hi, rfl, hop⟩
  · rw [hi]
    exact .throw (.refl _)
  · rw [hi]
    apply (inStep_value hop).bind
    rintro v _ rfl
    exact inStep_address hcell v

theorem inStep_copy (op op' : Operand) (htype : op'.type = op.type) (hkind : op'.kind = op.kind)
    (hvalue : InStep p Eq (value op) (value op')) :
    InStep p Eq
      (do
        checkLowered op
        let slot ← allocate op.type.storage
        let v ← value op
        store slot.type v (.frame slot.slot)
        return slot)
      (do
        checkLowered op'
        let slot ← allocate op'.type.storage
        let v ← value op'
        store slot.type v (.frame slot.slot)
        return slot) := by
  apply (inStep_checkLowered htype hkind).bind
  intro _ _ _
  rw [htype]
  apply (inStep_allocate p _).bind
  rintro slot _ rfl
  apply hvalue.bind
  rintro v _ rfl
  apply (inStep_store_same p _ _ _).bind
  intro _ _ _
  exact .pure rfl

theorem inStep_materialize_slot {l l' : Local} (htype : l'.type = l.type)
    (hslot : p.Alike l.slot.spelling l'.slot.spelling) :
    InStep p Eq (materialize (.slot l)) (materialize (.slot l')) :=
  inStep_copy (.slot l) (.slot l') htype rfl (inStep_value_slot htype hslot)

theorem inStep_materialize {op op' : Operand} (h : op.Alike p op') :
    InStep p Eq (materialize op) (materialize op') := by
  have hcopy := inStep_copy op op' h.type_eq h.kind_eq (inStep_value h)
  cases h with
  | register r => exact .pure rfl
  | literal l | slot l => exact hcopy
  | global h | element h _ => exact hcopy

theorem inStep_cast (p : NamePair) (r : Register) (target : DataType) :
    InStep p Eq (cast r target) (cast r target) := by
  unfold cast
  apply Mirrors.ite Iff.rfl
  · intro _
    exact .pure rfl
  intro _
  apply (inStep_allocate p _).bind
  rintro slot _ rfl
  apply (inStep_load p r).bind
  rintro v _ rfl
  apply (inStep_fresh p).bind
  rintro n _ rfl
  apply (inStep_emit_same p _).bind
  intro _ _ _
  apply (inStep_store_same p _ _ _).bind
  intro _ _ _
  exact .pure rfl

theorem inStep_widen {left left' right right' : Operand} (hleft : left.Alike p left')
    (hright : right.Alike p right') (force : Bool) :
    InStep p Eq (widen left right force) (widen left' right' force) := by
  unfold widen
  apply (inStep_materialize hleft).bind
  rintro l _ rfl
  apply (inStep_materialize hright).bind
  rintro r _ rfl
  apply Mirrors.ite Iff.rfl
  · intro _
    apply (inStep_cast p l .real).bind
    rintro l _ rfl
    apply (inStep_cast p r .real).bind
    rintro r _ rfl
    exact .pure rfl
  · intro _
    exact .pure rfl

theorem inStep_arithmetic {left left' right right' : Operand} (hleft : left.Alike p left')
    (hright : right.Alike p right') (op : ArithOp) :
    InStep p Eq (arithmetic left op right) (arithmetic left' op right') := by
  unfold arithmetic
  apply (inStep_widen hleft hright _).bind
  rintro ⟨l, r⟩ _ rfl
  dsimp only
  cases op.opcode? l.type with
  | none => exact .throw (.refl _)
  | some opcode =>
    apply (inStep_allocate p _).bind
    rintro result _ rfl
    apply (inStep_load p l).bind
    rintro lv _ rfl
    apply (inStep_load p r).bind
    rintro rv _ rfl
    apply (inStep_fresh p).bind
    rintro n _ rfl
    apply (inStep_emit_same p _).bind
    intro _ _ _
    apply (inStep_store_same p _ _ _).bind
    intro _ _ _
    exact .pure rfl

theorem inStep_element {b b' : Binding} {index index' : Operand} (hb : b.Alike p b')
    (hindex : index.Alike p index') :
    InStep p (Global.Alike p) (element b index) (element b' index') := by
  cases hb with
  | slot l => exact .reject rfl
  | @global g g' h =>
    have hglobal := h.element hindex
    obtain ⟨inst, i, -, -, rfl⟩ := h
    apply Mirrors.require_bind Iff.rfl rfl
    intro _
    apply Mirrors.require_bind (by rw [hindex.type_eq]) (by rfl)
    intro _
    apply (inStep_checkLowered hindex.type_eq hindex.kind_eq).bind
    intro _ _ _
    cases hindex with
    | literal l =>
      apply Mirrors.require_bind Iff.rfl rfl
      intro _
      exact .pure hglobal
    | slot l | register r => exact .pure hglobal
    | global h | element h _ => exact .pure hglobal

/-! ## Variables -/

theorem inStep_declareStorage {b b' : Binding} (h : b.Alike p b') (zeroed : Bool) :
    InStep p Eq (declareStorage b zeroed) (declareStorage b' zeroed) := by
  unfold declareStorage
  apply Mirrors.require_bind (by rw [h.type_eq]) (by rfl)
  intro _
  cases h with
  | @global g g' h =>
    have hsymbol := h.toCell.symbol
    obtain ⟨inst, index, -, -, rfl⟩ := h
    apply Mirrors.ite Iff.rfl
    · intro _
      exact inStep_appendHeader (.cell hsymbol _ _)
    · intro _
      exact .throw (.refl _)
  | slot l =>
    apply Mirrors.get.bind
    intro e e' he
    apply Mirrors.ite (by rw [he.inFunction_eq])
    · intro _
      apply (inStep_hoist (.refl p _) _).bind
      intro _ _ _
      apply Mirrors.ite Iff.rfl
      · intro _
        exact inStep_store_same p _ _ _
      · intro _
        exact .pure rfl
    · intro _
      exact .throw (.refl _)

theorem inStep_declareField {g g' : Global} (h : g.Alike p g') :
    InStep p Eq (declareField g) (declareField g') := by
  have hdeclare := inStep_declareStorage (.global h) true
  obtain ⟨inst, index, hinst, -, rfl⟩ := h
  apply Mirrors.ite hinst.eq_empty_iff
  · intro _
    exact .throw (.refl _)
  · intro _
    exact hdeclare

theorem inStep_rebind {b b' : Binding} (h : b.Alike p b') (type : DataType) :
    InStep p (Binding.Alike p) (rebind b type) (rebind b' type) := by
  unfold rebind
  rw [h.type_eq, h.version_eq]
  apply Mirrors.ite Iff.rfl
  · intro _
    apply Mirrors.ite Iff.rfl
    · intro _
      exact .pure h
    · intro _
      exact .pure (h.withVersion _ _)
  · intro _
    apply (inStep_declareStorage (h.withVersion _ _) false).bind
    intro _ _ _
    exact .pure (h.withVersion _ _)

theorem inStep_assignElement {g g' : Global} {right right' : Operand} (h : g.Alike p g')
    (hright : right.Alike p right') :
    InStep p Eq (assignElement g right) (assignElement g' right') := by
  have hpointer := inStep_elementPointer h
  obtain ⟨inst, index, -, -, rfl⟩ := h
  apply Mirrors.require_bind (by rw [hright.type_eq]) (by rfl)
  intro _
  apply (inStep_value hright).bind
  rintro v _ rfl
  apply hpointer.bind
  rintro q _ rfl
  exact inStep_store_same p _ _ _

theorem inStep_assignVariable {left left' : Binding} {right right' : Operand}
    (hleft : left.Alike p left') (hright : right.Alike p right') :
    InStep p (Binding.Alike p) (assignVariable left right) (assignVariable left' right') := by
  unfold assignVariable
  rw [hright.type_eq]
  apply (inStep_rebind hleft right.type).bind
  intro target target' htarget
  apply (inStep_value hright).bind
  rintro v _ rfl
  apply (inStep_store htarget.pointer _ _).bind
  intro _ _ _
  exact .pure htarget

theorem inStep_assign {left left' : Binding} {right right' : Operand}
    (hleft : left.Alike p left') (hright : right.Alike p right') :
    InStep p (Binding.Alike p) (assign left right) (assign left' right') := by
  unfold assign
  apply (inStep_checkLowered hright.type_eq hright.kind_eq).bind
  intro _ _ _
  have hassign := inStep_assignVariable hleft hright
  cases hleft with
  | slot l => exact hassign
  | @global g g' h =>
    have hkind : g'.kind = g.kind := by
      obtain ⟨inst, index, -, -, rfl⟩ := h
      rfl
    dsimp only
    rw [hkind]
    cases g.kind with
    | array => exact .reject rfl
    | arrayElement =>
      apply (inStep_assignElement h hright).bind
      intro _ _ _
      exact .pure (.global h)
    | _ => exact hassign

section Arrays

variable {array array' : Global} {elements elements' : List Operand} (h : array.Alike p array')
  (helements : List.Forall₂ (Operand.Alike p) elements elements')
include h helements

theorem inStep_checkElements (position : Nat) :
    InStep p Eq (checkElements array position elements)
      (checkElements array' position elements') := by
  induction helements generalizing position with
  | nil => exact .pure rfl
  | cons hop _ ih =>
    have htype : array'.type = array.type := by
      obtain ⟨inst, index, -, -, rfl⟩ := h
      rfl
    apply Mirrors.require_bind (by rw [hop.type_eq, htype]) (by rfl)
    intro _
    exact ih (position + 1)

theorem inStep_storeElements (position : Nat) :
    InStep p Eq (storeElements array position elements)
      (storeElements array' position elements') := by
  induction helements generalizing position with
  | nil => exact .pure rfl
  | cons hop _ ih =>
    apply (inStep_assign (.global (h.element (.literal _))) hop).bind
    intro _ _ _
    exact ih (position + 1)

theorem inStep_declareArray (length : Int) :
    InStep p (Global.Alike p) (declareArray array length elements)
      (declareArray array' length elements') := by
  unfold declareArray
  apply Mirrors.get.bind
  intro e e' he
  rcases he.function_cases with ⟨hf, hf'⟩ | ⟨f, context, hf, hf', -⟩
  swap
  · rw [hf, hf']
    exact .reject rfl
  · rw [hf, hf']
    have hcheck := inStep_checkElements h helements 1
    have hdeclared (n : Int) : ({ array with kind := .array, length := n } : Global).Alike p
        { array' with kind := .array, length := n } := by
      obtain ⟨inst, index, hinst, hindex, rfl⟩ := h
      exact ⟨inst, index, hinst, hindex, rfl⟩
    obtain ⟨inst, index, -, -, rfl⟩ := h
    dsimp only
    rw [helements.length_eq]
    apply Mirrors.require_bind Iff.rfl rfl
    intro _
    apply Mirrors.require_bind Iff.rfl rfl
    intro _
    apply Mirrors.require_bind Iff.rfl rfl
    intro _
    apply hcheck.bind
    intro _ _ _
    apply (inStep_appendHeader (.array (hdeclared _).toCell.symbol _ _)).bind
    intro _ _ _
    apply (inStep_storeElements (hdeclared _) helements 0).bind
    intro _ _ _
    exact .pure (hdeclared _)

end Arrays

/-! ## Control flow -/

theorem inStep_openCondition (p : NamePair) : InStep p Eq openCondition openCondition := by
  unfold openCondition
  apply Mirrors.get.bind
  intro e e' he
  apply Mirrors.ite (by rw [he.conditionOpen_eq])
  · intro _
    exact .throw (.refl _)
  intro _
  have hset : InStep p Eq (set { e with labels := e.labels + 1 })
      (set { e' with labels := e'.labels + 1 }) := by
    apply Mirrors.set
    exact ⟨he.symbols, he.output, he.entry, he.function, by rw [he.labels], he.finished⟩
  apply hset.bind
  intro _ _ _
  rw [he.labels]
  apply (inStep_terminate p _).bind
  intro _ _ _
  apply (inStep_placeLabel p _).bind
  intro _ _ _
  exact inStep_modifyActive_same p (fun _ => rfl) fun _ _ => rfl

theorem inStep_takeCondition (p : NamePair) : InStep p Eq takeCondition takeCondition := by
  have hopened : InStep p Eq closeCondition closeCondition := by
    apply Mirrors.get.bind
    intro e e' he
    obtain ⟨results, -, hactive⟩ := he.active
    rw [hactive]
    dsimp only
    cases e.active.openCompare with
    | none => exact .throw (.refl _)
    | some id =>
      refine Mirrors.bind (inStep_modifyActive_same p (fun _ => rfl) fun _ _ => rfl) ?_
      intro _ _ _
      exact .pure rfl
  rw [takeCondition_eq]
  apply Mirrors.get.bind
  intro e e' he
  apply Mirrors.ite (by rw [he.conditionOpen_eq])
  · intro _
    apply (inStep_openCondition p).bind
    intro _ _ _
    exact hopened
  · intro _
    exact hopened

theorem inStep_compare {left left' right right' : Operand} (hleft : left.Alike p left')
    (hright : right.Alike p right') (op : Comparison) :
    InStep p Eq (compare left op right) (compare left' op right') := by
  unfold compare
  apply (inStep_takeCondition p).bind
  rintro id _ rfl
  apply (inStep_widen hleft hright false).bind
  rintro ⟨l, r⟩ _ rfl
  dsimp only
  apply (inStep_load p l).bind
  rintro lv _ rfl
  apply (inStep_load p r).bind
  rintro rv _ rfl
  apply (inStep_fresh p).bind
  rintro n _ rfl
  apply (inStep_emit_same p _).bind
  intro _ _ _
  apply (inStep_terminate p _).bind
  intro _ _ _
  apply (inStep_placeLabel p _).bind
  intro _ _ _
  exact inStep_modifyActive_same p (fun _ => rfl) fun _ _ => rfl

theorem inStep_endControl (p : NamePair) (kind : ControlKind) :
    InStep p Eq (endControl kind) (endControl kind) := by
  unfold endControl
  apply Mirrors.get.bind
  intro e e' he
  obtain ⟨results, -, hactive⟩ := he.active
  rw [hactive]
  dsimp only
  cases e.active.pending with
  | nil => exact .reject rfl
  | cons id pending =>
    refine Mirrors.bind (inStep_modifyActive_same p (fun _ => rfl) fun _ _ => rfl) ?_
    intro _ _ _
    apply (inStep_terminate p _).bind
    intro _ _ _
    exact inStep_placeLabel p _

/-! ## Functions -/

theorem inStep_bindParams (p : NamePair) (position : Nat) (params : List Param) :
    InStep p Eq (bindParams position params) (bindParams position params) := by
  induction params generalizing position with
  | nil => exact .pure rfl
  | cons q rest ih =>
    unfold bindParams
    apply (inStep_emit_same p _).bind
    intro _ _ _
    apply (inStep_store_same p _ _ _).bind
    intro _ _ _
    apply (ih (position + 1)).bind
    rintro locals _ rfl
    exact .pure rfl

theorem inStep_checkParams (p : NamePair) (function : String) (params : List Param) :
    InStep p Eq (checkParams function params) (checkParams function params) := by
  induction params with
  | nil => exact .pure rfl
  | cons q rest ih =>
    apply Mirrors.require_bind Iff.rfl rfl
    intro _
    exact ih

theorem inStep_openFunction {name name' : GlobalName} (h : p.Alike name.spelling name'.spelling)
    (sig : Signature) (params : List Param) :
    InStep p Eq (openFunction name sig params) (openFunction name' sig params) := by
  unfold openFunction
  apply Mirrors.get.bind
  intro e e' he
  rcases he.function_cases with ⟨hf, hf'⟩ | ⟨f, context, hf, hf', -⟩
  swap
  · rw [hf, hf']
    exact .reject rfl
  · rw [hf, hf']
    apply Mirrors.require_bind Iff.rfl rfl
    intro _
    apply (inStep_checkParams p _ _).bind
    intro _ _ _
    refine Mirrors.bind (Q := Eq) (Mirrors.update ?_) ?_
    · intro e e' he
      exact ⟨he.symbols, he.output.select _, he.entry, .some ⟨_, ⟨[], .nil, rfl⟩, rfl⟩, he.labels,
        he.finished⟩
    intro _ _ _
    apply (inStep_onOutput (Assembly.mirrors_hold p)).bind
    intro _ _ _
    apply (inStep_bindParams p 0 params).bind
    rintro locals _ rfl
    apply (inStep_onOutput (Assembly.mirrors_release p)).bind
    intro lines lines' hlines
    apply (inStep_appendLines (.cons (.define h _ _) hlines)).bind
    intro _ _ _
    apply (inStep_onOutput (Assembly.mirrors_mark p)).bind
    rintro slots _ rfl
    refine Mirrors.bind (inStep_modifyActive_same p (fun _ => rfl) fun _ _ => rfl) ?_
    intro _ _ _
    exact .pure rfl

theorem inStep_endFunction (p : NamePair) : InStep p Eq endFunction endFunction := by
  unfold endFunction
  apply Mirrors.get.bind
  intro e e' he
  rcases he.function_cases with ⟨hf, hf'⟩ | ⟨f, context, hf, hf', hcontext⟩
  · rw [hf, hf']
    exact .reject rfl
  · rw [hf, hf']
    obtain ⟨results, -, rfl⟩ := hcontext
    apply Mirrors.require_bind Iff.rfl rfl
    intro _
    have hclose : InStep p Eq
        (do
          modify (appendLines [.close])
          modify fun e => { e with function := none, output := e.output.select .entryBody })
        (do
          modify (appendLines [.close])
          modify fun e => { e with function := none, output := e.output.select .entryBody }) := by
      apply (inStep_appendLines (.cons (.refl p _) .nil)).bind
      intro _ _ _
      apply Mirrors.update
      intro e e' he
      exact ⟨he.symbols, he.output.select _, he.entry, .none, he.labels, he.finished⟩
    apply Mirrors.ite Iff.rfl
    · intro _
      apply (inStep_emit_same p _).bind
      intro _ _ _
      exact hclose
    · intro _
      exact hclose

theorem inStep_capture {α α' : Type} {Q : α → α' → Prop} {x : Action Emitter α}
    {y : Action Emitter α'} (h : InStep p Q x y) :
    InStep p (fun a b => Q a.1 b.1 ∧ List.Forall₂ (Line.Alike p) a.2 b.2) (capture x)
      (capture y) := by
  -- What was captured is lost if the program is rejected, and the run fails in the same way.
  have hcaught : InStep p Q (releasing x) (releasing y) := by
    intro e e' he
    cases hx : x e with
    | ok a s =>
      obtain ⟨b, t, hy, hab, hs⟩ := h.of_ok he hx
      rw [releasing_of_ok hx, releasing_of_ok hy]
      exact ⟨hab, hs⟩
    | error f s =>
      obtain ⟨f', t, hy, hf, hs⟩ := h.of_error he hx
      cases f with
      | rejected v =>
        obtain ⟨v', rfl, hkind⟩ := hf.exists_rejected
        rw [releasing_of_rejected hx, releasing_of_rejected hy]
        apply ((inStep_onOutput (Assembly.mirrors_release p)).bind _) s t hs
        intro _ _ _
        exact .reject hkind
      | stream _ | internal _ | fault _ =>
        obtain rfl := hf.eq_of_ne_rejected (by simp)
        rw [releasing_of_error hx (by simp), releasing_of_error hy (by simp)]
        exact ⟨hf, hs⟩
  rw [capture_eq, capture_eq]
  apply (inStep_onOutput (Assembly.mirrors_hold p)).bind
  intro _ _ _
  apply hcaught.bind
  intro a b hab
  apply (inStep_onOutput (Assembly.mirrors_release p)).bind
  intro lines lines' hlines
  exact .pure ⟨hab, hlines⟩

theorem inStep_ret {op op' : Operand} (h : op.Alike p op') : InStep p Eq (ret op) (ret op') := by
  unfold ret
  apply Mirrors.get.bind
  intro e e' he
  rcases he.function_cases with ⟨hf, hf'⟩ | ⟨f, context, hf, hf', -⟩
  · rw [hf, hf']
    exact .reject rfl
  · rw [hf, hf']
    dsimp only
    have hvalue : InStep p Eq (do load (← cast (← materialize op) f.signature.result.storage))
        (do load (← cast (← materialize op') f.signature.result.storage)) := by
      apply (inStep_materialize h).bind
      rintro r _ rfl
      apply (inStep_cast p r _).bind
      rintro r' _ rfl
      exact inStep_load p r'
    apply (inStep_capture hvalue).bind
    rintro ⟨v, lines⟩ ⟨_, lines'⟩ ⟨rfl, hlines⟩
    dsimp only
    apply (inStep_appendLines (List.rel_append hlines (.cons (.refl p _) .nil))).bind
    intro _ _ _
    exact inStep_modifyActive_same p (fun _ => rfl) fun _ _ => rfl

/-! ## Calls -/

section Calls

variable {args args' : List Operand}

theorem inStep_checkArgTypes (h : List.Forall₂ (Operand.Alike p) args args') (function : String)
    (position : Nat) (types : List DataType) :
    InStep p Eq (checkArgTypes function position args types)
      (checkArgTypes function position args' types) := by
  induction h generalizing position types with
  | nil =>
    unfold checkArgTypes
    exact .pure rfl
  | cons hop _ ih =>
    cases types with
    | nil => exact .pure rfl
    | cons type types =>
      apply Mirrors.require_bind (by rw [hop.type_eq]) (by rfl)
      intro _
      exact ih (position + 1) types

theorem inStep_checkArgs (h : List.Forall₂ (Operand.Alike p) args args') (sig : Signature) :
    InStep p Eq (checkArgs sig args) (checkArgs sig args') := by
  unfold checkArgs
  apply Mirrors.require_bind (by rw [h.length_eq]) (by rfl)
  intro _
  exact inStep_checkArgTypes h _ _ _

theorem inStep_argValues (h : List.Forall₂ (Operand.Alike p) args args') :
    InStep p Eq (argValues args) (argValues args') := by
  induction h with
  | nil => exact .pure rfl
  | cons hop _ ih =>
    unfold argValues
    apply (inStep_materialize hop).bind
    rintro r _ rfl
    apply (inStep_load p r).bind
    rintro v _ rfl
    apply ih.bind
    rintro values _ rfl
    exact .pure rfl

theorem inStep_call {callee callee' : GlobalName}
    (hcallee : p.Alike callee.spelling callee'.spelling) (sig : Signature)
    (h : List.Forall₂ (Operand.Alike p) args args') :
    InStep p Eq (call callee sig args) (call callee' sig args') := by
  unfold call
  apply (inStep_checkArgs h sig).bind
  intro _ _ _
  apply (inStep_argValues h).bind
  rintro values _ rfl
  apply (inStep_fresh p).bind
  rintro n _ rfl
  apply (inStep_emit (NamePair.alike_call hcallee n _ values)).bind
  intro _ _ _
  exact .pure rfl

theorem inStep_callFunction (sig : Signature) (h : List.Forall₂ (Operand.Alike p) args args') :
    InStep p Eq (callFunction sig args) (callFunction sig args') := by
  unfold callFunction
  apply (inStep_call (.refl p _) sig h).bind
  rintro v _ rfl
  apply (inStep_allocate p _).bind
  rintro slot _ rfl
  apply (inStep_store_same p _ _ _).bind
  intro _ _ _
  exact .pure rfl

theorem inStep_callMethod {x x' : String} (hx : p.Counterpart x x') (sig : Signature)
    (h : List.Forall₂ (Operand.Alike p) args args') :
    InStep p Eq (callMethod x sig args) (callMethod x' sig args') := by
  have hslot : p.Alike (LocalName.slot (resultName x sig.name) 0).spelling
      (LocalName.slot (resultName x' sig.name) 0).spelling :=
    NamePair.alike_slot (NamePair.alike_resultName hx sig.name) 0
  -- What follows once the slot is there.
  have hstored (v : Value) : InStep p Eq
      (do
        store sig.result v (.frame (.slot (resultName x sig.name) 0))
        materialize (.slot ⟨resultName x sig.name, sig.result, 0⟩))
      (do
        store sig.result v (.frame (.slot (resultName x' sig.name) 0))
        materialize (.slot ⟨resultName x' sig.name, sig.result, 0⟩)) := by
    apply (inStep_store hslot _ v).bind
    intro _ _ _
    exact inStep_materialize_slot rfl hslot
  unfold callMethod
  apply (inStep_call (NamePair.alike_method hx sig.name) sig h).bind
  rintro v _ rfl
  dsimp only
  apply Mirrors.get.bind
  intro e e' he
  obtain ⟨results, hresults, hactive⟩ := he.active
  rw [hactive]
  apply Mirrors.ite (not_congr (mem_results_iff hx hresults))
  · intro _
    apply (inStep_hoist hslot _).bind
    intro _ _ _
    refine Mirrors.bind (Q := Eq) (inStep_modifyActive ?_) ?_
    · rintro c _ ⟨results, hresults, rfl⟩
      have hname : ResultAlike p (resultName x sig.name) (resultName x' sig.name) :=
        ⟨x, x', sig.name, hx, rfl, rfl⟩
      exact ⟨_, List.rel_append hresults (.cons hname .nil), rfl⟩
    · intro _ _ _
      exact hstored v
  · intro _
    exact hstored v

end Calls

/-! ## Printing and scanning -/

theorem inStep_print {op op' : Operand} (h : op.Alike p op') :
    InStep p Eq (print op) (print op') := by
  unfold print
  apply (inStep_materialize h).bind
  rintro r _ rfl
  apply (inStep_load p r).bind
  rintro v _ rfl
  apply (inStep_fresh p).bind
  rintro n _ rfl
  apply Mirrors.get.bind
  intro e e' he
  rw [he.symbols]
  exact inStep_emit_same p _

def TargetAlike (p : NamePair) (b b' : Binding × Pointer) : Prop :=
  b.1.Alike p b'.1 ∧ p.Alike b.2.spelling b'.2.spelling

theorem inStep_scanTarget {b b' : Binding} (h : b.Alike p b') (type : DataType) :
    InStep p (TargetAlike p) (scanTarget type b) (scanTarget type b') := by
  have hrebound : InStep p (TargetAlike p)
      (do
        let b ← rebind b type
        return (b, b.pointer))
      (do
        let b ← rebind b' type
        return (b, b.pointer)) := by
    apply (inStep_rebind h type).bind
    intro b b' hb
    exact .pure ⟨hb, hb.pointer⟩
  unfold scanTarget
  cases h with
  | slot l => exact hrebound
  | @global g g' h =>
    have hkind : g'.kind = g.kind := by
      obtain ⟨inst, index, -, -, rfl⟩ := h
      rfl
    have htype : g'.type = g.type := by
      obtain ⟨inst, index, -, -, rfl⟩ := h
      rfl
    dsimp only
    rw [hkind, htype]
    apply Mirrors.ite Iff.rfl
    · intro _
      exact hrebound
    · intro _
      apply Mirrors.require_bind Iff.rfl (by rfl)
      intro _
      apply Mirrors.require_bind Iff.rfl (by rfl)
      intro _
      apply (inStep_elementPointer h).bind
      rintro q _ rfl
      exact .pure ⟨.global h, .refl p _⟩

theorem inStep_scan {b b' : Binding} (h : b.Alike p b') (type : DataType) :
    InStep p (Binding.Alike p) (scan type b) (scan type b') := by
  unfold scan
  apply Mirrors.require_bind Iff.rfl rfl
  intro _
  apply (inStep_scanTarget h type.storage).bind
  rintro ⟨b, q⟩ ⟨b', q'⟩ ⟨hb, hq⟩
  dsimp only
  apply (inStep_fresh p).bind
  rintro n _ rfl
  apply Mirrors.get.bind
  intro e e' he
  rw [he.symbols]
  apply (inStep_emit (NamePair.alike_scan hq n _ _ _)).bind
  intro _ _ _
  exact .pure hb

end MkCompiler.Emitter
