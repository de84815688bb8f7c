import MkCompiler.Proofs.Edits

/-!
# Failures of the compiler itself

A compilation stays in order whichever notifications it is handed, and also behind those that it
refuses. In this order an operation can fail only by refusing the program or the stream, with three
exceptions: a list of operands that is too long for any memory, a function that was left half open by
a refused declaration, and a field of an instance without a name. The symbol table changes by edits
alone, and operands on the stack have types that code can be generated for.
-/

namespace MkCompiler

open MkCompiler.Action

namespace Emitter

theorem ensures_rebind (b : Binding) (type : DataType) (e : Emitter) :
    Ensures (rebind b type) e fun b' _ => b' = b.rebound type := by
  unfold rebind Binding.rebound
  rw [ensures_ite]
  constructor
  · intro hsame
    rw [if_pos hsame, ensures_ite]
    constructor
    · intro hkept
      rw [if_pos hkept, ensures_pure]
    · intro hkept
      rw [if_neg hkept, ensures_pure]
  · intro hother
    rw [if_neg hother, ensures_bind]
    intro _ e' _
    rw [ensures_pure]

theorem ensures_assign {left : Binding} (h : left.kind = .array ∨ left.kind = .variable)
    (right : Operand) (e : Emitter) : Ensures (assign left right) e fun b _ =>
      left.kind = .variable ∧ b = left.rebound right.type := by
  have hvariable (e : Emitter) :
      Ensures (assignVariable left right) e fun b _ => b = left.rebound right.type := by
    unfold assignVariable
    rw [ensures_bind]
    refine (ensures_rebind left right.type e).mono ?_
    rintro _ e₁ rfl
    rw [ensures_bind]
    intro v e₂ _
    rw [ensures_bind]
    intro _ e₃ _
    rw [ensures_pure]
  unfold assign
  rw [ensures_bind]
  intro _ e₁ _
  cases left with
  | slot l => exact (hvariable e₁).mono fun _ _ hb => ⟨rfl, hb⟩
  | global g =>
    have hkind : g.kind = .array ∨ g.kind = .variable := h
    dsimp only
    rcases hkind with hkind | hkind
    · rw [hkind]
      exact ensures_reject.mpr trivial
    · rw [hkind]
      exact (hvariable e₁).mono fun _ _ hb => ⟨hkind, hb⟩

theorem ensures_scan {target : Binding} (h : target.kind = .array ∨ target.kind = .variable)
    (type : DataType) (e : Emitter) : Ensures (scan type target) e fun b _ =>
      target.kind = .variable ∧ b = target.rebound type.storage := by
  have hrebound (e : Emitter) : Ensures (do
      let b ← rebind target type.storage
      return (b, b.pointer)) e fun r _ => r.1 = target.rebound type.storage := by
    rw [ensures_bind]
    refine (ensures_rebind target type.storage e).mono ?_
    rintro _ e₁ rfl
    exact ensures_pure.mpr rfl
  have hplace (e : Emitter) : Ensures (scanTarget type.storage target) e fun r _ =>
      target.kind = .variable ∧ r.1 = target.rebound type.storage := by
    cases target with
    | slot l => exact (hrebound e).mono fun _ _ hr => ⟨rfl, hr⟩
    | global g =>
      have hkind : g.kind = .array ∨ g.kind = .variable := h
      refine ensures_ite.mpr ⟨fun hvariable => ?_, fun hvariable => ?_⟩
      · exact (hrebound e).mono fun _ _ hr => ⟨hvariable, hr⟩
      · rw [ensures_bind, ensures_require]
        intro harray
        exact absurd (hkind.resolve_right hvariable) harray
  unfold scan
  rw [ensures_bind, ensures_require]
  intro _
  rw [ensures_bind]
  refine (hplace e).mono ?_
  rintro ⟨b, p⟩ e₁ hb
  rw [ensures_bind]
  intro n e₂ _
  rw [ensures_bind]
  intro symbols e₃ _
  rw [ensures_bind]
  intro _ e₄ _
  exact ensures_pure.mpr hb

theorem ensures_declareArray (array : Global) (length : Int) (elements : List Operand)
    (e : Emitter) : Ensures (declareArray array length elements) e fun declared _ =>
      declared = { array with
        kind := .array
        length := if length = 0 then (elements.length : Int) else length } ∧
      0 < declared.length ∧ (elements.length : Int) ≤ declared.length := by
  unfold declareArray
  rw [ensures_bind, ensures_get]
  split
  · exact ensures_reject.mpr trivial
  · simp only [ensures_bind, ensures_require, ensures_modify, ensures_pure]
    intro _ hpositive hcount _ _ _ _ _ _
    exact ⟨trivial, hpositive, hcount⟩

theorem declareField_owned {g : Global} (h : g.inst ≠ "") :
    declareField g = declareVariable (.global g) :=
  if_neg h

theorem declareField_unowned {g : Global} (h : g.inst = "") (e : Emitter) :
    declareField g e = .error (.internal (.fieldWithoutInstance g.name)) e := by
  unfold declareField
  rw [if_pos h]
  rfl

theorem ensures_element (array : Binding) (index : Operand) (e : Emitter) :
    Ensures (element array index) e fun g _ => ∃ g₀, array = .global g₀ ∧ g₀.kind = .array ∧
      index.type.storage = .int ∧ g = g₀.element index := by
  unfold element
  split
  · exact ensures_reject.mpr trivial
  · next g₀ =>
    simp only [ensures_bind, ensures_require]
    intro hkind htype _ e₁ _
    split
    · rw [ensures_bind, ensures_require]
      intro _
      exact ensures_pure.mpr ⟨g₀, rfl, hkind, htype, rfl⟩
    · exact ensures_pure.mpr ⟨g₀, rfl, hkind, htype, rfl⟩

/-- The variables of the parameters have types that code can be generated for. -/
theorem ensures_openFunction_lowered (name : GlobalName) (sig : Signature) (params : List Param)
    (e : Emitter) : Ensures (openFunction name sig params) e fun locals _ =>
      ∀ l ∈ locals, l.type.isLowered = true := by
  have hchecked (params : List Param) (e : Emitter) : Ensures (checkParams sig.name params) e
      fun _ _ => ∀ p ∈ params, p.type.isLowered = true := by
    induction params generalizing e with
    | nil => exact ensures_pure.mpr (by simp)
    | cons p rest ih =>
      rw [checkParams, ensures_bind, ensures_require]
      intro hp
      refine (ih e).mono ?_
      intro _ _ hrest
      simpa using ⟨hp.1, hrest⟩
  have hparams : Ensures (openFunction name sig params) e fun _ _ =>
      ∀ p ∈ params, p.type.isLowered = true := by
    rw [openFunction, ensures_bind, ensures_get]
    split
    · exact ensures_reject.mpr trivial
    · rw [ensures_bind, ensures_require]
      intro _
      rw [ensures_bind]
      refine (hchecked params e).mono ?_
      intro _ _ hlowered _ _ _
      exact hlowered
  intro locals e' hrun
  obtain ⟨-, -, -, -, -, -, -, -, -, rfl⟩ := ensures_openFunction name sig params e locals e' hrun
  intro l hl
  obtain ⟨p, hp, rfl⟩ := List.mem_map.mp hl
  exact hparams _ e' hrun p hp

end Emitter

namespace Compilation

variable {α : Type} {S : Command → Prop} {owner : Option (String × Nat)} {orderly : Prop}
  {c c' : Compilation}

/-- The state of a compilation is in order. `owner` is the instance whose class body is being run,
with the handle of its class. A compilation that is `orderly` has not refused anything so far: then
it knows the function whose body is open. -/
structure Sound (S : Command → Prop) (owner : Option (String × Nat)) (orderly : Prop)
    (c : Compilation) : Prop where
  built : c.table.Built S
  records : c.WellRecorded
  emitter : c.emitter.Steady c.table.locals.isSome c.program.isSome
  stack : ∀ op ∈ c.stack, op.Proper ∧ op.Typed
  place : c.table.place = owner
  function : orderly → c.function.isSome = c.table.locals.isSome

theorem sound_start (file : String) (symbols : RuntimeSymbols) :
    (start file symbols).Sound S none True where
  built := .refl
  records := wellRecorded_start file symbols
  emitter := Emitter.steady_start symbols
  stack := by
    intro op hop
    cases hop
  place := rfl
  function := fun _ => rfl

theorem Sound.table (h : c.Sound S owner orderly) : c.table.Sound S :=
  h.built.holds (SymbolTable.editClosed_sound S) SymbolTable.sound_start

theorem Sound.typed (h : c.Sound S owner orderly) : c.table.Typed :=
  h.built.holds (SymbolTable.editClosed_typed S) SymbolTable.typed_start

theorem Sound.toOperand (h : c.Sound S owner orderly) {b : Binding} (hb : c.table.Has b) :
    b.toOperand.Proper ∧ b.toOperand.Typed := by
  refine ⟨(h.table.in_of_has hb).proper, ?_⟩
  have hlowered := h.typed.bindings b hb
  cases b with
  | slot l => exact hlowered
  | global g =>
    rw [Binding.toOperand, Global.toOperand, (h.typed.stored g hb).2]
    exact hlowered

theorem Sound.disorderly (h : c.Sound S owner orderly) : c.Sound S owner False :=
  { h with function := False.elim }

/-- More operands are asked for than there are, and than any memory holds. -/
def ExceedsMemory (count : Int) (c : Compilation) : Prop :=
  operandLimit < count ∧ c.stack.length < count

/-- A description of failures that allows for every refusal. -/
def Continues (S : Command → Prop) (owner : Option (String × Nat)) (E : Failure → Compilation → Prop) :
    Prop :=
  ∀ f c, f.isReturned = true → c.Sound S owner False → E f c

theorem continues_trivial : Continues S owner fun _ _ => True :=
  fun _ _ _ _ => trivial

abbrev StaysSound (S : Command → Prop) (owner : Option (String × Nat)) (orderly : Prop)
    (x : Action Compilation α) (c : Compilation) (E : Failure → Compilation → Prop) : Prop :=
  Ends x c (fun _ c' => c'.Sound S owner orderly) E

section Operations

variable {Q : α → Compilation → Prop} {E : Failure → Compilation → Prop}
  (he : Continues S owner E) (hc : c.Sound S owner orderly)
include he hc

theorem ends_require_of {p : Prop} [Decidable p] {v : Violation} {Q : Unit → Compilation → Prop}
    (hq : p → Q () c) : Ends (require p v : Action Compilation Unit) c Q E := by
  rw [ends_require]
  exact ⟨hq, fun _ => he _ _ rfl hc.disorderly⟩

theorem ends_rejected (v : Violation) : Ends (reject v : Action Compilation α) c Q E :=
  he _ _ rfl hc.disorderly

theorem of_refused {f : Failure} (h : Refused c f c') : E f c' := by
  obtain ⟨rfl, v, rfl⟩ := h
  exact he _ _ rfl hc.disorderly

theorem of_declined (hdisorder : ¬orderly → E (.fault .absentFunction) c) {f : Failure}
    (h : Declined c f c') : E f c' := by
  obtain ⟨rfl, hrejected | ⟨hinside, hfunction, rfl⟩⟩ := h
  · exact he _ _ (Failure.isReturned_of_isRejection hrejected) hc.disorderly
  · apply hdisorder
    intro horderly
    have hlocals := hc.function horderly
    rw [hfunction, ← hc.emitter.inside] at hlocals
    exact absurd (hlocals.trans hinside) (by simp)

omit he in
theorem Sound.withStack {stack : List Operand} (h : ∀ op ∈ stack, op.Proper ∧ op.Typed) :
    ({ c with stack } : Compilation).Sound S owner orderly :=
  { hc with stack := h }

omit he in
theorem stays_push {op : Operand} (h : op.Proper ∧ op.Typed) :
    StaysSound S owner orderly (push op) c E := by
  rw [push, StaysSound, ends_modify]
  apply hc.withStack
  intro op' hop'
  rcases List.mem_cons.mp hop' with rfl | hold
  · exact h
  · exact hc.stack op' hold

theorem ends_pop {Q : Operand → Compilation → Prop}
    (hq : ∀ op stack, op.Proper → op.Typed →
      ({ c with stack } : Compilation).Sound S owner orderly → Q op { c with stack }) :
    Ends pop c Q E := by
  rw [pop, ends_bind, ends_get]
  cases hstack : c.stack with
  | nil => exact he _ _ rfl hc.disorderly
  | cons op stack =>
    have hall := hc.stack
    rw [hstack] at hall
    obtain ⟨hproper, htyped⟩ := hall op List.mem_cons_self
    apply hq op stack hproper htyped
    apply hc.withStack
    intro op' hop'
    exact hall op' (List.mem_cons_of_mem _ hop')

theorem ends_popPair {Q : Operand × Operand → Compilation → Prop}
    (hq : ∀ left right stack, left.Proper ∧ left.Typed → right.Proper ∧ right.Typed →
      ({ c with stack } : Compilation).Sound S owner orderly →
      Q (left, right) { c with stack }) : Ends popPair c Q E := by
  rw [popPair, ends_bind]
  apply ends_pop he hc
  intro right stack hright hright' hc₁
  rw [ends_bind]
  apply ends_pop he hc₁
  intro left stack' hleft hleft' hc₂
  exact hq left right stack' ⟨hleft, hleft'⟩ ⟨hright, hright'⟩ hc₂

theorem ends_popMany {count : Int} {Q : List Operand → Compilation → Prop}
    (hmemory : ExceedsMemory count c → E (.fault .memory) c)
    (hq : ∀ ops stack, (∀ op ∈ ops, op.Proper ∧ op.Typed) →
      ({ c with stack } : Compilation).Sound S owner orderly → Q ops { c with stack }) :
    Ends (popMany count) c Q E := by
  rw [popMany, ends_bind, ends_get, ends_ite]
  refine ⟨fun _ => he _ _ rfl hc.disorderly, fun _ => ?_⟩
  rw [ends_ite]
  constructor
  · intro _
    rw [ends_bind, ends_set, ends_pure]
    apply hq
    · intro op hop
      exact hc.stack op (List.mem_of_mem_take (List.mem_reverse.mp hop))
    · apply hc.withStack
      intro op hop
      exact hc.stack op (List.mem_of_mem_drop hop)
  · intro hstack
    rw [ends_ite]
    refine ⟨fun hlimit => hmemory ⟨hlimit, Int.not_le.mp hstack⟩, fun _ => ?_⟩
    rw [ends_bind, ends_set]
    apply he _ _ rfl
    exact (hc.withStack (by simp)).disorderly

theorem ends_outside {violation : String → Violation} {Q : Unit → Compilation → Prop}
    (hdisorder : ¬orderly → E (.fault .absentFunction) c) (hq : Q () c) :
    Ends (requireOutside violation) c Q E := by
  apply (ends_requireOutside violation c).mono
  · rintro _ _ ⟨rfl, -⟩
    exact hq
  · exact fun _ _ => of_declined he hc hdisorder

theorem ends_requireScalar {type : DataType} {place : TypedPlace} {name : String}
    {Q : Unit → Compilation → Prop} (hq : type.IsScalar → Q () c) :
    Ends (requireScalar type place name) c Q E :=
  ends_require_of he hc hq

theorem ends_onEmitter {R : α → Prop} {x : Action Emitter α}
    (hx : Emitter.StaysSteady c.table.locals.isSome c.program.isSome x)
    (hr : ∀ e, Ensures x e fun a _ => R a)
    (hq : ∀ a e, R a → ({ c with emitter := e } : Compilation).Sound S owner orderly →
      Q a { c with emitter := e }) : Ends (onEmitter x) c Q E := by
  rw [onEmitter, ends_zoom]
  apply ((hx c.emitter hc.emitter).ensures (hr _)).mono
  · intro a e h
    exact hq a e h.2 { hc with emitter := h.1 }
  · intro f e h
    apply he _ _ (Failure.isReturned_of_isRejection h.1)
    exact { hc.disorderly with emitter := h.2 }

theorem stays_onEmitter {x : Action Emitter α}
    (hx : Emitter.StaysSteady c.table.locals.isSome c.program.isSome x) :
    StaysSound S owner orderly (onEmitter x) c E :=
  ends_onEmitter he hc (R := fun _ => True) hx (fun _ _ _ _ => trivial) fun _ _ _ h => h

omit he in
theorem Sound.withTable {t : SymbolTable} (hedit : SymbolTable.Edit S c.table t)
    (hsimilar : c.table.Similar t) :
    ({ c with table := t } : Compilation).Sound S owner orderly where
  built := hc.built.tail hedit
  records := by
    rw [WellRecorded, hsimilar.classes, hsimilar.classNames]
    exact hc.records
  emitter := by
    rw [hsimilar.locals]
    exact hc.emitter
  stack := hc.stack
  place := hsimilar.place.trans hc.place
  function := by
    intro horderly
    rw [hsimilar.locals]
    exact hc.function horderly

theorem ends_onTable {x : Action SymbolTable Unit} {R : SymbolTable → Prop}
    (hx : SymbolTable.EndsInOrder S x c.table R) {Q : Unit → Compilation → Prop}
    (hq : ∀ t, c.table.Similar t → R t →
      ({ c with table := t } : Compilation).Sound S owner orderly → Q () { c with table := t }) :
    Ends (onTable x) c Q E := by
  rw [onTable, ends_zoom]
  apply Ends.mono hx
  · rintro _ t ⟨hedit, hsimilar, hr⟩
    exact hq t hsimilar hr (hc.withTable hedit hsimilar)
  · rintro f t ⟨hrejects, rfl⟩
    exact he _ _ (Failure.isReturned_of_isRejection hrejects) hc.disorderly

theorem ends_lookup {name : String} {Q : Binding → Compilation → Prop}
    (hq : ∀ b, c.table.Has b → Q b c) : Ends (onTable (SymbolTable.lookup name)) c Q E := by
  rw [onTable, ends_zoom, SymbolTable.lookup, ends_bind, ends_get]
  cases hb : c.table.resolve? name with
  | none => exact he _ _ rfl hc.disorderly
  | some b => exact hq b (SymbolTable.has_of_resolve? hb)

theorem ends_arrayElement {array : String} {index : Operand} (hindex : index.Proper)
    {Q : Global → Compilation → Prop}
    (hq : ∀ (g : Global) e, g.toOperand.Proper ∧ g.toOperand.Typed →
      (Binding.global g).Assignable c.table.locals.isSome →
      ({ c with emitter := e } : Compilation).Sound S owner orderly →
      Q g { c with emitter := e }) : Ends (arrayElement array index) c Q E := by
  rw [arrayElement, ends_bind]
  apply ends_lookup he hc
  intro b hb
  apply ends_onEmitter he hc (Emitter.keeps_element b index) (Emitter.ensures_element b index)
  rintro _ e ⟨g, rfl, -, -, rfl⟩ hc₁
  exact hq _ e ⟨hindex, hc.typed.bindings _ hb⟩ (.inr ⟨index, rfl, rfl, hindex⟩) hc₁

theorem ends_instanceField {inst field : String} {Q : Global → Compilation → Prop}
    (hq : ∀ g : Global, c.table.Has (.global g) → Q g c) :
    Ends (instanceField inst field) c Q E := by
  rw [instanceField, ends_bind, onTable, ends_zoom]
  apply SymbolTable.ends_lookupInstance
  · intro i hi
    cases hfield : i.fields.find? field with
    | none => exact he _ _ rfl hc.disorderly
    | some g => exact hq g (.field hi hfield)
  · intro v
    exact he _ _ rfl hc.disorderly

omit he in
theorem ends_classAt (name : String) {inst : InstanceInfo}
    (hinst : c.table.instances.find? name = some inst) {Q : ClassInfo → Compilation → Prop}
    (hq : ∀ k, c.table.classes[inst.classId]? = some k → Q k c) :
    Ends (onTable (SymbolTable.classAt inst.classId)) c Q E := by
  obtain ⟨-, hid⟩ := hc.table.instances name inst hinst
  have hk := List.getElem?_eq_getElem hid
  rw [onTable, ends_zoom]
  exact SymbolTable.ends_classAt hk (hq _ hk)

theorem stays_rebound {b : Binding} {type : DataType} (hb : c.table.Has b)
    (htype : type.isLowered = true) :
    StaysSound S owner orderly (onTable (SymbolTable.rebind (b.rebound type))) c E := by
  apply ends_onTable he hc
  · exact SymbolTable.ends_rebind hc.table hb (hc.typed.replaces_rebound hb htype)
  · intro t _ _ hc₁
    exact hc₁

theorem stays_assignTo {b : Binding} {value : Operand} (hb : c.table.Has b)
    (hvalue : value.Proper) (htyped : value.Typed) :
    StaysSound S owner orderly (assignTo b value) c E := by
  have hin := hc.table.in_of_has hb
  rw [assignTo, StaysSound, ends_bind]
  apply ends_onEmitter he hc (Emitter.keeps_assign Emitter.reports_rejects hin.assignable hvalue)
    (Emitter.ensures_assign hin.kind value)
  rintro _ e ⟨-, rfl⟩ hc₁
  exact stays_rebound he hc₁ hb htyped.isLowered

end Operations

/-! ## Constructs -/

/-- A notification takes more operands than there are on the stack, and than any memory holds. -/
def TakesTooMany (cmd : Command) (c : Compilation) : Prop :=
  cmd.kind ∈ [.call, .callMethod, .declareArray] ∧ ExceedsMemory cmd.count c

/-- How a notification can fail while its construct is compiled. -/
inductive Admits (orderly : Prop) (owner : Option (String × Nat)) (cmd : Command)
    (c : Compilation) : Failure → Prop
  | returned {f : Failure} (h : f.isReturned = true) : Admits orderly owner cmd c f
  | memory (h : TakesTooMany cmd c) : Admits orderly owner cmd c (.fault .memory)
  | disorder (h : ¬orderly) : Admits orderly owner cmd c (.fault .absentFunction)
  | field {id : Nat} (howner : owner = some ("", id)) (hkind : cmd.kind = .declareVariable) :
      Admits orderly owner cmd c (.internal (.fieldWithoutInstance cmd.name))

section Constructs

variable {E : Failure → Compilation → Prop} (he : Continues S owner E)
  (hc : c.Sound S owner orderly)
include he hc

theorem stays_name (name : String) : StaysSound S owner orderly (Compilation.name name) c E := by
  rw [Compilation.name, StaysSound, ends_bind]
  apply ends_lookup he hc
  intro b hb
  exact stays_push hc (hc.toOperand hb)

theorem stays_element (array : String) : StaysSound S owner orderly (element array) c E := by
  rw [element, StaysSound, ends_bind]
  apply ends_pop he hc
  intro index stack hindex _ hc₁
  rw [ends_bind]
  apply ends_arrayElement he hc₁ hindex
  intro g e hg _ hc₂
  exact stays_push hc₂ hg

theorem stays_member (inst field : String) :
    StaysSound S owner orderly (member inst field) c E := by
  rw [member, StaysSound, ends_bind]
  apply ends_instanceField he hc
  intro g hg
  exact stays_push hc (hc.toOperand hg)

theorem stays_arith (token : String) : StaysSound S owner orderly (arith token) c E := by
  unfold arith
  cases ArithOp.ofToken? token with
  | none => exact ends_rejected he hc _
  | some op =>
    dsimp only
    rw [StaysSound, ends_bind]
    apply ends_popPair he hc
    intro left right stack hleft hright hc₁
    rw [ends_bind]
    apply ends_onEmitter he hc₁
      (Emitter.keeps_arithmetic (Emitter.writeClosed_steady _ _)
        (Emitter.admitted_of_proper hleft.1) (Emitter.admitted_of_proper hright.1) op)
      (Emitter.ensures_arithmetic hleft.2 hright.2 op)
    rintro r e ⟨-, -, hr⟩ hc₂
    refine stays_push hc₂ ⟨trivial, ?_⟩
    rw [Operand.Typed, hr]
    exact op.isScalar_resultType _ _

theorem stays_pushResult {x : Action Emitter Register} {args : List Operand} {sig : Signature}
    (hsig : sig.IsScalar) (hx : Emitter.StaysSteady c.table.locals.isSome c.program.isSome x)
    (hr : ∀ e, Ensures x e fun r _ => sig.Accepts args ∧ r.type = sig.result.storage) :
    StaysSound S owner orderly (do let r ← onEmitter x; push (.register r)) c E := by
  rw [StaysSound, ends_bind]
  apply ends_onEmitter he hc hx hr
  rintro r e ⟨-, hr⟩ hc₁
  refine stays_push hc₁ ⟨trivial, ?_⟩
  rw [Operand.Typed, hr]
  exact DataType.isScalar_storage hsig.1.isLowered

theorem stays_callOf (inst : String) {args : List Operand} {k : ClassInfo} {name : String}
    {sig : Signature} (hargs : ∀ op ∈ args, op.Proper ∧ op.Typed) (hk : k ∈ c.table.classes)
    (hsig : k.methods.find? name = some sig) :
    StaysSound S owner orderly (do
      let r ← onEmitter (Emitter.callMethod inst sig args)
      push (.register r)) c E := by
  have hscalar := hc.typed.methods k hk name sig hsig
  exact stays_pushResult he hc hscalar
    (Emitter.keeps_callMethod inst (Emitter.admits_of_proper sig fun op hop => (hargs op hop).1)
      (.inl hscalar.1.isLowered))
    (Emitter.ensures_callMethod (fun op hop => (hargs op hop).2) inst hscalar.1.isLowered)

theorem stays_call (name : String) {count : Int}
    (hmemory : ExceedsMemory count c → E (.fault .memory) c) :
    StaysSound S owner orderly (call name count) c E := by
  rw [call, StaysSound, ends_bind]
  apply ends_popMany he hc hmemory
  intro args stack hargs hc₁
  have hfunction : StaysSound S owner orderly (do
      let sig ← onTable (SymbolTable.lookupFunction name)
      let r ← onEmitter (Emitter.callFunction sig args)
      push (.register r)) { c with stack } E := by
    rw [StaysSound, ends_bind, onTable, ends_zoom]
    apply SymbolTable.ends_lookupFunction
    · intro sig hsig
      exact stays_pushResult he hc₁ (hc.typed.functions name sig hsig).1
        (Emitter.keeps_callFunction (Emitter.writeClosed_steady _ _)
          (Emitter.admits_of_proper sig fun op hop => (hargs op hop).1))
        (Emitter.ensures_callFunction (fun op hop => (hargs op hop).2) sig)
    · intro v
      exact he _ _ rfl hc₁.disorderly
  rw [ends_bind, ownMethod?, ends_bind, ends_get]
  cases hinst : c.table.instance? with
  | none => exact hfunction
  | some inst =>
    obtain ⟨o, -, ho⟩ := Option.bind_eq_some_iff.mp hinst
    dsimp only
    rw [ends_bind]
    apply ends_classAt hc₁ o ho
    intro k hk
    rw [ends_pure]
    cases hsig : k.methods.find? name with
    | none => exact hfunction
    | some sig => exact stays_callOf he hc₁ _ hargs (List.mem_of_getElem? hk) hsig

theorem stays_callMethod (inst method : String) {count : Int}
    (hmemory : ExceedsMemory count c → E (.fault .memory) c) :
    StaysSound S owner orderly (callMethod inst method count) c E := by
  rw [callMethod, StaysSound, ends_bind]
  apply ends_popMany he hc hmemory
  intro args stack hargs hc₁
  rw [ends_bind, onTable, ends_zoom]
  apply SymbolTable.ends_lookupInstance
  · intro i hi
    rw [ends_bind]
    apply ends_classAt hc₁ _ hi
    intro k hk
    cases hsig : k.methods.find? method with
    | none => exact ends_rejected he hc₁ _
    | some sig => exact stays_callOf he hc₁ _ hargs (List.mem_of_getElem? hk) hsig
  · intro v
    exact he _ _ rfl hc₁.disorderly

/-- A variable is declared in the scope that is being compiled. A field needs an instance with a
name. -/
theorem ends_declareScalar {name : String} {type : DataType} (htype : type.isLowered = true)
    {Q : Binding → Compilation → Prop}
    (hfield : ∀ id c', owner = some ("", id) → c'.Sound S owner False →
      E (.internal (.fieldWithoutInstance name)) c')
    (hq : ∀ (b : Binding) t e, t.Has b →
      ({ c with table := t, emitter := e } : Compilation).Sound S owner orderly →
      Q b { c with table := t, emitter := e }) :
    Ends (declareScalar name type) c Q E := by
  have hdeclared {x : Action Emitter Unit} {b : Binding} {t : SymbolTable} (hb : t.Has b)
      (hx : Emitter.StaysSteady t.locals.isSome c.program.isSome x)
      (hc₁ : ({ c with table := t } : Compilation).Sound S owner orderly) :
      Ends (do onEmitter x; return b) { c with table := t } Q E := by
    rw [ends_bind]
    apply ends_onEmitter he hc₁ (R := fun _ => True) hx fun _ _ _ _ => trivial
    intro _ e _ hc₂
    exact hq b t e hb hc₂
  rw [declareScalar, ends_bind, ends_get, ends_ite]
  constructor
  · intro hinside
    have hlocals : c.table.locals.isSome = true := hc.emitter.inside.symm.trans hinside
    rw [ends_bind]
    apply ends_onTable he hc (SymbolTable.ends_declareLocal htype)
    intro t ht hb hc₁
    have hstorable : (Binding.slot ⟨name, type, 0⟩).Storable t.locals.isSome :=
      ht.locals.trans hlocals
    exact hdeclared hb (Emitter.keeps_declareStorage Emitter.reports_rejects hstorable true) hc₁
  · intro _
    cases hinst : c.table.instance? with
    | some inst =>
      dsimp only
      rw [ends_bind]
      apply ends_onTable he hc
        (SymbolTable.ends_declareField hinst ⟨rfl, rfl, ⟨.inl rfl, rfl⟩, htype⟩)
      intro t ht hb hc₁
      by_cases hempty : inst.name = ""
      · have hrun := Emitter.declareField_unowned (g := { (Global.ofVariable name type).forInstance
          inst.name with classId := inst.classId }) hempty c.emitter
        rw [ends_bind, onEmitter, ends_zoom, ends_of_error hrun]
        apply hfield inst.classId
        · rw [← hc.place, SymbolTable.place, hinst, ← hempty]
          rfl
        · exact hc₁.disorderly
      · rw [Emitter.declareField_owned hempty]
        exact hdeclared hb (Emitter.keeps_declareVariable Emitter.reports_rejects rfl) hc₁
    | none =>
      dsimp only
      rw [ends_bind]
      apply ends_onTable he hc (SymbolTable.ends_declareGlobal ⟨rfl, rfl, ⟨.inl rfl, rfl⟩, htype⟩)
      intro t ht hb hc₁
      exact hdeclared hb (Emitter.keeps_declareVariable Emitter.reports_rejects rfl) hc₁

theorem stays_declareVariable (name : String) (hasInit : Bool)
    (hfield : ∀ id c', owner = some ("", id) → c'.Sound S owner False →
      E (.internal (.fieldWithoutInstance name)) c') :
    StaysSound S owner orderly (declareVariable name hasInit) c E := by
  rw [declareVariable, StaysSound, ends_ite]
  constructor
  · intro _
    rw [ends_bind]
    apply ends_pop he hc
    intro value stack hvalue htyped hc₁
    rw [ends_bind]
    apply ends_declareScalar he hc₁ htyped.isLowered hfield
    intro b t e hb hc₂
    exact stays_assignTo he hc₂ hb hvalue htyped
  · intro _
    rw [ends_bind]
    apply ends_declareScalar he hc rfl hfield
    intro b t e _ hc₁
    exact hc₁

theorem stays_declareArray (name : String) (type : DataType) (length : Int) {count : Int}
    (hmemory : ExceedsMemory count c → E (.fault .memory) c)
    (hdisorder : ∀ c', ¬orderly → c'.Sound S owner False → E (.fault .absentFunction) c') :
    StaysSound S owner orderly (declareArray name type length count) c E := by
  have hdeclared {array : Global} {length : Int} {elements : List Operand} {c : Compilation}
      (hc : c.Sound S owner orderly) (helements : ∀ op ∈ elements, op.Proper ∧ op.Typed)
      (harray : c.table.Has (.global array)) :
      StaysSound S owner orderly (do
        let declared ← onEmitter (Emitter.declareArray array length elements)
        onTable (SymbolTable.rebind (.global declared))) c E := by
    rw [StaysSound, ends_bind]
    apply ends_onEmitter he hc
      (Emitter.keeps_declareArray Emitter.reports_rejects (fun op hop => (helements op hop).1)
        (.inl fun _ => rfl))
      (Emitter.ensures_declareArray array length elements)
    rintro _ e ⟨rfl, -⟩ hc₁
    apply ends_onTable he hc₁
    · exact SymbolTable.ends_rebind hc₁.table harray (.global rfl rfl rfl
        ⟨.inr rfl, (hc.typed.stored array harray).2⟩ (hc.typed.bindings _ harray))
    · intro t _ _ hc₂
      exact hc₂
  rw [declareArray, StaysSound, ends_bind]
  apply ends_popMany he hc hmemory
  intro elements stack helements hc₁
  rw [ends_bind]
  apply ends_outside he hc₁ (fun h => hdisorder _ h hc₁.disorderly)
  rw [ends_bind]
  apply ends_requireScalar he hc₁
  intro hscalar
  rw [ends_bind]
  apply ends_require_of he hc₁
  intro _
  rw [ends_bind, ends_get]
  cases hinst : c.table.instance? with
  | some inst =>
    dsimp only
    rw [ends_bind]
    apply ends_onTable he hc₁
      (SymbolTable.ends_declareField hinst ⟨rfl, rfl, ⟨.inr rfl, rfl⟩, hscalar.isLowered⟩)
    intro t _ harray hc₂
    exact hdeclared hc₂ helements harray
  | none =>
    dsimp only
    rw [ends_bind]
    apply ends_onTable he hc₁
      (SymbolTable.ends_declareGlobal ⟨rfl, rfl, ⟨.inr rfl, rfl⟩, hscalar.isLowered⟩)
    intro t _ harray hc₂
    exact hdeclared hc₂ helements harray

theorem stays_assign (name : String) : StaysSound S owner orderly (assign name) c E := by
  rw [assign, StaysSound, ends_bind]
  apply ends_pop he hc
  intro value stack hvalue htyped hc₁
  rw [ends_bind]
  apply ends_lookup he hc₁
  intro b hb
  exact stays_assignTo he hc₁ hb hvalue htyped

theorem stays_assignElement (array : String) :
    StaysSound S owner orderly (assignElement array) c E := by
  rw [assignElement, StaysSound, ends_bind]
  apply ends_popPair he hc
  intro index value stack hindex hvalue hc₁
  rw [ends_bind]
  apply ends_arrayElement he hc₁ hindex.1
  intro g e _ hg hc₂
  rw [ends_bind]
  apply (stays_onEmitter he hc₂ (Emitter.keeps_assign Emitter.reports_rejects hg hvalue.1)).mono
  · intro _ c₃ hc₃
    exact hc₃
  · intro f c₃ hf
    exact hf

theorem stays_assignMember (inst field : String) :
    StaysSound S owner orderly (assignMember inst field) c E := by
  rw [assignMember, StaysSound, ends_bind]
  apply ends_pop he hc
  intro value stack hvalue htyped hc₁
  rw [ends_bind]
  apply ends_instanceField he hc₁
  intro g hg
  exact stays_assignTo he hc₁ hg hvalue htyped

theorem stays_print : StaysSound S owner orderly print c E := by
  rw [print, StaysSound, ends_bind]
  apply ends_pop he hc
  intro value stack hvalue _ hc₁
  exact stays_onEmitter he hc₁ (Emitter.keeps_print (Emitter.writeClosed_steady _ _)
    (Emitter.admitted_of_proper hvalue))

theorem stays_scan (type : DataType) (name : String) :
    StaysSound S owner orderly (scan type name) c E := by
  rw [scan, StaysSound, ends_bind]
  apply ends_requireScalar he hc
  intro hscalar
  rw [ends_bind]
  apply ends_lookup he hc
  intro b hb
  have hin := hc.table.in_of_has hb
  rw [ends_bind]
  apply ends_onEmitter he hc (Emitter.steady_scan type hin.assignable)
    (Emitter.ensures_scan hin.kind type)
  rintro _ e ⟨-, rfl⟩ hc₁
  exact stays_rebound he hc₁ hb hscalar.isLowered

theorem stays_beginCondition : StaysSound S owner orderly beginCondition c E := by
  rw [beginCondition, StaysSound, ends_bind, ends_get, ends_ite]
  refine ⟨fun _ => he _ _ rfl hc.disorderly, fun hopen => ?_⟩
  rw [onEmitter, ends_zoom]
  apply (Emitter.ends_openCondition hc.emitter (eq_false_of_ne_true hopen)).mono
  · intro _ e h
    exact { hc with emitter := h.1 }
  · intro _ _ hfalse
    exact hfalse.elim

theorem stays_compare (token : String) : StaysSound S owner orderly (compare token) c E := by
  unfold compare
  cases Comparison.ofToken? token with
  | none => exact ends_rejected he hc _
  | some op =>
    dsimp only
    rw [StaysSound, ends_bind]
    apply ends_popPair he hc
    intro left right stack hleft hright hc₁
    exact stays_onEmitter he hc₁ (Emitter.steady_compare hleft.1 hright.1 op)

theorem stays_ret : StaysSound S owner orderly ret c E := by
  rw [ret, StaysSound, ends_bind]
  apply ends_pop he hc
  intro value stack hvalue _ hc₁
  rw [ends_bind]
  apply (stays_onEmitter he hc₁ (Emitter.steady_ret hvalue)).mono
  · intro _ c₂ hc₂
    exact { hc₂ with }
  · intro f c₂ hf
    exact hf

theorem ends_declareLocals {locals : List Local}
    (hlocals : ∀ l ∈ locals, l.type.isLowered = true) {Q : Unit → Compilation → Prop}
    (hq : ∀ t, c.table.Similar t → ({ c with table := t } : Compilation).Sound S owner orderly →
      Q () { c with table := t }) : Ends (declareLocals locals) c Q E := by
  induction locals generalizing c with
  | nil => exact hq c.table (.refl _) hc
  | cons l rest ih =>
    rw [declareLocals, ends_bind]
    apply ends_onTable he hc (SymbolTable.ends_declareLocal (hlocals l (by simp)))
    intro t ht _ hc₁
    apply ih hc₁
    · intro l' hl'
      exact hlocals l' (by simp [hl'])
    · intro t' ht' hc₂
      exact hq t' (ht.trans ht') hc₂

/-- The body of a function is opened in the emitter first. A method has been declared together with
its class. -/
theorem ends_openBody {name : String} {result : DataType} {params : List Param}
    {Q : Signature × List Local → Compilation → Prop}
    (hmethod : ∀ o id k, owner = some (o, id) → c.table.classes[id]? = some k →
      (k.methods.find? name).isSome = true)
    (hq : ∀ sig locals t e, (∀ l ∈ locals, l.type.isLowered = true) →
      ({ c with table := t } : Compilation).Sound S owner orderly →
      e.Steady true c.program.isSome → Q (sig, locals) { c with table := t, emitter := e }) :
    Ends (openBody name result params) c Q E := by
  have hopen {c : Compilation} (hc : c.Sound S owner orderly) (symbol : GlobalName)
      (sig : Signature) {Q : List Local → Compilation → Prop}
      (hq : ∀ locals e, (∀ l ∈ locals, l.type.isLowered = true) →
        e.Steady true c.program.isSome → Q locals { c with emitter := e }) :
      Ends (onEmitter (Emitter.openFunction symbol sig params)) c Q E := by
    rw [onEmitter, ends_zoom]
    apply ((Emitter.ends_openFunction (F := Emitter.Rejects) hc.emitter symbol sig params
      (.inl fun _ => rfl)).ensures (Emitter.ensures_openFunction_lowered symbol sig params _)).mono
    · rintro locals e ⟨h, hlocals⟩
      exact hq locals e hlocals h
    · intro f e h
      apply he _ _ (Failure.isReturned_of_isRejection h.1)
      exact { hc.disorderly with emitter := h.2 }
  rw [openBody, ends_bind, ends_get]
  cases hinst : c.table.instance? with
  | some inst =>
    obtain ⟨o, hcurrent, ho⟩ := Option.bind_eq_some_iff.mp hinst
    dsimp only
    rw [ends_bind]
    apply ends_classAt hc _ ho
    intro k hk
    have hplace : owner = some (inst.name, inst.classId) := by
      rw [← hc.place, SymbolTable.place, hinst]
      rfl
    obtain ⟨sig, hsig⟩ := Option.isSome_iff_exists.mp (hmethod _ _ k hplace hk)
    rw [hsig]
    dsimp only
    rw [ends_bind]
    apply hopen hc
    intro locals e hlocals h
    exact hq _ locals c.table e hlocals hc h
  | none =>
    dsimp only
    rw [ends_bind]
    apply (ends_checkSignature name result params c).mono
    · rintro _ _ ⟨rfl, hscalar⟩
      rw [ends_bind]
      apply ends_onTable he hc (SymbolTable.ends_declareFunction hscalar)
      intro t _ _ hc₁
      rw [ends_bind]
      apply hopen hc₁
      intro locals e hlocals h
      exact hq _ locals t e hlocals hc₁ h
    · exact fun _ _ => of_refused he hc

theorem stays_declareFunction (name : String) (result : DataType) (params : List Param)
    (hdisorder : ∀ c', ¬orderly → c'.Sound S owner False → E (.fault .absentFunction) c')
    (hmethod : ∀ o id k, owner = some (o, id) → c.table.classes[id]? = some k →
      (k.methods.find? name).isSome = true) :
    StaysSound S owner orderly (declareFunction name result params) c E := by
  rw [declareFunction, StaysSound, ends_bind]
  apply ends_outside he hc fun h => hdisorder _ h hc.disorderly
  rw [ends_bind]
  apply ends_openBody he hc hmethod
  intro sig locals t e hlocals hc₁ hsteady
  dsimp only
  rw [ends_bind, ends_modify, ends_bind]
  -- Until the parameters are bound the compilation does not know which function is open.
  have hc₂ : ({ c with table := t.enterFunction, emitter := e } : Compilation).Sound
      S owner False :=
    ⟨hc₁.built.tail .enter, hc₁.records, hsteady, hc₁.stack, hc₁.place, False.elim⟩
  apply ends_declareLocals he hc₂ hlocals
  intro t' ht' hc₃
  exact { hc₃ with function := fun _ => ht'.locals.symm }

theorem stays_endFunction : StaysSound S owner orderly endFunction c E := by
  rw [endFunction, StaysSound, ends_bind, ends_get]
  cases hfunction : c.function with
  | none => exact ends_rejected he hc _
  | some f =>
    dsimp only
    rw [ends_bind]
    apply ends_require_of he hc
    intro _
    rw [ends_bind, onEmitter, ends_zoom]
    apply (Emitter.ends_endFunction hc.emitter).mono
    · intro _ e h
      exact ⟨hc.built.tail .leave, hc.records, h, hc.stack, hc.place, fun _ => rfl⟩
    · intro f e h
      apply he _ _ (Failure.isReturned_of_isRejection h.1)
      exact { hc.disorderly with emitter := h.2 }

end Constructs

/-- Every notification but those that open or close a class, declare an instance or end the program
is compiled in order, or fails in one of the ways described. -/
theorem ends_construct {cmd : Command}
    (hkind : cmd.kind ∉ [.beginClass, .endClass, .declareInstance, .endProgram])
    (hc : c.Sound S owner orderly)
    (hmethod : ∀ o id k, owner = some (o, id) → c.table.classes[id]? = some k →
      cmd.kind = .declareFunction → (k.methods.find? cmd.name).isSome = true) :
    StaysSound S owner orderly (construct cmd) c
      fun f c' => Admits orderly owner cmd c f ∧ c'.Sound S owner False := by
  have he : Continues S owner fun f c' => Admits orderly owner cmd c f ∧ c'.Sound S owner False :=
    fun f c hf hc => ⟨.returned hf, hc⟩
  have hmemory (hkind : cmd.kind ∈ [.call, .callMethod, .declareArray])
      (h : ExceedsMemory cmd.count c) :
      Admits orderly owner cmd c (.fault .memory) ∧ c.Sound S owner False :=
    ⟨.memory ⟨hkind, h⟩, hc.disorderly⟩
  have hdisorder (c' : Compilation) (h : ¬orderly) (hc' : c'.Sound S owner False) :
      Admits orderly owner cmd c (.fault .absentFunction) ∧ c'.Sound S owner False :=
    ⟨.disorder h, hc'⟩
  unfold construct
  cases hcmd : cmd.kind with
  | int =>
    dsimp only [int]
    cases hl : Literal.int? cmd.text with
    | none => exact ends_rejected he hc _
    | some l =>
      obtain ⟨v, -, rfl⟩ := Option.map_eq_some_iff.mp hl
      exact stays_push hc ⟨trivial, rfl⟩
  | real =>
    dsimp only [real]
    cases hl : Literal.real? cmd.text with
    | none => exact ends_rejected he hc _
    | some l =>
      obtain ⟨v, -, rfl⟩ := Option.map_eq_some_iff.mp hl
      exact stays_push hc ⟨trivial, rfl⟩
  | name => exact stays_name he hc _
  | element => exact stays_element he hc _
  | member => exact stays_member he hc _ _
  | arith => exact stays_arith he hc _
  | call => exact stays_call he hc _ (hmemory (by simp [hcmd]))
  | callMethod => exact stays_callMethod he hc _ _ (hmemory (by simp [hcmd]))
  | declareVariable =>
    apply stays_declareVariable he hc
    intro id c' howner hc'
    exact ⟨.field howner hcmd, hc'⟩
  | declareArray => exact stays_declareArray he hc _ _ _ (hmemory (by simp [hcmd])) hdisorder
  | assign => exact stays_assign he hc _
  | assignElement => exact stays_assignElement he hc _
  | assignMember => exact stays_assignMember he hc _ _
  | print => exact stays_print he hc
  | scan => exact stays_scan he hc _ _
  | beginCondition => exact stays_beginCondition he hc
  | compare => exact stays_compare he hc _
  | endIf => exact stays_onEmitter he hc (Emitter.steady_endControl _)
  | endWhile => exact stays_onEmitter he hc (Emitter.steady_endControl _)
  | ret => exact stays_ret he hc
  | declareFunction =>
    apply stays_declareFunction he hc _ _ _ hdisorder
    intro o id k howner hk
    exact hmethod o id k howner hk hcmd
  | endFunction => exact stays_endFunction he hc
  | unknown n => exact he _ _ rfl hc.disorderly
  | _ => exact absurd (by simp [hcmd]) hkind

end Compilation

end MkCompiler
