import MkCompiler.Compilation.Handle
import MkCompiler.Proofs.Primitives

/-!
# Constructs made of operations

A construct works on the stack, looks names up in the table and runs operations of the emitter. A
property of operations that composes and that these parts have is shared by the constructs.
-/

namespace MkCompiler

open MkCompiler.Action

/-! ## Lookups and checks -/

namespace Action.Composes

section Table

variable {P : ∀ {α : Type}, Action SymbolTable α → Prop}

theorem checkProgramName (h : Composes P) (name : String) :
    P (SymbolTable.checkProgramName name) :=
  h.bind h.get fun _ => h.bind (h.require _ rfl) fun _ => h.bind (h.require _ rfl) fun _ =>
    h.require _ rfl

theorem lookup (h : Composes P) (name : String) : P (SymbolTable.lookup name) := by
  apply h.bind h.get
  intro t
  cases t.resolve? name with
  | none => exact h.reject rfl
  | some b => exact h.pure _

theorem lookupFunction (h : Composes P) (name : String) : P (SymbolTable.lookupFunction name) := by
  apply h.bind h.get
  intro t
  apply h.bind (h.require _ rfl)
  intro _
  cases t.functions.find? name with
  | none => exact h.reject rfl
  | some sig => exact h.pure _

theorem classAt (h : Composes P) (id : Int) : P (SymbolTable.classAt id) := by
  apply h.bind h.get
  intro t
  split
  · exact h.pure _
  · exact h.throw rfl

theorem lookupClass (h : Composes P) (name : String) : P (SymbolTable.lookupClass name) := by
  apply h.bind h.get
  intro t
  cases t.classNames.find? name with
  | none => exact h.reject rfl
  | some id => exact h.classAt _

theorem lookupInstance (h : Composes P) (name : String) : P (SymbolTable.lookupInstance name) := by
  apply h.bind h.get
  intro t
  cases t.instances.find? name with
  | none => exact h.reject rfl
  | some inst => exact h.pure _

end Table

variable {P : ∀ {α : Type}, Action Compilation α → Prop}

theorem onTable (h : Composes P) : Composes fun {_} x => P (Compilation.onTable x) where
  pure a := h.pure a
  get := h.bind h.get fun c => h.pure c.table
  throw hf := h.throw hf
  bind hx hf := by
    rw [Compilation.onTable, zoom_bind]
    · exact h.bind hx hf
    · exact fun _ _ => rfl
    · exact fun _ _ _ => rfl

end Action.Composes

theorem Action.Chains.checkSignature {P : ∀ {α : Type}, Action Compilation α → Prop}
    (h : Chains P) (name : String) (result : DataType) (params : List Param) :
    P (Compilation.checkSignature name result params) := by
  apply h.bind (h.require _ rfl)
  intro _
  induction params with
  | nil => exact h.pure _
  | cons p rest ih => exact h.bind (h.require _ rfl) fun _ => ih

/-! ## Scopes of the table -/

namespace SymbolTable

structure SameStage (t t' : SymbolTable) : Prop where
  classes : t'.classes = t.classes
  classNames : t'.classNames = t.classNames
  current : t'.current = t.current

instance : IsPreorder SymbolTable SameStage where
  refl _ := ⟨rfl, rfl, rfl⟩
  trans _ _ _ h h' := ⟨h'.classes.trans h.classes, h'.classNames.trans h.classNames,
    h'.current.trans h.current⟩

theorem leads_declareGlobal (g : Global) : Leads SameStage (declareGlobal g) :=
  ((composes_leads _).checkProgramName _).bind fun _ => .update fun _ => ⟨rfl, rfl, rfl⟩

theorem leads_declareField (g : Global) : Leads SameStage (declareField g) := by
  intro t
  rw [declareField, ends_bind, ends_get]
  split
  · exact ends_reject.mpr ⟨rfl, rfl, rfl⟩
  · split
    · exact ends_throw.mpr ⟨rfl, rfl, rfl⟩
    · exact ends_bind.mpr (ends_require.mpr ⟨fun _ => ⟨rfl, rfl, rfl⟩, fun _ => ⟨rfl, rfl, rfl⟩⟩)

theorem leads_declareLocal (l : Local) : Leads SameStage (declareLocal l) := by
  intro t
  rw [declareLocal, ends_bind, ends_get]
  cases t.locals with
  | none => exact ends_reject.mpr ⟨rfl, rfl, rfl⟩
  | some locals =>
    exact ends_bind.mpr (ends_require.mpr ⟨fun _ => ⟨rfl, rfl, rfl⟩, fun _ => ⟨rfl, rfl, rfl⟩⟩)

theorem leads_rebind (b : Binding) : Leads SameStage (rebind b) := by
  intro t
  rw [rebind, ends_bind, ends_get]
  cases b with
  | slot l =>
    dsimp only
    cases t.locals with
    | none => exact ends_throw.mpr ⟨rfl, rfl, rfl⟩
    | some locals => exact ends_set.mpr ⟨rfl, rfl, rfl⟩
  | global g =>
    dsimp only
    rw [ends_ite]
    constructor
    · intro _
      exact ends_set.mpr ⟨rfl, rfl, rfl⟩
    · intro _
      cases t.instances.find? g.inst with
      | none => exact ends_throw.mpr ⟨rfl, rfl, rfl⟩
      | some inst => exact ends_set.mpr ⟨rfl, rfl, rfl⟩

theorem leads_declareFunction (sig : Signature) : Leads SameStage (declareFunction sig) := by
  intro t
  rw [declareFunction, ends_bind, ends_get, ends_bind, ends_require]
  refine ⟨fun _ => ?_, fun _ => ⟨rfl, rfl, rfl⟩⟩
  exact ends_bind.mpr (ends_require.mpr ⟨fun _ => ⟨rfl, rfl, rfl⟩, fun _ => ⟨rfl, rfl, rfl⟩⟩)

end SymbolTable

/-- Whether the notifications of a kind neither branch nor open or close anything. -/
def CommandKind.isStraight : CommandKind → Bool
  | .int | .real | .name | .element | .member | .arith | .call | .callMethod => true
  | .declareVariable | .declareArray | .assign | .assignElement | .assignMember => true
  | .print | .scan => true
  | _ => false

namespace Compilation

/-! ## The stack -/

section Stack

variable {R : Compilation → Compilation → Prop} (hR : ∀ c stack, R c { c with stack })
include hR

theorem leads_push (op : Operand) : Leads R (push op) :=
  .update fun c => hR c _

theorem leads_pop : Leads R pop := by
  intro c
  rw [pop, ends_bind, ends_get]
  cases hstack : c.stack with
  | nil => exact ends_throw.mpr (hR c c.stack)
  | cons op stack =>
    rw [ends_bind, ends_set, ends_pure]
    exact hR c stack

theorem leads_popMany (count : Int) : Leads R (popMany count) := by
  intro c
  rw [popMany, ends_bind, ends_get, ends_ite]
  refine ⟨fun _ => hR c c.stack, fun _ => ?_⟩
  rw [ends_ite]
  constructor
  · intro _
    rw [ends_bind, ends_set, ends_pure]
    exact hR c _
  · intro _
    rw [ends_ite]
    refine ⟨fun _ => hR c c.stack, fun _ => ?_⟩
    rw [ends_bind, ends_set, ends_throw]
    exact hR c []

end Stack

theorem leads_requireOutside {R : Compilation → Compilation → Prop} [IsPreorder Compilation R]
    (violation : String → Violation) : Leads R (requireOutside violation) := by
  apply Leads.get.bind
  intro c
  apply Leads.ite
  · intro _
    cases c.function with
    | none => exact .throw _
    | some f => exact .reject _
  · intro _
    exact .pure _

/-! ## Constructs -/

variable {P : ∀ {α : Type}, Action Compilation α → Prop}
  {Q : ∀ {α : Type}, Action Emitter α → Prop}

/-- Lookups and the operations on the stack have the property `P`, and so have the operations of the
emitter with the property `Q`. Constructs depend on the emitter, on the instance whose class body is
run, and on the methods of a class. -/
structure Works (P : ∀ {α : Type}, Action Compilation α → Prop)
    (Q : ∀ {α : Type}, Action Emitter α → Prop) : Prop extends Chains P where
  read : ∀ {α : Type} {f : Compilation → Action Compilation α},
    (∀ c c', c'.table.instance? = c.table.instance? → c'.emitter = c.emitter → f c' = f c) →
    (∀ c, P (f c)) → P (MonadState.get >>= f)
  methods : ∀ {α : Type} {f : ClassInfo → Action Compilation α} (id : Int),
    (∀ k k', k'.methods = k.methods → f k' = f k) → (∀ k, P (f k)) →
    P (onTable (SymbolTable.classAt id) >>= f)
  lookup : ∀ name, P (onTable (SymbolTable.lookup name))
  lookupFunction : ∀ name, P (onTable (SymbolTable.lookupFunction name))
  lookupInstance : ∀ name, P (onTable (SymbolTable.lookupInstance name))
  push : ∀ op, P (push op)
  pop : P pop
  popMany : ∀ count, P (popMany count)
  emitter : ∀ {α : Type} {x : Action Emitter α}, Q x → P (onEmitter x)

theorem Works.of_composes (h : Composes P) (hpush : ∀ op, P (Compilation.push op))
    (hpop : P Compilation.pop) (hpopMany : ∀ count, P (Compilation.popMany count))
    (hQ : ∀ {α : Type} {x : Action Emitter α}, Q x → P (onEmitter x)) : Works P Q where
  toChains := h.toChains
  read _ hf := h.bind h.get hf
  methods id _ hf := h.bind (h.onTable.classAt id) hf
  lookup := h.onTable.lookup
  lookupFunction := h.onTable.lookupFunction
  lookupInstance := h.onTable.lookupInstance
  push := hpush
  pop := hpop
  popMany := hpopMany
  emitter := hQ

theorem works_leads {R : Compilation → Compilation → Prop} [IsPreorder Compilation R]
    (hR : ∀ c stack, R c { c with stack })
    (hQ : ∀ {α : Type} {x : Action Emitter α}, Q x → Leads R (onEmitter x)) :
    Works (fun {_} x => Leads R x) Q :=
  .of_composes (composes_leads R) (leads_push hR) (leads_pop hR) (leads_popMany hR) hQ

theorem works_moves {R : Compilation → Compilation → Prop} [IsPreorder Compilation R]
    (hR : ∀ c stack, R c { c with stack })
    (hQ : ∀ {α : Type} {x : Action Emitter α}, Q x → Moves R (onEmitter x)) :
    Works (fun {_} x => Moves R x) Q :=
  .of_composes (composes_moves R) (fun op => (leads_push hR op).moves) (leads_pop hR).moves
    (fun count => (leads_popMany hR count).moves) hQ

namespace Works

theorem popPair (h : Works P Q) : P popPair :=
  h.bind h.pop fun _ => h.bind h.pop fun _ => h.pure _

theorem arrayElement (h : Works P Q) (hQ : ∀ b index, Q (Emitter.element b index))
    (array : String) (index : Operand) : P (arrayElement array index) :=
  h.bind (h.lookup array) fun _ => h.emitter (hQ _ _)

theorem instanceField (h : Works P Q) (inst field : String) : P (instanceField inst field) := by
  apply h.bind (h.lookupInstance inst)
  intro i
  cases i.fields.find? field with
  | none => exact h.reject rfl
  | some g => exact h.pure _

variable (hcall : ∀ inst sig args, Q (Emitter.callMethod inst sig args))
include hcall

theorem call (h : Works P Q) (hfunction : ∀ sig args, Q (Emitter.callFunction sig args))
    (name : String) (count : Int) : P (call name count) := by
  apply h.bind (h.popMany count)
  intro args
  apply h.bind
  · apply h.read
    · intro c c' hinst _
      simp only [hinst]
    intro c
    cases c.table.instance? with
    | none => exact h.pure _
    | some inst =>
      exact h.methods _ (fun k k' hmethods => by simp only [hmethods]) fun _ => h.pure _
  · intro own
    cases own with
    | none =>
      exact h.bind (h.lookupFunction name) fun _ =>
        h.bind (h.emitter (hfunction _ _)) fun _ => h.push _
    | some own => exact h.bind (h.emitter (hcall _ _ _)) fun _ => h.push _

theorem callMethod (h : Works P Q) (inst method : String) (count : Int) :
    P (callMethod inst method count) := by
  apply h.bind (h.popMany count)
  intro args
  apply h.bind (h.lookupInstance inst)
  intro i
  apply h.methods
  · intro k k' hmethods
    simp only [hmethods]
  intro k
  cases k.methods.find? method with
  | none => exact h.reject rfl
  | some sig => exact h.bind (h.emitter (hcall _ _ _)) fun _ => h.push _

theorem expression (h : Works P Q) (hQ : Emitter.Computes Q) {cmd : Command}
    (hkind : cmd.kind ∈ [.int, .real, .name, .element, .member, .arith, .call, .callMethod,
      .print]) : P (construct cmd) := by
  unfold construct
  cases hk : cmd.kind with
  | int =>
    dsimp only [int]
    cases Literal.int? cmd.text with
    | none => exact h.reject rfl
    | some l => exact h.push _
  | real =>
    dsimp only [real]
    cases Literal.real? cmd.text with
    | none => exact h.reject rfl
    | some l => exact h.push _
  | name => exact h.bind (h.lookup _) fun _ => h.push _
  | element =>
    exact h.bind h.pop fun _ => h.bind (h.arrayElement hQ.element _ _) fun _ => h.push _
  | member => exact h.bind (h.instanceField _ _) fun _ => h.push _
  | arith =>
    dsimp only [arith]
    cases ArithOp.ofToken? cmd.text with
    | none => exact h.reject rfl
    | some op =>
      exact h.bind h.popPair fun _ => h.bind (h.emitter (hQ.arithmetic _ _ _)) fun _ => h.push _
  | call => exact h.call hcall hQ.callFunction _ _
  | callMethod => exact h.callMethod hcall _ _ _
  | print => exact h.bind h.pop fun _ => h.emitter (hQ.print _)
  | _ => simp [hk] at hkind

omit hcall

theorem openBody (h : Works P Q) (hdeclare : ∀ sig, P (onTable (SymbolTable.declareFunction sig)))
    (hopen : ∀ name sig params, Q (Emitter.openFunction name sig params)) (name : String)
    (result : DataType) (params : List Param) : P (openBody name result params) := by
  apply h.read
  · intro c c' hinst _
    simp only [hinst]
  intro c
  cases c.table.instance? with
  | some inst =>
    apply h.methods
    · intro k k' hmethods
      simp only [hmethods]
    intro k
    cases k.methods.find? name with
    | none => exact h.throw rfl
    | some sig => exact h.bind (h.emitter (hopen _ _ _)) fun _ => h.pure _
  | none =>
    exact h.bind (h.checkSignature _ _ _) fun _ => h.bind (hdeclare _) fun _ =>
      h.bind (h.emitter (hopen _ _ _)) fun _ => h.pure _

theorem assignElement (h : Works P Q) (hQ : Emitter.Declares Q) (array : String) :
    P (assignElement array) :=
  h.bind h.popPair fun _ => h.bind (h.arrayElement hQ.element _ _) fun _ =>
    h.bind (h.emitter (hQ.assign _ _)) fun _ => h.pure _

theorem control (h : Works P Q) (hQ : Emitter.Branches Q) {cmd : Command}
    (hkind : cmd.kind ∈ [.beginCondition, .compare, .endIf, .endWhile]) : P (construct cmd) := by
  unfold construct
  cases hk : cmd.kind with
  | beginCondition =>
    apply h.read
    · intro c c' _ hemitter
      simp only [hemitter]
    exact fun _ => h.ite (fun _ => h.throw rfl) fun _ => h.emitter hQ.openCondition
  | compare =>
    dsimp only [compare]
    cases Comparison.ofToken? cmd.text with
    | none => exact h.reject rfl
    | some op => exact h.bind h.popPair fun _ => h.emitter (hQ.compare _ _ _)
  | endIf => exact h.emitter (hQ.endControl _)
  | endWhile => exact h.emitter (hQ.endControl _)
  | _ => simp [hk] at hkind

variable (hrebind : ∀ b, P (onTable (SymbolTable.rebind b)))
include hrebind

theorem assignTo (h : Works P Q) (hQ : Emitter.Declares Q) (b : Binding) (value : Operand) :
    P (assignTo b value) :=
  h.bind (h.emitter (hQ.assign _ _)) fun _ => hrebind _

theorem assignment (h : Works P Q) (hQ : Emitter.Declares Q) {cmd : Command}
    (hkind : cmd.kind ∈ [.assign, .assignElement, .assignMember, .scan]) : P (construct cmd) := by
  unfold construct
  cases hk : cmd.kind with
  | assign =>
    exact h.bind h.pop fun _ => h.bind (h.lookup _) fun _ => h.assignTo hrebind hQ _ _
  | assignElement => exact h.assignElement hQ _
  | assignMember =>
    exact h.bind h.pop fun _ => h.bind (h.instanceField _ _) fun _ => h.assignTo hrebind hQ _ _
  | scan =>
    exact h.bind (h.require _ rfl) fun _ => h.bind (h.lookup _) fun _ =>
      h.bind (h.emitter (hQ.scan _ _)) fun _ => hrebind _
  | _ => simp [hk] at hkind

end Works

/-- Changes of the scopes and declarations of arrays are allowed for as well. -/
structure Declares (P : ∀ {α : Type}, Action Compilation α → Prop)
    (Q : ∀ {α : Type}, Action Emitter α → Prop) : Prop extends Works P Q where
  declareLocal : ∀ l, P (onTable (SymbolTable.declareLocal l))
  declareField : ∀ g, P (onTable (SymbolTable.declareField g))
  declareGlobal : ∀ g, P (onTable (SymbolTable.declareGlobal g))
  rebind : ∀ b, P (onTable (SymbolTable.rebind b))
  outside : ∀ violation, P (requireOutside violation)
  array : ∀ array length elements, Q (Emitter.declareArray array length elements)

namespace Declares

theorem of_scopes (h : Works P Q) (hscopes : ∀ {α : Type} {x : Action SymbolTable α},
      Leads SymbolTable.SameStage x → P (onTable x)) (houtside : ∀ v, P (requireOutside v))
    (harray : ∀ array length elements, Q (Emitter.declareArray array length elements)) :
    Declares P Q where
  toWorks := h
  declareLocal l := hscopes (SymbolTable.leads_declareLocal l)
  declareField g := hscopes (SymbolTable.leads_declareField g)
  declareGlobal g := hscopes (SymbolTable.leads_declareGlobal g)
  rebind b := hscopes (SymbolTable.leads_rebind b)
  outside := houtside
  array := harray

theorem declareLocals (h : Declares P Q) (locals : List Local) : P (declareLocals locals) := by
  induction locals with
  | nil => exact h.pure _
  | cons l rest ih => exact h.bind (h.declareLocal l) fun _ => ih

theorem declareScalar (h : Declares P Q) (hQ : Emitter.Declares Q) (name : String)
    (type : DataType) : P (declareScalar name type) := by
  apply h.read
  · intro c c' hinst hemitter
    simp only [hinst, hemitter]
  intro c
  apply h.ite
  · intro _
    exact h.bind (h.declareLocal _) fun _ =>
      h.bind (h.emitter (hQ.declareStorage _ _)) fun _ => h.pure _
  · intro _
    cases c.table.instance? with
    | some inst =>
      exact h.bind (h.declareField _) fun _ =>
        h.bind (h.emitter (hQ.declareField _)) fun _ => h.pure _
    | none =>
      exact h.bind (h.declareGlobal _) fun _ =>
        h.bind (h.emitter (hQ.declareStorage _ _)) fun _ => h.pure _

theorem declareVariable (h : Declares P Q) (hQ : Emitter.Declares Q) (name : String)
    (hasInit : Bool) : P (declareVariable name hasInit) := by
  apply h.ite
  · intro _
    exact h.bind h.pop fun _ => h.bind (h.declareScalar hQ _ _) fun _ =>
      h.assignTo h.rebind hQ _ _
  · intro _
    exact h.bind (h.declareScalar hQ _ _) fun _ => h.pure _

theorem declareArray (h : Declares P Q) (name : String) (type : DataType) (length count : Int) :
    P (declareArray name type length count) := by
  apply h.bind (h.popMany count)
  intro elements
  apply h.bind (h.outside _)
  intro _
  apply h.bind (h.require _ rfl)
  intro _
  apply h.bind (h.require _ rfl)
  intro _
  apply h.read
  · intro c c' hinst _
    simp only [hinst]
  intro c
  have hinstall (array : Global) (length : Int) : P (do
      let declared ← onEmitter (Emitter.declareArray array length elements)
      onTable (SymbolTable.rebind (.global declared))) :=
    h.bind (h.emitter (h.array _ _ _)) fun _ => h.rebind _
  cases c.table.instance? with
  | some inst =>
    exact h.bind (h.declareField _) fun _ => hinstall _ _
  | none => exact h.bind (h.declareGlobal _) fun _ => hinstall _ _

theorem straight (h : Declares P Q) (hQ : Emitter.Declares Q) {cmd : Command}
    (hkind : cmd.kind.isStraight = true) : P (construct cmd) := by
  by_cases hexpression : cmd.kind ∈ [.int, .real, .name, .element, .member, .arith, .call,
    .callMethod, .print]
  · exact h.expression hQ.callMethod hQ.toComputes hexpression
  by_cases hassignment : cmd.kind ∈ [.assign, .assignElement, .assignMember, .scan]
  · exact h.assignment h.rebind hQ hassignment
  unfold construct
  cases hk : cmd.kind with
  | declareVariable => exact h.declareVariable hQ _ _
  | declareArray => exact h.declareArray _ _ _ _
  | _ => simp_all [CommandKind.isStraight]

theorem construct (h : Declares P Q) (hQ : Emitter.Branches Q) {cmd : Command}
    (hkind : cmd.kind ∉ [.declareFunction, .endFunction, .ret, .beginClass, .endClass,
      .endProgram]) : P (construct cmd) := by
  by_cases hstraight : cmd.kind.isStraight = true
  · exact h.straight hQ.toDeclares hstraight
  by_cases hcontrol : cmd.kind ∈ [.beginCondition, .compare, .endIf, .endWhile]
  · exact h.control hQ hcontrol
  unfold Compilation.construct
  cases hk : cmd.kind with
  | declareInstance => exact h.throw rfl
  | unknown n => exact h.throw rfl
  | _ => simp_all [CommandKind.isStraight]

end Declares

end Compilation

end MkCompiler
