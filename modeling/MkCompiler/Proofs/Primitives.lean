import MkCompiler.Emitter.Control
import MkCompiler.Emitter.Function
import MkCompiler.Emitter.Transfer
import MkCompiler.Proofs.Endings

/-!
# Operations made of primitives

Reading operands, computing with them and calling functions come down to two primitives: appending
an instruction without a result, and numbering the result of one. A property of operations that
composes and that both primitives have is shared by all these operations. Declaring storage and
control flow have a few primitives more.
-/

namespace MkCompiler.Emitter

open MkCompiler.Action

variable {α : Type} {P : ∀ {α : Type}, Action Emitter α → Prop}

/-- The primitives of reading and computing have the property. -/
structure Computes (P : ∀ {α : Type}, Action Emitter α → Prop) : Prop extends Composes P where
  effect : ∀ {i : Instr}, i.dest? = none → i.isTerminator = false → P (emit i)
  numbered : ∀ {α : Type} {f : Int → Emitter → Instr} {x : Int → Action Emitter α},
    (∀ n e, (f n e).dest? = some (.number n)) → (∀ n e, (f n e).isTerminator = false) →
    (∀ n, P (x n)) →
    P (fresh >>= fun n => MonadState.get >>= fun e => emit (f n e) >>= fun _ => x n)

theorem Computes.of_parts (h : Composes P) (hfresh : P fresh)
    (hemit : ∀ i : Instr, i.isTerminator = false →
      (∀ name version, i.dest? ≠ some (.slot name version)) → P (emit i)) : Computes P where
  toComposes := h
  effect hd hi := hemit _ hi (by simp [hd])
  numbered hd hi hx := h.bind hfresh fun n => h.bind h.get fun e =>
    h.bind (hemit _ (hi n e) (by simp [hd])) fun _ => hx n

namespace Computes

/-! ## Values -/

theorem placed (h : Computes P) {f : Int → Instr} {x : Int → Action Emitter α}
    (hd : ∀ n, (f n).dest? = some (.number n)) (hi : ∀ n, (f n).isTerminator = false)
    (hx : ∀ n, P (x n)) : P (fresh >>= fun n => emit (f n) >>= fun _ => x n) :=
  h.numbered (f := fun n _ => f n) (fun n _ => hd n) (fun n _ => hi n) hx

theorem allocate (h : Computes P) (type : DataType) : P (allocate type) :=
  h.placed (fun _ => rfl) (fun _ => rfl) fun _ => h.pure _

theorem loadFrom (h : Computes P) (type : DataType) (source : Pointer) :
    P (loadFrom type source) :=
  h.placed (fun _ => rfl) (fun _ => rfl) fun _ => h.pure _

theorem load (h : Computes P) (r : Register) : P (load r) :=
  h.loadFrom _ _

theorem store (h : Computes P) (type : DataType) (v : Value) (target : Pointer) :
    P (store type v target) :=
  h.effect rfl rfl

theorem address (h : Computes P) (c : Cell) (index : Value) : P (address c index) :=
  h.placed (fun _ => rfl) (fun _ => rfl) fun _ =>
    h.placed (fun _ => rfl) (fun _ => rfl) fun _ => h.pure _

theorem checkLowered (h : Computes P) (op : Operand) : P (checkLowered op) :=
  h.bind (h.require _ rfl) fun _ => h.require _ rfl

theorem value (h : Computes P) (op : Operand) : P (value op) := by
  induction op with
  | literal l => exact h.bind (h.checkLowered _) fun _ => h.pure _
  | register r => exact h.bind (h.checkLowered _) fun _ => h.load r
  | slot l => exact h.bind (h.checkLowered _) fun _ => h.loadFrom _ _
  | global c =>
    exact h.bind (h.checkLowered _) fun _ => h.ite (fun _ => h.throw rfl) fun _ => h.loadFrom _ _
  | element c index ih =>
    apply h.bind (h.checkLowered _)
    intro _
    apply h.ite
    · intro _
      exact h.bind ih fun _ => h.bind (h.address _ _) fun _ => h.loadFrom _ _
    · intro _
      exact h.loadFrom _ _

theorem elementPointer (h : Computes P) (g : Global) : P (elementPointer g) := by
  unfold Emitter.elementPointer
  cases g.index with
  | none => exact h.throw rfl
  | some index => exact h.bind (h.value index) fun _ => h.address _ _

theorem materialize (h : Computes P) (op : Operand) : P (materialize op) := by
  unfold Emitter.materialize
  split
  · exact h.pure _
  · exact h.bind (h.checkLowered op) fun _ => h.bind (h.allocate _) fun _ =>
      h.bind (h.value op) fun _ => h.bind (h.store _ _ _) fun _ => h.pure _

theorem cast (h : Computes P) (r : Register) (target : DataType) : P (cast r target) := by
  apply h.ite
  · intro _
    exact h.pure _
  · intro _
    exact h.bind (h.allocate _) fun _ => h.bind (h.load r) fun _ =>
      h.placed (fun _ => rfl) (fun _ => rfl) fun _ => h.bind (h.store _ _ _) fun _ => h.pure _

theorem widen (h : Computes P) (left right : Operand) (force : Bool) :
    P (widen left right force) := by
  apply h.bind (h.materialize left)
  intro l
  apply h.bind (h.materialize right)
  intro r
  apply h.ite
  · intro _
    exact h.bind (h.cast l _) fun _ => h.bind (h.cast r _) fun _ => h.pure _
  · intro _
    exact h.pure _

theorem arithmetic (h : Computes P) (left : Operand) (op : ArithOp) (right : Operand) :
    P (arithmetic left op right) := by
  apply h.bind (h.widen left right _)
  rintro ⟨l, r⟩
  dsimp only
  split
  · exact h.throw rfl
  · exact h.bind (h.allocate _) fun _ => h.bind (h.load l) fun _ => h.bind (h.load r) fun _ =>
      h.placed (fun _ => rfl) (fun _ => rfl) fun _ => h.bind (h.store _ _ _) fun _ => h.pure _

theorem element (h : Computes P) (array : Binding) (index : Operand) :
    P (element array index) := by
  unfold Emitter.element
  split
  · exact h.reject rfl
  · apply h.bind (h.require _ rfl)
    intro _
    apply h.bind (h.require _ rfl)
    intro _
    apply h.bind (h.checkLowered index)
    intro _
    split
    · exact h.bind (h.require _ rfl) fun _ => h.pure _
    · exact h.pure _

theorem print (h : Computes P) (op : Operand) : P (print op) := by
  apply h.bind (h.materialize op)
  intro r
  apply h.bind (h.load r)
  intro v
  have hprinted := h.numbered (x := fun _ => Pure.pure ())
    (f := fun n e => .print n (.external e.symbols.printf) (e.symbols.printFormat r.type)
      r.type.irType v) (fun _ _ => rfl) (fun _ _ => rfl) fun _ => h.pure _
  simpa only [bind_pure_unit] using hprinted

theorem checkArgs (h : Computes P) (sig : Signature) (args : List Operand) :
    P (checkArgs sig args) := by
  have htypes (function : String) (position : Nat) (types : List DataType) :
      P (checkArgTypes function position args types) := by
    induction args generalizing position types with
    | nil => exact h.pure _
    | cons arg args ih =>
      cases types with
      | nil => exact h.pure _
      | cons type types => exact h.bind (h.require _ rfl) fun _ => ih _ _
  exact h.bind (h.require _ rfl) fun _ => htypes _ _ _

theorem argValues (h : Computes P) (args : List Operand) : P (argValues args) := by
  induction args with
  | nil => exact h.pure _
  | cons arg args ih =>
    exact h.bind (h.materialize arg) fun _ => h.bind (h.load _) fun _ => h.bind ih fun _ => h.pure _

theorem call (h : Computes P) (callee : GlobalName) (sig : Signature) (args : List Operand) :
    P (call callee sig args) :=
  h.bind (h.checkArgs sig args) fun _ => h.bind (h.argValues args) fun _ =>
    h.placed (fun _ => rfl) (fun _ => rfl) fun _ => h.pure _

theorem callFunction (h : Computes P) (sig : Signature) (args : List Operand) :
    P (callFunction sig args) :=
  h.bind (h.call _ sig args) fun _ => h.bind (h.allocate _) fun _ =>
    h.bind (h.store _ _ _) fun _ => h.pure _

theorem callMethod (h : Computes P) {inst : String} {sig : Signature}
    (hhoist : P (hoist (.slot ("ret." ++ inst ++ "." ++ sig.name) 0) sig.result))
    (hresults : ∀ name,
      P (modify (modifyActive fun c => { c with results := c.results ++ [name] })))
    (args : List Operand) : P (callMethod inst sig args) := by
  apply h.bind (h.call _ sig args)
  intro v
  apply h.bind h.get
  intro e
  have hstored (slot : Local) : P (do
      Emitter.store sig.result v (.frame slot.slot)
      Emitter.materialize (.slot slot)) :=
    h.bind (h.store _ _ _) fun _ => h.materialize _
  apply h.ite
  · intro _
    exact h.bind hhoist fun _ => h.bind (hresults _) fun _ => hstored _
  · intro _
    exact hstored _

/-! ## Variables and arrays -/

theorem declareStorage_global (h : Computes P)
    (hcell : ∀ (c : Cell) type zero, P (modify (appendHeader (.cell c.symbol type zero))))
    (g : Global) (zeroed : Bool) : P (declareStorage (.global g) zeroed) :=
  h.bind (h.require _ rfl) fun _ => h.ite (fun _ => hcell _ _ _) fun _ => h.throw rfl

theorem rebind (h : Computes P) {b : Binding} {type : DataType}
    (hstorage : P (Emitter.declareStorage (b.withVersion (b.version + 1) type) false)) :
    P (rebind b type) := by
  apply h.ite
  · intro _
    exact h.ite (fun _ => h.pure _) fun _ => h.pure _
  · intro _
    exact h.bind hstorage fun _ => h.pure _

theorem assignVariable (h : Computes P) {left : Binding} {right : Operand}
    (hrebind : P (Emitter.rebind left right.type)) : P (assignVariable left right) :=
  h.bind hrebind fun _ => h.bind (h.value right) fun _ => h.bind (h.store _ _ _) fun _ => h.pure _

theorem assignElement (h : Computes P) (g : Global) (right : Operand) :
    P (assignElement g right) :=
  h.bind (h.require _ rfl) fun _ => h.bind (h.value right) fun _ =>
    h.bind (h.elementPointer g) fun _ => h.store _ _ _

theorem assign_element (h : Computes P) {g : Global} (hkind : g.kind = .arrayElement)
    (right : Operand) : P (assign (.global g) right) := by
  apply h.bind (h.checkLowered right)
  intro _
  dsimp only
  rw [hkind]
  exact h.bind (h.assignElement g right) fun _ => h.pure _

theorem assign (h : Computes P) {left : Binding} {right : Operand}
    (hrebind : P (Emitter.rebind left right.type)) : P (assign left right) := by
  apply h.bind (h.checkLowered right)
  intro _
  cases left with
  | slot l => exact h.assignVariable hrebind
  | global g =>
    dsimp only
    split
    · exact h.reject rfl
    · exact h.bind (h.assignElement g right) fun _ => h.pure _
    · exact h.assignVariable hrebind

section Arrays

variable (h : Computes P) (array : Global) (length : Int) (elements : List Operand)
  (harray : ∀ (c : Cell) type length, P (modify (appendHeader (.array c.symbol type length))))
include h harray

theorem allocateArray :
    P (do
      Action.require (array.type.isLowered = true) (.unsupportedArray array.type)
      let length := if length = 0 then (elements.length : Int) else length
      Action.require (0 < length) (.arrayWithoutLength array.name)
      Action.require (elements.length ≤ length)
        (.tooManyElements elements.length array.name length)
      checkElements array 1 elements
      let declared := { array with kind := .array, length := length }
      modify (appendHeader (.array declared.symbol array.type.irType length))
      storeElements declared 0 elements
      return declared) := by
  have hcheck (position : Nat) (ops : List Operand) : P (checkElements array position ops) := by
    induction ops generalizing position with
    | nil => exact h.pure _
    | cons op rest ih => exact h.bind (h.require _ rfl) fun _ => ih _
  have hstore (declared : Global) (position : Nat) (ops : List Operand) :
      P (storeElements declared position ops) := by
    induction ops generalizing position with
    | nil => exact h.pure _
    | cons op rest ih => exact h.bind (h.assign_element rfl op) fun _ => ih _
  exact h.bind (h.require _ rfl) fun _ => h.bind (h.require _ rfl) fun _ =>
    h.bind (h.require _ rfl) fun _ => h.bind (hcheck _ _) fun _ => h.bind (harray _ _ _) fun _ =>
      h.bind (hstore _ _ _) fun _ => h.pure _

theorem declareArray
    (hreject : ∀ {α : Type} (v : Violation), P (Action.reject v : Action Emitter α)) :
    P (declareArray array length elements) := by
  apply h.bind h.get
  intro e
  split
  · exact hreject _
  · exact h.allocateArray array length elements harray

end Arrays

theorem scan (h : Computes P) {type : DataType} {target : Binding}
    (hrebind : P (Emitter.rebind target type.storage)) : P (scan type target) := by
  apply h.bind (h.require _ rfl)
  intro _
  have htarget : P (scanTarget type.storage target) := by
    cases target with
    | slot l => exact h.bind hrebind fun _ => h.pure _
    | global g =>
      apply h.ite
      · intro _
        exact h.bind hrebind fun _ => h.pure _
      · intro _
        exact h.bind (h.require _ rfl) fun _ => h.bind (h.require _ rfl) fun _ =>
          h.bind (h.elementPointer g) fun _ => h.pure _
  apply h.bind htarget
  rintro ⟨b, p⟩
  exact h.numbered (f := fun n e => .scan n (.external e.symbols.scanf)
    (e.symbols.scanFormat type.storage) type.storage.irType p) (fun _ _ => rfl) (fun _ _ => rfl)
    fun _ => h.pure _

end Computes

structure Declares (P : ∀ {α : Type}, Action Emitter α → Prop) : Prop extends Computes P where
  cell : ∀ (c : Cell) type zero, P (modify (appendHeader (.cell c.symbol type zero)))
  array : ∀ (c : Cell) type length, P (modify (appendHeader (.array c.symbol type length)))
  hoist : ∀ name version type, P (hoist (.slot name version) type)
  results : ∀ name, P (modify (modifyActive fun c => { c with results := c.results ++ [name] }))

namespace Declares

theorem declareStorage (h : Declares P) (b : Binding) (zeroed : Bool) :
    P (declareStorage b zeroed) := by
  cases b with
  | global g => exact h.declareStorage_global h.cell g zeroed
  | slot l =>
    apply h.bind (h.require _ rfl)
    intro _
    apply h.bind h.get
    intro e
    apply h.ite
    · intro _
      exact h.bind (h.hoist _ _ _) fun _ => h.ite (fun _ => h.store _ _ _) fun _ => h.pure _
    · intro _
      exact h.throw rfl

theorem declareField (h : Declares P) (g : Global) : P (declareField g) :=
  h.ite (fun _ => h.throw rfl) fun _ => h.declareStorage _ _

theorem assign (h : Declares P) (left : Binding) (right : Operand) : P (assign left right) :=
  h.toComputes.assign (h.rebind (h.declareStorage _ _))

theorem scan (h : Declares P) (type : DataType) (target : Binding) : P (scan type target) :=
  h.toComputes.scan (h.rebind (h.declareStorage _ _))

theorem callMethod (h : Declares P) (inst : String) (sig : Signature) (args : List Operand) :
    P (callMethod inst sig args) :=
  h.toComputes.callMethod (h.hoist _ _ _) h.results args

end Declares

/-! ## Control flow -/

def closeCondition : Action Emitter Nat := do
  match (← get).active.openCompare with
  | none => throw (.fault .absentCondition)
  | some id =>
    modify (modifyActive fun c => { c with openCompare := none })
    return id

theorem takeCondition_eq : takeCondition = (do
    if (← get).conditionOpen = false then
      openCondition
    closeCondition) :=
  rfl

/-- The primitives of control flow have the property as well. -/
structure Branches (P : ∀ {α : Type}, Action Emitter α → Prop) : Prop extends Declares P where
  terminate : ∀ i, P (terminate i)
  placeLabel : ∀ l, P (placeLabel l)
  context : ∀ {g : FunctionContext → FunctionContext}, (∀ c, (g c).target = c.target) →
    (∀ c, (g c).slots = c.slots) → P (modify (modifyActive g))
  openCondition : P openCondition

namespace Branches

theorem takeCondition (h : Branches P) : P takeCondition := by
  have htake : P closeCondition := by
    apply h.bind h.get
    intro e
    split
    · exact h.throw rfl
    · exact h.bind (h.context (fun _ => rfl) fun _ => rfl) fun _ => h.pure _
  exact h.bind h.get fun _ => h.ite (fun _ => h.bind h.openCondition fun _ => htake) fun _ => htake

theorem compare (h : Branches P) (left : Operand) (op : Comparison) (right : Operand) :
    P (compare left op right) := by
  apply h.bind h.takeCondition
  intro id
  apply h.bind (h.widen left right false)
  rintro ⟨l, r⟩
  exact h.bind (h.load l) fun _ => h.bind (h.load r) fun _ =>
    h.placed (fun _ => rfl) (fun _ => rfl) fun _ => h.bind (h.terminate _) fun _ =>
      h.bind (h.placeLabel _) fun _ => h.context (fun _ => rfl) fun _ => rfl

theorem endControl (h : Branches P) (kind : ControlKind) : P (endControl kind) := by
  apply h.bind h.get
  intro e
  split
  · exact h.reject rfl
  · exact h.bind (h.context (fun _ => rfl) fun _ => rfl) fun _ =>
      h.bind (h.terminate _) fun _ => h.placeLabel _

end Branches

theorem branches_true : Branches fun {_} _ => True := by
  repeat constructor
  all_goals intros; trivial

end MkCompiler.Emitter
