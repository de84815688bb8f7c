import MkCompiler.Proofs.Effects
import MkCompiler.Proofs.Linking
import MkCompiler.Proofs.Numerals

/-!
# Constructs of a linked program

Every expression and every statement keeps a program linked: operands are taken from the stack and
used where they are in order, new storage is declared under a symbol of its own, and what is pushed
can be used by the code that follows.
-/

namespace MkCompiler

open MkCompiler.Action

namespace Compilation

variable {α : Type} {S : Command → Prop} {p : Prop} {owed : List String} {c c' : Compilation}
  {l : Layout}

abbrev StaysLinked (p : Prop) (owed : List String) (x : Action Compilation α) (c : Compilation) :
    Prop :=
  Ensures x c fun _ c' => ∃ l', c'.Linked p owed l'

/-! ## The stack -/

theorem Linked.withStack (h : c.Linked p owed l) {stack : List Operand}
    (hstack : ∀ op ∈ stack, op.In (c.env p l)) :
    ({ c with stack } : Compilation).Linked p owed l :=
  { h with stack := hstack }

theorem Linked.push (h : c.Linked p owed l) {op : Operand} (hop : op.In (c.env p l)) :
    StaysLinked p owed (push op) c := by
  rw [StaysLinked, Compilation.push, ensures_modify]
  refine ⟨l, h.withStack ?_⟩
  intro op' hop'
  rcases List.mem_cons.mp hop' with rfl | hold
  · exact hop
  · exact h.stack op' hold

theorem Linked.pop (h : c.Linked p owed l) :
    Ensures pop c fun op c' => ∃ stack, c' = { c with stack } ∧ op.In (c.env p l) ∧
      c'.Linked p owed l := by
  rw [Compilation.pop, ensures_bind, ensures_get]
  cases hstack : c.stack with
  | nil => exact ensures_throw.mpr trivial
  | cons op stack =>
    have hall := h.stack
    rw [hstack] at hall
    dsimp only
    rw [ensures_bind, ensures_set, ensures_pure]
    refine ⟨stack, rfl, hall op (by simp), h.withStack ?_⟩
    intro op' hop'
    exact hall op' (by simp [hop'])

theorem Linked.popPair (h : c.Linked p owed l) :
    Ensures popPair c fun ops c' => ∃ stack, c' = { c with stack } ∧ ops.1.In (c.env p l) ∧
      ops.2.In (c.env p l) ∧ c'.Linked p owed l := by
  rw [Compilation.popPair, ensures_bind]
  refine h.pop.mono ?_
  rintro right _ ⟨stack, rfl, hright, h₁⟩
  rw [ensures_bind]
  refine h₁.pop.mono ?_
  rintro left _ ⟨stack', rfl, hleft, h₂⟩
  exact ensures_pure.mpr ⟨stack', rfl, hleft, hright, h₂⟩

theorem Linked.popMany (h : c.Linked p owed l) (count : Int) :
    Ensures (popMany count) c fun ops c' => ∃ stack, c' = { c with stack } ∧
      (∀ op ∈ ops, op.In (c.env p l)) ∧ c'.Linked p owed l := by
  refine (ensures_popMany count c).mono ?_
  rintro _ _ ⟨-, rfl, rfl⟩
  refine ⟨_, rfl, ?_, h.withStack ?_⟩
  · intro op hop
    exact h.stack op (List.mem_of_mem_take (List.mem_reverse.mp hop))
  · intro op hop
    exact h.stack op (List.mem_of_mem_drop hop)

/-! ## Names -/

theorem env_provides (p : Prop) (c : Compilation) (l : Layout) :
    (c.env p l).Provides c.emitter.symbols := by
  have hprologue {name : GlobalName} {type : SymbolType}
      (hmem : (name, type) ∈ c.emitter.symbols.prologue.flatMap Line.declares) :
      (c.env p l).globals name type := by
    refine .inl ?_
    rw [List.flatMap_append]
    exact List.mem_append_left _ hmem
  refine ⟨hprologue ?_, hprologue ?_, fun type => hprologue ?_, fun type => hprologue ?_⟩
  · simp [RuntimeSymbols.prologue, Line.declares]
  · simp [RuntimeSymbols.prologue, Line.declares]
  · cases type <;> simp [RuntimeSymbols.prologue, RuntimeSymbols.printFormat, Line.declares]
  · cases type <;> simp [RuntimeSymbols.prologue, RuntimeSymbols.scanFormat, Line.declares,
      DataType.irType, scanFormatSize]

theorem Linked.operand (h : c.Linked p owed l) {b : Binding} (hb : b.Bound c.table) :
    b.toOperand.In (c.env p l) := by
  cases b with
  | slot s =>
    obtain ⟨-, -, hslot, -⟩ := h.frames.locals _ s hb
    refine .inr ?_
    simp only [Draft.body, List.flatMap_append, List.mem_append, List.flatMap_map, Line.defines]
    exact .inl hslot
  | global g =>
    obtain ⟨hbound, hkind, hindex⟩ := hb
    obtain ⟨hdeclared, -⟩ := h.stores.declared _ _ g hbound
    simp only [Binding.toOperand, Global.toOperand, hindex, Operand.In]
    rcases hkind with hkind | hkind
    · refine .inr ⟨hkind, .inl ?_⟩
      rw [Global.symbolType, if_pos hkind] at hdeclared
      rw [List.flatMap_append]
      exact List.mem_append_right _ hdeclared
    · exact .inl hkind

theorem Linked.element_in (h : c.Linked p owed l) {g : Global}
    (hg : (Binding.global g).Bound c.table) (hkind : g.kind = .array) {index : Operand}
    (htype : index.type.storage = .int) (hindex : index.In (c.env p l))
    (hwithin : index.Within g.length) : (g.element index).toOperand.In (c.env p l) := by
  obtain ⟨hdeclared, -⟩ := h.stores.declared _ _ g hg.1
  refine ⟨rfl, htype, hindex, hwithin, .inl ?_⟩
  have hsymbol : (g.element index).symbol = g.symbol := by
    simp [Cell.symbol, Global.element, hkind]
  rw [hsymbol, List.flatMap_append]
  rw [Global.symbolType, if_neg (by simp [hkind])] at hdeclared
  exact List.mem_append_right _ hdeclared

theorem Linked.lookup (h : c.Linked p owed l) (ht : c.table.Sound S) (name : String) :
    Ensures (onTable (SymbolTable.lookup name)) c fun b c' => c' = c ∧ b.Bound c.table := by
  rw [onTable, ensures_zoom]
  refine (SymbolTable.ensures_lookup name c.table).mono ?_
  rintro b _ ⟨rfl, hb⟩
  exact ⟨rfl, ht.bound_of_resolve? h.lexicon (fun n s hs => (h.frames.locals n s hs).1) hb⟩

theorem Linked.instanceField (h : c.Linked p owed l) (ht : c.table.Sound S) (inst field : String) :
    Ensures (instanceField inst field) c fun g c' =>
      c' = c ∧ (Binding.global g).Bound c.table := by
  rw [Compilation.instanceField, ensures_bind, onTable, ensures_zoom]
  refine (SymbolTable.ensures_lookupInstance inst c.table).mono ?_
  rintro i _ ⟨rfl, hi⟩
  cases hfield : i.fields.find? field with
  | none => exact ensures_reject.mpr trivial
  | some g => exact ensures_pure.mpr ⟨rfl, ht.bound_of_field h.lexicon hi hfield⟩

/-! ## Code -/

theorem Linked.code (h : c.Linked p owed l) {x : Action Emitter α} {Q : Env → α → Prop}
    (hx : Emitter.Builds c.emitter (c.env p l) x fun s Γ a => s = {} ∧ Q Γ a) :
    Ensures (onEmitter x) c fun a c' => ∃ e l', c' = { c with emitter := e } ∧
      c'.Linked p owed l' ∧ (c.env p l).Le (c'.env p l') ∧ Q (c'.env p l') a := by
  rw [onEmitter, ensures_zoom]
  refine Ensures.mono hx ?_
  rintro a e ⟨_, code, hadds, htypes, rfl, hq⟩
  have hlinked : ({ c with emitter := e } : Compilation).Linked p owed (l.grow [] [] code) :=
    h.grow hadds htypes (.refl _) h.lexicon (by simpa using h.stores)
      (by simpa [Storage.allocas] using h.frames)
      fun op hop => (h.stack op hop).mono ((Env.le_add _ _).trans (Env.le_after _ _))
  have henv : ({ c with emitter := e } : Compilation).env p (l.grow [] [] code) =
      ((c.env p l).add {}).after code := by
    rw [← Layout.env_grow (.refl c.table), Compilation.env, hadds.symbols_eq]
    rfl
  refine ⟨e, l.grow [] [] code, rfl, hlinked, ?_, ?_⟩
  · rw [henv]
    exact (Env.le_add _ _).trans (Env.le_after _ _)
  · rw [henv]
    exact hq

theorem Linked.statement (h : c.Linked p owed l) {x : Action Emitter α}
    (hx : Emitter.Builds c.emitter (c.env p l) x fun s _ _ => s = {}) :
    StaysLinked p owed (onEmitter x) c := by
  refine (h.code (hx.mono (Q := fun s _ _ => s = {} ∧ True)
    fun _ _ _ _ hs => ⟨hs, trivial⟩)).mono ?_
  rintro _ _ ⟨e, l', rfl, h', -⟩
  exact ⟨l', h'⟩

theorem Linked.expression (h : c.Linked p owed l) {x : Action Emitter Register}
    (hx : Emitter.Writes c.emitter.symbols (c.env p l) x fun Γ r => r.In Γ) :
    StaysLinked p owed (onEmitter x >>= fun r => Compilation.push (.register r)) c := by
  rw [StaysLinked, ensures_bind]
  refine (h.code hx.builds).mono ?_
  rintro r _ ⟨e, l', rfl, h', -, hr⟩
  exact h'.push hr

theorem Linked.arrayElement (h : c.Linked p owed l) (ht : c.table.Sound S) (array : String)
    {index : Operand} (hindex : index.In (c.env p l)) :
    Ensures (arrayElement array index) c fun g c' => ∃ e l', c' = { c with emitter := e } ∧
      c'.Linked p owed l' ∧ (c.env p l).Le (c'.env p l') ∧ g.index = some index ∧
        g.toOperand.In (c'.env p l') := by
  rw [Compilation.arrayElement, ensures_bind]
  refine (h.lookup ht array).mono ?_
  rintro b _ ⟨rfl, hb⟩
  refine (h.code (Emitter.writes_element b hindex).builds).mono ?_
  rintro g _ ⟨e, l', rfl, h', hle, g₀, rfl, hkind, htype, hwithin, rfl⟩
  exact ⟨e, l', rfl, h', hle, rfl, h'.element_in hb hkind htype (hindex.mono hle) hwithin⟩

/-! ## Expressions -/

theorem links_int (h : c.Linked p owed l) (text : String) : StaysLinked p owed (int text) c := by
  unfold int
  split
  · next literal hread =>
    obtain ⟨v, hv, rfl⟩ := Option.map_eq_some_iff.mp hread
    refine h.push fun _ => ?_
    exact congrArg toString (Numeral.clamped64_toString hv).symm
  · exact ensures_reject.mpr trivial

theorem links_real (h : c.Linked p owed l) (text : String) :
    StaysLinked p owed (real text) c := by
  unfold real
  split
  · next literal hread =>
    obtain ⟨v, -, rfl⟩ := Option.map_eq_some_iff.mp hread
    exact h.push (by rintro ⟨⟩)
  · exact ensures_reject.mpr trivial

theorem links_name (h : c.Linked p owed l) (ht : c.table.Sound S) (name : String) :
    StaysLinked p owed (Compilation.name name) c := by
  rw [Compilation.name, StaysLinked, ensures_bind]
  refine (h.lookup ht name).mono ?_
  rintro b _ ⟨rfl, hb⟩
  exact h.push (h.operand hb)

theorem links_element (h : c.Linked p owed l) (ht : c.table.Sound S) (array : String) :
    StaysLinked p owed (element array) c := by
  rw [element, StaysLinked, ensures_bind]
  refine h.pop.mono ?_
  rintro index _ ⟨stack, rfl, hindex, h₁⟩
  rw [ensures_bind]
  refine (h₁.arrayElement ht array hindex).mono ?_
  rintro g _ ⟨e, l', rfl, h₂, -, -, hg⟩
  exact h₂.push hg

theorem links_member (h : c.Linked p owed l) (ht : c.table.Sound S) (inst field : String) :
    StaysLinked p owed (member inst field) c := by
  rw [member, StaysLinked, ensures_bind]
  refine (h.instanceField ht inst field).mono ?_
  rintro g _ ⟨rfl, hg⟩
  exact h.push (h.operand hg)

theorem links_arith (h : c.Linked p owed l) (token : String) :
    StaysLinked p owed (arith token) c := by
  unfold arith
  split
  · exact ensures_reject.mpr trivial
  · next op _ =>
    rw [StaysLinked, ensures_bind]
    refine h.popPair.mono ?_
    rintro ⟨left, right⟩ _ ⟨stack, rfl, hleft, hright, h₁⟩
    exact h₁.expression (Emitter.writes_arithmetic hleft hright op)

/-- The method that a bare call names is one of the current instance. -/
theorem ensures_ownMethod? (ht : c.table.Sound S) (name : String) :
    Ensures (ownMethod? name) c fun r c' => c' = c ∧ ∀ inst sig, r = some (inst, sig) →
      c.table.method? inst.name name = some sig := by
  unfold ownMethod?
  rw [ensures_bind, ensures_get]
  split
  · exact ensures_pure.mpr ⟨rfl, by simp⟩
  · next inst hinst =>
    obtain ⟨owner, -, howner⟩ := Option.bind_eq_some_iff.mp hinst
    rw [ensures_bind, onTable, ensures_zoom]
    refine SymbolTable.ensures_classAt_nat.mpr ?_
    intro k hk
    refine ensures_pure.mpr ⟨rfl, ?_⟩
    intro inst' sig hsig
    obtain ⟨_, hsig, heq⟩ := Option.map_eq_some_iff.mp hsig
    cases heq
    rw [(ht.instances owner inst howner).1]
    simp [SymbolTable.method?, SymbolTable.classOf?, howner, hk, hsig]

theorem Linked.callMethod (h : c.Linked p owed l) {owner name : String} {sig : Signature}
    (hsig : c.table.method? owner name = some sig) {args : List Operand}
    (hargs : ∀ arg ∈ args, arg.In (c.env p l)) :
    StaysLinked p owed
      (onEmitter (Emitter.callMethod owner sig args) >>= fun r => Compilation.push (.register r)) c := by
  obtain rfl : sig.name = name := (h.lexicon.method hsig).2.2
  have hcallee : (c.env p l).globals (.method owner sig.name) sig.symbolType :=
    .inr (.method hsig)
  have hslot (hknown : Emitter.resultName owner sig.name ∈ c.emitter.active.results) :
      (c.env p l).locals (.slot (Emitter.resultName owner sig.name) 0)
        (.pointer sig.result.irType) := by
    refine .inr ?_
    simp only [Draft.body, List.flatMap_append, List.mem_append, List.flatMap_map, Line.defines]
    exact .inl (h.frames.slot_of_result h.lexicon hsig hknown)
  rw [StaysLinked, ensures_bind, onEmitter, ensures_zoom]
  refine Ensures.mono (Emitter.builds_callMethod hcallee hargs hslot) ?_
  rintro r e ⟨_, code, hadds, htypes, hr, rfl⟩
  rw [Compilation.push, ensures_modify]
  refine ⟨_, h.grow hadds htypes (.refl _) h.lexicon ?_ (h.frames.called_method hsig) ?_⟩
  · have hheader : (Emitter.resultStorage owner sig c.emitter.active.results).header = [] := by
      unfold Emitter.resultStorage
      split <;> rfl
    rw [hheader, List.append_nil]
    exact h.stores
  · intro op hop
    rcases List.mem_cons.mp hop with rfl | hold
    · exact hr
    · exact (h.stack op hold).mono ((Env.le_add _ _).trans (Env.le_after _ _))

theorem links_call (h : c.Linked p owed l) (ht : c.table.Sound S) (name : String) (count : Int) :
    StaysLinked p owed (call name count) c := by
  rw [call, StaysLinked, ensures_bind]
  refine (h.popMany count).mono ?_
  rintro args _ ⟨stack, rfl, hargs, h₁⟩
  rw [ensures_bind]
  refine (ensures_ownMethod? (c := { c with stack }) ht name).mono ?_
  rintro r _ ⟨rfl, hr⟩
  split
  · next inst sig => exact h₁.callMethod (hr inst sig rfl) hargs
  · rw [ensures_bind, onTable, ensures_zoom]
    refine (SymbolTable.ensures_lookupFunction name _).mono ?_
    rintro sig _ ⟨rfl, hsig⟩
    obtain ⟨hname, hresult⟩ := h.lexicon.functions name sig hsig
    apply h₁.expression
    exact Emitter.writes_callFunction (.inr (hname ▸ .function hsig)) hresult hargs

theorem links_callMethod (h : c.Linked p owed l) (ht : c.table.Sound S) (inst method : String)
    (count : Int) : StaysLinked p owed (callMethod inst method count) c := by
  rw [Compilation.callMethod, StaysLinked, ensures_bind]
  refine (h.popMany count).mono ?_
  rintro args _ ⟨stack, rfl, hargs, h₁⟩
  rw [ensures_bind, onTable, ensures_zoom]
  refine (SymbolTable.ensures_lookupInstance inst _).mono ?_
  rintro i _ ⟨rfl, hi⟩
  rw [ensures_bind, onTable, ensures_zoom]
  refine SymbolTable.ensures_classAt_nat.mpr ?_
  intro k hk
  split
  · exact ensures_reject.mpr trivial
  · next sig hsig =>
    have hmethod : c.table.method? i.name method = some sig := by
      rw [(ht.instances inst i hi).1]
      simp [SymbolTable.method?, SymbolTable.classOf?, hi, hk, hsig]
    exact h₁.callMethod hmethod hargs

/-! ## Variables -/

/-- A variable takes a value, and its name is bound to the storage that holds it then. -/
theorem Linked.rebind (h : c.Linked p owed l) {b : Binding} (hb : b.Bound c.table)
    {x : Action Emitter Binding} {type : DataType}
    (hx : Emitter.Builds c.emitter (c.env p l) x fun s _ b' =>
      b.kind = .variable ∧ s = b.added type ∧ b' = b.rebound type) :
    StaysLinked p owed (onEmitter x >>= fun b' => onTable (SymbolTable.rebind b')) c := by
  have hname : IsIdentifier b.name := by
    cases b with
    | slot s => exact (h.frames.locals _ s hb).2.1
    | global g => exact h.lexicon.storage _ _ g hb.1
  have hrebound : (b.rebound type).name = b.name := by
    rcases b.rebound_cases type with ⟨-, type', -, heq⟩ | ⟨-, heq⟩ <;> rw [heq] <;> cases b <;> rfl
  rw [StaysLinked, ensures_bind, onEmitter, ensures_zoom]
  refine Ensures.mono hx ?_
  rintro _ e ⟨_, code, hadds, htypes, hvariable, rfl, rfl⟩
  rw [onTable, ensures_zoom]
  refine (SymbolTable.ensures_rebind _ _).mono ?_
  rintro _ _ rfl
  refine ⟨_, h.grow hadds htypes (SymbolTable.aligned_install _ _) ?_
    (SymbolTable.stores_rebound h.stores hb hvariable type)
    (SymbolTable.frames_rebound h.frames hb type) ?_⟩
  · exact h.lexicon.install (hb.in.rebound type) (hrebound ▸ hname)
  · intro op hop
    exact (h.stack op hop).mono ((Env.le_add _ _).trans (Env.le_after _ _))

theorem Linked.assignTo (h : c.Linked p owed l) {b : Binding} (hb : b.Bound c.table)
    {value : Operand} (hvalue : value.In (c.env p l)) :
    StaysLinked p owed (assignTo b value) c :=
  h.rebind hb (Emitter.builds_assign (h.operand hb) hb.index_eq hvalue)

theorem links_assign (h : c.Linked p owed l) (ht : c.table.Sound S) (name : String) :
    StaysLinked p owed (assign name) c := by
  rw [assign, StaysLinked, ensures_bind]
  refine h.pop.mono ?_
  rintro value _ ⟨stack, rfl, hvalue, h₁⟩
  rw [ensures_bind]
  refine (h₁.lookup ht name).mono ?_
  rintro b _ ⟨rfl, hb⟩
  exact h₁.assignTo hb hvalue

theorem links_assignMember (h : c.Linked p owed l) (ht : c.table.Sound S) (inst field : String) :
    StaysLinked p owed (assignMember inst field) c := by
  rw [assignMember, StaysLinked, ensures_bind]
  refine h.pop.mono ?_
  rintro value _ ⟨stack, rfl, hvalue, h₁⟩
  rw [ensures_bind]
  refine (h₁.instanceField ht inst field).mono ?_
  rintro g _ ⟨rfl, hg⟩
  exact h₁.assignTo hg hvalue

theorem links_assignElement (h : c.Linked p owed l) (ht : c.table.Sound S) (array : String) :
    StaysLinked p owed (assignElement array) c := by
  rw [assignElement, StaysLinked, ensures_bind]
  refine h.popPair.mono ?_
  rintro ⟨index, value⟩ _ ⟨stack, rfl, hindex, hvalue, h₁⟩
  rw [ensures_bind]
  refine (h₁.arrayElement ht array hindex).mono ?_
  rintro g _ ⟨e, l', rfl, h₂, hle, hg, hin⟩
  have hoperand : g.toOperand = .element g.toCell index := by
    simp [Global.toOperand, hg]
  rw [hoperand] at hin
  rw [ensures_bind]
  refine (h₂.code (Emitter.writes_assign_element hg hin (hvalue.mono hle)).builds).mono ?_
  rintro _ _ ⟨e₃, l₃, rfl, h₃, -⟩
  exact ensures_pure.mpr ⟨l₃, h₃⟩

theorem links_scan (h : c.Linked p owed l) (ht : c.table.Sound S) (type : DataType)
    (name : String) : StaysLinked p owed (scan type name) c := by
  rw [scan, StaysLinked, ensures_bind, requireScalar, ensures_require]
  intro _
  rw [ensures_bind]
  refine (h.lookup ht name).mono ?_
  rintro b _ ⟨rfl, hb⟩
  exact h.rebind hb (Emitter.builds_scan (env_provides p _ l) (h.operand hb) hb.index_eq)

theorem Linked.declareScalar (h : c.Linked p owed l) (ht : c.table.Sound S) {name : String}
    (hname : IsIdentifier name) (type : DataType) :
    Ensures (declareScalar name type) c fun b c' => ∃ t e l',
      c' = { c with table := t, emitter := e } ∧ c'.Linked p owed l' ∧
        (c.env p l).Le (c'.env p l') ∧ b.Bound t := by
  refine (ensures_declareScalar ht.names name type).mono ?_
  rintro b _ ⟨t, e, hdeclares, ⟨rfl, -, -, hversion⟩, hrun, rfl⟩
  obtain ⟨rfl, hnew, hin⟩ := hdeclares.eq_install h.lexicon
  obtain ⟨_, code, hadds, htypes, rfl, hvariable⟩ :=
    Emitter.builds_declareStorage (Γ := c.env p l) b true () e hrun
  have haligned := SymbolTable.aligned_install c.table b
  refine ⟨_, e, l.grow b.storage.header b.storage.allocas code, rfl, ?_,
    env_le_grow hadds haligned, hin.bound_install⟩
  apply h.grow hadds htypes haligned (h.lexicon.install hin hname)
    (SymbolTable.stores_declare h.stores hin hnew hvariable hversion)
    (SymbolTable.frames_declare h.frames hin hnew hname hversion)
  intro op hop
  exact (h.stack op hop).mono ((Env.le_add _ _).trans (Env.le_after _ _))

theorem links_declareVariable (h : c.Linked p owed l) (ht : c.table.Sound S) {name : String}
    (hname : IsIdentifier name) (hasInit : Bool) :
    StaysLinked p owed (declareVariable name hasInit) c := by
  rw [declareVariable, StaysLinked, ensures_ite]
  constructor
  · intro _
    rw [ensures_bind]
    refine h.pop.mono ?_
    rintro value _ ⟨stack, rfl, hvalue, h₁⟩
    rw [ensures_bind]
    refine (h₁.declareScalar ht hname value.type).mono ?_
    rintro b _ ⟨t, e, l', rfl, h₂, hle, hb⟩
    exact h₂.assignTo hb (hvalue.mono hle)
  · intro _
    rw [ensures_bind]
    refine (h.declareScalar ht hname .unresolved).mono ?_
    rintro b _ ⟨t, e, l', rfl, h₂, -⟩
    exact ensures_pure.mpr ⟨l', h₂⟩

theorem links_declareArray (h : c.Linked p owed l) (ht : c.table.Sound S) {name : String}
    (hname : IsIdentifier name) (type : DataType) (length count : Int) :
    StaysLinked p owed (declareArray name type length count) c := by
  refine (ensures_declareArray ht.names name type length count).mono ?_
  rintro _ _ ⟨elements, stack, g, t, e, hpop, -, -, -, ⟨inst, id, hg⟩, hdeclares, hrun, rfl⟩
  obtain ⟨stack', heq, helements, h₁⟩ := h.popMany count elements _ hpop
  cases heq
  obtain ⟨rfl, hnew, hin⟩ := hdeclares.eq_install h.lexicon
  have hscoped : (Binding.global g).Scoped c.table := hin.2
  rw [SymbolTable.install_of_binding? (b := .global g)
    (by rw [SymbolTable.binding?_install hscoped, if_pos rfl])]
  obtain ⟨_, code, hadds, htypes, rfl⟩ :=
    Emitter.builds_declareArray (Γ := c.env p l) helements g e hrun
  have hkind : g.kind = .array := by rw [hg]; rfl
  have hversion : g.version = 0 := by rw [hg]; rfl
  have haligned := SymbolTable.aligned_install c.table (.global g)
  refine ⟨_, h₁.grow hadds htypes haligned (h.lexicon.install hin (by rw [hg]; exact hname)) ?_ ?_
    ?_⟩
  · apply h.stores.insert hin
    · simp [Line.declares, Global.symbolType, hkind]
    · exact .inr hkind
    · intro g₀ hg₀
      have hnone : c.table.storage? g.inst g.name = none := hnew
      rw [hnone] at hg₀
      cases hg₀
    · omega
  · rw [SymbolTable.local?_install_global]
    simp only [Storage.allocas, List.map_nil, List.append_nil]
    refine h.frames.mono ?_
    rw [haligned.method?]
    exact fun _ _ _ hsig => hsig
  · intro op hop
    exact (h₁.stack op hop).mono ((Env.le_add _ _).trans (Env.le_after _ _))

/-! ## Other statements -/

theorem links_print (h : c.Linked p owed l) : StaysLinked p owed print c := by
  rw [print, StaysLinked, ensures_bind]
  refine h.pop.mono ?_
  rintro value _ ⟨stack, rfl, hvalue, h₁⟩
  refine (h₁.code (Emitter.writes_print (env_provides p _ l) hvalue).builds).mono ?_
  rintro _ _ ⟨e, l', rfl, h₂, -⟩
  exact ⟨l', h₂⟩

theorem links_beginCondition (h : c.Linked p owed l) : StaysLinked p owed beginCondition c := by
  rw [beginCondition, StaysLinked, ensures_bind, ensures_get, ensures_ite]
  constructor
  · intro _
    exact ensures_throw.mpr trivial
  · intro _
    exact h.statement Emitter.builds_openCondition

theorem links_compare (h : c.Linked p owed l) (token : String) :
    StaysLinked p owed (compare token) c := by
  unfold compare
  split
  · exact ensures_reject.mpr trivial
  · next op _ =>
    rw [StaysLinked, ensures_bind]
    refine h.popPair.mono ?_
    rintro ⟨left, right⟩ _ ⟨stack, rfl, hleft, hright, h₁⟩
    exact h₁.statement (Emitter.builds_compare hleft hright op)

theorem links_ret (h : c.Linked p owed l) : StaysLinked p owed ret c := by
  rw [ret, StaysLinked, ensures_bind]
  refine h.pop.mono ?_
  rintro value _ ⟨stack, rfl, hvalue, h₁⟩
  rw [ensures_bind]
  refine (h₁.statement (Emitter.builds_ret hvalue h₁.returns)).mono ?_
  rintro _ c' ⟨l', h'⟩
  exact ensures_modify.mpr ⟨l', h'.lays, h'.lexicon, h'.stores, h'.defines, h'.frames, h'.entry,
    h'.closed, h'.typed, h'.stack, h'.returns⟩

end Compilation

end MkCompiler
