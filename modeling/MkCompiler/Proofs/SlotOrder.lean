import MkCompiler.Proofs.BodyOperations
import MkCompiler.Proofs.ControlScopes
import MkCompiler.Proofs.Deliveries
import MkCompiler.Proofs.Growth
import MkCompiler.Proofs.Primitives

/-!
# Order of the slots

Named slots are hoisted: wherever in a body a slot is needed, it is allocated at the top, behind the
slots that are there already. A ledger notes which slots have been asked for, one after the other.
An emitter is in order if its output goes straight to the section of the context that receives
instructions, every body has at its top the slots that the ledger notes for it, the marks lie behind
them, and the control constructs that are open have numbers of their own. What writes code and what
allocates storage keeps this up, also if it fails half-way.
-/

namespace MkCompiler

open MkCompiler.Action

def Instr.isSlot : Instr → Bool
  | .alloca (.slot _ _) _ => true
  | _ => false

/-- Whether the line may stand in the code of a body: it allocates no named slot and opens no
function. -/
def Line.isPlain : Line → Bool
  | .instr i => !i.isSlot
  | line => !line.opens

/-! ## Output up to the header -/

/-- Two assemblies that differ in the header and the declaration of the entry point at most. -/
structure Assembly.Agrees (o o' : Assembly Line) : Prop where
  routing : o'.routing = o.routing
  entryBody : o'.entryBody = o.entryBody
  functions : o'.functions = o.functions

namespace Assembly.Agrees

variable {o o' o'' : Assembly Line}

theorem refl (o : Assembly Line) : Agrees o o := ⟨rfl, rfl, rfl⟩

theorem trans (h : Agrees o o') (h' : Agrees o' o'') : Agrees o o'' :=
  ⟨h'.routing.trans h.routing, h'.entryBody.trans h.entryBody, h'.functions.trans h.functions⟩

theorem append (h : Agrees o o') (code : List Line) : Agrees (o.append code) (o'.append code) := by
  unfold Assembly.append
  rw [h.routing]
  cases o.routing with
  | held resume buffer => exact ⟨rfl, h.entryBody, h.functions⟩
  | direct target =>
    cases target with
    | entryBody => exact ⟨h.routing, congrArg (· ++ code) h.entryBody, h.functions⟩
    | functions => exact ⟨h.routing, h.entryBody, congrArg (· ++ code) h.functions⟩
    | _ => exact ⟨h.routing, h.entryBody, h.functions⟩

end Assembly.Agrees

namespace Emitter

variable {α : Type} {e e' : Emitter}

/-- Appends code, and perhaps lines of the header. Of the contexts only the numbering changes. -/
def AppendsCode (e e' : Emitter) : Prop :=
  ∃ code k o, (∀ line ∈ code, Line.isPlain line = true) ∧ (e.output.append code).Agrees o ∧
    e' = { modifyActive (·.setCounter k) e with output := o }

theorem appendsCode_write (code : List Line) (hcode : ∀ line ∈ code, line.isPlain = true)
    (k : Counter) (e : Emitter) : AppendsCode e (e.write code k) := by
  refine ⟨code, k, e.output.append code, hcode, .refl _, ?_⟩
  rw [write, appendLines, output_modifyActive]

instance : IsPreorder Emitter AppendsCode where
  refl e := by
    have h := appendsCode_write [] (by simp) e.active.counter e
    rwa [write_nil] at h
  trans := by
    rintro e _ _ ⟨code, k, o, hcode, ho, rfl⟩ ⟨code', k', o', hcode', ho', rfl⟩
    refine ⟨code ++ code', k', o', ?_, ?_, ?_⟩
    · simpa [or_imp, forall_and] using ⟨hcode, hcode'⟩
    · rw [← Assembly.append_append]
      exact (ho.append code').trans ho'
    · unfold modifyActive
      cases e.function <;> rfl

theorem leads_appendsCode_fresh : Leads AppendsCode fresh := by
  intro e
  rw [ends_of_ok (fresh_eq e)]
  exact appendsCode_write _ (by simp) _ e

theorem leads_appendsCode_emit {i : Instr} (hi : i.isSlot = false) :
    Leads AppendsCode (emit i) := by
  intro e
  rw [ends_of_ok (emit_eq i e)]
  exact appendsCode_write _ (by simpa [Line.isPlain] using hi) _ e

theorem computes_appendsCode : Computes fun {_} x => Leads AppendsCode x := by
  refine .of_parts (composes_leads AppendsCode) leads_appendsCode_fresh fun i _ hd =>
    leads_appendsCode_emit ?_
  unfold Instr.isSlot
  split
  · exact absurd rfl (hd _ _)
  · rfl

theorem leads_appendsCode_header (line : Line) :
    Leads AppendsCode (modify (appendHeader line) : Action Emitter PUnit) := by
  refine .update fun e => ?_
  refine ⟨[], e.active.counter, e.output.appendTo .header [line], by simp, ?_, ?_⟩
  · rw [Assembly.append_nil]
    exact ⟨rfl, rfl, rfl⟩
  · obtain ⟨_, _, _, function, _, _⟩ := e
    cases function <;> rfl

theorem AppendsCode.active (h : AppendsCode e e') : ∃ k, e'.active = e.active.setCounter k := by
  obtain ⟨code, k, o, -, -, rfl⟩ := h
  exact ⟨k, active_modifyActive e _⟩

theorem AppendsCode.inFunction_eq (h : AppendsCode e e') : e'.inFunction = e.inFunction := by
  obtain ⟨code, k, o, -, -, rfl⟩ := h
  exact inFunction_modifyActive _ e

end Emitter

/-- If the operation returns, be it with an error, then in a state as described. -/
def Emitter.Returns {α : Type} (x : Action Emitter α) (e : Emitter) (Q : Emitter → Prop) : Prop :=
  Ends x e (fun _ e' => Q e') fun f e' => f.isReturned = true → Q e'

namespace Emitter.Returns

variable {α : Type} {x : Action Emitter α} {e : Emitter} {P Q : Emitter → Prop}

theorem mono (h : Returns x e P) (hpq : ∀ e', P e' → Q e') : Returns x e Q :=
  Ends.mono h (fun _ e' => hpq e') fun _ e' hp hreturned => hpq e' (hp hreturned)

theorem of_leads {R : Emitter → Emitter → Prop} (h : Leads R x) : Returns x e (R e) :=
  (h e).mono (fun _ _ hr => hr) fun _ _ hr _ => hr

theorem drop (h : Returns x e Q) : Returns (do let _ ← x) e Q :=
  ends_bind.mpr (Ends.mono h (fun _ _ hq => ends_pure.mpr hq) fun _ _ hq => hq)

end Emitter.Returns

/-! ## Slots at the top of the bodies -/

/-- The slots that have been asked for, in the order of the requests. -/
structure SlotLedger where
  entry : List Line := []
  /-- Those of the functions that are closed. -/
  closed : List (List Line) := []
  /-- Those of the function that is open. -/
  current : List Line := []

/-- Notes slots for the function that is open, or for the entry point. -/
def SlotLedger.add (l : SlotLedger) (inside : Bool) (slots : List Line) : SlotLedger :=
  if inside then { l with current := l.current ++ slots } else { l with entry := l.entry ++ slots }

@[simp] theorem SlotLedger.add_nil (l : SlotLedger) (inside : Bool) : l.add inside [] = l := by
  cases inside <;> simp [add]

structure FunctionText where
  opening : List Line
  slots : List Line
  code : List Line

namespace FunctionText

def lines (t : FunctionText) : List Line :=
  t.opening ++ t.slots ++ t.code

/-- A function opens with the stores of its arguments. -/
def IsOpening (lines : List Line) : Prop :=
  ∃ type name params, lines = .define type name (params.map fun p : Param => p.type.irType) ::
    (Emitter.paramCode 0 params).map .instr

structure WellFormed (t : FunctionText) : Prop where
  opening : IsOpening t.opening
  code : ∀ line ∈ t.code, line.isPlain = true

end FunctionText

/-- Behind `before` the section has the slots of the context, and its code behind them. The mark
lies between the two. -/
structure FunctionContext.Fits (c : FunctionContext) (target : Section)
    (content before slots : List Line) : Prop where
  target_eq : c.target = target
  mark : c.slots = ⟨target, (before ++ slots).length⟩
  content : ∃ code, (∀ line ∈ code, Line.isPlain line = true) ∧ content = before ++ slots ++ code

theorem FunctionContext.Fits.append {c c' : FunctionContext} {target : Section}
    {content before slots code : List Line} (h : c.Fits target content before slots)
    (htarget : c'.target = c.target) (hslots : c'.slots = c.slots)
    (hcode : ∀ line ∈ code, line.isPlain = true) :
    c'.Fits target (content ++ code) before slots := by
  obtain ⟨code₀, hcode₀, rfl⟩ := h.content
  refine ⟨htarget.trans h.target_eq, hslots.trans h.mark, code₀ ++ code, ?_, by simp⟩
  simpa [or_imp, forall_and] using ⟨hcode₀, hcode⟩

/-- A line that is inserted at the mark is one more slot. -/
theorem FunctionContext.Fits.insert_eq {c : FunctionContext} {target : Section} {o : Assembly Line}
    {content before slots : List Line} (h : c.Fits target content before slots)
    (ho : o.content target = content) (htarget : target.isAssigned = true) (line : Line) :
    ∃ m content', Assembly.insert c.slots [line] o = .ok m (o.setContent content' target) ∧
      ({ c with slots := m } : FunctionContext).Fits target content' before (slots ++ [line]) := by
  obtain ⟨code, hcode, hcontent⟩ := h.content
  have hsplits : o.Splits c.slots (before ++ slots) code := by
    rw [h.mark]
    exact ⟨htarget, rfl, ho.trans hcontent⟩
  have hinsert := hsplits.insert_eq [line]
  rw [h.mark] at hinsert ⊢
  exact ⟨_, _, hinsert, h.target_eq, by simp, code, hcode, by simp⟩

namespace Emitter

variable {e e' : Emitter} {l : SlotLedger}

def openControls (e : Emitter) : List Nat :=
  e.entry.controls ++ e.function.elim [] fun f => f.context.controls

/-- The open control constructs have numbers of their own, which have been given out. -/
structure Distinct (e : Emitter) : Prop where
  nodup : e.openControls.Nodup
  lt_labels : ∀ n ∈ e.openControls, n < e.labels

/-- The output is not held, every body has its slots at the top, and the control constructs are told
apart. -/
structure InOrder (e : Emitter) (l : SlotLedger) : Prop where
  routing : e.output.routing = .direct e.active.target
  entry : e.entry.Fits .entryBody e.output.entryBody [] l.entry
  functions : ∃ closed : List FunctionText,
    (∀ t ∈ closed, t.WellFormed) ∧ closed.map (·.slots) = l.closed ∧
    (e.function = none → l.current = [] ∧ e.output.functions = closed.flatMap (·.lines)) ∧
    ∀ f, e.function = some f → ∃ opening, FunctionText.IsOpening opening ∧
      f.context.Fits .functions e.output.functions (closed.flatMap (·.lines) ++ opening) l.current
  distinct : e.Distinct

theorem inOrder_start (symbols : RuntimeSymbols) : (start symbols).InOrder {} where
  routing := rfl
  entry := ⟨rfl, rfl, [], by simp, rfl⟩
  functions := ⟨[], by simp, rfl, fun _ => ⟨rfl, rfl⟩, by simp [start]⟩
  distinct := ⟨List.nodup_nil, by simp [openControls, start, FunctionContext.controls]⟩

theorem InOrder.active_target (h : e.InOrder l) :
    e.active.target = if e.inFunction then .functions else .entryBody := by
  obtain ⟨closed, -, -, -, hsome⟩ := h.functions
  unfold Emitter.active inFunction
  cases hf : e.function with
  | none => exact h.entry.target_eq
  | some f =>
    obtain ⟨opening, -, hfits⟩ := hsome f hf
    exact hfits.target_eq

theorem InOrder.append_eq (h : e.InOrder l) (code : List Line) : e.output.append code =
    if e.inFunction then { e.output with functions := e.output.functions ++ code }
    else { e.output with entryBody := e.output.entryBody ++ code } := by
  rw [Assembly.append, h.routing, h.active_target]
  cases e.inFunction <;> rfl

theorem InOrder.grow (h : e.InOrder l) {c : FunctionContext} {o : Assembly Line} {n : Nat}
    (code : List Line) (htarget : c.target = e.active.target) (hslots : c.slots = e.active.slots)
    (hcode : ∀ line ∈ code, line.isPlain = true) (ho : (e.output.append code).Agrees o)
    (hdistinct :
      ({ modifyActive (fun _ => c) e with output := o, labels := n } : Emitter).Distinct) :
    ({ modifyActive (fun _ => c) e with output := o, labels := n } : Emitter).InOrder l := by
  obtain ⟨closed, hclosed, hledger, hnone, hsome⟩ := h.functions
  have hrouting : o.routing = .direct c.target := by
    rw [ho.routing, Assembly.routing_append _ h.routing, htarget]
  rw [h.append_eq] at ho
  refine ⟨?_, ?_, ⟨closed, hclosed, hledger, ?_, ?_⟩, hdistinct⟩ <;>
    cases hf : e.function <;> simp only [inFunction, hf, Emitter.active] at ho htarget hslots <;>
    simp only [modifyActive, hf, Emitter.active]
  · exact hrouting
  · exact hrouting
  · rw [ho.entryBody]
    exact h.entry.append htarget hslots hcode
  · rw [ho.entryBody]
    exact h.entry
  · rw [ho.functions]
    exact fun _ => hnone hf
  · rintro ⟨⟩
  · rintro _ ⟨⟩
  · rintro _ ⟨⟩
    obtain ⟨opening, hopening, hfits⟩ := hsome _ hf
    rw [ho.functions]
    exact ⟨opening, hopening, hfits.append htarget hslots hcode⟩

def waitingControls (e : Emitter) : List Nat :=
  if e.inFunction then e.entry.controls else []

theorem openControls_eq (e : Emitter) :
    e.openControls = e.waitingControls ++ e.active.controls := by
  unfold openControls waitingControls inFunction Emitter.active
  cases e.function <;> simp

theorem openControls_modifyActive (c : FunctionContext) (o : Assembly Line) (n : Nat)
    (e : Emitter) :
    ({ modifyActive (fun _ => c) e with output := o, labels := n } : Emitter).openControls =
      e.waitingControls ++ c.controls := by
  unfold openControls waitingControls inFunction modifyActive
  cases e.function <;> simp

theorem Distinct.sublist (h : e.Distinct) (hcontrols : e'.openControls.Sublist e.openControls)
    (hlabels : e'.labels = e.labels) : e'.Distinct :=
  ⟨h.nodup.sublist hcontrols, fun n hn => hlabels ▸ h.lt_labels n (hcontrols.subset hn)⟩

/-- A change of the active context and of the output that leaves the control constructs alone. -/
theorem Distinct.update (h : e.Distinct) {c : FunctionContext}
    (hc : c.controls = e.active.controls) (o : Assembly Line) :
    ({ modifyActive (fun _ => c) e with output := o, labels := e.labels } : Emitter).Distinct := by
  refine h.sublist ?_ rfl
  rw [openControls_modifyActive, hc, ← openControls_eq]

theorem InOrder.appendsCode (h : e.InOrder l) (happends : AppendsCode e e') : e'.InOrder l := by
  obtain ⟨code, k, o, hcode, ho, rfl⟩ := happends
  have heq : ({ modifyActive (·.setCounter k) e with output := o } : Emitter) =
      { modifyActive (fun _ => e.active.setCounter k) e with output := o, labels := e.labels } := by
    unfold modifyActive Emitter.active
    cases e.function <;> rfl
  rw [heq]
  exact h.grow _ rfl rfl hcode ho (h.distinct.update (c := e.active.setCounter k) rfl o)

theorem openControls_update (f : FunctionContext → FunctionContext) (e : Emitter) :
    (modifyActive f e).openControls = e.waitingControls ++ (f e.active).controls := by
  unfold openControls waitingControls inFunction modifyActive Emitter.active
  cases e.function <;> simp

/-- A change of the active context that does not touch the marks. -/
theorem InOrder.update (h : e.InOrder l) {f : FunctionContext → FunctionContext}
    (htarget : (f e.active).target = e.active.target) (hslots : (f e.active).slots = e.active.slots)
    (hdistinct : (modifyActive f e).Distinct) : (modifyActive f e).InOrder l := by
  have heq : modifyActive f e = { modifyActive (fun _ => f e.active) e with
      output := e.output, labels := e.labels } := by
    unfold modifyActive Emitter.active
    cases e.function <;> rfl
  have hnone := Assembly.append_nil e.output
  rw [heq] at hdistinct ⊢
  exact h.grow [] htarget hslots (by simp) (hnone.symm ▸ .refl _) hdistinct

/-- A slot that is hoisted stands behind those that are there already. -/
theorem InOrder.hoist (h : e.InOrder l) (name : LocalName) (type : DataType) :
    ∃ m o, hoist name type e = .ok ()
        { modifyActive (fun _ => { e.active with slots := m }) e with
          output := o, labels := e.labels } ∧
      ({ modifyActive (fun _ => { e.active with slots := m }) e with
          output := o, labels := e.labels } : Emitter).InOrder
        (l.add e.inFunction [.instr (.alloca name type.irType)]) := by
  obtain ⟨closed, hclosed, hledger, hnone, hsome⟩ := h.functions
  have hrun {m : Mark} {o : Assembly Line} (hinsert : Assembly.insert e.active.slots
      [.instr (.alloca name type.irType)] e.output = .ok m o) :
      Emitter.hoist name type e = .ok ()
        { modifyActive (fun _ => { e.active with slots := m }) e with
          output := o, labels := e.labels } := by
    refine bind_eq_ok.mpr ⟨e, e, rfl, bind_eq_ok.mpr ⟨m, _, zoom_eq_ok hinsert, ?_⟩⟩
    change EStateM.Result.ok () _ = _
    unfold modifyActive Emitter.active
    cases e.function <;> rfl
  have hdistinct (m : Mark) (o : Assembly Line) :=
    h.distinct.update (c := { e.active with slots := m }) rfl o
  have hrouting := h.routing
  cases hf : e.function with
  | none =>
    obtain ⟨m, content, hinsert, hfits⟩ := h.entry.insert_eq (o := e.output) rfl rfl
      (.instr (.alloca name type.irType))
    refine ⟨m, e.output.setContent content .entryBody, hrun ?_, ?_, ?_, ?_, hdistinct _ _⟩
    · rw [Emitter.active, hf]
      exact hinsert
    all_goals simp only [modifyActive, hf, inFunction, Emitter.active] at hrouting ⊢
    · exact hrouting
    · exact hfits
    · exact ⟨closed, hclosed, hledger, fun _ => hnone hf, by simp⟩
  | some f =>
    obtain ⟨opening, hopening, hfits₀⟩ := hsome f hf
    obtain ⟨m, content, hinsert, hfits⟩ := hfits₀.insert_eq (o := e.output) rfl rfl
      (.instr (.alloca name type.irType))
    refine ⟨m, e.output.setContent content .functions, hrun ?_, ?_, ?_, ?_, hdistinct _ _⟩
    · rw [Emitter.active, hf]
      exact hinsert
    all_goals simp only [modifyActive, hf, inFunction, Emitter.active] at hrouting ⊢
    · exact hrouting
    · exact h.entry
    · refine ⟨closed, hclosed, hledger, by simp, ?_⟩
      rintro _ ⟨⟩
      exact ⟨opening, hopening, hfits⟩

/-! ## Storage of variables -/

def slotLine (v : Local) : Line :=
  .instr (.alloca v.slot v.type.storage.irType)

def rebindSlots (v : Local) (type : DataType) : List Line :=
  if v.type.storage = type.storage then [] else [slotLine (v.withVersion (v.version + 1) type)]

/-- What happens in a body: no function is opened or closed, and slots are allocated. -/
structure Fills (e : Emitter) (l : SlotLedger) (slots : List Line) (e' : Emitter) : Prop where
  inFunction : e'.inFunction = e.inFunction
  inOrder : e'.InOrder (l.add e.inFunction slots)

theorem InOrder.fills (h : e.InOrder l) : Fills e l [] e :=
  ⟨rfl, (l.add_nil _).symm ▸ h⟩

theorem Fills.appendsCode {slots : List Line} {e₁ : Emitter} (h : Fills e l slots e₁)
    (happends : AppendsCode e₁ e') : Fills e l slots e' :=
  ⟨happends.inFunction_eq.trans h.inFunction, h.inOrder.appendsCode happends⟩

/-- Behind slots that have been allocated, operations only write code. -/
theorem Fills.leads {slots : List Line} {e₁ : Emitter} (h : Fills e l slots e₁)
    {x : Action Emitter α} (hx : Leads AppendsCode x) : Returns x e₁ (Fills e l slots) :=
  (Returns.of_leads hx).mono fun _ happends => h.appendsCode happends

theorem InOrder.ends_hoist (h : e.InOrder l) (name : LocalName) (type : DataType) :
    Ends (Emitter.hoist name type) e
      (fun _ e' => Fills e l [.instr (.alloca name type.irType)] e' ∧
        e'.active.results = e.active.results)
      fun _ _ => False := by
  obtain ⟨m, o, hrun, horder⟩ := h.hoist name type
  rw [ends_of_ok hrun]
  refine ⟨⟨inFunction_modifyActive _ e, horder⟩, ?_⟩
  change (modifyActive (fun _ => { e.active with slots := m }) e).active.results = _
  rw [active_modifyActive]

theorem InOrder.ends_declareStorage (h : e.InOrder l) (v : Local) (zeroed : Bool) :
    Ends (declareStorage (.slot v) zeroed) e
      (fun _ e' => v.type.isLowered = true ∧ Fills e l [slotLine v] e')
      fun f e' => f.isReturned = true → v.type.isLowered = false ∧ e' = e := by
  rw [declareStorage, ends_bind, ends_require]
  refine ⟨fun hlowered => ?_, fun hlowered _ => ⟨eq_false_of_ne_true hlowered, rfl⟩⟩
  dsimp only
  rw [ends_bind, ends_get, ends_ite]
  refine ⟨fun _ => ?_, fun _ h => Bool.noConfusion h⟩
  rw [ends_bind]
  apply (h.ends_hoist _ _).mono
  · rintro _ e₁ ⟨hfills, -⟩
    rw [ends_ite]
    refine ⟨fun _ => ?_, fun _ => ends_pure.mpr ⟨hlowered, hfills⟩⟩
    rw [store, ends_of_ok (emit_eq _ e₁)]
    refine ⟨hlowered, hfills.appendsCode ?_⟩
    exact appendsCode_write _ (by simp [Line.isPlain, Instr.isSlot]) _ e₁
  · intro _ _ hfalse
    exact hfalse.elim

theorem InOrder.ends_rebind (h : e.InOrder l) (v : Local) {type : DataType}
    (htype : type.isLowered = true) : Ends (rebind (.slot v) type) e
      (fun _ e' => Fills e l (rebindSlots v type) e') fun f _ => f.isReturned = false := by
  rw [rebind, rebindSlots, ends_ite]
  constructor
  · intro (hstorage : v.type.storage = type.storage)
    rw [if_pos hstorage, ends_ite]
    exact ⟨fun _ => h.fills, fun _ => h.fills⟩
  · intro (hstorage : ¬v.type.storage = type.storage)
    rw [if_neg hstorage]
    dsimp only
    rw [ends_bind]
    apply (h.ends_declareStorage (v.withVersion (v.version + 1) type) false).mono
    · rintro _ e' ⟨-, hfills⟩
      exact hfills
    · intro f e' hfailed
      rw [Bool.eq_false_iff]
      intro hreturned
      cases htype.symm.trans (hfailed hreturned).1

theorem InOrder.returns_assign (h : e.InOrder l) (v : Local) (right : Operand) :
    Returns (assign (.slot v) right) e fun e' =>
      (right.type.isLowered = true ∧ right.kind ≠ .array) ∧
          Fills e l (rebindSlots v right.type) e' ∨
        ¬(right.type.isLowered = true ∧ right.kind ≠ .array) ∧ e' = e := by
  rw [Returns, assign, checkLowered, ends_bind, ends_bind, ends_require]
  refine ⟨fun hlowered => ?_, fun hlowered _ => .inr ⟨fun hp => hlowered hp.1, rfl⟩⟩
  rw [ends_require]
  refine ⟨fun hkind => ?_, fun hkind _ => .inr ⟨fun hp => hkind hp.2, rfl⟩⟩
  rw [assignVariable, ends_bind]
  apply (h.ends_rebind v hlowered).mono
  · intro target e₁ hfills
    have hrest := hfills.leads ((computes_appendsCode.value right).bind fun w =>
      (computes_appendsCode.store right.type w target.pointer).bind fun _ => .pure target)
    exact hrest.mono fun _ hfilled => .inl ⟨⟨hlowered, hkind⟩, hfilled⟩
  · intro f e₁ hpanic hreturned
    rw [hreturned] at hpanic
    cases hpanic

theorem InOrder.returns_scan (h : e.InOrder l) (type : DataType) (v : Local) :
    Returns (scan type (.slot v)) e fun e' =>
      type.storage.isLowered = true ∧ Fills e l (rebindSlots v type.storage) e' ∨
        type.storage.isLowered = false ∧ e' = e := by
  rw [Returns, scan]
  dsimp only
  rw [ends_bind, ends_require]
  refine ⟨fun hlowered => ?_, fun hlowered _ => .inr ⟨eq_false_of_ne_true hlowered, rfl⟩⟩
  rw [scanTarget, ends_bind, ends_bind]
  apply (h.ends_rebind v hlowered).mono
  · intro b e₁ hfills
    rw [ends_pure]
    have hrest : Returns _ e₁ _ := hfills.leads (leads_appendsCode_fresh.bind fun n =>
      Leads.get.bind fun e₂ => (leads_appendsCode_emit (i := .scan n (.external e₂.symbols.scanf)
        (e₂.symbols.scanFormat type.storage) type.storage.irType b.pointer) rfl).bind
          fun _ => .pure b)
    exact hrest.mono fun _ hfilled => .inl ⟨hlowered, hfilled⟩
  · intro f e₁ hpanic hreturned
    rw [hreturned] at hpanic
    cases hpanic

/-! Program-level storage is declared in the header. -/

theorem leads_appendsCode_declareStorage (g : Global) (zeroed : Bool) :
    Leads AppendsCode (declareStorage (.global g) zeroed) :=
  computes_appendsCode.declareStorage_global (fun _ _ _ => leads_appendsCode_header _) g zeroed

theorem leads_appendsCode_assign (g : Global) (right : Operand) :
    Leads AppendsCode (assign (.global g) right) :=
  computes_appendsCode.assign (computes_appendsCode.rebind (leads_appendsCode_declareStorage _ _))

theorem leads_appendsCode_scan (type : DataType) (g : Global) :
    Leads AppendsCode (scan type (.global g)) :=
  computes_appendsCode.scan (computes_appendsCode.rebind (leads_appendsCode_declareStorage _ _))

theorem leads_appendsCode_declareArray (array : Global) (length : Int) (elements : List Operand) :
    Leads AppendsCode (declareArray array length elements) :=
  computes_appendsCode.declareArray array length elements
    (fun _ _ _ => leads_appendsCode_header _) .reject

/-- A call of a method allocates a slot for the result, unless there is one already. -/
theorem InOrder.returns_callMethod (h : e.InOrder l) (inst : String) (sig : Signature)
    (args : List Operand) : Returns (callMethod inst sig args) e fun e' =>
      Fills e l [] e' ∧ e'.active.results = e.active.results ∨
        Fills e l [.instr (.alloca (.slot (resultName inst sig.name) 0) sig.result.irType)] e' ∧
          resultName inst sig.name ∉ e.active.results ∧
          resultName inst sig.name ∈ e'.active.results := by
  let slots := [Line.instr (.alloca (.slot (resultName inst sig.name) 0) sig.result.irType)]
  let Q : Emitter → Prop := fun e' =>
    Fills e l [] e' ∧ e'.active.results = e.active.results ∨
      Fills e l slots e' ∧ resultName inst sig.name ∉ e.active.results ∧
        resultName inst sig.name ∈ e'.active.results
  -- Behind the call only code is written.
  have hrest {e₁ : Emitter} (hq : Q e₁) (v : Value) (slot : Local) : Ends (do
      store sig.result v (.frame slot.slot)
      materialize (.slot slot)) e₁ (fun _ e' => Q e') fun f e' => f.isReturned = true → Q e' := by
    have hkeeps (e' : Emitter) (happends : AppendsCode e₁ e') : Q e' := by
      obtain ⟨k, hactive⟩ := happends.active
      rcases hq with ⟨hfills, hresults⟩ | ⟨hfills, hnew, hresults⟩
      · exact .inl ⟨hfills.appendsCode happends, hactive ▸ hresults⟩
      · exact .inr ⟨hfills.appendsCode happends, hnew, hactive ▸ hresults⟩
    have hwrites := (computes_appendsCode.store sig.result v (.frame slot.slot)).bind fun _ =>
      computes_appendsCode.materialize (.slot slot)
    exact (hwrites e₁).mono (fun _ => hkeeps) fun _ e' happends _ => hkeeps e' happends
  rw [Returns, callMethod, ends_bind]
  apply (computes_appendsCode.call (.method inst sig.name) sig args e).mono
  · intro v e₁ hcall
    obtain ⟨k, hactive⟩ := hcall.active
    have hfills := h.fills.appendsCode hcall
    have horder := h.appendsCode hcall
    have hresults : e₁.active.results = e.active.results := by
      rw [hactive, FunctionContext.results_setCounter]
    rw [ends_bind, ends_get, ends_ite]
    refine ⟨fun hnew => ?_, fun _ => hrest (.inl ⟨hfills, hresults⟩) v _⟩
    rw [ends_bind]
    apply (horder.ends_hoist _ _).mono
    · rintro _ e₂ ⟨hhoisted, hkept⟩
      rw [ends_bind, ends_modify]
      refine hrest (.inr ⟨⟨?_, ?_⟩, ?_, ?_⟩) v _
      · exact (inFunction_modifyActive _ e₂).trans (hhoisted.inFunction.trans hfills.inFunction)
      · rw [← hfills.inFunction]
        refine hhoisted.inOrder.update rfl rfl
          (hhoisted.inOrder.distinct.sublist ?_ (labels_modifyActive _ _))
        rw [openControls_update, openControls_eq e₂]
        exact .refl _
      · rwa [← hresults]
      · rw [active_modifyActive]
        exact List.mem_append_right _ (List.mem_singleton.mpr rfl)
    · intro _ _ hfalse
      exact hfalse.elim
  · intro f e₁ hcall hreturned
    obtain ⟨k, hactive⟩ := hcall.active
    exact .inl ⟨h.fills.appendsCode hcall, by rw [hactive, FunctionContext.results_setCounter]⟩

end Emitter

end MkCompiler
