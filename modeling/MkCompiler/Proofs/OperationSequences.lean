import MkCompiler.Proofs.SlotOrder

/-!
# Sequences of operations

The operations on an emitter, in any order and on any operands. Control flow, returns and functions
keep the emitter in order, as writing code and allocating storage does. Main result: after any
sequence of operations, each of which returned, be it with an error, the emitter is in order with
the slots that the operations have asked for.
-/

namespace MkCompiler

open MkCompiler.Action

namespace Emitter

variable {α : Type} {e e' : Emitter} {l : SlotLedger}

/-! ## Control flow -/

theorem AppendsCode.openControls_eq (h : AppendsCode e e') : e'.openControls = e.openControls := by
  obtain ⟨code, k, o, -, -, rfl⟩ := h
  change (modifyActive (·.setCounter k) e).openControls = _
  rw [openControls_update, Emitter.openControls_eq]
  rfl

theorem AppendsCode.labels_eq (h : AppendsCode e e') : e'.labels = e.labels := by
  obtain ⟨code, k, o, -, -, rfl⟩ := h
  exact labels_modifyActive e _

theorem leads_appendsCode_terminate {i : Instr} (hi : i.isSlot = false) :
    Leads AppendsCode (terminate i) := by
  intro e
  rw [ends_of_ok (terminate_eq i e)]
  exact appendsCode_write _ (by simpa [Line.isPlain] using hi) _ e

theorem leads_appendsCode_placeLabel (l : Label) : Leads AppendsCode (placeLabel l) := by
  intro e
  rw [ends_of_ok (placeLabel_eq l e)]
  exact appendsCode_write _ (by simp [Line.isPlain, Line.opens]) _ e

theorem openCondition_eq (h : e.conditionOpen = false) : ∃ k,
    openCondition e = .ok ()
      { modifyActive (fun _ => { e.active.setCounter k with openCompare := some e.labels }) e with
        output := e.output.append
          [.instr (.jump ⟨.compare, e.labels⟩), .label ⟨.compare, e.labels⟩]
        labels := e.labels + 1 } := by
  let e₁ : Emitter := { e with labels := e.labels + 1 }
  let e₂ := e₁.write [.instr (.jump ⟨.compare, e.labels⟩)] ⟨e₁.number, true⟩
  refine ⟨⟨e₂.active.counter.next, false⟩, bind_eq_ok.mpr ⟨e, e, rfl, ?_⟩⟩
  rw [if_neg (by simp [h])]
  refine bind_eq_ok.mpr ⟨(), e₁, rfl, bind_eq_ok.mpr ⟨(), e₂, terminate_eq _ e₁, ?_⟩⟩
  refine bind_eq_ok.mpr ⟨(), _, placeLabel_eq _ e₂, ?_⟩
  change EStateM.Result.ok () _ = _
  rw [write_write, List.singleton_append]
  unfold Emitter.write appendLines modifyActive Emitter.active
  cases e.function <;> simp [e₁]

theorem Distinct.concat (h : e.Distinct) (id : Nat) (hnew : id ∉ e.openControls)
    (hcontrols : e'.openControls.Perm (id :: e.openControls)) (hid : id < e'.labels)
    (hlabels : e.labels ≤ e'.labels) : e'.Distinct := by
  refine ⟨hcontrols.nodup_iff.mpr (List.nodup_cons.mpr ⟨hnew, h.nodup⟩), fun n hn => ?_⟩
  rcases List.mem_cons.mp (hcontrols.mem_iff.mp hn) with rfl | hn
  · exact hid
  · exact Nat.lt_of_lt_of_le (h.lt_labels n hn) hlabels

theorem InOrder.openCondition (h : e.InOrder l) (hopen : e.conditionOpen = false) :
    ∃ e', openCondition e = .ok () e' ∧ e'.InOrder l ∧ e'.inFunction = e.inFunction ∧
      e'.conditionOpen = true := by
  obtain ⟨k, hrun⟩ := openCondition_eq hopen
  have hnone : e.active.openCompare = none := by
    rwa [conditionOpen, Option.isSome_eq_false_iff, Option.isNone_iff_eq_none] at hopen
  refine ⟨_, hrun, h.grow _ rfl rfl ?_ (.refl _) ?_, inFunction_modifyActive _ e, ?_⟩
  · simp [Line.isPlain, Instr.isSlot, Line.opens]
  · refine h.distinct.concat e.labels ?_ ?_ (Nat.lt_succ_self _) (Nat.le_succ _)
    · intro hmem
      exact Nat.lt_irrefl _ (h.distinct.lt_labels _ hmem)
    · rw [openControls_modifyActive, openControls_eq, FunctionContext.controls,
        FunctionContext.controls, hnone, ← List.append_assoc]
      simpa using List.perm_append_singleton e.labels (e.waitingControls ++ e.active.pending)
  · change (modifyActive _ e).conditionOpen = _
    rw [conditionOpen, active_modifyActive]
    rfl

theorem InOrder.returns_openCondition (h : e.InOrder l) :
    Returns Emitter.openCondition e (Fills e l []) := by
  cases hopen : e.conditionOpen with
  | false =>
    obtain ⟨e', hrun, horder, hinside, -⟩ := h.openCondition hopen
    rw [Returns, ends_of_ok hrun]
    exact ⟨hinside, (l.add_nil _).symm ▸ horder⟩
  | true =>
    rw [Returns, Emitter.openCondition, ends_bind, ends_get, if_pos hopen, ends_throw]
    exact fun h => Bool.noConfusion h

/-- The number of a condition that is taken belongs to no construct any more. -/
theorem InOrder.ends_closeCondition (h : e.InOrder l) (hopen : e.conditionOpen = true) :
    Ends closeCondition e (fun id e' => e'.InOrder l ∧ e'.inFunction = e.inFunction ∧
      id ∉ e'.openControls ∧ id < e'.labels) fun _ _ => False := by
  obtain ⟨id, hid⟩ := Option.isSome_iff_exists.mp hopen
  rw [closeCondition, ends_bind, ends_get, hid]
  dsimp only
  rw [ends_bind, ends_modify, ends_pure]
  have hcontrols : e.openControls.Perm
      (id :: (modifyActive (fun c => { c with openCompare := none }) e).openControls) := by
    rw [openControls_update, openControls_eq, FunctionContext.controls, FunctionContext.controls,
      hid, ← List.append_assoc]
    simpa using List.perm_append_singleton id (e.waitingControls ++ e.active.pending)
  have hnodup := List.nodup_cons.mp (hcontrols.nodup_iff.mp h.distinct.nodup)
  have hlabels := labels_modifyActive e fun c => { c with openCompare := none }
  refine ⟨h.update rfl rfl ⟨hnodup.2, fun n hn => ?_⟩, inFunction_modifyActive _ e, hnodup.1, ?_⟩
  · rw [hlabels]
    exact h.distinct.lt_labels n (hcontrols.mem_iff.mpr (List.mem_cons_of_mem _ hn))
  · rw [hlabels]
    exact h.distinct.lt_labels id (hcontrols.mem_iff.mpr List.mem_cons_self)

theorem InOrder.ends_takeCondition (h : e.InOrder l) :
    Ends takeCondition e (fun id e' => e'.InOrder l ∧ e'.inFunction = e.inFunction ∧
      id ∉ e'.openControls ∧ id < e'.labels) fun _ _ => False := by
  rw [takeCondition_eq, ends_bind, ends_get, ends_ite]
  constructor
  · intro hclosed
    obtain ⟨e₁, hrun, horder, hinside, hopen⟩ := h.openCondition hclosed
    rw [ends_bind, ends_of_ok hrun, ← hinside]
    exact horder.ends_closeCondition hopen
  · intro hopen
    exact h.ends_closeCondition (eq_true_of_ne_false hopen)

/-- Steps that only write code lead up to what follows them. -/
theorem AppendsCode.ends_bind {β : Type} {e₀ : Emitter} {x : Action Emitter α}
    {f : α → Action Emitter β} {Q : β → Emitter → Prop} {E : Failure → Emitter → Prop}
    (h₀ : AppendsCode e₀ e) (hx : Leads AppendsCode x)
    (hf : ∀ a e', AppendsCode e₀ e' → Ends (f a) e' Q E)
    (hfailed : ∀ f e', AppendsCode e₀ e' → E f e') : Ends (x >>= f) e Q E := by
  rw [Action.ends_bind]
  exact (hx e).mono (fun a e' h => hf a e' (trans_of AppendsCode h₀ h))
    fun f e' h => hfailed f e' (trans_of AppendsCode h₀ h)

theorem InOrder.returns_compare (h : e.InOrder l) (left : Operand) (op : Comparison)
    (right : Operand) : Returns (compare left op right) e (Fills e l []) := by
  rw [Returns, compare, ends_bind]
  apply h.ends_takeCondition.mono
  · rintro id e₀ ⟨horder, hinside, hfree, hlt⟩
    have hfills : Fills e l [] e₀ := ⟨hinside, (l.add_nil _).symm ▸ horder⟩
    -- If an operand is refused, the construct is dropped and its number is never used again.
    have hfailed (f : Failure) (e₁ : Emitter) (h₁ : AppendsCode e₀ e₁)
        (_ : f.isReturned = true) : Fills e l [] e₁ := hfills.appendsCode h₁
    refine (refl_of AppendsCode e₀).ends_bind (computes_appendsCode.widen left right false) ?_
      hfailed
    rintro ⟨lr, rr⟩ e₁ h₁
    refine h₁.ends_bind (computes_appendsCode.load lr) (fun lv e₂ h₂ => ?_) hfailed
    refine h₂.ends_bind (computes_appendsCode.load rr) (fun rv e₃ h₃ => ?_) hfailed
    refine h₃.ends_bind leads_appendsCode_fresh (fun n e₄ h₄ => ?_) hfailed
    refine h₄.ends_bind (leads_appendsCode_emit rfl) (fun _ e₅ h₅ => ?_) hfailed
    refine h₅.ends_bind (leads_appendsCode_terminate rfl) (fun _ e₆ h₆ => ?_) hfailed
    refine h₆.ends_bind (leads_appendsCode_placeLabel _) (fun _ e₇ h₇ => ?_) hfailed
    rw [ends_modify]
    have horder₇ := horder.appendsCode h₇
    refine ⟨(inFunction_modifyActive _ e₇).trans (h₇.inFunction_eq.trans hinside), ?_⟩
    rw [l.add_nil]
    refine horder₇.update rfl rfl (horder₇.distinct.concat id ?_ ?_ ?_ ?_)
    · rwa [h₇.openControls_eq]
    · rw [openControls_update, openControls_eq e₇]
      exact List.perm_middle
    · rwa [labels_modifyActive, h₇.labels_eq]
    · exact Nat.le_of_eq (labels_modifyActive _ _).symm
  · intro _ _ hfalse
    exact hfalse.elim

theorem InOrder.returns_endControl (h : e.InOrder l) (kind : ControlKind) :
    Returns (endControl kind) e (Fills e l []) := by
  unfold Returns endControl
  rw [ends_bind, ends_get]
  split
  · exact fun _ => h.fills
  · next id pending hpending =>
    rw [ends_bind, ends_modify]
    have hfills : Fills e l [] (modifyActive (fun c => { c with pending }) e) := by
      refine ⟨inFunction_modifyActive _ e, ?_⟩
      rw [l.add_nil]
      refine h.update rfl rfl (h.distinct.sublist ?_ (labels_modifyActive _ _))
      rw [openControls_update, openControls_eq e, FunctionContext.controls,
        FunctionContext.controls, hpending]
      exact (List.sublist_cons_self _ _).append_left _
    exact hfills.leads ((leads_appendsCode_terminate rfl).bind fun _ =>
      leads_appendsCode_placeLabel _)

/-! ## Returns -/

/-- A failure of the emitter itself: if it is returned, the program has been rejected. -/
def IsOwn (f : Failure) : Prop :=
  f.isReturned = true → f.isRejection = true

def returned (op : Operand) (type : DataType) : Action Emitter Value := do
  let r ← materialize op
  load (← cast r type)

theorem keeps_isOwn_returned (op : Operand) (type : DataType) :
    Keeps (fun _ => True) (fun _ => True) IsOwn (returned op type) := by
  have htrue : WriteClosed fun _ => True := fun _ _ _ _ => trivial
  have hop : op.Admitted IsOwn := by
    refine .inr ⟨fun _ _ _ => rfl, .inr ?_⟩
    rintro ⟨⟩
  exact (keeps_materialize htrue hop).bind fun r => (keeps_cast htrue r type).bind
    fun r' => keeps_load htrue r'

theorem release_of_held {target : Section} {buffer : List Line}
    (h : e.output.routing = .held target buffer) : onOutput Assembly.release e =
      .ok buffer { e with output := { e.output with routing := .direct target } } := by
  apply zoom_eq_ok
  refine bind_eq_ok.mpr ⟨e.output, e.output, rfl, ?_⟩
  rw [h]
  rfl

/-- What has been written while the output was held is all in the buffer. -/
theorem AppendsCode.release {target : Section} (hr : e.output.routing = .direct target)
    (h : AppendsCode { e with output := { e.output with routing := .held target [] } } e') :
    ∃ code k o, (∀ line ∈ code, Line.isPlain line = true) ∧ e.output.Agrees o ∧
      onOutput Assembly.release e' =
        .ok code { modifyActive (·.setCounter k) e with output := o } := by
  obtain ⟨code, k, o, hcode, ho, rfl⟩ := h
  refine ⟨code, k, { o with routing := .direct target }, hcode,
    ⟨hr.symm, ho.entryBody, ho.functions⟩, ?_⟩
  rw [release_of_held ho.routing]
  unfold modifyActive
  cases e.function <;> rfl

/-- Behind a capture the output is what it was before, and only the numbering has changed. -/
theorem ends_capture_code {target : Section} (hr : e.output.routing = .direct target)
    {x : Action Emitter α} (hx : Leads AppendsCode x)
    (hown : Keeps (fun _ => True) (fun _ => True) IsOwn x) :
    Ends (capture x) e
      (fun r e' => (∀ line ∈ r.2, line.isPlain = true) ∧ ∃ k o, e.output.Agrees o ∧
        e' = { modifyActive (·.setCounter k) e with output := o })
      fun f e' => f.isReturned = true → AppendsCode e e' := by
  have hruns := (hx _).and
    (hown { e with output := { e.output with routing := .held target [] } } trivial)
  rw [capture_eq, ends_bind, ends_of_ok (hold_eq hr), ends_bind]
  apply (ends_releasing (E := fun f e' => f.isReturned = true → AppendsCode e e') hruns ?_ ?_).mono
  · rintro a e₁ ⟨hwritten, -⟩
    obtain ⟨code, k, o, hcode, ho, hrelease⟩ := hwritten.release hr
    rw [ends_bind, ends_of_ok hrelease, ends_pure]
    exact ⟨hcode, k, o, ho, rfl⟩
  · intro _ _ h
    exact h
  · rintro v e₁ ⟨hwritten, -⟩
    obtain ⟨code, k, o, -, ho, hrelease⟩ := hwritten.release hr
    rw [ends_bind, ends_of_ok hrelease]
    exact fun _ => ⟨[], k, o, by simp, by rwa [Assembly.append_nil], rfl⟩
  · rintro f e₁ ⟨-, hown, -⟩ hrejected hreturned
    cases f with
    | rejected v => exact absurd rfl (hrejected v)
    | stream _ => cases hown rfl
    | internal _ | fault _ => cases hreturned

theorem returns_ret {target : Section} (hr : e.output.routing = .direct target) (op : Operand) :
    Returns (ret op) e (AppendsCode e) := by
  rw [Returns, ret, ends_bind, ends_get]
  split
  · exact fun _ => refl_of AppendsCode e
  · next f hf =>
    let type := f.signature.result.storage
    have hvalue : Leads AppendsCode (returned op type) :=
      (computes_appendsCode.materialize op).bind fun _ =>
        (computes_appendsCode.cast _ _).bind fun _ => computes_appendsCode.load _
    change Ends (capture (returned op type) >>= _) e _ _
    rw [ends_bind]
    apply (ends_capture_code hr hvalue (keeps_isOwn_returned op type)).mono
    · rintro ⟨v, lines⟩ _ ⟨hcode, k, o, ho, rfl⟩
      dsimp only
      rw [ends_bind, ends_modify, ends_modify]
      refine ⟨lines ++ [.instr (.ret type.irType v)], ⟨k.next, true⟩, _, ?_, ho.append _, ?_⟩
      · simpa [or_imp, forall_and, Line.isPlain, Instr.isSlot] using hcode
      · unfold appendLines modifyActive
        cases e.function <;> rfl
    · intro _ _ h
      exact h

/-! ## Functions -/

theorem InOrder.openFunction (h : e.InOrder l) (hnone : e.function = none) (name : GlobalName)
    (sig : Signature) (params : List Param) :
    ({ e with
      function := some ⟨sig, ⟨.functions, params.length + 1, [], none, [],
        ⟨.functions, ((e.openedOutput name sig params).content .functions).length⟩, false⟩⟩
      output := e.openedOutput name sig params } : Emitter).InOrder l := by
  obtain ⟨closed, hclosed, hledger, hfunctions, -⟩ := h.functions
  obtain ⟨hcurrent, hlines⟩ := hfunctions hnone
  have houtput : e.openedOutput name sig params = { e.output with
      functions := e.output.functions ++
        (.define sig.result.irType name (params.map fun p => p.type.irType) ::
          (paramCode 0 params).map .instr)
      routing := .direct .functions } := by
    rw [openedOutput, Assembly.select, h.routing]
    rfl
  rw [houtput]
  refine ⟨rfl, h.entry, ⟨closed, hclosed, hledger, by simp, ?_⟩, ?_⟩
  · rintro _ ⟨⟩
    refine ⟨_, ⟨sig.result.irType, name, params, rfl⟩, rfl, ?_, [], by simp, ?_⟩
    · rw [hcurrent, hlines]
      simp [Assembly.content]
    · rw [hcurrent, hlines]
      simp
  · refine h.distinct.sublist ?_ rfl
    simp [openControls, hnone, FunctionContext.controls]

theorem InOrder.endFunction (h : e.InOrder l) {f : OpenFunction} (hf : e.function = some f)
    (hcontrols : f.context.controls = []) :
    ({ e with
      function := none
      output := (e.output.append
        (closingCode f.context.detached ++ [.close])).select .entryBody } : Emitter).InOrder
      { l with closed := l.closed ++ [l.current], current := [] } := by
  obtain ⟨closed, hclosed, hledger, -, hopened⟩ := h.functions
  obtain ⟨opening, hopening, hfits⟩ := hopened f hf
  obtain ⟨code, hcode, hlines⟩ := hfits.content
  have houtput : (e.output.append (closingCode f.context.detached ++ [.close])).select .entryBody =
      { e.output with
        functions := e.output.functions ++ (closingCode f.context.detached ++ [.close])
        routing := .direct .entryBody } := by
    have hrouting := h.routing
    have hinside : e.inFunction = true := by simp [inFunction, hf]
    rw [h.active_target, if_pos hinside] at hrouting
    rw [h.append_eq, if_pos hinside, Assembly.select, hrouting]
  rw [houtput]
  have hclosing : ∀ line ∈ closingCode f.context.detached ++ [.close], line.isPlain = true := by
    cases f.context.detached <;> simp [closingCode, Line.isPlain, Instr.isSlot, Line.opens]
  let text : FunctionText :=
    ⟨opening, l.current, code ++ (closingCode f.context.detached ++ [.close])⟩
  refine ⟨congrArg Routing.direct h.entry.target_eq.symm, h.entry,
    ⟨closed ++ [text], ?_, ?_, fun _ => ⟨rfl, ?_⟩, by simp⟩, h.distinct.sublist ?_ rfl⟩
  · intro t ht
    rcases List.mem_append.mp ht with ht | ht
    · exact hclosed t ht
    · rw [List.mem_singleton.mp ht]
      refine ⟨hopening, fun line hline => ?_⟩
      rcases List.mem_append.mp hline with hline | hline
      · exact hcode line hline
      · exact hclosing line hline
  · simp [hledger, text]
  · rw [hlines]
    simp [text, FunctionText.lines]
  · simp [openControls, hf, hcontrols]

theorem InOrder.finish (h : e.InOrder l) : ({ e with finished := true } : Emitter).InOrder l :=
  ⟨h.routing, h.entry, h.functions, h.distinct.nodup, h.distinct.lt_labels⟩

/-! ## Sequences of operations -/

inductive Operation where
  | openCondition
  | compare (left : Operand) (op : Comparison) (right : Operand)
  | endControl (kind : ControlKind)
  | declareFunction (sig : Signature) (params : List Param)
  | declareMethod (inst : String) (sig : Signature) (params : List Param)
  | endFunction
  | ret (op : Operand)
  | callFunction (sig : Signature) (args : List Operand)
  | callMethod (inst : String) (sig : Signature) (args : List Operand)
  | materialize (op : Operand)
  | cast (r : Register) (target : DataType)
  | arithmetic (left : Operand) (op : ArithOp) (right : Operand)
  | element (array : Binding) (index : Operand)
  | print (op : Operand)
  | scan (type : DataType) (target : Binding)
  | declareVariable (b : Binding)
  | declareField (g : Global)
  | assign (left : Binding) (right : Operand)
  | declareArray (array : Global) (length : Int) (elements : List Operand)
  | finish

namespace Operation

def run : Operation → Action Emitter Unit
  | openCondition => Emitter.openCondition
  | compare left op right => Emitter.compare left op right
  | endControl kind => Emitter.endControl kind
  | declareFunction sig params => do let _ ← Emitter.declareFunction sig params
  | declareMethod inst sig params => do let _ ← Emitter.declareMethod inst sig params
  | endFunction => Emitter.endFunction
  | ret op => Emitter.ret op
  | callFunction sig args => do let _ ← Emitter.callFunction sig args
  | callMethod inst sig args => do let _ ← Emitter.callMethod inst sig args
  | materialize op => do let _ ← Emitter.materialize op
  | cast r target => do let _ ← Emitter.cast r target
  | arithmetic left op right => do let _ ← Emitter.arithmetic left op right
  | element array index => do let _ ← Emitter.element array index
  | print op => Emitter.print op
  | scan type target => do let _ ← Emitter.scan type target
  | declareVariable b => Emitter.declareVariable b
  | declareField g => Emitter.declareField g
  | assign left right => do let _ ← Emitter.assign left right
  | declareArray array length elements => do let _ ← Emitter.declareArray array length elements
  | finish => do let _ ← Emitter.finish

/-- The state behind an operation that returns, be it with an error. -/
def after? (op : Operation) (e : Emitter) : Option Emitter :=
  match op.run e with
  | .ok _ e' => some e'
  | .error f e' => if f.isReturned then some e' else none

/-- The slots that an operation asks for if it leads from `e` to `e'`. A slot for the result of a
method is asked for by the first call that comes to use it. -/
def slots (e e' : Emitter) : Operation → List Line
  | declareVariable (.slot v) => if v.type.isLowered then [slotLine v] else []
  | assign (.slot v) right =>
    if right.type.isLowered = true ∧ right.kind ≠ .array then rebindSlots v right.type else []
  | scan type (.slot v) => if type.storage.isLowered then rebindSlots v type.storage else []
  | callMethod inst sig _ =>
    if resultName inst sig.name ∉ e.active.results ∧ resultName inst sig.name ∈ e'.active.results
    then [.instr (.alloca (.slot (resultName inst sig.name) 0) sig.result.irType)]
    else []
  | _ => []

def note (op : Operation) (e e' : Emitter) (l : SlotLedger) : SlotLedger :=
  if e'.inFunction = e.inFunction then l.add e.inFunction (op.slots e e')
  else if e.inFunction then { l with closed := l.closed ++ [l.current], current := [] }
  else l

theorem of_after? {op : Operation} {Q : Emitter → Prop} (h : op.after? e = some e')
    (hq : Returns op.run e Q) : Q e' := by
  unfold after? at h
  unfold Returns Ends at hq
  cases hrun : op.run e with
  | ok _ e₁ =>
    rw [hrun] at h hq
    exact Option.some.inj h ▸ hq
  | error f e₁ =>
    rw [hrun] at h hq
    cases hreturned : f.isReturned with
    | false => simp [hreturned] at h
    | true =>
      simp only [hreturned, if_true] at h
      exact Option.some.inj h ▸ hq hreturned

end Operation

theorem Fills.note {slots : List Line} {op : Operation} (h : Fills e l slots e')
    (hslots : op.slots e e' = slots) : e'.InOrder (op.note e e' l) := by
  rw [Operation.note, if_pos h.inFunction, hslots]
  exact h.inOrder

theorem InOrder.returns_note (h : e.InOrder l) {op : Operation} {x : Action Emitter α}
    (hx : Leads AppendsCode x) (hslots : ∀ e', op.slots e e' = []) :
    Returns x e fun e' => e'.InOrder (op.note e e' l) :=
  (h.fills.leads hx).mono fun e' hfills => hfills.note (hslots e')

theorem InOrder.note_self (h : e.InOrder l) {op : Operation} (hslots : op.slots e e = []) :
    e.InOrder (op.note e e l) :=
  h.fills.note hslots

theorem InOrder.returns_openFunction (h : e.InOrder l) (name : GlobalName) (sig : Signature)
    (params : List Param) {op : Operation} (hslots : ∀ e', op.slots e e' = []) :
    Returns (Emitter.openFunction name sig params) e fun e' => e'.InOrder (op.note e e' l) := by
  apply (openFunction_outcome h.routing name sig params).mono
  · rintro _ _ ⟨hnone, rfl⟩
    rw [Operation.note, if_neg (by simp [inFunction, hnone]), if_neg (by simp [inFunction, hnone])]
    exact h.openFunction hnone name sig params
  · rintro _ _ rfl _
    exact h.note_self (hslots _)

theorem InOrder.returns_endFunction (h : e.InOrder l) :
    Returns Emitter.endFunction e fun e' => e'.InOrder (Operation.endFunction.note e e' l) := by
  apply (endFunction_outcome e).mono
  · rintro _ _ ⟨f, hf, ⟨hpending, hopen⟩, rfl⟩
    rw [Operation.note, if_neg (by simp [inFunction, hf]), if_pos (by simp [inFunction, hf])]
    exact h.endFunction hf (by simp [FunctionContext.controls, hpending, hopen])
  · rintro _ _ rfl _
    exact h.note_self rfl

theorem InOrder.returns_finish (h : e.InOrder l) :
    Returns Emitter.finish e fun e' => e'.InOrder (Operation.finish.note e e' l) := by
  apply (finish_outcome e).mono
  · rintro _ _ ⟨-, rfl⟩
    have happends := appendsCode_write [.instr (.ret .i32 (.constant "0")), .close]
      (by simp [Line.isPlain, Instr.isSlot, Line.opens]) e.active.counter.enter e
    have hfills := h.fills.appendsCode happends
    exact Fills.note ⟨hfills.inFunction, hfills.inOrder.finish⟩ rfl
  · rintro _ _ rfl _
    exact h.note_self rfl

/-- The operations on variables of a body ask for the slots that they allocate. -/
theorem InOrder.returns_slots (h : e.InOrder l) (v : Local) :
    Returns (Operation.declareVariable (.slot v)).run e
      (fun e' => e'.InOrder ((Operation.declareVariable (.slot v)).note e e' l)) := by
  apply (h.ends_declareStorage v true).mono
  · rintro _ e' ⟨hlowered, hfills⟩
    exact hfills.note (if_pos hlowered)
  · intro f e' hfailed hreturned
    obtain ⟨hlowered, rfl⟩ := hfailed hreturned
    exact h.note_self (if_neg (by simp [hlowered]))

/-- Every operation that returns leaves the emitter in order. -/
theorem InOrder.step (h : e.InOrder l) {op : Operation} (hop : op.after? e = some e') :
    e'.InOrder (op.note e e' l) := by
  refine op.of_after? (Q := fun e' => e'.InOrder (op.note e e' l)) hop ?_
  cases op with
  | openCondition => exact h.returns_openCondition.mono fun _ hfills => hfills.note rfl
  | compare left op right =>
    exact (h.returns_compare left op right).mono fun _ hfills => hfills.note rfl
  | endControl kind => exact (h.returns_endControl kind).mono fun _ hfills => hfills.note rfl
  | declareFunction sig params => exact (h.returns_openFunction _ sig params fun _ => rfl).drop
  | declareMethod inst sig params => exact (h.returns_openFunction _ sig params fun _ => rfl).drop
  | endFunction => exact h.returns_endFunction
  | ret op =>
    exact (returns_ret h.routing op).mono fun _ happends =>
      (h.fills.appendsCode happends).note rfl
  | callFunction sig args =>
    exact (h.returns_note (computes_appendsCode.callFunction sig args) fun _ => rfl).drop
  | callMethod inst sig args =>
    refine (h.returns_callMethod inst sig args).drop.mono fun e' hcalled => ?_
    rcases hcalled with ⟨hfills, hresults⟩ | ⟨hfills, hnew, hresults⟩
    · exact hfills.note (if_neg fun hp => hp.1 (hresults ▸ hp.2))
    · exact hfills.note (if_pos ⟨hnew, hresults⟩)
  | materialize op =>
    exact (h.returns_note (computes_appendsCode.materialize op) fun _ => rfl).drop
  | cast r target => exact (h.returns_note (computes_appendsCode.cast r target) fun _ => rfl).drop
  | arithmetic left op right =>
    exact (h.returns_note (computes_appendsCode.arithmetic left op right) fun _ => rfl).drop
  | element array index =>
    exact (h.returns_note (computes_appendsCode.element array index) fun _ => rfl).drop
  | print op => exact h.returns_note (computes_appendsCode.print op) fun _ => rfl
  | scan type target =>
    cases target with
    | global g => exact (h.returns_note (leads_appendsCode_scan type g) fun _ => rfl).drop
    | slot v =>
      refine (h.returns_scan type v).drop.mono fun e' hscanned => ?_
      rcases hscanned with ⟨hlowered, hfills⟩ | ⟨hlowered, rfl⟩
      · exact hfills.note (if_pos hlowered)
      · exact h.note_self (if_neg (by simp [hlowered]))
  | declareVariable b =>
    cases b with
    | global g => exact h.returns_note (leads_appendsCode_declareStorage g true) fun _ => rfl
    | slot v => exact h.returns_slots v
  | declareField g =>
    refine h.returns_note (.ite (fun _ => .throw _) fun _ => ?_) fun _ => rfl
    exact leads_appendsCode_declareStorage g true
  | assign left right =>
    cases left with
    | global g => exact (h.returns_note (leads_appendsCode_assign g right) fun _ => rfl).drop
    | slot v =>
      refine (h.returns_assign v right).drop.mono fun e' hassigned => ?_
      rcases hassigned with ⟨hlowered, hfills⟩ | ⟨hlowered, rfl⟩
      · exact hfills.note (if_pos hlowered)
      · exact h.note_self (if_neg hlowered)
  | declareArray array length elements =>
    exact (h.returns_note (leads_appendsCode_declareArray array length elements) fun _ => rfl).drop
  | finish => exact h.returns_finish.drop

/-- Runs operations as long as they return, and notes the slots they ask for. -/
def follow : List Operation → Emitter → SlotLedger → Option (Emitter × SlotLedger)
  | [], e, l => some (e, l)
  | op :: ops, e, l => (op.after? e).bind fun e' => follow ops e' (op.note e e' l)

theorem InOrder.follow (h : e.InOrder l) {ops : List Operation} {l' : SlotLedger}
    (hrun : follow ops e l = some (e', l')) : e'.InOrder l' := by
  induction ops generalizing e l with
  | nil =>
    cases hrun
    exact h
  | cons op ops ih =>
    obtain ⟨e₁, hop, hrest⟩ := Option.bind_eq_some_iff.mp hrun
    exact ih (h.step hop) hrest

/-- After operations on any operands, each of which returned, be it with an error, the emitter is in
order. -/
theorem follow_inOrder {symbols : RuntimeSymbols} {ops : List Operation}
    (h : follow ops (start symbols) {} = some (e, l)) : e.InOrder l :=
  (inOrder_start symbols).follow h

/-- Operations of which four are refused: an assignment after it has allocated a slot, a return
while the output is held, a function inside of a function, and a comparison after it has taken the
condition. -/
def sampleOperations : List Operation :=
  let row : Cell := { name := "row", type := .real, kind := .arrayElement }
  let refused : Operand := .element row (.literal ⟨.char, "c"⟩)
  let one : Operand := .literal (Literal.ofInt 1)
  [.callMethod "p" ⟨"get", .int, []⟩ [], .openCondition,
    .declareFunction ⟨"main", .int, [.int]⟩ [⟨"n", .int⟩], .declareVariable (.slot { name := "m" }),
    .assign (.slot { name := "n", type := .int }) refused, .ret refused,
    .declareFunction ⟨"inner", .int, []⟩ [], .callMethod "p" ⟨"get", .int, []⟩ [],
    .compare one .lt one, .endControl .loop, .ret one, .endFunction,
    .callMethod "q" ⟨"get", .real, []⟩ [], .compare one .lt refused, .finish]

theorem follow_inOrder_sample : ∃ e l, follow sampleOperations (start .standard) {} = some (e, l) ∧
    (l.entry.length, l.closed.map List.length) = (2, [3]) ∧ e.InOrder l := by
  have hrun : (follow sampleOperations (start .standard) {}).map
      (fun s => (s.2.entry.length, s.2.closed.map List.length)) = some (2, [3]) := by
    decide +kernel
  obtain ⟨⟨e, l⟩, hfollow, hlengths⟩ := Option.map_eq_some_iff.mp hrun
  exact ⟨e, l, hfollow, hlengths, follow_inOrder hfollow⟩

end Emitter

end MkCompiler
