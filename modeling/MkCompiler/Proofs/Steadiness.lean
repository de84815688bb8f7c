import MkCompiler.Proofs.Anchors

/-!
# Steadiness of the emitter

The operations that declare storage, store values, and open and close constructs and functions keep
the emitter steady: its output is not held, its marks are in place, and it is inside of a function or
outside of all, as the operation says. They fail only by rejecting the program, and they are steady
then, too.
-/

namespace MkCompiler

open MkCompiler.Action

/-- A variable or an array, but no element of one. -/
def Global.Stored (g : Global) : Prop :=
  (g.kind = .variable ∨ g.kind = .array) ∧ g.index = none

/-- A binding whose storage can be declared: a variable, which is not one of a function body outside
of all. -/
def Binding.Storable (inside : Bool) : Binding → Prop
  | .global g => g.kind = .variable
  | .slot _ => inside = true

/-- A binding a value can be assigned to, or is refused for. -/
def Binding.Assignable (inside : Bool) : Binding → Prop
  | .global g => g.Stored ∨ ∃ index, g.kind = .arrayElement ∧ g.index = some index ∧ index.Proper
  | .slot _ => inside = true

theorem Global.Stored.proper {g : Global} (h : g.Stored) : g.toOperand.Proper := by
  obtain ⟨hkind, hindex⟩ := h
  unfold toOperand
  rw [hindex]
  intro helement
  rcases hkind with hkind | hkind <;> rw [hkind] at helement <;> cases helement

theorem Binding.Storable.withVersion {inside : Bool} {b : Binding} (h : b.Storable inside)
    (version : Int) (type : DataType) : (b.withVersion version type).Storable inside := by
  cases b <;> exact h

namespace Emitter

variable {α : Type} {P : Emitter → Prop} {e : Emitter}

section Steady

variable {inside finished : Bool} {F : Failure → Prop}

abbrev StaysSteady (inside finished : Bool) (x : Action Emitter α) : Prop :=
  Keeps (Steady inside finished) (Steady inside finished) Rejects x

theorem keeps_header (line : Line) : Keeps (Steady inside finished) (Steady inside finished) F
    (modify (appendHeader line) : Action Emitter PUnit) := by
  apply Keeps.update
  intro e h
  apply h.grow
  · exact Assembly.routing_setContent _ _ _
  · intro s
    rw [Assembly.appendTo, Assembly.content_setContent _ rfl]
    by_cases hs : s = .header
    · rw [if_pos hs, hs, List.length_append]
      omega
    · simp only [if_neg hs, Nat.le_refl]

theorem keeps_hoist (name : LocalName) (type : DataType) :
    Keeps (Steady inside finished) (Steady inside finished) F (hoist name type) := by
  intro e h
  have hactive := h.anchored.active
  have hmark : e.active.slots.target = e.active.target := hactive.mark_eq
  unfold hoist
  rw [ends_bind, ends_get, ends_bind, onOutput, ends_zoom]
  apply Assembly.ends_insert
  · exact hmark ▸ h.anchored.isAssigned
  · exact hactive.nonneg
  · exact hmark ▸ hactive.le
  · intro o hr ho
    rw [ends_modify]
    have hanchored : ({ e.active with slots := { e.active.slots with
        position := e.active.slots.position + 1 } } : FunctionContext).Anchored o
          e.active.target := by
      have hle := hactive.le
      have hnonneg := hactive.nonneg
      refine ⟨rfl, hmark, ?_, ?_⟩
      · dsimp only
        omega
      · rw [ho, if_pos hmark.symm]
        dsimp only [List.length_cons, List.length_nil]
        omega
    have hkept := h.replace (n := e.labels) hr (fun s => by rw [ho]; omega) hanchored
    unfold modifyActive active at hkept ⊢
    cases hf : e.function <;> rw [hf] at hkept <;> exact hkept

theorem keeps_declareStorage (hF : Reports F) {b : Binding} (h : b.Storable inside)
    (zeroed : Bool) :
    Keeps (Steady inside finished) (Steady inside finished) F (declareStorage b zeroed) := by
  apply (keeps_require _ (hF _ rfl)).bind
  intro _
  cases b with
  | global g =>
    apply Keeps.ite
    · intro _
      exact keeps_header _
    · intro hkind
      exact absurd h hkind
  | slot l =>
    intro e he
    rw [ends_bind, ends_get]
    have hinside : e.inFunction = true := he.inside.trans h
    rw [if_pos hinside]
    apply (keeps_hoist _ _).bind _ e he
    intro _
    apply Keeps.ite
    · intro _
      exact keeps_store (writeClosed_steady _ _) _ _ _
    · intro _
      exact .pure _

theorem keeps_declareVariable (hF : Reports F) {g : Global} (h : g.kind = .variable) :
    Keeps (Steady inside finished) (Steady inside finished) F (declareVariable (.global g)) :=
  keeps_declareStorage hF (b := .global g) h true

theorem keeps_rebind (hF : Reports F) {b : Binding} (h : b.Storable inside) (type : DataType) :
    Keeps (Steady inside finished) (Steady inside finished) F (rebind b type) := by
  apply Keeps.ite
  · intro _
    exact .ite (fun _ => .pure _) fun _ => .pure _
  · intro _
    exact (keeps_declareStorage hF (h.withVersion _ _) false).bind fun _ => .pure _

theorem keeps_assignVariable (hF : Reports F) (left : Binding) {right : Operand}
    (hl : left.Storable inside) (hr : right.Proper) :
    Keeps (Steady inside finished) (Steady inside finished) F (assignVariable left right) := by
  have hP := writeClosed_steady inside finished
  exact (keeps_rebind hF hl _).bind fun _ => (keeps_value hP (.inr ⟨hF, .inl hr⟩)).bind fun _ =>
    (keeps_store hP _ _ _).bind fun _ => .pure _

theorem keeps_assignElement (hF : Reports F) {g : Global} {index right : Operand}
    (hg : g.index = some index) (hi : index.Proper) (hr : right.Proper) :
    Keeps (Steady inside finished) (Steady inside finished) F (assignElement g right) := by
  have hP := writeClosed_steady inside finished
  exact (keeps_require _ (hF _ rfl)).bind fun _ => (keeps_value hP (.inr ⟨hF, .inl hr⟩)).bind
    fun _ => (keeps_elementPointer hP hg (.inr ⟨hF, .inl hi⟩)).bind fun _ => keeps_store hP _ _ _

theorem keeps_assign (hF : Reports F) {left : Binding} {right : Operand}
    (hl : left.Assignable inside) (hr : right.Proper) :
    Keeps (Steady inside finished) (Steady inside finished) F (assign left right) := by
  apply (keeps_checkLowered (.inr ⟨hF, .inl hr⟩)).bind
  intro _
  cases left with
  | slot l => exact keeps_assignVariable hF (.slot l) hl hr
  | global g =>
    rcases hl with ⟨hkind | hkind, -⟩ | ⟨index, hkind, hindex, hi⟩ <;> dsimp only <;> rw [hkind]
    · exact keeps_assignVariable hF (.global g) hkind hr
    · exact keeps_reject (hF _ rfl)
    · exact (keeps_assignElement hF hindex hi hr).bind fun _ => .pure _

theorem keeps_storeElements (hF : Reports F) (array : Global) (position : Nat) {ops : List Operand}
    (h : ∀ op ∈ ops, op.Proper) :
    Keeps (Steady inside finished) (Steady inside finished) F
      (storeElements array position ops) := by
  induction ops generalizing position with
  | nil => exact .pure _
  | cons op rest ih =>
    have helement : (Binding.global (array.element (.literal (Literal.ofInt position)))).Assignable
        inside := .inr ⟨_, rfl, rfl, trivial⟩
    exact (keeps_assign hF helement (h op (by simp))).bind fun _ =>
      ih _ fun op' hop => h op' (by simp [hop])

theorem keeps_declareArray (hF : Reports F) {array : Global} {length : Int} {elements : List Operand}
    (h : ∀ op ∈ elements, op.Proper) (hchecks : (∀ v, F (.rejected v)) ∨
      inside = false ∧ array.type.isLowered = true ∧ 0 < length) :
    Keeps (Steady inside finished) (Steady inside finished) F
      (declareArray array length elements) := by
  intro e he
  unfold declareArray
  rw [ends_bind, ends_get]
  split
  · next hsome =>
    rcases hchecks with hall | ⟨houtside, -⟩
    · exact ⟨hall _, he⟩
    · rw [← he.inside, hsome] at houtside
      cases houtside
  · rw [ends_bind, ends_require]
    refine ⟨fun _ => ?_, fun htype => ⟨hchecks.resolve_right (fun hc => htype hc.2.1) _, he⟩⟩
    dsimp only
    rw [ends_bind, ends_require]
    constructor
    · intro _
      exact ((keeps_require _ (hF _ rfl)).bind fun _ => (keeps_checkElements hF _ _ _).bind fun _ =>
        (keeps_header _).bind fun _ => (keeps_storeElements hF _ _ h).bind fun _ => .pure _) e he
    · intro hlength
      refine ⟨hchecks.resolve_right (fun hc => hlength ?_) _, he⟩
      rw [if_neg (by omega)]
      exact hc.2.2

theorem steady_scan (type : DataType) {target : Binding} (h : target.Assignable inside) :
    StaysSteady inside finished (scan type target) := by
  have hP := writeClosed_steady inside finished
  have hrebound {b : Binding} (hb : b.Storable inside) (type : DataType) :
      StaysSteady inside finished (do
        let b ← rebind b type
        return (b, b.pointer)) :=
    (keeps_rebind reports_rejects hb type).bind fun _ => .pure _
  have htarget (type : DataType) : StaysSteady inside finished (scanTarget type target) := by
    cases target with
    | slot l => exact hrebound (b := .slot l) h type
    | global g =>
      apply Keeps.ite
      · intro hkind
        exact hrebound (b := .global g) hkind type
      · intro hkind
        apply keeps_require_bind (F := Rejects) rfl
        intro hplain
        rcases h with ⟨hvariable | harray, -⟩ | ⟨index, _, hindex, hi⟩
        · exact absurd hvariable hkind
        · exact absurd harray hplain
        · exact (rejects_require _ _).bind fun _ => (keeps_elementPointer hP hindex
            (admitted_of_proper hi)).bind fun _ => .pure _
  exact (rejects_require _ _).bind fun _ => (htarget _).bind fun _ => (keeps_fresh hP).bind fun _ =>
    Keeps.get.bind fun _ => (keeps_emit hP _).bind fun _ => .pure _

theorem keeps_callMethod (inst : String) {sig : Signature} {args : List Operand}
    (h : sig.Admits F args) (hsig : sig.result.isLowered = true ∨ Reports F) :
    Keeps (Steady inside finished) (Steady inside finished) F (callMethod inst sig args) := by
  have hP := writeClosed_steady inside finished
  apply (keeps_call hP h _).bind
  intro v
  apply Keeps.get.bind
  intro e
  have hstored (slot : Local) (hslot : slot.type = sig.result) :
      Keeps (Steady inside finished) (Steady inside finished) F (do
        store sig.result v (.frame slot.slot)
        materialize (.slot slot)) := by
    apply (keeps_store hP _ _ _).bind
    intro _
    apply keeps_materialize hP
    rw [Operand.Admitted, Operand.Readable, hslot]
    exact hsig.imp_right fun hF => ⟨hF, .inl trivial⟩
  have hresults (name : String) : Keeps (Steady inside finished) (Steady inside finished) F
      (modify (modifyActive fun c => { c with results := c.results ++ [name] }) :
        Action Emitter PUnit) := by
    apply Keeps.update
    intro e he
    exact he.context e.labels (fun _ => rfl) fun _ => rfl
  apply Keeps.ite
  · intro _
    exact (keeps_hoist _ _).bind fun _ => (hresults _).bind fun _ => hstored _ rfl
  · intro _
    exact hstored _ rfl

/-! ## Control flow -/

theorem ends_openCondition {e : Emitter} (h : e.Steady inside finished)
    (hopen : e.conditionOpen = false) : Ends openCondition e
      (fun _ e' => e'.Steady inside finished ∧ e'.active.openCompare = some e.labels)
      fun _ _ => False := by
  have hlabels : ({ e with labels := e.labels + 1 } : Emitter).Steady inside finished := by
    have hkept := h.context (e.labels + 1) (g := id) (fun _ => rfl) fun _ => rfl
    unfold modifyActive at hkept
    cases hf : e.function <;> simpa [hf] using hkept
  have hP := writeClosed_steady inside finished
  unfold openCondition
  rw [ends_bind, ends_get]
  dsimp only
  rw [if_neg (by simp [hopen]), ends_bind, ends_set, ends_bind, ends_of_ok (terminate_eq _ _),
    ends_bind, ends_of_ok (placeLabel_eq _ _), ends_modify]
  refine ⟨?_, by simp⟩
  exact (hP _ _ _ (hP _ _ _ hlabels)).context _ (fun _ => rfl) fun _ => rfl

theorem steady_takeCondition : StaysSteady inside finished takeCondition := by
  have htake {e : Emitter} {id : Nat} (h : e.Steady inside finished)
      (hid : e.active.openCompare = some id) :
      Ends closeCondition e (fun _ e' => e'.Steady inside finished)
        fun f e' => Rejects f ∧ e'.Steady inside finished := by
    rw [closeCondition, ends_bind, ends_get, hid]
    exact h.context e.labels (fun _ => rfl) fun _ => rfl
  intro e h
  rw [takeCondition_eq, ends_bind, ends_get, ends_ite]
  constructor
  · intro hopen
    rw [ends_bind]
    apply (ends_openCondition h hopen).mono
    · rintro _ e₁ ⟨h₁, hid⟩
      exact htake h₁ hid
    · intro _ _ hfalse
      exact hfalse.elim
  · intro hopen
    obtain ⟨id, hid⟩ := Option.isSome_iff_exists.mp (eq_true_of_ne_false hopen)
    exact htake h hid

theorem steady_compare {left right : Operand} (hl : left.Proper) (hr : right.Proper)
    (op : Comparison) : StaysSteady inside finished (compare left op right) := by
  have hP := writeClosed_steady inside finished
  apply steady_takeCondition.bind
  intro id
  apply (keeps_widen hP (admitted_of_proper hl) (admitted_of_proper hr) false).bind
  rintro ⟨l, r⟩
  have hpush : StaysSteady inside finished
      (modify (modifyActive fun c => { c with pending := id :: c.pending }) :
        Action Emitter PUnit) := by
    apply Keeps.update
    intro e h
    exact h.context e.labels (fun _ => rfl) fun _ => rfl
  exact (keeps_load hP l).bind fun _ => (keeps_load hP r).bind fun _ => (keeps_fresh hP).bind
    fun _ => (keeps_emit hP _).bind fun _ => (keeps_terminate hP _).bind fun _ =>
      (keeps_placeLabel hP _).bind fun _ => hpush

theorem steady_endControl (kind : ControlKind) :
    StaysSteady inside finished (endControl kind) := by
  have hP := writeClosed_steady inside finished
  apply Keeps.get.bind
  intro e
  split
  · exact keeps_reject rfl
  · next id pending _ =>
    have hpop : StaysSteady inside finished
        (modify (modifyActive fun c => { c with pending }) : Action Emitter PUnit) := by
      apply Keeps.update
      intro e h
      exact h.context e.labels (fun _ => rfl) fun _ => rfl
    exact hpop.bind fun _ => (keeps_terminate hP _).bind fun _ => keeps_placeLabel hP _

/-! ## Functions -/

/-- The output of `e` is held, and code has been written since. -/
def Held (e e' : Emitter) : Prop :=
  ∃ code k, e' = Emitter.write code k
    { e with output := { e.output with routing := .held e.active.target [] } }

theorem writeClosed_held (e : Emitter) : WriteClosed (Held e) := by
  rintro _ code k ⟨code₀, k₀, rfl⟩
  exact ⟨code₀ ++ code, k, write_write _ _ _ _ _⟩

theorem held_start (e : Emitter) :
    Held e { e with output := { e.output with routing := .held e.active.target [] } } :=
  ⟨[], _, (write_nil _).symm⟩

theorem hold_eq {e : Emitter} {s : Section} (hr : e.output.routing = .direct s) :
    onOutput Assembly.hold e =
      .ok () { e with output := { e.output with routing := .held s [] } } := by
  apply zoom_eq_ok
  unfold Assembly.hold
  refine bind_eq_ok.mpr ⟨e.output, e.output, rfl, ?_⟩
  rw [hr]
  rfl

/-- When the output is released, only the numbering has changed. -/
theorem release_eq {e : Emitter} {s : Section} (hr : e.output.routing = .direct s)
    (code : List Line) (k : Counter) :
    onOutput Assembly.release
      (Emitter.write code k { e with output := { e.output with routing := .held s [] } }) =
        .ok code (modifyActive (·.setCounter k) e) := by
  have hstate : ({ Emitter.write code k
      { e with output := { e.output with routing := .held s [] } } with
      output := { e.output with routing := .direct s } } : Emitter) =
      modifyActive (·.setCounter k) e := by
    rw [← hr]
    unfold Emitter.write modifyActive
    cases e.function <;> rfl
  rw [← hstate]
  apply zoom_eq_ok
  rw [output_write]
  rfl

theorem Held.release {e e' : Emitter} (h : e.Held e')
    (hr : e.output.routing = .direct e.active.target) :
    ∃ lines k, onOutput Assembly.release e' = .ok lines (modifyActive (·.setCounter k) e) := by
  obtain ⟨code, k, rfl⟩ := h
  exact ⟨code, k, release_eq hr code k⟩

theorem ends_held {β : Type} {e : Emitter} {x : Action Emitter α}
    {f : α → List Line → Action Emitter β} {Q : β → Emitter → Prop} {E : Failure → Emitter → Prop}
    (h : e.Steady inside finished)
    (hx : ∀ e', e.Held e' → Ends x e' (fun _ e'' => e.Held e'') E)
    (hf : ∀ a lines e', e'.Steady inside finished → Ends (f a lines) e' Q E) :
    Ends (onOutput Assembly.hold >>= fun _ => x >>= fun a =>
      onOutput Assembly.release >>= fun lines => f a lines) e Q E := by
  rw [ends_bind, ends_of_ok (hold_eq h.anchored.routing), ends_bind]
  apply (hx _ (held_start e)).mono
  · intro a e' he'
    obtain ⟨lines, k, hrelease⟩ := he'.release h.anchored.routing
    rw [ends_bind, ends_of_ok hrelease]
    exact hf a lines _ (h.context e.labels (fun _ => rfl) fun _ => rfl)
  · intro f e' he'
    exact he'

theorem steady_capture {x : Action Emitter α}
    (hx : ∀ P, WriteClosed P → Keeps P P Rejects x) :
    StaysSteady inside finished (capture x) := by
  intro e h
  rw [capture_eq]
  refine ends_held h (fun e' he' => ?_) fun a lines e' he' => ends_pure.mpr he'
  apply ends_releasing (hx (Held e) (writeClosed_held e) e' he')
  · rintro v e₁ ⟨hrejects, he₁⟩
    obtain ⟨lines, k, hrelease⟩ := he₁.release h.anchored.routing
    rw [ends_bind, ends_of_ok hrelease, ends_reject]
    exact ⟨hrejects, h.context e.labels (g := (·.setCounter k)) (fun _ => rfl) fun _ => rfl⟩
  · rintro f e₁ ⟨hrejects, -⟩ hf
    cases f with
    | rejected v => exact absurd rfl (hf v)
    | _ => cases hrejects

theorem steady_appendLines (lines : List Line) :
    StaysSteady inside finished (modify (appendLines lines) : Action Emitter PUnit) := by
  apply Keeps.update
  intro e h
  apply h.grow
  · rw [Assembly.routing_append _ h.anchored.routing, h.anchored.routing]
  · exact Assembly.content_append_le _ _

theorem steady_ret {op : Operand} (h : op.Proper) : StaysSteady inside finished (ret op) := by
  apply Keeps.get.bind
  intro e
  split
  · exact keeps_reject rfl
  · next f _ =>
    have hdetach : StaysSteady inside finished
        (modify (modifyActive fun c => { c with detached := true }) : Action Emitter PUnit) := by
      apply Keeps.update
      intro e h
      exact h.context e.labels (fun _ => rfl) fun _ => rfl
    refine (steady_capture fun P hP => ?_).bind fun _ => (steady_appendLines _).bind
      fun _ => hdetach
    exact (keeps_materialize hP (admitted_of_proper h)).bind fun _ =>
      (keeps_cast hP _ _).bind fun _ => keeps_load hP _

theorem keeps_bindParams (hP : WriteClosed P) (position : Nat)
    (params : List Param) : Keeps P P F (bindParams position params) := by
  induction params generalizing position with
  | nil => exact .pure _
  | cons p rest ih =>
    exact (keeps_emit hP _).bind fun _ => (keeps_store hP _ _ _).bind fun _ =>
      (ih _).bind fun _ => .pure _

theorem Anchored.content_select {e : Emitter} (h : e.Anchored) (t s : Section) :
    (e.output.select t).routing = .direct t ∧
      (e.output.select t).content s = e.output.content s := by
  unfold Assembly.select
  rw [h.routing]
  refine ⟨rfl, ?_⟩
  cases s <;> rfl

/-- A body that has just been opened, before anything is written to it. -/
theorem Steady.enter {e : Emitter} (h : e.Steady false finished) (sig : Signature)
    {c : FunctionContext} (ht : c.target = .functions) (hs : c.slots = ⟨.functions, 0⟩) :
    ({ e with function := some ⟨sig, c⟩, output := e.output.select .functions } :
      Emitter).Steady true finished where
  anchored := by
    have hselect := h.anchored.content_select .functions
    refine ⟨?_, h.anchored.entry.mono rfl rfl ?_, ?_⟩
    · exact (hselect .functions).1.trans (congrArg Routing.direct ht.symm)
    · exact Nat.le_of_eq (congrArg List.length (hselect .entryBody).2).symm
    · rintro _ ⟨⟩
      refine ⟨ht, ?_, ?_, ?_⟩
      · rw [hs]
      · simp [hs]
      · simp [hs]
  inside := rfl
  finished := h.finished

theorem Steady.leave {e : Emitter} (h : e.Steady inside finished) :
    ({ e with function := none, output := e.output.select .entryBody } :
      Emitter).Steady false finished where
  anchored := by
    have hselect := h.anchored.content_select .entryBody
    refine ⟨?_, h.anchored.entry.mono rfl rfl ?_, by simp⟩
    · exact (hselect .entryBody).1.trans (congrArg Routing.direct h.anchored.entry.target_eq.symm)
    · exact Nat.le_of_eq (congrArg List.length (hselect .entryBody).2).symm
  inside := rfl
  finished := h.finished

theorem mark_eq {e : Emitter} {s : Section} (hr : e.output.routing = .direct s)
    (hs : s.isAssigned = true) :
    onOutput Assembly.mark e = .ok ⟨s, (e.output.content s).length⟩ e := by
  apply zoom_eq_ok (t := e.output)
  unfold Assembly.mark
  refine bind_eq_ok.mpr ⟨e.output, e.output, rfl, ?_⟩
  rw [hr]
  cases s with
  | unassigned n => cases hs
  | _ => rfl

/-- The mark of the active context may be set to the end of its section. -/
theorem ends_markSlots {e : Emitter} {x : Action Emitter α} {Q : α → Emitter → Prop}
    {E : Failure → Emitter → Prop} (h : e.Steady inside finished)
    (hx : ∀ e', e'.Steady inside finished → Ends x e' Q E) :
    Ends (onOutput Assembly.mark >>= fun slots =>
      modify (modifyActive fun c => { c with slots }) >>= fun _ => x) e Q E := by
  rw [ends_bind, ends_of_ok (mark_eq h.anchored.routing h.anchored.isAssigned), ends_bind,
    ends_modify]
  apply hx
  have hanchored : ({ e.active with
      slots := ⟨e.active.target, (e.output.content e.active.target).length⟩ } :
        FunctionContext).Anchored e.output e.active.target :=
    ⟨rfl, rfl, Int.natCast_nonneg _, Int.le_refl _⟩
  have hkept := h.replace (n := e.labels) rfl (fun _ => Nat.le_refl _) hanchored
  unfold modifyActive active at hkept ⊢
  cases hf : e.function <;> rw [hf] at hkept <;> exact hkept

theorem ends_openFunction {e : Emitter} (h : e.Steady inside finished) (name : GlobalName)
    (sig : Signature) (params : List Param) (hF : (∀ v, F (.rejected v)) ∨
      inside = false ∧ sig.result.IsScalar ∧ ∀ p ∈ params, p.type.IsScalar) :
    Ends (openFunction name sig params) e (fun _ e' => e'.Steady true finished)
      fun f e' => F f ∧ e'.Steady inside finished := by
  unfold openFunction
  rw [ends_bind, ends_get]
  split
  · next hsome =>
    rcases hF with hF | ⟨houtside, -⟩
    · exact ⟨hF _, h⟩
    · rw [← h.inside, hsome] at houtside
      cases houtside
  · next hnone =>
    obtain rfl : inside = false := by
      rw [← h.inside, hnone]
      rfl
    rw [ends_bind, ends_require]
    refine ⟨fun _ => ?_, fun hresult => ?_⟩
    swap
    · rcases hF with hF | ⟨-, hscalar, -⟩
      · exact ⟨hF _, h⟩
      · rcases hscalar with htype | htype <;> simp [htype, DataType.isLowered] at hresult
    rw [ends_bind]
    refine (keeps_checkParams sig.name params (hF.imp_right fun hF => hF.2.2) e h).mono (fun _ e₁ h₁ => ?_)
      fun _ _ hf => hf
    rw [ends_bind, ends_modify]
    apply ends_held (h₁.enter sig rfl rfl)
    · intro e' he'
      exact (keeps_bindParams (F := fun _ => False) (writeClosed_held _) 0 params e' he').mono
        (fun _ _ h => h) fun _ _ hf => hf.1.elim
    · intro locals lines e₂ h₂
      rw [ends_bind]
      exact ends_markSlots ((steady_appendLines _ e₂ h₂).of_ok rfl) fun e₃ h₃ => h₃

theorem ends_endFunction {e : Emitter} (h : e.Steady inside finished) :
    Ends endFunction e (fun _ e' => e'.Steady false finished)
      fun f e' => Rejects f ∧ e'.Steady inside finished := by
  have hclose (e₁ : Emitter) (h₁ : e₁.Steady inside finished) :
      Ends (do
        modify (appendLines [.close])
        modify fun e => { e with function := none, output := e.output.select .entryBody } :
          Action Emitter Unit) e₁ (fun _ e' => e'.Steady false finished)
        fun f e' => Rejects f ∧ e'.Steady inside finished := by
    rw [ends_bind, ends_modify, ends_modify]
    have happended := (steady_appendLines [.close] e₁ h₁).of_ok rfl
    exact happended.leave
  unfold endFunction
  rw [ends_bind, ends_get]
  split
  · exact ⟨rfl, h⟩
  · next f hf =>
    rw [ends_bind, ends_require]
    refine ⟨fun _ => ?_, fun _ => ⟨rfl, h⟩⟩
    rw [ends_ite]
    constructor
    · intro _
      rw [ends_bind, ends_of_ok (emit_eq _ e)]
      exact hclose _ (writeClosed_steady _ _ _ _ _ h)
    · intro _
      exact hclose e h

theorem ends_finish {e : Emitter} (h : e.Steady inside false) :
    Ends finish e (fun _ e' => e'.Steady inside true)
      fun f e' => Rejects f ∧ e'.Steady inside false := by
  unfold finish
  rw [ends_bind, ends_get]
  simp only [h.finished, Bool.false_eq_true, if_false]
  split
  · exact ⟨rfl, h⟩
  · rw [ends_bind, ends_require]
    refine ⟨fun _ => ?_, fun _ => ⟨rfl, h⟩⟩
    rw [ends_bind, ends_of_ok (emit_eq _ e), ends_bind, ends_modify, ends_bind, ends_get, ends_pure]
    have hreturned := writeClosed_steady _ _ _ [.instr (.ret .i32 (.constant "0"))]
      e.active.counter.enter h
    have hclosed := (steady_appendLines [.close] _ hreturned).of_ok rfl
    exact ⟨⟨hclosed.anchored.routing, hclosed.anchored.entry, hclosed.anchored.function⟩,
      hclosed.inside, rfl⟩

end Steady

end Emitter

end MkCompiler
