import MkCompiler.Emitter.Control
import MkCompiler.Proofs.Layout

/-!
# Steps of the emitter

What every operation of the emitter does to the layout if it succeeds. Reading and storing values,
declaring storage, printing and scanning are straight. The others are the steps of control flow,
the opening and closing of functions, and the end of the program.
-/

namespace MkCompiler.Emitter

open MkCompiler.Action

variable {α : Type} {e e' : Emitter} {l : Layout}

/-! ## Straight operations -/

theorem declares_straight : Declares fun {_} x => Moves Straight x where
  toComputes := computes_moves Extends.straight
  cell c _ _ e := ensures_modify.mpr (straight_header (Line.isStorage_cell c _ _) e)
  array c _ _ e := ensures_modify.mpr (straight_header (Line.isStorage_array c _ _) e)
  hoist := straight_hoist
  results name e := ensures_modify.mpr (straight_results name e)

theorem straight_declareArray (array : Global) (length : Int) (elements : List Operand) :
    Moves Straight (declareArray array length elements) :=
  declares_straight.declareArray array length elements declares_straight.array .reject

/-! ## Control flow -/

/-- A step that writes code and changes the control constructs of the active function. -/
structure Turns (e e' : Emitter) (pending : List Nat) (openCompare : Option Nat) (labels : Nat)
    (code : List Line) : Prop where
  frame : ∃ c o, e' = { modifyActive (fun _ => c) e with output := o, labels := labels } ∧
    c.pending = pending ∧ c.openCompare = openCompare
  layout : ∀ l, e.Lays l → e'.Lays (l.grow [] [] code)

section Turns

variable {p p' : List Nat} {o o' : Option Nat} {n n' : Nat} {code code' : List Line}

theorem Turns.pending_eq (h : Turns e e' p o n code) : e'.active.pending = p := by
  obtain ⟨⟨c, a, rfl, hp, -⟩, -⟩ := h
  rw [← hp]
  exact congrArg _ (active_modifyActive e fun _ => c)

theorem Turns.openCompare_eq (h : Turns e e' p o n code) : e'.active.openCompare = o := by
  obtain ⟨⟨c, a, rfl, -, ho⟩, -⟩ := h
  rw [← ho]
  exact congrArg _ (active_modifyActive e fun _ => c)

theorem Turns.labels_eq (h : Turns e e' p o n code) : e'.labels = n := by
  obtain ⟨⟨c, a, rfl, -, -⟩, -⟩ := h
  rfl

theorem Turns.refl (e : Emitter) :
    Turns e e e.active.pending e.active.openCompare e.labels [] := by
  refine ⟨⟨e.active, e.output, ?_, rfl, rfl⟩, fun l hl => by simpa using hl⟩
  rw [modifyActive_active]

theorem Turns.trans {e'' : Emitter} (h : Turns e e' p o n code) (h' : Turns e' e'' p' o' n' code') :
    Turns e e'' p' o' n' (code ++ code') := by
  obtain ⟨⟨c, a, rfl, -, -⟩, hl⟩ := h
  obtain ⟨⟨c', a', rfl, hp', ho'⟩, hl'⟩ := h'
  refine ⟨⟨c', a', ?_, hp', ho'⟩, fun l hlays => ?_⟩
  · unfold modifyActive
    cases e.function <;> rfl
  · simpa using hl' _ (hl l hlays)

theorem Turns.write (h : Turns e e' p o n code) {k : Counter}
    (hk : e'.active.counter.Reads code' k) : Turns e (e'.write code' k) p o n (code ++ code') := by
  refine h.trans ⟨⟨e'.active.setCounter k, e'.output.append code', ?_, h.pending_eq,
    h.openCompare_eq⟩, fun l hl => hl.write hk⟩
  rw [write_eq, ← h.labels_eq]
  unfold modifyActive
  cases e'.function <;> rfl

theorem Turns.extends (h : Turns e e' p o n code) {e'' : Emitter} (he : Extends e' e'') :
    ∃ straight : List Instr, (∀ i ∈ straight, i.isTerminator = false) ∧
      Turns e e'' p o n (code ++ straight.map .instr) := by
  obtain ⟨straight, k, hstraight, hk, rfl⟩ := he
  exact ⟨straight, hstraight, h.write hk⟩

theorem Turns.withLabels (h : Turns e e' p o n code) (n' : Nat) :
    Turns e { e' with labels := n' } p o n' code := by
  obtain ⟨⟨c, a, rfl, hp, ho⟩, hl⟩ := h
  exact ⟨⟨c, a, rfl, hp, ho⟩, fun l hlays => (hl l hlays).withLabels n'⟩

theorem Turns.context (h : Turns e e' p o n code) {f : FunctionContext → FunctionContext}
    (hf : ∀ c, (f c).target = c.target ∧ (f c).slots = c.slots ∧ (f c).counter = c.counter)
    (hp : ∀ c, c.pending = p → (f c).pending = p')
    (ho : ∀ c, c.openCompare = o → (f c).openCompare = o') :
    Turns e (modifyActive f e') p' o' n code := by
  obtain ⟨ht, hs, hk⟩ := hf e'.active
  have hc : Turns e' (modifyActive f e') p' o' n [] := by
    refine ⟨⟨f e'.active, e'.output, ?_, hp _ h.pending_eq, ho _ h.openCompare_eq⟩,
      fun l hl => by simpa using hl.modifyActive ht hs hk⟩
    rw [← h.labels_eq]
    unfold modifyActive active
    cases e'.function <;> rfl
  simpa using h.trans hc

end Turns

theorem reads_terminator (k : Counter) {i : Instr} (hi : i.isTerminator = true) (l : Label) :
    k.Reads [.instr i, .label l] ⟨k.enter.next, false⟩ :=
  .cons (.terminator hi) (.single (.label rfl))

def conditionCode (id : Nat) : List Line :=
  [.instr (.jump ⟨.compare, id⟩), .label ⟨.compare, id⟩]

theorem turns_openCondition (e : Emitter) : Ensures openCondition e fun _ e' =>
    e.active.openCompare = none ∧
      Turns e e' e.active.pending (some e.labels) (e.labels + 1) (conditionCode e.labels) := by
  refine ensures_bind.mpr (ensures_get.mpr (ensures_ite.mpr ⟨by simp, fun hopen => ?_⟩))
  simp only [ensures_bind, ensures_set, ensures_terminate, ensures_placeLabel, ensures_modify,
    write_write, active_write, FunctionContext.counter_setCounter]
  refine ⟨by simpa [conditionOpen] using hopen, ?_⟩
  refine Turns.context (Turns.write ((Turns.refl e).withLabels _) ?_) (fun _ => ⟨rfl, rfl, rfl⟩)
    (fun _ hp => hp) fun _ _ => rfl
  exact reads_terminator _ rfl _

/-- The role of the block a control construct continues with when its body ends. -/
def exitRole : ControlKind → LabelRole
  | .conditional => .exit
  | .loop => .compare

def exitCode (kind : ControlKind) (id : Nat) : List Line :=
  [.instr (.jump ⟨exitRole kind, id⟩), .label ⟨.exit, id⟩]

theorem turns_endControl (kind : ControlKind) (e : Emitter) :
    Ensures (endControl kind) e fun _ e' => ∃ id pending, e.active.pending = id :: pending ∧
      Turns e e' pending e.active.openCompare e.labels (exitCode kind id) := by
  refine ensures_bind.mpr (ensures_get.mpr ?_)
  split
  · exact ensures_reject.mpr trivial
  · next id pending hpending =>
    simp only [ensures_bind, ensures_terminate, ensures_placeLabel, ensures_modify, write_write,
      active_write, FunctionContext.counter_setCounter]
    refine ⟨id, pending, hpending, ?_⟩
    have hpop : Turns e (modifyActive (fun c => { c with pending }) e) pending
        e.active.openCompare e.labels [] :=
      (Turns.refl e).context (fun _ => ⟨rfl, rfl, rfl⟩) (fun _ _ => rfl) fun _ ho => ho
    have hexit := hpop.write (reads_terminator _ (i := .jump ⟨exitRole kind, id⟩) rfl ⟨.exit, id⟩)
    cases kind <;> exact hexit

def branchCode (condition : Int) (id : Nat) : List Line :=
  [.instr (.branch condition ⟨.body, id⟩ ⟨.exit, id⟩), .label ⟨.body, id⟩]

theorem ensures_takeCondition (e : Emitter) : Ensures takeCondition e fun id e' =>
    ∃ e₁, (e₁ = e ∨ openCondition e = .ok () e₁) ∧ e₁.active.openCompare = some id ∧
      e' = modifyActive (fun c => { c with openCompare := none }) e₁ := by
  have htake (e₁ : Emitter) (h : e₁ = e ∨ openCondition e = .ok () e₁) :
      Ensures closeCondition e₁ fun id e' =>
        ∃ e₁, (e₁ = e ∨ openCondition e = .ok () e₁) ∧ e₁.active.openCompare = some id ∧
          e' = modifyActive (fun c => { c with openCompare := none }) e₁ := by
    rw [closeCondition, ensures_bind, ensures_get]
    split
    · simp
    · next id hid =>
      rw [ensures_bind, ensures_modify, ensures_pure]
      exact ⟨e₁, h, hid, rfl⟩
  rw [takeCondition_eq]
  refine ensures_bind.mpr (ensures_get.mpr (ensures_ite.mpr ⟨fun _ => ?_, fun _ => ?_⟩))
  · exact ensures_bind.mpr fun _ e₁ h => htake e₁ (.inr h)
  · exact htake e (.inl rfl)

/-- The code of a comparison stands behind the label of its condition, which is opened first if
that has not happened yet. -/
theorem turns_compare (left : Operand) (op : Comparison) (right : Operand) (e : Emitter) :
    Ensures (compare left op right) e fun _ e' => ∃ e₁ id n, ∃ code : List Instr,
      (e₁ = e ∨ openCondition e = .ok () e₁) ∧ e₁.active.openCompare = some id ∧
      (∀ i ∈ code, i.isTerminator = false) ∧
      Turns e₁ e' (id :: e₁.active.pending) none e₁.labels
        (code.map .instr ++ branchCode n id) := by
  refine ensures_bind.mpr ((ensures_takeCondition e).mono ?_)
  rintro id _ ⟨e₁, he₁, hid, rfl⟩
  have htake : Turns e₁ (modifyActive (fun c => { c with openCompare := none }) e₁)
      e₁.active.pending none e₁.labels [] :=
    (Turns.refl e₁).context (fun _ => ⟨rfl, rfl, rfl⟩) (fun _ hp => hp) fun _ _ => rfl
  refine ensures_bind.mpr ((computes_extends.widen left right false _).mono fun (l, r) e₂ h₂ => ?_)
  refine ensures_bind.mpr ((computes_extends.load l _).mono fun lv e₃ h₃ => ?_)
  refine ensures_bind.mpr ((computes_extends.load r _).mono fun rv e₄ h₄ => ?_)
  rw [ensures_bind, ensures_fresh, ensures_bind, emit_fresh]
  have h₅ : Extends e₄ (e₄.place (.compare e₄.number op l.type.irType lv rv)) :=
    extends_value rfl rfl
  obtain ⟨code, hcode, hturns⟩ := htake.extends
    (trans_of Extends (trans_of Extends (trans_of Extends h₂ h₃) h₄) h₅)
  simp only [ensures_bind, ensures_terminate, ensures_placeLabel, ensures_modify, write_write,
    active_write, FunctionContext.counter_setCounter]
  refine ⟨e₁, id, e₄.number, code, he₁, hid, hcode, ?_⟩
  refine Turns.context (hturns.write (reads_terminator _ rfl _)) (fun _ => ⟨rfl, rfl, rfl⟩)
    (fun c hp => ?_) fun _ ho => ho
  exact congrArg (id :: ·) hp

/-! ## Functions -/

/-- Code that is written while the output is held advances the numbering, but appears only in the
buffer. -/
theorem ensures_held {β : Type} {x : Action Emitter α} {f : α → List Line → Action Emitter β}
    {P : α → List Line → Counter → Prop} {Q : β → Emitter → Prop}
    (hx : ∀ o, Ensures x { e with output := o } fun a e' => ∃ lines k, P a lines k ∧
      e' = Emitter.write lines k { e with output := o })
    (hf : ∀ a lines k, P a lines k →
      Ensures (f a lines) (modifyActive (·.setCounter k) e) Q) :
    Ensures (onOutput Assembly.hold >>= fun _ => x >>= fun a =>
      onOutput Assembly.release >>= fun lines => f a lines) e Q := by
  refine ensures_bind.mpr (ensures_zoom.mpr (Assembly.ensures_hold.mpr fun t ht => ?_))
  refine ensures_bind.mpr ((hx _).mono ?_)
  rintro a _ ⟨lines, k, hp, rfl⟩
  refine ensures_bind.mpr (ensures_zoom.mpr (Assembly.ensures_release.mpr fun t' buffer hb => ?_))
  rw [output_write] at hb ⊢
  simp only [Assembly.append, List.nil_append, Routing.held.injEq] at hb ⊢
  obtain ⟨rfl, rfl⟩ := hb
  have hstate : ({ Emitter.write lines k
      { e with output := { e.output with routing := .held t [] } } with
      output := { e.output with routing := .direct t } } : Emitter) =
      modifyActive (·.setCounter k) e := by
    rw [← ht]
    unfold Emitter.write modifyActive
    cases e.function <;> rfl
  rw [hstate]
  exact hf a lines k hp

/-- A rejection inside of `capture` stays a rejection. -/
theorem ensures_capture {x : Action Emitter α} {P : α → List Line → Counter → Prop}
    (hx : ∀ o, Ensures x { e with output := o } fun a e' => ∃ lines k, P a lines k ∧
      e' = Emitter.write lines k { e with output := o }) :
    Ensures (capture x) e fun r e' => ∃ k, P r.1 r.2 k ∧ e' = modifyActive (·.setCounter k) e := by
  rw [capture_eq]
  refine ensures_held (P := P) (fun o => ?_) fun a lines k hp => ensures_pure.mpr ⟨k, hp, rfl⟩
  exact ensures_releasing (hx o)

theorem turns_ret (op : Operand) (e : Emitter) : Ensures (ret op) e fun _ e' =>
    e.function.isSome = true ∧ ∃ (code : List Instr) (type : IrType) (v : Value),
      (∀ i ∈ code, i.isTerminator = false) ∧
      Turns e e' e.active.pending e.active.openCompare e.labels
        (code.map .instr ++ [.instr (.ret type v)]) := by
  refine ensures_bind.mpr (ensures_get.mpr ?_)
  split
  · exact ensures_reject.mpr trivial
  · next f hf =>
    -- What is captured is straight code, whatever the output is while it is held.
    have hcode (o : Assembly Line) : Ensures (do
        let r ← materialize op
        load (← cast r f.signature.result.storage)) { e with output := o } fun _ e' =>
          ∃ lines k, (∃ code : List Instr, (∀ i ∈ code, i.isTerminator = false) ∧
            lines = code.map .instr ∧ e.active.counter.Reads lines k ∧ k.detached = false) ∧
            e' = Emitter.write lines k { e with output := o } := by
      refine ensures_bind.mpr ((computes_extends.materialize op _).mono fun r e₁ h₁ => ?_)
      refine ensures_bind.mpr ((computes_extends.cast r _ e₁).mono fun r' e₂ h₂ => ?_)
      rw [load, loadFrom, ensures_bind, ensures_fresh, ensures_bind, emit_fresh, ensures_pure]
      have h₃ := extends_value (i := .load e₂.number r'.type.irType (.frame r'.slot)) (e := e₂)
        rfl rfl
      obtain ⟨code, k, hcode, hk, heq⟩ := trans_of Extends (trans_of Extends h₁ h₂) h₃
      refine ⟨_, k, ⟨code, hcode, rfl, hk, ?_⟩, heq⟩
      have hcounter := congrArg (fun e => e.active.counter.detached) heq
      simpa [place] using hcounter.symm
    refine ensures_bind.mpr ((ensures_capture hcode).mono ?_)
    rintro ⟨v, lines⟩ _ ⟨⟨n, _⟩, ⟨code, hcode, rfl, hk, rfl⟩, rfl⟩
    rw [ensures_bind, ensures_modify, ensures_modify]
    refine ⟨by rw [hf]; rfl, code, f.signature.result.storage.irType, v, hcode, ?_⟩
    have hret : (⟨n, false⟩ : Counter).Reads
        [.instr (.ret f.signature.result.storage.irType v)] ⟨n, true⟩ :=
      .single (.terminator rfl)
    have hturns := (Turns.refl e).write (hk.append hret)
    rw [Emitter.write] at hturns
    rw [modifyActive_appendLines, modifyActive_modifyActive]
    exact hturns

/-- The instructions that store incoming arguments, numbered from `position`, in their slots. -/
def paramCode (position : Nat) : List Param → List Instr
  | [] => []
  | p :: rest =>
    .alloca (.slot p.name 0) p.type.irType ::
      .store p.type.irType (.number position) (.frame (.slot p.name 0)) ::
      paramCode (position + 1) rest

theorem paramCode_setup (position : Nat) (params : List Param) :
    ∀ i ∈ paramCode position params, i.IsSetup := by
  induction params generalizing position with
  | nil => simp [paramCode]
  | cons p rest ih =>
    intro i hi
    rcases List.mem_cons.mp hi with hi | hi
    · exact .inl ⟨_, _, _, hi⟩
    rcases List.mem_cons.mp hi with hi | hi
    · exact .inr ⟨_, _, _, _, hi⟩
    · exact ih _ i hi

def paramLocal (p : Param) : Local :=
  { name := p.name, type := p.type }

theorem ensures_bindParams (position : Nat) (params : List Param) (e : Emitter)
    (he : e.active.counter.detached = false) :
    Ensures (bindParams position params) e fun locals e' =>
      locals = params.map paramLocal ∧
        e' = e.write ((paramCode position params).map .instr) e.active.counter := by
  induction params generalizing position e with
  | nil => exact ensures_pure.mpr ⟨rfl, (write_nil e).symm⟩
  | cons p rest ih =>
    have henter : e.active.counter.enter = e.active.counter := by
      rw [Counter.enter, if_neg (by simp [he])]
    simp only [bindParams, store, ensures_bind, ensures_emit, write_write, active_write,
      FunctionContext.counter_setCounter, henter]
    refine (ih _ _ (by simpa using he)).mono ?_
    rintro locals _ ⟨rfl, rfl⟩
    rw [ensures_pure, active_write, FunctionContext.counter_setCounter, write_write]
    exact ⟨rfl, rfl⟩

theorem moves_checkParams (function : String) (params : List Param) :
    Moves Eq (checkParams function params) := by
  induction params with
  | nil => exact .pure _
  | cons p rest ih => exact (Moves.require _ _).bind fun _ => ih

/-- A function is opened from the entry point, and its body starts with the stores of its
arguments. -/
theorem ensures_openFunction (name : GlobalName) (sig : Signature) (params : List Param)
    (e : Emitter) : Ensures (openFunction name sig params) e fun locals e' => e.function = none ∧
      ∃ c o, e' = { e with function := some ⟨sig, c⟩, output := o } ∧
        c.pending = [] ∧ c.openCompare = none ∧
        (∀ l, e.Lays l →
          e'.Lays (l.enter (.define sig.result.irType name (params.map fun p => p.type.irType))
            (paramCode 0 params))) ∧
        c.results = [] ∧ sig.result.isLowered = true ∧ locals = params.map paramLocal := by
  refine ensures_bind.mpr (ensures_get.mpr ?_)
  split
  · exact ensures_reject.mpr trivial
  · next hnone =>
    refine ensures_bind.mpr (ensures_require.mpr fun hresult => ensures_bind.mpr ?_)
    refine (moves_checkParams _ _ e).mono ?_
    rintro _ _ rfl
    dsimp only
    rw [ensures_bind, ensures_modify]
    refine ensures_held (P := fun locals lines k => locals = params.map paramLocal ∧
      lines = (paramCode 0 params).map .instr ∧ k = Counter.start params.length) (fun o => ?_) ?_
    · refine (ensures_bindParams 0 params _ rfl).mono ?_
      rintro locals _ ⟨hlocals, rfl⟩
      exact ⟨_, _, ⟨hlocals, rfl, rfl⟩, rfl⟩
    · rintro locals _ _ ⟨hlocals, rfl, rfl⟩
      rw [ensures_bind, ensures_modify, ensures_bind]
      refine ensures_zoom.mpr (Assembly.ensures_mark.mpr fun t ht hassigned => ?_)
      rw [ensures_bind, ensures_modify, ensures_pure]
      refine ⟨hnone, { target := .functions, nextNumber := params.length + 1, slots := ⟨t, _⟩ }, _,
        rfl, rfl, rfl, fun l hl => ?_, rfl, hresult.1, hlocals⟩
      have houtput := l.enter_assembly e.symbols.prologue (hl.suspended_eq_none hnone)
        (.define sig.result.irType name (params.map fun p => p.type.irType)) (paramCode 0 params)
      rw [← hl.output] at houtput
      simp only [appendLines, output_modifyActive, houtput] at ht ⊢
      obtain rfl : t = .functions := by
        simpa [Layout.assembly, Layout.enter, Layout.target] using ht.symm
      refine hl.enter hnone rfl ⟨rfl, ?_, paramCode_setup 0 params, ?_⟩
      · have hcontent := (l.enter (.define sig.result.irType name
          (params.map fun p => p.type.irType)) (paramCode 0 params)).content_assembly
            e.symbols.prologue
        change Mark.mk _ _ = _
        rw [show Section.functions = (l.enter (.define sig.result.irType name
          (params.map fun p => p.type.irType)) (paramCode 0 params)).target from rfl, hcontent]
        simp [Layout.enter]
      · have harity : (Line.define sig.result.irType name
            (params.map fun p => p.type.irType)).arity = params.length := by
          simp [Line.arity]
        rw [harity]
        exact .nil

theorem Lays.closed_active (h : e.Lays l) (hsome : e.function.isSome = true)
    (hd : e.active.detached = true) : l.active.Closed := by
  obtain ⟨_, _, _, hopens, _⟩ := h.exists_suspended hsome
  refine ⟨hopens, h.active.setup, e.active.nextNumber, ?_⟩
  rw [← hd]
  exact h.active.reads

theorem Lays.close (h : e.Lays l) (hsome : e.function.isSome = true)
    (hdetached : e.active.detached = true) :
    ∃ d, l.suspended = some d ∧ ({ e with
      function := none
      output := (e.output.append [.close]).select .entryBody } : Emitter).Lays (l.leave d) := by
  obtain ⟨d, hd, _⟩ := h.exists_suspended hsome
  have hleave := h.leave hsome (h.closed_active hsome hdetached) hd
  rw [← Layout.leave_assembly _ _ hd, ← h.output] at hleave
  exact ⟨d, hd, hleave⟩

/-- The lines that close the code of a body: control cannot reach the end of one that does not end
in a return. -/
def closingCode (detached : Bool) : List Line :=
  if detached then [] else [.instr .unreachable]

theorem ensures_endFunction (e : Emitter) : Ensures endFunction e fun _ e' =>
    ∃ f o, e.function = some f ∧ f.context.pending = [] ∧ f.context.openCompare = none ∧
      e' = { e with function := none, output := o } ∧
      ∀ l, e.Lays l → ∃ d, l.suspended = some d ∧
        e'.Lays ((l.grow [] [] (closingCode f.context.detached)).leave d) := by
  refine ensures_bind.mpr (ensures_get.mpr ?_)
  split
  · exact ensures_reject.mpr trivial
  · next f hf =>
    have hsome : e.function.isSome = true := by
      rw [hf]
      rfl
    have hactive : e.active = f.context := by
      rw [Emitter.active, hf]
    refine ensures_bind.mpr (ensures_require.mpr fun hclear => ?_)
    obtain ⟨hpending, hopen⟩ := hclear
    cases hdetached : f.context.detached with
    | true =>
      simp only [Bool.true_eq_false, if_false, ensures_bind, ensures_modify]
      refine ⟨f, _, hf, hpending, hopen, rfl, fun l hl => ?_⟩
      simpa [closingCode, hdetached, appendLines] using
        hl.close hsome (by rw [hactive, hdetached])
    | false =>
      simp only [if_true, ensures_bind, ensures_emit, ensures_modify]
      refine ⟨f, ((e.output.append [.instr .unreachable]).append [.close]).select .entryBody,
        hf, hpending, hopen, ?_, fun l hl => ?_⟩
      · simp [write, appendLines, modifyActive, hf]
      · have hreads : e.active.counter.Reads [.instr .unreachable] ⟨e.number, true⟩ :=
          .single (.terminator rfl)
        have hclose := (hl.write hreads).close (by simp [write, appendLines, modifyActive, hf])
          (by simp [FunctionContext.setCounter])
        simpa [closingCode, hdetached, write, appendLines, modifyActive, hf] using hclose

/-! ## The whole program -/

def startLayout : Layout :=
  ⟨[], [], none, ⟨.defineEntry, [], []⟩⟩

theorem lays_start (symbols : RuntimeSymbols) : (start symbols).Lays startLayout where
  output := rfl
  header := by simp [startLayout]
  closed := by simp [startLayout]
  active := ⟨rfl, rfl, by simp [startLayout], .nil⟩
  entry := ⟨rfl, rfl⟩

def entryReturn : Line :=
  .instr (.ret .i32 (.constant "0"))

/-- The lines of a finished program are those of its definitions, the entry point first, behind
the declarations of symbols and storage. -/
theorem ensures_finish (e : Emitter) : Ensures finish e fun lines e' =>
    e.active.pending = [] ∧ e.active.openCompare = none ∧ e'.labels = e.labels ∧ ∀ l, e.Lays l →
      l.suspended = none ∧ (l.grow [] [] [entryReturn]).active.Closed ∧
      lines = e.symbols.prologue ++ l.header ++
        ((l.grow [] [] [entryReturn]).active :: l.closed).flatMap
          fun d => d.toDefinition.lines := by
  refine ensures_bind.mpr (ensures_get.mpr ?_)
  refine ensures_ite.mpr ⟨fun _ => by simp, fun _ => ?_⟩
  dsimp only
  split
  · exact ensures_reject.mpr trivial
  · next hnone =>
    refine ensures_bind.mpr (ensures_require.mpr fun ⟨hpending, hopen⟩ => ?_)
    simp only [ensures_bind, ensures_emit, ensures_modify, ensures_get, ensures_pure]
    have hactive : e.active = e.entry := by
      rw [Emitter.active, hnone]
    rw [hactive]
    refine ⟨hpending, hopen, labels_modifyActive e _, fun l hl => ?_⟩
    have hs := hl.suspended_eq_none hnone
    have hreads : e.active.counter.Reads [entryReturn] ⟨e.number, true⟩ :=
      .single (.terminator rfl)
    rw [← hactive]
    have hret := hl.write hreads
    have hopening : l.active.opening = .defineEntry := by
      have hentry := hl.entry
      rw [EntryLays, hs] at hentry
      exact hentry.2
    refine ⟨hs, ⟨?_, hret.active.setup, e.number, ?_⟩, ?_⟩
    · rw [Layout.opening_grow, hopening]
      rfl
    · simpa using hret.active.reads
    · have hlines := (l.grow [] [] [entryReturn]).pieces_assembly e.symbols.prologue hs hopening
      rw [← Layout.append_assembly, ← hl.output] at hlines
      simpa [appendLines, entryReturn, Layout.grow] using hlines

inductive BodyStep (e e' : Emitter) : Prop where
  | straight (h : Straight e e')
  | condition (hopen : e.active.openCompare = none)
      (h : Turns e e' e.active.pending (some e.labels) (e.labels + 1) (conditionCode e.labels))
  | branch {id : Nat} {n : Int} {code : List Instr} (hopen : e.active.openCompare = some id)
      (hcode : ∀ i ∈ code, i.isTerminator = false)
      (h : Turns e e' (id :: e.active.pending) none e.labels (code.map .instr ++ branchCode n id))
  | exit {kind : ControlKind} {id : Nat} {pending : List Nat}
      (hpending : e.active.pending = id :: pending)
      (h : Turns e e' pending e.active.openCompare e.labels (exitCode kind id))
  | ret {code : List Instr} {type : IrType} {v : Value}
      (hcode : ∀ i ∈ code, i.isTerminator = false)
      (h : Turns e e' e.active.pending e.active.openCompare e.labels
        (code.map .instr ++ [.instr (.ret type v)]))

/-- A step inside of a body changes the active context and makes the active body grow. -/
theorem BodyStep.grows (h : BodyStep e e') :
    (∃ c o n, e' = { modifyActive (fun _ => c) e with output := o, labels := n }) ∧
      ∀ l, e.Lays l → ∃ header slots code, e'.Lays (l.grow header slots code) := by
  have hturns {p : List Nat} {o : Option Nat} {n : Nat} {code : List Line}
      (h : Turns e e' p o n code) :
      (∃ c o n, e' = { modifyActive (fun _ => c) e with output := o, labels := n }) ∧
        ∀ l, e.Lays l → ∃ header slots code, e'.Lays (l.grow header slots code) := by
    obtain ⟨⟨c, a, he, -, -⟩, hl⟩ := h
    exact ⟨⟨c, a, n, he⟩, fun l hlays => ⟨[], [], code, hl l hlays⟩⟩
  cases h with
  | straight h =>
    obtain ⟨⟨c, a, he, -, -⟩, hl⟩ := h
    refine ⟨⟨c, a, e.labels, ?_⟩, fun l hlays => ?_⟩
    · rw [he]
      exact congrArg (fun n => ({ modifyActive (fun _ => c) e with
        output := a, labels := n } : Emitter)) (labels_modifyActive e _)
    · obtain ⟨header, slots, code, -, h⟩ := hl l hlays
      exact ⟨header, slots, _, h⟩
  | condition _ h => exact hturns h
  | branch _ _ h => exact hturns h
  | exit _ h => exact hturns h
  | ret _ h => exact hturns h

inductive Step (e e' : Emitter) : Prop where
  | body (h : BodyStep e e')
  | enter {sig : Signature} {c : FunctionContext} {o : Assembly Line} {opening : Line}
      {slots : List Instr} (hnone : e.function = none)
      (he : e' = { e with function := some ⟨sig, c⟩, output := o })
      (hpending : c.pending = []) (hopen : c.openCompare = none)
      (h : ∀ l, e.Lays l → e'.Lays (l.enter opening slots))
      (hopening : opening.opensFunction = true)
  | leave {f : OpenFunction} {o : Assembly Line} (hsome : e.function = some f)
      (hpending : f.context.pending = []) (hopen : f.context.openCompare = none)
      (he : e' = { e with function := none, output := o })
      (h : ∀ l, e.Lays l → ∃ d, l.suspended = some d ∧
        e'.Lays ((l.grow [] [] (closingCode f.context.detached)).leave d))

/-- A step keeps the layout up, and definitions that are closed stay as they are. -/
theorem Step.lays (h : Step e e') (hl : e.Lays l) : ∃ l', e'.Lays l' ∧ l.closed ⊆ l'.closed := by
  cases h with
  | body h =>
    obtain ⟨header, slots, code, hl'⟩ := h.grows.2 l hl
    exact ⟨_, hl', List.Subset.refl _⟩
  | enter _ _ _ _ h => exact ⟨_, h l hl, List.Subset.refl _⟩
  | leave _ _ _ _ h =>
    obtain ⟨d, -, hl'⟩ := h l hl
    exact ⟨_, hl', List.subset_append_left _ _⟩

theorem Step.symbols_eq (h : Step e e') : e'.symbols = e.symbols := by
  cases h with
  | body h =>
    obtain ⟨⟨c, o, n, rfl⟩, -⟩ := h.grows
    exact symbols_modifyActive e _
  | enter _ he => rw [he]
  | leave _ _ _ he _ => rw [he]

end MkCompiler.Emitter
