import MkCompiler.Proofs.Counterparts

/-!
# Mirrored output

What the emitter does with the storage of an instance it does in the same way with that of any other
instance. Numbers, marks, labels and the routing of the output are the same in both runs, and the
lines are counterparts.
-/

namespace MkCompiler

open MkCompiler.Action

/-! ## Output -/

inductive Routing.Alike (p : NamePair) : Routing Line → Routing Line → Prop
  | direct (target : Section) : Alike p (.direct target) (.direct target)
  | held (resume : Section) {lines lines' : List Line}
      (h : List.Forall₂ (Line.Alike p) lines lines') :
      Alike p (.held resume lines) (.held resume lines')

structure Assembly.Alike (p : NamePair) (o o' : Assembly Line) : Prop where
  prologue : o'.prologue = o.prologue
  content : ∀ target, List.Forall₂ (Line.Alike p) (o.content target) (o'.content target)
  routing : o.routing.Alike p o'.routing

namespace Assembly

variable {p : NamePair} {o o' : Assembly Line} {lines lines' : List Line}

theorem Alike.routing_eq_direct (h : o.Alike p o') {target : Section}
    (hr : o.routing = .direct target) : o'.routing = .direct target := by
  have hrouting := h.routing
  rw [hr] at hrouting
  generalize o'.routing = r' at hrouting ⊢
  cases hrouting
  rfl

theorem Alike.routing_eq_held (h : o.Alike p o') {resume : Section}
    (hr : o.routing = .held resume lines) :
    ∃ lines', o'.routing = .held resume lines' ∧ List.Forall₂ (Line.Alike p) lines lines' := by
  have hrouting := h.routing
  rw [hr] at hrouting
  generalize o'.routing = r' at hrouting ⊢
  cases hrouting with
  | held _ hlines => exact ⟨_, rfl, hlines⟩

theorem Alike.setContent (h : o.Alike p o') (hlines : List.Forall₂ (Line.Alike p) lines lines')
    (target : Section) : (o.setContent lines target).Alike p (o'.setContent lines' target) := by
  refine ⟨?_, ?_, ?_⟩
  · cases target <;> exact h.prologue
  · intro target'
    have hcontent := h.content target'
    cases target <;> cases target' <;> first | exact hlines | exact hcontent
  · cases target <;> exact h.routing

theorem Alike.appendTo (h : o.Alike p o') (target : Section)
    (hlines : List.Forall₂ (Line.Alike p) lines lines') :
    (o.appendTo target lines).Alike p (o'.appendTo target lines') :=
  h.setContent (List.rel_append (h.content target) hlines) target

theorem Alike.withRouting {r r' : Routing Line} (h : o.Alike p o') (hr : r.Alike p r') :
    ({ o with routing := r } : Assembly Line).Alike p { o' with routing := r' } := by
  refine ⟨h.prologue, ?_, hr⟩
  intro target
  have hcontent := h.content target
  cases target <;> exact hcontent

theorem Alike.append (h : o.Alike p o') (hlines : List.Forall₂ (Line.Alike p) lines lines') :
    (o.append lines).Alike p (o'.append lines') := by
  unfold Assembly.append
  cases hr : o.routing with
  | direct target =>
    rw [h.routing_eq_direct hr]
    exact h.appendTo target hlines
  | held resume buffer =>
    obtain ⟨buffer', hr', hbuffer⟩ := h.routing_eq_held hr
    rw [hr']
    exact h.withRouting (.held resume (List.rel_append hbuffer hlines))

theorem Alike.select (h : o.Alike p o') (target : Section) :
    (o.select target).Alike p (o'.select target) := by
  unfold Assembly.select
  cases hr : o.routing with
  | direct _ =>
    rw [h.routing_eq_direct hr]
    exact h.withRouting (.direct target)
  | held _ buffer =>
    obtain ⟨buffer', hr', hbuffer⟩ := h.routing_eq_held hr
    rw [hr']
    exact h.withRouting (.held target hbuffer)

theorem mirrors_hold (p : NamePair) :
    Mirrors (Assembly.Alike p) Eq (hold : Action (Assembly Line) Unit) hold := by
  unfold hold
  apply Mirrors.get.bind
  intro o o' h
  cases hr : o.routing with
  | direct target =>
    rw [h.routing_eq_direct hr]
    exact .set (h.withRouting (.held target .nil))
  | held _ _ =>
    obtain ⟨_, hr', -⟩ := h.routing_eq_held hr
    rw [hr']
    exact .throw (.refl _)

theorem mirrors_release (p : NamePair) :
    Mirrors (Assembly.Alike p) (List.Forall₂ (Line.Alike p)) release release := by
  unfold release
  apply Mirrors.get.bind
  intro o o' h
  cases hr : o.routing with
  | direct _ =>
    rw [h.routing_eq_direct hr]
    exact .throw (.refl _)
  | held resume buffer =>
    obtain ⟨buffer', hr', hbuffer⟩ := h.routing_eq_held hr
    rw [hr']
    apply (Mirrors.set (h.withRouting (.direct resume))).bind
    intro _ _ _
    exact .pure hbuffer

theorem mirrors_mark (p : NamePair) :
    Mirrors (Assembly.Alike p) Eq (mark : Action (Assembly Line) Mark) mark := by
  unfold mark
  apply Mirrors.get.bind
  intro o o' h
  cases hr : o.routing with
  | direct target =>
    rw [h.routing_eq_direct hr]
    have hlength := (h.content target).length_eq
    cases target <;> first | exact .throw (.refl _) | exact .pure (by rw [hlength])
  | held _ _ =>
    obtain ⟨_, hr', -⟩ := h.routing_eq_held hr
    rw [hr']
    exact .throw (.refl _)

theorem mirrors_insert (m : Mark) (hlines : List.Forall₂ (Line.Alike p) lines lines') :
    Mirrors (Assembly.Alike p) Eq (insert m lines) (insert m lines') := by
  unfold insert
  apply Mirrors.get.bind
  intro o o' h
  have hcontent := h.content m.target
  have hlength := hcontent.length_eq
  apply Mirrors.ite Iff.rfl
  · intro _
    exact .throw (.refl _)
  intro _
  apply Mirrors.ite (by rw [hlength])
  · intro _
    exact .throw (.refl _)
  intro _
  apply Mirrors.ite Iff.rfl
  · intro _
    apply (Mirrors.set (h.setContent .nil m.target)).bind
    intro _ _ _
    exact .throw (.refl _)
  intro _
  have hfront := List.rel_append (List.forall₂_take m.position.toNat hcontent) hlines
  have hall := List.rel_append hfront (List.forall₂_drop m.position.toNat hcontent)
  apply (Mirrors.set (h.setContent hall m.target)).bind
  intro _ _ _
  exact .pure (by rw [hlines.length_eq])

end Assembly

/-! ## Contexts -/

def ResultAlike (p : NamePair) (r r' : String) : Prop :=
  ∃ x x' n, p.Counterpart x x' ∧ r = Emitter.resultName x n ∧ r' = Emitter.resultName x' n

def FunctionContext.Alike (p : NamePair) (c c' : FunctionContext) : Prop :=
  ∃ results, List.Forall₂ (ResultAlike p) c.results results ∧ c' = { c with results }

def OpenFunction.Alike (p : NamePair) (f f' : OpenFunction) : Prop :=
  ∃ context, f.context.Alike p context ∧ f' = { f with context }

structure Emitter.Alike (p : NamePair) (e e' : Emitter) : Prop where
  symbols : e'.symbols = e.symbols
  output : e.output.Alike p e'.output
  entry : e.entry.Alike p e'.entry
  function : Option.Rel (OpenFunction.Alike p) e.function e'.function
  labels : e'.labels = e.labels
  finished : e'.finished = e.finished

theorem Assembly.Alike.mono {p : NamePair} {o o' : Assembly Line} (h : o.Alike p o') (d : Prop) :
    o.Alike (p.declare d) o' := by
  refine ⟨h.prologue, h.content, ?_⟩
  cases hr : o.routing with
  | direct target =>
    rw [h.routing_eq_direct hr]
    exact .direct target
  | held resume lines =>
    obtain ⟨lines', hr', hlines⟩ := h.routing_eq_held hr
    rw [hr']
    exact .held resume hlines

theorem FunctionContext.Alike.mono {p : NamePair} {c c' : FunctionContext} (h : c.Alike p c')
    {d : Prop} (hd : p.declared → d) : c.Alike (p.declare d) c' := by
  obtain ⟨results, hresults, rfl⟩ := h
  refine ⟨results, hresults.imp ?_, rfl⟩
  rintro _ _ ⟨x, x', n, hx, rfl, rfl⟩
  exact ⟨x, x', n, hx.mono hd, rfl, rfl⟩

theorem Emitter.Alike.mono {p : NamePair} {e e' : Emitter} (h : e.Alike p e') {d : Prop}
    (hd : p.declared → d) : e.Alike (p.declare d) e' := by
  refine ⟨h.symbols, h.output.mono d, h.entry.mono hd, ?_, h.labels, h.finished⟩
  rcases optionRel_cases h.function with ⟨hf, hf'⟩ | ⟨f, f', hf, hf', context, hcontext, rfl⟩
  · rw [hf, hf']
    exact .none
  · rw [hf, hf']
    exact .some ⟨context, hcontext.mono hd, rfl⟩

theorem mem_results_iff {p : NamePair} {x x' n : String} (hx : p.Counterpart x x')
    {results results' : List String} (h : List.Forall₂ (ResultAlike p) results results') :
    Emitter.resultName x n ∈ results ↔ Emitter.resultName x' n ∈ results' := by
  induction h with
  | nil => simp
  | cons hr _ ih =>
    obtain ⟨y, y', m, hy, rfl, rfl⟩ := hr
    rw [List.mem_cons, List.mem_cons, hx.resultName_eq_iff hy n m, ih]

namespace Emitter

variable {p : NamePair} {e e' : Emitter}

namespace Alike

theorem function_cases (h : e.Alike p e') : (e.function = none ∧ e'.function = none) ∨
    ∃ f context, e.function = some f ∧ e'.function = some { f with context } ∧
      f.context.Alike p context := by
  rcases optionRel_cases h.function with hnone | ⟨f, f', hf, hf', context, hcontext, rfl⟩
  · exact .inl hnone
  · exact .inr ⟨f, context, hf, hf', hcontext⟩

theorem inFunction_eq (h : e.Alike p e') : e'.inFunction = e.inFunction := by
  unfold inFunction
  rcases h.function_cases with ⟨hf, hf'⟩ | ⟨f, context, hf, hf', -⟩
  · rw [hf, hf']
  · rw [hf, hf']
    rfl

theorem active (h : e.Alike p e') : e.active.Alike p e'.active := by
  unfold Emitter.active
  rcases h.function_cases with ⟨hf, hf'⟩ | ⟨f, context, hf, hf', hcontext⟩
  · rw [hf, hf']
    exact h.entry
  · rw [hf, hf']
    exact hcontext

theorem conditionOpen_eq (h : e.Alike p e') : e'.conditionOpen = e.conditionOpen := by
  obtain ⟨results, -, hactive⟩ := h.active
  rw [conditionOpen, conditionOpen, hactive]

theorem modifyActive (h : e.Alike p e') {f f' : FunctionContext → FunctionContext}
    (hf : ∀ c c', c.Alike p c' → (f c).Alike p (f' c')) :
    (modifyActive f e).Alike p (modifyActive f' e') := by
  unfold Emitter.modifyActive
  rcases h.function_cases with ⟨hfun, hfun'⟩ | ⟨g, context, hfun, hfun', hcontext⟩
  · rw [hfun, hfun']
    exact ⟨h.symbols, h.output, hf _ _ h.entry, .none, h.labels, h.finished⟩
  · rw [hfun, hfun']
    exact ⟨h.symbols, h.output, h.entry, .some ⟨_, hf _ _ hcontext, rfl⟩, h.labels, h.finished⟩

theorem withOutput (h : e.Alike p e') {o o' : Assembly Line} (ho : o.Alike p o') :
    ({ e with output := o } : Emitter).Alike p { e' with output := o' } :=
  ⟨h.symbols, ho, h.entry, h.function, h.labels, h.finished⟩

end Alike

abbrev InStep (p : NamePair) {α α' : Type} (Q : α → α' → Prop) (x : Action Emitter α)
    (y : Action Emitter α') : Prop :=
  Mirrors (Emitter.Alike p) Q x y

/-! ## Primitive operations -/

section Primitive

variable {α α' : Type} {Q : α → α' → Prop}

theorem inStep_onOutput {x : Action (Assembly Line) α} {y : Action (Assembly Line) α'}
    (h : Mirrors (Assembly.Alike p) Q x y) : InStep p Q (onOutput x) (onOutput y) := by
  apply Mirrors.zoom h
  · intro e e' he
    exact he.output
  · intro e e' o o' he ho
    exact he.withOutput ho

theorem inStep_modifyActive {f f' : FunctionContext → FunctionContext}
    (hf : ∀ c c', c.Alike p c' → (f c).Alike p (f' c')) :
    InStep p Eq (modify (modifyActive f)) (modify (modifyActive f')) := by
  apply Mirrors.update
  intro e e' he
  exact he.modifyActive hf

theorem inStep_modifyActive_same (p : NamePair) {f : FunctionContext → FunctionContext}
    (hsame : ∀ c, (f c).results = c.results)
    (hf : ∀ c results, f { c with results } = { f c with results }) :
    InStep p Eq (modify (modifyActive f)) (modify (modifyActive f)) := by
  apply inStep_modifyActive
  rintro c _ ⟨results, hresults, rfl⟩
  refine ⟨results, ?_, hf c results⟩
  rw [hsame]
  exact hresults

theorem alike_openBlock (c c' : FunctionContext) (h : c.Alike p c') :
    (openBlock c).Alike p (openBlock c') := by
  obtain ⟨results, hresults, rfl⟩ := h
  unfold openBlock
  dsimp only
  by_cases hdetached : c.detached = true
  · rw [if_pos hdetached, if_pos hdetached]
    exact ⟨results, hresults, rfl⟩
  · rw [if_neg hdetached, if_neg hdetached]
    exact ⟨results, hresults, rfl⟩

theorem inStep_appendLines {lines lines' : List Line}
    (h : List.Forall₂ (Line.Alike p) lines lines') :
    InStep p Eq (modify (appendLines lines)) (modify (appendLines lines')) := by
  apply Mirrors.update
  intro e e' he
  exact he.withOutput (he.output.append h)

theorem inStep_appendHeader {line line' : Line} (h : line.Alike p line') :
    InStep p Eq (modify (appendHeader line)) (modify (appendHeader line')) := by
  apply Mirrors.update
  intro e e' he
  exact he.withOutput (he.output.appendTo .header (.cons h .nil))

theorem inStep_fresh (p : NamePair) : InStep p Eq fresh fresh := by
  unfold fresh
  apply (inStep_modifyActive alike_openBlock).bind
  intro _ _ _
  apply Mirrors.get.bind
  intro e e' he
  obtain ⟨results, -, hactive⟩ := he.active
  have hnumber : e.active.nextNumber = e'.active.nextNumber := by
    rw [hactive]
  refine Mirrors.bind (inStep_modifyActive_same p (fun _ => rfl) fun _ _ => rfl) ?_
  intro _ _ _
  exact .pure hnumber

theorem inStep_emit {i i' : Instr} (h : p.Alike i.spelling i'.spelling) :
    InStep p Eq (emit i) (emit i') := by
  unfold emit
  apply (inStep_modifyActive alike_openBlock).bind
  intro _ _ _
  exact inStep_appendLines (.cons (.instr h) .nil)

theorem inStep_emit_same (p : NamePair) (i : Instr) : InStep p Eq (emit i) (emit i) :=
  inStep_emit (.refl p _)

theorem inStep_terminate (p : NamePair) (i : Instr) : InStep p Eq (terminate i) (terminate i) := by
  unfold terminate
  apply (inStep_emit_same p i).bind
  intro _ _ _
  exact inStep_modifyActive_same p (fun _ => rfl) fun _ _ => rfl

theorem inStep_placeLabel (p : NamePair) (l : Label) :
    InStep p Eq (placeLabel l) (placeLabel l) := by
  unfold placeLabel
  apply (inStep_appendLines (.cons (.refl p _) .nil)).bind
  intro _ _ _
  exact inStep_modifyActive_same p (fun _ => rfl) fun _ _ => rfl

theorem inStep_hoist {name name' : LocalName} (h : p.Alike name.spelling name'.spelling)
    (type : DataType) : InStep p Eq (hoist name type) (hoist name' type) := by
  unfold hoist
  apply Mirrors.get.bind
  intro e e' he
  obtain ⟨results, -, hactive⟩ := he.active
  rw [hactive]
  apply (inStep_onOutput (Assembly.mirrors_insert e.active.slots
    (.cons (.instr (NamePair.alike_alloca h _)) .nil))).bind
  rintro slots _ rfl
  exact inStep_modifyActive_same p (fun _ => rfl) fun _ _ => rfl

theorem inStep_allocate (p : NamePair) (type : DataType) :
    InStep p Eq (allocate type) (allocate type) := by
  unfold allocate
  apply (inStep_fresh p).bind
  rintro n _ rfl
  apply (inStep_emit_same p _).bind
  intro _ _ _
  exact .pure rfl

theorem inStep_loadFrom {source source' : Pointer}
    (h : p.Alike source.spelling source'.spelling) (type : DataType) :
    InStep p Eq (loadFrom type source) (loadFrom type source') := by
  unfold loadFrom
  apply (inStep_fresh p).bind
  rintro n _ rfl
  apply (inStep_emit (NamePair.alike_load h n _)).bind
  intro _ _ _
  exact .pure rfl

theorem inStep_load (p : NamePair) (r : Register) : InStep p Eq (load r) (load r) :=
  inStep_loadFrom (.refl p _) r.type

theorem inStep_store {target target' : Pointer} (h : p.Alike target.spelling target'.spelling)
    (type : DataType) (v : Value) : InStep p Eq (store type v target) (store type v target') :=
  inStep_emit (NamePair.alike_store h _ v)

theorem inStep_store_same (p : NamePair) (type : DataType) (v : Value) (target : Pointer) :
    InStep p Eq (store type v target) (store type v target) :=
  inStep_store (.refl p _) type v

theorem inStep_checkLowered {op op' : Operand} (htype : op'.type = op.type)
    (hkind : op'.kind = op.kind) : InStep p Eq (checkLowered op) (checkLowered op') := by
  unfold checkLowered
  apply Mirrors.require_bind (by rw [htype]) (by rfl)
  intro _
  exact Mirrors.require (by rw [hkind]) rfl

end Primitive

end Emitter

end MkCompiler
