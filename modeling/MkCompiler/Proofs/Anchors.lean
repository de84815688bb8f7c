import MkCompiler.Proofs.Emission
import MkCompiler.Proofs.Operands

/-!
# Anchors of the output

Between two operations of the emitter the output is not held, and the mark of every context lies
within the section it belongs to. This does not depend on the operations having succeeded. As long as
it is so, and the operands are proper, checking, reading and computing values fails only by rejecting
the program.
-/

namespace MkCompiler

open MkCompiler.Action

namespace Assembly

variable {α : Type} (a : Assembly α)

theorem content_setContent {target : Section} (h : target.isAssigned = true) (pieces : List α)
    (s : Section) :
    (a.setContent pieces target).content s = if s = target then pieces else a.content s := by
  cases target <;> cases s <;> first | rfl | cases h

theorem content_append_le (pieces : List α) (s : Section) :
    (a.content s).length ≤ ((a.append pieces).content s).length := by
  unfold append
  split
  · next target _ =>
    by_cases h : target.isAssigned = true
    · rw [appendTo, content_setContent a h]
      by_cases hs : s = target
      · rw [if_pos hs, hs, List.length_append]
        omega
      · simp only [if_neg hs, Nat.le_refl]
    · cases target with
      | unassigned n => exact Nat.le_refl _
      | _ => exact absurd rfl h
  · cases s <;> exact Nat.le_refl _

@[simp] theorem routing_setContent (pieces : List α) (target : Section) :
    (a.setContent pieces target).routing = a.routing := by
  cases target <;> rfl

theorem routing_append {pieces : List α} {t : Section} (h : a.routing = .direct t) :
    (a.append pieces).routing = .direct t := by
  unfold append appendTo
  rw [h]
  exact (routing_setContent a _ t).trans h

/-- An insertion within a section succeeds and lengthens that section. -/
theorem ends_insert {m : Mark} {pieces : List α} {Q : Mark → Assembly α → Prop}
    {E : Failure → Assembly α → Prop} (ht : m.target.isAssigned = true)
    (hnonneg : 0 ≤ m.position) (hle : m.position ≤ (a.content m.target).length)
    (hq : ∀ a' : Assembly α, a'.routing = a.routing →
      (∀ s, (a'.content s).length =
        (a.content s).length + if s = m.target then pieces.length else 0) →
      Q { m with position := m.position + pieces.length } a') :
    Ends (insert m pieces) a Q E := by
  unfold insert
  rw [ends_bind, ends_get]
  dsimp only
  rw [if_neg (by simp [ht]), if_neg (by omega), if_neg (by omega), ends_bind, ends_set, ends_pure]
  apply hq
  · exact routing_setContent a _ _
  · intro s
    rw [content_setContent a ht]
    by_cases hs : s = m.target
    · rw [if_pos hs, if_pos hs, hs]
      simp only [List.length_append, List.length_take, List.length_drop]
      omega
    · rw [if_neg hs, if_neg hs, Nat.add_zero]

end Assembly

/-- The context writes to a section, and its mark lies within that section. -/
structure FunctionContext.Anchored (c : FunctionContext) (o : Assembly Line) (target : Section) :
    Prop where
  target_eq : c.target = target
  mark_eq : c.slots.target = target
  nonneg : 0 ≤ c.slots.position
  le : c.slots.position ≤ (o.content target).length

theorem FunctionContext.Anchored.mono {c c' : FunctionContext} {o o' : Assembly Line}
    {target : Section} (h : c.Anchored o target) (ht : c'.target = c.target)
    (hs : c'.slots = c.slots)
    (ho : (o.content target).length ≤ (o'.content target).length) : c'.Anchored o' target := by
  refine ⟨ht.trans h.target_eq, ?_, ?_, ?_⟩ <;> rw [hs]
  · exact h.mark_eq
  · exact h.nonneg
  · exact Int.le_trans h.le (Int.ofNat_le.mpr ho)

namespace Emitter

variable {α : Type} {P : Emitter → Prop} {e : Emitter}

/-- The output goes straight to the section of the active context, and all marks are in place. -/
structure Anchored (e : Emitter) : Prop where
  routing : e.output.routing = .direct e.active.target
  entry : e.entry.Anchored e.output .entryBody
  function : ∀ f, e.function = some f → f.context.Anchored e.output .functions

/-- An anchored emitter, inside of a function or outside of all, before or behind the end of the
program. -/
structure Steady (inside finished : Bool) (e : Emitter) : Prop where
  anchored : e.Anchored
  inside : e.function.isSome = inside
  finished : e.finished = finished

/-- The failures of an operation whose operands are proper. -/
abbrev Rejects (f : Failure) : Prop := f.isRejection = true

theorem steady_start (symbols : RuntimeSymbols) : (start symbols).Steady false false where
  anchored := ⟨rfl, ⟨rfl, rfl, Int.le_refl _, Int.le_refl _⟩, by simp [start]⟩
  inside := rfl
  finished := rfl

theorem Anchored.active (h : e.Anchored) : e.active.Anchored e.output e.active.target := by
  unfold Emitter.active
  cases hf : e.function with
  | none => exact ⟨rfl, h.entry.mark_eq.trans h.entry.target_eq.symm, h.entry.nonneg,
      h.entry.target_eq ▸ h.entry.le⟩
  | some f =>
    have hanchored := h.function f hf
    exact ⟨rfl, hanchored.mark_eq.trans hanchored.target_eq.symm, hanchored.nonneg,
      hanchored.target_eq ▸ hanchored.le⟩

theorem Anchored.isAssigned (h : e.Anchored) : e.active.target.isAssigned = true := by
  unfold Emitter.active
  cases hf : e.function with
  | none => simp only [h.entry.target_eq, Section.isAssigned]
  | some f => simp only [(h.function f hf).target_eq, Section.isAssigned]

/-- The active context may change as long as its mark stays in place, and the output may grow. -/
theorem Anchored.replace (h : e.Anchored) {c : FunctionContext} {o : Assembly Line}
    (hc : c.Anchored o e.active.target) (hr : o.routing = e.output.routing)
    (ho : ∀ s, (e.output.content s).length ≤ (o.content s).length) :
    ({ modifyActive (fun _ => c) e with output := o } : Emitter).Anchored := by
  have hroute : o.routing = .direct c.target := by
    rw [hr, h.routing, hc.target_eq]
  obtain ⟨_, _, entry, function, _, _⟩ := e
  cases function with
  | none =>
    refine ⟨hroute, ?_, by simp [modifyActive]⟩
    have htarget : entry.target = .entryBody := h.entry.target_eq
    exact htarget ▸ hc
  | some f =>
    refine ⟨hroute, h.entry.mono rfl rfl (ho _), ?_⟩
    rintro _ ⟨⟩
    have htarget : f.context.target = .functions := (h.function f rfl).target_eq
    exact htarget ▸ hc

section Steady

variable {inside finished : Bool} {c : FunctionContext} {o : Assembly Line} {n : Nat}
  (h : e.Steady inside finished) (hr : o.routing = e.output.routing)
  (ho : ∀ s, (e.output.content s).length ≤ (o.content s).length)
include h hr ho

theorem Steady.replace (hc : c.Anchored o e.active.target) :
    ({ modifyActive (fun _ => c) e with output := o, labels := n } : Emitter).Steady
      inside finished := by
  obtain ⟨hroute, hentry, hfunction⟩ := h.anchored.replace hc hr ho
  refine ⟨⟨hroute, hentry, hfunction⟩, ?_, ?_⟩
  · rw [← h.inside]
    unfold modifyActive
    cases e.function <;> rfl
  · rw [← h.finished]
    unfold modifyActive
    cases e.function <;> rfl

theorem Steady.amend (ht : c.target = e.active.target) (hs : c.slots = e.active.slots) :
    ({ modifyActive (fun _ => c) e with output := o, labels := n } : Emitter).Steady
      inside finished :=
  h.replace hr ho (h.anchored.active.mono ht hs (ho _))

theorem Steady.grow : ({ e with output := o } : Emitter).Steady inside finished := by
  have hkept := h.amend (c := e.active) (n := e.labels) hr ho rfl rfl
  rwa [modifyActive_active] at hkept

omit hr ho in
theorem Steady.context (n : Nat)
    {g : FunctionContext → FunctionContext} (ht : ∀ c, (g c).target = c.target)
    (hs : ∀ c, (g c).slots = c.slots) :
    (modifyActive g { e with labels := n }).Steady inside finished := by
  have hkept := h.amend (c := g e.active) (o := e.output) (n := n) rfl (fun _ => Nat.le_refl _)
    (ht _) (hs _)
  have heq : modifyActive g { e with labels := n } =
      { modifyActive (fun _ => g e.active) e with output := e.output, labels := n } := by
    unfold modifyActive active
    cases e.function <;> rfl
  rwa [heq]

end Steady

/-! ## Checks -/

theorem reports_rejects : Reports Rejects :=
  fun _ _ => rfl

theorem admitted_of_proper {op : Operand} (h : op.Proper) : op.Admitted Rejects :=
  .inr ⟨reports_rejects, .inl h⟩

theorem admits_of_proper (sig : Signature) {args : List Operand} (h : ∀ arg ∈ args, arg.Proper) :
    sig.Admits Rejects args :=
  ⟨.inr reports_rejects, fun arg harg => admitted_of_proper (h arg harg)⟩

section Checks

variable {F : Failure → Prop}

theorem keeps_require (p : Prop) [Decidable p] {v : Violation} (hv : F (.rejected v)) :
    Keeps P P F (require p v : Action Emitter Unit) := by
  intro e h
  rw [ends_require]
  exact ⟨fun _ => h, fun _ => ⟨hv, h⟩⟩

theorem rejects_require (p : Prop) [Decidable p] (v : Violation) :
    Keeps P P Rejects (require p v : Action Emitter Unit) :=
  keeps_require p rfl

theorem keeps_require_bind {p : Prop} [Decidable p] {v : Violation} {x : Unit → Action Emitter α}
    (hv : F (.rejected v)) (hx : p → Keeps P P F (x ())) :
    Keeps P P F ((require p v : Action Emitter Unit) >>= x) := by
  intro e h
  rw [ends_bind, ends_require]
  exact ⟨fun hp => hx hp e h, fun _ => ⟨hv, h⟩⟩

theorem keeps_reject {v : Violation} (hv : F (.rejected v)) :
    Keeps P P F (reject v : Action Emitter α) :=
  .throw hv fun _ h => h

theorem keeps_checkLowered {op : Operand} (h : op.Admitted F) : Keeps P P F (checkLowered op) := by
  rcases h with h | ⟨hF, -⟩
  · intro e he
    simp only [checkLowered, ends_bind, ends_require]
    exact ⟨fun _ => ⟨fun _ => he, fun hkind => absurd h.kind_ne_array hkind⟩,
      fun hlowered => absurd h.typed.isLowered hlowered⟩
  · exact (keeps_require _ (hF _ rfl)).bind fun _ => keeps_require _ (hF _ rfl)

theorem keeps_checkArgs {sig : Signature} {args : List Operand} (h : sig.Accepts args ∨ Reports F) :
    Keeps P P F (checkArgs sig args) := by
  rcases h with h | hF
  · have htypes {args : List Operand} {types : List DataType} (h : List.Forall₂
        (fun arg type => arg.type.storage = type.storage ∧ arg.kind ≠ .array) args types)
        (position : Nat) : Keeps P P F (checkArgTypes sig.name position args types) := by
      induction h generalizing position with
      | nil => exact .pure _
      | cons harg _ ih =>
        intro e he
        rw [checkArgTypes, ends_bind, ends_require]
        exact ⟨fun _ => ih _ e he, fun hne => absurd harg.1 hne⟩
    intro e he
    rw [checkArgs, ends_bind, ends_require]
    exact ⟨fun _ => htypes h _ e he, fun hne => absurd h.length_eq hne⟩
  · have htypes (position : Nat) (types : List DataType) :
        Keeps P P F (checkArgTypes sig.name position args types) := by
      induction args generalizing position types with
      | nil => exact .pure _
      | cons arg args ih =>
        cases types with
        | nil => exact .pure _
        | cons type types => exact (keeps_require _ (hF _ rfl)).bind fun _ => ih _ _
    exact (keeps_require _ (hF _ rfl)).bind fun _ => htypes _ _

theorem keeps_checkParams (function : String) (params : List Param)
    (h : (∀ v, F (.rejected v)) ∨ ∀ p ∈ params, p.type.IsScalar) :
    Keeps P P F (checkParams function params) := by
  induction params with
  | nil => exact .pure _
  | cons p rest ih =>
    have hrest := ih (h.imp_right fun h p hp => h p (List.mem_cons_of_mem _ hp))
    rcases h with hF | h
    · exact (keeps_require _ (hF _)).bind fun _ => hrest
    · intro e he
      rw [checkParams, ends_bind, ends_require]
      refine ⟨fun _ => hrest e he, fun hne => absurd ?_ hne⟩
      rcases h p (List.mem_cons_self ..) with htype | htype <;> simp [htype, DataType.isLowered]

theorem keeps_checkElements (hF : Reports F) (array : Global) (position : Nat)
    (ops : List Operand) : Keeps P P F (checkElements array position ops) := by
  induction ops generalizing position with
  | nil => exact .pure _
  | cons op rest ih => exact (keeps_require _ (hF _ rfl)).bind fun _ => ih _

theorem keeps_element (array : Binding) (index : Operand) :
    Keeps P P Rejects (element array index) := by
  unfold element
  split
  · exact keeps_reject rfl
  · apply (rejects_require _ _).bind
    intro _
    apply (rejects_require _ _).bind
    intro _
    apply Keeps.bind ((rejects_require _ _).bind fun _ => rejects_require _ _)
    intro _
    split
    · exact (rejects_require _ _).bind fun _ => .pure _
    · exact .pure _

end Checks

/-! ## Types of computed values -/

theorem ensures_allocate (type : DataType) (e : Emitter) :
    Ensures (allocate type) e fun r _ => r.type = type.storage := by
  simp [allocate]

theorem ensures_cast (r : Register) (target : DataType) (e : Emitter) :
    Ensures (cast r target) e fun r' _ => r'.type.storage = target.storage := by
  unfold cast
  rw [ensures_ite]
  constructor
  · intro h
    exact ensures_pure.mpr h
  · intro _
    rw [ensures_bind]
    refine (ensures_allocate target.storage e).mono fun slot e₁ hslot => ?_
    simp [load, loadFrom, store, hslot]

/-- The operands of a division are reals. -/
theorem ensures_widen_real (left right : Operand) (e : Emitter) :
    Ensures (widen left right true) e fun r _ => r.1.type = .real := by
  unfold widen
  simp only [ensures_bind, ensures_ite, true_or, true_implies, not_true, false_implies, and_true,
    ensures_pure]
  intro l e₁ _ r e₂ _ l' e₃ hl' r' e₄ _
  have htype := ensures_cast l .real e₂ l' e₃ hl'
  cases ht : l'.type <;> simp_all [DataType.storage]

/-! ## Reading and computing values

These operations only write, so that they keep every property that writing keeps: also while the
output is held. -/

def WriteClosed (P : Emitter → Prop) : Prop :=
  ∀ e code k, P e → P (e.write code k)

theorem writeClosed_steady (inside finished : Bool) : WriteClosed (Steady inside finished) := by
  intro e code k h
  rw [write_eq]
  have hr : (e.output.append code).routing = e.output.routing := by
    rw [Assembly.routing_append _ h.anchored.routing, h.anchored.routing]
  have hkept := h.amend (c := e.active.setCounter k) (o := e.output.append code) (n := e.labels)
    hr (fun s => Assembly.content_append_le _ _ s) rfl rfl
  rw [← labels_modifyActive e fun _ => e.active.setCounter k] at hkept
  exact hkept

section Values

variable {F : Failure → Prop} (hP : WriteClosed P)
include hP

theorem keeps_fresh : Keeps P P F fresh := by
  intro e h
  rw [ends_of_ok (fresh_eq e)]
  exact hP _ _ _ h

theorem keeps_emit (i : Instr) : Keeps P P F (emit i) := by
  intro e h
  rw [ends_of_ok (emit_eq _ e)]
  exact hP _ _ _ h

theorem keeps_terminate (i : Instr) : Keeps P P F (terminate i) := by
  intro e h
  rw [ends_of_ok (terminate_eq _ e)]
  exact hP _ _ _ h

theorem keeps_placeLabel (l : Label) : Keeps P P F (placeLabel l) := by
  intro e h
  rw [ends_of_ok (placeLabel_eq _ e)]
  exact hP _ _ _ h

theorem keeps_allocate (type : DataType) : Keeps P P F (allocate type) :=
  (keeps_fresh hP).bind fun _ => (keeps_emit hP _).bind fun _ => .pure _

theorem keeps_loadFrom (type : DataType) (source : Pointer) :
    Keeps P P F (loadFrom type source) :=
  (keeps_fresh hP).bind fun _ => (keeps_emit hP _).bind fun _ => .pure _

theorem keeps_load (r : Register) : Keeps P P F (load r) :=
  keeps_loadFrom hP _ _

theorem keeps_store (type : DataType) (v : Value) (target : Pointer) :
    Keeps P P F (store type v target) :=
  keeps_emit hP _

theorem keeps_address (c : Cell) (index : Value) : Keeps P P F (address c index) :=
  (keeps_fresh hP).bind fun _ => (keeps_emit hP _).bind fun _ =>
    (keeps_fresh hP).bind fun _ => (keeps_emit hP _).bind fun _ => .pure _

theorem keeps_value {op : Operand} (h : op.Admitted F) : Keeps P P F (value op) := by
  induction op with
  | literal l => exact (keeps_checkLowered h).bind fun _ => .pure _
  | register r => exact (keeps_checkLowered h).bind fun _ => keeps_load hP r
  | slot l => exact (keeps_checkLowered h).bind fun _ => keeps_loadFrom hP _ _
  | global c =>
    apply (keeps_checkLowered h).bind
    intro _
    apply Keeps.ite
    · intro hkind
      rcases h with h | ⟨-, hproper | hfault⟩
      · exact absurd (hkind.symm.trans h.2) (by simp)
      · exact absurd hkind hproper
      · exact .throw hfault fun _ h => h
    · intro _
      exact keeps_loadFrom hP _ _
  | element c index ih =>
    apply (keeps_checkLowered h).bind
    intro _
    apply Keeps.ite
    · intro _
      exact (ih h.index).bind fun i => (keeps_address hP c i).bind fun _ => keeps_loadFrom hP _ _
    · intro _
      exact keeps_loadFrom hP _ _

theorem keeps_elementPointer {g : Global} {index : Operand} (hg : g.index = some index)
    (h : index.Admitted F) : Keeps P P F (elementPointer g) := by
  unfold elementPointer
  rw [hg]
  exact (keeps_value hP h).bind fun i => keeps_address hP _ i

theorem keeps_materialize {op : Operand} (h : op.Admitted F) : Keeps P P F (materialize op) := by
  unfold materialize
  split
  · exact .pure _
  · apply (keeps_checkLowered h).bind
    intro _
    apply (keeps_allocate hP _).bind
    intro slot
    exact (keeps_value hP h).bind fun _ => (keeps_store hP _ _ _).bind fun _ => .pure _

theorem keeps_cast (r : Register) (target : DataType) : Keeps P P F (cast r target) := by
  apply Keeps.ite
  · intro _
    exact .pure _
  · intro _
    apply (keeps_allocate hP _).bind
    intro slot
    exact (keeps_load hP r).bind fun _ => (keeps_fresh hP).bind fun _ =>
      (keeps_emit hP _).bind fun _ => (keeps_store hP _ _ _).bind fun _ => .pure _

theorem keeps_widen {left right : Operand} (hl : left.Admitted F) (hr : right.Admitted F)
    (force : Bool) : Keeps P P F (widen left right force) := by
  apply (keeps_materialize hP hl).bind
  intro l
  apply (keeps_materialize hP hr).bind
  intro r
  apply Keeps.ite
  · intro _
    exact (keeps_cast hP l _).bind fun _ => (keeps_cast hP r _).bind fun _ => .pure _
  · intro _
    exact .pure _

theorem keeps_arithmetic {left right : Operand} (hl : left.Admitted F) (hr : right.Admitted F)
    (op : ArithOp) : Keeps P P F (arithmetic left op right) := by
  have hwiden (e : Emitter) : Ensures (widen left right (op = .div)) e fun r _ =>
      (op.opcode? r.1.type).isSome = true := by
    by_cases hop : op = .div
    · subst hop
      refine (ensures_widen_real left right e).mono fun r _ h => ?_
      rw [h]
      rfl
    · intro r _ _
      cases op <;> cases r.1.type <;> first | rfl | exact absurd rfl hop
  apply (keeps_widen hP hl hr _).bind_ensures hwiden
  rintro ⟨l, r⟩ hsome
  obtain ⟨opcode, hopcode⟩ := Option.isSome_iff_exists.mp hsome
  dsimp only at hopcode ⊢
  rw [hopcode]
  exact (keeps_allocate hP _).bind fun _ => (keeps_load hP l).bind fun _ =>
    (keeps_load hP r).bind fun _ => (keeps_fresh hP).bind fun _ => (keeps_emit hP _).bind fun _ =>
      (keeps_store hP _ _ _).bind fun _ => .pure _

theorem keeps_print {op : Operand} (h : op.Admitted F) : Keeps P P F (print op) :=
  (keeps_materialize hP h).bind fun _ => (keeps_load hP _).bind fun _ => (keeps_fresh hP).bind
    fun _ => Keeps.get.bind fun _ => keeps_emit hP _

theorem keeps_argValues {args : List Operand} (h : ∀ arg ∈ args, arg.Admitted F) :
    Keeps P P F (argValues args) := by
  induction args with
  | nil => exact .pure _
  | cons arg args ih =>
    have harg := h arg (by simp)
    have hargs := ih fun x hx => h x (by simp [hx])
    exact (keeps_materialize hP harg).bind fun _ => (keeps_load hP _).bind fun _ =>
      hargs.bind fun _ => .pure _

theorem keeps_call {sig : Signature} {args : List Operand} (h : sig.Admits F args)
    (callee : GlobalName) : Keeps P P F (call callee sig args) :=
  (keeps_checkArgs h.1).bind fun _ => (keeps_argValues hP h.2).bind fun _ =>
    (keeps_fresh hP).bind fun _ => (keeps_emit hP _).bind fun _ => .pure _

theorem keeps_callFunction {sig : Signature} {args : List Operand} (h : sig.Admits F args) :
    Keeps P P F (callFunction sig args) :=
  (keeps_call hP h _).bind fun _ => (keeps_allocate hP _).bind fun _ =>
    (keeps_store hP _ _ _).bind fun _ => .pure _

end Values

end Emitter

end MkCompiler
