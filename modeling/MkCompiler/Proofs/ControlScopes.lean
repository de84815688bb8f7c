import MkCompiler.Proofs.Streams

/-!
# Scopes of control constructs

A control construct belongs to the body it has been opened in. As long as it is open, the function
around it is open too: a function cannot be closed with open constructs, and the number of a
construct that is gone is not given out again.
-/

namespace MkCompiler

/-- The control constructs of a body that are open, the one whose condition is being compiled
included. -/
def FunctionContext.controls (c : FunctionContext) : List Nat :=
  c.pending ++ c.openCompare.toList

namespace Emitter

variable {e e' : Emitter} {id : Nat}

/-- How a step changes the open constructs. New ones get new numbers. -/
structure Renumbers (e e' : Emitter) : Prop where
  labels_le : e.labels ≤ e'.labels
  active : ∀ i ∈ e'.active.controls, i ∈ e.active.controls ∨ i ∈ e.entry.controls ∨
    e.labels ≤ i ∧ i < e'.labels
  entry : ∀ i ∈ e'.entry.controls, i ∈ e.entry.controls ∨ e.labels ≤ i ∧ i < e'.labels

/-- Inside of a body the open constructs change, and which function is open does not. -/
theorem renumbers_modifyActive {c : FunctionContext} {o : Assembly Line} {n : Nat}
    (hlabels : e.labels ≤ n)
    (hcontrols : ∀ i ∈ c.controls, i ∈ e.active.controls ∨ e.labels ≤ i ∧ i < n) :
    Renumbers e { modifyActive (fun _ => c) e with output := o, labels := n } := by
  have hactive : ({ modifyActive (fun _ => c) e with output := o, labels := n } : Emitter).active =
      c :=
    active_modifyActive e _
  refine ⟨hlabels, ?_, ?_⟩
  · intro i hi
    rw [hactive] at hi
    exact (hcontrols i hi).imp id .inr
  · intro i hi
    cases hf : e.function with
    | some f =>
      simp only [modifyActive, hf] at hi
      exact .inl hi
    | none =>
      simp only [modifyActive, hf] at hi
      have hentry : e.active = e.entry := by
        simp [Emitter.active, hf]
      exact hentry ▸ hcontrols i hi

theorem inFunction_modifyActive (f : FunctionContext → FunctionContext) (e : Emitter) :
    (modifyActive f e).inFunction = e.inFunction := by
  unfold modifyActive inFunction
  cases e.function <;> rfl

theorem BodyStep.inFunction_eq (h : BodyStep e e') : e'.inFunction = e.inFunction := by
  obtain ⟨⟨c, o, n, rfl⟩, -⟩ := h.grows
  exact inFunction_modifyActive _ e

theorem BodyStep.renumbers (h : BodyStep e e') : Renumbers e e' := by
  cases h with
  | straight h =>
    obtain ⟨c, o, rfl, hpending, hopen⟩ := h.frame
    have hcontrols : c.controls = e.active.controls := by
      rw [FunctionContext.controls, hpending, hopen]
      rfl
    have hrenumbers := renumbers_modifyActive (c := c) (o := o) (Nat.le_refl e.labels) fun i hi =>
      .inl (hcontrols ▸ hi)
    have heq : ({ modifyActive (fun _ => c) e with output := o } : Emitter) =
        { modifyActive (fun _ => c) e with output := o, labels := e.labels } :=
      congrArg (fun n => ({ modifyActive (fun _ => c) e with output := o, labels := n } : Emitter))
        (labels_modifyActive e _)
    rw [heq]
    exact hrenumbers
  | condition hopen h =>
    obtain ⟨c, o, rfl, hpending, hopen'⟩ := h.frame
    apply renumbers_modifyActive (by omega)
    intro i hi
    simp only [FunctionContext.controls, hpending, hopen', Option.toList_some, List.mem_append,
      List.mem_singleton] at hi ⊢
    rcases hi with hi | hi
    · exact .inl (.inl hi)
    · exact .inr (by omega)
  | branch hopen _ h =>
    obtain ⟨c, o, rfl, hpending, hopen'⟩ := h.frame
    apply renumbers_modifyActive (Nat.le_refl _)
    intro i hi
    simp only [FunctionContext.controls, hpending, hopen', hopen, Option.toList_some,
      Option.toList_none, List.append_nil, List.mem_append, List.mem_cons, List.not_mem_nil,
      or_false] at hi ⊢
    exact .inl hi.symm
  | exit hpending h =>
    obtain ⟨c, o, rfl, hpending', hopen'⟩ := h.frame
    apply renumbers_modifyActive (Nat.le_refl _)
    intro i hi
    simp only [FunctionContext.controls, hpending, hpending', hopen', List.mem_append,
      List.mem_cons] at hi ⊢
    exact .inl (hi.imp .inr id)
  | ret _ h =>
    obtain ⟨c, o, rfl, hpending, hopen⟩ := h.frame
    apply renumbers_modifyActive (Nat.le_refl _)
    intro i hi
    rw [FunctionContext.controls, hpending, hopen] at hi
    exact .inl hi

theorem Step.renumbers (h : Step e e') : Renumbers e e' := by
  cases h with
  | body h => exact h.renumbers
  | @enter sig c o _ _ hnone he hpending hopen _ =>
    subst he
    refine ⟨Nat.le_refl _, ?_, fun i hi => .inl hi⟩
    intro i hi
    simp [Emitter.active, FunctionContext.controls, hpending, hopen] at hi
  | @leave f o hsome hpending hopen he _ =>
    subst he
    exact ⟨Nat.le_refl _, fun i hi => .inr (.inl hi), fun i hi => .inl hi⟩

/-! ## Constructs of a function -/

/-- The constructs of the entry point have numbers that have been given out. -/
def Numbered (e : Emitter) : Prop :=
  ∀ i ∈ e.entry.controls, i < e.labels

/-- A number that has been given out, and not to a construct of the entry point that is open. -/
structure Outside (id : Nat) (e : Emitter) : Prop where
  lt : id < e.labels
  entry : id ∉ e.entry.controls

/-- The construct with that number is not open any more. -/
structure Gone (id : Nat) (e : Emitter) : Prop extends Outside id e where
  active : id ∉ e.active.controls

theorem Step.numbered (hs : Step e e') (h : e.Numbered) : e'.Numbered := by
  intro i hi
  have hle := hs.renumbers.labels_le
  rcases hs.renumbers.entry i hi with hold | hnew
  · have := h i hold
    omega
  · exact hnew.2

theorem Step.outside (hs : Step e e') (h : e.Outside id) : e'.Outside id := by
  have hlt := h.lt
  have hle := hs.renumbers.labels_le
  refine ⟨by omega, ?_⟩
  intro hi
  rcases hs.renumbers.entry id hi with hold | hnew
  · exact h.entry hold
  · omega

theorem Step.gone (hs : Step e e') (h : e.Gone id) : e'.Gone id := by
  refine ⟨hs.outside h.toOutside, ?_⟩
  intro hi
  have hlt := h.lt
  rcases hs.renumbers.active id hi with hold | hentry | hnew
  · exact h.active hold
  · exact h.entry hentry
  · omega

/-- A construct that is opened in a function gets a number of its own. -/
theorem Turns.outside {pending : List Nat} {openCompare : Option Nat} {code : List Line}
    (h : Turns e e' pending openCompare (e.labels + 1) code) (hnumbered : e.Numbered)
    (hinside : e.inFunction = true) : e'.Outside e.labels := by
  obtain ⟨⟨c, o, rfl, -, -⟩, -⟩ := h
  refine ⟨Nat.lt_succ_self _, ?_⟩
  intro hi
  cases hf : e.function with
  | none =>
    rw [inFunction, hf] at hinside
    cases hinside
  | some f =>
    simp only [modifyActive, hf] at hi
    have hlt := hnumbered _ hi
    omega

/-- A function is closed only when its constructs are gone. -/
theorem Step.inFunction_or_gone (hs : Step e e') (h : e.Outside id) (hinside : e.inFunction = true) :
    e'.inFunction = true ∨ e'.Gone id := by
  cases hs with
  | body hb => exact .inl (hb.inFunction_eq.trans hinside)
  | enter hnone =>
    rw [inFunction, hnone] at hinside
    cases hinside
  | leave _ _ _ he _ =>
    subst he
    exact .inr ⟨⟨h.lt, h.entry⟩, h.entry⟩

/-- A run leaves the function open, or the construct is gone behind it. -/
theorem Run.inFunction_or_gone {kinds : List CommandKind} (hrun : Run kinds e e')
    (h : e.Outside id) (hinside : e.inFunction = true) :
    e'.Outside id ∧ (e'.inFunction = true ∨ e'.Gone id) := by
  refine hrun.invariant (P := fun e => e.Outside id ∧ (e.inFunction = true ∨ e.Gone id)) ?_
    ⟨h, .inl hinside⟩
  rintro e₁ e₂ hs ⟨hout, hin | hgone⟩
  · exact ⟨hs.outside hout, hs.inFunction_or_gone hout hin⟩
  · exact ⟨hs.outside hout, .inr (hs.gone hgone)⟩

end Emitter

end MkCompiler
