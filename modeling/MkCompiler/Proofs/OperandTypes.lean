import MkCompiler.Proofs.Steadiness

/-!
# Types of operands

What the operations on values demand of their operands, and which type their result has. An operand
that no code can be generated for and an array are refused.
-/

namespace MkCompiler

open MkCompiler.Action

namespace Emitter

/-! ## Results -/

section Results

theorem ensures_checkLowered (op : Operand) (e : Emitter) : Ensures (checkLowered op) e
    fun _ e' => e' = e ∧ op.type.isLowered = true ∧ op.kind ≠ .array := by
  simp only [checkLowered, ensures_bind, ensures_require]
  exact fun hlowered hkind => ⟨trivial, hlowered, hkind⟩

theorem ensures_materialize {op : Operand} (h : op.Typed) (e : Emitter) :
    Ensures (materialize op) e fun r _ => op.kind ≠ .array ∧ r.type = op.type.storage := by
  have hcopied (op : Operand) : Ensures (do
      checkLowered op
      let slot ← allocate op.type.storage
      let v ← value op
      store slot.type v (.frame slot.slot)
      return slot) e fun r _ => op.kind ≠ .array ∧ r.type = op.type.storage := by
    rw [ensures_bind]
    refine (ensures_checkLowered op e).mono ?_
    rintro _ _ ⟨rfl, -, hkind⟩
    rw [ensures_bind]
    refine (ensures_allocate _ _).mono ?_
    intro slot e₁ hslot
    rw [DataType.storage_storage] at hslot
    rw [ensures_bind]
    intro v e₂ _
    rw [ensures_bind]
    intro _ e₃ _
    exact ensures_pure.mpr ⟨hkind, hslot⟩
  cases op with
  | register r => exact ensures_pure.mpr ⟨by simp [Operand.kind], h.storage_eq.symm⟩
  | literal l => exact hcopied _
  | global c => exact hcopied _
  | element c index => exact hcopied _
  | slot l => exact hcopied _

theorem ensures_cast_type {r : Register} (h : r.type.IsScalar) (target : DataType) (e : Emitter) :
    Ensures (cast r target) e fun r' _ => r'.type = target.storage := by
  unfold cast
  rw [ensures_ite]
  constructor
  · intro hsame
    exact ensures_pure.mpr (h.storage_eq.symm.trans hsame)
  · intro _
    rw [ensures_bind]
    refine (ensures_allocate target.storage e).mono fun slot e₁ hslot => ?_
    simp [load, loadFrom, store, hslot]

theorem ensures_widen {left right : Operand} (hl : left.Typed) (hr : right.Typed) (op : ArithOp)
    (e : Emitter) : Ensures (widen left right (op = .div)) e fun r _ =>
      left.kind ≠ .array ∧ right.kind ≠ .array ∧
        r.1.type = op.resultType left.type right.type := by
  unfold widen
  rw [ensures_bind]
  refine (ensures_materialize hl e).mono ?_
  rintro l e₁ ⟨hleft, hltype⟩
  rw [ensures_bind]
  refine (ensures_materialize hr e₁).mono ?_
  rintro r e₂ ⟨hright, hrtype⟩
  have hscalar : l.type.IsScalar := hltype ▸ DataType.isScalar_storage hl.isLowered
  simp only [hltype, hrtype, DataType.storage_eq_real, decide_eq_true_eq]
  rw [ensures_ite]
  constructor
  · intro hreal
    rw [ensures_bind]
    refine (ensures_cast_type hscalar .real e₂).mono ?_
    intro l' e₃ hl'
    rw [ensures_bind]
    intro r' e₄ _
    refine ensures_pure.mpr ⟨hleft, hright, ?_⟩
    rw [ArithOp.resultType, if_pos hreal]
    exact hl'
  · intro hint
    refine ensures_pure.mpr ⟨hleft, hright, ?_⟩
    rw [ArithOp.resultType, if_neg hint]
    apply hscalar.eq_int
    rw [hltype, Ne, DataType.storage_eq_real]
    exact fun h => hint (.inr (.inl h))

theorem ensures_arithmetic {left right : Operand} (hl : left.Typed) (hr : right.Typed)
    (op : ArithOp) (e : Emitter) : Ensures (arithmetic left op right) e fun r _ =>
      left.kind ≠ .array ∧ right.kind ≠ .array ∧
        r.type = op.resultType left.type right.type := by
  unfold arithmetic
  rw [ensures_bind]
  refine (ensures_widen hl hr op e).mono ?_
  rintro ⟨l, r⟩ e₁ ⟨hleft, hright, htype⟩
  dsimp only at htype ⊢
  cases op.opcode? l.type with
  | none => exact ensures_throw.mpr trivial
  | some opcode =>
    rw [ensures_bind]
    refine (ensures_allocate l.type e₁).mono ?_
    intro result e₂ hresult
    rw [htype, (op.isScalar_resultType _ _).storage_eq] at hresult
    simp only [ensures_bind, ensures_pure]
    intro _ _ _ _ _ _ _ _ _ _ _ _ _ _ _
    exact ⟨hleft, hright, hresult⟩

theorem ensures_checkArgs (sig : Signature) (args : List Operand) (e : Emitter) :
    Ensures (checkArgs sig args) e fun _ e' => e' = e ∧
      List.Forall₂ (fun arg type => arg.type.storage = type.storage) args sig.params := by
  have htypes (position : Nat) {types : List DataType} (hlength : args.length = types.length) :
      Ensures (checkArgTypes sig.name position args types) e fun _ e' => e' = e ∧
        List.Forall₂ (fun arg type => arg.type.storage = type.storage) args types := by
    induction args generalizing types position with
    | nil =>
      obtain rfl := List.eq_nil_of_length_eq_zero hlength.symm
      exact ensures_pure.mpr ⟨rfl, .nil⟩
    | cons arg args ih =>
      cases types with
      | nil => cases hlength
      | cons type types =>
        rw [checkArgTypes, ensures_bind, ensures_require]
        intro htype
        refine (ih (position + 1) (Nat.succ.inj hlength)).mono ?_
        rintro _ _ ⟨rfl, hrest⟩
        exact ⟨rfl, .cons htype hrest⟩
  unfold checkArgs
  rw [ensures_bind, ensures_require]
  exact fun hlength => htypes 1 hlength

theorem ensures_argValues {args : List Operand} (h : ∀ arg ∈ args, arg.Typed) (e : Emitter) :
    Ensures (argValues args) e fun _ _ => ∀ arg ∈ args, arg.kind ≠ .array := by
  induction args generalizing e with
  | nil => exact ensures_pure.mpr (by simp)
  | cons arg args ih =>
    rw [argValues, ensures_bind]
    refine (ensures_materialize (h arg (by simp)) e).mono ?_
    rintro r e₁ ⟨hkind, -⟩
    rw [ensures_bind]
    intro v e₂ _
    rw [ensures_bind]
    refine (ih (fun arg' harg' => h arg' (by simp [harg'])) e₂).mono ?_
    intro values e₃ hrest
    exact ensures_pure.mpr (by simpa using ⟨hkind, hrest⟩)

theorem ensures_call {args : List Operand} (h : ∀ arg ∈ args, arg.Typed) (callee : GlobalName)
    (sig : Signature) (e : Emitter) : Ensures (call callee sig args) e fun _ _ =>
      sig.Accepts args := by
  unfold call
  rw [ensures_bind]
  refine (ensures_checkArgs sig args e).mono ?_
  rintro _ _ ⟨rfl, htypes⟩
  rw [ensures_bind]
  refine (ensures_argValues h _).mono ?_
  intro values e₁ hkinds
  simp only [ensures_bind, ensures_pure]
  intro _ _ _ _ _ _
  exact List.forall₂_iff_zip.mpr ⟨htypes.length_eq, fun hmem =>
    ⟨(List.forall₂_iff_zip.mp htypes).2 hmem, hkinds _ (List.of_mem_zip hmem).1⟩⟩

theorem ensures_callFunction {args : List Operand} (h : ∀ arg ∈ args, arg.Typed) (sig : Signature)
    (e : Emitter) : Ensures (callFunction sig args) e fun r _ =>
      sig.Accepts args ∧ r.type = sig.result.storage := by
  unfold callFunction
  rw [ensures_bind]
  refine (ensures_call h _ sig e).mono ?_
  intro v e₁ haccepts
  rw [ensures_bind]
  refine (ensures_allocate sig.result e₁).mono ?_
  intro slot e₂ hslot
  rw [ensures_bind]
  intro _ e₃ _
  exact ensures_pure.mpr ⟨haccepts, hslot⟩

theorem ensures_callMethod {args : List Operand} (h : ∀ arg ∈ args, arg.Typed) (inst : String)
    {sig : Signature} (hsig : sig.result.isLowered = true) (e : Emitter) :
    Ensures (callMethod inst sig args) e fun r _ =>
      sig.Accepts args ∧ r.type = sig.result.storage := by
  have hcopied (v : Value) (l : Local) (hl : l.type = sig.result) (e : Emitter) : Ensures (do
      store sig.result v (.frame l.slot)
      materialize (.slot l)) e fun r _ => r.type = sig.result.storage := by
    rw [ensures_bind]
    intro _ e₁ _
    have htyped : (Operand.slot l).Typed := by
      rw [Operand.Typed, hl]
      exact hsig
    refine (ensures_materialize htyped e₁).mono ?_
    rintro r _ ⟨-, hr⟩
    rw [hr, Operand.type, hl]
  unfold callMethod
  rw [ensures_bind]
  refine (ensures_call h _ sig e).mono ?_
  intro v e₁ haccepts
  rw [ensures_bind, ensures_get, ensures_ite]
  constructor
  · intro _
    rw [ensures_bind]
    intro _ e₂ _
    rw [ensures_bind]
    intro _ e₃ _
    exact (hcopied v _ rfl e₃).mono fun _ _ hr => ⟨haccepts, hr⟩
  · intro _
    exact (hcopied v _ rfl e₁).mono fun _ _ hr => ⟨haccepts, hr⟩

end Results

end Emitter

end MkCompiler
