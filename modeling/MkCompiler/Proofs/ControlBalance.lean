import MkCompiler.Proofs.Streams

/-!
# Balance of control flow

Conditions, comparisons and the ends of control constructs occur in a body like brackets. The
emitter counts them, for the entry point and for the function that is open. A body that it can close
is balanced.
-/

namespace MkCompiler

open MkCompiler.Action

def CommandKind.closesControl : CommandKind → Bool
  | .endIf | .endWhile => true
  | _ => false

/-- Every end of a control construct stands behind a comparison of its own, and every condition is
compared before the next one begins. -/
structure Balanced (kinds : List CommandKind) : Prop where
  closed_le : ∀ front, front <+: kinds →
    front.countP CommandKind.closesControl ≤ front.count .compare
  closed_eq : kinds.countP CommandKind.closesControl = kinds.count .compare
  compared : ∀ front rest, kinds = front ++ .beginCondition :: rest →
    ∃ between behind, rest = between ++ .compare :: behind ∧ .beginCondition ∉ between

/-! ## Counting -/

/-- How many control constructs of a body are open, and whether a condition waits for its
comparison. -/
structure ControlState where
  depth : Nat
  waiting : Bool
  deriving DecidableEq, Repr

namespace ControlState

def start : ControlState :=
  ⟨0, false⟩

def next? (s : ControlState) : CommandKind → Option ControlState
  | .beginCondition => if s.waiting then none else some { s with waiting := true }
  | .compare => some ⟨s.depth + 1, false⟩
  | .endIf | .endWhile => if s.depth = 0 then none else some { s with depth := s.depth - 1 }
  | _ => some s

def after? (s : ControlState) (kinds : List CommandKind) : Option ControlState :=
  kinds.foldlM next? s

variable {s s' : ControlState} {kind : CommandKind} {kinds : List CommandKind}

@[simp] theorem after?_nil (s : ControlState) : s.after? [] = some s := rfl

@[simp] theorem after?_cons (s : ControlState) (kind : CommandKind) (kinds : List CommandKind) :
    s.after? (kind :: kinds) = (s.next? kind).bind fun s' => s'.after? kinds := by
  unfold after?
  rw [List.foldlM_cons]
  rfl

@[simp] theorem after?_append (s : ControlState) (a b : List CommandKind) :
    s.after? (a ++ b) = (s.after? a).bind fun s' => s'.after? b := by
  unfold after?
  rw [List.foldlM_append]
  rfl

theorem depth_next? (h : s.next? kind = some s') :
    s'.depth + [kind].countP CommandKind.closesControl = s.depth + [kind].count .compare := by
  cases kind with
  | beginCondition =>
    rw [next?] at h
    split at h
    · cases h
    · cases h
      rfl
  | endIf | endWhile =>
    rw [next?] at h
    split at h
    · cases h
    · cases h
      simp [CommandKind.closesControl]
      omega
  | _ =>
    cases h
    rfl

/-- The depth is the difference between comparisons and ends. -/
theorem depth_after? (h : s.after? kinds = some s') :
    s'.depth + kinds.countP CommandKind.closesControl = s.depth + kinds.count .compare := by
  induction kinds generalizing s with
  | nil =>
    cases h
    rfl
  | cons kind rest ih =>
    rw [after?_cons] at h
    obtain ⟨s₁, h₁, hrest⟩ := Option.bind_eq_some_iff.mp h
    have hone := depth_next? h₁
    have hrest := ih hrest
    rw [← List.singleton_append, List.countP_append, List.count_append]
    omega

theorem exists_compare (hwaiting : s.waiting = true) (h : s.after? kinds = some s')
    (hdone : s'.waiting = false) :
    ∃ between behind, kinds = between ++ .compare :: behind ∧ .beginCondition ∉ between := by
  induction kinds generalizing s with
  | nil =>
    cases h
    rw [hwaiting] at hdone
    cases hdone
  | cons kind rest ih =>
    rw [after?_cons] at h
    obtain ⟨s₁, h₁, hrest⟩ := Option.bind_eq_some_iff.mp h
    by_cases hcompare : kind = .compare
    · exact ⟨[], rest, by rw [hcompare]; rfl, by simp⟩
    · have hnext : kind ≠ .beginCondition ∧ s₁.waiting = true := by
        cases kind with
        | beginCondition =>
          rw [next?, if_pos hwaiting] at h₁
          cases h₁
        | compare => exact absurd rfl hcompare
        | endIf | endWhile =>
          rw [next?] at h₁
          split at h₁
          · cases h₁
          · cases h₁
            exact ⟨nofun, hwaiting⟩
        | _ =>
          cases h₁
          exact ⟨nofun, hwaiting⟩
      obtain ⟨between, behind, rfl, hbetween⟩ := ih hnext.2 hrest
      refine ⟨kind :: between, behind, rfl, ?_⟩
      simp [hbetween, Ne.symm hnext.1]

/-- A body that is counted down to the start is balanced. -/
theorem balanced (h : start.after? kinds = some start) : Balanced kinds where
  closed_le := by
    rintro front ⟨rest, rfl⟩
    rw [after?_append] at h
    obtain ⟨s, hs, -⟩ := Option.bind_eq_some_iff.mp h
    have hdepth := depth_after? hs
    simp only [start] at hdepth
    omega
  closed_eq := by
    have hdepth := depth_after? h
    omega
  compared := by
    rintro front rest rfl
    rw [after?_append] at h
    obtain ⟨s, -, hrest⟩ := Option.bind_eq_some_iff.mp h
    rw [after?_cons] at hrest
    obtain ⟨s₁, hs₁, hrest⟩ := Option.bind_eq_some_iff.mp hrest
    refine exists_compare ?_ hrest rfl
    rw [next?] at hs₁
    split at hs₁
    · cases hs₁
    · cases hs₁
      rfl

end ControlState

/-! ## The counts of the emitter -/

/-- The counts of the entry point, and of the function that is open. -/
structure Controls where
  entry : ControlState
  inner : Option ControlState
  deriving DecidableEq, Repr

namespace Controls

/-- The counts behind a notification. Functions are opened from the entry point and closed when they
are balanced, and returns occur in functions only. -/
def next? (s : Controls) (kind : CommandKind) : Option Controls :=
  match s.inner with
  | none =>
    match kind with
    | .declareFunction => some { s with inner := some .start }
    | .endFunction | .ret => none
    | _ => (s.entry.next? kind).map fun entry => { s with entry }
  | some i =>
    match kind with
    | .declareFunction => none
    | .endFunction => if i = .start then some { s with inner := none } else none
    | _ => (i.next? kind).map fun i' => { s with inner := some i' }

def after? (s : Controls) (kinds : List CommandKind) : Option Controls :=
  kinds.foldlM next? s

theorem next?_declareFunction (s : ControlState) :
    next? ⟨s, none⟩ .declareFunction = some ⟨s, some .start⟩ := rfl

theorem next?_endFunction (s i : ControlState) :
    next? ⟨s, some i⟩ .endFunction = if i = .start then some ⟨s, none⟩ else none := rfl

@[simp] theorem after?_nil (s : Controls) : s.after? [] = some s := rfl

@[simp] theorem after?_cons (s : Controls) (kind : CommandKind) (kinds : List CommandKind) :
    s.after? (kind :: kinds) = (s.next? kind).bind fun s' => s'.after? kinds := by
  unfold after?
  rw [List.foldlM_cons]
  rfl

@[simp] theorem after?_append (s : Controls) (a b : List CommandKind) :
    s.after? (a ++ b) = (s.after? a).bind fun s' => s'.after? b := by
  unfold after?
  rw [List.foldlM_append]
  rfl

theorem inner_of_next? {s s' : Controls} {kind : CommandKind} (h : s.next? kind = some s') :
    (kind = .declareFunction → s.inner = none ∧ s'.inner.isSome = true) ∧
    (kind = .endFunction → s.inner.isSome = true ∧ s'.inner = none) ∧
    (kind = .ret → s.inner.isSome = true) ∧
    (kind ∉ [.declareFunction, .endFunction] → s'.inner.isSome = s.inner.isSome) := by
  obtain ⟨entry, inner⟩ := s
  unfold next? at h
  cases inner with
  | none =>
    dsimp only at h
    split at h
    · cases h
      simp
    · cases h
    · cases h
    · next hdeclare hend hret =>
      obtain ⟨entry', -, rfl⟩ := Option.map_eq_some_iff.mp h
      exact ⟨fun heq => absurd heq hdeclare, fun heq => absurd heq hend,
        fun heq => absurd heq hret, fun _ => rfl⟩
  | some i =>
    dsimp only at h
    split at h
    · cases h
    · split at h
      · cases h
        simp
      · cases h
    · next hdeclare hend =>
      obtain ⟨i', -, rfl⟩ := Option.map_eq_some_iff.mp h
      exact ⟨fun heq => absurd heq hdeclare, fun heq => absurd heq hend, fun _ => rfl,
        fun _ => rfl⟩

theorem next?_eq_self (s : Controls) {kind : CommandKind}
    (h : kind ∉ [.beginCondition, .compare, .endIf, .endWhile, .ret, .declareFunction,
      .endFunction]) : s.next? kind = some s := by
  obtain ⟨entry, inner⟩ := s
  cases inner <;> cases kind <;> first | rfl | simp at h

end Controls

def FunctionContext.control (c : FunctionContext) : ControlState :=
  ⟨c.pending.length, c.openCompare.isSome⟩

namespace Emitter

variable {e e' : Emitter} {kind : CommandKind} {kinds : List CommandKind}

def controls (e : Emitter) : Controls :=
  ⟨e.entry.control, e.function.map fun f => f.context.control⟩

theorem isSome_inner_controls (e : Emitter) : e.controls.inner.isSome = e.inFunction := by
  rw [controls, Option.isSome_map, inFunction]

theorem next?_controls {c : FunctionContext} {o : Assembly Line} {n : Nat}
    (hkind : kind ∉ [.declareFunction, .endFunction])
    (hret : kind = .ret → e.function.isSome = true)
    (h : e.active.control.next? kind = some c.control) : e.controls.next? kind =
      some ({ modifyActive (fun _ => c) e with output := o, labels := n } : Emitter).controls := by
  simp only [List.mem_cons, List.not_mem_nil, or_false, not_or] at hkind
  unfold controls modifyActive
  cases hf : e.function with
  | none =>
    rw [Emitter.active, hf] at h
    rw [hf] at hret
    dsimp only [Option.map_none] at h ⊢
    unfold Controls.next?
    split <;> simp_all
  | some f =>
    rw [Emitter.active, hf] at h
    dsimp only [Option.map_some] at h ⊢
    unfold Controls.next?
    split <;> simp_all

theorem Turns.next?_controls {pending : List Nat} {openCompare : Option Nat} {n : Nat}
    {code : List Line} (h : Turns e e' pending openCompare n code)
    (hkind : kind ∉ [.declareFunction, .endFunction])
    (hret : kind = .ret → e.function.isSome = true)
    (hnext : e.active.control.next? kind = some ⟨pending.length, openCompare.isSome⟩) :
    e.controls.next? kind = some e'.controls := by
  obtain ⟨c, o, rfl, rfl, rfl⟩ := h.frame
  exact Emitter.next?_controls hkind hret hnext

theorem Straight.controls_eq (h : Straight e e') : e'.controls = e.controls := by
  obtain ⟨c, o, rfl, hpending, hopen⟩ := h.frame
  have hcontrol : c.control = e.active.control := by
    rw [FunctionContext.control, hpending, hopen]
    rfl
  unfold controls modifyActive
  cases hf : e.function with
  | none => simp [hcontrol, Emitter.active, hf]
  | some f => simp [hcontrol, Emitter.active, hf]

/-- A comparison is counted whether its condition has been opened before or not. -/
theorem controls_compare {left right : Operand} {op : Comparison}
    (h : compare left op right e = .ok () e') :
    e.controls.next? .compare = some e'.controls := by
  obtain ⟨e₁, id, n, code, he₁, hid, -, hturns⟩ := turns_compare left op right e () e' h
  have hpending : e₁.active.pending = e.active.pending := by
    rcases he₁ with rfl | hopen
    · rfl
    · exact (turns_openCondition e () e₁ hopen).2.pending_eq
  obtain ⟨code', hall⟩ : ∃ code', Turns e e' (id :: e₁.active.pending) none e₁.labels code' := by
    rcases he₁ with rfl | hopen
    · exact ⟨_, hturns⟩
    · exact ⟨_, (turns_openCondition e () e₁ hopen).2.trans hturns⟩
  apply hall.next?_controls (by simp) (by simp)
  simp [ControlState.next?, FunctionContext.control, hpending]

theorem controls_endControl {control : ControlKind} (h : endControl control e = .ok () e')
    (hnext : ∀ s : ControlState, s.next? kind =
      if s.depth = 0 then none else some { s with depth := s.depth - 1 })
    (hkind : kind ∉ [.declareFunction, .endFunction, .ret]) :
    e.controls.next? kind = some e'.controls := by
  simp only [List.mem_cons, List.not_mem_nil, or_false, not_or] at hkind
  obtain ⟨id, pending, hpending, hturns⟩ := turns_endControl control e () e' h
  apply hturns.next?_controls (by simp [hkind.1, hkind.2.1]) fun hret => absurd hret hkind.2.2
  rw [hnext]
  simp [FunctionContext.control, hpending]

/-- The emitter counts the notifications that are compiled. -/
theorem Performs.next?_controls (hkind : kind ≠ .endProgram) (h : Performs kind e e') :
    e.controls.next? kind = some e'.controls := by
  by_cases hstraight : kind.isStraight = true
  · rw [performs_straight hstraight] at h
    rw [h.controls_eq]
    apply Controls.next?_eq_self
    cases kind <;> simp [CommandKind.isStraight] at hstraight ⊢
  · cases kind with
    | beginCondition =>
      obtain ⟨hopen, hturns⟩ := turns_openCondition e _ _ h
      apply hturns.next?_controls (by simp) (by simp)
      simp [ControlState.next?, FunctionContext.control, hopen]
    | compare =>
      obtain ⟨left, op, right, h⟩ := h
      exact controls_compare h
    | endIf => exact controls_endControl h (fun _ => rfl) (by simp)
    | endWhile => exact controls_endControl h (fun _ => rfl) (by simp)
    | ret =>
      obtain ⟨op, h⟩ := h
      obtain ⟨hsome, code, type, v, -, hturns⟩ := turns_ret op e _ _ h
      exact hturns.next?_controls (by simp) (fun _ => hsome) rfl
    | declareFunction =>
      obtain ⟨name, sig, params, locals, -, h⟩ := h
      obtain ⟨hnone, c, o, rfl, hpending, hopen, -⟩ := ensures_openFunction name sig params e _ _ h
      simp [controls, hnone, Controls.next?, FunctionContext.control, hpending, hopen,
        ControlState.start]
    | endFunction =>
      obtain ⟨f, o, hf, hpending, hopen, rfl, -⟩ := ensures_endFunction e _ _ h
      simp [controls, hf, Controls.next?, FunctionContext.control, hpending, hopen,
        ControlState.start]
    | beginClass | endClass =>
      rw [show e = e' from h]
      exact Controls.next?_eq_self _ (by simp)
    | declareInstance | unknown n => exact h.elim
    | endProgram => exact absurd rfl hkind
    | _ => simp [CommandKind.isStraight] at hstraight

theorem Run.after?_controls (h : Run kinds e e') : e.controls.after? kinds = some e'.controls := by
  induction h with
  | nil => rfl
  | cons hkind hp _ ih =>
    rw [Controls.after?_cons, hp.next?_controls hkind]
    exact ih

end Emitter

/-! ## Bodies that are closed -/

theorem Controls.after?_inside {s i : ControlState} {body : List Command}
    (h : ∀ cmd ∈ body, cmd.kind.isBodyLevel = true) :
    Controls.after? ⟨s, some i⟩ (body.map Command.kind) =
      (i.after? (body.map Command.kind)).map fun i' => ⟨s, some i'⟩ := by
  induction body generalizing i with
  | nil => rfl
  | cons cmd rest ih =>
    have hlevel := h cmd (by simp)
    have hnext : Controls.next? ⟨s, some i⟩ cmd.kind =
        (i.next? cmd.kind).map fun i' => ⟨s, some i'⟩ := by
      cases hkind : cmd.kind <;> first | rfl | (rw [hkind] at hlevel; cases hlevel)
    rw [List.map_cons, Controls.after?_cons, ControlState.after?_cons, hnext]
    cases i.next? cmd.kind with
    | none => rfl
    | some i' => exact ih fun cmd' hcmd' => h cmd' (List.mem_cons_of_mem _ hcmd')

/-- A function or method that is closed is balanced, and the entry point waits. -/
theorem Routine.balanced (r : Routine) {s : ControlState} {t : Controls}
    (h : Controls.after? ⟨s, none⟩ (r.commands.map Command.kind) = some t) :
    t = ⟨s, none⟩ ∧ Balanced (r.body.map Command.kind) := by
  rw [commands, OpenRoutine.commands, List.map_append, List.map_cons, List.cons_append,
    Controls.after?_cons, r.declares, Controls.next?_declareFunction, Option.bind_some,
    Controls.after?_append,
    Controls.after?_inside r.inside, List.map_cons, List.map_nil, r.ends] at h
  obtain ⟨_, hbody, hend⟩ := Option.bind_eq_some_iff.mp h
  obtain ⟨i, hi, rfl⟩ := Option.map_eq_some_iff.mp hbody
  rw [Controls.after?_cons, Controls.next?_endFunction] at hend
  split at hend
  · next hstart =>
    rw [hstart] at hi
    exact ⟨(Option.some.inj hend).symm, ControlState.balanced hi⟩
  · cases hend

theorem Member.balanced (m : Member) {s : ControlState} {t : Controls}
    (h : Controls.after? ⟨s, none⟩ (m.commands.map Command.kind) = some t) :
    t = ⟨s, none⟩ ∧ ∀ r, m = .method r → Balanced (r.body.map Command.kind) := by
  cases m with
  | single cmd hlevel =>
    have hnext : Controls.next? ⟨s, none⟩ cmd.kind = some ⟨s, none⟩ := by
      cases hkind : cmd.kind <;> first | rfl | (rw [hkind] at hlevel; cases hlevel)
    rw [commands, List.map_cons, List.map_nil, Controls.after?_cons, hnext] at h
    exact ⟨(Option.some.inj h).symm, by simp⟩
  | method r =>
    obtain ⟨ht, hbalanced⟩ := r.balanced h
    refine ⟨ht, ?_⟩
    rintro _ ⟨⟩
    exact hbalanced

/-- The methods of a class whose body is run are balanced, and the entry point waits. -/
theorem Member.balanced_of_mem {members : List Member} {s : ControlState} {t : Controls}
    (h : Controls.after? ⟨s, none⟩ ((members.flatMap Member.commands).map Command.kind) = some t) :
    t = ⟨s, none⟩ ∧ ∀ r, .method r ∈ members → Balanced (r.body.map Command.kind) := by
  induction members with
  | nil => exact ⟨(Option.some.inj h).symm, by simp⟩
  | cons m rest ih =>
    rw [List.flatMap_cons, List.map_append, Controls.after?_append] at h
    obtain ⟨t₁, hm, hrest⟩ := Option.bind_eq_some_iff.mp h
    obtain ⟨rfl, hone⟩ := m.balanced hm
    obtain ⟨ht, hall⟩ := ih hrest
    refine ⟨ht, ?_⟩
    intro r hr
    rcases List.mem_cons.mp hr with heq | hmem
    · exact hone r heq.symm
    · exact hall r hmem

end MkCompiler
