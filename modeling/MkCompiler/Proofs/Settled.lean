import MkCompiler.Proofs.Constructs
import MkCompiler.Proofs.Emission

/-!
# What recording settles

Some mistakes of a class are found while its body is recorded: a missing return, a field that is
declared twice, definitions and arrays in the wrong place, returns and ends outside of a body. The
operations that compile a construct do not report such a mistake, apart from those that open, close
and leave a body and those that declare fields and arrays.
-/

namespace MkCompiler

open MkCompiler.Action

namespace Action

variable {σ τ α β : Type}

/-- The run from `s` does not fail for a mistake that recording finds. -/
abbrev SparesAt (x : Action σ α) (s : σ) : Prop :=
  Ends x s (fun _ _ => True) fun f _ => f.isSettled = false

def Spares (x : Action σ α) : Prop :=
  ∀ s, SparesAt x s

theorem SparesAt.bind {x : Action σ α} {f : α → Action σ β} {s : σ} {Q : α → σ → Prop}
    (hx : SparesAt x s) (hq : Ensures x s Q) (hf : ∀ a s', Q a s' → SparesAt (f a) s') :
    SparesAt (x >>= f) s := by
  rw [SparesAt, ends_bind]
  apply (hx.ensures hq).mono
  · intro a s' h
    exact hf a s' h.2
  · intro _ _ h
    exact h

theorem SparesAt.bind_spares {x : Action σ α} {f : α → Action σ β} {s : σ} (hx : SparesAt x s)
    (hf : ∀ a, Spares (f a)) : SparesAt (x >>= f) s :=
  hx.bind (Q := fun _ _ => True) (fun _ _ _ => trivial) fun a s' _ => hf a s'

theorem SparesAt.ends {x : Action σ α} {s : σ} {Q : α → σ → Prop} (h : SparesAt x s)
    (hq : Ensures x s Q) : Ends x s Q fun f _ => f.isSettled = false :=
  (Ends.ensures h hq).mono (fun _ _ h => h.2) fun _ _ h => h

theorem Spares.pure (a : α) : Spares (Pure.pure a : Action σ α) :=
  fun _ => trivial

theorem Spares.get : Spares (MonadState.get : Action σ σ) :=
  fun _ => trivial

theorem Spares.update (g : σ → σ) : Spares (modify g : Action σ PUnit) :=
  fun _ => trivial

theorem Spares.replace (s : σ) : Spares (set s : Action σ PUnit) :=
  fun _ => trivial

theorem Spares.throw {f : Failure} (h : f.isSettled = false) :
    Spares (MonadExcept.throw f : Action σ α) :=
  fun _ => h

theorem Spares.reject {v : Violation} (h : v.isSettled = false) :
    Spares (Action.reject v : Action σ α) :=
  fun _ => h

theorem Spares.bind {x : Action σ α} {f : α → Action σ β} (hx : Spares x)
    (hf : ∀ a, Spares (f a)) : Spares (x >>= f) :=
  fun s => (hx s).bind_spares hf

theorem composes_spares : Composes fun {_} (x : Action σ _) => Spares x :=
  ⟨⟨.pure, .throw, .bind⟩, .get⟩

theorem Spares.require (p : Prop) [Decidable p] {v : Violation} (h : v.isSettled = false) :
    Spares (Action.require p v : Action σ Unit) :=
  composes_spares.require p h

theorem Spares.ite {p : Prop} [Decidable p] {x y : Action σ α} (hx : Spares x) (hy : Spares y) :
    Spares (if p then x else y) :=
  composes_spares.ite (fun _ => hx) fun _ => hy

theorem sparesAt_zoom {get : σ → τ} {set : τ → σ → σ} {x : Action τ α} {s : σ}
    (hx : SparesAt x (get s)) : SparesAt (zoom get set x) s :=
  ends_zoom.mpr hx

theorem Spares.zoom {get : σ → τ} {set : τ → σ → σ} {x : Action τ α} (hx : Spares x) :
    Spares (zoom get set x) :=
  fun s => sparesAt_zoom (hx (get s))

end Action

namespace Emitter

variable {α : Type}

theorem spares_onOutput_insert (m : Mark) (lines : List Line) :
    Spares (onOutput (Assembly.insert m lines)) :=
  .zoom (Spares.get.bind fun _ => .ite (.throw rfl) (.ite (.throw rfl)
    (.ite ((Spares.replace _).bind fun _ => .throw rfl)
      ((Spares.replace _).bind fun _ => .pure _))))

theorem spares_onOutput_hold : Spares (onOutput Assembly.hold) := by
  apply Spares.zoom
  apply Spares.get.bind
  intro a
  cases a.routing with
  | direct target => exact .replace _
  | held resume buffer => exact .throw rfl

theorem spares_onOutput_release : Spares (onOutput Assembly.release) := by
  apply Spares.zoom
  apply Spares.get.bind
  intro a
  cases a.routing with
  | direct target => exact .throw rfl
  | held resume buffer => exact (Spares.replace _).bind fun _ => .pure _

theorem spares_fresh : Spares fresh :=
  (Spares.update _).bind fun _ => Spares.get.bind fun _ => (Spares.update _).bind fun _ => .pure _

theorem spares_emit (i : Instr) : Spares (emit i) :=
  (Spares.update _).bind fun _ => .update _

theorem spares_terminate (i : Instr) : Spares (terminate i) :=
  (spares_emit i).bind fun _ => .update _

theorem spares_placeLabel (l : Label) : Spares (placeLabel l) :=
  (Spares.update _).bind fun _ => .update _

theorem spares_hoist (name : LocalName) (type : DataType) : Spares (hoist name type) :=
  Spares.get.bind fun _ => (spares_onOutput_insert _ _).bind fun _ => .update _

theorem branches_spares : Branches fun {_} x => Spares x where
  toComputes := .of_parts composes_spares spares_fresh fun i _ _ => spares_emit i
  cell _ _ _ := .update _
  array _ _ _ := .update _
  hoist _ _ _ := spares_hoist _ _
  results _ := .update _
  terminate := spares_terminate
  placeLabel := spares_placeLabel
  context _ _ := .update _
  openCondition := Spares.get.bind fun _ => .ite (.throw rfl) ((Spares.replace _).bind fun _ =>
    (spares_terminate _).bind fun _ => (spares_placeLabel _).bind fun _ => .update _)

theorem sparesAt_ret (op : Operand) {e : Emitter} {f : OpenFunction} (h : e.function = some f) :
    SparesAt (ret op) e := by
  have hcapture {α : Type} {x : Action Emitter α} (hx : Spares x) : Spares (capture x) := by
    rw [capture_eq]
    apply spares_onOutput_hold.bind
    intro _
    apply Spares.bind
    · intro e
      apply ends_releasing (hx e)
      · intro v e' hv
        exact Spares.bind spares_onOutput_release (fun _ => Spares.reject hv) e'
      · intro _ _ hf _
        exact hf
    · intro a
      exact spares_onOutput_release.bind fun _ => .pure _
  rw [ret, SparesAt, ends_bind, ends_get, h]
  refine Spares.bind (hcapture ?_) (fun _ => (Spares.update _).bind fun _ => .update _) e
  exact (branches_spares.materialize _).bind fun _ => (branches_spares.cast _ _).bind fun _ =>
    branches_spares.load _

theorem sparesAt_endFunction {e : Emitter} {f : OpenFunction} (h : e.function = some f) :
    SparesAt endFunction e := by
  have hclose : Spares (do
      modify (appendLines [.close])
      modify fun e => { e with function := none, output := e.output.select .entryBody } :
        Action Emitter Unit) :=
    (Spares.update _).bind fun _ => .update _
  rw [endFunction, SparesAt, ends_bind, ends_get, h]
  exact (Spares.require _ rfl).bind (fun _ => .ite ((spares_emit _).bind fun _ => hclose) hclose) e

end Emitter

namespace SymbolTable

theorem spares_rebind (b : Binding) : Spares (rebind b) := by
  apply Spares.get.bind
  intro t
  cases b with
  | slot l =>
    dsimp only
    cases t.locals with
    | none => exact .throw rfl
    | some locals => exact .replace _
  | global g =>
    apply Spares.ite (.replace _)
    cases t.instances.find? g.inst with
    | none => exact .throw rfl
    | some inst => exact .replace _

theorem spares_declareInstance (name className : String) :
    Spares (declareInstance name className) :=
  (composes_spares.lookupClass _).bind fun _ => (Spares.require _ rfl).bind fun _ =>
    (Spares.require _ rfl).bind fun _ => (composes_spares.checkProgramName _).bind fun _ =>
      (Spares.update _).bind fun _ => .pure _

end SymbolTable

namespace Compilation

variable {α : Type} {c : Compilation}

theorem spares_onEmitter {x : Action Emitter α} (hx : Spares x) : Spares (onEmitter x) :=
  .zoom hx

theorem spares_onTable {x : Action SymbolTable α} (hx : Spares x) : Spares (onTable x) :=
  .zoom hx

theorem works_spares : Works (fun {_} x => Spares x) fun {_} x => Spares x := by
  refine .of_composes composes_spares (fun _ => .update _) ?_ ?_ spares_onEmitter
  · apply Spares.get.bind
    intro c
    cases c.stack with
    | nil => exact .throw rfl
    | cons op stack => exact (Spares.replace _).bind fun _ => .pure _
  · exact fun _ => Spares.get.bind fun _ => .ite (.throw rfl) (.ite ((Spares.replace _).bind fun _ =>
      .pure _) (.ite (.throw rfl) ((Spares.replace _).bind fun _ => .throw rfl)))

/-- Most constructs do not report a mistake that recording finds, wherever they stand. -/
theorem spares_construct {cmd : Command} (h : cmd.kind ∉ [.declareVariable, .declareArray, .ret,
    .declareFunction, .endFunction, .beginClass, .endClass, .endProgram]) :
    Spares (construct cmd) := by
  by_cases hexpression : cmd.kind ∈ [.int, .real, .name, .element, .member, .arith, .call,
    .callMethod, .print]
  · exact works_spares.expression Emitter.branches_spares.callMethod
      Emitter.branches_spares.toComputes hexpression
  by_cases hassignment : cmd.kind ∈ [.assign, .assignElement, .assignMember, .scan]
  · exact works_spares.assignment (fun _ => spares_onTable (SymbolTable.spares_rebind _))
      Emitter.branches_spares.toDeclares hassignment
  by_cases hcontrol : cmd.kind ∈ [.beginCondition, .compare, .endIf, .endWhile]
  · exact works_spares.control Emitter.branches_spares hcontrol
  unfold construct
  cases hkind : cmd.kind with
  | declareInstance => exact .throw rfl
  | unknown n => exact .throw rfl
  | _ => simp_all

end Compilation

end MkCompiler
