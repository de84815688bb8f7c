import Mathlib.Order.Defs.Unbundled
import MkCompiler.Failure

/-!
# Runs of actions

Two judgements on the run of an operation from a state. `Ensures` is about runs that end well and
says nothing of a run that fails; `Yields` says in addition that the run ends well. Both compute
along the structure of an operation, so that a proof follows its text. `Moves` collects operations
whose good runs relate the state before to the state behind, for a preorder on states.
-/

namespace MkCompiler
namespace Action

variable {ε σ τ α β : Type}

/-- If the run from `s` ends well, then with a result and a state as described. -/
def Ensures (x : EStateM ε σ α) (s : σ) (Q : α → σ → Prop) : Prop :=
  ∀ a s', x s = .ok a s' → Q a s'

/-- The run from `s` ends well, with a result and a state as described. -/
def Yields (x : EStateM ε σ α) (s : σ) (Q : α → σ → Prop) : Prop :=
  ∃ a s', x s = .ok a s' ∧ Q a s'

theorem bind_eq_ok {x : EStateM ε σ α} {f : α → EStateM ε σ β} {s s'' : σ} {b : β} :
    (x >>= f) s = .ok b s'' ↔ ∃ a s', x s = .ok a s' ∧ f a s' = .ok b s'' := by
  change EStateM.bind x f s = _ ↔ _
  unfold EStateM.bind
  cases x s with
  | ok a s' => exact ⟨fun h => ⟨a, s', rfl, h⟩, fun ⟨_, _, hx, hf⟩ => by cases hx; exact hf⟩
  | error e s' => simp

theorem zoom_eq_ok {get : σ → τ} {set : τ → σ → σ} {x : Action τ α} {s : σ} {t : τ} {a : α}
    (h : x (get s) = .ok a t) : zoom get set x s = .ok a (set t s) := by
  rw [zoom, h]

section Ensures

variable {x : EStateM ε σ α} {f : α → EStateM ε σ β} {s : σ} {P Q : α → σ → Prop}

theorem ensures_of_eq {a : α} {s' : σ} (h : x s = .ok a s') : Ensures x s Q ↔ Q a s' := by
  constructor
  · intro hq
    exact hq a s' h
  · intro hq b t hx
    rw [h] at hx
    cases hx
    exact hq

theorem Ensures.mono (h : Ensures x s P) (hpq : ∀ a s', P a s' → Q a s') : Ensures x s Q :=
  fun a s' hx => hpq a s' (h a s' hx)

@[simp] theorem ensures_bind {Q : β → σ → Prop} :
    Ensures (x >>= f) s Q ↔ Ensures x s fun a s' => Ensures (f a) s' Q := by
  constructor
  · intro h a s' hx b s'' hf
    exact h b s'' (bind_eq_ok.mpr ⟨a, s', hx, hf⟩)
  · intro h b s'' hb
    obtain ⟨a, s', hx, hf⟩ := bind_eq_ok.mp hb
    exact h a s' hx b s'' hf

@[simp] theorem ensures_pure {a : α} : Ensures (pure a : EStateM ε σ α) s Q ↔ Q a s :=
  ensures_of_eq rfl

@[simp] theorem ensures_map {g : α → β} {Q : β → σ → Prop} :
    Ensures (g <$> x) s Q ↔ Ensures x s fun a s' => Q (g a) s' := by
  rw [← bind_pure_comp, ensures_bind]
  simp only [ensures_pure]

@[simp] theorem ensures_get {Q : σ → σ → Prop} :
    Ensures (get : EStateM ε σ σ) s Q ↔ Q s s :=
  ensures_of_eq rfl

@[simp] theorem ensures_set {t : σ} {Q : PUnit → σ → Prop} :
    Ensures (set t : EStateM ε σ PUnit) s Q ↔ Q ⟨⟩ t :=
  ensures_of_eq rfl

@[simp] theorem ensures_modify {g : σ → σ} {Q : PUnit → σ → Prop} :
    Ensures (modify g : EStateM ε σ PUnit) s Q ↔ Q ⟨⟩ (g s) :=
  ensures_of_eq rfl

@[simp] theorem ensures_throw {e : ε} : Ensures (throw e : EStateM ε σ α) s Q ↔ True := by
  constructor
  · intro _
    trivial
  · rintro _ _ _ ⟨⟩

@[simp] theorem ensures_reject {v : Violation} :
    Ensures (reject v : Action σ α) s Q ↔ True :=
  ensures_throw

@[simp] theorem ensures_ite {p : Prop} [Decidable p] {y : EStateM ε σ α} :
    Ensures (if p then x else y) s Q ↔ (p → Ensures x s Q) ∧ (¬p → Ensures y s Q) := by
  by_cases h : p <;> simp [h]

@[simp] theorem ensures_require {p : Prop} [Decidable p] {v : Violation} {Q : Unit → σ → Prop} :
    Ensures (require p v : Action σ Unit) s Q ↔ (p → Q () s) := by
  simp [require]

@[simp] theorem ensures_zoom {get : σ → τ} {set : τ → σ → σ} {x : Action τ α} :
    Ensures (zoom get set x) s Q ↔ Ensures x (get s) fun a t => Q a (set t s) := by
  unfold Ensures zoom
  constructor
  · intro h a t hx
    exact h a (set t s) (by simp [hx])
  · intro h a s' hx
    cases ht : x (get s) with
    | ok b t =>
      simp only [ht, EStateM.Result.ok.injEq] at hx
      obtain ⟨rfl, rfl⟩ := hx
      exact h b t ht
    | error e t => simp [ht] at hx

end Ensures

section Yields

variable {x : EStateM ε σ α} {f : α → EStateM ε σ β} {s : σ} {P Q : α → σ → Prop}

theorem yields_of_eq {a : α} {s' : σ} (h : x s = .ok a s') : Yields x s Q ↔ Q a s' := by
  constructor
  · rintro ⟨b, t, hx, hq⟩
    rw [h] at hx
    cases hx
    exact hq
  · intro hq
    exact ⟨a, s', h, hq⟩

theorem Yields.mono (h : Yields x s P) (hpq : ∀ a s', P a s' → Q a s') : Yields x s Q := by
  obtain ⟨a, s', hx, hp⟩ := h
  exact ⟨a, s', hx, hpq a s' hp⟩

@[simp] theorem yields_bind {Q : β → σ → Prop} :
    Yields (x >>= f) s Q ↔ Yields x s fun a s' => Yields (f a) s' Q := by
  constructor
  · rintro ⟨b, s'', hb, hq⟩
    obtain ⟨a, s', hx, hf⟩ := bind_eq_ok.mp hb
    exact ⟨a, s', hx, b, s'', hf, hq⟩
  · rintro ⟨a, s', hx, b, s'', hf, hq⟩
    exact ⟨b, s'', bind_eq_ok.mpr ⟨a, s', hx, hf⟩, hq⟩

@[simp] theorem yields_pure {a : α} : Yields (pure a : EStateM ε σ α) s Q ↔ Q a s :=
  yields_of_eq rfl

@[simp] theorem yields_get {Q : σ → σ → Prop} : Yields (get : EStateM ε σ σ) s Q ↔ Q s s :=
  yields_of_eq rfl

@[simp] theorem yields_modify {g : σ → σ} {Q : PUnit → σ → Prop} :
    Yields (modify g : EStateM ε σ PUnit) s Q ↔ Q ⟨⟩ (g s) :=
  yields_of_eq rfl

@[simp] theorem yields_require {p : Prop} [Decidable p] {v : Violation} {Q : Unit → σ → Prop} :
    Yields (require p v : Action σ Unit) s Q ↔ p ∧ Q () s := by
  unfold require
  by_cases h : p
  · simp [h]
  · simp only [h, if_false, false_and, iff_false]
    rintro ⟨_, _, ⟨⟩, _⟩

@[simp] theorem yields_zoom {get : σ → τ} {set : τ → σ → σ} {x : Action τ α} :
    Yields (zoom get set x) s Q ↔ Yields x (get s) fun a t => Q a (set t s) := by
  unfold Yields zoom
  constructor
  · rintro ⟨a, s', hx, hq⟩
    cases ht : x (get s) with
    | ok b t =>
      simp only [ht, EStateM.Result.ok.injEq] at hx
      obtain ⟨rfl, rfl⟩ := hx
      exact ⟨b, t, rfl, hq⟩
    | error e t => simp [ht] at hx
  · rintro ⟨a, t, hx, hq⟩
    exact ⟨a, set t s, by simp [hx], hq⟩

end Yields

/-- Every run of `x` that ends well relates the state before it to the state behind it. -/
def Moves (R : σ → σ → Prop) (x : EStateM ε σ α) : Prop :=
  ∀ s, Ensures x s fun _ s' => R s s'

section Moves

variable {R : σ → σ → Prop}

theorem Moves.throw (e : ε) : Moves R (MonadExcept.throw e : EStateM ε σ α) :=
  fun _ => ensures_throw.mpr trivial

theorem Moves.reject (v : Violation) : Moves R (Action.reject v : Action σ α) :=
  Moves.throw _

theorem Moves.ite {p : Prop} [Decidable p] {x y : EStateM ε σ α} (hx : p → Moves R x)
    (hy : ¬p → Moves R y) : Moves R (if p then x else y) :=
  fun s => ensures_ite.mpr ⟨fun h => hx h s, fun h => hy h s⟩

variable [IsPreorder σ R]

theorem Moves.pure (a : α) : Moves R (Pure.pure a : EStateM ε σ α) :=
  fun s => ensures_pure.mpr (refl_of R s)

theorem Moves.get : Moves R (MonadState.get : EStateM ε σ σ) :=
  fun s => ensures_get.mpr (refl_of R s)

theorem Moves.require (p : Prop) [Decidable p] (v : Violation) :
    Moves R (Action.require p v : Action σ Unit) :=
  fun s => ensures_require.mpr fun _ => refl_of R s

theorem Moves.bind {x : EStateM ε σ α} {f : α → EStateM ε σ β} (hx : Moves R x)
    (hf : ∀ a, Moves R (f a)) : Moves R (x >>= f) := by
  intro s
  refine ensures_bind.mpr ((hx s).mono fun a s' h => ?_)
  exact (hf a s').mono fun _ _ h' => trans_of R h h'

end Moves

end Action
end MkCompiler
