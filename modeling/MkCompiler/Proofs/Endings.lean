import MkCompiler.Proofs.Action

/-!
# Runs that may fail

A caller can go on behind a failure, from the state in which the operation stopped. `Ends` therefore
describes a run whichever way it ends, and computes along the structure of an operation as `Ensures`
does. `Keeps` collects operations that keep a property of the state up and fail in some ways only,
and `Leads` those that relate the state before to the state behind, as `Moves` does for good runs.
-/

namespace MkCompiler

/-- Whether a failure is the caller's to deal with: the program or the stream is wrong. The other
failures stop the compiler itself. -/
def Failure.isReturned : Failure → Bool
  | .rejected _ => true
  | .stream _ => true
  | .internal _ => false
  | .undefined => false

def Failure.isRejection : Failure → Bool
  | .rejected _ => true
  | _ => false

theorem Failure.isReturned_of_isRejection {f : Failure} (h : f.isRejection = true) :
    f.isReturned = true := by
  cases f with
  | rejected v => rfl
  | _ => cases h

/-- Whether a mistake is found while the body of a class is recorded. -/
def Violation.isSettled : Violation → Bool
  | .missingReturn _ | .missingMethodReturn _ _ => true
  | .fieldExists _ _ | .classFieldExists _ _ | .fieldOutsideInstance _ => true
  | .functionInsideFunction _ _ | .definitionInsideFunction _ _ | .methodInsideMethod _ _ => true
  | .arrayInsideFunction _ _ | .arrayInsideMethod _ _ => true
  | .endOutsideFunction | .endOutsideMethod => true
  | .returnOutsideFunction | .returnOutsideMethod _ => true
  | .controlOutsideMethod _ => true
  | _ => false

def Failure.isSettled : Failure → Bool
  | .rejected v => v.isSettled
  | _ => false

namespace Action

variable {ε σ τ α β : Type}

/-- The run from `s` ends well as `Q` describes, or fails as `E` describes. -/
def Ends (x : EStateM ε σ α) (s : σ) (Q : α → σ → Prop) (E : ε → σ → Prop) : Prop :=
  match x s with
  | .ok a s' => Q a s'
  | .error e s' => E e s'

section Ends

variable {x : EStateM ε σ α} {f : α → EStateM ε σ β} {s : σ} {P Q : α → σ → Prop}
  {E F : ε → σ → Prop}

theorem Ends.of_ok {a : α} {s' : σ} (h : Ends x s Q E) (hx : x s = .ok a s') : Q a s' := by
  unfold Ends at h
  rwa [hx] at h

theorem Ends.of_error {e : ε} {s' : σ} (h : Ends x s Q E) (hx : x s = .error e s') : E e s' := by
  unfold Ends at h
  rwa [hx] at h

theorem ends_of_ok {a : α} {s' : σ} (h : x s = .ok a s') : Ends x s Q E ↔ Q a s' := by
  unfold Ends
  rw [h]

theorem ends_of_error {e : ε} {s' : σ} (h : x s = .error e s') : Ends x s Q E ↔ E e s' := by
  unfold Ends
  rw [h]

theorem Ends.mono (h : Ends x s P E) (hok : ∀ a s', P a s' → Q a s')
    (herror : ∀ e s', E e s' → F e s') : Ends x s Q F := by
  unfold Ends at *
  cases hx : x s with
  | ok a s' =>
    rw [hx] at h
    exact hok a s' h
  | error e s' =>
    rw [hx] at h
    exact herror e s' h

theorem Ends.ensures (h : Ends x s P E) (hx : Ensures x s Q) :
    Ends x s (fun a s' => P a s' ∧ Q a s') E := by
  unfold Ends at *
  cases hrun : x s with
  | ok a s' =>
    rw [hrun] at h
    exact ⟨h, hx a s' hrun⟩
  | error e s' =>
    rw [hrun] at h
    exact h

theorem Ends.and (h : Ends x s P E) (h' : Ends x s Q F) :
    Ends x s (fun a s' => P a s' ∧ Q a s') fun e s' => E e s' ∧ F e s' := by
  unfold Ends at *
  cases hx : x s with
  | ok a s' =>
    rw [hx] at h h'
    exact ⟨h, h'⟩
  | error e s' =>
    rw [hx] at h h'
    exact ⟨h, h'⟩

@[simp] theorem ends_bind {Q : β → σ → Prop} :
    Ends (x >>= f) s Q E ↔ Ends x s (fun a s' => Ends (f a) s' Q E) E := by
  change (match EStateM.bind x f s with
    | .ok a s' => Q a s'
    | .error e s' => E e s') ↔ _
  unfold EStateM.bind Ends
  cases x s <;> exact Iff.rfl

@[simp] theorem ends_pure {a : α} : Ends (pure a : EStateM ε σ α) s Q E ↔ Q a s := Iff.rfl

@[simp] theorem ends_get {Q : σ → σ → Prop} :
    Ends (get : EStateM ε σ σ) s Q E ↔ Q s s := Iff.rfl

@[simp] theorem ends_set {t : σ} {Q : PUnit → σ → Prop} :
    Ends (set t : EStateM ε σ PUnit) s Q E ↔ Q ⟨⟩ t := Iff.rfl

@[simp] theorem ends_modify {g : σ → σ} {Q : PUnit → σ → Prop} :
    Ends (modify g : EStateM ε σ PUnit) s Q E ↔ Q ⟨⟩ (g s) := Iff.rfl

@[simp] theorem ends_throw {e : ε} : Ends (throw e : EStateM ε σ α) s Q E ↔ E e s := Iff.rfl

@[simp] theorem ends_ite {p : Prop} [Decidable p] {y : EStateM ε σ α} :
    Ends (if p then x else y) s Q E ↔ (p → Ends x s Q E) ∧ (¬p → Ends y s Q E) := by
  by_cases h : p <;> simp [h]

end Ends

section Action

variable {s : σ} {Q : α → σ → Prop} {E : Failure → σ → Prop}

@[simp] theorem ends_reject {v : Violation} :
    Ends (reject v : Action σ α) s Q E ↔ E (.rejected v) s := Iff.rfl

@[simp] theorem ends_require {p : Prop} [Decidable p] {v : Violation} {Q : Unit → σ → Prop} :
    Ends (require p v : Action σ Unit) s Q E ↔ (p → Q () s) ∧ (¬p → E (.rejected v) s) := by
  simp [require]

@[simp] theorem ends_zoom {get : σ → τ} {set : τ → σ → σ} {x : Action τ α} :
    Ends (zoom get set x) s Q E ↔
      Ends x (get s) (fun a t => Q a (set t s)) fun e t => E e (set t s) := by
  unfold Ends zoom
  cases x (get s) <;> exact Iff.rfl

end Action

/-- From a state with the property `P`, every run ends well with the property, or fails in one of
the ways `F` with the property `P'`. -/
def Keeps (P P' : σ → Prop) (F : ε → Prop) (x : EStateM ε σ α) : Prop :=
  ∀ s, P s → Ends x s (fun _ s' => P s') fun e s' => F e ∧ P' s'

section Keeps

variable {P P' : σ → Prop} {F : ε → Prop} {x : EStateM ε σ α} {f : α → EStateM ε σ β}

theorem Keeps.pure (a : α) : Keeps P P' F (Pure.pure a : EStateM ε σ α) := by
  intro s hs
  exact ends_pure.mpr hs

theorem Keeps.bind (hx : Keeps P P' F x) (hf : ∀ a, Keeps P P' F (f a)) :
    Keeps P P' F (x >>= f) := by
  intro s hs
  rw [ends_bind]
  apply (hx s hs).mono
  · intro a s' hs'
    exact hf a s' hs'
  · intro e s' h
    exact h

/-- A run can be split by what is known of its good ends. -/
theorem Keeps.bind_ensures {Q : α → Prop} (hx : Keeps P P' F x)
    (hq : ∀ s, Ensures x s fun a _ => Q a) (hf : ∀ a, Q a → Keeps P P' F (f a)) :
    Keeps P P' F (x >>= f) := by
  intro s hs
  rw [ends_bind]
  apply ((hx s hs).ensures (hq s)).mono
  · intro a s' h
    exact hf a h.2 s' h.1
  · intro e s' h
    exact h

/-- An operation that succeeds under a condition, and not otherwise. -/
theorem Keeps.ends_exactly {s : σ} {p : Prop} {R : α → Prop} (hx : p → Keeps P P (fun _ => False) x)
    (hr : Ensures x s fun a _ => p ∧ R a) (hs : P s) :
    Ends x s (fun a s' => p ∧ R a ∧ P s') fun _ _ => ¬p := by
  unfold Ends
  cases hrun : x s with
  | ok a s' =>
    obtain ⟨hp, ha⟩ := hr a s' hrun
    exact ⟨hp, ha, (hx hp s hs).of_ok hrun⟩
  | error e s' =>
    intro hp
    exact ((hx hp s hs).of_error hrun).1

theorem Keeps.ite {p : Prop} [Decidable p] {y : EStateM ε σ α} (hx : p → Keeps P P' F x)
    (hy : ¬p → Keeps P P' F y) : Keeps P P' F (if p then x else y) := by
  intro s hs
  exact ends_ite.mpr ⟨fun h => hx h s hs, fun h => hy h s hs⟩

theorem Keeps.update {g : σ → σ} (hg : ∀ s, P s → P (g s)) :
    Keeps P P' F (modify g : EStateM ε σ PUnit) := by
  intro s hs
  exact ends_modify.mpr (hg s hs)

theorem Keeps.get : Keeps P P' F (MonadState.get : EStateM ε σ σ) := by
  intro s hs
  exact ends_get.mpr hs

theorem Keeps.throw {e : ε} (he : F e) (hP : ∀ s, P s → P' s) :
    Keeps P P' F (MonadExcept.throw e : EStateM ε σ α) := by
  intro s hs
  exact ends_throw.mpr ⟨he, hP s hs⟩

end Keeps

/-- Every run of `x` relates the state before it to the state behind it, whichever way it ends. -/
def Leads (R : σ → σ → Prop) (x : EStateM ε σ α) : Prop :=
  ∀ s, Ends x s (fun _ s' => R s s') fun _ s' => R s s'

section Leads

variable {R : σ → σ → Prop}

theorem Leads.mono {R' : σ → σ → Prop} {x : EStateM ε σ α} (hx : Leads R x)
    (h : ∀ s s', R s s' → R' s s') : Leads R' x :=
  fun s => (hx s).mono (fun _ s' => h s s') fun _ s' => h s s'

theorem Leads.moves {x : EStateM ε σ α} (hx : Leads R x) : Moves R x :=
  fun s _ _ hrun => (hx s).of_ok hrun

theorem Leads.update {g : σ → σ} (h : ∀ s, R s (g s)) :
    Leads R (modify g : EStateM ε σ PUnit) :=
  fun s => ends_modify.mpr (h s)

theorem Leads.ite {p : Prop} [Decidable p] {x y : EStateM ε σ α} (hx : p → Leads R x)
    (hy : ¬p → Leads R y) : Leads R (if p then x else y) :=
  fun s => ends_ite.mpr ⟨fun h => hx h s, fun h => hy h s⟩

variable [IsPreorder σ R]

theorem Leads.pure (a : α) : Leads R (Pure.pure a : EStateM ε σ α) :=
  fun s => ends_pure.mpr (refl_of R s)

theorem Leads.get : Leads R (MonadState.get : EStateM ε σ σ) :=
  fun s => ends_get.mpr (refl_of R s)

theorem Leads.throw (e : ε) : Leads R (MonadExcept.throw e : EStateM ε σ α) :=
  fun s => ends_throw.mpr (refl_of R s)

theorem Leads.reject (v : Violation) : Leads R (Action.reject v : Action σ α) :=
  Leads.throw _

theorem Leads.require (p : Prop) [Decidable p] (v : Violation) :
    Leads R (Action.require p v : Action σ Unit) :=
  fun s => ends_require.mpr ⟨fun _ => refl_of R s, fun _ => refl_of R s⟩

theorem Leads.bind {x : EStateM ε σ α} {f : α → EStateM ε σ β} (hx : Leads R x)
    (hf : ∀ a, Leads R (f a)) : Leads R (x >>= f) := by
  intro s
  rw [ends_bind]
  apply (hx s).mono
  · intro a s' h
    apply (hf a s').mono
    · intro _ s'' h'
      exact trans_of R h h'
    · intro _ s'' h'
      exact trans_of R h h'
  · intro e s' h
    exact h

end Leads

theorem zoom_bind {get : σ → τ} {set : τ → σ → σ} (hget : ∀ t s, get (set t s) = t)
    (hset : ∀ t t' s, set t' (set t s) = set t' s) (x : Action τ α) (f : α → Action τ β) :
    zoom get set (x >>= f) = zoom get set x >>= fun a => zoom get set (f a) := by
  funext s
  change zoom get set (EStateM.bind x f) s =
    EStateM.bind (zoom get set x) (fun a => zoom get set (f a)) s
  unfold zoom EStateM.bind
  cases hx : x (get s) with
  | ok a t => simp only [hx, hget, hset]
  | error e t => simp only [hx]

/-- A property that an operation has if its parts have it, and that no failure lacks unless it is
for a mistake that recording finds. -/
structure Chains (P : ∀ {α : Type}, Action σ α → Prop) : Prop where
  pure : ∀ {α : Type} (a : α), P (Pure.pure a : Action σ α)
  throw : ∀ {α : Type} {f : Failure}, f.isSettled = false →
    P (MonadExcept.throw f : Action σ α)
  bind : ∀ {α β : Type} {x : Action σ α} {f : α → Action σ β}, P x → (∀ a, P (f a)) →
    P (x >>= f)

/-- Operations can also depend on all of the state. -/
structure Composes (P : ∀ {α : Type}, Action σ α → Prop) : Prop extends Chains P where
  get : P (MonadState.get : Action σ σ)

section Composes

variable {P : ∀ {α : Type}, Action σ α → Prop}

theorem Chains.reject (h : Chains P) {v : Violation} (hv : v.isSettled = false) :
    P (Action.reject v : Action σ α) :=
  h.throw hv

theorem Chains.ite (_h : Chains P) {p : Prop} [Decidable p] {x y : Action σ α}
    (hx : p → P x) (hy : ¬p → P y) : P (if p then x else y) := by
  split
  · next hp => exact hx hp
  · next hp => exact hy hp

theorem Chains.require (h : Chains P) (p : Prop) [Decidable p] {v : Violation}
    (hv : v.isSettled = false) : P (Action.require p v : Action σ Unit) :=
  h.ite (fun _ => h.pure _) fun _ => h.reject hv

theorem composes_moves (R : σ → σ → Prop) [IsPreorder σ R] :
    Composes fun {_} (x : Action σ _) => Moves R x :=
  ⟨⟨.pure, fun _ => .throw _, .bind⟩, .get⟩

theorem composes_leads (R : σ → σ → Prop) [IsPreorder σ R] :
    Composes fun {_} (x : Action σ _) => Leads R x :=
  ⟨⟨.pure, fun _ => .throw _, .bind⟩, .get⟩

end Composes

end Action
end MkCompiler
