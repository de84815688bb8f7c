import MkCompiler.Proofs.Action

/-!
# Two runs side by side

Operations that differ only in a name they are given run in step. `Mirrors` says so of two
operations: from states that correspond they end in the same way, with results and states that
correspond again. A rule for every way to put operations together lets a proof follow the text that
the two share.
-/

namespace MkCompiler

/-- Two failures are of one kind: violations that are reported under the same kind, or the same
failure. -/
def Failure.Alike : Failure → Failure → Prop
  | .rejected v, .rejected v' => v.kind = v'.kind
  | f, f' => f = f'

theorem Failure.Alike.refl (f : Failure) : f.Alike f := by
  cases f <;> exact rfl

theorem Failure.Alike.exists_rejected {v : Violation} {f : Failure}
    (h : (Failure.rejected v).Alike f) : ∃ v', f = .rejected v' ∧ v.kind = v'.kind := by
  cases f with
  | rejected v' => exact ⟨v', rfl, h⟩
  | stream e | internal e | fault e => cases h

theorem Failure.Alike.eq_of_ne_rejected {f f' : Failure} (h : f.Alike f')
    (hf : ∀ v, f ≠ .rejected v) : f' = f := by
  cases f with
  | rejected v => exact absurd rfl (hf v)
  | stream e | internal e | fault e => exact Eq.symm h

/-- Options that correspond are both empty, or hold values that correspond. -/
theorem optionRel_cases {α β : Type} {R : α → β → Prop} {o : Option α} {o' : Option β}
    (h : Option.Rel R o o') :
    (o = none ∧ o' = none) ∨ ∃ a b, o = some a ∧ o' = some b ∧ R a b := by
  cases h with
  | none => exact .inl ⟨rfl, rfl⟩
  | some hab => exact .inr ⟨_, _, rfl, rfl, hab⟩

theorem isNone_iff_of_optionRel {α β : Type} {R : α → β → Prop} {o : Option α} {o' : Option β}
    (h : Option.Rel R o o') : o.isNone = true ↔ o'.isNone = true := by
  cases h <;> simp

namespace Action

variable {σ τ α α' β β' : Type}

/-- From states that correspond by `S`, both operations end well with results that correspond by
`Q`, or both fail alike. -/
def Mirrors (S : σ → σ → Prop) (Q : α → α' → Prop) (x : Action σ α) (y : Action σ α') : Prop :=
  ∀ s t, S s t →
    match x s, y t with
    | .ok a s', .ok b t' => Q a b ∧ S s' t'
    | .error f s', .error f' t' => f.Alike f' ∧ S s' t'
    | _, _ => False

variable {S : σ → σ → Prop} {Q : α → α' → Prop} {x : Action σ α} {y : Action σ α'} {s t : σ}

theorem Mirrors.of_ok (h : Mirrors S Q x y) (hs : S s t) {a : α} {s' : σ} (hx : x s = .ok a s') :
    ∃ b t', y t = .ok b t' ∧ Q a b ∧ S s' t' := by
  have hmatch := h s t hs
  rw [hx] at hmatch
  cases hy : y t with
  | ok b t' =>
    rw [hy] at hmatch
    exact ⟨b, t', rfl, hmatch⟩
  | error f t' =>
    rw [hy] at hmatch
    exact hmatch.elim

theorem Mirrors.of_error (h : Mirrors S Q x y) (hs : S s t) {f : Failure} {s' : σ}
    (hx : x s = .error f s') : ∃ f' t', y t = .error f' t' ∧ f.Alike f' ∧ S s' t' := by
  have hmatch := h s t hs
  rw [hx] at hmatch
  cases hy : y t with
  | ok b t' =>
    rw [hy] at hmatch
    exact hmatch.elim
  | error f' t' =>
    rw [hy] at hmatch
    exact ⟨f', t', rfl, hmatch⟩

theorem Mirrors.bind {f : α → Action σ β} {g : α' → Action σ β'} {Q' : β → β' → Prop}
    (hx : Mirrors S Q x y) (hf : ∀ a b, Q a b → Mirrors S Q' (f a) (g b)) :
    Mirrors S Q' (x >>= f) (y >>= g) := by
  intro s t hs
  change match EStateM.bind x f s, EStateM.bind y g t with
    | .ok a s', .ok b t' => Q' a b ∧ S s' t'
    | .error e s', .error e' t' => e.Alike e' ∧ S s' t'
    | _, _ => False
  unfold EStateM.bind
  cases hxs : x s with
  | ok a s' =>
    obtain ⟨b, t', hy, hab, hs'⟩ := hx.of_ok hs hxs
    rw [hy]
    exact hf a b hab s' t' hs'
  | error f s' =>
    obtain ⟨f', t', hy, hf, hs'⟩ := hx.of_error hs hxs
    rw [hy]
    exact ⟨hf, hs'⟩

theorem Mirrors.pure {a : α} {b : α'} (h : Q a b) :
    Mirrors S Q (Pure.pure a : Action σ α) (Pure.pure b) :=
  fun _ _ hs => ⟨h, hs⟩

theorem Mirrors.get : Mirrors S S (MonadState.get : Action σ σ) MonadState.get :=
  fun _ _ hs => ⟨hs, hs⟩

theorem Mirrors.set (h : S s t) :
    Mirrors S Eq (MonadStateOf.set s : Action σ PUnit) (MonadStateOf.set t) :=
  fun _ _ _ => ⟨rfl, h⟩

theorem Mirrors.update {f g : σ → σ} (h : ∀ s t, S s t → S (f s) (g t)) :
    Mirrors S Eq (modify f : Action σ PUnit) (modify g) :=
  fun s t hs => ⟨rfl, h s t hs⟩

theorem Mirrors.throw {f f' : Failure} (h : f.Alike f') :
    Mirrors S Q (MonadExcept.throw f : Action σ α) (MonadExcept.throw f') :=
  fun _ _ hs => ⟨h, hs⟩

theorem Mirrors.reject {v v' : Violation} (h : v.kind = v'.kind) :
    Mirrors S Q (Action.reject v) (Action.reject v') :=
  Mirrors.throw h

theorem Mirrors.ite {p q : Prop} [Decidable p] [Decidable q] {x' : Action σ α} {y' : Action σ α'}
    (hpq : p ↔ q) (hx : p → Mirrors S Q x y) (hx' : ¬p → Mirrors S Q x' y') :
    Mirrors S Q (if p then x else x') (if q then y else y') := by
  by_cases h : p
  · rw [if_pos h, if_pos (hpq.mp h)]
    exact hx h
  · rw [if_neg h, if_neg (mt hpq.mpr h)]
    exact hx' h

theorem Mirrors.require {p q : Prop} [Decidable p] [Decidable q] {v v' : Violation} (hpq : p ↔ q)
    (h : v.kind = v'.kind) : Mirrors S Eq (Action.require p v) (Action.require q v') :=
  Mirrors.ite hpq (fun _ => .pure rfl) fun _ => .reject h

theorem Mirrors.require_bind {p q : Prop} [Decidable p] [Decidable q] {v v' : Violation}
    {f : Unit → Action σ β} {g : Unit → Action σ β'} {Q : β → β' → Prop} (hpq : p ↔ q)
    (h : v.kind = v'.kind) (hf : p → Mirrors S Q (f ()) (g ())) :
    Mirrors S Q (Action.require p v >>= f) (Action.require q v' >>= g) := by
  by_cases hp : p
  · have hq := hpq.mp hp
    rw [Action.require, Action.require, if_pos hp, if_pos hq, pure_bind, pure_bind]
    exact hf hp
  · have hq := mt hpq.mpr hp
    rw [Action.require, Action.require, if_neg hp, if_neg hq]
    intro s t hs
    exact ⟨h, hs⟩

theorem Mirrors.zoom {T : τ → τ → Prop} {get : σ → τ} {set : τ → σ → σ} {x : Action τ α}
    {y : Action τ α'} (h : Mirrors T Q x y) (hget : ∀ s t, S s t → T (get s) (get t))
    (hset : ∀ s t u v, S s t → T u v → S (set u s) (set v t)) :
    Mirrors S Q (Action.zoom get set x) (Action.zoom get set y) := by
  intro s t hs
  unfold Action.zoom
  cases hx : x (get s) with
  | ok a u =>
    obtain ⟨b, v, hy, hab, huv⟩ := h.of_ok (hget s t hs) hx
    rw [hy]
    exact ⟨hab, hset s t u v hs huv⟩
  | error f u =>
    obtain ⟨f', v, hy, hf, huv⟩ := h.of_error (hget s t hs) hx
    rw [hy]
    exact ⟨hf, hset s t u v hs huv⟩

end Action
end MkCompiler
