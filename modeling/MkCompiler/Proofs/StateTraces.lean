import Mathlib.Data.List.Chain
import MkCompiler.Proofs.Histories

/-!
# Traces of states

All states that a compilation comes through, in order: behind every notification, whether it was
refused or not, and in between, while the body of a class is run for an instance, behind every
notification of that body. What every single step respects holds between neighbours of the trace.
-/

namespace MkCompiler.Compilation

open MkCompiler.Action

variable {α β : Type} {S : Command → Prop} {P : Compilation → Prop}
  {T : Compilation → Compilation → Prop} {owner : Option (String × Nat)} {c c' : Compilation}
  {cmd : Command} {commands : List Command}

/-- The states behind the notifications of the body of a class, up to the first that fails. -/
def bodyStates : List Command → Compilation → List Compilation
  | [], _ => []
  | cmd :: rest, c =>
    match construct cmd c with
    | .ok _ c' => c' :: bodyStates rest c'
    | .error _ c' => [c']

/-- The states that handling a notification comes through before the last one: those in the body of
a class that is run for an instance. -/
def innerStates (cmd : Command) (c : Compilation) : List Compilation :=
  if cmd.kind = .declareInstance ∧ c.program = none ∧ c.recording = none then
    match openInstance cmd.name cmd.target c with
    | .ok body c' => c' :: bodyStates body c'
    | .error _ _ => []
  else []

/-- All states that a compilation comes through, also behind notifications that fail. -/
def states : List Command → Compilation → List Compilation
  | [], c => [c]
  | cmd :: rest, c => c :: (innerStates cmd c ++ states rest (behind [cmd] c))

theorem exists_states_eq_cons (commands : List Command) (c : Compilation) :
    ∃ rest, states commands c = c :: rest := by
  cases commands with
  | nil => exact ⟨_, rfl⟩
  | cons cmd rest => exact ⟨_, rfl⟩

/-- The trace ends behind the last notification. -/
theorem getLast?_states (commands : List Command) (c : Compilation) :
    (states commands c).getLast? = some (behind commands c) := by
  induction commands generalizing c with
  | nil => rfl
  | cons cmd rest ih =>
    have hbehind : behind (cmd :: rest) c = behind rest (behind [cmd] c) :=
      behind_append [cmd] rest c
    obtain ⟨tail, htail⟩ := exists_states_eq_cons rest (behind [cmd] c)
    rw [hbehind, ← ih, states, htail, ← List.cons_append,
      List.getLast?_append_of_ne_nil _ (List.cons_ne_nil _ _)]

/-! ## Neighbours of a trace -/

/-- Every construct respects the relation, and so does all that leaves the emitter alone. -/
structure Respects (S : Command → Prop) (P : Compilation → Prop)
    (T : Compilation → Compilation → Prop) : Prop where
  lasts : Lasts S P
  construct : ∀ {c owner cmd}, c.Sound S owner False → P c → cmd.kind ≠ .declareInstance →
    Ends (construct cmd) c (fun _ => T c) fun _ => T c
  idle : ∀ {c c'}, SameEmitter c c' → T c c'

/-- The states in the body of a class, up to one in which the instance has been left. -/
theorem Respects.bodyStates (h : Respects S P T) {name : String} {id : Nat} {k : ClassInfo}
    {body : List Command} (hc : c.Intact S P (some (name, id)))
    (hk : c.table.classes[id]? = some k) (hbody : ∀ cmd ∈ body, cmd ∈ k.commands) :
    (∀ c' ∈ bodyStates body c, ∃ owner, c'.Intact S P owner) ∧
      Ends (replay body) c
        (fun _ c₁ => ∀ c', SameEmitter c₁ c' →
          (c :: (Compilation.bodyStates body c ++ [c'])).IsChain T)
        fun _ c₁ => ∀ c', SameEmitter c₁ c' →
          (c :: (Compilation.bodyStates body c ++ [c'])).IsChain T := by
  induction body generalizing c with
  | nil =>
    refine ⟨by simp [Compilation.bodyStates], ?_⟩
    rw [replay, ends_pure]
    intro c' hsame
    exact List.isChain_pair.mpr (h.idle hsame)
  | cons cmd rest ih =>
    have hcmd := hbody cmd (by simp)
    have hrun := hc.recorded h.lasts hk hcmd
    have hkind := hc.wellRecorded.kind_of_mem hk hcmd
    have hinstance : cmd.kind ≠ .declareInstance := by
      intro hinstance
      exact hkind (by simp [hinstance])
    have hstep := h.construct hc.sound hc.holds hinstance
    rw [replay, ends_bind, ends_locate, Compilation.bodyStates]
    unfold Ends
    cases hresult : Compilation.construct cmd c with
    | ok _ c₁ =>
      obtain ⟨hc₁, hk₁⟩ := hrun.of_ok hresult
      obtain ⟨hall, hrest⟩ := ih hc₁ hk₁ fun cmd' hcmd' => hbody cmd' (List.mem_cons_of_mem _ hcmd')
      have hnext := hstep.of_ok hresult
      constructor
      · intro c' hc'
        rcases List.mem_cons.mp hc' with rfl | hc'
        · exact ⟨_, hc₁⟩
        · exact hall c' hc'
      · apply hrest.mono
        · intro _ c₂ hchain c' hsame
          exact List.isChain_cons_cons.mpr ⟨hnext, hchain c' hsame⟩
        · intro _ c₂ hchain c' hsame
          exact List.isChain_cons_cons.mpr ⟨hnext, hchain c' hsame⟩
    | error f c₁ =>
      constructor
      · intro c' hc'
        rw [List.mem_singleton.mp hc']
        exact ⟨_, hrun.of_error hresult⟩
      · intro c' hsame
        exact List.isChain_cons_cons.mpr
          ⟨hstep.of_error hresult, List.isChain_pair.mpr (h.idle hsame)⟩

theorem behind_single {Q : Compilation → Prop}
    (h : Ends (handle cmd) c (fun _ => Q) fun _ => Q) : Q (behind [cmd] c) := by
  rw [behind]
  cases hresult : handle cmd c with
  | ok _ c₁ => exact h.of_ok hresult
  | error _ c₁ => exact h.of_error hresult

theorem Respects.single (h : Respects S P T) (hc : c.Intact S P none)
    (hsimple : ¬(cmd.kind = .declareInstance ∧ c.program = none ∧ c.recording = none)) :
    T c (behind [cmd] c) := by
  have hdispatch (hkind : cmd.kind ≠ .declareInstance) :
      Ends (dispatch cmd) c (fun _ => T c) fun _ => T c := by
    rw [dispatch_eq_construct hkind, ends_locate]
    exact h.construct hc.sound hc.holds hkind
  apply behind_single
  rw [handle, ends_bind, ends_get, ends_ite]
  refine ⟨fun _ => ends_throw.mpr (h.idle rfl), fun hended => ?_⟩
  cases hid : c.recording with
  | some id =>
    dsimp only
    rw [ends_ite]
    constructor
    · intro hkind
      exact hdispatch (by simp [hkind])
    · intro _
      rw [ends_locate]
      exact (hc.wellRecorded.sameEmitter_record hid cmd).mono (fun _ _ => h.idle) fun _ _ => h.idle
  | none =>
    apply hdispatch
    intro hkind
    exact hsimple ⟨hkind, by simpa [ended] using hended, hid⟩

/-- Handling a notification comes through neighbouring states. -/
theorem Respects.handle (h : Respects S P T) (hc : c.Intact S P none) (hcmd : S cmd) :
    (∀ c' ∈ innerStates cmd c, ∃ owner, c'.Intact S P owner) ∧
      (c :: (innerStates cmd c ++ [behind [cmd] c])).IsChain T := by
  rw [innerStates]
  split
  · next hinstance =>
    obtain ⟨hkind, hprogram, hrecording⟩ := hinstance
    have hopened := hc.openInstance h.lasts hcmd hkind
    have hsame := hc.wellRecorded.sameEmitter_openInstance cmd.name cmd.target
    have hends {Q : Compilation → Prop}
        (hq : Ends (declareInstance cmd.line cmd.name cmd.target) c (fun _ => Q) fun _ => Q) :
        Q (behind [cmd] c) := by
      apply behind_single
      unfold Ends at hq ⊢
      rwa [handle_eq_declareInstance hprogram hrecording hkind]
    cases hopen : openInstance cmd.name cmd.target c with
    | error f c₁ =>
      refine ⟨by simp, List.isChain_pair.mpr (hends ?_)⟩
      rw [declareInstance, ends_bind, ends_locate, ends_of_error hopen]
      exact h.idle (hsame.of_error hopen)
    | ok body c₁ =>
      obtain ⟨k, hc₁, hk, hbody⟩ := hopened.of_ok hopen
      have hmem : ∀ cmd ∈ body, cmd ∈ k.commands := by simp [hbody]
      obtain ⟨hall, hreplay⟩ := h.bodyStates hc₁ hk hmem
      have hfirst := h.idle (hsame.of_ok hopen)
      constructor
      · intro c' hc'
        rcases List.mem_cons.mp hc' with rfl | hc'
        · exact ⟨_, hc₁⟩
        · exact hall c' hc'
      · refine List.isChain_cons_cons.mpr ⟨hfirst, hends
          (Q := fun c' => (c₁ :: (Compilation.bodyStates body c₁ ++ [c'])).IsChain T) ?_⟩
        rw [declareInstance, ends_bind, ends_locate, ends_of_ok hopen, ends_leavingInstance]
        apply hreplay.mono
        · intro _ c₂ hchain
          exact hchain _ rfl
        · intro _ c₂ hchain
          exact hchain _ rfl
  · next hsimple =>
    exact ⟨by simp, List.isChain_pair.mpr (h.single hc hsimple)⟩

/-- The states of a trace are in order, and neighbours are related. -/
theorem Respects.states (h : Respects S P T) (hc : c.Intact S P none)
    (hcommands : ∀ cmd ∈ commands, S cmd) :
    (∀ c' ∈ states commands c, ∃ owner, c'.Intact S P owner) ∧
      (Compilation.states commands c).IsChain T := by
  induction commands generalizing c with
  | nil =>
    refine ⟨?_, List.isChain_singleton _⟩
    intro c' hc'
    rw [List.mem_singleton.mp hc']
    exact ⟨none, hc⟩
  | cons cmd rest ih =>
    have hcmd := hcommands cmd (by simp)
    have hbehind : (behind [cmd] c).Intact S P none := by
      apply behind_induction (P := Intact S P none) hc
      intro cmd' hcmd' c hc
      rw [List.mem_singleton.mp hcmd']
      exact hc.handle h.lasts hcmd
    obtain ⟨hinner, hchain⟩ := h.handle hc hcmd
    obtain ⟨hall, hrest⟩ := ih hbehind fun cmd' hcmd' =>
      hcommands cmd' (List.mem_cons_of_mem _ hcmd')
    obtain ⟨tail, htail⟩ := exists_states_eq_cons rest (behind [cmd] c)
    rw [Compilation.states]
    constructor
    · intro c' hc'
      rcases List.mem_cons.mp hc' with rfl | hc'
      · exact ⟨none, hc⟩
      · rcases List.mem_append.mp hc' with hc' | hc'
        · exact hinner c' hc'
        · exact hall c' hc'
    · rw [htail] at hrest ⊢
      rw [← List.cons_append, List.isChain_split]
      exact ⟨hchain, hrest⟩

end MkCompiler.Compilation
