import MkCompiler.Proofs.Recorder

/-!
# Histories

A compilation can be given any notifications and goes on behind failures. While the body of a class
is run for an instance it comes through further states. A property that no single step takes away
holds in all of them.
-/

namespace MkCompiler.Compilation

open MkCompiler.Action

variable {S : Command → Prop} {P : Compilation → Prop} {file : String} {symbols : RuntimeSymbols}
  {owner : Option (String × Nat)} {c c' : Compilation} {cmd : Command} {commands : List Command}

theorem behind_append (front rest : List Command) (c : Compilation) :
    behind (front ++ rest) c = behind rest (behind front c) := by
  induction front generalizing c with
  | nil => rfl
  | cons cmd front ih =>
    rw [List.cons_append, behind, behind]
    cases handle cmd c with
    | ok _ c₁ => exact ih c₁
    | error _ c₁ => exact ih c₁

theorem behind_of_handled? (h : handled? commands c = some c') : behind commands c = c' := by
  induction commands generalizing c with
  | nil => exact Option.some.inj h
  | cons cmd rest ih =>
    obtain ⟨c₁, hcmd, hrest⟩ := handled?_cons.mp h
    rw [behind, hcmd]
    exact ih hrest

/-- What handling a notification keeps holds behind all of them. -/
theorem behind_induction (hc : P c)
    (hstep : ∀ cmd ∈ commands, ∀ c, P c → Ends (handle cmd) c (fun _ => P) fun _ => P) :
    P (behind commands c) := by
  induction commands generalizing c with
  | nil => exact hc
  | cons cmd rest ih =>
    have hcmd := hstep cmd (by simp) c hc
    have hrest : ∀ cmd' ∈ rest, ∀ c, P c → Ends (handle cmd') c (fun _ => P) fun _ => P :=
      fun cmd' hcmd' => hstep cmd' (List.mem_cons_of_mem _ hcmd')
    rw [behind]
    cases hrun : handle cmd c with
    | ok _ c₁ => exact ih (hcmd.of_ok hrun) hrest
    | error _ c₁ => exact ih (hcmd.of_error hrun) hrest

/-- The states that a compilation of notifications from `S` comes through: behind some of them, and
while the body of a class is run for an instance. -/
inductive ComesTo (S : Command → Prop) (file : String) (symbols : RuntimeSymbols) :
    Compilation → Prop
  | behind {commands : List Command} (h : ∀ cmd ∈ commands, S cmd) :
      ComesTo S file symbols (behind commands (start file symbols))
  | within {commands : List Command} (h : ∀ cmd ∈ commands, S cmd) {cmd : Command} (hcmd : S cmd)
      (hkind : cmd.kind = .declareInstance) {body done rest : List Command} {c₁ c₂ : Compilation}
      (hprogram : (behind commands (start file symbols)).program = none)
      (hrecording : (behind commands (start file symbols)).recording = none)
      (hopen : openInstance cmd.name cmd.target (behind commands (start file symbols)) = .ok body c₁)
      (hbody : body = done ++ rest) (hdone : replay done c₁ = .ok () c₂) :
      ComesTo S file symbols c₂

def SameEmitter (c c' : Compilation) : Prop :=
  c'.emitter = c.emitter

instance : IsPreorder Compilation SameEmitter where
  refl _ := rfl
  trans _ _ _ h h' := Eq.trans h' h

theorem WellRecorded.sameEmitter_record (hc : c.WellRecorded) {id : Nat}
    (hid : c.recording = some id) (cmd : Command) :
    Ends (record id cmd) c (fun _ c' => SameEmitter c c') fun _ c' => SameEmitter c c' := by
  obtain ⟨k, rfl, hk, hfrozen⟩ := hc.exists_class hid
  apply (ends_record hk cmd).mono
  · rintro _ _ ⟨k', method, returned, -, -, rfl⟩
    rfl
  · intro f c' hf
    obtain ⟨rfl, -⟩ := hf hfrozen
    rfl

theorem WellRecorded.sameEmitter_openInstance (hc : c.WellRecorded) (name className : String) :
    Ends (openInstance name className) c (fun _ c' => SameEmitter c c')
      fun _ c' => SameEmitter c c' := by
  apply (hc.ends_openInstance name className).mono
  · rintro _ _ ⟨k, -, -, rfl⟩
    rfl
  · rintro _ _ ⟨rfl, -⟩
    rfl

/-- A property that no step of a compilation takes away, whichever way the step ends. It depends on
the emitter only. -/
structure Lasts (S : Command → Prop) (P : Compilation → Prop) : Prop where
  construct : ∀ {c owner cmd}, c.Sound S owner False → P c → cmd.kind ≠ .declareInstance →
    Ends (construct cmd) c (fun _ => P) fun _ => P
  idle : ∀ {c c'}, SameEmitter c c' → P c → P c'

structure Intact (S : Command → Prop) (P : Compilation → Prop) (owner : Option (String × Nat))
    (c : Compilation) : Prop where
  sound : c.Sound S owner False
  holds : P c

theorem Intact.wellRecorded (hc : c.Intact S P owner) : c.WellRecorded :=
  hc.sound.records

theorem Intact.leave (h : Lasts S P) (hc : c.Intact S P owner) :
    Intact S P none { c with table := c.table.setInstance none } :=
  ⟨hc.sound.leaveInstance, h.idle (c := c) rfl hc.holds⟩

theorem Intact.recorded (h : Lasts S P) {name : String} {id : Nat} {k : ClassInfo}
    (hc : c.Intact S P (some (name, id))) (hk : c.table.classes[id]? = some k)
    (hcmd : cmd ∈ k.commands) :
    Ends (construct cmd) c
      (fun _ c' => c'.Intact S P (some (name, id)) ∧ c'.table.classes[id]? = some k)
      fun _ => Intact S P (some (name, id)) := by
  have hkind := hc.wellRecorded.kind_of_mem hk hcmd
  have hkinds := hkind
  simp only [List.mem_cons, List.not_mem_nil, or_false, not_or] at hkinds
  obtain ⟨hbegin, hend, hinstance, -⟩ := hkinds
  have hrun := (ends_replayed hkind hc.sound hk hcmd).and
    ((unrecorded_construct hbegin hend c).and (h.construct hc.sound hc.holds hinstance))
  apply hrun.mono
  · rintro _ c₁ ⟨hsound, hsame, hp⟩
    exact ⟨⟨hsound, hp⟩, hsame.classes ▸ hk⟩
  · rintro _ c₁ ⟨⟨-, hsound⟩, -, hp⟩
    exact ⟨hsound, hp⟩

theorem Intact.replay (h : Lasts S P) {name : String} {id : Nat} {k : ClassInfo}
    {body : List Command} (hc : c.Intact S P (some (name, id)))
    (hk : c.table.classes[id]? = some k) (hbody : ∀ cmd ∈ body, cmd ∈ k.commands) :
    Ends (replay body) c (fun _ => Intact S P (some (name, id)))
      fun _ => Intact S P (some (name, id)) := by
  induction body generalizing c with
  | nil => exact hc
  | cons cmd rest ih =>
    rw [Compilation.replay, ends_bind, ends_locate]
    apply (hc.recorded h hk (hbody cmd (by simp))).mono
    · rintro _ c₁ ⟨hc₁, hk₁⟩
      exact ih hc₁ hk₁ fun cmd' hcmd' => hbody cmd' (List.mem_cons_of_mem _ hcmd')
    · intro _ c₁ hc₁
      exact hc₁

theorem Intact.openInstance (h : Lasts S P) (hc : c.Intact S P none) (hcmd : S cmd)
    (hkind : cmd.kind = .declareInstance) :
    Ends (openInstance cmd.name cmd.target) c (fun body c' => ∃ k : ClassInfo,
      c'.Intact S P (some (cmd.name, k.id)) ∧ c'.table.classes[k.id]? = some k ∧ k.commands = body)
      fun _ => Intact S P none := by
  have he : Continues S none fun _ c' => c'.Sound S none False := fun _ _ _ hc' => hc'
  have hrun := (ends_openInstance he hc.sound ⟨cmd, hcmd, hkind, rfl⟩ cmd.target fun _ => hc.sound).and
    (hc.wellRecorded.sameEmitter_openInstance cmd.name cmd.target)
  apply hrun.mono
  · rintro body c₁ ⟨⟨k, -, hbody, -, hsound, hk⟩, hsame⟩
    exact ⟨k, ⟨hsound, h.idle hsame hc.holds⟩, hk, hbody⟩
  · rintro _ c₁ ⟨hsound, hsame⟩
    exact ⟨hsound, h.idle hsame hc.holds⟩

theorem Intact.declareInstance (h : Lasts S P) (hc : c.Intact S P none) (hcmd : S cmd)
    (hkind : cmd.kind = .declareInstance) :
    Ends (declareInstance cmd.line cmd.name cmd.target) c (fun _ => Intact S P none)
      fun _ => Intact S P none := by
  rw [Compilation.declareInstance, ends_bind, ends_locate]
  apply (hc.openInstance h hcmd hkind).mono
  · rintro body c₁ ⟨k, hc₁, hk, hbody⟩
    rw [ends_leavingInstance]
    apply (hc₁.replay h hk (by simp [hbody])).mono
    · intro _ c₂ hc₂
      exact hc₂.leave h
    · intro _ c₂ hc₂
      exact hc₂.leave h
  · intro _ c₁ hc₁
    exact hc₁

/-- Handling a notification takes nothing away. -/
theorem Intact.handle (h : Lasts S P) (hc : c.Intact S P none) (hcmd : S cmd) :
    Ends (handle cmd) c (fun _ => Intact S P none) fun _ => Intact S P none := by
  suffices hp : Ends (Compilation.handle cmd) c (fun _ => P) fun _ => P by
    apply ((ends_handle hc.sound hcmd).and hp).mono
    · rintro _ c' ⟨hc', hp'⟩
      exact ⟨hc', hp'⟩
    · rintro _ c' ⟨⟨-, hc'⟩, hp'⟩
      exact ⟨hc', hp'⟩
  have hconstruct (hkind : cmd.kind ≠ .declareInstance) :
      Ends (dispatch cmd) c (fun _ => P) fun _ => P := by
    rw [dispatch_eq_construct hkind, ends_locate]
    exact h.construct hc.sound hc.holds hkind
  rw [Compilation.handle, ends_bind, ends_get, ends_ite]
  refine ⟨fun _ => ends_throw.mpr hc.holds, fun _ => ?_⟩
  cases hid : c.recording with
  | some id =>
    dsimp only
    rw [ends_ite]
    constructor
    · intro hkind
      apply hconstruct
      simp [hkind]
    · intro _
      rw [ends_locate]
      have hkept {c' : Compilation} (hsame : SameEmitter c c') : P c' := h.idle hsame hc.holds
      exact (hc.wellRecorded.sameEmitter_record hid cmd).mono (fun _ _ => hkept) fun _ _ => hkept
  | none =>
    by_cases hkind : cmd.kind = .declareInstance
    · rw [dispatch, hkind]
      apply (hc.declareInstance h hcmd hkind).mono
      · intro _ c' hc'
        exact hc'.holds
      · intro _ c' hc'
        exact hc'.holds
    · exact hconstruct hkind

theorem intact_start (file : String) (symbols : RuntimeSymbols)
    (hstart : P (start file symbols)) : (start file symbols).Intact S P none :=
  ⟨(sound_start file symbols).disorderly, hstart⟩

theorem intact_behind (h : Lasts S P) (hstart : P (start file symbols))
    (hcommands : ∀ cmd ∈ commands, S cmd) :
    (behind commands (start file symbols)).Intact S P none := by
  apply behind_induction (P := Intact S P none)
  · exact intact_start file symbols hstart
  · intro cmd hcmd c hc
    exact hc.handle h (hcommands cmd hcmd)

theorem lasts_true (S : Command → Prop) : Lasts S fun _ => True := by
  have htrue {ε α : Type} (x : EStateM ε Compilation α) (c : Compilation) :
      Ends x c (fun _ _ => True) fun _ _ => True := by
    rw [Ends]
    cases x c <;> trivial
  exact ⟨fun _ _ _ => htrue _ _, fun _ _ => trivial⟩

theorem intact_behind_start (file : String) (symbols : RuntimeSymbols)
    (hcommands : ∀ cmd ∈ commands, S cmd) :
    (behind commands (start file symbols)).Intact S (fun _ => True) none :=
  intact_behind (lasts_true S) trivial hcommands

/-- A property that lasts holds in every state that a compilation comes through. -/
theorem ComesTo.intact (h : Lasts S P) (hstart : P (start file symbols))
    (hc : ComesTo S file symbols c) : ∃ owner, c.Intact S P owner := by
  cases hc with
  | behind hcommands => exact ⟨none, intact_behind h hstart hcommands⟩
  | within hcommands hcmd hkind _ _ hopen hbody hdone =>
    have hfront := intact_behind h hstart hcommands
    obtain ⟨k, hc₁, hk, hsame⟩ := (hfront.openInstance h hcmd hkind).of_ok hopen
    refine ⟨_, (hc₁.replay h hk ?_).of_ok hdone⟩
    intro cmd' hcmd'
    rw [hsame, hbody]
    exact List.mem_append_left _ hcmd'

end MkCompiler.Compilation
