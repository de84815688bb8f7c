import MkCompiler.Proofs.Instantiation

/-!
# Instances that a class body leaves alone

Storage of the program and the current instance is found by its plain name, and storage of any other
instance only through the name of that instance. While the body of a class is run, no instance is
lost, and none changes but the new one and those that the body names.
-/

namespace MkCompiler

open MkCompiler.Action

def Binding.Within (P : String → Prop) : Binding → Prop
  | .slot _ => True
  | .global g => g.inst = "" ∨ P g.inst

theorem Binding.Within.rebound {P : String → Prop} {b : Binding} (h : b.Within P)
    (type : DataType) : (b.rebound type).Within P := by
  rcases b.rebound_eq type with heq | ⟨version, heq⟩ <;> rw [heq]
  · exact h
  · cases b <;> exact h

namespace SymbolTable

variable {P P' : String → Prop} {S : Command → Prop} {t t' t'' : SymbolTable}

/-- No instance is lost, and none changes but those that satisfy `P`. -/
structure Confined (P : String → Prop) (t t' : SymbolTable) : Prop where
  kept : ∀ q, (t.instances.find? q).isSome = true → (t'.instances.find? q).isSome = true
  others : ∀ q, ¬P q → t'.instances.find? q = t.instances.find? q

theorem confined_of_instances (h : t'.instances = t.instances) : t.Confined P t' :=
  ⟨fun _ hq => h ▸ hq, fun _ _ => by rw [h]⟩

theorem Confined.trans (h : t.Confined P t') (h' : t'.Confined P t'') : t.Confined P t'' :=
  ⟨fun q hq => h'.kept q (h.kept q hq), fun q hq => (h'.others q hq).trans (h.others q hq)⟩

theorem confined_insert {name : String} (inst : InstanceInfo) (hname : P name) :
    t.Confined P { t with instances := t.instances.insert name inst } where
  kept _ hq := Scope.isSome_find?_insert hq _ _
  others q hq := by
    have hne : q ≠ name := fun heq => hq (heq ▸ hname)
    dsimp only
    rw [Scope.find?_insert, if_neg hne]

theorem confined_install {b : Binding} (h : b.Within P) : t.Confined P (t.install b) := by
  cases b with
  | slot l => exact confined_of_instances rfl
  | global g =>
    dsimp only [install]
    split
    · exact confined_of_instances rfl
    · next hinst =>
      split
      · exact confined_of_instances rfl
      · exact confined_insert _ (h.resolve_left hinst)

/-- What is bound to the fields of an instance belongs to that instance. -/
theorem Sound.within (h : t.Sound S) {x : Place} {b : Binding} (hb : t.binding? x = some b)
    (hx : ∀ owner name, x = .field owner name → P owner) : b.Within P := by
  cases x with
  | slot name =>
    obtain ⟨l, -, rfl⟩ := Option.map_eq_some_iff.mp hb
    trivial
  | program name =>
    obtain ⟨g, hg, rfl⟩ := Option.map_eq_some_iff.mp hb
    exact .inl (h.globals name g hg).inst_eq
  | field owner name =>
    obtain ⟨g, hg, rfl⟩ := Option.map_eq_some_iff.mp hb
    obtain ⟨inst, hinst, hg⟩ := Option.bind_eq_some_iff.mp hg
    right
    rw [(h.fields owner inst hinst name g hg).inst_eq]
    exact hx owner name rfl

/-- A variable or an array belongs to an open function, to the current instance or to the
program. -/
theorem Declares.confined {inside : Bool} {b : Binding} (h : t.Declares inside b t')
    (hcurrent : ∀ q, t.current = some q → P q) : t.Confined P t' ∧ b.Within P := by
  cases h with
  | @slot l => exact ⟨confined_install (b := .slot l) trivial, trivial⟩
  | field howner =>
    exact ⟨confined_insert _ (hcurrent _ howner), .inr (hcurrent _ howner)⟩
  | @program g _ hinst =>
    have hwithin : (Binding.global g).Within P := .inl hinst
    exact ⟨confined_install hwithin, hwithin⟩

/-- A notification changes no instance but the current one and the one that it names. -/
theorem Effect.confined {inside : Bool} {cmd : Command} (h : t.Effect inside cmd t')
    (ht : t.Sound S) (hcurrent : ∀ q, t.current = some q → P q) (htarget : P cmd.target) :
    t.Confined P t' := by
  cases h with
  | quiet _ hsame => exact confined_of_instances hsame.instances
  | assign _ hb _ howner type =>
    refine confined_install ((ht.within hb ?_).rebound type)
    intro owner name hx
    rcases howner owner name hx with h | rfl
    · exact hcurrent owner h
    · exact htarget
  | declare _ hdeclares _ _ => exact (hdeclares.confined hcurrent).1
  | array _ hdeclares _ _ =>
    obtain ⟨hconfined, hwithin⟩ := hdeclares.confined hcurrent
    exact hconfined.trans (confined_install hwithin)
  | enter _ _ hsame hlocals =>
    exact confined_of_instances ((extends_locals hlocals).2.2.1.trans hsame.instances)
  | leave _ => exact confined_of_instances rfl

end SymbolTable

namespace Compilation

open SymbolTable

variable {P : String → Prop} {S : Command → Prop} {c c' : Compilation}

/-! ## Class bodies -/

/-- The instance whose class body is run is the current one. -/
theorem Sound.current_eq {name : String} {id : Nat} {orderly : Prop}
    (h : c.Sound S (some (name, id)) orderly) : c.table.current = some name := by
  obtain ⟨inst, hcurrent, -⟩ := h.exists_instance
  exact hcurrent

/-- The body of a class changes no instance but the new one and those that it names. -/
theorem ensures_replay_confined {name : String} {id : Nat} {orderly : Prop} {k : ClassInfo}
    {body : List Command} {r r' : Region} (hplace : r.after? (body.map Command.kind) = some r')
    (hc : c.Sound S (some (name, id)) orderly) (hk : c.table.classes[id]? = some k)
    (hbody : ∀ cmd ∈ body, cmd ∈ k.commands) :
    Ensures (replay body) c fun _ c' =>
      c.table.Confined (fun q => q = name ∨ ∃ cmd ∈ k.commands, cmd.target = q) c'.table := by
  induction body generalizing c r with
  | nil => exact ensures_pure.mpr (confined_of_instances rfl)
  | cons cmd rest ih =>
    obtain ⟨hkind, r₁, -, hplace⟩ := Region.after?_cons_eq_some hplace
    have hcmd := hbody cmd (List.mem_cons_self ..)
    rw [replay, ensures_bind]
    intro _ c₁ hlocated
    have hok := locate_eq_ok.mp hlocated
    have h₁ : c.table.Confined (fun q => q = name ∨ ∃ cmd ∈ k.commands, cmd.target = q)
        c₁.table := by
      apply (ensures_construct_sound hc.table cmd () c₁ hok).confined hc.table
      · intro q hq
        exact .inl (Option.some.inj (hq.symm.trans hc.current_eq))
      · exact .inr ⟨cmd, hcmd, rfl⟩
    have hc₁ := (ends_replayed hkind hc hk hcmd).of_ok hok
    simp only [List.mem_cons, List.not_mem_nil, or_false, not_or] at hkind
    obtain ⟨hbegin, hend, -, hprogram⟩ := hkind
    have hclasses := (along_construct hbegin hend hprogram c _ c₁ hok).classes
    have hrest (cmd' : Command) (h : cmd' ∈ rest) : cmd' ∈ k.commands :=
      hbody cmd' (List.mem_cons_of_mem _ h)
    refine (ih hplace hc₁ (hclasses ▸ hk) hrest).mono ?_
    intro _ c₂ h₂
    exact h₁.trans h₂

theorem Orderly.openInstance_eq_ok (h : c.Orderly) {name className : String} {body : List Command}
    (hopen : openInstance name className c = .ok body c') : ∃ k : ClassInfo,
      c.table.class? className = some k ∧ k.commands = body ∧ c' = c.withInstance name k.id ∧
      c'.Sound (fun _ => True) (some (name, k.id)) True ∧
      Region.outside.after? (k.commands.map Command.kind) = some .outside := by
  obtain ⟨k, hk, hbody, hc', hsound, -⟩ := (Compilation.ends_openInstance continues_trivial h.sound
    (Command.instantiates_true name) className fun _ => trivial).of_ok hopen
  exact ⟨k, hk.class_eq, hbody, hc', hsound, h.recorded.after?_of_class? hk⟩

theorem Orderly.declareInstance_eq_ok (h : c.Orderly) {line : Int} {name className : String}
    (hok : declareInstance line name className c = .ok () c') :
    ∃ (k : ClassInfo) (c₁ : Compilation), c.table.class? className = some k ∧
      (c.withInstance name k.id).Sound (fun _ => True) (some (name, k.id)) True ∧
      Region.outside.after? (k.commands.map Command.kind) = some .outside ∧
      replay k.commands (c.withInstance name k.id) = .ok () c₁ ∧
      c' = { c₁ with table := c₁.table.setInstance none } := by
  obtain ⟨body, c₀, hlocated, hleaving⟩ := bind_eq_ok.mp hok
  obtain ⟨k, hclass, rfl, rfl, hsound, hplace⟩ :=
    h.openInstance_eq_ok (locate_eq_ok.mp hlocated)
  rw [leavingInstance] at hleaving
  cases hreplay : replay k.commands (c.withInstance name k.id) with
  | error _ _ =>
    rw [hreplay] at hleaving
    cases hleaving
  | ok _ c₁ =>
    rw [hreplay] at hleaving
    exact ⟨k, c₁, hclass, hsound, hplace, hreplay, (EStateM.Result.ok.inj hleaving).2.symm⟩

theorem confined_withInstance {name : String} (hname : P name) (id : Nat) :
    c.table.Confined P (c.withInstance name id).table :=
  (confined_insert _ hname).trans (confined_of_instances rfl)

/-- Behind its declaration an instance is in the table, and no other instance has changed but those
that the class body names. -/
theorem Orderly.confined_declareInstance (h : c.Orderly) {line : Int} {name className : String}
    {k : ClassInfo} (hclass : c.table.class? className = some k)
    (hok : declareInstance line name className c = .ok () c') :
    (c'.table.instances.find? name).isSome = true ∧
      c.table.Confined (fun q => q = name ∨ ∃ cmd ∈ k.commands, cmd.target = q) c'.table := by
  obtain ⟨k', c₁, hclass', hsound, hplace, hreplay, rfl⟩ := h.declareInstance_eq_ok hok
  obtain rfl : k = k' := Option.some.inj (hclass.symm.trans hclass')
  have hreplayed := ensures_replay_confined hplace hsound
    (h.recorded.getElem?_of_class? hclass) (fun _ hcmd => hcmd) () c₁ hreplay
  refine ⟨hreplayed.kept name (by simp [withInstance]), ?_⟩
  exact (confined_withInstance (.inl rfl) k.id).trans
    (hreplayed.trans (confined_of_instances rfl))

theorem Orderly.instances_of_handle (h : c.Orderly) {cmd : Command}
    (hcmd : handle cmd c = .ok () c') {q : String}
    (hq : (c.table.instances.find? q).isSome = true) :
    (c'.table.instances.find? q).isSome = true := by
  obtain ⟨hprogram, -, -⟩ := handles_of_handle hcmd h.sound.records
  cases hrecording : c.recording with
  | some id =>
    rw [(retains_of_recording h.recorded hprogram hrecording hcmd).instances]
    exact hq
  | none =>
    by_cases hkind : cmd.kind = .declareInstance
    · rw [handle_eq_declareInstance hprogram hrecording hkind] at hcmd
      obtain ⟨k, -, hclass, -⟩ := h.declareInstance_eq_ok hcmd
      exact (h.confined_declareInstance hclass hcmd).2.kept q hq
    · rw [handle_eq_construct hprogram hrecording hkind, locate_eq_ok] at hcmd
      have heffect := ensures_construct_sound h.sound.table cmd () c' hcmd
      exact (heffect.confined (P := fun _ => True) h.sound.table (fun _ _ => trivial) trivial).kept
        q hq

end Compilation

end MkCompiler
