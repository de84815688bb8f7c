import MkCompiler.Proofs.Effects
import MkCompiler.Proofs.Recorder

/-!
# Fields of instances

Once a field of an instance is declared, it stays a variable or an array of that instance and of its
class. An assignment moves it on to another version at most, so that the outline of the instance, in
which neither versions nor types occur, does not change any more. Only declarations in the body of
the class add to it.
-/

namespace MkCompiler

open MkCompiler.Action

/-- A name, whether it stands for a variable or an array, and whom that belongs to. -/
structure FieldOutline where
  name : String
  kind : ObjectKind
  inst : String
  classId : Int
  deriving DecidableEq, Repr

def Global.outline (name : String) (g : Global) : FieldOutline :=
  ⟨name, g.kind, g.inst, g.classId⟩

def InstanceInfo.outline (inst : InstanceInfo) : List FieldOutline :=
  inst.fields.entries.map fun e => e.2.outline e.1

theorem Scope.map_put {α β : Type} {f : String × α → β} {name : String} {a b : α}
    {l : List (String × α)} (h : get? name l = some a) (hf : f (name, b) = f (name, a)) :
    (put name b l).map f = l.map f := by
  induction l with
  | nil => cases h
  | cons entry rest ih =>
    obtain ⟨n, a'⟩ := entry
    by_cases hn : name = n
    · subst hn
      simp only [get?, if_true, Option.some.injEq] at h
      simp [put, hf, h]
    · simp only [get?, if_neg hn] at h
      simp [put, hn, ih h]

namespace SymbolTable

variable {t t' : SymbolTable} {S : Command → Prop} {inside : Bool} {cmd : Command}

def outline? (t : SymbolTable) (owner : String) : Option (List FieldOutline) :=
  (t.instances.find? owner).map InstanceInfo.outline

def SameOutlines (t t' : SymbolTable) : Prop :=
  t'.outline? = t.outline?

theorem sameOutlines_of_instances (h : t'.instances = t.instances) : t.SameOutlines t' := by
  unfold SameOutlines outline?
  rw [h]

/-- A binding that belongs to no instance, or takes the place of a field of its own outline. -/
def Fits (t : SymbolTable) : Binding → Prop
  | .slot _ => True
  | .global g => g.inst = "" ∨ ∃ inst g₀, t.instances.find? g.inst = some inst ∧
      inst.fields.find? g.name = some g₀ ∧ g₀.outline g.name = g.outline g.name

theorem sameOutlines_install {b : Binding} (h : t.Fits b) : t.SameOutlines (t.install b) := by
  cases b with
  | slot l => exact sameOutlines_of_instances rfl
  | global g =>
    rcases h with hinst | ⟨inst, g₀, hfound, hfield, houtline⟩
    · apply sameOutlines_of_instances
      simp [install, hinst]
    · by_cases hinst : g.inst = ""
      · apply sameOutlines_of_instances
        simp [install, hinst]
      · funext owner
        rw [install_field hinst hfound, outline?, outline?]
        dsimp only
        rw [Scope.find?_insert]
        split
        · next howner =>
          rw [howner, hfound]
          exact congrArg some (Scope.map_put (f := fun e : String × Global => e.2.outline e.1)
            hfield houtline.symm)
        · rfl

theorem Fits.rebound {b : Binding} (h : t.Fits b) (type : DataType) : t.Fits (b.rebound type) := by
  rcases b.rebound_eq type with heq | ⟨version, heq⟩ <;> rw [heq]
  · exact h
  · cases b <;> exact h

theorem Sound.fits (h : t.Sound S) {x : Place} {b : Binding} (hb : t.binding? x = some b) :
    t.Fits b := by
  cases has_of_binding? hb with
  | slot => trivial
  | @global name g hg => exact .inl (h.globals name g hg).inst_eq
  | @field owner name inst g hinst hg =>
    have hbelongs := h.fields owner inst hinst name g hg
    right
    rw [hbelongs.inst_eq, hbelongs.name_eq]
    exact ⟨inst, g, hinst, hg, rfl⟩

/-- Only variables and arrays that are declared outside of functions change an outline. -/
theorem Effect.sameOutlines (h : t.Effect inside cmd t') (ht : t.Sound S)
    (hkind : cmd.kind ∈ [.declareVariable, .declareArray] → inside = true) :
    t.SameOutlines t' := by
  cases h with
  | quiet _ hsame => exact sameOutlines_of_instances hsame.instances
  | assign _ hb _ _ type => exact sameOutlines_install ((ht.fits hb).rebound type)
  | declare h hdeclares _ _ =>
    cases hkind (by simp [h])
    cases hdeclares
    exact sameOutlines_of_instances rfl
  | array h hdeclares _ _ =>
    cases hkind (by simp [h])
    cases hdeclares
  | enter _ _ hsame hlocals =>
    exact sameOutlines_of_instances ((extends_locals hlocals).2.2.1.trans hsame.instances)
  | leave _ => exact sameOutlines_of_instances rfl

theorem Declares.outline?_eq {g : Global} {owner : String} {inst : InstanceInfo}
    (h : t.Declares false (.global g) t') (hcurrent : t.current = some owner)
    (hinst : t.instances.find? owner = some inst) :
    t'.outline? owner = (t.outline? owner).map (· ++ [⟨g.name, g.kind, owner, inst.classId⟩]) ∧
      t'.Fits (.global g) := by
  cases h with
  | @field _ inst' hcurrent' hinst' hclass hnew =>
    obtain rfl : g.inst = owner := Option.some.inj (hcurrent'.symm.trans hcurrent)
    obtain rfl : inst' = inst := Option.some.inj (hinst'.symm.trans hinst)
    constructor
    · simp only [outline?, Scope.find?_insert, if_true, hinst, Option.map_some, Option.some.injEq]
      simp [InstanceInfo.outline, Scope.entries_insert_of_find?_eq_none hnew, Global.outline, hclass]
    · exact .inr ⟨{ inst' with fields := inst'.fields.insert g.name g }, g, by simp, by simp, rfl⟩
  | program hprogram =>
    rw [instance?, hcurrent, Option.bind_some, hinst] at hprogram
    cases hprogram

/-- The outline of an instance grows by what is declared in it. -/
theorem Effect.outline?_eq {owner : String} {inst : InstanceInfo} {id : Nat} {name : String}
    {g : Global} (h : t.Effect false cmd t') (hcurrent : t.current = some owner)
    (hinst : t.instances.find? owner = some inst) (hg : cmd.field? id = some (name, g)) :
    t'.outline? owner =
      (t.outline? owner).map (· ++ [⟨cmd.name, g.kind, owner, inst.classId⟩]) := by
  cases h with
  | @declare b _ hkind hdeclares hvariable hname =>
    rw [Command.field?, hkind] at hg
    cases hg
    cases b with
    | slot l => cases hdeclares
    | global g =>
      have hkind : g.kind = .variable := hvariable
      rw [← hname, (hdeclares.outline?_eq hcurrent hinst).1, hkind]
      rfl
  | array hkind hdeclares harray hname =>
    rw [Command.field?, hkind] at hg
    cases hg
    obtain ⟨houtline, hfits⟩ := hdeclares.outline?_eq hcurrent hinst
    rw [congrFun (sameOutlines_install hfits) owner, houtline, hname, harray]
    rfl
  | quiet hkind _ =>
    rw [Command.field?] at hg
    split at hg <;> simp_all
  | assign hkind _ _ _ _ =>
    rw [Command.field?] at hg
    split at hg <;> simp_all
  | enter hkind _ _ _ =>
    rw [Command.field?, hkind] at hg
    cases hg
  | leave hkind =>
    rw [Command.field?, hkind] at hg
    cases hg

end SymbolTable

namespace Compilation

open SymbolTable

variable {S : Command → Prop} {c c' : Compilation}

/-- What a notification makes of the scopes of a table that was built by a compilation. -/
theorem ensures_construct_sound (ht : c.table.Sound S) (cmd : Command) :
    Ensures (construct cmd) c fun _ c' => c.table.Effect c.emitter.inFunction cmd c'.table := by
  apply ensures_construct_effect ?_ ht.names
  intro x b hb
  exact (ht.in_of_has (has_of_binding? hb)).kind

end Compilation

end MkCompiler
