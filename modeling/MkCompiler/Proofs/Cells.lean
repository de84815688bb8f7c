import Mathlib.Data.Int.ConditionallyCompleteOrder
import MkCompiler.Proofs.Bindings

/-!
# Cells of variables

A variable keeps its cell as long as it holds values of one storage type. When the type changes it
moves on to a new cell, and it never comes back to an old one. So the cell at the end of a stretch of
the program is the one at its beginning exactly if the type has not changed in between.
-/

namespace MkCompiler

open MkCompiler.Action

/-- Where a name can be bound: in the program, in an instance, or in the open function. -/
inductive Place where
  | program (name : String)
  | field (owner name : String)
  | slot (name : String)
  deriving DecidableEq, Repr

def Place.isSlot : Place → Bool
  | slot _ => true
  | _ => false

def SymbolTable.binding? (t : SymbolTable) : Place → Option Binding
  | .program name => (t.globals.find? name).map .global
  | .field owner name =>
    ((t.instances.find? owner).bind fun inst => inst.fields.find? name).map .global
  | .slot name => (t.local? name).map .slot

namespace Binding

def place : Binding → Place
  | global g => if g.inst = "" then .program g.name else .field g.inst g.name
  | slot l => .slot l.name

/-- The storage type of a variable. The storage of an array does not depend on its type. -/
def storageType? (b : Binding) : Option DataType :=
  if b.kind = .variable then some b.type.storage else none

/-- The position of a cell among those of its variable. Arrays come behind all cells. -/
def rank (b : Binding) : WithTop Int :=
  if b.kind = .variable then (b.version : WithTop Int) else ⊤

theorem place_withVersion (b : Binding) (version : Int) (type : DataType) :
    (b.withVersion version type).place = b.place := by
  cases b <;> rfl

theorem kind_withVersion (b : Binding) (version : Int) (type : DataType) :
    (b.withVersion version type).kind = b.kind := by
  cases b <;> rfl

theorem version_withVersion (b : Binding) (version : Int) (type : DataType) :
    (b.withVersion version type).version = version := by
  cases b <;> rfl

theorem type_withVersion (b : Binding) (version : Int) (type : DataType) :
    (b.withVersion version type).type = type := by
  cases b <;> rfl

/-- The cells of one variable are told apart by their position. -/
theorem pointer_eq_iff {b b' : Binding} (h : b'.place = b.place) :
    b'.pointer = b.pointer ↔ b'.rank = b.rank := by
  cases b with
  | slot l =>
    cases b' with
    | slot l' =>
      have hname : l'.name = l.name := Place.slot.inj h
      simp [pointer, rank, kind, version, Local.slot, hname]
    | global g' =>
      dsimp only [place] at h
      split at h <;> cases h
  | global g =>
    cases b' with
    | slot l' =>
      dsimp only [place] at h
      split at h <;> cases h
    | global g' =>
      have hsame : g'.inst = g.inst ∧ g'.name = g.name := by
        dsimp only [place] at h
        split at h <;> split at h <;> simp_all
      simp only [pointer, rank, kind, version, Cell.symbol, hsame.1, hsame.2]
      by_cases hkind : g.kind = .variable <;> by_cases hkind' : g'.kind = .variable <;>
        simp [hkind, hkind']

/-- A binding takes the place of another one: with the same storage and type, or in a later cell and
with another type. -/
structure Advances (b b' : Binding) : Prop where
  place_eq : b'.place = b.place
  moved : b'.rank = b.rank ∧ b'.storageType? = b.storageType? ∨
    b.rank < b'.rank ∧ b'.storageType? ≠ b.storageType?

theorem Advances.refl (b : Binding) : b.Advances b :=
  ⟨rfl, .inl ⟨rfl, rfl⟩⟩

theorem place_rebound (b : Binding) (type : DataType) : (b.rebound type).place = b.place := by
  rcases b.rebound_eq type with heq | ⟨version, heq⟩ <;> rw [heq]
  exact place_withVersion _ _ _

theorem kind_rebound (b : Binding) (type : DataType) : (b.rebound type).kind = b.kind := by
  rcases b.rebound_eq type with heq | ⟨version, heq⟩ <;> rw [heq]
  exact kind_withVersion _ _ _

/-- An assignment stays in the cell or moves on to the next one. -/
theorem advances_rebound {b : Binding} (h : b.kind = .variable) (type : DataType) :
    b.Advances (b.rebound type) := by
  refine ⟨place_rebound b type, ?_⟩
  simp only [rank, storageType?, kind_rebound, h, if_true]
  unfold rebound
  by_cases hsame : b.type.storage = type.storage
  · rw [if_pos hsame]
    split
    · exact .inl ⟨rfl, rfl⟩
    · rw [version_withVersion, type_withVersion, hsame]
      exact .inl ⟨rfl, rfl⟩
  · rw [if_neg hsame, version_withVersion, type_withVersion]
    refine .inr ⟨WithTop.coe_lt_coe.mpr (by omega), ?_⟩
    intro heq
    exact hsame (Option.some.inj heq).symm

theorem advances_array {b b' : Binding} (hplace : b'.place = b.place)
    (hkind : b'.kind ≠ .variable) : b.Advances b' := by
  refine ⟨hplace, ?_⟩
  by_cases h : b.kind = .variable
  · refine .inr ⟨?_, ?_⟩
    · simp [rank, h, hkind]
    · simp [storageType?, h, hkind]
  · exact .inl ⟨by simp [rank, h, hkind], by simp [storageType?, h, hkind]⟩

/-- The scope that a binding is installed in exists. -/
def Scoped (t : SymbolTable) : Binding → Prop
  | slot _ => t.locals.isSome = true
  | global g => g.inst = "" ∨ (t.instances.find? g.inst).isSome = true

end Binding

namespace SymbolTable

variable {t t' t'' : SymbolTable} {x : Place} {b : Binding}

/-! ## Changes of the table -/

/-- Every binding goes on, as long as its scope does. -/
def Follows (t t' : SymbolTable) : Prop :=
  ∀ x b, t.binding? x = some b → (x.isSlot = true → t'.locals.isSome = true) →
    ∃ b', t'.binding? x = some b' ∧ b.Advances b'

/-- No binding changes, and none is lost. -/
structure Extends (t t' : SymbolTable) : Prop where
  bindings : ∀ x b, t.binding? x = some b → t'.binding? x = some b
  locals : t'.locals.isSome = t.locals.isSome

theorem Extends.refl (t : SymbolTable) : t.Extends t :=
  ⟨fun _ _ h => h, rfl⟩

theorem Extends.trans (h : t.Extends t') (h' : t'.Extends t'') : t.Extends t'' :=
  ⟨fun x b hb => h'.bindings x b (h.bindings x b hb), h'.locals.trans h.locals⟩

theorem Extends.comp (h : t.Extends t') (h' : t'.Follows t'') : t.Follows t'' :=
  fun x b hb => h' x b (h.bindings x b hb)

theorem Extends.follows (h : t.Extends t') : t.Follows t' :=
  fun x b hb _ => ⟨b, h.bindings x b hb, .refl b⟩

/-- The table changes at one place only. -/
def BindsAt (t : SymbolTable) (x : Place) (b : Binding) (t' : SymbolTable) : Prop :=
  ∀ y, t'.binding? y = if y = x then some b else t.binding? y

def InstancesNamed (t : SymbolTable) : Prop :=
  ∀ owner inst, t.instances.find? owner = some inst → inst.name = owner

theorem Sound.names {S : Command → Prop} (h : t.Sound S) : t.InstancesNamed :=
  fun owner inst hinst => (h.instances owner inst hinst).1

theorem InstancesNamed.insert (h : t.InstancesNamed) {owner : String} {inst : InstanceInfo}
    (hfound : t.instances.find? owner = some inst) (fields : Scope Global) :
    ({ t with instances := t.instances.insert owner { inst with fields } } :
      SymbolTable).InstancesNamed := by
  intro o i hi
  rcases Scope.find?_insert_eq_some hi with ⟨rfl, rfl⟩ | hold
  · exact h _ inst hfound
  · exact h o i hold

/-- Names are bound to variables and arrays at their own places. Only the fields of an instance
without a name, which are arrays, belong elsewhere. -/
structure Keyed (t : SymbolTable) : Prop where
  kinds : ∀ x b, t.binding? x = some b → b.kind = .array ∨ b.kind = .variable
  places : ∀ x b, t.binding? x = some b →
    b.place = x ∨ b.kind = .array ∧ ∃ name, x = .field "" name
  names : t.InstancesNamed

theorem keyed_start : ({} : SymbolTable).Keyed where
  kinds := by
    intro x b hb
    cases x <;> cases hb
  places := by
    intro x b hb
    cases x <;> cases hb
  names := by
    intro owner inst h
    cases h

theorem Keyed.place_eq_of_variable (h : t.Keyed) (hb : t.binding? x = some b)
    (hkind : b.kind = .variable) : b.place = x := by
  rcases h.places x b hb with hplace | ⟨harray, -⟩
  · exact hplace
  · rw [hkind] at harray
    cases harray

theorem Keyed.place_eq {b' : Binding} (h : t.Keyed) (hb : t.binding? b'.place = some b) :
    b.place = b'.place := by
  rcases h.places _ b hb with hplace | ⟨-, name, hfield⟩
  · exact hplace
  · cases b' with
    | slot l => cases hfield
    | global g =>
      unfold Binding.place at hfield
      dsimp only at hfield
      split at hfield
      · cases hfield
      · next hinst => exact absurd (Place.field.inj hfield).1 hinst

theorem isSome_locals_of_binding? (hslot : x.isSlot = true) (h : t.binding? x = some b) :
    t.locals.isSome = true := by
  cases x with
  | slot name =>
    obtain ⟨l, hl, -⟩ := Option.map_eq_some_iff.mp h
    obtain ⟨locals, hlocals, -⟩ := Option.bind_eq_some_iff.mp hl
    simp [hlocals]
  | _ => cases hslot

theorem has_of_binding? (h : t.binding? x = some b) : t.Has b := by
  cases x with
  | slot name =>
    obtain ⟨l, hl, rfl⟩ := Option.map_eq_some_iff.mp h
    obtain ⟨locals, hlocals, hl⟩ := Option.bind_eq_some_iff.mp hl
    exact .slot hlocals hl
  | program name =>
    obtain ⟨g, hg, rfl⟩ := Option.map_eq_some_iff.mp h
    exact .global hg
  | field owner name =>
    obtain ⟨g, hg, rfl⟩ := Option.map_eq_some_iff.mp h
    obtain ⟨inst, hinst, hg⟩ := Option.bind_eq_some_iff.mp hg
    exact .field hinst hg

theorem scoped_of_binding? (h : (t.binding? b.place).isSome = true) : b.Scoped t := by
  cases b with
  | slot l =>
    obtain ⟨b', hb'⟩ := Option.isSome_iff_exists.mp h
    exact isSome_locals_of_binding? rfl hb'
  | global g =>
    by_cases hinst : g.inst = ""
    · exact .inl hinst
    · rw [Binding.place, if_neg hinst] at h
      obtain ⟨b', hb'⟩ := Option.isSome_iff_exists.mp h
      obtain ⟨g', hg', -⟩ := Option.map_eq_some_iff.mp hb'
      obtain ⟨inst, hfound, -⟩ := Option.bind_eq_some_iff.mp hg'
      exact .inr (by simp [hfound])

theorem binding?_insertField {owner : String} {inst : InstanceInfo}
    (hfound : t.instances.find? owner = some inst) (g : Global) (x : Place) :
    ({ t with instances := t.instances.insert owner { inst with
      fields := inst.fields.insert g.name g } } : SymbolTable).binding? x =
        if x = .field owner g.name then some (.global g) else t.binding? x := by
  cases x with
  | field o n =>
    by_cases ho : o = owner
    · subst ho
      by_cases hn : n = g.name <;> simp [binding?, hn, hfound]
    · simp [binding?, ho]
  | _ => rfl

/-- A binding is installed at its own place, and nowhere else. -/
theorem binding?_install (h : b.Scoped t) (x : Place) :
    (t.install b).binding? x = if x = b.place then some b else t.binding? x := by
  cases b with
  | slot l =>
    cases x with
    | slot name =>
      rw [binding?, local?_install_slot h]
      by_cases hname : name = l.name <;> simp [Binding.place, hname, binding?]
    | _ => rfl
  | global g =>
    by_cases hinst : g.inst = ""
    · have hinstall : t.install (.global g) = { t with globals := t.globals.insert g.name g } := by
        simp [install, hinst]
      rw [hinstall, Binding.place, if_pos hinst]
      cases x with
      | program name => by_cases hname : name = g.name <;> simp [binding?, hname]
      | _ => rfl
    · obtain ⟨inst, hfound⟩ := Option.isSome_iff_exists.mp (h.resolve_left hinst)
      rw [install_field hinst hfound, Binding.place, if_neg hinst]
      exact binding?_insertField hfound g x

theorem follows_install (h : b.Scoped t)
    (hb : ∀ b₀, t.binding? b.place = some b₀ → b₀.Advances b) : t.Follows (t.install b) := by
  intro x b₀ hb₀ _
  by_cases hx : x = b.place
  · subst hx
    exact ⟨b, by rw [binding?_install h, if_pos rfl], hb b₀ hb₀⟩
  · exact ⟨b₀, by rw [binding?_install h, if_neg hx]; exact hb₀, .refl b₀⟩

/-- A variable or an array is bound at a place that it can stand at. -/
theorem Keyed.bind (hk : t.Keyed) (h : t.BindsAt x b t')
    (hkind : b.kind = .array ∨ b.kind = .variable)
    (hplace : b.place = x ∨ b.kind = .array ∧ ∃ name, x = .field "" name)
    (hnames : t'.InstancesNamed) : t'.Keyed := by
  refine ⟨?_, ?_, hnames⟩
  · intro y b' hb'
    rw [h] at hb'
    split at hb'
    · cases hb'
      exact hkind
    · exact hk.kinds y b' hb'
  · intro y b' hb'
    rw [h] at hb'
    split at hb'
    · next hy =>
      cases hb'
      rw [hy]
      exact hplace
    · exact hk.places y b' hb'

theorem InstancesNamed.install (h : t.InstancesNamed) (b : Binding) :
    (t.install b).InstancesNamed := by
  cases b with
  | slot l => exact h
  | global g =>
    unfold SymbolTable.install
    dsimp only
    split
    · exact h
    · split
      · exact h
      · next hfound => exact h.insert hfound _

theorem Keyed.install (hk : t.Keyed) (h : b.Scoped t)
    (hkind : b.kind = .array ∨ b.kind = .variable) : (t.install b).Keyed :=
  hk.bind (binding?_install h) hkind (.inl rfl) (hk.names.install b)

/-- What a name stands for is bound somewhere, and among the fields only of the current instance. -/
theorem exists_binding?_of_resolve? {name : String} (h : t.resolve? name = some b) :
    ∃ x, t.binding? x = some b ∧ ∀ owner field, x = .field owner field → t.current = some owner := by
  unfold resolve? at h
  split at h
  · next l hl =>
    cases h
    exact ⟨.slot name, by simp [binding?, local?, hl], by simp⟩
  · split at h
    · next g hg =>
      cases h
      unfold currentFields at hg
      split at hg
      · next inst hinst =>
        obtain ⟨owner, hcurrent, howner⟩ := Option.bind_eq_some_iff.mp hinst
        refine ⟨.field owner name, by simp [binding?, howner, hg], ?_⟩
        rintro o _ ⟨⟩
        exact hcurrent
      · cases hg
    · exact ⟨.program name, h, by simp⟩

end SymbolTable

end MkCompiler
