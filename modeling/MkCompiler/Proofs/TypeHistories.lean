import MkCompiler.Proofs.Effects
import MkCompiler.Proofs.OperandTypes

/-!
# Histories of variables

A variable is declared to hold values of a storage type and is given values from then on. Each time
the storage type differs from the one just before, the variable moves on to a new cell. So the
number of its present cell, the type of this cell and those of all cells before it can be read off
from the types that the variable has come through. A table is charted if it can be, for every
variable.
-/

namespace MkCompiler

namespace DataType

def other : DataType → DataType
  | int => real
  | _ => int

def alternate (first : DataType) : Nat → DataType
  | 0 => first
  | n + 1 => (alternate first n).other

theorem alternate_succ (first : DataType) (n : Nat) :
    first.alternate (n + 1) = first.other.alternate n := by
  induction n with
  | zero => rfl
  | succ n ih => exact congrArg other ih

theorem IsScalar.eq_other {t u : DataType} (ht : t.IsScalar) (hu : u.IsScalar) (h : t ≠ u) :
    u = t.other := by
  rcases ht with rfl | rfl <;> rcases hu with rfl | rfl <;> first | rfl | exact absurd rfl h

/-- How many of the types differ from the one just before. -/
def changes : List DataType → Nat
  | t :: u :: rest => (if t = u then 0 else 1) + changes (u :: rest)
  | _ => 0

theorem changes_concat (types : List DataType) (t u : DataType) :
    changes (types ++ [t, u]) = changes (types ++ [t]) + if t = u then 0 else 1 := by
  induction types with
  | nil => simp [changes]
  | cons t₁ rest ih =>
    cases rest with
    | nil => simp [changes]
    | cons t₂ rest =>
      simp only [List.cons_append, changes] at ih ⊢
      rw [ih, Nat.add_assoc]

/-- Of two types that take turns, the last one is found by counting the changes. -/
theorem alternate_changes {types : List DataType} {first last : DataType}
    (h : ∀ t ∈ types, t.IsScalar) (hfirst : types.head? = some first)
    (hlast : types.getLast? = some last) : first.alternate (changes types) = last := by
  induction types generalizing first with
  | nil => cases hfirst
  | cons t rest ih =>
    cases hfirst
    cases rest with
    | nil => exact Option.some.inj hlast
    | cons u rest =>
      have hrest := ih (fun v hv => h v (List.mem_cons_of_mem _ hv)) rfl (by simpa using hlast)
      rw [changes]
      by_cases heq : t = u
      · rw [if_pos heq, Nat.zero_add, heq]
        exact hrest
      · rw [if_neg heq, Nat.add_comm, alternate_succ,
          ← (h t (by simp)).eq_other (h u (by simp)) heq]
        exact hrest

end DataType

/-! ## Events -/

/-- What happens to the variable at a place. -/
inductive Event where
  /-- It is declared, and can hold values of a storage type. -/
  | declare (x : Place) (type : DataType)
  /-- It is given a value of a storage type, by an assignment or a scan. -/
  | assign (x : Place) (type : DataType)
  deriving DecidableEq, Repr

/-- The storage types that a variable has come through, with one more event. -/
def Event.note (x : Place) (types : List DataType) : Event → List DataType
  | declare y type => if y = x then [type] else types
  | assign y type => if y = x then types ++ [type] else types

/-- The storage types that the variable at a place has come through since it was declared. -/
def history (x : Place) (log : List Event) : List DataType :=
  log.foldl (Event.note x) []

theorem history_concat (x : Place) (log : List Event) (event : Event) :
    history x (log ++ [event]) = event.note x (history x log) := by
  simp [history]

/-- Whether the storage of the variable at a place is told from all other storage by its name. The
slots for the results of methods have names with dots in them. -/
def Place.IsPlain : Place → Prop
  | program _ => True
  | field owner _ => owner ≠ ""
  | slot name => '.' ∉ name.toList

instance (x : Place) : Decidable x.IsPlain :=
  match x with
  | .program _ => inferInstanceAs (Decidable True)
  | .field owner _ => inferInstanceAs (Decidable (owner ≠ ""))
  | .slot name => inferInstanceAs (Decidable ('.' ∉ name.toList))

/-! ## Versions -/

/-- A variable that has come through some storage types, and has some cells. -/
structure Binding.Versioned (b : Binding) (types : List DataType) (cells : List (Int × IrType)) :
    Prop where
  scalar : ∀ t ∈ types, t.IsScalar
  version : b.version = DataType.changes types
  type : types.getLast? = some b.type.storage
  cells : ∃ first, types.head? = some first ∧
    cells = (List.range (DataType.changes types + 1)).map fun n : Nat =>
      ((n : Int), (first.alternate n).irType)

def Binding.addedCells (b : Binding) (type : DataType) : List (Int × IrType) :=
  if b.type.storage = type.storage then [] else [(b.version + 1, type.irType)]

namespace Binding

variable {b : Binding} {types : List DataType} {cells : List (Int × IrType)} {type : DataType}

theorem version_rebound (b : Binding) (type : DataType) :
    (b.rebound type).version = b.version + if b.type.storage = type.storage then 0 else 1 := by
  unfold rebound
  split
  · rw [Int.add_zero]
    split
    · rfl
    · exact version_withVersion _ _ _
  · exact version_withVersion _ _ _

theorem versioned_declare (hversion : b.version = 0) (hlowered : b.type.isLowered = true) :
    b.Versioned [b.type.storage] [(0, b.type.irType)] where
  scalar := by simpa using DataType.isScalar_storage hlowered
  version := hversion
  type := rfl
  cells := ⟨b.type.storage, rfl, by simp [DataType.changes, DataType.alternate]⟩

theorem Versioned.assign (h : b.Versioned types cells) (hlowered : type.isLowered = true) :
    (b.rebound type).Versioned (types ++ [type.storage]) (cells ++ b.addedCells type) := by
  have hscalar : ∀ t ∈ types ++ [type.storage], t.IsScalar := by
    simpa [or_imp, forall_and] using ⟨h.scalar, DataType.isScalar_storage hlowered⟩
  obtain ⟨front, hfront⟩ := List.getLast?_eq_some_iff.mp h.type
  have hchanges : DataType.changes (types ++ [type.storage]) = DataType.changes types +
      if b.type.storage = type.storage then 0 else 1 := by
    rw [hfront, List.append_assoc]
    exact DataType.changes_concat front _ _
  refine ⟨hscalar, ?_, ?_, ?_⟩
  · rw [version_rebound, h.version, hchanges]
    split <;> simp
  · rw [storage_rebound, List.getLast?_concat]
  · obtain ⟨first, hfirst, hcells⟩ := h.cells
    have hfirst' : (types ++ [type.storage]).head? = some first := by simp [hfirst]
    have hlast := DataType.alternate_changes hscalar hfirst' List.getLast?_concat
    refine ⟨first, hfirst', ?_⟩
    rw [hchanges] at hlast ⊢
    rw [hcells, addedCells, h.version]
    split
    · simp
    · next hother =>
      rw [if_neg hother] at hlast
      rw [List.range_succ (n := DataType.changes types + 1), List.map_append, List.map_singleton,
        hlast, DataType.irType_storage]
      rfl

end Binding

namespace SymbolTable

variable {t t' : SymbolTable} {cells cells' : Place → List (Int × IrType)} {log : List Event}
  {x : Place} {b : Binding} {type : DataType}

/-- All variables have come through the storage types that the events tell, and have got their cells
on the way. Nothing else has cells. -/
structure Charted (t : SymbolTable) (cells : Place → List (Int × IrType)) (log : List Event) :
    Prop where
  bound : ∀ x b, x.IsPlain → t.binding? x = some b → b.kind = .variable →
    b.Versioned (history x log) (cells x)
  unbound : ∀ x, x.IsPlain → t.binding? x = none → cells x = []

theorem charted_start : ({} : SymbolTable).Charted (fun _ => []) [] where
  bound := by
    intro x b _ hb
    cases x <;> cases hb
  unbound := fun _ _ _ => rfl

theorem Charted.congr (h : t.Charted cells log)
    (hbinding : ∀ x, x.IsPlain → t'.binding? x = t.binding? x)
    (hcells : ∀ x, x.IsPlain → cells' x = cells x) : t'.Charted cells' log := by
  constructor
  · intro x b hx hb hkind
    rw [hcells x hx]
    exact h.bound x b hx (hbinding x hx ▸ hb) hkind
  · intro x hx hb
    rw [hcells x hx]
    exact h.unbound x hx (hbinding x hx ▸ hb)

theorem Charted.event {event : Event} (h : t.Charted cells log) (hb : t.BindsAt x b t')
    (hevent : ∀ y types, y ≠ x → event.note y types = types)
    (hother : ∀ y, y.IsPlain → y ≠ x → cells' y = cells y)
    (hversioned : x.IsPlain → b.Versioned (event.note x (history x log)) (cells' x)) :
    t'.Charted cells' (log ++ [event]) := by
  constructor
  · intro y b' hy hb' hkind
    rw [hb] at hb'
    rw [history_concat]
    split at hb'
    · next heq =>
      cases hb'
      exact heq ▸ hversioned (heq ▸ hy)
    · next hne =>
      rw [hevent y _ hne, hother y hy hne]
      exact h.bound y b' hy hb' hkind
  · intro y hy hnone
    rw [hb] at hnone
    split at hnone
    · cases hnone
    · next hne =>
      rw [hother y hy hne]
      exact h.unbound y hy hnone

theorem Charted.declare (h : t.Charted cells log) (hb : t.BindsAt x b t')
    (hnew : t.binding? x = none) (hversion : b.version = 0) (hlowered : b.type.isLowered = true)
    (hcells : ∀ y, y.IsPlain → cells' y = cells y ++ if y = x then [(0, b.type.irType)] else []) :
    t'.Charted cells' (log ++ [.declare x b.type.storage]) := by
  apply h.event hb
  · intro y types hne
    exact if_neg (Ne.symm hne)
  · intro y hy hne
    rw [hcells y hy, if_neg hne, List.append_nil]
  · intro hx
    rw [hcells x hx, h.unbound x hx hnew, if_pos rfl, Event.note, if_pos rfl]
    exact Binding.versioned_declare hversion hlowered

theorem Charted.assign (h : t.Charted cells log) (hbound : t.binding? x = some b)
    (hkind : b.kind = .variable) (hb : t.BindsAt x (b.rebound type) t')
    (hlowered : type.isLowered = true)
    (hcells : ∀ y, y.IsPlain → cells' y = cells y ++ if y = x then b.addedCells type else []) :
    t'.Charted cells' (log ++ [.assign x type.storage]) := by
  apply h.event hb
  · intro y types hne
    exact if_neg (Ne.symm hne)
  · intro y hy hne
    rw [hcells y hy, if_neg hne, List.append_nil]
  · intro hx
    rw [hcells x hx, if_pos rfl, Event.note, if_pos rfl]
    exact (h.bound x b hx hbound hkind).assign hlowered

/-- An array is bound, be it where a variable was. -/
theorem Charted.array (h : t.Charted cells log) (hb : t.BindsAt x b t')
    (hkind : b.kind ≠ .variable) : t'.Charted cells log := by
  constructor
  · intro y b' hy hb' hkind'
    rw [hb] at hb'
    split at hb'
    · cases hb'
      exact absurd hkind' hkind
    · exact h.bound y b' hy hb' hkind'
  · intro y hy hnone
    rw [hb] at hnone
    split at hnone
    · cases hnone
    · exact h.unbound y hy hnone

/-- A function is opened or closed. No variables of its own are bound yet, or any more. -/
theorem Charted.scope (h : t.Charted cells log)
    (hbinding : ∀ x, t'.binding? x = if x.isSlot then none else t.binding? x)
    (hcells : ∀ x, cells' x = if x.isSlot then [] else cells x) : t'.Charted cells' log := by
  constructor
  · intro x b hx hb hkind
    rw [hbinding] at hb
    rw [hcells]
    cases hslot : x.isSlot with
    | true => simp [hslot] at hb
    | false =>
      rw [hslot] at hb
      exact h.bound x b hx hb hkind
  · intro x hx hb
    rw [hbinding] at hb
    rw [hcells]
    cases hslot : x.isSlot with
    | true => rfl
    | false =>
      rw [hslot] at hb
      exact h.unbound x hx hb

end SymbolTable

end MkCompiler
