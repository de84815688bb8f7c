/-!
# Scopes

A scope binds names to values. The names are kept in the order in which they were bound first;
binding a name again replaces its value in place.
-/

namespace MkCompiler

structure Scope (α : Type) where
  entries : List (String × α)
  deriving DecidableEq, Repr, Inhabited

namespace Scope

variable {α : Type}

def empty : Scope α :=
  ⟨[]⟩

def names (s : Scope α) : List String :=
  s.entries.map Prod.fst

/-- The value of a name in a list of bindings. -/
def get? (name : String) : List (String × α) → Option α
  | [] => none
  | (n, a) :: rest => if name = n then some a else get? name rest

def find? (s : Scope α) (name : String) : Option α :=
  get? name s.entries

def contains (s : Scope α) (name : String) : Bool :=
  (s.find? name).isSome

/-- Replaces the value of a name in a list of bindings, or adds the binding at its end. -/
def put (name : String) (a : α) : List (String × α) → List (String × α)
  | [] => [(name, a)]
  | (n, b) :: rest => if name = n then (n, a) :: rest else (n, b) :: put name a rest

def insert (s : Scope α) (name : String) (a : α) : Scope α :=
  ⟨put name a s.entries⟩

@[simp]
theorem find?_empty (name : String) : (empty : Scope α).find? name = none := rfl

theorem get?_put (name key : String) (a : α) (l : List (String × α)) :
    get? key (put name a l) = if key = name then some a else get? key l := by
  induction l with
  | nil => rfl
  | cons entry rest ih =>
    obtain ⟨n, b⟩ := entry
    by_cases hn : name = n
    · subst hn
      by_cases h : key = name <;> simp [put, get?, h]
    · by_cases h : key = n
      · subst h
        simp [put, get?, hn, Ne.symm hn]
      · simp [put, get?, hn, h, ih]

@[simp]
theorem find?_insert (s : Scope α) (name key : String) (a : α) :
    (s.insert name a).find? key = if key = name then some a else s.find? key :=
  get?_put name key a s.entries

/-- A value behind an insertion is the new one, under its name, or was there before. -/
theorem find?_insert_eq_some {s : Scope α} {name key : String} {a b : α}
    (h : (s.insert name a).find? key = some b) :
    key = name ∧ b = a ∨ s.find? key = some b := by
  rw [find?_insert] at h
  split at h
  · next heq => exact .inl ⟨heq, (Option.some.inj h).symm⟩
  · exact .inr h

/-- A new name hides nothing. -/
theorem find?_insert_of_new {s : Scope α} {name key : String} {b : α} (hnew : s.find? name = none)
    (h : s.find? key = some b) (a : α) : (s.insert name a).find? key = some b := by
  rw [find?_insert, if_neg, h]
  rintro rfl
  cases hnew.symm.trans h

theorem isSome_find?_insert {s : Scope α} {key : String} (h : (s.find? key).isSome) (name : String)
    (a : α) : ((s.insert name a).find? key).isSome := by
  rw [find?_insert]
  split
  · rfl
  · exact h

end Scope

end MkCompiler
