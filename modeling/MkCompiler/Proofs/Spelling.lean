import MkCompiler.RuntimeConfig
import MkCompiler.Proofs.Numerals
import MkCompiler.Proofs.Program

/-!
# Spelling of names

The names of the emitted program are put together from names of the source, versions and symbols of
the runtime. If the names of the source have no dots, the symbols of the runtime keep out of the way
and no version is beyond the words it is spelled with, different names are spelled differently.
-/

namespace MkCompiler

/-- A name of the source. It is not empty and has no dot in it. -/
structure IsIdentifier (name : String) : Prop where
  nonempty : name ≠ ""
  undotted : '.' ∉ name.toList

instance (name : String) : Decidable (IsIdentifier name) :=
  decidable_of_iff (name ≠ "" ∧ '.' ∉ name.toList)
    ⟨fun h => ⟨h.1, h.2⟩, fun h => ⟨h.nonempty, h.undotted⟩⟩

/-! ## Dots -/

/-- Texts without dots are found again in front of the first dot. -/
theorem eq_of_append_dot {a a' b b' : List Char} (ha : '.' ∉ a) (ha' : '.' ∉ a')
    (h : a ++ '.' :: b = a' ++ '.' :: b') : a = a' ∧ b = b' := by
  induction a generalizing a' with
  | nil =>
    cases a' with
    | nil => exact ⟨rfl, List.tail_eq_of_cons_eq h⟩
    | cons c a' =>
      obtain ⟨rfl, -⟩ := List.cons.inj h
      exact absurd (by simp) ha'
  | cons c a ih =>
    cases a' with
    | nil =>
      obtain ⟨rfl, -⟩ := List.cons.inj h
      exact absurd (by simp) ha
    | cons c' a' =>
      simp only [List.mem_cons, not_or] at ha ha'
      obtain ⟨rfl, hrest⟩ := List.cons.inj h
      obtain ⟨rfl, rfl⟩ := ih ha.2 ha'.2 hrest
      exact ⟨rfl, rfl⟩

/-- Texts without dots are found again behind the last dot. -/
theorem eq_of_dot_append {a a' b b' : List Char} (hb : '.' ∉ b) (hb' : '.' ∉ b')
    (h : a ++ '.' :: b = a' ++ '.' :: b') : a = a' ∧ b = b' := by
  have hreverse := congrArg List.reverse h
  simp only [List.reverse_append, List.reverse_cons, List.append_assoc, List.singleton_append]
    at hreverse
  obtain ⟨hb, ha⟩ := eq_of_append_dot (by simpa using hb) (by simpa using hb') hreverse
  exact ⟨List.reverse_injective ha, List.reverse_injective hb⟩

theorem toString_int_inj {v w : Int} (h : toString v = toString w) : v = w := by
  have hv := Numeral.integer?_toString v
  rw [h, Numeral.integer?_toString] at hv
  exact (Option.some.inj hv).symm

/-- An integer is spelled with digits and a sign. -/
theorem mem_toString_int {v : Int} {c : Char} (h : c ∈ (toString v).toList) :
    c = '-' ∨ Numeral.isDigit c = true := by
  rw [Int.toString_eq_repr, Int.repr_eq_if] at h
  split at h
  · exact .inr (Numeral.isDigit_of_mem_toDigits (n := v.toNat) (by simpa using h))
  · simp only [String.toList_append, List.mem_append] at h
    rcases h with h | h
    · exact .inl (by simpa using h)
    · exact .inr (Numeral.isDigit_of_mem_toDigits (n := (-v).toNat) (by simpa using h))

theorem dot_notMem_toString (v : Int) : '.' ∉ (toString v).toList := by
  intro h
  rcases mem_toString_int h with h | h
  · cases h
  · revert h
    decide

theorem versionWord_inj {v w : Int} (hv : 0 ≤ v ∧ v < 2 ^ 64) (hw : 0 ≤ w ∧ w < 2 ^ 64)
    (h : versionWord v = versionWord w) : v = w := by
  have hmod : v % (2 ^ 64 : Nat) = w % (2 ^ 64 : Nat) := by
    rw [← Int.bmod_emod, ← Int.bmod_emod (x := w)]
    exact congrArg (· % ((2 ^ 64 : Nat) : Int)) h
  rwa [Int.emod_eq_of_lt hv.1 (by exact_mod_cast hv.2),
    Int.emod_eq_of_lt hw.1 (by exact_mod_cast hw.2)] at hmod

/-! ## Global names -/

/-- What the names of variables, arrays, functions and methods start with. -/
def stems : List String :=
  ["@var_", "@arr_", "@func_", "@method_"]

/-- The symbols of the runtime are different from one another and from all others. -/
structure RuntimeSymbols.Separate (s : RuntimeSymbols) : Prop where
  nodup : (s.toList.map Prod.snd).Nodup
  entry : "@main" ∉ s.toList.map Prod.snd
  stems : ∀ symbol ∈ s.toList.map Prod.snd, ∀ stem ∈ stems, ¬stem.toList <+: symbol.toList

/-- How the symbols are spelled that a program declares itself. -/
def IsGenerated (text : String) : Prop :=
  text = "@main" ∨ ∃ stem ∈ stems, stem.toList <+: text.toList

theorem RuntimeSymbols.Separate.not_isGenerated {s : RuntimeSymbols} (h : s.Separate)
    {symbol : String} (hsymbol : symbol ∈ s.toList.map Prod.snd) : ¬IsGenerated symbol := by
  rintro (rfl | ⟨stem, hstem, hprefix⟩)
  · exact h.entry hsymbol
  · exact h.stems symbol hsymbol stem hstem hprefix

theorem separate_standard : RuntimeSymbols.standard.Separate where
  nodup := by decide
  entry := by decide
  stems := by decide +kernel

/-- A name that a program declares itself. It is put together from identifiers, and its version is
below a bound. -/
def GlobalName.Regular (bound : Nat) : GlobalName → Prop
  | cell owner name version =>
    (owner = "" ∨ IsIdentifier owner) ∧ IsIdentifier name ∧ 0 ≤ version ∧ version < bound
  | array owner name => (owner = "" ∨ IsIdentifier owner) ∧ IsIdentifier name
  | function _ => True
  | method owner _ => IsIdentifier owner
  | entry => True
  | external _ => False

theorem GlobalName.Regular.mono {n m : Nat} {name : GlobalName} (h : name.Regular n)
    (hle : n ≤ m) : name.Regular m := by
  cases name with
  | cell owner name version =>
    obtain ⟨howner, hname, hnonneg, hlt⟩ := h
    exact ⟨howner, hname, hnonneg, by omega⟩
  | _ => exact h

namespace GlobalName

/-- The owner of a variable can be told from its name. -/
theorem qualified_inj {o o' n n' : String} (ho : o = "" ∨ IsIdentifier o)
    (ho' : o' = "" ∨ IsIdentifier o') (hn : IsIdentifier n) (hn' : IsIdentifier n')
    (h : qualified o n = qualified o' n') : o = o' ∧ n = n' := by
  have hlist := congrArg String.toList h
  unfold qualified at hlist
  rcases ho with rfl | ho <;> rcases ho' with rfl | ho'
  · exact ⟨rfl, by simpa [String.toList_inj] using hlist⟩
  · rw [if_pos rfl, if_neg ho'.nonempty] at hlist
    exact absurd (by simp [hlist]) hn.undotted
  · rw [if_pos rfl, if_neg ho.nonempty] at hlist
    exact absurd (by simp [← hlist]) hn'.undotted
  · rw [if_neg ho.nonempty, if_neg ho'.nonempty] at hlist
    simp only [String.toList_append, List.append_assoc] at hlist
    obtain ⟨ho, hn⟩ := eq_of_append_dot ho.undotted ho'.undotted hlist
    exact ⟨String.toList_inj.mp ho, String.toList_inj.mp hn⟩

/-- Names that the program declares itself start as such names do. -/
theorem isGenerated_spelling {name : GlobalName} (h : name.part ≠ .runtime) :
    IsGenerated name.spelling := by
  have hstem {stem : String} (hstem : stem ∈ stems) (rest : String) : IsGenerated (stem ++ rest) :=
    .inr ⟨stem, hstem, by simp⟩
  cases name with
  | cell owner name version =>
    simp only [spelling, String.append_assoc]
    exact hstem (by simp [stems]) _
  | array owner name => exact hstem (by simp [stems]) _
  | function name => exact hstem (by simp [stems]) _
  | method owner name =>
    simp only [spelling, String.append_assoc]
    exact hstem (by simp [stems]) _
  | entry => exact .inl rfl
  | external symbol => exact absurd rfl h

theorem spelling_inj {a b : GlobalName} (ha : a.Regular (2 ^ 64)) (hb : b.Regular (2 ^ 64))
    (h : a.spelling = b.spelling) : a = b := by
  have hlist := congrArg String.toList h
  cases a with
  | external symbol => exact ha.elim
  | cell o n v =>
    cases b with
    | external symbol => exact hb.elim
    | cell o' n' v' =>
      obtain ⟨ho, hn, hv⟩ := ha
      obtain ⟨ho', hn', hv'⟩ := hb
      simp only [spelling, String.toList_append, List.append_assoc] at hlist
      obtain ⟨hname, hversion⟩ := eq_of_dot_append (dot_notMem_toString _)
        (dot_notMem_toString _) (List.append_cancel_left hlist)
      obtain ⟨rfl, rfl⟩ := qualified_inj ho ho' hn hn' (String.toList_inj.mp hname)
      rw [versionWord_inj hv hv' (toString_int_inj (String.toList_inj.mp hversion))]
    | _ => simp [spelling] at hlist
  | array o n =>
    cases b with
    | external symbol => exact hb.elim
    | array o' n' =>
      simp only [spelling, String.toList_append] at hlist
      have hname := String.toList_inj.mp (List.append_cancel_left hlist)
      obtain ⟨rfl, rfl⟩ := qualified_inj ha.1 hb.1 ha.2 hb.2 hname
      rfl
    | _ => simp [spelling] at hlist
  | function n =>
    cases b with
    | external symbol => exact hb.elim
    | function n' =>
      simp only [spelling, String.toList_append] at hlist
      rw [String.toList_inj.mp (List.append_cancel_left hlist)]
    | _ => simp [spelling] at hlist
  | method o n =>
    cases b with
    | external symbol => exact hb.elim
    | method o' n' =>
      simp only [spelling, String.toList_append, List.append_assoc] at hlist
      obtain ⟨ho, hn⟩ := eq_of_append_dot ha.undotted hb.undotted
        (List.append_cancel_left hlist)
      rw [String.toList_inj.mp ho, String.toList_inj.mp hn]
    | _ => simp [spelling] at hlist
  | entry =>
    cases b with
    | external symbol => exact hb.elim
    | entry => rfl
    | _ => simp [spelling] at hlist

end GlobalName

/-! ## Local names -/

def LocalName.Regular (bound : Nat) : LocalName → Prop
  | number _ => True
  | slot _ version => 0 ≤ version ∧ version < bound

theorem LocalName.Regular.mono {n m : Nat} {name : LocalName} (h : name.Regular n) (hle : n ≤ m) :
    name.Regular m := by
  cases name with
  | number k => trivial
  | slot name version =>
    obtain ⟨hnonneg, hlt⟩ := h
    exact ⟨hnonneg, by omega⟩

theorem LocalName.spelling_inj {a b : LocalName} (ha : a.Regular (2 ^ 64))
    (hb : b.Regular (2 ^ 64)) (h : a.spelling = b.spelling) : a = b := by
  have hlist := congrArg String.toList h
  -- A number starts with a digit or a sign, and a slot with a letter.
  have hnumber (n : Int) (name : List Char) :
      "%".toList ++ (toString n).toList ≠ "%var_".toList ++ name := by
    intro heq
    have hv : 'v' ∈ (toString n).toList := by
      rw [show "%var_".toList = "%".toList ++ "var_".toList from rfl, List.append_assoc] at heq
      rw [List.append_cancel_left heq]
      simp
    rcases mem_toString_int hv with hv | hv
    · cases hv
    · revert hv
      decide
  cases a with
  | number n =>
    cases b with
    | number n' =>
      simp only [spelling, String.toList_append] at hlist
      rw [toString_int_inj (String.toList_inj.mp (List.append_cancel_left hlist))]
    | slot name version =>
      simp only [spelling, String.toList_append, List.append_assoc] at hlist
      exact absurd hlist (hnumber n _)
  | slot name version =>
    cases b with
    | number n =>
      simp only [spelling, String.toList_append, List.append_assoc] at hlist
      exact absurd hlist.symm (hnumber n _)
    | slot name' version' =>
      simp only [spelling, String.toList_append, List.append_assoc] at hlist
      obtain ⟨hname, hversion⟩ := eq_of_dot_append (dot_notMem_toString _)
        (dot_notMem_toString _) (List.append_cancel_left hlist)
      rw [String.toList_inj.mp hname,
        versionWord_inj ha hb (toString_int_inj (String.toList_inj.mp hversion))]

end MkCompiler
