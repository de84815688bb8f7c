import MkCompiler.Proofs.Effects

/-!
# Declarations in class bodies

What a method, an array or a variable of a class body can be refused for when the body is run for an
instance. In its place and under a new name it is not refused for a mistake that recording finds; and
it is refused for the types, the lengths and the names that it declares exactly if it is an array of
another type than the numbers or without a length, a method two of whose parameters have one name,
or a variable of a method that has a local of that name.
-/

namespace MkCompiler

open MkCompiler.Action

/-- Mistakes in what a declaration says: a name that is taken, a type or a length that cannot be. -/
def Violation.isOfDeclaration : Violation → Bool
  | .notScalar _ _ _ | .returnTypeNotScalar _ | .parameterNotScalar _ _ | .unsupportedArray _
  | .arrayWithoutLength _ => true
  | v => v.kind == .duplicateDeclaration

def Failure.isOfDeclaration : Failure → Bool
  | .rejected v => v.isOfDeclaration
  | _ => false

/-- What is wrong with a value is neither said by a declaration nor found by recording. -/
theorem reports_values : Reports fun f => f.isSettled = false ∧ f.isOfDeclaration = false := by
  intro v hv
  cases v <;> first | exact ⟨rfl, rfl⟩ | cases hv

namespace Action

variable {σ α β : Type} {p : Prop} {x : Action σ α} {s : σ}

/-- If the run from `s` fails, recording could not have found that. If it is refused, it is refused for
what is declared exactly if `p` holds. -/
abbrev RefusesFor (p : Prop) (x : Action σ α) (s : σ) : Prop :=
  Ends x s (fun _ _ => True) fun f _ =>
    f.isSettled = false ∧ ∀ v, f = .rejected v → (v.isOfDeclaration = true ↔ p)

theorem RefusesFor.bind {f : α → Action σ β} {Q : α → σ → Prop} (hx : RefusesFor p x s)
    (hq : Ensures x s Q) (hf : ∀ a s', Q a s' → RefusesFor p (f a) s') :
    RefusesFor p (x >>= f) s := by
  rw [RefusesFor, ends_bind]
  apply (Ends.ensures hx hq).mono
  · intro a s' h
    exact hf a s' h.2
  · intro _ _ h
    exact h

theorem refusesFor_of_keeps {P P' : σ → Prop}
    (hx : Keeps P P' (fun f => f.isSettled = false ∧ f.isOfDeclaration = false) x) (hs : P s)
    (hp : ¬p) : RefusesFor p x s := by
  apply (hx s hs).mono
  · intro _ _ _
    trivial
  · rintro _ _ ⟨⟨hsettled, hf⟩, -⟩
    refine ⟨hsettled, ?_⟩
    rintro v rfl
    have hv : v.isOfDeclaration = false := hf
    simp [hv, hp]

theorem refusesFor_rejected {v : Violation} (hsettled : v.isSettled = false)
    (hv : v.isOfDeclaration = true) (hp : p) : Failure.isSettled (.rejected v) = false ∧
      ∀ w, Failure.rejected v = .rejected w → (w.isOfDeclaration = true ↔ p) := by
  refine ⟨hsettled, ?_⟩
  rintro w ⟨⟩
  exact ⟨fun _ => hp, fun _ => hv⟩

end Action

/-! ## The names of a function -/

namespace SymbolTable

variable {inside : Bool} {t t' : SymbolTable}

def localNames (t : SymbolTable) : Option (List String) :=
  t.locals.map Scope.names

theorem localNames_install_global (t : SymbolTable) (g : Global) :
    (t.install (.global g)).localNames = t.localNames := by
  unfold install
  dsimp only
  split
  · rfl
  · split <;> rfl

theorem local?_eq_none_iff {names : List String} (h : t.localNames = some names) (name : String) :
    t.local? name = none ↔ name ∉ names := by
  obtain ⟨locals, hlocals, rfl⟩ := Option.map_eq_some_iff.mp h
  rw [local?, hlocals, Option.bind_some]
  exact ⟨Scope.not_mem_of_get?_eq_none, Scope.find?_eq_none_of_not_mem⟩

theorem localNames_install_slot {l : Local} {names : List String} (h : t.localNames = some names)
    (hnew : l.name ∉ names) : (t.install (.slot l)).localNames = some (names ++ [l.name]) := by
  have hnone := (local?_eq_none_iff h l.name).mpr hnew
  obtain ⟨locals, hlocals, rfl⟩ := Option.map_eq_some_iff.mp h
  rw [local?, hlocals, Option.bind_some] at hnone
  simp [localNames, install, hlocals, Scope.names_insert_of_find?_eq_none hnone]

theorem ends_declareLocal_names {l : Local} {names : List String} (h : t.localNames = some names) :
    Ends (declareLocal l) t (fun _ t' => l.name ∉ names ∧ t' = t.install (.slot l))
      fun f _ => f = .rejected (.localExists l.name) ∧ l.name ∈ names := by
  have hiff := local?_eq_none_iff h l.name
  obtain ⟨locals, hlocals, -⟩ := Option.map_eq_some_iff.mp h
  rw [local?, hlocals, Option.bind_some] at hiff
  rw [declareLocal, ends_bind, ends_get, hlocals]
  dsimp only
  rw [ends_bind, ends_require, Option.isNone_iff_eq_none, hiff]
  refine ⟨fun hnew => ⟨hnew, ?_⟩, fun hmem => ⟨rfl, of_not_not hmem⟩⟩
  simp [install, hlocals]

theorem Declares.not_mem_localNames {b : Binding} (h : t.Declares inside b t')
    (hinside : t.locals.isSome = inside) {names : List String} (hnames : t.localNames = some names) :
    b.name ∉ names := by
  have hopen (houtside : inside = false) : b.name ∉ names := by
    have hnone : t.locals = none := by simpa [houtside] using hinside
    simp [localNames, hnone] at hnames
  cases h with
  | slot _ hnew => exact (local?_eq_none_iff hnames _).mp hnew
  | field => exact hopen rfl
  | program => exact hopen rfl

end SymbolTable

namespace Compilation

open SymbolTable

variable {p : Prop} {S : Command → Prop} {owner : Option (String × Nat)} {orderly : Prop}
  {c : Compilation} {inst : InstanceInfo}

/-! ## Variables -/

theorem refusesFor_declareField {t : SymbolTable} (hinst : t.instance? = some inst) {g : Global}
    (hnew : inst.fields.find? g.name = none) : RefusesFor p (SymbolTable.declareField g) t := by
  obtain ⟨o, hcurrent, hfound⟩ := Option.bind_eq_some_iff.mp hinst
  rw [SymbolTable.declareField, RefusesFor, ends_bind, ends_get, hcurrent]
  dsimp only
  rw [hfound]
  dsimp only
  rw [ends_bind, ends_require, hnew]
  exact ⟨fun _ => trivial, fun h => absurd rfl h⟩

theorem refusesFor_rebind (b : Binding) (c : Compilation) :
    RefusesFor p (onTable (SymbolTable.rebind b)) c := by
  have hfault (cause : Fault) : Failure.isSettled (.fault cause) = false ∧
      ∀ v, Failure.fault cause = .rejected v → (v.isOfDeclaration = true ↔ p) :=
    ⟨rfl, by rintro v ⟨⟩⟩
  rw [RefusesFor, onTable, ends_zoom, SymbolTable.rebind, ends_bind, ends_get]
  cases b with
  | slot l =>
    dsimp only
    split
    · exact ends_throw.mpr (hfault _)
    · trivial
  | global g =>
    dsimp only
    rw [ends_ite]
    refine ⟨fun _ => trivial, fun _ => ?_⟩
    split
    · exact ends_throw.mpr (hfault _)
    · trivial

/-- A variable of an instance or of one of its methods is refused for what it declares if a local of
the open method has its name. -/
theorem refusesFor_declareScalar {finished : Bool}
    (he : c.emitter.Steady c.table.locals.isSome finished) (hinst : c.table.instance? = some inst)
    {name : String} (hnew : c.emitter.inFunction = false → inst.fields.find? name = none)
    (type : DataType) : RefusesFor (∃ names, c.table.localNames = some names ∧ name ∈ names)
      (declareScalar name type) c := by
  rw [declareScalar, RefusesFor, ends_bind, ends_get, ends_ite]
  constructor
  · intro hinside
    have hlocals : c.table.locals.isSome = true := he.inside.symm.trans hinside
    obtain ⟨locals, hsome⟩ := Option.isSome_iff_exists.mp hlocals
    have hnames : c.table.localNames = some locals.names := by
      rw [localNames, hsome]
      rfl
    have hstorable : (Binding.slot ⟨name, type, 0⟩).Storable c.table.locals.isSome := hlocals
    rw [ends_bind, onTable, ends_zoom]
    apply (ends_declareLocal_names hnames).mono
    · rintro _ _ ⟨hnew, -⟩
      rw [ends_bind, onEmitter, ends_zoom]
      apply refusesFor_of_keeps (Emitter.keeps_declareStorage reports_values hstorable true) he
      rintro ⟨names, hnames', hmem⟩
      obtain rfl := Option.some.inj (hnames.symm.trans hnames')
      exact hnew hmem
    · rintro _ _ ⟨rfl, hmem⟩
      exact refusesFor_rejected rfl rfl ⟨_, hnames, hmem⟩
  · intro houtside
    have hnone : ¬∃ names, c.table.localNames = some names ∧ name ∈ names := by
      rintro ⟨names, hnames, -⟩
      obtain ⟨locals, hlocals, -⟩ := Option.map_eq_some_iff.mp hnames
      have hinside := he.inside
      rw [hlocals] at hinside
      exact houtside hinside
    rw [hinst]
    dsimp only
    rw [ends_bind, onTable, ends_zoom]
    apply (refusesFor_declareField hinst (hnew (by simpa using houtside))).mono
    · intro _ _ _
      rw [ends_bind, onEmitter, ends_zoom]
      by_cases hempty : inst.name = ""
      · have hrun := Emitter.declareField_unowned (g := { (Global.ofVariable name type).forInstance
          inst.name with classId := inst.classId }) hempty c.emitter
        exact (ends_of_error hrun).mpr ⟨rfl, by rintro v ⟨⟩⟩
      · rw [Emitter.declareField_owned hempty]
        exact refusesFor_of_keeps (Emitter.keeps_declareVariable reports_values rfl) he hnone
    · exact fun _ _ hf => hf

theorem refusesFor_declareVariable (h : c.Sound S owner orderly)
    (hinst : c.table.instance? = some inst) {name : String}
    (hnew : c.emitter.inFunction = false → inst.fields.find? name = none) (hasInit : Bool) :
    RefusesFor (∃ names, c.table.localNames = some names ∧ name ∈ names)
      (declareVariable name hasInit) c := by
  rw [declareVariable, RefusesFor, ends_ite]
  constructor
  · intro _
    rw [ends_bind, pop, ends_bind, ends_get]
    cases hstack : c.stack with
    | nil => exact ends_throw.mpr ⟨rfl, by rintro v ⟨⟩⟩
    | cons value stack =>
      rw [ends_bind, ends_set, ends_pure]
      have hall := h.stack
      rw [hstack] at hall
      obtain ⟨hvalue, htyped⟩ := hall value (List.mem_cons_self ..)
      have h₁ := h.withStack fun op hop => hall op (List.mem_cons_of_mem _ hop)
      apply (refusesFor_declareScalar h₁.emitter hinst hnew value.type).bind (Q := fun b c₂ =>
        (¬∃ names, c.table.localNames = some names ∧ name ∈ names) ∧
          c₂.table.Has b ∧ c₂.Sound S owner orderly)
      · intro b c₂ hok
        obtain ⟨t, e, hdeclares, ⟨rfl, -⟩, -, rfl⟩ :=
          ensures_declareScalar h₁.table.names name value.type b c₂ hok
        refine ⟨?_, (ends_declareScalar continues_trivial h₁ htyped.isLowered
          (Q := fun b c₂ => c₂.table.Has b ∧ c₂.Sound S owner orderly)
          (fun _ _ _ _ => trivial) fun b t e hb h₂ => ⟨hb, h₂⟩).of_ok hok⟩
        rintro ⟨names, hnames, hmem⟩
        exact hdeclares.not_mem_localNames h₁.emitter.inside.symm hnames hmem
      rintro b c₂ ⟨hp, hb, h₂⟩
      rw [assignTo, RefusesFor, ends_bind, onEmitter, ends_zoom]
      apply (refusesFor_of_keeps (Emitter.keeps_assign reports_values
        (h₂.table.in_of_has hb).assignable hvalue) h₂.emitter hp).mono
      · intro next e _
        exact refusesFor_rebind next _
      · exact fun _ _ hf => hf
  · intro _
    exact (refusesFor_declareScalar h.emitter hinst hnew _).bind (Q := fun _ _ => True)
      (fun _ _ _ => trivial) fun _ _ _ => trivial

/-! ## Arrays -/

/-- An array is refused for what it declares because of its type or its length. -/
theorem refusesFor_declareArray (h : c.Sound S owner orderly) (hinst : c.table.instance? = some inst)
    (houtside : c.emitter.inFunction = false) {array : String}
    (hnew : inst.fields.find? array = none) (type : DataType) (length count : Int) :
    RefusesFor (¬type.IsScalar ∨ length < 0 ∨ length = 0 ∧ count = 0)
      (declareArray array type length count) c := by
  have hpop : RefusesFor (¬type.IsScalar ∨ length < 0 ∨ length = 0 ∧ count = 0)
      (popMany count) c := by
    rw [RefusesFor, popMany, ends_bind, ends_get, ends_ite]
    refine ⟨fun _ => ends_throw.mpr ⟨rfl, by rintro v ⟨⟩⟩, fun _ => ?_⟩
    rw [ends_ite]
    refine ⟨fun _ => trivial, fun _ => ?_⟩
    rw [ends_ite]
    exact ⟨fun _ => ends_throw.mpr ⟨rfl, by rintro v ⟨⟩⟩, fun _ => ⟨rfl, by rintro v ⟨⟩⟩⟩
  have hlocals : c.table.locals.isSome = false := h.emitter.inside.symm.trans houtside
  apply hpop.bind (ensures_popMany count c)
  rintro elements _ ⟨hcount, helements, rfl⟩
  rw [RefusesFor, ends_bind, requireOutside, ends_bind, ends_get, if_neg (by simp [houtside]),
    ends_pure, ends_bind, requireScalar, ends_require]
  refine ⟨fun hscalar => ?_, fun hscalar => refusesFor_rejected rfl rfl (.inl hscalar)⟩
  rw [ends_bind, ends_require]
  refine ⟨fun hlength => ?_, fun hlength => refusesFor_rejected rfl rfl (.inr (.inl (by omega)))⟩
  rw [ends_bind, ends_get, hinst]
  dsimp only
  rw [ends_bind, onTable, ends_zoom]
  apply (refusesFor_declareField hinst hnew).mono
  · intro _ _ _
    rw [ends_bind, onEmitter, ends_zoom]
    have hlowered : type.isLowered = true := DataType.IsScalar.isLowered hscalar
    have hemitter {declared : Global} {n : Int} (htype : declared.type = type)
        (hn : n = if length = 0 then (elements.length : Int) else length) :
        RefusesFor (¬type.IsScalar ∨ length < 0 ∨ length = 0 ∧ count = 0)
          (Emitter.declareArray declared n elements) c.emitter := by
      by_cases hempty : length = 0 ∧ count = 0
      · have hfunction : c.emitter.function = none := by simpa [Emitter.inFunction] using houtside
        rw [Emitter.declareArray, RefusesFor, ends_bind, ends_get, hfunction]
        dsimp only
        rw [ends_bind, ends_require]
        refine ⟨fun _ => ?_, fun hnot => absurd (htype ▸ hlowered) hnot⟩
        rw [ends_bind, ends_require]
        refine ⟨fun hpositive => ?_, fun _ => refusesFor_rejected rfl rfl (.inr (.inr hempty))⟩
        rw [hn, if_pos hempty.1] at hpositive
        split at hpositive <;> omega
      · have hproper : ∀ op ∈ elements, op.Proper := by
          intro op hop
          rw [helements] at hop
          exact (h.stack op (List.mem_of_mem_take (List.mem_reverse.mp hop))).1
        refine refusesFor_of_keeps (Emitter.keeps_declareArray reports_values hproper
          (.inr ⟨hlocals, htype ▸ hlowered, ?_⟩)) h.emitter ?_
        · rw [hn]
          split <;> omega
        · rintro (hnot | hnegative | hzero)
          · exact hnot hscalar
          · omega
          · exact hempty hzero
    apply (hemitter rfl rfl).mono
    · intro declared _ _
      exact refusesFor_rebind _ _
    · exact fun _ _ hf => hf
  · exact fun _ _ hf => hf

/-! ## Methods -/

/-- Locals are declared if their names differ from each other and from those that there are. -/
theorem ends_declareLocals_names (names : List String) (locals : List Local) (hnodup : names.Nodup)
    (h : c.table.localNames = some names) : Ends (declareLocals locals) c
      (fun _ c' => (names ++ locals.map Local.name).Nodup ∧
        c'.table.localNames = some (names ++ locals.map Local.name))
      fun f _ => ∃ l, f = .rejected (.localExists l) ∧ ¬(names ++ locals.map Local.name).Nodup := by
  induction locals generalizing c names with
  | nil => simpa [declareLocals] using ⟨hnodup, h⟩
  | cons l rest ih =>
    rw [declareLocals, ends_bind, onTable, ends_zoom]
    apply (ends_declareLocal_names h).mono
    · rintro _ _ ⟨hnew, rfl⟩
      have hnodup' : (names ++ [l.name]).Nodup :=
        List.nodup_append.mpr ⟨hnodup, by simp, by grind⟩
      have hrest := ih (c := { c with table := c.table.install (.slot l) }) _ hnodup'
        (localNames_install_slot h hnew)
      simpa using hrest
    · rintro _ _ ⟨rfl, hmem⟩
      refine ⟨l.name, rfl, fun hall => ?_⟩
      exact (List.nodup_append.mp hall).2.2 _ hmem _ (by simp) rfl

/-- A method that the class of the instance has is opened, unless two of its parameters have one
name. -/
theorem ends_declareMethod {k : ClassInfo} (h : c.Sound S owner orderly)
    (hinst : c.table.instance? = some inst) (houtside : c.emitter.inFunction = false)
    (hk : c.table.classes[inst.classId]? = some k) {method : String} {sig : Signature}
    {params : List Param} (hmethod : k.methods.find? method = some sig)
    (hsig : sig.params = params.map Param.type) (result : DataType) :
    Ends (declareFunction method result params) c
      (fun _ c' => (params.map Param.name).Nodup ∧
        c'.table.localNames = some (params.map Param.name))
      fun f _ => ∃ l, f = .rejected (.localExists l) ∧ ¬(params.map Param.name).Nodup := by
  obtain ⟨hresult, hparams⟩ := h.typed.methods k (List.mem_of_getElem? hk) _ _ hmethod
  rw [hsig] at hparams
  have hlocals : c.table.locals.isSome = false := h.emitter.inside.symm.trans houtside
  rw [declareFunction, ends_bind, requireOutside, ends_bind, ends_get, if_neg (by simp [houtside]),
    ends_pure, ends_bind, openBody, ends_bind, ends_get, hinst]
  dsimp only
  rw [ends_bind, onTable, ends_zoom]
  apply SymbolTable.ends_classAt hk
  rw [hmethod]
  dsimp only
  rw [ends_bind, onEmitter, ends_zoom]
  apply ((Emitter.ends_openFunction (F := fun _ => False) h.emitter _ _ _ (.inr ⟨hlocals, hresult,
    fun p hp => hparams _ (List.mem_map_of_mem hp)⟩)).ensures
    (Emitter.ensures_openFunction _ _ params _)).mono
  · rintro locals e ⟨-, -, -, -, -, -, -, -, -, -, rfl⟩
    rw [ends_pure, ends_bind, ends_modify, ends_bind]
    apply (ends_declareLocals_names [] _ List.nodup_nil rfl).mono
    · intro _ c₁ h₁
      rw [List.nil_append, List.map_map] at h₁
      exact h₁
    · intro _ _ h₁
      rw [List.nil_append, List.map_map] at h₁
      exact h₁
  · intro _ _ hf
    exact hf.1.elim

end Compilation

end MkCompiler
