import Mathlib.Logic.Relation
import MkCompiler.Proofs.Classes

/-!
# Edits of the symbol table

All that ever happens to a symbol table, step by step: a new binding in one of its scopes, another
version of a binding that it has, a function, a class, an addition to a class, an instance. Each step
says what has been checked before, so that whatever holds of all tables is read off the steps. As a
first invariant, every value that a name stands for has a type that code can be generated for.
-/

namespace MkCompiler

open MkCompiler.Action

/-- The binding that holds a value of a type once it has been assigned. -/
def Binding.rebound (b : Binding) (type : DataType) : Binding :=
  if b.type.storage = type.storage then
    if b.type ≠ .unresolved ∨ type = .unresolved then b else b.withVersion b.version type
  else
    b.withVersion (b.version + 1) type

theorem Binding.rebound_eq (b : Binding) (type : DataType) :
    b.rebound type = b ∨ ∃ version, b.rebound type = b.withVersion version type := by
  unfold Binding.rebound
  split
  · split
    · exact .inl rfl
    · exact .inr ⟨_, rfl⟩
  · exact .inr ⟨_, rfl⟩

theorem Binding.rebound_type (b : Binding) : b.rebound b.type = b := by
  unfold rebound
  rw [if_pos rfl, if_pos (Decidable.not_or_of_imp id)]

theorem Binding.In.rebound {t : SymbolTable} {b : Binding} (h : b.In t) (type : DataType) :
    (b.rebound type).In t := by
  rcases b.rebound_eq type with heq | ⟨version, heq⟩ <;> rw [heq]
  · exact h
  · exact h.withVersion _ _

/-- A notification with the property `S` declares an instance of the name. -/
def Command.Instantiates (S : Command → Prop) (name : String) : Prop :=
  ∃ cmd, S cmd ∧ cmd.kind = .declareInstance ∧ cmd.name = name

theorem Command.instantiates_true (name : String) : Command.Instantiates (fun _ => True) name :=
  ⟨{ kind := .declareInstance, name }, trivial, rfl, rfl⟩

/-- New storage that belongs to the program or to an instance of a class. -/
structure Global.New (g : Global) (inst : String) (classId : Int) : Prop where
  inst_eq : g.inst = inst
  classId_eq : g.classId = classId
  stored : g.Stored
  lowered : g.type.isLowered = true

inductive Binding.Replaces : Binding → Binding → Prop
  | slot {l l' : Local} (name : l'.name = l.name) (lowered : l'.type.isLowered = true) :
      Replaces (.slot l) (.slot l')
  | global {g g' : Global} (name : g'.name = g.name) (inst : g'.inst = g.inst)
      (classId : g'.classId = g.classId) (stored : g'.Stored)
      (lowered : g'.type.isLowered = true) : Replaces (.global g) (.global g')

theorem Binding.Replaces.in {t : SymbolTable} {b b' : Binding} (h : b.Replaces b') (hb : b.In t) :
    b'.In t := by
  cases h with
  | slot => exact hb
  | global _ hinst _ hstored _ => exact ⟨hstored, hinst ▸ hb.2⟩

theorem Binding.replaces_rebound {b : Binding} {type : DataType}
    (hb : b.type.isLowered = true) (hstored : ∀ g, b = .global g → g.Stored)
    (htype : type.isLowered = true) : b.Replaces (b.rebound type) := by
  rcases b.rebound_eq type with heq | ⟨version, heq⟩ <;> rw [heq] <;> cases b with
  | slot l => exact .slot rfl (by assumption)
  | global g => exact .global rfl rfl rfl (hstored g rfl) (by assumption)

/-- An addition to a class: a field, a method, a part of its body, or its end. -/
structure ClassInfo.Amends (k k' : ClassInfo) : Prop where
  id : k'.id = k.id
  name : k'.name = k.name
  frozen : k.frozen = true → k'.frozen = true
  fields : ∀ name g, k'.fields.find? name = some g →
    k.fields.find? name = some g ∨ g.name = name ∧ g.inst = "" ∧ g.classId = k.id
  methods : ∀ name sig, k'.methods.find? name = some sig →
    k.methods.find? name = some sig ∨
      sig.name = name ∧ isReservedName name = false ∧ sig.IsScalar

theorem Command.field?_eq_some {cmd : Command} {id : Nat} {name : String} {g : Global}
    (h : cmd.field? id = some (name, g)) : g.name = name ∧ g.inst = "" ∧ g.classId = id := by
  unfold Command.field? at h
  split at h
  · cases h
    exact ⟨rfl, rfl, rfl⟩
  · cases h
    exact ⟨rfl, rfl, rfl⟩
  · cases h

theorem ClassInfo.Notes.amends {k k' : ClassInfo} {cmd : Command}
    {method method' : Option Signature} {returned returned' : Bool}
    (h : k.Notes cmd method returned k' method' returned') :
    k.Amends { k' with commands := k.commands ++ [cmd] } := by
  cases h with
  | @field name g _ _ hfield _ =>
    refine ⟨rfl, rfl, fun h => h, ?_, fun _ _ h => .inl h⟩
    intro name' g' hg'
    rcases Scope.find?_insert_eq_some hg' with ⟨rfl, rfl⟩ | hold
    · exact .inr (Command.field?_eq_some hfield)
    · exact .inl hold
  | @enter sig _ _ _ hscalar hreserved _ =>
    refine ⟨rfl, rfl, fun h => h, fun _ _ h => .inl h, ?_⟩
    intro name sig' hsig'
    rcases Scope.find?_insert_eq_some hsig' with ⟨rfl, rfl⟩ | hold
    · exact .inr ⟨rfl, hreserved, hscalar⟩
    · exact .inl hold
  | _ => exact ⟨rfl, rfl, fun h => h, fun _ _ h => .inl h, fun _ _ h => .inl h⟩

namespace SymbolTable

variable {S : Command → Prop} {t t' : SymbolTable} {b b' : Binding}

/-! ## Installing bindings -/

def classOf? (t : SymbolTable) (owner : String) : Option Nat :=
  (t.instances.find? owner).map InstanceInfo.classId

def install (t : SymbolTable) : Binding → SymbolTable
  | .slot l => { t with locals := t.locals.map (·.insert l.name l) }
  | .global g =>
    if g.inst = "" then
      { t with globals := t.globals.insert g.name g }
    else
      match t.instances.find? g.inst with
      | none => t
      | some inst =>
        { t with instances := t.instances.insert g.inst { inst with
            fields := inst.fields.insert g.name g } }

theorem install_field {g : Global} {inst : InstanceInfo} (hinst : g.inst ≠ "")
    (hfound : t.instances.find? g.inst = some inst) : t.install (.global g) = { t with
      instances := t.instances.insert g.inst { inst with
        fields := inst.fields.insert g.name g } } := by
  simp [install, hinst, hfound]

structure Aligned (t t' : SymbolTable) : Prop where
  functions : t'.functions = t.functions
  classes : t'.classes = t.classes
  classOf? : t'.classOf? = t.classOf?
  current : t'.current = t.current

theorem Aligned.refl (t : SymbolTable) : t.Aligned t :=
  ⟨rfl, rfl, rfl, rfl⟩

theorem Aligned.trans {t'' : SymbolTable} (h : t.Aligned t') (h' : t'.Aligned t'') :
    t.Aligned t'' :=
  ⟨h'.functions.trans h.functions, h'.classes.trans h.classes, h'.classOf?.trans h.classOf?,
    h'.current.trans h.current⟩

theorem aligned_install (t : SymbolTable) (b : Binding) : t.Aligned (t.install b) := by
  cases b with
  | slot l => exact ⟨rfl, rfl, rfl, rfl⟩
  | global g =>
    unfold install
    dsimp only
    split
    · exact ⟨rfl, rfl, rfl, rfl⟩
    · split
      · exact .refl t
      · next inst hinst =>
        refine ⟨rfl, rfl, ?_, rfl⟩
        funext owner
        unfold SymbolTable.classOf?
        rw [Scope.find?_insert]
        split
        · next howner => simp [howner, hinst]
        · rfl

theorem isSome_locals_install (t : SymbolTable) (b : Binding) :
    (t.install b).locals.isSome = t.locals.isSome := by
  cases b with
  | slot l => simp [install]
  | global g =>
    unfold install
    dsimp only
    split
    · rfl
    · split <;> rfl

theorem classNames_install (t : SymbolTable) (b : Binding) :
    (t.install b).classNames = t.classNames := by
  cases b with
  | slot l => rfl
  | global g =>
    unfold install
    dsimp only
    split
    · rfl
    · split <;> rfl

theorem ensures_rebind (b : Binding) (t : SymbolTable) :
    Ensures (rebind b) t fun _ t' => t' = t.install b := by
  unfold rebind install
  rw [ensures_bind, ensures_get]
  cases b with
  | slot l =>
    dsimp only
    split
    · exact ensures_throw.mpr trivial
    · next locals hlocals =>
      rw [ensures_set, hlocals]
      rfl
  | global g =>
    dsimp only
    rw [ensures_ite]
    constructor
    · intro hinst
      rw [ensures_set, if_pos hinst]
    · intro hinst
      rw [if_neg hinst]
      cases hfound : t.instances.find? g.inst with
      | none => exact ensures_throw.mpr trivial
      | some inst => rw [ensures_set]

/-! ## Steps -/

inductive Has (t : SymbolTable) : Binding → Prop
  | slot {locals : Scope Local} {name : String} {l : Local} (hlocals : t.locals = some locals)
      (hl : locals.find? name = some l) : Has t (.slot l)
  | global {name : String} {g : Global} (hg : t.globals.find? name = some g) : Has t (.global g)
  | field {owner name : String} {inst : InstanceInfo} {g : Global}
      (hinst : t.instances.find? owner = some inst) (hg : inst.fields.find? name = some g) :
      Has t (.global g)

/-- One change of a table. What is recorded and who declares instances has the property `S`. -/
inductive Edit (S : Command → Prop) (t : SymbolTable) : SymbolTable → Prop
  | global {g : Global} (hclass : t.classNames.find? g.name = none)
      (hinst : t.instances.find? g.name = none) (hnew : t.globals.find? g.name = none)
      (hg : g.New "" noClass) :
      Edit S t { t with globals := t.globals.insert g.name g }
  | field {owner : String} {inst : InstanceInfo} {g : Global}
      (hinst : t.instances.find? owner = some inst) (hnew : inst.fields.find? g.name = none)
      (hg : g.New inst.name inst.classId) :
      Edit S t { t with
        instances := t.instances.insert owner { inst with fields := inst.fields.insert g.name g } }
  | slot {locals : Scope Local} {l : Local} (hlocals : t.locals = some locals)
      (hnew : locals.find? l.name = none) (lowered : l.type.isLowered = true) :
      Edit S t { t with locals := some (locals.insert l.name l) }
  | rebind {b b' : Binding} (hb : t.Has b) (hreplaces : b.Replaces b') : Edit S t (t.install b')
  | function {sig : Signature} (hreserved : isReservedName sig.name = false)
      (hnew : t.functions.find? sig.name = none) (hsig : sig.IsScalar) :
      Edit S t { t with functions := t.functions.insert sig.name sig }
  | enter : Edit S t t.enterFunction
  | leave : Edit S t t.leaveFunction
  | class {name : String} (hreserved : isReservedName name = false)
      (hclass : t.classNames.find? name = none) (hinst : t.instances.find? name = none)
      (hglobal : t.globals.find? name = none) :
      Edit S t { t with
        classes := t.classes ++ [{ id := t.classes.length, name }]
        classNames := t.classNames.insert name t.classes.length }
  | amend {k k' : ClassInfo} (hk : t.classes[k.id]? = some k) (hamends : k.Amends k')
      (hsound : k.Sound S → k'.Sound S) : Edit S t (t.setClass k')
  | instance {name : String} {k : ClassInfo} (hk : t.classes[k.id]? = some k)
      (hfrozen : k.frozen = true) (hreserved : isReservedName name = false)
      (hclass : t.classNames.find? name = none) (hinst : t.instances.find? name = none)
      (hglobal : t.globals.find? name = none) (hname : Command.Instantiates S name) :
      Edit S t { t with instances := t.instances.insert name { name, classId := k.id } }
  | current (name : Option String)
      (hname : ∀ owner, name = some owner → (t.instances.find? owner).isSome = true) :
      Edit S t (t.setInstance name)

def EditClosed (S : Command → Prop) (J : SymbolTable → Prop) : Prop :=
  ∀ t t', Edit S t t' → J t → J t'

/-- The table has come from the empty one by edits. -/
def Built (S : Command → Prop) : SymbolTable → Prop :=
  Relation.ReflTransGen (Edit S) {}

/-- What no edit takes away holds of all tables. -/
theorem Built.holds {J : SymbolTable → Prop} (h : t.Built S) (hJ : EditClosed S J)
    (hstart : J {}) : J t := by
  induction h with
  | refl => exact hstart
  | tail _ hedit ih => exact hJ _ _ hedit ih

/-! ## Bindings behind an edit -/

theorem has_of_resolve? {name : String} (h : t.resolve? name = some b) : t.Has b := by
  unfold resolve? at h
  cases hlocal : t.locals.bind (·.find? name) with
  | some l =>
    rw [hlocal] at h
    cases h
    obtain ⟨locals, hlocals, hl⟩ := Option.bind_eq_some_iff.mp hlocal
    exact .slot hlocals hl
  | none =>
    rw [hlocal] at h
    dsimp only at h
    cases hfield : t.currentFields.find? name with
    | some g =>
      rw [hfield] at h
      cases h
      unfold currentFields at hfield
      cases hinst : t.current.bind t.instances.find? with
      | none =>
        rw [hinst] at hfield
        cases hfield
      | some inst =>
        rw [hinst] at hfield
        obtain ⟨owner, -, howner⟩ := Option.bind_eq_some_iff.mp hinst
        exact .field howner hfield
    | none =>
      rw [hfield] at h
      obtain ⟨g, hg, rfl⟩ := Option.map_eq_some_iff.mp h
      exact .global hg

theorem Has.congr (h : t'.Has b) (hlocals : t'.locals = t.locals) (hglobals : t'.globals = t.globals)
    (hinstances : t'.instances = t.instances) : t.Has b := by
  cases h with
  | slot h hl => exact .slot (hlocals ▸ h) hl
  | global hg => exact .global (hglobals ▸ hg)
  | field hinst hg => exact .field (hinstances ▸ hinst) hg

theorem Has.of_insertGlobal {name : String} {g : Global}
    (h : Has { t with globals := t.globals.insert name g } b) : b = .global g ∨ t.Has b := by
  cases h with
  | slot h hl => exact .inr (.slot h hl)
  | field hinst hg => exact .inr (.field hinst hg)
  | @global name' g' hg =>
    rcases Scope.find?_insert_eq_some hg with ⟨-, rfl⟩ | hold
    · exact .inl rfl
    · exact .inr (.global hold)

theorem Has.of_insertField {owner name : String} {inst : InstanceInfo} {g : Global}
    (hinst : t.instances.find? owner = some inst)
    (h : Has { t with instances := t.instances.insert owner { inst with
      fields := inst.fields.insert name g } } b) : b = .global g ∨ t.Has b := by
  cases h with
  | slot h hl => exact .inr (.slot h hl)
  | global hg => exact .inr (.global hg)
  | @field owner' name' inst' g' hinst' hg =>
    rcases Scope.find?_insert_eq_some hinst' with ⟨-, rfl⟩ | hold
    · rcases Scope.find?_insert_eq_some hg with ⟨-, rfl⟩ | hfield
      · exact .inl rfl
      · exact .inr (.field hinst hfield)
    · exact .inr (.field hold hg)

theorem Has.of_insertLocal {locals : Scope Local} {name : String} {l : Local}
    (hlocals : t.locals = some locals)
    (h : Has { t with locals := some (locals.insert name l) } b) : b = .slot l ∨ t.Has b := by
  cases h with
  | global hg => exact .inr (.global hg)
  | field hinst hg => exact .inr (.field hinst hg)
  | slot h hl =>
    cases h
    rcases Scope.find?_insert_eq_some hl with ⟨-, rfl⟩ | hold
    · exact .inl rfl
    · exact .inr (.slot hlocals hold)

theorem Has.of_install (h : (t.install b').Has b) : b = b' ∨ t.Has b := by
  cases b' with
  | slot l =>
    cases hlocals : t.locals with
    | none => exact .inr (h.congr (by simp [install, hlocals]) rfl rfl)
    | some locals =>
      apply @Has.of_insertLocal _ _ _ l.name _ hlocals
      exact h.congr (by simp [install, hlocals]) rfl rfl
  | global g =>
    unfold install at h
    dsimp only at h
    split at h
    · exact h.of_insertGlobal
    · split at h
      · exact .inr h
      · next inst hinst => exact Has.of_insertField hinst h

/-! ## Types -/

/-- Every name stands for a variable or an array of a type that code can be generated for, and the
types of functions and methods are integers and reals. The entry point cannot be called. -/
structure Typed (t : SymbolTable) : Prop where
  bindings : ∀ b, t.Has b → b.type.isLowered = true
  stored : ∀ g, t.Has (.global g) → g.Stored
  functions : ∀ name sig, t.functions.find? name = some sig →
    sig.IsScalar ∧ isReservedName name = false
  methods : ∀ k ∈ t.classes, ∀ name sig, k.methods.find? name = some sig → sig.IsScalar

theorem Typed.replaces_rebound (h : t.Typed) (hb : t.Has b) {type : DataType}
    (htype : type.isLowered = true) : b.Replaces (b.rebound type) := by
  apply Binding.replaces_rebound (h.bindings b hb) _ htype
  rintro g rfl
  exact h.stored g hb

theorem typed_start : ({} : SymbolTable).Typed where
  bindings := by
    intro b hb
    cases hb with
    | slot h _ | global h | field h _ => cases h
  stored := by
    intro g hg
    cases hg with
    | global h | field h _ => cases h
  functions := by
    intro name sig h
    cases h
  methods := by
    intro k hk
    cases hk

theorem Typed.bind (h : t.Typed) (hhas : ∀ b, t'.Has b → b = b' ∨ t.Has b)
    (hlowered : b'.type.isLowered = true) (hstored : ∀ g, b' = .global g → g.Stored)
    (hfunctions : t'.functions = t.functions) (hclasses : t'.classes = t.classes) : t'.Typed where
  bindings := by
    intro b hb
    rcases hhas b hb with rfl | hold
    · exact hlowered
    · exact h.bindings b hold
  stored := by
    intro g hg
    rcases hhas _ hg with heq | hold
    · exact hstored g heq.symm
    · exact h.stored g hold
  functions := by
    rw [hfunctions]
    exact h.functions
  methods := by
    rw [hclasses]
    exact h.methods

theorem Typed.congr (h : t.Typed) (hhas : ∀ b, t'.Has b → t.Has b)
    (hfunctions : t'.functions = t.functions) (hclasses : t'.classes = t.classes) : t'.Typed :=
  ⟨fun b hb => h.bindings b (hhas b hb), fun g hg => h.stored g (hhas _ hg),
    hfunctions ▸ h.functions, hclasses ▸ h.methods⟩

theorem editClosed_typed (S : Command → Prop) : EditClosed S Typed := by
  intro t t' hedit h
  cases hedit with
  | global _ _ _ hg =>
    refine h.bind (fun b hb => hb.of_insertGlobal) hg.lowered ?_ rfl rfl
    rintro _ ⟨⟩
    exact hg.stored
  | field hinst _ hg =>
    refine h.bind (fun b hb => hb.of_insertField hinst) hg.lowered ?_ rfl rfl
    rintro _ ⟨⟩
    exact hg.stored
  | slot hlocals _ hlowered =>
    refine h.bind (fun b hb => hb.of_insertLocal hlocals) hlowered ?_ rfl rfl
    rintro _ ⟨⟩
  | @rebind _ b' hb hreplaces =>
    have haligned := aligned_install t b'
    cases hreplaces with
    | slot _ hlowered =>
      refine h.bind (fun b hb => hb.of_install) hlowered ?_ haligned.functions haligned.classes
      rintro _ ⟨⟩
    | global _ _ _ hstored hlowered =>
      refine h.bind (fun b hb => hb.of_install) hlowered ?_ haligned.functions haligned.classes
      rintro _ ⟨⟩
      exact hstored
  | @function sig hreserved _ hsig =>
    refine ⟨fun b hb => h.bindings b (hb.congr rfl rfl rfl),
      fun g hg => h.stored g (hg.congr rfl rfl rfl), ?_, h.methods⟩
    intro name sig' hname
    rcases Scope.find?_insert_eq_some hname with ⟨rfl, rfl⟩ | hold
    · exact ⟨hsig, hreserved⟩
    · exact h.functions name sig' hold
  | enter =>
    refine h.congr ?_ rfl rfl
    intro b hb
    cases hb with
    | slot hlocals hl =>
      cases hlocals
      cases hl
    | global hg => exact .global hg
    | field hinst hg => exact .field hinst hg
  | leave =>
    refine h.congr ?_ rfl rfl
    intro b hb
    cases hb with
    | slot hlocals _ => cases hlocals
    | global hg => exact .global hg
    | field hinst hg => exact .field hinst hg
  | «class» =>
    refine ⟨fun b hb => h.bindings b (hb.congr rfl rfl rfl),
      fun g hg => h.stored g (hg.congr rfl rfl rfl), h.functions, ?_⟩
    intro k hk name sig hsig
    rcases List.mem_append.mp hk with hold | hnew
    · exact h.methods k hold name sig hsig
    · obtain rfl := List.mem_singleton.mp hnew
      cases hsig
  | @amend k k' hk hamends =>
    refine ⟨fun b hb => h.bindings b (hb.congr rfl rfl rfl),
      fun g hg => h.stored g (hg.congr rfl rfl rfl), h.functions, ?_⟩
    intro k₁ hk₁ name sig hsig
    rcases List.mem_or_eq_of_mem_set hk₁ with hold | rfl
    · exact h.methods k₁ hold name sig hsig
    · rcases hamends.methods name sig hsig with hold | ⟨-, -, hscalar⟩
      · exact h.methods k (List.mem_of_getElem? hk) name sig hold
      · exact hscalar
  | «instance» _ _ _ _ hnone =>
    refine h.congr ?_ rfl rfl
    intro b hb
    cases hb with
    | slot hlocals hl => exact .slot hlocals hl
    | global hg => exact .global hg
    | field hinst hg =>
      rcases Scope.find?_insert_eq_some hinst with ⟨-, rfl⟩ | hold
      · cases hg
      · exact .field hold hg
  | current => exact h.congr (fun b hb => hb.congr rfl rfl rfl) rfl rfl

/-! ## Order -/

theorem Sound.install (h : t.Sound S) (hstored : ∀ g, b = .global g → g.Stored) :
    (t.install b).Sound S := by
  cases b with
  | slot l => exact ⟨h.globals, h.fields, h.instances, h.current, h.classes⟩
  | global g =>
    unfold SymbolTable.install
    dsimp only
    split
    · next hinst => exact h.insertGlobal ⟨rfl, hinst, hstored g rfl⟩
    · split
      · exact h
      · next hfound => exact h.insertField hfound ⟨rfl, rfl, hstored g rfl⟩

theorem editClosed_sound (S : Command → Prop) : EditClosed S (Sound S) := by
  intro t t' hedit h
  cases hedit with
  | global _ _ _ hg => exact h.insertGlobal ⟨rfl, hg.inst_eq, hg.stored⟩
  | field hinst _ hg =>
    have hname := (h.instances _ _ hinst).1
    exact h.insertField hinst ⟨rfl, hg.inst_eq.trans hname, hg.stored⟩
  | rebind _ hreplaces =>
    apply h.install
    rintro g rfl
    cases hreplaces with
    | global _ _ _ hstored _ => exact hstored
  | slot | function | enter | leave =>
    exact ⟨h.globals, h.fields, h.instances, h.current, h.classes⟩
  | «class» => exact h.declareClass ⟨rfl, by simp [Scope.names, Scope.empty], by simp⟩ _
  | amend hk _ hsound => exact h.setClass (hsound (h.classes _ (List.mem_of_getElem? hk)))
  | «instance» hk =>
    obtain ⟨hid, -⟩ := List.getElem?_eq_some_iff.mp hk
    exact h.insertInstance _ hid
  | current _ hname => exact h.setInstance hname

theorem Sound.in_of_has (h : t.Sound S) (hb : t.Has b) : b.In t := by
  cases hb with
  | slot hlocals _ => simp [Binding.In, hlocals]
  | global hg =>
    have hbelongs := h.globals _ _ hg
    exact ⟨hbelongs.stored, .inl hbelongs.inst_eq⟩
  | field hinst hg =>
    have hbelongs := h.fields _ _ hinst _ _ hg
    exact ⟨hbelongs.stored, .inr (by simp [hbelongs.inst_eq, hinst])⟩

theorem similar_install (t : SymbolTable) (b : Binding) : t.Similar (t.install b) := by
  have hscopes (t : SymbolTable) (globals : Scope Global) :
      t.Similar { t with globals } := ⟨rfl, rfl, rfl, rfl, fun _ h => h⟩
  cases b with
  | slot l => exact ⟨rfl, rfl, by simp [install], rfl, fun _ h => h⟩
  | global g =>
    unfold install
    dsimp only
    split
    · exact hscopes t _
    · split
      · exact .refl t
      · next hinst => exact similar_insertField hinst _

/-! ## Operations -/

section Operations

/-- The operation is one edit that keeps to the open bodies, or it is refused and nothing has
changed. -/
abbrev EndsInOrder (S : Command → Prop) (x : Action SymbolTable Unit) (t : SymbolTable)
    (R : SymbolTable → Prop) : Prop :=
  Ends x t (fun _ t' => Edit S t t' ∧ t.Similar t' ∧ R t') fun f t' => Emitter.Rejects f ∧ t' = t

theorem ends_declareGlobal {g : Global} (hg : g.New "" noClass) :
    EndsInOrder S (declareGlobal g) t fun t' => t'.Has (.global g) := by
  rw [declareGlobal, EndsInOrder, ends_bind]
  apply (ends_checkProgramName g.name t).mono
  · rintro _ _ ⟨rfl, hfree⟩
    exact ends_modify.mpr ⟨.global hfree.classes hfree.instances hfree.globals hg,
      ⟨rfl, rfl, rfl, rfl, fun _ h => h⟩, @Has.global _ g.name g (by simp)⟩
  · rintro _ _ ⟨rfl, v, rfl⟩
    exact ⟨rfl, rfl⟩

theorem ends_declareField {g : Global} {inst : InstanceInfo} (hinst : t.instance? = some inst)
    (hg : g.New inst.name inst.classId) :
    EndsInOrder S (declareField g) t fun t' => t'.Has (.global g) := by
  obtain ⟨owner, hcurrent, howner⟩ := Option.bind_eq_some_iff.mp hinst
  rw [declareField, EndsInOrder, ends_bind, ends_get]
  split
  · exact ⟨rfl, rfl⟩
  · next name hname =>
    obtain rfl : owner = name := Option.some.inj (hcurrent.symm.trans hname)
    rw [howner]
    dsimp only
    rw [ends_bind, ends_require]
    refine ⟨fun hnew => ?_, fun _ => ⟨rfl, rfl⟩⟩
    refine ends_set.mpr ⟨.field howner (Option.isNone_iff_eq_none.mp hnew) hg,
      similar_insertField howner _, ?_⟩
    refine @Has.field _ owner g.name { inst with fields := inst.fields.insert g.name g } g ?_ ?_
    · simp
    · simp

theorem ends_declareLocal {l : Local} (hl : l.type.isLowered = true) :
    EndsInOrder S (declareLocal l) t fun t' => t'.Has (.slot l) := by
  rw [declareLocal, EndsInOrder, ends_bind, ends_get]
  cases hlocals : t.locals with
  | none => exact ⟨rfl, rfl⟩
  | some locals =>
    dsimp only
    rw [ends_bind, ends_require]
    refine ⟨fun hnew => ?_, fun _ => ⟨rfl, rfl⟩⟩
    exact ends_set.mpr ⟨.slot hlocals (Option.isNone_iff_eq_none.mp hnew) hl,
      ⟨rfl, rfl, by simp [hlocals], rfl, fun _ h => h⟩,
      @Has.slot _ (locals.insert l.name l) l.name l rfl (by simp)⟩

theorem ends_rebind (h : t.Sound S) (hb : t.Has b) (hreplaces : b.Replaces b') :
    EndsInOrder S (rebind b') t fun _ => True := by
  have hin := hreplaces.in (h.in_of_has hb)
  have hends : Ends (rebind b') t (fun _ _ => True) fun f t' => Emitter.Rejects f ∧ t' = t := by
    rw [rebind, ends_bind, ends_get]
    cases b' with
    | slot l =>
      obtain ⟨locals, hlocals⟩ := Option.isSome_iff_exists.mp hin
      dsimp only
      rw [hlocals]
      trivial
    | global g =>
      dsimp only
      rw [ends_ite]
      refine ⟨fun _ => trivial, fun hinst => ?_⟩
      obtain ⟨inst, hfound⟩ := Option.isSome_iff_exists.mp (hin.2.resolve_left hinst)
      rw [hfound]
      trivial
  apply (hends.ensures (ensures_rebind b' t)).mono
  · rintro _ _ ⟨-, rfl⟩
    exact ⟨.rebind hb hreplaces, similar_install t b', trivial⟩
  · intro _ _ h
    exact h

theorem ends_declareFunction {sig : Signature} (hsig : sig.IsScalar) :
    EndsInOrder S (declareFunction sig) t fun _ => True := by
  rw [declareFunction, EndsInOrder, ends_bind, ends_get, ends_bind, ends_require]
  refine ⟨fun hreserved => ?_, fun _ => ⟨rfl, rfl⟩⟩
  rw [ends_bind, ends_require]
  refine ⟨fun hnew => ?_, fun _ => ⟨rfl, rfl⟩⟩
  exact ends_set.mpr ⟨.function hreserved (Option.isNone_iff_eq_none.mp hnew) hsig,
    ⟨rfl, rfl, rfl, rfl, fun _ h => h⟩, trivial⟩

end Operations

end SymbolTable

end MkCompiler
