import MkCompiler.Proofs.Cells

/-!
# Effects on the scopes

What each notification does to the scopes of the symbol table if it succeeds. Most leave them alone.
Declarations bind new names, an assignment or a scan moves one variable on to its next cell, if at
all, and functions are opened and closed.
-/

namespace MkCompiler

open MkCompiler.Action

/-! ## Operations that bind nothing -/

namespace SymbolTable

structure SameScopes (t t' : SymbolTable) : Prop where
  globals : t'.globals = t.globals
  instances : t'.instances = t.instances
  locals : t'.locals = t.locals

instance : IsPreorder SymbolTable SameScopes where
  refl _ := ⟨rfl, rfl, rfl⟩
  trans _ _ _ h h' := ⟨h'.globals.trans h.globals, h'.instances.trans h.instances,
    h'.locals.trans h.locals⟩

variable {t t' : SymbolTable}

theorem SameScopes.binding?_eq (h : t.SameScopes t') : t'.binding? = t.binding? := by
  funext x
  cases x <;> simp [binding?, local?, h.globals, h.instances, h.locals]

theorem SameScopes.extends (h : t.SameScopes t') : t.Extends t' :=
  ⟨fun _ _ hb => h.binding?_eq ▸ hb, by rw [h.locals]⟩

theorem SameScopes.keyed (h : t.SameScopes t') (hk : t.Keyed) : t'.Keyed :=
  ⟨h.binding?_eq ▸ hk.kinds, h.binding?_eq ▸ hk.places,
    fun owner inst hinst => hk.names owner inst (h.instances ▸ hinst)⟩

theorem sameScopes_declareFunction (sig : Signature) : Moves SameScopes (declareFunction sig) := by
  intro t
  refine (ensures_declareFunction sig t).mono ?_
  rintro _ _ ⟨rfl, -⟩
  exact ⟨rfl, rfl, rfl⟩

end SymbolTable

namespace Compilation

open SymbolTable

variable {α : Type} {c c' : Compilation}

def Retains (c c' : Compilation) : Prop :=
  c.table.SameScopes c'.table

instance : IsPreorder Compilation Retains where
  refl _ := refl_of SameScopes _
  trans _ _ _ h h' := trans_of SameScopes h h'

theorem retains_onEmitter (x : Action Emitter α) : Moves Retains (onEmitter x) :=
  fun _ => ensures_zoom.mpr fun _ _ _ => refl_of SameScopes _

theorem retains_onTable {x : Action SymbolTable α} (hx : Moves SameScopes x) :
    Moves Retains (onTable x) :=
  fun c => ensures_zoom.mpr (hx c.table)

theorem retains_modify {f : Compilation → Compilation} (h : ∀ c, Retains c (f c)) :
    Moves Retains (modify f : Action Compilation PUnit) :=
  fun c => ensures_modify.mpr (h c)

theorem works_retains : Works (fun {_} x => Moves Retains x) fun {_} _ => True :=
  works_moves (fun _ _ => refl_of SameScopes _) fun _ => retains_onEmitter _

theorem retains_openBody (name : String) (result : DataType) (params : List Param) :
    Moves Retains (openBody name result params) :=
  works_retains.openBody (fun _ => retains_onTable (sameScopes_declareFunction _))
    (fun _ _ _ => trivial) name result params

theorem retains_beginClass (name : String) : Moves Retains (beginClass name) := by
  intro c _ c' hrun
  obtain ⟨-, -, -, rfl⟩ := (ends_beginClass c name).of_ok hrun
  exact ⟨rfl, rfl, rfl⟩

theorem retains_endClass : Moves Retains endClass := by
  intro c _ c' hrun
  obtain ⟨id, k, -, -, -, rfl⟩ := (ends_endClass c).of_ok hrun
  exact ⟨rfl, rfl, rfl⟩

theorem retains_endProgram : Moves Retains endProgram := by
  refine Moves.get.bind fun c => ?_
  cases c.function with
  | some f => exact .reject _
  | none =>
    exact (retains_onEmitter _).bind fun _ => retains_modify fun _ => refl_of SameScopes _

theorem WellRecorded.retains_record (hc : c.WellRecorded) {id : Nat} (hid : c.recording = some id)
    (cmd : Command) : Ensures (record id cmd) c fun _ c' => c.Retains c' := by
  obtain ⟨k, rfl, hk, -⟩ := hc.exists_class hid
  intro _ c' hrun
  obtain ⟨k', method, returned, -, -, rfl⟩ := (ends_record hk cmd).of_ok hrun
  exact ⟨rfl, rfl, rfl⟩

theorem retains_construct {cmd : Command} (h : cmd.kind ∉ [.declareVariable, .declareArray, .assign,
    .assignMember, .scan, .declareFunction, .endFunction]) : Moves Retains (construct cmd) := by
  by_cases hexpression : cmd.kind ∈ [.int, .real, .name, .element, .member, .arith, .call,
    .callMethod, .print]
  · exact works_retains.expression (fun _ _ _ => trivial) Emitter.branches_true.toComputes
      hexpression
  by_cases hcontrol : cmd.kind ∈ [.beginCondition, .compare, .endIf, .endWhile]
  · exact works_retains.control Emitter.branches_true hcontrol
  unfold construct
  cases hkind : cmd.kind with
  | assignElement => exact works_retains.assignElement Emitter.branches_true.toDeclares _
  | ret =>
    exact works_retains.pop.bind fun _ => (retains_onEmitter _).bind fun _ =>
      retains_modify fun _ => refl_of SameScopes _
  | beginClass => exact retains_beginClass _
  | endClass => exact retains_endClass
  | declareInstance => exact .throw _
  | endProgram => exact retains_endProgram
  | unknown n => exact .throw _
  | _ => simp_all

end Compilation

/-! ## Declarations -/

theorem Scope.put_of_get?_eq_some {α : Type} {name : String} {a : α} {l : List (String × α)}
    (h : get? name l = some a) : put name a l = l := by
  induction l with
  | nil => cases h
  | cons entry rest ih =>
    obtain ⟨n, a'⟩ := entry
    by_cases hn : name = n
    · simp only [get?, hn, if_true, Option.some.injEq] at h
      simp [put, hn, h]
    · simp only [get?, if_neg hn] at h
      simp [put, hn, ih h]

theorem Scope.insert_of_find?_eq_some {α : Type} {s : Scope α} {name : String} {a : α}
    (h : s.find? name = some a) : s.insert name a = s :=
  congrArg Scope.mk (put_of_get?_eq_some h)

namespace SymbolTable

variable {inside : Bool} {t t' : SymbolTable} {b : Binding}

theorem install_of_binding? (h : t.binding? b.place = some b) : t.install b = t := by
  cases b with
  | slot l =>
    obtain ⟨l', hl', heq⟩ := Option.map_eq_some_iff.mp h
    obtain rfl : l' = l := Binding.slot.inj heq
    obtain ⟨locals, hlocals, hfound⟩ := Option.bind_eq_some_iff.mp hl'
    rw [install, hlocals, Option.map_some, Scope.insert_of_find?_eq_some hfound, ← hlocals]
  | global g =>
    by_cases hinst : g.inst = ""
    · rw [Binding.place, if_pos hinst] at h
      obtain ⟨g', hg', heq⟩ := Option.map_eq_some_iff.mp h
      obtain rfl : g' = g := Binding.global.inj heq
      simp [install, hinst, Scope.insert_of_find?_eq_some hg']
    · rw [Binding.place, if_neg hinst] at h
      obtain ⟨g', hg', heq⟩ := Option.map_eq_some_iff.mp h
      obtain rfl : g' = g := Binding.global.inj heq
      obtain ⟨inst, hfound, hfield⟩ := Option.bind_eq_some_iff.mp hg'
      simp [install, hinst, hfound, Scope.insert_of_find?_eq_some hfield,
        Scope.insert_of_find?_eq_some hfound]

/-- A new name is bound: in the open function, or in the current instance or else in the program.
The variables of an instance need one with a name. -/
inductive Declares (t : SymbolTable) : Bool → Binding → SymbolTable → Prop
  | slot {l : Local} (hlocals : t.locals.isSome = true) (hnew : t.local? l.name = none) :
      Declares t true (.slot l) (t.install (.slot l))
  | field {g : Global} {inst : InstanceInfo} (hcurrent : t.current = some g.inst)
      (hinst : t.instances.find? g.inst = some inst) (hclass : g.classId = inst.classId)
      (hnew : inst.fields.find? g.name = none) (hstored : g.Stored)
      (hnamed : g.kind = .variable → g.inst ≠ "") :
      Declares t false (.global g) { t with
        instances := t.instances.insert g.inst { inst with fields := inst.fields.insert g.name g } }
  | program {g : Global} (hprogram : t.instance? = none) (hinst : g.inst = "")
      (hnew : t.globals.find? g.name = none) (hstored : g.Stored) :
      Declares t false (.global g) (t.install (.global g))

theorem Declares.bindsAt (h : t.Declares inside b t') : ∃ x, t.binding? x = none ∧ t.BindsAt x b t' ∧
    (b.place = x ∨ b.kind = .array ∧ ∃ name, x = .field "" name) := by
  cases h with
  | slot hlocals hnew =>
    exact ⟨_, by simp [Binding.place, binding?, hnew], binding?_install hlocals, .inl rfl⟩
  | @field g inst hcurrent hinst hclass hnew hstored hnamed =>
    refine ⟨_, by simp [binding?, hinst, hnew], binding?_insertField hinst g, ?_⟩
    by_cases hname : g.inst = ""
    · exact .inr ⟨hstored.1.resolve_left fun hkind => hnamed hkind hname, g.name, by rw [hname]⟩
    · exact .inl (if_neg hname)
  | program hprogram hinst hnew hstored =>
    refine ⟨_, ?_, binding?_install (.inl hinst), .inl rfl⟩
    simp [Binding.place, binding?, hinst, hnew]

theorem Declares.isSome_locals (h : t.Declares inside b t') : t'.locals.isSome = t.locals.isSome := by
  cases h with
  | field => rfl
  | _ => exact isSome_locals_install t _

theorem Declares.scoped (h : t.Declares inside b t') : b.Scoped t' := by
  cases h with
  | slot hlocals _ => exact (isSome_locals_install t _).trans hlocals
  | field => exact .inr (by simp)
  | program _ hinst => exact .inl hinst

theorem Declares.names (h : t.Declares inside b t') (hn : t.InstancesNamed) : t'.InstancesNamed := by
  cases h with
  | field _ hinst => exact hn.insert hinst _
  | _ => exact hn.install _

theorem Declares.extends (h : t.Declares inside b t') : t.Extends t' := by
  obtain ⟨x, hnew, hbinds, -⟩ := h.bindsAt
  refine ⟨?_, h.isSome_locals⟩
  intro y b' hb'
  rw [hbinds, if_neg]
  · exact hb'
  · rintro rfl
    rw [hnew] at hb'
    cases hb'

theorem Declares.keyed (h : t.Declares inside b t') (hk : t.Keyed) : t'.Keyed := by
  obtain ⟨x, -, hbinds, hplace⟩ := h.bindsAt
  refine hk.bind hbinds ?_ hplace (h.names hk.names)
  cases h with
  | slot => exact .inr rfl
  | field _ _ _ _ hstored => exact hstored.1.symm
  | program _ _ _ hstored => exact hstored.1.symm

theorem Declares.bindsAt_place (h : t.Declares inside b t') (hkind : b.kind = .variable) :
    t.binding? b.place = none ∧ t.BindsAt b.place b t' := by
  obtain ⟨x, hnew, hbinds, rfl | ⟨harray, -⟩⟩ := h.bindsAt
  · exact ⟨hnew, hbinds⟩
  · rw [hkind] at harray
    cases harray

theorem Declares.binding?_place (h : t.Declares inside b t') (hkind : b.kind = .variable) :
    t'.binding? b.place = some b := by
  rw [(h.bindsAt_place hkind).2, if_pos rfl]

/-- Where all instances have names, what is declared is installed. -/
theorem Declares.eq_install (h : t.Declares inside b t') (hl : t.Lexicon) :
    t' = t.install b ∧ b.Unbound t ∧ b.In t := by
  cases h with
  | slot hlocals hnew => exact ⟨rfl, hnew, hlocals⟩
  | @field g inst _ hinst _ hnew hstored _ =>
    have hne : g.inst ≠ "" :=
      (hl.instances g.inst inst.classId (by simp [classOf?, hinst])).1.nonempty
    refine ⟨(install_field hne hinst).symm, ?_, hstored, .inr (by simp [hinst])⟩
    simp [Binding.Unbound, storage?, hne, hinst, hnew]
  | program _ hinst hnew hstored =>
    exact ⟨rfl, by simp [Binding.Unbound, storage?, hinst, hnew], hstored, .inl hinst⟩

theorem ensures_declareField_declares {g : Global} {inst : InstanceInfo} (hn : t.InstancesNamed)
    (hinst : t.instance? = some inst) (hg : g.inst = inst.name ∧ g.classId = inst.classId)
    (hstored : g.Stored) (hnamed : g.kind = .variable → g.inst ≠ "") :
    Ensures (declareField g) t fun _ t' => t.Declares false (.global g) t' := by
  obtain ⟨owner, hcurrent, howner⟩ := Option.bind_eq_some_iff.mp hinst
  obtain rfl : g.inst = owner := hg.1.trans (hn owner inst howner)
  unfold declareField
  rw [ensures_bind, ensures_get]
  split
  · exact ensures_reject.mpr trivial
  · next owner' howner' =>
    obtain rfl : g.inst = owner' := Option.some.inj (hcurrent.symm.trans howner')
    rw [howner]
    dsimp only
    rw [ensures_bind, ensures_require]
    intro hnone
    rw [ensures_set]
    exact .field hcurrent howner hg.2 (Option.isNone_iff_eq_none.mp hnone) hstored
      hnamed

theorem ensures_declareGlobal_declares {g : Global} (hprogram : t.instance? = none)
    (hg : g.inst = "") (hstored : g.Stored) :
    Ensures (declareGlobal g) t fun _ t' => t.Declares false (.global g) t' := by
  refine (ensures_declareGlobal hg t).mono ?_
  rintro _ _ ⟨rfl, hnew⟩
  rw [storage?, if_pos hg] at hnew
  exact .program hprogram hg hnew hstored

end SymbolTable

namespace Compilation

open SymbolTable

variable {c c' : Compilation}

theorem ensures_pop (c : Compilation) : Ensures pop c fun value c' =>
    ∃ stack, c.stack = value :: stack ∧ c' = { c with stack } := by
  rw [pop, ensures_bind, ensures_get]
  cases hstack : c.stack with
  | nil => exact ensures_throw.mpr trivial
  | cons value stack =>
    exact ensures_bind.mpr (ensures_set.mpr (ensures_pure.mpr ⟨stack, rfl, rfl⟩))

theorem ensures_popMany (count : Int) (c : Compilation) :
    Ensures (popMany count) c fun ops c' => (ops.length : Int) = count ∧
      ops = (c.stack.take count.toNat).reverse ∧
      c' = { c with stack := c.stack.drop count.toNat } := by
  rw [popMany, ensures_bind, ensures_get, ensures_ite]
  refine ⟨fun _ => ensures_throw.mpr trivial, fun hcount => ?_⟩
  rw [ensures_ite]
  constructor
  · intro hlength
    rw [ensures_bind, ensures_set, ensures_pure]
    refine ⟨?_, rfl, rfl⟩
    rw [List.length_reverse, List.length_take]
    omega
  · intro _
    rw [ensures_ite]
    refine ⟨fun _ => ensures_throw.mpr trivial, fun _ => ?_⟩
    rw [ensures_bind, ensures_set]
    exact ensures_throw.mpr trivial

/-- A variable is declared in the scope that is being compiled, and gets its storage. -/
theorem ensures_declareScalar (hn : c.table.InstancesNamed) (name : String) (type : DataType) :
    Ensures (declareScalar name type) c fun b c' => ∃ t e,
      c.table.Declares c.emitter.inFunction b t ∧
        (b.name = name ∧ b.type = type ∧ b.kind = .variable ∧ b.version = 0) ∧
        Emitter.declareVariable b c.emitter = .ok () e ∧
        c' = { c with table := t, emitter := e } := by
  rw [declareScalar, ensures_bind, ensures_get, ensures_ite]
  constructor
  · intro hinside
    rw [ensures_bind, onTable, ensures_zoom]
    refine (SymbolTable.ensures_declareLocal _ _).mono ?_
    rintro _ _ ⟨rfl, hlocals, hnone⟩
    rw [ensures_bind, onEmitter, ensures_zoom]
    intro _ e hrun
    rw [ensures_pure, hinside]
    exact ⟨_, e, .slot hlocals hnone, ⟨rfl, rfl, rfl, rfl⟩, hrun, rfl⟩
  · intro houtside
    rw [eq_false_of_ne_true houtside]
    cases hinst : c.table.instance? with
    | some inst =>
      dsimp only
      by_cases hname : inst.name = ""
      · -- The emitter has no fields without an instance.
        rw [ensures_bind]
        intro _ c₁ _
        rw [ensures_bind, onEmitter, ensures_zoom]
        intro _ e he
        rw [Emitter.declareField_unowned hname] at he
        cases he
      · rw [ensures_bind, onTable, ensures_zoom]
        refine (ensures_declareField_declares hn hinst ⟨rfl, rfl⟩ ⟨.inl rfl, rfl⟩ fun _ => hname).mono ?_
        intro _ t hdeclares
        rw [ensures_bind, onEmitter, ensures_zoom]
        intro _ e hrun
        rw [Emitter.declareField_owned hname] at hrun
        exact ensures_pure.mpr ⟨t, e, hdeclares, ⟨rfl, rfl, rfl, rfl⟩, hrun, rfl⟩
    | none =>
      dsimp only
      rw [ensures_bind, onTable, ensures_zoom]
      refine (ensures_declareGlobal_declares hinst rfl ⟨.inl rfl, rfl⟩).mono ?_
      intro _ t hdeclares
      rw [ensures_bind, onEmitter, ensures_zoom]
      intro _ e hrun
      exact ensures_pure.mpr ⟨t, e, hdeclares, ⟨rfl, rfl, rfl, rfl⟩, hrun, rfl⟩

def arrayLength (length : Int) (elements : List Operand) : Int :=
  if length = 0 then (elements.length : Int) else length

/-- An array is declared outside of all functions, gets its storage, and is bound to it. -/
theorem ensures_declareArray (hn : c.table.InstancesNamed) (name : String) (type : DataType)
    (length count : Int) : Ensures (declareArray name type length count) c fun _ c' =>
      ∃ elements stack g t e, popMany count c = .ok elements { c with stack } ∧
        c.emitter.inFunction = false ∧ type.IsScalar ∧
        (0 < arrayLength length elements ∧ elements.length ≤ arrayLength length elements) ∧
        (∃ inst classId, g =
          { Global.ofArray name type (arrayLength length elements) with inst, classId }) ∧
        c.table.Declares false (.global g) t ∧
        Emitter.declareArray g (arrayLength length elements) elements c.emitter = .ok g e ∧
        c' = { c with stack, table := t.install (.global g), emitter := e } := by
  have hdeclared {elements : List Operand} (inst : String) (classId : Int) (c : Compilation) :
      Ensures (do
        let declared ← onEmitter (Emitter.declareArray
          { Global.ofArray name type (arrayLength length elements) with inst, classId }
          (arrayLength length elements) elements)
        onTable (SymbolTable.rebind (.global declared))) c fun _ c' => ∃ g e,
          g = { Global.ofArray name type (arrayLength length elements) with inst, classId } ∧
          (0 < arrayLength length elements ∧ elements.length ≤ arrayLength length elements) ∧
          Emitter.declareArray g (arrayLength length elements) elements c.emitter = .ok g e ∧
            c' = { c with table := c.table.install (.global g), emitter := e } := by
    rw [ensures_bind, onEmitter, ensures_zoom]
    intro declared e hrun
    obtain ⟨heq, hbounds⟩ := Emitter.ensures_declareArray _ _ _ _ declared e hrun
    obtain rfl : declared =
        { Global.ofArray name type (arrayLength length elements) with inst, classId } := by
      rw [heq, arrayLength]
      by_cases hlength : length = 0 <;> simp [Global.ofArray, hlength]
    rw [onTable, ensures_zoom]
    refine (SymbolTable.ensures_rebind _ _).mono ?_
    rintro _ _ rfl
    exact ⟨_, e, rfl, hbounds, hrun, rfl⟩
  rw [declareArray, ensures_bind]
  intro elements c₁ hpop
  obtain ⟨-, -, rfl⟩ := ensures_popMany count c elements c₁ hpop
  rw [ensures_bind]
  refine (ensures_requireOutside _ _).mono ?_
  rintro _ _ ⟨rfl, houtside⟩
  rw [ensures_bind, requireScalar, ensures_require]
  intro hscalar
  rw [ensures_bind, ensures_require]
  intro _
  rw [ensures_bind, ensures_get]
  cases hinst : c.table.instance? with
  | some inst =>
    dsimp only
    rw [ensures_bind, onTable, ensures_zoom]
    refine (ensures_declareField_declares hn hinst ⟨rfl, rfl⟩ ⟨.inr rfl, rfl⟩ (by rintro ⟨⟩)).mono ?_
    intro _ t hdeclares
    refine (hdeclared inst.name inst.classId _).mono ?_
    rintro _ _ ⟨_, e, rfl, hbounds, hrun, rfl⟩
    exact ⟨elements, _, _, t, e, hpop, houtside, hscalar, hbounds, ⟨_, _, rfl⟩, hdeclares,
      hrun, rfl⟩
  | none =>
    dsimp only
    rw [ensures_bind, onTable, ensures_zoom]
    refine (ensures_declareGlobal_declares hinst rfl ⟨.inr rfl, rfl⟩).mono ?_
    intro _ t hdeclares
    refine (hdeclared "" noClass _).mono ?_
    rintro _ _ ⟨_, e, rfl, hbounds, hrun, rfl⟩
    exact ⟨elements, _, _, t, e, hpop, houtside, hscalar, hbounds, ⟨_, _, rfl⟩, hdeclares,
      hrun, rfl⟩

end Compilation

/-! ## Notifications -/

def CommandKind.insideAfter (inside : Bool) : CommandKind → Bool
  | .declareFunction => true
  | .endFunction => false
  | _ => inside

namespace SymbolTable

variable {inside : Bool} {t t' : SymbolTable} {b : Binding} {cmd : Command}

/-- What a notification makes of the scopes, inside or outside of functions. -/
inductive Effect (inside : Bool) (t : SymbolTable) (cmd : Command) : SymbolTable → Prop
  | quiet {t' : SymbolTable} (hkind : cmd.kind ∉ [.declareVariable, .declareArray, .assign,
      .assignMember, .scan, .declareFunction, .endFunction]) (hsame : t.SameScopes t') :
      Effect inside t cmd t'
  | assign {b : Binding} {x : Place} (hkind : cmd.kind ∈ [.assign, .assignMember, .scan])
      (hb : t.binding? x = some b) (hvariable : b.kind = .variable)
      (howner : ∀ owner name, x = .field owner name → t.current = some owner ∨ cmd.target = owner)
      (type : DataType) : Effect inside t cmd (t.install (b.rebound type))
  | declare {b : Binding} {t' : SymbolTable} (hkind : cmd.kind = .declareVariable)
      (hdeclares : t.Declares inside b t') (hvariable : b.kind = .variable)
      (hname : b.name = cmd.name) : Effect inside t cmd t'
  | array {g : Global} {t' : SymbolTable} (hkind : cmd.kind = .declareArray)
      (hdeclares : t.Declares inside (.global g) t') (harray : g.kind = .array)
      (hname : g.name = cmd.name) : Effect inside t cmd (t'.install (.global g))
  | enter {t₁ t' : SymbolTable} (hkind : cmd.kind = .declareFunction) (houtside : inside = false)
      (hsame : t.SameScopes t₁)
      (hlocals : Relation.ReflTransGen (fun t t' => ∃ l, t.Declares true (.slot l) t')
        t₁.enterFunction t') : Effect inside t cmd t'
  | leave (hkind : cmd.kind = .endFunction) : Effect inside t cmd t.leaveFunction

theorem extends_locals (h : Relation.ReflTransGen (fun t t' => ∃ l, t.Declares true (.slot l) t')
    t t') : t.Extends t' ∧ (t.Keyed → t'.Keyed) ∧ t'.instances = t.instances ∧
      t'.globals = t.globals := by
  induction h with
  | refl => exact ⟨.refl t, id, rfl, rfl⟩
  | tail _ hstep ih =>
    obtain ⟨l, hl⟩ := hstep
    obtain ⟨hextends, hkeyed, hsame⟩ := ih
    refine ⟨hextends.trans hl.extends, fun hk => hl.keyed (hkeyed hk), ?_⟩
    cases hl
    exact hsame

/-- A notification keeps all bindings going, as long as their scopes last. -/
theorem Effect.follows (h : t.Effect inside cmd t') (hk : t.Keyed)
    (hinside : t.locals.isSome = inside) : t.Follows t' ∧ t'.Keyed ∧
      t'.locals.isSome = cmd.kind.insideAfter t.locals.isSome := by
  cases h with
  | quiet hkind hsame =>
    refine ⟨hsame.extends.follows, hsame.keyed hk, ?_⟩
    rw [hsame.locals]
    cases h : cmd.kind <;> first | rfl | simp [h] at hkind
  | @assign b x hkind hb hvariable howner type =>
    have hplace : (b.rebound type).place = x :=
      (b.place_rebound type).trans (hk.place_eq_of_variable hb hvariable)
    have hscoped : (b.rebound type).Scoped t := scoped_of_binding? (by rw [hplace, hb]; rfl)
    refine ⟨follows_install hscoped ?_,
      hk.install hscoped (.inr ((b.kind_rebound type).trans hvariable)), ?_⟩
    · intro b₀ hb₀
      rw [hplace, hb] at hb₀
      cases hb₀
      exact Binding.advances_rebound hvariable type
    · simp only [List.mem_cons, List.not_mem_nil, or_false] at hkind
      rw [isSome_locals_install]
      rcases hkind with hkind | hkind | hkind <;> rw [hkind] <;> rfl
  | declare hkind hdeclares hvariable hname =>
    refine ⟨hdeclares.extends.follows, hdeclares.keyed hk, ?_⟩
    rw [hdeclares.isSome_locals, hkind]
    rfl
  | @array g t₁ hkind hdeclares harray hname =>
    -- If its instance has no name, a variable of the program may be bound where the array goes.
    have hk₁ := hdeclares.keyed hk
    refine ⟨hdeclares.extends.comp (follows_install hdeclares.scoped ?_),
      hk₁.install hdeclares.scoped (.inl harray), ?_⟩
    · intro b hb
      apply Binding.advances_array (hk₁.place_eq hb).symm
      simp [Binding.kind, harray]
    · rw [isSome_locals_install, hdeclares.isSome_locals, hkind]
      rfl
  | @enter t₁ _ hkind houtside hsame hlocals =>
    have hnone : t.locals = none := by simpa [houtside] using hinside
    have hentered : t₁.enterFunction.binding? = t₁.binding? := by
      funext x
      cases x with
      | slot n => simp [binding?, local?, enterFunction, hsame.locals, hnone]
      | _ => rfl
    have hk₁ := hsame.keyed hk
    obtain ⟨hextends, hkeyed, -⟩ := extends_locals hlocals
    refine ⟨?_, hkeyed ⟨hentered ▸ hk₁.kinds, hentered ▸ hk₁.places, hk₁.names⟩, ?_⟩
    · intro x b hb _
      refine ⟨b, hextends.bindings x b ?_, .refl b⟩
      rw [hentered]
      exact hsame.extends.bindings x b hb
    · rw [hextends.locals, hkind]
      rfl
  | leave hkind =>
    have hleft (x : Place) (b : Binding) (hb : t.leaveFunction.binding? x = some b) :
        t.binding? x = some b := by
      cases x with
      | slot n => cases hb
      | _ => exact hb
    refine ⟨?_, ⟨fun x b hb => hk.kinds x b (hleft x b hb),
      fun x b hb => hk.places x b (hleft x b hb), hk.names⟩, by rw [hkind]; rfl⟩
    intro x b hb hslot
    cases x with
    | slot n => cases hslot rfl
    | _ => exact ⟨b, hb, .refl b⟩

/-- The owner of what is declared outside of functions: the current instance, or else the program,
whose name is empty. -/
def owner (t : SymbolTable) : String :=
  (t.instance?.map InstanceInfo.name).getD ""

theorem Declares.inst_eq {g : Global} (h : t.Declares inside (.global g) t')
    (hn : t.InstancesNamed) : g.inst = t.owner := by
  cases h with
  | @field g inst hcurrent hinst _ _ _ _ =>
    rw [owner, instance?, hcurrent, Option.bind_some, hinst]
    exact (hn g.inst inst hinst).symm
  | program hprogram hinst _ _ =>
    rw [owner, hprogram]
    exact hinst

theorem binding?_of_scopes {x : Place} {g : Global} (hglobals : t'.globals = t.globals)
    (hinstances : t'.instances = t.instances) (hg : t'.binding? x = some (.global g)) :
    t.binding? x = some (.global g) := by
  cases x with
  | slot n =>
    obtain ⟨l, -, hl⟩ := Option.map_eq_some_iff.mp hg
    cases hl
  | program n => rwa [binding?, hglobals] at hg
  | field owner n => rwa [binding?, hinstances] at hg

/-- An array that is bound has been bound before, or it is declared. -/
theorem Effect.array_cases {x : Place} {g : Global} (h : t.Effect inside cmd t') (hk : t.Keyed)
    (hg : t'.binding? x = some (.global g)) (harray : g.kind = .array) :
    t.binding? x = some (.global g) ∨
      cmd.kind = .declareArray ∧ g.inst = t.owner ∧ g.name = cmd.name := by
  have hvariable {b : Binding} (hb : b.kind = .variable) (heq : some b = some (.global g)) :
      False := by
    cases heq
    simp [Binding.kind, harray] at hb
  cases h with
  | quiet _ hsame => exact .inl (binding?_of_scopes hsame.globals hsame.instances hg)
  | @assign b x' _ hb hkind _ type =>
    have hplace : (b.rebound type).place = x' :=
      (b.place_rebound type).trans (hk.place_eq_of_variable hb hkind)
    rw [binding?_install (scoped_of_binding? (by rw [hplace, hb]; rfl))] at hg
    split at hg
    · exact (hvariable ((b.kind_rebound type).trans hkind) hg).elim
    · exact .inl hg
  | declare _ hdeclares hkind _ =>
    obtain ⟨_, -, hbinds, -⟩ := hdeclares.bindsAt
    rw [hbinds] at hg
    split at hg
    · exact (hvariable hkind hg).elim
    · exact .inl hg
  | @array g' t₁ hkind hdeclares _ hname =>
    have hnew (heq : some (Binding.global g') = some (.global g)) :
        cmd.kind = .declareArray ∧ g.inst = t.owner ∧ g.name = cmd.name := by
      cases heq
      exact ⟨hkind, hdeclares.inst_eq hk.names, hname⟩
    obtain ⟨_, -, hbinds, -⟩ := hdeclares.bindsAt
    rw [binding?_install hdeclares.scoped, hbinds] at hg
    split at hg
    · exact .inr (hnew hg)
    · split at hg
      · exact .inr (hnew hg)
      · exact .inl hg
  | enter _ _ hsame hlocals =>
    obtain ⟨-, -, hinstances, hglobals⟩ := extends_locals hlocals
    exact .inl (binding?_of_scopes (hglobals.trans hsame.globals)
      (hinstances.trans hsame.instances) hg)
  | leave _ =>
    have hglobals : t.leaveFunction.globals = t.globals := rfl
    exact .inl (binding?_of_scopes hglobals rfl hg)

end SymbolTable

namespace Compilation

open SymbolTable

variable {c c' : Compilation}

theorem ensures_lookup_bound (name : String) (c : Compilation) :
    Ensures (onTable (SymbolTable.lookup name)) c fun b c' => c' = c ∧ ∃ x,
      c.table.binding? x = some b ∧
        ∀ owner field, x = .field owner field → c.table.current = some owner := by
  rw [onTable, ensures_zoom]
  refine (SymbolTable.ensures_lookup name c.table).mono ?_
  rintro b _ ⟨rfl, hb⟩
  exact ⟨rfl, exists_binding?_of_resolve? hb⟩

theorem ensures_instanceField_bound (inst field : String) (c : Compilation) :
    Ensures (instanceField inst field) c fun g c' =>
      c' = c ∧ c.table.binding? (.field inst field) = some (.global g) := by
  rw [instanceField, ensures_bind, onTable, ensures_zoom]
  refine (SymbolTable.ensures_lookupInstance inst c.table).mono ?_
  rintro i _ ⟨rfl, hi⟩
  split
  · next g hg => exact ensures_pure.mpr ⟨rfl, by simp [binding?, hi, hg]⟩
  · exact ensures_reject.mpr trivial

theorem ensures_assignTo {b : Binding} (hkind : b.kind = .array ∨ b.kind = .variable)
    (value : Operand) (c : Compilation) : Ensures (assignTo b value) c fun _ c' =>
      b.kind = .variable ∧ c'.table = c.table.install (b.rebound value.type) := by
  rw [assignTo, ensures_bind, onEmitter, ensures_zoom]
  refine (Emitter.ensures_assign hkind value _).mono ?_
  rintro _ e ⟨hvariable, rfl⟩
  rw [onTable, ensures_zoom]
  refine (SymbolTable.ensures_rebind _ _).mono ?_
  rintro _ _ rfl
  exact ⟨hvariable, rfl⟩

theorem ensures_declareLocals_declares (locals : List Local) (c : Compilation) :
    Ensures (declareLocals locals) c fun _ c' => Relation.ReflTransGen
      (fun t t' => ∃ l, t.Declares true (.slot l) t') c.table c'.table := by
  induction locals generalizing c with
  | nil => exact ensures_pure.mpr .refl
  | cons l rest ih =>
    rw [declareLocals, ensures_bind, onTable, ensures_zoom]
    refine (SymbolTable.ensures_declareLocal l c.table).mono ?_
    rintro _ _ ⟨rfl, hlocals, hnone⟩
    refine (ih _).mono ?_
    intro _ c' hrest
    exact .head ⟨l, .slot hlocals hnone⟩ hrest

section Effects

variable (hkinds : ∀ x b, c.table.binding? x = some b → b.kind = .array ∨ b.kind = .variable)
  (hn : c.table.InstancesNamed) {cmd : Command}
include hkinds

theorem ensures_assign_effect (h : cmd.kind = .assign) :
    Ensures (assign cmd.name) c fun _ c' => ∀ inside, c.table.Effect inside cmd c'.table := by
  rw [assign, ensures_bind]
  refine (ensures_pop c).mono ?_
  rintro value _ ⟨stack, -, rfl⟩
  rw [ensures_bind]
  refine (ensures_lookup_bound cmd.name _).mono ?_
  rintro b _ ⟨rfl, x, hb, howner⟩
  refine (ensures_assignTo (hkinds x b hb) value _).mono ?_
  rintro _ c' ⟨hvariable, htable⟩ inside
  rw [htable]
  exact .assign (by simp [h]) hb hvariable (fun o n heq => .inl (howner o n heq)) _

theorem ensures_assignMember_effect (h : cmd.kind = .assignMember) :
    Ensures (assignMember cmd.target cmd.name) c fun _ c' =>
      ∀ inside, c.table.Effect inside cmd c'.table := by
  rw [assignMember, ensures_bind]
  refine (ensures_pop c).mono ?_
  rintro value _ ⟨stack, -, rfl⟩
  rw [ensures_bind]
  refine (ensures_instanceField_bound _ _ _).mono ?_
  rintro g _ ⟨rfl, hb⟩
  refine (ensures_assignTo (hkinds _ _ hb) value _).mono ?_
  rintro _ c' ⟨hvariable, htable⟩ inside
  rw [htable]
  exact .assign (by simp [h]) hb hvariable (fun o n heq => .inr (Place.field.inj heq).1) _

theorem ensures_scan_effect (h : cmd.kind = .scan) :
    Ensures (scan cmd.type cmd.name) c fun _ c' =>
      ∀ inside, c.table.Effect inside cmd c'.table := by
  rw [scan, ensures_bind, requireScalar, ensures_require]
  intro _
  rw [ensures_bind]
  refine (ensures_lookup_bound cmd.name c).mono ?_
  rintro b _ ⟨rfl, x, hb, howner⟩
  rw [ensures_bind, onEmitter, ensures_zoom]
  refine (Emitter.ensures_scan (hkinds x b hb) cmd.type _).mono ?_
  rintro _ e ⟨hvariable, rfl⟩
  rw [onTable, ensures_zoom]
  refine (SymbolTable.ensures_rebind _ _).mono ?_
  rintro _ _ rfl inside
  exact .assign (by simp [h]) hb hvariable (fun o n heq => .inl (howner o n heq)) _

omit hkinds
include hn

theorem ensures_declareVariable_effect (h : cmd.kind = .declareVariable) (hasInit : Bool) :
    Ensures (declareVariable cmd.name hasInit) c fun _ c' =>
      c.table.Effect c.emitter.inFunction cmd c'.table := by
  rw [declareVariable, ensures_ite]
  constructor
  · intro _
    rw [ensures_bind]
    refine (ensures_pop c).mono ?_
    rintro value _ ⟨stack, -, rfl⟩
    rw [ensures_bind]
    refine (ensures_declareScalar (c := { c with stack }) hn cmd.name value.type).mono ?_
    rintro b _ ⟨t, e, hdeclares, ⟨hname, htype, hvariable, -⟩, -, rfl⟩
    refine (ensures_assignTo (.inr hvariable) value _).mono ?_
    rintro _ c' ⟨-, htable⟩
    -- The value has the type of the variable, so that nothing changes any more.
    rw [htable, ← htype, b.rebound_type, install_of_binding? (hdeclares.binding?_place hvariable)]
    exact .declare h hdeclares hvariable hname
  · intro _
    rw [ensures_bind]
    refine (ensures_declareScalar hn cmd.name .unresolved).mono ?_
    rintro b _ ⟨t, e, hdeclares, ⟨hname, -, hvariable, -⟩, -, rfl⟩
    exact ensures_pure.mpr (.declare h hdeclares hvariable hname)

theorem ensures_declareArray_effect (h : cmd.kind = .declareArray) (length count : Int) :
    Ensures (declareArray cmd.name cmd.type length count) c fun _ c' =>
      c.table.Effect c.emitter.inFunction cmd c'.table := by
  refine (ensures_declareArray hn _ _ length count).mono ?_
  rintro _ _ ⟨elements, stack, _, t, e, -, houtside, -, -, ⟨inst, id, rfl⟩, hdeclares, -, rfl⟩
  exact .array h (houtside ▸ hdeclares) rfl rfl

omit hn

theorem ensures_declareFunction_effect (h : cmd.kind = .declareFunction) (result : DataType)
    (params : List Param) : Ensures (declareFunction cmd.name result params) c fun _ c' =>
      c.table.Effect c.emitter.inFunction cmd c'.table := by
  rw [declareFunction, ensures_bind]
  refine (ensures_requireOutside _ c).mono ?_
  rintro _ c ⟨rfl, houtside⟩
  rw [ensures_bind]
  refine (retains_openBody cmd.name result params c).mono ?_
  rintro ⟨sig, locals⟩ c₁ hsame
  rw [ensures_bind, ensures_modify, ensures_bind]
  refine (ensures_declareLocals_declares locals _).mono ?_
  intro _ c₂ hlocals
  exact ensures_modify.mpr (.enter h houtside hsame hlocals)

theorem ensures_endFunction_effect (h : cmd.kind = .endFunction) (c : Compilation) :
    Ensures endFunction c fun _ c' => ∀ inside, c.table.Effect inside cmd c'.table := by
  rw [endFunction, ensures_bind, ensures_get]
  split
  · exact ensures_reject.mpr trivial
  · rw [ensures_bind, ensures_require]
    intro _
    rw [ensures_bind, onEmitter, ensures_zoom]
    intro _ e _
    exact ensures_modify.mpr fun _ => .leave h

include hkinds hn

/-- What a notification makes of the scopes if it succeeds. -/
theorem ensures_construct_effect (cmd : Command) : Ensures (construct cmd) c fun _ c' =>
    c.table.Effect c.emitter.inFunction cmd c'.table := by
  by_cases hbinds : cmd.kind ∉ [.declareVariable, .declareArray, .assign, .assignMember, .scan,
    .declareFunction, .endFunction]
  · exact (retains_construct hbinds c).mono fun _ _ hsame => .quiet hbinds hsame
  · simp only [List.mem_cons, List.not_mem_nil, or_false, Decidable.not_not] at hbinds
    rw [construct]
    rcases hbinds with hkind | hkind | hkind | hkind | hkind | hkind | hkind <;> rw [hkind]
    · exact ensures_declareVariable_effect hn hkind _
    · exact ensures_declareArray_effect hn hkind _ _
    · exact (ensures_assign_effect hkinds hkind).mono fun _ _ h => h _
    · exact (ensures_assignMember_effect hkinds hkind).mono fun _ _ h => h _
    · exact (ensures_scan_effect hkinds hkind).mono fun _ _ h => h _
    · exact ensures_declareFunction_effect hkind _ _
    · exact (ensures_endFunction_effect hkind c).mono fun _ _ h => h _

end Effects

end Compilation

end MkCompiler
