import MkCompiler.Proofs.Coherence
import MkCompiler.Proofs.Declarations
import MkCompiler.Proofs.Outlines
import MkCompiler.Proofs.Settled

/-!
# Instances of classes

The body of a class is checked while it is recorded, and run for every instance later. Main result:
the two agree. No mistake that recording looks for is reported by a run, every notification is
compiled in the same place in which it was recorded, and if a run succeeds, the instance has the
fields of its class, and the program has one definition more for each method of the class.
-/

namespace MkCompiler

open MkCompiler.Action

namespace Compilation

open SymbolTable

variable {c c' : Compilation} {owner : String} {inst : InstanceInfo}

/-! ## Constructs in place -/

theorem sparesAt_ret {f : OpenFunction} (hinside : c.emitter.function = some f) :
    SparesAt ret c := by
  apply SparesAt.bind (works_spares.pop c) (Q := fun _ c₁ => c₁.emitter = c.emitter)
  · intro value c₁ hpop
    exact (along_pop (R := Eq) c value c₁ hpop).emitter.symm
  · intro value c₁ hemitter
    apply SparesAt.bind_spares
    · exact sparesAt_zoom (Emitter.sparesAt_ret value (hemitter ▸ hinside))
    · exact fun _ => .update _

theorem sparesAt_endFunction {sig : Signature} {f : OpenFunction} (hsig : c.function = some sig)
    (hreturned : c.returned = true) (hinside : c.emitter.function = some f) :
    SparesAt endFunction c := by
  rw [endFunction, SparesAt, ends_bind, ends_get, hsig]
  dsimp only
  rw [ends_bind, ends_require]
  refine ⟨fun _ => ?_, fun h => absurd hreturned h⟩
  apply SparesAt.bind_spares
  · exact sparesAt_zoom (Emitter.sparesAt_endFunction hinside)
  · exact fun _ => .update _

end Compilation

/-! ## The emitter in a class body -/

namespace Emitter

variable {e e' : Emitter} {kind : CommandKind}

def WritesBody (e e' : Emitter) : Prop :=
  ∀ l, e.Lays l → ∃ l', e'.Lays l' ∧ l'.closed = l.closed ∧
    l'.active.opening = l.active.opening

theorem BodyStep.writesBody (h : BodyStep e e') : WritesBody e e' := by
  intro l hl
  obtain ⟨header, slots, code, hl'⟩ := h.grows.2 l hl
  exact ⟨_, hl', rfl, rfl⟩

theorem Performs.writesBody (hkind : kind ∉ [.declareFunction, .endFunction, .endProgram])
    (h : Performs kind e e') : WritesBody e e' := by
  have hsteps := h.bodySteps hkind
  clear h
  induction hsteps with
  | refl => exact fun l hl => ⟨l, hl, rfl, rfl⟩
  | tail _ hs ih =>
    intro l hl
    obtain ⟨l₁, hl₁, hclosed₁, hopening₁⟩ := ih l hl
    obtain ⟨l₂, hl₂, hclosed₂, hopening₂⟩ := hs.writesBody l₁ hl₁
    exact ⟨l₂, hl₂, hclosed₂.trans hclosed₁, hopening₂.trans hopening₁⟩

end Emitter

def methodOpening (inst : String) (m : String × Signature) : Line :=
  .define m.2.result.irType (.method inst m.1) (m.2.params.map DataType.irType)

namespace Member

/-- What parts of the body of a class declare as fields of an instance. -/
def outlines (inst : String) (id : Nat) (members : List Member) : List FieldOutline :=
  (members.filterMap (field? id)).map fun e => ⟨e.1, e.2.kind, inst, id⟩

def openings (inst : String) (members : List Member) : List Line :=
  (members.filterMap method?).map (methodOpening inst)

end Member

namespace Compilation

open SymbolTable

variable {c c' : Compilation} {k : ClassInfo} {name : String} {closed : List Draft}
  {b b' : ClassBody} {cmd : Command}

/-- The class `k` is being run for an instance, and the part `b` of its body has been run. The
fields of that part have been declared, and its methods are defined behind the definitions
`closed`. -/
structure Runs (k : ClassInfo) (name : String) (closed : List Draft) (b : ClassBody)
    (c : Compilation) : Prop where
  sound : c.Sound (fun _ => True) (some (name, k.id)) True
  class_eq : c.table.classes[k.id]? = some k
  fields : c.table.outline? name = some (Member.outlines name k.id b.members)
  inside : c.emitter.inFunction = b.unfinished.isSome
  returned : ∀ r, b.unfinished = some r → c.returned = r.hasReturn
  layout : ∃ l drafts, c.emitter.Lays l ∧ l.closed = closed ++ drafts ∧
    drafts.map Draft.opening = Member.openings name b.members ∧
    ∀ r, b.unfinished = some r →
      r.declaration.method?.map (methodOpening name) = some l.active.opening

theorem Sound.exists_instance {S : Command → Prop} {id : Nat} {orderly : Prop}
    (h : c.Sound S (some (name, id)) orderly) : ∃ inst, c.table.current = some name ∧
      c.table.instances.find? name = some inst ∧ inst.name = name ∧ inst.classId = id := by
  obtain ⟨inst, hinst, heq⟩ := Option.map_eq_some_iff.mp h.place
  obtain ⟨owner, hcurrent, hfound⟩ := Option.bind_eq_some_iff.mp hinst
  have hname := (h.table.instances owner inst hfound).1
  obtain ⟨rfl, rfl⟩ := Prod.mk.inj heq
  rw [hname]
  exact ⟨inst, hcurrent, hfound, hname, rfl⟩

namespace Runs

/-- The instance of a run is the current one. Its fields are those that have been declared. -/
theorem exists_instance (h : Runs k name closed b c) : ∃ inst, c.table.current = some name ∧
    c.table.instances.find? name = some inst ∧ inst.name = name ∧ inst.classId = k.id ∧
    inst.fields.names = (b.fields k.id).map Prod.fst := by
  obtain ⟨inst, hcurrent, hfound, hname, hclass⟩ := h.sound.exists_instance
  refine ⟨inst, hcurrent, hfound, hname, hclass, ?_⟩
  have hfields := h.fields
  rw [outline?, hfound, Option.map_some, Option.some.injEq] at hfields
  have hnames := congrArg (List.map FieldOutline.name) hfields
  rw [InstanceInfo.outline, Member.outlines, List.map_map, List.map_map] at hnames
  exact hnames

theorem function_isSome (h : Runs k name closed b c) :
    c.function.isSome = b.unfinished.isSome := by
  rw [h.sound.function trivial, ← h.sound.emitter.inside]
  exact h.inside

theorem emitter_function_eq_none {members : List Member}
    (h : Runs k name closed ⟨members, none⟩ c) : c.emitter.function = none := by
  simpa [Emitter.inFunction] using h.inside

theorem exists_emitter_function {members : List Member} {r : OpenRoutine}
    (h : Runs k name closed ⟨members, some r⟩ c) : ∃ f, c.emitter.function = some f :=
  Option.isSome_iff_exists.mp h.inside

/-! ## What is not reported -/

theorem exists_instance?_eq (h : Runs k name closed b c) : ∃ inst, c.table.instance? = some inst ∧
    inst.classId = k.id ∧ inst.fields.names = (b.fields k.id).map Prod.fst := by
  obtain ⟨inst, hcurrent, hfound, -, hclass, hnames⟩ := h.exists_instance
  refine ⟨inst, ?_, hclass, hnames⟩
  rw [instance?, hcurrent]
  exact hfound

theorem find?_eq_none (h : Runs k name closed b c) (hadds : b.Adds cmd b')
    (hnodup : ((b'.fields k.id).map Prod.fst).Nodup) {inst : InstanceInfo}
    (hnames : inst.fields.names = (b.fields k.id).map Prod.fst)
    (hkind : cmd.kind ∈ [.declareVariable, .declareArray])
    (houtside : c.emitter.inFunction = false) : inst.fields.find? cmd.name = none := by
  apply Scope.find?_eq_none_of_not_mem
  rw [hnames]
  simp only [List.mem_cons, List.not_mem_nil, or_false] at hkind
  rw [h.inside] at houtside
  obtain ⟨g, hg⟩ : ∃ g, cmd.field? k.id = some (cmd.name, g) := by
    rcases hkind with hkind | hkind <;> exact ⟨_, by rw [Command.field?, hkind]⟩
  cases hadds with
  | single hlevel =>
    simp only [ClassBody.fields, List.filterMap_append, List.filterMap_cons, Member.field?, hg,
      List.filterMap_nil, List.map_append, List.map_cons, List.map_nil] at hnodup
    intro hmem
    exact (List.nodup_append.mp hnodup).2.2 _ hmem _ (by simp) rfl
  | enter hother => simp [hother] at hkind
  | inside hlevel => cases houtside
  | leave _ hother => simp [hother] at hkind

/-- A declaration in its place is refused for what it declares, or for what recording cannot
know. -/
theorem refusesFor_variable (h : Runs k name closed b c) (hadds : b.Adds cmd b')
    (hnodup : ((b'.fields k.id).map Prod.fst).Nodup) (hkind : cmd.kind = .declareVariable) :
    RefusesFor (∃ names, c.table.localNames = some names ∧ cmd.name ∈ names) (construct cmd) c := by
  obtain ⟨inst, hinst, -, hnames⟩ := h.exists_instance?_eq
  rw [construct, hkind]
  exact refusesFor_declareVariable h.sound hinst
    (h.find?_eq_none hadds hnodup hnames (by simp [hkind])) _

theorem refusesFor_array (h : Runs k name closed b c) (hadds : b.Adds cmd b')
    (hnodup : ((b'.fields k.id).map Prod.fst).Nodup) (hkind : cmd.kind = .declareArray) :
    RefusesFor (¬cmd.type.IsScalar ∨ cmd.length < 0 ∨ cmd.length = 0 ∧ cmd.count = 0)
      (construct cmd) c := by
  obtain ⟨inst, hinst, -, hnames⟩ := h.exists_instance?_eq
  have houtside : c.emitter.inFunction = false := by
    rw [h.inside]
    exact hadds.isSome_unfinished.2 (by simp [hkind])
  rw [construct, hkind]
  exact refusesFor_declareArray h.sound hinst houtside
    (h.find?_eq_none hadds hnodup hnames (by simp [hkind]) houtside) _ _ _

/-- A method is opened, unless two of its parameters have one name. -/
theorem ends_method (h : Runs k name closed b c) (hadds : b.Adds cmd b') (hcmd : cmd ∈ k.commands)
    (hkind : cmd.kind = .declareFunction) : Ends (construct cmd) c
      (fun _ c' => (cmd.params.map Param.name).Nodup ∧
        c'.table.localNames = some (cmd.params.map Param.name))
      fun f _ => ∃ l, f = .rejected (.localExists l) ∧ ¬(cmd.params.map Param.name).Nodup := by
  obtain ⟨inst, hinst, hclass, -⟩ := h.exists_instance?_eq
  have houtside : c.emitter.inFunction = false := by
    rw [h.inside]
    exact hadds.isSome_unfinished.2 (by simp [hkind])
  have hmethod := (h.sound.table.classes k (List.mem_of_getElem? h.class_eq)).find?_method hcmd hkind
  rw [construct, hkind]
  exact ends_declareMethod h.sound hinst houtside (hclass ▸ h.class_eq) hmethod rfl _

/-- Nothing that has been checked before is reported when the next notification is run. -/
theorem sparesAt (h : Runs k name closed b c) (hadds : b.Adds cmd b')
    (hnodup : ((b'.fields k.id).map Prod.fst).Nodup) (hcmd : cmd ∈ k.commands) :
    SparesAt (construct cmd) c := by
  by_cases hvariable : cmd.kind = .declareVariable
  · exact (h.refusesFor_variable hadds hnodup hvariable).mono (fun _ _ _ => trivial)
      fun _ _ hf => hf.1
  by_cases harray : cmd.kind = .declareArray
  · exact (h.refusesFor_array hadds hnodup harray).mono (fun _ _ _ => trivial) fun _ _ hf => hf.1
  by_cases hother : cmd.kind ∉ [.ret, .declareFunction, .endFunction]
  · apply spares_construct
    have hsimple := hadds.kind
    simp only [List.mem_cons, List.not_mem_nil, or_false, not_or] at hsimple hother ⊢
    exact ⟨hvariable, harray, hother.1, hother.2.1, hother.2.2, hsimple.1, hsimple.2.1,
      hsimple.2.2.2⟩
  simp only [List.mem_cons, List.not_mem_nil, or_false, Decidable.not_not] at hother
  rcases hother with hkind | hkind | hkind
  · obtain ⟨r, hr⟩ := Option.isSome_iff_exists.mp (hadds.isSome_unfinished.1 (by simp [hkind]))
    obtain ⟨members, unfinished⟩ := b
    obtain rfl : unfinished = some r := hr
    obtain ⟨f, hf⟩ := h.exists_emitter_function
    rw [construct, hkind]
    exact sparesAt_ret hf
  · apply (h.ends_method hadds hcmd hkind).mono
    · intro _ _ _
      trivial
    · rintro _ _ ⟨l, rfl, -⟩
      rfl
  · cases hadds with
    | leave hreturn _ =>
      obtain ⟨f, hf⟩ := h.exists_emitter_function
      obtain ⟨sig, hsig⟩ := Option.isSome_iff_exists.mp h.function_isSome
      rw [construct, hkind]
      exact sparesAt_endFunction hsig ((h.returned _ rfl).trans hreturn) hf
    | enter hfunction => simp [hfunction] at hkind
    | single hlevel | inside hlevel =>
      simp [hkind, CommandKind.isClassLevel, CommandKind.isBodyLevel] at hlevel

/-! ## What is compiled -/

theorem proceed (h : Runs k name closed b c)
    (hkind : cmd.kind ∉ [.declareFunction, .endFunction, .endProgram])
    (halong : Along (Emitter.Performs cmd.kind) c c')
    (hsound : c'.Sound (fun _ => True) (some (name, k.id)) True)
    (hfields : c'.table.outline? name = some (Member.outlines name k.id b'.members))
    (hopenings : Member.openings name b'.members = Member.openings name b.members)
    (hplace : b'.unfinished.map OpenRoutine.declaration = b.unfinished.map OpenRoutine.declaration)
    (hreturned : ∀ r, b'.unfinished = some r → c'.returned = r.hasReturn) :
    Runs k name closed b' c' := by
  refine ⟨hsound, halong.classes ▸ h.class_eq, hfields, ?_, hreturned, ?_⟩
  · have hsome := congrArg Option.isSome hplace
    rw [Option.isSome_map, Option.isSome_map] at hsome
    have hinside : cmd.kind.insideAfter c.emitter.inFunction = c.emitter.inFunction := by
      revert hkind
      cases cmd.kind <;> simp [CommandKind.insideAfter]
    rw [halong.emitter.inFunction_eq (fun heq => hkind (by simp [heq])), hinside, h.inside, hsome]
  · obtain ⟨l, drafts, hl, hclosed, hdrafts, hopening⟩ := h.layout
    obtain ⟨l', hl', hclosed', hopening'⟩ := halong.emitter.writesBody hkind l hl
    refine ⟨l', drafts, hl', hclosed'.trans hclosed, hdrafts.trans hopenings.symm, ?_⟩
    intro r hr
    rw [hr, Option.map_some] at hplace
    obtain ⟨r₀, hr₀, hdeclaration⟩ := Option.map_eq_some_iff.mp hplace.symm
    rw [← hdeclaration, hopening', hopening r₀ hr₀]

/-- The fields that a notification outside of the methods declares are added to the instance. -/
theorem outline?_single {members : List Member} (h : Runs k name closed ⟨members, none⟩ c)
    (hlevel : cmd.kind.isClassLevel = true) (hok : construct cmd c = .ok () c') :
    c'.table.outline? name =
      some (Member.outlines name k.id (members ++ [.single cmd hlevel])) := by
  obtain ⟨inst, hcurrent, hfound, hname, hclass, -⟩ := h.exists_instance
  have heffect := ensures_construct_sound h.sound.table cmd () c' hok
  by_cases hother : cmd.kind ∉ [.declareVariable, .declareArray]
  · have hkeeps := heffect.sameOutlines h.sound.table fun hkind => absurd hkind hother
    have hfield : cmd.field? k.id = none := by
      rw [Command.field?]
      split <;> simp_all
    rw [congrFun hkeeps name, h.fields]
    simp [Member.outlines, Member.field?, hfield]
  · obtain ⟨g, hg⟩ : ∃ g, cmd.field? k.id = some (cmd.name, g) := by
      simp only [List.mem_cons, List.not_mem_nil, or_false, Decidable.not_not] at hother
      rcases hother with hkind | hkind <;> exact ⟨_, by rw [Command.field?, hkind]⟩
    rw [h.inside] at heffect
    rw [heffect.outline?_eq hcurrent hfound hg, h.fields, hclass]
    simp [Member.outlines, Member.field?, hg]

theorem sameOutlines_inside {members : List Member} {r : OpenRoutine}
    (h : Runs k name closed ⟨members, some r⟩ c) (hok : construct cmd c = .ok () c') :
    c.table.SameOutlines c'.table :=
  (ensures_construct_sound h.sound.table cmd () c' hok).sameOutlines h.sound.table
    fun _ => h.inside

end Runs

theorem ensures_declareMethod {inst : InstanceInfo} {sig : Signature}
    (hinst : c.table.instance? = some inst) (hk : c.table.classes[inst.classId]? = some k)
    {method : String} (hsig : k.methods.find? method = some sig) (result : DataType)
    (params : List Param) : Ensures (declareFunction method result params) c fun _ c' =>
      c'.returned = false ∧ ∀ l, c.emitter.Lays l → ∃ slots, c'.emitter.Lays
        (l.enter (.define sig.result.irType (.method inst.name sig.name)
          (params.map fun p => p.type.irType)) slots) := by
  rw [declareFunction, ensures_bind]
  refine (ensures_requireOutside _ c).mono ?_
  rintro _ c ⟨rfl, -⟩
  rw [ensures_bind, openBody, ensures_bind, ensures_get, hinst]
  dsimp only
  rw [ensures_bind, onTable, ensures_zoom]
  refine SymbolTable.ensures_classAt_nat.mpr ?_
  intro k' hk'
  obtain rfl : k = k' := Option.some.inj (hk.symm.trans hk')
  rw [hsig]
  dsimp only
  rw [ensures_bind, onEmitter, ensures_zoom]
  refine (Emitter.ensures_openFunction _ _ _ _).mono ?_
  rintro locals e ⟨-, -, -, -, -, -, hlays, -⟩
  rw [ensures_pure, ensures_bind, ensures_modify, ensures_bind]
  intro _ c₁ hlocals
  have halong := along_declareLocals locals _ () c₁ hlocals
  rw [ensures_modify]
  refine ⟨rfl, fun l hl => ⟨Emitter.paramCode 0 params, ?_⟩⟩
  rw [← halong.emitter]
  exact hlays l hl

namespace Runs

theorem enter {members : List Member} (h : Runs k name closed ⟨members, none⟩ c)
    (hkind : cmd.kind = .declareFunction) (hcmd : cmd ∈ k.commands)
    (halong : Along (Emitter.Performs cmd.kind) c c')
    (hsound : c'.Sound (fun _ => True) (some (name, k.id)) True)
    (hok : construct cmd c = .ok () c') :
    Runs k name closed ⟨members, some ⟨cmd, [], hkind, by simp⟩⟩ c' := by
  obtain ⟨inst, hcurrent, hfound, hname, hclass, -⟩ := h.exists_instance
  have hinst : c.table.instance? = some inst := by
    rw [instance?, hcurrent]
    exact hfound
  have hmethod := (h.sound.table.classes k (List.mem_of_getElem? h.class_eq)).find?_method hcmd hkind
  have hkeeps := (ensures_construct_sound h.sound.table cmd () c' hok).sameOutlines h.sound.table
    (by simp [hkind])
  have hopen := hok
  rw [construct, hkind] at hopen
  obtain ⟨hreturned, hlays⟩ := ensures_declareMethod hinst (hclass ▸ h.class_eq) hmethod
    cmd.type cmd.params () c' hopen
  refine ⟨hsound, halong.classes ▸ h.class_eq, (congrFun hkeeps name).trans h.fields, ?_, ?_, ?_⟩
  · rw [halong.emitter.inFunction_eq (by simp [hkind]), hkind]
    rfl
  · rintro r ⟨⟩
    exact hreturned
  · obtain ⟨l, drafts, hl, hclosed, hdrafts, -⟩ := h.layout
    obtain ⟨slots, hl'⟩ := hlays l hl
    refine ⟨_, drafts, hl', hclosed, hdrafts, ?_⟩
    rintro r ⟨⟩
    simp [Command.method?, hkind, methodOpening, Layout.enter, hname, Signature.ofParams]

theorem leave {members : List Member} {r : OpenRoutine}
    (h : Runs k name closed ⟨members, some r⟩ c) (hreturn : r.hasReturn = true)
    (hkind : cmd.kind = .endFunction) (halong : Along (Emitter.Performs cmd.kind) c c')
    (hsound : c'.Sound (fun _ => True) (some (name, k.id)) True)
    (hok : construct cmd c = .ok () c') :
    Runs k name closed ⟨members ++ [.method ⟨r, cmd, hreturn, hkind⟩], none⟩ c' := by
  have hkeeps := (ensures_construct_sound h.sound.table cmd () c' hok).sameOutlines h.sound.table
    (by simp [hkind])
  refine ⟨hsound, halong.classes ▸ h.class_eq, ?_, ?_, ?_, ?_⟩
  · rw [congrFun hkeeps name, h.fields]
    simp [Member.outlines, Member.field?]
  · rw [halong.emitter.inFunction_eq (by simp [hkind]), hkind]
    rfl
  · intro r' hr'
    cases hr'
  · obtain ⟨l, drafts, hl, hclosed, hdrafts, hopening⟩ := h.layout
    have hperforms : Emitter.endFunction c.emitter = .ok () c'.emitter := by
      have hemitter := halong.emitter
      rw [hkind] at hemitter
      exact hemitter
    obtain ⟨f, o, -, -, -, -, hlays⟩ := Emitter.ensures_endFunction c.emitter () _ hperforms
    obtain ⟨d, -, hl'⟩ := hlays l hl
    refine ⟨_, drafts ++ [(l.grow [] [] (Emitter.closingCode f.context.detached)).active], hl', ?_,
      ?_, ?_⟩
    · rw [← List.append_assoc, ← hclosed]
      rfl
    · have hmethod := hopening r rfl
      obtain ⟨m, hm, hline⟩ := Option.map_eq_some_iff.mp hmethod
      simp [Member.openings, Member.method?, hm, hline, hdrafts, Layout.grow]
    · intro r' hr'
      cases hr'

theorem step (h : Runs k name closed b c) (hadds : b.Adds cmd b') (hcmd : cmd ∈ k.commands) :
    Ensures (construct cmd) c fun _ c' => Runs k name closed b' c' := by
  intro _ c' hok
  have hkind : cmd.kind ∉ [.beginClass, .endClass, .declareInstance, .endProgram] :=
    hadds.kind
  have hsound := (ends_replayed hkind h.sound h.class_eq hcmd).of_ok hok
  have halong : Along (Emitter.Performs cmd.kind) c c' := by
    simp only [List.mem_cons, List.not_mem_nil, or_false, not_or] at hkind
    exact along_construct hkind.1 hkind.2.1 hkind.2.2.2 c () c' hok
  cases hadds with
  | single hlevel =>
    refine h.proceed ?_ halong hsound (h.outline?_single hlevel hok) ?_ rfl ?_
    · simp only [List.mem_cons, List.not_mem_nil, or_false, not_or]
      refine ⟨?_, ?_, ?_⟩ <;> rintro heq <;> simp [heq, CommandKind.isClassLevel] at hlevel
    · simp [Member.openings, Member.method?]
    · intro r hr
      cases hr
  | enter hfunction => exact h.enter hfunction hcmd halong hsound hok
  | @inside members r _ hlevel =>
    refine h.proceed ?_ halong hsound ?_ rfl rfl ?_
    · simp only [List.mem_cons, List.not_mem_nil, or_false, not_or]
      refine ⟨?_, ?_, ?_⟩ <;> rintro heq <;> simp [heq, CommandKind.isBodyLevel] at hlevel
    · exact (congrFun (h.sameOutlines_inside hok) name).trans h.fields
    · rintro _ ⟨⟩
      rw [OpenRoutine.hasReturn_add, ← h.returned r rfl]
      exact ensures_construct_returned hlevel c () c' hok
  | leave hreturn hend => exact h.leave hreturn hend halong hsound hok

/-- The body of the class is run. If it fails, what has been checked before is not the reason. -/
theorem ends_replay {body : List Command} (h : Runs k name closed b c) (hgrows : b.Grows body b')
    (hbody : ∀ cmd ∈ body, cmd ∈ k.commands) (hnodup : ((b'.fields k.id).map Prod.fst).Nodup) :
    Ends (replay body) c (fun _ c' => Runs k name closed b' c')
      fun stop _ => stop.failure.isSettled = false := by
  induction hgrows generalizing c with
  | nil => exact h
  | cons hadds hrest ih =>
    rw [replay, ends_bind, ends_locate]
    have hcmd := hbody _ (List.mem_cons_self ..)
    apply ((h.sparesAt hadds (hrest.fields_nodup hnodup) hcmd).ends (h.step hadds hcmd)).mono
    · intro _ c₁ h₁
      exact ih h₁ (fun cmd' hcmd' => hbody cmd' (List.mem_cons_of_mem _ hcmd')) hnodup
    · intro f c₁ hf
      exact hf

end Runs

/-! ## Declaring an instance -/

theorem spares_openInstance (name className : String) : Spares (openInstance name className) := by
  have houtside : Spares (requireOutside (.instanceInsideFunction name)) := by
    refine Spares.get.bind fun c => .ite ?_ (.pure _)
    cases c.function with
    | some f => exact .reject rfl
    | none => exact .throw rfl
  exact houtside.bind fun _ => (spares_onTable (SymbolTable.spares_declareInstance _ _)).bind
    fun _ => (spares_onTable (composes_spares.classAt _)).bind fun _ =>
      (Spares.update _).bind fun _ => .pure _

theorem Orderly.ensures_openInstance (h : c.Orderly) {className : String}
    (hclass : c.table.class? className = some k) {l : Layout} (hl : c.emitter.Lays l) :
    Ensures (openInstance name className) c fun body c' =>
      body = k.commands ∧ c.emitter.function = none ∧ Runs k name l.closed .empty c' := by
  intro body c' hopen
  obtain ⟨k', hopened, rfl, rfl, hsound, hk⟩ := (Compilation.ends_openInstance continues_trivial
    h.sound (Command.instantiates_true name) className fun _ => trivial).of_ok hopen
  obtain rfl : k = k' := Option.some.inj (hclass.symm.trans hopened.class_eq)
  refine ⟨rfl, ?_, hsound, hk, ?_, hopened.outside, ?_, l, [], hl, by simp, rfl, ?_⟩
  · simpa [Emitter.inFunction] using hopened.outside
  · simp [outline?, InstanceInfo.outline, Member.outlines, ClassBody.empty, Scope.empty,
      withInstance]
  · intro r hr
    cases hr
  · intro r hr
    cases hr

theorem Orderly.ends_declareInstance (h : c.Orderly) {className : String} {members : List Member}
    (hclass : c.table.class? className = some k) (hk : k.Transcribes ⟨members, none⟩) {l : Layout}
    (hl : c.emitter.Lays l) (line : Int) (name : String) :
    Ends (declareInstance line name className) c
      (fun _ c' => c.emitter.function = none ∧ ∃ c₁, Runs k name l.closed ⟨members, none⟩ c₁ ∧
        c' = { c₁ with table := c₁.table.setInstance none })
      fun stop _ => stop.failure.isSettled = false := by
  rw [declareInstance, ends_bind, ends_locate]
  apply ((spares_openInstance name className c).ends (h.ensures_openInstance hclass hl)).mono
  · rintro body c₁ ⟨rfl, hnone, hruns⟩
    rw [ends_leavingInstance]
    have hgrows := ClassBody.grows_commands ⟨members, none⟩
    rw [← hk.commands] at hgrows
    apply (hruns.ends_replay hgrows (fun _ hcmd => hcmd) ?_).mono
    · intro _ c₂ h₂
      exact ⟨hnone, c₂, h₂, rfl⟩
    · intro stop c₂ hstop
      exact hstop
    · rw [← hk.fields]
      exact hk.fields_nodup
  · intro f c₁ hf
    exact hf

section Replay

variable {className : String} {members : List Member} {body front rest : List Command}
  {next : Command} {c₀ c₁ : Compilation} (h : c.Orderly)
  (hclass : c.table.class? className = some k) (hk : k.Transcribes ⟨members, none⟩)
  (hprogram : c.program = none) (hopen : openInstance name className c = .ok body c₀)
  (hbody : body = front ++ next :: rest) (hreplay : replay front c₀ = .ok () c₁)
include h hclass hk hprogram hopen hbody hreplay

/-- The run for an instance comes to each notification of the body. -/
theorem Orderly.runs_of_replay :
    ∃ closed b₁ b₂, body = k.commands ∧ Runs k name closed .empty c₀ ∧ Runs k name closed b₁ c₁ ∧
      ClassBody.empty.Grows front b₁ ∧ b₁.Adds next b₂ ∧
      ((b₂.fields k.id).map Prod.fst).Nodup := by
  obtain ⟨l, hl⟩ := h.lays hprogram
  obtain ⟨rfl, -, hruns⟩ := h.ensures_openInstance hclass hl body c₀ hopen
  have hgrows := ClassBody.grows_commands ⟨members, none⟩
  rw [← hk.commands, hbody] at hgrows
  obtain ⟨b₁, hfront, hrest⟩ := ClassBody.grows_append.mp hgrows
  have hnodup := hk.fields_nodup
  rw [Scope.names, hk.fields] at hnodup
  have hmem : ∀ cmd ∈ front, cmd ∈ k.commands := by
    intro cmd hcmd
    rw [hbody]
    exact List.mem_append_left _ hcmd
  have hruns₁ := (hruns.ends_replay hfront hmem (hrest.fields_nodup hnodup)).of_ok hreplay
  obtain _ | ⟨hadds, hrest⟩ := hrest
  exact ⟨l.closed, b₁, _, rfl, hruns, hruns₁, hfront, hadds, hrest.fields_nodup hnodup⟩

/-- Every notification is run where it was recorded. -/
theorem Orderly.inFunction_of_replay :
    (next.kind ∈ [.ret, .endFunction, .beginCondition, .compare, .endIf, .endWhile] →
      c₁.emitter.inFunction = true) ∧
    (next.kind ∈ [.declareFunction, .declareArray] → c₁.emitter.inFunction = false) := by
  obtain ⟨closed, b₁, b₂, -, -, hruns₁, -, hadds, -⟩ :=
    h.runs_of_replay hclass hk hprogram hopen hbody hreplay
  rw [hruns₁.inside]
  exact hadds.isSome_unfinished

end Replay

theorem Orderly.ends_handle_recording (h : c.Orderly) (hkind : cmd.kind = .declareInstance) {id : Nat}
    (hid : c.recording = some id) : Ends (handle cmd) c (fun _ _ => False)
      fun stop _ => stop.failure.isSettled = false := by
  obtain ⟨k, -, hk, -⟩ := h.recorded.opened id hid
  rw [handle, ends_bind, ends_get, ends_ite]
  refine ⟨fun _ => ends_throw.mpr rfl, fun _ => ?_⟩
  rw [hid]
  dsimp only
  rw [if_neg (by simp [hkind]), ends_locate, record, ends_bind, onTable, ends_zoom]
  apply SymbolTable.ends_classAt hk
  rw [ends_bind, checkRecorded, ends_bind, ends_get, hkind]
  exact ends_reject.mpr rfl

theorem Orderly.ends_handle (h : c.Orderly) (hkind : cmd.kind = .declareInstance)
    {members : List Member} (hclass : c.table.class? cmd.target = some k)
    (hk : k.Transcribes ⟨members, none⟩) : Ends (handle cmd) c
      (fun _ c' => ∃ l c₁, c.emitter.Lays l ∧ c.emitter.function = none ∧
        Runs k cmd.name l.closed ⟨members, none⟩ c₁ ∧
        c' = { c₁ with table := c₁.table.setInstance none })
      fun stop _ => stop.failure.isSettled = false := by
  cases hprogram : c.program with
  | some lines =>
    rw [handle, ends_bind, ends_get, ends_ite]
    exact ⟨fun _ => ends_throw.mpr rfl, fun hended => absurd (by simp [ended, hprogram]) hended⟩
  | none =>
    cases hid : c.recording with
    | some id =>
      apply (h.ends_handle_recording hkind hid).mono
      · intro _ _ hfalse
        exact hfalse.elim
      · intro _ _ hstop
        exact hstop
    | none =>
      obtain ⟨l, hl⟩ := h.lays hprogram
      rw [Ends, handle_eq_declareInstance hprogram hid hkind, ← Ends]
      apply (h.ends_declareInstance hclass hk hl cmd.line cmd.name).mono
      · rintro _ c' ⟨hnone, c₁, h₁, rfl⟩
        exact ⟨l, c₁, hl, hnone, h₁, rfl⟩
      · intro _ _ hstop
        exact hstop

/-- What a declaration of an instance leaves behind. -/
theorem Runs.leaveInstance {members : List Member} (h : Runs k name closed ⟨members, none⟩ c)
    (hk : k.Transcribes ⟨members, none⟩) :
    (c.function = none ∧ c.table.locals = none ∧ c.emitter.function = none ∧
      c.emitter.output.routing = .direct .entryBody) ∧
    (∃ inst, c.table.instances.find? name = some inst ∧ inst.classId = k.id ∧
      inst.outline = k.fields.entries.map fun e => ⟨e.1, e.2.kind, name, k.id⟩) ∧
    ∃ drafts : List Draft,
      c.emitter.output.functions =
        (closed ++ drafts).flatMap (fun d => d.toDefinition.lines) ∧
      drafts.map Draft.opening = k.methods.entries.map (methodOpening name) ∧
      ∀ d ∈ drafts, d.Closed := by
  have hfunction := h.function_isSome
  have hlocals := h.sound.function trivial
  have hemitter := h.emitter_function_eq_none
  obtain ⟨l, drafts, hl, hclosed, hdrafts, -⟩ := h.layout
  have hsuspended := hl.suspended_eq_none hemitter
  refine ⟨⟨?_, ?_, hemitter, ?_⟩, ?_, drafts, ?_, ?_, ?_⟩
  · simpa using hfunction
  · rw [hfunction] at hlocals
    simpa using hlocals.symm
  · rw [hl.output]
    simp [Layout.assembly, Layout.target, hsuspended]
  · obtain ⟨inst, -, hfound, -, hclass, -⟩ := h.exists_instance
    refine ⟨inst, hfound, hclass, ?_⟩
    have hfields := h.fields
    rw [outline?, hfound, Option.map_some, Option.some.injEq] at hfields
    rw [hfields, hk.fields]
    rfl
  · rw [hl.output, ← hclosed]
    simp [Layout.assembly, Layout.closedLines, hsuspended]
  · rw [hdrafts, hk.methods_eq]
    rfl
  · intro d hd
    apply hl.closed
    rw [hclosed]
    exact List.mem_append_right _ hd

/-- What recording has checked, running relies on. Whenever an instance of a closed class is
declared and nothing has failed before, no mistake is reported that recording looks for. Each
notification of the body is run inside of a function exactly if it was recorded inside of a method.
If all of it is run, the compilation is outside of all functions again, the instance has the fields
of its class, each a variable or an array as in the class, and behind the definitions of functions
there is one more for each method of the class, with the signature of that method. -/
theorem declareInstance_meets_recording {file : String} {symbols : RuntimeSymbols}
    {stream : List Command} (hc : handled? stream (start file symbols) = some c)
    (hkind : cmd.kind = .declareInstance) (hclass : c.table.class? cmd.target = some k)
    (hfrozen : k.frozen = true) :
    (∀ stop c', handle cmd c = .error stop c' → stop.failure.isSettled = false) ∧
    (∀ body front next rest c₀ c₁, c.program = none →
      openInstance cmd.name cmd.target c = .ok body c₀ → body = front ++ next :: rest →
      replay front c₀ = .ok () c₁ →
      (next.kind ∈ [.ret, .endFunction, .beginCondition, .compare, .endIf, .endWhile] →
        c₁.emitter.inFunction = true) ∧
      (next.kind ∈ [.declareFunction, .declareArray] → c₁.emitter.inFunction = false)) ∧
    ∀ c', handle cmd c = .ok () c' →
      (c'.function = none ∧ c'.table.locals = none ∧ c'.table.current = none ∧
        c'.emitter.function = none ∧ c'.emitter.output.routing = .direct .entryBody) ∧
      (∃ inst, c'.table.instances.find? cmd.name = some inst ∧ inst.classId = k.id ∧
        inst.outline = k.fields.entries.map fun e => ⟨e.1, e.2.kind, cmd.name, k.id⟩) ∧
      ∃ ds : List Definition,
        c'.emitter.output.functions =
          c.emitter.output.functions ++ ds.flatMap Definition.lines ∧
        ds.map Definition.opening = k.methods.entries.map (methodOpening cmd.name) ∧
        ∀ d ∈ ds, ∀ line ∈ d.body, line.isCode = true := by
  have h : c.Orderly := (orderly_start file symbols).of_handled hc
  obtain ⟨members, hk⟩ := h.recorded.closed _ k (h.recorded.getElem?_of_class? hclass) hfrozen
  have hrun := h.ends_handle hkind hclass hk
  refine ⟨?_, ?_, ?_⟩
  · intro stop c' herror
    exact hrun.of_error herror
  · intro body front next rest c₀ c₁ hprogram hopen hbody hreplay
    exact h.inFunction_of_replay hclass hk hprogram hopen hbody hreplay
  · intro c' hok
    obtain ⟨l, c₁, hl, hnone, hruns, rfl⟩ := hrun.of_ok hok
    obtain ⟨⟨hfunction, hlocals, hemitter, hrouting⟩, hinstance, drafts, hfunctions, hmethods,
      hclosed⟩ := hruns.leaveInstance hk
    refine ⟨⟨hfunction, hlocals, rfl, hemitter, hrouting⟩, hinstance,
      drafts.map Draft.toDefinition, ?_, ?_, ?_⟩
    · have hfunctions₀ : c.emitter.output.functions = l.closedLines := by
        rw [hl.output]
        simp [Layout.assembly, hl.suspended_eq_none hnone]
      rw [hfunctions₀, List.flatMap_map]
      simpa [Layout.closedLines] using hfunctions
    · rw [List.map_map]
      exact hmethods
    · intro d hd
      obtain ⟨draft, hdraft, rfl⟩ := List.mem_map.mp hd
      exact (hclosed draft hdraft).isCode

def fieldedClassStream : List Command :=
  [{ kind := .beginClass, name := "P" },
    { kind := .declareVariable, name := "n" },
    { kind := .declareArray, name := "a", type := .int, length := 2 },
    { kind := .declareFunction, name := "top", type := .int,
      params := [{ name := "x", type := .int }] },
    { kind := .beginCondition }, { kind := .name, name := "x" }, { kind := .int, text := "2" },
    { kind := .compare, text := "<" }, { kind := .endIf },
    { kind := .name, name := "x" }, { kind := .ret }, { kind := .endFunction },
    { kind := .endClass }]

def fieldedInstance : Command :=
  { kind := .declareInstance, name := "p", target := "P" }

theorem declareInstance_meets_recording_sample : ∃ c c',
    handled? fieldedClassStream (start "sample.mk" .standard) = some c ∧
    handle fieldedInstance c = .ok () c' ∧
    (∃ inst, c'.table.instances.find? "p" = some inst ∧
      inst.outline = [⟨"n", .variable, "p", 0⟩, ⟨"a", .array, "p", 0⟩]) ∧
    ∃ d : Definition, c'.emitter.output.functions = d.lines ∧
      d.opening = .define .i32 (.method "p" "top") [.i32] := by
  have hclass : ((handled? fieldedClassStream (start "sample.mk" .standard)).bind fun c =>
      c.table.class? "P").map (fun k => (k.frozen, k.fields.entries.map fun e => (e.1, e.2.kind))) =
        some (true, [("n", .variable), ("a", .array)]) := by
    decide +kernel
  have hclass' : ((handled? fieldedClassStream (start "sample.mk" .standard)).bind fun c =>
      c.table.class? "P").map (fun k => (k.id, k.methods.entries)) =
        some (0, [("top", ⟨"top", .int, [.int]⟩)]) := by
    decide +kernel
  have hrun : ((handled? fieldedClassStream (start "sample.mk" .standard)).bind
      (handled? [fieldedInstance])).isSome = true := by
    decide +kernel
  have hnone : ((handled? fieldedClassStream (start "sample.mk" .standard)).map fun c =>
      c.emitter.output.functions) = some [] := by
    decide +kernel
  obtain ⟨k, hk, heq⟩ := Option.map_eq_some_iff.mp hclass
  rw [hk, Option.map_some, Option.some.injEq] at hclass'
  obtain ⟨c, hc, hk⟩ := Option.bind_eq_some_iff.mp hk
  rw [hc] at hrun
  rw [hc, Option.map_some, Option.some.injEq] at hnone
  obtain ⟨c', hc'⟩ := Option.isSome_iff_exists.mp hrun
  have hok := handled?_single.mp hc'
  obtain ⟨hfrozen, hfields⟩ := Prod.mk.inj heq
  obtain ⟨hid, hmethods⟩ := Prod.mk.inj hclass'
  have hkind : fieldedInstance.kind = .declareInstance := rfl
  obtain ⟨-, -, hsuccess⟩ := declareInstance_meets_recording hc hkind hk hfrozen
  obtain ⟨-, ⟨inst, hinst, -, houtline⟩, ds, hlines, hopenings, -⟩ := hsuccess c' hok
  refine ⟨c, c', hc, hok, ⟨inst, hinst, ?_⟩, ?_⟩
  · have hmap := congrArg (List.map fun e : String × ObjectKind =>
      (⟨e.1, e.2, "p", 0⟩ : FieldOutline)) hfields
    rw [List.map_map] at hmap
    rw [houtline, hid]
    exact hmap
  · rw [hmethods] at hopenings
    obtain ⟨d, rest, rfl, hd, hrest⟩ := List.map_eq_cons_iff.mp hopenings
    obtain rfl := List.map_eq_nil_iff.mp hrest
    refine ⟨d, ?_, hd⟩
    rw [hlines, hnone]
    simp

end Compilation

end MkCompiler
