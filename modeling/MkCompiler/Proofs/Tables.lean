import MkCompiler.Proofs.Recording

/-!
# Order in the symbol table

Every entry of the table stands under its own name and in the scope that owns its storage, and the
methods of a class are those that its recorded body defines. New entries keep it so.
-/

namespace MkCompiler

open MkCompiler.Action

/-- The storage of a name. It belongs to the program if the owner is empty and to the instance of
that name otherwise. -/
structure Global.Belongs (g : Global) (owner name : String) : Prop where
  name_eq : g.name = name
  inst_eq : g.inst = owner
  stored : g.Stored

namespace Scope

variable {α : Type}

theorem get?_eq_some_of_mem {l : List (String × α)} (hnodup : (l.map Prod.fst).Nodup)
    {name : String} {a : α} (h : (name, a) ∈ l) : get? name l = some a := by
  induction l with
  | nil => cases h
  | cons entry rest ih =>
    obtain ⟨n, b⟩ := entry
    rw [List.map_cons, List.nodup_cons] at hnodup
    rcases List.mem_cons.mp h with heq | hrest
    · cases heq
      simp [get?]
    · have hne : name ≠ n := by
        rintro rfl
        exact hnodup.1 (List.mem_map.mpr ⟨(name, a), hrest, rfl⟩)
      simp [get?, hne, ih hnodup.2 hrest]

theorem mem_of_get?_eq_some {l : List (String × α)} {name : String} {a : α}
    (h : get? name l = some a) : (name, a) ∈ l := by
  induction l with
  | nil => cases h
  | cons entry rest ih =>
    obtain ⟨n, b⟩ := entry
    by_cases hn : name = n
    · subst hn
      simp only [get?, if_true, Option.some.injEq] at h
      simp [h]
    · simp only [get?, if_neg hn] at h
      exact List.mem_cons_of_mem _ (ih h)

theorem put_eq_append {l : List (String × α)} {name : String} (h : get? name l = none) (a : α) :
    put name a l = l ++ [(name, a)] := by
  induction l with
  | nil => rfl
  | cons entry rest ih =>
    obtain ⟨n, b⟩ := entry
    by_cases hn : name = n
    · simp [get?, hn] at h
    · simp only [get?, if_neg hn] at h
      simp [put, hn, ih h]

theorem not_mem_of_get?_eq_none {l : List (String × α)} {name : String} (h : get? name l = none) :
    name ∉ l.map Prod.fst := by
  induction l with
  | nil => simp
  | cons entry rest ih =>
    obtain ⟨n, b⟩ := entry
    by_cases hn : name = n
    · simp [get?, hn] at h
    · simp only [get?, if_neg hn] at h
      simpa [hn] using ih h

theorem find?_eq_none_of_not_mem {s : Scope α} {name : String} (h : name ∉ s.names) :
    s.find? name = none := by
  cases hfound : s.find? name with
  | none => rfl
  | some a => exact absurd (List.mem_map.mpr ⟨_, mem_of_get?_eq_some hfound, rfl⟩) h

theorem entries_insert_of_find?_eq_none {s : Scope α} {name : String}
    (h : s.find? name = none) (a : α) : (s.insert name a).entries = s.entries ++ [(name, a)] :=
  put_eq_append h a

theorem names_insert_of_find?_eq_none {s : Scope α} {name : String}
    (h : s.find? name = none) (a : α) : (s.insert name a).names = s.names ++ [name] := by
  rw [names, entries_insert_of_find?_eq_none h, List.map_append]
  rfl

theorem names_insert_of_find?_eq_some {s : Scope α} {name : String} {b : α}
    (h : s.find? name = some b) (a : α) : (s.insert name a).names = s.names := by
  have hput (l : List (String × α)) (hl : get? name l = some b) :
      (put name a l).map Prod.fst = l.map Prod.fst := by
    induction l with
    | nil => cases hl
    | cons entry rest ih =>
      obtain ⟨n, x⟩ := entry
      by_cases hn : name = n
      · simp [put, hn]
      · simp only [get?, if_neg hn] at hl
        simp [put, hn, ih hl]
  exact hput s.entries h

theorem nodup_names_insert {s : Scope α} {name : String} (hs : s.names.Nodup)
    (h : s.find? name = none) (a : α) : (s.insert name a).names.Nodup := by
  rw [names, entries_insert_of_find?_eq_none h, List.map_append, List.nodup_append]
  refine ⟨hs, by simp, ?_⟩
  intro old hold new hnew heq
  rw [heq, List.mem_singleton.mp hnew] at hold
  exact not_mem_of_get?_eq_none h hold

end Scope

/-- The methods of a class are those that its body declares, each once. What is recorded in the body
has the property `S`. -/
structure ClassInfo.Sound (S : Command → Prop) (k : ClassInfo) : Prop where
  methods : k.methods.entries = k.commands.filterMap Command.method?
  nodup : k.methods.names.Nodup
  commands : ∀ cmd ∈ k.commands, S cmd

/-- A method that the body declares is one of the class, with the same signature. -/
theorem ClassInfo.Sound.find?_method {S : Command → Prop} {k : ClassInfo} (h : k.Sound S)
    {cmd : Command} (hcmd : cmd ∈ k.commands) (hkind : cmd.kind = .declareFunction) :
    k.methods.find? cmd.name = some (Signature.ofParams cmd.name cmd.type cmd.params) := by
  apply Scope.get?_eq_some_of_mem h.nodup
  rw [h.methods]
  exact List.mem_filterMap.mpr ⟨cmd, hcmd, by simp [Command.method?, hkind]⟩

/-- A class stays in order when a notification is added to its body. -/
theorem ClassInfo.Notes.sound {S : Command → Prop} {k k' : ClassInfo} {cmd : Command}
    {method method' : Option Signature} {returned returned' : Bool}
    (h : k.Notes cmd method returned k' method' returned') (hk : k.Sound S) (hcmd : S cmd) :
    ClassInfo.Sound S { k' with commands := k.commands ++ [cmd] } := by
  have hcommands (cmd' : Command) (hcmd' : cmd' ∈ k.commands ++ [cmd]) : S cmd' := by
    rcases List.mem_append.mp hcmd' with hold | hnew
    · exact hk.commands cmd' hold
    · rw [List.mem_singleton.mp hnew]
      exact hcmd
  have hplain (hkind : cmd.kind ≠ .declareFunction) (fields : Scope Global) :
      ClassInfo.Sound S { k with fields, commands := k.commands ++ [cmd] } :=
    ⟨by simp [hk.methods, Command.method?_eq_none hkind], hk.nodup, hcommands⟩
  cases h with
  | field hlevel | single hlevel =>
    exact hplain (CommandKind.ne_declareFunction_of_isClassLevel hlevel) _
  | inside hlevel => exact hplain (CommandKind.ne_declareFunction_of_isBodyLevel hlevel) _
  | leave hkind | ending hkind => exact hplain (by simp [hkind]) _
  | enter hkind hsig _ _ hnew =>
    refine ⟨?_, Scope.nodup_names_insert hk.nodup hnew _, hcommands⟩
    refine (Scope.entries_insert_of_find?_eq_none hnew _).trans ?_
    rw [hk.methods, List.filterMap_append]
    simp [Command.method?, hkind, hsig, Signature.ofParams]

/-- A binding that the table can install: its scope exists. -/
def Binding.In (t : SymbolTable) : Binding → Prop
  | .slot _ => t.locals.isSome = true
  | .global g => g.Stored ∧ (g.inst = "" ∨ (t.instances.find? g.inst).isSome = true)

theorem Binding.In.assignable {t : SymbolTable} {b : Binding} (h : b.In t) :
    b.Assignable t.locals.isSome := by
  cases b with
  | slot l => exact h
  | global g => exact .inl h.1

theorem Binding.In.kind {t : SymbolTable} {b : Binding} (h : b.In t) :
    b.kind = .array ∨ b.kind = .variable := by
  cases b with
  | slot l => exact .inr rfl
  | global g => exact h.1.1.symm

theorem Binding.In.withVersion {t : SymbolTable} {b : Binding} (h : b.In t) (version : Int)
    (type : DataType) : (b.withVersion version type).In t := by
  cases b <;> exact h

theorem Binding.In.proper {t : SymbolTable} {b : Binding} (h : b.In t) : b.toOperand.Proper := by
  cases b with
  | slot l => trivial
  | global g => exact h.1.proper

namespace SymbolTable

variable {S : Command → Prop} {t t' : SymbolTable}

structure Sound (S : Command → Prop) (t : SymbolTable) : Prop where
  globals : ∀ name g, t.globals.find? name = some g → g.Belongs "" name
  fields : ∀ owner inst, t.instances.find? owner = some inst →
    ∀ name g, inst.fields.find? name = some g → g.Belongs owner name
  instances : ∀ owner inst, t.instances.find? owner = some inst →
    inst.name = owner ∧ inst.classId < t.classes.length
  current : ∀ owner, t.current = some owner → (t.instances.find? owner).isSome = true
  classes : ∀ k ∈ t.classes, k.Sound S

theorem sound_start : ({} : SymbolTable).Sound S where
  globals := by intro name g h; cases h
  fields := by intro owner inst h; cases h
  instances := by intro owner inst h; cases h
  current := by intro owner h; cases h
  classes := by intro k h; cases h

/-- The instance whose class body is being run, and the handle of its class. -/
def place (t : SymbolTable) : Option (String × Nat) :=
  t.instance?.map fun inst => (inst.name, inst.classId)

/-- The classes stay as they are, no instance is lost, and the same bodies are open. -/
structure Similar (t t' : SymbolTable) : Prop where
  classes : t'.classes = t.classes
  classNames : t'.classNames = t.classNames
  locals : t'.locals.isSome = t.locals.isSome
  place : t'.place = t.place
  instances : ∀ owner, (t.instances.find? owner).isSome = true →
    (t'.instances.find? owner).isSome = true

theorem Similar.refl (t : SymbolTable) : t.Similar t :=
  ⟨rfl, rfl, rfl, rfl, fun _ h => h⟩

theorem Similar.trans {t'' : SymbolTable} (h : t.Similar t') (h' : t'.Similar t'') :
    t.Similar t'' where
  classes := h'.classes.trans h.classes
  classNames := h'.classNames.trans h.classNames
  locals := h'.locals.trans h.locals
  place := h'.place.trans h.place
  instances := fun owner howner => h'.instances owner (h.instances owner howner)

theorem Sound.insertGlobal (h : t.Sound S) {g : Global} (hg : g.Belongs "" g.name) :
    ({ t with globals := t.globals.insert g.name g } : SymbolTable).Sound S where
  globals := by
    intro name g' hname
    rcases Scope.find?_insert_eq_some hname with ⟨rfl, rfl⟩ | hold
    · exact hg
    · exact h.globals name g' hold
  fields := h.fields
  instances := h.instances
  current := h.current
  classes := h.classes

theorem Sound.insertField (h : t.Sound S) {owner : String} {inst : InstanceInfo} {g : Global}
    (hinst : t.instances.find? owner = some inst) (hg : g.Belongs owner g.name) :
    ({ t with instances := t.instances.insert owner { inst with
      fields := inst.fields.insert g.name g } } : SymbolTable).Sound S where
  globals := h.globals
  fields := by
    intro owner' inst' hinst' name g' hname
    rcases Scope.find?_insert_eq_some hinst' with ⟨rfl, rfl⟩ | hold
    · rcases Scope.find?_insert_eq_some hname with ⟨rfl, rfl⟩ | hfield
      · exact hg
      · exact h.fields owner' inst hinst name g' hfield
    · exact h.fields owner' inst' hold name g' hname
  instances := by
    intro owner' inst' hinst'
    rcases Scope.find?_insert_eq_some hinst' with ⟨rfl, rfl⟩ | hold
    · exact h.instances owner' inst hinst
    · exact h.instances owner' inst' hold
  current := by
    intro owner' howner
    exact Scope.isSome_find?_insert (h.current owner' howner) _ _
  classes := h.classes

theorem similar_insertField {owner : String} {inst : InstanceInfo}
    (h : t.instances.find? owner = some inst) (fields : Scope Global) :
    t.Similar { t with instances := t.instances.insert owner { inst with fields } } where
  classes := rfl
  classNames := rfl
  locals := rfl
  place := by
    unfold place instance?
    cases hcurrent : t.current with
    | none => rfl
    | some o =>
      simp only [Option.bind_some, Scope.find?_insert]
      by_cases ho : o = owner
      · simp [ho, h]
      · simp [ho]
  instances := by
    intro owner' howner
    exact Scope.isSome_find?_insert howner _ _

/-! ## Looking up -/

theorem ends_lookupFunction {name : String} {Q : Signature → SymbolTable → Prop}
    {E : Failure → SymbolTable → Prop}
    (hq : ∀ sig, t.functions.find? name = some sig → Q sig t) (he : ∀ v, E (.rejected v) t) :
    Ends (lookupFunction name) t Q E := by
  unfold lookupFunction
  rw [ends_bind, ends_get, ends_bind, ends_require]
  refine ⟨fun _ => ?_, fun _ => he _⟩
  cases hsig : t.functions.find? name with
  | none => exact he _
  | some sig => exact hq sig hsig

theorem ends_lookupInstance {name : String} {Q : InstanceInfo → SymbolTable → Prop}
    {E : Failure → SymbolTable → Prop}
    (hq : ∀ inst, t.instances.find? name = some inst → Q inst t) (he : ∀ v, E (.rejected v) t) :
    Ends (lookupInstance name) t Q E := by
  unfold lookupInstance
  rw [ends_bind, ends_get]
  cases hinst : t.instances.find? name with
  | none => exact he _
  | some inst => exact hq inst hinst

/-! ## Classes -/

theorem Sound.withClasses (h : t.Sound S) {classes : List ClassInfo} (classNames : Scope Nat)
    (hlength : t.classes.length ≤ classes.length)
    (hclasses : ∀ k ∈ classes, k ∈ t.classes ∨ k.Sound S) :
    ({ t with classes, classNames } : SymbolTable).Sound S where
  globals := h.globals
  fields := h.fields
  instances := by
    intro owner inst hinst
    obtain ⟨hname, hid⟩ := h.instances owner inst hinst
    exact ⟨hname, Nat.lt_of_lt_of_le hid hlength⟩
  current := h.current
  classes k hk := (hclasses k hk).elim (h.classes k) id

theorem Sound.setClass (h : t.Sound S) {k : ClassInfo} (hk : k.Sound S) :
    (t.setClass k).Sound S := by
  apply h.withClasses _ (by simp)
  intro k' hk'
  rcases List.mem_or_eq_of_mem_set hk' with hold | rfl
  · exact .inl hold
  · exact .inr hk

theorem Sound.declareClass (h : t.Sound S) {k : ClassInfo} (hk : k.Sound S)
    (classNames : Scope Nat) :
    ({ t with classes := t.classes ++ [k], classNames } : SymbolTable).Sound S := by
  apply h.withClasses _ (by simp)
  intro k' hk'
  rcases List.mem_append.mp hk' with hold | hnew
  · exact .inl hold
  · exact .inr (List.mem_singleton.mp hnew ▸ hk)

theorem Sound.setInstance (h : t.Sound S) {current : Option String}
    (hcurrent : ∀ owner, current = some owner → (t.instances.find? owner).isSome = true) :
    (t.setInstance current).Sound S :=
  ⟨h.globals, h.fields, h.instances, hcurrent, h.classes⟩

theorem Sound.insertInstance (h : t.Sound S) (name : String) {id : Nat}
    (hid : id < t.classes.length) :
    ({ t with instances := t.instances.insert name { name, classId := id } } :
      SymbolTable).Sound S where
  globals := h.globals
  fields := by
    intro owner inst hinst
    rcases Scope.find?_insert_eq_some hinst with ⟨-, rfl⟩ | hold
    · intro name g hname
      cases hname
    · exact h.fields owner inst hold
  instances := by
    intro owner inst hinst
    rcases Scope.find?_insert_eq_some hinst with ⟨rfl, rfl⟩ | hold
    · exact ⟨rfl, hid⟩
    · exact h.instances owner inst hold
  current := by
    intro owner howner
    exact Scope.isSome_find?_insert (h.current owner howner) _ _
  classes := h.classes

end SymbolTable

end MkCompiler
