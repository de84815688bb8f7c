import Mathlib.Data.List.Nodup
import MkCompiler.Proofs.Histories
import MkCompiler.Proofs.ProgramStructure

/-!
# The registry of names

The representation invariant of the symbol table. Every entry stands under its own name and says who
owns it, no name stands for two things on the level of the program, handles of classes are their
positions and correspond to their names, and nothing that is callable or has a body is named as the
entry point. Every single edit keeps the invariant, provided that instances have names.
-/

namespace MkCompiler

open MkCompiler.Action

/-- A class stands under a name that is not reserved, its fields belong to it and to no instance, and
its methods have names that are not reserved. -/
structure ClassInfo.Regular (k : ClassInfo) : Prop where
  unreserved : isReservedName k.name = false
  fields : ∀ name g, k.fields.find? name = some g →
    g.name = name ∧ g.inst = "" ∧ g.classId = k.id
  methods : ∀ name sig, k.methods.find? name = some sig →
    sig.name = name ∧ isReservedName name = false

theorem ClassInfo.Regular.amend {k k' : ClassInfo} (h : k.Regular) (hamends : k.Amends k') :
    k'.Regular where
  unreserved := by
    rw [hamends.name]
    exact h.unreserved
  fields := by
    intro name g hg
    rw [hamends.id]
    rcases hamends.fields name g hg with hold | hnew
    · exact h.fields name g hold
    · exact hnew
  methods := by
    intro name sig hsig
    rcases hamends.methods name sig hsig with hold | ⟨hname, hreserved, -⟩
    · exact h.methods name sig hold
    · exact ⟨hname, hreserved⟩

namespace SymbolTable

variable {t : SymbolTable} {name : String}

/-- The names of the variables, classes and instances of the program. -/
def programNames (t : SymbolTable) : List String :=
  t.globals.names ++ t.classes.map ClassInfo.name ++ t.instances.names

/-- The representation invariant. -/
structure Regular (t : SymbolTable) : Prop where
  programNames : t.programNames.Nodup
  ids : ∀ (i : Nat) (k : ClassInfo), t.classes[i]? = some k → k.id = i
  classNames : ClassInfo.Indexed t.classes t.classNames
  globals : ∀ name g, t.globals.find? name = some g →
    g.name = name ∧ g.inst = "" ∧ g.classId = noClass
  locals : ∀ locals, t.locals = some locals → ∀ name l, locals.find? name = some l → l.name = name
  instances : ∀ owner inst, t.instances.find? owner = some inst →
    inst.name = owner ∧ owner ≠ "" ∧ isReservedName owner = false ∧
      ∃ k, t.classes[inst.classId]? = some k ∧ k.frozen = true
  fields : ∀ owner inst, t.instances.find? owner = some inst →
    ∀ name g, inst.fields.find? name = some g →
      g.name = name ∧ g.inst = inst.name ∧ g.classId = inst.classId
  functions : ∀ name sig, t.functions.find? name = some sig →
    sig.name = name ∧ isReservedName name = false
  classes : ∀ k ∈ t.classes, k.Regular

theorem regular_start : ({} : SymbolTable).Regular where
  programNames := by simp [SymbolTable.programNames, Scope.names, Scope.empty]
  ids := by simp
  classNames := ClassInfo.indexed_nil
  globals := by simp
  locals := by simp
  instances := by simp
  fields := by simp
  functions := by simp
  classes := by simp

theorem Regular.not_mem_programNames (h : t.Regular) (hclass : t.classNames.find? name = none)
    (hinst : t.instances.find? name = none) (hglobal : t.globals.find? name = none) :
    name ∉ t.programNames := by
  simp only [SymbolTable.programNames, List.mem_append, not_or]
  exact ⟨⟨Scope.not_mem_of_get?_eq_none hglobal, h.classNames.not_mem_names hclass⟩,
    Scope.not_mem_of_get?_eq_none hinst⟩

/-! ## Edits -/

namespace Regular

variable (h : t.Regular)
include h

theorem insertGlobal {g : Global} (hinst : g.inst = "") (hclassId : g.classId = noClass)
    (hnodup : SymbolTable.programNames { t with globals := t.globals.insert g.name g } |>.Nodup) :
    Regular { t with globals := t.globals.insert g.name g } where
  programNames := hnodup
  ids := h.ids
  classNames := h.classNames
  globals := by
    intro name g' hg'
    rcases Scope.find?_insert_eq_some hg' with ⟨rfl, rfl⟩ | hold
    · exact ⟨rfl, hinst, hclassId⟩
    · exact h.globals name g' hold
  locals := h.locals
  instances := h.instances
  fields := h.fields
  functions := h.functions
  classes := h.classes

theorem insertField {owner : String} {inst : InstanceInfo} {g : Global}
    (hinst : t.instances.find? owner = some inst) (hg : g.inst = inst.name)
    (hclassId : g.classId = inst.classId) :
    Regular { t with
      instances := t.instances.insert owner { inst with fields := inst.fields.insert g.name g } } where
  programNames := by
    rw [SymbolTable.programNames, Scope.names_insert_of_find?_eq_some hinst]
    exact h.programNames
  ids := h.ids
  classNames := h.classNames
  globals := h.globals
  locals := h.locals
  instances := by
    intro owner' inst' hinst'
    rcases Scope.find?_insert_eq_some hinst' with ⟨rfl, rfl⟩ | hold
    · exact h.instances _ inst hinst
    · exact h.instances owner' inst' hold
  fields := by
    intro owner' inst' hinst' name g' hg'
    rcases Scope.find?_insert_eq_some hinst' with ⟨-, rfl⟩ | hold
    · rcases Scope.find?_insert_eq_some hg' with ⟨rfl, rfl⟩ | hfield
      · exact ⟨rfl, hg, hclassId⟩
      · exact h.fields owner inst hinst name g' hfield
    · exact h.fields owner' inst' hold name g' hg'
  functions := h.functions
  classes := h.classes

theorem withLocals {locals : Option (Scope Local)}
    (hlocals : ∀ s, locals = some s → ∀ name l, s.find? name = some l → l.name = name) :
    Regular { t with locals } :=
  ⟨h.programNames, h.ids, h.classNames, h.globals, hlocals, h.instances, h.fields, h.functions,
    h.classes⟩

theorem insertLocal {locals : Scope Local} (hlocals : t.locals = some locals) (l : Local) :
    Regular { t with locals := some (locals.insert l.name l) } := by
  apply h.withLocals
  rintro _ ⟨⟩ name l' hl'
  rcases Scope.find?_insert_eq_some hl' with ⟨rfl, rfl⟩ | hold
  · rfl
  · exact h.locals locals hlocals name l' hold

theorem rebind {b b' : Binding} (hb : t.Has b) (hreplaces : b.Replaces b') :
    (t.install b').Regular := by
  cases hb with
  | @slot locals name l hlocals hl =>
    cases hreplaces with
    | @slot _ l' hname _ =>
      have hinsert := h.insertLocal hlocals l'
      rw [install, hlocals]
      exact hinsert
  | @global name g hg =>
    obtain ⟨hkey, hinst, hclassId⟩ := h.globals name g hg
    cases hreplaces with
    | @global _ g' hname hinst' hclassId' _ _ =>
      rw [install, if_pos (hinst'.trans hinst)]
      apply h.insertGlobal (hinst'.trans hinst) (hclassId'.trans hclassId)
      rw [SymbolTable.programNames, Scope.names_insert_of_find?_eq_some]
      · exact h.programNames
      · rw [hname, hkey]
        exact hg
  | @field owner name inst g howner hg =>
    obtain ⟨hinstName, hnonempty, -⟩ := h.instances owner inst howner
    obtain ⟨-, hinst, hclassId⟩ := h.fields owner inst howner name g hg
    cases hreplaces with
    | @global _ g' _ hinst' hclassId' _ _ =>
      have hscope : g'.inst = owner := (hinst'.trans hinst).trans hinstName
      rw [install, if_neg (hscope ▸ hnonempty), hscope, howner]
      exact h.insertField howner (hinst'.trans hinst) (hclassId'.trans hclassId)

theorem insertFunction {sig : Signature} (hreserved : isReservedName sig.name = false) :
    Regular { t with functions := t.functions.insert sig.name sig } := by
  refine ⟨h.programNames, h.ids, h.classNames, h.globals, h.locals, h.instances, h.fields, ?_,
    h.classes⟩
  intro name sig' hsig'
  rcases Scope.find?_insert_eq_some hsig' with ⟨rfl, rfl⟩ | hold
  · exact ⟨rfl, hreserved⟩
  · exact h.functions name sig' hold

theorem addClass (hreserved : isReservedName name = false) (hfree : name ∉ t.programNames)
    (hnew : t.classNames.find? name = none) :
    Regular { t with
      classes := t.classes ++ [{ id := t.classes.length, name }]
      classNames := t.classNames.insert name t.classes.length } where
  programNames := by
    have hnodup := List.nodup_middle.mpr (List.nodup_cons.mpr ⟨hfree, h.programNames⟩)
    simpa [SymbolTable.programNames] using hnodup
  ids := by
    intro i k hk
    rw [List.getElem?_append] at hk
    split at hk
    · exact h.ids i k hk
    · next hi =>
      obtain ⟨hlt, hk⟩ := List.getElem?_eq_some_iff.mp hk
      rw [List.length_singleton] at hlt
      rw [List.getElem_singleton] at hk
      subst hk
      dsimp only
      omega
  classNames := h.classNames.concat (k := { id := _, name }) hnew
  globals := h.globals
  locals := h.locals
  instances := by
    intro owner inst hinst
    obtain ⟨hname, hnonempty, hunreserved, k, hk, hfrozen⟩ := h.instances owner inst hinst
    obtain ⟨hlt, -⟩ := List.getElem?_eq_some_iff.mp hk
    refine ⟨hname, hnonempty, hunreserved, k, ?_, hfrozen⟩
    rw [List.getElem?_append_left hlt]
    exact hk
  fields := h.fields
  functions := h.functions
  classes := by
    intro k hk
    rcases List.mem_append.mp hk with hold | hnew
    · exact h.classes k hold
    · obtain rfl := List.mem_singleton.mp hnew
      exact ⟨hreserved, by simp, by simp⟩

theorem amend {k k' : ClassInfo} (hk : t.classes[k.id]? = some k) (hamends : k.Amends k') :
    (t.setClass k').Regular where
  programNames := by
    rw [SymbolTable.programNames, names_setClass hk hamends.id hamends.name]
    exact h.programNames
  ids := by
    intro i k₁ hk₁
    rw [getElem?_setClass hk hamends.id] at hk₁
    split at hk₁
    · next hi =>
      cases hk₁
      rw [hi, hamends.id]
    · exact h.ids i k₁ hk₁
  classNames := h.classNames.set hk hamends.id hamends.name
  globals := h.globals
  locals := h.locals
  instances := by
    intro owner inst hinst
    obtain ⟨hname, hnonempty, hunreserved, k₁, hk₁, hfrozen⟩ := h.instances owner inst hinst
    refine ⟨hname, hnonempty, hunreserved, ?_⟩
    rw [getElem?_setClass hk hamends.id]
    split
    · next hi =>
      rw [hi, hk] at hk₁
      cases hk₁
      exact ⟨k', rfl, hamends.frozen hfrozen⟩
    · exact ⟨k₁, hk₁, hfrozen⟩
  fields := h.fields
  functions := h.functions
  classes := by
    intro k₁ hk₁
    rcases List.mem_or_eq_of_mem_set hk₁ with hold | rfl
    · exact h.classes k₁ hold
    · exact (h.classes k (List.mem_of_getElem? hk)).amend hamends

theorem addInstance {k : ClassInfo} (hk : t.classes[k.id]? = some k) (hfrozen : k.frozen = true)
    (hreserved : isReservedName name = false) (hname : name ≠ "") (hfree : name ∉ t.programNames)
    (hnew : t.instances.find? name = none) :
    Regular { t with instances := t.instances.insert name { name, classId := k.id } } where
  programNames := by
    have hnodup := (List.perm_append_singleton name _).nodup_iff.mpr
      (List.nodup_cons.mpr ⟨hfree, h.programNames⟩)
    simpa [SymbolTable.programNames, Scope.names_insert_of_find?_eq_none hnew] using hnodup
  ids := h.ids
  classNames := h.classNames
  globals := h.globals
  locals := h.locals
  instances := by
    intro owner inst hinst
    rcases Scope.find?_insert_eq_some hinst with ⟨rfl, rfl⟩ | hold
    · exact ⟨rfl, hname, hreserved, k, hk, hfrozen⟩
    · exact h.instances owner inst hold
  fields := by
    intro owner inst hinst name' g hg
    rcases Scope.find?_insert_eq_some hinst with ⟨-, rfl⟩ | hold
    · cases hg
    · exact h.fields owner inst hold name' g hg
  functions := h.functions
  classes := h.classes

end Regular

theorem editClosed_regular {S : Command → Prop}
    (hS : ∀ cmd, S cmd → cmd.kind = .declareInstance → cmd.name ≠ "") : EditClosed S Regular := by
  intro t t' hedit h
  cases hedit with
  | @global g hclass hinst hnew hg =>
    apply h.insertGlobal hg.inst_eq hg.classId_eq
    have hnodup := List.nodup_cons.mpr ⟨h.not_mem_programNames hclass hinst hnew, h.programNames⟩
    rw [programNames, List.append_assoc, ← List.nodup_middle] at hnodup
    simpa [programNames, Scope.names_insert_of_find?_eq_none hnew] using hnodup
  | field hinst _ hg => exact h.insertField hinst hg.inst_eq hg.classId_eq
  | slot hlocals _ _ => exact h.insertLocal hlocals _
  | rebind hb hreplaces => exact h.rebind hb hreplaces
  | function hreserved _ _ => exact h.insertFunction hreserved
  | enter =>
    apply h.withLocals
    rintro _ ⟨⟩ name l hl
    cases hl
  | leave =>
    apply h.withLocals
    rintro _ ⟨⟩
  | «class» hreserved hclass hinst hglobal =>
    exact h.addClass hreserved (h.not_mem_programNames hclass hinst hglobal) hclass
  | amend hk hamends => exact h.amend hk hamends
  | «instance» hk hfrozen hreserved hclass hinst hglobal hname =>
    obtain ⟨cmd, hcmd, hkind, rfl⟩ := hname
    exact h.addInstance hk hfrozen hreserved (hS cmd hcmd hkind)
      (h.not_mem_programNames hclass hinst hglobal) hinst
  | current =>
    exact ⟨h.programNames, h.ids, h.classNames, h.globals, h.locals, h.instances, h.fields,
      h.functions, h.classes⟩

end SymbolTable

namespace Compilation

/-- The representation invariant holds in every state that a compilation can be brought to, also
behind notifications that it refuses, as long as no instance without a name is declared. -/
theorem symbolTable_regular (file : String) (symbols : RuntimeSymbols) (commands : List Command)
    (hnames : ∀ cmd ∈ commands, cmd.kind = .declareInstance → cmd.name ≠ "") :
    let c := behind commands (start file symbols)
    c.table.Regular ∧
      (∀ name k, c.table.class? name = some k ↔ c.table.classes[k.id]? = some k ∧ k.name = name) ∧
      c.table.locals.isSome = c.emitter.inFunction := by
  intro c
  have hc := intact_behind_start (S := fun cmd => cmd.kind = .declareInstance → cmd.name ≠ "")
    file symbols hnames
  have hregular := hc.sound.built.holds (SymbolTable.editClosed_regular fun _ h => h)
    SymbolTable.regular_start
  exact ⟨hregular, fun _ _ => SymbolTable.class?_eq_some_iff hregular.ids hregular.classNames,
    hc.sound.emitter.inside.symm⟩

/-- A class and an instance of it, declarations that clash with the two, a variable, a function with
the name of the entry point, and a function that stays open. -/
def clashingStream : List Command :=
  [{ kind := .beginClass, name := "P" }, { kind := .declareVariable, name := "n" },
    { kind := .declareFunction, name := "one", type := .int },
    { kind := .int, text := "1" }, { kind := .ret }, { kind := .endFunction }, { kind := .endClass },
    { kind := .declareInstance, name := "p", target := "P" },
    { kind := .declareInstance, name := "P", target := "P" },
    { kind := .declareVariable, name := "p" }, { kind := .beginClass, name := "p" },
    { kind := .declareVariable, name := "v" },
    { kind := .declareFunction, name := "main", type := .int },
    { kind := .declareFunction, name := "f", type := .int, params := [⟨"v", .real⟩] }]

theorem symbolTable_regular_sample :
    (∀ cmd ∈ clashingStream, cmd.kind = .declareInstance → cmd.name ≠ "") ∧
      (behind clashingStream (start "sample.mk" .standard)).table.programNames = ["v", "P", "p"] ∧
      (behind clashingStream (start "sample.mk" .standard)).emitter.inFunction = true ∧
      (behind clashingStream (start "sample.mk" .standard)).table.Regular ∧
      (behind clashingStream (start "sample.mk" .standard)).table.locals.isSome = true := by
  have hnames : ∀ cmd ∈ clashingStream, cmd.kind = .declareInstance → cmd.name ≠ "" := by
    decide +kernel
  have hinside : (behind clashingStream (start "sample.mk" .standard)).emitter.inFunction =
      true := by
    decide +kernel
  obtain ⟨hregular, -, hlocals⟩ :=
    symbolTable_regular "sample.mk" .standard clashingStream hnames
  exact ⟨hnames, by decide +kernel, hinside, hregular, hlocals.trans hinside⟩

end Compilation

end MkCompiler
