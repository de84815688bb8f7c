import MkCompiler.Proofs.Cells
import MkCompiler.Proofs.Registry
import MkCompiler.Proofs.StateTraces

/-!
# Shadowing

A name can be bound in three scopes at once, and the innermost binding hides the others. Looking a
name up goes through the scopes by position, while a new version of a binding is installed in the
scope that the binding itself names. Main result: in every table that a compilation comes to, the
two agree, so that a new version replaces what the name stands for and nothing else.
-/

namespace MkCompiler

open MkCompiler.Action

def Place.name : Place → String
  | program name => name
  | field _ name => name
  | slot name => name

namespace SymbolTable

variable {t t' : SymbolTable} {name other : String} {b b' : Binding}

/-- The places at which a name is looked up, one after the other. -/
def candidates (t : SymbolTable) (name : String) : List Place :=
  .slot name :: (t.current.map fun owner => Place.field owner name).toList ++ [.program name]

/-- All bindings of a name that are in scope. Each one hides those behind it. -/
def meanings (t : SymbolTable) (name : String) : List Binding :=
  (t.candidates name).filterMap t.binding?

theorem find?_currentFields (t : SymbolTable) (name : String) :
    (t.currentFields.find? name).map Binding.global =
      (t.current.map fun owner => Place.field owner name).bind t.binding? := by
  unfold currentFields
  cases hcurrent : t.current with
  | none => rfl
  | some owner => cases hinst : t.instances.find? owner <;> simp [binding?, hinst]

/-- A name stands for the binding that hides all others. -/
theorem resolve?_eq_head? (t : SymbolTable) (name : String) :
    t.resolve? name = (t.meanings name).head? := by
  have hscopes : t.resolve? name = (t.binding? (.slot name)).or
      (((t.currentFields.find? name).map .global).or (t.binding? (.program name))) := by
    change _ = ((t.locals.bind (·.find? name)).map Binding.slot).or _
    rw [resolve?]
    cases t.locals.bind (·.find? name) with
    | some l => rfl
    | none => cases t.currentFields.find? name <;> rfl
  rw [hscopes, find?_currentFields, meanings, candidates, List.head?_filterMap]
  cases hslot : t.binding? (.slot name) with
  | some b => simp [hslot]
  | none =>
    cases t.current with
    | none => simp [hslot]
    | some owner => cases hfield : t.binding? (.field owner name) <;> simp [hslot, hfield]

theorem lookup_eq_ok_iff : lookup name t = .ok b t' ↔ t.resolve? name = some b ∧ t' = t := by
  constructor
  · intro h
    obtain ⟨rfl, hb⟩ := ensures_lookup name t b t' h
    exact ⟨hb, rfl⟩
  · rintro ⟨hb, rfl⟩
    refine bind_eq_ok.mpr ⟨t', t', rfl, ?_⟩
    rw [hb]
    rfl

theorem name_of_mem_candidates {x : Place} (h : x ∈ t.candidates name) : x.name = name := by
  simp only [candidates, List.cons_append, List.mem_cons, List.mem_append, Option.mem_toList,
    Option.map_eq_some_iff, List.not_mem_nil, or_false] at h
  rcases h with rfl | ⟨owner, -, rfl⟩ | rfl <;> rfl

theorem nodup_candidates (t : SymbolTable) (name : String) : (t.candidates name).Nodup := by
  unfold candidates
  cases t.current <;> simp

/-- In a regular table every binding is installed where it is found. -/
theorem Regular.place_eq {x : Place} (h : t.Regular) (hb : t.binding? x = some b) :
    b.place = x := by
  cases x with
  | program name =>
    obtain ⟨g, hg, rfl⟩ := Option.map_eq_some_iff.mp hb
    obtain ⟨hname, hinst, -⟩ := h.globals name g hg
    rw [Binding.place, if_pos hinst, hname]
  | field owner name =>
    obtain ⟨g, hg, rfl⟩ := Option.map_eq_some_iff.mp hb
    obtain ⟨inst, hfound, hfield⟩ := Option.bind_eq_some_iff.mp hg
    obtain ⟨hinst, hnonempty, -⟩ := h.instances owner inst hfound
    obtain ⟨hname, howner, -⟩ := h.fields owner inst hfound name g hfield
    rw [Binding.place, howner, hinst, if_neg hnonempty, hname]
  | slot name =>
    obtain ⟨l, hl, rfl⟩ := Option.map_eq_some_iff.mp hb
    obtain ⟨locals, hlocals, hfound⟩ := Option.bind_eq_some_iff.mp hl
    rw [Binding.place, h.locals locals hlocals name l hfound]

/-- What a name stands for is bound at one of the places at which the name is looked up. -/
theorem Regular.place_of_resolve? (h : t.Regular) (hb : t.resolve? name = some b) :
    b.place ∈ t.candidates name ∧ t.binding? b.place = some b := by
  rw [resolve?_eq_head?] at hb
  obtain ⟨x, hx, hbound⟩ := List.mem_filterMap.mp (List.mem_of_mem_head? hb)
  rw [h.place_eq hbound]
  exact ⟨hx, hbound⟩

theorem rebind_eq_ok (h : b.Scoped t) : rebind b t = .ok () (t.install b) := by
  refine bind_eq_ok.mpr ⟨t, t, rfl, ?_⟩
  unfold install
  cases b with
  | slot l =>
    obtain ⟨locals, hlocals⟩ := Option.isSome_iff_exists.mp h
    simp only [hlocals]
    rfl
  | global g =>
    by_cases hinst : g.inst = ""
    · simp only [hinst, if_true]
      rfl
    · obtain ⟨inst, hfound⟩ := Option.isSome_iff_exists.mp (h.resolve_left hinst)
      simp only [if_neg hinst, hfound]
      rfl

/-! ## A new version -/

/-- A new binding at one of several places shows in front of those that it hides. -/
theorem filterMap_update {places : List Place} {f g : Place → Option Binding}
    {hidden : List Binding} (hnodup : places.Nodup) (hplace : ∀ x, f x = some b → x = b.place)
    (hhead : places.filterMap f = b :: hidden)
    (hg : ∀ x, g x = if x = b.place then some b' else f x) :
    places.filterMap g = b' :: hidden := by
  induction places with
  | nil => cases hhead
  | cons x rest ih =>
    obtain ⟨hx, hrest⟩ := List.nodup_cons.mp hnodup
    cases hfx : f x with
    | none =>
      rw [List.filterMap_cons_none hfx] at hhead
      have hne : x ≠ b.place := by
        rintro rfl
        obtain ⟨y, hy, hbound⟩ := List.mem_filterMap.mp (hhead ▸ List.mem_cons_self)
        exact hx (hplace y hbound ▸ hy)
      rw [List.filterMap_cons_none (by rw [hg, if_neg hne, hfx])]
      exact ih hrest hhead
    | some b₀ =>
      rw [List.filterMap_cons_some hfx] at hhead
      obtain ⟨rfl, htail⟩ := List.cons.inj hhead
      obtain rfl := hplace x hfx
      rw [List.filterMap_cons_some (by rw [hg, if_pos rfl]), ← htail]
      congr 1
      apply List.filterMap_congr
      intro y hy
      rw [hg, if_neg]
      rintro rfl
      exact hx hy

/-- The entries of the instances and their names stay, and so do all other instances. -/
theorem instances_install (t : SymbolTable) (b : Binding) :
    (t.install b).instances.names = t.instances.names ∧
      (∀ owner, ((t.install b).instances.find? owner).map (fun i => (i.name, i.classId)) =
        (t.instances.find? owner).map fun i => (i.name, i.classId)) ∧
      ∀ owner, (∀ g, b = .global g → g.inst ≠ owner) →
        (t.install b).instances.find? owner = t.instances.find? owner := by
  cases b with
  | slot l => exact ⟨rfl, fun _ => rfl, fun _ _ => rfl⟩
  | global g =>
    unfold install
    dsimp only
    split
    · exact ⟨rfl, fun _ => rfl, fun _ _ => rfl⟩
    · split
      · exact ⟨rfl, fun _ => rfl, fun _ _ => rfl⟩
      · next inst hinst =>
        refine ⟨Scope.names_insert_of_find?_eq_some hinst _, ?_, ?_⟩
        · intro owner
          rw [Scope.find?_insert]
          split
          · next howner => simp [howner, hinst]
          · rfl
        · intro owner hother
          rw [Scope.find?_insert, if_neg (hother g rfl).symm]

/-- What a table `t'` has to do with a table `t` in which a name stands for `b`, if `b'` is
installed in place of `b`. -/
structure Updates (t t' : SymbolTable) (name : String) (b b' : Binding) : Prop where
  /-- The name stands for the new version, and all other names stand for what they stood for. -/
  lookup_same : lookup name t' = .ok b' t'
  lookup_other : ∀ other, other ≠ name → ∀ b₁,
    lookup other t' = .ok b₁ t' ↔ lookup other t = .ok b₁ t
  /-- Nothing is bound anew but at the place of `b`. -/
  bindings : ∀ x, x ≠ b.place → t'.binding? x = t.binding? x
  /-- What `b` hides comes to light again when its scope is left. -/
  hides : ∃ hidden, t.meanings name = b :: hidden ∧ t'.meanings name = b' :: hidden ∧
    (b.place.isSlot = true → t'.leaveFunction.resolve? name = hidden.head?) ∧
    (∀ owner, b.place = .field owner name → (t'.setInstance none).resolve? name = hidden.head?)
  hidden_global : b.place ≠ .program name →
    (t'.leaveFunction.setInstance none).resolve? name = (t.globals.find? name).map .global
  functions : t'.functions = t.functions
  classes : t'.classes = t.classes
  classNames : t'.classNames = t.classNames
  current : t'.current = t.current
  /-- The instances are the same, and so are all fields of those that do not own `b`. -/
  instance_names : t'.instances.names = t.instances.names
  instance_entries : ∀ owner, (t'.instances.find? owner).map (fun i => (i.name, i.classId)) =
    (t.instances.find? owner).map fun i => (i.name, i.classId)
  other_instances : ∀ owner, (∀ g, b = .global g → g.inst ≠ owner) →
    t'.instances.find? owner = t.instances.find? owner

theorem meanings_eq (t : SymbolTable) (name : String) : t.meanings name =
    (t.binding? (.slot name)).toList ++
      ((t.current.map fun owner => Place.field owner name).bind t.binding?).toList ++
      (t.binding? (.program name)).toList := by
  rw [meanings, candidates, List.filterMap_eq_flatMap_toList]
  cases t.current <;> simp

theorem meanings_leaveFunction (t : SymbolTable) (name : String) :
    t.leaveFunction.meanings name =
      ((t.current.map fun owner => Place.field owner name).bind t.binding?).toList ++
        (t.binding? (.program name)).toList := by
  rw [meanings_eq]
  cases hcurrent : t.current <;> simp [leaveFunction, hcurrent, binding?, local?]

theorem meanings_setInstance_none (t : SymbolTable) (name : String) :
    (t.setInstance none).meanings name =
      (t.binding? (.slot name)).toList ++ (t.binding? (.program name)).toList := by
  rw [meanings_eq]
  exact congrArg (· ++ _) (List.append_nil _)

section Updates

variable (h : t.Regular) (hb : t.resolve? name = some b) (version : Int) (type : DataType)
include h hb

theorem Regular.scoped_withVersion : (b.withVersion version type).Scoped t := by
  apply scoped_of_binding?
  rw [Binding.place_withVersion, (h.place_of_resolve? hb).2]
  rfl

/-- A new version is found at the place of the old one, and nowhere else. -/
theorem Regular.binding?_withVersion (x : Place) :
    (t.install (b.withVersion version type)).binding? x =
      if x = b.place then some (b.withVersion version type) else t.binding? x := by
  rw [binding?_install (h.scoped_withVersion hb version type), Binding.place_withVersion]

theorem Regular.meanings_withVersion :
    ∃ hidden, t.meanings name = b :: hidden ∧
      (t.install (b.withVersion version type)).meanings name =
        b.withVersion version type :: hidden := by
  rw [resolve?_eq_head?] at hb
  obtain ⟨hidden, hhidden⟩ := List.head?_eq_some_iff.mp hb
  rw [← resolve?_eq_head?] at hb
  refine ⟨hidden, hhidden, ?_⟩
  rw [meanings, candidates, (aligned_install t _).current]
  apply filterMap_update (nodup_candidates t name) (fun x hx => (h.place_eq hx).symm) hhidden
  exact h.binding?_withVersion hb version type

theorem Regular.resolve?_withVersion_of_ne (hother : other ≠ name) :
    (t.install (b.withVersion version type)).resolve? other = t.resolve? other := by
  rw [resolve?_eq_head?, resolve?_eq_head?, meanings, candidates, (aligned_install t _).current]
  refine congrArg List.head? (List.filterMap_congr fun x hx => ?_)
  rw [h.binding?_withVersion hb version type, if_neg]
  rintro rfl
  -- Both names are those of the place.
  have hname := name_of_mem_candidates (h.place_of_resolve? hb).1
  exact hother ((name_of_mem_candidates (t := t) hx).symm.trans hname)

/-- The binding of the function hides those of the current instance and of the program. -/
theorem Regular.meanings_of_slot (hslot : b.place.isSlot = true) :
    b.place = .slot name ∧ t.meanings name = b :: t.leaveFunction.meanings name := by
  obtain ⟨hmem, hbound⟩ := h.place_of_resolve? hb
  have hplace : b.place = .slot name := by
    have hname := name_of_mem_candidates hmem
    cases hx : b.place with
    | slot n =>
      rw [hx] at hname
      exact congrArg Place.slot hname
    | _ =>
      rw [hx] at hslot
      cases hslot
  refine ⟨hplace, ?_⟩
  rw [hplace] at hbound
  rw [meanings_eq, hbound, meanings_leaveFunction, List.append_assoc]
  rfl

/-- A field that is not hidden hides a variable of the program at most. -/
theorem Regular.meanings_of_field {owner : String} (hplace : b.place = .field owner name) :
    t.binding? (.slot name) = none ∧
      t.meanings name = b :: (t.binding? (.program name)).toList := by
  obtain ⟨hmem, hbound⟩ := h.place_of_resolve? hb
  rw [resolve?_eq_head?, meanings_eq] at hb
  have hslot : t.binding? (.slot name) = none := by
    cases hslot : t.binding? (.slot name) with
    | none => rfl
    | some b₀ =>
      obtain rfl : b₀ = b := by simpa [hslot] using hb
      cases hplace.symm.trans (h.place_eq hslot)
  have hcurrent : t.current = some owner := by
    rw [hplace] at hmem
    simpa [candidates] using hmem
  rw [hplace] at hbound
  exact ⟨hslot, by simp [meanings_eq, hslot, hcurrent, hbound]⟩

/-- What a binding hides comes to light again, whatever has become of the binding itself. -/
theorem Regular.reappears {hidden : List Binding} (hmeanings : t.meanings name = b :: hidden)
    (hkept : ∀ x, x ≠ b.place → t'.binding? x = t.binding? x) (hcurrent : t'.current = t.current) :
    (b.place.isSlot = true → t'.leaveFunction.resolve? name = hidden.head?) ∧
      ∀ owner, b.place = .field owner name →
        (t'.setInstance none).resolve? name = hidden.head? := by
  constructor
  · intro hslot
    obtain ⟨hplace, hrest⟩ := h.meanings_of_slot hb hslot
    obtain rfl := (List.cons.inj (hmeanings.symm.trans hrest)).2
    rw [resolve?_eq_head?, meanings_leaveFunction, meanings_leaveFunction, hcurrent,
      hkept (.program name) (by simp [hplace])]
    cases t.current with
    | none => rfl
    | some owner =>
      rw [Option.map_some, Option.bind_some, Option.bind_some,
        hkept (.field owner name) (by simp [hplace])]
  · intro owner hplace
    obtain ⟨hslot, hrest⟩ := h.meanings_of_field hb hplace
    obtain rfl := (List.cons.inj (hmeanings.symm.trans hrest)).2
    rw [resolve?_eq_head?, meanings_setInstance_none, hkept (.slot name) (by simp [hplace]), hslot,
      hkept (.program name) (by simp [hplace])]
    rfl

/-- In a regular table a new version takes the place of what the name stands for. -/
theorem Regular.updates :
    t.Updates (t.install (b.withVersion version type)) name b (b.withVersion version type) := by
  have hkept (x : Place) (hx : x ≠ b.place) :
      (t.install (b.withVersion version type)).binding? x = t.binding? x := by
    rw [h.binding?_withVersion hb version type, if_neg hx]
  have haligned := aligned_install t (b.withVersion version type)
  obtain ⟨hidden, hmeanings, hnew⟩ := h.meanings_withVersion hb version type
  obtain ⟨hnames, hentries, hothers⟩ := instances_install t (b.withVersion version type)
  obtain ⟨hslot, hfield⟩ := h.reappears hb hmeanings hkept haligned.current
  refine ⟨lookup_eq_ok_iff.mpr ⟨?_, rfl⟩, ?_, hkept, ⟨hidden, hmeanings, hnew, hslot, hfield⟩, ?_,
    haligned.functions, haligned.classes, classNames_install t _, haligned.current, hnames,
    hentries, ?_⟩
  · rw [resolve?_eq_head?, hnew]
    rfl
  · intro other hother b₁
    rw [lookup_eq_ok_iff, lookup_eq_ok_iff, h.resolve?_withVersion_of_ne hb version type hother]
    simp
  · intro hplace
    have hglobal := hkept (.program name) hplace.symm
    rw [resolve?_eq_head?, meanings_setInstance_none]
    exact (congrArg (fun o => o.toList.head?) hglobal).trans Option.head?_toList
  · intro owner howner
    apply hothers
    intro g hg
    cases b with
    | slot l => cases hg
    | global g₀ =>
      cases hg
      exact howner g₀ rfl

end Updates

end SymbolTable

namespace Compilation

/-- What lasts through the constructs is there in all states of a trace. -/
theorem Lasts.respects {S : Command → Prop} {P : Compilation → Prop} (h : Lasts S P) :
    Respects S P fun _ _ => True where
  lasts := h
  construct hsound hp hkind :=
    (h.construct hsound hp hkind).mono (fun _ _ _ => trivial) fun _ _ _ => trivial
  idle _ := trivial

/-- Every state that a compilation comes through has a regular table, as long as no instance without
a name is declared. -/
theorem regular_of_mem_states {file : String} {symbols : RuntimeSymbols} {commands : List Command}
    (hnames : ∀ cmd ∈ commands, cmd.kind = .declareInstance → cmd.name ≠ "") {c : Compilation}
    (hc : c ∈ states commands (start file symbols)) : c.table.Regular := by
  have hlasts := lasts_true fun cmd => cmd.kind = .declareInstance → cmd.name ≠ ""
  have hstates := hlasts.respects.states (intact_start file symbols trivial) hnames
  obtain ⟨owner, hintact⟩ := hstates.1 c hc
  exact hintact.sound.built.holds (SymbolTable.editClosed_regular fun _ h => h)
    SymbolTable.regular_start

/-- A new version of what a name stands for is installed. From then on the name stands for the new
version, every other name for what it stood for, and what the old version hid is there as before and
comes to light when the function or the instance is left. All else stays as it is: the other
bindings, also those of the same name, the functions, the classes and the instances. -/
theorem rebind_updates_lookup {file : String} {symbols : RuntimeSymbols} {commands : List Command}
    (hnames : ∀ cmd ∈ commands, cmd.kind = .declareInstance → cmd.name ≠ "") {c : Compilation}
    (hc : c ∈ states commands (start file symbols)) {name : String} {b : Binding}
    (hb : SymbolTable.lookup name c.table = .ok b c.table) (version : Int) (type : DataType) :
    ∃ t, SymbolTable.rebind (b.withVersion version type) c.table = .ok () t ∧
      c.table.Updates t name b (b.withVersion version type) := by
  have hregular := regular_of_mem_states hnames hc
  have hresolve := (SymbolTable.lookup_eq_ok_iff.mp hb).1
  exact ⟨_, SymbolTable.rebind_eq_ok (hregular.scoped_withVersion hresolve version type),
    hregular.updates hresolve version type⟩

def shadowingStream : List Command :=
  [{ kind := .declareVariable, name := "n" }, { kind := .beginClass, name := "P" },
    { kind := .declareVariable, name := "n" },
    { kind := .declareFunction, name := "one", type := .int, params := [⟨"n", .real⟩] },
    { kind := .int, text := "1" }, { kind := .ret }, { kind := .endFunction },
    { kind := .endClass }, { kind := .declareInstance, name := "p", target := "P" }]

/-- In the method of the instance the parameter hides the field, and the field the variable. -/
theorem rebind_updates_lookup_sample : ∃ c ∈ states shadowingStream (start "sample.mk" .standard),
    c.table.meanings "n" = [.slot { name := "n", type := .real },
      .global { name := "n", classId := 0, inst := "p" }, .global { name := "n" }] ∧
    ∃ t, SymbolTable.rebind (.slot { name := "n", type := .int, version := 1 }) c.table = .ok () t ∧
      c.table.Updates t "n" (.slot { name := "n", type := .real })
        (.slot { name := "n", type := .int, version := 1 }) := by
  have hnames : ∀ cmd ∈ shadowingStream, cmd.kind = .declareInstance → cmd.name ≠ "" := by
    decide +kernel
  have hlookup : ∃ c ∈ (states shadowingStream (start "sample.mk" .standard))[11]?,
      c.table.meanings "n" = [.slot { name := "n", type := .real },
        .global { name := "n", classId := 0, inst := "p" }, .global { name := "n" }] := by
    decide +kernel
  obtain ⟨c, hc, hmeanings⟩ := hlookup
  have hmem := List.mem_of_getElem? hc
  have hresolve : c.table.resolve? "n" = some (.slot { name := "n", type := .real }) := by
    rw [SymbolTable.resolve?_eq_head?, hmeanings]
    rfl
  have hb := SymbolTable.lookup_eq_ok_iff.mpr ⟨hresolve, rfl⟩
  exact ⟨c, hmem, hmeanings, rebind_updates_lookup hnames hmem hb 1 .int⟩

end Compilation

end MkCompiler
