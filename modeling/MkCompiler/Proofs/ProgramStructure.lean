import MkCompiler.Proofs.ControlBalance
import MkCompiler.Proofs.Recorder

/-!
# Structure of programs

Notifications are accepted one by one, and nothing tells the compiler in advance how they belong
together. Main result: those that it compiles to a program fall into single notifications, functions
and classes, none of which is nested in another one. Functions and methods contain a return.
Instances are declared of classes that have ended before, and the control flow of every body that is
compiled is balanced.
-/

namespace MkCompiler

open MkCompiler.Action

/-! ## Parts of a program -/

def CommandKind.isTopLevel : CommandKind → Bool
  | .beginClass | .endClass | .endProgram => false
  | .declareFunction | .endFunction | .ret => false
  | _ => true

structure ClassBlock where
  beginning : Command
  members : List Member
  ending : Command
  begins : beginning.kind = .beginClass
  ends : ending.kind = .endClass

namespace ClassBlock

def name (k : ClassBlock) : String :=
  k.beginning.name

def body (k : ClassBlock) : List Command :=
  k.members.flatMap Member.commands

def commands (k : ClassBlock) : List Command :=
  k.beginning :: k.body ++ [k.ending]

end ClassBlock

inductive ProgramPart where
  | single (cmd : Command) (h : cmd.kind.isTopLevel = true)
  | function (r : Routine)
  | classBlock (k : ClassBlock)

namespace ProgramPart

def commands : ProgramPart → List Command
  | single cmd _ => [cmd]
  | function r => r.commands
  | classBlock k => k.commands

/-- What is left of a part when functions and classes are removed. -/
def top : ProgramPart → List Command
  | single cmd _ => [cmd]
  | _ => []

/-- What is left of a part when classes are removed. -/
def compiled : ProgramPart → List Command
  | single cmd _ => [cmd]
  | function r => r.commands
  | classBlock _ => []

def class? : ProgramPart → Option ClassBlock
  | classBlock k => some k
  | _ => none

/-- Instances are declared of classes that have ended before. The methods of these classes are
balanced. -/
def InstancesFollow (parts : List ProgramPart) : Prop :=
  ∀ front cmd h rest, parts = front ++ single cmd h :: rest → cmd.kind = .declareInstance →
    ∃ k ∈ front.filterMap class?, k.name = cmd.target ∧
      ∀ r, .method r ∈ k.members → Balanced (r.body.map Command.kind)

theorem InstancesFollow.append {parts : List ProgramPart} {p : ProgramPart}
    (h : InstancesFollow parts)
    (hp : ∀ cmd h, p = single cmd h → cmd.kind = .declareInstance →
      ∃ k ∈ parts.filterMap class?, k.name = cmd.target ∧
        ∀ r, .method r ∈ k.members → Balanced (r.body.map Command.kind)) :
    InstancesFollow (parts ++ [p]) := by
  intro front cmd hlevel rest hsplit hkind
  rcases List.eq_nil_or_concat rest with rfl | ⟨rest, q, rfl⟩
  · obtain ⟨rfl, hone⟩ := List.append_inj' hsplit rfl
    exact hp cmd hlevel (List.singleton_inj.mp hone) hkind
  · have hfront : parts ++ [p] = (front ++ single cmd hlevel :: rest) ++ [q] := by
      rw [hsplit, List.concat_eq_append, List.append_assoc, List.cons_append]
    obtain ⟨rfl, -⟩ := List.append_inj' hfront rfl
    exact h front cmd hlevel rest rfl hkind

/-- Functions that are closed are balanced, and the rest is counted in the entry point. -/
theorem balanced_of_compiled {parts : List ProgramPart} {s : ControlState} {t : Controls}
    (h : Controls.after? ⟨s, none⟩ ((parts.flatMap compiled).map Command.kind) = some t) :
    (∃ s', t = ⟨s', none⟩ ∧ s.after? ((parts.flatMap top).map Command.kind) = some s') ∧
      ∀ r, function r ∈ parts → Balanced (r.body.map Command.kind) := by
  induction parts generalizing s with
  | nil => exact ⟨⟨s, (Option.some.inj h).symm, rfl⟩, by simp⟩
  | cons p rest ih =>
    rw [List.flatMap_cons, List.map_append, Controls.after?_append] at h
    obtain ⟨t₁, hp, hrest⟩ := Option.bind_eq_some_iff.mp h
    cases p with
    | single cmd hlevel =>
      have hnext : Controls.next? ⟨s, none⟩ cmd.kind =
          (s.next? cmd.kind).map fun s' => ⟨s', none⟩ := by
        cases hkind : cmd.kind <;> first | rfl | (rw [hkind] at hlevel; cases hlevel)
      rw [compiled, List.map_cons, List.map_nil, Controls.after?_cons, hnext] at hp
      obtain ⟨_, hmap, heq⟩ := Option.bind_eq_some_iff.mp hp
      obtain ⟨s₁, hs₁, rfl⟩ := Option.map_eq_some_iff.mp hmap
      cases heq
      obtain ⟨⟨s', rfl, hs'⟩, hall⟩ := ih hrest
      refine ⟨⟨s', rfl, ?_⟩, ?_⟩
      · simp [top, hs₁, hs']
      · intro r hr
        exact hall r (by simpa using hr)
    | function r =>
      obtain ⟨rfl, hbalanced⟩ := r.balanced hp
      obtain ⟨hs', hall⟩ := ih hrest
      refine ⟨hs', ?_⟩
      intro r' hr'
      rcases List.mem_cons.mp hr' with heq | hmem
      · cases heq
        exact hbalanced
      · exact hall r' hmem
    | classBlock k =>
      cases hp
      obtain ⟨hs', hall⟩ := ih hrest
      refine ⟨hs', ?_⟩
      intro r hr
      exact hall r (by simpa using hr)

end ProgramPart

/-! ## Programs in the making -/

inductive Unfinished where
  | nothing
  | routine (r : OpenRoutine)
  | classBody (beginning : Command) (recorded : List Command) (begins : beginning.kind = .beginClass)

def Unfinished.commands : Unfinished → List Command
  | nothing => []
  | routine r => r.commands
  | classBody beginning recorded _ => beginning :: recorded

def Unfinished.compiled : Unfinished → List Command
  | routine r => r.commands
  | _ => []

/-- The parts of a program up to some notification, and the part that is not finished there. -/
structure ProgramOutline where
  parts : List ProgramPart
  unfinished : Unfinished

namespace ProgramOutline

def empty : ProgramOutline :=
  ⟨[], .nothing⟩

def commands (o : ProgramOutline) : List Command :=
  o.parts.flatMap ProgramPart.commands ++ o.unfinished.commands

def compiled (o : ProgramOutline) : List Command :=
  o.parts.flatMap ProgramPart.compiled ++ o.unfinished.compiled

def classes (o : ProgramOutline) : List ClassBlock :=
  o.parts.filterMap ProgramPart.class?

theorem classes_append (parts : List ProgramPart) (p : ProgramPart) (u u' : Unfinished) :
    classes ⟨parts ++ [p], u⟩ = classes ⟨parts, u'⟩ ++ p.class?.toList := by
  cases h : p.class? <;> simp [classes, h]

def Ends (o : ProgramOutline) (c : Compilation) : Prop :=
  match o.unfinished with
  | .nothing => c.recording = none ∧ c.emitter.inFunction = false
  | .routine r => c.recording = none ∧ c.emitter.inFunction = true ∧ c.returned = r.hasReturn
  | .classBody beginning recorded _ => c.emitter.inFunction = false ∧
      (∀ b ∈ o.classes, b.name ≠ beginning.name) ∧
      ∃ k : ClassInfo, c.recording = some k.id ∧ c.table.classes[k.id]? = some k ∧
        k.name = beginning.name ∧ k.commands = recorded

end ProgramOutline

theorem SymbolTable.names_setClass {t : SymbolTable} {k k' : ClassInfo}
    (hk : t.classes[k.id]? = some k) (hid : k'.id = k.id) (hname : k'.name = k.name) :
    (t.setClass k').classes.map ClassInfo.name = t.classes.map ClassInfo.name := by
  obtain ⟨hlt, hget⟩ := List.getElem?_eq_some_iff.mp hk
  rw [setClass, List.map_set, hid, hname]
  apply List.ext_getElem (by simp)
  intro i hi hi'
  rw [List.getElem_set]
  split
  · next heq =>
    subst heq
    rw [List.getElem_map, hget]
  · rfl

namespace Compilation

variable {c c' : Compilation} {cmd : Command} {o : ProgramOutline} {parts : List ProgramPart}

structure Parses (c : Compilation) (o : ProgramOutline) : Prop where
  orderly : c.Orderly
  program : c.program = none
  controls : Controls.after? ⟨.start, none⟩ (o.compiled.map Command.kind) =
    some c.emitter.controls
  ends : o.Ends c
  closed : ∀ k ∈ c.table.classes, k.frozen = true →
    ∃ b ∈ o.classes, b.name = k.name ∧ b.body = k.commands
  declared : ∀ b ∈ o.classes, b.name ∈ c.table.classes.map ClassInfo.name
  distinct : (o.classes.map ClassBlock.name).Nodup
  instances : ProgramPart.InstancesFollow o.parts

theorem parses_start (file : String) (symbols : RuntimeSymbols) :
    (start file symbols).Parses .empty where
  orderly := orderly_start file symbols
  program := rfl
  controls := rfl
  ends := ⟨rfl, rfl⟩
  closed := by
    intro k hk
    cases hk
  declared := by
    intro b hb
    cases hb
  distinct := .nil
  instances := by
    intro front cmd h rest hsplit
    simp [ProgramOutline.empty] at hsplit

/-- A notification that is compiled is counted, and leaves the classes alone. -/
theorem Parses.construct_of_handle (h : c.Parses o) (hrecording : c.recording = none)
    (hkind : cmd.kind ∉ [.beginClass, .endClass, .declareInstance, .endProgram])
    (hcmd : handle cmd c = .ok () c') :
    construct cmd c = .ok () c' ∧ c.emitter.controls.next? cmd.kind = some c'.emitter.controls ∧
      c'.table.classes = c.table.classes ∧ c'.recording = none ∧ c'.program = none := by
  simp only [List.mem_cons, List.not_mem_nil, or_false, not_or] at hkind
  obtain ⟨hbegin, hend, hinstance, hprogram⟩ := hkind
  rw [handle_eq_construct h.program hrecording hinstance, locate_eq_ok] at hcmd
  have halong := along_construct hbegin hend hprogram c () c' hcmd
  exact ⟨hcmd, halong.emitter.next?_controls hprogram, halong.classes,
    halong.recording.trans hrecording, halong.program.trans h.program⟩

theorem Parses.proceed {o' : ProgramOutline} (h : c.Parses o) (hrecording : c.recording = none)
    (hkind : cmd.kind ∉ [.beginClass, .endClass, .declareInstance, .endProgram])
    (hcmd : handle cmd c = .ok () c') (hcompiled : o'.compiled = o.compiled ++ [cmd])
    (hends : o'.Ends c') (hclasses : o'.classes = o.classes)
    (hinstances : ProgramPart.InstancesFollow o'.parts) : c'.Parses o' := by
  obtain ⟨-, hnext, hsame, -, hprogram⟩ := h.construct_of_handle hrecording hkind hcmd
  refine ⟨h.orderly.of_handle hcmd, hprogram, ?_, hends, ?_, ?_, ?_, hinstances⟩
  · rw [hcompiled, List.map_append, Controls.after?_append, h.controls]
    simp [hnext]
  · rw [hsame, hclasses]
    exact h.closed
  · rw [hsame, hclasses]
    exact h.declared
  · rw [hclasses]
    exact h.distinct

/-! ## Classes -/

theorem Parses.beginClass (h : c.Parses ⟨parts, .nothing⟩) (hkind : cmd.kind = .beginClass)
    (hcmd : handle cmd c = .ok () c') :
    c'.Parses ⟨parts, .classBody cmd [] hkind⟩ := by
  obtain ⟨hrecording, -⟩ := h.ends
  have horderly := h.orderly.of_handle hcmd
  rw [handle_eq_construct h.program hrecording (by simp [hkind]), locate_eq_ok, construct,
    hkind] at hcmd
  obtain ⟨houtside, -, hnew, rfl⟩ := (ends_beginClass c cmd.name).of_ok hcmd
  refine ⟨horderly, h.program, h.controls, ⟨houtside, ?_, ?_⟩, ?_, ?_, h.distinct, h.instances⟩
  · intro b hb hname
    apply h.orderly.recorded.names.not_mem_names hnew.classes
    rw [← hname]
    exact h.declared b hb
  · exact ⟨{ id := c.table.classes.length, name := cmd.name }, rfl,
      List.getElem?_concat_length, rfl, rfl⟩
  · intro k hk hfrozen
    rcases List.mem_append.mp hk with hold | hnew
    · exact h.closed k hold hfrozen
    · rw [List.mem_singleton.mp hnew] at hfrozen
      cases hfrozen
  · intro b hb
    rw [List.map_append]
    exact List.mem_append_left _ (h.declared b hb)

theorem Parses.record {beginning : Command} {recorded : List Command}
    {begins : beginning.kind = .beginClass}
    (h : c.Parses ⟨parts, .classBody beginning recorded begins⟩) (hkind : cmd.kind ≠ .endClass)
    (hcmd : handle cmd c = .ok () c') :
    c'.Parses ⟨parts, .classBody beginning (recorded ++ [cmd]) begins⟩ := by
  obtain ⟨houtside, hnew, k, hrecording, hk, hname, hcommands⟩ := h.ends
  have horderly := h.orderly.of_handle hcmd
  rw [handle_eq_record h.program hrecording hkind, locate_eq_ok] at hcmd
  obtain ⟨k', b, method, returned, rfl, hid', hname', hfrozen', hcommands', -⟩ :=
    (ends_record_appends h.orderly.recorded hrecording hk hkind).of_ok hcmd
  have hget := SymbolTable.getElem?_setClass hk hid'
  refine ⟨horderly, h.program, h.controls, ⟨houtside, hnew, k', ?_, ?_, ?_, ?_⟩, ?_, ?_, h.distinct,
    h.instances⟩
  · rw [hid']
    exact hrecording
  · rw [hid', hget, if_pos rfl]
  · exact hname'.trans hname
  · rw [hcommands', hcommands]
  · intro k₁ h₁ hfrozen₁
    rcases List.mem_or_eq_of_mem_set h₁ with hold | rfl
    · exact h.closed k₁ hold hfrozen₁
    · have hopen := (h.orderly.recorded.frozen k.id k hk).mpr hrecording
      rw [hfrozen', hopen] at hfrozen₁
      cases hfrozen₁
  · intro b hb
    rw [SymbolTable.names_setClass hk hid' hname']
    exact h.declared b hb

theorem Parses.endClass {beginning : Command} {recorded : List Command}
    {begins : beginning.kind = .beginClass}
    (h : c.Parses ⟨parts, .classBody beginning recorded begins⟩) (hkind : cmd.kind = .endClass)
    (hcmd : handle cmd c = .ok () c') : ∃ members,
      recorded = members.flatMap Member.commands ∧
      c'.Parses ⟨parts ++ [.classBlock ⟨beginning, members, cmd, begins, hkind⟩], .nothing⟩ := by
  obtain ⟨houtside, hnew, k, hrecording, hk, hname, hcommands⟩ := h.ends
  have horderly := h.orderly.of_handle hcmd
  rw [handle_eq_endClass h.program hkind, locate_eq_ok] at hcmd
  obtain ⟨id, k', hrecording', hk', -, rfl⟩ := (ends_endClass c).of_ok hcmd
  obtain rfl : k.id = id := Option.some.inj (hrecording.symm.trans hrecording')
  obtain rfl : k = k' := Option.some.inj (hk.symm.trans hk')
  have hget := SymbolTable.getElem?_setClass hk
    (show ({ k with frozen := true } : ClassInfo).id = k.id from rfl)
  obtain ⟨members, hmembers⟩ := horderly.recorded.closed k.id { k with frozen := true }
    (by rw [hget, if_pos rfl]) rfl
  have hbody : k.commands = members.flatMap Member.commands := by
    simpa [ClassBody.commands] using hmembers.commands
  refine ⟨members, hcommands.symm.trans hbody, horderly, h.program, ?_, ⟨rfl, houtside⟩, ?_, ?_, ?_,
    ?_⟩
  · have hcontrols := h.controls
    simpa [ProgramOutline.compiled, Unfinished.compiled, ProgramPart.compiled] using hcontrols
  · intro k₁ h₁ hfrozen₁
    rcases List.mem_or_eq_of_mem_set h₁ with hold | rfl
    · obtain ⟨b, hb, heq⟩ := h.closed k₁ hold hfrozen₁
      refine ⟨b, ?_, heq⟩
      simp only [ProgramOutline.classes, List.filterMap_append, List.mem_append]
      exact .inl hb
    · refine ⟨⟨beginning, members, cmd, begins, hkind⟩, ?_, hname.symm, hbody.symm⟩
      simp [ProgramOutline.classes, ProgramPart.class?]
  · intro b hb
    have hnames := SymbolTable.names_setClass hk
      (show ({ k with frozen := true } : ClassInfo).id = k.id from rfl) rfl
    rw [hnames]
    simp only [ProgramOutline.classes, List.filterMap_append, List.mem_append] at hb
    rcases hb with hold | hlast
    · exact h.declared b hold
    · obtain rfl : b = ⟨beginning, members, cmd, begins, hkind⟩ := by
        simpa [ProgramPart.class?] using hlast
      exact List.mem_map.mpr ⟨k, List.mem_of_getElem? hk, hname⟩
  · have hdistinct := h.distinct
    simp only [ProgramOutline.classes, List.filterMap_append, List.map_append, List.nodup_append]
    refine ⟨hdistinct, by simp [ProgramPart.class?], ?_⟩
    intro n hn m hm heq
    obtain ⟨b, hb, rfl⟩ := List.mem_map.mp hn
    obtain rfl : m = beginning.name := by
      simpa [ProgramPart.class?, ClassBlock.name] using hm
    exact hnew b hb heq
  · apply h.instances.append
    intro cmd' h' heq
    cases heq

/-! ## Functions -/

theorem ensures_declareFunction_returned (name : String) (result : DataType) (params : List Param)
    (c : Compilation) :
    Ensures (declareFunction name result params) c fun _ c' => c'.returned = false := by
  rw [declareFunction, ensures_bind]
  intro _ c₁ _
  rw [ensures_bind]
  rintro ⟨sig, locals⟩ c₂ _
  rw [ensures_bind, ensures_modify, ensures_bind]
  intro _ c₃ _
  exact ensures_modify.mpr rfl

theorem ensures_endFunction_returned (c : Compilation) :
    Ensures endFunction c fun _ _ => c.returned = true := by
  rw [endFunction, ensures_bind, ensures_get]
  cases c.function with
  | none => exact ensures_reject.mpr trivial
  | some f =>
    dsimp only
    rw [ensures_bind, ensures_require]
    intro hreturned _ _ _
    exact hreturned

theorem ensures_declareArray_outside (name : String) (type : DataType) (length count : Int)
    (c : Compilation) : Ensures (declareArray name type length count) c fun _ _ =>
      c.emitter.inFunction = false := by
  rw [declareArray, ensures_bind]
  intro elements c₁ hpop
  have hemitter : c.emitter = c₁.emitter :=
    (along_popMany (R := Eq) count c elements c₁ hpop).emitter
  rw [ensures_bind]
  refine (ensures_requireOutside _ c₁).mono ?_
  rintro _ _ ⟨rfl, houtside⟩ _ _ _
  rw [hemitter]
  exact houtside

theorem Parses.enter (h : c.Parses ⟨parts, .nothing⟩) (hkind : cmd.kind = .declareFunction)
    (hcmd : handle cmd c = .ok () c') :
    c'.Parses ⟨parts, .routine ⟨cmd, [], hkind, by simp⟩⟩ := by
  obtain ⟨hrecording, -⟩ := h.ends
  have hplain : cmd.kind ∉ [.beginClass, .endClass, .declareInstance, .endProgram] := by
    simp [hkind]
  obtain ⟨hok, hnext, -, hrecording', -⟩ := h.construct_of_handle hrecording hplain hcmd
  rw [construct, hkind] at hok
  refine h.proceed hrecording hplain hcmd ?_ ⟨hrecording', ?_, ?_⟩ rfl h.instances
  · simp [ProgramOutline.compiled, Unfinished.compiled, OpenRoutine.commands]
  · rw [← Emitter.isSome_inner_controls]
    exact ((Controls.inner_of_next? hnext).1 hkind).2
  · exact ensures_declareFunction_returned _ _ _ c () c' hok

theorem Parses.inside {r : OpenRoutine} (h : c.Parses ⟨parts, .routine r⟩)
    (hlevel : cmd.kind.isBodyLevel = true) (hcmd : handle cmd c = .ok () c') :
    c'.Parses ⟨parts, .routine (r.add cmd hlevel)⟩ := by
  obtain ⟨hrecording, hinside, hreturned⟩ := h.ends
  have hplain : cmd.kind ∉ [.beginClass, .endClass, .declareInstance, .endProgram] := by
    simp only [List.mem_cons, List.not_mem_nil, or_false, not_or]
    refine ⟨?_, ?_, ?_, ?_⟩ <;> rintro heq <;> simp [heq, CommandKind.isBodyLevel] at hlevel
  obtain ⟨hok, hnext, -, hrecording', -⟩ := h.construct_of_handle hrecording hplain hcmd
  refine h.proceed hrecording hplain hcmd ?_ ⟨hrecording', ?_, ?_⟩ rfl h.instances
  · simp [ProgramOutline.compiled, Unfinished.compiled]
  · rw [← Emitter.isSome_inner_controls, (Controls.inner_of_next? hnext).2.2.2,
      Emitter.isSome_inner_controls]
    · exact hinside
    · simp only [List.mem_cons, List.not_mem_nil, or_false, not_or]
      refine ⟨?_, ?_⟩ <;> rintro heq <;> simp [heq, CommandKind.isBodyLevel] at hlevel
  · rw [OpenRoutine.hasReturn_add, ← hreturned]
    exact ensures_construct_returned hlevel c () c' hok

theorem Parses.leave {r : OpenRoutine} (h : c.Parses ⟨parts, .routine r⟩)
    (hkind : cmd.kind = .endFunction) (hcmd : handle cmd c = .ok () c') :
    ∃ hreturn, c'.Parses ⟨parts ++ [.function ⟨r, cmd, hreturn, hkind⟩], .nothing⟩ := by
  obtain ⟨hrecording, -, hreturned⟩ := h.ends
  have hplain : cmd.kind ∉ [.beginClass, .endClass, .declareInstance, .endProgram] := by
    simp [hkind]
  obtain ⟨hok, hnext, -, hrecording', -⟩ := h.construct_of_handle hrecording hplain hcmd
  rw [construct, hkind] at hok
  refine ⟨hreturned.symm.trans (ensures_endFunction_returned c () c' hok),
    h.proceed hrecording hplain hcmd ?_ ⟨hrecording', ?_⟩ ?_ ?_⟩
  · simp [ProgramOutline.compiled, Unfinished.compiled, ProgramPart.compiled, Routine.commands]
  · rw [← Emitter.isSome_inner_controls, ((Controls.inner_of_next? hnext).2.1 hkind).2]
    rfl
  · simp [ProgramOutline.classes, ProgramPart.class?]
  · apply h.instances.append
    intro cmd' h' heq
    cases heq

/-! ## Single notifications -/

theorem Parses.single (h : c.Parses ⟨parts, .nothing⟩) (hlevel : cmd.kind.isTopLevel = true)
    (hinstance : cmd.kind ≠ .declareInstance) (hcmd : handle cmd c = .ok () c') :
    c'.Parses ⟨parts ++ [.single cmd hlevel], .nothing⟩ := by
  obtain ⟨hrecording, houtside⟩ := h.ends
  have hplain : cmd.kind ∉ [.beginClass, .endClass, .declareInstance, .endProgram] := by
    simp only [List.mem_cons, List.not_mem_nil, or_false, not_or]
    refine ⟨?_, ?_, hinstance, ?_⟩ <;> rintro heq <;> simp [heq, CommandKind.isTopLevel] at hlevel
  obtain ⟨-, hnext, -, hrecording', -⟩ := h.construct_of_handle hrecording hplain hcmd
  refine h.proceed hrecording hplain hcmd ?_ ⟨hrecording', ?_⟩ ?_ ?_
  · simp [ProgramOutline.compiled, Unfinished.compiled, ProgramPart.compiled]
  · rw [← Emitter.isSome_inner_controls, (Controls.inner_of_next? hnext).2.2.2,
      Emitter.isSome_inner_controls]
    · exact houtside
    · simp only [List.mem_cons, List.not_mem_nil, or_false, not_or]
      refine ⟨?_, ?_⟩ <;> rintro heq <;> simp [heq, CommandKind.isTopLevel] at hlevel
  · simp [ProgramOutline.classes, ProgramPart.class?]
  · apply h.instances.append
    rintro cmd' h' ⟨⟩ hkind
    exact absurd hkind hinstance

/-- An instance is declared outside of functions, and the body of its class is compiled. -/
theorem Orderly.declareInstance_runs (h : c.Orderly) {line : Int} {name className : String}
    (hok : declareInstance line name className c = .ok () c') :
    ∃ k : ClassInfo, k ∈ c.table.classes ∧ k.name = className ∧ k.frozen = true ∧
      c.emitter.inFunction = false ∧ Along (Emitter.Run (k.commands.map Command.kind)) c c' := by
  obtain ⟨body, c₁, hlocated, hreplay⟩ := bind_eq_ok.mp hok
  have hopen := locate_eq_ok.mp hlocated
  obtain ⟨k, hk, rfl, -⟩ := (h.recorded.ends_openInstance name className).of_ok hopen
  obtain ⟨h₁, hplace⟩ := Compilation.ensures_openInstance _ _ h.recorded k.commands c₁ hopen
  have hleft : Ensures (leavingInstance (replay k.commands)) c₁ fun _ c₂ =>
      Along (Emitter.Run (k.commands.map Command.kind)) c₁ c₂ := by
    rw [ensures_leavingInstance]
    refine (ensures_replay hplace c₁).mono ?_
    intro _ c₂ h₂
    exact { h₂ with }
  obtain ⟨hclass, hname⟩ := h.recorded.class?_eq_some_iff.mp hk.class_eq
  have hrun := (h₁.comp (hleft () c' hreplay)).mono fun ⟨_, heq, hrun⟩ => heq ▸ hrun
  exact ⟨k, List.mem_of_getElem? hclass, hname, hk.frozen, hk.outside, hrun⟩

theorem Parses.declareInstance (h : c.Parses ⟨parts, .nothing⟩)
    (hkind : cmd.kind = .declareInstance) (hcmd : handle cmd c = .ok () c') :
    c'.Parses ⟨parts ++ [.single cmd (by rw [hkind]; rfl)], .nothing⟩ := by
  obtain ⟨hrecording, houtside⟩ := h.ends
  have horderly := h.orderly.of_handle hcmd
  rw [handle_eq_declareInstance h.program hrecording hkind] at hcmd
  obtain ⟨k, hk, hname, hfrozen, -, halong⟩ := h.orderly.declareInstance_runs hcmd
  obtain ⟨b, hb, hbname, hbody⟩ := h.closed k hk hfrozen
  have hrun := halong.emitter.after?_controls
  have hentry : c.emitter.controls = ⟨c.emitter.controls.entry, none⟩ := by
    rw [← Emitter.isSome_inner_controls, Option.isSome_eq_false_iff, Option.isNone_iff_eq_none]
      at houtside
    rw [← houtside]
  rw [hentry, ← hbody] at hrun
  obtain ⟨hcontrols, hbalanced⟩ := Member.balanced_of_mem hrun
  rw [← hentry] at hcontrols
  have hclasses (p : ProgramPart) (hp : p.class? = none) :
      ProgramOutline.classes ⟨parts ++ [p], .nothing⟩ = ProgramOutline.classes ⟨parts, .nothing⟩ := by
    simp [ProgramOutline.classes_append parts p .nothing .nothing, hp]
  refine ⟨horderly, halong.program.trans h.program, ?_, ?_, ?_, ?_, ?_, ?_⟩
  · have hbefore := h.controls
    simp only [ProgramOutline.compiled, Unfinished.compiled, List.append_nil] at hbefore
    simp [ProgramOutline.compiled, Unfinished.compiled, ProgramPart.compiled, hbefore, hkind,
      Controls.next?_eq_self, hcontrols]
  · refine ⟨halong.recording.trans hrecording, ?_⟩
    rw [← Emitter.isSome_inner_controls, hcontrols, Emitter.isSome_inner_controls, houtside]
  · rw [halong.classes, hclasses _ rfl]
    exact h.closed
  · rw [halong.classes, hclasses _ rfl]
    exact h.declared
  · rw [hclasses _ rfl]
    exact h.distinct
  · apply h.instances.append
    rintro cmd' h' ⟨⟩ -
    exact ⟨b, hb, hbname.trans hname, hbalanced⟩

/-! ## Whole programs -/

/-- Classes and instances are not declared inside of functions, and neither are arrays. -/
theorem Parses.kind_of_inside {r : OpenRoutine} (h : c.Parses ⟨parts, .routine r⟩)
    (hcmd : handle cmd c = .ok () c') :
    cmd.kind ∉ [.beginClass, .declareInstance, .declareArray, .declareFunction] := by
  obtain ⟨hrecording, hinside, -⟩ := h.ends
  have hnot : c.emitter.inFunction ≠ false := by simp [hinside]
  simp only [List.mem_cons, List.not_mem_nil, or_false, not_or]
  refine ⟨?_, ?_, ?_, ?_⟩ <;> intro hkind
  · rw [handle_eq_construct h.program hrecording (by simp [hkind]), locate_eq_ok, construct,
      hkind] at hcmd
    exact hnot ((ends_beginClass c cmd.name).of_ok hcmd).1
  · rw [handle_eq_declareInstance h.program hrecording hkind] at hcmd
    obtain ⟨k, -, -, -, houtside, -⟩ := h.orderly.declareInstance_runs hcmd
    exact hnot houtside
  · rw [handle_eq_construct h.program hrecording (by simp [hkind]), locate_eq_ok, construct,
      hkind] at hcmd
    exact hnot (ensures_declareArray_outside _ _ _ _ c () c' hcmd)
  · obtain ⟨-, hnext, -⟩ := h.construct_of_handle hrecording (by simp [hkind]) hcmd
    have hnone := ((Controls.inner_of_next? hnext).1 hkind).1
    rw [← Emitter.isSome_inner_controls, hnone] at hinside
    cases hinside

/-- Functions do not end outside of functions, and there is nothing to return from. -/
theorem Parses.kind_of_outside (h : c.Parses ⟨parts, .nothing⟩) (hcmd : handle cmd c = .ok () c') :
    cmd.kind ∉ [.endFunction, .ret] := by
  obtain ⟨hrecording, houtside⟩ := h.ends
  intro hkind
  have hplain : cmd.kind ∉ [.beginClass, .endClass, .declareInstance, .endProgram] := by
    simp only [List.mem_cons, List.not_mem_nil, or_false] at hkind
    rcases hkind with hkind | hkind <;> simp [hkind]
  obtain ⟨-, hnext, -⟩ := h.construct_of_handle hrecording hplain hcmd
  have hinner : c.emitter.controls.inner.isSome = true := by
    obtain ⟨-, hend, hret, -⟩ := Controls.inner_of_next? hnext
    simp only [List.mem_cons, List.not_mem_nil, or_false] at hkind
    rcases hkind with hkind | hkind
    · exact (hend hkind).1
    · exact hret hkind
  rw [Emitter.isSome_inner_controls, houtside] at hinner
  cases hinner

/-- A notification that does not end the program is added to the outline. -/
theorem Parses.step (h : c.Parses o) (hcmd : handle cmd c = .ok () c')
    (hprogram : c'.program = none) :
    ∃ o' : ProgramOutline, o'.commands = o.commands ++ [cmd] ∧ c'.Parses o' := by
  obtain ⟨-, hhandles, -⟩ := handles_of_handle hcmd h.orderly.sound.records
  obtain ⟨parts, unfinished⟩ := o
  -- If no class is open, there is none to be closed.
  have hplain (hrecording : c.recording = none) :
      cmd.kind ≠ .endClass ∧ cmd.kind ≠ .endProgram := by
    rw [Handles, if_neg (by simp [hrecording])] at hhandles
    refine ⟨?_, ?_⟩ <;> intro hkind <;> simp only [hkind] at hhandles
    obtain ⟨lines, -, hlines⟩ := hhandles
    rw [hprogram] at hlines
    cases hlines
  cases unfinished with
  | nothing =>
    have hkinds := h.kind_of_outside hcmd
    obtain ⟨hendClass, hendProgram⟩ := hplain h.ends.1
    by_cases hclass : cmd.kind = .beginClass
    · exact ⟨_, by simp [ProgramOutline.commands, Unfinished.commands], h.beginClass hclass hcmd⟩
    by_cases hfunction : cmd.kind = .declareFunction
    · refine ⟨_, ?_, h.enter hfunction hcmd⟩
      simp [ProgramOutline.commands, Unfinished.commands, OpenRoutine.commands]
    by_cases hinstance : cmd.kind = .declareInstance
    · refine ⟨_, ?_, h.declareInstance hinstance hcmd⟩
      simp [ProgramOutline.commands, Unfinished.commands, ProgramPart.commands]
    have hlevel : cmd.kind.isTopLevel = true := by
      unfold CommandKind.isTopLevel
      split <;> simp_all
    refine ⟨_, ?_, h.single hlevel hinstance hcmd⟩
    simp [ProgramOutline.commands, Unfinished.commands, ProgramPart.commands]
  | routine r =>
    have hkinds := h.kind_of_inside hcmd
    obtain ⟨hendClass, hendProgram⟩ := hplain h.ends.1
    by_cases hend : cmd.kind = .endFunction
    · obtain ⟨hreturn, hparses⟩ := h.leave hend hcmd
      refine ⟨_, ?_, hparses⟩
      simp [ProgramOutline.commands, Unfinished.commands, ProgramPart.commands, Routine.commands]
    have hlevel : cmd.kind.isBodyLevel = true := by
      unfold CommandKind.isBodyLevel
      split <;> simp_all
    refine ⟨_, ?_, h.inside hlevel hcmd⟩
    simp [ProgramOutline.commands, Unfinished.commands]
  | classBody beginning recorded begins =>
    by_cases hend : cmd.kind = .endClass
    · obtain ⟨members, hmembers, hparses⟩ := h.endClass hend hcmd
      refine ⟨_, ?_, hparses⟩
      simp [ProgramOutline.commands, Unfinished.commands, ProgramPart.commands,
        ClassBlock.commands, ClassBlock.body, hmembers]
    · refine ⟨_, ?_, h.record hend hcmd⟩
      simp [ProgramOutline.commands, Unfinished.commands]

theorem parses_of_handled {file : String} {symbols : RuntimeSymbols} {commands : List Command}
    (h : handled? commands (start file symbols) = some c) (hprogram : c.program = none) :
    ∃ o : ProgramOutline, o.commands = commands ∧ c.Parses o := by
  induction commands using List.reverseRecOn generalizing c with
  | nil =>
    cases h
    exact ⟨.empty, rfl, parses_start file symbols⟩
  | append_singleton commands cmd ih =>
    obtain ⟨c₁, hfront, hlast⟩ := handled?_append.mp h
    have hcmd := handled?_single.mp hlast
    have horderly := (orderly_start file symbols).of_handled hfront
    obtain ⟨hprogram₁, -⟩ := handles_of_handle hcmd horderly.sound.records
    obtain ⟨o, rfl, hparses⟩ := ih hfront hprogram₁
    exact hparses.step hcmd hprogram

/-- A program is there once its end has been handled, outside of classes. -/
theorem Handles.endProgram (h : Handles cmd c c') (hprogram : c.program = none)
    {lines : List Line} (hlines : c'.program = some lines) :
    cmd.kind = .endProgram ∧ c.recording = none ∧
      Emitter.finish c.emitter = .ok lines c'.emitter := by
  have hnot (heq : c'.program = c.program) : False := by
    rw [heq, hprogram] at hlines
    cases hlines
  unfold Handles at h
  split at h
  · exact (hnot h.1.2).elim
  · next hnone =>
    split at h
    · exact (hnot h.1.2).elim
    · exact h.elim
    · obtain ⟨kinds, -, halong⟩ := h
      exact (hnot halong.program).elim
    · next hkind =>
      obtain ⟨lines', hfinish, hlines'⟩ := h
      obtain rfl : lines = lines' := Option.some.inj (hlines.symm.trans hlines')
      exact ⟨hkind, by simpa using hnone, hfinish⟩
    · exact (hnot h.program).elim

end Compilation

theorem Emitter.ensures_finish_controls (e : Emitter) :
    Ensures finish e fun _ _ => e.controls = ⟨.start, none⟩ := by
  rw [finish, ensures_bind, ensures_get, ensures_ite]
  refine ⟨fun _ => by simp, fun _ => ?_⟩
  dsimp only
  split
  · exact ensures_reject.mpr trivial
  · next hnone =>
    rw [ensures_bind, ensures_require]
    rintro ⟨hpending, hopen⟩ _ _ _
    simp [controls, hnone, FunctionContext.control, hpending, hopen, ControlState.start]

theorem ProgramPart.kind_of_mem {p : ProgramPart} {cmd : Command} (h : cmd ∈ p.commands) :
    cmd.kind ≠ .endProgram := by
  have hroutine (r : Routine) (hr : cmd ∈ r.commands) : cmd.kind ≠ .endProgram := by
    simp only [Routine.commands, OpenRoutine.commands, List.cons_append, List.mem_cons,
      List.mem_append, List.not_mem_nil, or_false] at hr
    rintro hkind
    rcases hr with rfl | hr | rfl
    · simp [r.declares] at hkind
    · have hlevel := r.inside cmd hr
      simp [hkind, CommandKind.isBodyLevel] at hlevel
    · simp [r.ends] at hkind
  cases p with
  | single cmd' hlevel =>
    obtain rfl : cmd = cmd' := by simpa [commands] using h
    rintro hkind
    simp [hkind, CommandKind.isTopLevel] at hlevel
  | function r => exact hroutine r h
  | classBlock k =>
    simp only [commands, ClassBlock.commands, ClassBlock.body, List.cons_append, List.mem_cons,
      List.mem_append, List.mem_flatMap, List.not_mem_nil, or_false] at h
    rintro hkind
    rcases h with rfl | ⟨m, -, hm⟩ | rfl
    · simp [k.begins] at hkind
    · cases m with
      | single cmd' hlevel =>
        obtain rfl : cmd = cmd' := by simpa [Member.commands] using hm
        simp [hkind, CommandKind.isClassLevel] at hlevel
      | method r => exact hroutine r hm hkind
    · simp [k.ends] at hkind

/-- Control flow is balanced in the entry point and in every function. Classes have names of their
own, and instances are declared behind their classes. -/
structure WellStructured (parts : List ProgramPart) : Prop where
  entry : Balanced ((parts.flatMap ProgramPart.top).map Command.kind)
  functions : ∀ r, .function r ∈ parts → Balanced (r.body.map Command.kind)
  classes : ((parts.filterMap ProgramPart.class?).map ClassBlock.name).Nodup
  instances : ProgramPart.InstancesFollow parts

/-- The notifications of a program that compiles are its parts, followed by the end of the
program. -/
theorem compile_wellStructured {file : String} {commands : List Command} {symbols : RuntimeSymbols}
    {lines : List Line} (h : compile file commands symbols = .ok lines) :
    ∃ parts last, commands = parts.flatMap ProgramPart.commands ++ [last] ∧
      last.kind = .endProgram ∧
      (∀ cmd ∈ parts.flatMap ProgramPart.commands, cmd.kind ≠ .endProgram) ∧
      WellStructured parts := by
  obtain ⟨c, hall, hlines⟩ := compile_eq_ok.mp h
  have hrun := Compilation.handleAll_eq_ok.mp hall
  rcases List.eq_nil_or_concat commands with rfl | ⟨front, last, rfl⟩
  · cases hrun
    cases hlines
  rw [List.concat_eq_append] at hrun ⊢
  obtain ⟨c₁, hfront, hlast⟩ := Compilation.handled?_append.mp hrun
  have hcmd := Compilation.handled?_single.mp hlast
  have horderly := (Compilation.orderly_start file symbols).of_handled hfront
  obtain ⟨hprogram, hhandles, -⟩ := Compilation.handles_of_handle hcmd horderly.sound.records
  obtain ⟨hkind, hrecording, hfinish⟩ := hhandles.endProgram hprogram hlines
  obtain ⟨⟨parts, unfinished⟩, rfl, hparses⟩ := Compilation.parses_of_handled hfront hprogram
  have hcontrols := Emitter.ensures_finish_controls c₁.emitter _ _ hfinish
  cases unfinished with
  | nothing =>
    have hcompiled := hparses.controls
    simp only [ProgramOutline.compiled, Unfinished.compiled, List.append_nil, hcontrols] at hcompiled
    obtain ⟨⟨s, hs, htop⟩, hfunctions⟩ := ProgramPart.balanced_of_compiled hcompiled
    cases hs
    refine ⟨parts, last, ?_, hkind, ?_, ControlState.balanced htop, hfunctions, hparses.distinct,
      hparses.instances⟩
    · simp [ProgramOutline.commands, Unfinished.commands]
    · intro cmd hmem
      obtain ⟨p, -, hp⟩ := List.mem_flatMap.mp hmem
      exact ProgramPart.kind_of_mem hp
  | routine r =>
    obtain ⟨-, hinside, -⟩ := hparses.ends
    rw [← Emitter.isSome_inner_controls, hcontrols] at hinside
    cases hinside
  | classBody beginning recorded begins =>
    obtain ⟨-, -, k, hopen, -⟩ := hparses.ends
    rw [hrecording] at hopen
    cases hopen

theorem compile_wellStructured_sample : ∃ lines parts last,
    compile "sample.mk" sampleStream .standard = .ok lines ∧
      sampleStream = parts.flatMap ProgramPart.commands ++ [last] ∧ last.kind = .endProgram ∧
      (∀ cmd ∈ parts.flatMap ProgramPart.commands, cmd.kind ≠ .endProgram) ∧
      WellStructured parts := by
  obtain ⟨lines, h, -⟩ := compile_sampleStream
  obtain ⟨parts, last, hparts⟩ := compile_wellStructured h
  exact ⟨lines, parts, last, h, hparts⟩

end MkCompiler
