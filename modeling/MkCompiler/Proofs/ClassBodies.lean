import Mathlib.Data.List.Basic
import Mathlib.Data.List.Induction
import MkCompiler.Proofs.Tables

/-!
# Bodies of classes

The notifications of a class come one by one, and each is checked against what has been recorded.
What results has the shape of a class: single notifications and whole methods, one after the other,
and at the end perhaps a method that is still open. A class transcribes such a body if its fields
and methods are those that the body declares.
-/

namespace MkCompiler

/-! ## Shapes -/

/-- A function or method from its declaration on. Its end has not been reached yet. -/
structure OpenRoutine where
  declaration : Command
  body : List Command
  declares : declaration.kind = .declareFunction
  inside : ∀ cmd ∈ body, cmd.kind.isBodyLevel = true

namespace OpenRoutine

def commands (r : OpenRoutine) : List Command :=
  r.declaration :: r.body

def hasReturn (r : OpenRoutine) : Bool :=
  r.body.any fun cmd => cmd.kind = .ret

def add (r : OpenRoutine) (cmd : Command) (h : cmd.kind.isBodyLevel = true) : OpenRoutine where
  declaration := r.declaration
  body := r.body ++ [cmd]
  declares := r.declares
  inside := by
    intro cmd' hcmd'
    rcases List.mem_append.mp hcmd' with hold | hnew
    · exact r.inside cmd' hold
    · rw [List.mem_singleton.mp hnew]
      exact h

@[simp] theorem commands_add (r : OpenRoutine) (cmd : Command)
    (h : cmd.kind.isBodyLevel = true) : (r.add cmd h).commands = r.commands ++ [cmd] := rfl

@[simp] theorem hasReturn_add (r : OpenRoutine) (cmd : Command)
    (h : cmd.kind.isBodyLevel = true) :
    (r.add cmd h).hasReturn = (r.hasReturn || decide (cmd.kind = .ret)) := by
  simp [hasReturn, add]

end OpenRoutine

/-- A function or method from its declaration to its end. There is a return in it. -/
structure Routine extends OpenRoutine where
  ending : Command
  returns : toOpenRoutine.hasReturn = true
  ends : ending.kind = .endFunction

def Routine.commands (r : Routine) : List Command :=
  r.toOpenRoutine.commands ++ [r.ending]

inductive Member where
  | single (cmd : Command) (h : cmd.kind.isClassLevel = true)
  | method (r : Routine)

namespace Member

def commands : Member → List Command
  | single cmd _ => [cmd]
  | method r => r.commands

def field? (id : Nat) : Member → Option (String × Global)
  | single cmd _ => cmd.field? id
  | method _ => none

def method? : Member → Option (String × Signature)
  | single _ _ => none
  | method r => r.declaration.method?

theorem filterMap_method? (m : Member) : m.commands.filterMap Command.method? = m.method?.toList := by
  cases m with
  | single cmd h =>
    simp [commands, method?, Command.method?_eq_none (CommandKind.ne_declareFunction_of_isClassLevel h)]
  | method r =>
    have hbody : r.body.filterMap Command.method? = [] := by
      rw [List.filterMap_eq_nil_iff]
      intro cmd hcmd
      exact Command.method?_eq_none (CommandKind.ne_declareFunction_of_isBodyLevel (r.inside cmd hcmd))
    simp [commands, method?, Routine.commands, OpenRoutine.commands, hbody, Command.method?,
      r.declares, r.ends]

end Member

/-- The body of a class: its parts, and the method that is open at its end. -/
structure ClassBody where
  members : List Member
  unfinished : Option OpenRoutine

namespace ClassBody

def empty : ClassBody :=
  ⟨[], none⟩

def commands (b : ClassBody) : List Command :=
  b.members.flatMap Member.commands ++ (b.unfinished.map OpenRoutine.commands).getD []

def fields (b : ClassBody) (id : Nat) : List (String × Global) :=
  b.members.filterMap (Member.field? id)

/-- Recording knows whether a method is open, and whether a return has occurred in it. -/
structure Tracks (b : ClassBody) (method : Option Signature) (returned : Bool) : Prop where
  isSome : b.unfinished.isSome = method.isSome
  returned : ∀ r, b.unfinished = some r → r.hasReturn = returned

theorem tracks_none (members : List Member) (returned : Bool) :
    (ClassBody.mk members none).Tracks none returned :=
  ⟨rfl, fun _ h => nomatch h⟩

theorem Tracks.unfinished_eq_none {b : ClassBody} {returned : Bool} (h : b.Tracks none returned) :
    b.unfinished = none := by
  have hsome := h.isSome
  rwa [Option.isSome_none, Option.isSome_eq_false_iff, Option.isNone_iff_eq_none] at hsome

theorem Tracks.exists_unfinished {b : ClassBody} {m : Signature} {returned : Bool}
    (h : b.Tracks (some m) returned) : ∃ r, b.unfinished = some r ∧ r.hasReturn = returned := by
  obtain ⟨r, hr⟩ := Option.isSome_iff_exists.mp h.isSome
  exact ⟨r, hr, h.returned r hr⟩

end ClassBody

/-! ## Growth -/

inductive ClassBody.Adds : ClassBody → Command → ClassBody → Prop
  | single {members : List Member} {cmd : Command} (h : cmd.kind.isClassLevel = true) :
      Adds ⟨members, none⟩ cmd ⟨members ++ [.single cmd h], none⟩
  | enter {members : List Member} {cmd : Command} (h : cmd.kind = .declareFunction) :
      Adds ⟨members, none⟩ cmd ⟨members, some ⟨cmd, [], h, by simp⟩⟩
  | inside {members : List Member} {r : OpenRoutine} {cmd : Command}
      (h : cmd.kind.isBodyLevel = true) :
      Adds ⟨members, some r⟩ cmd ⟨members, some (r.add cmd h)⟩
  | leave {members : List Member} {r : OpenRoutine} {cmd : Command} (hreturn : r.hasReturn = true)
      (h : cmd.kind = .endFunction) :
      Adds ⟨members, some r⟩ cmd ⟨members ++ [.method ⟨r, cmd, hreturn, h⟩], none⟩

inductive ClassBody.Grows : ClassBody → List Command → ClassBody → Prop
  | nil {b : ClassBody} : Grows b [] b
  | cons {b b₁ b' : ClassBody} {cmd : Command} {rest : List Command} :
      Adds b cmd b₁ → Grows b₁ rest b' → Grows b (cmd :: rest) b'

namespace ClassBody

variable {b b₁ b' : ClassBody} {front rest : List Command}

/-- Classes, instances and the end of the program do not occur in the body of a class. -/
theorem Adds.kind {cmd : Command} (h : Adds b cmd b') :
    cmd.kind ∉ [.beginClass, .endClass, .declareInstance, .endProgram] := by
  simp only [List.mem_cons, List.not_mem_nil, or_false, not_or]
  cases h with
  | single h =>
    refine ⟨?_, ?_, ?_, ?_⟩ <;> rintro heq <;> simp [heq, CommandKind.isClassLevel] at h
  | inside h =>
    refine ⟨?_, ?_, ?_, ?_⟩ <;> rintro heq <;> simp [heq, CommandKind.isBodyLevel] at h
  | enter h | leave _ h => simp [h]

/-- Returns, ends and control flow are added to methods, methods and arrays outside of them. -/
theorem Adds.isSome_unfinished {cmd : Command} (h : Adds b cmd b') :
    (cmd.kind ∈ [.ret, .endFunction, .beginCondition, .compare, .endIf, .endWhile] →
      b.unfinished.isSome = true) ∧
    (cmd.kind ∈ [.declareFunction, .declareArray] → b.unfinished.isSome = false) := by
  simp only [List.mem_cons, List.not_mem_nil, or_false]
  cases h with
  | single h =>
    refine ⟨?_, fun _ => rfl⟩
    rintro (heq | heq | heq | heq | heq | heq) <;> simp [heq, CommandKind.isClassLevel] at h
  | inside h =>
    refine ⟨fun _ => rfl, ?_⟩
    rintro (heq | heq) <;> simp [heq, CommandKind.isBodyLevel] at h
  | enter h | leave _ h => simp [h]

theorem Grows.append (h : Grows b front b₁) (h' : Grows b₁ rest b') :
    Grows b (front ++ rest) b' := by
  induction h with
  | nil => exact h'
  | cons hadds _ ih => exact .cons hadds (ih h')

theorem grows_append : Grows b (front ++ rest) b' ↔ ∃ b₁, Grows b front b₁ ∧ Grows b₁ rest b' := by
  constructor
  · intro h
    induction front generalizing b with
    | nil => exact ⟨b, .nil, h⟩
    | cons cmd front ih =>
      obtain _ | ⟨hadds, h⟩ := h
      obtain ⟨b₁, hfront, hrest⟩ := ih h
      exact ⟨b₁, .cons hadds hfront, hrest⟩
  · rintro ⟨b₁, hfront, hrest⟩
    exact hfront.append hrest

theorem grows_inside (members : List Member) {declaration : Command}
    (declares : declaration.kind = .declareFunction) {body : List Command}
    (hbody : ∀ cmd ∈ body, cmd.kind.isBodyLevel = true) :
    Grows ⟨members, some ⟨declaration, [], declares, by simp⟩⟩ body
      ⟨members, some ⟨declaration, body, declares, hbody⟩⟩ := by
  induction body using List.reverseRecOn with
  | nil => exact .nil
  | append_singleton body cmd ih =>
    have hfront := ih fun cmd' hcmd' => hbody cmd' (by simp [hcmd'])
    exact hfront.append (.cons (.inside (hbody cmd (by simp))) .nil)

theorem grows_open (members : List Member) (r : OpenRoutine) :
    Grows ⟨members, none⟩ r.commands ⟨members, some r⟩ :=
  .cons (.enter r.declares) (grows_inside members r.declares r.inside)

theorem grows_member (members : List Member) (m : Member) :
    Grows ⟨members, none⟩ m.commands ⟨members ++ [m], none⟩ := by
  cases m with
  | single cmd h => exact .cons (.single h) .nil
  | method r =>
    exact (grows_open members r.toOpenRoutine).append (.cons (.leave r.returns r.ends) .nil)

/-- A body comes about by adding its notifications. -/
theorem grows_commands (b : ClassBody) : Grows empty b.commands b := by
  have hmembers (members : List Member) :
      Grows empty (members.flatMap Member.commands) ⟨members, none⟩ := by
    induction members using List.reverseRecOn with
    | nil => exact .nil
    | append_singleton members m ih =>
      rw [List.flatMap_append, List.flatMap_singleton]
      exact ih.append (grows_member members m)
  obtain ⟨members, unfinished⟩ := b
  apply (hmembers members).append
  cases unfinished with
  | none => exact .nil
  | some r => exact grows_open members r

theorem Grows.members_isPrefix (h : Grows b rest b') : b.members <+: b'.members := by
  induction h with
  | nil => exact List.prefix_refl _
  | cons hadds _ ih =>
    refine List.IsPrefix.trans ?_ ih
    cases hadds with
    | single | leave => exact List.prefix_append _ _
    | enter | inside => exact List.prefix_refl _

theorem Grows.fields_nodup {id : Nat} (h : Grows b rest b')
    (hnodup : ((b'.fields id).map Prod.fst).Nodup) : ((b.fields id).map Prod.fst).Nodup :=
  hnodup.sublist (((h.members_isPrefix.filterMap _).map _).sublist)

end ClassBody

/-! ## Places of notifications -/

/-- Where a notification stands: inside of a function or outside of all. -/
inductive Region where
  | outside
  | inside
  deriving DecidableEq, Repr

namespace Region

/-- The place behind a notification in the body of a class, where control flow and returns belong
to methods, and classes, instances and the end of the program do not occur. -/
def next? : Region → CommandKind → Option Region
  | _, .beginClass | _, .endClass | _, .declareInstance | _, .endProgram => none
  | outside, .declareFunction => some inside
  | inside, .endFunction => some outside
  | outside, .beginCondition | outside, .compare | outside, .endIf | outside, .endWhile => none
  | outside, .ret | outside, .endFunction | inside, .declareFunction => none
  | r, _ => some r

def after? (r : Region) (kinds : List CommandKind) : Option Region :=
  kinds.foldlM next? r

theorem next?_kind {r r' : Region} {kind : CommandKind} (h : r.next? kind = some r') :
    kind ∉ [.beginClass, .endClass, .declareInstance, .endProgram] := by
  intro hkind
  simp only [List.mem_cons, List.not_mem_nil, or_false] at hkind
  rcases hkind with rfl | rfl | rfl | rfl <;> cases r <;> cases h

@[simp] theorem after?_nil (r : Region) : r.after? [] = some r := rfl

@[simp] theorem after?_cons (r : Region) (kind : CommandKind) (kinds : List CommandKind) :
    r.after? (kind :: kinds) = (r.next? kind).bind fun r' => r'.after? kinds := by
  unfold after?
  rw [List.foldlM_cons]
  rfl

@[simp] theorem after?_append (r : Region) (a b : List CommandKind) :
    r.after? (a ++ b) = (r.after? a).bind fun r' => r'.after? b := by
  unfold after?
  rw [List.foldlM_append]
  rfl

theorem after?_cons_eq_some {r r' : Region} {kind : CommandKind} {kinds : List CommandKind}
    (h : r.after? (kind :: kinds) = some r') :
    kind ∉ [.beginClass, .endClass, .declareInstance, .endProgram] ∧
      ∃ r₁, r.next? kind = some r₁ ∧ r₁.after? kinds = some r' := by
  rw [after?_cons] at h
  obtain ⟨r₁, hr₁, hrest⟩ := Option.bind_eq_some_iff.mp h
  exact ⟨next?_kind hr₁, r₁, hr₁, hrest⟩

/-- Classes, instances and the end of the program do not occur in the body of a class. -/
theorem kind_of_after? {r r' : Region} {body : List Command}
    (h : r.after? (body.map Command.kind) = some r') :
    ∀ cmd ∈ body, cmd.kind ∉ [.beginClass, .endClass, .declareInstance, .endProgram] := by
  induction body generalizing r with
  | nil => simp
  | cons first rest ih =>
    obtain ⟨hkind, r₁, -, hrest⟩ := after?_cons_eq_some h
    exact List.forall_mem_cons.mpr ⟨hkind, ih hrest⟩

theorem next?_eq_of_isClassLevel {kind : CommandKind} (h : kind.isClassLevel = true) :
    outside.next? kind = some .outside := by
  cases kind <;> first | rfl | cases h

theorem next?_eq_of_isBodyLevel {kind : CommandKind} (h : kind.isBodyLevel = true) :
    inside.next? kind = some .inside := by
  cases kind <;> first | rfl | cases h

end Region

theorem Region.after?_inside {commands : List Command}
    (h : ∀ cmd ∈ commands, cmd.kind.isBodyLevel = true) :
    Region.inside.after? (commands.map Command.kind) = some .inside := by
  induction commands with
  | nil => rfl
  | cons cmd rest ih =>
    rw [List.map_cons, after?_cons, next?_eq_of_isBodyLevel (h cmd (by simp))]
    exact ih fun cmd' hcmd' => h cmd' (List.mem_cons_of_mem _ hcmd')

theorem OpenRoutine.after?_commands (r : OpenRoutine) :
    Region.outside.after? (r.commands.map Command.kind) = some .inside := by
  rw [commands, List.map_cons, Region.after?_cons, r.declares]
  exact Region.after?_inside r.inside

theorem Member.after?_commands (m : Member) :
    Region.outside.after? (m.commands.map Command.kind) = some .outside := by
  cases m with
  | single cmd h => simp [commands, Region.next?_eq_of_isClassLevel h]
  | method r =>
    simp only [commands, Routine.commands, List.map_append, Region.after?_append,
      r.after?_commands, Option.bind_some, List.map_cons, List.map_nil, r.ends]
    rfl

/-- A body leads from the outside of all methods to where it ends. -/
theorem ClassBody.after?_commands (b : ClassBody) :
    Region.outside.after? (b.commands.map Command.kind) =
      some (if b.unfinished.isSome then .inside else .outside) := by
  obtain ⟨members, unfinished⟩ := b
  induction members with
  | nil =>
    cases unfinished with
    | none => rfl
    | some r => simpa [commands] using r.after?_commands
  | cons m rest ih =>
    have hsplit : (ClassBody.mk (m :: rest) unfinished).commands =
        m.commands ++ (ClassBody.mk rest unfinished).commands := by
      simp [commands]
    rw [hsplit, List.map_append, Region.after?_append, m.after?_commands]
    exact ih

/-! ## Transcription -/

/-- A class is what its body says. Its fields and methods are those that the body declares, each
once, and no method has the name of the entry point. -/
structure ClassInfo.Transcribes (k : ClassInfo) (b : ClassBody) : Prop where
  commands : k.commands = b.commands
  fields : k.fields.entries = b.fields k.id
  fields_nodup : k.fields.names.Nodup
  methods : k.methods.entries = k.commands.filterMap Command.method?
  methods_nodup : k.methods.names.Nodup
  unreserved : ∀ name ∈ k.methods.names, isReservedName name = false

namespace ClassInfo.Transcribes

variable {k : ClassInfo} {members : List Member} {r : OpenRoutine} {cmd : Command}

theorem empty (id : Nat) (name : String) : ClassInfo.Transcribes { id, name } .empty where
  commands := rfl
  fields := rfl
  fields_nodup := by simp [Scope.names, Scope.empty]
  methods := rfl
  methods_nodup := by simp [Scope.names, Scope.empty]
  unreserved := by simp [Scope.names, Scope.empty]

theorem single (h : k.Transcribes ⟨members, none⟩) (hcmd : cmd.kind.isClassLevel = true)
    {fields : Scope Global}
    (hfields : fields.entries = k.fields.entries ++ (cmd.field? k.id).toList)
    (hnodup : fields.names.Nodup) :
    ClassInfo.Transcribes { k with fields, commands := k.commands ++ [cmd] }
      ⟨members ++ [.single cmd hcmd], none⟩ where
  commands := by
    rw [h.commands]
    simp [ClassBody.commands, Member.commands]
  fields := by
    rw [hfields, h.fields]
    cases hfield : cmd.field? k.id <;> simp [ClassBody.fields, Member.field?, hfield]
  fields_nodup := hnodup
  methods := by
    simp [h.methods,
      Command.method?_eq_none (CommandKind.ne_declareFunction_of_isClassLevel hcmd)]
  methods_nodup := h.methods_nodup
  unreserved := h.unreserved

theorem openMethod (h : k.Transcribes ⟨members, none⟩) (hcmd : cmd.kind = .declareFunction)
    {methods : Scope Signature}
    (hmethods : methods.entries = k.methods.entries ++ cmd.method?.toList)
    (hnodup : methods.names.Nodup) (hreserved : isReservedName cmd.name = false) :
    ClassInfo.Transcribes { k with methods, commands := k.commands ++ [cmd] }
      ⟨members, some ⟨cmd, [], hcmd, by simp⟩⟩ where
  commands := by
    rw [h.commands]
    simp [ClassBody.commands, OpenRoutine.commands]
  fields := h.fields
  fields_nodup := h.fields_nodup
  methods := by
    rw [hmethods, h.methods, List.filterMap_append]
    simp [Command.method?, hcmd]
  methods_nodup := hnodup
  unreserved := by
    intro name hname
    rw [Scope.names, hmethods, List.map_append] at hname
    rcases List.mem_append.mp hname with hold | hnew
    · exact h.unreserved name hold
    · simp only [Command.method?, hcmd, if_true, Option.toList_some, List.map_singleton,
        List.mem_singleton] at hnew
      rw [hnew]
      exact hreserved

theorem inside (h : k.Transcribes ⟨members, some r⟩) (hcmd : cmd.kind.isBodyLevel = true) :
    ClassInfo.Transcribes { k with commands := k.commands ++ [cmd] }
      ⟨members, some (r.add cmd hcmd)⟩ where
  commands := by
    rw [h.commands]
    simp [ClassBody.commands]
  fields := h.fields
  fields_nodup := h.fields_nodup
  methods := by
    simp [h.methods,
      Command.method?_eq_none (CommandKind.ne_declareFunction_of_isBodyLevel hcmd)]
  methods_nodup := h.methods_nodup
  unreserved := h.unreserved

theorem closeMethod (h : k.Transcribes ⟨members, some r⟩) (hreturn : r.hasReturn = true)
    (hcmd : cmd.kind = .endFunction) :
    ClassInfo.Transcribes { k with commands := k.commands ++ [cmd] }
      ⟨members ++ [.method ⟨r, cmd, hreturn, hcmd⟩], none⟩ where
  commands := by
    rw [h.commands]
    simp [ClassBody.commands, Member.commands, Routine.commands]
  fields := by
    rw [h.fields]
    simp [ClassBody.fields, Member.field?]
  fields_nodup := h.fields_nodup
  methods := by simp [h.methods, Command.method?, hcmd]
  methods_nodup := h.methods_nodup
  unreserved := h.unreserved

theorem methods_eq (h : k.Transcribes ⟨members, none⟩) :
    k.methods.entries = members.filterMap Member.method? := by
  rw [h.methods, h.commands, ClassBody.commands]
  simp only [Option.map_none, Option.getD_none, List.append_nil, List.filterMap_flatMap,
    Member.filterMap_method?]
  rw [List.filterMap_eq_flatMap_toList]

theorem freeze {b : ClassBody} (h : k.Transcribes b) :
    ClassInfo.Transcribes { k with frozen := true } b :=
  ⟨h.commands, h.fields, h.fields_nodup, h.methods, h.methods_nodup, h.unreserved⟩

end ClassInfo.Transcribes

end MkCompiler
