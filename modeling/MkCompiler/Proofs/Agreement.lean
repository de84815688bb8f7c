import Mathlib.Data.List.Forall2
import MkCompiler.Proofs.Constructs
import MkCompiler.Proofs.Mirrors

/-!
# Notifications that say the same

A recorded notification has many fields, and its kind reads some of them. Two notifications say the
same if they agree on those. Compilations agree if they differ in their source files and in recorded
notifications that say the same. No construct tells such compilations apart.
-/

namespace MkCompiler

open MkCompiler.Action

/-! ## What a notification says -/

namespace Command

/-- What a recorded notification says, if its kind and its operator are known. -/
def notification? (cmd : Command) : Option Notification :=
  match cmd.kind with
  | .int => some (.int cmd.text)
  | .real => some (.real cmd.text)
  | .name => some (.variable cmd.name)
  | .element => some (.element cmd.name)
  | .member => some (.member cmd.target cmd.name)
  | .arith => (ArithOp.ofToken? cmd.text).map .arith
  | .call => some (.call cmd.name cmd.count)
  | .callMethod => some (.callMethod cmd.target cmd.name cmd.count)
  | .declareVariable => some (.declareVariable cmd.name cmd.hasInit)
  | .declareArray => some (.declareArray cmd.type cmd.name cmd.length cmd.count)
  | .assign => some (.assign cmd.name)
  | .assignElement => some (.assignElement cmd.name)
  | .assignMember => some (.assignMember cmd.target cmd.name)
  | .print => some .print
  | .scan => some (.scan cmd.type cmd.name)
  | .beginCondition => some .beginCondition
  | .compare => (Comparison.ofToken? cmd.text).map .compare
  | .endIf => some .endIf
  | .endWhile => some .endWhile
  | .ret => some .ret
  | .declareFunction => some (.declareFunction cmd.type cmd.name cmd.params)
  | .endFunction => some .endFunction
  | .beginClass => some (.beginClass cmd.name)
  | .endClass => some .endClass
  | .declareInstance => some (.declareInstance cmd.target cmd.name)
  | .endProgram => some .endProgram
  | .unknown _ => none

/-- Two recorded notifications say the same. They can differ in their lines, in the spelling of an
operator and in all fields that their kind does not read. -/
structure SaysSame (a b : Command) : Prop where
  kind : b.kind = a.kind
  notification : b.notification? = a.notification?

instance (a b : Command) : Decidable (a.SaysSame b) :=
  decidable_of_iff (b.kind = a.kind ∧ b.notification? = a.notification?)
    ⟨fun h => ⟨h.1, h.2⟩, fun h => ⟨h.kind, h.notification⟩⟩

theorem SaysSame.refl (cmd : Command) : cmd.SaysSame cmd :=
  ⟨rfl, rfl⟩

theorem SaysSame.symm {a b : Command} (h : a.SaysSame b) : b.SaysSame a :=
  ⟨h.kind.symm, h.notification.symm⟩

theorem saysSame_toCommand {cmd : Command} {n : Notification} (h : cmd.notification? = some n)
    (line : Int) : cmd.SaysSame (n.toCommand line) := by
  unfold notification? at h
  cases hkind : cmd.kind with
  | arith =>
    rw [hkind] at h
    obtain ⟨op, hop, rfl⟩ := Option.map_eq_some_iff.mp h
    exact ⟨hkind.symm,
      by simp [notification?, Notification.toCommand, hkind, hop, ArithOp.ofToken?_name]⟩
  | compare =>
    rw [hkind] at h
    obtain ⟨op, hop, rfl⟩ := Option.map_eq_some_iff.mp h
    exact ⟨hkind.symm,
      by simp [notification?, Notification.toCommand, hkind, hop, Comparison.ofToken?_name]⟩
  | unknown code =>
    rw [hkind] at h
    cases h
  | _ =>
    rw [hkind] at h
    obtain rfl := Option.some.inj h
    exact ⟨hkind.symm, by simp [notification?, Notification.toCommand, hkind]⟩

end Command

/-! ## States that agree -/

/-- Classes that agree, as far as they are ever looked at: the types of their fields are not. -/
structure ClassInfo.Agree (k k' : ClassInfo) : Prop where
  id : k'.id = k.id
  name : k'.name = k.name
  fields : ∀ name, k'.fields.find? name = none ↔ k.fields.find? name = none
  methods : k'.methods = k.methods
  commands : List.Forall₂ Command.SaysSame k.commands k'.commands
  frozen : k'.frozen = k.frozen

namespace ClassInfo

variable {ks ks' : List ClassInfo}

theorem agree_getElem? (h : List.Forall₂ Agree ks ks') (i : Nat) :
    Option.Rel Agree ks[i]? ks'[i]? := by
  induction h generalizing i with
  | nil => exact .none
  | cons hk _ ih =>
    cases i with
    | zero => exact .some hk
    | succ i => exact ih i

theorem agree_set (h : List.Forall₂ Agree ks ks') (i : Nat) {k k' : ClassInfo} (hk : k.Agree k') :
    List.Forall₂ Agree (ks.set i k) (ks'.set i k') := by
  induction h generalizing i with
  | nil => exact .nil
  | cons hfirst hrest ih =>
    cases i with
    | zero => exact .cons hk hrest
    | succ i => exact .cons hfirst (ih i)

end ClassInfo

inductive SymbolTable.Agree (t : SymbolTable) : SymbolTable → Prop
  | mk {classes : List ClassInfo} (h : List.Forall₂ ClassInfo.Agree t.classes classes) :
      Agree t { t with classes }

inductive Compilation.Agree (file file' : String) (c : Compilation) : Compilation → Prop
  | mk {table : SymbolTable} (hfile : c.file = file) (h : c.table.Agree table) :
      Agree file file' c { c with file := file', table }

theorem Compilation.Agree.file {x y : String} {c c' : Compilation} (h : c.Agree x y c') :
    c.file = x := by
  obtain ⟨hfile, -⟩ := h
  exact hfile

/-! ## Tables -/

namespace SymbolTable

variable {α : Type} {t t' : SymbolTable}

/-- An operation does the same to tables that agree. -/
def Blind (x : Action SymbolTable α) : Prop :=
  Mirrors Agree Eq x x

namespace Agree

theorem resolve? (h : t.Agree t') (name : String) : t'.resolve? name = t.resolve? name := by
  cases h
  rfl

theorem instance? (h : t.Agree t') : t'.instance? = t.instance? := by
  cases h
  rfl

theorem setClass (h : t.Agree t') {k k' : ClassInfo} (hk : k.Agree k') :
    (t.setClass k).Agree (t'.setClass k') := by
  obtain ⟨h⟩ := h
  rw [SymbolTable.setClass, SymbolTable.setClass, hk.id]
  exact ⟨ClassInfo.agree_set h k.id hk⟩

end Agree

theorem agree_classAt (id : Int) :
    Mirrors Agree ClassInfo.Agree (classAt id) (classAt id) := by
  apply Mirrors.get.bind
  rintro t _ ⟨h⟩
  by_cases hid : id < 0
  · simp only [if_pos hid]
    exact .throw (.refl _)
  · simp only [if_neg hid]
    rcases optionRel_cases (ClassInfo.agree_getElem? h id.toNat) with
      ⟨hk, hk'⟩ | ⟨k, k', hk, hk', hagree⟩
    · rw [hk, hk']
      exact .throw (.refl _)
    · rw [hk, hk']
      exact .pure hagree

theorem agree_lookupClass (name : String) :
    Mirrors Agree ClassInfo.Agree (lookupClass name) (lookupClass name) := by
  apply Mirrors.get.bind
  rintro t _ ⟨h⟩
  dsimp only
  cases t.classNames.find? name with
  | none => exact .reject rfl
  | some id => exact agree_classAt id

theorem blind_checkProgramName (name : String) : Blind (checkProgramName name) := by
  apply Mirrors.get.bind
  rintro t _ ⟨h⟩
  exact .require_bind Iff.rfl rfl fun _ => .require_bind Iff.rfl rfl fun _ =>
    .require Iff.rfl rfl

theorem blind_declareGlobal (g : Global) : Blind (declareGlobal g) := by
  apply (blind_checkProgramName g.name).bind
  intro _ _ _
  apply Mirrors.update
  rintro t _ ⟨h⟩
  exact ⟨h⟩

theorem blind_declareField (g : Global) : Blind (declareField g) := by
  apply Mirrors.get.bind
  rintro t _ ⟨h⟩
  dsimp only
  cases t.current with
  | none => exact .reject rfl
  | some owner =>
    dsimp only
    cases t.instances.find? owner with
    | none => exact .throw (.refl _)
    | some inst => exact .require_bind Iff.rfl rfl fun _ => .set ⟨h⟩

theorem blind_declareLocal (l : Local) : Blind (declareLocal l) := by
  apply Mirrors.get.bind
  rintro t _ ⟨h⟩
  dsimp only
  cases t.locals with
  | none => exact .reject rfl
  | some locals => exact .require_bind Iff.rfl rfl fun _ => .set ⟨h⟩

theorem blind_lookup (name : String) : Blind (lookup name) := by
  apply Mirrors.get.bind
  intro t t' ht
  rw [ht.resolve?]
  cases t.resolve? name with
  | none => exact .reject rfl
  | some b => exact .pure rfl

theorem blind_rebind (b : Binding) : Blind (rebind b) := by
  apply Mirrors.get.bind
  rintro t _ ⟨h⟩
  cases b with
  | slot l =>
    dsimp only
    cases t.locals with
    | none => exact .throw (.refl _)
    | some locals => exact .set ⟨h⟩
  | global g =>
    apply Mirrors.ite Iff.rfl
    · intro _
      exact .set ⟨h⟩
    · intro _
      dsimp only
      cases t.instances.find? g.inst with
      | none => exact .throw (.refl _)
      | some inst => exact .set ⟨h⟩

theorem blind_declareFunction (sig : Signature) : Blind (declareFunction sig) := by
  apply Mirrors.get.bind
  rintro t _ ⟨h⟩
  exact .require_bind Iff.rfl rfl fun _ => .require_bind Iff.rfl rfl fun _ => .set ⟨h⟩

theorem blind_lookupFunction (name : String) : Blind (lookupFunction name) := by
  apply Mirrors.get.bind
  rintro t _ ⟨h⟩
  apply Mirrors.require_bind Iff.rfl rfl
  intro _
  dsimp only
  cases t.functions.find? name with
  | none => exact .reject rfl
  | some sig => exact .pure rfl

theorem blind_lookupInstance (name : String) : Blind (lookupInstance name) := by
  apply Mirrors.get.bind
  rintro t _ ⟨h⟩
  dsimp only
  cases t.instances.find? name with
  | none => exact .reject rfl
  | some inst => exact .pure rfl

theorem agree_declareClass (name : String) :
    Mirrors Agree ClassInfo.Agree (declareClass name) (declareClass name) := by
  apply Mirrors.require_bind Iff.rfl rfl
  intro _
  apply (blind_checkProgramName name).bind
  intro _ _ _
  apply Mirrors.get.bind
  rintro t _ ⟨h⟩
  have hnew : ClassInfo.Agree { id := t.classes.length, name } { id := t.classes.length, name } :=
    ⟨rfl, rfl, fun _ => Iff.rfl, rfl, .nil, rfl⟩
  dsimp only
  rw [← h.length_eq]
  apply (Mirrors.set ⟨List.rel_append h (.cons hnew .nil)⟩).bind
  intro _ _ _
  exact .pure hnew

theorem agree_declareClassField (id : Nat) {g g' : Global} (hname : g'.name = g.name) :
    Mirrors Agree Eq (declareClassField id g) (declareClassField id g') := by
  apply (agree_classAt id).bind
  intro k k' hk
  rw [hname]
  apply Mirrors.require_bind
    (by rw [Option.isNone_iff_eq_none, Option.isNone_iff_eq_none, hk.fields]) (by rfl)
  intro _
  apply Mirrors.update
  intro t t' ht
  refine ht.setClass ⟨hk.id, hk.name, ?_, hk.methods, hk.commands, hk.frozen⟩
  intro name
  rw [Scope.find?_insert, Scope.find?_insert]
  split
  · simp
  · exact hk.fields name

theorem blind_declareClassMethod (id : Nat) (sig : Signature) :
    Blind (declareClassMethod id sig) := by
  apply Mirrors.require_bind Iff.rfl rfl
  intro _
  apply (agree_classAt id).bind
  intro k k' hk
  rw [hk.methods]
  apply Mirrors.require_bind Iff.rfl (by rfl)
  intro _
  apply Mirrors.update
  intro t t' ht
  exact ht.setClass ⟨hk.id, hk.name, hk.fields, rfl, hk.commands, hk.frozen⟩

theorem agree_record (id : Nat) {cmd cmd' : Command} (h : cmd.SaysSame cmd') :
    Mirrors Agree Eq (record id cmd) (record id cmd') := by
  apply (agree_classAt id).bind
  intro k k' hk
  apply Mirrors.ite (by rw [hk.frozen])
  · intro _
    exact .pure rfl
  · intro _
    apply Mirrors.bind (Mirrors.update ?_)
    · intro _ _ _
      exact .pure rfl
    · intro t t' ht
      exact ht.setClass ⟨hk.id, hk.name, hk.fields, hk.methods,
        List.rel_append hk.commands (.cons h .nil), hk.frozen⟩

theorem blind_freeze (id : Nat) : Blind (freeze id) := by
  apply (agree_classAt id).bind
  intro k k' hk
  apply Mirrors.update
  intro t t' ht
  exact ht.setClass ⟨hk.id, hk.name, hk.fields, hk.methods, hk.commands, rfl⟩

theorem blind_declareInstance (name className : String) :
    Blind (declareInstance name className) := by
  apply (agree_lookupClass className).bind
  intro k k' hk
  apply Mirrors.require_bind (by rw [hk.frozen]) rfl
  intro _
  apply Mirrors.require_bind Iff.rfl rfl
  intro _
  apply (blind_checkProgramName name).bind
  intro _ _ _
  rw [hk.id]
  apply Mirrors.bind (Mirrors.update ?_)
  · intro _ _ _
    exact .pure rfl
  · rintro t _ ⟨h⟩
    exact ⟨h⟩

end SymbolTable

/-! ## Constructs -/

namespace Compilation

variable {α β : Type} {file file' : String} {c c' : Compilation}

def Blind (file file' : String) (x : Action Compilation α) : Prop :=
  Mirrors (Agree file file') Eq x x

theorem Blind.bind {x : Action Compilation α} {f : α → Action Compilation β}
    (hx : Blind file file' x) (hf : ∀ a, Blind file file' (f a)) :
    Blind file file' (x >>= f) := by
  apply Mirrors.bind hx
  rintro a _ rfl
  exact hf a

theorem Agree.program (h : c.Agree file file' c') : c'.program = c.program := by
  cases h
  rfl

theorem Agree.setInstance (h : c.Agree file file' c') (current : Option String) :
    Agree file file' { c with table := c.table.setInstance current }
      { c' with table := c'.table.setInstance current } := by
  obtain ⟨hfile, ⟨h⟩⟩ := h
  exact ⟨hfile, ⟨h⟩⟩

theorem agree_onTable {α' : Type} {Q : α → α' → Prop} {x : Action SymbolTable α}
    {y : Action SymbolTable α'} (h : Mirrors SymbolTable.Agree Q x y) :
    Mirrors (Agree file file') Q (onTable x) (onTable y) := by
  apply Mirrors.zoom h
  · rintro c _ ⟨-, ht⟩
    exact ht
  · rintro c _ t t' ⟨hfile, -⟩ ht
    exact ⟨hfile, ht⟩

theorem blind_onTable {x : Action SymbolTable α} (h : SymbolTable.Blind x) :
    Blind file file' (onTable x) :=
  agree_onTable h

theorem blind_onEmitter (x : Action Emitter α) : Blind file file' (onEmitter x) := by
  have hx : Mirrors Eq Eq x x := by
    rintro e _ rfl
    cases x e with
    | ok a e' => exact ⟨rfl, rfl⟩
    | error f e' => exact ⟨.refl f, rfl⟩
  apply Mirrors.zoom hx
  · rintro c _ ⟨-, -⟩
    rfl
  · rintro c _ e _ ⟨hfile, ht⟩ rfl
    exact ⟨hfile, ht⟩

theorem blind_push (op : Operand) : Blind file file' (push op) := by
  apply Mirrors.update
  rintro c _ ⟨hfile, ht⟩
  exact ⟨hfile, ht⟩

theorem blind_pop : Blind file file' pop := by
  apply Mirrors.get.bind
  rintro c _ ⟨hfile, ht⟩
  dsimp only
  cases c.stack with
  | nil => exact .throw (.refl _)
  | cons op stack =>
    apply (Mirrors.set ⟨hfile, ht⟩).bind
    intro _ _ _
    exact .pure rfl

theorem blind_popMany (count : Int) : Blind file file' (popMany count) := by
  apply Mirrors.get.bind
  rintro c _ ⟨hfile, ht⟩
  apply Mirrors.ite Iff.rfl
  · intro _
    exact .throw (.refl _)
  intro _
  apply Mirrors.ite Iff.rfl
  · intro _
    apply (Mirrors.set ⟨hfile, ht⟩).bind
    intro _ _ _
    exact .pure rfl
  intro _
  apply Mirrors.ite Iff.rfl
  · intro _
    exact .throw (.refl _)
  · intro _
    apply (Mirrors.set ⟨hfile, ht⟩).bind
    intro _ _ _
    exact .throw (.refl _)

theorem blind_requireOutside (violation : String → Violation) :
    Blind file file' (requireOutside violation) := by
  apply Mirrors.get.bind
  rintro c _ ⟨-, -⟩
  apply Mirrors.ite Iff.rfl
  · intro _
    dsimp only
    cases c.function with
    | some f => exact .reject rfl
    | none => exact .throw (.refl _)
  · intro _
    exact .pure rfl

theorem declares_blind : Declares (fun {_} x => Blind file file' x) fun {_} _ => True where
  pure _ := Mirrors.pure rfl
  throw _ := Mirrors.throw (.refl _)
  bind := Blind.bind
  read hread hf := by
    apply Mirrors.get.bind
    rintro c _ ⟨-, ht⟩
    rw [hread c { c with file := file', table := _ } ht.instance? rfl]
    exact hf c
  methods id hmethods hf := by
    apply (agree_onTable (SymbolTable.agree_classAt id)).bind
    intro k k' hk
    rw [hmethods k k' hk.methods]
    exact hf k
  lookup _ := blind_onTable (SymbolTable.blind_lookup _)
  lookupFunction _ := blind_onTable (SymbolTable.blind_lookupFunction _)
  lookupInstance _ := blind_onTable (SymbolTable.blind_lookupInstance _)
  push := blind_push
  pop := blind_pop
  popMany := blind_popMany
  emitter _ := blind_onEmitter _
  declareLocal _ := blind_onTable (SymbolTable.blind_declareLocal _)
  declareField _ := blind_onTable (SymbolTable.blind_declareField _)
  declareGlobal _ := blind_onTable (SymbolTable.blind_declareGlobal _)
  rebind _ := blind_onTable (SymbolTable.blind_rebind _)
  outside := blind_requireOutside
  array _ _ _ := trivial

/-! ### Operators -/

theorem agree_arith {token token' : String}
    (h : ArithOp.ofToken? token' = ArithOp.ofToken? token) :
    Mirrors (Agree file file') Eq (arith token) (arith token') := by
  unfold arith
  rw [h]
  cases ArithOp.ofToken? token with
  | none => exact .reject rfl
  | some op =>
    exact declares_blind.popPair.bind fun _ => (blind_onEmitter _).bind fun _ => blind_push _

theorem agree_compare {token token' : String}
    (h : Comparison.ofToken? token' = Comparison.ofToken? token) :
    Mirrors (Agree file file') Eq (compare token) (compare token') := by
  unfold compare
  rw [h]
  cases Comparison.ofToken? token with
  | none => exact .reject rfl
  | some op => exact declares_blind.popPair.bind fun _ => blind_onEmitter _

/-! ### Definitions -/

theorem blind_ret : Blind file file' ret := by
  refine blind_pop.bind fun value => (blind_onEmitter _).bind fun _ => Mirrors.update ?_
  rintro c _ ⟨hfile, ht⟩
  exact ⟨hfile, ht⟩

theorem blind_declareFunction (name : String) (result : DataType) (params : List Param) :
    Blind file file' (declareFunction name result params) := by
  refine (blind_requireOutside _).bind fun _ => Blind.bind (declares_blind.openBody
    (fun _ => blind_onTable (SymbolTable.blind_declareFunction _)) (fun _ _ _ => trivial) _ _ _)
      fun body => ?_
  apply Mirrors.bind (Q := Eq)
  · apply Mirrors.update
    rintro c _ ⟨hfile, ⟨h⟩⟩
    exact ⟨hfile, ⟨h⟩⟩
  intro _ _ _
  refine Blind.bind (declares_blind.declareLocals _) fun _ => Mirrors.update ?_
  rintro c _ ⟨hfile, ht⟩
  exact ⟨hfile, ht⟩

theorem blind_endFunction : Blind file file' endFunction := by
  apply Mirrors.get.bind
  rintro c _ ⟨-, -⟩
  dsimp only
  cases c.function with
  | none => exact .reject rfl
  | some f =>
    apply Mirrors.require_bind Iff.rfl rfl
    intro _
    refine (blind_onEmitter _).bind fun _ => Mirrors.update ?_
    rintro c _ ⟨hfile, ⟨h⟩⟩
    exact ⟨hfile, ⟨h⟩⟩

theorem blind_beginClass (name : String) : Blind file file' (beginClass name) := by
  refine (blind_requireOutside _).bind fun _ => ?_
  apply (agree_onTable (SymbolTable.agree_declareClass name)).bind
  intro k k' hk
  apply Mirrors.update
  rintro c _ ⟨hfile, ht⟩
  rw [hk.id]
  exact ⟨hfile, ht⟩

theorem blind_endClass : Blind file file' endClass := by
  apply Mirrors.get.bind
  rintro c _ ⟨-, -⟩
  dsimp only
  cases c.recording with
  | none => exact .reject rfl
  | some id =>
    dsimp only
    cases c.method with
    | some m =>
      apply (agree_onTable (SymbolTable.agree_classAt id)).bind
      intro k k' hk
      exact .reject rfl
    | none =>
      refine (blind_onTable (SymbolTable.blind_freeze id)).bind fun _ => Mirrors.update ?_
      rintro c _ ⟨hfile, ht⟩
      exact ⟨hfile, ht⟩

theorem blind_endProgram : Blind file file' endProgram := by
  apply Mirrors.get.bind
  rintro c _ ⟨-, -⟩
  dsimp only
  cases c.function with
  | some f => exact .reject rfl
  | none =>
    refine (blind_onEmitter _).bind fun lines => Mirrors.update ?_
    rintro c _ ⟨hfile, ht⟩
    exact ⟨hfile, ht⟩

/-! ### Notifications -/

theorem blind_construct (cmd : Command) : Blind file file' (construct cmd) := by
  by_cases hkind : cmd.kind ∉ [.declareFunction, .endFunction, .ret, .beginClass, .endClass,
    .endProgram]
  · exact declares_blind.construct Emitter.branches_true hkind
  unfold construct
  cases hcmd : cmd.kind with
  | ret => exact blind_ret
  | declareFunction => exact blind_declareFunction _ _ _
  | endFunction => exact blind_endFunction
  | beginClass => exact blind_beginClass _
  | endClass => exact blind_endClass
  | endProgram => exact blind_endProgram
  | _ => simp [hcmd] at hkind

theorem construct_eq_of_saysSame {cmd cmd' : Command} (h : cmd.SaysSame cmd')
    (hkind : cmd.kind ≠ .arith ∧ cmd.kind ≠ .compare) : construct cmd' = construct cmd := by
  obtain ⟨hsame, hsays⟩ := h
  unfold construct
  unfold Command.notification? at hsays
  rw [hsame] at hsays ⊢
  cases hcmd : cmd.kind <;> simp_all

/-- Notifications that say the same are compiled alike. -/
theorem agree_construct {cmd cmd' : Command} (h : cmd.SaysSame cmd') :
    Mirrors (Agree file file') Eq (construct cmd) (construct cmd') := by
  by_cases hop : cmd.kind ≠ .arith ∧ cmd.kind ≠ .compare
  · rw [construct_eq_of_saysSame h hop]
    exact blind_construct cmd
  obtain ⟨hsame, hsays⟩ := h
  unfold construct
  unfold Command.notification? at hsays
  rw [hsame] at hsays ⊢
  cases hcmd : cmd.kind with
  | arith =>
    rw [hcmd] at hsays
    exact agree_arith (Option.map_injective (fun _ _ => Notification.arith.inj) hsays)
  | compare =>
    rw [hcmd] at hsays
    exact agree_compare (Option.map_injective (fun _ _ => Notification.compare.inj) hsays)
  | _ => simp [hcmd] at hop

end Compilation

end MkCompiler
