import MkCompiler.Proofs.Notifications
import MkCompiler.Proofs.OperandTypes

/-!
# Outcomes of recording

While a class is open, a notification is checked against it and then added to its body. What that
changes is told by the class, the notification and the method that is open, and a notification that
is refused changes nothing. Everything that recording preserves follows from these two facts.
-/

namespace MkCompiler

open MkCompiler.Action

def Action.Refused {σ : Type} (s : σ) (f : Failure) (s' : σ) : Prop :=
  s' = s ∧ ∃ v, f = .rejected v

theorem Action.refused {σ : Type} (s : σ) (v : Violation) : Refused s (.rejected v) s :=
  ⟨rfl, v, rfl⟩

/-! ## What a notification declares in a class -/

namespace CommandKind

def isClassLevel : CommandKind → Bool
  | .beginClass | .endClass | .declareInstance | .endProgram => false
  | .declareFunction | .endFunction | .ret => false
  | .beginCondition | .compare | .endIf | .endWhile => false
  | _ => true

def isBodyLevel : CommandKind → Bool
  | .beginClass | .endClass | .declareInstance | .endProgram => false
  | .declareFunction | .endFunction | .declareArray => false
  | _ => true

theorem ne_declareFunction_of_isClassLevel {kind : CommandKind} (h : kind.isClassLevel = true) :
    kind ≠ .declareFunction := by
  rintro rfl
  cases h

theorem ne_declareFunction_of_isBodyLevel {kind : CommandKind} (h : kind.isBodyLevel = true) :
    kind ≠ .declareFunction := by
  rintro rfl
  cases h

end CommandKind

namespace Command

def method? (cmd : Command) : Option (String × Signature) :=
  if cmd.kind = .declareFunction then
    some (cmd.name, Signature.ofParams cmd.name cmd.type cmd.params)
  else
    none

def field? (id : Nat) (cmd : Command) : Option (String × Global) :=
  match cmd.kind with
  | .declareVariable =>
    some (cmd.name, { Global.ofVariable cmd.name cmd.type with classId := id })
  | .declareArray =>
    some (cmd.name, { Global.ofArray cmd.name cmd.type cmd.length with classId := id })
  | _ => none

variable {cmd : Command}

theorem method?_eq_none (h : cmd.kind ≠ .declareFunction) : cmd.method? = none :=
  if_neg h

end Command

/-- What becomes of a class and of the method that is open in it when a notification is checked,
before it is added to the body. -/
inductive ClassInfo.Notes (k : ClassInfo) (cmd : Command) :
    Option Signature → Bool → ClassInfo → Option Signature → Bool → Prop
  | field {name : String} {g : Global} {returned : Bool}
      (hlevel : cmd.kind.isClassLevel = true) (hfield : cmd.field? k.id = some (name, g))
      (hnew : k.fields.find? name = none) :
      Notes k cmd none returned { k with fields := k.fields.insert name g } none returned
  | single {returned : Bool} (hlevel : cmd.kind.isClassLevel = true)
      (hfield : cmd.field? k.id = none) : Notes k cmd none returned k none returned
  | enter {sig : Signature} {returned : Bool} (hkind : cmd.kind = .declareFunction)
      (hsig : sig = Signature.ofParams cmd.name cmd.type cmd.params) (hscalar : sig.IsScalar)
      (hreserved : isReservedName sig.name = false) (hnew : k.methods.find? sig.name = none) :
      Notes k cmd none returned { k with methods := k.methods.insert sig.name sig } (some sig) false
  | inside {m : Signature} {returned : Bool} (hlevel : cmd.kind.isBodyLevel = true) :
      Notes k cmd (some m) returned k (some m) (returned || decide (cmd.kind = .ret))
  | leave {m : Signature} (hkind : cmd.kind = .endFunction) : Notes k cmd (some m) true k none true
  | ending {method : Option Signature} {returned : Bool} (hkind : cmd.kind = .endClass) :
      Notes k cmd method returned k method returned

/-- The name of the class, its body and its being open are not concerned. -/
theorem ClassInfo.Notes.same {k k' : ClassInfo} {cmd : Command} {method method' : Option Signature}
    {returned returned' : Bool} (h : k.Notes cmd method returned k' method' returned') :
    k'.id = k.id ∧ k'.name = k.name ∧ k'.frozen = k.frozen ∧ k'.commands = k.commands := by
  cases h <;> exact ⟨rfl, rfl, rfl, rfl⟩

/-! ## Classes of the table -/

namespace SymbolTable

variable {t : SymbolTable} {id : Nat} {k : ClassInfo}

theorem ends_classAt {Q : ClassInfo → SymbolTable → Prop} {E : Failure → SymbolTable → Prop}
    (hk : t.classes[id]? = some k) (hq : Q k t) : Ends (classAt id) t Q E := by
  unfold classAt
  rw [ends_bind, ends_get]
  have hid : ¬(id : Int) < 0 := by omega
  rw [if_neg hid, Int.toNat_natCast, hk]
  exact hq

theorem setClass_self (h : t.classes[k.id]? = some k) : t.setClass k = t := by
  obtain ⟨hlt, hget⟩ := List.getElem?_eq_some_iff.mp h
  have hset := List.set_getElem_self hlt
  rw [hget] at hset
  rw [setClass, hset]

theorem getElem?_setClass (h : t.classes[id]? = some k) {k' : ClassInfo} (hid : k'.id = id)
    (i : Nat) : (t.setClass k').classes[i]? = if i = id then some k' else t.classes[i]? := by
  obtain ⟨hlt, -⟩ := List.getElem?_eq_some_iff.mp h
  rw [setClass, hid, List.getElem?_set]
  by_cases hi : i = id
  · simp [hi, hlt]
  · simp [hi, Ne.symm hi]

theorem ends_declareClassField (hk : t.classes[id]? = some k) (g : Global) :
    Ends (declareClassField id g) t
      (fun _ t' => k.fields.find? g.name = none ∧ t' = t.setClass { k with
        fields := k.fields.insert g.name { g with classId := k.id } })
      (Refused t) := by
  rw [declareClassField, ends_bind]
  apply ends_classAt hk
  rw [ends_bind, ends_require]
  refine ⟨fun hnone => ?_, fun _ => refused _ _⟩
  exact ends_modify.mpr ⟨Option.isNone_iff_eq_none.mp hnone, rfl⟩

theorem ends_declareClassMethod (hk : t.classes[id]? = some k) (sig : Signature) :
    Ends (declareClassMethod id sig) t
      (fun _ t' => isReservedName sig.name = false ∧ k.methods.find? sig.name = none ∧
        t' = t.setClass { k with methods := k.methods.insert sig.name sig })
      (Refused t) := by
  rw [declareClassMethod, ends_bind, ends_require]
  refine ⟨fun hreserved => ?_, fun _ => refused _ _⟩
  rw [ends_bind]
  apply ends_classAt hk
  rw [ends_bind, ends_require]
  refine ⟨fun hnone => ?_, fun _ => refused _ _⟩
  exact ends_modify.mpr ⟨hreserved, Option.isNone_iff_eq_none.mp hnone, rfl⟩

end SymbolTable

namespace Compilation

variable {c c' : Compilation}

/-! ## Checks -/

theorem ends_checkSignature (name : String) (result : DataType) (params : List Param)
    (c : Compilation) : Ends (checkSignature name result params) c
      (fun _ c' => c' = c ∧ (Signature.ofParams name result params).IsScalar) (Refused c) := by
  have hparams : Ends (checkParams params) c
      (fun _ c' => c' = c ∧ ∀ p ∈ params, p.type.IsScalar) (Refused c) := by
    induction params with
    | nil => exact ends_pure.mpr ⟨rfl, by simp⟩
    | cons p rest ih =>
      rw [checkParams, ends_bind, requireScalar, ends_require]
      refine ⟨fun hp => ih.mono ?_ fun _ _ h => h, fun _ => refused _ _⟩
      rintro _ _ ⟨rfl, hrest⟩
      exact ⟨rfl, by simpa using ⟨hp, hrest⟩⟩
  rw [checkSignature, ends_bind, requireScalar, ends_require]
  refine ⟨fun hresult => hparams.mono ?_ fun _ _ h => h, fun _ => refused _ _⟩
  rintro _ _ ⟨rfl, hscalar⟩
  refine ⟨rfl, hresult, ?_⟩
  intro type htype
  obtain ⟨p, hp, rfl⟩ := List.mem_map.mp htype
  exact hscalar p hp

def Noted (k : ClassInfo) (cmd : Command) (c c' : Compilation) : Prop :=
  ∃ k' method returned, k.Notes cmd c.method c.methodReturned k' method returned ∧
    c' = { c with table := c.table.setClass k', method, methodReturned := returned }

section Checks

variable {k : ClassInfo} {cmd : Command} (hk : c.table.classes[k.id]? = some k)
include hk

theorem noted_of_notes {method : Option Signature} {returned : Bool}
    (h : k.Notes cmd c.method c.methodReturned k method returned) :
    Noted k cmd c { c with method, methodReturned := returned } :=
  ⟨k, method, returned, h, by rw [SymbolTable.setClass_self hk]⟩

theorem noted_inside (hsome : c.method.isSome = true) (hlevel : cmd.kind.isBodyLevel = true) :
    Noted k cmd c { c with methodReturned := c.methodReturned || decide (cmd.kind = .ret) } := by
  obtain ⟨m, hmethod⟩ := Option.isSome_iff_exists.mp hsome
  apply noted_of_notes hk
  rw [hmethod]
  exact .inside hlevel

theorem ends_declareClassField_noted (g : Global) (hmethod : c.method = none)
    (hlevel : cmd.kind.isClassLevel = true)
    (hg : cmd.field? k.id = some (g.name, { g with classId := k.id })) :
    Ends (onTable (SymbolTable.declareClassField k.id g)) c (fun _ => Noted k cmd c)
      (Refused c) := by
  rw [onTable, ends_zoom]
  apply (SymbolTable.ends_declareClassField hk g).mono
  · rintro _ _ ⟨hnew, rfl⟩
    exact ⟨_, c.method, _, hmethod ▸ .field hlevel hg hnew, rfl⟩
  · rintro _ _ ⟨rfl, v, rfl⟩
    exact refused _ _

/-- A notification is checked against an open class, and what it declares there is noted. -/
theorem ends_checkRecorded (cmd : Command) :
    Ends (checkRecorded k cmd) c (fun _ => Noted k cmd c) (Refused c) := by
  have hinside (hsome : c.method.isSome = true) (hlevel : cmd.kind.isBodyLevel = true)
      (hkind : cmd.kind ≠ .ret) : Noted k cmd c c := by
    have hnoted := noted_inside hk hsome hlevel
    rwa [decide_eq_false hkind, Bool.or_false] at hnoted
  rw [checkRecorded, ends_bind, ends_get]
  dsimp only
  cases hkind : cmd.kind with
  | beginClass | declareInstance | endProgram => exact ends_reject.mpr (refused _ _)
  | endClass => exact noted_of_notes hk (.ending hkind)
  | declareFunction =>
    cases hmethod : c.method with
    | some m => exact ends_reject.mpr (refused _ _)
    | none =>
      dsimp only
      rw [ends_bind]
      apply (ends_checkSignature _ _ _ c).mono
      · rintro _ _ ⟨rfl, hscalar⟩
        rw [ends_bind, onTable, ends_zoom]
        apply (SymbolTable.ends_declareClassMethod hk _).mono
        · rintro _ _ ⟨hreserved, hnew, rfl⟩
          refine ends_modify.mpr ⟨_, _, _, ?_, rfl⟩
          rw [hmethod]
          exact .enter hkind rfl hscalar hreserved hnew
        · rintro _ _ ⟨rfl, v, rfl⟩
          exact refused _ _
      · exact fun _ _ h => h
  | endFunction =>
    cases hmethod : c.method with
    | none => exact ends_reject.mpr (refused _ _)
    | some m =>
      dsimp only
      rw [ends_bind, ends_get, ends_bind, ends_require]
      refine ⟨fun hreturned => ends_modify.mpr ?_, fun _ => refused _ _⟩
      apply noted_of_notes hk
      rw [hmethod, hreturned]
      exact .leave hkind
  | ret =>
    rw [ends_bind, ends_require]
    refine ⟨fun hsome => ends_modify.mpr ?_, fun _ => refused _ _⟩
    have hnoted := noted_inside hk hsome (by rw [hkind]; rfl)
    rwa [decide_eq_true hkind, Bool.or_true] at hnoted
  | beginCondition | compare | endIf | endWhile =>
    rw [ends_require]
    refine ⟨fun hsome => ?_, fun _ => refused _ _⟩
    exact hinside hsome (by rw [hkind]; rfl) (by simp [hkind])
  | declareVariable =>
    rw [ends_ite]
    constructor
    · intro hnone
      apply ends_declareClassField_noted hk _ (Option.isNone_iff_eq_none.mp hnone)
      · rw [hkind]
        rfl
      · rw [Command.field?, hkind]
        rfl
    · intro hsome
      refine hinside ?_ (by rw [hkind]; rfl) (by simp [hkind])
      simpa [Option.isSome_iff_ne_none] using hsome
  | declareArray =>
    cases hmethod : c.method with
    | some m => exact ends_reject.mpr (refused _ _)
    | none =>
      apply ends_declareClassField_noted hk _ hmethod
      · rw [hkind]
        rfl
      · rw [Command.field?, hkind]
        rfl
  | _ =>
    apply ends_pure.mpr
    cases hmethod : c.method with
    | none =>
      apply noted_of_notes hk
      rw [hmethod]
      exact .single (by rw [hkind]; rfl) (by rw [Command.field?, hkind])
    | some m => exact hinside (by simp [hmethod]) (by rw [hkind]; rfl) (by simp [hkind])

/-- A notification is recorded in an open class: it is checked, and then added to the body. -/
theorem ends_record (cmd : Command) :
    Ends (record k.id cmd) c (fun _ c' => ∃ k' method returned, k.frozen = false ∧
      k.Notes cmd c.method c.methodReturned k' method returned ∧ c' = { c with
        table := c.table.setClass { k' with commands := k.commands ++ [cmd] }
        method, methodReturned := returned }) fun f c' => k.frozen = false → Refused c f c' := by
  rw [record, ends_bind, onTable, ends_zoom]
  apply SymbolTable.ends_classAt hk
  rw [ends_bind]
  apply (ends_checkRecorded hk cmd).mono
  · rintro _ _ ⟨k', method, returned, hnotes, rfl⟩
    obtain ⟨hid, -, hfrozen, hcommands⟩ := hnotes.same
    have hk' : (c.table.setClass k').classes[k.id]? = some k' := by
      rw [SymbolTable.getElem?_setClass hk hid, if_pos rfl]
    rw [ends_bind, onTable, ends_zoom, SymbolTable.record, ends_bind]
    apply SymbolTable.ends_classAt hk'
    rw [ends_ite, hcommands]
    constructor
    · intro hclosed
      rw [ends_pure, if_pos rfl, ends_throw]
      intro hopen
      rw [hfrozen, hopen] at hclosed
      cases hclosed
    · intro hopen
      rw [ends_bind, ends_modify, ends_pure]
      refine ⟨k', method, returned, by simpa [hfrozen] using hopen, hnotes, ?_⟩
      simp [SymbolTable.setClass]
  · exact fun _ _ h _ => h

end Checks

end Compilation

end MkCompiler
