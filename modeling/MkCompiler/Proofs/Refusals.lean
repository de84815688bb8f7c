import MkCompiler.Proofs.Histories

/-!
# Refusals

What is declared in the symbol table is declared completely or not at all: all checks come before
the first update. While a class is open, a notification that is refused changes nothing either, and
one that is recorded changes the class, by that notification at the end of its body, and what is
known of the method that is open in it.
-/

namespace MkCompiler

open MkCompiler.Action

namespace Action

variable {ε σ α β : Type} {x : EStateM ε σ α} {f : α → EStateM ε σ β}

/-- If the operation fails, the state is as it was before. -/
def AllOrNothing (x : EStateM ε σ α) : Prop :=
  ∀ s e s', x s = .error e s' → s' = s

theorem allOrNothing_iff :
    AllOrNothing x ↔ ∀ s, Ends x s (fun _ _ => True) fun _ s' => s' = s := by
  constructor
  · intro h s
    rw [Ends]
    cases hx : x s with
    | ok a s' => trivial
    | error e s' => exact h s e s' hx
  · intro h s e s' hx
    exact (h s).of_error hx

theorem allOrNothing_check (hx : Leads Eq x) : AllOrNothing x :=
  fun s _ _ hrun => ((hx s).of_error hrun).symm

theorem allOrNothing_update (h : ∀ s, ∃ a s', x s = .ok a s') : AllOrNothing x := by
  intro s e s' hrun
  obtain ⟨a, s'', hok⟩ := h s
  rw [hok] at hrun
  cases hrun

theorem AllOrNothing.after (hf : ∀ a, AllOrNothing (f a)) (hx : Leads Eq x) :
    AllOrNothing (x >>= f) := by
  rw [allOrNothing_iff]
  intro s
  rw [ends_bind]
  apply (hx s).mono
  · rintro a _ rfl
    exact allOrNothing_iff.mp (hf a) s
  · exact fun _ _ h => h.symm

end Action

namespace SymbolTable

theorem checks : Composes (fun {_} (x : Action SymbolTable _) => Leads Eq x) :=
  composes_leads Eq

theorem allOrNothing_declareGlobal (g : Global) : AllOrNothing (declareGlobal g) :=
  .after (fun _ => allOrNothing_update fun _ => ⟨_, _, rfl⟩) (checks.checkProgramName _)

theorem allOrNothing_declareField (g : Global) : AllOrNothing (declareField g) := by
  refine .after (fun t => ?_) .get
  cases t.current with
  | none => exact allOrNothing_check (.reject _)
  | some name =>
    dsimp only
    cases t.instances.find? name with
    | none => exact allOrNothing_check (.throw _)
    | some inst =>
      exact .after (fun _ => allOrNothing_update fun _ => ⟨_, _, rfl⟩) (.require _ _)

theorem allOrNothing_declareLocal (l : Local) : AllOrNothing (declareLocal l) := by
  refine .after (fun t => ?_) .get
  cases t.locals with
  | none => exact allOrNothing_check (.reject _)
  | some locals =>
    exact .after (fun _ => allOrNothing_update fun _ => ⟨_, _, rfl⟩) (.require _ _)

theorem allOrNothing_declareFunction (sig : Signature) : AllOrNothing (declareFunction sig) :=
  .after (fun _ => .after (fun _ => .after (fun _ => allOrNothing_update fun _ => ⟨_, _, rfl⟩)
    (.require _ _)) (.require _ _)) .get

theorem allOrNothing_declareClass (name : String) : AllOrNothing (declareClass name) :=
  .after (fun _ => .after (fun _ => allOrNothing_update fun _ => ⟨_, _, rfl⟩)
    (checks.checkProgramName _)) (.require _ _)

theorem allOrNothing_declareClassField (id : Nat) (g : Global) :
    AllOrNothing (declareClassField id g) :=
  .after (fun _ => .after (fun _ => allOrNothing_update fun _ => ⟨_, _, rfl⟩) (.require _ _))
    (checks.classAt _)

theorem allOrNothing_declareClassMethod (id : Nat) (sig : Signature) :
    AllOrNothing (declareClassMethod id sig) :=
  .after (fun _ => .after (fun _ => .after (fun _ => allOrNothing_update fun _ => ⟨_, _, rfl⟩)
    (.require _ _)) (checks.classAt _)) (.require _ _)

theorem allOrNothing_declareInstance (name className : String) :
    AllOrNothing (declareInstance name className) :=
  .after (fun _ => .after (fun _ => .after (fun _ => .after (fun _ =>
    allOrNothing_update fun _ => ⟨_, _, rfl⟩) (checks.checkProgramName _)) (.require _ _))
      (.require _ _)) (checks.lookupClass _)

end SymbolTable

namespace Compilation

variable {c c' : Compilation} {id : Nat}

/-- A notification is at the end of the body of the class with a handle. Nothing else has changed
but what is known of the members of the class and of the method that is open in it. -/
def BodyGrows (id : Nat) (cmd : Command) (c c' : Compilation) : Prop :=
  ∃ k k' method returned, c.table.classes[id]? = some k ∧ k'.id = k.id ∧ k'.name = k.name ∧
    k'.frozen = k.frozen ∧ k'.commands = k.commands ++ [cmd] ∧
    c' = { c with
      table := { c.table with classes := c.table.classes.set id k' }
      method
      methodReturned := returned }

/-- While a class is open a notification is recorded or changes nothing. -/
theorem WellRecorded.ends_handle (h : c.WellRecorded) (hid : c.recording = some id)
    (cmd : Command) : Ends (handle cmd) c
      (fun _ c' => cmd.kind ≠ .endClass → BodyGrows id cmd c c') fun _ c' => c' = c := by
  obtain ⟨k, rfl, hk, hfrozen⟩ := h.exists_class hid
  rw [handle, ends_bind, ends_get, ends_ite]
  refine ⟨fun _ => ends_throw.mpr rfl, fun _ => ?_⟩
  rw [hid]
  dsimp only
  rw [ends_ite]
  constructor
  · intro hend
    rw [dispatch_eq_construct (by simp [hend]), ends_locate, construct, hend]
    apply (ends_endClass c).mono
    · exact fun _ _ _ hkind => absurd rfl hkind
    · exact fun _ _ h => h.1
  · intro hend
    rw [ends_locate]
    apply (ends_record_appends h hid hk hend).mono
    · rintro _ _ ⟨k', b, method, returned, rfl, hid', hname, hfrozen', hcommands, -⟩ -
      refine ⟨k, k', method, returned, hk, hid', hname, hfrozen', hcommands, ?_⟩
      rw [SymbolTable.setClass, hid']
    · exact fun _ _ h => h

/-- The declarations of the symbol table are all or nothing. So is recording: while a class is open,
behind any notifications and refused ones among them. -/
theorem declarations_and_recording_all_or_nothing :
    ((∀ g, AllOrNothing (SymbolTable.declareGlobal g)) ∧
      (∀ g, AllOrNothing (SymbolTable.declareField g)) ∧
      (∀ l, AllOrNothing (SymbolTable.declareLocal l)) ∧
      (∀ sig, AllOrNothing (SymbolTable.declareFunction sig)) ∧
      (∀ name, AllOrNothing (SymbolTable.declareClass name)) ∧
      (∀ id g, AllOrNothing (SymbolTable.declareClassField id g)) ∧
      (∀ id sig, AllOrNothing (SymbolTable.declareClassMethod id sig)) ∧
      ∀ name className, AllOrNothing (SymbolTable.declareInstance name className)) ∧
    ∀ (file : String) (symbols : RuntimeSymbols) (commands : List Command) (c : Compilation)
      (id : Nat) (cmd : Command), c = behind commands (start file symbols) →
        c.recording = some id →
          (∀ stop c', handle cmd c = .error stop c' → c' = c) ∧
            ∀ c', handle cmd c = .ok () c' → cmd.kind ≠ .endClass → BodyGrows id cmd c c' := by
  refine ⟨⟨SymbolTable.allOrNothing_declareGlobal, SymbolTable.allOrNothing_declareField,
    SymbolTable.allOrNothing_declareLocal, SymbolTable.allOrNothing_declareFunction,
    SymbolTable.allOrNothing_declareClass, SymbolTable.allOrNothing_declareClassField,
    SymbolTable.allOrNothing_declareClassMethod, SymbolTable.allOrNothing_declareInstance⟩, ?_⟩
  rintro file symbols commands c id cmd rfl hid
  have hends := (intact_behind_start (S := fun _ => True) file symbols
    fun _ _ => trivial).wellRecorded.ends_handle hid cmd
  exact ⟨fun _ _ => hends.of_error, fun _ => hends.of_ok⟩

def fieldStream : List Command :=
  [{ kind := .beginClass, name := "P" }, { kind := .declareVariable, name := "n" }]

/-- A field is declared twice, and then another one. -/
theorem declarations_and_recording_all_or_nothing_field :
    (∃ stop, handle { kind := .declareVariable, name := "n" }
        (behind fieldStream (start "sample.mk" .standard)) =
          .error stop (behind fieldStream (start "sample.mk" .standard))) ∧
      ∃ c', BodyGrows 0 { kind := .declareVariable, name := "m" }
        (behind fieldStream (start "sample.mk" .standard)) c' := by
  have hid : (behind fieldStream (start "sample.mk" .standard)).recording = some 0 := by
    decide +kernel
  have hall (cmd : Command) := declarations_and_recording_all_or_nothing.2 "sample.mk" .standard
    fieldStream _ 0 cmd rfl hid
  constructor
  · cases hrun : handle { kind := .declareVariable, name := "n" }
        (behind fieldStream (start "sample.mk" .standard)) with
    | ok _ c' =>
      have hnone : handled? [{ kind := .declareVariable, name := "n" }]
          (behind fieldStream (start "sample.mk" .standard)) = none := by
        decide +kernel
      rw [handled?_cons.mpr ⟨c', hrun, rfl⟩] at hnone
      cases hnone
    | error stop c' =>
      obtain rfl := (hall _).1 stop c' hrun
      exact ⟨stop, rfl⟩
  · obtain ⟨c', hc'⟩ : ∃ c', handled? [{ kind := .declareVariable, name := "m" }]
        (behind fieldStream (start "sample.mk" .standard)) = some c' := by
      exact Option.isSome_iff_exists.mp (by decide +kernel)
    obtain ⟨c₁, hrun, -⟩ := handled?_cons.mp hc'
    exact ⟨c₁, (hall _).2 c₁ hrun (by decide)⟩

end Compilation

end MkCompiler
