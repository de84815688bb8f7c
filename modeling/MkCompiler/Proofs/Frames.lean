import MkCompiler.Proofs.Notifications

/-!
# What constructs leave alone

A construct that is compiled works on the stack, the emitter and the scopes of the table. All else
stays as it is, whether the construct is accepted or fails halfway, except that definitions and
returns keep books on the open function, and that the beginning and the end of a class reach the
classes and what is being recorded.
-/

namespace MkCompiler

open MkCompiler.Action

namespace Compilation

variable {α : Type} {c c' : Compilation}

/-- All stays as it is, apart from the stack, the emitter and the scopes of the table. -/
structure SameContext (c c' : Compilation) : Prop where
  stage : c.table.SameStage c'.table
  function : c'.function = c.function
  returned : c'.returned = c.returned
  recording : c'.recording = c.recording
  method : c'.method = c.method
  methodReturned : c'.methodReturned = c.methodReturned
  program : c'.program = c.program

instance : IsPreorder Compilation SameContext where
  refl _ := ⟨refl_of SymbolTable.SameStage _, rfl, rfl, rfl, rfl, rfl, rfl⟩
  trans _ _ _ h h' := ⟨trans_of SymbolTable.SameStage h.stage h'.stage,
    h'.function.trans h.function, h'.returned.trans h.returned, h'.recording.trans h.recording,
    h'.method.trans h.method, h'.methodReturned.trans h.methodReturned,
    h'.program.trans h.program⟩

abbrev Contained (x : Action Compilation α) : Prop :=
  Leads SameContext x

theorem contained_onEmitter (x : Action Emitter α) : Contained (onEmitter x) := by
  intro c
  rw [onEmitter, ends_zoom, Ends]
  cases x c.emitter <;>
    exact ⟨refl_of SymbolTable.SameStage _, rfl, rfl, rfl, rfl, rfl, rfl⟩

theorem contained_scopes {x : Action SymbolTable α} (hx : Leads SymbolTable.SameStage x) :
    Contained (onTable x) :=
  fun c => ends_zoom.mpr ((hx c.table).mono (fun _ _ h => ⟨h, rfl, rfl, rfl, rfl, rfl, rfl⟩)
    fun _ _ h => ⟨h, rfl, rfl, rfl, rfl, rfl, rfl⟩)

theorem declares_contained : Declares (fun {_} x => Contained x) fun {_} _ => True := by
  refine .of_scopes (works_leads ?_ fun _ => contained_onEmitter _) contained_scopes
    leads_requireOutside fun _ _ _ => trivial
  exact fun _ _ => ⟨refl_of SymbolTable.SameStage _, rfl, rfl, rfl, rfl, rfl, rfl⟩

theorem contained_pop : Contained pop :=
  declares_contained.pop

theorem contained_construct {cmd : Command} (h : cmd.kind ∉ [.declareFunction, .endFunction, .ret,
    .beginClass, .endClass, .endProgram]) : Contained (construct cmd) :=
  declares_contained.construct Emitter.branches_true h

theorem contained_openBody (name : String) (result : DataType) (params : List Param) :
    Contained (openBody name result params) :=
  declares_contained.openBody (fun _ => contained_scopes (SymbolTable.leads_declareFunction _))
    (fun _ _ _ => trivial) name result params

/-- The classes, and what is being recorded, stay as they are. -/
structure SameRecording (c c' : Compilation) : Prop where
  classes : c'.table.classes = c.table.classes
  classNames : c'.table.classNames = c.table.classNames
  recording : c'.recording = c.recording
  method : c'.method = c.method
  methodReturned : c'.methodReturned = c.methodReturned

instance : IsPreorder Compilation SameRecording where
  refl _ := ⟨rfl, rfl, rfl, rfl, rfl⟩
  trans _ _ _ h h' := ⟨h'.classes.trans h.classes, h'.classNames.trans h.classNames,
    h'.recording.trans h.recording, h'.method.trans h.method,
    h'.methodReturned.trans h.methodReturned⟩

abbrev Unrecorded (x : Action Compilation α) : Prop :=
  Leads SameRecording x

theorem SameContext.sameRecording (h : SameContext c c') : SameRecording c c' :=
  ⟨h.stage.classes, h.stage.classNames, h.recording, h.method, h.methodReturned⟩

theorem Contained.unrecorded {x : Action Compilation α} (h : Contained x) : Unrecorded x :=
  Leads.mono h fun _ _ => SameContext.sameRecording

theorem unrecorded_declareFunction (name : String) (result : DataType) (params : List Param) :
    Unrecorded (declareFunction name result params) := by
  apply (leads_requireOutside _).bind
  intro _
  apply (contained_openBody _ _ _).unrecorded.bind
  intro opened
  apply (Leads.update fun _ => ⟨rfl, rfl, rfl, rfl, rfl⟩).bind
  intro _
  exact (Contained.unrecorded (declares_contained.declareLocals _)).bind fun _ =>
    .update fun _ => ⟨rfl, rfl, rfl, rfl, rfl⟩

theorem unrecorded_endFunction : Unrecorded endFunction := by
  apply Leads.get.bind
  intro c
  cases c.function with
  | none => exact .reject _
  | some f =>
    exact (Leads.require _ _).bind fun _ => (contained_onEmitter _).unrecorded.bind fun _ =>
      .update fun _ => ⟨rfl, rfl, rfl, rfl, rfl⟩

theorem unrecorded_endProgram : Unrecorded endProgram := by
  apply Leads.get.bind
  intro c
  cases c.function with
  | some f => exact .reject _
  | none =>
    exact (contained_onEmitter _).unrecorded.bind fun _ =>
      .update fun _ => ⟨rfl, rfl, rfl, rfl, rfl⟩

theorem unrecorded_ret : Unrecorded ret :=
  contained_pop.unrecorded.bind fun _ => (contained_onEmitter _).unrecorded.bind fun _ =>
    .update fun _ => ⟨rfl, rfl, rfl, rfl, rfl⟩

theorem unrecorded_construct {cmd : Command} (hbegin : cmd.kind ≠ .beginClass)
    (hend : cmd.kind ≠ .endClass) : Unrecorded (construct cmd) := by
  by_cases h : cmd.kind ∉ [.declareFunction, .endFunction, .ret, .beginClass, .endClass,
    .endProgram]
  · exact (contained_construct h).unrecorded
  · simp only [List.mem_cons, List.not_mem_nil, or_false, Decidable.not_not] at h
    rw [construct]
    rcases h with hkind | hkind | hkind | hkind | hkind | hkind <;> rw [hkind]
    · exact unrecorded_declareFunction _ _ _
    · exact unrecorded_endFunction
    · exact unrecorded_ret
    · exact absurd hkind hbegin
    · exact absurd hkind hend
    · exact unrecorded_endProgram

end Compilation

end MkCompiler
