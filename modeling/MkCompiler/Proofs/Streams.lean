import MkCompiler.Proofs.Classes

/-!
# Streams of notifications

What a whole stream does: it runs steps of the emitter one after the other, and the end of the
program closes them. The body of a class is run again for every instance. It has been checked while
it was recorded, so that nothing in it is out of place.
-/

namespace MkCompiler

open MkCompiler.Action

/-- Steps of the emitter, performed for notifications of some kinds. None of them ends the
program. -/
inductive Emitter.Run : List CommandKind → Emitter → Emitter → Prop
  | nil {e} : Run [] e e
  | cons {kind kinds e e' e''} : kind ≠ .endProgram → Performs kind e e' → Run kinds e' e'' →
      Run (kind :: kinds) e e''

theorem Emitter.Run.append {kinds kinds' : List CommandKind} {e e' e'' : Emitter}
    (h : Run kinds e e') (h' : Run kinds' e' e'') : Run (kinds ++ kinds') e e'' := by
  induction h with
  | nil => exact h'
  | cons hkind hp _ ih => exact .cons hkind hp (ih h')

/-- A notification other than the beginning and the end of a function takes one elementary step
inside of the active body, except for a comparison that opens its condition as well. -/
theorem Emitter.Performs.bodySteps {kind : CommandKind} {e e' : Emitter}
    (hkind : kind ∉ [.declareFunction, .endFunction, .endProgram]) (h : Performs kind e e') :
    Relation.ReflTransGen BodyStep e e' := by
  by_cases hstraight : kind.isStraight = true
  · rw [performs_straight hstraight] at h
    exact .single (.straight h)
  · cases kind with
    | beginCondition =>
      obtain ⟨hopen, h⟩ := turns_openCondition e _ _ h
      exact .single (.condition hopen h)
    | compare =>
      obtain ⟨left, op, right, h⟩ := h
      obtain ⟨e₁, id, n, code, he₁, hid, hcode, h⟩ := turns_compare left op right e _ _ h
      have hlast : Relation.ReflTransGen BodyStep e₁ e' := .single (.branch hid hcode h)
      rcases he₁ with rfl | he₁
      · exact hlast
      · obtain ⟨hopen, h₁⟩ := turns_openCondition e _ _ he₁
        exact .head (.condition hopen h₁) hlast
    | endIf =>
      obtain ⟨id, pending, hpending, h⟩ := turns_endControl _ e _ _ h
      exact .single (.exit hpending h)
    | endWhile =>
      obtain ⟨id, pending, hpending, h⟩ := turns_endControl _ e _ _ h
      exact .single (.exit hpending h)
    | ret =>
      obtain ⟨op, h⟩ := h
      obtain ⟨-, code, type, v, hcode, h⟩ := turns_ret op e _ _ h
      exact .single (.ret hcode h)
    | beginClass =>
      rw [show e = e' from h]
    | endClass =>
      rw [show e = e' from h]
    | declareInstance => exact h.elim
    | unknown n => exact h.elim
    | _ => simp [CommandKind.isStraight] at hstraight hkind

theorem Emitter.Performs.steps {kind : CommandKind} {e e' : Emitter} (hkind : kind ≠ .endProgram)
    (h : Performs kind e e') : Relation.ReflTransGen Step e e' := by
  by_cases hbody : kind ∉ [.declareFunction, .endFunction, .endProgram]
  · exact Relation.ReflTransGen.mono (fun _ _ => .body) _ _ (h.bodySteps hbody)
  · simp only [List.mem_cons, List.not_mem_nil, or_false, Decidable.not_not] at hbody
    rcases hbody with rfl | rfl | rfl
    · obtain ⟨name, sig, params, locals, hname, h⟩ := h
      obtain ⟨hnone, c, o, he, hpending, hopen, h, -⟩ :=
        ensures_openFunction name sig params e _ _ h
      exact .single (.enter hnone he hpending hopen h (decide_eq_true hname))
    · obtain ⟨f, o, hsome, hpending, hopen, he, h⟩ := ensures_endFunction e _ _ h
      exact .single (.leave hsome hpending hopen he h)
    · exact absurd rfl hkind

/-- What every elementary step preserves holds behind a run. -/
theorem Emitter.Run.invariant {P : Emitter → Prop} (hstep : ∀ e e', Step e e' → P e → P e')
    {kinds : List CommandKind} {e e' : Emitter} (h : Run kinds e e') (he : P e) : P e' := by
  have hsteps {e e' : Emitter} (h : Relation.ReflTransGen Step e e') (he : P e) : P e' := by
    induction h with
    | refl => exact he
    | tail _ hs ih => exact hstep _ _ hs ih
  induction h with
  | nil => exact he
  | cons hkind hp _ ih => exact ih (hsteps (hp.steps hkind) he)

namespace Compilation

variable {c c' : Compilation} {id : Nat}

theorem Along.wellRecorded {R : Emitter → Emitter → Prop} (h : Along R c c')
    (hnone : c.recording = none) (hc : c.WellRecorded) : c'.WellRecorded := by
  rw [WellRecorded, h.classes, h.classNames, h.recording]
  refine ⟨hc.ids, hc.names, hc.frozen, hc.closed, ?_⟩
  simp [hnone]

/-! ## Recording -/

def Idle (c c' : Compilation) : Prop :=
  c'.emitter = c.emitter ∧ c'.program = c.program

theorem ensures_record {cmd : Command} (hid : c.recording = some id)
    (hclass : cmd.kind ≠ .endClass) (hc : c.WellRecorded) :
    Ensures (record id cmd) c fun _ c' =>
      Idle c c' ∧ c'.recording = c.recording ∧ c'.WellRecorded := by
  intro _ c' hrun
  have hc' := ((ends_record_evolves hid hclass hc).of_ok hrun hc).1
  obtain ⟨k, rfl, hk, -⟩ := hc.exists_class hid
  obtain ⟨k', method, returned, -, -, rfl⟩ := (ends_record hk cmd).of_ok hrun
  exact ⟨⟨rfl, rfl⟩, rfl, hc'⟩

theorem ensures_beginClass (name : String) (hnone : c.recording = none) (hc : c.WellRecorded) :
    Ensures (beginClass name) c fun _ c' =>
      Idle c c' ∧ c'.recording.isSome = true ∧ c'.WellRecorded := by
  intro _ c' hrun
  have hc' := ((ends_beginClass_evolves hnone name).of_ok hrun hc).1
  obtain ⟨-, -, -, rfl⟩ := (ends_beginClass c name).of_ok hrun
  exact ⟨⟨rfl, rfl⟩, rfl, hc'⟩

theorem ensures_endClass (hc : c.WellRecorded) : Ensures endClass c fun _ c' =>
    Idle c c' ∧ c.recording.isSome = true ∧ c'.recording = none ∧ c'.WellRecorded := by
  intro _ c' hrun
  have hc' := ((ends_endClass_evolves hc).of_ok hrun hc).1
  obtain ⟨id, k, hid, -, -, rfl⟩ := (ends_endClass c).of_ok hrun
  exact ⟨⟨rfl, rfl⟩, by simp [hid], rfl, hc'⟩

/-! ## Handling -/

section Locate

variable {α : Type} {x : Action Compilation α} {Q : α → Compilation → Prop}

theorem ensures_locate {line : Int} : Ensures (locate line x) c Q ↔ Ensures x c Q := by
  unfold Ensures locate
  cases hx : x c <;> simp

theorem ensures_leavingInstance {y : EStateM Stop Compilation α} :
    Ensures (leavingInstance y) c Q ↔
      Ensures y c fun a c' => Q a { c' with table := c'.table.setInstance none } := by
  unfold Ensures leavingInstance
  cases hy : y c <;> simp

end Locate

/-- The notifications of a class body perform the steps of their kinds. -/
theorem ensures_replay {commands : List Command} {r r' : Region}
    (h : r.after? (commands.map Command.kind) = some r') (c : Compilation) :
    Ensures (replay commands) c fun _ c' =>
      Along (Emitter.Run (commands.map Command.kind)) c c' := by
  induction commands generalizing r c with
  | nil => exact ensures_pure.mpr ⟨.nil, rfl, rfl, rfl, rfl, rfl⟩
  | cons cmd rest ih =>
    obtain ⟨hkind, r₁, -, hrest⟩ := Region.after?_cons_eq_some h
    simp only [List.mem_cons, List.not_mem_nil, or_false, not_or] at hkind
    obtain ⟨hbegin, hend, -, hprogram⟩ := hkind
    refine ensures_bind.mpr (ensures_locate.mpr ?_)
    refine (along_construct hbegin hend hprogram c).mono fun _ c₁ h₁ => ?_
    refine (ih hrest c₁).mono fun _ c₂ h₂ => (h₁.comp h₂).mono ?_
    rintro ⟨e, hp, hrun⟩
    exact .cons hprogram hp hrun

theorem ensures_openInstance (name className : String) (hc : c.WellRecorded) :
    Ensures (openInstance name className) c fun commands c' =>
      Along Eq c c' ∧ Region.outside.after? (commands.map Command.kind) = some .outside := by
  intro body c' hrun
  obtain ⟨k, hk, rfl, rfl⟩ := (hc.ends_openInstance name className).of_ok hrun
  exact ⟨⟨rfl, rfl, rfl, rfl, rfl, rfl⟩, hc.after?_of_class? hk⟩

theorem ensures_declareInstance (line : Int) (name className : String) (hc : c.WellRecorded) :
    Ensures (declareInstance line name className) c fun _ c' =>
      ∃ kinds, Region.outside.after? kinds = some .outside ∧ Along (Emitter.Run kinds) c c' := by
  refine ensures_bind.mpr (ensures_locate.mpr ?_)
  refine (ensures_openInstance name className hc).mono fun commands c₁ ⟨h₁, hkinds⟩ => ?_
  refine ensures_leavingInstance.mpr ((ensures_replay hkinds c₁).mono fun _ c₂ h₂ => ?_)
  have h : Along (Emitter.Run (commands.map Command.kind)) c c₂ :=
    (h₁.comp h₂).mono fun ⟨_, he, hr⟩ => he ▸ hr
  exact ⟨_, hkinds, { h with }⟩

/-- What a notification does. While a class is open all of them but its end are recorded. -/
def Handles (cmd : Command) (c c' : Compilation) : Prop :=
  if c.recording.isSome = true then
    Idle c c' ∧ c'.recording = if cmd.kind = .endClass then none else c.recording
  else
    match cmd.kind with
    | .beginClass => Idle c c' ∧ c'.recording.isSome = true
    | .endClass => False
    | .declareInstance => ∃ kinds, Region.outside.after? kinds = some .outside ∧
        Along (Emitter.Run kinds) c c'
    | .endProgram => ∃ lines, Emitter.finish c.emitter = .ok lines c'.emitter ∧
        c'.program = some lines
    | kind => Along (Emitter.Performs kind) c c'

theorem ensures_dispatch_endClass {cmd : Command} (hkind : cmd.kind = .endClass)
    (hc : c.WellRecorded) : Ensures (dispatch cmd) c fun _ c' =>
      Idle c c' ∧ c.recording.isSome = true ∧ c'.recording = none ∧ c'.WellRecorded := by
  unfold dispatch
  rw [hkind]
  refine ensures_locate.mpr ?_
  rw [construct, hkind]
  exact ensures_endClass hc

theorem handles_iff_along {cmd : Command} (hnone : c.recording = none)
    (hkind : cmd.kind ∉ [.beginClass, .endClass, .declareInstance, .endProgram]) :
    Handles cmd c c' ↔ Along (Emitter.Performs cmd.kind) c c' := by
  have hsome : ¬c.recording.isSome = true := by simp [hnone]
  rw [Handles, if_neg hsome]
  split <;> simp_all

theorem ensures_dispatch {cmd : Command} (hnone : c.recording = none) (hc : c.WellRecorded) :
    Ensures (dispatch cmd) c fun _ c' => Handles cmd c c' ∧ c'.WellRecorded := by
  have hsome : ¬c.recording.isSome = true := by simp [hnone]
  by_cases hplain : cmd.kind ∉ [.beginClass, .endClass, .declareInstance, .endProgram]
  · have hdispatch : dispatch cmd = locate cmd.line (construct cmd) := by
      unfold dispatch
      split <;> simp_all
    have hkinds := hplain
    simp only [List.mem_cons, List.not_mem_nil, or_false, not_or] at hkinds
    obtain ⟨hbegin, hend, -, hprogram⟩ := hkinds
    rw [hdispatch]
    refine ensures_locate.mpr ((along_construct hbegin hend hprogram c).mono fun _ c' h => ?_)
    exact ⟨(handles_iff_along hnone hplain).mpr h, h.wellRecorded hnone hc⟩
  · unfold dispatch construct Handles
    simp only [if_neg hsome]
    simp only [List.mem_cons, List.not_mem_nil, or_false, Decidable.not_not] at hplain
    rcases hplain with hkind | hkind | hkind | hkind <;> rw [hkind]
    · refine ensures_locate.mpr ((ensures_beginClass cmd.name hnone hc).mono ?_)
      rintro _ c' ⟨hidle, hopened, hc'⟩
      exact ⟨⟨hidle, hopened⟩, hc'⟩
    · refine ensures_locate.mpr ((ensures_endClass hc).mono ?_)
      rintro _ c' ⟨_, hrecording, _, _⟩
      exact absurd hrecording hsome
    · refine (ensures_declareInstance _ _ _ hc).mono ?_
      rintro _ c' ⟨kinds, hkinds, h⟩
      exact ⟨⟨kinds, hkinds, h⟩, h.wellRecorded hnone hc⟩
    · refine ensures_locate.mpr ((ensures_endProgram c).mono ?_)
      rintro _ _ ⟨lines, e, hfinish, rfl⟩
      exact ⟨⟨lines, hfinish, rfl⟩, hc⟩

theorem ensures_handle (cmd : Command) (hc : c.WellRecorded) : Ensures (handle cmd) c fun _ c' =>
    c.program = none ∧ Handles cmd c c' ∧ c'.WellRecorded := by
  refine ensures_bind.mpr (ensures_get.mpr (ensures_ite.mpr ⟨fun _ => by simp, fun hended => ?_⟩))
  have hprogram : c.program = none := by
    simpa [ended] using hended
  cases hrecording : c.recording with
  | none => exact (ensures_dispatch hrecording hc).mono fun _ _ h => ⟨hprogram, h⟩
  | some id =>
    have hsome : c.recording.isSome = true := by simp [hrecording]
    refine ensures_ite.mpr ⟨fun hkind => ?_, fun hkind => ?_⟩
    · refine (ensures_dispatch_endClass hkind hc).mono fun _ c' ⟨hidle, _, hclosed, hc'⟩ => ?_
      refine ⟨hprogram, ?_, hc'⟩
      rw [Handles, if_pos hsome, if_pos hkind]
      exact ⟨hidle, hclosed⟩
    · refine ensures_locate.mpr ((ensures_record hrecording hkind hc).mono ?_)
      rintro _ c' ⟨hidle, hkept, hc'⟩
      refine ⟨hprogram, ?_, hc'⟩
      rw [Handles, if_pos hsome, if_neg hkind]
      exact ⟨hidle, hkept⟩

/-- A notification runs steps of the emitter, or it ends the program. -/
theorem Handles.run_or_finish {cmd : Command} (h : Handles cmd c c') :
    (c'.program = c.program ∧ ∃ kinds, Emitter.Run kinds c.emitter c'.emitter) ∨
      ∃ lines, c'.program = some lines ∧ Emitter.finish c.emitter = .ok lines c'.emitter := by
  have hidle (h : Idle c c') :
      c'.program = c.program ∧ ∃ kinds, Emitter.Run kinds c.emitter c'.emitter := by
    rw [h.1]
    exact ⟨h.2, [], .nil⟩
  unfold Handles at h
  split at h
  · exact .inl (hidle h.1)
  · split at h
    · exact .inl (hidle h.1)
    · exact h.elim
    · obtain ⟨kinds, -, h⟩ := h
      exact .inl ⟨h.program, kinds, h.emitter⟩
    · obtain ⟨lines, hfinish, hlines⟩ := h
      exact .inr ⟨lines, hlines, hfinish⟩
    · next hend => exact .inl ⟨h.program, [cmd.kind], .cons hend h.emitter .nil⟩

theorem ensures_handleAll_cons {position : Nat} {cmd : Command} {rest : List Command}
    {Q : Unit → Compilation → Prop} : Ensures (handleAll position (cmd :: rest)) c Q ↔
      Ensures (handle cmd) c fun _ c' => Ensures (handleAll (position + 1) rest) c' Q := by
  unfold Ensures
  rw [handleAll]
  dsimp only
  cases handle cmd c <;> simp

/-- Nothing is handled behind the end of the program. -/
theorem ensures_handleAll_ended (position : Nat) (commands : List Command)
    (hended : c.ended = true) : Ensures (handleAll position commands) c fun _ c' => c' = c := by
  cases commands with
  | nil => exact ensures_pure.mpr rfl
  | cons cmd rest =>
    refine ensures_handleAll_cons.mpr (ensures_bind.mpr (ensures_get.mpr (ensures_ite.mpr ?_)))
    exact ⟨fun _ => by simp, fun h => absurd hended h⟩

/-- A stream runs steps of the emitter up to the end of the program, if it gets there. -/
theorem ensures_handleAll (position : Nat) (commands : List Command) (hc : c.WellRecorded)
    (hprogram : c.program = none) : Ensures (handleAll position commands) c fun _ c' =>
      ∃ kinds e, Emitter.Run kinds c.emitter e ∧
        (c'.program = none ∧ c'.emitter = e ∨
          ∃ lines, c'.program = some lines ∧ Emitter.finish e = .ok lines c'.emitter) := by
  induction commands generalizing position c with
  | nil => exact ensures_pure.mpr ⟨[], c.emitter, .nil, .inl ⟨hprogram, rfl⟩⟩
  | cons cmd rest ih =>
    refine ensures_handleAll_cons.mpr ((ensures_handle cmd hc).mono ?_)
    rintro _ c₁ ⟨-, h₁, hc₁⟩
    rcases h₁.run_or_finish with ⟨hkept, kinds₁, hrun₁⟩ | ⟨lines, hlines, hfinish⟩
    · refine (ih (position + 1) hc₁ (hkept.trans hprogram)).mono ?_
      rintro _ c₂ ⟨kinds₂, e, hrun₂, hend⟩
      exact ⟨kinds₁ ++ kinds₂, e, hrun₁.append hrun₂, hend⟩
    · have hended : c₁.ended = true := by simp [ended, hlines]
      refine (ensures_handleAll_ended _ _ hended).mono ?_
      rintro _ _ rfl
      exact ⟨[], c.emitter, .nil, .inr ⟨lines, hlines, hfinish⟩⟩

end Compilation

theorem compile_eq_ok {file : String} {commands : List Command} {symbols : RuntimeSymbols}
    {lines : List Line} : compile file commands symbols = .ok lines ↔
      ∃ c, Compilation.handleAll 1 commands (Compilation.start file symbols) = .ok () c ∧
        c.program = some lines := by
  unfold compile
  cases hrun : Compilation.handleAll 1 commands (Compilation.start file symbols) with
  | ok a c => cases hprogram : c.program <;> simp [hprogram]
  | error failure c =>
    obtain ⟨position, cmd, ⟨cause, line⟩⟩ := failure
    cases cause <;> simp

/-- A program that is compiled comes from a run of the emitter. -/
theorem exists_run_of_handleAll {file : String} {commands : List Command}
    {symbols : RuntimeSymbols} {lines : List Line} {c : Compilation}
    (h : Compilation.handleAll 1 commands (Compilation.start file symbols) = .ok () c)
    (hlines : c.program = some lines) :
    ∃ kinds e, Emitter.Run kinds (Emitter.start symbols) e ∧
      Emitter.finish e = .ok lines c.emitter := by
  obtain ⟨kinds, e, hrun, hend⟩ := Compilation.ensures_handleAll 1 commands
    (Compilation.wellRecorded_start file symbols) rfl () c h
  rcases hend with ⟨hnone, -⟩ | ⟨lines', hlines', hfinish⟩
  · rw [hlines] at hnone
    cases hnone
  · obtain rfl : lines = lines' := Option.some.inj (hlines.symm.trans hlines')
    exact ⟨kinds, e, hrun, hfinish⟩

end MkCompiler
