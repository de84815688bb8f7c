import MkCompiler.Proofs.LinkedRuns

/-!
# Recording of classes

A compilation can be given any notifications, and goes on whether they are refused or not. All that
ever gets into a class is checked, so that at every time each class transcribes a body, and a class
that is closed never changes again. Main result: recorded notifications declare no instances, so that
running the body of a class for an instance does not run the body of another one.
-/

namespace MkCompiler.Compilation

open MkCompiler.Action

variable {α : Type} {c c' : Compilation} {cmd : Command}

/-! ## Instances -/

theorem leads_locate {R : Compilation → Compilation → Prop} {x : Action Compilation α}
    (hx : Leads R x) (line : Int) : Leads R (locate line x) :=
  fun c => ends_locate.mpr (hx c)

theorem leads_replay {body : List Command}
    (h : ∀ cmd ∈ body, cmd.kind ≠ .beginClass ∧ cmd.kind ≠ .endClass) :
    Leads SameRecording (replay body) := by
  induction body with
  | nil => exact .pure _
  | cons cmd rest ih =>
    obtain ⟨hbegin, hend⟩ := h cmd (by simp)
    apply (leads_locate (unrecorded_construct hbegin hend) cmd.line).bind
    intro _
    exact ih fun cmd' hcmd' => h cmd' (List.mem_cons_of_mem _ hcmd')

theorem ends_declareInstance_sameRecording (hc : c.WellRecorded) (line : Int)
    (name className : String) :
    Ends (declareInstance line name className) c (fun _ c' => SameRecording c c')
      fun _ c' => SameRecording c c' := by
  rw [declareInstance, ends_bind, ends_locate]
  apply (hc.ends_openInstance name className).mono
  · rintro _ _ ⟨k, hk, rfl, rfl⟩
    have hreplay : Leads SameRecording (replay k.commands) := by
      apply leads_replay
      intro cmd hcmd
      have hkind := hc.kind_of_mem (hc.getElem?_of_class? hk.class_eq) hcmd
      simp only [List.mem_cons, List.not_mem_nil, or_false, not_or] at hkind
      exact ⟨hkind.1, hkind.2.1⟩
    rw [ends_leavingInstance]
    apply (hreplay _).mono
    · intro _ c₂ h₂
      exact { h₂ with }
    · intro _ c₂ h₂
      exact { h₂ with }
  · rintro _ _ ⟨rfl, -⟩
    exact refl_of SameRecording _

/-! ## Handling -/

/-- Handling a notification keeps closed classes, whether it fails or not. -/
theorem leads_handle (cmd : Command) : Leads Evolves (handle cmd) := by
  intro c
  by_cases hc : c.WellRecorded
  swap
  · -- Nothing is claimed of a compilation that is not in order.
    rw [Ends]
    cases handle cmd c <;> exact fun h => absurd h hc
  have hsame : c.Evolves c := refl_of Evolves c
  rw [handle, ends_bind, ends_get, ends_ite]
  refine ⟨fun _ => ends_throw.mpr hsame, fun _ => ?_⟩
  have hendClass (hkind : cmd.kind = .endClass) :
      Ends (dispatch cmd) c (fun _ c' => c.Evolves c') fun _ c' => c.Evolves c' := by
    rw [dispatch, hkind]
    dsimp only
    rw [construct, hkind, ends_locate]
    exact ends_endClass_evolves hc
  cases hid : c.recording with
  | some id =>
    dsimp only
    rw [ends_ite]
    refine ⟨hendClass, fun hkind => ?_⟩
    rw [ends_locate]
    exact ends_record_evolves hid hkind hc
  | none =>
    by_cases hend : cmd.kind = .endClass
    · exact hendClass hend
    by_cases hinstance : cmd.kind = .declareInstance
    · rw [dispatch, hinstance]
      apply (ends_declareInstance_sameRecording hc _ _ _).mono
      · intro _ c' h
        exact h.evolves
      · intro _ c' h
        exact h.evolves
    · dsimp only
      rw [dispatch_eq_construct hinstance, ends_locate]
      by_cases hbegin : cmd.kind = .beginClass
      · rw [construct, hbegin]
        exact ends_beginClass_evolves hid cmd.name
      · exact (unrecorded_construct hbegin hend).mono (fun _ _ => SameRecording.evolves) c

/-- The state behind some notifications. Each of them is handled in the state in which the one
before has ended, whether that one failed or not. -/
def behind : List Command → Compilation → Compilation
  | [], c => c
  | cmd :: rest, c =>
    match handle cmd c with
    | .ok _ c' => behind rest c'
    | .error _ c' => behind rest c'

theorem evolves_behind (commands : List Command) (c : Compilation) :
    c.Evolves (behind commands c) := by
  induction commands generalizing c with
  | nil => exact refl_of Evolves c
  | cons cmd rest ih =>
    have hstep := leads_handle cmd c
    rw [behind]
    rw [Ends] at hstep
    cases hhandle : handle cmd c with
    | ok _ c' =>
      rw [hhandle] at hstep
      exact trans_of Evolves hstep (ih c')
    | error _ c' =>
      rw [hhandle] at hstep
      exact trans_of Evolves hstep (ih c')

theorem ensures_construct_returned {cmd : Command} (hlevel : cmd.kind.isBodyLevel = true)
    (c : Compilation) : Ensures (construct cmd) c fun _ c' =>
      c'.returned = (c.returned || decide (cmd.kind = .ret)) := by
  by_cases hret : cmd.kind = .ret
  · rw [construct, hret]
    dsimp only
    rw [ret, ensures_bind]
    intro _ c₁ _
    rw [ensures_bind]
    intro _ c₂ _
    rw [ensures_modify]
    simp
  · intro _ c' hok
    have hcontained : Contained (construct cmd) := by
      apply contained_construct
      simp only [List.mem_cons, List.not_mem_nil, or_false, not_or]
      refine ⟨?_, ?_, hret, ?_, ?_, ?_⟩ <;> rintro heq <;>
        simp [heq, CommandKind.isBodyLevel] at hlevel
    rw [((hcontained c).of_ok hok).returned]
    simp [hret]

/-! ## Compilations without failure -/

/-- What holds of a compilation that has not failed so far. -/
structure Orderly (c : Compilation) : Prop where
  sound : c.Sound (fun _ => True) none True
  lays : c.program = none → ∃ l, c.emitter.Lays l

theorem Orderly.recorded (h : c.Orderly) : c.WellRecorded :=
  h.sound.records

theorem orderly_start (file : String) (symbols : RuntimeSymbols) : (start file symbols).Orderly where
  sound := sound_start file symbols
  lays := fun _ => ⟨_, Emitter.lays_start symbols⟩

theorem Orderly.of_handle (h : c.Orderly) (hcmd : handle cmd c = .ok () c') : c'.Orderly where
  sound := (ends_handle h.sound trivial).of_ok hcmd
  lays := by
    intro hprogram'
    obtain ⟨hprogram, hhandles, -⟩ := handles_of_handle hcmd h.sound.records
    rcases hhandles.run_or_finish with ⟨-, kinds, hrun⟩ | ⟨lines, hlines, -⟩
    · apply hrun.invariant (P := fun e => ∃ l, e.Lays l) ?_ (h.lays hprogram)
      rintro e e' hs ⟨l, hl⟩
      exact (hs.lays hl).imp fun _ h => h.1
    · rw [hprogram'] at hlines
      cases hlines

theorem Orderly.of_handled {commands : List Command} (h : c.Orderly)
    (hcommands : handled? commands c = some c') : c'.Orderly := by
  induction commands generalizing c with
  | nil =>
    cases hcommands
    exact h
  | cons cmd rest ih =>
    obtain ⟨c₁, hcmd, hrest⟩ := handled?_cons.mp hcommands
    exact ih (h.of_handle hcmd) hrest

/-! ## Nesting -/

/-- Compiles a notification as `dispatch` does, but runs the body of a class by compiling its
notifications in the same way again. No more than `depth` notifications are nested in each
other. -/
def dispatchNested : Nat → Command → EStateM Stop Compilation Unit
  | 0, cmd => throw ⟨.fault .nestedInstance, cmd.line⟩
  | depth + 1, cmd =>
    match cmd.kind with
    | .declareInstance => do
      let body ← locate cmd.line (openInstance cmd.name cmd.target)
      leavingInstance (forM body (dispatchNested depth))
    | _ => locate cmd.line (construct cmd)

theorem dispatchNested_eq_construct (depth : Nat) (hkind : cmd.kind ≠ .declareInstance) :
    dispatchNested (depth + 1) cmd = locate cmd.line (construct cmd) := by
  rw [dispatchNested]
  split
  · next h => exact absurd h hkind
  · rfl

theorem forM_dispatchNested (depth : Nat) {body : List Command}
    (h : ∀ cmd ∈ body, cmd.kind ≠ .declareInstance) :
    forM body (dispatchNested (depth + 1)) = replay body := by
  induction body with
  | nil => rfl
  | cons cmd rest ih =>
    rw [List.forM_cons, replay, dispatchNested_eq_construct depth (h cmd (by simp)),
      ih fun cmd' hcmd' => h cmd' (List.mem_cons_of_mem _ hcmd')]

/-- Instances are declared one at a time. -/
theorem WellRecorded.dispatchNested_eq (hc : c.WellRecorded) (depth : Nat) (cmd : Command) :
    dispatchNested (depth + 2) cmd c = dispatch cmd c := by
  by_cases hkind : cmd.kind = .declareInstance
  · rw [dispatchNested, dispatch, hkind]
    dsimp only
    rw [declareInstance]
    change EStateM.bind _ _ c = EStateM.bind _ _ c
    unfold EStateM.bind
    cases hopen : locate cmd.line (openInstance cmd.name cmd.target) c with
    | error stop c₁ => rfl
    | ok body c₁ =>
      obtain ⟨k, hk, rfl, -⟩ := (hc.ends_openInstance _ _).of_ok (locate_eq_ok.mp hopen)
      dsimp only
      rw [forM_dispatchNested depth]
      intro cmd' hcmd' hinstance
      exact hc.kind_of_mem (hc.getElem?_of_class? hk.class_eq) hcmd' (by simp [hinstance])
  · rw [dispatchNested_eq_construct _ hkind, dispatch_eq_construct hkind]

/-! ## All reachable states -/

/-- Whatever a compilation is given, and whether it is refused or not, every class transcribes a
body, which has an open method at its end exactly while one is being recorded. A closed class stays
as it is forever. No notification is ever nested in more than one other. -/
theorem classes_transcribe_bodies (file : String) (symbols : RuntimeSymbols)
    (commands : List Command) :
    let c := behind commands (start file symbols)
    (∀ (id : Nat) (k : ClassInfo), c.table.classes[id]? = some k →
      (∀ cmd ∈ k.commands,
        cmd.kind ∉ [.beginClass, .endClass, .declareInstance, .endProgram]) ∧
      (∃ b : ClassBody, k.Transcribes b ∧
        (b.unfinished.isSome = true ↔ k.frozen = false ∧ c.method.isSome = true)) ∧
      (k.frozen = false ↔ c.recording = some id) ∧
      (k.frozen = true → ∀ more, (behind more c).table.classes[id]? = some k)) ∧
    ∀ depth cmd, dispatchNested (depth + 2) cmd c = dispatch cmd c := by
  intro c
  have hc : c.WellRecorded := (evolves_behind commands _ (wellRecorded_start file symbols)).1
  constructor
  · intro id k hk
    refine ⟨fun cmd hcmd => hc.kind_of_mem hk hcmd, ?_, hc.frozen id k hk, ?_⟩
    · cases hfrozen : k.frozen with
      | true =>
        obtain ⟨members, hb⟩ := hc.closed id k hk hfrozen
        exact ⟨_, hb, by simp⟩
      | false =>
        obtain ⟨k', b, hk', hb, ht⟩ := hc.opened id ((hc.frozen id k hk).mp hfrozen)
        obtain rfl : k = k' := Option.some.inj (hk.symm.trans hk')
        exact ⟨b, hb, by simp [ht.isSome]⟩
    · intro hfrozen more
      exact (evolves_behind more c hc).2 id k hk hfrozen
  · exact hc.dispatchNested_eq

/-- A class with a field and a method, into which a second field of that name and the end of the
class come too early, an instance of it, and a class whose method stays open. -/
def refusedInClassStream : List Command :=
  [{ kind := .beginClass, name := "P" },
    { kind := .declareVariable, name := "n" }, { kind := .declareVariable, name := "n" },
    { kind := .declareFunction, name := "one", type := .int }, { kind := .endClass },
    { kind := .int, text := "1" }, { kind := .ret }, { kind := .endFunction },
    { kind := .endClass },
    { kind := .declareInstance, name := "p", target := "P" },
    { kind := .beginClass, name := "Q" },
    { kind := .declareFunction, name := "two", type := .int }]

theorem classes_transcribe_bodies_sample :
    (behind refusedInClassStream (start "sample.mk" .standard)).table.classes.map
        (fun k => (k.name, k.frozen, k.commands.length)) = [("P", true, 5), ("Q", false, 1)] ∧
      ∃ k b, (behind refusedInClassStream (start "sample.mk" .standard)).table.classes[1]? =
          some k ∧ k.Transcribes b ∧ b.unfinished.isSome = true := by
  have hclasses : (behind refusedInClassStream (start "sample.mk" .standard)).table.classes.map
      (fun k => (k.name, k.frozen, k.commands.length)) = [("P", true, 5), ("Q", false, 1)] := by
    decide +kernel
  have hmethod : (behind refusedInClassStream (start "sample.mk" .standard)).method.isSome =
      true := by
    decide +kernel
  have hopen : (behind refusedInClassStream (start "sample.mk" .standard)).table.classes[1]?.map
      ClassInfo.frozen = some false := by
    decide +kernel
  obtain ⟨k, hk, hfrozen⟩ := Option.map_eq_some_iff.mp hopen
  obtain ⟨-, ⟨b, hb, hiff⟩, -⟩ :=
    (classes_transcribe_bodies "sample.mk" .standard refusedInClassStream).1 1 k hk
  exact ⟨hclasses, k, b, hk, hb, hiff.mpr ⟨hfrozen, hmethod⟩⟩

end MkCompiler.Compilation
