import MkCompiler.Proofs.Compiled

/-!
# Points of a compilation

While a stream is handled, the compilation goes through states in which some notifications are still
to come: those of the stream, or those of a class body that is run for an instance. At each of these
points the compilation is in order, what is to come is handled, and the program is completed.
-/

namespace MkCompiler.Compilation

open MkCompiler.Action

variable {c c' c'' : Compilation} {cmd : Command} {commands rest : List Command}

/-- The state behind some notifications, if none of them fails. -/
def handled? : List Command → Compilation → Option Compilation
  | [], c => some c
  | cmd :: rest, c =>
    match handle cmd c with
    | .ok _ c' => handled? rest c'
    | .error _ _ => none

theorem handled?_cons : handled? (cmd :: rest) c = some c'' ↔
    ∃ c', handle cmd c = .ok () c' ∧ handled? rest c' = some c'' := by
  rw [handled?]
  cases handle cmd c <;> simp

theorem handled?_single : handled? [cmd] c = some c' ↔ handle cmd c = .ok () c' := by
  rw [handled?_cons]
  simp [handled?]

theorem handled?_append {a b : List Command} : handled? (a ++ b) c = some c'' ↔
    ∃ c', handled? a c = some c' ∧ handled? b c' = some c'' := by
  induction a generalizing c with
  | nil => simp [handled?]
  | cons cmd a ih =>
    rw [List.cons_append, handled?, handled?]
    cases handle cmd c with
    | ok _ c' => exact ih
    | error _ _ => simp

theorem handleAll_eq_ok {position : Nat} :
    handleAll position commands c = .ok () c' ↔ handled? commands c = some c' := by
  induction commands generalizing position c with
  | nil =>
    change EStateM.Result.ok () c = EStateM.Result.ok () c' ↔ some c = some c'
    simp
  | cons cmd rest ih =>
    rw [handleAll, handled?]
    dsimp only
    cases handle cmd c with
    | ok _ c₁ => exact ih
    | error _ _ => simp

theorem handleAll_append {front : List Command} (h : handled? front c = some c') (position : Nat)
    (rest : List Command) :
    handleAll position (front ++ rest) c = handleAll (position + front.length) rest c' := by
  induction front generalizing position c with
  | nil =>
    cases h
    rfl
  | cons cmd front ih =>
    obtain ⟨c₁, hcmd, hfront⟩ := handled?_cons.mp h
    rw [List.cons_append, handleAll, List.length_cons, Nat.add_comm front.length, ← Nat.add_assoc]
    dsimp only
    rw [hcmd]
    exact ih hfront (position + 1)

/-- A run that stops at the first failure has handled all notifications before. -/
theorem exists_of_handleAll_error {position p : Nat} {stop : Stop}
    (h : handleAll position commands c = .error (p, cmd, stop) c') :
    ∃ front rest c₀, commands = front ++ cmd :: rest ∧ handled? front c = some c₀ ∧
      handle cmd c₀ = .error stop c' := by
  induction commands generalizing position c with
  | nil => cases h
  | cons first rest ih =>
    rw [handleAll] at h
    dsimp only at h
    cases hfirst : handle first c with
    | ok _ c₁ =>
      rw [hfirst] at h
      obtain ⟨front, rest', c₀, rfl, hfront, hcmd⟩ := ih h
      exact ⟨first :: front, rest', c₀, rfl, handled?_cons.mpr ⟨c₁, hfirst, hfront⟩, hcmd⟩
    | error stop' c₁ =>
      rw [hfirst] at h
      cases h
      exact ⟨[], rest, c, rfl, rfl, hfirst⟩

/-- A notification that is handled is compiled or recorded in a compilation that is in order. -/
theorem handles_of_handle (h : handle cmd c = .ok () c') (hc : c.WellRecorded) :
    c.program = none ∧ Handles cmd c c' ∧ c'.WellRecorded :=
  ensures_handle cmd hc () c' h

/-- The program is complete, or steps of the emitter lead to its end. -/
def CompletesTo (c : Compilation) (lines : List Line) : Prop :=
  c.program = some lines ∨ c.program = none ∧
    ∃ kinds e e', Emitter.Run kinds c.emitter e ∧ Emitter.finish e = .ok lines e'

theorem CompletesTo.of_handled {lines : List Line} (h : c'.CompletesTo lines) (hc : c.WellRecorded)
    (hhandled : handled? commands c = some c') : c.CompletesTo lines := by
  have hall : handleAll 1 commands c = .ok () c' := handleAll_eq_ok.mpr hhandled
  cases hprogram : c.program with
  | some program =>
    have hended : c.ended = true := by simp [ended, hprogram]
    obtain rfl : c' = c := ensures_handleAll_ended 1 commands hended () c' hall
    exact h
  | none =>
    obtain ⟨kinds, e, hrun, hend⟩ := ensures_handleAll 1 commands hc hprogram () c' hall
    refine .inr ⟨hprogram, ?_⟩
    rcases h with hlines | ⟨hnone, kinds', e', e'', hrun', hfinish⟩
    · rcases hend with ⟨hnone, -⟩ | ⟨lines', hlines', hfinish⟩
      · rw [hnone] at hlines
        cases hlines
      · obtain rfl : lines = lines' := Option.some.inj (hlines.symm.trans hlines')
        exact ⟨_, _, _, hrun, hfinish⟩
    · rcases hend with ⟨-, he⟩ | ⟨lines', hlines', -⟩
      · rw [he] at hrun'
        exact ⟨_, _, _, hrun.append hrun', hfinish⟩
      · rw [hnone] at hlines'
        cases hlines'

/-- What has been written stays there up to the end of the program. -/
theorem CompletesTo.continues {lines : List Line} (h : c.CompletesTo lines)
    (hprogram : c.program = none) {l : Layout} (hl : c.emitter.Lays l) :
    ∃ (l' : Layout) (preamble : List Line), l.Continues l' ∧ l'.suspended = none ∧
      lines = preamble ++ l'.header ++ l'.finished.flatMap fun d => d.toDefinition.lines := by
  rcases h with hlines | ⟨-, kinds, e, e', hrun, hfinish⟩
  · rw [hprogram] at hlines
    cases hlines
  · obtain ⟨l', hl', hcontinues⟩ := hrun.continues hl
    obtain ⟨-, -, -, hlast⟩ := Emitter.ensures_finish e _ _ hfinish
    obtain ⟨hsuspended, -, hlines⟩ := hlast l' hl'
    exact ⟨l', e.symbols.prologue, hcontinues, hsuspended, hlines⟩

/-! ## Class bodies -/

theorem locate_eq_ok {α : Type} {line : Int} {x : Action Compilation α} {a : α} :
    locate line x c = .ok a c' ↔ x c = .ok a c' := by
  rw [locate]
  cases x c <;> simp

theorem handle_eq_construct (hprogram : c.program = none) (hrecording : c.recording = none)
    (hkind : cmd.kind ≠ .declareInstance) : handle cmd c = locate cmd.line (construct cmd) c := by
  have hdispatch : dispatch cmd = locate cmd.line (construct cmd) := by
    unfold dispatch
    split <;> simp_all
  rw [← hdispatch]
  change (if c.ended = true then _ else _ : EStateM Stop Compilation Unit) c = _
  rw [if_neg (by simp [ended, hprogram]), hrecording]

theorem handle_eq_record {id : Nat} (hprogram : c.program = none)
    (hrecording : c.recording = some id) (hkind : cmd.kind ≠ .endClass) :
    handle cmd c = locate cmd.line (record id cmd) c := by
  change (if c.ended = true then _ else _ : EStateM Stop Compilation Unit) c = _
  rw [if_neg (by simp [ended, hprogram]), hrecording]
  dsimp only
  rw [if_neg hkind]

theorem handle_eq_endClass (hprogram : c.program = none) (hkind : cmd.kind = .endClass) :
    handle cmd c = locate cmd.line endClass c := by
  change (if c.ended = true then _ else _ : EStateM Stop Compilation Unit) c = _
  rw [if_neg (by simp [ended, hprogram])]
  cases c.recording <;> simp [hkind, dispatch, construct]

theorem handle_eq_declareInstance (hprogram : c.program = none) (hrecording : c.recording = none)
    (hkind : cmd.kind = .declareInstance) :
    handle cmd c = declareInstance cmd.line cmd.name cmd.target c := by
  change (if c.ended = true then _ else _ : EStateM Stop Compilation Unit) c = _
  rw [if_neg (by simp [ended, hprogram]), hrecording]
  dsimp only
  rw [dispatch, hkind]

theorem handled?_of_replay {r r' : Region}
    (hplace : r.after? (commands.map Command.kind) = some r') (hprogram : c.program = none)
    (hrecording : c.recording = none) (h : replay commands c = .ok () c') :
    handled? commands c = some c' := by
  induction commands generalizing r c with
  | nil =>
    cases h
    rfl
  | cons cmd rest ih =>
    obtain ⟨_, c₁, hcmd, hrest⟩ := bind_eq_ok.mp h
    have hone : replay [cmd] c = .ok () c₁ := bind_eq_ok.mpr ⟨_, c₁, hcmd, rfl⟩
    obtain ⟨hkinds, r₁, hr₁, hplace⟩ := Region.after?_cons_eq_some hplace
    have hkind : cmd.kind ≠ .declareInstance := by
      intro hkind
      exact hkinds (by simp [hkind])
    have hplace₁ : r.after? ([cmd].map Command.kind) = some r₁ := by simp [hr₁]
    have halong := ensures_replay hplace₁ c () c₁ hone
    refine handled?_cons.mpr ⟨c₁, ?_, ?_⟩
    · rw [handle_eq_construct hprogram hrecording hkind]
      exact hcmd
    · exact ih hplace (halong.program.trans hprogram) (halong.recording.trans hrecording) hrest

/-- An instance is declared by opening it and handling the body of its class. -/
theorem handle_declareInstance (hkind : cmd.kind = .declareInstance)
    (hrecording : c.recording = none) (hc : c.WellRecorded) (h : handle cmd c = .ok () c') :
    Ensures (openInstance cmd.name cmd.target) c fun body c₁ =>
      Along Eq c c₁ ∧ ∃ c₂, handled? body c₁ = some c₂ ∧
        c' = { c₂ with table := c₂.table.setInstance none } := by
  intro body c₁ hopen
  obtain ⟨hprogram, -, -⟩ := handles_of_handle h hc
  obtain ⟨halong, hplace⟩ := ensures_openInstance _ _ hc body c₁ hopen
  rw [handle_eq_declareInstance hprogram hrecording hkind] at h
  obtain ⟨body', c₁', hlocate, hbody⟩ := bind_eq_ok.mp h
  rw [locate, hopen] at hlocate
  obtain ⟨rfl, rfl⟩ := EStateM.Result.ok.inj hlocate
  refine ⟨halong, ?_⟩
  rw [leavingInstance] at hbody
  cases hreplay : replay body c₁ with
  | error _ _ =>
    rw [hreplay] at hbody
    cases hbody
  | ok _ c₂ =>
    rw [hreplay] at hbody
    refine ⟨c₂, ?_, (EStateM.Result.ok.inj hbody).2.symm⟩
    exact handled?_of_replay hplace (halong.program.trans hprogram)
      (halong.recording.trans hrecording) hreplay

/-! ## Points -/

/-- The points a compilation goes through, each with the notifications that come next in the stream
or in the class body that is being run. -/
inductive Reaches (file : String) (symbols : RuntimeSymbols) (stream : List Command) :
    Compilation → List Command → Prop
  | start : Reaches file symbols stream (Compilation.start file symbols) stream
  | next {c c' : Compilation} {cmd : Command} {rest : List Command} :
      Reaches file symbols stream c (cmd :: rest) → handle cmd c = .ok () c' →
      Reaches file symbols stream c' rest
  | replay {c c' : Compilation} {cmd : Command} {rest body : List Command} :
      Reaches file symbols stream c (cmd :: rest) → cmd.kind = .declareInstance →
      c.recording = none → openInstance cmd.name cmd.target c = .ok body c' →
      Reaches file symbols stream c' body

theorem Reaches.handled {file : String} {symbols : RuntimeSymbols} {stream a b : List Command}
    (h : Reaches file symbols stream c (a ++ b)) (ha : handled? a c = some c') :
    Reaches file symbols stream c' b := by
  induction a generalizing c with
  | nil =>
    cases ha
    exact h
  | cons cmd a ih =>
    obtain ⟨c₁, hcmd, ha⟩ := handled?_cons.mp ha
    exact ih (h.next hcmd) ha

/-- What holds at every point of a compilation that succeeds. -/
structure Proceeds (c : Compilation) (coming : List Command) (lines : List Line) : Prop where
  records : c.WellRecorded
  lays : c.program = none → ∃ l, c.emitter.Lays l
  handled : ∃ c', handled? coming c = some c' ∧ c'.CompletesTo lines

theorem Proceeds.next {lines : List Line} (h : c.Proceeds (cmd :: rest) lines) :
    c.program = none ∧ ∃ c', handle cmd c = .ok () c' ∧ c'.Proceeds rest lines := by
  obtain ⟨c'', hhandled, hcompletes⟩ := h.handled
  obtain ⟨c', hcmd, hrest⟩ := handled?_cons.mp hhandled
  obtain ⟨hprogram, hhandles, hc'⟩ := handles_of_handle hcmd h.records
  refine ⟨hprogram, c', hcmd, hc', fun hnone => ?_, c'', hrest, hcompletes⟩
  rcases hhandles.run_or_finish with ⟨-, kinds, hrun⟩ | ⟨lines', hlines', -⟩
  · refine hrun.invariant (P := fun e => ∃ l, e.Lays l) ?_ (h.lays hprogram)
    rintro e e' hs ⟨l, hl⟩
    exact (hs.lays hl).imp fun _ h => h.1
  · rw [hnone] at hlines'
    cases hlines'

theorem Proceeds.append {lines : List Line} {a b : List Command}
    (h : c.Proceeds (a ++ b) lines) :
    ∃ c', handled? a c = some c' ∧ c'.Proceeds b lines := by
  induction a generalizing c with
  | nil => exact ⟨c, rfl, h⟩
  | cons cmd a ih =>
    obtain ⟨-, c₁, hcmd, h₁⟩ := h.next
    obtain ⟨c', ha, hb⟩ := ih h₁
    exact ⟨c', handled?_cons.mpr ⟨c₁, hcmd, ha⟩, hb⟩

theorem Proceeds.completesTo {lines : List Line} (h : c.Proceeds commands lines) :
    c.CompletesTo lines := by
  obtain ⟨c', hhandled, hcompletes⟩ := h.handled
  exact hcompletes.of_handled h.records hhandled

theorem Reaches.proceeds {file : String} {symbols : RuntimeSymbols} {stream coming : List Command}
    {lines : List Line} (hcompile : compile file stream symbols = .ok lines)
    (h : Reaches file symbols stream c coming) : c.Proceeds coming lines := by
  induction h with
  | start =>
    obtain ⟨c', hall, hlines⟩ := compile_eq_ok.mp hcompile
    exact ⟨wellRecorded_start file symbols, fun _ => ⟨_, Emitter.lays_start symbols⟩, c',
      handleAll_eq_ok.mp hall, .inl hlines⟩
  | next _ hcmd ih =>
    obtain ⟨-, c₁, hcmd', hnext⟩ := ih.next
    obtain ⟨-, rfl⟩ := EStateM.Result.ok.inj (hcmd.symm.trans hcmd')
    exact hnext
  | replay _ hkind hrecording hopen ih =>
    obtain ⟨hprogram, c₁, hcmd, hnext⟩ := ih.next
    obtain ⟨halong, c₂, hbody, rfl⟩ :=
      handle_declareInstance hkind hrecording ih.records hcmd _ _ hopen
    have hcompletes := hnext.completesTo
    refine ⟨halong.wellRecorded hrecording ih.records, fun _ => ?_, c₂, hbody, hcompletes⟩
    rw [← halong.emitter]
    exact ih.lays hprogram

end MkCompiler.Compilation
