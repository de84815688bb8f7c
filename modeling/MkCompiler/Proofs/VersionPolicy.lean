import MkCompiler.Proofs.BodyOperations
import MkCompiler.Proofs.VariableEvents

/-!
# Versions of variables

The number of the cell that a variable is in says how often the storage type of the variable has
changed. Main result: at every point of a compilation, a variable has come through the storage types
that the notifications up to this point have given it, in the order of the text and whatever the
scope they stand in. It has one cell for each change, and the values it is given are stored in the
cell of the version that is installed for them.
-/

namespace MkCompiler

open MkCompiler.Action

theorem Emitter.ensures_finish_cells {e : Emitter} {l : Layout} (hl : e.Lays l) :
    Ensures finish e fun _ e' => e'.cells = e.cells := by
  intro lines e' hrun
  obtain ⟨hnone, rfl⟩ := (finish_outcome e).of_ok hrun
  have hheader : (e.output.append [.instr (.ret .i32 (.constant "0")), .close]).header =
      e.output.header := by
    rw [hl.output]
    simp [Layout.assembly, Assembly.append, Assembly.appendTo, Assembly.setContent, Layout.target,
      hl.suspended_eq_none hnone]
  funext x
  simp [cells, frame, write, modifyActive, appendLines, hnone, hheader]

namespace Compilation

variable {file : String} {symbols : RuntimeSymbols} {stream coming commands : List Command}
  {c c' : Compilation} {cmd : Command} {log : List Event}

/-! ## Accounts of a program -/

/-- What happens to variables along some notifications, if each one does its part. -/
def eventsAlong (part : Command → Compilation → List Event) :
    List Command → Compilation → List Event
  | [], _ => []
  | cmd :: rest, c =>
    part cmd c ++
    match handle cmd c with
    | .ok _ c' => eventsAlong part rest c'
    | .error _ _ => []

/-- What happens to variables up to the next notification, in the class body that is run for an
instance as well. -/
def allEvents (cmd : Command) (c : Compilation) : List Event :=
  events cmd c ++
  if cmd.kind = .declareInstance ∧ c.recording = none then
    match openInstance cmd.name cmd.target c with
    | .ok body c' => eventsAlong events body c'
    | .error _ _ => []
  else []

/-- The points that a compilation goes through, each with the notifications that come next and an
account of what has happened to variables before. -/
inductive Recounts (file : String) (symbols : RuntimeSymbols) (stream : List Command) :
    Compilation → List Command → List Event → Prop
  | start : Recounts file symbols stream (Compilation.start file symbols) stream []
  | next {c c' : Compilation} {cmd : Command} {rest : List Command} {log : List Event} :
      Recounts file symbols stream c (cmd :: rest) log → handle cmd c = .ok () c' →
      Recounts file symbols stream c' rest (log ++ allEvents cmd c)
  | replay {c c' : Compilation} {cmd : Command} {rest body : List Command} {log : List Event} :
      Recounts file symbols stream c (cmd :: rest) log → cmd.kind = .declareInstance →
      c.recording = none → openInstance cmd.name cmd.target c = .ok body c' →
      Recounts file symbols stream c' body log

theorem Reaches.exists_recounts (h : Reaches file symbols stream c coming) :
    ∃ log, Recounts file symbols stream c coming log := by
  induction h with
  | start => exact ⟨[], .start⟩
  | next _ hcmd ih =>
    obtain ⟨log, hlog⟩ := ih
    exact ⟨_, hlog.next hcmd⟩
  | replay _ hkind hrecording hopen ih =>
    obtain ⟨log, hlog⟩ := ih
    exact ⟨log, hlog.replay hkind hrecording hopen⟩

theorem Recounts.handled {a b : List Command} (h : Recounts file symbols stream c (a ++ b) log)
    (ha : handled? a c = some c') :
    Recounts file symbols stream c' b (log ++ eventsAlong allEvents a c) := by
  induction a generalizing c log with
  | nil =>
    cases ha
    simpa [eventsAlong] using h
  | cons cmd a ih =>
    obtain ⟨c₁, hcmd, ha⟩ := handled?_cons.mp ha
    rw [eventsAlong, hcmd, ← List.append_assoc]
    exact ih (h.next hcmd) ha

/-! ## Points -/

/-- What holds at every point of a compilation, with an account of what has happened before. -/
structure Surveyed (c : Compilation) (log : List Event) : Prop where
  consistent : c.Consistent
  lays : c.program = none → ∃ l, c.emitter.Lays l
  charted : c.table.Charted c.emitter.cells log

theorem surveyed_start (file : String) (symbols : RuntimeSymbols) :
    (start file symbols).Surveyed [] where
  consistent := consistent_start file symbols
  lays := fun _ => ⟨_, Emitter.lays_start symbols⟩
  charted := by
    refine SymbolTable.charted_start.congr (fun _ _ => rfl) fun x _ => ?_
    cases x <;> rfl

namespace Surveyed

theorem charted_of_retains (h : c.Surveyed log) (hscopes : c.Retains c')
    (hcells : c'.emitter.cells = c.emitter.cells) : c'.table.Charted c'.emitter.cells log :=
  h.charted.congr (fun _ _ => by rw [hscopes.binding?_eq]) fun _ _ => by rw [hcells]

/-- Nothing happens to variables while a class is recorded, opened or closed, and at the end of the
program. -/
theorem charted_quiet (h : c.Surveyed log)
    (hquiet : c.recording.isSome = true ∨ cmd.kind ∈ [.beginClass, .endClass, .endProgram])
    (hcmd : handle cmd c = .ok () c') : c'.table.Charted c'.emitter.cells log := by
  obtain ⟨hprogram, hhandles, -⟩ := handles_of_handle hcmd h.consistent.records
  unfold Handles at hhandles
  cases hrecording : c.recording with
  | some id =>
    rw [if_pos (by simp [hrecording])] at hhandles
    exact h.charted_of_retains
      (retains_of_recording h.consistent.records hprogram hrecording hcmd) (by rw [hhandles.1.1])
  | none =>
    rw [if_neg (by simp [hrecording])] at hhandles
    have hkind := hquiet.resolve_left (by simp [hrecording])
    rw [handle_eq_construct hprogram hrecording (by aesop), locate_eq_ok] at hcmd
    refine h.charted_of_retains (retains_construct (by aesop) c () c' hcmd) ?_
    simp only [List.mem_cons, List.not_mem_nil, or_false] at hkind
    rcases hkind with hkind | hkind | hkind
    · rw [hkind] at hhandles
      rw [hhandles.1.1]
    · rw [hkind] at hhandles
      exact hhandles.elim
    · rw [hkind] at hhandles
      obtain ⟨lines, hfinish, -⟩ := hhandles
      obtain ⟨l, hl⟩ := h.lays hprogram
      exact Emitter.ensures_finish_cells hl lines c'.emitter hfinish

theorem events (h : c.Surveyed log)
    (hsimple : cmd.kind ≠ .declareInstance ∨ c.recording.isSome = true)
    (hcmd : handle cmd c = .ok () c') :
    c'.table.Charted c'.emitter.cells (log ++ events cmd c) ∧
      ∀ x type, .assign x type ∈ Compilation.events cmd c →
        ∃ b, b.type.storage = type ∧ c.Stores c' x b := by
  by_cases hquiet : c.recording.isSome = true ∨ cmd.kind ∈ [.beginClass, .endClass, .endProgram]
  · have hnone : Compilation.events cmd c = [] := by
      rcases hquiet with hsome | hkind
      · rw [Compilation.events, if_pos hsome]
      · exact events_eq_nil (by aesop) c
    rw [hnone, List.append_nil]
    exact ⟨h.charted_quiet hquiet hcmd, by simp⟩
  · obtain ⟨hrecording, hkind⟩ := not_or.mp hquiet
    obtain ⟨hprogram, -, -⟩ := handles_of_handle hcmd h.consistent.records
    obtain ⟨l, hl⟩ := h.lays hprogram
    have hnone : c.recording = none := Option.not_isSome_iff_eq_none.mp hrecording
    rw [handle_eq_construct hprogram hnone (hsimple.resolve_right hrecording),
      locate_eq_ok] at hcmd
    have hcharts : c.Charts l log := ⟨hl, hl.cells_eq ▸ h.charted⟩
    obtain ⟨⟨l', hcharts'⟩, hstores⟩ :=
      hcharts.construct h.consistent.keyed hnone hkind () c' hcmd
    exact ⟨hcharts'.lays.cells_eq ▸ hcharts'.charted, hstores⟩

theorem step (h : c.Surveyed log)
    (hsimple : cmd.kind ≠ .declareInstance ∨ c.recording.isSome = true)
    (hcmd : handle cmd c = .ok () c') : c'.Surveyed (log ++ Compilation.events cmd c) := by
  have hpasses := passes_handle h.consistent hsimple hcmd
  refine ⟨hpasses.consistent, ?_, (h.events hsimple hcmd).1⟩
  intro hnone
  obtain ⟨kinds, hrun⟩ := hpasses.runs hnone
  refine hrun.invariant (P := fun e => ∃ l, e.Lays l) ?_ (h.lays hpasses.program)
  rintro _ _ hs ⟨l, hl⟩
  obtain ⟨l', hl', -⟩ := hs.lays hl
  exact ⟨l', hl'⟩

theorem body (h : c.Surveyed log) (hkinds : ∀ cmd ∈ commands, cmd.kind ≠ .declareInstance)
    (hrun : handled? commands c = some c') :
    c'.Surveyed (log ++ eventsAlong Compilation.events commands c) := by
  induction commands generalizing c log with
  | nil =>
    cases hrun
    simpa [eventsAlong] using h
  | cons cmd rest ih =>
    obtain ⟨c₁, hcmd, hrest⟩ := handled?_cons.mp hrun
    rw [eventsAlong, hcmd, ← List.append_assoc]
    exact ih (h.step (.inl (hkinds cmd (by simp))) hcmd)
      (fun cmd' hcmd' => hkinds cmd' (by simp [hcmd'])) hrest

theorem openInstance {name className : String} {body : List Command} (h : c.Surveyed log)
    (hopen : openInstance name className c = .ok body c') : c'.Surveyed log := by
  have hconsistent := (follows_openInstance h.consistent hopen).2
  obtain ⟨k, hk, -, rfl⟩ := (h.consistent.records.ends_openInstance name className).of_ok hopen
  refine ⟨hconsistent, h.lays, ?_⟩
  refine h.charted.congr (fun x _ => ?_) fun _ _ => rfl
  exact congrFun (SymbolTable.binding?_openInstance hk.free.instances k.id) x

theorem handle (h : c.Surveyed log) (hcmd : handle cmd c = .ok () c') :
    c'.Surveyed (log ++ allEvents cmd c) := by
  by_cases hinstance : cmd.kind = .declareInstance ∧ c.recording = none
  · obtain ⟨hkind, hrecording⟩ := hinstance
    obtain ⟨hprogram, -, -⟩ := handles_of_handle hcmd h.consistent.records
    obtain ⟨body, c₁, hlocated, -⟩ :=
      bind_eq_ok.mp (handle_eq_declareInstance hprogram hrecording hkind ▸ hcmd)
    have hopen := locate_eq_ok.mp hlocated
    obtain ⟨-, c₂, hbody, rfl⟩ :=
      handle_declareInstance hkind hrecording h.consistent.records hcmd body c₁ hopen
    obtain ⟨-, hplace⟩ := ensures_openInstance _ _ h.consistent.records body c₁ hopen
    have hran := (h.openInstance hopen).body (Region.ne_declareInstance hplace) hbody
    rw [allEvents, events_eq_nil (by simp [hkind]), if_pos ⟨hkind, hrecording⟩, hopen,
      List.nil_append]
    refine ⟨?_, hran.lays, hran.charted.congr (fun _ _ => rfl) fun _ _ => rfl⟩
    exact ⟨hran.consistent.records, ⟨hran.consistent.keyed.kinds, hran.consistent.keyed.places,
      hran.consistent.keyed.names⟩, hran.consistent.inside, hran.consistent.numbered⟩
  · rw [allEvents, if_neg hinstance, List.append_nil]
    refine h.step ?_ hcmd
    rw [Option.isSome_iff_ne_none]
    exact Decidable.not_and_iff_or_not.mp hinstance

end Surveyed

theorem Recounts.surveyed (h : Recounts file symbols stream c coming log) : c.Surveyed log := by
  induction h with
  | start => exact surveyed_start file symbols
  | next _ hcmd ih => exact ih.handle hcmd
  | replay _ _ _ hopen ih => exact ih.openInstance hopen

/-! ## Versions -/

/-- The version of a variable is the number of changes of its storage type. Every point of a
compilation has an account of what has happened to variables before, in the order of the text. Take
a variable of the program, of an instance or of the open function. Its version, its type and its
cells, which stand in the header or at the top of the function, follow from the storage types that
the variable has come through by this account: the cells are numbered from zero up to the version,
and their types take turns. The code behind the cells allocates no others. A value that the next
notification gives to a variable is stored in the cell of the binding that is installed for it. -/
theorem versions_count_type_changes (h : Reaches file symbols stream c coming) :
    (∃ log, Recounts file symbols stream c coming log) ∧
    ∀ log, Recounts file symbols stream c coming log →
      (∀ x b, x.IsPlain → c.table.binding? x = some b → b.kind = .variable →
        b.Versioned (history x log) (c.emitter.cells x)) ∧
      (c.program = none → ∀ x, ∀ line ∈ c.emitter.code, line.cellOf? x = none) ∧
      ∀ cmd rest c', coming = cmd :: rest → handle cmd c = .ok () c' →
        ∀ x type, .assign x type ∈ events cmd c →
          ∃ b, b.type.storage = type ∧ c.Stores c' x b := by
  refine ⟨h.exists_recounts, fun log hlog => ⟨?_, ?_, ?_⟩⟩
  · exact hlog.surveyed.charted.bound
  · intro hprogram x
    obtain ⟨l, hl⟩ := hlog.surveyed.lays hprogram
    rw [hl.code_eq]
    exact hl.active.reads.cellOf?_eq_none x
  · intro cmd rest c' _ hcmd
    by_cases hinstance : cmd.kind = .declareInstance
    · rw [events_eq_nil (by simp [hinstance])]
      simp
    · exact (hlog.surveyed.events (.inl hinstance) hcmd).2

/-- A field that is given a real, and a parameter that is given a real and an integer again. -/
def versionStream : List Command :=
  [{ kind := .beginClass, name := "K" }, { kind := .declareVariable, name := "v" },
    { kind := .endClass }, { kind := .declareInstance, name := "p", target := "K" },
    { kind := .real, text := "2.5" }, { kind := .assignMember, target := "p", name := "v" },
    { kind := .declareFunction, name := "f", type := .int, params := [⟨"a", .int⟩] },
    { kind := .real, text := "0.5" }, { kind := .assign, name := "a" },
    { kind := .int, text := "1" }, { kind := .assign, name := "a" },
    { kind := .name, name := "a" }, { kind := .ret }, { kind := .endFunction },
    { kind := .endProgram }]

def versionLog : List Event :=
  eventsAlong allEvents (versionStream.take 11) (start "sample.mk" .standard)

theorem versions_count_type_changes_sample :
    history (.field "p" "v") versionLog = [.int, .real] ∧
    history (.slot "a") versionLog = [.int, .real, .int] ∧
    ∃ b, (pointBehind 11 versionStream).table.binding? (.slot "a") = some b ∧
      b.Versioned (history (.slot "a") versionLog)
        ((pointBehind 11 versionStream).emitter.cells (.slot "a")) := by
  have hrun : (handled? (versionStream.take 11) (start "sample.mk" .standard)).isSome = true := by
    decide +kernel
  have hlog : Recounts "sample.mk" .standard versionStream (pointBehind 11 versionStream)
      (versionStream.drop 11) versionLog := by
    obtain ⟨c, hc⟩ := Option.isSome_iff_exists.mp hrun
    rw [pointBehind, hc, Option.getD_some]
    exact Recounts.handled (a := versionStream.take 11) .start hc
  have hbound : ((pointBehind 11 versionStream).table.binding? (.slot "a")).any
      (fun b => b.kind = .variable) = true := by
    decide +kernel
  obtain ⟨b, hb, hkind⟩ := (Option.any_eq_true ..).mp hbound
  refine ⟨by decide +kernel, by decide +kernel, b, hb, ?_⟩
  exact ((versions_count_type_changes (reaches_pointBehind hrun)).2 _ hlog).1 (.slot "a") b
    (by decide) hb (of_decide_eq_true hkind)

end Compilation

end MkCompiler
