import MkCompiler.Proofs.Streams

/-!
# Compiled programs

A compiled program consists of declarations and of the definitions its layout ends up with. What
holds of every layout a run goes through therefore holds of the definitions.
-/

namespace MkCompiler

theorem Counter.Reads.isCode {k k' : Counter} {code : List Line} (h : k.Reads code k') :
    ∀ line ∈ code, line.isCode = true := by
  induction h with
  | nil => simp
  | cons hs _ ih =>
    intro line hline
    rcases List.mem_cons.mp hline with rfl | hline
    · cases hs <;> rfl
    · exact ih line hline

theorem Draft.Closed.isCode {d : Draft} (h : d.Closed) : ∀ line ∈ d.body, line.isCode = true := by
  obtain ⟨n, hreads⟩ := h.reads
  intro line hline
  rcases List.mem_append.mp hline with hline | hline
  · obtain ⟨i, -, rfl⟩ := List.mem_map.mp hline
    rfl
  · exact hreads.isCode line hline

structure IsPreamble (lines : List Line) : Prop where
  opens : ∀ line ∈ lines, line.opens = false
  isCode : ∀ line ∈ lines, line.isCode = false

theorem isPreamble_storage {header : List Line} (h : ∀ line ∈ header, line.isStorage = true) :
    IsPreamble header := by
  constructor <;>
  · intro line hline
    have hstorage := h line hline
    cases line <;> first | rfl | cases hstorage

theorem isPreamble_header {symbols : RuntimeSymbols} {header : List Line}
    (hheader : IsPreamble header) : IsPreamble (symbols.prologue ++ header) := by
  have hprologue : IsPreamble symbols.prologue := by
    constructor <;> simp [RuntimeSymbols.prologue, Line.opens, Line.isCode]
  constructor
  · intro line hline
    rcases List.mem_append.mp hline with hline | hline
    · exact hprologue.opens line hline
    · exact hheader.opens line hline
  · intro line hline
    rcases List.mem_append.mp hline with hline | hline
    · exact hprologue.isCode line hline
    · exact hheader.isCode line hline

theorem Emitter.Lays.isPreamble {e : Emitter} {l : Layout} (hl : e.Lays l) :
    IsPreamble (e.symbols.prologue ++ l.header) :=
  isPreamble_header (isPreamble_storage hl.header)

theorem definitions_drafts {preamble : List Line} {drafts : List Draft}
    (hpreamble : IsPreamble preamble) (hdrafts : ∀ d ∈ drafts, d.Closed) :
    definitions (preamble ++ drafts.flatMap fun d => d.toDefinition.lines) =
      drafts.map Draft.toDefinition := by
  rw [definitions, readDefinitions_outside hpreamble.opens]
  have hlines : (drafts.flatMap fun d => d.toDefinition.lines) =
      (drafts.map Draft.toDefinition).flatMap Definition.lines := by
    rw [List.flatMap_map]
  rw [hlines, readDefinitions_lines]
  intro d hd
  obtain ⟨d', hd', rfl⟩ := List.mem_map.mp hd
  exact ⟨(hdrafts d' hd').opens, (hdrafts d' hd').isCode⟩

/-- The definitions of a layout whose entry point is active, with the return that closes it. -/
def Layout.finished (l : Layout) : List Draft :=
  (l.grow [] [] [Emitter.entryReturn]).active :: l.closed

structure Layout.Finished (l : Layout) (lines : List Line) : Prop where
  suspended : l.suspended = none
  closed : ∀ d ∈ l.finished, d.Closed
  definitions_eq : definitions lines = l.finished.map Draft.toDefinition
  preamble : ∃ preamble, IsPreamble preamble ∧
    lines = preamble ++ (definitions lines).flatMap Definition.lines

theorem Emitter.Lays.finished {e e' : Emitter} {l : Layout} {lines : List Line} (hl : e.Lays l)
    (hfinish : finish e = .ok lines e') : l.Finished lines := by
  obtain ⟨-, -, -, hlast⟩ := Emitter.ensures_finish e _ _ hfinish
  obtain ⟨hsuspended, hclosed, rfl⟩ := hlast l hl
  have hdrafts : ∀ d ∈ l.finished, d.Closed := by
    intro d hd
    rcases List.mem_cons.mp hd with rfl | hd
    · exact hclosed
    · exact hl.closed d hd
  have hdefinitions := definitions_drafts hl.isPreamble hdrafts
  refine ⟨hsuspended, hdrafts, hdefinitions, _, hl.isPreamble, ?_⟩
  change _ = _ ++ (definitions (_ ++ l.finished.flatMap fun d => d.toDefinition.lines)).flatMap _
  rw [hdefinitions, List.flatMap_map]
  rfl

/-- What a layout satisfies goes on to hold along the steps of a run. -/
theorem Emitter.Run.exists_layout {P : Emitter → Layout → Prop} {kinds : List CommandKind}
    {e e' : Emitter} {l : Layout} (hrun : Run kinds e e') (hl : e.Lays l) (hp : P e l)
    (hstep : ∀ e e' l, Step e e' → e.Lays l → P e l → ∃ l', e'.Lays l' ∧ P e' l') :
    ∃ l', e'.Lays l' ∧ P e' l' := by
  refine hrun.invariant (P := fun e => ∃ l, e.Lays l ∧ P e l) ?_ ⟨l, hl, hp⟩
  rintro e e' hs ⟨l, hl, hp⟩
  exact hstep e e' l hs hl hp

/-- What every layout satisfies from the start of the program on holds of a compiled program. -/
theorem exists_layout {P : Emitter → Layout → Prop} {file : String} {commands : List Command}
    {symbols : RuntimeSymbols} {lines : List Line} {c : Compilation}
    (hstart : P (Emitter.start symbols) Emitter.startLayout)
    (hstep : ∀ e e' l, Emitter.Step e e' → e.Lays l → P e l → ∃ l', e'.Lays l' ∧ P e' l')
    (h : Compilation.handleAll 1 commands (Compilation.start file symbols) = .ok () c)
    (hlines : c.program = some lines) :
    ∃ e l, P e l ∧ e.active.pending = [] ∧ e.active.openCompare = none ∧
      c.emitter.labels = e.labels ∧ l.Finished lines := by
  obtain ⟨kinds, e, hrun, hfinish⟩ := exists_run_of_handleAll h hlines
  obtain ⟨l, hl, hp⟩ := hrun.exists_layout (Emitter.lays_start symbols) hstart hstep
  obtain ⟨hpending, hopen, hlabels, -⟩ := Emitter.ensures_finish e _ _ hfinish
  exact ⟨e, l, hp, hpending, hopen, hlabels, hl.finished hfinish⟩

/-! ## What has been written -/

namespace Layout

variable {l l' l'' : Layout}

/-- The entry point, also while it waits behind an open function. -/
def entry (l : Layout) : Draft :=
  l.suspended.getD l.active

/-- What a layout consists of is there in the other one, with more behind it. -/
structure Continues (l l' : Layout) : Prop where
  header : l.header <+: l'.header
  closed : l.closed <+: l'.closed
  slots : l.entry.slots <+: l'.entry.slots
  code : l.entry.code <+: l'.entry.code

theorem Continues.refl (l : Layout) : l.Continues l :=
  ⟨List.prefix_refl _, List.prefix_refl _, List.prefix_refl _, List.prefix_refl _⟩

theorem Continues.trans (h : l.Continues l') (h' : l'.Continues l'') : l.Continues l'' :=
  ⟨h.header.trans h'.header, h.closed.trans h'.closed, h.slots.trans h'.slots,
    h.code.trans h'.code⟩

theorem continues_grow (l : Layout) (header : List Line) (slots : List Instr) (code : List Line) :
    l.Continues (l.grow header slots code) := by
  cases hs : l.suspended with
  | none =>
    refine ⟨List.prefix_append _ _, List.prefix_refl _, ?_, ?_⟩
    all_goals
      simp only [entry, suspended_grow, hs, Option.getD_none]
      exact List.prefix_append _ _
  | some d =>
    refine ⟨List.prefix_append _ _, List.prefix_refl _, ?_, ?_⟩
    all_goals
      simp only [entry, suspended_grow, hs, Option.getD_some]
      exact List.prefix_refl _

theorem continues_enter (hs : l.suspended = none) (opening : Line) (slots : List Instr) :
    l.Continues (l.enter opening slots) := by
  have hentry : (l.enter opening slots).entry = l.entry := by
    simp [entry, enter, hs]
  exact ⟨List.prefix_refl _, List.prefix_refl _, hentry ▸ List.prefix_refl _,
    hentry ▸ List.prefix_refl _⟩

theorem continues_leave {d : Draft} (hs : l.suspended = some d) : l.Continues (l.leave d) := by
  have hentry : (l.leave d).entry = l.entry := by
    simp [entry, leave, hs]
  exact ⟨List.prefix_refl _, List.prefix_append _ _, hentry ▸ List.prefix_refl _,
    hentry ▸ List.prefix_refl _⟩

end Layout

namespace Emitter

variable {e e' : Emitter} {l l' : Layout}

/-- Every step of the emitter leaves what has been written, and adds to it. -/
theorem Step.continues (h : Step e e') (hl : e.Lays l) : ∃ l', e'.Lays l' ∧ l.Continues l' := by
  cases h with
  | body h =>
    obtain ⟨header, slots, code, hl'⟩ := h.grows.2 l hl
    exact ⟨_, hl', l.continues_grow header slots code⟩
  | enter hnone _ _ _ h =>
    exact ⟨_, h l hl, Layout.continues_enter (hl.suspended_eq_none hnone) _ _⟩
  | leave _ _ _ _ h =>
    obtain ⟨d, hd, hl'⟩ := h l hl
    refine ⟨_, hl', (l.continues_grow [] [] _).trans (Layout.continues_leave ?_)⟩
    exact hd

theorem Run.continues {kinds : List CommandKind} (h : Run kinds e e') (hl : e.Lays l) :
    ∃ l', e'.Lays l' ∧ l.Continues l' := by
  refine h.exists_layout (P := fun _ l' => l.Continues l') hl (.refl l) ?_
  intro e₁ e₂ l₁ hstep hl₁ h₁
  obtain ⟨l₂, hl₂, h₂⟩ := hstep.continues hl₁
  exact ⟨l₂, hl₂, h₁.trans h₂⟩

end Emitter

/-! ## A sample -/

/-- A class with a method, a function that returns from within a loop, and a conditional that
declares an instance and calls both. -/
def sampleStream : List Command :=
  [{ kind := .beginClass, name := "P" },
    { kind := .declareVariable, name := "n" },
    { kind := .declareFunction, name := "get", type := .int },
    { kind := .name, name := "n" }, { kind := .ret }, { kind := .endFunction },
    { kind := .endClass },
    { kind := .declareFunction, name := "f", type := .int, params := [⟨"a", .int⟩] },
    { kind := .beginCondition }, { kind := .name, name := "a" }, { kind := .int, text := "1" },
    { kind := .compare, text := "<" },
    { kind := .name, name := "a" }, { kind := .ret },
    { kind := .name, name := "a" }, { kind := .print }, { kind := .endWhile },
    { kind := .name, name := "a" }, { kind := .ret }, { kind := .endFunction },
    { kind := .declareVariable, name := "x" },
    { kind := .beginCondition }, { kind := .name, name := "x" }, { kind := .int, text := "3" },
    { kind := .compare, text := "<" },
    { kind := .declareInstance, name := "p", target := "P" },
    { kind := .callMethod, target := "p", name := "get" },
    { kind := .name, name := "x" }, { kind := .call, name := "f", count := 1 },
    { kind := .arith, text := "+" }, { kind := .print }, { kind := .endIf },
    { kind := .endProgram }]

theorem compile_sampleStream : ∃ lines,
    compile "sample.mk" sampleStream .standard = .ok lines ∧ (definitions lines).length = 3 := by
  have h : ((compile "sample.mk" sampleStream .standard).map fun lines =>
      (definitions lines).length).toOption = some 3 := by
    decide +kernel
  cases hlines : compile "sample.mk" sampleStream .standard with
  | error e =>
    rw [hlines] at h
    cases h
  | ok lines =>
    rw [hlines] at h
    exact ⟨lines, rfl, Option.some.inj h⟩

end MkCompiler
