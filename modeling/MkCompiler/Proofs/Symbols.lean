import MkCompiler.Proofs.LinkedRuns

/-!
# Symbols of a compiled program

A compiled program is closed. Every symbol it refers to is declared in it, once and as what it is
used as: a cell or an array with its element type, a function with its result and parameters, or a
symbol of the runtime. Different symbols are also spelled differently.
-/

namespace MkCompiler

/-- The symbols that lines declare, each with what it is. -/
def declarations (lines : List Line) : List (GlobalName × SymbolType) :=
  lines.flatMap Line.declares

@[simp] theorem declarations_append (a b : List Line) :
    declarations (a ++ b) = declarations a ++ declarations b :=
  List.flatMap_append

/-- The symbols that lines declare, as they are spelled. -/
def spellings (lines : List Line) : List String :=
  (declarations lines).map fun u => u.1.spelling

theorem spellings_prologue (s : RuntimeSymbols) :
    (spellings s.prologue).Perm (s.toList.map Prod.snd) :=
  @List.perm_append_comm _ [s.printf, s.scanf] _

/-- Two symbols of the runtime are the same, or one of them is among others. -/
def RuntimeSymbols.Clashes (s : RuntimeSymbols) (others : List String) : Prop :=
  ¬(s.toList.map Prod.snd).Nodup ∨ ∃ symbol ∈ s.toList.map Prod.snd, symbol ∈ others

namespace RuntimeSymbols

variable {s : RuntimeSymbols} {others : List String}

theorem Separate.not_clashes (h : s.Separate) (hothers : ∀ text ∈ others, IsGenerated text) :
    ¬s.Clashes others := by
  rintro (hnodup | ⟨symbol, hsymbol, hother⟩)
  · exact hnodup h.nodup
  · exact h.not_isGenerated hsymbol (hothers symbol hother)

theorem not_clashes_iff : ¬s.Clashes others ↔
    (spellings s.prologue).Nodup ∧ ∀ symbol ∈ spellings s.prologue, symbol ∉ others := by
  have hperm := spellings_prologue s
  simp only [Clashes, not_or, not_exists, not_and, not_not, hperm.nodup_iff, hperm.mem_iff]

/-- Behind the prologue, no symbol is declared again unless there is a clash. -/
theorem nodup_append_iff (h : others.Nodup) :
    (spellings s.prologue ++ others).Nodup ↔ ¬s.Clashes others := by
  rw [not_clashes_iff, List.nodup_append]
  constructor
  · rintro ⟨hnodup, -, hdisjoint⟩
    exact ⟨hnodup, fun symbol hsymbol hother => hdisjoint symbol hsymbol symbol hother rfl⟩
  · rintro ⟨hnodup, hdisjoint⟩
    refine ⟨hnodup, h, ?_⟩
    rintro symbol hsymbol _ hother rfl
    exact hdisjoint symbol hsymbol hother

end RuntimeSymbols

/-- Code declares nothing, so that a definition declares what its opening line does. -/
theorem declarations_toDefinition {d : Draft} (h : d.Closed) :
    declarations d.toDefinition.lines = d.opening.declares := by
  have hbody : declarations d.body = [] := by
    apply List.flatMap_eq_nil_iff.mpr
    intro line hline
    have hcode := h.isCode line hline
    cases line <;> first | rfl | cases hcode
  have hlines : d.toDefinition.lines = [d.opening] ++ d.body ++ [.close] := rfl
  rw [hlines, declarations_append, declarations_append, hbody]
  simp [declarations, Line.declares]

theorem declarations_drafts {drafts : List Draft} (h : ∀ d ∈ drafts, d.Closed) :
    declarations (drafts.flatMap fun d => d.toDefinition.lines) =
      declarations (drafts.map Draft.opening) := by
  induction drafts with
  | nil => rfl
  | cons d rest ih =>
    have hd := declarations_toDefinition (h d (by simp))
    have hrest := ih fun d' hd' => h d' (by simp [hd'])
    rw [List.flatMap_cons, declarations_append, hd, hrest]
    rfl

theorem Line.isCode_of_symbolUses {line : Line} {u : GlobalName × SymbolType}
    (hu : u ∈ line.symbolUses) : line.isCode = true := by
  cases line with
  | instr i => rfl
  | _ => cases hu

theorem mem_body_of_isCode {d : Draft} (hd : d.Closed) {line : Line}
    (hline : line ∈ d.toDefinition.lines) (hcode : line.isCode = true) : line ∈ d.body := by
  have hlines : d.toDefinition.lines = [d.opening] ++ d.body ++ [.close] := rfl
  rw [hlines, List.mem_append, List.mem_append, List.mem_singleton, List.mem_singleton] at hline
  rcases hline with (rfl | hline) | rfl
  · have hopens := hd.opens
    cases hopening : d.opening <;> simp [hopening, Line.opens, Line.isCode] at hopens hcode
  · exact hline
  · cases hcode

def Layout.symbols (l : Layout) : List (GlobalName × SymbolType) :=
  declarations l.header ++ (.entry, .function .i32 []) :: declarations (l.closed.map Draft.opening)

/-- A program declares the symbols of the runtime and those of its layout. -/
theorem Emitter.Lays.declarations_finish {e e' : Emitter} {l : Layout} {lines : List Line}
    (hl : e.Lays l) (hfinish : finish e = .ok lines e') :
    declarations lines = declarations e.symbols.prologue ++ l.symbols := by
  have hclosed := (hl.finished hfinish).closed
  obtain ⟨-, -, -, hlast⟩ := Emitter.ensures_finish e _ _ hfinish
  obtain ⟨hsuspended, -, hlines⟩ := hlast l hl
  have hentry := hl.entry
  unfold Emitter.EntryLays at hentry
  rw [hsuspended] at hentry
  rw [hlines, declarations_append, declarations_append, ← Layout.finished,
    declarations_drafts hclosed, Layout.finished, List.map_cons, Layout.opening_grow, hentry.2,
    List.append_assoc]
  rfl

theorem Emitter.Lays.part_header {e : Emitter} {l : Layout} (hl : e.Lays l)
    {u : GlobalName × SymbolType} (hu : u ∈ declarations l.header) : u.1.part = .storage := by
  obtain ⟨line, hline, hu⟩ := List.mem_flatMap.mp hu
  have hstorage := hl.header line hline
  cases line with
  | cell | array =>
    rw [List.mem_singleton.mp hu]
    exact of_decide_eq_true hstorage
  | _ => cases hstorage

theorem Line.part_of_opensFunction {line : Line} (h : line.opensFunction = true)
    {u : GlobalName × SymbolType} (hu : u ∈ line.declares) : u.1.part = .functions := by
  cases line with
  | define =>
    rw [List.mem_singleton.mp hu]
    exact of_decide_eq_true h
  | _ => cases h

/-- All definitions other than the entry point are opened as functions and methods. -/
theorem Emitter.Step.opensFunction {e e' : Emitter} {l : Layout} (h : Step e e') (hl : e.Lays l)
    (hopens : ∀ line ∈ l.functions.map Draft.opening, line.opensFunction = true) :
    ∃ l', e'.Lays l' ∧ ∀ line ∈ l'.functions.map Draft.opening, line.opensFunction = true := by
  cases h with
  | body h =>
    obtain ⟨header, slots, code, hl'⟩ := h.grows.2 l hl
    refine ⟨_, hl', ?_⟩
    rwa [Layout.functions_grow]
  | enter hnone _ _ _ h hopening =>
    refine ⟨_, h l hl, ?_⟩
    rw [Layout.functions_enter (hl.suspended_eq_none hnone)]
    intro line hline
    rcases List.mem_append.mp hline with hline | hline
    · exact hopens line hline
    · rw [List.mem_singleton.mp hline]
      exact hopening
  | leave _ _ _ _ h =>
    obtain ⟨d, hd, hl'⟩ := h l hl
    refine ⟨_, hl', ?_⟩
    rwa [Layout.functions_leave hd]

/-- Behind the prologue, a program declares symbols of its own. This holds whatever the names of the
source are. -/
theorem exists_own {file : String} {commands : List Command} {symbols : RuntimeSymbols}
    {lines : List Line} (h : compile file commands symbols = .ok lines) :
    ∃ own, spellings lines = spellings symbols.prologue ++ own ∧
      ∀ text ∈ own, IsGenerated text := by
  obtain ⟨c, hall, hprogram⟩ := compile_eq_ok.mp h
  obtain ⟨kinds, e, hrun, hfinish⟩ := exists_run_of_handleAll hall hprogram
  obtain ⟨l, hl, rfl, hopens⟩ := hrun.exists_layout
    (P := fun e l => e.symbols = symbols ∧
      ∀ line ∈ l.functions.map Draft.opening, line.opensFunction = true)
    (Emitter.lays_start symbols) ⟨rfl, by simp [Layout.functions, Emitter.startLayout]⟩
    (by
      rintro e e' l hs hl ⟨hsymbols, hopens⟩
      obtain ⟨l', hl', hopens'⟩ := hs.opensFunction hl hopens
      exact ⟨l', hl', hs.symbols_eq.trans hsymbols, hopens'⟩)
  refine ⟨l.symbols.map fun u => u.1.spelling, ?_, ?_⟩
  · rw [spellings, hl.declarations_finish hfinish, List.map_append]
    rfl
  · intro text htext
    obtain ⟨u, hu, rfl⟩ := List.mem_map.mp htext
    apply GlobalName.isGenerated_spelling
    rw [Layout.symbols, List.mem_append, List.mem_cons] at hu
    rcases hu with hu | rfl | hu
    · rw [hl.part_header hu]
      decide
    · decide
    · rw [Layout.functions, (hl.finished hfinish).suspended] at hopens
      obtain ⟨line, hline, hu⟩ := List.mem_flatMap.mp hu
      rw [Line.part_of_opensFunction (hopens line hline) hu]
      decide

/-! ## The finished program -/

namespace Compilation

variable {p : Prop} {c : Compilation} {l : Layout} {lines : List Line}

structure Completes (p : Prop) (c : Compilation) (l : Layout) (lines : List Line) : Prop where
  linked : c.Linked p [] l
  finished : l.Finished lines
  lines_eq : lines = c.emitter.symbols.prologue ++ l.header ++
    l.finished.flatMap fun d => d.toDefinition.lines
  declarations_eq : declarations lines = declarations c.emitter.symbols.prologue ++ l.symbols

theorem Linked.completes (h : c.Linked p [] l) {e : Emitter}
    (hfinish : Emitter.finish c.emitter = .ok lines e) : Completes p c l lines := by
  obtain ⟨-, -, -, hlast⟩ := Emitter.ensures_finish c.emitter _ _ hfinish
  exact ⟨h, h.lays.finished hfinish, (hlast l h.lays).2.2, h.lays.declarations_finish hfinish⟩

theorem exists_completes {file : String} {symbols : RuntimeSymbols} {stream : List Command}
    (hclear : p → StackClearAtBodies file symbols stream) (hnamed : ∀ cmd ∈ stream, cmd.Named)
    (hcompile : compile file stream symbols = .ok lines) :
    ∃ c l, Completes p c l lines ∧ c.emitter.symbols = symbols := by
  obtain ⟨c, l, e, hlinked, hsymbols, hfinish, -⟩ := exists_linked hclear hnamed hcompile
  exact ⟨c, l, hlinked.completes hfinish, hsymbols⟩

namespace Completes

theorem functions (h : Completes p c l lines) : l.functions = l.closed := by
  unfold Layout.functions
  rw [h.finished.suspended]

/-- What code may refer to is declared once the program is complete. -/
theorem mem_declarations (h : Completes p c l lines) {name : GlobalName} {type : SymbolType}
    (hu : l.globals c.emitter.symbols c.table name type) : (name, type) ∈ declarations lines := by
  rw [h.declarations_eq, Layout.symbols, ← List.append_assoc]
  rcases hu with hu | hu
  · apply List.mem_append_left
    rw [← declarations_append]
    exact hu
  · have hdefines := h.linked.defines
    rw [h.functions] at hdefines
    rcases hdefines.kept name type hu with hu | ⟨_, _, _, hnone, _⟩
    · exact List.mem_append_right _ (List.mem_cons_of_mem _ hu)
    · cases hnone

/-- All definitions are typed. The return that closes the entry point uses no names. -/
theorem typed (h : Completes p c l lines) {d : Draft} (hd : d ∈ l.finished) :
    d.Accepted p (l.globals c.emitter.symbols c.table) := by
  rcases List.mem_cons.mp hd with rfl | hd
  · have hactive := h.linked.typed l.active (by simp [Layout.drafts])
    have hreturn (Γ : Env) : Γ.Accepts [Emitter.entryReturn] := by
      refine Env.accepts_singleton ?_ rfl
      constructor <;> simp [Emitter.entryReturn, Line.symbolUses, Line.localUses, Instr.symbolUses,
        Instr.localUses, Value.uses]
    exact hactive.grow (s := {}) (hreturn _) (fun _ _ hu => hu) (by simp)
  · exact h.linked.typed d (List.mem_cons_of_mem _ (List.mem_append_right _ hd))

theorem symbolUses_declared (h : Completes p c l lines) {line : Line} (hline : line ∈ lines)
    {u : GlobalName × SymbolType} (hu : u ∈ line.symbolUses) : u ∈ declarations lines := by
  have hcode := Line.isCode_of_symbolUses hu
  rw [h.lines_eq, List.mem_append] at hline
  rcases hline with hline | hline
  · rw [h.linked.lays.isPreamble.isCode line hline] at hcode
    cases hcode
  · obtain ⟨d, hd, hline⟩ := List.mem_flatMap.mp hline
    have hbody := mem_body_of_isCode (h.finished.closed d hd) hline hcode
    obtain ⟨front, rest, hsplit⟩ := List.append_of_mem hbody
    have htyped := (h.typed hd).types
    rw [hsplit] at htyped
    have hallows := (Env.types_append.mp htyped).2.1
    exact h.mem_declarations (hallows.symbols u hu)

/-! ## Names -/

/-- The definitions other than the entry point are those of functions and methods. -/
theorem promises_opening (h : Completes p c l lines) {u : GlobalName × SymbolType}
    (hu : u ∈ declarations (l.closed.map Draft.opening)) : c.table.Promises u.1 u.2 := by
  have hdefines := h.linked.defines
  rw [h.functions] at hdefines
  exact (hdefines.promised u hu).1

theorem part_opening (h : Completes p c l lines) {u : GlobalName × SymbolType}
    (hu : u ∈ declarations (l.closed.map Draft.opening)) : u.1.part = .functions := by
  obtain ⟨name, type⟩ := u
  cases h.promises_opening hu with
  | function _ => rfl
  | method _ => rfl

/-- A layout declares no symbol twice. -/
theorem nodup_symbols (h : Completes p c l lines) : (l.symbols.map Prod.fst).Nodup := by
  have hdefines := h.linked.defines
  rw [h.functions] at hdefines
  have hopenings : ∀ name ∈ (declarations (l.closed.map Draft.opening)).map Prod.fst,
      name.part = .functions := by
    intro name hname
    obtain ⟨u, hu, rfl⟩ := List.mem_map.mp hname
    exact h.part_opening hu
  have hentry : GlobalName.entry ∉ (declarations (l.closed.map Draft.opening)).map Prod.fst := by
    intro hmem
    cases hopenings _ hmem
  rw [Layout.symbols, List.map_append, List.map_cons, List.nodup_append, List.nodup_cons]
  refine ⟨h.linked.stores.nodup, ⟨hentry, hdefines.nodup⟩, ?_⟩
  rintro name ha _ hb rfl
  obtain ⟨u, hu, rfl⟩ := List.mem_map.mp ha
  have hfront := h.linked.lays.part_header hu
  rcases List.mem_cons.mp hb with hb | hb
  · rw [hb] at hfront
    cases hfront
  · cases hfront.symm.trans (hopenings _ hb)

/-- Names are put together from identifiers, and versions are below the number of lines. -/
theorem regular (h : Completes p c l lines) {u : GlobalName × SymbolType} (hu : u ∈ l.symbols) :
    u.1.Regular lines.length := by
  have hlength : l.header.length ≤ lines.length := by
    rw [h.lines_eq]
    simp only [List.length_append]
    omega
  rw [Layout.symbols, List.mem_append, List.mem_cons] at hu
  rcases hu with hu | rfl | hu
  · obtain ⟨owner, name, g, hg, hname⟩ := h.linked.stores.bound u hu
    have howner := h.linked.lexicon.owner hg
    have hidentifier := h.linked.lexicon.storage owner name g hg
    rcases hname with ⟨-, hname⟩ | ⟨-, v, hname, hnonneg, hle⟩
    · rw [hname]
      exact ⟨howner, hidentifier⟩
    · have hlt := (h.linked.stores.declared owner name g hg).2.2
      rw [hname]
      exact ⟨howner, hidentifier, hnonneg, by omega⟩
  · trivial
  · obtain ⟨name, type⟩ := u
    cases h.promises_opening hu with
    | function _ => trivial
    | method hsig => exact (h.linked.lexicon.method hsig).1

theorem nodup (h : Completes p c l lines) (hs : c.emitter.symbols.Separate) :
    ((declarations lines).map Prod.fst).Nodup := by
  have hprologue : ((declarations c.emitter.symbols.prologue).map Prod.fst).Nodup := by
    apply List.Nodup.of_map GlobalName.spelling
    rw [List.map_map]
    exact (spellings_prologue _).nodup_iff.mpr hs.nodup
  rw [h.declarations_eq, List.map_append, List.nodup_append]
  refine ⟨hprologue, h.nodup_symbols, ?_⟩
  rintro name ha _ hb rfl
  obtain ⟨u, hu, rfl⟩ := List.mem_map.mp hb
  have hregular := h.regular hu
  generalize u.1 = name at ha hregular
  cases name with
  | external symbol => exact hregular
  | _ => simp [declarations, RuntimeSymbols.prologue, Line.declares] at ha

/-- Symbols of a layout that differ are spelled differently, as long as the versions of all
variables fit in a word. -/
theorem nodup_spelling (h : Completes p c l lines) (hlength : lines.length ≤ 2 ^ 64) :
    (l.symbols.map fun u => u.1.spelling).Nodup := by
  have hregular : ∀ name ∈ l.symbols.map Prod.fst, name.Regular (2 ^ 64) := by
    intro name hname
    obtain ⟨u, hu, rfl⟩ := List.mem_map.mp hname
    exact (h.regular hu).mono hlength
  have hmap := h.nodup_symbols.map_on fun a ha b hb hab =>
    GlobalName.spelling_inj (hregular a ha) (hregular b hb) hab
  rwa [List.map_map] at hmap

/-- What a complete program declares behind its prologue is spelled in different ways. -/
theorem nodup_own (h : Completes p c l lines) (hlength : lines.length ≤ 2 ^ 64) {own : List String}
    (hown : spellings lines = spellings c.emitter.symbols.prologue ++ own) : own.Nodup := by
  rw [spellings, h.declarations_eq, List.map_append] at hown
  rw [← List.append_cancel_left hown]
  exact h.nodup_spelling hlength

end Completes

end Compilation

/-- The module is closed. No symbol is declared twice, and every symbol that a line refers to is
declared as what it is used as: variables with the type that is loaded, stored or scanned, arrays
with their length and element type, functions and methods with the result and the arguments of the
call, and the runtime with the sizes of its texts. In a program of up to `2 ^ 64` lines no two symbols
are spelled alike either. -/
theorem compile_declares_symbols {file : String} {commands : List Command}
    {symbols : RuntimeSymbols} {lines : List Line}
    (h : compile file commands symbols = .ok lines) (hnamed : ∀ cmd ∈ commands, cmd.Named)
    (hsymbols : symbols.Separate) :
    ((declarations lines).map Prod.fst).Nodup ∧
    (∀ line ∈ lines, ∀ u ∈ line.symbolUses, u ∈ declarations lines) ∧
    (lines.length ≤ 2 ^ 64 → ((declarations lines).map fun u => u.1.spelling).Nodup) := by
  obtain ⟨c, l, hc, rfl⟩ := Compilation.exists_completes (p := False) False.elim hnamed h
  refine ⟨hc.nodup hsymbols, fun _ hline _ hu => hc.symbolUses_declared hline hu, ?_⟩
  intro hlength
  obtain ⟨own, hown, hgenerated⟩ := exists_own h
  change (spellings lines).Nodup
  rw [hown]
  exact (RuntimeSymbols.nodup_append_iff (hc.nodup_own hlength hown)).mpr
    (hsymbols.not_clashes hgenerated)

theorem compile_declares_symbols_sample : ∃ lines,
    compile "sample.mk" sampleStream .standard = .ok lines ∧ (definitions lines).length = 3 ∧
    ((declarations lines).map Prod.fst).Nodup ∧
    ∀ line ∈ lines, ∀ u ∈ line.symbolUses, u ∈ declarations lines := by
  obtain ⟨lines, h, hlength⟩ := compile_sampleStream
  have hclosed := compile_declares_symbols h (by decide +kernel) separate_standard
  exact ⟨lines, h, hlength, hclosed.1, hclosed.2.1⟩

end MkCompiler
