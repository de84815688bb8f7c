import MkCompiler.Proofs.Coherence
import MkCompiler.Proofs.Symbols

/-!
# Arrays of a compiled program

An array is declared by the program or by the body of a class, which is run for every instance. Its
initial elements are on the stack then, and their number or the length that is given becomes the
length of the array. Main result: the arrays of a compiled program are those that have been
declared, none of them is empty, their initial elements are stored in order, and no literal is an
index that lies outside of the array it is used for.
-/

namespace MkCompiler

/-- The length of the array that a notification declares: the one that is given, or else the number
of its initial elements. -/
def Command.arrayLength (cmd : Command) : Int :=
  if cmd.length = 0 then cmd.count else cmd.length

theorem Line.isElement_of_isCode {line : Line} (h : line.isCode = false) :
    line.isElement = false := by
  cases line with
  | instr i => cases h
  | _ => rfl

theorem Line.eq_array_of_declares {line : Line} {name : GlobalName} {type : IrType} {length : Int}
    (h : (name, .array type length) ∈ line.declares) : line = .array name type length := by
  cases line <;> simp [Line.declares] at h
  obtain ⟨rfl, rfl, rfl⟩ := h
  rfl

theorem SymbolTable.Keyed.of_storage? {t : SymbolTable} {owner name : String} {g : Global}
    (h : t.Keyed) (hg : t.storage? owner name = some g) :
    ∃ x, t.binding? x = some (.global g) ∧ g.inst = owner ∧ g.name = name := by
  have hplace {x : Place} (hx : t.binding? x = some (.global g)) := h.places x _ hx
  unfold SymbolTable.storage? at hg
  split at hg
  case isTrue howner =>
    have hx : t.binding? (.program name) = some (.global g) := by simp [SymbolTable.binding?, hg]
    have := hplace hx
    grind [Binding.place]
  case isFalse howner =>
    have hx : t.binding? (.field owner name) = some (.global g) := by
      simp [SymbolTable.binding?, hg]
    have := hplace hx
    grind [Binding.place]

namespace Compilation

open MkCompiler.Action

variable {file : String} {symbols : RuntimeSymbols} {stream coming : List Command}
  {lines : List Line} {c : Compilation} {cmd : Command} {p : Prop} {l : Layout}

/-- The declaration of an array comes next, in the stream or in the body of a class that is run for
an instance. -/
def ArrayAt (file : String) (symbols : RuntimeSymbols) (stream : List Command) (c : Compilation)
    (cmd : Command) : Prop :=
  c.recording = none ∧ cmd.kind = .declareArray ∧ ∃ rest, Reaches file symbols stream c (cmd :: rest)

/-- The line for the array that is declared at `c`, as a field of the current instance or else as a
variable of the program. -/
def arrayLine (c : Compilation) (cmd : Command) : Line :=
  .array (.array c.table.owner cmd.name) cmd.type.irType cmd.arrayLength

/-- The program has the array that is declared at `c`. The initial elements have been pushed on the
stack, and are stored in the order in which they were pushed, the first one at index 0. -/
structure HasArray (lines : List Line) (c : Compilation) (cmd : Command) : Prop where
  positive : 0 < cmd.arrayLength
  pushed : 0 ≤ cmd.count ∧ cmd.count ≤ c.stack.length
  fits : cmd.count ≤ cmd.arrayLength
  declared : c.arrayLine cmd ∈ lines
  filled : ∃ code, code <:+: lines ∧ FilledBy (.array c.table.owner cmd.name) cmd.type.irType
    cmd.arrayLength 0 (c.stack.take cmd.count.toNat).reverse code

/-- What is written outside of functions stays in the entry point. -/
theorem CompletesTo.infix_lines (h : c.CompletesTo lines) (hprogram : c.program = none)
    {header code : List Line} {slots : List Instr} (hs : l.suspended = none)
    (hl : c.emitter.Lays (l.grow header slots code)) :
    (∀ line ∈ header, line ∈ lines) ∧ code <:+: lines := by
  obtain ⟨l', preamble, hcontinues, hs', rfl⟩ := h.continues hprogram hl
  constructor
  · intro line hline
    have hmem := hcontinues.header.subset (List.mem_append_right l.header hline)
    simp [hmem]
  · have hcode := hcontinues.code
    simp only [Layout.entry, Layout.suspended_grow, hs, hs', Option.getD_none] at hcode
    have hbody : code <:+: (l'.grow [] [] [Emitter.entryReturn]).active.toDefinition.lines := by
      have hactive : l'.active.code <:+:
          (l'.grow [] [] [Emitter.entryReturn]).active.toDefinition.lines :=
        ⟨l'.active.opening :: l'.active.slots.map .instr, [Emitter.entryReturn, .close],
          by simp [Layout.grow, Draft.toDefinition, Definition.lines, Draft.body]⟩
      exact (List.suffix_append l.active.code code).isInfix.trans (hcode.isInfix.trans hactive)
    rw [Layout.finished, List.flatMap_cons]
    exact hbody.trans ((List.prefix_append _ _).isInfix.trans (List.suffix_append _ _).isInfix)

theorem ArrayAt.hasArray (h : ArrayAt file symbols stream c cmd)
    (hcompile : compile file stream symbols = .ok lines) : HasArray lines c cmd := by
  obtain ⟨hrecording, hkind, rest, hreaches⟩ := h
  have hproceeds := hreaches.proceeds hcompile
  have hnames := hreaches.consistent.keyed.names
  obtain ⟨hprogram, c', hcmd, hnext⟩ := hproceeds.next
  rw [handle_eq_construct hprogram hrecording (by simp [hkind]), locate_eq_ok, construct,
    hkind] at hcmd
  obtain ⟨elements, stack, g, t, e, hpop, houtside, -, ⟨hpositive, hfits⟩, ⟨inst, id, hg⟩,
    hdeclares, hrun, rfl⟩ := ensures_declareArray hnames _ _ cmd.length cmd.count () c' hcmd
  obtain ⟨hcount, rfl, -⟩ := ensures_popMany cmd.count c elements _ hpop
  have hlength : arrayLength cmd.length (c.stack.take cmd.count.toNat).reverse = cmd.arrayLength := by
    rw [arrayLength, hcount]
    rfl
  rw [hcount] at hfits
  rw [hlength] at hpositive hfits hg
  have hinst := hdeclares.inst_eq hnames
  have hsymbol : g.symbol = .array c.table.owner cmd.name := by
    rw [← hinst, hg]
    rfl
  obtain ⟨-, -, -, code, hadds, hfilled⟩ := Emitter.adds_declareArray _ _ _ _ g e hrun
  rw [hsymbol, hg] at hadds hfilled
  obtain ⟨l, hl⟩ := hproceeds.lays hprogram
  have hs := hl.suspended_eq_none (by simpa [Emitter.inFunction] using houtside)
  obtain ⟨hheader, hcode⟩ := hnext.completesTo.infix_lines hprogram hs (hadds.layout l hl)
  rw [List.length_reverse, List.length_take] at hcount
  exact ⟨hpositive, by omega, hfits, hheader _ (by simp [arrayLine, Global.ofArray]), code, hcode,
    hfilled⟩

/-- Every array that is bound has been declared. -/
theorem Reaches.exists_arrayAt (h : Reaches file symbols stream c coming) :
    ∀ (x : Place) (g : Global), c.table.binding? x = some (.global g) → g.kind = .array →
      ∃ c₀ cmd, ArrayAt file symbols stream c₀ cmd ∧ g.inst = c₀.table.owner ∧
        g.name = cmd.name := by
  refine h.invariant (P := fun c => ∀ (x : Place) (g : Global),
    c.table.binding? x = some (.global g) → g.kind = .array → ∃ c₀ cmd,
      ArrayAt file symbols stream c₀ cmd ∧ g.inst = c₀.table.owner ∧ g.name = cmd.name)
    ?_ ?_ ?_ fun hc => hc
  · intro x g hg
    cases x <;> cases hg
  · intro c c' cmd rest hreaches hsimple hcmd hc x g hg harray
    have hconsistent := hreaches.consistent
    rcases effect_of_handle hconsistent hsimple hcmd with ⟨-, hretains⟩ | ⟨hnone, heffect⟩
    · exact hc x g
        (SymbolTable.binding?_of_scopes hretains.globals hretains.instances hg) harray
    · rcases heffect.array_cases hconsistent.keyed hg harray with hold | ⟨hkind, hinst, hname⟩
      · exact hc x g hold harray
      · exact ⟨c, cmd, ⟨hnone, hkind, rest, hreaches⟩, hinst, hname⟩
  · intro c c' cmd rest body hreaches hopen hc x g hg
    obtain ⟨k, hk, -, rfl⟩ := (hreaches.consistent.records.ends_openInstance _ _).of_ok hopen
    rw [withInstance, SymbolTable.binding?_openInstance hk.free.instances k.id] at hg
    exact hc x g hg

namespace Completes

variable {name : GlobalName} {type type' : IrType} {length length' : Int}

theorem array_mem_header (h : Completes p c l lines) (hline : .array name type length ∈ lines) :
    (name, .array type length) ∈ l.header.flatMap Line.declares := by
  rw [h.lines_eq, List.mem_append, List.mem_append] at hline
  rcases hline with (hline | hline) | hline
  · simp [RuntimeSymbols.prologue] at hline
  · exact List.mem_flatMap.mpr ⟨_, hline, List.mem_singleton_self _⟩
  · obtain ⟨d, hd, hline⟩ := List.mem_flatMap.mp hline
    have hclosed := h.finished.closed d hd
    have hlines : d.toDefinition.lines = [d.opening] ++ d.body ++ [.close] := rfl
    simp only [hlines, List.mem_append, List.mem_singleton, reduceCtorEq, or_false] at hline
    rcases hline with hopening | hbody
    · have hopens := hclosed.opens
      rw [← hopening] at hopens
      cases hopens
    · cases hclosed.isCode _ hbody

theorem array_unique (h : Completes p c l lines) (hline : .array name type length ∈ lines)
    (hline' : .array name type' length' ∈ lines) : type' = type ∧ length' = length := by
  have heq := List.inj_on_of_nodup_map h.linked.stores.nodup (h.array_mem_header hline')
    (h.array_mem_header hline) rfl
  simpa using heq

/-- Everywhere in the program, addresses of elements are computed in bounds. -/
theorem addressed (h : Completes p c l lines) : Addressed lines := by
  rw [h.lines_eq]
  apply Addressed.append
  · apply Addressed.of_isElement
    intro line hline
    exact Line.isElement_of_isCode (h.linked.lays.isPreamble.isCode line hline)
  · apply Addressed.flatMap
    intro d hd
    have hclosed := h.finished.closed d hd
    have hlines : d.toDefinition.lines =
        (d.opening :: d.slots.map .instr) ++ (d.code ++ [.close]) := by
      simp [Draft.toDefinition, Definition.lines, Draft.body]
    rw [hlines]
    refine .append (.of_isElement ?_) ((h.typed hd).addressed.append (.other rfl .nil))
    intro line hline
    rcases List.mem_cons.mp hline with rfl | hline
    · have hopens := hclosed.opens
      cases hopening : d.opening <;> simp [hopening, Line.opens, Line.isElement] at hopens ⊢
    · obtain ⟨i, hi, rfl⟩ := List.mem_map.mp hline
      have hsetup := hclosed.setup i hi
      cases i <;> simp [Instr.IsSetup, Line.isElement] at hsetup ⊢

end Completes

end Compilation

/-- Arrays are declared and addressed within bounds. -/
theorem compile_bounds_arrays {file : String} {commands : List Command} {symbols : RuntimeSymbols}
    {lines : List Line} (h : compile file commands symbols = .ok lines)
    (hnamed : ∀ cmd ∈ commands, cmd.Named) :
    (∀ c cmd, Compilation.ArrayAt file symbols commands c cmd →
      Compilation.HasArray lines c cmd) ∧
    (∀ name type length, .array name type length ∈ lines → ∃ c cmd,
      Compilation.ArrayAt file symbols commands c cmd ∧
        .array name type length = c.arrayLine cmd) ∧
    ∀ front rest n type length array wide,
      lines = front ++ .instr (.element n type length array wide) :: rest →
        (∃ front' index, front = front' ++ [.instr (.extend wide index)] ∧ index.Within length) ∧
        .array array type length ∈ lines ∧
        ∀ type' length', .array array type' length' ∈ lines → type' = type ∧ length' = length := by
  obtain ⟨c, l, e, hlinked, hsymbols, hfinish, coming, hreaches⟩ :=
    Compilation.exists_linked (p := False) False.elim hnamed h
  have hcompletes := hlinked.completes hfinish
  refine ⟨fun c cmd hc => hc.hasArray h, ?_, ?_⟩
  · intro name type length hline
    have hdeclares := hcompletes.array_mem_header hline
    obtain ⟨owner, x, rfl⟩ := hlinked.stores.arrays _ _ _ hdeclares
    obtain ⟨owner', x', g, hg, ⟨harray, heq⟩ | ⟨-, v, heq, -⟩⟩ := hlinked.stores.bound _ hdeclares
    · cases heq
      obtain ⟨place, hplace, rfl, rfl⟩ := hreaches.consistent.keyed.of_storage? hg
      obtain ⟨c₀, cmd, hc₀, hinst, hname⟩ := hreaches.exists_arrayAt place g hplace harray
      have hdeclared := (hc₀.hasArray h).declared
      rw [Compilation.arrayLine, ← hinst, ← hname] at hdeclared
      obtain ⟨htype, hlength⟩ := hcompletes.array_unique hdeclared hline
      exact ⟨c₀, cmd, hc₀, by rw [Compilation.arrayLine, hinst, hname, htype, hlength]⟩
    · cases heq
  · intro front rest n type length array wide hsplit
    have haddressed := hcompletes.addressed
    rw [hsplit] at haddressed
    have helement : .instr (.element n type length array wide) ∈ lines := by simp [hsplit]
    have huse := hcompletes.symbolUses_declared helement (List.mem_singleton_self _)
    obtain ⟨line, hline, hdeclares⟩ := List.mem_flatMap.mp huse
    rw [Line.eq_array_of_declares hdeclares] at hline
    exact ⟨haddressed.exists_extend, hline, fun _ _ => hcompletes.array_unique hline⟩

/-- A class with an array, an instance of it, and a program that reads an element at an index that
is an element itself. -/
def arrayStream : List Command :=
  [{ kind := .beginClass, name := "P" },
    { kind := .declareArray, name := "a", type := .int, length := 2 }, { kind := .endClass },
    { kind := .declareInstance, name := "p", target := "P" },
    { kind := .int, text := "0" }, { kind := .int, text := "1" },
    { kind := .declareArray, name := "b", type := .int, count := 2 },
    { kind := .int, text := "1" }, { kind := .element, name := "b" },
    { kind := .element, name := "b" }, { kind := .print }, { kind := .endProgram }]

theorem compile_bounds_arrays_sample : ∃ lines,
    compile "sample.mk" arrayStream .standard = .ok lines ∧ lines.countP Line.isElement = 4 ∧
    ∀ name type length, .array name type length ∈ lines → 0 < length := by
  have h : ((compile "sample.mk" arrayStream .standard).map fun lines =>
      lines.countP Line.isElement).toOption = some 4 := by
    decide +kernel
  cases hlines : compile "sample.mk" arrayStream .standard with
  | error e =>
    rw [hlines] at h
    cases h
  | ok lines =>
    rw [hlines] at h
    obtain ⟨hhas, hfrom, -⟩ := compile_bounds_arrays hlines (by decide +kernel)
    refine ⟨lines, rfl, Option.some.inj h, ?_⟩
    intro name type length hline
    obtain ⟨c, cmd, hc, heq⟩ := hfrom name type length hline
    cases heq
    exact (hhas c cmd hc).positive

end MkCompiler
