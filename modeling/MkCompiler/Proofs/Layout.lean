import MkCompiler.Proofs.Emission
import MkCompiler.Proofs.Program

/-!
# Layout of the output

The output of the emitter, seen as what it is going to be: the definitions that are closed, the one
that is being written, and the entry point, which waits while a function is open. A body consists of
the named slots at its top and of the code behind them; the mark of a context lies between the two.
An emitter `Lays` out a layout if its sections, marks and numberings are those of the layout. Every
operation that succeeds keeps this up, and what it does to the layout is all there is to say about
the text it writes.
-/

namespace MkCompiler

/-- An instruction that may stand among the slots of a body: it allocates a named slot or stores an
incoming argument in one. -/
def Instr.IsSetup (i : Instr) : Prop :=
  (∃ name version type, i = .alloca (.slot name version) type) ∨
    ∃ type n name version, i = .store type (.number n) (.frame (.slot name version))

theorem Cell.part_symbol (c : Cell) : c.symbol.part = .storage := by
  unfold symbol
  split <;> rfl

theorem Line.isStorage_cell (c : Cell) (type : IrType) (zero : String) :
    (Line.cell c.symbol type zero).isStorage = true :=
  decide_eq_true c.part_symbol

theorem Line.isStorage_array (c : Cell) (type : IrType) (length : Int) :
    (Line.array c.symbol type length).isStorage = true :=
  decide_eq_true c.part_symbol

theorem Instr.IsSetup.isTerminator {i : Instr} (h : i.IsSetup) : i.isTerminator = false := by
  rcases h with ⟨_, _, _, rfl⟩ | ⟨_, _, _, _, rfl⟩ <;> rfl

structure Draft where
  opening : Line
  /-- What stands in front of the mark for slots: slots and the stores of incoming arguments. -/
  slots : List Instr
  code : List Line

namespace Draft

def body (d : Draft) : List Line :=
  d.slots.map .instr ++ d.code

def toDefinition (d : Draft) : Definition :=
  ⟨d.opening, d.body⟩

/-- A body that has been closed: its code is numbered and ends in a terminator. -/
structure Closed (d : Draft) : Prop where
  opens : d.opening.opens = true
  setup : ∀ i ∈ d.slots, i.IsSetup
  reads : ∃ n, (Counter.start d.opening.arity).Reads d.code ⟨n, true⟩

end Draft

/-- The output as the definitions it is made of. -/
structure Layout where
  header : List Line
  closed : List Draft
  /-- The entry point while a function is open. -/
  suspended : Option Draft
  /-- The definition that receives instructions. -/
  active : Draft

namespace Layout

variable (l : Layout)

def closedLines : List Line :=
  l.closed.flatMap fun d => d.toDefinition.lines

def target : Section :=
  match l.suspended with
  | none => .entryBody
  | some _ => .functions

def before : List Line :=
  match l.suspended with
  | none => []
  | some _ => l.closedLines ++ [l.active.opening]

def assembly (prologue : List Line) : Assembly Line where
  prologue
  header := l.header
  entryDeclaration := [.defineEntry]
  entryBody :=
    match l.suspended with
    | none => l.active.body
    | some d => d.body
  functions :=
    match l.suspended with
    | none => l.closedLines
    | some _ => l.before ++ l.active.body
  routing := .direct l.target

def grow (header : List Line) (slots : List Instr) (code : List Line) : Layout :=
  { l with
    header := l.header ++ header
    active := { l.active with slots := l.active.slots ++ slots, code := l.active.code ++ code } }

def enter (opening : Line) (slots : List Instr) : Layout :=
  { l with suspended := some l.active, active := ⟨opening, slots, []⟩ }

def leave (entry : Draft) : Layout :=
  { l with closed := l.closed ++ [l.active], suspended := none, active := entry }

/-- All definitions of a layout, whatever their order. -/
def drafts : List Draft :=
  l.active :: l.suspended.toList ++ l.closed

@[simp] theorem grow_nil : l.grow [] [] [] = l := by
  simp [grow]

@[simp] theorem grow_grow (h h' : List Line) (s s' : List Instr) (c c' : List Line) :
    (l.grow h s c).grow h' s' c' = l.grow (h ++ h') (s ++ s') (c ++ c') := by
  simp [grow]

@[simp] theorem closed_grow (h : List Line) (s : List Instr) (c : List Line) :
    (l.grow h s c).closed = l.closed := rfl

@[simp] theorem suspended_grow (h : List Line) (s : List Instr) (c : List Line) :
    (l.grow h s c).suspended = l.suspended := rfl

@[simp] theorem opening_grow (h : List Line) (s : List Instr) (c : List Line) :
    (l.grow h s c).active.opening = l.active.opening := rfl

variable (prologue : List Line)

theorem append_assembly (code : List Line) :
    (l.assembly prologue).append code = (l.grow [] [] code).assembly prologue := by
  obtain ⟨header, closed, suspended, active⟩ := l
  cases suspended <;>
    simp [assembly, grow, Assembly.append, Assembly.appendTo, Assembly.setContent,
      Assembly.content, target, Draft.body, before, closedLines]

theorem appendTo_header_assembly (line : Line) :
    (l.assembly prologue).appendTo .header [line] = (l.grow [line] [] []).assembly prologue := by
  obtain ⟨header, closed, suspended, active⟩ := l
  cases suspended <;>
    simp [assembly, grow, Assembly.appendTo, Assembly.setContent, Assembly.content, target,
      before, closedLines]

theorem content_assembly : (l.assembly prologue).content l.target =
    (l.before ++ l.active.slots.map .instr) ++ l.active.code := by
  obtain ⟨header, closed, suspended, active⟩ := l
  cases suspended <;> simp [assembly, Assembly.content, target, Draft.body, before]

theorem setContent_assembly (i : Instr) :
    (l.assembly prologue).setContent
        (l.before ++ l.active.slots.map .instr ++ [.instr i] ++ l.active.code) l.target =
      (l.grow [] [i] []).assembly prologue := by
  obtain ⟨header, closed, suspended, active⟩ := l
  cases suspended <;>
    simp [assembly, grow, Assembly.setContent, target, Draft.body, before, closedLines]

/-- An insertion at the mark of the active body adds a slot to it. -/
theorem insert_assembly (i : Instr) :
    Assembly.insert ⟨l.target, (l.before.length + l.active.slots.length : Nat)⟩ [.instr i]
        (l.assembly prologue) =
      .ok ⟨l.target, (l.before.length + (l.active.slots.length + 1) : Nat)⟩
        ((l.grow [] [i] []).assembly prologue) := by
  have hn : (l.before ++ l.active.slots.map Line.instr).length =
      l.before.length + l.active.slots.length := by simp
  have hassigned : l.target.isAssigned = true := by
    unfold target
    split <;> rfl
  have hle : ¬(((l.assembly prologue).content l.target).length : Int) <
      (l.before.length + l.active.slots.length : Nat) := by
    rw [content_assembly, List.length_append, hn]
    omega
  refine Action.bind_eq_ok.mpr ⟨_, _, rfl, ?_⟩
  dsimp only
  rw [if_neg (by simp [hassigned]), if_neg hle, if_neg (by omega)]
  refine Action.bind_eq_ok.mpr ⟨(), _, rfl, ?_⟩
  rw [Int.toNat_natCast, ← hn, content_assembly, List.take_left, List.drop_left,
    setContent_assembly]
  change EStateM.Result.ok _ _ = _
  simp
  omega

theorem enter_assembly (h : l.suspended = none) (opening : Line) (slots : List Instr) :
    ((l.assembly prologue).select .functions).append (opening :: slots.map .instr) =
      (l.enter opening slots).assembly prologue := by
  simp [assembly, Assembly.select, Assembly.append, Assembly.appendTo, Assembly.setContent,
    Assembly.content, enter, target, before, closedLines, Draft.body, h]

theorem leave_assembly {d : Draft} (h : l.suspended = some d) :
    ((l.assembly prologue).append [.close]).select .entryBody =
      (l.leave d).assembly prologue := by
  simp [assembly, Assembly.select, Assembly.append, Assembly.appendTo, Assembly.setContent,
    Assembly.content, leave, target, before, closedLines, Draft.body, Draft.toDefinition,
    Definition.lines, h]

theorem pieces_assembly (h : l.suspended = none) (hopening : l.active.opening = .defineEntry) :
    ((l.assembly prologue).append [.close]).pieces = prologue ++ l.header ++
      (l.active :: l.closed).flatMap fun d => d.toDefinition.lines := by
  simp [assembly, Assembly.append, Assembly.appendTo, Assembly.setContent, Assembly.content,
    Assembly.pieces, target, closedLines, Draft.toDefinition, Definition.lines, h, hopening]

end Layout

/-- The mark and the numbering of a context are those of a body that stands behind `before`. -/
structure FunctionContext.Lays (c : FunctionContext) (target : Section) (before : List Line)
    (d : Draft) : Prop where
  target_eq : c.target = target
  slots_eq : c.slots = ⟨target, (before.length + d.slots.length : Nat)⟩
  setup : ∀ i ∈ d.slots, i.IsSetup
  reads : (Counter.start d.opening.arity).Reads d.code c.counter

def Emitter.EntryLays (e : Emitter) (l : Layout) : Prop :=
  match l.suspended with
  | none => e.function = none ∧ l.active.opening = .defineEntry
  | some d => e.function.isSome = true ∧ l.active.opening.opens = true ∧
      d.opening = .defineEntry ∧ e.entry.Lays .entryBody [] d

structure Emitter.Lays (e : Emitter) (l : Layout) : Prop where
  output : e.output = l.assembly e.symbols.prologue
  header : ∀ line ∈ l.header, line.isStorage = true
  closed : ∀ d ∈ l.closed, d.Closed
  active : e.active.Lays l.target l.before l.active
  entry : e.EntryLays l

namespace Emitter

open MkCompiler.Action

variable {e e' : Emitter} {l : Layout}

theorem Lays.suspended_eq_none (h : e.Lays l) (hf : e.function = none) : l.suspended = none := by
  have he := h.entry
  unfold EntryLays at he
  cases hs : l.suspended with
  | none => rfl
  | some d => simp [hs, hf] at he

theorem Lays.exists_suspended (h : e.Lays l) (hf : e.function.isSome = true) :
    ∃ d, l.suspended = some d ∧ d.opening = .defineEntry ∧ l.active.opening.opens = true ∧
      e.entry.Lays .entryBody [] d := by
  have he := h.entry
  unfold EntryLays at he
  cases hs : l.suspended with
  | none =>
    rw [hs] at he
    simp [he.1] at hf
  | some d =>
    rw [hs] at he
    exact ⟨d, rfl, he.2.2.1, he.2.1, he.2.2.2⟩

theorem entryLays_modifyActive (h : e.EntryLays l) (c : FunctionContext) (o : Assembly Line)
    (header : List Line) (slots : List Instr) (code : List Line) :
    ({ modifyActive (fun _ => c) e with output := o } : Emitter).EntryLays
      (l.grow header slots code) := by
  unfold EntryLays at *
  unfold modifyActive
  rw [Layout.suspended_grow, Layout.opening_grow]
  cases hs : l.suspended with
  | none =>
    rw [hs] at h
    simpa [h.1] using h.2
  | some d =>
    rw [hs] at h
    obtain ⟨hf, hrest⟩ := h
    obtain ⟨f, hf⟩ := Option.isSome_iff_exists.mp hf
    simpa [hf] using hrest

/-- A change of the active context and of the output that keeps to the layout. -/
theorem Lays.grow (h : e.Lays l) (c : FunctionContext) (header : List Line) (slots : List Instr)
    (code : List Line) (hheader : ∀ line ∈ header, line.isStorage = true)
    (hc : c.Lays l.target l.before (l.grow header slots code).active) :
    ({ modifyActive (fun _ => c) e with
      output := (l.grow header slots code).assembly e.symbols.prologue } : Emitter).Lays
        (l.grow header slots code) where
  output := by simp
  header := by
    intro line hline
    rcases List.mem_append.mp hline with hline | hline
    · exact h.header line hline
    · exact hheader line hline
  closed := h.closed
  active := by
    have ha : ({ modifyActive (fun _ => c) e with
        output := (l.grow header slots code).assembly e.symbols.prologue } : Emitter).active = c :=
      active_modifyActive e fun _ => c
    rw [ha]
    exact hc
  entry := entryLays_modifyActive h.entry c _ header slots code

theorem Lays.write (h : e.Lays l) {code : List Line} {k : Counter}
    (hk : e.active.counter.Reads code k) : (e.write code k).Lays (l.grow [] [] code) := by
  have hw : e.write code k = { modifyActive (fun _ => e.active.setCounter k) e with
      output := (l.grow [] [] code).assembly e.symbols.prologue } := by
    rw [← Layout.append_assembly, ← h.output]
    exact write_eq code k e
  rw [hw]
  refine h.grow _ [] [] code (by simp) ⟨h.active.target_eq, ?_, ?_, h.active.reads.append hk⟩
  · simpa [Layout.grow] using h.active.slots_eq
  · simpa [Layout.grow] using h.active.setup

theorem modifyActive_withOutput (f : FunctionContext → FunctionContext) (e : Emitter)
    (o : Assembly Line) : modifyActive f { e with output := o } =
      { modifyActive (fun _ => f e.active) e with output := o } := by
  unfold modifyActive Emitter.active
  cases e.function <;> rfl

theorem modifyActive_eq (f : FunctionContext → FunctionContext) (e : Emitter) :
    modifyActive f e = { modifyActive (fun _ => f e.active) e with output := e.output } :=
  modifyActive_withOutput f e e.output

theorem Lays.modifyActive (h : e.Lays l) {f : FunctionContext → FunctionContext}
    (ht : (f e.active).target = e.active.target) (hs : (f e.active).slots = e.active.slots)
    (hk : (f e.active).counter = e.active.counter) : (modifyActive f e).Lays l := by
  have hc : (f e.active).Lays l.target l.before (l.grow [] [] []).active := by
    rw [Layout.grow_nil]
    exact ⟨ht ▸ h.active.target_eq, hs ▸ h.active.slots_eq, h.active.setup, hk ▸ h.active.reads⟩
  have hg := h.grow (f e.active) [] [] [] (by simp) hc
  rw [Layout.grow_nil, ← h.output, ← modifyActive_eq] at hg
  exact hg

theorem Lays.withLabels (h : e.Lays l) (n : Nat) : ({ e with labels := n } : Emitter).Lays l :=
  ⟨h.output, h.header, h.closed, h.active, h.entry⟩

theorem Lays.enter (h : e.Lays l) (hnone : e.function = none) {f : OpenFunction} {opening : Line}
    {slots : List Instr} (hopens : opening.opens = true)
    (hf : f.context.Lays .functions (l.enter opening slots).before ⟨opening, slots, []⟩) :
    ({ e with
      function := some f
      output := (l.enter opening slots).assembly e.symbols.prologue } : Emitter).Lays
        (l.enter opening slots) where
  output := rfl
  header := h.header
  closed := h.closed
  active := hf
  entry := by
    have hs := h.suspended_eq_none hnone
    have he := h.entry
    have ha := h.active
    unfold EntryLays at he
    unfold Emitter.active Layout.target Layout.before at ha
    rw [hs] at he
    rw [hs, hnone] at ha
    exact ⟨rfl, hopens, he.2, ha⟩

theorem Lays.leave (h : e.Lays l) (hsome : e.function.isSome = true)
    (hclosed : l.active.Closed) {d : Draft} (hd : l.suspended = some d) :
    ({ e with
      function := none
      output := (l.leave d).assembly e.symbols.prologue } : Emitter).Lays (l.leave d) where
  output := rfl
  header := h.header
  closed := by
    intro d' hd'
    rcases List.mem_append.mp hd' with hd' | hd'
    · exact h.closed d' hd'
    · rw [List.mem_singleton.mp hd']
      exact hclosed
  active := by
    obtain ⟨d', hd', -, -, hentry⟩ := h.exists_suspended hsome
    obtain rfl : d = d' := Option.some.inj (hd.symm.trans hd')
    exact hentry
  entry := by
    obtain ⟨d', hd', hopening, -, -⟩ := h.exists_suspended hsome
    obtain rfl : d = d' := Option.some.inj (hd.symm.trans hd')
    exact ⟨rfl, hopening⟩

/-! ## Straight steps -/

/-- A step that neither opens nor closes anything: it changes the active context only, leaves its
control constructs alone, and adds storage, slots and instructions that are no terminators. -/
structure Straight (e e' : Emitter) : Prop where
  frame : ∃ c o, e' = { modifyActive (fun _ => c) e with output := o } ∧
    c.pending = e.active.pending ∧ c.openCompare = e.active.openCompare
  layout : ∀ l, e.Lays l → ∃ (header : List Line) (slots code : List Instr),
    (∀ i ∈ code, i.isTerminator = false) ∧ e'.Lays (l.grow header slots (code.map .instr))

instance : IsPreorder Emitter Straight where
  refl e := by
    refine ⟨⟨e.active, e.output, ?_, rfl, rfl⟩, fun l h => ⟨[], [], [], by simp, by simpa using h⟩⟩
    rw [modifyActive_active]
  trans := by
    rintro e e' e'' ⟨⟨c, o, rfl, hp, ho⟩, hl⟩ ⟨⟨c', o', rfl, hp', ho'⟩, hl'⟩
    refine ⟨⟨c', o', ?_, ?_, ?_⟩, ?_⟩
    · obtain ⟨_, _, _, function, _, _⟩ := e
      cases function <;> rfl
    · rw [hp', ← hp]
      exact congrArg FunctionContext.pending (active_modifyActive e fun _ => c)
    · rw [ho', ← ho]
      exact congrArg FunctionContext.openCompare (active_modifyActive e fun _ => c)
    · intro l h
      obtain ⟨header, slots, code, hcode, h⟩ := hl l h
      obtain ⟨header', slots', code', hcode', h⟩ := hl' _ h
      refine ⟨header ++ header', slots ++ slots', code ++ code', ?_, by simpa using h⟩
      simpa [or_imp, forall_and] using ⟨hcode, hcode'⟩

theorem Extends.straight (h : Extends e e') : Straight e e' := by
  obtain ⟨code, k, hcode, hk, rfl⟩ := h
  refine ⟨⟨e.active.setCounter k, e.output.append (code.map .instr), ?_, rfl, rfl⟩, ?_⟩
  · exact write_eq _ k e
  · intro l hl
    exact ⟨[], [], code, hcode, hl.write hk⟩

/-- A named slot is allocated behind the ones the function has. -/
theorem ensures_hoist (name : String) (version : Int) (type : DataType) (e : Emitter) :
    Ensures (hoist (.slot name version) type) e fun _ e' => ∃ slots o,
      e' = { modifyActive (fun _ => { e.active with slots }) e with output := o } ∧
        ∀ l, e.Lays l → e'.Lays (l.grow [] [.alloca (.slot name version) type.irType] []) := by
  refine ensures_bind.mpr (ensures_get.mpr (ensures_bind.mpr (ensures_zoom.mpr ?_)))
  intro slots o ho
  rw [ensures_modify, modifyActive_withOutput]
  refine ⟨slots, o, rfl, ?_⟩
  intro l hl
  rw [hl.active.slots_eq, hl.output, Layout.insert_assembly] at ho
  obtain ⟨rfl, rfl⟩ := EStateM.Result.ok.inj ho
  refine hl.grow _ [] _ [] (by simp) ⟨hl.active.target_eq, by simp [Layout.grow], ?_, ?_⟩
  · intro i hi
    rcases List.mem_append.mp hi with hi | hi
    · exact hl.active.setup i hi
    · exact .inl ⟨_, _, _, List.mem_singleton.mp hi⟩
  · simpa [Layout.grow, FunctionContext.counter] using hl.active.reads

theorem straight_hoist (name : String) (version : Int) (type : DataType) :
    Moves Straight (hoist (.slot name version) type) := by
  intro e
  refine (ensures_hoist name version type e).mono ?_
  rintro _ _ ⟨slots, o, rfl, hl⟩
  exact ⟨⟨_, o, rfl, rfl, rfl⟩, fun l h => ⟨[], _, [], by simp, hl l h⟩⟩

theorem Lays.appendHeader {line : Line} (h : line.isStorage = true) (hl : e.Lays l) :
    (appendHeader line e).Lays (l.grow [line] [] []) := by
  have hg := hl.grow e.active [line] [] [] (by simpa using h)
    (by simpa [Layout.grow] using hl.active)
  rw [modifyActive_active, ← Layout.appendTo_header_assembly, ← hl.output] at hg
  exact hg

theorem straight_header {line : Line} (h : line.isStorage = true) (e : Emitter) :
    Straight e (appendHeader line e) := by
  refine ⟨⟨e.active, e.output.appendTo .header [line], ?_, rfl, rfl⟩, ?_⟩
  · rw [modifyActive_active]
    rfl
  · intro l hl
    exact ⟨[line], [], [], by simp, hl.appendHeader h⟩

theorem straight_results (name : String) (e : Emitter) :
    Straight e (modifyActive (fun c => { c with results := c.results ++ [name] }) e) := by
  refine ⟨⟨_, _, modifyActive_eq _ e, rfl, rfl⟩, ?_⟩
  intro l hl
  refine ⟨[], [], [], by simp, ?_⟩
  simpa using hl.modifyActive rfl rfl rfl

end Emitter

end MkCompiler
