import MkCompiler.Proofs.Coherence
import MkCompiler.Proofs.Shadowing
import MkCompiler.Proofs.StorageLines

/-!
# Variables along a program

What each notification does to the variables of a program can be told from the notification, the
operand on top of the stack and the scopes. The compilation follows this account: variables are
bound and get their cells as the events say, and a value that is assigned or scanned is stored in
the cell of the binding that is installed for it.
-/

namespace MkCompiler

open MkCompiler.Action

namespace SymbolTable

def placeOf? (t : SymbolTable) (name : String) : Option Place :=
  (t.candidates name).find? fun x => (t.binding? x).isSome

theorem Keyed.placeOf?_eq {t : SymbolTable} {name : String} {b : Binding} (hk : t.Keyed)
    (hb : t.resolve? name = some b) (hkind : b.kind = .variable) :
    t.placeOf? name = some b.place := by
  rw [resolve?_eq_head?, meanings, List.head?_filterMap, List.findSome?_eq_some_iff] at hb
  obtain ⟨front, x, rest, hcandidates, hbound, hfront⟩ := hb
  obtain rfl := hk.place_eq_of_variable hbound hkind
  refine List.find?_eq_some_iff_append.mpr ⟨by simp [hbound], front, rest, hcandidates, ?_⟩
  intro y hy
  simp [hfront y hy]

end SymbolTable

namespace Compilation

variable {c c' : Compilation} {l : Layout} {log : List Event} {x : Place} {b : Binding}

/-! ## Events -/

def newPlace (c : Compilation) (name : String) : Place :=
  if c.emitter.inFunction then .slot name
  else
    match c.table.instance? with
    | some inst => .field inst.name name
    | none => .program name

def givenType? (c : Compilation) : Option DataType :=
  c.stack.head?.map fun op => op.type.storage

/-- What a notification does to variables. Nothing happens to them while a class is recorded. -/
def events (cmd : Command) (c : Compilation) : List Event :=
  if c.recording.isSome then []
  else
    match cmd.kind with
    | .declareVariable =>
      if cmd.hasInit then
        c.givenType?.toList.flatMap fun type =>
          [.declare (c.newPlace cmd.name) type, .assign (c.newPlace cmd.name) type]
      else [.declare (c.newPlace cmd.name) .int]
    | .assign => (Option.map₂ Event.assign (c.table.placeOf? cmd.name) c.givenType?).toList
    | .assignMember => (c.givenType?.map (Event.assign (.field cmd.target cmd.name))).toList
    | .scan => ((c.table.placeOf? cmd.name).map fun x => Event.assign x cmd.type.storage).toList
    | .declareFunction => cmd.params.map fun p => .declare (.slot p.name) p.type.storage
    | _ => []

/-- A value has been stored, in the cell of the binding that has been installed. -/
structure Stores (c c' : Compilation) (x : Place) (b : Binding) : Prop where
  bound : c'.table.binding? x = some b
  code : ∃ code, c'.emitter.code = c.emitter.code ++ code ∧ b.Receives code

/-- The variables have come through some events, and have their cells in a layout of the output. -/
structure Charts (c : Compilation) (l : Layout) (log : List Event) : Prop where
  lays : c.emitter.Lays l
  charted : c.table.Charted l.cells log

/-- Some more events happen, and each value that is given is stored. -/
structure Undergoes (c : Compilation) (log events : List Event) (c' : Compilation) : Prop where
  charts : ∃ l, c'.Charts l (log ++ events)
  stores : ∀ x type, .assign x type ∈ events → ∃ b, b.type.storage = type ∧ c.Stores c' x b

/-! ## Assignments and scans -/

theorem Undergoes.single {type : DataType} (hcharts : ∃ l, c'.Charts l (log ++ [.assign x type]))
    (hstores : ∃ b, b.type.storage = type ∧ c.Stores c' x b) :
    c.Undergoes log [.assign x type] c' := by
  refine ⟨hcharts, ?_⟩
  intro y type' hmem
  obtain ⟨rfl, rfl⟩ := Event.assign.inj (List.mem_singleton.mp hmem)
  exact hstores

/-- The binding that a value has been stored for is installed. -/
theorem Charts.installed (h : c.Charts l log) (hk : c.table.Keyed)
    (hb : c.table.binding? x = some b) {type : DataType} {C : Pointer → List Line → Prop}
    {b' : Binding} {e : Emitter} (ha : c.emitter.Assigns b type C b' e)
    (hreceives : ∀ {code}, C (b.rebound type).pointer code → (b.rebound type).Receives code) :
    Ensures (onTable (SymbolTable.rebind b')) { c with emitter := e } fun _ c' =>
      b.kind = .variable ∧ (∃ l', c'.Charts l' (log ++ [.assign x type.storage])) ∧
        c.Stores c' x (b.rebound type) := by
  obtain ⟨code, hadds, hcode⟩ := ha.adds
  obtain rfl := ha.bound
  have hplace := hk.place_eq_of_variable hb ha.kind
  have hplace' : (b.rebound type).place = x := (b.place_rebound type).trans hplace
  have hscoped : (b.rebound type).Scoped c.table :=
    SymbolTable.scoped_of_binding? (by rw [hplace', hb]; rfl)
  have hbinds : c.table.BindsAt x (b.rebound type) (c.table.install (b.rebound type)) :=
    fun y => by rw [SymbolTable.binding?_install hscoped, hplace']
  rw [onTable, ensures_zoom]
  refine (SymbolTable.ensures_rebind _ _).mono ?_
  rintro _ _ rfl
  refine ⟨ha.kind, ⟨_, hadds.layout l h.lays, ?_⟩, by simp [hbinds x], code,
    hadds.code_eq h.lays, hreceives hcode⟩
  apply h.charted.assign hb ha.kind hbinds ha.lowered
  intro y _
  rw [h.lays.cells_grow ha.inside, Binding.cells_added ha.kind, hplace]

theorem Charts.assignTo (h : c.Charts l log) (hk : c.table.Keyed)
    (hb : c.table.binding? x = some b) (value : Operand) :
    Ensures (assignTo b value) c fun _ c' =>
      b.kind = .variable ∧ (∃ l', c'.Charts l' (log ++ [.assign x value.type.storage])) ∧
        c.Stores c' x (b.rebound value.type) := by
  rw [Compilation.assignTo, ensures_bind, onEmitter, ensures_zoom]
  refine (Emitter.assigns_assign (hk.kinds x b hb) value _).mono ?_
  intro b' e ha
  exact h.installed hk hb ha Emitter.StoresCode.receives

theorem Charts.assign (h : c.Charts l log) (hk : c.table.Keyed) (name : String) :
    Ensures (assign name) c fun _ c' => c.Undergoes log
      (Option.map₂ Event.assign (c.table.placeOf? name) c.givenType?).toList c' := by
  rw [Compilation.assign, ensures_bind]
  refine (ensures_pop c).mono ?_
  rintro value _ ⟨stack, hstack, rfl⟩
  rw [ensures_bind, onTable, ensures_zoom]
  refine (SymbolTable.ensures_lookup name c.table).mono ?_
  rintro b _ ⟨rfl, hb⟩
  obtain ⟨x, hx, -⟩ := SymbolTable.exists_binding?_of_resolve? hb
  have hcharts : Charts { c with stack } l log := ⟨h.lays, h.charted⟩
  refine (hcharts.assignTo hk hx value).mono ?_
  rintro _ c' ⟨hkind, hcharts', hstores⟩
  rw [hk.placeOf?_eq hb hkind, hk.place_eq_of_variable hx hkind, givenType?, hstack]
  exact .single hcharts' ⟨_, b.storage_rebound _, hstores.bound, hstores.code⟩

theorem Charts.assignMember (h : c.Charts l log) (hk : c.table.Keyed) (inst field : String) :
    Ensures (assignMember inst field) c fun _ c' => c.Undergoes log
      (c.givenType?.map (Event.assign (.field inst field))).toList c' := by
  rw [Compilation.assignMember, ensures_bind]
  refine (ensures_pop c).mono ?_
  rintro value _ ⟨stack, hstack, rfl⟩
  rw [ensures_bind]
  refine (ensures_instanceField_bound inst field _).mono ?_
  rintro g _ ⟨rfl, hg⟩
  have hcharts : Charts { c with stack } l log := ⟨h.lays, h.charted⟩
  refine (hcharts.assignTo hk hg value).mono ?_
  rintro _ c' ⟨-, hcharts', hstores⟩
  rw [givenType?, hstack]
  exact .single hcharts' ⟨_, (Binding.global g).storage_rebound _, hstores.bound, hstores.code⟩

theorem Charts.scan (h : c.Charts l log) (hk : c.table.Keyed) (type : DataType) (name : String) :
    Ensures (scan type name) c fun _ c' => c.Undergoes log
      ((c.table.placeOf? name).map fun x => Event.assign x type.storage).toList c' := by
  rw [Compilation.scan, ensures_bind, requireScalar, ensures_require]
  intro _
  rw [ensures_bind, onTable, ensures_zoom]
  refine (SymbolTable.ensures_lookup name c.table).mono ?_
  rintro b _ ⟨rfl, hb⟩
  obtain ⟨x, hx, -⟩ := SymbolTable.exists_binding?_of_resolve? hb
  rw [ensures_bind, onEmitter, ensures_zoom]
  refine (Emitter.assigns_scan (hk.kinds x b hx) type _).mono ?_
  intro b' e ha
  refine (h.installed hk hx ha Emitter.ScansCode.receives).mono ?_
  rintro _ c' ⟨hkind, hcharts, hstores⟩
  rw [DataType.storage_storage] at hcharts
  rw [hk.placeOf?_eq hb hkind, hk.place_eq_of_variable hx hkind]
  refine .single hcharts ⟨_, ?_, hstores⟩
  rw [b.storage_rebound, DataType.storage_storage]

/-! ## Declarations -/

structure Gains (c : Compilation) (log : List Event) (x : Place) (b : Binding) (c' : Compilation) :
    Prop where
  charts : ∃ l, c'.Charts l (log ++ [.declare x b.type.storage])
  bound : c'.table.binding? x = some b
  code : ∃ code, c'.emitter.code = c.emitter.code ++ code ∧
    ∀ target ∈ code.filterMap Line.target?, target = (b.pointer, b.type.irType)

/-- New variables are bound where the compiler looks for them first. -/
theorem place_eq_newPlace {b : Binding} {t : SymbolTable} (hn : c.table.InstancesNamed)
    (h : c.table.Declares c.emitter.inFunction b t) (hkind : b.kind = .variable) :
    b.place = c.newPlace b.name := by
  unfold newPlace
  generalize c.emitter.inFunction = inside at h
  cases h with
  | slot => rfl
  | @field g inst hcurrent hinst _ _ _ hnamed =>
    have hinstance : c.table.instance? = some inst := by
      rw [SymbolTable.instance?, hcurrent, Option.bind_some, hinst]
    rw [hinstance, Binding.place, if_neg (hnamed hkind)]
    dsimp only
    rw [if_neg Bool.false_ne_true, hn _ inst hinst]
    rfl
  | program hprogram hinst =>
    rw [hprogram, Binding.place, if_pos hinst]
    rfl

theorem Charts.declareScalar (h : c.Charts l log) (hk : c.table.Keyed) (name : String)
    (type : DataType) : Ensures (declareScalar name type) c fun b c' =>
      b.type = type ∧ c'.table.Keyed ∧ c.Gains log (c.newPlace name) b c' := by
  refine (ensures_declareScalar hk.names name type).mono ?_
  rintro b _ ⟨t, e, hdeclares, ⟨rfl, rfl, hkind, hversion⟩, hrun, rfl⟩
  obtain ⟨hnew, hbinds⟩ := hdeclares.bindsAt_place hkind
  rw [← place_eq_newPlace hk.names hdeclares hkind]
  obtain ⟨-, hlowered, hinside, hadds⟩ := Emitter.adds_declareStorage b true _ () e hrun
  refine ⟨rfl, hdeclares.keyed hk, ⟨_, hadds.layout l h.lays, ?_⟩, hdeclares.binding?_place hkind,
    _, hadds.code_eq h.lays, b.target_of_zeroing⟩
  apply h.charted.declare hbinds hnew hversion hlowered
  intro y _
  rw [h.lays.cells_grow hinside, Binding.cells_storage hkind, hversion]

theorem Charts.declareVariable (h : c.Charts l log) (hk : c.table.Keyed) (name : String)
    (hasInit : Bool) : Ensures (declareVariable name hasInit) c fun _ c' => c.Undergoes log
      (if hasInit then c.givenType?.toList.flatMap fun type =>
          [.declare (c.newPlace name) type, .assign (c.newPlace name) type]
        else [.declare (c.newPlace name) .int]) c' := by
  rw [Compilation.declareVariable, ensures_ite]
  constructor
  · intro hinit
    rw [if_pos hinit, ensures_bind]
    refine (ensures_pop c).mono ?_
    rintro value _ ⟨stack, hstack, rfl⟩
    have hcharts : Charts { c with stack } l log := ⟨h.lays, h.charted⟩
    rw [ensures_bind]
    intro b c₁ hdeclared
    obtain ⟨htype, hk₁, ⟨l₁, hcharts₁⟩, hb, code₁, hcode₁, htargets⟩ :=
      hcharts.declareScalar hk name value.type b c₁ hdeclared
    refine (hcharts₁.assignTo hk₁ hb value).mono ?_
    rintro _ c₂ ⟨-, hcharts₂, hb₂, code₂, hcode₂, hreceives⟩
    rw [← htype, b.rebound_type] at hb₂ hreceives
    have hevents : (c.givenType?.toList.flatMap fun type =>
        [Event.declare (c.newPlace name) type, .assign (c.newPlace name) type]) =
        [.declare (c.newPlace name) value.type.storage,
          .assign (c.newPlace name) value.type.storage] := by
      simp [givenType?, hstack]
    rw [hevents]
    constructor
    · rw [htype, List.append_assoc] at hcharts₂
      exact hcharts₂
    · intro y type hmem
      obtain ⟨rfl, rfl⟩ : y = c.newPlace name ∧ type = value.type.storage := by simpa using hmem
      refine ⟨b, by rw [htype], hb₂, code₁ ++ code₂, ?_, hreceives.prepend htargets⟩
      rw [hcode₂, hcode₁, List.append_assoc]
  · intro hinit
    rw [if_neg hinit, ensures_bind]
    refine (h.declareScalar hk name .unresolved).mono ?_
    rintro b c₁ ⟨htype, -, hgains⟩
    have hcharts := hgains.charts
    rw [htype] at hcharts
    exact ensures_pure.mpr ⟨hcharts, by simp⟩

theorem Charts.declareArray (h : c.Charts l log) (hk : c.table.Keyed) (name : String)
    (type : DataType) (length count : Int) :
    Ensures (declareArray name type length count) c fun _ c' => ∃ l', c'.Charts l' log := by
  refine (ensures_declareArray hk.names name type length count).mono ?_
  rintro _ _ ⟨elements, stack, g, t, e, -, -, -, -, ⟨inst, id, hg⟩, hdeclares, hrun, rfl⟩
  obtain ⟨l', hl', hcells⟩ := Emitter.sameCells_declareArray g _ elements _ _ e hrun l h.lays
  have hkind : (Binding.global g).kind ≠ .variable := by simp [hg, Binding.kind, Global.ofArray]
  obtain ⟨x, -, hbinds, -⟩ := hdeclares.bindsAt
  have hcharted := (h.charted.array hbinds hkind).array
    (SymbolTable.binding?_install hdeclares.scoped) hkind
  exact ⟨l', hl', hcharted.congr (fun _ _ => rfl) hcells⟩

/-! ## Functions -/

/-- The body of a function or method is opened for some parameters. -/
theorem ensures_openBody_run (name : String) (result : DataType) (params : List Param)
    (c : Compilation) : Ensures (openBody name result params) c fun r c' =>
      ∃ symbol sig, Emitter.openFunction symbol sig params c.emitter = .ok r.2 c'.emitter := by
  rw [openBody, ensures_bind, ensures_get]
  cases c.table.instance? with
  | some inst =>
    dsimp only
    rw [ensures_bind, onTable, ensures_zoom]
    refine SymbolTable.ensures_classAt_nat.mpr ?_
    intro k _
    split
    · exact ensures_throw.mpr trivial
    · next sig _ =>
      rw [ensures_bind, onEmitter, ensures_zoom]
      intro locals e hrun
      exact ensures_pure.mpr ⟨_, sig, hrun⟩
  | none =>
    dsimp only
    rw [ensures_bind]
    intro _ c hrun
    obtain ⟨rfl, -⟩ := (ends_checkSignature _ _ _ _).of_ok hrun
    rw [ensures_bind, onTable, ensures_zoom]
    intro _ t _
    rw [ensures_bind, onEmitter, ensures_zoom]
    intro locals e hrun
    exact ensures_pure.mpr ⟨_, _, hrun⟩

/-- The variables of parameters are declared, each with the slot that its argument is stored in. -/
theorem Charts.declareLocals {opening : Line} {slots : List Instr} {params : List Param}
    (position : Nat) (h : c.table.Charted (l.enter opening slots).cells log)
    (hlowered : ∀ p ∈ params, p.type.isLowered = true) :
    Ensures (declareLocals (params.map Emitter.paramLocal)) c fun _ c' =>
      c'.emitter = c.emitter ∧ c'.table.Charted
        (l.enter opening (slots ++ Emitter.paramCode position params)).cells
        (log ++ params.map fun p => .declare (.slot p.name) p.type.storage) := by
  induction params generalizing c position slots log with
  | nil =>
    refine ensures_pure.mpr ⟨rfl, ?_⟩
    simpa [Emitter.paramCode] using h
  | cons p rest ih =>
    rw [List.map_cons, Compilation.declareLocals, ensures_bind, onTable, ensures_zoom]
    refine (SymbolTable.ensures_declareLocal _ _).mono ?_
    rintro _ _ ⟨rfl, hlocals, hnone⟩
    have hscoped : (Binding.slot (Emitter.paramLocal p)).Scoped c.table := hlocals
    have hnew : c.table.binding? (.slot p.name) = none := by
      have hlocal : c.table.local? p.name = none := hnone
      simp [SymbolTable.binding?, hlocal]
    have hcells (y : Place) : (l.enter opening (slots ++ [.alloca (.slot p.name 0) p.type.irType,
        .store p.type.irType (.number position) (.frame (.slot p.name 0))])).cells y =
        (l.enter opening slots).cells y ++
          if y = .slot p.name then [(0, p.type.irType)] else [] := by
      rw [Layout.cells_enter, Layout.cells_enter]
      cases y with
      | slot name => by_cases hname : name = p.name <;> simp [Place.isSlot, Line.cellOf?, hname]
      | _ => simp [Place.isSlot]
    have hdeclared : (c.table.install (.slot (Emitter.paramLocal p))).Charted _
        (log ++ [.declare (.slot p.name) p.type.storage]) :=
      h.declare (SymbolTable.binding?_install hscoped) hnew rfl (hlowered p (by simp))
        fun y _ => hcells y
    refine (ih (c := { c with table := c.table.install (.slot (Emitter.paramLocal p)) })
      (position + 1) hdeclared fun q hq => hlowered q (by simp [hq])).mono ?_
    rintro _ c' ⟨hemitter, hcharted⟩
    refine ⟨hemitter, ?_⟩
    simpa [Emitter.paramCode] using hcharted

theorem Charts.declareFunction (h : c.Charts l log) (name : String) (result : DataType)
    (params : List Param) : Ensures (declareFunction name result params) c fun _ c' =>
      ∃ l', c'.Charts l' (log ++ params.map fun p => .declare (.slot p.name) p.type.storage) := by
  rw [Compilation.declareFunction, ensures_bind]
  refine (ensures_requireOutside _ c).mono ?_
  rintro _ c ⟨rfl, -⟩
  rw [ensures_bind]
  rintro ⟨sig, locals⟩ c₁ hopened
  have hretains := retains_openBody name result params c _ c₁ hopened
  obtain ⟨symbol, sig', hrun⟩ := ensures_openBody_run name result params c _ c₁ hopened
  obtain ⟨-, _, _, -, -, -, hlays, -, -, hlocals⟩ :=
    Emitter.ensures_openFunction symbol sig' params c.emitter _ _ hrun
  have hlowered := Emitter.ensures_openFunction_lowered symbol sig' params c.emitter _ _ hrun
  dsimp only at hlocals hlowered
  subst hlocals
  rw [ensures_bind, ensures_modify, ensures_bind]
  have hentered : c₁.table.enterFunction.Charted
      (l.enter (.define sig'.result.irType symbol (params.map fun p => p.type.irType)) []).cells
      log := by
    apply h.charted.scope
    · intro x
      rw [← hretains.binding?_eq]
      cases x <;> rfl
    · intro x
      rw [Layout.cells_enter]
      unfold Layout.cells
      cases x.isSlot <;> rfl
  refine (Charts.declareLocals (c := { c₁ with table := c₁.table.enterFunction }) 0 hentered
    (by simpa [Emitter.paramLocal] using hlowered)).mono ?_
  rintro _ c₂ ⟨hemitter, hcharted⟩
  rw [ensures_modify]
  refine ⟨_, ?_, hcharted⟩
  have hlays' := hlays l h.lays
  rw [← hemitter] at hlays'
  exact hlays'

theorem Charts.endFunction (h : c.Charts l log) :
    Ensures endFunction c fun _ c' => ∃ l', c'.Charts l' log := by
  rw [Compilation.endFunction, ensures_bind, ensures_get]
  split
  · exact ensures_reject.mpr trivial
  rw [ensures_bind, ensures_require]
  intro _
  rw [ensures_bind, onEmitter, ensures_zoom]
  refine (Emitter.ensures_endFunction c.emitter).mono ?_
  rintro _ e ⟨f, o, -, -, -, -, hlays⟩
  obtain ⟨d, -, hl⟩ := hlays l h.lays
  rw [ensures_modify]
  refine ⟨_, hl, h.charted.scope ?_ ?_⟩
  · intro x
    cases x <;> rfl
  · intro x
    rw [Layout.cells_leave]
    cases hslot : x.isSlot with
    | true => rfl
    | false => simp [Layout.cells, hslot, Layout.grow]

/-! ## Other notifications -/

theorem ensures_arrayElement_kind (array : String) (index : Operand) (c : Compilation) :
    Ensures (arrayElement array index) c fun g _ => g.kind = .arrayElement := by
  rw [arrayElement, ensures_bind, onTable, ensures_zoom]
  intro b _ _
  rw [onEmitter, ensures_zoom]
  refine (Emitter.ensures_element b index _).mono ?_
  rintro _ e ⟨g, -, -, -, rfl⟩
  rfl

theorem sameCells_assignElement (array : String) :
    Moves (Along Emitter.SameCells) (assignElement array) := by
  refine works_along.popPair.bind ?_
  rintro ⟨index, value⟩ c
  rw [ensures_bind]
  intro g c₁ hg
  have hkind := ensures_arrayElement_kind array index c g c₁ hg
  have hfirst := works_along.arrayElement Emitter.computes_sameCells.element array index c g c₁ hg
  rw [ensures_bind]
  refine (along_onEmitter (Emitter.computes_sameCells.assign_element hkind value) c₁).mono ?_
  intro _ c₂ hsecond
  exact ensures_pure.mpr (trans_of (Along Emitter.SameCells) hfirst hsecond)

/-- Most notifications allocate no cells of variables. -/
theorem sameCells_construct {cmd : Command} (h : cmd.kind ∉ [.declareVariable, .declareArray,
    .assign, .assignMember, .scan, .declareFunction, .endFunction, .beginClass, .endClass,
    .endProgram]) :
    Moves (Along Emitter.SameCells) (construct cmd) := by
  by_cases hexpression : cmd.kind ∈ [.int, .real, .name, .element, .member, .arith, .call,
    .callMethod, .print]
  · exact works_along.expression Emitter.sameCells_callMethod Emitter.computes_sameCells
      hexpression
  by_cases hcontrol : cmd.kind ∈ [.beginCondition, .compare, .endIf, .endWhile, .ret]
  · intro c _ c' hrun
    have hperforms := along_construct (by aesop) (by aesop) (by aesop) c _ c' hrun
    exact hperforms.mono fun hp => hp.sameCells hcontrol
  unfold construct
  cases hkind : cmd.kind with
  | assignElement => exact sameCells_assignElement _
  | declareInstance => exact .throw _
  | unknown n => exact .throw _
  | _ => simp_all

/-- Only declarations, assignments and scans do something to variables. -/
theorem events_eq_nil {cmd : Command} (h : cmd.kind ∉ [.declareVariable, .assign, .assignMember,
    .scan, .declareFunction]) (c : Compilation) : events cmd c = [] := by
  unfold events
  split
  · rfl
  · split <;> simp_all

theorem undergoes_nil (h : ∃ l, c'.Charts l log) : c.Undergoes log [] c' :=
  ⟨by rwa [List.append_nil], by simp⟩

/-- A notification that is compiled does to the variables what its events say. -/
theorem Charts.construct (h : c.Charts l log) (hk : c.table.Keyed) (hrecording : c.recording = none)
    {cmd : Command} (hkind : cmd.kind ∉ [.beginClass, .endClass, .endProgram]) :
    Ensures (construct cmd) c fun _ c' => c.Undergoes log (events cmd c) c' := by
  by_cases hquiet : cmd.kind ∉ [.declareVariable, .declareArray, .assign, .assignMember, .scan,
    .declareFunction, .endFunction]
  · intro _ c' hrun
    have hscopes := retains_construct hquiet c _ c' hrun
    have hcells := sameCells_construct (by simp_all) c _ c' hrun
    obtain ⟨l', hl', hsame⟩ := hcells.emitter l h.lays
    rw [events_eq_nil (by simp_all)]
    exact undergoes_nil ⟨l', hl', h.charted.congr (fun _ _ => by rw [hscopes.binding?_eq]) hsame⟩
  · simp only [List.mem_cons, List.not_mem_nil, or_false, Decidable.not_not] at hquiet
    rw [Compilation.construct, events, if_neg (by simp [hrecording])]
    rcases hquiet with hkind | hkind | hkind | hkind | hkind | hkind | hkind <;> rw [hkind] <;>
      dsimp only
    · exact h.declareVariable hk _ _
    · exact (h.declareArray hk _ _ _ _).mono fun _ _ => undergoes_nil
    · exact h.assign hk _
    · exact h.assignMember hk _ _
    · exact h.scan hk _ _
    · exact (h.declareFunction _ _ _).mono fun _ _ hcharts => ⟨hcharts, by simp⟩
    · exact h.endFunction.mono fun _ _ => undergoes_nil

end Compilation

end MkCompiler
