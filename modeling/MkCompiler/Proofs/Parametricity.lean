import MkCompiler.Proofs.MirroredRuns
import MkCompiler.Proofs.ProgramStructure

/-!
# Instances under different names

What the declaration of an instance does depends on the name of the instance in no way but that the
name is written down. Main result: for two names that are free, the body of the class runs to its
end under both or fails at the same notification, and if it runs to its end, the text that is added
to the program is one text with holes that are filled with the name.
-/

namespace MkCompiler

open MkCompiler.Action

/-! ## Renaming of an instance -/

def renameInstance (x y name : String) : String :=
  if name = x then y else name

def Cell.rename (x y : String) (c : Cell) : Cell :=
  { c with inst := renameInstance x y c.inst }

def Operand.rename (x y : String) : Operand → Operand
  | .literal l => .literal l
  | .global c => .global (c.rename x y)
  | .element c i => .element (c.rename x y) (i.rename x y)
  | .slot l => .slot l
  | .register r => .register r

def Global.rename (x y : String) (g : Global) : Global :=
  { g with inst := renameInstance x y g.inst, index := g.index.map (Operand.rename x y) }

def Scope.map {α β : Type} (f : String → String) (g : α → β) (s : Scope α) : Scope β :=
  ⟨s.entries.map (Prod.map f g)⟩

def InstanceInfo.rename (x y : String) (i : InstanceInfo) : InstanceInfo :=
  { i with name := renameInstance x y i.name, fields := i.fields.map id (Global.rename x y) }

def SymbolTable.rename (x y : String) (t : SymbolTable) : SymbolTable :=
  { t with
    globals := t.globals.map id (Global.rename x y)
    instances := t.instances.map (renameInstance x y) (InstanceInfo.rename x y)
    current := t.current.map (renameInstance x y) }

section Renaming

variable {p : NamePair}

theorem NamePair.Counterpart.eq_rename {x x' : String} (h : p.Counterpart x x') :
    x' = renameInstance p.fst p.snd x := by
  cases h with
  | renamed _ => exact (if_pos rfl).symm
  | same hfst _ =>
    refine (if_neg ?_).symm
    rintro rfl
    exact hfst p.stem_fst

theorem Cell.Alike.eq_rename {c c' : Cell} (h : c.Alike p c') : c' = c.rename p.fst p.snd := by
  obtain ⟨inst, hinst, rfl⟩ := h
  rw [hinst.eq_rename]
  rfl

theorem Operand.Alike.eq_rename {op op' : Operand} (h : op.Alike p op') :
    op' = op.rename p.fst p.snd := by
  induction h with
  | literal l => rfl
  | global h => rw [h.eq_rename, Operand.rename]
  | element h _ ih => rw [h.eq_rename, ih, Operand.rename]
  | slot l => rfl
  | register r => rfl

theorem Global.Alike.eq_rename {g g' : Global} (h : g.Alike p g') :
    g' = g.rename p.fst p.snd := by
  obtain ⟨inst, index, hinst, hindex, rfl⟩ := h
  have hindex' : index = g.index.map (Operand.rename p.fst p.snd) := by
    rcases optionRel_cases hindex with ⟨hi, rfl⟩ | ⟨i, i', hi, rfl, hop⟩
    · rw [hi]
      rfl
    · rw [hi, hop.eq_rename]
      rfl
  rw [hinst.eq_rename, hindex']
  rfl

theorem Scope.Alike.eq_map {α : Type} {K : String → String → Prop} {V : α → α → Prop}
    {s s' : Scope α} {f : String → String} {g : α → α} (h : s.Alike K V s')
    (hK : ∀ x x', K x x' → x' = f x) (hV : ∀ a a', V a a' → a' = g a) : s' = s.map f g := by
  obtain ⟨entries⟩ := s
  obtain ⟨entries'⟩ := s'
  change List.Forall₂ _ entries entries' at h
  change Scope.mk entries' = ⟨entries.map (Prod.map f g)⟩
  congr 1
  induction h with
  | nil => rfl
  | cons hxy _ ih =>
    rw [List.map_cons, ih]
    congr 1
    exact Prod.ext (hK _ _ hxy.1) (hV _ _ hxy.2)

theorem InstanceInfo.Alike.eq_rename {i i' : InstanceInfo} (h : i.Alike p i') :
    i' = i.rename p.fst p.snd := by
  obtain ⟨name, classId, fields⟩ := i
  obtain ⟨name', classId', fields'⟩ := i'
  obtain rfl : classId' = classId := h.classId
  obtain rfl : name' = _ := h.name.eq_rename
  obtain rfl : fields' = _ := h.fields.eq_map (f := id) (fun _ _ hx => hx.symm)
    fun _ _ hg => hg.eq_rename
  rfl

/-- Tables that are counterparts are the same once the new instance is renamed. -/
theorem SymbolTable.Alike.eq_rename {t t' : SymbolTable} (h : t.Alike p t') :
    t' = t.rename p.fst p.snd := by
  have hglobals := h.globals.eq_map (f := id) (fun _ _ hx => hx.symm) fun _ _ hg => hg.eq_rename
  have hinstances := h.instances.eq_map (fun _ _ hx => hx.eq_rename) fun _ _ hi => hi.eq_rename
  have hcurrent : t'.current = t.current.map (renameInstance p.fst p.snd) := by
    rcases optionRel_cases h.current with ⟨hx, hx'⟩ | ⟨x, x', hx, hx', hcounterpart⟩
    · rw [hx, hx']
      rfl
    · rw [hx, hx', hcounterpart.eq_rename]
      rfl
  obtain ⟨globals, locals, functions, classes, classNames, instances, current⟩ := t
  obtain ⟨globals', locals', functions', classes', classNames', instances', current'⟩ := t'
  obtain rfl : locals' = locals := h.locals
  obtain rfl : functions' = functions := h.functions
  obtain rfl : classes' = classes := h.classes
  obtain rfl : classNames' = classNames := h.classNames
  obtain rfl : globals' = _ := hglobals
  obtain rfl : instances' = _ := hinstances
  obtain rfl : current' = _ := hcurrent
  rfl

end Renaming

/-! ## Growth of the output -/

namespace Emitter

variable {e e' : Emitter} {l l' : Layout}

/-- What is added outside of functions: lines of the header, slots at the mark of the entry point,
code at its end, and functions. -/
structure Grown (e e' : Emitter) (header slots code functions : List Line) : Prop where
  header : e'.output.header = e.output.header ++ header
  entryDeclaration : e'.output.entryDeclaration = e.output.entryDeclaration
  entryBody : e'.output.entryBody = e.output.entryBody.take e.entry.slots.position.toNat ++ slots ++
    (e.output.entryBody.drop e.entry.slots.position.toNat ++ code)
  functions : e'.output.functions = e.output.functions ++ functions
  mark : e'.entry.slots.position = e.entry.slots.position + slots.length

theorem Lays.position_entry (hl : e.Lays l) (hnone : e.function = none) :
    e.entry.slots.position = (l.active.slots.map Line.instr).length := by
  have hactive : e.active = e.entry := by
    rw [Emitter.active, hnone]
  have hslots := hl.active.slots_eq
  rw [hactive, Layout.before, hl.suspended_eq_none hnone] at hslots
  rw [hslots]
  simp

/-- An output that continues another one, both outside of functions. -/
theorem Lays.grown (hl : e.Lays l) (hl' : e'.Lays l') (h : l.Continues l')
    (hnone : e.function = none) (hnone' : e'.function = none) :
    ∃ header slots code functions, Grown e e' header slots code functions := by
  have hs := hl.suspended_eq_none hnone
  have hs' := hl'.suspended_eq_none hnone'
  obtain ⟨header, hheader⟩ := h.header
  obtain ⟨closed, hclosed⟩ := h.closed
  obtain ⟨slots, hslots⟩ := h.slots
  obtain ⟨code, hcode⟩ := h.code
  simp only [Layout.entry, hs, hs', Option.getD_none] at hslots hcode
  have hbody : e.output.entryBody = l.active.slots.map .instr ++ l.active.code := by
    rw [hl.output]
    simp [Layout.assembly, hs, Draft.body]
  have hposition := hl.position_entry hnone
  refine ⟨header, slots.map .instr, code, closed.flatMap fun d => d.toDefinition.lines,
    ?_, ?_, ?_, ?_, ?_⟩
  · rw [hl.output, hl'.output]
    exact hheader.symm
  · rw [hl.output, hl'.output]
    rfl
  · rw [hposition, Int.toNat_natCast, hbody, List.take_left, List.drop_left, hl'.output]
    simp [Layout.assembly, hs', Draft.body, ← hslots, ← hcode]
  · rw [hl.output, hl'.output]
    simp [Layout.assembly, hs, hs', Layout.closedLines, ← hclosed]
  · rw [hposition, hl'.position_entry hnone', ← hslots]
    simp

end Emitter

/-! ## Texts -/

/-- Texts with holes that are added to the output: to the header, to the slots and to the code of
the entry point, and to the functions. -/
structure Additions where
  header : List Piece
  slots : List Piece
  code : List Piece
  functions : List Piece
  deriving DecidableEq, Repr

/-- Filled with a name, the texts make the one output the other one. -/
structure Additions.Lead (added : Additions) (name : String) (e e' : Emitter) : Prop where
  header : textOfLines e'.output.header = textOfLines e.output.header ++ fill name added.header
  entryDeclaration : textOfLines e'.output.entryDeclaration =
    textOfLines e.output.entryDeclaration
  entryBody : textOfLines e'.output.entryBody =
    textOfLines (e.output.entryBody.take e.entry.slots.position.toNat) ++ fill name added.slots ++
      (textOfLines (e.output.entryBody.drop e.entry.slots.position.toNat) ++
        fill name added.code)
  functions : textOfLines e'.output.functions =
    textOfLines e.output.functions ++ fill name added.functions

theorem textOfLines_append (a b : List Line) :
    textOfLines (a ++ b) = textOfLines a ++ textOfLines b := by
  simp [textOfLines, String.join_append]

theorem Emitter.Grown.lead {e e' : Emitter} {header slots code functions : List Line}
    (h : e.Grown e' header slots code functions) {name : String} {added : Additions}
    (hheader : textOfLines header = fill name added.header)
    (hslots : textOfLines slots = fill name added.slots)
    (hcode : textOfLines code = fill name added.code)
    (hfunctions : textOfLines functions = fill name added.functions) : added.Lead name e e' where
  header := by rw [h.header, textOfLines_append, hheader]
  entryDeclaration := by rw [h.entryDeclaration]
  entryBody := by simp only [h.entryBody, textOfLines_append, hslots, hcode]
  functions := by rw [h.functions, textOfLines_append, hfunctions]

theorem forall₂_of_append {α : Type} {R : α → α → Prop} {a a' b b' : List α}
    (h : List.Forall₂ R (a ++ b) (a' ++ b')) (hlength : a.length = a'.length) :
    List.Forall₂ R a a' ∧ List.Forall₂ R b b' := by
  have htake := List.forall₂_take a.length h
  have hdrop := List.forall₂_drop a.length h
  rw [List.take_left, hlength, List.take_left] at htake
  rw [List.drop_left, hlength, List.drop_left] at hdrop
  exact ⟨htake, hdrop⟩

/-- What is added to one output in two runs that correspond comes from the same texts with holes. -/
theorem Emitter.Alike.exists_additions {p : NamePair} {e e₁ e₂ : Emitter} (h : e₁.Alike p e₂)
    {header slots code functions header' slots' code' functions' : List Line}
    (h₁ : e.Grown e₁ header slots code functions)
    (h₂ : e.Grown e₂ header' slots' code' functions') :
    ∃ added : Additions, added.Lead p.fst e e₁ ∧ added.Lead p.snd e e₂ := by
  have hlength : slots.length = slots'.length := by
    obtain ⟨results, -, hentry⟩ := h.entry
    have hmark : e₂.entry.slots.position = e₁.entry.slots.position := by rw [hentry]
    rw [h₁.mark, h₂.mark] at hmark
    omega
  have hheader := h.output.content .header
  have hbody := h.output.content .entryBody
  have hfunctions := h.output.content .functions
  simp only [Assembly.content, h₁.header, h₂.header] at hheader
  simp only [Assembly.content, h₁.entryBody, h₂.entryBody] at hbody
  simp only [Assembly.content, h₁.functions, h₂.functions] at hfunctions
  obtain ⟨hfront, hback⟩ := forall₂_of_append hbody (by simp [hlength])
  obtain ⟨pieces, hpieces, hpieces'⟩ := Line.Alike.textOfLines (forall₂_of_append hheader rfl).2
  obtain ⟨pieces₁, hpieces₁, hpieces₁'⟩ := Line.Alike.textOfLines (forall₂_of_append hfront rfl).2
  obtain ⟨pieces₂, hpieces₂, hpieces₂'⟩ := Line.Alike.textOfLines (forall₂_of_append hback rfl).2
  obtain ⟨pieces₃, hpieces₃, hpieces₃'⟩ :=
    Line.Alike.textOfLines (forall₂_of_append hfunctions rfl).2
  exact ⟨⟨pieces, pieces₁, pieces₂, pieces₃⟩, h₁.lead hpieces hpieces₁ hpieces₂ hpieces₃,
    h₂.lead hpieces' hpieces₁' hpieces₂' hpieces₃'⟩

/-- Names of the same size leave texts of the same size. -/
theorem utf8ByteSize_fill {x y : String} (h : x.utf8ByteSize = y.utf8ByteSize)
    (pieces : List Piece) : (fill x pieces).utf8ByteSize = (fill y pieces).utf8ByteSize := by
  induction pieces with
  | nil => rfl
  | cons piece pieces ih =>
    have hcons (z : String) : fill z (piece :: pieces) = piece.fill z ++ fill z pieces := by
      rw [fill, List.map_cons, String.join_cons, ← fill]
    rw [hcons, hcons, String.utf8ByteSize_append, String.utf8ByteSize_append, ih]
    cases piece with
    | text s => rfl
    | hole => exact congrArg (· + _) h

theorem Additions.Lead.size_eq {added : Additions} {x y : String} {e e₁ e₂ : Emitter}
    (h₁ : added.Lead x e e₁) (h₂ : added.Lead y e e₂) (h : x.utf8ByteSize = y.utf8ByteSize) :
    (textOfLines e₁.output.entryBody).utf8ByteSize =
      (textOfLines e₂.output.entryBody).utf8ByteSize := by
  rw [h₁.entryBody, h₂.entryBody]
  simp only [String.utf8ByteSize_append, utf8ByteSize_fill h]

/-! ## Declarations of instances -/

/-- A name that an instance of the class can get: an identifier that is not in use and that no
notification of the class body names. -/
structure SymbolTable.FreeFor (t : SymbolTable) (k : ClassInfo) (name : String) : Prop where
  identifier : IsIdentifier name
  unreserved : isReservedName name = false
  global : t.globals.find? name = none
  classes : t.class? name = none
  instances : t.instances.find? name = none
  targets : ∀ cmd ∈ k.commands, cmd.target ≠ name

instance (t : SymbolTable) (k : ClassInfo) (name : String) : Decidable (t.FreeFor k name) :=
  decidable_of_iff (IsIdentifier name ∧ isReservedName name = false ∧
      t.globals.find? name = none ∧ t.class? name = none ∧ t.instances.find? name = none ∧
      ∀ cmd ∈ k.commands, cmd.target ≠ name)
    ⟨fun h => ⟨h.1, h.2.1, h.2.2.1, h.2.2.2.1, h.2.2.2.2.1, h.2.2.2.2.2⟩, fun h =>
      ⟨h.identifier, h.unreserved, h.global, h.classes, h.instances, h.targets⟩⟩

namespace Compilation

variable {c c' : Compilation} {k : ClassInfo} {name className : String}

/-- No class and no function is open, and the program goes on. -/
structure AtTopLevel (c : Compilation) : Prop where
  program : c.program = none
  recording : c.recording = none
  outside : c.emitter.inFunction = false

instance (c : Compilation) : Decidable c.AtTopLevel :=
  decidable_of_iff (c.program = none ∧ c.recording = none ∧ c.emitter.inFunction = false)
    ⟨fun h => ⟨h.1, h.2.1, h.2.2⟩, fun h => ⟨h.program, h.recording, h.outside⟩⟩

theorem Orderly.openInstance_of_free (h : c.Orderly) (htop : c.AtTopLevel)
    (hclass : c.table.class? className = some k) (hfrozen : k.frozen = true)
    (hname : c.table.FreeFor k name) :
    openInstance name className c = .ok k.commands (c.withInstance name k.id) := by
  obtain ⟨hk, hclassName⟩ := h.recorded.class?_eq_some_iff.mp hclass
  have hid := (h.recorded.names className k.id).mpr ⟨k, hk, hclassName⟩
  have hnew := h.recorded.classNames_eq_none hname.classes
  have hyields : Yields (openInstance name className) c fun body c' =>
      body = k.commands ∧ c' = c.withInstance name k.id := by
    rw [openInstance, yields_bind, requireOutside, yields_bind, yields_get,
      if_neg (by simp [htop.outside]), yields_pure, yields_bind, onTable, yields_zoom,
      SymbolTable.declareInstance, yields_bind, SymbolTable.lookupClass, yields_bind, yields_get,
      hid]
    dsimp only
    rw [SymbolTable.yields_classAt hk, yields_bind, yields_require]
    refine ⟨hfrozen, ?_⟩
    rw [yields_bind, yields_require]
    refine ⟨hname.unreserved, ?_⟩
    rw [yields_bind, SymbolTable.checkProgramName]
    simp only [yields_bind, yields_get, yields_require, yields_modify, yields_pure, hnew,
      hname.instances, hname.global, Option.isNone_none, true_and]
    rw [onTable, yields_zoom]
    exact (SymbolTable.yields_classAt (by exact hk)).mpr ⟨rfl, rfl⟩
  obtain ⟨_, _, hopen, rfl, rfl⟩ := hyields
  exact hopen

theorem AtTopLevel.notify_eq (htop : c.AtTopLevel) (line : Int) (name className : String) :
    notify line (.declareInstance className name) c = declareInstance line name className c :=
  handle_eq_declareInstance htop.program htop.recording rfl

theorem AtTopLevel.notify_eq_replay (htop : c.AtTopLevel) {body : List Command}
    (hopen : openInstance name className c = .ok body c') (line : Int) :
    notify line (.declareInstance className name) c = leavingInstance (replay body) c' := by
  rw [htop.notify_eq]
  change EStateM.bind (locate line (openInstance name className)) _ c = _
  rw [EStateM.bind, locate, hopen]

theorem Orderly.grown_notify (h : c.Orderly) (htop : c.AtTopLevel)
    (hclass : c.table.class? className = some k) (hfrozen : k.frozen = true) {line : Int}
    (hok : notify line (.declareInstance className name) c = .ok () c') :
    ∃ header slots code functions, c.emitter.Grown c'.emitter header slots code functions := by
  rw [htop.notify_eq] at hok
  obtain ⟨l, hl⟩ := h.lays htop.program
  obtain ⟨members, hk⟩ := h.recorded.closed _ k (h.recorded.getElem?_of_class? hclass) hfrozen
  obtain ⟨hnone, c₁, hruns, rfl⟩ := (h.ends_declareInstance hclass hk hl line name).of_ok hok
  obtain ⟨k', -, -, -, -, halong⟩ := h.declareInstance_runs hok
  obtain ⟨l', hl', hcontinues⟩ := halong.emitter.continues hl
  exact hl.grown hl' hcontinues hnone hruns.emitter_function_eq_none

/-- Two instances of a class, opened under names that no instance so far has for its stem. -/
theorem alike_withInstance {file : String} {symbols : RuntimeSymbols} {stream : List Command}
    {a b : String} (hc : handled? stream (start file symbols) = some c)
    (hprogram : c.program = none) (ha : IsIdentifier a) (hb : IsIdentifier b)
    (hnames : ∀ q, (c.table.instances.find? q).isSome = true → stem q ≠ a ∧ stem q ≠ b) (id : Nat) :
    (c.withInstance a id).Alike ⟨a, b, True, ha, hb⟩ (c.withInstance b id) := by
  have hself : c.Alike ⟨a, b, False, ha, hb⟩ c :=
    alike_of_handled (fun hd => hd) hc hprogram hnames
  exact hself.withInstance (d := True) False.elim
    (.renamed (p := ⟨a, b, True, ha, hb⟩) trivial) id

theorem Alike.stack_eq_map {p : NamePair} (h : c.Alike p c') :
    c'.stack = c.stack.map (Operand.rename p.fst p.snd) := by
  have hrel : List.Forall₂ Eq (c.stack.map (Operand.rename p.fst p.snd)) c'.stack := by
    rw [List.forall₂_map_left_iff]
    exact h.stack.imp fun _ _ hop => hop.eq_rename.symm
  rw [List.forall₂_eq_eq_eq] at hrel
  exact hrel.symm

/-- The instance is opened, the notifications in front are compiled for it, and the next one
fails. -/
def InstanceFails (name className : String) (front : List Command) (cmd : Command)
    (c : Compilation) (f : Failure) : Prop :=
  ∃ body c₀ c₁, openInstance name className c = .ok body c₀ ∧ FailsBehind front cmd c₀ f c₁

/-- A class is run in the same way for instances of all names. From a compilation at top level that
has not failed, an instance of a closed class can be declared under two free names with the same
outcome. If the one declaration fails, so does the other, at the same notification of the class body
and for a reason of the same kind. Otherwise both add the same texts with holes, filled with their
names, to the output. Their stacks and tables are the same up to the name of the instance, and they
leave all instances alone that the class body does not name. -/
theorem declareInstance_parametric {file : String} {symbols : RuntimeSymbols}
    {stream : List Command} {a b : String} (hc : handled? stream (start file symbols) = some c)
    (htop : c.AtTopLevel) (hclass : c.table.class? className = some k) (hfrozen : k.frozen = true)
    (ha : c.table.FreeFor k a) (hb : c.table.FreeFor k b)
    (hnames : ∀ q, (c.table.instances.find? q).isSome = true → stem q ≠ a ∧ stem q ≠ b)
    (line : Int) :
    (∃ ca cb, notify line (.declareInstance className a) c = .ok () ca ∧
      notify line (.declareInstance className b) c = .ok () cb ∧
      (∃ added : Additions, added.Lead a c.emitter ca.emitter ∧
        added.Lead b c.emitter cb.emitter) ∧
      cb.stack = ca.stack.map (Operand.rename a b) ∧
      cb.table = ca.table.rename a b ∧
      ∀ q, (∀ cmd ∈ k.commands, cmd.target ≠ q) →
        (q ≠ a → ca.table.instances.find? q = c.table.instances.find? q) ∧
        (q ≠ b → cb.table.instances.find? q = c.table.instances.find? q)) ∨
    ∃ front cmd rest fa fb ca cb, k.commands = front ++ cmd :: rest ∧
      InstanceFails a className front cmd c fa ∧ InstanceFails b className front cmd c fb ∧
      notify line (.declareInstance className a) c = .error ⟨fa, cmd.line⟩ ca ∧
      notify line (.declareInstance className b) c = .error ⟨fb, cmd.line⟩ cb ∧
      fa.Alike fb := by
  have h : c.Orderly := (orderly_start file symbols).of_handled hc
  have hopena := h.openInstance_of_free htop hclass hfrozen ha
  have hopenb := h.openInstance_of_free htop hclass hfrozen hb
  have hnotifya := htop.notify_eq_replay hopena line
  have hnotifyb := htop.notify_eq_replay hopenb line
  have halike := alike_withInstance hc htop.program ha.identifier hb.identifier hnames k.id
  obtain ⟨k', -, hbody, -, -, hplace⟩ := h.openInstance_eq_ok hopena
  rw [hbody] at hplace
  rcases halike.replay (Region.kind_of_after? hplace)
      (fun cmd hcmd _ => ⟨ha.targets cmd hcmd, hb.targets cmd hcmd⟩) with
    ⟨c₁, c₂, hreplaya, hreplayb, h₁₂⟩ | hfails
  · rw [leavingInstance, hreplaya] at hnotifya
    rw [leavingInstance, hreplayb] at hnotifyb
    refine .inl ⟨_, _, hnotifya, hnotifyb, ?_, ?_, ?_, ?_⟩
    · obtain ⟨_, _, _, _, hgrowna⟩ := h.grown_notify htop hclass hfrozen hnotifya
      obtain ⟨_, _, _, _, hgrownb⟩ := h.grown_notify htop hclass hfrozen hnotifyb
      exact h₁₂.emitter.exists_additions hgrowna hgrownb
    · exact h₁₂.stack_eq_map
    · exact congrArg (·.setInstance none) h₁₂.table.eq_rename
    · intro q hq
      rw [htop.notify_eq] at hnotifya hnotifyb
      obtain ⟨-, hconfineda⟩ := h.confined_declareInstance hclass hnotifya
      obtain ⟨-, hconfinedb⟩ := h.confined_declareInstance hclass hnotifyb
      have hspared (hreached : ∃ cmd ∈ k.commands, cmd.target = q) : False := by
        obtain ⟨cmd, hcmd, htarget⟩ := hreached
        exact hq cmd hcmd htarget
      exact ⟨fun hqa => hconfineda.others q fun hor => hor.elim hqa hspared,
        fun hqb => hconfinedb.others q fun hor => hor.elim hqb hspared⟩
  · obtain ⟨front, cmd, rest, fa, fb, c₁, c₂, hsplit, hfailsa, hfailsb, halike⟩ := hfails
    rw [leavingInstance, hsplit, hfailsa.replay_eq rest] at hnotifya
    rw [leavingInstance, hsplit, hfailsb.replay_eq rest] at hnotifyb
    exact .inr ⟨front, cmd, rest, fa, fb, _, _, hsplit, ⟨_, _, _, hopena, hfailsa⟩,
      ⟨_, _, _, hopenb, hfailsb⟩, hnotifya, hnotifyb, halike⟩

def Declarable (stream : List Command) (file className a b : String) : Bool :=
  (handled? stream (start file .standard)).any fun c => c.AtTopLevel ∧
    (c.table.class? className).any fun k =>
      k.frozen = true ∧ c.table.FreeFor k a ∧ c.table.FreeFor k b

theorem exists_of_declarable {stream : List Command} {file a b : String}
    (h : Declarable stream file className a b = true) : ∃ c k,
      handled? stream (start file .standard) = some c ∧ c.AtTopLevel ∧
      c.table.class? className = some k ∧ k.frozen = true ∧ c.table.FreeFor k a ∧
      c.table.FreeFor k b := by
  obtain ⟨c, hc, h⟩ := (Option.any_eq_true ..).mp h
  obtain ⟨htop, h⟩ := of_decide_eq_true h
  obtain ⟨k, hk, h⟩ := (Option.any_eq_true ..).mp h
  obtain ⟨hfrozen, ha, hb⟩ := of_decide_eq_true h
  exact ⟨c, k, hc, htop, hk, hfrozen, ha, hb⟩

def loggingStream : List Command :=
  [{ kind := .beginClass, name := "Log" }, { kind := .declareVariable, name := "n" },
    { kind := .endClass },
    { kind := .declareInstance, name := "log", target := "Log" },
    { kind := .declareInstance, name := "spare", target := "Log" },
    { kind := .beginClass, name := "P" },
    { kind := .int, text := "1" }, { kind := .declareVariable, name := "n", hasInit := true },
    { kind := .declareFunction, name := "get", type := .int },
    { kind := .name, name := "n" }, { kind := .ret }, { kind := .endFunction },
    { kind := .int, text := "2" }, { kind := .assignMember, target := "log", name := "n" },
    { kind := .call, name := "get" }, { kind := .endClass }]

theorem declareInstance_parametric_sample : ∃ c ca cb,
    handled? loggingStream (start "log.mk" .standard) = some c ∧
    notify 9 (.declareInstance "P" "a") c = .ok () ca ∧
    notify 9 (.declareInstance "P" "b") c = .ok () cb ∧
    (∃ added : Additions, added.Lead "a" c.emitter ca.emitter ∧
      added.Lead "b" c.emitter cb.emitter) ∧
    cb.stack = ca.stack.map (Operand.rename "a" "b") ∧ cb.table = ca.table.rename "a" "b" ∧
    ca.table.instances.find? "spare" = c.table.instances.find? "spare" := by
  have hfree : Declarable loggingStream "log.mk" "P" "a" "b" = true := by
    decide +kernel
  have hruns : (handled? loggingStream (start "log.mk" .standard)).any (fun c =>
      c.table.instances.names = ["log", "spare"] ∧
        ((c.table.class? "P").any fun k => k.commands.all fun cmd => cmd.target ≠ "spare") ∧
        (handled? [Notification.toCommand 9 (.declareInstance "P" "a")] c).isSome = true) =
          true := by
    decide +kernel
  obtain ⟨c, k, hc, htop, hclass, hfrozen, ha, hb⟩ := exists_of_declarable hfree
  rw [hc, Option.any_some] at hruns
  obtain ⟨hnames, htargets, hsome⟩ := of_decide_eq_true hruns
  rw [hclass, Option.any_some, List.all_eq_true] at htargets
  obtain ⟨c', hc'⟩ := Option.isSome_iff_exists.mp hsome
  have hstems (q : String) (hq : (c.table.instances.find? q).isSome = true) :
      stem q ≠ "a" ∧ stem q ≠ "b" := by
    have hmem : q ∈ ["log", "spare"] := by
      rw [← hnames]
      by_contra hnot
      rw [Scope.find?_eq_none_of_not_mem hnot] at hq
      cases hq
    simp only [List.mem_cons, List.not_mem_nil, or_false] at hmem
    rcases hmem with rfl | rfl <;> decide +kernel
  rcases declareInstance_parametric hc htop hclass hfrozen ha hb hstems 9 with
    ⟨ca, cb, hca, hcb, hadded, hstack, htable, hothers⟩ |
    ⟨_, _, _, _, _, ca, _, _, _, _, hca, _⟩
  · refine ⟨c, ca, cb, hc, hca, hcb, hadded, hstack, htable, (hothers "spare" ?_).1 (by decide)⟩
    intro cmd hcmd
    simpa using htargets cmd hcmd
  · rw [notify, handled?_single.mp hc'] at hca
    cases hca

def dottedStream : List Command :=
  [{ kind := .beginClass, name := "D" },
    { kind := .declareFunction, name := "y", type := .int },
    { kind := .int, text := "1" }, { kind := .ret }, { kind := .endFunction },
    { kind := .endClass },
    { kind := .beginClass, name := "C" },
    { kind := .declareFunction, name := "x.y", type := .int },
    { kind := .int, text := "2" }, { kind := .ret }, { kind := .endFunction },
    { kind := .call, name := "x.y" }, { kind := .endClass },
    { kind := .declareInstance, name := "a.x", target := "D" },
    { kind := .callMethod, target := "a.x", name := "y" }]

/-- The method `x.y` of an instance `a` returns to the slot of the method `y` of an instance `a.x`,
which is there already. Any other instance gets a slot of its own. -/
theorem not_parametric_beside_dotted_name : ∃ c k ca cb,
    handled? dottedStream (start "dot.mk" .standard) = some c ∧ c.AtTopLevel ∧
    c.table.class? "C" = some k ∧ k.frozen = true ∧ c.table.FreeFor k "a" ∧
    c.table.FreeFor k "b" ∧ notify 16 (.declareInstance "C" "a") c = .ok () ca ∧
    notify 16 (.declareInstance "C" "b") c = .ok () cb ∧
    ¬∃ added : Additions, added.Lead "a" c.emitter ca.emitter ∧
      added.Lead "b" c.emitter cb.emitter := by
  have hfree : Declarable dottedStream "dot.mk" "C" "a" "b" = true := by
    decide +kernel
  have hsizea : ((handled? dottedStream (start "dot.mk" .standard)).bind
      (handled? [Notification.toCommand 16 (.declareInstance "C" "a")])).map
        (fun c => (textOfLines c.emitter.output.entryBody).utf8ByteSize) = some 334 := by
    decide +kernel
  have hsizeb : ((handled? dottedStream (start "dot.mk" .standard)).bind
      (handled? [Notification.toCommand 16 (.declareInstance "C" "b")])).map
        (fun c => (textOfLines c.emitter.output.entryBody).utf8ByteSize) = some 366 := by
    decide +kernel
  obtain ⟨c, k, hc, htop, hclass, hfrozen, ha, hb⟩ := exists_of_declarable hfree
  rw [hc, Option.bind_some] at hsizea hsizeb
  obtain ⟨ca, hca, hsizea⟩ := Option.map_eq_some_iff.mp hsizea
  obtain ⟨cb, hcb, hsizeb⟩ := Option.map_eq_some_iff.mp hsizeb
  refine ⟨c, k, ca, cb, hc, htop, hclass, hfrozen, ha, hb, handled?_single.mp hca,
    handled?_single.mp hcb, ?_⟩
  rintro ⟨added, hleada, hleadb⟩
  have hsize := hleada.size_eq hleadb (by decide)
  rw [hsizea, hsizeb] at hsize
  cases hsize

end Compilation

end MkCompiler
