import MkCompiler.Proofs.Handling
import MkCompiler.Proofs.StructuredFlow

/-!
# Structured bodies

A structured body is sent as notifications: those of a statement one after the other, and around the
body of a construct those that open its condition, compare and close it. The compilation turns each
statement and each condition into a group of instructions, and the code of the body has the
structure of the body. Functions, classes and instances that are declared in the middle of a body
leave its code alone.
-/

namespace MkCompiler

open MkCompiler.Action

def Draft.grow (d : Draft) (slots : List Instr) (code : List Line) : Draft :=
  { d with slots := d.slots ++ slots, code := d.code ++ code }

@[simp] theorem Draft.grow_nil (d : Draft) : d.grow [] [] = d := by
  simp [grow]

@[simp] theorem Draft.grow_grow (d : Draft) (s s' : List Instr) (c c' : List Line) :
    (d.grow s c).grow s' c' = d.grow (s ++ s') (c ++ c') := by
  simp [grow]

theorem Region.next?_outside {kind : CommandKind} {r : Region}
    (h : outside.next? kind = some r) :
    (kind.isStraight = true ∨ ∃ n, kind = .unknown n) ∧ r = .outside ∨
      kind = .declareFunction ∧ r = .inside := by
  cases kind <;> cases h <;> simp [CommandKind.isStraight]

theorem Region.next?_inside {kind : CommandKind} {r : Region} (h : inside.next? kind = some r) :
    kind = .endFunction ∧ r = .outside ∨
      kind ∉ [.declareFunction, .endFunction, .endProgram] ∧ r = .inside := by
  cases kind <;> cases h <;> simp

namespace Emitter

variable {e e' : Emitter} {l : Layout} {p : List Nat} {o : Option Nat} {d : Draft} {r r' : Region}

/-- The body that notifications belong to, with its open constructs. It is the active one, or the
entry point if the notifications stand inside of a function that is declared in it. -/
def Home (r : Region) (e : Emitter) (l : Layout) (p : List Nat) (o : Option Nat) (d : Draft) :
    Prop :=
  match r with
  | .outside => e.active.pending = p ∧ e.active.openCompare = o ∧ l.active = d
  | .inside => e.function.isSome = true ∧ e.entry.pending = p ∧ e.entry.openCompare = o ∧
      l.suspended = some d

theorem Straight.home (h : Straight e e') (hl : e.Lays l) (hd : Home .outside e l p o d) :
    ∃ l' slots, ∃ code : List Instr, (∀ i ∈ code, i.isTerminator = false) ∧ e'.Lays l' ∧
      Home .outside e' l' p o (d.grow slots (code.map .instr)) := by
  obtain ⟨hpending, hopen, rfl⟩ := hd
  obtain ⟨header, slots, code, hcode, hl'⟩ := h.layout l hl
  obtain ⟨c, out, rfl, hp, ho⟩ := h.frame
  have hactive : ({ modifyActive (fun _ => c) e with output := out } : Emitter).active = c :=
    active_modifyActive e _
  refine ⟨_, slots, code, hcode, hl', ?_, ?_, rfl⟩
  · rw [hactive, hp, hpending]
  · rw [hactive, ho, hopen]

/-- Steps inside of a function leave the entry point alone. -/
theorem home_inside_of_bodySteps (h : Relation.ReflTransGen BodyStep e e') (hl : e.Lays l)
    (hd : Home .inside e l p o d) : ∃ l', e'.Lays l' ∧ Home .inside e' l' p o d := by
  induction h with
  | refl => exact ⟨l, hl, hd⟩
  | tail _ hs ih =>
    obtain ⟨l₁, hl₁, hf, hpending, hopen, hsuspended⟩ := ih
    obtain ⟨⟨c, out, n, rfl⟩, hgrow⟩ := hs.grows
    obtain ⟨header, slots, code, hl₂⟩ := hgrow l₁ hl₁
    have hentry := hl₁.entry_eq (fun _ => c) d hsuspended
    refine ⟨_, hl₂, ?_, ?_, ?_, hsuspended⟩
    · obtain ⟨f, hf⟩ := Option.isSome_iff_exists.mp hf
      simp [modifyActive, hf]
    · rw [← hpending, ← hentry]
    · rw [← hopen, ← hentry]

/-- Notifications that do not branch outside of nested functions add instructions to their body and
change nothing else of it. -/
theorem Performs.home {kind : CommandKind} (hr : r.next? kind = some r') (h : Performs kind e e')
    (hl : e.Lays l) (hd : Home r e l p o d) :
    ∃ l' slots, ∃ code : List Instr, (∀ i ∈ code, i.isTerminator = false) ∧ e'.Lays l' ∧
      Home r' e' l' p o (d.grow slots (code.map .instr)) := by
  cases r with
  | outside =>
    rcases Region.next?_outside hr with ⟨hstraight | ⟨n, rfl⟩, rfl⟩ | ⟨rfl, rfl⟩
    · rw [performs_straight hstraight] at h
      exact h.home hl hd
    · exact h.elim
    · obtain ⟨name, sig, params, locals, -, h⟩ := h
      obtain ⟨hnone, c, out, rfl, -, -, h, -⟩ := ensures_openFunction name sig params e _ _ h
      obtain ⟨hpending, hopen, rfl⟩ := hd
      have hactive : e.active = e.entry := by rw [Emitter.active, hnone]
      rw [hactive] at hpending hopen
      exact ⟨_, [], [], by simp, h l hl, rfl, hpending, hopen, by simp [Layout.enter]⟩
  | inside =>
    rcases Region.next?_inside hr with ⟨rfl, rfl⟩ | ⟨hkind, rfl⟩
    · obtain ⟨f, out, hsome, -, -, rfl, h⟩ := ensures_endFunction e _ _ h
      obtain ⟨-, hpending, hopen, hsuspended⟩ := hd
      obtain ⟨d', hd', hl'⟩ := h l hl
      obtain rfl : d = d' := Option.some.inj (hsuspended.symm.trans hd')
      exact ⟨_, [], [], by simp, hl', hpending, hopen, by simp [Layout.leave]⟩
    · obtain ⟨l', hl', hd'⟩ := home_inside_of_bodySteps (h.bodySteps hkind) hl hd
      exact ⟨l', [], [], by simp, hl', by simpa using hd'⟩

theorem Run.home {kinds : List CommandKind} (hr : r.after? kinds = some r') (h : Run kinds e e')
    (hl : e.Lays l) (hd : Home r e l p o d) :
    ∃ l' slots, ∃ code : List Instr, (∀ i ∈ code, i.isTerminator = false) ∧ e'.Lays l' ∧
      Home r' e' l' p o (d.grow slots (code.map .instr)) := by
  induction h generalizing r l d with
  | nil =>
    cases hr
    exact ⟨l, [], [], by simp, hl, by simpa using hd⟩
  | cons _ hp _ ih =>
    rw [Region.after?_cons] at hr
    obtain ⟨r₁, hr₁, hr⟩ := Option.bind_eq_some_iff.mp hr
    obtain ⟨l₁, slots₁, code₁, hcode₁, hl₁, hd₁⟩ := hp.home hr₁ hl hd
    obtain ⟨l₂, slots₂, code₂, hcode₂, hl₂, hd₂⟩ := ih hr hl₁ hd₁
    exact ⟨l₂, slots₁ ++ slots₂, code₁ ++ code₂, List.forall_mem_append.mpr ⟨hcode₁, hcode₂⟩, hl₂,
      by simpa using hd₂⟩

end Emitter

/-! ## Structured bodies -/

/-- Where a notification of a statement stands: in the body or a function declared in it, or in a
class that is being recorded. -/
inductive Zone where
  | code (r : Region)
  | recorded
  deriving DecidableEq, Repr

def Zone.isRecorded : Zone → Bool
  | .code _ => false
  | .recorded => true

def Zone.region : Zone → Region
  | .code r => r
  | .recorded => .outside

/-- The place behind a notification of a statement. -/
def Zone.next? : Zone → CommandKind → Option Zone
  | .recorded, .endClass => some (.code .outside)
  | .recorded, _ => some .recorded
  | .code .outside, .beginClass => some .recorded
  | .code .outside, .declareInstance => some (.code .outside)
  | .code r, kind => (r.next? kind).map .code

theorem Zone.next?_recorded {kind : CommandKind} {z : Zone} (h : recorded.next? kind = some z) :
    kind = .endClass ∧ z = .code .outside ∨ kind ≠ .endClass ∧ z = .recorded := by
  cases kind <;> cases h <;> simp

theorem Zone.next?_code {r : Region} {kind : CommandKind} {z : Zone}
    (h : (code r).next? kind = some z) :
    (∃ r', r.next? kind = some r' ∧ z = .code r') ∨ r = .outside ∧
      (kind = .beginClass ∧ z = .recorded ∨ kind = .declareInstance ∧ z = .code .outside) := by
  cases r <;> cases kind <;> cases h <;> simp [Region.next?]

/-- The notifications of an atomic statement or of an expression. Declarations of functions, classes
and instances are atomic as a whole. -/
structure Chunk where
  commands : List Command
  atomic : (commands.map Command.kind).foldlM Zone.next? (.code .outside) = some (.code .outside)

structure Marker (kind : CommandKind) where
  cmd : Command
  kind_eq : cmd.kind = kind

def ControlKind.closing : ControlKind → CommandKind
  | .conditional => .endIf
  | .loop => .endWhile

inductive Body where
  | stop
  | simple (statement : Chunk) (rest : Body)
  | ret (value : Chunk) (mark : Marker .ret) (rest : Body)
  | control (kind : ControlKind) (opening : Marker .beginCondition) (condition : Chunk)
      (compare : Marker .compare) (body : Body) (closing : Marker kind.closing) (rest : Body)

namespace Body

def commands : Body → List Command
  | .stop => []
  | .simple statement rest => statement.commands ++ rest.commands
  | .ret value mark rest => value.commands ++ mark.cmd :: rest.commands
  | .control _ opening condition compare body closing rest =>
    opening.cmd :: (condition.commands ++ compare.cmd ::
      (body.commands ++ closing.cmd :: rest.commands))

end Body

/-- The instruction of a line that is neither a jump nor a branch. -/
def Line.action? : Line → Option Instr
  | .instr (.jump _) => none
  | .instr (.branch _ _ _) => none
  | .instr i => some i
  | _ => none

def Emitter.code (e : Emitter) : List Line :=
  (e.output.content e.active.target).drop e.active.slots.position.toNat

theorem Emitter.Lays.code_eq {e : Emitter} {l : Layout} (h : e.Lays l) :
    e.code = l.active.code := by
  have hposition : e.active.slots.position.toNat =
      (l.before ++ l.active.slots.map Line.instr).length := by
    rw [h.active.slots_eq, Int.toNat_natCast]
    simp
  rw [Emitter.code, h.active.target_eq, hposition, h.output, Layout.content_assembly,
    List.drop_left]

/-- The instructions that the active body has got between two states, without jumps and branches. -/
def Compilation.group (c c' : Compilation) : List Instr :=
  (c'.emitter.code.drop c.emitter.code.length).filterMap Line.action?

/-- The structure of a body with the groups of instructions that its statements and conditions are
compiled to, and the state behind it. -/
def Body.lower? : Body → Compilation → Option (Flow × Compilation)
  | .stop, c => some (.stop, c)
  | .simple statement rest, c => do
    let c₁ ← Compilation.handled? statement.commands c
    let (flow, c₂) ← rest.lower? c₁
    return (.group (c.group c₁) flow, c₂)
  | .ret value mark rest, c => do
    let c₁ ← Compilation.handled? (value.commands ++ [mark.cmd]) c
    let (flow, c₂) ← rest.lower? c₁
    return (.ret (c.group c₁) flow, c₂)
  | .control kind opening condition compare body closing rest, c => do
    let c₁ ← Compilation.handled? (opening.cmd :: (condition.commands ++ [compare.cmd])) c
    let (inner, c₂) ← body.lower? c₁
    let c₃ ← Compilation.handled? [closing.cmd] c₂
    let (flow, c₄) ← rest.lower? c₃
    return (.control kind (c.group c₁) inner flow, c₄)

/-! ## Compiling a body -/

namespace Compilation

open Emitter

variable {c c' : Compilation} {p : List Nat} {o : Option Nat} {d : Draft}

/-- A compilation that is in order, and the body that notifications of a statement belong to. -/
structure Stands (z : Zone) (c : Compilation) (p : List Nat) (o : Option Nat) (d : Draft) :
    Prop where
  program : c.program = none
  records : c.WellRecorded
  recording : c.recording.isSome = z.isRecorded
  home : ∃ l, c.emitter.Lays l ∧ Home z.region c.emitter l p o d

def Grows (z : Zone) (c : Compilation) (p : List Nat) (o : Option Nat) (d : Draft) : Prop :=
  ∃ slots, ∃ code : List Instr, (∀ i ∈ code, i.isTerminator = false) ∧
    Stands z c p o (d.grow slots (code.map .instr))

theorem Stands.grows {z : Zone} (h : Stands z c p o d) : Grows z c p o d :=
  ⟨[], [], by simp, by simpa using h⟩

theorem Grows.trans {z z' : Zone} (h : Grows z c p o d)
    (h' : ∀ d, Stands z c p o d → Grows z' c' p o d) : Grows z' c' p o d := by
  obtain ⟨slots, code, hcode, h⟩ := h
  obtain ⟨slots', code', hcode', h⟩ := h' _ h
  exact ⟨slots ++ slots', code ++ code', List.forall_mem_append.mpr ⟨hcode, hcode'⟩,
    by simpa using h⟩

theorem Stands.idle {z z' : Zone} (h : Stands z c p o d) (hidle : Idle c c')
    (hrecords : c'.WellRecorded) (hrecording : c'.recording.isSome = z'.isRecorded)
    (hregion : z'.region = z.region) : Grows z' c' p o d := by
  refine Stands.grows ⟨hidle.2.trans h.program, hrecords, hrecording, ?_⟩
  rw [hidle.1, hregion]
  exact h.home

theorem Stands.recording_eq_none {r : Region} (h : Stands (.code r) c p o d) :
    c.recording = none := by
  have hrecording := h.recording
  cases hc : c.recording with
  | none => rfl
  | some id =>
    rw [hc] at hrecording
    cases hrecording

theorem Stands.run {r r' : Region} (h : Stands (.code r) c p o d) {kinds : List CommandKind}
    (hr : r.after? kinds = some r') (halong : Along (Run kinds) c c') :
    Grows (.code r') c' p o d := by
  obtain ⟨l, hl, hd⟩ := h.home
  obtain ⟨l', slots, code, hcode, hl', hd'⟩ := halong.emitter.home hr hl hd
  refine ⟨slots, code, hcode, halong.program.trans h.program,
    halong.wellRecorded h.recording_eq_none h.records, ?_, l', hl', hd'⟩
  rw [halong.recording]
  exact h.recording

theorem Stands.handle {z z' : Zone} {cmd : Command} (h : Stands z c p o d)
    (hz : z.next? cmd.kind = some z') (hcmd : Compilation.handle cmd c = .ok () c') :
    Grows z' c' p o d := by
  obtain ⟨-, hhandles, hrecords⟩ := handles_of_handle hcmd h.records
  have hperforms {r r' : Region} (h : Stands (.code r) c p o d)
      (hr : r.next? cmd.kind = some r') : Grows (.code r') c' p o d := by
    have hkind := Region.next?_kind hr
    have halong := (handles_iff_along h.recording_eq_none hkind).mp hhandles
    have hplace : r.after? [cmd.kind] = some r' := by simp [hr]
    refine h.run hplace (halong.mono fun hp => .cons ?_ hp .nil)
    rintro hend
    simp [hend] at hkind
  cases z with
  | recorded =>
    have hsome : c.recording.isSome = true := h.recording
    rw [Handles, if_pos hsome] at hhandles
    obtain ⟨hidle, hrecording⟩ := hhandles
    rcases Zone.next?_recorded hz with ⟨hkind, rfl⟩ | ⟨hkind, rfl⟩
    · rw [if_pos hkind] at hrecording
      exact h.idle hidle hrecords (by rw [hrecording]; rfl) rfl
    · rw [if_neg hkind] at hrecording
      exact h.idle hidle hrecords (by rw [hrecording]; exact hsome) rfl
  | code r =>
    rcases Zone.next?_code hz with ⟨r', hr, rfl⟩ | ⟨rfl, hkind⟩
    · exact hperforms h hr
    · have hnone : ¬c.recording.isSome = true := by simp [h.recording_eq_none]
      rw [Handles, if_neg hnone] at hhandles
      rcases hkind with ⟨hkind, rfl⟩ | ⟨hkind, rfl⟩
      · rw [hkind] at hhandles
        exact h.idle hhandles.1 hrecords hhandles.2 rfl
      · rw [hkind] at hhandles
        obtain ⟨kinds, hkinds, halong⟩ := hhandles
        exact h.run hkinds halong

theorem Stands.handled {commands : List Command} {z z' : Zone} (h : Stands z c p o d)
    (hz : (commands.map Command.kind).foldlM Zone.next? z = some z')
    (hhandled : handled? commands c = some c') : Grows z' c' p o d := by
  induction commands generalizing z c d with
  | nil =>
    cases hz
    cases hhandled
    exact h.grows
  | cons cmd rest ih =>
    rw [List.map_cons, List.foldlM_cons] at hz
    obtain ⟨z₁, hz₁, hz⟩ := Option.bind_eq_some_iff.mp hz
    obtain ⟨c₁, hcmd, hrest⟩ := handled?_cons.mp hhandled
    exact (h.handle hz₁ hcmd).trans fun _ h₁ => ih h₁ hz hrest

/-- A compilation that stands between two statements of a body. -/
def Ready (c : Compilation) (p : List Nat) (o : Option Nat) (d : Draft) : Prop :=
  Stands (.code .outside) c p o d

theorem Ready.chunk (h : Ready c p o d) (chunk : Chunk)
    (hhandled : handled? chunk.commands c = some c') :
    ∃ slots, ∃ code : List Instr, (∀ i ∈ code, i.isTerminator = false) ∧
      Ready c' p o (d.grow slots (code.map .instr)) :=
  Stands.handled h chunk.atomic hhandled

theorem Ready.code (h : Ready c p o d) : c.emitter.code = d.code := by
  obtain ⟨l, hl, -, -, rfl⟩ := h.home
  exact hl.code_eq

theorem Ready.setup (h : Ready c p o d) : ∀ i ∈ d.slots, i.IsSetup := by
  obtain ⟨l, hl, -, -, rfl⟩ := h.home
  exact hl.active.setup

theorem Ready.group (h : Ready c p o d) {p' : List Nat} {o' : Option Nat} {slots : List Instr}
    {code : List Line} (h' : Ready c' p' o' (d.grow slots code)) :
    c.group c' = code.filterMap Line.action? := by
  rw [Compilation.group, h.code, h'.code, Draft.grow, List.drop_left]

theorem Ready.turns (h : Ready c p o d) {cmd : Command}
    (hkind : cmd.kind ∉ [.beginClass, .endClass, .declareInstance, .endProgram])
    (hcmd : Compilation.handle cmd c = .ok () c') :
    Performs cmd.kind c.emitter c'.emitter ∧
      ∀ p' o' n code, Turns c.emitter c'.emitter p' o' n code →
        Ready c' p' o' (d.grow [] code) := by
  obtain ⟨hprogram, hhandles, hrecords⟩ := handles_of_handle hcmd h.records
  have halong := (handles_iff_along h.recording_eq_none hkind).mp hhandles
  refine ⟨halong.emitter, fun p' o' n code ht => ?_⟩
  obtain ⟨l, hl, -, -, rfl⟩ := h.home
  refine ⟨halong.program.trans hprogram, hrecords, ?_, _, ht.layout l hl, ht.pending_eq,
    ht.openCompare_eq, ?_⟩
  · rw [halong.recording]
    exact h.recording
  · simp [Layout.grow, Draft.grow]

theorem filterMap_action?_straight {code : List Instr}
    (h : ∀ i ∈ code, i.isTerminator = false) :
    (code.map Line.instr).filterMap Line.action? = code := by
  induction code with
  | nil => rfl
  | cons i code ih =>
    have hi : Line.action? (.instr i) = some i := by
      have hi := h i (by simp)
      cases i <;> first | rfl | cases hi
    rw [List.map_cons, List.filterMap_cons_some hi, ih fun j hj => h j (by simp [hj])]

theorem Ready.openCondition (h : Ready c p o d) (mark : Marker .beginCondition)
    (hcmd : Compilation.handle mark.cmd c = .ok () c') :
    o = none ∧ ∃ id, Ready c' p (some id) (d.grow [] (conditionCode id)) := by
  obtain ⟨hperforms, hready⟩ := h.turns (by simp [mark.kind_eq]) hcmd
  rw [mark.kind_eq] at hperforms
  obtain ⟨hopen, ht⟩ := turns_openCondition c.emitter () _ hperforms
  obtain ⟨l, hl, hpending, hopen', -⟩ := h.home
  rw [hpending] at ht
  exact ⟨hopen'.symm.trans hopen, _, hready _ _ _ _ ht⟩

theorem Ready.compare {id : Nat} (h : Ready c p (some id) d) (mark : Marker .compare)
    (hcmd : Compilation.handle mark.cmd c = .ok () c') :
    ∃ n, ∃ code : List Instr, (∀ i ∈ code, i.isTerminator = false) ∧
      Ready c' (id :: p) none (d.grow [] (code.map .instr ++ branchCode n id)) := by
  obtain ⟨hperforms, hready⟩ := h.turns (by simp [mark.kind_eq]) hcmd
  rw [mark.kind_eq] at hperforms
  obtain ⟨left, op, right, hcompare⟩ := hperforms
  obtain ⟨e₁, id', n, code, he₁, hid, hcode, ht⟩ := turns_compare left op right _ () _ hcompare
  obtain ⟨l, hl, hpending, hopen, -⟩ := h.home
  -- The condition is open, so the comparison does not open another one.
  have he : e₁ = c.emitter := by
    rcases he₁ with he₁ | he₁
    · exact he₁
    · obtain ⟨hnone, -⟩ := turns_openCondition c.emitter () _ he₁
      rw [hopen] at hnone
      cases hnone
  subst he
  obtain rfl : id = id' := Option.some.inj (hopen.symm.trans hid)
  rw [hpending] at ht
  exact ⟨n, code, hcode, hready _ _ _ _ ht⟩

theorem Ready.close {id : Nat} (h : Ready c (id :: p) o d) {kind : ControlKind}
    (mark : Marker kind.closing) (hcmd : Compilation.handle mark.cmd c = .ok () c') :
    Ready c' p o (d.grow [] (exitCode kind id)) := by
  have hkinds : kind.closing ∉ [.beginClass, .endClass, .declareInstance, .endProgram] := by
    cases kind <;> simp [ControlKind.closing]
  obtain ⟨hperforms, hready⟩ := h.turns (by rw [mark.kind_eq]; exact hkinds) hcmd
  rw [mark.kind_eq] at hperforms
  have hend : endControl kind c.emitter = .ok () c'.emitter := by
    cases kind <;> exact hperforms
  obtain ⟨id', pending, hpending', ht⟩ := turns_endControl kind c.emitter () _ hend
  obtain ⟨l, hl, hpending, hopen, -⟩ := h.home
  rw [hpending] at hpending'
  obtain ⟨rfl, rfl⟩ := List.cons.inj hpending'
  rw [hopen] at ht
  exact hready _ _ _ _ ht

theorem Ready.ret (h : Ready c p o d) (mark : Marker .ret)
    (hcmd : Compilation.handle mark.cmd c = .ok () c') :
    ∃ (code : List Instr) (type : IrType) (v : Value), (∀ i ∈ code, i.isTerminator = false) ∧
      Ready c' p o (d.grow [] (code.map .instr ++ [.instr (.ret type v)])) := by
  obtain ⟨hperforms, hready⟩ := h.turns (by simp [mark.kind_eq]) hcmd
  rw [mark.kind_eq] at hperforms
  obtain ⟨op, hret⟩ := hperforms
  obtain ⟨-, code, type, v, hcode, ht⟩ := turns_ret op c.emitter () _ hret
  obtain ⟨l, hl, hpending, hopen, -⟩ := h.home
  rw [hpending, hopen] at ht
  exact ⟨code, type, v, hcode, hready _ _ _ _ ht⟩

/-- The notifications of a condition: its code goes behind a label and in front of a branch. -/
theorem Ready.condition (h : Ready c p o d) (opening : Marker .beginCondition) (condition : Chunk)
    (mark : Marker .compare)
    (hhandled : handled? (opening.cmd :: (condition.commands ++ [mark.cmd])) c = some c') :
    o = none ∧ ∃ id n slots, ∃ code : List Instr, (∀ i ∈ code, i.isTerminator = false) ∧
      c.group c' = code ∧ Ready c' (id :: p) none
        (d.grow slots (conditionCode id ++ (code.map .instr ++ branchCode n id))) := by
  obtain ⟨c₁, hc₁, hrest⟩ := handled?_cons.mp hhandled
  obtain ⟨c₂, hc₂, hmark⟩ := handled?_append.mp hrest
  obtain ⟨rfl, id, h₁⟩ := h.openCondition opening hc₁
  obtain ⟨slots, code₂, hcode₂, h₂⟩ := h₁.chunk condition hc₂
  obtain ⟨n, code₃, hcode₃, h₃⟩ := h₂.compare mark (handled?_single.mp hmark)
  have hcode := List.forall_mem_append.mpr ⟨hcode₂, hcode₃⟩
  have h' : Ready c' (id :: p) none
      (d.grow slots (conditionCode id ++ ((code₂ ++ code₃).map .instr ++ branchCode n id))) := by
    simpa using h₃
  refine ⟨rfl, id, n, slots, code₂ ++ code₃, hcode, ?_, h'⟩
  rw [h.group h', List.filterMap_append, List.filterMap_append, filterMap_action?_straight hcode]
  exact List.append_nil _

theorem Ready.returned (h : Ready c p o d) (value : Chunk) (mark : Marker .ret)
    (hhandled : handled? (value.commands ++ [mark.cmd]) c = some c') :
    ∃ (slots code : List Instr) (type : IrType) (v : Value),
      (∀ i ∈ code, i.isTerminator = false) ∧ c.group c' = code ++ [.ret type v] ∧
      Ready c' p o (d.grow slots (code.map .instr ++ [.instr (.ret type v)])) := by
  obtain ⟨c₁, hc₁, hmark⟩ := handled?_append.mp hhandled
  obtain ⟨slots, code₁, hcode₁, h₁⟩ := h.chunk value hc₁
  obtain ⟨code₂, type, v, hcode₂, h₂⟩ := h₁.ret mark (handled?_single.mp hmark)
  have hcode := List.forall_mem_append.mpr ⟨hcode₁, hcode₂⟩
  have h' : Ready c' p o
      (d.grow slots ((code₁ ++ code₂).map .instr ++ [.instr (.ret type v)])) := by
    simpa using h₂
  refine ⟨slots, code₁ ++ code₂, type, v, hcode, ?_, h'⟩
  rw [h.group h', List.filterMap_append, filterMap_action?_straight hcode]
  rfl

end Compilation

open Compilation Emitter in
/-- A body that is handled is lowered, and its code has the structure of the body. -/
theorem Body.exists_lower? (body : Body) {c c' : Compilation} {p : List Nat} {o : Option Nat}
    {d : Draft} (h : c.Ready p o d) (hhandled : handled? body.commands c = some c') :
    ∃ flow slots lines, body.lower? c = some (flow, c') ∧ flow.Coded lines ∧
      c'.Ready p o (d.grow slots lines) := by
  induction body generalizing c c' p o d with
  | stop =>
    cases hhandled
    exact ⟨.stop, [], [], rfl, .stop, by simpa using h⟩
  | simple statement rest ih =>
    obtain ⟨c₁, hc₁, hrest⟩ := handled?_append.mp hhandled
    obtain ⟨slots₁, code, hcode, h₁⟩ := h.chunk statement hc₁
    obtain ⟨flow, slots₂, lines, hflow, hcoded, h₂⟩ := ih h₁ hrest
    have hgroup : c.group c₁ = code := by
      rw [h.group h₁, filterMap_action?_straight hcode]
    refine ⟨.group code flow, slots₁ ++ slots₂, code.map .instr ++ lines, ?_, .group hcode hcoded,
      by simpa using h₂⟩
    simp [lower?, hc₁, hflow, hgroup]
  | ret value mark rest ih =>
    rw [commands, List.append_cons] at hhandled
    obtain ⟨c₁, hc₁, hrest⟩ := handled?_append.mp hhandled
    obtain ⟨slots₁, code, type, v, hcode, hgroup, h₁⟩ := h.returned value mark hc₁
    obtain ⟨flow, slots₂, lines, hflow, hcoded, h₂⟩ := ih h₁ hrest
    refine ⟨.ret (code ++ [.ret type v]) flow, slots₁ ++ slots₂,
      code.map .instr ++ .instr (.ret type v) :: lines, ?_, .ret hcode rfl hcoded,
      by simpa using h₂⟩
    simp [lower?, hc₁, hflow, hgroup]
  | control kind opening condition compare body closing rest ihbody ihrest =>
    rw [commands, List.append_cons, ← List.cons_append] at hhandled
    obtain ⟨c₁, hc₁, hhandled⟩ := handled?_append.mp hhandled
    obtain ⟨c₂, hc₂, hhandled⟩ := handled?_append.mp hhandled
    obtain ⟨c₃, hc₃, hrest⟩ := handled?_cons.mp hhandled
    obtain ⟨rfl, id, n, slots₁, code, hcode, hgroup, h₁⟩ :=
      h.condition opening condition compare hc₁
    obtain ⟨inner, slots₂, lines₂, hinner, hcoded₂, h₂⟩ := ihbody h₁ hc₂
    have h₃ := h₂.close closing hc₃
    obtain ⟨flow, slots₄, lines₄, hflow, hcoded₄, h₄⟩ := ihrest h₃ hrest
    refine ⟨.control kind code inner flow, slots₁ ++ (slots₂ ++ slots₄),
      conditionCode id ++ (code.map .instr ++ (branchCode n id ++ (lines₂ ++
        (exitCode kind id ++ lines₄)))), ?_, .control hcode hcoded₂ hcoded₄, by simpa using h₄⟩
    simp [lower?, hc₁, hinner, handled?_single.mpr hc₃, hflow, hgroup]

end MkCompiler
