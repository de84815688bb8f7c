import Mathlib.Data.List.Forall2
import MkCompiler.Proofs.Histories

/-!
# Expressions

Expressions as trees, the notifications that they arrive as, and which of them are well typed in a
symbol table. The rules mention neither the operand stack nor the emitter. Notifications of
expressions change nothing else.
-/

namespace MkCompiler

open MkCompiler.Action

/-- An expression. Every node has the source line that it is notified at. -/
inductive Expression where
  | int (line : Int) (text : String)
  | real (line : Int) (text : String)
  | name (line : Int) (name : String)
  | member (line : Int) (inst field : String)
  | element (line : Int) (array : String) (index : Expression)
  | arith (line : Int) (op : ArithOp) (left right : Expression)
  | call (line : Int) (name : String) (args : List Expression)
  | callMethod (line : Int) (inst method : String) (args : List Expression)

namespace Expression

mutual

def commands : Expression → List Command
  | .int line text => [(Notification.int text).toCommand line]
  | .real line text => [(Notification.real text).toCommand line]
  | .name line x => [(Notification.variable x).toCommand line]
  | .member line inst field => [(Notification.member inst field).toCommand line]
  | .element line array index => index.commands ++ [(Notification.element array).toCommand line]
  | .arith line op left right =>
    left.commands ++ right.commands ++ [(Notification.arith op).toCommand line]
  | .call line f args => commandsOf args ++ [(Notification.call f args.length).toCommand line]
  | .callMethod line inst method args =>
    commandsOf args ++ [(Notification.callMethod inst method args.length).toCommand line]

def commandsOf : List Expression → List Command
  | [] => []
  | arg :: args => arg.commands ++ commandsOf args

end

/-- Induction on an expression, with all arguments of a call at once. -/
theorem induction {P : Expression → Prop} (int : ∀ line text, P (.int line text))
    (real : ∀ line text, P (.real line text)) (name : ∀ line name, P (.name line name))
    (member : ∀ line inst field, P (.member line inst field))
    (element : ∀ line array index, P index → P (.element line array index))
    (arith : ∀ line op left right, P left → P right → P (.arith line op left right))
    (call : ∀ line name args, (∀ arg ∈ args, P arg) → P (.call line name args))
    (callMethod : ∀ line inst method args, (∀ arg ∈ args, P arg) →
      P (.callMethod line inst method args)) (e : Expression) : P e :=
  @Expression.rec P (fun args => ∀ arg ∈ args, P arg) int real name member element arith call
    callMethod (by simp) (fun arg args harg hargs => by simpa using ⟨harg, hargs⟩) e

end Expression

/-! ## Typing -/

/-- What is known of the value of an expression: its type, whether it is a whole array, and the
value itself if it is an integer literal. -/
structure Shape where
  type : DataType
  isArray : Bool := false
  literal : Option Int := none
  deriving DecidableEq, Repr

/-- A name stands for a variable or a whole array. -/
def Shape.ofBinding (b : Binding) : Shape :=
  { type := b.type, isArray := decide (b.kind = .array) }

def Shape.Suits (s : Shape) (type : DataType) : Prop :=
  s.isArray = false ∧ s.type.storage = type.storage

namespace SymbolTable

variable {t : SymbolTable}

def field? (t : SymbolTable) (inst field : String) : Option Global :=
  (t.instances.find? inst).bind fun i => i.fields.find? field

/-- What a name stands for: first comes the function body, then the current instance, then the
program. -/
def meaning? (t : SymbolTable) (name : String) : Option Binding :=
  ((t.local? name).map .slot).or
    (((t.current.bind fun inst => t.field? inst name).map .global).or
      ((t.globals.find? name).map .global))

/-- What a call calls: first comes the current instance, then the program. -/
def callee? (t : SymbolTable) (name : String) : Option Signature :=
  (t.current.bind fun inst => t.method? inst name).or (t.functions.find? name)

theorem resolve?_eq_meaning? (t : SymbolTable) (name : String) :
    t.resolve? name = t.meaning? name := by
  have hfield : t.currentFields.find? name = t.current.bind fun inst => t.field? inst name := by
    unfold currentFields field?
    cases t.current with
    | none => rfl
    | some inst =>
      dsimp only [Option.bind_some]
      cases t.instances.find? inst <;> rfl
  unfold resolve? meaning? local?
  rw [hfield]
  cases t.locals.bind (·.find? name) with
  | some l => rfl
  | none => cases t.current.bind fun inst => t.field? inst name <;> rfl

end SymbolTable

namespace Expression

/-- The expression is well typed in a symbol table, and its value has the shape. -/
inductive HasShape (t : SymbolTable) : Expression → Shape → Prop
  | int {line : Int} {text : String} {v : Int} (h : Numeral.word32? text.toList = some v) :
      HasShape t (.int line text) { type := .int, literal := some v }
  | real {line : Int} {text : String} {v : Binary64} (h : Numeral.real? text.toList = some v) :
      HasShape t (.real line text) { type := .real }
  | name {line : Int} {name : String} {b : Binding} (h : t.meaning? name = some b) :
      HasShape t (.name line name) (.ofBinding b)
  | member {line : Int} {inst field : String} {g : Global} (h : t.field? inst field = some g) :
      HasShape t (.member line inst field) (.ofBinding (.global g))
  | element {line : Int} {array : String} {index : Expression} {g : Global} {s : Shape}
      (harray : t.meaning? array = some (.global g)) (hkind : g.kind = .array)
      (hindex : HasShape t index s) (htype : s.type.storage = .int) (hvalue : s.isArray = false)
      (hbounds : ∀ v, s.literal = some v → 0 ≤ v ∧ v < g.length) :
      HasShape t (.element line array index) { type := g.type }
  | arith {line : Int} {op : ArithOp} {left right : Expression} {l r : Shape}
      (hleft : HasShape t left l) (hright : HasShape t right r) (hl : l.isArray = false)
      (hr : r.isArray = false) :
      HasShape t (.arith line op left right) { type := op.resultType l.type r.type }
  | call {line : Int} {name : String} {args : List Expression} {shapes : List Shape}
      {sig : Signature} (hcallee : t.callee? name = some sig)
      (hargs : List.Forall₂ (HasShape t) args shapes)
      (hparams : List.Forall₂ Shape.Suits shapes sig.params) :
      HasShape t (.call line name args) { type := sig.result }
  | callMethod {line : Int} {inst method : String} {args : List Expression} {shapes : List Shape}
      {sig : Signature} (hmethod : t.method? inst method = some sig)
      (hargs : List.Forall₂ (HasShape t) args shapes)
      (hparams : List.Forall₂ Shape.Suits shapes sig.params) :
      HasShape t (.callMethod line inst method args) { type := sig.result }

variable {t : SymbolTable}

theorem hasShape_int {line : Int} {text : String} {s : Shape} : HasShape t (.int line text) s ↔
    ∃ v, Numeral.word32? text.toList = some v ∧ { type := .int, literal := some v } = s := by
  constructor
  · intro h
    cases h with
    | int hv => exact ⟨_, hv, rfl⟩
  · rintro ⟨v, hv, rfl⟩
    exact .int hv

theorem hasShape_real {line : Int} {text : String} {s : Shape} : HasShape t (.real line text) s ↔
    ∃ v, Numeral.real? text.toList = some v ∧ { type := .real } = s := by
  constructor
  · intro h
    cases h with
    | real hv => exact ⟨_, hv, rfl⟩
  · rintro ⟨v, hv, rfl⟩
    exact .real hv

theorem hasShape_name {line : Int} {name : String} {s : Shape} : HasShape t (.name line name) s ↔
    ∃ b, t.meaning? name = some b ∧ .ofBinding b = s := by
  constructor
  · intro h
    cases h with
    | name hb => exact ⟨_, hb, rfl⟩
  · rintro ⟨b, hb, rfl⟩
    exact .name hb

theorem hasShape_member {line : Int} {inst field : String} {s : Shape} :
    HasShape t (.member line inst field) s ↔
      ∃ g, t.field? inst field = some g ∧ .ofBinding (.global g) = s := by
  constructor
  · intro h
    cases h with
    | member hg => exact ⟨_, hg, rfl⟩
  · rintro ⟨g, hg, rfl⟩
    exact .member hg

theorem hasShape_call {line : Int} {name : String} {args : List Expression} {s : Shape} :
    HasShape t (.call line name args) s ↔ ∃ sig shapes, t.callee? name = some sig ∧
      List.Forall₂ (HasShape t) args shapes ∧ List.Forall₂ Shape.Suits shapes sig.params ∧
      { type := sig.result } = s := by
  constructor
  · intro h
    cases h with
    | call hcallee hargs hparams => exact ⟨_, _, hcallee, hargs, hparams, rfl⟩
  · rintro ⟨sig, shapes, hcallee, hargs, hparams, rfl⟩
    exact .call hcallee hargs hparams

theorem hasShape_callMethod {line : Int} {inst method : String} {args : List Expression}
    {s : Shape} : HasShape t (.callMethod line inst method args) s ↔
      ∃ sig shapes, t.method? inst method = some sig ∧
        List.Forall₂ (HasShape t) args shapes ∧ List.Forall₂ Shape.Suits shapes sig.params ∧
        { type := sig.result } = s := by
  constructor
  · intro h
    cases h with
    | callMethod hmethod hargs hparams => exact ⟨_, _, hmethod, hargs, hparams, rfl⟩
  · rintro ⟨sig, shapes, hmethod, hargs, hparams, rfl⟩
    exact .callMethod hmethod hargs hparams

theorem HasShape.unique {e : Expression} {s s' : Shape} (h : HasShape t e s)
    (h' : HasShape t e s') : s = s' := by
  induction e using Expression.induction generalizing s s' with
  | int line text =>
    cases h with
    | int hv => cases h' with
      | int hv' => rw [Option.some.inj (hv.symm.trans hv')]
  | real line text =>
    cases h
    cases h'
    rfl
  | name line name =>
    cases h with
    | name hb => cases h' with
      | name hb' => rw [Option.some.inj (hb.symm.trans hb')]
  | member line inst field =>
    cases h with
    | member hg => cases h' with
      | member hg' => rw [Option.some.inj (hg.symm.trans hg')]
  | element line array index ih =>
    cases h with
    | element hg => cases h' with
      | element hg' =>
        cases Option.some.inj (hg.symm.trans hg')
        rfl
  | arith line op left right ihl ihr =>
    cases h with
    | arith hl hr => cases h' with
      | arith hl' hr' => rw [ihl hl hl', ihr hr hr']
  | call line name args ih =>
    cases h with
    | call hsig => cases h' with
      | call hsig' => rw [Option.some.inj (hsig.symm.trans hsig')]
  | callMethod line inst method args ih =>
    cases h with
    | callMethod hsig => cases h' with
      | callMethod hsig' => rw [Option.some.inj (hsig.symm.trans hsig')]

/-! ## Notifications -/

theorem exists_of_mem_commandsOf {args : List Expression} {cmd : Command}
    (h : cmd ∈ commandsOf args) : ∃ arg ∈ args, cmd ∈ arg.commands := by
  induction args with
  | nil => cases h
  | cons arg args ih =>
    rw [commandsOf, List.mem_append] at h
    rcases h with h | h
    · exact ⟨arg, by simp, h⟩
    · obtain ⟨arg', harg', hcmd⟩ := ih h
      exact ⟨arg', by simp [harg'], hcmd⟩

def kinds : List CommandKind :=
  [.int, .real, .name, .element, .member, .arith, .call, .callMethod]

theorem kind_mem_kinds {e : Expression} : ∀ cmd ∈ e.commands, cmd.kind ∈ kinds := by
  induction e using Expression.induction with
  | int line text => simp [commands, Notification.toCommand, kinds]
  | real line text => simp [commands, Notification.toCommand, kinds]
  | name line name => simp [commands, Notification.toCommand, kinds]
  | member line inst field => simp [commands, Notification.toCommand, kinds]
  | element line array index ih =>
    intro cmd hcmd
    rw [commands, List.mem_append, List.mem_singleton] at hcmd
    rcases hcmd with hcmd | rfl
    · exact ih cmd hcmd
    · simp [Notification.toCommand, kinds]
  | arith line op left right ihl ihr =>
    intro cmd hcmd
    rw [commands, List.mem_append, List.mem_append, List.mem_singleton] at hcmd
    rcases hcmd with (hcmd | hcmd) | rfl
    · exact ihl cmd hcmd
    · exact ihr cmd hcmd
    · simp [Notification.toCommand, kinds]
  | call line name args ih =>
    intro cmd hcmd
    rw [commands, List.mem_append, List.mem_singleton] at hcmd
    rcases hcmd with hcmd | rfl
    · obtain ⟨arg, harg, hcmd⟩ := exists_of_mem_commandsOf hcmd
      exact ih arg harg cmd hcmd
    · simp [Notification.toCommand, kinds]
  | callMethod line inst method args ih =>
    intro cmd hcmd
    rw [commands, List.mem_append, List.mem_singleton] at hcmd
    rcases hcmd with hcmd | rfl
    · obtain ⟨arg, harg, hcmd⟩ := exists_of_mem_commandsOf hcmd
      exact ih arg harg cmd hcmd
    · simp [Notification.toCommand, kinds]

end Expression

namespace Compilation

variable {c c' : Compilation} {commands : List Command}

theorem contained_of_mem_kinds {cmd : Command} (h : cmd.kind ∈ Expression.kinds) :
    Contained (construct cmd) := by
  apply contained_construct
  intro hother
  simp only [Expression.kinds, List.mem_cons, List.not_mem_nil, or_false] at h hother
  rcases h with h | h | h | h | h | h | h | h <;> simp [h] at hother

theorem contained_replay (h : ∀ cmd ∈ commands, cmd.kind ∈ Expression.kinds) :
    Leads SameContext (replay commands) := by
  induction commands with
  | nil => exact .pure _
  | cons cmd rest ih =>
    apply (leads_locate (contained_of_mem_kinds (h cmd (by simp))) cmd.line).bind
    intro _
    exact ih fun cmd' hcmd' => h cmd' (List.mem_cons_of_mem _ hcmd')

/-- Notifications of expressions are handled as they are run in the body of a class. -/
theorem handled?_iff_replay (h : ∀ cmd ∈ commands, cmd.kind ∈ Expression.kinds)
    (hprogram : c.program = none) (hrecording : c.recording = none) :
    handled? commands c = some c' ↔ replay commands c = .ok () c' := by
  induction commands generalizing c with
  | nil =>
    change some c = some c' ↔ EStateM.Result.ok () c = EStateM.Result.ok () c'
    simp
  | cons cmd rest ih =>
    have hcmd := h cmd (by simp)
    have hkind : cmd.kind ≠ .declareInstance := by
      intro heq
      rw [heq] at hcmd
      simp [Expression.kinds] at hcmd
    rw [handled?, handle_eq_construct hprogram hrecording hkind]
    change _ ↔ EStateM.bind (locate cmd.line (construct cmd)) (fun _ => replay rest) c = _
    unfold EStateM.bind
    cases hrun : locate cmd.line (construct cmd) c with
    | error stop c₁ => simp
    | ok _ c₁ =>
      have hsame := (leads_locate (contained_of_mem_kinds hcmd) cmd.line c).of_ok hrun
      exact ih (fun cmd' hcmd' => h cmd' (List.mem_cons_of_mem _ hcmd'))
        (hsame.program.trans hprogram) (hsame.recording.trans hrecording)

end Compilation

end MkCompiler
