import Mathlib.Tactic.Tauto
import MkCompiler.Proofs.Safety
import MkCompiler.Proofs.Typing

/-!
# Growth of the program

What an operation of the emitter adds to the program: lines of the header, named slots at the top of
the active body, and code behind it. The code is typed in the environment of the operands, together
with the storage that has been added.
-/

namespace MkCompiler

open MkCompiler.Action

/-- Storage that an operation declares: lines of the header, named slots of the active body, and the
names of those slots that hold the results of methods. -/
@[ext]
structure Storage where
  header : List Line := []
  slots : List (LocalName × IrType) := []
  results : List String := []

namespace Storage

instance : Append Storage where
  append a b := ⟨a.header ++ b.header, a.slots ++ b.slots, a.results ++ b.results⟩

variable (a b : Storage)

@[simp] theorem header_append : (a ++ b).header = a.header ++ b.header := rfl

@[simp] theorem slots_append : (a ++ b).slots = a.slots ++ b.slots := rfl

@[simp] theorem results_append : (a ++ b).results = a.results ++ b.results := rfl

@[simp] theorem nil_append : {} ++ a = a := by
  ext1 <;> simp

@[simp] theorem append_nil : a ++ {} = a := by
  ext1 <;> simp

def allocas : List Instr :=
  a.slots.map fun slot => .alloca slot.1 slot.2

@[simp] theorem allocas_append : (a ++ b).allocas = a.allocas ++ b.allocas := by
  simp [allocas]

end Storage

namespace Env

variable {Γ Γ' : Env} {s s' : Storage}

def add (Γ : Env) (s : Storage) : Env where
  globals name type := Γ.globals name type ∨ (name, type) ∈ s.header.flatMap Line.declares
  locals name type := Γ.locals name type ∨ (name, type) ∈ s.allocas.flatMap Instr.defines

theorem le_add (Γ : Env) (s : Storage) : Γ.Le (Γ.add s) :=
  ⟨fun _ _ => .inl, fun _ _ => .inl⟩

@[simp] theorem add_nil (Γ : Env) : Γ.add {} = Γ := by
  ext <;> simp [add, Storage.allocas]

theorem add_append_after (Γ : Env) (s s' : Storage) (code code' : List Line) :
    (((Γ.add s).after code).add s').after code' =
      (Γ.add (s ++ s')).after (code ++ code') := by
  ext <;> simp only [add, after, Storage.header_append, Storage.allocas_append,
    List.flatMap_append, List.mem_append] <;> tauto

theorem add_after_le (Γ : Env) (s s' : Storage) (code : List Line) :
    (((Γ.add s).after code).add s').Le ((Γ.add (s ++ s')).after code) := by
  have h := add_append_after Γ s s' code []
  rw [after_nil, List.append_nil] at h
  rw [h]
  exact .refl _

theorem add_le_append (Γ : Env) (s s' : Storage) : (Γ.add s).Le (Γ.add (s ++ s')) := by
  constructor
  · intro name type h
    exact h.imp id fun h => by simp [h]
  · intro name type h
    exact h.imp id fun h => by simp [h]

end Env

namespace Emitter

variable {α β : Type} {e e' e'' : Emitter} {Γ : Env} {s s' : Storage} {code code' : List Line}
  {P Q : Storage → Env → α → Prop}

/-- The active context changes, and storage and code are added to the program. -/
structure Adds (e e' : Emitter) (s : Storage) (code : List Line) : Prop where
  frame : ∃ c o n, e' = { modifyActive (fun _ => c) e with output := o, labels := n } ∧
    c.results = e.active.results ++ s.results
  layout : ∀ l, e.Lays l → e'.Lays (l.grow s.header s.allocas code)

theorem Adds.symbols_eq (h : Adds e e' s code) : e'.symbols = e.symbols := by
  obtain ⟨⟨c, o, n, rfl, -⟩, -⟩ := h
  exact symbols_modifyActive e _

theorem Adds.results_eq (h : Adds e e' s code) :
    e'.active.results = e.active.results ++ s.results := by
  obtain ⟨⟨c, o, n, rfl, hresults⟩, -⟩ := h
  rw [← hresults]
  exact congrArg _ (active_modifyActive e fun _ => c)

theorem Adds.signature_eq (h : Adds e e' s code) :
    e'.function.map OpenFunction.signature = e.function.map OpenFunction.signature := by
  obtain ⟨⟨c, o, n, rfl, -⟩, -⟩ := h
  unfold modifyActive
  cases e.function <;> simp

theorem Adds.entry_eq (h : Adds e e' s code) (hf : e.function.isSome = true) :
    e'.entry = e.entry := by
  obtain ⟨⟨c, o, n, rfl, -⟩, -⟩ := h
  obtain ⟨f, hf⟩ := Option.isSome_iff_exists.mp hf
  unfold modifyActive
  rw [hf]

theorem Adds.of_eq {c : FunctionContext} {o : Assembly Line}
    (he : e' = { modifyActive (fun _ => c) e with output := o })
    (hresults : c.results = e.active.results ++ s.results)
    (hl : ∀ l, e.Lays l → e'.Lays (l.grow s.header s.allocas code)) : Adds e e' s code := by
  refine ⟨⟨c, o, e.labels, ?_, hresults⟩, hl⟩
  rw [he]
  unfold modifyActive
  cases e.function <;> rfl

theorem Adds.refl (e : Emitter) : Adds e e {} [] := by
  apply Adds.of_eq (c := e.active) (o := e.output)
  · rw [modifyActive_active]
  · simp
  · intro l hl
    simpa [Storage.allocas] using hl

theorem Adds.trans (h : Adds e e' s code) (h' : Adds e' e'' s' code') :
    Adds e e'' (s ++ s') (code ++ code') := by
  have hresults := h.results_eq
  obtain ⟨⟨c, o, n, rfl, -⟩, hl⟩ := h
  obtain ⟨⟨c', o', n', rfl, hresults'⟩, hl'⟩ := h'
  refine ⟨⟨c', o', n', ?_, ?_⟩, ?_⟩
  · unfold modifyActive
    cases e.function <;> rfl
  · rw [hresults', hresults, Storage.results_append, List.append_assoc]
  · intro l hlays
    simpa using hl' _ (hl l hlays)

theorem adds_write {k : Counter} (hk : e.active.counter.Reads code k) :
    Adds e (e.write code k) {} code := by
  apply Adds.of_eq (write_eq code k e)
  · simp
  · intro l hl
    exact hl.write hk

/-- What neither the layout nor the results show of the active context may change. -/
theorem adds_context {f : FunctionContext → FunctionContext}
    (hf : ∀ c, (f c).target = c.target ∧ (f c).slots = c.slots ∧ (f c).counter = c.counter ∧
      (f c).results = c.results) (e : Emitter) : Adds e (modifyActive f e) {} [] := by
  obtain ⟨ht, hs, hk, hr⟩ := hf e.active
  apply Adds.of_eq (modifyActive_eq f e)
  · simpa using hr
  · intro l hl
    simpa [Storage.allocas] using hl.modifyActive ht hs hk

theorem adds_labels (e : Emitter) (n : Nat) : Adds e { e with labels := n } {} [] := by
  refine ⟨⟨e.active, e.output, n, ?_, by simp⟩, ?_⟩
  · rw [modifyActive_active]
  · intro l hl
    simpa [Storage.allocas] using hl.withLabels n

/-- The operation adds storage and typed code, and its result is as described behind them. -/
def Builds (e : Emitter) (Γ : Env) (x : Action Emitter α) (Q : Storage → Env → α → Prop) : Prop :=
  Ensures x e fun a e' => ∃ s code, Adds e e' s code ∧ (Γ.add s).Accepts code ∧
    Q s ((Γ.add s).after code) a

theorem Builds.mono {x : Action Emitter α} (h : Builds e Γ x P)
    (hpq : ∀ s Γ' a, (Γ.add s).Le Γ' → P s Γ' a → Q s Γ' a) : Builds e Γ x Q := by
  refine Ensures.mono h ?_
  rintro a e' ⟨s, code, hadds, htypes, hp⟩
  exact ⟨s, code, hadds, htypes, hpq s _ a (Env.le_after _ _) hp⟩

theorem Builds.bind {x : Action Emitter α} {f : α → Action Emitter β}
    {R : Storage → Env → β → Prop} (hx : Builds e Γ x P)
    (hf : ∀ s Γ' a e' code, Adds e e' s code → (Γ.add s).Le Γ' → P s Γ' a →
      Builds e' Γ' (f a) fun s' => R (s ++ s')) : Builds e Γ (x >>= f) R := by
  rw [Builds, ensures_bind]
  refine Ensures.mono hx ?_
  rintro a e' ⟨s, code, hadds, htypes, hp⟩
  refine Ensures.mono (hf s _ a e' code hadds (Env.le_after _ _) hp) ?_
  rintro b e'' ⟨s', code', hadds', htypes', hr⟩
  refine ⟨s ++ s', code ++ code', hadds.trans hadds', ?_, ?_⟩
  · apply Env.Accepts.append
    · exact htypes.mono (Env.add_le_append Γ s s')
    · exact htypes'.mono (Env.add_after_le Γ s s' code)
  · rwa [← Env.add_append_after]

theorem Writes.builds {x : Action Emitter α} {R : Env → α → Prop}
    (h : Writes e.symbols Γ x R) : Builds e Γ x fun s Γ' a => s = {} ∧ R Γ' a := by
  refine (h e rfl).mono ?_
  rintro a _ ⟨code, k, hk, rfl, htypes, hr⟩
  exact ⟨{}, code, adds_write hk, by simpa using htypes, rfl, by simpa using hr⟩

theorem Writes.bind_builds {x : Action Emitter α} {f : α → Action Emitter β} {R : Env → α → Prop}
    {Q : Storage → Env → β → Prop} (hx : Writes e.symbols Γ x R)
    (hf : ∀ Γ' a e' code, Adds e e' {} code → Γ.Le Γ' → R Γ' a → Builds e' Γ' (f a) Q) :
    Builds e Γ (x >>= f) Q := by
  apply hx.builds.bind
  rintro _ Γ' a e' code hadds hle ⟨rfl, hr⟩
  simpa using hf Γ' a e' code hadds (by simpa using hle) hr

theorem Builds.bind_writes {x : Action Emitter α} {f : α → Action Emitter β}
    {R : Storage → Env → β → Prop} (hx : Builds e Γ x P)
    (hf : ∀ s Γ' a, (Γ.add s).Le Γ' → P s Γ' a → Writes e.symbols Γ' (f a) (R s)) :
    Builds e Γ (x >>= f) R := by
  apply hx.bind
  intro s Γ' a e' code hadds hle hp
  have hrest := hf s Γ' a hle hp
  rw [← hadds.symbols_eq] at hrest
  refine hrest.builds.mono ?_
  rintro _ Γ'' b _ ⟨rfl, hr⟩
  simpa using hr

theorem Builds.ite {p : Prop} [Decidable p] {x y : Action Emitter α} (hx : p → Builds e Γ x Q)
    (hy : ¬p → Builds e Γ y Q) : Builds e Γ (if p then x else y) Q :=
  ensures_ite.mpr ⟨hx, hy⟩

theorem builds_throw (f : Failure) : Builds e Γ (throw f : Action Emitter α) Q :=
  ensures_throw.mpr trivial

theorem builds_reject (v : Violation) : Builds e Γ (Action.reject v : Action Emitter α) Q :=
  ensures_reject.mpr trivial

theorem builds_get {f : Emitter → Action Emitter α} (hf : Builds e Γ (f e) Q) :
    Builds e Γ (get >>= f) Q := by
  rw [Builds, ensures_bind, ensures_get]
  exact hf

end Emitter

/-! ## Storage -/

namespace Binding

def storage : Binding → Storage
  | .global g => { header := [.cell g.symbol g.type.irType g.type.storage.zero] }
  | .slot l => { slots := [(l.slot, l.type.irType)] }

def added (b : Binding) (type : DataType) : Storage :=
  if b.type.storage = type.storage then {} else (b.withVersion (b.version + 1) type).storage

theorem pointer_in_storage (Γ : Env) (b : Binding) :
    b.pointer.In (Γ.add b.storage) b.type.irType := by
  cases b with
  | global g =>
    refine ⟨by simp [pointer, Pointer.localUses], ?_⟩
    simp [pointer, Pointer.symbolUses, Env.add, storage, Line.declares, type]
  | slot l =>
    refine ⟨?_, by simp [pointer, Pointer.symbolUses]⟩
    simp [pointer, Pointer.localUses, Env.add, storage, Storage.allocas, Instr.defines, type]

/-- A variable keeps its storage, or moves to the storage that is added. -/
theorem rebound_cases (b : Binding) (type : DataType) :
    (b.added type = {} ∧ ∃ type', type'.irType = b.type.irType ∧
      b.rebound type = b.withVersion b.version type') ∨
    b.added type = (b.withVersion (b.version + 1) type).storage ∧
      b.rebound type = b.withVersion (b.version + 1) type := by
  unfold rebound added
  by_cases hsame : b.type.storage = type.storage
  · rw [if_pos hsame, if_pos hsame]
    refine .inl ⟨rfl, ?_⟩
    split
    · exact ⟨b.type, rfl, by cases b <;> rfl⟩
    · refine ⟨type, ?_, rfl⟩
      rw [← DataType.irType_storage, ← hsame, DataType.irType_storage]
  · rw [if_neg hsame, if_neg hsame]
    exact .inr ⟨rfl, rfl⟩

theorem storage_rebound (b : Binding) (type : DataType) :
    (b.rebound type).type.storage = type.storage := by
  have htype (version : Int) : (b.withVersion version type).type = type := by cases b <;> rfl
  unfold rebound
  split
  · next hsame =>
    split
    · exact hsame
    · rw [htype]
  · rw [htype]

theorem irType_rebound (b : Binding) (type : DataType) :
    (b.rebound type).type.irType = type.irType := by
  rw [← DataType.irType_storage, storage_rebound, DataType.irType_storage]

theorem pointer_in_rebound {Γ : Env} {b : Binding} (h : b.pointer.In Γ b.type.irType)
    (type : DataType) : (b.rebound type).pointer.In (Γ.add (b.added type)) type.irType := by
  rw [← b.irType_rebound type]
  rcases b.rebound_cases type with ⟨hadded, type', hir, hrebound⟩ | ⟨hadded, hrebound⟩
  · rw [hadded, hrebound, Env.add_nil]
    cases b <;> exact hir ▸ h
  · rw [hadded, hrebound]
    exact pointer_in_storage Γ _

/-- What a variable of the program or a local variable refers to can be stored to. -/
theorem pointer_in {Γ : Env} {b : Binding} (h : b.toOperand.In Γ)
    (hb : ∀ g, b = .global g → g.index = none) (hkind : b.kind = .variable) :
    b.pointer.In Γ b.type.irType := by
  cases b with
  | slot l =>
    refine ⟨?_, by simp [pointer, Pointer.symbolUses]⟩
    simpa [pointer, Pointer.localUses, type, toOperand, Operand.In] using h
  | global g =>
    have hkind : g.kind = .variable := hkind
    simp only [toOperand, Global.toOperand, hb g rfl] at h
    obtain ⟨-, hcell⟩ := h.resolve_left (by simp [hkind])
    refine ⟨by simp [pointer, Pointer.localUses], ?_⟩
    simpa [pointer, Pointer.symbolUses, type] using hcell

theorem kind_of_in {Γ : Env} {b : Binding} (h : b.toOperand.In Γ)
    (hb : ∀ g, b = .global g → g.index = none) : b.kind = .array ∨ b.kind = .variable := by
  cases b with
  | slot l => exact .inr rfl
  | global g =>
    simp only [toOperand, Global.toOperand, hb g rfl] at h
    exact h.imp id And.left

/-- The code that sets new storage to zero. That of the program starts out as zero. -/
def zeroing (zeroed : Bool) : Binding → List Line
  | .global _ => []
  | .slot l =>
    if zeroed then
      [.instr (.store l.type.irType (.constant l.type.storage.zero) (.frame l.slot))]
    else []

end Binding

namespace Emitter

variable {α : Type} {e : Emitter} {Γ : Env}

theorem builds_hoist (name : String) (version : Int) (type : DataType) :
    Builds e Γ (hoist (.slot name version) type) fun s _ _ =>
      s = { slots := [(.slot name version, type.irType)] } := by
  refine (ensures_hoist name version type e).mono ?_
  rintro _ _ ⟨slots, o, rfl, hl⟩
  exact ⟨_, [], .of_eq rfl (by simp) hl, Env.accepts_nil, rfl⟩

theorem adds_header {line : Line} (h : line.isStorage = true) (e : Emitter) :
    Adds e (appendHeader line e) { header := [line] } [] := by
  apply Adds.of_eq (c := e.active) (o := e.output.appendTo .header [line])
  · rw [modifyActive_active]
    rfl
  · simp
  · intro l hl
    exact hl.appendHeader h

theorem Adds.write {e' : Emitter} {s : Storage} {code : List Line} {k : Counter}
    (h : Adds e e' s []) (hk : e'.active.counter.Reads code k) :
    Adds e (e'.write code k) s code := by
  simpa using h.trans (adds_write hk)

theorem adds_declareStorage (b : Binding) (zeroed : Bool) (e : Emitter) :
    Ensures (declareStorage b zeroed) e fun _ e' => b.kind = .variable ∧ b.type.isLowered = true ∧
      (b.storage.slots ≠ [] → e.inFunction = true) ∧ Adds e e' b.storage (b.zeroing zeroed) := by
  rw [declareStorage, ensures_bind, ensures_require]
  intro hlowered
  cases b with
  | global g =>
    refine ensures_ite.mpr ⟨fun hkind => ?_, fun _ => ensures_throw.mpr trivial⟩
    rw [ensures_modify]
    refine ⟨hkind, hlowered, by simp [Binding.storage], ?_⟩
    have hadds := adds_header (Line.isStorage_cell g.toCell g.type.irType g.type.storage.zero) e
    simpa [Binding.storage, Binding.type, Binding.zeroing] using hadds
  | slot v =>
    rw [ensures_bind, ensures_get]
    refine ensures_ite.mpr ⟨fun hinside => ?_, fun _ => ensures_throw.mpr trivial⟩
    rw [ensures_bind]
    refine (ensures_hoist v.name v.version _ e).mono ?_
    rintro _ e₁ ⟨slots, o, he₁, hlays⟩
    have hadds : Adds e e₁ (Binding.slot v).storage [] := by
      refine .of_eq he₁ (by simp [Binding.storage]) ?_
      simpa [Binding.storage, Storage.allocas, Local.slot, Binding.type] using hlays
    refine ensures_ite.mpr ⟨fun hzeroed => ?_, fun hzeroed => ?_⟩
    · rw [store, ensures_emit]
      have hreads : e₁.active.counter.Reads ((Binding.slot v).zeroing true)
          e₁.active.counter.enter :=
        .single (.effect rfl rfl)
      refine ⟨rfl, hlowered, fun _ => hinside, ?_⟩
      simpa [hzeroed, Binding.zeroing, Binding.type] using hadds.write hreads
    · rw [ensures_pure, eq_false_of_ne_true hzeroed]
      exact ⟨rfl, hlowered, fun _ => hinside, hadds⟩

theorem builds_declareStorage (b : Binding) (zeroed : Bool) :
    Builds e Γ (declareStorage b zeroed) fun s _ _ => s = b.storage ∧ b.kind = .variable := by
  have hzeroing : (Γ.add b.storage).Accepts (b.zeroing zeroed) := by
    cases b with
    | global g => exact Env.accepts_nil
    | slot l =>
      have hpointer := Binding.pointer_in_storage Γ (.slot l)
      cases zeroed with
      | true => exact Env.accepts_singleton ⟨hpointer.symbols, hpointer.locals⟩ rfl
      | false => exact Env.accepts_nil
  refine (adds_declareStorage b zeroed e).mono ?_
  rintro _ e' ⟨hkind, -, -, hadds⟩
  exact ⟨_, _, hadds, hzeroing, rfl, hkind⟩

/-! ## Assignments -/

/-- A value of a type is stored in a variable, which is bound to `b` then. The code is that of
`C` for the storage the value goes to. -/
structure Assigns (e : Emitter) (left : Binding) (type : DataType) (C : Pointer → List Line → Prop)
    (b : Binding) (e' : Emitter) : Prop where
  kind : left.kind = .variable
  lowered : type.isLowered = true
  bound : b = left.rebound type
  inside : (left.added type).slots ≠ [] → e.inFunction = true
  adds : ∃ code, Adds e e' (left.added type) code ∧ C (left.rebound type).pointer code

def StoresCode (right : Operand) (target : Pointer) (code : List Line) : Prop :=
  ∃ front v, right.ReadBy front v ∧
    code = front ++ [.instr (.store right.type.irType v target)]

def ScansCode (symbols : RuntimeSymbols) (type : DataType) (target : Pointer) (code : List Line) :
    Prop :=
  ∃ n, code = [.instr (.scan n (.external symbols.scanf) (symbols.scanFormat type) type.irType
    target)]

theorem adds_rebind (b : Binding) (type : DataType) (e : Emitter) :
    Ensures (rebind b type) e fun b' e' => b' = b.rebound type ∧
      ((b.added type).slots ≠ [] → e.inFunction = true) ∧ Adds e e' (b.added type) [] := by
  unfold rebind Binding.rebound Binding.added
  rw [ensures_ite]
  constructor
  · intro hsame
    rw [if_pos hsame, if_pos hsame, ensures_ite]
    constructor
    · intro hkept
      rw [if_pos hkept, ensures_pure]
      exact ⟨rfl, by simp, .refl e⟩
    · intro hkept
      rw [if_neg hkept, ensures_pure]
      exact ⟨rfl, by simp, .refl e⟩
  · intro hother
    rw [if_neg hother, if_neg hother, ensures_bind]
    refine (adds_declareStorage _ false e).mono ?_
    rintro _ e₁ ⟨-, -, hinside, hadds⟩
    refine ensures_pure.mpr ⟨rfl, hinside, ?_⟩
    cases b <;> exact hadds

theorem assigns_assignVariable {left : Binding} (hkind : left.kind = .variable)
    {right : Operand} (hlowered : right.type.isLowered = true) (e : Emitter) :
    Ensures (assignVariable left right) e (Assigns e left right.type (StoresCode right)) := by
  rw [assignVariable, ensures_bind]
  refine (adds_rebind left right.type e).mono ?_
  rintro _ e₁ ⟨rfl, hinside, hadds⟩
  rw [ensures_bind]
  refine (emits_value right e₁ rfl).mono ?_
  rintro v _ ⟨code, k, hk, rfl, hread⟩
  rw [ensures_bind, store, ensures_emit, write_write, ensures_pure, active_write,
    FunctionContext.counter_setCounter]
  have hreads := hk.append (.single (.effect (i := .store right.type.irType v
    (left.rebound right.type).pointer) rfl rfl))
  exact ⟨hkind, hlowered, rfl, hinside, _, hadds.write hreads, code, v, hread, rfl⟩

theorem assigns_assign {left : Binding} (h : left.kind = .array ∨ left.kind = .variable)
    (right : Operand) (e : Emitter) :
    Ensures (assign left right) e (Assigns e left right.type (StoresCode right)) := by
  unfold assign checkLowered
  rw [ensures_bind, ensures_bind, ensures_require]
  intro hlowered
  rw [ensures_require]
  intro _
  cases left with
  | slot v => exact assigns_assignVariable rfl hlowered e
  | global g =>
    have hkind : g.kind = .array ∨ g.kind = .variable := h
    dsimp only
    rcases hkind with hkind | hkind
    · rw [hkind]
      exact ensures_reject.mpr trivial
    · have hvariable : (Binding.global g).kind = .variable := hkind
      rw [hkind]
      exact assigns_assignVariable hvariable hlowered e

theorem assigns_scan {target : Binding} (h : target.kind = .array ∨ target.kind = .variable)
    (type : DataType) (e : Emitter) :
    Ensures (scan type target) e
      (Assigns e target type.storage (ScansCode e.symbols type.storage)) := by
  have hrebound (hkind : target.kind = .variable) : Ensures (do
      let b ← rebind target type.storage
      return (b, b.pointer)) e fun r e' => target.kind = .variable ∧
        r = (target.rebound type.storage, (target.rebound type.storage).pointer) ∧
        ((target.added type.storage).slots ≠ [] → e.inFunction = true) ∧
        Adds e e' (target.added type.storage) [] := by
    rw [ensures_bind]
    refine (adds_rebind target type.storage e).mono ?_
    rintro _ e₁ ⟨rfl, hrest⟩
    exact ensures_pure.mpr ⟨hkind, rfl, hrest⟩
  have hplace : Ensures (scanTarget type.storage target) e fun r e' => target.kind = .variable ∧
      r = (target.rebound type.storage, (target.rebound type.storage).pointer) ∧
      ((target.added type.storage).slots ≠ [] → e.inFunction = true) ∧
      Adds e e' (target.added type.storage) [] := by
    cases target with
    | slot v => exact hrebound rfl
    | global g =>
      have hkind : g.kind = .array ∨ g.kind = .variable := h
      refine ensures_ite.mpr ⟨fun hvariable => hrebound hvariable, fun hvariable => ?_⟩
      rw [ensures_bind, ensures_require]
      intro harray
      exact absurd (hkind.resolve_right hvariable) harray
  rw [scan]
  dsimp only
  rw [ensures_bind, ensures_require]
  intro hlowered
  rw [ensures_bind]
  refine hplace.mono ?_
  rintro _ e₁ ⟨hkind, rfl, hinside, hadds⟩
  dsimp only
  rw [ensures_bind, ensures_fresh, ensures_bind, ensures_get, ensures_bind, emit_fresh,
    ensures_pure, symbols_write, hadds.symbols_eq]
  exact ⟨hkind, hlowered, rfl, hinside, _, hadds.write (.single (.value rfl rfl)), _, rfl⟩

/-- An assignment adds typed code, if what is stored is typed behind the new storage. -/
theorem Assigns.builds {x : Action Emitter Binding} {left : Binding} {type : DataType}
    {C : Pointer → List Line → Prop} (h : Ensures x e (Assigns e left type C))
    (hleft : left.toOperand.In Γ) (hindex : ∀ g, left = .global g → g.index = none)
    (hcode : ∀ Γ' p code, Γ.Le Γ' → p.In Γ' type.irType → C p code → Γ'.Accepts code) :
    Builds e Γ x fun s _ b => left.kind = .variable ∧ s = left.added type ∧
      b = left.rebound type := by
  refine Ensures.mono h ?_
  intro b e' ha
  obtain ⟨code, hadds, hc⟩ := ha.adds
  have hpointer := Binding.pointer_in_rebound (Binding.pointer_in hleft hindex ha.kind) type
  exact ⟨_, code, hadds, hcode _ _ code (Env.le_add _ _) hpointer hc, ha.kind, rfl, ha.bound⟩

theorem builds_assign {left : Binding} {right : Operand} (hleft : left.toOperand.In Γ)
    (hindex : ∀ g, left = .global g → g.index = none) (hright : right.In Γ) :
    Builds e Γ (assign left right) fun s _ b => left.kind = .variable ∧
      s = left.added right.type ∧ b = left.rebound right.type := by
  apply Assigns.builds (assigns_assign (Binding.kind_of_in hleft hindex) right e) hleft hindex
  rintro Γ' p _ hle hp ⟨front, v, hread, rfl⟩
  obtain ⟨hfront, hv, -⟩ := hread.accepts (hright.mono hle)
  have hp' := hp.mono (Γ'.le_after front)
  refine hfront.append (Env.accepts_singleton ⟨hp'.symbols, ?_⟩ rfl)
  exact fun u hu => (List.mem_append.mp hu).elim (hv u) (hp'.locals u)

theorem builds_scan {target : Binding} {type : DataType} (hprovides : Γ.Provides e.symbols)
    (htarget : target.toOperand.In Γ) (hindex : ∀ g, target = .global g → g.index = none) :
    Builds e Γ (scan type target) fun s _ b => target.kind = .variable ∧
      s = target.added type.storage ∧ b = target.rebound type.storage := by
  apply Assigns.builds (assigns_scan (Binding.kind_of_in htarget hindex) type e) htarget hindex
  rintro Γ' p _ hle hp ⟨n, rfl⟩
  have hprovides' := hprovides.mono hle
  refine Env.accepts_singleton ⟨?_, hp.locals⟩ rfl
  intro u hu
  rcases List.mem_append.mp hu with hu | hu
  · simp only [List.mem_cons, List.not_mem_nil, or_false] at hu
    rcases hu with rfl | rfl
    · exact hprovides'.scanf
    · exact hprovides'.scanFormat _
  · exact hp.symbols u hu

theorem ensures_checkElements (array : Global) (position : Nat) (elements : List Operand)
    (e : Emitter) : Ensures (checkElements array position elements) e fun _ e' => e' = e := by
  induction elements generalizing position with
  | nil => exact ensures_pure.mpr rfl
  | cons op rest ih =>
    rw [checkElements, ensures_bind, ensures_require]
    exact fun _ => ih _

/-- An array gets its storage, and its elements are stored in it. -/
theorem adds_declareArray (array : Global) (length : Int) (elements : List Operand) (e : Emitter) :
    Ensures (declareArray array length elements) e fun g e' =>
      g = { array with
        kind := .array
        length := if length = 0 then (elements.length : Int) else length } ∧
      elements.length ≤ g.length ∧ (∀ op ∈ elements, op.type.storage = g.type.storage) ∧
      ∃ code, Adds e e' { header := [.array g.symbol g.type.irType g.length] } code ∧
        FilledBy g.symbol g.type.irType g.length 0 elements code := by
  rw [declareArray, ensures_bind, ensures_get]
  split
  · exact ensures_reject.mpr trivial
  · rw [ensures_bind, ensures_require]
    intro _
    dsimp only
    rw [ensures_bind, ensures_require]
    intro _
    rw [ensures_bind, ensures_require]
    intro hfits
    rw [ensures_bind]
    refine (ensures_checkElements array 1 elements e).mono ?_
    rintro _ _ rfl
    rw [ensures_bind, ensures_modify, ensures_bind]
    refine (emits_storeElements rfl 0 elements _ rfl).mono ?_
    rintro _ _ ⟨code, k, hk, rfl, htypes, hfilled⟩
    have hadds := (adds_header (Line.isStorage_array _ _ _) _).write hk
    exact ensures_pure.mpr ⟨rfl, hfits, htypes, code, hadds, hfilled⟩

theorem builds_declareArray {array : Global} {length : Int} {elements : List Operand}
    (helements : ∀ op ∈ elements, op.In Γ) :
    Builds e Γ (declareArray array length elements) fun s _ g =>
      s = { header := [.array g.symbol g.type.irType g.length] } := by
  refine (adds_declareArray array length elements e).mono ?_
  rintro g e' ⟨-, hfits, htypes, code, hadds, hfilled⟩
  refine ⟨_, code, hadds, hfilled.accepts ?_ ?_ (.inr (by simp [Line.declares])) (by simpa), rfl⟩
  · exact fun op hop => (helements op hop).mono (Env.le_add _ _)
  · intro op hop
    rw [← DataType.irType_storage, htypes op hop, DataType.irType_storage]

/-! ## Results of methods -/

def resultName (inst method : String) : String :=
  "ret." ++ inst ++ "." ++ method

/-- The storage that a call of a method adds: a slot for its result if there is none yet. -/
def resultStorage (inst : String) (sig : Signature) (results : List String) : Storage :=
  if resultName inst sig.name ∈ results then {}
  else
    { slots := [(.slot (resultName inst sig.name) 0, sig.result.irType)]
      results := [resultName inst sig.name] }

theorem builds_results (name : String) :
    Builds e Γ (modify (modifyActive fun c => { c with results := c.results ++ [name] }))
      fun s _ _ => s = { results := [name] } := by
  refine ensures_modify.mpr ⟨{ results := [name] }, [], .of_eq (modifyActive_eq _ e) rfl ?_,
    Env.accepts_nil, rfl⟩
  intro l hl
  simpa [Storage.allocas] using hl.modifyActive rfl rfl rfl

theorem builds_callMethod {inst : String} {sig : Signature} {args : List Operand}
    (hcallee : Γ.globals (.method inst sig.name) sig.symbolType) (hargs : ∀ arg ∈ args, arg.In Γ)
    (hslot : resultName inst sig.name ∈ e.active.results →
      Γ.locals (.slot (resultName inst sig.name) 0) (.pointer sig.result.irType)) :
    Builds e Γ (callMethod inst sig args) fun s Γ' r => r.In Γ' ∧
      s = resultStorage inst sig e.active.results := by
  apply (writes_call hcallee hargs).bind_builds
  intro Γ₁ v e₁ code hadds hle₁ hv
  apply builds_get
  have hresults : e₁.active.results = e.active.results := by
    simpa using hadds.results_eq
  -- The value is stored in the slot and copied to a numbered one.
  have hstored (e' : Emitter) (Γ' : Env) (hle : Γ₁.Le Γ')
      (hlocal : Γ'.locals (.slot (resultName inst sig.name) 0) (.pointer sig.result.irType)) :
      Writes e'.symbols Γ' (do
        store sig.result v (.frame (.slot (resultName inst sig.name) 0))
        materialize (.slot ⟨resultName inst sig.name, sig.result, 0⟩)) fun Γ'' r => r.In Γ'' := by
    have hpointer : (Pointer.frame (.slot (resultName inst sig.name) 0)).In Γ'
        sig.result.irType :=
      ⟨by simpa [Pointer.localUses] using hlocal, by simp [Pointer.symbolUses]⟩
    apply (writes_store (hv.mono hle) hpointer).bind
    intro Γ₂ _ hle₂ _
    have hslot₂ : (Operand.slot ⟨resultName inst sig.name, sig.result, 0⟩).In Γ₂ :=
      hle₂.locals _ _ hlocal
    refine (writes_materialize hslot₂).mono ?_
    intro Γ₃ r _ hr
    exact hr.1
  change Builds e₁ Γ₁ (if resultName inst sig.name ∉ e₁.active.results then _ else _) _
  unfold resultStorage
  rw [hresults]
  by_cases hknown : resultName inst sig.name ∈ e.active.results
  · rw [if_neg (fun h => h hknown), if_pos hknown]
    refine (hstored e₁ Γ₁ (.refl _) (hle₁.locals _ _ (hslot hknown))).builds.mono ?_
    rintro _ Γ₂ r _ ⟨rfl, hr⟩
    exact ⟨hr, rfl⟩
  · rw [if_pos hknown, if_neg hknown]
    apply (builds_hoist _ _ _).bind
    rintro _ Γ₂ _ e₂ code₂ hadds₂ hle₂ rfl
    apply (builds_results _).bind_writes
    rintro _ Γ₃ _ hle₃ rfl
    have hle₃' := (Env.le_add _ _).trans hle₃
    have hlocal : Γ₂.locals (.slot (resultName inst sig.name) 0)
        (.pointer sig.result.irType) :=
      hle₂.locals _ _ (.inr (by simp [Storage.allocas, Instr.defines, resultName]))
    refine (hstored e₂ Γ₃ (((Env.le_add _ _).trans hle₂).trans hle₃')
      (hle₃'.locals _ _ hlocal)).mono ?_
    intro Γ₄ r _ hr
    exact ⟨hr, rfl⟩

/-! ## Control flow -/

theorem allows_jump (Γ : Env) (l : Label) : Γ.Allows (.instr (.jump l)) :=
  ⟨by simp [Line.symbolUses, Instr.symbolUses], by simp [Line.localUses, Instr.localUses]⟩

theorem allows_label (Γ : Env) (l : Label) : Γ.Allows (.label l) :=
  ⟨by simp [Line.symbolUses], by simp [Line.localUses]⟩

theorem builds_turn {i : Instr} {l : Label} (hi : i.isTerminator = true)
    (hallows : Γ.Allows (.instr i)) :
    Builds e Γ (terminate i >>= fun _ => placeLabel l) fun s _ _ => s = {} := by
  simp only [Builds, ensures_bind, ensures_terminate, ensures_placeLabel, write_write, active_write,
    FunctionContext.counter_setCounter]
  refine ⟨{}, [.instr i, .label l], adds_write (reads_terminator _ hi l), ?_, rfl⟩
  rw [Env.add_nil]
  exact (Env.accepts_singleton hallows (Line.isElement_of_isTerminator hi)).append
    (Env.accepts_singleton (allows_label _ l) rfl)

theorem builds_context {f : FunctionContext → FunctionContext}
    (hf : ∀ c, (f c).target = c.target ∧ (f c).slots = c.slots ∧ (f c).counter = c.counter ∧
      (f c).results = c.results) :
    Builds e Γ (modify (modifyActive f)) fun s _ _ => s = {} :=
  ensures_modify.mpr ⟨{}, [], adds_context hf e, Env.accepts_nil, rfl⟩

theorem builds_openCondition : Builds e Γ openCondition fun s _ _ => s = {} := by
  apply builds_get
  apply Builds.ite
  · intro _
    exact builds_throw _
  · intro _
    have hset : Builds e Γ (set { e with labels := e.labels + 1 }) fun s _ _ => s = {} :=
      ensures_set.mpr ⟨{}, [], adds_labels e _, Env.accepts_nil, rfl⟩
    apply hset.bind
    rintro _ Γ₁ _ e₁ _ _ _ rfl
    rw [← bind_assoc]
    apply (builds_turn rfl (allows_jump _ _)).bind
    rintro _ Γ₂ _ e₂ _ _ _ rfl
    exact builds_context fun _ => ⟨rfl, rfl, rfl, rfl⟩

theorem builds_takeCondition : Builds e Γ takeCondition fun s _ _ => s = {} := by
  refine (ensures_takeCondition e).mono ?_
  rintro id _ ⟨e₁, he₁, -, rfl⟩
  have htake := adds_context (f := fun c => { c with openCompare := none })
    (fun _ => ⟨rfl, rfl, rfl, rfl⟩) e₁
  rcases he₁ with rfl | hopen
  · exact ⟨{}, [], htake, Env.accepts_nil, rfl⟩
  · obtain ⟨_, code, hadds, htypes, rfl⟩ := builds_openCondition (Γ := Γ) () e₁ hopen
    exact ⟨{}, code, by simpa using hadds.trans htake, htypes, rfl⟩

theorem builds_numbered {f : Int → Instr} {x : Int → Action Emitter α}
    {Q : Storage → Env → α → Prop} (hd : ∀ n, (f n).dest? = some (.number n))
    (hi : ∀ n, (f n).isTerminator = false ∧ Line.isElement (.instr (f n)) = false)
    (hallows : ∀ n, Γ.Allows (.instr (f n)))
    (hx : ∀ n e' Γ', (∀ u ∈ (f n).defines, Γ'.locals u.1 u.2) → Builds e' Γ' (x n) Q) :
    Builds e Γ (fresh >>= fun n => emit (f n) >>= fun _ => x n) Q := by
  have hnumber : Writes e.symbols Γ (fresh >>= fun n => emit (f n) >>= fun _ => pure n)
      fun Γ' n => ∀ u ∈ (f n).defines, Γ'.locals u.1 u.2 :=
    writes_numbered hd hi hallows fun _ _ _ hdefines => .pure hdefines
  have hrun := hnumber.bind_builds (f := x) (Q := Q) fun Γ' n e' _ _ _ hdefines =>
    hx n e' Γ' hdefines
  simpa only [bind_assoc, pure_bind] using hrun

theorem builds_compare {left right : Operand} (hl : left.In Γ) (hr : right.In Γ)
    (op : Comparison) : Builds e Γ (compare left op right) fun s _ _ => s = {} := by
  apply builds_takeCondition.bind
  rintro _ Γ₀ id e₀ _ _ hle₀ rfl
  rw [Env.add_nil] at hle₀
  apply (writes_widen (hl.mono hle₀) (hr.mono hle₀) false).bind_builds
  rintro Γ₁ ⟨l, r⟩ e₁ _ _ hle₁ ⟨hl₁, hr₁, htypes⟩
  apply (writes_load hl₁).bind_builds
  intro Γ₂ lv e₂ _ _ hle₂ hlv
  apply (writes_load (hr₁.mono hle₂)).bind_builds
  intro Γ₃ rv e₃ _ _ hle₃ hrv
  rw [← htypes] at hrv
  apply builds_numbered (fun _ => rfl) (fun _ => ⟨rfl, rfl⟩)
  · intro n
    refine ⟨by simp [Line.symbolUses, Instr.symbolUses], ?_⟩
    intro u hu
    rcases List.mem_append.mp hu with hu | hu
    · exact hlv.mono hle₃ u hu
    · exact hrv u hu
  · intro n e₄ Γ₄ hdefines
    have hallows : Γ₄.Allows (.instr (.branch n ⟨.body, id⟩ ⟨.exit, id⟩)) :=
      ⟨by simp [Line.symbolUses, Instr.symbolUses], hdefines⟩
    rw [← bind_assoc]
    apply (builds_turn rfl hallows).bind
    rintro _ Γ₅ _ e₅ _ _ _ rfl
    exact builds_context fun _ => ⟨rfl, rfl, rfl, rfl⟩

theorem builds_endControl (kind : ControlKind) :
    Builds e Γ (endControl kind) fun s _ _ => s = {} := by
  apply builds_get
  split
  · exact builds_reject _
  · next id pending _ =>
    apply (builds_context (f := fun c => { c with pending }) fun _ => ⟨rfl, rfl, rfl, rfl⟩).bind
    rintro _ Γ₁ _ e₁ _ _ _ rfl
    exact builds_turn rfl (allows_jump _ _)

/-! ## Returns -/

theorem ensures_load_attached (r : Register) (e : Emitter) :
    Ensures (load r) e fun _ e' => e'.active.counter.detached = false := by
  rw [load, loadFrom, ensures_bind, ensures_fresh, ensures_bind, emit_fresh, ensures_pure, place,
    active_write, FunctionContext.counter_setCounter]

theorem builds_ret {op : Operand} (h : op.In Γ)
    (hresult : ∀ f, e.function = some f → f.signature.result.isLowered = true) :
    Builds e Γ (ret op) fun s _ _ => s = {} := by
  apply builds_get
  split
  · exact builds_reject _
  · next f hf =>
    have hlowered := hresult f hf
    have hvalue : Writes e.symbols Γ (do
        let r ← materialize op
        load (← cast r f.signature.result.storage)) fun Γ' v =>
          v.In Γ' f.signature.result.storage.irType := by
      apply (writes_materialize h).bind
      rintro Γ₁ r hle₁ ⟨hr, -⟩
      apply (writes_cast hr _ (by simpa using hlowered)).bind
      rintro Γ₂ r' hle₂ ⟨hr', htype⟩
      refine (writes_load hr').mono ?_
      intro Γ₃ v _ hv
      rwa [← DataType.irType_storage, htype, DataType.storage_storage] at hv
    have hattached (e : Emitter) : Ensures (do
        let r ← materialize op
        load (← cast r f.signature.result.storage)) e fun _ e' =>
          e'.active.counter.detached = false := by
      rw [ensures_bind]
      intro r e₁ _
      rw [ensures_bind]
      intro r' e₂ _
      exact ensures_load_attached r' e₂
    have hcapture (o : Assembly Line) : Ensures (do
        let r ← materialize op
        load (← cast r f.signature.result.storage)) { e with output := o } fun v e' =>
          ∃ lines k, (e.active.counter.Reads lines k ∧ k.detached = false ∧ Γ.Accepts lines ∧
            v.In (Γ.after lines) f.signature.result.storage.irType) ∧
            e' = Emitter.write lines k { e with output := o } := by
      intro v e' hrun
      obtain ⟨code, k, hk, rfl, htypes, hv⟩ := hvalue { e with output := o } rfl v e' hrun
      have hdetached := hattached _ v _ hrun
      simp only [active_write, FunctionContext.counter_setCounter] at hdetached
      exact ⟨code, k, ⟨hk, hdetached, htypes, hv⟩, rfl⟩
    rw [Builds, ensures_bind]
    refine (ensures_capture hcapture).mono ?_
    rintro ⟨v, lines⟩ _ ⟨⟨n, _⟩, ⟨hk, rfl, htypes, hv⟩, rfl⟩
    rw [ensures_bind, ensures_modify, ensures_modify]
    have hret : (⟨n, false⟩ : Counter).Reads
        [.instr (.ret f.signature.result.storage.irType v)] ⟨n, true⟩ :=
      .single (.terminator rfl)
    have hadds := adds_write (hk.append hret)
    rw [Emitter.write] at hadds
    rw [modifyActive_appendLines, modifyActive_modifyActive]
    refine ⟨{}, _, hadds, ?_, rfl⟩
    rw [Env.add_nil]
    refine htypes.append (Env.accepts_singleton ⟨?_, hv⟩ rfl)
    simp [Line.symbolUses, Instr.symbolUses]

end Emitter

end MkCompiler
