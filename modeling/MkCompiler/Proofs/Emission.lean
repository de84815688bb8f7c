import MkCompiler.Proofs.Primitives

/-!
# Emission of code

What the operations of the emitter that read and compute values do to it: they append instructions
where the output goes and advance the numbering of the function they write to. Nothing here depends
on whether the output is held, so the same lemmas serve the code of a return statement, which is
captured before it is placed.
-/

namespace MkCompiler

/-- How far the numbering of a body has come: the number of the next value, and whether the last
instruction was a terminator and no label followed it. -/
@[ext]
structure Counter where
  next : Int
  detached : Bool
  deriving DecidableEq, Repr

namespace Counter

/-- The numbering of a function with some parameters. They take the first numbers, the first block
the one behind them. -/
def start (params : Nat) : Counter :=
  ⟨params + 1, false⟩

/-- An instruction behind a terminator opens a block, which takes a number. -/
def enter (k : Counter) : Counter :=
  if k.detached then ⟨k.next + 1, false⟩ else k

/-- One line written behind a body. Values carry the next number, and a label stands behind a
terminator. -/
inductive Step : Counter → Line → Counter → Prop
  | value {k i} : i.dest? = some (.number k.enter.next) → i.isTerminator = false →
      Step k (.instr i) ⟨k.enter.next + 1, false⟩
  | effect {k i} : i.dest? = none → i.isTerminator = false → Step k (.instr i) k.enter
  | terminator {k i} : i.isTerminator = true → Step k (.instr i) ⟨k.enter.next, true⟩
  | label {k l} : k.detached = true → Step k (.label l) ⟨k.next, false⟩

inductive Reads : Counter → List Line → Counter → Prop
  | nil {k} : Reads k [] k
  | cons {k k' k'' line rest} : Step k line k' → Reads k' rest k'' → Reads k (line :: rest) k''

@[simp] theorem enter_detached (k : Counter) : k.enter.detached = false := by
  unfold enter
  split
  · rfl
  · simpa using ‹¬k.detached = true›

@[simp] theorem enter_attached (n : Int) : (⟨n, false⟩ : Counter).enter = ⟨n, false⟩ := rfl

theorem Reads.append {k k' k'' : Counter} {a b : List Line} (ha : k.Reads a k')
    (hb : k'.Reads b k'') : k.Reads (a ++ b) k'' := by
  induction ha with
  | nil => exact hb
  | cons hs _ ih => exact .cons hs (ih hb)

theorem Reads.exists_of_append {k k'' : Counter} {a b : List Line} (h : k.Reads (a ++ b) k'') :
    ∃ k', k.Reads a k' ∧ k'.Reads b k'' := by
  induction a generalizing k with
  | nil => exact ⟨k, .nil, h⟩
  | cons line a ih =>
    cases h with
    | cons hs hrest =>
      obtain ⟨k', ha, hb⟩ := ih hrest
      exact ⟨k', .cons hs ha, hb⟩

theorem Reads.single {k k' : Counter} {line : Line} (h : k.Step line k') : k.Reads [line] k' :=
  .cons h .nil

end Counter

namespace FunctionContext

def counter (c : FunctionContext) : Counter :=
  ⟨c.nextNumber, c.detached⟩

def setCounter (k : Counter) (c : FunctionContext) : FunctionContext :=
  { c with nextNumber := k.next, detached := k.detached }

@[simp] theorem counter_setCounter (k : Counter) (c : FunctionContext) :
    (c.setCounter k).counter = k := rfl

@[simp] theorem setCounter_setCounter (k k' : Counter) (c : FunctionContext) :
    (c.setCounter k).setCounter k' = c.setCounter k' := rfl

@[simp] theorem setCounter_counter (c : FunctionContext) : c.setCounter c.counter = c := rfl

@[simp] theorem pending_setCounter (k : Counter) (c : FunctionContext) :
    (c.setCounter k).pending = c.pending := rfl

@[simp] theorem results_setCounter (k : Counter) (c : FunctionContext) :
    (c.setCounter k).results = c.results := rfl

@[simp] theorem slots_setCounter (k : Counter) (c : FunctionContext) :
    (c.setCounter k).slots = c.slots := rfl

@[simp] theorem target_setCounter (k : Counter) (c : FunctionContext) :
    (c.setCounter k).target = c.target := rfl

end FunctionContext

namespace Assembly

variable {α : Type}

@[simp] theorem setContent_content (a : Assembly α) (t : Section) :
    a.setContent (a.content t) t = a := by
  cases t <;> rfl

@[simp] theorem append_nil (a : Assembly α) : a.append [] = a := by
  unfold append appendTo
  split
  · simp
  · next h => simp [← h]

@[simp] theorem append_append (a : Assembly α) (x y : List α) :
    (a.append x).append y = a.append (x ++ y) := by
  obtain ⟨p, h, d, b, f, r⟩ := a
  cases r with
  | held s buffer => simp [append]
  | direct t => cases t <;> simp [append, appendTo, setContent, content]

section Routing

open MkCompiler.Action

variable {a : Assembly α}

theorem ensures_hold {Q : Unit → Assembly α → Prop} : Ensures hold a Q ↔
    ∀ t, a.routing = .direct t → Q () { a with routing := .held t [] } := by
  unfold hold
  rw [ensures_bind, ensures_get]
  cases a.routing <;> simp

theorem ensures_release {Q : List α → Assembly α → Prop} : Ensures release a Q ↔
    ∀ t buffer, a.routing = .held t buffer → Q buffer { a with routing := .direct t } := by
  unfold release
  rw [ensures_bind, ensures_get]
  cases a.routing <;> simp

theorem ensures_mark {Q : Mark → Assembly α → Prop} : Ensures mark a Q ↔
    ∀ t, a.routing = .direct t → t.isAssigned = true → Q ⟨t, (a.content t).length⟩ a := by
  unfold mark
  rw [ensures_bind, ensures_get]
  cases a.routing with
  | held _ _ => simp
  | direct t => cases t <;> simp [Section.isAssigned]

end Routing

end Assembly

namespace Emitter

open MkCompiler.Action

variable {α : Type}

def number (e : Emitter) : Int :=
  e.active.counter.enter.next

/-- Appends code that brings the numbering of the active function to `k`. -/
def write (code : List Line) (k : Counter) (e : Emitter) : Emitter :=
  appendLines code (modifyActive (·.setCounter k) e)

def place (i : Instr) (e : Emitter) : Emitter :=
  e.write [.instr i] ⟨e.number + 1, false⟩

section Write

variable (code : List Line) (k : Counter) (e : Emitter)

@[simp] theorem active_modifyActive (f : FunctionContext → FunctionContext) :
    (modifyActive f e).active = f e.active := by
  unfold active modifyActive
  cases e.function <;> rfl

@[simp] theorem output_modifyActive (f : FunctionContext → FunctionContext) :
    (modifyActive f e).output = e.output := by
  unfold modifyActive
  cases e.function <;> rfl

@[simp] theorem symbols_modifyActive (f : FunctionContext → FunctionContext) :
    (modifyActive f e).symbols = e.symbols := by
  unfold modifyActive
  cases e.function <;> rfl

@[simp] theorem labels_modifyActive (f : FunctionContext → FunctionContext) :
    (modifyActive f e).labels = e.labels := by
  unfold modifyActive
  cases e.function <;> rfl

@[simp] theorem modifyActive_modifyActive (f g : FunctionContext → FunctionContext) :
    modifyActive g (modifyActive f e) = modifyActive (fun c => g (f c)) e := by
  obtain ⟨_, _, _, function, _, _⟩ := e
  cases function <;> rfl

@[simp] theorem modifyActive_active : modifyActive (fun _ => e.active) e = e := by
  obtain ⟨_, _, _, function, _, _⟩ := e
  cases function <;> rfl

@[simp] theorem active_appendLines : (appendLines code e).active = e.active := rfl

@[simp] theorem symbols_appendLines : (appendLines code e).symbols = e.symbols := rfl

theorem modifyActive_appendLines (f : FunctionContext → FunctionContext) :
    modifyActive f (appendLines code e) = appendLines code (modifyActive f e) := by
  obtain ⟨_, _, _, function, _, _⟩ := e
  cases function <;> rfl

@[simp] theorem active_write : (e.write code k).active = e.active.setCounter k := by
  simp [write]

@[simp] theorem output_write : (e.write code k).output = e.output.append code := by
  simp [write, appendLines]

@[simp] theorem symbols_write : (e.write code k).symbols = e.symbols := by
  simp [write]

@[simp] theorem appendLines_appendLines (code' : List Line) :
    appendLines code' (appendLines code e) = appendLines (code ++ code') e := by
  simp [appendLines]

@[simp] theorem write_write (code' : List Line) (k' : Counter) :
    (e.write code k).write code' k' = e.write (code ++ code') k' := by
  simp [write, modifyActive_appendLines]

theorem write_eq : e.write code k = { modifyActive (fun _ => e.active.setCounter k) e with
    output := e.output.append code } := by
  unfold write appendLines modifyActive active
  cases e.function <;> rfl

theorem write_nil : e.write [] e.active.counter = e := by
  obtain ⟨_, _, _, function, _, _⟩ := e
  cases function <;> simp [write, appendLines, modifyActive, active]

end Write

/-! ## Primitive operations

Each of them ends well, in a state that is a `write` of the one before. -/

theorem openBlock_eq (c : FunctionContext) : openBlock c = c.setCounter c.counter.enter := by
  unfold openBlock Counter.enter FunctionContext.counter FunctionContext.setCounter
  split <;> rfl

theorem fresh_eq (e : Emitter) :
    fresh e = .ok e.number (e.write [] ⟨e.number + 1, false⟩) := by
  change EStateM.Result.ok (modifyActive openBlock e).active.nextNumber
    (modifyActive (fun c => { c with nextNumber := c.nextNumber + 1 })
      (modifyActive openBlock e)) = _
  rw [active_modifyActive, openBlock_eq, modifyActive_modifyActive]
  unfold write appendLines
  rw [Assembly.append_nil]
  congr 1
  unfold modifyActive number active
  cases e.function <;>
    simp [openBlock_eq, FunctionContext.setCounter, Counter.enter_detached]

theorem emit_eq (i : Instr) (e : Emitter) :
    emit i e = .ok () (e.write [.instr i] e.active.counter.enter) := by
  change EStateM.Result.ok () (appendLines [.instr i] (modifyActive openBlock e)) = _
  unfold write modifyActive active
  cases e.function <;> simp [openBlock_eq]

theorem terminate_eq (i : Instr) (e : Emitter) :
    terminate i e = .ok () (e.write [.instr i] ⟨e.number, true⟩) := by
  refine bind_eq_ok.mpr ⟨(), _, emit_eq i e, ?_⟩
  change EStateM.Result.ok () (modifyActive _ (e.write _ _)) = _
  unfold write
  rw [modifyActive_appendLines, modifyActive_modifyActive]
  rfl

theorem placeLabel_eq (l : Label) (e : Emitter) :
    placeLabel l e = .ok () (e.write [.label l] ⟨e.active.counter.next, false⟩) := by
  change EStateM.Result.ok () (modifyActive _ (appendLines [.label l] e)) = _
  unfold write
  rw [modifyActive_appendLines]
  unfold modifyActive active
  cases e.function <;> rfl

section Primitives

variable {e : Emitter}

@[simp] theorem ensures_fresh {Q : Int → Emitter → Prop} :
    Ensures fresh e Q ↔ Q e.number (e.write [] ⟨e.number + 1, false⟩) :=
  ensures_of_eq (fresh_eq e)

variable {Q : Unit → Emitter → Prop}

@[simp] theorem ensures_emit {i : Instr} :
    Ensures (emit i) e Q ↔ Q () (e.write [.instr i] e.active.counter.enter) :=
  ensures_of_eq (emit_eq i e)

@[simp] theorem ensures_terminate {i : Instr} :
    Ensures (terminate i) e Q ↔ Q () (e.write [.instr i] ⟨e.number, true⟩) :=
  ensures_of_eq (terminate_eq i e)

@[simp] theorem ensures_placeLabel {l : Label} :
    Ensures (placeLabel l) e Q ↔ Q () (e.write [.label l] ⟨e.active.counter.next, false⟩) :=
  ensures_of_eq (placeLabel_eq l e)

theorem emit_fresh {i : Instr} :
    Ensures (emit i) (e.write [] ⟨e.number + 1, false⟩) Q ↔ Q () (e.place i) := by
  simp [place]

end Primitives

/-! ## Straight code -/

/-- Appends instructions that are no terminators, with the numbers they carry. -/
def Extends (e e' : Emitter) : Prop :=
  ∃ (code : List Instr) (k : Counter), (∀ i ∈ code, i.isTerminator = false) ∧
    e.active.counter.Reads (code.map .instr) k ∧ e' = e.write (code.map .instr) k

instance : IsPreorder Emitter Extends where
  refl e := ⟨[], e.active.counter, by simp, .nil, (write_nil e).symm⟩
  trans := by
    rintro e _ _ ⟨code, k, hcode, hk, rfl⟩ ⟨code', k', hcode', hk', rfl⟩
    rw [active_write, FunctionContext.counter_setCounter] at hk'
    refine ⟨code ++ code', k', ?_, ?_, ?_⟩
    · simpa [or_imp, forall_and] using ⟨hcode, hcode'⟩
    · simpa using hk.append hk'
    · simp

theorem extends_emit {i : Instr} (hd : i.dest? = none) (hi : i.isTerminator = false) :
    Moves Extends (emit i) :=
  fun _ => ensures_emit.mpr ⟨[i], _, by simpa using hi, .single (.effect hd hi), rfl⟩

theorem extends_value {i : Instr} {e : Emitter} (hd : i.dest? = some (.number e.number))
    (hi : i.isTerminator = false) : Extends e (e.place i) :=
  ⟨[i], _, by simpa using hi, .single (.value hd hi), rfl⟩

theorem computes_moves {R : Emitter → Emitter → Prop} [IsPreorder Emitter R]
    (hR : ∀ {e e'}, Extends e e' → R e e') : Computes fun {_} x => Moves R x where
  toComposes := composes_moves R
  effect hd hi e := (extends_emit hd hi e).mono fun _ _ => hR
  numbered hd hi hx := by
    intro e
    rw [ensures_bind, ensures_fresh, ensures_bind, ensures_get, ensures_bind, emit_fresh]
    exact (hx _ _).mono fun _ _ h => trans_of R (hR (extends_value (hd _ _) (hi _ _))) h

theorem computes_extends : Computes fun {_} x => Moves Extends x :=
  computes_moves id

/-! ## Captures -/

/-- Runs an operation and releases the output if the program is rejected. -/
def releasing (x : Action Emitter α) : Action Emitter α := fun e =>
  match x e with
  | .error (.rejected v) e => (onOutput Assembly.release *> reject v) e
  | r => r

theorem capture_eq (x : Action Emitter α) : capture x = (do
    onOutput Assembly.hold
    let a ← releasing x
    let lines ← onOutput Assembly.release
    return (a, lines)) :=
  rfl

section Releasing

variable {x : Action Emitter α} {e e' : Emitter}

theorem releasing_of_ok {a : α} (h : x e = .ok a e') : releasing x e = .ok a e' := by
  rw [releasing, h]

theorem releasing_of_rejected {v : Violation} (h : x e = .error (.rejected v) e') :
    releasing x e = (onOutput Assembly.release >>= fun _ => reject v : Action Emitter α) e' := by
  rw [releasing, h, ← seqRight_eq_bind]

theorem releasing_of_error {f : Failure} (h : x e = .error f e') (hf : ∀ v, f ≠ .rejected v) :
    releasing x e = .error f e' := by
  rw [releasing, h]
  cases f with
  | rejected v => exact absurd rfl (hf v)
  | stream _ | internal _ | fault _ => rfl

theorem ensures_releasing {Q : α → Emitter → Prop} (hx : Ensures x e Q) :
    Ensures (releasing x) e Q := by
  intro a e' h
  cases hrun : x e with
  | ok b e₁ =>
    rw [releasing_of_ok hrun] at h
    exact hx a e' (hrun.trans h)
  | error f e₁ =>
    cases f with
    | rejected v =>
      rw [releasing_of_rejected hrun] at h
      obtain ⟨_, _, _, hv⟩ := bind_eq_ok.mp h
      cases hv
    | stream _ | internal _ | fault _ =>
      rw [releasing_of_error hrun (by simp)] at h
      cases h

theorem ends_releasing {Q : α → Emitter → Prop} {E F : Failure → Emitter → Prop}
    (hx : Ends x e Q F)
    (hrejected : ∀ v e', F (.rejected v) e' →
      Ends (onOutput Assembly.release >>= fun _ => reject v) e' Q E)
    (hother : ∀ f e', F f e' → (∀ v, f ≠ .rejected v) → E f e') : Ends (releasing x) e Q E := by
  cases hrun : x e with
  | ok a e' => exact (ends_of_ok (releasing_of_ok hrun)).mpr (hx.of_ok hrun)
  | error f e' =>
    have hf := hx.of_error hrun
    cases f with
    | rejected v =>
      rw [Ends, releasing_of_rejected hrun]
      exact hrejected v e' hf
    | stream _ | internal _ | fault _ =>
      exact (ends_of_error (releasing_of_error hrun (by simp))).mpr (hother _ e' hf (by simp))

end Releasing

end Emitter

end MkCompiler
