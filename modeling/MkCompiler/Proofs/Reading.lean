import MkCompiler.Proofs.Emission

/-!
# Reading and storing elements

Operations of the emitter that append code and do nothing else, described by that code. Reading an
operand, storing a value in an element of an array and storing the initial elements of an array
write exactly the lines that are given here.
-/

namespace MkCompiler

open MkCompiler.Action

/-! ## Code -/

/-- The code that computes the address of an element. The index is extended to 64 bits. -/
def addressing (array : GlobalName) (type : IrType) (length : Int) (index : Value)
    (wide n : Int) : List Line :=
  [.instr (.extend wide index), .instr (.element n type length array wide)]

/-- The code that reads an operand, and the value that is read. Literals are read as they are, and
the index of an element in front of the element. -/
inductive Operand.ReadBy : Operand → List Line → Value → Prop
  | literal (l : Literal) : ReadBy (.literal l) [] (.constant l.text)
  | register (r : Register) (n : Int) :
      ReadBy (.register r) [.instr (.load n r.type.irType (.frame r.slot))] (.number n)
  | slot (l : Local) (n : Int) :
      ReadBy (.slot l) [.instr (.load n l.type.irType (.frame l.slot))] (.number n)
  | global {c : Cell} (n : Int) : c.kind ≠ .array →
      ReadBy (.global c) [.instr (.load n c.type.irType (.global c.symbol))] (.number n)
  | element {c : Cell} {index : Operand} {code : List Line} {i : Value} (wide a n : Int) :
      c.kind = .arrayElement → ReadBy index code i →
      ReadBy (.element c index)
        (code ++ addressing c.symbol c.type.irType c.length i wide a ++
          [.instr (.load n c.type.irType (.frame (.number a)))]) (.number n)
  | whole {c : Cell} {index : Operand} (n : Int) : c.kind ≠ .arrayElement →
      ReadBy (.element c index) [.instr (.load n c.type.irType (.global c.symbol))] (.number n)

/-- The code that stores an operand in an element of an array: the operand is read first, then the
index. -/
inductive StoredBy (array : GlobalName) (type : IrType) (length : Int) (index right : Operand) :
    List Line → Prop
  | store {a b : List Line} {v i : Value} (wide n : Int) : right.ReadBy a v → index.ReadBy b i →
      StoredBy array type length index right (a ++ b ++ addressing array type length i wide n ++
        [.instr (.store type v (.frame (.number n)))])

/-- The code that stores operands in an array, one behind the other from a position on. -/
inductive FilledBy (array : GlobalName) (type : IrType) (length : Int) :
    Nat → List Operand → List Line → Prop
  | nil (position : Nat) : FilledBy array type length position [] []
  | cons {position : Nat} {op : Operand} {rest : List Operand} {code code' : List Line} :
      StoredBy array type length (.literal (Literal.ofInt position)) op code →
      FilledBy array type length (position + 1) rest code' →
      FilledBy array type length position (op :: rest) (code ++ code')

namespace Emitter

variable {α β : Type} {symbols : RuntimeSymbols} {P Q : List Line → α → Prop}

/-! ## Operations that append code -/

/-- The operation appends code and does nothing else. The code and the result are as described. -/
def Emits (symbols : RuntimeSymbols) (x : Action Emitter α) (Q : List Line → α → Prop) : Prop :=
  ∀ e : Emitter, e.symbols = symbols → Ensures x e fun a e' => ∃ code k,
    e.active.counter.Reads code k ∧ e' = e.write code k ∧ Q code a

theorem Emits.pure {a : α} (h : Q [] a) : Emits symbols (Pure.pure a) Q := by
  intro e _
  exact ensures_pure.mpr ⟨[], e.active.counter, .nil, (write_nil e).symm, h⟩

theorem Emits.bind {x : Action Emitter α} {f : α → Action Emitter β} {R : List Line → β → Prop}
    (hx : Emits symbols x P)
    (hf : ∀ code a, P code a → Emits symbols (f a) fun code' => R (code ++ code')) :
    Emits symbols (x >>= f) R := by
  intro e he
  rw [ensures_bind]
  refine (hx e he).mono ?_
  rintro a _ ⟨code, k, hk, rfl, hp⟩
  refine (hf code a hp (e.write code k) ((symbols_write code k e).trans he)).mono ?_
  rintro b _ ⟨code', k', hk', rfl, hr⟩
  rw [active_write, FunctionContext.counter_setCounter] at hk'
  exact ⟨code ++ code', k', hk.append hk', by simp, hr⟩

theorem Emits.mono {x : Action Emitter α} (h : Emits symbols x P)
    (hpq : ∀ code a, P code a → Q code a) : Emits symbols x Q := by
  intro e he
  refine (h e he).mono ?_
  rintro a _ ⟨code, k, hk, rfl, hp⟩
  exact ⟨code, k, hk, rfl, hpq code a hp⟩

theorem Emits.ite {p : Prop} [Decidable p] {x y : Action Emitter α}
    (hx : p → Emits symbols x Q) (hy : ¬p → Emits symbols y Q) :
    Emits symbols (if p then x else y) Q := by
  intro e he
  rw [ensures_ite]
  exact ⟨fun h => hx h e he, fun h => hy h e he⟩

theorem emits_throw (f : Failure) : Emits symbols (throw f : Action Emitter α) Q := by
  intro e _
  exact ensures_throw.mpr trivial

theorem emits_require {p : Prop} [Decidable p] {v : Violation} {f : Unit → Action Emitter α}
    (hf : p → Emits symbols (f ()) Q) : Emits symbols (Action.require p v >>= f) Q := by
  intro e he
  rw [ensures_bind, ensures_require]
  intro hp
  exact hf hp e he

theorem emits_checkLowered {op : Operand} {f : Unit → Action Emitter α}
    (hf : op.type.isLowered = true → op.kind ≠ .array → Emits symbols (f ()) Q) :
    Emits symbols (checkLowered op >>= f) Q := by
  intro e he
  unfold checkLowered
  simp only [ensures_bind, ensures_require]
  intro hlowered hkind
  exact hf hlowered hkind e he

theorem emits_numbered {f : Int → Instr} {x : Int → Action Emitter α}
    (hd : ∀ n, (f n).dest? = some (.number n)) (hi : ∀ n, (f n).isTerminator = false)
    (hx : ∀ n, Emits symbols (x n) fun code => Q (.instr (f n) :: code)) :
    Emits symbols (fresh >>= fun n => emit (f n) >>= fun _ => x n) Q := by
  intro e he
  rw [ensures_bind, ensures_fresh, ensures_bind, emit_fresh]
  refine (hx e.number (e.place (f e.number)) (by simpa [place] using he)).mono ?_
  rintro a _ ⟨code, k, hk, rfl, hq⟩
  rw [place, active_write, FunctionContext.counter_setCounter] at hk
  exact ⟨.instr (f e.number) :: code, k, .cons (.value (hd _) (hi _)) hk, by simp [place], hq⟩

theorem emits_emit {i : Instr} (hd : i.dest? = none) (hi : i.isTerminator = false)
    {Q : List Line → Unit → Prop} (h : Q [.instr i] ()) : Emits symbols (emit i) Q := by
  intro e _
  exact ensures_emit.mpr ⟨[.instr i], _, .single (.effect hd hi), rfl, h⟩

/-! ## Operands and elements -/

theorem emits_loadFrom (type : DataType) (source : Pointer) :
    Emits symbols (loadFrom type source) fun code v => ∃ n,
      code = [.instr (.load n type.irType source)] ∧ v = .number n :=
  emits_numbered (fun _ => rfl) (fun _ => rfl) fun n => .pure ⟨n, rfl, rfl⟩

theorem emits_address (c : Cell) (index : Value) :
    Emits symbols (address c index) fun code p => ∃ wide n,
      code = addressing c.symbol c.type.irType c.length index wide n ∧ p = .frame (.number n) :=
  emits_numbered (fun _ => rfl) (fun _ => rfl) fun wide =>
    emits_numbered (fun _ => rfl) (fun _ => rfl) fun n => .pure ⟨wide, n, rfl, rfl⟩

theorem emits_value (op : Operand) :
    Emits symbols (value op) fun code v => op.ReadBy code v := by
  induction op with
  | literal l => exact emits_checkLowered fun _ _ => .pure (.literal l)
  | register r =>
    refine emits_checkLowered fun _ _ => (emits_loadFrom r.type _).mono ?_
    rintro _ _ ⟨n, rfl, rfl⟩
    exact .register r n
  | slot l =>
    refine emits_checkLowered fun _ _ => (emits_loadFrom l.type _).mono ?_
    rintro _ _ ⟨n, rfl, rfl⟩
    exact .slot l n
  | global c =>
    refine emits_checkLowered fun _ harray => .ite (fun _ => emits_throw _) fun _ =>
      (emits_loadFrom c.type _).mono ?_
    rintro _ _ ⟨n, rfl, rfl⟩
    exact .global n harray
  | element c index ih =>
    refine emits_checkLowered fun _ _ => .ite (fun hkind => ?_) fun hkind =>
      (emits_loadFrom c.type _).mono ?_
    · refine ih.bind fun code i hi => (emits_address c i).bind ?_
      rintro _ _ ⟨wide, a, rfl, rfl⟩
      refine (emits_loadFrom c.type _).mono ?_
      rintro _ _ ⟨n, rfl, rfl⟩
      rw [← List.append_assoc]
      exact .element wide a n hkind hi
    · rintro _ _ ⟨n, rfl, rfl⟩
      exact .whole n hkind

theorem emits_assign_element {g : Global} {index : Operand} (hg : g.index = some index)
    (hkind : g.kind = .arrayElement) (right : Operand) :
    Emits symbols (assign (.global g) right) fun code _ =>
      right.type.storage = g.type.storage ∧
        StoredBy g.symbol g.type.irType g.length index right code := by
  refine emits_checkLowered fun _ _ => ?_
  dsimp only
  rw [hkind]
  have hassign : Emits symbols (assignElement g right) fun code _ =>
      right.type.storage = g.type.storage ∧
        StoredBy g.symbol g.type.irType g.length index right code := by
    refine emits_require fun htype => (emits_value right).bind fun a v hv => ?_
    rw [elementPointer, hg]
    refine ((emits_value index).bind fun b i hi => (emits_address g.toCell i).mono ?_).bind
      (P := fun code p => ∃ b i wide n, index.ReadBy b i ∧ code = b ++ addressing g.symbol
        g.type.irType g.length i wide n ∧ p = .frame (.number n)) ?_
    · rintro _ _ ⟨wide, n, rfl, rfl⟩
      exact ⟨b, i, wide, n, hi, rfl, rfl⟩
    · rintro _ _ ⟨b, i, wide, n, hi, rfl, rfl⟩
      refine emits_emit rfl rfl ⟨htype, ?_⟩
      simpa using StoredBy.store wide n hv hi
  exact hassign.bind fun code _ h => .pure (by simpa using h)

theorem emits_storeElements {array : Global} (hkind : array.kind = .array) (position : Nat)
    (elements : List Operand) :
    Emits symbols (storeElements array position elements) fun code _ =>
      (∀ op ∈ elements, op.type.storage = array.type.storage) ∧
        FilledBy array.symbol array.type.irType array.length position elements code := by
  induction elements generalizing position with
  | nil => exact .pure ⟨by simp, .nil position⟩
  | cons op rest ih =>
    have hsymbol (index : Operand) : (array.element index).symbol = array.symbol := by
      simp [Global.element, Cell.symbol, hkind]
    refine (emits_assign_element rfl rfl op).bind ?_
    rintro code _ ⟨htype, hstored⟩
    rw [hsymbol] at hstored
    refine (ih (position + 1)).mono ?_
    rintro code' _ ⟨htypes, hfilled⟩
    exact ⟨List.forall_mem_cons.mpr ⟨htype, htypes⟩, .cons hstored hfilled⟩

end Emitter

end MkCompiler
