import MkCompiler.Proofs.Layout
import MkCompiler.Proofs.Reading
import MkCompiler.Proofs.Usage

/-!
# Typed emission

The operations of the emitter write code that is typed in the environment of their operands. An
operation that only computes appends code and nothing else, so that it can be described while the
output is held as well. What declares storage adds lines to the header and slots to the body too.
-/

namespace MkCompiler

open MkCompiler.Action

def Signature.symbolType (sig : Signature) : SymbolType :=
  .function sig.result.irType (sig.params.map DataType.irType)

structure Env.Provides (Γ : Env) (symbols : RuntimeSymbols) : Prop where
  printf : Γ.globals (.external symbols.printf) .variadic
  scanf : Γ.globals (.external symbols.scanf) .variadic
  printFormat : ∀ type, Γ.globals (symbols.printFormat type) (.text 4)
  scanFormat : ∀ type, Γ.globals (symbols.scanFormat type) (.text (scanFormatSize type.irType))

theorem Env.Provides.mono {Γ Γ' : Env} {symbols : RuntimeSymbols} (h : Γ.Provides symbols)
    (hle : Γ.Le Γ') : Γ'.Provides symbols :=
  ⟨hle.globals _ _ h.printf, hle.globals _ _ h.scanf, fun t => hle.globals _ _ (h.printFormat t),
    fun t => hle.globals _ _ (h.scanFormat t)⟩

def Value.In (Γ : Env) (type : IrType) (v : Value) : Prop :=
  ∀ u ∈ v.uses type, Γ.locals u.1 u.2

structure Pointer.In (Γ : Env) (type : IrType) (p : Pointer) : Prop where
  locals : ∀ u ∈ p.localUses type, Γ.locals u.1 u.2
  symbols : ∀ u ∈ p.symbolUses type, Γ.globals u.1 u.2

structure Register.In (Γ : Env) (r : Register) : Prop where
  lowered : r.type.isLowered = true
  allocated : Γ.locals r.slot (.pointer r.type.irType)

def Operand.Within (length : Int) (op : Operand) : Prop :=
  ∀ l, op = .literal l → (Value.constant l.text).Within length

/-- Whatever the operand refers to is in the environment, at the type of the operand. Integers are
spelled as the value they are read as, and literal indices lie within their arrays. -/
def Operand.In (Γ : Env) : Operand → Prop
  | .literal l => l.type.storage = .int → l.text = toString (Numeral.clamped64 l.text.toList)
  | .global c => c.kind = .array ∨ c.kind = .variable ∧ Γ.globals c.symbol (.cell c.type.irType)
  | .element c index => c.kind = .arrayElement ∧ index.type.storage = .int ∧ index.In Γ ∧
      index.Within c.length ∧ Γ.globals c.symbol (.array c.type.irType c.length)
  | .slot l => Γ.locals l.slot (.pointer l.type.irType)
  | .register r => r.In Γ

section Mono

variable {Γ Γ' : Env} (hle : Γ.Le Γ')
include hle

theorem Value.In.mono {type : IrType} {v : Value} (h : v.In Γ type) : v.In Γ' type :=
  fun u hu => hle.locals _ _ (h u hu)

theorem Pointer.In.mono {type : IrType} {p : Pointer} (h : p.In Γ type) : p.In Γ' type :=
  ⟨fun u hu => hle.locals _ _ (h.locals u hu), fun u hu => hle.globals _ _ (h.symbols u hu)⟩

theorem Register.In.mono {r : Register} (h : r.In Γ) : r.In Γ' :=
  ⟨h.lowered, hle.locals _ _ h.allocated⟩

theorem Operand.In.mono {op : Operand} (h : op.In Γ) : op.In Γ' := by
  induction op with
  | literal l => exact h
  | global c => exact h.imp id fun ⟨hkind, hc⟩ => ⟨hkind, hle.globals _ _ hc⟩
  | element c index ih =>
    obtain ⟨hkind, htype, hindex, hwithin, hc⟩ := h
    exact ⟨hkind, htype, ih hindex, hwithin, hle.globals _ _ hc⟩
  | slot l => exact hle.locals _ _ h
  | register r => exact Register.In.mono hle h

end Mono

theorem Register.In.pointer {Γ : Env} {r : Register} (h : r.In Γ) :
    (Pointer.frame r.slot).In Γ r.type.irType :=
  ⟨by simpa [Pointer.localUses] using h.allocated, by simp [Pointer.symbolUses]⟩

/-! ## Typed code -/

section Accepts

variable {Γ : Env} {array : GlobalName} {type : IrType} {length : Int} {code : List Line}

theorem Env.accepts_load {source : Pointer} (h : source.In Γ type) (n : Int) :
    Γ.Accepts [.instr (.load n type source)] ∧
      (Value.number n).In (Γ.after [.instr (.load n type source)]) type := by
  refine ⟨Env.accepts_singleton ⟨h.symbols, h.locals⟩ rfl, ?_⟩
  intro u hu
  exact Env.locals_after hu

/-- An element is addressed with an index that is within the array if it is constant. -/
theorem Env.accepts_addressing {index : Value} (hi : index.In Γ .i32) (hw : index.Within length)
    (hc : Γ.globals array (.array type length)) (wide n : Int) :
    Γ.Accepts (addressing array type length index wide n) ∧
      (Pointer.frame (.number n)).In (Γ.after (addressing array type length index wide n))
        type := by
  refine ⟨⟨⟨⟨?_, hi⟩, ⟨?_, ?_⟩, trivial⟩, .element hw .nil⟩, ⟨?_, by simp [Pointer.symbolUses]⟩⟩
  · simp [Line.symbolUses, Instr.symbolUses]
  · simpa [Line.symbolUses, Instr.symbolUses] using (Γ.le_after _).globals _ _ hc
  · intro u hu
    exact Env.locals_after (by simpa [Line.defines, Instr.defines] using List.mem_singleton.mp hu)
  · intro u hu
    obtain rfl := List.mem_singleton.mp hu
    exact Env.locals_after (by simp [addressing, Line.defines, Instr.defines])

/-- The code that reads an operand is typed. Only a literal is read as a constant. -/
theorem Operand.ReadBy.accepts {op : Operand} {v : Value} (h : op.ReadBy code v) (hin : op.In Γ) :
    Γ.Accepts code ∧ v.In (Γ.after code) op.type.irType ∧
      ∀ length, op.Within length → v.Within length := by
  have hnumber (n length : Int) : (Value.number n).Within length := by
    rintro _ ⟨⟩
  induction h with
  | literal l =>
    exact ⟨Env.accepts_nil, by simp [Value.In, Value.uses], fun _ h => h l rfl⟩
  | register r n =>
    obtain ⟨hcode, hv⟩ := Env.accepts_load (Register.In.pointer hin) n
    exact ⟨hcode, hv, fun _ _ => hnumber n _⟩
  | slot l n =>
    have hslot : (Pointer.frame l.slot).In Γ l.type.irType :=
      ⟨by simpa [Pointer.localUses, Operand.In] using hin, by simp [Pointer.symbolUses]⟩
    obtain ⟨hcode, hv⟩ := Env.accepts_load hslot n
    exact ⟨hcode, hv, fun _ _ => hnumber n _⟩
  | @global c n harray =>
    obtain ⟨-, hc⟩ := hin.resolve_left harray
    have hcell : (Pointer.global c.symbol).In Γ c.type.irType :=
      ⟨by simp [Pointer.localUses], by simpa [Pointer.symbolUses] using hc⟩
    obtain ⟨hcode, hv⟩ := Env.accepts_load hcell n
    exact ⟨hcode, hv, fun _ _ => hnumber n _⟩
  | @element c index code i wide a n _ _ ih =>
    obtain ⟨-, htype, hindex, hwithin, hc⟩ := hin
    obtain ⟨hcode, hi, hbound⟩ := ih hindex
    have hint : index.type.irType = .i32 := by
      rw [← DataType.irType_storage, htype]
      rfl
    rw [hint] at hi
    obtain ⟨haddress, hp⟩ :=
      Env.accepts_addressing hi (hbound _ hwithin) ((Γ.le_after code).globals _ _ hc) wide a
    rw [← Env.after_append] at hp
    obtain ⟨hload, hv⟩ := Env.accepts_load hp n
    refine ⟨(hcode.append haddress).append hload, ?_, fun _ _ => hnumber n _⟩
    rw [Env.after_append]
    exact hv
  | whole n hkind => exact absurd hin.1 hkind

/-- The code that stores an operand in an element is typed, if the index is and lies within the
array. -/
theorem StoredBy.accepts {index right : Operand}
    (h : StoredBy array type length index right code) (hright : right.In Γ)
    (htype : right.type.irType = type) (hc : Γ.globals array (.array type length))
    (hindex : ∀ Γ' b i, Γ.Le Γ' → index.ReadBy b i →
      Γ'.Accepts b ∧ i.In (Γ'.after b) .i32 ∧ i.Within length) : Γ.Accepts code := by
  cases h with
  | @store a b v i wide n hv hi =>
    obtain ⟨ha, hv, -⟩ := hv.accepts hright
    obtain ⟨hb, hi, hw⟩ := hindex (Γ.after a) b i (Γ.le_after a) hi
    rw [← Env.after_append] at hi
    obtain ⟨haddress, hp⟩ :=
      Env.accepts_addressing hi hw ((Γ.le_after (a ++ b)).globals _ _ hc) wide n
    rw [← Env.after_append] at hp
    refine ((ha.append hb).append haddress).append (Env.accepts_singleton ⟨hp.symbols, ?_⟩ rfl)
    intro u hu
    rcases List.mem_append.mp hu with hu | hu
    · rw [Env.after_append, Env.after_append]
      exact ((Env.le_after _ b).trans (Env.le_after _ _)).locals _ _ (hv u (htype ▸ hu))
    · exact hp.locals u hu

/-- The code that stores the initial elements of an array is typed, if they fit. -/
theorem FilledBy.accepts {position : Nat} {elements : List Operand}
    (h : FilledBy array type length position elements code) (hin : ∀ op ∈ elements, op.In Γ)
    (htypes : ∀ op ∈ elements, op.type.irType = type)
    (hc : Γ.globals array (.array type length))
    (hlength : (position + elements.length : Int) ≤ length) : Γ.Accepts code := by
  induction h generalizing Γ with
  | nil => exact Env.accepts_nil
  | @cons position op rest code code' hstored _ ih =>
    rw [List.length_cons] at hlength
    have hcode : Γ.Accepts code := by
      refine hstored.accepts (hin op (by simp)) (htypes op (by simp)) hc ?_
      rintro Γ' _ _ _ ⟨⟩
      refine ⟨Env.accepts_nil, by simp [Value.In, Value.uses], ?_⟩
      rintro _ ⟨⟩
      exact ⟨position, rfl, by omega, by omega⟩
    refine hcode.append (ih (fun op' hop' => (hin op' (by simp [hop'])).mono (Γ.le_after code))
      (fun op' hop' => htypes op' (by simp [hop'])) hc (by omega))

end Accepts

namespace Emitter

variable {α β : Type} {symbols : RuntimeSymbols} {Γ : Env} {P Q : Env → α → Prop}

/-- The operation appends typed code, and its result is as described behind that code. -/
def Writes (symbols : RuntimeSymbols) (Γ : Env) (x : Action Emitter α) (Q : Env → α → Prop) : Prop :=
  Emits symbols x fun code a => Γ.Accepts code ∧ Q (Γ.after code) a

theorem Writes.pure {a : α} (h : Q Γ a) : Writes symbols Γ (Pure.pure a) Q :=
  Emits.pure ⟨Env.accepts_nil, by simpa using h⟩

theorem Writes.bind {x : Action Emitter α} {f : α → Action Emitter β} {R : Env → β → Prop}
    (hx : Writes symbols Γ x P)
    (hf : ∀ Γ' a, Γ.Le Γ' → P Γ' a → Writes symbols Γ' (f a) R) :
    Writes symbols Γ (x >>= f) R := by
  refine Emits.bind hx ?_
  rintro code a ⟨hcode, hp⟩
  refine Emits.mono (hf _ a (Γ.le_after code) hp) ?_
  rintro code' b ⟨hcode', hr⟩
  refine ⟨hcode.append hcode', ?_⟩
  rwa [Env.after_append]

theorem Writes.mono {x : Action Emitter α} (h : Writes symbols Γ x P)
    (hpq : ∀ Γ' a, Γ.Le Γ' → P Γ' a → Q Γ' a) : Writes symbols Γ x Q :=
  Emits.mono h fun code a hp => ⟨hp.1, hpq _ a (Γ.le_after code) hp.2⟩

theorem Writes.ite {p : Prop} [Decidable p] {x y : Action Emitter α}
    (hx : p → Writes symbols Γ x Q) (hy : ¬p → Writes symbols Γ y Q) :
    Writes symbols Γ (if p then x else y) Q :=
  Emits.ite hx hy

theorem writes_reject (v : Violation) :
    Writes symbols Γ (Action.reject v : Action Emitter α) Q := by
  intro e _
  exact ensures_reject.mpr trivial

theorem writes_throw (f : Failure) : Writes symbols Γ (throw f : Action Emitter α) Q :=
  emits_throw f

theorem writes_require {p : Prop} [Decidable p] {v : Violation} {f : Unit → Action Emitter α}
    (hf : p → Writes symbols Γ (f ()) Q) : Writes symbols Γ (Action.require p v >>= f) Q :=
  emits_require hf

theorem writes_numbered {f : Int → Instr} {x : Int → Action Emitter α}
    (hd : ∀ n, (f n).dest? = some (.number n))
    (hi : ∀ n, (f n).isTerminator = false ∧ Line.isElement (.instr (f n)) = false)
    (hallows : ∀ n, Γ.Allows (.instr (f n)))
    (hx : ∀ n Γ', Γ.Le Γ' → (∀ u ∈ (f n).defines, Γ'.locals u.1 u.2) →
      Writes symbols Γ' (x n) Q) :
    Writes symbols Γ (fresh >>= fun n => emit (f n) >>= fun _ => x n) Q := by
  refine emits_numbered hd (fun n => (hi n).1) fun n => ?_
  have hdefines : ∀ u ∈ (f n).defines, (Γ.after [.instr (f n)]).locals u.1 u.2 := by
    intro u hu
    exact Env.locals_after (by simpa [Line.defines] using hu)
  refine Emits.mono (hx n _ (Γ.le_after _) hdefines) ?_
  rintro code a ⟨hcode, hq⟩
  rw [← Env.after_append] at hq
  exact ⟨(Env.accepts_singleton (hallows n) (hi n).2).append hcode, hq⟩

theorem writes_emit {i : Instr} (hd : i.dest? = none)
    (hi : i.isTerminator = false ∧ Line.isElement (.instr i) = false)
    (hallows : Γ.Allows (.instr i)) : Writes symbols Γ (emit i) fun _ _ => True :=
  emits_emit hd hi.1 ⟨Env.accepts_singleton hallows hi.2, trivial⟩

theorem writes_allocate {type : DataType} (h : type.isLowered = true) :
    Writes symbols Γ (allocate type) fun Γ' r => r.In Γ' ∧ r.type = type.storage := by
  apply writes_numbered (fun _ => rfl) (fun _ => ⟨rfl, rfl⟩)
  · intro n
    exact ⟨by simp [Line.symbolUses, Instr.symbolUses], by simp [Line.localUses, Instr.localUses]⟩
  · intro n Γ' _ hdefines
    exact .pure ⟨⟨by simpa using h, hdefines (_, _) (by simp [Instr.defines])⟩, rfl⟩

theorem writes_loadFrom {type : DataType} {source : Pointer} (h : source.In Γ type.irType) :
    Writes symbols Γ (loadFrom type source) fun Γ' v => v.In Γ' type.irType := by
  refine Emits.mono (emits_loadFrom type source) ?_
  rintro _ _ ⟨n, rfl, rfl⟩
  exact Env.accepts_load h n

theorem writes_load {r : Register} (h : r.In Γ) :
    Writes symbols Γ (load r) fun Γ' v => v.In Γ' r.type.irType :=
  writes_loadFrom h.pointer

theorem writes_store {type : DataType} {v : Value} {target : Pointer} (hv : v.In Γ type.irType)
    (ht : target.In Γ type.irType) : Writes symbols Γ (store type v target) fun _ _ => True := by
  apply writes_emit rfl ⟨rfl, rfl⟩
  refine ⟨ht.symbols, ?_⟩
  intro u hu
  rcases List.mem_append.mp hu with hu | hu
  · exact hv u hu
  · exact ht.locals u hu

theorem writes_checkLowered {op : Operand} {f : Unit → Action Emitter α}
    (hf : op.type.isLowered = true → op.kind ≠ .array → Writes symbols Γ (f ()) Q) :
    Writes symbols Γ (checkLowered op >>= f) Q :=
  emits_checkLowered hf

theorem writes_value {op : Operand} (h : op.In Γ) :
    Writes symbols Γ (value op) fun Γ' v => v.In Γ' op.type.irType := by
  refine Emits.mono (emits_value op) ?_
  intro code v hv
  obtain ⟨hcode, hv, -⟩ := hv.accepts h
  exact ⟨hcode, hv⟩

theorem writes_materialize {op : Operand} (h : op.In Γ) :
    Writes symbols Γ (materialize op) fun Γ' r => r.In Γ' ∧ r.type.storage = op.type.storage := by
  unfold materialize
  split
  · next r => exact .pure ⟨h, rfl⟩
  · apply writes_checkLowered
    intro hlowered _
    apply (writes_allocate (by simpa using hlowered)).bind
    rintro Γ₁ slot hle₁ ⟨hslot, htype⟩
    apply (writes_value (h.mono hle₁)).bind
    intro Γ₂ v hle₂ hv
    have hir : slot.type.irType = op.type.irType := by
      rw [htype, DataType.storage_storage, DataType.irType_storage]
    have hslot₂ := hslot.mono hle₂
    apply (writes_store (hir ▸ hv) hslot₂.pointer).bind
    intro Γ₃ _ hle₃ _
    exact .pure ⟨hslot₂.mono hle₃, by rw [htype]; simp⟩

theorem writes_cast {r : Register} (h : r.In Γ) (target : DataType)
    (htarget : target.isLowered = true) :
    Writes symbols Γ (cast r target) fun Γ' r' => r'.In Γ' ∧ r'.type.storage = target.storage := by
  apply Writes.ite
  · intro hsame
    exact .pure ⟨h, hsame⟩
  · intro _
    apply (writes_allocate (by simpa using htarget)).bind
    rintro Γ₁ slot hle₁ ⟨hslot, htype⟩
    apply (writes_load (h.mono hle₁)).bind
    intro Γ₂ v hle₂ hv
    apply writes_numbered (fun _ => rfl) (fun _ => ⟨rfl, rfl⟩)
    · intro n
      refine ⟨by simp [Line.symbolUses, Instr.symbolUses], ?_⟩
      simpa [Line.localUses, Instr.localUses, Value.In] using hv
    · intro n Γ₃ hle₃ hdefines
      have hir : slot.type.irType = target.storage.irType := by
        rw [htype, DataType.storage_storage]
      have hslot₃ := (hslot.mono hle₂).mono hle₃
      apply (writes_store (v := .number n) hdefines (hir ▸ hslot₃.pointer)).bind
      intro Γ₄ _ hle₄ _
      exact .pure ⟨hslot₃.mono hle₄, by rw [htype]; simp⟩

theorem irType_of_ne_real {t : DataType} (h : t.isLowered = true) (hreal : t ≠ .real) :
    t.irType = .i32 := by
  cases t <;> simp_all [DataType.isLowered, DataType.irType]

theorem writes_widen {left right : Operand} (hl : left.In Γ) (hr : right.In Γ) (force : Bool) :
    Writes symbols Γ (widen left right force) fun Γ' p =>
      p.1.In Γ' ∧ p.2.In Γ' ∧ p.1.type.irType = p.2.type.irType := by
  apply (writes_materialize hl).bind
  rintro Γ₁ l hle₁ ⟨hl₁, -⟩
  apply (writes_materialize (hr.mono hle₁)).bind
  rintro Γ₂ r hle₂ ⟨hr₂, -⟩
  have hl₂ := hl₁.mono hle₂
  apply Writes.ite
  · intro _
    apply (writes_cast hl₂ .real rfl).bind
    rintro Γ₃ l' hle₃ ⟨hl₃, hltype⟩
    apply (writes_cast (hr₂.mono hle₃) .real rfl).bind
    rintro Γ₄ r' hle₄ ⟨hr₄, hrtype⟩
    refine .pure ⟨hl₃.mono hle₄, hr₄, ?_⟩
    rw [← DataType.irType_storage, hltype, ← hrtype, DataType.irType_storage]
  · intro hint
    simp only [not_or] at hint
    refine .pure ⟨hl₂, hr₂, ?_⟩
    rw [irType_of_ne_real hl₂.lowered hint.2.1,
      irType_of_ne_real hr₂.lowered hint.2.2]

theorem writes_arithmetic {left right : Operand} (hl : left.In Γ) (hr : right.In Γ) (op : ArithOp) :
    Writes symbols Γ (arithmetic left op right) fun Γ' r => r.In Γ' := by
  apply (writes_widen hl hr _).bind
  rintro Γ₁ ⟨l, r⟩ hle₁ ⟨hl₁, hr₁, htypes⟩
  dsimp only at hl₁ hr₁ htypes ⊢
  split
  · exact writes_throw _
  · next opcode _ =>
    apply (writes_allocate hl₁.lowered).bind
    rintro Γ₂ result hle₂ ⟨hresult, htype⟩
    apply (writes_load (hl₁.mono hle₂)).bind
    intro Γ₃ lv hle₃ hlv
    apply (writes_load ((hr₁.mono hle₂).mono hle₃)).bind
    intro Γ₄ rv hle₄ hrv
    rw [← htypes] at hrv
    have hlv₄ := hlv.mono hle₄
    apply writes_numbered (fun _ => rfl) (fun _ => ⟨rfl, rfl⟩)
    · intro n
      refine ⟨by simp [Line.symbolUses, Instr.symbolUses], ?_⟩
      intro u hu
      rcases List.mem_append.mp hu with hu | hu
      · exact hlv₄ u hu
      · exact hrv u hu
    · intro n Γ₅ hle₅ hdefines
      have hir : result.type.irType = l.type.irType := by
        rw [htype, DataType.irType_storage]
      have hresult₅ := ((hresult.mono hle₃).mono hle₄).mono hle₅
      apply (writes_store (v := .number n) hdefines (hir ▸ hresult₅.pointer)).bind
      intro Γ₆ _ hle₆ _
      exact .pure (hresult₅.mono hle₆)

/-! ## Calls and printing -/

theorem ensures_checkArgTypes {function : String} {position : Nat} {args : List Operand}
    {types : List DataType} (hlength : args.length = types.length) (e : Emitter) :
    Ensures (checkArgTypes function position args types) e fun _ e' =>
      e' = e ∧ args.map (·.type.irType) = types.map DataType.irType := by
  induction args generalizing types position with
  | nil =>
    cases types with
    | nil => exact ensures_pure.mpr ⟨rfl, rfl⟩
    | cons type types => cases hlength
  | cons arg args ih =>
    cases types with
    | nil => cases hlength
    | cons type types =>
      rw [checkArgTypes, ensures_bind, ensures_require]
      intro htype
      refine (ih (Nat.succ.inj hlength)).mono ?_
      rintro _ _ ⟨rfl, hrest⟩
      refine ⟨rfl, ?_⟩
      rw [List.map_cons, List.map_cons, hrest, ← DataType.irType_storage, htype,
        DataType.irType_storage]

theorem writes_checkArgs {sig : Signature} {args : List Operand} {f : Unit → Action Emitter α}
    (hf : args.map (·.type.irType) = sig.params.map DataType.irType →
      Writes symbols Γ (f ()) Q) : Writes symbols Γ (checkArgs sig args >>= f) Q := by
  intro e he
  unfold checkArgs
  simp only [ensures_bind, ensures_require]
  intro hlength
  refine (ensures_checkArgTypes hlength e).mono ?_
  rintro _ _ ⟨rfl, htypes⟩
  exact hf htypes _ he

theorem writes_argValues {args : List Operand} (h : ∀ arg ∈ args, arg.In Γ) :
    Writes symbols Γ (argValues args) fun Γ' values =>
      values.map Prod.fst = args.map (·.type.irType) ∧ ∀ v ∈ values, v.2.In Γ' v.1 := by
  induction args generalizing Γ with
  | nil => exact .pure ⟨rfl, by simp⟩
  | cons arg args ih =>
    apply (writes_materialize (h arg (by simp))).bind
    rintro Γ₁ r hle₁ ⟨hr, htype⟩
    apply (writes_load hr).bind
    intro Γ₂ v hle₂ hv
    have hrest : ∀ arg' ∈ args, arg'.In Γ₂ :=
      fun arg' harg' => (h arg' (by simp [harg'])).mono (hle₁.trans hle₂)
    apply (ih hrest).bind
    rintro Γ₃ values hle₃ ⟨htypes, hvalues⟩
    refine .pure ⟨?_, ?_⟩
    · rw [List.map_cons, List.map_cons, htypes, ← DataType.irType_storage, htype,
        DataType.irType_storage]
    · intro v' hv'
      rcases List.mem_cons.mp hv' with rfl | hold
      · exact hv.mono hle₃
      · exact hvalues v' hold

theorem writes_call {callee : GlobalName} {sig : Signature} {args : List Operand}
    (hcallee : Γ.globals callee sig.symbolType) (hargs : ∀ arg ∈ args, arg.In Γ) :
    Writes symbols Γ (call callee sig args) fun Γ' v => v.In Γ' sig.result.irType := by
  apply writes_checkArgs
  intro htypes
  apply (writes_argValues hargs).bind
  rintro Γ₁ values hle₁ ⟨hfst, hvalues⟩
  apply writes_numbered (fun _ => rfl) (fun _ => ⟨rfl, rfl⟩)
  · intro n
    refine ⟨?_, ?_⟩
    · simpa [Line.symbolUses, Instr.symbolUses, hfst, htypes, Signature.symbolType] using
        hle₁.globals _ _ hcallee
    · intro u hu
      obtain ⟨v, hv, hu⟩ := List.mem_flatMap.mp hu
      exact hvalues v hv u hu
  · intro n Γ₂ _ hdefines
    exact .pure hdefines

theorem writes_callFunction {sig : Signature} {args : List Operand}
    (hcallee : Γ.globals (.function sig.name) sig.symbolType)
    (hresult : sig.result.isLowered = true) (hargs : ∀ arg ∈ args, arg.In Γ) :
    Writes symbols Γ (callFunction sig args) fun Γ' r => r.In Γ' := by
  apply (writes_call hcallee hargs).bind
  intro Γ₁ v hle₁ hv
  apply (writes_allocate hresult).bind
  rintro Γ₂ slot hle₂ ⟨hslot, htype⟩
  have hir : slot.type.irType = sig.result.irType := by
    rw [htype, DataType.irType_storage]
  apply (writes_store (hv.mono hle₂) (hir ▸ hslot.pointer)).bind
  intro Γ₃ _ hle₃ _
  exact .pure (hslot.mono hle₃)

theorem writes_symbols {f : Int → RuntimeSymbols → Action Emitter α}
    (h : Writes symbols Γ (fresh >>= fun n => f n symbols) Q) :
    Writes symbols Γ (fresh >>= fun n => get >>= fun e => f n e.symbols) Q := by
  intro e he
  have hrun := h e he
  rw [ensures_bind, ensures_fresh] at hrun ⊢
  rw [ensures_bind, ensures_get, symbols_write, he]
  exact hrun

theorem writes_print {op : Operand} (hprovides : Γ.Provides symbols) (h : op.In Γ) :
    Writes symbols Γ (print op) fun _ _ => True := by
  apply (writes_materialize h).bind
  rintro Γ₁ r hle₁ ⟨hr, -⟩
  apply (writes_load hr).bind
  intro Γ₂ v hle₂ hv
  have hprovides₂ := (hprovides.mono hle₁).mono hle₂
  have hallows (n : Int) : Γ₂.Allows (.instr (.print n (.external symbols.printf)
      (symbols.printFormat r.type) r.type.irType v)) := by
    refine ⟨?_, hv⟩
    simp [Line.symbolUses, Instr.symbolUses, hprovides₂.printf, hprovides₂.printFormat]
  have hprint : Writes symbols Γ₂ (do
      let n ← fresh
      emit (.print n (.external symbols.printf) (symbols.printFormat r.type) r.type.irType v)
      pure ()) fun _ _ => True :=
    writes_numbered (fun _ => rfl) (fun _ => ⟨rfl, rfl⟩) hallows fun _ _ _ _ => .pure trivial
  exact writes_symbols (f := fun n s => emit (.print n (.external s.printf) (s.printFormat r.type)
    r.type.irType v)) (by simpa using hprint)

/-! ## Elements of arrays -/

theorem writes_element (array : Binding) {index : Operand} (hindex : index.In Γ) :
    Writes symbols Γ (element array index) fun _ g => ∃ g₀, array = .global g₀ ∧
      g₀.kind = .array ∧ index.type.storage = .int ∧ index.Within g₀.length ∧
        g = g₀.element index := by
  unfold element
  split
  · exact writes_reject _
  · next g₀ =>
    apply writes_require
    intro hkind
    apply writes_require
    intro htype
    apply writes_checkLowered
    intro _ _
    split
    · next l =>
      apply writes_require
      rintro ⟨hnonneg, hlt⟩
      refine .pure ⟨g₀, rfl, hkind, htype, ?_, rfl⟩
      -- The literal is spelled as the value that has been checked.
      rintro _ ⟨⟩ _ ⟨⟩
      exact ⟨_, hindex htype, hnonneg, hlt⟩
    · next hliteral =>
      exact .pure ⟨g₀, rfl, hkind, htype, fun l hl => absurd hl (hliteral l), rfl⟩

theorem writes_assign_element {g : Global} {index right : Operand} (hg : g.index = some index)
    (hin : (Operand.element g.toCell index).In Γ) (hright : right.In Γ) :
    Writes symbols Γ (assign (.global g) right) fun _ _ => True := by
  obtain ⟨hkind, hint, hindex, hwithin, hc⟩ := hin
  refine Emits.mono (emits_assign_element hg hkind right) ?_
  rintro code _ ⟨htype, hstored⟩
  refine ⟨hstored.accepts hright ?_ hc ?_, trivial⟩
  · rw [← DataType.irType_storage, htype, DataType.irType_storage]
  · intro Γ' b i hle hi
    obtain ⟨hb, hi, hbound⟩ := hi.accepts (hindex.mono hle)
    have hir : index.type.irType = .i32 := by
      rw [← DataType.irType_storage, hint]
      rfl
    exact ⟨hb, hir ▸ hi, hbound _ hwithin⟩

end Emitter

end MkCompiler
