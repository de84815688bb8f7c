import MkCompiler.Proofs.Expressions
import MkCompiler.Proofs.Numerals

/-!
# Compilation of expressions

The notifications of an expression are type checking and one push: they are compiled if and only if
the expression is well typed, and leave one operand with the type of the expression on the stack.
-/

namespace MkCompiler

open MkCompiler.Action

/-! ## Operands of expressions -/

def Operand.value? : Operand → Option Int
  | .literal l =>
    if l.type.storage = .int then some (Numeral.clamped64 l.text.toList) else none
  | _ => none

/-- An operand holds a value of a shape. Unless it is a whole array, it can be read. -/
structure Operand.Fits (op : Operand) (s : Shape) : Prop where
  type : op.type = s.type
  kind : op.kind = .array ↔ s.isArray = true
  typed : op.Typed
  readable : s.isArray = false → op.Readable
  value : op.value? = s.literal

structure Global.Indexed (g : Global) (s : Shape) : Prop where
  kind : g.kind = .array
  type : s.type.storage = .int
  value : s.isArray = false
  bounds : ∀ v, s.literal = some v → 0 ≤ v ∧ v < g.length

namespace Operand

theorem fits_int {text : List Char} {v : Int} (h : Numeral.word32? text = some v) :
    (Operand.literal (Literal.ofInt v)).Fits { type := .int, literal := some v } where
  type := rfl
  kind := by simp [Operand.kind]
  typed := rfl
  readable := fun _ => rfl
  value := congrArg some (Numeral.clamped64_toString h)

theorem fits_real (v : Binary64) : (Operand.literal (Literal.ofReal v)).Fits { type := .real } where
  type := rfl
  kind := by simp [Operand.kind]
  typed := rfl
  readable := fun _ => rfl
  value := rfl

theorem fits_register {r : Register} (h : r.type.IsScalar) :
    (Operand.register r).Fits { type := r.type } where
  type := rfl
  kind := by simp [Operand.kind]
  typed := h
  readable := fun _ => h
  value := rfl

theorem fits_element {g : Global} {index : Operand} (hg : g.type.isLowered = true)
    (hindex : index.Readable) : (g.element index).toOperand.Fits { type := g.type } where
  type := rfl
  kind := by simp [Global.element, Global.toOperand, Operand.kind]
  typed := hg
  readable := fun _ => ⟨hg, rfl, hindex⟩
  value := rfl

theorem fits_binding {t : SymbolTable} {b : Binding} (ht : t.Typed) (hb : t.Has b) :
    b.toOperand.Fits (.ofBinding b) := by
  have hlowered := ht.bindings b hb
  cases b with
  | slot l => exact ⟨rfl, by simp [Shape.ofBinding], hlowered, fun _ => hlowered, rfl⟩
  | global g =>
    obtain ⟨hkind, hindex⟩ := ht.stored g hb
    have hoperand : (Binding.global g).toOperand = .global g.toCell := by
      rw [Binding.toOperand, Global.toOperand, hindex]
    rw [hoperand]
    refine ⟨rfl, decide_eq_true_iff.symm, hlowered, ?_, rfl⟩
    intro harray
    exact ⟨hlowered, hkind.resolve_right (of_decide_eq_false harray)⟩

/-- A signature accepts operands if their shapes suit its parameters. -/
theorem accepts_iff_suits {ops : List Operand} {shapes : List Shape}
    (h : List.Forall₂ Fits ops shapes) (sig : Signature) :
    sig.Accepts ops ↔ List.Forall₂ Shape.Suits shapes sig.params := by
  have hall (types : List DataType) : List.Forall₂ (fun op type =>
      op.type.storage = type.storage ∧ op.kind ≠ .array) ops types ↔
        List.Forall₂ Shape.Suits shapes types := by
    induction h generalizing types with
    | nil => simp
    | cons hfits _ ih =>
      cases types with
      | nil => simp
      | cons type types =>
        rw [List.forall₂_cons, List.forall₂_cons, ih types, Shape.Suits, hfits.type, Ne, hfits.kind,
          Bool.not_eq_true, and_comm (a := _ = type.storage)]
  exact hall sig.params

theorem typed_of_fits {ops : List Operand} {shapes : List Shape}
    (h : List.Forall₂ Fits ops shapes) : ∀ op ∈ ops, op.Typed := by
  induction h with
  | nil => simp
  | cons hfits _ ih => simpa using ⟨hfits.typed, ih⟩

theorem readable_of_suits {ops : List Operand} {shapes : List Shape} {types : List DataType}
    (h : List.Forall₂ Fits ops shapes) (hs : List.Forall₂ Shape.Suits shapes types) :
    ∀ op ∈ ops, op.Readable := by
  induction h generalizing types with
  | nil => simp
  | cons hfits _ ih =>
    cases hs with
    | cons hsuits hrest => simpa using ⟨hfits.readable hsuits.1, ih hrest⟩

end Operand

namespace Emitter

variable {inside finished : Bool} {e : Emitter}

theorem ends_element_fits {index : Operand} {s : Shape} (hindex : index.Fits s) (b : Binding) :
    Ends (element b index) e
      (fun g' e' => e' = e ∧ ∃ g, b = .global g ∧ g.Indexed s ∧ g' = g.element index)
      fun _ _ => ∀ g, b = .global g → ¬g.Indexed s := by
  unfold element
  cases b with
  | slot l => exact ends_reject.mpr (by simp)
  | global g =>
    dsimp only
    have hfail (h : ¬g.Indexed s) : ∀ g', Binding.global g = .global g' → ¬g'.Indexed s := by
      rintro _ ⟨⟩
      exact h
    have hpass (h : g.Indexed s) : e = e ∧ ∃ g', Binding.global g = .global g' ∧ g'.Indexed s ∧
        g.element index = g'.element index :=
      ⟨rfl, g, rfl, h, rfl⟩
    rw [ends_bind, ends_require]
    refine ⟨fun hkind => ?_, fun hkind => hfail fun h => hkind h.kind⟩
    rw [ends_bind, ends_require, hindex.type]
    refine ⟨fun htype => ?_, fun htype => hfail fun h => htype h.type⟩
    rw [ends_bind, checkLowered, ends_bind, ends_require]
    refine ⟨fun _ => ?_, fun hlowered => absurd hindex.typed.isLowered hlowered⟩
    rw [ends_require, Ne, hindex.kind, Bool.not_eq_true]
    refine ⟨fun hvalue => ?_, fun hvalue => hfail fun h => hvalue h.value⟩
    have hliteral := hindex.value
    cases index with
    | literal l =>
      have hint : l.type.storage = .int := by
        have heq := hindex.type
        rw [Operand.type] at heq
        rw [heq]
        exact htype
      rw [Operand.value?, if_pos hint] at hliteral
      rw [ends_bind, ends_require]
      constructor
      · intro hbounds
        refine ends_pure.mpr (hpass ⟨hkind, htype, hvalue, ?_⟩)
        intro v hv
        rw [← hliteral] at hv
        cases hv
        exact hbounds
      · intro hbounds
        exact hfail fun h => hbounds (h.bounds _ hliteral.symm)
    | global c | element c i | slot l | register r =>
      refine ends_pure.mpr (hpass ⟨hkind, htype, hvalue, ?_⟩)
      intro v hv
      rw [← hliteral] at hv
      cases hv

theorem ends_arithmetic_fits {left right : Operand} {l r : Shape} (hl : left.Fits l)
    (hr : right.Fits r) (op : ArithOp) (he : e.Steady inside finished) :
    Ends (arithmetic left op right) e
      (fun reg e' => (l.isArray = false ∧ r.isArray = false) ∧
        reg.type = op.resultType l.type r.type ∧ e'.Steady inside finished)
      fun _ _ => ¬(l.isArray = false ∧ r.isArray = false) := by
  apply Keeps.ends_exactly _ _ he
  · rintro ⟨hlv, hrv⟩
    exact keeps_arithmetic (writeClosed_steady _ _) (.inl (hl.readable hlv))
      (.inl (hr.readable hrv)) op
  · refine (ensures_arithmetic hl.typed hr.typed op e).mono ?_
    rintro reg _ ⟨hlk, hrk, htype⟩
    rw [Ne, hl.kind, Bool.not_eq_true] at hlk
    rw [Ne, hr.kind, Bool.not_eq_true] at hrk
    rw [hl.type, hr.type] at htype
    exact ⟨⟨hlk, hrk⟩, htype⟩

theorem ends_call_fits {args : List Operand} {shapes : List Shape}
    (hargs : List.Forall₂ Operand.Fits args shapes) {sig : Signature} (hsig : sig.IsScalar)
    {x : Action Emitter Register} (he : e.Steady inside finished)
    (hgood : sig.Accepts args → (∀ arg ∈ args, arg.Readable) →
      Keeps (Steady inside finished) (Steady inside finished) (fun _ => False) x)
    (hx : Ensures x e fun r _ => sig.Accepts args ∧ r.type = sig.result.storage) :
    Ends x e
      (fun r e' => List.Forall₂ Shape.Suits shapes sig.params ∧ r.type = sig.result ∧
        e'.Steady inside finished)
      fun _ _ => ¬List.Forall₂ Shape.Suits shapes sig.params := by
  apply Keeps.ends_exactly _ _ he
  · intro hsuits
    exact hgood ((Operand.accepts_iff_suits hargs sig).mpr hsuits)
      (Operand.readable_of_suits hargs hsuits)
  · refine hx.mono ?_
    rintro r _ ⟨haccepts, hr⟩
    exact ⟨(Operand.accepts_iff_suits hargs sig).mp haccepts, hr.trans hsig.1.storage_eq⟩

end Emitter

namespace Compilation

open SymbolTable

variable {S : Command → Prop} {t : SymbolTable} {inside finished : Bool} {c : Compilation}
  {rest : List Operand}

/-- A compilation with a symbol table, and with an emitter that is in order. -/
structure Poised (t : SymbolTable) (inside finished : Bool) (c : Compilation) : Prop where
  table : c.table = t
  emitter : c.emitter.Steady inside finished

/-- One operand of a shape lies on top of the stack. -/
def Leaves (t : SymbolTable) (inside finished : Bool) (rest : List Operand) (s : Shape)
    (c : Compilation) : Prop :=
  ∃ op, op.Fits s ∧ c.stack = op :: rest ∧ c.Poised t inside finished

/-- The result of a callee is pushed if there is one and the arguments suit it. -/
abbrev Calls (t : SymbolTable) (inside finished : Bool) (rest : List Operand)
    (callee? : Option Signature) (shapes : List Shape) (x : Action Compilation Unit)
    (c : Compilation) : Prop :=
  Ends x c
    (fun _ c' => ∃ sig, callee? = some sig ∧ List.Forall₂ Shape.Suits shapes sig.params ∧
      Leaves t inside finished rest { type := sig.result } c')
    fun _ _ => ∀ sig, callee? = some sig → ¬List.Forall₂ Shape.Suits shapes sig.params

/-! ## Stack and table -/

section Access

variable {Q : Operand → Compilation → Prop} {E : Failure → Compilation → Prop}

theorem ends_pop_cons {op : Operand} (h : c.stack = op :: rest) :
    Ends pop c Q E ↔ Q op { c with stack := rest } := by
  rw [pop, ends_bind, ends_get, h]
  exact Iff.rfl

theorem ends_popPair_cons {left right : Operand} (h : c.stack = right :: left :: rest)
    {Q : Operand × Operand → Compilation → Prop} :
    Ends popPair c Q E ↔ Q (left, right) { c with stack := rest } := by
  rw [popPair, ends_bind, ends_pop_cons h, ends_bind, ends_pop_cons rfl, ends_pure]

theorem ends_popMany_append {ops : List Operand} (h : c.stack = ops.reverse ++ rest)
    {Q : List Operand → Compilation → Prop} :
    Ends (popMany ops.length) c Q E ↔ Q ops { c with stack := rest } := by
  have hlength : (ops.length : Int) ≤ c.stack.length := by
    rw [h, List.length_append, List.length_reverse]
    omega
  have htake : (c.stack.take ops.length).reverse = ops := by
    rw [h, List.take_left' (List.length_reverse), List.reverse_reverse]
  have hdrop : c.stack.drop ops.length = rest := by
    rw [h, List.drop_left' (List.length_reverse)]
  rw [popMany, ends_bind, ends_get, if_neg (by omega), if_pos hlength, ends_bind, ends_set,
    ends_pure, Int.toNat_natCast, htake, hdrop]

end Access

theorem has_of_meaning? {name : String} {b : Binding} (h : t.meaning? name = some b) : t.Has b := by
  rw [← resolve?_eq_meaning?] at h
  exact has_of_resolve? h

theorem method?_of_find? {inst : String} {i : InstanceInfo} {k : ClassInfo}
    (hi : t.instances.find? inst = some i) (hk : t.classes[i.classId]? = some k) (name : String) :
    t.method? inst name = k.methods.find? name := by
  simp [method?, classOf?, hi, hk]

theorem callee?_of_instance?_eq_none (h : t.instance? = none) (name : String) :
    t.callee? name = t.functions.find? name := by
  unfold callee? method? classOf?
  cases hcurrent : t.current with
  | none => rfl
  | some o =>
    have hnone : t.instances.find? o = none := by simpa [instance?, hcurrent] using h
    simp [hnone]

/-! ## Constructs -/

namespace Poised

section Lookup

variable (hc : c.Poised t inside finished)
include hc

theorem withStack (stack : List Operand) : Poised t inside finished { c with stack } :=
  ⟨hc.table, hc.emitter⟩

theorem leaves_push {op : Operand} {s : Shape} (h : op.Fits s) :
    Leaves t inside finished c.stack s { c with stack := op :: c.stack } :=
  ⟨op, h, rfl, hc.table, hc.emitter⟩

theorem lookup {name : String} {Q : Binding → Compilation → Prop}
    {E : Failure → Compilation → Prop} (hq : ∀ b, t.meaning? name = some b → Q b c)
    (he : t.meaning? name = none → ∀ f, E f c) :
    Ends (onTable (SymbolTable.lookup name)) c Q E := by
  obtain ⟨rfl, -⟩ := hc
  rw [onTable, ends_zoom, SymbolTable.lookup, ends_bind, ends_get, resolve?_eq_meaning?]
  cases hb : c.table.meaning? name with
  | none => exact ends_reject.mpr (he hb _)
  | some b => exact hq b hb

theorem lookupInstance {name : String} {Q : InstanceInfo → Compilation → Prop}
    {E : Failure → Compilation → Prop} (hq : ∀ i, t.instances.find? name = some i → Q i c)
    (he : t.instances.find? name = none → ∀ f, E f c) :
    Ends (onTable (SymbolTable.lookupInstance name)) c Q E := by
  obtain ⟨rfl, -⟩ := hc
  rw [onTable, ends_zoom, SymbolTable.lookupInstance, ends_bind, ends_get]
  cases hi : c.table.instances.find? name with
  | none => exact ends_reject.mpr (he hi _)
  | some i => exact hq i hi

theorem classAt (hs : t.Sound S) {name : String} {i : InstanceInfo}
    (hi : t.instances.find? name = some i) {Q : ClassInfo → Compilation → Prop}
    {E : Failure → Compilation → Prop} (hq : ∀ k, t.classes[i.classId]? = some k → Q k c) :
    Ends (onTable (SymbolTable.classAt i.classId)) c Q E := by
  obtain ⟨rfl, -⟩ := hc
  obtain ⟨-, hid⟩ := hs.instances name i hi
  have hk := List.getElem?_eq_getElem hid
  rw [onTable, ends_zoom]
  exact SymbolTable.ends_classAt hk (hq _ hk)

end Lookup

section Constructs

variable (ht : t.Typed) (hc : c.Poised t inside finished)
include ht hc

omit ht in
/-- A literal is pushed if its text can be read. -/
theorem literal {α : Type} {read? : Option α} {toLiteral : α → Literal} {shape : α → Shape}
    (hfits : ∀ v, read? = some v → (Operand.literal (toLiteral v)).Fits (shape v))
    (violation : Violation) :
    Ends (match read?.map toLiteral with
      | some l => push (.literal l)
      | none => reject violation) c
      (fun _ c' => ∃ v, read? = some v ∧ Leaves t inside finished c.stack (shape v) c')
      fun _ _ => read? = none := by
  cases read? with
  | none => exact ends_reject.mpr rfl
  | some v => exact ⟨v, rfl, hc.leaves_push (hfits v rfl)⟩

omit ht in
theorem int (text : String) : Ends (Compilation.int text) c
    (fun _ c' => ∃ v, Numeral.word32? text.toList = some v ∧
      Leaves t inside finished c.stack { type := .int, literal := some v } c')
    fun _ _ => Numeral.word32? text.toList = none :=
  hc.literal (fun _ hv => Operand.fits_int hv) _

omit ht in
theorem real (text : String) : Ends (Compilation.real text) c
    (fun _ c' => ∃ v, Numeral.real? text.toList = some v ∧
      Leaves t inside finished c.stack { type := .real } c')
    fun _ _ => Numeral.real? text.toList = none :=
  hc.literal (fun v _ => Operand.fits_real v) _

theorem name (name : String) : Ends (Compilation.name name) c
    (fun _ c' => ∃ b, t.meaning? name = some b ∧
      Leaves t inside finished c.stack (.ofBinding b) c')
    fun _ _ => t.meaning? name = none := by
  rw [Compilation.name, ends_bind]
  apply hc.lookup
  · intro b hb
    exact ⟨b, hb, hc.leaves_push (Operand.fits_binding ht (has_of_meaning? hb))⟩
  · intro hnone _
    exact hnone

theorem member (inst field : String) : Ends (Compilation.member inst field) c
    (fun _ c' => ∃ g, t.field? inst field = some g ∧
      Leaves t inside finished c.stack (.ofBinding (.global g)) c')
    fun _ _ => t.field? inst field = none := by
  rw [Compilation.member, ends_bind, instanceField, ends_bind]
  apply hc.lookupInstance
  · intro i hi
    cases hg : i.fields.find? field with
    | none => exact ends_reject.mpr (by simp [field?, hi, hg])
    | some g =>
      refine ⟨g, by simp [field?, hi, hg], ?_⟩
      exact hc.leaves_push (Operand.fits_binding ht (.field hi hg))
  · intro hnone _
    simp [field?, hnone]

theorem element {index : Operand} {s : Shape} (hstack : c.stack = index :: rest)
    (hindex : index.Fits s) (array : String) : Ends (Compilation.element array) c
    (fun _ c' => ∃ g, t.meaning? array = some (.global g) ∧ g.Indexed s ∧
      Leaves t inside finished rest { type := g.type } c')
    fun _ _ => ∀ g, t.meaning? array = some (.global g) → ¬g.Indexed s := by
  rw [Compilation.element, ends_bind, ends_pop_cons hstack, ends_bind, arrayElement, ends_bind]
  apply (hc.withStack rest).lookup
  · intro b hb
    rw [onEmitter, ends_zoom]
    apply (Emitter.ends_element_fits hindex b).mono
    · rintro _ _ ⟨rfl, g, rfl, hg, rfl⟩
      have hlowered := ht.bindings _ (has_of_meaning? hb)
      exact ⟨g, hb, hg, (hc.withStack rest).leaves_push
        (Operand.fits_element hlowered (hindex.readable hg.value))⟩
    · intro _ _ hfail g hg
      exact hfail g (Option.some.inj (hb.symm.trans hg))
  · intro hnone _ g hg
    rw [hnone] at hg
    cases hg

omit ht in
theorem arith {left right : Operand} {l r : Shape} (hstack : c.stack = right :: left :: rest)
    (hl : left.Fits l) (hr : right.Fits r) (op : ArithOp) : Ends (Compilation.arith op.name) c
    (fun _ c' => (l.isArray = false ∧ r.isArray = false) ∧
      Leaves t inside finished rest { type := op.resultType l.type r.type } c')
    fun _ _ => ¬(l.isArray = false ∧ r.isArray = false) := by
  rw [Compilation.arith, ArithOp.ofToken?_name]
  dsimp only
  rw [ends_bind, ends_popPair_cons hstack, ends_bind, onEmitter, ends_zoom]
  apply (Emitter.ends_arithmetic_fits hl hr op hc.emitter).mono
  · rintro reg e ⟨hvalues, htype, he⟩
    have hfits := Operand.fits_register (htype ▸ op.isScalar_resultType l.type r.type)
    rw [htype] at hfits
    exact ⟨hvalues, Operand.register reg, hfits, rfl, hc.table, he⟩
  · intro _ _ hfail
    exact hfail

variable {args : List Operand} {shapes : List Shape} (hargs : List.Forall₂ Operand.Fits args shapes)
include hargs

omit ht in
theorem pushResult {sig : Signature} (hsig : sig.IsScalar) {x : Action Emitter Register}
    (hgood : sig.Accepts args → (∀ arg ∈ args, arg.Readable) → Keeps
      (Emitter.Steady inside finished) (Emitter.Steady inside finished) (fun _ => False) x)
    (hx : ∀ e, Ensures x e fun r _ => sig.Accepts args ∧ r.type = sig.result.storage) :
    Calls t inside finished c.stack (some sig) shapes
      (do let r ← onEmitter x; push (.register r)) c := by
  rw [Calls, ends_bind, onEmitter, ends_zoom]
  apply (Emitter.ends_call_fits hargs hsig hc.emitter hgood (hx _)).mono
  · rintro reg e ⟨hsuits, htype, he⟩
    have hfits := Operand.fits_register (htype ▸ hsig.1)
    rw [htype] at hfits
    exact ⟨sig, rfl, hsuits, Operand.register reg, hfits, rfl, hc.table, he⟩
  · rintro _ _ hfail _ ⟨⟩
    exact hfail

theorem callFunction (name : String) : Calls t inside finished c.stack (t.functions.find? name)
    shapes (do
      let sig ← onTable (SymbolTable.lookupFunction name)
      let r ← onEmitter (Emitter.callFunction sig args)
      push (.register r)) c := by
  obtain rfl := hc.table
  rw [Calls, ends_bind, onTable, ends_zoom, SymbolTable.lookupFunction, ends_bind, ends_get,
    ends_bind, ends_require]
  constructor
  · intro _
    cases hsig : c.table.functions.find? name with
    | none => exact ends_reject.mpr (by simp)
    | some sig =>
      obtain ⟨hscalar, -⟩ := ht.functions name sig hsig
      exact hc.pushResult hargs hscalar
        (fun haccepts hreadable => Emitter.keeps_callFunction (Emitter.writeClosed_steady _ _)
          ⟨.inl haccepts, fun arg harg => .inl (hreadable arg harg)⟩)
        (Emitter.ensures_callFunction (Operand.typed_of_fits hargs) sig)
  · intro hreserved sig hsig
    exact absurd (ht.functions name sig hsig).2 hreserved

theorem invoke (inst : String) {k : ClassInfo} (hk : k ∈ t.classes) {method : String}
    {sig : Signature} (hsig : k.methods.find? method = some sig) :
    Calls t inside finished c.stack (some sig) shapes
      (do let r ← onEmitter (Emitter.callMethod inst sig args); push (.register r)) c := by
  have hscalar := ht.methods k hk method sig hsig
  have hlowered := hscalar.1.isLowered
  exact hc.pushResult hargs hscalar
    (fun haccepts hreadable =>
      Emitter.keeps_callMethod inst ⟨.inl haccepts, fun arg harg => .inl (hreadable arg harg)⟩
        (.inl hlowered))
    (Emitter.ensures_callMethod (Operand.typed_of_fits hargs) inst hlowered)

variable (hs : t.Sound S) (hstack : c.stack = args.reverse ++ rest)
include hs hstack

theorem call (name : String) : Calls t inside finished rest (t.callee? name) shapes
    (Compilation.call name args.length) c := by
  obtain rfl := hc.table
  have hc₁ := hc.withStack rest
  rw [Calls, Compilation.call, ends_bind, ends_popMany_append hstack, ends_bind, ownMethod?,
    ends_bind, ends_get]
  cases hinst : c.table.instance? with
  | none =>
    rw [callee?_of_instance?_eq_none hinst]
    exact hc₁.callFunction ht hargs name
  | some inst =>
    obtain ⟨o, hcurrent, ho⟩ := Option.bind_eq_some_iff.mp hinst
    dsimp only
    rw [ends_bind]
    apply hc₁.classAt hs ho
    intro k hk
    have hcallee :
        c.table.callee? name = (k.methods.find? name).or (c.table.functions.find? name) := by
      rw [callee?, hcurrent, Option.bind_some, method?_of_find? ho hk]
    rw [ends_pure, hcallee]
    cases hsig : k.methods.find? name with
    | none => exact hc₁.callFunction ht hargs name
    | some sig => exact hc₁.invoke ht hargs inst.name (List.mem_of_getElem? hk) hsig

theorem callMethod (inst method : String) : Calls t inside finished rest (t.method? inst method)
    shapes (Compilation.callMethod inst method args.length) c := by
  have hc₁ := hc.withStack rest
  rw [Calls, Compilation.callMethod, ends_bind, ends_popMany_append hstack, ends_bind]
  apply hc₁.lookupInstance
  · intro i hi
    rw [ends_bind]
    apply hc₁.classAt hs hi
    intro k hk
    rw [method?_of_find? hi hk]
    cases hsig : k.methods.find? method with
    | none => exact ends_reject.mpr (by simp)
    | some sig => exact hc₁.invoke ht hargs i.name (List.mem_of_getElem? hk) hsig
  · intro hnone _ sig hsig
    simp [method?, classOf?, hnone] at hsig

end Constructs

end Poised

/-! ## Runs -/

section Runs

theorem ends_replay_single {cmd : Command} {Q : Unit → Compilation → Prop}
    {E : Stop → Compilation → Prop} : Ends (replay [cmd]) c Q E ↔
      Ends (construct cmd) c Q fun f c' => E ⟨f, cmd.line⟩ c' := by
  rw [replay, ends_bind, ends_locate]
  exact Iff.rfl

/-- The expression is compiled if it is well typed, and refused otherwise. -/
def Walks (t : SymbolTable) (inside finished : Bool) (e : Expression) : Prop :=
  ∀ c : Compilation, c.Poised t inside finished → Ends (replay e.commands) c
    (fun _ c' => ∃ s, e.HasShape t s ∧ Leaves t inside finished c.stack s c')
    fun _ _ => ∀ s, ¬e.HasShape t s

theorem unique_shapes {args : List Expression} {shapes shapes' : List Shape}
    (h : List.Forall₂ (Expression.HasShape t) args shapes)
    (h' : List.Forall₂ (Expression.HasShape t) args shapes') : shapes = shapes' :=
  List.right_unique_forall₂' (fun _ _ _ hs hs' => hs.unique hs') h h'

/-- Arguments are compiled from left to right. The last one lies on top. -/
theorem ends_replay_args {args : List Expression}
    (h : ∀ arg ∈ args, Walks t inside finished arg) (hc : c.Poised t inside finished) :
    Ends (replay (Expression.commandsOf args)) c
      (fun _ c' => ∃ shapes ops, List.Forall₂ (Expression.HasShape t) args shapes ∧
        List.Forall₂ Operand.Fits ops shapes ∧ c'.stack = ops.reverse ++ c.stack ∧
        c'.Poised t inside finished)
      fun _ _ => ∀ shapes, ¬List.Forall₂ (Expression.HasShape t) args shapes := by
  induction args generalizing c with
  | nil => exact ⟨[], [], .nil, .nil, rfl, hc⟩
  | cons arg args ih =>
    rw [Expression.commandsOf, ends_replay_append]
    apply (h arg (by simp) c hc).mono
    · rintro _ c₁ ⟨s, hs, op, hop, hstack, hc₁⟩
      apply (ih (fun a ha => h a (by simp [ha])) hc₁).mono
      · rintro _ c₂ ⟨shapes, ops, hshapes, hops, hstack₂, hc₂⟩
        refine ⟨s :: shapes, op :: ops, .cons hs hshapes, .cons hop hops, ?_, hc₂⟩
        rw [hstack₂, hstack]
        simp
      · rintro _ _ hfail _ (_ | ⟨-, hrest⟩)
        exact hfail _ hrest
    · rintro _ _ hfail _ (_ | ⟨harg, -⟩)
      exact hfail _ harg

/-- An expression of one notification is well typed if what it stands for is found. -/
theorem walks_single {α : Type} {e : Expression} {cmd : Command} {found : Option α}
    {shape : α → Shape} (hcommands : e.commands = [cmd])
    (hshape : ∀ s, e.HasShape t s ↔ ∃ a, found = some a ∧ shape a = s)
    (h : ∀ c : Compilation, c.Poised t inside finished → Ends (construct cmd) c
      (fun _ c' => ∃ a, found = some a ∧ Leaves t inside finished c.stack (shape a) c')
      fun _ _ => found = none) : Walks t inside finished e := by
  intro c hc
  rw [hcommands, ends_replay_single]
  apply (h c hc).mono
  · rintro _ c' ⟨a, ha, hleaves⟩
    exact ⟨_, (hshape _).mpr ⟨a, ha, rfl⟩, hleaves⟩
  · intro _ _ hnone s hs
    obtain ⟨a, ha, -⟩ := (hshape s).mp hs
    cases hnone.symm.trans ha

theorem Walks.element {index : Expression} (ht : t.Typed) (h : Walks t inside finished index)
    (line : Int) (array : String) : Walks t inside finished (.element line array index) := by
  intro c hc
  rw [Expression.commands, ends_replay_append]
  apply (h c hc).mono
  · rintro _ c₁ ⟨s, hindex, op, hop, hstack, hc₁⟩
    rw [ends_replay_single]
    apply (hc₁.element ht hstack hop array).mono
    · rintro _ c₂ ⟨g, harray, hg, hleaves⟩
      exact ⟨_, .element harray hg.kind hindex hg.type hg.value hg.bounds, hleaves⟩
    · intro _ _ hfail _ h
      cases h with
      | element harray hkind hindex' htype hvalue hbounds =>
        cases hindex.unique hindex'
        exact hfail _ harray ⟨hkind, htype, hvalue, hbounds⟩
  · intro _ _ hfail _ h
    cases h with
    | element _ _ hindex => exact hfail _ hindex

theorem Walks.arith {left right : Expression} (hl : Walks t inside finished left)
    (hr : Walks t inside finished right) (line : Int) (op : ArithOp) :
    Walks t inside finished (.arith line op left right) := by
  intro c hc
  rw [Expression.commands, ends_replay_append, ends_replay_append]
  apply (hl c hc).mono
  · rintro _ c₁ ⟨l, hleft, lop, hlop, hstack, hc₁⟩
    apply (hr c₁ hc₁).mono
    · rintro _ c₂ ⟨r, hright, rop, hrop, hstack₂, hc₂⟩
      rw [hstack] at hstack₂
      rw [ends_replay_single]
      apply (hc₂.arith hstack₂ hlop hrop op).mono
      · rintro _ c₃ ⟨⟨hl, hr⟩, hleaves⟩
        exact ⟨_, .arith hleft hright hl hr, hleaves⟩
      · intro _ _ hfail _ h
        cases h with
        | arith hleft' hright' hl hr =>
          cases hleft.unique hleft'
          cases hright.unique hright'
          exact hfail ⟨hl, hr⟩
    · intro _ _ hfail _ h
      cases h with
      | arith _ hright => exact hfail _ hright
  · intro _ _ hfail _ h
    cases h with
    | arith hleft => exact hfail _ hleft

/-- A call is well typed if its arguments are and suit the callee. -/
theorem walks_call {e : Expression} {args : List Expression} {cmd : Command}
    {callee? : Option Signature} (hcommands : e.commands = Expression.commandsOf args ++ [cmd])
    (hshape : ∀ s, e.HasShape t s ↔ ∃ sig shapes, callee? = some sig ∧
      List.Forall₂ (Expression.HasShape t) args shapes ∧
      List.Forall₂ Shape.Suits shapes sig.params ∧ { type := sig.result } = s)
    (hargs : ∀ arg ∈ args, Walks t inside finished arg)
    (h : ∀ (c : Compilation) rest ops shapes, c.Poised t inside finished →
      ops.length = args.length → List.Forall₂ Operand.Fits ops shapes →
      c.stack = ops.reverse ++ rest →
      Calls t inside finished rest callee? shapes (construct cmd) c) :
    Walks t inside finished e := by
  intro c hc
  rw [hcommands, ends_replay_append]
  apply (ends_replay_args hargs hc).mono
  · rintro _ c₁ ⟨shapes, ops, hshapes, hops, hstack, hc₁⟩
    have hlength : ops.length = args.length := hops.length_eq.trans hshapes.length_eq.symm
    rw [ends_replay_single]
    apply (h c₁ c.stack ops shapes hc₁ hlength hops hstack).mono
    · rintro _ c₂ ⟨sig, hcallee, hsuits, hleaves⟩
      exact ⟨_, (hshape _).mpr ⟨sig, shapes, hcallee, hshapes, hsuits, rfl⟩, hleaves⟩
    · intro _ _ hfail s hs
      obtain ⟨sig, shapes', hcallee, hshapes', hsuits, -⟩ := (hshape s).mp hs
      cases unique_shapes hshapes hshapes'
      exact hfail sig hcallee hsuits
  · intro _ _ hfail s hs
    obtain ⟨_, shapes, -, hshapes, -⟩ := (hshape s).mp hs
    exact hfail shapes hshapes

/-- Every expression is compiled exactly if it is well typed. -/
theorem walks (ht : t.Typed) (hs : t.Sound S) (e : Expression) : Walks t inside finished e := by
  induction e using Expression.induction with
  | int line text =>
    exact walks_single rfl (fun _ => Expression.hasShape_int) fun c hc => hc.int text
  | real line text =>
    exact walks_single rfl (fun _ => Expression.hasShape_real) fun c hc => hc.real text
  | name line name =>
    exact walks_single rfl (fun _ => Expression.hasShape_name) fun c hc => hc.name ht name
  | member line inst field =>
    exact walks_single rfl (fun _ => Expression.hasShape_member) fun c hc =>
      hc.member ht inst field
  | element line array index ih => exact ih.element ht line array
  | arith line op left right ihl ihr => exact ihl.arith ihr line op
  | call line name args ih =>
    refine walks_call rfl (fun _ => Expression.hasShape_call) ih ?_
    intro c rest ops shapes hc hlength hops hstack
    rw [← hlength]
    exact hc.call ht hops hs hstack name
  | callMethod line inst method args ih =>
    refine walks_call rfl (fun _ => Expression.hasShape_callMethod) ih ?_
    intro c rest ops shapes hc hlength hops hstack
    rw [← hlength]
    exact hc.callMethod ht hops hs hstack inst method

end Runs

/-- In every state that a compilation comes to, the notifications of an expression are accepted
exactly if the expression is well typed. Then one operand of its type has been pushed, and nothing
but the emitter has changed besides. In the body of a class that is run for an instance it is the
same. -/
theorem expression_compiles_iff_hasShape (file : String) (symbols : RuntimeSymbols)
    (hc : ComesTo (fun _ => True) file symbols c) (hrecording : c.recording = none)
    (hprogram : c.program = none) (e : Expression) (position : Nat) :
    ((∃ c', handleAll position e.commands c = .ok () c') ↔ ∃ s, e.HasShape c.table s) ∧
      (∀ c', handleAll position e.commands c = .ok () c' → ∃ s op, e.HasShape c.table s ∧
        op.type = s.type ∧ (op.kind = .array ↔ s.isArray = true) ∧ c'.stack = op :: c.stack ∧
        c'.table = c.table ∧ c.SameContext c') ∧
      ∀ c', handleAll position e.commands c = .ok () c' ↔ replay e.commands c = .ok () c' := by
  obtain ⟨owner, hintact⟩ := hc.intact (lasts_true _) trivial
  have hwalk := walks hintact.sound.typed hintact.sound.table e c ⟨rfl, hintact.sound.emitter⟩
  have hsame (c' : Compilation) :
      handleAll position e.commands c = .ok () c' ↔ replay e.commands c = .ok () c' := by
    rw [handleAll_eq_ok]
    exact handled?_iff_replay Expression.kind_mem_kinds hprogram hrecording
  refine ⟨⟨?_, ?_⟩, ?_, hsame⟩
  · rintro ⟨c', hrun⟩
    obtain ⟨s, hs, -⟩ := hwalk.of_ok ((hsame c').mp hrun)
    exact ⟨s, hs⟩
  · rintro ⟨s, hs⟩
    cases hrun : replay e.commands c with
    | ok _ c' => exact ⟨c', (hsame c').mpr hrun⟩
    | error stop c' => exact absurd hs (hwalk.of_error hrun s)
  · intro c' hall
    have hrun := (hsame c').mp hall
    obtain ⟨s, hs, op, hop, hstack, hc'⟩ := hwalk.of_ok hrun
    have hcontext := (contained_replay Expression.kind_mem_kinds c).of_ok hrun
    exact ⟨s, op, hs, hop.type, hop.kind, hstack, hc'.table, hcontext⟩

def openBodyStream : List Command :=
  [{ kind := .beginClass, name := "P" }, { kind := .declareVariable, name := "n" },
    { kind := .declareFunction, name := "half", type := .real, params := [⟨"x", .real⟩] },
    { kind := .name, name := "x" }, { kind := .int, text := "2" }, { kind := .arith, text := "/" },
    { kind := .ret }, { kind := .endFunction }, { kind := .endClass },
    { kind := .declareInstance, name := "p", target := "P" },
    { kind := .declareArray, name := "a", type := .int, length := 3 },
    { kind := .declareFunction, name := "f", type := .int, params := [⟨"v", .int⟩] }]

/-- The expression `p.half(a[2] / f(v)) + p.n`. -/
def nestedExpression : Expression :=
  .arith 4 .add
    (.callMethod 3 "p" "half"
      [.arith 2 .div (.element 1 "a" (.int 1 "2")) (.call 2 "f" [.name 2 "v"])])
    (.member 4 "p" "n")

theorem expression_compiles_iff_hasShape_sample :
    (∃ s, nestedExpression.HasShape (behind openBodyStream (start "sample.mk" .standard)).table s ∧
      s.type = .real) ∧
    ¬∃ s, (Expression.element 1 "a" (.int 1 "3")).HasShape
      (behind openBodyStream (start "sample.mk" .standard)).table s := by
  have hc : ComesTo (fun _ => True) "sample.mk" .standard
      (behind openBodyStream (start "sample.mk" .standard)) :=
    .behind fun _ _ => trivial
  have hrecording : (behind openBodyStream (start "sample.mk" .standard)).recording = none := by
    decide +kernel
  have hprogram : (behind openBodyStream (start "sample.mk" .standard)).program = none := by
    decide +kernel
  constructor
  · have hrun : (handled? nestedExpression.commands
        (behind openBodyStream (start "sample.mk" .standard))).map
          (fun c => c.stack.map Operand.type) = some [.real] := by
      decide +kernel
    obtain ⟨c', hc', hstack⟩ := Option.map_eq_some_iff.mp hrun
    obtain ⟨s, op, hs, htype, -, hop, -⟩ := (expression_compiles_iff_hasShape _ _ hc hrecording
      hprogram nestedExpression 1).2.1 c' (handleAll_eq_ok.mpr hc')
    rw [hop, List.map_cons] at hstack
    exact ⟨s, hs, htype.symm.trans (List.cons.inj hstack).1⟩
  · have hrun : handled? (Expression.element 1 "a" (.int 1 "3")).commands
        (behind openBodyStream (start "sample.mk" .standard)) = none := by
      decide +kernel
    intro hs
    obtain ⟨c', hc'⟩ := (expression_compiles_iff_hasShape _ _ hc hrecording hprogram
      (Expression.element 1 "a" (.int 1 "3")) 1).1.mpr hs
    rw [handleAll_eq_ok, hrun] at hc'
    cases hc'

end Compilation

end MkCompiler
