import MkCompiler.Proofs.LinkedConstructs

/-!
# Definitions of a linked program

Functions and methods are opened and closed, classes are recorded, and instances are declared. The
program stays linked: a body starts with its arguments as the only local names, the entry point is
found again as it was left, and an instance promises the methods of its class.
-/

namespace MkCompiler

open MkCompiler.Action

/-! ## Arguments -/

/-- The stores of incoming arguments are typed where the arguments are. -/
theorem Env.types_paramCode {Γ : Env} {position : Nat} {params : List Param}
    (h : ∀ (i : Nat) (param : Param), params[i]? = some param →
      Γ.locals (.number (position + i : Nat)) (.value param.type.irType)) :
    Γ.Types ((Emitter.paramCode position params).map .instr) := by
  induction params generalizing Γ position with
  | nil => trivial
  | cons param rest ih =>
    have hfirst := h 0 param rfl
    refine ⟨⟨by simp [Line.symbolUses, Instr.symbolUses], by simp [Line.localUses, Instr.localUses]⟩,
      ⟨by simp [Line.symbolUses, Instr.symbolUses, Pointer.symbolUses], ?_⟩, ih ?_⟩
    · intro u hu
      simp only [Line.localUses, Instr.localUses, Value.uses, Pointer.localUses,
        List.cons_append, List.nil_append, List.mem_cons, List.not_mem_nil, or_false] at hu
      rcases hu with rfl | rfl
      · exact .inl hfirst
      · exact .inr (by simp [Line.defines, Instr.defines])
    · intro i param' hi
      have hnext := h (i + 1) param' hi
      rw [show position + (i + 1) = position + 1 + i by omega] at hnext
      exact .inl (.inl hnext)

namespace SymbolTable

variable {t : SymbolTable} {local? : String → Option Local} {slots : List Instr}
  {results : List String}

theorem frames_start (t : SymbolTable) : t.Frames (fun _ => none) [] [] where
  nodup := by simp
  locals := by intro name l h; cases h
  called := by intro r h; cases h
  bound := by intro u h; cases h

theorem Frames.pad (h : t.Frames local? slots results) {i : Instr} (hi : i.defines = []) :
    t.Frames local? (slots ++ [i]) results := by
  have hdefines : (slots ++ [i]).flatMap Instr.defines = slots.flatMap Instr.defines := by
    simp [hi]
  refine ⟨hdefines ▸ h.nodup, ?_, hdefines ▸ h.called, hdefines ▸ h.bound⟩
  intro name l hl
  obtain ⟨hname, hidentifier, hslot, hnonneg, hlt⟩ := h.locals name l hl
  refine ⟨hname, hidentifier, hdefines ▸ hslot, hnonneg, ?_⟩
  rw [List.length_append, List.length_singleton]
  omega

theorem Frames.slotted (h : t.Frames local? slots results) (opening : Line) (code : List Line) :
    Draft.Slotted ⟨opening, slots, code⟩ := by
  refine ⟨h.nodup, ?_⟩
  intro u hu
  rcases h.bound u hu with ⟨r, -, heq⟩ | ⟨name, l, v, hl, heq, hnonneg, hle⟩
  · rw [heq]
    have hne : slots ≠ [] := by
      rintro rfl
      cases hu
    have hpos := List.length_pos_iff.mpr hne
    exact ⟨le_refl _, by exact_mod_cast hpos⟩
  · rw [heq]
    obtain ⟨-, -, -, -, hlt⟩ := h.locals name l hl
    exact ⟨hnonneg, lt_of_le_of_lt hle hlt⟩

end SymbolTable

namespace Compilation

variable {α : Type} {S : Command → Prop} {p : Prop} {owed owed' : List String}
  {c c' : Compilation} {l : Layout}

/-- The variables of parameters are declared, each for the slot its argument is stored in. -/
theorem ensures_declareLocals {params : List Param} (hnames : ∀ q ∈ params, IsIdentifier q.name)
    (position : Nat) {slots : List Instr} (h : c.table.Frames c.table.local? slots []) :
    Ensures (declareLocals (params.map Emitter.paramLocal)) c fun _ c' => ∃ t,
      c' = { c with table := t } ∧ c.table.Aligned t ∧ t.storage? = c.table.storage? ∧
        t.Frames t.local? (slots ++ Emitter.paramCode position params) [] := by
  induction params generalizing c position slots with
  | nil =>
    refine ensures_pure.mpr ⟨c.table, rfl, .refl _, rfl, ?_⟩
    simpa [Emitter.paramCode] using h
  | cons param rest ih =>
    rw [List.map_cons, declareLocals, ensures_bind, onTable, ensures_zoom]
    refine (SymbolTable.ensures_declareLocal _ _).mono ?_
    rintro _ _ ⟨rfl, hlocals, hnew⟩
    have haligned := SymbolTable.aligned_install c.table (.slot (Emitter.paramLocal param))
    have hmono : (c.table.install (.slot (Emitter.paramLocal param))).Frames c.table.local? slots [] :=
      h.mono
      (by rw [haligned.method?]; exact fun _ _ _ hsig => hsig)
    have hinserted : (c.table.install (.slot (Emitter.paramLocal param))).Frames
        (c.table.install (.slot (Emitter.paramLocal param))).local?
        (slots ++ [.alloca (Emitter.paramLocal param).slot param.type.irType]) [] := by
      apply hmono.insert (l := Emitter.paramLocal param) (hnames param (by simp))
      · intro l₀ hl₀
        rw [hnew] at hl₀
        cases hl₀
      · change 0 ≤ (0 : Int) ∧ (0 : Int) ≤ slots.length
        omega
      · exact SymbolTable.local?_install_slot hlocals
    have hstored := hinserted.pad (i := .store param.type.irType (.number position)
      (.frame (.slot param.name 0))) rfl
    refine (ih (fun q hq => hnames q (by simp [hq])) (position + 1) hstored).mono ?_
    rintro _ _ ⟨t, rfl, haligned', hstorage, hframes⟩
    refine ⟨t, rfl, haligned.trans haligned', hstorage, ?_⟩
    simpa [Emitter.paramCode, Emitter.paramLocal, Local.slot] using hframes

/-! ## Bodies -/

/-- What a change of the table alone has to keep. -/
theorem Linked.retable (h : c.Linked p owed l) {t : SymbolTable} (hlexicon : t.Lexicon)
    (hstorage : t.storage? = c.table.storage?) (hlocal : t.local? = c.table.local?)
    (hdefines : t.Defines owed' (l.functions.map Draft.opening))
    (hfunctions : ∀ name sig, c.table.functions.find? name = some sig →
      t.functions.find? name = some sig)
    (hmethod : ∀ owner name sig, c.table.method? owner name = some sig →
      t.method? owner name = some sig) :
    ({ c with table := t } : Compilation).Linked p owed' l := by
  have hglobals (name : GlobalName) (type : SymbolType)
      (hu : l.globals c.emitter.symbols c.table name type) :
      l.globals c.emitter.symbols t name type :=
    hu.imp id fun hp => hp.mono hfunctions hmethod
  have hle : (c.env p l).Le (l.env p c.emitter.symbols t) := ⟨hglobals, fun _ _ hu => hu⟩
  refine ⟨h.lays, hlexicon, h.stores.congr hstorage, hdefines, ?_, ?_, h.closed, ?_, ?_, h.returns⟩
  · rw [hlocal]
    exact h.frames.mono hmethod
  · intro d hd
    exact (h.entry d hd).mono hmethod
  · intro d hd
    exact (h.typed d hd).mono hglobals
  · intro op hop
    exact (h.stack op hop).mono hle

theorem Linked.congr (h : c.Linked p owed l) (hemitter : c'.emitter = c.emitter)
    (htable : c'.table = c.table) (hstack : c'.stack = c.stack) : c'.Linked p owed l := by
  cases c
  cases c'
  subst hemitter htable hstack
  exact ⟨h.lays, h.lexicon, h.stores, h.defines, h.frames, h.entry, h.closed, h.typed, h.stack,
    h.returns⟩

section Enter

variable {name : GlobalName} {sig : Signature} {params : List Param} {context : FunctionContext}
  {o : Assembly Line} {t : SymbolTable} (h : c.Linked p owed l) (hnone : c.emitter.function = none)
  (hlocals : c.table.local? = fun _ => none)
  (hlays : ({ c.emitter with function := some ⟨sig, context⟩, output := o } : Emitter).Lays
    (l.enter (.define sig.result.irType name (params.map fun q => q.type.irType))
      (Emitter.paramCode 0 params)))
  (hresults : context.results = []) (hresult : sig.result.isLowered = true)
  (hlexicon : t.Lexicon) (hstorage : t.storage? = c.table.storage?)
  (hdefines : t.Defines owed' (l.closed.map Draft.opening ++
    [.define sig.result.irType name (params.map fun q => q.type.irType)]))
  (hfunctions : ∀ n sig, c.table.functions.find? n = some sig → t.functions.find? n = some sig)
  (hmethod : ∀ owner n sig, c.table.method? owner n = some sig → t.method? owner n = some sig)
  (hstack : p → c.stack = [])
include h hnone hlocals hlays hresults hresult hlexicon hstorage hdefines hfunctions hmethod hstack

theorem Linked.enter (hframes : t.Frames t.local? (Emitter.paramCode 0 params) []) :
    ({ c with
      emitter := { c.emitter with function := some ⟨sig, context⟩, output := o }
      table := t } : Compilation).Linked p owed'
        (l.enter (.define sig.result.irType name (params.map fun q => q.type.irType))
          (Emitter.paramCode 0 params)) := by
  have hsuspended : l.suspended = none := h.lays.suspended_eq_none hnone
  have hglobals (n : GlobalName) (type : SymbolType)
      (hu : l.globals c.emitter.symbols c.table n type) :
      l.globals c.emitter.symbols t n type :=
    hu.imp id fun hp => hp.mono hfunctions hmethod
  refine ⟨hlays, hlexicon, h.stores.congr hstorage, ?_, ?_, ?_, h.closed, ?_, ?_, ?_⟩
  · simpa [Layout.functions, Layout.enter] using hdefines
  · change t.Frames t.local? (Emitter.paramCode 0 params) context.results
    rw [hresults]
    exact hframes
  · rintro d ⟨⟩
    have hactive : c.emitter.active = c.emitter.entry := by
      rw [Emitter.active, hnone]
    have hentry := h.frames.mono hmethod
    rw [hlocals, hactive] at hentry
    exact hentry
  · intro d hd
    simp only [Layout.drafts, Layout.enter, Option.toList_some, List.cons_append, List.nil_append,
      List.mem_cons] at hd
    rcases hd with rfl | hd
    · refine ⟨?_, .nil⟩
      rw [Draft.body, List.append_nil]
      apply Env.types_paramCode
      intro i param hi _
      simp only [Line.arguments, List.mem_mapIdx, List.length_map, List.getElem_map]
      obtain ⟨hlt, rfl⟩ := List.getElem?_eq_some_iff.mp hi
      exact ⟨i, hlt, by simp⟩
    · refine (h.typed d ?_).mono hglobals
      simp only [Layout.drafts, hsuspended, Option.toList_none, List.cons_append, List.nil_append,
        List.mem_cons]
      exact hd
  · intro op hop
    by_cases hp : p
    · rw [hstack hp] at hop
      cases hop
    · refine (h.stack op hop).mono ⟨hglobals, ?_⟩
      intro _ _ _
      exact .inl fun hp' => absurd hp' hp
  · rintro f ⟨⟩
    exact hresult

theorem Linked.enterBody (hnames : ∀ q ∈ params, IsIdentifier q.name) (result : Signature) :
    StaysLinked p owed' (do
      modify fun c : Compilation => { c with table := c.table.enterFunction }
      declareLocals (params.map Emitter.paramLocal)
      modify fun c : Compilation => { c with function := some result, returned := false })
      { c with
        emitter := { c.emitter with function := some ⟨sig, context⟩, output := o }
        table := t } := by
  rw [StaysLinked, ensures_bind, ensures_modify, ensures_bind]
  refine (ensures_declareLocals hnames 0 t.enterFunction.frames_start).mono ?_
  rintro _ _ ⟨t', rfl, haligned, hstorage', hframes⟩
  have haligned : t.Aligned t' :=
    ⟨haligned.functions, haligned.classes, haligned.classOf?, haligned.current⟩
  have hlinked := h.enter (t := t') hnone hlocals hlays hresults hresult
    (hlexicon.congr haligned hstorage') (hstorage'.trans hstorage)
    (hdefines.congr haligned.current fun _ _ => SymbolTable.Promises.aligned haligned)
    (by rw [haligned.functions]; exact hfunctions) (by rw [haligned.method?]; exact hmethod)
    hstack hframes
  rw [ensures_modify]
  exact ⟨_, hlinked.congr rfl rfl rfl⟩

end Enter

theorem functions_eq_closed (h : c.Linked p owed l) (hnone : c.emitter.function = none) :
    l.functions = l.closed := by
  unfold Layout.functions
  rw [h.lays.suspended_eq_none hnone]

/-- The line that opens a body declares it with its signature. -/
theorem declares_define (symbol : GlobalName) (name : String) (result : DataType)
    (params : List Param) :
    (Line.define (Signature.ofParams name result params).result.irType symbol
      (params.map fun q => q.type.irType)).declares =
        [(symbol, (Signature.ofParams name result params).symbolType)] := by
  simp [Line.declares, Signature.symbolType, Signature.ofParams]

/-- A body of a function is opened, or that of the next method of the current instance. -/
theorem links_declareFunction (h : c.Linked p owed l) (ht : c.table.Sound S)
    (hlocals : c.emitter.inFunction = c.table.locals.isSome) {name : String} {result : DataType}
    {params : List Param} (hnames : ∀ q ∈ params, IsIdentifier q.name)
    (hfunction : c.table.instance? = none → owed' = owed)
    (hmethod : ∀ inst, c.table.instance? = some inst → owed = name :: owed' ∧ name ∉ owed' ∧
      c.table.method? inst.name name = some (Signature.ofParams name result params))
    (hstack : p → c.stack = []) :
    StaysLinked p owed' (declareFunction name result params) c := by
  rw [declareFunction, StaysLinked, ensures_bind]
  refine (ensures_requireOutside _ c).mono ?_
  rintro _ c ⟨rfl, houtside⟩
  have hnone : c.emitter.function = none := by
    simpa [Emitter.inFunction] using houtside
  have hlocal : c.table.local? = fun _ => none := by
    have hnone : c.table.locals = none := by
      simpa [houtside] using hlocals.symm
    funext n
    simp [SymbolTable.local?, hnone]
  have hdefines := h.defines
  rw [functions_eq_closed h hnone] at hdefines
  rw [ensures_bind, openBody, ensures_bind, ensures_get]
  split
  · next inst hinst =>
    obtain ⟨rfl, hfresh, hsig⟩ := hmethod inst hinst
    obtain ⟨owner, hcurrent, howner⟩ := Option.bind_eq_some_iff.mp hinst
    obtain rfl : inst.name = owner := (ht.instances owner inst howner).1
    rw [ensures_bind, onTable, ensures_zoom]
    refine SymbolTable.ensures_classAt_nat.mpr ?_
    intro k hk
    split
    · exact ensures_throw.mpr trivial
    · next sig hfind =>
      obtain rfl : Signature.ofParams name result params = sig := by
        rw [SymbolTable.method?, SymbolTable.classOf?, howner] at hsig
        simp only [Option.map_some, Option.bind_some, hk] at hsig
        exact Option.some.inj (hsig.symm.trans hfind)
      rw [ensures_bind, onEmitter, ensures_zoom]
      refine (Emitter.ensures_openFunction _ _ _ _).mono ?_
      rintro locals _ ⟨-, context, o, rfl, -, -, hlays, hresults, hresult, rfl⟩
      rw [ensures_pure]
      apply h.enterBody hnone hlocal (hlays l h.lays) hresults hresult h.lexicon rfl ?_
        (fun _ _ hsig => hsig) (fun _ _ _ hsig => hsig) hstack hnames
      exact hdefines.method hfresh hcurrent hsig (declares_define _ _ _ _) (.refl _)
  · next hinst =>
    obtain rfl := hfunction hinst
    rw [ensures_bind]
    intro _ c hrun
    obtain ⟨rfl, -⟩ := (ends_checkSignature _ _ _ _).of_ok hrun
    rw [ensures_bind, onTable, ensures_zoom]
    refine (SymbolTable.ensures_declareFunction _ _).mono ?_
    rintro _ _ ⟨rfl, hnew⟩
    rw [ensures_bind, onEmitter, ensures_zoom]
    refine (Emitter.ensures_openFunction _ _ _ _).mono ?_
    rintro locals _ ⟨-, context, o, rfl, -, -, hlays, hresults, hresult, rfl⟩
    rw [ensures_pure]
    apply h.enterBody hnone hlocal (hlays l h.lays) hresults hresult
      (h.lexicon.insertFunction hresult) rfl ?_ (fun _ _ hsig => Scope.find?_insert_of_new hnew hsig _)
      (fun _ _ _ hsig => hsig) hstack hnames
    apply hdefines.function hnew (declares_define _ _ _ _)
    · intro n
      exact Scope.find?_insert _ _ _ _
    · rfl
    · rfl

theorem Linked.leave (h : c.Linked p owed l) {d : Draft} (hd : l.suspended = some d)
    {o : Assembly Line} {detached : Bool}
    (hlays : ({ c.emitter with function := none, output := o } : Emitter).Lays
      ((l.grow [] [] (Emitter.closingCode detached)).leave d)) (hstack : p → c.stack = []) :
    ({ c with
      emitter := { c.emitter with function := none, output := o }
      table := c.table.leaveFunction } : Compilation).Linked p owed
        ((l.grow [] [] (Emitter.closingCode detached)).leave d) := by
  have hglobals (name : GlobalName) (type : SymbolType)
      (hu : l.globals c.emitter.symbols c.table name type) :
      ((l.grow [] [] (Emitter.closingCode detached)).leave d).globals c.emitter.symbols
        c.table.leaveFunction name type := by
    refine hu.imp ?_ fun hp => hp.mono (fun _ _ hsig => hsig) fun _ _ _ hsig => hsig
    intro hmem
    simpa [Layout.leave, Layout.grow] using hmem
  have hclosing (Γ : Env) : Γ.Accepts (Emitter.closingCode detached) := by
    unfold Emitter.closingCode
    split
    · exact Env.accepts_nil
    · exact Env.accepts_singleton ⟨by simp [Line.symbolUses, Instr.symbolUses],
        by simp [Line.localUses, Instr.localUses]⟩ rfl
  refine ⟨hlays, ?_, ?_, ?_, ?_, ?_, ?_, ?_, ?_, ?_⟩
  · exact h.lexicon.congr ⟨rfl, rfl, rfl, rfl⟩ rfl
  · have hstores : c.table.leaveFunction.Stores l.header := h.stores.congr rfl
    simpa [Layout.leave, Layout.grow] using hstores
  · rw [Layout.functions_leave hd]
    exact h.defines.congr rfl fun _ _ =>
      SymbolTable.Promises.aligned (t := c.table) ⟨rfl, rfl, rfl, rfl⟩
  · exact (h.entry d hd).mono fun _ _ _ hsig => hsig
  · intro d' hd'
    cases hd'
  · intro d' hd'
    rcases List.mem_append.mp hd' with hold | hnew
    · exact h.closed d' hold
    · rw [List.mem_singleton.mp hnew]
      simpa [Layout.grow] using h.frames.slotted _ _
  · intro d' hd'
    simp only [Layout.drafts, Layout.leave, Option.toList_none, List.cons_append, List.nil_append,
      List.mem_cons, List.mem_append, List.not_mem_nil, or_false] at hd'
    rcases hd' with rfl | hold | rfl
    · exact (h.typed d' (by simp [Layout.drafts, hd])).mono hglobals
    · have hmem : d' ∈ l.closed := hold
      exact (h.typed d' (by simp [Layout.drafts, hmem])).mono hglobals
    · exact (h.typed l.active (by simp [Layout.drafts])).grow (s := {}) (hclosing _) hglobals
        (by simp)
  · intro op hop
    by_cases hp : p
    · rw [hstack hp] at hop
      cases hop
    · refine (h.stack op hop).mono ⟨hglobals, ?_⟩
      intro _ _ _
      exact .inl fun hp' => absurd hp' hp
  · intro f hf
    cases hf

theorem links_endFunction (h : c.Linked p owed l) (hstack : p → c.stack = []) :
    StaysLinked p owed endFunction c := by
  rw [endFunction, StaysLinked, ensures_bind, ensures_get]
  split
  · exact ensures_reject.mpr trivial
  · rw [ensures_bind, ensures_require]
    intro _
    rw [ensures_bind, onEmitter, ensures_zoom]
    refine (Emitter.ensures_endFunction _).mono ?_
    rintro _ _ ⟨f, o, hf, -, -, rfl, hlays⟩
    obtain ⟨d, hd, hlays⟩ := hlays l h.lays
    rw [ensures_modify]
    exact ⟨_, h.leave hd hlays hstack |>.congr rfl rfl rfl⟩

end Compilation

end MkCompiler
