import MkCompiler.Proofs.Bindings

/-!
# Bindings and declarations

How the symbol table and the program fit together: the storage that names are bound to is declared
in the header, once for every version; the slots of a body are those of local variables and of the
results of methods; and the functions and methods that can be called are those that are defined, or
will be before the current instance is complete.
-/

namespace MkCompiler

section Concat

variable {α β : Type}

theorem flatMap_concat {f : α → List β} {x : α} {y : β} (l : List α) (h : f x = [y]) :
    (l ++ [x]).flatMap f = l.flatMap f ++ [y] := by
  simp [h]

theorem nodup_concat {l : List (α × β)} {u : α × β} (h : (l.map Prod.fst).Nodup)
    (hnew : ∀ v ∈ l, v.1 ≠ u.1) : ((l ++ [u]).map Prod.fst).Nodup := by
  rw [List.map_append, List.nodup_append]
  refine ⟨h, by simp, ?_⟩
  rintro _ ha _ hb rfl
  obtain ⟨v, hv, hname⟩ := List.mem_map.mp ha
  exact hnew v hv (hname.trans (List.mem_singleton.mp hb))

end Concat

def Global.symbolType (g : Global) : SymbolType :=
  if g.kind = .variable then .cell g.type.irType else .array g.type.irType g.length

namespace SymbolTable

variable {t t' : SymbolTable}

/-! ## Storage -/

/-- The header declares the storage of all names, and nothing else. Variables have one cell for
every version up to the present one. -/
structure Stores (t : SymbolTable) (header : List Line) : Prop where
  nodup : ((header.flatMap Line.declares).map Prod.fst).Nodup
  declared : ∀ owner name g, t.storage? owner name = some g →
    (g.symbol, g.symbolType) ∈ header.flatMap Line.declares ∧
      0 ≤ g.version ∧ g.version < header.length
  bound : ∀ u ∈ header.flatMap Line.declares, ∃ owner name g, t.storage? owner name = some g ∧
    (g.kind = .array ∧ u.1 = .array owner name ∨
      g.kind = .variable ∧ ∃ v, u.1 = .cell owner name v ∧ 0 ≤ v ∧ v ≤ g.version)
  arrays : ∀ name type length, (name, .array type length) ∈ header.flatMap Line.declares →
    ∃ owner n, name = .array owner n

section Stores

variable {header : List Line} {g g' : Global}

theorem Stores.congr (h : t.Stores header) (hstorage : t'.storage? = t.storage?) :
    t'.Stores header := by
  refine ⟨h.nodup, ?_, ?_, h.arrays⟩
  · rw [hstorage]
    exact h.declared
  · rw [hstorage]
    exact h.bound

theorem Stores.replace (h : t.Stores header) (hg : (Binding.global g).Bound t)
    (hinst : g'.inst = g.inst) (hname : g'.name = g.name) (hkind : g'.kind = g.kind)
    (hversion : g'.version = g.version) (htype : g'.symbolType = g.symbolType) :
    (t.install (.global g')).Stores header := by
  have hsymbol : g'.symbol = g.symbol := by
    simp [Cell.symbol, hinst, hname, hkind, hversion]
  have hview := storage?_install_global (t := t) (g := g') (hinst ▸ hg.in.2)
  refine ⟨h.nodup, ?_, ?_, h.arrays⟩
  · intro owner name g₁ hg₁
    rw [hview] at hg₁
    split at hg₁
    · cases hg₁
      rw [hsymbol, htype, hversion]
      exact h.declared _ _ g hg.1
    · exact h.declared owner name g₁ hg₁
  · intro u hu
    obtain ⟨owner, name, g₁, hg₁, hu⟩ := h.bound u hu
    by_cases heq : owner = g'.inst ∧ name = g'.name
    · obtain ⟨rfl, rfl⟩ := heq
      rw [hinst, hname] at hg₁
      obtain rfl : g = g₁ := Option.some.inj (hg.1.symm.trans hg₁)
      refine ⟨_, _, g', by rw [hview, if_pos ⟨rfl, rfl⟩], ?_⟩
      rw [hkind, hversion]
      exact hu
    · exact ⟨owner, name, g₁, by rw [hview, if_neg heq]; exact hg₁, hu⟩

/-- A symbol that no line of the header declares yet: that of a new name, or of a version beyond the
present one. -/
theorem Stores.symbol_notMem (h : t.Stores header)
    (hold : ∀ g₀, t.storage? g.inst g.name = some g₀ →
      g.kind = .variable ∧ g₀.version < g.version) :
    g.symbol ∉ (header.flatMap Line.declares).map Prod.fst := by
  intro hmem
  obtain ⟨u, hu, hsymbol⟩ := List.mem_map.mp hmem
  obtain ⟨owner, name, g₀, hg₀, ⟨-, hu⟩ | ⟨-, v, hu, -, hv⟩⟩ := h.bound u hu
  · rw [hu] at hsymbol
    unfold Cell.symbol at hsymbol
    split at hsymbol
    · cases hsymbol
    · next hvariable =>
      cases hsymbol
      exact hvariable (hold g₀ hg₀).1
  · rw [hu] at hsymbol
    unfold Cell.symbol at hsymbol
    split at hsymbol
    · cases hsymbol
      have hlt := (hold g₀ hg₀).2
      omega
    · cases hsymbol

theorem Stores.insert (h : t.Stores header) (hin : (Binding.global g).In t) {line : Line}
    (hline : line.declares = [(g.symbol, g.symbolType)])
    (hkind : g.kind = .variable ∨ g.kind = .array)
    (hold : ∀ g₀, t.storage? g.inst g.name = some g₀ →
      g₀.kind = .variable ∧ g.kind = .variable ∧ g₀.version < g.version)
    (hversion : 0 ≤ g.version ∧ g.version ≤ header.length) :
    (t.install (.global g)).Stores (header ++ [line]) := by
  have hview := storage?_install_global (t := t) hin.2
  have hdeclares := flatMap_concat header hline
  refine ⟨?_, ?_, ?_, ?_⟩
  · rw [hdeclares]
    apply nodup_concat h.nodup
    intro u hu hsymbol
    exact h.symbol_notMem (fun g₀ hg₀ => (hold g₀ hg₀).2) (List.mem_map.mpr ⟨u, hu, hsymbol⟩)
  · intro owner name g₁ hg₁
    rw [hview] at hg₁
    rw [hdeclares, List.length_append, List.length_singleton]
    split at hg₁
    · cases hg₁
      exact ⟨by simp, hversion.1, by omega⟩
    · obtain ⟨hmem, hnonneg, hlt⟩ := h.declared owner name g₁ hg₁
      exact ⟨List.mem_append_left _ hmem, hnonneg, by omega⟩
  · intro u hu
    rw [hdeclares, List.mem_append, List.mem_singleton] at hu
    rcases hu with hu | rfl
    · obtain ⟨owner, name, g₁, hg₁, hu⟩ := h.bound u hu
      by_cases heq : owner = g.inst ∧ name = g.name
      · obtain ⟨rfl, rfl⟩ := heq
        obtain ⟨hkind₁, hkind', hlt⟩ := hold g₁ hg₁
        refine ⟨_, _, g, by rw [hview, if_pos ⟨rfl, rfl⟩], .inr ⟨hkind', ?_⟩⟩
        rcases hu with ⟨harray, -⟩ | ⟨-, v, hu, hnonneg, hv⟩
        · rw [hkind₁] at harray
          cases harray
        · exact ⟨v, hu, hnonneg, by omega⟩
      · exact ⟨owner, name, g₁, by rw [hview, if_neg heq]; exact hg₁, hu⟩
    · refine ⟨_, _, g, by rw [hview, if_pos ⟨rfl, rfl⟩], ?_⟩
      rcases hkind with hkind | hkind
      · exact .inr ⟨hkind, g.version, by simp [Cell.symbol, hkind], hversion.1, le_refl _⟩
      · exact .inl ⟨hkind, by simp [Cell.symbol, hkind]⟩
  · intro name type length hu
    rw [hdeclares, List.mem_append, List.mem_singleton] at hu
    rcases hu with hu | hu
    · exact h.arrays name type length hu
    · rcases hkind with hkind | hkind <;> simp [Global.symbolType, Cell.symbol, hkind] at hu
      exact ⟨_, _, hu.1⟩

end Stores

/-! ## Slots -/

/-- The slots of a body are those of local variables, one for every version, and those of the results
of methods. -/
structure Frames (t : SymbolTable) (local? : String → Option Local) (slots : List Instr)
    (results : List String) : Prop where
  nodup : ((slots.flatMap Instr.defines).map Prod.fst).Nodup
  locals : ∀ name l, local? name = some l → l.name = name ∧ IsIdentifier name ∧
    (l.slot, .pointer l.type.irType) ∈ slots.flatMap Instr.defines ∧
      0 ≤ l.version ∧ l.version < slots.length
  called : ∀ r ∈ results, ∃ owner name sig, t.method? owner name = some sig ∧
    r = Emitter.resultName owner name ∧
      (.slot r 0, .pointer sig.result.irType) ∈ slots.flatMap Instr.defines
  bound : ∀ u ∈ slots.flatMap Instr.defines, (∃ r ∈ results, u.1 = .slot r 0) ∨
    ∃ name l v, local? name = some l ∧ u.1 = .slot name v ∧ 0 ≤ v ∧ v ≤ l.version

section Frames

variable {local? local?' : String → Option Local} {slots : List Instr} {results : List String}
  {l l' : Local}

theorem Frames.mono (h : t.Frames local? slots results)
    (hmethod : ∀ owner name sig, t.method? owner name = some sig →
      t'.method? owner name = some sig) : t'.Frames local? slots results := by
  refine ⟨h.nodup, h.locals, ?_, h.bound⟩
  intro r hr
  obtain ⟨owner, name, sig, hsig, hrest⟩ := h.called r hr
  exact ⟨owner, name, sig, hmethod owner name sig hsig, hrest⟩

theorem Frames.replace (h : t.Frames local? slots results) (hl : local? l'.name = some l)
    (hversion : l'.version = l.version) (htype : l'.type.irType = l.type.irType)
    (hview : ∀ name, local?' name = if name = l'.name then some l' else local? name) :
    t.Frames local?' slots results := by
  refine ⟨h.nodup, ?_, h.called, ?_⟩
  · intro name l₁ hl₁
    rw [hview] at hl₁
    split at hl₁
    · next heq =>
      cases hl₁
      obtain ⟨hname, hidentifier, hslot, hbounds⟩ := h.locals _ l hl
      refine ⟨heq.symm, heq ▸ hidentifier, ?_, hversion ▸ hbounds⟩
      rw [Local.slot, htype, hversion, ← hname]
      exact hslot
    · exact h.locals name l₁ hl₁
  · intro u hu
    rcases h.bound u hu with hresult | ⟨name, l₁, v, hl₁, hu⟩
    · exact .inl hresult
    · by_cases heq : name = l'.name
      · subst heq
        obtain rfl : l = l₁ := Option.some.inj (hl.symm.trans hl₁)
        exact .inr ⟨l'.name, l', v, by rw [hview, if_pos rfl], hversion ▸ hu⟩
      · exact .inr ⟨name, l₁, v, by rw [hview, if_neg heq]; exact hl₁, hu⟩

theorem dot_mem_resultName (owner name : String) :
    '.' ∈ (Emitter.resultName owner name).toList := by
  simp [Emitter.resultName]

theorem Frames.insert (h : t.Frames local? slots results) (hname : IsIdentifier l.name)
    (hold : ∀ l₀, local? l.name = some l₀ → l₀.version < l.version)
    (hversion : 0 ≤ l.version ∧ l.version ≤ slots.length)
    (hview : ∀ name, local?' name = if name = l.name then some l else local? name) :
    t.Frames local?' (slots ++ [.alloca l.slot l.type.irType]) results := by
  have hdefines := flatMap_concat slots
    (rfl : (Instr.alloca l.slot l.type.irType).defines = [(l.slot, .pointer l.type.irType)])
  refine ⟨?_, ?_, ?_, ?_⟩
  · rw [hdefines]
    apply nodup_concat h.nodup
    intro u hu hslot
    rcases h.bound u hu with ⟨r, hr, hu⟩ | ⟨name, l₀, v, hl₀, hu, -, hv⟩
    · obtain ⟨owner, name, sig, -, hresult, -⟩ := h.called r hr
      rw [hu, Local.slot] at hslot
      obtain ⟨hrname, -⟩ := LocalName.slot.inj hslot
      apply hname.undotted
      rw [← hrname, hresult]
      exact dot_mem_resultName _ _
    · rw [hu] at hslot
      cases hslot
      have hlt := hold l₀ hl₀
      omega
  · intro name l₁ hl₁
    rw [hview] at hl₁
    rw [hdefines, List.length_append, List.length_singleton]
    split at hl₁
    · next heq =>
      cases hl₁
      exact ⟨heq.symm, heq ▸ hname, by simp, hversion.1, by omega⟩
    · obtain ⟨hname₁, hidentifier, hmem, hnonneg, hlt⟩ := h.locals name l₁ hl₁
      exact ⟨hname₁, hidentifier, List.mem_append_left _ hmem, hnonneg, by omega⟩
  · intro r hr
    obtain ⟨owner, name, sig, hsig, hr, hmem⟩ := h.called r hr
    exact ⟨owner, name, sig, hsig, hr, hdefines ▸ List.mem_append_left _ hmem⟩
  · intro u hu
    rw [hdefines, List.mem_append, List.mem_singleton] at hu
    rcases hu with hu | rfl
    · rcases h.bound u hu with hresult | ⟨name, l₀, v, hl₀, hu, hnonneg, hv⟩
      · exact .inl hresult
      · by_cases heq : name = l.name
        · subst heq
          have hlt := hold l₀ hl₀
          exact .inr ⟨l.name, l, v, by rw [hview, if_pos rfl], hu, hnonneg, by omega⟩
        · exact .inr ⟨name, l₀, v, by rw [hview, if_neg heq]; exact hl₀, hu, hnonneg, hv⟩
    · exact .inr ⟨l.name, l, l.version, by rw [hview, if_pos rfl], rfl, hversion.1, le_refl _⟩

theorem Frames.result (h : t.Frames local? slots results) {owner name : String} {sig : Signature}
    (hsig : t.method? owner name = some sig)
    (hnew : Emitter.resultName owner name ∉ results) :
    t.Frames local?
      (slots ++ [.alloca (.slot (Emitter.resultName owner name) 0) sig.result.irType])
      (results ++ [Emitter.resultName owner name]) := by
  have hdefines := flatMap_concat slots
    (rfl : (Instr.alloca (.slot (Emitter.resultName owner name) 0) sig.result.irType).defines = [_])
  refine ⟨?_, ?_, ?_, ?_⟩
  · rw [hdefines]
    apply nodup_concat h.nodup
    intro u hu hslot
    rcases h.bound u hu with ⟨r, hr, hu⟩ | ⟨n, l₀, v, hl₀, hu, -, -⟩
    · rw [hu] at hslot
      cases hslot
      exact hnew hr
    · rw [hu] at hslot
      cases hslot
      exact (h.locals _ l₀ hl₀).2.1.undotted (dot_mem_resultName owner name)
  · intro n l₁ hl₁
    obtain ⟨hname, hidentifier, hmem, hnonneg, hlt⟩ := h.locals n l₁ hl₁
    refine ⟨hname, hidentifier, hdefines ▸ List.mem_append_left _ hmem, hnonneg, ?_⟩
    rw [List.length_append, List.length_singleton]
    omega
  · intro r hr
    rw [hdefines]
    rcases List.mem_append.mp hr with hr | hr
    · obtain ⟨owner', name', sig', hsig', hr, hmem⟩ := h.called r hr
      exact ⟨owner', name', sig', hsig', hr, List.mem_append_left _ hmem⟩
    · obtain rfl := List.mem_singleton.mp hr
      exact ⟨owner, name, sig, hsig, rfl, by simp⟩
  · intro u hu
    rw [hdefines, List.mem_append, List.mem_singleton] at hu
    rcases hu with hu | rfl
    · rcases h.bound u hu with ⟨r, hr, hu⟩ | hlocal
      · exact .inl ⟨r, List.mem_append_left _ hr, hu⟩
      · exact .inr hlocal
    · exact .inl ⟨_, by simp, rfl⟩

theorem Frames.called_method (h : t.Frames local? slots results) {owner : String} {sig : Signature}
    (hsig : t.method? owner sig.name = some sig) :
    t.Frames local? (slots ++ (Emitter.resultStorage owner sig results).allocas)
      (results ++ (Emitter.resultStorage owner sig results).results) := by
  unfold Emitter.resultStorage
  split
  · simpa [Storage.allocas] using h
  · next hnew => exact h.result hsig hnew

theorem resultName_inj {o o' n n' : String} (ho : IsIdentifier o) (ho' : IsIdentifier o')
    (h : Emitter.resultName o n = Emitter.resultName o' n') : o = o' ∧ n = n' := by
  have hlist := congrArg String.toList h
  simp only [Emitter.resultName, String.toList_append, List.append_assoc] at hlist
  obtain ⟨ho, hn⟩ := eq_of_append_dot ho.undotted ho'.undotted (List.append_cancel_left hlist)
  exact ⟨String.toList_inj.mp ho, String.toList_inj.mp hn⟩

/-- The slot of a method that has been called before has the type of its result. -/
theorem Frames.slot_of_result (h : t.Frames local? slots results) (hl : t.Lexicon)
    {owner name : String} {sig : Signature} (hsig : t.method? owner name = some sig)
    (hmem : Emitter.resultName owner name ∈ results) :
    (.slot (Emitter.resultName owner name) 0, .pointer sig.result.irType) ∈
      slots.flatMap Instr.defines := by
  obtain ⟨owner', name', sig', hsig', heq, hslot⟩ := h.called _ hmem
  obtain ⟨rfl, rfl⟩ := resultName_inj (hl.method hsig).1 (hl.method hsig').1 heq
  obtain rfl : sig = sig' := Option.some.inj (hsig.symm.trans hsig')
  exact hslot

end Frames

/-! ## Variables -/

section Variables

variable {header : List Line} {slots : List Instr} {results : List String} {b : Binding}

theorem stores_declare (h : t.Stores header) (hb : b.In t) (hnew : b.Unbound t)
    (hvariable : b.kind = .variable) (hversion : b.version = 0) :
    (t.install b).Stores (header ++ b.storage.header) := by
  cases b with
  | slot l =>
    rw [Binding.storage, List.append_nil]
    exact h.congr (storage?_install_slot t l)
  | global g =>
    have hkind : g.kind = .variable := hvariable
    have hzero : g.version = 0 := hversion
    apply h.insert hb
    · simp [Line.declares, Global.symbolType, hkind]
    · exact .inl hkind
    · intro g₀ hg₀
      rw [hnew] at hg₀
      cases hg₀
    · omega

theorem frames_declare (h : t.Frames t.local? slots results) (hb : b.In t) (hnew : b.Unbound t)
    (hname : IsIdentifier b.name) (hversion : b.version = 0) :
    (t.install b).Frames (t.install b).local? (slots ++ b.storage.allocas)
      (results ++ b.storage.results) := by
  have hmono : (t.install b).Frames t.local? slots results := h.mono
    (by rw [(aligned_install t b).method?]; exact fun _ _ _ hsig => hsig)
  cases b with
  | slot l =>
    have hzero : l.version = 0 := hversion
    simp only [Binding.storage, Storage.allocas, List.map_cons, List.map_nil, List.append_nil]
    apply hmono.insert hname
    · intro l₀ hl₀
      rw [hnew] at hl₀
      cases hl₀
    · omega
    · exact local?_install_slot hb
  | global g =>
    simp only [Binding.storage, Storage.allocas, List.map_nil, List.append_nil]
    rwa [local?_install_global]

/-- A variable moves to a new version if its storage does not fit the type. -/
theorem stores_rebound (h : t.Stores header) (hb : b.Bound t) (hvariable : b.kind = .variable)
    (type : DataType) :
    (t.install (b.rebound type)).Stores (header ++ (b.added type).header) := by
  rcases b.rebound_cases type with ⟨hadded, type', hir, hrebound⟩ | ⟨hadded, hrebound⟩
  · rw [hadded, hrebound, List.append_nil]
    cases b with
    | slot l => exact h.congr (storage?_install_slot t _)
    | global g =>
      have hkind : g.kind = .variable := hvariable
      have hsymbol : (g.withVersion g.version type').symbolType = g.symbolType := by
        have hir : type'.irType = g.type.irType := hir
        simp [Global.symbolType, Global.withVersion, hkind, hir]
      exact h.replace hb rfl rfl rfl rfl hsymbol
  · rw [hadded, hrebound]
    cases b with
    | slot l =>
      change (t.install (.slot (l.withVersion (l.version + 1) type))).Stores (header ++ [])
      rw [List.append_nil]
      exact h.congr (storage?_install_slot t _)
    | global g =>
      have hkind : g.kind = .variable := hvariable
      obtain ⟨-, hnonneg, hlt⟩ := h.declared _ _ g hb.1
      change (t.install (.global (g.withVersion (g.version + 1) type))).Stores
        (header ++ [.cell (g.withVersion (g.version + 1) type).symbol type.irType _])
      apply h.insert (hb.in.withVersion (g.version + 1) type)
      · simp [Line.declares, Global.symbolType, Global.withVersion, hkind]
      · exact .inl hkind
      · intro g₀ hg₀
        obtain rfl : g = g₀ := Option.some.inj (hb.1.symm.trans hg₀)
        refine ⟨hkind, hkind, ?_⟩
        change g.version < g.version + 1
        omega
      · change 0 ≤ g.version + 1 ∧ g.version + 1 ≤ _
        omega

theorem frames_rebound (h : t.Frames t.local? slots results) (hb : b.Bound t) (type : DataType) :
    (t.install (b.rebound type)).Frames (t.install (b.rebound type)).local?
      (slots ++ (b.added type).allocas) (results ++ (b.added type).results) := by
  have hmono (b' : Binding) : (t.install b').Frames t.local? slots results := h.mono
    (by rw [(aligned_install t b').method?]; exact fun _ _ _ hsig => hsig)
  rcases b.rebound_cases type with ⟨hadded, type', hir, hrebound⟩ | ⟨hadded, hrebound⟩
  · rw [hadded, hrebound, Storage.allocas, List.map_nil, List.append_nil, List.append_nil]
    cases b with
    | slot l =>
      have hname : t.local? (l.withVersion l.version type').name = some l := hb
      exact (hmono _).replace hname rfl hir (local?_install_slot hb.in)
    | global g =>
      have hlocal := local?_install_global t (g.withVersion g.version type')
      exact hlocal ▸ hmono _
  · rw [hadded, hrebound]
    cases b with
    | slot l =>
      obtain ⟨-, hidentifier, -, hnonneg, hlt⟩ := h.locals _ l hb
      have hname : IsIdentifier (l.withVersion (l.version + 1) type).name := hidentifier
      change (t.install (.slot (l.withVersion (l.version + 1) type))).Frames _
        (slots ++ [.alloca (l.withVersion (l.version + 1) type).slot type.irType]) (results ++ [])
      rw [List.append_nil]
      apply (hmono _).insert hname
      · intro l₀ hl₀
        obtain rfl : l = l₀ := Option.some.inj (hb.symm.trans hl₀)
        change l.version < l.version + 1
        omega
      · change 0 ≤ l.version + 1 ∧ l.version + 1 ≤ _
        omega
      · exact local?_install_slot hb.in
    | global g =>
      have hlocal := local?_install_global t (g.withVersion (g.version + 1) type)
      change (t.install (.global (g.withVersion (g.version + 1) type))).Frames _
        (slots ++ []) (results ++ [])
      rw [List.append_nil, List.append_nil]
      exact hlocal ▸ hmono _

end Variables

/-! ## Functions and methods -/

/-- The functions and methods that code may call. -/
inductive Promises (t : SymbolTable) : GlobalName → SymbolType → Prop
  | function {name : String} {sig : Signature} (h : t.functions.find? name = some sig) :
      Promises t (.function name) sig.symbolType
  | method {owner name : String} {sig : Signature} (h : t.method? owner name = some sig) :
      Promises t (.method owner name) sig.symbolType

/-- Functions and methods that can be called are defined, except for those methods of the current
instance that are still to come. -/
structure Defines (t : SymbolTable) (owed : List String) (openings : List Line) : Prop where
  nodup : ((openings.flatMap Line.declares).map Prod.fst).Nodup
  promised : ∀ u ∈ openings.flatMap Line.declares, t.Promises u.1 u.2 ∧
    ∀ owner name, t.current = some owner → name ∈ owed → u.1 ≠ .method owner name
  kept : ∀ name type, t.Promises name type → (name, type) ∈ openings.flatMap Line.declares ∨
    ∃ owner method, t.current = some owner ∧ method ∈ owed ∧ name = .method owner method

theorem Promises.mono {name : GlobalName} {type : SymbolType} (h : t.Promises name type)
    (hfunctions : ∀ n sig, t.functions.find? n = some sig → t'.functions.find? n = some sig)
    (hmethod : ∀ o n sig, t.method? o n = some sig → t'.method? o n = some sig) :
    t'.Promises name type := by
  cases h with
  | function h => exact .function (hfunctions _ _ h)
  | method h => exact .method (hmethod _ _ _ h)

theorem Promises.congr {name : GlobalName} {type : SymbolType} (h : t.Promises name type)
    (hfunctions : t'.functions = t.functions) (hmethod : t'.method? = t.method?) :
    t'.Promises name type := by
  apply h.mono
  · rw [hfunctions]
    exact fun _ _ hsig => hsig
  · rw [hmethod]
    exact fun _ _ _ hsig => hsig

theorem Promises.aligned {name : GlobalName} {type : SymbolType} (h : t.Aligned t') :
    t'.Promises name type ↔ t.Promises name type :=
  ⟨fun hp => hp.congr h.functions.symm h.method?.symm, fun hp => hp.congr h.functions h.method?⟩

section Defines

variable {owed : List String} {openings : List Line} {opening : Line}

theorem Defines.congr (h : t.Defines owed openings) (hcurrent : t'.current = t.current)
    (hpromises : ∀ name type, t'.Promises name type ↔ t.Promises name type) :
    t'.Defines owed openings := by
  refine ⟨h.nodup, ?_, ?_⟩
  · intro u hu
    rw [hpromises, hcurrent]
    exact h.promised u hu
  · intro name type
    rw [hpromises, hcurrent]
    exact h.kept name type

theorem Defines.function (h : t.Defines owed openings) {name : String} {sig : Signature}
    (hnew : t.functions.find? name = none)
    (hopening : opening.declares = [(.function name, sig.symbolType)])
    (hfunctions : ∀ n, t'.functions.find? n = if n = name then some sig else t.functions.find? n)
    (hmethod : t'.method? = t.method?) (hcurrent : t'.current = t.current) :
    t'.Defines owed (openings ++ [opening]) := by
  have hdeclares := flatMap_concat openings hopening
  have hmono {n : GlobalName} {type : SymbolType} (hp : t.Promises n type) :
      t'.Promises n type := by
    apply hp.mono
    · intro n' sig' hsig'
      rw [hfunctions]
      split
      · next heq =>
        rw [heq, hnew] at hsig'
        cases hsig'
      · exact hsig'
    · rw [hmethod]
      exact fun _ _ _ hsig => hsig
  refine ⟨?_, ?_, ?_⟩
  · rw [hdeclares]
    apply nodup_concat h.nodup
    rintro ⟨symbol, type⟩ hu rfl
    cases (h.promised _ hu).1 with
    | function hsig' =>
      rw [hnew] at hsig'
      cases hsig'
  · intro u hu
    rw [hdeclares, List.mem_append, List.mem_singleton] at hu
    rcases hu with hu | rfl
    · rw [hcurrent]
      exact ⟨hmono (h.promised u hu).1, (h.promised u hu).2⟩
    · exact ⟨.function (by rw [hfunctions, if_pos rfl]), by simp⟩
  · intro n type hp
    rw [hdeclares, List.mem_append, List.mem_singleton, hcurrent]
    cases hp with
    | @function n sig' hsig' =>
      rw [hfunctions] at hsig'
      split at hsig'
      · next heq =>
        cases hsig'
        exact .inl (.inr (by rw [heq]))
      · exact (h.kept _ _ (.function hsig')).imp .inl id
    | method hsig' =>
      rw [hmethod] at hsig'
      exact (h.kept _ _ (.method hsig')).imp .inl id

theorem Defines.method {owner name : String} {sig : Signature}
    (h : t.Defines (name :: owed) openings) (howed : name ∉ owed)
    (hcurrent : t.current = some owner) (hsig : t.method? owner name = some sig)
    (hopening : opening.declares = [(.method owner name, sig.symbolType)])
    (haligned : t.Aligned t') : t'.Defines owed (openings ++ [opening]) := by
  have hdeclares := flatMap_concat openings hopening
  refine ⟨?_, ?_, ?_⟩
  · rw [hdeclares]
    apply nodup_concat h.nodup
    intro u hu hname
    exact (h.promised u hu).2 owner name hcurrent (by simp) hname
  · intro u hu
    rw [hdeclares, List.mem_append, List.mem_singleton] at hu
    rw [Promises.aligned haligned, haligned.current]
    rcases hu with hu | rfl
    · refine ⟨(h.promised u hu).1, ?_⟩
      intro owner' name' hcurrent' hname'
      exact (h.promised u hu).2 owner' name' hcurrent' (by simp [hname'])
    · refine ⟨.method hsig, ?_⟩
      rintro owner' name' - hname' heq
      cases heq
      exact howed hname'
  · intro n type hp
    rw [Promises.aligned haligned] at hp
    rw [hdeclares, List.mem_append, List.mem_singleton, haligned.current]
    rcases h.kept n type hp with hmem | ⟨owner', name', hcurrent', hname', rfl⟩
    · exact .inl (.inl hmem)
    · rcases List.mem_cons.mp hname' with rfl | hname'
      · obtain rfl : owner = owner' := Option.some.inj (hcurrent.symm.trans hcurrent')
        cases hp with
        | method hsig' =>
          obtain rfl : sig = _ := Option.some.inj (hsig.symm.trans hsig')
          exact .inl (.inr rfl)
      · exact .inr ⟨owner', name', hcurrent', hname', rfl⟩

theorem Defines.openInstance (h : t.Defines [] openings) {owner : String}
    (hcurrent : t'.current = some owner) (hnew : ∀ name, t.method? owner name = none)
    (hfunctions : t'.functions = t.functions)
    (hother : ∀ o name, o ≠ owner → t'.method? o name = t.method? o name)
    (howed : ∀ name sig, t'.method? owner name = some sig → name ∈ owed) :
    t'.Defines owed openings := by
  refine ⟨h.nodup, ?_, ?_⟩
  · intro u hu
    obtain ⟨hp, -⟩ := h.promised u hu
    refine ⟨?_, ?_⟩
    · apply hp.mono
      · rw [hfunctions]
        exact fun _ _ hsig => hsig
      · intro o n sig hsig
        by_cases ho : o = owner
        · subst ho
          rw [hnew] at hsig
          cases hsig
        · rw [hother o n ho]
          exact hsig
    · rintro owner' name howner' - heq
      obtain rfl : owner = owner' := Option.some.inj (hcurrent.symm.trans howner')
      obtain ⟨symbol, type⟩ := u
      dsimp only at heq hp
      subst heq
      cases hp with
      | method hsig =>
        rw [hnew] at hsig
        cases hsig
  · intro n type hp
    cases hp with
    | function hsig =>
      rw [hfunctions] at hsig
      rcases h.kept _ _ (.function hsig) with hmem | ⟨_, _, _, hnil, _⟩
      · exact .inl hmem
      · cases hnil
    | @method o n sig hsig =>
      by_cases ho : o = owner
      · subst ho
        exact .inr ⟨o, n, hcurrent, howed n sig hsig, rfl⟩
      · rw [hother o n ho] at hsig
        rcases h.kept _ _ (.method hsig) with hmem | ⟨_, _, _, hnil, _⟩
        · exact .inl hmem
        · cases hnil

theorem Defines.closeInstance (h : t.Defines [] openings) (current : Option String) :
    (t.setInstance current).Defines [] openings := by
  refine ⟨h.nodup, ?_, ?_⟩
  · intro u hu
    refine ⟨(h.promised u hu).1.mono (fun _ _ hsig => hsig) fun _ _ _ hsig => hsig, ?_⟩
    intro owner name _ hnil
    cases hnil
  · intro name type hp
    have hp' : t.Promises name type :=
      hp.mono (fun _ _ hsig => hsig) fun _ _ _ hsig => hsig
    rcases h.kept name type hp' with hmem | ⟨_, _, _, hnil, _⟩
    · exact .inl hmem
    · cases hnil

end Defines

end SymbolTable

end MkCompiler
