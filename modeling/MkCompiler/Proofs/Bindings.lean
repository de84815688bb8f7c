import MkCompiler.Proofs.Growth
import MkCompiler.Proofs.Spelling

/-!
# Bindings

The symbol table as the compiler looks at it: which storage a name of the program or of an instance
is bound to, which slot a name of the open function is bound to, and which functions and methods can
be called. Declaring a variable and moving it to a new version both install a binding.
-/

namespace MkCompiler

open MkCompiler.Action

namespace SymbolTable

variable {S : Command → Prop} {t t' : SymbolTable}

/-- The storage a name is bound to in the program, if the owner is empty, or in an instance. -/
def storage? (t : SymbolTable) (owner name : String) : Option Global :=
  if owner = "" then t.globals.find? name
  else (t.instances.find? owner).bind fun inst => inst.fields.find? name

def local? (t : SymbolTable) (name : String) : Option Local :=
  t.locals.bind (·.find? name)

def method? (t : SymbolTable) (owner name : String) : Option Signature :=
  (t.classOf? owner).bind fun id => t.classes[id]?.bind fun k => k.methods.find? name

theorem Aligned.method? (h : t.Aligned t') : t'.method? = t.method? := by
  funext owner name
  rw [SymbolTable.method?, SymbolTable.method?, h.classOf?, h.classes]

theorem local?_install_slot {l : Local} (h : t.locals.isSome = true) (name : String) :
    (t.install (.slot l)).local? name = if name = l.name then some l else t.local? name := by
  obtain ⟨locals, hlocals⟩ := Option.isSome_iff_exists.mp h
  simp [local?, install, hlocals]

theorem local?_install_global (t : SymbolTable) (g : Global) :
    (t.install (.global g)).local? = t.local? := by
  unfold install
  dsimp only
  split
  · rfl
  · split <;> rfl

theorem storage?_install_slot (t : SymbolTable) (l : Local) :
    (t.install (.slot l)).storage? = t.storage? := rfl

theorem storage?_install_global {g : Global}
    (h : g.inst = "" ∨ (t.instances.find? g.inst).isSome = true) (owner name : String) :
    (t.install (.global g)).storage? owner name =
      if owner = g.inst ∧ name = g.name then some g else t.storage? owner name := by
  unfold install storage?
  dsimp only
  by_cases hinst : g.inst = ""
  · rw [if_pos hinst]
    by_cases howner : owner = ""
    · simp [howner, hinst]
    · simp [howner, hinst]
  · rw [if_neg hinst]
    obtain ⟨inst, hfound⟩ := Option.isSome_iff_exists.mp (h.resolve_left hinst)
    rw [hfound]
    by_cases howner : owner = g.inst
    · subst howner
      by_cases hname : name = g.name <;> simp [hinst, hname, hfound]
    · simp [howner]

/-! ## Operations on the table -/

theorem ensures_declareGlobal {g : Global} (hg : g.inst = "") (t : SymbolTable) :
    Ensures (declareGlobal g) t fun _ t' =>
      t' = t.install (.global g) ∧ t.storage? g.inst g.name = none := by
  unfold declareGlobal
  rw [ensures_bind]
  intro _ _ hrun
  obtain ⟨rfl, hfree⟩ := (ends_checkProgramName g.name t).of_ok hrun
  rw [ensures_modify]
  simp [install, storage?, hg, hfree.globals]

theorem ensures_declareLocal (l : Local) (t : SymbolTable) :
    Ensures (declareLocal l) t fun _ t' =>
      t' = t.install (.slot l) ∧ t.locals.isSome = true ∧ t.local? l.name = none := by
  unfold declareLocal
  rw [ensures_bind, ensures_get]
  cases hlocals : t.locals with
  | none => exact ensures_reject.mpr trivial
  | some locals =>
    dsimp only
    rw [ensures_bind, ensures_require]
    intro hnone
    rw [ensures_set]
    simp only [install, local?, hlocals, Option.map_some, Option.isSome_some, Option.bind_some,
      true_and]
    exact Option.isNone_iff_eq_none.mp hnone

theorem ensures_declareFunction (sig : Signature) (t : SymbolTable) :
    Ensures (declareFunction sig) t fun _ t' =>
      t' = { t with functions := t.functions.insert sig.name sig } ∧
        t.functions.find? sig.name = none := by
  unfold declareFunction
  simp only [ensures_bind, ensures_get, ensures_require, ensures_set]
  intro _ hnone
  exact ⟨trivial, Option.isNone_iff_eq_none.mp hnone⟩

theorem ensures_lookup (name : String) (t : SymbolTable) :
    Ensures (lookup name) t fun b t' => t' = t ∧ t.resolve? name = some b := by
  unfold lookup
  rw [ensures_bind, ensures_get]
  cases hb : t.resolve? name with
  | none => exact ensures_reject.mpr trivial
  | some b => exact ensures_pure.mpr ⟨rfl, rfl⟩

theorem ensures_lookupFunction (name : String) (t : SymbolTable) :
    Ensures (lookupFunction name) t fun sig t' => t' = t ∧ t.functions.find? name = some sig := by
  unfold lookupFunction
  simp only [ensures_bind, ensures_get, ensures_require]
  intro _
  cases hsig : t.functions.find? name with
  | none => exact ensures_reject.mpr trivial
  | some sig => exact ensures_pure.mpr ⟨rfl, rfl⟩

theorem ensures_lookupInstance (name : String) (t : SymbolTable) :
    Ensures (lookupInstance name) t fun inst t' =>
      t' = t ∧ t.instances.find? name = some inst := by
  unfold lookupInstance
  rw [ensures_bind, ensures_get]
  cases hinst : t.instances.find? name with
  | none => exact ensures_reject.mpr trivial
  | some inst => exact ensures_pure.mpr ⟨rfl, rfl⟩

/-! ## Names -/

end SymbolTable

/-- The names that a notification declares are identifiers. -/
structure Command.Named (cmd : Command) : Prop where
  name : cmd.kind ∈ [.declareVariable, .declareArray, .declareFunction, .declareInstance] →
    IsIdentifier cmd.name
  params : cmd.kind = .declareFunction → ∀ p ∈ cmd.params, IsIdentifier p.name

instance (cmd : Command) : Decidable cmd.Named :=
  decidable_of_iff
    ((cmd.kind ∈ [.declareVariable, .declareArray, .declareFunction, .declareInstance] →
      IsIdentifier cmd.name) ∧
      (cmd.kind = .declareFunction → ∀ p ∈ cmd.params, IsIdentifier p.name))
    ⟨fun h => ⟨h.1, h.2⟩, fun h => ⟨h.name, h.params⟩⟩

namespace SymbolTable

variable {t : SymbolTable}

/-- Names of storage, methods and instances are identifiers, functions and methods stand under their
own names, functions return values that code can be generated for, and instances belong to closed
classes. -/
structure Lexicon (t : SymbolTable) : Prop where
  storage : ∀ owner name g, t.storage? owner name = some g → IsIdentifier name
  functions : ∀ name sig, t.functions.find? name = some sig →
    sig.name = name ∧ sig.result.isLowered = true
  methods : ∀ k ∈ t.classes, ∀ name sig, k.methods.find? name = some sig →
    sig.name = name ∧ IsIdentifier name
  instances : ∀ owner id, t.classOf? owner = some id →
    IsIdentifier owner ∧ ∃ k, t.classes[id]? = some k ∧ k.frozen = true

theorem lexicon_start : ({} : SymbolTable).Lexicon where
  storage := by
    intro owner name g h
    unfold storage? at h
    split at h <;> cases h
  functions := by intro name sig h; cases h
  methods := by intro k h; cases h
  instances := by intro owner id h; cases h

theorem Sound.method_named (h : t.Sound Command.Named) :
    ∀ k ∈ t.classes, ∀ name sig, k.methods.find? name = some sig →
      sig.name = name ∧ IsIdentifier name := by
  intro k hk name sig hsig
  have hmem := Scope.mem_of_get?_eq_some hsig
  rw [(h.classes k hk).methods, List.mem_filterMap] at hmem
  obtain ⟨cmd, hcmd, hmethod⟩ := hmem
  unfold Command.method? at hmethod
  split at hmethod
  · next hkind =>
    cases hmethod
    exact ⟨rfl, ((h.classes k hk).commands cmd hcmd).name (by simp [hkind])⟩
  · cases hmethod

theorem Lexicon.congr (h : t.Lexicon) {t' : SymbolTable} (haligned : t.Aligned t')
    (hstorage : t'.storage? = t.storage?) : t'.Lexicon := by
  refine ⟨?_, ?_, ?_, ?_⟩
  · rw [hstorage]
    exact h.storage
  · rw [haligned.functions]
    exact h.functions
  · rw [haligned.classes]
    exact h.methods
  · rw [haligned.classOf?, haligned.classes]
    exact h.instances

theorem Lexicon.method (h : t.Lexicon) {owner name : String} {sig : Signature}
    (hsig : t.method? owner name = some sig) : IsIdentifier owner ∧ IsIdentifier name ∧
      sig.name = name := by
  obtain ⟨id, hid, hsig⟩ := Option.bind_eq_some_iff.mp hsig
  obtain ⟨k, hk, hsig⟩ := Option.bind_eq_some_iff.mp hsig
  obtain ⟨hname, hidentifier⟩ := h.methods k (List.mem_of_getElem? hk) name sig hsig
  exact ⟨(h.instances owner id hid).1, hidentifier, hname⟩

/-- An owner of storage is the program or an instance with a name. -/
theorem Lexicon.owner (h : t.Lexicon) {owner name : String} {g : Global}
    (hg : t.storage? owner name = some g) : owner = "" ∨ IsIdentifier owner := by
  by_cases howner : owner = ""
  · exact .inl howner
  · unfold storage? at hg
    rw [if_neg howner] at hg
    obtain ⟨inst, hinst, -⟩ := Option.bind_eq_some_iff.mp hg
    exact .inr (h.instances owner inst.classId (by simp [classOf?, hinst])).1

theorem Lexicon.install (h : t.Lexicon) {b : Binding} (hb : b.In t) (hname : IsIdentifier b.name) :
    (t.install b).Lexicon := by
  have haligned := aligned_install t b
  refine ⟨?_, ?_, ?_, ?_⟩
  · intro owner name g hg
    cases b with
    | slot l => exact h.storage owner name g hg
    | global g' =>
      rw [storage?_install_global hb.2] at hg
      split at hg
      · next heq => exact heq.2 ▸ hname
      · exact h.storage owner name g hg
  · rw [haligned.functions]
    exact h.functions
  · rw [haligned.classes]
    exact h.methods
  · rw [haligned.classOf?, haligned.classes]
    exact h.instances

theorem Lexicon.insertFunction (h : t.Lexicon) {sig : Signature}
    (hresult : sig.result.isLowered = true) :
    ({ t with functions := t.functions.insert sig.name sig } : SymbolTable).Lexicon := by
  refine ⟨h.storage, ?_, h.methods, h.instances⟩
  intro name sig' hsig
  rcases Scope.find?_insert_eq_some hsig with ⟨rfl, rfl⟩ | hold
  · exact ⟨rfl, hresult⟩
  · exact h.functions name sig' hold

end SymbolTable

/-! ## What names stand for -/

def Binding.Bound (t : SymbolTable) : Binding → Prop
  | .slot l => t.local? l.name = some l
  | .global g => t.storage? g.inst g.name = some g ∧ g.Stored

def Binding.Unbound (t : SymbolTable) : Binding → Prop
  | .slot l => t.local? l.name = none
  | .global g => t.storage? g.inst g.name = none

theorem Binding.Bound.in {t : SymbolTable} {b : Binding} (h : b.Bound t) : b.In t := by
  cases b with
  | slot l =>
    obtain ⟨locals, hlocals, -⟩ := Option.bind_eq_some_iff.mp h
    simp [Binding.In, hlocals]
  | global g =>
    refine ⟨h.2, ?_⟩
    have hg := h.1
    by_cases hinst : g.inst = ""
    · exact .inl hinst
    · unfold SymbolTable.storage? at hg
      rw [if_neg hinst] at hg
      obtain ⟨inst, hfound, -⟩ := Option.bind_eq_some_iff.mp hg
      exact .inr (by simp [hfound])

theorem Binding.Bound.index_eq {t : SymbolTable} {b : Binding} (h : b.Bound t) (g : Global)
    (hg : b = .global g) : g.index = none := by
  subst hg
  exact h.2.2

theorem Binding.In.bound_install {t : SymbolTable} {b : Binding} (h : b.In t) :
    b.Bound (t.install b) := by
  cases b with
  | slot s => rw [Binding.Bound, SymbolTable.local?_install_slot h, if_pos rfl]
  | global g => exact ⟨by rw [SymbolTable.storage?_install_global h.2, if_pos ⟨rfl, rfl⟩], h.1⟩

namespace SymbolTable

variable {S : Command → Prop} {t : SymbolTable}

theorem Sound.bound_of_field (h : t.Sound S) (hl : t.Lexicon) {owner name : String}
    {inst : InstanceInfo} {g : Global} (hinst : t.instances.find? owner = some inst)
    (hg : inst.fields.find? name = some g) : (Binding.global g).Bound t := by
  have hbelongs := h.fields owner inst hinst name g hg
  have howner : owner ≠ "" := (hl.instances owner inst.classId (by simp [classOf?, hinst])).1.nonempty
  refine ⟨?_, hbelongs.stored⟩
  rw [hbelongs.inst_eq, hbelongs.name_eq, storage?, if_neg howner, hinst]
  exact hg

theorem Sound.bound_of_resolve? (h : t.Sound S) (hl : t.Lexicon)
    (hlocals : ∀ name l, t.local? name = some l → l.name = name) {name : String} {b : Binding}
    (hb : t.resolve? name = some b) : b.Bound t := by
  unfold resolve? at hb
  split at hb
  · next l hlocal =>
    cases hb
    rw [Binding.Bound, hlocals name l hlocal]
    exact hlocal
  · split at hb
    · next f hfield =>
      cases hb
      unfold currentFields at hfield
      split at hfield
      · next inst hinst =>
        obtain ⟨owner, -, howner⟩ := Option.bind_eq_some_iff.mp hinst
        exact h.bound_of_field hl howner hfield
      · cases hfield
    · obtain ⟨g, hg, rfl⟩ := Option.map_eq_some_iff.mp hb
      have hbelongs := h.globals name g hg
      refine ⟨?_, hbelongs.stored⟩
      rw [hbelongs.inst_eq, hbelongs.name_eq, storage?, if_pos rfl]
      exact hg

end SymbolTable

end MkCompiler
