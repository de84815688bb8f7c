import MkCompiler.Proofs.Counterparts

/-!
# Mirrored tables

The symbol tables of two runs differ in the name of one instance and in what belongs to it. A name
of the source stands for counterparts in both.
-/

namespace MkCompiler

open MkCompiler.Action

/-! ## Scopes -/

namespace Scope

variable {α : Type} {K : String → String → Prop} {V : α → α → Prop}

def Alike (K : String → String → Prop) (V : α → α → Prop) (s s' : Scope α) : Prop :=
  List.Forall₂ (fun x y => K x.1 y.1 ∧ V x.2 y.2) s.entries s'.entries

variable {s s' : Scope α} {n n' : String}

/-- Names that are told from corresponding names alike stand for corresponding values. -/
theorem Alike.find? (h : s.Alike K V s') (hn : ∀ x x', K x x' → (n = x ↔ n' = x')) :
    Option.Rel V (s.find? n) (s'.find? n') := by
  obtain ⟨entries⟩ := s
  obtain ⟨entries'⟩ := s'
  change Option.Rel V (get? n entries) (get? n' entries')
  change List.Forall₂ _ entries entries' at h
  induction h with
  | nil => exact .none
  | @cons x y l l' hxy _ ih =>
    obtain ⟨hkey, hvalue⟩ := hxy
    rw [show x = (x.1, x.2) from rfl, show y = (y.1, y.2) from rfl, get?, get?]
    by_cases heq : n = x.1
    · rw [if_pos heq, if_pos ((hn _ _ hkey).mp heq)]
      exact .some hvalue
    · rw [if_neg heq, if_neg (mt (hn _ _ hkey).mpr heq)]
      exact ih

theorem Alike.insert (h : s.Alike K V s') (hn : ∀ x x', K x x' → (n = x ↔ n' = x')) {a a' : α}
    (hkey : K n n') (ha : V a a') : (s.insert n a).Alike K V (s'.insert n' a') := by
  obtain ⟨entries⟩ := s
  obtain ⟨entries'⟩ := s'
  change List.Forall₂ _ (put n a entries) (put n' a' entries')
  change List.Forall₂ _ entries entries' at h
  induction h with
  | nil => exact .cons ⟨hkey, ha⟩ .nil
  | @cons x y l l' hxy hrest ih =>
    rw [show x = (x.1, x.2) from rfl, show y = (y.1, y.2) from rfl, put, put]
    by_cases heq : n = x.1
    · rw [if_pos heq, if_pos ((hn _ _ hxy.1).mp heq)]
      exact .cons ⟨hxy.1, ha⟩ hrest
    · rw [if_neg heq, if_neg (mt (hn _ _ hxy.1).mpr heq)]
      exact .cons hxy ih

theorem Alike.mono {K' : String → String → Prop} {V' : α → α → Prop} (h : s.Alike K V s')
    (hK : ∀ x x', K x x' → K' x x') (hV : ∀ a a', V a a' → V' a a') : s.Alike K' V' s' :=
  List.Forall₂.imp (fun _ _ hxy => ⟨hK _ _ hxy.1, hV _ _ hxy.2⟩) h

theorem Alike.find?_same (h : s.Alike Eq V s') (n : String) :
    Option.Rel V (s.find? n) (s'.find? n) :=
  h.find? fun x x' heq => by rw [heq]

theorem Alike.insert_same (h : s.Alike Eq V s') (n : String) {a a' : α} (ha : V a a') :
    (s.insert n a).Alike Eq V (s'.insert n a') :=
  h.insert (fun x x' heq => by rw [heq]) rfl ha

end Scope

/-! ## Tables -/

structure InstanceInfo.Alike (p : NamePair) (i i' : InstanceInfo) : Prop where
  name : p.Counterpart i.name i'.name
  classId : i'.classId = i.classId
  fields : i.fields.Alike Eq (Global.Alike p) i'.fields

theorem InstanceInfo.Alike.mono {p : NamePair} {i i' : InstanceInfo} (h : i.Alike p i') {d : Prop}
    (hd : p.declared → d) : i.Alike (p.declare d) i' :=
  ⟨h.name.mono hd, h.classId, h.fields.mono (fun _ _ hx => hx) fun _ _ hg => hg.mono hd⟩

/-- The tables of two runs, up to the new instance. Once it is declared the body of its class is
run. -/
structure SymbolTable.Alike (p : NamePair) (t t' : SymbolTable) : Prop where
  globals : t.globals.Alike Eq (Global.Alike p) t'.globals
  locals : t'.locals = t.locals
  functions : t'.functions = t.functions
  classes : t'.classes = t.classes
  classNames : t'.classNames = t.classNames
  instances : t.instances.Alike p.Counterpart (InstanceInfo.Alike p) t'.instances
  current : Option.Rel p.Counterpart t.current t'.current
  running : p.declared → t.instance?.isSome = true

namespace SymbolTable

variable {p : NamePair} {t t' : SymbolTable}

namespace Alike

theorem find?_counterpart (h : t.Alike p t') {x x' : String} (hx : p.Counterpart x x') :
    Option.Rel (InstanceInfo.Alike p) (t.instances.find? x) (t'.instances.find? x') :=
  h.instances.find? fun _ _ hy => hx.eq_iff hy

theorem find?_const (h : t.Alike p t') {x : String} (hx : p.Fixes x) :
    Option.Rel (InstanceInfo.Alike p) (t.instances.find? x) (t'.instances.find? x) :=
  h.instances.find? fun _ _ hy => hy.const_eq_iff hx

theorem instance? (h : t.Alike p t') :
    Option.Rel (InstanceInfo.Alike p) t.instance? t'.instance? := by
  unfold SymbolTable.instance?
  rcases optionRel_cases h.current with ⟨hx, hx'⟩ | ⟨x, x', hx, hx', hcounterpart⟩
  · rw [hx, hx']
    exact .none
  · rw [hx, hx']
    exact h.find?_counterpart hcounterpart

theorem currentFields (h : t.Alike p t') :
    t.currentFields.Alike Eq (Global.Alike p) t'.currentFields := by
  have hinst := h.instance?
  unfold SymbolTable.instance? at hinst
  unfold SymbolTable.currentFields
  rcases optionRel_cases hinst with ⟨hi, hi'⟩ | ⟨i, i', hi, hi', halike⟩
  · rw [hi, hi']
    exact .nil
  · rw [hi, hi']
    exact halike.fields

theorem resolve? (h : t.Alike p t') (name : String) :
    Option.Rel (Binding.Alike p) (t.resolve? name) (t'.resolve? name) := by
  unfold SymbolTable.resolve?
  rw [h.locals]
  cases t.locals.bind (·.find? name) with
  | some l => exact .some (.slot l)
  | none =>
    rcases optionRel_cases (h.currentFields.find?_same name) with
      ⟨hf, hf'⟩ | ⟨g, g', hf, hf', halike⟩
    · rw [hf, hf']
      rcases optionRel_cases (h.globals.find?_same name) with
        ⟨hg, hg'⟩ | ⟨g, g', hg, hg', halike⟩
      · rw [hg, hg']
        exact .none
      · rw [hg, hg']
        exact .some (.global halike)
    · rw [hf, hf']
      exact .some (.global halike)

end Alike

/-! ## Operations -/

theorem mirrors_lookup (p : NamePair) (name : String) :
    Mirrors (SymbolTable.Alike p) (Binding.Alike p) (lookup name) (lookup name) := by
  unfold lookup
  apply Mirrors.get.bind
  intro t t' h
  rcases optionRel_cases (h.resolve? name) with ⟨hb, hb'⟩ | ⟨b, b', hb, hb', halike⟩
  · rw [hb, hb']
    exact .reject rfl
  · rw [hb, hb']
    exact .pure halike

theorem mirrors_lookupInstance {name : String} (hname : p.Fixes name) :
    Mirrors (SymbolTable.Alike p) (InstanceInfo.Alike p) (lookupInstance name)
      (lookupInstance name) := by
  unfold lookupInstance
  apply Mirrors.get.bind
  intro t t' h
  rcases optionRel_cases (h.find?_const hname) with ⟨hi, hi'⟩ | ⟨i, i', hi, hi', halike⟩
  · rw [hi, hi']
    exact .reject rfl
  · rw [hi, hi']
    exact .pure halike

theorem mirrors_lookupFunction (p : NamePair) (name : String) :
    Mirrors (SymbolTable.Alike p) Eq (lookupFunction name) (lookupFunction name) := by
  unfold lookupFunction
  apply Mirrors.get.bind
  intro t t' h
  apply Mirrors.require_bind Iff.rfl rfl
  intro _
  rw [h.functions]
  cases t.functions.find? name with
  | some sig => exact .pure rfl
  | none => exact .reject rfl

theorem mirrors_classAt (p : NamePair) (id : Int) :
    Mirrors (SymbolTable.Alike p) Eq (classAt id) (classAt id) := by
  unfold classAt
  apply Mirrors.get.bind
  intro t t' h
  rw [h.classes]
  cases (if id < 0 then none else t.classes[id.toNat]?) with
  | some k => exact .pure rfl
  | none => exact .throw (.refl _)

theorem mirrors_checkProgramName {name : String} (hname : p.Fixes name) :
    Mirrors (SymbolTable.Alike p) Eq (checkProgramName name) (checkProgramName name) := by
  unfold checkProgramName
  apply Mirrors.get.bind
  intro t t' h
  apply Mirrors.require_bind (by rw [h.classNames]) rfl
  intro _
  apply Mirrors.require_bind (isNone_iff_of_optionRel (h.find?_const hname)) rfl
  intro _
  exact .require (isNone_iff_of_optionRel (h.globals.find?_same name)) rfl

theorem Alike.insertGlobal (h : t.Alike p t') (name : String) {g g' : Global}
    (hg : g.Alike p g') : ({ t with globals := t.globals.insert name g } : SymbolTable).Alike p
      { t' with globals := t'.globals.insert name g' } :=
  ⟨h.globals.insert_same name hg, h.locals, h.functions, h.classes, h.classNames, h.instances,
    h.current,
    h.running⟩

theorem Alike.insertField (h : t.Alike p t') {x x' : String} (hx : p.Counterpart x x')
    {i i' : InstanceInfo} (hi : i.Alike p i') (name : String) {g g' : Global}
    (hg : g.Alike p g') :
    ({ t with instances := t.instances.insert x { i with fields := i.fields.insert name g } } :
      SymbolTable).Alike p { t' with
        instances := t'.instances.insert x' { i' with fields := i'.fields.insert name g' } } := by
  have hinfo : InstanceInfo.Alike p { i with fields := i.fields.insert name g }
      { i' with fields := i'.fields.insert name g' } :=
    ⟨hi.name, hi.classId, hi.fields.insert_same name hg⟩
  refine ⟨h.globals, h.locals, h.functions, h.classes, h.classNames,
    h.instances.insert (fun _ _ hy => hx.eq_iff hy) hx hinfo, h.current, ?_⟩
  intro hdeclared
  have hrunning := h.running hdeclared
  unfold SymbolTable.instance? at hrunning ⊢
  cases hcurrent : t.current with
  | none => simp [hcurrent] at hrunning
  | some y =>
    rw [hcurrent, Option.bind_some] at hrunning
    exact Scope.isSome_find?_insert hrunning _ _

theorem mirrors_declareGlobal {g g' : Global} (h : g.Alike p g') (hname : p.Fixes g.name) :
    Mirrors (SymbolTable.Alike p) Eq (declareGlobal g) (declareGlobal g') := by
  have hsame : g'.name = g.name := by
    obtain ⟨inst, index, -, -, rfl⟩ := h
    rfl
  unfold declareGlobal
  rw [hsame]
  apply (mirrors_checkProgramName hname).bind
  intro _ _ _
  apply Mirrors.update
  intro t t' ht
  exact ht.insertGlobal _ h

theorem mirrors_declareField {g g' : Global} (h : g.Alike p g') :
    Mirrors (SymbolTable.Alike p) Eq (declareField g) (declareField g') := by
  have hsame : g'.name = g.name := by
    obtain ⟨inst, index, -, -, rfl⟩ := h
    rfl
  unfold declareField
  rw [hsame]
  apply Mirrors.get.bind
  intro t t' ht
  rcases optionRel_cases ht.current with ⟨hx, hx'⟩ | ⟨x, x', hx, hx', hcounterpart⟩
  · rw [hx, hx']
    exact .reject rfl
  rw [hx, hx']
  dsimp only
  rcases optionRel_cases (ht.find?_counterpart hcounterpart) with
    ⟨hi, hi'⟩ | ⟨i, i', hi, hi', halike⟩
  · rw [hi, hi']
    exact .throw (.refl _)
  rw [hi, hi']
  dsimp only
  apply Mirrors.require_bind (isNone_iff_of_optionRel (halike.fields.find?_same g.name)) (by rfl)
  intro _
  have hset := ht.insertField hcounterpart halike g.name h
  rw [hx, hx'] at hset
  exact .set hset

theorem Alike.withLocals (h : t.Alike p t') (locals : Option (Scope Local)) :
    ({ t with locals } : SymbolTable).Alike p { t' with locals } :=
  ⟨h.globals, rfl, h.functions, h.classes, h.classNames, h.instances, h.current, h.running⟩

theorem mirrors_declareLocal (p : NamePair) (l : Local) :
    Mirrors (SymbolTable.Alike p) Eq (declareLocal l) (declareLocal l) := by
  unfold declareLocal
  apply Mirrors.get.bind
  intro t t' ht
  rw [ht.locals]
  cases t.locals with
  | none => exact .reject rfl
  | some locals =>
    apply Mirrors.require_bind Iff.rfl rfl
    intro _
    exact .set (ht.withLocals _)

theorem mirrors_rebind {b b' : Binding} (h : b.Alike p b') :
    Mirrors (SymbolTable.Alike p) Eq (rebind b) (rebind b') := by
  unfold rebind
  apply Mirrors.get.bind
  intro t t' ht
  cases h with
  | slot l =>
    dsimp only
    rw [ht.locals]
    cases t.locals with
    | none => exact .throw (.refl _)
    | some locals => exact .set (ht.withLocals _)
  | @global g g' h =>
    have halike := h
    obtain ⟨inst, index, hinst, -, rfl⟩ := h
    apply Mirrors.ite hinst.eq_empty_iff
    · intro _
      exact .set (ht.insertGlobal _ halike)
    · intro _
      dsimp only
      rcases optionRel_cases (ht.find?_counterpart hinst) with ⟨hi, hi'⟩ | ⟨i, i', hi, hi', hfound⟩
      · rw [hi, hi']
        exact .throw (.refl _)
      · rw [hi, hi']
        exact .set (ht.insertField hinst hfound _ halike)

theorem mirrors_declareFunction (p : NamePair) (sig : Signature) :
    Mirrors (SymbolTable.Alike p) Eq (declareFunction sig) (declareFunction sig) := by
  unfold declareFunction
  apply Mirrors.get.bind
  intro t t' ht
  apply Mirrors.require_bind Iff.rfl rfl
  intro _
  rw [ht.functions]
  apply Mirrors.require_bind Iff.rfl rfl
  intro _
  exact .set ⟨ht.globals, ht.locals, rfl, ht.classes, ht.classNames, ht.instances, ht.current,
    ht.running⟩

end SymbolTable

end MkCompiler
