import MkCompiler.Proofs.ClassBodies
import MkCompiler.Proofs.Frames

/-!
# Classes that have been recorded

What the beginning and the end of a class, the notifications in between and the declaration of an
instance do to a compilation, exactly and whichever way they end. At every time each class
transcribes a body, and a class that is closed never changes again.
-/

namespace MkCompiler

open MkCompiler.Action

/-- With the notification added, the class transcribes a body again. -/
theorem ClassInfo.Notes.transcribes {k k' : ClassInfo} {cmd : Command} {b : ClassBody}
    {method method' : Option Signature} {returned returned' : Bool}
    (h : k.Notes cmd method returned k' method' returned') (hclass : cmd.kind ≠ .endClass)
    (hb : k.Transcribes b) (ht : b.Tracks method returned) : ∃ b',
      ClassInfo.Transcribes { k' with commands := k.commands ++ [cmd] } b' ∧
        b'.Tracks method' returned' := by
  obtain ⟨members, unfinished⟩ := b
  cases h with
  | field hlevel hfield hnew =>
    obtain rfl : unfinished = none := ht.unfinished_eq_none
    refine ⟨_, hb.single hlevel ?_ (Scope.nodup_names_insert hb.fields_nodup hnew _),
      ClassBody.tracks_none _ _⟩
    rw [hfield]
    exact Scope.entries_insert_of_find?_eq_none hnew _
  | single hlevel hfield =>
    obtain rfl : unfinished = none := ht.unfinished_eq_none
    exact ⟨_, hb.single hlevel (by simp [hfield]) hb.fields_nodup, ClassBody.tracks_none _ _⟩
  | enter hkind hsig _ hreserved hnew =>
    obtain rfl : unfinished = none := ht.unfinished_eq_none
    subst hsig
    refine ⟨_, hb.openMethod hkind ?_ (Scope.nodup_names_insert hb.methods_nodup hnew _) hreserved,
      rfl, ?_⟩
    · rw [Command.method?, if_pos hkind]
      exact Scope.entries_insert_of_find?_eq_none hnew _
    · rintro _ ⟨⟩
      rfl
  | inside hlevel =>
    obtain ⟨r, rfl, hr⟩ := ht.exists_unfinished
    refine ⟨_, hb.inside hlevel, rfl, ?_⟩
    rintro _ ⟨⟩
    rw [OpenRoutine.hasReturn_add, hr]
  | leave hkind =>
    obtain ⟨r, rfl, hr⟩ := ht.exists_unfinished
    exact ⟨_, hb.closeMethod hr hkind, ClassBody.tracks_none _ _⟩
  | ending hkind => exact absurd hkind hclass

namespace SymbolTable

theorem ensures_classAt_nat {t : SymbolTable} {id : Nat} {Q : ClassInfo → SymbolTable → Prop} :
    Ensures (classAt id) t Q ↔ ∀ k, t.classes[id]? = some k → Q k t := by
  rw [ensures_classAt]
  simp

theorem yields_classAt {t : SymbolTable} {id : Nat} {k : ClassInfo} (hk : t.classes[id]? = some k)
    {Q : ClassInfo → SymbolTable → Prop} : Yields (classAt id) t Q ↔ Q k t := by
  rw [classAt, yields_bind, yields_get, if_neg (by omega), Int.toNat_natCast, hk]
  exact yields_pure

theorem ends_classAt_cases (id : Nat) (t : SymbolTable) :
    Ends (classAt id) t (fun k t' => t' = t ∧ t.classes[id]? = some k)
      fun _ t' => t' = t ∧ t.classes[id]? = none := by
  cases hk : t.classes[id]? with
  | some k => exact ends_classAt hk ⟨rfl, rfl⟩
  | none =>
    rw [classAt, ends_bind, ends_get, if_neg (by omega), Int.toNat_natCast, hk]
    exact ends_throw.mpr ⟨rfl, rfl⟩

/-- A name that nothing of the program has. -/
structure Free (t : SymbolTable) (name : String) : Prop where
  classes : t.classNames.find? name = none
  instances : t.instances.find? name = none
  globals : t.globals.find? name = none

theorem ends_checkProgramName (name : String) (t : SymbolTable) :
    Ends (checkProgramName name) t (fun _ t' => t' = t ∧ t.Free name) (Refused t) := by
  rw [checkProgramName, ends_bind, ends_get, ends_bind, ends_require]
  refine ⟨fun hclass => ?_, fun _ => refused _ _⟩
  rw [ends_bind, ends_require]
  refine ⟨fun hinst => ?_, fun _ => refused _ _⟩
  rw [ends_require]
  refine ⟨fun hglobal => ?_, fun _ => refused _ _⟩
  exact ⟨rfl, Option.isNone_iff_eq_none.mp hclass, Option.isNone_iff_eq_none.mp hinst,
    Option.isNone_iff_eq_none.mp hglobal⟩

end SymbolTable

/-- Names and handles of classes correspond: a name leads to the class that has it, and to no
other. -/
def ClassInfo.Indexed (classes : List ClassInfo) (classNames : Scope Nat) : Prop :=
  ∀ name id, classNames.find? name = some id ↔ ∃ k, classes[id]? = some k ∧ k.name = name

namespace ClassInfo

variable {classes : List ClassInfo} {classNames : Scope Nat}

theorem indexed_nil : Indexed [] .empty := by
  intro name id
  simp

theorem Indexed.set (h : Indexed classes classNames) {id : Nat} {k k' : ClassInfo}
    (hk : classes[id]? = some k) (hid : k'.id = id) (hname : k'.name = k.name) :
    Indexed (classes.set k'.id k') classNames := by
  obtain ⟨hlt, -⟩ := List.getElem?_eq_some_iff.mp hk
  intro name i
  rw [h, hid, List.getElem?_set]
  split
  · next hi =>
    subst hi
    rw [hk]
    simp [hname]
  · exact Iff.rfl

theorem Indexed.lt_length (h : Indexed classes classNames) {name : String} {id : Nat}
    (hid : classNames.find? name = some id) : id < classes.length := by
  obtain ⟨k, hk, -⟩ := (h name id).mp hid
  exact (List.getElem?_eq_some_iff.mp hk).1

theorem Indexed.concat (h : Indexed classes classNames) {k : ClassInfo}
    (hnew : classNames.find? k.name = none) :
    Indexed (classes ++ [k]) (classNames.insert k.name classes.length) := by
  intro name i
  rw [Scope.find?_insert]
  rcases Nat.lt_or_ge i classes.length with hi | hi
  · rw [List.getElem?_append_left hi, ← h]
    split
    · next hname => simp [hname, hnew, Nat.ne_of_gt hi]
    · exact Iff.rfl
  · have hold : classNames.find? name ≠ some i := fun hfound =>
      Nat.not_lt.mpr hi (h.lt_length hfound)
    have hlast : i - classes.length = 0 ↔ classes.length = i := by omega
    rw [List.getElem?_append_right hi, List.getElem?_singleton]
    split
    · next hname => simp [hname, hlast]
    · next hname => simp [hold, Ne.symm hname]

theorem Indexed.not_mem_names (h : Indexed classes classNames) {name : String}
    (hnone : classNames.find? name = none) : name ∉ classes.map ClassInfo.name := by
  intro hmem
  obtain ⟨k, hk, hname⟩ := List.mem_map.mp hmem
  obtain ⟨i, hi⟩ := List.mem_iff_getElem?.mp hk
  cases hnone.symm.trans ((h name i).mpr ⟨k, hi, hname⟩)

end ClassInfo

theorem SymbolTable.class?_eq_some_iff {t : SymbolTable}
    (hids : ∀ (i : Nat) (k : ClassInfo), t.classes[i]? = some k → k.id = i)
    (hnames : ClassInfo.Indexed t.classes t.classNames) {name : String} {k : ClassInfo} :
    t.class? name = some k ↔ t.classes[k.id]? = some k ∧ k.name = name := by
  constructor
  · intro hclass
    obtain ⟨id, hid, hk⟩ := Option.bind_eq_some_iff.mp hclass
    obtain ⟨k', hk', hname⟩ := (hnames name id).mp hid
    obtain rfl : k = k' := Option.some.inj (hk.symm.trans hk')
    rw [hids id k hk]
    exact ⟨hk, hname⟩
  · rintro ⟨hk, hname⟩
    rw [class?, (hnames name k.id).mpr ⟨k, hk, hname⟩]
    exact hk

namespace Compilation

variable {c c' : Compilation} {cmd : Command}

/-! ## Steps -/

/-- A construct is refused where it stands, and nothing has changed. A function body that is open
in the emitter only is out of the question in a compilation that has refused nothing so far. -/
def Declined (c : Compilation) (f : Failure) (c' : Compilation) : Prop :=
  c' = c ∧ (f.isRejection = true ∨
    c.emitter.inFunction = true ∧ c.function = none ∧ f = .fault .absentFunction)

theorem declined (c : Compilation) (v : Violation) : Declined c (.rejected v) c :=
  ⟨rfl, .inl rfl⟩

theorem ends_requireOutside (violation : String → Violation) (c : Compilation) :
    Ends (requireOutside violation) c (fun _ c' => c' = c ∧ c.emitter.inFunction = false)
      (Declined c) := by
  rw [requireOutside, ends_bind, ends_get, ends_ite]
  constructor
  · intro hinside
    cases hfunction : c.function with
    | some f => exact ends_reject.mpr (declined c _)
    | none => exact ends_throw.mpr ⟨rfl, .inr ⟨hinside, hfunction, rfl⟩⟩
  · intro houtside
    exact ends_pure.mpr ⟨rfl, eq_false_of_ne_true houtside⟩

theorem ensures_requireOutside (violation : String → Violation) (c : Compilation) :
    Ensures (requireOutside violation) c fun _ c' => c' = c ∧ c.emitter.inFunction = false :=
  fun _ _ => (ends_requireOutside violation c).of_ok

/-- Every class transcribes a body and is found under its name. A class is open while it is being
recorded, and only then a method of it can be open. -/
structure Recorded (classes : List ClassInfo) (classNames : Scope Nat) (recording : Option Nat)
    (method : Option Signature) (returned : Bool) : Prop where
  ids : ∀ (id : Nat) (k : ClassInfo), classes[id]? = some k → k.id = id
  names : ClassInfo.Indexed classes classNames
  frozen : ∀ (id : Nat) (k : ClassInfo), classes[id]? = some k →
    (k.frozen = false ↔ recording = some id)
  closed : ∀ (id : Nat) (k : ClassInfo), classes[id]? = some k → k.frozen = true →
    ∃ members, k.Transcribes ⟨members, none⟩
  opened : ∀ id, recording = some id → ∃ k b, classes[id]? = some k ∧
    k.Transcribes b ∧ b.Tracks method returned

abbrev WellRecorded (c : Compilation) : Prop :=
  Recorded c.table.classes c.table.classNames c.recording c.method c.methodReturned

theorem WellRecorded.exists_class (hc : c.WellRecorded) {id : Nat} (hid : c.recording = some id) :
    ∃ k : ClassInfo, k.id = id ∧ c.table.classes[k.id]? = some k ∧ k.frozen = false := by
  obtain ⟨k, -, hk, -⟩ := hc.opened id hid
  obtain rfl := hc.ids id k hk
  exact ⟨k, rfl, hk, (hc.frozen k.id k hk).mpr hid⟩

theorem WellRecorded.class?_eq_some_iff (hc : c.WellRecorded) {name : String} {k : ClassInfo} :
    c.table.class? name = some k ↔ c.table.classes[k.id]? = some k ∧ k.name = name :=
  SymbolTable.class?_eq_some_iff hc.ids hc.names

theorem WellRecorded.getElem?_of_class? (hc : c.WellRecorded) {name : String} {k : ClassInfo}
    (h : c.table.class? name = some k) : c.table.classes[k.id]? = some k :=
  (hc.class?_eq_some_iff.mp h).1

theorem WellRecorded.classNames_eq_none (hc : c.WellRecorded) {name : String}
    (h : c.table.class? name = none) : c.table.classNames.find? name = none := by
  cases hid : c.table.classNames.find? name with
  | none => rfl
  | some id =>
    obtain ⟨k, hk, -⟩ := (hc.names name id).mp hid
    rw [SymbolTable.class?, hid] at h
    cases hk.symm.trans h

/-- Closed classes stay as they are, and classes stay in order. -/
def Evolves (c c' : Compilation) : Prop :=
  c.WellRecorded → c'.WellRecorded ∧ ∀ (id : Nat) (k : ClassInfo),
    c.table.classes[id]? = some k → k.frozen = true → c'.table.classes[id]? = some k

instance : IsPreorder Compilation Evolves where
  refl _ := fun h => ⟨h, fun _ _ hk _ => hk⟩
  trans _ _ _ h h' := by
    intro hc
    obtain ⟨hc₁, h₁⟩ := h hc
    obtain ⟨hc₂, h₂⟩ := h' hc₁
    exact ⟨hc₂, fun id k hk hfrozen => h₂ id k (h₁ id k hk hfrozen) hfrozen⟩

theorem wellRecorded_start (file : String) (symbols : RuntimeSymbols) :
    (start file symbols).WellRecorded where
  ids := by
    intro id k hk
    cases hk
  names := ClassInfo.indexed_nil
  frozen := by
    intro id k hk
    cases hk
  closed := by
    intro id k hk
    cases hk
  opened := by
    intro id hid
    cases hid

theorem SameRecording.evolves (h : SameRecording c c') : c.Evolves c' := by
  intro hc
  constructor
  · constructor
    · rw [h.classes]
      exact hc.ids
    · rw [h.classes, h.classNames]
      exact hc.names
    · rw [h.classes, h.recording]
      exact hc.frozen
    · rw [h.classes]
      exact hc.closed
    · rw [h.classes, h.recording, h.method, h.methodReturned]
      exact hc.opened
  · intro id k hk _
    rw [h.classes]
    exact hk

/-- The open class changes, and stays open under its name. -/
theorem evolves_setClass {id : Nat} {k₀ k : ClassInfo} {b : ClassBody} {method : Option Signature}
    {returned : Bool} (hid : c.recording = some id) (hk₀ : c.table.classes[id]? = some k₀)
    (hk : k.id = id) (hname : k.name = k₀.name) (hfrozen : k.frozen = false)
    (hb : k.Transcribes b) (ht : b.Tracks method returned) : c.Evolves { c with
      table := c.table.setClass k, method := method, methodReturned := returned } := by
  intro hc
  have hget := SymbolTable.getElem?_setClass hk₀ hk
  constructor
  · constructor
    · intro i k' hk'
      rw [hget] at hk'
      split at hk'
      · next hi =>
        cases hk'
        exact hk.trans hi.symm
      · exact hc.ids i k' hk'
    · exact hc.names.set hk₀ hk hname
    · intro i k' hk'
      rw [hget] at hk'
      split at hk'
      · next hi =>
        cases hk'
        rw [hi]
        exact ⟨fun _ => hid, fun _ => hfrozen⟩
      · exact hc.frozen i k' hk'
    · intro i k' hk' hclosed
      rw [hget] at hk'
      split at hk'
      · cases hk'
        rw [hfrozen] at hclosed
        cases hclosed
      · exact hc.closed i k' hk' hclosed
    · intro i hi
      obtain rfl : id = i := Option.some.inj (hid.symm.trans hi)
      exact ⟨k, b, by rw [hget, if_pos rfl], hb, ht⟩
  · intro i k' hk' hclosed
    rw [hget, if_neg]
    · exact hk'
    · rintro rfl
      have hopen := (hc.frozen i k' hk').mpr hid
      rw [hclosed] at hopen
      cases hopen

/-- A notification has been added to the open class `k`, which transcribes a body again. -/
def Appends (k : ClassInfo) (cmd : Command) (c c' : Compilation) : Prop :=
  ∃ k' b method returned,
    c' = { c with table := c.table.setClass k', method := method, methodReturned := returned } ∧
    k'.id = k.id ∧ k'.name = k.name ∧ k'.frozen = k.frozen ∧ k'.commands = k.commands ++ [cmd] ∧
    k'.Transcribes b ∧ b.Tracks method returned

/-- A notification is recorded. If it is refused, nothing has changed. -/
theorem ends_record_appends (hc : c.WellRecorded) {k : ClassInfo} (hid : c.recording = some k.id)
    (hk : c.table.classes[k.id]? = some k) (hclass : cmd.kind ≠ .endClass) :
    Ends (record k.id cmd) c (fun _ c' => Appends k cmd c c') fun _ c' => c' = c := by
  obtain ⟨k₀, b, hk₀, hb, ht⟩ := hc.opened k.id hid
  obtain rfl : k = k₀ := Option.some.inj (hk.symm.trans hk₀)
  apply (ends_record hk cmd).mono
  · rintro _ _ ⟨k', method, returned, -, hnotes, rfl⟩
    obtain ⟨b', hb', ht'⟩ := hnotes.transcribes hclass hb ht
    obtain ⟨hid', hname', hfrozen', -⟩ := hnotes.same
    exact ⟨_, b', method, returned, rfl, hid', hname', hfrozen', rfl, hb', ht'⟩
  · intro _ _ hf
    exact (hf ((hc.frozen k.id k hk).mpr hid)).1

theorem ends_record_evolves {id : Nat} (hid : c.recording = some id)
    (hclass : cmd.kind ≠ .endClass) (hc : c.WellRecorded) :
    Ends (record id cmd) c (fun _ c' => c.Evolves c') fun _ c' => c.Evolves c' := by
  obtain ⟨k, rfl, hk, hfrozen⟩ := hc.exists_class hid
  apply (ends_record_appends hc hid hk hclass).mono
  · rintro _ _ ⟨k', b, method, returned, rfl, hid', hname', hfrozen', -, hb, ht⟩
    exact evolves_setClass hid hk hid' hname' (hfrozen'.trans hfrozen) hb ht
  · rintro _ _ rfl
    exact refl_of Evolves _

/-- A class is added under a new name and opened. -/
theorem evolves_declareClass (hnone : c.recording = none) {name : String}
    (hnew : c.table.classNames.find? name = none) : c.Evolves { c with
    table := { c.table with
      classes := c.table.classes ++ [{ id := c.table.classes.length, name }]
      classNames := c.table.classNames.insert name c.table.classes.length }
    recording := some c.table.classes.length
    method := none } := by
  intro hc
  have hget (i : Nat) (k : ClassInfo)
      (h : (c.table.classes ++ [({ id := c.table.classes.length, name } : ClassInfo)])[i]? =
        some k) : c.table.classes[i]? = some k ∧ i ≠ c.table.classes.length ∨
          k = { id := c.table.classes.length, name } ∧ i = c.table.classes.length := by
    rw [List.getElem?_append] at h
    split at h
    · next hi => exact .inl ⟨h, by omega⟩
    · next hi =>
      obtain ⟨hlt, hk⟩ := List.getElem?_eq_some_iff.mp h
      rw [List.length_singleton] at hlt
      rw [List.getElem_singleton] at hk
      exact .inr ⟨hk.symm, by omega⟩
  constructor
  · constructor
    · intro i k hk
      rcases hget i k hk with ⟨hold, -⟩ | ⟨rfl, rfl⟩
      · exact hc.ids i k hold
      · rfl
    · exact hc.names.concat (k := { id := _, name }) hnew
    · intro i k hk
      rcases hget i k hk with ⟨hold, hi⟩ | ⟨rfl, rfl⟩
      · have hclosed := hc.frozen i k hold
        rw [hnone] at hclosed
        simp only [reduceCtorEq, iff_false] at hclosed
        simp [hclosed, Ne.symm hi]
      · simp
    · intro i k hk hclosed
      rcases hget i k hk with ⟨hold, -⟩ | ⟨rfl, rfl⟩
      · exact hc.closed i k hold hclosed
      · cases hclosed
    · rintro i ⟨⟩
      exact ⟨_, .empty, List.getElem?_concat_length, .empty _ _, ClassBody.tracks_none _ _⟩
  · intro i k hk _
    obtain ⟨hlt, -⟩ := List.getElem?_eq_some_iff.mp hk
    change (c.table.classes ++ _)[i]? = some k
    rw [List.getElem?_append_left hlt]
    exact hk

theorem ends_beginClass (c : Compilation) (name : String) :
    Ends (beginClass name) c
      (fun _ c' => c.emitter.inFunction = false ∧ isReservedName name = false ∧
        c.table.Free name ∧ c' = { c with
          table := { c.table with
            classes := c.table.classes ++ [{ id := c.table.classes.length, name }]
            classNames := c.table.classNames.insert name c.table.classes.length }
          recording := some c.table.classes.length
          method := none })
      (Declined c) := by
  rw [beginClass, ends_bind]
  apply (ends_requireOutside _ c).mono
  · rintro _ c ⟨rfl, houtside⟩
    rw [ends_bind, onTable, ends_zoom, SymbolTable.declareClass, ends_bind, ends_require]
    refine ⟨fun hreserved => ?_, fun _ => declined _ _⟩
    rw [ends_bind]
    apply (SymbolTable.ends_checkProgramName name _).mono
    · rintro _ _ ⟨rfl, hfree⟩
      rw [ends_bind, ends_get, ends_bind, ends_set, ends_pure, ends_modify]
      exact ⟨houtside, hreserved, hfree, rfl⟩
    · rintro _ _ ⟨rfl, v, rfl⟩
      exact declined _ _
  · exact fun _ _ h => h

theorem ends_beginClass_evolves (hnone : c.recording = none) (name : String) :
    Ends (beginClass name) c (fun _ c' => c.Evolves c') fun _ c' => c.Evolves c' := by
  apply (ends_beginClass c name).mono
  · rintro _ _ ⟨-, -, hfree, rfl⟩
    exact evolves_declareClass hnone hfree.classes
  · rintro _ _ ⟨rfl, -⟩
    exact refl_of Evolves _

theorem evolves_freeze {k : ClassInfo} (hid : c.recording = some k.id)
    (hk : c.table.classes[k.id]? = some k) (hmethod : c.method = none) : c.Evolves { c with
      table := c.table.setClass { k with frozen := true }
      recording := none } := by
  intro hc
  have hget := SymbolTable.getElem?_setClass hk
    (show ({ k with frozen := true } : ClassInfo).id = k.id from rfl)
  constructor
  · constructor
    · intro i k' hk'
      rw [hget] at hk'
      split at hk'
      · next hi =>
        cases hk'
        exact hi.symm
      · exact hc.ids i k' hk'
    · exact hc.names.set hk rfl rfl
    · intro i k' hk'
      rw [hget] at hk'
      split at hk'
      · cases hk'
        simp
      · next hi =>
        have hclosed := hc.frozen i k' hk'
        rw [hid] at hclosed
        simp [hclosed, Ne.symm hi]
    · intro i k' hk' hclosed
      rw [hget] at hk'
      split at hk'
      · cases hk'
        obtain ⟨k₀, ⟨members, unfinished⟩, hk₀, hb, ht⟩ := hc.opened k.id hid
        obtain rfl : k = k₀ := Option.some.inj (hk.symm.trans hk₀)
        rw [hmethod] at ht
        obtain rfl : unfinished = none := ht.unfinished_eq_none
        exact ⟨members, hb.freeze⟩
      · exact hc.closed i k' hk' hclosed
    · intro i hi
      cases hi
  · intro i k' hk' hclosed
    rw [hget, if_neg]
    · exact hk'
    · rintro rfl
      have hopen := (hc.frozen _ k' hk').mpr hid
      rw [hclosed] at hopen
      cases hopen

theorem ends_endClass (c : Compilation) : Ends endClass c
    (fun _ c' => ∃ id k, c.recording = some id ∧ c.table.classes[id]? = some k ∧
      c.method = none ∧ c' = { c with
        table := c.table.setClass { k with frozen := true }
        recording := none })
    fun f c' => c' = c ∧ (c.WellRecorded → f.isRejection = true) := by
  rw [endClass, ends_bind, ends_get]
  cases hid : c.recording with
  | none => exact ends_reject.mpr ⟨rfl, fun _ => rfl⟩
  | some id =>
    have hsome (hc : c.WellRecorded) : c.table.classes[id]? ≠ none := by
      obtain ⟨k, b, hk, -⟩ := hc.opened id hid
      simp [hk]
    dsimp only
    cases hmethod : c.method with
    | some m =>
      rw [ends_bind, onTable, ends_zoom]
      apply (SymbolTable.ends_classAt_cases id c.table).mono
      · rintro k _ ⟨rfl, -⟩
        exact ends_reject.mpr ⟨rfl, fun _ => rfl⟩
      · rintro _ _ ⟨rfl, hnone⟩
        exact ⟨rfl, fun hc => absurd hnone (hsome hc)⟩
    | none =>
      rw [ends_bind, onTable, ends_zoom, SymbolTable.freeze, ends_bind]
      apply (SymbolTable.ends_classAt_cases id c.table).mono
      · rintro k _ ⟨rfl, hk⟩
        rw [ends_modify, ends_modify]
        exact ⟨id, k, rfl, hk, rfl, by simp [hmethod]⟩
      · rintro _ _ ⟨rfl, hnone⟩
        exact ⟨rfl, fun hc => absurd hnone (hsome hc)⟩

theorem ends_endClass_evolves (hc : c.WellRecorded) :
    Ends endClass c (fun _ c' => c.Evolves c') fun _ c' => c.Evolves c' := by
  apply (ends_endClass c).mono
  · rintro _ _ ⟨id, k, hid, hk, hmethod, rfl⟩
    obtain rfl := hc.ids id k hk
    exact evolves_freeze hid hk hmethod
  · rintro _ _ ⟨rfl, -⟩
    exact refl_of Evolves _

/-! ## Instances -/

theorem WellRecorded.kind_of_mem (hc : c.WellRecorded) {id : Nat} {k : ClassInfo}
    (hk : c.table.classes[id]? = some k) (hcmd : cmd ∈ k.commands) :
    cmd.kind ∉ [.beginClass, .endClass, .declareInstance, .endProgram] := by
  obtain ⟨b, hb⟩ : ∃ b, k.Transcribes b := by
    cases hfrozen : k.frozen with
    | true =>
      obtain ⟨members, hb⟩ := hc.closed id k hk hfrozen
      exact ⟨_, hb⟩
    | false =>
      obtain ⟨k', b, hk', hb, -⟩ := hc.opened id ((hc.frozen id k hk).mp hfrozen)
      obtain rfl : k = k' := Option.some.inj (hk.symm.trans hk')
      exact ⟨b, hb⟩
  rw [hb.commands] at hcmd
  exact Region.kind_of_after? b.after?_commands cmd hcmd

/-- A new instance is in the table, and the body of its class comes next. -/
def withInstance (c : Compilation) (name : String) (id : Nat) : Compilation :=
  { c with
    table := { c.table with
      instances := c.table.instances.insert name { name, classId := id }
      current := some name } }

/-- The name of an instance that is declared is new, and its class is closed. The instance becomes
the current one. -/
structure Instantiates (name className : String) (c : Compilation) (k : ClassInfo) : Prop where
  class_eq : c.table.class? className = some k
  frozen : k.frozen = true
  outside : c.emitter.inFunction = false
  unreserved : isReservedName name = false
  free : c.table.Free name

/-- An instance of a closed class is declared outside of all functions, and made the current
one. -/
theorem WellRecorded.ends_openInstance (hc : c.WellRecorded) (name className : String) :
    Ends (openInstance name className) c (fun body c' => ∃ k : ClassInfo,
      Instantiates name className c k ∧ k.commands = body ∧ c' = c.withInstance name k.id)
      (Declined c) := by
  rw [openInstance, ends_bind]
  apply (ends_requireOutside _ c).mono
  · rintro _ c ⟨rfl, houtside⟩
    rw [ends_bind, onTable, ends_zoom, SymbolTable.declareInstance, ends_bind,
      SymbolTable.lookupClass, ends_bind, ends_get]
    cases hid : c.table.classNames.find? className with
    | none => exact declined _ _
    | some id =>
      obtain ⟨k, hk, hname⟩ := (hc.names className id).mp hid
      obtain rfl := hc.ids id k hk
      have hclass := hc.class?_eq_some_iff.mpr ⟨hk, hname⟩
      dsimp only
      apply SymbolTable.ends_classAt hk
      rw [ends_bind, ends_require]
      refine ⟨fun hfrozen => ?_, fun _ => declined _ _⟩
      rw [ends_bind, ends_require]
      refine ⟨fun hreserved => ?_, fun _ => declined _ _⟩
      rw [ends_bind]
      apply (SymbolTable.ends_checkProgramName name _).mono
      · rintro _ _ ⟨rfl, hfree⟩
        rw [ends_bind, ends_modify, ends_pure, ends_bind, onTable, ends_zoom]
        apply SymbolTable.ends_classAt (t := { c.table with
          instances := c.table.instances.insert name { name, classId := k.id } }) hk
        rw [ends_bind, ends_modify, ends_pure]
        exact ⟨k, ⟨hclass, hfrozen, houtside, hreserved, hfree⟩, rfl, rfl⟩
      · rintro _ _ ⟨rfl, v, rfl⟩
        exact declined _ _
  · exact fun _ _ h => h

/-- The body that is run for an instance is that of a class, and ends outside of its methods. -/
theorem WellRecorded.after?_of_class? (hc : c.WellRecorded) {name className : String}
    {k : ClassInfo} (h : Instantiates name className c k) :
    Region.outside.after? (k.commands.map Command.kind) = some .outside := by
  obtain ⟨members, hb⟩ := hc.closed _ k (hc.getElem?_of_class? h.class_eq) h.frozen
  rw [hb.commands]
  exact ClassBody.after?_commands _

end Compilation

end MkCompiler
