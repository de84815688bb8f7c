import MkCompiler.Proofs.Handling
import MkCompiler.Proofs.Safety

/-!
# Going on behind refusals

A stream can be handled to its end even if some of its notifications are refused, since a
compilation stays in order behind a refusal. Main result: the compiler breaks one of its own
invariants in a single place, the declaration of a field while the body of a class is run for an
instance whose name is empty. A run that stops at the first refusal comes to no other fault either
than that a notification takes more operands than any memory holds.
-/

namespace MkCompiler.Compilation

open MkCompiler.Action

variable {α : Type} {S : Command → Prop} {owner : Option (String × Nat)} {orderly : Prop}
  {c c' : Compilation} {cmd : Command}

section Lines

variable {Q : α → Compilation → Prop} {E : Stop → Compilation → Prop}

theorem ends_locate {line : Int} {x : Action Compilation α} :
    Ends (locate line x) c Q E ↔ Ends x c Q fun f c' => E ⟨f, line⟩ c' := by
  unfold Ends locate
  cases x c <;> exact Iff.rfl

theorem ends_leavingInstance {x : EStateM Stop Compilation α} :
    Ends (leavingInstance x) c Q E ↔
      Ends x c (fun a c' => Q a { c' with table := c'.table.setInstance none })
        fun stop c' => E stop { c' with table := c'.table.setInstance none } := by
  unfold Ends leavingInstance
  cases x c <;> exact Iff.rfl

theorem ends_replay_append {front back : List Command}
    {Q : Unit → Compilation → Prop} : Ends (replay (front ++ back)) c Q E ↔
      Ends (replay front) c (fun _ c' => Ends (replay back) c' Q E) E := by
  induction front generalizing c with
  | nil => exact Iff.rfl
  | cons cmd front ih => simp only [List.cons_append, replay, ends_bind, ih]

theorem dispatch_eq_construct (hkind : cmd.kind ≠ .declareInstance) :
    dispatch cmd = locate cmd.line (construct cmd) := by
  rw [dispatch]
  split
  · next h => exact absurd h hkind
  · rfl

end Lines

theorem Sound.leaveInstance (h : c.Sound S owner orderly) :
    ({ c with table := c.table.setInstance none } : Compilation).Sound S none orderly where
  built := h.built.tail (.current none (by simp))
  records := h.records
  emitter := h.emitter
  stack := h.stack
  place := rfl
  function := h.function

/-! ## Classes -/

section Classes

variable {E : Failure → Compilation → Prop} {id : Nat}

theorem stays_record (he : Continues S owner E) (hc : c.Sound S owner orderly) (hcmd : S cmd)
    (hid : c.recording = some id) (hclass : cmd.kind ≠ .endClass) :
    StaysSound S owner orderly (record id cmd) c E := by
  obtain ⟨k, rfl, hk, hfrozen⟩ := hc.records.exists_class hid
  apply ((ends_record hk cmd).and (ends_record_evolves hid hclass hc.records)).mono
  · rintro _ _ ⟨⟨k', method, returned, -, hnotes, rfl⟩, hevolves⟩
    have hbuilt := hc.built.tail (.amend hk hnotes.amends fun h => hnotes.sound h hcmd)
    exact ⟨hbuilt, (hevolves hc.records).1, hc.emitter, hc.stack, hc.place, hc.function⟩
  · rintro f c' ⟨hf, -⟩
    exact of_refused he hc (hf hfrozen)

theorem stays_beginClass (he : Continues S owner E) (hc : c.Sound S owner orderly) (name : String)
    (hnone : c.recording = none) (hdisorder : ¬orderly → E (.fault .absentFunction) c) :
    StaysSound S owner orderly (beginClass name) c E := by
  apply ((ends_beginClass c name).and (ends_beginClass_evolves hnone name)).mono
  · rintro _ _ ⟨⟨-, hreserved, hfree, rfl⟩, hevolves⟩
    have hbuilt := hc.built.tail (.class hreserved hfree.classes hfree.instances hfree.globals)
    exact ⟨hbuilt, (hevolves hc.records).1, hc.emitter, hc.stack, hc.place, hc.function⟩
  · rintro f c' ⟨hf, -⟩
    exact of_declined he hc hdisorder hf

theorem stays_endClass (he : Continues S owner E) (hc : c.Sound S owner orderly) :
    StaysSound S owner orderly endClass c E := by
  apply ((ends_endClass c).and (ends_endClass_evolves hc.records)).mono
  · rintro _ _ ⟨⟨id, k, -, hk, -, rfl⟩, hevolves⟩
    obtain rfl := hc.records.ids id k hk
    have hamends : k.Amends { k with frozen := true } :=
      ⟨rfl, rfl, fun _ => rfl, fun _ _ h => .inl h, fun _ _ h => .inl h⟩
    have hbuilt := hc.built.tail (.amend hk hamends fun h => ⟨h.methods, h.nodup, h.commands⟩)
    exact ⟨hbuilt, (hevolves hc.records).1, hc.emitter, hc.stack, hc.place, hc.function⟩
  · rintro f _ ⟨⟨rfl, hf⟩, -⟩
    exact he _ _ (Failure.isReturned_of_isRejection (hf hc.records)) hc.disorderly

theorem stays_endProgram (he : Continues S owner E) (hc : c.Sound S owner orderly)
    (hprogram : c.program = none) : StaysSound S owner orderly endProgram c E := by
  rw [endProgram, StaysSound, ends_bind, ends_get]
  cases c.function with
  | some f => exact ends_rejected he hc _
  | none =>
    have hemitter := hc.emitter
    rw [hprogram] at hemitter
    dsimp only
    rw [ends_bind, onEmitter, ends_zoom]
    apply (Emitter.ends_finish hemitter).mono
    · intro lines e h
      exact ⟨hc.built, hc.records, h, hc.stack, hc.place, hc.function⟩
    · intro f e h
      apply he _ _ (Failure.isReturned_of_isRejection h.1)
      refine { hc.disorderly with emitter := ?_ }
      rw [hprogram]
      exact h.2

end Classes

/-! ## Instances -/

section Instances

variable {E : Failure → Compilation → Prop}

theorem ends_openInstance (he : Continues S none E) (hc : c.Sound S none orderly) {name : String}
    (hname : Command.Instantiates S name) (className : String)
    (hdisorder : ¬orderly → E (.fault .absentFunction) c) :
    Ends (openInstance name className) c (fun body c' => ∃ k : ClassInfo,
      Instantiates name className c k ∧ k.commands = body ∧ c' = c.withInstance name k.id ∧
        c'.Sound S (some (name, k.id)) orderly ∧ c'.table.classes[k.id]? = some k) E := by
  apply (hc.records.ends_openInstance name className).mono
  · rintro _ _ ⟨k, hk, rfl, rfl⟩
    have hclass := hc.records.getElem?_of_class? hk.class_eq
    have hbuilt := hc.built.tail (.instance hclass hk.frozen hk.unreserved hk.free.classes
      hk.free.instances hk.free.globals hname)
    refine ⟨k, hk, rfl, rfl, ⟨hbuilt.tail (.current (some name) (by simp)), hc.records, hc.emitter,
      hc.stack, ?_, hc.function⟩, hclass⟩
    simp [SymbolTable.place, SymbolTable.instance?, withInstance]
  · exact fun _ _ => of_declined he hc hdisorder

theorem ends_replayed {name : String} {id : Nat} {k : ClassInfo}
    (hkind : cmd.kind ∉ [.beginClass, .endClass, .declareInstance, .endProgram])
    (hc : c.Sound S (some (name, id)) orderly) (hk : c.table.classes[id]? = some k)
    (hcmd : cmd ∈ k.commands) :
    StaysSound S (some (name, id)) orderly (construct cmd) c fun f c' =>
      Admits orderly (some (name, id)) cmd c f ∧ c'.Sound S (some (name, id)) False := by
  apply ends_construct hkind hc
  rintro _ _ k' ⟨⟩ hk' hfunction
  obtain rfl : k = k' := Option.some.inj (hk.symm.trans hk')
  have hsound := hc.table.classes k (List.mem_of_getElem? hk)
  rw [hsound.find?_method hcmd hfunction]
  rfl

/-- The body of a class is run in order for an instance. If it fails, the notifications in front of
the one that fails have been compiled. -/
theorem ends_replay {name : String} {id : Nat} {k : ClassInfo} {body : List Command}
    {r r' : Region} (hplace : r.after? (body.map Command.kind) = some r')
    (hc : c.Sound S (some (name, id)) orderly) (hk : c.table.classes[id]? = some k)
    (hbody : ∀ cmd ∈ body, cmd ∈ k.commands) :
    Ends (replay body) c (fun _ c' => c'.Sound S (some (name, id)) orderly) fun stop c' =>
      c'.Sound S (some (name, id)) False ∧ ∃ done cmd rest c₁, body = done ++ cmd :: rest ∧
        replay done c = .ok () c₁ ∧ construct cmd c₁ = .error stop.failure c' ∧
        Admits orderly (some (name, id)) cmd c₁ stop.failure := by
  induction body generalizing c r with
  | nil => exact hc
  | cons cmd rest ih =>
    obtain ⟨hkind, r₁, -, hplace⟩ := Region.after?_cons_eq_some hplace
    have hkinds := hkind
    simp only [List.mem_cons, List.not_mem_nil, or_false, not_or] at hkinds
    obtain ⟨hbegin, hend, -, hprogram⟩ := hkinds
    have hconstruct := ends_replayed hkind hc hk (hbody cmd (by simp))
    have hrun := hconstruct.ensures (along_construct hbegin hend hprogram c)
    rw [replay, ends_bind]
    cases hresult : construct cmd c with
    | ok _ c₁ =>
      obtain ⟨hc₁, halong⟩ := hrun.of_ok hresult
      rw [ends_of_ok (locate_eq_ok.mpr hresult)]
      apply (ih hplace hc₁ (halong.classes ▸ hk) fun cmd' h => hbody cmd' (by simp [h])).mono
      · intro _ c' h
        exact h
      · rintro stop c' ⟨hc', done, cmd', rest', c₂, rfl, hdone, hfails, hadmits⟩
        refine ⟨hc', cmd :: done, cmd', rest', c₂, rfl, ?_, hfails, hadmits⟩
        exact bind_eq_ok.mpr ⟨(), c₁, locate_eq_ok.mpr hresult, hdone⟩
    | error f c₁ =>
      obtain ⟨hadmits, hc₁⟩ := hrun.of_error hresult
      have hlocated : locate cmd.line (construct cmd) c = .error ⟨f, cmd.line⟩ c₁ := by
        rw [locate, hresult]
      rw [ends_of_error hlocated]
      exact ⟨hc₁, [], cmd, rest, c, rfl, rfl, hresult, hadmits⟩

end Instances

/-! ## Handling -/

/-- The notification declares an instance without a name, and running the body of its class breaks
the compiler's invariant on fields: a recorded notification in it declares a variable. -/
def DeclaresUnnamedField (cmd : Command) (c : Compilation) (e : InternalError) : Prop :=
  c.recording = none ∧ cmd.kind = .declareInstance ∧ cmd.name = "" ∧
    ∃ body c₁ done field rest c₂ c₃, openInstance "" cmd.target c = .ok body c₁ ∧
      body = done ++ field :: rest ∧ replay done c₁ = .ok () c₂ ∧
      construct field c₂ = .error (.internal e) c₃ ∧ field.kind = .declareVariable ∧
      e = .fieldWithoutInstance field.name

/-- The notification takes more operands than any memory holds, or declares an instance and comes to
a recorded notification that does so when the body of the class is run. -/
def ExhaustsMemory (cmd : Command) (c : Compilation) : Prop :=
  c.program = none ∧ c.recording = none ∧ (TakesTooMany cmd c ∨
    cmd.kind = .declareInstance ∧ ∃ body c₁ done inner rest c₂,
      openInstance cmd.name cmd.target c = .ok body c₁ ∧ body = done ++ inner :: rest ∧
      replay done c₁ = .ok () c₂ ∧ TakesTooMany inner c₂)

/-- How the handling of a notification can fail. -/
inductive HandlingFails (orderly : Prop) (cmd : Command) (c : Compilation) : Failure → Prop
  | returned {f : Failure} (h : f.isReturned = true) : HandlingFails orderly cmd c f
  | memory (h : ExhaustsMemory cmd c) : HandlingFails orderly cmd c (.fault .memory)
  | disorder (h : ¬orderly) : HandlingFails orderly cmd c (.fault .absentFunction)
  | field {e : InternalError} (h : DeclaresUnnamedField cmd c e) :
      HandlingFails orderly cmd c (.internal e)

theorem ends_declareInstance (hc : c.Sound S none orderly) (hcmd : S cmd)
    (hprogram : c.program = none) (hnone : c.recording = none)
    (hkind : cmd.kind = .declareInstance) :
    Ends (declareInstance cmd.line cmd.name cmd.target) c
      (fun _ c' => c'.Sound S none orderly) fun stop c' =>
        HandlingFails orderly cmd c stop.failure ∧ c'.Sound S none False := by
  have he : Continues S none fun f c' =>
      HandlingFails orderly cmd c f ∧ c'.Sound S none False :=
    fun f c' hf hc' => ⟨.returned hf, hc'⟩
  have hopen := ends_openInstance he hc ⟨cmd, hcmd, hkind, rfl⟩ cmd.target
    fun h => ⟨.disorder h, hc.disorderly⟩
  rw [declareInstance, ends_bind, ends_locate]
  cases hresult : openInstance cmd.name cmd.target c with
  | error f c₁ =>
    rw [ends_of_error hresult]
    exact hopen.of_error hresult
  | ok body c₁ =>
    obtain ⟨k, -, hbody, -, hc₁, hk⟩ := hopen.of_ok hresult
    obtain ⟨-, hplace⟩ := ensures_openInstance _ _ hc.records body c₁ hresult
    rw [ends_of_ok hresult, ends_leavingInstance]
    apply (ends_replay hplace hc₁ hk (by simp [hbody])).mono
    · intro _ c₂ hc₂
      exact hc₂.leaveInstance
    · rintro ⟨f, line⟩ c₂ ⟨hc₂, done, field, rest, c₃, hsplit, hdone, hfails, hadmits⟩
      refine ⟨?_, hc₂.leaveInstance⟩
      dsimp only at hfails hadmits ⊢
      cases hadmits with
      | returned h => exact .returned h
      | memory h =>
        exact .memory ⟨hprogram, hnone, .inr ⟨hkind, body, c₁, done, field, rest, c₃, hresult,
          hsplit, hdone, h⟩⟩
      | disorder h => exact .disorder h
      | field howner hvariable =>
        have hempty : cmd.name = "" := congrArg Prod.fst (Option.some.inj howner)
        rw [hempty] at hresult
        exact .field ⟨hnone, hkind, hempty, body, c₁, done, field, rest, c₃, c₂, hresult, hsplit,
          hdone, hfails, hvariable, rfl⟩

/-- Handling a notification leaves the compilation in order, whether it fails or not. -/
theorem ends_handle (hc : c.Sound S none orderly) (hcmd : S cmd) :
    Ends (handle cmd) c (fun _ c' => c'.Sound S none orderly) fun stop c' =>
      HandlingFails orderly cmd c stop.failure ∧ c'.Sound S none False := by
  have he : Continues S none fun f c' =>
      HandlingFails orderly cmd c f ∧ c'.Sound S none False :=
    fun f c' hf hc' => ⟨.returned hf, hc'⟩
  rw [handle, ends_bind, ends_get, ends_ite]
  refine ⟨fun _ => ⟨.returned rfl, hc.disorderly⟩, fun hended => ?_⟩
  have hprogram : c.program = none := by
    simpa [ended] using hended
  cases hid : c.recording with
  | some id =>
    dsimp only
    rw [ends_ite]
    constructor
    · intro hkind
      rw [dispatch, hkind]
      dsimp only
      rw [ends_locate, construct, hkind]
      exact stays_endClass he hc
    · intro hkind
      rw [ends_locate]
      exact stays_record he hc hcmd hid hkind
  | none =>
    by_cases hplain : cmd.kind ∉ [.beginClass, .endClass, .declareInstance, .endProgram]
    · have hkind : cmd.kind ≠ .declareInstance := by
        intro hkind
        simp [hkind] at hplain
      dsimp only
      rw [dispatch_eq_construct hkind, ends_locate]
      apply (ends_construct hplain hc (by simp)).mono
      · intro _ c' hc'
        exact hc'
      · rintro f c' ⟨hadmits, hc'⟩
        refine ⟨?_, hc'⟩
        cases hadmits with
        | returned h => exact .returned h
        | memory h => exact .memory ⟨hprogram, hid, .inl h⟩
        | disorder h => exact .disorder h
        | field howner => cases howner
    · simp only [List.mem_cons, List.not_mem_nil, or_false, Decidable.not_not] at hplain
      dsimp only
      rcases hplain with hkind | hkind | hkind | hkind <;> rw [dispatch, hkind]
      · dsimp only
        rw [ends_locate, construct, hkind]
        exact stays_beginClass he hc _ hid fun h => ⟨.disorder h, hc.disorderly⟩
      · dsimp only
        rw [ends_locate, construct, hkind]
        exact stays_endClass he hc
      · exact ends_declareInstance hc hcmd hprogram hid hkind
      · dsimp only
        rw [ends_locate, construct, hkind]
        exact stays_endProgram he hc hprogram

/-- Handles notifications in turn and goes on behind those that are refused. Only a failure of the
compiler itself stops it. -/
def pursue : List Command → EStateM Stop Compilation Unit
  | [] => pure ()
  | cmd :: rest => fun c =>
    match handle cmd c with
    | .ok _ c' => pursue rest c'
    | .error stop c' => if stop.failure.isReturned then pursue rest c' else .error stop c'

theorem pursue_append {front rest : List Command} (h : pursue front c = .ok () c') :
    pursue (front ++ rest) c = pursue rest c' := by
  induction front generalizing c with
  | nil =>
    cases h
    rfl
  | cons cmd front ih =>
    rw [pursue] at h
    rw [List.cons_append, pursue]
    dsimp only at h ⊢
    cases hcmd : handle cmd c with
    | ok _ c₁ =>
      rw [hcmd] at h
      exact ih h
    | error stop c₁ =>
      rw [hcmd] at h
      dsimp only at h ⊢
      split at h
      · next hreturned =>
        rw [if_pos hreturned]
        exact ih h
      · cases h

/-- A run that goes on behind refusals stops at a notification whose handling fails otherwise. -/
theorem exists_of_pursue_error {commands : List Command} {stop : Stop}
    (hc : c.Sound S none False) (hS : ∀ cmd ∈ commands, S cmd)
    (h : pursue commands c = .error stop c') :
    ∃ front cmd rest c₀, commands = front ++ cmd :: rest ∧ pursue front c = .ok () c₀ ∧
      stop.failure.isReturned = false ∧ HandlingFails False cmd c₀ stop.failure := by
  induction commands generalizing c with
  | nil => cases h
  | cons cmd rest ih =>
    have hrun := ends_handle hc (hS cmd (by simp))
    have hrest : ∀ cmd' ∈ rest, S cmd' := fun cmd' hcmd' => hS cmd' (by simp [hcmd'])
    -- The run goes on from a state that is in order.
    have hon {c₁ : Compilation} (hc₁ : c₁.Sound S none False)
        (hfirst : pursue [cmd] c = .ok () c₁) (h : pursue rest c₁ = .error stop c') :
        ∃ front cmd' rest' c₀, cmd :: rest = front ++ cmd' :: rest' ∧
          pursue front c = .ok () c₀ ∧ stop.failure.isReturned = false ∧
          HandlingFails False cmd' c₀ stop.failure := by
      obtain ⟨front, cmd', rest', c₀, rfl, hfront, hreturned, hfails⟩ := ih hc₁ hrest h
      refine ⟨cmd :: front, cmd', rest', c₀, rfl, ?_, hreturned, hfails⟩
      rw [← List.singleton_append, pursue_append hfirst]
      exact hfront
    rw [pursue] at h
    dsimp only at h
    cases hcmd : handle cmd c with
    | ok _ c₁ =>
      rw [hcmd] at h
      apply hon (hrun.of_ok hcmd) _ h
      rw [pursue]
      dsimp only
      rw [hcmd]
      rfl
    | error stop' c₁ =>
      obtain ⟨hfails, hc₁⟩ := hrun.of_error hcmd
      rw [hcmd] at h
      dsimp only at h
      split at h
      · next hreturned =>
        apply hon hc₁ _ h
        rw [pursue]
        dsimp only
        rw [hcmd]
        dsimp only
        rw [if_pos hreturned]
        rfl
      · next hreturned =>
        cases h
        exact ⟨[], cmd, rest, c, rfl, rfl, eq_false_of_ne_true hreturned, hfails⟩

theorem Sound.of_handled? {commands : List Command} (hc : c.Sound S none True)
    (hS : ∀ cmd ∈ commands, S cmd) (h : handled? commands c = some c') : c'.Sound S none True := by
  induction commands generalizing c with
  | nil =>
    cases h
    exact hc
  | cons cmd rest ih =>
    obtain ⟨c₁, hcmd, hrest⟩ := handled?_cons.mp h
    have hc₁ := (ends_handle hc (hS cmd (by simp))).of_ok hcmd
    exact ih hc₁ (fun cmd' hcmd' => hS cmd' (by simp [hcmd'])) hrest

/-! ## Memory -/

theorem ends_popMany_of_exceedsMemory {count : Int} (h : ExceedsMemory count c) :
    Ends (popMany count) c (fun _ _ => False) fun f _ => f = .fault .memory := by
  obtain ⟨hlimit, hstack⟩ := h
  have hpositive : ¬count < 0 := by omega
  rw [popMany, ends_bind, ends_get, if_neg hpositive, if_neg (Int.not_le.mpr hstack),
    if_pos hlimit, ends_throw]

/-- Operands are taken before anything else is done. -/
theorem ends_construct_of_takesTooMany (h : TakesTooMany cmd c) :
    Ends (construct cmd) c (fun _ _ => False) fun f _ => f = .fault .memory := by
  obtain ⟨hkind, hmemory⟩ := h
  have hpop {f : List Operand → Action Compilation Unit} :
      Ends (popMany cmd.count >>= f) c (fun _ _ => False) fun f _ => f = .fault .memory := by
    rw [ends_bind]
    exact (ends_popMany_of_exceedsMemory hmemory).mono (fun _ _ => False.elim) fun _ _ => id
  simp only [List.mem_cons, List.not_mem_nil, or_false] at hkind
  unfold construct
  rcases hkind with hkind | hkind | hkind <;> rw [hkind] <;> exact hpop

theorem ends_handle_of_exhaustsMemory (h : ExhaustsMemory cmd c) :
    Ends (handle cmd) c (fun _ _ => False) fun stop _ => stop.failure = .fault .memory := by
  obtain ⟨hprogram, hrecording, hfails⟩ := h
  have hended : ¬c.ended = true := by simp [ended, hprogram]
  rw [handle, ends_bind, ends_get, if_neg hended, hrecording]
  dsimp only
  rcases hfails with htaken | ⟨hkind, body, c₁, done, inner, rest, c₂, hopen, rfl, hdone, htaken⟩
  · have hkind : cmd.kind ≠ .declareInstance := by
      intro hkind
      simpa [hkind] using htaken.1
    rw [dispatch_eq_construct hkind, ends_locate]
    exact ends_construct_of_takesTooMany htaken
  · rw [dispatch, hkind]
    dsimp only
    rw [declareInstance, ends_bind, ends_locate, ends_of_ok hopen, ends_leavingInstance,
      ends_replay_append, ends_of_ok hdone, replay, ends_bind, ends_locate]
    exact (ends_construct_of_takesTooMany htaken).mono (fun _ _ => False.elim) fun _ _ => id

/-- A whole program comes to a fault where the handling of one of its notifications does. -/
theorem compile_eq_fault_iff {file : String} {symbols : RuntimeSymbols} {commands : List Command}
    {cause : Fault} : compile file commands symbols = .error (.fault cause) ↔
      ∃ front cmd rest c₀ line c', commands = front ++ cmd :: rest ∧
        handled? front (start file symbols) = some c₀ ∧
        handle cmd c₀ = .error ⟨.fault cause, line⟩ c' := by
  constructor
  · intro h
    unfold compile at h
    cases hrun : handleAll 1 commands (start file symbols) with
    | ok _ c =>
      rw [hrun] at h
      dsimp only at h
      split at h <;> cases h
    | error failed c' =>
      obtain ⟨position, cmd, failure, line⟩ := failed
      obtain ⟨front, rest, c₀, hsplit, hfront, hcmd⟩ := exists_of_handleAll_error hrun
      rw [hrun] at h
      cases failure with
      | rejected _ | stream _ | internal _ => cases h
      | fault _ =>
        cases h
        exact ⟨front, cmd, rest, c₀, line, c', hsplit, hfront, hcmd⟩
  · rintro ⟨front, cmd, rest, c₀, line, c', rfl, hfront, hcmd⟩
    have hrun : handleAll 1 (front ++ cmd :: rest) (start file symbols) =
        .error (1 + front.length, cmd, ⟨.fault cause, line⟩) c' := by
      rw [handleAll_append hfront, handleAll]
      dsimp only
      rw [hcmd]
    rw [compile, hrun]

/-- A compilation that has refused nothing comes to a fault exactly if the memory is exhausted. -/
theorem Sound.handle_eq_fault_iff (hc : c.Sound S none True) (hcmd : S cmd) {cause : Fault} :
    (∃ line c', handle cmd c = .error ⟨.fault cause, line⟩ c') ↔
      cause = .memory ∧ ExhaustsMemory cmd c := by
  constructor
  · rintro ⟨line, c', hfails⟩
    cases ((ends_handle hc hcmd).of_error hfails).1 with
    | returned hreturns => cases hreturns
    | memory hmemory => exact ⟨rfl, hmemory⟩
    | disorder hdisorder => exact absurd trivial hdisorder
  · rintro ⟨rfl, hmemory⟩
    have hends := ends_handle_of_exhaustsMemory hmemory
    cases hrun : handle cmd c with
    | ok _ c' => exact (hends.of_ok hrun).elim
    | error stop c' =>
      obtain ⟨failure, line⟩ := stop
      obtain rfl : failure = .fault .memory := hends.of_error hrun
      exact ⟨line, c', rfl⟩

/-- The compiler's own invariants hold whatever it is handed, and also when it goes on behind
notifications that it has refused. The one exception is a field of an instance without a name, and
the failure occurs while the body of its class is run. If the compiler stops at the first failure,
as for a whole program, it comes to a fault only if a notification takes more operands than any
memory holds, and then always. -/
theorem internal_error_only_in_unnamed_instance (file : String) (symbols : RuntimeSymbols)
    (commands : List Command) :
    (∀ e line c, pursue commands (start file symbols) = .error ⟨.internal e, line⟩ c →
      ∃ front cmd rest c₀, commands = front ++ cmd :: rest ∧
        pursue front (start file symbols) = .ok () c₀ ∧ DeclaresUnnamedField cmd c₀ e) ∧
    ∀ cause, compile file commands symbols = .error (.fault cause) ↔
      cause = .memory ∧ ∃ front cmd rest c₀, commands = front ++ cmd :: rest ∧
        handled? front (start file symbols) = some c₀ ∧ ExhaustsMemory cmd c₀ := by
  have hstart := sound_start (S := (· ∈ commands)) file symbols
  constructor
  · intro e line c h
    obtain ⟨front, cmd, rest, c₀, hsplit, hfront, hreturned, hfails⟩ :=
      exists_of_pursue_error hstart.disorderly (fun _ hcmd => hcmd) h
    refine ⟨front, cmd, rest, c₀, hsplit, hfront, ?_⟩
    cases hfails with
    | returned hreturns => cases hreturns
    | field hfield => exact hfield
  · intro cause
    have hfault {front rest : List Command} {cmd : Command} {c₀ : Compilation}
        (hsplit : commands = front ++ cmd :: rest)
        (hfront : handled? front (start file symbols) = some c₀) :
        (∃ line c', handle cmd c₀ = .error ⟨.fault cause, line⟩ c') ↔
          cause = .memory ∧ ExhaustsMemory cmd c₀ :=
      (hstart.of_handled? (fun _ h => hsplit ▸ List.mem_append_left _ h) hfront).handle_eq_fault_iff
        (by simp [hsplit])
    rw [compile_eq_fault_iff]
    constructor
    · rintro ⟨front, cmd, rest, c₀, line, c', hsplit, hfront, hcmd⟩
      obtain ⟨hcause, hmemory⟩ := (hfault hsplit hfront).mp ⟨line, c', hcmd⟩
      exact ⟨hcause, front, cmd, rest, c₀, hsplit, hfront, hmemory⟩
    · rintro ⟨hcause, front, cmd, rest, c₀, hsplit, hfront, hmemory⟩
      obtain ⟨line, c', hcmd⟩ := (hfault hsplit hfront).mpr ⟨hcause, hmemory⟩
      exact ⟨front, cmd, rest, c₀, line, c', hsplit, hfront, hcmd⟩

/-- A print without operand, which is refused, and then an instance without a name of a class that
declares a method and a field behind it. -/
def unnamedInstanceStream : List Command :=
  [{ kind := .print },
    { kind := .beginClass, name := "P" },
    { kind := .declareFunction, name := "one", type := .int },
    { kind := .int, text := "1" }, { kind := .ret }, { kind := .endFunction },
    { kind := .declareVariable, name := "n", line := 7 },
    { kind := .endClass },
    { kind := .declareInstance, name := "", target := "P" }]

/-- The body of the class asks for more operands than any memory holds. It is recorded, and fails
when it is run for an instance. -/
def exhaustingStream : List Command :=
  [{ kind := .beginClass, name := "P" },
    { kind := .declareArray, name := "a", type := .int, count := operandLimit + 1, line := 2 },
    { kind := .endClass },
    { kind := .declareInstance, name := "p", target := "P" }]

theorem internal_error_in_unnamed_instance_sample :
    (∃ c, pursue unnamedInstanceStream (start "sample.mk" .standard) =
        .error ⟨.internal (.fieldWithoutInstance "n"), 7⟩ c ∧
      ∃ front cmd rest c₀, unnamedInstanceStream = front ++ cmd :: rest ∧
        pursue front (start "sample.mk" .standard) = .ok () c₀ ∧
        DeclaresUnnamedField cmd c₀ (.fieldWithoutInstance "n")) ∧
    compile "sample.mk" exhaustingStream .standard = .error (.fault .memory) ∧
      ∃ front cmd rest c₀, exhaustingStream = front ++ cmd :: rest ∧
        handled? front (start "sample.mk" .standard) = some c₀ ∧ ExhaustsMemory cmd c₀ := by
  have hstop : (match pursue unnamedInstanceStream (start "sample.mk" .standard) with
      | .ok _ _ => none
      | .error stop _ => some stop) = some ⟨.internal (.fieldWithoutInstance "n"), 7⟩ := by
    decide +kernel
  have hfault : compile "sample.mk" exhaustingStream .standard = .error (.fault .memory) := by
    decide +kernel
  refine ⟨?_, hfault, ((internal_error_only_in_unnamed_instance _ _ _).2 _ |>.mp hfault).2⟩
  cases hrun : pursue unnamedInstanceStream (start "sample.mk" .standard) with
  | ok _ c =>
    rw [hrun] at hstop
    cases hstop
  | error stop c =>
    rw [hrun] at hstop
    cases hstop
    exact ⟨c, rfl, (internal_error_only_in_unnamed_instance _ _ _).1 _ _ c hrun⟩

end MkCompiler.Compilation
