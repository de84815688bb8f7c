import MkCompiler.Proofs.Instantiation

/-!
# What recording overlooks

Not every mistake of a declaration is found while its class is recorded. Nothing is asked of the type
and the length of an array, and the names inside of a method are not compared. Main result: the run of
a closed class for an instance refuses a declaration for what it declares exactly if it is an array
of another type than the numbers or without a length, a method two of whose parameters have one
name, or a variable of a method that has a parameter or another variable of that name.
-/

namespace MkCompiler

open MkCompiler.Action

namespace Command

/-- The names of the parameters and variables of the method that is open behind a notification. -/
def localNames (names? : Option (List String)) (cmd : Command) : Option (List String) :=
  match cmd.kind with
  | .declareFunction => some (cmd.params.map Param.name)
  | .declareVariable => names?.map (· ++ [cmd.name])
  | .endFunction => none
  | _ => names?

/-- A declaration with a mistake that is not looked for when it is recorded behind a part of the
body of its class. -/
def Overlooked (front : List Command) (cmd : Command) : Prop :=
  match cmd.kind with
  | .declareFunction => ¬(cmd.params.map Param.name).Nodup
  | .declareVariable => ∃ names, front.foldl localNames none = some names ∧ cmd.name ∈ names
  | .declareArray => ¬cmd.type.IsScalar ∨ cmd.length < 0 ∨ cmd.length = 0 ∧ cmd.count = 0
  | _ => False

end Command

/-! ## The names of a method -/

namespace SymbolTable

variable {inside : Bool} {t t' : SymbolTable} {cmd : Command}

theorem Effect.not_mem_localNames (h : t.Effect inside cmd t') (hinside : t.locals.isSome = inside)
    (hkind : cmd.kind = .declareVariable) {names : List String} (hnames : t.localNames = some names) :
    cmd.name ∉ names := by
  cases h with
  | declare _ hdeclares _ hname => exact hname ▸ hdeclares.not_mem_localNames hinside hnames
  | enter hother | leave hother | array hother | quiet hother | assign hother => simp [hkind] at hother

/-- Apart from one that opens a method, a notification adds at most its own name. -/
theorem Effect.localNames_eq (h : t.Effect inside cmd t') (hk : t.Keyed)
    (hinside : t.locals.isSome = inside) (hkind : cmd.kind ≠ .declareFunction) :
    t'.localNames = cmd.localNames t.localNames := by
  have hnone (houtside : inside = false) : t.locals = none := by simpa [houtside] using hinside
  cases h with
  | quiet hquiet hsame =>
    have hsame' : t'.localNames = t.localNames := by rw [localNames, hsame.locals, localNames]
    rw [hsame', Command.localNames]
    split <;> simp_all
  | @assign b x hassign hb hvariable _ type =>
    have hnames : cmd.localNames t.localNames = t.localNames := by
      simp only [List.mem_cons, List.not_mem_nil, or_false] at hassign
      rcases hassign with heq | heq | heq <;> rw [Command.localNames, heq]
    obtain rfl := hk.place_eq_of_variable hb hvariable
    rw [hnames]
    rcases b.rebound_eq type with heq | ⟨version, heq⟩ <;> rw [heq]
    · rw [install_of_binding? hb]
    cases b with
    | global g => exact localNames_install_global t _
    | slot l =>
      obtain ⟨l', hl', -⟩ := Option.map_eq_some_iff.mp hb
      obtain ⟨locals, hlocals, hfound⟩ := Option.bind_eq_some_iff.mp hl'
      rw [localNames, Binding.withVersion, install, localNames, hlocals, Option.map_some,
        Option.map_some, Option.map_some]
      exact congrArg some (Scope.names_insert_of_find?_eq_some hfound _)
  | @declare b _ hdeclare hdeclares _ hname =>
    rw [Command.localNames, hdeclare]
    dsimp only
    cases hdeclares with
    | @slot l hlocals hnew =>
      obtain ⟨locals, hlocals⟩ := Option.isSome_iff_exists.mp hlocals
      have hnames : t.localNames = some locals.names := by rw [localNames, hlocals]; rfl
      rw [localNames_install_slot hnames ((local?_eq_none_iff hnames _).mp hnew), hnames, ← hname]
      rfl
    | field =>
      simp [localNames, hnone rfl]
    | program =>
      rw [localNames_install_global]
      simp [localNames, hnone rfl]
  | @array g _ harray hdeclares _ _ =>
    rw [Command.localNames, harray, localNames_install_global]
    cases hdeclares with
    | field => rfl
    | program => exact localNames_install_global t g
  | enter hopen => exact absurd hopen hkind
  | leave hleave =>
    rw [Command.localNames, hleave]
    rfl

end SymbolTable

namespace Compilation

open SymbolTable

variable {p : Prop} {c c' : Compilation} {k : ClassInfo} {name : String} {closed : List Draft}
  {b b' : ClassBody} {cmd : Command}

namespace Runs

/-- The names in the open method are those that the part of the body has which has been run. -/
theorem localNames_step (h : Runs k name closed b c) (hk : c.table.Keyed) (hadds : b.Adds cmd b')
    (hcmd : cmd ∈ k.commands) : Ensures (construct cmd) c fun _ c' => c'.table.Keyed ∧
      c'.table.localNames = cmd.localNames c.table.localNames := by
  intro _ c' hok
  have heffect := ensures_construct_sound h.sound.table cmd () c' hok
  have hinside := h.sound.emitter.inside.symm
  refine ⟨(heffect.follows hk hinside).2.1, ?_⟩
  by_cases hkind : cmd.kind = .declareFunction
  · rw [((h.ends_method hadds hcmd hkind).of_ok hok).2, Command.localNames, hkind]
  · exact heffect.localNames_eq hk hinside hkind

theorem localNames_replay {body : List Command} (h : Runs k name closed b c)
    (hk : c.table.Keyed) (hgrows : b.Grows body b') (hbody : ∀ cmd ∈ body, cmd ∈ k.commands) :
    Ensures (replay body) c fun _ c' =>
      c'.table.localNames = body.foldl Command.localNames c.table.localNames := by
  induction hgrows generalizing c with
  | nil => exact ensures_pure.mpr rfl
  | cons hadds hrest ih =>
    have hcmd := hbody _ (List.mem_cons_self ..)
    rw [replay, ensures_bind, ensures_locate]
    intro _ c₁ hok
    obtain ⟨hk₁, hnames⟩ := h.localNames_step hk hadds hcmd () c₁ hok
    rw [List.foldl_cons, ← hnames]
    exact ih (h.step hadds hcmd () c₁ hok) hk₁ fun cmd' hcmd' =>
      hbody cmd' (List.mem_cons_of_mem _ hcmd')

/-! ## Declarations -/

/-- A declaration is refused for what it declares exactly if that was overlooked. -/
theorem ends_declaration (h : Runs k name closed b c) (hadds : b.Adds cmd b')
    (hnodup : ((b'.fields k.id).map Prod.fst).Nodup) (hcmd : cmd ∈ k.commands)
    {front : List Command} (hnames : c.table.localNames = front.foldl Command.localNames none)
    (hkind : cmd.kind ∈ [.declareFunction, .declareArray, .declareVariable]) :
    Ends (construct cmd) c (fun _ _ => ¬cmd.Overlooked front)
      fun f _ => ∀ v, f = .rejected v → (v.isOfDeclaration = true ↔ cmd.Overlooked front) := by
  simp only [List.mem_cons, List.not_mem_nil, or_false] at hkind
  rcases hkind with hkind | hkind | hkind
  · rw [Command.Overlooked, hkind]
    apply (h.ends_method hadds hcmd hkind).mono
    · intro _ _ hdistinct
      exact not_not_intro hdistinct.1
    · rintro _ _ ⟨l, rfl, hdouble⟩ v ⟨⟩
      exact ⟨fun _ => hdouble, fun _ => rfl⟩
  · rw [Command.Overlooked, hkind]
    have heffect : Ensures (construct cmd) c fun _ _ =>
        ¬(¬cmd.type.IsScalar ∨ cmd.length < 0 ∨ cmd.length = 0 ∧ cmd.count = 0) := by
      rw [construct, hkind]
      refine (ensures_declareArray h.sound.table.names cmd.name cmd.type cmd.length cmd.count).mono ?_
      rintro _ _ ⟨elements, stack, g, t, e, hpop, -, hscalar, ⟨hpositive, -⟩, -⟩
      have hcount := (ensures_popMany cmd.count c elements _ hpop).1
      rw [arrayLength] at hpositive
      split at hpositive <;> simp only [not_or] <;> exact ⟨not_not_intro hscalar, by omega, by omega⟩
    exact (Ends.ensures (h.refusesFor_array hadds hnodup hkind) heffect).mono
      (fun _ _ hq => hq.2) fun _ _ hf => hf.2
  · have hoverlooked : cmd.Overlooked front ↔
        ∃ names, c.table.localNames = some names ∧ cmd.name ∈ names := by
      rw [Command.Overlooked, hkind, hnames]
    rw [hoverlooked]
    have heffect : Ensures (construct cmd) c fun _ _ =>
        ¬∃ names, c.table.localNames = some names ∧ cmd.name ∈ names := by
      rintro _ c' hok ⟨names, hsome, hmem⟩
      exact (ensures_construct_sound h.sound.table cmd () c' hok).not_mem_localNames
        h.sound.emitter.inside.symm hkind hsome hmem
    exact (Ends.ensures (h.refusesFor_variable hadds hnodup hkind) heffect).mono
      (fun _ _ hq => hq.2) fun _ _ hf => hf.2

end Runs

/-- What an instance is refused for. Let a class be closed and nothing have failed before, and let the
run of the class for an instance come to the declaration of a method, an array or a variable. If the
declaration is compiled, nothing in it was overlooked when it was recorded. If it is refused, it is
refused for the types, the lengths or the names that it declares exactly if that was overlooked: the
type of an array or its length, two parameters of one name, or a variable of a method with the name
of a parameter or of a variable in front of it. -/
theorem declaration_refused_iff_overlooked {file : String} {symbols : RuntimeSymbols}
    {stream : List Command} (hc : handled? stream (start file symbols) = some c) {className : String}
    (hclass : c.table.class? className = some k) (hfrozen : k.frozen = true)
    (hprogram : c.program = none) {front rest : List Command} {next : Command}
    {c₀ c₁ : Compilation} (hopen : openInstance name className c = .ok k.commands c₀)
    (hbody : k.commands = front ++ next :: rest) (hreplay : replay front c₀ = .ok () c₁)
    (hkind : next.kind ∈ [.declareFunction, .declareArray, .declareVariable]) :
    (∀ c₂, construct next c₁ = .ok () c₂ → ¬next.Overlooked front) ∧
    ∀ v c₂, construct next c₁ = .error (.rejected v) c₂ →
      (v.isOfDeclaration = true ↔ next.Overlooked front) := by
  have h : c.Orderly := (orderly_start file symbols).of_handled hc
  have hconsistent : c.Consistent :=
    (traverses_points (consistent_start file symbols) hc).consistent (consistent_start file symbols)
  obtain ⟨members, hk⟩ := h.recorded.closed _ k (h.recorded.getElem?_of_class? hclass) hfrozen
  obtain ⟨closed, b₁, b₂, -, hruns, hruns₁, hfront, hadds, hnodup⟩ :=
    h.runs_of_replay hclass hk hprogram hopen hbody hreplay
  have hmem : ∀ cmd ∈ front ++ [next], cmd ∈ k.commands := by
    intro cmd hcmd
    rw [hbody, List.append_cons]
    exact List.mem_append_left _ hcmd
  have hlocals : c₀.table.localNames = none := by
    have hinside : c₀.table.locals.isSome = false :=
      hruns.sound.emitter.inside.symm.trans hruns.inside
    rw [localNames, Option.isSome_eq_false_iff.mp hinside |> Option.isNone_iff_eq_none.mp]
    rfl
  have hnames := hruns.localNames_replay (follows_openInstance hconsistent hopen).2.keyed hfront
    (fun cmd hcmd => hmem cmd (List.mem_append_left _ hcmd)) () c₁ hreplay
  rw [hlocals] at hnames
  have hends := hruns₁.ends_declaration hadds hnodup (hmem next (by simp)) hnames hkind
  exact ⟨fun c₂ hok => hends.of_ok hok, fun v c₂ herror => hends.of_error herror v rfl⟩

def characters : Command :=
  { kind := .declareArray, name := "a", type := .char, length := 2 }

/-- A class with such an array is recorded, and refused for its first instance. -/
theorem declaration_refused_iff_overlooked_characters : ∃ c k c₀ c₂,
    handled? [{ kind := .beginClass, name := "P" }, characters, { kind := .endClass }]
      (start "sample.mk" .standard) = some c ∧
    c.table.class? "P" = some k ∧ openInstance "p" "P" c = .ok k.commands c₀ ∧
    construct characters c₀ = .error (.rejected (.notScalar .array "a" .char)) c₂ ∧
    characters.Overlooked [] := by
  obtain ⟨c, hc, k, hk, hfrozen, hprogram, c₀, hopen, hbody, c₂, herror⟩ : ∃ c,
      handled? [{ kind := .beginClass, name := "P" }, characters, { kind := .endClass }]
        (start "sample.mk" .standard) = some c ∧ ∃ k, c.table.class? "P" = some k ∧
      k.frozen = true ∧ c.program = none ∧ ∃ c₀, openInstance "p" "P" c = .ok k.commands c₀ ∧
      k.commands = [] ++ characters :: [] ∧ ∃ c₂,
        construct characters c₀ = .error (.rejected (.notScalar .array "a" .char)) c₂ :=
    ⟨_, rfl, _, rfl, rfl, rfl, _, rfl, rfl, _, rfl⟩
  have hiff := (declaration_refused_iff_overlooked hc hk hfrozen hprogram hopen hbody rfl
    (by decide)).2 _ c₂ herror
  exact ⟨c, k, c₀, c₂, hc, hk, hopen, herror, hiff.mp rfl⟩

end Compilation

end MkCompiler
