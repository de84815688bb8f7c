import MkCompiler.Proofs.Effects
import MkCompiler.Proofs.ControlScopes
import MkCompiler.Proofs.LinkedRuns

/-!
# Coherence of cells

Between two points of a compilation a variable keeps its cell exactly if it has had the same storage
type at all points in between. This holds of everything that the program and its instances own, and
across a control construct also of the variables of the open function.
-/

namespace MkCompiler

open MkCompiler.Action

/-- A notification opens or closes a function in the emitter as it does in the table. -/
theorem Emitter.Performs.inFunction_eq {kind : CommandKind} {e e' : Emitter}
    (hkind : kind ≠ .endProgram) (h : Performs kind e e') :
    e'.inFunction = kind.insideAfter e.inFunction := by
  by_cases hbody : kind ∉ [.declareFunction, .endFunction, .endProgram]
  · have hsteps := h.bodySteps hbody
    have hsame : e'.inFunction = e.inFunction := by
      clear h
      induction hsteps with
      | refl => rfl
      | tail _ hs ih => exact hs.inFunction_eq.trans ih
    rw [hsame]
    cases kind <;> first | rfl | simp at hbody
  · simp only [List.mem_cons, List.not_mem_nil, or_false, Decidable.not_not] at hbody
    rcases hbody with rfl | rfl | rfl
    · obtain ⟨name, sig, params, locals, -, h⟩ := h
      obtain ⟨-, c, o, rfl, -⟩ := ensures_openFunction name sig params e _ _ h
      rfl
    · obtain ⟨f, o, -, -, -, rfl, -⟩ := ensures_endFunction e _ _ h
      rfl
    · exact absurd rfl hkind

theorem SymbolTable.binding?_openInstance {t : SymbolTable} {name : String}
    (hnew : t.instances.find? name = none) (id : Nat) : ({ t with
      instances := t.instances.insert name { name, classId := id }
      current := some name } : SymbolTable).binding? = t.binding? := by
  funext x
  cases x with
  | field owner field =>
    by_cases howner : owner = name
    · simp [binding?, howner, hnew]
    · simp [binding?, howner]
  | _ => rfl

theorem Region.ne_declareInstance {r r' : Region} {body : List Command}
    (h : r.after? (body.map Command.kind) = some r') :
    ∀ cmd ∈ body, cmd.kind ≠ .declareInstance := by
  intro cmd hcmd hkind
  exact Region.kind_of_after? h cmd hcmd (by simp [hkind])

namespace Compilation

variable {c c' c'' : Compilation} {cmd : Command} {commands rest : List Command}

/-- What holds at every point of a compilation: variables are bound at their places, and the table
and the emitter agree on whether a function is open. -/
structure Consistent (c : Compilation) : Prop where
  records : c.WellRecorded
  keyed : c.table.Keyed
  inside : c.program = none → c.table.locals.isSome = c.emitter.inFunction
  numbered : c.program = none → c.emitter.Numbered

theorem consistent_start (file : String) (symbols : RuntimeSymbols) :
    (start file symbols).Consistent where
  records := wellRecorded_start file symbols
  keyed := SymbolTable.keyed_start
  inside := fun _ => rfl
  numbered := by
    intro _ i hi
    cases hi

structure Passes (c c' : Compilation) : Prop where
  program : c.program = none
  follows : c.table.Follows c'.table
  runs : c'.program = none → ∃ kinds, Emitter.Run kinds c.emitter c'.emitter
  consistent : c'.Consistent

theorem retains_of_recording (hc : c.WellRecorded) (hprogram : c.program = none) {id : Nat}
    (hid : c.recording = some id) (h : handle cmd c = .ok () c') : c.Retains c' := by
  by_cases hend : cmd.kind = .endClass
  · rw [handle_eq_endClass hprogram hend, locate_eq_ok] at h
    exact retains_endClass c () c' h
  · rw [handle_eq_record hprogram hid hend, locate_eq_ok] at h
    exact hc.retains_record hid cmd () c' h

theorem Handles.inFunction_eq (h : Handles cmd c c')
    (hsimple : cmd.kind ≠ .declareInstance ∨ c.recording.isSome = true)
    (hprogram : c'.program = none) : c'.emitter.inFunction =
      if c.recording.isSome = true then c.emitter.inFunction
      else cmd.kind.insideAfter c.emitter.inFunction := by
  unfold Handles at h
  split at h
  · next hsome =>
    rw [if_pos hsome, h.1.1]
  · next hnone =>
    rw [if_neg hnone]
    split at h
    · next hkind => rw [h.1.1, hkind]; rfl
    · exact h.elim
    · next hkind => exact absurd (hsimple.resolve_right hnone) (by simp [hkind])
    · obtain ⟨lines, -, hlines⟩ := h
      rw [hprogram] at hlines
      cases hlines
    · next kind _ _ _ hend =>
      exact h.emitter.inFunction_eq hend

section Simple

variable (hc : c.Consistent) (hsimple : cmd.kind ≠ .declareInstance ∨ c.recording.isSome = true)
  (h : handle cmd c = .ok () c')
include hc hsimple h

theorem effect_of_handle : c.recording.isSome = true ∧ c.Retains c' ∨
    c.recording = none ∧ c.table.Effect c.emitter.inFunction cmd c'.table := by
  obtain ⟨hprogram, -, -⟩ := handles_of_handle h hc.records
  cases hrecording : c.recording with
  | some id => exact .inl ⟨rfl, retains_of_recording hc.records hprogram hrecording h⟩
  | none =>
    have hkind := hsimple.resolve_right (by simp [hrecording])
    rw [handle_eq_construct hprogram hrecording hkind, locate_eq_ok] at h
    exact .inr ⟨rfl, ensures_construct_effect hc.keyed.kinds hc.keyed.names cmd () c' h⟩

theorem follows_handle (hprogram : c.program = none) :
    c.table.Follows c'.table ∧ c'.table.Keyed ∧
      c'.table.locals.isSome = if c.recording.isSome = true then c.table.locals.isSome
        else cmd.kind.insideAfter c.table.locals.isSome := by
  rcases effect_of_handle hc hsimple h with ⟨hsome, hr⟩ | ⟨hnone, heffect⟩
  · rw [if_pos hsome]
    exact ⟨hr.extends.follows, hr.keyed hc.keyed, hr.extends.locals⟩
  · rw [hnone]
    exact heffect.follows hc.keyed (hc.inside hprogram)

theorem passes_handle : c.Passes c' := by
  obtain ⟨hprogram, hhandles, hrecords⟩ := handles_of_handle h hc.records
  obtain ⟨hfollows, hkeyed, hlocals⟩ := follows_handle hc hsimple h hprogram
  have hruns (hnone : c'.program = none) : ∃ kinds, Emitter.Run kinds c.emitter c'.emitter := by
    rcases hhandles.run_or_finish with ⟨-, hrun⟩ | ⟨lines, hlines, -⟩
    · exact hrun
    · rw [hnone] at hlines
      cases hlines
  refine ⟨hprogram, hfollows, hruns, hrecords, hkeyed, ?_, ?_⟩
  · intro hnone
    rw [hlocals, hhandles.inFunction_eq hsimple hnone, hc.inside hprogram]
  · intro hnone
    obtain ⟨kinds, hrun⟩ := hruns hnone
    exact hrun.invariant (fun _ _ hs => hs.numbered) (hc.numbered hprogram)

end Simple

theorem follows_openInstance {name className : String} {body : List Command} (hc : c.Consistent)
    (h : openInstance name className c = .ok body c') :
    c.table.Follows c'.table ∧ c'.Consistent := by
  obtain ⟨k, hk, -, rfl⟩ := (hc.records.ends_openInstance name className).of_ok h
  have hview := SymbolTable.binding?_openInstance hk.free.instances k.id
  refine ⟨?_, hc.records, ⟨?_, ?_, ?_⟩, hc.inside, hc.numbered⟩
  · intro x b hb _
    exact ⟨b, hview ▸ hb, .refl b⟩
  · exact hview ▸ hc.keyed.kinds
  · exact hview ▸ hc.keyed.places
  · intro owner inst hinst
    rcases Scope.find?_insert_eq_some hinst with ⟨rfl, rfl⟩ | hold
    · rfl
    · exact hc.keyed.names owner inst hold

theorem passes_openInstance {name className : String} {body : List Command} (hc : c.Consistent)
    (hprogram : c.program = none) (h : openInstance name className c = .ok body c') :
    c.Passes c' := by
  obtain ⟨hfollows, hconsistent⟩ := follows_openInstance hc h
  obtain ⟨halong, -⟩ := ensures_openInstance name className hc.records body c' h
  refine ⟨hprogram, hfollows, fun _ => ⟨[], ?_⟩, hconsistent⟩
  rw [← halong.emitter]
  exact .nil

theorem passes_leaveInstance (hc : c.Consistent) (hprogram : c.program = none) :
    c.Passes { c with table := c.table.setInstance none } :=
  ⟨hprogram, fun _ b hb _ => ⟨b, hb, .refl b⟩, fun _ => ⟨[], .nil⟩, hc.records,
    ⟨hc.keyed.kinds, hc.keyed.places, hc.keyed.names⟩, hc.inside, hc.numbered⟩

/-! ## Points on the way -/

/-- A compilation goes through some points, in this order, up to the last one. -/
inductive Traverses : Compilation → List Compilation → Compilation → Prop
  | nil {c : Compilation} : Traverses c [] c
  | cons {c c₁ c' : Compilation} {states : List Compilation} :
      c.Passes c₁ → Traverses c₁ states c' → Traverses c (c₁ :: states) c'

theorem Traverses.append {a b : List Compilation} (ha : Traverses c a c') (hb : Traverses c' b c'') :
    Traverses c (a ++ b) c'' := by
  induction ha with
  | nil => exact hb
  | cons hp _ ih => exact .cons hp (ih hb)

theorem Traverses.consistent {states : List Compilation} (h : Traverses c states c')
    (hc : c.Consistent) : c'.Consistent := by
  induction h with
  | nil => exact hc
  | cons hp _ ih => exact ih hp.consistent

/-- The points behind notifications, one after the other. -/
def trail : List Command → Compilation → List Compilation
  | [], _ => []
  | cmd :: rest, c =>
    match handle cmd c with
    | .ok _ c' => c' :: trail rest c'
    | .error _ _ => []

/-- The points in the class body that a notification runs for an instance. -/
def replayed (cmd : Command) (c : Compilation) : List Compilation :=
  if cmd.kind = .declareInstance ∧ c.recording = none then
    match openInstance cmd.name cmd.target c with
    | .ok body c' => c' :: trail body c'
    | .error _ _ => []
  else []

def points : List Command → Compilation → List Compilation
  | [], _ => []
  | cmd :: rest, c =>
    replayed cmd c ++
    match handle cmd c with
    | .ok _ c' => c' :: points rest c'
    | .error _ _ => []

theorem traverses_trail (hc : c.Consistent)
    (hkinds : ∀ cmd ∈ commands, cmd.kind ≠ .declareInstance)
    (h : handled? commands c = some c') : Traverses c (trail commands c) c' := by
  induction commands generalizing c with
  | nil =>
    cases h
    exact .nil
  | cons cmd rest ih =>
    obtain ⟨c₁, hcmd, hrest⟩ := handled?_cons.mp h
    have hpasses := passes_handle hc (.inl (hkinds cmd (by simp))) hcmd
    rw [trail, hcmd]
    exact .cons hpasses (ih hpasses.consistent (fun cmd' hcmd' => hkinds cmd' (by simp [hcmd'])) hrest)

theorem replayed_of_simple (h : cmd.kind ≠ .declareInstance ∨ c.recording.isSome = true) :
    replayed cmd c = [] := by
  rw [replayed, if_neg]
  rintro ⟨hkind, hrecording⟩
  rcases h with hne | hsome
  · exact hne hkind
  · rw [hrecording] at hsome
    cases hsome

theorem traverses_declareInstance (hc : c.Consistent) (hkind : cmd.kind = .declareInstance)
    (hrecording : c.recording = none) (h : handle cmd c = .ok () c') :
    Traverses c (replayed cmd c ++ [c']) c' := by
  obtain ⟨hprogram, -, -⟩ := handles_of_handle h hc.records
  obtain ⟨body, c₁, hlocated, -⟩ :=
    bind_eq_ok.mp (handle_eq_declareInstance hprogram hrecording hkind ▸ h)
  have hopen := locate_eq_ok.mp hlocated
  obtain ⟨halong, c₂, hbody, rfl⟩ :=
    handle_declareInstance hkind hrecording hc.records h body c₁ hopen
  obtain ⟨-, hplace⟩ := ensures_openInstance _ _ hc.records body c₁ hopen
  have hopened := passes_openInstance hc hprogram hopen
  have htrail := traverses_trail hopened.consistent (Region.ne_declareInstance hplace) hbody
  have hleft : c₂.Passes { c₂ with table := c₂.table.setInstance none } := by
    apply passes_leaveInstance (htrail.consistent hopened.consistent)
    obtain ⟨-, hhandles, -⟩ := handles_of_handle h hc.records
    rw [Handles, if_neg (by simp [hrecording]), hkind] at hhandles
    obtain ⟨kinds, -, hinstance⟩ := hhandles
    exact hinstance.program.trans hprogram
  rw [replayed, if_pos ⟨hkind, hrecording⟩, hopen]
  exact (Traverses.cons hopened htrail).append (.cons hleft .nil)

theorem traverses_points (hc : c.Consistent) (h : handled? commands c = some c') :
    Traverses c (points commands c) c' := by
  induction commands generalizing c with
  | nil =>
    cases h
    exact .nil
  | cons cmd rest ih =>
    obtain ⟨c₁, hcmd, hrest⟩ := handled?_cons.mp h
    have hone : Traverses c (replayed cmd c ++ [c₁]) c₁ := by
      by_cases hinstance : cmd.kind = .declareInstance ∧ c.recording = none
      · exact traverses_declareInstance hc hinstance.1 hinstance.2 hcmd
      · have hsimple : cmd.kind ≠ .declareInstance ∨ c.recording.isSome = true := by
          rw [Option.isSome_iff_ne_none]
          exact Decidable.not_and_iff_or_not.mp hinstance
        rw [replayed_of_simple hsimple]
        exact .cons (passes_handle hc hsimple hcmd) .nil
    rw [points, hcmd]
    have hall := hone.append (ih (hone.consistent hc) hrest)
    rw [List.append_assoc] at hall
    exact hall

theorem Reaches.consistent {file : String} {symbols : RuntimeSymbols} {stream coming : List Command}
    (h : Reaches file symbols stream c coming) : c.Consistent := by
  induction h with
  | start => exact consistent_start file symbols
  | next _ hcmd ih => exact (traverses_points ih (handled?_single.mpr hcmd)).consistent ih
  | replay _ _ _ hopen ih => exact (follows_openInstance ih hopen).2

/-- What handling, opening an instance and leaving it preserve holds at every point. -/
theorem Reaches.invariant {P : Compilation → Prop} {file : String} {symbols : RuntimeSymbols}
    {stream coming : List Command} (hstart : P (Compilation.start file symbols))
    (hhandle : ∀ {c c' cmd rest}, Reaches file symbols stream c (cmd :: rest) →
      cmd.kind ≠ .declareInstance ∨ c.recording.isSome = true → handle cmd c = .ok () c' →
      P c → P c')
    (hopen : ∀ {c c' cmd rest body}, Reaches file symbols stream c (cmd :: rest) →
      openInstance cmd.name cmd.target c = .ok body c' → P c → P c')
    (hleave : ∀ {c}, P c → P { c with table := c.table.setInstance none })
    (h : Reaches file symbols stream c coming) : P c := by
  have hbody {a : List Command} {c c' : Compilation} (hr : Reaches file symbols stream c a)
      (hkinds : ∀ cmd ∈ a, cmd.kind ≠ .declareInstance) (ha : handled? a c = some c')
      (hc : P c) : P c' := by
    induction a generalizing c with
    | nil =>
      cases ha
      exact hc
    | cons cmd rest ih =>
      obtain ⟨c₁, hcmd, hrest⟩ := handled?_cons.mp ha
      exact ih (hr.next hcmd) (fun cmd' hcmd' => hkinds cmd' (by simp [hcmd'])) hrest
        (hhandle hr (.inl (hkinds cmd (by simp))) hcmd hc)
  induction h with
  | start => exact hstart
  | @next c c' cmd rest hr hcmd ih =>
    by_cases hinstance : cmd.kind = .declareInstance ∧ c.recording = none
    · obtain ⟨hkind, hrecording⟩ := hinstance
      have hc := hr.consistent
      obtain ⟨hprogram, -, -⟩ := handles_of_handle hcmd hc.records
      obtain ⟨body, c₁, hlocated, -⟩ :=
        bind_eq_ok.mp (handle_eq_declareInstance hprogram hrecording hkind ▸ hcmd)
      have hok := locate_eq_ok.mp hlocated
      obtain ⟨-, c₂, hran, rfl⟩ := handle_declareInstance hkind hrecording hc.records hcmd body c₁ hok
      obtain ⟨-, hplace⟩ := ensures_openInstance _ _ hc.records body c₁ hok
      exact hleave (hbody (hr.replay hkind hrecording hok) (Region.ne_declareInstance hplace) hran
        (hopen hr hok ih))
    · refine hhandle hr ?_ hcmd ih
      rw [Option.isSome_iff_ne_none]
      exact Decidable.not_and_iff_or_not.mp hinstance
  | replay hr _ _ hok ih => exact hopen hr hok ih

/-! ## Cells on the way -/

section Traverses

variable {states : List Compilation} {x : Place} {b : Binding} {id : Nat}

/-- A variable is in the cell it started in exactly if it has had its type all the way. Then it has
been in that cell all the way, too. -/
theorem Traverses.binding? (h : Traverses c states c') (hb : c.table.binding? x = some b)
    (hscope : x.isSlot = true → ∀ s ∈ states, s.table.locals.isSome = true) :
    ∃ b', c'.table.binding? x = some b' ∧ b'.place = b.place ∧ b.rank ≤ b'.rank ∧
      (b'.rank = b.rank ↔
        ∀ s ∈ states, (s.table.binding? x).map Binding.storageType? = some b.storageType?) ∧
      (b'.rank = b.rank →
        ∀ s ∈ states, (s.table.binding? x).map Binding.pointer = some b.pointer) := by
  induction h generalizing b with
  | nil => exact ⟨b, hb, rfl, le_refl _, by simp, by simp⟩
  | @cons c c₁ c' states hp _ ih =>
    obtain ⟨b₁, hb₁, hadvances⟩ := hp.follows x b hb fun hslot => hscope hslot c₁ (by simp)
    obtain ⟨b', hb', hplace, hle, htypes, hcells⟩ := ih hb₁ fun hslot s hs =>
      hscope hslot s (by simp [hs])
    refine ⟨b', hb', hplace.trans hadvances.place_eq, ?_⟩
    rcases hadvances.moved with ⟨hrank, htype⟩ | ⟨hlt, htype⟩
    · have hpointer : b₁.pointer = b.pointer :=
        (Binding.pointer_eq_iff hadvances.place_eq).mpr hrank
      rw [← hrank, ← htype, ← hpointer]
      refine ⟨hle, ?_, ?_⟩
      · simp [htypes, hb₁]
      · intro heq
        simpa [hb₁] using hcells heq
    · have hne : b'.rank ≠ b.rank := (hlt.trans_le hle).ne'
      refine ⟨(hlt.trans_le hle).le, ⟨fun heq => absurd heq hne, ?_⟩, fun heq => absurd heq hne⟩
      intro hall
      have hfirst := hall c₁ (by simp)
      rw [hb₁] at hfirst
      exact absurd (Option.some.inj hfirst) htype

theorem Traverses.eq_or_mem (h : Traverses c states c') : c' = c ∨ c' ∈ states := by
  induction h with
  | nil => exact .inl rfl
  | cons _ _ ih =>
    rcases ih with rfl | hmem
    · simp
    · simp [hmem]

theorem Traverses.program_eq_none (h : Traverses c states c') (hend : c'.program = none) :
    c.program = none := by
  cases h with
  | nil => exact hend
  | cons hp _ => exact hp.program

theorem Traverses.gone (h : Traverses c states c') (hend : c'.program = none)
    (hgone : c.emitter.Gone id) : c'.emitter.Gone id := by
  induction h with
  | nil => exact hgone
  | cons hp hrest ih =>
    obtain ⟨kinds, hrun⟩ := hp.runs (hrest.program_eq_none hend)
    exact ih hend (hrun.invariant (fun _ _ hs => hs.gone) hgone)

/-- As long as a construct of a function is open, the function is. -/
theorem Traverses.isSome_locals (h : Traverses c states c') (hend : c'.program = none)
    (hopen : id ∈ c'.emitter.active.controls) (hout : c.emitter.Outside id)
    (hinside : c.emitter.inFunction = true) :
    ∀ s ∈ states, s.table.locals.isSome = true := by
  induction h with
  | nil => simp
  | @cons c c₁ c' states hp hrest ih =>
    have hprogram := hrest.program_eq_none hend
    obtain ⟨kinds, hrun⟩ := hp.runs hprogram
    obtain ⟨hout₁, hin₁⟩ := hrun.inFunction_or_gone hout hinside
    have hinside₁ : c₁.emitter.inFunction = true := by
      rcases hin₁ with hin | hgone
      · exact hin
      · exact absurd hopen (hrest.gone hend hgone).active
    intro s hs
    rcases List.mem_cons.mp hs with rfl | hs
    · exact (hp.consistent.inside hprogram).trans hinside₁
    · exact ih hend hopen hout₁ hinside₁ s hs

end Traverses

/-! ## Control constructs -/

/-- The notifications of a control construct that begins at `c`: from the beginning of its condition
to the end that closes the construct with the number that is given out at `c`. -/
def ControlAt (c : Compilation) (segment : List Command) : Prop :=
  c.recording = none ∧ segment.head?.map Command.kind = some .beginCondition ∧
    (segment.getLast?.map Command.kind = some .endIf ∨
      segment.getLast?.map Command.kind = some .endWhile) ∧
    ∃ c₁ ∈ handled? segment.dropLast c,
      c₁.recording = none ∧ c₁.emitter.active.pending.head? = some c.emitter.labels

instance (c : Compilation) (segment : List Command) : Decidable (ControlAt c segment) :=
  inferInstanceAs (Decidable (_ ∧ _ ∧ _ ∧ _))

/-- A construct is its first notification, its body and its last one. -/
theorem ControlAt.exists_eq {segment : List Command} (h : ControlAt c segment) :
    ∃ first body last, segment = first :: body ++ [last] ∧ first.kind = .beginCondition ∧
      (last.kind = .endIf ∨ last.kind = .endWhile) := by
  obtain ⟨-, hfirst, hlast, -⟩ := h
  obtain ⟨first, hhead, hkind⟩ := Option.map_eq_some_iff.mp hfirst
  obtain ⟨rest, rfl⟩ := List.head?_eq_some_iff.mp hhead
  rcases List.eq_nil_or_concat' rest with rfl | ⟨body, last, rfl⟩
  · simp [hkind] at hlast
  · rw [← List.cons_append, List.getLast?_concat] at hlast
    exact ⟨first, body, last, rfl, hkind, by simpa using hlast⟩

theorem points_append {a b : List Command} (h : handled? a c = some c') :
    points (a ++ b) c = points a c ++ points b c' := by
  induction a generalizing c with
  | nil =>
    cases h
    rfl
  | cons cmd a ih =>
    obtain ⟨c₁, hcmd, ha⟩ := handled?_cons.mp h
    rw [List.cons_append, points, points, hcmd, List.append_assoc]
    dsimp only
    rw [ih ha, List.cons_append]

theorem points_single (hsimple : cmd.kind ≠ .declareInstance) (h : handle cmd c = .ok () c') :
    points [cmd] c = [c'] := by
  rw [points, h, replayed_of_simple (.inl hsimple)]
  rfl

theorem isSome_locals_handle (hc : c.Consistent) (hrecording : c.recording = none)
    (hkind : cmd.kind ∉ [.declareFunction, .endFunction, .declareInstance])
    (h : handle cmd c = .ok () c') : c'.table.locals.isSome = c.table.locals.isSome := by
  simp only [List.mem_cons, List.not_mem_nil, or_false, not_or] at hkind
  obtain ⟨hprogram, -, -⟩ := handles_of_handle h hc.records
  obtain ⟨-, -, hlocals⟩ := follows_handle hc (.inl hkind.2.2) h hprogram
  rw [hlocals, if_neg (by simp [hrecording])]
  cases hk : cmd.kind <;> simp_all [CommandKind.insideAfter]

/-- Across a control construct the function around it is open. -/
theorem ControlAt.isSome_locals {segment : List Command} (h : ControlAt c segment)
    (hc : c.Consistent) (hrun : handled? segment c = some c')
    (hlocals : c.table.locals.isSome = true) :
    ∀ s ∈ points segment c, s.table.locals.isSome = true := by
  obtain ⟨first, body, last, rfl, hfirst, hlast⟩ := h.exists_eq
  obtain ⟨hrecording, -, -, c₂, hbody, hrecording₂, hpending⟩ := h
  rw [List.dropLast_concat, Option.mem_def] at hbody
  obtain ⟨c₂', hbody', hend⟩ := handled?_append.mp hrun
  obtain rfl := Option.some.inj (hbody.symm.trans hbody')
  have hend := handled?_single.mp hend
  obtain ⟨c₁, hcmd, hrest⟩ := handled?_cons.mp hbody
  obtain ⟨hprogram, hhandles, -⟩ := handles_of_handle hcmd hc.records
  have hc₁ := (passes_handle hc (.inl (by simp [hfirst])) hcmd).consistent
  have hlocals₁ : c₁.table.locals.isSome = true :=
    (isSome_locals_handle hc hrecording (by simp [hfirst]) hcmd).trans hlocals
  have halong := (handles_iff_along hrecording (by simp [hfirst])).mp hhandles
  have hperforms : Emitter.Performs .beginCondition c.emitter c₁.emitter := hfirst ▸ halong.emitter
  obtain ⟨-, hturns⟩ := Emitter.turns_openCondition c.emitter _ _ hperforms
  have hout : c₁.emitter.Outside c.emitter.labels :=
    hturns.outside (hc.numbered hprogram) ((hc.inside hprogram).symm.trans hlocals)
  have hinside₁ : c₁.emitter.inFunction = true :=
    (hc₁.inside (halong.program.trans hprogram)).symm.trans hlocals₁
  -- The number stays open up to the last notification, so no other function is entered or left.
  have htraverses := traverses_points hc₁ hrest
  have hc₂ := htraverses.consistent hc₁
  obtain ⟨hprogram₂, -, -⟩ := handles_of_handle hend hc₂.records
  have hopen : c.emitter.labels ∈ c₂.emitter.active.controls :=
    List.mem_append_left _ (List.mem_of_mem_head? hpending)
  have hmiddle := htraverses.isSome_locals hprogram₂ hopen hout hinside₁
  have hlocals₂ : c₂.table.locals.isSome = true := by
    rcases htraverses.eq_or_mem with rfl | hmem
    · exact hlocals₁
    · exact hmiddle c₂ hmem
  have hlocals' : c'.table.locals.isSome = true :=
    (isSome_locals_handle hc₂ hrecording₂ (by rcases hlast with h | h <;> simp [h]) hend).trans
      hlocals₂
  intro s hs
  rw [points_append hbody, points_single (by rcases hlast with h | h <;> simp [h]) hend] at hs
  rw [show first :: body = [first] ++ body from rfl, points_append (handled?_single.mpr hcmd),
    points_single (by simp [hfirst]) hcmd] at hs
  simp only [List.mem_append, List.mem_singleton] at hs
  rcases hs with (rfl | hs) | rfl
  · exact hlocals₁
  · exact hmiddle s hs
  · exact hlocals'

def pointBehind (n : Nat) (stream : List Command) : Compilation :=
  (handled? (stream.take n) (start "sample.mk" .standard)).getD (start "sample.mk" .standard)

theorem reaches_pointBehind {n : Nat} {stream : List Command}
    (h : (handled? (stream.take n) (start "sample.mk" .standard)).isSome = true) :
    Reaches "sample.mk" .standard stream (pointBehind n stream) (stream.drop n) := by
  obtain ⟨c, hc⟩ := Option.isSome_iff_exists.mp h
  rw [pointBehind, hc, Option.getD_some]
  have hstart : Reaches "sample.mk" .standard stream (start "sample.mk" .standard)
      (stream.take n ++ stream.drop n) := by
    rw [List.take_append_drop]
    exact .start
  exact hstart.handled hc

/-- The notifications of a loop that counts up the variable of its condition. -/
def countingLoop : List Command :=
  [{ kind := .beginCondition }, { kind := .name, name := "a" }, { kind := .int, text := "9" },
    { kind := .compare, text := "<" },
    { kind := .name, name := "a" }, { kind := .int, text := "1" }, { kind := .arith, text := "+" },
    { kind := .assign, name := "a" }, { kind := .endWhile }]

def loopStream : List Command :=
  { kind := .declareFunction, name := "f", type := .int, params := [⟨"a", .int⟩] } :: countingLoop ++
    [{ kind := .name, name := "a" }, { kind := .ret }, { kind := .endFunction },
      { kind := .endProgram }]

def scanningBranch : List Command :=
  [{ kind := .beginCondition }, { kind := .int, text := "1" }, { kind := .int, text := "2" },
    { kind := .compare, text := "<" }, { kind := .scan, name := "x", type := .real },
    { kind := .endIf }]

def branchStream : List Command :=
  { kind := .declareVariable, name := "x" } :: scanningBranch ++
    [{ kind := .name, name := "x" }, { kind := .print }, { kind := .endProgram }]

/-- Variables change their cells with their types, and never come back. Take a stretch of a
compilation and a variable of the program, of an instance or, across a control construct, of the open
function. The variable is still there at the end. It is in the same cell as at the beginning exactly
if it has had the same storage type at all points in between, and then it has been in that cell at
all of them. -/
theorem keeps_cell_iff_keeps_type {file : String} {symbols : RuntimeSymbols}
    {stream segment rest : List Command} {c c' : Compilation} {x : Place} {b : Binding}
    (hreaches : Reaches file symbols stream c (segment ++ rest))
    (hrun : handled? segment c = some c') (hscope : x.isSlot = true → ControlAt c segment)
    (hb : c.table.binding? x = some b) :
    ∃ b', c'.table.binding? x = some b' ∧
      (b'.pointer = b.pointer ↔ ∀ s ∈ points segment c,
        (s.table.binding? x).map Binding.storageType? = some b.storageType?) ∧
      (b'.pointer = b.pointer → ∀ s ∈ points segment c,
        (s.table.binding? x).map Binding.pointer = some b.pointer) := by
  have hc := hreaches.consistent
  have hlocals (hslot : x.isSlot = true) :
      ∀ s ∈ points segment c, s.table.locals.isSome = true := by
    apply (hscope hslot).isSome_locals hc hrun
    exact SymbolTable.isSome_locals_of_binding? hslot hb
  obtain ⟨b', hb', hplace, -, htypes, hcells⟩ := (traverses_points hc hrun).binding? hb hlocals
  have hpointer := Binding.pointer_eq_iff hplace
  exact ⟨b', hb', hpointer.trans htypes, fun heq => hcells (hpointer.mp heq)⟩

theorem keeps_cell_iff_keeps_type_loop : ControlAt (pointBehind 1 loopStream) countingLoop ∧
    handled? countingLoop (pointBehind 1 loopStream) = some (pointBehind 10 loopStream) ∧
    ∃ b b', (pointBehind 1 loopStream).table.binding? (.slot "a") = some b ∧
      (pointBehind 10 loopStream).table.binding? (.slot "a") = some b' ∧
      b'.pointer = b.pointer := by
  have hreaches : Reaches "sample.mk" .standard loopStream (pointBehind 1 loopStream)
      (countingLoop ++ loopStream.drop 10) :=
    reaches_pointBehind (by decide +kernel)
  have hrun : handled? countingLoop (pointBehind 1 loopStream) = some (pointBehind 10 loopStream) := by
    decide +kernel
  have hcontrol : ControlAt (pointBehind 1 loopStream) countingLoop := by
    decide +kernel
  have hb : (pointBehind 1 loopStream).table.binding? (.slot "a") =
      some (.slot { name := "a", type := .int }) := by
    decide +kernel
  obtain ⟨b', hb', hcell, -⟩ := keeps_cell_iff_keeps_type hreaches hrun (fun _ => hcontrol) hb
  exact ⟨hcontrol, hrun, _, b', hb, hb', hcell.mpr (by decide +kernel)⟩

/-- Not every variable keeps its cell across a control construct: a scan inside of it may change the
type. -/
theorem not_keeps_cell_across_control : ¬ ∀ (file : String) (symbols : RuntimeSymbols)
    (stream segment rest : List Command) (lines : List Line) (c c' : Compilation) (x : Place)
    (b b' : Binding), compile file stream symbols = .ok lines →
      Reaches file symbols stream c (segment ++ rest) → ControlAt c segment →
      handled? segment c = some c' → c.table.binding? x = some b →
      c'.table.binding? x = some b' → b'.pointer = b.pointer := by
  intro h
  have hcompiles : (compile "sample.mk" branchStream .standard).toOption.isSome = true := by
    decide +kernel
  cases hlines : compile "sample.mk" branchStream .standard with
  | error e =>
    rw [hlines] at hcompiles
    cases hcompiles
  | ok lines =>
    have heq := h "sample.mk" .standard branchStream scanningBranch (branchStream.drop 7) lines
      (pointBehind 1 branchStream) (pointBehind 7 branchStream) (.program "x")
      (.global (.ofVariable "x" .unresolved))
      (.global ((Global.ofVariable "x" .unresolved).withVersion 1 .real)) hlines
      (reaches_pointBehind (by decide +kernel)) (by decide +kernel) (by decide +kernel)
      (by decide +kernel) (by decide +kernel)
    exact absurd heq (by decide +kernel)

end Compilation

end MkCompiler
