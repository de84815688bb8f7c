import MkCompiler.Proofs.InstanceFrames
import MkCompiler.Proofs.MirroredConstructs

/-!
# Mirrored class bodies

From compilations that are counterparts the body of a class runs in step up to its end, or to a
notification at which both runs fail. Nothing that a program has done so far refers to an instance
that it has not declared: as long as the names of all instances have another stem, the compilation
is its own counterpart, whatever the two new names are.
-/

namespace MkCompiler

open MkCompiler.Action

namespace Compilation

variable {p : NamePair} {c c' : Compilation} {d : Prop} {cmd : Command}

/-! ## Class bodies -/

def FailsBehind (front : List Command) (cmd : Command) (c : Compilation) (f : Failure)
    (c' : Compilation) : Prop :=
  ∃ c₁, replay front c = .ok () c₁ ∧ construct cmd c₁ = .error f c'

theorem FailsBehind.replay_eq {front : List Command} {f : Failure}
    (h : FailsBehind front cmd c f c') (rest : List Command) :
    replay (front ++ cmd :: rest) c = .error ⟨f, cmd.line⟩ c' := by
  obtain ⟨c₁, hfront, hcmd⟩ := h
  induction front generalizing c with
  | nil =>
    obtain rfl : c = c₁ := (EStateM.Result.ok.inj hfront).2
    change EStateM.bind (locate cmd.line (construct cmd)) (fun _ => replay rest) c = _
    rw [EStateM.bind, locate, hcmd]
  | cons first front ih =>
    obtain ⟨_, c₂, hfirst, hfront⟩ := bind_eq_ok.mp hfront
    change EStateM.bind (locate first.line (construct first)) (fun _ => replay _) c = _
    rw [EStateM.bind, hfirst]
    exact ih hfront

/-- The body of a class runs in step, or fails at one notification in both runs. -/
theorem Alike.replay (h : c.Alike p c') {body : List Command}
    (hkinds : ∀ cmd ∈ body, cmd.kind ∉ [.beginClass, .endClass, .declareInstance, .endProgram])
    (htargets : ∀ cmd ∈ body, p.Fixes cmd.target) :
    (∃ c₁ c₁', replay body c = .ok () c₁ ∧ replay body c' = .ok () c₁' ∧ c₁.Alike p c₁') ∨
      ∃ front cmd rest f f' c₁ c₁', body = front ++ cmd :: rest ∧ FailsBehind front cmd c f c₁ ∧
        FailsBehind front cmd c' f' c₁' ∧ f.Alike f' := by
  induction body generalizing c c' with
  | nil => exact .inl ⟨c, c', rfl, rfl, h⟩
  | cons cmd rest ih =>
    have hstep := inStep_construct (hkinds cmd (List.mem_cons_self ..))
      (htargets cmd (List.mem_cons_self ..))
    cases hcmd : construct cmd c with
    | error f c₁ =>
      obtain ⟨f', c₁', hcmd', hf, -⟩ := hstep.of_error h hcmd
      exact .inr ⟨[], cmd, rest, f, f', c₁, c₁', rfl, ⟨c, rfl, hcmd⟩, ⟨c', rfl, hcmd'⟩, hf⟩
    | ok _ c₁ =>
      obtain ⟨_, c₁', hcmd', -, h₁⟩ := hstep.of_ok h hcmd
      have hfirst {front : List Command} {c₂ : Compilation} (hrun : replay front c₁ = .ok () c₂) :
          replay (cmd :: front) c = .ok () c₂ :=
        bind_eq_ok.mpr ⟨(), c₁, locate_eq_ok.mpr hcmd, hrun⟩
      have hfirst' {front : List Command} {c₂ : Compilation}
          (hrun : replay front c₁' = .ok () c₂) : replay (cmd :: front) c' = .ok () c₂ :=
        bind_eq_ok.mpr ⟨(), c₁', locate_eq_ok.mpr hcmd', hrun⟩
      rcases ih h₁ (fun cmd' hmem => hkinds cmd' (List.mem_cons_of_mem _ hmem))
        (fun cmd' hmem => htargets cmd' (List.mem_cons_of_mem _ hmem)) with
        ⟨c₂, c₂', hrest, hrest', h₂⟩ |
        ⟨front, last, rest', f, f', c₂, c₂', rfl, ⟨c₃, hfront, hlast⟩, ⟨c₃', hfront', hlast'⟩, hf⟩
      · exact .inl ⟨c₂, c₂', hfirst hrest, hfirst' hrest', h₂⟩
      · exact .inr ⟨cmd :: front, last, rest', f, f', c₂, c₂', rfl, ⟨c₃, hfirst hfront, hlast⟩,
          ⟨c₃', hfirst' hfront', hlast'⟩, hf⟩

theorem Alike.withInstance (h : c.Alike p c') (hd : p.declared → d) {x x' : String}
    (hx : (p.declare d).Counterpart x x') (id : Nat) :
    (c.withInstance x id).Alike (p.declare d) (c'.withInstance x' id) := by
  obtain ⟨ht, he, hs⟩ := h
  have hinstances := ht.instances.mono (fun _ _ hy => hy.mono hd) fun _ _ hi => hi.mono hd
  refine ⟨?_, he.mono hd, hs.imp fun _ _ hop => hop.mono hd⟩
  exact
    { globals := ht.globals.mono (fun _ _ hn => hn) fun _ _ hg => hg.mono hd
      locals := ht.locals
      functions := ht.functions
      classes := ht.classes
      classNames := ht.classNames
      instances := hinstances.insert (fun _ _ hy => hx.eq_iff hy) hx ⟨hx, rfl, .nil⟩
      current := .some hx
      running := fun _ => by simp [Compilation.withInstance, SymbolTable.instance?] }

/-! ## Programs that do not know the instance -/

theorem alike_start (p : NamePair) (file : String) (symbols : RuntimeSymbols)
    (hp : ¬p.declared) : (start file symbols).Alike p (start file symbols) := by
  refine ⟨⟨.nil, rfl, rfl, rfl, rfl, .nil, .none, fun h => absurd h hp⟩,
    ⟨rfl, ⟨rfl, ?_, .direct _⟩, ⟨[], .nil, rfl⟩, .none, rfl, rfl⟩, .nil⟩
  intro target
  exact List.forall₂_same.mpr fun line _ => .refl p line

/-- Whether a compilation is its own counterpart does not depend on its classes. -/
theorem Alike.congr (h : c.Alike p c) (hp : ¬p.declared) (hscopes : Retains c c')
    (hcurrent : c'.table.current = c.table.current) (hemitter : c'.emitter = c.emitter)
    (hstack : c'.stack = c.stack) : c'.Alike p c' := by
  refine ⟨?_, hemitter ▸ h.emitter, hstack ▸ h.stack⟩
  exact
    { globals := hscopes.globals ▸ h.table.globals
      locals := rfl
      functions := rfl
      classes := rfl
      classNames := rfl
      instances := hscopes.instances ▸ h.table.instances
      current := hcurrent ▸ h.table.current
      running := fun hd => absurd hd hp }

section Undeclared

variable (h : c.Alike p c) (hp : ¬p.declared)
include h hp

theorem Alike.of_construct
    (hkind : cmd.kind ∉ [.beginClass, .endClass, .declareInstance, .endProgram])
    (hcmd : construct cmd c = .ok () c') : c'.Alike p c' := by
  obtain ⟨_, c₁, hcmd', -, h'⟩ :=
    (inStep_construct hkind fun hd => absurd hd hp).of_ok h hcmd
  obtain rfl : c' = c₁ := (EStateM.Result.ok.inj (hcmd.symm.trans hcmd')).2
  exact h'

theorem Alike.of_recorder (horderly : c.Orderly)
    (hkind : c.recording.isSome = true ∨ cmd.kind ∈ [.beginClass, .endClass])
    (hcmd : handle cmd c = .ok () c') : c'.Alike p c' := by
  obtain ⟨hprogram, -, -⟩ := handles_of_handle hcmd horderly.sound.records
  by_cases hend : cmd.kind = .endClass
  · rw [handle_eq_endClass hprogram hend, locate_eq_ok] at hcmd
    obtain ⟨id, k, -, -, -, rfl⟩ := (ends_endClass c).of_ok hcmd
    exact h.congr hp ⟨rfl, rfl, rfl⟩ rfl rfl rfl
  · cases hid : c.recording with
    | some id =>
      obtain ⟨k, rfl, hk, -⟩ := horderly.recorded.exists_class hid
      rw [handle_eq_record hprogram hid hend, locate_eq_ok] at hcmd
      obtain ⟨k', b, method, returned, rfl, -⟩ :=
        (ends_record_appends horderly.recorded hid hk hend).of_ok hcmd
      exact h.congr hp ⟨rfl, rfl, rfl⟩ rfl rfl rfl
    | none =>
      have hbegin : cmd.kind = .beginClass := by simpa [hid, hend] using hkind
      rw [handle_eq_construct hprogram hid (by simp [hbegin]), locate_eq_ok, construct,
        hbegin] at hcmd
      obtain ⟨-, -, -, rfl⟩ := (ends_beginClass c cmd.name).of_ok hcmd
      exact h.congr hp ⟨rfl, rfl, rfl⟩ rfl rfl rfl

theorem Alike.of_declareInstance (horderly : c.Orderly) {line : Int} {name className : String}
    (hfst : stem name ≠ p.fst) (hsnd : stem name ≠ p.snd)
    (hok : declareInstance line name className c = .ok () c') : c'.Alike p c' := by
  obtain ⟨k, c₁, -, -, hplace, hreplay, rfl⟩ := horderly.declareInstance_eq_ok hok
  have hopened : (c.withInstance name k.id).Alike p (c.withInstance name k.id) :=
    h.withInstance (fun hd => hd) (.same hfst hsnd) k.id
  rcases hopened.replay (Region.kind_of_after? hplace) (fun _ _ hd => absurd hd hp) with
    ⟨c₂, c₂', hreplay₂, hreplay₂', h₂⟩ | hfails
  · obtain rfl : c₁ = c₂ := (EStateM.Result.ok.inj (hreplay.symm.trans hreplay₂)).2
    obtain rfl : c₁ = c₂' := (EStateM.Result.ok.inj (hreplay.symm.trans hreplay₂')).2
    exact ⟨{ h₂.table with current := .none, running := fun hd => absurd hd hp }, h₂.emitter,
      h₂.stack⟩
  · obtain ⟨front, cmd, rest, f, f', c₂, c₂', hsplit, hfails, -⟩ := hfails
    have hstop := hfails.replay_eq rest
    rw [← hsplit, hreplay] at hstop
    cases hstop

/-- Whatever is handled, the compilation stays its own counterpart as long as no instance with one
of the names is declared. -/
theorem Alike.of_handle (horderly : c.Orderly) (hcmd : handle cmd c = .ok () c')
    (hprogram' : c'.program = none)
    (hnames : ∀ q, (c'.table.instances.find? q).isSome = true → stem q ≠ p.fst ∧ stem q ≠ p.snd) :
    c'.Alike p c' := by
  obtain ⟨hprogram, hhandles, -⟩ := handles_of_handle hcmd horderly.sound.records
  by_cases hrecorder : c.recording.isSome = true ∨ cmd.kind ∈ [.beginClass, .endClass]
  · exact h.of_recorder hp horderly hrecorder hcmd
  · obtain ⟨hrecording, hclass⟩ := not_or.mp hrecorder
    rw [Bool.not_eq_true, Option.isSome_eq_false_iff, Option.isNone_iff_eq_none] at hrecording
    by_cases hinstance : cmd.kind = .declareInstance
    · have hdeclare := hcmd
      rw [handle_eq_declareInstance hprogram hrecording hinstance] at hdeclare
      obtain ⟨k, -, hclass, -⟩ := horderly.declareInstance_eq_ok hdeclare
      obtain ⟨hfst, hsnd⟩ :=
        hnames cmd.name (horderly.confined_declareInstance hclass hdeclare).1
      exact h.of_declareInstance hp horderly hfst hsnd hdeclare
    · have hend : cmd.kind ≠ .endProgram := by
        intro hend
        rw [Handles, if_neg (by simp [hrecording])] at hhandles
        simp only [hend] at hhandles
        obtain ⟨lines, -, hlines⟩ := hhandles
        rw [hprogram'] at hlines
        cases hlines
      rw [handle_eq_construct hprogram hrecording hinstance, locate_eq_ok] at hcmd
      refine h.of_construct hp ?_ hcmd
      simp only [List.mem_cons, List.not_mem_nil, or_false, not_or] at hclass ⊢
      exact ⟨hclass.1, hclass.2, hinstance, hend⟩

end Undeclared

/-- A program that has not failed so far does not refer to instances of any other name. -/
theorem alike_of_handled (hp : ¬p.declared) {file : String} {symbols : RuntimeSymbols}
    {commands : List Command} (hc : handled? commands (start file symbols) = some c)
    (hprogram : c.program = none)
    (hnames : ∀ q, (c.table.instances.find? q).isSome = true → stem q ≠ p.fst ∧ stem q ≠ p.snd) :
    c.Alike p c := by
  induction commands using List.reverseRecOn generalizing c with
  | nil =>
    obtain rfl : start file symbols = c := Option.some.inj hc
    exact alike_start p file symbols hp
  | append_singleton front cmd ih =>
    obtain ⟨c₁, hfront, hlast⟩ := handled?_append.mp hc
    have hcmd := handled?_single.mp hlast
    have horderly := (orderly_start file symbols).of_handled hfront
    obtain ⟨hprogram₁, -, -⟩ := handles_of_handle hcmd horderly.sound.records
    have h₁ := ih hfront hprogram₁ fun q hq => hnames q (horderly.instances_of_handle hcmd hq)
    exact h₁.of_handle hp horderly hcmd hprogram hnames

end Compilation

end MkCompiler
