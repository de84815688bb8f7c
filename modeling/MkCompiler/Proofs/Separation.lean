import MkCompiler.Proofs.BodyOperations
import MkCompiler.Proofs.StateTraces

/-!
# Functions and the entry point

The entry point and the functions are written in turns, and classes bring in further functions
whenever an instance is declared. They do not disturb one another, whatever is refused on the way:
the section of the functions consists of the functions that have been closed, followed by the open
one; a function that has been closed stays as it is; and while a function is open the entry point
stands where it stood.
-/

namespace MkCompiler

open MkCompiler.Action

namespace Emitter

variable {e e' : Emitter} {t : Transcript}

/-- What a step of a compilation may do to the functions that have been written and to the entry
point. -/
structure Advances (e e' : Emitter) : Prop where
  /-- The closed functions stay as they are, unless the open one is closed. -/
  closed : (e.inFunction = true → e'.inFunction = true) →
    e'.transcript.closed = e.transcript.closed
  /-- A function that is closed follows those that were closed before. -/
  added : e.inFunction = true → e'.inFunction = false → ∃ d, e.transcript.opened = some d ∧
    e'.transcript.closed = e.transcript.closed ++
      [{ d with body := d.body ++ closingCode e.active.detached }]
  /-- A function that stays open stays the same one. -/
  opened : e.inFunction = true → e'.inFunction = true →
    e'.transcript.opened.map Definition.opening = e.transcript.opened.map Definition.opening
  /-- The entry point stands still while a function is open, is being opened or is closed. -/
  entry : e.inFunction = true ∨ e'.inFunction = true → e.SameEntry e'

theorem Advances.refl (e : Emitter) : e.Advances e where
  closed _ := rfl
  added h h' := by
    rw [h] at h'
    cases h'
  opened _ _ := rfl
  entry _ := refl_of SameEntry e

theorem Advances.closed_prefix (h : e.Advances e') :
    e.transcript.closed <+: e'.transcript.closed := by
  by_cases hopen : e.inFunction = true → e'.inFunction = true
  · rw [h.closed hopen]
  · obtain ⟨hinside, houtside⟩ := Classical.not_imp.mp hopen
    obtain ⟨d, -, hclosed⟩ := h.added hinside (eq_false_of_ne_true houtside)
    rw [hclosed]
    exact List.prefix_append _ _

/-- The section of the functions consists of the functions that have been closed, in order, and the
one that is open. What is written next goes to the end of the open function or, outside of all
functions, to the entry point. -/
structure Composed (e : Emitter) : Prop where
  functions : e.output.functions =
    e.transcript.closed.flatMap Definition.lines ++ e.transcript.openLines
  orderly : e.transcript.Orderly
  outside : e.function = none →
    e.transcript.opened = none ∧ e.output.routing = .direct .entryBody
  inside : ∀ f, e.function = some f → e.output.routing = .direct .functions ∧
    ∃ d name params, e.transcript.opened = some d ∧
      d.opening = .define f.signature.result.irType name params ∧ name.Denotes f.signature

theorem Tidy.composed (h : e.Tidy t) (hr : e.Direct) : e.Composed := by
  refine ⟨(Transcript.lines_ofLines _).symm, ?_, fun hf => ?_, fun f hf => ?_⟩
  · rw [h.transcript_eq]
    exact h.orderly
  · have houtside : e.inFunction = false := by simp [inFunction, hf]
    rw [h.transcript_eq, hr, (h.target_of_outside houtside).1]
    exact ⟨h.outside hf, rfl⟩
  · have hinside : e.inFunction = true := by simp [inFunction, hf]
    obtain ⟨d, hd, hwrites⟩ := h.inside f hf
    obtain ⟨name, params, hopening, hname⟩ := hwrites.opening
    rw [h.transcript_eq, hr, (h.target_of_inside hinside).1]
    exact ⟨rfl, d, name, params, hd, hopening, hname⟩

theorem tidy_start (symbols : RuntimeSymbols) : (start symbols).Tidy {} where
  functions := rfl
  orderly := ⟨by simp, by simp⟩
  routing := rfl
  buffer := by simp [start, Assembly.start, Assembly.appendTo, Assembly.setContent, Routing.buffer]
  target := rfl
  mark := rfl
  position := Int.le_refl _
  outside _ := rfl
  inside := by simp [start]

def Proceeds (e e' : Emitter) : Prop :=
  e.Advances e' ∧ ∃ t, e'.Tidy t

theorem Tidy.proceeds (h : e.Tidy t) : e.Proceeds e :=
  ⟨.refl e, t, h⟩

theorem Tidy.proceeds_of_stays (h : e.Tidy t) (hs : e.Stays e') : e.Proceeds e' := by
  obtain ⟨opened, htidy, hopening, hinside, hentry⟩ := hs t h
  refine ⟨⟨fun _ => ?_, fun hf hf' => ?_, fun _ _ => ?_, fun hf => ?_⟩, _, htidy⟩
  · rw [h.transcript_eq, htidy.transcript_eq]
  · rw [hinside, hf] at hf'
    cases hf'
  · rw [h.transcript_eq, htidy.transcript_eq]
    exact hopening
  · exact hentry (hf.elim id hinside.symm.trans)

theorem ends_openFunction_proceeds (h : e.Tidy t) (hr : e.Direct) {name : GlobalName}
    {sig : Signature} (hname : name.Denotes sig) (params : List Param) :
    Ends (openFunction name sig params) e (fun _ => e.Proceeds) fun _ => e.Proceeds := by
  apply (ends_openFunction_tidy h hr hname params).mono
  · rintro _ e' ⟨houtside, -, hentry, d, htidy⟩
    refine ⟨⟨fun _ => ?_, fun hf => ?_, fun hf => ?_, fun _ => hentry⟩, _, htidy⟩
    · rw [h.transcript_eq, htidy.transcript_eq]
    · rw [houtside] at hf
      cases hf
    · rw [houtside] at hf
      cases hf
  · rintro _ _ rfl
    exact h.proceeds

theorem ends_endFunction_proceeds (h : e.Tidy t) (hr : e.Direct) :
    Ends endFunction e (fun _ => e.Proceeds) fun _ => e.Proceeds := by
  apply (ends_endFunction_tidy h hr).mono
  · rintro _ e' ⟨hinside, houtside, hentry, d, hopened, htidy⟩
    refine ⟨⟨fun hf => ?_, fun _ _ => ⟨d, ?_, ?_⟩, fun _ hf => ?_, fun _ => hentry⟩, _, htidy⟩
    · rw [hf hinside] at houtside
      cases houtside
    · rw [h.transcript_eq, hopened]
    · rw [h.transcript_eq, htidy.transcript_eq]
    · rw [houtside] at hf
      cases hf
  · rintro _ _ rfl
    exact h.proceeds

theorem ends_finish_proceeds (h : e.Tidy t) (hr : e.Direct) :
    Ends finish e (fun _ => e.Proceeds) fun _ => e.Proceeds := by
  apply (ends_finish_tidy h hr).mono
  · rintro _ e' ⟨houtside, houtside', htidy⟩
    refine ⟨⟨fun _ => ?_, fun hf => ?_, fun hf => ?_, fun hf => ?_⟩, _, htidy⟩
    · rw [h.transcript_eq, htidy.transcript_eq]
    · rw [houtside] at hf
      cases hf
    · rw [houtside] at hf
      cases hf
    · rw [houtside, houtside'] at hf
      simp at hf
  · rintro _ _ rfl
    exact h.proceeds

end Emitter

namespace Compilation

variable {α β : Type} {c c' : Compilation} {t : Transcript}

def StaysInside (c c' : Compilation) : Prop :=
  c.emitter.Stays c'.emitter

instance : IsPreorder Compilation StaysInside where
  refl c := refl_of Emitter.Stays c.emitter
  trans _ _ _ h h' := trans_of Emitter.Stays h h'

theorem SameEmitter.staysInside (h : SameEmitter c c') : StaysInside c c' := by
  rw [StaysInside, h]
  exact refl_of Emitter.Stays c.emitter

theorem staysInside_onEmitter {x : Action Emitter α} (hx : Leads Emitter.Stays x) :
    Leads StaysInside (onEmitter x) := by
  intro c
  rw [onEmitter, ends_zoom]
  exact hx c.emitter

theorem sameEmitter_onTable (x : Action SymbolTable α) : Leads SameEmitter (onTable x) := by
  intro c
  rw [onTable, ends_zoom, Ends]
  cases x c.table <;> rfl

theorem declares_staysInside : Declares (fun {_} x => Leads StaysInside x)
    fun {_} x => Leads Emitter.Stays x :=
  .of_scopes (works_leads (fun c _ => refl_of Emitter.Stays c.emitter) staysInside_onEmitter)
    (fun _ => (sameEmitter_onTable _).mono fun _ _ h => h.staysInside) leads_requireOutside
    Emitter.leads_declareArray

theorem staysInside_ret : Leads StaysInside ret :=
  declares_staysInside.pop.bind fun _ => (staysInside_onEmitter (Emitter.leads_ret _)).bind
    fun _ => .update fun c => refl_of Emitter.Stays c.emitter

theorem sameEmitter_declareLocals (locals : List Local) :
    Leads SameEmitter (declareLocals locals) := by
  induction locals with
  | nil => exact .pure _
  | cons l rest ih => exact (sameEmitter_onTable _).bind fun _ => ih

theorem sameEmitter_beginClass (name : String) : Leads SameEmitter (beginClass name) := by
  intro c
  apply (ends_beginClass c name).mono
  · rintro _ _ ⟨-, -, -, rfl⟩
    rfl
  · rintro _ _ ⟨rfl, -⟩
    rfl

theorem sameEmitter_endClass : Leads SameEmitter endClass := by
  intro c
  apply (ends_endClass c).mono
  · rintro _ _ ⟨id, k, -, -, -, rfl⟩
    rfl
  · rintro _ _ ⟨rfl, -⟩
    rfl

/-! ## Constructs -/

section SameEmitter

variable {P : Emitter → Prop} {x : Action Compilation α} {f : α → Action Compilation β}

theorem SameEmitter.transfer (h : SameEmitter c c') (hp : P c.emitter) : P c'.emitter := by
  rw [show c'.emitter = c.emitter from h]
  exact hp

theorem ends_bind_sameEmitter (hx : Leads SameEmitter x) (hc : P c.emitter)
    (hf : ∀ a c', SameEmitter c c' →
      Ends (f a) c' (fun _ c'' => P c''.emitter) fun _ c'' => P c''.emitter) :
    Ends (x >>= f) c (fun _ c' => P c'.emitter) fun _ c' => P c'.emitter := by
  rw [ends_bind]
  apply (hx c).mono
  · intro a c' hsame
    exact hf a c' hsame
  · intro _ c' hsame
    exact hsame.transfer hc

theorem ends_bind_of_sameEmitter
    (hx : Ends x c (fun _ c' => P c'.emitter) fun _ c' => P c'.emitter)
    (hf : ∀ a, Leads SameEmitter (f a)) :
    Ends (x >>= f) c (fun _ c' => P c'.emitter) fun _ c' => P c'.emitter := by
  rw [ends_bind]
  apply hx.mono
  · intro a c₁ hp
    exact (hf a c₁).mono (fun _ _ hsame => hsame.transfer hp) fun _ _ hsame => hsame.transfer hp
  · intro _ c₁ hp
    exact hp

end SameEmitter

section Constructs

variable {cmd : Command} (h : c.emitter.Tidy t) (hr : c.emitter.Direct)
include h

abbrev ProceedsFrom (x : Action Compilation α) (c : Compilation) : Prop :=
  Ends x c (fun _ c' => c.emitter.Proceeds c'.emitter) fun _ c' => c.emitter.Proceeds c'.emitter

theorem proceeds_of_leads {x : Action Compilation α} (hx : Leads StaysInside x) :
    ProceedsFrom x c :=
  (hx c).mono (fun _ _ => h.proceeds_of_stays) fun _ _ => h.proceeds_of_stays

include hr

theorem proceeds_openBody (name : String) (result : DataType) (params : List Param) :
    ProceedsFrom (openBody name result params) c := by
  have hopen {c' : Compilation} (hsame : SameEmitter c c') {symbol : GlobalName} {sig : Signature}
      (hsymbol : symbol.Denotes sig) : Ends (onEmitter (Emitter.openFunction symbol sig params)) c'
        (fun _ c'' => c.emitter.Proceeds c''.emitter)
        fun _ c'' => c.emitter.Proceeds c''.emitter := by
    rw [onEmitter, ends_zoom, show c'.emitter = c.emitter from hsame]
    exact Emitter.ends_openFunction_proceeds h hr hsymbol params
  rw [openBody, ProceedsFrom, ends_bind, ends_get]
  cases c.table.instance? with
  | some inst =>
    apply ends_bind_sameEmitter (sameEmitter_onTable _) h.proceeds
    intro k c₁ h₁
    cases k.methods.find? name with
    | none => exact ends_throw.mpr (h₁.transfer h.proceeds)
    | some sig => exact ends_bind_of_sameEmitter (hopen h₁ (.inr ⟨_, rfl⟩)) fun _ => .pure _
  | none =>
    apply ends_bind_sameEmitter ((composes_leads _).checkSignature _ _ _) h.proceeds
    intro _ c₁ h₁
    apply ends_bind_sameEmitter (sameEmitter_onTable _) (h₁.transfer h.proceeds)
    intro _ c₂ h₂
    exact ends_bind_of_sameEmitter (hopen (trans_of SameEmitter h₁ h₂) (.inl rfl)) fun _ => .pure _

theorem proceeds_declareFunction (name : String) (result : DataType) (params : List Param) :
    ProceedsFrom (declareFunction name result params) c := by
  rw [declareFunction, ProceedsFrom, ends_bind]
  apply (leads_requireOutside (R := Eq) _ c).mono
  · rintro _ _ rfl
    apply ends_bind_of_sameEmitter (proceeds_openBody h hr name result params)
    rintro ⟨sig, locals⟩
    exact Leads.bind (.update fun _ => rfl) fun _ => (sameEmitter_declareLocals locals).bind
      fun _ => .update fun _ => rfl
  · rintro _ _ rfl
    exact h.proceeds

theorem proceeds_endFunction : ProceedsFrom endFunction c := by
  rw [endFunction, ProceedsFrom, ends_bind, ends_get]
  cases c.function with
  | none => exact ends_reject.mpr h.proceeds
  | some f =>
    dsimp only
    rw [ends_bind, ends_require]
    refine ⟨fun _ => ?_, fun _ => h.proceeds⟩
    apply ends_bind_of_sameEmitter
    · rw [onEmitter, ends_zoom]
      exact Emitter.ends_endFunction_proceeds h hr
    · intro _
      exact .update fun _ => rfl

theorem proceeds_endProgram : ProceedsFrom endProgram c := by
  rw [endProgram, ProceedsFrom, ends_bind, ends_get]
  cases c.function with
  | some f => exact ends_reject.mpr h.proceeds
  | none =>
    apply ends_bind_of_sameEmitter
    · rw [onEmitter, ends_zoom]
      exact Emitter.ends_finish_proceeds h hr
    · intro _
      exact .update fun _ => rfl

theorem proceeds_construct (cmd : Command) : ProceedsFrom (construct cmd) c := by
  by_cases hkind : cmd.kind ∉ [.declareFunction, .endFunction, .ret, .beginClass, .endClass,
    .endProgram]
  · exact proceeds_of_leads h (declares_staysInside.construct Emitter.branches_stays hkind)
  · simp only [List.mem_cons, List.not_mem_nil, or_false, Decidable.not_not] at hkind
    rw [construct]
    rcases hkind with hkind | hkind | hkind | hkind | hkind | hkind <;> rw [hkind]
    · exact proceeds_declareFunction h hr _ _ _
    · exact proceeds_endFunction h hr
    · exact proceeds_of_leads h staysInside_ret
    · exact proceeds_of_leads h
        ((sameEmitter_beginClass _).mono fun _ _ => SameEmitter.staysInside)
    · exact proceeds_of_leads h (sameEmitter_endClass.mono fun _ _ => SameEmitter.staysInside)
    · exact proceeds_endProgram h hr

end Constructs

/-! ## Whole compilations -/

theorem Sound.direct {S : Command → Prop} {owner : Option (String × Nat)} {orderly : Prop}
    (h : c.Sound S owner orderly) : c.emitter.Direct :=
  h.emitter.anchored.routing

/-- The functions and the entry point are kept apart by every step. -/
theorem respects_advances (S : Command → Prop) :
    Respects S (fun c => ∃ t, c.emitter.Tidy t) fun c c' => c.emitter.Advances c'.emitter where
  lasts := by
    refine ⟨?_, fun hsame => hsame.transfer (P := fun e => ∃ t, e.Tidy t)⟩
    rintro c owner cmd hsound ⟨t, h⟩ -
    exact (proceeds_construct h hsound.direct cmd).mono (fun _ _ hp => hp.2) fun _ _ hp => hp.2
  construct := by
    rintro c owner cmd hsound ⟨t, h⟩ -
    exact (proceeds_construct h hsound.direct cmd).mono (fun _ _ hp => hp.1) fun _ _ hp => hp.1
  idle := by
    intro c c' hsame
    rw [show c'.emitter = c.emitter from hsame]
    exact .refl _

/-- While functions are open the entry point stands still: between the state before they were opened
and the one behind the last of them. -/
theorem sameEntry_of_isChain {route : List Compilation}
    (h : route.IsChain fun c c' => c.emitter.Advances c'.emitter) {i j : Nat} (hij : i + 1 < j)
    (hopen : ∀ k, i < k → k < j → ∃ c ∈ route[k]?, c.emitter.inFunction = true)
    (hc : c ∈ route[i]?) (hc' : c' ∈ route[j]?) : c.emitter.SameEntry c'.emitter := by
  have hstep {k : Nat} {d d' : Compilation} (hd : d ∈ route[k]?) (hd' : d' ∈ route[k + 1]?) :
      d.emitter.Advances d'.emitter := by
    obtain ⟨hk, rfl⟩ := List.getElem?_eq_some_iff.mp hd
    obtain ⟨hk', rfl⟩ := List.getElem?_eq_some_iff.mp hd'
    exact List.isChain_iff_getElem.mp h k hk'
  -- The states in between, the first of which opens a function.
  have hbetween (n : Nat) (hn : i + 1 + n < j) (d : Compilation) (hd : d ∈ route[i + 1 + n]?)
      (hinside : d.emitter.inFunction = true) : c.emitter.SameEntry d.emitter := by
    induction n generalizing d with
    | zero => exact (hstep hc hd).entry (.inr hinside)
    | succ n ih =>
      obtain ⟨d', hd', hinside'⟩ := hopen (i + 1 + n) (by omega) (by omega)
      exact trans_of Emitter.SameEntry (ih (by omega) d' hd' hinside')
        ((hstep hd' hd).entry (.inl hinside'))
  obtain ⟨n, rfl⟩ := Nat.exists_eq_add_of_lt hij
  obtain ⟨d, hd, hinside⟩ := hopen (i + 1 + n) (by omega) (by omega)
  exact trans_of Emitter.SameEntry (hbetween n (by omega) d hd hinside)
    ((hstep hd hc').entry (.inl hinside))

/-- Functions and the entry point do not disturb one another, in all states that a compilation comes
through: behind notifications, refused ones among them, and while the body of a class is run for an
instance. The section of the functions consists of the closed functions and the open one; a function
that has been closed stays the way it was for the rest of the run; and from the state before a
function is opened to the one behind its end the entry point stands still, so that it goes on where
it stood. -/
theorem functions_and_entry_apart (file : String) (symbols : RuntimeSymbols)
    (commands : List Command) :
    let route := states commands (start file symbols)
    route.getLast? = some (behind commands (start file symbols)) ∧
      (∀ c ∈ route, c.emitter.Composed) ∧
      (route.Pairwise fun c c' =>
        c.emitter.transcript.closed <+: c'.emitter.transcript.closed) ∧
      (route.IsChain fun c c' => c.emitter.Advances c'.emitter) ∧
      ∀ i j, i + 1 < j → (∀ k, i < k → k < j → ∃ c ∈ route[k]?, c.emitter.inFunction = true) →
        ∀ c ∈ route[i]?, ∀ c' ∈ route[j]?, c.emitter.SameEntry c'.emitter := by
  intro route
  have hrespects := respects_advances fun _ => True
  have hstart : (start file symbols).Intact (fun _ => True) (fun c => ∃ t, c.emitter.Tidy t) none :=
    intact_start file symbols ⟨{}, Emitter.tidy_start symbols⟩
  have hcommands : ∀ cmd ∈ commands, True := fun _ _ => trivial
  obtain ⟨hall, hchain⟩ := hrespects.states hstart hcommands
  refine ⟨getLast?_states _ _, fun c hc => ?_, ?_, hchain, fun i j hij hopen c hc c' hc' => ?_⟩
  · obtain ⟨owner, hintact⟩ := hall c hc
    obtain ⟨t, htidy⟩ := hintact.holds
    exact htidy.composed hintact.sound.direct
  · have hprefix := hchain.imp fun _ _ h => h.closed_prefix
    have htrans : Trans
        (fun c c' : Compilation => c.emitter.transcript.closed <+: c'.emitter.transcript.closed)
        (fun c c' : Compilation => c.emitter.transcript.closed <+: c'.emitter.transcript.closed)
        fun c c' : Compilation => c.emitter.transcript.closed <+: c'.emitter.transcript.closed :=
      ⟨List.IsPrefix.trans⟩
    exact hprefix.pairwise
  · exact sameEntry_of_isChain hchain hij hopen hc hc'

/-- A class and an instance of it, whose field is set by the entry point; a function that calls a
method of the instance, in which a notification is refused; a call of the method by the entry point;
and a function that stays open. -/
def interleavedStream : List Command :=
  [{ kind := .beginClass, name := "P" }, { kind := .int, text := "1" },
    { kind := .declareVariable, name := "n", hasInit := true },
    { kind := .declareFunction, name := "next", type := .int },
    { kind := .name, name := "n" }, { kind := .ret }, { kind := .endFunction },
    { kind := .endClass }, { kind := .declareInstance, name := "p", target := "P" },
    { kind := .declareFunction, name := "f", type := .int },
    { kind := .callMethod, target := "p", name := "next" }, { kind := .name, name := "missing" },
    { kind := .ret }, { kind := .endFunction },
    { kind := .callMethod, target := "p", name := "next" }, { kind := .print },
    { kind := .declareFunction, name := "g", type := .int }]

theorem functions_and_entry_apart_sample :
    let route := states interleavedStream (start "sample.mk" .standard)
    (∀ k, 16 < k → k < 21 → ∃ c ∈ route[k]?, c.emitter.inFunction = true) ∧
      (∃ c ∈ route[16]?, ∃ c' ∈ route[21]?, c.emitter.SameEntry c'.emitter) ∧
      (route[16]?.map fun c : Compilation => c.emitter.transcript.closed.map Definition.opening) =
        some [Line.define .i32 (.method "p" "next") []] ∧
      (route[21]?.map fun c : Compilation => c.emitter.transcript.closed.map Definition.opening) =
        some [Line.define .i32 (.method "p" "next") [], Line.define .i32 (.function "f") []] := by
  intro route
  have hinside : route.map (fun c => c.emitter.inFunction) =
      List.replicate 12 false ++ List.replicate 3 true ++ List.replicate 2 false ++
        List.replicate 4 true ++ List.replicate 3 false ++ [true] := by
    decide +kernel
  have hstate {k : Nat} {b : Bool}
      (h : (route.map fun c => c.emitter.inFunction)[k]? = some b) :
      ∃ c ∈ route[k]?, c.emitter.inFunction = b := by
    rw [List.getElem?_map] at h
    exact Option.map_eq_some_iff.mp h
  rw [hinside] at hstate
  have hopen (k : Nat) (hlow : 16 < k) (hhigh : k < 21) :
      ∃ c ∈ route[k]?, c.emitter.inFunction = true := by
    apply hstate
    obtain rfl | rfl | rfl | rfl : k = 17 ∨ k = 18 ∨ k = 19 ∨ k = 20 := by omega
    all_goals rfl
  obtain ⟨c, hc, -⟩ := hstate (k := 16) rfl
  obtain ⟨c', hc', -⟩ := hstate (k := 21) rfl
  obtain ⟨-, -, -, -, hentry⟩ :=
    functions_and_entry_apart "sample.mk" .standard interleavedStream
  exact ⟨hopen, ⟨c, hc, c', hc', hentry 16 21 (by decide) hopen c hc c' hc'⟩,
    by decide +kernel, by decide +kernel⟩

end Compilation

end MkCompiler
