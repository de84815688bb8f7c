import MkCompiler.Proofs.Anchors
import MkCompiler.Proofs.Frames
import MkCompiler.Proofs.Layout

/-!
# Transcripts of the functions

All functions are written to one section. Its lines can be read back as the functions that have been
closed, in order, and the one that is open. What is done inside of a body adds to the open function
and nothing else: the closed ones stay as they are, and so does the entry point while a function is
open. This holds whichever way an operation ends, also while the output is held.
-/

namespace MkCompiler

open MkCompiler.Action

/-- The definition of a function: an opening line that is not that of the entry point, and code. -/
structure Definition.IsFunction (d : Definition) : Prop where
  opening : ∃ result name params, d.opening = .define result name params
  body : ∀ line ∈ d.body, line.isCode = true

/-- The section of the functions: those that are closed, and the one that is open. -/
structure Transcript where
  closed : List Definition := []
  opened : Option Definition := none
  deriving DecidableEq, Repr

namespace Transcript

def read (t : Transcript) (line : Line) : Transcript :=
  match t.opened with
  | none => { t with opened := some ⟨line, []⟩ }
  | some d =>
    if line = .close then ⟨t.closed ++ [d], none⟩
    else { t with opened := some { d with body := d.body ++ [line] } }

def ofLines (lines : List Line) : Transcript :=
  lines.foldl read {}

def closedLines (t : Transcript) : List Line :=
  t.closed.flatMap Definition.lines

def openLines (t : Transcript) : List Line :=
  match t.opened with
  | none => []
  | some d => d.opening :: d.body

def lines (t : Transcript) : List Line :=
  t.closedLines ++ t.openLines

theorem read_none (closed : List Definition) (line : Line) :
    read ⟨closed, none⟩ line = ⟨closed, some ⟨line, []⟩⟩ := rfl

theorem read_close (closed : List Definition) (d : Definition) :
    read ⟨closed, some d⟩ .close = ⟨closed ++ [d], none⟩ := rfl

theorem read_code {line : Line} (h : line.isCode = true) (closed : List Definition)
    (d : Definition) :
    read ⟨closed, some d⟩ line = ⟨closed, some { d with body := d.body ++ [line] }⟩ := by
  have hline : line ≠ .close := by
    rintro rfl
    cases h
  exact if_neg hline

theorem lines_read (t : Transcript) (line : Line) : (t.read line).lines = t.lines ++ [line] := by
  obtain ⟨closed, opened⟩ := t
  cases opened with
  | none => simp [read, lines, closedLines, openLines]
  | some d =>
    by_cases h : line = .close <;>
      simp [read, lines, closedLines, openLines, Definition.lines, h]

/-- Every list of lines is the concatenation of what is read from it. -/
theorem lines_ofLines (lines : List Line) : (ofLines lines).lines = lines := by
  have hfold (t : Transcript) : (lines.foldl read t).lines = t.lines ++ lines := by
    induction lines generalizing t with
    | nil => simp
    | cons line rest ih =>
      rw [List.foldl_cons, ih, lines_read, List.append_assoc, List.singleton_append]
  exact (hfold {}).trans (List.nil_append lines)

structure Orderly (t : Transcript) : Prop where
  closed : ∀ d ∈ t.closed, d.IsFunction
  opened : ∀ d, t.opened = some d → d.IsFunction

theorem foldl_read_code {code : List Line} (h : ∀ line ∈ code, line.isCode = true)
    (closed : List Definition) (d : Definition) :
    code.foldl read ⟨closed, some d⟩ = ⟨closed, some { d with body := d.body ++ code }⟩ := by
  induction code generalizing d with
  | nil => simp
  | cons line rest ih =>
    rw [List.foldl_cons, read_code (h line (by simp)),
      ih fun line' hline' => h line' (by simp [hline'])]
    simp

theorem foldl_read_closed {ds : List Definition} (h : ∀ d ∈ ds, d.IsFunction)
    (closed : List Definition) :
    (ds.flatMap Definition.lines).foldl read ⟨closed, none⟩ = ⟨closed ++ ds, none⟩ := by
  induction ds generalizing closed with
  | nil => simp
  | cons d rest ih =>
    have hbody := (h d (by simp)).body
    rw [List.flatMap_cons, List.foldl_append, Definition.lines, List.cons_append, List.foldl_cons,
      List.foldl_append, read_none, foldl_read_code hbody, List.foldl_cons, List.foldl_nil,
      read_close, List.nil_append, ih fun d' hd' => h d' (by simp [hd'])]
    simp

theorem ofLines_lines {t : Transcript} (h : t.Orderly) : ofLines t.lines = t := by
  obtain ⟨closed, opened⟩ := t
  have hclosed := foldl_read_closed h.closed []
  rw [List.nil_append] at hclosed
  unfold ofLines lines closedLines
  rw [List.foldl_append]
  change List.foldl read (List.foldl read ⟨[], none⟩ _) _ = _
  rw [hclosed]
  cases opened with
  | none => rfl
  | some d =>
    change List.foldl read (read ⟨closed, none⟩ d.opening) d.body = _
    rw [read_none, foldl_read_code (h.opened d rfl).body, List.nil_append]

/-- Code that is inserted behind the opening line of the open function becomes part of its body. -/
theorem exists_insert {d : Definition} (hd : d.IsFunction) {code : List Line}
    (hcode : ∀ line ∈ code, line.isCode = true) (closed : List Definition) {n : Nat}
    (hn : (closed.flatMap Definition.lines).length < n) :
    ∃ body, (∀ line ∈ body, line.isCode = true) ∧
      (lines ⟨closed, some d⟩).take n ++ code ++ (lines ⟨closed, some d⟩).drop n =
        lines ⟨closed, some { d with body }⟩ := by
  obtain ⟨m, rfl⟩ := Nat.exists_eq_add_of_lt hn
  refine ⟨d.body.take m ++ code ++ d.body.drop m, ?_, ?_⟩
  · intro line hline
    rcases List.mem_append.mp hline with hline | hline
    · rcases List.mem_append.mp hline with hline | hline
      · exact hd.body line (List.mem_of_mem_take hline)
      · exact hcode line hline
    · exact hd.body line (List.mem_of_mem_drop hline)
  · unfold lines closedLines openLines
    rw [Nat.add_assoc, List.take_length_add_append, List.drop_length_add_append]
    simp

end Transcript

def Routing.target {α : Type} : Routing α → Section
  | .direct target => target
  | .held resume _ => resume

def Routing.buffer {α : Type} : Routing α → List α
  | .direct _ => []
  | .held _ buffer => buffer

/-- The symbol is that of a function or of a method with the signature. -/
def GlobalName.Denotes (name : GlobalName) (sig : Signature) : Prop :=
  name = .function sig.name ∨ ∃ inst, name = .method inst sig.name

/-- An open function whose text so far is `d`, behind the first lines of the section. Its mark lies
behind the opening line. -/
structure OpenFunction.Writes (f : OpenFunction) (d : Definition) (before : Nat) : Prop where
  opening : ∃ name params, d.opening = .define f.signature.result.irType name params ∧
    name.Denotes f.signature
  target : f.context.target = .functions
  mark : f.context.slots.target = .functions
  position : before < f.context.slots.position

namespace Emitter

variable {α : Type} {e e' : Emitter} {t : Transcript}

def transcript (e : Emitter) : Transcript :=
  .ofLines e.output.functions

structure SameEntry (e e' : Emitter) : Prop where
  context : e'.entry = e.entry
  declaration : e'.output.entryDeclaration = e.output.entryDeclaration
  body : e'.output.entryBody = e.output.entryBody

instance : IsPreorder Emitter SameEntry where
  refl _ := ⟨rfl, rfl, rfl⟩
  trans _ _ _ h h' := ⟨h'.context.trans h.context, h'.declaration.trans h.declaration,
    h'.body.trans h.body⟩

/-- The section of the functions is that of the transcript, and what is written next goes to the end
of the open function or, outside of all functions, to the entry point. -/
structure Tidy (e : Emitter) (t : Transcript) : Prop where
  functions : e.output.functions = t.lines
  orderly : t.Orderly
  routing : e.output.routing.target = e.active.target
  buffer : ∀ line ∈ e.output.routing.buffer, line.isCode = true
  target : e.entry.target = .entryBody
  mark : e.entry.slots.target = .entryBody
  position : 0 ≤ e.entry.slots.position
  outside : e.function = none → t.opened = none
  inside : ∀ f, e.function = some f → ∃ d, t.opened = some d ∧ f.Writes d t.closedLines.length

theorem Tidy.transcript_eq (h : e.Tidy t) : e.transcript = t := by
  rw [transcript, h.functions, Transcript.ofLines_lines h.orderly]

/-- What is done inside of a body: the closed functions stay, no function is opened or closed, and
while one is open it stays the same one and the entry point stays as it is. -/
def Stays (e e' : Emitter) : Prop :=
  ∀ t, e.Tidy t → ∃ opened, e'.Tidy ⟨t.closed, opened⟩ ∧
    opened.map Definition.opening = t.opened.map Definition.opening ∧
    e'.inFunction = e.inFunction ∧ (e.inFunction = true → e.SameEntry e')

instance : IsPreorder Emitter Stays where
  refl e t h := ⟨t.opened, h, rfl, rfl, fun _ => refl_of SameEntry e⟩
  trans e₁ e₂ e₃ h h' t ht := by
    obtain ⟨opened, ht₂, hopening, hinside, hentry⟩ := h t ht
    obtain ⟨opened', ht₃, hopening', hinside', hentry'⟩ := h' _ ht₂
    refine ⟨opened', ht₃, hopening'.trans hopening, hinside'.trans hinside, fun hf => ?_⟩
    exact trans_of SameEntry (hentry hf) (hentry' (hinside.trans hf))

theorem Tidy.lt_length (h : e.Tidy t) (hf : e.inFunction = true) :
    t.closedLines.length < e.output.functions.length := by
  obtain ⟨f, hf⟩ := Option.isSome_iff_exists.mp hf
  obtain ⟨d, hd, -⟩ := h.inside f hf
  rw [h.functions, Transcript.lines, Transcript.openLines, hd]
  simp

/-- The active context and the output may change as long as what is added to the section of the
functions is code, in the body of the open function. -/
theorem Tidy.replace (h : e.Tidy t) {c : FunctionContext} {o : Assembly Line} {n : Nat}
    (ht : c.target = e.active.target) (hm : c.slots.target = e.active.slots.target)
    (hp : e.active.slots.position ≤ c.slots.position)
    (hr : o.routing.target = e.output.routing.target)
    (hb : ∀ line ∈ o.routing.buffer, line.isCode = true)
    (houtside : e.inFunction = false → o.functions = e.output.functions)
    (hinside : e.inFunction = true → o.entryDeclaration = e.output.entryDeclaration ∧
      o.entryBody = e.output.entryBody ∧ ∃ n code, t.closedLines.length < n ∧
        (∀ line ∈ code, line.isCode = true) ∧
        o.functions = e.output.functions.take n ++ code ++ e.output.functions.drop n) :
    ∃ opened, ({ modifyActive (fun _ => c) e with output := o, labels := n } : Emitter).Tidy
        ⟨t.closed, opened⟩ ∧
      opened.map Definition.opening = t.opened.map Definition.opening ∧
      ({ modifyActive (fun _ => c) e with output := o, labels := n } : Emitter).inFunction =
        e.inFunction ∧
      (e.inFunction = true →
        e.SameEntry { modifyActive (fun _ => c) e with output := o, labels := n }) := by
  obtain ⟨symbols, output, entry, function, labels, finished⟩ := e
  cases function with
  | none =>
    have hopened : t.opened = none := h.outside rfl
    refine ⟨none, ⟨?_, ?_, ?_, hb, ?_, ?_, ?_, fun _ => rfl, by simp [modifyActive]⟩,
      by rw [hopened], rfl, ?_⟩
    · exact (houtside rfl).trans (h.functions.trans (by simp [Transcript.lines,
        Transcript.closedLines, Transcript.openLines, hopened]))
    · exact ⟨h.orderly.closed, by simp⟩
    · exact hr.trans (h.routing.trans ht.symm)
    · exact ht.trans h.target
    · exact hm.trans h.mark
    · exact Int.le_trans h.position hp
    · intro hf
      cases hf
  | some f =>
    obtain ⟨d, hd, hwrites⟩ := h.inside f rfl
    obtain ⟨hdeclaration, hbody, n, code, hn, hcode, hfunctions⟩ := hinside rfl
    obtain ⟨closed, opened⟩ := t
    obtain rfl : opened = some d := hd
    have hdefinition := h.orderly.opened d rfl
    obtain ⟨body, hlines, heq⟩ := Transcript.exists_insert hdefinition hcode closed hn
    rw [h.functions] at hfunctions
    refine ⟨some { d with body }, ⟨hfunctions.trans heq, ⟨h.orderly.closed, ?_⟩,
      hr.trans (h.routing.trans ht.symm), hb, h.target, h.mark, h.position, by simp [modifyActive],
      ?_⟩, rfl, rfl, fun _ => ⟨rfl, hdeclaration, hbody⟩⟩
    · rintro _ ⟨⟩
      exact ⟨hdefinition.opening, hlines⟩
    · rintro _ ⟨⟩
      exact ⟨_, rfl, hwrites.opening, ht.trans hwrites.target, hm.trans hwrites.mark,
        Int.lt_of_lt_of_le hwrites.position hp⟩

/-! ## Primitive steps -/

theorem Tidy.target_of_outside (h : e.Tidy t) (hf : e.inFunction = false) :
    e.active.target = .entryBody ∧ e.active.slots.target = .entryBody ∧
      0 ≤ e.active.slots.position := by
  have hnone : e.function = none := by simpa [inFunction] using hf
  rw [active, hnone]
  exact ⟨h.target, h.mark, h.position⟩

theorem Tidy.target_of_inside (h : e.Tidy t) (hf : e.inFunction = true) :
    e.active.target = .functions ∧ e.active.slots.target = .functions ∧
      t.closedLines.length < e.active.slots.position := by
  obtain ⟨f, hf⟩ := Option.isSome_iff_exists.mp hf
  obtain ⟨d, -, hwrites⟩ := h.inside f hf
  rw [active, hf]
  exact ⟨hwrites.target, hwrites.mark, hwrites.position⟩

theorem Tidy.position_nonneg (h : e.Tidy t) : 0 ≤ e.active.slots.position := by
  cases hf : e.inFunction with
  | false => exact (h.target_of_outside hf).2.2
  | true =>
    have hlt := (h.target_of_inside hf).2.2
    omega

theorem stays_context (n : Nat) {g : FunctionContext → FunctionContext}
    (ht : ∀ c, (g c).target = c.target) (hs : ∀ c, (g c).slots = c.slots) (e : Emitter) :
    Stays e (modifyActive g { e with labels := n }) := by
  intro t h
  have heq : modifyActive g { e with labels := n } =
      { modifyActive (fun _ => g e.active) e with output := e.output, labels := n } := by
    unfold modifyActive active
    cases e.function <;> rfl
  rw [heq]
  apply h.replace (ht _) (by rw [hs]) (Int.le_of_eq (by rw [hs])) rfl h.buffer
  · intro _
    rfl
  · intro hf
    exact ⟨rfl, rfl, _, [], h.lt_length hf, by simp, by simp⟩

/-- The output may change where the functions and the entry point do not show it. -/
theorem stays_output {o : Assembly Line} (hr : o.routing.target = e.output.routing.target)
    (hb : (∀ line ∈ e.output.routing.buffer, line.isCode = true) →
      ∀ line ∈ o.routing.buffer, line.isCode = true)
    (hfunctions : o.functions = e.output.functions)
    (hdeclaration : o.entryDeclaration = e.output.entryDeclaration)
    (hbody : o.entryBody = e.output.entryBody) : Stays e { e with output := o } := by
  intro t h
  have hkept := h.replace (c := e.active) (n := e.labels) rfl rfl (Int.le_refl _) hr (hb h.buffer)
    (fun _ => hfunctions) fun hf =>
      ⟨hdeclaration, hbody, _, [], h.lt_length hf, by simp, by simp [hfunctions]⟩
  rwa [modifyActive_active] at hkept

theorem stays_write {code : List Line} (hcode : ∀ line ∈ code, line.isCode = true) (k : Counter)
    (e : Emitter) : Stays e (e.write code k) := by
  intro t h
  rw [write_eq]
  cases hr : e.output.routing with
  | held resume buffer =>
    have happend : e.output.append code =
        { e.output with routing := .held resume (buffer ++ code) } := by
      rw [Assembly.append, hr]
    have hbuffer := h.buffer
    rw [hr] at hbuffer
    rw [happend]
    apply h.replace (c := e.active.setCounter k) rfl rfl (Int.le_refl _)
    · rw [hr]
      rfl
    · intro line hline
      rcases List.mem_append.mp hline with hline | hline
      · exact hbuffer line hline
      · exact hcode line hline
    · intro _
      rfl
    · intro hf
      exact ⟨rfl, rfl, _, [], h.lt_length hf, by simp, by simp⟩
  | direct target =>
    have happend : e.output.append code = e.output.appendTo target code := by
      rw [Assembly.append, hr]
    have htarget : target = e.active.target := by
      have hrouting := h.routing
      rwa [hr] at hrouting
    have hrouting : (e.output.appendTo target code).routing = .direct target := by
      rw [← hr]
      cases target <;> rfl
    rw [happend]
    apply h.replace (c := e.active.setCounter k) rfl rfl (Int.le_refl _)
    · rw [hrouting, hr]
    · rw [hrouting]
      simp [Routing.buffer]
    · intro hf
      rw [htarget, (h.target_of_outside hf).1]
      rfl
    · intro hf
      rw [htarget, (h.target_of_inside hf).1]
      exact ⟨rfl, rfl, _, code, h.lt_length hf, hcode, by
        simp [Assembly.appendTo, Assembly.setContent, Assembly.content]⟩

theorem stays_append {code : List Line} (hcode : ∀ line ∈ code, line.isCode = true) (e : Emitter) :
    Stays e (appendLines code e) := by
  have hwritten := stays_write hcode e.active.counter e
  have heq : e.write code e.active.counter = appendLines code e := by
    obtain ⟨_, _, _, function, _, _⟩ := e
    cases function <;> rfl
  rwa [heq] at hwritten

theorem stays_reroute {routing : Routing Line} (hr : routing.target = e.output.routing.target)
    (hb : ∀ line ∈ routing.buffer, line.isCode = true) :
    Stays e { e with output := { e.output with routing } } :=
  stays_output hr (fun _ => hb) rfl rfl rfl

theorem leads_header (line : Line) :
    Leads Stays (modify (appendHeader line) : Action Emitter PUnit) :=
  .update fun _ => stays_output rfl (fun h => h) rfl rfl rfl

theorem leads_hold : Leads Stays (onOutput Assembly.hold) := by
  intro e
  rw [onOutput, ends_zoom, Assembly.hold, ends_bind, ends_get]
  cases hr : e.output.routing with
  | direct target =>
    dsimp only
    rw [ends_set]
    apply stays_reroute
    · rw [hr]
      rfl
    · simp [Routing.buffer]
  | held resume buffer => exact refl_of Stays e

theorem ends_release (e : Emitter) : Ends (onOutput Assembly.release) e
    (fun lines e' => Stays e e' ∧ ∀ t, e.Tidy t → ∀ line ∈ lines, line.isCode = true)
    fun _ e' => Stays e e' := by
  rw [onOutput, ends_zoom, Assembly.release, ends_bind, ends_get]
  cases hr : e.output.routing with
  | direct target => exact refl_of Stays e
  | held resume buffer =>
    rw [ends_bind, ends_set, ends_pure]
    constructor
    · apply stays_reroute
      · rw [hr]
        rfl
      · simp [Routing.buffer]
    · intro t h
      have hbuffer := h.buffer
      rwa [hr] at hbuffer

theorem leads_hoist (name : LocalName) (type : DataType) : Leads Stays (hoist name type) := by
  intro e
  unfold hoist Assembly.insert
  rw [ends_bind, ends_get, ends_bind, onOutput, ends_zoom, ends_bind, ends_get]
  dsimp only
  rw [ends_ite]
  refine ⟨fun _ => refl_of Stays e, fun _ => ?_⟩
  rw [ends_ite]
  refine ⟨fun _ => refl_of Stays e, fun hle => ?_⟩
  rw [ends_ite]
  constructor
  · intro hneg t h
    exact absurd h.position_nonneg (by omega)
  · intro hnonneg
    rw [ends_bind, ends_set, ends_pure, ends_modify, modifyActive_withOutput]
    intro t h
    have hrouting := Assembly.routing_setContent e.output
      (List.take e.active.slots.position.toNat (e.output.content e.active.slots.target) ++
        [.instr (.alloca name type.irType)] ++
        List.drop e.active.slots.position.toNat (e.output.content e.active.slots.target))
      e.active.slots.target
    apply h.replace (c := { e.active with slots := { e.active.slots with
      position := e.active.slots.position + 1 } }) rfl rfl
    · exact Int.le_add_of_nonneg_right (by simp)
    · rw [hrouting]
    · rw [hrouting]
      exact h.buffer
    · intro hf
      rw [(h.target_of_outside hf).2.1]
      rfl
    · intro hf
      obtain ⟨-, hmark, hposition⟩ := h.target_of_inside hf
      rw [hmark]
      exact ⟨rfl, rfl, _, _, by omega, by simp [Line.isCode], rfl⟩

end Emitter

end MkCompiler
