import MkCompiler.Proofs.Primitives
import MkCompiler.Proofs.Steadiness
import MkCompiler.Proofs.Steps
import MkCompiler.Proofs.Transcripts

/-!
# Operations inside of a body

Every operation that constructs use inside of a body adds to that body only, however it ends. A
function is opened behind all that are closed, and when it is closed the entry point goes on where
it stood.
-/

namespace MkCompiler.Emitter

open MkCompiler.Action

variable {α : Type} {e : Emitter} {t : Transcript}

/-! ## Variables and control flow -/

theorem leads_terminate (i : Instr) : Leads Stays (terminate i) := by
  intro e
  rw [ends_of_ok (terminate_eq i e)]
  exact stays_write (by simp [Line.isCode]) _ e

theorem leads_placeLabel (l : Label) : Leads Stays (placeLabel l) := by
  intro e
  rw [ends_of_ok (placeLabel_eq l e)]
  exact stays_write (by simp [Line.isCode]) _ e

theorem leads_context {g : FunctionContext → FunctionContext}
    (hg : ∀ c, (g c).target = c.target ∧ (g c).slots = c.slots) :
    Leads Stays (modify (modifyActive g) : Action Emitter PUnit) :=
  .update fun e => stays_context e.labels (fun c => (hg c).1) (fun c => (hg c).2) e

theorem leads_openCondition : Leads Stays openCondition := by
  intro e
  rw [openCondition, ends_bind, ends_get, ends_ite]
  refine ⟨fun _ => refl_of Stays e, fun _ => ?_⟩
  have hlabels : Stays e { e with labels := e.labels + 1 } := by
    have hcontext := stays_context (e.labels + 1) (g := id) (fun _ => rfl) (fun _ => rfl) e
    unfold modifyActive at hcontext
    cases hf : e.function <;> simpa [hf] using hcontext
  have hrest : Leads Stays (do
      terminate (.jump ⟨.compare, e.labels⟩)
      placeLabel ⟨.compare, e.labels⟩
      modify (modifyActive fun c => { c with openCompare := some e.labels })) :=
    (leads_terminate _).bind fun _ => (leads_placeLabel _).bind fun _ =>
      leads_context fun _ => ⟨rfl, rfl⟩
  rw [ends_bind, ends_set]
  apply (hrest _).mono
  · intro _ e' h
    exact trans_of Stays hlabels h
  · intro _ e' h
    exact trans_of Stays hlabels h

theorem computes_stays : Computes fun {_} x => Leads Stays x := by
  apply Computes.of_parts (composes_leads Stays)
  · intro e
    rw [ends_of_ok (fresh_eq e)]
    exact stays_write (by simp) _ e
  · intro i _ _ e
    rw [ends_of_ok (emit_eq i e)]
    exact stays_write (by simp [Line.isCode]) _ e

theorem branches_stays : Branches fun {_} x => Leads Stays x where
  toComputes := computes_stays
  cell _ _ _ := leads_header _
  array _ _ _ := leads_header _
  hoist _ _ _ := leads_hoist _ _
  results _ := leads_context fun _ => ⟨rfl, rfl⟩
  terminate := leads_terminate
  placeLabel := leads_placeLabel
  context htarget hslots := leads_context fun c => ⟨htarget c, hslots c⟩
  openCondition := leads_openCondition

theorem leads_declareArray (array : Global) (length : Int) (elements : List Operand) :
    Leads Stays (declareArray array length elements) :=
  computes_stays.declareArray array length elements branches_stays.array .reject

/-! ## Returns -/

theorem ends_capture {x : Action Emitter α} (hx : Leads Stays x) (e : Emitter) :
    Ends (capture x) e
      (fun r e' => Stays e e' ∧ ∀ t, e.Tidy t → ∀ line ∈ r.2, line.isCode = true)
      fun _ e' => Stays e e' := by
  have hreleasing : Leads Stays (releasing x) := by
    intro e
    apply ends_releasing (hx e)
    · intro v e₁ h₁
      rw [ends_bind]
      apply (ends_release e₁).mono
      · rintro _ e₂ ⟨h₂, -⟩
        exact ends_reject.mpr (trans_of Stays h₁ h₂)
      · intro _ e₂ h₂
        exact trans_of Stays h₁ h₂
    · intro _ _ h₁ _
      exact h₁
  rw [capture_eq, ends_bind]
  apply (leads_hold e).mono
  · intro _ e₁ h₁
    rw [ends_bind]
    apply (hreleasing e₁).mono
    · intro a e₂ h₂
      have h₁₂ := trans_of Stays h₁ h₂
      rw [ends_bind]
      apply (ends_release e₂).mono
      · rintro lines e₃ ⟨h₃, hcode⟩
        refine ⟨trans_of Stays h₁₂ h₃, fun t h => ?_⟩
        obtain ⟨opened, htidy, -⟩ := h₁₂ t h
        exact hcode _ htidy
      · intro _ e₃ h₃
        exact trans_of Stays h₁₂ h₃
    · intro _ e₂ h₂
      exact trans_of Stays h₁ h₂
  · intro _ e₁ h₁
    exact h₁

theorem leads_ret (op : Operand) : Leads Stays (ret op) := by
  intro e
  rw [ret, ends_bind, ends_get]
  split
  · exact refl_of Stays e
  · next f _ =>
    have hvalue : Leads Stays (do
        let r ← materialize op
        load (← cast r f.signature.result.storage)) :=
      (computes_stays.materialize op).bind fun _ => (computes_stays.cast _ _).bind fun _ =>
        computes_stays.load _
    rw [ends_bind]
    apply (ends_capture hvalue e).mono
    · rintro ⟨v, lines⟩ e₁ ⟨h₁, hcode⟩
      dsimp only
      rw [ends_bind, ends_modify, ends_modify]
      intro t h
      have hlines : ∀ line ∈ lines ++ [.instr (.ret f.signature.result.storage.irType v)],
          line.isCode = true := by
        intro line hline
        rcases List.mem_append.mp hline with hline | hline
        · exact hcode t h line hline
        · rw [List.mem_singleton.mp hline]
          rfl
      have hwritten := trans_of Stays (stays_append hlines e₁)
        (stays_context e₁.labels (g := fun c => { c with detached := true }) (fun _ => rfl)
          (fun _ => rfl) _)
      exact trans_of Stays h₁ hwritten t h
    · intro _ e₁ h₁
      exact h₁

/-! ## Functions -/

theorem bindParams_eq (position : Nat) (params : List Param) {e : Emitter}
    (he : e.active.counter.detached = false) :
    bindParams position params e = .ok (params.map paramLocal)
      (e.write ((paramCode position params).map .instr) e.active.counter) := by
  cases hrun : bindParams position params e with
  | ok locals e' =>
    obtain ⟨rfl, rfl⟩ := ensures_bindParams position params e he locals e' hrun
    rfl
  | error f e' =>
    have hnever := keeps_bindParams (F := fun _ => False) (P := fun _ => True)
      (fun _ _ _ h => h) position params e trivial
    exact (hnever.of_error hrun).1.elim

def openedOutput (e : Emitter) (name : GlobalName) (sig : Signature) (params : List Param) :
    Assembly Line :=
  (e.output.select .functions).append
    (.define sig.result.irType name (params.map fun p => p.type.irType) ::
      (paramCode 0 params).map .instr)

/-- A function is opened, or nothing happens. -/
theorem openFunction_outcome {target : Section} (hr : e.output.routing = .direct target)
    (name : GlobalName) (sig : Signature) (params : List Param) :
    Ends (openFunction name sig params) e
      (fun _ e' => e.function = none ∧ e' =
        { e with
          function := some ⟨sig, ⟨.functions, params.length + 1, [], none, [],
            ⟨.functions, ((e.openedOutput name sig params).content .functions).length⟩, false⟩⟩
          output := e.openedOutput name sig params })
      fun _ e' => e' = e := by
  rw [openFunction, ends_bind, ends_get]
  split
  · exact ends_reject.mpr rfl
  · next hnone =>
    rw [ends_bind, ends_require]
    refine ⟨fun _ => ?_, fun _ => rfl⟩
    rw [ends_bind]
    apply (keeps_checkParams (P := (· = e)) (F := Rejects) sig.name params
      (.inl fun _ => rfl) e rfl).mono
    · intro _ e₁ he₁
      obtain rfl := he₁.symm
      have hselect : (e.output.select .functions).routing = .direct .functions := by
        rw [Assembly.select, hr]
      have happend (lines : List Line) : ((e.output.select .functions).append lines).routing =
          .direct .functions := by
        rw [Assembly.append, hselect]
        exact hselect
      dsimp only
      rw [ends_bind, ends_modify, ends_bind, ends_of_ok (hold_eq hselect), ends_bind,
        ends_of_ok (bindParams_eq 0 params rfl), ends_bind, ends_of_ok (release_eq hselect _ _),
        ends_bind, ends_modify, ends_bind, ends_of_ok (mark_eq (happend _) rfl), ends_bind,
        ends_modify, ends_pure]
      exact ⟨hnone, rfl⟩
    · intro _ e' hf
      exact hf.2

/-- A function without open control constructs is closed, or nothing happens. -/
theorem endFunction_outcome (e : Emitter) : Ends endFunction e
    (fun _ e' => ∃ f, e.function = some f ∧
      (f.context.pending = [] ∧ f.context.openCompare = none) ∧ e' =
        { e with
          function := none
          output := (e.output.append
            (closingCode f.context.detached ++ [.close])).select .entryBody })
    fun _ e' => e' = e := by
  rw [endFunction, ends_bind, ends_get]
  split
  · exact ends_reject.mpr rfl
  · next f hf =>
    rw [ends_bind, ends_require]
    refine ⟨fun hcontrols => ?_, fun _ => rfl⟩
    rw [ends_ite]
    constructor
    · intro hdetached
      rw [ends_bind, ends_of_ok (emit_eq _ e), ends_bind, ends_modify, ends_modify]
      refine ⟨f, hf, hcontrols, ?_⟩
      simp [closingCode, hdetached, write, Emitter.appendLines, modifyActive, hf]
    · intro hdetached
      rw [ends_bind, ends_modify, ends_modify]
      refine ⟨f, hf, hcontrols, ?_⟩
      simp [closingCode, eq_true_of_ne_false hdetached, Emitter.appendLines]

/-- The entry point is closed, or nothing happens. -/
theorem finish_outcome (e : Emitter) : Ends finish e
    (fun _ e' => e.function = none ∧ e' =
      { e.write [.instr (.ret .i32 (.constant "0")), .close] e.active.counter.enter with
        finished := true })
    fun _ e' => e' = e := by
  rw [finish, ends_bind, ends_get]
  dsimp only
  rw [ends_ite]
  refine ⟨fun _ => rfl, fun _ => ?_⟩
  split
  · exact ends_reject.mpr rfl
  · next hnone =>
    rw [ends_bind, ends_require]
    refine ⟨fun _ => ?_, fun _ => rfl⟩
    rw [ends_bind, ends_of_ok (emit_eq _ e), ends_bind, ends_modify, ends_bind, ends_get, ends_pure]
    exact ⟨hnone, by simp [write]⟩

abbrev Direct (e : Emitter) : Prop :=
  e.output.routing = .direct e.active.target

theorem Tidy.lines_of_outside (h : e.Tidy t) (hf : e.function = none) :
    e.output.functions = t.closedLines := by
  rw [h.functions, Transcript.lines, Transcript.openLines, h.outside hf, List.append_nil]

/-- The lines of a new function stand behind those that are closed. -/
theorem Tidy.enter (h : e.Tidy t) (hr : e.Direct) (hnone : e.function = none) (sig : Signature)
    {name : GlobalName} (hname : name.Denotes sig) (params : List IrType) {code : List Line}
    {c : FunctionContext} {o : Assembly Line} (hcode : ∀ line ∈ code, line.isCode = true)
    (ho : o = (e.output.select .functions).append (.define sig.result.irType name params :: code))
    (htarget : c.target = .functions)
    (hslots : c.slots = ⟨.functions, (o.content .functions).length⟩) :
    ({ e with function := some ⟨sig, c⟩, output := o } : Emitter).Tidy
        ⟨t.closed, some ⟨.define sig.result.irType name params, code⟩⟩ ∧
      e.SameEntry { e with function := some ⟨sig, c⟩, output := o } := by
  have happend : o = { e.output with
      functions := t.closedLines ++ .define sig.result.irType name params :: code
      routing := .direct .functions } := by
    rw [ho, Assembly.select, hr, ← h.lines_of_outside hnone]
    rfl
  subst happend
  refine ⟨⟨rfl, ⟨h.orderly.closed, ?_⟩, htarget.symm, by simp [Routing.buffer], h.target, h.mark,
    h.position, by simp, ?_⟩, rfl, rfl, rfl⟩
  · rintro _ ⟨⟩
    exact ⟨⟨_, _, _, rfl⟩, hcode⟩
  · rintro _ ⟨⟩
    refine ⟨_, rfl, ⟨_, _, rfl, hname⟩, htarget, by rw [hslots], ?_⟩
    rw [hslots]
    simp only [Assembly.content, Transcript.closedLines, List.length_append, List.length_cons]
    omega

/-- A function is opened behind those that are closed, or nothing happens. -/
theorem ends_openFunction_tidy (h : e.Tidy t) (hr : e.Direct) {name : GlobalName} {sig : Signature}
    (hname : name.Denotes sig) (params : List Param) : Ends (openFunction name sig params) e
      (fun _ e' => e.inFunction = false ∧ e'.inFunction = true ∧ e.SameEntry e' ∧
        ∃ d, e'.Tidy ⟨t.closed, some d⟩)
      fun _ e' => e' = e := by
  apply (openFunction_outcome hr name sig params).mono
  · rintro _ _ ⟨hnone, rfl⟩
    have hcode : ∀ line ∈ (paramCode 0 params).map Line.instr, line.isCode = true := by
      simp [Line.isCode]
    obtain ⟨htidy, hentry⟩ := h.enter hr hnone sig hname (params.map fun p => p.type.irType)
      (c := ⟨.functions, params.length + 1, [], none, [], ⟨.functions, _⟩, false⟩) hcode rfl rfl rfl
    exact ⟨by simp [inFunction, hnone], rfl, hentry, _, htidy⟩
  · intro _ _ he
    exact he

theorem Direct.write (hr : e.Direct) (code : List Line) (k : Counter) :
    (e.write code k).Direct := by
  rw [Direct, output_write, active_write, Assembly.routing_append _ hr]
  rfl

/-- Code that is written inside of a function stands at its end. -/
theorem Tidy.write {closed : List Definition} {d : Definition} (h : e.Tidy ⟨closed, some d⟩)
    (hr : e.Direct) (hsome : e.inFunction = true) {code : List Line}
    (hcode : ∀ line ∈ code, line.isCode = true) (k : Counter) :
    (e.write code k).Tidy ⟨closed, some { d with body := d.body ++ code }⟩ ∧
      (e.write code k).inFunction = true ∧ e.SameEntry (e.write code k) := by
  obtain ⟨opened, htidy, -, hinside, hentry⟩ := stays_write hcode k e _ h
  have hfunction := h.orderly.opened d rfl
  have horderly : Transcript.Orderly ⟨closed, some { d with body := d.body ++ code }⟩ := by
    refine ⟨h.orderly.closed, ?_⟩
    rintro _ ⟨⟩
    refine ⟨hfunction.opening, fun line hline => ?_⟩
    rcases List.mem_append.mp hline with hline | hline
    · exact hfunction.body line hline
    · exact hcode line hline
  have hlines : (e.write code k).output.functions =
      Transcript.lines ⟨closed, some { d with body := d.body ++ code }⟩ := by
    rw [output_write, Assembly.append, hr, (h.target_of_inside hsome).1]
    change e.output.functions ++ code = _
    rw [h.functions]
    simp [Transcript.lines, Transcript.closedLines, Transcript.openLines]
  -- Both transcripts are read from the same lines.
  have heq := htidy.transcript_eq
  rw [transcript, hlines, Transcript.ofLines_lines horderly] at heq
  rw [heq]
  exact ⟨htidy, hinside.trans hsome, hentry hsome⟩

/-- A function is closed behind its last line. -/
theorem Tidy.leave {closed : List Definition} {d : Definition} (h : e.Tidy ⟨closed, some d⟩)
    (hr : e.Direct) (hsome : e.inFunction = true) :
    let e' : Emitter := { appendLines [.close] e with
      function := none
      output := (e.output.append [.close]).select .entryBody }
    e'.Tidy ⟨closed ++ [d], none⟩ ∧ e.SameEntry e' := by
  intro e'
  have hrouting : e.output.routing = .direct .functions := by
    rw [hr, (h.target_of_inside hsome).1]
  have houtput : e'.output = { e.output with
      functions := e.output.functions ++ [.close], routing := .direct .entryBody } := by
    change (e.output.append [.close]).select .entryBody = _
    rw [Assembly.append, hrouting]
    change Assembly.select { e.output with functions := e.output.functions ++ [.close] } _ = _
    rw [Assembly.select, hrouting]
  have hfunction := h.orderly.opened d rfl
  refine ⟨⟨?_, ⟨?_, by simp⟩, ?_, ?_, h.target, h.mark, h.position, fun _ => rfl, by simp [e']⟩,
    rfl, ?_, ?_⟩
  · rw [houtput, h.functions]
    simp [Transcript.lines, Transcript.closedLines, Transcript.openLines, Definition.lines]
  · intro d' hd'
    rcases List.mem_append.mp hd' with hd' | hd'
    · exact h.orderly.closed d' hd'
    · rw [List.mem_singleton.mp hd']
      exact hfunction
  · rw [houtput]
    exact h.target.symm
  · rw [houtput]
    simp [Routing.buffer]
  · rw [houtput]
  · rw [houtput]

/-- The open function is closed, and the entry point goes on where it stood; or nothing happens. -/
theorem ends_endFunction_tidy (h : e.Tidy t) (hr : e.Direct) : Ends endFunction e
    (fun _ e' => e.inFunction = true ∧ e'.inFunction = false ∧ e.SameEntry e' ∧
      ∃ d, t.opened = some d ∧ e'.Tidy
        ⟨t.closed ++ [{ d with body := d.body ++ closingCode e.active.detached }], none⟩)
    fun _ e' => e' = e := by
  apply (endFunction_outcome e).mono
  · rintro _ _ ⟨f, hf, -, rfl⟩
    have hsome : e.inFunction = true := by simp [inFunction, hf]
    have hactive : e.active = f.context := by
      rw [Emitter.active, hf]
    obtain ⟨d, hd, -⟩ := h.inside f hf
    obtain ⟨closed, opened⟩ := t
    obtain rfl : opened = some d := hd
    have hcode : ∀ line ∈ closingCode f.context.detached, line.isCode = true := by
      cases f.context.detached <;> simp [closingCode, Line.isCode]
    obtain ⟨hwritten, hinside, hsame⟩ := h.write hr hsome hcode e.active.counter
    obtain ⟨htidy, hentry⟩ := hwritten.leave (hr.write _ _) hinside
    have hstate : ({ e with
        function := none
        output := (e.output.append
          (closingCode f.context.detached ++ [.close])).select .entryBody } : Emitter) =
        { Emitter.appendLines [.close]
            (e.write (closingCode f.context.detached) e.active.counter) with
          function := none
          output := ((e.write (closingCode f.context.detached) e.active.counter).output.append
            [.close]).select .entryBody } := by
      simp [write, Emitter.appendLines, modifyActive, hf]
    rw [hactive, hstate]
    exact ⟨hsome, rfl, trans_of SameEntry hsame hentry, d, rfl, htidy⟩
  · intro _ _ he
    exact he

theorem Tidy.appendLines (h : e.Tidy t) (hr : e.Direct) (hf : e.inFunction = false)
    (lines : List Line) : (appendLines lines e).Tidy t := by
  have hrouting : e.output.routing = .direct .entryBody := by
    rw [hr, (h.target_of_outside hf).1]
  have houtput : (Emitter.appendLines lines e).output =
      { e.output with entryBody := e.output.entryBody ++ lines } := by
    rw [Emitter.appendLines, Assembly.append, hrouting]
    rfl
  refine ⟨?_, h.orderly, ?_, ?_, h.target, h.mark, h.position, h.outside, h.inside⟩
  · rw [houtput]
    exact h.functions
  · rw [houtput]
    exact h.routing
  · rw [houtput]
    exact h.buffer

theorem ends_finish_tidy (h : e.Tidy t) (hr : e.Direct) : Ends finish e
    (fun _ e' => e.inFunction = false ∧ e'.inFunction = false ∧ e'.Tidy t) fun _ e' => e' = e := by
  apply (finish_outcome e).mono
  · rintro _ _ ⟨hnone, rfl⟩
    have houtside : e.inFunction = false := by simp [inFunction, hnone]
    obtain ⟨closed, opened⟩ := t
    obtain rfl : opened = none := h.outside hnone
    have hcode : ∀ line ∈ [Line.instr (.ret .i32 (.constant "0"))], line.isCode = true := by
      simp [Line.isCode]
    obtain ⟨opened, hreturned, -, hinside, -⟩ := stays_write hcode e.active.counter.enter e _ h
    have houtside' := hinside.trans houtside
    obtain rfl : opened = none := hreturned.outside (by simpa [inFunction] using houtside')
    have hclosed := hreturned.appendLines (hr.write _ _) houtside' [.close]
    rw [write, appendLines_appendLines] at hclosed
    exact ⟨houtside, houtside', { hclosed with }⟩
  · intro _ _ he
    exact he

end MkCompiler.Emitter
