import MkCompiler.Proofs.Bodies

/-!
# Lowering of structured control flow

The definition that a compiled program has for a structured body executes the groups of instructions
of its statements and conditions in the order the structure asks for.
-/

namespace MkCompiler

open MkCompiler.Action

def Compilation.opening? (c : Compilation) (cmd : Command) : Option Line :=
  let params := cmd.params.map fun p => p.type.irType
  match c.table.instance? with
  | none => some (.define cmd.type.irType (.function cmd.name) params)
  | some inst => do
    let info ← c.table.classes[inst.classId]?
    let sig ← info.methods.find? cmd.name
    return .define sig.result.irType (.method inst.name sig.name) params

namespace Compilation

open Emitter

variable {c c' : Compilation} {cmd : Command}

def Opens (opening : Line) (e e' : Emitter) : Prop :=
  e'.active.pending = [] ∧ e'.active.openCompare = none ∧
    ∀ l, e.Lays l → ∃ slots, e'.Lays (l.enter opening slots)

theorem opens_openFunction (name : GlobalName) (sig : Signature) (params : List Param) :
    Moves (Opens (.define sig.result.irType name (params.map fun p => p.type.irType)))
      (openFunction name sig params) := by
  intro e
  refine (ensures_openFunction name sig params e).mono ?_
  rintro _ _ ⟨-, context, o, rfl, hpending, hopen, hl, -⟩
  exact ⟨hpending, hopen, fun l hlays => ⟨_, hl l hlays⟩⟩

theorem ensures_openBody (cmd : Command) (c : Compilation) :
    Ensures (openBody cmd.name cmd.type cmd.params) c fun _ c' =>
      ∃ opening, c.opening? cmd = some opening ∧ Opens opening c.emitter c'.emitter := by
  refine ensures_bind.mpr (ensures_get.mpr ?_)
  unfold opening?
  cases c.table.instance? with
  | some inst =>
    refine ensures_bind.mpr (ensures_zoom.mpr (SymbolTable.ensures_classAt_nat.mpr ?_))
    intro info hinfo
    cases hsig : info.methods.find? cmd.name with
    | none => exact ensures_throw.mpr trivial
    | some sig =>
      refine ensures_bind.mpr (ensures_zoom.mpr ?_)
      refine (opens_openFunction _ _ _ c.emitter).mono fun locals e' h => ensures_pure.mpr ?_
      exact ⟨_, by simp [hinfo, hsig], h⟩
  | none =>
    refine ensures_bind.mpr ((along_checkSignature _ _ _ c).mono fun _ c₁ h₁ => ?_)
    refine ensures_bind.mpr (ensures_zoom.mpr fun _ t _ => ensures_bind.mpr (ensures_zoom.mpr ?_))
    refine (opens_openFunction _ _ _ _).mono fun locals e' h => ensures_pure.mpr ?_
    rw [← h₁.emitter] at h
    exact ⟨_, rfl, h⟩

theorem ensures_declareFunction (cmd : Command) (c : Compilation) :
    Ensures (declareFunction cmd.name cmd.type cmd.params) c fun _ c' =>
      ∃ opening, c.opening? cmd = some opening ∧ Opens opening c.emitter c'.emitter := by
  refine ensures_bind.mpr ((moves_requireOutside (R := Eq) _ c).mono ?_)
  rintro _ _ rfl
  refine ensures_bind.mpr ((ensures_openBody cmd c).mono ?_)
  rintro ⟨sig, locals⟩ c₁ ⟨opening, hopening, hopens⟩
  refine ensures_bind.mpr (ensures_modify.mpr (ensures_bind.mpr ?_))
  refine (along_declareLocals locals _).mono fun _ c₂ h₂ => ensures_modify.mpr ?_
  refine ⟨opening, hopening, ?_⟩
  rw [← h₂.emitter]
  exact hopens

theorem ready_of_declareFunction {l : Layout} (mark : Marker .declareFunction)
    (hrecording : c.recording = none) (hrecords : c.WellRecorded) (hl : c.emitter.Lays l)
    (hcmd : handle mark.cmd c = .ok () c') :
    ∃ opening slots, c.opening? mark.cmd = some opening ∧
      c'.Ready [] none ⟨opening, slots, []⟩ := by
  obtain ⟨hprogram, hhandles, hrecords'⟩ := handles_of_handle hcmd hrecords
  have halong := (handles_iff_along hrecording (by simp [mark.kind_eq])).mp hhandles
  have hdeclare : declareFunction mark.cmd.name mark.cmd.type mark.cmd.params c = .ok () c' := by
    rw [handle_eq_construct hprogram hrecording (by simp [mark.kind_eq]), locate_eq_ok, construct,
      mark.kind_eq] at hcmd
    exact hcmd
  obtain ⟨opening, hopening, hpending, hopen, hlays⟩ :=
    ensures_declareFunction mark.cmd c () c' hdeclare
  obtain ⟨slots, hl'⟩ := hlays l hl
  refine ⟨opening, slots, hopening, halong.program.trans hprogram, hrecords', ?_, _, hl', hpending,
    hopen, rfl⟩
  rw [halong.recording, hrecording]
  rfl

theorem Ready.endFunction {p : List Nat} {o : Option Nat} {d : Draft} (h : c.Ready p o d)
    (mark : Marker .endFunction) (hcmd : Compilation.handle mark.cmd c = .ok () c') :
    c'.program = none ∧ ∃ n detached, (Counter.start d.opening.arity).Reads d.code ⟨n, detached⟩ ∧
      ∃ l, c'.emitter.Lays l ∧ d.grow [] (closingCode detached) ∈ l.closed := by
  obtain ⟨hprogram, hhandles, -⟩ := handles_of_handle hcmd h.records
  have halong := (handles_iff_along h.recording_eq_none (by simp [mark.kind_eq])).mp hhandles
  have hperforms := halong.emitter
  rw [mark.kind_eq] at hperforms
  obtain ⟨f, out, hsome, -, -, -, hleave⟩ := ensures_endFunction c.emitter () _ hperforms
  obtain ⟨l, hl, -, -, rfl⟩ := h.home
  obtain ⟨entry, -, hl'⟩ := hleave l hl
  have hactive : c.emitter.active = f.context := by rw [Emitter.active, hsome]
  have hreads := hl.active.reads
  rw [hactive] at hreads
  refine ⟨halong.program.trans hprogram, _, _, hreads, _, hl', ?_⟩
  simp [Layout.leave, Layout.grow, Draft.grow]

theorem Ready.endProgram {p : List Nat} {o : Option Nat} {d : Draft} (h : c.Ready p o d)
    (mark : Marker .endProgram) (hcmd : Compilation.handle mark.cmd c = .ok () c') :
    ∃ lines, c'.program = some lines ∧
      (d.grow [] [entryReturn]).toDefinition ∈ definitions lines := by
  obtain ⟨hprogram, hhandles, -⟩ := handles_of_handle hcmd h.records
  have hnone : ¬c.recording.isSome = true := by simp [h.recording_eq_none]
  rw [Handles, if_neg hnone, mark.kind_eq] at hhandles
  obtain ⟨lines, hfinish, hlines⟩ := hhandles
  obtain ⟨l, hl, -, -, rfl⟩ := h.home
  refine ⟨lines, hlines, ?_⟩
  rw [(hl.finished hfinish).definitions_eq]
  exact List.mem_map_of_mem (by simp [Layout.finished, Layout.grow, Draft.grow])

end Compilation

/-- A definition executes a body: behind its slots, the groups that the statements and conditions
of the body are compiled to follow each other as the structure of the body asks for, whatever the
comparisons yield. If execution reaches the end of the body, `last` ends it. -/
def Definition.Executes (d : Definition) (body : Body) (c : Compilation) (last : Instr) : Prop :=
  ∃ flow c', body.lower? c = some (flow, c') ∧
    ∃ slots : List Instr, (∀ i ∈ slots, i.IsSetup) ∧
      (∀ oracle, ∃ trace ending rest, Follows d.body d.body oracle trace ending rest) ∧
      ∀ oracle trace ending rest, Follows d.body d.body oracle trace ending rest ↔
        ∃ t, trace = slots ++ t ∧ flow.Completes last oracle t ending rest

theorem Draft.executes {d : Draft} {body : Body} {c c' : Compilation} {flow : Flow}
    {lines post : List Line} {last : Instr} (hlower : body.lower? c = some (flow, c'))
    (hcoded : flow.Coded lines) (hcode : d.code = lines ++ post)
    (hsetup : ∀ i ∈ d.slots, i.IsSetup) (hnodup : (labels d.toDefinition.body).Nodup)
    (hlast : last.halts = true)
    (hpost : post = [.instr last] ∨ ∀ o t o', ¬flow.Runs o t .fell o') :
    d.toDefinition.Executes body c last := by
  have hbody : d.toDefinition.body = d.slots.map .instr ++ (lines ++ post) := by
    rw [← hcode]
    rfl
  rw [hbody] at hnodup
  have hslots : ∀ i ∈ d.slots, i.isTerminator = false := fun i hi => (hsetup i hi).isTerminator
  refine ⟨flow, c', hlower, d.slots, hsetup, fun oracle => ?_, fun oracle trace ending rest => ?_⟩
  · obtain ⟨t, ending, rest, h⟩ := flow.exists_completes last oracle
    rw [hbody]
    exact ⟨_, _, _, h.follows hnodup hslots hcoded hlast hpost⟩
  · rw [hbody]
    exact Flow.follows_iff_completes hnodup hslots hcoded hlast hpost

section Compiled

variable {file : String} {symbols : RuntimeSymbols} {stream : List Command} {lines : List Line}

open Compilation Emitter

theorem executes_entry (hcompile : compile file stream symbols = .ok lines) (body : Body)
    (last : Marker .endProgram) (hstream : stream = body.commands ++ [last.cmd]) :
    ∃ d ∈ definitions lines, d.opening = .defineEntry ∧
      d.Executes body (Compilation.start file symbols) (.ret .i32 (.constant "0")) := by
  have hproceeds : (Compilation.start file symbols).Proceeds stream lines :=
    Reaches.start.proceeds hcompile
  rw [hstream] at hproceeds
  obtain ⟨c₁, hbody, hproceeds₁⟩ := hproceeds.append
  obtain ⟨-, c₂, hlast, hproceeds₂⟩ := hproceeds₁.next
  have hready : (Compilation.start file symbols).Ready [] none ⟨.defineEntry, [], []⟩ :=
    ⟨rfl, wellRecorded_start file symbols, rfl, startLayout, lays_start symbols, rfl, rfl, rfl⟩
  obtain ⟨flow, slots, code, hlower, hcoded, hready₁⟩ := body.exists_lower? hready hbody
  obtain ⟨lines', hlines', hmem⟩ := hready₁.endProgram last hlast
  obtain rfl : lines = lines' := by
    rcases hproceeds₂.completesTo with hlines | ⟨hnone, -⟩
    · exact Option.some.inj (hlines.symm.trans hlines')
    · rw [hnone] at hlines'
      cases hlines'
  refine ⟨_, hmem, rfl, Draft.executes hlower hcoded rfl ?_
    (nodup_labels_of_compile hcompile _ hmem) rfl (.inl rfl)⟩
  simpa [Draft.grow] using hready₁.setup

theorem executes_function (hcompile : compile file stream symbols = .ok lines) {c : Compilation}
    (opening : Marker .declareFunction) (body : Body) (closing : Marker .endFunction)
    {rest : List Command}
    (hreaches : Reaches file symbols stream c
      (opening.cmd :: (body.commands ++ closing.cmd :: rest)))
    (hrecording : c.recording = none) :
    ∃ c₁ line, handle opening.cmd c = .ok () c₁ ∧ c.opening? opening.cmd = some line ∧
      ∃ d ∈ definitions lines, d.opening = line ∧ d.Executes body c₁ .unreachable := by
  have hproceeds := hreaches.proceeds hcompile
  obtain ⟨hprogram, c₁, hopen, hproceeds₁⟩ := hproceeds.next
  obtain ⟨c₂, hbody, hproceeds₂⟩ := hproceeds₁.append
  obtain ⟨-, c₃, hclose, hproceeds₃⟩ := hproceeds₂.next
  obtain ⟨l, hl⟩ := hproceeds.lays hprogram
  obtain ⟨line, slots₀, hline, hready⟩ :=
    ready_of_declareFunction opening hrecording hproceeds.records hl hopen
  obtain ⟨flow, slots, code, hlower, hcoded, hready₂⟩ := body.exists_lower? hready hbody
  obtain ⟨hprogram₃, n, detached, hreads, l₃, hl₃, hmem₃⟩ := hready₂.endFunction closing hclose
  -- The closed definition is still there at the end of the program.
  have hmem : (((⟨line, slots₀, []⟩ : Draft).grow slots code).grow []
      (closingCode detached)).toDefinition ∈ definitions lines := by
    rcases hproceeds₃.completesTo with hlines | ⟨-, kinds, e, e', hrun, hfinish⟩
    · rw [hprogram₃] at hlines
      cases hlines
    · obtain ⟨l', hl', hmem'⟩ := hrun.exists_layout (P := fun _ l => _ ∈ l.closed) hl₃ hmem₃
        fun _ _ _ hs hl hmem => (hs.lays hl).imp fun _ h => ⟨h.1, h.2 hmem⟩
      rw [(hl'.finished hfinish).definitions_eq]
      exact List.mem_map_of_mem (List.mem_cons_of_mem _ hmem')
  refine ⟨c₁, line, hopen, hline, _, hmem, rfl, Draft.executes hlower hcoded rfl ?_
    (nodup_labels_of_compile hcompile _ hmem) rfl ?_⟩
  · simpa [Draft.grow] using hready₂.setup
  · cases detached with
    | false => exact .inl rfl
    | true =>
      -- A body that ends behind a terminator cannot be left at its end.
      refine .inr fun o t o' hruns => ?_
      have hattached := hruns.attached rfl hcoded hreads rfl
      cases hattached

/-- The branches of a compiled program refine structured control flow. The entry point of a program,
and every function and method that is compiled on the way, executes the groups of instructions of
its statements and conditions in the order its structure gives. -/
theorem compile_refines_structure (hcompile : compile file stream symbols = .ok lines) :
    (∀ (body : Body) (last : Marker .endProgram), stream = body.commands ++ [last.cmd] →
      ∃ d ∈ definitions lines, d.opening = .defineEntry ∧
        d.Executes body (Compilation.start file symbols) (.ret .i32 (.constant "0"))) ∧
    ∀ (c : Compilation) (opening : Marker .declareFunction) (body : Body)
      (closing : Marker .endFunction) (rest : List Command),
      Reaches file symbols stream c (opening.cmd :: (body.commands ++ closing.cmd :: rest)) →
      c.recording = none →
      ∃ c₁ line, handle opening.cmd c = .ok () c₁ ∧ c.opening? opening.cmd = some line ∧
        ∃ d ∈ definitions lines, d.opening = line ∧ d.Executes body c₁ .unreachable := by
  refine ⟨fun body last hstream => executes_entry hcompile body last hstream, ?_⟩
  intro c opening body closing rest hreaches hrecording
  exact executes_function hcompile opening body closing hreaches hrecording

end Compiled

/-- The entry point of the sample: declarations, and a conditional around a statement. -/
def sampleEntry : Body :=
  .simple ⟨sampleStream.take 21, by decide⟩
    (.control .conditional ⟨{ kind := .beginCondition }, rfl⟩
      ⟨[{ kind := .name, name := "x" }, { kind := .int, text := "3" }], by decide⟩
      ⟨{ kind := .compare, text := "<" }, rfl⟩
      (.simple ⟨(sampleStream.drop 25).take 6, by decide⟩ .stop) ⟨{ kind := .endIf }, rfl⟩ .stop)

/-- The function of the sample: a loop with a return and code behind it, and a last return. -/
def sampleFunction : Body :=
  .control .loop ⟨{ kind := .beginCondition }, rfl⟩
    ⟨[{ kind := .name, name := "a" }, { kind := .int, text := "1" }], by decide⟩
    ⟨{ kind := .compare, text := "<" }, rfl⟩
    (.ret ⟨[{ kind := .name, name := "a" }], by decide⟩ ⟨{ kind := .ret }, rfl⟩
      (.simple ⟨[{ kind := .name, name := "a" }, { kind := .print }], by decide⟩ .stop))
    ⟨{ kind := .endWhile }, rfl⟩
    (.ret ⟨[{ kind := .name, name := "a" }], by decide⟩ ⟨{ kind := .ret }, rfl⟩ .stop)

open Compilation in
theorem compile_refines_structure_sample : ∃ lines c c₁,
    compile "sample.mk" sampleStream .standard = .ok lines ∧
    (∃ d ∈ definitions lines, d.opening = .defineEntry ∧
      d.Executes sampleEntry (Compilation.start "sample.mk" .standard)
        (.ret .i32 (.constant "0"))) ∧
    Reaches "sample.mk" .standard sampleStream c (sampleStream.drop 7) ∧ c.recording = none ∧
    handle { kind := .declareFunction, name := "f", type := .int, params := [⟨"a", .int⟩] } c =
      .ok () c₁ ∧
    ∃ d ∈ definitions lines, d.opening = .define .i32 (.function "f") [.i32] ∧
      d.Executes sampleFunction c₁ .unreachable := by
  obtain ⟨lines, hcompile, -⟩ := compile_sampleStream
  obtain ⟨hentry, hfunction⟩ := compile_refines_structure hcompile
  have hpoint : ((handled? (sampleStream.take 7) (Compilation.start "sample.mk" .standard)).map
      fun c => (c.recording, c.opening?
        { kind := .declareFunction, name := "f", type := .int, params := [⟨"a", .int⟩] })) =
      some (none, some (.define .i32 (.function "f") [.i32])) := by
    decide +kernel
  obtain ⟨c, hc, hvalues⟩ := Option.map_eq_some_iff.mp hpoint
  obtain ⟨hrecording, hopening⟩ := Prod.mk.inj hvalues
  have hreaches : Reaches "sample.mk" .standard sampleStream c (sampleStream.drop 7) :=
    Reaches.handled (a := sampleStream.take 7) .start hc
  obtain ⟨c₁, line, hhandle, hline, hd⟩ := hfunction c
    ⟨{ kind := .declareFunction, name := "f", type := .int, params := [⟨"a", .int⟩] }, rfl⟩
    sampleFunction ⟨{ kind := .endFunction }, rfl⟩ (sampleStream.drop 20) hreaches hrecording
  obtain rfl := Option.some.inj (hopening.symm.trans hline)
  exact ⟨lines, c, c₁, hcompile, hentry sampleEntry ⟨{ kind := .endProgram }, rfl⟩ rfl, hreaches,
    hrecording, hhandle, hd⟩

end MkCompiler
