import MkCompiler.Proofs.LinkedDefinitions

/-!
# Runs of a linked program

From the start of a stream to its end the program stays linked. The body of a class is run for every
instance of it; the methods that are still to come in the body are those that the instance owes.
-/

namespace MkCompiler

open MkCompiler.Action

namespace Compilation

variable {S : Command → Prop} {p : Prop} {owed : List String} {c c' : Compilation} {l : Layout}
  {owner : Option (String × Nat)} {orderly : Prop} {cmd : Command}

/-- Constructs other than those that open a body keep the program linked. -/
theorem links_construct
    (hkind : cmd.kind ∉ [.declareFunction, .beginClass, .endClass, .declareInstance, .endProgram])
    (hcmd : cmd.Named) (h : c.Linked p owed l) (ht : c.table.Sound S)
    (hstack : cmd.kind = .endFunction → p → c.stack = []) :
    StaysLinked p owed (construct cmd) c := by
  unfold construct
  cases hcase : cmd.kind with
  | int => exact links_int h _
  | real => exact links_real h _
  | name => exact links_name h ht _
  | element => exact links_element h ht _
  | member => exact links_member h ht _ _
  | arith => exact links_arith h _
  | call => exact links_call h ht _ _
  | callMethod => exact links_callMethod h ht _ _ _
  | declareVariable => exact links_declareVariable h ht (hcmd.name (by simp [hcase])) _
  | declareArray => exact links_declareArray h ht (hcmd.name (by simp [hcase])) _ _ _
  | assign => exact links_assign h ht _
  | assignElement => exact links_assignElement h ht _
  | assignMember => exact links_assignMember h ht _ _
  | print => exact links_print h
  | scan => exact links_scan h ht _ _
  | beginCondition => exact links_beginCondition h
  | compare => exact links_compare h _
  | endIf => exact h.statement (Emitter.builds_endControl _)
  | endWhile => exact h.statement (Emitter.builds_endControl _)
  | ret => exact links_ret h
  | endFunction => exact links_endFunction h (hstack hcase)
  | unknown n => exact ensures_throw.mpr trivial
  | _ => exact absurd (by simp [hcase]) hkind

/-! ## Classes -/

/-- Classes other than the closed ones may change. -/
theorem Linked.reclass (h : c.Linked p owed l) {classes : List ClassInfo}
    {classNames : Scope Nat}
    (ht : ({ c.table with classes, classNames } : SymbolTable).Sound Command.Named)
    (hkept : ∀ (id : Nat) (k : ClassInfo), c.table.classes[id]? = some k → k.frozen = true →
      classes[id]? = some k) :
    ({ c with table := { c.table with classes, classNames } } : Compilation).Linked p owed l := by
  have hmethod :
      ({ c.table with classes, classNames } : SymbolTable).method? = c.table.method? := by
    funext o n
    change (c.table.classOf? o).bind _ = (c.table.classOf? o).bind _
    cases hclass : c.table.classOf? o with
    | none => rfl
    | some id =>
      obtain ⟨-, k, hk, hfrozen⟩ := h.lexicon.instances o id hclass
      simp only [Option.bind_some, hk, hkept id k hk hfrozen]
  have hpromises (n : GlobalName) (type : SymbolType) :
      ({ c.table with classes, classNames } : SymbolTable).Promises n type ↔
        c.table.Promises n type := by
    constructor
    · intro hp
      exact hp.mono (fun _ _ hsig => hsig) fun o n sig hsig => by rwa [hmethod] at hsig
    · intro hp
      exact hp.mono (fun _ _ hsig => hsig) fun o n sig hsig => by rwa [hmethod]
  apply h.retable
  · refine ⟨h.lexicon.storage, h.lexicon.functions, ht.method_named, ?_⟩
    intro o id hclass
    obtain ⟨hname, k, hk, hfrozen⟩ := h.lexicon.instances o id hclass
    exact ⟨hname, k, hkept id k hk hfrozen, hfrozen⟩
  · rfl
  · rfl
  · exact h.defines.congr rfl hpromises
  · exact fun _ _ hsig => hsig
  · rw [hmethod]
    exact fun _ _ _ hsig => hsig

theorem kept_of_set {classes : List ClassInfo} {k k' : ClassInfo} {id : Nat}
    (hk : classes[id]? = some k) (hfrozen : k.frozen = false) (j : Nat) (k₀ : ClassInfo)
    (hk₀ : classes[j]? = some k₀) (hfrozen₀ : k₀.frozen = true) :
    (classes.set id k')[j]? = some k₀ := by
  have hne : id ≠ j := by
    rintro rfl
    obtain rfl : k = k₀ := Option.some.inj (hk.symm.trans hk₀)
    rw [hfrozen] at hfrozen₀
    cases hfrozen₀
  rwa [List.getElem?_set_ne hne]

theorem links_record (h : c.Linked p owed l) (hc : c.Sound Command.Named owner orderly)
    (hcmd : cmd.Named) {id : Nat} (hid : c.recording = some id) (hclass : cmd.kind ≠ .endClass) :
    StaysLinked p owed (record id cmd) c := by
  intro _ c' hrun
  have hsound := (stays_record continues_trivial hc hcmd hid hclass).of_ok hrun
  obtain ⟨k, rfl, hk, hfrozen⟩ := hc.records.exists_class hid
  obtain ⟨k', method, returned, -, hnotes, rfl⟩ := (ends_record hk cmd).of_ok hrun
  have hlinked := h.reclass hsound.table (hnotes.same.1 ▸ kept_of_set hk hfrozen)
  exact ⟨l, hlinked.congr rfl rfl rfl⟩

theorem links_beginClass (h : c.Linked p owed l) (hc : c.Sound Command.Named owner True)
    (hnone : c.recording = none) (name : String) : StaysLinked p owed (beginClass name) c := by
  intro _ c' hrun
  have hsound := (stays_beginClass continues_trivial hc name hnone (by simp)).of_ok hrun
  obtain ⟨-, -, -, rfl⟩ := (ends_beginClass c name).of_ok hrun
  have hlinked := h.reclass hsound.table fun id k hk _ => by
    rw [List.getElem?_append_left (List.getElem?_eq_some_iff.mp hk).1]
    exact hk
  exact ⟨l, hlinked.congr rfl rfl rfl⟩

theorem links_endClass (h : c.Linked p owed l) (hc : c.Sound Command.Named owner orderly) :
    StaysLinked p owed endClass c := by
  intro _ c' hrun
  have hsound := (stays_endClass continues_trivial hc).of_ok hrun
  obtain ⟨id, k, hid, hk, -, rfl⟩ := (ends_endClass c).of_ok hrun
  obtain rfl := hc.records.ids id k hk
  have hlinked := h.reclass hsound.table (kept_of_set hk ((hc.records.frozen _ k hk).mpr hid))
  exact ⟨l, hlinked.congr rfl rfl rfl⟩

/-! ## Instances -/

def methodNames (body : List Command) : List String :=
  (body.filterMap Command.method?).map Prod.fst

theorem Linked.openInstance (h : c.Linked p [] l) (ht : c.table.Sound S) {name : String}
    (hname : IsIdentifier name) {k : ClassInfo} (hk : c.table.classes[k.id]? = some k)
    (hfrozen : k.frozen = true) (hnew : c.table.instances.find? name = none) :
    (c.withInstance name k.id).Linked p (methodNames k.commands) l := by
  have hstorage : (c.withInstance name k.id).table.storage? = c.table.storage? := by
    funext o n
    unfold SymbolTable.storage? withInstance
    dsimp only
    rw [Scope.find?_insert]
    by_cases ho : o = name
    · simp [ho, hname.nonempty, hnew]
    · simp [ho]
  have hclassOf (o : String) : (c.withInstance name k.id).table.classOf? o =
      if o = name then some k.id else c.table.classOf? o := by
    unfold SymbolTable.classOf? withInstance
    dsimp only
    rw [Scope.find?_insert]
    split <;> rfl
  have hnone : c.table.classOf? name = none := by
    simp [SymbolTable.classOf?, hnew]
  have hmethod (o n : String) : (c.withInstance name k.id).table.method? o n =
      if o = name then k.methods.find? n else c.table.method? o n := by
    unfold SymbolTable.method?
    rw [hclassOf]
    split
    · simp [hk, withInstance]
    · rfl
  have hmethods (o n : String) (sig : Signature) (hsig : c.table.method? o n = some sig) :
      o ≠ name := by
    rintro rfl
    rw [SymbolTable.method?, hnone] at hsig
    cases hsig
  apply h.retable (t := (c.withInstance name k.id).table)
  · refine ⟨?_, h.lexicon.functions, h.lexicon.methods, ?_⟩
    · rw [hstorage]
      exact h.lexicon.storage
    · intro o id hid
      rw [hclassOf] at hid
      split at hid
      · next heq =>
        cases hid
        exact ⟨heq ▸ hname, k, hk, hfrozen⟩
      · exact h.lexicon.instances o id hid
  · exact hstorage
  · rfl
  · apply h.defines.openInstance rfl
    · intro n
      rw [SymbolTable.method?, hnone]
      rfl
    · rfl
    · intro o n ho
      rw [hmethod, if_neg ho]
    · intro n sig hsig
      rw [hmethod, if_pos rfl] at hsig
      have hmem := Scope.mem_of_get?_eq_some hsig
      rw [(ht.classes k (List.mem_of_getElem? hk)).methods] at hmem
      exact List.mem_map.mpr ⟨(n, sig), hmem, rfl⟩
  · exact fun _ _ hsig => hsig
  · intro o n sig hsig
    rw [hmethod, if_neg (hmethods o n sig hsig)]
    exact hsig

theorem Linked.leaveInstance (h : c.Linked p [] l) :
    ({ c with table := c.table.setInstance none } : Compilation).Linked p [] l := by
  apply h.retable
  · exact ⟨h.lexicon.storage, h.lexicon.functions, h.lexicon.methods, h.lexicon.instances⟩
  · rfl
  · rfl
  · exact h.defines.closeInstance none
  · exact fun _ _ hsig => hsig
  · exact fun _ _ _ hsig => hsig

theorem links_replayed {name : String} {id : Nat} {k : ClassInfo} {rest : List Command}
    (hkind : cmd.kind ∉ [.beginClass, .endClass, .declareInstance, .endProgram])
    (hc : c.Sound Command.Named (some (name, id)) orderly) (hk : c.table.classes[id]? = some k)
    (hcmd : cmd ∈ k.commands) (hnodup : (methodNames (cmd :: rest)).Nodup)
    (h : c.Linked p (methodNames (cmd :: rest)) l)
    (hstack : cmd.kind = .declareFunction ∨ cmd.kind = .endFunction → p → c.stack = []) :
    StaysLinked p (methodNames rest) (construct cmd) c := by
  have hsound := hc.table.classes k (List.mem_of_getElem? hk)
  have hnamed := hsound.commands cmd hcmd
  by_cases hfunction : cmd.kind = .declareFunction
  · have hnames : methodNames (cmd :: rest) = cmd.name :: methodNames rest := by
      simp [methodNames, Command.method?, hfunction]
    rw [hnames, List.nodup_cons] at hnodup
    obtain ⟨inst, hinst, hplace⟩ := Option.map_eq_some_iff.mp hc.place
    cases hplace
    obtain ⟨owner, -, howner⟩ := Option.bind_eq_some_iff.mp hinst
    obtain rfl : inst.name = owner := (hc.table.instances owner inst howner).1
    rw [construct, hfunction]
    apply links_declareFunction h hc.table hc.emitter.inside (hnamed.params hfunction)
    · intro hnone
      rw [hnone] at hinst
      cases hinst
    · intro inst' hinst'
      obtain rfl : inst = inst' := Option.some.inj (hinst.symm.trans hinst')
      refine ⟨hnames, hnodup.1, ?_⟩
      simp [SymbolTable.method?, SymbolTable.classOf?, howner, hk,
        hsound.find?_method hcmd hfunction]
    · exact hstack (.inl hfunction)
  · have hnames : methodNames (cmd :: rest) = methodNames rest := by
      simp [methodNames, Command.method?, hfunction]
    rw [hnames] at h
    apply links_construct _ hnamed h hc.table
    · intro hend
      exact hstack (.inr hend)
    · intro hmem
      rcases List.mem_cons.mp hmem with hmem | hmem
      · exact hfunction hmem
      · exact hkind hmem

/-! ## Runs -/

section Runs

variable {file : String} {symbols : RuntimeSymbols} {stream : List Command}

/-- The stack is empty whenever a body is opened or closed. -/
def StackClearAtBodies (file : String) (symbols : RuntimeSymbols) (stream : List Command) : Prop :=
  ∀ c cmd rest, Reaches file symbols stream c (cmd :: rest) → c.recording = none →
    cmd.kind = .declareFunction ∨ cmd.kind = .endFunction → c.stack = []

variable (hclear : p → StackClearAtBodies file symbols stream)
include hclear

theorem links_replay {name : String} {id : Nat} {k : ClassInfo} {body : List Command}
    {r r' : Region} (hplace : r.after? (body.map Command.kind) = some r')
    (hc : c.Sound Command.Named (some (name, id)) True) (hk : c.table.classes[id]? = some k)
    (hbody : ∀ cmd ∈ body, cmd ∈ k.commands) (hnodup : (methodNames body).Nodup)
    (hprogram : c.program = none) (hrecording : c.recording = none)
    (hreaches : Reaches file symbols stream c body) (h : c.Linked p (methodNames body) l) :
    Ensures (replay body) c fun _ c' => ∃ l', c'.Linked p [] l' := by
  induction body generalizing c l r with
  | nil => exact ensures_pure.mpr ⟨l, h⟩
  | cons cmd rest ih =>
    obtain ⟨hkind, r₁, -, hplace⟩ := Region.after?_cons_eq_some hplace
    have hkinds := hkind
    simp only [List.mem_cons, List.not_mem_nil, or_false, not_or] at hkinds
    obtain ⟨hbegin, hend, hinstance, hends⟩ := hkinds
    have hcmd := hbody cmd (by simp)
    intro _ c' hrun
    obtain ⟨_, c₁, hlocated, hrest⟩ := bind_eq_ok.mp hrun
    have hconstruct : construct cmd c = .ok () c₁ := locate_eq_ok.mp hlocated
    have hc₁ := (ends_replayed hkind hc hk hcmd).of_ok hconstruct
    have halong := along_construct hbegin hend hends c () c₁ hconstruct
    have hstack (hbodies : cmd.kind = .declareFunction ∨ cmd.kind = .endFunction) (hp : p) :
        c.stack = [] :=
      hclear hp c cmd rest hreaches hrecording hbodies
    obtain ⟨l₁, h₁⟩ := links_replayed hkind hc hk hcmd hnodup h hstack () c₁ hconstruct
    have hnext : Reaches file symbols stream c₁ rest := by
      apply hreaches.next
      rw [handle_eq_construct hprogram hrecording hinstance]
      exact hlocated
    have hnodup₁ : (methodNames rest).Nodup :=
      List.Nodup.sublist (((List.sublist_cons_self cmd rest).filterMap _).map _) hnodup
    exact ih hplace hc₁ (halong.classes ▸ hk) (fun cmd' hcmd' => hbody cmd' (by simp [hcmd']))
      hnodup₁ (halong.program.trans hprogram) (halong.recording.trans hrecording) hnext h₁ () c'
      hrest

theorem links_declareInstance {rest : List Command} (hkind : cmd.kind = .declareInstance)
    (hcmd : cmd.Named) (hc : c.Sound Command.Named none True) (hprogram : c.program = none)
    (hrecording : c.recording = none) (hreaches : Reaches file symbols stream c (cmd :: rest))
    (h : c.Linked p [] l) :
    Ensures (declareInstance cmd.line cmd.name cmd.target) c fun _ c' =>
      ∃ l', c'.Linked p [] l' := by
  intro _ c' hrun
  obtain ⟨body, c₁, hlocated, hleaving⟩ := bind_eq_ok.mp hrun
  have hopen := locate_eq_ok.mp hlocated
  obtain ⟨halong, hplace⟩ := ensures_openInstance _ _ hc.records body c₁ hopen
  obtain ⟨k, hopened, rfl, rfl, hc₁, hk⟩ :=
    (ends_openInstance continues_trivial hc ⟨cmd, hcmd, hkind, rfl⟩ _ (by simp)).of_ok hopen
  have h₁ := h.openInstance hc.table (hcmd.name (by simp [hkind])) hk hopened.frozen
    hopened.free.instances
  have hnodup : (methodNames k.commands).Nodup := by
    have hsound := hc₁.table.classes k (List.mem_of_getElem? hk)
    have hnames := hsound.nodup
    rw [Scope.names, hsound.methods] at hnames
    exact hnames
  have hleft : Ensures (leavingInstance (replay k.commands)) (c.withInstance cmd.name k.id)
      fun _ c₂ => ∃ l', c₂.Linked p [] l' := by
    refine ensures_leavingInstance.mpr (Ensures.mono (links_replay hclear hplace hc₁ hk
      (fun _ hcmd => hcmd) hnodup (halong.program.trans hprogram)
      (halong.recording.trans hrecording) (hreaches.replay hkind hrecording hopen) h₁) ?_)
    rintro _ c₂ ⟨l₂, h₂⟩
    exact ⟨l₂, h₂.leaveInstance⟩
  exact hleft () c' hleaving

/-- Handling a notification keeps the program linked, up to its end. -/
theorem links_handle {rest : List Command} (hcmd : cmd.Named)
    (hc : c.Sound Command.Named none True)
    (hreaches : Reaches file symbols stream c (cmd :: rest)) (h : c.Linked p [] l)
    (hrun : handle cmd c = .ok () c') :
    (∃ l', c'.Linked p [] l') ∨
      ∃ lines e, Emitter.finish c.emitter = .ok lines e ∧ c'.program = some lines := by
  obtain ⟨hprogram, -, -⟩ := handles_of_handle hrun hc.records
  by_cases hendClass : cmd.kind = .endClass
  · rw [handle_eq_endClass hprogram hendClass, locate_eq_ok] at hrun
    exact .inl (links_endClass h hc () c' hrun)
  cases hrecording : c.recording with
  | some id =>
    rw [handle_eq_record hprogram hrecording hendClass, locate_eq_ok] at hrun
    exact .inl (links_record h hc hcmd hrecording hendClass () c' hrun)
  | none =>
    by_cases hinstance : cmd.kind = .declareInstance
    · rw [handle_eq_declareInstance hprogram hrecording hinstance] at hrun
      exact .inl (links_declareInstance hclear hinstance hcmd hc hprogram hrecording hreaches h
        () c' hrun)
    have hstack (hbodies : cmd.kind = .declareFunction ∨ cmd.kind = .endFunction) (hp : p) :
        c.stack = [] :=
      hclear hp c cmd rest hreaches hrecording hbodies
    rw [handle_eq_construct hprogram hrecording hinstance, locate_eq_ok] at hrun
    by_cases hfunction : cmd.kind = .declareFunction
    · rw [construct, hfunction] at hrun
      refine .inl (links_declareFunction h hc.table hc.emitter.inside (hcmd.params hfunction)
        (fun _ => rfl) ?_ (hstack (.inl hfunction)) () c' hrun)
      intro inst hinst
      have hplace := hc.place
      rw [SymbolTable.place, hinst] at hplace
      cases hplace
    by_cases hclass : cmd.kind = .beginClass
    · rw [construct, hclass] at hrun
      exact .inl (links_beginClass h hc hrecording _ () c' hrun)
    by_cases hend : cmd.kind = .endProgram
    · rw [construct, hend] at hrun
      obtain ⟨lines, e, hfinish, rfl⟩ := ensures_endProgram c () c' hrun
      exact .inr ⟨lines, e, hfinish, rfl⟩
    · refine .inl (links_construct ?_ hcmd h hc.table (fun hkind => hstack (.inr hkind)) () c' hrun)
      simp [hfunction, hclass, hendClass, hinstance, hend]

/-- The program is linked when its end is reached. -/
theorem exists_linked_of_handled {commands : List Command} {lines : List Line}
    (hnamed : ∀ cmd ∈ commands, cmd.Named) (hc : c.Sound Command.Named none True)
    (hreaches : Reaches file symbols stream c commands) (h : c.Linked p [] l)
    (hprogram : c.program = none) (hhandled : handled? commands c = some c')
    (hlines : c'.program = some lines) :
    ∃ (c₀ : Compilation) (l₀ : Layout) (e : Emitter), c₀.Linked p [] l₀ ∧
      c₀.emitter.symbols = c.emitter.symbols ∧ Emitter.finish c₀.emitter = .ok lines e ∧
      ∃ coming, Reaches file symbols stream c₀ coming := by
  induction commands generalizing c l with
  | nil =>
    cases hhandled
    rw [hprogram] at hlines
    cases hlines
  | cons cmd rest ih =>
    obtain ⟨c₁, hcmd, hrest⟩ := handled?_cons.mp hhandled
    obtain ⟨-, hhandles, -⟩ := handles_of_handle hcmd hc.records
    have hc₁ := (ends_handle hc (hnamed cmd (by simp))).of_ok hcmd
    rcases hhandles.run_or_finish with ⟨hkept, kinds, hrun⟩ | ⟨lines', hlines', hfinish⟩
    · have hsymbols : c₁.emitter.symbols = c.emitter.symbols :=
        hrun.invariant (P := fun e => e.symbols = c.emitter.symbols)
          (fun _ _ hstep he => hstep.symbols_eq.trans he) rfl
      rcases links_handle hclear (hnamed cmd (by simp)) hc hreaches h hcmd with
        ⟨l₁, h₁⟩ | ⟨lines', e, -, hlines'⟩
      · rw [← hsymbols]
        exact ih (fun cmd' hcmd' => hnamed cmd' (by simp [hcmd'])) hc₁ (hreaches.next hcmd) h₁
          (hkept.trans hprogram) hrest
      · rw [hkept, hprogram] at hlines'
        cases hlines'
    · have hended : c₁.ended = true := by simp [ended, hlines']
      have hall : handleAll 1 rest c₁ = .ok () c' := handleAll_eq_ok.mpr hrest
      obtain rfl : c' = c₁ := ensures_handleAll_ended 1 rest hended () c' hall
      obtain rfl : lines = lines' := Option.some.inj (hlines.symm.trans hlines')
      exact ⟨c, l, _, h, rfl, hfinish, _, hreaches⟩

omit hclear

theorem linked_start (p : Prop) (file : String) (symbols : RuntimeSymbols) :
    (start file symbols).Linked p [] Emitter.startLayout where
  lays := Emitter.lays_start symbols
  lexicon := SymbolTable.lexicon_start
  stores := by
    refine ⟨by simp [Emitter.startLayout], ?_, by simp [Emitter.startLayout],
      by simp [Emitter.startLayout]⟩
    intro owner name g hg
    unfold SymbolTable.storage? at hg
    split at hg <;> cases hg
  defines := by
    refine ⟨by simp [Layout.functions, Emitter.startLayout],
      by simp [Layout.functions, Emitter.startLayout], ?_⟩
    intro name type hp
    cases hp with
    | function hsig => cases hsig
    | method hsig => cases hsig
  frames := SymbolTable.frames_start _
  entry := by
    intro d hd
    cases hd
  closed := by
    intro d hd
    cases hd
  typed := by
    intro d hd
    simp only [Layout.drafts, Emitter.startLayout, Option.toList_none, List.append_nil,
      List.mem_singleton] at hd
    subst hd
    exact ⟨trivial, .nil⟩
  stack := by
    intro op hop
    cases hop
  returns := by
    intro f hf
    cases hf

/-- A compiled program is linked when its end is reached. -/
theorem exists_linked {lines : List Line} (hclear : p → StackClearAtBodies file symbols stream)
    (hnamed : ∀ cmd ∈ stream, cmd.Named) (hcompile : compile file stream symbols = .ok lines) :
    ∃ (c : Compilation) (l : Layout) (e : Emitter), c.Linked p [] l ∧
      c.emitter.symbols = symbols ∧ Emitter.finish c.emitter = .ok lines e ∧
      ∃ coming, Reaches file symbols stream c coming := by
  obtain ⟨c', hall, hlines⟩ := compile_eq_ok.mp hcompile
  exact exists_linked_of_handled hclear hnamed (sound_start file symbols) .start
    (linked_start p file symbols) rfl (handleAll_eq_ok.mp hall) hlines

end Runs

end Compilation

end MkCompiler
