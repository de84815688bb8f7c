import Mathlib.Data.List.Nodup
import Mathlib.Data.List.Range
import MkCompiler.Proofs.Blocks

/-!
# Labels

Every control construct has a number of its own. While its body is compiled its labels are placed
one after the other, in the function that opened it, so that at the end of the program each of them
has been placed once and every branch finds its target.
-/

namespace MkCompiler

def Line.label? : Line → Option Label
  | .label l => some l
  | _ => none

def labels (lines : List Line) : List Label :=
  lines.filterMap Line.label?

def Instr.targets : Instr → List Label
  | .jump target => [target]
  | .branch _ yes no => [yes, no]
  | _ => []

def Line.targets : Line → List Label
  | .instr i => i.targets
  | _ => []

def targets (lines : List Line) : List Label :=
  lines.flatMap Line.targets

/-- The labels of a control construct, in the order in which they are placed. -/
def constructLabels (id : Nat) : List Label :=
  [⟨.compare, id⟩, ⟨.body, id⟩, ⟨.exit, id⟩]

@[simp] theorem labels_append (a b : List Line) : labels (a ++ b) = labels a ++ labels b := by
  simp [labels]

@[simp] theorem targets_append (a b : List Line) : targets (a ++ b) = targets a ++ targets b := by
  simp [targets]

theorem labels_instr (code : List Instr) : labels (code.map .instr) = [] := by
  rw [labels, List.filterMap_eq_nil_iff]
  intro line hline
  obtain ⟨i, -, rfl⟩ := List.mem_map.mp hline
  rfl

theorem targets_straight {code : List Instr} (h : ∀ i ∈ code, i.isTerminator = false) :
    targets (code.map .instr) = [] := by
  rw [targets, List.flatMap_eq_nil_iff]
  intro line hline
  obtain ⟨i, hi, rfl⟩ := List.mem_map.mp hline
  have hstraight := h i hi
  cases i <;> first | rfl | cases hstraight

def labelsFor (id : Nat) (lines : List Line) : List Label :=
  (labels lines).filter fun l => l.id = id

theorem labelsFor_append (id : Nat) (a b : List Line) :
    labelsFor id (a ++ b) = labelsFor id a ++ labelsFor id b := by
  simp [labelsFor]

def openedIn (lines : List Line) : List Nat :=
  (labels lines).filterMap fun l => if l.role = .compare then some l.id else none

theorem openedIn_append (a b : List Line) :
    openedIn (a ++ b) = openedIn a ++ openedIn b := by
  simp [openedIn]

theorem openedIn_instr (code : List Instr) : openedIn (code.map .instr) = [] := by
  rw [openedIn, labels_instr]
  rfl

/-! ## Labels of a body -/

/-- The labels of a construct of a body that have been placed: that of its condition, then that of
its body while the construct is open, in the end all three. -/
def placed (pending : List Nat) (openCompare : Option Nat) (id : Nat) : List Label :=
  if openCompare = some id then [⟨.compare, id⟩]
  else if id ∈ pending then [⟨.compare, id⟩, ⟨.body, id⟩]
  else constructLabels id

/-- The labels of the code of a body agree with its open constructs. -/
structure Labelled (pending : List Nat) (openCompare : Option Nat) (code : List Line) : Prop where
  labelsFor_eq : ∀ id, labelsFor id code =
    if id ∈ openedIn code then placed pending openCompare id else []
  target_mem : ∀ l ∈ targets code, l.id ∈ openedIn code
  pending_mem : ∀ id ∈ pending, id ∈ openedIn code
  nodup : pending.Nodup
  open_mem : ∀ id, openCompare = some id → id ∈ openedIn code ∧ id ∉ pending

namespace Labelled

variable {p p' : List Nat} {o o' : Option Nat} {code code' : List Line} {l : Label} {id : Nat}

theorem start : Labelled [] none [] where
  labelsFor_eq := by simp [labelsFor, labels, openedIn]
  target_mem := by simp [targets]
  pending_mem := by simp
  nodup := .nil
  open_mem := by simp

theorem straight (h : Labelled p o code) (hlabels : labels code' = [])
    (htargets : targets code' = []) : Labelled p o (code ++ code') := by
  have hopened : openedIn (code ++ code') = openedIn code := by simp [openedIn, hlabels]
  have hfor (id : Nat) : labelsFor id (code ++ code') = labelsFor id code := by
    simp [labelsFor, hlabels]
  refine ⟨?_, ?_, ?_, h.nodup, ?_⟩
  · simpa only [hopened, hfor] using h.labelsFor_eq
  · simpa only [hopened, targets_append, htargets, List.append_nil] using h.target_mem
  · simpa only [hopened] using h.pending_mem
  · simpa only [hopened] using h.open_mem

/-- Code that places one label. Of the constructs that are open only that of the label changes. -/
theorem place (h : Labelled p o code) (hlabels : labels code' = [l])
    (htargets : ∀ t ∈ targets code', t.id = l.id) (hopened : l.id ∈ openedIn (code ++ code'))
    (hself : labelsFor l.id code ++ [l] = placed p' o' l.id)
    (hother : ∀ id, id ≠ l.id → placed p' o' id = placed p o id)
    (hpending : ∀ id ∈ p', id ∈ p ∨ id = l.id) (hnodup : p'.Nodup)
    (hopen : ∀ id, o' = some id → (id ∈ openedIn code ∨ id = l.id) ∧ id ∉ p') :
    Labelled p' o' (code ++ code') := by
  have hmem : ∀ id, id ∈ openedIn code ∨ id = l.id → id ∈ openedIn (code ++ code') := by
    rintro id (hid | rfl)
    · rw [openedIn_append]
      exact List.mem_append_left _ hid
    · exact hopened
  have hiff : ∀ id, id ≠ l.id → (id ∈ openedIn (code ++ code') ↔ id ∈ openedIn code) := by
    intro id hid
    rw [openedIn_append, List.mem_append, openedIn, openedIn, hlabels]
    simp only [List.filterMap_cons, List.filterMap_nil]
    split <;> simp_all
  refine ⟨fun id => ?_, fun t ht => ?_, fun id hid => ?_, hnodup, fun id hid => ?_⟩
  · by_cases hid : id = l.id
    · subst hid
      rw [if_pos hopened, labelsFor_append, ← hself, labelsFor, labelsFor, hlabels]
      simp
    · have hnew : labelsFor id code' = [] := by
        rw [labelsFor, hlabels]
        simp [Ne.symm hid]
      rw [labelsFor_append, hnew, List.append_nil, h.labelsFor_eq, hother id hid]
      simp only [hiff id hid]
  · rw [targets_append, List.mem_append] at ht
    rcases ht with ht | ht
    · exact hmem _ (.inl (h.target_mem t ht))
    · rw [htargets t ht]
      exact hopened
  · rcases hpending id hid with hid | rfl
    · exact hmem _ (.inl (h.pending_mem id hid))
    · exact hopened
  · exact ⟨hmem _ (hopen id hid).1, (hopen id hid).2⟩

theorem condition (h : Labelled p none code) (hnew : id ∉ openedIn code) :
    Labelled p (some id) (code ++ Emitter.conditionCode id) := by
  have hp : id ∉ p := fun hid => hnew (h.pending_mem id hid)
  refine h.place (l := ⟨.compare, id⟩) rfl ?_ ?_ ?_ ?_ (fun _ => .inl) h.nodup ?_
  · simp [Emitter.conditionCode, targets, Line.targets, Instr.targets]
  · simp [Emitter.conditionCode, openedIn, labels, Line.label?]
  · rw [h.labelsFor_eq, if_neg hnew]
    simp [placed]
  · intro id' hid'
    simp [placed, Ne.symm hid']
  · rintro _ ⟨⟩
    exact ⟨.inr rfl, hp⟩

theorem branch (h : Labelled p (some id) code) (n : Int) :
    Labelled (id :: p) none (code ++ Emitter.branchCode n id) := by
  obtain ⟨hid, hp⟩ := h.open_mem id rfl
  refine h.place (l := ⟨.body, id⟩) rfl ?_ ?_ ?_ ?_ ?_ (List.nodup_cons.mpr ⟨hp, h.nodup⟩) ?_
  · simp [Emitter.branchCode, targets, Line.targets, Instr.targets]
  · rw [openedIn_append]
    exact List.mem_append_left _ hid
  · rw [h.labelsFor_eq, if_pos hid]
    simp [placed]
  · intro id' hid'
    simp [placed, hid', Ne.symm hid']
  · intro id' hid'
    rcases List.mem_cons.mp hid' with rfl | hid'
    · exact .inr rfl
    · exact .inl hid'
  · rintro _ ⟨⟩

theorem exit (h : Labelled (id :: p) o code) (kind : ControlKind) :
    Labelled p o (code ++ Emitter.exitCode kind id) := by
  obtain ⟨hp, hnodup⟩ := List.nodup_cons.mp h.nodup
  have hid : id ∈ openedIn code := h.pending_mem id (by simp)
  have ho : o ≠ some id := fun ho => (h.open_mem id ho).2 (by simp)
  refine h.place (l := ⟨.exit, id⟩) rfl ?_ ?_ ?_ ?_ ?_ hnodup ?_
  · simp [Emitter.exitCode, targets, Line.targets, Instr.targets]
  · rw [openedIn_append]
    exact List.mem_append_left _ hid
  · rw [h.labelsFor_eq, if_pos hid]
    simp [placed, ho, hp, constructLabels]
  · intro id' hid'
    simp [placed, hid']
  · exact fun id' hid' => .inl (List.mem_cons_of_mem _ hid')
  · intro id' hid'
    obtain ⟨hmem, hnot⟩ := h.open_mem id' hid'
    exact ⟨.inl hmem, fun hp' => hnot (List.mem_cons_of_mem _ hp')⟩

end Labelled

/-! ## Labels of a program -/

def openedAll (drafts : List Draft) : List Nat :=
  drafts.flatMap fun d => openedIn d.code

/-- The labels of all definitions agree with their open constructs, and every construct number that
has been handed out belongs to one definition. -/
structure Emitter.Labels (e : Emitter) (l : Layout) : Prop where
  active : Labelled e.active.pending e.active.openCompare l.active.code
  suspended : ∀ d ∈ l.suspended, Labelled e.entry.pending e.entry.openCompare d.code
  closed : ∀ d ∈ l.closed, Labelled [] none d.code
  numbers : (openedAll l.drafts).Perm (List.range e.labels)

namespace Emitter

variable {e e' : Emitter} {l : Layout}

theorem labels_start (symbols : RuntimeSymbols) : (Emitter.start symbols).Labels startLayout where
  active := .start
  suspended := by simp [startLayout]
  closed := by simp [startLayout]
  numbers := .refl _

theorem Labels.grow (h : e.Labels l) {header code : List Line} {slots : List Instr}
    (ids : List Nat) (hentry : ∀ d ∈ l.suspended, e'.entry = e.entry)
    (hactive : Labelled e'.active.pending e'.active.openCompare (l.active.code ++ code))
    (hids : openedIn code = ids) (hnumbers : List.range e'.labels = List.range e.labels ++ ids) :
    e'.Labels (l.grow header slots code) where
  active := hactive
  suspended := by
    intro d hd
    rw [hentry d hd]
    exact h.suspended d hd
  closed := h.closed
  numbers := by
    have hopened : openedAll (l.grow header slots code).drafts =
        openedIn l.active.code ++ (ids ++ openedAll (l.suspended.toList ++ l.closed)) := by
      simp [openedAll, Layout.drafts, Layout.grow, openedIn_append, hids]
    have hbefore : openedAll l.drafts =
        openedIn l.active.code ++ openedAll (l.suspended.toList ++ l.closed) := by
      simp [openedAll, Layout.drafts]
    have hnumbers' := h.numbers
    rw [hbefore] at hnumbers'
    rw [hopened, hnumbers]
    refine (List.perm_append_comm.append_left _).trans ?_
    rw [← List.append_assoc]
    exact hnumbers'.append_right ids

/-- The entry point does not change while a function is open. -/
theorem Lays.entry_eq (h : e.Lays l) (f : FunctionContext → FunctionContext) :
    ∀ d ∈ l.suspended, (Emitter.modifyActive f e).entry = e.entry := by
  intro d hd
  have hentry := h.entry
  rw [EntryLays, Option.mem_def.mp hd] at hentry
  obtain ⟨o, ho⟩ := Option.isSome_iff_exists.mp hentry.1
  rw [Emitter.modifyActive, ho]

theorem Labels.straight (hs : Straight e e') (hl : e.Lays l) (h : e.Labels l) :
    ∃ l', e'.Lays l' ∧ e'.Labels l' := by
  obtain ⟨header, slots, code, hcode, hl'⟩ := hs.layout l hl
  obtain ⟨c, o, rfl, hpending, hopen⟩ := hs.frame
  refine ⟨_, hl', h.grow [] (hl.entry_eq _) ?_ ?_ ?_⟩
  · have hactive : ({ modifyActive (fun _ => c) e with output := o } : Emitter).active = c :=
      active_modifyActive e _
    rw [hactive, hpending, hopen]
    exact h.active.straight (labels_instr code) (targets_straight hcode)
  · exact openedIn_instr code
  · simp

theorem Labels.turns (h : e.Labels l) {p : List Nat} {o : Option Nat} {n : Nat}
    {code : List Line} (ids : List Nat) (ht : Turns e e' p o n code) (hl : e.Lays l)
    (hactive : Labelled p o (l.active.code ++ code)) (hids : openedIn code = ids)
    (hnumbers : List.range n = List.range e.labels ++ ids) : ∃ l', e'.Lays l' ∧ e'.Labels l' := by
  refine ⟨_, ht.layout l hl, h.grow ids ?_ ?_ hids ?_⟩
  · obtain ⟨c, a, rfl, -, -⟩ := ht.frame
    exact hl.entry_eq _
  · rw [ht.pending_eq, ht.openCompare_eq]
    exact hactive
  · rw [ht.labels_eq]
    exact hnumbers

theorem Labels.next_not_mem (h : e.Labels l) : e.labels ∉ openedIn l.active.code := by
  intro hmem
  have hall : e.labels ∈ openedAll l.drafts := by
    simp [openedAll, Layout.drafts, hmem]
  have hrange := h.numbers.mem_iff.mp hall
  simp at hrange

theorem BodyStep.labels (hs : BodyStep e e') (hl : e.Lays l) (h : e.Labels l) :
    ∃ l', e'.Lays l' ∧ e'.Labels l' := by
  cases hs with
  | straight hs => exact h.straight hs hl
  | condition hopen ht =>
    have hactive := h.active
    rw [hopen] at hactive
    refine h.turns [e.labels] ht hl (hactive.condition h.next_not_mem) rfl ?_
    exact List.range_succ
  | branch hopen hcode ht =>
    have hactive := h.active
    rw [hopen] at hactive
    have hstraight := hactive.straight (labels_instr _) (targets_straight hcode)
    refine h.turns [] ht hl ?_ ?_ (by simp)
    · rw [← List.append_assoc]
      exact hstraight.branch _
    · rw [openedIn_append, openedIn_instr]
      rfl
  | exit hpending ht =>
    have hactive := h.active
    rw [hpending] at hactive
    exact h.turns [] ht hl (hactive.exit _) rfl (by simp)
  | ret hcode ht =>
    refine h.turns [] ht hl (h.active.straight ?_ ?_) ?_ (by simp)
    · rw [labels_append, labels_instr]
      rfl
    · rw [targets_append, targets_straight hcode]
      rfl
    · rw [openedIn_append, openedIn_instr]
      rfl

/-- Every step of the emitter keeps labels and open constructs in agreement. -/
theorem Step.labels (hs : Step e e') (hl : e.Lays l) (h : e.Labels l) :
    ∃ l', e'.Lays l' ∧ e'.Labels l' := by
  cases hs with
  | body hs => exact hs.labels hl h
  | enter hnone he hpending hopen hlays =>
    have hsuspended := hl.suspended_eq_none hnone
    have hactive : e.active = e.entry := by rw [Emitter.active, hnone]
    refine ⟨_, hlays l hl, ?_⟩
    subst he
    refine ⟨?_, ?_, h.closed, ?_⟩
    · change Labelled _ _ []
      rw [Emitter.active]
      dsimp only
      rw [hpending, hopen]
      exact .start
    · rintro d ⟨⟩
      rw [← hactive]
      exact h.active
    · have hnumbers := h.numbers
      rw [openedAll, Layout.drafts, hsuspended] at hnumbers
      exact hnumbers
  | @leave f o hsome hpending hopen he hlays =>
    have hactive : e.active = f.context := by rw [Emitter.active, hsome]
    obtain ⟨d, hd, hl'⟩ := hlays l hl
    refine ⟨_, hl', ?_⟩
    subst he
    have hlast : Labelled [] none (l.active.code ++ closingCode f.context.detached) := by
      have hlast := h.active
      rw [hactive, hpending, hopen] at hlast
      cases f.context.detached <;> exact hlast.straight rfl rfl
    refine ⟨h.suspended d hd, by simp [Layout.leave], ?_, ?_⟩
    · intro d' hd'
      rcases List.mem_append.mp hd' with hd' | hd'
      · exact h.closed d' hd'
      · rw [List.mem_singleton.mp hd']
        exact hlast
    · have hclosing : openedIn (closingCode f.context.detached) = [] := by
        cases f.context.detached <;> rfl
      have hnumbers := h.numbers
      rw [openedAll, Layout.drafts, Option.mem_def.mp hd] at hnumbers
      refine List.Perm.trans ?_ hnumbers
      simp only [openedAll, Layout.drafts, Layout.leave, Layout.grow, List.flatMap_append,
        List.flatMap_cons, List.flatMap_nil, Option.toList_none, Option.toList_some,
        List.append_nil, openedIn_append, hclosing, List.cons_append, List.nil_append]
      rw [← List.append_assoc]
      exact List.perm_append_comm

end Emitter

theorem Labelled.labelsFor_closed {code : List Line} (h : Labelled [] none code) (id : Nat) :
    labelsFor id code = if id ∈ openedIn code then constructLabels id else [] := by
  rw [h.labelsFor_eq]
  simp [placed]

theorem count_labelsFor (l : Label) (lines : List Line) :
    (labelsFor l.id lines).count l = (labels lines).count l := by
  unfold labelsFor
  exact List.count_filter (by simp)

theorem count_constructLabels (l : Label) : (constructLabels l.id).count l = 1 := by
  obtain ⟨role, id⟩ := l
  cases role <;> simp [constructLabels]

theorem Labelled.nodup_labels {code : List Line} (h : Labelled [] none code) :
    (labels code).Nodup := by
  rw [List.nodup_iff_count_le_one]
  intro l
  rw [← count_labelsFor, h.labelsFor_closed]
  split
  · rw [count_constructLabels]
  · simp

/-- Definitions that share no construct place the labels of each of their constructs once. -/
theorem labelsFor_drafts {drafts : List Draft} (h : ∀ d ∈ drafts, Labelled [] none d.code)
    (hnodup : (openedAll drafts).Nodup) (id : Nat) :
    (drafts.flatMap fun d => labelsFor id d.code) =
      if id ∈ openedAll drafts then constructLabels id else [] := by
  induction drafts with
  | nil => simp [openedAll]
  | cons d drafts ih =>
    have hcons : openedAll (d :: drafts) = openedIn d.code ++ openedAll drafts := by
      simp [openedAll]
    rw [hcons] at hnodup ⊢
    obtain ⟨-, hrest, hdisjoint⟩ := List.nodup_append.mp hnodup
    rw [List.flatMap_cons, (h d (by simp)).labelsFor_closed,
      ih (fun x hx => h x (by simp [hx])) hrest]
    by_cases hid : id ∈ openedIn d.code
    · have hnot : id ∉ openedAll drafts := fun hmem => hdisjoint id hid id hmem rfl
      simp [hid, hnot]
    · simp [hid]

theorem labels_body (d : Draft) : labels d.toDefinition.body = labels d.code := by
  simp [Draft.toDefinition, Draft.body, labels_instr]

theorem targets_body {d : Draft} (h : d.Closed) :
    targets d.toDefinition.body = targets d.code := by
  simp [Draft.toDefinition, Draft.body,
    targets_straight fun i hi => (h.setup i hi).isTerminator]

theorem labels_lines {preamble : List Line} {drafts : List Draft} (hpreamble : IsPreamble preamble)
    (hdrafts : ∀ d ∈ drafts, d.Closed) :
    labels (preamble ++ (drafts.map Draft.toDefinition).flatMap Definition.lines) =
      drafts.flatMap fun d => labels d.code := by
  have hnone : labels preamble = [] := by
    rw [labels, List.filterMap_eq_nil_iff]
    intro line hline
    have hcode := hpreamble.isCode line hline
    cases line <;> first | rfl | cases hcode
  rw [labels_append, hnone, List.nil_append, List.flatMap_map]
  induction drafts with
  | nil => rfl
  | cons d drafts ih =>
    have hopening : labels [d.opening] = [] := by
      have hopens := (hdrafts d (by simp)).opens
      cases hd : d.opening <;> first | rfl | (rw [hd] at hopens; cases hopens)
    have hlines : labels d.toDefinition.lines = labels d.code := by
      rw [Definition.lines, List.cons_append, ← List.singleton_append, labels_append, labels_append,
        labels_body]
      change labels [d.opening] ++ (labels d.code ++ []) = _
      rw [hopening, List.append_nil, List.nil_append]
    rw [List.flatMap_cons, List.flatMap_cons, labels_append, hlines,
      ih fun x hx => hdrafts x (by simp [hx])]

/-- Where the labels of a construct are placed, each of them is placed once. -/
theorem count_labels {lines : List Line} {l : Label}
    (h : labelsFor l.id lines = constructLabels l.id) : (labels lines).count l = 1 := by
  rw [← count_labelsFor, h, count_constructLabels]

/-- A definition of a program is a control-flow graph: its blocks are closed, and its branches go to
labels of its own that no other line of the program defines. -/
structure Definition.IsFlowGraph (program : List Line) (d : Definition) : Prop where
  blocks_eq : (blocks d.body).flatMap Block.lines = d.body
  isClosed : ∀ b ∈ blocks d.body, b.IsClosed
  target_mem : ∀ l ∈ targets d.body, l ∈ labels d.body ∧ (labels program).count l = 1

/-- The definitions of a finished layout are labelled and share the numbers handed out. -/
theorem Emitter.Labels.finished {e : Emitter} {l : Layout} (h : e.Labels l)
    (hpending : e.active.pending = []) (hopen : e.active.openCompare = none)
    (hsuspended : l.suspended = none) :
    (∀ d ∈ l.finished, Labelled [] none d.code) ∧
      (openedAll l.finished).Perm (List.range e.labels) := by
  constructor
  · intro d hd
    rcases List.mem_cons.mp hd with rfl | hd
    · have hactive := h.active
      rw [hpending, hopen] at hactive
      exact hactive.straight rfl rfl
    · exact h.closed d hd
  · have hnumbers := h.numbers
    rw [openedAll, Layout.drafts, hsuspended] at hnumbers
    have hentry : openedIn [Emitter.entryReturn] = [] := rfl
    simpa [openedAll, Layout.finished, Layout.grow, openedIn_append, hentry] using hnumbers

theorem nodup_labels_of_compile {file : String} {commands : List Command}
    {symbols : RuntimeSymbols} {lines : List Line}
    (h : compile file commands symbols = .ok lines) :
    ∀ d ∈ definitions lines, (labels d.body).Nodup := by
  obtain ⟨c, hrun, hlines⟩ := compile_eq_ok.mp h
  obtain ⟨e, l, hlabels, hpending, hopen, -, hfinished⟩ :=
    exists_layout (Emitter.labels_start symbols) (fun _ _ _ hs hl hp => hs.labels hl hp) hrun hlines
  intro d hd
  rw [hfinished.definitions_eq] at hd
  obtain ⟨draft, hdraft, rfl⟩ := List.mem_map.mp hd
  rw [labels_body]
  exact ((hlabels.finished hpending hopen hfinished.suspended).1 draft hdraft).nodup_labels

/-- Every definition of a compiled program is a control-flow graph, and every construct number
handed out has its three labels, each placed once, in their order and in one definition. -/
theorem compile_flowGraphs {file : String} {commands : List Command} {symbols : RuntimeSymbols}
    {lines : List Line} (h : compile file commands symbols = .ok lines) :
    (∃ preamble, IsPreamble preamble ∧
      lines = preamble ++ (definitions lines).flatMap Definition.lines) ∧
    (∀ d ∈ definitions lines, d.IsFlowGraph lines) ∧
    ∃ c, Compilation.handleAll 1 commands (Compilation.start file symbols) = .ok () c ∧
      ∀ id < c.emitter.labels, labelsFor id lines = constructLabels id ∧
        ∃ d ∈ definitions lines, labelsFor id d.body = constructLabels id := by
  obtain ⟨c, hrun, hlines⟩ := compile_eq_ok.mp h
  obtain ⟨e, l, hlabels, hpending, hopen, hcount, hsuspended, hclosed, hdefinitions,
      preamble, hpreamble, hprogram⟩ :=
    exists_layout (Emitter.labels_start symbols) (fun _ _ _ hs hl hp => hs.labels hl hp) hrun hlines
  obtain ⟨hlabelled, hnumbers⟩ := hlabels.finished hpending hopen hsuspended
  have hnodup : (openedAll l.finished).Nodup := hnumbers.nodup_iff.mpr List.nodup_range
  -- The labels of one construct in the whole program are those of the definition that opens it.
  have hfor (id : Nat) : labelsFor id lines =
      if id ∈ openedAll l.finished then constructLabels id else [] := by
    rw [← labelsFor_drafts hlabelled hnodup id, labelsFor, hprogram, hdefinitions,
      labels_lines hpreamble hclosed, List.filter_flatMap]
    rfl
  have hmem {d : Draft} (hd : d ∈ l.finished) {id : Nat} (hid : id ∈ openedIn d.code) :
      id ∈ openedAll l.finished ∧ labelsFor id d.toDefinition.body = constructLabels id := by
    refine ⟨List.mem_flatMap.mpr ⟨d, hd, hid⟩, ?_⟩
    rw [labelsFor, labels_body, ← labelsFor, (hlabelled d hd).labelsFor_closed, if_pos hid]
  refine ⟨⟨preamble, hpreamble, hprogram⟩, fun d hd => ?_, c, hrun, fun id hid => ?_⟩
  · rw [hdefinitions] at hd
    obtain ⟨draft, hdraft, rfl⟩ := List.mem_map.mp hd
    have hdraft' := hclosed draft hdraft
    refine ⟨blocks_lines hdraft'.isCode, hdraft'.blocks, fun t ht => ?_⟩
    rw [targets_body hdraft'] at ht
    obtain ⟨hall, hown⟩ := hmem hdraft ((hlabelled draft hdraft).target_mem t ht)
    refine ⟨List.count_pos_iff.mp ?_, count_labels (by rw [hfor, if_pos hall])⟩
    rw [count_labels hown]
    exact Nat.one_pos
  · rw [hcount] at hid
    have hall : id ∈ openedAll l.finished := hnumbers.mem_iff.mpr (List.mem_range.mpr hid)
    obtain ⟨d, hd, hd'⟩ := List.mem_flatMap.mp hall
    refine ⟨by rw [hfor, if_pos hall], d.toDefinition, ?_, (hmem hd hd').2⟩
    rw [hdefinitions]
    exact List.mem_map_of_mem hd

theorem compile_flowGraphs_sample : ∃ (lines : List Line) (c : Compilation),
    compile "sample.mk" sampleStream .standard = .ok lines ∧ (definitions lines).length = 3 ∧
    (∀ d ∈ definitions lines, d.IsFlowGraph lines) ∧ c.emitter.labels = 2 ∧
    ∀ id < c.emitter.labels, labelsFor id lines = constructLabels id ∧
      ∃ d ∈ definitions lines, labelsFor id d.body = constructLabels id := by
  obtain ⟨lines, h, hlength⟩ := compile_sampleStream
  obtain ⟨-, hgraphs, c, hrun, hlabels⟩ := compile_flowGraphs h
  have hcount : (match Compilation.handleAll 1 sampleStream
        (Compilation.start "sample.mk" .standard) with
      | .ok _ c => c.emitter.labels
      | .error _ _ => 0) = 2 := by
    decide +kernel
  rw [hrun] at hcount
  exact ⟨lines, c, h, hlength, hgraphs, hcount, hlabels⟩

end MkCompiler
