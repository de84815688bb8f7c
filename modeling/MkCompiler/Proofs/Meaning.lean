import MkCompiler.Proofs.Agreement
import MkCompiler.Proofs.Histories
import MkCompiler.Proofs.MirroredRuns

/-!
# What a program depends on

Two streams of notifications that say the same, whatever their source files and lines and however
their operators are spelled, are handled in step: each notification is accepted in both or fails
alike in both, and the programs are the same. So it does not matter whether notifications are read
from a trace or made one by one. Lines and file are only reported: an error names the file, and the
line of the notification that failed, which is a recorded one if the body of a class was being run.
-/

namespace MkCompiler

open MkCompiler.Action

theorem Failure.Alike.isReturned_eq {f f' : Failure} (h : f.Alike f') :
    f'.isReturned = f.isReturned := by
  cases f with
  | rejected v =>
    obtain ⟨v', rfl, -⟩ := h.exists_rejected
    rfl
  | stream e | internal e | fault e => rw [h.eq_of_ne_rejected (by simp)]

/-- The error that is reported where a compilation stops because the program is wrong. -/
def Stop.error? (stop : Stop) (c : Compilation) : Option CompileError :=
  match stop.failure with
  | .rejected v => some ⟨v, stop.line, c.file⟩
  | _ => none

namespace Compilation

variable {α : Type} {file file' : String} {symbols : RuntimeSymbols} {c c' : Compilation}
  {cmd cmd' : Command}

/-! ## Recording -/

theorem agree_checkRecorded {k k' : ClassInfo} (hk : k.Agree k') (h : cmd.SaysSame cmd') :
    Mirrors (Agree file file') Eq (checkRecorded k cmd) (checkRecorded k' cmd') := by
  obtain ⟨hsame, hsays⟩ := h
  apply Mirrors.get.bind
  rintro c _ ⟨-, -⟩
  rw [hsame, hk.id]
  unfold Command.notification? at hsays
  rw [hsame] at hsays
  cases hkind : cmd.kind with
  | beginClass | declareInstance | endProgram => exact .reject rfl
  | declareFunction =>
    cases c.method with
    | some m => exact .reject rfl
    | none =>
      simp only [hkind, Option.some.injEq, Notification.declareFunction.injEq] at hsays
      obtain ⟨htype, hname, hparams⟩ := hsays
      dsimp only
      rw [htype, hname, hparams]
      refine Blind.bind (declares_blind.checkSignature _ _ _) fun _ => ?_
      refine (blind_onTable (SymbolTable.blind_declareClassMethod _ _)).bind fun _ => ?_
      apply Mirrors.update
      rintro c _ ⟨hfile, ht⟩
      exact ⟨hfile, ht⟩
  | endFunction =>
    cases c.method with
    | none => exact .reject rfl
    | some m =>
      apply Mirrors.get.bind
      rintro c _ ⟨-, -⟩
      apply Mirrors.require_bind Iff.rfl (by rfl)
      intro _
      apply Mirrors.update
      rintro c _ ⟨hfile, ht⟩
      exact ⟨hfile, ht⟩
  | ret =>
    apply Mirrors.require_bind Iff.rfl (by rfl)
    intro _
    apply Mirrors.update
    rintro c _ ⟨hfile, ht⟩
    exact ⟨hfile, ht⟩
  | beginCondition | compare | endIf | endWhile => exact .require Iff.rfl rfl
  | declareVariable =>
    simp only [hkind, Option.some.injEq, Notification.declareVariable.injEq] at hsays
    apply Mirrors.ite Iff.rfl
    · intro _
      exact agree_onTable (SymbolTable.agree_declareClassField _ hsays.1)
    · intro _
      exact .pure rfl
  | declareArray =>
    cases c.method with
    | some m => exact .reject rfl
    | none =>
      simp only [hkind, Option.some.injEq, Notification.declareArray.injEq] at hsays
      exact agree_onTable (SymbolTable.agree_declareClassField _ hsays.2.1)
  | _ => exact .pure rfl

theorem agree_record (id : Nat) (h : cmd.SaysSame cmd') :
    Mirrors (Agree file file') Eq (record id cmd) (record id cmd') := by
  apply (agree_onTable (SymbolTable.agree_classAt id)).bind
  intro k k' hk
  apply (agree_checkRecorded hk h).bind
  intro _ _ _
  apply (agree_onTable (SymbolTable.agree_record id h)).bind
  rintro recorded _ rfl
  apply Mirrors.ite Iff.rfl
  · intro _
    rw [hk.name]
    exact .throw (.refl _)
  · intro _
    exact .pure rfl

/-! ## Handling -/

section Handling

variable {β α' β' : Type} {Q : α → α' → Prop}

/-- Two runs end alike, with results that correspond and in compilations that agree. -/
def EndAlike (file file' : String) (Q : α → α' → Prop) :
    EStateM.Result Stop Compilation α → EStateM.Result Stop Compilation α' → Prop
  | .ok a c, .ok a' c' => Q a a' ∧ c.Agree file file' c'
  | .error stop c, .error stop' c' => stop.failure.Alike stop'.failure ∧ c.Agree file file' c'
  | _, _ => False

theorem endAlike_locate {x : Action Compilation α} {y : Action Compilation α'}
    (h : Mirrors (Agree file file') Q x y) (hc : c.Agree file file' c') (line line' : Int) :
    EndAlike file file' Q (locate line x c) (locate line' y c') := by
  unfold locate
  cases hx : x c with
  | ok a c₁ =>
    obtain ⟨b, c₁', hy, hab, hc₁⟩ := h.of_ok hc hx
    rw [hy]
    exact ⟨hab, hc₁⟩
  | error f c₁ =>
    obtain ⟨f', c₁', hy, hf, hc₁⟩ := h.of_error hc hx
    rw [hy]
    exact ⟨hf, hc₁⟩

theorem endAlike_bind {x : EStateM Stop Compilation α} {y : EStateM Stop Compilation α'}
    {f : α → EStateM Stop Compilation β} {g : α' → EStateM Stop Compilation β'}
    {Q' : β → β' → Prop} (h : EndAlike file file' Q (x c) (y c'))
    (hf : ∀ a b c₁ c₁', Q a b → c₁.Agree file file' c₁' →
      EndAlike file file' Q' (f a c₁) (g b c₁')) :
    EndAlike file file' Q' ((x >>= f) c) ((y >>= g) c') := by
  change EndAlike file file' Q' (EStateM.bind x f c) (EStateM.bind y g c')
  unfold EStateM.bind
  cases hx : x c <;> cases hy : y c' <;> rw [hx, hy] at h
  · exact hf _ _ _ _ h.1 h.2
  · exact h.elim
  · exact h.elim
  · exact h

theorem endAlike_leavingInstance {x : EStateM Stop Compilation α}
    {y : EStateM Stop Compilation α'} (h : EndAlike file file' Q (x c) (y c')) :
    EndAlike file file' Q (leavingInstance x c) (leavingInstance y c') := by
  unfold leavingInstance
  cases hx : x c <;> cases hy : y c' <;> rw [hx, hy] at h
  · exact ⟨h.1, h.2.setInstance none⟩
  · exact h.elim
  · exact h.elim
  · exact ⟨h.1, h.2.setInstance none⟩

theorem endAlike_replay {body body' : List Command} (h : List.Forall₂ Command.SaysSame body body')
    (hc : c.Agree file file' c') : EndAlike file file' Eq (replay body c) (replay body' c') := by
  induction h generalizing c c' with
  | nil => exact ⟨rfl, hc⟩
  | cons hcmd _ ih =>
    apply endAlike_bind (endAlike_locate (agree_construct hcmd) hc _ _)
    intro _ _ c₁ c₁' _ hc₁
    exact ih hc₁

theorem agree_openInstance (name className : String) :
    Mirrors (Agree file file') (List.Forall₂ Command.SaysSame) (openInstance name className)
      (openInstance name className) := by
  apply Mirrors.bind (blind_requireOutside _)
  intro _ _ _
  apply Mirrors.bind (blind_onTable (SymbolTable.blind_declareInstance name className))
  rintro inst _ rfl
  apply (agree_onTable (SymbolTable.agree_classAt _)).bind
  intro k k' hk
  apply Mirrors.bind (Q := Eq)
  · apply Mirrors.update
    intro c c' hc
    exact hc.setInstance _
  intro _ _ _
  exact .pure hk.commands

theorem endAlike_dispatch (h : cmd.SaysSame cmd') (hc : c.Agree file file' c') :
    EndAlike file file' Eq (dispatch cmd c) (dispatch cmd' c') := by
  by_cases hkind : cmd.kind = .declareInstance
  · have hkind' := h.kind.trans hkind
    have hsays := h.notification
    unfold Command.notification? at hsays
    rw [hkind, hkind'] at hsays
    obtain ⟨htarget, hname⟩ := Notification.declareInstance.inj (Option.some.inj hsays)
    rw [dispatch, dispatch, hkind, hkind', hname, htarget]
    apply endAlike_bind (endAlike_locate (agree_openInstance _ _) hc _ _)
    intro body body' c₁ c₁' hbody hc₁
    exact endAlike_leavingInstance (endAlike_replay hbody hc₁)
  · have hkind' : cmd'.kind ≠ .declareInstance := h.kind.symm ▸ hkind
    rw [dispatch_eq_construct hkind, dispatch_eq_construct hkind']
    exact endAlike_locate (agree_construct h) hc _ _

/-- Notifications that say the same are handled alike. -/
theorem endAlike_handle (h : cmd.SaysSame cmd') (hc : c.Agree file file' c') :
    EndAlike file file' Eq (handle cmd c) (handle cmd' c') := by
  change EndAlike file file' Eq ((if c.ended = true then _ else _ : EStateM Stop Compilation Unit) c)
    ((if c'.ended = true then _ else _ : EStateM Stop Compilation Unit) c')
  have hended : c'.ended = c.ended := congrArg Option.isSome hc.program
  have hrecording : c'.recording = c.recording := by
    cases hc
    rfl
  rw [hended, hrecording, h.kind]
  cases c.ended with
  | true => exact ⟨rfl, hc⟩
  | false =>
    cases c.recording with
    | none => exact endAlike_dispatch h hc
    | some id =>
      by_cases hkind : cmd.kind = .endClass
      · simp only [if_pos hkind]
        exact endAlike_dispatch h hc
      · simp only [if_neg hkind]
        exact endAlike_locate (agree_record id h) hc _ _

end Handling

theorem agree_start (file file' : String) (symbols : RuntimeSymbols) :
    (start file symbols).Agree file file' (start file' symbols) :=
  ⟨rfl, ⟨.nil⟩⟩

/-! ## Runs -/

/-- How operations end that are run in turn, each with the state behind it. An operation is run
whether the one before it failed or not, but nothing is run behind a panic. -/
def course : List (EStateM Stop Compilation Unit) → Compilation →
    List (Option Stop × Compilation)
  | [], _ => []
  | x :: rest, c =>
    match x c with
    | .ok _ c' => (none, c') :: course rest c'
    | .error stop c' =>
      (some stop, c') :: if stop.failure.isReturned then course rest c' else []

structure SameStep (p q : Option Stop × Compilation) : Prop where
  ending : Option.Rel (fun stop stop' => stop.failure.Alike stop'.failure) p.1 q.1
  text : q.2.programText = p.2.programText

theorem sameStep_course {commands commands' : List Command}
    (h : List.Forall₂ Command.SaysSame commands commands') (hc : c.Agree file file' c') :
    List.Forall₂ SameStep (course (commands.map handle) c) (course (commands'.map handle) c') := by
  induction h generalizing c c' with
  | nil => exact .nil
  | @cons cmd cmd' rest rest' hcmd _ ih =>
    have hstep := endAlike_handle hcmd hc
    rw [List.map_cons, List.map_cons, course, course]
    cases hrun : handle cmd c <;> cases hrun' : handle cmd' c' <;> rw [hrun, hrun'] at hstep
    · next c₁ _ c₁' =>
      refine .cons ⟨.none, ?_⟩ (ih hstep.2)
      rw [programText, programText, hstep.2.program]
    · exact hstep.elim
    · exact hstep.elim
    · next stop c₁ stop' c₁' =>
      refine .cons ⟨.some hstep.1, ?_⟩ ?_
      · rw [programText, programText, hstep.2.program]
      · rw [hstep.1.isReturned_eq]
        split
        · exact ih hstep.2
        · exact .nil

theorem handled?_of_saysSame {commands commands' : List Command}
    (h : List.Forall₂ Command.SaysSame commands commands') (hc : c.Agree file file' c')
    {d : Compilation} (hd : handled? commands c = some d) :
    ∃ d', handled? commands' c' = some d' ∧ d.Agree file file' d' := by
  induction h generalizing c c' with
  | nil =>
    cases hd
    exact ⟨c', rfl, hc⟩
  | @cons cmd cmd' rest rest' hcmd _ ih =>
    obtain ⟨c₁, hrun, hrest⟩ := handled?_cons.mp hd
    have hstep := endAlike_handle hcmd hc
    rw [hrun] at hstep
    cases hrun' : handle cmd' c' with
    | ok _ c₁' =>
      rw [hrun'] at hstep
      obtain ⟨d', hd', hagree⟩ := ih hstep.2 hrest
      exact ⟨d', handled?_cons.mpr ⟨c₁', hrun', hd'⟩, hagree⟩
    | error stop c₁' =>
      rw [hrun'] at hstep
      exact hstep.elim

/-- Streams that say the same are compiled into the same program, or into none. -/
theorem compile_eq_ok_of_saysSame {commands commands' : List Command}
    (h : List.Forall₂ Command.SaysSame commands commands') {lines : List Line}
    (hlines : compile file commands symbols = .ok lines) (file' : String) :
    compile file' commands' symbols = .ok lines := by
  obtain ⟨d, hall, hprogram⟩ := compile_eq_ok.mp hlines
  obtain ⟨d', hd', hagree⟩ :=
    handled?_of_saysSame h (agree_start file file' symbols) (handleAll_eq_ok.mp hall)
  exact compile_eq_ok.mpr ⟨d', handleAll_eq_ok.mpr hd', hagree.program.trans hprogram⟩

/-! ## Errors -/

/-- The notification declares an instance, and the body of its class is run. -/
structure Replays (cmd : Command) (c : Compilation) (body : List Command) (c₁ : Compilation) :
    Prop where
  program : c.program = none
  recording : c.recording = none
  kind : cmd.kind = .declareInstance
  opened : openInstance cmd.name cmd.target c = .ok body c₁

/-- The line that a failure is reported at: of the notification that is handled, or, while the body
of a class is run, of the notification in it that fails. That one is among those `seen` before. -/
inductive Blames (seen : List Command) (cmd : Command) (c : Compilation) (f : Failure) :
    Int → Prop
  | handled (h : ∀ body c₁, ¬Replays cmd c body c₁) : Blames seen cmd c f cmd.line
  | recorded {body done rest : List Command} {recorded : Command} {c₁ c₂ : Compilation}
      (h : Replays cmd c body c₁) (hbody : body = done ++ recorded :: rest)
      (hseen : recorded ∈ seen) (hfails : FailsBehind done recorded c₁ f c₂) :
      Blames seen cmd c f recorded.line

theorem exists_of_locate_error {line : Int} {x : Action Compilation α} {stop : Stop}
    (h : locate line x c = .error stop c') : x c = .error stop.failure c' ∧ stop.line = line := by
  rw [locate] at h
  cases hx : x c with
  | ok a c₁ =>
    rw [hx] at h
    cases h
  | error f c₁ =>
    rw [hx] at h
    cases h
    exact ⟨rfl, rfl⟩

/-- A class body fails at one of its notifications, at the line of this one. -/
theorem exists_of_replay_error {body : List Command} {stop : Stop}
    (h : replay body c = .error stop c') : ∃ done recorded rest, body = done ++ recorded :: rest ∧
      FailsBehind done recorded c stop.failure c' ∧ stop.line = recorded.line := by
  induction body generalizing c with
  | nil => cases h
  | cons cmd rest ih =>
    change EStateM.bind (locate cmd.line (construct cmd)) (fun _ => replay rest) c = _ at h
    unfold EStateM.bind at h
    cases hcmd : locate cmd.line (construct cmd) c with
    | ok _ c₁ =>
      rw [hcmd] at h
      obtain ⟨done, recorded, rest', rfl, ⟨c₂, hdone, hfails⟩, hline⟩ := ih h
      exact ⟨cmd :: done, recorded, rest', rfl,
        ⟨c₂, bind_eq_ok.mpr ⟨(), c₁, hcmd, hdone⟩, hfails⟩, hline⟩
    | error stop' c₁ =>
      rw [hcmd] at h
      cases h
      obtain ⟨hfails, hline⟩ := exists_of_locate_error hcmd
      exact ⟨[], cmd, rest, rfl, ⟨c, rfl, hfails⟩, hline⟩

theorem ends_located (line : Int) (x : Action Compilation α) (c : Compilation) :
    Ends (locate line x) c (fun _ _ => True) fun stop _ => stop.line = line := by
  rw [ends_locate, Ends]
  cases x c with
  | ok a c' => trivial
  | error f c' => rfl

/-- Unless the body of a class is run, a failure is at the line of the notification. -/
theorem line_of_handle (h : ∀ body c₁, ¬Replays cmd c body c₁) :
    Ends (handle cmd) c (fun _ _ => True) fun stop _ => stop.line = cmd.line := by
  rw [handle, ends_bind, ends_get, ends_ite]
  refine ⟨fun _ => ends_throw.mpr rfl, fun hended => ?_⟩
  have hprogram : c.program = none := by simpa [ended] using hended
  by_cases hkind : cmd.kind = .declareInstance
  · cases hrecording : c.recording with
    | some id =>
      dsimp only
      rw [if_neg (by simp [hkind])]
      exact ends_located _ _ c
    | none =>
      dsimp only
      rw [dispatch, hkind]
      dsimp only
      rw [declareInstance, ends_bind]
      cases hopen : openInstance cmd.name cmd.target c with
      | ok body c₁ => exact absurd ⟨hprogram, hrecording, hkind, hopen⟩ (h body c₁)
      | error f c₁ =>
        rw [ends_locate, ends_of_error hopen]
  · have hdispatch : Ends (dispatch cmd) c (fun _ _ => True) fun stop _ => stop.line = cmd.line := by
      rw [dispatch_eq_construct hkind]
      exact ends_located _ _ c
    cases c.recording with
    | none => exact hdispatch
    | some id => exact ends_ite.mpr ⟨fun _ => hdispatch, fun _ => ends_located _ _ c⟩

theorem blames_of_handle {seen : List Command} {stop : Stop}
    (hc : c.Sound (· ∈ seen) none False) (h : handle cmd c = .error stop c') :
    Blames seen cmd c stop.failure stop.line := by
  by_cases hreplays : ∃ body c₁, Replays cmd c body c₁
  · obtain ⟨body, c₁, hreplays⟩ := hreplays
    rw [handle_eq_declareInstance hreplays.program hreplays.recording hreplays.kind] at h
    change EStateM.bind (locate cmd.line (openInstance cmd.name cmd.target))
      (fun body => leavingInstance (replay body)) c = _ at h
    rw [EStateM.bind, locate_eq_ok.mpr hreplays.opened] at h
    dsimp only [leavingInstance] at h
    cases hrun : replay body c₁ with
    | ok _ c₂ =>
      rw [hrun] at h
      cases h
    | error stop' c₂ =>
      rw [hrun] at h
      cases h
      obtain ⟨done, recorded, rest, hbody, hfails, hline⟩ := exists_of_replay_error hrun
      rw [hline]
      refine .recorded hreplays hbody ?_ hfails
      obtain ⟨k, hk, hcommands, -⟩ := (hc.records.ends_openInstance _ _).of_ok hreplays.opened
      have hmem := List.mem_of_getElem? (hc.records.getElem?_of_class? hk.class_eq)
      apply (hc.table.classes k hmem).commands
      rw [hcommands, hbody]
      simp
  · have hnone (body : List Command) (c₁ : Compilation) : ¬Replays cmd c body c₁ :=
      fun hbody => hreplays ⟨body, c₁, hbody⟩
    rw [(line_of_handle hnone).of_error h]
    exact .handled hnone

theorem file_behind (file : String) (symbols : RuntimeSymbols) (commands : List Command) :
    (behind commands (start file symbols)).Agree file file (behind commands (start file symbols)) := by
  apply behind_induction (P := fun c => c.Agree file file c) (agree_start file file symbols)
  intro cmd _ c hc
  have hstep := endAlike_handle (.refl cmd) hc
  rw [Ends]
  cases hrun : handle cmd c with
  | ok _ c' =>
    rw [hrun] at hstep
    exact hstep.2
  | error stop c' =>
    rw [hrun] at hstep
    exact hstep.2

theorem exists_of_compile_violation {commands : List Command} {e : CompileError}
    (h : compile file commands symbols = .error (.violation e)) :
    ∃ front cmd rest stop c', commands = front ++ cmd :: rest ∧
      handle cmd (behind front (start file symbols)) = .error stop c' ∧
      stop.error? c' = some e := by
  unfold compile at h
  cases hrun : handleAll 1 commands (start file symbols) with
  | ok _ c =>
    rw [hrun] at h
    dsimp only at h
    split at h <;> cases h
  | error failed c' =>
    obtain ⟨position, cmd, failure, line⟩ := failed
    obtain ⟨front, rest, c₀, hsplit, hfront, hcmd⟩ := exists_of_handleAll_error hrun
    obtain rfl := behind_of_handled? hfront
    refine ⟨front, cmd, rest, ⟨failure, line⟩, c', hsplit, hcmd, ?_⟩
    have hfile : c'.file = file := by
      have hstep := endAlike_handle (.refl cmd) (file_behind file symbols front)
      rw [hcmd] at hstep
      exact hstep.2.file
    rw [hrun] at h
    cases failure with
    | rejected v =>
      cases h
      simp [Stop.error?, hfile]
    | stream e | internal e | fault e => cases h

/-- What is compiled depends on what the notifications say alone: not on source files and lines, not
on how operators are spelled, and not on fields that a kind does not read. Streams that say the same
are handled in step, whether they are read from traces or notified one by one. An error carries the
source file, and the line of the notification that was handled, or of the recorded one that failed
while the body of a class was being run. -/
theorem program_depends_on_notifications (file file' : String) (symbols : RuntimeSymbols) :
    (∀ commands commands' : List Command, List.Forall₂ Command.SaysSame commands commands' →
      List.Forall₂ SameStep (course (commands.map handle) (start file symbols))
        (course (commands'.map handle) (start file' symbols)) ∧
      ∀ lines, compile file commands symbols = .ok lines ↔
        compile file' commands' symbols = .ok lines) ∧
    (∀ (commands : List Command) (calls : List (Int × Notification)),
      List.Forall₂ (fun cmd call => cmd.notification? = some call.2) commands calls →
      List.Forall₂ SameStep (course (commands.map handle) (start file symbols))
        (course (calls.map fun call => notify call.1 call.2) (start file' symbols))) ∧
    (∀ front cmd stop c' e, handle cmd (behind front (start file symbols)) = .error stop c' →
      stop.error? c' = some e → e.file = file ∧
        Blames front cmd (behind front (start file symbols)) (.rejected e.violation) e.line) ∧
    ∀ commands e, compile file commands symbols = .error (.violation e) →
      ∃ front cmd rest stop c', commands = front ++ cmd :: rest ∧
        handle cmd (behind front (start file symbols)) = .error stop c' ∧
        stop.error? c' = some e := by
  refine ⟨?_, ?_, ?_, fun _ _ => exists_of_compile_violation⟩
  · intro commands commands' h
    refine ⟨sameStep_course h (agree_start file file' symbols), fun lines => ⟨?_, ?_⟩⟩
    · intro hlines
      exact compile_eq_ok_of_saysSame h hlines file'
    · intro hlines
      have hflip : List.Forall₂ Command.SaysSame commands' commands :=
        List.Forall₂.flip (h.imp fun _ _ hcmd => hcmd.symm)
      exact compile_eq_ok_of_saysSame hflip hlines file
  · intro commands calls h
    have hsame : List.Forall₂ Command.SaysSame commands
        (calls.map fun call => call.2.toCommand call.1) :=
      List.forall₂_map_right_iff.mpr (h.imp fun cmd call hcmd => Command.saysSame_toCommand hcmd _)
    have hcourse := sameStep_course hsame (agree_start file file' symbols)
    rw [List.map_map] at hcourse
    exact hcourse
  · intro front cmd stop c' e hcmd herror
    have hfront := intact_behind_start (S := (· ∈ front)) file symbols fun _ h => h
    have hstep := endAlike_handle (.refl cmd) (file_behind file symbols front)
    rw [hcmd] at hstep
    obtain ⟨failure, line⟩ := stop
    have hblames := blames_of_handle hfront.sound hcmd
    cases failure with
    | rejected v =>
      cases herror
      exact ⟨hstep.2.file, hblames⟩
    | stream e | internal e | fault e => cases herror

/-- A class whose body refers to an unknown variable behind a method, an instance of it, which is
refused, an operator that is unknown, and a sum. -/
def tokenStream : List Command :=
  [{ kind := .beginClass, name := "P", line := 1 },
    { kind := .declareVariable, name := "n", line := 2 },
    { kind := .declareFunction, name := "half", type := .real, line := 3 },
    { kind := .name, name := "n", line := 4 }, { kind := .int, text := "2", line := 4 },
    { kind := .arith, text := "/", line := 4 }, { kind := .ret, line := 4 },
    { kind := .endFunction, line := 5 },
    { kind := .name, name := "m", line := 6 }, { kind := .endClass, line := 7 },
    { kind := .declareInstance, name := "p", target := "P", line := 8 },
    { kind := .arith, text := "**", line := 9 },
    { kind := .int, text := "1", line := 10 }, { kind := .int, text := "2", line := 10 },
    { kind := .arith, text := "+", line := 10 }, { kind := .print, line := 10 },
    { kind := .endProgram, line := 11 }]

/-- The same stream with named operators, without lines, and with fields that are not read. -/
def nameStream : List Command :=
  [{ kind := .beginClass, name := "P", target := "p" },
    { kind := .declareVariable, name := "n", type := .real, count := 3 },
    { kind := .declareFunction, name := "half", type := .real, text := "half" },
    { kind := .name, name := "n", hasInit := true }, { kind := .int, text := "2", name := "two" },
    { kind := .arith, text := "div" }, { kind := .ret, type := .int }, { kind := .endFunction },
    { kind := .name, name := "m" }, { kind := .endClass, name := "P" },
    { kind := .declareInstance, name := "p", target := "P" },
    { kind := .arith, text := "pow" },
    { kind := .int, text := "1" }, { kind := .int, text := "2" },
    { kind := .arith, text := "add" }, { kind := .print, length := 9 }, { kind := .endProgram }]

def sumCalls : List (Int × Notification) :=
  [(20, .int "1"), (21, .int "2"), (22, .arith .add), (23, .print), (24, .endProgram)]

theorem program_depends_on_notifications_sample :
    List.Forall₂ Command.SaysSame tokenStream nameStream ∧
    (course (tokenStream.map handle) (start "a.mk" .standard)).map (fun p => p.1.map Stop.line) =
      [none, none, none, none, none, none, none, none, none, none, some 6, some 9, none, none, none,
        none, none] ∧
    List.Forall₂ SameStep (course (tokenStream.map handle) (start "a.mk" .standard))
      (course (nameStream.map handle) (start "b.mk" .standard)) ∧
    List.Forall₂ SameStep (course ((tokenStream.drop 12).map handle) (start "a.mk" .standard))
      (course (sumCalls.map fun call => notify call.1 call.2) (start "b.mk" .standard)) ∧
    compile "a.mk" tokenStream .standard =
      .error (.violation ⟨.unknownVariable "m", 6, "a.mk"⟩) ∧
    ∃ front cmd rest, tokenStream = front ++ cmd :: rest ∧
      Blames front cmd (behind front (start "a.mk" .standard)) (.rejected (.unknownVariable "m"))
        6 := by
  have hsame : List.Forall₂ Command.SaysSame tokenStream nameStream := by
    decide +kernel
  have hlines : (course (tokenStream.map handle) (start "a.mk" .standard)).map
      (fun p => p.1.map Stop.line) =
        [none, none, none, none, none, none, none, none, none, none, some 6, some 9, none, none,
          none, none, none] := by
    decide +kernel
  have hcalls : List.Forall₂ (fun (cmd : Command) call => cmd.notification? = some call.2)
      (tokenStream.drop 12) sumCalls := by
    decide +kernel
  have hcompile : compile "a.mk" tokenStream .standard =
      .error (.violation ⟨.unknownVariable "m", 6, "a.mk"⟩) := by
    decide +kernel
  obtain ⟨htraces, hnotified, hreported, hviolation⟩ :=
    program_depends_on_notifications "a.mk" "b.mk" .standard
  obtain ⟨front, cmd, rest, stop, c, hsplit, hcmd, herror⟩ := hviolation _ _ hcompile
  exact ⟨hsame, hlines, (htraces _ _ hsame).1, hnotified _ _ hcalls, hcompile, front, cmd, rest,
    hsplit, (hreported _ _ _ _ _ hcmd herror).2⟩

end Compilation

end MkCompiler
