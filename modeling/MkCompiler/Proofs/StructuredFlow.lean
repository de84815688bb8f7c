import MkCompiler.Proofs.Labels

/-!
# Structured control flow

A body can be executed in two ways. Its structure says which statements follow each other, which
are repeated and which are left out; its lines are executed one after the other, following the
branches. Comparisons are decided by an oracle, one decision after the other. If the labels of a
body are distinct both executions perform the same instructions.
-/

namespace MkCompiler

/-- How a body is built, with the instructions of its statements and conditions. -/
inductive Flow where
  | stop
  | group (code : List Instr) (rest : Flow)
  | ret (code : List Instr) (rest : Flow)
  | control (kind : ControlKind) (condition : List Instr) (body rest : Flow)

/-- How an execution ends: behind the last statement, at a return, or at a comparison that the
oracle does not decide any more. -/
inductive Ending where
  | fell
  | halted
  | undecided
  deriving DecidableEq, Repr

/-- The instructions that a structure executes under the decisions of an oracle, and the decisions
that are left. The condition of a loop is executed again before every iteration. -/
inductive Flow.Runs : Flow → List Bool → List Instr → Ending → List Bool → Prop
  | stop {o} : Runs .stop o [] .fell o
  | group {code rest o t ending o'} : Runs rest o t ending o' →
      Runs (.group code rest) o (code ++ t) ending o'
  | ret {code rest o} : Runs (.ret code rest) o code .halted o
  | undecided {kind code body rest} : Runs (.control kind code body rest) [] code .undecided []
  | skip {kind code body rest o t ending o'} : Runs rest o t ending o' →
      Runs (.control kind code body rest) (false :: o) (code ++ t) ending o'
  | stay {kind code body rest o t ending o'} : Runs body o t ending o' → ending ≠ .fell →
      Runs (.control kind code body rest) (true :: o) (code ++ t) ending o'
  | conditional {code body rest o t o₁ t' ending o'} : Runs body o t .fell o₁ →
      Runs rest o₁ t' ending o' →
      Runs (.control .conditional code body rest) (true :: o) (code ++ (t ++ t')) ending o'
  | loop {code body rest o t o₁ t' ending o'} : Runs body o t .fell o₁ →
      Runs (.control .loop code body rest) o₁ t' ending o' →
      Runs (.control .loop code body rest) (true :: o) (code ++ (t ++ t')) ending o'

/-- An execution uses up decisions from the front, and there is one for every oracle. -/
theorem Flow.exists_runs (flow : Flow) (o : List Bool) :
    ∃ t ending o', flow.Runs o t ending o' ∧ o'.length ≤ o.length := by
  -- Every iteration of a loop takes a decision, so the oracle gets shorter.
  generalize hn : o.length = n
  induction n using Nat.strong_induction_on generalizing flow o with
  | _ n ih =>
    subst hn
    induction flow with
    | stop => exact ⟨_, _, _, .stop, Nat.le_refl _⟩
    | group code rest ihrest =>
      obtain ⟨t, ending, o', h, hle⟩ := ihrest
      exact ⟨_, _, _, .group h, hle⟩
    | ret code rest => exact ⟨_, _, _, .ret, Nat.le_refl _⟩
    | control kind code body rest _ _ =>
      cases o with
      | nil => exact ⟨_, _, _, .undecided, Nat.le_refl _⟩
      | cons b o =>
        have hlt : o.length < (b :: o).length := Nat.lt_succ_self _
        cases b with
        | false =>
          obtain ⟨t, ending, o', h, hle⟩ := ih _ hlt rest o rfl
          exact ⟨_, _, _, .skip h, hle.trans hlt.le⟩
        | true =>
          obtain ⟨t, ending, o₁, h, hle⟩ := ih _ hlt body o rfl
          by_cases hfell : ending = .fell
          · subst hfell
            have hlt₁ : o₁.length < (true :: o).length := hle.trans_lt hlt
            cases kind with
            | conditional =>
              obtain ⟨t', ending', o', h', hle'⟩ := ih _ hlt₁ rest o₁ rfl
              exact ⟨_, _, _, .conditional h h', hle'.trans hlt₁.le⟩
            | loop =>
              obtain ⟨t', ending', o', h', hle'⟩ :=
                ih _ hlt₁ (.control .loop code body rest) o₁ rfl
              exact ⟨_, _, _, .loop h h', hle'.trans hlt₁.le⟩
          · exact ⟨_, _, _, .stay h hfell, hle.trans hlt.le⟩

/-! ## Executing lines -/

/-- Whether an instruction ends the execution of its function. -/
def Instr.halts : Instr → Bool
  | .ret _ _ => true
  | .unreachable => true
  | _ => false

theorem Instr.isTerminator_of_halts {i : Instr} (h : i.halts = true) : i.isTerminator = true := by
  cases i <;> first | rfl | cases h

def behind? (l : Label) : List Line → Option (List Line)
  | [] => none
  | line :: rest => if line = .label l then some rest else behind? l rest

/-- The instructions that are executed from some lines of a body on, branches left out, and the
decisions that are left. A block can be entered at its label only by a branch. -/
inductive Follows (body : List Line) :
    List Line → List Bool → List Instr → Ending → List Bool → Prop
  | step {i rest o t ending o'} : i.isTerminator = false → Follows body rest o t ending o' →
      Follows body (.instr i :: rest) o (i :: t) ending o'
  | halt {i rest o} : i.halts = true → Follows body (.instr i :: rest) o [i] .halted o
  | jump {l rest next o t ending o'} : behind? l body = some next →
      Follows body next o t ending o' → Follows body (.instr (.jump l) :: rest) o t ending o'
  | branch {n yes no rest next b o t ending o'} :
      behind? (if b = true then yes else no) body = some next → Follows body next o t ending o' →
      Follows body (.instr (.branch n yes no) :: rest) (b :: o) t ending o'
  | undecided {n yes no rest} :
      Follows body (.instr (.branch n yes no) :: rest) [] [] .undecided []

namespace Follows

variable {body : List Line}

theorem unique {lines : List Line} {o o₁ o₂ : List Bool} {t₁ t₂ : List Instr} {e₁ e₂ : Ending}
    (h₁ : Follows body lines o t₁ e₁ o₁) (h₂ : Follows body lines o t₂ e₂ o₂) :
    t₁ = t₂ ∧ e₁ = e₂ ∧ o₁ = o₂ := by
  induction h₁ generalizing t₂ with
  | step hi _ ih =>
    cases h₂ with
    | step _ h =>
      obtain ⟨rfl, he, ho⟩ := ih h
      exact ⟨rfl, he, ho⟩
    | halt hh =>
      rw [Instr.isTerminator_of_halts hh] at hi
      cases hi
    | jump => cases hi
    | branch => cases hi
    | undecided => cases hi
  | halt hh =>
    cases h₂ with
    | step hi _ =>
      rw [Instr.isTerminator_of_halts hh] at hi
      cases hi
    | halt _ => exact ⟨rfl, rfl, rfl⟩
    | jump => cases hh
    | branch => cases hh
    | undecided => cases hh
  | jump hl _ ih =>
    cases h₂ with
    | step hi _ => cases hi
    | halt hh => cases hh
    | jump hl' h =>
      obtain rfl := Option.some.inj (hl.symm.trans hl')
      exact ih h
  | branch hl _ ih =>
    cases h₂ with
    | step hi _ => cases hi
    | halt hh => cases hh
    | branch hl' h =>
      obtain rfl := Option.some.inj (hl.symm.trans hl')
      exact ih h
  | undecided =>
    cases h₂ with
    | step hi _ => cases hi
    | halt hh => cases hh
    | undecided => exact ⟨rfl, rfl, rfl⟩

theorem steps {code : List Instr} (hcode : ∀ i ∈ code, i.isTerminator = false)
    {rest : List Line} {o o' : List Bool} {t : List Instr} {ending : Ending}
    (h : Follows body rest o t ending o') :
    Follows body (code.map .instr ++ rest) o (code ++ t) ending o' := by
  induction code with
  | nil => exact h
  | cons i code ih =>
    exact .step (hcode i (by simp)) (ih fun j hj => hcode j (by simp [hj]))

/-- Where execution goes on behind a jump does not depend on where the jump stands. -/
theorem of_jump {l : Label} {rest rest' : List Line} {o o' : List Bool} {t : List Instr}
    {ending : Ending} (h : Follows body (.instr (.jump l) :: rest) o t ending o') :
    Follows body (.instr (.jump l) :: rest') o t ending o' := by
  cases h with
  | step hi _ => cases hi
  | halt hh => cases hh
  | jump hl h => exact .jump hl h

end Follows

/-- A label that occurs once is found where it stands. -/
theorem behind?_append {l : Label} {front rest : List Line}
    (h : (labels (front ++ .label l :: rest)).Nodup) :
    behind? l (front ++ .label l :: rest) = some rest := by
  induction front with
  | nil => simp [behind?]
  | cons line front ih =>
    have hne : line ≠ .label l := by
      rintro rfl
      simp [labels, Line.label?] at h
    have hcons : labels (line :: (front ++ .label l :: rest)) =
        labels [line] ++ labels (front ++ .label l :: rest) := labels_append [line] _
    rw [List.cons_append, hcons] at h
    rw [List.cons_append, behind?, if_neg hne]
    exact ih (List.nodup_append.mp h).2.1

/-! ## Lines of a structure -/

open Emitter in
/-- The lines a structure is laid out as. Every control construct has a number of its own. -/
inductive Flow.Coded : Flow → List Line → Prop
  | stop : Coded .stop []
  | group {code rest lines} : (∀ i ∈ code, i.isTerminator = false) → Coded rest lines →
      Coded (.group code rest) (code.map .instr ++ lines)
  | ret {code i rest lines} : (∀ i ∈ code, i.isTerminator = false) → i.halts = true →
      Coded rest lines → Coded (.ret (code ++ [i]) rest) (code.map .instr ++ .instr i :: lines)
  | control {kind id n code body inner rest lines} : (∀ i ∈ code, i.isTerminator = false) →
      Coded body inner → Coded rest lines →
      Coded (.control kind code body rest) (conditionCode id ++ (code.map .instr ++
        (branchCode n id ++ (inner ++ (exitCode kind id ++ lines)))))

namespace Flow

open Emitter

/-- How the execution of a body goes on behind a part of it that ended in some way. -/
inductive Continues (body post : List Line) :
    Ending → List Bool → List Instr → Ending → List Bool → Prop
  | fell {o t ending o'} : Follows body post o t ending o' → Continues body post .fell o t ending o'
  | stay {ending o} : ending ≠ .fell → Continues body post ending o [] ending o

section Simulation

variable {body : List Line}

/-- The three labels of a construct are found where they stand. -/
theorem behind?_control (hnodup : (labels body).Nodup) {front code inner lines post : List Line}
    {kind : ControlKind} {id : Nat} {n : Int}
    (hbody : body = front ++ ((conditionCode id ++ (code ++ (branchCode n id ++
      (inner ++ (exitCode kind id ++ lines))))) ++ post)) :
    behind? ⟨.compare, id⟩ body =
        some (code ++ (branchCode n id ++ (inner ++ (exitCode kind id ++ (lines ++ post))))) ∧
      behind? ⟨.body, id⟩ body = some (inner ++ (exitCode kind id ++ (lines ++ post))) ∧
      behind? ⟨.exit, id⟩ body = some (lines ++ post) := by
  have hfind (l : Label) (before rest : List Line) (h : body = before ++ .label l :: rest) :
      behind? l body = some rest := by
    rw [h] at hnodup ⊢
    exact behind?_append hnodup
  refine ⟨hfind _ (front ++ [.instr (.jump ⟨.compare, id⟩)]) _ ?_,
    hfind _ (front ++ (conditionCode id ++ (code ++
      [.instr (.branch n ⟨.body, id⟩ ⟨.exit, id⟩)]))) _ ?_,
    hfind _ (front ++ (conditionCode id ++ (code ++ (branchCode n id ++ (inner ++
      [.instr (.jump ⟨exitRole kind, id⟩)]))))) _ ?_⟩
  all_goals
    rw [hbody]
    simp [conditionCode, branchCode, exitCode]

/-- A condition is executed, and its decision says where execution goes on. -/
theorem follows_decided {id : Nat} {n : Int} {code : List Instr} {tail rest next : List Line}
    {b : Bool} {o o' : List Bool} {t : List Instr} {ending : Ending}
    (hcode : ∀ i ∈ code, i.isTerminator = false)
    (hcompare : behind? ⟨.compare, id⟩ body = some (code.map .instr ++ (branchCode n id ++ tail)))
    (hnext : behind? (if b = true then ⟨.body, id⟩ else ⟨.exit, id⟩) body = some next)
    (h : Follows body next o t ending o') :
    Follows body (conditionCode id ++ rest) (b :: o) (code ++ t) ending o' :=
  .jump hcompare (.steps hcode (.branch hnext h))

/-- The lines of a structure execute what the structure executes. -/
theorem Runs.follows (hnodup : (labels body).Nodup) {flow : Flow} {o o₁ o' : List Bool}
    {t t' : List Instr} {ending ending' : Ending} (h : flow.Runs o t ending o₁)
    {lines : List Line} (front : List Line) {post : List Line} (hcoded : flow.Coded lines)
    (hbody : body = front ++ (lines ++ post))
    (hpost : Continues body post ending o₁ t' ending' o') :
    Follows body (lines ++ post) o (t ++ t') ending' o' := by
  -- By induction on the execution of the structure: it goes through every iteration of a loop.
  induction h generalizing lines front post t' ending' o' with
  | stop =>
    cases hcoded
    cases hpost with
    | fell h => exact h
    | stay hne => exact absurd rfl hne
  | @group code rest o t ending o₁ _ ih =>
    cases hcoded with
    | group hcode hrest =>
      rw [List.append_assoc, List.append_assoc]
      refine .steps hcode (ih (front ++ code.map .instr) hrest ?_ hpost)
      rw [hbody]
      simp
  | ret =>
    cases hcoded with
    | ret hcode hi hrest =>
      cases hpost with
      | stay =>
        rw [List.append_nil, List.append_assoc]
        exact .steps hcode (.halt hi)
  | undecided =>
    cases hcoded with
    | control hcode hinner hrest =>
      obtain ⟨hcompare, -, -⟩ := behind?_control hnodup hbody
      cases hpost with
      | stay => exact .jump hcompare (.steps hcode .undecided)
  | @skip kind code inside rest o t ending o₁ _ ih =>
    cases hcoded with
    | @control _ id n _ _ inner _ lines hcode hinner hrest =>
      obtain ⟨hcompare, -, hexit⟩ := behind?_control hnodup hbody
      rw [List.append_assoc (conditionCode id), List.append_assoc code]
      refine follows_decided hcode hcompare hexit (ih (front ++ (conditionCode id ++
        (code.map .instr ++ (branchCode n id ++ (inner ++ exitCode kind id))))) hrest ?_ hpost)
      rw [hbody]
      simp
  | @stay kind code inside rest o t ending o₁ _ hne ih =>
    cases hcoded with
    | @control _ id n _ _ inner _ lines hcode hinner hrest =>
      obtain ⟨hcompare, hinside, -⟩ := behind?_control hnodup hbody
      rw [List.append_assoc (conditionCode id), List.append_assoc code]
      refine follows_decided hcode hcompare hinside (ih (front ++ (conditionCode id ++
        (code.map .instr ++ branchCode n id))) hinner ?_ ?_)
      · rw [hbody]
        simp
      · cases hpost with
        | fell => exact absurd rfl hne
        | stay => exact .stay hne
  | @conditional code inside rest o t o₁ t₁ ending o₂ _ _ ih ih' =>
    cases hcoded with
    | @control _ id n _ _ inner _ lines hcode hinner hrest =>
      obtain ⟨hcompare, hinside, hexit⟩ := behind?_control hnodup hbody
      have hafter := ih' (front ++ (conditionCode id ++ (code.map .instr ++ (branchCode n id ++
        (inner ++ exitCode .conditional id))))) hrest (by rw [hbody]; simp) hpost
      rw [List.append_assoc (conditionCode id), List.append_assoc code, List.append_assoc t]
      refine follows_decided hcode hcompare hinside (ih (front ++ (conditionCode id ++
        (code.map .instr ++ branchCode n id))) hinner ?_ (.fell (.jump hexit hafter)))
      rw [hbody]
      simp
  | @loop code inside rest o t o₁ t₁ ending o₂ _ _ ih ih' =>
    have hagain := ih' front hcoded hbody hpost
    cases hcoded with
    | @control _ id n _ _ inner _ lines hcode hinner hrest =>
      obtain ⟨hcompare, hinside, -⟩ := behind?_control hnodup hbody
      rw [List.append_assoc (conditionCode id), List.append_assoc code, List.append_assoc t]
      -- The jump at the end of the body goes where the jump in front of the condition goes.
      refine follows_decided hcode hcompare hinside (ih (front ++ (conditionCode id ++
        (code.map .instr ++ branchCode n id))) hinner ?_ (.fell (Follows.of_jump hagain)))
      rw [hbody]
      simp

end Simulation

/-! ## Whole bodies -/

/-- The last label of a construct stands behind all of it, so that what follows is attached. -/
theorem exists_attached {k k' : Counter} {kind : ControlKind} {id : Nat} {n : Int}
    {code inner lines : List Line} (h : k.Reads (conditionCode id ++ (code ++
      (branchCode n id ++ (inner ++ (exitCode kind id ++ lines))))) k') :
    ∃ k₁ : Counter, k₁.detached = false ∧ k₁.Reads lines k' := by
  have hsplit : conditionCode id ++ (code ++ (branchCode n id ++ (inner ++
      (exitCode kind id ++ lines)))) = (conditionCode id ++ (code ++ (branchCode n id ++
      (inner ++ [.instr (.jump ⟨exitRole kind, id⟩)])))) ++ .label ⟨.exit, id⟩ :: lines := by
    simp [exitCode]
  rw [hsplit] at h
  obtain ⟨k₀, -, h⟩ := h.exists_of_append
  cases h with
  | cons hs hrest =>
    cases hs with
    | label => exact ⟨_, rfl, hrest⟩

theorem attached_straight {code : List Instr} (hcode : ∀ i ∈ code, i.isTerminator = false)
    {k k' : Counter} (h : k.Reads (code.map .instr) k') (hk : k.detached = false) :
    k'.detached = false := by
  induction code generalizing k with
  | nil =>
    cases h
    exact hk
  | cons i code ih =>
    have hi : i.isTerminator = false := hcode i (by simp)
    cases h with
    | cons hs hrest =>
      refine ih (fun j hj => hcode j (by simp [hj])) hrest ?_
      cases hs with
      | value => rfl
      | effect => simp
      | terminator ht =>
        rw [ht] at hi
        cases hi

/-- If execution can fall out of a structure, its lines do not end behind a terminator. -/
theorem Runs.attached {flow : Flow} {o o' : List Bool} {t : List Instr} {ending : Ending}
    (h : flow.Runs o t ending o') (hfell : ending = .fell) {lines : List Line}
    (hcoded : flow.Coded lines) {k k' : Counter} (hreads : k.Reads lines k')
    (hk : k.detached = false) : k'.detached = false := by
  induction h generalizing lines k with
  | stop =>
    cases hcoded
    cases hreads
    exact hk
  | group _ ih =>
    cases hcoded with
    | group hcode hcoded =>
      obtain ⟨k₁, h₁, h₂⟩ := hreads.exists_of_append
      exact ih hfell hcoded h₂ (attached_straight hcode h₁ hk)
  | ret => cases hfell
  | undecided => cases hfell
  | skip _ ih =>
    cases hcoded with
    | control _ _ hcoded =>
      obtain ⟨k₁, hk₁, h₁⟩ := exists_attached hreads
      exact ih hfell hcoded h₁ hk₁
  | stay _ hne _ => exact absurd hfell hne
  | conditional _ _ _ ih =>
    cases hcoded with
    | control _ _ hcoded =>
      obtain ⟨k₁, hk₁, h₁⟩ := exists_attached hreads
      exact ih hfell hcoded h₁ hk₁
  | loop _ _ _ ih => exact ih hfell hcoded hreads hk

/-- The execution of a whole body: the structure, and the last instruction of the body if execution
falls out of the structure. -/
inductive Completes (flow : Flow) (last : Instr) (o : List Bool) :
    List Instr → Ending → List Bool → Prop
  | fell {t o'} : flow.Runs o t .fell o' → Completes flow last o (t ++ [last]) .halted o'
  | stay {t ending o'} : flow.Runs o t ending o' → ending ≠ .fell →
      Completes flow last o t ending o'

theorem exists_completes (flow : Flow) (last : Instr) (o : List Bool) :
    ∃ t ending o', flow.Completes last o t ending o' := by
  obtain ⟨t, ending, o', h, -⟩ := flow.exists_runs o
  by_cases hfell : ending = .fell
  · subst hfell
    exact ⟨_, _, _, .fell h⟩
  · exact ⟨_, _, _, .stay h hfell⟩

section Lines

variable {flow : Flow} {last : Instr} {slots : List Instr} {lines post : List Line}
  {o o' : List Bool} {t trace : List Instr} {ending : Ending}
  (hnodup : (labels (slots.map .instr ++ (lines ++ post))).Nodup)
  (hslots : ∀ i ∈ slots, i.isTerminator = false) (hcoded : flow.Coded lines)
  (hlast : last.halts = true) (hpost : post = [.instr last] ∨ ∀ o t o', ¬flow.Runs o t .fell o')
include hnodup hslots hcoded hlast hpost

/-- The lines of a body execute its slots and then its structure. -/
theorem Completes.follows (h : flow.Completes last o t ending o') :
    Follows (slots.map .instr ++ (lines ++ post)) (slots.map .instr ++ (lines ++ post)) o
      (slots ++ t) ending o' := by
  refine .steps hslots ?_
  cases h with
  | fell hruns =>
    rcases hpost with rfl | hnever
    · exact hruns.follows hnodup _ hcoded rfl (.fell (.halt hlast))
    · exact absurd hruns (hnever _ _ _)
  | stay hruns hne =>
    rw [← List.append_nil t]
    exact hruns.follows hnodup _ hcoded rfl (.stay hne)

/-- Executing the lines of a body and executing its structure is the same. -/
theorem follows_iff_completes :
    Follows (slots.map .instr ++ (lines ++ post)) (slots.map .instr ++ (lines ++ post)) o
        trace ending o' ↔
      ∃ t, trace = slots ++ t ∧ flow.Completes last o t ending o' := by
  constructor
  · intro h
    -- The structure has an execution, and the lines have only one.
    obtain ⟨t, ending₁, o₁, hcompletes⟩ := flow.exists_completes last o
    obtain ⟨rfl, rfl, rfl⟩ := h.unique
      (Completes.follows hnodup hslots hcoded hlast hpost hcompletes)
    exact ⟨t, rfl, hcompletes⟩
  · rintro ⟨t, rfl, h⟩
    exact Completes.follows hnodup hslots hcoded hlast hpost h

end Lines

end Flow

end MkCompiler
