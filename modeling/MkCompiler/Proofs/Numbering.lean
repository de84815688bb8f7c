import MkCompiler.Proofs.Compiled

/-!
# Numbers of values

Unnamed values and unlabelled blocks of a definition share one sequence of numbers, which starts
behind the parameters and the first block. A reader follows the sequence and refuses a body that
departs from it. Every body of a compiled program is read to its end.
-/

namespace MkCompiler

def Instr.number? (i : Instr) : Option Int :=
  match i.dest? with
  | some (.number n) => some n
  | _ => none

theorem Instr.IsSetup.number? {i : Instr} (h : i.IsSetup) : i.number? = none := by
  rcases h with ⟨_, _, _, rfl⟩ | ⟨_, _, _, _, rfl⟩ <;> rfl

def Line.number? : Line → Option Int
  | .instr i => i.number?
  | _ => none

def numbers (body : List Line) : List Int :=
  body.filterMap Line.number?

namespace Counter

/-- Reads a line of a body. An instruction behind a terminator, with no label in between, opens a
block that takes a number. A numbered value has to carry the number that is next. -/
def read? (k : Counter) : Line → Option Counter
  | .label _ => some { k with detached := false }
  | .instr i =>
    match i.number? with
    | some n => if n = k.enter.next then some ⟨k.enter.next + 1, i.isTerminator⟩ else none
    | none => some ⟨k.enter.next, i.isTerminator⟩
  | _ => none

def readAll? (k : Counter) (lines : List Line) : Option Counter :=
  lines.foldlM read? k

@[simp] theorem readAll?_cons (k : Counter) (line : Line) (lines : List Line) :
    k.readAll? (line :: lines) = (k.read? line).bind fun k' => k'.readAll? lines := by
  unfold readAll?
  rw [List.foldlM_cons]
  rfl

theorem readAll?_append (k : Counter) (a b : List Line) :
    k.readAll? (a ++ b) = (k.readAll? a).bind fun k' => k'.readAll? b := by
  unfold readAll?
  rw [List.foldlM_append]
  rfl

theorem Step.read?_eq {k k' : Counter} {line : Line} (h : k.Step line k') :
    k.read? line = some k' := by
  cases h with
  | @value i hd hi =>
    have hn : i.number? = some k.enter.next := by rw [Instr.number?, hd]
    simp [read?, hn, hi]
  | @effect i hd hi =>
    have hn : i.number? = none := by rw [Instr.number?, hd]
    have hk : k.enter = ⟨k.enter.next, false⟩ := Counter.ext rfl (enter_detached k)
    rw [hk]
    simp [read?, hn, hi]
  | @terminator i hi =>
    have hn : i.number? = none := by
      cases i <;> first | rfl | cases hi
    simp [read?, hn, hi]
  | label hk => rfl

theorem Reads.readAll?_eq {k k' : Counter} {lines : List Line} (h : k.Reads lines k') :
    k.readAll? lines = some k' := by
  induction h with
  | nil => rfl
  | cons hs _ ih => simp [hs.read?_eq, ih]

theorem readAll?_setup {slots : List Instr} (h : ∀ i ∈ slots, i.IsSetup) (n : Int) :
    (⟨n, false⟩ : Counter).readAll? (slots.map .instr) = some ⟨n, false⟩ := by
  induction slots with
  | nil => rfl
  | cons i slots ih =>
    have hi := h i (by simp)
    have hread : (⟨n, false⟩ : Counter).read? (.instr i) = some ⟨n, false⟩ := by
      simp [read?, hi.number?, hi.isTerminator]
    rw [List.map_cons, readAll?_cons, hread]
    exact ih fun j hj => h j (by simp [hj])

theorem next_le_enter (k : Counter) : k.next ≤ k.enter.next := by
  unfold enter
  split
  · dsimp only
    omega
  · exact Int.le_refl _

theorem read?_number {k k' : Counter} {line : Line} (h : k.read? line = some k') :
    k.next ≤ k'.next ∧ ∀ n, line.number? = some n → k.next ≤ n ∧ n < k'.next := by
  have henter := k.next_le_enter
  cases line with
  | instr i =>
    unfold read? at h
    cases hi : i.number? with
    | some n =>
      simp only [hi, Option.ite_none_right_eq_some, Option.some.injEq] at h
      obtain ⟨rfl, rfl⟩ := h
      refine ⟨by dsimp only; omega, fun m hm => ?_⟩
      obtain rfl : _ = m := Option.some.inj (hi.symm.trans hm)
      dsimp only
      omega
    | none =>
      simp only [hi, Option.some.injEq] at h
      subst h
      refine ⟨henter, fun m hm => ?_⟩
      rw [Line.number?, hi] at hm
      cases hm
  | label l =>
    obtain rfl := Option.some.inj h
    exact ⟨Int.le_refl _, fun n hn => by cases hn⟩
  | _ => cases h

/-- A reader comes across growing numbers, none below the one it waits for. -/
theorem readAll?_increasing {lines : List Line} {k k' : Counter}
    (h : k.readAll? lines = some k') :
    (numbers lines).Pairwise (· < ·) ∧ ∀ n ∈ numbers lines, k.next ≤ n := by
  induction lines generalizing k with
  | nil => simp [numbers]
  | cons line lines ih =>
    rw [readAll?_cons] at h
    obtain ⟨k₁, hk₁, hrest⟩ := Option.bind_eq_some_iff.mp h
    obtain ⟨hle, hnumber⟩ := read?_number hk₁
    obtain ⟨hpairwise, hbound⟩ := ih hrest
    have hlater : ∀ n ∈ numbers lines, k.next ≤ n := by
      intro n hn
      have := hbound n hn
      omega
    cases hline : line.number? with
    | none =>
      have hnumbers : numbers (line :: lines) = numbers lines := by simp [numbers, hline]
      rw [hnumbers]
      exact ⟨hpairwise, hlater⟩
    | some n =>
      have hnumbers : numbers (line :: lines) = n :: numbers lines := by simp [numbers, hline]
      obtain ⟨hn, hlt⟩ := hnumber n hline
      rw [hnumbers]
      refine ⟨List.pairwise_cons.mpr ⟨fun m hm => ?_, hpairwise⟩, ?_⟩
      · have := hbound m hm
        omega
      · intro m hm
        rcases List.mem_cons.mp hm with rfl | hm
        · exact hn
        · exact hlater m hm

end Counter

theorem Draft.Closed.readAll? {d : Draft} (h : d.Closed) :
    ∃ k, (Counter.start d.opening.arity).readAll? d.body = some k := by
  obtain ⟨n, hreads⟩ := h.reads
  refine ⟨⟨n, true⟩, ?_⟩
  rw [Draft.body, Counter.readAll?_append, Counter.start, Counter.readAll?_setup h.setup]
  exact hreads.readAll?_eq

/-- Unnamed values are numbered in the order of their lines. The program is declarations and
definitions; in every definition a counter that starts behind the parameters and the first block
meets exactly the numbers it waits for, so that none is missing, repeated or out of order. -/
theorem compile_numbers_values {file : String} {commands : List Command}
    {symbols : RuntimeSymbols} {lines : List Line}
    (h : compile file commands symbols = .ok lines) :
    (∃ preamble, IsPreamble preamble ∧
      lines = preamble ++ (definitions lines).flatMap Definition.lines) ∧
    ∀ d ∈ definitions lines,
      (∃ k, (Counter.start d.opening.arity).readAll? d.body = some k) ∧
      (numbers d.body).Pairwise (· < ·) := by
  obtain ⟨c, hrun, hlines⟩ := compile_eq_ok.mp h
  obtain ⟨e, l, -, -, -, -, hfinished⟩ :=
    exists_layout (P := fun _ _ => True) trivial
      (fun _ _ _ hs hl _ => (hs.lays hl).imp fun _ h => ⟨h.1, trivial⟩) hrun hlines
  refine ⟨hfinished.preamble, fun d hd => ?_⟩
  rw [hfinished.definitions_eq] at hd
  obtain ⟨draft, hdraft, rfl⟩ := List.mem_map.mp hd
  obtain ⟨k, hk⟩ := (hfinished.closed draft hdraft).readAll?
  exact ⟨⟨k, hk⟩, (Counter.readAll?_increasing hk).1⟩

theorem compile_numbers_values_sample : ∃ lines,
    compile "sample.mk" sampleStream .standard = .ok lines ∧ (definitions lines).length = 3 ∧
    ∀ d ∈ definitions lines,
      (∃ k, (Counter.start d.opening.arity).readAll? d.body = some k) ∧
      (numbers d.body).Pairwise (· < ·) := by
  obtain ⟨lines, h, hlength⟩ := compile_sampleStream
  exact ⟨lines, h, hlength, (compile_numbers_values h).2⟩

end MkCompiler
