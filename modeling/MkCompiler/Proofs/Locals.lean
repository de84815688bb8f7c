import MkCompiler.Proofs.Numbering
import MkCompiler.Proofs.Symbols

/-!
# Local names of a compiled program

In every definition of a compiled program each local name is defined once: the arguments are the
numbers below the first block, slots are named, and all other values take the numbers behind the
first block. Code uses a name behind its definition, as what it has been defined as, provided that no
operand is left on the stack where a body opens or closes.
-/

namespace MkCompiler

namespace Definition

def locals (d : Definition) : List (LocalName × LocalType) :=
  d.opening.arguments ++ d.body.flatMap Line.defines

end Definition

theorem Line.map_fst_arguments (line : Line) :
    line.arguments.map Prod.fst = (List.range line.arity).map fun n : Nat => LocalName.number n := by
  cases line with
  | define result name params =>
    apply List.ext_getElem
    · simp [arguments, arity]
    · intro n hn hn'
      simp [arguments]
  | _ => rfl

/-- Code that is numbered by a counter defines its numbers and no other names. -/
theorem Counter.Reads.map_fst_defines {k k' : Counter} {code : List Line} (h : k.Reads code k') :
    (code.flatMap Line.defines).map Prod.fst = (numbers code).map LocalName.number := by
  induction h with
  | nil => rfl
  | @cons k k' k'' line rest hstep _ ih =>
    have hline : line.defines.map Prod.fst = line.number?.toList.map LocalName.number := by
      cases hstep with
      | value hdest _ =>
        simp [Line.defines, Instr.map_fst_defines, Line.number?, Instr.number?, hdest]
      | effect hdest _ =>
        simp [Line.defines, Instr.map_fst_defines, Line.number?, Instr.number?, hdest]
      | @terminator i hi => cases i <;> first | rfl | cases hi
      | label _ => rfl
    rw [List.flatMap_cons, List.map_append, hline, ih, numbers, numbers, List.filterMap_cons]
    cases line.number? <;> rfl

namespace Draft

variable {d : Draft}

theorem Closed.isSlot (h : d.Closed) {u : LocalName × LocalType}
    (hu : u ∈ d.slots.flatMap Instr.defines) : ∃ name version, u.1 = .slot name version := by
  obtain ⟨i, hi, hu⟩ := List.mem_flatMap.mp hu
  rcases h.setup i hi with ⟨name, version, type, rfl⟩ | ⟨_, _, _, _, rfl⟩
  · rw [List.mem_singleton.mp hu]
    exact ⟨name, version, rfl⟩
  · cases hu

/-- The names of a closed body are its arguments, its slots and its numbers. -/
theorem Closed.map_fst_locals (h : d.Closed) :
    d.toDefinition.locals.map Prod.fst =
      ((List.range d.opening.arity).map fun n : Nat => LocalName.number n) ++
        ((d.slots.flatMap Instr.defines).map Prod.fst ++
          (numbers d.code).map LocalName.number) := by
  obtain ⟨n, hreads⟩ := h.reads
  rw [Definition.locals, toDefinition, List.map_append, Line.map_fst_arguments, body,
    List.flatMap_append, List.map_append, hreads.map_fst_defines, List.flatMap_map]
  rfl

theorem Closed.numbers_code (h : d.Closed) :
    (numbers d.code).Pairwise (· < ·) ∧ ∀ n ∈ numbers d.code, d.opening.arity + 1 ≤ n := by
  obtain ⟨n, hreads⟩ := h.reads
  exact Counter.readAll?_increasing hreads.readAll?_eq

theorem Slotted.nodup_locals (hslots : d.Slotted) (h : d.Closed) :
    (d.toDefinition.locals.map Prod.fst).Nodup := by
  obtain ⟨hincreasing, hbound⟩ := h.numbers_code
  have harguments : ((List.range d.opening.arity).map fun n : Nat => LocalName.number n).Nodup := by
    apply List.nodup_range.map
    intro a b hab
    exact Int.ofNat.inj (LocalName.number.inj hab)
  have hnumbers : ((numbers d.code).map LocalName.number).Nodup := by
    apply hincreasing.nodup.map
    intro a b hab
    exact LocalName.number.inj hab
  have hslot (name : LocalName) (hname : name ∈ (d.slots.flatMap Instr.defines).map Prod.fst)
      (n : Int) : name ≠ .number n := by
    obtain ⟨u, hu, rfl⟩ := List.mem_map.mp hname
    obtain ⟨name, version, heq⟩ := h.isSlot hu
    rw [heq]
    simp
  rw [h.map_fst_locals, List.nodup_append, List.nodup_append]
  refine ⟨harguments, ⟨hslots.nodup, hnumbers, ?_⟩, ?_⟩
  · intro a ha b hb hab
    obtain ⟨n, -, rfl⟩ := List.mem_map.mp hb
    exact hslot a ha n hab
  · intro a ha b hb hab
    obtain ⟨n, hn, rfl⟩ := List.mem_map.mp ha
    rcases List.mem_append.mp hb with hb | hb
    · exact hslot b hb n hab.symm
    · -- The first block stands between the arguments and the other numbers.
      obtain ⟨m, hm, rfl⟩ := List.mem_map.mp hb
      have hlt := List.mem_range.mp hn
      have hle := hbound m hm
      have heq : (n : Int) = m := LocalName.number.inj hab
      omega

theorem Slotted.regular (hslots : d.Slotted) (h : d.Closed) {name : LocalName}
    (hname : name ∈ d.toDefinition.locals.map Prod.fst) : name.Regular d.body.length := by
  have hlength : d.slots.length ≤ d.body.length := by
    simp [body]
  rw [h.map_fst_locals, List.mem_append, List.mem_append] at hname
  rcases hname with hname | hname | hname
  · obtain ⟨n, -, rfl⟩ := List.mem_map.mp hname
    trivial
  · obtain ⟨u, hu, rfl⟩ := List.mem_map.mp hname
    exact (hslots.versions u hu).mono hlength
  · obtain ⟨n, -, rfl⟩ := List.mem_map.mp hname
    trivial

/-- Names that differ are spelled differently, as long as the versions of all variables fit in a
word. -/
theorem Slotted.nodup_spelling (hslots : d.Slotted) (h : d.Closed)
    (hlength : d.body.length ≤ 2 ^ 64) :
    (d.toDefinition.locals.map fun u => u.1.spelling).Nodup := by
  have hregular (name : LocalName) (hname : name ∈ d.toDefinition.locals.map Prod.fst) :
      name.Regular (2 ^ 64) :=
    (hslots.regular h hname).mono hlength
  have hmap := (hslots.nodup_locals h).map_on fun a ha b hb hab =>
    LocalName.spelling_inj (hregular a ha) (hregular b hb) hab
  rwa [List.map_map] at hmap

end Draft

namespace Compilation

variable {c : Compilation} {l : Layout} {lines : List Line}

theorem Completes.slotted {p : Prop} (h : Completes p c l lines) {d : Draft}
    (hd : d ∈ l.finished) : d.Slotted := by
  rcases List.mem_cons.mp hd with rfl | hd
  · simpa [Layout.grow] using h.linked.frames.slotted _ _
  · exact h.linked.closed d hd

/-- Every name is used behind its definition, as what it has been defined as. -/
theorem Completes.localUses_defined (h : Completes True c l lines) {d : Draft}
    (hd : d ∈ l.finished) {front rest : List Line} {line : Line}
    (hbody : d.body = front ++ line :: rest) {u : LocalName × LocalType}
    (hu : u ∈ line.localUses) : u ∈ d.opening.arguments ++ front.flatMap Line.defines := by
  have htyped := (h.typed hd).types
  rw [hbody] at htyped
  have hallows := (Env.types_append.mp htyped).2.1
  rcases hallows.locals u hu with hargument | hdefined
  · exact List.mem_append_left _ (hargument trivial)
  · exact List.mem_append_right _ hdefined

/-! ## Checking the stack -/

/-- Whether the stack is empty where the next notification opens or closes a body. -/
def clearBefore (cmd : Command) (c : Compilation) : Bool :=
  c.recording.isSome || !(cmd.kind == .declareFunction || cmd.kind == .endFunction) ||
    c.stack.isEmpty

/-- Goes through a compilation, the bodies of classes that are run for instances included, and checks
the stack at every point. -/
def clears : Nat → List Command → Compilation → Bool
  | _, [], _ => true
  | 0, _ :: _, _ => false
  | fuel + 1, cmd :: rest, c =>
    clearBefore cmd c &&
    (if cmd.kind = .declareInstance ∧ c.recording = none then
      match openInstance cmd.name cmd.target c with
      | .ok body c' => clears fuel body c'
      | .error _ _ => true
    else true) &&
    match handle cmd c with
    | .ok _ c' => clears fuel rest c'
    | .error _ _ => true

theorem exists_clears_of_reaches {file : String} {symbols : RuntimeSymbols}
    {stream coming : List Command} {n : Nat} (h : clears n stream (start file symbols) = true)
    (hreaches : Reaches file symbols stream c coming) : ∃ n, clears n coming c = true := by
  induction hreaches with
  | start => exact ⟨n, h⟩
  | next _ hcmd ih =>
    obtain ⟨n, hn⟩ := ih
    cases n with
    | zero => cases hn
    | succ n =>
      rw [clears, hcmd, Bool.and_eq_true] at hn
      exact ⟨n, hn.2⟩
  | replay _ hkind hrecording hopen ih =>
    obtain ⟨n, hn⟩ := ih
    cases n with
    | zero => cases hn
    | succ n =>
      rw [clears, if_pos ⟨hkind, hrecording⟩, hopen, Bool.and_eq_true, Bool.and_eq_true] at hn
      exact ⟨n, hn.1.2⟩

theorem stackClearAtBodies_of_clears {file : String} {symbols : RuntimeSymbols}
    {stream : List Command} {n : Nat} (h : clears n stream (start file symbols) = true) :
    StackClearAtBodies file symbols stream := by
  intro c cmd rest hreaches hrecording hkind
  obtain ⟨n, hn⟩ := exists_clears_of_reaches h hreaches
  cases n with
  | zero => cases hn
  | succ n =>
    rw [clears, Bool.and_eq_true, Bool.and_eq_true] at hn
    have hclear := hn.1.1
    unfold clearBefore at hclear
    rw [hrecording] at hclear
    rcases hkind with hkind | hkind
    · simpa [hkind] using hclear
    · simpa [hkind] using hclear

end Compilation

open Compilation in
/-- Local names are defined once, in front of their uses and as what they are used as. In every
definition of the program the arguments and the names that the body defines are different from one
another. A line of the body refers only to arguments and to names that the lines in front of it
define: to values with the type of their definition, and to slots with the type of what they hold.
In a body of up to `2 ^ 64` lines no two of these names are spelled alike either. -/
theorem compile_defines_locals {file : String} {commands : List Command}
    {symbols : RuntimeSymbols} {lines : List Line}
    (h : compile file commands symbols = .ok lines) (hnamed : ∀ cmd ∈ commands, cmd.Named)
    (hclear : StackClearAtBodies file symbols commands) :
    ∀ d ∈ definitions lines,
      (d.locals.map Prod.fst).Nodup ∧
      (∀ front line rest, d.body = front ++ line :: rest → ∀ u ∈ line.localUses,
        u ∈ d.opening.arguments ++ front.flatMap Line.defines) ∧
      (d.body.length ≤ 2 ^ 64 → (d.locals.map fun u => u.1.spelling).Nodup) := by
  obtain ⟨c, l, hc, rfl⟩ := exists_completes (fun _ => hclear) hnamed h
  intro d hd
  rw [hc.finished.definitions_eq] at hd
  obtain ⟨draft, hdraft, rfl⟩ := List.mem_map.mp hd
  have hclosed := hc.finished.closed draft hdraft
  have hslotted := hc.slotted hdraft
  exact ⟨hslotted.nodup_locals hclosed,
    fun _ _ _ hbody _ hu => hc.localUses_defined hdraft hbody hu,
    hslotted.nodup_spelling hclosed⟩

theorem compile_defines_locals_sample : ∃ lines,
    compile "sample.mk" sampleStream .standard = .ok lines ∧ (definitions lines).length = 3 ∧
    ∀ d ∈ definitions lines,
      (d.locals.map Prod.fst).Nodup ∧
      ∀ front line rest, d.body = front ++ line :: rest → ∀ u ∈ line.localUses,
        u ∈ d.opening.arguments ++ front.flatMap Line.defines := by
  obtain ⟨lines, h, hlength⟩ := compile_sampleStream
  have hclear : Compilation.clears 50 sampleStream (Compilation.start "sample.mk" .standard) = true := by
    decide +kernel
  have hlocals := compile_defines_locals h (by decide +kernel)
    (Compilation.stackClearAtBodies_of_clears hclear)
  exact ⟨lines, h, hlength, fun d hd => ⟨(hlocals d hd).1, (hlocals d hd).2.1⟩⟩

end MkCompiler
