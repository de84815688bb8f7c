import MkCompiler.Proofs.Compiled

/-!
# Blocks

A body falls into blocks: its first block, one at every label, and one behind every terminator that
no label follows. The reader of blocks does not know how bodies are made. In a body whose numbering
ends behind a terminator every block is closed by its only terminator.
-/

namespace MkCompiler

/-- A block. The first one of a body has no label, nor has one behind a terminator that no label
follows. -/
structure Block where
  label : Option Label
  code : List Instr
  deriving DecidableEq, Repr

namespace Block

def unlabelled : Block :=
  ⟨none, []⟩

def push (b : Block) (i : Instr) : Block :=
  { b with code := b.code ++ [i] }

def lines (b : Block) : List Line :=
  b.label.toList.map .label ++ b.code.map .instr

/-- A block is not empty, and its last instruction is its only terminator. -/
def IsClosed (b : Block) : Prop :=
  ∃ front last, b.code = front ++ [last] ∧ last.isTerminator = true ∧
    ∀ i ∈ front, i.isTerminator = false

end Block

/-- Reads blocks from lines. The block that is open, if any, is given with what has been read of
it; behind a terminator none is open. -/
def readBlocks : Option Block → List Line → List Block
  | b, [] => b.toList
  | b, .label l :: rest => b.toList ++ readBlocks (some ⟨some l, []⟩) rest
  | b, .instr i :: rest =>
    let b := (b.getD .unlabelled).push i
    if i.isTerminator then b :: readBlocks none rest else readBlocks (some b) rest
  | b, _ :: rest => readBlocks b rest

def blocks (body : List Line) : List Block :=
  readBlocks (some .unlabelled) body

theorem readBlocks_lines (b : Option Block) {lines : List Line}
    (h : ∀ line ∈ lines, line.isCode = true) :
    (readBlocks b lines).flatMap Block.lines = (b.toList.flatMap Block.lines) ++ lines := by
  induction lines generalizing b with
  | nil => simp [readBlocks]
  | cons line lines ih =>
    have hline := h line (by simp)
    have hrest : ∀ line ∈ lines, line.isCode = true := fun x hx => h x (by simp [hx])
    cases line with
    | label l => simp [readBlocks, ih _ hrest, Block.lines]
    | instr i =>
      unfold readBlocks
      dsimp only
      split <;> cases b <;>
        simp [ih _ hrest, Block.lines, Block.push, Block.unlabelled]
    | _ => cases hline

/-- Blocks are a partition of the body. -/
theorem blocks_lines {body : List Line} (h : ∀ line ∈ body, line.isCode = true) :
    (blocks body).flatMap Block.lines = body := by
  rw [blocks, readBlocks_lines _ h]
  simp [Block.unlabelled, Block.lines]

/-- What has been read of a block that is not closed yet. -/
def Block.IsOpen (b : Block) : Prop :=
  ∀ i ∈ b.code, i.isTerminator = false

theorem Block.IsOpen.push {b : Block} {i : Instr} (h : b.IsOpen) (hi : i.isTerminator = false) :
    (b.push i).IsOpen := by
  intro j hj
  rcases List.mem_append.mp hj with hj | hj
  · exact h j hj
  · rw [List.mem_singleton.mp hj]
    exact hi

theorem readBlocks_straight {b : Block} (h : b.IsOpen) {code : List Instr}
    (hcode : ∀ i ∈ code, i.isTerminator = false) (rest : List Line) :
    ∃ b' : Block, b'.IsOpen ∧
      readBlocks (some b) (code.map .instr ++ rest) = readBlocks (some b') rest := by
  induction code generalizing b with
  | nil => exact ⟨b, h, rfl⟩
  | cons i code ih =>
    have hi := hcode i (by simp)
    obtain ⟨b', hb', heq⟩ := ih (h.push hi) fun j hj => hcode j (by simp [hj])
    refine ⟨b', hb', ?_⟩
    rw [← heq, List.map_cons, List.cons_append, readBlocks]
    simp [hi]

/-- Lines that are numbered up to a terminator close every block they open. A block is open exactly
where the numbering is not detached. -/
theorem Counter.Reads.closes_blocks {k k' : Counter} {lines : List Line}
    (h : k.Reads lines k') (hend : k'.detached = true) (b : Option Block)
    (hopen : b.isSome = !k.detached) (hb : ∀ x ∈ b, x.IsOpen) :
    ∀ x ∈ readBlocks b lines, x.IsClosed := by
  induction h generalizing b with
  | nil =>
    rw [hend] at hopen
    obtain rfl : b = none := by simpa using hopen
    simp [readBlocks]
  | @cons k k₁ k₂ line rest hs _ ih =>
    have hcurrent : (b.getD .unlabelled).IsOpen := by
      cases b with
      | none => simp [Block.IsOpen, Block.unlabelled]
      | some b => exact hb b rfl
    cases hs with
    | @value i hd hi =>
      rw [readBlocks, if_neg (by simp [hi])]
      refine ih hend _ rfl ?_
      rintro x ⟨⟩
      exact hcurrent.push hi
    | @effect i hd hi =>
      rw [readBlocks, if_neg (by simp [hi])]
      refine ih hend _ (by simp) ?_
      rintro x ⟨⟩
      exact hcurrent.push hi
    | @terminator i hi =>
      rw [readBlocks, if_pos hi]
      intro x hx
      rcases List.mem_cons.mp hx with rfl | hx
      · exact ⟨_, i, rfl, hi, hcurrent⟩
      · exact ih hend none rfl (by simp) x hx
    | @label l hk =>
      rw [hk] at hopen
      obtain rfl : b = none := by simpa using hopen
      rw [readBlocks]
      refine ih hend _ rfl ?_
      rintro x ⟨⟩
      simp [Block.IsOpen]

theorem Draft.Closed.blocks {d : Draft} (h : d.Closed) : ∀ b ∈ blocks d.body, b.IsClosed := by
  obtain ⟨n, hreads⟩ := h.reads
  have hstart : Block.unlabelled.IsOpen := by simp [Block.IsOpen, Block.unlabelled]
  obtain ⟨b, hb, heq⟩ := readBlocks_straight hstart (fun i hi => (h.setup i hi).isTerminator) d.code
  rw [Draft.body, MkCompiler.blocks, heq]
  refine hreads.closes_blocks rfl _ rfl ?_
  rintro x ⟨⟩
  exact hb

end MkCompiler
