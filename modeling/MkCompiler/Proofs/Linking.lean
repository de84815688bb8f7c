import MkCompiler.Proofs.Linkage
import MkCompiler.Proofs.Persistence

/-!
# Linking

Along a compilation every definition stays typed: what its code uses is declared in the program or
promised by the symbol table, and defined in front of its use, at the same type. The operands on the
stack can be used where the next code goes. Constructs keep this up, the opening and closing of
functions and instances included.
-/

namespace MkCompiler

open MkCompiler.Action

theorem Env.types_allocas (Γ : Env) (s : Storage) : Γ.Types (s.allocas.map .instr) := by
  unfold Storage.allocas
  induction s.slots generalizing Γ with
  | nil => trivial
  | cons slot rest ih =>
    refine ⟨⟨?_, ?_⟩, ih _⟩
    · simp [Line.symbolUses, Instr.symbolUses]
    · simp [Line.localUses, Instr.localUses]

/-! ## Environments of bodies -/

/-- The environment a body starts with: symbols of the program, and its arguments. Where locals do
not matter, `p` is false. -/
def Draft.env (d : Draft) (p : Prop) (globals : GlobalName → SymbolType → Prop) : Env where
  globals
  locals name type := p → (name, type) ∈ d.opening.arguments

/-- The body is typed, and its code addresses arrays within their bounds. -/
structure Draft.Accepted (d : Draft) (p : Prop) (globals : GlobalName → SymbolType → Prop) :
    Prop where
  types : (d.env p globals).Types d.body
  addressed : Addressed d.code

namespace Layout

/-- The symbols that code may refer to: those that are declared, and the functions and methods of
the symbol table. -/
def globals (l : Layout) (symbols : RuntimeSymbols) (t : SymbolTable) (name : GlobalName)
    (type : SymbolType) : Prop :=
  (name, type) ∈ (symbols.prologue ++ l.header).flatMap Line.declares ∨ t.Promises name type

def env (l : Layout) (p : Prop) (symbols : RuntimeSymbols) (t : SymbolTable) : Env :=
  (l.active.env p (l.globals symbols t)).after l.active.body

def functions (l : Layout) : List Draft :=
  match l.suspended with
  | none => l.closed
  | some _ => l.closed ++ [l.active]

theorem functions_grow (l : Layout) (header : List Line) (slots : List Instr) (code : List Line) :
    (l.grow header slots code).functions.map Draft.opening = l.functions.map Draft.opening := by
  unfold functions
  rw [suspended_grow]
  cases l.suspended <;> simp [grow]

theorem functions_enter {l : Layout} (h : l.suspended = none) (opening : Line)
    (slots : List Instr) :
    (l.enter opening slots).functions.map Draft.opening =
      l.functions.map Draft.opening ++ [opening] := by
  simp [functions, enter, h]

theorem functions_leave {l : Layout} {d : Draft} (h : l.suspended = some d) (code : List Line) :
    ((l.grow [] [] code).leave d).functions.map Draft.opening = l.functions.map Draft.opening := by
  simp [functions, leave, grow, h]

end Layout

section Growth

variable {p : Prop} {globals globals' : GlobalName → SymbolType → Prop} {d : Draft} {s : Storage}
  {code : List Line}

theorem Draft.Accepted.mono (h : d.Accepted p globals)
    (hle : ∀ name type, globals name type → globals' name type) : d.Accepted p globals' :=
  ⟨h.types.mono ⟨hle, fun _ _ hu => hu⟩, h.addressed⟩

/-- A body stays typed when slots and code are added to it. -/
theorem Draft.Accepted.grow (h : d.Accepted p globals)
    (hcode : (((d.env p globals).after d.body).add s).Accepts code)
    (hle : ∀ name type, globals name type → globals' name type)
    (hheader : ∀ u ∈ s.header.flatMap Line.declares, globals' u.1 u.2) :
    Draft.Accepted ⟨d.opening, d.slots ++ s.allocas, d.code ++ code⟩ p globals' := by
  obtain ⟨hslots, hold⟩ := Env.types_append.mp (h.mono hle).types
  refine ⟨?_, h.addressed.append hcode.addressed⟩
  rw [Draft.body, List.map_append, List.append_assoc]
  apply hslots.append
  apply (Env.types_allocas _ s).append
  apply (hold.mono (Env.le_after _ _)).append
  apply hcode.types.mono
  constructor
  · intro name type hu
    rcases hu with hu | hu
    · exact hle name type hu
    · exact hheader _ hu
  · intro name type hu
    simp only [Env.add, Env.after, Draft.body, List.flatMap_append, List.mem_append,
      List.flatMap_map, Line.defines] at hu ⊢
    tauto

variable {l : Layout} {symbols : RuntimeSymbols} {t t' : SymbolTable}

theorem Layout.globals_grow (haligned : t.Aligned t') (name : GlobalName) (type : SymbolType) :
    (l.grow s.header s.allocas code).globals symbols t' name type ↔
      l.globals symbols t name type ∨ (name, type) ∈ s.header.flatMap Line.declares := by
  simp only [globals, SymbolTable.Promises.aligned haligned, grow, List.flatMap_append,
    List.mem_append]
  tauto

theorem Layout.env_grow (haligned : t.Aligned t') :
    (l.grow s.header s.allocas code).env p symbols t' =
      ((l.env p symbols t).add s).after code := by
  ext name type
  · exact globals_grow haligned name type
  · simp only [env, Draft.env, Env.add, Env.after, grow, Draft.body, List.flatMap_append,
      List.mem_append, List.flatMap_map, Line.defines, List.map_append]
    tauto

end Growth

/-! ## The invariant -/

/-- The slots of a closed body, each defined once, with versions below their number. -/
structure Draft.Slotted (d : Draft) : Prop where
  nodup : ((d.slots.flatMap Instr.defines).map Prod.fst).Nodup
  versions : ∀ u ∈ d.slots.flatMap Instr.defines, u.1.Regular d.slots.length

namespace Compilation

variable {p : Prop} {owed : List String} {c c' : Compilation} {l : Layout}

abbrev env (p : Prop) (c : Compilation) (l : Layout) : Env :=
  l.env p c.emitter.symbols c.table

/-- The program that a compilation has written so far is linked. `owed` are the methods of the
current instance that are still to come. -/
structure Linked (p : Prop) (owed : List String) (c : Compilation) (l : Layout) : Prop where
  lays : c.emitter.Lays l
  lexicon : c.table.Lexicon
  stores : c.table.Stores l.header
  defines : c.table.Defines owed (l.functions.map Draft.opening)
  frames : c.table.Frames c.table.local? l.active.slots c.emitter.active.results
  entry : ∀ d, l.suspended = some d →
    c.table.Frames (fun _ => none) d.slots c.emitter.entry.results
  closed : ∀ d ∈ l.closed, d.Slotted
  typed : ∀ d ∈ l.drafts, d.Accepted p (l.globals c.emitter.symbols c.table)
  stack : ∀ op ∈ c.stack, op.In (c.env p l)
  returns : ∀ f, c.emitter.function = some f → f.signature.result.isLowered = true

/-- The program grows: storage and code are added, and the table and the stack change along. -/
theorem Linked.grow {e : Emitter} {s : Storage} {code : List Line} {t : SymbolTable}
    {stack : List Operand} (h : c.Linked p owed l) (hadds : Emitter.Adds c.emitter e s code)
    (htypes : ((c.env p l).add s).Accepts code) (haligned : c.table.Aligned t)
    (hlexicon : t.Lexicon) (hstores : t.Stores (l.header ++ s.header))
    (hframes : t.Frames t.local? (l.active.slots ++ s.allocas)
      (c.emitter.active.results ++ s.results))
    (hstack : ∀ op ∈ stack, op.In (((c.env p l).add s).after code)) :
    ({ c with emitter := e, table := t, stack } : Compilation).Linked p owed
      (l.grow s.header s.allocas code) := by
  have hsymbols : e.symbols = c.emitter.symbols := hadds.symbols_eq
  have hglobals (name : GlobalName) (type : SymbolType)
      (hu : l.globals c.emitter.symbols c.table name type) :
      (l.grow s.header s.allocas code).globals e.symbols t name type := by
    rw [hsymbols, Layout.globals_grow haligned]
    exact .inl hu
  refine ⟨hadds.layout l h.lays, hlexicon, hstores, ?_, ?_, ?_, h.closed, ?_, ?_, ?_⟩
  · rw [Layout.functions_grow]
    exact h.defines.congr haligned.current fun _ _ => SymbolTable.Promises.aligned haligned
  · rw [hadds.results_eq]
    exact hframes
  · intro d hd
    have hsome : c.emitter.function.isSome = true := by
      have hentry := h.lays.entry
      unfold Emitter.EntryLays at hentry
      rw [Layout.suspended_grow] at hd
      rw [hd] at hentry
      exact hentry.1
    rw [hadds.entry_eq hsome]
    refine (h.entry d hd).mono ?_
    rw [haligned.method?]
    exact fun _ _ _ hsig => hsig
  · intro d hd
    rcases List.mem_cons.mp hd with rfl | hrest
    · apply (h.typed l.active (by simp [Layout.drafts])).grow htypes hglobals
      intro u hu
      rw [hsymbols, Layout.globals_grow haligned]
      exact .inr hu
    · exact (h.typed d (List.mem_cons_of_mem _ hrest)).mono hglobals
  · intro op hop
    rw [Compilation.env, hsymbols, Layout.env_grow haligned]
    exact hstack op hop
  · intro f hf
    have hsignature := hadds.signature_eq
    rw [hf] at hsignature
    obtain ⟨f₀, hf₀, heq⟩ := Option.map_eq_some_iff.mp hsignature.symm
    rw [← heq]
    exact h.returns f₀ hf₀

/-- What could be used before the program has grown can be used afterwards. -/
theorem env_le_grow {e : Emitter} {s : Storage} {code : List Line} {t : SymbolTable}
    (hadds : Emitter.Adds c.emitter e s code) (haligned : c.table.Aligned t) :
    (c.env p l).Le ((l.grow s.header s.allocas code).env p e.symbols t) := by
  rw [hadds.symbols_eq, Layout.env_grow haligned]
  exact (Env.le_add _ _).trans (Env.le_after _ _)

end Compilation

end MkCompiler
