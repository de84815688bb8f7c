import MkCompiler.Proofs.Symbols

/-!
# Configured symbols

The symbols that a configuration document sets are looked at one by one, so that it can give the
same symbol twice, or one that a program declares itself. A program declares each symbol of the
runtime once exactly if it does neither.
-/

namespace MkCompiler

namespace Toml.Node

/-- What a document sets under a key of the table `runtime`. -/
def setting? (root : Node) (key : String) : Option Node :=
  (root.child? "runtime").bind fun table => table.child? key

/-- A document that sets texts, one on each line below the header of the table. -/
def ofSettings (settings : List (String × String)) : Node :=
  let entries := settings.mapIdx fun i (key, text) => (key, ⟨i + 2, 1⟩, .string text)
  table ⟨1, 1⟩ false [("runtime", ⟨1, 1⟩, table ⟨1, 1⟩ false entries)]

end Toml.Node

namespace RuntimeSymbols

/-- A symbol is the text that is set for it, or else the standard one under its key. An empty text
sets nothing. -/
def Chosen (setting : Option Toml.Node) (key symbol : String) : Prop :=
  symbol ≠ "" ∧ setting = some (.string symbol) ∨
    (setting = none ∨ setting = some (.string "")) ∧ (key, symbol) ∈ standard.toList

theorem exists_of_isGlobalIdentifier {symbol : String} (h : isGlobalIdentifier symbol = true) :
    ∃ c rest, symbol.toList = '@' :: c :: rest := by
  simp only [isGlobalIdentifier, Bool.and_eq_true, decide_eq_true_eq] at h
  obtain ⟨⟨hsize, hhead⟩, -⟩ := h
  obtain ⟨rest, hrest⟩ := List.head?_eq_some_iff.mp hhead
  cases rest with
  | nil =>
    -- `@` alone is one byte long.
    have hsymbol : symbol = "@" := String.toList_inj.mp hrest
    rw [hsymbol] at hsize
    exact absurd hsize (by decide)
  | cons c rest => exact ⟨c, rest, hrest⟩

/-! ## Reading a configuration -/

theorem exists_of_bind_eq_ok {α β : Type} {x : Except ConfigError α} {f : α → Except ConfigError β}
    {b : β} (h : x.bind f = .ok b) : ∃ a, x = .ok a ∧ f a = .ok b := by
  cases x with
  | ok a => exact ⟨a, rfl, h⟩
  | error e => cases h

theorem chosen_choose {table : Toml.Node} {key text symbol : String}
    (h : configured table key = .ok text) (hstandard : (key, symbol) ∈ standard.toList) :
    Chosen (table.child? key) key (choose text symbol) := by
  unfold configured at h
  unfold choose
  split at h
  · next hnone =>
    cases h
    exact .inr ⟨.inl hnone, hstandard⟩
  · next hstring =>
    cases h
    split
    · next hempty => exact .inr ⟨.inr (hempty ▸ hstring), hstandard⟩
    · next hnonempty => exact .inl ⟨hnonempty, hstring⟩
  · cases h

theorem chosen_ofTable {table : Toml.Node} {s : RuntimeSymbols} (h : ofTable table = .ok s) :
    ∀ entry ∈ s.toList, Chosen (table.child? entry.1) entry.1 entry.2 := by
  unfold ofTable at h
  obtain ⟨printInt, hprintInt, h⟩ := exists_of_bind_eq_ok h
  obtain ⟨printReal, hprintReal, h⟩ := exists_of_bind_eq_ok h
  obtain ⟨scanInt, hscanInt, h⟩ := exists_of_bind_eq_ok h
  obtain ⟨scanReal, hscanReal, h⟩ := exists_of_bind_eq_ok h
  obtain ⟨printf, hprintf, h⟩ := exists_of_bind_eq_ok h
  obtain ⟨scanf, hscanf, h⟩ := exists_of_bind_eq_ok h
  cases h
  simp only [toList, List.forall_mem_cons]
  exact ⟨chosen_choose hprintInt (by decide), chosen_choose hprintReal (by decide),
    chosen_choose hscanInt (by decide), chosen_choose hscanReal (by decide),
    chosen_choose hprintf (by decide), chosen_choose hscanf (by decide), by simp⟩

theorem isGlobalIdentifier_of_validate {s s' : RuntimeSymbols} (h : validate s = .ok s') :
    s = s' ∧ ∀ entry ∈ s.toList, isGlobalIdentifier entry.2 = true := by
  unfold validate at h
  split at h
  · cases h
  · next hnone =>
    cases h
    refine ⟨rfl, fun entry hentry => ?_⟩
    simpa using List.find?_eq_none.mp hnone entry hentry

/-- An accepted document gives every symbol, and each of them is a global identifier. -/
theorem ofDocument_eq_ok {root : Toml.Node} {s : RuntimeSymbols} (h : ofDocument root = .ok s) :
    (∀ entry ∈ s.toList, Chosen (root.setting? entry.1) entry.1 entry.2) ∧
      ∀ entry ∈ s.toList, isGlobalIdentifier entry.2 = true := by
  unfold ofDocument at h
  unfold Toml.Node.setting?
  split at h
  · cases h
  · split at h
    · next hnone =>
      cases h
      rw [hnone]
      exact ⟨fun entry hentry => .inr ⟨.inl rfl, hentry⟩, by decide +kernel⟩
    · next hsome =>
      rw [hsome]
      dsimp only at h
      split at h
      · cases h
      · obtain ⟨s', htable, hvalid⟩ := exists_of_bind_eq_ok h
        obtain ⟨rfl, hglobal⟩ := isGlobalIdentifier_of_validate hvalid
        exact ⟨chosen_ofTable htable, hglobal⟩
    · cases h

/-! ## Declaring the symbols -/

/-- Each symbol of the runtime is declared once unless there is a clash. -/
theorem count_append_eq_one_iff {s : RuntimeSymbols} {others : List String} :
    (∀ symbol ∈ s.toList.map Prod.snd, (spellings s.prologue ++ others).count symbol = 1) ↔
      ¬s.Clashes others := by
  rw [not_clashes_iff, List.nodup_iff_count_eq_one]
  simp only [← (spellings_prologue s).mem_iff, List.count_append]
  constructor
  · intro h
    constructor
    · intro symbol hsymbol
      have hpos := List.count_pos_iff.mpr hsymbol
      have hcount := h symbol hsymbol
      omega
    · intro symbol hsymbol hother
      have hpos := List.count_pos_iff.mpr hsymbol
      have hother := List.count_pos_iff.mpr hother
      have hcount := h symbol hsymbol
      omega
  · rintro ⟨hnodup, hdisjoint⟩ symbol hsymbol
    rw [hnodup symbol hsymbol, List.count_eq_zero.mpr (hdisjoint symbol hsymbol)]

/-- The symbols of an accepted document are those it sets and else the standard ones, and each of
them is `@` with something behind it. Behind them, a program declares `@main` and symbols that start
with the stems of variables, arrays, functions and methods. It declares each symbol of the runtime
once exactly if they are different from one another and from its own, and under the names of a
source no symbol at all is then declared twice. -/
theorem ofDocument_declares_configured {root : Toml.Node} {symbols : RuntimeSymbols}
    (h : ofDocument root = .ok symbols) :
    (∀ entry ∈ symbols.toList, Chosen (root.setting? entry.1) entry.1 entry.2) ∧
    (∀ entry ∈ symbols.toList, ∃ c rest, entry.2.toList = '@' :: c :: rest) ∧
    ∀ file commands lines, compile file commands symbols = .ok lines →
      ∃ own, spellings lines = spellings symbols.prologue ++ own ∧
        (∀ name ∈ own, IsGenerated name) ∧
        ((∀ symbol ∈ symbols.toList.map Prod.snd, (spellings lines).count symbol = 1) ↔
          ¬symbols.Clashes own) ∧
        (symbols.Separate → ¬symbols.Clashes own) ∧
        ((∀ cmd ∈ commands, cmd.Named) → lines.length ≤ 2 ^ 64 →
          ((spellings lines).Nodup ↔ ¬symbols.Clashes own)) := by
  obtain ⟨hchosen, hglobal⟩ := ofDocument_eq_ok h
  refine ⟨hchosen, fun entry hentry => exists_of_isGlobalIdentifier (hglobal entry hentry), ?_⟩
  intro file commands lines hcompile
  obtain ⟨own, hown, hgenerated⟩ := exists_own hcompile
  refine ⟨own, hown, hgenerated, ?_, fun hs => hs.not_clashes hgenerated, ?_⟩
  · rw [hown]
    exact count_append_eq_one_iff
  · intro hnamed hlength
    obtain ⟨c, l, hc, rfl⟩ := Compilation.exists_completes (p := False) False.elim hnamed hcompile
    rw [hown]
    exact nodup_append_iff (hc.nodup_own hlength hown)

/-- A symbol with the stem of functions does no harm as long as no function has its name. -/
theorem ofDocument_declares_configured_stem : ∃ symbols lines,
    ofDocument (.ofSettings [("printf", "@func_put"), ("scanf", "")]) = .ok symbols ∧
    symbols.printf = "@func_put" ∧ symbols.scanf = standard.scanf ∧ ¬symbols.Separate ∧
    compile "empty.mk" [{ kind := .endProgram }] symbols = .ok lines ∧ (spellings lines).Nodup := by
  have h : ofDocument (.ofSettings [("printf", "@func_put"), ("scanf", "")]) =
      .ok { standard with printf := "@func_put" } := by decide +kernel
  refine ⟨_, _, h, rfl, rfl, ?_, rfl, ?_⟩
  · intro hs
    exact hs.stems "@func_put" (by decide) "@func_" (by decide) (by decide +kernel)
  · obtain ⟨own, hown, -, -, -, hnodup⟩ :=
      (ofDocument_declares_configured h).2.2 "empty.mk" [{ kind := .endProgram }] _ rfl
    have hmain : spellings ({ standard with printf := "@func_put" } : RuntimeSymbols).prologue ++
        ["@main"] = _ ++ own := hown
    refine (hnodup (by decide) (by decide)).mpr ?_
    rw [← List.append_cancel_left hmain, Clashes]
    decide

/-- A document is accepted although it sets the same symbol twice, and this symbol is that of the
entry point. Every program then declares it three times. -/
theorem ofDocument_accepts_clash : ∃ symbols lines,
    ofDocument (.ofSettings [("printf", "@main"), ("scanf", "@main")]) = .ok symbols ∧
    compile "clash.mk" [{ kind := .endProgram }] symbols = .ok lines ∧
    symbols.printf = symbols.scanf ∧ symbols.printf = "@main" ∧
    (spellings lines).count "@main" = 3 := by
  refine ⟨{ standard with printf := "@main", scanf := "@main" }, _, ?_, rfl, rfl, rfl, ?_⟩
  · decide +kernel
  · decide +kernel

end RuntimeSymbols

end MkCompiler
