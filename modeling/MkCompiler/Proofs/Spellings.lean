import MkCompiler.Proofs.Numerals

/-!
# Spellings of literals

A literal has one spelling for each value: the plain numeral of an integer, and digits around a
point for a binary number. The spelling is itself accepted and gives the same literal, and two
texts have one spelling if and only if they have one value.
-/

namespace MkCompiler

/-! ## Integers -/

namespace Numeral

/-- The numeral of an integer: no plus sign, and a zero in front only in that of zero. -/
structure Plain (v : Int) (text : List Char) : Prop where
  signed : ∃ digits, text = (if v < 0 then ['-'] else []) ++ digits ∧ digits ≠ [] ∧
    (∀ c ∈ digits, isDigit c = true) ∧ decimalValue digits = v.natAbs ∧
    (digits.head? = some '0' → digits = ['0'])

theorem head?_toDigits {n : Nat} (h : (Nat.toDigits 10 n).head? = some '0') :
    Nat.toDigits 10 n = ['0'] := by
  induction n using Nat.strongRecOn with
  | ind n ih =>
    by_cases hn : n < 10
    · have hdigit : ∀ n < 10, (Nat.toDigits 10 n).head? = some '0' → Nat.toDigits 10 n = ['0'] := by
        decide
      exact hdigit n hn h
    · rw [Nat.toDigits_of_base_le (by decide) (by omega)] at h
      have hhead : (Nat.toDigits 10 (n / 10)).head? = some '0' := by
        rwa [List.head?_append_of_ne_nil _ Nat.toDigits_ne_nil] at h
      have hvalue := congrArg decimalValue (ih (n / 10) (by omega) hhead)
      rw [decimalValue_toDigits] at hvalue
      have hzero : decimalValue ['0'] = 0 := rfl
      omega

theorem plain_toString (v : Int) : Plain v (toString v).toList := by
  refine ⟨Nat.toDigits 10 v.natAbs, ?_, Nat.toDigits_ne_nil, fun _ => isDigit_of_mem_toDigits,
    decimalValue_toDigits _, head?_toDigits⟩
  rw [Int.toString_eq_repr, Int.repr_eq_if]
  split
  · next hv =>
    obtain ⟨n, rfl⟩ := Int.eq_ofNat_of_zero_le hv
    simp
  · next hv =>
    rw [if_pos (by omega), show (-v).toNat = v.natAbs by omega]
    simp

/-! ## Binary numbers -/

/-- Digits around a point, behind a minus sign or nothing. -/
structure Pointed (text : List Char) : Prop where
  signed : ∃ (negative : Bool) (whole fraction : List Char),
    text = (if negative then ['-'] else []) ++ whole ++ '.' :: fraction ∧ whole ≠ [] ∧
      fraction ≠ [] ∧ ∀ c ∈ whole ++ fraction, isDigit c = true

theorem pointed_realText (negative : Bool) (m : Nat) (e : Int) :
    Pointed (realText (.finite negative m e)) := by
  have hspells := (Decimal.spells_split (Decimal.shortest m e)).point
  have hne (fraction : List Char) : (if fraction = [] then ['0'] else fraction) ≠ [] := by
    split
    · simp
    · next hne => exact hne
  exact ⟨negative, _, _, rfl, hspells.whole_ne_nil, hne _, hspells.digits⟩

theorem finite_of_real? {text : List Char} {v : Binary64} (h : real? text = some v) :
    ∃ negative m e, v = .finite negative m e ∧ Binary64.Canonical m e := by
  unfold real? at h
  obtain ⟨r, hr, rfl⟩ := Option.map_eq_some_iff.mp h
  refine ⟨_, r.1, r.2, rfl, ?_⟩
  split at hr
  · exact canonical_of_hexadecimal? hr
  · exact canonical_of_hexadecimal? hr
  · exact canonical_of_decimal? hr

end Numeral

namespace Binary64

/-- A sign, an exponent and a fraction in 64 bits. -/
def pack (negative : Bool) (exponent fraction : Nat) : Nat :=
  negative.toNat * 2 ^ 63 + exponent * 2 ^ 52 + fraction

theorem ofBits_pack {exponent fraction : Nat} (negative : Bool) (hexponent : exponent < 2 ^ 11)
    (hfraction : fraction < 2 ^ 52) :
    ofBits (pack negative exponent fraction) =
      if exponent = 2047 then if fraction = 0 then .infinite negative else .nan
      else if exponent = 0 then .finite negative fraction leastExponent
      else .finite negative (2 ^ 52 + fraction) ((exponent : Int) - 1075) := by
  have hsign : negative.toNat < 2 := Bool.toNat_lt negative
  have h₁ : pack negative exponent fraction / 2 ^ 63 % 2 = negative.toNat := by
    unfold pack
    omega
  have h₂ : pack negative exponent fraction / 2 ^ 52 % 2 ^ 11 = exponent := by
    unfold pack
    omega
  have h₃ : pack negative exponent fraction % 2 ^ 52 = fraction := by
    unfold pack
    omega
  unfold ofBits
  simp only [Nat.pow_eq, h₁, h₂, h₃]
  cases negative <;> rfl

theorem exists_eq_pack {b : Nat} (hb : b < 2 ^ 64) : ∃ negative exponent fraction,
    b = pack negative exponent fraction ∧ exponent < 2 ^ 11 ∧ fraction < 2 ^ 52 := by
  refine ⟨decide (b / 2 ^ 63 = 1), b / 2 ^ 52 % 2 ^ 11, b % 2 ^ 52, ?_, by omega, by omega⟩
  unfold pack
  by_cases hsign : b / 2 ^ 63 = 1
  · rw [decide_eq_true hsign, Bool.toNat_true]
    omega
  · rw [decide_eq_false hsign, Bool.toNat_false]
    omega

/-- The pattern of a binary number is read off its significand, which starts with the hidden bit or
lies below it. -/
theorem ofBits_pack_eq_finite {m exponent fraction : Nat} {e : Int} (h : Canonical m e)
    (hexponent : exponent < 2 ^ 11) (hfraction : fraction < 2 ^ 52) (negative negative' : Bool) :
    ofBits (pack negative' exponent fraction) = .finite negative m e ↔ negative' = negative ∧
      if m < 2 ^ 52 then exponent = 0 ∧ fraction = m
      else (exponent : Int) = e + 1075 ∧ 2 ^ 52 + fraction = m := by
  obtain ⟨hm, hleast, hgreatest, hnormal⟩ := h
  rw [ofBits_pack negative' hexponent hfraction]
  unfold greatestExponent at hgreatest
  unfold leastExponent at hleast hnormal ⊢
  split
  · split <;> split <;> simp <;> omega
  · split <;> split <;> simp [finite.injEq] <;> omega

/-- A binary number is stored in exactly one pattern of 64 bits. -/
theorem existsUnique_bits {m : Nat} {e : Int} (h : Canonical m e) (negative : Bool) :
    ∃! b, b < 2 ^ 64 ∧ ofBits b = .finite negative m e := by
  have hsign : negative.toNat < 2 := Bool.toNat_lt negative
  have hleast : -1074 ≤ e := h.least_le
  have hgreatest : e ≤ 971 := h.le_greatest
  have hm := h.significand_lt
  by_cases hsmall : m < 2 ^ 52
  · refine ⟨pack negative 0 m, ⟨by unfold pack; omega, ?_⟩, ?_⟩
    · rw [ofBits_pack_eq_finite h (by decide) hsmall, if_pos hsmall]
      exact ⟨rfl, rfl, rfl⟩
    · rintro b ⟨hb, hvalue⟩
      obtain ⟨negative', exponent, fraction, rfl, hexponent, hfraction⟩ := exists_eq_pack hb
      rw [ofBits_pack_eq_finite h hexponent hfraction, if_pos hsmall] at hvalue
      obtain ⟨rfl, rfl, rfl⟩ := hvalue
      rfl
  · obtain ⟨exponent, hexponent⟩ := Int.eq_ofNat_of_zero_le (show 0 ≤ e + 1075 by omega)
    refine ⟨pack negative exponent (m - 2 ^ 52), ⟨by unfold pack; omega, ?_⟩, ?_⟩
    · rw [ofBits_pack_eq_finite h (by omega) (by omega), if_neg hsmall]
      exact ⟨rfl, hexponent.symm, by omega⟩
    · rintro b ⟨hb, hvalue⟩
      obtain ⟨negative', exponent', fraction, rfl, hexponent', hfraction⟩ := exists_eq_pack hb
      rw [ofBits_pack_eq_finite h hexponent' hfraction, if_neg hsmall] at hvalue
      obtain ⟨rfl, hsame, hrest⟩ := hvalue
      obtain rfl : exponent = exponent' := by omega
      rw [← hrest, Nat.add_sub_cancel_left]

end Binary64

/-! ## Literals -/

namespace Literal

/-- A text is a numeral of the number that 64 bits stand for. -/
def Denotes (text : String) (b : Nat) : Prop :=
  b < 2 ^ 64 ∧ Numeral.real? text.toList = some (.ofBits b)

theorem existsUnique_denotes {text : String} {v : Binary64}
    (h : Numeral.real? text.toList = some v) : ∃! b, Denotes text b := by
  obtain ⟨negative, m, e, rfl, hcanonical⟩ := Numeral.finite_of_real? h
  obtain ⟨b, ⟨hb, hvalue⟩, hunique⟩ := Binary64.existsUnique_bits hcanonical negative
  refine ⟨b, ⟨hb, hvalue ▸ h⟩, ?_⟩
  rintro b' ⟨hb', hvalue'⟩
  exact hunique b' ⟨hb', Option.some.inj (hvalue'.symm.trans h)⟩

theorem ofInt_injective {v v' : Int} (h : (ofInt v).text = (ofInt v').text) : v = v' := by
  have hread := Numeral.integer?_toString v
  rw [show toString v = toString v' from h, Numeral.integer?_toString] at hread
  exact (Option.some.inj hread).symm

/-- Numbers that can be read have different texts. -/
theorem ofReal_injective {text text' : List Char} {v v' : Binary64}
    (hv : Numeral.real? text = some v) (hv' : Numeral.real? text' = some v')
    (h : (ofReal v).text = (ofReal v').text) : v = v' := by
  have hread := Numeral.real?_realText hv
  rw [String.ofList_injective h, Numeral.real?_realText hv'] at hread
  exact (Option.some.inj hread).symm

theorem int?_eq_some {text : String} {l : Literal} (h : int? text = some l) :
    ∃ v, Numeral.integer? text.toList = some v ∧ Numeral.fitsWord 31 v = true ∧ l = ofInt v ∧
      int? l.text = some l := by
  obtain ⟨v, hv, rfl⟩ := Option.map_eq_some_iff.mp h
  obtain ⟨hread, hfits⟩ := Option.filter_eq_some_iff.mp hv
  exact ⟨v, hread, hfits, rfl, congrArg (Option.map ofInt) (Numeral.word32?_toString hv)⟩

theorem real?_eq_some {text : String} {l : Literal} (h : real? text = some l) :
    ∃ v, Numeral.real? text.toList = some v ∧ Numeral.real? l.text.toList = some v ∧
      l = ofReal v := by
  obtain ⟨v, hv, rfl⟩ := Option.map_eq_some_iff.mp h
  refine ⟨v, hv, ?_, rfl⟩
  rw [ofReal, String.toList_ofList]
  exact Numeral.real?_realText hv

/-- A literal is spelled canonically, and its spelling is read as the same literal. Texts are
spelled the same if and only if they denote the same integer, or the same 64 bits. -/
theorem text_canonical :
    (∀ (text : String) (l : Literal), int? text = some l →
      l.type = .int ∧ int? l.text = some l ∧ ∃ v : Int, Numeral.integer? text.toList = some v ∧
        -2 ^ 31 ≤ v ∧ v ≤ 2 ^ 31 - 1 ∧ Numeral.Plain v l.text.toList) ∧
    (∀ (text : String) (l : Literal), real? text = some l →
      l.type = .real ∧ real? l.text = some l ∧ Numeral.Pointed l.text.toList ∧
        (∃! b, Denotes text b) ∧ ∀ b, Denotes l.text b ↔ Denotes text b) ∧
    (∀ (text text' : String) (l l' : Literal), int? text = some l → int? text' = some l' →
      (l.text = l'.text ↔ Numeral.integer? text.toList = Numeral.integer? text'.toList)) ∧
    (∀ (text text' : String) (l l' : Literal), real? text = some l → real? text' = some l' →
      (l.text = l'.text ↔ ∃ b, Denotes text b ∧ Denotes text' b)) := by
  refine ⟨?_, ?_, ?_, ?_⟩
  · intro text l h
    obtain ⟨v, hread, hfits, rfl, hagain⟩ := int?_eq_some h
    rw [Numeral.fitsWord, Nat.pow_eq, Bool.and_eq_true, decide_eq_true_eq, decide_eq_true_eq]
      at hfits
    exact ⟨rfl, hagain, v, hread, by exact_mod_cast hfits.1, by omega, Numeral.plain_toString v⟩
  · intro text l h
    obtain ⟨v, hread, hagain, rfl⟩ := real?_eq_some h
    obtain ⟨negative, m, e, rfl, -⟩ := Numeral.finite_of_real? hread
    refine ⟨rfl, by rw [real?, hagain, Option.map_some], ?_, existsUnique_denotes hread, ?_⟩
    · rw [ofReal, String.toList_ofList]
      exact Numeral.pointed_realText negative m e
    · intro b
      rw [Denotes, Denotes, hread, hagain]
  · intro text text' l l' h h'
    obtain ⟨v, hread, -, rfl, -⟩ := int?_eq_some h
    obtain ⟨v', hread', -, rfl, -⟩ := int?_eq_some h'
    rw [hread, hread', Option.some.injEq]
    exact ⟨ofInt_injective, fun heq => heq ▸ rfl⟩
  · intro text text' l l' h h'
    obtain ⟨v, hread, -, rfl⟩ := real?_eq_some h
    obtain ⟨v', hread', -, rfl⟩ := real?_eq_some h'
    constructor
    · intro htext
      obtain rfl := ofReal_injective hread hread' htext
      obtain ⟨b, hb, -⟩ := existsUnique_denotes hread
      exact ⟨b, hb, hb.1, hread'.trans (hread.symm.trans hb.2)⟩
    · rintro ⟨b, ⟨-, hb⟩, -, hb'⟩
      rw [Option.some.inj (hread.symm.trans hb), Option.some.inj (hread'.symm.trans hb')]

/-- Signs, leading zeros, other bases and exponents leave no trace. -/
theorem text_canonical_half :
    (int? "+007" = some ⟨.int, "7"⟩ ∧ int? "7" = some ⟨.int, "7"⟩ ∧
      Numeral.integer? "+007".toList = Numeral.integer? "7".toList) ∧
    real? "-0x1p-1" = some ⟨.real, "-0.5"⟩ ∧ real? "-5e-1" = some ⟨.real, "-0.5"⟩ ∧
      ∃ b, Denotes "-0x1p-1" b ∧ Denotes "-5e-1" b := by
  have hint : int? "+007" = some ⟨.int, "7"⟩ := by decide +kernel
  have hreal : real? "-0x1p-1" = some ⟨.real, "-0.5"⟩ := by decide +kernel
  have hreal' : real? "-5e-1" = some ⟨.real, "-0.5"⟩ := by decide +kernel
  obtain ⟨hints, -, hequal, hpatterns⟩ := text_canonical
  have hagain := (hints _ _ hint).2.1
  exact ⟨⟨hint, hagain, (hequal _ _ _ _ hint hagain).mp rfl⟩, hreal, hreal',
    (hpatterns _ _ _ _ hreal hreal').mp rfl⟩

end Literal

end MkCompiler
