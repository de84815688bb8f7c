import Mathlib.Data.List.TakeWhile
import MkCompiler.Literal
import MkCompiler.Proofs.Rounding

/-!
# Reading numerals back

The spelling of an integer and of a binary number are numerals, and they are read as the number they
were written for.
-/

namespace MkCompiler.Numeral

open Binary64

theorem isDigit_of_mem_toDigits {n : Nat} {c : Char} (h : c ∈ Nat.toDigits 10 n) :
    isDigit c = true := by
  have hdigit := Nat.isDigit_of_mem_toDigits (by decide) (by decide) h
  simpa [isDigit, Char.isDigit, Char.le_def, UInt32.le_iff_toNat_le] using hdigit

theorem decimalValue_eq (digits : List Char) : decimalValue digits = Nat.ofDigitChars 10 digits 0 :=
  rfl

@[simp] theorem decimalValue_toDigits (n : Nat) : decimalValue (Nat.toDigits 10 n) = n :=
  Nat.ofDigitChars_ten_toDigits

theorem decimalValue_append (a b : List Char) :
    decimalValue (a ++ b) = 10 ^ b.length * decimalValue a + decimalValue b := by
  rw [decimalValue_eq, Nat.ofDigitChars_append, Nat.ofDigitChars_eq_ofDigitChars_zero]
  rfl

@[simp] theorem decimalValue_zeros (n : Nat) : decimalValue (List.replicate n '0') = 0 := by
  rw [decimalValue_eq, Nat.ofDigitChars_replicate_zero, Nat.mul_zero]

theorem splitSign_of_isDigit {c : Char} (h : isDigit c = true) (rest : List Char) :
    splitSign (c :: rest) = (false, c :: rest) := by
  unfold splitSign
  split
  · next heq =>
    obtain ⟨rfl, -⟩ := List.cons.inj heq
    cases h
  · next heq =>
    obtain ⟨rfl, -⟩ := List.cons.inj heq
    cases h
  · rfl

/-! ## Integers -/

theorem integer?_toDigits (n : Nat) (negative : Bool) :
    integer? ((if negative then ['-'] else []) ++ Nat.toDigits 10 n) =
      some (if negative then -(n : Int) else n) := by
  have hall : (Nat.toDigits 10 n).all isDigit = true :=
    List.all_eq_true.mpr fun _ => isDigit_of_mem_toDigits
  have hsplit : splitSign ((if negative then ['-'] else []) ++ Nat.toDigits 10 n) =
      (negative, Nat.toDigits 10 n) := by
    cases negative with
    | true => rfl
    | false =>
      cases hdigits : Nat.toDigits 10 n with
      | nil => exact absurd hdigits Nat.toDigits_ne_nil
      | cons c rest =>
        exact splitSign_of_isDigit (isDigit_of_mem_toDigits (n := n) (by simp [hdigits])) rest
  rw [integer?, hsplit]
  simp [hall]

theorem integer?_toString (v : Int) : integer? (toString v).toList = some v := by
  rw [Int.toString_eq_repr, Int.repr_eq_if]
  split
  · next hv =>
    have h := integer?_toDigits v.toNat false
    simpa [Int.toNat_of_nonneg hv] using h
  · next hv =>
    have h := integer?_toDigits (-v).toNat true
    rw [Int.toNat_of_nonneg (by omega)] at h
    simpa using h

theorem word32?_toString {text : List Char} {v : Int} (h : word32? text = some v) :
    word32? (toString v).toList = some v := by
  obtain ⟨-, hfits⟩ := Option.filter_eq_some_iff.mp h
  rw [word32?, integer?_toString]
  exact Option.filter_eq_some_iff.mpr ⟨rfl, hfits⟩

theorem clamped64_of_integer? {text : List Char} {v : Int} (h : integer? text = some v) :
    clamped64 text = clamp64 v := by
  unfold integer? at h
  unfold clamped64
  generalize splitSign text = parts at h ⊢
  obtain ⟨negative, digits⟩ := parts
  dsimp only at h ⊢
  split at h
  · next hdigits =>
    obtain ⟨hne, hall⟩ := hdigits
    have htake : digits.takeWhile isDigit = digits :=
      List.takeWhile_eq_self_iff.mpr (by simpa using hall)
    rw [htake, if_pos ⟨hne, .inl rfl⟩, Option.some.inj h]
  · cases h

/-- The literal of a value that fits 32 bits is read back as the value. -/
theorem clamped64_toString {text : List Char} {v : Int} (h : word32? text = some v) :
    clamped64 (toString v).toList = v := by
  have hfits := (Option.filter_eq_some_iff.mp h).2
  rw [clamped64_of_integer? (integer?_toString v), clamp64]
  simp only [fitsWord, Bool.and_eq_true, decide_eq_true_eq, Nat.pow_eq] at hfits ⊢
  omega

/-! ## Shortest decimals -/

namespace Decimal

def value (d : Decimal) : ℚ :=
  d.coefficient * 10 ^ d.exponent

theorem value_exact (m : Nat) (e : Int) : (exact m e).value = m * 2 ^ e := by
  unfold exact
  split
  · next he =>
    obtain ⟨n, rfl⟩ := Int.eq_ofNat_of_zero_le he
    simp [value]
  · next he =>
    obtain ⟨n, hn⟩ := Int.eq_ofNat_of_zero_le (show 0 ≤ -e by omega)
    obtain rfl : e = -(n : Int) := by omega
    have hten : (10 : ℚ) ^ n = 2 ^ n * 5 ^ n := by
      rw [← mul_pow]
      norm_num
    simp only [value, Int.neg_neg, Int.toNat_natCast, Nat.pow_eq, zpow_neg, zpow_natCast, hten]
    push_cast
    field_simp

theorem eq_or_round?_of_candidate? {target : Nat × Int} {d r : Decimal} {digits : Nat}
    (h : candidate? target d digits = some r) : r = d ∨ r.round? = some target := by
  unfold candidate? at h
  dsimp only at h
  split at h
  · exact .inl (Option.some.inj h).symm
  · right
    split at h
    · next hbelow habove =>
      have hbelow := of_decide_eq_true hbelow
      have habove := of_decide_eq_true habove
      split at h
      · rw [← Option.some.inj h, hbelow]
      · split at h
        · rw [← Option.some.inj h, habove]
        · split at h
          · rw [← Option.some.inj h, hbelow]
          · rw [← Option.some.inj h, habove]
    · next hbelow _ => rw [← Option.some.inj h, of_decide_eq_true hbelow]
    · next _ habove => rw [← Option.some.inj h, of_decide_eq_true habove]
    · cases h

/-- The shortest decimal of a binary number rounds to it. -/
theorem round?_shortest {m : Nat} {e : Int} (hc : Canonical m e) :
    (shortest m e).round? = some (m, e) := by
  have hexact : (exact m e).round? = some (m, e) := roundDecimal?_exact hc (value_exact m e)
  unfold shortest
  dsimp only
  cases hfound : (List.range 17).findSome? fun n => candidate? (m, e) (exact m e) (n + 1) with
  | none => exact hexact
  | some r =>
    obtain ⟨n, -, hn⟩ := List.exists_of_findSome?_eq_some hfound
    rcases eq_or_round?_of_candidate? hn with rfl | hr
    · exact hexact
    · exact hr

/-! ## Spelling -/

/-- Digits in front of and behind a point that spell a decimal. -/
structure Spells (d : Decimal) (whole fraction : List Char) : Prop where
  digits : ∀ c ∈ whole ++ fraction, isDigit c = true
  whole_ne_nil : whole ≠ []
  value_eq : (decimalValue (whole ++ fraction) : ℚ) * 10 ^ (-(fraction.length : Int)) = d.value

theorem exists_trailing_zeros (text : List Char) :
    ∃ n, text = (text.reverse.dropWhile (· = '0')).reverse ++ List.replicate n '0' := by
  refine ⟨(text.reverse.takeWhile (· = '0')).length, ?_⟩
  have hzeros : (text.reverse.takeWhile (· = '0')).reverse =
      List.replicate (text.reverse.takeWhile (· = '0')).length '0' := by
    rw [List.eq_replicate_iff]
    refine ⟨by simp, fun c hc => ?_⟩
    exact of_decide_eq_true (List.all_eq_true.mp List.all_takeWhile c (List.mem_reverse.mp hc))
  rw [← hzeros, ← List.reverse_append, List.takeWhile_append_dropWhile, List.reverse_reverse]

/-- The digits of a decimal with places, split at the point. Trailing zeros may be left out. -/
theorem spells_places {d : Decimal} {whole fraction : List Char} (places zeros : Nat)
    (hexponent : d.exponent = -(places : Int)) (hwhole : whole ≠ [])
    (hdigits : ∀ c ∈ whole ++ fraction, isDigit c = true)
    (hlength : fraction.length + zeros = places)
    (hvalue : decimalValue (whole ++ fraction ++ List.replicate zeros '0') = d.coefficient) :
    d.Spells whole fraction := by
  refine ⟨hdigits, hwhole, ?_⟩
  rw [decimalValue_append, decimalValue_zeros, List.length_replicate, Nat.add_zero] at hvalue
  rw [value, hexponent, ← hvalue, ← hlength]
  have hten : (10 : ℚ) ≠ 0 := by norm_num
  push_cast
  rw [neg_add, zpow_add₀ hten, zpow_neg, zpow_neg, zpow_natCast, zpow_natCast]
  field_simp

/-- The digits of a decimal without places, and the zeros that belong to them. -/
theorem spells_whole {d : Decimal} {whole : List Char} {n : Nat} (hexponent : d.exponent = n)
    (hwhole : whole ≠ []) (hdigits : ∀ c ∈ whole, isDigit c = true)
    (hvalue : decimalValue whole = d.coefficient * 10 ^ n) : d.Spells whole [] := by
  refine ⟨by simpa using hdigits, hwhole, ?_⟩
  rw [value, hexponent, List.append_nil, hvalue]
  simp

theorem isDigit_of_mem_zeros {n : Nat} {c : Char} (h : c ∈ List.replicate n '0') :
    isDigit c = true := by
  rw [List.eq_of_mem_replicate h]
  rfl

/-- A decimal with places is spelled by its digits, padded so that one of them is in front of the
point, without trailing zeros. -/
theorem spells_padded {d : Decimal} {places : Nat} {padded : List Char}
    (hexponent : d.exponent = -(places : Int)) (hlength : places + 1 ≤ padded.length)
    (hdigits : ∀ c ∈ padded, isDigit c = true) (hvalue : decimalValue padded = d.coefficient) :
    d.Spells (padded.take (padded.length - places))
      ((padded.drop (padded.length - places)).reverse.dropWhile (· = '0')).reverse := by
  obtain ⟨zeros, hzeros⟩ := exists_trailing_zeros (padded.drop (padded.length - places))
  have hsplit : padded.take (padded.length - places) ++
      ((padded.drop (padded.length - places)).reverse.dropWhile (· = '0')).reverse ++
      List.replicate zeros '0' = padded := by
    rw [List.append_assoc, ← hzeros, List.take_append_drop]
  refine spells_places places zeros hexponent ?_ (fun c hc => ?_) ?_ ?_
  · rw [Ne, List.take_eq_nil_iff]
    rintro (h | h)
    · omega
    · rw [h] at hlength
      simp at hlength
  · refine hdigits c ?_
    rw [← hsplit]
    exact List.mem_append_left _ hc
  · have hdrop := congrArg List.length hzeros
    rw [List.length_append, List.length_replicate, List.length_drop] at hdrop
    omega
  · rw [hsplit, hvalue]

theorem spells_split (d : Decimal) : d.Spells d.split.1 d.split.2 := by
  unfold split
  dsimp only
  split
  · next he =>
    obtain ⟨n, hn⟩ := Int.eq_ofNat_of_zero_le he
    split
    · next hzero =>
      refine spells_whole hn Nat.toDigits_ne_nil (fun _ => isDigit_of_mem_toDigits) ?_
      rw [decimalValue_toDigits, hzero, Nat.zero_mul]
    · refine spells_whole hn (by simp) (fun c hc => ?_) ?_
      · rcases List.mem_append.mp hc with hc | hc
        · exact isDigit_of_mem_toDigits hc
        · exact isDigit_of_mem_zeros hc
      · rw [hn, decimalValue_append]
        simp [Nat.mul_comm]
  · next he =>
    obtain ⟨places, hplaces⟩ := Int.eq_ofNat_of_zero_le (show 0 ≤ -d.exponent by omega)
    rw [hplaces, Int.toNat_natCast]
    refine spells_padded (by omega) ?_ (fun c hc => ?_) ?_
    · rw [List.length_append, List.length_replicate]
      omega
    · rcases List.mem_append.mp hc with hc | hc
      · exact isDigit_of_mem_zeros hc
      · exact isDigit_of_mem_toDigits hc
    · rw [decimalValue_append]
      simp

/-- A decimal without places is spelled with a zero behind the point. -/
theorem Spells.point {d : Decimal} {whole fraction : List Char} (h : d.Spells whole fraction) :
    d.Spells whole (if fraction = [] then ['0'] else fraction) := by
  split
  · next hnil =>
    obtain ⟨hdigits, hwhole, hvalue⟩ := h
    subst hnil
    refine ⟨fun c hc => ?_, hwhole, ?_⟩
    · rcases List.mem_append.mp hc with hc | hc
      · exact hdigits c (by simpa using hc)
      · rw [List.mem_singleton.mp hc]
        rfl
    · rw [← hvalue, decimalValue_append]
      have hzero : decimalValue ['0'] = 0 := rfl
      rw [hzero]
      simp [mul_comm]
  · exact h

end Decimal

/-! ## Reading -/

theorem ne_of_isDigit {c : Char} (h : isDigit c = true) : c ≠ '_' ∧ c ≠ '.' := by
  constructor <;>
  · rintro rfl
    cases h

theorem mantissa_fraction {fraction : List Char} (h : ∀ c ∈ fraction, isDigit c = true) :
    mantissa isDigit true fraction = ⟨fraction, fraction.length, []⟩ := by
  induction fraction with
  | nil => rfl
  | cons c rest ih =>
    have hc := h c (by simp)
    rw [mantissa, if_neg (ne_of_isDigit hc).1, if_neg (by simp), if_pos hc,
      ih fun d hd => h d (by simp [hd])]
    rfl

theorem mantissa_point {whole fraction : List Char}
    (h : ∀ c ∈ whole ++ fraction, isDigit c = true) :
    mantissa isDigit false (whole ++ '.' :: fraction) =
      ⟨whole ++ fraction, fraction.length, []⟩ := by
  induction whole with
  | nil =>
    rw [List.nil_append, mantissa, if_neg (by decide), if_pos (by simp)]
    exact mantissa_fraction h
  | cons c rest ih =>
    have hc := h c (by simp)
    rw [List.cons_append, mantissa, if_neg (ne_of_isDigit hc).1,
      if_neg (by simp [ne_of_isDigit hc]), if_pos hc,
      ih fun d hd => h d (by simpa using .inr (by simpa using hd))]
    rfl

theorem separated_of_digits {text : List Char} (h : ∀ c ∈ text, isDigit c = true ∨ c = '.')
    {before : Before} (hbefore : before ≠ .separator) : separated isDigit before text = true := by
  induction text generalizing before with
  | nil => simpa [separated] using hbefore
  | cons c rest ih =>
    have hrest := fun d hd => h d (List.mem_cons_of_mem c hd)
    rw [separated]
    rcases h c (by simp) with hc | rfl
    · rw [if_pos hc]
      exact ih hrest (by simp)
    · rw [if_neg (by decide), if_neg (by decide)]
      simp [hbefore, ih hrest]

theorem Decimal.Spells.mem_text {d : Decimal} {whole fraction : List Char}
    (h : d.Spells whole fraction) {c : Char} (hc : c ∈ whole ++ '.' :: fraction) :
    isDigit c = true ∨ c = '.' := by
  rcases List.mem_append.mp hc with hc | hc
  · exact .inl (h.digits c (List.mem_append_left _ hc))
  · rcases List.mem_cons.mp hc with hc | hc
    · exact .inr hc
    · exact .inl (h.digits c (List.mem_append_right _ hc))

/-- A spelling is read as the binary number its decimal rounds to. -/
theorem decimal?_of_spells {d : Decimal} {whole fraction : List Char}
    (h : d.Spells whole fraction) : decimal? (whole ++ '.' :: fraction) = d.round? := by
  have hunsigned : unsigned? isDigit 'e' (whole ++ '.' :: fraction) =
      some (⟨whole ++ fraction, fraction.length, []⟩, none) := by
    rw [unsigned?, mantissa_point h.digits]
    simp [h.whole_ne_nil]
  rw [decimal?, hunsigned]
  dsimp only
  rw [if_pos (separated_of_digits (fun _ => h.mem_text) (by simp)), Decimal.round?]
  refine roundDecimal?_congr ?_
  rw [← Decimal.value, ← h.value_eq]
  simp

theorem real?_of_spells {d : Decimal} {whole fraction : List Char} (h : d.Spells whole fraction)
    (negative : Bool) :
    real? ((if negative then ['-'] else []) ++ (whole ++ '.' :: fraction)) =
      d.round?.map fun v => .finite negative v.1 v.2 := by
  have hsplit : splitSign ((if negative then ['-'] else []) ++ (whole ++ '.' :: fraction)) =
      (negative, whole ++ '.' :: fraction) := by
    cases negative with
    | true => rfl
    | false =>
      obtain ⟨c, rest, rfl⟩ := List.exists_cons_of_ne_nil h.whole_ne_nil
      exact splitSign_of_isDigit (h.digits c (by simp)) _
  rw [real?, hsplit, ← decimal?_of_spells h]
  dsimp only
  -- The mark of another base is neither a digit nor a point.
  split
  · next hbase => rcases h.mem_text (c := 'x') (by simp [hbase]) with h | h <;> cases h
  · next hbase => rcases h.mem_text (c := 'X') (by simp [hbase]) with h | h <;> cases h
  · rfl

/-- The text of a binary number is read as that number. -/
theorem real?_realText_of_canonical {negative : Bool} {m : Nat} {e : Int} (hc : Canonical m e) :
    real? (realText (.finite negative m e)) = some (.finite negative m e) := by
  have hspells := (Decimal.spells_split (Decimal.shortest m e)).point
  rw [realText]
  dsimp only
  rw [List.append_assoc, real?_of_spells hspells, Decimal.round?_shortest hc]
  rfl

/-! ## The numbers that can be read -/

/-- A rounding that gives zero below a bound, nothing above another one, and rounds a fraction in
between. -/
theorem canonical_of_rounding {below above : Prop} [Decidable below] [Decidable above] {e : Int}
    {a b c d : Nat} {r : Nat × Int} (hb : b ≠ 0) (hd : d ≠ 0)
    (h : (if below then some (0, leastExponent) else if above then none
      else if 0 ≤ e then round? a b else round? c d) = some r) : Canonical r.1 r.2 := by
  split at h
  · rw [← Option.some.inj h]
    exact canonical_zero
  · split at h
    · cases h
    · split at h
      · exact round?_canonical hb h
      · exact round?_canonical hd h

theorem canonical_of_decimal? {text : List Char} {r : Nat × Int} (h : decimal? text = some r) :
    Canonical r.1 r.2 := by
  unfold decimal? at h
  split at h
  · split at h
    · exact canonical_of_rounding one_ne_zero (Nat.pow_pos (by decide)).ne' h
    · cases h
  · cases h

theorem canonical_of_hexadecimal? {text : List Char} {r : Nat × Int}
    (h : hexadecimal? text = some r) : Canonical r.1 r.2 := by
  unfold hexadecimal? at h
  split at h
  · split at h
    · exact canonical_of_rounding one_ne_zero (Nat.pow_pos (by decide)).ne' h
    · cases h
  · cases h

/-- A number that was read from any numeral is read from its own text. -/
theorem real?_realText {text : List Char} {v : Binary64} (h : real? text = some v) :
    real? (realText v) = some v := by
  unfold real? at h
  obtain ⟨r, hr, rfl⟩ := Option.map_eq_some_iff.mp h
  refine real?_realText_of_canonical ?_
  split at hr
  · exact canonical_of_hexadecimal? hr
  · exact canonical_of_hexadecimal? hr
  · exact canonical_of_decimal? hr

end MkCompiler.Numeral
