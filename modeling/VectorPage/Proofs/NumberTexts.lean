/-
Numbers are written in one way, and rounded correctly.

A double is rounded to thousandths on its exact value, and the thousandths are written
out. Two arguments meet here. The first is about rounding: a quotient is rounded by
quotient and remainder, and what comes out is the nearest whole number, with the even
one taken halfway between two (`Nearest`). There is just one such number, so nothing is
left to choose.

The second is about digits. A whole number of thousandths is written as a numeral
whose parts are canonical: no leading zeros, no trailing zeros, no sign at zero. Trailing
zeros are dropped after the point only, and dropping them does not change the fraction;
so the numeral stands for the thousandths again, and two texts are the same only if the
thousandths are.
-/
import VectorPage.Proofs.Coercion
import VectorPage.Proofs.Doubles

set_option autoImplicit false

namespace VectorPage

/-! ## Rounding -/

/-- **The nearest whole number**: no other one is nearer, and if one is as near, this
one is even. -/
def Nearest (q : ℚ) (k : ℤ) : Prop :=
  ∀ j : ℤ, |q - k| ≤ |q - j| ∧ (|q - j| = |q - k| → j = k ∨ Even k)

/-- Two whole numbers are at least one unit apart. -/
theorem one_le_abs_sub {j k : ℤ} (different : j ≠ k) : (1 : ℚ) ≤ |(j : ℚ) - k| := by
  exact_mod_cast Int.one_le_abs (sub_ne_zero.mpr different)

/-- **Nearest, by half a unit.** The notion is stated over all whole numbers; it comes
down to a distance of half a unit at most, and evenness at exactly that. -/
theorem nearest_iff {q : ℚ} {k : ℤ} :
    Nearest q k ↔ |q - k| ≤ 1 / 2 ∧ (|q - k| = 1 / 2 → Even k) := by
  constructor
  · intro h
    obtain ⟨above, evenAbove⟩ := h (k + 1)
    obtain ⟨below, evenBelow⟩ := h (k - 1)
    push_cast at above evenAbove below evenBelow
    -- only the neighbours can be as near
    have half : |q - k| ≤ 1 / 2 := by
      rcases abs_cases (q - k) with _ | _ <;> rcases abs_cases (q - (k + 1)) with _ | _ <;>
        rcases abs_cases (q - (k - 1)) with _ | _ <;> linarith
    refine ⟨half, fun tie => ?_⟩
    rcases (abs_eq (by norm_num)).mp tie with up | down
    · refine (evenAbove ?_).resolve_left (by omega)
      rw [tie, show q - (k + 1) = -(1 / 2) by linarith, abs_neg, abs_of_pos (by norm_num)]
    · refine (evenBelow ?_).resolve_left (by omega)
      rw [tie, show q - (k - 1) = 1 / 2 by linarith, abs_of_pos (by norm_num)]
  · rintro ⟨half, even⟩ j
    by_cases same : j = k
    · rw [same]
      exact ⟨le_rfl, fun _ => .inl rfl⟩
    · -- any other is a unit or more away from this one, so half a unit or more from `q`
      have apart := one_le_abs_sub (Ne.symm same)
      have triangle := abs_sub_abs_le_abs_sub ((k : ℚ) - j) (k - q)
      rw [show (k : ℚ) - j - (k - q) = q - j by ring, abs_sub_comm (k : ℚ) q] at triangle
      exact ⟨by linarith, fun tie => .inr (even (by linarith))⟩

/-- **There is just one.** -/
theorem Nearest.unique {q : ℚ} {k k' : ℤ} (h : Nearest q k) (h' : Nearest q k') : k = k' := by
  obtain ⟨half, even⟩ := nearest_iff.mp h
  obtain ⟨half', even'⟩ := nearest_iff.mp h'
  by_contra different
  have apart := one_le_abs_sub different
  have triangle := abs_sub_le (k : ℚ) q k'
  rw [abs_sub_comm (k : ℚ) q] at triangle
  -- both are half a unit away, on either side, and so both are even
  obtain ⟨a, rfl⟩ := even (by linarith)
  obtain ⟨b, rfl⟩ := even' (by linarith)
  have close : |(a + a : ℤ) - (b + b)| ≤ 1 := by
    have : |((a + a : ℤ) : ℚ) - ((b + b : ℤ) : ℚ)| ≤ 1 := by linarith
    exact_mod_cast this
  rw [abs_le] at close
  omega

/-- Ties go to even numbers on both sides of zero, so signs may be taken off. -/
theorem Nearest.neg {q : ℚ} {k : ℤ} (h : Nearest q k) : Nearest (-q) (-k) := by
  have distance : |-q - ((-k : ℤ) : ℚ)| = |q - k| := by
    rw [Int.cast_neg, show -q - -(k : ℚ) = -(q - k) by ring, abs_neg]
  rw [nearest_iff] at h ⊢
  rw [distance, even_neg]
  exact h

theorem nearest_self (k : ℤ) : Nearest k k := by
  rw [nearest_iff, sub_self, abs_zero]
  exact ⟨by norm_num, fun tie => absurd tie (by norm_num)⟩

/-- **Rounding by quotient and remainder** gives the nearest whole number. -/
theorem nearest_divHalfEven (n : ℕ) {d : ℕ} (pos : 0 < d) :
    Nearest ((n : ℚ) / d) (divHalfEven n d) := by
  have unit : (0 : ℚ) < d := by exact_mod_cast pos
  have small : n % d < d := Nat.mod_lt n pos
  have split : (n : ℚ) / d = (n / d : ℕ) + (n % d : ℕ) / d := by
    have parts : ((d * (n / d) + n % d : ℕ) : ℚ) = n := by rw [Nat.div_add_mod]
    rw [← parts]
    push_cast
    field_simp
  rw [nearest_iff, split]
  unfold divHalfEven
  generalize n / d = q, n % d = r at *
  have share : (r : ℚ) / d < 1 := by
    rw [div_lt_one unit]
    exact_mod_cast small
  have nonneg : (0 : ℚ) ≤ r / d := by positivity
  -- halfway between two whole numbers just if the remainder is half the divisor
  have tie : (r : ℚ) / d = 1 / 2 ↔ 2 * r = d := by
    rw [div_eq_div_iff unit.ne' two_ne_zero, one_mul, mul_comm]
    exact_mod_cast Iff.rfl
  by_cases down : 2 * r < d ∨ (2 * r = d ∧ q % 2 = 0)
  · have half : (r : ℚ) / d ≤ 1 / 2 := by
      rw [div_le_div_iff₀ unit two_pos, one_mul, mul_comm]
      exact_mod_cast (show 2 * r ≤ d by omega)
    rw [if_pos down, Int.cast_natCast, add_sub_cancel_left, abs_of_nonneg nonneg]
    refine ⟨half, fun here => ?_⟩
    have even : q % 2 = 0 := by
      rw [tie] at here
      omega
    exact_mod_cast Nat.even_iff.mpr even
  · have half : 1 / 2 ≤ (r : ℚ) / d := by
      rw [div_le_div_iff₀ two_pos unit, one_mul, mul_comm]
      exact_mod_cast (show d ≤ 2 * r by omega)
    have distance : |(q : ℚ) + r / d - ((q + 1 : ℕ) : ℤ)| = 1 - r / d := by
      push_cast
      rw [abs_sub_comm, abs_of_nonneg] <;> linarith
    rw [if_neg down, distance]
    refine ⟨by linarith, fun here => ?_⟩
    have odd : q % 2 = 1 := by
      have := tie.mp (by linarith)
      omega
    have even : Even (q + 1) := Nat.even_iff.mpr (by omega)
    exact_mod_cast even

namespace Exact

/-- The magnitude of a double as a fraction of whole numbers, with a positive
denominator. -/
theorem magnitude_value (v : Exact) :
    0 < v.magnitude.2 ∧ (v.magnitude.1 : ℚ) / v.magnitude.2 = v.mantissa * 2 ^ v.exponent := by
  obtain ⟨negative, m, e⟩ := v
  unfold magnitude
  by_cases whole : 0 ≤ e
  · obtain ⟨k, rfl⟩ := Int.eq_ofNat_of_zero_le whole
    simp [Nat.shiftLeft_eq]
  · obtain ⟨k, rfl⟩ : ∃ k : ℕ, e = -k := ⟨(-e).toNat, by omega⟩
    simp only [whole, if_false, Int.neg_neg, Int.toNat_natCast, Nat.one_shiftLeft]
    refine ⟨by positivity, ?_⟩
    rw [zpow_neg, zpow_natCast, div_eq_mul_inv, Nat.cast_pow, Nat.cast_two]

/-- The thousandths with their sign. -/
def signedThousandths (v : Exact) : ℤ :=
  if v.negative then -v.thousandths else v.thousandths

/-- **A number is rounded to the nearest thousandth.** -/
theorem nearest_signedThousandths (v : Exact) : Nearest (1000 * v.value) v.signedThousandths := by
  obtain ⟨pos, size⟩ := v.magnitude_value
  have rounded : Nearest (1000 * (v.mantissa * 2 ^ v.exponent)) v.thousandths := by
    have exact := nearest_divHalfEven (v.magnitude.1 * 1000) pos
    rwa [Nat.cast_mul, Nat.cast_ofNat, mul_div_right_comm, size, mul_comm] at exact
  unfold value signedThousandths
  by_cases negative : v.negative = true
  · rw [if_pos negative, if_pos negative, neg_one_mul, mul_neg]
    exact rounded.neg
  · rw [if_neg negative, if_neg negative, one_mul]
    exact rounded

end Exact

/-- **The value of a double**; one that is not finite has none. -/
def exactValue? (x : Float) : Option ℚ :=
  (Exact.ofFloat? x).map Exact.value

/-- The doubles with an exact value are the finite ones. -/
theorem isSome_exactValue? (x : Float) : (exactValue? x).isSome = x.isFinite := by
  rw [exactValue?, Option.isSome_map, Exact.ofFloat?_eq]
  change _ = x.toModel.unpack.isFinite
  cases x.toModel.unpack <;> rfl

/-! ## Digits -/

/-- A digit more is worth ten times what was there, and itself. -/
theorem digitsValue_concat (ds : List Char) (c : Char) :
    digitsValue (ds ++ [c]) = 10 * digitsValue ds + digitValue c := by
  rw [digitsValue, List.foldl_append]
  rfl

/-- Digits are read back as the number they were written for. -/
theorem digitsValue_toDigits (n : ℕ) : digitsValue (Nat.toDigits 10 n) = n := by
  have value : Nat.ofDigitChars 10 (Nat.toDigits 10 n) 0 = n := Nat.ofDigitChars_ten_toDigits
  rwa [Nat.ofDigitChars_eq_foldl] at value

theorem isDigit_of_mem_toDigits {n : ℕ} {c : Char} (mem : c ∈ Nat.toDigits 10 n) :
    isDigit c = true :=
  Nat.isDigit_of_mem_toDigits (by decide) (by decide) mem

/-- **A whole number has no leading zero**, unless it is zero. -/
theorem head_toDigits_ne {n : ℕ} (pos : 0 < n) : (Nat.toDigits 10 n).head? ≠ some '0' := by
  induction n using Nat.strong_induction_on with
  | _ n ih =>
    rw [Nat.toDigits_eq_if (by decide)]
    by_cases single : n < 10
    · rw [if_pos single, List.head?_cons, Ne, Option.some.injEq, Nat.digitChar_eq_zero]
      omega
    · -- the first digit is that of a tenth
      rw [if_neg single, List.head?_append_of_ne_nil _ Nat.toDigits_ne_nil]
      exact ih (n / 10) (by omega) (by omega)

/-- The digit for a number is a digit, and has its value. -/
theorem digit_digitChar (d : ℕ) :
    isDigit (digitChar d) = true ∧ digitValue (digitChar d) = d % 10 := by
  have each : ∀ d : Fin 10, isDigit (Char.ofNat (48 + d)) = true
      ∧ digitValue (Char.ofNat (48 + d)) = d := by decide
  exact each ⟨d % 10, Nat.mod_lt d (by decide)⟩

theorem digitsValue_thousandthDigits {n : ℕ} (below : n < 1000) :
    digitsValue (thousandthDigits n) = n := by
  change 10 * (10 * (10 * 0 + digitValue (digitChar (n / 100))) + digitValue (digitChar (n / 10)))
    + digitValue (digitChar n) = n
  rw [(digit_digitChar _).2, (digit_digitChar _).2, (digit_digitChar _).2]
  omega

/-- The digits after the point, without trailing zeros. -/
def fractionDigits (n : ℕ) : List Char :=
  (thousandthDigits n).rdropWhile (· == '0')

theorem isDigit_of_mem_fractionDigits {n : ℕ} {c : Char} (mem : c ∈ fractionDigits n) :
    isDigit c = true := by
  have listed : c ∈ thousandthDigits n := (List.rdropWhile_prefix _ _).mem mem
  simp only [thousandthDigits, List.mem_cons, List.not_mem_nil, or_false] at listed
  rcases listed with rfl | rfl | rfl <;> exact (digit_digitChar _).1

theorem fractionDigits_length_le (n : ℕ) : (fractionDigits n).length ≤ 3 :=
  (List.rdropWhile_prefix _ (thousandthDigits n)).length_le

theorem getLast?_fractionDigits_ne (n : ℕ) : (fractionDigits n).getLast? ≠ some '0' := by
  intro last
  have present : fractionDigits n ≠ [] := by
    intro empty
    rw [empty] at last
    cases last
  rw [List.getLast?_eq_some_getLast present, Option.some.injEq] at last
  have kept := List.rdropWhile_last_not _ _ present
  rw [show (List.rdropWhile _ _).getLast present = '0' from last] at kept
  exact kept rfl

/-- **Trailing zeros make no difference** to a fraction. The induction is on its digits
from the last one on. -/
theorem fraction_rdropWhile (ds : List Char) :
    (digitsValue (ds.rdropWhile (· == '0')) : ℚ) / 10 ^ (ds.rdropWhile (· == '0')).length
      = digitsValue ds / 10 ^ ds.length := by
  induction ds using List.reverseRecOn with
  | nil => rfl
  | append_singleton ds c ih =>
    rw [List.rdropWhile_concat]
    split
    · rename_i zero
      obtain rfl : c = '0' := by simpa using zero
      have nothing : digitValue '0' = 0 := rfl
      rw [ih, digitsValue_concat, nothing, List.length_append, List.length_singleton, pow_succ]
      push_cast
      field_simp
      ring
    · rfl

/-- Zeros at the end of a fraction add nothing, so leaving them out keeps the value. -/
theorem fractionDigits_value {n : ℕ} (below : n < 1000) :
    (digitsValue (fractionDigits n) : ℚ) / 10 ^ (fractionDigits n).length = n / 1000 := by
  rw [fractionDigits, fraction_rdropWhile, digitsValue_thousandthDigits below]
  norm_num [thousandthDigits]

/-! ## Numerals -/

namespace Numeral

/-- **The number that a numeral stands for.** -/
def decimal (n : Numeral) : ℚ :=
  (if n.sign = some '-' then -1 else 1)
    * (digitsValue n.whole + digitsValue (n.fraction.getD []) / 10 ^ (n.fraction.getD []).length)
    * 10 ^ (n.power.map PowerMark.value).getD 0

/-- **A numeral in canonical form**: an optional minus sign, a whole number without
leading zeros, and optionally a point with one to three digits of which the last is not
zero. There is no power of ten, and zero has no sign. -/
structure Canonical (n : Numeral) : Prop where
  sign : n.sign = none ∨ n.sign = some '-'
  whole : n.whole ≠ [] ∧ ∀ c ∈ n.whole, isDigit c = true
  leading : n.whole.head? = some '0' → n.whole = ['0']
  fraction : ∀ ds ∈ n.fraction, (∀ c ∈ ds, isDigit c = true) ∧ 1 ≤ ds.length ∧ ds.length ≤ 3
    ∧ ds.getLast? ≠ some '0'
  power : n.power = none
  nonzero : n.sign = some '-' → n.whole = ['0'] → n.fraction ≠ none

end Numeral

/-- The digits after the point, if there are any. -/
def fraction? (n : ℕ) : Option (List Char) :=
  if fractionDigits n = [] then none else some (fractionDigits n)

/-- A number without thousandths has no fraction, rather than an empty one. -/
theorem getD_fraction? (n : ℕ) : (fraction? n).getD [] = fractionDigits n := by
  unfold fraction?
  split
  · rename_i empty
    exact empty.symm
  · rfl

/-- The text of a fraction is the point and the digits, or nothing. -/
theorem toList_fractionText (n : ℕ) :
    (fractionText n).toList = Numeral.pointText (fraction? n) := by
  unfold fractionText fraction?
  split
  · rename_i empty
    have empty : fractionDigits n = [] := empty
    rw [if_pos empty]
    rfl
  · rename_i present
    have present : fractionDigits n ≠ [] := present
    rw [if_neg present, String.toList_ofList]
    rfl

/-- **The numeral of a whole number of thousandths.** -/
def thousandthsNumeral (k : ℤ) : Numeral where
  sign := if k < 0 then some '-' else none
  whole := Nat.toDigits 10 (k.natAbs / 1000)
  fraction := fraction? (k.natAbs % 1000)
  power := none

/-- The numeral for so many thousandths stands for them. -/
theorem decimal_thousandthsNumeral (k : ℤ) : (thousandthsNumeral k).decimal = k / 1000 := by
  have below : k.natAbs % 1000 < 1000 := Nat.mod_lt _ (by decide)
  have size : ((k.natAbs / 1000 : ℕ) : ℚ) + ((k.natAbs % 1000 : ℕ) : ℚ) / 1000
      = |(k : ℚ)| / 1000 := by
    have parts : ((1000 * (k.natAbs / 1000) + k.natAbs % 1000 : ℕ) : ℚ) = |(k : ℚ)| := by
      rw [Nat.div_add_mod, Nat.cast_natAbs, Int.cast_abs]
    rw [← parts]
    push_cast
    field_simp
  rw [Numeral.decimal, thousandthsNumeral, digitsValue_toDigits, getD_fraction?,
    fractionDigits_value below, size]
  by_cases negative : k < 0
  · have sign : (k : ℚ) < 0 := by exact_mod_cast negative
    rw [if_pos negative, abs_of_neg sign]
    simp
    ring
  · have sign : (0 : ℚ) ≤ k := by exact_mod_cast not_lt.mp negative
    rw [if_neg negative, abs_of_nonneg sign]
    simp

/-- **The numeral for thousandths is canonical**: no power, no leading zeros, no zeros
at the end, and no sign before zero. -/
theorem canonical_thousandthsNumeral (k : ℤ) : (thousandthsNumeral k).Canonical where
  sign := by
    unfold thousandthsNumeral
    dsimp only
    split
    · exact .inr rfl
    · exact .inl rfl
  whole := ⟨Nat.toDigits_ne_nil, fun _ => isDigit_of_mem_toDigits⟩
  leading := by
    intro zero
    by_contra other
    have pos : 0 < k.natAbs / 1000 := by
      by_contra small
      refine other ?_
      rw [thousandthsNumeral, show k.natAbs / 1000 = 0 by omega]
      rfl
    exact head_toDigits_ne pos zero
  fraction := by
    intro ds mem
    unfold thousandthsNumeral fraction? at mem
    dsimp only at mem
    split at mem
    · cases mem
    · rename_i present
      cases mem
      exact ⟨fun _ => isDigit_of_mem_fractionDigits, List.length_pos_iff.mpr present,
        fractionDigits_length_le _, getLast?_fractionDigits_ne _⟩
  power := rfl
  nonzero := by
    intro signed zero whole
    have negative : k < 0 := by
      by_contra other
      rw [thousandthsNumeral, if_neg other] at signed
      cases signed
    -- without digits the numeral would stand for zero
    have nothing : (thousandthsNumeral k).decimal = 0 := by
      rw [Numeral.decimal, zero, whole]
      simp [digitsValue, digitValue]
    rw [decimal_thousandthsNumeral, div_eq_zero_iff, or_iff_left (by norm_num)] at nothing
    exact absurd (by exact_mod_cast nothing) negative.ne

/-! ## Reading -/

namespace Numeral.Canonical

variable {n : Numeral}

theorem wellFormed (h : n.Canonical) : n.WellFormed where
  sign := by
    intro c mem
    rcases h.sign with unsigned | minus
    · rw [unsigned] at mem
      cases mem
    · rw [minus] at mem
      cases mem
      rfl
  whole := h.whole.2
  fraction := fun ds mem => (h.fraction ds mem).1
  present := .inl h.whole.1
  power := by simp [h.power]

/-- **A canonical numeral is read as what it is**, and nothing is left. -/
theorem take?_text (h : n.Canonical) : take? n.text = some (n, []) := by
  have text : n.text = n.sign.toList ++ (n.whole ++ (pointText n.fraction ++ [])) := by
    rw [text_eq, h.power]
    rfl
  -- the sign ends where a digit or the point begins
  have signed : takeSign n.text = (n.sign, n.whole ++ (pointText n.fraction ++ [])) := by
    rw [text]
    refine takeSign_append_of_head h.wellFormed.sign fun c head => ?_
    obtain ⟨c', head', digit | rfl⟩ := h.wellFormed.head_unsigned []
    · obtain rfl : c' = c := Option.mem_unique head' head
      exact isSign_of_isDigit digit
    · obtain rfl : '.' = c := Option.mem_unique head' head
      rfl
  have present : n.whole.isEmpty = false := List.isEmpty_eq_false_iff.mpr h.whole.1
  obtain ⟨sign, whole, fraction, power⟩ := n
  obtain rfl : power = none := h.power
  rw [List.append_nil] at signed
  cases fraction with
  | none =>
    have run : takeRun isDigit (whole ++ []) = (whole, []) := takeRun_eq h.whole.2 (by simp)
    simp only [take?, signed, pointText, run, present, Bool.false_eq_true, if_false]
    rfl
  | some ds =>
    have run : takeRun isDigit (whole ++ '.' :: ds) = (whole, '.' :: ds) :=
      takeRun_eq h.whole.2 (by rintro _ ⟨⟩; rfl)
    have rest : takeRun isDigit (ds ++ []) = (ds, []) :=
      takeRun_eq (h.fraction ds rfl).1 (by simp)
    rw [List.append_nil] at rest
    simp only [take?, signed, pointText, run, rest, present, Bool.false_and, Bool.false_eq_true,
      if_false]
    rfl

/-- It has the form of a plain decimal. -/
theorem plainDecimal (h : n.Canonical) :
    (TextPattern.plainDecimal TextPattern.digits).Matches n.text := by
  rw [matches_plainDecimal, text_eq, h.power]
  simp only [TextPattern.mem_digits]
  have minus : n.sign.toList = [] ∨ n.sign.toList = ['-'] := by
    rcases h.sign with unsigned | minus
    · exact .inl (by rw [unsigned]; rfl)
    · exact .inr (by rw [minus]; rfl)
  cases fraction : n.fraction with
  | none => exact ⟨_, n.whole, [], [], minus, h.whole, .inl rfl, by simp, rfl⟩
  | some ds =>
    refine ⟨_, n.whole, ['.'], ds, minus, h.whole, .inr rfl, (h.fraction ds fraction).1, ?_⟩
    simp [pointText, powerText]

/-- **It is accepted as a number**, with the value of the numeral. -/
theorem textNumber?_eq {s : String} (h : n.Canonical) (written : s.toList = n.text) :
    textNumber? s = some n.value := by
  rw [textNumber?_eq_some_iff, written]
  refine ⟨h.plainDecimal, ?_⟩
  rw [read?, h.take?_text]

end Numeral.Canonical

/-! ## Number texts -/

/-- The text of a whole number of thousandths, with its sign. -/
def signedText (k : ℤ) : String :=
  thousandthsText (decide (k < 0)) k.natAbs

theorem toList_signedText (k : ℤ) : (signedText k).toList = (thousandthsNumeral k).text := by
  rw [Numeral.text_eq]
  unfold signedText thousandthsText thousandthsNumeral
  by_cases negative : k < 0
  · have nonzero : decide (k < 0) = true ∧ k.natAbs ≠ 0 := ⟨decide_eq_true negative, by omega⟩
    dsimp only
    rw [if_pos nonzero, if_pos negative, String.toList_append, String.toList_append,
      toList_fractionText, Nat.repr_eq_ofList_toDigits, String.toList_ofList]
    simp [Numeral.powerText]
  · have positive : ¬ (decide (k < 0) = true ∧ k.natAbs ≠ 0) :=
      fun h => negative (of_decide_eq_true h.1)
    dsimp only
    rw [if_neg positive, if_neg negative, String.toList_append, toList_fractionText,
      Nat.repr_eq_ofList_toDigits, String.toList_ofList]
    simp [Numeral.powerText]

/-- **Different thousandths have different texts.** -/
theorem signedText_injective : Function.Injective signedText := by
  intro j k same
  have read : Numeral.take? (signedText j).toList = Numeral.take? (signedText k).toList := by
    rw [same]
  rw [toList_signedText, toList_signedText, (canonical_thousandthsNumeral j).take?_text,
    (canonical_thousandthsNumeral k).take?_text, Option.some.injEq, Prod.mk.injEq] at read
  have value := congrArg Numeral.decimal read.1
  rw [decimal_thousandthsNumeral, decimal_thousandthsNumeral] at value
  have : (j : ℚ) = k := by linarith
  exact_mod_cast this

/-- The text of a finite number is that of its thousandths, rounded. -/
theorem numberText_of_exact {x : Float} {v : Exact} (is : Exact.ofFloat? x = some v) :
    numberText x = signedText v.signedThousandths := by
  simp only [numberText, is]
  unfold signedText Exact.signedThousandths thousandthsText
  by_cases negative : v.negative = true
  · rw [negative, if_pos rfl, Int.natAbs_neg, Int.natAbs_natCast]
    by_cases zero : v.thousandths = 0
    · rw [zero]
      rfl
    · have below : -(v.thousandths : ℤ) < 0 := by omega
      rw [if_pos ⟨rfl, zero⟩, if_pos ⟨decide_eq_true below, zero⟩]
  · have above : ¬ (v.thousandths : ℤ) < 0 := by omega
    rw [if_neg negative, Int.natAbs_natCast, if_neg (fun h => negative h.1),
      if_neg (fun h => above (of_decide_eq_true h.1))]

/-- **The text of a number** is that of its nearest thousandth. -/
theorem numberText_of_nearest {x : Float} {q : ℚ} {k : ℤ} (value : exactValue? x = some q)
    (nearest : Nearest (1000 * q) k) : numberText x = signedText k := by
  obtain ⟨v, is, rfl⟩ := Option.map_eq_some_iff.mp value
  rw [numberText_of_exact is, v.nearest_signedThousandths.unique nearest]

/-- A number that is not finite is written as zero. -/
theorem numberText_of_none {x : Float} (infinite : exactValue? x = none) :
    numberText x = signedText 0 := by
  simp only [numberText, Option.map_eq_none_iff.mp infinite]
  rfl

/-- Every number has the text of some thousandths: none if it is not finite, and else the
nearest ones. -/
theorem exists_thousandths (x : Float) : ∃ k : ℤ, numberText x = signedText k
    ∧ (exactValue? x = none → k = 0) ∧ ∀ q, exactValue? x = some q → Nearest (1000 * q) k := by
  cases value : exactValue? x with
  | none =>
    refine ⟨0, numberText_of_none value, fun _ => rfl, ?_⟩
    intro q other
    cases other
  | some q =>
    obtain ⟨v, is, rfl⟩ := Option.map_eq_some_iff.mp value
    refine ⟨v.signedThousandths, numberText_of_exact is, ?_, ?_⟩
    · intro infinite
      cases infinite
    · intro q same
      cases same
      exact v.nearest_signedThousandths

/-- The characters of a text are those of a numeral. -/
theorem isNumeral_numberText (x : Float) : IsNumeral (numberText x).toList := by
  obtain ⟨k, text, -, -⟩ := exists_thousandths x
  exact ⟨thousandthsNumeral k, (canonical_thousandthsNumeral k).wellFormed,
    by rw [text, toList_signedText]⟩

/-- **Numbers are written in one way, and rounded correctly.** The text of every double
is a canonical numeral. It stands for zero if the double is not finite, and otherwise
for the nearest thousandth of its value, halfway between two for the even one; so for
the value itself if that is whole. Two finite doubles have the same text exactly if they
have the same nearest thousandth. As an operand, the text is accepted as a number. -/
theorem numbers_written_canonically (x : Float) :
    ∃ n : Numeral, n.Canonical ∧ (numberText x).toList = n.text
      ∧ (x.isFinite = false → n.decimal = 0)
      ∧ (x.isFinite = true →
        ∃ q k, exactValue? x = some q ∧ Nearest (1000 * q) k ∧ n.decimal = k / 1000)
      ∧ (∀ i : ℤ, exactValue? x = some (i : ℚ) → n.decimal = i)
      ∧ (∀ (y : Float) (q r : ℚ), exactValue? x = some q → exactValue? y = some r →
        (numberText x = numberText y ↔ ∃ k, Nearest (1000 * q) k ∧ Nearest (1000 * r) k))
      ∧ ∀ operand : Value, operand = .text (numberText x) ∨ operand = .name (numberText x) →
        operand.number? = some n.value := by
  obtain ⟨k, text, infinite, finite⟩ := exists_thousandths x
  have canonical := canonical_thousandthsNumeral k
  have written : (numberText x).toList = (thousandthsNumeral k).text := by
    rw [text, toList_signedText]
  have value := decimal_thousandthsNumeral k
  refine ⟨thousandthsNumeral k, canonical, written, ?_, ?_, ?_, ?_, ?_⟩
  · intro other
    rw [← isSome_exactValue?, Option.isSome_eq_false_iff, Option.isNone_iff_eq_none] at other
    rw [value, infinite other, Int.cast_zero, zero_div]
  · intro isFinite
    rw [← isSome_exactValue?, Option.isSome_iff_exists] at isFinite
    obtain ⟨q, is⟩ := isFinite
    exact ⟨q, k, is, finite q is, value⟩
  · intro i whole
    have nearest := nearest_self (1000 * i)
    push_cast at nearest
    rw [value, (finite i whole).unique nearest]
    push_cast
    ring
  · intro y q r isX isY
    constructor
    · -- a text has the sign and the digits of one number of thousandths only
      intro same
      obtain ⟨j, textY, -, finiteY⟩ := exists_thousandths y
      rw [text, textY] at same
      rw [← signedText_injective same] at finiteY
      exact ⟨k, finite q isX, finiteY r isY⟩
    · rintro ⟨j, nearestX, nearestY⟩
      rw [numberText_of_nearest isX nearestX, numberText_of_nearest isY nearestY]
  · rintro operand (rfl | rfl)
    · exact canonical.textNumber?_eq written
    · exact canonical.textNumber?_eq written

/-- Two ties, a number that rounds to zero, and a large whole one. -/
example : numberText 0.0625 = "0.062" ∧ numberText (-0.1875) = "-0.188"
    ∧ numberText (-0.0001) = "0" ∧ numberText 1e25 = "10000000000000000905969664" := by
  decide +kernel

end VectorPage
