import Mathlib.Data.Int.Log
import Mathlib.Data.List.DropRight
import Mathlib.Data.Rat.Floor
import OtNode.Lib.Utf

/-! `Number` of a string.

    White space around it does not count, and nothing at all is zero. What is left is an integer
    with its radix, or a decimal with a sign, a fraction and an exponent, and is rounded to the
    nearest double, of two the one with the even significand. Every other string is no number. -/

namespace OtNode

open Utf

/-- A double. The two zeros are one. -/
inductive JsNumber where
  | nan
  | infinity (negative : Bool)
  | finite (value : ℚ)
  deriving DecidableEq

namespace JsNumber

/-- `Number.isNaN`. -/
def isNaN : JsNumber → Bool
  | nan => true
  | _ => false

def neg : JsNumber → JsNumber
  | nan => nan
  | infinity negative => infinity !negative
  | finite value => finite (-value)

/-! ### Rounding -/

/-- The nearest integer, of two the even one. -/
def roundEven (q : ℚ) : ℤ :=
  if q - ⌊q⌋ < 1 / 2 then ⌊q⌋
  else if 1 / 2 < q - ⌊q⌋ then ⌊q⌋ + 1
  else if ⌊q⌋ % 2 = 0 then ⌊q⌋ else ⌊q⌋ + 1

/-- The exponent of the last of the 53 bits of a double, which does not go below that of the
    subnormals. -/
def lastExponent (q : ℚ) : ℤ := max (Int.log 2 |q| - 52) (-1074)

/-- The nearest double. -/
def round (q : ℚ) : JsNumber :=
  let value := roundEven (q / 2 ^ lastExponent q) * (2 : ℚ) ^ lastExponent q
  if 2 ^ 1024 ≤ |value| then infinity (decide (q < 0)) else finite value

/-! ### The grammar -/

/-- White space and line terminators. -/
def isSpace (c : UInt16) : Bool :=
  decide (9 ≤ c.toNat ∧ c.toNat ≤ 13 ∨ 0x2000 ≤ c.toNat ∧ c.toNat ≤ 0x200A ∨
    c.toNat ∈ [0x20, 0xA0, 0x1680, 0x2028, 0x2029, 0x202F, 0x205F, 0x3000, 0xFEFF])

/-- The string without the white space around it. -/
def trim (s : JsString) : JsString := (s.dropWhile isSpace).rdropWhile isSpace

/-- A decimal digit. -/
def isDigit (c : UInt16) : Bool := decide (48 ≤ c.toNat) && decide (c.toNat ≤ 57)

/-- The value of a digit. What is none has a value that no radix has. -/
def digitValue (c : UInt16) : ℕ :=
  if isDigit c then c.toNat - 48
  else if 97 ≤ c.toNat ∧ c.toNat ≤ 102 then c.toNat - 87
  else if 65 ≤ c.toNat ∧ c.toNat ≤ 70 then c.toNat - 55
  else 16

/-- An integer in digits of a radix. -/
def natOf (radix : ℕ) (s : JsString) : Option ℕ :=
  if s ≠ [] ∧ s.all (fun c => decide (digitValue c < radix)) then
    some (s.foldl (radix * · + digitValue ·) 0)
  else none

/-- The radix after a leading zero. -/
def radixOf (c : UInt16) : Option ℕ :=
  if c = unit 'x' ∨ c = unit 'X' then some 16
  else if c = unit 'o' ∨ c = unit 'O' then some 8
  else if c = unit 'b' ∨ c = unit 'B' then some 2
  else none

/-- The sign of an exponent, and its digits. -/
def signedExponent : JsString → Option ℤ
  | [] => none
  | c :: s =>
    if c = unit '+' then (natOf 10 s).map fun n => (n : ℤ)
    else if c = unit '-' then (natOf 10 s).map fun n => -(n : ℤ)
    else (natOf 10 (c :: s)).map fun n => (n : ℤ)

/-- The exponent, if there is one. -/
def exponentPart : JsString → Option ℤ
  | [] => some 0
  | c :: s => if c = unit 'e' ∨ c = unit 'E' then signedExponent s else none

/-- The digits of the fraction, and what follows. -/
def fractionPart : JsString → JsString × JsString
  | [] => ([], [])
  | c :: s => if c = unit '.' then (s.takeWhile isDigit, s.dropWhile isDigit) else ([], c :: s)

/-- A decimal without a sign. -/
def decimal (s : JsString) : Option ℚ :=
  let whole := s.takeWhile isDigit
  let (fraction, rest) := fractionPart (s.dropWhile isDigit)
  match natOf 10 (whole ++ fraction), exponentPart rest with
  | some digits, some exponent => some (digits * (10 : ℚ) ^ (exponent - fraction.length))
  | _, _ => none

/-- A decimal literal without a sign. -/
def unsigned (s : JsString) : JsNumber :=
  if s = units "Infinity" then infinity false
  else match decimal s with
    | some value => round value
    | none => nan

/-- A numeric literal without white space around it. -/
def literal : JsString → JsNumber
  | [] => finite 0
  | c :: s =>
    match if c = unit '0' then s.head?.bind radixOf else none with
    | some radix =>
      match natOf radix s.tail with
      | some value => round value
      | none => nan
    | none =>
      if c = unit '+' then unsigned s
      else if c = unit '-' then (unsigned s).neg
      else unsigned (c :: s)

/-- `Number(s)`. -/
def ofString (s : JsString) : JsNumber := literal (trim s)

/-! ### Integers are doubles -/

theorem roundEven_intCast (n : ℤ) : roundEven n = n := by
  rw [roundEven, Int.floor_intCast, if_pos (by norm_num)]

/-- An integer of 53 bits is not rounded. -/
theorem round_natCast {n : ℕ} (h : n < 2 ^ 53) : round n = finite n := by
  obtain ⟨k, hk⟩ : ∃ k : ℕ, lastExponent n = -(k : ℤ) := by
    have hlog : Int.log 2 |(n : ℚ)| ≤ 52 := by
      rw [Nat.abs_cast, Int.log_natCast]
      exact_mod_cast Nat.lt_succ_iff.mp (Nat.log_lt_of_lt_pow' (by norm_num) h)
    refine ⟨(-lastExponent n).toNat, ?_⟩
    rw [Int.toNat_of_nonneg, neg_neg]
    rw [lastExponent, Left.nonneg_neg_iff]
    exact max_le (by omega) (by norm_num)
  have hscaled : (n : ℚ) / 2 ^ lastExponent n = ((n * 2 ^ k : ℕ) : ℤ) := by
    rw [hk, zpow_neg, zpow_natCast, div_inv_eq_mul]
    push_cast
    rfl
  have hvalue : ((roundEven ((n : ℚ) / 2 ^ lastExponent n) : ℤ) : ℚ) * 2 ^ lastExponent n = n := by
    rw [hscaled, roundEven_intCast, ← hscaled, div_mul_cancel₀ _ (zpow_ne_zero _ two_ne_zero)]
  have hsmall : |(n : ℚ)| < 2 ^ 1024 := by
    rw [Nat.abs_cast]
    calc (n : ℚ) < 2 ^ 53 := by exact_mod_cast h
      _ ≤ 2 ^ 1024 := pow_le_pow_right₀ (by norm_num) (by norm_num)
  rw [round, hvalue, if_neg (not_le.mpr hsmall)]

/-! ### Digits -/

/-- The hexadecimal digits. -/
theorem digitValue_lt_iff {c : UInt16} : digitValue c < 16 ↔ 48 ≤ c.toNat ∧ c.toNat ≤ 57 ∨
    97 ≤ c.toNat ∧ c.toNat ≤ 102 ∨ 65 ≤ c.toNat ∧ c.toNat ≤ 70 := by
  simp only [digitValue, isDigit, Bool.and_eq_true, decide_eq_true_eq]
  split_ifs <;> omega

theorem natOf_of_digits {s : JsString} (hne : s ≠ []) (h : ∀ c ∈ s, isDigit c = true) :
    natOf 10 s = some (s.foldl (10 * · + digitValue ·) 0) := by
  refine if_pos ⟨hne, List.all_eq_true.mpr fun c hc => decide_eq_true ?_⟩
  have hdigit := h c hc
  rw [digitValue, if_pos hdigit]
  simp only [isDigit, Bool.and_eq_true, decide_eq_true_eq] at hdigit
  omega

theorem isSpace_of_isDigit {c : UInt16} (h : isDigit c = true) : isSpace c = false := by
  simp only [isDigit, Bool.and_eq_true, decide_eq_true_eq] at h
  simp only [isSpace, decide_eq_false_iff_not, List.mem_cons, List.not_mem_nil, or_false]
  omega

/-- A string without white space is not trimmed. -/
theorem trim_eq_self {s : JsString} (h : ∀ c ∈ s, isSpace c = false) : trim s = s := by
  have hdrop : s.dropWhile isSpace = s := by
    cases s with
    | nil => rfl
    | cons c s => rw [List.dropWhile_cons_of_neg (by simp [h c])]
  rw [trim, hdrop, List.rdropWhile_eq_self_iff]
  intro hne
  simp [h _ (List.getLast_mem hne)]

theorem radixOf_of_isDigit {c : UInt16} (h : isDigit c = true) : radixOf c = none := by
  have hne : ∀ d, isDigit d = false → c ≠ d := by
    rintro d hd rfl
    rw [h] at hd
    cases hd
  simp [radixOf, hne _ (show isDigit (unit 'x') = false by decide),
    hne _ (show isDigit (unit 'X') = false by decide),
    hne _ (show isDigit (unit 'o') = false by decide),
    hne _ (show isDigit (unit 'O') = false by decide),
    hne _ (show isDigit (unit 'b') = false by decide),
    hne _ (show isDigit (unit 'B') = false by decide)]

/-- The number of a string of digits. -/
theorem ofString_of_digits {s : JsString} (hne : s ≠ []) (h : ∀ c ∈ s, isDigit c = true) :
    ofString s = round (s.foldl (10 * · + digitValue ·) 0 : ℕ) := by
  have hdrop : s.dropWhile isDigit = [] := List.dropWhile_eq_nil_iff.mpr h
  have htake : s.takeWhile isDigit = s := List.takeWhile_eq_self_iff.mpr h
  have hdecimal : decimal s = some ((s.foldl (10 * · + digitValue ·) 0 : ℕ) : ℚ) := by
    simp [decimal, hdrop, htake, fractionPart, exponentPart, natOf_of_digits hne h]
  have hunsigned : unsigned s = round (s.foldl (10 * · + digitValue ·) 0 : ℕ) := by
    rw [unsigned, if_neg, hdecimal]
    rintro rfl
    exact absurd (h (unit 'I') (by decide)) (by decide)
  rw [ofString, trim_eq_self fun c hc => isSpace_of_isDigit (h c hc), ← hunsigned]
  cases s with
  | nil => contradiction
  | cons c s =>
    have hc := h c List.mem_cons_self
    have hradix : s.head?.bind radixOf = none := by
      cases s with
      | nil => rfl
      | cons d s => exact radixOf_of_isDigit (h d (by simp))
    have hplus : c ≠ unit '+' := by
      rintro rfl
      exact absurd hc (by decide)
    have hminus : c ≠ unit '-' := by
      rintro rfl
      exact absurd hc (by decide)
    simp only [literal, hradix, ite_self, if_neg hplus, if_neg hminus]

/-- The digits of a number, as a template literal has them. -/
def digits (n : ℕ) : JsString := units (toString n)

theorem digits_eq (n : ℕ) : digits n = (Nat.toDigits 10 n).map unit := by
  rw [digits, units, Nat.toString_eq_repr, Nat.toList_repr]
  rfl

theorem digits_ne_nil (n : ℕ) : digits n ≠ [] := by
  rw [digits_eq, ne_eq, List.map_eq_nil_iff]
  exact Nat.toDigits_ne_nil

/-- The value of the unit of a decimal digit. -/
theorem digitValue_unit {c : Char} (h : c.isDigit = true) :
    isDigit (unit c) = true ∧ digitValue (unit c) = c.toNat - 48 := by
  obtain ⟨hlow, hhigh⟩ : 48 ≤ c.toNat ∧ c.toNat ≤ 57 := by
    simpa [Char.isDigit, UInt32.le_iff_toNat_le] using h
  have hunit : (unit c).toNat = c.toNat := toNat_ofNat_of_lt (by omega)
  have hdigit : isDigit (unit c) = true := by
    simp [isDigit, hunit, hlow, hhigh]
  rw [digitValue, if_pos hdigit, hunit]
  exact ⟨hdigit, rfl⟩

theorem isDigit_of_mem_digits {n : ℕ} {c : UInt16} (h : c ∈ digits n) : isDigit c = true := by
  rw [digits_eq] at h
  obtain ⟨digit, hmem, rfl⟩ := List.mem_map.mp h
  exact (digitValue_unit (Nat.isDigit_of_mem_toDigits (by decide) (by decide) hmem)).1

theorem foldl_digits {s : List Char} (h : ∀ c ∈ s, c.isDigit = true) (n : ℕ) :
    (s.map unit).foldl (10 * · + digitValue ·) n = Nat.ofDigitChars 10 s n := by
  induction s generalizing n with
  | nil => rfl
  | cons c s ih =>
    rw [List.map_cons, List.foldl_cons, Nat.ofDigitChars_cons, (digitValue_unit (h c (by simp))).2]
    exact ih (fun d hd => h d (by simp [hd])) _

/-- ROUND TRIP: the number of the digits of an integer of 53 bits is that integer. -/
theorem ofString_digits {n : ℕ} (h : n < 2 ^ 53) : ofString (digits n) = finite n := by
  have hdigits : ∀ c ∈ Nat.toDigits 10 n, c.isDigit = true :=
    fun c hc => Nat.isDigit_of_mem_toDigits (by decide) (by decide) hc
  rw [ofString_of_digits (digits_ne_nil n) fun c hc => isDigit_of_mem_digits hc, digits_eq,
    foldl_digits hdigits, Nat.ofDigitChars_ten_toDigits, round_natCast h]

theorem one_le_roundEven {q : ℚ} (h : 1 ≤ q) : 1 ≤ roundEven q := by
  have hfloor : 1 ≤ ⌊q⌋ := Int.le_floor.mpr (by exact_mod_cast h)
  rw [roundEven]
  split_ifs <;> omega

/-- Only zero is rounded to zero, among integers. -/
theorem round_natCast_eq_zero_iff {n : ℕ} : round n = finite 0 ↔ n = 0 := by
  refine ⟨fun h => ?_, fun h => by rw [h, round_natCast (by norm_num)]; rfl⟩
  by_contra hne
  have hpos : (1 : ℚ) ≤ n := by exact_mod_cast Nat.one_le_iff_ne_zero.mpr hne
  have hexponent : lastExponent n ≤ Int.log 2 (n : ℚ) := by
    have hlog : 0 ≤ Int.log 2 (n : ℚ) := by
      rw [Int.log_natCast]
      exact Int.natCast_nonneg _
    rw [lastExponent, Nat.abs_cast]
    omega
  have hpow : (0 : ℚ) < 2 ^ lastExponent n := zpow_pos (by norm_num) _
  have hscaled : (1 : ℚ) ≤ n / 2 ^ lastExponent n := by
    rw [one_le_div hpow]
    have hlog := Int.zpow_log_le_self (b := 2) (by norm_num) (lt_of_lt_of_le one_pos hpos)
    calc (2 : ℚ) ^ lastExponent n
      _ ≤ 2 ^ Int.log 2 (n : ℚ) := zpow_le_zpow_right₀ (by norm_num) hexponent
      _ ≤ n := by simpa only [Nat.cast_ofNat] using hlog
  have hvalue : (0 : ℚ) < roundEven (n / 2 ^ lastExponent n) * 2 ^ lastExponent n :=
    mul_pos (by exact_mod_cast one_le_roundEven hscaled) hpow
  simp only [round] at h
  split_ifs at h
  exact hvalue.ne' (finite.inj h)

theorem isNaN_round (q : ℚ) : (round q).isNaN = false := by
  simp only [round]
  split_ifs <;> rfl

/-! ### What is no number -/

theorem mem_dropWhile {p : UInt16 → Bool} {c : UInt16} {s : JsString} (h : p c = false)
    (hc : c ∈ s) : c ∈ s.dropWhile p := by
  rw [← List.takeWhile_append_dropWhile (p := p) (l := s), List.mem_append] at hc
  refine hc.resolve_left ?_
  intro hmem
  rw [List.mem_takeWhile_imp hmem] at h
  cases h

theorem mem_trim {c : UInt16} {s : JsString} (h : isSpace c = false) (hc : c ∈ s) : c ∈ trim s :=
  List.mem_reverse.mpr (mem_dropWhile h (List.mem_reverse.mpr (mem_dropWhile h hc)))

/-- A unit that a numeric literal can have. -/
def isNumeral (c : UInt16) : Bool :=
  decide (digitValue c < 16) || (units "xXoO+-.Infity").contains c

theorem ne_of_isNumeral {c d : UInt16} (h : isNumeral c = false) (hd : isNumeral d = true) :
    d ≠ c := by
  rintro rfl
  rw [h] at hd
  cases hd

theorem natOf_eq_none {radix : ℕ} (hradix : radix ≤ 16) {s : JsString} {c : UInt16} (hc : c ∈ s)
    (h : isNumeral c = false) : natOf radix s = none := by
  refine if_neg ?_
  intro hdigits
  have hvalue : digitValue c < 16 :=
    lt_of_lt_of_le (of_decide_eq_true (List.all_eq_true.mp hdigits.2 c hc)) hradix
  rw [isNumeral, decide_eq_true hvalue] at h
  cases h

theorem radixOf_le {c : UInt16} {radix : ℕ} (h : radixOf c = some radix) : radix ≤ 16 := by
  unfold radixOf at h
  split_ifs at h <;> simp only [Option.some.injEq] at h <;> omega

section

variable {s : JsString} {c : UInt16} (h : isNumeral c = false)

include h

theorem mem_of_mem_cons {d : UInt16} (hd : isNumeral d = true) (hc : c ∈ d :: s) : c ∈ s :=
  (List.mem_cons.mp hc).resolve_left (ne_of_isNumeral h hd).symm

theorem signedExponent_eq_none (hc : c ∈ s) : signedExponent s = none := by
  cases s with
  | nil => rfl
  | cons d s =>
    simp only [signedExponent]
    split_ifs with hplus hminus
    · rw [natOf_eq_none (by decide) (mem_of_mem_cons h (by rw [hplus]; decide) hc) h]
      rfl
    · rw [natOf_eq_none (by decide) (mem_of_mem_cons h (by rw [hminus]; decide) hc) h]
      rfl
    · rw [natOf_eq_none (by decide) hc h]
      rfl

theorem exponentPart_eq_none (hc : c ∈ s) : exponentPart s = none := by
  cases s with
  | nil => cases hc
  | cons d s =>
    simp only [exponentPart]
    split_ifs with he
    · have hd : isNumeral d = true := by rcases he with rfl | rfl <;> decide
      exact signedExponent_eq_none h (mem_of_mem_cons h hd hc)
    · rfl

theorem isDigit_eq_false : isDigit c = false := by
  rw [← Bool.not_eq_true]
  intro hdigit
  have hvalue : digitValue c < 16 := by
    simp only [isDigit, Bool.and_eq_true, decide_eq_true_eq] at hdigit
    exact digitValue_lt_iff.mpr (.inl hdigit)
  rw [isNumeral, decide_eq_true hvalue] at h
  cases h

theorem mem_fractionPart (hc : c ∈ s) : c ∈ (fractionPart s).2 := by
  cases s with
  | nil => cases hc
  | cons d s =>
    simp only [fractionPart]
    split_ifs with hdot
    · exact mem_dropWhile (isDigit_eq_false h) (mem_of_mem_cons h (by rw [hdot]; decide) hc)
    · exact hc

theorem unsigned_eq_nan (hc : c ∈ s) : unsigned s = nan := by
  have hdecimal : decimal s = none := by
    have hmem := mem_fractionPart h (mem_dropWhile (isDigit_eq_false h) hc)
    simp only [decimal, exponentPart_eq_none h hmem]
    generalize natOf 10 _ = digits
    cases digits <;> rfl
  rw [unsigned, if_neg, hdecimal]
  rintro rfl
  have hnumeral : (units "Infinity").all isNumeral = true := by decide
  rw [List.all_eq_true.mp hnumeral c hc] at h
  cases h

theorem literal_eq_nan (hc : c ∈ s) : literal s = nan := by
  cases s with
  | nil => cases hc
  | cons d s =>
    rw [literal]
    cases hradix : (if d = unit '0' then s.head?.bind radixOf else none) with
    | some radix =>
      split_ifs at hradix with hzero
      have hmem : c ∈ s := mem_of_mem_cons h (by rw [hzero]; decide) hc
      cases s with
      | nil => cases hmem
      | cons x s =>
        have hx : radixOf x = some radix := hradix
        have hnumeral : isNumeral x = true := by
          unfold radixOf at hx
          split_ifs at hx with h1 h2 h3
          · rcases h1 with rfl | rfl <;> decide
          · rcases h2 with rfl | rfl <;> decide
          · rcases h3 with rfl | rfl <;> decide
        have hdigits : c ∈ s := mem_of_mem_cons h hnumeral hmem
        simp only [List.tail_cons, natOf_eq_none (radixOf_le hx) hdigits h]
    | none =>
      simp only
      split_ifs with hplus hminus
      · exact unsigned_eq_nan h (mem_of_mem_cons h (by rw [hplus]; decide) hc)
      · rw [unsigned_eq_nan h (mem_of_mem_cons h (by rw [hminus]; decide) hc)]
        rfl
      · exact unsigned_eq_nan h hc

/-- A string with a unit that no numeric literal has is no number. -/
theorem ofString_eq_nan (hspace : isSpace c = false) (hc : c ∈ s) : ofString s = nan :=
  literal_eq_nan h (mem_trim hspace hc)

end

end JsNumber

end OtNode
