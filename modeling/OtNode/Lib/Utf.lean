import Mathlib.Data.UInt
import Mathlib.Data.List.Basic
import Mathlib.Tactic.Common

/-! UTF-16 strings through UTF-8 bytes.

    A string is a list of code units, in which surrogates need not be paired. Encoding to UTF-8
    replaces the ones that are not, and decoding replaces bytes that are no UTF-8, by U+FFFD. Text that
    is cut into pieces before it is encoded comes back with the pairs replaced that were cut. -/

namespace OtNode.Utf

/-- A string: its UTF-16 code units. -/
abbrev JsString := List UInt16

instance : LawfulBEq JsString := inferInstance

/-- Where two steps end without an error, each of them does. -/
theorem bind_eq_ok {ε α β : Type} {x : Except ε α} {f : α → Except ε β} {b : β}
    (h : x >>= f = .ok b) : ∃ a, x = .ok a ∧ f a = .ok b := by
  cases x with
  | error message => cases h
  | ok a => exact ⟨a, rfl, h⟩

/-- The unit of an ASCII character. -/
def unit (c : Char) : UInt16 := UInt16.ofNat c.toNat

/-- The units of a literal of ASCII characters. -/
def units (s : String) : JsString := s.toList.map fun c => UInt16.ofNat c.toNat

/-- The first unit of a surrogate pair. -/
def isHigh (c : UInt16) : Bool := decide (0xD800 ≤ c.toNat) && decide (c.toNat ≤ 0xDBFF)

/-- The second unit of a surrogate pair. -/
def isLow (c : UInt16) : Bool := decide (0xDC00 ≤ c.toNat) && decide (c.toNat ≤ 0xDFFF)

/-- A unit that stands for nothing by itself. -/
def isSurrogate (c : UInt16) : Bool := isHigh c || isLow c

/-- U+FFFD. -/
def replacement : UInt16 := 0xFFFD

/-- A unit that is not part of a pair. -/
def single (c : UInt16) : UInt16 := if isSurrogate c then replacement else c

/-- `String.prototype.toWellFormed`. -/
def toWellFormed : List UInt16 → List UInt16
  | [] => []
  | [c] => [single c]
  | c :: d :: s =>
    if isHigh c && isLow d then c :: d :: toWellFormed s else single c :: toWellFormed (d :: s)

/-- The code point of a pair. -/
def pairPoint (c d : UInt16) : ℕ := 0x10000 + (c.toNat - 0xD800) * 0x400 + (d.toNat - 0xDC00)

/-- The code points of a string, U+FFFD for a surrogate without its partner. -/
def points : List UInt16 → List ℕ
  | [] => []
  | [c] => [(single c).toNat]
  | c :: d :: s =>
    if isHigh c && isLow d then pairPoint c d :: points s else (single c).toNat :: points (d :: s)

/-- The units of a code point. -/
def utf16 (p : ℕ) : List UInt16 :=
  if p < 0x10000 then [UInt16.ofNat p]
  else [UInt16.ofNat (0xD800 + (p - 0x10000) / 0x400), UInt16.ofNat (0xDC00 + (p - 0x10000) % 0x400)]

/-- The bytes of a code point. -/
def utf8 (p : ℕ) : List UInt8 :=
  if p < 0x80 then [UInt8.ofNat p]
  else if p < 0x800 then [UInt8.ofNat (0xC0 + p / 64), UInt8.ofNat (0x80 + p % 64)]
  else if p < 0x10000 then
    [UInt8.ofNat (0xE0 + p / 4096), UInt8.ofNat (0x80 + p / 64 % 64), UInt8.ofNat (0x80 + p % 64)]
  else
    [UInt8.ofNat (0xF0 + p / 262144), UInt8.ofNat (0x80 + p / 4096 % 64),
      UInt8.ofNat (0x80 + p / 64 % 64), UInt8.ofNat (0x80 + p % 64)]

/-- `Buffer.from(string)`. -/
def encode (s : List UInt16) : List UInt8 := (points s).flatMap utf8

/-- The decoder between bytes: at a start, or with bytes still needed, the bits so far, and the range
    of the next byte. -/
inductive Decoder where
  | start
  | more (needed point lower upper : ℕ)
  deriving DecidableEq

namespace Decoder

/-- A byte at a start, with the units it completes. -/
def first (b : ℕ) : Decoder × List UInt16 :=
  if b ≤ 0x7F then (start, utf16 b)
  else if 0xC2 ≤ b ∧ b ≤ 0xDF then (more 1 (b - 0xC0) 0x80 0xBF, [])
  else if 0xE0 ≤ b ∧ b ≤ 0xEF then
    (more 2 (b - 0xE0) (if b = 0xE0 then 0xA0 else 0x80) (if b = 0xED then 0x9F else 0xBF), [])
  else if 0xF0 ≤ b ∧ b ≤ 0xF4 then
    (more 3 (b - 0xF0) (if b = 0xF0 then 0x90 else 0x80) (if b = 0xF4 then 0x8F else 0xBF), [])
  else (start, [replacement])

/-- STEP: one byte. A byte out of range ends the sequence before it and is read again. -/
def step : Decoder → ℕ → Decoder × List UInt16
  | start, b => first b
  | more needed point lower upper, b =>
    if lower ≤ b ∧ b ≤ upper then
      if needed = 1 then (start, utf16 (point * 64 + (b - 0x80)))
      else (more (needed - 1) (point * 64 + (b - 0x80)) 0x80 0xBF, [])
    else ((first b).1, replacement :: (first b).2)

/-- RUN: the bytes that are left. A sequence that is not complete at the end is replaced. -/
def run : Decoder → List UInt8 → List UInt16
  | start, [] => []
  | more _ _ _ _, [] => [replacement]
  | d, b :: bs => (d.step b.toNat).2 ++ run (d.step b.toNat).1 bs

end Decoder

/-- `buffer.toString()`. -/
def decode (bs : List UInt8) : List UInt16 := Decoder.start.run bs

/-! ### Decoding what was encoded -/

theorem run_cons (d : Decoder) (b : UInt8) (bs : List UInt8) :
    d.run (b :: bs) = (d.step b.toNat).2 ++ (d.step b.toNat).1.run bs := by
  cases d <;> rfl

/-- A code point that is no surrogate. -/
def Scalar (p : ℕ) : Prop := p < 0xD800 ∨ (0xE000 ≤ p ∧ p < 0x110000)

/-- The last byte of a code point. -/
theorem run_last {point lower upper : ℕ} {b : UInt8} (h : lower ≤ b.toNat ∧ b.toNat ≤ upper)
    (bs : List UInt8) : (Decoder.more 1 point lower upper).run (b :: bs) =
      utf16 (point * 64 + (b.toNat - 0x80)) ++ Decoder.start.run bs := by
  rw [run_cons]
  simp [Decoder.step, h]

/-- A byte of a code point before the last. -/
theorem run_more {needed point lower upper : ℕ} {b : UInt8} (hn : needed ≠ 0)
    (h : lower ≤ b.toNat ∧ b.toNat ≤ upper) (bs : List UInt8) :
    (Decoder.more (needed + 1) point lower upper).run (b :: bs) =
      (Decoder.more needed (point * 64 + (b.toNat - 0x80)) 0x80 0xBF).run bs := by
  rw [run_cons]
  simp [Decoder.step, h, hn]

/-- A byte that only starts a code point. -/
theorem run_first {b : UInt8} {d : Decoder} (h : Decoder.first b.toNat = (d, []))
    (bs : List UInt8) : Decoder.start.run (b :: bs) = d.run bs := by
  rw [run_cons]
  simp [Decoder.step, h]

/-- The bytes of one code point decode to its units. -/
theorem run_utf8 {p : ℕ} (h : Scalar p) (bs : List UInt8) :
    Decoder.start.run (utf8 p ++ bs) = utf16 p ++ Decoder.start.run bs := by
  unfold Scalar at h
  have htail : ∀ n, (UInt8.ofNat (0x80 + n % 64)).toNat = 0x80 + n % 64 := by
    intro n
    simp only [UInt8.toNat_ofNat']
    omega
  unfold utf8
  split_ifs with h1 h2 h3
  · have hb : (UInt8.ofNat p).toNat = p := by
      simp only [UInt8.toNat_ofNat']
      omega
    rw [List.singleton_append, run_cons, hb]
    simp [Decoder.step, Decoder.first, show p ≤ 0x7F by omega]
  · have hb : (UInt8.ofNat (0xC0 + p / 64)).toNat = 0xC0 + p / 64 := by
      simp only [UInt8.toNat_ofNat']
      omega
    have hfirst : Decoder.first (UInt8.ofNat (0xC0 + p / 64)).toNat =
        (.more 1 (p / 64) 0x80 0xBF, []) := by
      rw [hb, Decoder.first, if_neg (by omega), if_pos (by omega), Nat.add_sub_cancel_left]
    have hpoint : p / 64 * 64 + (0x80 + p % 64 - 0x80) = p := by omega
    rw [List.cons_append, List.singleton_append, run_first hfirst, run_last (by rw [htail]; omega),
      htail, hpoint]
  · have hb : (UInt8.ofNat (0xE0 + p / 4096)).toNat = 0xE0 + p / 4096 := by
      simp only [UInt8.toNat_ofNat']
      omega
    obtain ⟨lower, upper, hfirst, hlower, hupper⟩ : ∃ lower upper,
        Decoder.first (UInt8.ofNat (0xE0 + p / 4096)).toNat =
          (.more 2 (p / 4096) lower upper, []) ∧
        lower ≤ 0x80 + p / 64 % 64 ∧ 0x80 + p / 64 % 64 ≤ upper := by
      rw [hb, Decoder.first, if_neg (by omega), if_neg (by omega), if_pos (by omega),
        Nat.add_sub_cancel_left]
      refine ⟨_, _, rfl, ?_, ?_⟩ <;> split_ifs <;> omega
    have hpoint : (p / 4096 * 64 + (0x80 + p / 64 % 64 - 0x80)) * 64 + (0x80 + p % 64 - 0x80) = p := by
      omega
    rw [List.cons_append, List.cons_append, List.singleton_append, run_first hfirst,
      run_more (by decide) (by rw [htail]; exact ⟨hlower, hupper⟩),
      run_last (by rw [htail]; omega), htail, htail, hpoint]
  · have hb : (UInt8.ofNat (0xF0 + p / 262144)).toNat = 0xF0 + p / 262144 := by
      simp only [UInt8.toNat_ofNat']
      omega
    obtain ⟨lower, upper, hfirst, hlower, hupper⟩ : ∃ lower upper,
        Decoder.first (UInt8.ofNat (0xF0 + p / 262144)).toNat =
          (.more 3 (p / 262144) lower upper, []) ∧
        lower ≤ 0x80 + p / 4096 % 64 ∧ 0x80 + p / 4096 % 64 ≤ upper := by
      rw [hb, Decoder.first, if_neg (by omega), if_neg (by omega), if_neg (by omega),
        if_pos (by omega), Nat.add_sub_cancel_left]
      refine ⟨_, _, rfl, ?_, ?_⟩ <;> split_ifs <;> omega
    have hpoint : ((p / 262144 * 64 + (0x80 + p / 4096 % 64 - 0x80)) * 64 +
        (0x80 + p / 64 % 64 - 0x80)) * 64 + (0x80 + p % 64 - 0x80) = p := by
      omega
    rw [List.cons_append, List.cons_append, List.cons_append, List.singleton_append,
      run_first hfirst, run_more (by decide) (by rw [htail]; exact ⟨hlower, hupper⟩),
      run_more (by decide) (by rw [htail]; omega), run_last (by rw [htail]; omega), htail, htail,
      htail, hpoint]

/-! ### Code points -/

theorem isHigh_iff (c : UInt16) : isHigh c = true ↔ 0xD800 ≤ c.toNat ∧ c.toNat ≤ 0xDBFF := by
  simp [isHigh]

theorem isLow_iff (c : UInt16) : isLow c = true ↔ 0xDC00 ≤ c.toNat ∧ c.toNat ≤ 0xDFFF := by
  simp [isLow]

theorem isSurrogate_iff (c : UInt16) :
    isSurrogate c = true ↔ 0xD800 ≤ c.toNat ∧ c.toNat ≤ 0xDFFF := by
  simp only [isSurrogate, Bool.or_eq_true, isHigh_iff, isLow_iff]
  omega

theorem scalar_single (c : UInt16) : Scalar (single c).toNat := by
  unfold Scalar single
  split_ifs with h
  · right
    decide
  · rw [Bool.not_eq_true, ← Bool.not_eq_true, isSurrogate_iff] at h
    have hc := c.toNat_lt
    omega

theorem utf16_single (c : UInt16) : utf16 (single c).toNat = [single c] := by
  have hc := (single c).toNat_lt
  rw [utf16, if_pos (by omega)]
  simp

theorem scalar_pairPoint {c d : UInt16} (hc : isHigh c = true) (hd : isLow d = true) :
    Scalar (pairPoint c d) := by
  rw [isHigh_iff] at hc
  rw [isLow_iff] at hd
  unfold Scalar pairPoint
  omega

theorem utf16_pairPoint {c d : UInt16} (hc : isHigh c = true) (hd : isLow d = true) :
    utf16 (pairPoint c d) = [c, d] := by
  rw [isHigh_iff] at hc
  rw [isLow_iff] at hd
  have h1 : 0xD800 + (pairPoint c d - 0x10000) / 0x400 = c.toNat := by
    unfold pairPoint
    omega
  have h2 : 0xDC00 + (pairPoint c d - 0x10000) % 0x400 = d.toNat := by
    unfold pairPoint
    omega
  rw [utf16, if_neg (by unfold pairPoint; omega), h1, h2]
  simp

/-- ROUND TRIP: a string comes back with its lone surrogates replaced. -/
theorem decode_encode (s : List UInt16) : decode (encode s) = toWellFormed s := by
  induction s using toWellFormed.induct with
  | case1 => rfl
  | case2 c =>
    rw [encode, points, List.flatMap_singleton, ← List.append_nil (utf8 _), decode,
      run_utf8 (scalar_single c), utf16_single]
    rfl
  | case3 c d s h ih =>
    rw [encode, points, if_pos h, List.flatMap_cons, decode, toWellFormed, if_pos h]
    rw [Bool.and_eq_true] at h
    rw [run_utf8 (scalar_pairPoint h.1 h.2), utf16_pairPoint h.1 h.2]
    exact congrArg ([c, d] ++ ·) ih
  | case4 c d s h ih =>
    rw [encode, points, if_neg h, List.flatMap_cons, decode, toWellFormed, if_neg h,
      run_utf8 (scalar_single c), utf16_single]
    exact congrArg ([single c] ++ ·) ih

/-- The units of a text. -/
def unitsOf (s : String) : JsString := s.toList.flatMap fun c => utf16 c.toNat

theorem toNat_ofNat_of_lt {n : ℕ} (h : n < 0x10000) : (UInt16.ofNat n).toNat = n := by
  simp only [UInt16.toNat_ofNat']
  omega

/-- The units of a code point are read back as it. -/
theorem points_utf16 {p : ℕ} (h : Scalar p) (s : List UInt16) :
    points (utf16 p ++ s) = p :: points s := by
  unfold Scalar at h
  rw [utf16]
  split_ifs with hp
  · have hc := toNat_ofNat_of_lt hp
    have hsurrogate : isSurrogate (UInt16.ofNat p) = false := by
      rw [← Bool.not_eq_true, isSurrogate_iff, hc]
      omega
    have hsingle : (single (UInt16.ofNat p)).toNat = p := by
      rw [single, hsurrogate, if_neg Bool.false_ne_true, hc]
    have hhigh : isHigh (UInt16.ofNat p) = false := by
      rw [isSurrogate, Bool.or_eq_false_iff] at hsurrogate
      exact hsurrogate.1
    cases s with
    | nil => exact congrArg (fun q => [q]) hsingle
    | cons d s => rw [List.singleton_append, points, hhigh, if_neg (by simp), hsingle]
  · obtain ⟨high, hhigh⟩ : ∃ high, high = 0xD800 + (p - 0x10000) / 0x400 := ⟨_, rfl⟩
    obtain ⟨low, hlow⟩ : ∃ low, low = 0xDC00 + (p - 0x10000) % 0x400 := ⟨_, rfl⟩
    have hc : (UInt16.ofNat high).toNat = high := toNat_ofNat_of_lt (by omega)
    have hd : (UInt16.ofNat low).toNat = low := toNat_ofNat_of_lt (by omega)
    have hpair : (isHigh (UInt16.ofNat high) && isLow (UInt16.ofNat low)) = true := by
      rw [Bool.and_eq_true, isHigh_iff, isLow_iff, hc, hd]
      omega
    have hpoint : pairPoint (UInt16.ofNat high) (UInt16.ofNat low) = p := by
      unfold pairPoint
      omega
    rw [← hhigh, ← hlow, List.cons_append, List.singleton_append, points, if_pos hpair, hpoint]

theorem points_unitsOf (s : String) : points (unitsOf s) = s.toList.map Char.toNat := by
  rw [unitsOf]
  induction s.toList with
  | nil => rfl
  | cons c cs ih =>
    have hc : Scalar c.toNat := by
      unfold Scalar
      rcases c.valid with h | ⟨h1, h2⟩
      · exact .inl h
      · exact .inr ⟨h1, h2⟩
    rw [List.flatMap_cons, points_utf16 hc, ih, List.map_cons]

/-- A text is determined by its units. -/
theorem unitsOf_injective {s t : String} (h : unitsOf s = unitsOf t) : s = t := by
  have hpoints := congrArg points h
  rw [points_unitsOf, points_unitsOf] at hpoints
  exact String.toList_inj.mp (List.map_injective_iff.mpr (fun _ _ => Char.toNat_inj.mp) hpoints)

/-! ### Pieces -/

/-- The pieces of `n` units a string is cut into. -/
def slices (n : ℕ) (s : List UInt16) : List (List UInt16) :=
  if _h : s = [] ∨ n = 0 then [] else s.take n :: slices n (s.drop n)
termination_by s.length
decreasing_by
  have hs : 0 < s.length := List.length_pos_iff.2 fun h => _h (.inl h)
  simp only [List.length_drop]
  omega

/-- What comes back of a string whose pieces end where `cut` says, from index `i` on. -/
def spoil (cut : ℕ → Bool) : ℕ → List UInt16 → List UInt16
  | _, [] => []
  | _, [c] => [single c]
  | i, c :: d :: s =>
    if isHigh c && isLow d && !cut (i + 1) then c :: d :: spoil cut (i + 2) s
    else single c :: spoil cut (i + 1) (d :: s)

theorem spoil_append {cut : ℕ → Bool} (a b : List UInt16) {i : ℕ}
    (hin : ∀ j, 0 < j → j < a.length → cut (i + j) = false)
    (hend : b = [] ∨ cut (i + a.length) = true) :
    spoil cut i (a ++ b) = toWellFormed a ++ spoil cut (i + a.length) b := by
  induction a using toWellFormed.induct generalizing i with
  | case1 => rfl
  | case2 c =>
    rcases b with - | ⟨d, b⟩
    · rfl
    · have hcut : cut (i + 1) = true := hend.resolve_left (by simp)
      rw [List.singleton_append, spoil, if_neg (by simp [hcut])]
      rfl
  | case3 c d s h ih =>
    have hcut := hin 1 (by decide) (by simp)
    rw [List.cons_append, List.cons_append, spoil, if_pos (by simp [h, hcut]), toWellFormed, if_pos h,
      ih]
    · simp [Nat.add_assoc, Nat.add_comm 2]
    · intro j hj hlt
      rw [Nat.add_assoc]
      exact hin (2 + j) (by omega) (by simp; omega)
    · simpa [Nat.add_assoc, Nat.add_comm 2] using hend
  | case4 c d s h ih =>
    rw [List.cons_append, List.cons_append, spoil, if_neg (by simp [h]), toWellFormed, if_neg h,
      ← List.cons_append, ih]
    · simp [Nat.add_assoc, Nat.add_comm 1]
    · intro j hj hlt
      rw [Nat.add_assoc]
      exact hin (1 + j) (by omega) (by simp at hlt ⊢; omega)
    · simpa [Nat.add_assoc, Nat.add_comm 1] using hend

/-- The pieces of a string come back as the string spoiled at their ends. -/
theorem flatMap_slices {n : ℕ} (hn : 0 < n) (s : List UInt16) {i : ℕ} (hi : n ∣ i) :
    (slices n s).flatMap toWellFormed = spoil (fun j => decide (n ∣ j)) i s := by
  induction hlen : s.length using Nat.strong_induction_on generalizing s i with
  | _ len ih =>
    rw [slices]
    split_ifs with h
    · rcases h with rfl | rfl
      · rfl
      · omega
    · have hpos : 0 < s.length := List.length_pos_iff.2 fun hs => h (.inl hs)
      have hdrop : (s.drop n).length < len := by
        rw [List.length_drop]
        omega
      have hin : ∀ j, 0 < j → j < (s.take n).length → decide (n ∣ i + j) = false := by
        intro j hj hlt
        rw [List.length_take] at hlt
        rw [decide_eq_false_iff_not, Nat.dvd_add_right hi]
        exact Nat.not_dvd_of_pos_of_lt hj (by omega)
      have hend : s.drop n = [] ∨ decide (n ∣ i + (s.take n).length) = true := by
        by_cases hshort : s.length ≤ n
        · exact .inl (List.drop_eq_nil_of_le hshort)
        · refine .inr (decide_eq_true ?_)
          rw [List.length_take, min_eq_left (by omega)]
          exact (Nat.dvd_add_right hi).2 (dvd_refl n)
      conv_rhs => rw [← List.take_append_drop n s]
      rw [spoil_append _ _ hin hend, List.flatMap_cons]
      congr 1
      rcases hend with hnil | hdvd
      · rw [hnil, slices, dif_pos (.inl rfl)]
        rfl
      · exact ih _ hdrop _ (of_decide_eq_true hdvd) rfl

/-! ### Cutting text -/

/-- Text: a string whose surrogates are paired. -/
inductive WellFormed : List UInt16 → Prop where
  | nil : WellFormed []
  | unit {c s} (hc : isSurrogate c = false) (hs : WellFormed s) : WellFormed (c :: s)
  | pair {c d s} (hc : isHigh c = true) (hd : isLow d = true) (hs : WellFormed s) :
      WellFormed (c :: d :: s)

/-- A pair lies across index `j` of a string. -/
def Straddles (s : List UInt16) (j : ℕ) : Prop :=
  ∃ a c d b, s = a ++ c :: d :: b ∧ j = a.length + 1 ∧ isHigh c = true ∧ isLow d = true

theorem isHigh_of_isSurrogate {c : UInt16} (h : isSurrogate c = false) : isHigh c = false := by
  rw [isSurrogate, Bool.or_eq_false_iff] at h
  exact h.1

theorem single_of_isSurrogate {c : UInt16} (h : isSurrogate c = false) : single c = c := by
  simp [single, h]

theorem single_of_isHigh {c : UInt16} (h : isHigh c = true) : single c = replacement := by
  simp [single, isSurrogate, h]

theorem single_of_isLow {c : UInt16} (h : isLow c = true) : single c = replacement := by
  simp [single, isSurrogate, h]

theorem isHigh_of_isLow {c : UInt16} (h : isLow c = true) : isHigh c = false := by
  rw [isLow_iff] at h
  rw [← Bool.not_eq_true, isHigh_iff]
  omega

/-- A unit that starts no pair is passed on by itself. -/
theorem spoil_cons {cut : ℕ → Bool} {c : UInt16} (h : isHigh c = false) (i : ℕ) (s : List UInt16) :
    spoil cut i (c :: s) = single c :: spoil cut (i + 1) s := by
  cases s with
  | nil => rfl
  | cons d s => rw [spoil, if_neg (by simp [h])]

theorem straddles_cons_iff {c : UInt16} (h : isHigh c = false) (s : List UInt16) (j : ℕ) :
    Straddles (c :: s) j ↔ ∃ k, j = k + 1 ∧ Straddles s k := by
  constructor
  · rintro ⟨a, x, y, b, hs, rfl, hx, hy⟩
    rcases a with - | ⟨z, a⟩
    · simp only [List.nil_append, List.cons.injEq] at hs
      rw [hs.1, hx] at h
      cases h
    · rw [List.cons_append, List.cons.injEq] at hs
      exact ⟨a.length + 1, by simp, a, x, y, b, hs.2, rfl, hx, hy⟩
  · rintro ⟨k, rfl, a, x, y, b, rfl, rfl, hx, hy⟩
    exact ⟨c :: a, x, y, b, rfl, by simp, hx, hy⟩

theorem straddles_pair_iff {c d : UInt16} (hc : isHigh c = true) (hd : isLow d = true)
    (s : List UInt16) (j : ℕ) :
    Straddles (c :: d :: s) j ↔ j = 1 ∨ ∃ k, j = k + 2 ∧ Straddles s k := by
  constructor
  · rintro ⟨a, x, y, b, hs, rfl, hx, hy⟩
    rcases a with - | ⟨z, a⟩
    · exact .inl rfl
    · rw [List.cons_append, List.cons.injEq] at hs
      have hrest : Straddles (d :: s) (a.length + 1) := ⟨a, x, y, b, hs.2, rfl, hx, hy⟩
      obtain ⟨k, hk, hs'⟩ := (straddles_cons_iff (isHigh_of_isLow hd) s _).1 hrest
      exact .inr ⟨k, by simp [hk], hs'⟩
  · rintro (rfl | ⟨k, rfl, a, x, y, b, rfl, rfl, hx, hy⟩)
    · exact ⟨[], c, d, s, rfl, rfl, hc, hd⟩
    · exact ⟨c :: d :: a, x, y, b, rfl, by simp, hx, hy⟩

/-- Text comes back as it was if and only if no pair lies across a cut. -/
theorem spoil_eq_iff {cut : ℕ → Bool} {s : List UInt16} (h : WellFormed s) (i : ℕ) :
    spoil cut i s = s ↔ ∀ j, Straddles s j → cut (i + j) = false := by
  induction h generalizing i with
  | nil =>
    refine ⟨fun _ => ?_, fun _ => rfl⟩
    rintro j ⟨a, c, d, b, hs, -⟩
    simp at hs
  | @unit c s hc _ ih =>
    have hhigh := isHigh_of_isSurrogate hc
    rw [spoil_cons hhigh, single_of_isSurrogate hc, List.cons.injEq, ih (i + 1)]
    simp only [true_and, straddles_cons_iff hhigh]
    constructor
    · rintro h j ⟨k, rfl, hk⟩
      rw [← h k hk]
      congr 1
      omega
    · intro h j hj
      rw [← h (j + 1) ⟨j, rfl, hj⟩]
      congr 1
      omega
  | @pair c d s hc hd _ ih =>
    simp only [straddles_pair_iff hc hd]
    cases hcut : cut (i + 1) with
    | false =>
      rw [spoil, if_pos (by simp [hc, hd, hcut]), List.cons.injEq, List.cons.injEq, ih (i + 2)]
      simp only [true_and]
      constructor
      · rintro h j (rfl | ⟨k, rfl, hk⟩)
        · exact hcut
        · rw [← h k hk]
          congr 1
          omega
      · intro h j hj
        rw [← h (j + 2) (.inr ⟨j, rfl, hj⟩)]
        congr 1
        omega
    | true =>
      rw [spoil, if_neg (by simp [hcut]), single_of_isHigh hc, List.cons.injEq]
      constructor
      · rintro ⟨heq, -⟩
        rw [← heq] at hc
        exact absurd hc (by decide)
      · intro h
        exact absurd (h 1 (.inl rfl)) (by simp [hcut])

/-- Text with some of its pairs replaced. -/
inductive Spoiled : List UInt16 → List UInt16 → Prop where
  | nil : Spoiled [] []
  | unit {c s t} (hc : isSurrogate c = false) (hs : Spoiled s t) : Spoiled (c :: s) (c :: t)
  | kept {c d s t} (hc : isHigh c = true) (hd : isLow d = true) (hs : Spoiled s t) :
      Spoiled (c :: d :: s) (c :: d :: t)
  | lost {c d s t} (hc : isHigh c = true) (hd : isLow d = true) (hs : Spoiled s t) :
      Spoiled (c :: d :: s) (replacement :: replacement :: t)

/-- Cutting text replaces some of its pairs. -/
theorem spoiled_spoil {cut : ℕ → Bool} {s : List UInt16} (h : WellFormed s) (i : ℕ) :
    Spoiled s (spoil cut i s) := by
  induction h generalizing i with
  | nil => exact .nil
  | unit hc _ ih =>
    rw [spoil_cons (isHigh_of_isSurrogate hc), single_of_isSurrogate hc]
    exact .unit hc (ih _)
  | pair hc hd _ ih =>
    cases hcut : cut (i + 1) with
    | false =>
      rw [spoil, if_pos (by simp [hc, hd, hcut])]
      exact .kept hc hd (ih _)
    | true =>
      rw [spoil, if_neg (by simp [hcut]), single_of_isHigh hc, spoil_cons (isHigh_of_isLow hd),
        single_of_isLow hd]
      exact .lost hc hd (ih _)

theorem Spoiled.cases_unit {c : UInt16} {s t : List UInt16} (h : Spoiled (c :: s) t)
    (hc : isSurrogate c = false) : ∃ t', t = c :: t' ∧ Spoiled s t' := by
  cases h with
  | unit _ hs => exact ⟨_, rfl, hs⟩
  | kept hc' | lost hc' => simp [isHigh_of_isSurrogate hc] at hc'

theorem Spoiled.cases_pair {c d : UInt16} {s t : List UInt16} (h : Spoiled (c :: d :: s) t)
    (hc : isHigh c = true) :
    ∃ t', Spoiled s t' ∧ (t = c :: d :: t' ∨ t = replacement :: replacement :: t') := by
  cases h with
  | unit hc' => simp [isHigh_of_isSurrogate hc'] at hc
  | kept _ _ hs => exact ⟨_, hs, .inl rfl⟩
  | lost _ _ hs => exact ⟨_, hs, .inr rfl⟩

/-- Spoiled text splits where the text splits. -/
theorem Spoiled.split {a b t : List UInt16} (ha : WellFormed a) (h : Spoiled (a ++ b) t) :
    ∃ a' b', t = a' ++ b' ∧ Spoiled a a' ∧ Spoiled b b' := by
  induction ha generalizing t with
  | nil => exact ⟨[], t, rfl, .nil, h⟩
  | @unit c s hc _ ih =>
    rw [List.cons_append] at h
    obtain ⟨u, rfl, hu⟩ := h.cases_unit hc
    obtain ⟨a', b', rfl, ha', hb'⟩ := ih hu
    exact ⟨c :: a', b', rfl, .unit hc ha', hb'⟩
  | @pair c d s hc hd _ ih =>
    rw [List.cons_append, List.cons_append] at h
    obtain ⟨u, hu, ht⟩ := h.cases_pair hc
    obtain ⟨a', b', rfl, ha', hb'⟩ := ih hu
    rcases ht with rfl | rfl
    · exact ⟨c :: d :: a', b', rfl, .kept hc hd ha', hb'⟩
    · exact ⟨replacement :: replacement :: a', b', rfl, .lost hc hd ha', hb'⟩

/-- Text without surrogates cannot be spoiled. -/
theorem Spoiled.eq_self {s t : List UInt16} (h : Spoiled s t)
    (hs : ∀ c ∈ s, isSurrogate c = false) : t = s := by
  induction h with
  | nil => rfl
  | unit _ _ ih => rw [ih fun c hc => hs c (by simp [hc])]
  | @kept c d _ _ hc _ _ _ | @lost c d _ _ hc _ _ _ =>
    have := isHigh_of_isSurrogate (hs c (by simp))
    simp [hc] at this

end OtNode.Utf
