import OtNode.Lib.Utf

/-! The decoder of UTF-8, on bytes that may be none.

    What is decoded splits before every byte that starts a sequence, whatever comes before. And it
    takes a byte for each code point, and four for each that has a pair of units. -/

namespace OtNode.Utf

/-! ### Weights -/

/-- The pairs of a string, by their first units. -/
def pairs (s : List UInt16) : ℕ := s.countP isHigh

/-- The code points of a string, those with a pair four times. -/
def weight (s : List UInt16) : ℕ := s.length + 2 * pairs s

@[simp] theorem pairs_append (s t : List UInt16) : pairs (s ++ t) = pairs s + pairs t :=
  List.countP_append

@[simp] theorem weight_append (s t : List UInt16) : weight (s ++ t) = weight s + weight t := by
  rw [weight, weight, weight, pairs_append, List.length_append]
  omega

/-- What is put out for a number of bytes is not too much. -/
def Fits (n : ℕ) (s : List UInt16) : Prop := weight s ≤ n ∧ 4 * pairs s ≤ n

theorem Fits.append {m n : ℕ} {s t : List UInt16} (hs : Fits m s) (ht : Fits n t) :
    Fits (m + n) (s ++ t) := by
  constructor
  · rw [weight_append]
    exact Nat.add_le_add hs.1 ht.1
  · have h := Nat.add_le_add hs.2 ht.2
    rw [pairs_append]
    omega

theorem Fits.mono {m n : ℕ} {s : List UInt16} (h : Fits m s) (hle : m ≤ n) : Fits n s :=
  ⟨h.1.trans hle, h.2.trans hle⟩

theorem fits_nil (n : ℕ) : Fits n [] := ⟨Nat.zero_le n, Nat.zero_le n⟩

theorem fits_replacement : Fits 1 [replacement] := by
  constructor <;> decide

/-- The units of a code point below the pairs. -/
theorem pairs_utf16_of_lt {p : ℕ} (hp : p < 0x10000) (h : p < 0xD800 ∨ 0xDC00 ≤ p) :
    weight (utf16 p) = 1 ∧ pairs (utf16 p) = 0 := by
  have hhigh : isHigh (UInt16.ofNat p) = false := by
    rw [← Bool.not_eq_true, isHigh_iff, toNat_ofNat_of_lt hp]
    omega
  have hpairs : pairs (utf16 p) = 0 := by
    rw [utf16, if_pos hp, pairs, List.countP_singleton, hhigh]
    rfl
  refine ⟨?_, hpairs⟩
  rw [weight, hpairs, utf16, if_pos hp]
  rfl

/-- The units of a code point with a pair. -/
theorem pairs_utf16_of_le {p : ℕ} (hle : 0x10000 ≤ p) (hlt : p < 0x110000) :
    weight (utf16 p) = 4 ∧ pairs (utf16 p) = 1 := by
  have hhigh : isHigh (UInt16.ofNat (0xD800 + (p - 0x10000) / 0x400)) = true := by
    rw [isHigh_iff, toNat_ofNat_of_lt (by omega)]
    omega
  have hlow : isHigh (UInt16.ofNat (0xDC00 + (p - 0x10000) % 0x400)) = false := by
    rw [← Bool.not_eq_true, isHigh_iff, toNat_ofNat_of_lt (by omega)]
    omega
  have hpairs : pairs (utf16 p) = 1 := by
    rw [utf16, if_neg (by omega), pairs, List.countP_cons, List.countP_singleton, hhigh, hlow]
    rfl
  refine ⟨?_, hpairs⟩
  rw [weight, hpairs, utf16, if_neg (by omega)]
  rfl

theorem fits_utf16 {p : ℕ} (hp : p < 0x110000) : Fits 4 (utf16 p) := by
  rcases Nat.lt_or_ge p 0x10000 with hlt | hge
  · have hone : pairs (utf16 p) ≤ 1 := by
      rw [utf16, if_pos hlt]
      exact List.countP_le_length
    constructor
    · rw [weight]
      rw [utf16, if_pos hlt] at hone ⊢
      simp only [List.length_singleton]
      omega
    · omega
  · obtain ⟨hweight, hpairs⟩ := pairs_utf16_of_le hge hp
    exact ⟨hweight.le, by omega⟩

/-! ### Arbitrary bytes -/

namespace Decoder

/-- The decoder holds a number of bytes, and what they are completed to fits. -/
def Holds (h : ℕ) : Decoder → Prop
  | start => h = 0
  | more needed point lower upper => 0 < h ∧ 0 < needed ∧ 0x80 ≤ lower ∧ upper ≤ 0xBF ∧
      ∀ p, (point * 64 + (lower - 0x80)) * 64 ^ (needed - 1) ≤ p →
        p < (point * 64 + (upper - 0x80) + 1) * 64 ^ (needed - 1) → Fits (h + needed) (utf16 p)

/-- STEP: a byte at a start. -/
theorem holds_first (b : ℕ) :
    ∃ h, Holds h (first b).1 ∧ ∃ n, n + h = 1 ∧ Fits n (first b).2 := by
  have hlow : ∀ {k p : ℕ}, 1 ≤ k → p < 0x10000 → (p < 0xD800 ∨ 0xDC00 ≤ p) →
      Fits k (utf16 p) := by
    intro k p hk hp hsurrogate
    obtain ⟨hweight, hpairs⟩ := pairs_utf16_of_lt hp hsurrogate
    exact ⟨by omega, by omega⟩
  rw [first]
  by_cases hascii : b ≤ 0x7F
  · rw [if_pos hascii]
    exact ⟨0, rfl, 1, rfl, hlow le_rfl (by omega) (by omega)⟩
  rw [if_neg hascii]
  by_cases htwo : 0xC2 ≤ b ∧ b ≤ 0xDF
  · rw [if_pos htwo]
    refine ⟨1, ⟨by omega, by omega, le_rfl, le_rfl, fun p hle hlt => ?_⟩, 0, rfl, fits_nil 0⟩
    exact hlow (by omega) (by omega) (by omega)
  rw [if_neg htwo]
  by_cases hthree : 0xE0 ≤ b ∧ b ≤ 0xEF
  · rw [if_pos hthree]
    refine ⟨1, ⟨by omega, by omega, by split_ifs <;> omega, by split_ifs <;> omega,
      fun p hle hlt => ?_⟩, 0, rfl, fits_nil 0⟩
    simp only [Nat.add_one_sub_one, pow_one] at hle hlt
    refine hlow (by omega) ?_ ?_
    · split_ifs at hlt <;> omega
    · split_ifs at hle hlt <;> omega
  rw [if_neg hthree]
  by_cases hfour : 0xF0 ≤ b ∧ b ≤ 0xF4
  · rw [if_pos hfour]
    refine ⟨1, ⟨by omega, by omega, by split_ifs <;> omega, by split_ifs <;> omega,
      fun p hle hlt => ?_⟩, 0, rfl, fits_nil 0⟩
    refine fits_utf16 ?_
    split_ifs at hlt <;> omega
  · rw [if_neg hfour]
    exact ⟨0, rfl, 1, rfl, fits_replacement⟩

/-- STEP: a byte. -/
theorem holds_step {h : ℕ} {d : Decoder} (hd : d.Holds h) (b : ℕ) :
    ∃ h', Holds h' (d.step b).1 ∧ ∃ n, n + h' = h + 1 ∧ Fits n (d.step b).2 := by
  cases d with
  | start =>
    obtain rfl : h = 0 := hd
    exact holds_first b
  | more needed point lower upper =>
    obtain ⟨hpos, hneeded, hlower, hupper, hfits⟩ := hd
    rw [step]
    split_ifs with hrange hone
    · subst hone
      have hlast := hfits (point * 64 + (b - 0x80))
      rw [Nat.sub_self, pow_zero, Nat.mul_one, Nat.mul_one] at hlast
      refine ⟨0, rfl, h + 1, rfl, ?_⟩
      dsimp only
      exact hlast (by omega) (by omega)
    · refine ⟨h + 1, ⟨by omega, by omega, le_rfl, le_rfl, fun p hle hlt => ?_⟩, 0, by omega,
        fits_nil 0⟩
      obtain ⟨k, rfl⟩ := Nat.exists_eq_add_of_le' (show 2 ≤ needed by omega)
      have hfew : k + 2 - 1 - 1 = k := rfl
      rw [hfew] at hle hlt
      have hfits := hfits p
      rw [show k + 2 - 1 = k + 1 from rfl, pow_succ'] at hfits
      refine Fits.mono (hfits ?_ ?_) (by omega)
      · refine le_trans ?_ hle
        rw [← Nat.mul_assoc]
        exact Nat.mul_le_mul_right _ (by omega)
      · refine lt_of_lt_of_le hlt ?_
        rw [← Nat.mul_assoc]
        exact Nat.mul_le_mul_right _ (by omega)
    · obtain ⟨h', hholds, n, hn, hfirst⟩ := holds_first b
      refine ⟨h', hholds, h + n, by omega, ?_⟩
      exact (fits_replacement.mono hpos).append hfirst

/-- RUN: what is decoded fits the bytes. -/
theorem fits_run {h : ℕ} {d : Decoder} (hd : d.Holds h) (bs : List UInt8) :
    Fits (h + bs.length) (d.run bs) := by
  induction bs generalizing d h with
  | nil =>
    cases d with
    | start => exact fits_nil _
    | more needed point lower upper => exact fits_replacement.mono hd.1
  | cons b bs ih =>
    obtain ⟨h', hholds, n, hn, hstep⟩ := holds_step hd b.toNat
    rw [run_cons]
    refine (hstep.append (ih hholds)).mono ?_
    rw [List.length_cons]
    omega

/-- RUN: a byte that starts a sequence ends what comes before it. -/
theorem run_append {h : ℕ} {d : Decoder} (hd : d.Holds h) {b : UInt8}
    (hb : b.toNat < 0x80 ∨ 0xC0 ≤ b.toNat) (bs cs : List UInt8) :
    d.run (bs ++ b :: cs) = d.run bs ++ start.run (b :: cs) := by
  induction bs generalizing d h with
  | nil =>
    cases d with
    | start => rfl
    | more needed point lower upper =>
      obtain ⟨-, -, hlower, hupper, -⟩ := hd
      rw [List.nil_append, run_cons, run_cons, step, step, if_neg (by omega)]
      rfl
  | cons c bs ih =>
    obtain ⟨h', hholds, -⟩ := holds_step hd c.toNat
    rw [List.cons_append, run_cons, run_cons, ih hholds, List.append_assoc]

end Decoder

theorem fits_decode (bs : List UInt8) : Fits bs.length (decode bs) := by
  have h := Decoder.fits_run (h := 0) (d := .start) rfl bs
  rwa [Nat.zero_add] at h

/-! ### Code points among other bytes -/

/-- The first byte of a code point starts a sequence, and the others continue it. -/
theorem utf8_eq_cons {p : ℕ} (hp : p < 0x110000) : ∃ b bs, utf8 p = b :: bs ∧
    (b.toNat < 0x80 ∨ 0xC0 ≤ b.toNat) ∧ ∀ c ∈ bs, 0x80 ≤ c.toNat ∧ c.toNat < 0xC0 := by
  have htail : ∀ n, 0x80 ≤ (UInt8.ofNat (0x80 + n % 64)).toNat ∧
      (UInt8.ofNat (0x80 + n % 64)).toNat < 0xC0 := by
    intro n
    simp only [UInt8.toNat_ofNat']
    omega
  rw [utf8]
  split_ifs with h1 h2 h3
  · refine ⟨_, _, rfl, .inl ?_, nofun⟩
    simp only [UInt8.toNat_ofNat']
    omega
  · refine ⟨_, _, rfl, .inr ?_, ?_⟩
    · simp only [UInt8.toNat_ofNat']
      omega
    · simp only [List.forall_mem_cons]
      exact ⟨htail _, nofun⟩
  · refine ⟨_, _, rfl, .inr ?_, ?_⟩
    · simp only [UInt8.toNat_ofNat']
      omega
    · simp only [List.forall_mem_cons]
      exact ⟨htail _, htail _, nofun⟩
  · refine ⟨_, _, rfl, .inr ?_, ?_⟩
    · simp only [UInt8.toNat_ofNat']
      omega
    · simp only [List.forall_mem_cons]
      exact ⟨htail _, htail _, htail _, nofun⟩

/-- The bytes of code points decode to their units. -/
theorem decode_flatMap_utf8 {t : List ℕ} (ht : ∀ p ∈ t, Scalar p) (bs : List UInt8) :
    decode (t.flatMap utf8 ++ bs) = t.flatMap utf16 ++ decode bs := by
  induction t with
  | nil => rfl
  | cons p t ih =>
    rw [List.forall_mem_cons] at ht
    rw [List.flatMap_cons, List.flatMap_cons, List.append_assoc, List.append_assoc, ← ih ht.2]
    exact run_utf8 ht.1 _

theorem lt_of_scalar {p : ℕ} (h : Scalar p) : p < 0x110000 := by
  unfold Scalar at h
  omega

/-- Code points end what comes before them. -/
theorem decode_append_flatMap {t : List ℕ} (ht : ∀ p ∈ t, Scalar p) (hne : t ≠ [])
    (bs cs : List UInt8) :
    decode (bs ++ t.flatMap utf8 ++ cs) = decode bs ++ t.flatMap utf16 ++ decode cs := by
  rw [List.append_assoc, List.append_assoc, ← decode_flatMap_utf8 ht]
  cases t with
  | nil => contradiction
  | cons p t =>
    obtain ⟨b, rest, hb, hstart, -⟩ := utf8_eq_cons (lt_of_scalar (ht p List.mem_cons_self))
    rw [List.flatMap_cons, hb, List.cons_append, List.cons_append]
    exact Decoder.run_append (h := 0) (d := .start) rfl hstart bs _

/-- A byte that starts a sequence starts a code point. -/
theorem flatMap_utf8_split {t : List ℕ} (ht : ∀ p ∈ t, Scalar p) {b : UInt8}
    (hb : b.toNat < 0x80 ∨ 0xC0 ≤ b.toNat) {bs cs : List UInt8}
    (h : t.flatMap utf8 = bs ++ b :: cs) :
    ∃ t₀ t₁, t = t₀ ++ t₁ ∧ t₀.flatMap utf8 = bs ∧ t₁.flatMap utf8 = b :: cs := by
  induction t generalizing bs with
  | nil => simp at h
  | cons p t ih =>
    rw [List.forall_mem_cons] at ht
    obtain ⟨c, tail, hp, -, htail⟩ := utf8_eq_cons (lt_of_scalar ht.1)
    cases bs with
    | nil => exact ⟨[], p :: t, rfl, rfl, h⟩
    | cons c' bs =>
      rw [List.flatMap_cons, hp, List.cons_append, List.cons_append, List.cons.injEq] at h
      obtain ⟨rfl, h⟩ := h
      obtain ⟨between, rfl, hrest⟩ : ∃ between, bs = tail ++ between ∧
          t.flatMap utf8 = between ++ b :: cs := by
        rcases List.append_eq_append_iff.mp h with ⟨between, hbs, hrest⟩ | ⟨between, htail', hrest⟩
        · exact ⟨between, hbs, hrest⟩
        · cases between with
          | nil => exact ⟨[], by simpa using htail'.symm, hrest.symm⟩
          | cons d between =>
            -- the byte would continue the sequence
            obtain ⟨rfl, -⟩ := List.cons.inj hrest
            have hcontinues := htail b (by simp [htail'])
            omega
      obtain ⟨t₀, t₁, rfl, ht₀, ht₁⟩ := ih ht.2 hrest
      exact ⟨p :: t₀, t₁, rfl, by rw [List.flatMap_cons, hp, ht₀, List.cons_append], ht₁⟩

theorem utf8_of_lt {p : ℕ} (hp : p < 0x80) : utf8 p = [UInt8.ofNat p] := if_pos hp

/-- Bytes of ASCII are code points of their own. -/
theorem flatMap_utf8_ascii {bs cs : List UInt8} (hbs : ∀ b ∈ bs, b.toNat < 0x80) {t : List ℕ}
    (ht : ∀ p ∈ t, Scalar p) (h : t.flatMap utf8 = bs ++ cs) :
    ∃ t₁ t₂, t = t₁ ++ t₂ ∧ t₂.flatMap utf8 = cs ∧ weight (t₁.flatMap utf16) = bs.length ∧
      pairs (t₁.flatMap utf16) = 0 := by
  induction bs generalizing t with
  | nil => exact ⟨[], t, rfl, h, rfl, rfl⟩
  | cons b bs ih =>
    rw [List.forall_mem_cons] at hbs
    cases t with
    | nil => simp at h
    | cons p t =>
      rw [List.forall_mem_cons] at ht
      have hp : p < 0x80 := by
        by_contra hge
        have hfirst : 0x80 ≤ b.toNat := by
          have hscalar := lt_of_scalar ht.1
          rw [List.flatMap_cons, utf8, if_neg hge] at h
          split_ifs at h with h2 h3
          · obtain ⟨rfl, -⟩ := List.cons.inj h
            simp only [UInt8.toNat_ofNat']
            omega
          · obtain ⟨rfl, -⟩ := List.cons.inj h
            simp only [UInt8.toNat_ofNat']
            omega
          · obtain ⟨rfl, -⟩ := List.cons.inj h
            simp only [UInt8.toNat_ofNat']
            omega
        omega
      rw [List.flatMap_cons, utf8_of_lt hp, List.singleton_append, List.cons_append] at h
      obtain ⟨t₁, t₂, rfl, ht₂, hweight, hpairs⟩ := ih hbs.2 ht.2 (List.cons.inj h).2
      obtain ⟨hweight', hpairs'⟩ := pairs_utf16_of_lt (show p < 0x10000 by omega) (.inl (by omega))
      refine ⟨p :: t₁, t₂, rfl, ht₂, ?_, ?_⟩
      · rw [List.flatMap_cons, weight_append, hweight, hweight', List.length_cons]
        omega
      · rw [List.flatMap_cons, pairs_append, hpairs, hpairs']

end OtNode.Utf
