import OtNode.Lib.Utf

/-! `toLowerCase`, over the tables of Unicode.

    Every code point is mapped by itself, but for the capital sigma: at the end of a word, which is
    where a cased letter comes before it and none after, its lower case is the final one. Characters
    that are ignored for this may stand in between. The tables are a parameter, with what they have
    for ASCII. -/

namespace OtNode

open Utf

/-- The tables: lower case, and which code points are cased, and which are ignored. -/
structure CaseMapping where
  lower : ℕ → List ℕ
  cased : ℕ → Bool
  ignorable : ℕ → Bool
  lower_ascii : ∀ p < 0x80, lower p = [if 65 ≤ p ∧ p ≤ 90 then p + 32 else p]
  lower_other : ∀ p, 0x80 ≤ p → ∀ q ∈ lower p, q < 0x110000 ∧ q ≠ 0x2F ∧ q ≠ 0x3A
  cased_letter : ∀ p, 97 ≤ p → p ≤ 122 → cased p = true
  ignorable_colon : ignorable 0x3A = true
  cased_slash : cased 0x2F = false
  ignorable_slash : ignorable 0x2F = false

/-- The code points of a string. A surrogate without its partner is one. -/
def codePoints : JsString → List ℕ
  | [] => []
  | [c] => [c.toNat]
  | c :: d :: s =>
    if isHigh c && isLow d then pairPoint c d :: codePoints s else c.toNat :: codePoints (d :: s)

/-- The capital sigma. -/
def sigma : ℕ := 0x3A3

/-- The tables with what they have for the hyphen: it ends words, and is the lower case of itself
    only. -/
structure WordMapping extends CaseMapping where
  cased_hyphen : cased 0x2D = false
  ignorable_hyphen : ignorable 0x2D = false
  lower_hyphen : ∀ p, 0x80 ≤ p → 0x2D ∉ lower p

namespace CaseMapping

variable (table : CaseMapping)

/-- A cased letter comes first, after what is ignored. -/
def startsCased : List ℕ → Bool
  | [] => false
  | p :: s => table.cased p || table.ignorable p && startsCased s

/-- The end of a word, between what comes before, from there backwards, and what comes after. -/
def endsWord (before after : List ℕ) : Bool := table.startsCased before && !table.startsCased after

/-- The lower case of a code point in its place. -/
def lowerAt (before after : List ℕ) (p : ℕ) : List ℕ :=
  if p = sigma then [if table.endsWord before after then 0x3C2 else 0x3C3] else table.lower p

/-- The lower case of code points in their place. -/
def lowerIn (before after : List ℕ) : List ℕ → List ℕ
  | [] => []
  | p :: s => table.lowerAt before (s ++ after) p ++ lowerIn (p :: before) after s

/-- `s.toLowerCase()`. -/
def toLowerCase (s : JsString) : JsString := (table.lowerIn [] [] (codePoints s)).flatMap utf16

/-- A final sigma is taken for the other one. -/
def foldUnit (c : UInt16) : UInt16 := if c = 0x3C2 then 0x3C3 else c

/-- The lower case, in which the two sigmas are one letter. -/
def caseFold (s : JsString) : JsString := (table.toLowerCase s).map foldUnit

/-- The strings are equal up to letter case. -/
def EqualUpToCase (s t : JsString) : Prop := table.caseFold s = table.caseFold t

instance (s t : JsString) : Decidable (table.EqualUpToCase s t) :=
  inferInstanceAs (Decidable (table.caseFold s = table.caseFold t))

end CaseMapping

/-! ### Code points -/

/-- The units of the code points are the string. -/
theorem flatMap_codePoints (s : JsString) : (codePoints s).flatMap utf16 = s := by
  induction s using codePoints.induct with
  | case1 => rfl
  | case2 c =>
    have hc := c.toNat_lt
    simp only [codePoints, List.flatMap_singleton, utf16]
    rw [if_pos (by omega), UInt16.ofNat_toNat]
  | case3 c d s h ih =>
    rw [codePoints, if_pos h, List.flatMap_cons, ih]
    rw [Bool.and_eq_true] at h
    rw [utf16_pairPoint h.1 h.2]
    rfl
  | case4 c d s h ih =>
    have hc := c.toNat_lt
    rw [codePoints, if_neg h, List.flatMap_cons, ih, utf16, if_pos (by omega), UInt16.ofNat_toNat]
    rfl

theorem codePoints_cons {c : UInt16} (h : isHigh c = false) (s : JsString) :
    codePoints (c :: s) = c.toNat :: codePoints s := by
  cases s with
  | nil => rfl
  | cons d s => rw [codePoints, if_neg (by simp [h])]

/-- A string is read piece by piece where no pair is cut. -/
theorem codePoints_append_cons (a : JsString) {c : UInt16} (h : isLow c = false) (b : JsString) :
    codePoints (a ++ c :: b) = codePoints a ++ codePoints (c :: b) := by
  induction a using codePoints.induct with
  | case1 => rfl
  | case2 d =>
    have hlone : ¬ (isHigh d && isLow c) = true := by simp [h]
    exact if_neg hlone
  | case3 d e a hpair ih =>
    rw [List.cons_append, List.cons_append, codePoints, if_pos hpair, ih, codePoints, if_pos hpair,
      List.cons_append]
  | case4 d e a hpair ih =>
    rw [List.cons_append, List.cons_append, codePoints, if_neg hpair, ← List.cons_append, ih,
      codePoints, if_neg hpair, List.cons_append]

/-- An ASCII string. -/
def IsAscii (s : JsString) : Prop := ∀ c ∈ s, c.toNat < 0x80

theorem isAscii_iff {s : JsString} :
    IsAscii s ↔ (s.all fun c => decide (c.toNat < 0x80)) = true := by
  simp [IsAscii]

instance (s : JsString) : Decidable (IsAscii s) := decidable_of_iff _ isAscii_iff.symm

theorem isHigh_of_lt {c : UInt16} (h : c.toNat < 0x80) : isHigh c = false := by
  rw [← Bool.not_eq_true, isHigh_iff]
  omega

theorem isLow_of_lt {c : UInt16} (h : c.toNat < 0x80) : isLow c = false := by
  rw [← Bool.not_eq_true, isLow_iff]
  omega

theorem codePoints_append_of_ascii {a : JsString} (h : IsAscii a) (b : JsString) :
    codePoints (a ++ b) = a.map UInt16.toNat ++ codePoints b := by
  induction a with
  | nil => rfl
  | cons c a ih =>
    rw [List.cons_append, codePoints_cons (isHigh_of_lt (h c (by simp))),
      ih fun d hd => h d (by simp [hd])]
    rfl

theorem codePoints_of_ascii {s : JsString} (h : IsAscii s) : codePoints s = s.map UInt16.toNat := by
  have happend := codePoints_append_of_ascii h []
  rwa [List.append_nil, codePoints, List.append_nil] at happend

theorem lt_of_mem_codePoints {s : JsString} {p : ℕ} (h : p ∈ codePoints s) : p < 0x110000 := by
  induction s using codePoints.induct with
  | case1 => cases h
  | case2 c =>
    rw [List.mem_singleton.mp h]
    have hc := c.toNat_lt
    omega
  | case3 c d s hpair ih =>
    rw [codePoints, if_pos hpair] at h
    rcases List.mem_cons.mp h with hp | h
    · rw [Bool.and_eq_true, isHigh_iff, isLow_iff] at hpair
      unfold pairPoint at hp
      omega
    · exact ih h
  | case4 c d s hpair ih =>
    rw [codePoints, if_neg hpair] at h
    rcases List.mem_cons.mp h with rfl | h
    · have hc := c.toNat_lt
      omega
    · exact ih h

/-- A unit that is no surrogate stands for its code point only. -/
theorem mem_utf16 {c : UInt16} (hc : isSurrogate c = false) {p : ℕ} (hp : p < 0x110000) :
    c ∈ utf16 p ↔ p = c.toNat := by
  have hlt := c.toNat_lt
  rw [← Bool.not_eq_true, isSurrogate_iff] at hc
  rw [utf16]
  split_ifs with h
  · have hunit : (UInt16.ofNat p).toNat = p := toNat_ofNat_of_lt h
    rw [List.mem_singleton, ← UInt16.toNat_inj, hunit]
    exact eq_comm
  · simp only [List.mem_cons, List.not_mem_nil, or_false]
    rw [← UInt16.toNat_inj, ← UInt16.toNat_inj, toNat_ofNat_of_lt (by omega),
      toNat_ofNat_of_lt (by omega)]
    omega

theorem mem_flatMap_utf16 {c : UInt16} (hc : isSurrogate c = false) {points : List ℕ}
    (h : ∀ p ∈ points, p < 0x110000) : c ∈ points.flatMap utf16 ↔ c.toNat ∈ points := by
  rw [List.mem_flatMap]
  constructor
  · rintro ⟨p, hp, hmem⟩
    rwa [← (mem_utf16 hc (h p hp)).mp hmem]
  · intro hp
    exact ⟨c.toNat, hp, (mem_utf16 hc (h _ hp)).mpr rfl⟩

theorem mem_codePoints {c : UInt16} (hc : isSurrogate c = false) {s : JsString} :
    c.toNat ∈ codePoints s ↔ c ∈ s := by
  conv_rhs => rw [← flatMap_codePoints s]
  exact (mem_flatMap_utf16 hc fun _ => lt_of_mem_codePoints).symm

/-! ### Lower case -/

/-- The lower case of an ASCII code point. -/
def lowerPoint (p : ℕ) : ℕ := if 65 ≤ p ∧ p ≤ 90 then p + 32 else p

/-- The lower case of an ASCII unit. -/
def lowerUnit (c : UInt16) : UInt16 := UInt16.ofNat (lowerPoint c.toNat)

theorem lowerPoint_lt {p : ℕ} (h : p < 0x80) : lowerPoint p < 0x80 := by
  unfold lowerPoint
  split_ifs <;> omega

theorem toNat_lowerUnit {c : UInt16} (h : c.toNat < 0x80) :
    (lowerUnit c).toNat = lowerPoint c.toNat :=
  toNat_ofNat_of_lt ((lowerPoint_lt h).trans (by decide))

theorem flatMap_lowerUnit {s : JsString} (h : IsAscii s) :
    (s.map fun c => lowerPoint c.toNat).flatMap utf16 = s.map lowerUnit := by
  rw [List.flatMap_map, ← List.flatMap_pure_eq_map]
  refine List.flatMap_congr ?_
  intro c hc
  rw [utf16, if_pos ((lowerPoint_lt (h c hc)).trans (by decide))]
  rfl

namespace CaseMapping

variable {table : CaseMapping} {before after : List ℕ}

theorem lowerIn_append (a b : List ℕ) : table.lowerIn before after (a ++ b) =
    table.lowerIn before (b ++ after) a ++ table.lowerIn (a.reverse ++ before) after b := by
  induction a generalizing before with
  | nil => rfl
  | cons p a ih =>
    rw [List.cons_append, lowerIn, lowerIn, ih, List.append_assoc, List.append_assoc,
      List.reverse_cons, List.append_assoc]
    rfl

theorem lowerAt_of_lt {p : ℕ} (h : p < 0x80) : table.lowerAt before after p = [lowerPoint p] := by
  rw [lowerAt, if_neg (by unfold sigma; omega), table.lower_ascii p h]
  rfl

theorem lowerIn_of_ascii {s : List ℕ} (h : ∀ p ∈ s, p < 0x80) :
    table.lowerIn before after s = s.map lowerPoint := by
  induction s generalizing before with
  | nil => rfl
  | cons p s ih =>
    rw [lowerIn, lowerAt_of_lt (h p (by simp)), ih fun q hq => h q (by simp [hq])]
    rfl

theorem toLowerCase_of_ascii {s : JsString} (h : IsAscii s) :
    table.toLowerCase s = s.map lowerUnit := by
  have hpoints : ∀ p ∈ s.map UInt16.toNat, p < 0x80 := by
    simpa [IsAscii] using h
  rw [toLowerCase, codePoints_of_ascii h, lowerIn_of_ascii hpoints, List.map_map]
  exact flatMap_lowerUnit h

/-- A string between ASCII strings is mapped in its place. -/
theorem toLowerCase_append {a b : JsString} {c : UInt16} (ha : IsAscii a) (hb : IsAscii (c :: b))
    (s : JsString) : table.toLowerCase (a ++ (s ++ c :: b)) = a.map lowerUnit ++
      ((table.lowerIn (a.map UInt16.toNat).reverse ((c :: b).map UInt16.toNat)
        (codePoints s)).flatMap utf16 ++ (c :: b).map lowerUnit) := by
  have hpoints : ∀ {s : JsString}, IsAscii s → ∀ p ∈ s.map UInt16.toNat, p < 0x80 := by
    intro s hs
    simpa [IsAscii] using hs
  rw [toLowerCase, codePoints_append_of_ascii ha,
    codePoints_append_cons s (isLow_of_lt (hb c (by simp))), codePoints_of_ascii hb, lowerIn_append,
    lowerIn_append, lowerIn_of_ascii (hpoints ha), lowerIn_of_ascii (hpoints hb), List.append_nil,
    List.append_nil, List.flatMap_append, List.flatMap_append, List.map_map, List.map_map]
  congr 1
  · exact flatMap_lowerUnit ha
  · congr 1
    exact flatMap_lowerUnit hb

/-! ### Separators -/

theorem lt_of_mem_lowerAt {p q : ℕ} (h : q ∈ table.lowerAt before after p) : q < 0x110000 := by
  by_cases hp : p < 0x80
  · rw [lowerAt_of_lt hp] at h
    rw [List.mem_singleton.mp h]
    exact (lowerPoint_lt hp).trans (by decide)
  · rw [lowerAt] at h
    split_ifs at h
    · rw [List.mem_singleton.mp h]
      omega
    · rw [List.mem_singleton.mp h]
      omega
    · exact (table.lower_other p (by omega) q h).1

/-- A separator is the lower case of itself only. -/
theorem mem_lowerAt {p q : ℕ} (hq : q = 0x2F ∨ q = 0x3A) :
    q ∈ table.lowerAt before after p ↔ q = p := by
  by_cases hp : p < 0x80
  · rw [lowerAt_of_lt hp, List.mem_singleton, lowerPoint]
    split_ifs <;> omega
  · refine iff_of_false (fun h => ?_) (by omega)
    rw [lowerAt] at h
    split_ifs at h
    · have heq := List.mem_singleton.mp h
      omega
    · have heq := List.mem_singleton.mp h
      omega
    · have hne := (table.lower_other p (by omega) q h).2
      omega

theorem lt_of_mem_lowerIn {s : List ℕ} {q : ℕ} (h : q ∈ table.lowerIn before after s) :
    q < 0x110000 := by
  induction s generalizing before with
  | nil => cases h
  | cons p s ih =>
    rcases List.mem_append.mp h with h | h
    · exact lt_of_mem_lowerAt h
    · exact ih h

theorem mem_lowerIn {s : List ℕ} {q : ℕ} (hq : q = 0x2F ∨ q = 0x3A) :
    q ∈ table.lowerIn before after s ↔ q ∈ s := by
  induction s generalizing before with
  | nil => rfl
  | cons p s ih => rw [lowerIn, List.mem_append, mem_lowerAt hq, ih, List.mem_cons]

/-- A string has the separators that its lower case has. -/
theorem mem_toLowerCase {c : UInt16} (hc : c.toNat = 0x2F ∨ c.toNat = 0x3A) {s : JsString} :
    c ∈ table.toLowerCase s ↔ c ∈ s := by
  have hsurrogate : isSurrogate c = false := by
    rw [← Bool.not_eq_true, isSurrogate_iff]
    omega
  rw [toLowerCase, mem_flatMap_utf16 hsurrogate fun _ => lt_of_mem_lowerIn, mem_lowerIn hc,
    mem_codePoints hsurrogate]

/-! ### The end of a word -/

theorem startsCased_append (s t : List ℕ) : table.startsCased (s ++ t) =
    (table.startsCased s || s.all table.ignorable && table.startsCased t) := by
  induction s with
  | nil => simp [startsCased]
  | cons p s ih =>
    rw [List.cons_append, startsCased, startsCased, ih, List.all_cons]
    cases table.cased p <;> cases table.ignorable p <;> rfl

/-- Among characters that are ignored the first cased one counts, wherever it is. -/
theorem startsCased_eq_false_iff {s : List ℕ} (h : ∀ p ∈ s, table.ignorable p = true) :
    table.startsCased s = false ↔ ∀ p ∈ s, table.cased p = false := by
  induction s with
  | nil => simp [startsCased]
  | cons p s ih =>
    rw [startsCased, h p (by simp), Bool.true_and, Bool.or_eq_false_iff, List.forall_mem_cons,
      ih fun q hq => h q (by simp [hq])]

/-- What comes after a slash does not matter. -/
theorem startsCased_append_slash (s t : List ℕ) :
    table.startsCased (s ++ 0x2F :: t) = table.startsCased s := by
  rw [startsCased_append, startsCased, table.cased_slash, table.ignorable_slash]
  simp

theorem forall_cons_eq_append {p q : ℕ} {s : List ℕ} {P : List ℕ → List ℕ → Prop} :
    (∀ x y, p :: s = x ++ q :: y → P x y) ↔
      (p = q → P [] s) ∧ ∀ x y, s = x ++ q :: y → P (p :: x) y := by
  constructor
  · intro h
    refine ⟨?_, fun x y hs => h (p :: x) y (by rw [hs, List.cons_append])⟩
    rintro rfl
    exact h [] s rfl
  · rintro ⟨hhead, htail⟩ x y heq
    cases x with
    | nil =>
      obtain ⟨hp, rfl⟩ := List.cons.inj heq
      exact hhead hp
    | cons r x =>
      obtain ⟨rfl, hs⟩ := List.cons.inj heq
      exact htail x y hs

/-- The final sigma and the other one are different units. -/
theorem append_sigma_eq_iff {a b : Bool} {s t : JsString} :
    utf16 (if a then 0x3C2 else 0x3C3) ++ s = utf16 (if b then 0x3C2 else 0x3C3) ++ t ↔
      a = b ∧ s = t := by
  have hfinal : utf16 0x3C2 = [0x3C2] := by decide
  have hother : utf16 0x3C3 = [0x3C3] := by decide
  cases a <;> cases b <;> simp [hfinal, hother]

theorem lowerAt_sigma : table.lowerAt before after sigma =
    [if table.endsWord before after then 0x3C2 else 0x3C3] := if_pos rfl

theorem lowerAt_of_ne {p : ℕ} (h : p ≠ sigma) : table.lowerAt before after p = table.lower p :=
  if_neg h

/-- The lower case is the same in two places exactly where they agree on every sigma. -/
theorem flatMap_lowerIn_eq_iff {before' after' : List ℕ} (s : List ℕ) :
    (table.lowerIn before after s).flatMap utf16 = (table.lowerIn before' after' s).flatMap utf16 ↔
      ∀ x y, s = x ++ sigma :: y → table.endsWord (x.reverse ++ before) (y ++ after) =
        table.endsWord (x.reverse ++ before') (y ++ after') := by
  induction s generalizing before before' with
  | nil => simp [lowerIn]
  | cons p s ih =>
    rw [forall_cons_eq_append, lowerIn, lowerIn, List.flatMap_append, List.flatMap_append]
    simp only [List.reverse_nil, List.nil_append, List.reverse_cons, List.append_assoc,
      List.singleton_append]
    rw [← ih]
    by_cases hp : p = sigma
    · subst hp
      rw [lowerAt_sigma, lowerAt_sigma, List.flatMap_singleton, List.flatMap_singleton,
        append_sigma_eq_iff]
      exact and_congr_left fun _ => ⟨fun h _ => h, fun h => h rfl⟩
    · rw [lowerAt_of_ne hp, lowerAt_of_ne hp, List.append_cancel_left_eq]
      simp only [hp, false_imp_iff, true_and]

/-! ### Words -/

/-- What comes after a character that ends words does not matter. -/
theorem startsCased_append_stop {stop : ℕ} (hcased : table.cased stop = false)
    (hignorable : table.ignorable stop = false) (s t : List ℕ) :
    table.startsCased (s ++ stop :: t) = table.startsCased s := by
  rw [startsCased_append, startsCased, hcased, hignorable]
  simp

theorem lowerIn_append_stop {stop : ℕ} (hcased : table.cased stop = false)
    (hignorable : table.ignorable stop = false) (s t : List ℕ) :
    table.lowerIn before (stop :: t) s = table.lowerIn before [] s := by
  induction s generalizing before with
  | nil => rfl
  | cons p s ih =>
    rw [lowerIn, lowerIn, ih, lowerAt, lowerAt, endsWord, endsWord,
      startsCased_append_stop hcased hignorable, List.append_nil]

/-- What comes before such a character does not matter either. -/
theorem lowerIn_after_stop {stop : ℕ} (hcased : table.cased stop = false)
    (hignorable : table.ignorable stop = false) (s t : List ℕ) :
    table.lowerIn (before ++ stop :: t) after s = table.lowerIn before after s := by
  induction s generalizing before with
  | nil => rfl
  | cons p s ih =>
    rw [lowerIn, lowerIn, ← List.cons_append, ih, lowerAt, lowerAt, endsWord, endsWord,
      startsCased_append_stop hcased hignorable]

/-- Words are mapped one by one. -/
theorem toLowerCase_stop {c : UInt16} (hc : c.toNat < 0x80) (hcased : table.cased c.toNat = false)
    (hignorable : table.ignorable c.toNat = false) (s t : JsString) :
    table.toLowerCase (s ++ c :: t) = table.toLowerCase s ++ lowerUnit c :: table.toLowerCase t := by
  have hunit : utf16 (lowerPoint c.toNat) = [lowerUnit c] := by
    rw [utf16, if_pos ((lowerPoint_lt hc).trans (by decide))]
    rfl
  rw [toLowerCase, codePoints_append_cons s (isLow_of_lt hc), codePoints_cons (isHigh_of_lt hc),
    lowerIn_append, List.append_nil, List.append_nil, lowerIn_append_stop hcased hignorable, lowerIn,
    lowerAt_of_lt hc, ← List.nil_append (c.toNat :: (codePoints s).reverse),
    lowerIn_after_stop hcased hignorable, List.flatMap_append, List.flatMap_append,
    List.flatMap_singleton, hunit]
  rfl

/-! ### Letter case -/

/-- The folded lower case of a code point, which does not depend on its place. -/
def foldPoint (table : CaseMapping) (p : ℕ) : JsString :=
  (if p = sigma then [0x3C3] else (table.lower p).flatMap utf16).map foldUnit

theorem map_foldUnit_lowerIn (s : List ℕ) :
    ((table.lowerIn before after s).flatMap utf16).map foldUnit = s.flatMap table.foldPoint := by
  induction s generalizing before with
  | nil => rfl
  | cons p s ih =>
    rw [lowerIn, List.flatMap_append, List.map_append, ih, List.flatMap_cons, foldPoint, lowerAt]
    congr 1
    split_ifs with hp hends
    · decide
    · decide
    · rfl

/-- Letter case is folded letter by letter. -/
theorem caseFold_eq (s : JsString) : table.caseFold s = (codePoints s).flatMap table.foldPoint :=
  map_foldUnit_lowerIn _

/-- An ASCII character that is no capital letter stays where it is. -/
theorem caseFold_append_cons {c : UInt16} (hc : c.toNat < 0x80) (hlower : lowerPoint c.toNat = c.toNat)
    (s t : JsString) : table.caseFold (s ++ c :: t) = table.caseFold s ++ c :: table.caseFold t := by
  have hpoint : table.foldPoint c.toNat = [c] := by
    have hunit : utf16 c.toNat = [c] := by
      rw [utf16, if_pos (hc.trans (by decide)), UInt16.ofNat_toNat]
    rw [foldPoint, if_neg (by unfold sigma; omega), table.lower_ascii _ hc, ← lowerPoint, hlower,
      List.flatMap_singleton, hunit, List.map_singleton, foldUnit, if_neg]
    rintro rfl
    revert hc
    decide
  rw [caseFold_eq, caseFold_eq, caseFold_eq, codePoints_append_cons s (isLow_of_lt hc),
    codePoints_cons (isHigh_of_lt hc), List.flatMap_append, List.flatMap_cons, hpoint]
  rfl

end CaseMapping

namespace WordMapping

variable {table : WordMapping} {before after : List ℕ}

/-- A hyphen is the lower case of itself only. -/
theorem hyphen_mem_lowerIn {s : List ℕ} (h : 0x2D ∈ table.lowerIn before after s) : 0x2D ∈ s := by
  induction s generalizing before with
  | nil => cases h
  | cons p s ih =>
    rw [CaseMapping.lowerIn] at h
    rcases List.mem_append.mp h with h | h
    · by_cases hp : p < 0x80
      · rw [CaseMapping.lowerAt_of_lt hp, List.mem_singleton, lowerPoint] at h
        split_ifs at h
        · omega
        · rw [h]
          exact List.mem_cons_self
      · rw [CaseMapping.lowerAt] at h
        split_ifs at h
        · simp at h
        · simp at h
        · exact absurd h (table.lower_hyphen p (by omega))
    · exact List.mem_cons_of_mem _ (ih h)

theorem hyphen_mem_toLowerCase {s : JsString} (h : unit '-' ∈ table.toLowerCase s) : unit '-' ∈ s := by
  have hc : isSurrogate (unit '-') = false := by decide
  rw [CaseMapping.toLowerCase, mem_flatMap_utf16 hc fun _ => CaseMapping.lt_of_mem_lowerIn] at h
  exact (mem_codePoints hc).mp (hyphen_mem_lowerIn h)

end WordMapping

end OtNode
