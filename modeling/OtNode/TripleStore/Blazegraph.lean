import OtNode.Lib.Decoder
import OtNode.Lib.Number

/-! The text of a Blazegraph response, recovered.

    The bytes of the text come as characters, and code points above U+FFFF as escapes. The escapes
    are decoded first, to surrogates, of which the conversion that follows keeps a byte each. -/

namespace OtNode

open Utf JsNumber

def backslash : UInt16 := 0x5C

/-! ### What is done with a response -/

/-- `\\U([a-fA-F0-9]{8})` at the start of a string: the number of its digits, and what is behind
    it. -/
def matchEscape (s : JsString) : Option (ℕ × JsString) :=
  if units "\\U" <+: s ∧ 10 ≤ s.length then
    (natOf 16 ((s.drop 2).take 8)).map fun codePoint => (codePoint, s.drop 10)
  else none

/-- The matches of the regular expression in a string, behind a unit: what is before each, and its
    number, and what is behind the last. The first number is a bound of the length. -/
def scanEscapes : ℕ → UInt16 → JsString → List (JsString × ℕ) × JsString
  | 0, _, s => ([], s)
  | _, _, [] => ([], [])
  | n + 1, previous, c :: s =>
    match if previous = backslash then none else matchEscape (c :: s) with
    | some (codePoint, rest) =>
      let found := scanEscapes n ((c :: s).getD 9 0) rest
      (([], codePoint) :: found.1, found.2)
    | none =>
      match scanEscapes n c s with
      | ([], tail) => ([], c :: tail)
      | ((before, codePoint) :: found, tail) => ((c :: before, codePoint) :: found, tail)

/-- The matches in a string. -/
def unicodeEscapes (input : JsString) : List (JsString × ℕ) × JsString :=
  scanEscapes input.length 0 input

/-- `hasUnicodeCodePoints`. -/
def hasUnicodeCodePoints (input : JsString) : Bool := !(unicodeEscapes input).1.isEmpty

/-- `String.fromCodePoint`. -/
def fromCodePoint (codePoint : ℕ) : Except JsString JsString :=
  if codePoint ≤ 0x10FFFF then .ok (utf16 codePoint)
  else .error (units "Invalid code point " ++ digits codePoint)

/-- The matches with their code points in place. -/
def replaceEscapes : List (JsString × ℕ) → JsString → Except JsString JsString
  | [], tail => .ok tail
  | (before, codePoint) :: found, tail => do
    let decoded ← fromCodePoint codePoint
    let rest ← replaceEscapes found tail
    pure (before ++ decoded ++ rest)

/-- `decodeUnicodeCodePoints`. -/
def decodeUnicodeCodePoints (input : JsString) : Except JsString JsString :=
  replaceEscapes (unicodeEscapes input).1 (unicodeEscapes input).2

/-- `Buffer.from(input, 'binary')`. -/
def binary (input : JsString) : List UInt8 := input.map UInt16.toUInt8

/-- `utfConverter`. -/
def utfConverter (input : JsString) : JsString := decode (binary input)

/-- `_executeQuery`, behind the chunks. -/
def postProcess (response : JsString) : Except JsString JsString := do
  let response ← if hasUnicodeCodePoints response then decodeUnicodeCodePoints response
    else .ok response
  pure (utfConverter response)

/-! ### The wire -/

/-- A code point on the wire, as its bytes or as an escape. -/
structure WirePoint where
  point : ℕ
  escaped : Bool
  scalar : Scalar point
  le_of_escaped : escaped = true → 0x10000 ≤ point

/-- A digit, as a code point. -/
def hexDigit (n : ℕ) : ℕ := if n < 10 then 0x30 + n else 0x37 + n

/-- `\UXXXXXXXX`, as code points. -/
def escape (p : ℕ) : List ℕ :=
  0x5C :: 0x55 :: [7, 6, 5, 4, 3, 2, 1, 0].map fun i => hexDigit (p / 16 ^ i % 16)

/-- What is written of a code point: its escape, or itself. -/
def WirePoint.written (p : WirePoint) : List ℕ := if p.escaped then escape p.point else [p.point]

/-- Bytes as characters. -/
def latin1 (bs : List UInt8) : JsString := bs.map UInt8.toUInt16

/-- The response for a text. -/
def wire (text : List WirePoint) : JsString :=
  latin1 ((text.flatMap WirePoint.written).flatMap utf8)

/-- The text. -/
def textOfPoints (text : List WirePoint) : JsString := text.flatMap fun p => utf16 p.point

theorem binary_latin1 (bs : List UInt8) : binary (latin1 bs) = bs := by
  rw [binary, latin1, List.map_map]
  exact List.map_id'' (fun b => by simp) bs

/-! ### The matches -/

theorem lt_of_digitValue {c : UInt16} (h : digitValue c < 16) : c.toNat < 0x80 := by
  rw [digitValue] at h
  split_ifs at h with hdigit hlower hupper
  · rw [isDigit, Bool.and_eq_true, decide_eq_true_eq, decide_eq_true_eq] at hdigit
    omega
  · omega
  · omega
  · omega

/-- A match is ten characters of ASCII. -/
theorem eq_of_matchEscape {s rest : JsString} {codePoint : ℕ}
    (h : matchEscape s = some (codePoint, rest)) : ∃ matched, s = matched ++ rest ∧
      matched.length = 10 ∧ ∀ c ∈ matched, c.toNat < 0x80 := by
  rw [matchEscape] at h
  split_ifs at h with hmatch
  obtain ⟨value, hvalue, hcodePoint⟩ := Option.map_eq_some_iff.mp h
  cases hcodePoint
  obtain ⟨⟨s, rfl⟩, hlength⟩ := hmatch
  rw [natOf] at hvalue
  split_ifs at hvalue with hdigits
  have hdrop : (units "\\U" ++ s).drop 2 = s := rfl
  rw [hdrop] at hdigits
  refine ⟨(units "\\U" ++ s).take 10, (List.take_append_drop 10 _).symm,
    List.length_take_of_le hlength, ?_⟩
  intro c hc
  have htake : (units "\\U" ++ s).take 10 = units "\\U" ++ s.take 8 := rfl
  rw [htake, List.mem_append] at hc
  rcases hc with hc | hc
  · have hunits : (units "\\U").all (fun c => decide (c.toNat < 0x80)) = true := by decide
    exact of_decide_eq_true (List.all_eq_true.mp hunits c hc)
  · exact lt_of_digitValue (of_decide_eq_true (List.all_eq_true.mp hdigits.2 c hc))

/-- The matches are in the string where they were found. -/
inductive Escapes : JsString → List (JsString × ℕ) → JsString → Prop where
  | tail (s : JsString) : Escapes s [] s
  | cons (before : JsString) {matched rest tail : JsString} {codePoint : ℕ} {found : List (JsString × ℕ)}
      (hlength : matched.length = 10) (hascii : ∀ c ∈ matched, c.toNat < 0x80)
      (hrest : Escapes rest found tail) :
      Escapes (before ++ matched ++ rest) ((before, codePoint) :: found) tail

theorem escapes_scanEscapes (n : ℕ) (previous : UInt16) (s : JsString) :
    Escapes s (scanEscapes n previous s).1 (scanEscapes n previous s).2 := by
  induction n generalizing previous s with
  | zero => exact .tail s
  | succ n ih =>
    cases s with
    | nil => exact .tail []
    | cons c s =>
      rw [scanEscapes]
      split
      · rename_i codePoint rest hmatch
        split_ifs at hmatch
        obtain ⟨matched, hs, hlength, hascii⟩ := eq_of_matchEscape hmatch
        rw [hs]
        exact .cons [] hlength hascii (ih _ rest)
      · have hrest := ih c s
        split
        · rename_i tail hscan
          rw [hscan] at hrest
          cases hrest
          exact .tail _
        · rename_i before codePoint found tail hscan
          rw [hscan] at hrest
          cases hrest with
          | @cons _ matched rest _ _ _ hlength hascii hrest =>
            exact .cons (c :: before) hlength hascii hrest

/-! ### What is recovered -/

theorem binary_append (s t : JsString) : binary (s ++ t) = binary s ++ binary t := List.map_append

/-- What is decoded of other bytes and code points fits them. -/
theorem decode_fits {t : List ℕ} (ht : ∀ p ∈ t, Scalar p) (bs : List UInt8) :
    weight (decode (bs ++ t.flatMap utf8)) ≤ bs.length + weight (t.flatMap utf16) ∧
      4 * pairs (decode (bs ++ t.flatMap utf8)) ≤ bs.length + 4 * pairs (t.flatMap utf16) := by
  obtain ⟨hweight, hpairs⟩ := fits_decode bs
  by_cases hne : t = []
  · subst hne
    rw [List.flatMap_nil, List.append_nil]
    exact ⟨hweight.trans (Nat.le_add_right _ _), hpairs.trans (Nat.le_add_right _ _)⟩
  · have hsplit := decode_append_flatMap ht hne bs []
    rw [List.append_nil] at hsplit
    rw [hsplit]
    simp only [weight_append, pairs_append]
    have hnil : decode [] = [] := rfl
    rw [hnil]
    exact ⟨by simp [weight, pairs] at hweight ⊢; omega, by simp [pairs] at hpairs ⊢; omega⟩

/-- Of the ten characters of a match at most two bytes are left. -/
theorem length_binary_fromCodePoint {codePoint : ℕ} {decoded : JsString}
    (h : fromCodePoint codePoint = .ok decoded) : (binary decoded).length ≤ 2 := by
  rw [fromCodePoint] at h
  split_ifs at h
  cases h
  rw [binary, List.length_map, utf16]
  split_ifs
  · exact Nat.le_succ 1
  · exact le_rfl

/-- RUN: each match costs eight of the code points, and gives a half of a pair at most. -/
theorem fits_replaceEscapes {s tail out : JsString} {found : List (JsString × ℕ)}
    (h : Escapes s found tail) (hout : replaceEscapes found tail = .ok out) {t : List ℕ}
    (ht : ∀ p ∈ t, Scalar p) (hs : binary s = t.flatMap utf8) (bs : List UInt8) :
    weight (decode (bs ++ binary out)) + 8 * found.length ≤
        bs.length + weight (t.flatMap utf16) ∧
      4 * pairs (decode (bs ++ binary out)) ≤
        bs.length + 4 * pairs (t.flatMap utf16) + 2 * found.length := by
  induction h generalizing t out bs with
  | tail s =>
    cases hout
    rw [hs]
    exact decode_fits ht bs
  | @cons before matched rest tail codePoint found hlength hascii _ ih =>
    rw [replaceEscapes] at hout
    obtain ⟨decoded, hdecoded, hout⟩ := bind_eq_ok hout
    obtain ⟨rest', hrest', hout⟩ := bind_eq_ok hout
    cases hout
    have htwo := length_binary_fromCodePoint hdecoded
    -- the match is ten code points of the text
    obtain ⟨t₀, t₁, t₂, rfl, ht₀, ht₂, hweight, hpairs⟩ : ∃ t₀ t₁ t₂, t = t₀ ++ t₁ ++ t₂ ∧
        t₀.flatMap utf8 = binary before ∧ binary rest = t₂.flatMap utf8 ∧
        weight (t₁.flatMap utf16) = 10 ∧ pairs (t₁.flatMap utf16) = 0 := by
      have hbytes : ∀ b ∈ binary matched, b.toNat < 0x80 := by
        intro b hb
        obtain ⟨c, hc, rfl⟩ := List.mem_map.mp hb
        have hlt := hascii c hc
        rw [UInt16.toNat_toUInt8]
        omega
      have hlength' : (binary matched).length = 10 := (List.length_map _).trans hlength
      rw [binary_append, binary_append, List.append_assoc] at hs
      cases hmatched : binary matched with
      | nil =>
        rw [hmatched] at hlength'
        cases hlength'
      | cons b ms =>
        rw [hmatched] at hbytes hlength' hs
        rw [List.cons_append] at hs
        obtain ⟨t₀, t', rfl, ht₀, ht'⟩ :=
          flatMap_utf8_split ht (.inl (hbytes b List.mem_cons_self)) hs.symm
        rw [List.forall_mem_append] at ht
        obtain ⟨t₁, t₂, rfl, ht₂, hweight, hpairs⟩ := flatMap_utf8_ascii hbytes ht.2 ht'
        exact ⟨t₀, t₁, t₂, (List.append_assoc t₀ t₁ t₂).symm, ht₀, ht₂.symm,
          hweight.trans hlength', hpairs⟩
    rw [List.forall_mem_append, List.forall_mem_append] at ht
    have hout : bs ++ binary (before ++ decoded ++ rest') =
        bs ++ t₀.flatMap utf8 ++ (binary decoded ++ binary rest') := by
      simp only [binary_append, ht₀, List.append_assoc]
    simp only [hout, List.flatMap_append, weight_append, pairs_append, hweight, hpairs,
      List.length_cons]
    by_cases hne : t₀ = []
    · subst hne
      have hih := ih hrest' ht.2 ht₂ (bs ++ binary decoded)
      rw [List.length_append] at hih
      rw [List.flatMap_nil, List.flatMap_nil, List.append_nil, ← List.append_assoc]
      have hnil : weight [] = 0 ∧ pairs [] = 0 := ⟨rfl, rfl⟩
      omega
    · have hih := ih hrest' ht.2 ht₂ (binary decoded)
      obtain ⟨hweight', hpairs'⟩ := fits_decode bs
      rw [decode_append_flatMap ht.1.1 hne]
      simp only [weight_append, pairs_append]
      omega

/-! ### The theorem -/

theorem scalar_of_lt {p : ℕ} (h : p < 0x80) : Scalar p := .inl (by omega)

theorem hexDigit_lt (n : ℕ) (h : n < 16) : hexDigit n < 0x80 := by
  rw [hexDigit]
  split_ifs <;> omega

/-- An escape is ten characters of ASCII. -/
theorem escape_ascii (p : ℕ) : (escape p).length = 10 ∧ ∀ q ∈ escape p, q < 0x80 := by
  refine ⟨rfl, ?_⟩
  intro q hq
  rw [escape, List.mem_cons, List.mem_cons, List.mem_map] at hq
  rcases hq with rfl | rfl | ⟨i, -, rfl⟩
  · decide
  · decide
  · exact hexDigit_lt _ (Nat.mod_lt _ (by decide))

/-- Characters of ASCII are code points without pairs. -/
theorem weight_of_ascii {t : List ℕ} (h : ∀ p ∈ t, p < 0x80) :
    weight (t.flatMap utf16) = t.length ∧ pairs (t.flatMap utf16) = 0 := by
  induction t with
  | nil => exact ⟨rfl, rfl⟩
  | cons p t ih =>
    rw [List.forall_mem_cons] at h
    obtain ⟨hweight, hpairs⟩ := ih h.2
    obtain ⟨hweight', hpairs'⟩ := pairs_utf16_of_lt (show p < 0x10000 by omega) (.inl (by omega))
    rw [List.flatMap_cons, weight_append, pairs_append, List.length_cons]
    omega

theorem scalar_written (text : List WirePoint) :
    ∀ p ∈ text.flatMap WirePoint.written, Scalar p := by
  intro p hp
  obtain ⟨q, -, hq⟩ := List.mem_flatMap.mp hp
  rw [WirePoint.written] at hq
  split_ifs at hq
  · exact scalar_of_lt ((escape_ascii q.point).2 p hq)
  · rw [List.mem_singleton.mp hq]
    exact q.scalar

/-- An escape is six code points more, and a pair less, than what it is written for. -/
theorem weight_written (text : List WirePoint) :
    weight ((text.flatMap WirePoint.written).flatMap utf16) =
        weight (textOfPoints text) + 6 * text.countP (·.escaped) ∧
      pairs ((text.flatMap WirePoint.written).flatMap utf16) + text.countP (·.escaped) =
        pairs (textOfPoints text) := by
  induction text with
  | nil => exact ⟨rfl, rfl⟩
  | cons p text ih =>
    obtain ⟨hweight, hpairs⟩ := ih
    rw [textOfPoints] at hweight hpairs ⊢
    simp only [List.flatMap_cons, List.flatMap_append, weight_append, pairs_append,
      List.countP_cons, WirePoint.written]
    cases hescaped : p.escaped with
    | false =>
      simp only [Bool.false_eq_true, if_false, List.flatMap_singleton]
      omega
    | true =>
      obtain ⟨hlength, hascii⟩ := escape_ascii p.point
      obtain ⟨hweight', hpairs'⟩ := weight_of_ascii hascii
      obtain ⟨hweight'', hpairs''⟩ := pairs_utf16_of_le (p.le_of_escaped hescaped)
        (lt_of_scalar p.scalar)
      simp only [if_true]
      omega

/-- Without escapes the code points are written themselves. -/
theorem flatMap_written {text : List WirePoint} (h : ∀ p ∈ text, p.escaped = false) :
    (text.flatMap WirePoint.written).flatMap utf16 = textOfPoints text := by
  induction text with
  | nil => rfl
  | cons p text ih =>
    rw [List.forall_mem_cons] at h
    have hrest := ih h.2
    rw [textOfPoints] at hrest ⊢
    rw [List.flatMap_cons, List.flatMap_append, List.flatMap_cons, hrest, WirePoint.written, h.1]
    simp

theorem escapes_unicodeEscapes (input : JsString) :
    Escapes input (unicodeEscapes input).1 (unicodeEscapes input).2 :=
  escapes_scanEscapes input.length 0 input

/-- Where nothing is taken for an escape, nothing is decoded. -/
theorem decodeUnicodeCodePoints_of_not {input : JsString} (h : hasUnicodeCodePoints input = false) :
    decodeUnicodeCodePoints input = .ok input := by
  rw [hasUnicodeCodePoints, Bool.not_eq_false', List.isEmpty_iff] at h
  have hescapes := escapes_unicodeEscapes input
  rw [h] at hescapes
  rw [decodeUnicodeCodePoints, h]
  generalize (unicodeEscapes input).2 = tail at hescapes
  cases hescapes
  rfl

theorem postProcess_eq (response : JsString) :
    postProcess response = (decodeUnicodeCodePoints response).map utfConverter := by
  rw [postProcess]
  cases h : hasUnicodeCodePoints response with
  | false =>
    rw [decodeUnicodeCodePoints_of_not h]
    rfl
  | true => cases decodeUnicodeCodePoints response <;> rfl

/-- CODE BUG (text recovery): a text is recovered from its wire form if and only if none of its code
    points came as an escape, and nothing else in the response is taken for one. -/
theorem postProcess_wire_iff (text : List WirePoint) :
    postProcess (wire text) = .ok (textOfPoints text) ↔
      (∀ p ∈ text, p.escaped = false) ∧ hasUnicodeCodePoints (wire text) = false := by
  have hbytes : binary (wire text) = (text.flatMap WirePoint.written).flatMap utf8 :=
    binary_latin1 _
  have hscalar := scalar_written text
  obtain ⟨hweight, hpairs⟩ := weight_written text
  rw [postProcess_eq]
  constructor
  · intro h
    cases hout : decodeUnicodeCodePoints (wire text) with
    | error message =>
      rw [hout] at h
      cases h
    | ok out =>
      rw [hout] at h
      have htext : decode (binary out) = textOfPoints text := Except.ok.inj h
      obtain ⟨hcost, hgain⟩ := fits_replaceEscapes (escapes_unicodeEscapes (wire text)) hout hscalar
        hbytes []
      rw [List.nil_append, htext] at hcost hgain
      simp only [List.length_nil] at hcost hgain
      -- matches make up for escapes neither in number nor in pairs
      have hnone : (unicodeEscapes (wire text)).1.length = 0 ∧ text.countP (·.escaped) = 0 := by
        omega
      refine ⟨?_, ?_⟩
      · intro p hp
        have hnot := List.countP_eq_zero.mp hnone.2 p hp
        simpa using hnot
      · rw [hasUnicodeCodePoints, List.length_eq_zero_iff.mp hnone.1]
        rfl
  · rintro ⟨hescaped, hnone⟩
    have hdecode := decode_flatMap_utf8 hscalar []
    rw [List.append_nil, flatMap_written hescaped] at hdecode
    rw [decodeUnicodeCodePoints_of_not hnone, Except.map, utfConverter, hbytes, hdecode]
    exact congrArg Except.ok (List.append_nil _)

theorem scalar_toNat (c : Char) : Scalar c.toNat := by
  unfold Scalar
  rcases c.valid with h | ⟨h1, h2⟩
  · exact .inl h
  · exact .inr ⟨h1, h2⟩

/-- A text with all escapes that there can be. -/
def recoded (s : String) : List WirePoint :=
  s.toList.map fun c => ⟨c.toNat, decide (0x10000 ≤ c.toNat), scalar_toNat c, of_decide_eq_true⟩

/-- COUNTEREXAMPLE: of a code point that came as an escape the low bytes of its surrogates come out.
    -/
theorem postProcess_recoded :
    postProcess (wire (recoded "<s> <p> \"😀\" .")) ≠
        .ok (textOfPoints (recoded "<s> <p> \"😀\" .")) ∧
      postProcess (wire (recoded "<s> <p> \"😀\" .")) =
        .ok (unitsOf "<s> <p> \"=\x00\" .") := by
  decide +kernel

end OtNode
