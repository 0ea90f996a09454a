import OtNode.Lib.Json
import OtNode.Lib.Number

/-! Files of JSON texts, one a line.

    What is written for a value has no line feed in it, whatever its strings hold, so the lines of a file
    that values were appended to are the texts of these values. -/

namespace OtNode

open Utf

/-! ### Bytes of well-formed text -/

namespace Utf

theorem points_cons_unit {c : UInt16} (h : isSurrogate c = false) (s : JsString) :
    points (c :: s) = c.toNat :: points s := by
  have hsingle : single c = c := single_of_isSurrogate h
  cases s with
  | nil => exact congrArg (fun d : UInt16 => [d.toNat]) hsingle
  | cons d s => rw [points, isHigh_of_isSurrogate h, if_neg (by simp), hsingle]

theorem points_append {s : JsString} (h : WellFormed s) (t : JsString) :
    points (s ++ t) = points s ++ points t := by
  induction h with
  | nil => rfl
  | unit hc hs ih =>
    rw [List.cons_append, points_cons_unit hc, points_cons_unit hc, ih, List.cons_append]
  | pair hc hd hs ih =>
    rw [List.cons_append, List.cons_append, points, points, if_pos (by simp [hc, hd]),
      if_pos (by simp [hc, hd]), ih, List.cons_append]

/-- The bytes of well-formed text do not depend on what comes after it. -/
theorem encode_append {s : JsString} (h : WellFormed s) (t : JsString) :
    encode (s ++ t) = encode s ++ encode t := by
  rw [encode, points_append h, List.flatMap_append]
  rfl

theorem toWellFormed_cons_unit {c : UInt16} (h : isSurrogate c = false) (s : JsString) :
    toWellFormed (c :: s) = c :: toWellFormed s := by
  have hsingle : single c = c := single_of_isSurrogate h
  cases s with
  | nil => exact congrArg (fun d => [d]) hsingle
  | cons d s => rw [toWellFormed, isHigh_of_isSurrogate h, if_neg (by simp), hsingle]

/-- Well-formed text is read back from its bytes. -/
theorem decode_encode_of_wellFormed {s : JsString} (h : WellFormed s) : decode (encode s) = s := by
  rw [decode_encode]
  induction h with
  | nil => rfl
  | unit hc hs ih => rw [toWellFormed_cons_unit hc, ih]
  | pair hc hd hs ih => rw [toWellFormed, if_pos (by simp [hc, hd]), ih]

end Utf

namespace Json

/-! ### Texts without control characters -/

theorem noControl_of_all {s : JsString} (h : (s.all fun c => 32 ≤ c.toNat) = true) :
    ∀ c ∈ s, 32 ≤ c.toNat := by simpa using h

theorem toNat_hexDigit {n : ℕ} (h : n < 16) : 32 ≤ (hexDigit n).toNat := by
  revert n
  decide

/-- An escaped unit has no control character. -/
theorem escapeUnit_noControl (c : UInt16) : ∀ d ∈ escapeUnit c, 32 ≤ d.toNat := by
  have hlt := c.toNat_lt
  rw [escapeUnit]
  split
  · next e he =>
    obtain ⟨l, m, hlm, -⟩ := List.lookup_eq_some_iff.1 he
    have hpair : (c, e) ∈ shortEscapes := by simp [hlm]
    intro d hd
    simp only [List.mem_cons, List.not_mem_nil, or_false] at hd
    rcases hd with rfl | rfl
    · decide
    · have hall : ∀ c ∈ shortEscapes.map Prod.snd, 32 ≤ c.toNat := noControl_of_all rfl
      exact hall _ (List.mem_map_of_mem hpair)
  · split
    · intro d hd
      simp only [unicodeEscape, List.mem_cons, List.not_mem_nil, or_false] at hd
      rcases hd with rfl | rfl | rfl | rfl | rfl | rfl
      · decide
      · decide
      all_goals exact toNat_hexDigit (by omega)
    · next h =>
      rw [Bool.or_eq_true, not_or, decide_eq_true_eq, not_lt] at h
      intro d hd
      rw [List.mem_singleton.mp hd]
      exact h.1

theorem escape_noControl (s : JsString) : ∀ c ∈ escape s, 32 ≤ c.toNat := by
  induction s using escape.induct with
  | case1 => exact List.forall_mem_nil _
  | case2 c => exact escapeUnit_noControl c
  | case3 c d s h ih =>
    rw [escape, if_pos h]
    rw [Bool.and_eq_true, isHigh_iff, isLow_iff] at h
    intro e he
    rcases List.mem_cons.mp he with rfl | he
    · omega
    · rcases List.mem_cons.mp he with rfl | he
      · omega
      · exact ih e he
  | case4 c d s h ih =>
    rw [escape, if_neg h]
    intro e he
    rcases List.mem_append.mp he with he | he
    · exact escapeUnit_noControl c e he
    · exact ih e he

theorem quote_noControl (s : JsString) : ∀ c ∈ quote s, 32 ≤ c.toNat := by
  intro c hc
  rcases List.mem_cons.mp hc with rfl | hc
  · decide
  · rcases List.mem_append.mp hc with hc | hc
    · exact escape_noControl s c hc
    · rw [List.mem_singleton.mp hc]
      decide

theorem number_noControl (n : Number) : ∀ c ∈ n.text, 32 ≤ c.toNat := by
  intro c hc
  have hchar := numberChar_of_isNumber n.valid c hc
  simp only [isNumberChar, isDigit, Bool.or_eq_true, Bool.and_eq_true, decide_eq_true_eq,
    List.mem_cons, List.not_mem_nil, or_false] at hchar
  rcases hchar with ⟨hlow, -⟩ | rfl | rfl | rfl | rfl | rfl
  · omega
  all_goals decide

/-- The unit comes before text without control characters. -/
theorem cons_noControl {c : UInt16} {s : JsString} (hc : 32 ≤ c.toNat) (hs : ∀ d ∈ s, 32 ≤ d.toNat) :
    ∀ d ∈ c :: s, 32 ≤ d.toNat := List.forall_mem_cons.mpr ⟨hc, hs⟩

theorem append_noControl {s t : JsString} (hs : ∀ d ∈ s, 32 ≤ d.toNat)
    (ht : ∀ d ∈ t, 32 ≤ d.toNat) : ∀ d ∈ s ++ t, 32 ≤ d.toNat := List.forall_mem_append.mpr ⟨hs, ht⟩

mutual

theorem stringify_noControl : ∀ v : Value, ∀ c ∈ stringify v, 32 ≤ c.toNat
  | .null => noControl_of_all rfl
  | .bool true => noControl_of_all rfl
  | .bool false => noControl_of_all rfl
  | .num n => number_noControl n
  | .str s => quote_noControl s
  | .arr [] => noControl_of_all rfl
  | .arr (x :: xs) =>
    cons_noControl (by decide) (append_noControl (stringify_noControl x) (elements_noControl xs))
  | .obj [] => noControl_of_all rfl
  | .obj ((k, v) :: ms) =>
    cons_noControl (by decide) (append_noControl (quote_noControl k)
      (cons_noControl (by decide) (append_noControl (stringify_noControl v) (members_noControl ms))))

theorem elements_noControl : ∀ xs : List Value, ∀ c ∈ stringifyElements xs, 32 ≤ c.toNat
  | [] => noControl_of_all rfl
  | x :: xs =>
    cons_noControl (by decide) (append_noControl (stringify_noControl x) (elements_noControl xs))

theorem members_noControl :
    ∀ ms : List (JsString × Value), ∀ c ∈ stringifyMembers ms, 32 ≤ c.toNat
  | [] => noControl_of_all rfl
  | (k, v) :: ms =>
    cons_noControl (by decide) (append_noControl (quote_noControl k)
      (cons_noControl (by decide) (append_noControl (stringify_noControl v) (members_noControl ms))))

end

/-! ### Lines -/

/-- A line feed. -/
def lineFeed : UInt16 := 10

/-- A value on a line of its own. -/
def line (v : Value) : JsString := stringify v ++ [lineFeed]

/-- The values of lines, less the blank ones. -/
def readLines : List JsString → Option (List Value)
  | [] => some []
  | text :: texts =>
    if JsNumber.trim text = [] then readLines texts
    else (parse (JsNumber.trim text)).bind fun v => (readLines texts).map (v :: ·)

theorem wellFormed_line (v : Value) : WellFormed (line v) :=
  wellFormed_append (wellFormed_stringify v) (.unit (by decide) .nil)

/-- RUN: the lines of a file are those that were appended, and an empty one. -/
theorem splitOn_lines (vs : List Value) :
    (vs.flatMap line).splitOn lineFeed = vs.map stringify ++ [[]] := by
  induction vs with
  | nil => rfl
  | cons v vs ih =>
    have hline : ∀ c ∈ stringify v, (c == lineFeed) = false := by
      intro c hc
      rw [beq_eq_false_iff_ne]
      rintro rfl
      exact absurd (stringify_noControl v _ hc) (by decide)
    rw [List.flatMap_cons, line, List.append_assoc, List.singleton_append, List.splitOn,
      List.splitOnP_append_cons_of_forall_mem hline _ (beq_self_eq_true _), ← List.splitOn, ih,
      List.map_cons, List.cons_append]

/-- The text of an object ends with its brace. -/
theorem exists_members_eq (ms : List (JsString × Value)) :
    ∃ t, stringifyMembers ms = t ++ [125] := by
  induction ms with
  | nil => exact ⟨[], rfl⟩
  | cons m ms ih =>
    obtain ⟨t, ht⟩ := ih
    refine ⟨44 :: (quote m.1 ++ 58 :: (stringify m.2 ++ t)), ?_⟩
    rw [stringifyMembers, ht]
    simp

theorem exists_object_eq (ms : List (JsString × Value)) :
    ∃ t, stringify (.obj ms) = 123 :: (t ++ [125]) := by
  cases ms with
  | nil => exact ⟨[], by decide⟩
  | cons m ms =>
    obtain ⟨t, ht⟩ := exists_members_eq ms
    refine ⟨quote m.1 ++ 58 :: (stringify m.2 ++ t), ?_⟩
    rw [stringify, ht]
    simp

/-- There is no space around the text of an object. -/
theorem trim_object (ms : List (JsString × Value)) :
    JsNumber.trim (stringify (.obj ms)) = stringify (.obj ms) := by
  obtain ⟨t, ht⟩ := exists_object_eq ms
  have hbrace : JsNumber.isSpace 123 = false := by decide
  have hlast : ¬ JsNumber.isSpace 125 = true := by decide
  rw [ht, JsNumber.trim, List.dropWhile_cons_of_neg (by simp [hbrace]), ← List.cons_append,
    List.rdropWhile_concat_neg _ _ _ hlast]

/-- CORRECT: objects that were appended, each on a line, are read back. -/
theorem readLines_lines (objects : List (List (JsString × Value))) :
    readLines ((objects.map (stringify ∘ .obj)) ++ [[]]) =
      some (objects.map (normal ∘ .obj)) := by
  induction objects with
  | nil => rfl
  | cons ms objects ih =>
    have hne : stringify (.obj ms) ≠ [] := by
      obtain ⟨t, ht⟩ := exists_object_eq ms
      simp [ht]
    rw [List.map_cons, List.cons_append, readLines, Function.comp_apply, trim_object, if_neg hne,
      parse_stringify, ih]
    rfl

/-- The bytes of a file to which objects were appended give its lines. -/
theorem readLines_decode (objects : List (List (JsString × Value))) :
    readLines ((decode ((objects.map Value.obj).flatMap fun v => encode (line v))).splitOn lineFeed) =
      some (objects.map (normal ∘ .obj)) := by
  have hbytes : ∀ vs : List Value,
      WellFormed (vs.flatMap line) ∧
        vs.flatMap (fun v => encode (line v)) = encode (vs.flatMap line) := by
    intro vs
    induction vs with
    | nil => exact ⟨.nil, rfl⟩
    | cons v vs ih =>
      refine ⟨wellFormed_append (wellFormed_line v) ih.1, ?_⟩
      rw [List.flatMap_cons, List.flatMap_cons, ih.2, encode_append (wellFormed_line v)]
  obtain ⟨hwellFormed, hencode⟩ := hbytes (objects.map Value.obj)
  rw [hencode, decode_encode_of_wellFormed hwellFormed, splitOn_lines, List.map_map,
    readLines_lines]

end Json

end OtNode
