import OtNode.Lib.Number

/-! SERVICE clauses in the text of a SPARQL query.

    The text is read unit by unit, with the longest token at each place: words, IRIs in angle
    brackets, and others, of which only that they are there matters. No look-ahead goes behind an
    opening bracket. So it makes no difference what the IRI in a pair of brackets is: a text with
    marks in the place of IRIs has the tokens of the texts that it stands for. -/

namespace OtNode.Sparql

open Utf JsNumber

/-! ### Characters -/

/-- The bracket in front of an IRI. -/
def opening : UInt16 := unit '<'

/-- The bracket behind an IRI. -/
def closing : UInt16 := unit '>'

def backslash : UInt16 := 0x5C

def dot : UInt16 := unit '.'

def colon : UInt16 := unit ':'

/-- WS. -/
def isBlank (c : UInt16) : Bool := decide (c.toNat ∈ [0x20, 9, 0xD, 0xA])

def isLineEnd (c : UInt16) : Bool := decide (c.toNat ∈ [0xD, 0xA])

/-- PN_CHARS_U. A surrogate is half of a letter. -/
def isLetter (c : UInt16) : Bool :=
  [(0x41, 0x5A), (0x5F, 0x5F), (0x61, 0x7A), (0xC0, 0xD6), (0xD8, 0xF6), (0xF8, 0x2FF),
    (0x370, 0x37D), (0x37F, 0x1FFF), (0x200C, 0x200D), (0x2070, 0x218F), (0x2C00, 0x2FEF),
    (0x3001, 0xDB7F), (0xDC00, 0xDFFF), (0xF900, 0xFDCF), (0xFDF0, 0xFFFD)].any
    fun range => decide (range.1 ≤ c.toNat ∧ c.toNat ≤ range.2)

/-- A character of a variable. -/
def isVariableChar (c : UInt16) : Bool :=
  isLetter c || isDigit c ||
    [(0xB7, 0xB7), (0x300, 0x36F), (0x203F, 0x2040)].any
      fun range => decide (range.1 ≤ c.toNat ∧ c.toNat ≤ range.2)

/-- PN_CHARS. -/
def isNameChar (c : UInt16) : Bool := isVariableChar c || c == unit '-'

/-- A character of a language tag. -/
def isTagChar (c : UInt16) : Bool :=
  decide (65 ≤ c.toNat ∧ c.toNat ≤ 90 ∨ 97 ≤ c.toNat ∧ c.toNat ≤ 122) || isDigit c || c == unit '-'

/-- A character of an IRI. -/
def isIriChar (c : UInt16) : Bool :=
  decide (0x20 < c.toNat) &&
    decide (c.toNat ∉ [0x3C, 0x3E, 0x22, 0x7B, 0x7D, 0x7C, 0x5E, 0x5C, 0x60])

/-- What may be escaped in the local part of a name. -/
def isEscapable (c : UInt16) : Bool := decide (c ∈ units "_~.-!$&'()*+,;=/?#@%")

/-! ### Look-ahead -/

/-- Behind an opening bracket: an IRI and its closing bracket follow. -/
def startsIri (ahead : JsString) : Bool :=
  (ahead.dropWhile isIriChar).head? == some closing

def isLabelChar (c : UInt16) : Bool := isNameChar c || c == dot

/-- Behind the first character of a name: the rest of its label and a colon follow. -/
def startsName (ahead : JsString) : Bool :=
  (ahead.dropWhile isLabelChar).head? == some colon &&
    (ahead.takeWhile isLabelChar).getLast? != some dot

/-- Behind the letter of an exponent: its digits follow. -/
def startsExponent : JsString → Bool
  | [] => false
  | [c] => isDigit c
  | c :: d :: _ => isDigit c || (c == unit '+' || c == unit '-') && isDigit d

/-- Behind a backslash in a name. -/
def startsEscaped (ahead : JsString) : Bool := ahead.head?.any isEscapable

/-! ### Tokens -/

/-- A token: a word, an IRI in brackets, a mark in the place of one, or another one. -/
inductive Token (μ : Type) where
  | word (letters : JsString)
  | iri (text : JsString)
  | other
  | marked (m : μ)
  deriving DecidableEq

/-- Of a string, the quotation mark. -/
inductive Quote where
  | single
  | double
  deriving DecidableEq

def Quote.mark : Quote → UInt16
  | single => 0x27
  | double => 0x22

/-- Where the reader is: between tokens; in a word, a variable, or the label of a name; right behind
    the colon, in the local part, or behind a backslash there; in a number, a language tag, an IRI,
    or a comment; behind the first or the second quotation mark of a string; in a string of one
    line, or behind a backslash there; in one of several lines, behind some quotation marks, or
    behind a backslash there. -/
inductive Mode where
  | between
  | word (letters : JsString)
  | variableName
  | label
  | named
  | localName
  | localEscape
  | number
  | language
  | iri
  | comment
  | quote (q : Quote)
  | quotes (q : Quote)
  | text (q : Quote)
  | textEscape (q : Quote)
  | long (q : Quote) (marks : ℕ)
  | longEscape (q : Quote)
  deriving DecidableEq

namespace Mode

/-- The token that ends. -/
def flush {μ : Type} : Mode → List (Token μ)
  | word letters => [.word letters]
  | _ => []

/-- STEP: a character that starts a token. -/
def first (c : UInt16) (ahead : JsString) : Mode × List (Token Empty) :=
  if isBlank c then (between, [])
  else if c = unit '#' then (comment, [])
  else if c = opening then
    if startsIri ahead then (iri, [.iri (ahead.takeWhile isIriChar)]) else (between, [.other])
  else if c = Quote.single.mark then (quote .single, [.other])
  else if c = Quote.double.mark then (quote .double, [.other])
  else if c = unit '?' ∨ c = unit '$' then (variableName, [.other])
  else if c = unit '@' then (language, [.other])
  else if c = colon then (named, [.other])
  else if isDigit c then (number, [.other])
  else if isLetter c then
    if startsName ahead then (label, [.other]) else (word [c], [])
  else (between, [.other])

/-- STEP: a character of a string of one line, which does not go on behind the line. -/
def inText (q : Quote) (c : UInt16) : Mode :=
  if c = q.mark ∨ isLineEnd c then between else if c = backslash then textEscape q else text q

/-- STEP: a character of a string of several lines, behind some quotation marks. -/
def inLong (q : Quote) (marks : ℕ) (c : UInt16) : Mode :=
  if c = q.mark then if marks = 2 then between else long q (marks + 1)
  else if c = backslash then longEscape q else long q 0

/-- The mode behind a character that does not end the token. -/
def stay (c : UInt16) (ahead : JsString) : Mode → Option Mode
  | between => none
  | word letters => if isNameChar c then some (word (letters ++ [c])) else none
  | variableName => if isVariableChar c then some variableName else none
  | label => if c = colon then some named else if isLabelChar c then some label else none
  | named =>
    if isLetter c || isDigit c || c == colon || c == unit '%' then some localName
    else if c = backslash ∧ startsEscaped ahead then some localEscape else none
  | localName =>
    if isLabelChar c || c == colon || c == unit '%' then some localName
    else if c = backslash ∧ startsEscaped ahead then some localEscape else none
  | localEscape => if c = opening then none else some localName
  | number =>
    if isDigit c || c == dot || (c == unit 'e' || c == unit 'E') && startsExponent ahead then
      some number
    else none
  | language => if isTagChar c then some language else none
  | iri => if c = closing then some between else if c = opening then none else some iri
  | comment => some (if isLineEnd c then between else comment)
  | quote q => some (if c = q.mark then quotes q else inText q c)
  | quotes q => if c = q.mark then some (long q 0) else none
  | text q => some (inText q c)
  | textEscape q => some (text q)
  | long q marks => some (inLong q marks c)
  | longEscape q => some (long q 0)

/-- STEP: one character. Where the token does not go on, the next one starts. -/
def step (mode : Mode) (c : UInt16) (ahead : JsString) : Mode × List (Token Empty) :=
  match mode.stay c ahead with
  | some mode => (mode, [])
  | none => ((first c ahead).1, mode.flush ++ (first c ahead).2)

end Mode

/-! ### Texts -/

/-- A part of a text: a unit, or a mark in the place of an opening bracket and the IRI behind it. -/
inductive Symbol (μ : Type) where
  | char (c : UInt16)
  | marked (m : μ)
  deriving DecidableEq

section

variable {μ : Type}

/-- The units up to the next opening bracket, with it. -/
def visible : List (Symbol μ) → JsString
  | [] => []
  | .char c :: s => if c = opening then [c] else c :: visible s
  | .marked _ :: _ => [opening]

/-- Behind a backslash: what is escaped, and the number of units that are behind the backslash. -/
def escaped : JsString → Option (JsString × ℕ)
  | [] => none
  | c :: digits =>
    if c = unit 'u' ∧ 4 ≤ digits.length then
      (natOf 16 (digits.take 4)).map fun point => (utf16 point, 5)
    else if c = unit 'U' ∧ 8 ≤ digits.length then
      (natOf 16 (digits.take 8)).map fun point => (utf16 point, 9)
    else none

/-- The text with its code point escapes decoded. The number is of units to skip, of which no
    bracket is one. -/
def unescape : ℕ → List (Symbol μ) → List (Symbol μ)
  | _, [] => []
  | _, .marked m :: s => .marked m :: unescape 0 s
  | 0, .char c :: s =>
    match if c = backslash then escaped (visible s) else none with
    | some (decoded, skipped) => decoded.map .char ++ unescape skipped s
    | none => .char c :: unescape 0 s
  | skipped + 1, .char c :: s =>
    if c = opening then .char c :: unescape 0 s else unescape skipped s

/-- A token of a text without marks. -/
def Token.plain : Token Empty → Token μ
  | word letters => word letters
  | iri text => iri text
  | other => other

namespace Mode

/-- STEP: a mark, which is read as an IRI where a bracket starts one. -/
def stepMarked (mode : Mode) (m : μ) : Mode × List (Token μ) :=
  match mode.stay opening [] with
  | some mode => (mode, [])
  | none => (iri, mode.flush ++ [.marked m])

/-- RUN: the tokens of the symbols that are left. -/
def run : Mode → List (Symbol μ) → List (Token μ)
  | mode, [] => mode.flush
  | mode, .char c :: s =>
    (mode.step c (visible s)).2.map .plain ++ run (mode.step c (visible s)).1 s
  | mode, .marked m :: s => (mode.stepMarked m).2 ++ run (mode.stepMarked m).1 s

end Mode

/-- The tokens of a text with marks. -/
def tokensOf (s : List (Symbol μ)) : List (Token μ) := Mode.between.run (unescape 0 s)

/-- The lower case of ASCII. -/
def lowerAscii (c : UInt16) : UInt16 := if 65 ≤ c.toNat ∧ c.toNat ≤ 90 then c + 32 else c

/-- Keywords have no case. -/
def isKeyword (keyword : String) (letters : JsString) : Bool :=
  letters.map lowerAscii == units keyword

/-- The keyword of a clause, which nothing need separate from a boolean before it, with what is
    behind it. -/
def isService (silent : String) (letters : JsString) : Bool :=
  ["", "true", "false"].any fun before => isKeyword (before ++ "service" ++ silent) letters

/-- The target of a clause, behind its keyword. -/
def targetOf : List (Token μ) → Option (Token μ)
  | .word letters :: tokens =>
    if isKeyword "silent" letters then tokens.head? else some (.word letters)
  | tokens => tokens.head?

/-- The targets of the SERVICE clauses. -/
def targets : List (Token μ) → List (Option (Token μ))
  | [] => []
  | .word letters :: tokens =>
    if isService "" letters then targetOf tokens :: targets tokens
    else if isService "silent" letters then tokens.head? :: targets tokens
    else targets tokens
  | _ :: tokens => targets tokens

end

/-- The targets of the SERVICE clauses of a query. -/
def serviceTargets (query : JsString) : List (Option (Token Empty)) :=
  targets (tokensOf (query.map .char))

example : serviceTargets (units "SERVICE<a> service # <b>\n silent ex:c Service ?d") =
    [some (.iri (units "a")), some .other, some .other] := by
  decide +kernel

/-! ### Marks in the place of IRIs -/

/-- A character that ends neither an IRI nor a string. -/
def isPlainChar (c : UInt16) : Bool := isIriChar c && c != Quote.single.mark

/-- An IRI without characters that would end a string. -/
def PlainIri (text : JsString) : Prop := ∀ c ∈ text, isPlainChar c = true

instance (text : JsString) : Decidable (PlainIri text) :=
  List.decidableBAll (fun c => isPlainChar c = true) text

section

variable {μ : Type} {f : μ → JsString} {mode next : Mode} {text : JsString} {c : UInt16}
  {s : List (Symbol μ)}

/-- The text that a text with marks stands for. -/
def fill (f : μ → JsString) (s : List (Symbol μ)) : List (Symbol Empty) :=
  s.flatMap fun
    | .char c => [.char c]
    | .marked m => (opening :: f m).map .char

def Token.fill (f : μ → JsString) : Token μ → Token Empty
  | word letters => word letters
  | iri text => iri text
  | other => other
  | marked m => iri (f m)

/-- Behind each mark comes a closing bracket. -/
def Framed : List (Symbol μ) → Prop
  | [] => True
  | .char _ :: s => Framed s
  | .marked _ :: s => s.head? = some (.char closing) ∧ Framed s

@[simp] theorem fill_char (f : μ → JsString) (c : UInt16) (s : List (Symbol μ)) :
    fill f (.char c :: s) = .char c :: fill f s := rfl

@[simp] theorem fill_marked (f : μ → JsString) (m : μ) (s : List (Symbol μ)) :
    fill f (.marked m :: s) = .char opening :: ((f m).map .char ++ fill f s) := by
  simp [fill]

theorem fill_append_char (f : μ → JsString) (text : JsString) (s : List (Symbol μ)) :
    fill f (text.map .char ++ s) = text.map .char ++ fill f s := by
  induction text with
  | nil => rfl
  | cons c text ih =>
    rw [List.map_cons, List.cons_append, fill_char, ih]
    rfl

theorem framed_append_char (text : JsString) (s : List (Symbol μ)) :
    Framed (text.map .char ++ s) ↔ Framed s := by
  induction text with
  | nil => rfl
  | cons c text ih => exact ih

theorem marked_notMem_chars (m : μ) (text : JsString) :
    .marked m ∉ (text.map .char : List (Symbol μ)) := by
  intro hmem
  obtain ⟨c, -, heq⟩ := List.mem_map.mp hmem
  cases heq

/-- What is seen does not depend on what is behind a bracket. -/
theorem visible_fill (f : μ → JsString) (s : List (Symbol μ)) :
    visible (fill f s) = visible s := by
  induction s with
  | nil => rfl
  | cons a s ih =>
    cases a with
    | char c => rw [fill_char, visible, visible, ih]
    | marked m =>
      rw [fill_marked, visible, if_pos rfl]
      rfl

/-! ### Escapes -/

theorem ne_of_isPlainChar (h : isPlainChar c = true) :
    c ≠ opening ∧ c ≠ closing ∧ c ≠ backslash ∧ isLineEnd c = false ∧ ∀ q : Quote, c ≠ q.mark := by
  refine ⟨?_, ?_, ?_, ?_, ?_⟩
  · rintro rfl
    exact absurd h (by decide)
  · rintro rfl
    exact absurd h (by decide)
  · rintro rfl
    exact absurd h (by decide)
  · have hlower : 0x20 < c.toNat := by
      rw [isPlainChar, isIriChar, Bool.and_eq_true, Bool.and_eq_true] at h
      exact of_decide_eq_true h.1.1
    refine decide_eq_false ?_
    intro hmem
    simp only [List.mem_cons, List.not_mem_nil, or_false] at hmem
    omega
  · rintro q rfl
    cases q <;> exact absurd h (by decide)

theorem unescape_plain (htext : PlainIri text) (s : List (Symbol μ)) :
    unescape 0 (text.map .char ++ s) = text.map .char ++ unescape 0 s := by
  induction text with
  | nil => rfl
  | cons c text ih =>
    rw [PlainIri, List.forall_mem_cons] at htext
    rw [List.map_cons, List.cons_append, unescape,
      if_neg (ne_of_isPlainChar htext.1).2.2.1, ih htext.2]
    rfl

/-- STEP: escapes are decoded between the marks. -/
theorem unescape_fill (hplain : ∀ m, .marked m ∈ s → PlainIri (f m)) (skipped : ℕ) :
    unescape skipped (fill f s) = fill f (unescape skipped s) := by
  induction s generalizing skipped with
  | nil => cases skipped <;> rfl
  | cons a s ih =>
    have ih := ih fun m hm => hplain m (List.mem_cons_of_mem _ hm)
    cases a with
    | marked m =>
      have hopening : unescape skipped (fill f (.marked m :: s)) =
          .char opening :: unescape 0 ((f m).map .char ++ fill f s) := by
        rw [fill_marked]
        cases skipped with
        | zero => rfl
        | succ skipped => rw [unescape, if_pos rfl]
      rw [hopening, unescape_plain (hplain m List.mem_cons_self), ih]
      cases skipped <;> rw [unescape, fill_marked]
    | char c =>
      rw [fill_char]
      cases skipped with
      | zero =>
        rw [unescape, unescape, visible_fill]
        cases if c = backslash then escaped (visible s) else none with
        | none => exact congrArg (.char c :: ·) (ih 0)
        | some found => exact (congrArg _ (ih found.2)).trans (fill_append_char f found.1 _).symm
      | succ skipped =>
        rw [unescape, unescape]
        by_cases hc : c = opening
        · rw [if_pos hc, if_pos hc, ih, fill_char]
        · rw [if_neg hc, if_neg hc, ih]

theorem framed_unescape (hframed : Framed s) (skipped : ℕ) : Framed (unescape skipped s) := by
  induction s generalizing skipped with
  | nil => cases skipped <;> trivial
  | cons a s ih =>
    cases a with
    | marked m =>
      obtain ⟨hclosing, hframed⟩ := hframed
      have hhead : (unescape 0 s).head? = some (.char closing) := by
        obtain ⟨rest, rfl⟩ := List.head?_eq_some_iff.mp hclosing
        rfl
      cases skipped <;> exact ⟨hhead, ih hframed 0⟩
    | char c =>
      cases skipped with
      | zero =>
        rw [unescape]
        cases if c = backslash then escaped (visible s) else none with
        | none => exact ih hframed 0
        | some found => exact (framed_append_char found.1 _).mpr (ih hframed found.2)
      | succ skipped =>
        rw [unescape]
        by_cases hc : c = opening
        · rw [if_pos hc]
          exact ih hframed 0
        · rw [if_neg hc]
          exact ih hframed skipped

/-- A mark of the decoded text is one of the text. -/
theorem mem_of_mem_unescape {m : μ} {skipped : ℕ} (h : .marked m ∈ unescape skipped s) :
    .marked m ∈ s := by
  induction s generalizing skipped with
  | nil => cases skipped <;> cases h
  | cons a s ih =>
    cases a with
    | marked m' =>
      cases skipped <;>
      · rcases List.mem_cons.mp h with heq | h
        · exact heq ▸ List.mem_cons_self
        · exact List.mem_cons_of_mem _ (ih h)
    | char c =>
      refine List.mem_cons_of_mem _ ?_
      cases skipped with
      | zero =>
        rw [unescape] at h
        split at h
        · rw [List.mem_append, or_iff_right (marked_notMem_chars m _)] at h
          exact ih h
        · rcases List.mem_cons.mp h with heq | h
          · cases heq
          · exact ih h
      | succ skipped =>
        rw [unescape] at h
        split at h
        · rcases List.mem_cons.mp h with heq | h
          · cases heq
          · exact ih h
        · exact ih h

/-! ### Tokens -/

/-- No look-ahead goes behind a bracket. -/
theorem stay_opening (mode : Mode) (ahead : JsString) :
    mode.stay opening ahead = mode.stay opening [] := by
  cases mode <;> rfl

theorem inText_plain (q : Quote) (hc : isPlainChar c = true) : Mode.inText q c = .text q := by
  obtain ⟨-, -, hbackslash, hline, hmark⟩ := ne_of_isPlainChar hc
  rw [Mode.inText, if_neg (by simp [hmark q, hline]), if_neg hbackslash]

theorem inLong_plain (q : Quote) (marks : ℕ) (hc : isPlainChar c = true) :
    Mode.inLong q marks c = .long q 0 := by
  obtain ⟨-, -, hbackslash, -, hmark⟩ := ne_of_isPlainChar hc
  rw [Mode.inLong, if_neg (hmark q), if_neg hbackslash]

/-- Where a bracket starts no IRI, neither it nor an IRI behind it ends the token. -/
theorem stay_of_stay_opening (h : mode.stay opening [] = some next) (hc : isPlainChar c = true)
    (ahead : JsString) : next.stay c ahead = some next := by
  have htext : ∀ q : Quote, next = .text q → next.stay c ahead = some next := by
    rintro q rfl
    exact congrArg some (inText_plain q hc)
  have hlong : ∀ q : Quote, next = .long q 0 → next.stay c ahead = some next := by
    rintro q rfl
    exact congrArg some (inLong_plain q 0 hc)
  cases mode with
  | comment =>
    cases h
    change some (if isLineEnd c then Mode.between else Mode.comment) = some Mode.comment
    rw [(ne_of_isPlainChar hc).2.2.2.1]
    rfl
  | quote q => exact htext q (by cases q <;> exact (Option.some.inj h).symm)
  | text q => exact htext q (by cases q <;> exact (Option.some.inj h).symm)
  | textEscape q => exact htext q (Option.some.inj h).symm
  | long q marks => exact hlong q (by cases q <;> exact (Option.some.inj h).symm)
  | longEscape q => exact hlong q (Option.some.inj h).symm
  | quotes q => cases q <;> cases h
  | _ => cases h

/-- RUN: nothing ends in an IRI. -/
theorem run_plain (hstay : ∀ c, isPlainChar c = true → ∀ ahead, mode.stay c ahead = some mode)
    (htext : PlainIri text) (s : List (Symbol μ)) :
    mode.run (text.map .char ++ s) = mode.run s := by
  induction text with
  | nil => rfl
  | cons c text ih =>
    rw [PlainIri, List.forall_mem_cons] at htext
    rw [List.map_cons, List.cons_append, Mode.run, Mode.step, hstay c htext.1, ih htext.2]
    rfl

theorem stay_iri (hc : isPlainChar c = true) (ahead : JsString) :
    Mode.iri.stay c ahead = some .iri := by
  obtain ⟨hopening, hclosing, -⟩ := ne_of_isPlainChar hc
  rw [Mode.stay, if_neg hclosing, if_neg hopening]

theorem first_opening {ahead : JsString} (htext : PlainIri text) :
    Mode.first opening (text ++ closing :: ahead) = (.iri, [.iri text]) := by
  have hall : ∀ c ∈ text, isIriChar c = true := fun c hc =>
    (Bool.and_eq_true_iff.mp (htext c hc)).1
  have hstarts : startsIri (text ++ closing :: ahead) = true := by
    rw [startsIri, List.dropWhile_append_of_pos hall]
    rfl
  have htake : (text ++ closing :: ahead).takeWhile isIriChar = text := by
    rw [List.takeWhile_append_of_pos hall, List.takeWhile_cons_of_neg (by decide), List.append_nil]
  change (if startsIri (text ++ closing :: ahead) then _ else _) = _
  rw [if_pos hstarts, htake]

theorem map_fill_plain (f : μ → JsString) (tokens : List (Token Empty)) :
    (tokens.map .plain).map (Token.fill f) = tokens.map .plain := by
  rw [List.map_map]
  refine List.map_congr_left ?_
  intro token _
  cases token with
  | marked m => exact m.elim
  | _ => rfl

/-- A mark is read where an IRI is. -/
theorem map_fill_stepMarked (f : μ → JsString) (mode : Mode) (m : μ) :
    (mode.flush ++ [Token.iri (f m)]).map .plain =
      (mode.flush ++ [.marked m] : List (Token μ)).map (Token.fill f) := by
  cases mode <;> rfl

theorem visible_append_char (htext : PlainIri text) (s : List (Symbol μ)) :
    visible (text.map .char ++ s) = text ++ visible s := by
  induction text with
  | nil => rfl
  | cons c text ih =>
    rw [PlainIri, List.forall_mem_cons] at htext
    rw [List.map_cons, List.cons_append, visible, if_neg (ne_of_isPlainChar htext.1).1, ih htext.2]
    rfl

/-- RUN: the tokens of a text are those of the text with marks that stands for it, with an IRI for
    each mark. -/
theorem run_fill (hplain : ∀ m, .marked m ∈ s → PlainIri (f m)) (hframed : Framed s) (mode : Mode) :
    mode.run (fill f s) = (mode.run s).map (Token.fill f) := by
  induction s generalizing mode with
  | nil => cases mode <;> rfl
  | cons a s ih =>
    have ih := ih fun m hm => hplain m (List.mem_cons_of_mem _ hm)
    cases a with
    | char c =>
      rw [fill_char, Mode.run, Mode.run, visible_fill, ih hframed, List.map_append, map_fill_plain]
    | marked m =>
      have htext := hplain m List.mem_cons_self
      obtain ⟨hclosing, hframed⟩ := hframed
      rw [fill_marked, Mode.run, Mode.run, Mode.step, Mode.stepMarked, stay_opening]
      cases hstay : mode.stay opening [] with
      | some next =>
        rw [List.map_nil, List.nil_append, List.nil_append,
          run_plain (fun c hc => stay_of_stay_opening hstay hc) htext, ih hframed]
      | none =>
        obtain ⟨rest, rfl⟩ := List.head?_eq_some_iff.mp hclosing
        have hvisible : visible ((f m).map .char ++ fill f (.char closing :: rest)) =
            f m ++ closing :: visible rest := by
          rw [visible_append_char htext, visible_fill]
          rfl
        rw [hvisible, first_opening htext]
        dsimp only
        rw [run_plain (fun c hc => stay_iri hc) htext, ih hframed, map_fill_stepMarked,
          ← List.map_append]

/-- The tokens of a text are those of the text with marks that stands for it, with an IRI for each
    mark. -/
theorem tokensOf_fill (hplain : ∀ m, .marked m ∈ s → PlainIri (f m)) (hframed : Framed s) :
    tokensOf (fill f s) = (tokensOf s).map (Token.fill f) := by
  rw [tokensOf, unescape_fill hplain, run_fill (fun m hm => hplain m (mem_of_mem_unescape hm))
    (framed_unescape hframed 0), tokensOf]

/-! ### Targets -/

theorem targetOf_fill (f : μ → JsString) (tokens : List (Token μ)) :
    targetOf (tokens.map (Token.fill f)) = (targetOf tokens).map (Token.fill f) := by
  cases tokens with
  | nil => rfl
  | cons token tokens =>
    cases token with
    | word letters =>
      rw [List.map_cons, Token.fill, targetOf, targetOf]
      split
      · exact List.head?_map
      · rfl
    | _ => rfl

theorem targets_fill (f : μ → JsString) (tokens : List (Token μ)) :
    targets (tokens.map (Token.fill f)) = (targets tokens).map (Option.map (Token.fill f)) := by
  induction tokens with
  | nil => rfl
  | cons token tokens ih =>
    cases token with
    | word letters =>
      rw [List.map_cons, Token.fill, targets, targets, targetOf_fill, List.head?_map, ih]
      split
      · rfl
      · split <;> rfl
    | _ => exact ih

theorem mem_of_targetOf {token : Token μ} {tokens : List (Token μ)}
    (h : targetOf tokens = some token) : token ∈ tokens := by
  cases tokens with
  | nil => cases h
  | cons first tokens =>
    cases first with
    | word letters =>
      rw [targetOf] at h
      split at h
      · exact List.mem_cons_of_mem _ (List.mem_of_head? h)
      · exact Option.some.inj h ▸ List.mem_cons_self
    | _ => exact List.mem_of_head? h

/-- A target is a token of the text. -/
theorem mem_of_mem_targets {token : Token μ} {tokens : List (Token μ)}
    (h : some token ∈ targets tokens) : token ∈ tokens := by
  induction tokens with
  | nil => cases h
  | cons first tokens ih =>
    refine List.mem_cons_of_mem _ ?_
    cases first with
    | word letters =>
      rw [targets] at h
      split at h
      · rcases List.mem_cons.mp h with htarget | h
        · exact mem_of_targetOf htarget.symm
        · exact ih h
      · split at h
        · rcases List.mem_cons.mp h with htarget | h
          · exact List.mem_of_head? htarget.symm
          · exact ih h
        · exact ih h
    | _ => exact ih h

theorem marked_notMem_flush (m : μ) (mode : Mode) : .marked m ∉ (mode.flush : List (Token μ)) := by
  cases mode <;> simp [Mode.flush]

/-- RUN: a mark among the tokens is one of the text. -/
theorem mem_of_mem_run {m : μ} (h : .marked m ∈ mode.run s) : .marked m ∈ s := by
  induction s generalizing mode with
  | nil => exact absurd h (marked_notMem_flush m mode)
  | cons a s ih =>
    cases a with
    | char c =>
      rw [Mode.run, List.mem_append] at h
      rcases h with h | h
      · obtain ⟨token, -, hplain⟩ := List.mem_map.mp h
        cases token with
        | marked m => exact m.elim
        | _ => cases hplain
      · exact List.mem_cons_of_mem _ (ih h)
    | marked m' =>
      rw [Mode.run, List.mem_append] at h
      rcases h with h | h
      · rw [Mode.stepMarked] at h
        split at h
        · cases h
        · rw [List.mem_append, or_iff_right (marked_notMem_flush m mode), List.mem_singleton] at h
          cases h
          exact List.mem_cons_self
      · exact List.mem_cons_of_mem _ (ih h)

/-- A mark that is a target is one of the text. -/
theorem mem_of_target {m : μ} (h : some (.marked m) ∈ targets (tokensOf s)) : .marked m ∈ s :=
  mem_of_mem_unescape (mem_of_mem_run (mem_of_mem_targets h))

end

end OtNode.Sparql
