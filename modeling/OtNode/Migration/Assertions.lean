import Mathlib.Data.List.Infix
import Mathlib.Data.List.DropRight
import Mathlib.Tactic.Common

/-! The assertions of a V6 triple store, and what the migration reads off their text.

    A repository answers with the N-Quads of a graph. The migration looks into this text by its
    characters: it takes what stands between spaces for the terms of a line, and what follows the
    private predicate for the id of the private assertion. -/

namespace OtNode.Migration

/-- A text by its characters. -/
abbrev Text := List Char

/-! ### Strings -/

/-- `\s`, which is also what `trim` removes. -/
def isSpace (c : Char) : Bool :=
  c ∈ ['\t', '\n', '\x0b', '\x0c', '\r', ' ', '\u00a0', '\u1680', '\u2028', '\u2029', '\u202f',
    '\u205f', '\u3000', '\ufeff'] || '\u2000' ≤ c && c ≤ '\u200a'

/-- `trim`. -/
def trim (s : Text) : Text := (s.dropWhile isSpace).rdropWhile isSpace

/-- `includes`. -/
def includes (s pattern : Text) : Bool := s.tails.any pattern.isPrefixOf

/-- What stands before the first `pattern`, and what stands after it. -/
def cut (pattern : Text) : Text → Option (Text × Text)
  | [] => none
  | c :: s =>
    if pattern.isPrefixOf (c :: s) then some ([], (c :: s).drop pattern.length)
    else (cut pattern s).map fun parts => (c :: parts.1, parts.2)

/-- `processContent`. -/
def processContent (str : Text) : List Text :=
  ((str.splitOn '\n').map trim).filter (· ≠ [])

/-! ### Triples -/

/-- A part of a line of N-Quads, where newlines are escaped. -/
abbrev Token := { s : Text // '\n' ∉ s }

/-- A term. A literal is its text and what follows it: a datatype or a language. -/
inductive Term where
  | iri (s : Token)
  | blank (label : Token)
  | literal (lexical suffix : Token)
  deriving DecidableEq

/-- A term as it is written. -/
def Term.text : Term → Text
  | iri s => '<' :: s.1 ++ ['>']
  | blank label => '_' :: ':' :: label.1
  | literal lexical suffix => '"' :: lexical.1 ++ '"' :: suffix.1

/-- A triple of an assertion. -/
structure Triple where
  subject : Term
  predicate : Term
  object : Term
  deriving DecidableEq

/-- A triple as it is written. -/
def Triple.line (t : Triple) : Text :=
  t.subject.text ++ ' ' :: t.predicate.text ++ ' ' :: t.object.text ++ [' ', '.']

/-- What a repository answers for a graph. -/
def nquads (graph : List Triple) : Text := graph.flatMap fun t => t.line ++ ['\n']

/-! ### What is read off the text -/

/-- A character that no IRI has, or a backslash without `u` or `U`. -/
def special : Text → Bool
  | [] => false
  | c :: s =>
    isSpace c || c ∈ ['{', '}', '|', '^', '\u0060'] || c = '\\' && s.head? ∉ [some 'u', some 'U'] ||
      special s

/-- `iriPattern`: such a character between `<` and the next `>`. -/
def iriPattern (part : Text) : Bool :=
  part.tails.any fun
    | '<' :: s => special (s.takeWhile (· ≠ '>')) && s.contains '>'
    | _ => false

/-- `hasSpecialCharactersInIRI`. -/
def hasSpecialCharactersInIRI (assertion : Text) : Bool :=
  (assertion.splitOn '\n').any fun line =>
    ((trim line).splitOn ' ').any fun part =>
      part.head? = some '<' && part.getLast? = some '>' && iriPattern part

/-- The IRI of the private predicate. -/
def privateAssertionID : Text := "https://ontology.origintrail.io/dkg/1.0#privateAssertionID".toList

/-- `PRIVATE_ASSERTION_ONTOLOGY`. -/
def PRIVATE_ASSERTION_ONTOLOGY : Text := '<' :: privateAssertionID ++ ['>']

/-- `input.substring(openingQuoteIndex, closingQuoteIndex)`. Without a closing quote its index is
    -1, and what is taken ends at the opening quote. -/
def quoted (input : Text) : Text :=
  let opened := (input.dropWhile (· ≠ '"')).drop 1
  if opened.contains '"' then opened.takeWhile (· ≠ '"') else input.takeWhile (· ≠ '"') ++ ['"']

/-- `extractPrivateAssertionId`. -/
def extractPrivateAssertionId (publicAssertion : Text) : Option Text :=
  match cut PRIVATE_ASSERTION_ONTOLOGY publicAssertion with
  | none => none
  | some (_, after) =>
    let input := ((cut PRIVATE_ASSERTION_ONTOLOGY after).map Prod.fst).getD after
    if !input.contains '"' || !includes input ['0', 'x'] then none
    else
      let privateAssertionId := trim (quoted input)
      if includes privateAssertionId ['0', 'x'] then some privateAssertionId else none

/-! ### What the text says -/

/-- An IRI of the assertion is illegal. -/
def HasIllegalIRI (graph : List Triple) : Prop :=
  ∃ t ∈ graph, ∃ iri : Token, special iri.1 = true ∧
    (t.subject = .iri iri ∨ t.predicate = .iri iri ∨ t.object = .iri iri)

/-- The assertion links the private assertion with this id. -/
def Links (graph : List Triple) (privateAssertionId : Text) : Prop :=
  ∃ t ∈ graph, ∃ predicate lexical suffix : Token, predicate.1 = privateAssertionID ∧
    lexical.1 = privateAssertionId ∧ t.predicate = .iri predicate ∧
    t.object = .literal lexical suffix

/-! ### The text of a graph -/

theorem trim_of_ends {s : Text} {c d : Char} (hc : isSpace c = false) (hd : isSpace d = false) :
    trim (c :: s ++ [d]) = c :: s ++ [d] := by
  rw [trim, List.cons_append, List.dropWhile_cons_of_neg (by simp [hc]), ← List.cons_append,
    List.rdropWhile_concat_neg _ _ _ (by simp [hd])]

theorem newline_not_mem_text (t : Term) : '\n' ∉ t.text := by
  cases t with
  | iri s => simp [Term.text, s.2]
  | blank label => simp [Term.text, label.2]
  | literal lexical suffix => simp [Term.text, lexical.2, suffix.2]

theorem newline_not_mem_line (t : Triple) : '\n' ∉ t.line := by
  simp [Triple.line, newline_not_mem_text]

/-- A term begins with a character that is not a space. -/
theorem text_eq_cons (t : Term) : ∃ c s, t.text = c :: s ∧ isSpace c = false := by
  cases t with
  | iri s => exact ⟨'<', _, rfl, rfl⟩
  | blank label => exact ⟨'_', _, rfl, rfl⟩
  | literal lexical suffix => exact ⟨'"', _, rfl, rfl⟩

theorem trim_line (t : Triple) : trim t.line = t.line := by
  obtain ⟨c, s, hs, hc⟩ := text_eq_cons t.subject
  have hline : t.line = c :: (s ++ ' ' :: t.predicate.text ++ ' ' :: t.object.text ++ [' ']) ++
      ['.'] := by
    simp [Triple.line, hs]
  rw [hline]
  exact trim_of_ends hc rfl

theorem line_ne_nil (t : Triple) : t.line ≠ [] := by simp [Triple.line]

theorem splitOn_nquads (graph : List Triple) :
    (nquads graph).splitOn '\n' = graph.map Triple.line ++ [[]] := by
  induction graph with
  | nil => simp [nquads]
  | cons t graph ih =>
    have hcons : nquads (t :: graph) = t.line ++ '\n' :: nquads graph := by simp [nquads]
    rw [hcons, List.splitOn_append_cons_self_of_not_mem (newline_not_mem_line t), ih]
    rfl

/-- CORRECT (content): the lines of a graph are the lines of its triples. -/
theorem processContent_nquads (graph : List Triple) :
    processContent (nquads graph) = graph.map Triple.line := by
  rw [processContent, splitOn_nquads, List.map_append, List.filter_append, List.map_map]
  have hmap : graph.map (trim ∘ Triple.line) = graph.map Triple.line :=
    List.map_congr_left fun t _ => trim_line t
  have hfilter : (graph.map Triple.line).filter (· ≠ []) = graph.map Triple.line :=
    List.filter_eq_self.mpr (by simp [line_ne_nil])
  rw [hmap, hfilter]
  simp [trim]

theorem nquads_eq_nil {graph : List Triple} : nquads graph = [] ↔ graph = [] := by
  cases graph with
  | nil => simp [nquads]
  | cons t graph => simp [nquads]

theorem includes_iff {s pattern : Text} : includes s pattern = true ↔ pattern <:+: s := by
  rw [includes, List.any_eq_true, List.infix_iff_prefix_suffix]
  constructor
  · rintro ⟨t, ht, hprefix⟩
    exact ⟨t, List.isPrefixOf_iff_prefix.mp hprefix, (List.mem_tails _ _).mp ht⟩
  · rintro ⟨t, hprefix, hsuffix⟩
    exact ⟨t, (List.mem_tails _ _).mpr hsuffix, List.isPrefixOf_iff_prefix.mpr hprefix⟩

/-- The text of an assertion that links a private one has the private predicate in it. -/
theorem includes_of_links {graph : List Triple} {id : Text} (h : Links graph id) :
    includes (nquads graph) PRIVATE_ASSERTION_ONTOLOGY = true := by
  obtain ⟨t, ht, predicate, lexical, suffix, hpredicate, -, hiri, -⟩ := h
  rw [includes_iff]
  have hline : PRIVATE_ASSERTION_ONTOLOGY <:+: t.line := by
    refine ⟨t.subject.text ++ [' '], ' ' :: t.object.text ++ [' ', '.'], ?_⟩
    simp [Triple.line, hiri, Term.text, hpredicate, PRIVATE_ASSERTION_ONTOLOGY]
  have hgraph : t.line <:+: nquads graph := by
    obtain ⟨before, after, rfl⟩ := List.append_of_mem ht
    exact ⟨nquads before, '\n' :: nquads after, by simp [nquads]⟩
  exact hline.trans hgraph

end OtNode.Migration
