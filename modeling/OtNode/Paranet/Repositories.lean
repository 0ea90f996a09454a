import OtNode.Lib.Casing
import OtNode.Ual.RoundTrip

/-! The repositories of the paranets.

    The name of a repository is the UAL of its paranet in lower case, with a hyphen for every slash
    and every colon. UALs with the same words between their separators share a repository, whatever
    the separators are. -/

namespace OtNode

open Utf

namespace ParanetService

open UALService

def hyphen : UInt16 := unit '-'

/-- `paranetUAL.replace(/[/:]/g, '-')`. -/
def replaceSeparators (paranetUAL : JsString) : JsString :=
  paranetUAL.map fun c => if c = UALService.slash ∨ c = colon then hyphen else c

/-- `getParanetRepositoryName`. -/
def getParanetRepositoryName (table : CaseMapping) (paranetUAL : JsString) :
    Except JsString JsString :=
  if isUAL paranetUAL = some true then
    .ok (units "paranet-" ++ table.toLowerCase (replaceSeparators paranetUAL))
  else
    .error (units "Unable to get Paranet repository name. Paranet id doesn't have UAL format: " ++
      paranetUAL)

/-! ### Words and separators -/

/-- What a name shows as a hyphen. -/
def isSeparator (c : UInt16) : Bool := c == UALService.slash || c == colon || c == hyphen

/-- The words between the separators. -/
def words (ual : JsString) : List JsString := ual.splitOnP isSeparator

/-- The separators, in order. -/
def separators (ual : JsString) : JsString := ual.filter isSeparator

variable {table : WordMapping} {s t word : JsString} {c : UInt16}

theorem isSeparator_iff : isSeparator c = true ↔ c = UALService.slash ∨ c = colon ∨ c = hyphen := by
  simp [isSeparator, or_assoc]

theorem words_append_cons (hword : ∀ d ∈ word, isSeparator d = false) (hc : isSeparator c = true) :
    words (word ++ c :: s) = word :: words s :=
  List.splitOnP_append_cons_of_forall_mem hword c hc s

theorem separators_word (hword : ∀ d ∈ word, isSeparator d = false) : separators word = [] :=
  List.filter_eq_nil_iff.mpr fun d hd => by simp [hword d hd]

theorem separators_append_cons (hword : ∀ d ∈ word, isSeparator d = false)
    (hc : isSeparator c = true) : separators (word ++ c :: s) = c :: separators s := by
  rw [separators, List.filter_append, ← separators, separators_word hword,
    List.filter_cons_of_pos hc, List.nil_append, separators]

theorem words_word (hword : ∀ d ∈ word, isSeparator d = false) : words word = [word] :=
  List.splitOnP_eq_singleton hword

/-- A word has no separator in lower case. -/
theorem isSeparator_toLowerCase (hword : ∀ d ∈ word, isSeparator d = false)
    (hc : c ∈ table.toLowerCase word) : isSeparator c = false := by
  by_contra hsep
  rw [Bool.not_eq_false, isSeparator_iff] at hsep
  have hmem : c ∈ word := by
    rcases hsep with rfl | rfl | rfl
    · exact (CaseMapping.mem_toLowerCase (.inl (by decide))).mp hc
    · exact (CaseMapping.mem_toLowerCase (.inr (by decide))).mp hc
    · exact WordMapping.hyphen_mem_toLowerCase hc
  have hnot := hword c hmem
  rw [isSeparator_iff.mpr hsep] at hnot
  cases hnot

/-- The name is made of the words in lower case. -/
theorem toLowerCase_replaceSeparators (s : JsString) :
    table.toLowerCase (replaceSeparators s) =
      [hyphen].intercalate ((words s).map table.toLowerCase) := by
  have hkeep : ∀ {word : JsString}, (∀ d ∈ word, isSeparator d = false) →
      replaceSeparators word = word := by
    intro word hword
    refine (List.map_congr_left fun d hd => ?_).trans (List.map_id word)
    refine if_neg ?_
    intro hsep
    have hnot := hword d hd
    rw [isSeparator_iff.mpr (hsep.imp_right .inl)] at hnot
    cases hnot
  induction s using separated_induction (p := isSeparator) with
  | word w hw => rw [hkeep hw, words_word hw, List.map_singleton, List.intercalate_singleton]
  | cons w c s hw hc ih =>
    have hreplace : replaceSeparators (w ++ c :: s) = w ++ hyphen :: replaceSeparators s := by
      rw [replaceSeparators, List.map_append, List.map_cons, ← replaceSeparators, hkeep hw]
      congr 2
      rcases isSeparator_iff.mp hc with rfl | rfl | rfl <;> rfl
    rw [hreplace, CaseMapping.toLowerCase_stop (by decide) table.cased_hyphen table.ignorable_hyphen,
      ih, words_append_cons hw hc, List.map_cons, List.intercalate_cons_of_ne_nil]
    · rw [List.append_assoc]
      rfl
    · simp [words, List.splitOnP_ne_nil]

/-- Names are the same if and only if the words are, in lower case. -/
theorem toLowerCase_replaceSeparators_eq_iff :
    table.toLowerCase (replaceSeparators s) = table.toLowerCase (replaceSeparators t) ↔
      (words s).map table.toLowerCase = (words t).map table.toLowerCase := by
  have hwords : ∀ u : JsString, ∀ l ∈ (words u).map table.toLowerCase, hyphen ∉ l := by
    intro u l hl hmem
    obtain ⟨word, hword, rfl⟩ := List.mem_map.mp hl
    have hsep := isSeparator_toLowerCase (notMem_of_mem_splitOnP hword) hmem
    revert hsep
    decide
  have hne : ∀ u : JsString, (words u).map table.toLowerCase ≠ [] := by
    intro u
    simp [words, List.splitOnP_ne_nil]
  rw [toLowerCase_replaceSeparators, toLowerCase_replaceSeparators]
  constructor
  · intro h
    rw [← List.splitOn_intercalate hyphen (hwords s) (hne s), h,
      List.splitOn_intercalate hyphen (hwords t) (hne t)]
  · intro h
    rw [h]

/-! ### Letter case -/

/-- What a separator is in lower case. -/
theorem ascii_of_isSeparator (hc : isSeparator c = true) :
    c.toNat < 0x80 ∧ lowerPoint c.toNat = c.toNat := by
  rcases isSeparator_iff.mp hc with rfl | rfl | rfl <;> decide

/-- Words with separators between them. -/
def weave : List JsString → JsString → JsString
  | word :: rest, c :: seps => word ++ c :: weave rest seps
  | [word], [] => word
  | _, _ => []

/-- A UAL up to letter case: its words, and its separators. -/
theorem caseFold_eq_weave (s : JsString) :
    table.caseFold s = weave ((words s).map table.caseFold) (separators s) := by
  induction s using separated_induction (p := isSeparator) with
  | word w hw =>
    rw [words_word hw, separators_word hw, List.map_singleton, weave]
  | cons w c s hw hc ih =>
    have hascii := ascii_of_isSeparator hc
    rw [CaseMapping.caseFold_append_cons hascii.1 hascii.2, ih, words_append_cons hw hc,
      separators_append_cons hw hc, List.map_cons, weave]

theorem isSeparator_foldUnit : isSeparator (CaseMapping.foldUnit c) = isSeparator c := by
  rw [CaseMapping.foldUnit]
  split_ifs with h
  · rw [h]
    decide
  · rfl

/-- A word has no separator without its letter case. -/
theorem isSeparator_caseFold (hword : ∀ d ∈ word, isSeparator d = false)
    (hc : c ∈ table.caseFold word) : isSeparator c = false := by
  obtain ⟨d, hd, rfl⟩ := List.mem_map.mp hc
  rw [isSeparator_foldUnit, isSeparator_toLowerCase hword hd]

/-- Letter case leaves the separators. -/
theorem separators_caseFold (s : JsString) : separators (table.caseFold s) = separators s := by
  induction s using separated_induction (p := isSeparator) with
  | word w hw => rw [separators_word hw, separators_word fun c hc => isSeparator_caseFold hw hc]
  | cons w c s hw hc ih =>
    have hascii := ascii_of_isSeparator hc
    rw [CaseMapping.caseFold_append_cons hascii.1 hascii.2,
      separators_append_cons (fun c hc => isSeparator_caseFold hw hc) hc, ih,
      separators_append_cons hw hc]

/-- CODE BUG (names): two UALs that share a repository are equal up to letter case if and only if
    they have the same separators. -/
theorem sharesRepository_iff (table : WordMapping) {paranetUAL other : JsString}
    (hparanet : isUAL paranetUAL = some true) (hother : isUAL other = some true) :
    (getParanetRepositoryName table.toCaseMapping paranetUAL =
        getParanetRepositoryName table.toCaseMapping other →
      table.EqualUpToCase paranetUAL other) ↔
    separators paranetUAL = separators other ∨
      (words paranetUAL).map table.toLowerCase ≠ (words other).map table.toLowerCase := by
  have hnames : getParanetRepositoryName table.toCaseMapping paranetUAL =
      getParanetRepositoryName table.toCaseMapping other ↔
        (words paranetUAL).map table.toLowerCase = (words other).map table.toLowerCase := by
    rw [getParanetRepositoryName, getParanetRepositoryName, if_pos hparanet, if_pos hother,
      Except.ok.injEq, List.append_cancel_left_eq, toLowerCase_replaceSeparators_eq_iff]
  have hfold : ∀ s : JsString, (words s).map table.caseFold =
      ((words s).map table.toLowerCase).map fun word => word.map CaseMapping.foldUnit := by
    intro s
    rw [List.map_map]
    rfl
  rw [hnames]
  by_cases hwords : (words paranetUAL).map table.toLowerCase = (words other).map table.toLowerCase
  · simp only [hwords, true_imp_iff, ne_eq, not_true_eq_false, or_false]
    rw [CaseMapping.EqualUpToCase]
    constructor
    · intro hequal
      have hseps := congrArg separators hequal
      rwa [separators_caseFold, separators_caseFold] at hseps
    · intro hseps
      rw [caseFold_eq_weave, caseFold_eq_weave, hfold, hfold, hwords, hseps]
  · simp [hwords]

/-- The asset `number` of the collection 5, and the state `number` of it. -/
def paranetWith (separator : Char) (number : String) : JsString :=
  ualOf (units "otp:2043") ++ unit separator :: units number

theorem lower_hyphen_someTable (p : ℕ) (h : 0x80 ≤ p) : 0x2D ∉ someTable.lower p := by
  intro hmem
  rw [someTable] at hmem
  dsimp only at hmem
  split_ifs at hmem <;> simp at hmem <;> omega

def someWords : WordMapping where
  toCaseMapping := someTable
  cased_hyphen := rfl
  ignorable_hyphen := rfl
  lower_hyphen := lower_hyphen_someTable

theorem sharesRepository_iff_assets :
    isUAL (paranetWith '/' "3") = some true ∧
      isUAL (paranetWith '/' "4") = some true ∧
      ((getParanetRepositoryName someWords.toCaseMapping (paranetWith '/' "3") =
          getParanetRepositoryName someWords.toCaseMapping (paranetWith '/' "4") →
        someWords.EqualUpToCase (paranetWith '/' "3") (paranetWith '/' "4")) ↔
      separators (paranetWith '/' "3") = separators (paranetWith '/' "4") ∨
        (words (paranetWith '/' "3")).map someWords.toLowerCase ≠
          (words (paranetWith '/' "4")).map someWords.toLowerCase) :=
  ⟨by decide +kernel, by decide +kernel,
    sharesRepository_iff someWords (by decide +kernel) (by decide +kernel)⟩

/-- COUNTEREXAMPLE: the asset 3 of a collection and the state 3 of it share a repository. -/
theorem sharesRepository_assetAndState :
    isUAL (paranetWith '/' "3") = some true ∧
      isUAL (paranetWith ':' "3") = some true ∧
      getParanetRepositoryName someWords.toCaseMapping (paranetWith '/' "3") =
        getParanetRepositoryName someWords.toCaseMapping (paranetWith ':' "3") ∧
      ¬ someWords.EqualUpToCase (paranetWith '/' "3") (paranetWith ':' "3") := by
  decide +kernel

end ParanetService

end OtNode
