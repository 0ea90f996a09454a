import OtNode.Lib.Replace
import OtNode.Paranet.Repositories

/-! Federated queries: the repositories of the SERVICE clauses, rewritten to their endpoints.

    The clauses are looked for first. Then each of their repositories is replaced where its name
    comes first in the text, which is its clause unless the name occurs before it. -/

namespace OtNode

open Utf JsNumber

def lessThan : UInt16 := unit '<'

def greaterThan : UInt16 := unit '>'

def dollar : UInt16 := unit '$'

/-- No angle brackets. -/
def Bare (s : JsString) : Prop := lessThan ∉ s ∧ greaterThan ∉ s

instance (s : JsString) : Decidable (Bare s) := inferInstanceAs (Decidable (_ ∧ _))

/-! ### The pattern -/

/-- A match of `/SERVICE\s+<([^>]+)>/g`: what is between the last one and it, its white space, and
    what is in its angle brackets. -/
structure ServiceClause where
  before : JsString
  spaces : JsString
  iri : JsString

namespace ServiceClause

variable (clause : ServiceClause)

/-- The match up to the opening bracket. -/
def keyword : JsString := units "SERVICE" ++ clause.spaces ++ [lessThan]

/-- The match. -/
def text : JsString := clause.keyword ++ clause.iri ++ [greaterThan]

/-- The repository: what is in the brackets, up to another opening one. -/
def repository : JsString := clause.iri.takeWhile (· != lessThan)

/-- A query of clauses, with what is in their brackets, and of what is behind them. -/
def assemble (iriOf : ServiceClause → JsString) : List ServiceClause → JsString → JsString
  | [], tail => tail
  | clause :: clauses, tail =>
    clause.before ++ clause.keyword ++ iriOf clause ++ assemble iriOf clauses tail

/-- A closing bracket comes first. -/
def IsClosed : List ServiceClause → JsString → Prop
  | [], tail => tail.head? = some greaterThan
  | clause :: _, _ => clause.before.head? = some greaterThan

/-- Clauses as the pattern matches them. -/
def Matched : List ServiceClause → JsString → Prop
  | [], _ => True
  | clause :: clauses, tail =>
    (greaterThan ∉ clause.iri ∧ Bare clause.spaces ∧ IsClosed clauses tail) ∧
      Matched clauses tail

end ServiceClause

/-- The match that starts a string: its white space, what is in its brackets, and the rest from the
    closing bracket on. -/
def matchService (s : JsString) : Option (JsString × JsString × JsString) :=
  if units "SERVICE" <+: s then
    let spaces := (s.drop 7).takeWhile isSpace
    match (s.drop 7).dropWhile isSpace with
    | c :: rest =>
      let iri := rest.takeWhile (· != greaterThan)
      let closed := rest.dropWhile (· != greaterThan)
      if c = lessThan ∧ spaces ≠ [] ∧ iri ≠ [] ∧ closed ≠ [] then some (spaces, iri, closed)
      else none
    | [] => none
  else none

/-- The matches of a string and what is behind them. The number is a bound of its length. A closing
    bracket starts no match, and is left to what follows. -/
def scan : ℕ → JsString → List ServiceClause × JsString
  | 0, s => ([], s)
  | _, [] => ([], [])
  | n + 1, c :: s =>
    match matchService (c :: s) with
    | some (spaces, iri, closed) => (⟨[], spaces, iri⟩ :: (scan n closed).1, (scan n closed).2)
    | none =>
      match scan n s with
      | ([], tail) => ([], c :: tail)
      | (clause :: clauses, tail) => ({ clause with before := c :: clause.before } :: clauses, tail)

/-- The matches in a query, and what is behind them. -/
def serviceClauses (query : JsString) : List ServiceClause × JsString := scan query.length query

/-- `query.match(pattern)`. -/
def queryMatches (query : JsString) : List JsString := (serviceClauses query).1.map (·.text)

/-! ### Endpoints -/

/-- What the triple store service has of the repositories: the implementation of each, and the
    endpoints that the implementations have. -/
structure SparqlEndpoints where
  repositoryImplementations : List (JsString × JsString)
  handlers : List (JsString × List (JsString × JsString))

namespace SparqlEndpoints

variable (endpoints : SparqlEndpoints)

/-- `getImplementation`, with its repositories. -/
def getImplementation (name : Option JsString) : Option (List (JsString × JsString)) :=
  match name with
  | none => endpoints.handlers.head?.map (·.2)
  | some name =>
    if endpoints.handlers.length = 1 ∨ name = [] then endpoints.handlers.head?.map (·.2)
    else endpoints.handlers.lookup name

/-- `getRepositorySparqlEndpoint`. -/
def getRepositorySparqlEndpoint (repository : JsString) : Except JsString JsString :=
  match endpoints.getImplementation (endpoints.repositoryImplementations.lookup repository) with
  | none => .error (units "Cannot read properties of undefined (reading 'module')")
  | some repositories =>
    match repositories.lookup repository with
    | none => .error (units "Cannot read properties of undefined (reading 'sparqlEndpoint')")
    | some sparqlEndpoint => .ok sparqlEndpoint

end SparqlEndpoints

/-! ### The command -/

/-- `Object.values(TRIPLE_STORE_REPOSITORIES)`. -/
def tripleStoreRepositories : List JsString :=
  [units "dkg", units "publicCurrent", units "privateCurrent"]

/-- What `QueryCommand` has: the configuration, the letter cases of the language, and the endpoints.
    -/
structure QueryCommand where
  assetSync : Option (Option (List JsString))
  table : CaseMapping
  endpoints : SparqlEndpoints

/-- What is put in place of a match: a dollar stands for itself, for the match, or for what is
    before or behind it, by whether a dollar, an ampersand, an accent or an apostrophe follows. -/
def getSubstitution (matched before after : JsString) : JsString → JsString
  | c :: d :: replacement =>
    if c = dollar then
      if d = dollar then dollar :: getSubstitution matched before after replacement
      else if d = 0x26 then matched ++ getSubstitution matched before after replacement
      else if d = 0x60 then before ++ getSubstitution matched before after replacement
      else if d = 0x27 then after ++ getSubstitution matched before after replacement
      else c :: getSubstitution matched before after (d :: replacement)
    else c :: getSubstitution matched before after (d :: replacement)
  | replacement => replacement

/-- `s.replace(pattern, replacement)` with a string for the pattern. -/
def replace (s pattern replacement : JsString) : JsString :=
  replaceFirst pattern (fun before after => getSubstitution pattern before after replacement) s

namespace QueryCommand

open ParanetService UALService

variable (command : QueryCommand)

/-- `this.config.assetSync?.syncParanets.includes(repository)`. -/
def isParanetRepoValid (repository : JsString) : Except JsString Bool :=
  match command.assetSync with
  | none => .ok false
  | some none => .error (units "Cannot read properties of undefined (reading 'includes')")
  | some (some syncParanets) => .ok (decide (repository ∈ syncParanets))

/-- `validateRepositoryName` behind the check of a paranet. -/
def validateTripleStoreRepository (repository : JsString) : Except JsString JsString :=
  if repository ∈ tripleStoreRepositories then .ok repository
  else .error (units "Query failed! Repository with name: " ++ repository ++
    units " doesn't exist")

/-- `validateRepositoryName`. -/
def validateRepositoryName (repository : JsString) : Except JsString JsString :=
  if isUAL repository = some true then do
    let paranetRepoName ← getParanetRepositoryName command.table repository
    let isParanetRepoValid ← command.isParanetRepoValid repository
    if isParanetRepoValid then pure paranetRepoName
    else validateTripleStoreRepository repository
  else validateTripleStoreRepository repository

/-- `match.split('<')[1].split('>')[0]`. -/
def repositoryInOriginalQuery (matched : JsString) : JsString :=
  ((((matched.splitOn lessThan).getD 1 []).splitOn greaterThan).headD [])

/-- The endpoint of a repository of the query. -/
def federatedQueryRepositoryEndpoint (repository : JsString) : Except JsString JsString := do
  let repositoryName ← command.validateRepositoryName repository
  command.endpoints.getRepositorySparqlEndpoint repositoryName

/-- STEP: one match. -/
def rewriteMatch (query matched : JsString) : Except JsString JsString := do
  let endpoint ← command.federatedQueryRepositoryEndpoint (repositoryInOriginalQuery matched)
  pure (replace query (repositoryInOriginalQuery matched) endpoint)

/-- The query that is executed. -/
def rewrite (query : JsString) : Except JsString JsString :=
  (queryMatches query).foldlM command.rewriteMatch query

/-! ### What is expected -/

/-- The endpoint of the repository of a clause. -/
def endpointOf (clause : ServiceClause) : JsString :=
  match command.federatedQueryRepositoryEndpoint clause.repository with
  | .ok endpoint => endpoint
  | .error _ => []

/-- The query with the endpoint of each clause in its brackets. -/
def rewritten (query : JsString) : JsString :=
  ServiceClause.assemble command.endpointOf (serviceClauses query).1 (serviceClauses query).2

/-- Behind what is rewritten already, the name of each clause comes first in its own brackets, or is
    its own endpoint. -/
def Unambiguous : JsString → List ServiceClause → Prop
  | _, [] => True
  | done, clause :: clauses =>
    (lessThan ∉ clause.iri ∧ (command.endpointOf clause = clause.iri ∨
        ¬ clause.iri <:+: done ++ clause.before ++ clause.keyword)) ∧
      Unambiguous (done ++ clause.before ++ clause.keyword ++ command.endpointOf clause) clauses

/-- It is decided clause by clause. -/
def decideUnambiguous : (done : JsString) → (clauses : List ServiceClause) →
    Decidable (command.Unambiguous done clauses)
  | _, [] => inferInstanceAs (Decidable True)
  | done, clause :: clauses =>
    have := decideUnambiguous
      (done ++ clause.before ++ clause.keyword ++ command.endpointOf clause) clauses
    inferInstanceAs (Decidable ((_ ∧ (_ ∨ ¬ _ <:+: _)) ∧ _))

instance (done : JsString) (clauses : List ServiceClause) :
    Decidable (command.Unambiguous done clauses) :=
  command.decideUnambiguous done clauses

end QueryCommand

/-- A dollar stands for nothing else. -/
def Literal (replacement : JsString) : Prop :=
  ∀ c ∈ [dollar, 0x26, 0x60, 0x27], ¬ [dollar, c] <:+: replacement

instance (replacement : JsString) : Decidable (Literal replacement) :=
  List.decidableBAll (fun c => ¬ [dollar, c] <:+: replacement) _

/-! ### The matches -/

open ServiceClause

theorem eq_of_matchService {s spaces iri closed : JsString}
    (h : matchService s = some (spaces, iri, closed)) :
    s = units "SERVICE" ++ spaces ++ [lessThan] ++ iri ++ closed ∧ greaterThan ∉ iri ∧
      Bare spaces ∧ closed.head? = some greaterThan := by
  rw [matchService] at h
  split_ifs at h with hstart
  obtain ⟨s, rfl⟩ := hstart
  rw [show 7 = (units "SERVICE").length from rfl, List.drop_left] at h
  have hsplit := List.takeWhile_append_dropWhile (p := isSpace) (l := s)
  have hspaces : ∀ c ∈ s.takeWhile isSpace, isSpace c = true := fun c hc =>
    List.mem_takeWhile_imp hc
  dsimp only at h
  split at h
  · rename_i c rest hrest
    split_ifs at h with hmatch
    obtain ⟨rfl, -, -, hclosed⟩ := hmatch
    cases h
    have hiri := List.takeWhile_append_dropWhile (p := (· != greaterThan)) (l := rest)
    refine ⟨?_, ?_, ⟨?_, ?_⟩, ?_⟩
    · simp only [List.append_assoc, List.cons_append, List.nil_append]
      rw [hiri, ← hrest, hsplit]
    · intro hmem
      have hne := List.mem_takeWhile_imp hmem
      simp at hne
    · intro hmem
      exact absurd (hspaces _ hmem) (by decide)
    · intro hmem
      exact absurd (hspaces _ hmem) (by decide)
    · have hhead := List.head?_dropWhile_not (· != greaterThan) rest
      rcases hfirst : (rest.dropWhile (· != greaterThan)).head? with - | c
      · exact absurd (List.head?_eq_none_iff.mp hfirst) hclosed
      · rw [hfirst] at hhead
        simpa using hhead
  · cases h

theorem matchService_greaterThan (s : JsString) : matchService (greaterThan :: s) = none := by
  rw [matchService, if_neg]
  intro hstart
  have hhead := (List.cons_prefix_cons.mp hstart).1
  revert hhead
  decide

theorem isClosed_scan (n : ℕ) {s : JsString} (h : s.head? = some greaterThan) :
    IsClosed (scan n s).1 (scan n s).2 := by
  cases s with
  | nil => cases h
  | cons c s =>
    cases h
    cases n with
    | zero => rfl
    | succ n =>
      rw [scan, matchService_greaterThan]
      dsimp only
      split <;> rfl

/-- The matches are in the query where they were found, and nothing else is. -/
theorem assemble_scan (n : ℕ) (s : JsString) :
    assemble iri (scan n s).1 (scan n s).2 = s ∧ Matched (scan n s).1 (scan n s).2 := by
  induction n generalizing s with
  | zero => exact ⟨rfl, trivial⟩
  | succ n ih =>
    cases s with
    | nil => exact ⟨rfl, trivial⟩
    | cons c s =>
      rw [scan]
      cases hmatch : matchService (c :: s) with
      | none =>
        obtain ⟨hs, hmatched⟩ := ih s
        dsimp only
        split
        · rename_i tail hscan
          rw [hscan] at hs
          exact ⟨congrArg (c :: ·) hs, trivial⟩
        · rename_i clause clauses tail hscan
          rw [hscan] at hs hmatched
          exact ⟨congrArg (c :: ·) hs, hmatched⟩
      | some found =>
        obtain ⟨spaces, iri, closed⟩ := found
        obtain ⟨heq, hiri, hspaces, hclosed⟩ := eq_of_matchService hmatch
        obtain ⟨hs, hmatched⟩ := ih closed
        refine ⟨?_, ⟨hiri, hspaces, isClosed_scan n hclosed⟩, hmatched⟩
        rw [assemble, hs, heq, keyword, List.nil_append]

theorem assemble_serviceClauses (query : JsString) :
    assemble iri (serviceClauses query).1 (serviceClauses query).2 = query :=
  (assemble_scan query.length query).1

theorem matched_serviceClauses (query : JsString) :
    Matched (serviceClauses query).1 (serviceClauses query).2 :=
  (assemble_scan query.length query).2

/-- The name that is read of a match. -/
theorem repositoryInOriginalQuery_text {clause : ServiceClause} (hspaces : Bare clause.spaces)
    (hiri : greaterThan ∉ clause.iri) :
    QueryCommand.repositoryInOriginalQuery clause.text = clause.repository := by
  have hstart : lessThan ∉ units "SERVICE" ++ clause.spaces := by
    rw [List.mem_append, not_or]
    exact ⟨by decide, hspaces.1⟩
  have htext : clause.text =
      (units "SERVICE" ++ clause.spaces) ++ lessThan :: (clause.iri ++ [greaterThan]) := by
    simp [text, keyword]
  rw [QueryCommand.repositoryInOriginalQuery, htext,
    List.splitOn_append_cons_self_of_not_mem hstart, List.getD_cons_succ, ← List.headD_eq_getD,
    headD_splitOn, headD_splitOn, List.takeWhile_takeWhile, repository]
  generalize clause.iri = iri at hiri
  induction iri with
  | nil => rfl
  | cons c iri ih =>
    rw [List.mem_cons, not_or] at hiri
    by_cases hc : c = lessThan
    · rw [List.cons_append, List.takeWhile_cons_of_neg (by simp [hc]),
        List.takeWhile_cons_of_neg (by simp [hc])]
    · rw [List.cons_append, List.takeWhile_cons_of_pos (by simp [hc, Ne.symm hiri.1]),
        List.takeWhile_cons_of_pos (by simp [hc]), ih hiri.2]

/-! ### One step -/

/-- What has no substitution pattern is put in place as it is. -/
theorem getSubstitution_of_literal {matched before after replacement : JsString}
    (h : Literal replacement) : getSubstitution matched before after replacement = replacement := by
  induction replacement with
  | nil => rfl
  | cons c s ih =>
    have htail : Literal s := fun d hd hoccurs =>
      h d hd (hoccurs.trans (List.suffix_cons c s).isInfix)
    cases s with
    | nil => rfl
    | cons d s =>
      rw [getSubstitution, ih htail]
      by_cases hc : c = dollar
      · have hd : ∀ e ∈ [dollar, 0x26, 0x60, 0x27], d ≠ e := by
          rintro e he rfl
          exact h d he ⟨[], s, by rw [hc]; rfl⟩
        simp only [List.forall_mem_cons] at hd
        rw [if_pos hc, if_neg hd.1, if_neg hd.2.1, if_neg hd.2.2.1, if_neg hd.2.2.2.1]
      · rw [if_neg hc]

/-- A name is replaced where it comes first. -/
theorem replace_append {name endpoint lead rest : JsString} (hendpoint : Literal endpoint)
    (hname : lessThan ∉ name) (hfirst : endpoint = name ∨ ¬ name <:+: lead ++ [lessThan]) :
    replace (lead ++ [lessThan] ++ name ++ rest) name endpoint =
      lead ++ [lessThan] ++ endpoint ++ rest := by
  rw [replace, replaceFirst]
  rcases hfirst with rfl | hfirst
  · split
    · rename_i before after hfound
      rw [getSubstitution_of_literal hendpoint, ← eq_of_firstOccurrence hfound]
    · rfl
  · rw [firstOccurrence_append]
    · dsimp only
      rw [getSubstitution_of_literal hendpoint]
    · intro before after heq
      by_contra hlt
      have hquery : lead ++ lessThan :: (name ++ rest) = before ++ name ++ after := by
        rw [← heq]
        simp
      rw [List.length_append, List.length_singleton] at hlt
      obtain ⟨between, rfl⟩ := occurrence_before hname hquery (by omega)
      exact hfirst ⟨before, between ++ [lessThan], by simp⟩

/-- A name that comes before its brackets is replaced there. -/
theorem replace_of_occurs {name endpoint lead rest next : JsString} (hendpoint : Literal endpoint)
    (hname : lessThan ∉ name) (hoccurs : name <:+: lead ++ [lessThan])
    (h : next = replace (lead ++ lessThan :: (name ++ rest)) name endpoint) :
    ∃ before between, lead = before ++ name ++ between ∧
      next = before ++ endpoint ++ between ++ lessThan :: (name ++ rest) := by
  obtain ⟨before', after', hoccurs⟩ := hoccurs
  rw [replace, replaceFirst] at h
  cases hfound : firstOccurrence name (lead ++ lessThan :: (name ++ rest)) with
  | none => exact absurd ⟨lead ++ [lessThan], rest, by simp⟩ (not_infix_of_firstOccurrence hfound)
  | some found =>
    obtain ⟨before, after⟩ := found
    have heq := eq_of_firstOccurrence hfound
    have hle : before.length ≤ lead.length := by
      have hlength := congrArg List.length hoccurs
      simp only [List.length_append, List.length_singleton] at hlength
      rcases Nat.eq_zero_or_pos name.length with hzero | hpos
      · obtain rfl := List.length_eq_zero_iff.mp hzero
        have hfirst : before.length ≤ ([] : JsString).length := firstOccurrence_le hfound rfl
        exact hfirst.trans (Nat.zero_le _)
      · have hagain : lead ++ lessThan :: (name ++ rest) =
            before' ++ name ++ (after' ++ (name ++ rest)) := by
          rw [← List.append_assoc, hoccurs]
          simp
        have hfirst := firstOccurrence_le hfound hagain
        omega
    obtain ⟨between, rfl⟩ := occurrence_before hname heq hle
    refine ⟨before, between, rfl, ?_⟩
    rw [hfound] at h
    dsimp only at h
    rw [h, getSubstitution_of_literal hendpoint]
    rw [List.append_assoc (before ++ name), List.append_cancel_left_eq] at heq
    rw [← heq, ← List.append_assoc]

/-! ### All steps -/

namespace QueryCommand

variable {command : QueryCommand} {clause : ServiceClause} {clauses : List ServiceClause}
  {tail done query executed : JsString}

theorem repository_eq (h : lessThan ∉ clause.iri) : clause.repository = clause.iri :=
  List.takeWhile_eq_self_iff.mpr fun c hc => by
    rw [bne_iff_ne]
    rintro rfl
    exact h hc

/-- STEP: the name of a match is replaced by its endpoint. -/
theorem rewriteMatch_text (hspaces : Bare clause.spaces) (hiri : greaterThan ∉ clause.iri)
    (h : command.rewriteMatch query clause.text = .ok executed) :
    executed = replace query clause.repository (command.endpointOf clause) := by
  rw [rewriteMatch, repositoryInOriginalQuery_text hspaces hiri] at h
  obtain ⟨endpoint, hendpoint, h⟩ := bind_eq_ok h
  cases h
  rw [endpointOf, hendpoint]

/-- STEP: where the name does not come before its clause, it is replaced in its own brackets. -/
theorem rewriteMatch_first {lead rest : JsString} (hspaces : Bare clause.spaces)
    (hiri : Bare clause.iri) (hliteral : Literal (command.endpointOf clause))
    (hfirst : command.endpointOf clause = clause.iri ∨
      ¬ clause.iri <:+: lead ++ clause.keyword)
    (h : command.rewriteMatch (lead ++ clause.keyword ++ clause.iri ++ rest) clause.text =
      .ok executed) :
    executed = lead ++ clause.keyword ++ command.endpointOf clause ++ rest := by
  have hkeyword : lead ++ clause.keyword =
      lead ++ units "SERVICE" ++ clause.spaces ++ [lessThan] := by
    simp [keyword]
  have hreplaced := rewriteMatch_text hspaces hiri.2 h
  rw [hkeyword] at hfirst
  rw [repository_eq hiri.1, hkeyword, replace_append hliteral hiri.1 hfirst] at hreplaced
  rw [hreplaced, hkeyword]

/-- A clause, behind what is rewritten already. -/
theorem append_assemble (iriOf : ServiceClause → JsString) (clause : ServiceClause)
    (clauses : List ServiceClause) (done tail : JsString) :
    done ++ assemble iriOf (clause :: clauses) tail =
      (done ++ clause.before) ++ clause.keyword ++ iriOf clause ++ assemble iriOf clauses tail := by
  simp [assemble]

/-- RUN: where no name comes before its clause, each is replaced in its own brackets. -/
theorem foldlM_rewriteMatch (hmatched : Matched clauses tail)
    (hliteral : ∀ clause ∈ clauses, Literal (command.endpointOf clause))
    (hunambiguous : command.Unambiguous done clauses)
    (h : (clauses.map (·.text)).foldlM command.rewriteMatch
      (done ++ assemble iri clauses tail) = .ok executed) :
    executed = done ++ assemble command.endpointOf clauses tail := by
  induction clauses generalizing done with
  | nil =>
    cases h
    rfl
  | cons clause clauses ih =>
    obtain ⟨⟨hiri, hspaces, -⟩, hmatched⟩ := hmatched
    obtain ⟨⟨hbare, hfirst⟩, hunambiguous⟩ := hunambiguous
    rw [List.forall_mem_cons] at hliteral
    rw [List.map_cons, List.foldlM_cons, append_assemble] at h
    obtain ⟨next, hnext, h⟩ := bind_eq_ok h
    rw [rewriteMatch_first hspaces ⟨hbare, hiri⟩ hliteral.1 hfirst hnext] at h
    rw [ih hmatched hliteral.2 hunambiguous h, append_assemble]

end QueryCommand

/-! ### The parts between the brackets -/

def isBracket (c : UInt16) : Bool := c == lessThan || c == greaterThan

theorem bare_iff {s : JsString} : Bare s ↔ ∀ c ∈ s, isBracket c = false := by
  simp only [isBracket, Bool.or_eq_false_iff, beq_eq_false_iff_ne]
  constructor
  · intro h c hc
    exact ⟨fun heq => h.1 (heq ▸ hc), fun heq => h.2 (heq ▸ hc)⟩
  · intro h
    exact ⟨fun hmem => (h _ hmem).1 rfl, fun hmem => (h _ hmem).2 rfl⟩

/-- What is between the brackets of a text. -/
def parts (s : JsString) : List JsString := s.splitOnP isBracket

theorem parts_append_cons (s t : JsString) {c : UInt16} (hc : isBracket c = true) :
    parts (s ++ c :: t) = parts s ++ parts t :=
  List.splitOnP_append_cons s t hc

theorem parts_of_bare {s : JsString} (h : Bare s) : parts s = [s] :=
  List.splitOnP_eq_singleton (bare_iff.mp h)

namespace QueryCommand

variable {command : QueryCommand} {clause : ServiceClause} {clauses : List ServiceClause}
  {tail done query executed name endpoint : JsString} {expected : List JsString}

/-- STEP: a replacement changes one part, if anything. -/
theorem differing_replace_le (hname : Bare name) (hendpoint : Bare endpoint)
    (hliteral : Literal endpoint) :
    differing (parts query) expected ≤
      differing (parts (replace query name endpoint)) expected +
        if endpoint = name then 0 else 1 := by
  rw [replace, replaceFirst]
  split
  · rename_i before after hfound
    rw [getSubstitution_of_literal hliteral, eq_of_firstOccurrence hfound]
    split_ifs with heq
    · rw [heq, Nat.add_zero]
    · exact differing_replace (bare_iff.mp hname) (bare_iff.mp hendpoint) before after expected
  · omega

/-- STEP: a replacement leaves the number of brackets. -/
theorem count_replace (hname : Bare name) (hendpoint : Bare endpoint) (hliteral : Literal endpoint) :
    (replace query name endpoint).count lessThan = query.count lessThan := by
  rw [replace, replaceFirst]
  split
  · rename_i before after hfound
    rw [getSubstitution_of_literal hliteral, eq_of_firstOccurrence hfound]
    simp only [List.count_append, List.count_eq_zero.mpr hname.1,
      List.count_eq_zero.mpr hendpoint.1]
  · rfl

/-- The clauses that are to be changed. -/
def changed (command : QueryCommand) (clauses : List ServiceClause) : ℕ :=
  clauses.countP fun clause => command.endpointOf clause ≠ clause.repository

theorem bare_repository (hiri : greaterThan ∉ clause.iri) : Bare clause.repository := by
  constructor
  · intro hmem
    have hne := List.mem_takeWhile_imp hmem
    simp at hne
  · intro hmem
    exact hiri ((List.takeWhile_sublist _).mem hmem)

/-- RUN: as many parts change as clauses are to be changed, at most, and no bracket. -/
theorem differing_run (expected : List JsString) (hmatched : Matched clauses tail)
    (hendpoints : ∀ clause ∈ clauses, Literal (command.endpointOf clause) ∧
      Bare (command.endpointOf clause))
    (h : (clauses.map (·.text)).foldlM command.rewriteMatch query = .ok executed) :
    differing (parts query) expected ≤
        differing (parts executed) expected + command.changed clauses ∧
      executed.count lessThan = query.count lessThan := by
  induction clauses generalizing query with
  | nil =>
    cases h
    exact ⟨le_rfl, rfl⟩
  | cons clause clauses ih =>
    obtain ⟨⟨hiri, hspaces, -⟩, hmatched⟩ := hmatched
    rw [List.forall_mem_cons] at hendpoints
    rw [List.map_cons, List.foldlM_cons] at h
    obtain ⟨next, hnext, h⟩ := bind_eq_ok h
    have hreplaced := rewriteMatch_text hspaces hiri hnext
    subst hreplaced
    obtain ⟨hle, hcount⟩ := ih hmatched hendpoints.2 h
    have hstep : differing (parts query) expected ≤
        differing (parts (replace query clause.repository (command.endpointOf clause))) expected +
          if command.endpointOf clause = clause.repository then 0 else 1 :=
      differing_replace_le (bare_repository hiri) hendpoints.1.2 hendpoints.1.1
    rw [count_replace (bare_repository hiri) hendpoints.1.2 hendpoints.1.1] at hcount
    refine ⟨?_, hcount⟩
    rw [changed, List.countP_cons, ← changed]
    simp only [ne_eq, decide_not, Bool.not_eq_true', decide_eq_false_iff_not]
    split_ifs at hstep ⊢ with heq
    · omega
    · omega

/-- A clause, in front of those that follow it. -/
theorem assemble_cons_eq {before : JsString} (iriOf : ServiceClause → JsString)
    (hbefore : clause.before = greaterThan :: before) (word : JsString) :
    word ++ assemble iriOf (clause :: clauses) tail =
      word ++ greaterThan :: (before ++ units "SERVICE" ++ clause.spaces ++
        lessThan :: (iriOf clause ++ assemble iriOf clauses tail)) := by
  rw [assemble, hbefore, keyword]
  simp

/-- The parts in which a query differs from what is expected: those of the clauses that are to be
    changed. -/
theorem differing_assemble {word word' : JsString} (hword : Bare word) (hword' : Bare word')
    (hmatched : Matched clauses tail) (hclosed : IsClosed clauses tail)
    (hclauses : ∀ clause ∈ clauses, lessThan ∉ clause.iri ∧ Bare (command.endpointOf clause)) :
    differing (parts (word ++ assemble iri clauses tail))
        (parts (word' ++ assemble command.endpointOf clauses tail)) =
      (if word = word' then 0 else 1) + command.changed clauses := by
  induction clauses generalizing word word' with
  | nil =>
    obtain ⟨rest, rfl⟩ : ∃ rest, tail = greaterThan :: rest := List.head?_eq_some_iff.mp hclosed
    rw [assemble, assemble, parts_append_cons word rest rfl, parts_append_cons word' rest rfl,
      parts_of_bare hword, parts_of_bare hword', List.singleton_append, List.singleton_append,
      differing, differing_self]
    rfl
  | cons clause clauses ih =>
    obtain ⟨before, hbefore⟩ := List.head?_eq_some_iff.mp hclosed
    obtain ⟨⟨hiri, -, hclosed⟩, hmatched⟩ := hmatched
    rw [List.forall_mem_cons] at hclauses
    have hrest := ih ⟨hclauses.1.1, hiri⟩ hclauses.1.2 hmatched hclosed hclauses.2
    rw [assemble_cons_eq iri hbefore, assemble_cons_eq command.endpointOf hbefore,
      parts_append_cons word _ rfl, parts_append_cons word' _ rfl, parts_append_cons _ _ rfl,
      parts_append_cons _ _ rfl, parts_of_bare hword, parts_of_bare hword', List.singleton_append,
      List.singleton_append, differing, differing_append rfl, differing_self, hrest, changed, changed,
      List.countP_cons, repository_eq hclauses.1.1]
    have hswap : (if clause.iri = command.endpointOf clause then 0 else 1) =
        if command.endpointOf clause ≠ clause.iri then 1 else 0 := by
      simp [eq_comm]
    simp only [hswap, decide_eq_true_eq]
    omega

/-- A name that comes before its clause is not made up for: one replacement is missing. -/
theorem foldlM_ne_of_occurs (hmatched : Matched (clause :: clauses) tail)
    (hclauses : ∀ c ∈ clause :: clauses, lessThan ∉ c.iri ∧ Literal (command.endpointOf c) ∧
      Bare (command.endpointOf c))
    (hne : command.endpointOf clause ≠ clause.iri)
    (hoccurs : clause.iri <:+: done ++ clause.before ++ clause.keyword)
    (h : ((clause :: clauses).map (·.text)).foldlM command.rewriteMatch
      (done ++ assemble iri (clause :: clauses) tail) = .ok executed) :
    executed ≠ done ++ assemble command.endpointOf (clause :: clauses) tail := by
  rintro rfl
  obtain ⟨⟨hiri, hspaces, hclosed⟩, hmatched⟩ := hmatched
  rw [List.forall_mem_cons] at hclauses
  obtain ⟨⟨hbare, hliteral, hendpoint⟩, hclauses⟩ := hclauses
  rw [List.map_cons, List.foldlM_cons] at h
  obtain ⟨next, hnext, h⟩ := bind_eq_ok h
  have hreplaced := rewriteMatch_text hspaces hiri hnext
  rw [repository_eq hbare] at hreplaced
  have hquery : done ++ assemble iri (clause :: clauses) tail =
      (done ++ clause.before ++ units "SERVICE" ++ clause.spaces) ++
        lessThan :: (clause.iri ++ assemble iri clauses tail) := by
    simp [assemble, keyword]
  obtain ⟨before, between, hlead, hnext⟩ : ∃ before between,
      done ++ clause.before ++ units "SERVICE" ++ clause.spaces =
          before ++ clause.iri ++ between ∧
        next = before ++ command.endpointOf clause ++ between ++
          lessThan :: (clause.iri ++ assemble iri clauses tail) := by
    rw [hquery] at hreplaced
    exact replace_of_occurs hliteral hbare (by simpa [keyword] using hoccurs) hreplaced
  have hexpected : done ++ assemble command.endpointOf (clause :: clauses) tail =
      before ++ clause.iri ++ between ++
        lessThan :: (command.endpointOf clause ++ assemble command.endpointOf clauses tail) := by
    rw [← hlead]
    simp [assemble, keyword]
  have hrun := (differing_run (parts (done ++ assemble command.endpointOf (clause :: clauses) tail))
    hmatched (fun c hc => (hclauses c hc).2) h).1
  have hparts := differing_assemble ⟨hbare, hiri⟩ hendpoint hmatched hclosed
    fun c hc => ⟨(hclauses c hc).1, (hclauses c hc).2.2⟩
  rw [differing_self, hnext, hexpected, parts_append_cons _ _ rfl, parts_append_cons _ _ rfl,
    differing_append, hparts, if_neg hne.symm] at hrun
  · omega
  · exact length_splitOnP_replace (bare_iff.mp hendpoint) (bare_iff.mp ⟨hbare, hiri⟩) before between

/-- The opening brackets of a query: those of what is expected, and those in the names. -/
theorem count_assemble (hendpoints : ∀ clause ∈ clauses, Bare (command.endpointOf clause)) :
    (assemble iri clauses tail).count lessThan =
      (assemble command.endpointOf clauses tail).count lessThan +
        (clauses.map (·.iri.count lessThan)).sum := by
  induction clauses with
  | nil => rfl
  | cons clause clauses ih =>
    rw [List.forall_mem_cons] at hendpoints
    have hzero := List.count_eq_zero.mpr hendpoints.1.1
    simp only [assemble, List.count_append, ih hendpoints.2, hzero, List.map_cons, List.sum_cons]
    omega

/-- RUN: where each is replaced in its own brackets, no name comes before its clause. -/
theorem unambiguous_of_foldlM (hmatched : Matched clauses tail)
    (hclauses : ∀ clause ∈ clauses, lessThan ∉ clause.iri ∧
      Literal (command.endpointOf clause) ∧ Bare (command.endpointOf clause))
    (h : (clauses.map (·.text)).foldlM command.rewriteMatch
      (done ++ assemble iri clauses tail) =
        .ok (done ++ assemble command.endpointOf clauses tail)) :
    command.Unambiguous done clauses := by
  induction clauses generalizing done with
  | nil => trivial
  | cons clause clauses ih =>
    have hbare := (hclauses clause List.mem_cons_self).1
    by_cases hfirst : command.endpointOf clause = clause.iri ∨
        ¬ clause.iri <:+: done ++ clause.before ++ clause.keyword
    · obtain ⟨⟨hiri, hspaces, hclosed⟩, hmatched'⟩ := hmatched
      refine ⟨⟨hbare, hfirst⟩, ih hmatched' (fun c hc => hclauses c (List.mem_cons_of_mem _ hc)) ?_⟩
      rw [List.map_cons, List.foldlM_cons, append_assemble] at h
      obtain ⟨next, hnext, h⟩ := bind_eq_ok h
      rw [rewriteMatch_first hspaces ⟨hbare, hiri⟩ (hclauses clause List.mem_cons_self).2.1 hfirst
        hnext] at h
      rw [h, append_assemble]
    · rw [not_or, not_not] at hfirst
      exact absurd rfl (foldlM_ne_of_occurs hmatched hclauses hfirst.1 hfirst.2 h)

/-- CODE BUG (federated rewriting): the executed query has the endpoint of each clause in the
    brackets of the clause, and nothing else is changed, where no name comes before its clause and
    no dollar of an endpoint stands for something else; and for endpoints without brackets and such
    dollars, only there. -/
theorem rewrite_iff (command : QueryCommand) {query executed : JsString}
    (h : command.rewrite query = .ok executed) :
    ((∀ clause ∈ (serviceClauses query).1, Literal (command.endpointOf clause)) →
        command.Unambiguous [] (serviceClauses query).1 → executed = command.rewritten query) ∧
      ((∀ clause ∈ (serviceClauses query).1, Literal (command.endpointOf clause) ∧
          Bare (command.endpointOf clause)) →
        (executed = command.rewritten query ↔
          command.Unambiguous [] (serviceClauses query).1)) := by
  have hmatched := matched_serviceClauses query
  have hrun : ((serviceClauses query).1.map (·.text)).foldlM command.rewriteMatch
      ([] ++ assemble iri (serviceClauses query).1 (serviceClauses query).2) = .ok executed := by
    rw [List.nil_append, assemble_serviceClauses]
    exact h
  have hprecise : (∀ clause ∈ (serviceClauses query).1, Literal (command.endpointOf clause)) →
      command.Unambiguous [] (serviceClauses query).1 → executed = command.rewritten query :=
    fun hliteral hunambiguous => foldlM_rewriteMatch hmatched hliteral hunambiguous hrun
  refine ⟨hprecise, fun hendpoints => ⟨?_, hprecise fun clause hc => (hendpoints clause hc).1⟩⟩
  rintro rfl
  -- no bracket is lost, so that none is in a name
  have hcount := (differing_run [] hmatched hendpoints hrun).2
  rw [List.nil_append, count_assemble fun clause hc => (hendpoints clause hc).2] at hcount
  have hzero : ((serviceClauses query).1.map (·.iri.count lessThan)).sum = 0 := by
    rw [rewritten] at hcount
    omega
  have hbare : ∀ clause ∈ (serviceClauses query).1, lessThan ∉ clause.iri := by
    intro clause hc
    have hnone := List.sum_eq_zero_iff_forall_eq_nat.mp hzero _ (List.mem_map_of_mem hc)
    exact List.count_eq_zero.mp hnone
  exact unambiguous_of_foldlM hmatched (fun clause hc => ⟨hbare clause hc, hendpoints clause hc⟩) hrun

/-- A node with the repository `dkg`. -/
def dkgNode : QueryCommand where
  assetSync := none
  table := UALService.someTable
  endpoints := {
    repositoryImplementations := [(units "dkg", units "ot-blazegraph")]
    handlers := [(units "ot-blazegraph", [(units "dkg", units "http://x/dkg/sparql")])] }

/-- As many clauses as names. -/
def federated (repositories : List String) : JsString :=
  repositories.flatMap fun name => units "SERVICE <" ++ units name ++ units "> {} "

theorem rewrite_iff_one :
    dkgNode.rewrite (federated ["dkg"]) = .ok (federated ["http://x/dkg/sparql"]) ∧
      (federated ["http://x/dkg/sparql"] = dkgNode.rewritten (federated ["dkg"]) ↔
        dkgNode.Unambiguous [] (serviceClauses (federated ["dkg"])).1) :=
  have h : dkgNode.rewrite (federated ["dkg"]) = .ok (federated ["http://x/dkg/sparql"]) := by
    decide +kernel
  ⟨h, (rewrite_iff dkgNode h).2 (by decide +kernel)⟩

/-- COUNTEREXAMPLE: of two clauses with one repository, the first gets both endpoints. -/
theorem rewrite_twice :
    dkgNode.rewrite (federated ["dkg", "dkg"]) =
        .ok (federated ["http://x/http://x/dkg/sparql/sparql", "dkg"]) ∧
      federated ["http://x/http://x/dkg/sparql/sparql", "dkg"] ≠
        dkgNode.rewritten (federated ["dkg", "dkg"]) := by
  decide +kernel

end QueryCommand

end OtNode
