import OtNode.Lib.Sparql
import OtNode.Query.Rewrite

/-! The endpoints that the SERVICE clauses of an executed query go to.

    Only the clauses that the pattern matches are checked and rewritten. With the matches marked,
    the query has the clauses of the query that is executed, and those without a mark go where they
    went. -/

namespace OtNode

open Utf Sparql

namespace ServiceClause

variable {clause : ServiceClause} {clauses : List ServiceClause} {tail : JsString}

/-- A query with its matches marked, each in the place of what is in its brackets. -/
def template : List ServiceClause → JsString → List (Symbol ServiceClause)
  | [], tail => tail.map .char
  | clause :: clauses, tail =>
    (clause.before ++ units "SERVICE" ++ clause.spaces).map .char ++
      .marked clause :: template clauses tail

theorem fill_template (iriOf : ServiceClause → JsString) (clauses : List ServiceClause)
    (tail : JsString) :
    fill iriOf (template clauses tail) = (assemble iriOf clauses tail).map .char := by
  induction clauses with
  | nil =>
    have hfill := fill_append_char iriOf tail []
    rw [List.append_nil] at hfill
    exact hfill.trans (List.append_nil _)
  | cons clause clauses ih =>
    rw [template, fill_append_char, fill_marked, ih, assemble, keyword]
    simp [opening, lessThan]

theorem framed_template (hmatched : Matched clauses tail) : Framed (template clauses tail) := by
  induction clauses with
  | nil =>
    have hframed := (framed_append_char tail ([] : List (Symbol ServiceClause))).mpr trivial
    rwa [List.append_nil] at hframed
  | cons clause clauses ih =>
    obtain ⟨⟨-, -, hclosed⟩, hmatched⟩ := hmatched
    refine (framed_append_char _ _).mpr ⟨?_, ih hmatched⟩
    cases clauses with
    | nil =>
      obtain ⟨rest, rfl⟩ : ∃ rest, tail = greaterThan :: rest := List.head?_eq_some_iff.mp hclosed
      rfl
    | cons next clauses =>
      obtain ⟨before, hbefore⟩ := List.head?_eq_some_iff.mp hclosed
      rw [template, hbefore]
      rfl

theorem mem_of_marked_mem (h : .marked clause ∈ template clauses tail) : clause ∈ clauses := by
  induction clauses with
  | nil => exact absurd h (marked_notMem_chars clause tail)
  | cons first clauses ih =>
    rw [template, List.mem_append, or_iff_right (marked_notMem_chars clause _), List.mem_cons] at h
    rcases h with heq | h
    · cases heq
      exact List.mem_cons_self
    · exact List.mem_cons_of_mem _ (ih h)

end ServiceClause

open ServiceClause

/-- The targets of the SERVICE clauses of a query, with the matches marked. -/
def clauseTargets (query : JsString) : List (Option (Token ServiceClause)) :=
  targets (tokensOf (template (serviceClauses query).1 (serviceClauses query).2))

theorem mem_of_mem_clauseTargets {query : JsString} {clause : ServiceClause}
    (h : some (.marked clause) ∈ clauseTargets query) : clause ∈ (serviceClauses query).1 :=
  mem_of_marked_mem (mem_of_target h)

/-- The query has the clauses of the query with the matches marked. -/
theorem serviceTargets_assemble (iriOf : ServiceClause → JsString) {query : JsString}
    (hplain : ∀ clause ∈ (serviceClauses query).1, PlainIri (iriOf clause)) :
    serviceTargets (assemble iriOf (serviceClauses query).1 (serviceClauses query).2) =
      (clauseTargets query).map (Option.map (Token.fill iriOf)) := by
  rw [serviceTargets, ← fill_template,
    tokensOf_fill (fun clause hclause => hplain clause (mem_of_marked_mem hclause))
      (framed_template (matched_serviceClauses query)), targets_fill, clauseTargets]

/-- With IRIs for names, the marks stand for targets of the query. -/
theorem serviceTargets_eq {query : JsString}
    (hplain : ∀ clause ∈ (serviceClauses query).1, PlainIri clause.iri) :
    serviceTargets query = (clauseTargets query).map (Option.map (Token.fill iri)) := by
  have htargets := serviceTargets_assemble iri hplain
  rwa [assemble_serviceClauses] at htargets

namespace QueryCommand

variable (command : QueryCommand)

/-- The built-in repositories and those of the paranets that are synced. -/
def allowedRepositories : List JsString :=
  tripleStoreRepositories ++ (command.assetSync.join.getD []).filterMap
    fun paranetUAL => (ParanetService.getParanetRepositoryName command.table paranetUAL).toOption

/-- Their endpoints. -/
def allowedEndpoints : List JsString :=
  command.allowedRepositories.filterMap
    fun repository => (command.endpoints.getRepositorySparqlEndpoint repository).toOption

/-- Every clause goes to an endpoint that is allowed, and names it by its IRI: a prefixed name or a
    relative IRI that stands for such an endpoint counts as another target. -/
def Confined (executed : JsString) : Prop :=
  ∀ target ∈ serviceTargets executed,
    ∃ endpoint ∈ command.allowedEndpoints, target = some (.iri endpoint)

instance (executed : JsString) : Decidable (command.Confined executed) :=
  inferInstanceAs (Decidable (∀ target ∈ serviceTargets executed,
    ∃ endpoint ∈ command.allowedEndpoints, target = some (.iri endpoint)))

/-- Every clause is a match, or has an endpoint that is allowed. -/
def Recognised (query : JsString) : Prop :=
  ∀ target ∈ clauseTargets query, (∃ clause, target = some (.marked clause)) ∨
    ∃ endpoint ∈ command.allowedEndpoints, target = some (.iri endpoint)

variable {command} {repository name endpoint query executed : JsString}

theorem validateTripleStoreRepository_ok (h : validateTripleStoreRepository repository = .ok name) :
    name ∈ tripleStoreRepositories := by
  rw [validateTripleStoreRepository] at h
  split_ifs at h with hmem
  cases h
  exact hmem

/-- A repository that is accepted is allowed. -/
theorem validateRepositoryName_ok (h : command.validateRepositoryName repository = .ok name) :
    name ∈ command.allowedRepositories := by
  rw [allowedRepositories, List.mem_append]
  rw [validateRepositoryName] at h
  split_ifs at h
  · obtain ⟨paranetRepoName, hname, h⟩ := bind_eq_ok h
    obtain ⟨valid, hvalid, h⟩ := bind_eq_ok h
    cases valid with
    | false => exact .inl (validateTripleStoreRepository_ok h)
    | true =>
      cases h
      right
      rw [isParanetRepoValid] at hvalid
      split at hvalid
      · cases hvalid
      · cases hvalid
      · rename_i syncParanets hsync
        rw [hsync]
        exact List.mem_filterMap.mpr ⟨repository, of_decide_eq_true (Except.ok.inj hvalid), by
          rw [hname]
          rfl⟩
  · exact .inl (validateTripleStoreRepository_ok h)

theorem federatedQueryRepositoryEndpoint_ok
    (h : command.federatedQueryRepositoryEndpoint repository = .ok endpoint) :
    endpoint ∈ command.allowedEndpoints := by
  obtain ⟨name, hname, h⟩ := bind_eq_ok h
  exact List.mem_filterMap.mpr ⟨name, validateRepositoryName_ok hname, by
    rw [h]
    rfl⟩

/-- RUN: where the query is not rejected, each match has an endpoint that is allowed. -/
theorem endpointOf_mem {clauses : List ServiceClause} {tail : JsString}
    (hmatched : Matched clauses tail)
    (h : (clauses.map (·.text)).foldlM command.rewriteMatch query = .ok executed)
    {clause : ServiceClause} (hclause : clause ∈ clauses) :
    command.endpointOf clause ∈ command.allowedEndpoints := by
  induction clauses generalizing query with
  | nil => cases hclause
  | cons first clauses ih =>
    obtain ⟨⟨hiri, hspaces, -⟩, hmatched⟩ := hmatched
    rw [List.map_cons, List.foldlM_cons] at h
    obtain ⟨next, hnext, h⟩ := bind_eq_ok h
    rcases List.mem_cons.mp hclause with rfl | hclause
    · rw [rewriteMatch, repositoryInOriginalQuery_text hspaces hiri] at hnext
      obtain ⟨endpoint, hendpoint, -⟩ := bind_eq_ok hnext
      rw [endpointOf, hendpoint]
      exact federatedQueryRepositoryEndpoint_ok hendpoint
    · exact ih hmatched h hclause

/-- The clauses of the query with the endpoints in place: those of matches go to endpoints that are
    allowed, and the others go where they went. -/
theorem confined_assemble_iff
    (hallowed : ∀ clause ∈ (serviceClauses query).1,
      command.endpointOf clause ∈ command.allowedEndpoints)
    (hplain : ∀ clause ∈ (serviceClauses query).1, PlainIri (command.endpointOf clause)) :
    command.Confined (command.rewritten query) ↔ command.Recognised query := by
  rw [Confined, rewritten, serviceTargets_assemble command.endpointOf hplain, List.forall_mem_map,
    Recognised]
  refine forall₂_congr ?_
  intro target htarget
  cases target with
  | none => simp
  | some token =>
    cases token with
    | marked clause =>
      have hclause := hallowed clause (mem_of_mem_clauseTargets htarget)
      simp [Token.fill, hclause]
    | _ => simp [Token.fill]

/-- CODE BUG (allow-list): where the clauses that match are rewritten each in its own brackets, the
    executed query goes to endpoints that are allowed, and only to them, if and only if each of its
    SERVICE clauses is a match, or had such an endpoint already. -/
theorem confined_iff (command : QueryCommand) {query executed : JsString}
    (h : command.rewrite query = .ok executed)
    (hendpoints : ∀ clause ∈ (serviceClauses query).1,
      Literal (command.endpointOf clause) ∧ PlainIri (command.endpointOf clause))
    (hunambiguous : command.Unambiguous [] (serviceClauses query).1) :
    command.Confined executed ↔ command.Recognised query := by
  have hrewritten : executed = command.rewritten query :=
    (rewrite_iff command h).1 (fun clause hclause => (hendpoints clause hclause).1) hunambiguous
  rw [hrewritten]
  refine confined_assemble_iff ?_ fun clause hclause => (hendpoints clause hclause).2
  intro clause hclause
  exact endpointOf_mem (matched_serviceClauses query) h hclause

/-- A query of one clause. -/
def spelled (clause : String) : JsString :=
  units ("SELECT * \x7b " ++ clause ++ " \x7b ?s ?p ?o \x7d \x7d")

theorem confined_iff_matched :
    dkgNode.rewrite (spelled "SERVICE <dkg>") = .ok (spelled "SERVICE <http://x/dkg/sparql>") ∧
      (dkgNode.Confined (spelled "SERVICE <http://x/dkg/sparql>") ↔
        dkgNode.Recognised (spelled "SERVICE <dkg>")) :=
  have h : dkgNode.rewrite (spelled "SERVICE <dkg>") =
      .ok (spelled "SERVICE <http://x/dkg/sparql>") := by
    decide +kernel
  ⟨h, confined_iff dkgNode h (by decide +kernel) (by decide +kernel)⟩

/-- COUNTEREXAMPLE: a clause in lower case is executed as it is. -/
theorem not_confined_spelled :
    dkgNode.rewrite (spelled "service <http://evil/>") = .ok (spelled "service <http://evil/>") ∧
      ¬ dkgNode.Confined (spelled "service <http://evil/>") := by
  decide +kernel

-- so are the other spellings that the pattern does not match
example : ∀ clause ∈ ["SERVICE SILENT <http://evil/>", "SERVICE<http://evil/>",
      "SERVICE # to\n <http://evil/>", "SERVICE ?endpoint", "SERVICE evil:sparql"],
    dkgNode.rewrite (spelled clause) = .ok (spelled clause) ∧
      ¬ dkgNode.Confined (spelled clause) := by
  decide +kernel

end QueryCommand

end OtNode
