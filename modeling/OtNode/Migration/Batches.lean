import OtNode.Lib.Table
import OtNode.Migration.Assertions
import OtNode.TripleStore.NamedGraphs

/-! The V8 data migration: assertions of a V6 triple store are moved in batches.

    A batch is read from the progress database, looked up in the V6 repositories, inserted by one
    update, checked, and marked. A row that is marked is not looked at again. -/

namespace OtNode.Migration

/-- The V6 repositories. -/
inductive Repository where | privateCurrent | publicCurrent
  deriving DecidableEq

/-- What the V6 repositories hold: the triples of each graph, as `_executeQuery` hands them on, with
    the `\U` escapes of the answer decoded. -/
abbrev V6Store := Repository → Text → List Triple

/-- `cleanEscapeCharacter`. -/
def cleanEscapeCharacter (query : Text) : Text :=
  query.flatMap fun c => if c ∈ ['\'', '|', '[', ']', '\\'] then ['\\', c] else [c]

/-- The name of the graph of an assertion. -/
def assertionGraph (assertionId : Text) : Text :=
  "assertion:".toList ++ cleanEscapeCharacter assertionId

/-- A row of the progress database. -/
structure MigrationRow where
  tokenId : ℕ
  ual : String
  assertionId : Text
  processed : Bool
  deriving DecidableEq

/-- A table of the progress database. `token_id` is its key. -/
abbrev ProgressTable := Table MigrationRow.tokenId

/-- What has been fetched of an assertion. A text that is missing is empty. -/
structure V6Assertion where
  tokenId : ℕ
  ual : String
  publicAssertion : Text
  privateAssertion : Text
  success : Bool
  deriving DecidableEq

/-- The lookups of an assertion. -/
inductive Lookup where | publicInPrivate | privateInPrivate | publicInPublic
  deriving DecidableEq

/-- How an update ends: an error may come before or after it is executed. -/
inductive UpdateReply where | done | failed | lost
  deriving DecidableEq

/-- Which requests of a batch fail: lookups, the update, existence checks and the marking. -/
structure Outcomes where
  lookupFails : ℕ → Lookup → Bool
  update : UpdateReply
  askFails : ℕ → Bool
  markFails : Bool

/-! ### A batch -/

section Batch

variable (v6 : V6Store) (o : Outcomes)

/-- `getAssertion`: the answer, unless the query fails. -/
def getAssertion (repository : Repository) (assertionId : Text) (fails : Bool) : Option Text :=
  if fails then none else some (nquads (v6 repository (assertionGraph assertionId)))

/-- `getAssertionFromV6TripleStore`. -/
def getAssertionFromV6TripleStore (row : MigrationRow) : V6Assertion :=
  let fetched (publicAssertion privateAssertion : Text) (success : Bool) : V6Assertion :=
    ⟨row.tokenId, row.ual, publicAssertion, privateAssertion, success⟩
  let fails := o.lookupFails row.tokenId
  match getAssertion v6 .privateCurrent row.assertionId (fails .publicInPrivate) with
  | none => fetched [] [] false
  | some publicAssertion =>
    if publicAssertion ≠ [] then
      if includes publicAssertion PRIVATE_ASSERTION_ONTOLOGY then
        match extractPrivateAssertionId publicAssertion with
        | none => fetched publicAssertion [] false
        | some id =>
          match getAssertion v6 .privateCurrent id (fails .privateInPrivate) with
          | none => fetched publicAssertion [] false
          | some privateAssertion => fetched publicAssertion privateAssertion true
      else fetched publicAssertion [] true
    else
      match getAssertion v6 .publicCurrent row.assertionId (fails .publicInPublic) with
      | none => fetched [] [] false
      | some publicAssertion => fetched publicAssertion [] true

/-- `knowledgeAssetUal`. -/
def knowledgeAssetUal (ual : String) : String := assetUAL ual.toLower 1

/-- `metadataNQuads`. -/
def metadataNQuads (ual : String) : String :=
  "<" ++ knowledgeAssetUal ual ++ "> <http://schema.org/states> \"" ++ knowledgeAssetUal ual ++
    ":0\" ."

/-- A graph with the lines of a text. -/
def insertContent (graph : String) (assertion : Text) : InsertData :=
  ⟨graph, (processContent assertion).map String.ofList⟩

/-- The parts of the insertion that are an assertion's. -/
def insertQueries (a : V6Assertion) : List InsertData :=
  insertContent (graphName (knowledgeAssetUal a.ual) .ofPublic) a.publicAssertion ::
    (if a.privateAssertion ≠ [] then
        [insertContent (graphName (knowledgeAssetUal a.ual) .ofPrivate) a.privateAssertion]
      else []) ++
    [⟨metadataGraph, [metadataNQuads a.ual]⟩]

/-- The assertion does not exist, or it has illegal characters in an IRI. -/
def V6Assertion.isSkipped (a : V6Assertion) : Bool :=
  a.publicAssertion = [] || hasSpecialCharactersInIRI a.publicAssertion

/-- `insertAssertionsIntoV8UnifiedRepository`: what the update of the repository makes of it, and
    unless there is an error the tokens that are skipped and the assertions to check. -/
def insertAssertionsIntoV8UnifiedRepository (v6Assertions : List V6Assertion) (v8 : NamedGraphs) :
    NamedGraphs × Option (List ℕ × List V6Assertion) :=
  let successfullyProcessed := (v6Assertions.filter (·.isSkipped)).map (·.tokenId)
  let assertionsToCheck := v6Assertions.filter (!·.isSkipped)
  let queries := assertionsToCheck.flatMap insertQueries
  if queries ≠ [] then
    match o.update with
    | .done => (v8.insertAll queries, some (successfullyProcessed, assertionsToCheck))
    | .failed => (v8, none)
    | .lost => (v8.insertAll queries, none)
  else (v8, some (successfullyProcessed, assertionsToCheck))

/-- `getKnowledgeCollectionNamedGraphsExist`. A query that fails says no. -/
def getKnowledgeCollectionNamedGraphsExist (v8 : NamedGraphs) (a : V6Assertion) : Bool :=
  let ual := knowledgeAssetUal a.ual
  !o.askFails a.tokenId &&
    decide (v8 (graphName ual .ofPublic) ≠ ∅) &&
    (a.privateAssertion = [] || decide (v8 (graphName ual .ofPrivate) ≠ ∅)) &&
    decide (∃ line ∈ v8 metadataGraph, subject line = "<" ++ ual ++ ">")

/-- `processAndInsertAssertions`. -/
def processAndInsertAssertions (v6Assertions : List V6Assertion) (v8 : NamedGraphs) :
    NamedGraphs × Option (List ℕ) :=
  match insertAssertionsIntoV8UnifiedRepository o v6Assertions v8 with
  | (v8, none) => (v8, none)
  | (v8, some (successfullyProcessed, assertionsToCheck)) =>
    let successfulInserts :=
      (assertionsToCheck.filter (getKnowledgeCollectionNamedGraphsExist o v8)).map (·.tokenId)
    (v8, some (successfullyProcessed ++ successfulInserts))

/-- The data of a row is there. The migration exits without it. -/
def MigrationRow.isDefined (row : MigrationRow) : Bool := row.ual ≠ "" && row.assertionId ≠ []

/-- The loop over a batch: what it leaves in the repository, and the tokens it marks. -/
def processBatch (rows : List MigrationRow) (v8 : NamedGraphs) : NamedGraphs × List ℕ :=
  if rows.all (·.isDefined) then
    let v6Assertions := (rows.map (getAssertionFromV6TripleStore v6 o)).filter (·.success)
    if v6Assertions = [] then (v8, [])
    else
      match processAndInsertAssertions o v6Assertions v8 with
      | (v8, some successfullyProcessed) => (v8, if o.markFails then [] else successfullyProcessed)
      | (v8, none) => (v8, [])
  else (v8, [])

end Batch

/-! ### The progress database -/

/-- `BATCH_SIZE`. -/
def BATCH_SIZE : ℕ := 50

namespace ProgressTable

/-- `getBatchOfUnprocessedTokenIds`. -/
def getBatchOfUnprocessedTokenIds (t : ProgressTable) : List MigrationRow :=
  (t.rows.filter (!·.processed)).take BATCH_SIZE

/-- `markRowsAsProcessed`. -/
def markRowsAsProcessed (tokenIds : List ℕ) (t : ProgressTable) : ProgressTable :=
  t.update (fun row => row.tokenId ∈ tokenIds) (fun row => { row with processed := true })
    fun _ => rfl

/-- `insertAssertion`: a row that is there is not inserted. -/
def insertAssertion (row : MigrationRow) (t : ProgressTable) : ProgressTable :=
  (t.create row).getD t

end ProgressTable

/-- The progress database, by its tables, and the V8 repository. -/
structure State where
  tables : String → ProgressTable
  v8 : NamedGraphs

/-- What happens: a batch of a blockchain, or the lookup of a token that is not in its table, whose
    `assertionIds` are those the contract names. -/
inductive Action where
  | batch (blockchainName : String) (o : Outcomes)
  | newer (blockchainName ual : String) (newTokenId : ℕ) (assertionIds : List Text) (o : Outcomes)

namespace State

variable (v6 : V6Store) (s : State)

/-- One turn of the batch loop. -/
def batch (blockchainName : String) (o : Outcomes) : State :=
  let t := s.tables blockchainName
  let turn := processBatch v6 o t.getBatchOfUnprocessedTokenIds s.v8
  { tables := Function.update s.tables blockchainName (t.markRowsAsProcessed turn.2)
    v8 := turn.1 }

/-- One turn of `processAndInsertNewerAssertions`. The row it inserts is processed. -/
def newer (blockchainName ual : String) (newTokenId : ℕ) (assertionIds : List Text)
    (o : Outcomes) : State :=
  match assertionIds.getLast? with
  | none => s
  | some assertionId =>
    let row : MigrationRow := ⟨newTokenId, ual, assertionId, true⟩
    let turn := processBatch v6 o [row] s.v8
    { tables := if newTokenId ∈ turn.2 then
        Function.update s.tables blockchainName
          ((s.tables blockchainName).insertAssertion row) else s.tables
      v8 := turn.1 }

/-- A step. -/
def act : Action → State
  | .batch blockchainName o => s.batch v6 blockchainName o
  | .newer blockchainName ual newTokenId assertionIds o =>
    s.newer v6 blockchainName ual newTokenId assertionIds o

/-- The steps of a run. -/
def run (actions : List Action) : State := actions.foldl (act v6) s

end State

/-! ### What a marked row means -/

section Meaning

variable (v6 : V6Store)

/-- The public assertion of a V6 store. -/
def publicGraph (assertionId : Text) : List Triple :=
  if v6 .privateCurrent (assertionGraph assertionId) ≠ [] then
    v6 .privateCurrent (assertionGraph assertionId)
  else v6 .publicCurrent (assertionGraph assertionId)

/-- The graph of the repository has all triples. -/
def Holds (v8 : NamedGraphs) (graph : String) (triples : List Triple) : Prop :=
  ∀ t ∈ triples, String.ofList t.line ∈ v8 graph

/-- The assertion of a row is in the V8 repository. -/
structure Stored (v8 : NamedGraphs) (row : MigrationRow) : Prop where
  ofPublic : Holds v8 (graphName (knowledgeAssetUal row.ual) .ofPublic)
    (publicGraph v6 row.assertionId)
  ofPrivate : ∀ id, Links (v6 .privateCurrent (assertionGraph row.assertionId)) id →
    Holds v8 (graphName (knowledgeAssetUal row.ual) .ofPrivate)
      (v6 .privateCurrent (assertionGraph id))
  metadata : metadataNQuads row.ual ∈ v8 metadataGraph

/-- What a row that is marked says: the assertion is absent, or has an illegal IRI, or is stored. -/
def Migrated (v8 : NamedGraphs) (row : MigrationRow) : Prop :=
  publicGraph v6 row.assertionId = [] ∨ HasIllegalIRI (publicGraph v6 row.assertionId) ∨
    Stored v6 v8 row

/-- What is read off the text of the assertion is what it says: a part of a line that is taken for
    an illegal IRI is one, and the id that is extracted is the one that is linked. -/
structure ReadRight (assertionId : Text) : Prop where
  illegal : hasSpecialCharactersInIRI (nquads (publicGraph v6 assertionId)) = true →
    HasIllegalIRI (publicGraph v6 assertionId)
  linked : ∀ id extracted,
    Links (v6 .privateCurrent (assertionGraph assertionId)) id →
    extractPrivateAssertionId (nquads (v6 .privateCurrent (assertionGraph assertionId))) =
      some extracted → v6 .privateCurrent (assertionGraph id) = [] ∨ extracted = id

end Meaning

/-! ### One assertion -/

section Assertion

variable {v6 : V6Store} {o : Outcomes} {row : MigrationRow} {v8 v8' : NamedGraphs}

/-- What has been fetched for a row: its public assertion, and the private one if it is read right.
    -/
structure Fetched (v6 : V6Store) (row : MigrationRow) (a : V6Assertion) : Prop where
  tokenId : a.tokenId = row.tokenId
  ual : a.ual = row.ual
  publicAssertion : a.publicAssertion = nquads (publicGraph v6 row.assertionId)
  privateAssertion : ReadRight v6 row.assertionId → ∀ id,
    Links (v6 .privateCurrent (assertionGraph row.assertionId)) id →
    v6 .privateCurrent (assertionGraph id) = [] ∨
      a.privateAssertion = nquads (v6 .privateCurrent (assertionGraph id))

theorem getAssertion_eq_some {repository : Repository} {assertionId answer : Text} {fails : Bool}
    (h : getAssertion v6 repository assertionId fails = some answer) :
    answer = nquads (v6 repository (assertionGraph assertionId)) := by
  rw [getAssertion] at h
  split at h
  · cases h
  · exact (Option.some.inj h).symm

theorem publicGraph_of_ne (h : v6 .privateCurrent (assertionGraph row.assertionId) ≠ []) :
    publicGraph v6 row.assertionId = v6 .privateCurrent (assertionGraph row.assertionId) :=
  if_pos h

/-- STEP (lookup): what is fetched with success is what the V6 repositories hold. -/
theorem fetched_getAssertionFromV6TripleStore
    (hsuccess : (getAssertionFromV6TripleStore v6 o row).success = true) :
    Fetched v6 row (getAssertionFromV6TripleStore v6 o row) := by
  revert hsuccess
  rw [getAssertionFromV6TripleStore]
  split
  · intro h
    cases h
  · next publicAssertion hpublic =>
    obtain rfl := getAssertion_eq_some hpublic
    split
    · next hne =>
      have hgraph := publicGraph_of_ne (mt nquads_eq_nil.mpr hne)
      split
      · split
        · intro h
          cases h
        · next extracted hextracted =>
          split
          · intro h
            cases h
          · next privateAssertion hprivate =>
            obtain rfl := getAssertion_eq_some hprivate
            intro _
            refine ⟨rfl, rfl, by rw [hgraph], fun hread id hlinks => ?_⟩
            rcases hread.linked id extracted hlinks hextracted with hnil | rfl
            · exact .inl hnil
            · exact .inr rfl
      · next hincludes =>
        intro _
        exact ⟨rfl, rfl, by rw [hgraph], fun _ id hlinks =>
          absurd (includes_of_links hlinks) hincludes⟩
    · next hnil =>
      have hnone := nquads_eq_nil.mp (not_not.mp hnil)
      split
      · intro h
        cases h
      · next publicAssertion hpublic' =>
        obtain rfl := getAssertion_eq_some hpublic'
        intro _
        refine ⟨rfl, rfl, ?_, ?_⟩
        · rw [publicGraph, if_neg (not_not.mpr hnone)]
        · intro _ id hlinks
          obtain ⟨t, ht, -⟩ := hlinks
          rw [hnone] at ht
          cases ht

theorem mem_insertContent {graph : String} {triples : List Triple} {t : Triple} (ht : t ∈ triples) :
    String.ofList t.line ∈ (insertContent graph (nquads triples)).nquads := by
  rw [insertContent, processContent_nquads]
  exact List.mem_map_of_mem (List.mem_map_of_mem ht)

/-- An insertion with all that an assertion says stores it. -/
theorem stored_of_insertAll {a : V6Assertion} {queries : List InsertData} (h : Fetched v6 row a)
    (hread : ReadRight v6 row.assertionId) (hqueries : ∀ query ∈ insertQueries a, query ∈ queries) :
    Stored v6 (v8.insertAll queries) row := by
  have hinsert : ∀ query ∈ insertQueries a, ∀ line ∈ query.nquads,
      line ∈ v8.insertAll queries query.graph := by
    intro query hquery line hline
    exact NamedGraphs.mem_insertAll.mpr (.inr ⟨query, hqueries query hquery, rfl, hline⟩)
  rw [insertQueries, h.ual, h.publicAssertion] at hinsert
  constructor
  · intro t ht
    exact hinsert _ (List.mem_cons_self ..) _ (mem_insertContent ht)
  · intro id hlinks t ht
    rcases h.privateAssertion hread id hlinks with hnil | hprivate
    · rw [hnil] at ht
      cases ht
    · have hne : nquads (v6 .privateCurrent (assertionGraph id)) ≠ [] := by
        rw [Ne, nquads_eq_nil]
        exact List.ne_nil_of_mem ht
      rw [hprivate, if_pos hne] at hinsert
      exact hinsert (insertContent (graphName (knowledgeAssetUal row.ual) .ofPrivate) _)
        (by simp) _ (mem_insertContent ht)
  · exact hinsert ⟨metadataGraph, [metadataNQuads row.ual]⟩ (by simp) _ (List.mem_singleton_self _)

/-- An assertion that is skipped is absent or has an illegal IRI. -/
theorem migrated_of_isSkipped {a : V6Assertion} (h : Fetched v6 row a)
    (hread : ReadRight v6 row.assertionId) (hskipped : a.isSkipped = true) :
    Migrated v6 v8 row := by
  rw [V6Assertion.isSkipped, h.publicAssertion, Bool.or_eq_true, decide_eq_true_eq,
    nquads_eq_nil] at hskipped
  rcases hskipped with hnil | hillegal
  · exact .inl hnil
  · exact .inr (.inl (hread.illegal hillegal))

/-- The mark itself does not matter. -/
theorem migrated_processed (h : Migrated v6 v8 row) (processed : Bool) :
    Migrated v6 v8 { row with processed := processed } := by
  rcases h with habsent | hillegal | ⟨hpublic, hprivate, hmetadata⟩
  · exact .inl habsent
  · exact .inr (.inl hillegal)
  · exact .inr (.inr ⟨hpublic, hprivate, hmetadata⟩)

/-- What the repository holds it keeps. -/
def Grows (v8 v8' : NamedGraphs) : Prop := ∀ graph, v8 graph ⊆ v8' graph

theorem grows_insertAll (queries : List InsertData) : Grows v8 (v8.insertAll queries) :=
  fun _ _ ht => NamedGraphs.mem_insertAll.mpr (.inl ht)

theorem migrated_mono (hgrows : Grows v8 v8') (h : Migrated v6 v8 row) : Migrated v6 v8' row := by
  rcases h with habsent | hillegal | hstored
  · exact .inl habsent
  · exact .inr (.inl hillegal)
  · refine .inr (.inr ⟨fun t ht => ?_, fun id hlinks t ht => ?_, ?_⟩)
    · exact hgrows _ (hstored.ofPublic t ht)
    · exact hgrows _ (hstored.ofPrivate id hlinks t ht)
    · exact hgrows _ hstored.metadata

end Assertion

/-! ### One batch -/

section Batch

variable {v6 : V6Store} {o : Outcomes} {v8 : NamedGraphs}

/-- STEP (insertion): what is skipped or checked was given, and what is checked has been inserted.
    -/
theorem insertAssertions_spec (o : Outcomes) (v8 : NamedGraphs)
    (v6Assertions : List V6Assertion) :
    let turn := insertAssertionsIntoV8UnifiedRepository o v6Assertions v8
    Grows v8 turn.1 ∧ ∀ successfullyProcessed assertionsToCheck,
      turn.2 = some (successfullyProcessed, assertionsToCheck) →
      (∀ tokenId ∈ successfullyProcessed, ∃ a ∈ v6Assertions, a.tokenId = tokenId ∧
        a.isSkipped = true) ∧
      ∀ a ∈ assertionsToCheck, a ∈ v6Assertions ∧ ∃ queries,
        turn.1 = v8.insertAll queries ∧ ∀ query ∈ insertQueries a, query ∈ queries := by
  have hskipped : ∀ tokenId ∈ (v6Assertions.filter (·.isSkipped)).map (·.tokenId),
      ∃ a ∈ v6Assertions, a.tokenId = tokenId ∧ a.isSkipped = true := by
    intro tokenId htoken
    obtain ⟨a, ha, rfl⟩ := List.mem_map.mp htoken
    exact ⟨a, (List.mem_filter.mp ha).1, rfl, (List.mem_filter.mp ha).2⟩
  have hchecked : ∀ a ∈ v6Assertions.filter (!·.isSkipped), a ∈ v6Assertions ∧
      ∀ query ∈ insertQueries a,
        query ∈ (v6Assertions.filter (!·.isSkipped)).flatMap insertQueries :=
    fun a ha => ⟨(List.mem_filter.mp ha).1, fun query hquery =>
      List.mem_flatMap.mpr ⟨a, ha, hquery⟩⟩
  simp only [insertAssertionsIntoV8UnifiedRepository]
  split
  · cases o.update with
    | done =>
      refine ⟨grows_insertAll _, ?_⟩
      intro _ _ h
      cases h
      exact ⟨hskipped, fun a ha => ⟨(hchecked a ha).1, _, rfl, (hchecked a ha).2⟩⟩
    | failed =>
      refine ⟨fun _ _ ht => ht, ?_⟩
      intro _ _ h
      cases h
    | lost =>
      refine ⟨grows_insertAll _, ?_⟩
      intro _ _ h
      cases h
  · next hnil =>
    refine ⟨fun _ _ ht => ht, ?_⟩
    intro _ _ h
    cases h
    refine ⟨hskipped, fun a ha => ⟨(hchecked a ha).1, [], rfl, fun query hquery => ?_⟩⟩
    rw [← not_not.mp hnil]
    exact (hchecked a ha).2 query hquery

/-- STEP (processing): each token that is processed has an assertion that is skipped or stored. -/
theorem processAndInsertAssertions_spec (v6 : V6Store) (o : Outcomes) (v8 : NamedGraphs)
    (v6Assertions : List V6Assertion) :
    let turn := processAndInsertAssertions o v6Assertions v8
    Grows v8 turn.1 ∧ ∀ tokenIds, turn.2 = some tokenIds → ∀ tokenId ∈ tokenIds,
      ∃ a ∈ v6Assertions, a.tokenId = tokenId ∧ ∀ row, Fetched v6 row a →
        ReadRight v6 row.assertionId → Migrated v6 turn.1 row := by
  obtain ⟨hgrows, hspec⟩ := insertAssertions_spec o v8 v6Assertions
  simp only [processAndInsertAssertions]
  split
  · next v8' heq =>
    rw [heq] at hgrows
    refine ⟨hgrows, ?_⟩
    intro _ h
    cases h
  · next v8' successfullyProcessed assertionsToCheck heq =>
    rw [heq] at hgrows hspec
    obtain ⟨hskipped, hchecked⟩ := hspec _ _ rfl
    refine ⟨hgrows, ?_⟩
    intro tokenIds h tokenId htoken
    cases h
    rcases List.mem_append.mp htoken with htoken | htoken
    · obtain ⟨a, ha, htokenId, hskip⟩ := hskipped tokenId htoken
      exact ⟨a, ha, htokenId, fun row hfetched hread => migrated_of_isSkipped hfetched hread hskip⟩
    · obtain ⟨a, ha, htokenId⟩ := List.mem_map.mp htoken
      obtain ⟨hmem, queries, hv8, hqueries⟩ := hchecked a (List.mem_filter.mp ha).1
      refine ⟨a, hmem, htokenId, fun row hfetched hread => .inr (.inr ?_)⟩
      have hv8' : v8' = v8.insertAll queries := hv8
      rw [hv8']
      exact stored_of_insertAll hfetched hread hqueries

/-- STEP (batch): a token that is marked is one of the batch, and its row is migrated. -/
theorem processBatch_spec (v6 : V6Store) (o : Outcomes) (v8 : NamedGraphs)
    (rows : List MigrationRow) :
    let turn := processBatch v6 o rows v8
    Grows v8 turn.1 ∧ ∀ tokenId ∈ turn.2, ∃ row ∈ rows, row.tokenId = tokenId ∧
      (ReadRight v6 row.assertionId → Migrated v6 turn.1 row) := by
  simp only [processBatch]
  split
  · split
    · exact ⟨fun _ _ ht => ht, by simp⟩
    · obtain ⟨hgrows, hspec⟩ := processAndInsertAssertions_spec v6 o v8
        ((rows.map (getAssertionFromV6TripleStore v6 o)).filter (·.success))
      split
      · next v8' tokenIds heq =>
        rw [heq] at hgrows hspec
        refine ⟨hgrows, ?_⟩
        intro tokenId htoken
        cases hmark : o.markFails with
        | true => simp [hmark] at htoken
        | false =>
          rw [hmark] at htoken
          obtain ⟨a, ha, htokenId, hmigrated⟩ := hspec _ rfl tokenId htoken
          obtain ⟨hmem, hsuccess⟩ := List.mem_filter.mp ha
          obtain ⟨row, hrow, rfl⟩ := List.mem_map.mp hmem
          have hfetched := fetched_getAssertionFromV6TripleStore hsuccess
          exact ⟨row, hrow, hfetched.tokenId ▸ htokenId, hmigrated row hfetched⟩
      · next v8' heq =>
        rw [heq] at hgrows
        exact ⟨hgrows, by simp⟩
  · exact ⟨fun _ _ ht => ht, by simp⟩

end Batch

/-! ### A run -/

section Run

variable {v6 : V6Store} {s s₀ : State}

/-- A row was marked before the migration. -/
def MarkedBefore (t : ProgressTable) (row : MigrationRow) : Prop :=
  ∃ r ∈ t.rows, r.tokenId = row.tokenId ∧ r.processed = true

/-- Every row that the migration marked is migrated. -/
def Sound (v6 : V6Store) (s₀ s : State) : Prop :=
  ∀ blockchainName, ∀ row ∈ (s.tables blockchainName).rows, row.processed = true →
    MarkedBefore (s₀.tables blockchainName) row ∨
      (ReadRight v6 row.assertionId → Migrated v6 s.v8 row)

/-- The rows of one table change, and the repository grows. -/
theorem sound_update {blockchainName : String} {t : ProgressTable} {v8 : NamedGraphs}
    (h : Sound v6 s₀ s) (hgrows : Grows s.v8 v8)
    (ht : ∀ row ∈ t.rows, row.processed = true → row ∈ (s.tables blockchainName).rows ∨
      (ReadRight v6 row.assertionId → Migrated v6 v8 row)) :
    Sound v6 s₀ ⟨Function.update s.tables blockchainName t, v8⟩ := by
  intro name row hrow hprocessed
  have hkeep : ∀ name, row ∈ (s.tables name).rows → MarkedBefore (s₀.tables name) row ∨
      (ReadRight v6 row.assertionId → Migrated v6 v8 row) := by
    intro name hrow
    rcases h name row hrow hprocessed with hbefore | hmigrated
    · exact .inl hbefore
    · exact .inr fun hread => migrated_mono hgrows (hmigrated hread)
  by_cases hname : name = blockchainName
  · subst hname
    have hrow' : row ∈ t.rows := by simpa using hrow
    rcases ht row hrow' hprocessed with hold | hmigrated
    · exact hkeep name hold
    · exact .inr hmigrated
  · have hrow' : row ∈ (s.tables name).rows := by simpa [hname] using hrow
    exact hkeep name hrow'

/-- A key has one row. -/
theorem eq_of_tokenId {t : ProgressTable} {row row' : MigrationRow} (hrow : row ∈ t.rows)
    (hrow' : row' ∈ t.rows) (h : row.tokenId = row'.tokenId) : row = row' :=
  List.inj_on_of_nodup_map t.nodup hrow hrow' h

theorem mem_of_mem_batch {t : ProgressTable} {row : MigrationRow}
    (h : row ∈ t.getBatchOfUnprocessedTokenIds) : row ∈ t.rows :=
  (List.mem_filter.mp (List.mem_of_mem_take h)).1

theorem sound_batch (h : Sound v6 s₀ s) (blockchainName : String) (o : Outcomes) :
    Sound v6 s₀ (s.batch v6 blockchainName o) := by
  obtain ⟨hgrows, hspec⟩ := processBatch_spec v6 o s.v8
    (s.tables blockchainName).getBatchOfUnprocessedTokenIds
  refine sound_update h hgrows ?_
  intro row hrow hprocessed
  obtain ⟨old, hold, rfl⟩ := List.mem_map.mp hrow
  by_cases hmarked : old.tokenId ∈ (processBatch v6 o
      (s.tables blockchainName).getBatchOfUnprocessedTokenIds s.v8).2
  · obtain ⟨row, hbatch, htoken, hmigrated⟩ := hspec _ hmarked
    obtain rfl := eq_of_tokenId (mem_of_mem_batch hbatch) hold htoken
    rw [if_pos (by simpa using hmarked)]
    exact .inr fun hread => migrated_processed (hmigrated hread) true
  · rw [if_neg (by simpa using hmarked)]
    exact .inl hold

theorem sound_newer (h : Sound v6 s₀ s) (blockchainName ual : String) (newTokenId : ℕ)
    (assertionIds : List Text) (o : Outcomes) :
    Sound v6 s₀ (s.newer v6 blockchainName ual newTokenId assertionIds o) := by
  rw [State.newer]
  split
  · exact h
  · next assertionId hlast =>
    obtain ⟨hgrows, hspec⟩ := processBatch_spec v6 o s.v8
      [⟨newTokenId, ual, assertionId, true⟩]
    by_cases hprocessed : newTokenId ∈
        (processBatch v6 o [⟨newTokenId, ual, assertionId, true⟩] s.v8).2
    · obtain ⟨row, hrow, -, hmigrated⟩ := hspec _ hprocessed
      obtain rfl := List.mem_singleton.mp hrow
      simp only [if_pos hprocessed]
      refine sound_update h hgrows ?_
      intro row hrow _
      rw [ProgressTable.insertAssertion] at hrow
      rcases hcreate : (s.tables blockchainName).create ⟨newTokenId, ual, assertionId, true⟩
        with - | t
      · rw [hcreate] at hrow
        exact .inl hrow
      · rw [hcreate, Option.getD_some, (Table.create_eq_some.mp hcreate).2, List.mem_append,
          List.mem_singleton] at hrow
        rcases hrow with hold | rfl
        · exact .inl hold
        · exact .inr hmigrated
    · simp only [if_neg hprocessed]
      have hsame : s.tables = Function.update s.tables blockchainName
          (s.tables blockchainName) := (Function.update_eq_self _ _).symm
      rw [hsame]
      exact sound_update h hgrows fun row hrow _ => .inl hrow

/-- RUN: every row that the migration marked is migrated. -/
theorem sound_run (h : Sound v6 s₀ s) (actions : List Action) : Sound v6 s₀ (s.run v6 actions) := by
  induction actions generalizing s with
  | nil => exact h
  | cons a actions ih =>
    refine ih ?_
    cases a with
    | batch blockchainName o => exact sound_batch h blockchainName o
    | newer blockchainName ual newTokenId assertionIds o =>
      exact sound_newer h blockchainName ual newTokenId assertionIds o

/-- CORRECT (run): a row that the migration marks has no public assertion, or one with an illegal
    IRI, or one that is stored with the private assertion it links, as long as its text is read
    right. -/
theorem migrated_of_marked (s₀ : State) (actions : List Action) (blockchainName : String)
    (row : MigrationRow) (hrow : row ∈ ((s₀.run v6 actions).tables blockchainName).rows)
    (hprocessed : row.processed = true) (hnew : ¬ MarkedBefore (s₀.tables blockchainName) row)
    (hread : ReadRight v6 row.assertionId) : Migrated v6 (s₀.run v6 actions).v8 row := by
  have hinit : Sound v6 s₀ s₀ := fun _ row hrow hprocessed => .inl ⟨row, hrow, rfl, hprocessed⟩
  exact (sound_run hinit actions blockchainName row hrow hprocessed).resolve_left hnew hread

end Run

/-! ### A letter -/

/-- Nothing fails. -/
def allAnswered : Outcomes := ⟨fun _ _ => false, .done, fun _ => false, false⟩

/-- One row that is not processed, and an empty repository. -/
def oneRow : State where
  tables _ := ⟨[⟨1, "did:dkg:otp:2043/0x5c/1", "0xa".toList, false⟩], by decide⟩
  v8 _ := ∅

/-- What the letters are about. -/
def letterSubject : Term := .iri ⟨"urn:letter".toList, by decide⟩

/-- A triple with a text. -/
def greeting : Triple where
  subject := letterSubject
  predicate := .iri ⟨"urn:text".toList, by decide⟩
  object := .literal ⟨"Dear Ann!".toList, by decide⟩ ⟨[], by decide⟩

/-- The triple that links the private assertion `0xb`. -/
def privateLink : Triple where
  subject := letterSubject
  predicate := .iri ⟨privateAssertionID, by decide⟩
  object := .literal ⟨"0xb".toList, by decide⟩ ⟨[], by decide⟩

/-- A triple of the private assertion. -/
def secret : Triple where
  subject := letterSubject
  predicate := .iri ⟨"urn:secret".toList, by decide⟩
  object := .literal ⟨"the key is under the mat".toList, by decide⟩ ⟨[], by decide⟩

/-- The V6 repositories: `0xa` is held privately and links `0xb`, `0xc` is public, `0xd` is absent.
    -/
def threeLetters : V6Store := fun repository graph =>
  match repository with
  | .privateCurrent =>
    if graph = assertionGraph "0xa".toList then [greeting, privateLink]
    else if graph = assertionGraph "0xb".toList then [secret]
    else []
  | .publicCurrent => if graph = assertionGraph "0xc".toList then [greeting] else []

/-- Three rows that are not processed, and an empty repository. -/
def threeRows : State where
  tables _ := ⟨[⟨1, "did:dkg:otp:2043/0x5c/1", "0xa".toList, false⟩,
    ⟨2, "did:dkg:otp:2043/0x5c/2", "0xc".toList, false⟩,
    ⟨3, "did:dkg:otp:2043/0x5c/3", "0xd".toList, false⟩], by decide⟩
  v8 _ := ∅

/-- The lookup of the private assertion fails in the first batch, and goes through in the second. -/
def retried : List Action :=
  [.batch "neuroweb_mainnet" { allAnswered with
    lookupFails := fun tokenId lookup => tokenId = 1 ∧ lookup = .privateInPrivate },
    .batch "neuroweb_mainnet" allAnswered]

/-- What links a private assertion links `0xb`. -/
theorem links_threeLetters {id : Text}
    (h : Links (threeLetters .privateCurrent (assertionGraph "0xa".toList)) id) :
    id = "0xb".toList := by
  have hgraph : threeLetters .privateCurrent (assertionGraph "0xa".toList) =
      [greeting, privateLink] := by decide
  rw [hgraph] at h
  obtain ⟨t, ht, predicate, lexical, suffix, hpredicate, rfl, hiri, hliteral⟩ := h
  rcases List.mem_pair.mp ht with rfl | rfl
  · cases hiri
    exact absurd hpredicate (by decide)
  · cases hliteral
    rfl

theorem migrated_of_marked_retried :
    Migrated threeLetters (threeRows.run threeLetters retried).v8
      ⟨1, "did:dkg:otp:2043/0x5c/1", "0xa".toList, true⟩ := by
  have hrow : ⟨1, "did:dkg:otp:2043/0x5c/1", "0xa".toList, true⟩ ∈
      ((threeRows.run threeLetters retried).tables "neuroweb_mainnet").rows := by decide +kernel
  have hnew : ¬ MarkedBefore (threeRows.tables "neuroweb_mainnet")
      ⟨1, "did:dkg:otp:2043/0x5c/1", "0xa".toList, true⟩ := by
    rintro ⟨r, hr, -, hprocessed⟩
    have hnone : ∀ r ∈ (threeRows.tables "neuroweb_mainnet").rows, r.processed = false := by decide
    rw [hnone r hr] at hprocessed
    cases hprocessed
  have hread : ReadRight threeLetters "0xa".toList := by
    refine ⟨fun h => absurd h (by decide +kernel), fun id extracted hlinks hextracted => .inr ?_⟩
    rw [links_threeLetters hlinks]
    have hid : extractPrivateAssertionId (nquads (threeLetters .privateCurrent
        (assertionGraph "0xa".toList))) = some "0xb".toList := by decide +kernel
    exact Option.some.inj (hextracted.symm.trans hid)
  exact migrated_of_marked threeRows retried "neuroweb_mainnet" _ hrow rfl hnew hread

/-- A triple with a placeholder in its text. -/
def letter : Triple where
  subject := .iri ⟨"urn:letter".toList, by decide⟩
  predicate := .iri ⟨"urn:text".toList, by decide⟩
  object := .literal ⟨"Dear <{name}> !".toList, by decide⟩ ⟨[], by decide⟩

/-- The V6 repositories with the letter as the assertion. -/
def letterStore : V6Store := fun repository graph =>
  if repository = .privateCurrent ∧ graph = assertionGraph "0xa".toList then [letter] else []

/-- COUNTEREXAMPLE: the placeholder is taken for an illegal IRI, and the letter is lost. -/
theorem letter_lost :
    ∃ row ∈ ((oneRow.run letterStore [.batch "neuroweb_mainnet" allAnswered]).tables
        "neuroweb_mainnet").rows, row.processed = true ∧
      ¬ MarkedBefore (oneRow.tables "neuroweb_mainnet") row ∧
      ¬ Migrated letterStore
        (oneRow.run letterStore [.batch "neuroweb_mainnet" allAnswered]).v8 row := by
  have hgraph : publicGraph letterStore "0xa".toList = [letter] := by decide
  have hv8 : ∀ graph, (oneRow.run letterStore [.batch "neuroweb_mainnet" allAnswered]).v8 graph
      = ∅ := fun _ => rfl
  refine ⟨⟨1, "did:dkg:otp:2043/0x5c/1", "0xa".toList, true⟩, ?_, rfl, ?_, ?_⟩
  · exact List.mem_singleton_self _
  · rintro ⟨r, hr, -, hprocessed⟩
    obtain rfl := List.mem_singleton.mp hr
    cases hprocessed
  · rintro (habsent | ⟨t, ht, s, hspecial, hs⟩ | hstored)
    · rw [hgraph] at habsent
      cases habsent
    · rw [hgraph] at ht
      obtain rfl := List.mem_singleton.mp ht
      rcases hs with hs | hs | hs
      · cases hs
        revert hspecial
        decide
      · cases hs
        revert hspecial
        decide
      · cases hs
    · have hletter := hstored.ofPublic letter (by rw [hgraph]; exact List.mem_singleton_self _)
      rw [hv8] at hletter
      simp at hletter

end OtNode.Migration
