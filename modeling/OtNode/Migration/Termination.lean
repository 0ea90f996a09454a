import OtNode.Migration.Batches
import Mathlib.Data.List.TakeDrop

/-! How far the batch loop gets.

    The loop works off the first unprocessed rows over and over. A row of which the private
    assertion cannot be read off, and a batch whose update is rejected, stay where they are, and are
    all that the loop sees from then on. -/

namespace OtNode.Migration

/-- What the stores answer: which lookups and existence checks of a token fail, and what becomes of
    the update and the marking of a batch. It is the same each time. -/
structure Answers where
  lookupFails : ℕ → Lookup → Bool
  askFails : ℕ → Bool
  update : List MigrationRow → UpdateReply
  markFails : List MigrationRow → Bool

/-- The outcomes of a batch. -/
def Answers.outcomes (answers : Answers) (rows : List MigrationRow) : Outcomes :=
  ⟨answers.lookupFails, answers.update rows, answers.askFails, answers.markFails rows⟩

/-- `getAssertionsInBatch`: what was looked up with success. -/
def getAssertionsInBatch (v6 : V6Store) (o : Outcomes) (rows : List MigrationRow) :
    List V6Assertion :=
  (rows.map (getAssertionFromV6TripleStore v6 o)).filter (·.success)

/-- The batch ends without an error: the data of its rows is there, an assertion is looked up with
    success, the update does not fail, a token is processed, and the marking does not fail. -/
structure EndsWithoutError (v6 : V6Store) (o : Outcomes) (rows : List MigrationRow)
    (v8 : NamedGraphs) : Prop where
  defined : ∀ row ∈ rows, row.isDefined = true
  found : getAssertionsInBatch v6 o rows ≠ []
  processed : ∃ successfullyProcessed,
    (processAndInsertAssertions o (getAssertionsInBatch v6 o rows) v8).2 =
      some successfullyProcessed ∧ successfullyProcessed ≠ []
  marks : o.markFails = false

namespace ProgressTable

variable (t : ProgressTable)

/-- The rows with `processed = 0`. -/
def unprocessed : List MigrationRow := t.rows.filter (!·.processed)

/-- `getUnprocessedCount`. -/
def getUnprocessedCount : ℕ := t.count (!·.processed)

/-- The rows of the batch after so many full ones. -/
def batchAfter (k : ℕ) : List MigrationRow := (t.unprocessed.drop (BATCH_SIZE * k)).take BATCH_SIZE

end ProgressTable

section Loop

variable (v6 : V6Store) (answers : Answers) (blockchainName : String) (s : State)

/-- The unprocessed rows of the blockchain. -/
def State.unprocessed : List MigrationRow := (s.tables blockchainName).unprocessed

/-- An iteration of the batch loop. -/
def State.iterate : State :=
  s.batch v6 blockchainName
    (answers.outcomes (s.tables blockchainName).getBatchOfUnprocessedTokenIds)

/-- The state after so many iterations. -/
def State.after (n : ℕ) : State := (State.iterate v6 answers blockchainName)^[n] s

/-- The tokens that an iteration marks. -/
def State.marked : List ℕ :=
  (processBatch v6 (answers.outcomes (s.tables blockchainName).getBatchOfUnprocessedTokenIds)
    (s.tables blockchainName).getBatchOfUnprocessedTokenIds s.v8).2

/-- The iteration ends without an error. -/
def State.EndsWithoutError : Prop :=
  Migration.EndsWithoutError v6
    (answers.outcomes (s.tables blockchainName).getBatchOfUnprocessedTokenIds)
    (s.tables blockchainName).getBatchOfUnprocessedTokenIds s.v8

/-- The loop marks every row, and every iteration that ends without an error marks one. -/
structure Terminates : Prop where
  marksAll : ∃ n, ∀ row ∈ ((s.after v6 answers blockchainName n).tables blockchainName).rows,
    row.processed = true
  marksOne : ∀ n, (s.after v6 answers blockchainName n).EndsWithoutError v6 answers blockchainName →
    ((s.after v6 answers blockchainName (n + 1)).tables blockchainName).getUnprocessedCount <
      ((s.after v6 answers blockchainName n).tables blockchainName).getUnprocessedCount

/-- The row is looked up without an error: no lookup fails, and if its public assertion is in the
    private repository and has the private predicate, the id can be extracted. -/
def Readable (row : MigrationRow) : Prop :=
  answers.lookupFails row.tokenId .publicInPrivate = false ∧
    if v6 .privateCurrent (assertionGraph row.assertionId) = [] then
      answers.lookupFails row.tokenId .publicInPublic = false
    else
      includes (nquads (v6 .privateCurrent (assertionGraph row.assertionId)))
          PRIVATE_ASSERTION_ONTOLOGY = true →
        (extractPrivateAssertionId
            (nquads (v6 .privateCurrent (assertionGraph row.assertionId)))).isSome ∧
          answers.lookupFails row.tokenId .privateInPrivate = false

/-- The row is marked without an insertion: it has no public assertion, or one with what is taken
    for an illegal IRI. -/
def Skipped (row : MigrationRow) : Prop :=
  publicGraph v6 row.assertionId = [] ∨
    hasSpecialCharactersInIRI (nquads (publicGraph v6 row.assertionId)) = true

/-- The row has its data, is looked up without an error, and is skipped, or found once it is
    inserted: its check does not fail, and there is no blank in its UAL. -/
structure Settles (row : MigrationRow) : Prop where
  defined : row.isDefined = true
  readable : Readable v6 answers row
  checked : Skipped v6 row ∨
    answers.askFails row.tokenId = false ∧ ' ' ∉ (knowledgeAssetUal row.ual).toList

/-- The stores take the batch: its update, if there is anything to insert, and the marking. -/
structure Takes (rows : List MigrationRow) : Prop where
  update : (∀ row ∈ rows, Readable v6 answers row → Skipped v6 row) ∨ answers.update rows = .done
  marks : answers.markFails rows = false

end Loop

/-! ### A row -/

section Row

variable {v6 : V6Store} {o : Outcomes} {answers : Answers} {rows : List MigrationRow}
  {row : MigrationRow} {v8 : NamedGraphs}

/-- The lookup ends with success exactly for a row that is readable. -/
theorem success_iff (rows : List MigrationRow) :
    (getAssertionFromV6TripleStore v6 (answers.outcomes rows) row).success = true ↔
      Readable v6 answers row := by
  simp only [getAssertionFromV6TripleStore, Readable, getAssertion, Answers.outcomes]
  rcases Bool.eq_false_or_eq_true (answers.lookupFails row.tokenId .publicInPrivate) with
    hfails | hpublic
  · simp [hfails]
  · by_cases hnil : v6 .privateCurrent (assertionGraph row.assertionId) = []
    · rcases Bool.eq_false_or_eq_true (answers.lookupFails row.tokenId .publicInPublic) with
        hfails | hlookup
      · simp [hpublic, hnil, hfails, nquads]
      · simp [hpublic, hnil, hlookup, nquads]
    · by_cases hincludes : includes (nquads (v6 .privateCurrent (assertionGraph row.assertionId)))
        PRIVATE_ASSERTION_ONTOLOGY = true
      · rcases hid : extractPrivateAssertionId
            (nquads (v6 .privateCurrent (assertionGraph row.assertionId))) with - | id
        · simp [hpublic, hnil, nquads_eq_nil, hincludes, hid]
        · rcases Bool.eq_false_or_eq_true (answers.lookupFails row.tokenId .privateInPrivate) with
            hfails | hprivate
          · simp [hpublic, hnil, nquads_eq_nil, hincludes, hid, hfails]
          · simp [hpublic, hnil, nquads_eq_nil, hincludes, hid, hprivate]
      · simp [hpublic, hnil, nquads_eq_nil, hincludes]

/-- What is skipped of what was looked up. -/
theorem isSkipped_iff (hreadable : Readable v6 answers row) :
    (getAssertionFromV6TripleStore v6 (answers.outcomes rows) row).isSkipped = true ↔
      Skipped v6 row := by
  have hfetched := fetched_getAssertionFromV6TripleStore
    ((success_iff rows).mpr hreadable)
  rw [V6Assertion.isSkipped, hfetched.publicAssertion, Bool.or_eq_true, decide_eq_true_eq,
    nquads_eq_nil, Skipped]

/-- The private assertion is the text of a graph. -/
theorem exists_privateGraph (v6 : V6Store) (o : Outcomes) (row : MigrationRow) :
    ∃ graph, (getAssertionFromV6TripleStore v6 o row).privateAssertion = nquads graph := by
  have hnil : ∃ graph, ([] : Text) = nquads graph := ⟨[], rfl⟩
  rw [getAssertionFromV6TripleStore]
  split
  · exact hnil
  · split
    · split
      · split
        · exact hnil
        · split
          · exact hnil
          · next hprivate => exact ⟨_, getAssertion_eq_some hprivate⟩
      · exact hnil
    · split
      · exact hnil
      · exact hnil

/-- A text with lines leaves a graph that is not empty. -/
theorem insertAll_ne_empty {queries : List InsertData} {graph : String} {triples : List Triple}
    (hquery : insertContent graph (nquads triples) ∈ queries) (hne : triples ≠ []) :
    v8.insertAll queries graph ≠ ∅ := by
  obtain ⟨t, ht⟩ := List.exists_mem_of_ne_nil triples hne
  refine Finset.ne_empty_of_mem (a := String.ofList t.line) ?_
  exact NamedGraphs.mem_insertAll.mpr (.inr ⟨_, hquery, rfl, mem_insertContent ht⟩)

/-- The metadata of an asset without a blank in its UAL is about the asset. -/
theorem subject_metadataNQuads {ual : String} (h : ' ' ∉ (knowledgeAssetUal ual).toList) :
    subject (metadataNQuads ual) = "<" ++ knowledgeAssetUal ual ++ ">" := by
  have hname : ' ' ∉ ("<" ++ knowledgeAssetUal ual ++ ">").toList := by
    rw [String.toList_append, String.toList_append]
    simp [h]
  have hline : metadataNQuads ual = "<" ++ knowledgeAssetUal ual ++ ">" ++ " " ++
      ("<http://schema.org/states> \"" ++ knowledgeAssetUal ual ++ ":0\" .") := by
    simp only [metadataNQuads, String.append_assoc]
    rfl
  rw [hline, subject_append hname]

/-- STEP (check): an assertion that is inserted is found exactly if its check does not fail and
    there is no blank in its UAL. -/
theorem exists_iff {a : V6Assertion} {queries : List InsertData} {triples triples' : List Triple}
    (hpublic : a.publicAssertion = nquads triples) (hprivate : a.privateAssertion = nquads triples')
    (hskipped : a.isSkipped = false) (hqueries : ∀ query ∈ insertQueries a, query ∈ queries) :
    getKnowledgeCollectionNamedGraphsExist o (v8.insertAll queries) a = true ↔
      o.askFails a.tokenId = false ∧ ' ' ∉ (knowledgeAssetUal a.ual).toList := by
  rw [getKnowledgeCollectionNamedGraphsExist]
  simp only [Bool.and_eq_true, Bool.or_eq_true, Bool.not_eq_true', decide_eq_true_eq]
  constructor
  · rintro ⟨⟨⟨hask, -⟩, -⟩, line, -, hsubject⟩
    refine ⟨hask, ?_⟩
    intro hblank
    refine noBlank_subject line ?_
    rw [hsubject, String.toList_append, String.toList_append]
    simp [hblank]
  · rintro ⟨hask, hual⟩
    refine ⟨⟨⟨hask, ?_⟩, ?_⟩, metadataNQuads a.ual, ?_, subject_metadataNQuads hual⟩
    · have hquery : insertContent (graphName (knowledgeAssetUal a.ual) .ofPublic) (nquads triples) ∈
          insertQueries a := by
        rw [insertQueries, hpublic]
        exact List.mem_cons_self
      refine insertAll_ne_empty (hqueries _ hquery) ?_
      rintro rfl
      rw [V6Assertion.isSkipped, hpublic] at hskipped
      cases hskipped
    · by_cases hnil : a.privateAssertion = []
      · exact .inl hnil
      · have hquery : insertContent (graphName (knowledgeAssetUal a.ual) .ofPrivate)
            (nquads triples') ∈ insertQueries a := by
          rw [insertQueries, if_pos hnil, hprivate]
          simp
        refine .inr (insertAll_ne_empty (hqueries _ hquery) ?_)
        rintro rfl
        exact hnil hprivate
    · have hquery : ⟨metadataGraph, [metadataNQuads a.ual]⟩ ∈ insertQueries a :=
        List.mem_append_right _ List.mem_cons_self
      exact NamedGraphs.mem_insertAll.mpr (.inr ⟨_, hqueries _ hquery, rfl, List.mem_cons_self⟩)

/-- The row is settled exactly if it is looked up with success, and skipped or found once it is
    inserted. -/
theorem settles_iff (v8 : NamedGraphs) (queries : List InsertData)
    (hdefined : row.isDefined = true)
    (hqueries : (getAssertionFromV6TripleStore v6 (answers.outcomes rows) row).success = true →
      (getAssertionFromV6TripleStore v6 (answers.outcomes rows) row).isSkipped = false →
        ∀ query ∈ insertQueries (getAssertionFromV6TripleStore v6 (answers.outcomes rows) row),
          query ∈ queries) :
    Settles v6 answers row ↔
      (getAssertionFromV6TripleStore v6 (answers.outcomes rows) row).success = true ∧
        ((getAssertionFromV6TripleStore v6 (answers.outcomes rows) row).isSkipped = true ∨
          getKnowledgeCollectionNamedGraphsExist (answers.outcomes rows) (v8.insertAll queries)
            (getAssertionFromV6TripleStore v6 (answers.outcomes rows) row) = true) := by
  have hchecked : ∀ hreadable : Readable v6 answers row, ¬ Skipped v6 row →
      (getKnowledgeCollectionNamedGraphsExist (answers.outcomes rows) (v8.insertAll queries)
          (getAssertionFromV6TripleStore v6 (answers.outcomes rows) row) = true ↔
        answers.askFails row.tokenId = false ∧ ' ' ∉ (knowledgeAssetUal row.ual).toList) := by
    intro hreadable hskipped
    have hsuccess := (success_iff rows).mpr hreadable
    have hfetched := fetched_getAssertionFromV6TripleStore hsuccess
    obtain ⟨triples, hprivate⟩ := exists_privateGraph v6 (answers.outcomes rows) row
    have hnot : (getAssertionFromV6TripleStore v6 (answers.outcomes rows) row).isSkipped = false :=
      Bool.eq_false_iff.mpr (mt (isSkipped_iff hreadable).mp hskipped)
    rw [exists_iff hfetched.publicAssertion hprivate hnot (hqueries hsuccess hnot), hfetched.tokenId,
      hfetched.ual, Answers.outcomes]
  rw [success_iff]
  constructor
  · rintro ⟨-, hreadable, hsettled⟩
    refine ⟨hreadable, ?_⟩
    rw [isSkipped_iff hreadable]
    by_cases hskipped : Skipped v6 row
    · exact .inl hskipped
    · exact .inr ((hchecked hreadable hskipped).mpr (hsettled.resolve_left hskipped))
  · rintro ⟨hreadable, hsettled⟩
    refine ⟨hdefined, hreadable, ?_⟩
    rw [isSkipped_iff hreadable] at hsettled
    by_cases hskipped : Skipped v6 row
    · exact .inl hskipped
    · exact .inr ((hchecked hreadable hskipped).mp (hsettled.resolve_left hskipped))

end Row

/-! ### A batch -/

section Batch

variable {v6 : V6Store} {o : Outcomes} {answers : Answers} {rows : List MigrationRow}
  {v8 : NamedGraphs} {v6Assertions : List V6Assertion} {tokenId : ℕ}

/-- The insertions of what is not skipped. -/
def insertions (v6Assertions : List V6Assertion) : List InsertData :=
  (v6Assertions.filter (!·.isSkipped)).flatMap insertQueries

theorem insertions_eq_nil : insertions v6Assertions = [] ↔ ∀ a ∈ v6Assertions, a.isSkipped = true := by
  rw [insertions, List.flatMap_eq_nil_iff]
  constructor
  · intro hnil a ha
    by_contra hskipped
    have hchecked : a ∈ v6Assertions.filter (!·.isSkipped) :=
      List.mem_filter.mpr ⟨ha, by simpa using hskipped⟩
    exact absurd (hnil a hchecked) (List.cons_ne_nil _ _)
  · intro hskipped a ha
    obtain ⟨hmem, hnot⟩ := List.mem_filter.mp ha
    rw [hskipped a hmem] at hnot
    cases hnot

theorem mem_insertions {a : V6Assertion} (ha : a ∈ v6Assertions) (hskipped : a.isSkipped = false) :
    ∀ query ∈ insertQueries a, query ∈ insertions v6Assertions := by
  intro query hquery
  refine List.mem_flatMap.mpr ⟨a, List.mem_filter.mpr ⟨ha, ?_⟩, hquery⟩
  rw [hskipped]
  rfl

/-- STEP (processing): the tokens that are processed, if the update is not needed or is done. -/
theorem processAndInsertAssertions_eq_some
    (h : (∀ a ∈ v6Assertions, a.isSkipped = true) ∨ o.update = .done) :
    (processAndInsertAssertions o v6Assertions v8).2 =
      some ((v6Assertions.filter (·.isSkipped)).map (·.tokenId) ++
        ((v6Assertions.filter (!·.isSkipped)).filter (getKnowledgeCollectionNamedGraphsExist o
          (v8.insertAll (insertions v6Assertions)))).map (·.tokenId)) := by
  rw [processAndInsertAssertions, insertAssertionsIntoV8UnifiedRepository]
  by_cases hnil : insertions v6Assertions = []
  · have hqueries : (v6Assertions.filter (!·.isSkipped)).flatMap insertQueries = [] := hnil
    simp only [hqueries, ne_eq, not_true_eq_false, if_false, hnil]
    rfl
  · have hdone := h.resolve_left (mt insertions_eq_nil.mpr hnil)
    have hqueries : (v6Assertions.filter (!·.isSkipped)).flatMap insertQueries ≠ [] := hnil
    simp only [hqueries, ne_eq, not_false_eq_true, if_true, hdone]
    rfl

theorem processAndInsertAssertions_eq_none
    (h : ¬ ((∀ a ∈ v6Assertions, a.isSkipped = true) ∨ o.update = .done)) :
    (processAndInsertAssertions o v6Assertions v8).2 = none := by
  obtain ⟨hskipped, hdone⟩ := not_or.mp h
  have hqueries : (v6Assertions.filter (!·.isSkipped)).flatMap insertQueries ≠ [] :=
    mt insertions_eq_nil.mp hskipped
  rw [processAndInsertAssertions, insertAssertionsIntoV8UnifiedRepository]
  simp only [hqueries, ne_eq, not_false_eq_true, if_true]
  cases hupdate : o.update with
  | done => exact absurd hupdate hdone
  | failed => rfl
  | lost => rfl

theorem mem_getAssertionsInBatch {a : V6Assertion} : a ∈ getAssertionsInBatch v6 o rows ↔
    ∃ row ∈ rows, getAssertionFromV6TripleStore v6 o row = a ∧ a.success = true := by
  rw [getAssertionsInBatch, List.mem_filter, List.mem_map]
  constructor
  · rintro ⟨⟨row, hrow, heq⟩, hsuccess⟩
    exact ⟨row, hrow, heq, hsuccess⟩
  · rintro ⟨row, hrow, heq, hsuccess⟩
    exact ⟨⟨row, hrow, heq⟩, hsuccess⟩

/-- The tokens that are marked are those that are processed, if the data is there and the marking
    does not fail. -/
theorem mem_processBatch : tokenId ∈ (processBatch v6 o rows v8).2 ↔
    (∀ row ∈ rows, row.isDefined = true) ∧ o.markFails = false ∧ ∃ tokenIds,
      (processAndInsertAssertions o (getAssertionsInBatch v6 o rows) v8).2 = some tokenIds ∧
        tokenId ∈ tokenIds := by
  rw [processBatch]
  by_cases hdefined : rows.all (·.isDefined) = true
  · rw [if_pos hdefined, and_iff_right (List.all_eq_true.mp hdefined), ← getAssertionsInBatch]
    by_cases hnil : getAssertionsInBatch v6 o rows = []
    · simp [hnil, processAndInsertAssertions_eq_some]
    · simp only [hnil, if_false]
      cases o.markFails with
      | true =>
        split <;> simp
      | false =>
        split
        · next processed hprocessed => simp [hprocessed]
        · next hprocessed => simp [hprocessed]
  · rw [if_neg hdefined]
    simp only [List.not_mem_nil, false_iff]
    rintro ⟨hall, -⟩
    exact hdefined (List.all_eq_true.mpr hall)

/-- STEP (batch): a token is marked exactly if the data of all rows is there, the stores take the
    batch, and the row of the token is settled. -/
theorem mem_marked_iff : tokenId ∈ (processBatch v6 (answers.outcomes rows) rows v8).2 ↔
    (∀ row ∈ rows, row.isDefined = true) ∧ Takes v6 answers rows ∧
      ∃ row ∈ rows, row.tokenId = tokenId ∧ Settles v6 answers row := by
  rw [mem_processBatch]
  refine and_congr_right fun hdefined => ?_
  have hskips : (∀ a ∈ getAssertionsInBatch v6 (answers.outcomes rows) rows, a.isSkipped = true) ↔
      ∀ row ∈ rows, Readable v6 answers row → Skipped v6 row := by
    constructor
    · intro hall row hrow hreadable
      exact (isSkipped_iff hreadable).mp (hall _ (mem_getAssertionsInBatch.mpr
        ⟨row, hrow, rfl, (success_iff rows).mpr hreadable⟩))
    · intro hall a ha
      obtain ⟨row, hrow, rfl, hsuccess⟩ := mem_getAssertionsInBatch.mp ha
      have hreadable := (success_iff rows).mp hsuccess
      exact (isSkipped_iff hreadable).mpr (hall row hrow hreadable)
  by_cases hupdate : (∀ row ∈ rows, Readable v6 answers row → Skipped v6 row) ∨
      answers.update rows = .done
  · rw [processAndInsertAssertions_eq_some (hupdate.imp_left hskips.mpr)]
    have htakes : Takes v6 answers rows ↔ answers.markFails rows = false :=
      ⟨Takes.marks, fun hmarks => ⟨hupdate, hmarks⟩⟩
    rw [htakes]
    refine and_congr_right fun _ => ?_
    have hsettles : ∀ row ∈ rows, Settles v6 answers row ↔ _ := fun row hrow =>
      settles_iff v8 (insertions (getAssertionsInBatch v6 (answers.outcomes rows) rows))
        (hdefined row hrow) fun hsuccess hskipped =>
          mem_insertions (mem_getAssertionsInBatch.mpr ⟨row, hrow, rfl, hsuccess⟩) hskipped
    simp only [Option.some.injEq, exists_eq_left', List.mem_append, List.mem_map, List.mem_filter,
      mem_getAssertionsInBatch]
    constructor
    · rintro (⟨a, ⟨⟨row, hrow, rfl, hsuccess⟩, hskipped⟩, rfl⟩ |
        ⟨a, ⟨⟨⟨row, hrow, rfl, hsuccess⟩, -⟩, hexists⟩, rfl⟩)
      · exact ⟨row, hrow, (fetched_getAssertionFromV6TripleStore hsuccess).tokenId.symm,
          (hsettles row hrow).mpr ⟨hsuccess, .inl hskipped⟩⟩
      · exact ⟨row, hrow, (fetched_getAssertionFromV6TripleStore hsuccess).tokenId.symm,
          (hsettles row hrow).mpr ⟨hsuccess, .inr hexists⟩⟩
    · rintro ⟨row, hrow, rfl, hsettled⟩
      obtain ⟨hsuccess, hchecked⟩ := (hsettles row hrow).mp hsettled
      have htoken := (fetched_getAssertionFromV6TripleStore hsuccess).tokenId
      by_cases hskipped :
          (getAssertionFromV6TripleStore v6 (answers.outcomes rows) row).isSkipped = true
      · exact .inl ⟨_, ⟨⟨row, hrow, rfl, hsuccess⟩, hskipped⟩, htoken⟩
      · refine .inr ⟨_, ⟨⟨⟨row, hrow, rfl, hsuccess⟩, ?_⟩, hchecked.resolve_left hskipped⟩, htoken⟩
        rw [Bool.eq_false_iff.mpr hskipped]
        rfl
  · rw [processAndInsertAssertions_eq_none (mt (Or.imp_left hskips.mp) hupdate)]
    refine iff_of_false ?_ ?_
    · rintro ⟨-, tokenIds, hnone, -⟩
      cases hnone
    · rintro ⟨htakes, -⟩
      exact hupdate htakes.update

end Batch

/-! ### The loop -/

section Loop

variable {v6 : V6Store} {answers : Answers} {blockchainName : String} {s : State} {t : ProgressTable}
  {row : MigrationRow} {n : ℕ}

theorem mem_unprocessed : row ∈ t.unprocessed ↔ row ∈ t.rows ∧ row.processed = false := by
  rw [ProgressTable.unprocessed, List.mem_filter, Bool.not_eq_true']

theorem unprocessed_eq_nil : t.unprocessed = [] ↔ ∀ row ∈ t.rows, row.processed = true := by
  rw [ProgressTable.unprocessed, List.filter_eq_nil_iff]
  refine forall_congr' fun row => forall_congr' fun _ => ?_
  rw [Bool.not_eq_true', Bool.not_eq_false]

theorem filter_marked (tokenIds : List ℕ) (rows : List MigrationRow) :
    (rows.map fun row => if decide (row.tokenId ∈ tokenIds) then { row with processed := true }
      else row).filter (!·.processed) =
        (rows.filter (!·.processed)).filter fun row => row.tokenId ∉ tokenIds := by
  induction rows with
  | nil => rfl
  | cons row rows ih =>
    rw [List.map_cons]
    by_cases hmarked : row.tokenId ∈ tokenIds
    · rw [if_pos (decide_eq_true hmarked), List.filter_cons_of_neg (by simp), ih]
      cases hprocessed : row.processed with
      | true => rw [List.filter_cons_of_neg (by simp [hprocessed])]
      | false =>
        rw [List.filter_cons_of_pos (by simp [hprocessed]),
          List.filter_cons_of_neg (by simp [hmarked])]
    · rw [if_neg (by simpa using hmarked)]
      cases hprocessed : row.processed with
      | true =>
        rw [List.filter_cons_of_neg (by simp [hprocessed]), ih,
          List.filter_cons_of_neg (by simp [hprocessed])]
      | false =>
        rw [List.filter_cons_of_pos (by simp [hprocessed]), ih,
          List.filter_cons_of_pos (by simp [hprocessed]),
          List.filter_cons_of_pos (by simp [hmarked])]

/-- What is marked is no longer unprocessed, and the rest is. -/
theorem unprocessed_markRowsAsProcessed (tokenIds : List ℕ) :
    (t.markRowsAsProcessed tokenIds).unprocessed =
      t.unprocessed.filter fun row => row.tokenId ∉ tokenIds :=
  filter_marked tokenIds t.rows

theorem tables_iterate : (s.iterate v6 answers blockchainName).tables blockchainName =
    (s.tables blockchainName).markRowsAsProcessed (s.marked v6 answers blockchainName) :=
  Function.update_self ..

/-- STEP (iteration): what is marked leaves the unprocessed rows. -/
theorem unprocessed_after_succ (n : ℕ) :
    (s.after v6 answers blockchainName (n + 1)).unprocessed blockchainName =
      ((s.after v6 answers blockchainName n).unprocessed blockchainName).filter fun row =>
        row.tokenId ∉ (s.after v6 answers blockchainName n).marked v6 answers blockchainName := by
  rw [State.after, Function.iterate_succ_apply', ← State.after, State.unprocessed, tables_iterate]
  exact unprocessed_markRowsAsProcessed _

/-- STEP (marks): an iteration marks the settled rows of the batch, if it is taken. -/
theorem mem_marked {tokenId : ℕ} : tokenId ∈ s.marked v6 answers blockchainName ↔
    (∀ row ∈ (s.unprocessed blockchainName).take BATCH_SIZE, row.isDefined = true) ∧
      Takes v6 answers ((s.unprocessed blockchainName).take BATCH_SIZE) ∧
        ∃ row ∈ (s.unprocessed blockchainName).take BATCH_SIZE,
          row.tokenId = tokenId ∧ Settles v6 answers row :=
  mem_marked_iff

/-- A key has one unprocessed row. -/
theorem eq_of_unprocessed {row' : MigrationRow} (hrow : row ∈ s.unprocessed blockchainName)
    (hrow' : row' ∈ s.unprocessed blockchainName) (h : row.tokenId = row'.tokenId) : row = row' :=
  eq_of_tokenId (mem_unprocessed.mp hrow).1 (mem_unprocessed.mp hrow').1 h

/-- RUN (unsettled): a row that does not settle stays unprocessed. -/
theorem mem_unprocessed_after (hrow : row ∈ s.unprocessed blockchainName)
    (hunsettled : ¬ Settles v6 answers row) (n : ℕ) :
    row ∈ (s.after v6 answers blockchainName n).unprocessed blockchainName := by
  induction n with
  | zero => exact hrow
  | succ n ih =>
    rw [unprocessed_after_succ]
    refine List.mem_filter.mpr ⟨ih, decide_eq_true ?_⟩
    intro hmarked
    obtain ⟨-, -, other, hother, htoken, hsettles⟩ := mem_marked.mp hmarked
    obtain rfl := eq_of_unprocessed (List.mem_of_mem_take hother) ih htoken
    exact hunsettled hsettles

/-- If the first rows are removed, the others are left. -/
theorem filter_notMem_take {rows : List MigrationRow} (hnodup : (rows.map (·.tokenId)).Nodup)
    (m : ℕ) : (rows.filter fun row => row.tokenId ∉ (rows.take m).map (·.tokenId)) =
      rows.drop m := by
  have hsplit : (rows.take m).map (·.tokenId) ++ (rows.drop m).map (·.tokenId) =
      rows.map (·.tokenId) := by
    rw [← List.map_append, List.take_append_drop]
  have hdisjoint := List.disjoint_of_nodup_append (hsplit ▸ hnodup)
  have hfirst : ((rows.take m).filter fun row => row.tokenId ∉ (rows.take m).map (·.tokenId)) =
      [] := by
    rw [List.filter_eq_nil_iff]
    intro row hrow hnot
    exact of_decide_eq_true hnot (List.mem_map_of_mem hrow)
  have hrest : ((rows.drop m).filter fun row => row.tokenId ∉ (rows.take m).map (·.tokenId)) =
      rows.drop m := by
    rw [List.filter_eq_self]
    intro row hrow
    refine decide_eq_true ?_
    intro hmem
    exact hdisjoint hmem (List.mem_map_of_mem hrow)
  calc rows.filter (fun row => row.tokenId ∉ (rows.take m).map (·.tokenId))
      = (rows.take m ++ rows.drop m).filter
          (fun row => row.tokenId ∉ (rows.take m).map (·.tokenId)) := by
        rw [List.take_append_drop]
    _ = rows.drop m := by rw [List.filter_append, hfirst, hrest, List.nil_append]

theorem nodup_unprocessed (t : ProgressTable) : (t.unprocessed.map (·.tokenId)).Nodup :=
  (List.filter_sublist.map _).nodup t.nodup

/-- RUN (batches): as long as all rows settle and the batches are taken, each iteration works off
    the first unprocessed rows. -/
theorem unprocessed_after (hsettles : ∀ row ∈ s.unprocessed blockchainName, Settles v6 answers row)
    (htakes : ∀ k < n, (s.tables blockchainName).batchAfter k ≠ [] →
      Takes v6 answers ((s.tables blockchainName).batchAfter k)) :
    (s.after v6 answers blockchainName n).unprocessed blockchainName =
      (s.unprocessed blockchainName).drop (BATCH_SIZE * n) := by
  induction n with
  | zero => exact (List.drop_zero).symm
  | succ n ih =>
    have hbefore := ih fun k hk => htakes k (Nat.lt_succ_of_lt hk)
    have hbatch : ((s.after v6 answers blockchainName n).unprocessed blockchainName).take
        BATCH_SIZE = (s.tables blockchainName).batchAfter n := by
      rw [hbefore]
      rfl
    rw [unprocessed_after_succ, Nat.mul_succ, ← List.drop_drop, ← hbefore]
    by_cases hnil : (s.tables blockchainName).batchAfter n = []
    · have hnone : (s.after v6 answers blockchainName n).unprocessed blockchainName = [] := by
        rcases List.take_eq_nil_iff.mp (hbatch.trans hnil) with hzero | hnil
        · cases hzero
        · exact hnil
      rw [hnone]
      rfl
    · have htaken := htakes n (Nat.lt_succ_self n) hnil
      have hmem : ∀ row ∈ ((s.after v6 answers blockchainName n).unprocessed blockchainName).take
          BATCH_SIZE, Settles v6 answers row := by
        intro row hrow
        refine hsettles row (List.mem_of_mem_drop (i := BATCH_SIZE * n) ?_)
        exact hbefore ▸ List.mem_of_mem_take hrow
      have hnodup : (((s.after v6 answers blockchainName n).unprocessed blockchainName).map
          (·.tokenId)).Nodup := nodup_unprocessed _
      rw [← filter_notMem_take hnodup]
      refine List.filter_congr ?_
      intro row hrow
      refine decide_eq_decide.mpr (not_congr ?_)
      rw [mem_marked, hbatch, and_iff_right htaken, ← hbatch, List.mem_map]
      constructor
      · rintro ⟨-, other, hother, htoken, -⟩
        exact ⟨other, hother, htoken⟩
      · rintro ⟨other, hother, htoken⟩
        exact ⟨fun row hrow => (hmem row hrow).defined, other, hother, htoken, hmem other hother⟩

/-- RUN (rejected): where the batch is not taken, nothing is marked any more. -/
theorem unprocessed_after_add (hrejected : ¬ Takes v6 answers
      (((s.after v6 answers blockchainName n).unprocessed blockchainName).take BATCH_SIZE)) (m : ℕ) :
    (s.after v6 answers blockchainName (n + m)).unprocessed blockchainName =
      (s.after v6 answers blockchainName n).unprocessed blockchainName := by
  induction m with
  | zero => rfl
  | succ m ih =>
    rw [← Nat.add_assoc, unprocessed_after_succ, ← ih, List.filter_eq_self]
    intro row _
    refine decide_eq_true ?_
    intro hmarked
    exact hrejected (ih ▸ (mem_marked.mp hmarked).2.1)

/-- RUN (end): where all rows are processed, they stay so. -/
theorem unprocessed_after_of_nil
    (hnil : (s.after v6 answers blockchainName n).unprocessed blockchainName = []) (m : ℕ) :
    (s.after v6 answers blockchainName (n + m)).unprocessed blockchainName = [] := by
  induction m with
  | zero => exact hnil
  | succ m ih =>
    rw [← Nat.add_assoc, unprocessed_after_succ, ih]
    rfl

theorem marksAll_iff : (∃ n, ∀ row ∈ ((s.after v6 answers blockchainName n).tables
      blockchainName).rows, row.processed = true) ↔
    ∃ n, (s.after v6 answers blockchainName n).unprocessed blockchainName = [] :=
  exists_congr fun _ => unprocessed_eq_nil.symm

/-- RUN (settled): the loop marks only rows that settle. -/
theorem settles_of_nil
    (hnil : (s.after v6 answers blockchainName n).unprocessed blockchainName = []) :
    ∀ row ∈ s.unprocessed blockchainName, Settles v6 answers row := by
  intro row hrow
  by_contra hunsettled
  have hmem := mem_unprocessed_after hrow hunsettled n
  rw [hnil] at hmem
  cases hmem

/-- RUN (taken): a batch that is not taken is the last that the loop gets to. -/
theorem takes_of_nil (hsettles : ∀ row ∈ s.unprocessed blockchainName, Settles v6 answers row)
    (hnil : (s.after v6 answers blockchainName n).unprocessed blockchainName = []) (k : ℕ) :
    (s.tables blockchainName).batchAfter k ≠ [] →
      Takes v6 answers ((s.tables blockchainName).batchAfter k) := by
  induction k using Nat.strong_induction_on with
  | h k ih =>
    intro hbatch
    by_contra hrejected
    have hrows := unprocessed_after hsettles ih
    have hfirst : ((s.after v6 answers blockchainName k).unprocessed blockchainName).take
        BATCH_SIZE = (s.tables blockchainName).batchAfter k := by
      rw [hrows]
      rfl
    have hstuck := unprocessed_after_add (hfirst.symm ▸ hrejected) n
    rw [Nat.add_comm, unprocessed_after_of_nil hnil k] at hstuck
    rw [← hfirst, ← hstuck] at hbatch
    exact hbatch rfl

/-- STEP (iteration): without an error a token is marked. -/
theorem exists_marked (h : s.EndsWithoutError v6 answers blockchainName) :
    ∃ tokenId, tokenId ∈ s.marked v6 answers blockchainName := by
  obtain ⟨tokenIds, hprocessed, hne⟩ := h.processed
  obtain ⟨tokenId, htoken⟩ := List.exists_mem_of_ne_nil _ hne
  exact ⟨tokenId, mem_processBatch.mpr ⟨h.defined, h.marks, tokenIds, hprocessed, htoken⟩⟩

/-- RUN (marks): an iteration that ends without an error marks a row. -/
theorem getUnprocessedCount_after_succ (n : ℕ)
    (h : (s.after v6 answers blockchainName n).EndsWithoutError v6 answers blockchainName) :
    ((s.after v6 answers blockchainName (n + 1)).tables blockchainName).getUnprocessedCount <
      ((s.after v6 answers blockchainName n).tables blockchainName).getUnprocessedCount := by
  have hcount : ∀ t : ProgressTable, t.getUnprocessedCount = t.unprocessed.length :=
    fun t => List.countP_eq_length_filter
  have hfewer : ((s.after v6 answers blockchainName (n + 1)).unprocessed blockchainName).length <
      ((s.after v6 answers blockchainName n).unprocessed blockchainName).length := by
    obtain ⟨tokenId, htoken⟩ := exists_marked h
    obtain ⟨-, -, row, hrow, rfl, -⟩ := mem_marked.mp htoken
    rw [unprocessed_after_succ, List.length_filter_lt_length_iff_exists]
    refine ⟨row, List.mem_of_mem_take hrow, ?_⟩
    rw [decide_eq_true_iff, not_not]
    exact htoken
  rw [hcount, hcount]
  exact hfewer

/-- CODE BUG (termination): the batch loop marks every row if and only if every unprocessed row
    settles, and the stores take each batch of them in turn. -/
theorem terminates_iff (v6 : V6Store) (answers : Answers) (blockchainName : String) (s : State) :
    Terminates v6 answers blockchainName s ↔
      (∀ row ∈ s.unprocessed blockchainName, Settles v6 answers row) ∧
        ∀ k, (s.tables blockchainName).batchAfter k ≠ [] →
          Takes v6 answers ((s.tables blockchainName).batchAfter k) := by
  constructor
  · rintro ⟨hall, -⟩
    obtain ⟨n, hnil⟩ := marksAll_iff.mp hall
    have hsettles := settles_of_nil hnil
    exact ⟨hsettles, takes_of_nil hsettles hnil⟩
  · rintro ⟨hsettles, htakes⟩
    refine ⟨marksAll_iff.mpr ⟨(s.unprocessed blockchainName).length, ?_⟩,
      getUnprocessedCount_after_succ⟩
    rw [unprocessed_after hsettles fun k _ => htakes k, List.drop_eq_nil_iff]
    exact Nat.le_mul_of_pos_left _ (by decide)

end Loop

/-! ### An assertion without the id -/

theorem newline_not_mem_nil : '\n' ∉ ([] : Text) := List.not_mem_nil

theorem newline_not_mem_privateAssertionID : '\n' ∉ privateAssertionID := by
  decide

/-- A triple with the private predicate whose object is no id. -/
def withoutId : Triple where
  subject := .iri ⟨"urn:a".toList, by decide⟩
  predicate := .iri ⟨privateAssertionID, newline_not_mem_privateAssertionID⟩
  object := .literal ⟨"none".toList, by decide⟩ ⟨[], newline_not_mem_nil⟩

/-- The V6 repositories with this triple as the assertion. -/
def storeWithoutId : V6Store := fun repository graph =>
  if repository = .privateCurrent ∧ graph = assertionGraph "0xa".toList then [withoutId] else []

/-- Stores that answer every request. -/
def answersAll : Answers := ⟨fun _ _ => false, fun _ => false, fun _ => .done, fun _ => false⟩

theorem extractPrivateAssertionId_withoutId :
    extractPrivateAssertionId (nquads [withoutId]) = none := by
  decide +kernel

/-- COUNTEREXAMPLE: the row with this assertion is looked up over and over. -/
theorem not_terminates_withoutId :
    ¬ Terminates storeWithoutId answersAll "neuroweb_mainnet" oneRow := by
  rintro ⟨hall, -⟩
  obtain ⟨n, hnil⟩ := marksAll_iff.mp hall
  obtain ⟨-, ⟨-, hreadable⟩, -⟩ := settles_of_nil hnil
    ⟨1, "did:dkg:otp:2043/0x5c/1", "0xa".toList, false⟩ (List.mem_singleton_self _)
  have hgraph : storeWithoutId .privateCurrent (assertionGraph "0xa".toList) = [withoutId] :=
    if_pos ⟨rfl, rfl⟩
  have hlinks : Links [withoutId] "none".toList :=
    ⟨withoutId, List.mem_singleton_self _, ⟨_, newline_not_mem_privateAssertionID⟩, _, _, rfl, rfl,
      rfl, rfl⟩
  rw [if_neg (by rw [hgraph]; exact List.cons_ne_nil _ _), hgraph,
    extractPrivateAssertionId_withoutId] at hreadable
  cases (hreadable (includes_of_links hlinks)).1

end OtNode.Migration
