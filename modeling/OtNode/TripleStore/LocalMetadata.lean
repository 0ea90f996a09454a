import OtNode.TripleStore.LocalGet

/-! The metadata of a collection, written and read back by a local get.

    Two writers leave a state: one of each asset, or one of the collection itself. The reader asks
    for one subject, or for those whose name goes on after that of the collection. Where it has made
    a range of the id, that range ends up in the name, and no query can be made of it. -/

namespace OtNode

open TripleStoreService

/-- `createV6KnowledgeCollection`: its queries. -/
def createV6KnowledgeCollection (triplesPublic : List String) (ual : String)
    (triplesPrivate : Option (List String)) : List InsertData :=
  (createKnowledgeCollectionNamedGraphs [ual ++ "/1"] [triplesPublic] .ofPublic ++
    match triplesPrivate with
    | none => []
    | some triplesPrivate =>
      createKnowledgeCollectionNamedGraphs [ual ++ "/1"] [triplesPrivate] .ofPrivate) ++
    [insertKnowledgeCollectionMetadata [metadataTriple ual]]

/-- What inserts a collection. -/
inductive CollectionWriter where
  | insertKnowledgeCollection (triples : CollectionTriples)
  | createV6KnowledgeCollection (triplesPublic : List String)
      (triplesPrivate : Option (List String))

namespace CollectionWriter

variable (service : TripleStoreService)

/-- The queries of the writer. -/
def queries (store : NamedGraphs) (ual : String) : CollectionWriter → List InsertData
  | insertKnowledgeCollection triples => service.insertKnowledgeCollection store ual triples
  | createV6KnowledgeCollection triplesPublic triplesPrivate =>
    OtNode.createV6KnowledgeCollection triplesPublic ual triplesPrivate

/-- How many assets the collection has. -/
def assets : CollectionWriter → ℕ
  | insertKnowledgeCollection triples => (service.publicGroups triples.publicTriples).length
  | createV6KnowledgeCollection _ _ => 1

/-- The metadata that is inserted. -/
def metadata (ual : String) : CollectionWriter → List String
  | insertKnowledgeCollection triples =>
    (assetUALs ual (service.publicGroups triples.publicTriples)).map metadataTriple
  | createV6KnowledgeCollection _ _ => [metadataTriple ual]

/-- The metadata that is inserted for a request: for the collection, or one of its assets. -/
def requested (ual : String) (writer : CollectionWriter) (knowledgeAssetId : Option ℕ) :
    List String :=
  match writer, knowledgeAssetId with
  | insertKnowledgeCollection _, some id => [metadataTriple (assetUAL ual id)]
  | writer, _ => writer.metadata service ual

end CollectionWriter

/-! ### What is in the metadata graph -/

theorem not_metadata_of_mem {uals : List String} {assetsNQuads : List (List String)}
    {visibility : TriplesVisibility} {query : InsertData}
    (h : query ∈ createKnowledgeCollectionNamedGraphs uals assetsNQuads visibility) :
    query.graph ≠ metadataGraph := by
  obtain ⟨ual, group, -, rfl⟩ := mem_createKnowledgeCollectionNamedGraphs.mp h
  exact graphName_ne_metadataGraph

/-- A query of a writer is its metadata, or an insert into a graph of an asset. -/
theorem CollectionWriter.mem_queries {service : TripleStoreService} {store : NamedGraphs}
    {ual : String} {writer : CollectionWriter} {query : InsertData}
    (h : query ∈ writer.queries service store ual) :
    query = insertKnowledgeCollectionMetadata (writer.metadata service ual) ∨
      query.graph ≠ metadataGraph := by
  cases writer with
  | insertKnowledgeCollection triples =>
    rcases List.mem_append.mp h with h | h
    · split_ifs at h
      · cases h
      · rcases List.mem_append.mp h with h | h
        · exact .inr (not_metadata_of_mem h)
        · cases h
      · rcases List.mem_append.mp h with h | h <;> exact .inr (not_metadata_of_mem h)
    · exact .inl (List.mem_singleton.mp h)
  | createV6KnowledgeCollection triplesPublic triplesPrivate =>
    rcases List.mem_append.mp h with h | h
    · rcases List.mem_append.mp h with h | h
      · exact .inr (not_metadata_of_mem h)
      · cases triplesPrivate with
        | none => cases h
        | some triplesPrivate => exact .inr (not_metadata_of_mem h)
    · exact .inl (List.mem_singleton.mp h)

theorem CollectionWriter.metadata_mem_queries (service : TripleStoreService) (store : NamedGraphs)
    (ual : String) (writer : CollectionWriter) :
    insertKnowledgeCollectionMetadata (writer.metadata service ual) ∈
      writer.queries service store ual := by
  cases writer <;> exact List.mem_append_right _ (List.mem_singleton.mpr rfl)

/-- The metadata graph holds what it held, and the metadata of the writer. -/
theorem mem_metadataGraph {service : TripleStoreService} {store before : NamedGraphs} {ual : String}
    {writer : CollectionWriter} {queries : List InsertData}
    (horder : queries.Perm (writer.queries service before ual)) {nquad : String} :
    nquad ∈ store.insertAll queries metadataGraph ↔
      nquad ∈ store metadataGraph ∨ nquad ∈ writer.metadata service ual := by
  rw [NamedGraphs.mem_insertAll]
  refine or_congr_right ?_
  constructor
  · rintro ⟨query, hquery, hgraph, hnquad⟩
    rcases CollectionWriter.mem_queries (horder.mem_iff.mp hquery) with rfl | hne
    · exact hnquad
    · exact absurd hgraph hne
  · intro hnquad
    exact ⟨_, horder.mem_iff.mpr (writer.metadata_mem_queries service before ual), rfl, hnquad⟩

/-- The subject of a state is the UAL. -/
theorem subject_metadataTriple {ual : String} (h : ' ' ∉ ual.toList) :
    subject (metadataTriple ual) = "<" ++ ual ++ ">" := by
  have htriple : (metadataTriple ual).toList = ("<" ++ ual ++ ">").toList ++
      ' ' :: ("<http://schema.org/states> \"" ++ ual ++ ":0\" .").toList := by
    rw [metadataTriple]
    simp only [String.toList_append, List.append_assoc]
    rfl
  have hblank : ∀ c ∈ ("<" ++ ual ++ ">").toList, c ≠ ' ' := by
    rintro c hc rfl
    simp only [String.toList_append, List.mem_append] at hc
    rcases hc with (hc | hc) | hc
    · exact absurd hc (by decide)
    · exact h hc
    · exact absurd hc (by decide)
  rw [subject, htriple, List.takeWhile_append_of_pos (by simpa using hblank),
    List.takeWhile_cons_of_neg (by simp), List.append_nil, String.ofList_toList]

/-- The metadata graph has no state of the collection, nor of an asset of it. -/
def NamedGraphs.WithoutMetadata (store : NamedGraphs) (ual : String) : Prop :=
  ∀ nquad ∈ store metadataGraph, ¬ ("<" ++ ual ++ "/").toList <+: (subject nquad).toList

theorem prefix_assetUAL (ual : String) (id : ℕ) :
    ("<" ++ ual ++ "/").toList <+: ("<" ++ assetUAL ual id ++ ">").toList := by
  refine ⟨(toString id ++ ">").toList, ?_⟩
  rw [← String.toList_append]
  congr 1
  simp only [assetUAL, String.append_assoc]

theorem not_prefix_ual (ual : String) :
    ¬ ("<" ++ ual ++ "/").toList <+: ("<" ++ ual ++ ">").toList := by
  intro hprefix
  have hlength : ("<" ++ ual ++ ">").toList.length ≤ ("<" ++ ual ++ "/").toList.length := by
    simp [String.toList_append]
  have heq := hprefix.eq_of_length_le hlength
  simp [String.toList_append] at heq

/-! ### The metadata of another collection -/

/-- A name that goes on after one with as many slashes is that name. -/
theorem eq_of_prefix_slash {u v w : List Char} (hcount : u.count '/' = v.count '/')
    (hw : '/' ∉ w.tail) (h : u ++ ['/'] <+: v ++ w) : u = v := by
  obtain ⟨t, ht⟩ := h
  rw [List.append_assoc] at ht
  rcases List.append_eq_append_iff.mp ht with ⟨rest, rfl, hrest⟩ | ⟨rest, rfl, rfl⟩
  · cases rest with
    | nil => rw [List.append_nil]
    | cons c rest =>
      obtain ⟨rfl, -⟩ := List.cons.inj hrest
      simp [List.count_append] at hcount
  · cases rest with
    | nil => rw [List.append_nil]
    | cons c rest => exact absurd (by simp) hw

/-- The states of another collection leave a collection without metadata: UALs have the same number
    of slashes. -/
theorem NamedGraphs.WithoutMetadata.insertAll {service : TripleStoreService}
    {store before : NamedGraphs} {ual other : String} {writer : CollectionWriter}
    {queries : List InsertData}
    (hnew : store.WithoutMetadata ual) (hne : ual ≠ other)
    (hcount : ual.toList.count '/' = other.toList.count '/') (hblank : ' ' ∉ other.toList)
    (horder : queries.Perm (writer.queries service before other)) :
    (store.insertAll queries).WithoutMetadata ual := by
  intro nquad hnquad hprefix
  rw [NamedGraphs.mem_insertAll] at hnquad
  rcases hnquad with hold | ⟨query, hquery, hgraph, hnquad⟩
  · exact hnew nquad hold hprefix
  have hmetadata : nquad ∈ writer.metadata service other := by
    rcases CollectionWriter.mem_queries (horder.mem_iff.mp hquery) with rfl | hother
    · exact hnquad
    · exact absurd hgraph hother
  cases writer with
  | insertKnowledgeCollection triples =>
    simp only [CollectionWriter.metadata, assetUALs, List.mem_map, List.mem_range] at hmetadata
    obtain ⟨_, ⟨index, -, rfl⟩, rfl⟩ := hmetadata
    rw [subject_metadataTriple (noBlank_assetUAL hblank (index + 1))] at hprefix
    refine hne (String.toList_inj.mp (eq_of_prefix_slash hcount
      (w := ("/" ++ toString (index + 1) ++ ">").toList) ?_ ?_))
    · simpa [String.toList_append] using notMem_toString rfl (index + 1)
    · simpa [assetUAL, String.toList_append] using hprefix
  | createV6KnowledgeCollection triplesPublic triplesPrivate =>
    rw [List.mem_singleton.mp hmetadata, subject_metadataTriple hblank] at hprefix
    refine hne (String.toList_inj.mp (eq_of_prefix_slash hcount (w := ['>']) (by decide) ?_))
    simpa [String.toList_append] using hprefix

/-- The insertion of another collection: its UAL, and the queries of a writer in some order. -/
def InsertsOther (service : TripleStoreService) (ual : String)
    (insertion : String × List InsertData) : Prop :=
  ual ≠ insertion.1 ∧ ual.toList.count '/' = insertion.1.toList.count '/' ∧
    ' ' ∉ insertion.1.toList ∧
      ∃ writer before, insertion.2.Perm (CollectionWriter.queries service before insertion.1 writer)

/-- RUN: after any insertions of other collections a collection is without metadata still. -/
theorem NamedGraphs.WithoutMetadata.insertOthers {service : TripleStoreService}
    {store : NamedGraphs} {ual : String} {insertions : List (String × List InsertData)}
    (hnew : store.WithoutMetadata ual)
    (hothers : ∀ insertion ∈ insertions, InsertsOther service ual insertion) :
    (insertions.foldl (fun store insertion => store.insertAll insertion.2) store).WithoutMetadata
      ual := by
  induction insertions generalizing store with
  | nil => exact hnew
  | cons insertion insertions ih =>
    obtain ⟨hne, hcount, hblank, writer, before, horder⟩ := hothers insertion List.mem_cons_self
    refine ih (hnew.insertAll hne hcount hblank horder) ?_
    intro other hother
    exact hothers other (List.mem_cons_of_mem insertion hother)

section Read

variable {service : TripleStoreService} {store dkg : NamedGraphs} {writer : CollectionWriter}
  {data : LocalGetData}

/-- What is read for one asset. -/
theorem mem_getKnowledgeAssetMetadata (hlines : service.WritesLines)
    (hdkg : ∀ nquad, nquad ∈ dkg metadataGraph ↔
      nquad ∈ store metadataGraph ∨ nquad ∈ writer.metadata service data.ual)
    (hnew : store.WithoutMetadata data.ual) (id : ℕ) :
    ∃ lines, service.getKnowledgeAssetMetadata dkg (assetUAL data.ual id) = .ok lines ∧
      ∀ nquad, nquad ∈ lines ↔ nquad ≠ "" ∧ nquad ∈ writer.metadata service data.ual ∧
        subject nquad = "<" ++ assetUAL data.ual id ++ ">" := by
  refine ⟨_, if_neg (LocalGet.noBlank_asset data id), ?_⟩
  intro nquad
  rw [List.mem_filter, decide_eq_true_eq, and_comm]
  refine and_congr_right ?_
  intro hne
  rw [hlines _ _ hne, Finset.mem_filter, hdkg, or_and_right, or_iff_right]
  rintro ⟨hstore, hsubject⟩
  refine hnew nquad hstore ?_
  rw [hsubject]
  exact prefix_assetUAL data.ual id

/-- What is read for the collection. -/
theorem mem_getKnowledgeCollectionMetadata (hlines : service.WritesLines)
    (hdkg : ∀ nquad, nquad ∈ dkg metadataGraph ↔
      nquad ∈ store metadataGraph ∨ nquad ∈ writer.metadata service data.ual)
    (hnew : store.WithoutMetadata data.ual) (nquad : String) :
    nquad ∈ service.getKnowledgeCollectionMetadata dkg data.ual ↔
      nquad ≠ "" ∧ nquad ∈ writer.metadata service data.ual ∧
        ("<" ++ data.ual ++ "/").toList <+: (subject nquad).toList := by
  rw [getKnowledgeCollectionMetadata, List.mem_filter, decide_eq_true_eq, and_comm]
  refine and_congr_right ?_
  intro hne
  rw [hlines _ _ hne, Finset.mem_filter, hdkg, or_and_right, or_iff_right]
  rintro ⟨hstore, hprefix⟩
  exact hnew nquad hstore hprefix

theorem metadataTriple_ne_empty (ual : String) : metadataTriple ual ≠ "" := by
  intro hempty
  have hlist := String.toList_inj.mpr hempty
  simp [metadataTriple, String.toList_append] at hlist

/-- The states of the assets are those that are read for the collection, and each of them for its
    asset. -/
theorem mem_metadata_insertKnowledgeCollection {triples : CollectionTriples} {nquad : String} :
    nquad ∈ (CollectionWriter.insertKnowledgeCollection triples).metadata service data.ual ↔
      ∃ index < (service.publicGroups triples.publicTriples).length,
        nquad = metadataTriple (assetUAL data.ual (index + 1)) := by
  simp only [CollectionWriter.metadata, assetUALs, List.map_map, List.mem_map, List.mem_range,
    Function.comp_apply, eq_comm]

/-- The state of the collection is read neither for the collection nor for an asset. -/
theorem not_prefix_subject_ual (data : LocalGetData) :
    ¬ ("<" ++ data.ual ++ "/").toList <+: (subject (metadataTriple data.ual)).toList := by
  have hblank : ' ' ∉ data.ual.toList := data.noBlank
  rw [subject_metadataTriple hblank]
  exact not_prefix_ual data.ual

/-- The metadata that is read for a request is what was inserted for it exactly where the states are
    those of the assets. -/
theorem readsRequested_iff (hlines : service.WritesLines)
    (hdkg : ∀ nquad, nquad ∈ dkg metadataGraph ↔
      nquad ∈ store metadataGraph ∨ nquad ∈ writer.metadata service data.ual)
    (hnew : store.WithoutMetadata data.ual)
    (hrequest : ∀ id ∈ data.knowledgeAssetId, 1 ≤ id ∧ id ≤ writer.assets service) :
    (∃ lines, service.getAssertionMetadata dkg data.blockchain data.contract
        data.knowledgeCollectionId data.assetId = .ok lines ∧ ∀ nquad, nquad ∈ lines ↔
          nquad ∈ writer.requested service data.ual data.knowledgeAssetId) ↔
      ∃ triples, writer = .insertKnowledgeCollection triples := by
  cases hasset : data.knowledgeAssetId with
  | none =>
    have hasked : service.getAssertionMetadata dkg data.blockchain data.contract
        data.knowledgeCollectionId data.assetId =
          .ok (service.getKnowledgeCollectionMetadata dkg data.ual) := by
      rw [LocalGetData.assetId, hasset]
      rfl
    simp only [hasked, Except.ok.injEq, exists_eq_left',
      mem_getKnowledgeCollectionMetadata hlines hdkg hnew]
    cases writer with
    | insertKnowledgeCollection triples =>
      refine iff_of_true (fun nquad => ?_) ⟨triples, rfl⟩
      have hrequested : (CollectionWriter.insertKnowledgeCollection triples).requested service
          data.ual none = (CollectionWriter.insertKnowledgeCollection triples).metadata service
            data.ual := rfl
      rw [hrequested]
      constructor
      · rintro ⟨-, hmem, -⟩
        exact hmem
      · intro hmem
        obtain ⟨index, -, rfl⟩ := mem_metadata_insertKnowledgeCollection.mp hmem
        refine ⟨metadataTriple_ne_empty _, hmem, ?_⟩
        rw [subject_metadataTriple (LocalGet.noBlank_asset data _)]
        exact prefix_assetUAL data.ual _
    | createV6KnowledgeCollection triplesPublic triplesPrivate =>
      refine iff_of_false (fun hread => ?_) (by rintro ⟨triples, ⟨⟩⟩)
      have hsubject := ((hread (metadataTriple data.ual)).mpr List.mem_cons_self).2.2
      exact not_prefix_subject_ual data hsubject
  | some id =>
    obtain ⟨hpos, hle⟩ := hrequest id hasset
    obtain ⟨lines, hasked, hmem⟩ := mem_getKnowledgeAssetMetadata hlines hdkg hnew id
    have hasked : service.getAssertionMetadata dkg data.blockchain data.contract
        data.knowledgeCollectionId data.assetId = .ok lines := by
      rw [LocalGetData.assetId, hasset, getAssertionMetadata, if_pos]
      · exact hasked
      · simpa [KnowledgeAssetId.truthy] using Nat.one_le_iff_ne_zero.mp hpos
    simp only [hasked, Except.ok.injEq, exists_eq_left', hmem]
    cases writer with
    | insertKnowledgeCollection triples =>
      refine iff_of_true (fun nquad => ?_) ⟨triples, rfl⟩
      rw [CollectionWriter.requested, List.mem_singleton, mem_metadata_insertKnowledgeCollection]
      constructor
      · rintro ⟨-, ⟨index, -, rfl⟩, hsubject⟩
        rw [subject_metadataTriple (LocalGet.noBlank_asset data _)] at hsubject
        have hual := String.toList_inj.mpr hsubject
        simp only [String.toList_append, List.append_left_inj, List.append_right_inj,
          String.toList_inj] at hual
        rw [hual]
      · rintro rfl
        refine ⟨metadataTriple_ne_empty _, ⟨id - 1, ?_, ?_⟩,
          subject_metadataTriple (LocalGet.noBlank_asset data id)⟩
        · exact lt_of_lt_of_le (Nat.sub_lt hpos Nat.one_pos) hle
        · rw [Nat.sub_add_cancel hpos]
    | createV6KnowledgeCollection triplesPublic triplesPrivate =>
      refine iff_of_false (fun hread => ?_) (by rintro ⟨triples, ⟨⟩⟩)
      have hsubject := ((hread (metadataTriple data.ual)).mpr List.mem_cons_self).2.2
      refine not_prefix_subject_ual data ?_
      rw [hsubject]
      exact prefix_assetUAL data.ual id

end Read

namespace LocalGet

section

variable {service : TripleStoreService} {context : LocalGetContext} {data : LocalGetData}

/-- The end of the command where the metadata can be read. -/
theorem finish_eq {result : GetResult} {migrated : Bool} {id : KnowledgeAssetId}
    {metadata : Option (List String)}
    (hmetadata : metadataOf service data context.dkg id = .ok metadata) :
    finish service context data result migrated id =
      .ok (if result.hasLength then .completed (responseData data result migrated metadata)
        else .continued) := by
  rw [finish, hmetadata]
  rfl

theorem finish_eq_completed {result : GetResult} {migrated : Bool} {id : KnowledgeAssetId}
    {response : GetResponse}
    (hfinish : finish service context data result migrated id = .ok (.completed response)) :
    result.hasLength = true ∧ metadataOf service data context.dkg id = .ok response.metadata := by
  cases hmetadata : metadataOf service data context.dkg id with
  | error message =>
    rw [finish, hmetadata] at hfinish
    cases hfinish
  | ok metadata =>
    rw [finish_eq hmetadata] at hfinish
    split_ifs at hfinish with hlength
    · obtain rfl := LocalGetOutcome.completed.inj (Except.ok.inj hfinish)
      exact ⟨hlength, rfl⟩
    · cases hfinish

/-- Metadata that was read was asked for. -/
theorem getAssertionMetadata_of_metadataOf {store : NamedGraphs} {id : KnowledgeAssetId}
    {lines : List String} (hincluded : data.includeMetadata = true)
    (hmetadata : metadataOf service data store id = .ok (some lines)) :
    service.getAssertionMetadata store data.blockchain data.contract data.knowledgeCollectionId id =
      .ok lines := by
  rw [metadataOf, if_pos hincluded] at hmetadata
  cases hasked : service.getAssertionMetadata store data.blockchain data.contract
      data.knowledgeCollectionId id with
  | error message =>
    rw [hasked] at hmetadata
    cases hmetadata
  | ok asked =>
    rw [hasked] at hmetadata
    rw [Option.some.inj (Except.ok.inj hmetadata)]

/-- A range has no metadata that could be read. -/
theorem finish_range (hincluded : data.includeMetadata = true) (result : GetResult)
    (migrated : Bool) (tokenIds : TokenIds) :
    finish service context data result migrated (.range tokenIds) = .error "Parse error" := by
  rw [finish, metadataOf_range, if_pos hincluded]
  rfl

/-- The command for a paranet has no metadata that could be read. -/
theorem executeParanet_ne_completed (hincluded : data.includeMetadata = true)
    {paranetUAL : String} {response : GetResponse} :
    executeParanet service context data paranetUAL ≠ .ok (.completed response) := by
  intro hcompleted
  have hserves : CompletesWith (executeParanet service context data paranetUAL)
      (response.assertion.Has ·) := ⟨response, hcompleted, fun _ => Iff.rfl⟩
  obtain ⟨repository, tokenIds, -, -, hnone, -⟩ := completesWith_executeParanet_iff.mp hserves
  rw [hincluded] at hnone
  cases hnone

/-- An asset asked for by number is not read from the repository of the current version. -/
theorem dkgAssertion_number (hlines : service.WritesLines) (id : ℕ) :
    ∃ result, dkgAssertion service context data (.number id) = .ok result ∧
      result.hasLength = false := by
  refine ⟨_, rfl, ?_⟩
  have hnil : service.linesOf context.dkg [] = [] := linesOf_eq_nil hlines nofun
  cases data.contentType <;> simp [GetResult.hasLength, hnil, TriplesVisibility.asksPublic,
    TriplesVisibility.asksPrivate]

/-- A get of the version before, of an asset that version does not have. -/
theorem assertionById_of_nil {assertionId : String} (hV0 : data.isOperationV0 = true)
    (hv6 : v6Assertion service context assertionId = []) :
    assertionById service context data assertionId =
      (dkgAssertion service context data data.assetId).map fun result => (result, true) := by
  simp only [assertionById, hV0, hv6]
  simp only [if_true, isText, bind, Except.bind, pure, Except.pure]
  cases dkgAssertion service context data data.assetId <;> rfl

/-- The version before has the assertion, and one asset or a get of that version is asked for. -/
def Available (service : TripleStoreService) (context : LocalGetContext) (data : LocalGetData)
    (assertionId : String) : Prop :=
  v6Assertion service context assertionId ≠ [] ∧
    (data.knowledgeAssetId ≠ none ∨ data.isOperationV0 = true)

theorem assertionById_of_available {assertionId : String}
    (h : Available service context data assertionId) :
    ∃ migrated, assertionById service context data assertionId =
      .ok (.text (v6Assertion service context assertionId), migrated) := by
  obtain ⟨hv6, hrequest⟩ := h
  cases hV0 : data.isOperationV0 with
  | true =>
    refine ⟨true, ?_⟩
    simp [assertionById, hV0, isText, hv6, bind, Except.bind, pure, Except.pure]
  | false =>
    have hne : data.knowledgeAssetId ≠ none := hrequest.resolve_right (by simp [hV0])
    obtain ⟨id, hasset⟩ := Option.ne_none_iff_exists'.mp hne
    exact ⟨_, assertionById_asset hV0 hasset⟩

/-- Otherwise there is nothing to return. -/
theorem hasLength_assertionById (hlines : service.WritesLines) {assertionId : String}
    (h : ¬ Available service context data assertionId) {result : GetResult} {migrated : Bool}
    (hresult : assertionById service context data assertionId = .ok (result, migrated)) :
    result.hasLength = false := by
  cases hV0 : data.isOperationV0 with
  | false =>
    cases hasset : data.knowledgeAssetId with
    | none =>
      rw [assertionById_collection hV0 hasset] at hresult
      cases hresult
    | some id =>
      have hv6 : v6Assertion service context assertionId = [] := by
        by_contra hne
        exact h ⟨hne, .inl (by simp [hasset])⟩
      rw [assertionById_asset hV0 hasset, hv6] at hresult
      obtain ⟨rfl, -⟩ := Prod.mk.inj (Except.ok.inj hresult)
      rfl
  | true =>
    have hv6 : v6Assertion service context assertionId = [] := by
      by_contra hne
      exact h ⟨hne, .inr hV0⟩
    rw [assertionById_of_nil hV0 hv6, LocalGetData.assetId] at hresult
    cases hasset : data.knowledgeAssetId with
    | none =>
      rw [hasset] at hresult
      cases hresult
    | some id =>
      obtain ⟨found, hfound, hlength⟩ :=
        @dkgAssertion_number service context data hlines id
      rw [hasset, hfound] at hresult
      obtain ⟨rfl, -⟩ := Prod.mk.inj (Except.ok.inj hresult)
      exact hlength

/-- The metadata that the response is completed with, if it is. -/
def CompletesWithMetadata (outcome : Except String LocalGetOutcome) (triples : List String) :
    Prop :=
  ∃ response lines, outcome = .ok (.completed response) ∧ response.metadata = some lines ∧
    ∀ nquad, nquad ∈ lines ↔ nquad ∈ triples

/-- When a get with metadata completes, and with what metadata. -/
theorem completesWithMetadata_iff (hlines : service.WritesLines)
    (hincluded : data.includeMetadata = true) {triples : List String} :
    CompletesWithMetadata (execute service context data) triples ↔
      data.paranetRead = none ∧ (∃ assertionId, data.assertion = some assertionId ∧
        Available service context data assertionId) ∧
        ∃ lines, service.getAssertionMetadata context.dkg data.blockchain data.contract
          data.knowledgeCollectionId data.assetId = .ok lines ∧
            ∀ nquad, nquad ∈ lines ↔ nquad ∈ triples := by
  constructor
  · rintro ⟨response, lines, hcompleted, hmetadata, htriples⟩
    cases hread : data.paranetRead with
    | some paranetUAL =>
      rw [execute, hread] at hcompleted
      exact absurd hcompleted (executeParanet_ne_completed hincluded)
    | none =>
      cases hassertion : data.assertion with
      | none =>
        obtain ⟨result, hresult⟩ : ∃ result, dkgAssertion service context data
            (.range (assetRange context data)) = .ok result := ⟨_, rfl⟩
        simp only [execute, hread, hassertion, hresult, bind, Except.bind,
          finish_range hincluded] at hcompleted
        cases hcompleted
      | some assertionId =>
        simp only [execute, hread, hassertion, bind, Except.bind] at hcompleted
        cases hresult : assertionById service context data assertionId with
        | error message =>
          rw [hresult] at hcompleted
          cases hcompleted
        | ok found =>
          obtain ⟨result, migrated⟩ := found
          rw [hresult] at hcompleted
          obtain ⟨hlength, hread'⟩ := finish_eq_completed hcompleted
          rw [hmetadata] at hread'
          refine ⟨rfl, ⟨assertionId, rfl, ?_⟩, lines,
            getAssertionMetadata_of_metadataOf hincluded hread', htriples⟩
          by_contra hnot
          rw [hasLength_assertionById hlines hnot hresult] at hlength
          cases hlength
  · rintro ⟨hread, ⟨assertionId, hassertion, havailable⟩, lines, hasked, htriples⟩
    obtain ⟨migrated, hresult⟩ := assertionById_of_available havailable
    have hmetadata : metadataOf service data context.dkg data.assetId = .ok (some lines) := by
      rw [metadataOf, if_pos hincluded, hasked]
      rfl
    refine ⟨responseData data (.text (v6Assertion service context assertionId)) migrated
      (some lines), lines, ?_, rfl, htriples⟩
    simp only [execute, hread, hassertion, hresult, bind, Except.bind, finish_eq hmetadata]
    rw [if_pos (by simpa [GetResult.hasLength] using havailable.1)]

end

/-- CODE BUG (metadata): a local get with metadata returns the states that were inserted for what is
    asked for if and only if they were inserted by `insertKnowledgeCollection`, no paranet is read,
    and there is an assertion id under which the version before has an assertion, for one asset or
    for a get of that version. What else is in the repository is of other collections. -/
theorem completesWithMetadata_requested_iff (service : TripleStoreService)
    (hlines : service.WritesLines) (before store : NamedGraphs) (writer : CollectionWriter)
    (context : LocalGetContext) (data : LocalGetData) (queries : List InsertData)
    (horder : queries.Perm (writer.queries service before data.ual))
    (hdkg : context.dkg = store.insertAll queries) (hnew : store.WithoutMetadata data.ual)
    (hincluded : data.includeMetadata = true)
    (hrequest : ∀ id ∈ data.knowledgeAssetId, 1 ≤ id ∧ id ≤ writer.assets service) :
    CompletesWithMetadata (execute service context data)
        (writer.requested service data.ual data.knowledgeAssetId) ↔
      (∃ triples, writer = .insertKnowledgeCollection triples) ∧ data.paranetRead = none ∧
        ∃ assertionId, data.assertion = some assertionId ∧
          v6Assertion service context assertionId ≠ [] ∧
            (data.knowledgeAssetId ≠ none ∨ data.isOperationV0 = true) := by
  have hmem : ∀ nquad, nquad ∈ context.dkg metadataGraph ↔
      nquad ∈ store metadataGraph ∨ nquad ∈ writer.metadata service data.ual := by
    intro nquad
    rw [hdkg, mem_metadataGraph horder]
  have hread : (∃ lines, service.getAssertionMetadata context.dkg data.blockchain data.contract
      data.knowledgeCollectionId data.assetId = .ok lines ∧ ∀ nquad, nquad ∈ lines ↔
        nquad ∈ writer.requested service data.ual data.knowledgeAssetId) ↔
          ∃ triples, writer = .insertKnowledgeCollection triples := by
    exact readsRequested_iff hlines hmem hnew hrequest
  rw [completesWithMetadata_iff hlines hincluded, hread]
  constructor
  · rintro ⟨hparanet, havailable, hwriter⟩
    exact ⟨hwriter, hparanet, havailable⟩
  · rintro ⟨hwriter, hparanet, havailable⟩
    exact ⟨hparanet, havailable, hwriter⟩

/-- A get of the second asset, or of the collection, with its metadata. -/
def secondAssetMetadataGet (knowledgeAssetId : Option ℕ) : LocalGetData :=
  { secondAssetGet knowledgeAssetId with includeMetadata := true }

theorem completesWithMetadata_secondAsset :
    let data := secondAssetMetadataGet (some 2)
    let writer := CollectionWriter.insertKnowledgeCollection twoAssets
    CompletesWithMetadata (execute sortingService migratedContext data)
        (writer.requested sortingService data.ual data.knowledgeAssetId) ↔
      (∃ triples, writer = .insertKnowledgeCollection triples) ∧ data.paranetRead = none ∧
        ∃ assertionId, data.assertion = some assertionId ∧
          v6Assertion sortingService migratedContext assertionId ≠ [] ∧
            (data.knowledgeAssetId ≠ none ∨ data.isOperationV0 = true) :=
  completesWithMetadata_requested_iff sortingService writesLines_sortingService (fun _ => ∅)
    (fun _ => ∅) (.insertKnowledgeCollection twoAssets) migratedContext
    (secondAssetMetadataGet (some 2)) twoAssetQueries (List.Perm.refl _) rfl
    (fun _ hnquad => absurd hnquad (Finset.notMem_empty _)) rfl (by decide)

/-- COUNTEREXAMPLE: the collection is in the repository, and a get of it without an assertion id
    throws before its metadata is read. -/
theorem not_completesWithMetadata_collection :
    let data := { secondAssetMetadataGet none with assertionId := none }
    execute sortingService migratedContext data = .error "Parse error" ∧
      ¬ CompletesWithMetadata (execute sortingService migratedContext data)
        ((CollectionWriter.insertKnowledgeCollection twoAssets).requested sortingService data.ual
          data.knowledgeAssetId) := by
  intro data
  have hthrows : execute sortingService migratedContext data = .error "Parse error" := by
    obtain ⟨result, hresult⟩ : ∃ result, dkgAssertion sortingService migratedContext data
        (.range (assetRange migratedContext data)) = .ok result := ⟨_, rfl⟩
    have hread : data.paranetRead = none := rfl
    have hassertion : data.assertion = none := rfl
    simp only [execute, hread, hassertion, hresult, bind, Except.bind]
    exact finish_range rfl result true _
  refine ⟨hthrows, ?_⟩
  intro hcompletes
  obtain ⟨response, lines, hcompleted, -⟩ := hcompletes
  rw [hthrows] at hcompleted
  cases hcompleted

end LocalGet

end OtNode
