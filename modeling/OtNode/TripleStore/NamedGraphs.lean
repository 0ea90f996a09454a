import Mathlib.Data.Finset.Sort
import Mathlib.Data.Finset.Union
import Mathlib.Data.List.Nodup
import Mathlib.Data.String.Basic

/-! Knowledge collections in the named graphs of the triple store.

    Each asset of a collection has its own graphs, named by its token id and a visibility. What is
    inserted is grouped by subject, the subjects of private hashes last, and the ids count the
    groups; what is read is the graphs of a range of ids less the burned ones. -/

namespace OtNode

/-- What a repository holds: the triples of each named graph. -/
abbrev NamedGraphs := String → Finset String

/-- An `INSERT DATA` query, of triples into a graph. -/
structure InsertData where
  graph : String
  nquads : List String
  deriving DecidableEq

namespace NamedGraphs

variable (store : NamedGraphs)

/-- The query is executed. -/
def insertData (query : InsertData) : NamedGraphs :=
  Function.update store query.graph (store query.graph ∪ query.nquads.toFinset)

/-- The queries are executed. -/
def insertAll (queries : List InsertData) : NamedGraphs := queries.foldl insertData store

end NamedGraphs

/-- `TRIPLES_VISIBILITY`. -/
inductive TriplesVisibility where | ofPublic | ofPrivate | all
  deriving DecidableEq

namespace TriplesVisibility

/-- The value of the constant, which ends the name of a graph. -/
def value : TriplesVisibility → String
  | ofPublic => "public"
  | ofPrivate => "private"
  | all => "all"

/-- The public graphs are asked for. -/
def asksPublic (visibility : TriplesVisibility) : Bool := visibility = ofPublic || visibility = all

/-- The private graphs are asked for. -/
def asksPrivate (visibility : TriplesVisibility) : Bool :=
  visibility = ofPrivate || visibility = all

end TriplesVisibility

/-- The UAL of an asset. -/
def assetUAL (ual : String) (id : ℕ) : String := ual ++ "/" ++ toString id

/-- The name of a graph of an asset. -/
def graphName (assetUAL : String) (visibility : TriplesVisibility) : String :=
  assetUAL ++ "/" ++ visibility.value

/-- `BASE_NAMED_GRAPHS.METADATA`. -/
def metadataGraph : String := "metadata:graph"

namespace NamedGraphs

variable (store : NamedGraphs)

/-- `knowledgeCollectionNamedGraphsExist`. -/
def knowledgeCollectionNamedGraphsExist (ual : String) : Bool :=
  decide (store (graphName (assetUAL ual 1) .ofPublic) ≠ ∅)

/-- The solutions of a `CONSTRUCT` over the graphs. -/
def triplesOf (namedGraphs : List String) : Finset String := namedGraphs.toFinset.biUnion store

/-- The store has no graph of the collection. -/
def Without (ual : String) : Prop :=
  ∀ id visibility, store (graphName (assetUAL ual id) visibility) = ∅

end NamedGraphs

/-- `createKnowledgeCollectionNamedGraphs`: its queries. -/
def createKnowledgeCollectionNamedGraphs (uals : List String) (assetsNQuads : List (List String))
    (visibility : TriplesVisibility) : List InsertData :=
  (uals.zip assetsNQuads).map fun asset => ⟨graphName asset.1 visibility, asset.2⟩

/-- `insertKnowledgeCollectionMetadata`: its query. -/
def insertKnowledgeCollectionMetadata (metadataNQuads : List String) : InsertData :=
  ⟨metadataGraph, metadataNQuads⟩

/-- `nquad.split(' ')[0]`. -/
def subject (nquad : String) : String := String.ofList (nquad.toList.takeWhile (· ≠ ' '))

/-- `<` and `PRIVATE_HASH_SUBJECT_PREFIX`. -/
def privateHashPrefix : String := "<https://ontology.origintrail.io/dkg/1.0#metadata-hash:"

/-- The triple is about the hash of a private subject. -/
def isPrivateHash (nquad : String) : Bool :=
  privateHashPrefix.toList.isPrefixOf nquad.toList

/-- The triples of a collection. -/
structure CollectionTriples where
  publicTriples : List String
  privateTriples : List String := []

/-- The range of token ids of a collection. -/
structure TokenIds where
  startTokenId : ℕ
  endTokenId : ℕ
  burned : List ℕ

/-- What is read of a collection: for each visibility that was asked for, its triples. -/
structure Assertion where
  publicTriples : Option (List String)
  privateTriples : Option (List String)
  deriving DecidableEq

/-- What the service uses: the grouping of the assertion tools, `CryptoService.sha256`, and how the
    store writes triples into a text, given here by its lines. -/
structure TripleStoreService where
  groupNquadsBySubject : List String → List (List String)
  sha256 : String → String
  nquadLines : Finset String → List String

namespace TripleStoreService

variable (service : TripleStoreService)

/-- `publicKnowledgeAssetsTriplesGrouped`. -/
def publicGroups (publicAssertion : List String) : List (List String) :=
  service.groupNquadsBySubject (publicAssertion.filter fun nquad => !isPrivateHash nquad) ++
    service.groupNquadsBySubject (publicAssertion.filter isPrivateHash)

/-- The subject of a group: that of its first triple. -/
def groupSubject (group : List String) : String := subject (group.headD "")

/-- `publicSubjectMap.get`: a later group overwrites an earlier one. -/
def publicSubjectMap (groups : List (List String)) (name : String) : Option ℕ :=
  (groups.zipIdx.reverse.find? fun group => groupSubject group.1 == name).map Prod.snd

/-- The subject of a private group, hashed. `slice(1, -1)` takes off the angle brackets, each of which
    is one character. -/
def hashedSubject (name : String) : String :=
  privateHashPrefix ++ service.sha256 (String.ofList (name.toList.drop 1).dropLast) ++ ">"

/-- The UALs of the assets in order. -/
def assetUALs (ual : String) (groups : List (List String)) : List String :=
  (List.range groups.length).map fun index => assetUAL ual (index + 1)

/-- The UALs of the private groups that have one. -/
def privateUALs (ual : String) (publicGroups privateGroups : List (List String)) : List String :=
  privateGroups.filterMap fun group =>
    ((publicSubjectMap publicGroups (groupSubject group)).or
      (publicSubjectMap publicGroups (service.hashedSubject (groupSubject group)))).map
        fun index => assetUAL ual (index + 1)

/-- The state of an asset. -/
def metadataTriple (ual : String) : String :=
  "<" ++ ual ++ "> <http://schema.org/states> \"" ++ ual ++ ":0\" ."

/-- `insertKnowledgeCollection`: the queries that are sent, side by side. -/
def insertKnowledgeCollection (store : NamedGraphs) (knowledgeCollectionUAL : String)
    (triples : CollectionTriples) : List InsertData :=
  let groups := service.publicGroups triples.publicTriples
  let uals := assetUALs knowledgeCollectionUAL groups
  (if store.knowledgeCollectionNamedGraphsExist knowledgeCollectionUAL then []
    else
      createKnowledgeCollectionNamedGraphs uals groups .ofPublic ++
      if triples.privateTriples = [] then []
      else
        let privateGroups := service.groupNquadsBySubject triples.privateTriples
        createKnowledgeCollectionNamedGraphs
          (service.privateUALs knowledgeCollectionUAL groups privateGroups) privateGroups
          .ofPrivate) ++
    [insertKnowledgeCollectionMetadata (uals.map metadataTriple)]

/-- The ids of the range that are not burned. -/
def TokenIds.ids (tokenIds : TokenIds) : List ℕ :=
  ((List.range (tokenIds.endTokenId + 1 - tokenIds.startTokenId)).map
    (tokenIds.startTokenId + ·)).filter fun id => !tokenIds.burned.contains id

/-- The text that a `CONSTRUCT` over the graphs of the assets answers with, by its lines. -/
def construct (store : NamedGraphs) (ual : String) (tokenIds : TokenIds)
    (visibility : TriplesVisibility) : List String :=
  service.nquadLines (store.triplesOf ((TokenIds.ids tokenIds).map fun id =>
    graphName (assetUAL ual id) visibility))

/-- `getAssertion`, of a range of ids: `getKnowledgeCollectionNamedGraphs` and the split of its
    texts into lines. The empty text is left, and has no lines either. -/
def getAssertion (store : NamedGraphs) (blockchain contract : String)
    (knowledgeCollectionId : ℕ) (tokenIds : TokenIds)
    (visibility : TriplesVisibility := .ofPublic) : Assertion :=
  let ual := "did:dkg:" ++ blockchain ++ "/" ++ contract ++ "/" ++ toString knowledgeCollectionId
  { publicTriples := if visibility.asksPublic then
      some ((service.construct store ual tokenIds .ofPublic).filter (· ≠ "")) else none
    privateTriples := if visibility.asksPrivate then
      some ((service.construct store ual tokenIds .ofPrivate).filter (· ≠ "")) else none }

/-- The lines of a text that are not empty are its triples. -/
def WritesLines : Prop :=
  ∀ triples line, line ≠ "" → (line ∈ service.nquadLines triples ↔ line ∈ triples)

end TripleStoreService

/-! ### Subjects -/

theorem noBlank_subject (nquad : String) : ' ' ∉ (subject nquad).toList := by
  rw [subject, String.toList_ofList]
  intro hmem
  have hne := List.all_eq_true.mp List.all_takeWhile ' ' hmem
  exact absurd rfl (of_decide_eq_true hne)

theorem subject_append {name : String} (h : ' ' ∉ name.toList) (rest : String) :
    subject (name ++ " " ++ rest) = name := by
  have hname : ∀ c ∈ name.toList, decide (c ≠ ' ') = true := by
    rintro c hc
    exact decide_eq_true fun heq => h (heq ▸ hc)
  rw [subject, String.toList_append, String.toList_append, List.append_assoc,
    List.takeWhile_append_of_pos hname]
  exact (congrArg String.ofList (List.append_nil _)).trans (String.ofList_toList)

/-! ### Groups -/

/-- The groups are the triples by subject. -/
structure GroupedBySubject (nquads : List String) (groups : List (List String)) : Prop where
  mem : ∀ nquad, (∃ group ∈ groups, nquad ∈ group) ↔ nquad ∈ nquads
  ne_nil : [] ∉ groups
  same : ∀ group ∈ groups, ∀ nquad ∈ group, ∀ nquad' ∈ group, subject nquad = subject nquad'
  distinct : groups.Pairwise fun group group' =>
    ∀ nquad ∈ group, ∀ nquad' ∈ group', subject nquad ≠ subject nquad'

namespace GroupedBySubject

variable {nquads nquads' : List String} {groups groups' : List (List String)}

/-- Groups of triples with other subjects can be added. -/
theorem append (h : GroupedBySubject nquads groups) (h' : GroupedBySubject nquads' groups')
    (hsubjects : ∀ nquad ∈ nquads, ∀ nquad' ∈ nquads', subject nquad ≠ subject nquad') :
    GroupedBySubject (nquads ++ nquads') (groups ++ groups') where
  mem nquad := by
    rw [List.mem_append, ← h.mem, ← h'.mem]
    simp only [List.mem_append, or_and_right, exists_or]
  ne_nil := by
    rw [List.mem_append]
    exact not_or.mpr ⟨h.ne_nil, h'.ne_nil⟩
  same group hgroup := by
    rcases List.mem_append.mp hgroup with hgroup | hgroup
    · exact h.same group hgroup
    · exact h'.same group hgroup
  distinct := by
    refine List.pairwise_append.mpr ⟨h.distinct, h'.distinct, ?_⟩
    intro group hgroup group' hgroup' nquad hnquad nquad' hnquad'
    exact hsubjects nquad ((h.mem nquad).mp ⟨group, hgroup, hnquad⟩) nquad'
      ((h'.mem nquad').mp ⟨group', hgroup', hnquad'⟩)

theorem groupSubject_eq (h : GroupedBySubject nquads groups) {group : List String}
    {nquad : String} (hgroup : group ∈ groups) (hnquad : nquad ∈ group) :
    TripleStoreService.groupSubject group = subject nquad := by
  cases group with
  | nil => exact absurd hgroup h.ne_nil
  | cons first rest => exact h.same _ hgroup first List.mem_cons_self nquad hnquad

/-- A group has a triple of its subject. -/
theorem exists_mem (h : GroupedBySubject nquads groups) {group : List String}
    (hgroup : group ∈ groups) :
    ∃ nquad ∈ group, subject nquad = TripleStoreService.groupSubject group := by
  cases group with
  | nil => exact absurd hgroup h.ne_nil
  | cons first rest => exact ⟨first, List.mem_cons_self, rfl⟩

/-- No two groups have the same subject. -/
theorem nodup_subjects (h : GroupedBySubject nquads groups) :
    (groups.map TripleStoreService.groupSubject).Nodup := by
  refine List.pairwise_map.mpr (h.distinct.imp_of_mem ?_)
  intro group group' hgroup hgroup' hdistinct
  obtain ⟨nquad, hnquad, hsubject⟩ := h.exists_mem hgroup
  obtain ⟨nquad', hnquad', hsubject'⟩ := h.exists_mem hgroup'
  rw [← hsubject, ← hsubject']
  exact hdistinct nquad hnquad nquad' hnquad'

/-- A group is the triples of its subject. -/
theorem mem_group_iff (h : GroupedBySubject nquads groups) {group : List String} {nquad : String}
    (hgroup : group ∈ groups) :
    nquad ∈ group ↔
      nquad ∈ nquads ∧ subject nquad = TripleStoreService.groupSubject group := by
  constructor
  · intro hnquad
    exact ⟨(h.mem nquad).mp ⟨group, hgroup, hnquad⟩, (h.groupSubject_eq hgroup hnquad).symm⟩
  · rintro ⟨hnquad, hsubject⟩
    obtain ⟨group', hgroup', hmem⟩ := (h.mem nquad).mpr hnquad
    rw [← h.groupSubject_eq hgroup' hmem] at hsubject
    obtain rfl := List.inj_on_of_nodup_map h.nodup_subjects hgroup' hgroup hsubject
    exact hmem

end GroupedBySubject

/-! ### Names of graphs -/

section Names

variable {ual ual' : String} {id id' : ℕ}

theorem assetUAL_injective (h : assetUAL ual id = assetUAL ual id') : id = id' := by
  have hdigits : Nat.toDigits 10 id = Nat.toDigits 10 id' := by
    have hlist := String.toList_inj.mpr h
    simpa [assetUAL, String.toList_append] using hlist
  rw [← Nat.ofDigitChars_ten_toDigits (n := id), hdigits, Nat.ofDigitChars_ten_toDigits]

theorem graphName_injective {visibility : TriplesVisibility}
    (h : graphName ual visibility = graphName ual' visibility) : ual = ual' := by
  have hlist := String.toList_inj.mpr h
  simp only [graphName, String.toList_append, List.append_left_inj] at hlist
  exact String.toList_inj.mp hlist

/-- The last letter tells the graphs of different kinds apart. -/
theorem getLast?_append_ne {s t u v : String} (h : t.toList.getLast? ≠ v.toList.getLast?)
    (ht : t.toList ≠ []) (hv : v.toList ≠ []) : s ++ t ≠ u ++ v := by
  intro heq
  have hlast := congrArg (fun w : String => w.toList.getLast?) heq
  simp only [String.toList_append, List.getLast?_append_of_ne_nil _ ht,
    List.getLast?_append_of_ne_nil _ hv] at hlast
  exact h hlast

/-- The last letter of a number is a digit. -/
theorem exists_digit_getLast? (id : ℕ) :
    ∃ digit : Char, (toString id).toList.getLast? = some digit ∧ digit.isDigit = true := by
  obtain ⟨digit, hdigit⟩ : ∃ digit, (toString id).toList.getLast? = some digit :=
    Option.isSome_iff_exists.mp (by simp [Nat.toDigits_ne_nil])
  have hmem := List.mem_of_getLast? hdigit
  rw [Nat.toString_eq_repr, Nat.toList_repr] at hmem
  exact ⟨digit, hdigit, Nat.isDigit_of_mem_toDigits (by decide) (by decide) hmem⟩

theorem notMem_toString {c : Char} (h : c.isDigit = false) (id : ℕ) : c ∉ (toString id).toList := by
  intro hmem
  rw [Nat.toString_eq_repr, Nat.toList_repr] at hmem
  rw [Nat.isDigit_of_mem_toDigits (by decide) (by decide) hmem] at h
  cases h

/-- The name of an asset has no blank where that of the collection has none. -/
theorem noBlank_assetUAL {ual : String} (h : ' ' ∉ ual.toList) (id : ℕ) :
    ' ' ∉ (assetUAL ual id).toList := by
  simp only [assetUAL, String.toList_append, List.mem_append, not_or]
  exact ⟨⟨h, by decide⟩, notMem_toString rfl id⟩

/-- No number ends like a visibility. -/
theorem getLast?_toString_ne (id : ℕ) (visibility : TriplesVisibility) :
    (toString id).toList.getLast? ≠ visibility.value.toList.getLast? := by
  obtain ⟨digit, hdigit, hisDigit⟩ := exists_digit_getLast? id
  rw [hdigit]
  intro hlast
  cases visibility <;>
  · have hletter := Option.some.inj hlast
    rw [hletter] at hisDigit
    exact absurd hisDigit (by decide)

theorem graphName_private_ne : graphName ual' .ofPrivate ≠ graphName ual .ofPublic :=
  getLast?_append_ne (by decide) (by decide) (by decide)

/-- No graph of an asset is that of the metadata. -/
theorem graphName_ne_metadataGraph {visibility : TriplesVisibility} :
    graphName ual visibility ≠ metadataGraph := by
  have hempty : metadataGraph = "" ++ metadataGraph := rfl
  rw [hempty]
  refine getLast?_append_ne ?_ ?_ (by decide) <;> cases visibility <;> decide

end Names

/-! ### What is stored -/

namespace NamedGraphs

variable {store : NamedGraphs} {queries : List InsertData} {graph t : String}

theorem mem_insertData {query : InsertData} :
    t ∈ store.insertData query graph ↔
      t ∈ store graph ∨ (query.graph = graph ∧ t ∈ query.nquads) := by
  rw [insertData]
  by_cases h : graph = query.graph
  · subst h
    simp
  · rw [Function.update_of_ne h]
    simp [Ne.symm h]

/-- RUN: a graph holds what it held, and what the queries insert into it. -/
theorem mem_insertAll :
    t ∈ store.insertAll queries graph ↔
      t ∈ store graph ∨ ∃ query ∈ queries, query.graph = graph ∧ t ∈ query.nquads := by
  induction queries generalizing store with
  | nil => simp [insertAll]
  | cons query queries ih =>
    have hcons : store.insertAll (query :: queries) = (store.insertData query).insertAll queries :=
      rfl
    rw [hcons, ih, mem_insertData, List.exists_mem_cons_iff, or_assoc]

end NamedGraphs

theorem mem_createKnowledgeCollectionNamedGraphs {uals : List String}
    {assetsNQuads : List (List String)} {visibility : TriplesVisibility} {query : InsertData} :
    query ∈ createKnowledgeCollectionNamedGraphs uals assetsNQuads visibility ↔
      ∃ ual group, (ual, group) ∈ uals.zip assetsNQuads ∧
        query = ⟨graphName ual visibility, group⟩ := by
  simp [createKnowledgeCollectionNamedGraphs, eq_comm]

namespace TripleStoreService

variable {service : TripleStoreService} {store : NamedGraphs} {ual t : String}

theorem mem_zip_assetUALs {groups : List (List String)} {id : ℕ} {group : List String} :
    (assetUAL ual id, group) ∈ (assetUALs ual groups).zip groups ↔
      ∃ index, groups[index]? = some group ∧ id = index + 1 := by
  rw [List.mem_iff_getElem?]
  simp only [List.getElem?_zip_eq_some, assetUALs, List.getElem?_map, Option.map_eq_some_iff]
  constructor
  · rintro ⟨index, ⟨index', hindex, hual⟩, hgroup⟩
    obtain ⟨hlt, rfl⟩ := List.getElem?_eq_some_iff.mp hindex
    rw [List.getElem_range] at hual
    exact ⟨index, hgroup, (assetUAL_injective hual).symm⟩
  · rintro ⟨index, hgroup, rfl⟩
    obtain ⟨hlt, -⟩ := List.getElem?_eq_some_iff.mp hgroup
    exact ⟨index, ⟨index, List.getElem?_range hlt, rfl⟩, hgroup⟩

/-- The public graph of an asset gets its group, and nothing else. -/
theorem mem_insertKnowledgeCollection {triples : CollectionTriples} {id : ℕ}
    {queries : List InsertData}
    (hnew : store.knowledgeCollectionNamedGraphsExist ual = false)
    (horder : queries.Perm (service.insertKnowledgeCollection store ual triples)) :
    (∃ query ∈ queries, query.graph = graphName (assetUAL ual id) .ofPublic ∧ t ∈ query.nquads) ↔
      ∃ index group, (service.publicGroups triples.publicTriples)[index]? = some group ∧
        id = index + 1 ∧ t ∈ group := by
  constructor
  · rintro ⟨query, hquery, hgraph, ht⟩
    rw [horder.mem_iff, insertKnowledgeCollection, hnew] at hquery
    simp only [Bool.false_eq_true, if_false, List.mem_append, List.mem_singleton] at hquery
    rcases hquery with (hquery | hquery) | rfl
    · obtain ⟨ual', group, hzip, rfl⟩ := mem_createKnowledgeCollectionNamedGraphs.mp hquery
      obtain rfl := graphName_injective hgraph
      obtain ⟨index, hgroup, hid⟩ := mem_zip_assetUALs.mp hzip
      exact ⟨index, group, hgroup, hid, ht⟩
    · split at hquery
      · cases hquery
      · obtain ⟨ual', group, -, rfl⟩ := mem_createKnowledgeCollectionNamedGraphs.mp hquery
        exact absurd hgraph graphName_private_ne
    · exact absurd hgraph.symm graphName_ne_metadataGraph
  · rintro ⟨index, group, hgroup, rfl, ht⟩
    refine ⟨⟨graphName (assetUAL ual (index + 1)) .ofPublic, group⟩, ?_, rfl, ht⟩
    rw [horder.mem_iff, insertKnowledgeCollection, hnew]
    simp only [Bool.false_eq_true, if_false, List.mem_append]
    exact .inl (.inl (mem_createKnowledgeCollectionNamedGraphs.mpr
      ⟨_, group, mem_zip_assetUALs.mpr ⟨index, hgroup, rfl⟩, rfl⟩))

theorem mem_ids {tokenIds : TokenIds} {id : ℕ} :
    id ∈ TokenIds.ids tokenIds ↔
      tokenIds.startTokenId ≤ id ∧ id ≤ tokenIds.endTokenId ∧ id ∉ tokenIds.burned := by
  simp only [TokenIds.ids, List.mem_filter, List.mem_map, List.mem_range, Bool.not_eq_true',
    List.contains_eq_mem, decide_eq_false_iff_not]
  constructor
  · rintro ⟨⟨i, hi, rfl⟩, hburned⟩
    exact ⟨by omega, by omega, hburned⟩
  · rintro ⟨hstart, hend, hburned⟩
    exact ⟨⟨id - tokenIds.startTokenId, by omega, by omega⟩, hburned⟩

/-- The lines read for the public graphs of a range are the triples of the graphs. -/
theorem mem_construct {tokenIds : TokenIds} (hlines : service.WritesLines) (ht : t ≠ "") :
    t ∈ service.construct store ual tokenIds .ofPublic ↔
      ∃ id ∈ TokenIds.ids tokenIds, t ∈ store (graphName (assetUAL ual id) .ofPublic) := by
  rw [construct, hlines _ _ ht, NamedGraphs.triplesOf]
  simp

/-! ### Subjects of private hashes -/

theorem isPrivateHash_eq (nquad : String) :
    isPrivateHash nquad = privateHashPrefix.toList.isPrefixOf (subject nquad).toList := by
  rw [isPrivateHash, subject, String.toList_ofList, Bool.eq_iff_iff, List.isPrefixOf_iff_prefix,
    List.isPrefixOf_iff_prefix]
  constructor
  · rintro ⟨rest, hrest⟩
    rw [← hrest, List.takeWhile_append_of_pos]
    · exact List.prefix_append _ _
    · simp [privateHashPrefix]
  · intro h
    exact h.trans (List.takeWhile_prefix _)

/-- The assertion tools group by subject. -/
def GroupsBySubject (service : TripleStoreService) : Prop :=
  ∀ nquads, GroupedBySubject nquads (service.groupNquadsBySubject nquads)

/-- The public triples are grouped by subject, whether private hashes or not. -/
theorem groupedBySubject_publicGroups (h : service.GroupsBySubject) (publicAssertion : List String) :
    GroupedBySubject publicAssertion (service.publicGroups publicAssertion) := by
  have hboth := (h (publicAssertion.filter fun nquad => !isPrivateHash nquad)).append
    (h (publicAssertion.filter isPrivateHash)) (by
      intro nquad hnquad nquad' hnquad' hsubject
      have hplain := (List.mem_filter.mp hnquad).2
      have hhash := (List.mem_filter.mp hnquad').2
      rw [isPrivateHash_eq] at hplain hhash
      rw [hsubject, hhash] at hplain
      cases hplain)
  refine ⟨fun nquad => (hboth.mem nquad).trans ?_, hboth.ne_nil, hboth.same, hboth.distinct⟩
  rw [List.mem_append, List.mem_filter, List.mem_filter, ← and_or_left]
  cases isPrivateHash nquad <;> simp

/-! ### The round trip -/

/-- CORRECT (round trip): what is read of a collection are the public triples of the assets that are
    not burned. The subjects of the assets are distinct, each public triple is of one of them, and
    the triples of an asset are those with its subject. -/
theorem getAssertion_insertKnowledgeCollection (service : TripleStoreService)
    (hgroups : service.GroupsBySubject) (hlines : service.WritesLines) (store : NamedGraphs)
    (blockchain contract : String) (knowledgeCollectionId : ℕ) (triples : CollectionTriples)
    (htriples : "" ∉ triples.publicTriples)
    (hnew : store.Without
      ("did:dkg:" ++ blockchain ++ "/" ++ contract ++ "/" ++ toString knowledgeCollectionId))
    (queries : List InsertData)
    (horder : queries.Perm (service.insertKnowledgeCollection store
      ("did:dkg:" ++ blockchain ++ "/" ++ contract ++ "/" ++ toString knowledgeCollectionId)
      triples))
    (burned : List ℕ) :
    let subjects := (service.publicGroups triples.publicTriples).map groupSubject
    let assertion := service.getAssertion (store.insertAll queries) blockchain contract
      knowledgeCollectionId ⟨1, subjects.length, burned⟩
    subjects.Nodup ∧ (∀ t ∈ triples.publicTriples, subject t ∈ subjects) ∧
      assertion.privateTriples = none ∧
      ∃ lines, assertion.publicTriples = some lines ∧ ∀ t, t ∈ lines ↔
        t ∈ triples.publicTriples ∧ ∃ index, subjects[index]? = some (subject t) ∧
          index + 1 ∉ burned := by
  intro subjects assertion
  have hgrouped := groupedBySubject_publicGroups hgroups triples.publicTriples
  refine ⟨hgrouped.nodup_subjects, ?_, rfl, _, rfl, ?_⟩
  · intro t ht
    obtain ⟨group, hgroup, hmem⟩ := (hgrouped.mem t).mpr ht
    exact List.mem_map.mpr ⟨group, hgroup, hgrouped.groupSubject_eq hgroup hmem⟩
  · intro t
    set ual := "did:dkg:" ++ blockchain ++ "/" ++ contract ++ "/" ++ toString knowledgeCollectionId
    have hnone : store.knowledgeCollectionNamedGraphsExist ual = false := by
      rw [NamedGraphs.knowledgeCollectionNamedGraphsExist, hnew]
      rfl
    have hstored : ∀ id, t ∈ store.insertAll queries (graphName (assetUAL ual id) .ofPublic) ↔
        ∃ index group, (service.publicGroups triples.publicTriples)[index]? = some group ∧
          id = index + 1 ∧ t ∈ group := by
      intro id
      rw [NamedGraphs.mem_insertAll, hnew, mem_insertKnowledgeCollection hnone horder]
      simp
    rw [List.mem_filter, decide_eq_true_eq]
    constructor
    · rintro ⟨hmem, hne⟩
      obtain ⟨id, hid, ht⟩ := (mem_construct hlines hne).mp hmem
      obtain ⟨index, group, hgroup, rfl, htgroup⟩ := (hstored id).mp ht
      obtain ⟨-, -, hburned⟩ := mem_ids.mp hid
      obtain ⟨hpublic, hsubject⟩ :=
        (hgrouped.mem_group_iff (List.mem_of_getElem? hgroup)).mp htgroup
      refine ⟨hpublic, index, ?_, hburned⟩
      rw [List.getElem?_map, hgroup, hsubject, Option.map_some]
    · rintro ⟨hpublic, index, hsubject, hburned⟩
      have hne : t ≠ "" := by
        rintro rfl
        exact htriples hpublic
      refine ⟨(mem_construct hlines hne).mpr ⟨index + 1, ?_, ?_⟩, hne⟩
      · obtain ⟨hlt, -⟩ := List.getElem?_eq_some_iff.mp hsubject
        exact mem_ids.mpr ⟨Nat.le_add_left 1 index, hlt, hburned⟩
      · rw [List.getElem?_map] at hsubject
        obtain ⟨group, hgroup, hgroupSubject⟩ := Option.map_eq_some_iff.mp hsubject
        exact (hstored _).mpr ⟨index, group, hgroup, rfl,
          (hgrouped.mem_group_iff (List.mem_of_getElem? hgroup)).mpr
            ⟨hpublic, hgroupSubject.symm⟩⟩

/-- A service that groups by subject as the assertion tools do, and writes triples in order. -/
def sortingService : TripleStoreService where
  groupNquadsBySubject nquads :=
    (nquads.map subject).dedup.map fun name => nquads.filter (subject · = name)
  sha256 name := name
  nquadLines triples := triples.sort (· ≤ ·)

theorem groupsBySubject_sortingService : sortingService.GroupsBySubject := by
  intro nquads
  have hmem : ∀ {name nquad}, nquad ∈ nquads.filter (subject · = name) →
      nquad ∈ nquads ∧ subject nquad = name := by
    intro name nquad h
    simpa using h
  constructor
  · intro nquad
    constructor
    · rintro ⟨group, hgroup, hnquad⟩
      obtain ⟨name, -, rfl⟩ := List.mem_map.mp hgroup
      exact (hmem hnquad).1
    · intro hnquad
      refine ⟨_, List.mem_map.mpr ⟨subject nquad, ?_, rfl⟩, List.mem_filter.mpr ⟨hnquad, ?_⟩⟩
      · exact List.mem_dedup.mpr (List.mem_map_of_mem hnquad)
      · exact decide_eq_true rfl
  · intro hnil
    obtain ⟨name, hname, hgroup⟩ := List.mem_map.mp hnil
    obtain ⟨nquad, hnquad, hsubject⟩ := List.mem_map.mp (List.mem_dedup.mp hname)
    exact List.filter_eq_nil_iff.mp hgroup nquad hnquad (by simpa using hsubject)
  · intro group hgroup nquad hnquad nquad' hnquad'
    obtain ⟨name, -, rfl⟩ := List.mem_map.mp hgroup
    exact (hmem hnquad).2.trans (hmem hnquad').2.symm
  · refine List.pairwise_map.mpr ((List.nodup_dedup _).imp ?_)
    intro name name' hne nquad hnquad nquad' hnquad' hsubject
    exact hne ((hmem hnquad).2.symm.trans (hsubject.trans (hmem hnquad').2))

/-- Two assets. -/
def twoAssets : CollectionTriples where
  publicTriples := ["<a> <p> <o> .", "<b> <p> <o> ."]

/-- The queries that insert them into a store without graphs. -/
def twoAssetQueries : List InsertData :=
  sortingService.insertKnowledgeCollection (fun _ => ∅)
    ("did:dkg:" ++ "otp:2043" ++ "/" ++ "0xa" ++ "/" ++ toString 1) twoAssets

theorem getAssertion_insertKnowledgeCollection_burned :
    let subjects := (sortingService.publicGroups twoAssets.publicTriples).map groupSubject
    ∃ lines, (sortingService.getAssertion (NamedGraphs.insertAll (fun _ => ∅) twoAssetQueries)
        "otp:2043" "0xa" 1 ⟨1, subjects.length, [1]⟩).publicTriples = some lines ∧
      ∀ t, t ∈ lines ↔ t ∈ twoAssets.publicTriples ∧
        ∃ index, subjects[index]? = some (subject t) ∧ index + 1 ∉ [1] := by
  have hlines : sortingService.WritesLines := fun triples line _ => Finset.mem_sort _
  obtain ⟨-, -, -, h⟩ := getAssertion_insertKnowledgeCollection sortingService
    groupsBySubject_sortingService hlines (fun _ => ∅) "otp:2043" "0xa" 1 twoAssets (by decide)
    (fun _ _ => rfl) twoAssetQueries (List.Perm.refl _) [1]
  exact h

end TripleStoreService

end OtNode
