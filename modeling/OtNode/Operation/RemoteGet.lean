import OtNode.Operation.GetResult
import OtNode.TripleStore.LocalMetadata

/-! A get that another node serves, from the insertion of the collection to the check of the answer.

    A node reads what it has inserted, whatever else it has inserted meanwhile, and the node that
    asked checks the answer against the chain. -/

namespace OtNode

open TripleStoreService

/-- The data of a get request, as its handler reads it. -/
structure HandleGetData where
  blockchain : String
  contract : String
  knowledgeCollectionId : ℕ
  knowledgeAssetId : Option ℕ
  ual : String
  includeMetadata : Bool
  assertionId : Option String
  isOperationV0 : Bool
  isV6Contract : Bool
  deriving DecidableEq

/-- What the handler uses: the repository of the current version and the public one of the version
    before, and the range of ids that the chain has for the collection. -/
structure HandleGetContext where
  dkg : NamedGraphs
  publicCurrent : NamedGraphs
  getLatestAssertionId : String → Option String
  getKnowledgeAssetsRange : Except String TokenIds

/-- The answer of the handler. -/
inductive GetReply where
  | ack (response : GetResponse)
  | nack (errorMessage : String)
  deriving DecidableEq

namespace HandleGetRequestCommand

variable (service : TripleStoreService) (context : HandleGetContext) (data : HandleGetData)

/-- `knowledgeAssetId`. -/
def assetId : KnowledgeAssetId :=
  match data.knowledgeAssetId with
  | none => .undefined
  | some id => .number id

/-- `assertionId`, where it is truthy in the end. -/
def assertionId : Option String :=
  let given := data.assertionId.filter (· != "")
  if given.isNone && data.isV6Contract then
    (context.getLatestAssertionId data.ual).filter (· != "")
  else given

/-- `getAssertion` of the repository of the current version. -/
def dkgAssertion (knowledgeAssetId : KnowledgeAssetId) : Except String GetResult :=
  service.getAssertionOf context.dkg data.blockchain data.contract data.knowledgeCollectionId
    knowledgeAssetId .ofPublic

/-- `assertionPromise` with an assertion id, and `notMigrated`. -/
def assertionById (assertionId : String) : Except String (GetResult × Bool) := do
  let result ←
    if data.isOperationV0 then .ok (.text []) else dkgAssertion service context data (assetId data)
  if LocalGet.isText result then return (result, false)
  let v6 := service.getV6Assertion context.publicCurrent assertionId
  if v6 ≠ [] then return (.text v6, !data.isOperationV0)
  if data.isOperationV0 then
    return (← dkgAssertion service context data (assetId data), false)
  return (.text [], false)

/-- The range that is read without an assertion id. -/
def assetRange : TokenIds :=
  match data.knowledgeAssetId, context.getKnowledgeAssetsRange with
  | some (k + 1), _ => ⟨k + 1, k + 1, []⟩
  | _, .ok tokenIds => tokenIds
  | _, .error _ => ⟨1, 1, []⟩

/-- `assertion?.public?.length || assertion?.length`. -/
def hasLength : GetResult → Bool
  | .assertion parts => parts.publicTriples.getD [] != []
  | .text lines => lines != []

/-- The end of the command: the metadata, and the answer. -/
def finish (assertion : GetResult) (notMigrated : Bool) (knowledgeAssetId : KnowledgeAssetId) :
    Except String GetReply := do
  let metadata ←
    if data.includeMetadata then
      (service.getAssertionMetadata context.dkg data.blockchain data.contract
        data.knowledgeCollectionId knowledgeAssetId).map some
    else .ok none
  let responseData : GetResponse :=
    { assertion :=
        if (data.isOperationV0 || notMigrated) && data.isV6Contract then assertion.spread
        else assertion
      metadata := metadata }
  return if hasLength assertion then .ack responseData
    else .nack s!"Unable to find assertion {data.ual}"

/-- `prepareMessage`. -/
def prepareMessage : Except String GetReply :=
  match assertionId context data with
  | some id => do
    let (assertion, notMigrated) ← assertionById service context data id
    finish service context data assertion notMigrated (assetId data)
  | none => do
    let tokenIds := assetRange context data
    let assertion ← dkgAssertion service context data (.range tokenIds)
    finish service context data assertion false (.range tokenIds)

end HandleGetRequestCommand

/-- A part that is sent. -/
def SentValue.ofPart {α : Type} : Option (List String) → SentValue α
  | none => .falsy
  | some nquads => .triples nquads

/-- The answer as it comes in. -/
def GetResponse.toAnswer {α : Type} (response : GetResponse) : GetAnswer α :=
  match response.assertion with
  | .assertion parts => ⟨.ofPart parts.publicTriples, .ofPart parts.privateTriples, false⟩
  | .text lines => ⟨.falsy, .falsy, lines != []⟩

/-! ### What is read back -/

/-- The name of an asset is of one collection. -/
theorem ual_eq_of_assetUAL {ual other : String} {id id' : ℕ}
    (h : assetUAL ual id = assetUAL other id') : ual = other := by
  have hlist := congrArg String.toList h
  simp only [assetUAL, String.toList_append, List.append_assoc] at hlist
  have hid : '/' ∉ (toString id).toList := notMem_toString rfl id
  have hid' : '/' ∉ (toString id').toList := notMem_toString rfl id'
  have hslash : "/".toList = ['/'] := rfl
  rw [hslash, List.singleton_append, List.singleton_append] at hlist
  rcases List.append_eq_append_iff.mp hlist with ⟨rest, hother, hrest⟩ | ⟨rest, hual, hrest⟩
  · cases rest with
    | nil => exact String.toList_inj.mp (by simpa using hother.symm)
    | cons c rest =>
      obtain ⟨-, hdigits⟩ := List.cons.inj hrest
      exact absurd (hdigits ▸ List.mem_append_right _ List.mem_cons_self) hid
  · cases rest with
    | nil => exact String.toList_inj.mp (by simpa using hual)
    | cons c rest =>
      obtain ⟨-, hdigits⟩ := List.cons.inj hrest
      exact absurd (hdigits ▸ List.mem_append_right _ List.mem_cons_self) hid'

/-- The query is one of the insertion of another collection. -/
def IsOther (service : TripleStoreService) (ual : String) (query : InsertData) : Prop :=
  ∃ other writer before, ual ≠ other ∧
    query ∈ CollectionWriter.queries service before other writer

theorem graph_ne_of_create {ual : String} {id : ℕ} {uals : List String}
    {assetsNQuads : List (List String)} {visibility : TriplesVisibility} {query : InsertData}
    (hquery : query ∈ createKnowledgeCollectionNamedGraphs uals assetsNQuads visibility)
    (hne : ∀ name ∈ uals, name ≠ assetUAL ual id) :
    query.graph ≠ graphName (assetUAL ual id) .ofPublic := by
  obtain ⟨name, group, hpair, rfl⟩ := mem_createKnowledgeCollectionNamedGraphs.mp hquery
  intro hgraph
  cases visibility with
  | ofPublic => exact hne name (List.of_mem_zip hpair).1 (graphName_injective hgraph)
  | ofPrivate => exact graphName_private_ne hgraph
  | all => exact getLast?_append_ne (by decide) (by decide) (by decide) hgraph

/-- The insertion of another collection leaves the public graphs of a collection alone. -/
theorem graph_ne_of_isOther {service : TripleStoreService} {ual : String} {query : InsertData}
    (h : IsOther service ual query) (id : ℕ) :
    query.graph ≠ graphName (assetUAL ual id) .ofPublic := by
  obtain ⟨other, writer, before, hne, hquery⟩ := h
  have hasset : ∀ id', assetUAL other id' ≠ assetUAL ual id :=
    fun id' heq => hne (ual_eq_of_assetUAL heq).symm
  have hmetadata : ∀ nquads, (insertKnowledgeCollectionMetadata nquads).graph ≠
      graphName (assetUAL ual id) .ofPublic := fun _ => Ne.symm graphName_ne_metadataGraph
  cases writer with
  | insertKnowledgeCollection triples =>
    rcases List.mem_append.mp hquery with hgraphs | hmeta
    · split_ifs at hgraphs with hexists hprivate
      · cases hgraphs
      all_goals
        rcases List.mem_append.mp hgraphs with hpublic | hrest
        · refine graph_ne_of_create hpublic ?_
          intro name hname
          obtain ⟨index, -, rfl⟩ := List.mem_map.mp hname
          exact hasset (index + 1)
        · first
          | cases hrest
          | refine graph_ne_of_create hrest ?_
            intro name hname
            obtain ⟨group, -, hgroup⟩ := List.mem_filterMap.mp hname
            obtain ⟨index, -, rfl⟩ := Option.map_eq_some_iff.mp hgroup
            exact hasset (index + 1)
    · rw [List.mem_singleton.mp hmeta]
      exact hmetadata _
  | createV6KnowledgeCollection triplesPublic triplesPrivate =>
    have hfirst : ∀ name ∈ [other ++ "/1"], name ≠ assetUAL ual id := by
      intro name hname
      have hone : other ++ "/1" = assetUAL other 1 := by
        rw [assetUAL, String.append_assoc]
        rfl
      rw [List.mem_singleton.mp hname, hone]
      exact hasset 1
    rcases List.mem_append.mp hquery with hgraphs | hmeta
    · rcases List.mem_append.mp hgraphs with hpublic | hrest
      · exact graph_ne_of_create hpublic hfirst
      · cases triplesPrivate with
        | none => cases hrest
        | some triplesPrivate => exact graph_ne_of_create hrest hfirst
    · rw [List.mem_singleton.mp hmeta]
      exact hmetadata _

section Served

variable {service : TripleStoreService} {store : NamedGraphs} {ual : String}
  {triples : CollectionTriples} {queries others executed : List InsertData}

/-- RUN: the public graph of an asset has its group, whatever else has been inserted meanwhile. -/
theorem mem_executed (hnew : store.Without ual)
    (horder : queries.Perm (service.insertKnowledgeCollection store ual triples))
    (hothers : ∀ query ∈ others, IsOther service ual query)
    (hexecuted : executed.Perm (queries ++ others)) (id : ℕ) (t : String) :
    t ∈ store.insertAll executed (graphName (assetUAL ual id) .ofPublic) ↔
      ∃ index group, (service.publicGroups triples.publicTriples)[index]? = some group ∧
        id = index + 1 ∧ t ∈ group := by
  have hnone : store.knowledgeCollectionNamedGraphsExist ual = false := by
    rw [NamedGraphs.knowledgeCollectionNamedGraphsExist, hnew]
    rfl
  rw [NamedGraphs.mem_insertAll, hnew, ← mem_insertKnowledgeCollection hnone horder]
  constructor
  · rintro (hbefore | ⟨query, hquery, hgraph, ht⟩)
    · exact absurd hbefore (Finset.notMem_empty t)
    · rcases List.mem_append.mp (hexecuted.mem_iff.mp hquery) with hown | hother
      · exact ⟨query, hown, hgraph, ht⟩
      · exact absurd hgraph (graph_ne_of_isOther (hothers query hother) id)
  · rintro ⟨query, hquery, hgraph, ht⟩
    exact .inr ⟨query, hexecuted.mem_iff.mpr (List.mem_append_left _ hquery), hgraph, ht⟩

/-- What is read are the triples of the assets that are not burned. -/
theorem mem_read (hgroups : service.GroupsBySubject) (hlines : service.WritesLines)
    (hnew : store.Without ual) (htriples : "" ∉ triples.publicTriples)
    (horder : queries.Perm (service.insertKnowledgeCollection store ual triples))
    (hothers : ∀ query ∈ others, IsOther service ual query)
    (hexecuted : executed.Perm (queries ++ others)) {burned : List ℕ} (t : String) :
    t ∈ (service.construct (store.insertAll executed) ual
        ⟨1, (service.publicGroups triples.publicTriples).length, burned⟩ .ofPublic).filter
          (· ≠ "") ↔
      ∃ index group, (service.publicGroups triples.publicTriples)[index]? = some group ∧
        index + 1 ∉ burned ∧ t ∈ group := by
  have hgrouped := groupedBySubject_publicGroups hgroups triples.publicTriples
  have hstored := mem_executed hnew horder hothers hexecuted
  rw [List.mem_filter, decide_eq_true_eq]
  constructor
  · rintro ⟨hmem, hne⟩
    obtain ⟨id, hid, ht⟩ := (mem_construct hlines hne).mp hmem
    obtain ⟨index, group, hgroup, rfl, htgroup⟩ := (hstored id t).mp ht
    exact ⟨index, group, hgroup, (mem_ids.mp hid).2.2, htgroup⟩
  · rintro ⟨index, group, hgroup, hburned, ht⟩
    have hne : t ≠ "" := by
      rintro rfl
      exact htriples ((hgrouped.mem _).mp ⟨group, List.mem_of_getElem? hgroup, ht⟩)
    obtain ⟨hlt, -⟩ := List.getElem?_eq_some_iff.mp hgroup
    exact ⟨(mem_construct hlines hne).mpr ⟨index + 1,
      mem_ids.mpr ⟨Nat.le_add_left 1 index, hlt, hburned⟩,
      (hstored _ t).mpr ⟨index, group, hgroup, rfl, ht⟩⟩, hne⟩

end Served

namespace AnswerTools

variable {α : Type} (tools : AnswerTools α)

/-- A node answers the request with the public triples of the collection, and a get is completed
    with them. -/
def Serves (context : HandleGetContext) (data : HandleGetData) (request : GetRequestData)
    (blockchainAssertionRoot : String) (dataset : List String) : Prop :=
  ∃ response lines, HandleGetRequestCommand.prepareMessage tools.service context data =
      .ok (.ack response) ∧
    response.assertion = .assertion ⟨some lines, none⟩ ∧ lines.Perm dataset ∧
      ∃ cached, tools.handleAck request.getNextCommandData blockchainAssertionRoot
        (some response.toAnswer) = .completed cached

variable {tools} {context : HandleGetContext} {data : HandleGetData} {request : GetRequestData}
  {root : String} {lines : List String}

/-- A request for a whole collection, and not of the version before. -/
structure AsksWhole (data : HandleGetData) : Prop where
  knowledgeAssetId : data.knowledgeAssetId = none
  assertionId : data.assertionId = none
  isV6Contract : data.isV6Contract = false

/-- The handler reads the public graphs of the range. With metadata its query for the range cannot
    be parsed. -/
theorem prepareMessage_whole (hwhole : AsksWhole data) {tokenIds : TokenIds}
    (hrange : context.getKnowledgeAssetsRange = .ok tokenIds) :
    HandleGetRequestCommand.prepareMessage tools.service context data =
      if data.includeMetadata then .error "Parse error"
      else
        let assertion := tools.service.getAssertion context.dkg data.blockchain data.contract
          data.knowledgeCollectionId tokenIds
        .ok (if HandleGetRequestCommand.hasLength (.assertion assertion) then
            .ack ⟨.assertion assertion, none⟩
          else .nack s!"Unable to find assertion {data.ual}") := by
  have hid : HandleGetRequestCommand.assertionId context data = none := by
    simp [HandleGetRequestCommand.assertionId, hwhole.assertionId, hwhole.isV6Contract]
  have htokens : HandleGetRequestCommand.assetRange context data = tokenIds := by
    simp [HandleGetRequestCommand.assetRange, hwhole.knowledgeAssetId, hrange]
  have hread : HandleGetRequestCommand.dkgAssertion tools.service context data (.range tokenIds) =
      .ok (.assertion (tools.service.getAssertion context.dkg data.blockchain data.contract
        data.knowledgeCollectionId tokenIds)) := rfl
  rw [HandleGetRequestCommand.prepareMessage, hid]
  simp only [htokens, hread, bind, Except.bind, HandleGetRequestCommand.finish]
  cases data.includeMetadata with
  | true =>
    have hparse : ∀ ual, (tools.service.getKnowledgeAssetMetadata context.dkg
        (ual ++ "/" ++ (KnowledgeAssetId.range tokenIds).render)) = .error "Parse error" := by
      intro ual
      rw [getKnowledgeAssetMetadata, if_pos]
      simp [String.toList_append, KnowledgeAssetId.render]
    simp [getAssertionMetadata, KnowledgeAssetId.truthy, hparse, Except.map]
  | false => simp [hwhole.isV6Contract, pure, Except.pure]

/-- An answer with a public part alone is checked by the root of that part in order. -/
theorem handleAck_completed_iff (hcollection : request.knowledgeAssetId.truthy = false)
    {hasLength : Bool} :
    (∃ cached, tools.handleAck request.getNextCommandData root
        (some ⟨.triples lines, .falsy, hasLength⟩) = .completed cached) ↔
      tools.calculateRoot (tools.service.canonicalOrder lines) = root := by
  have hasked : ¬ (request.getNextCommandData.knowledgeAssetId.truthy = true ∨
      request.getNextCommandData.isV6Contract = true) := by
    simp [GetRequestData.getNextCommandData, hcollection]
  rw [← validateDatasetOnBlockchain_eq_ok tools.calculateRoot]
  simp only [handleAck, if_neg hasked, validate, validatePrivate]
  cases hvalid : validateDatasetOnBlockchain tools.calculateRoot
      (tools.service.canonicalOrder lines) root with
  | error message => simp [Except.mapError, bind, Except.bind]
  | ok checked =>
    have hcompleted : ∃ cached, tools.updatedResponseData request.getNextCommandData
        ⟨.triples lines, .falsy, hasLength⟩ = .completed cached := by
      rw [updatedResponseData]
      split_ifs with hversion hspreads
      · exact ⟨_, rfl⟩
      · exact absurd ⟨rfl, rfl⟩ hspreads
      · exact ⟨_, rfl⟩
    simpa [Except.mapError, bind, Except.bind] using hcompleted

/-- The asset of a group with a triple in it is the only one. -/
theorem index_eq_of_mem {nquads : List String} {groups : List (List String)}
    (h : GroupedBySubject nquads groups) {i j : ℕ} {group group' : List String} {t : String}
    (hi : groups[i]? = some group) (hj : groups[j]? = some group') (ht : t ∈ group)
    (ht' : t ∈ group') : i = j := by
  have hsubjects : (groups.map groupSubject)[i]? = (groups.map groupSubject)[j]? := by
    rw [List.getElem?_map, List.getElem?_map, hi, hj, Option.map_some, Option.map_some,
      h.groupSubject_eq (List.mem_of_getElem? hi) ht,
      h.groupSubject_eq (List.mem_of_getElem? hj) ht']
  obtain ⟨hlt, -⟩ := List.getElem?_eq_some_iff.mp hi
  exact (List.getElem?_inj (by simpa using hlt) h.nodup_subjects).mp hsubjects

end AnswerTools

/-- None of the assets is burned. -/
def NoneBurned (assets : ℕ) (burned : List ℕ) : Prop := ∀ id ∈ burned, ¬ (1 ≤ id ∧ id ≤ assets)

/-- CORRECT: a node that has inserted a collection, whatever else it has inserted meanwhile, serves
    it to a node that checks it against the chain if no metadata is asked for, none of its assets is
    burned and the dataset is in order; and, as long as no other list of its triples has its root,
    only then. -/
theorem serves_iff {α : Type} (tools : AnswerTools α) {subjectLe : String → String → Prop}
    (hgroups : tools.service.GroupsBySubject) (hsorts : tools.service.SortsBySubject subjectLe)
    (hlines : tools.service.WritesLines)
    (hnodup : ∀ nquads, (tools.service.nquadLines nquads).Nodup)
    (store publicCurrent : NamedGraphs) (getLatestAssertionId : String → Option String)
    (data : HandleGetData) (hwhole : AnswerTools.AsksWhole data) (request : GetRequestData)
    (hcollection : request.knowledgeAssetId.truthy = false) (triples : CollectionTriples)
    (hne : triples.publicTriples ≠ []) (htriples : "" ∉ triples.publicTriples)
    (hnew : store.Without
      (collectionUAL data.blockchain data.contract data.knowledgeCollectionId))
    (queries others executed : List InsertData)
    (horder : queries.Perm (tools.service.insertKnowledgeCollection store
      (collectionUAL data.blockchain data.contract data.knowledgeCollectionId) triples))
    (hothers : ∀ query ∈ others, IsOther tools.service
      (collectionUAL data.blockchain data.contract data.knowledgeCollectionId) query)
    (hexecuted : executed.Perm (queries ++ others)) (burned : List ℕ) :
    let assets := (tools.service.publicGroups triples.publicTriples).length
    let serves := tools.Serves
      ⟨store.insertAll executed, publicCurrent, getLatestAssertionId, .ok ⟨1, assets, burned⟩⟩ data
      request (tools.calculateRoot triples.publicTriples) triples.publicTriples
    (data.includeMetadata = false ∧ NoneBurned assets burned ∧
        InOrder subjectLe triples.publicTriples → serves) ∧
      (TellsApart tools.calculateRoot triples.publicTriples → serves →
        data.includeMetadata = false ∧ NoneBurned assets burned ∧
          InOrder subjectLe triples.publicTriples) := by
  intro assets serves
  have hgrouped := groupedBySubject_publicGroups hgroups triples.publicTriples
  set context : HandleGetContext :=
    ⟨store.insertAll executed, publicCurrent, getLatestAssertionId, .ok ⟨1, assets, burned⟩⟩
  have hrange : context.getKnowledgeAssetsRange = .ok ⟨1, assets, burned⟩ := rfl
  have hread := @AnswerTools.prepareMessage_whole _ tools context data hwhole _ hrange
  set lines := (tools.service.construct (store.insertAll executed)
    (collectionUAL data.blockchain data.contract data.knowledgeCollectionId) ⟨1, assets, burned⟩
    .ofPublic).filter (· ≠ "") with hlinesEq
  have hassertion : tools.service.getAssertion context.dkg data.blockchain data.contract
      data.knowledgeCollectionId ⟨1, assets, burned⟩ = ⟨some lines, none⟩ := rfl
  have hmem : ∀ t, t ∈ lines ↔ ∃ index group,
      (tools.service.publicGroups triples.publicTriples)[index]? = some group ∧
        index + 1 ∉ burned ∧ t ∈ group :=
    mem_read hgroups hlines hnew htriples horder hothers hexecuted
  have hlinesNodup : lines.Nodup := (hnodup _).filter _
  rw [hassertion] at hread
  dsimp only at hread
  constructor
  · rintro ⟨hmetadata, hburned, hinOrder⟩
    have hsame : ∀ t, t ∈ lines ↔ t ∈ triples.publicTriples := by
      intro t
      rw [hmem, ← hgrouped.mem]
      constructor
      · rintro ⟨index, group, hgroup, -, ht⟩
        exact ⟨group, List.mem_of_getElem? hgroup, ht⟩
      · rintro ⟨group, hgroup, ht⟩
        obtain ⟨index, hindex⟩ := List.mem_iff_getElem?.mp hgroup
        obtain ⟨hlt, -⟩ := List.getElem?_eq_some_iff.mp hindex
        exact ⟨index, group, hindex, fun hid => hburned _ hid ⟨Nat.le_add_left 1 index, hlt⟩, ht⟩
    have hcanonical := canonicalOrder_eq hsorts hinOrder hlinesNodup hsame
    have hnonempty : lines ≠ [] := by
      obtain ⟨t, ht⟩ := List.exists_mem_of_ne_nil _ hne
      exact List.ne_nil_of_mem ((hsame t).mpr ht)
    have hperm : lines.Perm triples.publicTriples :=
      hcanonical ▸ (perm_canonicalOrder hsorts lines).symm
    refine ⟨⟨.assertion ⟨some lines, none⟩, none⟩, lines, ?_, rfl, hperm, ?_⟩
    · refine hread.trans ?_
      simp [hmetadata, HandleGetRequestCommand.hasLength, hnonempty]
    · exact (AnswerTools.handleAck_completed_iff hcollection).mpr (by rw [hcanonical])
  · rintro hapart ⟨response, lines', hprepared, hresponse, hperm, hcompleted⟩
    rw [hread] at hprepared
    split at hprepared
    · cases hprepared
    · next hmetadata =>
      rw [Except.ok.injEq] at hprepared
      split at hprepared
      · rw [GetReply.ack.injEq] at hprepared
        subst hprepared
        obtain rfl : lines = lines' := by simpa using hresponse
        have hroot := (AnswerTools.handleAck_completed_iff hcollection).mp hcompleted
        have hcanonicalPerm := perm_canonicalOrder hsorts lines
        have hcanonical := hapart _ (hcanonicalPerm.nodup_iff.mpr hlinesNodup)
          (fun _ => (hcanonicalPerm.trans hperm).mem_iff) hroot
        refine ⟨by simpa using hmetadata, ?_, ?_⟩
        · rintro id hid ⟨hfirst, hlast⟩
          obtain ⟨index, rfl⟩ := Nat.exists_eq_add_of_le' hfirst
          obtain ⟨group, hgroup⟩ : ∃ group,
              (tools.service.publicGroups triples.publicTriples)[index]? = some group :=
            ⟨_, List.getElem?_eq_getElem hlast⟩
          obtain ⟨t, ht, -⟩ := hgrouped.exists_mem (List.mem_of_getElem? hgroup)
          have hpublic := (hgrouped.mem t).mp ⟨group, List.mem_of_getElem? hgroup, ht⟩
          obtain ⟨index', group', hgroup', hburned, ht'⟩ := (hmem t).mp (hperm.mem_iff.mpr hpublic)
          obtain rfl := AnswerTools.index_eq_of_mem hgrouped hgroup hgroup' ht ht'
          exact hburned hid
        · have hsorted := precedes_canonicalOrder hsorts lines
          have hdistinct := hcanonicalPerm.nodup_iff.mpr hlinesNodup
          rw [hcanonical] at hsorted hdistinct
          exact hdistinct.and hsorted
      · cases hprepared

/-- Tools that sort by subject group by it. -/
theorem groupsBySubject_subjectService : subjectService.GroupsBySubject := by
  intro nquads
  have hsorts := sortsBySubject_subjectService
  refine ⟨?_, ?_, hsorts.same nquads, ?_⟩
  · intro nquad
    rw [← (hsorts.perm nquads).mem_iff, List.mem_flatten]
  · intro hempty
    obtain ⟨name, hname, hfilter⟩ := List.mem_map.mp hempty
    rw [List.mem_insertionSort, List.mem_dedup] at hname
    obtain ⟨nquad, hnquad, rfl⟩ := List.mem_map.mp hname
    have hmem : nquad ∈ nquads.filter (subject · = subject nquad) := by simp [hnquad]
    rw [hfilter] at hmem
    cases hmem
  · exact (hsorts.sorted nquads).imp fun hsorted nquad hnquad nquad' hnquad' =>
      (hsorted nquad hnquad nquad' hnquad').1

/-- The queries that insert two assets in order, and another collection. -/
def orderedQueries : List InsertData :=
  subjectService.insertKnowledgeCollection (fun _ => ∅) "did:dkg:otp:2043/0xa/1" twoAssets

def otherQueries : List InsertData :=
  createV6KnowledgeCollection ["<x> <p> <o> ."] "did:dkg:otp:2043/0xa/2" none

/-- A request for the collection. -/
def orderedGet : HandleGetData where
  blockchain := "otp:2043"
  contract := "0xa"
  knowledgeCollectionId := 1
  knowledgeAssetId := none
  ual := "did:dkg:otp:2043/0xa/1"
  includeMetadata := false
  assertionId := none
  isOperationV0 := false
  isV6Contract := false

theorem serves_iff_ordered :
    joiningTools.Serves ⟨NamedGraphs.insertAll (fun _ => ∅) (otherQueries ++ orderedQueries),
        fun _ => ∅, fun _ => none, .ok ⟨1, 2, []⟩⟩ orderedGet ⟨.undefined, false, false⟩
      (joiningTools.calculateRoot twoAssets.publicTriples) twoAssets.publicTriples := by
  refine (serves_iff joiningTools groupsBySubject_subjectService
    sortsBySubject_subjectService (fun _ _ _ => Finset.mem_sort _) (fun _ => Finset.sort_nodup ..)
    (fun _ => ∅) (fun _ => ∅) (fun _ => none) orderedGet ⟨rfl, rfl, rfl⟩ ⟨.undefined, false, false⟩
    rfl twoAssets (by decide) (by decide) ?_ orderedQueries otherQueries
    (otherQueries ++ orderedQueries) (.refl _) ?_ List.perm_append_comm []).1 ⟨rfl, nofun, ?_⟩
  · exact fun _ _ => rfl
  · intro query hquery
    exact ⟨"did:dkg:otp:2043/0xa/2", .createV6KnowledgeCollection ["<x> <p> <o> ."] none,
      fun _ => ∅, by decide, hquery⟩
  · exact List.pairwise_pair.mpr
      ⟨by decide, .inr ⟨by decide, .inl ⟨by decide +kernel, by decide +kernel⟩⟩⟩

end OtNode
