import OtNode.TripleStore.Assertions

/-! The local get of a knowledge collection or one of its assets.

    With an assertion id the command asks the repository of the current version first, and the ones
    of the version before where the result has no length. What the first one resolves to is an
    object, which has none, so what it found is always dropped for what the others have. -/

namespace OtNode

/-- The value is truthy, as an id is tested. -/
def KnowledgeAssetId.truthy : KnowledgeAssetId → Bool
  | .undefined => false
  | .string id => id != ""
  | .number id => id != 0
  | .range _ => true

/-- The value in a template literal. -/
def KnowledgeAssetId.render : KnowledgeAssetId → String
  | .undefined => "undefined"
  | .string id => id
  | .number id => toString id
  | .range _ => "[object Object]"

/-- The data of the command. No blockchain and no contract has a blank in its name, and the asset is
    asked for by number. -/
structure LocalGetData where
  blockchain : String
  contract : String
  knowledgeCollectionId : ℕ
  knowledgeAssetId : Option ℕ
  contentType : TriplesVisibility
  includeMetadata : Bool
  assertionId : Option String
  isOperationV0 : Bool
  isV6Contract : Bool
  paranetUAL : Option String
  paranetSync : Bool
  noBlank : ' ' ∉ (collectionUAL blockchain contract knowledgeCollectionId).toList

namespace LocalGetData

/-- The UAL of the collection that is asked for. -/
def ual (data : LocalGetData) : String :=
  collectionUAL data.blockchain data.contract data.knowledgeCollectionId

/-- `knowledgeAssetId`. -/
def assetId (data : LocalGetData) : KnowledgeAssetId :=
  match data.knowledgeAssetId with
  | none => .undefined
  | some id => .number id

/-- `paranetUAL && !paranetSync`: the paranet that is read. -/
def paranetRead (data : LocalGetData) : Option String :=
  data.paranetUAL.filter fun paranetUAL => paranetUAL != "" && !data.paranetSync

/-- The assertion id, where it is truthy. -/
def assertion (data : LocalGetData) : Option String := data.assertionId.filter (· != "")

end LocalGetData

/-- What the command uses: the repositories of the current version, of a paranet by its name, and of
    the version before; the UAL and paranet services; and what the blockchain has for the
    collection. -/
structure LocalGetContext where
  dkg : NamedGraphs
  paranet : String → NamedGraphs
  privateCurrent : NamedGraphs
  publicCurrent : NamedGraphs
  deriveUAL : String → String → ℕ → Option ℕ → String
  getParanetRepositoryName : String → Except String String
  getKnowledgeAssetsRange : Except String TokenIds

/-- What the operation is completed with. -/
structure GetResponse where
  assertion : GetResult
  metadata : Option (List String)
  deriving DecidableEq

/-- How the command ends, where it does not throw. -/
inductive LocalGetOutcome where
  | completed (response : GetResponse)
  | failed (errorMessage : String)
  | continued
  deriving DecidableEq

/-- `cleanEscapeCharacter`. -/
def cleanEscapeCharacter (query : String) : String :=
  String.ofList (query.toList.flatMap fun c => if c ∈ ['\'', '|', '[', ']', '\\'] then ['\\', c] else [c])

/-- `assertion?.public?.length || assertion?.private?.length || assertion?.length`. -/
def GetResult.hasLength : GetResult → Bool
  | .assertion parts => parts.publicTriples.getD [] != [] || parts.privateTriples.getD [] != []
  | .text lines => lines != []

/-- The triple is in the result. -/
def GetResult.Has (nquad : String) : GetResult → Prop
  | .assertion parts => nquad ∈ parts.publicTriples.getD [] ∨ nquad ∈ parts.privateTriples.getD []
  | .text lines => nquad ∈ lines

/-- `[...(assertion?.public ?? []), ...(assertion?.private ?? [])]`. -/
def GetResult.spread : GetResult → GetResult
  | .assertion parts => .text (parts.publicTriples.getD [] ++ parts.privateTriples.getD [])
  | .text _ => .text []

namespace TripleStoreService

variable (service : TripleStoreService)

/-- `getV6Assertion`. -/
def getV6Assertion (repository : NamedGraphs) (assertionId : String) : List String :=
  if assertionId = "" then []
  else service.linesOf repository ["assertion:" ++ cleanEscapeCharacter assertionId]

/-- The query for the metadata of one subject. A name with a blank is none, and the query is
    rejected. -/
def getKnowledgeAssetMetadata (store : NamedGraphs) (ual : String) : Except String (List String) :=
  if ' ' ∈ ual.toList then .error "Parse error"
  else .ok ((service.nquadLines ((store metadataGraph).filter fun nquad =>
    subject nquad = "<" ++ ual ++ ">")).filter (· ≠ ""))

/-- The query for the metadata of the subjects that start with the UAL. -/
def getKnowledgeCollectionMetadata (store : NamedGraphs) (ual : String) : List String :=
  (service.nquadLines ((store metadataGraph).filter fun nquad =>
    ("<" ++ ual ++ "/").toList <+: (subject nquad).toList)).filter (· ≠ "")

/-- `getAssertionMetadata`. -/
def getAssertionMetadata (store : NamedGraphs) (blockchain contract : String)
    (knowledgeCollectionId : ℕ) (knowledgeAssetId : KnowledgeAssetId) :
    Except String (List String) :=
  let ual := collectionUAL blockchain contract knowledgeCollectionId
  if knowledgeAssetId.truthy then
    service.getKnowledgeAssetMetadata store (ual ++ "/" ++ knowledgeAssetId.render)
  else .ok (service.getKnowledgeCollectionMetadata store ual)

end TripleStoreService

namespace LocalGet

open TripleStoreService

variable (service : TripleStoreService) (context : LocalGetContext) (data : LocalGetData)

/-- The loop over the repositories of the version before: the first that has the assertion. -/
def v6Assertion (assertionId : String) : List String :=
  let result := service.getV6Assertion context.privateCurrent assertionId
  if result ≠ [] then result else service.getV6Assertion context.publicCurrent assertionId

/-- `getAssertion` of the repository of the current version. -/
def dkgAssertion (knowledgeAssetId : KnowledgeAssetId) : Except String GetResult :=
  service.getAssertionOf context.dkg data.blockchain data.contract data.knowledgeCollectionId
    knowledgeAssetId data.contentType

/-- `result?.length` is truthy: that of a text which is not empty. An object has no length. -/
def isText : GetResult → Bool
  | .assertion _ => false
  | .text lines => lines != []

/-- `assertionPromise` with an assertion id, and `migrated`. -/
def assertionById (assertionId : String) : Except String (GetResult × Bool) := do
  let result ← if data.isOperationV0 then .ok (.text []) else dkgAssertion service context data data.assetId
  if isText result then return (result, true)
  let v6 := v6Assertion service context assertionId
  if v6 ≠ [] then return (.text v6, data.isOperationV0)
  if data.isOperationV0 then return (← dkgAssertion service context data data.assetId, true)
  return (.text [], true)

/-- The range that is read without an assertion id: of one asset, or of the collection, which has
    one asset where the blockchain does not tell. -/
def assetRange : TokenIds :=
  match data.knowledgeAssetId, context.getKnowledgeAssetsRange with
  | some (k + 1), _ => ⟨k + 1, k + 1, []⟩
  | _, .ok tokenIds => tokenIds
  | _, .error _ => ⟨1, 1, []⟩

/-- `metadata`, of a repository. -/
def metadataOf (store : NamedGraphs) (knowledgeAssetId : KnowledgeAssetId) :
    Except String (Option (List String)) :=
  if data.includeMetadata then
    (service.getAssertionMetadata store data.blockchain data.contract data.knowledgeCollectionId
      knowledgeAssetId).map some
  else .ok none

/-- `responseData`. -/
def responseData (assertion : GetResult) (migrated : Bool) (metadata : Option (List String)) :
    GetResponse :=
  { assertion := if (data.isOperationV0 || !migrated) && data.isV6Contract then assertion.spread
      else assertion
    metadata := metadata }

/-- The end of the command: the metadata of `knowledgeAssetId`, and the response where the assertion
    has a length. -/
def finish (assertion : GetResult) (migrated : Bool) (knowledgeAssetId : KnowledgeAssetId) :
    Except String LocalGetOutcome := do
  let metadata ← metadataOf service data context.dkg knowledgeAssetId
  return if assertion.hasLength then .completed (responseData data assertion migrated metadata)
    else .continued

/-- The error message of an asset that the paranet does not have. -/
def notInParanet (ual paranetUAL : String) : String :=
  s!"Unable to locally find an asset with UAL: {ual} in the paranet with UAL: {paranetUAL}"

/-- The command for a paranet. -/
def executeParanet (paranetUAL : String) : Except String LocalGetOutcome := do
  let ual := context.deriveUAL data.blockchain data.contract data.knowledgeCollectionId
    data.knowledgeAssetId
  let repository ← context.getParanetRepositoryName paranetUAL
  let tokenIds ← context.getKnowledgeAssetsRange
  let assertion := service.getAssertion (context.paranet repository) data.blockchain data.contract
    data.knowledgeCollectionId tokenIds data.contentType
  if assertion.publicTriples.getD [] = [] then
    return .failed (notInParanet ual paranetUAL)
  let metadata ← metadataOf service data (context.paranet repository) (.range tokenIds)
  return .completed ⟨.assertion assertion, metadata⟩

/-- `execute`. -/
def execute : Except String LocalGetOutcome :=
  match data.paranetRead, data.assertion with
  | some paranetUAL, _ => executeParanet service context data paranetUAL
  | none, some assertionId => do
    let (assertion, migrated) ← assertionById service context data assertionId
    finish service context data assertion migrated data.assetId
  | none, none => do
    let tokenIds := assetRange context data
    let assertion ← dkgAssertion service context data (.range tokenIds)
    finish service context data assertion true (.range tokenIds)

/-! ### What is asked for -/

/-- The ids that are asked for. -/
def requestedIds : List ℕ :=
  match data.knowledgeAssetId with
  | some id => [id]
  | none => TripleStoreService.TokenIds.ids (assetRange context data)

/-- The repository of the current version holds the triple for the request. -/
def Requested (nquad : String) : Prop :=
  nquad ≠ "" ∧ ∃ id ∈ requestedIds context data,
    (data.contentType.asksPublic = true ∧
        nquad ∈ context.dkg (graphName (assetUAL data.ual id) .ofPublic)) ∨
      (data.contentType.asksPrivate = true ∧
        nquad ∈ context.dkg (graphName (assetUAL data.ual id) .ofPrivate))

/-- The repository of the current version holds the assertion that is asked for. -/
def Held : Prop := ∃ nquad, Requested context data nquad

/-- The operation is completed with the triples, and no others. -/
def CompletesWith (outcome : Except String LocalGetOutcome) (triples : String → Prop) : Prop :=
  ∃ response, outcome = .ok (.completed response) ∧
    ∀ nquad, response.assertion.Has nquad ↔ triples nquad

/-- What is held is found. Otherwise the assertion of the version before is, and where that has none
    the command goes on to the network. -/
def Finds (assertionId : String) : Prop :=
  (Held context data →
      CompletesWith (execute service context data) (Requested context data)) ∧
    (¬ Held context data →
      (v6Assertion service context assertionId ≠ [] →
        CompletesWith (execute service context data)
          (· ∈ v6Assertion service context assertionId)) ∧
      (v6Assertion service context assertionId = [] →
        execute service context data = .ok .continued))

/-- The repository of the paranet has the triples for the whole collection, and no others. -/
def ParanetServes (paranetUAL : String) (triples : String → Prop) : Prop :=
  ∃ repository tokenIds, context.getParanetRepositoryName paranetUAL = .ok repository ∧
    context.getKnowledgeAssetsRange = .ok tokenIds ∧ data.includeMetadata = false ∧
      let assertion := service.getAssertion (context.paranet repository) data.blockchain
        data.contract data.knowledgeCollectionId tokenIds data.contentType
      assertion.publicTriples.getD [] ≠ [] ∧
        ∀ nquad, (GetResult.assertion assertion).Has nquad ↔ triples nquad

/-- When the command finds what is held. In the repositories of the version before, what they have
    must not differ from it, and the contract must not be one of that version. -/
def FindsWhen (assertionId : String) : Prop :=
  match data.paranetRead with
  | some paranetUAL =>
    (Held context data ∧ ParanetServes service context data paranetUAL (Requested context data)) ∨
      (¬ Held context data ∧ v6Assertion service context assertionId ≠ [] ∧
        ParanetServes service context data paranetUAL (· ∈ v6Assertion service context assertionId))
  | none =>
    data.knowledgeAssetId ≠ none ∧
      if v6Assertion service context assertionId = [] then ¬ Held context data
      else data.isV6Contract = false ∧ (Held context data →
        ∀ nquad, nquad ∈ v6Assertion service context assertionId ↔ Requested context data nquad)

variable {service context data}

/-! ### How the command ends -/

/-- The name of an asset has no blank. -/
theorem noBlank_asset (data : LocalGetData) (id : ℕ) : ' ' ∉ (assetUAL data.ual id).toList :=
  noBlank_assetUAL data.noBlank id

/-- The metadata of one asset can always be asked for. -/
theorem metadataOf_number (service : TripleStoreService) (store : NamedGraphs) (data : LocalGetData)
    (id : ℕ) : ∃ metadata, metadataOf service data store (.number id) = .ok metadata := by
  obtain ⟨lines, hlines⟩ : ∃ lines, service.getAssertionMetadata store data.blockchain
      data.contract data.knowledgeCollectionId (.number id) = .ok lines := by
    rw [TripleStoreService.getAssertionMetadata]
    split_ifs with htruthy
    · exact ⟨_, if_neg (noBlank_asset data id)⟩
    · exact ⟨_, rfl⟩
  rw [metadataOf, hlines]
  split_ifs <;> exact ⟨_, rfl⟩

/-- The metadata of a range cannot be asked for. -/
theorem metadataOf_range (service : TripleStoreService) (store : NamedGraphs) (data : LocalGetData)
    (tokenIds : TokenIds) : metadataOf service data store (.range tokenIds) =
      if data.includeMetadata then .error "Parse error" else .ok none := by
  have herror : service.getAssertionMetadata store data.blockchain data.contract
      data.knowledgeCollectionId (.range tokenIds) = .error "Parse error" := by
    rw [TripleStoreService.getAssertionMetadata, KnowledgeAssetId.truthy, if_pos rfl,
      TripleStoreService.getKnowledgeAssetMetadata, if_pos]
    simp [KnowledgeAssetId.render]
  rw [metadataOf, herror]
  rfl

/-- The command for a paranet whose repository and range are known. -/
theorem executeParanet_eq {paranetUAL repository : String} {tokenIds : TokenIds}
    (hrepository : context.getParanetRepositoryName paranetUAL = .ok repository)
    (hrange : context.getKnowledgeAssetsRange = .ok tokenIds) :
    let assertion := service.getAssertion (context.paranet repository) data.blockchain data.contract
      data.knowledgeCollectionId tokenIds data.contentType
    executeParanet service context data paranetUAL =
      if assertion.publicTriples.getD [] = [] then
        .ok (.failed (notInParanet (context.deriveUAL data.blockchain data.contract
          data.knowledgeCollectionId data.knowledgeAssetId) paranetUAL))
      else if data.includeMetadata then .error "Parse error"
      else .ok (.completed ⟨.assertion assertion, none⟩) := by
  intro assertion
  rw [executeParanet, hrepository, hrange]
  simp only [bind, Except.bind, metadataOf_range]
  split_ifs <;> rfl

/-- The command for a paranet completes with what its repository serves, or not at all. -/
theorem completesWith_executeParanet_iff {paranetUAL : String} {triples : String → Prop} :
    CompletesWith (executeParanet service context data paranetUAL) triples ↔
      ParanetServes service context data paranetUAL triples := by
  cases hrepository : context.getParanetRepositoryName paranetUAL with
  | error message =>
    simp [CompletesWith, ParanetServes, executeParanet, hrepository, bind, Except.bind]
  | ok repository =>
    cases hrange : context.getKnowledgeAssetsRange with
    | error message =>
      simp [CompletesWith, ParanetServes, executeParanet, hrepository, hrange, bind, Except.bind]
    | ok tokenIds =>
      rw [CompletesWith, executeParanet_eq hrepository hrange, ParanetServes]
      constructor
      · rintro ⟨response, hresponse, htriples⟩
        split_ifs at hresponse with hempty hmetadata
        · cases hresponse
        · obtain rfl := LocalGetOutcome.completed.inj (Except.ok.inj hresponse)
          exact ⟨repository, tokenIds, hrepository, hrange, by simpa using hmetadata, hempty, htriples⟩
      · rintro ⟨repository', tokenIds', hrepository', hrange', hmetadata, hsome, htriples⟩
        obtain rfl := Except.ok.inj (hrepository.symm.trans hrepository')
        obtain rfl := Except.ok.inj (hrange.symm.trans hrange')
        rw [if_neg hsome, if_neg (by simp [hmetadata])]
        exact ⟨_, rfl, htriples⟩

/-- The command for a paranet does not go on to the network. -/
theorem executeParanet_ne_continued {paranetUAL : String} :
    executeParanet service context data paranetUAL ≠ .ok .continued := by
  intro hcontinued
  cases hrepository : context.getParanetRepositoryName paranetUAL with
  | error message =>
    rw [executeParanet, hrepository] at hcontinued
    cases hcontinued
  | ok repository =>
    cases hrange : context.getKnowledgeAssetsRange with
    | error message =>
      rw [executeParanet, hrepository, hrange] at hcontinued
      cases hcontinued
    | ok tokenIds =>
      rw [executeParanet_eq hrepository hrange] at hcontinued
      split_ifs at hcontinued <;> cases hcontinued

section CurrentVersion

variable {assertionId : String}

/-- The whole collection cannot be asked for with an assertion id. -/
theorem assertionById_collection (hV0 : data.isOperationV0 = false)
    (hcollection : data.knowledgeAssetId = none) :
    assertionById service context data assertionId =
      .error "Cannot read properties of undefined (reading 'endTokenId')" := by
  simp only [assertionById, hV0, LocalGetData.assetId, hcollection]
  rfl

/-- Of an asset the assertion of the version before is taken, whatever the repository of the current
    version has. -/
theorem assertionById_asset (hV0 : data.isOperationV0 = false) {id : ℕ}
    (hasset : data.knowledgeAssetId = some id) :
    assertionById service context data assertionId =
      .ok (.text (v6Assertion service context assertionId),
        v6Assertion service context assertionId = []) := by
  obtain ⟨parts, hparts⟩ : ∃ parts, dkgAssertion service context data (.number id) =
      .ok (.assertion parts) := ⟨_, rfl⟩
  simp only [assertionById, hV0, LocalGetData.assetId, hasset, hparts]
  by_cases hv6 : v6Assertion service context assertionId = []
  · simp [isText, hv6, bind, Except.bind, pure, Except.pure]
  · simp [isText, hv6, bind, Except.bind, pure, Except.pure]

/-- The end of the command for an asset. -/
theorem execute_asset (hV0 : data.isOperationV0 = false) (hread : data.paranetRead = none)
    (hassertion : data.assertion = some assertionId) {id : ℕ}
    (hasset : data.knowledgeAssetId = some id) :
    ∃ metadata, execute service context data =
      if v6Assertion service context assertionId = [] then .ok .continued
      else .ok (.completed ⟨if data.isV6Contract then .text []
        else .text (v6Assertion service context assertionId), metadata⟩) := by
  obtain ⟨metadata, hmetadata⟩ := metadataOf_number service context.dkg data id
  refine ⟨metadata, ?_⟩
  simp only [execute, hread, hassertion, assertionById_asset hV0 hasset, finish,
    LocalGetData.assetId, hasset, hmetadata, bind, Except.bind, pure, Except.pure]
  by_cases hv6 : v6Assertion service context assertionId = []
  · simp [hv6, GetResult.hasLength]
  · simp [hv6, GetResult.hasLength, responseData, hV0, GetResult.spread]

end CurrentVersion

theorem completesWith_text_iff {lines : List String} {triples : String → Prop}
    {metadata : Option (List String)} :
    CompletesWith (.ok (.completed ⟨.text lines, metadata⟩)) triples ↔
      ∀ nquad, nquad ∈ lines ↔ triples nquad := by
  constructor
  · rintro ⟨response, hresponse, htriples⟩
    obtain rfl := LocalGetOutcome.completed.inj (Except.ok.inj hresponse)
    exact htriples
  · intro htriples
    exact ⟨_, rfl, htriples⟩

/-- CODE BUG (local get): the command finds what is held, or else what the version before has, if
    and only if one asset is asked for, the repositories of the version before have nothing that
    differs, and the contract is not one of that version. -/
theorem finds_iff (service : TripleStoreService) (context : LocalGetContext) (data : LocalGetData)
    (assertionId : String) (hV0 : data.isOperationV0 = false)
    (hassertion : data.assertion = some assertionId) :
    Finds service context data assertionId ↔ FindsWhen service context data assertionId := by
  cases hread : data.paranetRead with
  | some paranetUAL =>
    have hexecute : execute service context data =
        executeParanet service context data paranetUAL := by
      rw [execute, hread]
    have hcontinued : execute service context data ≠ .ok .continued := by
      rw [hexecute]
      exact executeParanet_ne_continued
    simp only [Finds, FindsWhen, hread, ← completesWith_executeParanet_iff, ← hexecute]
    by_cases hheld : Held context data <;>
      by_cases hv6 : v6Assertion service context assertionId = [] <;>
      simp [hheld, hv6, hcontinued]
  | none =>
    simp only [Finds, FindsWhen, hread]
    cases hasset : data.knowledgeAssetId with
    | none =>
      have hexecute : execute service context data =
          .error "Cannot read properties of undefined (reading 'endTokenId')" := by
        simp only [execute, hread, hassertion, assertionById_collection hV0 hasset]
        rfl
      refine iff_of_false ?_ fun h => h.1 rfl
      rintro ⟨hfound, helse⟩
      rw [hexecute] at hfound helse
      by_cases hheld : Held context data
      · obtain ⟨response, hresponse, -⟩ := hfound hheld
        cases hresponse
      · by_cases hv6 : v6Assertion service context assertionId = []
        · cases (helse hheld).2 hv6
        · obtain ⟨response, hresponse, -⟩ := (helse hheld).1 hv6
          cases hresponse
    | some id =>
      obtain ⟨metadata, hexecute⟩ := execute_asset hV0 hread hassertion hasset
      rw [hexecute]
      by_cases hv6 : v6Assertion service context assertionId = []
      · rw [if_pos hv6, if_pos hv6]
        constructor
        · rintro ⟨hfound, -⟩
          refine ⟨nofun, ?_⟩
          intro hheld
          obtain ⟨response, hresponse, -⟩ := hfound hheld
          cases hresponse
        · rintro ⟨-, hnot⟩
          exact ⟨fun hheld => absurd hheld hnot, fun _ => ⟨fun hne => absurd hv6 hne, fun _ => rfl⟩⟩
      · rw [if_neg hv6, if_neg hv6]
        obtain ⟨line, hline⟩ := List.exists_mem_of_ne_nil _ hv6
        cases hcontract : data.isV6Contract with
        | true =>
          -- The response is the spread of an array, which has neither part.
          refine iff_of_false ?_ fun h => Bool.noConfusion h.2.1
          rw [if_pos rfl, completesWith_text_iff, completesWith_text_iff]
          rintro ⟨hfound, helse⟩
          by_cases hheld : Held context data
          · obtain ⟨nquad, hnquad⟩ := hheld
            exact List.not_mem_nil ((hfound ⟨nquad, hnquad⟩ nquad).mpr hnquad)
          · exact List.not_mem_nil (((helse hheld).1 hv6 line).mpr hline)
        | false =>
          rw [if_neg Bool.false_ne_true, completesWith_text_iff, completesWith_text_iff]
          constructor
          · rintro ⟨hfound, -⟩
            exact ⟨nofun, rfl, hfound⟩
          · rintro ⟨-, -, hsame⟩
            exact ⟨hsame, fun _ => ⟨fun _ _ => Iff.rfl, fun hnone => absurd hnone hv6⟩⟩

/-- A node that has one asset in the repository of the current version, and nothing elsewhere. -/
def migratedContext : LocalGetContext where
  dkg := NamedGraphs.insertAll (fun _ => ∅) twoAssetQueries
  paranet := fun _ _ => ∅
  privateCurrent := fun _ => ∅
  publicCurrent := fun _ => ∅
  deriveUAL := fun blockchain contract id _ => collectionUAL blockchain contract id
  getParanetRepositoryName := fun paranetUAL => .ok ("paranet-" ++ paranetUAL)
  getKnowledgeAssetsRange := .ok ⟨1, 2, []⟩

/-- A get of the second asset, or of the collection, with an assertion id. -/
def secondAssetGet (knowledgeAssetId : Option ℕ) : LocalGetData where
  blockchain := "otp:2043"
  contract := "0xa"
  knowledgeCollectionId := 1
  knowledgeAssetId := knowledgeAssetId
  contentType := .all
  includeMetadata := false
  assertionId := some "0xb"
  isOperationV0 := false
  isV6Contract := true
  paranetUAL := none
  paranetSync := false
  noBlank := by decide

theorem finds_iff_secondAsset :
    Finds sortingService migratedContext (secondAssetGet (some 2)) "0xb" ↔
      FindsWhen sortingService migratedContext (secondAssetGet (some 2)) "0xb" :=
  finds_iff sortingService migratedContext (secondAssetGet (some 2)) "0xb" rfl (by decide)

/-- COUNTEREXAMPLE: the asset is in the repository, and the command goes on to the network. -/
theorem not_finds_secondAsset :
    Requested migratedContext (secondAssetGet (some 2)) "<b> <p> <o> ." ∧
      execute sortingService migratedContext (secondAssetGet (some 2)) = .ok .continued ∧
      ¬ Finds sortingService migratedContext (secondAssetGet (some 2)) "0xb" := by
  have hrequested : Requested migratedContext (secondAssetGet (some 2)) "<b> <p> <o> ." :=
    ⟨by decide, 2, by decide, .inl ⟨by decide, by decide⟩⟩
  have hnone : ∀ namedGraphs, sortingService.linesOf (fun _ => ∅) namedGraphs = [] :=
    fun namedGraphs => linesOf_eq_nil writesLines_sortingService fun _ _ _ hnquad =>
      absurd hnquad (Finset.notMem_empty _)
  have hv6 : v6Assertion sortingService migratedContext "0xb" = [] := by
    simp [v6Assertion, getV6Assertion, migratedContext, hnone]
  have hcontinued : execute sortingService migratedContext (secondAssetGet (some 2)) =
      .ok .continued := by
    obtain ⟨metadata, hexecute⟩ := @execute_asset sortingService migratedContext
      (secondAssetGet (some 2)) "0xb" rfl rfl (by decide) 2 rfl
    rw [hexecute, if_pos hv6]
  refine ⟨hrequested, hcontinued, ?_⟩
  intro hfinds
  obtain ⟨response, hresponse, -⟩ := hfinds.1 ⟨_, hrequested⟩
  rw [hcontinued] at hresponse
  cases hresponse

end LocalGet

end OtNode
