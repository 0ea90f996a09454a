import OtNode.TripleStore.NamedGraphs

/-! The forms in which an asset is asked for.

    What is passed for the asset decides how it is read. A range of ids is read like a collection. A
    string goes to the query of one graph, in whose place for the visibility it ends up, and a
    number is read like a range, of which it has neither the start nor the end. -/

namespace OtNode

/-- What is passed as `knowledgeAssetId`. -/
inductive KnowledgeAssetId where
  | undefined
  | string (id : String)
  | number (id : ℕ)
  | range (tokenIds : TokenIds)

/-- What `getAssertion` resolves to: the parts of an assertion, or one text, given by its lines. -/
inductive GetResult where
  | assertion (assertion : Assertion)
  | text (lines : List String)
  deriving DecidableEq

/-- The visibility of a value. -/
def visibilityOf (value : String) : Option TriplesVisibility :=
  if value = TriplesVisibility.ofPublic.value then some .ofPublic
  else if value = TriplesVisibility.ofPrivate.value then some .ofPrivate
  else if value = TriplesVisibility.all.value then some .all
  else none

/-- The UAL of a collection. -/
def collectionUAL (blockchain contract : String) (knowledgeCollectionId : ℕ) : String :=
  "did:dkg:" ++ blockchain ++ "/" ++ contract ++ "/" ++ toString knowledgeCollectionId

namespace TripleStoreService

variable (service : TripleStoreService) (store : NamedGraphs)

/-- The lines of the text that a `CONSTRUCT` over the graphs answers with, without the empty ones.
    -/
def linesOf (namedGraphs : List String) : List String :=
  (service.nquadLines (store.triplesOf namedGraphs)).filter (· ≠ "")

/-- The ids of `Array.from`: a number has no end, and the length of the array is then no number. -/
def namedGraphIds : KnowledgeAssetId → Except String (List ℕ)
  | .undefined => .error "Cannot read properties of undefined (reading 'endTokenId')"
  | .string _ => .ok []
  | .number _ => .ok []
  | .range tokenIds => .ok (TokenIds.ids tokenIds)

/-- `getKnowledgeCollectionNamedGraphs`, with its texts split into lines. -/
def getKnowledgeCollectionNamedGraphs (ual : String) (tokenIds : KnowledgeAssetId)
    (visibility : TriplesVisibility) : Except String Assertion :=
  (namedGraphIds tokenIds).map fun ids =>
    { publicTriples := if visibility.asksPublic then some (service.linesOf store
        (ids.map fun id => graphName (assetUAL ual id) .ofPublic)) else none
      privateTriples := if visibility.asksPrivate then some (service.linesOf store
        (ids.map fun id => graphName (assetUAL ual id) .ofPrivate)) else none }

/-- `getKnowledgeAssetNamedGraph`, of the store. -/
def getKnowledgeAssetNamedGraph (ual visibility : String) : Except String (List String) :=
  match visibilityOf visibility with
  | some .all => .ok (service.linesOf store [graphName ual .ofPublic, graphName ual .ofPrivate])
  | some visibility => .ok (service.linesOf store [graphName ual visibility])
  | none => .error s!"Unsupported visibility: {visibility}"

/-- `getAssertion`. The module manager takes the fourth argument of `getKnowledgeAssetNamedGraph`
    for the visibility, and the service passes the id there. -/
def getAssertionOf (blockchain contract : String) (knowledgeCollectionId : ℕ)
    (knowledgeAssetId : KnowledgeAssetId) (visibility : TriplesVisibility := .ofPublic) :
    Except String GetResult :=
  let ual := collectionUAL blockchain contract knowledgeCollectionId
  match knowledgeAssetId with
  | .string id =>
    (service.getKnowledgeAssetNamedGraph store (ual ++ "/" ++ id) id).map GetResult.text
  | _ => (service.getKnowledgeCollectionNamedGraphs store ual knowledgeAssetId visibility).map
      GetResult.assertion

end TripleStoreService

/-- The forms in which a caller passes the id of an asset. -/
inductive IdForm where | ofString | ofNumber | ofRange
  deriving DecidableEq

/-- The id of an asset in a form. -/
def IdForm.id (k : ℕ) : IdForm → KnowledgeAssetId
  | .ofString => .string (toString k)
  | .ofNumber => .number k
  | .ofRange => .range ⟨k, k, []⟩

/-- A part of the result is what the same part of the collection has of a graph. -/
def SamePart (graph : Finset String) : Option (List String) → Option (List String) → Prop
  | none, none => True
  | some single, some collection =>
    ∀ nquad, nquad ∈ single ↔ nquad ∈ collection ∧ nquad ∈ graph
  | _, _ => False

/-- The result holds the triples of an asset that the result for its collection has. -/
def HoldsAsset (store : NamedGraphs) (assetUAL : String) (collection : Assertion) :
    Except String GetResult → Prop
  | .ok (.assertion assertion) =>
    SamePart (store (graphName assetUAL .ofPublic)) assertion.publicTriples
        collection.publicTriples ∧
      SamePart (store (graphName assetUAL .ofPrivate)) assertion.privateTriples
        collection.privateTriples
  | _ => False

/-- The graph has no triple. The empty line is none. -/
def NamedGraphs.HoldsNothing (store : NamedGraphs) (graph : String) : Prop :=
  ∀ nquad ∈ store graph, nquad = ""

theorem NamedGraphs.holdsNothing_iff {store : NamedGraphs} {graph : String} :
    store.HoldsNothing graph ↔ ∀ nquad, nquad ≠ "" → nquad ∉ store graph :=
  forall_congr' fun _ => not_imp_not.symm.trans Iff.rfl

/-- None of the graphs of the asset that the visibility asks for has a triple. -/
def NothingAsked (store : NamedGraphs) (assetUAL : String) (visibility : TriplesVisibility) : Prop :=
  (visibility.asksPublic = true → store.HoldsNothing (graphName assetUAL .ofPublic)) ∧
    (visibility.asksPrivate = true → store.HoldsNothing (graphName assetUAL .ofPrivate))

namespace TripleStoreService

variable {service : TripleStoreService} {store : NamedGraphs}

theorem mem_linesOf (hlines : service.WritesLines) {namedGraphs : List String} {nquad : String} :
    nquad ∈ service.linesOf store namedGraphs ↔
      nquad ≠ "" ∧ ∃ graph ∈ namedGraphs, nquad ∈ store graph := by
  rw [linesOf, List.mem_filter, decide_eq_true_eq, and_comm]
  refine and_congr_right ?_
  intro hne
  rw [hlines _ _ hne, NamedGraphs.triplesOf]
  simp

theorem linesOf_eq_nil (hlines : service.WritesLines) {namedGraphs : List String}
    (h : ∀ graph ∈ namedGraphs, store.HoldsNothing graph) :
    service.linesOf store namedGraphs = [] := by
  rw [List.eq_nil_iff_forall_not_mem]
  intro nquad hnquad
  obtain ⟨hne, graph, hgraph, hmem⟩ := (mem_linesOf hlines).mp hnquad
  exact hne (h graph hgraph nquad hmem)

/-- The lines for a list of ids are the triples of the graphs of the assets. -/
theorem mem_linesOf_map (hlines : service.WritesLines) {ual : String} {ids : List ℕ}
    {visibility : TriplesVisibility} {nquad : String} :
    nquad ∈ service.linesOf store (ids.map fun id => graphName (assetUAL ual id) visibility) ↔
      nquad ≠ "" ∧ ∃ id ∈ ids, nquad ∈ store (graphName (assetUAL ual id) visibility) := by
  rw [mem_linesOf hlines]
  simp only [List.mem_map, exists_exists_and_eq_and]

/-- No id of an asset is a visibility. -/
theorem visibilityOf_toString (k : ℕ) : visibilityOf (toString k) = none := by
  have hne : ∀ visibility : TriplesVisibility, toString k ≠ visibility.value := by
    intro visibility heq
    exact getLast?_toString_ne k visibility (by rw [heq])
  rw [visibilityOf, if_neg (hne .ofPublic), if_neg (hne .ofPrivate), if_neg (hne .all)]

/-- A part read for some ids is that of the asset where the ids are the one id, or where they are
    none and the asset has nothing in the part. -/
theorem samePart_iff (hlines : service.WritesLines) {ual : String} (ids : List ℕ)
    {collection : List ℕ} {k : ℕ}
    (hk : k ∈ collection) {visibility : TriplesVisibility} {asks : Bool} :
    SamePart (store (graphName (assetUAL ual k) visibility))
        (if asks then some (service.linesOf store
          (ids.map fun id => graphName (assetUAL ual id) visibility)) else none)
        (if asks then some (service.linesOf store
          (collection.map fun id => graphName (assetUAL ual id) visibility)) else none) ↔
      (asks = true → ∀ nquad, nquad ≠ "" →
        ((∃ id ∈ ids, nquad ∈ store (graphName (assetUAL ual id) visibility)) ↔
          nquad ∈ store (graphName (assetUAL ual k) visibility))) := by
  cases asks with
  | false => exact iff_of_true trivial nofun
  | true =>
    rw [if_pos rfl, if_pos rfl]
    simp only [SamePart, mem_linesOf_map hlines, forall_const]
    refine forall_congr' ?_
    intro nquad
    constructor
    · intro h hne
      constructor
      · intro hids
        exact (h.mp ⟨hne, hids⟩).2
      · intro hgraph
        exact (h.mpr ⟨⟨hne, k, hk, hgraph⟩, hgraph⟩).2
    · intro h
      constructor
      · rintro ⟨hne, hids⟩
        have hgraph := (h hne).mp hids
        exact ⟨⟨hne, k, hk, hgraph⟩, hgraph⟩
      · rintro ⟨⟨hne, -⟩, hgraph⟩
        exact ⟨hne, (h hne).mpr hgraph⟩

/-- CODE BUG (forms): the result for an asset is what the collection has of it if and only if the id
    is passed as a range, or as a number of an asset that has nothing in the graphs that are asked
    for. -/
theorem holdsAsset_getAssertionOf_iff (service : TripleStoreService) (hlines : service.WritesLines)
    (store : NamedGraphs) (blockchain contract : String) (knowledgeCollectionId : ℕ)
    (tokenIds : TokenIds) (k : ℕ) (hk : k ∈ TokenIds.ids tokenIds) (visibility : TriplesVisibility)
    (form : IdForm) :
    let ual := assetUAL (collectionUAL blockchain contract knowledgeCollectionId) k
    HoldsAsset store ual (service.getAssertion store blockchain contract knowledgeCollectionId
        tokenIds visibility) (service.getAssertionOf store blockchain contract
          knowledgeCollectionId (form.id k) visibility) ↔
      form = .ofRange ∨ (form = .ofNumber ∧ NothingAsked store ual visibility) := by
  intro ual
  cases form with
  | ofString =>
    have herror : service.getAssertionOf store blockchain contract knowledgeCollectionId
        (IdForm.ofString.id k) visibility = .error s!"Unsupported visibility: {toString k}" := by
      rw [IdForm.id, getAssertionOf, getKnowledgeAssetNamedGraph, visibilityOf_toString]
      rfl
    rw [herror]
    exact iff_of_false id (by simp)
  | ofNumber =>
    refine (and_congr (samePart_iff hlines [] hk) (samePart_iff hlines [] hk)).trans ?_
    simp only [NothingAsked, NamedGraphs.holdsNothing_iff, reduceCtorEq, false_or, true_and,
      List.not_mem_nil, false_and, exists_false, false_iff, ual]
  | ofRange =>
    refine iff_of_true ?_ (.inl rfl)
    have hone : TokenIds.ids ⟨k, k, []⟩ = [k] := by
      simp [TokenIds.ids]
    refine (and_congr (samePart_iff hlines (TokenIds.ids ⟨k, k, []⟩) hk)
      (samePart_iff hlines (TokenIds.ids ⟨k, k, []⟩) hk)).mpr ?_
    rw [hone]
    constructor <;>
    · intro _ nquad _
      simp

theorem writesLines_sortingService : sortingService.WritesLines := fun _ _ _ => Finset.mem_sort _

theorem holdsAsset_getAssertionOf_iff_second :
    HoldsAsset (NamedGraphs.insertAll (fun _ => ∅) twoAssetQueries)
        (assetUAL (collectionUAL "otp:2043" "0xa" 1) 2)
        (sortingService.getAssertion (NamedGraphs.insertAll (fun _ => ∅) twoAssetQueries) "otp:2043"
          "0xa" 1 ⟨1, 2, []⟩ .all)
        (sortingService.getAssertionOf (NamedGraphs.insertAll (fun _ => ∅) twoAssetQueries)
          "otp:2043" "0xa" 1 (IdForm.ofNumber.id 2) .all) ↔
      IdForm.ofNumber = .ofRange ∨ (IdForm.ofNumber = .ofNumber ∧
        NothingAsked (NamedGraphs.insertAll (fun _ => ∅) twoAssetQueries)
          (assetUAL (collectionUAL "otp:2043" "0xa" 1) 2) .all) :=
  holdsAsset_getAssertionOf_iff sortingService writesLines_sortingService _ "otp:2043" "0xa" 1
    ⟨1, 2, []⟩ 2 (by decide) .all .ofNumber

/-- COUNTEREXAMPLE: with the id as a string the call throws, though the asset is stored. -/
theorem not_holdsAsset_string :
    "<b> <p> <o> ." ∈ NamedGraphs.insertAll (fun _ => ∅) twoAssetQueries
        (graphName (assetUAL (collectionUAL "otp:2043" "0xa" 1) 2) .ofPublic) ∧
      sortingService.getAssertionOf (NamedGraphs.insertAll (fun _ => ∅) twoAssetQueries) "otp:2043"
        "0xa" 1 (IdForm.ofString.id 2) .all = .error "Unsupported visibility: 2" ∧
      ¬ HoldsAsset (NamedGraphs.insertAll (fun _ => ∅) twoAssetQueries)
        (assetUAL (collectionUAL "otp:2043" "0xa" 1) 2)
        (sortingService.getAssertion (NamedGraphs.insertAll (fun _ => ∅) twoAssetQueries) "otp:2043"
          "0xa" 1 ⟨1, 2, []⟩ .all)
        (sortingService.getAssertionOf (NamedGraphs.insertAll (fun _ => ∅) twoAssetQueries)
          "otp:2043" "0xa" 1 (IdForm.ofString.id 2) .all) := by
  have herror : sortingService.getAssertionOf (NamedGraphs.insertAll (fun _ => ∅) twoAssetQueries)
      "otp:2043" "0xa" 1 (IdForm.ofString.id 2) .all = .error "Unsupported visibility: 2" := rfl
  refine ⟨by decide, herror, ?_⟩
  rw [herror]
  exact id

end TripleStoreService

end OtNode
