import OtNode.Lib.Align
import OtNode.TripleStore.NamedGraphs

/-! Private triples in the graphs of their assets.

    The UALs of the private groups and the groups themselves are two lists that are paired by index.
    A group without an asset has no UAL but keeps its place among the groups, so every UAL after it
    is paired with the group before its own. -/

namespace OtNode

open Align

namespace TripleStoreService

variable (service : TripleStoreService)

/-- The index that the loop over the private groups looks up for one of them. -/
def ualIndex (publicGroups : List (List String)) (group : List String) : Option ℕ :=
  (publicSubjectMap publicGroups (groupSubject group)).or
    (publicSubjectMap publicGroups (service.hashedSubject (groupSubject group)))

/-- The asset of a private group: the one of its subject, or else the one of its hashed subject. -/
def IsAssetOf (publicGroups : List (List String)) (index : ℕ) (group : List String) : Prop :=
  ∃ publicGroup, publicGroups[index]? = some publicGroup ∧
    (groupSubject publicGroup = groupSubject group ∨
      groupSubject publicGroup = service.hashedSubject (groupSubject group) ∧
        ∀ other ∈ publicGroups, groupSubject other ≠ groupSubject group)

/-- The private group has an asset. -/
def HasAsset (publicGroups : List (List String)) (group : List String) : Prop :=
  ∃ index, service.IsAssetOf publicGroups index group

/-- The inserts into private graphs are those of the private groups with an asset, each into the
    graph of that asset. -/
def PrivateGroupsLand (store : NamedGraphs) (ual : String) (triples : CollectionTriples) : Prop :=
  ∀ privateUAL group,
    ⟨graphName privateUAL .ofPrivate, group⟩ ∈ service.insertKnowledgeCollection store ual triples ↔
      group ∈ service.groupNquadsBySubject triples.privateTriples ∧
        ∃ index, privateUAL = assetUAL ual (index + 1) ∧
          service.IsAssetOf (service.publicGroups triples.publicTriples) index group

/-! ### The asset of a group -/

/-- The map finds the group of the subject, where the groups have different ones. -/
theorem publicSubjectMap_eq_some {groups : List (List String)}
    (hnodup : (groups.map groupSubject).Nodup) {name : String} {index : ℕ} :
    publicSubjectMap groups name = some index ↔
      ∃ group, groups[index]? = some group ∧ groupSubject group = name := by
  rw [publicSubjectMap, Option.map_eq_some_iff]
  constructor
  · rintro ⟨⟨group, i⟩, hfind, rfl⟩
    have hmem := List.mem_reverse.mp (List.mem_of_find?_eq_some hfind)
    have hname := List.find?_some hfind
    exact ⟨group, List.mem_zipIdx_iff_getElem?.mp hmem, by simpa using hname⟩
  · rintro ⟨group, hgroup, hname⟩
    cases hfind : groups.zipIdx.reverse.find? fun group => groupSubject group.1 == name with
    | none =>
      have hnone := List.find?_eq_none.mp hfind (group, index)
        (List.mem_reverse.mpr (List.mem_zipIdx_iff_getElem?.mpr hgroup))
      exact absurd (by simpa using hname) hnone
    | some found =>
      have hmem := List.mem_zipIdx_iff_getElem?.mp
        (List.mem_reverse.mp (List.mem_of_find?_eq_some hfind))
      have hfound := List.find?_some hfind
      refine ⟨found, rfl, ?_⟩
      -- Both are the place of the one subject.
      have hplace : (groups.map groupSubject)[found.2]? = (groups.map groupSubject)[index]? := by
        rw [List.getElem?_map, List.getElem?_map, hmem, hgroup, Option.map_some, Option.map_some,
          hname]
        simpa using hfound
      have hlt : found.2 < (groups.map groupSubject).length := by
        obtain ⟨hlt, -⟩ := List.getElem?_eq_some_iff.mp hmem
        simpa using hlt
      exact (List.getElem?_inj hlt hnodup).mp hplace

theorem publicSubjectMap_eq_none {groups : List (List String)}
    (hnodup : (groups.map groupSubject).Nodup) {name : String} :
    publicSubjectMap groups name = none ↔ ∀ group ∈ groups, groupSubject group ≠ name := by
  constructor
  · intro hnone group hgroup hname
    obtain ⟨index, hindex⟩ := List.mem_iff_getElem?.mp hgroup
    have hsome := (publicSubjectMap_eq_some hnodup).mpr ⟨group, hindex, hname⟩
    rw [hnone] at hsome
    cases hsome
  · intro hother
    cases hmap : publicSubjectMap groups name with
    | none => rfl
    | some index =>
      obtain ⟨group, hgroup, hname⟩ := (publicSubjectMap_eq_some hnodup).mp hmap
      exact absurd hname (hother group (List.mem_of_getElem? hgroup))

/-- The loop looks up the asset of the group. -/
theorem ualIndex_eq_some {groups : List (List String)}
    (hnodup : (groups.map groupSubject).Nodup) {group : List String} {index : ℕ} :
    service.ualIndex groups group = some index ↔ service.IsAssetOf groups index group := by
  rw [ualIndex, Option.or_eq_some_iff, publicSubjectMap_eq_some hnodup,
    publicSubjectMap_eq_some hnodup, publicSubjectMap_eq_none hnodup]
  constructor
  · rintro (⟨found, hfound, hname⟩ | ⟨hother, found, hfound, hname⟩)
    · exact ⟨found, hfound, .inl hname⟩
    · exact ⟨found, hfound, .inr ⟨hname, hother⟩⟩
  · rintro ⟨found, hfound, hname | ⟨hname, hother⟩⟩
    · exact .inl ⟨found, hfound, hname⟩
    · exact .inr ⟨hother, found, hfound, hname⟩

theorem isSome_ualIndex {groups : List (List String)}
    (hnodup : (groups.map groupSubject).Nodup) {group : List String} :
    (service.ualIndex groups group).isSome ↔ service.HasAsset groups group := by
  rw [Option.isSome_iff_exists]
  exact exists_congr fun index => service.ualIndex_eq_some hnodup

/-! ### The inserts -/

theorem GroupsBySubject.nil {service : TripleStoreService} (h : service.GroupsBySubject) :
    service.groupNquadsBySubject [] = [] := by
  rw [List.eq_nil_iff_forall_not_mem]
  intro group hgroup
  obtain ⟨nquad, hnquad, -⟩ := (h []).exists_mem hgroup
  exact List.not_mem_nil (((h []).mem nquad).mp ⟨group, hgroup, hnquad⟩)

/-- The queries for a collection whose graphs are not in the store. -/
theorem insertKnowledgeCollection_of_new {service : TripleStoreService} (h : service.GroupsBySubject)
    {store : NamedGraphs} {ual : String} {triples : CollectionTriples}
    (hnew : store.knowledgeCollectionNamedGraphsExist ual = false) :
    let groups := service.publicGroups triples.publicTriples
    let privateGroups := service.groupNquadsBySubject triples.privateTriples
    service.insertKnowledgeCollection store ual triples =
      (createKnowledgeCollectionNamedGraphs (assetUALs ual groups) groups .ofPublic ++
        createKnowledgeCollectionNamedGraphs (service.privateUALs ual groups privateGroups)
          privateGroups .ofPrivate) ++
        [insertKnowledgeCollectionMetadata ((assetUALs ual groups).map metadataTriple)] := by
  intro groups privateGroups
  rw [insertKnowledgeCollection, hnew, if_neg Bool.false_ne_true]
  by_cases hnone : triples.privateTriples = []
  · have hnil : privateGroups = [] := by
      rw [← h.nil, ← hnone]
    rw [if_pos hnone, hnil, createKnowledgeCollectionNamedGraphs,
      createKnowledgeCollectionNamedGraphs, List.zip_nil_right]
    rfl
  · rw [if_neg hnone]

/-- The inserts into private graphs are the pairs by index. -/
theorem mem_privateInserts (h : service.GroupsBySubject) {store : NamedGraphs}
    {ual privateUAL : String} {triples : CollectionTriples} {group : List String}
    (hnew : store.knowledgeCollectionNamedGraphsExist ual = false) :
    ⟨graphName privateUAL .ofPrivate, group⟩ ∈ service.insertKnowledgeCollection store ual triples ↔
      ∃ index, privateUAL = assetUAL ual (index + 1) ∧
        (index, group) ∈ pairs (service.ualIndex (service.publicGroups triples.publicTriples))
          (service.groupNquadsBySubject triples.privateTriples) := by
  have huals : service.privateUALs ual (service.publicGroups triples.publicTriples)
      (service.groupNquadsBySubject triples.privateTriples) =
        ((service.groupNquadsBySubject triples.privateTriples).filterMap
          (service.ualIndex (service.publicGroups triples.publicTriples))).map
            fun index => assetUAL ual (index + 1) := by
    rw [List.map_filterMap]
    rfl
  rw [insertKnowledgeCollection_of_new h hnew, huals]
  simp only [List.mem_append, List.mem_singleton, mem_createKnowledgeCollectionNamedGraphs]
  constructor
  · rintro ((⟨ual', group', -, heq⟩ | ⟨ual', group', hzip, heq⟩) | heq)
    · exact absurd (congrArg InsertData.graph heq) graphName_private_ne
    · obtain ⟨hgraph, rfl⟩ := InsertData.mk.inj heq
      obtain rfl := graphName_injective hgraph
      rw [List.zip_map_left, List.mem_map] at hzip
      obtain ⟨⟨index, group'⟩, hpair, heq⟩ := hzip
      obtain ⟨rfl, rfl⟩ := Prod.mk.inj heq
      exact ⟨index, rfl, hpair⟩
    · exact absurd (congrArg InsertData.graph heq) graphName_ne_metadataGraph
  · rintro ⟨index, rfl, hpair⟩
    refine .inl (.inr ⟨_, group, ?_, rfl⟩)
    rw [List.zip_map_left]
    exact List.mem_map.mpr ⟨(index, group), hpair, rfl⟩

/-- With the graphs of the collection in the store, nothing but metadata is inserted. -/
theorem not_mem_privateInserts {store : NamedGraphs} {ual privateUAL : String}
    {triples : CollectionTriples} {group : List String}
    (hexists : store.knowledgeCollectionNamedGraphsExist ual = true) :
    ⟨graphName privateUAL .ofPrivate, group⟩ ∉
      service.insertKnowledgeCollection store ual triples := by
  intro hmem
  rw [insertKnowledgeCollection, hexists, if_pos rfl, List.nil_append, List.mem_singleton] at hmem
  exact graphName_ne_metadataGraph (congrArg InsertData.graph hmem)

/-- CODE BUG (private groups): the private groups land in the graphs of their own assets if and only
    if those without an asset come after all that have one. Nothing lands where the collection is in
    the store. -/
theorem privateGroupsLand_iff (hgroups : service.GroupsBySubject) (store : NamedGraphs)
    (ual : String) (triples : CollectionTriples) :
    let groups := service.publicGroups triples.publicTriples
    let privateGroups := service.groupNquadsBySubject triples.privateTriples
    service.PrivateGroupsLand store ual triples ↔
      if store.knowledgeCollectionNamedGraphsExist ual then
        ∀ group ∈ privateGroups, ¬ service.HasAsset groups group
      else privateGroups.Pairwise fun group group' =>
        service.HasAsset groups group' → service.HasAsset groups group := by
  intro groups privateGroups
  have hnodup : (groups.map groupSubject).Nodup :=
    (groupedBySubject_publicGroups hgroups triples.publicTriples).nodup_subjects
  cases hexists : store.knowledgeCollectionNamedGraphsExist ual with
  | true =>
    rw [if_pos rfl]
    constructor
    · rintro hland group hgroup ⟨index, hasset⟩
      exact service.not_mem_privateInserts hexists
        ((hland (assetUAL ual (index + 1)) group).mpr ⟨hgroup, index, rfl, hasset⟩)
    · intro hnone privateUAL group
      constructor
      · intro hmem
        exact absurd hmem (service.not_mem_privateInserts hexists)
      · rintro ⟨hgroup, index, -, hasset⟩
        exact absurd ⟨index, hasset⟩ (hnone group hgroup)
  | false =>
    rw [if_neg Bool.false_ne_true]
    have hblanks : privateGroups.Pairwise (fun group group' =>
        service.HasAsset groups group' → service.HasAsset groups group) ↔
          Aligned (service.ualIndex groups) privateGroups := by
      rw [aligned_iff, BlanksLast]
      simp only [service.isSome_ualIndex hnodup]
    rw [hblanks]
    constructor
    · intro hland index group
      rw [service.ualIndex_eq_some hnodup]
      constructor
      · intro hpair
        obtain ⟨hgroup, index', hual, hasset⟩ := (hland (assetUAL ual (index + 1)) group).mp
          ((service.mem_privateInserts hgroups hexists).mpr ⟨index, rfl, hpair⟩)
        obtain rfl := Nat.succ_injective (assetUAL_injective hual)
        exact ⟨hgroup, hasset⟩
      · rintro ⟨hgroup, hasset⟩
        obtain ⟨index', hual, hpair⟩ := (service.mem_privateInserts hgroups hexists).mp
          ((hland (assetUAL ual (index + 1)) group).mpr ⟨hgroup, index, rfl, hasset⟩)
        obtain rfl := Nat.succ_injective (assetUAL_injective hual)
        exact hpair
    · intro haligned privateUAL group
      rw [service.mem_privateInserts hgroups hexists]
      constructor
      · rintro ⟨index, rfl, hpair⟩
        obtain ⟨hgroup, hasset⟩ := (haligned index group).mp hpair
        exact ⟨hgroup, index, rfl, (service.ualIndex_eq_some hnodup).mp hasset⟩
      · rintro ⟨hgroup, index, rfl, hasset⟩
        exact ⟨index, rfl, (haligned index group).mpr
          ⟨hgroup, (service.ualIndex_eq_some hnodup).mpr hasset⟩⟩

/-- The assertion tools, with the hash of the subject `a`. -/
def hashingService : TripleStoreService :=
  { sortingService with
    sha256 := fun name => if name = "a" then
      "0xca978112ca1bbdcafac231b39a23dc4da786eff8147c4e72b9807785afee48bb" else name }

/-- One public asset, and private triples of a subject that is none before those of the asset. -/
def strayPrivateGroup : CollectionTriples where
  publicTriples := ["<b> <p> <o> ."]
  privateTriples := ["<a> <p> <s1> .", "<b> <p> <s2> ."]

theorem groupsBySubject_hashingService : hashingService.GroupsBySubject :=
  groupsBySubject_sortingService

theorem privateGroupsLand_iff_stray :
    hashingService.PrivateGroupsLand (fun _ => ∅) "did:dkg:otp:2043/0xa/1" strayPrivateGroup ↔
      if NamedGraphs.knowledgeCollectionNamedGraphsExist (fun _ => ∅) "did:dkg:otp:2043/0xa/1" then
        ∀ group ∈ hashingService.groupNquadsBySubject strayPrivateGroup.privateTriples,
          ¬ hashingService.HasAsset
            (hashingService.publicGroups strayPrivateGroup.publicTriples) group
      else (hashingService.groupNquadsBySubject strayPrivateGroup.privateTriples).Pairwise
        fun group group' =>
          hashingService.HasAsset (hashingService.publicGroups strayPrivateGroup.publicTriples)
            group' →
          hashingService.HasAsset (hashingService.publicGroups strayPrivateGroup.publicTriples)
            group :=
  hashingService.privateGroupsLand_iff groupsBySubject_hashingService (fun _ => ∅)
    "did:dkg:otp:2043/0xa/1" strayPrivateGroup

/-- COUNTEREXAMPLE: the triples of the stray subject land in the private graph of the asset. -/
theorem not_privateGroupsLand_stray : ¬ hashingService.PrivateGroupsLand (fun _ => ∅)
    "did:dkg:otp:2043/0xa/1" strayPrivateGroup := by
  intro hland
  have hinsert : (⟨graphName (assetUAL "did:dkg:otp:2043/0xa/1" 1) .ofPrivate,
      ["<a> <p> <s1> ."]⟩ : InsertData) ∈ hashingService.insertKnowledgeCollection (fun _ => ∅)
        "did:dkg:otp:2043/0xa/1" strayPrivateGroup := by decide
  obtain ⟨-, index, -, publicGroup, hpublic, hsubject⟩ := (hland _ _).mp hinsert
  have hgroups : hashingService.publicGroups strayPrivateGroup.publicTriples =
      [["<b> <p> <o> ."]] := by decide
  rw [hgroups] at hpublic
  obtain rfl : publicGroup = ["<b> <p> <o> ."] := by
    simpa using List.mem_of_getElem? hpublic
  rcases hsubject with hplain | ⟨hhashed, -⟩
  · exact absurd hplain (by decide)
  · exact absurd hhashed (by decide)

end TripleStoreService

end OtNode
