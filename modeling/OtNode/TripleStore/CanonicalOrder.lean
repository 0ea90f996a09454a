import Mathlib.Algebra.BigOperators.Group.List.Basic
import Mathlib.Data.List.Lex
import Mathlib.Data.List.Sort
import OtNode.Lib.Utf
import OtNode.TripleStore.NamedGraphs

/-! The order of a dataset under its merkle root.

    A publisher hashes the dataset in the order in which it was sent. A get splits the triples of
    private hashes off what it was sent, groups both parts by subject and sorts each group before it
    hashes. What comes out is the one order in which private hashes come last, then subjects are in
    order, and then triples, whatever order the triples came in. -/

namespace OtNode

open Utf

/-- What `sort` compares strings by: their UTF-16 code units. -/
def sortKey (s : String) : List ℕ := (unitsOf s).map UInt16.toNat

theorem sortKey_injective {s t : String} (h : sortKey s = sortKey t) : s = t :=
  unitsOf_injective (List.map_injective_iff.mpr (fun _ _ => UInt16.toNat_inj.mp) h)

/-- The order of `sort`. -/
def SortsBefore (s t : String) : Prop := sortKey s ≤ sortKey t

instance : DecidableRel SortsBefore := fun s t => inferInstanceAs (Decidable (sortKey s ≤ sortKey t))

instance : Std.Total SortsBefore := ⟨fun s t => le_total (sortKey s) (sortKey t)⟩

instance : IsTrans String SortsBefore := ⟨fun _ _ _ => le_trans⟩

instance : Std.Antisymm SortsBefore :=
  ⟨fun _ _ h h' => sortKey_injective (le_antisymm h h')⟩

/-- `t.sort()`. -/
def sortTriples (triples : List String) : List String := triples.insertionSort SortsBefore

namespace TripleStoreService

variable (service : TripleStoreService)

/-- `handleAck`: the order in which the public triples are validated. -/
def canonicalOrder (publicAssertion : List String) : List String :=
  ((service.publicGroups publicAssertion).map sortTriples).flatten

section Validation

variable {ρ : Type} [DecidableEq ρ] [ToString ρ] (calculateRoot : List String → ρ)

/-- `validateDatasetRoot`. -/
def validateDatasetRoot (dataset : List String) (datasetRoot : ρ) : Except String Unit :=
  let calculatedDatasetRoot := calculateRoot dataset
  if datasetRoot ≠ calculatedDatasetRoot then
    .error (s!"Merkle Root validation failed. Received Merkle Root: {datasetRoot}; " ++
      s!"Calculated Merkle Root: {calculatedDatasetRoot}")
  else .ok ()

/-- `validateDatasetOnBlockchain`, with the root that the blockchain has. -/
def validateDatasetOnBlockchain (assertion : List String) (blockchainAssertionRoot : ρ) :
    Except String Unit :=
  let knowledgeCollectionMerkleRoot := calculateRoot assertion
  if knowledgeCollectionMerkleRoot ≠ blockchainAssertionRoot then
    .error (s!"Merkle Root validation failed. Merkle Root on chain: {blockchainAssertionRoot}; " ++
      s!"Calculated Merkle Root: {knowledgeCollectionMerkleRoot}")
  else .ok ()

/-- The validation of the get accepts the triples of the dataset, in every order in which a triple
    store returns them. -/
def GetAccepts (dataset : List String) (root : ρ) : Prop :=
  ∀ returned : List String, returned.Nodup → (∀ nquad, nquad ∈ returned ↔ nquad ∈ dataset) →
    validateDatasetOnBlockchain calculateRoot (service.canonicalOrder returned) root = .ok ()

theorem validateDatasetRoot_eq_ok {dataset : List String} {root : ρ} :
    validateDatasetRoot calculateRoot dataset root = .ok () ↔ calculateRoot dataset = root := by
  rw [validateDatasetRoot]
  split_ifs with hne
  · exact iff_of_false nofun fun heq => hne heq.symm
  · exact iff_of_true rfl (not_not.mp hne).symm

theorem validateDatasetOnBlockchain_eq_ok {assertion : List String} {root : ρ} :
    validateDatasetOnBlockchain calculateRoot assertion root = .ok () ↔
      calculateRoot assertion = root := by
  rw [validateDatasetOnBlockchain]
  split_ifs with hne
  · exact iff_of_false nofun hne
  · exact iff_of_true rfl (not_not.mp hne)

end Validation

/-- The assertion tools group by subject, and sort the groups by it. -/
structure SortsBySubject (subjectLe : String → String → Prop) : Prop where
  antisymm : ∀ {a b}, subjectLe a b → subjectLe b a → a = b
  perm : ∀ nquads, (service.groupNquadsBySubject nquads).flatten.Perm nquads
  same : ∀ nquads, ∀ group ∈ service.groupNquadsBySubject nquads,
    ∀ nquad ∈ group, ∀ nquad' ∈ group, subject nquad = subject nquad'
  sorted : ∀ nquads, (service.groupNquadsBySubject nquads).Pairwise fun group group' =>
    ∀ nquad ∈ group, ∀ nquad' ∈ group', subject nquad ≠ subject nquad' ∧
      subjectLe (subject nquad) (subject nquad')

/-- The order of two triples of one of the parts: by subject, then as strings. -/
def BySubject (subjectLe : String → String → Prop) (a b : String) : Prop :=
  (subject a ≠ subject b ∧ subjectLe (subject a) (subject b)) ∨
    (subject a = subject b ∧ SortsBefore a b)

/-- The order of two triples: those of private hashes last, and each part by subject. -/
def Precedes (subjectLe : String → String → Prop) (a b : String) : Prop :=
  (isPrivateHash a = false ∧ isPrivateHash b = true) ∨
    (isPrivateHash a = isPrivateHash b ∧ BySubject subjectLe a b)

/-- The dataset has no triple twice, and its triples are in order. -/
def InOrder (subjectLe : String → String → Prop) (dataset : List String) : Prop :=
  dataset.Pairwise fun a b => a ≠ b ∧ Precedes subjectLe a b

variable {service} {subjectLe : String → String → Prop}

theorem precedes_antisymm (h : service.SortsBySubject subjectLe) {a b : String}
    (hab : Precedes subjectLe a b) (hba : Precedes subjectLe b a) : a = b := by
  rcases hab with ⟨ha, hb⟩ | ⟨hpart, hab⟩ <;> rcases hba with ⟨hb', ha'⟩ | ⟨hpart', hba⟩
  · rw [ha] at ha'
    cases ha'
  · rw [ha, hb] at hpart'
    cases hpart'
  · rw [ha', hb'] at hpart
    cases hpart
  · rcases hab with ⟨hne, hle⟩ | ⟨heq, hle⟩ <;> rcases hba with ⟨hne', hle'⟩ | ⟨heq', hle'⟩
    · exact absurd (h.antisymm hle hle') hne
    · exact absurd heq'.symm hne
    · exact absurd heq.symm hne'
    · exact antisymm hle hle'

/-- Each part comes out by subject. -/
theorem bySubject_groups (h : service.SortsBySubject subjectLe) (nquads : List String) :
    (((service.groupNquadsBySubject nquads).map sortTriples).flatten).Pairwise
      (BySubject subjectLe) := by
  rw [List.pairwise_flatten]
  constructor
  · intro sorted hsorted
    obtain ⟨group, hgroup, rfl⟩ := List.mem_map.mp hsorted
    refine (List.pairwise_insertionSort SortsBefore group).imp_of_mem ?_
    intro a b ha hb hle
    exact .inr ⟨h.same nquads group hgroup a ((List.mem_insertionSort _).mp ha) b
      ((List.mem_insertionSort _).mp hb), hle⟩
  · refine List.pairwise_map.mpr ((h.sorted nquads).imp ?_)
    intro group group' hsorted a ha b hb
    exact .inl (hsorted a ((List.mem_insertionSort _).mp ha) b ((List.mem_insertionSort _).mp hb))

theorem perm_map_sortTriples (groups : List (List String)) :
    (groups.map sortTriples).flatten.Perm groups.flatten := by
  induction groups with
  | nil => exact .refl _
  | cons group groups ih =>
    rw [List.map_cons, List.flatten_cons, List.flatten_cons]
    exact (List.perm_insertionSort _ group).append ih

/-- The canonical order is of the same triples. -/
theorem perm_canonicalOrder (h : service.SortsBySubject subjectLe) (nquads : List String) :
    (service.canonicalOrder nquads).Perm nquads := by
  refine (perm_map_sortTriples _).trans ?_
  rw [publicGroups, List.flatten_append]
  refine ((h.perm _).append (h.perm _)).trans (List.perm_append_comm.trans ?_)
  have hparts := List.filter_append_perm isPrivateHash nquads
  simpa using hparts

/-- What comes out is in order. -/
theorem precedes_canonicalOrder (h : service.SortsBySubject subjectLe) (nquads : List String) :
    (service.canonicalOrder nquads).Pairwise (Precedes subjectLe) := by
  have hpart : ∀ {part nquad}, nquad ∈ ((service.groupNquadsBySubject part).map sortTriples).flatten →
      nquad ∈ part := by
    intro part nquad hmem
    exact ((perm_map_sortTriples _).trans (h.perm part)).mem_iff.mp hmem
  rw [canonicalOrder, publicGroups, List.map_append, List.flatten_append, List.pairwise_append]
  refine ⟨?_, ?_, ?_⟩
  · refine (bySubject_groups h _).imp_of_mem fun {a b} ha hb hle => .inr ⟨?_, hle⟩
    have hplain := (List.mem_filter.mp (hpart ha)).2
    have hplain' := (List.mem_filter.mp (hpart hb)).2
    rw [Bool.not_eq_true'] at hplain hplain'
    rw [hplain, hplain']
  · refine (bySubject_groups h _).imp_of_mem fun {a b} ha hb hle => .inr ⟨?_, hle⟩
    rw [(List.mem_filter.mp (hpart ha)).2, (List.mem_filter.mp (hpart hb)).2]
  · intro a ha b hb
    have hplain := (List.mem_filter.mp (hpart ha)).2
    rw [Bool.not_eq_true'] at hplain
    exact .inl ⟨hplain, (List.mem_filter.mp (hpart hb)).2⟩

/-- A dataset in order is what comes out of its triples in any order. -/
theorem canonicalOrder_eq (h : service.SortsBySubject subjectLe) {dataset returned : List String}
    (horder : InOrder subjectLe dataset) (hnodup : returned.Nodup)
    (hsame : ∀ nquad, nquad ∈ returned ↔ nquad ∈ dataset) :
    service.canonicalOrder returned = dataset := by
  have hdataset : dataset.Nodup := horder.imp fun hne => hne.1
  have hperm : returned.Perm dataset := (List.perm_ext_iff_of_nodup hnodup hdataset).mpr hsame
  exact ((perm_canonicalOrder h returned).trans hperm).eq_of_pairwise
    (fun _ _ _ _ hab hba => precedes_antisymm h hab hba) (precedes_canonicalOrder h returned)
    (horder.imp fun hab => hab.2)

/-- No other list of the triples of a dataset, each of them once, has its root. -/
def TellsApart {ρ : Type} (calculateRoot : List String → ρ) (dataset : List String) : Prop :=
  ∀ nquads : List String, nquads.Nodup → (∀ nquad, nquad ∈ nquads ↔ nquad ∈ dataset) →
    calculateRoot nquads = calculateRoot dataset → nquads = dataset

/-- CODE BUG (roots): a published dataset is accepted by every get if it is in order, and, as long
    as no other list of its triples has its root, only then. -/
theorem getAccepts_iff_inOrder {ρ : Type} [DecidableEq ρ] [ToString ρ]
    (calculateRoot : List String → ρ) (h : service.SortsBySubject subjectLe)
    (dataset : List String) (root : ρ)
    (haccepted : validateDatasetRoot calculateRoot dataset root = .ok ()) :
    (InOrder subjectLe dataset → service.GetAccepts calculateRoot dataset root) ∧
      (TellsApart calculateRoot dataset → service.GetAccepts calculateRoot dataset root →
        InOrder subjectLe dataset) := by
  rw [validateDatasetRoot_eq_ok] at haccepted
  simp only [GetAccepts, validateDatasetOnBlockchain_eq_ok]
  constructor
  · intro horder returned hnodup hsame
    rw [canonicalOrder_eq h horder hnodup hsame, haccepted]
  · intro hapart haccepts
    have hroot := haccepts dataset.dedup dataset.nodup_dedup fun nquad => List.mem_dedup
    have hnodup := (perm_canonicalOrder h dataset.dedup).nodup_iff.mpr dataset.nodup_dedup
    have heq := hapart _ hnodup
      (fun _ => (perm_canonicalOrder h dataset.dedup).mem_iff.trans List.mem_dedup)
      (hroot.trans haccepted.symm)
    have hsorted := precedes_canonicalOrder h dataset.dedup
    rw [heq] at hnodup hsorted
    exact hnodup.and hsorted

/-! ### Tools that sort -/

/-- The triples by subject, for the subjects of a list. -/
def buckets (names nquads : List String) : List (List String) :=
  names.map fun name => nquads.filter (subject · = name)

theorem mem_buckets {names nquads group : List String} {nquad : String}
    (hgroup : group ∈ buckets names nquads) (hnquad : nquad ∈ group) :
    group = nquads.filter (subject · = subject nquad) := by
  obtain ⟨name, -, rfl⟩ := List.mem_map.mp hgroup
  obtain rfl : subject nquad = name := by simpa using (List.mem_filter.mp hnquad).2
  rfl

/-- A triple is in the bucket of its subject, as often as it is among the triples. -/
theorem flatten_buckets_perm {names nquads : List String} (hnodup : names.Nodup)
    (hsubjects : ∀ nquad ∈ nquads, subject nquad ∈ names) :
    (buckets names nquads).flatten.Perm nquads := by
  rw [List.perm_iff_count]
  intro nquad
  have hcount : ∀ name, (nquads.filter (subject · = name)).count nquad =
      if subject nquad = name then nquads.count nquad else 0 := by
    intro name
    split_ifs with hname
    · exact List.count_filter (by simpa using hname)
    · refine List.count_eq_zero_of_not_mem fun hmem => hname ?_
      simpa using (List.mem_filter.mp hmem).2
  rw [List.count_flatten, buckets, List.map_map]
  simp only [Function.comp_def, hcount]
  by_cases hmem : nquad ∈ nquads
  · have hname := hsubjects nquad hmem
    rw [List.sum_map_eq_nsmul_single (subject nquad) _ fun name hne _ => if_neg (Ne.symm hne),
      List.count_eq_one_of_mem hnodup hname, one_nsmul, if_pos rfl]
  · simp [List.count_eq_zero_of_not_mem hmem]

/-- A service whose tools sort the groups by subject. -/
def subjectService : TripleStoreService where
  groupNquadsBySubject nquads := buckets ((nquads.map subject).dedup.insertionSort SortsBefore) nquads
  sha256 := sortingService.sha256
  nquadLines := sortingService.nquadLines

theorem sortsBySubject_subjectService : subjectService.SortsBySubject SortsBefore where
  antisymm h h' := antisymm h h'
  perm nquads := by
    refine flatten_buckets_perm ?_ fun nquad hnquad => ?_
    · exact (List.perm_insertionSort _ _).nodup_iff.mpr (List.nodup_dedup _)
    · rw [List.mem_insertionSort, List.mem_dedup]
      exact List.mem_map_of_mem hnquad
  same nquads group hgroup nquad hnquad nquad' hnquad' := by
    rw [mem_buckets hgroup hnquad] at hnquad'
    simpa [eq_comm] using (List.mem_filter.mp hnquad').2
  sorted nquads := by
    have hnodup := (List.perm_insertionSort SortsBefore _).nodup_iff.mpr
      (List.nodup_dedup (nquads.map subject))
    refine List.pairwise_map.mpr ((hnodup.and (List.pairwise_insertionSort SortsBefore _)).imp ?_)
    rintro name name' ⟨hne, hle⟩ nquad hnquad nquad' hnquad'
    obtain rfl : subject nquad = name := by simpa using (List.mem_filter.mp hnquad).2
    obtain rfl : subject nquad' = name' := by simpa using (List.mem_filter.mp hnquad').2
    exact ⟨hne, hle⟩

/-- A checksum of the triples, in the form of a root: 32 bytes in hex. -/
def checksumRoot (nquads : List String) : String :=
  let checksum := (nquads.flatMap String.toList).foldl
    (fun sum c => (sum * 0x1000193 + c.toNat) % 2 ^ 256) 0x811c9dc5
  "0x" ++ String.ofList (List.leftpad 64 '0' (Nat.toDigits 16 checksum))

/-- A dataset of two assets, in the order of their subjects and not. -/
def sortedDataset : List String := ["<a> <p> <o> .", "<b> <p> <o> ."]

def unsortedDataset : List String := ["<b> <p> <o> .", "<a> <p> <o> ."]

theorem getAccepts_iff_inOrder_sorted :
    subjectService.GetAccepts checksumRoot sortedDataset (checksumRoot sortedDataset) := by
  refine (getAccepts_iff_inOrder checksumRoot sortsBySubject_subjectService sortedDataset
    (checksumRoot sortedDataset) ((validateDatasetRoot_eq_ok checksumRoot).mpr rfl)).1 ?_
  exact List.pairwise_pair.mpr ⟨by decide, .inr ⟨by decide, .inl ⟨by decide, by decide⟩⟩⟩

/-- COUNTEREXAMPLE: the publish accepts the dataset, and no get does. -/
theorem not_getAccepts_unsorted :
    validateDatasetRoot checksumRoot unsortedDataset (checksumRoot unsortedDataset) = .ok () ∧
      ¬ subjectService.GetAccepts checksumRoot unsortedDataset (checksumRoot unsortedDataset) := by
  refine ⟨(validateDatasetRoot_eq_ok checksumRoot).mpr rfl, ?_⟩
  intro haccepts
  have hroot := (validateDatasetOnBlockchain_eq_ok checksumRoot).mp
    (haccepts unsortedDataset (by decide) fun _ => Iff.rfl)
  exact absurd hroot (by decide +kernel)

end TripleStoreService

end OtNode
