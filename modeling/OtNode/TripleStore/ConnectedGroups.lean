import OtNode.Lib.Runs
import OtNode.TripleStore.PrivateGraphs

/-! Triples of one asset in one group.

    `splitConnectedArrays` walks over the triples once and compares each with the first of the group
    that is open. It spells the hashed form of a subject in its own way, under another prefix and by
    another hash function than the insertion, so it does not see that a subject is the hash of the
    one before it; and it has no group to begin with where there is no triple. -/

namespace OtNode

open Runs

/-- What the walk uses of the service: `generateHashFromString`, which is `sha256EncodePacked`. -/
structure DataService where
  generateHashFromString : String → String

/-- The prefix of a hashed subject in the walk. -/
def walkPrivateHashPrefix : String := "<private-hash:"

/-- The groups that are closed, the first subject of the one that is open and its hash, and the
    triples of that group. -/
structure ConnectedArrays where
  groupedPublic : List (List String)
  currentSubject : String
  currentSubjectHash : String
  currentKA : List String

namespace DataService

variable (service : DataService)

/-- The hash of a subject, which a hashed one is itself. -/
@[irreducible] def subjectHash (subject : String) : String :=
  if (walkPrivateHashPrefix ++ "0x").toList.isPrefixOf subject.toList then subject
  else walkPrivateHashPrefix ++
    service.generateHashFromString (String.ofList (subject.toList.drop 1).dropLast) ++ ">"

/-- A group is opened with a triple. -/
def openGroup (groupedPublic : List (List String)) (triple : String) : ConnectedArrays where
  groupedPublic
  currentSubject := subject triple
  currentSubjectHash := service.subjectHash (subject triple)
  currentKA := [triple]

/-- The loop's body. -/
def connect (arrays : ConnectedArrays) (triple : String) : ConnectedArrays :=
  if arrays.currentSubject = subject triple ∨ arrays.currentSubjectHash = subject triple ∨
      service.subjectHash (subject triple) = arrays.currentSubject then
    { arrays with currentKA := arrays.currentKA ++ [triple] }
  else service.openGroup (arrays.groupedPublic ++ [arrays.currentKA]) triple

/-- `splitConnectedArrays`. -/
def splitConnectedArrays (publicTriples : List String) : Except String (List (List String)) :=
  match publicTriples with
  | [] => .error "Cannot read properties of undefined (reading 'split')"
  | triple :: triples =>
    let arrays := triples.foldl service.connect (service.openGroup [] triple)
    .ok (arrays.groupedPublic ++ [arrays.currentKA])

/-- The comparison of a triple with the first of the open group. -/
def connected (first triple : String) : Bool :=
  subject first = subject triple || service.subjectHash (subject first) = subject triple ||
    service.subjectHash (subject triple) = subject first

end DataService

/-- The subjects are equal, or one is the hashed form of the other that the insertion knows. -/
def TripleStoreService.related (service : TripleStoreService) (triple other : String) : Bool :=
  subject triple = subject other || service.hashedSubject (subject triple) = subject other ||
    service.hashedSubject (subject other) = subject triple

namespace DataService

variable (service : DataService) (insertion : TripleStoreService)

/-- The groups are returned, and they are the maximal runs of related triples. -/
def SplitsIntoRuns (publicTriples : List String) : Prop :=
  ∃ groups, service.splitConnectedArrays publicTriples = .ok groups ∧
    AreRuns insertion.related publicTriples groups

theorem connected_eq_true_iff {first triple : String} : service.connected first triple = true ↔
    subject first = subject triple ∨ service.subjectHash (subject first) = subject triple ∨
      service.subjectHash (subject triple) = subject first := by
  rw [connected, Bool.or_eq_true, Bool.or_eq_true, decide_eq_true_iff, decide_eq_true_iff,
    decide_eq_true_iff, or_assoc]

/-! ### The walk -/

/-- The walk from an open group closes it and goes on with the groups after it. -/
theorem foldl_connect (triples : List String) (arrays : ConnectedArrays) (first : String)
    (hsubject : arrays.currentSubject = subject first)
    (hhash : arrays.currentSubjectHash = service.subjectHash (subject first)) :
    (triples.foldl service.connect arrays).groupedPublic ++
        [(triples.foldl service.connect arrays).currentKA] =
      arrays.groupedPublic ++
        (arrays.currentKA ++ triples.takeWhile (service.connected first)) ::
          groupByFirst service.connected (triples.dropWhile (service.connected first)) := by
  induction triples generalizing arrays first with
  | nil =>
    rw [List.takeWhile_nil, List.dropWhile_nil, groupByFirst, List.append_nil]
    rfl
  | cons triple triples ih =>
    rw [List.foldl_cons]
    by_cases hconnected : service.connected first triple = true
    · have hstep : service.connect arrays triple =
          { arrays with currentKA := arrays.currentKA ++ [triple] } := by
        rw [connect, hsubject, hhash, if_pos (service.connected_eq_true_iff.mp hconnected)]
      rw [List.takeWhile_cons_of_pos hconnected, List.dropWhile_cons_of_pos hconnected,
        List.append_cons arrays.currentKA, hstep]
      exact ih _ first hsubject hhash
    · have hstep : service.connect arrays triple =
          service.openGroup (arrays.groupedPublic ++ [arrays.currentKA]) triple := by
        rw [connect, hsubject, hhash, if_neg (service.connected_eq_true_iff.not.mp hconnected)]
      rw [List.takeWhile_cons_of_neg hconnected, List.dropWhile_cons_of_neg hconnected,
        List.append_nil, groupByFirst, hstep, ih _ triple rfl rfl, openGroup, List.append_assoc]
      rfl

/-- The groups of the walk are those by their first triples. -/
theorem splitConnectedArrays_of_ne_nil {publicTriples : List String} (hne : publicTriples ≠ []) :
    service.splitConnectedArrays publicTriples =
      .ok (groupByFirst service.connected publicTriples) := by
  cases publicTriples with
  | nil => exact absurd rfl hne
  | cons triple triples =>
    have hwalk := service.foldl_connect triples (service.openGroup [] triple) triple rfl rfl
    rw [groupByFirst]
    exact congrArg Except.ok hwalk

/-- CODE BUG (connected groups): the groups are the runs if and only if there is a triple, and the
    comparison with the first triple of each run tells its own triples from the next run's first. -/
theorem splitsIntoRuns_iff (publicTriples : List String) :
    service.SplitsIntoRuns insertion publicTriples ↔
      publicTriples ≠ [] ∧
        FirstsDecide service.connected (publicTriples.splitBy insertion.related) := by
  constructor
  · rintro ⟨groups, hgroups, hruns⟩
    have hne : publicTriples ≠ [] := by
      rintro rfl
      cases hgroups
    rw [service.splitConnectedArrays_of_ne_nil hne] at hgroups
    refine ⟨hne, groupByFirst_eq_splitBy_iff.mp ?_⟩
    rw [Except.ok.inj hgroups]
    exact areRuns_iff.mp hruns
  · rintro ⟨hne, hdecide⟩
    exact ⟨_, service.splitConnectedArrays_of_ne_nil hne,
      areRuns_iff.mpr (groupByFirst_eq_splitBy_iff.mpr hdecide)⟩

/-- The service, with the hash of the subject `a`. -/
def hashingData : DataService where
  generateHashFromString := TripleStoreService.hashingService.sha256

/-- The hash of `a` as a subject. -/
def hashedName : String :=
  privateHashPrefix ++ "0xca978112ca1bbdcafac231b39a23dc4da786eff8147c4e72b9807785afee48bb" ++ ">"

/-- A triple of the subject `a`, and one of its hashed form after it. -/
def hashedNeighbours : List String := ["<a>" ++ " " ++ "<p> <o> .", hashedName ++ " " ++ "<p> <o> ."]

theorem subject_hashedName (rest : String) :
    subject (hashedName ++ " " ++ rest) = hashedName := by
  refine subject_append ?_ rest
  rw [hashedName, String.toList_append, String.toList_append, List.mem_append, List.mem_append]
  decide +kernel

/-- COUNTEREXAMPLE: the two triples of one asset are returned as two groups. -/
theorem not_splitsIntoRuns_hashedNeighbours :
    ¬ hashingData.SplitsIntoRuns TripleStoreService.hashingService hashedNeighbours := by
  rintro ⟨groups, hgroups, hruns⟩
  have hplain : subject ("<a>" ++ " " ++ "<p> <o> .") = "<a>" := by decide
  have hhashed := subject_hashedName "<p> <o> ."
  have hrelated : TripleStoreService.hashingService.related ("<a>" ++ " " ++ "<p> <o> .")
      (hashedName ++ " " ++ "<p> <o> .") = true := by
    have hsame : TripleStoreService.hashingService.hashedSubject "<a>" = hashedName := by rfl
    rw [TripleStoreService.related, hplain, hhashed, hsame]
    simp
  have hother : ¬ hashingData.connected ("<a>" ++ " " ++ "<p> <o> .")
      (hashedName ++ " " ++ "<p> <o> .") = true := by
    rw [connected_eq_true_iff, hplain, hhashed]
    decide +kernel
  rw [hashedNeighbours, splitConnectedArrays_of_ne_nil _ (List.cons_ne_nil _ _), groupByFirst,
    List.takeWhile_cons_of_neg hother, List.dropWhile_cons_of_neg hother, groupByFirst,
    List.takeWhile_nil, List.dropWhile_nil, groupByFirst] at hgroups
  obtain rfl := Except.ok.inj hgroups
  have hone := areRuns_iff.mp hruns
  rw [hashedNeighbours, List.splitBy_of_isChain (List.cons_ne_nil _ _)
    (List.isChain_pair.mpr hrelated)] at hone
  exact absurd (congrArg List.length hone) (by decide)

example : hashingData.splitConnectedArrays [] =
    .error "Cannot read properties of undefined (reading 'split')" := rfl

/-! ### Triples without the prefix of the walk -/

/-- The triples have one subject. -/
def sameSubject (triple other : String) : Bool := subject triple = subject other

theorem sameSubject_symm (triple other : String) (h : sameSubject triple other) :
    sameSubject other triple :=
  decide_eq_true (of_decide_eq_true h).symm

theorem sameSubject_trans (triple other third : String) (h : sameSubject triple other)
    (h' : sameSubject other third) : sameSubject triple third :=
  decide_eq_true ((of_decide_eq_true h).trans (of_decide_eq_true h'))

/-- No subject is a hashed one by the walk's spelling, as none is that the insertion wrote. -/
def WithoutWalkHashes (publicTriples : List String) : Prop :=
  ∀ triple ∈ publicTriples, ¬ walkPrivateHashPrefix.toList <+: (subject triple).toList

theorem prefix_toList_append (s t : String) : s.toList <+: (s ++ t).toList := by
  rw [String.toList_append]
  exact List.prefix_append s.toList t.toList

/-- The hash of a subject has the prefix of the walk. -/
theorem prefix_subjectHash (name : String) :
    walkPrivateHashPrefix.toList <+: (service.subjectHash name).toList := by
  rw [subjectHash]
  split
  · next hzero =>
    exact (prefix_toList_append walkPrivateHashPrefix "0x").trans
      (List.isPrefixOf_iff_prefix.mp hzero)
  · exact (prefix_toList_append walkPrivateHashPrefix _).trans (prefix_toList_append _ ">")

theorem subjectHash_ne {triple : String}
    (h : ¬ walkPrivateHashPrefix.toList <+: (subject triple).toList) (name : String) :
    service.subjectHash name ≠ subject triple := by
  intro heq
  refine h ?_
  rw [← heq]
  exact service.prefix_subjectHash name

theorem connected_of_withoutWalkHashes {triple other : String}
    (h : ¬ walkPrivateHashPrefix.toList <+: (subject triple).toList)
    (hother : ¬ walkPrivateHashPrefix.toList <+: (subject other).toList) :
    service.connected triple other = sameSubject triple other := by
  rw [sameSubject, connected, decide_eq_false (service.subjectHash_ne hother _),
    decide_eq_false (service.subjectHash_ne h _), Bool.or_false, Bool.or_false]

/-- Without such subjects, the groups are the runs if and only if no subject is next to its hashed
    form. -/
theorem splitsIntoRuns_of_withoutWalkHashes {publicTriples : List String}
    (hne : publicTriples ≠ []) (h : WithoutWalkHashes publicTriples) :
    service.SplitsIntoRuns insertion publicTriples ↔ publicTriples.IsChain fun triple other =>
      insertion.related triple other = true → subject triple = subject other := by
  have hsame : ∀ triple ∈ publicTriples, ∀ other ∈ publicTriples,
      service.connected triple other = sameSubject triple other := by
    intro triple htriple other hother
    exact service.connected_of_withoutWalkHashes (h triple htriple) (h other hother)
  have hdecide : FirstsDecide service.connected (publicTriples.splitBy insertion.related) ↔
      FirstsDecide sameSubject (publicTriples.splitBy insertion.related) := by
    constructor
    · intro hdecide
      refine hdecide.congr ?_
      rwa [List.flatten_splitBy]
    · intro hdecide
      refine hdecide.congr ?_
      rw [List.flatten_splitBy]
      intro triple htriple other hother
      exact (hsame triple htriple other hother).symm
  rw [splitsIntoRuns_iff, and_iff_right hne, hdecide, ← groupByFirst_eq_splitBy_iff,
    groupByFirst_eq_splitBy sameSubject_symm sameSubject_trans, splitBy_eq_splitBy_iff]
  refine List.IsChain.iff ?_
  intro triple other
  rw [sameSubject]
  by_cases hsubject : subject triple = subject other
  · rw [decide_eq_true hsubject, TripleStoreService.related, decide_eq_true hsubject]
    exact iff_of_true rfl fun _ => hsubject
  · rw [decide_eq_false hsubject, eq_comm, Bool.eq_false_iff]
    exact imp_congr_right fun _ => (iff_false_intro hsubject).symm

end DataService

end OtNode
