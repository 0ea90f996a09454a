import OtNode.TripleStore.NamedGraphs

/-! The inserts of the named graphs of a collection, each with its retries.

    The graphs are inserted one after the other. The loop over the attempts at a graph ends when the
    counter reaches the bound, and the check for an error asks whether the counter has passed it. -/

namespace OtNode.OtTripleStore

/-- How an async function ends. -/
inductive Ending where
  | returned
  | threw (message : String)
  deriving DecidableEq

/-- What the call leaves: how it ended, and the graphs whose insert the store accepted. -/
structure Created where
  ending : Ending
  inserted : List ℕ
  deriving DecidableEq

/-- The loop over the attempts at a graph from a value of the counter: whether the store accepted
    one, or `none` where the error is thrown. -/
def insertAttempts (retries : ℕ) (accepts : ℕ → Bool) (attempts : ℕ) : Option Bool :=
  if attempts < retries then
    if accepts attempts then some true
    else if attempts + 1 ≤ retries then insertAttempts retries accepts (attempts + 1)
    else none
  else some false
termination_by retries - attempts

/-- The loop over the graphs from an index: the first error ends it. -/
def insertGraphs (retries : ℕ) (accepts : ℕ → ℕ → Bool) (visibility : TriplesVisibility) :
    ℕ → List String → Created
  | _, [] => ⟨.returned, []⟩
  | index, ual :: uals =>
    match insertAttempts retries (accepts index) 0 with
    | none => ⟨.threw (s!"Failed to insert into GRAPH <{graphName ual visibility}> after " ++
        s!"{retries} attempts."), []⟩
    | some success =>
      let rest := insertGraphs retries accepts visibility (index + 1) uals
      ⟨rest.ending, if success then index :: rest.inserted else rest.inserted⟩

/-- `createKnowledgeCollectionNamedGraphs`, where `accepts` is what the store answers to an attempt
    at a graph. The queries are made before the first of them is sent. -/
def createKnowledgeCollectionNamedGraphs (accepts : ℕ → ℕ → Bool) (uals : List String)
    (assetsNQuads : List (List String)) (visibility : TriplesVisibility) (retries : ℕ := 5) :
    Created :=
  if assetsNQuads.length < uals.length then
    ⟨.threw "Cannot read properties of undefined (reading 'join')", []⟩
  else insertGraphs retries accepts visibility 0 uals

/-- Every one of the inserts succeeded. -/
def Created.All (created : Created) (uals : List String) : Prop :=
  ∀ index < uals.length, index ∈ created.inserted

/-- RUN (attempts): the loop never throws, and ends with a success if an attempt is accepted. -/
theorem insertAttempts_eq (retries : ℕ) (accepts : ℕ → Bool) (attempts : ℕ) :
    ∃ success, insertAttempts retries accepts attempts = some success ∧
      (success = true ↔ ∃ attempt < retries, attempts ≤ attempt ∧ accepts attempt = true) := by
  fun_induction insertAttempts retries accepts attempts with
  | case1 attempts hlt haccept => exact ⟨true, rfl, fun _ => ⟨attempts, hlt, le_rfl, haccept⟩,
      fun _ => rfl⟩
  | case2 attempts hlt hreject hle ih =>
    obtain ⟨success, heq, hsuccess⟩ := ih
    refine ⟨success, heq, hsuccess.trans ?_⟩
    constructor
    · rintro ⟨attempt, hattempt, hle', haccept⟩
      exact ⟨attempt, hattempt, by omega, haccept⟩
    · rintro ⟨attempt, hattempt, hle', haccept⟩
      refine ⟨attempt, hattempt, Nat.succ_le_of_lt (lt_of_le_of_ne hle' ?_), haccept⟩
      rintro rfl
      exact hreject haccept
  | case3 attempts hlt hreject hgt => omega
  | case4 attempts hge =>
    refine ⟨false, rfl, ?_⟩
    constructor
    · intro hfalse
      cases hfalse
    · rintro ⟨attempt, hattempt, hle, -⟩
      omega

/-- RUN (graphs): the loop over the graphs returns, and has inserted those with an accepted attempt.
    -/
theorem insertGraphs_spec (retries : ℕ) (accepts : ℕ → ℕ → Bool) (visibility : TriplesVisibility)
    (start : ℕ) (uals : List String) :
    (insertGraphs retries accepts visibility start uals).ending = .returned ∧
      ∀ index, index ∈ (insertGraphs retries accepts visibility start uals).inserted ↔
        start ≤ index ∧ index < start + uals.length ∧
          ∃ attempt < retries, accepts index attempt = true := by
  induction uals generalizing start with
  | nil =>
    refine ⟨rfl, ?_⟩
    intro index
    constructor
    · intro hmem
      cases hmem
    · rintro ⟨hstart, hend, -⟩
      rw [List.length_nil] at hend
      omega
  | cons ual uals ih =>
    obtain ⟨success, heq, hsuccess⟩ := insertAttempts_eq retries (accepts start) 0
    obtain ⟨hreturned, hinserted⟩ := ih (start + 1)
    simp only [Nat.zero_le, true_and] at hsuccess
    rw [insertGraphs, heq]
    refine ⟨hreturned, ?_⟩
    intro index
    have hrest : index ∈ (insertGraphs retries accepts visibility (start + 1) uals).inserted ↔
        start ≠ index ∧ start ≤ index ∧ index < start + (ual :: uals).length ∧
          ∃ attempt < retries, accepts index attempt = true := by
      rw [hinserted, List.length_cons, ← and_assoc, ← and_assoc, ← and_assoc]
      refine and_congr_left ?_
      intro _
      omega
    have hfirst : index ∈ (if success = true then
          start :: (insertGraphs retries accepts visibility (start + 1) uals).inserted
        else (insertGraphs retries accepts visibility (start + 1) uals).inserted) ↔
        (success = true ∧ index = start) ∨
          index ∈ (insertGraphs retries accepts visibility (start + 1) uals).inserted := by
      cases success <;> simp
    refine hfirst.trans ?_
    rw [hrest, hsuccess, List.length_cons]
    constructor
    · rintro (⟨haccept, rfl⟩ | ⟨-, h⟩)
      · exact ⟨le_rfl, by omega, haccept⟩
      · exact h
    · rintro ⟨hstart, hend, haccept⟩
      by_cases hne : start = index
      · subst hne
        exact .inl ⟨haccept, rfl⟩
      · exact .inr ⟨hne, hstart, hend, haccept⟩

/-- CODE BUG (failures): the call returns only if every graph was inserted, and throws otherwise, if
    and only if the store accepts one of the attempts at every graph. -/
theorem createKnowledgeCollectionNamedGraphs_reports_iff (accepts : ℕ → ℕ → Bool)
    (uals : List String) (assetsNQuads : List (List String)) (visibility : TriplesVisibility)
    (retries : ℕ) :
    let created := createKnowledgeCollectionNamedGraphs accepts uals assetsNQuads visibility retries
    ((created.ending = .returned → created.All uals) ∧
        (¬ created.All uals → ∃ message, created.ending = .threw message)) ↔
      (uals.length ≤ assetsNQuads.length →
        ∀ index < uals.length, ∃ attempt < retries, accepts index attempt = true) := by
  intro created
  by_cases hlengths : assetsNQuads.length < uals.length
  · have hcreated : created = ⟨.threw "Cannot read properties of undefined (reading 'join')", []⟩ :=
      if_pos hlengths
    rw [hcreated]
    refine iff_of_true ⟨fun h => ?_, fun _ => ⟨_, rfl⟩⟩ fun hle => absurd hlengths (not_lt.mpr hle)
    cases h
  · have hcreated : created = insertGraphs retries accepts visibility 0 uals := if_neg hlengths
    obtain ⟨hreturned, hinserted⟩ := insertGraphs_spec retries accepts visibility 0 uals
    have hall : created.All uals ↔
        ∀ index < uals.length, ∃ attempt < retries, accepts index attempt = true := by
      rw [hcreated]
      refine forall_congr' fun index => imp_congr_right ?_
      intro hlt
      rw [hinserted]
      exact ⟨fun h => h.2.2, fun h => ⟨Nat.zero_le _, by omega, h⟩⟩
    rw [← hcreated] at hreturned
    rw [← hall, hreturned]
    constructor
    · rintro ⟨hreturn, -⟩ -
      exact hreturn rfl
    · intro h
      have hdone := h (not_lt.mp hlengths)
      exact ⟨fun _ => hdone, fun hnot => absurd hdone hnot⟩

/-- COUNTEREXAMPLE: the store rejects every attempt at the one graph, and the call returns. -/
theorem createKnowledgeCollectionNamedGraphs_rejected :
    let created := createKnowledgeCollectionNamedGraphs (fun _ _ => false)
      ["did:dkg:otp:2043/0xa/1/1"] [["<a> <p> <o> ."]] .ofPublic
    created.ending = .returned ∧ ¬ created.All ["did:dkg:otp:2043/0xa/1/1"] := by
  intro created
  obtain ⟨hreturned, hinserted⟩ := insertGraphs_spec 5 (fun _ _ => false) .ofPublic 0
    ["did:dkg:otp:2043/0xa/1/1"]
  refine ⟨hreturned, ?_⟩
  intro hall
  obtain ⟨-, -, attempt, -, haccept⟩ := (hinserted 0).mp (hall 0 (by decide))
  cases haccept

end OtNode.OtTripleStore
