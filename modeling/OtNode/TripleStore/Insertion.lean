import OtNode.TripleStore.GraphInserts
import OtNode.TripleStore.PrivateGraphs

/-! The insertion of a knowledge collection, with its retries and its rollback.

    The inserts are sent before the loop over the attempts starts, and each attempt waits for the
    same promises. The graphs are inserted one after the other by two calls that retry each insert
    themselves and never fail; the metadata is sent once. So the only failure that an attempt sees
    is that of the metadata, and every later attempt sees it again. -/

namespace OtNode

open TripleStoreService

/-- The default of `retries` in `createKnowledgeCollectionNamedGraphs`. -/
def insertRetries : ℕ := 5

/-- A call of `createKnowledgeCollectionNamedGraphs` under way: the inserts that are left, and the
    attempts made at the first of them. -/
structure GraphsPromise where
  left : List InsertData
  attempts : ℕ := 0
  deriving DecidableEq

namespace GraphsPromise

/-- The store has answered the insert that was sent. One that failed for the last time is left out.
    -/
def answered (promise : GraphsPromise) (accepted : Bool) : GraphsPromise :=
  if accepted = true ∨ insertRetries ≤ promise.attempts + 1 then ⟨promise.left.tail, 0⟩
  else ⟨promise.left, promise.attempts + 1⟩

/-- SIMULATION: an answer does what one round of the loop over the attempts does. -/
theorem answered_simulates (accepts : ℕ → Bool) {attempts : ℕ} (h : attempts < insertRetries)
    (query : InsertData) (rest : List InsertData) :
    let promise : GraphsPromise := ⟨query :: rest, attempts⟩
    (promise.answered (accepts attempts) = ⟨rest, 0⟩ ∧
        OtTripleStore.insertAttempts insertRetries accepts attempts = some (accepts attempts)) ∨
      (promise.answered (accepts attempts) = ⟨query :: rest, attempts + 1⟩ ∧
        OtTripleStore.insertAttempts insertRetries accepts attempts =
          OtTripleStore.insertAttempts insertRetries accepts (attempts + 1)) := by
  intro promise
  have hround := OtTripleStore.insertAttempts.eq_1 insertRetries accepts attempts
  rw [if_pos h] at hround
  cases haccept : accepts attempts with
  | true => exact .inl ⟨if_pos (.inl rfl), by rw [hround, if_pos haccept]⟩
  | false =>
    rw [haccept, if_neg Bool.false_ne_true, if_pos (Nat.succ_le_of_lt h)] at hround
    by_cases hlast : insertRetries ≤ attempts + 1
    · refine .inl ⟨if_pos (.inr hlast), ?_⟩
      rw [hround, OtTripleStore.insertAttempts, if_neg (not_lt.mpr hlast)]
    · refine .inr ⟨if_neg ?_, hround⟩
      rintro (hfalse | hle)
      · cases hfalse
      · exact hlast hle

theorem mem_of_mem_answered {promise : GraphsPromise} {accepted : Bool} {query : InsertData}
    (h : query ∈ (promise.answered accepted).left) : query ∈ promise.left := by
  rw [answered] at h
  split_ifs at h with hdone
  · exact List.mem_of_mem_tail h
  · exact h

end GraphsPromise

/-- The promise of `insertKnowledgeCollectionMetadata`. -/
inductive MetadataPromise where | pending | fulfilled | rejected
  deriving DecidableEq

/-- The two calls that insert graphs. -/
inductive GraphsCall where | ofPublic | ofPrivate
  deriving DecidableEq

/-- Where `insertKnowledgeCollection` is: it waits for the promises, or until it tries again, or for
    the rollback, or it has ended. -/
inductive InsertionPhase where | attempting | delaying | rollingBack | returned | threw
  deriving DecidableEq

/-- The insertion of a collection. `existed` is `existsInNamedGraphs`, and `uals` are the
    `publicKnowledgeAssetsUALs`. -/
structure Insertion where
  retries : ℕ
  existed : Bool
  uals : List String
  metadataQuery : InsertData
  store : NamedGraphs
  graphs : GraphsCall → GraphsPromise
  metadata : MetadataPromise
  attempts : ℕ
  phase : InsertionPhase

/-- What happens next: the store answers an insert, an attempt ends, its delay is over, or the
    rollback is answered. -/
inductive InsertionMove where
  | answer (call : GraphsCall) (accepted : Bool)
  | answerMetadata (accepted : Bool)
  | settle
  | wake
  | rollback (succeeded : Bool)
  deriving DecidableEq

/-- The store rejects an insert. -/
def InsertionMove.rejects : InsertionMove → Bool
  | .answer _ accepted => !accepted
  | .answerMetadata accepted => !accepted
  | _ => false

/-- A move, and whether the store would accept every statement at that moment. -/
structure InsertionEvent where
  move : InsertionMove
  up : Bool
  deriving DecidableEq

namespace NamedGraphs

/-- `DROP GRAPH` of each name. -/
def dropGraphs (store : NamedGraphs) (names : List String) : NamedGraphs :=
  fun name => if name ∈ names then ∅ else store name

/-- The store holds nothing in a graph whose name starts with that of the collection. -/
def WithoutUnder (store : NamedGraphs) (ual : String) : Prop :=
  ∀ rest, store (ual ++ "/" ++ rest) = ∅

end NamedGraphs

namespace Insertion

/-- The inserts of the public groups. -/
def publicQueries (service : TripleStoreService) (ual : String) (triples : CollectionTriples) :
    List InsertData :=
  let groups := service.publicGroups triples.publicTriples
  createKnowledgeCollectionNamedGraphs (assetUALs ual groups) groups .ofPublic

/-- The inserts of the private groups. -/
def privateQueries (service : TripleStoreService) (ual : String) (triples : CollectionTriples) :
    List InsertData :=
  let privateGroups := service.groupNquadsBySubject triples.privateTriples
  if triples.privateTriples = [] then []
  else createKnowledgeCollectionNamedGraphs
    (service.privateUALs ual (service.publicGroups triples.publicTriples) privateGroups)
    privateGroups .ofPrivate

/-- `insertKnowledgeCollection` up to its loop: the inserts are sent, the graphs only where they are
    not in the store yet. -/
def start (service : TripleStoreService) (store : NamedGraphs) (ual : String)
    (triples : CollectionTriples) (retries : ℕ) : Insertion :=
  let existed := store.knowledgeCollectionNamedGraphsExist ual
  let uals := assetUALs ual (service.publicGroups triples.publicTriples)
  { retries := retries
    existed := existed
    uals := uals
    metadataQuery := insertKnowledgeCollectionMetadata (uals.map metadataTriple)
    store := store
    graphs := fun call => ⟨if existed then [] else
      match call with
      | .ofPublic => publicQueries service ual triples
      | .ofPrivate => privateQueries service ual triples, 0⟩
    metadata := .pending
    attempts := 0
    phase := if 0 < retries then .attempting else .returned }

/-- The queries that are sent are those of `insertKnowledgeCollection`. -/
theorem queries_start (service : TripleStoreService) (store : NamedGraphs) (ual : String)
    (triples : CollectionTriples) (retries : ℕ) :
    let s := start service store ual triples retries
    service.insertKnowledgeCollection store ual triples =
      ((s.graphs .ofPublic).left ++ (s.graphs .ofPrivate).left) ++ [s.metadataQuery] := by
  intro s
  simp only [insertKnowledgeCollection, s, start, publicQueries, privateQueries]
  split_ifs <;> rfl

/-- An attempt fails: the next one starts after the delay, or the data is rolled back. -/
def failed (s : Insertion) : Insertion :=
  { s with
    attempts := s.attempts + 1
    phase := if s.attempts + 1 < s.retries then .delaying else .rollingBack }

/-- STEP: a move, where it can be made. `Promise.all` is rejected by the first promise that is, and
    fulfilled when all are. -/
def act (s : Insertion) : InsertionMove → Option Insertion
  | .answer call accepted =>
    match (s.graphs call).left with
    | [] => none
    | query :: _ => some
        { s with
          store := if accepted then s.store.insertData query else s.store
          graphs := Function.update s.graphs call ((s.graphs call).answered accepted) }
  | .answerMetadata accepted =>
    if s.metadata = .pending then some
      { s with
        store := if accepted then s.store.insertData s.metadataQuery else s.store
        metadata := if accepted then .fulfilled else .rejected }
    else none
  | .settle =>
    if s.phase ≠ .attempting then none
    else if s.metadata = .rejected then some s.failed
    else if s.metadata = .fulfilled ∧ (s.graphs .ofPublic).left = [] ∧
        (s.graphs .ofPrivate).left = [] then
      some { s with phase := .returned }
    else none
  | .wake => if s.phase = .delaying then some { s with phase := .attempting } else none
  | .rollback succeeded =>
    if s.phase = .rollingBack then some
      { s with
        store := if succeeded ∧ ¬ s.existed then s.store.dropGraphs s.uals else s.store
        phase := .threw }
    else none

/-- STEP: an event. A store that accepts every statement rejects none. -/
def step (s : Insertion) (event : InsertionEvent) : Option Insertion :=
  if event.up = true ∧ event.move.rejects = true then none else s.act event.move

/-- RUN: the events one after the other. -/
def run (s : Insertion) : List InsertionEvent → Option Insertion
  | [] => some s
  | event :: events => (s.step event).bind fun s' => s'.run events

/-- The states of a run with the events that follow them. -/
def trace (s : Insertion) : List InsertionEvent → List (Insertion × InsertionEvent)
  | [] => []
  | event :: events =>
    (s, event) :: ((s.step event).elim [] fun s' => s'.trace events)

/-- The function has ended. -/
def Ended (s : Insertion) : Prop := s.phase = .returned ∨ s.phase = .threw

/-- A run of the function to its end. -/
structure CompleteRun (s₀ : Insertion) (events : List InsertionEvent) (s : Insertion) : Prop where
  run : s₀.run events = some s
  ended : s.Ended

/-- Everything of the collection is in the store. -/
def AllPresent (s : Insertion) (queries : List InsertData) : Prop :=
  ∀ query ∈ queries, ∀ nquad ∈ query.nquads, nquad ∈ s.store query.graph

/-- Throughout the attempt after `attempts` failed ones the store would accept every statement. -/
def UpDuring (s : Insertion) (events : List InsertionEvent) (attempts : ℕ) : Prop :=
  (∃ p ∈ s.trace events, p.1.phase = .attempting ∧ p.1.attempts = attempts) ∧
    ∀ p ∈ s.trace events, p.1.phase = .attempting → p.1.attempts = attempts → p.2.up = true

/-! ### One step -/

variable {s s' : Insertion}

/-- What a move can do. -/
theorem act_cases {move : InsertionMove} (h : s.act move = some s') :
    (∃ call accepted query rest, move = .answer call accepted ∧
      (s.graphs call).left = query :: rest ∧
      s' = { s with
        store := if accepted then s.store.insertData query else s.store
        graphs := Function.update s.graphs call ((s.graphs call).answered accepted) }) ∨
    (∃ accepted, move = .answerMetadata accepted ∧ s.metadata = .pending ∧
      s' = { s with
        store := if accepted then s.store.insertData s.metadataQuery else s.store
        metadata := if accepted then .fulfilled else .rejected }) ∨
    (move = .settle ∧ s.phase = .attempting ∧ s.metadata = .rejected ∧ s' = s.failed) ∨
    (move = .settle ∧ s.phase = .attempting ∧ s.metadata = .fulfilled ∧
      s' = { s with phase := .returned }) ∨
    (move = .wake ∧ s.phase = .delaying ∧ s' = { s with phase := .attempting }) ∨
    (∃ succeeded, move = .rollback succeeded ∧ s.phase = .rollingBack ∧
      s' = { s with
        store := if succeeded ∧ ¬ s.existed then s.store.dropGraphs s.uals else s.store
        phase := .threw }) := by
  cases move with
  | answer call accepted =>
    refine .inl ?_
    cases hleft : (s.graphs call).left with
    | nil => simp [act, hleft] at h
    | cons query rest =>
      simp only [act, hleft, Option.some.injEq] at h
      exact ⟨call, accepted, query, rest, rfl, hleft, h.symm⟩
  | answerMetadata accepted =>
    refine .inr (.inl ?_)
    by_cases hpending : s.metadata = .pending
    · rw [act, if_pos hpending] at h
      exact ⟨accepted, rfl, hpending, (Option.some.inj h).symm⟩
    · rw [act, if_neg hpending] at h
      cases h
  | settle =>
    refine .inr (.inr ?_)
    rw [act] at h
    split_ifs at h with hphase hrejected hfulfilled
    · exact .inl ⟨rfl, not_not.mp hphase, hrejected, (Option.some.inj h).symm⟩
    · exact .inr (.inl ⟨rfl, not_not.mp hphase, hfulfilled.1, (Option.some.inj h).symm⟩)
  | wake =>
    refine .inr (.inr (.inr (.inr (.inl ?_))))
    rw [act] at h
    split_ifs at h with hdelaying
    exact ⟨rfl, hdelaying, (Option.some.inj h).symm⟩
  | rollback succeeded =>
    refine .inr (.inr (.inr (.inr (.inr ?_))))
    by_cases hphase : s.phase = .rollingBack
    · rw [act, if_pos hphase] at h
      exact ⟨succeeded, rfl, hphase, (Option.some.inj h).symm⟩
    · rw [act, if_neg hphase] at h
      cases h

theorem act_of_step {event : InsertionEvent} (h : s.step event = some s') :
    s.act event.move = some s' := by
  rw [step] at h
  split_ifs at h with hup
  exact h

/-- RUN: what every step keeps holds after a run. -/
theorem run_induction (Kept : Insertion → Prop) {events : List InsertionEvent}
    (hstep : ∀ event ∈ events, ∀ {s s'}, Kept s → s.step event = some s' → Kept s')
    (hkept : Kept s) (hrun : s.run events = some s') : Kept s' := by
  induction events generalizing s with
  | nil => exact Option.some.inj hrun ▸ hkept
  | cons event events ih =>
    obtain ⟨s₁, hfirst, hrest⟩ := Option.bind_eq_some_iff.mp hrun
    exact ih (fun later hlater => hstep later (List.mem_cons_of_mem _ hlater))
      (hstep event List.mem_cons_self hkept hfirst) hrest

/-- A failed attempt is one that the metadata failed, and no attempt after it succeeds. -/
def Doomed (s : Insertion) : Prop :=
  (1 ≤ s.attempts → s.metadata = .rejected ∧ s.phase ≠ .returned) ∧
    (s.phase = .rollingBack ∨ s.phase = .threw → 1 ≤ s.attempts)

theorem doomed_start (service : TripleStoreService) (store : NamedGraphs) (ual : String)
    (triples : CollectionTriples) (retries : ℕ) :
    (start service store ual triples retries).Doomed := by
  refine ⟨fun h => absurd h (Nat.not_succ_le_zero 0), ?_⟩
  rintro (h | h) <;>
  · simp only [start] at h
    split_ifs at h

/-- STEP: a move keeps what the first failure decides. -/
theorem Doomed.step {event : InsertionEvent} (h : s.Doomed) (hstep : s.step event = some s') :
    s'.Doomed := by
  obtain ⟨hdoomed, hended⟩ := h
  obtain ⟨call, accepted, query, rest, -, -, rfl⟩ | ⟨accepted, -, hpending, rfl⟩ |
    ⟨-, -, hrejected, rfl⟩ | ⟨-, -, hfulfilled, rfl⟩ | ⟨-, hdelaying, rfl⟩ |
    ⟨succeeded, -, hrollingBack, rfl⟩ := act_cases (act_of_step hstep)
  · exact ⟨hdoomed, hended⟩
  · refine ⟨fun hattempts => ?_, hended⟩
    rw [(hdoomed hattempts).1] at hpending
    cases hpending
  · refine ⟨fun _ => ⟨hrejected, ?_⟩, fun _ => Nat.le_add_left 1 _⟩
    simp only [failed]
    split_ifs <;> decide
  · refine ⟨fun hattempts => ?_, by rintro (h | h) <;> cases h⟩
    rw [(hdoomed hattempts).1] at hfulfilled
    cases hfulfilled
  · exact ⟨fun hattempts => ⟨(hdoomed hattempts).1, nofun⟩, by rintro (h | h) <;> cases h⟩
  · exact ⟨fun hattempts => ⟨(hdoomed hattempts).1, nofun⟩, fun _ => hended (.inl hrollingBack)⟩

/-- STEP: the metadata is rejected by an answer of the store. -/
theorem rejected_of_step {event : InsertionEvent} (hstep : s.step event = some s')
    (hrejected : s'.metadata = .rejected) :
    s.metadata = .rejected ∨ event.move = .answerMetadata false := by
  obtain ⟨call, accepted, query, rest, -, -, rfl⟩ | ⟨accepted, hmove, -, rfl⟩ |
    ⟨-, -, -, rfl⟩ | ⟨-, -, -, rfl⟩ | ⟨-, -, rfl⟩ | ⟨succeeded, -, -, rfl⟩ :=
      act_cases (act_of_step hstep)
  · exact .inl hrejected
  · cases accepted with
    | true => cases hrejected
    | false => exact .inr hmove
  all_goals exact .inl hrejected

/-- RUN: the metadata is rejected by an answer of the store. -/
theorem rejected_of_run {events : List InsertionEvent} (hrun : s.run events = some s')
    (hrejected : s'.metadata = .rejected) :
    s.metadata = .rejected ∨ ∃ event ∈ events, event.move = .answerMetadata false := by
  induction events generalizing s with
  | nil =>
    obtain rfl := Option.some.inj hrun
    exact .inl hrejected
  | cons event events ih =>
    obtain ⟨s₁, hfirst, hrest⟩ := Option.bind_eq_some_iff.mp hrun
    rcases ih hrest with hbefore | ⟨later, hlater, hmove⟩
    · exact (rejected_of_step hfirst hbefore).imp_right fun h => ⟨event, List.mem_cons_self, h⟩
    · exact .inr ⟨later, List.mem_cons_of_mem _ hlater, hmove⟩

theorem attempts_le_of_step {event : InsertionEvent} (hstep : s.step event = some s') :
    s.attempts ≤ s'.attempts := by
  obtain ⟨call, accepted, query, rest, -, -, rfl⟩ | ⟨accepted, -, -, rfl⟩ |
    ⟨-, -, -, rfl⟩ | ⟨-, -, -, rfl⟩ | ⟨-, -, rfl⟩ | ⟨succeeded, -, -, rfl⟩ :=
      act_cases (act_of_step hstep)
  case inr.inr.inl => exact Nat.le_succ _
  all_goals exact le_rfl

/-- RUN: no state of a run counts more failed attempts than its end. -/
theorem attempts_le_of_mem_trace {events : List InsertionEvent} {p : Insertion × InsertionEvent}
    (hrun : s.run events = some s') (hp : p ∈ s.trace events) : p.1.attempts ≤ s'.attempts := by
  induction events generalizing s with
  | nil => cases hp
  | cons event events ih =>
    obtain ⟨s₁, hfirst, hrest⟩ := Option.bind_eq_some_iff.mp hrun
    rw [trace, hfirst, Option.elim_some] at hp
    rcases List.mem_cons.mp hp with rfl | hp
    · exact run_induction (s.attempts ≤ ·.attempts)
        (fun _ _ _ _ hle hstep => le_trans hle (attempts_le_of_step hstep))
        (le_refl s.attempts) hrun
    · exact ih hrest hp

/-! ### The retries -/

/-- After a failed attempt, if the store would accept every statement throughout one of the attempts
    that are left, the insertion succeeds and everything is in the store. -/
def Recovers (s₀ : Insertion) (events : List InsertionEvent) (s : Insertion)
    (queries : List InsertData) : Prop :=
  1 ≤ s.attempts → (∃ attempts ≥ 1, s₀.UpDuring events attempts) →
    s.phase = .returned ∧ s.AllPresent queries

/-- CODE BUG (retries): in a run to the end, an insertion recovers if and only if the store does not
    reject the metadata, or would not accept every statement in any of the attempts that are left.
    -/
theorem recovers_iff (service : TripleStoreService) (store : NamedGraphs) (ual : String)
    (triples : CollectionTriples) (retries : ℕ) (events : List InsertionEvent) (s : Insertion)
    (hrun : (start service store ual triples retries).CompleteRun events s) :
    Recovers (start service store ual triples retries) events s
        (service.insertKnowledgeCollection store ual triples) ↔
      (∀ event ∈ events, event.move ≠ .answerMetadata false) ∨
        ¬ ∃ attempts ≥ 1, (start service store ual triples retries).UpDuring events attempts := by
  obtain ⟨hdoomed, -⟩ := run_induction Doomed (fun _ _ _ _ hkept hstep => hkept.step hstep)
    (doomed_start service store ual triples retries) hrun.run
  constructor
  · intro hrecovers
    by_contra hnot
    rw [not_or, not_not] at hnot
    obtain ⟨-, attempts, hattempts, hup⟩ := hnot
    obtain ⟨p, hp, -, hcount⟩ := hup.1
    have hfailed : 1 ≤ s.attempts :=
      hattempts.trans (hcount ▸ attempts_le_of_mem_trace hrun.run hp)
    exact (hdoomed hfailed).2 (hrecovers hfailed ⟨attempts, hattempts, hup⟩).1
  · rintro (haccepted | hnone) hfailed hup
    · rcases rejected_of_run hrun.run (hdoomed hfailed).1 with hstart | ⟨event, hevent, hmove⟩
      · cases hstart
      · exact absurd hmove (haccepted event hevent)
    · exact absurd hup hnone

/-- One public asset, and no private triples. -/
def oneAsset : CollectionTriples where
  publicTriples := ["<a> <p> <o> ."]

/-- Its insertion with two attempts into a store without graphs. -/
def oneAssetStart : Insertion :=
  start sortingService (fun _ => ∅) "did:dkg:otp:2043/0xa/1" oneAsset 2

/-- The store rejects the metadata, and is up again before the second attempt. -/
def upAgain : List InsertionEvent :=
  [⟨.answer .ofPublic true, false⟩, ⟨.answerMetadata false, false⟩, ⟨.settle, false⟩,
    ⟨.wake, true⟩, ⟨.settle, true⟩, ⟨.rollback true, true⟩]

theorem upDuring_upAgain : oneAssetStart.UpDuring upAgain 1 := by
  unfold UpDuring
  decide

theorem exists_run_upAgain : ∃ s, oneAssetStart.run upAgain = some s ∧ s.phase = .threw := by
  have hphase : (oneAssetStart.run upAgain).map Insertion.phase = some .threw := by decide
  exact Option.map_eq_some_iff.mp hphase

theorem recovers_iff_upAgain : ∃ s, oneAssetStart.CompleteRun upAgain s ∧
    (Recovers oneAssetStart upAgain s (sortingService.insertKnowledgeCollection (fun _ => ∅)
        "did:dkg:otp:2043/0xa/1" oneAsset) ↔
      (∀ event ∈ upAgain, event.move ≠ .answerMetadata false) ∨
        ¬ ∃ attempts ≥ 1, oneAssetStart.UpDuring upAgain attempts) := by
  obtain ⟨s, hrun, hphase⟩ := exists_run_upAgain
  exact ⟨s, ⟨hrun, .inr hphase⟩, recovers_iff sortingService (fun _ => ∅) "did:dkg:otp:2043/0xa/1"
    oneAsset 2 upAgain s ⟨hrun, .inr hphase⟩⟩

/-- COUNTEREXAMPLE: the second attempt fails although the store is up throughout. -/
theorem not_recovers_upAgain : ∃ s, oneAssetStart.CompleteRun upAgain s ∧
    ¬ Recovers oneAssetStart upAgain s (sortingService.insertKnowledgeCollection (fun _ => ∅)
      "did:dkg:otp:2043/0xa/1" oneAsset) := by
  obtain ⟨s, hrun, hphase⟩ := exists_run_upAgain
  refine ⟨s, ⟨hrun, .inr hphase⟩, ?_⟩
  intro hrecovers
  have hstart := (doomed_start sortingService (fun _ => ∅) "did:dkg:otp:2043/0xa/1" oneAsset 2)
  have hdoomed := run_induction Doomed (fun _ _ _ _ hkept hstep => hkept.step hstep) hstart hrun
  obtain ⟨hreturned, -⟩ := hrecovers (hdoomed.2 (.inr hphase)) ⟨1, le_rfl, upDuring_upAgain⟩
  rw [hphase] at hreturned
  cases hreturned

/-! ### The rollback -/

/-- The insert is of the triples of an asset into one of its graphs. -/
def IsGraphInsert (ual : String) (query : InsertData) : Prop :=
  (∃ id visibility, query.graph = graphName (assetUAL ual id) visibility) ∧ query.nquads ≠ []

/-- The rollback is of the assets of the collection, and the inserts that are left are of them. -/
structure Named (ual : String) (s : Insertion) : Prop where
  uals : ∀ name ∈ s.uals, ∃ id, name = assetUAL ual id
  left : ∀ call, ∀ query ∈ (s.graphs call).left, IsGraphInsert ual query

/-- A graph of the collection holds a triple. -/
def Landed (ual : String) (s : Insertion) : Prop :=
  ∃ id visibility nquad, nquad ∈ s.store (graphName (assetUAL ual id) visibility)

/-- No name of an asset is the name of a graph: the last letter of it is a digit. -/
theorem assetUAL_ne_graphName {ual ual' : String} {id : ℕ} {visibility : TriplesVisibility} :
    assetUAL ual id ≠ graphName ual' visibility := by
  exact getLast?_append_ne (getLast?_toString_ne id visibility) (by simp [Nat.toDigits_ne_nil])
    (by cases visibility <;> decide)

theorem named_start {service : TripleStoreService} (h : service.GroupsBySubject)
    (store : NamedGraphs) (ual : String) (triples : CollectionTriples) (retries : ℕ) :
    (start service store ual triples retries).Named ual := by
  have hual : ∀ {name}, name ∈ assetUALs ual (service.publicGroups triples.publicTriples) →
      ∃ id, name = assetUAL ual id := by
    intro name hname
    obtain ⟨index, -, rfl⟩ := List.mem_map.mp hname
    exact ⟨index + 1, rfl⟩
  refine ⟨fun name hname => hual hname, ?_⟩
  intro call query hquery
  simp only [start] at hquery
  split_ifs at hquery with hexisted
  · cases hquery
  · cases call with
    | ofPublic =>
      obtain ⟨name, group, hpair, rfl⟩ := mem_createKnowledgeCollectionNamedGraphs.mp hquery
      obtain ⟨id, rfl⟩ := hual (List.of_mem_zip hpair).1
      refine ⟨⟨id, .ofPublic, rfl⟩, ?_⟩
      rintro rfl
      exact (groupedBySubject_publicGroups h _).ne_nil (List.of_mem_zip hpair).2
    | ofPrivate =>
      simp only [privateQueries] at hquery
      split_ifs at hquery with hnone
      · cases hquery
      · obtain ⟨name, group, hpair, rfl⟩ := mem_createKnowledgeCollectionNamedGraphs.mp hquery
        obtain ⟨privateGroup, -, hname⟩ := List.mem_filterMap.mp (List.of_mem_zip hpair).1
        obtain ⟨index, -, rfl⟩ := Option.map_eq_some_iff.mp hname
        refine ⟨⟨index + 1, .ofPrivate, rfl⟩, ?_⟩
        rintro rfl
        exact (h _).ne_nil (List.of_mem_zip hpair).2

/-- STEP: the inserts that are left stay those of the assets. -/
theorem Named.step {ual : String} {event : InsertionEvent} (h : s.Named ual)
    (hstep : s.step event = some s') : s'.Named ual := by
  obtain ⟨call, accepted, query, rest, -, -, rfl⟩ | ⟨accepted, -, -, rfl⟩ |
    ⟨-, -, -, rfl⟩ | ⟨-, -, -, rfl⟩ | ⟨-, -, rfl⟩ | ⟨succeeded, -, -, rfl⟩ :=
      act_cases (act_of_step hstep)
  · refine ⟨h.uals, ?_⟩
    intro call' query' hquery'
    by_cases hcall : call' = call
    · subst hcall
      simp only [Function.update_self] at hquery'
      exact h.left call' query' (GraphsPromise.mem_of_mem_answered hquery')
    · simp only [Function.update_of_ne hcall] at hquery'
      exact h.left call' query' hquery'
  all_goals exact ⟨h.uals, h.left⟩

/-- STEP: a triple in a graph of the collection stays, also through the rollback. -/
theorem Landed.step {ual : String} {event : InsertionEvent} (h : s.Landed ual)
    (hnamed : s.Named ual) (hstep : s.step event = some s') : s'.Landed ual := by
  obtain ⟨id, visibility, nquad, hnquad⟩ := h
  refine ⟨id, visibility, nquad, ?_⟩
  obtain ⟨call, accepted, query, rest, -, -, rfl⟩ | ⟨accepted, -, -, rfl⟩ |
    ⟨-, -, -, rfl⟩ | ⟨-, -, -, rfl⟩ | ⟨-, -, rfl⟩ | ⟨succeeded, -, -, rfl⟩ :=
      act_cases (act_of_step hstep)
  · cases accepted with
    | true => exact NamedGraphs.mem_insertData.mpr (.inl hnquad)
    | false => exact hnquad
  · cases accepted with
    | true => exact NamedGraphs.mem_insertData.mpr (.inl hnquad)
    | false => exact hnquad
  case inr.inr.inr.inr.inr =>
    simp only
    split_ifs with hdrop
    · rw [NamedGraphs.dropGraphs, if_neg]
      · exact hnquad
      · intro hname
        obtain ⟨id', heq⟩ := hnamed.uals _ hname
        exact assetUAL_ne_graphName heq.symm
    · exact hnquad
  all_goals exact hnquad

/-- STEP: an insert into a graph that is accepted lands there. -/
theorem landed_of_answer {ual : String} {event : InsertionEvent} {call : GraphsCall}
    (hnamed : s.Named ual) (hmove : event.move = .answer call true)
    (hstep : s.step event = some s') : s'.Landed ual := by
  have hact := act_of_step hstep
  rw [hmove] at hact
  obtain ⟨call', accepted, query, rest, hanswer, hleft, rfl⟩ | ⟨_, hne, -⟩ | ⟨hne, -⟩ | ⟨hne, -⟩ |
    ⟨hne, -⟩ | ⟨_, hne, -⟩ := act_cases hact
  · obtain ⟨rfl, rfl⟩ := InsertionMove.answer.inj hanswer
    obtain ⟨⟨id, visibility, hgraph⟩, hne⟩ := hnamed.left call query (by simp [hleft])
    obtain ⟨nquad, hnquad⟩ := List.exists_mem_of_ne_nil _ hne
    exact ⟨id, visibility, nquad, NamedGraphs.mem_insertData.mpr (.inr ⟨hgraph, hnquad⟩)⟩
  all_goals cases hne

/-- RUN: once an insert into a graph is accepted, the collection has triples in its graphs. -/
theorem landed_of_run {ual : String} {events : List InsertionEvent} {call : GraphsCall}
    (hnamed : s.Named ual) (hrun : s.run events = some s')
    (hevent : ∃ event ∈ events, event.move = .answer call true) : s'.Landed ual := by
  induction events generalizing s with
  | nil =>
    obtain ⟨event, hmem, -⟩ := hevent
    cases hmem
  | cons event events ih =>
    obtain ⟨s₁, hfirst, hrest⟩ := Option.bind_eq_some_iff.mp hrun
    by_cases hmove : event.move = .answer call true
    · have hkept := run_induction (fun s => s.Named ual ∧ s.Landed ual)
        (fun _ _ _ _ h hstep => ⟨h.1.step hstep, h.2.step h.1 hstep⟩)
        ⟨hnamed.step hfirst, landed_of_answer hnamed hmove hfirst⟩ hrest
      exact hkept.2
    · obtain ⟨later, hlater, hlaterMove⟩ := hevent
      rcases List.mem_cons.mp hlater with rfl | hlater
      · exact absurd hlaterMove hmove
      · exact ih (hnamed.step hfirst) hrest ⟨later, hlater, hlaterMove⟩

/-- The store is as it was, but for the metadata where it was accepted. -/
structure Untouched (ual : String) (store : NamedGraphs) (s : Insertion) : Prop where
  uals : ∀ name ∈ s.uals, ∃ id, name = assetUAL ual id
  store : s.metadata ≠ .fulfilled → s.store = store

theorem assetUAL_without {store : NamedGraphs} {ual : String} (h : store.WithoutUnder ual)
    (id : ℕ) : store (assetUAL ual id) = ∅ := h (toString id)

theorem graphName_without {store : NamedGraphs} {ual : String} (h : store.WithoutUnder ual)
    (id : ℕ) (visibility : TriplesVisibility) :
    store (graphName (assetUAL ual id) visibility) = ∅ := by
  rw [graphName, assetUAL, String.append_assoc, String.append_assoc]
  exact h _

/-- STEP: as long as no insert into a graph is accepted, the store stays as it was. -/
theorem Untouched.step {ual : String} {store : NamedGraphs} {event : InsertionEvent}
    (hnew : store.WithoutUnder ual) (hrejects : ∀ call, event.move ≠ .answer call true)
    (h : s.Untouched ual store) (hstep : s.step event = some s') : s'.Untouched ual store := by
  obtain ⟨call, accepted, query, rest, hmove, -, rfl⟩ | ⟨accepted, -, hpending, rfl⟩ |
    ⟨-, -, -, rfl⟩ | ⟨-, -, -, rfl⟩ | ⟨-, -, rfl⟩ | ⟨succeeded, -, -, rfl⟩ :=
      act_cases (act_of_step hstep)
  · cases accepted with
    | true => exact absurd hmove (hrejects call)
    | false => exact ⟨h.uals, h.store⟩
  · cases accepted with
    | true => exact ⟨h.uals, fun hne => absurd rfl hne⟩
    | false => exact ⟨h.uals, fun _ => h.store (by rw [hpending]; decide)⟩
  case inr.inr.inr.inr.inr =>
    refine ⟨h.uals, ?_⟩
    intro hmetadata
    simp only
    rw [h.store hmetadata]
    split_ifs with hdrop
    · funext name
      rw [NamedGraphs.dropGraphs]
      split_ifs with hname
      · obtain ⟨id, rfl⟩ := h.uals name hname
        exact (assetUAL_without hnew id).symm
      · rfl
    · rfl
  all_goals exact ⟨h.uals, h.store⟩

/-- CODE BUG (rollback): where the insertion has thrown, every graph is as before the call if and
    only if the store accepted no insert into a graph of the collection. The rollback undoes none.
    -/
theorem rollback_restores_iff (service : TripleStoreService) (hgroups : service.GroupsBySubject)
    (store : NamedGraphs) (ual : String) (triples : CollectionTriples) (retries : ℕ)
    (hnew : store.WithoutUnder ual) (events : List InsertionEvent) (s : Insertion)
    (hrun : (start service store ual triples retries).run events = some s)
    (hthrew : s.phase = .threw) :
    s.store = store ↔ ∀ event ∈ events, ∀ call, event.move ≠ .answer call true := by
  have hnamed := named_start hgroups store ual triples retries
  constructor
  · intro hstore event hevent call hmove
    obtain ⟨id, visibility, nquad, hnquad⟩ := landed_of_run hnamed hrun ⟨event, hevent, hmove⟩
    rw [hstore, graphName_without hnew] at hnquad
    exact absurd hnquad (Finset.notMem_empty nquad)
  · intro hrejects
    have huntouched := run_induction (Untouched ual store)
      (fun event hevent _ _ h hstep => h.step hnew (hrejects event hevent) hstep)
      (⟨hnamed.uals, fun _ => rfl⟩ : (start service store ual triples retries).Untouched ual store)
      hrun
    have hdoomed := run_induction Doomed (fun _ _ _ _ hkept hstep => hkept.step hstep)
      (doomed_start service store ual triples retries) hrun
    refine huntouched.store ?_
    rw [(hdoomed.1 (hdoomed.2 (.inr hthrew))).1]
    decide

theorem rollback_restores_iff_upAgain : ∃ s, oneAssetStart.run upAgain = some s ∧
    (s.store = (fun _ => ∅) ↔ ∀ event ∈ upAgain, ∀ call, event.move ≠ .answer call true) := by
  obtain ⟨s, hrun, hphase⟩ := exists_run_upAgain
  exact ⟨s, hrun, rollback_restores_iff sortingService groupsBySubject_sortingService (fun _ => ∅)
    "did:dkg:otp:2043/0xa/1" oneAsset 2 (fun _ => rfl) upAgain s hrun hphase⟩

/-- The store accepts the public graph and then nothing but the rollback. -/
def failsAfterGraph : List InsertionEvent :=
  [⟨.answer .ofPublic true, false⟩, ⟨.answerMetadata false, false⟩, ⟨.settle, false⟩,
    ⟨.wake, false⟩, ⟨.settle, false⟩, ⟨.rollback true, false⟩]

/-- COUNTEREXAMPLE: the insertion throws, and the public graph is still there. -/
theorem not_restored_failsAfterGraph : ∃ s, oneAssetStart.run failsAfterGraph = some s ∧
    s.phase = .threw ∧
      "<a> <p> <o> ." ∈ s.store (graphName (assetUAL "did:dkg:otp:2043/0xa/1" 1) .ofPublic) ∧
      s.store ≠ fun _ => ∅ := by
  have hend : (oneAssetStart.run failsAfterGraph).map (fun s => (s.phase, decide ("<a> <p> <o> ." ∈
      s.store (graphName (assetUAL "did:dkg:otp:2043/0xa/1" 1) .ofPublic)))) =
        some (.threw, true) := by decide
  obtain ⟨s, hrun, heq⟩ := Option.map_eq_some_iff.mp hend
  obtain ⟨hphase, hmem⟩ := Prod.mk.inj heq
  refine ⟨s, hrun, hphase, of_decide_eq_true hmem, ?_⟩
  intro hstore
  rw [hstore] at hmem
  exact absurd hmem (by decide)

end Insertion

end OtNode
