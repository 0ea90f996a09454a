import OtNode.Lib.Table
import OtNode.Operation.Types

/-! The acknowledgements of finality, and how many there are for a UAL.

    They are saved by `PublishFinalitySaveAckCommand`, for the node that sent the request, and by
    `StoreAssertionCommand`, for the publisher when that is this node. Any number of these commands
    run side by side, each may be run again, and each call may fail, before or after it took effect.
    A request that is answered with an `ACK` is counted, and so is this node, once it has stored the
    assertion of a publish of its own; nothing else is. -/

namespace OtNode

/-- A row of the `finality_status` table, less its id and its timestamps. -/
structure FinalityStatus where
  operationId : String
  ual : String
  peerId : String
  deriving DecidableEq

/-- The unique constraint of the migration. -/
def FinalityStatus.key (row : FinalityStatus) : String × String := (row.ual, row.peerId)

/-- The `finality_status` table. -/
abbrev FinalityStatusTable := Table FinalityStatus.key

namespace FinalityStatusRepository

/-- `getFinalityAcksCount`. -/
def getFinalityAcksCount (ual : String) (t : FinalityStatusTable) : ℕ :=
  t.count fun row => row.key.1 == ual

/-- `ON DUPLICATE KEY UPDATE` of the columns that are given. -/
def updateOnDuplicate : Table.Merge FinalityStatus.key where
  apply old new := { old with operationId := new.operationId }
  keeps _ _ := rfl

/-- `saveFinalityAck`. -/
def saveFinalityAck (operationId ual peerId : String) (t : FinalityStatusTable) :
    FinalityStatusTable :=
  t.upsert updateOnDuplicate ⟨operationId, ual, peerId⟩

end FinalityStatusRepository

open FinalityStatusRepository

/-- What the data of a finality request holds. -/
structure FinalityMessage where
  ual : String
  publishOperationId : String
  blockchain : String
  deriving DecidableEq

/-- The data of a `PublishFinalitySaveAckCommand`. -/
structure SaveAckData where
  ual : String
  publishOperationId : String
  blockchain : String
  operationId : String
  remotePeerId : String
  state : Option String
  deriving DecidableEq

/-- The UAL that is saved: with the state, if there is one. -/
def SaveAckData.ualWithState (data : SaveAckData) : String :=
  match data.state with
  | none => data.ual
  | some state => if state = "" then data.ual else data.ual ++ ":" ++ state

/-- The data of a `StoreAssertionCommand`, as far as it concerns the acknowledgement. -/
structure StoreAssertionData where
  ual : String
  publishOperationId : String
  operationId : String
  publisherPeerId : Option String
  deriving DecidableEq

/-- The commands that save acknowledgements. -/
inductive AckCommand where
  | publishFinalitySaveAck (data : SaveAckData)
  | storeAssertion (data : StoreAssertionData)
  deriving DecidableEq

/-- `v1_0_0HandleRequest` of the finality controller. -/
def FinalityMessage.handleRequest (message : FinalityMessage) (operationId remotePeerId : String) :
    AckCommand :=
  .publishFinalitySaveAck ⟨message.ual, message.publishOperationId, message.blockchain, operationId,
    remotePeerId, none⟩

/-- The UAL and the peer of an acknowledgement. -/
structure Ack where
  ual : String
  peerId : String
  deriving DecidableEq

/-- One awaited call. -/
inductive AckEffect where
  | updateOperationIdStatus (operationId : String) (status : OperationIdStatus)
  | insertKnowledgeCollection (ual : String)
  | saveFinalityAck (publishOperationId : String) (ack : Ack)
  | markOperationAsCompleted (operationId : String) (success : Bool)
  | handleError (operationId : String)
  deriving DecidableEq

/-- How a call ends: a call that throws may have taken effect. -/
inductive AckOutcome where
  | ok
  | throws (applied : Bool)
  deriving DecidableEq

namespace AckCommand

/-- The calls of `PublishFinalitySaveAckCommand` after its `try` block, where `success` is known. -/
def afterSave (data : SaveAckData) (success : Bool) : List AckEffect :=
  [.markOperationAsCompleted data.operationId success,
    .updateOperationIdStatus data.operationId .publishFinalityRemoteEnd]

/-- `execute`: the calls, as long as none throws. -/
def execute (myPeerId : String) : AckCommand → List AckEffect
  | publishFinalitySaveAck data =>
    [.updateOperationIdStatus data.operationId .publishFinalityRemoteStart,
      .saveFinalityAck data.publishOperationId ⟨data.ualWithState, data.remotePeerId⟩] ++
    afterSave data true
  | storeAssertion data =>
    [.updateOperationIdStatus data.operationId .publishFinalizationStoreAssertionStart,
      .insertKnowledgeCollection data.ual,
      .updateOperationIdStatus data.operationId .publishFinalizationStoreAssertionEnd] ++
    if data.publisherPeerId = some myPeerId then
      [.saveFinalityAck data.publishOperationId ⟨data.ual, myPeerId⟩]
    else []

/-- What a command goes on with when a call has thrown: both have it in a `try` block, and the first
    answers with a `NACK`. -/
def onThrow : AckCommand → AckEffect → List AckEffect
  | publishFinalitySaveAck data, .saveFinalityAck .. => afterSave data false
  | publishFinalitySaveAck _, _ => []
  | storeAssertion data, effect =>
    match effect with
    -- outside of the `try` block
    | .updateOperationIdStatus _ .publishFinalizationStoreAssertionStart | .handleError _ => []
    | _ => [.handleError data.operationId]

end AckCommand

/-- A command that is executed, and the calls it is to make. -/
structure AckExecution where
  command : AckCommand
  calls : List AckEffect
  deriving DecidableEq

/-- The table, the commands that were added, and their executions. -/
structure AckState where
  acks : FinalityStatusTable
  commands : List AckCommand
  executions : List AckExecution

/-- What happens: a request of a peer arrives; a command is added, by a finalisation for one; a
    command is executed, the first time or again; the call that an execution awaits ends. -/
inductive AckAction where
  | request (message : FinalityMessage) (operationId remotePeerId : String)
  | add (command : AckCommand)
  | execute (i : ℕ)
  | reply (i : ℕ) (outcome : AckOutcome)
  deriving DecidableEq

namespace AckState

variable (myPeerId : String) (s : AckState)

/-- Nothing is saved yet. -/
def initial : AckState := ⟨.empty, [], []⟩

/-- The call took effect. -/
def AckOutcome.applied : AckOutcome → Bool
  | .ok => true
  | .throws applied => applied

/-- What a call does to the table. -/
def perform : AckEffect → FinalityStatusTable
  | .saveFinalityAck publishOperationId ack =>
    saveFinalityAck publishOperationId ack.ual ack.peerId s.acks
  | _ => s.acks

/-- The call that an execution awaits ends. -/
def reply (i : ℕ) (outcome : AckOutcome) : AckState :=
  match s.executions[i]? with
  | none | some ⟨_, []⟩ => s
  | some ⟨command, call :: rest⟩ => { s with
      acks := if AckOutcome.applied outcome then s.perform call else s.acks
      executions := s.executions.set i
        ⟨command, if outcome = .ok then rest else command.onThrow call⟩ }

/-- A step. -/
def act : AckAction → AckState
  | .request message operationId remotePeerId =>
    { s with commands := s.commands ++ [message.handleRequest operationId remotePeerId] }
  | .add command => { s with commands := s.commands ++ [command] }
  | .execute i =>
    match s.commands[i]? with
    | none => s
    | some command =>
      { s with executions := s.executions ++ [⟨command, command.execute myPeerId⟩] }
  | .reply i outcome => s.reply i outcome

/-- The steps of a run. -/
def run (actions : List AckAction) : AckState := actions.foldl (act myPeerId) s

/-- The acknowledgement that a step saves. -/
def savedBy : AckAction → Option Ack
  | .reply i outcome =>
    match s.executions[i]? with
    | some ⟨_, .saveFinalityAck _ ack :: _⟩ =>
      if AckOutcome.applied outcome then some ack else none
    | _ => none
  | _ => none

/-- The acknowledgements that the steps of a run save. -/
def saved : List AckAction → AckState → List Ack
  | [], _ => []
  | a :: actions, s => (s.savedBy a).toList ++ saved actions (s.act myPeerId a)

/-- What a step shows: the triple store has the assertion, the command that had it stored goes on
    with its sequence, or the operation of a request is completed, with a `success` that its `ACK`
    stands for. -/
inductive AckNotice where
  | inserted (data : StoreAssertionData)
  | stored (data : StoreAssertionData)
  | completed (data : SaveAckData) (success : Bool)
  deriving DecidableEq

/-- What a step shows. -/
def noticedBy : AckAction → Option AckNotice
  | .reply i outcome =>
    match s.executions[i]? with
    | some ⟨.storeAssertion data, .insertKnowledgeCollection _ :: _⟩ =>
      if outcome = .ok then some (.inserted data) else none
    -- the end of the `catch` block
    | some ⟨.storeAssertion _, [.handleError _]⟩ => none
    | some ⟨.storeAssertion data, [_]⟩ => if outcome = .ok then some (.stored data) else none
    | some ⟨.publishFinalitySaveAck data, .markOperationAsCompleted _ success :: _⟩ =>
      if AckOutcome.applied outcome then some (.completed data success) else none
    | _ => none
  | _ => none

/-- What the steps of a run show. -/
def noticed : List AckAction → AckState → List AckNotice
  | [], _ => []
  | a :: actions, s => (s.noticedBy a).toList ++ noticed actions (s.act myPeerId a)

/-- The peers whose acknowledgement for the UAL is among them. -/
def peers (ual : String) (acks : List Ack) : Finset String :=
  ((acks.filter (·.ual = ual)).map (·.peerId)).toFinset

end AckState

namespace AckState

variable {myPeerId : String} {s : AckState} {ual peerId : String}

theorem mem_peers {acks : List Ack} : peerId ∈ peers ual acks ↔ ⟨ual, peerId⟩ ∈ acks := by
  simp only [peers, List.mem_toFinset, List.mem_map, List.mem_filter, decide_eq_true_eq]
  constructor
  · rintro ⟨⟨_, _⟩, ⟨hack, rfl⟩, rfl⟩
    exact hack
  · intro hack
    exact ⟨_, ⟨hack, rfl⟩, rfl⟩

/-- COUNT: the rows of a UAL are its peers. -/
theorem getFinalityAcksCount_eq (t : FinalityStatusTable) :
    getFinalityAcksCount ual t
      = ((t.keys.toFinset.filter fun k => k.1 = ual).image Prod.snd).card := by
  have hcount : getFinalityAcksCount ual t = _ :=
    Table.count_eq_card (fun k : String × String => k.1 == ual) t
  rw [hcount, Finset.card_image_of_injOn]
  · congr 1
    ext k
    simp
  · intro k hk l hl hpeer
    obtain ⟨-, hk⟩ := Finset.mem_filter.mp (Finset.mem_coe.mp hk)
    obtain ⟨-, hl⟩ := Finset.mem_filter.mp (Finset.mem_coe.mp hl)
    exact Prod.ext (hk.trans hl.symm) hpeer

/-- STEP: the keys of the table are the acknowledgements saved before, and the one that is saved. -/
theorem mem_keys_act {a : AckAction} {k : String × String} :
    k ∈ (s.act myPeerId a).acks.keys ↔ s.savedBy a = some ⟨k.1, k.2⟩ ∨ k ∈ s.acks.keys := by
  cases a with
  | request message operationId remotePeerId => simp [act, savedBy]
  | add command => simp [act, savedBy]
  | execute i =>
    rw [act]
    split <;> simp [savedBy]
  | reply i outcome =>
    rw [act, reply, savedBy]
    split
    · simp_all
    · next hexecution => simp [hexecution]
    · next command call rest hexecution =>
      rw [hexecution]
      cases call with
      | saveFinalityAck publishOperationId ack =>
        split
        · rw [perform, saveFinalityAck, Table.mem_keys_upsert, Option.some.injEq]
          have hkey : k = FinalityStatus.key ⟨publishOperationId, ack.ual, ack.peerId⟩
              ↔ ack = ⟨k.1, k.2⟩ := by
            cases k
            cases ack
            simp [FinalityStatus.key, eq_comm]
          rw [hkey]
        · simp
      | _ => simp [perform]

/-- RUN: the keys of the table are the acknowledgements saved. -/
theorem mem_keys_run {actions : List AckAction} {k : String × String} :
    k ∈ (s.run myPeerId actions).acks.keys ↔
      ⟨k.1, k.2⟩ ∈ saved myPeerId actions s ∨ k ∈ s.acks.keys := by
  induction actions generalizing s with
  | nil => simp [run, saved]
  | cons a actions ih =>
    have hrun : s.run myPeerId (a :: actions) = (s.act myPeerId a).run myPeerId actions := rfl
    rw [hrun, ih, mem_keys_act, saved, List.mem_append, Option.mem_toList]
    tauto

/-- STEP (count): what is saved for a UAL leaves the counts of the others. -/
theorem count_act_of_ne {a : AckAction} (h : ∀ ack, s.savedBy a = some ack → ack.ual ≠ ual) :
    getFinalityAcksCount ual (s.act myPeerId a).acks = getFinalityAcksCount ual s.acks := by
  rw [getFinalityAcksCount_eq, getFinalityAcksCount_eq]
  congr 2
  ext k
  simp only [Finset.mem_filter, List.mem_toFinset, mem_keys_act]
  constructor
  · rintro ⟨hsaved | hk, hual⟩
    · exact absurd hual (h _ hsaved)
    · exact ⟨hk, hual⟩
  · rintro ⟨hk, hual⟩
    exact ⟨.inr hk, hual⟩

/-! ### Whose acknowledgements they are -/

/-- The acknowledgements are those of the requests that were answered with an `ACK`, and this node's
    of the assertions of its own that it stored. -/
structure Accounted (myPeerId : String) (acks : List Ack) (notices : List AckNotice)
    (commands : List AckCommand) : Prop where
  own : ∀ data, .stored data ∈ notices → data.publisherPeerId = some myPeerId →
    ⟨data.ual, myPeerId⟩ ∈ acks
  acked : ∀ data, .completed data true ∈ notices → ⟨data.ualWithState, data.remotePeerId⟩ ∈ acks
  justified : ∀ ack ∈ acks,
    (∃ data, .publishFinalitySaveAck data ∈ commands ∧
        ack = ⟨data.ualWithState, data.remotePeerId⟩) ∨
      ∃ data, .inserted data ∈ notices ∧ data.publisherPeerId = some myPeerId ∧
        ack = ⟨data.ual, myPeerId⟩

/-- The calls that are left of an execution, by what is saved and shown. A call that throws leaves
    what comes after the `try` block, or nothing. -/
def Stands (myPeerId : String) (acks : List Ack) (notices : List AckNotice) : AckExecution → Prop
  | ⟨.publishFinalitySaveAck data, calls⟩ =>
    calls = (AckCommand.publishFinalitySaveAck data).execute myPeerId ∨
      calls = ((AckCommand.publishFinalitySaveAck data).execute myPeerId).drop 1 ∨
      (calls <:+ AckCommand.afterSave data true ∧
        (calls ≠ [] → ⟨data.ualWithState, data.remotePeerId⟩ ∈ acks)) ∨
      calls <:+ AckCommand.afterSave data false
  | ⟨.storeAssertion data, calls⟩ =>
    calls <:+ (AckCommand.storeAssertion data).execute myPeerId ∧
        (calls ≠ [] → .insertKnowledgeCollection data.ual ∉ calls → .inserted data ∈ notices) ∨
      calls <:+ [.handleError data.operationId]

/-- The executions are of the commands that were added, and go on as they should. -/
def Orderly (myPeerId : String) (acks : List Ack) (notices : List AckNotice) (s : AckState) : Prop :=
  ∀ execution ∈ s.executions,
    execution.command ∈ s.commands ∧ Stands myPeerId acks notices execution

variable {acks acks' : List Ack} {notices notices' : List AckNotice} {execution : AckExecution}

theorem Stands.mono (h : Stands myPeerId acks notices execution) (hacks : acks ⊆ acks')
    (hnotices : notices ⊆ notices') : Stands myPeerId acks' notices' execution := by
  obtain ⟨command, calls⟩ := execution
  cases command with
  | publishFinalitySaveAck data =>
    exact h.imp_right (Or.imp_right (Or.imp_left (And.imp_right fun hack hne => hacks (hack hne))))
  | storeAssertion data =>
    exact h.imp_left (And.imp_right fun hinserted hne hnot => hnotices (hinserted hne hnot))

theorem stands_execute (command : AckCommand) :
    Stands myPeerId acks notices ⟨command, command.execute myPeerId⟩ := by
  cases command with
  | publishFinalitySaveAck data => exact .inl rfl
  | storeAssertion data =>
    refine .inl ⟨List.suffix_refl _, fun _ hnot => absurd ?_ hnot⟩
    simp [AckCommand.execute]

/-- The calls of `StoreAssertionCommand` that come from one call on. -/
theorem suffix_storeAssertion {data : StoreAssertionData} {call : AckEffect} {rest : List AckEffect}
    (h : call :: rest <:+ (AckCommand.storeAssertion data).execute myPeerId) :
    (call = .updateOperationIdStatus data.operationId .publishFinalizationStoreAssertionStart ∧
        .insertKnowledgeCollection data.ual ∈ rest) ∨
      (call = .insertKnowledgeCollection data.ual ∧ .insertKnowledgeCollection data.ual ∉ rest ∧
        rest ≠ []) ∨
      .insertKnowledgeCollection data.ual ∉ call :: rest ∧
        ((call = .updateOperationIdStatus data.operationId .publishFinalizationStoreAssertionEnd ∧
            (rest = [] → data.publisherPeerId ≠ some myPeerId)) ∨
          (call = .saveFinalityAck data.publishOperationId ⟨data.ual, myPeerId⟩ ∧
            data.publisherPeerId = some myPeerId)) := by
  rw [AckCommand.execute] at h
  split at h
  · next hpublisher =>
    simp only [List.cons_append, List.nil_append, List.suffix_cons_iff, List.suffix_nil,
      List.cons.injEq, reduceCtorEq, or_false] at h
    rcases h with ⟨rfl, rfl⟩ | ⟨rfl, rfl⟩ | ⟨rfl, rfl⟩ | ⟨rfl, rfl⟩ <;> simp [hpublisher]
  · next hpublisher =>
    simp only [List.append_nil, List.suffix_cons_iff, List.suffix_nil, List.cons.injEq,
      reduceCtorEq, or_false] at h
    rcases h with ⟨rfl, rfl⟩ | ⟨rfl, rfl⟩ | ⟨rfl, rfl⟩ <;> simp [hpublisher]

/-- What is left of a `PublishFinalitySaveAckCommand` that has a call to make: the acknowledgement
    is next or still to come, or it is saved, or it could not be. -/
theorem stands_publishFinalitySaveAck {data : SaveAckData} {call : AckEffect}
    {rest : List AckEffect}
    (h : Stands myPeerId acks notices ⟨.publishFinalitySaveAck data, call :: rest⟩) :
    (call = .updateOperationIdStatus data.operationId .publishFinalityRemoteStart ∧
        rest = ((AckCommand.publishFinalitySaveAck data).execute myPeerId).drop 1) ∨
      (call = .saveFinalityAck data.publishOperationId ⟨data.ualWithState, data.remotePeerId⟩ ∧
        rest = AckCommand.afterSave data true) ∨
      (call :: rest <:+ AckCommand.afterSave data true ∧
        ⟨data.ualWithState, data.remotePeerId⟩ ∈ acks) ∨
      call :: rest <:+ AckCommand.afterSave data false := by
  rcases h with hfull | hsave | ⟨hsuffix, hack⟩ | hfailed
  · cases hfull
    exact .inl ⟨rfl, rfl⟩
  · cases hsave
    exact .inr (.inl ⟨rfl, rfl⟩)
  · exact .inr (.inr (.inl ⟨hsuffix, hack (List.cons_ne_nil _ _)⟩))
  · exact .inr (.inr (.inr hfailed))

/-- After the `try` block no acknowledgement is saved. -/
theorem not_save_of_suffix {data : SaveAckData} {success : Bool} {call : AckEffect}
    {rest : List AckEffect} (h : call :: rest <:+ AckCommand.afterSave data success) :
    (call = .markOperationAsCompleted data.operationId success) ∨
      call = .updateOperationIdStatus data.operationId .publishFinalityRemoteEnd := by
  simp only [AckCommand.afterSave, List.suffix_cons_iff, List.suffix_nil, List.cons.injEq,
    reduceCtorEq, or_false] at h
  exact h.imp And.left And.left

/-- What is left of a `StoreAssertionCommand` whose error is handled. -/
theorem eq_of_suffix_handleError {data : StoreAssertionData} {call : AckEffect}
    {rest : List AckEffect} (h : call :: rest <:+ [.handleError data.operationId]) :
    call = .handleError data.operationId ∧ rest = [] := by
  simpa [List.suffix_cons_iff] using h

section Reply

variable {i : ℕ} {outcome : AckOutcome} {command : AckCommand} {call : AckEffect}
  {rest : List AckEffect}

/-- STEP (call): an execution stands as it should when its call ends. -/
theorem stands_reply (hget : s.executions[i]? = some ⟨command, call :: rest⟩)
    (h : Stands myPeerId acks notices ⟨command, call :: rest⟩) :
    Stands myPeerId (acks ++ (s.savedBy (.reply i outcome)).toList)
      (notices ++ (s.noticedBy (.reply i outcome)).toList)
      ⟨command, if outcome = .ok then rest else command.onThrow call⟩ := by
  cases command with
  | publishFinalitySaveAck data =>
    rcases stands_publishFinalitySaveAck h with
      ⟨rfl, rfl⟩ | ⟨rfl, rfl⟩ | ⟨hsuffix, hack⟩ | hfailed
    · split
      · exact .inr (.inl rfl)
      · exact .inr (.inr (.inr List.nil_suffix))
    · split
      · next hok =>
        refine .inr (.inr (.inl ⟨List.suffix_refl _, fun _ => List.mem_append_right _ ?_⟩))
        simp [savedBy, hget, hok, AckOutcome.applied]
      · exact .inr (.inr (.inr (List.suffix_refl _)))
    · split
      · refine .inr (.inr (.inl ⟨(List.suffix_cons call rest).trans hsuffix, fun _ => ?_⟩))
        exact List.mem_append_left _ hack
      · rcases not_save_of_suffix hsuffix with rfl | rfl <;>
          exact .inr (.inr (.inr List.nil_suffix))
    · split
      · exact .inr (.inr (.inr ((List.suffix_cons call rest).trans hfailed)))
      · rcases not_save_of_suffix hfailed with rfl | rfl <;>
          exact .inr (.inr (.inr List.nil_suffix))
  | storeAssertion data =>
    rcases h with ⟨hcalls, hinserted⟩ | herror
    · split
      · next hok =>
        refine .inl ⟨(List.suffix_cons call rest).trans hcalls, fun _ hnot => ?_⟩
        rcases suffix_storeAssertion hcalls with ⟨-, hin⟩ | ⟨rfl, -⟩ | ⟨hbehind, -⟩
        · exact absurd hin hnot
        · exact List.mem_append_right _ (by simp [noticedBy, hget, hok])
        · exact List.mem_append_left _ (hinserted (List.cons_ne_nil _ _) hbehind)
      · refine .inr ?_
        rcases suffix_storeAssertion hcalls with ⟨rfl, -⟩ | ⟨rfl, -⟩ | ⟨-, ⟨rfl, -⟩ | ⟨rfl, -⟩⟩
        · exact List.nil_suffix
        all_goals exact List.suffix_refl _
    · obtain ⟨rfl, rfl⟩ := eq_of_suffix_handleError herror
      refine .inr ?_
      split <;> exact List.nil_suffix

/-- STEP (this node): when a `StoreAssertionCommand` of the publisher goes on, its acknowledgement
    is saved. -/
theorem savedBy_of_stored {data : StoreAssertionData}
    (hownPublish : data.publisherPeerId = some myPeerId)
    (h : ∀ execution ∈ s.executions, Stands myPeerId acks notices execution) {a : AckAction}
    (hnotice : s.noticedBy a = some (.stored data)) :
    s.savedBy a = some ⟨data.ual, myPeerId⟩ := by
  cases a with
  | reply i outcome =>
    rw [noticedBy] at hnotice
    split at hnotice
    · split at hnotice <;> cases hnotice
    · cases hnotice
    · next data' call _ herrorFree hget =>
      split at hnotice
      · next hok =>
        cases hnotice
        rcases h _ (List.mem_of_getElem? hget) with ⟨hcalls, -⟩ | herror
        · rcases suffix_storeAssertion hcalls with
            ⟨-, hin⟩ | ⟨-, -, hne⟩ | ⟨-, ⟨-, hother⟩ | ⟨rfl, -⟩⟩
          · cases hin
          · exact absurd rfl hne
          · exact absurd hownPublish (hother rfl)
          · simp [savedBy, hget, hok, AckOutcome.applied]
        · obtain ⟨rfl, -⟩ := eq_of_suffix_handleError herror
          exact (herrorFree data.operationId rfl).elim
      · cases hnotice
    · split at hnotice <;> cases hnotice
    · cases hnotice
  | _ => cases hnotice

/-- STEP (request): when an operation is completed with success, the acknowledgement is saved. -/
theorem mem_of_completed {data : SaveAckData}
    (h : ∀ execution ∈ s.executions, Stands myPeerId acks notices execution) {a : AckAction}
    (hnotice : s.noticedBy a = some (.completed data true)) :
    ⟨data.ualWithState, data.remotePeerId⟩ ∈ acks := by
  cases a with
  | reply i outcome =>
    rw [noticedBy] at hnotice
    split at hnotice
    · split at hnotice <;> cases hnotice
    · cases hnotice
    · split at hnotice <;> cases hnotice
    · next data' operationId success rest hget =>
      split at hnotice
      · cases hnotice
        rcases stands_publishFinalitySaveAck (h _ (List.mem_of_getElem? hget)) with
          ⟨hcall, -⟩ | ⟨hcall, -⟩ | ⟨-, hack⟩ | hfailed
        · cases hcall
        · cases hcall
        · exact hack
        · rcases not_save_of_suffix hfailed with hcall | hcall <;> cases hcall
      · cases hnotice
    · cases hnotice
  | _ => cases hnotice

/-- STEP (whose): what is saved is for a request that was received, or for this node, which has
    stored the assertion. -/
theorem justified_savedBy (h : Orderly myPeerId acks notices s) {a : AckAction} {ack : Ack}
    (hsaved : s.savedBy a = some ack) :
    (∃ data, .publishFinalitySaveAck data ∈ s.commands ∧
        ack = ⟨data.ualWithState, data.remotePeerId⟩) ∨
      ∃ data, .inserted data ∈ notices ∧ data.publisherPeerId = some myPeerId ∧
        ack = ⟨data.ual, myPeerId⟩ := by
  cases a with
  | reply i outcome =>
    rw [savedBy] at hsaved
    split at hsaved
    · next command publishOperationId ack' rest hget =>
      split at hsaved
      · cases hsaved
        obtain ⟨hcommand, hstands⟩ := h _ (List.mem_of_getElem? hget)
        cases command with
        | publishFinalitySaveAck data =>
          refine .inl ⟨data, hcommand, ?_⟩
          rcases stands_publishFinalitySaveAck hstands with
            ⟨hcall, -⟩ | ⟨hcall, -⟩ | ⟨hsuffix, -⟩ | hfailed
          · cases hcall
          · cases hcall
            rfl
          · rcases not_save_of_suffix hsuffix with hcall | hcall <;> cases hcall
          · rcases not_save_of_suffix hfailed with hcall | hcall <;> cases hcall
        | storeAssertion data =>
          rcases hstands with ⟨hcalls, hinserted⟩ | herror
          · rcases suffix_storeAssertion hcalls with
              ⟨hcall, -⟩ | ⟨hcall, -⟩ | ⟨hnot, ⟨hcall, -⟩ | ⟨hcall, hownPublish⟩⟩
            · cases hcall
            · cases hcall
            · cases hcall
            · cases hcall
              exact .inr ⟨data, hinserted (List.cons_ne_nil _ _) hnot, hownPublish, rfl⟩
          · cases (eq_of_suffix_handleError herror).1
      · cases hsaved
    · cases hsaved
  | _ => cases hsaved

end Reply

theorem commands_subset_act (a : AckAction) : s.commands ⊆ (s.act myPeerId a).commands := by
  cases a with
  | request message operationId remotePeerId => exact List.subset_append_left ..
  | add command => exact List.subset_append_left ..
  | execute i =>
    rw [act]
    split <;> exact List.Subset.refl _
  | reply i outcome =>
    rw [act, reply]
    split <;> exact List.Subset.refl _

/-- STEP (executions): the executions go on as they should. -/
theorem orderly_act (h : Orderly myPeerId acks notices s) (a : AckAction) :
    Orderly myPeerId (acks ++ (s.savedBy a).toList) (notices ++ (s.noticedBy a).toList)
      (s.act myPeerId a) := by
  have hstay : ∀ execution ∈ s.executions, execution.command ∈ (s.act myPeerId a).commands ∧
      Stands myPeerId (acks ++ (s.savedBy a).toList) (notices ++ (s.noticedBy a).toList)
        execution := by
    intro execution hexecution
    obtain ⟨hcommand, hstands⟩ := h execution hexecution
    exact ⟨commands_subset_act a hcommand,
      hstands.mono (List.subset_append_left ..) (List.subset_append_left ..)⟩
  intro execution hexecution
  cases a with
  | request message operationId remotePeerId => exact hstay execution hexecution
  | add command => exact hstay execution hexecution
  | execute i =>
    rw [act] at hexecution
    split at hexecution
    · exact hstay execution hexecution
    · next command hcommand =>
      rcases List.mem_append.mp hexecution with hearlier | hnew
      · exact hstay execution hearlier
      · obtain rfl := List.mem_singleton.mp hnew
        exact ⟨commands_subset_act _ (List.mem_of_getElem? hcommand), stands_execute command⟩
  | reply i outcome =>
    have hreply := hexecution
    rw [act, reply] at hreply
    split at hreply
    · exact hstay execution hreply
    · exact hstay execution hreply
    · next command call rest hget =>
      rcases List.mem_or_eq_of_mem_set hreply with hearlier | rfl
      · exact hstay execution hearlier
      · obtain ⟨hcommand, hstands⟩ := h _ (List.mem_of_getElem? hget)
        exact ⟨commands_subset_act _ hcommand, stands_reply hget hstands⟩

/-- STEP (whose): the acknowledgements stay accounted for. -/
theorem accounted_act (h : Orderly myPeerId acks notices s)
    (haccounted : Accounted myPeerId acks notices s.commands) (a : AckAction) :
    Accounted myPeerId (acks ++ (s.savedBy a).toList) (notices ++ (s.noticedBy a).toList)
      (s.act myPeerId a).commands where
  own data hnotice hownPublish := by
    rcases List.mem_append.mp hnotice with hearlier | hnew
    · exact List.mem_append_left _ (haccounted.own data hearlier hownPublish)
    · refine List.mem_append_right _ (Option.mem_toList.mpr ?_)
      exact savedBy_of_stored hownPublish (fun execution hexecution => (h execution hexecution).2)
        (Option.mem_toList.mp hnew)
  acked data hnotice := by
    rcases List.mem_append.mp hnotice with hearlier | hnew
    · exact List.mem_append_left _ (haccounted.acked data hearlier)
    · exact List.mem_append_left _ (mem_of_completed
        (fun execution hexecution => (h execution hexecution).2) (Option.mem_toList.mp hnew))
  justified ack hack := by
    have hjustified : (∃ data, .publishFinalitySaveAck data ∈ s.commands ∧
        ack = ⟨data.ualWithState, data.remotePeerId⟩) ∨ ∃ data, .inserted data ∈ notices ∧
          data.publisherPeerId = some myPeerId ∧ ack = ⟨data.ual, myPeerId⟩ := by
      rcases List.mem_append.mp hack with hearlier | hnew
      · exact haccounted.justified ack hearlier
      · exact justified_savedBy h (Option.mem_toList.mp hnew)
    rcases hjustified with ⟨data, hcommand, hack⟩ | ⟨data, hinserted, hrest⟩
    · exact .inl ⟨data, commands_subset_act a hcommand, hack⟩
    · exact .inr ⟨data, List.mem_append_left _ hinserted, hrest⟩

/-- RUN (whose): so they stay in a run. -/
theorem accounted_run (actions : List AckAction) (h : Orderly myPeerId acks notices s)
    (haccounted : Accounted myPeerId acks notices s.commands) :
    Accounted myPeerId (acks ++ saved myPeerId actions s) (notices ++ noticed myPeerId actions s)
      (s.run myPeerId actions).commands := by
  induction actions generalizing s acks notices with
  | nil => simpa [saved, noticed, run] using haccounted
  | cons a actions ih =>
    have hrest := ih (orderly_act h a) (accounted_act h haccounted a)
    rw [List.append_assoc, List.append_assoc] at hrest
    exact hrest

/-- CORRECT: the count of a UAL is the number of peers whose acknowledgement for it is saved, and an
    acknowledgement for another UAL leaves it. Saved are the acknowledgements of the requests that
    are answered with an `ACK`, and this node's as soon as it has stored an assertion that it
    published; and only those of requests and of assertions of its own that this node has inserted.
    -/
theorem getFinalityAcksCount_run (myPeerId : String) (actions : List AckAction) (ual : String) :
    let s := initial.run myPeerId actions
    let acks := saved myPeerId actions initial
    getFinalityAcksCount ual s.acks = (peers ual acks).card ∧
      (∀ a, (∀ ack, s.savedBy a = some ack → ack.ual ≠ ual) →
        getFinalityAcksCount ual (s.act myPeerId a).acks = getFinalityAcksCount ual s.acks) ∧
      Accounted myPeerId acks (noticed myPeerId actions initial) s.commands := by
  intro s acks
  refine ⟨?_, fun a => count_act_of_ne, ?_⟩
  · rw [getFinalityAcksCount_eq]
    congr 1
    ext peerId
    rw [mem_peers, Finset.mem_image]
    simp only [Finset.mem_filter, List.mem_toFinset]
    constructor
    · rintro ⟨⟨ual', peerId'⟩, ⟨hk, rfl⟩, rfl⟩
      exact (mem_keys_run.mp hk).resolve_right (by simp [initial])
    · intro hack
      exact ⟨(ual, peerId), ⟨mem_keys_run.mpr (.inl hack), rfl⟩, rfl⟩
  · have horderly : Orderly myPeerId [] [] initial := by simp [Orderly, initial]
    have haccounted : Accounted myPeerId [] [] initial.commands :=
      ⟨by simp, by simp, by simp⟩
    simpa using accounted_run actions horderly haccounted

/-- The node stores an assertion that it published, and a peer asks twice; the second time the first
    answer was lost. -/
def ackRun : List AckAction :=
  [.add (.storeAssertion ⟨"ual", "op", "s", some "P"⟩), .request ⟨"ual", "op", "chain"⟩ "r" "N",
    .request ⟨"ual", "op", "chain"⟩ "r" "N", .execute 0, .execute 1, .execute 2] ++
    List.replicate 4 (.reply 0 .ok) ++ List.replicate 4 (.reply 1 .ok) ++
    [.reply 2 .ok, .reply 2 (.throws true), .reply 2 .ok]

/-- Two peers are counted: the node itself and the one that asked. -/
theorem getFinalityAcksCount_run_ackRun :
    getFinalityAcksCount "ual" (initial.run "P" ackRun).acks = 2 ∧
      ⟨"ual", "P"⟩ ∈ saved "P" ackRun initial ∧ ⟨"ual", "N"⟩ ∈ saved "P" ackRun initial := by
  obtain ⟨hcount, -, haccounted⟩ := getFinalityAcksCount_run "P" ackRun "ual"
  have hown := haccounted.own ⟨"ual", "op", "s", some "P"⟩ (by decide) rfl
  have hacked := haccounted.acked ⟨"ual", "op", "chain", "r", "N", none⟩ (by decide)
  exact ⟨hcount.trans (by decide), hown, hacked⟩

end AckState

end OtNode
