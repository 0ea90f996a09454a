import OtNode.Lib.Network
import OtNode.Finalization.Acks

/-! The finality protocol between the nodes: what the acknowledgements at a publisher are worth.

    A node whose insertion of a collection has returned tells the publisher, through a sequence of
    commands that ends in a request; the publisher saves an acknowledgement for the node that sent
    it. Commands may be run again and fail at any point, requests may be lost, doubled and
    overtaken, and some nodes may send requests for collections they do not have. -/

namespace OtNode

open Network FinalityStatusRepository

/-- What the commands after `StoreAssertionCommand` carry of its data. -/
structure FinalityData where
  ual : String
  publishOperationId : String
  operationId : String
  blockchain : String
  remotePeerId : Option String
  deriving DecidableEq

/-- The commands that send the finality request. -/
inductive FinalityCommand where
  | findPublisherNode (data : FinalityData)
  | networkFinality (data : FinalityData) (leftoverNodes : List (Option String))
  | finalityScheduleMessages (data : FinalityData) (leftoverNodes : List (Option String))
      (batchSize : ℕ)
  | finalityRequest (data : FinalityData) (node : Option String)
  deriving DecidableEq

/-- A finality request: the operation id of the header, and the data. -/
structure FinalityRequest where
  operationId : String
  data : FinalityMessage
  deriving DecidableEq

namespace FinalityCommand

/-- `FINALITY_BATCH_SIZE`. -/
def finalityBatchSize : ℕ := 1

/-- `getBatchSize` of the finality service. -/
def getBatchSize (batchSize : Option ℕ) : ℕ := batchSize.getD finalityBatchSize

/-- The data of a command. -/
def data : FinalityCommand → FinalityData
  | findPublisherNode data | networkFinality data _ | finalityScheduleMessages data _ _
  | finalityRequest data _ => data

/-- `execute`: the commands that are added. No command before has set a batch size. -/
def execute : FinalityCommand → List FinalityCommand
  | findPublisherNode data => [.networkFinality data [data.remotePeerId]]
  | networkFinality data leftoverNodes =>
    [.finalityScheduleMessages data leftoverNodes (getBatchSize none)]
  | finalityScheduleMessages data leftoverNodes batchSize =>
    (leftoverNodes.take batchSize).map (.finalityRequest data)
  | finalityRequest _ _ => []

/-- `prepareMessage`. -/
def prepareMessage (data : FinalityData) : FinalityMessage :=
  ⟨data.ual, data.publishOperationId, data.blockchain⟩

/-- `execute` of the request command: what is sent, and to whom. No message can be sent to a
    publisher that is not known. -/
def send : FinalityCommand → List (String × FinalityRequest)
  | finalityRequest data (some node) => [(node, ⟨data.operationId, prepareMessage data⟩)]
  | _ => []

end FinalityCommand

/-- A node, as far as it takes part: the acknowledgements with the commands that save them, the
    blockchain of each finalisation, the collections whose insertion has returned, and the commands
    that send requests. -/
structure FinalityNode where
  acks : AckState
  blockchainOf : String → String
  inserted : List String
  commands : List FinalityCommand

/-- A step of a node: a `StoreAssertionCommand` is added for an event of the chain; a command that
    saves acknowledgements is executed, the first time or again; a call of it ends; a command that
    sends requests is executed, the first time or again, and adds one of its commands, or sends. -/
inductive FinalityAction where
  | add (data : StoreAssertionData) (blockchain : String)
  | execute (i : ℕ)
  | reply (i : ℕ) (outcome : AckOutcome)
  | continueSequence (i j : ℕ)
  | send (i : ℕ)
  deriving DecidableEq

namespace FinalityNode

variable (myPeerId : String) (s : FinalityNode)

/-- Nothing has happened yet. -/
def initial : FinalityNode := ⟨.initial, fun _ => "", [], []⟩

/-- The collection whose insertion returns. -/
def insertedBy (i : ℕ) (outcome : AckOutcome) : Option String :=
  match s.acks.executions[i]? with
  | some ⟨_, .insertKnowledgeCollection ual :: _⟩ => if outcome = .ok then some ual else none
  | _ => none

/-- The data that `findPublisherNodeCommand` gets of a `StoreAssertionCommand`. -/
def finalityData (data : StoreAssertionData) : FinalityData :=
  ⟨data.ual, data.publishOperationId, data.operationId, s.blockchainOf data.operationId,
    data.publisherPeerId⟩

/-- What `StoreAssertionCommand` goes on with, when the last call of its `try` block returns and
    this node is not the publisher. -/
def continuedBy (i : ℕ) (outcome : AckOutcome) : List FinalityCommand :=
  match s.acks.executions[i]? with
  | some ⟨.storeAssertion data, [.updateOperationIdStatus _ .publishFinalizationStoreAssertionEnd]⟩ =>
    if outcome = .ok ∧ data.publisherPeerId ≠ some myPeerId then
      [.findPublisherNode (s.finalityData data)]
    else []
  | _ => []

/-- A step, and the requests that are sent in it. -/
def act : FinalityAction → FinalityNode × List (String × FinalityRequest)
  | .add data blockchain =>
    ({ s with
        acks := s.acks.act myPeerId (.add (.storeAssertion data))
        blockchainOf := Function.update s.blockchainOf data.operationId blockchain }, [])
  | .execute i => ({ s with acks := s.acks.act myPeerId (.execute i) }, [])
  | .reply i outcome =>
    ({ s with
        acks := s.acks.act myPeerId (.reply i outcome)
        inserted := s.inserted ++ (s.insertedBy i outcome).toList
        commands := s.commands ++ s.continuedBy myPeerId i outcome }, [])
  | .continueSequence i j =>
    ({ s with
        commands := s.commands ++ (s.commands[i]?.bind fun command => command.execute[j]?).toList },
      [])
  | .send i => (s, (s.commands[i]?).elim [] FinalityCommand.send)

/-- A request arrives: the controller adds a command for the peer that sent it. -/
def receive (remotePeerId : String) (request : FinalityRequest) : FinalityNode :=
  { s with
    acks := s.acks.act myPeerId (.request request.data request.operationId remotePeerId) }

end FinalityNode

/-- The peer that a command saves an acknowledgement for by request of that peer, and the UAL. -/
def AckCommand.Reports (peerId ual : String) : AckCommand → Prop
  | .publishFinalitySaveAck data => data.remotePeerId = peerId ∧ data.ualWithState = ual
  | .storeAssertion _ => False

namespace FinalityNode

/-- The calls that are left of an execution, by what has been inserted. Once `StoreAssertionCommand`
    has its insertion behind it, the collection is inserted, unless only the error is left to
    handle. -/
def Follows (myPeerId : String) (inserted : List String) : AckExecution → Prop
  | ⟨.publishFinalitySaveAck data, calls⟩ =>
    calls <:+ (AckCommand.publishFinalitySaveAck data).execute myPeerId ∨
      calls <:+ AckCommand.afterSave data false
  | ⟨.storeAssertion data, calls⟩ =>
    calls <:+ (AckCommand.storeAssertion data).execute myPeerId ∧
        (.insertKnowledgeCollection data.ual ∉ calls → data.ual ∈ inserted) ∨
      calls <:+ [.handleError data.operationId]

/-- The executions go on as they should, and only what is inserted is reported. -/
structure Keeps (myPeerId : String) (s : FinalityNode) : Prop where
  follows : ∀ execution ∈ s.acks.executions, Follows myPeerId s.inserted execution
  reports : ∀ command ∈ s.commands, command.data.ual ∈ s.inserted

/-- The node has an acknowledgement of the peer for the UAL, or a command that is to save it. -/
def Heard (s : FinalityNode) (peerId ual : String) : Prop :=
  (ual, peerId) ∈ s.acks.acks.keys ∨ (∃ command ∈ s.acks.commands, command.Reports peerId ual) ∨
    ∃ execution ∈ s.acks.executions, execution.command.Reports peerId ual

variable {myPeerId : String} {s : FinalityNode} {inserted inserted' : List String}

theorem Follows.mono {execution : AckExecution} (h : Follows myPeerId inserted execution)
    (hsub : inserted ⊆ inserted') : Follows myPeerId inserted' execution := by
  obtain ⟨command, calls⟩ := execution
  cases command with
  | publishFinalitySaveAck data => exact h
  | storeAssertion data =>
    refine h.imp_left ?_
    rintro ⟨hcalls, hinserted⟩
    exact ⟨hcalls, fun hbehind => hsub (hinserted hbehind)⟩

/-- STEP (call): the executions after a call has ended, and the one it belongs to. -/
theorem mem_executions_reply {acks : AckState} {i : ℕ} {outcome : AckOutcome}
    {execution : AckExecution} (h : execution ∈ (acks.reply i outcome).executions) :
    execution ∈ acks.executions ∨ ∃ command call rest,
      acks.executions[i]? = some ⟨command, call :: rest⟩ ∧
        execution = ⟨command, if outcome = .ok then rest else command.onThrow call⟩ := by
  rw [AckState.reply] at h
  split at h
  · exact .inl h
  · exact .inl h
  · next command call rest hexecution =>
    rcases List.mem_or_eq_of_mem_set h with hearlier | rfl
    · exact .inl hearlier
    · exact .inr ⟨command, call, rest, hexecution, rfl⟩

theorem commands_reply {acks : AckState} {i : ℕ} {outcome : AckOutcome} :
    (acks.reply i outcome).commands = acks.commands := by
  rw [AckState.reply]
  split <;> rfl

/-- STEP: what is inserted stays. -/
theorem subset_inserted_act (a : FinalityAction) :
    s.inserted ⊆ (s.act myPeerId a).1.inserted := by
  cases a with
  | reply i outcome => exact List.subset_append_left ..
  | _ => exact List.Subset.refl _

/-- STEP (acknowledgement): an acknowledgement is saved by request of its peer, or for this node. -/
theorem savedBy_cases (h : Keeps myPeerId s) {a : AckAction} {ack : Ack}
    (hsaved : s.acks.savedBy a = some ack) :
    (∃ execution ∈ s.acks.executions, execution.command.Reports ack.peerId ack.ual) ∨
      ack.peerId = myPeerId ∧ ack.ual ∈ s.inserted := by
  cases a with
  | reply i outcome =>
    rw [AckState.savedBy] at hsaved
    split at hsaved
    · next command publishOperationId ack' rest hget =>
      split at hsaved
      · cases hsaved
        have hmem := List.mem_of_getElem? hget
        have hfollows := h.follows _ hmem
        cases command with
        | publishFinalitySaveAck data =>
          refine .inl ⟨_, hmem, ?_⟩
          rcases hfollows with hcalls | hfailed
          · simp only [AckCommand.execute, AckCommand.afterSave, List.cons_append, List.nil_append,
              List.suffix_cons_iff, List.suffix_nil, List.cons.injEq, reduceCtorEq, false_and,
              AckEffect.saveFinalityAck.injEq, or_false, false_or] at hcalls
            obtain ⟨⟨-, rfl⟩, -⟩ := hcalls
            exact ⟨rfl, rfl⟩
          · rcases AckState.not_save_of_suffix hfailed with hcall | hcall <;> cases hcall
        | storeAssertion data =>
          refine .inr ?_
          rcases hfollows with ⟨hcalls, hbehind⟩ | herror
          · rcases AckState.suffix_storeAssertion hcalls with
              ⟨hcall, -⟩ | ⟨hcall, -⟩ | ⟨hnot, ⟨hcall, -⟩ | ⟨hcall, -⟩⟩
            · cases hcall
            · cases hcall
            · cases hcall
            · cases hcall
              exact ⟨rfl, hbehind hnot⟩
          · simp [List.suffix_cons_iff] at herror
      · cases hsaved
    · cases hsaved
  | _ => cases hsaved

/-- STEP (heard): what a node has heard after a step, it had heard before, or is about itself. -/
theorem heard_act (h : Keeps myPeerId s) {a : FinalityAction} {peerId ual : String}
    (hheard : Heard (s.act myPeerId a).1 peerId ual) :
    Heard s peerId ual ∨ peerId = myPeerId ∧ ual ∈ (s.act myPeerId a).1.inserted := by
  cases a with
  | add data blockchain =>
    refine .inl (hheard.imp_right (Or.imp_left ?_))
    rintro ⟨command, hcommand, hreports⟩
    rcases List.mem_append.mp hcommand with hearlier | hnew
    · exact ⟨command, hearlier, hreports⟩
    · obtain rfl := List.mem_singleton.mp hnew
      exact hreports.elim
  | execute i =>
    simp only [act, AckState.act] at hheard
    split at hheard
    · exact .inl hheard
    · next command hcommand =>
      rcases hheard with hkey | hreports | ⟨execution, hexecution, hreports⟩
      · exact .inl (.inl hkey)
      · exact .inl (.inr (.inl hreports))
      · rcases List.mem_append.mp hexecution with hearlier | hnew
        · exact .inl (.inr (.inr ⟨execution, hearlier, hreports⟩))
        · obtain rfl := List.mem_singleton.mp hnew
          exact .inl (.inr (.inl ⟨command, List.mem_of_getElem? hcommand, hreports⟩))
  | reply i outcome =>
    rcases hheard with hkey | ⟨command, hcommand, hreports⟩ | ⟨execution, hexecution, hreports⟩
    · rcases AckState.mem_keys_act.mp hkey with hsaved | hearlier
      · rcases savedBy_cases h hsaved with hreports | ⟨rfl, hinserted⟩
        · exact .inl (.inr (.inr hreports))
        · exact .inr ⟨rfl, subset_inserted_act (.reply i outcome) hinserted⟩
      · exact .inl (.inl hearlier)
    · have hcommands : (s.acks.reply i outcome).commands = s.acks.commands := commands_reply
      rw [act, AckState.act, hcommands] at hcommand
      exact .inl (.inr (.inl ⟨command, hcommand, hreports⟩))
    · rcases mem_executions_reply hexecution with hearlier | ⟨command, call, rest, hget, rfl⟩
      · exact .inl (.inr (.inr ⟨execution, hearlier, hreports⟩))
      · exact .inl (.inr (.inr ⟨_, List.mem_of_getElem? hget, hreports⟩))
  | _ => exact .inl hheard

/-- STEP (request): what a node has heard after a request, it had heard before, or by the request.
    -/
theorem heard_receive {remotePeerId peerId ual : String} {request : FinalityRequest}
    (hheard : Heard (s.receive myPeerId remotePeerId request) peerId ual) :
    Heard s peerId ual ∨ peerId = remotePeerId ∧ ual = request.data.ual := by
  rcases hheard with hkey | ⟨command, hcommand, hreports⟩ | hreports
  · exact .inl (.inl hkey)
  · rcases List.mem_append.mp hcommand with hearlier | hnew
    · exact .inl (.inr (.inl ⟨command, hearlier, hreports⟩))
    · obtain rfl := List.mem_singleton.mp hnew
      obtain ⟨hpeer, hual⟩ := hreports
      exact .inr ⟨hpeer.symm, hual.symm⟩
  · exact .inl (.inr (.inr hreports))

end FinalityNode

end OtNode
