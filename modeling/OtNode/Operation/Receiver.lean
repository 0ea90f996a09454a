import OtNode.Lib.Pool
import OtNode.Operation.Types

/-! The commands a node runs for the requests it receives, as a cooperative task pool.

    A request carries the operation id of the node that sent it. The receiver's commands write the
    status of that id's record on their own node, which need not have one: an update of a missing
    row changes nothing. -/

namespace OtNode

open Pool

/-- `NETWORK_MESSAGE_TYPES.RESPONSES` a receiver's command answers with. -/
inductive MessageType where | ack | nack
  deriving DecidableEq

/-- The commands of the receivers. A finality request is acknowledged by a command of its own, which
    no command follows: its controller adds it with an empty `sequence`. -/
inductive RemoteCommand where
  | handleStoreRequest
  | handleUpdateRequest
  | handleGetRequest
  | handleAskRequest
  | publishFinalitySaveAck
  | handleFinalityRequest (response : MessageType)
  deriving DecidableEq

/-- A receiver's command in the executor. -/
structure RemoteHandler where
  command : RemoteCommand
  retries : ℕ
  mode : TryMode
  deriving DecidableEq

/-- One awaited step of a receiver's command. `access` leaves the record alone, `consult` is the
    call whose result decides between an `ACK` and a `NACK`, and `leave` ends the `try` block. -/
inductive RemoteEffect where
  | access
  | updateOperationIdStatus (status : OperationIdStatus) (failure : Option Failure)
  | announce (status : OperationIdStatus)
  | consult
  | saveFinalityAck
  | sendMessageResponse (messageType : MessageType)
  | leave
  | retry
  | finish (children : List RemoteCommand)
  deriving DecidableEq

/-- What the environment decides at an awaited step. -/
inductive RemoteChoice where
  | ok
  | answers (messageType : MessageType)
  | throws (message : String) (lost : Bool)
  deriving DecidableEq

/-- The shared state: the record of the operation id on this node, if there is one, and the
    responses sent. -/
structure Remote where
  record : Option OperationIdRecord
  responses : List MessageType
  deriving DecidableEq

/-- A task of a receiver. -/
abbrev RemoteJob := Task RemoteHandler RemoteEffect

namespace RemoteCommand

/-! ### Scripts -/

/-- `operationStartEvent` and `operationEndEvent`. The two events of ask have one text, and so have
    those of finality. -/
def events : RemoteCommand → OperationIdStatus × OperationIdStatus
  | handleStoreRequest => (.publishLocalStoreRemoteStart, .publishLocalStoreRemoteEnd)
  | handleUpdateRequest => (.updateLocalStoreRemoteStart, .updateLocalStoreRemoteEnd)
  | handleGetRequest => (.getRemoteStart, .getRemoteEnd)
  | handleAskRequest => (.askRemoteStart, .askRemoteStart)
  | publishFinalitySaveAck => (.publishFinalityRemoteStart, .publishFinalityRemoteEnd)
  | handleFinalityRequest _ => (.finalityRemoteStart, .finalityRemoteStart)

/-- `this.errorType`. -/
def errorType : RemoteCommand → Option ErrorType
  | handleStoreRequest => some .publishLocalStoreRemoteError
  | handleUpdateRequest => some .updateLocalStoreRemoteError
  | handleGetRequest => some .getRequestRemoteError
  | handleAskRequest => some .askRequestRemoteError
  | publishFinalitySaveAck => none
  | handleFinalityRequest _ => some .finalityRequestRemoteError

/-- An awaited `updateOperationIdStatus`. -/
def update (status : OperationIdStatus) : RemoteEffect := .updateOperationIdStatus status none

/-- `markOperationAsCompleted`; the operation's own record is the sender's. -/
def markOperationAsCompleted (endStatuses : List OperationIdStatus) : List RemoteEffect :=
  [RemoteEffect.access, .access] ++ endStatuses.map update

/-- `sendMessageResponse` and what ends the `try` block. -/
def respond (c : RemoteCommand) (messageType : MessageType) : List RemoteEffect :=
  [.sendMessageResponse messageType, update c.events.2, .leave]

/-- `prepareMessage`, up to the call that decides the answer. -/
def prepareMessage : RemoteCommand → List RemoteEffect
  | handleStoreRequest => [update .publishValidateAssetRemoteStart, .access, .consult]
  | handleUpdateRequest => [.access, update .updateValidateAssetRemoteStart, .consult]
  | handleGetRequest => [.consult]
  | handleAskRequest => [update .askRemoteStart, .consult]
  | publishFinalitySaveAck => []
  | handleFinalityRequest response => respond (.handleFinalityRequest response) response

/-- The rest of `prepareMessage` and the response. -/
def answer (c : RemoteCommand) (messageType : MessageType) : List RemoteEffect :=
  (match c, messageType with
    | handleStoreRequest, .nack => [update .publishValidateAssetRemoteEnd]
    | handleStoreRequest, .ack =>
      [update .publishValidateAssetRemoteEnd, update .publishLocalStoreRemoteCacheDatasetStart,
        .access, update .publishLocalStoreRemoteCacheDatasetEnd, .access, .access,
        update .publishValidateAssetRemoteEnd]
    -- this end event is not awaited
    | handleUpdateRequest, .nack => [.announce .updateValidateAssetRemoteEnd]
    | handleUpdateRequest, .ack =>
      [.announce .updateValidateAssetRemoteEnd, update .updateLocalStoreRemoteCacheDatasetStart,
        .access, update .updateLocalStoreRemoteCacheDatasetEnd, .access, .access]
    | handleGetRequest, .ack => [update .getRemoteEnd]
    | handleGetRequest, .nack => []
    -- a knowledge collection found completes the operation before its end event
    | handleAskRequest, .ack =>
      markOperationAsCompleted [.askFetchFromNodesEnd, .askEnd, .completed] ++
        [update .askRemoteStart]
    | handleAskRequest, .nack => [update .askRemoteStart]
    | publishFinalitySaveAck, _ | handleFinalityRequest _, _ => []) ++
  c.respond messageType

/-- `PublishFinalitySaveAckCommand.execute` once the acknowledgement is saved or not. The response
    it builds goes to `continueSequence`, which has nothing left to continue. -/
def acknowledged : List RemoteEffect :=
  markOperationAsCompleted [.publishFinalityFetchFromNodesEnd, .publishFinalityEnd, .completed] ++
    [update .publishFinalityRemoteEnd, .finish []]

/-- `execute`. `HandleProtocolMessageCommand` does not await its start event. -/
def execute : RemoteCommand → List RemoteEffect
  | publishFinalitySaveAck => [update .publishFinalityRemoteStart, .saveFinalityAck]
  | c => .announce c.events.1 :: c.prepareMessage

/-- What `execute` does after its `try` block, whether it was left or an error was caught. -/
def closing (c : RemoteCommand) : List RemoteEffect := [update c.events.2, .finish []]

/-- `HandleProtocolMessageCommand.handleError`. -/
def handleError (c : RemoteCommand) (message : String) : List RemoteEffect :=
  [.updateOperationIdStatus .failed (some ⟨message, c.errorType⟩), .sendMessageResponse .nack]

/-- `recover`. `HandleProtocolMessageCommand` overrides `handleError` with other parameters than
    `Command.recover` calls it with: the call throws before it writes anything. -/
def recover (message : String) : RemoteCommand → List RemoteEffect
  | publishFinalitySaveAck => [.updateOperationIdStatus .failed (some ⟨message, none⟩)]
  | _ => []

/-- The mode a command starts in: the acknowledgement has no `try` block around its updates. -/
def startMode : RemoteCommand → TryMode
  | publishFinalitySaveAck => .outside
  | _ => .inside

/-- A command taken from the queue. -/
def start (c : RemoteCommand) (retries : ℕ) : RemoteJob := ⟨⟨c, retries, c.startMode⟩, c.execute⟩

end RemoteCommand

/-! ### The machine -/

/-- What an error starts. The `try` block retries while retries are left and fails the operation
    otherwise; outside of it the executor re-executes the command or recovers it. -/
def onRemoteThrow (h : RemoteHandler) (message : String) (lost : Bool) : List RemoteJob :=
  match h.mode with
  | .inside =>
    let rest :=
      if 0 < h.retries then [.retry] else h.command.handleError message ++ h.command.closing
    [⟨{ h with mode := .outside }, rest⟩]
  | .outside =>
    if lost then []
    else if 0 < h.retries then [h.command.start (h.retries - 1)]
    else [⟨{ h with mode := .recover }, h.command.recover message⟩]
  | .recover | .detached => []

/-- What an awaited step of a receiver leads to. -/
def remotePerform (h : RemoteHandler) (e : RemoteEffect) (i : RemoteChoice) (s : Remote) :
    Option (Outcome Remote RemoteHandler RemoteEffect) :=
  match e, i with
  | .access, .ok => some (.next s [] [])
  | .updateOperationIdStatus status failure, .ok =>
    some (.next { s with record := s.record.map (·.update status failure) } [] [])
  | .announce status, .ok =>
    some (.next s [] [⟨{ h with mode := .detached }, [RemoteCommand.update status]⟩])
  | .consult, .answers messageType => some (.next s (h.command.answer messageType) [])
  | .saveFinalityAck, .ok | .saveFinalityAck, .throws _ _ =>
    some (.next s RemoteCommand.acknowledged [])
  | .sendMessageResponse messageType, .ok =>
    some (.next { s with responses := s.responses ++ [messageType] } [] [])
  | .leave, .ok => some (.next s [] [⟨{ h with mode := .outside }, h.command.closing⟩])
  | .retry, .ok =>
    -- the last retry only ends the command
    some (.next s [] (if 1 < h.retries then [h.command.start (h.retries - 1)] else []))
  | .finish children, .ok => some (.next s [] (children.map (·.start 0)))
  | .announce _, .throws _ _ | .leave, .throws _ _ => none
  | _, .throws message lost => some (.raise s (onRemoteThrow h message lost))
  | _, _ => none

/-- The receivers of one operation id as a machine. -/
def remoteMachine : Machine Remote RemoteHandler RemoteEffect RemoteChoice := ⟨remotePerform⟩

/-- Requests received for one operation id, each with its retries. -/
def receive (record : Option OperationIdRecord) (received : List (RemoteCommand × ℕ)) :
    Config Remote RemoteHandler RemoteEffect :=
  ⟨⟨record, []⟩, received.map fun r => r.1.start r.2⟩

/-- EFFECTS: only an awaited update writes the status of the record. -/
theorem record_of_remotePerform {h : RemoteHandler} {e : RemoteEffect} {i : RemoteChoice}
    {s : Remote} {o : Outcome Remote RemoteHandler RemoteEffect}
    (hp : remotePerform h e i s = some o) :
    o.shared.record = s.record ∨ ∃ status failure,
      e = .updateOperationIdStatus status failure ∧
      o.shared.record = s.record.map (·.update status failure) := by
  cases e with
  | updateOperationIdStatus status failure =>
    cases i <;> simp [remotePerform] at hp <;> subst hp
    · exact Or.inr ⟨status, failure, rfl, rfl⟩
    · exact Or.inl rfl
  | _ => cases i <;> simp [remotePerform] at hp <;> subst hp <;> exact Or.inl rfl

end OtNode
