import Mathlib.Data.Nat.Notation

/-! The records of one operation: its statuses, its response records and the data its commands
    carry.

    An operation (publish, get, ask, update or finality) has a record of its own, a record of its
    operation id that clients poll, one response record per answer counted, and signatures in
    storage. Peers are any type with decidable equality. -/

namespace OtNode

/-- `OPERATIONS`. -/
inductive OperationName where | publish | get | ask | update | finality
  deriving DecidableEq

/-- `OPERATION_STATUS`: the status of the operation's own record. -/
inductive OperationStatus where | inProgress | failed | completed
  deriving DecidableEq

/-- `OPERATION_REQUEST_STATUS`: the status of one response record. -/
inductive ResponseStatus where | failed | completed
  deriving DecidableEq

/-- `OPERATION_ID_STATUS`: the statuses the commands write to the operation id record, by their
    texts. Three constants share another one's text: `GET_FIND_NODES_END` is
    `PUBLISH_FIND_NODES_END`, and `ASK_REMOTE_END` and `FINALITY_REMOTE_END` are the start events.
    -/
inductive OperationIdStatus where
  | failed | completed
  | publishInitEnd | getInitStart | getInitEnd | askStart | updateInitEnd
  | publishFinalizationStoreAssertionEnd
  | publishFindNodesStart | publishFindNodesEnd
  | publishValidateAssetStart | publishValidateAssetEnd
  | publishReplicateStart | publishReplicateEnd | publishEnd
  | localStoreStart | localStoreEnd
  | getFindNodesStart | getLocalStart | getLocalEnd
  | getFetchFromNodesStart | getFetchFromNodesEnd | getEnd
  | askFindNodesStart | askFindNodesEnd
  | askFetchFromNodesStart | askFetchFromNodesEnd | askEnd
  | updateFindNodesStart | updateFindNodesEnd
  | updateValidateAssetStart | updateValidateAssetEnd
  | updateReplicateStart | updateReplicateEnd | updateEnd
  | finalityReplicateStart | finalityReplicateEnd | finalityFetchFromNodesEnd | finalityEnd
  | publishLocalStoreRemoteStart | publishLocalStoreRemoteEnd
  | publishValidateAssetRemoteStart | publishValidateAssetRemoteEnd
  | publishLocalStoreRemoteCacheDatasetStart | publishLocalStoreRemoteCacheDatasetEnd
  | updateLocalStoreRemoteStart | updateLocalStoreRemoteEnd
  | updateValidateAssetRemoteStart | updateValidateAssetRemoteEnd
  | updateLocalStoreRemoteCacheDatasetStart | updateLocalStoreRemoteCacheDatasetEnd
  | getRemoteStart | getRemoteEnd
  | askRemoteStart | finalityRemoteStart
  | publishFinalityRemoteStart | publishFinalityRemoteEnd
  | publishFinalityFetchFromNodesEnd | publishFinalityEnd
  | publishFinalizationStart | publishFinalizationStoreAssertionStart
  deriving DecidableEq

/-- The statuses after which nothing more is expected of an operation. -/
def OperationIdStatus.isTerminal : OperationIdStatus → Bool
  | .failed | .completed => true
  | _ => false

/-- `ERROR_TYPE`: the types the commands fail an operation with. `undefined` is that of
    `ERROR_TYPE.FIND_SHARD.ASK_FIND_SHARD_ERROR`, which is not there. -/
inductive ErrorType where
  | publishFindShardError | publishValidateAssetError | publishNetworkStartError
  | publishStartError | publishError | localStoreError
  | getFindShardError | getLocalError | getNetworkError | getStartError | getError
  | undefined | askNetworkError | askError
  | updateFindShardError | updateValidateAssetError | updateNetworkStartError
  | updateStartError | updateError
  | finalityNetworkError | finalityStartError | finalityError
  | publishRouteError | getRouteError | updateRouteError
  | publishLocalStoreRemoteError | updateLocalStoreRemoteError
  | getRequestRemoteError | askRequestRemoteError | finalityRequestRemoteError
  | storeAssertionError
  deriving DecidableEq

/-- What `updateOperationIdStatus` stores beside a failed status. -/
structure OperationError where
  errorMessage : String
  errorType : ErrorType
  deriving DecidableEq

/-- What `updateOperationIdStatus` is called with on a failure: commands without an error type of
    their own leave it out. -/
structure Failure where
  errorMessage : String
  errorType : Option ErrorType
  deriving DecidableEq

/-- A row of the operation id table. -/
structure OperationIdRecord where
  status : OperationIdStatus
  data : Option Failure
  deriving DecidableEq

/-- `updateOperationIdStatus` on the row. -/
def OperationIdRecord.update (record : OperationIdRecord) (status : OperationIdStatus)
    (failure : Option Failure) : OperationIdRecord :=
  ⟨status, failure.orElse fun _ => record.data⟩

/-- Where a command with a `try` block stands: in the block, outside of it, recovered by the
    executor, or in a call it did not await. -/
inductive TryMode where | inside | outside | recover | detached
  deriving DecidableEq

/-- The folders of the signature storage. -/
inductive SignaturesFolder where | network | publisher
  deriving DecidableEq

/-- One response record: the request command it was written for, none for the local store's, and
    its status. -/
structure ResponseRecord where
  request : Option ℕ
  status : ResponseStatus
  deriving DecidableEq

/-- The data a command carries before its batch size and minimum are resolved. -/
structure CommandData (π : Type) where
  operationId : String
  assertionId : String
  isOperationV0 : Bool
  minimumNumberOfNodeReplications : Option ℕ
  batchSize : Option ℕ
  nodePartOfShard : Bool
  leftoverNodes : List π
  numberOfFoundNodes : ℕ
  deriving DecidableEq

/-- What a controller adds the first command with: no shard is found yet. -/
def CommandData.initial {π : Type} (operationId assertionId : String) (isOperationV0 : Bool)
    (minimumNumberOfNodeReplications batchSize : Option ℕ) : CommandData π :=
  ⟨operationId, assertionId, isOperationV0, minimumNumberOfNodeReplications, batchSize, false, [], 0⟩

/-- The data of schedule and request commands, and what responses are processed with. -/
structure MessageData (π : Type) where
  operationId : String
  assertionId : String
  minimumNumberOfNodeReplications : Option ℕ
  batchSize : ℕ
  minAckResponses : ℕ
  leftoverNodes : List π
  numberOfFoundNodes : ℕ
  deriving DecidableEq

/-- `{ ...command.data, batchSize, minAckResponses }`. -/
def CommandData.toMessage {π : Type} (data : CommandData π) (batchSize minAckResponses : ℕ) :
    MessageData π where
  operationId := data.operationId
  assertionId := data.assertionId
  minimumNumberOfNodeReplications := data.minimumNumberOfNodeReplications
  batchSize := batchSize
  minAckResponses := minAckResponses
  leftoverNodes := data.leftoverNodes
  numberOfFoundNodes := data.numberOfFoundNodes

/-- The stages a sender's command sequence is made of. -/
inductive Stage where | findShard | validateAsset | localStore | localGet | networkProtocol
  deriving DecidableEq

/-- A command of the operation with its data. Request commands are numbered as they are added. -/
inductive Command (π : Type) where
  | stage (name : Stage) (data : CommandData π) (sequence : List Stage)
  | scheduleMessages (data : MessageData π)
  | request (number : ℕ) (node : π) (data : MessageData π)
  deriving DecidableEq

/-- The number of a request command. -/
def Command.number? {π : Type} : Command π → Option ℕ
  | .request number _ _ => some number
  | _ => none

/-- What a remote node's answer comes down to for the request command. An `ack` is `accepted` if
    its content passes the command's own checks; `error` is a call that throws. -/
inductive Reply where
  | ack (accepted : Bool)
  | nack
  | busy
  | unknown
  | error (message : String)
  deriving DecidableEq

/-- The shared state of an operation. `batches` lists, in order, the nodes of each batch
    whose requests were added; `verdicts` lists the terminal statuses written to the operation's
    record; `sequence` is the sequence of the find-shard command, which each of its executions
    extends. -/
structure Operation (π : Type) where
  operationStatus : OperationStatus
  verdicts : List OperationStatus
  operationIdStatus : OperationIdStatus
  operationIdData : Option OperationError
  minAcksReached : Bool
  responses : List ResponseRecord
  batches : List (List π)
  networkSignatures : List (Option ℕ)
  publisherSignatures : ℕ
  sequence : List Stage
  deriving DecidableEq

namespace Operation

variable {π : Type}

/-- The nodes scheduled a request, in the order of the requests' numbers. -/
def scheduled (s : Operation π) : List π := s.batches.flatten

/-- `createOperationResponseRecord`. -/
def createResponseRecord (s : Operation π) (request : Option ℕ) (status : ResponseStatus) :
    Operation π :=
  { s with responses := s.responses ++ [⟨request, status⟩] }

/-- How many response records have a given status. -/
def countStatus (s : Operation π) (st : ResponseStatus) : ℕ := s.responses.countP (·.status = st)

/-- `completedNumber`. -/
def completedNumber (s : Operation π) : ℕ := s.countStatus .completed

/-- `failedNumber`. -/
def failedNumber (s : Operation π) : ℕ := s.countStatus .failed

end Operation

end OtNode
