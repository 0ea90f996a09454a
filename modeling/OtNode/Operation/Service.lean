import OtNode.Operation.Types

/-! The operation services: what processing one response leads to.

    Every service counts the response records of the operation, the one just written included, and
    decides from the counts and from the data of the command whose response it is. What it then
    awaits is listed as effects, in order; other commands run between any two of them. -/

namespace OtNode

/-- One awaited step of a command or of a service method. `access` stands for the awaited calls that
    leave the operation's records alone: caches, files, the triple store, the chain. -/
inductive Effect (π : Type) where
  | access
  | updateOperationIdStatus (status : OperationIdStatus) (error : Option OperationError)
  | updateOperationStatus (status : OperationStatus)
  | updateMinAcksReached
  | addSignatureToStorage (folder : SignaturesFolder)
  | findShard (data : CommandData π)
  | localGet (data : CommandData π) (sequence : List Stage)
  | networkProtocol (data : CommandData π)
  | add (command : Command π)
  | addRequests (data : MessageData π)
  | shouldSendMessage
  | sendMessage
  | retry
  | processResponse (data : MessageData π) (status : ResponseStatus)
  | markOperationAsFailed (error : OperationError)
  | finish (children : List (Command π))
  deriving DecidableEq

variable {π : Type}

/-- `x % m === 0`: a remainder by zero is `NaN`. -/
def isMultipleOf (x m : ℕ) : Bool := m != 0 && x % m == 0

theorem isMultipleOf_iff {x m : ℕ} (hm : 0 < m) : isMultipleOf x m = true ↔ m ∣ x := by
  simp [isMultipleOf, Nat.dvd_iff_mod_eq_zero, Nat.ne_of_gt hm]

/-! ### OperationService -/

def markOperationAsCompleted (endStatuses : List OperationIdStatus) : List (Effect π) :=
  [Effect.access, .updateOperationStatus .completed] ++
    endStatuses.map (Effect.updateOperationIdStatus · none)

def markOperationAsFailed (error : OperationError) : List (Effect π) :=
  [.access, .updateOperationStatus .failed, .updateOperationIdStatus .failed (some error)]

def scheduleOperationForLeftoverNodes (data : MessageData π) (leftoverNodes : List π) :
    List (Effect π) :=
  [.add (.scheduleMessages { data with leftoverNodes := leftoverNodes })]

/-! ### PublishService -/

namespace PublishService

def completedStatuses : List OperationIdStatus := [.publishReplicateEnd, .publishEnd, .completed]

def getBatchSize (batchSize : Option ℕ) : ℕ := batchSize.getD 20

def getMinAckResponses (minimumNumberOfNodeReplications : Option ℕ) : ℕ :=
  minimumNumberOfNodeReplications.getD 3

def processResponse (data : MessageData π) (completedNumber failedNumber : ℕ) :
    List (Effect π) :=
  let totalResponses := completedNumber + failedNumber
  -- 1. minimum replication reached
  (if completedNumber = data.minAckResponses then [Effect.updateMinAcksReached] else []) ++
    -- 2. all responses received
    if totalResponses = data.numberOfFoundNodes then
      if data.minAckResponses ≤ completedNumber then markOperationAsCompleted completedStatuses
      else markOperationAsFailed ⟨"Not replicated to enough nodes!", .publishError⟩
    else
      let potentialCompletedNumber := completedNumber + data.leftoverNodes.length
      let canStillReachMinReplication := decide (data.minAckResponses ≤ potentialCompletedNumber)
      -- the local store's response is taken to be one of the responses counted
      let canScheduleBatch := isMultipleOf (totalResponses - 1) data.batchSize
      if 0 < data.leftoverNodes.length ∧ canStillReachMinReplication ∧ canScheduleBatch then
        scheduleOperationForLeftoverNodes data data.leftoverNodes
      else if ¬canStillReachMinReplication ∧ canScheduleBatch then
        markOperationAsFailed ⟨"Not replicated to enough nodes!", .publishError⟩
      else []

end PublishService

/-! ### GetService -/

namespace GetService

def completedStatuses : List OperationIdStatus := [.getFetchFromNodesEnd, .getEnd, .completed]

def getBatchSize (batchSize : Option ℕ) : ℕ := batchSize.getD 2

def getMinAckResponses (minimumNumberOfNodeReplications : Option ℕ) : ℕ :=
  minimumNumberOfNodeReplications.getD 1

def processResponse (data : MessageData π) (responseStatus : ResponseStatus)
    (completedNumber failedNumber : ℕ) : List (Effect π) :=
  let totalResponses := completedNumber + failedNumber
  let isAllNodesResponded := decide (data.numberOfFoundNodes = totalResponses)
  let isBatchCompleted := isMultipleOf totalResponses data.batchSize
  if responseStatus = .completed ∧ completedNumber = data.minAckResponses then
    markOperationAsCompleted completedStatuses
  else if completedNumber < data.minAckResponses ∧ (isAllNodesResponded ∨ isBatchCompleted) then
    let potentialCompletedNumber := completedNumber + data.leftoverNodes.length
    if 0 < data.leftoverNodes.length ∧ data.minAckResponses ≤ potentialCompletedNumber then
      scheduleOperationForLeftoverNodes data data.leftoverNodes
    else
      -- not awaited
      [.markOperationAsFailed
        ⟨"Unable to find assertion " ++ data.assertionId ++ " on the network!", .getError⟩]
  else []

end GetService

/-! ### AskService -/

namespace AskService

def completedStatuses : List OperationIdStatus := [.askFetchFromNodesEnd, .askEnd, .completed]

def getBatchSize (batchSize : Option ℕ) : ℕ := batchSize.getD 20

def processResponse (data : MessageData π) (responseStatus : ResponseStatus)
    (completedNumber failedNumber : ℕ) : List (Effect π) :=
  let totalResponses := completedNumber + failedNumber
  let isAllNodesResponded := decide (data.numberOfFoundNodes = totalResponses)
  let isBatchCompleted := isMultipleOf totalResponses data.batchSize
  let minimumNumberOfNodeReplications :=
    data.minimumNumberOfNodeReplications.getD data.numberOfFoundNodes
  if responseStatus = .completed ∧ completedNumber = minimumNumberOfNodeReplications then
    markOperationAsCompleted completedStatuses
  else if completedNumber < minimumNumberOfNodeReplications ∧
      (isAllNodesResponded ∨ isBatchCompleted) then
    let potentialCompletedNumber := completedNumber + data.leftoverNodes.length
    [Effect.access] ++
      if 0 < data.leftoverNodes.length ∧
          minimumNumberOfNodeReplications ≤ potentialCompletedNumber then
        scheduleOperationForLeftoverNodes data data.leftoverNodes
      else markOperationAsFailed ⟨"Unable to replicate data on the network!", .askError⟩
  else []

end AskService

/-! ### UpdateService -/

namespace UpdateService

def completedStatuses : List OperationIdStatus := [.updateReplicateEnd, .updateEnd, .completed]

def processResponse (data : MessageData π) (completedNumber : ℕ) : List (Effect π) :=
  (if completedNumber = data.minAckResponses then [Effect.updateMinAcksReached] else []) ++
  (if data.leftoverNodes.length = 0 ∧ data.minAckResponses ≤ completedNumber then
    markOperationAsCompleted completedStatuses else []) ++
  (if data.leftoverNodes.length = 0 ∧ completedNumber < data.minAckResponses then
    -- not awaited
    [Effect.markOperationAsFailed ⟨"Not replicated to enough nodes!", .updateError⟩] else []) ++
  (if 0 < data.leftoverNodes.length ∧
      data.minAckResponses ≤ completedNumber + data.leftoverNodes.length then
    scheduleOperationForLeftoverNodes data data.leftoverNodes else [])

end UpdateService

/-! ### FinalityService -/

namespace FinalityService

def completedStatuses : List OperationIdStatus :=
  [.finalityFetchFromNodesEnd, .finalityEnd, .completed]

def getBatchSize (batchSize : Option ℕ) : ℕ := batchSize.getD 1

def getMinAckResponses (minimumNumberOfNodeReplications : Option ℕ) : ℕ :=
  minimumNumberOfNodeReplications.getD 1

def processResponse (responseStatus : ResponseStatus) : List (Effect π) :=
  if responseStatus = .completed then markOperationAsCompleted completedStatuses
  else markOperationAsFailed ⟨"Unable to send ACK for finalization!", .finalityError⟩

end FinalityService

/-! ### The service of an operation -/

/-- `getBatchSize`; the update service inherits the one that throws. -/
def getBatchSize : OperationName → Option ℕ → Option ℕ
  | .publish, batchSize => some (PublishService.getBatchSize batchSize)
  | .get, batchSize => some (GetService.getBatchSize batchSize)
  | .ask, batchSize => some (AskService.getBatchSize batchSize)
  | .finality, batchSize => some (FinalityService.getBatchSize batchSize)
  | .update, _ => none

/-- `getMinAckResponses`; the ask and update services inherit the one that throws. -/
def getMinAckResponses : OperationName → Option ℕ → Option ℕ
  | .publish, minimum => some (PublishService.getMinAckResponses minimum)
  | .get, minimum => some (GetService.getMinAckResponses minimum)
  | .finality, minimum => some (FinalityService.getMinAckResponses minimum)
  | .ask, _ | .update, _ => none

/-- `processResponse`, once the response is recorded and the records are counted. -/
def processResponse (op : OperationName) (data : MessageData π) (responseStatus : ResponseStatus)
    (completedNumber failedNumber : ℕ) : List (Effect π) :=
  match op with
  | .publish => PublishService.processResponse data completedNumber failedNumber
  | .get => GetService.processResponse data responseStatus completedNumber failedNumber
  | .ask => AskService.processResponse data responseStatus completedNumber failedNumber
  | .update => UpdateService.processResponse data completedNumber
  | .finality => FinalityService.processResponse responseStatus

end OtNode
