import OtNode.Lib.Pool
import OtNode.Operation.Service

/-! The commands of an operation under the command executor, as a cooperative task pool.

    Each command of the operation is a task whose script lists what it awaits. The executor's part
    is what follows an error (re-execution while retries are left, then `recover`), a `BUSY` reply
    (`Command.retry`) and a finished command (its children are queued). -/

namespace OtNode

open Pool

variable {π : Type}

/-- How a command is being run: executed, in its own `catch` block, recovered by the executor, or a
    call it made and did not await. -/
inductive Mode where
  | execute
  | caught (message : String)
  | recover (message : String)
  | detached
  deriving DecidableEq

/-- A command in the executor. -/
structure Handler (π : Type) where
  command : Command π
  retries : ℕ
  mode : Mode
  deriving DecidableEq

/-- What an operation runs in: its service, this node and the nodes found for the shard. -/
structure Context (π : Type) where
  operationName : OperationName
  currentPeerId : π
  foundNodes : List π

/-- What the environment decides at an awaited step. -/
inductive Choice where
  | ok
  | reply (reply : Reply)
  | hit
  | throws (message : String) (lost : Bool)
  | throwsAfter (message : String) (lost : Bool)
  | inserts (stored : List Bool) (message : String) (lost : Bool)
  deriving DecidableEq

/-- A task of an operation. -/
abbrev Job (π : Type) := Task (Handler π) (Effect π)

/-! ### Events and error types of the commands -/

/-- The start and end events of `FindShardCommand`. -/
def findShardEvents : OperationName → OperationIdStatus × OperationIdStatus
  | .publish | .finality => (.publishFindNodesStart, .publishFindNodesEnd)
  | .get => (.getFindNodesStart, .publishFindNodesEnd)
  | .ask => (.askFindNodesStart, .askFindNodesEnd)
  | .update => (.updateFindNodesStart, .updateFindNodesEnd)

/-- The start and end events of the validate asset commands. -/
def validateAssetEvents : OperationName → OperationIdStatus × OperationIdStatus
  | .update => (.updateValidateAssetStart, .updateValidateAssetEnd)
  | _ => (.publishValidateAssetStart, .publishValidateAssetEnd)

/-- The start and end events of `ProtocolScheduleMessagesCommand`. -/
def scheduleMessagesEvents : OperationName → OperationIdStatus × OperationIdStatus
  | .publish => (.publishReplicateStart, .publishReplicateEnd)
  | .get => (.getFetchFromNodesStart, .getFetchFromNodesEnd)
  | .ask => (.askFetchFromNodesStart, .askFetchFromNodesEnd)
  | .update => (.updateReplicateStart, .updateReplicateEnd)
  | .finality => (.finalityReplicateStart, .finalityReplicateEnd)

/-- `this.errorType` of the stages and of the schedule command. -/
def stageErrorType : OperationName → Stage → ErrorType
  | .get, .findShard => .getFindShardError
  | .ask, .findShard => .undefined
  | .update, .findShard => .updateFindShardError
  | _, .findShard => .publishFindShardError
  | .update, .validateAsset => .updateValidateAssetError
  | _, .validateAsset => .publishValidateAssetError
  | _, .localStore => .localStoreError
  | _, .localGet => .getLocalError
  | .get, .networkProtocol => .getNetworkError
  | .ask, .networkProtocol => .askNetworkError
  | .update, .networkProtocol => .updateNetworkStartError
  | .finality, .networkProtocol => .finalityNetworkError
  | .publish, .networkProtocol => .publishNetworkStartError

def scheduleErrorType : OperationName → ErrorType
  | .publish => .publishStartError
  | .get => .getStartError
  | .ask => .askError
  | .update => .updateStartError
  | .finality => .finalityStartError

/-! ### Scripts -/

/-- `Command.handleError` with `markFailed`: only the operation id record fails. -/
def handleError (error : OperationError) : List (Effect π) :=
  [.updateOperationIdStatus .failed (some error)]

/-- `Command.continueSequence`. -/
def continueSequence (data : CommandData π) : List Stage → List (Command π)
  | [] => []
  | name :: sequence => [.stage name data sequence]

/-- `execute` of the validate asset commands of publish and update. Publish writes its end event
    before and after the paranet checks, which no controller asks for. -/
def validateAsset (op : OperationName) (data : CommandData π) (sequence : List Stage) :
    List (Effect π) :=
  [Effect.updateOperationIdStatus (validateAssetEvents op).1 none, .access, .access,
    .updateOperationIdStatus (validateAssetEvents op).2 none] ++
  (if op = .update then [] else [Effect.updateOperationIdStatus (validateAssetEvents op).2 none]) ++
  [Effect.finish (continueSequence data sequence)]

/-- `LocalStoreCommand.execute`, the body of its `try` block. -/
def localStore (data : CommandData π) : List (Effect π) :=
  [Effect.updateOperationIdStatus .localStoreStart none, .access, .access,
    .updateOperationIdStatus .localStoreEnd none] ++
  if data.isOperationV0 then [Effect.updateOperationIdStatus .completed none, .finish []]
  else
    [Effect.access] ++
    (if data.nodePartOfShard then [Effect.access, .addSignatureToStorage .network] else []) ++
    [Effect.access, .addSignatureToStorage .publisher,
      .processResponse
        (data.toMessage (PublishService.getBatchSize data.batchSize)
          (PublishService.getMinAckResponses data.minimumNumberOfNodeReplications))
        (if data.nodePartOfShard then .completed else .failed),
      .finish []]

/-- `execute` of a command, up to the first step whose outcome decides how it goes on. -/
def execute (ctx : Context π) : Command π → List (Effect π)
  | .stage .findShard data _ =>
    [.updateOperationIdStatus (findShardEvents ctx.operationName).1 none, .findShard data]
  | .stage .validateAsset data sequence => validateAsset ctx.operationName data sequence
  | .stage .localStore data _ => localStore data
  | .stage .localGet data sequence =>
    [.updateOperationIdStatus .getLocalStart none, .localGet data sequence]
  | .stage .networkProtocol data _ => [.networkProtocol data]
  | .scheduleMessages data =>
    [.updateOperationIdStatus (scheduleMessagesEvents ctx.operationName).1 none,
      .addRequests data,
      .updateOperationIdStatus (scheduleMessagesEvents ctx.operationName).2 none, .finish []]
  | .request _ _ _ =>
    match ctx.operationName with
    | .get | .ask => [.shouldSendMessage]
    | .publish | .update | .finality => [.access, .sendMessage]

/-- `recover` of a command. The validate and local get commands override `handleError`. -/
def recover (ctx : Context π) (message : String) : Command π → List (Effect π)
  | .stage .validateAsset _ _ =>
    OtNode.markOperationAsFailed ⟨message, stageErrorType ctx.operationName .validateAsset⟩
  | .stage .localGet _ _ =>
    OtNode.markOperationAsFailed ⟨message, stageErrorType ctx.operationName .localGet⟩
  | .stage name _ _ => handleError ⟨message, stageErrorType ctx.operationName name⟩
  | .scheduleMessages _ => handleError ⟨message, scheduleErrorType ctx.operationName⟩
  | .request _ _ data => [.processResponse data .failed]

/-- The retries a command is added with: requests by the schedule command, the first publish
    command by the controller. -/
def initialRetries (ctx : Context π) : Command π → ℕ
  | .request _ _ _ => 3
  | .stage .findShard _ _ => if ctx.operationName = .publish then 3 else 0
  | _ => 0

/-- A command taken from the queue. -/
def start (ctx : Context π) (command : Command π) : Job π :=
  ⟨⟨command, initialRetries ctx command, .execute⟩, execute ctx command⟩

/-- A command put back in the queue with one retry less. -/
def requeue (ctx : Context π) (h : Handler π) : Job π :=
  ⟨⟨h.command, h.retries - 1, .execute⟩, execute ctx h.command⟩

/-- `CommandExecutor._handleError`: re-execution while retries are left, else `recover`, whose own
    errors are only logged. `lost` is an error of the executor's own update. -/
def handleCommandError (ctx : Context π) (h : Handler π) (message : String) (lost : Bool) :
    List (Job π) :=
  match h.mode with
  | .execute | .caught _ =>
    if lost then []
    else if 0 < h.retries then [requeue ctx h]
    else [⟨{ h with mode := .recover message }, recover ctx message h.command⟩]
  | .recover _ | .detached => []

/-- The command as an error thrown at `e` finds it: a retry is taken before anything can throw. -/
def Handler.thrownAt (h : Handler π) : Effect π → Handler π
  | .retry => { h with retries := if 1 < h.retries then h.retries - 1 else h.retries }
  | _ => h

@[simp] theorem Handler.thrownAt_command (h : Handler π) (e : Effect π) :
    (h.thrownAt e).command = h.command := by
  cases e <;> rfl

@[simp] theorem Handler.thrownAt_mode (h : Handler π) (e : Effect π) :
    (h.thrownAt e).mode = h.mode := by
  cases e <;> rfl

/-- What an error thrown at `e` starts. The local store command catches what its own body throws;
    `finish` is the executor's part. -/
def onThrow (ctx : Context π) (h : Handler π) (e : Effect π) (message : String) (lost : Bool) :
    List (Job π) :=
  match h.command, h.mode, e with
  | .stage .localStore _ _, .execute, .finish _ => handleCommandError ctx h message lost
  | .stage .localStore _ _, .execute, _ =>
    [⟨{ h with mode := .caught message },
      handleError ⟨message, .localStoreError⟩ ++ [Effect.finish []]⟩]
  | _, _, _ => handleCommandError ctx (h.thrownAt e) message lost

theorem onThrow_request {ctx : Context π} {k : Handler π} {number : ℕ} {node : π}
    {data : MessageData π} (hcommand : k.command = .request number node data) (e : Effect π)
    (message : String) (lost : Bool) :
    onThrow ctx k e message lost = handleCommandError ctx (k.thrownAt e) message lost := by
  simp [onThrow, hcommand]

/-! ### FindShardCommand -/

/-- The nodes of the shard but this one. -/
def shardNodes [DecidableEq π] (ctx : Context π) : List π :=
  ctx.foundNodes.filter (· ≠ ctx.currentPeerId)

/-- Whether this node is one of the nodes found. -/
def nodePartOfShard [DecidableEq π] (ctx : Context π) : Bool :=
  ctx.foundNodes.contains ctx.currentPeerId

/-- `shardNodes.length + (nodePartOfShard ? 1 : 0)`. -/
def numberOfFoundNodes [DecidableEq π] (ctx : Context π) : ℕ :=
  (shardNodes ctx).length + if nodePartOfShard ctx then 1 else 0

/-- `getOperationCommandSequence` of the find-shard commands. -/
def getOperationCommandSequence (op : OperationName) (data : CommandData π) : List Stage :=
  match op with
  | .publish => if data.isOperationV0 then [.networkProtocol] else [.validateAsset, .localStore]
  | .get => [.localGet, .networkProtocol]
  | .ask | .update | .finality => []

/-- The data `FindShardCommand` hands on. -/
def foundData [DecidableEq π] (ctx : Context π) (data : CommandData π) : CommandData π :=
  { data with nodePartOfShard := nodePartOfShard ctx, leftoverNodes := shardNodes ctx,
              numberOfFoundNodes := numberOfFoundNodes ctx }

/-- `FindShardCommand.execute` from the nodes found on. -/
def findShard [DecidableEq π] (ctx : Context π) (data : CommandData π) (minAckResponses : ℕ)
    (sequence : List Stage) : List (Effect π) :=
  if numberOfFoundNodes ctx < minAckResponses then
    handleError
      ⟨"Unable to find enough nodes for operationId: " ++ data.operationId ++
        ". Minimum number of nodes required: " ++ toString minAckResponses,
        stageErrorType ctx.operationName .findShard⟩ ++ [Effect.finish []]
  else
    [.updateOperationIdStatus (findShardEvents ctx.operationName).2 none,
      .finish (continueSequence (foundData ctx data) sequence)]

/-! ### ProtocolScheduleMessagesCommand -/

/-- The data of the requests of a batch. Only the ask command hands the requested minimum on. -/
def requestData (op : OperationName) (data : MessageData π) : MessageData π :=
  { data with
    leftoverNodes :=
      if data.batchSize < data.leftoverNodes.length then data.leftoverNodes.drop data.batchSize
      else []
    minimumNumberOfNodeReplications :=
      if op = .ask then data.minimumNumberOfNodeReplications else none }

/-- The nodes of a batch. -/
def currentBatchNodes (data : MessageData π) : List π := data.leftoverNodes.take data.batchSize

/-- The nodes of a batch whose requests were stored. -/
def storedNodes (data : MessageData π) (stored : List Bool) : List π :=
  (((currentBatchNodes data).zip stored).filter (·.2)).map (·.1)

/-- The request commands for nodes of a batch, numbered from the requests there are on. -/
def requests (ctx : Context π) (s : Operation π) (data : MessageData π) (nodes : List π) :
    List (Command π) :=
  nodes.mapIdx fun i node =>
    .request (s.scheduled.length + i) node (requestData ctx.operationName data)

/-! ### ProtocolMessageCommand -/

/-- `handleNack`. -/
def handleNack (op : OperationName) (data : MessageData π) : List (Effect π) :=
  match op with
  | .finality =>
    [.updateOperationIdStatus .completed none, .processResponse data .failed, .finish []]
  | _ => [.processResponse data .failed, .finish []]

/-- `handleAck`. -/
def handleAck (op : OperationName) (data : MessageData π) (accepted : Bool) : List (Effect π) :=
  match op with
  | .publish | .update =>
    [.addSignatureToStorage .network, .processResponse data .completed, .finish []]
  | .get | .ask =>
    if accepted then [.processResponse data .completed, .finish []] else handleNack op data
  | .finality => [.updateOperationIdStatus .completed none, .finish []]

/-- `sendProtocolMessage` from the reply on. -/
def handleReply (op : OperationName) (data : MessageData π) : Reply → List (Effect π)
  | .busy => [.retry]
  | .nack => handleNack op data
  | .ack accepted => handleAck op data accepted
  | .unknown => [.processResponse data .failed, .finish []]
  | .error _ => []

/-- `getResponsesStatuses`, then the service's decision. -/
def recordResponse (ctx : Context π) (h : Handler π) (data : MessageData π)
    (status : ResponseStatus) (s : Operation π) : Outcome (Operation π) (Handler π) (Effect π) :=
  let s' := s.createResponseRecord h.command.number? status
  .next s'
    (processResponse ctx.operationName data status s'.completedNumber s'.failedNumber) []

/-- The error of a step that cannot be taken. The find-shard, network and schedule commands of an
    update have no `operationService`, and the update service has no name, which the operation
    repositories read: `OPERATIONS.UPDATE` is commented out. -/
def missing : OperationName → Effect π → Option String
  | .update, .findShard _ =>
    some "Cannot read properties of undefined (reading 'getMinAckResponses')"
  | .update, .addRequests _ =>
    some "Cannot read properties of undefined (reading 'getOperationName')"
  | .update, .processResponse _ _ | .update, .updateOperationStatus _ =>
    some "Cannot read properties of undefined (reading 'replace')"
  | _, _ => none

/-- What an awaited step leads to where nothing it needs is missing. -/
def proceed [DecidableEq π] (ctx : Context π) (h : Handler π) (e : Effect π) (i : Choice)
    (s : Operation π) : Option (Outcome (Operation π) (Handler π) (Effect π)) :=
  match e, i with
  | .access, .ok => some (.next s [] [])
  | .updateOperationIdStatus status error, .ok =>
    some (.next { s with operationIdStatus := status,
                         operationIdData := error.orElse fun _ => s.operationIdData } [] [])
  | .updateOperationStatus status, .ok =>
    some (.next { s with operationStatus := status, verdicts := s.verdicts ++ [status] } [] [])
  | .updateMinAcksReached, .ok => some (.next { s with minAcksReached := true } [] [])
  | .addSignatureToStorage .network, .ok =>
    some (.next { s with networkSignatures := s.networkSignatures ++ [h.command.number?] } [] [])
  | .addSignatureToStorage .publisher, .ok =>
    some (.next { s with publisherSignatures := s.publisherSignatures + 1 } [] [])
  | .findShard data, .ok =>
    match getMinAckResponses ctx.operationName data.minimumNumberOfNodeReplications with
    | none => some (.raise s (onThrow ctx h e "getMinAckResponses not implemented" false))
    | some minAckResponses =>
      let sequence := s.sequence ++ getOperationCommandSequence ctx.operationName data
      some (.next { s with sequence := sequence }
        (findShard ctx data minAckResponses sequence) [])
  | .localGet data sequence, .ok =>
    some (.next s [.updateOperationIdStatus .getLocalEnd none,
      .finish (continueSequence data sequence)] [])
  | .localGet _ _, .hit =>
    some (.next s
      (markOperationAsCompleted [.getLocalEnd, .getEnd, .completed] ++ [Effect.finish []]) [])
  | .networkProtocol data, .ok =>
    match getBatchSize ctx.operationName data.batchSize,
        getMinAckResponses ctx.operationName data.minimumNumberOfNodeReplications with
    | some batchSize, some minAckResponses =>
      some (.next s
        [.add (.scheduleMessages (data.toMessage batchSize minAckResponses)), .finish []] [])
    | none, _ =>
      -- the network update command has no operation service
      some (.raise s (onThrow ctx h e
        "Cannot read properties of undefined (reading 'getBatchSize')" false))
    | some _, none => some (.raise s (onThrow ctx h e "getMinAckResponses not implemented" false))
  | .add command, .ok => some (.next s [] [start ctx command])
  | .addRequests data, .ok =>
    some (.next { s with batches := s.batches ++ [currentBatchNodes data] } []
      ((requests ctx s data (currentBatchNodes data)).map (start ctx)))
  | .addRequests data, .inserts stored message lost =>
    -- the insertions run together: those that succeed stay queued when another one throws
    if stored.length = (currentBatchNodes data).length ∧ false ∈ stored then
      some (.raise { s with batches := s.batches ++ [storedNodes data stored] }
        ((requests ctx s data (storedNodes data stored)).map (start ctx) ++
          onThrow ctx h e message lost))
    else none
  | .shouldSendMessage, .ok =>
    if s.operationStatus = .inProgress then some (.next s [.access, .sendMessage] [])
    else some (.next s [.finish []] [])
  | .sendMessage, .reply (.error message) =>
    -- nothing of the script follows the message, so nothing of it is dropped
    some (.next s [] (onThrow ctx h e message false))
  | .sendMessage, .reply reply =>
    match h.command with
    | .request _ _ data => some (.next s (handleReply ctx.operationName data reply) [])
    | _ => none
  | .retry, .ok =>
    match h.command with
    | .request _ _ data =>
      if 1 < h.retries then some (.next s [] [requeue ctx h])
      else some (.next s [.processResponse data .failed, .finish []] [])
    | _ => none
  | .processResponse data status, .ok => some (recordResponse ctx h data status s)
  | .processResponse _ status, .throwsAfter message lost =>
    some (.raise (s.createResponseRecord h.command.number? status) (onThrow ctx h e message lost))
  | .markOperationAsFailed error, .ok =>
    some (.next s [] [⟨{ h with mode := .detached }, OtNode.markOperationAsFailed error⟩])
  | .finish children, .ok => some (.next s [] (children.map (start ctx)))
  | .markOperationAsFailed _, .throws _ _ | .networkProtocol _, .throws _ _ => none
  | e, .throws message lost => some (.raise s (onThrow ctx h e message lost))
  | _, _ => none

/-- What an awaited step of the operation leads to. -/
def perform [DecidableEq π] (ctx : Context π) (h : Handler π) (e : Effect π) (i : Choice)
    (s : Operation π) : Option (Outcome (Operation π) (Handler π) (Effect π)) :=
  match missing ctx.operationName e, i with
  | some message, .ok => some (.raise s (onThrow ctx h e message false))
  | some _, .throwsAfter _ _ | some _, .inserts _ _ _ => none
  | _, _ => proceed ctx h e i s

theorem missing_of_ne_update {op : OperationName} (h : op ≠ .update) (e : Effect π) :
    missing op e = none := by
  unfold missing
  split <;> first
    | exact absurd rfl h
    | rfl

/-- STEP: a step that lacks nothing proceeds. -/
theorem perform_eq_proceed [DecidableEq π] {ctx : Context π} {e : Effect π}
    (h : missing ctx.operationName e = none) (k : Handler π) (i : Choice) (s : Operation π) :
    perform ctx k e i s = proceed ctx k e i s := by
  simp only [perform, h]

/-- The operation as a machine. -/
def machine [DecidableEq π] (ctx : Context π) :
    Machine (Operation π) (Handler π) (Effect π) Choice := ⟨perform ctx⟩

/-! ### Runs -/

/-- The last status written before an operation's first command is added. -/
def initialStatus : OperationName → OperationIdStatus
  | .publish => .publishInitEnd
  | .get => .getInitStart
  | .ask => .askStart
  | .update => .updateInitEnd
  | .finality => .publishFinalizationStoreAssertionEnd

/-- The rest of the sequence the find-shard command is added with. -/
def initialSequence : OperationName → List Stage
  | .ask => [.networkProtocol]
  | _ => []

/-- An operation just created. -/
def Operation.initial (op : OperationName) : Operation π :=
  ⟨.inProgress, [], initialStatus op, none, false, [], [], [], 0, initialSequence op⟩

/-- An operation whose first command was added. -/
def begin (ctx : Context π) (command : Command π) :
    Config (Operation π) (Handler π) (Effect π) :=
  ⟨Operation.initial ctx.operationName, [start ctx command]⟩

/-- A publish, get or ask operation whose find-shard command was added. -/
def launch (ctx : Context π) (data : CommandData π) :
    Config (Operation π) (Handler π) (Effect π) :=
  begin ctx (.stage .findShard data (initialSequence ctx.operationName))

/-- The choices under which every database, cache, file and chain call succeeds, whatever the remote
    nodes answer; a local get finds nothing. -/
def Choice.isSound : Choice → Bool
  | .ok | .reply _ => true
  | _ => false

/-- A run in which every choice is sound. -/
def SoundRun [DecidableEq π] (ctx : Context π) (data : CommandData π)
    (c : Config (Operation π) (Handler π) (Effect π)) : Prop :=
  (machine ctx).Steps (fun _ _ i => i.isSound = true) (launch ctx data) c

/-- A run in which any call may fail at any point. -/
def AnyRun [DecidableEq π] (ctx : Context π) (command : Command π)
    (c : Config (Operation π) (Handler π) (Effect π)) : Prop :=
  (machine ctx).Steps (fun _ _ _ => True) (begin ctx command) c

theorem AnyRun.of_schedule [DecidableEq π] {ctx : Context π} {command : Command π}
    {p : Config (Operation π) (Handler π) (Effect π) → Prop} [DecidablePred p]
    (as : List (ℕ × Choice))
    (h : ((machine ctx).run (fun _ _ _ => true) (begin ctx command) as).any (p ·) = true) :
    ∃ c, AnyRun ctx command c ∧ p c := by
  obtain ⟨c, hrun, hp⟩ := Machine.Steps.of_schedule as h
  exact ⟨c, hrun.mono fun _ _ _ _ => trivial, hp⟩

end OtNode
