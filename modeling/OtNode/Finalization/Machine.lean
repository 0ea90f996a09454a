import OtNode.Lib.Pool
import OtNode.Operation.Types
import Mathlib.Data.Nat.Notation

/-! The finalisation of a publish: the commands a node runs for a `KnowledgeCollectionCreated` event.

    The dataset cached when the publish was received is read, its metadata is compared with the
    event, and it is stored; the node then tells the publisher that it did. What each command returns
    decides whether the sequence goes on, and the executor follows. -/

namespace OtNode

open Pool

variable {α : Type}

/-- The event, as far as the sequence reads it. -/
structure KnowledgeCollectionCreated where
  blockchain : String
  contractAddress : String
  id : String
  publishOperationId : String
  merkleRoot : String
  byteSize : ℕ
  deriving DecidableEq

/-- The file of the pending storage a publish request was cached in. -/
structure CachedDataset (α : Type) where
  merkleRoot : String
  assertion : α
  remotePeerId : Option String
  deriving DecidableEq

/-- The data of the commands after the read. -/
structure FinalizationData (α : Type) where
  operationId : ℕ
  ual : String
  merkleRoot : String
  remotePeerId : Option String
  publishOperationId : String
  assertion : α
  byteSize : ℕ
  cachedMerkleRoot : String
  deriving DecidableEq

/-- The commands a sequence names. -/
inductive FinalizationStage where
  | validateAssertionMetadata | storeAssertion | findPublisherNode | networkFinality
  deriving DecidableEq

/-- A command of the finalisation. -/
inductive FinalizationCommand (α : Type) where
  | readCachedPublishData (sequence : List FinalizationStage)
  | stage (name : FinalizationStage) (data : FinalizationData α) (sequence : List FinalizationStage)
  deriving DecidableEq

/-- A command of the finalisation in the executor. -/
structure FinalizationHandler (α : Type) where
  command : FinalizationCommand α
  retries : ℕ
  mode : TryMode
  deriving DecidableEq

/-- What a finalisation runs in: the event, the dataset cached for it, this node, the reading of an
    assertion's `public` property and the chunk count of the knowledge collection tools. -/
structure FinalizationContext (α : Type) where
  event : KnowledgeCollectionCreated
  cached : CachedDataset α
  peerId : String
  publicPart : α → Except String (Option α)
  calculateNumberOfChunks : α → ℕ → Except String ℕ

/-- One awaited step. `enter` and `leave` are the ends of a `try` block, and an update without a
    status is one whose event the command leaves undefined. -/
inductive FinalizationEffect (α : Type) where
  | execute
  | generateOperationId
  | readFile (operationId : ℕ)
  | updateOperationIdStatus (operationId : ℕ) (status : Option OperationIdStatus)
      (failure : Option Failure)
  | enter
  | raised (message : String)
  | insertKnowledgeCollection (ual : String) (assertion : α)
  | saveFinalityAck (publishOperationId : String)
  | leave
  | retry
  | finish (children : List (FinalizationCommand α))
  deriving DecidableEq

/-- What the environment decides at an awaited step. -/
inductive FinalizationChoice where
  | ok
  | throws (message : String) (lost : Bool)
  deriving DecidableEq

/-- The shared state: the records of the operation ids generated, in order, the commands executed,
    what the triple store holds and the acknowledgements saved. -/
structure Finalization (α : Type) where
  records : List OperationIdRecord
  executed : List (FinalizationCommand α)
  stored : List (String × α)
  finalityAcks : List String
  deriving DecidableEq

/-- `updateOperationIdStatus`: an undefined status leaves the row's own. -/
def Finalization.updateOperationIdStatus (s : Finalization α) (operationId : ℕ)
    (status : Option OperationIdStatus) (failure : Option Failure) : Finalization α :=
  { s with
    records := s.records.modify operationId fun r => r.update (status.getD r.status) failure }

/-- A task of a finalisation. -/
abbrev FinalizationJob (α : Type) := Task (FinalizationHandler α) (FinalizationEffect α)

namespace FinalizationContext

variable (ctx : FinalizationContext α)

/-- `CHUNK_BYTE_SIZE`. -/
def chunkByteSize : ℕ := 32

/-- `calculateAssertionSize(assertion.public ?? assertion)`. -/
def calculateAssertionSize (assertion : α) : Except String ℕ := do
  let part ← ctx.publicPart assertion
  let numberOfChunks ← ctx.calculateNumberOfChunks (part.getD assertion) chunkByteSize
  return numberOfChunks * chunkByteSize

/-- `deriveUAL`. -/
def deriveUAL (blockchain contract knowledgeCollectionId : String) : String :=
  "did:dkg:" ++ blockchain.toLower ++ "/" ++ contract.toLower ++ "/" ++ knowledgeCollectionId

/-- What `ReadCachedPublishDataCommand` hands on. -/
def readData (operationId : ℕ) : FinalizationData α where
  operationId := operationId
  ual := deriveUAL ctx.event.blockchain ctx.event.contractAddress ctx.event.id
  merkleRoot := ctx.event.merkleRoot
  remotePeerId := ctx.cached.remotePeerId
  publishOperationId := ctx.event.publishOperationId
  assertion := ctx.cached.assertion
  byteSize := ctx.event.byteSize
  cachedMerkleRoot := ctx.cached.merkleRoot

end FinalizationContext

/-! ### Scripts -/

namespace FinalizationCommand

/-- `Command.continueSequence`. -/
def continueSequence (data : FinalizationData α) :
    List FinalizationStage → List (FinalizationCommand α)
  | [] => []
  | name :: sequence => [.stage name data sequence]

/-- `this.errorType`: the validation command has none. -/
def errorType : FinalizationStage → Option ErrorType
  | .storeAssertion => some .storeAssertionError
  | _ => none

/-- `Command.handleError` with `markFailed`. -/
def handleError (name : FinalizationStage) (data : FinalizationData α) (message : String) :
    FinalizationEffect α :=
  .updateOperationIdStatus data.operationId (some .failed) (some ⟨message, errorType name⟩)

/-- `execute`, up to the `try` block where there is one. The finality operation takes over at its
    network command. -/
def execute : FinalizationCommand α → List (FinalizationEffect α)
  | .readCachedPublishData _ => [.generateOperationId]
  | .stage .validateAssertionMetadata data _ =>
    [.updateOperationIdStatus data.operationId none none, .enter]
  | .stage .storeAssertion data _ =>
    [.updateOperationIdStatus data.operationId (some .publishFinalizationStoreAssertionStart) none,
      .enter]
  | .stage .findPublisherNode data sequence => [.finish (continueSequence data sequence)]
  | .stage .networkFinality _ _ => []

/-- The comparison of the roots in `ValidateAssertionMetadataCommand`. -/
def checkMerkleRoot (data : FinalizationData α) : List (FinalizationEffect α) :=
  if data.merkleRoot ≠ data.cachedMerkleRoot then
    [handleError .validateAssertionMetadata data
      ("Invalid Merkle Root for Knowledge Collection with UAL: " ++ data.ual ++
        ". Received value from blockchain: " ++ data.merkleRoot ++
        ", Cached value from publish operation: " ++ data.cachedMerkleRoot)]
  else []

/-- The comparison of the sizes in `ValidateAssertionMetadataCommand`. -/
def checkAssertionSize (data : FinalizationData α) (calculatedAssertionSize : ℕ) :
    List (FinalizationEffect α) :=
  if toString data.byteSize ≠ toString calculatedAssertionSize then
    [handleError .validateAssertionMetadata data
      ("Invalid Assertion Size for Knowledge Collection with UAL: " ++ data.ual ++
        ". Received value from blockchain: " ++ toString data.byteSize ++
        ", Calculated value: " ++ toString calculatedAssertionSize)]
  else []

/-- The body of the `try` block. -/
def tryBlock (ctx : FinalizationContext α) : FinalizationCommand α → List (FinalizationEffect α)
  | .stage .validateAssertionMetadata data _ =>
    checkMerkleRoot data ++
      match ctx.calculateAssertionSize data.assertion with
      | .error message => [.raised message]
      -- nothing is returned after either mismatch
      | .ok calculatedAssertionSize =>
        checkAssertionSize data calculatedAssertionSize ++ [.leave]
  | .stage .storeAssertion data _ =>
    [.insertKnowledgeCollection data.ual data.assertion,
      .updateOperationIdStatus data.operationId (some .publishFinalizationStoreAssertionEnd) none] ++
    (if data.remotePeerId = some ctx.peerId then [.saveFinalityAck data.publishOperationId]
      else []) ++
    [.leave]
  | _ => []

/-- `execute` after its `try` block was left. -/
def closing (ctx : FinalizationContext α) : FinalizationCommand α → List (FinalizationEffect α)
  | .stage .validateAssertionMetadata data sequence =>
    [.updateOperationIdStatus data.operationId none none,
      .finish (continueSequence data sequence)]
  | .stage .storeAssertion data sequence =>
    [.finish (continueSequence data
      (if data.remotePeerId = some ctx.peerId then sequence
        else sequence ++ [.findPublisherNode, .networkFinality]))]
  | _ => []

/-- The `catch` block. -/
def caught (message : String) : FinalizationCommand α → List (FinalizationEffect α)
  | .stage name data _ => [handleError name data message, .finish []]
  | .readCachedPublishData _ => []

/-- `recover`. The read has no operation id to fail: its update throws. -/
def recover (message : String) : FinalizationCommand α → List (FinalizationEffect α)
  | .stage name data _ => [handleError name data message]
  | .readCachedPublishData _ => []

/-- The retries a command is added with: `MAX_RETRIES_READ_CACHED_PUBLISH_DATA` for the read. -/
def initialRetries : FinalizationCommand α → ℕ
  | .readCachedPublishData _ => 10
  | .stage _ _ _ => 0

/-- A command in the queue with its retries. -/
def queue (c : FinalizationCommand α) (retries : ℕ) : FinalizationJob α :=
  ⟨⟨c, retries, .outside⟩, [.execute]⟩

/-- A command just added to the queue. -/
def add (c : FinalizationCommand α) : FinalizationJob α := c.queue c.initialRetries

end FinalizationCommand

/-! ### The machine -/

/-- What an error starts: the `catch` block of the command, or the executor's error handling. -/
def onFinalizationThrow (h : FinalizationHandler α) (message : String) (lost : Bool) :
    List (FinalizationJob α) :=
  match h.mode with
  | .inside => [⟨{ h with mode := .outside }, h.command.caught message⟩]
  | .outside =>
    if lost then []
    else if 0 < h.retries then [h.command.queue (h.retries - 1)]
    else [⟨{ h with mode := .recover }, h.command.recover message⟩]
  | .recover | .detached => []

/-- What an awaited step of the finalisation leads to. -/
def finalizationPerform (ctx : FinalizationContext α) (h : FinalizationHandler α)
    (e : FinalizationEffect α) (i : FinalizationChoice) (s : Finalization α) :
    Option (Outcome (Finalization α) (FinalizationHandler α) (FinalizationEffect α)) :=
  match e, i with
  | .execute, .ok =>
    some (.next { s with executed := s.executed ++ [h.command] } h.command.execute [])
  | .generateOperationId, .ok =>
    some (.next { s with records := s.records ++ [⟨.publishFinalizationStart, none⟩] }
      [.readFile s.records.length] [])
  | .readFile operationId, .ok =>
    match h.command with
    | .readCachedPublishData sequence =>
      some (.next s
        [.finish (FinalizationCommand.continueSequence (ctx.readData operationId) sequence)] [])
    | .stage _ _ _ => none
  | .readFile _, .throws _ _ => some (.next s [.retry] [])
  | .updateOperationIdStatus operationId status failure, .ok =>
    some (.next (s.updateOperationIdStatus operationId status failure) [] [])
  | .enter, .ok => some (.next s [] [⟨{ h with mode := .inside }, h.command.tryBlock ctx⟩])
  | .raised message, .ok => some (.raise s (onFinalizationThrow h message false))
  | .insertKnowledgeCollection ual assertion, .ok =>
    some (.next { s with stored := s.stored ++ [(ual, assertion)] } [] [])
  | .saveFinalityAck publishOperationId, .ok =>
    some (.next { s with finalityAcks := s.finalityAcks ++ [publishOperationId] } [] [])
  | .leave, .ok => some (.next s [] [⟨{ h with mode := .outside }, h.command.closing ctx⟩])
  | .retry, .ok =>
    -- the last retry only ends the command
    some (.next s [] (if 1 < h.retries then [h.command.queue (h.retries - 1)] else []))
  | .finish children, .ok => some (.next s [] (children.map FinalizationCommand.add))
  | .enter, .throws _ _ | .leave, .throws _ _ | .raised _, .throws _ _ => none
  | _, .throws message lost => some (.raise s (onFinalizationThrow h message lost))

/-- The finalisation as a machine. -/
def finalizationMachine (ctx : FinalizationContext α) :
    Machine (Finalization α) (FinalizationHandler α) (FinalizationEffect α) FinalizationChoice :=
  ⟨finalizationPerform ctx⟩

/-- `handleKnowledgeCollectionCreatedEvent`. -/
def handleKnowledgeCollectionCreatedEvent (α : Type) :
    Config (Finalization α) (FinalizationHandler α) (FinalizationEffect α) :=
  ⟨⟨[], [], [], []⟩, [(FinalizationCommand.readCachedPublishData
    [.validateAssertionMetadata, .storeAssertion]).add]⟩

/-- A run of the finalisation in which any call may fail at any point. -/
def FinalizationRun (ctx : FinalizationContext α)
    (c : Config (Finalization α) (FinalizationHandler α) (FinalizationEffect α)) : Prop :=
  (finalizationMachine ctx).Steps (fun _ _ _ => True) (handleKnowledgeCollectionCreatedEvent α) c

end OtNode
