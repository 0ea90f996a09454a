import Mathlib.Data.List.TakeWhile
import OtNode.Listener.Replace

/-! The listener commands of several blockchains, on one command object.

    The container registers the command as a singleton, so what a run keeps in fields is shared by
    the runs of all blockchains, and so is the number of blocks that `OtEthers` keeps in a field. A
    run goes from one await to the next; in between any other run may go on. What else lies behind
    the services is apart for each blockchain. -/

namespace OtNode

open Utf BlockchainEvent

/-- A field of the command object, with what each run left in it when it last used it. -/
structure SharedField (α : Type) where
  value : α
  left : JsString → α

namespace SharedField

variable {α : Type}

/-- A field as the constructor sets it. -/
def constructed (value : α) : SharedField α := ⟨value, fun _ => value⟩

/-- A run sets a field. -/
def set (f : SharedField α) (blockchain : JsString) (value : α) : SharedField α :=
  ⟨value, Function.update f.left blockchain value⟩

/-- A run uses the value that it finds. -/
def use (f : SharedField α) (blockchain : JsString) (value : α) : SharedField α :=
  { f with left := Function.update f.left blockchain value }

/-- The field holds what a run left in it. -/
def Kept (f : SharedField α) (blockchain : JsString) : Prop := f.value = f.left blockchain

end SharedField

/-- A number in `maxNumberOfHistoricalBlocksForSync`: `none` is `undefined`, and `some none` is
    `Infinity`. -/
abbrev HistoricalBlocks := Option (Option ℤ)

/-- The number is not taken for a missing one: it is neither `undefined` nor 0. -/
def HistoricalBlocks.isSet (found : HistoricalBlocks) : Bool := found.any fun n => n != some 0

/-- The fields of the command object, the one of `OtEthers`, and what lies behind the services for
    each blockchain: its rows, its node and its contracts. No event is independent, and
    `currentBlock` is not read before it is set. `maxBlocksToSync` is what the call of
    `_getMaxNumberOfHistoricalBlocksForSync` in each run found in the field, and then what it
    returned. -/
structure ListenerMemory (W : Type) where
  currentBlock : SharedField ℤ
  dependentEvents : SharedField (List BlockchainEvent)
  newDependentEvents : SharedField (List BlockchainEvent)
  invalidatedContracts : SharedField (List Address)
  maxNumberOfHistoricalBlocksForSync : SharedField HistoricalBlocks
  maxBlocksToSync : JsString → HistoricalBlocks
  worlds : JsString → W

/-- A call of a service for a blockchain. `none` is an exception. -/
abbrev ServiceCall (W α : Type) := W → Option α × W

/-- The services, as far as they act on the part of their blockchain. `historicalBlocks` is what
    `_getMaxNumberOfHistoricalBlocksForSync` computes: `Infinity` in development and tests, and
    otherwise the blocks of an hour, by the block time of the blockchain. `getPastEvents` is the
    rest of the fetch, with that number. The services of a handler are called for the blockchain of
    the event; `initializeContract` parses the data of the event, and calls an initialisation if the
    blockchain module has another address. -/
structure ListenerServices (W : Type) where
  transaction : ServiceCall W Unit
  getBlock : ServiceCall W ℤ
  getLastCheckedBlock : ServiceCall W (Option ℤ)
  historicalBlocks : ServiceCall W (Option ℤ)
  getPastEvents : JsString → List MonitoredContract → List MonitoredEvent → ℤ → ℤ → Option ℤ →
    ServiceCall W (List BlockchainEvent)
  insertBlockchainEvents : List BlockchainEvent → ServiceCall W Unit
  updateLastCheckedBlock : ℤ → ServiceCall W Unit
  getAllUnprocessedBlockchainEvents : JsString → ServiceCall W (List BlockchainEvent)
  removeContractEventsAfterBlock : MonitoredContract → Address → ℕ → ℕ → ServiceCall W Unit
  commit : ServiceCall W Unit
  rollback : ServiceCall W Unit
  markAllBlockchainEventsAsProcessed : ServiceCall W Unit
  initializeContract : Initialization → JsString → ServiceCall W Unit
  contracts : W → Contracts
  updateContractAddress : MonitoredContract → Address → W → W
  setContractCallCache : JsString → W → W
  addReadCachedPublishData : BlockchainEvent → W → W
  fetched : ∀ {b names events last current maxBlocks w es},
    (getPastEvents b names events last current maxBlocks w).1 = some es →
      ∀ e ∈ es, e.blockchain = b
  unprocessed : ∀ {b w es},
    (getAllUnprocessedBlockchainEvents b w).1 = some es → ∀ e ∈ es, e.blockchain = b

/-- The await that a run is in, with what it holds there. -/
inductive ListenerStage where
  | idle
  | transaction
  | block
  | lastCheckedBlock
  | syncing (lastCheckedBlock currentBlock : ℤ)
  | pastEvents (lastCheckedBlock currentBlock : ℤ) (maxBlocksToSync : Option ℤ)
  | inserting (newEvents : List BlockchainEvent)
  | updating (currentBlock : ℤ)
  | unprocessed
  | handling (index : ℕ)
  | removing (index : ℕ) (r : Replacement)
  | resyncing (index : ℕ) (r : Replacement) (currentBlock : ℤ)
  | refetching (index : ℕ) (r : Replacement) (currentBlock : ℤ) (maxBlocksToSync : Option ℤ)
  | reinserting (index : ℕ) (r : Replacement) (newEvents : List BlockchainEvent)
  | committing
  | rollingBack
  | marking

/-- The runs of a blockchain, one after the other: the await, the current blocks they passed to
    services, and the events they took from the list. -/
structure ListenerLocal where
  stage : ListenerStage := .idle
  currentBlocks : List ℤ := []
  turns : List DependentTurn := []

namespace ListenerLocal

/-- The run comes to the next await. -/
def goTo (l : ListenerLocal) (stage : ListenerStage) : ListenerLocal := { l with stage := stage }

/-- The run passes its current block to a service. -/
def passes (l : ListenerLocal) (currentBlock : ℤ) (stage : ListenerStage) : ListenerLocal :=
  { l with stage := stage, currentBlocks := l.currentBlocks ++ [currentBlock] }

end ListenerLocal

/-- `isIndependentEvent`. -/
def isIndependentEvent (contractName : MonitoredContract) (eventName : MonitoredEvent) : Bool :=
  decide (eventName ∈ contractName.independentEvents)

namespace ListenerMemory

variable {W : Type} (m : ListenerMemory W) (blockchain : JsString)

/-- What the constructor sets. -/
def constructed (worlds : JsString → W) : ListenerMemory W where
  currentBlock := .constructed 0
  dependentEvents := .constructed []
  newDependentEvents := .constructed []
  invalidatedContracts := .constructed []
  maxNumberOfHistoricalBlocksForSync := .constructed none
  maxBlocksToSync := fun _ => none
  worlds := worlds

def setWorld (w : W) : ListenerMemory W :=
  { m with worlds := Function.update m.worlds blockchain w }

def setCurrentBlock (n : ℤ) : ListenerMemory W :=
  { m with currentBlock := m.currentBlock.set blockchain n }

def setDependentEvents (es : List BlockchainEvent) : ListenerMemory W :=
  { m with dependentEvents := m.dependentEvents.set blockchain es }

def setNewDependentEvents (es : List BlockchainEvent) : ListenerMemory W :=
  { m with newDependentEvents := m.newDependentEvents.set blockchain es }

def setInvalidatedContracts (as : List Address) : ListenerMemory W :=
  { m with invalidatedContracts := m.invalidatedContracts.set blockchain as }

/-- A run calls `getPastEvents`, which looks into the field at once. -/
def findMaxBlocksToSync : ListenerMemory W :=
  { m with maxBlocksToSync :=
      Function.update m.maxBlocksToSync blockchain m.maxNumberOfHistoricalBlocksForSync.value }

/-- The number is returned. One that was not found in the field has been set. -/
def returnMaxBlocksToSync (n : Option ℤ) : ListenerMemory W :=
  { m with
    maxNumberOfHistoricalBlocksForSync :=
      if (m.maxBlocksToSync blockchain).isSet then
        m.maxNumberOfHistoricalBlocksForSync.use blockchain (some n)
      else m.maxNumberOfHistoricalBlocksForSync.set blockchain (some n)
    maxBlocksToSync := Function.update m.maxBlocksToSync blockchain (some n) }

/-- The answer to a call arrives: an exception leads to the await `caught`. -/
def answer {α : Type} (call : ServiceCall W α) (l : ListenerLocal) (caught : ListenerStage)
    (go : α → ListenerMemory W → ListenerLocal × ListenerMemory W) :
    ListenerLocal × ListenerMemory W :=
  match call (m.worlds blockchain) with
  | (none, w) => (l.goTo caught, m.setWorld blockchain w)
  | (some a, w) => go a (m.setWorld blockchain w)

/-- The events of a batch that are not independent are put into the field, and sorted. -/
def batch (es : List BlockchainEvent) : ListenerMemory W :=
  m.setDependentEvents blockchain (sort (es.filter fun e => !isIndependentEvent e.contract e.event))

/-- The loop over the dependent events as it finds the fields. -/
def loop (index : ℕ) (turns : List DependentTurn) : DependentLoop where
  dependentEvents := m.dependentEvents.value
  newDependentEvents := m.newDependentEvents.value
  invalidatedContracts := m.invalidatedContracts.value
  index := index
  turns := turns

end ListenerMemory

/-- The events of invalidated contracts at the front are skipped. -/
def DependentLoop.skipInvalidated (s : DependentLoop) : List BlockchainEvent → DependentLoop
  | [] => s
  | event :: rest =>
    if event.contractAddress ∈ s.invalidatedContracts then (s.skip event).skipInvalidated rest
    else s

namespace ListenerServices

variable {W : Type} (s : ListenerServices W) (blockchain : JsString)

/-- `_getMaxNumberOfHistoricalBlocksForSync`, with what it found in the field. -/
def getMaxNumberOfHistoricalBlocksForSync (found : HistoricalBlocks) :
    ServiceCall W (Option ℤ) :=
  if found.isSet then fun w => (found, w) else s.historicalBlocks

/-- The four handlers of the hub's events, up to their first await. -/
def replaceContract (kind : Initialization) (index : ℕ) (event : BlockchainEvent)
    (l : ListenerLocal) (m : ListenerMemory W) : ListenerLocal × ListenerMemory W :=
  m.answer event.blockchain (s.initializeContract kind event.data) l (.handling index) fun _ m =>
    match replacement (s.contracts (m.worlds event.blockchain)) event with
    | none => (l.goTo (.handling index), m)
    | some r =>
      let w := s.updateContractAddress r.contract r.new (m.worlds event.blockchain)
      (l.goTo (.removing index r),
        (m.setWorld event.blockchain w).setInvalidatedContracts blockchain
          (m.invalidatedContracts.value ++ [r.old]))

/-- The handler of an event is invoked, and runs up to its first await. -/
def processEvent (index : ℕ) (event : BlockchainEvent) (l : ListenerLocal) (m : ListenerMemory W) :
    ListenerLocal × ListenerMemory W :=
  match event.event with
  | .newContract | .contractChanged =>
    s.replaceContract blockchain .initializeContract index event l m
  | .newAssetStorage | .assetStorageChanged =>
    s.replaceContract blockchain .initializeAssetStorageContract index event l m
  | .parameterChanged =>
    (l.goTo (.handling index),
      m.setWorld event.blockchain (s.setContractCallCache event.data (m.worlds event.blockchain)))
  | .knowledgeCollectionCreated =>
    (l.goTo (.handling index),
      m.setWorld event.blockchain (s.addReadCachedPublishData event (m.worlds event.blockchain)))

/-- `processDependentEvents` from an index up to its next await. -/
def processDependentEvents (index : ℕ) (l : ListenerLocal) (m : ListenerMemory W) :
    ListenerLocal × ListenerMemory W :=
  let start := m.loop index l.turns
  let loop := start.skipInvalidated start.pending
  match loop.pending with
  | [] =>
    ({ l with stage := .committing, turns := loop.turns },
      (m.setDependentEvents blockchain loop.dependentEvents).setInvalidatedContracts blockchain [])
  | event :: _ =>
    s.processEvent blockchain index event
      { l with turns := loop.turns ++ [⟨event, loop.invalidatedContracts, true⟩] }
      ((m.setDependentEvents blockchain loop.merge.dependentEvents).setNewDependentEvents
        blockchain loop.merge.newDependentEvents)

/-- A run goes on from an await to the next one, or the next run of the blockchain starts. -/
def resume (l : ListenerLocal) (m : ListenerMemory W) : ListenerLocal × ListenerMemory W :=
  match l.stage with
  | .idle => (l.goTo .transaction, m)
  | .transaction => m.answer blockchain s.transaction l .idle fun _ m => (l.goTo .block, m)
  | .block =>
    m.answer blockchain s.getBlock l .rollingBack fun number m =>
      (l.goTo .lastCheckedBlock, m.setCurrentBlock blockchain (number - 2))
  | .lastCheckedBlock =>
    m.answer blockchain s.getLastCheckedBlock l .rollingBack fun last m =>
      (l.passes m.currentBlock.value (.syncing (last.getD 0) m.currentBlock.value),
        m.findMaxBlocksToSync blockchain)
  | .syncing last current =>
    m.answer blockchain
      (s.getMaxNumberOfHistoricalBlocksForSync (m.maxBlocksToSync blockchain))
      l .rollingBack fun n m =>
        (l.goTo (.pastEvents last current n), m.returnMaxBlocksToSync blockchain n)
  | .pastEvents last current n =>
    m.answer blockchain
      (s.getPastEvents blockchain MonitoredContract.all MonitoredEvent.all last current n)
      l .rollingBack fun newEvents m =>
        if newEvents = [] then
          (l.passes m.currentBlock.value (.updating m.currentBlock.value), m)
        else (l.goTo (.inserting newEvents), m)
  | .inserting newEvents =>
    m.answer blockchain (s.insertBlockchainEvents newEvents) l .rollingBack fun _ m =>
      (l.passes m.currentBlock.value (.updating m.currentBlock.value), m)
  | .updating current =>
    m.answer blockchain (s.updateLastCheckedBlock current) l .rollingBack fun _ m =>
      (l.goTo .unprocessed, m)
  | .unprocessed =>
    m.answer blockchain (s.getAllUnprocessedBlockchainEvents blockchain) l .rollingBack fun es m =>
      s.processDependentEvents blockchain 0 l (m.batch blockchain es)
  | .handling index => s.processDependentEvents blockchain (index + 1) l m
  | .removing index r =>
    m.answer r.event.blockchain
      (s.removeContractEventsAfterBlock r.contract r.event.contractAddress r.event.blockNumber
        r.event.transactionIndex)
      l (.handling index) fun _ m =>
        (l.passes m.currentBlock.value (.resyncing index r m.currentBlock.value),
          m.findMaxBlocksToSync blockchain)
  | .resyncing index r current =>
    m.answer r.event.blockchain
      (s.getMaxNumberOfHistoricalBlocksForSync (m.maxBlocksToSync blockchain))
      l (.handling index) fun n m =>
        (l.goTo (.refetching index r current n), m.returnMaxBlocksToSync blockchain n)
  | .refetching index r current n =>
    m.answer r.event.blockchain
      (s.getPastEvents r.event.blockchain [r.contract] r.contract.events r.event.blockNumber
        current n)
      l (.handling index) fun newEvents m =>
        if newEvents = [] then (l.goTo (.handling index), m)
        else (l.goTo (.reinserting index r newEvents), m)
  | .reinserting index r newEvents =>
    m.answer r.event.blockchain (s.insertBlockchainEvents newEvents) l (.handling index) fun _ m =>
      (l.goTo (.handling index), m.setNewDependentEvents blockchain newEvents)
  | .committing => m.answer blockchain s.commit l .rollingBack fun _ m => (l.goTo .marking, m)
  | .rollingBack => m.answer blockchain s.rollback l .idle fun _ m => (l.goTo .idle, m)
  | .marking =>
    m.answer blockchain s.markAllBlockchainEventsAsProcessed l .idle fun _ m => (l.goTo .idle, m)

end ListenerServices

/-! ### Answers -/

namespace ListenerMemory

variable {W : Type} {b : JsString} {m : ListenerMemory W}

@[simp] theorem worlds_setWorld (w : W) : (m.setWorld b w).worlds b = w :=
  Function.update_self ..

@[simp] theorem setWorld_setWorld (w w' : W) : (m.setWorld b w).setWorld b w' = m.setWorld b w' := by
  simp [setWorld]

section Answer

variable {α : Type} {call : ServiceCall W α} {l : ListenerLocal} {caught : ListenerStage}
  {go : α → ListenerMemory W → ListenerLocal × ListenerMemory W} {w : W}

theorem answer_of_none (h : call (m.worlds b) = (none, w)) :
    m.answer b call l caught go = (l.goTo caught, m.setWorld b w) := by
  rw [answer, h]

theorem answer_of_some {a : α} (h : call (m.worlds b) = (some a, w)) :
    m.answer b call l caught go = go a (m.setWorld b w) := by
  rw [answer, h]

theorem answer_congr {call' : ServiceCall W α}
    (h : call (m.worlds b) = call' (m.worlds b)) :
    m.answer b call l caught go = m.answer b call' l caught go := by
  rw [answer, answer, h]

end Answer

end ListenerMemory

/-! ### The loop up to an await -/

section Loop

/-- What the loop skips, and what it has left. -/
theorem DependentLoop.skipInvalidated_eq (s : DependentLoop) :
    s.skipInvalidated s.pending =
      { s with
        dependentEvents := s.dependentEvents.take s.index ++
          s.pending.dropWhile fun e => e.contractAddress ∈ s.invalidatedContracts
        turns := s.turns ++
          (s.pending.takeWhile fun e => e.contractAddress ∈ s.invalidatedContracts).map
            fun e => ⟨e, s.invalidatedContracts, false⟩ } := by
  induction hpending : s.pending generalizing s with
  | nil =>
    have htake : s.dependentEvents.take s.index = s.dependentEvents :=
      List.take_of_length_le (List.drop_eq_nil_iff.1 hpending)
    simp [skipInvalidated, htake]
  | cons event rest ih =>
    by_cases hinvalid : event.contractAddress ∈ s.invalidatedContracts
    · have htake : (s.skip event).dependentEvents.take s.index =
          s.dependentEvents.take s.index := List.take_eraseIdx_eq_take_of_le _ _ _ le_rfl
      have hskip := ih (s.skip event) (pending_skip hpending)
      have hindex : (s.skip event).index = s.index := rfl
      have hcontracts : (s.skip event).invalidatedContracts = s.invalidatedContracts := rfl
      rw [hindex, hcontracts, htake] at hskip
      rw [skipInvalidated, if_pos hinvalid, hskip]
      simp [skip, hinvalid]
    · have hall : s.dependentEvents.take s.index ++ event :: rest = s.dependentEvents := by
        rw [← hpending]
        exact List.take_append_drop ..
      simp [skipInvalidated, hinvalid, hall]

/-- The events the loop has left after it skipped some. -/
theorem DependentLoop.pending_skipInvalidated (s : DependentLoop) :
    (s.skipInvalidated s.pending).pending =
      s.pending.dropWhile fun e => e.contractAddress ∈ s.invalidatedContracts := by
  rw [skipInvalidated_eq, pending]
  by_cases hlt : s.index < s.dependentEvents.length
  · have htake : (s.dependentEvents.take s.index).length = s.index := by
      rw [List.length_take]
      omega
    exact List.drop_left' htake
  · have hnil : s.pending = [] := List.drop_eq_nil_of_le (not_lt.1 hlt)
    rw [hnil, List.dropWhile_nil, List.append_nil]
    exact List.drop_eq_nil_of_le (List.length_take_le _ _)

/-- The loop up to an await goes through iterations of the loop. -/
theorem DependentLoop.steps_skipInvalidated (s : DependentLoop) (effects : List HandlerEffect) :
    Relation.ReflTransGen Steps (s, effects) (s.skipInvalidated s.pending, effects) := by
  induction hpending : s.pending generalizing s with
  | nil => exact .refl
  | cons event rest ih =>
    by_cases hinvalid : event.contractAddress ∈ s.invalidatedContracts
    · have hget : s.dependentEvents[s.index]? = some event := by
        rw [← List.head?_drop]
        exact congrArg List.head? hpending
      have hnext : s.next effects = some (s.skip event, effects) := by
        simp only [next, hget, if_pos hinvalid]
      rw [skipInvalidated, if_pos hinvalid]
      exact .head hnext (ih (s.skip event) (pending_skip hpending))
    · rw [skipInvalidated, if_neg hinvalid]

/-- Skipping takes events out of the list. -/
theorem DependentLoop.mem_skipInvalidated {s : DependentLoop} {e : BlockchainEvent}
    (h : e ∈ (s.skipInvalidated s.pending).dependentEvents) : e ∈ s.dependentEvents := by
  rw [skipInvalidated_eq] at h
  rcases List.mem_append.1 h with h | h
  · exact List.mem_of_mem_take h
  · exact List.mem_of_mem_drop ((List.dropWhile_sublist _).subset h)

/-- A turn in which an event is skipped is one of the list. -/
theorem DependentLoop.turn_skipInvalidated {s : DependentLoop} {t : DependentTurn}
    (h : t ∈ (s.skipInvalidated s.pending).turns) : t ∈ s.turns ∨ t.event ∈ s.dependentEvents := by
  rw [skipInvalidated_eq] at h
  rcases List.mem_append.1 h with h | h
  · exact .inl h
  · obtain ⟨e, he, rfl⟩ := List.mem_map.1 h
    exact .inr (List.mem_of_mem_drop ((List.takeWhile_sublist _).subset he))

/-- The event that is taken next is one of the list. -/
theorem DependentLoop.mem_of_skipped {s : DependentLoop} {e : BlockchainEvent}
    {rest : List BlockchainEvent} (h : (s.skipInvalidated s.pending).pending = e :: rest) :
    e ∈ s.dependentEvents := by
  have hmem : e ∈ (s.skipInvalidated s.pending).pending := by
    rw [h]
    exact List.mem_cons_self
  exact mem_skipInvalidated (List.mem_of_mem_drop hmem)

/-- A merged list has events of the list and new ones. -/
theorem DependentLoop.mem_merge {s : DependentLoop} {e : BlockchainEvent}
    (h : e ∈ s.merge.dependentEvents) : e ∈ s.dependentEvents ∨ e ∈ s.newDependentEvents := by
  unfold merge at h
  split_ifs at h
  · rcases List.mem_append.1 h with h | h
    · exact .inl (List.mem_of_mem_take h)
    · exact (List.mem_append.1 (mem_sort.1 h)).imp_left List.mem_of_mem_drop
  · exact .inl h

end Loop

/-! ### What a handler does up to an await -/

section Handler

variable {W : Type} (s : ListenerServices W) (b : JsString) (index : ℕ) (event : BlockchainEvent)
  (l : ListenerLocal) (w₀ : W)

/-- A handler calls services for the blockchain of the event. It comes to its end, or to the await
    of a replacement. -/
theorem ListenerServices.replaceContract_spec (kind : Initialization) :
    (∃ w, ∀ m : ListenerMemory W, m.worlds event.blockchain = w₀ →
      s.replaceContract b kind index event l m =
        (l.goTo (.handling index), m.setWorld event.blockchain w)) ∨
    ∃ w r, r.event = event ∧ ∀ m : ListenerMemory W, m.worlds event.blockchain = w₀ →
      s.replaceContract b kind index event l m =
        (l.goTo (.removing index r),
          (m.setWorld event.blockchain w).setInvalidatedContracts b
            (m.invalidatedContracts.value ++ [r.old])) := by
  rcases hcall : s.initializeContract kind event.data w₀ with ⟨- | a, w⟩
  · refine .inl ⟨w, fun m hw => ?_⟩
    subst hw
    exact ListenerMemory.answer_of_none hcall
  · rcases hreplacement : replacement (s.contracts w) event with - | r
    · refine .inl ⟨w, fun m hw => ?_⟩
      subst hw
      rw [replaceContract, ListenerMemory.answer_of_some hcall, ListenerMemory.worlds_setWorld,
        hreplacement]
    · refine .inr ⟨s.updateContractAddress r.contract r.new w, r,
        event_of_replacement hreplacement, fun m hw => ?_⟩
      subst hw
      rw [replaceContract, ListenerMemory.answer_of_some hcall, ListenerMemory.worlds_setWorld,
        hreplacement]
      simp only [ListenerMemory.setWorld_setWorld]
      rfl

theorem ListenerServices.processEvent_spec :
    (∃ w, ∀ m : ListenerMemory W, m.worlds event.blockchain = w₀ →
      s.processEvent b index event l m =
        (l.goTo (.handling index), m.setWorld event.blockchain w)) ∨
    ∃ w r, r.event = event ∧ ∀ m : ListenerMemory W, m.worlds event.blockchain = w₀ →
      s.processEvent b index event l m =
        (l.goTo (.removing index r),
          (m.setWorld event.blockchain w).setInvalidatedContracts b
            (m.invalidatedContracts.value ++ [r.old])) := by
  unfold processEvent
  cases event.event with
  | newContract => exact s.replaceContract_spec b index event l w₀ _
  | contractChanged => exact s.replaceContract_spec b index event l w₀ _
  | newAssetStorage => exact s.replaceContract_spec b index event l w₀ _
  | assetStorageChanged => exact s.replaceContract_spec b index event l w₀ _
  | parameterChanged => exact .inl ⟨_, fun m hw => by rw [hw]⟩
  | knowledgeCollectionCreated => exact .inl ⟨_, fun m hw => by rw [hw]⟩

end Handler

end OtNode
