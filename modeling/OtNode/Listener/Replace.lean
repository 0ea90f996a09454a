import Mathlib.Logic.Function.Basic
import OtNode.Lib.Json
import OtNode.Listener.Fetch
import OtNode.Listener.Processed

/-! The handlers of the hub's events, which replace the address of a monitored contract.

    Addresses are texts here: the contract map holds them as the hub returns them, in mixed case,
    and the logs have them in lower case. -/

namespace OtNode

open Utf Json BlockchainEvent

/-- The initialisation in the blockchain module that a handler calls. -/
inductive Initialization where
  | initializeContract
  | initializeAssetStorageContract

/-- The later calls of a handler. -/
inductive HandlerStop where
  | remove
  | fetch
  | insert
  deriving DecidableEq

/-- What a call of a handler meets: an initialisation that throws, a later call that throws, and the
    answers of the RPC node. -/
structure HandlerEnv where
  initializeThrows : Initialization → Bool
  stop : Option HandlerStop
  maxBlocksToSync : Option ℤ
  fails : ℕ → Bool

/-- The contract map, and the rows of the event table. -/
structure MonitorTables where
  contracts : Contracts
  rows : List EventRow

/-- `const { contractName, newContractAddress } = JSON.parse(event.data)`, for a monitored
    contract. -/
def parseChange (data : JsString) : Option (MonitoredContract × Address) :=
  match parse data with
  | some (.obj ms) =>
    match ms.lookup (units "contractName"), ms.lookup (units "newContractAddress") with
    | some (.str contractName), some (.str newContractAddress) =>
      (MonitoredContract.all.find? fun c => c.name = contractName).map fun c =>
        (c, newContractAddress)
    | _, _ => none
  | _ => none

/-- A row that `removeContractEventsAfterBlock` destroys. -/
def removesRow (contract : MonitoredContract) (contractAddress : Address)
    (blockNumber transactionIndex : ℕ) (e : BlockchainEvent) : Bool :=
  decide (e.contract = contract) && decide (e.contractAddress = contractAddress) &&
    (decide (blockNumber < e.blockNumber) ||
      decide (e.blockNumber = blockNumber) && decide (transactionIndex < e.transactionIndex))

/-- The address of a contract, replaced by an event. -/
structure Replacement where
  event : BlockchainEvent
  contract : MonitoredContract
  old : Address
  new : Address

section Handlers

variable (abi : Abi) (chain : List Log) (currentBlock : ℤ)

/-- The fetch of the events of a new address. -/
def Replacement.fetch (r : Replacement) (contracts : Contracts) (env : HandlerEnv) : Fetch where
  blockchain := r.event.blockchain
  contracts := Function.update contracts r.contract (some r.new)
  contractNames := [r.contract]
  eventsToFilter := r.contract.events
  maxBlocksToSync := env.maxBlocksToSync
  fails := env.fails
  lastCheckedBlock := r.event.blockNumber
  currentBlock := currentBlock

/-- The replacement an event asks for: of a contract in the map, by another address. -/
def replacement (contracts : Contracts) (event : BlockchainEvent) : Option Replacement :=
  match parseChange event.data with
  | none => none
  | some (contractName, newContractAddress) =>
    match contracts contractName with
    | none => none
    | some address =>
      if newContractAddress = address then none
      else some ⟨event, contractName, address, newContractAddress⟩

/-- What the four handlers of the hub's events do, with the initialisation that each calls. An
    exception leaves what was done before it. -/
def replaceContract (kind : Initialization) (env : HandlerEnv) (w : MonitorTables)
    (event : BlockchainEvent) : MonitorTables × HandlerEffect :=
  if env.initializeThrows kind then (w, {})
  else
    match replacement w.contracts event with
    | none => (w, {})
    | some r =>
      let contracts := Function.update w.contracts r.contract (some r.new)
      if env.stop = some .remove then (⟨contracts, w.rows⟩, ⟨[r.old], []⟩)
      else
        -- the address of the event is that of the hub, not the old one
        let rows := w.rows.filter fun row => !removesRow r.contract event.contractAddress
          event.blockNumber event.transactionIndex row.event
        if env.stop = some .fetch then (⟨contracts, rows⟩, ⟨[r.old], []⟩)
        else
          let newEvents := (r.fetch currentBlock w.contracts env).getPastEvents abi chain
          if env.stop = some .insert then (⟨contracts, rows⟩, ⟨[r.old], []⟩)
          else (⟨contracts, insertBlockchainEvents rows newEvents⟩, ⟨[r.old], newEvents⟩)

/-- `handleNewContractEvent`. -/
def handleNewContractEvent :=
  replaceContract abi chain currentBlock .initializeContract

/-- `handleContractChangedEvent`. -/
def handleContractChangedEvent :=
  replaceContract abi chain currentBlock .initializeContract

/-- `handleNewAssetStorageEvent`. -/
def handleNewAssetStorageEvent :=
  replaceContract abi chain currentBlock .initializeAssetStorageContract

/-- `handleAssetStorageChangedEvent`. -/
def handleAssetStorageChangedEvent :=
  replaceContract abi chain currentBlock .initializeAssetStorageContract

/-- The handler of an event. Those of the other contracts do not touch the tables. -/
def processEvent (env : HandlerEnv) (w : MonitorTables) (event : BlockchainEvent) :
    MonitorTables × HandlerEffect :=
  match event.event with
  | .newContract => handleNewContractEvent abi chain currentBlock env w event
  | .contractChanged => handleContractChangedEvent abi chain currentBlock env w event
  | .newAssetStorage => handleNewAssetStorageEvent abi chain currentBlock env w event
  | .assetStorageChanged => handleAssetStorageChangedEvent abi chain currentBlock env w event
  | .parameterChanged | .knowledgeCollectionCreated => (w, {})

end Handlers

/-- The same address, whatever the case of its letters. -/
def SameAddress (a b : Address) : Prop := toLowerCase a = toLowerCase b

instance (a b : Address) : Decidable (SameAddress a b) :=
  inferInstanceAs (Decidable (toLowerCase a = toLowerCase b))

/-- The unprocessed rows of the old address, in later blocks, that the handler does not remove: it
    removes those of the contract that stand under the address of the hub. -/
def Replacement.unreached (r : Replacement) (rows : List EventRow) : List EventRow :=
  rows.filter fun row =>
    !row.processed && decide (SameAddress row.event.contractAddress r.old) &&
      decide (r.event.blockNumber < row.event.blockNumber) &&
      !removesRow r.contract r.event.contractAddress r.event.blockNumber r.event.transactionIndex
        row.event

/-- An event of the hub that reports a change. -/
def MonitoredEvent.isChange : MonitoredEvent → Bool
  | .newContract | .contractChanged | .newAssetStorage | .assetStorageChanged => true
  | .parameterChanged | .knowledgeCollectionCreated => false

/-- A run of `processDependentEvents` with its handlers, the replacements asked for so far, and the
    rows that they did not reach. -/
structure Monitor where
  tables : MonitorTables
  loop : DependentLoop
  replaced : List Replacement := []
  unreached : List EventRow := []

namespace Monitor

variable (abi : Abi) (chain : List Log) (currentBlock : ℤ)

/-- The replacement that the handler of an event is asked for. -/
def asked (s : Monitor) (event : BlockchainEvent) : Option Replacement :=
  if event.event.isChange then replacement s.tables.contracts event else none

/-- One iteration. -/
def next (env : HandlerEnv) (s : Monitor) : Option Monitor :=
  match s.loop.dependentEvents[s.loop.index]? with
  | none => none
  | some event =>
    if event.contractAddress ∈ s.loop.invalidatedContracts then
      some { s with loop := s.loop.skip event }
    else
      let result := processEvent abi chain currentBlock env s.tables event
      some
        { tables := result.1
          loop := s.loop.handle event result.2
          replaced := s.replaced ++ (s.asked event).toList
          unreached := s.unreached ++
            (s.asked event).toList.flatMap fun r => r.unreached s.tables.rows }

/-- The start of a run: the batch is what is unprocessed in the table. -/
def start (w : MonitorTables) : Monitor where
  tables := w
  loop := DependentLoop.start (getAllUnprocessedBlockchainEvents w.rows)

end Monitor

/-- The topic of a log is one of the contract's monitored events. -/
def Abi.Monitors (abi : Abi) (c : MonitoredContract) (log : Log) : Prop :=
  ∃ f ∈ abi.filters c, f.1 ∈ c.events ∧ f.2 = log.topic

/-- A log of the new address, of a kind that is monitored. -/
def Replacement.Monitors (abi : Abi) (r : Replacement) (log : Log) : Prop :=
  SameAddress r.new log.address ∧ abi.Monitors r.contract log

/-- The event of a log. -/
def BlockchainEvent.IsOf (x : BlockchainEvent) (log : Log) : Prop :=
  x.contractAddress = log.address ∧ x.blockNumber = log.blockNumber ∧
    x.transactionIndex = log.transactionIndex ∧ x.logIndex = log.logIndex

/-- The events whose handler was invoked. -/
def DependentLoop.handledEvents (s : DependentLoop) : List BlockchainEvent :=
  (s.turns.filter DependentTurn.handled).map DependentTurn.event

/-- Replaced contracts are not heard: no event of the old address after the block of the replacement
    was handled, the events of the new address are stored and handled up to its own replacement, and
    so are those of the batch from addresses that are not replaced. -/
structure Hushed (abi : Abi) (chain : List Log) (currentBlock : ℤ)
    (batch : List BlockchainEvent) (s : Monitor) : Prop where
  once : DependentLoop.InOrderOnce batch s.loop
  invoked : ∀ r ∈ s.replaced, ∀ x ∈ s.loop.handledEvents, SameAddress x.contractAddress r.old →
    x.blockNumber ≤ r.event.blockNumber
  new : ∀ r ∈ s.replaced, ∀ log ∈ chain, r.Monitors abi log →
    r.event.blockNumber ≤ log.blockNumber → (log.blockNumber : ℤ) ≤ currentBlock →
      ∃ x, x.IsOf log ∧ ((∀ r' ∈ s.replaced, SameAddress r'.old r.new → x.place < r'.event.place) →
        ⟨x, false⟩ ∈ s.tables.rows ∧ x ∈ s.loop.handledEvents)
  unrelated : ∀ x ∈ batch, (∀ r ∈ s.replaced, ¬ SameAddress x.contractAddress r.old) →
    ⟨x, false⟩ ∈ s.tables.rows ∧ x ∈ s.loop.handledEvents

/-- Replaced contracts are silenced: they are not heard, and no event of the old address after the
    block of the replacement is left unprocessed in the table. -/
structure Silenced (abi : Abi) (chain : List Log) (currentBlock : ℤ)
    (batch : List BlockchainEvent) (s : Monitor) : Prop extends
    Hushed abi chain currentBlock batch s where
  stored : ∀ r ∈ s.replaced, ∀ row ∈ s.tables.rows, row.processed = false →
    SameAddress row.event.contractAddress r.old → row.event.blockNumber ≤ r.event.blockNumber

/-- A replacement that goes through: what comes later from the old address stands in the list under
    the text in the contract map; no row of another address is removed; neither address was replaced
    before; the new one has no log in the block of the event, and the later ones are all fetched; no
    call throws; and the new events are merged in time. -/
structure Replacement.Clear (abi : Abi) (chain : List Log) (currentBlock : ℤ) (s : Monitor)
    (env : HandlerEnv) (r : Replacement) : Prop where
  spelled : ∀ x ∈ s.loop.pending ++ s.loop.newDependentEvents,
    SameAddress x.contractAddress r.old → r.event.blockNumber < x.blockNumber →
      x.contractAddress = r.old
  own : ∀ row ∈ s.tables.rows, row.processed = false → removesRow r.contract
    r.event.contractAddress r.event.blockNumber r.event.transactionIndex row.event = true →
      SameAddress row.event.contractAddress r.old
  fresh : ¬ SameAddress r.new r.old ∧ ∀ r' ∈ s.replaced, ¬ SameAddress r.new r'.old
  first : ∀ r' ∈ s.replaced, ¬ SameAddress r.old r'.old
  later : ∀ log ∈ chain, r.Monitors abi log → log.blockNumber ≠ r.event.blockNumber
  intact : (r.fetch currentBlock s.tables.contracts env).Intact abi chain
  synced : (r.fetch currentBlock s.tables.contracts env).eventsMissed = false
  calm : (∀ i, env.initializeThrows i = false) ∧ env.stop = none
  timely : (s.loop.handle r.event
    (processEvent abi chain currentBlock env s.tables r.event).2).Timely

namespace Monitor

variable (abi : Abi) (chain : List Log) (currentBlock : ℤ)

/-- An iteration in which every replacement that is asked for goes through. -/
def ClearStep (s s' : Monitor) : Prop :=
  ∃ env, s.next abi chain currentBlock env = some s' ∧
    ∀ event, s.loop.dependentEvents[s.loop.index]? = some event →
      event.contractAddress ∉ s.loop.invalidatedContracts →
        ∀ r ∈ s.asked event, r.Clear abi chain currentBlock s env

end Monitor

/-! ### Addresses -/

/-- Lower case stays as it is. -/
theorem toLowerCase_idem (a : Address) : toLowerCase (toLowerCase a) = toLowerCase a := by
  unfold toLowerCase
  rw [List.map_map]
  refine List.map_congr_left ?_
  intro c _
  rw [Function.comp_apply]
  by_cases hupper : 65 ≤ c.toNat ∧ c.toNat ≤ 90
  · have hadd : (c + 32).toNat = c.toNat + 32 := by
      have hthirtyTwo : (32 : UInt16).toNat = 32 := rfl
      have hlt : c.toNat + 32 < 2 ^ 16 := by omega
      rw [UInt16.toNat_add, hthirtyTwo]
      exact Nat.mod_eq_of_lt hlt
    rw [if_pos hupper, if_neg (by omega)]
  · rw [if_neg hupper, if_neg hupper]

section Discovered

variable {abi : Abi} {chain : List Log} {currentBlock : ℤ} {r : Replacement}
  {contracts : Contracts} {env : HandlerEnv}

/-- The contract a replacement asks for is the only one that is queried. -/
theorem queried_fetch {c : MonitoredContract} {a : Address}
    (h : (c, a) ∈ (r.fetch currentBlock contracts env).queried abi) : a = r.new := by
  obtain ⟨hc, -, ha⟩ := Fetch.mem_queried.1 h
  obtain rfl : c = r.contract := List.mem_singleton.1 hc
  have hnew : (r.fetch currentBlock contracts env).contracts r.contract = some r.new :=
    Function.update_self ..
  exact Option.some.inj (ha.symm.trans hnew)

/-- A discovered event comes from the new address, in a later block. -/
theorem discovered_spec {x : BlockchainEvent}
    (h : x ∈ (r.fetch currentBlock contracts env).getPastEvents abi chain) :
    SameAddress x.contractAddress r.new ∧ r.event.blockNumber < x.blockNumber := by
  obtain ⟨log, -, c, parsed, hfound, -, rfl, hblock, -⟩ := Fetch.mem_getPastEvents h
  obtain ⟨p, hp, -⟩ := Option.map_eq_some_iff.1 hfound
  have haddress : toLowerCase p.2 = log.address := by simpa using List.find?_some hp
  have hnew : p.2 = r.new := queried_fetch (List.mem_reverse.1 (List.mem_of_find?_eq_some hp))
  have hlower : toLowerCase log.address = toLowerCase r.new := by
    rw [← haddress, toLowerCase_idem, hnew]
  exact ⟨hlower, Int.ofNat_lt.1 hblock⟩

/-- A monitored log of the new address is monitored in its fetch. -/
theorem monitors_fetch {log : Log} (h : r.Monitors abi log) :
    (r.fetch currentBlock contracts env).Monitors abi log := by
  obtain ⟨haddress, f, hf, hmonitored, htopic⟩ := h
  refine ⟨r.contract, List.mem_singleton_self _, r.new, Function.update_self .., haddress, ?_⟩
  exact List.mem_map.2 ⟨f, List.mem_filter.2 ⟨hf, decide_eq_true hmonitored⟩, htopic⟩

/-- The handler gets a later log of the new address that its fetch reads. -/
theorem getPastEvents_fetch {log : Log}
    (hread : (r.fetch currentBlock contracts env).Reads abi chain log)
    (hsynced : (r.fetch currentBlock contracts env).eventsMissed = false) (hlog : log ∈ chain)
    (hmonitors : r.Monitors abi log) (hlater : r.event.blockNumber < log.blockNumber)
    (hto : (log.blockNumber : ℤ) ≤ currentBlock) :
    ∃ x ∈ (r.fetch currentBlock contracts env).getPastEvents abi chain, x.IsOf log := by
  have hcovers : (r.fetch currentBlock contracts env).Covers log.blockNumber :=
    ⟨Int.ofNat_lt.2 hlater, hto⟩
  obtain ⟨c, parsed, hmem⟩ :=
    Fetch.getPastEvents_hands hread hsynced hlog (monitors_fetch hmonitors) hcovers
  exact ⟨_, hmem, rfl, rfl, rfl, rfl⟩

end Discovered

/-! ### What an iteration does -/

section Iteration

variable {abi : Abi} {chain : List Log} {currentBlock : ℤ} {env : HandlerEnv} {s : Monitor}

/-- A handler that is not asked for a replacement does nothing. -/
theorem processEvent_of_not_asked {event : BlockchainEvent} (h : s.asked event = none) :
    processEvent abi chain currentBlock env s.tables event = (s.tables, {}) := by
  have hreplace (hchange : event.event.isChange = true) (kind : Initialization) :
      replaceContract abi chain currentBlock kind env s.tables event = (s.tables, {}) := by
    have hnone : replacement s.tables.contracts event = none := by
      rwa [Monitor.asked, if_pos hchange] at h
    rw [replaceContract, hnone]
    split_ifs <;> rfl
  unfold processEvent
  cases hevent : event.event with
  | newContract => exact hreplace (by rw [hevent]; rfl) _
  | contractChanged => exact hreplace (by rw [hevent]; rfl) _
  | newAssetStorage => exact hreplace (by rw [hevent]; rfl) _
  | assetStorageChanged => exact hreplace (by rw [hevent]; rfl) _
  | parameterChanged => rfl
  | knowledgeCollectionCreated => rfl

/-- A replacement is asked for by its event. -/
theorem event_of_replacement {contracts : Contracts} {event : BlockchainEvent} {r : Replacement}
    (h : replacement contracts event = some r) : r.event = event := by
  unfold replacement at h
  split at h
  · cases h
  · split at h
    · cases h
    · split_ifs at h
      rw [← Option.some.inj h]

theorem event_of_asked {event : BlockchainEvent} {r : Replacement} (h : s.asked event = some r) :
    r.event = event := by
  unfold Monitor.asked at h
  split_ifs at h
  exact event_of_replacement h

/-- A handler that is asked for a replacement, and in which no call throws, removes the rows, and
    inserts the events of the new address, which it leaves to the loop. -/
theorem processEvent_of_asked {event : BlockchainEvent} {r : Replacement}
    (h : s.asked event = some r) (hcalm : (∀ i, env.initializeThrows i = false) ∧ env.stop = none) :
    processEvent abi chain currentBlock env s.tables event =
      (⟨Function.update s.tables.contracts r.contract (some r.new),
        insertBlockchainEvents
          (s.tables.rows.filter fun row => !removesRow r.contract r.event.contractAddress
            r.event.blockNumber r.event.transactionIndex row.event)
          ((r.fetch currentBlock s.tables.contracts env).getPastEvents abi chain)⟩,
        ⟨[r.old], (r.fetch currentBlock s.tables.contracts env).getPastEvents abi chain⟩) := by
  obtain rfl := event_of_asked h
  have hchange : r.event.event.isChange = true := by
    by_contra hno
    rw [Monitor.asked, if_neg hno] at h
    cases h
  have hsome : replacement s.tables.contracts r.event = some r := by
    rwa [Monitor.asked, if_pos hchange] at h
  unfold processEvent
  cases hevent : r.event.event with
  | newContract =>
    simp [handleNewContractEvent, replaceContract, hsome, hcalm]
  | contractChanged =>
    simp [handleContractChangedEvent, replaceContract, hsome, hcalm]
  | newAssetStorage =>
    simp [handleNewAssetStorageEvent, replaceContract, hsome, hcalm]
  | assetStorageChanged =>
    simp [handleAssetStorageChangedEvent, replaceContract, hsome, hcalm]
  | parameterChanged =>
    rw [hevent] at hchange
    cases hchange
  | knowledgeCollectionCreated =>
    rw [hevent] at hchange
    cases hchange

/-- STEP: an iteration skips the event it takes, or calls its handler. -/
theorem Monitor.next_cases {s' : Monitor} (h : s.next abi chain currentBlock env = some s') :
    ∃ event, s.loop.dependentEvents[s.loop.index]? = some event ∧
      (event.contractAddress ∈ s.loop.invalidatedContracts ∧
          s' = { s with loop := s.loop.skip event } ∨
        event.contractAddress ∉ s.loop.invalidatedContracts ∧
          s' =
            { tables := (processEvent abi chain currentBlock env s.tables event).1
              loop := s.loop.handle event (processEvent abi chain currentBlock env s.tables event).2
              replaced := s.replaced ++ (s.asked event).toList
              unreached := s.unreached ++
                (s.asked event).toList.flatMap fun r => r.unreached s.tables.rows }) := by
  unfold Monitor.next at h
  split at h
  · cases h
  · rename_i event hevent
    refine ⟨event, hevent, ?_⟩
    split_ifs at h with hinvalid
    · exact .inl ⟨hinvalid, (Option.some.inj h).symm⟩
    · exact .inr ⟨hinvalid, (Option.some.inj h).symm⟩

/-- STEP: an event that is not skipped. -/
theorem Monitor.next_of_valid {e : BlockchainEvent}
    (hevent : s.loop.dependentEvents[s.loop.index]? = some e)
    (hvalid : e.contractAddress ∉ s.loop.invalidatedContracts) :
    s.next abi chain currentBlock env = some
      { tables := (processEvent abi chain currentBlock env s.tables e).1
        loop := s.loop.handle e (processEvent abi chain currentBlock env s.tables e).2
        replaced := s.replaced ++ (s.asked e).toList
        unreached := s.unreached ++
          (s.asked e).toList.flatMap fun r => r.unreached s.tables.rows } := by
  unfold next
  rw [hevent]
  simp only [if_neg hvalid]

/-- STEP: an event whose handler is not asked for a replacement. -/
theorem Monitor.next_of_not_asked {e : BlockchainEvent}
    (hevent : s.loop.dependentEvents[s.loop.index]? = some e)
    (hvalid : e.contractAddress ∉ s.loop.invalidatedContracts) (hasked : s.asked e = none) :
    s.next abi chain currentBlock env = some { s with loop := s.loop.handle e {} } := by
  rw [next_of_valid hevent hvalid, processEvent_of_not_asked hasked, hasked]
  simp

/-- No replacement is asked for, so none fails to go through. -/
theorem Monitor.clearStep_of_not_asked {e : BlockchainEvent}
    (hevent : s.loop.dependentEvents[s.loop.index]? = some e)
    (hvalid : e.contractAddress ∉ s.loop.invalidatedContracts) (hasked : s.asked e = none)
    (env : HandlerEnv) :
    s.ClearStep abi chain currentBlock { s with loop := s.loop.handle e {} } := by
  refine ⟨env, next_of_not_asked hevent hvalid hasked, fun event hget _ r hr => ?_⟩
  obtain rfl := Option.some.inj (hevent.symm.trans hget)
  rw [hasked] at hr
  cases hr

/-- Nor when an event is skipped. -/
theorem Monitor.clearStep_of_skipped {e : BlockchainEvent}
    (hevent : s.loop.dependentEvents[s.loop.index]? = some e)
    (hinvalid : e.contractAddress ∈ s.loop.invalidatedContracts) (env : HandlerEnv) :
    s.ClearStep abi chain currentBlock { s with loop := s.loop.skip e } := by
  refine ⟨env, ?_, fun event hget hvalid => ?_⟩
  · unfold next
    rw [hevent]
    simp only [if_pos hinvalid]
  · obtain rfl := Option.some.inj (hevent.symm.trans hget)
    exact absurd hinvalid hvalid

end Iteration

/-! ### The invariant of a run -/

/-- What holds between the iterations of a run in which every replacement goes through. -/
structure Monitor.Inv (abi : Abi) (chain : List Log) (currentBlock : ℤ)
    (batch : List BlockchainEvent) (s : Monitor) : Prop where
  track : DependentLoop.OnTrack batch s.loop
  cause : ∀ a ∈ s.loop.invalidatedContracts, ∃ r ∈ s.replaced, r.old = a
  invalid : ∀ r ∈ s.replaced, r.old ∈ s.loop.invalidatedContracts
  turned : ∀ r ∈ s.replaced, r.event ∈ s.loop.turns.map DependentTurn.event
  spelled : ∀ r ∈ s.replaced, ∀ x ∈ s.loop.pending ++ s.loop.newDependentEvents,
    SameAddress x.contractAddress r.old → r.event.blockNumber < x.blockNumber →
      x.contractAddress = r.old
  stored : s.unreached = [] → ∀ r ∈ s.replaced, ∀ row ∈ s.tables.rows, row.processed = false →
    SameAddress row.event.contractAddress r.old → row.event.blockNumber ≤ r.event.blockNumber
  left : ∀ row ∈ s.unreached, row ∈ s.tables.rows ∧ row.processed = false ∧ ∃ r ∈ s.replaced,
    SameAddress row.event.contractAddress r.old ∧ r.event.blockNumber < row.event.blockNumber
  invoked : ∀ r ∈ s.replaced, ∀ x ∈ s.loop.handledEvents, SameAddress x.contractAddress r.old →
    x.blockNumber ≤ r.event.blockNumber
  skipped : ∀ t ∈ s.loop.turns, ∀ a ∈ t.invalidatedContracts,
    ∃ r ∈ s.replaced, r.old = a ∧ r.event.place ≤ t.event.place
  kept : ∀ x ∈ batch, (∀ r ∈ s.replaced, ¬ SameAddress x.contractAddress r.old) →
    ⟨x, false⟩ ∈ s.tables.rows
  new : ∀ r ∈ s.replaced, ∀ log ∈ chain, r.Monitors abi log →
    r.event.blockNumber ≤ log.blockNumber → (log.blockNumber : ℤ) ≤ currentBlock →
      ∃ x, x.IsOf log ∧ x ∈ s.loop.discovered ∧ (⟨x, false⟩ ∈ s.tables.rows ∨
        ∃ r' ∈ s.replaced, SameAddress r'.old x.contractAddress ∧ r'.event.place < x.place)

namespace Monitor

section Invariant

variable {abi : Abi} {chain : List Log} {currentBlock : ℤ} {batch : List BlockchainEvent}
  {s : Monitor} {event : BlockchainEvent} {rest : List BlockchainEvent}

theorem inv_start (w : MonitorTables) :
    Inv abi chain currentBlock (getAllUnprocessedBlockchainEvents w.rows) (start w) where
  track := DependentLoop.onTrack_start
  cause := nofun
  invalid := nofun
  turned := nofun
  spelled := nofun
  stored := nofun
  left := nofun
  invoked := nofun
  skipped := nofun
  kept := by
    intro x hx _
    obtain ⟨row, hrow, rfl⟩ := List.mem_map.1 hx
    obtain ⟨hrow, hprocessed⟩ := List.mem_filter.1 hrow
    have heq : (⟨row.event, false⟩ : EventRow) = row := by
      cases row
      simp_all
    exact heq ▸ hrow
  new := nofun

/-- An event that is handled comes after the events that replaced an address. -/
theorem place_replaced (h : Inv abi chain currentBlock batch s)
    (hpending : s.loop.pending = event :: rest) {r : Replacement} (hr : r ∈ s.replaced) :
    r.event.place ≤ event.place := by
  have hordered := h.track.ordered
  rw [hpending] at hordered
  exact le_iff.1 ((List.pairwise_append.1 hordered).2.2 r.event (h.turned r hr) event
    List.mem_cons_self)

/-- An event that is handled does not come from an address replaced in an earlier block. -/
theorem block_le_of_valid (h : Inv abi chain currentBlock batch s)
    (hpending : s.loop.pending = event :: rest)
    (hvalid : event.contractAddress ∉ s.loop.invalidatedContracts) {r : Replacement}
    (hr : r ∈ s.replaced) (hsame : SameAddress event.contractAddress r.old) :
    event.blockNumber ≤ r.event.blockNumber := by
  by_contra hlater
  have hmem : event ∈ s.loop.pending ++ s.loop.newDependentEvents := by
    rw [hpending]
    exact List.mem_append_left _ List.mem_cons_self
  refine hvalid ?_
  rw [h.spelled r hr event hmem hsame (not_le.1 hlater)]
  exact h.invalid r hr

theorem handledEvents_handle (event : BlockchainEvent) (effect : HandlerEffect) :
    (s.loop.handle event effect).handledEvents = s.loop.handledEvents ++ [event] := by
  simp [DependentLoop.handledEvents, DependentLoop.handle]

/-- What is left after an event was handled was left before, or is new. -/
theorem mem_left_handle (hpending : s.loop.pending = event :: rest)
    (hsorted : s.loop.pending.Pairwise Le) (effect : HandlerEffect) {x : BlockchainEvent}
    (hx : x ∈ (s.loop.handle event effect).pending ++
      (s.loop.handle event effect).newDependentEvents) :
    x ∈ s.loop.pending ++ s.loop.newDependentEvents ∨ x ∈ effect.discovered := by
  rcases List.mem_append.1 hx with hx | hx
  · obtain ⟨head, tail, htail, hperm, -⟩ :=
      DependentLoop.pending_handle effect hpending hsorted
    rw [htail] at hx
    have hmem := hperm.mem_iff.1 (List.mem_cons_of_mem head hx)
    rw [← hpending] at hmem
    exact .inl hmem
  · rw [DependentLoop.newDependentEvents_handle] at hx
    exact .inr hx

/-- STEP: an event that is skipped. -/
theorem inv_skip (h : Inv abi chain currentBlock batch s)
    (hevent : s.loop.dependentEvents[s.loop.index]? = some event)
    (hpending : s.loop.pending = event :: rest)
    (hinvalid : event.contractAddress ∈ s.loop.invalidatedContracts) :
    Inv abi chain currentBlock batch { s with loop := s.loop.skip event } where
  track := by
    have hnext : s.loop.next [] = some (s.loop.skip event, []) := by
      simp [DependentLoop.next, hevent, hinvalid]
    exact DependentLoop.onTrack_next h.track hnext
      (DependentLoop.timely_skip h.track.timely hpending hinvalid)
  cause := h.cause
  invalid := h.invalid
  turned := fun r hr => by
    rw [DependentLoop.skip, List.map_append]
    exact List.mem_append_left _ (h.turned r hr)
  spelled := fun r hr x hx => by
    refine h.spelled r hr x ?_
    rw [DependentLoop.pending_skip hpending] at hx
    rw [hpending]
    exact List.mem_cons_of_mem event hx
  stored := h.stored
  left := h.left
  invoked := fun r hr x hx => by
    refine h.invoked r hr x ?_
    simpa [DependentLoop.handledEvents, DependentLoop.skip] using hx
  skipped := by
    intro t ht a ha
    rcases List.mem_append.1 ht with ht | ht
    · exact h.skipped t ht a ha
    · obtain rfl := List.mem_singleton.1 ht
      obtain ⟨r, hr, hold⟩ := h.cause a ha
      exact ⟨r, hr, hold, place_replaced h hpending hr⟩
  kept := h.kept
  new := h.new

/-- STEP: an event whose handler is not asked for a replacement. -/
theorem inv_handle (h : Inv abi chain currentBlock batch s)
    (hevent : s.loop.dependentEvents[s.loop.index]? = some event)
    (hpending : s.loop.pending = event :: rest)
    (hvalid : event.contractAddress ∉ s.loop.invalidatedContracts) :
    Inv abi chain currentBlock batch { s with loop := s.loop.handle event {} } where
  track := by
    have hnext : s.loop.next [] = some (s.loop.handle event {}, []) := by
      simp [DependentLoop.next, hevent, hvalid]
    refine DependentLoop.onTrack_next h.track hnext fun hne => absurd ?_ hne
    exact DependentLoop.newDependentEvents_handle
  cause := fun a ha => h.cause a (by simpa [DependentLoop.handle] using ha)
  invalid := fun r hr => List.mem_append_left _ (h.invalid r hr)
  turned := fun r hr => by
    rw [DependentLoop.handle, List.map_append]
    exact List.mem_append_left _ (h.turned r hr)
  spelled := fun r hr x hx => h.spelled r hr x
    ((mem_left_handle hpending h.track.balance.sorted {} hx).resolve_right List.not_mem_nil)
  stored := h.stored
  left := h.left
  invoked := by
    intro r hr x hx hsame
    rw [handledEvents_handle] at hx
    rcases List.mem_append.1 hx with hx | hx
    · exact h.invoked r hr x hx hsame
    · obtain rfl := List.mem_singleton.1 hx
      exact block_le_of_valid h hpending hvalid hr hsame
  skipped := by
    intro t ht a ha
    rcases List.mem_append.1 ht with ht | ht
    · exact h.skipped t ht a ha
    · obtain rfl := List.mem_singleton.1 ht
      obtain ⟨r, hr, hold⟩ := h.cause a ha
      exact ⟨r, hr, hold, place_replaced h hpending hr⟩
  kept := h.kept
  new := by
    intro r hr log hlog hmonitors hfrom hto
    obtain ⟨x, hof, hdiscovered, hrest⟩ := h.new r hr log hlog hmonitors hfrom hto
    exact ⟨x, hof, List.mem_append_left _ hdiscovered, hrest⟩

/-- A row after the replacement: one that is not removed, or an unprocessed one of a new event. -/
theorem mem_replaced_rows {r : Replacement} {rows : List EventRow} {es : List BlockchainEvent}
    {row : EventRow} :
    row ∈ insertBlockchainEvents (rows.filter fun row => !removesRow r.contract
        r.event.contractAddress r.event.blockNumber r.event.transactionIndex row.event) es ↔
      row ∈ rows ∧ removesRow r.contract r.event.contractAddress r.event.blockNumber
          r.event.transactionIndex row.event = false ∨
        ∃ e ∈ es, row = ⟨e, false⟩ := by
  simp only [insertBlockchainEvents, List.mem_append, List.mem_filter, List.mem_map,
    Bool.not_eq_true']
  refine or_congr_right ⟨?_, ?_⟩
  · rintro ⟨e, he, heq⟩
    exact ⟨e, he, heq.symm⟩
  · rintro ⟨e, he, heq⟩
    exact ⟨e, he, heq.symm⟩

/-- The rows that a replacement does not reach. -/
theorem mem_unreached {r : Replacement} {rows : List EventRow} {row : EventRow} :
    row ∈ r.unreached rows ↔ row ∈ rows ∧ row.processed = false ∧
      SameAddress row.event.contractAddress r.old ∧
      r.event.blockNumber < row.event.blockNumber ∧
      removesRow r.contract r.event.contractAddress r.event.blockNumber r.event.transactionIndex
        row.event = false := by
  simp only [Replacement.unreached, List.mem_filter, Bool.and_eq_true, Bool.not_eq_true',
    decide_eq_true_eq, and_assoc]

/-- A row that is removed comes after the event. -/
theorem place_lt_of_removesRow {r : Replacement} {x : BlockchainEvent}
    (h : removesRow r.contract r.event.contractAddress r.event.blockNumber
      r.event.transactionIndex x = true) : r.event.place < x.place := by
  simp only [removesRow, Bool.and_eq_true, Bool.or_eq_true, decide_eq_true_eq] at h
  rw [place, place, Prod.Lex.toLex_lt_toLex, Prod.Lex.toLex_lt_toLex]
  omega

/-- What was handled does not come after an event that is left. -/
theorem handled_place_le (h : Inv abi chain currentBlock batch s)
    (hpending : s.loop.pending = event :: rest) {x : BlockchainEvent}
    (hx : x ∈ s.loop.handledEvents) : x.place ≤ event.place := by
  have hturn : x ∈ s.loop.turns.map DependentTurn.event :=
    (List.filter_sublist.map _).subset hx
  have hordered := h.track.ordered
  rw [hpending] at hordered
  exact le_iff.1 ((List.pairwise_append.1 hordered).2.2 x hturn event List.mem_cons_self)

theorem block_le_of_place_le {x y : BlockchainEvent} (h : x.place ≤ y.place) :
    x.blockNumber ≤ y.blockNumber := by
  rw [place, place, Prod.Lex.toLex_le_toLex] at h
  omega

section Rows

variable {env : HandlerEnv} {r : Replacement} {es : List BlockchainEvent}

/-- STEP (rows): a row that is removed is of the old address. -/
theorem stays_replaced (hclear : r.Clear abi chain currentBlock s env) {x : BlockchainEvent}
    (hrow : ⟨x, false⟩ ∈ s.tables.rows) (hother : ¬ SameAddress x.contractAddress r.old) :
    ⟨x, false⟩ ∈ insertBlockchainEvents (s.tables.rows.filter fun row => !removesRow r.contract
      r.event.contractAddress r.event.blockNumber r.event.transactionIndex row.event) es := by
  refine mem_replaced_rows.2 (.inl ⟨hrow, ?_⟩)
  by_contra hremoved
  exact hother (hclear.own _ hrow rfl (by simpa using hremoved))

/-- STEP (rows): as long as all rows are reached, none of an old address is left. -/
theorem stored_replaced (h : Inv abi chain currentBlock batch s)
    (hfresh : ∀ x ∈ es, ∀ r' ∈ s.replaced ++ [r], ¬ SameAddress x.contractAddress r'.old)
    (hreached : s.unreached ++ r.unreached s.tables.rows = []) :
    ∀ r' ∈ s.replaced ++ [r], ∀ row ∈ insertBlockchainEvents (s.tables.rows.filter fun row =>
        !removesRow r.contract r.event.contractAddress r.event.blockNumber
          r.event.transactionIndex row.event) es,
      row.processed = false → SameAddress row.event.contractAddress r'.old →
        row.event.blockNumber ≤ r'.event.blockNumber := by
  intro r' hr' row hrow hprocessed hsame
  obtain ⟨hearlier, hnow⟩ := List.append_eq_nil_iff.1 hreached
  rcases mem_replaced_rows.1 hrow with ⟨hrow, hkept⟩ | ⟨x, hx, rfl⟩
  · rcases List.mem_append.1 hr' with hr' | hr'
    · exact h.stored hearlier r' hr' row hrow hprocessed hsame
    · rw [List.mem_singleton.1 hr'] at hsame ⊢
      by_contra hlater
      have hmem : row ∈ r.unreached s.tables.rows :=
        mem_unreached.2 ⟨hrow, hprocessed, hsame, not_le.1 hlater, hkept⟩
      rw [hnow] at hmem
      cases hmem
  · exact absurd hsame (hfresh x hx r' hr')

/-- STEP (rows): what is not reached stays. -/
theorem left_replaced (h : Inv abi chain currentBlock batch s)
    (hclear : r.Clear abi chain currentBlock s env) {row : EventRow}
    (hrow : row ∈ s.unreached ++ r.unreached s.tables.rows) :
    row ∈ insertBlockchainEvents (s.tables.rows.filter fun row => !removesRow r.contract
        r.event.contractAddress r.event.blockNumber r.event.transactionIndex row.event) es ∧
      row.processed = false ∧ ∃ r' ∈ s.replaced ++ [r],
        SameAddress row.event.contractAddress r'.old ∧
          r'.event.blockNumber < row.event.blockNumber := by
  rcases List.mem_append.1 hrow with hrow | hrow
  · obtain ⟨hmem, hprocessed, r', hr', hsame, hlater⟩ := h.left row hrow
    refine ⟨mem_replaced_rows.2 (.inl ⟨hmem, ?_⟩), hprocessed, r', List.mem_append_left _ hr',
      hsame, hlater⟩
    by_contra hremoved
    have hold := hclear.own row hmem hprocessed (by simpa using hremoved)
    exact hclear.first r' hr' (hold.symm.trans hsame)
  · obtain ⟨hmem, hprocessed, hsame, hlater, hkept⟩ := mem_unreached.1 hrow
    exact ⟨mem_replaced_rows.2 (.inl ⟨hmem, hkept⟩), hprocessed, r,
      List.mem_append_right _ (List.mem_singleton_self r), hsame, hlater⟩

end Rows

/-- STEP: a replacement that goes through. -/
theorem inv_replace {env : HandlerEnv} {r : Replacement}
    (h : Inv abi chain currentBlock batch s)
    (hevent : s.loop.dependentEvents[s.loop.index]? = some r.event)
    (hpending : s.loop.pending = r.event :: rest)
    (hvalid : r.event.contractAddress ∉ s.loop.invalidatedContracts)
    (hasked : s.asked r.event = some r) (hclear : r.Clear abi chain currentBlock s env) :
    Inv abi chain currentBlock batch
      { tables := (processEvent abi chain currentBlock env s.tables r.event).1
        loop := s.loop.handle r.event (processEvent abi chain currentBlock env s.tables r.event).2
        replaced := s.replaced ++ [r]
        unreached := s.unreached ++ r.unreached s.tables.rows } := by
  have htimely := hclear.timely
  have hnew : ∀ x ∈ (r.fetch currentBlock s.tables.contracts env).getPastEvents abi chain,
      SameAddress x.contractAddress r.new ∧ r.event.blockNumber < x.blockNumber := by
    intro x hx
    exact discovered_spec hx
  have hdiscovered : ∀ log ∈ chain, r.Monitors abi log → r.event.blockNumber < log.blockNumber →
      (log.blockNumber : ℤ) ≤ currentBlock →
        ∃ x ∈ (r.fetch currentBlock s.tables.contracts env).getPastEvents abi chain,
          x.IsOf log := by
    intro log hlog hmonitors hlater hto
    have hread := hclear.intact log hlog (monitors_fetch hmonitors) ⟨Int.ofNat_lt.2 hlater, hto⟩
    exact getPastEvents_fetch hread hclear.synced hlog hmonitors hlater hto
  rw [processEvent_of_asked hasked hclear.calm] at htimely ⊢
  generalize (r.fetch currentBlock s.tables.contracts env) = q at htimely hnew hdiscovered ⊢
  -- the new address is none that is replaced, now or before
  have hfresh : ∀ x ∈ q.getPastEvents abi chain, ∀ r' ∈ s.replaced ++ [r],
      ¬ SameAddress x.contractAddress r'.old := by
    intro x hx r' hr' hsame
    have hnew' : SameAddress r.new r'.old := (hnew x hx).1.symm.trans hsame
    rcases List.mem_append.1 hr' with hr' | hr'
    · exact hclear.fresh.2 r' hr' hnew'
    · rw [List.mem_singleton.1 hr'] at hnew'
      exact hclear.fresh.1 hnew'
  have hplace := fun r' hr' => place_replaced (r := r') h hpending hr'
  constructor
  case track =>
    have hnext : s.loop.next [⟨[r.old], q.getPastEvents abi chain⟩] =
        some (s.loop.handle r.event ⟨[r.old], q.getPastEvents abi chain⟩, []) := by
      simp [DependentLoop.next, hevent, hvalid]
    exact DependentLoop.onTrack_next h.track hnext htimely
  case cause =>
    intro a ha
    rcases List.mem_append.1 ha with ha | ha
    · obtain ⟨r', hr', hold⟩ := h.cause a ha
      exact ⟨r', List.mem_append_left _ hr', hold⟩
    · exact ⟨r, List.mem_append_right _ (List.mem_singleton_self r), (List.mem_singleton.1 ha).symm⟩
  case invalid =>
    intro r' hr'
    rcases List.mem_append.1 hr' with hr' | hr'
    · exact List.mem_append_left _ (h.invalid r' hr')
    · rw [List.mem_singleton.1 hr']
      exact List.mem_append_right _ (List.mem_singleton_self _)
  case turned =>
    intro r' hr'
    show r'.event ∈ (s.loop.turns ++ [_]).map DependentTurn.event
    rw [List.map_append]
    rcases List.mem_append.1 hr' with hr' | hr'
    · exact List.mem_append_left _ (h.turned r' hr')
    · rw [List.mem_singleton.1 hr']
      exact List.mem_append_right _ (List.mem_singleton_self _)
  case spelled =>
    intro r' hr' x hx hsame hlater
    rcases mem_left_handle hpending h.track.balance.sorted _ hx with hx | hx
    · rcases List.mem_append.1 hr' with hr' | hr'
      · exact h.spelled r' hr' x hx hsame hlater
      · rw [List.mem_singleton.1 hr'] at hsame hlater ⊢
        exact hclear.spelled x hx hsame hlater
    · exact absurd hsame (hfresh x hx r' hr')
  case stored => exact fun hreached => stored_replaced h hfresh hreached
  case left => exact fun row hrow => left_replaced h hclear hrow
  case invoked =>
    intro r' hr' x hx hsame
    rw [handledEvents_handle] at hx
    rcases List.mem_append.1 hr' with hr' | hr'
    · rcases List.mem_append.1 hx with hx | hx
      · exact h.invoked r' hr' x hx hsame
      · obtain rfl := List.mem_singleton.1 hx
        exact block_le_of_valid h hpending hvalid hr' hsame
    · rw [List.mem_singleton.1 hr'] at hsame ⊢
      rcases List.mem_append.1 hx with hx | hx
      · exact block_le_of_place_le (handled_place_le h hpending hx)
      · rw [List.mem_singleton.1 hx]
  case skipped =>
    intro t ht a ha
    rcases List.mem_append.1 ht with ht | ht
    · obtain ⟨r', hr', hold⟩ := h.skipped t ht a ha
      exact ⟨r', List.mem_append_left _ hr', hold⟩
    · obtain rfl := List.mem_singleton.1 ht
      obtain ⟨r', hr', hold⟩ := h.cause a ha
      exact ⟨r', List.mem_append_left _ hr', hold, hplace r' hr'⟩
  case kept =>
    intro x hx hunrelated
    have hrow := h.kept x hx fun r' hr' => hunrelated r' (List.mem_append_left _ hr')
    exact stays_replaced hclear hrow
      (hunrelated r (List.mem_append_right _ (List.mem_singleton_self r)))
  case new =>
    intro r' hr' log hlog hmonitors hfrom hto
    rcases List.mem_append.1 hr' with hr' | hr'
    · obtain ⟨x, hof, hdiscovered, hrest⟩ := h.new r' hr' log hlog hmonitors hfrom hto
      refine ⟨x, hof, List.mem_append_left _ hdiscovered, ?_⟩
      rcases hrest with hrow | ⟨r'', hr'', hsame, hlt⟩
      · by_cases hremoved : removesRow r.contract r.event.contractAddress r.event.blockNumber
          r.event.transactionIndex x = true
        · exact .inr ⟨r, List.mem_append_right _ (List.mem_singleton_self r),
            (hclear.own _ hrow rfl hremoved).symm, place_lt_of_removesRow hremoved⟩
        · exact .inl (mem_replaced_rows.2 (.inl ⟨hrow, by simpa using hremoved⟩))
      · exact .inr ⟨r'', List.mem_append_left _ hr'', hsame, hlt⟩
    · obtain rfl := List.mem_singleton.1 hr'
      have hne := hclear.later log hlog hmonitors
      obtain ⟨x, hmem, hof⟩ := hdiscovered log hlog hmonitors (by omega) hto
      exact ⟨x, hof, List.mem_append_right _ hmem, .inl (mem_replaced_rows.2 (.inr ⟨x, hmem, rfl⟩))⟩

/-- STEP: an iteration keeps the invariant, if a replacement that it is asked for goes through. -/
theorem inv_step {s' : Monitor} (h : Inv abi chain currentBlock batch s)
    (hstep : ClearStep abi chain currentBlock s s') : Inv abi chain currentBlock batch s' := by
  obtain ⟨env, hnext, hclear⟩ := hstep
  obtain ⟨event, hevent, hcases⟩ := next_cases hnext
  obtain ⟨hlt, hget⟩ := List.getElem?_eq_some_iff.1 hevent
  have hpending : s.loop.pending = event :: s.loop.dependentEvents.drop (s.loop.index + 1) := by
    rw [← hget]
    exact List.drop_eq_getElem_cons hlt
  rcases hcases with ⟨hinvalid, rfl⟩ | ⟨hvalid, rfl⟩
  · exact inv_skip h hevent hpending hinvalid
  · rcases hasked : s.asked event with - | r
    · rw [processEvent_of_not_asked hasked]
      simpa using inv_handle h hevent hpending hvalid
    · obtain rfl := event_of_asked hasked
      simpa using inv_replace h hevent hpending hvalid hasked (hclear _ hevent hvalid r hasked)

/-- RUN: so does a run. -/
theorem inv_run {w : MonitorTables}
    (h : Relation.ReflTransGen (ClearStep abi chain currentBlock) (start w) s) :
    Inv abi chain currentBlock (getAllUnprocessedBlockchainEvents w.rows) s := by
  induction h with
  | refl => exact inv_start w
  | tail _ hstep ih => exact inv_step ih hstep

/-- An event with a turn was handled, unless its address was replaced before it. -/
theorem handled_of_turned (h : Inv abi chain currentBlock batch s) {x : BlockchainEvent}
    (hx : x ∈ s.loop.turns.map DependentTurn.event)
    (hlater : ∀ r ∈ s.replaced, r.old = x.contractAddress → x.place < r.event.place) :
    x ∈ s.loop.handledEvents := by
  obtain ⟨t, ht, rfl⟩ := List.mem_map.1 hx
  have hhandled : t.handled = true := by
    rw [h.track.valid t ht]
    intro hinvalid
    obtain ⟨r, hr, hold, hle⟩ := h.skipped t ht _ hinvalid
    exact absurd (hlater r hr hold) (not_lt.2 hle)
  exact List.mem_map_of_mem (List.mem_filter.2 ⟨ht, hhandled⟩)

/-- At the end of a run the replaced contracts are not heard. -/
theorem hushed_of_inv (h : Inv abi chain currentBlock batch s) (hend : s.loop.pending = []) :
    Hushed abi chain currentBlock batch s := by
  have honce := DependentLoop.inOrderOnce_of_onTrack h.track hend
  refine ⟨honce, h.invoked, fun r hr log hlog hmonitors hfrom hto => ?_,
    fun x hx hunrelated => ⟨h.kept x hx hunrelated, ?_⟩⟩
  · obtain ⟨x, hof, hdiscovered, hrest⟩ := h.new r hr log hlog hmonitors hfrom hto
    refine ⟨x, hof, ?_⟩
    intro hlater
    have hsame : SameAddress r.new x.contractAddress := by
      rw [hof.1]
      exact hmonitors.1
    refine ⟨hrest.resolve_right ?_, handled_of_turned h ?_ fun r' hr' hold => hlater r' hr' ?_⟩
    · rintro ⟨r', hr', hsame', hlt⟩
      exact absurd (hlater r' hr' (hsame'.trans hsame.symm)) (not_lt.2 hlt.le)
    · exact honce.once.mem_iff.2 (List.mem_append_right _ hdiscovered)
    · rw [hold]
      exact hsame.symm
  · refine handled_of_turned h (honce.once.mem_iff.2 (List.mem_append_left _ hx)) ?_
    intro r hr hold
    refine absurd ?_ (hunrelated r hr)
    rw [hold]
    exact rfl

end Invariant

end Monitor

/-- CORRECT (replaced contracts): at the end of a run in which every replacement that is asked for
    goes through, the replaced contracts are not heard, and the others are not affected. The
    replaced ones are silenced if and only if the handlers reached all later rows of the old
    addresses. -/
theorem silenced_iff_reached {abi : Abi} {chain : List Log} {currentBlock : ℤ} {w : MonitorTables}
    {s : Monitor}
    (hrun : Relation.ReflTransGen (Monitor.ClearStep abi chain currentBlock) (Monitor.start w) s)
    (hend : s.loop.pending = []) :
    Hushed abi chain currentBlock (getAllUnprocessedBlockchainEvents w.rows) s ∧
      (Silenced abi chain currentBlock (getAllUnprocessedBlockchainEvents w.rows) s ↔
        s.unreached = []) := by
  have hinv := Monitor.inv_run hrun
  have hhushed := Monitor.hushed_of_inv hinv hend
  refine ⟨hhushed, fun hsilenced => ?_, fun hreached => ⟨hhushed, hinv.stored hreached⟩⟩
  by_contra hne
  obtain ⟨row, hrow⟩ := List.exists_mem_of_ne_nil _ hne
  obtain ⟨hmem, hprocessed, r, hr, hsame, hlater⟩ := hinv.left row hrow
  exact absurd (hsilenced.stored r hr row hmem hprocessed hsame) (not_le.2 hlater)

/-- The changes of the hub, and the events of `KnowledgeCollectionStorage`, told apart by topics. -/
def topicAbi : Abi where
  filters c :=
    match c with
    | .hub => [(.contractChanged, units "t")]
    | .parametersStorage => []
    | .knowledgeCollectionStorage => [(.knowledgeCollectionCreated, units "k")]
  parseLog _ log :=
    if log.topic = units "t" then some (.contractChanged, log.payload)
    else some (.knowledgeCollectionCreated, log.payload)

/-- The data of a change. -/
def changeData (contractName newContractAddress : String) : JsString :=
  stringify (.obj [(units "contractName", .str (units contractName)),
    (units "newContractAddress", .str (units newContractAddress))])

/-- A change that the hub reports. -/
def changeEvent (address : String) (data : JsString) (blockNumber : ℕ) : BlockchainEvent :=
  { eventInBlock .hub .contractChanged blockNumber with
    contractAddress := units address
    data := data }

/-- An event of `KnowledgeCollectionStorage`. -/
def storageEvent (blockNumber : ℕ) : BlockchainEvent :=
  { eventInBlock .knowledgeCollectionStorage .knowledgeCollectionCreated blockNumber with
    contractAddress := units "0xa" }

def monitoredTables (events : List BlockchainEvent) : MonitorTables where
  contracts c :=
    match c with
    | .hub => some (units "0xc")
    | .parametersStorage => none
    | .knowledgeCollectionStorage => some (units "0xA")
  rows := events.map fun e => ⟨e, false⟩

def calmEnv : HandlerEnv where
  initializeThrows _ := false
  stop := none
  maxBlocksToSync := none
  fails _ := false

/-- The hub is replaced by `0xd` in block 10, which reports a change in block 15. The old hub goes
    on to report changes in blocks 20 and 25. -/
def movingEvents : List BlockchainEvent :=
  [changeEvent "0xc" (changeData "Hub" "0xd") 10, storageEvent 12,
    changeEvent "0xc" (changeData "KnowledgeCollectionStorage" "0xB") 20,
    changeEvent "0xc" (changeData "KnowledgeCollectionStorage" "0xE") 25]

def movedEvent : BlockchainEvent :=
  changeEvent "0xd" (changeData "KnowledgeCollectionStorage" "0xA") 15

def movingChain : List Log :=
  (movingEvents ++ [movedEvent]).map fun e =>
    ⟨e.contractAddress, if e.contract = .hub then units "t" else units "k", e.data, e.blockNumber,
      e.transactionIndex, e.logIndex⟩

def moving : Replacement :=
  ⟨changeEvent "0xc" (changeData "Hub" "0xd") 10, .hub, units "0xc", units "0xd"⟩

theorem asked_moving :
    (Monitor.start (monitoredTables movingEvents)).asked moving.event = some moving := by
  have hparse : parseChange moving.event.data = some (.hub, units "0xd") := by
    simp only [parseChange, moving, changeEvent, changeData, parse_stringify]
    decide
  simp only [Monitor.asked, Monitor.start, replacement, hparse]
  rfl

/-- The fetch of the events of the new hub. -/
def movingFetch : Fetch := moving.fetch 30 (monitoredTables movingEvents).contracts calmEnv

theorem getPastEvents_movingFetch :
    movingFetch.getPastEvents topicAbi movingChain = [movedEvent] := by
  have hrest : movingFetch.fetchChunks topicAbi movingChain 31 1 = [] := by
    rw [Fetch.fetchChunks]
    rfl
  have hread : movingFetch.readLogs topicAbi (movingFetch.getLogs topicAbi movingChain 11 30) =
      ([movedEvent], true) := by
    rfl
  have hmissed : movingFetch.eventsMissed = false := rfl
  have hfrom : movingFetch.lastCheckedBlock + 1 ≤ movingFetch.currentBlock := by decide
  rw [Fetch.getPastEvents, hmissed, if_neg Bool.false_ne_true, Fetch.fetchChunks, if_pos hfrom]
  change (if (movingFetch.readLogs topicAbi (movingFetch.getLogs topicAbi movingChain 11 30)).2 then
    (movingFetch.readLogs topicAbi (movingFetch.getLogs topicAbi movingChain 11 30)).1 ++
      movingFetch.fetchChunks topicAbi movingChain 31 1
    else (movingFetch.readLogs topicAbi (movingFetch.getLogs topicAbi movingChain 11 30)).1) = _
  rw [hread, hrest]
  rfl

/-- The states of the loop: after the replacement, the event of the other contract and that of the
    new hub, and when the two of the old hub were skipped. -/
def movedState : Monitor where
  tables :=
    { contracts := Function.update (monitoredTables movingEvents).contracts .hub
        (some (units "0xd"))
      rows := (monitoredTables ([moving.event, storageEvent 12, movedEvent])).rows }
  loop := (Monitor.start (monitoredTables movingEvents)).loop.handle moving.event
    ⟨[units "0xc"], [movedEvent]⟩
  replaced := [moving]

def silentState : Monitor :=
  { movedState with
    loop :=
      let merged := (movedState.loop.handle (storageEvent 12) {}).handle movedEvent {}
      let skipped := merged.skip
        (changeEvent "0xc" (changeData "KnowledgeCollectionStorage" "0xB") 20)
      skipped.skip (changeEvent "0xc" (changeData "KnowledgeCollectionStorage" "0xE") 25) }

theorem intact_movingFetch : movingFetch.Intact topicAbi movingChain := by
  intro log _ _ _
  refine ⟨fun c _ => ?_, fun j _ => ⟨rfl, fun l hl _ _ _ _ => ?_⟩⟩
  · simp only [topicAbi]
    split_ifs <;> rfl
  · have hlower : ∀ l ∈ movingChain, toLowerCase l.address = l.address := by decide +kernel
    exact hlower l hl

theorem next_moving : (Monitor.start (monitoredTables movingEvents)).next topicAbi movingChain 30
    calmEnv = some movedState := by
  have hcalm : (∀ i, calmEnv.initializeThrows i = false) ∧ calmEnv.stop = none :=
    ⟨fun _ => rfl, rfl⟩
  have hfetch : (moving.fetch 30 (Monitor.start (monitoredTables movingEvents)).tables.contracts
      calmEnv).getPastEvents topicAbi movingChain = [movedEvent] := getPastEvents_movingFetch
  rw [Monitor.next_of_valid (e := moving.event) rfl List.not_mem_nil, asked_moving,
    processEvent_of_asked asked_moving hcalm, hfetch]
  rfl

theorem clear_moving : moving.Clear topicAbi movingChain 30
    (Monitor.start (monitoredTables movingEvents)) calmEnv where
  spelled := by decide +kernel
  own := by decide +kernel
  fresh := ⟨by decide, nofun⟩
  first := nofun
  later := by
    rintro log hlog ⟨hsame, -⟩
    revert log
    decide +kernel
  intact := intact_movingFetch
  synced := rfl
  calm := ⟨fun _ => rfl, rfl⟩
  timely := by
    have hcalm : (∀ i, calmEnv.initializeThrows i = false) ∧ calmEnv.stop = none :=
      ⟨fun _ => rfl, rfl⟩
    have hfetch : (moving.fetch 30
        (Monitor.start (monitoredTables movingEvents)).tables.contracts calmEnv).getPastEvents
          topicAbi movingChain = [movedEvent] := getPastEvents_movingFetch
    rw [processEvent_of_asked asked_moving hcalm, hfetch]
    exact fun _ => ⟨storageEvent 12, by decide +kernel, by decide +kernel⟩

/-- The hub is replaced, and its later events are neither handled nor left in the table. -/
theorem silenced_iff_reached_hub :
    Silenced topicAbi movingChain 30 movingEvents silentState := by
  have hsame : ∀ s : Monitor, s.tables.contracts .knowledgeCollectionStorage = some (units "0xA") →
      s.asked movedEvent = none := by
    intro s hs
    have hparse : parseChange movedEvent.data =
        some (.knowledgeCollectionStorage, units "0xA") := by
      simp only [parseChange, movedEvent, changeEvent, changeData, parse_stringify]
      decide
    have hchange : movedEvent.event.isChange = true := rfl
    rw [Monitor.asked, if_pos hchange, replacement, hparse]
    simp [hs]
  have hrun : Relation.ReflTransGen (Monitor.ClearStep topicAbi movingChain 30)
      (Monitor.start (monitoredTables movingEvents)) silentState := by
    refine .head ⟨calmEnv, next_moving, fun event hevent _ r hr => ?_⟩ ?_
    · obtain rfl : moving.event = event := Option.some.inj hevent
      obtain rfl : moving = r := Option.some.inj (asked_moving.symm.trans hr)
      exact clear_moving
    · refine .head (Monitor.clearStep_of_not_asked (e := storageEvent 12) (by decide +kernel)
        (by decide +kernel) rfl calmEnv) ?_
      refine .head (Monitor.clearStep_of_not_asked (e := movedEvent) (by decide +kernel)
        (by decide +kernel) (hsame _ rfl) calmEnv) ?_
      refine .head (Monitor.clearStep_of_skipped (e := changeEvent "0xc"
        (changeData "KnowledgeCollectionStorage" "0xB") 20) (by decide +kernel)
        (by decide +kernel) calmEnv) ?_
      exact .single (Monitor.clearStep_of_skipped (e := changeEvent "0xc"
        (changeData "KnowledgeCollectionStorage" "0xE") 25) (by decide +kernel)
        (by decide +kernel) calmEnv)
  have hend : silentState.loop.pending = [] := by decide +kernel
  exact (silenced_iff_reached hrun hend).2.mpr rfl

/-- The hub replaces `KnowledgeCollectionStorage` in block 10, while an event of the old contract in
    block 20 is stored. -/
def replacingEvent : BlockchainEvent :=
  changeEvent "0xc" (changeData "KnowledgeCollectionStorage" "0xB") 10

def replacingEvents : List BlockchainEvent := [replacingEvent, storageEvent 20]

def replacing : Replacement :=
  ⟨replacingEvent, .knowledgeCollectionStorage, units "0xA", units "0xB"⟩

theorem asked_replacing :
    (Monitor.start (monitoredTables replacingEvents)).asked replacingEvent = some replacing := by
  have hparse : parseChange replacingEvent.data =
      some (.knowledgeCollectionStorage, units "0xB") := by
    simp only [parseChange, replacingEvent, changeEvent, changeData, parse_stringify]
    decide
  simp only [Monitor.asked, Monitor.start, replacement, hparse]
  rfl

/-- The state after the handler of the event was invoked, on a chain without logs. -/
def replacedState : Monitor where
  tables :=
    { contracts := Function.update (monitoredTables replacingEvents).contracts
        .knowledgeCollectionStorage (some (units "0xB"))
      rows := (monitoredTables replacingEvents).rows }
  loop := (Monitor.start (monitoredTables replacingEvents)).loop.handle replacingEvent
    ⟨[units "0xA"], []⟩
  replaced := [replacing]
  unreached := [⟨storageEvent 20, false⟩]

theorem next_replacing : (Monitor.start (monitoredTables replacingEvents)).next topicAbi [] 30
    calmEnv = some replacedState := by
  have hnone (q : Fetch) : q.getPastEvents topicAbi [] = [] := by
    refine List.eq_nil_iff_forall_not_mem.2 fun x hx => ?_
    obtain ⟨log, hlog, -⟩ := Fetch.mem_getPastEvents hx
    cases hlog
  have hcalm : (∀ i, calmEnv.initializeThrows i = false) ∧ calmEnv.stop = none :=
    ⟨fun _ => rfl, rfl⟩
  rw [Monitor.next_of_valid (e := replacingEvent) rfl List.not_mem_nil, asked_replacing,
    processEvent_of_asked asked_replacing hcalm, hnone]
  rfl

/-- An event of the old address is handled after the replacement, since its text differs. -/
theorem handled_after_replacement :
    ∃ s, Relation.ReflTransGen (fun s s' => s.next topicAbi [] 30 calmEnv = some s')
        (Monitor.start (monitoredTables replacingEvents)) s ∧ s.loop.pending = [] ∧
      ¬ Silenced topicAbi [] 30 replacingEvents s := by
  have hsecond : replacedState.next topicAbi [] 30 calmEnv =
      some { replacedState with loop := replacedState.loop.handle (storageEvent 20) {} } :=
    Monitor.next_of_not_asked (by decide +kernel) (by decide +kernel) rfl
  refine ⟨_, .tail (.single next_replacing) hsecond, by decide +kernel, ?_⟩
  intro h
  have hle : (storageEvent 20).blockNumber ≤ replacingEvent.blockNumber :=
    h.invoked replacing List.mem_cons_self (storageEvent 20) (by decide +kernel) (by decide)
  revert hle
  decide

end OtNode
