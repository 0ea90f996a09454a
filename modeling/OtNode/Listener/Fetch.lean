import Mathlib.Tactic.SplitIfs
import OtNode.Listener.Events

/-! Fetching logs in chunks of blocks.

    An exception in the loop over the chunks ends it: the events so far are returned, without a sign
    that there are blocks left. -/

namespace OtNode

open Utf

/-- `MAXIMUM_NUMBERS_OF_BLOCKS_TO_FETCH`. -/
def maximumNumbersOfBlocksToFetch : ℤ := 50

/-- A log as the RPC node returns it, with the first of its topics. -/
structure Log where
  address : Address
  topic : JsString
  payload : JsString
  blockNumber : ℕ
  transactionIndex : ℕ
  logIndex : ℕ
  deriving DecidableEq

/-- What `ethers` takes from the ABIs: the filters of a contract with their topics, and the name and
    arguments of a log, `none` when it cannot be parsed. -/
structure Abi where
  filters : MonitoredContract → List (MonitoredEvent × JsString)
  parseLog : MonitoredContract → Log → Option (MonitoredEvent × JsString)

/-- A call of `getPastEvents`, with what it finds: the addresses of the contracts, the number of
    blocks to sync (`none` is `Infinity`), and the chunks whose RPC call fails. -/
structure Fetch where
  blockchain : JsString
  contracts : Contracts
  contractNames : List MonitoredContract
  eventsToFilter : List MonitoredEvent
  maxBlocksToSync : Option ℤ
  fails : ℕ → Bool
  lastCheckedBlock : ℤ
  currentBlock : ℤ

namespace Fetch

variable (abi : Abi) (chain : List Log) (q : Fetch)

/-- `eventsMissed`. -/
def eventsMissed : Bool :=
  match q.maxBlocksToSync with
  | none => false
  | some maxBlocks => decide (maxBlocks < q.currentBlock - q.lastCheckedBlock)

/-- The topics of a contract. -/
def contractTopics (c : MonitoredContract) : List JsString :=
  ((abi.filters c).filter fun f => f.1 ∈ q.eventsToFilter).map Prod.snd

/-- The contracts with an address and topics. -/
def queried : List (MonitoredContract × Address) :=
  q.contractNames.filterMap fun c =>
    if q.contractTopics abi c = [] then none else (q.contracts c).map fun a => (c, a)

/-- `addressToContractNameMap[address]`. The keys are in lower case, and the last one is kept. -/
def addressToContractName (a : Address) : Option MonitoredContract :=
  ((q.queried abi).reverse.find? fun p => toLowerCase p.2 = a).map Prod.fst

/-- The filter of `eth_getLogs`. An empty list is no restriction. -/
def accepts (log : Log) : Bool :=
  let topics := (q.queried abi).flatMap fun p => q.contractTopics abi p.1
  ((q.queried abi).isEmpty ||
      (q.queried abi).any fun p => toLowerCase p.2 = toLowerCase log.address) &&
    (topics.isEmpty || decide (log.topic ∈ topics))

/-- `eth_getLogs` for a range of blocks. -/
def getLogs (fromBlock toBlock : ℤ) : List Log :=
  chain.filter fun log => q.accepts abi log && decide (fromBlock ≤ log.blockNumber) &&
    decide ((log.blockNumber : ℤ) ≤ toBlock)

/-- The event of a log. -/
def toEvent (c : MonitoredContract) (parsed : MonitoredEvent × JsString) (log : Log) :
    BlockchainEvent where
  blockchain := q.blockchain
  contract := c
  contractAddress := log.address
  event := parsed.1
  data := parsed.2
  blockNumber := log.blockNumber
  transactionIndex := log.transactionIndex
  logIndex := log.logIndex

/-- The loop over the logs of a chunk: its events, and whether it comes to its end. An address that
    is not in the map has no ABI, and an interface cannot be made without one. -/
def readLogs : List Log → List BlockchainEvent × Bool
  | [] => ([], true)
  | log :: logs =>
    match q.addressToContractName abi log.address with
    | none => ([], false)
    | some c =>
      match abi.parseLog c log with
      | none => readLogs logs
      | some parsed => (q.toEvent c parsed log :: (readLogs logs).1, (readLogs logs).2)

/-- The loop over the chunks. -/
def fetchChunks (fromBlock : ℤ) (k : ℕ) : List BlockchainEvent :=
  if fromBlock ≤ q.currentBlock then
    let toBlock := min (fromBlock + maximumNumbersOfBlocksToFetch - 1) q.currentBlock
    if q.fails k then []
    else
      let read := q.readLogs abi (q.getLogs abi chain fromBlock toBlock)
      if read.2 then read.1 ++ fetchChunks (toBlock + 1) (k + 1) else read.1
  else []
termination_by (q.currentBlock + 1 - fromBlock).toNat
decreasing_by
  simp only [maximumNumbersOfBlocksToFetch] at *
  omega

/-- `getPastEvents`. -/
def getPastEvents : List BlockchainEvent :=
  if q.eventsMissed then [] else q.fetchChunks abi chain (q.lastCheckedBlock + 1) 0

/-! ### What a fetch has to find -/

/-- A log of a monitored contract, of a kind that is monitored. -/
def Monitors (log : Log) : Prop :=
  ∃ c ∈ q.contractNames, ∃ a, q.contracts c = some a ∧ toLowerCase a = toLowerCase log.address ∧
    log.topic ∈ q.contractTopics abi c

/-- A block of the range. -/
def Covers (n : ℤ) : Prop := q.lastCheckedBlock < n ∧ n ≤ q.currentBlock

/-- An event of the log. -/
def Hands (es : List BlockchainEvent) (log : Log) : Prop :=
  ∃ c parsed, q.toEvent c parsed log ∈ es

/-- The first block of a chunk. -/
def chunkStart (j : ℕ) : ℤ := q.lastCheckedBlock + 1 + maximumNumbersOfBlocksToFetch * j

/-- A chunk that is read to its end: its call does not fail, and the logs it returns have their
    address in lower case. -/
def ReadsChunk (j : ℕ) : Prop :=
  q.fails j = false ∧ ∀ log ∈ chain, q.accepts abi log = true →
    q.chunkStart j ≤ log.blockNumber →
    (log.blockNumber : ℤ) < q.chunkStart j + maximumNumbersOfBlocksToFetch →
    (log.blockNumber : ℤ) ≤ q.currentBlock → toLowerCase log.address = log.address

/-- A log can be parsed, and stands in a chunk that is read to its end, as are those before it. -/
def Reads (log : Log) : Prop :=
  (∀ c ∈ q.addressToContractName abi log.address, (abi.parseLog c log).isSome) ∧
    ∀ j, q.chunkStart j ≤ log.blockNumber → q.ReadsChunk abi chain j

/-- Every monitored log of the range is read. -/
def Intact : Prop :=
  ∀ log ∈ chain, q.Monitors abi log → q.Covers log.blockNumber → q.Reads abi chain log

end Fetch

/-! ### The fetch of a run -/

/-- What a run of the listener finds before it fetches. -/
structure ListenerRun where
  latestBlock : ℤ
  contracts : Contracts
  maxBlocksToSync : Option ℤ
  fails : ℕ → Bool

/-- The current block of a run. -/
def ListenerRun.currentBlock (r : ListenerRun) : ℤ := r.latestBlock - 2

/-- The fetch of `fetchAndHandleBlockchainEvents`. -/
def ListenerRun.fetch (r : ListenerRun) (blockchain : JsString) (lastCheckedBlock : Option ℤ) :
    Fetch where
  blockchain := blockchain
  contracts := r.contracts
  contractNames := MonitoredContract.all
  eventsToFilter := MonitoredEvent.all
  maxBlocksToSync := r.maxBlocksToSync
  fails := r.fails
  lastCheckedBlock := lastCheckedBlock.getD 0
  currentBlock := r.currentBlock

/-! ### What a fetch finds -/

namespace Fetch

variable {abi : Abi} {chain : List Log} {q : Fetch}

theorem mem_queried {c : MonitoredContract} {a : Address} :
    (c, a) ∈ q.queried abi ↔
      c ∈ q.contractNames ∧ q.contractTopics abi c ≠ [] ∧ q.contracts c = some a := by
  simp only [queried, List.mem_filterMap]
  constructor
  · rintro ⟨c', hc', h⟩
    split_ifs at h with htopics
    obtain ⟨a', ha', heq⟩ := Option.map_eq_some_iff.1 h
    obtain ⟨rfl, rfl⟩ := Prod.mk.inj heq
    exact ⟨hc', htopics, ha'⟩
  · rintro ⟨hc, htopics, ha⟩
    refine ⟨c, hc, ?_⟩
    rw [if_neg htopics, ha]
    rfl

/-- The RPC node is asked for every monitored log. -/
theorem accepts_of_monitors {log : Log} (h : q.Monitors abi log) : q.accepts abi log = true := by
  obtain ⟨c, hc, a, ha, haddress, htopic⟩ := h
  have hmem : (c, a) ∈ q.queried abi := mem_queried.2 ⟨hc, List.ne_nil_of_mem htopic, ha⟩
  have htopics : log.topic ∈ (q.queried abi).flatMap fun p => q.contractTopics abi p.1 :=
    List.mem_flatMap.2 ⟨(c, a), hmem, htopic⟩
  have hany : ((q.queried abi).any fun p => toLowerCase p.2 = toLowerCase log.address) = true :=
    List.any_eq_true.2 ⟨(c, a), hmem, decide_eq_true haddress⟩
  simp only [accepts, hany, htopics, Bool.or_true, decide_true, Bool.and_self]

/-- An accepted log with its address in lower case is found in the map. -/
theorem addressToContractName_isSome {log : Log} (hqueried : q.queried abi ≠ [])
    (h : q.accepts abi log = true) (hlower : toLowerCase log.address = log.address) :
    ∃ c, q.addressToContractName abi log.address = some c := by
  have hany : ∃ p ∈ q.queried abi, toLowerCase p.2 = toLowerCase log.address := by
    simp only [accepts, Bool.and_eq_true, Bool.or_eq_true, List.isEmpty_iff, hqueried, false_or,
      List.any_eq_true, decide_eq_true_eq] at h
    exact h.1
  obtain ⟨p, hp, haddress⟩ := hany
  rcases hfind : (q.queried abi).reverse.find? fun p => toLowerCase p.2 = log.address with - | p'
  · have hnone := List.find?_eq_none.1 hfind p (List.mem_reverse.2 hp)
    rw [haddress, hlower] at hnone
    simp at hnone
  · exact ⟨p'.1, by rw [addressToContractName, hfind]; rfl⟩

/-- Logs that are all found in the map are read to the end. -/
theorem readLogs_of_found {logs : List Log}
    (h : ∀ log ∈ logs, ∃ c, q.addressToContractName abi log.address = some c) :
    (q.readLogs abi logs).2 = true ∧ ∀ log ∈ logs,
      (∀ c ∈ q.addressToContractName abi log.address, (abi.parseLog c log).isSome) →
        q.Hands (q.readLogs abi logs).1 log := by
  induction logs with
  | nil => exact ⟨rfl, nofun⟩
  | cons log logs ih =>
    obtain ⟨hread, hhands⟩ := ih fun l hl => h l (List.mem_cons_of_mem _ hl)
    obtain ⟨c, hc⟩ := h log List.mem_cons_self
    rcases hparse : abi.parseLog c log with - | parsed
    · simp only [readLogs, hc, hparse]
      refine ⟨hread, ?_⟩
      intro l hl hparses
      rcases List.mem_cons.1 hl with rfl | hl
      · have hsome := hparses c hc
        rw [hparse] at hsome
        cases hsome
      · exact hhands l hl hparses
    · simp only [readLogs, hc, hparse]
      refine ⟨hread, ?_⟩
      intro l hl hparses
      rcases List.mem_cons.1 hl with rfl | hl
      · exact ⟨c, parsed, List.mem_cons_self⟩
      · obtain ⟨c', parsed', hmem⟩ := hhands l hl hparses
        exact ⟨c', parsed', List.mem_cons_of_mem _ hmem⟩

/-- The logs of a chunk that is read to its end are found in the map. -/
theorem found_of_reads {fromBlock : ℤ} {k : ℕ} (hqueried : q.queried abi ≠ [])
    (hstart : fromBlock = q.chunkStart k) (hreads : q.ReadsChunk abi chain k) :
    ∀ log ∈ q.getLogs abi chain fromBlock
        (min (fromBlock + maximumNumbersOfBlocksToFetch - 1) q.currentBlock),
      ∃ c, q.addressToContractName abi log.address = some c := by
  intro log hlog
  simp only [getLogs, List.mem_filter, Bool.and_eq_true, decide_eq_true_eq] at hlog
  obtain ⟨hlog, ⟨haccepts, hfrom⟩, hto⟩ := hlog
  have hlower := hreads.2 log hlog haccepts (by omega) (by omega) (by omega)
  exact addressToContractName_isSome hqueried haccepts hlower

/-- RUN: the loop over the chunks finds a log, when the chunks up to its own are read to the end. -/
theorem fetchChunks_hands {log : Log} (hlog : log ∈ chain) (haccepts : q.accepts abi log = true)
    (hqueried : q.queried abi ≠ []) (hcurrent : (log.blockNumber : ℤ) ≤ q.currentBlock)
    (hparses : ∀ c ∈ q.addressToContractName abi log.address, (abi.parseLog c log).isSome)
    (fromBlock : ℤ) (k : ℕ) (hstart : fromBlock = q.chunkStart k)
    (hfrom : fromBlock ≤ log.blockNumber)
    (hreads : ∀ j, k ≤ j → q.chunkStart j ≤ log.blockNumber → q.ReadsChunk abi chain j) :
    q.Hands (q.fetchChunks abi chain fromBlock k) log := by
  induction fromBlock, k using fetchChunks.induct abi chain q with
  | case1 fromBlock k hle hfails =>
    have hread := (hreads k le_rfl (hstart ▸ hfrom)).1
    rw [hfails] at hread
    cases hread
  | case2 fromBlock k hle toBlock hfails read hend ih =>
    have hfound := found_of_reads hqueried hstart (hreads k le_rfl (hstart ▸ hfrom))
    obtain ⟨-, hhands⟩ := readLogs_of_found hfound
    rw [fetchChunks, if_pos hle, if_neg hfails, if_pos hend]
    by_cases hto : (log.blockNumber : ℤ) ≤ toBlock
    · have hmem : log ∈ q.getLogs abi chain fromBlock toBlock := by
        simp only [getLogs, List.mem_filter, Bool.and_eq_true, decide_eq_true_eq]
        exact ⟨hlog, ⟨haccepts, hfrom⟩, hto⟩
      obtain ⟨c, parsed, hc⟩ := hhands log hmem hparses
      exact ⟨c, parsed, List.mem_append_left _ hc⟩
    · have hnext : toBlock + 1 = q.chunkStart (k + 1) := by
        simp only [toBlock, chunkStart, maximumNumbersOfBlocksToFetch] at hstart hto ⊢
        push_cast
        omega
      obtain ⟨c, parsed, hc⟩ := ih hnext (by omega) fun j hj => hreads j (by omega)
      exact ⟨c, parsed, List.mem_append_right _ hc⟩
  | case3 fromBlock k hle toBlock hfails read hend =>
    have hfound := found_of_reads hqueried hstart (hreads k le_rfl (hstart ▸ hfrom))
    exact absurd (readLogs_of_found hfound).1 hend
  | case4 fromBlock k hle => omega

/-- The events of a chunk are parsed out of its logs. -/
theorem mem_readLogs {logs : List Log} {e : BlockchainEvent}
    (h : e ∈ (q.readLogs abi logs).1) :
    ∃ log ∈ logs, ∃ c parsed, q.addressToContractName abi log.address = some c ∧
      abi.parseLog c log = some parsed ∧ e = q.toEvent c parsed log := by
  induction logs with
  | nil => cases h
  | cons log logs ih =>
    rcases hc : q.addressToContractName abi log.address with - | c
    · simp only [readLogs, hc, List.not_mem_nil] at h
    · rcases hparse : abi.parseLog c log with - | parsed
      · simp only [readLogs, hc, hparse] at h
        obtain ⟨l, hl, hrest⟩ := ih h
        exact ⟨l, List.mem_cons_of_mem _ hl, hrest⟩
      · simp only [readLogs, hc, hparse] at h
        rcases List.mem_cons.1 h with rfl | h
        · exact ⟨log, List.mem_cons_self, c, parsed, hc, hparse, rfl⟩
        · obtain ⟨l, hl, hrest⟩ := ih h
          exact ⟨l, List.mem_cons_of_mem _ hl, hrest⟩

/-- The events of a fetch are parsed out of logs of its range. -/
theorem mem_getPastEvents {e : BlockchainEvent} (h : e ∈ q.getPastEvents abi chain) :
    ∃ log ∈ chain, ∃ c parsed, q.addressToContractName abi log.address = some c ∧
      abi.parseLog c log = some parsed ∧ e = q.toEvent c parsed log ∧ q.Covers log.blockNumber := by
  have hchunk {fromBlock toBlock : ℤ} (hto : toBlock ≤ q.currentBlock)
      (h : e ∈ (q.readLogs abi (q.getLogs abi chain fromBlock toBlock)).1) :
      ∃ log ∈ chain, ∃ c parsed, q.addressToContractName abi log.address = some c ∧
        abi.parseLog c log = some parsed ∧ e = q.toEvent c parsed log ∧
        fromBlock ≤ log.blockNumber ∧ (log.blockNumber : ℤ) ≤ q.currentBlock := by
    obtain ⟨log, hlog, c, parsed, hc, hparse, he⟩ := mem_readLogs h
    simp only [getLogs, List.mem_filter, Bool.and_eq_true, decide_eq_true_eq] at hlog
    exact ⟨log, hlog.1, c, parsed, hc, hparse, he, hlog.2.1.2, hlog.2.2.trans hto⟩
  have hchunks (fromBlock : ℤ) (k : ℕ) (h : e ∈ q.fetchChunks abi chain fromBlock k) :
      ∃ log ∈ chain, ∃ c parsed, q.addressToContractName abi log.address = some c ∧
        abi.parseLog c log = some parsed ∧ e = q.toEvent c parsed log ∧
        fromBlock ≤ log.blockNumber ∧ (log.blockNumber : ℤ) ≤ q.currentBlock := by
    induction fromBlock, k using fetchChunks.induct abi chain q with
    | case1 fromBlock k hle hfails =>
      rw [fetchChunks, if_pos hle, if_pos hfails] at h
      cases h
    | case2 fromBlock k hle toBlock hfails read hend ih =>
      rw [fetchChunks, if_pos hle, if_neg hfails, if_pos hend] at h
      rcases List.mem_append.1 h with h | h
      · exact hchunk (min_le_right ..) h
      · obtain ⟨log, hlog, c, parsed, hc, hparse, he, hfrom, hto⟩ := ih h
        simp only [toBlock, maximumNumbersOfBlocksToFetch] at hfrom
        exact ⟨log, hlog, c, parsed, hc, hparse, he, by omega, hto⟩
    | case3 fromBlock k hle toBlock hfails read hend =>
      rw [fetchChunks, if_pos hle, if_neg hfails, if_neg hend] at h
      exact hchunk (min_le_right ..) h
    | case4 fromBlock k hle =>
      rw [fetchChunks, if_neg hle] at h
      cases h
  unfold getPastEvents at h
  split_ifs at h
  · cases h
  · obtain ⟨log, hlog, c, parsed, hc, hparse, he, hfrom, hto⟩ := hchunks _ _ h
    exact ⟨log, hlog, c, parsed, hc, hparse, he, by omega, hto⟩

/-- A monitored log of the range that is read is handed over. -/
theorem getPastEvents_hands {log : Log} (hread : q.Reads abi chain log)
    (hmissed : q.eventsMissed = false) (hlog : log ∈ chain) (hmonitors : q.Monitors abi log)
    (hcovers : q.Covers log.blockNumber) : q.Hands (q.getPastEvents abi chain) log := by
  obtain ⟨hparses, hreads⟩ := hread
  have hqueried : q.queried abi ≠ [] := by
    obtain ⟨c, hc, a, ha, -, htopic⟩ := hmonitors
    exact List.ne_nil_of_mem (mem_queried.2 ⟨hc, List.ne_nil_of_mem htopic, ha⟩)
  have hstart : q.lastCheckedBlock + 1 = q.chunkStart 0 := by simp [chunkStart]
  have hfrom : q.lastCheckedBlock + 1 ≤ log.blockNumber := hcovers.1
  rw [getPastEvents, hmissed]
  exact fetchChunks_hands hlog (accepts_of_monitors hmonitors) hqueried hcovers.2 hparses _ 0 hstart
    hfrom fun j _ => hreads j

end Fetch

end OtNode
