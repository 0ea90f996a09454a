import OtNode.Listener.Addresses

/-! What the listener hands to insertion, and what it loses.

    A run fetches what the contracts emitted under the addresses it knows when it starts. The
    handler of a change fetches what the contract emitted under its new address, in the blocks after
    the change. What neither finds is not asked for again: the checkpoint has moved over it. -/

namespace OtNode

open Utf Json BlockchainEvent

/-! ### The logs that are monitored -/

namespace Hub

variable (hub : Hub) (abi : Abi)

/-- The address of a contract at a block, with the hub among the contracts. -/
def addressAt (n : ℤ) (c : MonitoredContract) : Option Address :=
  if c = .hub then some hub.address else hub.contracts n c

/-- A log of a monitored contract, of a kind that is monitored: the hub lists the contract under the
    address of the log before or after its block. -/
def Monitors (log : Log) : Prop :=
  ∃ c a,
    (hub.addressAt (log.blockNumber - 1) c = some a ∨ hub.addressAt log.blockNumber c = some a) ∧
      SameAddress a log.address ∧ abi.Monitors c log

end Hub

/-! ### The runs that are committed -/

/-- The run is committed. -/
def MonitorRun.isCommitted (r : MonitorRun) : Bool :=
  match r.ending with
  | .aborted | .rolledBack => false
  | .unmarked | .marked => true

namespace MonitorNode

variable (hub : Hub) (abi : Abi) (chain : List Log) (s : MonitorNode) (r : MonitorRun)

/-- The events that a run hands to insertion: those of its fetch, and those its handlers discover.
    -/
def handed : List BlockchainEvent :=
  (s.fetch hub r).getPastEvents abi chain ++ (s.loop hub abi chain r).loop.discovered

/-- The committed runs, with the node before each. -/
def committed : MonitorNode → List MonitorStep → List (MonitorNode × MonitorRun)
  | _, [] => []
  | s, .listen r :: steps =>
    if r.isCommitted then (s, r) :: committed (s.listen hub abi chain r) steps
    else committed (s.listen hub abi chain r) steps
  | s, .start n :: steps => committed (s.start hub n) steps

/-- Every monitored log up to the checkpoint was handed to insertion, unless its block is in the
    range of a run that reports missed events. -/
def NoneLost (steps : List MonitorStep) : Prop :=
  ∀ b, (s.run hub abi chain steps).lastCheckedBlock = some b → ∀ log ∈ chain, hub.Monitors abi log →
    s.lastCheckedBlock.getD 0 < log.blockNumber → (log.blockNumber : ℤ) ≤ b →
      (∃ p ∈ committed hub abi chain s steps, ∃ x ∈ p.1.handed hub abi chain p.2, x.IsOf log) ∨
        ∃ p ∈ committed hub abi chain s steps, (p.1.fetch hub p.2).eventsMissed = true ∧
          (p.1.fetch hub p.2).Covers log.blockNumber

end MonitorNode

/-! ### What a run has to find -/

/-- The states before the iterations of a loop, with what the handler in each of them meets. -/
def Monitor.iterations (abi : Abi) (chain : List Log) (currentBlock : ℤ) :
    List HandlerEnv → Monitor → List (Monitor × HandlerEnv)
  | [], _ => []
  | env :: envs, s =>
    match s.next abi chain currentBlock env with
    | none => []
    | some s' => (s, env) :: iterations abi chain currentBlock envs s'

/-- The handler of a change finds a log of the new address: it is invoked, the log is in a later
    block, no call of the handler throws, and its fetch reads the log. -/
structure Replacement.Finds (abi : Abi) (chain : List Log) (currentBlock : ℤ) (s : Monitor)
    (env : HandlerEnv) (r : Replacement) (log : Log) : Prop where
  taken : s.loop.dependentEvents[s.loop.index]? = some r.event
  valid : r.event.contractAddress ∉ s.loop.invalidatedContracts
  asked : s.asked r.event = some r
  monitors : r.Monitors abi log
  later : r.event.blockNumber < log.blockNumber
  calm : (∀ i, env.initializeThrows i = false) ∧ env.stop = none
  synced : (r.fetch currentBlock s.tables.contracts env).eventsMissed = false
  reads : (r.fetch currentBlock s.tables.contracts env).Reads abi chain log

namespace MonitorNode

variable (hub : Hub) (abi : Abi) (chain : List Log) (s : MonitorNode) (r : MonitorRun)

/-- A run that reports no missed events finds every monitored log of its range: it asks for it and
    reads it, or the handler of a change does. -/
def Finds : Prop :=
  (s.fetch hub r).eventsMissed = false → ∀ log ∈ chain, hub.Monitors abi log →
    (s.fetch hub r).Covers log.blockNumber →
      (s.fetch hub r).Monitors abi log ∧ (s.fetch hub r).Reads abi chain log ∨
        ∃ m env,
          (m, env) ∈ (s.loopStart hub abi chain r).iterations abi chain r.currentBlock r.envs ∧
            ∃ change : Replacement, change.Finds abi chain r.currentBlock m env log

end MonitorNode

/-! ### What a loop discovers -/

section Loop

variable {abi : Abi} {chain : List Log} {currentBlock : ℤ} {env : HandlerEnv} {s s' : Monitor}
  {envs : List HandlerEnv} {x : BlockchainEvent}

theorem discovered_next (h : s.next abi chain currentBlock env = some s')
    (hx : x ∈ s.loop.discovered) : x ∈ s'.loop.discovered := by
  obtain ⟨event, -, ⟨-, rfl⟩ | ⟨-, rfl⟩⟩ := Monitor.next_cases h
  · exact hx
  · exact List.mem_append_left _ hx

/-- What was discovered stays among the discovered events. -/
theorem discovered_iterate (hx : x ∈ s.loop.discovered) :
    x ∈ (s.iterate abi chain currentBlock envs).loop.discovered := by
  induction envs generalizing s with
  | nil => exact hx
  | cons env envs ih =>
    rw [Monitor.iterate]
    split
    · exact hx
    · next s' hnext => exact ih (discovered_next hnext hx)

/-- RUN: what one handler discovers the loop has discovered at its end. -/
theorem discovered_of_mem_iterations {m : Monitor} {env : HandlerEnv}
    (h : (m, env) ∈ s.iterations abi chain currentBlock envs)
    (hx : ∀ m', m.next abi chain currentBlock env = some m' → x ∈ m'.loop.discovered) :
    x ∈ (s.iterate abi chain currentBlock envs).loop.discovered := by
  induction envs generalizing s with
  | nil => cases h
  | cons env' envs ih =>
    rw [Monitor.iterations] at h
    rw [Monitor.iterate]
    cases hnext : s.next abi chain currentBlock env' with
    | none =>
      rw [hnext] at h
      cases h
    | some s' =>
      rw [hnext] at h
      rcases List.mem_cons.mp h with heq | h
      · obtain ⟨rfl, rfl⟩ := Prod.mk.inj heq
        exact discovered_iterate (hx s' hnext)
      · exact ih h

theorem Replacement.Finds.next {r : Replacement} {log : Log}
    (h : r.Finds abi chain currentBlock s env log) :
    ∃ s', s.next abi chain currentBlock env = some s' :=
  ⟨_, Monitor.next_of_valid h.taken h.valid⟩

/-- STEP (handler): a log that the handler of a change finds is discovered. -/
theorem Replacement.Finds.discovered {r : Replacement} {log : Log}
    (h : r.Finds abi chain currentBlock s env log) (hlog : log ∈ chain)
    (hcurrent : (log.blockNumber : ℤ) ≤ currentBlock)
    (hnext : s.next abi chain currentBlock env = some s') :
    ∃ x ∈ s'.loop.discovered, x.IsOf log := by
  obtain ⟨x, hmem, hof⟩ :=
    getPastEvents_fetch h.reads h.synced hlog h.monitors h.later hcurrent
  rw [Monitor.next_of_valid h.taken h.valid, processEvent_of_asked h.asked h.calm] at hnext
  obtain rfl := Option.some.inj hnext
  exact ⟨x, List.mem_append_right _ hmem, hof⟩

end Loop

/-! ### What the runs hand over -/

namespace MonitorNode

variable {hub : Hub} {abi : Abi} {chain : List Log} {s : MonitorNode} {r : MonitorRun}

/-- STEP: a run hands over the logs that it finds. -/
theorem handed_of_finds (h : s.Finds hub abi chain r)
    (hmissed : (s.fetch hub r).eventsMissed = false) {log : Log} (hlog : log ∈ chain)
    (hmonitors : hub.Monitors abi log) (hcovers : (s.fetch hub r).Covers log.blockNumber) :
    ∃ x ∈ s.handed hub abi chain r, x.IsOf log := by
  rcases h hmissed log hlog hmonitors hcovers with ⟨hknown, hreads⟩ | ⟨m, env, hm, change, hfinds⟩
  · obtain ⟨c, parsed, hmem⟩ := Fetch.getPastEvents_hands hreads hmissed hlog hknown hcovers
    exact ⟨_, List.mem_append_left _ hmem, rfl, rfl, rfl, rfl⟩
  · obtain ⟨hlt, hle⟩ := hcovers
    obtain ⟨m', hnext⟩ := hfinds.next
    obtain ⟨x, hx, hof⟩ := hfinds.discovered hlog hle hnext
    refine ⟨x, List.mem_append_right _ (discovered_of_mem_iterations hm ?_), hof⟩
    intro m'' hnext'
    obtain rfl := Option.some.inj (hnext.symm.trans hnext')
    exact hx

/-- A run that is not committed leaves the checkpoint, and one that is moves it to its current
    block. -/
theorem lastCheckedBlock_listen :
    (s.listen hub abi chain r).lastCheckedBlock =
      if r.isCommitted then some r.currentBlock else s.lastCheckedBlock := by
  rw [listen, MonitorRun.isCommitted]
  cases r.ending <;> rfl

/-- RUN: every block up to the checkpoint is in the range of a committed run. -/
theorem committed_cover {steps : List MonitorStep} {n b : ℤ}
    (hb : (s.run hub abi chain steps).lastCheckedBlock = some b)
    (hstart : s.lastCheckedBlock.getD 0 < n) (hn : n ≤ b) :
    ∃ p ∈ committed hub abi chain s steps, (p.1.fetch hub p.2).Covers n := by
  induction steps generalizing s with
  | nil =>
    rw [run, List.foldl_nil] at hb
    rw [hb, Option.getD_some] at hstart
    omega
  | cons step steps ih =>
    rw [run, List.foldl_cons] at hb
    cases step with
    | start m => exact ih (s := s.start hub m) hb hstart
    | listen r =>
      have hlast : (s.listen hub abi chain r).lastCheckedBlock =
        if r.isCommitted then some r.currentBlock else s.lastCheckedBlock := lastCheckedBlock_listen
      rw [committed]
      cases hcommitted : r.isCommitted with
      | false =>
        rw [hcommitted, if_neg Bool.false_ne_true] at hlast
        rw [if_neg Bool.false_ne_true]
        exact ih (s := s.listen hub abi chain r) hb (by rw [hlast]; exact hstart)
      | true =>
        rw [hcommitted, if_pos rfl] at hlast
        rw [if_pos rfl]
        by_cases hcurrent : n ≤ r.currentBlock
        · exact ⟨(s, r), List.mem_cons_self, hstart, hcurrent⟩
        · obtain ⟨p, hp, hcovers⟩ :=
            ih (s := s.listen hub abi chain r) hb (by rw [hlast, Option.getD_some]; omega)
          exact ⟨p, List.mem_cons_of_mem _ hp, hcovers⟩

end MonitorNode

open MonitorNode in
/-- CODE BUG (no event lost): over runs that are aborted, rolled back or committed, starts of the
    process and current blocks that go back and forth, no monitored log is lost, if every committed
    run that reports no missed events finds the monitored logs of its range. -/
theorem noneLost_of_finds {hub : Hub} {abi : Abi} {chain : List Log} {s : MonitorNode}
    {steps : List MonitorStep}
    (h : ∀ p ∈ committed hub abi chain s steps, p.1.Finds hub abi chain p.2) :
    s.NoneLost hub abi chain steps := by
  intro b hb log hlog hmonitors hstart hle
  obtain ⟨p, hp, hcovers⟩ := committed_cover hb hstart hle
  cases hmissed : (p.1.fetch hub p.2).eventsMissed with
  | true => exact .inr ⟨p, hp, hmissed, hcovers⟩
  | false => exact .inl ⟨p, hp, handed_of_finds (h p hp) hmissed hlog hmonitors hcovers⟩

/-- `KnowledgeCollectionStorage` emits a log in block 4, the hub moves it to `0xB` in block 5, and
    it emits another one there in block 7. -/
def relocationEvent : BlockchainEvent :=
  changeEvent "0xc" (changeData "KnowledgeCollectionStorage" "0xB") 5

def oldLog : Log := ⟨units "0xa", units "k", [], 4, 0, 0⟩

def relocationLog : Log := ⟨units "0xc", units "t", relocationEvent.data, 5, 0, 0⟩

def newLog : Log := ⟨units "0xb", units "k", [], 7, 0, 0⟩

def relocationChain : List Log := [oldLog, relocationLog, newLog]

def relocationNode : MonitorNode := MonitorNode.created changingHub 0

/-- A run that sees block 10, and whose calls of `eth_getLogs` fail or not. -/
def relocationRun (fails : Bool) (envs : List HandlerEnv) : MonitorRun :=
  ⟨10, none, fun _ => fails, envs, .marked⟩

/-- A fetch without failing calls reads all logs of the chain. -/
theorem reads_relocation {q : Fetch} (hcalls : ∀ k, q.fails k = false) (log : Log) :
    q.Reads topicAbi relocationChain log := by
  refine ⟨fun c _ => ?_, fun j _ => ⟨hcalls j, fun l hl _ _ _ _ => ?_⟩⟩
  · simp only [topicAbi]
    split_ifs <;> rfl
  · have hlower : ∀ l ∈ relocationChain, toLowerCase l.address = l.address := by decide +kernel
    exact hlower l hl

def relocationFetch : Fetch := relocationNode.fetch changingHub (relocationRun false [])

theorem getPastEvents_relocationFetch :
    relocationFetch.getPastEvents topicAbi relocationChain = [storageEvent 4, relocationEvent] := by
  have hrest : relocationFetch.fetchChunks topicAbi relocationChain 9 1 = [] := by
    rw [Fetch.fetchChunks]
    rfl
  have hread : relocationFetch.readLogs topicAbi
      (relocationFetch.getLogs topicAbi relocationChain 1 8) =
        ([storageEvent 4, relocationEvent], true) := by
    rfl
  have hmissed : relocationFetch.eventsMissed = false := rfl
  have hfrom : relocationFetch.lastCheckedBlock + 1 ≤ relocationFetch.currentBlock := by decide
  rw [Fetch.getPastEvents, hmissed, if_neg Bool.false_ne_true, Fetch.fetchChunks, if_pos hfrom]
  change (if (relocationFetch.readLogs topicAbi
      (relocationFetch.getLogs topicAbi relocationChain 1 8)).2 then
    (relocationFetch.readLogs topicAbi
      (relocationFetch.getLogs topicAbi relocationChain 1 8)).1 ++
      relocationFetch.fetchChunks topicAbi relocationChain 9 1
    else (relocationFetch.readLogs topicAbi
      (relocationFetch.getLogs topicAbi relocationChain 1 8)).1) = _
  rw [hread, hrest]
  rfl

/-- The loop of the run before its iterations, and before the change is handled. -/
def relocationStart : Monitor where
  tables := ⟨relocationNode.contracts, [⟨storageEvent 4, false⟩, ⟨relocationEvent, false⟩]⟩
  loop := DependentLoop.start [storageEvent 4, relocationEvent]

def relocationState : Monitor :=
  { relocationStart with loop := relocationStart.loop.handle (storageEvent 4) {} }

theorem loopStart_relocation {envs : List HandlerEnv} :
    relocationNode.loopStart changingHub topicAbi relocationChain (relocationRun false envs) =
      relocationStart := by
  have hstored : relocationNode.stored changingHub topicAbi relocationChain
      (relocationRun false envs) = [⟨storageEvent 4, false⟩, ⟨relocationEvent, false⟩] :=
    congrArg (insertBlockchainEvents []) getPastEvents_relocationFetch
  rw [MonitorNode.loopStart, MonitorNode.batch, hstored]
  rfl

/-- The handler of the change finds the log of the new address. -/
theorem finds_newLog :
    (⟨relocationEvent, .knowledgeCollectionStorage, units "0xA", units "0xB"⟩ : Replacement).Finds
      topicAbi relocationChain 8 relocationState calmEnv newLog where
  taken := by decide +kernel
  valid := by decide +kernel
  asked := by
    have hparse : parseChange relocationEvent.data =
        some (.knowledgeCollectionStorage, units "0xB") := by
      simp only [parseChange, relocationEvent, changeEvent, changeData, parse_stringify]
      decide
    simp only [Monitor.asked, replacement, hparse]
    rfl
  monitors := ⟨by decide, (.knowledgeCollectionCreated, units "k"), by decide, by decide, rfl⟩
  later := by decide
  calm := ⟨fun _ => rfl, rfl⟩
  synced := rfl
  reads := reads_relocation (fun _ => rfl) newLog

theorem noneLost_of_finds_relocation :
    relocationNode.NoneLost changingHub topicAbi relocationChain
      [.listen (relocationRun false [calmEnv, calmEnv])] := by
  refine noneLost_of_finds fun p hp => ?_
  obtain rfl := List.mem_singleton.mp hp
  intro _ log hlog _ _
  have hknown (hmonitors : (relocationNode.fetch changingHub
      (relocationRun false [calmEnv, calmEnv])).Monitors topicAbi log) := And.intro hmonitors
        (reads_relocation (q := relocationNode.fetch changingHub
          (relocationRun false [calmEnv, calmEnv])) (fun _ => rfl) log)
  rcases List.mem_cons.mp hlog with rfl | hlog
  · exact .inl (hknown ⟨.knowledgeCollectionStorage, by decide, units "0xA", rfl, by decide,
      by decide⟩)
  rcases List.mem_cons.mp hlog with rfl | hlog
  · exact .inl (hknown ⟨.hub, by decide, units "0xC", rfl, by decide, by decide⟩)
  obtain rfl := List.mem_singleton.mp hlog
  have hfirst : relocationStart.next topicAbi relocationChain 8 calmEnv = some relocationState :=
    Monitor.next_of_not_asked (by decide +kernel) (by decide +kernel) rfl
  obtain ⟨s, hsecond⟩ := finds_newLog.next
  have hiterations : relocationStart.iterations topicAbi relocationChain 8 [calmEnv, calmEnv] =
      [(relocationStart, calmEnv), (relocationState, calmEnv)] := by
    simp [Monitor.iterations, hfirst, hsecond]
  refine .inr ⟨relocationState, calmEnv, ?_, _, finds_newLog⟩
  rw [loopStart_relocation]
  exact hiterations ▸ List.mem_cons_of_mem _ (List.mem_singleton_self _)

/-- A failing call loses the log of block 4, and the checkpoint moves over its block. -/
theorem lost_by_failing_call :
    (relocationNode.run changingHub topicAbi relocationChain
        [.listen (relocationRun true [])]).lastCheckedBlock = some 8 ∧
      ¬ relocationNode.NoneLost changingHub topicAbi relocationChain
        [.listen (relocationRun true [])] := by
  refine ⟨rfl, fun h => ?_⟩
  have hmonitors : changingHub.Monitors topicAbi oldLog :=
    ⟨.knowledgeCollectionStorage, units "0xA", .inr rfl, by decide,
      (.knowledgeCollectionCreated, units "k"), by decide, by decide, rfl⟩
  rcases h 8 rfl oldLog List.mem_cons_self hmonitors (by decide) (by decide) with
    ⟨p, hp, x, hx, -⟩ | ⟨p, hp, hmissed, -⟩
  · obtain rfl := List.mem_singleton.mp hp
    have hnone : (relocationNode.fetch changingHub (relocationRun true [])).getPastEvents topicAbi
        relocationChain = [] := by
      rw [Fetch.getPastEvents, Fetch.fetchChunks]
      rfl
    rw [MonitorNode.handed, hnone] at hx
    cases hx
  · obtain rfl := List.mem_singleton.mp hp
    cases hmissed

end OtNode
