import OtNode.Lib.Replay
import OtNode.Listener.Hub

/-! The addresses of the monitored contracts over the life of a node.

    The node reads the addresses from the hub when it starts, and changes them by the events of the
    hub. It may start from, and later be told of, blocks that are behind what it has checked, its
    runs may be rolled back, and a crash may leave events to be handled again. -/

namespace OtNode

open Utf Json BlockchainEvent

/-! ### The listener over the life of a node -/

/-- What a run of the listener meets, with what each call of a handler meets, and how it ends. -/
structure MonitorRun where
  latestBlock : ℤ
  maxBlocksToSync : Option ℤ
  fails : ℕ → Bool
  envs : List HandlerEnv
  ending : RunEnd

/-- `this.currentBlock`. -/
def MonitorRun.currentBlock (r : MonitorRun) : ℤ := r.latestBlock - 2

/-- The tables of the node, and what its process has in memory. -/
structure MonitorNode where
  rows : List EventRow
  lastCheckedBlock : Option ℤ
  contracts : Contracts
  newDependentEvents : List BlockchainEvent

namespace MonitorNode

variable (hub : Hub) (abi : Abi) (chain : List Log) (s : MonitorNode) (r : MonitorRun)

/-- The fetch of a run. -/
def fetch : Fetch :=
  ListenerRun.fetch ⟨r.latestBlock, s.contracts, r.maxBlocksToSync, r.fails⟩ hub.blockchain
    s.lastCheckedBlock

/-- The rows after the new events were stored. -/
def stored : List EventRow :=
  insertBlockchainEvents s.rows ((s.fetch hub r).getPastEvents abi chain)

/-- The events of a run. -/
def batch : List BlockchainEvent := getAllUnprocessedBlockchainEvents (s.stored hub abi chain r)

/-- The loop of a run, with the new events that an earlier one left over. -/
def loopStart : Monitor where
  tables := ⟨s.contracts, s.stored hub abi chain r⟩
  loop :=
    { DependentLoop.start (s.batch hub abi chain r) with
      newDependentEvents := s.newDependentEvents }

/-- The end of the loop. -/
def loop : Monitor :=
  (s.loopStart hub abi chain r).iterate abi chain r.currentBlock r.envs

/-- A run of `BlockchainEventListenerCommand`. What it does in memory is not rolled back. -/
def listen : MonitorNode :=
  let m := s.loop hub abi chain r
  let s' : MonitorNode :=
    { s with contracts := m.tables.contracts, newDependentEvents := m.loop.newDependentEvents }
  match r.ending with
  | .aborted => s
  | .rolledBack => s'
  | .unmarked => { s' with rows := m.tables.rows, lastCheckedBlock := some r.currentBlock }
  | .marked =>
    { s' with
      rows := markAllBlockchainEventsAsProcessed m.tables.rows
      lastCheckedBlock := some r.currentBlock }

/-- `_initializeContracts`, when the process starts, from a node of the blockchain at the block. -/
def start (n : ℤ) : MonitorNode :=
  { s with
    contracts := fun c => if c = .hub then some hub.address else hub.contracts n c
    newDependentEvents := [] }

end MonitorNode

/-- A run of the listener, or a start of the process, after an exit or a crash. -/
inductive MonitorStep where
  | listen (r : MonitorRun)
  | start (n : ℤ)

namespace MonitorStep

/-- The block that the step is told of. -/
def block : MonitorStep → ℤ
  | listen r => r.currentBlock
  | start n => n

end MonitorStep

/-! ### The address of a contract -/

/-- The address of a contract, as a register that the hub writes. -/
def Hub.register {hub : Hub} {abi : Abi} {chain : List Log} (hlaws : hub.Lawful abi chain)
    (c : MonitoredContract) : Replay.Register BlockchainEvent Address (ℕ ×ₗ (ℕ ×ₗ ℕ)) where
  writes := hub.changes abi chain c
  block e := e.blockNumber
  place := BlockchainEvent.place
  value e := (parseChange e.data).map Prod.snd
  read n := hub.contracts n c
  block_le h := by exact_mod_cast Monitor.block_le_of_place_le h
  latest := by
    rintro e n b ⟨hreported, a, hchanges⟩ hle hlast hread
    obtain rfl := hlaws.latest ⟨hreported, a, hchanges⟩ hchanges hle hlast hread
    rw [hchanges.2]
    rfl
  unchanged := hlaws.unchanged

namespace MonitorNode

/-- A node that has started with empty tables. -/
def created (hub : Hub) (first : ℤ) : MonitorNode := start hub ⟨[], none, fun _ => none, []⟩ first

section Run

variable (hub : Hub) (abi : Abi) (chain : List Log)

/-- A step. -/
def step (s : MonitorNode) : MonitorStep → MonitorNode
  | .listen r => s.listen hub abi chain r
  | .start n => s.start hub n

/-- The steps of a run. -/
def run (s : MonitorNode) (steps : List MonitorStep) : MonitorNode :=
  steps.foldl (step hub abi chain) s

/-- A step in which nothing is lost: no initialisation throws, the fetch of a run that is committed
    is intact, and its loop comes to its end. The process does not start from a block before the
    last checked one. -/
def Safe (s : MonitorNode) : MonitorStep → Prop
  | .listen r =>
    (∀ env ∈ r.envs, ∀ i, env.initializeThrows i = false) ∧
      (r.ending = .unmarked ∨ r.ending = .marked →
        (s.fetch hub r).Intact abi chain ∧ (s.fetch hub r).eventsMissed = false ∧
          (s.loop hub abi chain r).loop.pending = [])
  | .start n => s.lastCheckedBlock.getD 0 ≤ n

/-- A run of such steps. -/
def SafeRun : MonitorNode → List MonitorStep → Prop
  | _, [] => True
  | s, step :: steps => s.Safe hub abi chain step ∧ SafeRun (s.step hub abi chain step) steps

end Run

/-- The events up to the settled block are not handled again, and the others that are checked wait
    in the table. Where they change an address, the node may have an old one until then. -/
structure Settled {hub : Hub} {abi : Abi} {chain : List Log} (hlaws : hub.Lawful abi chain) (n : ℤ)
    (s : MonitorNode) (settled : ℤ) : Prop where
  checked : settled ≤ s.lastCheckedBlock.getD 0
  waits : ∀ e, hub.Reported abi chain e → (e.blockNumber : ℤ) ≤ s.lastCheckedBlock.getD 0 →
    ⟨e, false⟩ ∈ s.rows ∨ (e.blockNumber : ℤ) ≤ settled
  unsettled : ∀ row ∈ s.rows, row.processed = false → row.event.event.isChange = true →
    settled < row.event.blockNumber ∧ (row.event.blockNumber : ℤ) ≤ n
  tracks : ∀ c ≠ .hub, s.contracts c ≠ none →
    (hub.register hlaws c).Tracks n settled (s.contracts c)

/-- What holds of a node between the steps. -/
structure Inv {hub : Hub} {abi : Abi} {chain : List Log} (hlaws : hub.Lawful abi chain) (n : ℤ)
    (s : MonitorNode) : Prop where
  apart : hub.Apart s.contracts
  waiting : ∀ x ∈ s.newDependentEvents, x.event.isChange = false
  reported : ∀ row ∈ s.rows, row.processed = false → row.event.event.isChange = true →
    hub.Reported abi chain row.event
  settled : ∃ settled, s.Settled hlaws n settled

section Life

variable {hub : Hub} {abi : Abi} {chain : List Log} {hlaws : hub.Lawful abi chain} {n m settled : ℤ}
  {s : MonitorNode} {r : MonitorRun} {c : MonitoredContract}

theorem mem_unprocessed {rows : List EventRow} {x : BlockchainEvent} :
    x ∈ getAllUnprocessedBlockchainEvents rows ↔ ⟨x, false⟩ ∈ rows := by
  constructor
  · intro h
    obtain ⟨⟨event, processed⟩, hrow, rfl⟩ := List.mem_map.mp h
    obtain ⟨hrow, hprocessed⟩ := List.mem_filter.mp hrow
    obtain rfl : processed = false := by simpa using hprocessed
    exact hrow
  · exact fun h => List.mem_map.mpr ⟨_, List.mem_filter.mpr ⟨h, rfl⟩, rfl⟩

theorem mem_batch {x : BlockchainEvent} :
    x ∈ s.batch hub abi chain r ↔
      ⟨x, false⟩ ∈ s.rows ∨ x ∈ (s.fetch hub r).getPastEvents abi chain := by
  rw [batch, mem_unprocessed, stored, insertBlockchainEvents, List.mem_append, List.mem_map]
  simp

/-- The changes in a batch are reported, and not settled. -/
theorem batch_spec (h : s.Inv hlaws n) (hsettled : s.Settled hlaws n settled)
    (hcurrent : r.currentBlock ≤ n) {x : BlockchainEvent} (hx : x ∈ s.batch hub abi chain r)
    (hchange : x.event.isChange = true) :
    hub.Reported abi chain x ∧ settled < x.blockNumber ∧ (x.blockNumber : ℤ) ≤ n := by
  rcases mem_batch.mp hx with hrow | hfetched
  · exact ⟨h.reported _ hrow rfl hchange, hsettled.unsettled _ hrow rfl hchange⟩
  · obtain ⟨hreported, hcovers, -⟩ :=
      reported_of_mem_getPastEvents hlaws rfl h.apart.itself hfetched hchange
    exact ⟨hreported, hsettled.checked.trans_lt hcovers.1, hcovers.2.trans hcurrent⟩

/-- The batch of an intact fetch has every change up to the current block that is not settled. -/
theorem mem_batch_of_reported (h : s.Inv hlaws n) (hsettled : s.Settled hlaws n settled)
    (hintact : (s.fetch hub r).Intact abi chain) (hmissed : (s.fetch hub r).eventsMissed = false)
    {x : BlockchainEvent} (hx : hub.Reported abi chain x) (hlt : settled < x.blockNumber)
    (hle : (x.blockNumber : ℤ) ≤ r.currentBlock) : x ∈ s.batch hub abi chain r := by
  refine mem_batch.mpr ?_
  rcases le_or_gt (x.blockNumber : ℤ) (s.lastCheckedBlock.getD 0) with hchecked | hnew
  · exact .inl ((hsettled.waits x hx hchecked).resolve_right (not_le.mpr hlt))
  · exact .inr (mem_getPastEvents_of_reported hlaws rfl h.apart.itself h.apart.others
      (MonitoredContract.mem_all _) MonitoredEvent.mem_all hintact hmissed hx ⟨hnew, hle⟩)

/-- A run starts with its batch pending. -/
theorem follows_loop (h : s.Inv hlaws n) (hsettled : s.Settled hlaws n settled)
    (hcurrent : r.currentBlock ≤ n)
    (hcalm : ∀ env ∈ r.envs, ∀ i, env.initializeThrows i = false) :
    (s.loop hub abi chain r).Follows hub abi chain (s.batch hub abi chain r)
      ⟨s.contracts, s.stored hub abi chain r⟩ := by
  have hpending : (s.loopStart hub abi chain r).loop.pending = sort (s.batch hub abi chain r) := rfl
  refine follows_iterate hlaws hcalm
    (fun x hx hchange => (batch_spec h hsettled hcurrent hx hchange).1) ?_
  refine ⟨?_, ?_, h.waiting, nofun, h.apart, fun _ => Iff.rfl, fun _ hrow _ => hrow,
    fun _ hrow _ => hrow, fun c _ => .inl ⟨rfl, fun x hx _ => ?_⟩⟩
  · rw [hpending]
    exact sort_pairwise _
  · intro x hx _
    rw [hpending] at hx
    exact mem_sort.mp hx
  · rw [hpending]
    exact mem_sort.mpr hx

/-- The batch of a run, as a batch of writes. -/
theorem registerBatch (h : s.Inv hlaws n) (hsettled : s.Settled hlaws n settled)
    (hcurrent : r.currentBlock ≤ n) (c : MonitoredContract) (upTo : ℤ)
    (hcomplete : ∀ x, hub.Reported abi chain x → settled < x.blockNumber →
      (x.blockNumber : ℤ) ≤ upTo → x ∈ s.batch hub abi chain r) :
    (hub.register hlaws c).Batch {x | x ∈ s.batch hub abi chain r} settled upTo n where
  complete x hx hlt hle := hcomplete x hx.1 hlt hle
  unsettled _ hx hwrite := (batch_spec h hsettled hcurrent hx hwrite.1.1).2.1
  bounded _ hx hwrite := (batch_spec h hsettled hcurrent hx hwrite.1.1).2.2

/-- At the end of a loop its batch was replayed. -/
theorem replayed_loop (h : s.Inv hlaws n) (hsettled : s.Settled hlaws n settled)
    (hcurrent : r.currentBlock ≤ n)
    (hfollows : (s.loop hub abi chain r).Follows hub abi chain (s.batch hub abi chain r)
      ⟨s.contracts, s.stored hub abi chain r⟩)
    (hend : (s.loop hub abi chain r).loop.pending = []) (hknown : s.contracts c ≠ none) :
    (hub.register hlaws c).Replayed {x | x ∈ s.batch hub abi chain r} (s.contracts c)
      ((s.loop hub abi chain r).tables.contracts c) := by
  rcases hfollows.taken c hknown with ⟨hold, hleft⟩ | ⟨e, he, a, hchanges, ha, hleft, -⟩
  · refine .inl ⟨fun x hx hwrite => ?_, hold⟩
    have hpending := hleft x hx hwrite.2
    rw [hend] at hpending
    cases hpending
  · refine .inr ⟨e, he, ⟨(batch_spec h hsettled hcurrent he hchanges.1).1, a, hchanges⟩,
      fun x hx hwrite => ?_, ?_⟩
    · refine (hleft x hx hwrite.2).resolve_left ?_
      rw [hend]
      exact List.not_mem_nil
    · refine ha.trans ?_
      change some a = (parseChange e.data).map Prod.snd
      rw [hchanges.2]
      rfl

/-- Whatever part of the batch was handled, the address is tracked while the batch is not settled.
    -/
theorem tracks_loop (h : s.Inv hlaws n) (hsettled : s.Settled hlaws n settled)
    (hcurrent : r.currentBlock ≤ n)
    (hfollows : (s.loop hub abi chain r).Follows hub abi chain (s.batch hub abi chain r)
      ⟨s.contracts, s.stored hub abi chain r⟩) (hc : c ≠ .hub)
    (hknown : (s.loop hub abi chain r).tables.contracts c ≠ none) :
    (hub.register hlaws c).Tracks n settled ((s.loop hub abi chain r).tables.contracts c) := by
  have hbefore : s.contracts c ≠ none := mt (hfollows.known c).mpr hknown
  rcases hfollows.taken c hbefore with ⟨hold, -⟩ | ⟨e, he, a, hchanges, -, -, -⟩
  · exact hold.symm ▸ hsettled.tracks c hc hbefore
  · obtain ⟨hreported, hlt, hle⟩ := batch_spec h hsettled hcurrent he hchanges.1
    exact .inl ⟨e, ⟨hreported, a, hchanges⟩, hlt, hle⟩

theorem apart_start (hlaws : hub.Lawful abi chain) : hub.Apart (s.start hub m).contracts where
  itself := rfl
  others c a hc ha := by
    have hread : hub.contracts m c = some a := (if_neg hc).symm.trans ha
    exact hlaws.apart hc hread

/-- STEP (start): the addresses are read from the hub. -/
theorem inv_start (h : s.Inv hlaws n) (hsafe : s.lastCheckedBlock.getD 0 ≤ m) (hm : m ≤ n) :
    (s.start hub m).Inv hlaws n where
  apart := apart_start hlaws
  waiting := nofun
  reported := h.reported
  settled := by
    obtain ⟨settled, hsettled⟩ := h.settled
    refine ⟨settled, hsettled.checked, hsettled.waits, hsettled.unsettled, fun c hc _ => ?_⟩
    have hread : (s.start hub m).contracts c = (hub.register hlaws c).read m := if_neg hc
    rw [hread]
    exact Replay.Register.tracks_read (hsettled.checked.trans hsafe) hm

/-- STEP (rolled back): what was done in memory is done again. -/
theorem inv_rolledBack (h : s.Inv hlaws n) (hcurrent : r.currentBlock ≤ n)
    (hcalm : ∀ env ∈ r.envs, ∀ i, env.initializeThrows i = false) :
    Inv hlaws n { s with
      contracts := (s.loop hub abi chain r).tables.contracts
      newDependentEvents := (s.loop hub abi chain r).loop.newDependentEvents } := by
  obtain ⟨settled, hsettled⟩ := h.settled
  have hfollows := follows_loop h hsettled hcurrent hcalm
  exact ⟨hfollows.apart, hfollows.waiting, h.reported, settled, hsettled.checked, hsettled.waits,
    hsettled.unsettled, fun c hc hknown => tracks_loop h hsettled hcurrent hfollows hc hknown⟩

/-- STEP (committed): the checkpoint is moved, and the batch waits in the table if it was not
    marked. -/
theorem inv_committed (h : s.Inv hlaws n) (hcurrent : r.currentBlock ≤ n)
    (hcalm : ∀ env ∈ r.envs, ∀ i, env.initializeThrows i = false)
    (hintact : (s.fetch hub r).Intact abi chain) (hmissed : (s.fetch hub r).eventsMissed = false) :
    Inv hlaws n
      { rows := (s.loop hub abi chain r).tables.rows
        lastCheckedBlock := some r.currentBlock
        contracts := (s.loop hub abi chain r).tables.contracts
        newDependentEvents := (s.loop hub abi chain r).loop.newDependentEvents } := by
  obtain ⟨settled, hsettled⟩ := h.settled
  have hfollows := follows_loop h hsettled hcurrent hcalm
  have hbatch : ∀ row ∈ (s.loop hub abi chain r).tables.rows, row.processed = false →
      row.event.event.isChange = true → row.event ∈ s.batch hub abi chain r := by
    rintro ⟨event, processed⟩ hrow rfl hchange
    exact mem_unprocessed.mpr (hfollows.stored _ hrow hchange)
  refine ⟨hfollows.apart, hfollows.waiting, fun row hrow hprocessed hchange =>
    (batch_spec h hsettled hcurrent (hbatch row hrow hprocessed hchange) hchange).1,
    min settled r.currentBlock, min_le_right .., ?_, ?_, ?_⟩
  · intro e he hle
    rcases le_or_gt (e.blockNumber : ℤ) settled with hearlier | hlt
    · exact .inr (le_min hearlier hle)
    · exact .inl (hfollows.kept _
        (mem_unprocessed.mp (mem_batch_of_reported h hsettled hintact hmissed he hlt hle)) he)
  · intro row hrow hprocessed hchange
    obtain ⟨-, hlt, hle⟩ :=
      batch_spec h hsettled hcurrent (hbatch row hrow hprocessed hchange) hchange
    exact ⟨(min_le_left ..).trans_lt hlt, hle⟩
  · exact fun c hc hknown =>
      (tracks_loop h hsettled hcurrent hfollows hc hknown).mono (min_le_left ..)

/-- STEP (marked): the batch is settled. -/
theorem inv_marked (h : s.Inv hlaws n) (hcurrent : r.currentBlock ≤ n)
    (hcalm : ∀ env ∈ r.envs, ∀ i, env.initializeThrows i = false)
    (hintact : (s.fetch hub r).Intact abi chain) (hmissed : (s.fetch hub r).eventsMissed = false)
    (hend : (s.loop hub abi chain r).loop.pending = []) :
    Inv hlaws n
      { rows := markAllBlockchainEventsAsProcessed (s.loop hub abi chain r).tables.rows
        lastCheckedBlock := some r.currentBlock
        contracts := (s.loop hub abi chain r).tables.contracts
        newDependentEvents := (s.loop hub abi chain r).loop.newDependentEvents } := by
  obtain ⟨settled, hsettled⟩ := h.settled
  have hfollows := follows_loop h hsettled hcurrent hcalm
  have hmarked : ∀ row ∈ markAllBlockchainEventsAsProcessed (s.loop hub abi chain r).tables.rows,
      row.processed ≠ false := by
    intro row hrow
    obtain ⟨earlier, -, rfl⟩ := List.mem_map.mp hrow
    exact Bool.true_eq_false_eq_False
  refine ⟨hfollows.apart, hfollows.waiting,
    fun row hrow hprocessed => absurd hprocessed (hmarked row hrow),
    r.currentBlock, le_rfl, fun e _ hle => .inr hle,
    fun row hrow hprocessed => absurd hprocessed (hmarked row hrow), fun c hc hknown => ?_⟩
  have hbefore : s.contracts c ≠ none := mt (hfollows.known c).mpr hknown
  exact Replay.Register.tracks_of_settled (hsettled.tracks c hc hbefore)
    (registerBatch h hsettled hcurrent c r.currentBlock fun x =>
      mem_batch_of_reported h hsettled hintact hmissed)
    (replayed_loop h hsettled hcurrent hfollows hend hbefore)

/-- STEP: a step that loses nothing. -/
theorem inv_step (h : s.Inv hlaws n) {step : MonitorStep} (hsafe : s.Safe hub abi chain step)
    (hblock : step.block ≤ n) : (s.step hub abi chain step).Inv hlaws n := by
  cases step with
  | start m => exact inv_start h hsafe hblock
  | listen r =>
    obtain ⟨hcalm, hcommitted⟩ := hsafe
    rw [MonitorNode.step, listen]
    cases hending : r.ending with
    | aborted => exact h
    | rolledBack => exact inv_rolledBack h hblock hcalm
    | unmarked =>
      obtain ⟨hintact, hmissed, -⟩ := hcommitted (.inl hending)
      exact inv_committed h hblock hcalm hintact hmissed
    | marked =>
      obtain ⟨hintact, hmissed, hend⟩ := hcommitted (.inr hending)
      exact inv_marked h hblock hcalm hintact hmissed hend

/-- RUN: so does a run of such steps. -/
theorem inv_run (h : s.Inv hlaws n) {steps : List MonitorStep}
    (hsafe : s.SafeRun hub abi chain steps) (hblocks : ∀ step ∈ steps, step.block ≤ n) :
    (s.run hub abi chain steps).Inv hlaws n := by
  induction steps generalizing s with
  | nil => exact h
  | cons step steps ih =>
    exact ih (inv_step h hsafe.1 (hblocks step List.mem_cons_self)) hsafe.2
      fun step hstep => hblocks step (List.mem_cons_of_mem _ hstep)

theorem inv_created (hlaws : hub.Lawful abi chain) (hfirst : 0 ≤ m) (hm : m ≤ n) :
    (created hub m).Inv hlaws n where
  apart := apart_start hlaws
  waiting := nofun
  reported := nofun
  settled := by
    refine ⟨0, le_rfl, fun e _ hle => .inr hle, nofun, fun c hc _ => ?_⟩
    have hread : (created hub m).contracts c = (hub.register hlaws c).read m := if_neg hc
    rw [hread]
    exact Replay.Register.tracks_read hfirst hm

theorem safeRun_append {steps steps' : List MonitorStep} :
    s.SafeRun hub abi chain (steps ++ steps') ↔
      s.SafeRun hub abi chain steps ∧ (s.run hub abi chain steps).SafeRun hub abi chain steps' := by
  induction steps generalizing s with
  | nil => exact ⟨fun h => ⟨trivial, h⟩, And.right⟩
  | cons step steps ih => rw [List.cons_append, SafeRun, ih, SafeRun, and_assoc]; rfl

end Life

end MonitorNode

open MonitorNode in
/-- CORRECT (addresses): in every run of a node, over starts from blocks that nodes of the
    blockchain have at different times, runs that are aborted, rolled back or cut off before their
    events are marked, and current blocks that go back and forth, once a run is committed for the
    latest block so far, every contract that the node knows has the address that the hub gives it at
    that block. -/
theorem addresses_current {hub : Hub} {abi : Abi} {chain : List Log} (hlaws : hub.Lawful abi chain)
    {first : ℤ} {steps : List MonitorStep} {r : MonitorRun}
    (hsafe : (created hub first).SafeRun hub abi chain (steps ++ [.listen r]))
    (hcommitted : r.ending = .unmarked ∨ r.ending = .marked)
    (hfirst : 0 ≤ first ∧ first ≤ r.currentBlock)
    (hlatest : ∀ step ∈ steps, step.block ≤ r.currentBlock) {c : MonitoredContract} (hc : c ≠ .hub)
    (hknown : ((created hub first).run hub abi chain steps).contracts c ≠ none) {a : Address}
    (ha : hub.contracts r.currentBlock c = some a) :
    ((created hub first).run hub abi chain (steps ++ [.listen r])).contracts c = some a := by
  obtain ⟨hsteps, hlast, -⟩ := safeRun_append.mp hsafe
  obtain ⟨hcalm, hcommit⟩ := hlast
  obtain ⟨hintact, hmissed, hend⟩ := hcommit hcommitted
  have hinv := inv_run (inv_created hlaws hfirst.1 hfirst.2) hsteps hlatest
  obtain ⟨settled, hsettled⟩ := hinv.settled
  have hfollows := follows_loop hinv hsettled le_rfl hcalm
  have hcurrent := Replay.Register.current_of_replayed (hsettled.tracks c hc hknown)
    (registerBatch hinv hsettled le_rfl c r.currentBlock fun x =>
      mem_batch_of_reported hinv hsettled hintact hmissed)
    (replayed_loop hinv hsettled le_rfl hfollows hend hknown)
  have hcontracts : ((created hub first).run hub abi chain (steps ++ [.listen r])).contracts =
      (((created hub first).run hub abi chain steps).loop hub abi chain r).tables.contracts := by
    rw [MonitorNode.run, List.foldl_append]
    change (MonitorNode.listen hub abi chain _ r).contracts = _
    rw [MonitorNode.listen]
    rcases hcommitted with hending | hending <;> rw [hending] <;> rfl
  rw [hcontracts]
  exact hcurrent a ha

/-- The hub gives a contract another address in block 5. -/
def changingLog : Log := ⟨units "0xc", units "t", [], 5, 0, 0⟩

def changingAbi : Abi where
  filters c := if c = .hub then [(.contractChanged, units "t")] else []
  parseLog c log :=
    if c = .hub ∧ log.topic = units "t" then some (.contractChanged, replacingEvent.data) else none

def changingHub : Hub where
  blockchain := []
  address := units "0xC"
  contracts n c :=
    if c = .knowledgeCollectionStorage then some (if n < 5 then units "0xA" else units "0xB")
    else none

/-- The event of the change. -/
def changingEvent : BlockchainEvent :=
  changingHub.toEvent (.contractChanged, replacingEvent.data) changingLog

theorem changes_changingEvent :
    changingEvent.Changes .knowledgeCollectionStorage (units "0xB") := by
  refine ⟨rfl, ?_⟩
  simp only [changingEvent, Hub.toEvent, parseChange, replacingEvent, changeEvent, changeData,
    parse_stringify]
  decide

theorem eq_changingEvent {e : BlockchainEvent}
    (h : changingHub.Reported changingAbi [changingLog] e) : e = changingEvent := by
  obtain ⟨-, log, hlog, -, parsed, hparse, rfl⟩ := h
  obtain rfl := List.mem_singleton.mp hlog
  have heq : parsed = (.contractChanged, replacingEvent.data) := (Option.some.inj hparse).symm
  rw [heq]
  rfl

theorem reported_changingEvent : changingHub.Reported changingAbi [changingLog] changingEvent :=
  ⟨rfl, changingLog, List.mem_singleton_self _, by decide, _, rfl, rfl⟩

theorem lawful_changingHub : changingHub.Lawful changingAbi [changingLog] where
  places log hlog log' hlog' _ :=
    (List.mem_singleton.mp hlog).trans (List.mem_singleton.mp hlog').symm
  parses {c log parsed} h := by
    unfold changingAbi at h
    dsimp only at h
    split_ifs at h with hc
    obtain ⟨rfl, htopic⟩ := hc
    obtain rfl := Option.some.inj h
    rw [htopic]
    exact ⟨by decide, by decide⟩
  latest {c e a n b} he hchanges hle _ hb := by
    obtain rfl := eq_changingEvent he.1
    obtain ⟨rfl, rfl⟩ := changes_unique changes_changingEvent hchanges
    have hlt : ¬ n < 5 := not_lt.mpr hle
    simp only [changingHub, if_true, if_neg hlt] at hb
    exact Option.some.inj hb
  unchanged {c m n b} hmn hno hb := by
    by_cases hc : c = .knowledgeCollectionStorage
    · have hblocks : 5 ≤ n → 5 ≤ m := hno changingEvent
        ⟨reported_changingEvent, units "0xB", hc ▸ changes_changingEvent⟩
      have hsame : m < 5 ↔ n < 5 := by omega
      simp only [changingHub, hsame]
      exact hb
    · simp only [changingHub, if_neg hc] at hb
      cases hb
  apart {n c a} _ h := by
    simp only [changingHub] at h
    split_ifs at h with _ hn
    · obtain rfl := Option.some.inj h
      decide
    · obtain rfl := Option.some.inj h
      decide
  reported {c e a} he hchanges := by
    obtain rfl := eq_changingEvent he.1
    obtain ⟨rfl, rfl⟩ := changes_unique changes_changingEvent hchanges
    exact ⟨by decide, by decide⟩

/-- A run in block 8, after a start from block 4 and another one from block 3. -/
def changingRun : MonitorRun := ⟨10, none, fun _ => false, [calmEnv], .unmarked⟩

/-- The node after its starts, and its fetch. -/
def changingNode : MonitorNode :=
  (MonitorNode.created changingHub 4).step changingHub changingAbi [changingLog] (.start 3)

def changingFetch : Fetch := changingNode.fetch changingHub changingRun

theorem intact_changingFetch : changingFetch.Intact changingAbi [changingLog] := by
  intro log hlog _ _
  obtain rfl := List.mem_singleton.mp hlog
  refine ⟨fun c hc => ?_, fun j _ => ⟨rfl, fun l hl _ _ _ _ => ?_⟩⟩
  · have hapart : changingHub.Apart changingNode.contracts :=
      MonitorNode.apart_start lawful_changingHub
    obtain rfl := eq_hub_of_addressToContractName hapart.others (by decide) (Option.mem_def.mp hc)
    rfl
  · obtain rfl := List.mem_singleton.mp hl
    decide

theorem getPastEvents_changingFetch :
    changingFetch.getPastEvents changingAbi [changingLog] = [changingEvent] := by
  have hrest : changingFetch.fetchChunks changingAbi [changingLog] 9 1 = [] := by
    rw [Fetch.fetchChunks]
    rfl
  have hlogs : changingFetch.getLogs changingAbi [changingLog] 1 8 = [changingLog] := rfl
  have hread : changingFetch.readLogs changingAbi [changingLog] = ([changingEvent], true) := rfl
  have hmissed : changingFetch.eventsMissed = false := rfl
  have hfrom : changingFetch.lastCheckedBlock + 1 ≤ changingFetch.currentBlock := by decide
  rw [Fetch.getPastEvents, hmissed, if_neg Bool.false_ne_true, Fetch.fetchChunks, if_pos hfrom]
  change (if (changingFetch.readLogs changingAbi
      (changingFetch.getLogs changingAbi [changingLog] 1 8)).2 then
    (changingFetch.readLogs changingAbi (changingFetch.getLogs changingAbi [changingLog] 1 8)).1 ++
      changingFetch.fetchChunks changingAbi [changingLog] 9 1
    else (changingFetch.readLogs changingAbi
      (changingFetch.getLogs changingAbi [changingLog] 1 8)).1) = _
  rw [hlogs, hread, hrest]
  rfl

theorem pending_changingNode :
    (changingNode.loop changingHub changingAbi [changingLog] changingRun).loop.pending = [] := by
  have hbatch : changingNode.batch changingHub changingAbi [changingLog] changingRun =
      [changingEvent] := congrArg (fun es => getAllUnprocessedBlockchainEvents
        (insertBlockchainEvents changingNode.rows es)) getPastEvents_changingFetch
  have hstart : (changingNode.loopStart changingHub changingAbi [changingLog] changingRun).loop =
      DependentLoop.start [changingEvent] := by
    rw [MonitorNode.loopStart, hbatch]
    rfl
  have hfirst : (DependentLoop.start [changingEvent]).dependentEvents[
      (DependentLoop.start [changingEvent]).index]? = some changingEvent := rfl
  have hvalid : changingEvent.contractAddress ∉
    (DependentLoop.start [changingEvent]).invalidatedContracts := List.not_mem_nil
  have henvs : changingRun.envs = [calmEnv] := rfl
  rw [MonitorNode.loop, henvs, Monitor.iterate, Monitor.next, hstart, hfirst]
  simp only [if_neg hvalid]
  rfl

theorem safeRun_changingRun : (MonitorNode.created changingHub 4).SafeRun changingHub changingAbi
    [changingLog] ([.start 3] ++ [.listen changingRun]) := by
  have hcalm : ∀ env ∈ changingRun.envs, ∀ i, env.initializeThrows i = false := by
    intro env henv i
    obtain rfl := List.mem_singleton.mp henv
    rfl
  have hstart : ((MonitorNode.created changingHub 4).lastCheckedBlock.getD 0) ≤ 3 := by decide
  exact ⟨hstart, ⟨hcalm, fun _ => ⟨intact_changingFetch, rfl, pending_changingNode⟩⟩, trivial⟩

theorem addresses_current_changingRun :
    ((MonitorNode.created changingHub 4).run changingHub changingAbi [changingLog]
      ([.start 3] ++ [.listen changingRun])).contracts .knowledgeCollectionStorage =
        some (units "0xB") := by
  refine addresses_current lawful_changingHub safeRun_changingRun (.inl rfl)
    ⟨by decide, by decide⟩ ?_ (by decide) ?_ rfl
  · intro step hstep
    obtain rfl := List.mem_singleton.mp hstep
    decide
  · exact nofun

end OtNode
