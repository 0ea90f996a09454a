import OtNode.Listener.Replace

/-! The hub, and what becomes of the changes it reports in a run of the listener.

    A change is handled in its turn, at least once, whatever the handlers of the other events
    discover or throw, and no handler takes one out of the loop or out of the table. -/

namespace OtNode

open Utf BlockchainEvent

/-! ### The hub -/

/-- A change of a contract's address, as its handler reads it. -/
def BlockchainEvent.Changes (e : BlockchainEvent) (c : MonitoredContract) (a : Address) : Prop :=
  e.event.isChange = true ∧ parseChange e.data = some (c, a)

/-- The place of a log on the chain. -/
def Log.place (log : Log) : ℕ ×ₗ (ℕ ×ₗ ℕ) :=
  toLex (log.blockNumber, toLex (log.transactionIndex, log.logIndex))

/-- The hub of a blockchain: its address, and the contracts it lists at a block. -/
structure Hub where
  blockchain : JsString
  address : Address
  contracts : ℤ → Contracts

namespace Hub

variable (hub : Hub) (abi : Abi) (chain : List Log)

/-- The event of a log of the hub. -/
def toEvent (parsed : MonitoredEvent × JsString) (log : Log) : BlockchainEvent where
  blockchain := hub.blockchain
  contract := .hub
  contractAddress := log.address
  event := parsed.1
  data := parsed.2
  blockNumber := log.blockNumber
  transactionIndex := log.transactionIndex
  logIndex := log.logIndex

/-- A change that the hub reports. -/
def Reported (e : BlockchainEvent) : Prop :=
  e.event.isChange = true ∧ ∃ log ∈ chain, SameAddress hub.address log.address ∧
    ∃ parsed, abi.parseLog .hub log = some parsed ∧ e = hub.toEvent parsed log

/-- The changes of a contract that the hub reports. -/
def changes (c : MonitoredContract) : Set BlockchainEvent :=
  {e | hub.Reported abi chain e ∧ ∃ a, e.Changes c a}

/-- How the hub, the chain and the ABIs behave. A log has a place of its own, and is parsed by its
    topic to an event of its contract. The hub reports every address it gives a contract by an
    event, and a contract it lists has the last address reported. The hub itself stays where it is,
    and no contract has its address. -/
structure Lawful : Prop where
  places : ∀ log ∈ chain, ∀ log' ∈ chain, log.place = log'.place → log = log'
  parses : ∀ {c log parsed}, abi.parseLog c log = some parsed →
    parsed.1 ∈ c.events ∧ (parsed.1, log.topic) ∈ abi.filters c
  latest : ∀ {c e a n b}, e ∈ hub.changes abi chain c → e.Changes c a → (e.blockNumber : ℤ) ≤ n →
    (∀ e' ∈ hub.changes abi chain c, (e'.blockNumber : ℤ) ≤ n → e'.place ≤ e.place) →
      hub.contracts n c = some b → a = b
  unchanged : ∀ {c m n b}, m ≤ n →
    (∀ e ∈ hub.changes abi chain c, (e.blockNumber : ℤ) ≤ n → (e.blockNumber : ℤ) ≤ m) →
      hub.contracts n c = some b → hub.contracts m c = some b
  apart : ∀ {n c a}, c ≠ .hub → hub.contracts n c = some a → ¬ SameAddress hub.address a
  reported : ∀ {c e a}, e ∈ hub.changes abi chain c → e.Changes c a →
    c ≠ .hub ∧ ¬ SameAddress hub.address a

end Hub

/-! ### What a fetch finds -/

namespace Fetch

variable {abi : Abi} {chain : List Log} {q : Fetch}

theorem exists_queried {a : Address} {c : MonitoredContract}
    (h : q.addressToContractName abi a = some c) :
    c ∈ q.contractNames ∧ ∃ b, q.contracts c = some b ∧ toLowerCase b = a := by
  obtain ⟨p, hp, rfl⟩ := Option.map_eq_some_iff.mp h
  obtain ⟨hmem, -, hb⟩ := mem_queried.mp (List.mem_reverse.mp (List.mem_of_find?_eq_some hp))
  have hlower := List.find?_some hp
  exact ⟨hmem, p.2, hb, of_decide_eq_true hlower⟩

end Fetch

section Fetches

variable {hub : Hub} {abi : Abi} {chain : List Log} {q : Fetch}

/-- A contract whose logs are found under the address of the hub is the hub. -/
theorem eq_hub_of_addressToContractName {log : Log} {c : MonitoredContract}
    (hapart : ∀ c a, c ≠ .hub → q.contracts c = some a → ¬ SameAddress hub.address a)
    (hlog : SameAddress hub.address log.address)
    (h : q.addressToContractName abi log.address = some c) : c = .hub := by
  by_contra hne
  obtain ⟨-, b, hb, hlower⟩ := Fetch.exists_queried h
  refine hapart c b hne hb (hlog.trans ?_)
  rw [← hlower, toLowerCase_idem]

/-- Changes that a fetch finds are reported by the hub. -/
theorem reported_of_mem_getPastEvents (hlaws : hub.Lawful abi chain)
    (hblockchain : q.blockchain = hub.blockchain) (hhub : q.contracts .hub = some hub.address)
    {e : BlockchainEvent} (h : e ∈ q.getPastEvents abi chain) (hchange : e.event.isChange = true) :
    hub.Reported abi chain e ∧ q.Covers e.blockNumber ∧ .hub ∈ q.contractNames := by
  obtain ⟨log, hlog, c, parsed, hc, hparse, rfl, hcovers⟩ := Fetch.mem_getPastEvents h
  obtain ⟨hnames, b, hb, hlower⟩ := Fetch.exists_queried hc
  have hevents : parsed.1 ∈ c.events := (hlaws.parses hparse).1
  cases c with
  | hub =>
    obtain rfl := Option.some.inj (hhub.symm.trans hb)
    refine ⟨⟨hchange, log, hlog, ?_, parsed, hparse, ?_⟩, hcovers, hnames⟩
    · rw [SameAddress, ← hlower, toLowerCase_idem]
    · rw [Fetch.toEvent, Hub.toEvent, hblockchain]
  | parametersStorage =>
    have hkind : parsed.1 = .parameterChanged := by simpa [MonitoredContract.events] using hevents
    have hno : parsed.1.isChange = true := hchange
    rw [hkind] at hno
    cases hno
  | knowledgeCollectionStorage =>
    have hkind : parsed.1 = .knowledgeCollectionCreated := by
      simpa [MonitoredContract.events] using hevents
    have hno : parsed.1.isChange = true := hchange
    rw [hkind] at hno
    cases hno

/-- An intact fetch of the hub's events finds every change that the hub reports in its range. -/
theorem mem_getPastEvents_of_reported (hlaws : hub.Lawful abi chain)
    (hblockchain : q.blockchain = hub.blockchain) (hhub : q.contracts .hub = some hub.address)
    (hapart : ∀ c a, c ≠ .hub → q.contracts c = some a → ¬ SameAddress hub.address a)
    (hnames : .hub ∈ q.contractNames) (hfilter : ∀ kind, kind ∈ q.eventsToFilter)
    (hintact : q.Intact abi chain) (hmissed : q.eventsMissed = false) {e : BlockchainEvent}
    (h : hub.Reported abi chain e) (hcovers : q.Covers e.blockNumber) :
    e ∈ q.getPastEvents abi chain := by
  obtain ⟨-, log, hlog, haddress, parsed, hparse, rfl⟩ := h
  have htopic : log.topic ∈ q.contractTopics abi .hub :=
    List.mem_map.mpr ⟨_, List.mem_filter.mpr
      ⟨(hlaws.parses hparse).2, decide_eq_true (hfilter _)⟩, rfl⟩
  have hmonitors : q.Monitors abi log := ⟨.hub, hnames, hub.address, hhub, haddress, htopic⟩
  obtain ⟨c, parsed', hmem⟩ := Fetch.getPastEvents_hands (hintact log hlog hmonitors hcovers)
    hmissed hlog hmonitors hcovers
  obtain ⟨log', hlog', c', parsed'', hc', hparse', heq, -⟩ := Fetch.mem_getPastEvents hmem
  simp only [Fetch.toEvent, BlockchainEvent.mk.injEq, true_and] at heq
  obtain ⟨rfl, -, hkind, hdata, hblock, htransaction, hindex⟩ := heq
  obtain rfl : log = log' := by
    refine hlaws.places log hlog log' hlog' ?_
    rw [Log.place, Log.place, hblock, htransaction, hindex]
  obtain rfl := eq_hub_of_addressToContractName hapart haddress hc'
  obtain rfl := Option.some.inj (hparse.symm.trans hparse')
  have hevent : q.toEvent .hub parsed' log = hub.toEvent parsed log := by
    rw [Fetch.toEvent, Hub.toEvent, hblockchain, hkind, hdata]
  exact hevent ▸ hmem

end Fetches

/-! ### What a handler does to the addresses -/

section Handler

variable {abi : Abi} {chain : List Log} {currentBlock : ℤ} {env : HandlerEnv} {s : Monitor}
  {event : BlockchainEvent} {r : Replacement}

/-- The address is replaced, whatever later call throws: the old one is invalidated, and rows of
    other contracts stay. -/
structure Replaces (abi : Abi) (chain : List Log) (currentBlock : ℤ) (env : HandlerEnv)
    (w : MonitorTables) (r : Replacement) (result : MonitorTables × HandlerEffect) : Prop where
  contracts : result.1.contracts = Function.update w.contracts r.contract (some r.new)
  invalidated : result.2.invalidated = [r.old]
  discovered : ∀ x ∈ result.2.discovered,
    x ∈ (r.fetch currentBlock w.contracts env).getPastEvents abi chain
  inserted : ∀ row ∈ result.1.rows, row ∈ w.rows ∨
    row.event ∈ (r.fetch currentBlock w.contracts env).getPastEvents abi chain
  kept : ∀ row ∈ w.rows, row.event.contract ≠ r.contract → row ∈ result.1.rows

theorem replaces_of_replacement {kind : Initialization} {w : MonitorTables}
    (h : replacement w.contracts event = some r) (hcalm : ∀ i, env.initializeThrows i = false) :
    Replaces abi chain currentBlock env w r
      (replaceContract abi chain currentBlock kind env w event) := by
  have hkept : ∀ row ∈ w.rows, row.event.contract ≠ r.contract →
      row ∈ w.rows.filter fun row => !removesRow r.contract event.contractAddress
        event.blockNumber event.transactionIndex row.event := by
    intro row hrow hne
    refine List.mem_filter.mpr ⟨hrow, ?_⟩
    simp [removesRow, hne]
  unfold replaceContract
  rw [hcalm, h]
  simp only [Bool.false_eq_true, if_false]
  split_ifs
  · exact ⟨rfl, rfl, List.nil_subset _, fun row hrow => .inl hrow, fun row hrow _ => hrow⟩
  · exact ⟨rfl, rfl, List.nil_subset _, fun row hrow => .inl (List.mem_of_mem_filter hrow), hkept⟩
  · exact ⟨rfl, rfl, List.nil_subset _, fun row hrow => .inl (List.mem_of_mem_filter hrow), hkept⟩
  · refine ⟨rfl, rfl, fun x hx => hx, ?_, ?_⟩
    · intro row hrow
      rcases List.mem_append.mp hrow with hrow | hrow
      · exact .inl (List.mem_of_mem_filter hrow)
      · obtain ⟨x, hx, rfl⟩ := List.mem_map.mp hrow
        exact .inr hx
    · exact fun row hrow hne => List.mem_append_left _ (hkept row hrow hne)

/-- The replacement an event asks for, of a contract in the map. -/
theorem replacement_of_asked (h : s.asked event = some r) :
    event.Changes r.contract r.new ∧ s.tables.contracts r.contract = some r.old ∧
      replacement s.tables.contracts event = some r := by
  unfold Monitor.asked at h
  split_ifs at h with hchange
  have hsome := h
  unfold replacement at h
  split at h
  · cases h
  · next c a hparse =>
    split at h
    · cases h
    · next old hold =>
      split_ifs at h
      obtain rfl := Option.some.inj h
      exact ⟨⟨hchange, hparse⟩, hold, hsome⟩

/-- An event that asks for no replacement is of a contract that is not in the map, or that has the
    address. -/
theorem contracts_of_not_asked {c : MonitoredContract} {a : Address} (h : s.asked event = none)
    (hchanges : event.Changes c a) :
    s.tables.contracts c = none ∨ s.tables.contracts c = some a := by
  rw [Monitor.asked, if_pos hchanges.1, replacement, hchanges.2] at h
  simp only at h
  split at h
  · next hnone => exact .inl hnone
  · next old hold =>
    split_ifs at h with heq
    exact .inr (heq ▸ hold)

theorem replaces_of_asked (h : s.asked event = some r)
    (hcalm : ∀ i, env.initializeThrows i = false) :
    Replaces abi chain currentBlock env s.tables r
      (processEvent abi chain currentBlock env s.tables event) := by
  obtain ⟨⟨hchange, -⟩, -, hreplacement⟩ := replacement_of_asked h
  unfold processEvent
  cases hevent : event.event with
  | newContract => exact replaces_of_replacement hreplacement hcalm
  | contractChanged => exact replaces_of_replacement hreplacement hcalm
  | newAssetStorage => exact replaces_of_replacement hreplacement hcalm
  | assetStorageChanged => exact replaces_of_replacement hreplacement hcalm
  | parameterChanged =>
    rw [hevent] at hchange
    cases hchange
  | knowledgeCollectionCreated =>
    rw [hevent] at hchange
    cases hchange

end Handler

/-! ### The addresses over a run -/

/-- The iterations of the loop, with what each meets. -/
def Monitor.iterate (abi : Abi) (chain : List Log) (currentBlock : ℤ) :
    List HandlerEnv → Monitor → Monitor
  | [], s => s
  | env :: envs, s =>
    match s.next abi chain currentBlock env with
    | none => s
    | some s' => iterate abi chain currentBlock envs s'

/-- The map has the address of the hub for the hub, and for no other contract. -/
structure Hub.Apart (hub : Hub) (contracts : Contracts) : Prop where
  itself : contracts .hub = some hub.address
  others : ∀ c a, c ≠ .hub → contracts c = some a → ¬ SameAddress hub.address a

/-- What a handler does, as far as the addresses and the changes in the table go. -/
structure Takes (hub : Hub) (abi : Abi) (chain : List Log) (w : MonitorTables)
    (event : BlockchainEvent) (result : MonitorTables × HandlerEffect) : Prop where
  changed : ∀ {c a}, event.Changes c a → w.contracts c ≠ none → result.1.contracts c = some a
  unchanged : ∀ {c}, (∀ a, ¬ event.Changes c a) → result.1.contracts c = w.contracts c
  known : ∀ c, result.1.contracts c = none ↔ w.contracts c = none
  apart : hub.Apart result.1.contracts
  invalidated : ∀ a ∈ result.2.invalidated, ¬ SameAddress hub.address a
  discovered : ∀ x ∈ result.2.discovered, x.event.isChange = false
  kept : ∀ row ∈ w.rows, hub.Reported abi chain row.event → row ∈ result.1.rows
  stored : ∀ row ∈ result.1.rows, row.event.event.isChange = true → row ∈ w.rows

/-- The address of a contract during a run: the one before it, while the changes are pending, or
    that of a change that comes after those that are not. -/
def Monitor.Taken (batch : List BlockchainEvent) (old : Option Address) (c : MonitoredContract)
    (s : Monitor) : Prop :=
  (s.tables.contracts c = old ∧ ∀ x ∈ batch, (∃ a, x.Changes c a) → x ∈ s.loop.pending) ∨
    ∃ e ∈ batch, ∃ a, e.Changes c a ∧ s.tables.contracts c = some a ∧
      (∀ x ∈ batch, (∃ a, x.Changes c a) → x ∈ s.loop.pending ∨ x.place ≤ e.place) ∧
      ∀ x ∈ s.loop.pending, x.event.isChange = true → e.place ≤ x.place

/-- What holds between the iterations of a run: the changes that are pending are those of the batch,
    and no handler takes them out of the loop or out of the table. -/
structure Monitor.Follows (hub : Hub) (abi : Abi) (chain : List Log) (batch : List BlockchainEvent)
    (w : MonitorTables) (s : Monitor) : Prop where
  sorted : s.loop.pending.Pairwise Le
  own : ∀ x ∈ s.loop.pending, x.event.isChange = true → x ∈ batch
  waiting : ∀ x ∈ s.loop.newDependentEvents, x.event.isChange = false
  invalidated : ∀ a ∈ s.loop.invalidatedContracts, ¬ SameAddress hub.address a
  apart : hub.Apart s.tables.contracts
  known : ∀ c, s.tables.contracts c = none ↔ w.contracts c = none
  kept : ∀ row ∈ w.rows, hub.Reported abi chain row.event → row ∈ s.tables.rows
  stored : ∀ row ∈ s.tables.rows, row.event.event.isChange = true → row ∈ w.rows
  taken : ∀ c, w.contracts c ≠ none → s.Taken batch (w.contracts c) c

section Loop

variable {hub : Hub} {abi : Abi} {chain : List Log} {currentBlock : ℤ} {env : HandlerEnv}
  {s s' : Monitor} {event x : BlockchainEvent} {rest batch : List BlockchainEvent}
  {c : MonitoredContract} {a : Address} {w : MonitorTables}

theorem sameAddress_of_reported (h : hub.Reported abi chain x) :
    SameAddress hub.address x.contractAddress := by
  obtain ⟨-, log, -, hsame, parsed, -, rfl⟩ := h
  exact hsame

theorem contract_of_reported (h : hub.Reported abi chain x) : x.contract = .hub := by
  obtain ⟨-, log, -, -, parsed, -, rfl⟩ := h
  rfl

theorem blockchain_of_reported (h : hub.Reported abi chain x) : x.blockchain = hub.blockchain := by
  obtain ⟨-, log, -, -, parsed, -, rfl⟩ := h
  rfl

theorem changes_unique {c' : MonitoredContract} {a' : Address} (h : event.Changes c a)
    (h' : event.Changes c' a') : c = c' ∧ a = a' := by
  have heq := h.2.symm.trans h'.2
  simpa using heq

/-- STEP (handler): the handler of a change gives the contract its address, if it has one. -/
theorem takes_processEvent (hlaws : hub.Lawful abi chain)
    (hcalm : ∀ i, env.initializeThrows i = false)
    (hreported : event.event.isChange = true → hub.Reported abi chain event)
    (hapart : hub.Apart s.tables.contracts) :
    Takes hub abi chain s.tables event
      (processEvent abi chain currentBlock env s.tables event) := by
  rcases hasked : s.asked event with - | r
  · rw [processEvent_of_not_asked hasked]
    refine ⟨?_, fun _ => rfl, fun _ => Iff.rfl, hapart, nofun, nofun, fun _ h _ => h,
      fun _ h _ => h⟩
    intro c a hchanges hknown
    exact (contracts_of_not_asked hasked hchanges).resolve_left hknown
  · obtain ⟨hchanges, hold, -⟩ := replacement_of_asked hasked
    have hreplaces : Replaces abi chain currentBlock env s.tables r
      (processEvent abi chain currentBlock env s.tables event) := replaces_of_asked hasked hcalm
    have hevent := hreported hchanges.1
    obtain ⟨hne, hnew⟩ := hlaws.reported ⟨hevent, r.new, hchanges⟩ hchanges
    -- the new address is asked for the events of its contract, which is not the hub
    have hfound : ∀ x ∈ (r.fetch currentBlock s.tables.contracts env).getPastEvents abi chain,
        x.event.isChange = false := by
      intro x hx
      by_contra hchange
      have hhub : (r.fetch currentBlock s.tables.contracts env).contracts .hub =
          some hub.address := (Function.update_of_ne hne.symm ..).trans hapart.itself
      have hblockchain : (r.fetch currentBlock s.tables.contracts env).blockchain =
          hub.blockchain := by
        rw [Replacement.fetch, event_of_asked hasked, blockchain_of_reported hevent]
      have hmem := (reported_of_mem_getPastEvents hlaws hblockchain hhub hx
        (Bool.eq_true_of_not_eq_false hchange)).2.2
      exact hne (List.mem_singleton.mp hmem).symm
    refine ⟨?_, ?_, ?_, ⟨?_, ?_⟩, ?_, fun x hx => hfound x (hreplaces.discovered x hx), ?_, ?_⟩
    · intro c a hchanges' _
      obtain ⟨rfl, rfl⟩ := changes_unique hchanges hchanges'
      rw [hreplaces.contracts, Function.update_self]
    · intro c hno
      rw [hreplaces.contracts, Function.update_of_ne]
      rintro rfl
      exact hno _ hchanges
    · intro c
      rw [hreplaces.contracts]
      by_cases hc : c = r.contract
      · simp [hc, hold]
      · rw [Function.update_of_ne hc]
    · rw [hreplaces.contracts, Function.update_of_ne hne.symm, hapart.itself]
    · intro c a hc ha
      rw [hreplaces.contracts] at ha
      by_cases heq : c = r.contract
      · rw [heq, Function.update_self] at ha
        exact Option.some.inj ha ▸ hnew
      · rw [Function.update_of_ne heq] at ha
        exact hapart.others c a hc ha
    · intro a ha
      rw [hreplaces.invalidated] at ha
      exact List.mem_singleton.mp ha ▸ hapart.others _ _ hne hold
    · intro row hrow hof
      refine hreplaces.kept row hrow ?_
      rw [contract_of_reported hof]
      exact hne.symm
    · intro row hrow hchange
      rcases hreplaces.inserted row hrow with hearlier | hfetched
      · exact hearlier
      · rw [hfound _ hfetched] at hchange
        cases hchange

/-- The changes that are pending after an event was handled: the ones there were, but for the event.
    -/
theorem mem_pending_handle {effect : HandlerEffect} (hpending : s.loop.pending = event :: rest)
    (hsorted : s.loop.pending.Pairwise Le)
    (hwaiting : ∀ x ∈ s.loop.newDependentEvents, x.event.isChange = false)
    (hchange : x.event.isChange = true) :
    (x ∈ rest → x ∈ (s.loop.handle event effect).pending) ∧
      (x ∈ (s.loop.handle event effect).pending → x ∈ event :: rest) := by
  obtain ⟨head, tail, htail, hperm, -, hhead⟩ :=
    DependentLoop.pending_handle effect hpending hsorted
  rw [hpending] at hsorted
  have hnew : x ∉ s.loop.newDependentEvents := by
    intro hmem
    rw [hwaiting x hmem] at hchange
    cases hchange
  rw [htail]
  constructor
  · intro hrest
    rcases hhead with ⟨rfl, -⟩ | ⟨hlt, -⟩
    · exact (List.Perm.cons_inv hperm).mem_iff.mpr (List.mem_append_left _ hrest)
    · have hmem : x ∈ head :: tail :=
        hperm.mem_iff.mpr (List.mem_append_left _ (List.mem_cons_of_mem _ hrest))
      rcases List.mem_cons.mp hmem with rfl | hmem
      · have hle := le_iff.mp (List.rel_of_pairwise_cons hsorted hrest)
        exact absurd hlt (not_lt.mpr hle)
      · exact hmem
  · intro hmem
    have hall := hperm.mem_iff.mp (List.mem_cons_of_mem head hmem)
    exact (List.mem_append.mp hall).resolve_right hnew

theorem place_le_of_mem (hsorted : (event :: rest).Pairwise Le) (h : x ∈ event :: rest) :
    event.place ≤ x.place := by
  rcases List.mem_cons.mp h with rfl | hrest
  · exact le_rfl
  · exact le_iff.mp (List.rel_of_pairwise_cons hsorted hrest)

/-- STEP (skip): an event that is skipped is no change. -/
theorem follows_skip (h : s.Follows hub abi chain batch w)
    (hpending : s.loop.pending = event :: rest) (hno : event.event.isChange = false) :
    Monitor.Follows hub abi chain batch w { s with loop := s.loop.skip event } := by
  have hskip : (s.loop.skip event).pending = rest := DependentLoop.pending_skip hpending
  have hsorted := h.sorted
  rw [hpending] at hsorted
  have hrest : ∀ x ∈ s.loop.pending, x.event.isChange = true → x ∈ rest := by
    intro x hx hchange
    rw [hpending] at hx
    refine (List.mem_cons.mp hx).resolve_left ?_
    rintro rfl
    rw [hno] at hchange
    cases hchange
  have hsub : ∀ x ∈ rest, x ∈ s.loop.pending := by
    intro x hx
    rw [hpending]
    exact List.mem_cons_of_mem _ hx
  refine ⟨by rw [hskip]; exact hsorted.of_cons, ?_, h.waiting, h.invalidated, h.apart, h.known,
    h.kept, h.stored, ?_⟩
  · intro x hx
    rw [hskip] at hx
    exact h.own x (hsub x hx)
  · intro c hknown
    rcases h.taken c hknown with ⟨hold, hleft⟩ | ⟨e, he, a, hchanges, ha, hleft, hlater⟩
    · refine .inl ⟨hold, fun x hx hchanges => ?_⟩
      rw [hskip]
      exact hrest x (hleft x hx hchanges) hchanges.choose_spec.1
    · refine .inr ⟨e, he, a, hchanges, ha, fun x hx hchanges => ?_, fun x hx => ?_⟩
      · rw [hskip]
        exact (hleft x hx hchanges).imp_left fun hmem => hrest x hmem hchanges.choose_spec.1
      · rw [hskip] at hx
        exact hlater x (hsub x hx)

/-- STEP (address): a handled event gives its contract the address, and leaves the others. -/
theorem taken_handle (h : s.Follows hub abi chain batch w)
    (hpending : s.loop.pending = event :: rest) {result : MonitorTables × HandlerEffect}
    (htakes : Takes hub abi chain s.tables event result) (hknown : w.contracts c ≠ none)
    (replaced : List Replacement) (unreached : List EventRow) :
    Monitor.Taken batch (w.contracts c) c
      ⟨result.1, s.loop.handle event result.2, replaced, unreached⟩ := by
  have hsorted := h.sorted
  rw [hpending] at hsorted
  have hmem {x : BlockchainEvent} (hchange : x.event.isChange = true) :
      (x ∈ rest → x ∈ (s.loop.handle event result.2).pending) ∧
        (x ∈ (s.loop.handle event result.2).pending → x ∈ event :: rest) :=
    mem_pending_handle hpending h.sorted h.waiting hchange
  by_cases hevent : ∃ a, event.Changes c a
  · obtain ⟨a, ha⟩ := hevent
    have hown : event ∈ batch := h.own event (by rw [hpending]; exact List.mem_cons_self) ha.1
    have hnow : s.tables.contracts c ≠ none := mt (h.known c).mp hknown
    have hhead {x : BlockchainEvent} (hx : x ∈ s.loop.pending) (hchange : x.event.isChange = true) :
        x ∈ (s.loop.handle event result.2).pending ∨ x.place ≤ event.place := by
      rw [hpending] at hx
      rcases List.mem_cons.mp hx with rfl | hrest
      · exact .inr le_rfl
      · exact .inl ((hmem hchange).1 hrest)
    refine .inr ⟨event, hown, a, ha, htakes.changed ha hnow, ?_, ?_⟩
    · intro x hx hchanges
      obtain ⟨b, hchange, -⟩ := id hchanges
      rcases h.taken c hknown with ⟨-, hleft⟩ | ⟨e, -, -, -, -, hleft, hlater⟩
      · exact hhead (hleft x hx hchanges) hchange
      · rcases hleft x hx hchanges with hx | hle
        · exact hhead hx hchange
        · exact .inr (hle.trans (hlater event (by rw [hpending]; exact List.mem_cons_self) ha.1))
    · exact fun x hx hchange => place_le_of_mem hsorted ((hmem hchange).2 hx)
  · have hsame : result.1.contracts c = s.tables.contracts c :=
      htakes.unchanged fun a ha => hevent ⟨a, ha⟩
    have hrest {x : BlockchainEvent} (hx : x ∈ s.loop.pending) (hchanges : ∃ a, x.Changes c a) :
        x ∈ (s.loop.handle event result.2).pending := by
      rw [hpending] at hx
      refine (hmem hchanges.choose_spec.1).1 ((List.mem_cons.mp hx).resolve_left ?_)
      rintro rfl
      exact hevent hchanges
    rcases h.taken c hknown with ⟨hold, hleft⟩ | ⟨e, he, a, hchanges, ha, hleft, hlater⟩
    · exact .inl ⟨hsame.trans hold, fun x hx hchanges => hrest (hleft x hx hchanges) hchanges⟩
    · refine .inr ⟨e, he, a, hchanges, hsame.trans ha, fun x hx hchanges => ?_,
        fun x hx hchange => ?_⟩
      · exact (hleft x hx hchanges).imp_left fun hx => hrest hx hchanges
      · exact hlater x (by rw [hpending]; exact (hmem hchange).2 hx) hchange

/-- STEP (handle): so does an event that is handled. -/
theorem follows_handle (hlaws : hub.Lawful abi chain)
    (hcalm : ∀ i, env.initializeThrows i = false)
    (hbatch : ∀ x ∈ batch, x.event.isChange = true → hub.Reported abi chain x)
    (h : s.Follows hub abi chain batch w) (hpending : s.loop.pending = event :: rest)
    (replaced : List Replacement) (unreached : List EventRow) :
    Monitor.Follows hub abi chain batch w
      ⟨(processEvent abi chain currentBlock env s.tables event).1,
        s.loop.handle event (processEvent abi chain currentBlock env s.tables event).2,
        replaced, unreached⟩ := by
  have hevent : event ∈ s.loop.pending := by
    rw [hpending]
    exact List.mem_cons_self
  have htakes : Takes hub abi chain s.tables event
      (processEvent abi chain currentBlock env s.tables event) :=
    takes_processEvent hlaws hcalm
      (fun hchange => hbatch event (h.own event hevent hchange) hchange) h.apart
  refine ⟨?_, ?_, ?_, ?_, htakes.apart, fun c => (htakes.known c).trans (h.known c), ?_, ?_,
    fun c hknown => taken_handle h hpending htakes hknown replaced unreached⟩
  · obtain ⟨head, tail, htail, -, hsorted, -⟩ :=
      DependentLoop.pending_handle
        (processEvent abi chain currentBlock env s.tables event).2 hpending h.sorted
    rw [htail]
    exact hsorted.of_cons
  · intro x hx hchange
    refine h.own x ?_ hchange
    rw [hpending]
    exact (mem_pending_handle hpending h.sorted h.waiting hchange).2 hx
  · intro x hx
    rw [DependentLoop.newDependentEvents_handle] at hx
    exact htakes.discovered x hx
  · intro a ha
    exact (List.mem_append.mp ha).elim (h.invalidated a) (htakes.invalidated a)
  · exact fun row hrow hof => htakes.kept row (h.kept row hrow hof) hof
  · exact fun row hrow hchange => h.stored row (htakes.stored row hrow hchange) hchange

/-- RUN: the loop follows the changes, whatever its handlers meet. -/
theorem follows_iterate (hlaws : hub.Lawful abi chain) {envs : List HandlerEnv}
    (hcalm : ∀ env ∈ envs, ∀ i, env.initializeThrows i = false)
    (hbatch : ∀ x ∈ batch, x.event.isChange = true → hub.Reported abi chain x)
    (h : s.Follows hub abi chain batch w) :
    (s.iterate abi chain currentBlock envs).Follows hub abi chain batch w := by
  induction envs generalizing s with
  | nil => exact h
  | cons env envs ih =>
    rw [Monitor.iterate]
    split
    · exact h
    · next s' hnext =>
      refine ih (fun env henv => hcalm env (List.mem_cons_of_mem _ henv)) ?_
      obtain ⟨event, hevent, hcases⟩ := Monitor.next_cases hnext
      obtain ⟨hlt, hget⟩ := List.getElem?_eq_some_iff.mp hevent
      have hpending : s.loop.pending =
          event :: s.loop.dependentEvents.drop (s.loop.index + 1) := by
        rw [← hget]
        exact List.drop_eq_getElem_cons hlt
      rcases hcases with ⟨hinvalid, rfl⟩ | ⟨-, rfl⟩
      · refine follows_skip h hpending ?_
        by_contra hchange
        have hreported := hbatch event
          (h.own event (by rw [hpending]; exact List.mem_cons_self)
            (Bool.eq_true_of_not_eq_false hchange)) (Bool.eq_true_of_not_eq_false hchange)
        exact h.invalidated _ hinvalid (sameAddress_of_reported hreported)
      · exact follows_handle hlaws (hcalm env List.mem_cons_self) hbatch h hpending _ _

end Loop

end OtNode
