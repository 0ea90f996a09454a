import OtNode.Lib.Table
import OtNode.Lib.Utf
import Mathlib.Data.Set.Basic

/-! The check of the local sharding table against the sharding tables of the blockchains.

    `ShardingTableCheckCommand` compares the numbers of nodes, and pulls the table of a blockchain
    anew when they differ. The checks of the blockchains run side by side in one transaction. -/

namespace OtNode

/-- `NodeInfo` of the sharding table contract. -/
structure NodeInfo where
  identityId : ℕ
  nodeId : String
  ask : ℕ
  stake : ℕ
  deriving DecidableEq

namespace NodeInfo

/-- What a page is filled up with. -/
def absent : NodeInfo := ⟨0, "0x", 0, 0⟩

/-- The entry is a node. -/
def present (node : NodeInfo) : Bool := node.nodeId != "0x"

end NodeInfo

/-- The contract keeps a list that is linked by identity ids. A page goes from a node on, and may be
    filled up. -/
structure ShardingTableContract where
  nodes : List NodeInfo
  getShardingTablePage : ℕ → ℕ → Option (List NodeInfo)
  nodup : (nodes.map (·.identityId)).Nodup
  identified : ∀ node ∈ nodes, node.identityId ≠ 0
  page : ∀ {startingIdentityId nodesNum entries},
    getShardingTablePage startingIdentityId nodesNum = some entries → ∃ i filled,
      nodes[i]?.map (·.identityId) = some startingIdentityId ∧
        entries = (nodes.drop i).take nodesNum ++ List.replicate filled .absent

namespace ShardingTableContract

variable (c : ShardingTableContract)

/-- `getShardingTableLength`. -/
def getShardingTableLength : ℕ := c.nodes.length

/-- `getShardingTableHead`: no node has the identity id 0. -/
def getShardingTableHead : ℕ := (c.nodes[0]?.map (·.identityId)).getD 0

end ShardingTableContract

/-- A row of the `shard` table. -/
structure Shard where
  peerId : String
  blockchainId : String
  ask : String
  stake : String
  sha256 : String
  lastSeen : ℕ := 0
  lastDialed : ℕ := 0
  deriving DecidableEq

/-- The primary key. -/
def Shard.key (row : Shard) : String × String := (row.peerId, row.blockchainId)

/-- The `shard` table. -/
abbrev ShardTable := Table Shard.key

namespace ShardRepository

/-- The keys of a blockchain. -/
def ofBlockchain (blockchainId : String) (key : String × String) : Bool := key.2 == blockchainId

/-- `updateOnDuplicate: ['ask', 'stake', 'sha256']`. -/
def updateOnDuplicate : Table.Merge Shard.key where
  apply old new := { old with ask := new.ask, stake := new.stake, sha256 := new.sha256 }
  keeps _ _ := rfl

/-- `createManyPeerRecords`. -/
def createManyPeerRecords (peerRecords : List Shard) (t : ShardTable) : ShardTable :=
  t.upsertAll updateOnDuplicate peerRecords

/-- `removeShardingTablePeerRecords`. -/
def removeShardingTablePeerRecords (blockchainId : String) (t : ShardTable) : ShardTable :=
  t.destroy fun row => ofBlockchain blockchainId row.key

/-- `getPeersCount`. -/
def getPeersCount (blockchainId : String) (t : ShardTable) : ℕ :=
  t.count fun row => ofBlockchain blockchainId row.key

end ShardRepository

open ShardRepository

/-- What the command is given: the blockchains it checks, their contracts, and `CryptoService`,
    where a node id that is no text is rejected. -/
structure ShardingServices where
  implementationNames : List String
  contract : String → ShardingTableContract
  convertHexToAscii : String → Option String
  convertFromWei : ℕ → String
  sha256 : String → String

/-- What the check of a blockchain awaits. -/
inductive CheckStage where
  | shardingTableLength
  | peersCount (shardingTableLength : ℕ)
  | remove
  | pullLength
  | head (shardingTableLength : ℕ)
  | page (shardingTableLength : ℕ) (shardingTable : List NodeInfo)
      (sliceIndex startingIdentityId : ℕ)
  | create (shardingTable : List NodeInfo)
  | finished
  | failed
  deriving DecidableEq

namespace ShardingServices

variable (s : ShardingServices)

/-- The record of a node. -/
def newPeerRecord (blockchainId : String) (peer : NodeInfo) : Option Shard :=
  (s.convertHexToAscii peer.nodeId).map fun nodeId => {
    peerId := nodeId
    blockchainId
    ask := s.convertFromWei peer.ask
    stake := s.convertFromWei peer.stake
    sha256 := s.sha256 nodeId }

/-- `pageSize`. -/
def pageSize : ℕ := 10

/-- The head of the loop of `pullBlockchainShardingTable`. -/
def whileLoop (shardingTableLength : ℕ) (shardingTable : List NodeInfo)
    (sliceIndex startingIdentityId : ℕ) : CheckStage :=
  if shardingTable.length < shardingTableLength then
    .page shardingTableLength shardingTable sliceIndex startingIdentityId
  else .create shardingTable

/-- What the check of a blockchain does when the call that it awaits went through. `getPeersCount`
    is not told of the transaction, and counts what is committed. -/
def resume (committed : ShardTable) (blockchainId : String) :
    CheckStage → ShardTable → CheckStage × ShardTable
  | .shardingTableLength, t =>
    (.peersCount (s.contract blockchainId).getShardingTableLength, t)
  | .peersCount shardingTableLength, t =>
    if shardingTableLength ≠ getPeersCount blockchainId committed then (.remove, t)
    else (.finished, t)
  | .remove, t => (.pullLength, removeShardingTablePeerRecords blockchainId t)
  | .pullLength, t => (.head (s.contract blockchainId).getShardingTableLength, t)
  | .head shardingTableLength, t =>
    (whileLoop shardingTableLength [] 0 (s.contract blockchainId).getShardingTableHead, t)
  | .page shardingTableLength shardingTable sliceIndex startingIdentityId, t =>
    match (s.contract blockchainId).getShardingTablePage startingIdentityId pageSize with
    | none => (.failed, t)
    | some nodes =>
      match nodes.getLast? with
      -- `nodes[-1]` has no `identityId`
      | none => (.failed, t)
      | some last => (whileLoop shardingTableLength
          (shardingTable ++ (nodes.drop sliceIndex).filter (·.present)) 1 last.identityId, t)
  | .create shardingTable, t =>
    match shardingTable.mapM (s.newPeerRecord blockchainId) with
    | none => (.failed, t)
    | some newPeerRecords => (.finished, createManyPeerRecords newPeerRecords t)
  | .finished, t => (.finished, t)
  | .failed, t => (.failed, t)

end ShardingServices

/-- The checks of a run, and the table as the transaction has it. -/
structure CheckRun where
  stage : String → CheckStage
  peers : ShardTable

/-- The check of a blockchain goes on. -/
def CheckRun.set (r : CheckRun) (blockchainId : String) (next : CheckStage × ShardTable) :
    CheckRun where
  stage := Function.update r.stage blockchainId next.1
  peers := next.2

namespace CheckRun

variable (r : CheckRun) {b b' : String} (next : CheckStage × ShardTable)

theorem stage_set_self : (r.set b next).stage b = next.1 := Function.update_self ..

theorem stage_set_of_ne (h : b' ≠ b) : (r.set b next).stage b' = r.stage b' :=
  Function.update_of_ne h ..

end CheckRun

namespace ShardingServices

variable (s : ShardingServices)

/-- The checks start for the blockchains of the node. -/
def start (committed : ShardTable) : CheckRun where
  stage blockchainId :=
    if blockchainId ∈ s.implementationNames then .shardingTableLength else .finished
  peers := committed

/-- A call of one of the checks comes back: it went through, or it failed. -/
def advance (committed : ShardTable) (r : CheckRun) (reply : String × Bool) : CheckRun :=
  if reply.2 then r.set reply.1 (s.resume committed reply.1 (r.stage reply.1) r.peers)
  else if r.stage reply.1 = .finished then r
  else r.set reply.1 (.failed, r.peers)

/-- The checks after the replies. -/
def run (committed : ShardTable) (replies : List (String × Bool)) : CheckRun :=
  replies.foldl (s.advance committed) (s.start committed)

/-- `execute`: the transaction is committed once every check is finished. -/
def execute (committed : ShardTable) (replies : List (String × Bool)) : Option ShardTable :=
  let r := s.run committed replies
  if ∀ blockchainId ∈ s.implementationNames, r.stage blockchainId = .finished then some r.peers
  else none

/-- The node ids of a blockchain. -/
def onChain (blockchainId : String) : Set String :=
  {p | ∃ node ∈ (s.contract blockchainId).nodes, s.convertHexToAscii node.nodeId = some p}

end ShardingServices

/-- The peer ids stored for a blockchain. -/
def stored (blockchainId : String) (t : ShardTable) : Set String := {p | (p, blockchainId) ∈ t.keys}

namespace ShardingServices

variable {s : ShardingServices} {b b' : String} {committed t : ShardTable}

/-! ### The pages -/

/-- The loop has read the first nodes, and goes on from the last of them, or from none. -/
def Pulled (c : ShardingTableContract) (shardingTable : List NodeInfo)
    (sliceIndex startingIdentityId : ℕ) : Prop :=
  ∃ i, shardingTable = (c.nodes.take (i + sliceIndex)).filter (·.present) ∧ sliceIndex ≤ 1 ∧
    (startingIdentityId = 0 ∨ c.nodes[i]?.map (·.identityId) = some startingIdentityId)

theorem pulled_head (c : ShardingTableContract) : Pulled c [] 0 c.getShardingTableHead := by
  refine ⟨0, rfl, Nat.zero_le _, ?_⟩
  rw [ShardingTableContract.getShardingTableHead]
  cases c.nodes[0]? with
  | none => exact .inl rfl
  | some node => exact .inr rfl

/-- A page starts where its first node is. -/
theorem index_unique {c : ShardingTableContract} {i j identityId : ℕ}
    (hi : c.nodes[i]?.map (·.identityId) = some identityId)
    (hj : c.nodes[j]?.map (·.identityId) = some identityId) : i = j := by
  rw [← List.getElem?_map] at hi hj
  obtain ⟨hlength, -⟩ := List.getElem?_eq_some_iff.mp hi
  exact (List.getElem?_inj hlength c.nodup).mp (hi.trans hj.symm)

/-- No page starts nowhere. -/
theorem startingIdentityId_ne_zero {c : ShardingTableContract} {i identityId : ℕ}
    (hi : c.nodes[i]?.map (·.identityId) = some identityId) : identityId ≠ 0 := by
  obtain ⟨node, hnode, rfl⟩ := Option.map_eq_some_iff.mp hi
  exact c.identified node (List.mem_of_getElem? hnode)

/-- STEP (page): the nodes of a page, without its first where that was read before, go on where the
    nodes read so far end. -/
theorem pulled_page {c : ShardingTableContract} {shardingTable nodes : List NodeInfo}
    {sliceIndex startingIdentityId : ℕ} {last : NodeInfo}
    (hpulled : Pulled c shardingTable sliceIndex startingIdentityId)
    (hpage : c.getShardingTablePage startingIdentityId pageSize = some nodes)
    (hlast : nodes.getLast? = some last) :
    Pulled c (shardingTable ++ (nodes.drop sliceIndex).filter (·.present)) 1 last.identityId := by
  obtain ⟨i, rfl, hslice, hstart⟩ := hpulled
  obtain ⟨j, filled, hj, rfl⟩ := c.page hpage
  obtain rfl : i = j := index_unique (hstart.resolve_left (startingIdentityId_ne_zero hj)) hj
  have hi : i < c.nodes.length := by
    by_contra hlen
    rw [List.getElem?_eq_none (by omega)] at hj
    cases hj
  set read := (c.nodes.drop i).take pageSize with hread
  have hlength : read.length = min 10 (c.nodes.length - i) := by
    rw [hread, List.length_take, List.length_drop, pageSize]
  have hnext : c.nodes.take (i + sliceIndex) ++ read.drop sliceIndex
      = c.nodes.take (i + (read.length - 1) + 1) := by
    have htake : c.nodes.take (i + sliceIndex) = c.nodes.take i ++ read.take sliceIndex := by
      rw [List.take_add, hread, List.take_take]
      congr 2
      rw [pageSize]
      omega
    have hall : i + (read.length - 1) + 1 = i + read.length := by omega
    rw [htake, List.append_assoc, List.take_append_drop, hall, List.take_add]
    congr 1
    rw [hlength, hread, pageSize, List.take_eq_take_iff, List.length_drop]
    omega
  have hfilled : (List.replicate filled NodeInfo.absent).filter (·.present) = [] := by
    rw [List.filter_eq_nil_iff]
    intro node hnode
    rw [List.eq_of_mem_replicate hnode]
    decide
  have hdrop : (read ++ List.replicate filled NodeInfo.absent).drop sliceIndex
      = read.drop sliceIndex ++ List.replicate filled NodeInfo.absent :=
    List.drop_append_of_le_length (by omega)
  refine ⟨i + (read.length - 1), ?_, le_refl 1, ?_⟩
  · rw [hdrop, List.filter_append, hfilled, List.append_nil, ← List.filter_append, hnext]
  · cases filled with
    | zero =>
      right
      rw [List.replicate_zero, List.append_nil, List.getLast?_eq_getElem?, hread,
        List.getElem?_take_of_lt (by rw [← hread, hlength, pageSize]; omega), List.getElem?_drop,
        ← hread] at hlast
      rw [hlast, Option.map_some]
    | succ filled =>
      left
      rw [List.replicate_succ', ← List.append_assoc, List.getLast?_concat] at hlast
      cases hlast
      rfl

/-- RUN (pages): once as many nodes are read as the table has, they are the nodes of the table. -/
theorem pulled_all {c : ShardingTableContract} {shardingTable : List NodeInfo}
    {sliceIndex startingIdentityId : ℕ}
    (hpulled : Pulled c shardingTable sliceIndex startingIdentityId)
    (hlength : c.nodes.length ≤ shardingTable.length) : shardingTable = c.nodes := by
  obtain ⟨i, rfl, -, -⟩ := hpulled
  exact (List.filter_sublist.trans (List.take_sublist _ _)).eq_of_length_le hlength

/-! ### The local table -/

theorem mem_stored {p : String} : p ∈ stored b t ↔ (p, b) ∈ t.keys := Iff.rfl

theorem stored_remove : stored b (removeShardingTablePeerRecords b t) = ∅ := by
  ext p
  rw [mem_stored, removeShardingTablePeerRecords, Table.mem_keys_destroy]
  simp [ofBlockchain]

theorem stored_remove_of_ne (h : b' ≠ b) :
    stored b' (removeShardingTablePeerRecords b t) = stored b' t := by
  ext p
  rw [mem_stored, mem_stored, removeShardingTablePeerRecords, Table.mem_keys_destroy]
  simp [ofBlockchain, h]

theorem blockchainId_newPeerRecord {peer : NodeInfo} {row : Shard}
    (h : s.newPeerRecord b peer = some row) :
    row.blockchainId = b ∧ s.convertHexToAscii peer.nodeId = some row.peerId := by
  obtain ⟨nodeId, hnode, rfl⟩ := Option.map_eq_some_iff.mp h
  exact ⟨rfl, hnode⟩

/-- The records of the nodes are theirs, and each node has one. -/
theorem mem_newPeerRecords {peers : List NodeInfo} {rows : List Shard}
    (h : peers.mapM (s.newPeerRecord b) = some rows) (k : String × String) :
    k ∈ rows.map Shard.key ↔
      k.2 = b ∧ ∃ node ∈ peers, s.convertHexToAscii node.nodeId = some k.1 := by
  induction peers generalizing rows with
  | nil =>
    cases h
    simp
  | cons peer peers ih =>
    rw [List.mapM_cons] at h
    obtain ⟨row, hrow, h⟩ := Option.bind_eq_some_iff.mp h
    obtain ⟨rest, hrest, h⟩ := Option.bind_eq_some_iff.mp h
    cases h
    obtain ⟨hb, hid⟩ := blockchainId_newPeerRecord hrow
    rw [List.map_cons, List.mem_cons, ih hrest, List.exists_mem_cons_iff, hid]
    constructor
    · rintro (rfl | ⟨hk, hnode⟩)
      · exact ⟨hb, .inl rfl⟩
      · exact ⟨hk, .inr hnode⟩
    · rintro ⟨hk, hpeer | hnode⟩
      · left
        cases k
        cases hk
        cases hpeer
        rw [Shard.key, hb]
      · exact .inr ⟨hk, hnode⟩

theorem stored_create {peers : List NodeInfo} {rows : List Shard}
    (h : peers.mapM (s.newPeerRecord b) = some rows) :
    stored b (createManyPeerRecords rows t)
      = {p | ∃ node ∈ peers, s.convertHexToAscii node.nodeId = some p} ∪ stored b t := by
  ext p
  simp [stored, createManyPeerRecords, Table.mem_keys_upsertAll, mem_newPeerRecords h]

theorem stored_create_of_ne {peers : List NodeInfo} {rows : List Shard}
    (h : peers.mapM (s.newPeerRecord b) = some rows) (hne : b' ≠ b) :
    stored b' (createManyPeerRecords rows t) = stored b' t := by
  ext p
  simp [stored, createManyPeerRecords, Table.mem_keys_upsertAll, mem_newPeerRecords h, hne]

/-! ### The checks -/

/-- The numbers of nodes differ at the check. -/
def Differs (s : ShardingServices) (committed : ShardTable) (blockchainId : String) : Prop :=
  (s.contract blockchainId).getShardingTableLength ≠ getPeersCount blockchainId committed

/-- The invariant of the check of a blockchain. -/
def Checked (s : ShardingServices) (committed : ShardTable) (blockchainId : String)
    (peers : ShardTable) : CheckStage → Prop
  | .shardingTableLength => stored blockchainId peers = stored blockchainId committed
  | .peersCount n => n = (s.contract blockchainId).getShardingTableLength ∧
    stored blockchainId peers = stored blockchainId committed
  | .remove => s.Differs committed blockchainId
  | .pullLength => s.Differs committed blockchainId ∧ stored blockchainId peers = ∅
  | .head n => n = (s.contract blockchainId).getShardingTableLength ∧
    s.Differs committed blockchainId ∧ stored blockchainId peers = ∅
  | .page n shardingTable sliceIndex startingIdentityId =>
    n = (s.contract blockchainId).getShardingTableLength ∧
      Pulled (s.contract blockchainId) shardingTable sliceIndex startingIdentityId ∧
        s.Differs committed blockchainId ∧ stored blockchainId peers = ∅
  | .create shardingTable => shardingTable = (s.contract blockchainId).nodes ∧
    s.Differs committed blockchainId ∧ stored blockchainId peers = ∅
  | .finished =>
    (¬ s.Differs committed blockchainId ∧
      stored blockchainId peers = stored blockchainId committed) ∨
    (s.Differs committed blockchainId ∧ stored blockchainId peers = s.onChain blockchainId)
  | .failed => True

/-- The invariant is one of what is stored for the blockchain. -/
theorem checked_congr {peers peers' : ShardTable} {stage : CheckStage}
    (h : stored b peers' = stored b peers) (hchecked : s.Checked committed b peers stage) :
    s.Checked committed b peers' stage := by
  cases stage <;> simp only [Checked, h] at hchecked ⊢ <;> exact hchecked

theorem checked_whileLoop {n sliceIndex startingIdentityId : ℕ} {shardingTable : List NodeInfo}
    (hn : n = (s.contract b).getShardingTableLength)
    (hpulled : Pulled (s.contract b) shardingTable sliceIndex startingIdentityId)
    (hdiffers : s.Differs committed b) (hempty : stored b t = ∅) :
    s.Checked committed b t (whileLoop n shardingTable sliceIndex startingIdentityId) := by
  rw [whileLoop]
  split
  · exact ⟨hn, hpulled, hdiffers, hempty⟩
  · next hlength =>
    refine ⟨pulled_all hpulled ?_, hdiffers, hempty⟩
    rw [hn, ShardingTableContract.getShardingTableLength] at hlength
    exact Nat.not_lt.mp hlength

/-- STEP (own): a reply keeps the invariant of the check that awaits it. -/
theorem checked_resume {stage : CheckStage} (h : s.Checked committed b t stage) :
    s.Checked committed b (s.resume committed b stage t).2 (s.resume committed b stage t).1 := by
  cases stage with
  | shardingTableLength => exact ⟨rfl, h⟩
  | peersCount n =>
    obtain ⟨rfl, hstored⟩ := h
    rw [resume]
    split
    · next hdiffers => exact hdiffers
    · next hdiffers => exact .inl ⟨hdiffers, hstored⟩
  | remove => exact ⟨h, stored_remove⟩
  | pullLength => exact ⟨rfl, h⟩
  | head n =>
    obtain ⟨hn, hdiffers, hempty⟩ := h
    exact checked_whileLoop hn (pulled_head _) hdiffers hempty
  | page n shardingTable sliceIndex startingIdentityId =>
    obtain ⟨hn, hpulled, hdiffers, hempty⟩ := h
    rw [resume]
    split
    · trivial
    · next nodes hpage =>
      split
      · trivial
      · next last hlast =>
        exact checked_whileLoop hn (pulled_page hpulled hpage hlast) hdiffers hempty
  | create shardingTable =>
    obtain ⟨rfl, hdiffers, hempty⟩ := h
    rw [resume]
    split
    · trivial
    · next rows hrows =>
      refine .inr ⟨hdiffers, ?_⟩
      rw [stored_create hrows, hempty, Set.union_empty, onChain]
  | finished => exact h
  | failed => trivial

/-- STEP (others): what is stored for the other blockchains stays. -/
theorem stored_resume {stage : CheckStage} (hne : b' ≠ b) :
    stored b' (s.resume committed b stage t).2 = stored b' t := by
  cases stage with
  | peersCount n => rw [resume]; split <;> rfl
  | remove => exact stored_remove_of_ne hne
  | page n shardingTable sliceIndex startingIdentityId =>
    rw [resume]
    split
    · rfl
    · split <;> rfl
  | create shardingTable =>
    rw [resume]
    split
    · rfl
    · next rows hrows => exact stored_create_of_ne hrows hne
  | _ => rfl

/-- The invariants of all checks. -/
def Sound (s : ShardingServices) (committed : ShardTable) (r : CheckRun) : Prop :=
  ∀ blockchainId ∈ s.implementationNames,
    s.Checked committed blockchainId r.peers (r.stage blockchainId)

theorem sound_start : s.Sound committed (s.start committed) := by
  intro b hb
  have hstage : (s.start committed).stage b = .shardingTableLength := if_pos hb
  rw [hstage]
  exact rfl

theorem sound_set {r : CheckRun} {next : CheckStage × ShardTable} (h : s.Sound committed r)
    (hown : b ∈ s.implementationNames → s.Checked committed b next.2 next.1)
    (hothers : ∀ b', b' ≠ b → stored b' next.2 = stored b' r.peers) :
    s.Sound committed (r.set b next) := by
  intro b' hb'
  by_cases hne : b' = b
  · subst hne
    rw [CheckRun.stage_set_self]
    exact hown hb'
  · rw [CheckRun.stage_set_of_ne _ _ hne]
    exact checked_congr (hothers b' hne) (h b' hb')

/-- STEP: a reply keeps the invariants of all checks. -/
theorem sound_advance {r : CheckRun} (h : s.Sound committed r) (reply : String × Bool) :
    s.Sound committed (s.advance committed r reply) := by
  rw [advance]
  split
  · exact sound_set h (fun hb => checked_resume (h _ hb)) fun b' hne => stored_resume hne
  · split
    · exact h
    · exact sound_set h (fun _ => trivial) fun _ _ => rfl

/-- RUN: replies keep the invariants of all checks. -/
theorem sound_run (replies : List (String × Bool)) :
    s.Sound committed (s.run committed replies) := by
  rw [run]
  exact List.foldlRecOn replies (s.advance committed) sound_start
    fun r hr reply _ => sound_advance hr reply

theorem finished_of_execute {replies : List (String × Bool)} {peers : ShardTable}
    (h : s.execute committed replies = some peers) :
    (∀ b ∈ s.implementationNames, (s.run committed replies).stage b = .finished) ∧
      (s.run committed replies).peers = peers := by
  rw [execute] at h
  split at h
  · next hall => exact ⟨hall, Option.some.inj h⟩
  · cases h

/-- CORRECT (run): a successful run leaves the node ids of the blockchain exactly when the numbers
    differed, or when they were there already. -/
theorem stored_eq_onChain_iff {replies : List (String × Bool)} {peers : ShardTable}
    (hrun : s.execute committed replies = some peers) (hb : b ∈ s.implementationNames) :
    stored b peers = s.onChain b ↔
      (s.contract b).getShardingTableLength ≠ getPeersCount b committed ∨
        stored b committed = s.onChain b := by
  obtain ⟨hall, rfl⟩ := finished_of_execute hrun
  have hchecked : s.Sound committed (s.run committed replies) := sound_run replies
  replace hchecked := hchecked b hb
  rw [hall b hb] at hchecked
  rcases hchecked with ⟨hsame, hstored⟩ | ⟨hdiffers, hstored⟩
  · rw [hstored]
    exact ⟨Or.inr, fun h => h.resolve_left hsame⟩
  · exact ⟨fun _ => .inl hdiffers, fun _ => hstored⟩

end ShardingServices

/-- The contract over a list of nodes. -/
def ShardingTableContract.ofNodes (nodes : List NodeInfo)
    (nodup : (nodes.map (·.identityId)).Nodup) (identified : ∀ node ∈ nodes, node.identityId ≠ 0) :
    ShardingTableContract where
  nodes
  nodup
  identified
  getShardingTablePage startingIdentityId nodesNum :=
    (nodes.findIdx? (·.identityId == startingIdentityId)).map fun i =>
      (nodes.drop i).take nodesNum ++ List.replicate (nodesNum - (nodes.length - i)) .absent
  page h := by
    obtain ⟨i, hi, rfl⟩ := Option.map_eq_some_iff.mp h
    obtain ⟨hlength, hfound, -⟩ := List.findIdx?_eq_some_iff_getElem.mp hi
    refine ⟨i, _, ?_, rfl⟩
    rw [List.getElem?_eq_getElem hlength, Option.map_some, beq_iff_eq.mp hfound]

/-- The value of a hex digit. -/
def hexDigitValue (c : Char) : Option ℕ :=
  if '0' ≤ c ∧ c ≤ '9' then some (c.toNat - 48)
  else if 'a' ≤ c ∧ c ≤ 'f' then some (c.toNat - 87)
  else if 'A' ≤ c ∧ c ≤ 'F' then some (c.toNat - 55)
  else none

/-- The bytes that hex digits stand for. -/
def arrayify : List Char → Option (List UInt8)
  | [] => some []
  | [_] => none
  | high :: low :: digits =>
    match hexDigitValue high, hexDigitValue low, arrayify digits with
    | some h, some l, some bytes => some (UInt8.ofNat (16 * h + l) :: bytes)
    | _, _, _ => none

/-- `toUtf8String`: the text of a hex string, if its bytes are the UTF-8 of one. -/
def toUtf8String (hexString : String) : Option String :=
  match hexString.toList with
  | '0' :: 'x' :: digits => (arrayify digits).bind fun bytes =>
    if Utf.encode (Utf.decode bytes) = bytes then
      some (String.ofList ((Utf.points (Utf.decode bytes)).map Char.ofNat))
    else none
  | _ => none

/-- Nodes with given ids, in the order of their identities. -/
def nodesOf (nodeIds : List String) : List NodeInfo :=
  nodeIds.mapIdx fun i nodeId => ⟨i + 1, nodeId, 1, 1⟩

theorem nodup_nodesOf (nodeIds : List String) : ((nodesOf nodeIds).map (·.identityId)).Nodup := by
  refine List.nodup_iff_injective_getElem.mpr ?_
  intro i j hij
  exact Fin.ext (by simpa [nodesOf] using hij)

theorem identified_nodesOf (nodeIds : List String) :
    ∀ node ∈ nodesOf nodeIds, node.identityId ≠ 0 := by
  intro node hnode
  obtain ⟨i, hi, rfl⟩ := List.mem_mapIdx.mp hnode
  exact Nat.succ_ne_zero i

/-- A blockchain with nodes of given ids. -/
def servicesOf (nodeIds : List String) : ShardingServices where
  implementationNames := ["otp:2043"]
  contract _ := .ofNodes (nodesOf nodeIds) (nodup_nodesOf nodeIds) (identified_nodesOf nodeIds)
  convertHexToAscii := toUtf8String
  convertFromWei _ := "0.000000000000000001"
  sha256 nodeId := nodeId

/-- The node ids `QmA` to `QmL`: more than a page. -/
def twelveNodeIds : List String :=
  ["0x516d41", "0x516d42", "0x516d43", "0x516d44", "0x516d45", "0x516d46", "0x516d47", "0x516d48",
    "0x516d49", "0x516d4a", "0x516d4b", "0x516d4c"]

/-- The local table with a single peer. -/
def onePeer (peerId : String) : ShardTable where
  rows := [⟨peerId, "otp:2043", "0.000000000000000001", "0.000000000000000001", peerId, 0, 0⟩]
  nodup := List.nodup_singleton _

/-- Twelve nodes are pulled in two pages in place of one that is gone. -/
theorem stored_eq_onChain_iff_pulled :
    ∃ peers, (servicesOf twelveNodeIds).execute (onePeer "QmZ")
        (List.replicate 8 ("otp:2043", true)) = some peers ∧
      peers.keys.length = 12 ∧
      stored "otp:2043" peers = (servicesOf twelveNodeIds).onChain "otp:2043" := by
  have hexists : ((servicesOf twelveNodeIds).execute (onePeer "QmZ")
      (List.replicate 8 ("otp:2043", true))).any (·.keys.length == 12) = true := by decide +kernel
  obtain ⟨peers, hrun, hlength⟩ := (Option.any_eq_true _ _).mp hexists
  exact ⟨peers, hrun, beq_iff_eq.mp hlength,
    (ShardingServices.stored_eq_onChain_iff hrun List.mem_cons_self).mpr (.inl (by decide))⟩

/-- COUNTEREXAMPLE: the node `QmB` was replaced by `QmA`, and stays in the local table. -/
theorem replaced_peer_kept :
    (servicesOf ["0x516d41"]).execute (onePeer "QmB") [("otp:2043", true), ("otp:2043", true)]
        = some (onePeer "QmB") ∧
      stored "otp:2043" (onePeer "QmB") ≠ (servicesOf ["0x516d41"]).onChain "otp:2043" := by
  refine ⟨rfl, ?_⟩
  intro h
  have hstored : "QmB" ∈ stored "otp:2043" (onePeer "QmB") := by
    rw [ShardingServices.mem_stored]
    decide
  rw [h] at hstored
  obtain ⟨node, hnode, hid⟩ := hstored
  obtain rfl := List.mem_singleton.mp hnode
  have hconverted : (servicesOf ["0x516d41"]).convertHexToAscii "0x516d41" = some "QmA" := rfl
  rw [hconverted] at hid
  revert hid
  decide

end OtNode
