import OtNode.Network.Sharding

/-! The pull of the sharding table of a blockchain.

    The table is read page by page, each page from the last node of the one before, until as many
    nodes are read as the table has. It ends for every number of nodes, and stores all of them, or
    none where a node id is no text. -/

namespace OtNode

namespace ShardingTableContract

/-- A page has the nodes from the given one on, and is filled up to its size. -/
def Paged (c : ShardingTableContract) : Prop :=
  ∀ i node nodesNum, c.nodes[i]? = some node →
    c.getShardingTablePage node.identityId nodesNum = some ((c.nodes.drop i).take nodesNum ++
      List.replicate (nodesNum - (c.nodes.length - i)) .absent)

end ShardingTableContract

open ShardRepository

namespace ShardingServices

variable (s : ShardingServices) (blockchainId : String)

/-- STEP: the next call of the pull went through. -/
def pullStep (state : CheckStage × ShardTable) : CheckStage × ShardTable :=
  s.resume state.2 blockchainId state.1 state.2

/-- `pullBlockchainShardingTable`, after `n` calls. -/
def pullBlockchainShardingTable (t : ShardTable) (n : ℕ) : CheckStage × ShardTable :=
  (s.pullStep blockchainId)^[n] (.remove, t)

/-- The rows of the blockchain are the nodes of its table, each once and in their order. -/
def StoresNodes (t : ShardTable) : Prop :=
  (t.rows.filter fun row => row.blockchainId == blockchainId).map (fun row => some row.peerId) =
    (s.contract blockchainId).nodes.map fun node => s.convertHexToAscii node.nodeId

variable {s} {b : String} {t : ShardTable}

/-! ### The loop -/

/-- The loop is at a node: those before are read, and it too after the first page. -/
def readingAt (c : ShardingTableContract) (i sliceIndex : ℕ) : CheckStage :=
  .page c.getShardingTableLength (c.nodes.take (i + sliceIndex)) sliceIndex
    ((c.nodes[i]?.map (·.identityId)).getD 0)

/-- A page from a node on, without what was read before. -/
theorem filter_page {nodes : List NodeInfo} (hpresent : ∀ node ∈ nodes, node.present = true)
    {i sliceIndex filled : ℕ} (hi : i < nodes.length) (hslice : sliceIndex ≤ 1) :
    nodes.take (i + sliceIndex) ++ (((nodes.drop i).take pageSize ++
      List.replicate filled NodeInfo.absent).drop sliceIndex).filter (·.present) =
        nodes.take (i + pageSize) := by
  have hlength : sliceIndex ≤ ((nodes.drop i).take pageSize).length := by
    rw [List.length_take, List.length_drop, pageSize]
    omega
  have hread : (((nodes.drop i).take pageSize).drop sliceIndex).filter (·.present) =
      ((nodes.drop i).take pageSize).drop sliceIndex := by
    refine List.filter_eq_self.mpr fun node hnode => hpresent node ?_
    exact List.mem_of_mem_drop (List.mem_of_mem_take (List.mem_of_mem_drop hnode))
  have hfilled : (List.replicate filled NodeInfo.absent).filter (·.present) = [] := by
    rw [List.filter_replicate, if_neg (by decide)]
  have htake : (nodes.drop i).take sliceIndex = ((nodes.drop i).take pageSize).take sliceIndex := by
    rw [List.take_take, min_eq_left (by rw [pageSize]; omega)]
  rw [List.drop_append_of_le_length hlength, List.filter_append, hread, hfilled, List.append_nil,
    List.take_add, List.append_assoc, htake, List.take_append_drop, ← List.take_add]

/-- The last entry of a page is a node, or what the page is filled up with. -/
theorem getLast?_page (nodes : List NodeInfo) {i : ℕ} (hi : i < nodes.length) :
    ∃ last, ((nodes.drop i).take pageSize ++ List.replicate (pageSize - (nodes.length - i))
      NodeInfo.absent).getLast? = some last ∧
        (i + 10 ≤ nodes.length → nodes[i + 9]? = some last) := by
  have hlength : ((nodes.drop i).take pageSize ++ List.replicate (pageSize - (nodes.length - i))
      NodeInfo.absent).length = 10 := by
    rw [List.length_append, List.length_take, List.length_drop, List.length_replicate, pageSize]
    omega
  refine ⟨_, List.getLast?_eq_some_getLast (List.ne_nil_of_length_pos (by omega)), fun hfull => ?_⟩
  have htake : ((nodes.drop i).take pageSize).length = 10 := by
    rw [List.length_take, List.length_drop, pageSize]
    omega
  rw [← List.getLast?_eq_some_getLast, List.getLast?_eq_getElem?, hlength,
    List.getElem?_append_left (by omega), List.getElem?_take_of_lt (by rw [pageSize]; omega),
    List.getElem?_drop]

/-- STEP (page): the loop goes on with the last node of a full page, or all nodes are read. -/
theorem pullStep_readingAt (hpaged : (s.contract b).Paged)
    (hpresent : ∀ node ∈ (s.contract b).nodes, node.present = true) {i sliceIndex : ℕ}
    (hi : i < (s.contract b).nodes.length) (hslice : sliceIndex ≤ 1) :
    s.pullStep b (readingAt (s.contract b) i sliceIndex, t) =
      (if i + 10 < (s.contract b).nodes.length then readingAt (s.contract b) (i + 9) 1
        else .create (s.contract b).nodes, t) := by
  have hnode : (s.contract b).nodes[i]? = some (s.contract b).nodes[i] :=
    List.getElem?_eq_getElem hi
  obtain ⟨last, hlast, hfull⟩ := getLast?_page (s.contract b).nodes hi
  rw [pullStep, readingAt, hnode, Option.map_some, Option.getD_some, resume,
    hpaged i _ pageSize hnode]
  simp only [hlast, filter_page hpresent hi hslice]
  rw [whileLoop, List.length_take, ShardingTableContract.getShardingTableLength]
  by_cases hmore : i + 10 < (s.contract b).nodes.length
  · rw [if_pos (by rw [pageSize]; omega), if_pos hmore, readingAt, hfull hmore.le]
    rfl
  · rw [if_neg (by rw [pageSize]; omega), if_neg hmore,
      List.take_of_length_le (by rw [pageSize]; omega)]

/-- RUN (pages): the loop comes to its end. -/
theorem exists_create (hpaged : (s.contract b).Paged)
    (hpresent : ∀ node ∈ (s.contract b).nodes, node.present = true) {i sliceIndex : ℕ}
    (hi : i < (s.contract b).nodes.length) (hslice : sliceIndex ≤ 1) :
    ∃ n, (s.pullStep b)^[n] (readingAt (s.contract b) i sliceIndex, t) =
      (.create (s.contract b).nodes, t) := by
  induction hleft : (s.contract b).nodes.length - i using Nat.strongRecOn
    generalizing i sliceIndex with
  | ind left ih =>
    by_cases hmore : i + 10 < (s.contract b).nodes.length
    · obtain ⟨n, hn⟩ := ih ((s.contract b).nodes.length - (i + 9)) (by omega)
        (i := i + 9) (by omega) le_rfl rfl
      refine ⟨n + 1, ?_⟩
      rw [Function.iterate_succ_apply, pullStep_readingAt hpaged hpresent hi hslice, if_pos hmore, hn]
    · refine ⟨1, ?_⟩
      rw [Function.iterate_one, pullStep_readingAt hpaged hpresent hi hslice, if_neg hmore]

/-- The pull reads all nodes, and then stores them. -/
theorem pull_create (hpaged : (s.contract b).Paged)
    (hpresent : ∀ node ∈ (s.contract b).nodes, node.present = true) :
    ∃ n, s.pullBlockchainShardingTable b t n =
      (.create (s.contract b).nodes, removeShardingTablePeerRecords b t) := by
  have hhead : s.pullBlockchainShardingTable b t 3 =
      (whileLoop (s.contract b).getShardingTableLength [] 0 (s.contract b).getShardingTableHead,
        removeShardingTablePeerRecords b t) := rfl
  by_cases hnone : (s.contract b).nodes = []
  · refine ⟨3, hhead.trans ?_⟩
    rw [whileLoop, ShardingTableContract.getShardingTableLength, hnone]
    rfl
  · have hpos := List.length_pos_iff.mpr hnone
    obtain ⟨n, hn⟩ := exists_create (t := removeShardingTablePeerRecords b t) hpaged hpresent hpos
      (Nat.zero_le 1)
    have hstart : whileLoop (s.contract b).getShardingTableLength [] 0
        (s.contract b).getShardingTableHead = readingAt (s.contract b) 0 0 := by
      have hlength : 0 < (s.contract b).getShardingTableLength := hpos
      rw [whileLoop, List.length_nil, if_pos hlength, readingAt, List.take_zero]
      rfl
    refine ⟨n + 3, ?_⟩
    rw [pullBlockchainShardingTable, Function.iterate_add_apply]
    rw [pullBlockchainShardingTable] at hhead
    rw [hhead, hstart, hn]

/-! ### What is stored -/

/-- The records of nodes are theirs, in order. -/
theorem map_newPeerRecords {nodes : List NodeInfo} {rows : List Shard}
    (h : nodes.mapM (s.newPeerRecord b) = some rows) :
    rows.map (fun row => some row.peerId) = nodes.map (fun node => s.convertHexToAscii node.nodeId) ∧
      ∀ row ∈ rows, row.blockchainId = b := by
  induction nodes generalizing rows with
  | nil =>
    cases h
    exact ⟨rfl, nofun⟩
  | cons node nodes ih =>
    rw [List.mapM_cons] at h
    obtain ⟨row, hrow, h⟩ := Option.bind_eq_some_iff.mp h
    obtain ⟨rest, hrest, h⟩ := Option.bind_eq_some_iff.mp h
    cases h
    obtain ⟨hblockchain, hnode⟩ := blockchainId_newPeerRecord hrow
    obtain ⟨hids, hall⟩ := ih hrest
    refine ⟨?_, List.forall_mem_cons.mpr ⟨hblockchain, hall⟩⟩
    rw [List.map_cons, List.map_cons, hids, hnode]

/-- There are records if and only if every node id is a text. -/
theorem newPeerRecords_eq_none_iff {nodes : List NodeInfo} :
    nodes.mapM (s.newPeerRecord b) = none ↔
      ∃ node ∈ nodes, s.convertHexToAscii node.nodeId = none := by
  induction nodes with
  | nil => simp
  | cons node nodes ih =>
    rw [List.mapM_cons, List.exists_mem_cons_iff, ← ih, newPeerRecord]
    cases s.convertHexToAscii node.nodeId with
    | none => simp
    | some nodeId => cases nodes.mapM (s.newPeerRecord b) <;> simp

/-- Distinct nodes have distinct records. -/
theorem nodup_newPeerRecords {nodes : List NodeInfo} {rows : List Shard}
    (h : nodes.mapM (s.newPeerRecord b) = some rows) (hdistinct : (nodes.map (·.nodeId)).Nodup)
    (hinjective : ∀ x ∈ nodes.map (·.nodeId), ∀ y ∈ nodes.map (·.nodeId), ∀ p,
      s.convertHexToAscii x = some p → s.convertHexToAscii y = some p → x = y) :
    (rows.map Shard.key).Nodup := by
  have hids : (nodes.map fun node => s.convertHexToAscii node.nodeId).Nodup := by
    have hcomp : (nodes.map fun node => s.convertHexToAscii node.nodeId) =
        (nodes.map (·.nodeId)).map s.convertHexToAscii := by rw [List.map_map]; rfl
    rw [hcomp]
    refine hdistinct.map_on ?_
    intro x hx y hy heq
    obtain ⟨node, hnode, rfl⟩ := List.mem_map.mp hx
    cases hnone : s.convertHexToAscii node.nodeId with
    | none =>
      rw [newPeerRecords_eq_none_iff.mpr ⟨node, hnode, hnone⟩] at h
      cases h
    | some p => exact hinjective _ hx y hy p hnone (heq.symm.trans hnone)
  rw [← (map_newPeerRecords h).1] at hids
  have hpeers : (rows.map fun row => some row.peerId) =
      (rows.map Shard.key).map fun key => some key.1 := by rw [List.map_map]; rfl
  rw [hpeers] at hids
  exact hids.of_map _

/-- The records of a pull are what the blockchain has in the table then. -/
theorem storesNodes_createManyPeerRecords {rows : List Shard}
    (hrecords : (s.contract b).nodes.mapM (s.newPeerRecord b) = some rows)
    (hdistinct : ((s.contract b).nodes.map (·.nodeId)).Nodup)
    (hinjective : ∀ x ∈ (s.contract b).nodes.map (·.nodeId),
      ∀ y ∈ (s.contract b).nodes.map (·.nodeId), ∀ p,
        s.convertHexToAscii x = some p → s.convertHexToAscii y = some p → x = y)
    (t : ShardTable) :
    s.StoresNodes b (createManyPeerRecords rows (removeShardingTablePeerRecords b t)) := by
  obtain ⟨hids, hblockchain⟩ := map_newPeerRecords hrecords
  have hnew : ∀ k ∈ rows.map Shard.key, k ∉ (removeShardingTablePeerRecords b t).keys := by
    intro k hk hmem
    obtain ⟨row, hrow, rfl⟩ := List.mem_map.mp hk
    have hkept := (Table.mem_keys_destroy (q := ofBlockchain b)).mp hmem
    rw [ofBlockchain, Shard.key, hblockchain row hrow] at hkept
    simp at hkept
  have hold : (removeShardingTablePeerRecords b t).rows.filter
      (fun row => row.blockchainId == b) = [] := by
    rw [List.filter_eq_nil_iff]
    intro row hrow
    have hkept := (List.mem_filter.mp hrow).2
    simpa [ofBlockchain, Shard.key] using hkept
  have hall : rows.filter (fun row => row.blockchainId == b) = rows :=
    List.filter_eq_self.mpr fun row hrow => by rw [hblockchain row hrow, beq_self_eq_true]
  have hrows : (createManyPeerRecords rows (removeShardingTablePeerRecords b t)).rows =
      (removeShardingTablePeerRecords b t).rows ++ rows :=
    Table.rows_upsertAll (nodup_newPeerRecords hrecords hdistinct hinjective) hnew
  simp only [StoresNodes]
  rw [hrows, List.filter_append, hold, hall, List.nil_append, hids]

/-- CORRECT (run): for every number of nodes the pull comes to an end, and it has stored exactly the
    nodes, each once, if and only if every node id is a text. -/
theorem pull_stores_iff (hpaged : (s.contract b).Paged)
    (hpresent : ∀ node ∈ (s.contract b).nodes, node.present = true)
    (hdistinct : ((s.contract b).nodes.map (·.nodeId)).Nodup)
    (hinjective : ∀ x ∈ (s.contract b).nodes.map (·.nodeId),
      ∀ y ∈ (s.contract b).nodes.map (·.nodeId), ∀ p,
        s.convertHexToAscii x = some p → s.convertHexToAscii y = some p → x = y)
    (t : ShardTable) :
    ∃ n, ((s.pullBlockchainShardingTable b t n).1 = .finished ∨
        (s.pullBlockchainShardingTable b t n).1 = .failed) ∧
      ((s.pullBlockchainShardingTable b t n).1 = .finished ∧
          s.StoresNodes b (s.pullBlockchainShardingTable b t n).2 ↔
        ∀ node ∈ (s.contract b).nodes, ∃ peerId, s.convertHexToAscii node.nodeId = some peerId) := by
  obtain ⟨n, hn⟩ := pull_create (t := t) hpaged hpresent
  have hlast : s.pullBlockchainShardingTable b t (n + 1) =
      s.pullStep b (.create (s.contract b).nodes, removeShardingTablePeerRecords b t) := by
    rw [← hn, pullBlockchainShardingTable, Function.iterate_succ_apply']
    rfl
  refine ⟨n + 1, ?_⟩
  rw [hlast, pullStep, resume]
  cases hrecords : (s.contract b).nodes.mapM (s.newPeerRecord b) with
  | none =>
    refine ⟨.inr rfl, iff_of_false ?_ ?_⟩
    · rintro ⟨hfinished, -⟩
      cases hfinished
    · intro hall
      obtain ⟨node, hnode, hnone⟩ := newPeerRecords_eq_none_iff.mp hrecords
      obtain ⟨peerId, hsome⟩ := hall node hnode
      rw [hnone] at hsome
      cases hsome
  | some rows =>
    refine ⟨.inl rfl, iff_of_true ⟨rfl, ?_⟩ ?_⟩
    · exact storesNodes_createManyPeerRecords hrecords hdistinct hinjective t
    · intro node hnode
      by_contra hnone
      have hnot : s.convertHexToAscii node.nodeId = none :=
        Option.eq_none_iff_forall_ne_some.mpr fun peerId heq => hnone ⟨peerId, heq⟩
      rw [newPeerRecords_eq_none_iff.mpr ⟨node, hnode, hnot⟩] at hrecords
      cases hrecords

end ShardingServices

/-- The contract over a list of nodes fills up its pages. -/
theorem ShardingTableContract.paged_ofNodes (nodes : List NodeInfo)
    (nodup : (nodes.map (·.identityId)).Nodup) (identified : ∀ node ∈ nodes, node.identityId ≠ 0) :
    (ofNodes nodes nodup identified).Paged := by
  intro i node nodesNum hnode
  have hnode' : nodes[i]? = some node := hnode
  obtain ⟨hi, hget⟩ := List.getElem?_eq_some_iff.mp hnode'
  have hfind : nodes.findIdx? (·.identityId == node.identityId) = some i := by
    refine List.findIdx?_eq_some_iff_getElem.mpr ⟨hi, by rw [hget, beq_self_eq_true], ?_⟩
    intro j hj heq
    have hj' : j < nodes.length := hj.trans hi
    have hsame : (nodes.map (·.identityId))[j]? = (nodes.map (·.identityId))[i]? := by
      rw [List.getElem?_map, List.getElem?_map, List.getElem?_eq_getElem hj',
        List.getElem?_eq_getElem hi, hget]
      simpa using heq
    have hindex := (List.getElem?_inj (by simpa using hj') nodup).mp hsame
    omega
  simp only [ofNodes, hfind, Option.map_some]

/-- Twelve nodes are read in two pages, and stored. -/
theorem pull_stores_iff_twelve : ∃ n,
    ((servicesOf twelveNodeIds).pullBlockchainShardingTable "otp:2043" (onePeer "QmZ") n).1
        = .finished ∧
      (servicesOf twelveNodeIds).StoresNodes "otp:2043"
        ((servicesOf twelveNodeIds).pullBlockchainShardingTable "otp:2043" (onePeer "QmZ") n).2 := by
  have hids : (nodesOf twelveNodeIds).map (·.nodeId) = twelveNodeIds := rfl
  have hdistinct : (twelveNodeIds.map toUtf8String).Nodup := by decide +kernel
  have hinjective : ∀ x ∈ (nodesOf twelveNodeIds).map (·.nodeId),
      ∀ y ∈ (nodesOf twelveNodeIds).map (·.nodeId), ∀ p,
        toUtf8String x = some p → toUtf8String y = some p → x = y := by
    rw [hids]
    intro x hx y hy p hxp hyp
    exact List.inj_on_of_nodup_map hdistinct hx hy (hxp.trans hyp.symm)
  have htexts : ∀ node ∈ nodesOf twelveNodeIds, (toUtf8String node.nodeId).isSome = true := by
    decide +kernel
  obtain ⟨n, -, hiff⟩ := ShardingServices.pull_stores_iff
    (s := servicesOf twelveNodeIds) (b := "otp:2043")
    (ShardingTableContract.paged_ofNodes _ _ _) (by decide) (hids ▸ hdistinct.of_map _) hinjective
    (onePeer "QmZ")
  exact ⟨n, hiff.mpr fun node hnode => Option.isSome_iff_exists.mp (htexts node hnode)⟩

/-- COUNTEREXAMPLE: the node id `0xff` is no text, and the pull fails with nothing stored. -/
theorem not_stored_of_noText :
    (∀ n, (servicesOf ["0xff"]).pullBlockchainShardingTable "otp:2043" .empty (n + 5) =
      (.failed, .empty)) ∧
    ¬ (servicesOf ["0xff"]).StoresNodes "otp:2043" .empty := by
  refine ⟨fun n => ?_, by rw [ShardingServices.StoresNodes]; decide⟩
  have hfailed : (servicesOf ["0xff"]).pullBlockchainShardingTable "otp:2043" .empty 5 =
      (.failed, .empty) := rfl
  rw [ShardingServices.pullBlockchainShardingTable, Function.iterate_add_apply]
  rw [ShardingServices.pullBlockchainShardingTable] at hfailed
  rw [hfailed]
  exact Function.iterate_fixed rfl n

end OtNode
