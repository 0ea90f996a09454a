import OtNode.Lib.Trace
import OtNode.Network.Sharding

/-! The times at which the peers were dialed.

    They are written to the rows of a peer only if they were not written for a while, which the
    service knows from a cache of its own. A pull of the sharding table creates the rows anew,
    without the times. The cache is not told, and keeps the next dials from being written. -/

namespace OtNode

open Trace

/-- `PEER_RECORD_UPDATE_DELAY`. -/
def peerRecordUpdateDelay : ℕ := 30 * 60 * 1000

namespace ShardRepository

/-- `updatePeerRecordLastDialed`. -/
def updatePeerRecordLastDialed (peerId : String) (timestamp : ℕ) (t : ShardTable) : ShardTable :=
  t.update (fun row => row.peerId == peerId) (fun row => { row with lastDialed := timestamp })
    fun _ => rfl

/-- `updatePeerRecordLastSeenAndLastDialed`. -/
def updatePeerRecordLastSeenAndLastDialed (peerId : String) (timestamp : ℕ) (t : ShardTable) :
    ShardTable :=
  t.update (fun row => row.peerId == peerId)
    (fun row => { row with lastDialed := timestamp, lastSeen := timestamp }) fun _ => rfl

/-- The peer of a row and its time, by which the rows are grouped. -/
def dialGroup (row : Shard) : String × ℕ := (row.peerId, row.lastDialed)

/-- What `getPeersToDial` may answer, with the times: the groups that were dialed before a time, the
    ones that were dialed first ahead, and as many as the limit allows. Groups of one time come in
    any order. -/
structure GetsPeersToDial (limit threshold : ℕ) (t : ShardTable) (groups : List (String × ℕ)) :
    Prop where
  nodup : groups.Nodup
  mem : ∀ group ∈ groups, group.2 < threshold ∧ group ∈ t.rows.map dialGroup
  sorted : groups.Pairwise fun group next => group.2 ≤ next.2
  length : groups.length ≤ limit
  oldest : ∀ row ∈ t.rows, row.lastDialed < threshold → dialGroup row ∉ groups →
    groups.length = limit ∧ ∀ group ∈ groups, group.2 ≤ row.lastDialed

end ShardRepository

open ShardRepository

/-- An entry of `memoryCachedPeerIds`. Both times are zero at first. -/
structure CachedPeer where
  lastDialed : ℕ := 0
  lastSeen : ℕ := 0

/-- What becomes of a dial before it updates the rows. -/
inductive DialOutcome where
  | dialed
  | noAddresses
  | failed
  deriving DecidableEq

/-- An update of the rows of a peer: its time, whether the peer was seen, and whether it belongs to
    a dial or to a connection. -/
structure PeerUpdate where
  peerId : String
  now : ℕ
  seen : Bool
  ofDial : Bool
  deriving DecidableEq

/-- What was done last to the rows of a key: nothing since the node was started, a creation, or a
    write. -/
inductive RowHistory where
  | untouched
  | created
  | written (timestamp : ℕ)

/-- The table, the cache, the updates that the database was sent and those that it has answered, the
    time, and the histories of the rows. -/
structure DialState where
  shard : ShardTable
  memoryCachedPeerIds : String → CachedPeer
  sent : List PeerUpdate
  answered : List (PeerUpdate × ℕ)
  clock : ℕ
  history : String × String → RowHistory

/-- A step: a dial gets to its update, a peer connects, the database performs or rejects an update,
    an update returns, and the two statements of a pull. A dial whose update is rejected gets to
    another one, as a dial that failed. -/
inductive DialAction where
  | dial (peerId : String) (outcome : DialOutcome) (now : ℕ)
  | connect (peerId : String) (now : ℕ)
  | perform (update : PeerUpdate) (rowsUpdated : ℕ)
  | reject (update : PeerUpdate)
  | finish (update : PeerUpdate) (rowsUpdated now : ℕ)
  | remove (blockchainId : String)
  | create (newPeerRecords : List Shard)

namespace DialState

/-- The state in which a node starts. -/
def initial (shard : ShardTable) (startedAt : ℕ) : DialState :=
  ⟨shard, fun _ => {}, [], [], startedAt, fun _ => .untouched⟩

-- What the columns keep of a date.
variable (keepDate : ℕ → ℕ) (s : DialState)

/-- The condition of `updatePeerRecordLastSeenAndLastDialed`, and of `updatePeerRecordLastDialed`.
    -/
def isStale (update : PeerUpdate) : Bool :=
  (update.seen &&
      (s.memoryCachedPeerIds update.peerId).lastSeen + peerRecordUpdateDelay < update.now) ||
    (s.memoryCachedPeerIds update.peerId).lastDialed + peerRecordUpdateDelay < update.now

/-- `updatePeerRecordLastSeenAndLastDialed` and `updatePeerRecordLastDialed`, up to the statement.
    -/
def updatePeerRecord (update : PeerUpdate) : DialState :=
  if s.isStale update then { s with sent := s.sent ++ [update], clock := update.now }
  else { s with clock := update.now }

/-- The update of a dial. -/
def updateOfDial (peerId : String) (outcome : DialOutcome) (now : ℕ) : PeerUpdate :=
  ⟨peerId, now, outcome = .dialed, true⟩

/-- The update of a connection. -/
def updateOfConnection (peerId : String) (now : ℕ) : PeerUpdate := ⟨peerId, now, true, false⟩

/-- The statement of an update. -/
def statement (update : PeerUpdate) : ShardTable → ShardTable :=
  if update.seen then updatePeerRecordLastSeenAndLastDialed update.peerId (keepDate update.now)
  else updatePeerRecordLastDialed update.peerId (keepDate update.now)

/-- The entry of the cache after an update that changed rows. -/
def remember (update : PeerUpdate) (cached : CachedPeer) : CachedPeer :=
  if update.seen then ⟨update.now, update.now⟩ else { cached with lastDialed := update.now }

/-- What a step leaves. -/
def act : DialAction → DialState
  | .dial peerId outcome now => s.updatePeerRecord (updateOfDial peerId outcome now)
  | .connect peerId now => s.updatePeerRecord (updateOfConnection peerId now)
  | .perform update rowsUpdated =>
    { s with
      shard := statement keepDate update s.shard
      sent := s.sent.erase update
      answered := (update, rowsUpdated) :: s.answered
      history := fun key =>
        if key.1 = update.peerId then .written update.now else s.history key }
  | .reject update => { s with sent := s.sent.erase update }
  | .finish update rowsUpdated now =>
    { s with
      memoryCachedPeerIds := if rowsUpdated = 0 then s.memoryCachedPeerIds else
        Function.update s.memoryCachedPeerIds update.peerId
          (remember update (s.memoryCachedPeerIds update.peerId))
      answered := s.answered.erase (update, rowsUpdated)
      clock := now }
  | .remove blockchainId => { s with shard := removeShardingTablePeerRecords blockchainId s.shard }
  | .create newPeerRecords =>
    { s with
      shard := createManyPeerRecords newPeerRecords s.shard
      history := fun key =>
        if key ∈ newPeerRecords.map Shard.key ∧ key ∉ s.shard.keys then .created
        else s.history key }

/-- The step can be taken. The records of a pull leave `lastDialed` to its default. -/
def CanAct : DialAction → Prop
  | .dial _ _ now | .connect _ now => s.clock ≤ now
  | .perform update _ | .reject update => update ∈ s.sent
  | .finish update rowsUpdated now => (update, rowsUpdated) ∈ s.answered ∧ s.clock ≤ now
  | .remove _ => True
  | .create newPeerRecords => ∀ record ∈ newPeerRecords, record.lastDialed = 0

/-- The dial that finishes with a step, and its time. -/
def finishedDial : DialAction → Option (String × ℕ)
  | .dial peerId outcome now =>
    if s.isStale (updateOfDial peerId outcome now) then none else some (peerId, now)
  | .finish update _ now => if update.ofDial then some (update.peerId, now) else none
  | _ => none

/-- What a sequence of steps leaves. -/
def actAll (actions : List DialAction) : DialState := actions.foldl (act keepDate) s

/-- The peer was dialed at most the delay ago, as its rows have it, and comes after all those that
    were not. Among the rows that are younger than the delay it may stand anywhere. -/
structure IsDialed (table : ShardTable) (peerId : String) (now : ℕ) : Prop where
  recent : ∀ row ∈ table.rows, row.peerId = peerId → now ≤ row.lastDialed + peerRecordUpdateDelay
  behind : ∀ limit threshold groups, GetsPeersToDial limit threshold table groups →
    ∀ ahead time after, groups = ahead ++ (peerId, time) :: after →
      ∀ row ∈ table.rows, row.lastDialed + peerRecordUpdateDelay < now → dialGroup row ∈ ahead

/-- The last thing that was done to each row of the peer was a write, of a time that is at most the
    delay ago. -/
def IsWritten (peerId : String) (now : ℕ) : Prop :=
  ∀ row ∈ s.shard.rows, row.peerId = peerId → ∃ timestamp,
    s.history row.key = .written timestamp ∧ now ≤ keepDate timestamp + peerRecordUpdateDelay

/-- The dial that finishes with the step, if any, leaves the peer dialed. -/
def Rotates (action : DialAction) : Prop :=
  ∀ peerId now, s.finishedDial action = some (peerId, now) →
    IsDialed (s.act keepDate action).shard peerId now

/-- The dial that finishes with the step, if any, finds the rows of the peer written. -/
def FindsWritten (action : DialAction) : Prop :=
  ∀ peerId now, s.finishedDial action = some (peerId, now) → s.IsWritten keepDate peerId now

/-- Statements are performed in the order in which they were sent, and the delay of a date, as the
    columns keep it, is not over when a dial takes it for recent or has its update returned. -/
def IsOrderly : DialAction → Prop
  | .perform update _ => s.sent.head? = some update
  | .dial peerId outcome now => s.isStale (updateOfDial peerId outcome now) = false →
      now ≤ keepDate (s.memoryCachedPeerIds peerId).lastDialed + peerRecordUpdateDelay
  | .finish update _ now => update.ofDial → now ≤ keepDate update.now + peerRecordUpdateDelay
  | _ => True

/-- The dial that finishes with the step, if any, finds no row of the peer that was created since
    the last write. -/
def FindsNoneCreated (action : DialAction) : Prop :=
  ∀ peerId now, s.finishedDial action = some (peerId, now) →
    ∀ row ∈ s.shard.rows, row.peerId = peerId → s.history row.key ≠ .created

/-- The histories tell the times of the rows, and the rows of a peer that is in the cache, or that
    the database has answered for, have one. -/
structure Inv : Prop where
  written : ∀ row ∈ s.shard.rows, ∀ timestamp, s.history row.key = .written timestamp →
    row.lastDialed = keepDate timestamp
  created : ∀ row ∈ s.shard.rows, s.history row.key = .created → row.lastDialed = 0
  cached : ∀ peerId, (s.memoryCachedPeerIds peerId).lastDialed ≠ 0 →
    ∀ blockchainId, s.history (peerId, blockchainId) ≠ .untouched
  answered : ∀ update ∈ s.answered, ∀ blockchainId,
    s.history (update.1.peerId, blockchainId) ≠ .untouched
  late : peerRecordUpdateDelay < s.clock

/-- The time is not later than those of the statements that are still to be performed. -/
def IsPast (time : ℕ) : Prop := time ≤ s.clock ∧ ∀ update ∈ s.sent, time ≤ update.now

/-- Statements are performed in the order of their times, and neither the cache nor an answer is
    ahead of what is written. -/
structure Ordered : Prop where
  sorted : s.sent.Pairwise fun update next => update.now ≤ next.now
  sent : ∀ update ∈ s.sent, update.now ≤ s.clock
  pastCached : ∀ peerId, s.IsPast (s.memoryCachedPeerIds peerId).lastDialed
  pastAnswered : ∀ answer ∈ s.answered, s.IsPast answer.1.now
  cached : ∀ peerId blockchainId timestamp, s.history (peerId, blockchainId) = .written timestamp →
    (s.memoryCachedPeerIds peerId).lastDialed ≤ timestamp
  answered : ∀ answer ∈ s.answered, ∀ blockchainId timestamp,
    s.history (answer.1.peerId, blockchainId) = .written timestamp → answer.1.now ≤ timestamp

end DialState

/-- A run of a node that is started later than the delay. -/
structure DialRun (keepDate : ℕ → ℕ) where
  shard : ShardTable
  startedAt : ℕ
  late : peerRecordUpdateDelay < startedAt
  actions : List DialAction
  canAct : Along (fun before => ((DialState.initial shard startedAt).actAll keepDate before).CanAct)
    actions

namespace DialState

variable {keepDate : ℕ → ℕ} {s : DialState}

/-! ### The statements -/

/-- The rows of the peer get the time, and the others stay as they are. -/
theorem mem_rows_statement {update : PeerUpdate} {t : ShardTable} {row : Shard}
    (h : row ∈ (statement keepDate update t).rows) :
    row.peerId = update.peerId ∧ row.lastDialed = keepDate update.now ∨
      row.peerId ≠ update.peerId ∧ row ∈ t.rows := by
  rw [statement] at h
  split at h
  all_goals
    obtain ⟨old, hold, rfl⟩ := List.mem_map.mp h
    by_cases hpeer : (old.peerId == update.peerId) = true
    · simp only [hpeer, if_true]
      exact .inl ⟨beq_iff_eq.mp hpeer, trivial⟩
    · simp only [hpeer]
      exact .inr ⟨fun heq => hpeer (beq_iff_eq.mpr heq), hold⟩

/-- A row has the time that it had before the pull, or the default if its key is new. -/
theorem mem_rows_create {newPeerRecords : List Shard} {t : ShardTable} {row : Shard}
    (hdefault : ∀ record ∈ newPeerRecords, record.lastDialed = 0)
    (h : row ∈ (createManyPeerRecords newPeerRecords t).rows) :
    (∃ old ∈ t.rows, old.key = row.key ∧ old.lastDialed = row.lastDialed) ∨
      (row.key ∈ newPeerRecords.map Shard.key ∧ row.key ∉ t.keys) ∧ row.lastDialed = 0 := by
  have hkeeps : ∀ old new, (updateOnDuplicate.apply old new).lastDialed = old.lastDialed :=
    fun _ _ => rfl
  rcases Table.mem_rows_upsertAll hkeeps h with hold | ⟨hnew, record, hrecord, hkey, htime⟩
  · exact .inl hold
  · exact .inr ⟨⟨hkey ▸ List.mem_map_of_mem hrecord, hnew⟩, htime ▸ hdefault record hrecord⟩

/-! ### The check -/

@[simp] theorem shard_updatePeerRecord (update : PeerUpdate) :
    (s.updatePeerRecord update).shard = s.shard := by
  rw [updatePeerRecord]
  split <;> rfl

@[simp] theorem memoryCachedPeerIds_updatePeerRecord (update : PeerUpdate) :
    (s.updatePeerRecord update).memoryCachedPeerIds = s.memoryCachedPeerIds := by
  rw [updatePeerRecord]
  split <;> rfl

@[simp] theorem answered_updatePeerRecord (update : PeerUpdate) :
    (s.updatePeerRecord update).answered = s.answered := by
  rw [updatePeerRecord]
  split <;> rfl

@[simp] theorem clock_updatePeerRecord (update : PeerUpdate) :
    (s.updatePeerRecord update).clock = update.now := by
  rw [updatePeerRecord]
  split <;> rfl

@[simp] theorem history_updatePeerRecord (update : PeerUpdate) :
    (s.updatePeerRecord update).history = s.history := by
  rw [updatePeerRecord]
  split <;> rfl

/-- A statement that was sent is that of the update, or was sent before. -/
theorem mem_sent_updatePeerRecord {update next : PeerUpdate}
    (h : next ∈ (s.updatePeerRecord update).sent) : next ∈ s.sent ∨ next = update := by
  rw [updatePeerRecord] at h
  split at h
  · exact (List.mem_append.mp h).imp_right List.mem_singleton.mp
  · exact .inl h

/-! ### The invariant -/

theorem inv_initial {shard : ShardTable} {startedAt : ℕ} (h : peerRecordUpdateDelay < startedAt) :
    (initial shard startedAt).Inv keepDate where
  written _ _ _ := nofun
  created _ _ := nofun
  cached _ hcached := absurd rfl hcached
  answered _ hmem := absurd hmem List.not_mem_nil
  late := h

theorem Inv.updatePeerRecord (h : s.Inv keepDate) {update : PeerUpdate}
    (hclock : s.clock ≤ update.now) : (s.updatePeerRecord update).Inv keepDate where
  written := by simpa using h.written
  created := by simpa using h.created
  cached := by simpa using h.cached
  answered := by simpa using h.answered
  late := by simpa using h.late.trans_le hclock

/-- STEP (perform): the rows of the peer are written. -/
theorem Inv.perform (h : s.Inv keepDate) (update : PeerUpdate) (rowsUpdated : ℕ) :
    (s.act keepDate (.perform update rowsUpdated)).Inv keepDate where
  written row hrow timestamp hhistory := by
    rcases mem_rows_statement hrow with ⟨hpeer, htime⟩ | ⟨hpeer, hold⟩
    · obtain rfl : update.now = timestamp := RowHistory.written.inj ((if_pos hpeer).symm.trans hhistory)
      exact htime
    · exact h.written row hold timestamp ((if_neg hpeer).symm.trans hhistory)
  created row hrow hhistory := by
    rcases mem_rows_statement hrow with ⟨hpeer, -⟩ | ⟨hpeer, hold⟩
    · exact RowHistory.noConfusion ((if_pos hpeer).symm.trans hhistory)
    · exact h.created row hold ((if_neg hpeer).symm.trans hhistory)
  cached peerId hcached blockchainId := by
    change (if peerId = update.peerId then RowHistory.written update.now else _) ≠ _
    split
    · exact RowHistory.noConfusion
    · exact h.cached peerId hcached blockchainId
  answered answer hmem blockchainId := by
    change (if answer.1.peerId = update.peerId then RowHistory.written update.now else _) ≠ _
    split
    · exact RowHistory.noConfusion
    · next hne =>
      refine h.answered answer ((List.mem_cons.mp hmem).resolve_left ?_) blockchainId
      rintro rfl
      exact hne rfl
  late := h.late

/-- STEP (finish): the database has answered for what the cache remembers. -/
theorem Inv.finish (h : s.Inv keepDate) {update : PeerUpdate} {rowsUpdated now : ℕ}
    (hanswered : (update, rowsUpdated) ∈ s.answered) (hclock : s.clock ≤ now) :
    (s.act keepDate (.finish update rowsUpdated now)).Inv keepDate where
  written := h.written
  created := h.created
  cached peerId hcached blockchainId := by
    by_cases hpeer : peerId = update.peerId
    · subst hpeer
      exact h.answered _ hanswered blockchainId
    · refine h.cached peerId ?_ blockchainId
      rw [act] at hcached
      simp only at hcached
      split at hcached
      · exact hcached
      · rwa [Function.update_of_ne hpeer] at hcached
  answered answer hmem := h.answered answer (List.mem_of_mem_erase hmem)
  late := h.late.trans_le hclock

/-- STEP (create): the rows that a pull adds have the default. -/
theorem Inv.create (h : s.Inv keepDate) {newPeerRecords : List Shard}
    (hdefault : ∀ record ∈ newPeerRecords, record.lastDialed = 0) :
    (s.act keepDate (.create newPeerRecords)).Inv keepDate where
  written row hrow timestamp hhistory := by
    rcases mem_rows_create hdefault hrow with ⟨old, hold, hkey, htime⟩ | ⟨hnew, -⟩
    · have hkept : row.key ∈ s.shard.keys := hkey ▸ List.mem_map_of_mem hold
      have hsame := (if_neg fun hnew => hnew.2 hkept).symm.trans hhistory
      exact htime ▸ h.written old hold timestamp (hkey ▸ hsame)
    · exact RowHistory.noConfusion ((if_pos hnew).symm.trans hhistory)
  created row hrow hhistory := by
    rcases mem_rows_create hdefault hrow with ⟨old, hold, hkey, htime⟩ | ⟨-, hzero⟩
    · have hkept : row.key ∈ s.shard.keys := hkey ▸ List.mem_map_of_mem hold
      have hsame := (if_neg fun hnew => hnew.2 hkept).symm.trans hhistory
      exact htime ▸ h.created old hold (hkey ▸ hsame)
    · exact hzero
  cached peerId hcached blockchainId := by
    simp only [act]
    split
    · exact RowHistory.noConfusion
    · exact h.cached peerId hcached blockchainId
  answered answer hmem blockchainId := by
    simp only [act]
    split
    · exact RowHistory.noConfusion
    · exact h.answered answer hmem blockchainId
  late := h.late

/-- STEP (invariant): every step keeps it. -/
theorem Inv.act (h : s.Inv keepDate) {action : DialAction} (hcan : s.CanAct action) :
    (s.act keepDate action).Inv keepDate := by
  cases action with
  | dial peerId outcome now => exact h.updatePeerRecord hcan
  | connect peerId now => exact h.updatePeerRecord hcan
  | perform update rowsUpdated => exact h.perform update rowsUpdated
  | reject update => exact ⟨h.written, h.created, h.cached, h.answered, h.late⟩
  | finish update rowsUpdated now => exact h.finish hcan.1 hcan.2
  | remove blockchainId =>
    refine ⟨?_, ?_, h.cached, h.answered, h.late⟩
    · exact fun row hrow => h.written row (List.mem_of_mem_filter hrow)
    · exact fun row hrow => h.created row (List.mem_of_mem_filter hrow)
  | create newPeerRecords => exact h.create hcan

/-! ### The end of a dial -/

/-- Peers whose rows have recent times come after the others. -/
theorem isDialed_iff {t : ShardTable} {peerId : String} {now : ℕ} : IsDialed t peerId now ↔
    ∀ row ∈ t.rows, row.peerId = peerId → now ≤ row.lastDialed + peerRecordUpdateDelay := by
  refine ⟨IsDialed.recent, fun hrecent => ⟨hrecent, ?_⟩⟩
  rintro limit threshold groups hgroups ahead time after rfl row hrow hearlier
  have hmem : (peerId, time) ∈ ahead ++ (peerId, time) :: after :=
    List.mem_append_right ahead List.mem_cons_self
  obtain ⟨hdue, hgroup⟩ := hgroups.mem _ hmem
  obtain ⟨own, hown, hself⟩ := List.mem_map.mp hgroup
  obtain ⟨hpeer, htime⟩ := Prod.mk.inj hself
  have hlater : row.lastDialed < time := by
    have hrecent := hrecent own hown hpeer
    omega
  -- The group of the row is due, and no group that is not answered was dialed first.
  have hanswered : dialGroup row ∈ ahead ++ (peerId, time) :: after := by
    by_contra hnot
    have hle := (hgroups.oldest row hrow (hlater.trans hdue) hnot).2 _ hmem
    exact Nat.not_le_of_lt hlater hle
  rcases List.mem_append.mp hanswered with hahead | hrest
  · exact hahead
  · rcases List.mem_cons.mp hrest with heq | hafter
    · obtain ⟨-, heq⟩ := Prod.mk.inj heq
      exact absurd heq (Nat.ne_of_lt hlater)
    · have hsorted := (List.pairwise_append.mp hgroups.sorted).2.1
      exact absurd ((List.pairwise_cons.mp hsorted).1 _ hafter) (Nat.not_le_of_lt hlater)

/-- A dial that finishes changes no row, and comes after a write to the rows of its peer. -/
theorem Inv.finishedDial (h : s.Inv keepDate) {action : DialAction} (hcan : s.CanAct action)
    {peerId : String} {now : ℕ} (hfinished : s.finishedDial action = some (peerId, now)) :
    (s.act keepDate action).shard = s.shard ∧ peerRecordUpdateDelay < now ∧
      ∀ blockchainId, s.history (peerId, blockchainId) ≠ .untouched := by
  cases action with
  | dial dialed outcome time =>
    rw [DialState.finishedDial] at hfinished
    split at hfinished
    · cases hfinished
    · next hfresh =>
      obtain ⟨rfl, rfl⟩ := Prod.mk.inj (Option.some.inj hfinished)
      have hlate : peerRecordUpdateDelay < time := h.late.trans_le hcan
      refine ⟨?_, hlate, h.cached dialed ?_⟩
      · exact shard_updatePeerRecord _
      · intro hzero
        refine hfresh ?_
        have hstale : (s.memoryCachedPeerIds dialed).lastDialed + peerRecordUpdateDelay < time := by
          omega
        rw [isStale, Bool.or_eq_true, decide_eq_true_iff]
        exact .inr hstale
  | finish update rowsUpdated time =>
    rw [DialState.finishedDial] at hfinished
    split at hfinished
    · obtain ⟨rfl, rfl⟩ := Prod.mk.inj (Option.some.inj hfinished)
      exact ⟨rfl, h.late.trans_le hcan.2, h.answered _ hcan.1⟩
    · cases hfinished
  | connect | perform | reject | remove | create => cases hfinished

/-- STEP (dial): a dial leaves its peer dialed exactly if it finds the rows written. -/
theorem rotates_iff (h : s.Inv keepDate) {action : DialAction} (hcan : s.CanAct action) :
    s.Rotates keepDate action ↔ s.FindsWritten keepDate action := by
  refine forall_congr' fun peerId => forall_congr' fun now => forall_congr' fun hfinished => ?_
  obtain ⟨hrows, hlate, htouched⟩ := h.finishedDial hcan hfinished
  rw [hrows, isDialed_iff]
  refine forall_congr' fun row => forall_congr' fun hrow => forall_congr' fun hpeer => ?_
  subst hpeer
  cases hhistory : s.history row.key with
  | untouched => exact absurd hhistory (htouched row.blockchainId)
  | created =>
    rw [h.created row hrow hhistory]
    refine iff_of_false (by omega) ?_
    rintro ⟨timestamp, hwritten, -⟩
    cases hwritten
  | written timestamp =>
    rw [h.written row hrow timestamp hhistory]
    constructor
    · intro hrecent
      exact ⟨timestamp, rfl, hrecent⟩
    · rintro ⟨same, heq, hrecent⟩
      obtain rfl := RowHistory.written.inj heq
      exact hrecent

/-! ### Orderly runs -/

theorem ordered_initial (shard : ShardTable) (startedAt : ℕ) :
    (initial shard startedAt).Ordered where
  sorted := List.Pairwise.nil
  sent _ hmem := absurd hmem List.not_mem_nil
  pastCached _ := ⟨Nat.zero_le _, fun _ hmem => absurd hmem List.not_mem_nil⟩
  pastAnswered _ hmem := absurd hmem List.not_mem_nil
  cached _ _ _ := nofun
  answered _ hmem := absurd hmem List.not_mem_nil

/-- STEP (times): the clock goes on, and new statements have its time. -/
theorem clock_act (keepDate : ℕ → ℕ) {action : DialAction} (hcan : s.CanAct action) :
    s.clock ≤ (s.act keepDate action).clock ∧
      ∀ update ∈ (s.act keepDate action).sent, update ∈ s.sent ∨
        update.now = (s.act keepDate action).clock := by
  have hupdate : ∀ update, s.clock ≤ update.now → s.clock ≤ (s.updatePeerRecord update).clock ∧
      ∀ next ∈ (s.updatePeerRecord update).sent, next ∈ s.sent ∨
        next.now = (s.updatePeerRecord update).clock := by
    intro update hclock
    rw [clock_updatePeerRecord]
    exact ⟨hclock, fun next hnext => (mem_sent_updatePeerRecord hnext).imp_right (congrArg _)⟩
  cases action with
  | dial peerId outcome now => exact hupdate _ hcan
  | connect peerId now => exact hupdate _ hcan
  | perform update rowsUpdated =>
    exact ⟨Nat.le_refl _, fun _ hnext => .inl (List.mem_of_mem_erase hnext)⟩
  | reject update => exact ⟨Nat.le_refl _, fun _ hnext => .inl (List.mem_of_mem_erase hnext)⟩
  | finish update rowsUpdated now => exact ⟨hcan.2, fun _ => .inl⟩
  | remove blockchainId => exact ⟨Nat.le_refl _, fun _ => .inl⟩
  | create newPeerRecords => exact ⟨Nat.le_refl _, fun _ => .inl⟩

theorem IsPast.act {time : ℕ} (h : s.IsPast time) {action : DialAction} (hcan : s.CanAct action) :
    (s.act keepDate action).IsPast time := by
  obtain ⟨hclock, hsent⟩ := clock_act keepDate hcan
  refine ⟨h.1.trans hclock, ?_⟩
  intro update hupdate
  rcases hsent update hupdate with hbefore | hnow
  · exact h.2 update hbefore
  · exact hnow ▸ h.1.trans hclock

/-- STEP (statements): they stay in the order of their times. -/
theorem Ordered.sorted_act (h : s.Ordered) {action : DialAction} (hcan : s.CanAct action) :
    (s.act keepDate action).sent.Pairwise fun update next => update.now ≤ next.now := by
  have hupdate : ∀ update, s.clock ≤ update.now →
      (s.updatePeerRecord update).sent.Pairwise fun update next => update.now ≤ next.now := by
    intro update hclock
    rw [updatePeerRecord]
    split
    · refine List.pairwise_append.mpr ⟨h.sorted, List.pairwise_singleton _ _, ?_⟩
      intro sent hsent next hnext
      rw [List.mem_singleton.mp hnext]
      exact (h.sent sent hsent).trans hclock
    · exact h.sorted
  cases action with
  | dial peerId outcome now => exact hupdate _ hcan
  | connect peerId now => exact hupdate _ hcan
  | perform update rowsUpdated => exact h.sorted.sublist List.erase_sublist
  | reject update => exact h.sorted.sublist List.erase_sublist
  | finish | remove | create => exact h.sorted

/-- STEP (histories): a time that is written is that of a statement now performed, or was written
    before. -/
theorem written_act {action : DialAction} {key : String × String} {timestamp : ℕ}
    (h : (s.act keepDate action).history key = .written timestamp) :
    (∃ update rowsUpdated, action = .perform update rowsUpdated ∧ timestamp = update.now) ∨
      s.history key = .written timestamp := by
  cases action with
  | dial | connect =>
    rw [act, history_updatePeerRecord] at h
    exact .inr h
  | perform update rowsUpdated =>
    rw [act] at h
    simp only at h
    split at h
    · exact .inl ⟨update, rowsUpdated, rfl, (RowHistory.written.inj h).symm⟩
    · exact .inr h
  | reject | finish | remove => exact .inr h
  | create newPeerRecords =>
    rw [act] at h
    simp only at h
    split at h
    · cases h
    · exact .inr h

/-- STEP (cache): an entry has the time of an update that now returns, or the time that it had. -/
theorem lastDialed_act (keepDate : ℕ → ℕ) (s : DialState) (action : DialAction) (peerId : String) :
    (∃ update rowsUpdated now, action = .finish update rowsUpdated now ∧ update.peerId = peerId ∧
        ((s.act keepDate action).memoryCachedPeerIds peerId).lastDialed = update.now) ∨
      ((s.act keepDate action).memoryCachedPeerIds peerId).lastDialed =
        (s.memoryCachedPeerIds peerId).lastDialed := by
  cases action with
  | dial | connect =>
    rw [act, memoryCachedPeerIds_updatePeerRecord]
    exact .inr rfl
  | perform | reject | remove | create => exact .inr rfl
  | finish update rowsUpdated now =>
    rw [act]
    simp only
    split
    · exact .inr rfl
    · by_cases hpeer : peerId = update.peerId
      · subst hpeer
        refine .inl ⟨update, rowsUpdated, now, rfl, rfl, ?_⟩
        rw [Function.update_self, remember]
        split <;> rfl
      · exact .inr (by rw [Function.update_of_ne hpeer])

/-- STEP (answers): an answer is that to a statement now performed, or was there before. -/
theorem answered_act {action : DialAction} {answer : PeerUpdate × ℕ}
    (h : answer ∈ (s.act keepDate action).answered) :
    action = .perform answer.1 answer.2 ∨ answer ∈ s.answered := by
  cases action with
  | dial | connect =>
    rw [act, answered_updatePeerRecord] at h
    exact .inr h
  | perform update rowsUpdated =>
    refine (List.mem_cons.mp h).imp_left ?_
    rintro rfl
    rfl
  | finish update rowsUpdated now => exact .inr (List.mem_of_mem_erase h)
  | reject | remove | create => exact .inr h

/-- STEP (perform): the time of the statement that was sent first is past. -/
theorem Ordered.isPast_perform (h : s.Ordered) {update : PeerUpdate} {rowsUpdated : ℕ}
    (hfirst : s.sent.head? = some update) :
    (s.act keepDate (.perform update rowsUpdated)).IsPast update.now := by
  obtain ⟨rest, hsent⟩ := List.head?_eq_some_iff.mp hfirst
  have hsorted := List.pairwise_cons.mp (hsent ▸ h.sorted)
  refine ⟨h.sent update (hsent ▸ List.mem_cons_self), ?_⟩
  intro next hnext
  have hrest : next ∈ (update :: rest).erase update := hsent ▸ hnext
  rw [List.erase_cons_head] at hrest
  exact hsorted.1 next hrest

/-- STEP (order): every orderly step keeps it. -/
theorem Ordered.act (h : s.Ordered) {action : DialAction} (hcan : s.CanAct action)
    (horderly : s.IsOrderly keepDate action) : (s.act keepDate action).Ordered where
  sorted := h.sorted_act hcan
  sent update hupdate := by
    obtain ⟨hclock, hsent⟩ := clock_act keepDate hcan
    rcases hsent update hupdate with hbefore | hnow
    · exact (h.sent update hbefore).trans hclock
    · exact Nat.le_of_eq hnow
  pastCached peerId := by
    rcases lastDialed_act keepDate s action peerId with
      ⟨update, rowsUpdated, now, rfl, rfl, hnow⟩ | hsame
    · exact hnow ▸ (h.pastAnswered _ hcan.1).act hcan
    · exact hsame ▸ (h.pastCached peerId).act hcan
  pastAnswered answer hanswer := by
    rcases answered_act hanswer with rfl | hbefore
    · exact h.isPast_perform horderly
    · exact (h.pastAnswered answer hbefore).act hcan
  cached peerId blockchainId timestamp hhistory := by
    rcases lastDialed_act keepDate s action peerId with
      ⟨update, rowsUpdated, now, rfl, rfl, hnow⟩ | hsame
    · exact hnow ▸ h.answered _ hcan.1 blockchainId timestamp hhistory
    · rw [hsame]
      rcases written_act hhistory with ⟨update, rowsUpdated, rfl, rfl⟩ | hbefore
      · exact (h.pastCached peerId).2 update hcan
      · exact h.cached peerId blockchainId timestamp hbefore
  answered answer hanswer blockchainId timestamp hhistory := by
    rcases answered_act hanswer with rfl | hmem
    · rcases written_act hhistory with ⟨update, rowsUpdated, heq, rfl⟩ | hbefore
      · obtain ⟨rfl, -⟩ := DialAction.perform.inj heq
        exact Nat.le_refl _
      · -- The statement is performed on the rows of its own peer.
        have hself := (if_pos rfl).symm.trans hhistory
        exact Nat.le_of_eq (RowHistory.written.inj hself)
    · rcases written_act hhistory with ⟨update, rowsUpdated, rfl, rfl⟩ | hbefore
      · exact (h.pastAnswered answer hmem).2 update hcan
      · exact h.answered answer hmem blockchainId timestamp hbefore

/-- STEP (dial): where the steps are orderly and the columns keep the dates in their order, the rows
    are found written exactly if none is found created. -/
theorem findsWritten_iff (hmono : Monotone keepDate) (h : s.Inv keepDate) (hordered : s.Ordered)
    {action : DialAction} (hcan : s.CanAct action) (horderly : s.IsOrderly keepDate action) :
    s.FindsWritten keepDate action ↔ s.FindsNoneCreated action := by
  refine forall_congr' fun peerId => forall_congr' fun now => forall_congr' fun hfinished => ?_
  refine forall_congr' fun row => forall_congr' fun hrow => forall_congr' fun hpeer => ?_
  subst hpeer
  have htouched := (h.finishedDial hcan hfinished).2.2 row.blockchainId
  constructor
  · rintro ⟨timestamp, hwritten, -⟩ hcreated
    cases hwritten.symm.trans hcreated
  · intro hnot
    cases hhistory : s.history row.key with
    | untouched => exact absurd hhistory htouched
    | created => exact absurd hhistory hnot
    | written timestamp =>
      refine ⟨timestamp, rfl, ?_⟩
      cases action with
      | dial dialed outcome time =>
        rw [DialState.finishedDial] at hfinished
        split at hfinished
        · cases hfinished
        · next hfresh =>
          obtain ⟨hpeer, rfl⟩ := Prod.mk.inj (Option.some.inj hfinished)
          subst hpeer
          have hcached := hmono (hordered.cached _ _ timestamp hhistory)
          exact (horderly (Bool.eq_false_of_not_eq_true hfresh)).trans
            (Nat.add_le_add_right hcached _)
      | finish update rowsUpdated time =>
        rw [DialState.finishedDial] at hfinished
        split at hfinished
        · next hdial =>
          obtain ⟨hpeer, rfl⟩ := Prod.mk.inj (Option.some.inj hfinished)
          have hanswered :=
            hmono (hordered.answered _ hcan.1 row.blockchainId timestamp (hpeer ▸ hhistory))
          exact (horderly hdial).trans (Nat.add_le_add_right hanswered _)
        · cases hfinished
      | connect | perform | reject | remove | create => cases hfinished

end DialState

namespace DialRun

variable {keepDate : ℕ → ℕ} (run : DialRun keepDate)

/-- The state after a part of the run. -/
def stateAfter (before : List DialAction) : DialState :=
  (DialState.initial run.shard run.startedAt).actAll keepDate before

/-- RUN (invariant): it holds all along the run. -/
theorem always_inv : Always (fun before => (run.stateAfter before).Inv keepDate) run.actions := by
  refine run.canAct.always_foldl (C := DialState.CanAct) (K := DialState.Inv keepDate)
    (DialState.inv_initial run.late) ?_
  intro s action hinv hcan
  exact hinv.act hcan

/-- In an orderly run, every dial leaves its peer dialed if and only if no dial finishes on a row
    that was created since the last write. -/
theorem alwaysRotates_iff_of_orderly (hmono : Monotone keepDate)
    (horderly : Along (fun before => (run.stateAfter before).IsOrderly keepDate) run.actions) :
    Along (fun before => (run.stateAfter before).Rotates keepDate) run.actions ↔
      Along (fun before => (run.stateAfter before).FindsNoneCreated) run.actions := by
  have hsteps := Along.and run.canAct horderly
  have hordered : Always (fun before => (run.stateAfter before).Ordered) run.actions := by
    refine hsteps.always_foldl (C := fun s action => s.CanAct action ∧ s.IsOrderly keepDate action)
      (K := DialState.Ordered) (DialState.ordered_initial _ _) ?_
    rintro s action hordered ⟨hcan, horderly⟩
    exact hordered.act hcan horderly
  refine hsteps.iff (run.always_inv.and hordered) ?_
  rintro before action ⟨hinv, hordered⟩ ⟨hcan, horderly⟩
  exact (DialState.rotates_iff hinv hcan).trans
    (DialState.findsWritten_iff hmono hinv hordered hcan horderly)

/-- The columns keep seconds. -/
def keepSeconds (date : ℕ) : ℕ := date - date % 1000

theorem monotone_keepSeconds : Monotone keepSeconds := by
  intro date later hle
  simp only [keepSeconds]
  omega

example (run : DialRun keepSeconds)
    (horderly : Along (fun before => (run.stateAfter before).IsOrderly keepSeconds) run.actions)
    (hnone : Along (fun before => (run.stateAfter before).FindsNoneCreated) run.actions) :
    Along (fun before => (run.stateAfter before).Rotates keepSeconds) run.actions :=
  (run.alwaysRotates_iff_of_orderly monotone_keepSeconds horderly).mpr hnone

/-- CODE BUG (dialing): every dial of a run leaves its peer dialed if and only if, whenever a dial
    finishes, the last thing that was done to the rows of its peer was a write that is recent. -/
theorem alwaysRotates_iff :
    Along (fun before => (run.stateAfter before).Rotates keepDate) run.actions ↔
      Along (fun before => (run.stateAfter before).FindsWritten keepDate) run.actions :=
  run.canAct.iff run.always_inv fun _ _ hinv hcan => DialState.rotates_iff hinv hcan

/-- The row of a peer, as a pull creates it. -/
def pulledRow : Shard := ⟨"QmPeer", "hardhat1:31337", "1", "50000", "0x51", 0, 0⟩

/-- The table with that row. -/
def pulledTable : ShardTable := ⟨[pulledRow], List.nodup_singleton _⟩

/-- The update of a first dial. -/
def firstUpdate : PeerUpdate := DialState.updateOfDial "QmPeer" .dialed 1700000000000

/-- The peer is dialed, the sharding table is pulled, and the peer is dialed a minute later. -/
def pulledActions : List DialAction :=
  [.dial "QmPeer" .dialed 1700000000000, .perform firstUpdate 1, .finish firstUpdate 1 1700000000000,
    .remove "hardhat1:31337", .create [pulledRow], .dial "QmPeer" .dialed 1700000060000]

theorem canAct_pulled : Along (fun before =>
    ((DialState.initial pulledTable 1700000000000).actAll keepSeconds before).CanAct)
      pulledActions := by
  rw [pulledActions]
  simp only [along_cons]
  refine ⟨Nat.le_refl _, ?_, ?_, trivial, ?_, ?_, along_nil⟩
  · exact List.mem_singleton_self _
  · exact ⟨List.mem_singleton_self _, Nat.le_refl _⟩
  · intro record hrecord
    rw [List.mem_singleton.mp hrecord]
    rfl
  · exact Nat.le_add_right 1700000000000 60000

/-- The run of these actions. -/
def pulledRun : DialRun keepSeconds where
  shard := pulledTable
  startedAt := 1700000000000
  late := by decide
  actions := pulledActions
  canAct := canAct_pulled

/-- COUNTEREXAMPLE: the second dial is not written, and the row has the time zero. -/
theorem not_rotates_pulledRun :
    ¬ Along (fun before => (pulledRun.stateAfter before).Rotates keepSeconds) pulledRun.actions := by
  intro hrotates
  have hdialed := hrotates (pulledActions.take 5) (.dial "QmPeer" .dialed 1700000060000)
    (List.prefix_refl _) "QmPeer" 1700000060000 rfl
  exact absurd (hdialed.recent pulledRow (by decide) rfl) (by decide)

end DialRun

end OtNode
