import OtNode.Lib.Trace
import OtNode.Paranet.SyncList
import Mathlib.Data.List.Chain

/-! The retries of a paranet sync.

    A run attempts the entries of the sync batch side by side, and counts an attempt that fails. The
    count is kept by a statement that looks for the error among the rows, where nothing has put it:
    it finds a row only if the error is stored there already. -/

namespace OtNode

open ParanetKcRepository Trace

/-- A `syncKc`, from the sync batch to its end, with the error that it returns. -/
structure SyncAttempt where
  paranetUAL : String
  ual : String
  startedAt : ℕ
  endedAt : ℕ
  error : Option String
  deriving DecidableEq

/-- The key of the row that the attempt is at. -/
def SyncAttempt.key (attempt : SyncAttempt) : String × String := (attempt.ual, attempt.paranetUAL)

/-- A run of the command for a paranet: the UALs that it stores, the times at which it stores them and
    reads the sync batch, and what becomes of its attempts. Times are those of the database, whose
    clock has whole seconds. -/
structure ParanetSyncRun where
  paranetUAL : String
  blockchain : String
  missingUALs : List String
  createdAt : ℕ
  now : ℕ
  error : String → Option String
  endedAt : String → ℕ

/-- The table, and the attempts so far. -/
structure RetryState where
  rows : ParanetKcTable
  attempts : List SyncAttempt

namespace RetryState

variable (s : RetryState) (run : ParanetSyncRun)

/-- The attempt of a run at a row. -/
def attemptOf (ual : String) : SyncAttempt :=
  ⟨run.paranetUAL, ual, run.now, run.endedAt ual, run.error ual⟩

/-- `syncKc`. -/
def syncKc (ual : String) : RetryState where
  rows := match run.error ual with
    | none => markAsSynced run.paranetUAL ual (run.endedAt ual) s.rows
    | some error => incrementRetries run.paranetUAL ual error (run.endedAt ual) s.rows
  attempts := s.attempts ++ [attemptOf run ual]

/-- The sync batch of a run, which is none if everything is synced. -/
def syncBatch (rows : ParanetKcTable) : List ParanetKc :=
  if getCountUnsynced run.paranetUAL rows = 0 then []
  else getSyncBatch run.paranetUAL paranetSyncRetriesLimit paranetSyncRetryDelayMs
    paranetSyncKaCount run.now rows

/-- `createParanetKcRecords`, of the run. -/
def create : Option ParanetKcTable :=
  createParanetKcRecords run.paranetUAL run.blockchain run.missingUALs run.createdAt s.rows

/-- `execute`. It fails where the rows cannot be stored. -/
def execute : RetryState :=
  match s.create run with
  | none => s
  | some rows => (syncBatch run rows).foldl (fun s row => s.syncKc run row.ual) { s with rows }

/-- What a sequence of runs leaves. -/
def executeAll (runs : List ParanetSyncRun) : RetryState := runs.foldl execute s

/-- The attempts at a row. -/
def attemptsAt (key : String × String) : List SyncAttempt :=
  s.attempts.filter fun attempt => attempt.key = key

/-- The retry and delay conditions of `getSyncBatch`. -/
def IsDue (now : ℕ) (row : ParanetKc) : Prop :=
  row.retries < paranetSyncRetriesLimit ∧
    (row.retries = 0 ∨ row.updatedAt + paranetSyncRetryDelayMs ≤ now)

/-- The later of two attempts that fail comes after the delay. -/
def Apart (attempt next : SyncAttempt) : Prop :=
  attempt.error.isSome → next.error.isSome →
    attempt.endedAt + paranetSyncRetryDelayMs ≤ next.startedAt

/-- A row is attempted only so often, its failed attempts are apart, and while none has failed the
    retry and delay conditions let it pass. -/
structure Bounded : Prop where
  often : ∀ key, (s.attemptsAt key).length ≤ paranetSyncRetriesLimit
  apart : ∀ key, (s.attemptsAt key).IsChain Apart
  passes : ∀ row ∈ s.rows.rows, row.isSynced = false →
    (∀ attempt ∈ s.attemptsAt row.key, attempt.error = none) → ∀ now, IsDue now row

/-- An attempt of the run that fails does so with the error that its row has. -/
def Matches : Prop :=
  ∀ rows, s.create run = some rows → ∀ row ∈ syncBatch run rows, ∀ error,
    run.error row.ual = some error → row.errorMessage = some error

/-- Nothing was attempted so far. -/
def IsFresh : Prop := s.attempts = [] ∧ ∀ row ∈ s.rows.rows, row.retries = 0

/-- The row tells the attempts: how many there were, and when the last one ended. -/
structure Tells (row : ParanetKc) (attempts : List SyncAttempt) : Prop where
  often : attempts.length ≤ paranetSyncRetriesLimit
  apart : attempts.IsChain Apart
  retries : row.isSynced = false → attempts.length = row.retries
  failed : row.isSynced = false → ∀ attempt ∈ attempts, attempt.error.isSome
  updatedAt : row.isSynced = false → ∀ last ∈ attempts.getLast?, last.endedAt = row.updatedAt

/-- Every row tells its attempts, and there are none without a row. -/
structure Inv : Prop where
  rows : ∀ row ∈ s.rows.rows, Tells row (s.attemptsAt row.key)
  others : ∀ key ∉ s.rows.keys, s.attemptsAt key = []

variable {s run}

/-! ### The invariant -/

theorem Inv.bounded (h : s.Inv) : s.Bounded where
  often key := by
    by_cases hkey : key ∈ s.rows.keys
    · obtain ⟨row, hrow, rfl⟩ := List.mem_map.mp hkey
      exact (h.rows row hrow).often
    · rw [h.others key hkey]
      exact Nat.zero_le _
  apart key := by
    by_cases hkey : key ∈ s.rows.keys
    · obtain ⟨row, hrow, rfl⟩ := List.mem_map.mp hkey
      exact (h.rows row hrow).apart
    · rw [h.others key hkey]
      exact List.IsChain.nil
  passes row hrow hunsynced hnone now := by
    have htells := h.rows row hrow
    have hnil : s.attemptsAt row.key = [] := by
      refine List.eq_nil_iff_forall_not_mem.mpr ?_
      intro attempt hattempt
      have hfailed := htells.failed hunsynced attempt hattempt
      rw [hnone attempt hattempt] at hfailed
      cases hfailed
    have hzero := htells.retries hunsynced
    rw [hnil, List.length_nil] at hzero
    exact ⟨hzero ▸ (by decide), .inl hzero.symm⟩

/-- A row without retries has no attempts to tell. -/
theorem tells_nil {row : ParanetKc} (h : row.retries = 0) : Tells row [] where
  often := Nat.zero_le _
  apart := List.IsChain.nil
  retries _ := h.symm
  failed _ _ hattempt := absurd hattempt List.not_mem_nil
  updatedAt _ _ hlast := by cases hlast

theorem inv_of_isFresh (h : s.IsFresh) : s.Inv := by
  have hnone : ∀ key, s.attemptsAt key = [] := by
    intro key
    rw [attemptsAt, h.1, List.filter_nil]
  refine ⟨?_, fun key _ => hnone key⟩
  intro row hrow
  exact (hnone row.key).symm ▸ tells_nil (h.2 row hrow)

theorem Inv.create {rows : ParanetKcTable} (h : s.Inv) (hcreate : s.create run = some rows) :
    Inv { s with rows } := by
  have hrows := Table.rows_bulkCreate hcreate
  have hkeys : rows.keys = s.rows.keys ++ run.missingUALs.map fun ual => (ual, run.paranetUAL) := by
    rw [Table.keys, hrows, List.map_append, List.map_map]
    rfl
  have hdisjoint := List.disjoint_of_nodup_append (hkeys ▸ rows.nodup_keys)
  refine ⟨?_, ?_⟩
  · intro row hrow
    rcases List.mem_append.mp (hrows ▸ hrow) with hold | hnew
    · exact h.rows row hold
    · obtain ⟨ual, hual, rfl⟩ := List.mem_map.mp hnew
      have hnone : s.attemptsAt (ual, run.paranetUAL) = [] := by
        refine h.others _ ?_
        intro hkey
        exact hdisjoint hkey (List.mem_map_of_mem hual)
      change Tells _ (s.attemptsAt (ual, run.paranetUAL))
      exact hnone.symm ▸ tells_nil rfl
  · intro key hkey
    refine h.others key ?_
    intro hold
    refine hkey ?_
    change key ∈ rows.keys
    rw [hkeys]
    exact List.mem_append_left _ hold

/-! ### An attempt -/

/-- The row of an attempt, as the attempt leaves it: marked, or with its failure counted. -/
def settled (run : ParanetSyncRun) (row : ParanetKc) : ParanetKc :=
  match run.error row.ual with
  | none => { row with isSynced := true, updatedAt := run.endedAt row.ual }
  | some _ => { row with retries := row.retries + 1, updatedAt := run.endedAt row.ual }

theorem key_settled (row : ParanetKc) : (settled run row).key = row.key := by
  rw [settled]
  cases run.error row.ual <;> rfl

theorem isRow_iff {paranetUAL ual : String} {row : ParanetKc} :
    (ofParanet paranetUAL row && row.ual == ual) = true ↔ row.key = (ual, paranetUAL) := by
  rw [ofParanet, Bool.and_eq_true, beq_iff_eq, beq_iff_eq, ParanetKc.key, Prod.mk.injEq, and_comm]

/-- A row that an attempt is at: one of the paranet, with the error if the attempt fails. -/
structure Attempted (s : RetryState) (run : ParanetSyncRun) (row : ParanetKc) : Prop where
  mem : row ∈ s.rows.rows
  paranet : row.paranetUal = run.paranetUAL
  unsynced : row.isSynced = false
  due : IsDue run.now row
  stored : ∀ error, run.error row.ual = some error → row.errorMessage = some error

/-- STEP (rows): the row of the attempt is settled, and the others are as before. -/
theorem rows_syncKc {row : ParanetKc} (h : Attempted s run row) :
    (s.syncKc run row.ual).rows.rows =
      s.rows.rows.map fun other => if other.key = row.key then settled run row else other := by
  have hkey : row.key = (row.ual, run.paranetUAL) := by rw [ParanetKc.key, h.paranet]
  have hsame : ∀ other ∈ s.rows.rows, other.key = row.key → other = row := by
    intro other hother heq
    exact List.inj_on_of_nodup_map s.rows.nodup hother h.mem heq
  rw [syncKc]
  cases herror : run.error row.ual with
  | none =>
    refine List.map_congr_left ?_
    intro other hother
    by_cases heq : other.key = row.key
    · rw [if_pos heq, if_pos (isRow_iff.mpr (heq.trans hkey)), hsame other hother heq, settled,
        herror]
    · rw [if_neg heq, if_neg (isRow_iff.not.mpr (hkey ▸ heq))]
  | some error =>
    refine List.map_congr_left ?_
    intro other hother
    by_cases heq : other.key = row.key
    · have hstored := h.stored error herror
      rw [if_pos heq, hsame other hother heq, settled, herror, if_pos]
      rw [Bool.and_eq_true, isRow_iff, hkey, hstored, beq_self_eq_true]
      exact ⟨rfl, rfl⟩
    · rw [if_neg heq, if_neg]
      rw [Bool.and_eq_true, isRow_iff]
      exact fun hrow => heq (hrow.1.trans hkey.symm)

theorem mem_rows_syncKc {row : ParanetKc} (h : Attempted s run row) {other : ParanetKc} :
    other ∈ (s.syncKc run row.ual).rows.rows ↔
      other = settled run row ∨ other ∈ s.rows.rows ∧ other.key ≠ row.key := by
  rw [rows_syncKc h, List.mem_map]
  constructor
  · rintro ⟨before, hbefore, rfl⟩
    by_cases heq : before.key = row.key
    · rw [if_pos heq]
      exact .inl rfl
    · rw [if_neg heq]
      exact .inr ⟨hbefore, heq⟩
  · rintro (rfl | ⟨hother, hne⟩)
    · exact ⟨row, h.mem, if_pos rfl⟩
    · exact ⟨other, hother, if_neg hne⟩

theorem keys_syncKc {row : ParanetKc} (h : Attempted s run row) :
    (s.syncKc run row.ual).rows.keys = s.rows.keys := by
  rw [Table.keys, rows_syncKc h, List.map_map]
  refine List.map_congr_left ?_
  intro other _
  by_cases heq : other.key = row.key
  · rw [Function.comp, if_pos heq, key_settled, heq]
  · rw [Function.comp, if_neg heq]

theorem attemptsAt_syncKc_self (ual : String) :
    (s.syncKc run ual).attemptsAt (ual, run.paranetUAL) =
      s.attemptsAt (ual, run.paranetUAL) ++ [attemptOf run ual] := by
  rw [attemptsAt, syncKc, List.filter_append, attemptsAt]
  congr 1
  exact List.filter_cons_of_pos (decide_eq_true rfl)

theorem attemptsAt_syncKc_of_ne {ual : String} {key : String × String}
    (hne : key ≠ (ual, run.paranetUAL)) : (s.syncKc run ual).attemptsAt key = s.attemptsAt key := by
  rw [attemptsAt, syncKc, List.filter_append, attemptsAt]
  refine (congrArg _ ?_).trans (List.append_nil _)
  exact List.filter_cons_of_neg fun heq => hne (of_decide_eq_true heq).symm

/-- STEP (row): the settled row tells the attempts with the new one. -/
theorem Tells.settled {row : ParanetKc} {attempts : List SyncAttempt} (h : Tells row attempts)
    (hunsynced : row.isSynced = false) (hdue : IsDue run.now row) :
    Tells (settled run row) (attempts ++ [attemptOf run row.ual]) := by
  have hretries := h.retries hunsynced
  have hoften : (attempts ++ [attemptOf run row.ual]).length ≤ paranetSyncRetriesLimit := by
    rw [List.length_append, hretries]
    exact hdue.1
  have hapart : (attempts ++ [attemptOf run row.ual]).IsChain Apart := by
    rw [List.isChain_append]
    refine ⟨h.apart, List.isChain_singleton _, ?_⟩
    rintro last hlast next hnext - -
    obtain rfl := Option.some.inj hnext
    -- There was an attempt, so the row has waited for the delay.
    have hpos : row.retries ≠ 0 := by
      intro hzero
      rw [hzero] at hretries
      rw [List.length_eq_zero_iff.mp hretries] at hlast
      cases hlast
    rw [h.updatedAt hunsynced last hlast]
    exact hdue.2.resolve_left hpos
  refine ⟨hoften, hapart, ?_, ?_, ?_⟩
  · intro hstill
    rw [RetryState.settled] at hstill ⊢
    cases herror : run.error row.ual with
    | none =>
      rw [herror] at hstill
      cases hstill
    | some error =>
      rw [List.length_append, hretries]
      rfl
  · intro hstill attempt hattempt
    rcases List.mem_append.mp hattempt with hold | hnew
    · exact h.failed hunsynced attempt hold
    · rw [List.mem_singleton.mp hnew]
      rw [RetryState.settled] at hstill
      cases herror : run.error row.ual with
      | none =>
        rw [herror] at hstill
        cases hstill
      | some error =>
        rw [attemptOf, herror]
        rfl
  · intro _ last hlast
    rw [List.getLast?_concat] at hlast
    obtain rfl := Option.some.inj hlast
    rw [RetryState.settled, attemptOf]
    cases run.error row.ual <;> rfl

/-- STEP (attempt): the rows tell their attempts. -/
theorem Inv.syncKc {row : ParanetKc} (h : s.Inv) (hrow : Attempted s run row) :
    (s.syncKc run row.ual).Inv := by
  have hkey : row.key = (row.ual, run.paranetUAL) := by rw [ParanetKc.key, hrow.paranet]
  refine ⟨?_, ?_⟩
  · intro other hother
    rcases (mem_rows_syncKc hrow).mp hother with rfl | ⟨hbefore, hne⟩
    · rw [key_settled, hkey, attemptsAt_syncKc_self, ← hkey]
      exact (h.rows row hrow.mem).settled hrow.unsynced hrow.due
    · rw [attemptsAt_syncKc_of_ne (hkey ▸ hne)]
      exact h.rows other hbefore
  · intro key hnot
    rw [keys_syncKc hrow] at hnot
    have hne : key ≠ (row.ual, run.paranetUAL) := by
      rintro rfl
      exact hnot (hkey ▸ List.mem_map_of_mem hrow.mem)
    rw [attemptsAt_syncKc_of_ne hne]
    exact h.others key hnot

/-- RUN (batch): the attempts at a batch leave rows that tell them. -/
theorem Inv.batch {batch : List ParanetKc} (h : s.Inv) (hnodup : (batch.map ParanetKc.key).Nodup)
    (hbatch : ∀ row ∈ batch, Attempted s run row) :
    (batch.foldl (fun s row => s.syncKc run row.ual) s).Inv := by
  induction batch generalizing s with
  | nil => exact h
  | cons row batch ih =>
    obtain ⟨hfirst, hrest⟩ := List.forall_mem_cons.mp hbatch
    obtain ⟨hnot, hnodup⟩ := List.nodup_cons.mp hnodup
    refine ih (h.syncKc hfirst) hnodup ?_
    intro other hother
    have hne : other.key ≠ row.key := by
      intro heq
      exact hnot (heq ▸ List.mem_map_of_mem hother)
    have hbefore := hrest other hother
    exact { hbefore with mem := (mem_rows_syncKc hfirst).mpr (.inr ⟨hbefore.mem, hne⟩) }

/-- The rows of the sync batch are unsynced ones of the paranet, and due. -/
theorem mem_syncBatch {rows : ParanetKcTable} {row : ParanetKc} (h : row ∈ syncBatch run rows) :
    row ∈ rows.rows ∧ row.paranetUal = run.paranetUAL ∧ row.isSynced = false ∧
      IsDue run.now row := by
  rw [syncBatch] at h
  split at h
  · cases h
  · have hfound := (List.mem_insertionSort _).mp (List.mem_of_mem_take h)
    obtain ⟨hmem, hwhere⟩ := List.mem_filter.mp hfound
    simp only [Bool.and_eq_true, Bool.or_eq_true, Bool.not_eq_true', decide_eq_true_iff,
      beq_iff_eq, ofParanet] at hwhere
    obtain ⟨⟨⟨hparanet, hunsynced⟩, hretries⟩, hdelay⟩ := hwhere
    exact ⟨hmem, hparanet, hunsynced, hretries, hdelay⟩

/-- No row is in the sync batch twice. -/
theorem nodup_syncBatch (rows : ParanetKcTable) :
    ((syncBatch run rows).map ParanetKc.key).Nodup := by
  rw [syncBatch]
  split
  · exact List.nodup_nil
  · rw [getSyncBatch]
    refine List.Nodup.sublist ((List.take_sublist _ _).map _) ?_
    refine ((List.perm_insertionSort _ _).map _).nodup_iff.mpr ?_
    exact rows.nodup.sublist (List.filter_sublist.map _)

/-- STEP (run): a run whose failures match leaves rows that tell their attempts. -/
theorem Inv.execute (h : s.Inv) (hmatches : s.Matches run) : (s.execute run).Inv := by
  rw [RetryState.execute]
  cases hcreate : s.create run with
  | none => exact h
  | some rows =>
    refine (h.create hcreate).batch (nodup_syncBatch rows) ?_
    intro row hrow
    obtain ⟨hmem, hparanet, hunsynced, hdue⟩ := mem_syncBatch hrow
    exact ⟨hmem, hparanet, hunsynced, hdue, hmatches rows hcreate row hrow⟩

/-- CODE BUG (retries): as long as every attempt that fails does so with the error that its row has,
    the retries are bounded in every state of a sequence of runs. -/
theorem bounded_executeAll (hfresh : s.IsFresh) (runs : List ParanetSyncRun)
    (hmatches : Along (fun before => (s.executeAll before).Matches) runs) :
    Always (fun before => (s.executeAll before).Bounded) runs := by
  have hinv : Always (fun before => (s.executeAll before).Inv) runs := by
    refine hmatches.always_foldl (C := Matches) (K := Inv) (inv_of_isFresh hfresh) ?_
    intro s run hinv hrun
    exact hinv.execute hrun
  exact fun before hbefore => (hinv before hbefore).bounded

/-! ### Rows without an error -/

/-- No row has an error, as none has that the command stored. -/
def NullErrors (s : RetryState) : Prop := ∀ row ∈ s.rows.rows, row.errorMessage = none

theorem NullErrors.create {rows : ParanetKcTable} (h : s.NullErrors)
    (hcreate : s.create run = some rows) : ∀ row ∈ rows.rows, row.errorMessage = none := by
  intro row hrow
  rw [Table.rows_bulkCreate hcreate] at hrow
  rcases List.mem_append.mp hrow with hold | hnew
  · exact h row hold
  · obtain ⟨ual, -, rfl⟩ := List.mem_map.mp hnew
    rfl

theorem NullErrors.syncKc (h : s.NullErrors) (ual : String) : (s.syncKc run ual).NullErrors := by
  intro row hrow
  rw [RetryState.syncKc] at hrow
  cases herror : run.error ual with
  | none =>
    rw [herror] at hrow
    obtain ⟨before, hbefore, rfl⟩ := List.mem_map.mp hrow
    split <;> exact h before hbefore
  | some error =>
    rw [herror] at hrow
    obtain ⟨before, hbefore, rfl⟩ := List.mem_map.mp hrow
    split <;> exact h before hbefore

/-- RUN (errors): no run stores an error. -/
theorem NullErrors.execute (h : s.NullErrors) : (s.execute run).NullErrors := by
  rw [RetryState.execute]
  cases hcreate : s.create run with
  | none => exact h
  | some rows =>
    have hrows : NullErrors { s with rows } := h.create hcreate
    refine List.foldlRecOn _ _ hrows ?_
    intro s hs row _
    exact hs.syncKc row.ual

/-- Then a failure matches only if there is none. -/
theorem NullErrors.matches_iff (h : s.NullErrors) : s.Matches run ↔
    ∀ rows, s.create run = some rows → ∀ row ∈ syncBatch run rows, run.error row.ual = none := by
  refine forall_congr' fun rows => imp_congr_right fun hcreate => forall_congr' fun row =>
    imp_congr_right fun hrow => ?_
  rw [h.create hcreate row (mem_syncBatch hrow).1]
  cases run.error row.ual with
  | none => exact iff_of_true nofun rfl
  | some error =>
    refine iff_of_false ?_ (Option.some_ne_none error)
    intro hstored
    cases hstored error rfl

/-! ### Two tables of one row -/

/-- A run of one paranet that stores nothing new, in which every attempt fails. -/
def failingRun (now : ℕ) : ParanetSyncRun where
  paranetUAL := "did:dkg:base:8453/0x1/1"
  blockchain := "base:8453"
  missingUALs := []
  createdAt := now
  now
  error := fun _ => some "Error: Unable to sync"
  endedAt := fun _ => now

/-- A collection of the paranet that is not synced, with its error message. -/
def unsyncedRow (errorMessage : Option String) : ParanetKc where
  ual := "did:dkg:base:8453/0x2/7"
  paranetUal := "did:dkg:base:8453/0x1/1"
  blockchainId := "base:8453"
  isSynced := false
  retries := 0
  errorMessage
  updatedAt := 0

/-- The table of that collection. -/
def oneRow (errorMessage : Option String) : RetryState where
  rows := ⟨[unsyncedRow errorMessage], List.nodup_singleton _⟩
  attempts := []

theorem isFresh_oneRow (errorMessage : Option String) : (oneRow errorMessage).IsFresh := by
  refine ⟨rfl, ?_⟩
  intro row hrow
  rw [List.mem_singleton.mp hrow]
  rfl

/-- The rows of a state have the error of the failing runs. -/
theorem matches_failingRun {s : RetryState} {now : ℕ}
    (h : ∀ row ∈ s.rows.rows, row.errorMessage = some "Error: Unable to sync") :
    s.Matches (failingRun now) := by
  rintro rows hcreate row hrow error ⟨⟩
  obtain rfl : s.rows = rows := Option.some.inj hcreate
  exact h row (mem_syncBatch hrow).1

/-- With the error stored, two failures are counted. -/
theorem bounded_executeAll_stored :
    Always (fun before => ((oneRow (some "Error: Unable to sync")).executeAll before).Bounded)
      [failingRun 0, failingRun 60000] := by
  refine bounded_executeAll (isFresh_oneRow _) _ ?_
  rw [along_cons, along_cons]
  refine ⟨matches_failingRun ?_, matches_failingRun ?_, along_nil⟩
  · decide
  · decide

/-- COUNTEREXAMPLE: a collection as it is stored is attempted in four runs, one millisecond after
    each other. -/
theorem not_bounded_oneRow : ¬ Always (fun before => ((oneRow none).executeAll before).Bounded)
    [failingRun 0, failingRun 1, failingRun 2, failingRun 3] := by
  intro halways
  have hoften := (halways _ (List.prefix_refl _)).often (unsyncedRow none).key
  exact absurd hoften (by decide)

end RetryState

end OtNode
