import OtNode.Lib.Table
import OtNode.Lib.Trace
import Mathlib.Data.List.Sort
import Mathlib.Logic.Function.Basic

/-! Rows that are archived before they are deleted.

    A cleaner takes the oldest rows that are done, writes them to a file and deletes them, as long as
    there are enough of them. The file is named after the first and the last time of its rows, and is
    written over: a batch with the times of an earlier one takes the place of its archive. -/

namespace OtNode

open Trace

/-- `REPOSITORY_ROWS_FOR_REMOVAL_MAX_NUMBER`. -/
def repositoryRowsForRemovalMaxNumber : ℕ := 10000

/-- The delay of the cut-off of all cleaners but that of the commands. -/
def cleanupTimeDelay : ℤ := 24 * 60 * 60 * 1000

/-- What a cleaner command is about: the primary key of the rows, `createdAt`, which rows are done,
    and the column of the order and of the cut-off, which is so long before the time of the run. -/
structure Cleaner (R : Type) where
  id : R → ℕ
  createdAt : R → ℤ
  isDone : R → Bool
  orderedBy : R → ℤ
  delay : ℤ

/-- A row of `blockchain_event`, with its other columns. -/
structure StoredEvent (D : Type) where
  id : ℕ
  processed : Bool
  createdAt : ℤ
  columns : D
  deriving DecidableEq

/-- A row of `commands`, with its other columns. `startedAt` may be null. -/
structure StoredCommand (D : Type) where
  id : ℕ
  isFinal : Bool
  createdAt : ℤ
  startedAt : Option ℤ
  columns : D
  deriving DecidableEq

/-- `BlockchainEventCleanerCommand`, which finds rows by `findProcessedEvents`. -/
def blockchainEventCleaner (D : Type) : Cleaner (StoredEvent D) where
  id := StoredEvent.id
  createdAt := StoredEvent.createdAt
  isDone := StoredEvent.processed
  orderedBy := StoredEvent.createdAt
  delay := cleanupTimeDelay

/-- `CommandsCleanerCommand`, which finds rows by `findFinalizedCommands`. -/
def commandsCleaner (D : Type) : Cleaner (StoredCommand D) where
  id := StoredCommand.id
  createdAt := StoredCommand.createdAt
  isDone row := row.isFinal && row.startedAt.isSome
  orderedBy row := row.startedAt.getD 0
  delay := 0

/-- What becomes of a batch: it is archived and deleted; or it is archived, but the deletion fails;
    or the file is not written, with whatever is in it then. -/
inductive BatchOutcome (R : Type) where
  | done
  | notDeleted
  | notArchived (left : Option (List R))

/-- What the file of a batch holds then. -/
def BatchOutcome.content {R : Type} (batch : List R) : BatchOutcome R → Option (List R)
  | .notArchived left => left
  | _ => some batch

namespace Cleaner

variable {R : Type} (cleaner : Cleaner R)

/-- The `where` clause. -/
def isForRemoval (nowTimestamp : ℤ) (row : R) : Bool :=
  cleaner.isDone row && cleaner.orderedBy row ≤ nowTimestamp - cleaner.delay

/-- What `findRowsForRemoval` may answer: rows that are for removal, the oldest first and as many as
    the limit allows. Rows of one time come in any order. -/
structure FindsRows (nowTimestamp : ℤ) (table : Table cleaner.id) (batch : List R) : Prop where
  nodup : batch.Nodup
  mem : ∀ row ∈ batch, row ∈ table.rows ∧ cleaner.isForRemoval nowTimestamp row
  sorted : batch.Pairwise fun row next => cleaner.orderedBy row ≤ cleaner.orderedBy next
  length : batch.length =
    min repositoryRowsForRemovalMaxNumber (table.count (cleaner.isForRemoval nowTimestamp))
  oldest : ∀ row ∈ table.rows, cleaner.isForRemoval nowTimestamp row → row ∉ batch →
    ∀ found ∈ batch, cleaner.orderedBy found ≤ cleaner.orderedBy row

/-- `getArchiveName`. The rows are as many as the limit, so there is a first one. -/
def getArchiveName : List R → String
  | [] => ""
  | first :: rest => toString (cleaner.createdAt first) ++ "-" ++
      toString (cleaner.createdAt (rest.getLastD first)) ++ ".json"

/-- The table, the files of the archive folder, the rows that were deleted so far, and the
    `nowTimestamp` of the execution that is under way. -/
structure State where
  table : Table cleaner.id
  files : String → Option (List R)
  deleted : List R
  nowTimestamp : Option ℤ

/-- A step: an execution begins, a batch is worked off, the loop ends, or `findRowsForRemoval`
    throws; and at any time others change the table. -/
inductive Action where
  | execute (nowTimestamp : ℤ)
  | clean (batch : List R) (outcome : BatchOutcome R)
  | finish
  | fail
  | others (table : Table cleaner.id)

namespace State

variable {cleaner} (s : cleaner.State)

/-- `archiveData`: the file of the batch is written over. -/
def write (name : String) (content : Option (List R)) : cleaner.State :=
  { s with files := Function.update s.files name content }

/-- `deleteRows`. -/
def deleteRows (ids : List ℕ) : cleaner.State :=
  { s with
    table := s.table.destroy fun row => cleaner.id row ∈ ids
    deleted := s.deleted ++ s.table.rows.filter fun row => cleaner.id row ∈ ids }

/-- What a step leaves. -/
def act : cleaner.Action → cleaner.State
  | .execute nowTimestamp => { s with nowTimestamp := some nowTimestamp }
  | .clean batch .done =>
    (s.write (cleaner.getArchiveName batch) (some batch)).deleteRows (batch.map cleaner.id)
  | .clean batch .notDeleted =>
    { s.write (cleaner.getArchiveName batch) (some batch) with nowTimestamp := none }
  | .clean batch (.notArchived left) =>
    { s.write (cleaner.getArchiveName batch) left with nowTimestamp := none }
  | .finish | .fail => { s with nowTimestamp := none }
  | .others table => { s with table }

/-- The step can be taken. -/
def Allows : cleaner.Action → Prop
  | .execute _ => s.nowTimestamp = none
  | .clean batch _ => ∃ nowTimestamp, s.nowTimestamp = some nowTimestamp ∧
      cleaner.FindsRows nowTimestamp s.table batch ∧
        repositoryRowsForRemovalMaxNumber ≤ batch.length
  | .finish => ∃ nowTimestamp batch, s.nowTimestamp = some nowTimestamp ∧
      cleaner.FindsRows nowTimestamp s.table batch ∧
        batch.length < repositoryRowsForRemovalMaxNumber
  | .fail => s.nowTimestamp ≠ none
  | .others _ => True

/-- What a run leaves. -/
def run (actions : List cleaner.Action) : cleaner.State := actions.foldl act s

/-- Every step of the run can be taken. -/
def IsRun (actions : List cleaner.Action) : Prop :=
  Along (fun before action => (s.run before).Allows action) actions

/-- Some file holds the row. -/
def HasArchived (row : R) : Prop := ∃ name file, s.files name = some file ∧ row ∈ file

/-- The rows that were deleted are archived. -/
def AllArchived : Prop := ∀ row ∈ s.deleted, s.HasArchived row

/-- With a new content of the file, no row is lost that was deleted before: the content has it, or
    another file. -/
def Keeps (name : String) (content : Option (List R)) : Prop :=
  ∀ row ∈ s.deleted, (∃ file, s.files name = some file ∧ row ∈ file) →
    (∃ file, content = some file ∧ row ∈ file) ∨
      ∃ other ≠ name, ∃ file, s.files other = some file ∧ row ∈ file

/-- The step writes no file, or one that keeps what is archived in it alone. -/
def WritesSafely : cleaner.Action → Prop
  | .clean batch outcome => s.Keeps (cleaner.getArchiveName batch) (outcome.content batch)
  | _ => True

end State

/-- The step works a batch off. -/
def Action.IsClean : cleaner.Action → Prop
  | .clean _ _ => True
  | _ => False

/-- From the state on, the loop can take a step, and works off only so many batches in a row. -/
structure State.Ends (s : cleaner.State) : Prop where
  goesOn : s.nowTimestamp ≠ none →
    s.Allows .finish ∨ ∃ batch, ∀ outcome, s.Allows (.clean batch outcome)
  bounded : ∀ actions, s.IsRun actions → (∀ action ∈ actions, action.IsClean) →
    actions.length * repositoryRowsForRemovalMaxNumber ≤ s.table.rows.length

/-! ### One batch -/

theorem FindsRows.length_le {nowTimestamp : ℤ} {table : Table cleaner.id} {batch : List R}
    (h : cleaner.FindsRows nowTimestamp table batch) :
    batch.length ≤ (table.rows.filter fun row => cleaner.id row ∈ batch.map cleaner.id).length := by
  refine (List.subperm_of_subset h.nodup ?_).length_le
  intro row hrow
  exact List.mem_filter.mpr ⟨(h.mem row hrow).1, decide_eq_true (List.mem_map_of_mem hrow)⟩

/-- The rows with the ids of the batch are those of the batch. -/
theorem FindsRows.mem_of_id {nowTimestamp : ℤ} {table : Table cleaner.id} {batch : List R}
    (h : cleaner.FindsRows nowTimestamp table batch) {row : R} (hrow : row ∈ table.rows)
    (hid : cleaner.id row ∈ batch.map cleaner.id) : row ∈ batch := by
  obtain ⟨found, hfound, heq⟩ := List.mem_map.mp hid
  rwa [← List.inj_on_of_nodup_map table.nodup (h.mem found hfound).1 hrow heq]

/-- The database can always answer. -/
theorem exists_findsRows (nowTimestamp : ℤ) (table : Table cleaner.id) :
    ∃ batch, cleaner.FindsRows nowTimestamp table batch := by
  let older : R → R → Prop := fun row next => cleaner.orderedBy row ≤ cleaner.orderedBy next
  have : Std.Total older := ⟨fun row next => le_total _ _⟩
  have : IsTrans R older := ⟨fun _ _ _ => le_trans⟩
  let found := (table.rows.filter (cleaner.isForRemoval nowTimestamp)).insertionSort older
  have hperm : found.Perm (table.rows.filter (cleaner.isForRemoval nowTimestamp)) :=
    List.perm_insertionSort _ _
  have hsorted : found.Pairwise older := List.pairwise_insertionSort _ _
  refine ⟨found.take repositoryRowsForRemovalMaxNumber, ?_, ?_, ?_, ?_, ?_⟩
  · exact ((hperm.nodup_iff.mpr (table.nodup.of_map.filter _)).sublist (List.take_sublist _ _))
  · intro row hrow
    exact List.mem_filter.mp (hperm.subset (List.mem_of_mem_take hrow))
  · exact hsorted.sublist (List.take_sublist _ _)
  · rw [List.length_take, hperm.length_eq, Table.count, List.countP_eq_length_filter]
  · intro row hrow hremoval hnot taken htaken
    have hmem : row ∈ found := hperm.mem_iff.mpr (List.mem_filter.mpr ⟨hrow, hremoval⟩)
    rw [← List.take_append_drop repositoryRowsForRemovalMaxNumber found] at hmem hsorted
    have hdrop := (List.mem_append.mp hmem).resolve_left hnot
    exact (List.pairwise_append.mp hsorted).2.2 taken htaken row hdrop

namespace State

variable {cleaner} {s : cleaner.State}

theorem isRun_cons {action : cleaner.Action} {actions : List cleaner.Action} :
    s.IsRun (action :: actions) ↔ s.Allows action ∧ (s.act action).IsRun actions := along_cons

/-- The file of the batch is written, whatever becomes of the batch. -/
theorem files_act_clean (s : cleaner.State) (batch : List R) (outcome : BatchOutcome R) :
    (s.act (.clean batch outcome)).files =
      Function.update s.files (cleaner.getArchiveName batch) (outcome.content batch) := by
  cases outcome <;> rfl

theorem rows_act_done (s : cleaner.State) (batch : List R) :
    (s.act (.clean batch .done)).table.rows =
      s.table.rows.filter fun row => !decide (cleaner.id row ∈ batch.map cleaner.id) := rfl

theorem deleted_act_done (s : cleaner.State) (batch : List R) :
    (s.act (.clean batch .done)).deleted =
      s.deleted ++ s.table.rows.filter fun row => cleaner.id row ∈ batch.map cleaner.id := rfl

/-- STEP (deleted): what a step deletes is in its batch, which is archived. -/
theorem mem_deleted_act {action : cleaner.Action} (hallows : s.Allows action) {row : R}
    (hrow : row ∈ (s.act action).deleted) :
    row ∈ s.deleted ∨ ∃ batch, action = .clean batch .done ∧ row ∈ batch := by
  cases action with
  | clean batch outcome =>
    cases outcome with
    | done =>
      obtain ⟨nowTimestamp, -, hfinds, -⟩ := hallows
      refine (List.mem_append.mp hrow).imp_right ?_
      intro hdeleted
      obtain ⟨hmem, hid⟩ := List.mem_filter.mp hdeleted
      exact ⟨batch, rfl, FindsRows.mem_of_id cleaner hfinds hmem (of_decide_eq_true hid)⟩
    | notDeleted => exact .inl hrow
    | notArchived left => exact .inl hrow
  | execute nowTimestamp => exact .inl hrow
  | finish => exact .inl hrow
  | fail => exact .inl hrow
  | others table => exact .inl hrow

theorem deleted_subset_act (s : cleaner.State) (action : cleaner.Action) {row : R}
    (hrow : row ∈ s.deleted) : row ∈ (s.act action).deleted := by
  cases action with
  | clean batch outcome =>
    cases outcome with
    | done => exact List.mem_append_left _ hrow
    | notDeleted => exact hrow
    | notArchived left => exact hrow
  | execute nowTimestamp => exact hrow
  | finish => exact hrow
  | fail => exact hrow
  | others table => exact hrow

/-- STEP (archive): the rows that were deleted stay archived exactly if the file keeps them. -/
theorem allArchived_clean_iff {batch : List R} {outcome : BatchOutcome R}
    (hallows : s.Allows (.clean batch outcome)) (harchived : s.AllArchived) :
    (s.act (.clean batch outcome)).AllArchived ↔
      s.Keeps (cleaner.getArchiveName batch) (outcome.content batch) := by
  have hfiles := s.files_act_clean batch outcome
  constructor
  · intro hall row hrow _
    obtain ⟨name, file, hfile, hmem⟩ := hall row (s.deleted_subset_act _ hrow)
    rw [hfiles] at hfile
    by_cases hname : name = cleaner.getArchiveName batch
    · subst hname
      rw [Function.update_self] at hfile
      exact .inl ⟨file, hfile, hmem⟩
    · rw [Function.update_of_ne hname] at hfile
      exact .inr ⟨name, hname, file, hfile, hmem⟩
  · intro hkeeps row hrow
    rcases mem_deleted_act hallows hrow with hdeleted | ⟨other, hother, hmem⟩
    · have hkept : (∃ file, outcome.content batch = some file ∧ row ∈ file) ∨
          ∃ other ≠ cleaner.getArchiveName batch, ∃ file,
            s.files other = some file ∧ row ∈ file := by
        obtain ⟨name, file, hfile, hmem⟩ := harchived row hdeleted
        by_cases hname : name = cleaner.getArchiveName batch
        · exact hkeeps row hdeleted ⟨file, hname ▸ hfile, hmem⟩
        · exact .inr ⟨name, hname, file, hfile, hmem⟩
      rcases hkept with ⟨file, hfile, hmem⟩ | ⟨name, hname, file, hfile, hmem⟩
      · exact ⟨_, file, by rw [hfiles, Function.update_self, hfile], hmem⟩
      · exact ⟨name, file, by rw [hfiles, Function.update_of_ne hname, hfile], hmem⟩
    · obtain ⟨rfl, rfl⟩ := Action.clean.inj hother
      exact ⟨_, batch, by rw [hfiles, Function.update_self]; rfl, hmem⟩

/-- STEP (others): a step that writes no file leaves all as archived as it was. -/
theorem allArchived_act_iff {action : cleaner.Action} (hallows : s.Allows action)
    (harchived : s.AllArchived) : (s.act action).AllArchived ↔ s.WritesSafely action := by
  cases action with
  | clean batch outcome => exact allArchived_clean_iff hallows harchived
  | execute nowTimestamp => exact iff_of_true harchived trivial
  | finish => exact iff_of_true harchived trivial
  | fail => exact iff_of_true harchived trivial
  | others table => exact iff_of_true harchived trivial

/-! ### The loop -/

/-- STEP (loop): a batch that is worked off is so many rows of the table less, or ends the loop. -/
theorem clean_progress {batch : List R} {outcome : BatchOutcome R}
    (hallows : s.Allows (.clean batch outcome)) :
    repositoryRowsForRemovalMaxNumber ≤ s.table.rows.length ∧
      ((s.act (.clean batch outcome)).nowTimestamp = none ∨
        (s.act (.clean batch outcome)).table.rows.length + repositoryRowsForRemovalMaxNumber ≤
          s.table.rows.length) := by
  obtain ⟨nowTimestamp, -, hfinds, hlong⟩ := hallows
  have hbatch := FindsRows.length_le cleaner hfinds
  have hsplit := List.length_eq_length_filter_add (l := s.table.rows)
    fun row => decide (cleaner.id row ∈ batch.map cleaner.id)
  refine ⟨by omega, ?_⟩
  cases outcome with
  | done =>
    refine .inr ?_
    rw [rows_act_done]
    omega
  | notDeleted => exact .inl rfl
  | notArchived left => exact .inl rfl

/-- RUN (loop): the batches in a row are bounded by the rows of the table. -/
theorem length_cleans {actions : List cleaner.Action} (hrun : s.IsRun actions)
    (hclean : ∀ action ∈ actions, action.IsClean) :
    actions.length * repositoryRowsForRemovalMaxNumber ≤ s.table.rows.length := by
  induction actions generalizing s with
  | nil =>
    rw [List.length_nil, Nat.zero_mul]
    exact Nat.zero_le _
  | cons action actions ih =>
    obtain ⟨hallows, hrest⟩ := isRun_cons.mp hrun
    obtain ⟨hfirst, hcleans⟩ := List.forall_mem_cons.mp hclean
    cases action with
    | clean batch outcome =>
      obtain ⟨hlong, hstop | hless⟩ := clean_progress hallows
      · -- The execution is over, so no batch comes after this one.
        have hnone : actions = [] := by
          cases actions with
          | nil => rfl
          | cons next actions =>
            obtain ⟨hnext, -⟩ := List.forall_mem_cons.mp hcleans
            obtain ⟨hallowed, -⟩ := isRun_cons.mp hrest
            cases next with
            | clean batch outcome =>
              obtain ⟨nowTimestamp, hnow, -⟩ := hallowed
              rw [hstop] at hnow
              cases hnow
            | execute nowTimestamp => exact hnext.elim
            | finish => exact hnext.elim
            | fail => exact hnext.elim
            | others table => exact hnext.elim
        rw [hnone, List.length_singleton, Nat.one_mul]
        exact hlong
      · have hrec := ih hrest hcleans
        rw [List.length_cons, Nat.succ_mul]
        omega
    | execute nowTimestamp => exact hfirst.elim
    | finish => exact hfirst.elim
    | fail => exact hfirst.elim
    | others table => exact hfirst.elim

theorem ends (s : cleaner.State) : s.Ends where
  goesOn hrunning := by
    obtain ⟨nowTimestamp, hnow⟩ := Option.ne_none_iff_exists'.mp hrunning
    obtain ⟨batch, hfinds⟩ := cleaner.exists_findsRows nowTimestamp s.table
    rcases Nat.lt_or_ge batch.length repositoryRowsForRemovalMaxNumber with hshort | hlong
    · exact .inl ⟨nowTimestamp, batch, hnow, hfinds, hshort⟩
    · exact .inr ⟨batch, fun _ => ⟨nowTimestamp, hnow, hfinds, hlong⟩⟩
  bounded _ := length_cleans

end State

end Cleaner

/-- A run of a cleaner, with whatever others do, from any table and any files. -/
structure CleanerRun {R : Type} (cleaner : Cleaner R) where
  start : cleaner.State
  fresh : start.deleted = []
  actions : List cleaner.Action
  isRun : start.IsRun actions

namespace CleanerRun

open Cleaner

variable {R : Type} {cleaner : Cleaner R} (run : CleanerRun cleaner)

/-- All along the run, the rows that were deleted are archived; only rows that are not newer than the
    cut-off are deleted; and the loop ends. -/
structure ArchivesBeforeDelete : Prop where
  archived : Always (fun before => (run.start.run before).AllArchived) run.actions
  notNewer : Along (fun before action => ∀ row ∈ ((run.start.run before).act action).deleted,
    row ∈ (run.start.run before).deleted ∨
      ∃ nowTimestamp, (run.start.run before).nowTimestamp = some nowTimestamp ∧
        cleaner.orderedBy row ≤ nowTimestamp - cleaner.delay) run.actions
  ends : Always (fun before => (run.start.run before).Ends) run.actions

/-- Every file that is written keeps what is archived in it alone. -/
def NeverLoses : Prop := Along (fun before => (run.start.run before).WritesSafely) run.actions

/-- CODE BUG (archive): the cleaner archives before it deletes if and only if every file that it
    writes keeps the rows that were deleted before and are in no other file. For a file that is new
    it does: see neverLoses_of_new. -/
theorem archivesBeforeDelete_iff : run.ArchivesBeforeDelete ↔ run.NeverLoses := by
  have harchived : Always (fun before => (run.start.run before).AllArchived) run.actions ↔
      run.NeverLoses := by
    have hfirst : run.start.AllArchived := by
      intro row hrow
      rw [run.fresh] at hrow
      cases hrow
    refine run.isRun.always_foldl_iff hfirst ?_
    intro s action hallows harchived
    exact State.allArchived_act_iff hallows harchived
  rw [← harchived]
  constructor
  · exact ArchivesBeforeDelete.archived
  · intro halways
    refine ⟨halways, run.isRun.mono ?_, fun before _ => State.ends _⟩
    intro before action hallows row hrow
    refine (State.mem_deleted_act hallows hrow).imp_right ?_
    rintro ⟨batch, rfl, hmem⟩
    obtain ⟨nowTimestamp, hnow, hfinds, -⟩ := hallows
    have hremoval := (hfinds.mem row hmem).2
    rw [isForRemoval, Bool.and_eq_true] at hremoval
    exact ⟨nowTimestamp, hnow, of_decide_eq_true hremoval.2⟩

/-- A file with a new name loses nothing. -/
theorem keeps_of_new {s : cleaner.State} {name : String} (hnew : s.files name = none)
    (content : Option (List R)) : s.Keeps name content := by
  rintro row - ⟨file, hfile, -⟩
  rw [hnew] at hfile
  cases hfile

/-- As long as every batch has a name that no file has, the cleaner archives before it deletes. -/
theorem neverLoses_of_new (hnew : Along (fun before action => ∀ batch outcome,
    action = .clean batch outcome →
      (run.start.run before).files (cleaner.getArchiveName batch) = none) run.actions) :
    run.NeverLoses := by
  refine hnew.mono ?_
  intro before action hnone
  cases action with
  | clean batch outcome => exact keeps_of_new (hnone batch outcome rfl) _
  | execute nowTimestamp => trivial
  | finish => trivial
  | fail => trivial
  | others table => trivial

end CleanerRun

/-! ### Two batches of one time -/

namespace StoredEvent

open Cleaner

/-- An event that was processed, of the time 0. -/
def ofTime (id : ℕ) : StoredEvent Unit := ⟨id, true, 0, ()⟩

theorem map_id_ofTime (ids : List ℕ) :
    (ids.map ofTime).map (blockchainEventCleaner Unit).id = ids := by
  rw [List.map_map]
  exact List.map_id ids

/-- A table of such events. -/
def tableOf (ids : List ℕ) (hnodup : ids.Nodup) : Table (blockchainEventCleaner Unit).id where
  rows := ids.map ofTime
  nodup := (map_id_ofTime ids).symm ▸ hnodup

/-- Of events of one time any may be found first. -/
theorem findsRows_ofTime {table : Table (blockchainEventCleaner Unit).id} {ids batch : List ℕ}
    (hrows : table.rows = ids.map ofTime) (hsub : batch.Sublist ids) (hnodup : batch.Nodup)
    (hlength : batch.length = min repositoryRowsForRemovalMaxNumber ids.length) :
    (blockchainEventCleaner Unit).FindsRows cleanupTimeDelay table (batch.map ofTime) := by
  have hremoval : ∀ row ∈ ids.map ofTime,
      (blockchainEventCleaner Unit).isForRemoval cleanupTimeDelay row := by
    intro row hrow
    obtain ⟨id, -, rfl⟩ := List.mem_map.mp hrow
    rfl
  refine ⟨?_, ?_, ?_, ?_, ?_⟩
  · refine List.Nodup.of_map (blockchainEventCleaner Unit).id ?_
    rwa [map_id_ofTime]
  · intro row hrow
    have hmem := (hsub.map ofTime).subset hrow
    exact ⟨hrows ▸ hmem, hremoval row hmem⟩
  · refine List.pairwise_of_forall_mem_list ?_
    intro row hrow next hnext
    obtain ⟨id, -, rfl⟩ := List.mem_map.mp hrow
    obtain ⟨id', -, rfl⟩ := List.mem_map.mp hnext
    exact le_refl (0 : ℤ)
  · rw [List.length_map, hlength, Table.count, hrows, List.countP_eq_length.mpr hremoval,
      List.length_map]
  · intro row hrow _ _ found hfound
    rw [hrows] at hrow
    obtain ⟨id, -, rfl⟩ := List.mem_map.mp hrow
    obtain ⟨id', -, rfl⟩ := List.mem_map.mp hfound
    exact le_refl (0 : ℤ)

theorem getArchiveName_ofTime {ids : List ℕ} (hne : ids ≠ []) :
    (blockchainEventCleaner Unit).getArchiveName (ids.map ofTime) = "0-0.json" := by
  cases ids with
  | nil => exact absurd rfl hne
  | cons id ids =>
    have hlast : ((ids.map ofTime).getLastD (ofTime id)).createdAt = 0 := by
      have hmem : (ids.map ofTime).getLastD (ofTime id) ∈ ofTime id :: ids.map ofTime :=
        List.getLastD_mem_cons
      obtain ⟨last, -, hlast⟩ := List.mem_map.mp (show _ ∈ (id :: ids).map ofTime from hmem)
      rw [← hlast]
      rfl
    rw [List.map_cons, getArchiveName]
    change toString (0 : ℤ) ++ "-" ++ toString
      ((ids.map ofTime).getLastD (ofTime id)).createdAt ++ ".json" = _
    rw [hlast]
    rfl

/-- The ids of the first batch and of the second. -/
def firstIds : List ℕ := List.range' 0 repositoryRowsForRemovalMaxNumber
def secondIds : List ℕ :=
  List.range' repositoryRowsForRemovalMaxNumber repositoryRowsForRemovalMaxNumber

theorem nodup_ids : (firstIds ++ secondIds).Nodup := by
  have happend : firstIds ++ secondIds = List.range' 0
      (repositoryRowsForRemovalMaxNumber + repositoryRowsForRemovalMaxNumber) := by
    rw [firstIds, secondIds, ← List.range'_append_1, Nat.zero_add]
  rw [happend]
  exact List.nodup_range'

theorem length_firstIds : firstIds.length = repositoryRowsForRemovalMaxNumber := List.length_range'

theorem length_secondIds : secondIds.length = repositoryRowsForRemovalMaxNumber :=
  List.length_range'

/-- The table of both batches, and no files. -/
def twoBatches : (blockchainEventCleaner Unit).State where
  table := tableOf (firstIds ++ secondIds) nodup_ids
  files := fun _ => none
  deleted := []
  nowTimestamp := none

/-- An execution that works both batches off. -/
def twoBatchActions : List (blockchainEventCleaner Unit).Action :=
  [.execute cleanupTimeDelay, .clean (firstIds.map ofTime) .done,
    .clean (secondIds.map ofTime) .done]

/-- After the first batch the events of the second are left. -/
theorem rows_firstBatch : ((twoBatches.act (.execute cleanupTimeDelay)).act
    (.clean (firstIds.map ofTime) .done)).table.rows = secondIds.map ofTime := by
  have hdisjoint := List.disjoint_of_nodup_append nodup_ids
  have hrows : (twoBatches.act (.execute cleanupTimeDelay)).table.rows =
      (firstIds ++ secondIds).map ofTime := rfl
  rw [State.rows_act_done, hrows]
  rw [map_id_ofTime, List.map_append, List.filter_append]
  have hfirst : (firstIds.map ofTime).filter (fun row =>
      !decide ((blockchainEventCleaner Unit).id row ∈ firstIds)) = [] := by
    refine List.filter_eq_nil_iff.mpr ?_
    intro row hrow
    obtain ⟨id, hid, rfl⟩ := List.mem_map.mp hrow
    rw [decide_eq_true (show (blockchainEventCleaner Unit).id (ofTime id) ∈ firstIds from hid)]
    exact Bool.false_ne_true
  have hsecond : (secondIds.map ofTime).filter (fun row =>
      !decide ((blockchainEventCleaner Unit).id row ∈ firstIds)) = secondIds.map ofTime := by
    refine List.filter_eq_self.mpr ?_
    intro row hrow
    obtain ⟨id, hid, rfl⟩ := List.mem_map.mp hrow
    have hnot : (blockchainEventCleaner Unit).id (ofTime id) ∉ firstIds :=
      fun hid' => hdisjoint hid' hid
    rw [decide_eq_false hnot]
    rfl
  rw [hfirst, hsecond, List.nil_append]

theorem isRun_twoBatches : twoBatches.IsRun twoBatchActions := by
  rw [twoBatchActions, State.isRun_cons, State.isRun_cons, State.isRun_cons]
  refine ⟨rfl, ⟨cleanupTimeDelay, rfl, ?_, ?_⟩, ⟨cleanupTimeDelay, rfl, ?_, ?_⟩, ?_⟩
  · refine findsRows_ofTime rfl (List.sublist_append_left _ _)
      (nodup_ids.sublist (List.sublist_append_left _ _)) ?_
    rw [List.length_append, length_firstIds, length_secondIds]
    exact (Nat.min_eq_left (Nat.le_add_right _ _)).symm
  · rw [List.length_map, length_firstIds]
  · refine findsRows_ofTime rows_firstBatch (List.Sublist.refl _)
      (nodup_ids.sublist (List.sublist_append_right _ _)) ?_
    rw [length_secondIds, Nat.min_self]
  · rw [List.length_map, length_secondIds]
  · exact along_nil

/-- The run, of a table whose events are all of one time. -/
def twoBatchRun : CleanerRun (blockchainEventCleaner Unit) where
  start := twoBatches
  fresh := rfl
  actions := twoBatchActions
  isRun := isRun_twoBatches

/-- COUNTEREXAMPLE: the second batch has the times of the first, so it takes the place of its archive
    and the first event is in no file. -/
theorem not_archivesBeforeDelete_twoBatches : ¬ twoBatchRun.ArchivesBeforeDelete := by
  intro harchives
  have hrun : twoBatches.run twoBatchActions = ((twoBatches.act (.execute cleanupTimeDelay)).act
      (.clean (firstIds.map ofTime) .done)).act (.clean (secondIds.map ofTime) .done) := rfl
  have hzero : 0 ∈ firstIds := by
    rw [firstIds, List.mem_range'_1]
    exact ⟨Nat.le_refl 0, by decide⟩
  have hdeleted : ofTime 0 ∈ (twoBatches.run twoBatchActions).deleted := by
    rw [hrun]
    refine State.deleted_subset_act _ _ ?_
    rw [State.deleted_act_done, map_id_ofTime]
    refine List.mem_append_right _ (List.mem_filter.mpr ⟨?_, decide_eq_true hzero⟩)
    exact List.mem_map_of_mem (List.mem_append_left _ hzero)
  obtain ⟨name, file, hfile, hmem⟩ := harchives.archived _ (List.prefix_refl _) _ hdeleted
  change (twoBatches.run twoBatchActions).files name = some file at hfile
  have hfirst : firstIds ≠ [] := List.ne_nil_of_mem hzero
  have hsecond : secondIds ≠ [] := by
    rw [← List.length_pos_iff, length_secondIds]
    decide
  rw [hrun, State.files_act_clean, State.files_act_clean, getArchiveName_ofTime hfirst,
    getArchiveName_ofTime hsecond, Function.update_idem] at hfile
  by_cases hname : name = "0-0.json"
  · rw [hname, Function.update_self] at hfile
    obtain rfl := Option.some.inj hfile
    obtain ⟨id, hid, heq⟩ := List.mem_map.mp hmem
    obtain rfl : id = 0 := congrArg StoredEvent.id heq
    exact List.disjoint_of_nodup_append nodup_ids hzero hid
  · rw [Function.update_of_ne hname] at hfile
    cases hfile

end StoredEvent

end OtNode
