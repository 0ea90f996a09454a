import OtNode.Lib.Limit
import Mathlib.Data.Int.Basic
import Mathlib.Data.List.Basic
import Mathlib.Tactic.IntervalCases

/-! The expired files of the cache folders.

    The files of three folders are worked off in batches as large as the number that may be removed,
    and what was removed is compared with that number after each batch. A file that cannot be
    removed is left, and one that is gone before its removal is counted as removed. -/

namespace OtNode

open Limit

/-- What `unlink` comes to. -/
inductive Unlink where | removed | missing | failed
  deriving DecidableEq

/-- An entry of a cache folder: its path, its `mtime`, whether `stat` succeeds, and what `unlink`
    comes to, which fails on a directory. -/
structure CacheFile where
  path : String
  mtime : ℤ
  isFile : Bool := true
  stats : Bool := true
  unlink : Unlink := .removed
  directory : isFile = false → unlink = .failed

/-- A cache folder, as `pathExists` and `readDirectory` find it. -/
inductive CacheFolder where
  | missing
  | unreadable (error : String)
  | content (files : List CacheFile)

/-- The folders: of pending storage, and of the signatures of the network and of the publisher. -/
structure CacheFolders where
  pendingStorageCache : CacheFolder
  networkSignatures : CacheFolder
  publisherNodeSignatures : CacheFolder

/-- What the cleanup has removed, with the number it has of it, and what it leaves. -/
structure Cleanup where
  removedCount : ℕ := 0
  deleted : List CacheFile := []
  left : List CacheFile := []

namespace CacheFolders

variable (folders : CacheFolders)

/-- `storagePaths`. -/
def storagePaths : List CacheFolder :=
  [folders.pendingStorageCache, folders.networkSignatures, folders.publisherNodeSignatures]

/-- `collectFiles`, of one folder after the other. -/
def collectFiles : List CacheFolder → Except String (List CacheFile)
  | [] => .ok []
  | .missing :: folders => collectFiles folders
  | .unreadable error :: _ => .error error
  | .content files :: folders => (collectFiles folders).map (files ++ ·)

/-- No folder fails to be read. -/
def Readable : Prop := ∀ folder ∈ folders.storagePaths, ∀ error, folder ≠ .unreadable error

/-- The entries of a folder. -/
def entries : CacheFolder → List CacheFile
  | .content files => files
  | _ => []

/-- The entries of the folders. -/
def files : List CacheFile := folders.storagePaths.flatMap entries

end CacheFolders

/-- A call of `removeExpiredFileCache`, at a time. -/
structure ExpiredFileRemoval where
  expirationTimeMillis : ℤ
  maxRemovalCount : ℕ+
  now : ℤ

namespace ExpiredFileRemoval

variable (removal : ExpiredFileRemoval)

/-- `createdDate.getTime() + expirationTimeMillis < now`. -/
def isExpired (file : CacheFile) : Bool := file.mtime + removal.expirationTimeMillis < removal.now

/-- `deleteFile`: what it returns. `removeFile` returns `false` for a missing file, which is not
    looked at. -/
def deleteFile (file : CacheFile) : Bool :=
  file.stats && removal.isExpired file && file.unlink ≠ .failed

/-- The file is removed by `deleteFile`. -/
def deletes (file : CacheFile) : Bool := removal.deleteFile file && file.unlink = .removed

/-- The file is gone before it is removed. -/
def misses (file : CacheFile) : Bool := removal.deleteFile file && file.unlink = .missing

/-- A batch is worked off. -/
def processBatch (batch : List CacheFile) (cleanup : Cleanup) : Cleanup where
  removedCount := cleanup.removedCount + batch.countP removal.deleteFile
  deleted := cleanup.deleted ++ batch.filter removal.deletes
  left := cleanup.left ++ batch.filter fun file => !removal.deleteFile file

/-- The batches, up to the one after which the limit is reached. -/
def processFiles (cleanup : Cleanup) (files : List CacheFile) : Cleanup :=
  if files = [] then cleanup
  else
    let next := removal.processBatch (files.take removal.maxRemovalCount) cleanup
    if removal.maxRemovalCount ≤ next.removedCount then
      { next with left := next.left ++ files.drop removal.maxRemovalCount }
    else processFiles next (files.drop removal.maxRemovalCount)
termination_by files.length
decreasing_by
  rename_i hne _
  rw [List.length_drop]
  exact Nat.sub_lt (List.length_pos_iff.mpr hne) removal.maxRemovalCount.pos

/-- `removeExpiredFileCache`. -/
def removeExpiredFileCache (folders : CacheFolders) : Except String Cleanup :=
  (CacheFolders.collectFiles folders.storagePaths).map (removal.processFiles {})

/-- A file, and not a directory, that is expired. -/
def isExpiredFile (file : CacheFile) : Bool := file.isFile && removal.isExpired file

/-- Only expired files are removed, at most as many as may be, and all of them if there are no more;
    and the number is that of the files that were removed. -/
structure IsBounded (files : List CacheFile) (cleanup : Cleanup) : Prop where
  onlyExpired : ∀ file ∈ cleanup.deleted, removal.isExpiredFile file
  atMost : cleanup.deleted.length ≤ removal.maxRemovalCount
  all : files.countP removal.isExpiredFile ≤ removal.maxRemovalCount →
    ∀ file ∈ cleanup.left, ¬ removal.isExpiredFile file
  count : cleanup.removedCount = cleanup.deleted.length

/-- The number is returned, and the cleanup was bounded. -/
def CleansUp (folders : CacheFolders) : Prop :=
  ∃ cleanup, removal.removeExpiredFileCache folders = .ok cleanup ∧
    removal.IsBounded folders.files cleanup

/-- The number of files of the first batches that are counted as removed. -/
def reportedIn (files : List CacheFile) (batches : ℕ) : ℕ :=
  counted removal.maxRemovalCount removal.deleteFile files batches

/-- The number of files of the first batches that are gone before they are removed. -/
def missedIn (files : List CacheFile) (batches : ℕ) : ℕ :=
  counted removal.maxRemovalCount removal.misses files batches

/-- A batch that is begun below the limit does not carry the count past it, and none of its files is
    gone before its removal. -/
def StaysWithin (files : List CacheFile) : Prop :=
  ∀ k, removal.reportedIn files k < removal.maxRemovalCount →
    removal.reportedIn files (k + 1) ≤ removal.maxRemovalCount ∧ removal.missedIn files (k + 1) = 0

/-- If no more files are expired than may be removed, none of them fails to be. -/
def NoneFails (files : List CacheFile) : Prop :=
  files.countP removal.isExpiredFile ≤ removal.maxRemovalCount →
    ∀ file ∈ files, removal.isExpiredFile file → file.stats ∧ file.unlink ≠ .failed

/-! ### The folders -/

theorem collectFiles_eq_ok {paths : List CacheFolder}
    (h : ∀ folder ∈ paths, ∀ error, folder ≠ .unreadable error) :
    CacheFolders.collectFiles paths = .ok (paths.flatMap CacheFolders.entries) := by
  induction paths with
  | nil => rfl
  | cons folder paths ih =>
    have hrest := ih fun other hother => h other (List.mem_cons_of_mem folder hother)
    rw [List.flatMap_cons]
    cases folder with
    | missing => exact hrest
    | unreadable error => exact absurd rfl (h _ List.mem_cons_self error)
    | content files =>
      rw [CacheFolders.collectFiles, hrest]
      rfl

theorem readable_of_eq_ok {paths : List CacheFolder} {files : List CacheFile}
    (h : CacheFolders.collectFiles paths = .ok files) :
    ∀ folder ∈ paths, ∀ error, folder ≠ .unreadable error := by
  induction paths generalizing files with
  | nil => exact fun folder hfolder => absurd hfolder List.not_mem_nil
  | cons folder paths ih =>
    rw [List.forall_mem_cons]
    cases folder with
    | missing => exact ⟨nofun, ih h⟩
    | unreadable error => cases h
    | content own =>
      rw [CacheFolders.collectFiles] at h
      cases hrest : CacheFolders.collectFiles paths with
      | error error =>
        rw [hrest] at h
        cases h
      | ok rest => exact ⟨nofun, ih hrest⟩

/-! ### The batches -/

/-- RUN (batches): what becomes of the files of the batches that are worked off, and of the rest. -/
theorem processFiles_eq (files : List CacheFile) (cleanup : Cleanup) : ∃ rest,
    let batches := processed removal.maxRemovalCount removal.maxRemovalCount removal.deleteFile
      cleanup.removedCount files
    files = batches ++ rest ∧ removal.processFiles cleanup files =
      { removal.processBatch batches cleanup with
        left := (removal.processBatch batches cleanup).left ++ rest } := by
  fun_induction processFiles removal cleanup files with
  | case1 cleanup =>
    refine ⟨[], ?_, ?_⟩
    · rw [processed_nil, List.append_nil]
    · rw [processed_nil, processBatch]
      simp only [List.filter_nil, List.append_nil, List.countP_nil, Nat.add_zero]
  | case2 cleanup files hne next hreached =>
    refine ⟨files.drop removal.maxRemovalCount, ?_, ?_⟩
    · rw [processed_of_le hreached, List.take_append_drop]
    · rw [processed_of_le hreached]
  | case3 cleanup files hne next hbelow ih =>
    obtain ⟨rest, hrest, heq⟩ := ih
    refine ⟨rest, ?_, ?_⟩
    · rw [processed_of_lt hbelow, List.append_assoc]
      exact (List.take_append_drop removal.maxRemovalCount files).symm.trans
        (congrArg (files.take removal.maxRemovalCount ++ ·) hrest)
    · rw [processed_of_lt hbelow, heq]
      simp only [processBatch, List.countP_append, List.filter_append, List.append_assoc,
        Nat.add_assoc, next]

/-- RUN (cleanup): some number of whole batches are worked off. -/
theorem exists_processFiles (files : List CacheFile) : ∃ k,
    (∀ j < k, removal.reportedIn files j < removal.maxRemovalCount) ∧
      (files.length ≤ k * removal.maxRemovalCount ∨
        removal.maxRemovalCount ≤ removal.reportedIn files k) ∧
      removal.processFiles {} files =
        { removedCount := removal.reportedIn files k
          deleted := (files.take (k * removal.maxRemovalCount)).filter removal.deletes
          left := ((files.take (k * removal.maxRemovalCount)).filter fun file =>
            !removal.deleteFile file) ++ files.drop (k * removal.maxRemovalCount) } := by
  obtain ⟨k, hk, hbelow, hend⟩ := exists_processed (p := removal.deleteFile) files
    removal.maxRemovalCount.pos
  simp only [Nat.zero_add] at hbelow hend
  obtain ⟨rest, hfiles, heq⟩ := removal.processFiles_eq files {}
  rw [hk] at hfiles heq
  obtain rfl : files.drop (k * removal.maxRemovalCount) = rest := by
    refine (List.append_right_inj (files.take (k * removal.maxRemovalCount))).mp ?_
    rw [← hfiles, List.take_append_drop]
  refine ⟨k, hbelow, hend, ?_⟩
  rw [heq]
  simp only [processBatch, Nat.zero_add, List.nil_append, reportedIn, counted]

/-- What is counted is removed, or was gone. -/
theorem countP_deleteFile (files : List CacheFile) : files.countP removal.deleteFile =
    (files.filter removal.deletes).length + files.countP removal.misses := by
  rw [← List.countP_eq_length_filter]
  induction files with
  | nil => rfl
  | cons file files ih =>
    rw [List.countP_cons, List.countP_cons, List.countP_cons, ih]
    have hone : (if removal.deleteFile file then 1 else 0) =
        (if removal.deletes file then 1 else 0) + if removal.misses file then 1 else 0 := by
      rw [deletes, misses, deleteFile]
      cases file.unlink <;> simp
    omega

/-- What is counted is an expired file. -/
theorem isExpiredFile_of_deleteFile {file : CacheFile} (h : removal.deleteFile file) :
    removal.isExpiredFile file := by
  rw [deleteFile, Bool.and_eq_true, Bool.and_eq_true] at h
  rw [isExpiredFile, Bool.and_eq_true]
  refine ⟨?_, h.1.2⟩
  by_contra hdirectory
  exact of_decide_eq_true h.2 (file.directory (Bool.eq_false_iff.mpr hdirectory))

theorem deleteFile_iff {file : CacheFile} (h : removal.isExpiredFile file) :
    removal.deleteFile file ↔ file.stats ∧ file.unlink ≠ .failed := by
  rw [isExpiredFile, Bool.and_eq_true] at h
  rw [deleteFile, h.2, Bool.and_true, Bool.and_eq_true, decide_eq_true_iff]

/-- Every file that is not counted is left, in whatever batch it is. -/
theorem mem_left {files : List CacheFile} {file : CacheFile} (hmem : file ∈ files)
    (h : ¬ removal.deleteFile file) (n : ℕ) :
    file ∈ ((files.take n).filter fun file => !removal.deleteFile file) ++ files.drop n := by
  rw [← List.take_append_drop n files, List.mem_append] at hmem
  refine List.mem_append.mpr (hmem.imp_left ?_)
  intro htake
  exact List.mem_filter.mpr ⟨htake, by rw [Bool.eq_false_iff.mpr h]; rfl⟩

/-- The cleanup of the files is bounded if and only if no batch carries the count past the limit, no
    file is gone before its removal, and none of a few expired ones fails. -/
theorem isBounded_iff (files : List CacheFile) :
    removal.IsBounded files (removal.processFiles {} files) ↔
      removal.StaysWithin files ∧ removal.NoneFails files := by
  obtain ⟨k, hbelow, hend, heq⟩ := removal.exists_processFiles files
  have hcount := removal.countP_deleteFile (files.take (k * removal.maxRemovalCount))
  change removal.reportedIn files k = _ + removal.missedIn files k at hcount
  rw [heq]
  constructor
  · rintro ⟨-, hmost, hall, hnumber⟩
    simp only at hmost hall hnumber
    refine ⟨?_, ?_⟩
    · intro j hj
      have hnext : removal.reportedIn files (j + 1) ≤ removal.reportedIn files k ∧
          removal.missedIn files (j + 1) ≤ removal.missedIn files k := by
        rcases Nat.lt_or_ge j k with hjk | hkj
        · exact ⟨counted_mono files hjk, counted_mono files hjk⟩
        · -- The limit is not reached, so there is nothing behind the batches.
          have hprev : removal.reportedIn files k ≤ removal.reportedIn files j :=
            counted_mono files hkj
          have hlength := hend.resolve_right (by omega)
          rw [reportedIn, reportedIn, missedIn, missedIn, counted_of_length_le hlength,
            counted_of_length_le hlength]
          exact ⟨counted_le files (j + 1), counted_le files (j + 1)⟩
      omega
    · intro hfew file hmem hexpired
      refine (removal.deleteFile_iff hexpired).mp ?_
      by_contra hnot
      exact hall hfew file (removal.mem_left hmem hnot _) hexpired
  · rintro ⟨hwithin, hfails⟩
    have hlast : removal.reportedIn files k ≤ removal.maxRemovalCount ∧
        removal.missedIn files k = 0 := by
      cases k with
      | zero => exact ⟨(counted_zero files).trans_le (Nat.zero_le _), counted_zero files⟩
      | succ j => exact hwithin j (hbelow j (Nat.lt_succ_self j))
    refine ⟨?_, ?_, ?_, ?_⟩
    · intro file hfile
      have hdeletes := (List.mem_filter.mp hfile).2
      rw [deletes, Bool.and_eq_true] at hdeletes
      exact removal.isExpiredFile_of_deleteFile hdeletes.1
    · simp only
      omega
    · intro hfew file hleft hexpired
      rcases List.mem_append.mp hleft with hkept | hrest
      · obtain ⟨htake, hnot⟩ := List.mem_filter.mp hkept
        have hdelete := (removal.deleteFile_iff hexpired).mpr
          (hfails hfew file (List.mem_of_mem_take htake) hexpired)
        rw [hdelete] at hnot
        cases hnot
      · -- The limit was reached before the file, which is one more that is expired.
        have hlong : ¬ files.length ≤ k * removal.maxRemovalCount := by
          intro hlength
          rw [List.drop_of_length_le hlength] at hrest
          cases hrest
        have hreached := hend.resolve_left hlong
        have hsplit : files.countP removal.isExpiredFile =
            (files.take (k * removal.maxRemovalCount)).countP removal.isExpiredFile +
              (files.drop (k * removal.maxRemovalCount)).countP removal.isExpiredFile := by
          rw [← List.countP_append, List.take_append_drop]
        have hfront : removal.reportedIn files k ≤
            (files.take (k * removal.maxRemovalCount)).countP removal.isExpiredFile :=
          List.countP_mono_left fun file _ h => removal.isExpiredFile_of_deleteFile h
        have hbehind := List.countP_pos_iff.mpr ⟨file, hrest, hexpired⟩
        omega
    · simp only
      omega

/-- CODE BUG (pending storage): the cleanup does as it should if and only if the folders are read and
    every batch keeps to the limit. -/
theorem cleansUp_iff (folders : CacheFolders) : removal.CleansUp folders ↔
    folders.Readable ∧ removal.StaysWithin folders.files ∧ removal.NoneFails folders.files := by
  rw [← isBounded_iff]
  constructor
  · rintro ⟨cleanup, hremoved, hbounded⟩
    have hreadable : folders.Readable := by
      cases hfiles : CacheFolders.collectFiles folders.storagePaths with
      | error error =>
        rw [removeExpiredFileCache, hfiles] at hremoved
        cases hremoved
      | ok files => exact readable_of_eq_ok hfiles
    rw [removeExpiredFileCache, collectFiles_eq_ok hreadable] at hremoved
    obtain rfl := Except.ok.inj hremoved
    exact ⟨hreadable, hbounded⟩
  · rintro ⟨hreadable, hbounded⟩
    refine ⟨_, ?_, hbounded⟩
    rw [removeExpiredFileCache, collectFiles_eq_ok hreadable]
    rfl

/-- Two files may be removed. The second of four is not expired. -/
def twoFileRemoval : ExpiredFileRemoval where
  expirationTimeMillis := 10
  maxRemovalCount := 2
  now := 100

/-- A file that can be removed. -/
def cacheFile (path : String) (mtime : ℤ) : CacheFile where
  path
  mtime
  directory := fun h => Bool.noConfusion h

/-- Three of the four files are expired. -/
def fourFiles : CacheFolders where
  pendingStorageCache := .content [cacheFile "a" 0, cacheFile "b" 95]
  networkSignatures := .content [cacheFile "c" 0, cacheFile "d" 0]
  publisherNodeSignatures := .missing

/-- COUNTEREXAMPLE: three files are removed. -/
theorem not_cleansUp_fourFiles : ¬ twoFileRemoval.CleansUp fourFiles := by
  rintro ⟨cleanup, hremoved, hbounded⟩
  obtain rfl : twoFileRemoval.processFiles {} fourFiles.files = cleanup := Except.ok.inj hremoved
  obtain ⟨k, -, hend, heq⟩ := twoFileRemoval.exists_processFiles fourFiles.files
  -- After the first batch one file is removed, so the second is begun.
  have htwo : 2 ≤ k := by
    by_contra hlt
    interval_cases k
    · exact absurd hend (by decide)
    · exact absurd hend (by decide)
  have hmost := hbounded.atMost
  have hall : fourFiles.files.take (k * twoFileRemoval.maxRemovalCount) = fourFiles.files :=
    List.take_of_length_le (Nat.mul_le_mul_right 2 htwo)
  rw [heq, hall] at hmost
  change (fourFiles.files.filter twoFileRemoval.deletes).length ≤ 2 at hmost
  exact absurd hmost (by decide)

/-- Where no more files are expired than may be removed and the file system does its part, the
    cleanup does as it should. -/
theorem cleansUp_of_few {folders : CacheFolders} (hreadable : folders.Readable)
    (hfew : folders.files.countP removal.isExpiredFile ≤ removal.maxRemovalCount)
    (hunlink : ∀ file ∈ folders.files, removal.isExpiredFile file →
      file.stats ∧ file.unlink = .removed) : removal.CleansUp folders := by
  refine ⟨removal.processFiles {} folders.files, ?_, ?_⟩
  · rw [removeExpiredFileCache, collectFiles_eq_ok hreadable]
    rfl
  · rw [isBounded_iff]
    constructor
    · intro k _
      constructor
      · calc removal.reportedIn folders.files (k + 1)
            ≤ folders.files.countP removal.deleteFile := counted_le _ _
          _ ≤ folders.files.countP removal.isExpiredFile :=
            List.countP_mono_left fun file _ h => removal.isExpiredFile_of_deleteFile h
          _ ≤ removal.maxRemovalCount := hfew
      · refine List.countP_eq_zero.mpr ?_
        intro file hfile hmisses
        rw [misses, Bool.and_eq_true] at hmisses
        have hremoved := (hunlink file (List.mem_of_mem_take hfile)
          (removal.isExpiredFile_of_deleteFile hmisses.1)).2
        rw [hremoved] at hmisses
        cases of_decide_eq_true hmisses.2
    · intro _ file hfile hexpired
      obtain ⟨hstats, hremoved⟩ := hunlink file hfile hexpired
      rw [hremoved]
      exact ⟨hstats, nofun⟩

end ExpiredFileRemoval

end OtNode
