import OtNode.Lib.Posix
import OtNode.Lib.Utf

/-! The cache files of an operation id, and where the ids of other nodes lead.

    `FileService` joins the operation id to a cache directory. The ids in the headers of messages and
    in events are not checked before that: an id is any string of UTF-16 code units. -/

namespace OtNode

open Posix Utf

/-- `/` and `.`. -/
def slash : UInt16 := 47
def dot : UInt16 := 46

/-- The configuration of `FileService`. `app-root-path` is an absolute path. -/
structure FileService where
  appRootPath : JsString
  appDataPath : JsString
  deployed : Bool
  absolute : appRootPath.head? = some slash

namespace FileService

variable (f : FileService)

/-- `path.join`. -/
def join (ps : List JsString) : JsString := Posix.join slash dot ps

/-- `getDataFolderPath`. -/
def getDataFolderPath : JsString :=
  if f.deployed then join [f.appRootPath, units "..", f.appDataPath]
  else join [f.appRootPath, f.appDataPath]

/-- `getOperationIdCachePath`. -/
def getOperationIdCachePath : JsString := join [f.getDataFolderPath, units "operation_id_cache"]

/-- `getOperationIdDocumentPath`. -/
def getOperationIdDocumentPath (operationId : JsString) : JsString :=
  join [f.getOperationIdCachePath, operationId]

/-- `getPendingStorageCachePath`. -/
def getPendingStorageCachePath : JsString :=
  join [f.getDataFolderPath, units "pending_storage_cache"]

/-- `getPendingStorageDocumentPath`. -/
def getPendingStorageDocumentPath (operationId : JsString) : JsString :=
  join [f.getPendingStorageCachePath, operationId]

end FileService

/-- What is done to a file. -/
inductive FileAction where | write | read | remove
  deriving DecidableEq

/-- A file access, with the cache directory it is meant for. -/
structure FileAccess where
  action : FileAction
  directory : JsString
  path : JsString
  deriving DecidableEq

namespace FileService

variable (f : FileService) (operationId : JsString)

/-- `writeContentsToFile`. -/
def writeContentsToFile (directory filename : JsString) : FileAccess :=
  ⟨.write, directory, join [directory, filename]⟩

/-- `OperationIdService.cacheOperationIdDataToFile`. -/
def cacheOperationIdDataToFile : FileAccess :=
  writeContentsToFile f.getOperationIdCachePath operationId

/-- `OperationIdService.getCachedOperationIdData`, when the data is not in memory. -/
def getCachedOperationIdData : FileAccess :=
  ⟨.read, f.getOperationIdCachePath, f.getOperationIdDocumentPath operationId⟩

/-- `OperationIdService.removeOperationIdCache`. -/
def removeOperationIdCache : FileAccess :=
  ⟨.remove, f.getOperationIdCachePath, f.getOperationIdDocumentPath operationId⟩

/-- `PendingStorageService.cacheDataset`. -/
def cacheDataset : FileAccess := writeContentsToFile f.getPendingStorageCachePath operationId

/-- The read of `ReadCachedPublishDataCommand`. -/
def readCachedPublishData : FileAccess :=
  ⟨.read, f.getPendingStorageCachePath, f.getPendingStorageDocumentPath operationId⟩

end FileService

/-- What carries an operation id of another node. -/
inductive Carrier where
  | publishRequest | updateRequest | getRequest | askRequest | finalityRequest
  | knowledgeCollectionCreated
  deriving DecidableEq

namespace Carrier

/-- The carrier is handled: `isRequestValid` refuses a request whose operation id is empty. -/
def isHandled (operationId : JsString) : Carrier → Bool
  | knowledgeCollectionCreated => true
  | _ => !operationId.isEmpty

/-- The files accessed for the operation id of a carrier that is handled: by the controller and the
    command of a request, with the removal of the cached data when the operation fails, and by the
    commands of the finalisation. -/
def handlerAccesses (f : FileService) (operationId : JsString) : Carrier → List FileAccess
  | publishRequest =>
    [f.cacheOperationIdDataToFile operationId, f.getCachedOperationIdData operationId,
      f.cacheDataset operationId, f.removeOperationIdCache operationId]
  | updateRequest => [f.getCachedOperationIdData operationId]
  | getRequest => [f.removeOperationIdCache operationId]
  -- `markOperationAsCompleted` caches the response
  | askRequest | finalityRequest =>
    [f.cacheOperationIdDataToFile operationId, f.removeOperationIdCache operationId]
  | knowledgeCollectionCreated => [f.readCachedPublishData operationId]

/-- The files accessed for the operation id. -/
def accesses (f : FileService) (operationId : JsString) (c : Carrier) : List FileAccess :=
  if c.isHandled operationId then c.handlerAccesses f operationId else []

/-- The cache directories these files belong in. -/
def directories (f : FileService) : Carrier → List JsString
  | publishRequest => [f.getOperationIdCachePath, f.getPendingStorageCachePath]
  | updateRequest | getRequest | askRequest | finalityRequest => [f.getOperationIdCachePath]
  | knowledgeCollectionCreated => [f.getPendingStorageCachePath]

end Carrier

/-- An operation id that stays in a directory: normalised by itself it is one name, after `..` steps
    that the names of as many last directories take back. -/
def Stays (directory operationId : JsString) : Prop :=
  ∃ k name, Plain slash dot name ∧ relative slash dot operationId =
    List.replicate k [dot, dot] ++ ((parts slash directory).rtake k ++ [name])

/-! ### Confinement -/

section Confinement

variable (f : FileService) (operationId : JsString)

theorem dataFolder_absolute : f.getDataFolderPath.head? = some slash := by
  unfold FileService.getDataFolderPath
  split_ifs
  · exact (parts_join f.absolute _).2
  · exact (parts_join f.absolute _).2

/-- The path of a document in a cache directory. -/
theorem document_inside_iff (folder : JsString) :
    DirectlyInside slash dot (FileService.join [f.getDataFolderPath, folder])
        (FileService.join [FileService.join [f.getDataFolderPath, folder], operationId]) ↔
      Stays (FileService.join [f.getDataFolderPath, folder]) operationId :=
  directlyInside_join_iff (parts_join (dataFolder_absolute f) _).2
    (plain_parts_join (dataFolder_absolute f) _)

theorem operationIdDocument_inside_iff :
    DirectlyInside slash dot f.getOperationIdCachePath (f.getOperationIdDocumentPath operationId) ↔
      Stays f.getOperationIdCachePath operationId :=
  document_inside_iff f operationId _

theorem pendingStorageDocument_inside_iff :
    DirectlyInside slash dot f.getPendingStorageCachePath
        (f.getPendingStorageDocumentPath operationId) ↔
      Stays f.getPendingStorageCachePath operationId :=
  document_inside_iff f operationId _

/-- A file accessed for an operation id lies directly inside its directory if the id stays in it. -/
theorem access_inside_iff {c : Carrier} {a : FileAccess} (h : a ∈ c.handlerAccesses f operationId) :
    DirectlyInside slash dot a.directory a.path ↔ Stays a.directory operationId := by
  have hcached := operationIdDocument_inside_iff f operationId
  have hstored := pendingStorageDocument_inside_iff f operationId
  cases c with
  | publishRequest =>
    simp only [Carrier.handlerAccesses, List.mem_cons, List.not_mem_nil, or_false] at h
    rcases h with rfl | rfl | rfl | rfl
    · exact hcached
    · exact hcached
    · exact hstored
    · exact hcached
  | updateRequest | getRequest =>
    obtain rfl := List.mem_singleton.mp h
    exact hcached
  | askRequest | finalityRequest =>
    simp only [Carrier.handlerAccesses, List.mem_cons, List.not_mem_nil, or_false] at h
    rcases h with rfl | rfl
    · exact hcached
    · exact hcached
  | knowledgeCollectionCreated =>
    obtain rfl := List.mem_singleton.mp h
    exact hstored

/-- The directories are those of the accesses. -/
theorem mem_directories_iff (c : Carrier) (d : JsString) :
    d ∈ c.directories f ↔ ∃ a ∈ c.handlerAccesses f operationId, a.directory = d := by
  have hcache : (f.cacheOperationIdDataToFile operationId).directory = f.getOperationIdCachePath :=
    rfl
  have hread : (f.getCachedOperationIdData operationId).directory = f.getOperationIdCachePath := rfl
  have hremove : (f.removeOperationIdCache operationId).directory = f.getOperationIdCachePath := rfl
  have hpending : (f.cacheDataset operationId).directory = f.getPendingStorageCachePath := rfl
  have hevent : (f.readCachedPublishData operationId).directory = f.getPendingStorageCachePath := rfl
  cases c with
  | publishRequest =>
    simp only [Carrier.directories, Carrier.handlerAccesses, List.mem_cons, List.not_mem_nil, or_false,
      exists_eq_or_imp, exists_eq_left, hcache, hread, hpending, hremove]
    constructor
    · rintro (rfl | rfl)
      · exact .inl rfl
      · exact .inr (.inr (.inl rfl))
    · rintro (rfl | rfl | rfl | rfl)
      · exact .inl rfl
      · exact .inl rfl
      · exact .inr rfl
      · exact .inl rfl
  | _ =>
    simp [Carrier.directories, Carrier.handlerAccesses, hcache, hread, hremove, hevent, eq_comm]

/-- CORRECT (confinement): every file accessed for an operation id lies directly inside its cache
    directory, if and only if the id stays in each of the directories, or is not let in. -/
theorem accesses_confined (c : Carrier) :
    (∀ a ∈ c.accesses f operationId, DirectlyInside slash dot a.directory a.path) ↔
      (c.isHandled operationId = true → ∀ d ∈ c.directories f, Stays d operationId) := by
  rw [Carrier.accesses]
  split
  · next hhandled =>
    constructor
    · intro h _ d hd
      obtain ⟨a, ha, rfl⟩ := (mem_directories_iff f operationId c d).1 hd
      exact (access_inside_iff f operationId ha).1 (h a ha)
    · intro h a ha
      exact (access_inside_iff f operationId ha).2
        (h hhandled _ ((mem_directories_iff f operationId c _).2 ⟨a, ha, rfl⟩))
  · next hrefused =>
    exact iff_of_true (fun _ ha => absurd ha List.not_mem_nil) fun hhandled =>
      absurd hhandled hrefused

/-- A store request with the operation id `../../x` writes next to the data folder. -/
theorem accesses_escape :
    let f : FileService := ⟨units "/ot-node", units "data", false, rfl⟩
    (f.cacheOperationIdDataToFile (units "../../x")).path = units "/ot-node/x" ∧
      ¬ ∀ a ∈ Carrier.publishRequest.accesses f (units "../../x"),
        DirectlyInside slash dot a.directory a.path := by
  intro f
  refine ⟨by decide, ?_⟩
  intro h
  obtain ⟨name, -, hname⟩ := h (f.cacheOperationIdDataToFile (units "../../x")) (by
    simp [Carrier.accesses, Carrier.handlerAccesses, Carrier.isHandled, units])
  have hlen := congrArg List.length hname
  rw [List.length_append, List.length_singleton] at hlen
  revert hlen
  decide

end Confinement

end OtNode
