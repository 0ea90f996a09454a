import OtNode.Cache.Interference
import OtNode.Lib.JsonLines
import OtNode.Operation.Types

/-! The signatures of an operation, kept in files and handed out with its result.

    A signature comes from a peer, with any values in it, and is appended to the file of its
    operation. The result endpoint reads the file of the publisher and that of the network. -/

namespace OtNode

open Json Posix Utf

/-- What a signature is stored with. -/
structure SignatureData where
  identityId : Option Value
  v : Option Value
  r : Option Value
  s : Option Value
  vs : Option Value

namespace SignatureData

/-- The object that is stored. -/
def record (data : SignatureData) : Value :=
  literal [("identityId", data.identityId), ("v", data.v), ("r", data.r), ("s", data.s),
    ("vs", data.vs)]

/-- The signature with its values as they are read back. -/
def normalised (data : SignatureData) : SignatureData :=
  ⟨data.identityId.map normal, data.v.map normal, data.r.map normal, data.s.map normal,
    data.vs.map normal⟩

end SignatureData

/-- The contents of the files. -/
abbrev StoredFiles := List (List UInt8) → Option (List UInt8)

/-- The name of a folder. -/
def SignaturesFolder.name : SignaturesFolder → JsString
  | network => units "network"
  | publisher => units "publisher"

namespace FileService

variable (f : FileService)

/-- `getSignatureStorageCachePath`. -/
def getSignatureStorageCachePath : JsString :=
  join [f.getDataFolderPath, units "signature_storage_cache"]

/-- `getSignatureStorageFolderPath`. -/
def getSignatureStorageFolderPath (folder : SignaturesFolder) : JsString :=
  join [f.getSignatureStorageCachePath, folder.name]

/-- `getSignatureStorageDocumentPath`. -/
def getSignatureStorageDocumentPath (folder : SignaturesFolder) (operationId : JsString) :
    JsString :=
  join [f.getSignatureStorageFolderPath folder, operationId]

/-- `appendContentsToFile`. -/
def appendContentsToFile (files : StoredFiles) (directory filename data : JsString) : StoredFiles :=
  let fullPath := fileKey (join [directory, filename])
  Function.update files fullPath (some ((files fullPath).getD [] ++ encode data))

end FileService

/-- A signature that is stored for an operation. -/
structure StoredSignature where
  folder : SignaturesFolder
  operationId : JsString
  data : SignatureData

/-- What the result of a publish has of the signatures. -/
structure ResultSignatures where
  publisherNodeSignature : Option Value
  signatures : List Value

namespace SignatureService

variable (f : FileService) (files : StoredFiles)

/-- `addSignatureToStorage`. -/
def addSignatureToStorage (signature : StoredSignature) : StoredFiles :=
  FileService.appendContentsToFile files (f.getSignatureStorageFolderPath signature.folder)
    signature.operationId (line signature.data.record)

/-- `getSignaturesFromStorage`, `none` where it throws. -/
def getSignaturesFromStorage (folder : SignaturesFolder) (operationId : JsString) :
    Option (List Value) :=
  (files (fileKey (f.getSignatureStorageDocumentPath folder operationId))).bind fun rawSignatures =>
    readLines ((decode rawSignatures).splitOn lineFeed)

/-- The signatures in the result of a publish that has reached its minimum. -/
def resultSignatures (operationId : JsString) : Option ResultSignatures := do
  let publisherNodeSignatures ← getSignaturesFromStorage f files .publisher operationId
  let signatures ← getSignaturesFromStorage f files .network operationId
  return ⟨publisherNodeSignatures.head?, signatures⟩

/-- The files after signatures were stored, in the order in which that was done. -/
def storeAll (signatures : List StoredSignature) : StoredFiles :=
  signatures.foldl (addSignatureToStorage f) files

end SignatureService

/-! ### Paths -/

/-- An operation id that is the name of a file. -/
structure IsFileName (operationId : JsString) : Prop where
  plain : Plain slash dot operationId
  wellFormed : WellFormed operationId

section Paths

variable (f : FileService) {folder folder' : SignaturesFolder} {operationId operationId' : JsString}

/-- A name joined to a directory is its last part. -/
theorem parts_join_name {directory name : JsString} (habsolute : directory.head? = some slash)
    (hparts : ∀ part ∈ parts slash directory, Plain slash dot part) (hname : Plain slash dot name) :
    parts slash (FileService.join [directory, name]) = parts slash directory ++ [name] := by
  have hsegments : segments slash name = [name] := segments_of_not_mem hname.noSep
  have hpush : push dot true (parts slash directory).reverse name =
      name :: (parts slash directory).reverse := by
    unfold push
    rw [if_neg (not_or.mpr ⟨hname.nonempty, hname.notDot⟩), if_neg hname.notDotDot]
  rw [FileService.join, parts_join_pair habsolute hparts, hsegments, resolve, List.foldl_cons,
    List.foldl_nil, hpush, List.reverse_cons, List.reverse_reverse]

theorem plain_name (folder : SignaturesFolder) : Plain slash dot folder.name := by
  cases folder <;> exact ⟨by decide, by decide, by decide, by decide⟩

/-- The parts of the path of a file: those of the storage, the folder and the operation id. -/
theorem parts_documentPath (hid : Plain slash dot operationId) :
    parts slash (f.getSignatureStorageDocumentPath folder operationId) =
      parts slash f.getSignatureStorageCachePath ++ [folder.name, operationId] := by
  have hcache : f.getSignatureStorageCachePath.head? = some slash :=
    (parts_join (dataFolder_absolute f) _).2
  have hcacheParts : ∀ part ∈ parts slash f.getSignatureStorageCachePath, Plain slash dot part :=
    plain_parts_join (dataFolder_absolute f) _
  have hfolder : (f.getSignatureStorageFolderPath folder).head? = some slash :=
    (parts_join hcache _).2
  have hfolderParts : ∀ part ∈ parts slash (f.getSignatureStorageFolderPath folder),
      Plain slash dot part := plain_parts_join hcache _
  rw [FileService.getSignatureStorageDocumentPath, parts_join_name hfolder hfolderParts hid,
    FileService.getSignatureStorageFolderPath, parts_join_name hcache hcacheParts (plain_name _),
    List.append_assoc, List.singleton_append]

theorem wellFormed_name (folder : SignaturesFolder) : WellFormed folder.name := by
  cases folder <;> exact wellFormed_of_plain (plain_of_all rfl)

theorem encode_injective {s t : JsString} (hs : WellFormed s) (ht : WellFormed t)
    (h : encode s = encode t) : s = t := by
  rw [← decode_encode_of_wellFormed hs, h, decode_encode_of_wellFormed ht]

theorem name_injective (h : folder.name = folder'.name) : folder = folder' := by
  cases folder <;> cases folder' <;> first | rfl | exact absurd h (by decide)

/-- Each operation has a file of its own in each folder. -/
theorem fileKey_documentPath_iff (hid : IsFileName operationId) (hid' : IsFileName operationId') :
    fileKey (f.getSignatureStorageDocumentPath folder operationId) =
        fileKey (f.getSignatureStorageDocumentPath folder' operationId') ↔
      folder = folder' ∧ operationId = operationId' := by
  constructor
  · intro h
    rw [fileKey, fileKey, parts_documentPath f hid.plain, parts_documentPath f hid'.plain,
      List.map_append, List.map_append, List.append_right_inj] at h
    simp only [List.map_cons, List.map_nil, List.cons.injEq, and_true] at h
    exact ⟨name_injective (encode_injective (wellFormed_name _) (wellFormed_name _) h.1),
      encode_injective hid.wellFormed hid'.wellFormed h.2⟩
  · rintro ⟨rfl, rfl⟩
    rfl

end Paths

/-! ### What is read back -/

/-- Members with different keys are read back as they are. -/
theorem foldl_define {ms earlier : List (JsString × Value)}
    (h : ((earlier ++ ms).map Prod.fst).Nodup) : ms.foldl define earlier = earlier ++ ms := by
  induction ms generalizing earlier with
  | nil => rw [List.foldl_nil, List.append_nil]
  | cons m ms ih =>
    have hnew : m.1 ∉ earlier.map Prod.fst := by
      rw [List.map_append, List.map_cons] at h
      intro hmem
      exact (List.nodup_append.mp h).2.2 _ hmem _ List.mem_cons_self rfl
    have hdefine : ∀ {ns : List (JsString × Value)}, m.1 ∉ ns.map Prod.fst →
        define ns m = ns ++ [m] := by
      intro ns hns
      induction ns with
      | nil => rfl
      | cons n ns ihn =>
        rw [List.map_cons, List.mem_cons, not_or] at hns
        rw [define, if_neg (Ne.symm hns.1), ihn hns.2, List.cons_append]
    rw [List.foldl_cons, hdefine hnew, ih (by simpa using h), List.append_assoc,
      List.singleton_append]

theorem normalMembers_eq_map (ms : List (JsString × Value)) :
    normalMembers ms = ms.map fun m => (m.1, normal m.2) := by
  induction ms with
  | nil => rfl
  | cons m ms ih => rw [normalMembers, ih, List.map_cons]

/-- An object literal is read back with its members. -/
theorem normal_literal {members : List (String × Option Value)}
    (h : (members.map fun m => units m.1).Nodup) :
    normal (literal members) = literal (members.map fun m => (m.1, m.2.map normal)) := by
  have hkeys : ((members.filterMap fun m => m.2.map fun v => (units m.1, v)).map Prod.fst).Sublist
      (members.map fun m => units m.1) := by
    rw [List.map_filterMap, ← List.filterMap_eq_map]
    induction members with
    | nil => exact .refl _
    | cons m members ih =>
      obtain ⟨name, value⟩ := m
      have hrest := ih (List.nodup_cons.mp h).2
      cases value with
      | none => exact hrest.cons _
      | some value => exact hrest.cons_cons _
  have hnodup := hkeys.nodup h
  have hfst : ((normalMembers (members.filterMap fun m => m.2.map fun v => (units m.1, v))).map
      Prod.fst).Nodup := by
    rw [normalMembers_eq_map, List.map_map]
    exact hnodup
  have hdefine := @foldl_define _ [] hfst
  rw [literal, normal, hdefine, List.nil_append, normalMembers_eq_map, literal, List.map_filterMap,
    List.filterMap_map]
  congr 2
  funext m
  obtain ⟨name, value⟩ := m
  cases value <;> rfl

/-- A stored signature is read back with its values normalised. -/
theorem normal_record (data : SignatureData) : normal data.record = data.normalised.record :=
  normal_literal
    (show (["identityId", "v", "r", "s", "vs"].map units).Nodup by decide)

/-! ### The files over a run -/

namespace SignatureService

/-- The signatures of an operation in a folder, in the order in which they were stored. -/
def storedFor (signatures : List StoredSignature) (folder : SignaturesFolder)
    (operationId : JsString) : List SignatureData :=
  (signatures.filter fun signature =>
    signature.folder = folder ∧ signature.operationId = operationId).map (·.data)

/-- What is read of signatures that were stored. -/
def records (signatures : List SignatureData) : List Value :=
  signatures.map fun data => data.normalised.record

section Run

variable (f : FileService) {files : StoredFiles} {signatures : List StoredSignature}
  {operationId : JsString}

theorem storedFor_cons (signature : StoredSignature) (signatures : List StoredSignature)
    (folder : SignaturesFolder) (operationId : JsString) :
    storedFor (signature :: signatures) folder operationId =
      (if signature.folder = folder ∧ signature.operationId = operationId then [signature.data]
        else []) ++ storedFor signatures folder operationId := by
  unfold storedFor
  rw [List.filter_cons]
  split_ifs <;> simp_all

/-- STEP: a signature is appended to the file of its operation, and to no other. -/
theorem addSignatureToStorage_apply {signature : StoredSignature}
    (hsignature : IsFileName signature.operationId) (hid : IsFileName operationId)
    (folder : SignaturesFolder) :
    addSignatureToStorage f files signature
        (fileKey (f.getSignatureStorageDocumentPath folder operationId)) =
      if signature.folder = folder ∧ signature.operationId = operationId then
        some ((files (fileKey (f.getSignatureStorageDocumentPath folder operationId))).getD [] ++
          encode (line signature.data.record))
      else files (fileKey (f.getSignatureStorageDocumentPath folder operationId)) := by
  have hkey : _ ↔ signature.folder = folder ∧ _ := fileKey_documentPath_iff f hsignature hid
  unfold addSignatureToStorage FileService.appendContentsToFile
  rw [← FileService.getSignatureStorageDocumentPath]
  split_ifs with hsame
  · obtain ⟨rfl, rfl⟩ := hsame
    exact Function.update_self _ _ _
  · exact Function.update_of_ne (fun h => hsame (hkey.mp h.symm)) _ _

/-- RUN: a file has the lines of the signatures of its operation, in the order in which they were
    stored. -/
theorem storeAll_apply (hsignatures : ∀ signature ∈ signatures, IsFileName signature.operationId)
    (hid : IsFileName operationId) (folder : SignaturesFolder) :
    storeAll f files signatures (fileKey (f.getSignatureStorageDocumentPath folder operationId)) =
      if storedFor signatures folder operationId = [] then
        files (fileKey (f.getSignatureStorageDocumentPath folder operationId))
      else
        some ((files (fileKey (f.getSignatureStorageDocumentPath folder operationId))).getD [] ++
          (storedFor signatures folder operationId).flatMap fun data =>
            encode (line data.record)) := by
  induction signatures generalizing files with
  | nil => rfl
  | cons signature signatures ih =>
    have hrun : storeAll f files (signature :: signatures) =
      storeAll f (addSignatureToStorage f files signature) signatures := rfl
    rw [hrun, ih fun s hs => hsignatures s (List.mem_cons_of_mem _ hs),
      addSignatureToStorage_apply f (hsignatures signature List.mem_cons_self) hid, storedFor_cons]
    by_cases hsame : signature.folder = folder ∧ signature.operationId = operationId
    · simp only [if_pos hsame, List.singleton_append, reduceCtorEq, if_false, Option.getD_some,
        List.flatMap_cons, List.append_assoc]
      split_ifs with hnone
      · rw [hnone, List.flatMap_nil, List.append_nil]
      · rfl
    · simp only [if_neg hsame, List.nil_append]

/-- READ BACK: what is read for an operation are the signatures that were stored for it. -/
theorem getSignaturesFromStorage_storeAll
    (hsignatures : ∀ signature ∈ signatures, IsFileName signature.operationId)
    (hid : IsFileName operationId) (folder : SignaturesFolder)
    (hnew : files (fileKey (f.getSignatureStorageDocumentPath folder operationId)) = none) :
    getSignaturesFromStorage f (storeAll f files signatures) folder operationId =
      if storedFor signatures folder operationId = [] then none
      else some (records (storedFor signatures folder operationId)) := by
  rw [getSignaturesFromStorage, storeAll_apply f hsignatures hid folder, hnew]
  split_ifs
  · rfl
  · have hlines := readLines_decode ((storedFor signatures folder operationId).map fun data =>
      [("identityId", data.identityId), ("v", data.v), ("r", data.r), ("s", data.s),
        ("vs", data.vs)].filterMap fun m => m.2.map fun v => (units m.1, v))
    rw [List.map_map, List.flatMap_map, List.map_map] at hlines
    rw [Option.getD_none, List.nil_append, Option.bind_some]
    refine hlines.trans ?_
    rw [records]
    congr 1
    exact List.map_congr_left fun data _ => normal_record data

/-- CORRECT: whatever values peers put in signatures, and however the signatures of operations are
    interleaved, the result of an operation has the first signature of its publisher and every one
    of the network in the order of storing; without one of either there is no result. -/
theorem resultSignatures_storeAll
    (hsignatures : ∀ signature ∈ signatures, IsFileName signature.operationId)
    (hid : IsFileName operationId)
    (hnew : ∀ folder,
      files (fileKey (f.getSignatureStorageDocumentPath folder operationId)) = none) :
    resultSignatures f (storeAll f files signatures) operationId =
      if storedFor signatures .publisher operationId = [] ∨
          storedFor signatures .network operationId = [] then none
      else some ⟨(records (storedFor signatures .publisher operationId)).head?,
        records (storedFor signatures .network operationId)⟩ := by
  rw [resultSignatures, getSignaturesFromStorage_storeAll f hsignatures hid _ (hnew _),
    getSignaturesFromStorage_storeAll f hsignatures hid _ (hnew _)]
  by_cases hpublisher : storedFor signatures .publisher operationId = []
  · simp only [hpublisher, if_true, true_or]
    rfl
  · by_cases hnetwork : storedFor signatures .network operationId = []
    · simp only [hnetwork, if_true, or_true]
      rw [if_neg hpublisher]
      rfl
    · simp only [hpublisher, hnetwork, if_false, or_self]
      rfl

end Run

/-- A node with its data in its own folder. -/
def signatureFiles : FileService := ⟨units "/app", units "data", false, by decide⟩

/-- The signatures of two operations, one with values of no signature. -/
def signatureRun : List StoredSignature :=
  [⟨.publisher, units "a",
      ⟨some (.str (units "7")), some (.num ⟨units "27", by decide⟩), none, none, none⟩⟩,
    ⟨.network, units "b", ⟨some (.str (units "8")), none, none, none, none⟩⟩,
    ⟨.network, units "a",
      ⟨some (.obj [(units "x", .null), (units "x", .arr [])]), none, some (.str [10]), none, none⟩⟩]

theorem resultSignatures_storeAll_signatureRun :
    ∃ publisher network,
      resultSignatures signatureFiles (storeAll signatureFiles (fun _ => none) signatureRun)
          (units "a") = some ⟨some publisher, [network]⟩ ∧
        network = literal [("identityId", some (.obj [(units "x", .arr [])])),
          ("r", some (.str [10]))] := by
  have hid : ∀ c, c = units "a" ∨ c = units "b" → IsFileName c := by
    rintro c (rfl | rfl)
    · exact ⟨⟨by decide, by decide, by decide, by decide⟩, wellFormed_of_plain (plain_of_all rfl)⟩
    · exact ⟨⟨by decide, by decide, by decide, by decide⟩, wellFormed_of_plain (plain_of_all rfl)⟩
  have hsignatures : ∀ signature ∈ signatureRun, IsFileName signature.operationId := by
    intro signature hsignature
    simp only [signatureRun, List.mem_cons, List.not_mem_nil, or_false] at hsignature
    rcases hsignature with rfl | rfl | rfl
    · exact hid _ (.inl rfl)
    · exact hid _ (.inr rfl)
    · exact hid _ (.inl rfl)
  exact ⟨_, _, resultSignatures_storeAll signatureFiles hsignatures (hid _ (.inl rfl)) fun _ => rfl,
    rfl⟩

end SignatureService

end OtNode
