import Mathlib.Logic.Function.Basic
import OtNode.Cache.Files
import OtNode.Network.Inbound

/-! The cached data of operations under the requests of other nodes.

    Every cache is keyed by the operation id alone: an entry of `memoryCachedHandlersData`, which is a
    plain object, and two files. A request is handled in steps, between which other requests and the
    local operations go on. -/

namespace OtNode

open Posix Utf Json

/-! ### The caches -/

/-- The name under which an object keeps its prototype. -/
def protoKey : JsString := units "__proto__"

/-- The other names that an empty object has. -/
def objectPrototype : List JsString :=
  ["constructor", "hasOwnProperty", "isPrototypeOf", "propertyIsEnumerable", "toLocaleString",
    "toString", "valueOf", "__defineGetter__", "__defineSetter__", "__lookupGetter__",
    "__lookupSetter__"].map units

/-- `memoryCachedHandlersData`: the data of its own entries, and of one put in place of its
    prototype. An entry is an object with the keys `data` and `timestamp`. -/
structure HandlersData where
  own : JsString → Option Value := fun _ => none
  prototype : Option Value := none

namespace HandlersData

variable (m : HandlersData)

/-- What an object without the name finds. The functions of `Object.prototype` have no `data`. -/
def inherited (key : JsString) : Option (Option Value) :=
  if key ∈ objectPrototype then some none else none

/-- `memoryCachedHandlersData[key]`, the `data` of what is found. -/
def get (key : JsString) : Option (Option Value) :=
  if key = protoKey then some m.prototype
  else
    match m.own key, m.prototype with
    | some data, _ => some (some data)
    | none, none => inherited key
    | none, some data =>
      if key = units "data" then
        if data.truthy then some (field data (units "data")).toOption.join else none
      else if key = units "timestamp" then some none
      else inherited key

/-- `memoryCachedHandlersData[key] = …`. -/
def set (key : JsString) (data : Value) : HandlersData :=
  if key = protoKey then { m with prototype := some data }
  else { m with own := Function.update m.own key (some data) }

/-- `delete memoryCachedHandlersData[key]`, which removes own entries only. -/
def delete (key : JsString) : HandlersData := { m with own := Function.update m.own key none }

end HandlersData

/-- The file of a path: the bytes of its names. -/
def fileKey (path : JsString) : List (List UInt8) := (parts slash path).map encode

/-- The entries in memory, and the contents of the files. -/
structure Caches where
  memory : HandlersData := {}
  files : List (List UInt8) → Option JsString := fun _ => none

mutual

/-- The property key of a value. A number has the text that `ofNumber` gives it. -/
def propertyKey (ofNumber : Number → JsString) : Value → JsString
  | .null => units "null"
  | .bool true => units "true"
  | .bool false => units "false"
  | .num n => ofNumber n
  | .str s => s
  | .arr xs => joinedElements ofNumber xs
  | .obj _ => units "[object Object]"

/-- The elements of an array, joined by commas. `null` is left empty. -/
def joinedElements (ofNumber : Number → JsString) : List Value → JsString
  | [] => []
  | .null :: xs => if xs.isEmpty then [] else 44 :: joinedElements ofNumber xs
  | x :: xs =>
    propertyKey ofNumber x ++ if xs.isEmpty then [] else 44 :: joinedElements ofNumber xs

end

/-- An object literal. Members that are undefined are read and serialised as if missing. -/
def literal (members : List (String × Option Value)) : Value :=
  .obj (members.filterMap fun m => m.2.map fun v => (units m.1, v))

namespace Caches

variable (f : FileService) (ofNumber : Number → JsString) (c : Caches)

/-- A file after a write, or without one. -/
def put (path : JsString) (contents : Option JsString) : Caches :=
  { c with files := Function.update c.files (fileKey path) contents }

/-- `cacheOperationIdDataToMemory`. -/
def cacheOperationIdDataToMemory (operationId : Value) (data : Value) : Caches :=
  { c with memory := c.memory.set (propertyKey ofNumber operationId) data }

/-- `cacheOperationIdDataToFile`. -/
def cacheOperationIdDataToFile (operationId : JsString) (data : Value) : Caches :=
  c.put (f.cacheOperationIdDataToFile operationId).path (some (stringify data))

/-- `PendingStorageService.cacheDataset`. -/
def cacheDataset (operationId : JsString) (datasetRoot dataset : Option Value)
    (remotePeerId : Option JsString) : Caches :=
  c.put (f.cacheDataset operationId).path (some (stringify (literal
    [("merkleRoot", datasetRoot), ("assertion", dataset),
      ("remotePeerId", remotePeerId.map Value.str)])))

/-- `getCachedOperationIdData`, `none` also when it throws. -/
def getCachedOperationIdData (operationId : JsString) : Option Value :=
  match c.memory.get operationId with
  | some data => data
  | none => (c.files (fileKey (f.getCachedOperationIdData operationId).path)).bind parse

/-- The first half of `removeOperationIdCache`. -/
def removeOperationIdDocument (operationId : JsString) : Caches :=
  c.put (f.removeOperationIdCache operationId).path none

/-- `removeOperationIdMemoryCache`. -/
def removeOperationIdMemoryCache (key : JsString) : Caches :=
  { c with memory := c.memory.delete key }

end Caches

/-! ### Requests -/

/-- Where the handling of a store request is: in the controller, in the command, or in the removal
    of the cached data after an error. -/
inductive HandlingStage where
  | received
  | inMemory
  | scheduled
  | fetched (dataset : Option Value)
  | replying
  | failed
  | removed
  | done

/-- A store request while it is handled. -/
structure StoreHandling where
  remotePeerId : JsString
  operationId : Value
  dataset : Option Value
  datasetRoot : Option Value
  isOperationV0 : Bool
  stage : HandlingStage

/-- The start of `v1_0_0HandleRequest`. `isRequestValid` has let the message through. -/
def v1_0_0HandleRequest (message : Message) (remotePeerId : JsString) :
    Except String StoreHandling := do
  let operationId ← field message.header (units "operationId")
  let messageType ← field message.header (units "messageType")
  if !isRequestType messageType then .error "Unknown message type"
  let dataset ← field message.data (units "dataset")
  let datasetRoot ← field message.data (units "datasetRoot")
  let isOperationV0 ← field message.data (units "isOperationV0")
  updateSessionStream operationId
  match operationId with
  | none => .error "Invalid request message"
  | some id => return ⟨remotePeerId, id, dataset, datasetRoot, isTruthy isOperationV0, .received⟩

/-- What comes after an error, or after a rejected dataset: another execution, the removal of the
    cached data, or nothing. -/
inductive AfterError where | again | failed | ended

def AfterError.stage : AfterError → HandlingStage
  | .again => .scheduled
  | .failed => .failed
  | .ended => .done

/-- How a step comes out. An error of a write leaves anything in its file. -/
inductive HandlingOutcome where
  | ok
  | error (left : Option JsString) (next : AfterError)

namespace StoreHandling

variable (f : FileService) (ofNumber : Number → JsString) (h : StoreHandling)

/-- The `{ dataset, datasetRoot }` of the request. -/
def cachedData : Value := literal [("dataset", h.dataset), ("datasetRoot", h.datasetRoot)]

/-- `const { dataset } = await getCachedOperationIdData(operationId)`. -/
def fetch (c : Caches) (operationId : JsString) : Except String (Option Value) :=
  match c.getCachedOperationIdData f operationId with
  | none => .error "Cannot destructure property 'dataset' of undefined"
  | some data => field data (units "dataset")

/-- One step of the handling. The path of an id that is no string is an error. -/
def goOn (outcome : HandlingOutcome) (c : Caches) : Caches × StoreHandling :=
  match h.stage, h.operationId, outcome with
  | .received, id, _ =>
    (c.cacheOperationIdDataToMemory ofNumber id h.cachedData, { h with stage := .inMemory })
  | .inMemory, .str id, .ok =>
    (c.cacheOperationIdDataToFile f id h.cachedData, { h with stage := .scheduled })
  | .inMemory, .str id, .error left _ =>
    (c.put (f.cacheOperationIdDataToFile id).path left, { h with stage := .done })
  | .scheduled, .str id, .ok =>
    match fetch f c id with
    | .ok dataset => (c, { h with stage := .fetched dataset })
    | .error _ => (c, h)
  | .fetched dataset, .str id, .ok =>
    (if h.isOperationV0 then c
      else c.cacheDataset f id h.datasetRoot dataset (some h.remotePeerId),
      { h with stage := .replying })
  | .fetched _, .str id, .error left next =>
    (if h.isOperationV0 then c else c.put (f.cacheDataset id).path left,
      { h with stage := next.stage })
  | .failed, .str id, .ok => (c.removeOperationIdDocument f id, { h with stage := .removed })
  | .removed, .str id, _ => (c.removeOperationIdMemoryCache id, { h with stage := .done })
  | .scheduled, .str _, .error _ next | .replying, .str _, .error _ next =>
    (c, { h with stage := next.stage })
  | _, _, _ => (c, { h with stage := .done })

end StoreHandling

/-! ### Runs -/

/-- Who an operation was created by: the node itself, or a request of a peer. -/
inductive Creator where
  | node
  | peer (peerId : JsString)
  deriving DecidableEq

/-- The caches, the operations created so far, and the requests that were received. -/
structure CachesState where
  caches : Caches := {}
  created : List (Creator × Value) := []
  handlings : List StoreHandling := []

/-- What the node does for its own operations, and in its cleaners. -/
inductive NodeStep where
  | generateOperationId (operationId : JsString)
  | cacheOperationIdDataToMemory (operationId : JsString) (data : Value)
  | cacheOperationIdDataToFile (operationId : JsString) (data : Value)
  | cacheDataset (operationId : JsString) (datasetRoot dataset : Option Value)
      (remotePeerId : Option JsString)
  | removeOperationIdMemoryCache (key : JsString)
  | removeFile (path : JsString)

/-- A step of the node for itself, a request that arrives, or a step of the handling of one. -/
inductive CachesEvent where
  | node (step : NodeStep)
  | receive (remotePeerId : JsString) (message : Message)
  | goOn (i : ℕ) (outcome : HandlingOutcome)

namespace CachesState

variable (f : FileService) (ofNumber : Number → JsString)

/-- A step of the node for itself. -/
def nodeStep (s : CachesState) : NodeStep → CachesState
  | .generateOperationId id => { s with created := (.node, .str id) :: s.created }
  | .cacheOperationIdDataToMemory id data =>
    { s with caches := s.caches.cacheOperationIdDataToMemory ofNumber (.str id) data }
  | .cacheOperationIdDataToFile id data =>
    { s with caches := s.caches.cacheOperationIdDataToFile f id data }
  | .cacheDataset id datasetRoot dataset remotePeerId =>
    { s with caches := s.caches.cacheDataset f id datasetRoot dataset remotePeerId }
  | .removeOperationIdMemoryCache key =>
    { s with caches := s.caches.removeOperationIdMemoryCache key }
  | .removeFile path => { s with caches := s.caches.put path none }

/-- One event. -/
def step (s : CachesState) : CachesEvent → CachesState
  | .node l => s.nodeStep f ofNumber l
  | .receive p message =>
    match v1_0_0HandleRequest message p with
    | .error _ => s
    | .ok h =>
      { s with created := (.peer p, h.operationId) :: s.created, handlings := s.handlings ++ [h] }
  | .goOn i outcome =>
    match s.handlings[i]? with
    | none => s
    | some h =>
      { s with
        caches := (h.goOn f ofNumber outcome s.caches).1
        handlings := s.handlings.set i (h.goOn f ofNumber outcome s.caches).2 }

/-- A run. -/
def run (s : CachesState) (es : List CachesEvent) : CachesState := es.foldl (step f ofNumber) s

/-- The peer whose request an event handles. -/
def requester (s : CachesState) : CachesEvent → Option JsString
  | .node _ => none
  | .receive p _ => some p
  | .goOn i _ => s.handlings[i]?.map StoreHandling.remotePeerId

end CachesState

/-- The cached data of an operation and its pending dataset. -/
structure OperationView where
  memory : Option (Option Value)
  document : Option JsString
  pending : Option JsString

/-- What is cached for an operation id. -/
def Caches.view (f : FileService) (ofNumber : Number → JsString) (c : Caches) (id : Value) :
    OperationView where
  memory := c.memory.get (propertyKey ofNumber id)
  document := match id with
    | .str s => c.files (fileKey (f.getOperationIdDocumentPath s))
    | _ => none
  pending := match id with
    | .str s => c.files (fileKey (f.getPendingStorageDocumentPath s))
    | _ => none

/-! ### Where steps write, and views look -/

/-- A place in the caches. -/
inductive Location where
  | entry (key : JsString)
  | file (key : List (List UInt8))

/-- The place the next step of a handling writes. -/
def StoreHandling.writes (f : FileService) (ofNumber : Number → JsString) (h : StoreHandling) :
    Option Location :=
  match h.stage, h.operationId with
  | .received, id => some (.entry (propertyKey ofNumber id))
  | .inMemory, .str id => some (.file (fileKey (f.getOperationIdDocumentPath id)))
  | .fetched _, .str id =>
    if h.isOperationV0 then none else some (.file (fileKey (f.getPendingStorageDocumentPath id)))
  | .failed, .str id => some (.file (fileKey (f.getOperationIdDocumentPath id)))
  | .removed, .str id => if id = protoKey then none else some (.entry id)
  | _, _ => none

/-- A place where the view of an operation id looks. An id without an entry of its own is looked up
    in the prototype. -/
def Caches.LooksUp (f : FileService) (ofNumber : Number → JsString) (c : Caches) (id : Value) :
    Location → Prop
  | .entry key => key = propertyKey ofNumber id ∨ key = protoKey ∧
      c.memory.own (propertyKey ofNumber id) = none ∧
      propertyKey ofNumber id ∈ [units "data", units "timestamp"]
  | .file key => ∃ s, id = .str s ∧
      (key = fileKey (f.getOperationIdDocumentPath s) ∨
        key = fileKey (f.getPendingStorageDocumentPath s))

namespace CachesState

variable (f : FileService) (ofNumber : Number → JsString)

/-- A step of a request that does not write where an operation of another creator is looked up. -/
def Clear (s : CachesState) : CachesEvent → Prop
  | .goOn i _ => ∀ h ∈ s.handlings[i]?, ∀ l ∈ h.writes f ofNumber, ∀ x ∈ s.created,
      x.1 ≠ .peer h.remotePeerId → ¬ s.caches.LooksUp f ofNumber x.2 l
  | _ => True

/-- A run of such steps. -/
def Quiet : CachesState → List CachesEvent → Prop
  | _, [] => True
  | s, e :: es => s.Clear f ofNumber e ∧ Quiet (s.step f ofNumber e) es

/-- A run in which only requests of peers other than the creator are handled. -/
def ByOthers (c : Creator) : CachesState → List CachesEvent → Prop
  | _, [] => True
  | s, e :: es => (∃ p, s.requester e = some p ∧ c ≠ .peer p) ∧
      ByOthers c (s.step f ofNumber e) es

/-- No request changes what is cached for an operation of another creator. -/
def Undisturbed (es : List CachesEvent) : Prop :=
  ∀ before during after, es = before ++ during ++ after →
    ∀ x ∈ (run f ofNumber {} before).created,
      ByOthers f ofNumber x.1 (run f ofNumber {} before) during →
        (run f ofNumber {} (before ++ during)).caches.view f ofNumber x.2 =
          (run f ofNumber {} before).caches.view f ofNumber x.2

end CachesState

/-! ### What a write leaves unchanged -/

namespace HandlersData

variable {m : HandlersData} {k key : JsString} {data : Value}

/-- Another entry is not changed by an assignment, unless it is looked up in a new prototype. -/
theorem get_set (hk : k ≠ key)
    (hproto : ¬ (k = protoKey ∧ m.own key = none ∧ key ∈ [units "data", units "timestamp"])) :
    (m.set k data).get key = m.get key := by
  unfold set
  split_ifs with hset
  · subst hset
    rw [get, get, if_neg hk.symm, if_neg hk.symm]
    rcases hown : m.own key with - | data'
    · have hnames : key ≠ units "data" ∧ key ≠ units "timestamp" := by
        simpa [hown] using hproto
      rcases hprototype : m.prototype with - | data'
      · simp only [if_neg hnames.1, if_neg hnames.2]
      · simp only [if_neg hnames.1, if_neg hnames.2]
    · rfl
  · simp only [get, Function.update_of_ne hk.symm]

theorem get_delete (hk : k ≠ key) : (m.delete k).get key = m.get key := by
  simp only [get, delete, Function.update_of_ne hk.symm]

/-- The prototype cannot be deleted. -/
theorem get_delete_proto (key : JsString) : (m.delete protoKey).get key = m.get key := by
  by_cases hkey : key = protoKey
  · rw [get, get, if_pos hkey, if_pos hkey]
    rfl
  · exact get_delete (Ne.symm hkey)

end HandlersData

section

variable (f : FileService) (ofNumber : Number → JsString)

/-- A write of a file is not seen by an id whose documents are others. -/
theorem view_put {c : Caches} {path : JsString} {contents : Option JsString} {id : Value}
    (h : ¬ c.LooksUp f ofNumber id (.file (fileKey path))) :
    (c.put path contents).view f ofNumber id = c.view f ofNumber id := by
  cases id with
  | str s =>
    have hdocument : fileKey (f.getOperationIdDocumentPath s) ≠ fileKey path :=
      fun heq => h ⟨s, rfl, .inl heq.symm⟩
    have hpending : fileKey (f.getPendingStorageDocumentPath s) ≠ fileKey path :=
      fun heq => h ⟨s, rfl, .inr heq.symm⟩
    simp only [Caches.view, Caches.put, Function.update_of_ne hdocument,
      Function.update_of_ne hpending]
  | null | bool | num | arr | obj => rfl

/-- An assignment in memory is not seen by an id that is not looked up there. -/
theorem view_set {c : Caches} {operationId id data : Value}
    (h : ¬ c.LooksUp f ofNumber id (.entry (propertyKey ofNumber operationId))) :
    (c.cacheOperationIdDataToMemory ofNumber operationId data).view f ofNumber id =
      c.view f ofNumber id := by
  obtain ⟨hkey, hproto⟩ := not_or.1 h
  simp only [Caches.view, Caches.cacheOperationIdDataToMemory, HandlersData.get_set hkey hproto]

/-- A deletion in memory is not seen by an id with another key. -/
theorem view_delete {c : Caches} {key : JsString} {id : Value}
    (h : key ≠ protoKey → ¬ c.LooksUp f ofNumber id (.entry key)) :
    (c.removeOperationIdMemoryCache key).view f ofNumber id = c.view f ofNumber id := by
  by_cases hproto : key = protoKey
  · subst hproto
    simp only [Caches.view, Caches.removeOperationIdMemoryCache, HandlersData.get_delete_proto]
  · have hkey : key ≠ propertyKey ofNumber id := fun heq => h hproto (.inl heq)
    simp only [Caches.view, Caches.removeOperationIdMemoryCache, HandlersData.get_delete hkey]

/-! ### Steps and runs -/

/-- STEP: the handling of a request leaves a view as it is that does not look where it writes. -/
theorem view_goOn {h : StoreHandling} {c : Caches} {id : Value} (outcome : HandlingOutcome)
    (hwrites : ∀ l ∈ h.writes f ofNumber, ¬ c.LooksUp f ofNumber id l) :
    (h.goOn f ofNumber outcome c).1.view f ofNumber id = c.view f ofNumber id := by
  obtain ⟨remotePeerId, operationId, dataset, datasetRoot, isOperationV0, stage⟩ := h
  cases stage with
  | received => exact view_set f ofNumber (hwrites _ rfl)
  | inMemory =>
    cases operationId with
    | str s =>
      cases outcome with
      | ok => exact view_put f ofNumber (hwrites _ rfl)
      | error left next => exact view_put f ofNumber (hwrites _ rfl)
    | null | bool | num | arr | obj => rfl
  | scheduled =>
    cases operationId with
    | str s =>
      cases outcome with
      | ok =>
        simp only [StoreHandling.goOn]
        split
        · rfl
        · rfl
      | error left next => rfl
    | null | bool | num | arr | obj => rfl
  | fetched fetchedDataset =>
    cases operationId with
    | str s =>
      cases isOperationV0 with
      | true => cases outcome <;> rfl
      | false =>
        cases outcome with
        | ok => exact view_put f ofNumber (hwrites _ rfl)
        | error left next => exact view_put f ofNumber (hwrites _ rfl)
    | null | bool | num | arr | obj => rfl
  | replying => cases operationId <;> cases outcome <;> rfl
  | failed =>
    cases operationId with
    | str s =>
      cases outcome with
      | ok => exact view_put f ofNumber (hwrites _ rfl)
      | error left next => rfl
    | null | bool | num | arr | obj => rfl
  | removed =>
    cases operationId with
    | str s =>
      refine view_delete f ofNumber fun hproto => hwrites _ ?_
      simp [StoreHandling.writes, hproto]
    | null | bool | num | arr | obj => rfl
  | done => cases operationId <;> rfl

namespace CachesState

variable {f ofNumber}

theorem run_cons (s : CachesState) (e : CachesEvent) (es : List CachesEvent) :
    run f ofNumber s (e :: es) = run f ofNumber (s.step f ofNumber e) es := rfl

theorem run_append (s : CachesState) (es es' : List CachesEvent) :
    run f ofNumber s (es ++ es') = run f ofNumber (run f ofNumber s es) es' := List.foldl_append

/-- An operation stays created. -/
theorem created_step {s : CachesState} {x : Creator × Value} (hx : x ∈ s.created)
    (e : CachesEvent) : x ∈ (s.step f ofNumber e).created := by
  cases e with
  | node l =>
    cases l with
    | generateOperationId id => exact List.mem_cons_of_mem _ hx
    | _ => exact hx
  | receive p message =>
    simp only [step]
    split
    · exact hx
    · exact List.mem_cons_of_mem _ hx
  | goOn i outcome =>
    simp only [step]
    split
    · exact hx
    · exact hx

/-- STEP: a clear step for another peer changes nothing that is cached for an operation. -/
theorem view_step {s : CachesState} {e : CachesEvent} {x : Creator × Value} {p : JsString}
    (hclear : s.Clear f ofNumber e) (hx : x ∈ s.created) (hp : s.requester e = some p)
    (hcreator : x.1 ≠ .peer p) :
    (s.step f ofNumber e).caches.view f ofNumber x.2 = s.caches.view f ofNumber x.2 := by
  cases e with
  | node l => cases hp
  | receive q message =>
    simp only [step]
    split
    · rfl
    · rfl
  | goOn i outcome =>
    simp only [step]
    rcases hi : s.handlings[i]? with - | h
    · rfl
    · have hpeer : h.remotePeerId = p := by simpa [requester, hi] using hp
      exact view_goOn f ofNumber outcome fun l hl =>
        hclear h (by rw [hi]; rfl) l hl x hx (by rw [hpeer]; exact hcreator)

/-- RUN: nor does a run of such steps. -/
theorem view_run {x : Creator × Value} {s : CachesState} {es : List CachesEvent}
    (hquiet : s.Quiet f ofNumber es) (hothers : s.ByOthers f ofNumber x.1 es)
    (hx : x ∈ s.created) :
    (run f ofNumber s es).caches.view f ofNumber x.2 = s.caches.view f ofNumber x.2 := by
  induction es generalizing s with
  | nil => rfl
  | cons e es ih =>
    obtain ⟨hclear, hquiet⟩ := hquiet
    obtain ⟨⟨p, hp, hcreator⟩, hothers⟩ := hothers
    rw [run_cons, ih hquiet hothers (created_step hx e), view_step hclear hx hp hcreator]

theorem quiet_append {s : CachesState} {es es' : List CachesEvent}
    (h : s.Quiet f ofNumber (es ++ es')) :
    s.Quiet f ofNumber es ∧ (run f ofNumber s es).Quiet f ofNumber es' := by
  induction es generalizing s with
  | nil => exact ⟨trivial, h⟩
  | cons e es ih => exact ⟨⟨h.1, (ih h.2).1⟩, (ih h.2).2⟩

end CachesState

/-- CORRECT (interference): in a run in which no step of a request writes to a place where an
    operation of another creator is looked up, no request changes what is cached for an operation
    of another creator. -/
theorem undisturbed_of_quiet {es : List CachesEvent}
    (h : CachesState.Quiet f ofNumber {} es) : CachesState.Undisturbed f ofNumber es := by
  rintro before during after rfl x hx hothers
  rw [CachesState.run_append]
  exact CachesState.view_run (CachesState.quiet_append (CachesState.quiet_append h).1).2 hothers hx

end

/-- A store request. -/
def storeRequest (operationId : String) : Message where
  header := .obj [(units "operationId", .str (units operationId)),
    (units "messageType", .str (units "PROTOCOL_REQUEST"))]
  data := .obj [(units "dataset", .str (units "a")), (units "datasetRoot", .str (units "b"))]

/-- A step goes on with the same request. -/
theorem goOn_same (f : FileService) (ofNumber : Number → JsString) (h : StoreHandling)
    (outcome : HandlingOutcome) (c : Caches) :
    (h.goOn f ofNumber outcome c).2.remotePeerId = h.remotePeerId ∧
      (h.goOn f ofNumber outcome c).2.operationId = h.operationId := by
  unfold StoreHandling.goOn
  split
  case h_4 => split <;> exact ⟨rfl, rfl⟩
  all_goals exact ⟨rfl, rfl⟩

def dataFolder : FileService := ⟨units "/ot-node", units "data", false, rfl⟩

/-- What the handling of a request for `v` writes is not looked up for `u`. -/
theorem not_looksUp_apart {h : StoreHandling} {c : Caches} {l : Location}
    (hid : h.operationId = .str (units "v"))
    (hl : l ∈ h.writes dataFolder fun _ => []) :
    ¬ c.LooksUp dataFolder (fun _ => []) (.str (units "u")) l := by
  have hdocument : fileKey (dataFolder.getOperationIdDocumentPath (units "v")) ∉
      [fileKey (dataFolder.getOperationIdDocumentPath (units "u")),
        fileKey (dataFolder.getPendingStorageDocumentPath (units "u"))] := by decide +kernel
  have hpending : fileKey (dataFolder.getPendingStorageDocumentPath (units "v")) ∉
      [fileKey (dataFolder.getOperationIdDocumentPath (units "u")),
        fileKey (dataFolder.getPendingStorageDocumentPath (units "u"))] := by decide +kernel
  have hentry : units "v" ≠ units "u" ∧ units "v" ≠ protoKey := by decide
  have hfile {key : List (List UInt8)}
      (hkey : key ∉ [fileKey (dataFolder.getOperationIdDocumentPath (units "u")),
        fileKey (dataFolder.getPendingStorageDocumentPath (units "u"))]) :
      ¬ c.LooksUp dataFolder (fun _ => []) (.str (units "u")) (.file key) := by
    rintro ⟨s, hs, hlook⟩
    cases hs
    exact hkey (by simpa using hlook)
  have hmemory : ¬ c.LooksUp dataFolder (fun _ => []) (.str (units "u")) (.entry (units "v")) := by
    rintro (hkey | ⟨hkey, -⟩)
    · exact hentry.1 hkey
    · exact hentry.2 hkey
  obtain ⟨remotePeerId, operationId, dataset, datasetRoot, isOperationV0, stage⟩ := h
  cases hid
  cases stage with
  | received => cases hl; exact hmemory
  | inMemory => cases hl; exact hfile hdocument
  | scheduled => cases hl
  | fetched dataset =>
    cases isOperationV0 with
    | true => cases hl
    | false => cases hl; exact hfile hpending
  | replying => cases hl
  | failed => cases hl; exact hfile hdocument
  | removed =>
    simp only [StoreHandling.writes, if_neg hentry.2] at hl
    cases hl
    exact hmemory
  | done => cases hl

/-- A request for `v` is handled to its end next to an operation `u` of the node. -/
theorem quiet_apart {s : CachesState} (n : ℕ)
    (hcreated : ∀ x ∈ s.created, x.1 ≠ .peer (units "q") → x.2 = .str (units "u"))
    (hhandlings : ∀ h ∈ s.handlings,
      h.remotePeerId = units "q" ∧ h.operationId = .str (units "v")) :
    s.Quiet dataFolder (fun _ => []) (List.replicate n (.goOn 0 .ok)) := by
  induction n generalizing s with
  | zero => trivial
  | succ n ih =>
    refine ⟨fun h hh l hl x hx hpeer => ?_, ?_⟩
    · obtain ⟨hrequester, hid⟩ := hhandlings h (List.mem_of_getElem? hh)
      rw [hcreated x hx (hrequester ▸ hpeer)]
      exact not_looksUp_apart hid hl
    · rcases hget : s.handlings[0]? with - | h
      · have hstep : s.step dataFolder (fun _ => []) (.goOn 0 .ok) = s := by
          rw [CachesState.step, hget]
        rw [hstep]
        exact ih hcreated hhandlings
      · have hstep : s.step dataFolder (fun _ => []) (.goOn 0 .ok) =
            { s with
              caches := (h.goOn dataFolder (fun _ => []) .ok s.caches).1
              handlings := s.handlings.set 0
                (h.goOn dataFolder (fun _ => []) .ok s.caches).2 } := by
          rw [CachesState.step, hget]
        rw [hstep]
        refine ih hcreated fun h' hh' => ?_
        rcases List.mem_or_eq_of_mem_set hh' with hh' | rfl
        · exact hhandlings h' hh'
        · obtain ⟨hrequester, hid⟩ := hhandlings h (List.mem_of_getElem? hget)
          obtain ⟨hsame, hsame'⟩ := goOn_same dataFolder (fun _ => []) h .ok s.caches
          exact ⟨hsame.trans hrequester, hsame'.trans hid⟩

/-- The node caches data of its own operation, and a request with another id is handled up to its
    pending dataset. -/
theorem undisturbed_of_quiet_apart :
    CachesState.Undisturbed dataFolder (fun _ => []) ([.node (.generateOperationId (units "u")),
      .node (.cacheOperationIdDataToMemory (units "u") .null),
      .node (.cacheOperationIdDataToFile (units "u") .null),
      .node (.cacheDataset (units "u") none none none),
      .receive (units "q") (storeRequest "v")] ++ List.replicate 5 (.goOn 0 .ok)) := by
  refine undisturbed_of_quiet _ _ ⟨trivial, trivial, trivial, trivial, trivial,
    quiet_apart 5 (fun x hx hpeer => ?_) fun h hh => ?_⟩
  · have hx' : x ∈ [(Creator.peer (units "q"), Value.str (units "v")),
      (.node, .str (units "u"))] := hx
    rcases List.mem_pair.mp hx' with rfl | rfl
    · exact absurd rfl hpeer
    · rfl
  · obtain rfl := List.mem_singleton.mp hh
    exact ⟨rfl, rfl⟩

/-- A peer that sends the operation id of the node replaces its cached data. -/
theorem disturbed_by_same_id :
    ¬ CachesState.Undisturbed dataFolder (fun _ => []) [.node (.generateOperationId (units "u")),
      .node (.cacheOperationIdDataToMemory (units "u") .null),
      .receive (units "q") (storeRequest "u"), .goOn 0 .ok] := by
  intro h
  have hview := h [.node (.generateOperationId (units "u")),
    .node (.cacheOperationIdDataToMemory (units "u") .null)]
    [.receive (units "q") (storeRequest "u"), .goOn 0 .ok] [] rfl (.node, .str (units "u"))
    (.head _) ⟨⟨_, rfl, nofun⟩, ⟨_, rfl, nofun⟩, trivial⟩
  have hmemory : (some (some (Value.obj _)) : Option (Option Value)) = some (some .null) :=
    congrArg OperationView.memory hview
  cases hmemory

end OtNode
