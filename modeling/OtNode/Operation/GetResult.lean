import Mathlib.Data.List.Infix
import OtNode.Operation.Service
import OtNode.TripleStore.CanonicalOrder
import OtNode.TripleStore.LocalGet

/-! What a get hands out as its result.

    The data of an operation is cached under its id, in memory and in a file, and the result
    endpoint reads it from there. A peer may answer a get with anything. The public part of a whole
    collection is checked against the chain, whatever comes without a public part is not, and the
    requests of peers under the id of the operation write to the same caches. -/

namespace OtNode

open Utf

/-! ### Answers -/

/-- A value in an answer: one that is falsy, an array of strings, or any other. -/
inductive SentValue (α : Type) where
  | falsy
  | triples (nquads : List String)
  | other (value : α)
  deriving DecidableEq

/-- What is read of the `assertion` of an answer: its parts, and whether its length is truthy. -/
structure GetAnswer (α : Type) where
  publicAssertion : SentValue α
  privateAssertion : SentValue α
  hasLength : Bool
  deriving DecidableEq

/-- What is cached under the id of an operation, by where it comes from: what the local get found,
    an answer, the two parts of an answer in one array, the data of a store request, and what the
    handlers of ask and finality requests complete an operation with. -/
inductive CachedData (α : Type) where
  | found (response : GetResponse)
  | answer (answer : GetAnswer α)
  | flattened (answer : GetAnswer α)
  | dataset (dataset datasetRoot : SentValue α)
  | success (success : Bool)
  deriving DecidableEq

/-- What a get asks for, as far as its answers are checked by it. -/
structure GetRequestData where
  knowledgeAssetId : KnowledgeAssetId
  isOperationV0 : Bool
  isV6Contract : Bool

/-- `getNextCommandData` of `GetScheduleMessagesCommand`: `isV6Contract` is not passed on. -/
def GetRequestData.getNextCommandData (data : GetRequestData) : GetRequestData :=
  { data with isV6Contract := false }

/-- What the checks use of other code: the assertion tools, of arrays of strings and of other
    values, and which of the other values have a length and can be spread. -/
structure AnswerTools (α : Type) where
  service : TripleStoreService
  calculateRoot : List String → String
  calculateRootOther : α → Except JsString String
  hasLength : α → Bool
  isIterable : α → Bool

/-- `PRIVATE_ASSERTION_PREDICATE`. -/
def privateAssertionPredicate : String :=
  "https://ontology.origintrail.io/dkg/1.0#privateMerkleRoot"

/-- `privateAssertionTriple.split(' ')[2].slice(1, -1)`. -/
def privateAssertionRoot (privateAssertionTriple : String) : Option JsString :=
  ((unitsOf privateAssertionTriple).splitOn 32)[2]?.map fun part => part.tail.dropLast

/-- `validatePrivateMerkleRoot`, with the root that is calculated of the private part. -/
def validatePrivateMerkleRoot (publicAssertion : List String)
    (calculatedDatasetRoot : Except JsString String) : Except JsString Unit :=
  match publicAssertion.find? fun triple =>
      decide (unitsOf privateAssertionPredicate <:+: unitsOf triple) with
  | none => .error (unitsOf
      "Merkle Root validation failed. Private Merkle Root not present in public assertion.")
  | some privateAssertionTriple =>
    match privateAssertionRoot privateAssertionTriple with
    | none => .error (unitsOf "Cannot read properties of undefined (reading 'slice')")
    | some datasetRoot => do
      let calculated ← calculatedDatasetRoot
      if datasetRoot ≠ unitsOf calculated then
        .error (unitsOf "Merkle Root validation failed. Received Merkle Root: " ++ datasetRoot ++
          unitsOf s!"; Calculated Merkle Root: {calculated}")
      else .ok ()

/-- What `handleAck` goes on with. -/
inductive GetVerdict (α : Type) where
  | completed (responseData : CachedData α)
  | nack
  | thrown
  deriving DecidableEq

namespace AnswerTools

variable {α : Type} (tools : AnswerTools α)

/-- The private part is checked against the public one, where it has a length. -/
def validatePrivate (publicAssertion : List String) : SentValue α → Except JsString Unit
  | .falsy => .ok ()
  | .triples nquads =>
    if nquads = [] then .ok ()
    else validatePrivateMerkleRoot publicAssertion (.ok (tools.calculateRoot nquads))
  | .other value =>
    if tools.hasLength value then
      validatePrivateMerkleRoot publicAssertion (tools.calculateRootOther value)
    else .ok ()

/-- The `try` block of `handleAck`, with the root that the blockchain has. -/
def validate (publicAssertion : List String) (privateAssertion : SentValue α)
    (blockchainAssertionRoot : String) : Except JsString Unit := do
  (TripleStoreService.validateDatasetOnBlockchain tools.calculateRoot
    (tools.service.canonicalOrder publicAssertion) blockchainAssertionRoot).mapError unitsOf
  tools.validatePrivate publicAssertion privateAssertion

/-- `...(part ?? [])` does not throw. A falsy part is taken to be nullish. -/
def spreads : SentValue α → Bool
  | .falsy | .triples _ => true
  | .other value => tools.isIterable value

/-- The `updatedResponseData` of `handleAck`. -/
def updatedResponseData (data : GetRequestData) (answer : GetAnswer α) : GetVerdict α :=
  if data.isOperationV0 then
    if tools.spreads answer.publicAssertion ∧ tools.spreads answer.privateAssertion then
      .completed (.flattened answer)
    else .thrown
  else .completed (.answer answer)

/-- `handleAck`. Only a whole collection is checked. -/
def handleAck (data : GetRequestData) (blockchainAssertionRoot : String) :
    Option (GetAnswer α) → GetVerdict α
  | none => .thrown
  | some answer =>
    match answer.publicAssertion with
    | .falsy => if answer.hasLength then .completed (.answer answer) else .nack
    | .triples publicAssertion =>
      if data.knowledgeAssetId.truthy ∨ data.isV6Contract then tools.updatedResponseData data answer
      else
        match tools.validate publicAssertion answer.privateAssertion blockchainAssertionRoot with
        | .ok () => tools.updatedResponseData data answer
        | .error _ => .nack
    -- `forEach` of the parts, `startsWith` of the triples
    | .other _ =>
      if data.knowledgeAssetId.truthy then tools.updatedResponseData data answer else .thrown

end AnswerTools

/-! ### The operation -/

/-- A call that changes what is kept for the operation. -/
inductive CacheEffect (α : Type) where
  | cacheOperationIdDataToMemory (data : CachedData α)
  | cacheOperationIdDataToFile (data : CachedData α)
  | removeFile
  | removeOperationIdMemoryCache
  | updateOperationStatus (operationName : OperationName) (status : OperationStatus)
  | updateOperationIdStatus (status : OperationIdStatus)
  deriving DecidableEq

namespace CacheEffect

variable {α : Type}

/-- `removeOperationIdCache`. -/
def removeOperationIdCache : List (CacheEffect α) := [.removeFile, .removeOperationIdMemoryCache]

/-- The calls of an effect of `markOperationAsCompleted`, with the data that is cached, or of
    `markOperationAsFailed`. -/
def calls (operationName : OperationName) (responseData : Option (CachedData α)) :
    Effect String → List (CacheEffect α)
  | .access =>
    match responseData with
    | some data => [.cacheOperationIdDataToMemory data, .cacheOperationIdDataToFile data]
    | none => removeOperationIdCache
  | .updateOperationStatus status => [.updateOperationStatus operationName status]
  | .updateOperationIdStatus status error =>
    (if error.isSome then removeOperationIdCache else []) ++ [.updateOperationIdStatus status]
  | _ => []

/-- `markOperationAsCompleted`. -/
def markCompleted (operationName : OperationName) (responseData : CachedData α)
    (endStatuses : List OperationIdStatus) : List (CacheEffect α) :=
  (markOperationAsCompleted endStatuses).flatMap (calls operationName (some responseData))

/-- `markOperationAsFailed`. -/
def markFailed (operationName : OperationName) (error : OperationError) : List (CacheEffect α) :=
  (markOperationAsFailed error).flatMap (calls operationName none)

/-- The calls of an effect of `processResponse` of the get service. Requests to the leftover nodes
    bring further answers. -/
def ofGet (responseData : Option (CachedData α)) : Effect String → List (CacheEffect α)
  | .markOperationAsFailed error => markFailed .get error
  | effect => calls .get responseData effect

/-- What is cached. -/
def data? : CacheEffect α → Option (CachedData α)
  | cacheOperationIdDataToMemory data | cacheOperationIdDataToFile data => some data
  | _ => none

end CacheEffect

/-- What is under way for the operation: the check of an answer, the processing of a response, and
    calls that are still to be made. -/
inductive GetWork (α : Type) where
  | ack (data : MessageData String) (answer : Option (GetAnswer α))
  | processResponse (data : MessageData String) (responseData : Option (CachedData α))
  | perform (calls : List (CacheEffect α))
  deriving DecidableEq

/-- What is kept for the operation, and the latest merkle root of the collection. -/
structure GetState (α : Type) where
  merkleRoot : String
  responses : List ResponseStatus
  operationStatus : OperationStatus
  operationIdStatus : OperationIdStatus
  memory : Option (CachedData α)
  file : Option (CachedData α)
  works : List (GetWork α)
  deriving DecidableEq

/-- An ack or another response of a peer comes in, the local get ends, the collection is updated on
    the chain, a peer sends a store, ask or finality request under the id of the operation,
    something that is under way goes on or throws, a cache is cleaned, or the node is started again.
    -/
inductive GetEvent (α : Type) where
  | ack (data : MessageData String) (answer : Option (GetAnswer α))
  | otherResponse (data : MessageData String)
  | localGet (response : GetResponse)
  | localGetFailed (error : OperationError)
  | setMerkleRoot (merkleRoot : String)
  | storeRequest (dataset datasetRoot : SentValue α)
  | askRequest
  | finalityRequest (success : Bool)
  | goOn (i : ℕ)
  | throws (i : ℕ)
  | removeExpiredMemoryCache
  | removeExpiredFileCache
  | restart
  deriving DecidableEq

namespace GetState

variable {α : Type} (tools : AnswerTools α) (data : GetRequestData) (s : GetState α)

/-- The get has begun. -/
def initial (merkleRoot : String) : GetState α :=
  ⟨merkleRoot, [], .inProgress, .getInitStart, none, none, []⟩

/-- `getCachedOperationIdData`. -/
def getCachedOperationIdData : Option (CachedData α) := s.memory <|> s.file

/-- A call is made. -/
def perform : CacheEffect α → GetState α
  | .cacheOperationIdDataToMemory data => { s with memory := some data }
  | .cacheOperationIdDataToFile data => { s with file := some data }
  | .removeFile => { s with file := none }
  | .removeOperationIdMemoryCache => { s with memory := none }
  | .updateOperationStatus operationName status =>
    if operationName = .get then { s with operationStatus := status } else s
  | .updateOperationIdStatus status => { s with operationIdStatus := status }

/-- The status that a response is recorded with. -/
def responseStatus (responseData : Option (CachedData α)) : ResponseStatus :=
  if responseData.isSome then .completed else .failed

/-- What is under way goes on. -/
def next : GetWork α → GetState α × GetWork α
  | .ack message answer =>
    match tools.handleAck data.getNextCommandData s.merkleRoot answer with
    | .completed responseData => (s, .processResponse message (some responseData))
    | .nack | .thrown => (s, .processResponse message none)
  | .processResponse message responseData =>
    let status := responseStatus responseData
    let responses := s.responses ++ [status]
    ({ s with responses := responses },
      .perform ((GetService.processResponse message status (responses.count .completed)
        (responses.count .failed)).flatMap (CacheEffect.ofGet responseData)))
  | .perform [] => (s, .perform [])
  | .perform (call :: calls) => (s.perform call, .perform calls)

/-- Something more is under way. -/
def start (work : GetWork α) : GetState α := { s with works := s.works ++ [work] }

/-- One event. -/
def step : GetEvent α → GetState α
  | .ack message answer => s.start (.ack message answer)
  | .otherResponse message => s.start (.processResponse message none)
  | .localGet response =>
    s.start (.perform (CacheEffect.markCompleted .get (.found response)
      [.getLocalEnd, .getEnd, .completed]))
  | .localGetFailed error => s.start (.perform (CacheEffect.markFailed .get error))
  | .setMerkleRoot merkleRoot => { s with merkleRoot := merkleRoot }
  | .storeRequest dataset datasetRoot =>
    s.start (.perform [.cacheOperationIdDataToMemory (.dataset dataset datasetRoot),
      .cacheOperationIdDataToFile (.dataset dataset datasetRoot)])
  | .askRequest =>
    s.start (.perform (CacheEffect.markCompleted .ask (.success true)
      [.askFetchFromNodesEnd, .askEnd, .completed]))
  | .finalityRequest success =>
    s.start (.perform (CacheEffect.markCompleted .finality (.success success)
      [.publishFinalityFetchFromNodesEnd, .publishFinalityEnd, .completed]))
  | .goOn i =>
    match s.works[i]? with
    | none => s
    | some work =>
      { (s.next tools data work).1 with works := s.works.set i (s.next tools data work).2 }
  | .throws i => { s with works := s.works.set i (.perform []) }
  | .removeExpiredMemoryCache => { s with memory := none }
  | .removeExpiredFileCache => { s with file := none }
  | .restart => { s with memory := none, works := [] }

/-- A run. -/
def run (events : List (GetEvent α)) : GetState α := events.foldl (step tools data) s

end GetState

/-! ### What is handed out -/

/-- A public triple names the root of the private part. -/
def NamesRoot (publicAssertion : List String) (root : String) : Prop :=
  ∃ triple ∈ publicAssertion, unitsOf privateAssertionPredicate <:+: unitsOf triple ∧
    privateAssertionRoot triple = some (unitsOf root)

namespace AnswerTools

variable {α : Type} (tools : AnswerTools α)

/-- The private part has no length, or the root that the public part names. -/
def VouchesFor (publicAssertion : List String) : SentValue α → Prop
  | .falsy => True
  | .triples nquads => nquads = [] ∨ NamesRoot publicAssertion (tools.calculateRoot nquads)
  | .other value => tools.hasLength value = false ∨
      ∃ root, tools.calculateRootOther value = .ok root ∧ NamesRoot publicAssertion root

/-- The answer may end a get: it has no public part but a length, or is of a single asset, or its
    public part in order has a root that the chain has had, and vouches for the private part. -/
def Accepts (data : GetRequestData) (hadRoot : String → Prop) (answer : GetAnswer α) : Prop :=
  match answer.publicAssertion with
  | .falsy => answer.hasLength = true
  | .triples publicAssertion => data.knowledgeAssetId.truthy = true ∨
      hadRoot (tools.calculateRoot (tools.service.canonicalOrder publicAssertion)) ∧
        tools.VouchesFor publicAssertion answer.privateAssertion
  | .other _ => data.knowledgeAssetId.truthy = true

/-- The collection has the root at the start, or comes to have it. -/
def HadRoot (merkleRoot : String) (events : List (GetEvent α)) (root : String) : Prop :=
  root = merkleRoot ∨ .setMerkleRoot root ∈ events

/-- Where the data that is cached can come from. -/
def Justified (data : GetRequestData) (merkleRoot : String) (events : List (GetEvent α)) :
    CachedData α → Prop
  | .found response => .localGet response ∈ events
  | .answer answer => (∃ message, .ack message (some answer) ∈ events) ∧
      tools.Accepts data (HadRoot merkleRoot events) answer ∧
        (data.isOperationV0 = true → answer.publicAssertion = .falsy)
  | .flattened answer => (∃ message, .ack message (some answer) ∈ events) ∧
      tools.Accepts data (HadRoot merkleRoot events) answer ∧ data.isOperationV0 = true
  | .dataset dataset datasetRoot => .storeRequest dataset datasetRoot ∈ events
  | .success success => success = true ∧ .askRequest ∈ events ∨ .finalityRequest success ∈ events

end AnswerTools

section Checks

variable {α : Type} {tools : AnswerTools α} {data : GetRequestData}

/-- The check of the private part passes only if the public part names its root. -/
theorem namesRoot_of_validate {publicAssertion : List String} {calculated : Except JsString String}
    (h : validatePrivateMerkleRoot publicAssertion calculated = .ok ()) :
    ∃ root, calculated = .ok root ∧ NamesRoot publicAssertion root := by
  rw [validatePrivateMerkleRoot] at h
  split at h
  · cases h
  · next triple hfind =>
    split at h
    · cases h
    · next datasetRoot hroot =>
      cases calculated with
      | error e => cases h
      | ok root =>
        simp only [bind, Except.bind] at h
        split at h
        · cases h
        · next hsame =>
          have hpredicate := List.find?_some hfind
          rw [decide_eq_true_eq] at hpredicate
          rw [not_not] at hsame
          exact ⟨root, rfl, triple, List.mem_of_find?_eq_some hfind, hpredicate, hsame ▸ hroot⟩

theorem vouchesFor_of_validatePrivate {publicAssertion : List String}
    {privateAssertion : SentValue α}
    (h : tools.validatePrivate publicAssertion privateAssertion = .ok ()) :
    tools.VouchesFor publicAssertion privateAssertion := by
  cases privateAssertion with
  | falsy => trivial
  | triples nquads =>
    rw [AnswerTools.validatePrivate] at h
    split at h
    · next hempty => exact .inl hempty
    · obtain ⟨root, hroot, hnames⟩ := namesRoot_of_validate h
      cases hroot
      exact .inr hnames
  | other value =>
    rw [AnswerTools.validatePrivate] at h
    split at h
    · exact .inr (namesRoot_of_validate h)
    · next hlength => exact .inl (by simpa using hlength)

/-- The checks of a whole collection pass only against the root of its public part in order. -/
theorem root_of_validate {publicAssertion : List String} {privateAssertion : SentValue α}
    {root : String} (h : tools.validate publicAssertion privateAssertion root = .ok ()) :
    tools.calculateRoot (tools.service.canonicalOrder publicAssertion) = root ∧
      tools.VouchesFor publicAssertion privateAssertion := by
  obtain ⟨checked, hpublic, hprivate⟩ := bind_eq_ok h
  refine ⟨?_, vouchesFor_of_validatePrivate hprivate⟩
  rw [← TripleStoreService.validateDatasetOnBlockchain_eq_ok]
  cases hvalid : TripleStoreService.validateDatasetOnBlockchain tools.calculateRoot
      (tools.service.canonicalOrder publicAssertion) root with
  | ok u => rfl
  | error e =>
    rw [hvalid] at hpublic
    cases hpublic

theorem updatedResponseData_eq_completed {answer : GetAnswer α} {cached : CachedData α}
    (h : tools.updatedResponseData data answer = .completed cached) :
    cached = .flattened answer ∧ data.isOperationV0 = true ∨
      cached = .answer answer ∧ data.isOperationV0 = false := by
  rw [AnswerTools.updatedResponseData] at h
  split at h
  · next hversion =>
    split at h
    · cases h
      exact .inl ⟨rfl, hversion⟩
    · cases h
  · next hversion =>
    cases h
    exact .inr ⟨rfl, by simpa using hversion⟩

/-- A get goes on only with an answer that it may be ended by. -/
theorem justified_of_handleAck {merkleRoot root : String} {events : List (GetEvent α)}
    {message : MessageData String} {answer : Option (GetAnswer α)} {cached : CachedData α}
    (hack : .ack message answer ∈ events) (hroot : AnswerTools.HadRoot merkleRoot events root)
    (h : tools.handleAck data.getNextCommandData root answer = .completed cached) :
    tools.Justified data merkleRoot events cached := by
  cases answer with
  | none => cases h
  | some answer =>
    have hsent : ∃ message, GetEvent.ack message (some answer) ∈ events := ⟨message, hack⟩
    have hupdated : tools.updatedResponseData data.getNextCommandData answer = .completed cached →
        tools.Accepts data (AnswerTools.HadRoot merkleRoot events) answer →
          tools.Justified data merkleRoot events cached := by
      intro hcompleted haccepts
      rcases updatedResponseData_eq_completed hcompleted with ⟨rfl, hversion⟩ | ⟨rfl, hversion⟩
      · exact ⟨hsent, haccepts, hversion⟩
      · refine ⟨hsent, haccepts, fun hversion' => ?_⟩
        rw [GetRequestData.getNextCommandData, hversion'] at hversion
        cases hversion
    simp only [AnswerTools.handleAck] at h
    split at h
    · next hpublic =>
      split at h
      · next hlength =>
        cases h
        exact ⟨hsent, by simpa only [AnswerTools.Accepts, hpublic] using hlength, fun _ => hpublic⟩
      · cases h
    · next publicAssertion hpublic =>
      split at h
      · next hsingle =>
        refine hupdated h ?_
        rw [AnswerTools.Accepts, hpublic]
        exact .inl (by simpa [GetRequestData.getNextCommandData] using hsingle)
      · split at h
        · next hvalid =>
          obtain ⟨hcalculated, hvouches⟩ := root_of_validate hvalid
          refine hupdated h ?_
          rw [AnswerTools.Accepts, hpublic]
          exact .inr ⟨hcalculated ▸ hroot, hvouches⟩
        · cases h
    · next value hpublic =>
      split at h
      · next hsingle =>
        refine hupdated h ?_
        rw [AnswerTools.Accepts, hpublic]
        exact hsingle
      · cases h

end Checks

namespace GetState

/-! ### Runs -/

variable {α : Type} {tools : AnswerTools α} {data : GetRequestData} {merkleRoot : String}
  {all : List (GetEvent α)} {s : GetState α}

/-- The data of the calls is justified. -/
def CallsJustified (tools : AnswerTools α) (data : GetRequestData) (merkleRoot : String)
    (all : List (GetEvent α)) (calls : List (CacheEffect α)) : Prop :=
  ∀ call ∈ calls, ∀ cached, call.data? = some cached → tools.Justified data merkleRoot all cached

/-- What is under way will cache only what is justified. -/
def WorkJustified (tools : AnswerTools α) (data : GetRequestData) (merkleRoot : String)
    (all : List (GetEvent α)) : GetWork α → Prop
  | .ack message answer => .ack message answer ∈ all
  | .processResponse _ responseData =>
    ∀ cached, responseData = some cached → tools.Justified data merkleRoot all cached
  | .perform calls => CallsJustified tools data merkleRoot all calls

/-- The chain has a root of the run, and what is cached, or will be, is justified. -/
structure Sound (tools : AnswerTools α) (data : GetRequestData) (merkleRoot : String)
    (all : List (GetEvent α)) (s : GetState α) : Prop where
  root : AnswerTools.HadRoot merkleRoot all s.merkleRoot
  memory : ∀ cached, s.memory = some cached → tools.Justified data merkleRoot all cached
  file : ∀ cached, s.file = some cached → tools.Justified data merkleRoot all cached
  works : ∀ work ∈ s.works, WorkJustified tools data merkleRoot all work

theorem callsJustified_flatMap {ι : Type} {f : ι → List (CacheEffect α)} {xs : List ι}
    (h : ∀ x, CallsJustified tools data merkleRoot all (f x)) :
    CallsJustified tools data merkleRoot all (xs.flatMap f) := by
  intro call hcall
  obtain ⟨x, -, hx⟩ := List.mem_flatMap.mp hcall
  exact h x call hx

/-- The calls of an effect cache nothing but the data they are for. -/
theorem callsJustified_calls (operationName : OperationName) {responseData : Option (CachedData α)}
    (h : ∀ cached, responseData = some cached → tools.Justified data merkleRoot all cached)
    (effect : Effect String) :
    CallsJustified tools data merkleRoot all
      (CacheEffect.calls operationName responseData effect) := by
  intro call hcall cached hcached
  cases effect with
  | access =>
    cases responseData with
    | none =>
      simp only [CacheEffect.calls, CacheEffect.removeOperationIdCache, List.mem_cons,
        List.not_mem_nil, or_false] at hcall
      rcases hcall with rfl | rfl <;> cases hcached
    | some responseData =>
      simp only [CacheEffect.calls, List.mem_cons, List.not_mem_nil, or_false] at hcall
      rcases hcall with rfl | rfl <;> exact h cached hcached
  | updateOperationStatus status =>
    obtain rfl := List.mem_singleton.mp hcall
    cases hcached
  | updateOperationIdStatus status error =>
    rcases List.mem_append.mp hcall with hremoved | hupdated
    · split at hremoved
      · simp only [CacheEffect.removeOperationIdCache, List.mem_cons, List.not_mem_nil,
          or_false] at hremoved
        rcases hremoved with rfl | rfl <;> cases hcached
      · cases hremoved
    · obtain rfl := List.mem_singleton.mp hupdated
      cases hcached
  | _ => cases hcall

theorem callsJustified_markCompleted (operationName : OperationName) {c : CachedData α}
    (h : tools.Justified data merkleRoot all c) (endStatuses : List OperationIdStatus) :
    CallsJustified tools data merkleRoot all
      (CacheEffect.markCompleted operationName c endStatuses) := by
  refine callsJustified_flatMap (callsJustified_calls operationName ?_)
  rintro cached ⟨⟩
  exact h

theorem callsJustified_markFailed (operationName : OperationName) (error : OperationError) :
    CallsJustified tools data merkleRoot all (CacheEffect.markFailed operationName error) :=
  callsJustified_flatMap (callsJustified_calls operationName nofun)

theorem callsJustified_ofGet {responseData : Option (CachedData α)}
    (h : ∀ cached, responseData = some cached → tools.Justified data merkleRoot all cached)
    (effect : Effect String) :
    CallsJustified tools data merkleRoot all (CacheEffect.ofGet responseData effect) := by
  unfold CacheEffect.ofGet
  split
  · exact callsJustified_markFailed .get _
  · exact callsJustified_calls .get h _

/-- STEP (call): a call keeps the root and what is under way. -/
theorem root_perform (call : CacheEffect α) : (s.perform call).merkleRoot = s.merkleRoot := by
  cases call with
  | updateOperationStatus operationName status =>
    rw [perform]
    split <;> rfl
  | _ => rfl

theorem works_perform (call : CacheEffect α) : (s.perform call).works = s.works := by
  cases call with
  | updateOperationStatus operationName status =>
    rw [perform]
    split <;> rfl
  | _ => rfl

/-- STEP (call): what is cached after a call was cached before, or is the data of the call. -/
theorem memory_perform {call : CacheEffect α} {cached : CachedData α}
    (h : (s.perform call).memory = some cached) :
    s.memory = some cached ∨ call.data? = some cached := by
  cases call with
  | cacheOperationIdDataToMemory data => exact .inr h
  | removeOperationIdMemoryCache => cases h
  | updateOperationStatus operationName status =>
    rw [perform] at h
    split at h <;> exact .inl h
  | _ => exact .inl h

theorem file_perform {call : CacheEffect α} {cached : CachedData α}
    (h : (s.perform call).file = some cached) :
    s.file = some cached ∨ call.data? = some cached := by
  cases call with
  | cacheOperationIdDataToFile data => exact .inr h
  | removeFile => cases h
  | updateOperationStatus operationName status =>
    rw [perform] at h
    split at h <;> exact .inl h
  | _ => exact .inl h

theorem Sound.perform (h : s.Sound tools data merkleRoot all) {call : CacheEffect α}
    (hcall : ∀ cached, call.data? = some cached → tools.Justified data merkleRoot all cached) :
    (s.perform call).Sound tools data merkleRoot all where
  root := by
    rw [root_perform]
    exact h.root
  memory cached hcached := (memory_perform hcached).elim (h.memory cached) (hcall cached)
  file cached hcached := (file_perform hcached).elim (h.file cached) (hcall cached)
  works := by
    rw [works_perform]
    exact h.works

/-- STEP (work): what is under way goes on with what is justified. -/
theorem Sound.next (h : s.Sound tools data merkleRoot all) {work : GetWork α}
    (hwork : WorkJustified tools data merkleRoot all work) :
    (s.next tools data work).1.Sound tools data merkleRoot all ∧
      WorkJustified tools data merkleRoot all (s.next tools data work).2 := by
  cases work with
  | ack message answer =>
    rw [GetState.next]
    split
    · next responseData hverdict =>
      refine ⟨h, ?_⟩
      rintro cached ⟨⟩
      exact justified_of_handleAck hwork h.root hverdict
    · exact ⟨h, nofun⟩
    · exact ⟨h, nofun⟩
  | processResponse message responseData =>
    exact ⟨⟨h.root, h.memory, h.file, h.works⟩,
      callsJustified_flatMap (callsJustified_ofGet hwork)⟩
  | perform calls =>
    cases calls with
    | nil => exact ⟨h, hwork⟩
    | cons call calls =>
      obtain ⟨hcall, hcalls⟩ := List.forall_mem_cons.mp hwork
      exact ⟨h.perform hcall, hcalls⟩

theorem Sound.start (h : s.Sound tools data merkleRoot all) {work : GetWork α}
    (hwork : WorkJustified tools data merkleRoot all work) :
    (s.start work).Sound tools data merkleRoot all where
  root := h.root
  memory := h.memory
  file := h.file
  works work' hwork' := by
    rcases List.mem_append.mp hwork' with hearlier | hnew
    · exact h.works work' hearlier
    · obtain rfl := List.mem_singleton.mp hnew
      exact hwork

/-- STEP: an event of the run keeps what is justified so. -/
theorem Sound.step (h : s.Sound tools data merkleRoot all) {event : GetEvent α}
    (hevent : event ∈ all) : (s.step tools data event).Sound tools data merkleRoot all := by
  cases event with
  | ack message answer => exact h.start hevent
  | otherResponse message =>
    have hnothing : WorkJustified tools data merkleRoot all (.processResponse message none) := nofun
    exact h.start hnothing
  | localGet response =>
    exact h.start (callsJustified_markCompleted .get (c := .found response) hevent _)
  | localGetFailed error => exact h.start (callsJustified_markFailed .get error)
  | setMerkleRoot merkleRoot => exact ⟨.inr hevent, h.memory, h.file, h.works⟩
  | storeRequest dataset datasetRoot =>
    refine h.start ?_
    intro call hcall cached hcached
    simp only [List.mem_cons, List.not_mem_nil, or_false] at hcall
    rcases hcall with rfl | rfl <;>
      · cases hcached
        exact hevent
  | askRequest =>
    exact h.start (callsJustified_markCompleted .ask (c := .success true) (.inl ⟨rfl, hevent⟩) _)
  | finalityRequest success =>
    exact h.start
      (callsJustified_markCompleted .finality (c := .success success) (.inr hevent) _)
  | goOn i =>
    rw [GetState.step]
    split
    · exact h
    · next work hwork =>
      obtain ⟨hnext, hworkNext⟩ := h.next (h.works work (List.mem_of_getElem? hwork))
      refine ⟨hnext.root, hnext.memory, hnext.file, fun work' hwork' => ?_⟩
      rcases List.mem_or_eq_of_mem_set hwork' with hearlier | rfl
      · exact h.works work' hearlier
      · exact hworkNext
  | throws i =>
    refine ⟨h.root, h.memory, h.file, fun work hwork => ?_⟩
    rcases List.mem_or_eq_of_mem_set hwork with hearlier | rfl
    · exact h.works work hearlier
    · exact fun call hcall => nomatch hcall
  | removeExpiredMemoryCache => exact ⟨h.root, nofun, h.file, h.works⟩
  | removeExpiredFileCache => exact ⟨h.root, h.memory, nofun, h.works⟩
  | restart => exact ⟨h.root, nofun, h.file, nofun⟩

/-- RUN: over a run, what is cached is justified. -/
theorem Sound.run (h : s.Sound tools data merkleRoot all) {events : List (GetEvent α)}
    (hevents : ∀ event ∈ events, event ∈ all) :
    (s.run tools data events).Sound tools data merkleRoot all := by
  induction events generalizing s with
  | nil => exact h
  | cons event events ih =>
    obtain ⟨hfirst, hrest⟩ := List.forall_mem_cons.mp hevents
    exact ih (h.step hfirst) hrest

end GetState

/-- CORRECT: in every run, whatever peers answer and in whatever order, what a get hands out is what
    the local get has found, an answer that passed the checks against a root that the chain has had,
    an answer of a kind that is not checked, or what a request of a peer under the id of the
    operation put in its place. -/
theorem getResult_justified {α : Type} (tools : AnswerTools α) (data : GetRequestData)
    (merkleRoot : String) (events : List (GetEvent α)) {cached : CachedData α}
    (h : ((GetState.initial merkleRoot).run tools data events).getCachedOperationIdData =
      some cached) : tools.Justified data merkleRoot events cached := by
  have hinitial : (GetState.initial merkleRoot).Sound tools data merkleRoot events :=
    ⟨.inl rfl, nofun, nofun, nofun⟩
  have hsound := hinitial.run fun event hevent => hevent
  rw [GetState.getCachedOperationIdData] at h
  rcases Option.or_eq_some_iff.mp (by simpa using h) with hmemory | ⟨-, hfile⟩
  · exact hsound.memory cached hmemory
  · exact hsound.file cached hfile

/-- Tools whose roots are the triples themselves. -/
def joiningTools : AnswerTools Unit where
  service := TripleStoreService.subjectService
  calculateRoot nquads := nquads.foldr (· ++ ·) ""
  calculateRootOther _ := .error []
  hasLength _ := false
  isIterable _ := false

/-- The data of a request for a collection that four nodes may have. -/
def getMessage : MessageData String := ⟨"op", "", none, 2, 1, ["C", "D"], 4⟩

/-- Two peers answer, the second one with what the chain has, and a third one sends a store request
    under the id of the operation. -/
def getRun : List (GetEvent Unit) :=
  [.ack getMessage (some ⟨.triples ["<a> <p> <x> ."], .falsy, false⟩),
    .ack getMessage (some ⟨.triples ["<b> <p> <o> .", "<a> <p> <o> ."], .falsy, false⟩),
    .setMerkleRoot "<a> <p> <o> .<b> <p> <o> .", .goOn 0, .goOn 1, .goOn 0, .goOn 1,
    .storeRequest (.triples ["<e> <p> <o> ."]) (.other ()), .goOn 1, .goOn 2, .goOn 1]

theorem getResult_justified_getRun :
    joiningTools.Justified ⟨.undefined, false, false⟩ "" getRun
      (.dataset (.triples ["<e> <p> <o> ."]) (.other ())) := by
  refine getResult_justified joiningTools ⟨.undefined, false, false⟩ "" getRun ?_
  decide +kernel

end OtNode
