import OtNode.Lib.Network
import OtNode.TripleStore.CanonicalOrder

/-! The store protocol between the nodes: what a signature that a publisher collects is worth.

    A publisher sends the dataset with its root; a node fetches what is cached for the operation,
    compares its root with the one of the request, caches it in the pending storage and signs the root.
    What is cached for an operation can be anything by then, any step may fail and the command start
    again, requests may be lost, doubled and overtaken, and some nodes may send what they like. -/

namespace OtNode

open Network TripleStoreService

variable {ρ : Type}

/-- A publish of this node, as its request commands carry it. -/
structure Publication (ρ : Type) where
  operationId : String
  dataset : List String
  datasetRoot : ρ
  isOperationV0 : Bool
  deriving DecidableEq

/-- The messages: a request, and the answer with a signature, known by the hash that was signed. A
    negative answer leaves nothing. -/
inductive StoreMessage (ρ : Type) where
  | request (publication : Publication ρ)
  | ack (operationId : String) (signed : ρ)
  deriving DecidableEq

/-- Where the command that handles a request is. -/
inductive StoreStage where
  | scheduled
  | fetched (dataset : List String)
  | validated (dataset : List String)
  | cached
  | done
  deriving DecidableEq

/-- A `HandleStoreRequestCommand`. -/
structure StoreTask (ρ : Type) where
  remotePeerId : String
  operationId : String
  datasetRoot : ρ
  isOperationV0 : Bool
  stage : StoreStage
  deriving DecidableEq

/-- A line of the network signatures of an operation, with the node it came from. -/
structure StoreSignature (ρ : Type) where
  peerId : String
  operationId : String
  signed : ρ
  deriving DecidableEq

/-- A dataset put into the pending storage. -/
structure PendingDataset (ρ : Type) where
  operationId : String
  datasetRoot : ρ
  dataset : List String
  deriving DecidableEq

/-- A node: its own publishes, the commands that handle requests of others, what they have put into the
    pending storage so far, and the signatures collected. -/
structure StoreNode (ρ : Type) where
  publications : List (Publication ρ)
  tasks : List (StoreTask ρ)
  pending : List (PendingDataset ρ)
  signatures : List (StoreSignature ρ)

/-- A step of a node: a publish starts, and its request is sent to a node; a command goes on, or starts
    again after an error. -/
inductive StoreAction (ρ : Type) where
  | publish (publication : Publication ρ)
  | send (i : ℕ) (peerId : String)
  | fetch (j : ℕ) (dataset : List String)
  | validate (j : ℕ) (isShardValid : Bool)
  | cacheDataset (j : ℕ)
  | sign (j : ℕ)
  | retry (j : ℕ)
  deriving DecidableEq

namespace StoreTask

variable (task : StoreTask ρ)

/-- `validateReceivedData`. -/
def validateReceivedData [DecidableEq ρ] [ToString ρ] (calculateRoot : List String → ρ)
    (isShardValid : Bool) (dataset : List String) : Except String Unit :=
  if !isShardValid then .error "Invalid neighbourhood"
  else if !task.isOperationV0 then validateDatasetRoot calculateRoot dataset task.datasetRoot
  else .ok ()

/-- `getCachedOperationIdData`: whatever is cached. -/
def fetch (dataset : List String) : StoreTask ρ :=
  match task.stage with
  | .scheduled => { task with stage := .fetched dataset }
  | _ => task

/-- The validation: a negative answer ends the command. -/
def validate [DecidableEq ρ] [ToString ρ] (calculateRoot : List String → ρ) (isShardValid : Bool) :
    StoreTask ρ :=
  match task.stage with
  | .fetched dataset => { task with
      stage := match task.validateReceivedData calculateRoot isShardValid dataset with
        | .ok () => .validated dataset
        | .error _ => .done }
  | _ => task

/-- The dataset is cached. That of an operation of version 0 goes to the triple store instead. -/
def cacheDataset : StoreTask ρ × List (PendingDataset ρ) :=
  match task.stage with
  | .validated dataset =>
    ({ task with stage := .cached },
      if task.isOperationV0 then [] else [⟨task.operationId, task.datasetRoot, dataset⟩])
  | _ => (task, [])

/-- The root of the request is signed, and the signature sent. -/
def sign : StoreTask ρ × List (String × StoreMessage ρ) :=
  match task.stage with
  | .cached =>
    ({ task with stage := .done }, [(task.remotePeerId, .ack task.operationId task.datasetRoot)])
  | _ => (task, [])

/-- After an error the command is executed again. -/
def retry : StoreTask ρ := { task with stage := .scheduled }

end StoreTask

namespace StoreNode

variable (s : StoreNode ρ)

/-- Nothing has happened yet. -/
def initial : StoreNode ρ := ⟨[], [], [], []⟩

/-- A command goes on. -/
def modifyTask (j : ℕ) (f : StoreTask ρ → StoreTask ρ) : StoreNode ρ :=
  { s with tasks := s.tasks.modify j f }

/-- A step, and the messages that are sent in it. -/
def act [DecidableEq ρ] [ToString ρ] (calculateRoot : List String → ρ) :
    StoreAction ρ → StoreNode ρ × List (String × StoreMessage ρ)
  | .publish publication => ({ s with publications := s.publications ++ [publication] }, [])
  | .send i peerId =>
    (s, (s.publications[i]?).elim [] fun publication => [(peerId, .request publication)])
  | .fetch j dataset => (s.modifyTask j (·.fetch dataset), [])
  | .validate j isShardValid => (s.modifyTask j (·.validate calculateRoot isShardValid), [])
  | .cacheDataset j =>
    ({ s.modifyTask j (·.cacheDataset.1) with
        pending := s.pending ++ (s.tasks[j]?).elim [] (·.cacheDataset.2) }, [])
  | .sign j => (s.modifyTask j (·.sign.1), (s.tasks[j]?).elim [] (·.sign.2))
  | .retry j => (s.modifyTask j (·.retry), [])

/-- A message arrives: a request is scheduled, and a signature added to the storage. -/
def receive (remotePeerId : String) : StoreMessage ρ → StoreNode ρ
  | .request publication => { s with
      tasks := s.tasks ++ [⟨remotePeerId, publication.operationId, publication.datasetRoot,
        publication.isOperationV0, .scheduled⟩] }
  | .ack operationId signed =>
    { s with signatures := s.signatures ++ [⟨remotePeerId, operationId, signed⟩] }

end StoreNode

/-- The nodes that run the protocol. -/
def storeProtocol [DecidableEq ρ] [ToString ρ] (calculateRoot : List String → ρ) :
    Protocol String (StoreNode ρ) (StoreAction ρ) (StoreMessage ρ) where
  act _ s a := s.act calculateRoot a
  receive _ s remotePeerId message := s.receive remotePeerId message

/-! ### What the messages claim -/

/-- A node has asked to store a root; it has signed a root that another node asked for. -/
inductive StoreClaim (ρ : Type) where
  | asked (operationId : String) (datasetRoot : ρ) (isOperationV0 : Bool)
  | signed (requester operationId : String) (datasetRoot : ρ)

/-- The request that a command handles. -/
def StoreTask.Handles (task : StoreTask ρ) (peerId operationId : String) (datasetRoot : ρ)
    (isOperationV0 : Bool) : Prop :=
  task.remotePeerId = peerId ∧ task.operationId = operationId ∧ task.datasetRoot = datasetRoot ∧
    task.isOperationV0 = isOperationV0

namespace StoreNode

variable (calculateRoot : List String → ρ)

/-- A dataset with the root has been put into the pending storage for the operation. -/
def Vouches (s : StoreNode ρ) (operationId : String) (datasetRoot : ρ) : Prop :=
  ∃ dataset, ⟨operationId, datasetRoot, dataset⟩ ∈ s.pending ∧ calculateRoot dataset = datasetRoot

/-- A command that has come past a check has passed it, unless the operation is of version 0. -/
def Checked (s : StoreNode ρ) (task : StoreTask ρ) : Prop :=
  match task.stage with
  | .validated dataset => task.isOperationV0 ∨ calculateRoot dataset = task.datasetRoot
  | .cached => task.isOperationV0 ∨ s.Vouches calculateRoot task.operationId task.datasetRoot
  | _ => True

/-- What is claimed of a node. -/
def Holds (s : StoreNode ρ) : StoreClaim ρ → Prop
  | .asked operationId datasetRoot isOperationV0 => ∃ publication ∈ s.publications,
      publication.operationId = operationId ∧ publication.datasetRoot = datasetRoot ∧
        publication.isOperationV0 = isOperationV0
  | .signed requester operationId datasetRoot => ∃ isOperationV0,
      (∃ task ∈ s.tasks, task.Handles requester operationId datasetRoot isOperationV0) ∧
        (isOperationV0 = true ∨ s.Vouches calculateRoot operationId datasetRoot)

/-- What a node has heard: requests that it handles, and signatures that it has collected. -/
def Heard (myPeerId : String) (s : StoreNode ρ) (peerId : String) : StoreClaim ρ → Prop
  | .asked operationId datasetRoot isOperationV0 =>
    ∃ task ∈ s.tasks, task.Handles peerId operationId datasetRoot isOperationV0
  | .signed requester operationId datasetRoot =>
    requester = myPeerId ∧ ⟨peerId, operationId, datasetRoot⟩ ∈ s.signatures

/-- A request claims that it was asked for, and an answer that it was signed for its receiver. -/
def storeTestimony [DecidableEq ρ] [ToString ρ] : Testimony (storeProtocol calculateRoot) (StoreClaim ρ) where
  claim
    | _, .request publication =>
      .asked publication.operationId publication.datasetRoot publication.isOperationV0
    | receiver, .ack operationId signed => .signed receiver operationId signed
  Holds := Holds calculateRoot
  Heard := Heard
  Inv _ s := ∀ task ∈ s.tasks, s.Checked calculateRoot task

/-! ### Commands that go on -/

/-- A command goes on with its request. -/
def KeepsRequest (f : StoreTask ρ → StoreTask ρ) : Prop :=
  ∀ task, (f task).remotePeerId = task.remotePeerId ∧ (f task).operationId = task.operationId ∧
    (f task).datasetRoot = task.datasetRoot ∧ (f task).isOperationV0 = task.isOperationV0

theorem mem_modify {tasks : List (StoreTask ρ)} {j : ℕ} {f : StoreTask ρ → StoreTask ρ}
    {task : StoreTask ρ} (h : task ∈ tasks.modify j f) :
    task ∈ tasks ∨ ∃ earlier, tasks[j]? = some earlier ∧ task = f earlier := by
  obtain ⟨i, hi⟩ := List.mem_iff_getElem?.mp h
  rcases eq_or_ne j i with rfl | hne
  · rw [List.getElem?_modify_eq] at hi
    obtain ⟨earlier, hearlier, rfl⟩ := Option.map_eq_some_iff.mp hi
    exact .inr ⟨earlier, hearlier, rfl⟩
  · rw [List.getElem?_modify_ne _ _ hne] at hi
    exact .inl (List.mem_of_getElem? hi)

/-- STEP (request): as many requests are handled after a step of a command as before. -/
theorem exists_handles_modify {f : StoreTask ρ → StoreTask ρ} (hf : KeepsRequest f)
    {tasks : List (StoreTask ρ)} {j : ℕ} {peerId operationId : String} {datasetRoot : ρ}
    {isOperationV0 : Bool} :
    (∃ task ∈ tasks.modify j f, task.Handles peerId operationId datasetRoot isOperationV0) ↔
      ∃ task ∈ tasks, task.Handles peerId operationId datasetRoot isOperationV0 := by
  have hhandles : ∀ task : StoreTask ρ,
      (f task).Handles peerId operationId datasetRoot isOperationV0 ↔
        task.Handles peerId operationId datasetRoot isOperationV0 := by
    intro task
    obtain ⟨hpeer, hid, hroot, hversion⟩ := hf task
    rw [StoreTask.Handles, hpeer, hid, hroot, hversion, StoreTask.Handles]
  constructor
  · rintro ⟨task, htask, hhandled⟩
    rcases mem_modify htask with hearlier | ⟨earlier, hearlier, rfl⟩
    · exact ⟨task, hearlier, hhandled⟩
    · exact ⟨earlier, List.mem_of_getElem? hearlier, (hhandles earlier).mp hhandled⟩
  · rintro ⟨task, htask, hhandled⟩
    obtain ⟨i, hi⟩ := List.mem_iff_getElem?.mp htask
    rcases eq_or_ne j i with rfl | hne
    · refine ⟨f task, List.mem_of_getElem? (i := j) ?_, (hhandles task).mpr hhandled⟩
      rw [List.getElem?_modify_eq, hi, Option.map_eq_map, Option.map_some]
    · refine ⟨task, List.mem_of_getElem? (i := i) ?_, hhandled⟩
      rw [List.getElem?_modify_ne _ _ hne, hi]

variable {calculateRoot : List String → ρ} {s : StoreNode ρ}

theorem keepsRequest_fetch (dataset : List String) :
    KeepsRequest (fun task : StoreTask ρ => task.fetch dataset) := by
  intro task
  simp only [StoreTask.fetch]
  split <;> exact ⟨rfl, rfl, rfl, rfl⟩

theorem keepsRequest_validate [DecidableEq ρ] [ToString ρ] (isShardValid : Bool) :
    KeepsRequest (fun task : StoreTask ρ => task.validate calculateRoot isShardValid) := by
  intro task
  simp only [StoreTask.validate]
  split <;> exact ⟨rfl, rfl, rfl, rfl⟩

theorem keepsRequest_cacheDataset :
    KeepsRequest (fun task : StoreTask ρ => task.cacheDataset.1) := by
  intro task
  simp only [StoreTask.cacheDataset]
  split <;> exact ⟨rfl, rfl, rfl, rfl⟩

theorem keepsRequest_sign : KeepsRequest (fun task : StoreTask ρ => task.sign.1) := by
  intro task
  simp only [StoreTask.sign]
  split <;> exact ⟨rfl, rfl, rfl, rfl⟩

theorem keepsRequest_retry : KeepsRequest (fun task : StoreTask ρ => task.retry) :=
  fun _ => ⟨rfl, rfl, rfl, rfl⟩

/-- STEP: what a command was checked for stays when more is pending. -/
theorem Checked.mono {s' : StoreNode ρ} {task : StoreTask ρ} (h : s.Checked calculateRoot task)
    (hpending : s.pending ⊆ s'.pending) : s'.Checked calculateRoot task := by
  rw [Checked] at h ⊢
  split
  · next dataset hstage =>
    rw [hstage] at h
    exact h
  · next hstage =>
    rw [hstage] at h
    refine h.imp_right ?_
    rintro ⟨dataset, hmem, hroot⟩
    exact ⟨dataset, hpending hmem, hroot⟩
  · trivial

/-- STEP (commands): a step of a command, after which it is checked. -/
theorem checked_modifyTask {s' : StoreNode ρ} {j : ℕ} {f : StoreTask ρ → StoreTask ρ}
    (h : ∀ task ∈ s.tasks, s.Checked calculateRoot task) (htasks : s'.tasks = s.tasks.modify j f)
    (hpending : s.pending ⊆ s'.pending)
    (hstep : ∀ task, s.tasks[j]? = some task → s.Checked calculateRoot task →
      s'.Checked calculateRoot (f task)) :
    ∀ task ∈ s'.tasks, s'.Checked calculateRoot task := by
  intro task htask
  rw [htasks] at htask
  rcases mem_modify htask with hearlier | ⟨earlier, hearlier, rfl⟩
  · exact (h task hearlier).mono hpending
  · exact hstep earlier hearlier (h earlier (List.mem_of_getElem? hearlier))

/-- STEP (check): a command that goes on after the check has passed it. -/
theorem checked_validate [DecidableEq ρ] [ToString ρ] {task : StoreTask ρ} {isShardValid : Bool}
    (h : s.Checked calculateRoot task) :
    s.Checked calculateRoot (task.validate calculateRoot isShardValid) := by
  rw [StoreTask.validate]
  split
  · next dataset hstage =>
    split
    · next hvalid =>
      rw [Checked]
      simp only [StoreTask.validateReceivedData] at hvalid
      split at hvalid
      · cases hvalid
      · split at hvalid
        · exact .inr ((validateDatasetRoot_eq_ok calculateRoot).mp hvalid)
        · next hversion => exact .inl (by simpa using hversion)
    · trivial
  · exact h

/-- STEP: every command that has come past a check has passed it. -/
theorem checked_act [DecidableEq ρ] [ToString ρ] (h : ∀ task ∈ s.tasks, s.Checked calculateRoot task) (a : StoreAction ρ) :
    ∀ task ∈ (s.act calculateRoot a).1.tasks,
      (s.act calculateRoot a).1.Checked calculateRoot task := by
  cases a with
  | publish publication => exact h
  | send i peerId => exact h
  | fetch j dataset =>
    refine checked_modifyTask h rfl (List.Subset.refl _) ?_
    intro task _ htask
    simp only [StoreTask.fetch]
    split
    · trivial
    · exact htask
  | validate j isShardValid =>
    exact checked_modifyTask h rfl (List.Subset.refl _) fun task _ htask => checked_validate htask
  | cacheDataset j =>
    refine checked_modifyTask h rfl (List.subset_append_left ..) ?_
    intro task hget htask
    simp only [StoreTask.cacheDataset]
    split
    · next dataset hstage =>
      rw [Checked, hstage] at htask
      rcases htask with hversion | hroot
      · exact .inl hversion
      · by_cases hversion : task.isOperationV0
        · exact .inl hversion
        · refine .inr ⟨dataset, List.mem_append_right _ ?_, hroot⟩
          simp [hget, StoreTask.cacheDataset, hstage, hversion]
    · exact htask.mono (List.subset_append_left ..)
  | sign j =>
    refine checked_modifyTask h rfl (List.Subset.refl _) ?_
    intro task _ htask
    simp only [StoreTask.sign]
    split
    · trivial
    · exact htask
  | retry j => exact checked_modifyTask h rfl (List.Subset.refl _) fun task _ _ => trivial

theorem Vouches.mono {s' : StoreNode ρ} {operationId : String} {datasetRoot : ρ}
    (h : s.Vouches calculateRoot operationId datasetRoot) (hpending : s.pending ⊆ s'.pending) :
    s'.Vouches calculateRoot operationId datasetRoot := by
  obtain ⟨dataset, hmem, hroot⟩ := h
  exact ⟨dataset, hpending hmem, hroot⟩

/-- STEP (claims): what is claimed of a node goes on to hold when a message arrives. -/
theorem holds_receive {claim : StoreClaim ρ} (h : s.Holds calculateRoot claim) (peerId : String)
    (message : StoreMessage ρ) : (s.receive peerId message).Holds calculateRoot claim := by
  cases message with
  | ack operationId signed => exact h
  | request publication =>
    cases claim with
    | asked operationId datasetRoot isOperationV0 => exact h
    | signed requester operationId datasetRoot =>
      obtain ⟨isOperationV0, ⟨task, htask, hhandles⟩, hvouches⟩ := h
      exact ⟨isOperationV0, ⟨task, List.mem_append_left _ htask, hhandles⟩, hvouches⟩

section Steps

variable [DecidableEq ρ] [ToString ρ]

/-- STEP: the requests that a node handles are those it handled before. -/
theorem exists_handles_act (a : StoreAction ρ) {peerId operationId : String} {datasetRoot : ρ}
    {isOperationV0 : Bool} :
    (∃ task ∈ (s.act calculateRoot a).1.tasks,
        task.Handles peerId operationId datasetRoot isOperationV0) ↔
      ∃ task ∈ s.tasks, task.Handles peerId operationId datasetRoot isOperationV0 := by
  cases a with
  | publish publication | send i peerId => exact Iff.rfl
  | fetch j dataset => exact exists_handles_modify (keepsRequest_fetch dataset)
  | validate j isShardValid => exact exists_handles_modify (keepsRequest_validate isShardValid)
  | cacheDataset j => exact exists_handles_modify keepsRequest_cacheDataset
  | sign j => exact exists_handles_modify keepsRequest_sign
  | retry j => exact exists_handles_modify keepsRequest_retry

/-- STEP: nothing pending is taken back. -/
theorem pending_act (a : StoreAction ρ) : s.pending ⊆ (s.act calculateRoot a).1.pending := by
  cases a with
  | cacheDataset j => exact List.subset_append_left ..
  | _ => exact List.Subset.refl _

/-- STEP: no publish is taken back. -/
theorem publications_act (a : StoreAction ρ) :
    s.publications ⊆ (s.act calculateRoot a).1.publications := by
  cases a with
  | publish publication => exact List.subset_append_left ..
  | _ => exact List.Subset.refl _

theorem signatures_act (a : StoreAction ρ) :
    (s.act calculateRoot a).1.signatures = s.signatures := by
  cases a <;> rfl

/-- STEP (claims): what is claimed of a node goes on to hold. -/
theorem holds_act {claim : StoreClaim ρ} (h : s.Holds calculateRoot claim) (a : StoreAction ρ) :
    (s.act calculateRoot a).1.Holds calculateRoot claim := by
  cases claim with
  | asked operationId datasetRoot isOperationV0 =>
    obtain ⟨publication, hmem, hsame⟩ := h
    exact ⟨publication, publications_act a hmem, hsame⟩
  | signed requester operationId datasetRoot =>
    obtain ⟨isOperationV0, hhandles, hvouches⟩ := h
    exact ⟨isOperationV0, (exists_handles_act a).mpr hhandles,
      hvouches.imp_right fun hvouches => hvouches.mono (pending_act a)⟩

/-- STEP (messages): what a node sends holds of it. -/
theorem holds_of_sent (h : ∀ task ∈ s.tasks, s.Checked calculateRoot task) {a : StoreAction ρ}
    {out : String × StoreMessage ρ} (hout : out ∈ (s.act calculateRoot a).2) :
    s.Holds calculateRoot ((storeTestimony calculateRoot).claim out.1 out.2) := by
  cases a with
  | send i peerId =>
    simp only [act] at hout
    cases hget : s.publications[i]? with
    | none => simp [hget] at hout
    | some publication =>
      rw [hget] at hout
      obtain rfl := List.mem_singleton.mp hout
      exact ⟨publication, List.mem_of_getElem? hget, rfl, rfl, rfl⟩
  | sign j =>
    simp only [act] at hout
    cases hget : s.tasks[j]? with
    | none => simp [hget] at hout
    | some task =>
      have htask := List.mem_of_getElem? hget
      have hchecked := h task htask
      rw [hget, Option.elim_some, StoreTask.sign] at hout
      split at hout
      · next hstage =>
        obtain rfl := List.mem_singleton.mp hout
        rw [Checked, hstage] at hchecked
        exact ⟨task.isOperationV0, ⟨task, htask, rfl, rfl, rfl, rfl⟩, hchecked⟩
      · cases hout
  | _ => cases hout

/-- The nodes claim what is so, and hear of others only by their messages. -/
theorem storeTestimony_sound : (storeTestimony calculateRoot).Sound where
  inv_act a h := checked_act h a
  inv_receive {myPeerId s} peerId message h := by
    cases message with
    | ack operationId signed => exact h
    | request publication =>
      intro task htask
      rcases List.mem_append.mp htask with hearlier | hnew
      · exact h task hearlier
      · obtain rfl := List.mem_singleton.mp hnew
        trivial
  holds_act a h := holds_act h a
  holds_receive peerId message h := holds_receive h peerId message
  sends {myPeerId s a out} h hout := holds_act (holds_of_sent h hout) a
  heard_act {myPeerId s a peerId claim} h hheard := by
    refine .inl ?_
    cases claim with
    | asked operationId datasetRoot isOperationV0 => exact (exists_handles_act a).mp hheard
    | signed requester operationId datasetRoot =>
      obtain ⟨rfl, hmem⟩ := hheard
      have hsignatures : (s.act calculateRoot a).1.signatures = s.signatures := signatures_act a
      exact ⟨rfl, hsignatures ▸ hmem⟩
  heard_receive {myPeerId s sender message peerId claim} h hheard := by
    cases message with
    | request publication =>
      cases claim with
      | asked operationId datasetRoot isOperationV0 =>
        obtain ⟨task, htask, hhandles⟩ := hheard
        rcases List.mem_append.mp htask with hearlier | hnew
        · exact .inl ⟨task, hearlier, hhandles⟩
        · obtain rfl := List.mem_singleton.mp hnew
          obtain ⟨rfl, rfl, rfl, rfl⟩ := hhandles
          exact .inr ⟨rfl, rfl⟩
      | signed requester operationId datasetRoot => exact .inl hheard
    | ack operationId signed =>
      cases claim with
      | asked operationId datasetRoot isOperationV0 => exact .inl hheard
      | signed requester operationId' datasetRoot =>
        obtain ⟨rfl, hmem⟩ := hheard
        rcases List.mem_append.mp hmem with hearlier | hnew
        · exact .inl ⟨rfl, hearlier⟩
        · cases List.mem_singleton.mp hnew
          exact .inr ⟨rfl, rfl⟩

end Steps

end StoreNode

open StoreNode in
/-- CORRECT: in every run, a signature that an honest publisher has collected from an honest node is over
    a root that the publisher asked for under that operation id, and the node has put a dataset with this
    root into its pending storage for it, unless the publisher asked for version 0. -/
theorem storeSignatures_truthful [DecidableEq ρ] [ToString ρ] (calculateRoot : List String → ρ)
    (honest : String → Prop) (events : List (Event String (StoreAction ρ) (StoreMessage ρ)))
    (hlawful : ∀ event ∈ events, event.Lawful honest) {publisher node : String}
    (hpublisher : honest publisher) (hnode : honest node) :
    let w := World.run (storeProtocol calculateRoot) ⟨fun _ => .initial, []⟩ events
    ∀ operationId datasetRoot,
      ⟨node, operationId, datasetRoot⟩ ∈ (w.nodes publisher).signatures →
      ∃ publication ∈ (w.nodes publisher).publications,
        publication.operationId = operationId ∧ publication.datasetRoot = datasetRoot ∧
          (publication.isOperationV0 = true ∨ ∃ dataset,
            ⟨operationId, datasetRoot, dataset⟩ ∈ (w.nodes node).pending ∧
              calculateRoot dataset = datasetRoot) := by
  intro w operationId datasetRoot hsignature
  have hstart : (storeTestimony calculateRoot).Truthful honest ⟨fun _ => .initial, []⟩ := by
    refine ⟨fun _ => by simp [storeTestimony, initial], by simp, ?_⟩
    intro myPeerId peerId claim _ hheard
    cases claim with
    | asked operationId datasetRoot isOperationV0 =>
      obtain ⟨task, htask, -⟩ := hheard
      cases htask
    | signed requester operationId datasetRoot =>
      obtain ⟨-, hmem⟩ := hheard
      cases hmem
  have htruthful : (storeTestimony calculateRoot).Truthful honest w :=
    storeTestimony_sound.truthful_run hlawful hstart
  obtain ⟨isOperationV0, hhandles, hvouches⟩ :=
    htruthful.heard publisher node (.signed publisher operationId datasetRoot) hnode
      ⟨rfl, hsignature⟩
  obtain ⟨publication, hmem, hid, hroot, rfl⟩ :=
    htruthful.heard node publisher (.asked operationId datasetRoot isOperationV0) hpublisher hhandles
  exact ⟨publication, hmem, hid, hroot, hvouches⟩

/-- The triples of a dataset as its root. -/
def joinedRoot (dataset : List String) : String := dataset.foldr (· ++ ·) ""

/-- A publish of a node, while another one sends a request of version 0 for the same operation. -/
def storeRun : List (Event String (StoreAction String) (StoreMessage String)) :=
  [.act "P" (.publish ⟨"op", ["t"], "t", false⟩), .act "P" (.send 0 "N"),
    .forge ⟨"M", "N", .request ⟨"op", ["u"], "t", true⟩⟩, .deliver 1, .deliver 0,
    .act "N" (.fetch 1 ["u"]), .act "N" (.validate 1 true), .act "N" (.retry 1),
    .act "N" (.fetch 1 ["t"]), .act "N" (.validate 1 true), .act "N" (.cacheDataset 1),
    .act "N" (.sign 1), .deliver 2]

theorem storeSignatures_truthful_storeRun :
    let w := World.run (storeProtocol joinedRoot) ⟨fun _ => .initial, []⟩ storeRun
    ∃ publication ∈ (w.nodes "P").publications,
      publication.operationId = "op" ∧ publication.datasetRoot = "t" ∧
        (publication.isOperationV0 = true ∨ ∃ dataset,
          ⟨"op", "t", dataset⟩ ∈ (w.nodes "N").pending ∧ joinedRoot dataset = "t") := by
  have hlawful : ∀ event ∈ storeRun, event.Lawful (· ≠ "M") := by
    simp [storeRun, Event.Lawful]
  exact storeSignatures_truthful joinedRoot (· ≠ "M") storeRun hlawful (by decide) (by decide)
    "op" "t" (by decide +kernel)

end OtNode
