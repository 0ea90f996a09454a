import OtNode.Operation.Steps
import Mathlib.Data.List.Perm.Subperm

/-! Signatures of a V1 publish.

    A signature goes to storage before the response it came with is counted, in the same task, so no
    order of tasks and no error can count a success without one (`Signed`). The publisher's own
    signature is stored before the first response of all (`Prepared`), and the flag that lets the
    result be read is raised by a count that has reached the minimum (`Reached`). -/

namespace OtNode

open Pool

variable {π : Type}

/-- How many responses of one request, or of the local store, are counted as successful. -/
def Operation.completedOf (s : Operation π) (request : Option ℕ) : ℕ :=
  s.responses.countP fun r => r.request = request ∧ r.status = .completed

/-- The successes a script is to record without storing a signature first. -/
def unsigned : List (Effect π) → ℕ
  | [] => 0
  | .addSignatureToStorage .network :: es => unsigned es - 1
  | .processResponse _ .completed :: es => unsigned es + 1
  | _ :: es => unsigned es

/-- The same of a task, for the command it runs. -/
def unsignedOf (request : Option ℕ) (t : Job π) : ℕ :=
  if t.owner.command.number? = request then unsigned t.script else 0

/-- SIGNED: every success counted, or about to be, has its signature in storage. -/
def Signed (s : Operation π) (T : Multiset (Job π)) : Prop :=
  ∀ request, s.completedOf request + (T.map (unsignedOf request)).sum ≤
    s.networkSignatures.count request

/-- An effect that neither stores a network signature nor records a success. -/
def Silent : Effect π → Prop
  | .addSignatureToStorage .network | .processResponse _ .completed => False
  | _ => True

variable {ctx : Context π} {k : Handler π} {e : Effect π} {es todo : List (Effect π)}

theorem unsigned_cons_silent (h : Silent e) (es : List (Effect π)) :
    unsigned (e :: es) = unsigned es := by
  cases e with
  | addSignatureToStorage folder =>
    cases folder with
    | network => exact h.elim
    | publisher => rfl
  | processResponse data status =>
    cases status with
    | completed => exact h.elim
    | failed => rfl
  | _ => rfl

theorem unsigned_append_silent (h : ∀ e ∈ todo, Silent e) (es : List (Effect π)) :
    unsigned (todo ++ es) = unsigned es := by
  induction todo with
  | nil => rfl
  | cons e todo ih =>
    rw [List.cons_append, unsigned_cons_silent (h e List.mem_cons_self)]
    exact ih fun e' he' => h e' (List.mem_cons_of_mem _ he')

/-! ### Scripts -/

/-- A command taken from the queue stores a signature before it records a success. -/
theorem execute_signed (ctx : Context π) (command : Command π) :
    unsigned (execute ctx command) = 0 := by
  cases command with
  | stage name data sequence =>
    cases name with
    | localStore =>
      cases hV0 : data.isOperationV0 <;> cases hpart : data.nodePartOfShard <;>
        simp [execute, localStore, hV0, hpart, unsigned]
    | validateAsset =>
      cases hop : ctx.operationName <;> simp [execute, validateAsset, hop, unsigned]
    | _ => rfl
  | scheduleMessages data => rfl
  | request number node data => cases hop : ctx.operationName <;> simp [execute, hop, unsigned]

/-- What an error starts does too. -/
theorem onThrow_signed (ctx : Context π) (k : Handler π) (e : Effect π) (message : String)
    (lost : Bool) : ∀ t ∈ onThrow ctx k e message lost, unsigned t.script = 0 := by
  intro t ht
  obtain ⟨-, hscript | hscript | hscript⟩ := onThrow_cases ht
  · rw [hscript]
    exact execute_signed ctx k.command
  · rw [hscript]
    cases k.command with
    | stage name data sequence => cases name <;> rfl
    | scheduleMessages data => rfl
    | request number node data => rfl
  · rw [hscript]
    rfl

/-- What the publish service decides records nothing further. -/
theorem publish_silent (data : MessageData π) (completedNumber failedNumber : ℕ) :
    ∀ e ∈ PublishService.processResponse data completedNumber failedNumber, Silent e := by
  intro e he
  cases PublishService.awaits_of_mem he <;> trivial

/-! ### Every success counted has its signature -/

variable {s s' : Operation π} {rest : Multiset (Job π)} {spawned : List (Job π)}

theorem unsignedOf_resume (request : Option ℕ) (k : Handler π) (es : List (Effect π)) :
    ((resume k es : Multiset (Job π)).map (unsignedOf request)).sum =
      if k.command.number? = request then unsigned es else 0 := by
  cases es with
  | nil => simp [resume, unsigned]
  | cons e es => simp [resume, unsignedOf]

theorem unsignedOf_spawned (request : Option ℕ) (h : ∀ t ∈ spawned, unsigned t.script = 0) :
    ((spawned : Multiset (Job π)).map (unsignedOf request)).sum = 0 := by
  refine Multiset.sum_eq_zero ?_
  intro n hn
  obtain ⟨t, ht, rfl⟩ := Multiset.mem_map.mp hn
  rw [unsignedOf, h t ht, ite_self]

/-- A step that counts and signs nothing, and leaves its task with no more to sign. -/
theorem Signed.keep (h : Signed s (⟨k, e :: es⟩ ::ₘ rest)) (hresponses : s'.responses = s.responses)
    (hsignatures : s'.networkSignatures = s.networkSignatures)
    (hle : unsigned (todo ++ es) ≤ unsigned (e :: es))
    (hspawned : ∀ t ∈ spawned, unsigned t.script = 0) :
    Signed s' ((resume k (todo ++ es) : Multiset (Job π)) + (rest + (spawned : Multiset _))) := by
  intro request
  have hold := h request
  rw [Multiset.map_cons, Multiset.sum_cons, unsignedOf] at hold
  rw [Multiset.map_add, Multiset.sum_add, Multiset.map_add, Multiset.sum_add, unsignedOf_resume,
    unsignedOf_spawned request hspawned, Operation.completedOf, hresponses, hsignatures]
  rw [Operation.completedOf] at hold
  by_cases hk : k.command.number? = request
  · simp only [hk, if_true] at hold ⊢
    omega
  · simp only [hk, if_false] at hold ⊢
    omega

/-- A task dropped by an error that counted nothing. -/
theorem Signed.drop (h : Signed s (⟨k, e :: es⟩ ::ₘ rest)) (hresponses : s'.responses = s.responses)
    (hsignatures : s'.networkSignatures = s.networkSignatures)
    (hspawned : ∀ t ∈ spawned, unsigned t.script = 0) :
    Signed s' (rest + (spawned : Multiset _)) := by
  intro request
  have hold := h request
  rw [Multiset.map_cons, Multiset.sum_cons] at hold
  rw [Multiset.map_add, Multiset.sum_add, unsignedOf_spawned request hspawned,
    Operation.completedOf, hresponses, hsignatures]
  rw [Operation.completedOf] at hold
  omega

theorem completedOf_record (s : Operation π) (number request : Option ℕ) (status : ResponseStatus) :
    (s.createResponseRecord number status).completedOf request =
      s.completedOf request + if number = request ∧ status = .completed then 1 else 0 := by
  simp [Operation.completedOf, Operation.createResponseRecord, List.countP_append,
    List.countP_singleton]

theorem unsigned_response (data : MessageData π) (status : ResponseStatus) (es : List (Effect π)) :
    unsigned (.processResponse data status :: es) =
      unsigned es + if status = .completed then 1 else 0 := by
  cases status <;> rfl

/-- STEP: a step of a publish keeps every success signed. -/
theorem Signed.next [DecidableEq π] {i : Choice} (hop : ctx.operationName = .publish)
    (h : Signed s (⟨k, e :: es⟩ ::ₘ rest))
    (hp : perform ctx k e i s = some (.next s' todo spawned)) :
    Signed s' ((resume k (todo ++ es) : Multiset (Job π)) + (rest + (spawned : Multiset _))) := by
  have hnone : ∀ t ∈ ([] : List (Job π)), unsigned t.script = 0 := by simp
  have hstarted : ∀ (commands : List (Command π)), ∀ t ∈ commands.map (start ctx),
      unsigned t.script = 0 := by
    rintro commands t ht
    obtain ⟨command, -, rfl⟩ := List.mem_map.mp ht
    exact execute_signed ctx command
  cases performed_of_perform hp with
  | access | updateOperationIdStatus | updateMinAcksReached | publisherSignature
  | updateOperationStatus => exact h.keep rfl rfl le_rfl hnone
  | networkSignature =>
    intro request
    have hold := h request
    rw [Multiset.map_cons, Multiset.sum_cons, unsignedOf] at hold
    rw [Multiset.map_add, Multiset.sum_add, unsignedOf_resume, Multiset.coe_nil, Multiset.add_zero,
      List.count_append, List.count_singleton]
    simp only [Operation.completedOf, List.nil_append, beq_iff_eq] at hold ⊢
    by_cases hk : k.command.number? = request
    · simp only [hk, if_true, unsigned] at hold ⊢
      omega
    · simp only [hk, if_false] at hold ⊢
      omega
  | findShard data minAckResponses _ =>
    refine h.keep rfl rfl (le_of_eq (unsigned_append_silent ?_ es)) hnone
    rw [findShard]
    split <;> simp [handleError, Silent]
  | localGet data sequence => exact h.keep rfl rfl le_rfl hnone
  | localHit data sequence => exact h.keep rfl rfl le_rfl hnone
  | networkProtocol data batchSize minAckResponses _ => exact h.keep rfl rfl le_rfl hnone
  | add command => exact h.keep rfl rfl le_rfl (hstarted [command])
  | addRequests data => exact h.keep rfl rfl le_rfl (hstarted _)
  | shouldSendMessage | shouldNotSendMessage => exact h.keep rfl rfl le_rfl hnone
  | sendFailed message => exact h.keep rfl rfl le_rfl (onThrow_signed ctx k _ message false)
  | sendMessage number node data reply _ _ =>
    refine h.keep rfl rfl (le_of_eq ?_) hnone
    cases reply <;> simp [handleReply, handleNack, handleAck, hop, unsigned]
  | retry number node data _ =>
    refine h.keep rfl rfl le_rfl ?_
    intro t ht
    obtain rfl := List.mem_singleton.mp ht
    exact execute_signed ctx k.command
  | retryFinished number node data _ => exact h.keep rfl rfl le_rfl hnone
  | processResponse data status =>
    intro request
    have hold := h request
    have hsilent : unsigned (processResponse ctx.operationName data status
        (s.createResponseRecord k.command.number? status).completedNumber
        (s.createResponseRecord k.command.number? status).failedNumber ++ es) = unsigned es := by
      rw [hop]
      exact unsigned_append_silent (publish_silent _ _ _) es
    rw [Multiset.map_cons, Multiset.sum_cons, unsignedOf, unsigned_response] at hold
    rw [Multiset.map_add, Multiset.sum_add, unsignedOf_resume, hsilent, Multiset.coe_nil,
      Multiset.add_zero, completedOf_record]
    by_cases hk : k.command.number? = request
    · simp only [hk, true_and, if_true] at hold ⊢
      exact le_trans (by omega) hold
    · simp only [hk, false_and, if_false] at hold ⊢
      exact le_trans (by omega) hold
  | markOperationAsFailed error =>
    refine h.keep rfl rfl le_rfl ?_
    intro t ht
    obtain rfl := List.mem_singleton.mp ht
    rfl
  | finish children => exact h.keep rfl rfl le_rfl (hstarted children)

/-- STEP (errors): an error keeps every success signed. -/
theorem Signed.raise [DecidableEq π] {i : Choice} (hop : ctx.operationName = .publish)
    (h : Signed s (⟨k, e :: es⟩ ::ₘ rest))
    (hp : perform ctx k e i s = some (.raise s' spawned)) :
    Signed s' (rest + (spawned : Multiset _)) := by
  cases raised_of_perform (by simp [hop]) hp with
  | environment e message lost => exact h.drop rfl rfl (onThrow_signed ctx k e message lost)
  | missing e message _ => exact h.drop rfl rfl (onThrow_signed ctx k e message false)
  | recorded data status message lost =>
    intro request
    have hold := h request
    rw [Multiset.map_cons, Multiset.sum_cons, unsignedOf, unsigned_response] at hold
    rw [Multiset.map_add, Multiset.sum_add,
      unsignedOf_spawned request (onThrow_signed ctx k _ message lost), completedOf_record]
    by_cases hk : k.command.number? = request
    · simp only [hk, true_and, if_true] at hold ⊢
      exact le_trans (by omega) hold
    · simp only [hk, false_and, if_false] at hold ⊢
      exact le_trans (by omega) hold
  | inserted data stored message lost =>
    refine h.drop rfl rfl ?_
    intro t ht
    rcases List.mem_append.mp ht with ht | ht
    · obtain ⟨command, -, rfl⟩ := List.mem_map.mp ht
      exact execute_signed ctx command
    · exact onThrow_signed ctx k _ message lost t ht

/-- RUN: in every run of a publish every success counted has its signature in storage. -/
theorem AnyRun.signed [DecidableEq π] {command : Command π} (hop : ctx.operationName = .publish)
    {c : Config (Operation π) (Handler π) (Effect π)} (hrun : AnyRun ctx command c) :
    Signed c.shared c.tasks := by
  refine hrun.invariant (I := fun c => Signed c.shared c.tasks) ?_ ?_
  · intro c n i c' h _ hfire
    exact (machine ctx).task_step (i := i) (J := Signed) (G := fun _ _ _ _ _ => True)
      (fun s k e es s' todo spawned rest h _ hp => h.next hop hp)
      (fun s k e es s' spawned rest h _ hp => h.raise hop hp) h (fun _ _ _ _ => trivial) hfire
  · intro request
    have hstart := execute_signed ctx command
    simp [begin, Config.tasks, Operation.initial, Operation.completedOf, unsignedOf, start, hstart]

/-! ### The publisher's signature comes first -/

/-- A command of the sequence that leads up to the publisher's signature. -/
def Prelude : Command π → Prop
  | .stage name data sequence =>
    data.isOperationV0 = false ∧ (name = .findShard ∨ name = .validateAsset ∨ name = .localStore) ∧
      ∀ name ∈ sequence, name = .validateAsset ∨ name = .localStore
  | _ => False

/-- An effect that may come before the publisher's signature. -/
def Early : Effect π → Prop
  | .access | .updateOperationIdStatus _ _ | .updateOperationStatus _
  | .addSignatureToStorage _ => True
  | .findShard data => data.isOperationV0 = false
  | .finish children => ∀ command ∈ children, Prelude command
  | _ => False

/-- A script whose effects are early up to the publisher's signature. -/
def Leads : List (Effect π) → Prop
  | [] => True
  | .addSignatureToStorage .publisher :: _ => True
  | e :: es => Early e ∧ Leads es

/-- PREPARED: without a publisher's signature in storage, every task leads up to one first. -/
def Prepared (s : Operation π) (T : Multiset (Job π)) : Prop :=
  s.publisherSignatures = 0 → s.minAcksReached = false ∧
    (∀ name ∈ s.sequence, name = .validateAsset ∨ name = .localStore) ∧
    ∀ t ∈ T, Prelude t.owner.command ∧ Leads t.script

theorem Leads.cons (h : Leads (e :: es)) : e = .addSignatureToStorage .publisher ∨
    Early e ∧ Leads es := by
  cases e with
  | addSignatureToStorage folder =>
    cases folder with
    | publisher => exact Or.inl rfl
    | network => exact Or.inr h
  | _ => exact Or.inr h

theorem Leads.of_early (he : ∀ e ∈ todo, Early e) (h : Leads es) : Leads (todo ++ es) := by
  induction todo with
  | nil => exact h
  | cons e todo ih =>
    have hrest := ih fun e' he' => he e' (List.mem_cons_of_mem _ he')
    have hfirst := he e List.mem_cons_self
    rw [List.cons_append]
    cases e with
    | addSignatureToStorage folder =>
      cases folder with
      | publisher => trivial
      | network => exact ⟨hfirst, hrest⟩
    | _ => exact ⟨hfirst, hrest⟩

theorem Leads.all (he : ∀ e ∈ es, Early e) : Leads es := by
  have hleads : Leads (es ++ []) := Leads.of_early he trivial
  rwa [List.append_nil] at hleads

theorem continueSequence_prelude {data : CommandData π} (hV1 : data.isOperationV0 = false)
    {sequence : List Stage} (hseq : ∀ name ∈ sequence, name = .validateAsset ∨ name = .localStore) :
    ∀ command ∈ continueSequence data sequence, Prelude command := by
  intro command hmem
  cases sequence with
  | nil => cases hmem
  | cons name sequence =>
    obtain rfl := List.mem_singleton.mp hmem
    exact ⟨hV1, Or.inr (hseq name List.mem_cons_self),
      fun name' h' => hseq name' (List.mem_cons_of_mem _ h')⟩

/-- The commands of the sequence lead up to the publisher's signature. -/
theorem execute_leads (ctx : Context π) {command : Command π} (h : Prelude command) :
    Leads (execute ctx command) := by
  cases command with
  | stage name data sequence =>
    obtain ⟨hV1, hname, hseq⟩ := h
    rcases hname with rfl | rfl | rfl
    · exact .all (by simp [execute, Early, hV1])
    · have hlast := continueSequence_prelude hV1 hseq
      cases hop : ctx.operationName <;>
        exact .all (by simpa [execute, validateAsset, hop, Early] using hlast)
    · cases hpart : data.nodePartOfShard <;> simp [execute, localStore, hV1, hpart, Leads, Early]
  | _ => exact h.elim

/-- So does what an error of one of them starts. -/
theorem onThrow_leads (ctx : Context π) (h : Prelude k.command) (e : Effect π) (message : String)
    (lost : Bool) :
    ∀ t ∈ onThrow ctx k e message lost, Prelude t.owner.command ∧ Leads t.script := by
  intro t ht
  obtain ⟨hcommand, hscript | hscript | hscript⟩ := onThrow_cases ht
  · rw [hcommand, hscript]
    exact ⟨h, execute_leads ctx h⟩
  · rw [hcommand, hscript]
    refine ⟨h, .all ?_⟩
    cases hk : k.command with
    | stage name data sequence =>
      cases name <;> simp [recover, handleError, markOperationAsFailed, Early]
    | _ =>
      rw [hk] at h
      exact h.elim
  · rw [hcommand, hscript]
    exact ⟨h, .all (by simp [handleError, Early])⟩

/-- What an early effect has to leave behind it. -/
theorem Prepared.keep (h : Prepared s (⟨k, e :: es⟩ ::ₘ rest))
    (hne : e ≠ .addSignatureToStorage .publisher)
    (hsigned : s'.publisherSignatures = s.publisherSignatures)
    (hstep : Early e → s.minAcksReached = false →
      (∀ name ∈ s.sequence, name = .validateAsset ∨ name = .localStore) →
      s'.minAcksReached = false ∧
      (∀ name ∈ s'.sequence, name = .validateAsset ∨ name = .localStore) ∧
      (∀ e ∈ todo, Early e) ∧ ∀ t ∈ spawned, Prelude t.owner.command ∧ Leads t.script) :
    Prepared s' ((resume k (todo ++ es) : Multiset (Job π)) + (rest + (spawned : Multiset _))) := by
  intro hnone
  obtain ⟨hflag, hsequence, htasks⟩ := h (hsigned ▸ hnone)
  obtain ⟨hcommand, hscript⟩ := htasks _ (Multiset.mem_cons_self _ _)
  obtain ⟨he, hes⟩ := hscript.cons.resolve_left hne
  obtain ⟨hflag', hsequence', htodo, hspawned⟩ := hstep he hflag hsequence
  refine ⟨hflag', hsequence', ?_⟩
  intro t ht
  rcases Multiset.mem_add.mp ht with ht | ht
  · have hleads := Leads.of_early htodo hes
    cases hrest : todo ++ es with
    | nil => simp [hrest, resume] at ht
    | cons e' es' =>
      rw [hrest] at ht hleads
      obtain rfl := List.mem_singleton.mp (Multiset.mem_coe.mp ht)
      exact ⟨hcommand, hleads⟩
  · rcases Multiset.mem_add.mp ht with ht | ht
    · exact htasks t (Multiset.mem_cons_of_mem ht)
    · exact hspawned t ht

/-- STEP: a step of a V1 publish leads up to the publisher's signature as long as it is missing. -/
theorem Prepared.next [DecidableEq π] {i : Choice} (hop : ctx.operationName = .publish)
    (h : Prepared s (⟨k, e :: es⟩ ::ₘ rest))
    (hp : perform ctx k e i s = some (.next s' todo spawned)) :
    Prepared s' ((resume k (todo ++ es) : Multiset (Job π)) + (rest + (spawned : Multiset _))) := by
  cases performed_of_perform hp with
  | publisherSignature =>
    intro hnone
    cases hnone
  | access | updateOperationIdStatus | networkSignature | updateOperationStatus =>
    exact h.keep (by simp) rfl fun _ hflag hseq => ⟨hflag, hseq, by simp, by simp⟩
  | findShard data minAckResponses _ =>
    refine h.keep (by simp) rfl ?_
    intro hV1 hflag hseq
    have hdata : data.isOperationV0 = false := hV1
    have hcommands : getOperationCommandSequence ctx.operationName data =
        [.validateAsset, .localStore] := by
      simp [getOperationCommandSequence, hop, hdata]
    have hsequence : ∀ name ∈ s.sequence ++ getOperationCommandSequence ctx.operationName data,
        name = .validateAsset ∨ name = .localStore := by
      rw [hcommands]
      intro name hname
      rcases List.mem_append.mp hname with hname | hname
      · exact hseq name hname
      · simpa using hname
    have hfound : (foundData ctx data).isOperationV0 = false := hdata
    refine ⟨hflag, hsequence, ?_, by simp⟩
    rw [findShard]
    split
    · simp [handleError, Early]
    · simpa [Early] using continueSequence_prelude hfound hsequence
  | finish children =>
    refine h.keep (by simp) rfl fun hchildren hflag hseq => ⟨hflag, hseq, by simp, fun t ht => ?_⟩
    obtain ⟨command, hmem, rfl⟩ := List.mem_map.mp ht
    exact ⟨hchildren command hmem, execute_leads ctx (hchildren command hmem)⟩
  | _ => exact h.keep (by simp) rfl fun hearly => hearly.elim

/-- STEP (errors): so does an error. -/
theorem Prepared.raise [DecidableEq π] {i : Choice} (hop : ctx.operationName = .publish)
    (h : Prepared s (⟨k, e :: es⟩ ::ₘ rest))
    (hp : perform ctx k e i s = some (.raise s' spawned)) :
    Prepared s' (rest + (spawned : Multiset _)) := by
  have hmissing : s'.publisherSignatures = s.publisherSignatures ∧
      s'.minAcksReached = s.minAcksReached ∧ s'.sequence = s.sequence := by
    cases raised_of_perform (by simp [hop]) hp <;> exact ⟨rfl, rfl, rfl⟩
  intro hnone
  obtain ⟨hflag, hsequence, htasks⟩ := h (hmissing.1 ▸ hnone)
  obtain ⟨hcommand, hscript⟩ := htasks _ (Multiset.mem_cons_self _ _)
  refine ⟨hmissing.2.1 ▸ hflag, hmissing.2.2 ▸ hsequence, ?_⟩
  intro t ht
  rcases Multiset.mem_add.mp ht with ht | ht
  · exact htasks t (Multiset.mem_cons_of_mem ht)
  · cases raised_of_perform (by simp [hop]) hp with
    | environment e message lost => exact onThrow_leads ctx hcommand e message lost t ht
    | missing e message _ => exact onThrow_leads ctx hcommand e message false t ht
    | recorded data status message lost => exact onThrow_leads ctx hcommand _ message lost t ht
    | inserted data stored message lost => exact hscript.1.elim

/-- RUN: in every run of a V1 publish the publisher's signature is stored before the flag is set. -/
theorem AnyRun.prepared [DecidableEq π] {d : CommandData π} (hop : ctx.operationName = .publish)
    (hV1 : d.isOperationV0 = false) {c : Config (Operation π) (Handler π) (Effect π)}
    (hrun : AnyRun ctx (.stage .findShard d []) c) : Prepared c.shared c.tasks := by
  refine hrun.invariant (I := fun c => Prepared c.shared c.tasks) ?_ ?_
  · intro c n i c' h _ hfire
    exact (machine ctx).task_step (i := i) (J := Prepared) (G := fun _ _ _ _ _ => True)
      (fun s k e es s' todo spawned rest h _ hp => h.next hop hp)
      (fun s k e es s' spawned rest h _ hp => h.raise hop hp) h (fun _ _ _ _ => trivial) hfire
  · intro _
    have hprelude : Prelude (.stage .findShard d [] : Command π) :=
      ⟨hV1, Or.inl rfl, fun name h => nomatch h⟩
    refine ⟨rfl, by simp [begin, Operation.initial, initialSequence, hop], fun t ht => ?_⟩
    obtain rfl := List.mem_singleton.mp (Multiset.mem_coe.mp ht)
    exact ⟨hprelude, execute_leads ctx hprelude⟩

/-! ### The flag is raised by a count that reached the minimum -/

/-- The data of a command carry the minimum that was asked for. -/
def Asks (minimum : Option ℕ) : Command π → Prop
  | .stage _ data _ => data.minimumNumberOfNodeReplications = minimum
  | .scheduleMessages data | .request _ _ data =>
    data.minAckResponses = PublishService.getMinAckResponses minimum

/-- So do the data of an effect; the flag is about to be raised only if enough is counted. -/
def Consistent (minimum : Option ℕ) (completedNumber : ℕ) : Effect π → Prop
  | .findShard data | .localGet data _ | .networkProtocol data =>
    data.minimumNumberOfNodeReplications = minimum
  | .add command => Asks minimum command
  | .finish children => ∀ command ∈ children, Asks minimum command
  | .addRequests data | .processResponse data _ =>
    data.minAckResponses = PublishService.getMinAckResponses minimum
  | .updateMinAcksReached => PublishService.getMinAckResponses minimum ≤ completedNumber
  | _ => True

/-- REACHED: the flag is raised, and about to be raised, only once the minimum is reached. -/
structure Reached (minimum : Option ℕ) (s : Operation π) (T : Multiset (Job π)) : Prop where
  flag : s.minAcksReached = true →
    PublishService.getMinAckResponses minimum ≤ s.completedNumber
  tasks : ∀ t ∈ T, Asks minimum t.owner.command ∧
    ∀ e ∈ t.script, Consistent minimum s.completedNumber e

variable {minimum : Option ℕ}

theorem Consistent.mono {n n' : ℕ} (hle : n ≤ n') (h : Consistent minimum n e) :
    Consistent minimum n' e := by
  cases e with
  | updateMinAcksReached => exact le_trans (h : _ ≤ n) hle
  | _ => exact h

theorem continueSequence_asks {data : CommandData π}
    (h : data.minimumNumberOfNodeReplications = minimum) (sequence : List Stage) :
    ∀ command ∈ continueSequence data sequence, Asks minimum command := by
  intro command hmem
  cases sequence with
  | nil => cases hmem
  | cons name sequence =>
    obtain rfl := List.mem_singleton.mp hmem
    exact h

theorem execute_consistent (hop : ctx.operationName = .publish) {command : Command π}
    (h : Asks minimum command) (n : ℕ) :
    ∀ e ∈ execute ctx command, Consistent minimum n e := by
  cases command with
  | stage name data sequence =>
    have hminimum : data.minimumNumberOfNodeReplications = minimum := h
    cases name with
    | validateAsset =>
      have hlast := continueSequence_asks hminimum sequence
      simpa [execute, validateAsset, hop, Consistent] using hlast
    | localStore =>
      cases hV0 : data.isOperationV0 <;> cases hpart : data.nodePartOfShard <;>
        simp [execute, localStore, hV0, hpart, Consistent, CommandData.toMessage, hminimum]
    | _ => simp [execute, Consistent, hminimum]
  | scheduleMessages data => simpa [execute, Consistent, Asks] using h
  | request number node data => simp [execute, hop, Consistent]

theorem onThrow_consistent (hop : ctx.operationName = .publish) (h : Asks minimum k.command)
    (e : Effect π) (message : String) (lost : Bool) (n : ℕ) :
    ∀ t ∈ onThrow ctx k e message lost, Asks minimum t.owner.command ∧
      ∀ e ∈ t.script, Consistent minimum n e := by
  intro t ht
  obtain ⟨hcommand, hscript | hscript | hscript⟩ := onThrow_cases ht
  · rw [hcommand, hscript]
    exact ⟨h, execute_consistent hop h n⟩
  · rw [hcommand, hscript]
    refine ⟨h, ?_⟩
    cases hk : k.command with
    | stage name data sequence =>
      cases name <;> simp [recover, handleError, markOperationAsFailed, Consistent]
    | scheduleMessages data => simp [recover, handleError, Consistent]
    | request number node data =>
      rw [hk] at h
      simpa [recover, Consistent, Asks] using h
  · rw [hcommand, hscript]
    exact ⟨h, by simp [handleError, Consistent]⟩

/-- What a step has to leave behind it. -/
theorem Reached.keep (h : Reached minimum s (⟨k, e :: es⟩ ::ₘ rest))
    (hle : s.completedNumber ≤ s'.completedNumber)
    (hflag : s'.minAcksReached = s.minAcksReached)
    (htodo : Asks minimum k.command → Consistent minimum s.completedNumber e →
      ∀ e ∈ todo, Consistent minimum s'.completedNumber e)
    (hspawned : Asks minimum k.command → Consistent minimum s.completedNumber e →
      ∀ t ∈ spawned, Asks minimum t.owner.command ∧
        ∀ e ∈ t.script, Consistent minimum s'.completedNumber e) :
    Reached minimum s'
      ((resume k (todo ++ es) : Multiset (Job π)) + (rest + (spawned : Multiset _))) := by
  obtain ⟨hcommand, hscript⟩ := h.tasks _ (Multiset.mem_cons_self _ _)
  have he := hscript e List.mem_cons_self
  refine ⟨fun hraised => (h.flag (hflag ▸ hraised)).trans hle, ?_⟩
  intro t ht
  rcases Multiset.mem_add.mp ht with ht | ht
  · cases hrest : todo ++ es with
    | nil => simp [hrest, resume] at ht
    | cons e' es' =>
      rw [hrest] at ht
      obtain rfl := List.mem_singleton.mp (Multiset.mem_coe.mp ht)
      refine ⟨hcommand, ?_⟩
      intro e'' hmem
      rw [← hrest] at hmem
      rcases List.mem_append.mp hmem with hmem | hmem
      · exact htodo hcommand he e'' hmem
      · exact (hscript e'' (List.mem_cons_of_mem _ hmem)).mono hle
  · rcases Multiset.mem_add.mp ht with ht | ht
    · obtain ⟨hasks, hother⟩ := h.tasks t (Multiset.mem_cons_of_mem ht)
      exact ⟨hasks, fun e' he' => (hother e' he').mono hle⟩
    · exact hspawned hcommand he t ht

theorem completedNumber_record (s : Operation π) (request : Option ℕ) (status : ResponseStatus) :
    s.completedNumber ≤ (s.createResponseRecord request status).completedNumber := by
  simp [Operation.completedNumber, Operation.countStatus, Operation.createResponseRecord]

theorem start_consistent (hop : ctx.operationName = .publish) {commands : List (Command π)}
    (h : ∀ command ∈ commands, Asks minimum command) (n : ℕ) :
    ∀ t ∈ commands.map (start ctx), Asks minimum t.owner.command ∧
      ∀ e ∈ t.script, Consistent minimum n e := by
  intro t ht
  obtain ⟨command, hmem, rfl⟩ := List.mem_map.mp ht
  exact ⟨h command hmem, execute_consistent hop (h command hmem) n⟩

theorem requests_ask {data : MessageData π}
    (h : data.minAckResponses = PublishService.getMinAckResponses minimum) (s : Operation π)
    (nodes : List π) : ∀ command ∈ requests ctx s data nodes, Asks minimum command := by
  intro command hmem
  obtain ⟨i, hi, rfl⟩ := List.mem_mapIdx.mp hmem
  exact h

/-- STEP: a step of a publish raises the flag at the minimum only. -/
theorem Reached.next [DecidableEq π] {i : Choice} (hop : ctx.operationName = .publish)
    (h : Reached minimum s (⟨k, e :: es⟩ ::ₘ rest))
    (hp : perform ctx k e i s = some (.next s' todo spawned)) :
    Reached minimum s'
      ((resume k (todo ++ es) : Multiset (Job π)) + (rest + (spawned : Multiset _))) := by
  have hminimum : ∀ {asked : Option ℕ} {m : ℕ}, getMinAckResponses ctx.operationName asked = some m →
      m = PublishService.getMinAckResponses asked := by
    intro asked m hmin
    rw [hop] at hmin
    exact (Option.some.inj hmin).symm
  cases performed_of_perform hp with
  | access | updateOperationIdStatus | updateOperationStatus | networkSignature
  | publisherSignature | shouldNotSendMessage =>
    exact h.keep le_rfl rfl (by simp [Consistent]) (by simp)
  | updateMinAcksReached =>
    have hreached : PublishService.getMinAckResponses minimum ≤ s.completedNumber :=
      (h.tasks _ (Multiset.mem_cons_self _ _)).2 _ List.mem_cons_self
    have hkept : Reached minimum s ((resume k ([] ++ es) : Multiset (Job π)) +
        (rest + (([] : List (Job π)) : Multiset (Job π)))) :=
      h.keep le_rfl rfl (by simp) (by simp)
    exact ⟨fun _ => hreached, hkept.tasks⟩
  | findShard data minAckResponses _ =>
    refine h.keep le_rfl rfl (fun _ hdata => ?_) (by simp)
    have hfound : (foundData ctx data).minimumNumberOfNodeReplications = minimum := hdata
    rw [findShard]
    split
    · simp [handleError, Consistent]
    · simpa [Consistent] using continueSequence_asks hfound _
  | localGet data sequence =>
    refine h.keep le_rfl rfl (fun _ hdata => ?_) (by simp)
    simpa [Consistent] using continueSequence_asks (hdata : _ = minimum) sequence
  | localHit data sequence =>
    exact h.keep le_rfl rfl (by simp [markOperationAsCompleted, Consistent]) (by simp)
  | networkProtocol data batchSize minAckResponses hmin =>
    refine h.keep le_rfl rfl (fun _ hdata => ?_) (by simp)
    have hdata' : data.minimumNumberOfNodeReplications = minimum := hdata
    simp [Consistent, Asks, CommandData.toMessage, hminimum hmin, hdata']
  | add command =>
    exact h.keep le_rfl rfl (by simp) fun _ hcommand =>
      start_consistent hop (List.forall_mem_singleton.mpr hcommand) _
  | addRequests data =>
    exact h.keep le_rfl rfl (by simp) fun _ hdata =>
      start_consistent hop (requests_ask hdata s _) _
  | shouldSendMessage _ => exact h.keep le_rfl rfl (by simp [Consistent]) (by simp)
  | sendFailed message =>
    exact h.keep le_rfl rfl (by simp) fun hcommand _ =>
      onThrow_consistent hop hcommand _ message false _
  | sendMessage number node data reply hcommand _ =>
    refine h.keep le_rfl rfl (fun hasks _ => ?_) (by simp)
    rw [hcommand] at hasks
    have hdata : data.minAckResponses = PublishService.getMinAckResponses minimum := hasks
    cases reply <;> simp [handleReply, handleNack, handleAck, hop, Consistent, hdata]
  | retry number node data _ =>
    refine h.keep le_rfl rfl (by simp) ?_
    intro hcommand _ t ht
    obtain rfl := List.mem_singleton.mp ht
    exact ⟨hcommand, execute_consistent hop hcommand _⟩
  | retryFinished number node data hcommand =>
    refine h.keep le_rfl rfl (fun hasks _ => ?_) (by simp)
    rw [hcommand] at hasks
    have hdata : data.minAckResponses = PublishService.getMinAckResponses minimum := hasks
    simp [Consistent, hdata]
  | processResponse data status =>
    refine h.keep (completedNumber_record s _ status) rfl (fun _ hdata e' he' => ?_) (by simp)
    have hmin : data.minAckResponses = PublishService.getMinAckResponses minimum := hdata
    rw [hop] at he'
    cases PublishService.awaits_of_mem he' with
    | updateMinAcksReached hcount => exact (hmin.symm.trans hcount.symm).le
    | schedule nodes => exact hmin
    | _ => trivial
  | markOperationAsFailed error =>
    refine h.keep le_rfl rfl (by simp) ?_
    intro hcommand _ t ht
    obtain rfl := List.mem_singleton.mp ht
    exact ⟨hcommand, by simp [markOperationAsFailed, Consistent]⟩
  | finish children =>
    exact h.keep le_rfl rfl (by simp) fun _ hchildren => start_consistent hop hchildren _

/-- STEP (errors): an error raises no flag. -/
theorem Reached.raise [DecidableEq π] {i : Choice} (hop : ctx.operationName = .publish)
    (h : Reached minimum s (⟨k, e :: es⟩ ::ₘ rest))
    (hp : perform ctx k e i s = some (.raise s' spawned)) :
    Reached minimum s' (rest + (spawned : Multiset _)) := by
  have hcommand := (h.tasks _ (Multiset.mem_cons_self _ _)).1
  have hkeep : ∀ {s' : Operation π} {jobs : List (Job π)},
      s.completedNumber ≤ s'.completedNumber → s'.minAcksReached = s.minAcksReached →
      (∀ t ∈ jobs, Asks minimum t.owner.command ∧
        ∀ e ∈ t.script, Consistent minimum s'.completedNumber e) →
      Reached minimum s' (rest + (jobs : Multiset _)) := by
    intro s' jobs hle hflag hjobs
    refine ⟨fun hraised => (h.flag (hflag ▸ hraised)).trans hle, ?_⟩
    intro t ht
    rcases Multiset.mem_add.mp ht with ht | ht
    · obtain ⟨hasks, hother⟩ := h.tasks t (Multiset.mem_cons_of_mem ht)
      exact ⟨hasks, fun e' he' => (hother e' he').mono hle⟩
    · exact hjobs t ht
  cases raised_of_perform (by simp [hop]) hp with
  | environment e message lost =>
    exact hkeep le_rfl rfl (onThrow_consistent hop hcommand e message lost _)
  | missing e message _ =>
    exact hkeep le_rfl rfl (onThrow_consistent hop hcommand e message false _)
  | recorded data status message lost =>
    exact hkeep (completedNumber_record s _ status) rfl
      (onThrow_consistent hop hcommand _ message lost _)
  | inserted data stored message lost =>
    have hdata : data.minAckResponses = PublishService.getMinAckResponses minimum :=
      (h.tasks _ (Multiset.mem_cons_self _ _)).2 _ List.mem_cons_self
    refine hkeep le_rfl rfl ?_
    intro t ht
    rcases List.mem_append.mp ht with ht | ht
    · exact start_consistent hop (requests_ask hdata s _) _ t ht
    · exact onThrow_consistent hop hcommand _ message lost _ t ht

/-- RUN: in every run of a publish the flag is raised once the minimum is reached. -/
theorem AnyRun.reached [DecidableEq π] {d : CommandData π} (hop : ctx.operationName = .publish)
    {c : Config (Operation π) (Handler π) (Effect π)}
    (hrun : AnyRun ctx (.stage .findShard d []) c) :
    Reached d.minimumNumberOfNodeReplications c.shared c.tasks := by
  refine hrun.invariant (I := fun c => Reached _ c.shared c.tasks) ?_ ?_
  · intro c n i c' h _ hfire
    exact (machine ctx).task_step (i := i) (J := Reached _) (G := fun _ _ _ _ _ => True)
      (fun s k e es s' todo spawned rest h _ hp => h.next hop hp)
      (fun s k e es s' spawned rest h _ hp => h.raise hop hp) h (fun _ _ _ _ => trivial) hfire
  · refine ⟨fun hraised => by simp [begin, Operation.initial] at hraised, ?_⟩
    have hasks : Asks d.minimumNumberOfNodeReplications
        (.stage .findShard d [] : Command π) := rfl
    exact start_consistent hop (List.forall_mem_singleton.mpr hasks) _

/-! ### The result -/

/-- Every success counted having a signature of its own, there are as many signatures. -/
theorem completedNumber_le (h : ∀ request, s.completedOf request ≤ s.networkSignatures.count request) :
    s.completedNumber ≤ s.networkSignatures.length := by
  have hle : ((s.responses.filter (·.status = .completed)).map (·.request)).Subperm
      s.networkSignatures := by
    refine List.subperm_ext_iff.mpr ?_
    intro request _
    have hcount : ((s.responses.filter (·.status = .completed)).map (·.request)).count request =
        s.completedOf request := by
      rw [List.count, List.countP_map, List.countP_filter, Operation.completedOf]
      refine List.countP_congr ?_
      intro r _
      simp
    rw [hcount]
    exact h request
  have hlength := hle.length_le
  rwa [List.length_map, ← List.countP_eq_length_filter] at hlength

/-- SUFFICIENT: in every run of a V1 publish, whatever fails and is retried, once the flag that lets
    the result be read is set there are as many network signatures in storage as the minimum, one
    at least for every success counted of a node, and the publisher's. -/
theorem signatures_sufficient [DecidableEq π] {d : CommandData π}
    (hop : ctx.operationName = .publish) (hV1 : d.isOperationV0 = false)
    {c : Config (Operation π) (Handler π) (Effect π)}
    (hrun : AnyRun ctx (.stage .findShard d []) c) (hflag : c.shared.minAcksReached = true) :
    PublishService.getMinAckResponses d.minimumNumberOfNodeReplications ≤
        c.shared.networkSignatures.length ∧
      (∀ request, c.shared.completedOf request ≤ c.shared.networkSignatures.count request) ∧
      1 ≤ c.shared.publisherSignatures := by
  have hsigned : ∀ request,
      c.shared.completedOf request ≤ c.shared.networkSignatures.count request :=
    fun request => (Nat.le_add_right _ _).trans (hrun.signed hop request)
  have hreached := (hrun.reached hop).flag hflag
  refine ⟨hreached.trans (completedNumber_le hsigned), hsigned, ?_⟩
  by_contra hnone
  have hunset := (hrun.prepared hop hV1 (by omega)).1
  rw [hflag] at hunset
  cases hunset

/-- This node signs, the other node's first reply is lost to an error and its second one counts. -/
theorem signatures_sufficient_after_retry :
    ∃ c, AnyRun ⟨.publish, 0, [0, 1]⟩
        (.stage .findShard (.initial "id" "root" false (some 2) (some 1)) []) c ∧
      c.shared.minAcksReached = true ∧ 2 ≤ c.shared.networkSignatures.length ∧
      1 ≤ c.shared.publisherSignatures := by
  have hexists : ∃ c, AnyRun ⟨.publish, 0, [0, 1]⟩
      (.stage .findShard (.initial "id" "root" false (some 2) (some 1)) []) c ∧
      c.shared.minAcksReached = true :=
    AnyRun.of_schedule
      (List.replicate 27 (0, Choice.ok) ++ (0, Choice.reply (.error "stream reset")) :: (0, .ok) ::
        (0, .reply (.ack true)) :: List.replicate 3 (0, .ok))
      (by decide +kernel)
  obtain ⟨c, hrun, hflag⟩ := hexists
  have hsufficient := signatures_sufficient rfl rfl hrun hflag
  exact ⟨c, hrun, hflag, hsufficient.1, hsufficient.2.2⟩

end OtNode
