import OtNode.Operation.Polling
import OtNode.Operation.Update

/-! One response record per request.

    A request command owes its operation one record. Whatever the executor does with the command
    (first execution, re-execution, `recover`), the record is written by the one effect of its task
    that leads to `processResponse`; `Records` counts the two together. An error after the record
    was written brings the task back with that effect in it. -/

namespace OtNode

open Pool

variable {π : Type}

/-- How many response records a request has. -/
def Operation.recordsOf (s : Operation π) (number : ℕ) : ℕ :=
  s.responses.countP (·.request = some number)

/-- How many records of a request are still to come: its effects under way that end in one. -/
def pendingOf (number : ℕ) (W : Multiset (Handler π × Effect π)) : ℕ :=
  W.countP fun w => w.1.command.number? = some number ∧ role w = .answer

/-- Whether an error brings the command back, to the queue or to `recover`. -/
def Handler.reenters (h : Handler π) (lost : Bool) : Bool :=
  match h.mode with
  | .execute | .caught _ => !lost
  | .recover _ | .detached => false

/-- Performing an effect neither loses the record of the command's request nor has it written
    again. -/
def keepsRecord (ctx : Context π) (s : Operation π) (k : Handler π) (e : Effect π)
    (es : List (Effect π)) (i : Choice) : Bool :=
  k.command.number? == none ||
    match e, i with
    | .shouldSendMessage, .ok => s.operationStatus == .inProgress
    | .sendMessage, .reply (.ack _) => ctx.operationName != .finality
    | .processResponse _ _, .throwsAfter _ lost => !k.reenters lost
    | _, .throws _ lost => ((e :: es).any fun e' => role (k, e') == .answer) == k.reenters lost
    | _, _ => true

/-- The same of the next step of task `n`. -/
def recordsOnce (ctx : Context π) (c : Config (Operation π) (Handler π) (Effect π)) (n : ℕ)
    (i : Choice) : Bool :=
  match c.pool[n]? with
  | some ⟨k, e :: es⟩ => keepsRecord ctx c.shared k e es i
  | _ => true

/-! ### Counting -/

section

variable {number : ℕ} {k : Handler π}

@[simp] theorem pendingOf_zero : pendingOf number (0 : Multiset (Handler π × Effect π)) = 0 := rfl

@[simp] theorem pendingOf_add (W V : Multiset (Handler π × Effect π)) :
    pendingOf number (W + V) = pendingOf number W + pendingOf number V := by
  simp [pendingOf]

@[simp] theorem pendingOf_cons (e : Effect π) (W : Multiset (Handler π × Effect π)) :
    pendingOf number ((k, e) ::ₘ W) = pendingOf number W +
      if k.command.number? = some number ∧ role (k, e) = .answer then 1 else 0 := by
  simp [pendingOf, Multiset.countP_cons]

@[simp] theorem pendingOf_script (es : List (Effect π)) :
    pendingOf number ((es.map (Prod.mk k) : List (Handler π × Effect π)) :
      Multiset (Handler π × Effect π)) =
      if k.command.number? = some number then tally .answer k es else 0 := by
  induction es with
  | nil => simp
  | cons e es ih =>
    rw [List.map_cons, ← Multiset.cons_coe, pendingOf_cons, ih, tally_cons]
    by_cases hk : k.command.number? = some number <;> simp [hk]

/-- Work of commands that are no requests owes no record. -/
theorem pendingOf_eq_zero {W : Multiset (Handler π × Effect π)}
    (h : ∀ w ∈ W, w.1.command.number? = none) : pendingOf number W = 0 := by
  refine Multiset.countP_eq_zero.mpr ?_
  intro w hw hpending
  rw [h w hw] at hpending
  cases hpending.1

end

/-! ### What the effects under way may be -/

/-- Only request commands send messages, and only commands that are no requests add others. -/
def Plain (w : Handler π × Effect π) : Prop :=
  match w.2 with
  | .findShard _ | .networkProtocol _ | .addRequests _ => w.1.command.number? = none
  | .add command => command.number? = none
  | .finish children => ∀ command ∈ children, command.number? = none
  | .shouldSendMessage | .sendMessage | .retry =>
    w.1.mode = .execute ∧ ∃ number node data, w.1.command = .request number node data
  | _ => True

/-- A script in which a request owes `owed` records, in effects that may be. -/
structure Owes (k : Handler π) (es : List (Effect π)) (owed : ℕ) : Prop where
  tally : k.command.number? ≠ none → tally .answer k es = owed
  plain : ∀ e ∈ es, Plain (k, e)

/-- Work in which one request owes `owed` records and no other owes any. -/
structure Owed (request : Option ℕ) (owed : ℕ) (W : Multiset (Handler π × Effect π)) : Prop where
  pending : ∀ number, pendingOf number W = if request = some number then owed else 0
  plain : ∀ w ∈ W, Plain w

variable {ctx : Context π} {k : Handler π} {es fs : List (Effect π)} {owed : ℕ}

theorem Owes.work (h : Owes k es owed) :
    Owed k.command.number? owed
      ((es.map (Prod.mk k) : List (Handler π × Effect π)) : Multiset (Handler π × Effect π)) := by
  refine ⟨?_, ?_⟩
  · intro number
    rw [pendingOf_script]
    by_cases hk : k.command.number? = some number
    · rw [if_pos hk, if_pos hk, h.tally (by simp [hk])]
    · rw [if_neg hk, if_neg hk]
  · intro w hw
    simp only [Multiset.mem_coe, List.mem_map] at hw
    obtain ⟨e, he, rfl⟩ := hw
    exact h.plain e he

/-- A task started with a script. -/
theorem Owes.job (h : Owes k es owed) : Owed k.command.number? owed (workOf [⟨k, es⟩]) := by
  simpa using h.work

theorem Owed.nothing (request : Option ℕ) :
    Owed request 0 (0 : Multiset (Handler π × Effect π)) :=
  ⟨by simp, by simp⟩

/-! ### Scripts -/

/-- Effects that end in no record owe none. -/
theorem Owes.of_idle (h : ∀ e ∈ es, role (k, e) ≠ .answer ∧ Plain (k, e)) : Owes k es 0 := by
  refine ⟨fun _ => ?_, fun e he => (h e he).2⟩
  rw [OtNode.tally, List.countP_eq_zero]
  intro e he
  simpa using (h e he).1

/-- Effects that end in no record, in front of a script. -/
theorem Owes.append (hes : Owes k es 0) (hfs : Owes k fs owed) : Owes k (es ++ fs) owed := by
  refine ⟨fun hk => by rw [tally_append, hes.tally hk, hfs.tally hk, Nat.zero_add], fun e he => ?_⟩
  rcases List.mem_append.mp he with he | he
  · exact hes.plain e he
  · exact hfs.plain e he

/-- An effect that ends in no record, in front of a script. -/
theorem Owes.cons {e : Effect π} (h : Owes k es owed) (he : role (k, e) ≠ .answer)
    (hplain : Plain (k, e)) : Owes k (e :: es) owed := by
  have hfirst : Owes k [e] 0 := .of_idle fun e' he' => by
    obtain rfl := List.mem_singleton.mp he'
    exact ⟨he, hplain⟩
  exact hfirst.append h

/-- A script that is run under a condition only. -/
theorem Owes.ite {p : Prop} [Decidable p] (hes : Owes k es owed) (hfs : Owes k fs owed) :
    Owes k (if p then es else fs) owed := by
  split
  · exact hes
  · exact hfs

theorem Owes.nil : Owes k [] 0 := .of_idle (by simp)

theorem Owes.completed (statuses : List OperationIdStatus) :
    Owes k (markOperationAsCompleted statuses) 0 :=
  .of_idle (by simp [markOperationAsCompleted, role, Plain])

theorem Owes.failed (error : OperationError) : Owes k (markOperationAsFailed error) 0 :=
  .of_idle (by simp [markOperationAsFailed, role, Plain])

theorem Owes.schedule (data : MessageData π) (nodes : List π) :
    Owes k (scheduleOperationForLeftoverNodes data nodes) 0 :=
  .of_idle (by simp [scheduleOperationForLeftoverNodes, role, Plain, Command.number?])

theorem continueSequence_owes (data : CommandData π) (sequence : List Stage) :
    Owes k [.finish (continueSequence data sequence)] 0 := by
  refine .of_idle ?_
  intro e he
  obtain rfl := List.mem_singleton.mp he
  cases sequence <;> simp [role, Plain, continueSequence, Command.number?]

/-- A command taken from the queue owes a record if it is a request. -/
theorem execute_owes (hk : k.mode = .execute) : Owes k (execute ctx k.command) 1 := by
  obtain ⟨command, retries, mode⟩ := k
  subst hk
  cases command with
  | stage name data sequence =>
    refine ⟨fun hnone => absurd rfl hnone, ?_⟩
    cases name with
    | validateAsset =>
      refine (Owes.append (.of_idle ?_) (continueSequence_owes data sequence)).plain
      cases ctx.operationName <;> simp [role, Plain]
    | localStore =>
      cases hV0 : data.isOperationV0 <;> cases hpart : data.nodePartOfShard <;>
        simp [execute, localStore, hV0, hpart, Plain]
    | _ => simp [execute, Plain, Command.number?]
  | scheduleMessages data =>
    exact ⟨fun hnone => absurd rfl hnone, by simp [execute, Plain, Command.number?]⟩
  | request number node data =>
    cases hop : ctx.operationName <;> constructor <;> simp [execute, hop, role, Plain]

/-- A command recovered owes a record if it is a request. -/
theorem recover_owes (message : String) : Owes k (recover ctx message k.command) 1 := by
  cases hcommand : k.command with
  | stage name data sequence =>
    exact ⟨fun hnone => absurd (by rw [hcommand]; rfl) hnone, by
      cases name <;> simp [recover, handleError, markOperationAsFailed, Plain]⟩
  | scheduleMessages data =>
    exact ⟨fun hnone => absurd (by rw [hcommand]; rfl) hnone, by
      simp [recover, handleError, Plain]⟩
  | request number node data =>
    exact ⟨by simp [recover, role, hcommand, Command.number?], by simp [recover, Plain]⟩

/-- What the service of an operation decides ends in no further record. -/
theorem processResponse_owes (op : OperationName) (data : MessageData π) (status : ResponseStatus)
    (completedNumber failedNumber : ℕ) :
    Owes k (processResponse op data status completedNumber failedNumber) 0 := by
  have hdetached : ∀ error, Owes k [.markOperationAsFailed error] 0 :=
    fun error => .of_idle (by simp [role, Plain])
  have hminAcks : Owes k [.updateMinAcksReached] 0 := .of_idle (by simp [role, Plain])
  have haccess : Owes k [.access] 0 := .of_idle (by simp [role, Plain])
  cases op with
  | publish =>
    exact (hminAcks.ite .nil).append
      (((Owes.completed _).ite (.failed _)).ite
        ((Owes.schedule _ _).ite ((Owes.failed _).ite .nil)))
  | get => exact (Owes.completed _).ite (((Owes.schedule _ _).ite (hdetached _)).ite .nil)
  | ask =>
    exact (Owes.completed _).ite
      ((haccess.append ((Owes.schedule _ _).ite (.failed _))).ite .nil)
  | update =>
    exact (((hminAcks.ite .nil).append ((Owes.completed _).ite .nil)).append
      ((hdetached _).ite .nil)).append ((Owes.schedule _ _).ite .nil)
  | finality => exact (Owes.completed _).ite (.failed _)

/-- A reply still owes the record, but the finality command's ack. -/
theorem reply_owes {op : OperationName} {data : MessageData π} {reply : Reply} {number : ℕ}
    {node : π} (hcommand : k.command = .request number node data) (hmode : k.mode = .execute)
    (hack : ∀ accepted, reply = .ack accepted → op ≠ .finality)
    (herror : ∀ message, reply ≠ .error message) : Owes k (handleReply op data reply) 1 := by
  have hk : k.command.number? = some number := by rw [hcommand]; rfl
  cases reply with
  | busy =>
    exact ⟨by simp [handleReply, role], by simp [handleReply, Plain, hmode, hcommand]⟩
  | unknown => exact ⟨by simp [handleReply, role, hk], by simp [handleReply, Plain]⟩
  | error message => exact absurd rfl (herror message)
  | nack =>
    cases op <;>
      exact ⟨by simp [handleReply, handleNack, role, hk], by simp [handleReply, handleNack, Plain]⟩
  | ack accepted =>
    have hop := hack accepted rfl
    cases op <;> cases accepted <;> first
      | exact absurd rfl hop
      | exact ⟨by simp [handleReply, handleAck, handleNack, role, hk],
          by simp [handleReply, handleAck, handleNack, Plain]⟩

/-! ### Tasks started -/

theorem start_owes (ctx : Context π) (command : Command π) :
    Owed command.number? 1 (workOf [start ctx command]) :=
  (execute_owes (k := ⟨command, initialRetries ctx command, .execute⟩) rfl).job

theorem requeue_owes (k : Handler π) : Owed k.command.number? 1 (workOf [requeue ctx k]) :=
  (execute_owes (k := ⟨k.command, k.retries - 1, .execute⟩) rfl).job

/-- ERROR: what an error starts owes a record if the command is a request and comes back. -/
theorem onThrow_owes (ctx : Context π) (k : Handler π) (e : Effect π) (message : String)
    (lost : Bool) :
    Owed k.command.number? (k.reenters lost).toNat
      (workOf (onThrow ctx k e message lost)) := by
  have hhandled : ∀ k : Handler π, Owed k.command.number? (k.reenters lost).toNat
      (workOf (handleCommandError ctx k message lost)) := by
    intro k
    rw [handleCommandError, Handler.reenters]
    cases k.mode with
    | recover | detached => exact Owed.nothing _
    | execute | caught =>
      cases lost with
      | true => exact Owed.nothing _
      | false =>
        simp only [Bool.false_eq_true, if_false]
        split
        · exact requeue_owes k
        · exact (recover_owes (k := { k with mode := .recover message }) message).job
  unfold onThrow
  split
  · exact hhandled k
  · next hcommand _ _ =>
    have hcaught : Owes { k with mode := .caught message }
        (handleError ⟨message, .localStoreError⟩ ++ [.finish []]) 0 :=
      .of_idle (by simp [handleError, role, Plain])
    have hnone : k.command.number? = none := by rw [hcommand]; rfl
    refine ⟨fun number => ?_, hcaught.job.plain⟩
    rw [hcaught.job.pending number]
    simp [hnone]
  · simpa [Handler.reenters] using hhandled (k.thrownAt _)

/-- The requests added each owe a record. -/
theorem requests_owe (s : Operation π) (data : MessageData π) (nodes : List π) (number : ℕ) :
    pendingOf number (workOf ((requests ctx s data nodes).map (start ctx))) =
      if s.scheduled.length ≤ number ∧ number < s.scheduled.length + nodes.length then 1 else 0 := by
  rw [requests]
  generalize s.scheduled.length = base
  induction nodes generalizing base with
  | nil => simp
  | cons node nodes ih =>
    have hshift : (fun i node => Command.request (base + (i + 1)) node
        (requestData ctx.operationName data)) = fun i node => Command.request (base + 1 + i) node
        (requestData ctx.operationName data) := by
      funext i node
      rw [Nat.add_assoc, Nat.add_comm i 1]
    have hfirst := (start_owes ctx
      (.request base node (requestData ctx.operationName data))).pending number
    rw [List.mapIdx_cons, hshift, List.map_cons, ← List.singleton_append, workOf_append,
      pendingOf_add, ih]
    simp only [Nat.add_zero, Command.number?, Option.some.injEq, List.length_cons] at hfirst ⊢
    rw [hfirst]
    split <;> split <;> split <;> omega

theorem requests_plain (s : Operation π) (data : MessageData π) (nodes : List π) :
    ∀ w ∈ workOf ((requests ctx s data nodes).map (start ctx)), Plain w := by
  rintro ⟨k', e⟩ hw
  obtain ⟨t, ht, hk, he⟩ := mem_workOf hw
  obtain ⟨command, -, rfl⟩ := List.mem_map.mp ht
  obtain rfl : k' = _ := hk
  exact (execute_owes rfl).plain e he

/-! ### The invariant -/

/-- Every request has its record or is about to, and not both. -/
structure Records (s : Operation π) (W : Multiset (Handler π × Effect π)) : Prop where
  balance : ∀ number, s.recordsOf number + pendingOf number W =
    if number < s.scheduled.length then 1 else 0
  plain : ∀ w ∈ W, Plain w

variable {s s' : Operation π} {e : Effect π} {rest W : Multiset (Handler π × Effect π)}

/-- Work replaced by work in which the command owes as much. -/
theorem Records.replace (h : Records s ((k, e) ::ₘ rest)) (hresponses : s'.responses = s.responses)
    (hbatches : s'.batches = s.batches)
    (hW : Owed k.command.number? (if role (k, e) = .answer then 1 else 0) W) :
    Records s' (W + rest) := by
  refine ⟨?_, ?_⟩
  · intro number
    have hbalance := h.balance number
    rw [Operation.recordsOf, Operation.scheduled, pendingOf_cons] at hbalance
    rw [Operation.recordsOf, Operation.scheduled, hresponses, hbatches, pendingOf_add,
      hW.pending number, ← hbalance]
    by_cases hk : k.command.number? = some number <;> by_cases he : role (k, e) = .answer <;>
      simp only [hk, he, and_self, and_true, and_false, if_true, if_false] <;> omega
  · intro w hw
    rcases Multiset.mem_add.mp hw with hw | hw
    · exact hW.plain w hw
    · exact h.plain w (Multiset.mem_cons_of_mem hw)

/-- What is put in front of the rest of a task. -/
theorem Owes.todo (h : Owes k es owed) : Owed k.command.number? owed
    (((es.map (Prod.mk k) : List (Handler π × Effect π)) : Multiset (Handler π × Effect π)) +
      workOf ([] : List (Job π))) := by
  simpa using h.work

/-- What is started beside the rest of a task. -/
theorem Owed.spawned {request : Option ℕ} {jobs : List (Job π)}
    (h : Owed request owed (workOf jobs)) : Owed request owed
      (((([] : List (Effect π)).map (Prod.mk k) : List (Handler π × Effect π)) :
        Multiset (Handler π × Effect π)) + workOf jobs) := by
  simpa using h

/-- Tasks of commands that are no requests owe nothing. -/
theorem Owed.of_none {request : Option ℕ} (h : Owed none owed W) : Owed request 0 W :=
  ⟨fun number => by simp [h.pending number], h.plain⟩

/-- An effect that ends in no record, performed. -/
theorem Records.stay (h : Records s ((k, e) ::ₘ rest)) (he : role (k, e) ≠ .answer)
    (hresponses : s'.responses = s.responses) (hbatches : s'.batches = s.batches)
    (hW : Owed k.command.number? 0 W) : Records s' (W + rest) :=
  h.replace hresponses hbatches (by rwa [if_neg he])

/-- The effect that ends in the record, performed: the record is still to come. -/
theorem Records.carry (h : Records s ((k, e) ::ₘ rest)) (he : role (k, e) = .answer)
    (hresponses : s'.responses = s.responses) (hbatches : s'.batches = s.batches)
    (hW : Owed k.command.number? 1 W) : Records s' (W + rest) :=
  h.replace hresponses hbatches (by rwa [if_pos he])

/-- A batch's requests added. -/
theorem Records.add (ctx : Context π) (data : MessageData π) (nodes : List π)
    (h : Records s ((k, e) ::ₘ rest)) (he : role (k, e) ≠ .answer) :
    Records { s with batches := s.batches ++ [nodes] }
      (rest + workOf ((requests ctx s data nodes).map (start ctx))) := by
  refine ⟨?_, ?_⟩
  · intro number
    have hbalance := h.balance number
    have hscheduled : ({ s with batches := s.batches ++ [nodes] } : Operation π).scheduled.length =
        s.scheduled.length + nodes.length := by
      simp [Operation.scheduled]
    have hrecords : ({ s with batches := s.batches ++ [nodes] } : Operation π).recordsOf number =
        s.recordsOf number := rfl
    rw [pendingOf_cons, if_neg (fun hpending => he hpending.2), Nat.add_zero] at hbalance
    rw [pendingOf_add, requests_owe, ← Nat.add_assoc, hrecords, hscheduled, hbalance]
    by_cases hold : number < s.scheduled.length
    · simp [hold, Nat.not_le.mpr hold, Nat.lt_add_right _ hold]
    · simp [hold, Nat.not_lt.mp hold]
  · intro w hw
    rcases Multiset.mem_add.mp hw with hw | hw
    · exact h.plain w (Multiset.mem_cons_of_mem hw)
    · exact requests_plain s data nodes w hw

/-- The record written, and nothing of the task left that ends in another. -/
theorem Records.record {data : MessageData π} {status : ResponseStatus}
    (h : Records s ((k, .processResponse data status) ::ₘ rest)) (hW : Owed k.command.number? 0 W) :
    Records (s.createResponseRecord k.command.number? status) (W + rest) := by
  refine ⟨?_, ?_⟩
  · intro number
    have hbalance := h.balance number
    have hrecords : (s.createResponseRecord k.command.number? status).recordsOf number =
        s.recordsOf number + if k.command.number? = some number then 1 else 0 := by
      simp [Operation.recordsOf, Operation.createResponseRecord, List.countP_append,
        List.countP_singleton]
    have hscheduled : (s.createResponseRecord k.command.number? status).scheduled =
        s.scheduled := rfl
    rw [pendingOf_cons] at hbalance
    rw [pendingOf_add, hW.pending, hrecords, hscheduled, ← hbalance]
    by_cases hk : k.command.number? = some number
    · simp [hk, role]
      omega
    · simp [hk]
  · intro w hw
    rcases Multiset.mem_add.mp hw with hw | hw
    · exact hW.plain w hw
    · exact h.plain w (Multiset.mem_cons_of_mem hw)

/-- Children of a finished command that are no requests. -/
theorem children_owe {children : List (Command π)}
    (h : ∀ command ∈ children, command.number? = none) (request : Option ℕ) :
    Owed request 0 (workOf (children.map (start ctx))) := by
  refine ⟨?_, ?_⟩
  · intro number
    rw [pendingOf_eq_zero, ite_self]
    rintro ⟨k', e⟩ hw
    obtain ⟨t, ht, hk, -⟩ := mem_workOf hw
    obtain ⟨command, hmem, rfl⟩ := List.mem_map.mp ht
    obtain rfl : k' = _ := hk
    exact h command hmem
  · rintro ⟨k', e⟩ hw
    obtain ⟨t, ht, hk, he⟩ := mem_workOf hw
    obtain ⟨command, -, rfl⟩ := List.mem_map.mp ht
    obtain rfl : k' = _ := hk
    exact (execute_owes rfl).plain e he

/-- STEP: an effect performed keeps the records, if `recordsOnce` allows it. -/
theorem Records.next [DecidableEq π] {i : Choice} {todo : List (Effect π)} {spawned : List (Job π)}
    (h : Records s ((k, e) ::ₘ rest)) (hok : keepsRecord ctx s k e es i = true)
    (hp : perform ctx k e i s = some (.next s' todo spawned)) :
    Records s' ((todo.map (Prod.mk k) : List (Handler π × Effect π)) + (rest + workOf spawned)) := by
  have hplain : Plain (k, e) := h.plain _ (Multiset.mem_cons_self _ _)
  have hshuffle : ((todo.map (Prod.mk k) : List (Handler π × Effect π)) :
      Multiset (Handler π × Effect π)) + (rest + workOf spawned) =
      (todo.map (Prod.mk k) : List (Handler π × Effect π)) + workOf spawned + rest := by
    abel
  rw [hshuffle]
  cases performed_of_perform hp with
  | access | updateMinAcksReached | updateOperationIdStatus | networkSignature
  | publisherSignature => exact h.stay (by simp [role]) rfl rfl Owes.nil.todo
  | updateOperationStatus status =>
    exact h.stay (by cases status <;> simp [role]) rfl rfl Owes.nil.todo
  | findShard data minAckResponses _ =>
    refine h.stay (by simp [role]) rfl rfl (Owes.todo ?_)
    refine (Owes.of_idle ?_).ite ((continueSequence_owes _ _).cons (by simp [role]) trivial)
    simp [handleError, role, Plain]
  | localGet data sequence =>
    refine h.stay (by simp [role]) rfl rfl (Owes.todo ?_)
    exact (continueSequence_owes _ _).cons (by simp [role]) trivial
  | localHit data sequence =>
    refine h.stay (by simp [role]) rfl rfl (Owes.todo ?_)
    exact (Owes.completed _).append (.of_idle (by simp [role, Plain]))
  | networkProtocol data batchSize minAckResponses _ =>
    refine h.stay (by simp [role]) rfl rfl (Owes.todo (.of_idle ?_))
    simp [role, Plain, Command.number?]
  | add command =>
    have hcommand : command.number? = none := hplain
    exact h.stay (by simp [role]) rfl rfl (hcommand ▸ start_owes ctx command).of_none.spawned
  | addRequests data =>
    rw [List.map_nil, Multiset.coe_nil, Multiset.zero_add, Multiset.add_comm]
    exact h.add ctx data _ (by simp [role])
  | shouldSendMessage hopen =>
    obtain ⟨hmode, number, node, data, hcommand⟩ : k.mode = .execute ∧
      ∃ number node data, k.command = .request number node data := hplain
    have hsend : Owes k [.sendMessage] 1 := ⟨by simp [role], by simp [Plain, hmode, hcommand]⟩
    exact h.carry rfl rfl rfl (hsend.cons (e := .access) (by simp [role]) trivial).todo
  | shouldNotSendMessage hclosed =>
    obtain ⟨-, number, node, data, hcommand⟩ : k.mode = .execute ∧
      ∃ number node data, k.command = .request number node data := hplain
    have hopen : s.operationStatus = .inProgress := by
      simpa [keepsRecord, hcommand, Command.number?] using hok
    exact absurd hopen hclosed
  | sendFailed message =>
    obtain ⟨hmode, -⟩ : k.mode = .execute ∧
      ∃ number node data, k.command = .request number node data := hplain
    have howed := onThrow_owes ctx k .sendMessage message false
    rw [(by simp [Handler.reenters, hmode] : k.reenters false = true)] at howed
    exact h.carry rfl rfl rfl howed.spawned
  | sendMessage number node data reply hcommand hreply =>
    obtain ⟨hmode, -⟩ : k.mode = .execute ∧
      ∃ number node data, k.command = .request number node data := hplain
    refine h.carry rfl rfl rfl (reply_owes hcommand hmode ?_ hreply).todo
    rintro accepted rfl
    simpa [keepsRecord, hcommand, Command.number?] using hok
  | retry number node data hcommand => exact h.carry rfl rfl rfl (requeue_owes k).spawned
  | retryFinished number node data hcommand =>
    have hfailed : Owes k [.processResponse data .failed, .finish []] 1 :=
      ⟨fun hk => by simp [role, hk], by simp [Plain]⟩
    exact h.carry rfl rfl rfl hfailed.todo
  | processResponse data status => exact h.record (processResponse_owes _ _ _ _ _).todo
  | markOperationAsFailed error =>
    have hdetached : Owed k.command.number? 0
        (workOf [⟨{ k with mode := .detached }, markOperationAsFailed error⟩]) :=
      (Owes.failed (k := { k with mode := .detached }) error).job
    exact h.stay (by simp [role]) rfl rfl hdetached.spawned
  | finish children =>
    have hidle : role (k, Effect.finish children) ≠ .answer := by
      cases children <;> simp [role]
    exact h.stay hidle rfl rfl (children_owe hplain _).spawned

theorem cons_script (k : Handler π) (e : Effect π) (es : List (Effect π))
    (rest : Multiset (Handler π × Effect π)) :
    (k, e) ::ₘ (((es.map (Prod.mk k) : List (Handler π × Effect π)) : Multiset _) + rest) =
      (((e :: es).map (Prod.mk k) : List (Handler π × Effect π)) : Multiset _) + rest := by
  rw [List.map_cons, ← Multiset.cons_coe, Multiset.cons_add]

/-- A request's task owes its record at most once. -/
theorem Records.tally_le
    (h : Records s (((es.map (Prod.mk k) : List (Handler π × Effect π)) : Multiset _) + rest))
    {number : ℕ} (hk : k.command.number? = some number) : tally .answer k es ≤ 1 := by
  have hbalance := h.balance number
  have hissued : (if number < s.scheduled.length then 1 else 0) ≤ 1 := by
    split <;> omega
  rw [pendingOf_add, pendingOf_script, if_pos hk] at hbalance
  omega

/-- A task dropped leaves the balance alone if what is started for it owes as much. -/
theorem Records.drop
    (h : Records s (((es.map (Prod.mk k) : List (Handler π × Effect π)) : Multiset _) + rest))
    (howed : ∀ number, k.command.number? = some number → tally .answer k es = owed)
    (hW : Owed k.command.number? owed W) : Records s (rest + W) := by
  refine ⟨?_, ?_⟩
  · intro number
    have hbalance := h.balance number
    rw [pendingOf_add, pendingOf_script] at hbalance
    rw [pendingOf_add, hW.pending, ← hbalance]
    by_cases hk : k.command.number? = some number
    · rw [if_pos hk, if_pos hk, howed number hk]
      omega
    · rw [if_neg hk, if_neg hk]
      omega
  · intro w hw
    rcases Multiset.mem_add.mp hw with hw | hw
    · exact h.plain w (Multiset.mem_add.mpr (Or.inr hw))
    · exact hW.plain w hw

theorem keepsRecord_throws (ctx : Context π) (s : Operation π) (k : Handler π) (e : Effect π)
    (es : List (Effect π)) (message : String) (lost : Bool) :
    keepsRecord ctx s k e es (.throws message lost) = (k.command.number? == none ||
      ((e :: es).any fun e' => role (k, e') == .answer) == k.reenters lost) := by
  cases e <;> rfl

/-- STEP (errors): an error keeps the records, if `recordsOnce` allows it. -/
theorem Records.raise [DecidableEq π] {i : Choice} {spawned : List (Job π)}
    (hop : ctx.operationName ≠ .update)
    (h : Records s ((k, e) ::ₘ
      (((es.map (Prod.mk k) : List (Handler π × Effect π)) : Multiset _) + rest)))
    (hok : keepsRecord ctx s k e es i = true)
    (hp : perform ctx k e i s = some (.raise s' spawned)) : Records s' (rest + workOf spawned) := by
  have hplain : Plain (k, e) := h.plain _ (Multiset.mem_cons_self _ _)
  have hall := h
  rw [cons_script] at hall
  cases raised_of_perform hop hp with
  | environment e message lost =>
    refine hall.drop (fun number hk => ?_) (onThrow_owes ctx k e message lost)
    have hone := hall.tally_le hk
    have hany : ((e :: es).any fun e' => role (k, e') == .answer) = k.reenters lost := by
      simpa [keepsRecord_throws, hk] using hok
    rw [← hany]
    cases hanswer : (e :: es).any fun e' => role (k, e') == .answer with
    | true =>
      obtain ⟨e', he', hrole⟩ := List.any_eq_true.mp hanswer
      have hpos : 0 < tally .answer k (e :: es) :=
        List.countP_pos_iff.mpr ⟨e', he', by simpa using hrole⟩
      exact Nat.le_antisymm hone hpos
    | false =>
      refine List.countP_eq_zero.mpr ?_
      intro e' he'
      simpa using List.any_eq_false.mp hanswer e' he'
  | missing e message he =>
    have hnone : k.command.number? = none := by
      rcases he with ⟨data, rfl⟩ | ⟨data, rfl⟩ <;> exact hplain
    refine hall.drop (fun number hk => ?_) (onThrow_owes ctx k e message false)
    rw [hnone] at hk
    cases hk
  | recorded data status message lost =>
    -- the record is written; nothing that ends in another may be left or started
    have hrecorded := h.record (W := 0) (Owed.nothing _)
    rw [Multiset.zero_add] at hrecorded
    refine hrecorded.drop (fun number hk => ?_) (onThrow_owes ctx k _ message lost)
    have hone := hall.tally_le hk
    have hrole : role (k, Effect.processResponse data status) = .answer := by simp [role, hk]
    have hlost : k.reenters lost = false := by simpa [keepsRecord, hk] using hok
    rw [tally_cons, if_pos hrole] at hone
    rw [hlost, Bool.toNat_false]
    omega
  | inserted data stored message lost =>
    have hnone : k.command.number? = none := hplain
    have hadded := h.add ctx data (storedNodes data stored) (by simp [role])
    rw [workOf_append, ← Multiset.add_assoc]
    rw [Multiset.add_assoc] at hadded
    refine hadded.drop (fun number hk => ?_) (onThrow_owes ctx k _ message lost)
    rw [hnone] at hk
    cases hk

/-- ONE RECORD: as long as no error follows a record its command comes back from, and none precedes
    a record it does not come back from, every request has one response record at most, and at rest
    exactly one. -/
theorem one_record_per_request [DecidableEq π] (command : Command π)
    (hcommand : command.number? = none) {c : Config (Operation π) (Handler π) (Effect π)}
    (hrun : (machine ctx).Steps (fun c n i => recordsOnce ctx c n i = true) (begin ctx command) c) :
    (∀ number, c.shared.recordsOf number ≤ 1) ∧
      (c.pool = [] → ∀ number < c.shared.scheduled.length, c.shared.recordsOf number = 1) := by
  by_cases hop : ctx.operationName = .update
  · have huntouched := untouched_run hop hrun
    have hscheduled : c.shared.scheduled = [] := by
      rw [Operation.scheduled, huntouched.batches]
      rfl
    have hnone : ∀ number, c.shared.recordsOf number = 0 := by
      intro number
      rw [Operation.recordsOf, huntouched.responses]
      rfl
    refine ⟨fun number => (hnone number).trans_le (Nat.zero_le 1), ?_⟩
    intro _ number hissued
    rw [hscheduled] at hissued
    cases hissued
  have hrecords : Records c.shared c.work := by
    refine hrun.invariant (I := fun c => Records c.shared c.work) ?_ ?_
    · intro c n i c' h hok hfire
      refine (machine ctx).work_step (i := i) (J := Records)
        (G := fun s k e es _ => keepsRecord ctx s k e es i = true)
        (fun s k e es s' todo spawned rest h hok hp => h.next hok hp)
        (fun s k e es s' spawned rest h hok hp => h.raise hop hok hp) h ?_ hfire
      intro k e es hget
      simpa [recordsOnce, hget] using hok
    · have howed := start_owes ctx command
      rw [hcommand] at howed
      refine ⟨fun number => ?_, howed.plain⟩
      rw [begin, Config.work, howed.pending]
      simp [Operation.initial, Operation.recordsOf, Operation.scheduled]
  refine ⟨?_, ?_⟩
  · intro number
    have hbalance := hrecords.balance number
    have hle : (if number < c.shared.scheduled.length then 1 else 0) ≤ 1 := by split <;> omega
    omega
  · intro hrest number hissued
    have hbalance := hrecords.balance number
    rw [Config.work, hrest, workOf_nil, pendingOf_zero, if_pos hissued] at hbalance
    exact hbalance

/-- A busy reply and two errors before the record: the request is sent again each time and recorded
    once. -/
theorem one_record_after_errors :
    ∃ c, (machine ⟨.publish, 0, [1]⟩).Steps
        (fun c n i => recordsOnce ⟨.publish, 0, [1]⟩ c n i = true)
        (begin ⟨.publish, 0, [1]⟩
          (.stage .findShard (.initial "id" "root" true (some 1) (some 1)) [])) c ∧
      c.pool = [] ∧ c.shared.scheduled = [1] ∧ c.shared.recordsOf 0 = 1 := by
  have hexists : ∃ c, (machine ⟨.publish, 0, [1]⟩).Steps
      (fun c n i => recordsOnce ⟨.publish, 0, [1]⟩ c n i = true)
      (begin ⟨.publish, 0, [1]⟩
        (.stage .findShard (.initial "id" "root" true (some 1) (some 1)) [])) c ∧
      c.pool = [] ∧ c.shared.scheduled = [1] :=
    Machine.Steps.of_schedule
      (List.replicate 12 (0, Choice.ok) ++ (0, Choice.reply .busy) :: (0, .ok) ::
        (0, .throws "no address" false) :: (0, .ok) :: (0, .reply (.ack true)) ::
        (0, .throws "no space" false) :: (0, .ok) :: (0, .reply (.ack true)) ::
        List.replicate 9 (0, .ok))
      (by decide +kernel)
  obtain ⟨c, hrun, hrest, hscheduled⟩ := hexists
  exact ⟨c, hrun, hrest, hscheduled,
    (one_record_per_request _ rfl hrun).2 hrest 0 (by rw [hscheduled]; decide)⟩

/-- The cache write that follows the record fails: the request is executed again and recorded
    again. -/
theorem two_records_after_error :
    ∃ c, AnyRun ⟨.publish, 0, [1]⟩
        (.stage .findShard (.initial "id" "root" true (some 1) (some 1)) []) c ∧
      c.shared.scheduled = [1] ∧ c.shared.recordsOf 0 = 2 :=
  AnyRun.of_schedule
    (List.replicate 12 (0, Choice.ok) ++ (0, Choice.reply (.ack true)) ::
      List.replicate 3 (0, .ok) ++
      (0, Choice.throws "no space" false) :: (0, .ok) :: (0, .reply (.ack true)) ::
      List.replicate 2 (0, .ok))
    (by decide +kernel)

end OtNode
