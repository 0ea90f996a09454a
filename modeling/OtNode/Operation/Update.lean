import OtNode.Operation.Steps

/-! Update: an operation that none of its commands can carry on.

    The network and schedule commands of an update read an `operationService` that they never set,
    so they throw before a request is added. A response that is passed to the service all the same
    throws before it is recorded: the service's name is `OPERATIONS.UPDATE`, which is commented out,
    and the repositories of operations and of responses read it first. -/

namespace OtNode

open Pool

variable {π : Type} {ctx : Context π}

/-- The requests, the records of the responses and the marks of the operation are as they were. -/
structure Operation.Untouched (s s' : Operation π) : Prop where
  batches : s'.batches = s.batches
  responses : s'.responses = s.responses
  operationStatus : s'.operationStatus = s.operationStatus
  verdicts : s'.verdicts = s.verdicts

theorem Operation.Untouched.trans {s s' s'' : Operation π} (h : s.Untouched s')
    (h' : s'.Untouched s'') : s.Untouched s'' :=
  ⟨h'.batches.trans h.batches, h'.responses.trans h.responses,
    h'.operationStatus.trans h.operationStatus, h'.verdicts.trans h.verdicts⟩

variable [DecidableEq π]

/-- A step that is taken lacks nothing. -/
theorem missing_of_next {h : Handler π} {e : Effect π} {s s' : Operation π} {todo : List (Effect π)}
    {spawned : List (Job π)} (hp : perform ctx h e .ok s = some (.next s' todo spawned)) :
    missing ctx.operationName e = none := by
  unfold perform at hp
  split at hp
  · cases hp
  · next heq => cases heq
  · next heq => cases heq
  · next hnone _ _ =>
    cases hmissing : missing ctx.operationName e with
    | none => rfl
    | some message => exact absurd rfl (hnone message hmissing)

/-- STEP: a step of an update neither schedules a request, nor records a response, nor marks the
    operation. -/
theorem untouched_of_perform (hop : ctx.operationName = .update) {h : Handler π} {e : Effect π}
    {i : Choice} {s : Operation π} {o : Outcome (Operation π) (Handler π) (Effect π)}
    (hp : perform ctx h e i s = some o) : s.Untouched o.shared := by
  cases o with
  | next s' todo spawned =>
    have hmissing : i = .ok → missing ctx.operationName e = none := by
      rintro rfl
      exact missing_of_next hp
    cases performed_of_perform hp with
    | updateOperationStatus | addRequests | processResponse =>
      rw [hop] at hmissing
      cases hmissing rfl
    | _ => exact ⟨rfl, rfl, rfl, rfl⟩
  | raise s' spawned =>
    have hproceed := hp
    unfold perform at hp
    split at hp
    · cases hp
      exact ⟨rfl, rfl, rfl, rfl⟩
    · cases hp
    · cases hp
    · cases raised_of_proceed hp with
      | recorded | inserted => simp [perform, missing, hop] at hproceed
      | _ => exact ⟨rfl, rfl, rfl, rfl⟩

/-- RUN: nor does a run. -/
theorem untouched_run (hop : ctx.operationName = .update)
    {ok : Config (Operation π) (Handler π) (Effect π) → ℕ → Choice → Prop}
    {c c' : Config (Operation π) (Handler π) (Effect π)} (hrun : (machine ctx).Steps ok c c') :
    c.shared.Untouched c'.shared := by
  induction hrun with
  | refl => exact ⟨rfl, rfl, rfl, rfl⟩
  | tail _ _ hfire ih =>
    refine ih.trans ?_
    obtain ⟨k, e, es, -, ⟨s, todo, spawned, hp, rfl⟩ | ⟨s, spawned, hp, rfl⟩⟩ :=
      Machine.fire_cases hfire <;> exact untouched_of_perform hop hp

/-- A run of an operation from commands that the executor has in its queue, in which any call may
    fail at any point. -/
def QueuedRun (ctx : Context π) (commands : List (Command π))
    (c : Config (Operation π) (Handler π) (Effect π)) : Prop :=
  (machine ctx).Steps (fun _ _ _ => True)
    ⟨Operation.initial ctx.operationName, commands.map (start ctx)⟩ c

/-- What an update owes once its requests are answered: no node got two requests, and the operation
    was marked once, and completed exactly when the minimum succeeded. -/
structure UpdateSettled (minAckResponses : ℕ) (s : Operation π) : Prop where
  once : ∀ node, s.scheduled.count node ≤ 1
  verdict : ∃ status, s.verdicts = [status] ∧ status ≠ .inProgress ∧
    (status = .completed ↔ minAckResponses ≤ s.completedNumber)

/-- RUN (verdict): whatever an update starts with, it is not marked. -/
theorem not_updateSettled_run (hop : ctx.operationName = .update) {commands : List (Command π)}
    {c : Config (Operation π) (Handler π) (Effect π)} (hrun : QueuedRun ctx commands c)
    (minAckResponses : ℕ) : ¬ UpdateSettled minAckResponses c.shared := by
  rintro ⟨-, status, hverdicts, -⟩
  rw [(untouched_run hop hrun).verdicts] at hverdicts
  cases hverdicts

/-- NEVER: an update whose leftover list is to be scheduled comes to rest, with every call
    succeeding that can. Whatever commands it starts with, the schedule command and any requests,
    and whatever the nodes answer, no request is scheduled, no response counts and the operation is
    not marked. -/
theorem update_never_settled (hop : ctx.operationName = .update) :
    (∀ data : MessageData π, ∃ c, (machine ctx).Steps (fun _ _ i => i.isSound = true)
        (begin ctx (.scheduleMessages data)) c ∧ c.pool = []) ∧
      ∀ (commands : List (Command π)) c, QueuedRun ctx commands c →
        c.shared.scheduled = [] ∧ c.shared.responses = [] ∧
          ∀ minAckResponses, ¬ UpdateSettled minAckResponses c.shared := by
  constructor
  · intro data
    obtain ⟨op, self, nodes⟩ := ctx
    subst hop
    have hrun : (machine ⟨.update, self, nodes⟩).run (fun _ _ i => i.isSound)
        (begin ⟨.update, self, nodes⟩ (.scheduleMessages data)) (List.replicate 3 (0, Choice.ok)) =
        some ⟨{ Operation.initial .update with
          operationIdStatus := .failed,
          operationIdData := some
            ⟨"Cannot read properties of undefined (reading 'getOperationName')",
              .updateStartError⟩ }, []⟩ := rfl
    exact ⟨_, Machine.Steps.of_run hrun, rfl⟩
  · intro commands c hrun
    have huntouched := untouched_run hop hrun
    refine ⟨?_, huntouched.responses, not_updateSettled_run hop hrun⟩
    rw [Operation.scheduled, huntouched.batches]
    rfl

/-- A leftover list of two nodes in one batch. -/
def updateOfTwo : MessageData ℕ := ⟨"operation", "assertion", none, 2, 1, [1, 2], 2⟩

/-- The schedule command of two nodes, and the request to one of them. -/
def updateCommands : List (Command ℕ) :=
  [.scheduleMessages updateOfTwo, .request 0 1 (requestData .update updateOfTwo)]

theorem update_never_settled_two_nodes :
    (∃ c, (machine ⟨.update, 0, [1, 2]⟩).Steps (fun _ _ i => i.isSound = true)
        (begin ⟨.update, 0, [1, 2]⟩ (.scheduleMessages updateOfTwo)) c ∧ c.pool = []) ∧
      ∀ c, QueuedRun ⟨.update, 0, [1, 2]⟩ updateCommands c →
        c.shared.scheduled = [] ∧ c.shared.responses = [] ∧ ¬ UpdateSettled 1 c.shared := by
  have hrest : ∃ c, (machine ⟨.update, 0, [1, 2]⟩).Steps (fun _ _ i => i.isSound = true)
      (begin ⟨.update, 0, [1, 2]⟩ (.scheduleMessages updateOfTwo)) c ∧ c.pool = [] :=
    (update_never_settled rfl).1 updateOfTwo
  refine ⟨hrest, ?_⟩
  intro c hrun
  obtain ⟨hscheduled, hresponses, hsettled⟩ := (update_never_settled rfl).2 updateCommands c hrun
  exact ⟨hscheduled, hresponses, hsettled 1⟩

/-- COUNTEREXAMPLE: the schedule command fails, and so does a request that its node acks: the update
    is at rest and not marked. -/
theorem update_unsettled :
    ∃ c, QueuedRun ⟨.update, 0, [1, 2]⟩ updateCommands c ∧ c.pool = [] ∧
      c.shared.operationStatus = .inProgress ∧ ¬ UpdateSettled 1 c.shared := by
  have hexists : ∃ c, (machine ⟨.update, 0, [1, 2]⟩).Steps (fun _ _ _ => true = true)
      ⟨Operation.initial .update, updateCommands.map (start ⟨.update, 0, [1, 2]⟩)⟩ c ∧
      c.pool = [] :=
    Machine.Steps.of_schedule
      -- the schedule command, the four executions of the request, and the recovery of each
      (List.replicate 2 (0, Choice.ok) ++
        [(0, Choice.ok), (0, .reply (.ack true)), (0, .ok), (0, .ok), (0, .ok)] ++
        (List.replicate 3 [(0, Choice.ok), (0, .reply (.ack true)), (0, .ok), (0, .ok)]).flatten ++
        [(0, Choice.ok)])
      (by decide +kernel)
  obtain ⟨c, hrun, hrest⟩ := hexists
  have hqueued : QueuedRun ⟨.update, 0, [1, 2]⟩ updateCommands c := hrun.mono fun _ _ _ _ => trivial
  exact ⟨c, hqueued, hrest, (untouched_run rfl hqueued).operationStatus,
    not_updateSettled_run rfl hqueued 1⟩

end OtNode
