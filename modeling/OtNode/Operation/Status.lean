import OtNode.Finalization.Machine
import OtNode.Lib.Status
import OtNode.Operation.Receiver
import OtNode.Operation.Steps

/-! The status of an operation id: when a terminal status is final.

    `updateOperationIdStatus` has no guard, so a status written late overwrites a terminal one. On the
    sender, on a receiver and during a finalisation alike, a terminal status stays as long as it is
    written after every other status that is under way, and nothing that writes one is started
    later. -/

namespace OtNode

open Pool

/-! ### Statuses of operation ids -/

section

variable {σ κ ε ι : Type}

/-- The status of an operation id: how it is read off the state, which status an effect writes, and
    which steps start effects that write. -/
def idStatus (read : σ → Option OperationIdStatus) (writes : κ → ε → Option OperationIdStatus)
    (starts : κ → ε → ι → σ → Bool) : Status σ κ ε ι where
  terminal s := (read s).any (·.isTerminal)
  announces k e := (writes k e).any (!·.isTerminal)
  closes k e := (writes k e).any (·.isTerminal)
  starts := starts

theorem idStatus_tracks {M : Machine σ κ ε ι} {read : σ → Option OperationIdStatus}
    {writes : κ → ε → Option OperationIdStatus} {starts : κ → ε → ι → σ → Bool}
    (hread : ∀ {k e i s o}, M.perform k e i s = some o → read o.shared = read s ∨
      (read s = none ∧ (read o.shared).any (·.isTerminal) = false) ∨
        ∃ status, writes k e = some status ∧ read o.shared = some status)
    (hstarts : ∀ {k e i s o}, M.perform k e i s = some o → starts k e i s = false →
      o.Each (fun _ => True) (idStatus read writes starts).Silent k) :
    (idStatus read writes starts).Tracks M where
  keeps := by
    intro k e i s o hp hsilent hterminal
    rcases hread hp with hsame | ⟨hnone, -⟩ | ⟨status, hwrites, hstatus⟩
    · simpa [idStatus, hsame] using hterminal
    · simp [idStatus, hnone] at hterminal
    · simpa [idStatus, hwrites, hstatus] using hsilent
  closes := by
    intro k e i s o hp hopen hterminal
    rcases hread hp with hsame | ⟨-, hfresh⟩ | ⟨status, hwrites, hstatus⟩
    · simp [idStatus, hsame] at hterminal hopen
      exact absurd hterminal (by simpa using hopen)
    · exact absurd hterminal (by simp [idStatus, hfresh])
    · simpa [idStatus, hwrites, hstatus] using hterminal
  starts := hstarts

end

/-! ### The sender -/

variable {π : Type}

/-- Who writes the sender's record: the controller the request came in through, in its `try` block
    or after its `catch`, and the commands of the operation. -/
inductive Writer (π : Type) where
  | controller (caught : Bool)
  | command (handler : Handler π)
  deriving DecidableEq

/-- What a controller writes once the first command is added, and what it fails the operation with.
    A finality operation is not requested: it goes on from the finalisation of a publish. -/
def controller : OperationName → Option (List OperationIdStatus × OperationError)
  | .publish =>
    some ([], ⟨"Unable to publish data, Failed to process input data!", .publishRouteError⟩)
  | .get => some ([.getInitEnd], ⟨"Unable to get data, Failed to process input data!", .getRouteError⟩)
  | .ask => some ([.askEnd], ⟨"Unable to check ask, Failed to process input data!", .askError⟩)
  | .update =>
    some ([], ⟨"Unable to update data, Failed to process input data!", .updateRouteError⟩)
  | .finality => none

/-- What an error in a controller starts: `markOperationAsFailed`, whose own errors are lost. -/
def controllerCaught (op : OperationName) (caught : Bool) : List (Task (Writer π) (Effect π)) :=
  match controller op, caught with
  | some (_, error), false => [⟨.controller true, markOperationAsFailed error⟩]
  | _, _ => []

/-- What an awaited step of a writer leads to. -/
def writerPerform [DecidableEq π] (ctx : Context π) (w : Writer π) (e : Effect π) (i : Choice)
    (s : Operation π) : Option (Outcome (Operation π) (Writer π) (Effect π)) :=
  match w, e, i with
  | .command h, e, i => (perform ctx h e i s).map (Outcome.mapOwner Writer.command)
  | .controller _, .access, .ok => some (.next s [] [])
  | .controller _, .add command, .ok =>
    some (.next s [] [(start ctx command).mapOwner Writer.command])
  | .controller _, .updateOperationIdStatus status error, .ok =>
    some (.next { s with operationIdStatus := status,
                         operationIdData := error.orElse fun _ => s.operationIdData } [] [])
  | .controller _, .updateOperationStatus status, .ok =>
    some (.next { s with operationStatus := status, verdicts := s.verdicts ++ [status] } [] [])
  | .controller caught, _, .throws _ _ => some (.raise s (controllerCaught ctx.operationName caught))
  | .controller _, _, _ => none

/-- A sender as a machine. -/
def senderMachine [DecidableEq π] (ctx : Context π) :
    Machine (Operation π) (Writer π) (Effect π) Choice := ⟨writerPerform ctx⟩

/-- An operation as its controller, or the finalisation before it, starts it. -/
def accept (ctx : Context π) (command : Command π) :
    Config (Operation π) (Writer π) (Effect π) :=
  ⟨Operation.initial ctx.operationName,
    match controller ctx.operationName with
    | some (events, _) => [⟨.controller false,
        [.access, .add command] ++ events.map (Effect.updateOperationIdStatus · none)⟩]
    | none => [(start ctx command).mapOwner Writer.command]⟩

/-- The status an effect of the sender writes. -/
def Effect.writes : Effect π → Option OperationIdStatus
  | .updateOperationIdStatus status _ => some status
  | _ => none

/-- An effect that writes a status that is not terminal. -/
def Effect.announces (e : Effect π) : Bool := e.writes.any (!·.isTerminal)

/-- The commands that write statuses of their own: all but the network command and the requests. -/
def Command.announces : Command π → Bool
  | .stage .networkProtocol _ _ => false
  | .stage _ _ _ => true
  | .scheduleMessages _ => true
  | .request _ _ _ => false

/-- What an error starts writes a status that is not terminal: a command with such statuses is
    executed again. -/
def throwAnnounces (ctx : Context π) (h : Handler π) (e : Effect π) (message : String)
    (lost : Bool) : Bool :=
  (onThrow ctx h e message lost).any fun t => t.script.any Effect.announces

/-- The steps of a command that lacks nothing and starts effects writing statuses that are not
    terminal: enough nodes are found, a local get is made, a command with statuses of its own is
    added or executed again, or a response completes the operation. -/
def proceedsToAnnounce [DecidableEq π] (ctx : Context π) (h : Handler π) (e : Effect π) (i : Choice)
    (s : Operation π) : Bool :=
  match e, i with
  | .findShard data, .ok =>
    match getMinAckResponses ctx.operationName data.minimumNumberOfNodeReplications with
    | some minAckResponses => decide (minAckResponses ≤ numberOfFoundNodes ctx)
    | none => throwAnnounces ctx h e "getMinAckResponses not implemented" false
  | .localGet _ _, .ok | .localGet _ _, .hit => true
  | .networkProtocol data, .ok =>
    match getBatchSize ctx.operationName data.batchSize,
        getMinAckResponses ctx.operationName data.minimumNumberOfNodeReplications with
    | some _, some _ => false
    | none, _ => throwAnnounces ctx h e
        "Cannot read properties of undefined (reading 'getBatchSize')" false
    | some _, none => throwAnnounces ctx h e "getMinAckResponses not implemented" false
  | .add command, .ok => command.announces
  | .finish children, .ok => children.any Command.announces
  | .processResponse data status, .ok =>
    let s' := s.createResponseRecord h.command.number? status
    (processResponse ctx.operationName data status s'.completedNumber s'.failedNumber).any
      Effect.announces
  | _, .throws message lost | _, .throwsAfter message lost | _, .inserts _ message lost =>
    throwAnnounces ctx h e message lost
  | _, .reply (.error message) => throwAnnounces ctx h e message false
  | _, _ => false

/-- The steps of a sender that start effects writing statuses that are not terminal. -/
def announcesLater [DecidableEq π] (ctx : Context π) :
    Writer π → Effect π → Choice → Operation π → Bool
  | .controller _, .add command, .ok, _ => command.announces
  | .controller _, _, _, _ => false
  | .command h, e, i, s =>
    match missing ctx.operationName e, i with
    | some message, .ok => throwAnnounces ctx h e message false
    | _, _ => proceedsToAnnounce ctx h e i s

/-- The status of the sender's operation id. -/
def senderStatus [DecidableEq π] (ctx : Context π) :
    Status (Operation π) (Writer π) (Effect π) Choice :=
  idStatus (fun s => some s.operationIdStatus) (fun _ e => e.writes) (announcesLater ctx)

/-- EFFECTS: only an update writes the status. -/
theorem operationIdStatus_of_perform [DecidableEq π] {ctx : Context π} {h : Handler π}
    {e : Effect π} {i : Choice} {s : Operation π}
    {o : Outcome (Operation π) (Handler π) (Effect π)} (hp : perform ctx h e i s = some o) :
    o.shared.operationIdStatus = s.operationIdStatus ∨
      ∃ status, e.writes = some status ∧ o.shared.operationIdStatus = status := by
  cases o with
  | next s' todo spawned =>
    cases performed_of_perform hp with
    | updateOperationIdStatus status error => exact Or.inr ⟨status, rfl, rfl⟩
    | _ => exact Or.inl rfl
  | raise s' spawned =>
    unfold perform at hp
    split at hp
    · cases hp
      exact Or.inl rfl
    · cases hp
    · cases hp
    · cases raised_of_proceed hp <;> exact Or.inl rfl

theorem execute_silent {ctx : Context π} {command : Command π} (h : command.announces = false) :
    ∀ e ∈ execute ctx command, e.announces = false := by
  cases command with
  | stage name data sequence =>
    cases name with
    | networkProtocol => simp [execute, Effect.announces, Effect.writes]
    | _ => simp [Command.announces] at h
  | scheduleMessages data => simp [Command.announces] at h
  | request number node data =>
    rw [execute]
    split <;> simp [Effect.announces, Effect.writes]

/-- An effect of the sender that writes no status but a terminal one. -/
def Effect.Silent (_ : Handler π) (e : Effect π) : Prop := e.announces = false

theorem each_start {ctx : Context π} {commands : List (Command π)}
    (h : ∀ c ∈ commands, c.announces = false) :
    Each (fun _ => True) Effect.Silent (commands.map (start ctx)) := by
  intro t ht
  obtain ⟨c, hc, rfl⟩ := List.mem_map.mp ht
  exact ⟨trivial, execute_silent (h c hc)⟩

theorem each_requests [DecidableEq π] {ctx : Context π} {s : Operation π} {data : MessageData π}
    {nodes : List π} :
    Each (fun _ => True) Effect.Silent ((requests ctx s data nodes).map (start ctx)) := by
  refine each_start ?_
  intro c hc
  obtain ⟨i, hi, rfl⟩ := List.mem_mapIdx.mp hc
  rfl

theorem each_onThrow {ctx : Context π} {h : Handler π} {e : Effect π} {message : String}
    {lost : Bool} (hthrow : throwAnnounces ctx h e message lost = false) :
    Each (fun _ => True) Effect.Silent (onThrow ctx h e message lost) := by
  intro t ht
  refine ⟨trivial, ?_⟩
  intro e' he'
  simp only [throwAnnounces, List.any_eq_false, Bool.not_eq_true] at hthrow
  exact hthrow t ht e' he'

theorem reply_silent (op : OperationName) (data : MessageData π) (reply : Reply) :
    ∀ e ∈ handleReply op data reply, e.announces = false := by
  cases reply with
  | ack accepted =>
    cases op <;> cases accepted <;> simp [handleReply, handleAck, handleNack, Effect.announces,
      Effect.writes, OperationIdStatus.isTerminal]
  | nack =>
    cases op <;> simp [handleReply, handleNack, Effect.announces, Effect.writes,
      OperationIdStatus.isTerminal]
  | _ => simp [handleReply, Effect.announces, Effect.writes]

/-- STEP: a step that lacks nothing and does not announce later starts nothing that writes a status
    that is not terminal. -/
theorem silent_of_proceed [DecidableEq π] {ctx : Context π} {h : Handler π} {e : Effect π}
    {i : Choice} {s : Operation π} {o : Outcome (Operation π) (Handler π) (Effect π)}
    (hp : proceed ctx h e i s = some o)
    (hlater : proceedsToAnnounce ctx h e i s = false) :
    o.Each (fun _ => True) Effect.Silent h := by
  have hnone : Each (fun _ => True) Effect.Silent ([] : List (Job π)) := by simp [Each]
  cases o with
  | next s' todo spawned =>
    cases performed_of_proceed hp with
    | findShard data minAckResponses hmin =>
      simp only [proceedsToAnnounce, hmin, decide_eq_false_iff_not, not_le] at hlater
      refine ⟨?_, hnone⟩
      rw [findShard, if_pos hlater]
      simp [handleError, Effect.Silent, Effect.announces, Effect.writes,
        OperationIdStatus.isTerminal]
    | localGet | localHit => simp [proceedsToAnnounce] at hlater
    | add command =>
      have hadded : ∀ c ∈ [command], c.announces = false := by
        simpa [proceedsToAnnounce] using hlater
      exact ⟨by simp, each_start hadded⟩
    | addRequests data => exact ⟨by simp, each_requests⟩
    | sendFailed message =>
      exact ⟨by simp, each_onThrow (by simpa [proceedsToAnnounce] using hlater)⟩
    | sendMessage number node data reply hcommand hreply =>
      exact ⟨reply_silent ctx.operationName data reply, hnone⟩
    | retry number node data hcommand =>
      refine ⟨by simp, ?_⟩
      intro t ht
      obtain rfl := List.mem_singleton.mp ht
      exact ⟨trivial, execute_silent (by simp [hcommand, Command.announces])⟩
    | processResponse data status =>
      refine ⟨?_, hnone⟩
      simpa [proceedsToAnnounce, Effect.Silent] using hlater
    | markOperationAsFailed error =>
      refine ⟨by simp, ?_⟩
      simp [Each, markOperationAsFailed, Effect.Silent, Effect.announces, Effect.writes,
        OperationIdStatus.isTerminal]
    | finish children =>
      exact ⟨by simp, each_start (by simpa [proceedsToAnnounce] using hlater)⟩
    | _ => exact ⟨by simp [Effect.Silent, Effect.announces, Effect.writes], hnone⟩
  | raise s' spawned =>
    cases raised_of_proceed hp with
    | environment e message lost => exact each_onThrow (by simpa [proceedsToAnnounce] using hlater)
    | missing e message he =>
      rcases he with ⟨data, rfl⟩ | ⟨data, rfl⟩
      · simp only [proceed] at hp
        split at hp
        · next hmin =>
          simp only [proceedsToAnnounce, hmin] at hlater
          rw [Option.some.injEq, Outcome.raise.injEq] at hp
          rw [Outcome.Each, ← hp.2]
          exact each_onThrow hlater
        · simp at hp
      · simp only [proceed] at hp
        split at hp
        · simp at hp
        · next hsize =>
          simp only [proceedsToAnnounce, hsize] at hlater
          rw [Option.some.injEq, Outcome.raise.injEq] at hp
          rw [Outcome.Each, ← hp.2]
          exact each_onThrow hlater
        · next batchSize hsize hmin =>
          simp only [proceedsToAnnounce, hsize, hmin] at hlater
          rw [Option.some.injEq, Outcome.raise.injEq] at hp
          rw [Outcome.Each, ← hp.2]
          exact each_onThrow hlater
    | recorded data status message lost =>
      exact each_onThrow (by simpa [proceedsToAnnounce] using hlater)
    | inserted data stored message lost =>
      exact each_requests.append (each_onThrow (by simpa [proceedsToAnnounce] using hlater))

/-- STEP: a step that does not announce later starts nothing that writes a status that is not
    terminal. -/
theorem silent_of_perform [DecidableEq π] {ctx : Context π} {h : Handler π} {e : Effect π}
    {i : Choice} {s : Operation π} {o : Outcome (Operation π) (Handler π) (Effect π)}
    (hp : perform ctx h e i s = some o)
    (hlater : announcesLater ctx (.command h) e i s = false) :
    o.Each (fun _ => True) Effect.Silent h := by
  cases hmissing : missing ctx.operationName e with
  | none =>
    rw [perform_eq_proceed hmissing] at hp
    simp only [announcesLater, hmissing] at hlater
    exact silent_of_proceed hp hlater
  | some message =>
    simp only [announcesLater, hmissing] at hlater
    cases i with
    | ok =>
      simp only [perform, hmissing, Option.some.injEq] at hp
      exact hp ▸ each_onThrow hlater
    | throwsAfter | inserts => simp [perform, hmissing] at hp
    | _ => exact silent_of_proceed (by simpa only [perform, hmissing] using hp) hlater

/-- The sender's status is written and announced as `senderStatus` says. -/
theorem senderStatus_tracks [DecidableEq π] (ctx : Context π) :
    (senderStatus ctx).Tracks (senderMachine ctx) := by
  refine idStatus_tracks ?_ ?_
  · rintro (caught | h) e i s o hp
    · cases e <;> cases i <;> simp [senderMachine, writerPerform] at hp <;> subst hp <;>
        first
        | exact Or.inl rfl
        | exact Or.inr (Or.inr ⟨_, rfl, rfl⟩)
    · obtain ⟨o', hp', rfl⟩ := Option.map_eq_some_iff.mp hp
      rw [Outcome.mapOwner_shared]
      rcases operationIdStatus_of_perform hp' with hsame | ⟨status, hwrites, hstatus⟩
      · exact Or.inl (congrArg some hsame)
      · exact Or.inr (Or.inr ⟨status, hwrites, congrArg some hstatus⟩)
  · rintro (caught | h) e i s o hp hlater
    · have hcaught : Each (fun _ => True) (senderStatus ctx).Silent
          (controllerCaught ctx.operationName caught) := by
        unfold controllerCaught
        split
        · simp [Each, markOperationAsFailed, Status.Silent, senderStatus, idStatus, Effect.writes,
            OperationIdStatus.isTerminal]
        · simp [Each]
      cases e with
      | add command =>
        cases i <;> simp [senderMachine, writerPerform] at hp <;> subst hp
        · refine ⟨by simp, ?_⟩
          simp only [Each, List.mem_singleton, forall_eq, true_and]
          exact execute_silent (by simpa [announcesLater] using hlater)
        · exact hcaught
      | _ =>
        cases i <;> simp [senderMachine, writerPerform] at hp <;> subst hp <;>
          first
          | exact hcaught
          | exact ⟨by simp, by simp [Each]⟩
    · obtain ⟨o', hp', rfl⟩ := Option.map_eq_some_iff.mp hp
      exact (silent_of_perform hp' hlater).mapOwner

/-! ### The receiver -/

/-- The status an effect of a receiver writes, awaited or not. -/
def RemoteEffect.writes : RemoteEffect → Option OperationIdStatus
  | .updateOperationIdStatus status _ => some status
  | .announce status => some status
  | _ => none

/-- An effect that writes a status that is not terminal. -/
def RemoteEffect.announces (e : RemoteEffect) : Bool := e.writes.any (!·.isTerminal)

/-- The steps of a receiver that start effects writing statuses that are not terminal: an event is
    announced, the answer is found, the `try` block is left, or a command is added or executed
    again. -/
def remoteAnnouncesLater (h : RemoteHandler) (e : RemoteEffect) (i : RemoteChoice) (_ : Remote) :
    Bool :=
  match e, i with
  | .announce status, .ok => !status.isTerminal
  | .consult, .answers _ | .saveFinalityAck, _ | .leave, .ok => true
  | .retry, .ok => decide (1 < h.retries)
  | .finish children, .ok => !children.isEmpty
  | _, .throws message lost =>
    (onRemoteThrow h message lost).any fun t => t.script.any RemoteEffect.announces
  | _, _ => false

/-- The status of the operation id on a receiver. -/
def remoteStatus : Status Remote RemoteHandler RemoteEffect RemoteChoice :=
  idStatus (fun s => s.record.map (·.status)) (fun _ e => e.writes) remoteAnnouncesLater

/-- The receiver's status is written and announced as `remoteStatus` says. -/
theorem remoteStatus_tracks : remoteStatus.Tracks remoteMachine := by
  refine idStatus_tracks ?_ ?_
  · intro h e i s o hp
    rcases record_of_remotePerform hp with hsame | ⟨status, failure, rfl, hrecord⟩
    · exact Or.inl (by rw [hsame])
    · cases hr : s.record with
      | none => exact Or.inl (by rw [hrecord, hr]; rfl)
      | some record => exact Or.inr (Or.inr ⟨status, rfl, by rw [hrecord, hr]; rfl⟩)
  · intro h e i s o hp hlater
    have hnone : Each (fun _ => True) remoteStatus.Silent ([] : List RemoteJob) := by simp [Each]
    cases i with
    | throws message lost =>
      have hthrow : (onRemoteThrow h message lost).any
          (fun t => t.script.any RemoteEffect.announces) = false →
          Each (fun _ => True) remoteStatus.Silent (onRemoteThrow h message lost) := by
        intro hany t ht
        refine ⟨trivial, ?_⟩
        intro e he
        simp only [List.any_eq_false, Bool.not_eq_true] at hany
        exact hany t ht e he
      cases e <;> simp [remoteMachine, remotePerform] at hp <;> subst hp <;>
        first
        | exact hthrow hlater
        | simp [remoteAnnouncesLater] at hlater
    | answers messageType =>
      cases e <;> simp [remoteMachine, remotePerform] at hp
      simp [remoteAnnouncesLater] at hlater
    | ok =>
      cases e with
      | announce status =>
        simp only [remoteMachine, remotePerform, Option.some.injEq] at hp
        subst hp
        refine ⟨by simp, ?_⟩
        simpa [Each, Status.Silent, remoteStatus, idStatus, RemoteCommand.update,
          RemoteEffect.writes, remoteAnnouncesLater] using hlater
      | retry =>
        simp only [remoteMachine, remotePerform, Option.some.injEq] at hp
        subst hp
        refine ⟨by simp, ?_⟩
        rw [if_neg (by simpa [remoteAnnouncesLater] using hlater)]
        exact hnone
      | finish children =>
        simp only [remoteMachine, remotePerform, Option.some.injEq] at hp
        subst hp
        refine ⟨by simp, ?_⟩
        have hempty : children = [] := by simpa [remoteAnnouncesLater] using hlater
        rw [hempty]
        exact hnone
      | saveFinalityAck | leave => simp [remoteAnnouncesLater] at hlater
      | consult => simp [remoteMachine, remotePerform] at hp
      | _ =>
        simp only [remoteMachine, remotePerform, Option.some.injEq] at hp
        subst hp
        exact ⟨by simp, hnone⟩

/-! ### The finalisation -/

variable {α : Type}

/-- The status an effect of a finalisation writes to the record of operation id `n`. -/
def FinalizationEffect.writes (n : ℕ) : FinalizationEffect α → Option OperationIdStatus
  | .updateOperationIdStatus operationId status _ => if operationId = n then status else none
  | _ => none

/-- An effect that writes a status that is not terminal to the record of operation id `n`. -/
def FinalizationEffect.announces (n : ℕ) (e : FinalizationEffect α) : Bool :=
  (e.writes n).any (!·.isTerminal)

/-- The steps of a finalisation that start effects writing statuses that are not terminal: a command
    with such statuses is executed, or its `try` block is entered or left. -/
def finalizationAnnouncesLater (ctx : FinalizationContext α) (n : ℕ) (h : FinalizationHandler α)
    (e : FinalizationEffect α) (i : FinalizationChoice) (_ : Finalization α) : Bool :=
  match e, i with
  | .execute, .ok => h.command.execute.any (FinalizationEffect.announces n)
  | .enter, .ok => (h.command.tryBlock ctx).any (FinalizationEffect.announces n)
  | .leave, .ok => (h.command.closing ctx).any (FinalizationEffect.announces n)
  | _, _ => false

/-- The status of operation id `n` of a finalisation. -/
def finalizationStatus (ctx : FinalizationContext α) (n : ℕ) :
    Status (Finalization α) (FinalizationHandler α) (FinalizationEffect α) FinalizationChoice :=
  idStatus (fun s => s.records[n]?.map (·.status)) (fun _ e => e.writes n)
    (finalizationAnnouncesLater ctx n)

/-- What an error starts in a finalisation writes no status but a terminal one. -/
theorem onFinalizationThrow_silent (ctx : FinalizationContext α) (n : ℕ)
    (h : FinalizationHandler α) (message : String) (lost : Bool) :
    Each (fun _ => True) (finalizationStatus ctx n).Silent (onFinalizationThrow h message lost) := by
  have hfailed : ∀ k name data, (finalizationStatus ctx n).Silent k
      (FinalizationCommand.handleError name data message) := by
    intro k name data
    rw [Status.Silent, finalizationStatus, idStatus, FinalizationCommand.handleError]
    dsimp only [FinalizationEffect.writes]
    split <;> rfl
  have hfinish : ∀ k, (finalizationStatus ctx n).Silent k (.finish []) := fun _ => rfl
  have hexecute : ∀ k, (finalizationStatus ctx n).Silent k .execute := fun _ => rfl
  rw [onFinalizationThrow]
  split
  · cases h.command <;> simp [Each, FinalizationCommand.caught, hfailed, hfinish]
  · split
    · simp [Each]
    · split
      · simp [Each, FinalizationCommand.queue, hexecute]
      · cases h.command <;> simp [Each, FinalizationCommand.recover, hfailed]
  · simp [Each]
  · simp [Each]

/-- EFFECTS: only an update writes a row of a finalisation, and a new row is not terminal. -/
theorem record_of_finalizationPerform {ctx : FinalizationContext α} {n : ℕ}
    {h : FinalizationHandler α} {e : FinalizationEffect α} {i : FinalizationChoice}
    {s : Finalization α}
    {o : Outcome (Finalization α) (FinalizationHandler α) (FinalizationEffect α)}
    (hp : finalizationPerform ctx h e i s = some o) :
    o.shared.records[n]?.map (·.status) = s.records[n]?.map (·.status) ∨
      (s.records[n]?.map (·.status) = none ∧
        (o.shared.records[n]?.map (·.status)).any (·.isTerminal) = false) ∨
      ∃ status, e.writes n = some status ∧
        o.shared.records[n]?.map (·.status) = some status := by
  cases e with
  | generateOperationId =>
    cases i <;> simp only [finalizationPerform, Option.some.injEq] at hp <;> subst hp
    · rcases lt_trichotomy n s.records.length with hlt | rfl | hgt
      · exact Or.inl (by simp [Outcome.shared, List.getElem?_append_left hlt])
      · exact Or.inr (Or.inl ⟨by simp, by simp [Outcome.shared, OperationIdStatus.isTerminal]⟩)
      · have hnone : (s.records ++ [(⟨.publishFinalizationStart, none⟩ : OperationIdRecord)])[n]? =
            none := by simp; omega
        exact Or.inl (by simp [Outcome.shared, hnone, hgt.le])
    · exact Or.inl rfl
  | updateOperationIdStatus operationId status failure =>
    cases i <;> simp only [finalizationPerform, Option.some.injEq] at hp <;> subst hp
    · by_cases hid : operationId = n
      · subst hid
        cases hr : s.records[operationId]? with
        | none =>
          exact Or.inl (by simp [Outcome.shared, Finalization.updateOperationIdStatus, hr])
        | some record =>
          cases status with
          | none => exact Or.inl (by simp [Outcome.shared, Finalization.updateOperationIdStatus, hr,
              OperationIdRecord.update])
          | some status => exact Or.inr (Or.inr ⟨status, by simp [FinalizationEffect.writes],
              by simp [Outcome.shared, Finalization.updateOperationIdStatus, hr,
                OperationIdRecord.update]⟩)
      · exact Or.inl (by simp [Outcome.shared, Finalization.updateOperationIdStatus, hid])
    · exact Or.inl rfl
  | readFile operationId =>
    cases i <;> simp only [finalizationPerform, Option.some.injEq] at hp
    · split at hp
      · obtain rfl := Option.some.inj hp
        exact Or.inl rfl
      · cases hp
    · subst hp
      exact Or.inl rfl
  | _ =>
    cases i <;> simp [finalizationPerform] at hp <;> subst hp <;> exact Or.inl rfl

/-- The status of each operation id is written and announced as `finalizationStatus` says. -/
theorem finalizationStatus_tracks (ctx : FinalizationContext α) (n : ℕ) :
    (finalizationStatus ctx n).Tracks (finalizationMachine ctx) := by
  refine idStatus_tracks record_of_finalizationPerform ?_
  intro h e i s o hp hlater
  have hsilent : ∀ {es : List (FinalizationEffect α)},
      es.any (FinalizationEffect.announces n) = false →
        ∀ k, ∀ e ∈ es, (finalizationStatus ctx n).Silent k e := by
    intro es hes k e he
    simp only [List.any_eq_false, Bool.not_eq_true] at hes
    exact hes e he
  have hqueued : ∀ (cs : List (FinalizationCommand α)) (retries : FinalizationCommand α → ℕ),
      Each (fun _ => True) (finalizationStatus ctx n).Silent
        (cs.map fun c => c.queue (retries c)) := by
    intro cs retries t ht
    obtain ⟨c, -, rfl⟩ := List.mem_map.mp ht
    exact ⟨trivial, fun e he => List.mem_singleton.mp he ▸ rfl⟩
  cases i with
  | throws message lost =>
    have hthrow := onFinalizationThrow_silent ctx n h message lost
    cases e <;> simp [finalizationMachine, finalizationPerform] at hp <;> subst hp <;>
      first
      | exact hthrow
      | exact ⟨by simp [Status.Silent, idStatus, FinalizationEffect.writes],
          by simp [Each]⟩
  | ok =>
    cases e with
    | execute =>
      obtain rfl := Option.some.inj hp
      exact ⟨hsilent hlater h, by simp [Each]⟩
    | enter | leave =>
      obtain rfl := Option.some.inj hp
      refine ⟨by simp, ?_⟩
      intro t ht
      obtain rfl := List.mem_singleton.mp ht
      exact ⟨trivial, hsilent hlater _⟩
    | raised message =>
      obtain rfl := Option.some.inj hp
      exact onFinalizationThrow_silent ctx n h message false
    | readFile operationId =>
      simp only [finalizationMachine, finalizationPerform] at hp
      split at hp
      · obtain rfl := Option.some.inj hp
        exact ⟨by simp [Status.Silent, idStatus, FinalizationEffect.writes],
          by simp [Each]⟩
      · cases hp
    | retry =>
      obtain rfl := Option.some.inj hp
      refine ⟨by simp, ?_⟩
      split
      · exact hqueued [h.command] fun _ => h.retries - 1
      · simp [Each]
    | finish children =>
      obtain rfl := Option.some.inj hp
      exact ⟨by simp, hqueued children FinalizationCommand.initialRetries⟩
    | _ =>
      obtain rfl := Option.some.inj hp
      exact ⟨by simp [Status.Silent, idStatus, FinalizationEffect.writes],
        by simp [Each]⟩

/-! ### Stability -/

/-- CORRECT (a terminal status is stable): in an orderly run of a sender from its controller on, of
    the receivers of an operation id whose record is not terminal, and of a finalisation, a status
    that is `COMPLETED` or `FAILED` stays `COMPLETED` or `FAILED`. -/
theorem terminal_status_stable {π : Type} [DecidableEq π] (ctx : Context π) (command : Command π)
    (record : Option OperationIdRecord) (received : List (RemoteCommand × ℕ))
    {α : Type} (finalization : FinalizationContext α) (n : ℕ) :
    (∀ c c' : Config (Operation π) (Writer π) (Effect π),
      (senderMachine ctx).Steps (fun c n i => (senderStatus ctx).orderly c n i = true)
        (accept ctx command) c →
      (senderMachine ctx).Steps (fun c n i => (senderStatus ctx).orderly c n i = true) c c' →
      c.shared.operationIdStatus.isTerminal = true →
      c'.shared.operationIdStatus.isTerminal = true) ∧
    (∀ c c' : Config Remote RemoteHandler RemoteEffect,
      record.any (·.status.isTerminal) = false →
      remoteMachine.Steps (fun c n i => remoteStatus.orderly c n i = true)
        (receive record received) c →
      remoteMachine.Steps (fun c n i => remoteStatus.orderly c n i = true) c c' →
      c.shared.record.any (·.status.isTerminal) = true →
      c'.shared.record.any (·.status.isTerminal) = true) ∧
    (∀ c c' : Config (Finalization α) (FinalizationHandler α) (FinalizationEffect α),
      (finalizationMachine finalization).Steps
        (fun c m i => (finalizationStatus finalization n).orderly c m i = true)
        (handleKnowledgeCollectionCreatedEvent α) c →
      (finalizationMachine finalization).Steps
        (fun c m i => (finalizationStatus finalization n).orderly c m i = true) c c' →
      c.shared.records[n]?.any (·.status.isTerminal) = true →
      c'.shared.records[n]?.any (·.status.isTerminal) = true) := by
  have hread : ∀ r : Option OperationIdRecord,
      (r.map (·.status)).any (·.isTerminal) = r.any (·.status.isTerminal) := by
    rintro (_ | r) <;> rfl
  refine ⟨?_, ?_, ?_⟩
  · intro c c' hrun hmore hterminal
    have hinitial : (senderStatus ctx).terminal (accept ctx command).shared = false := by
      simp only [accept, Operation.initial, senderStatus, idStatus]
      cases ctx.operationName <;> rfl
    simpa [senderStatus, idStatus] using (senderStatus_tracks ctx).stable hinitial hrun hmore
      (by simpa [senderStatus, idStatus] using hterminal)
  · intro c c' hinitial hrun hmore hterminal
    have hstart : remoteStatus.terminal (receive record received).shared = false :=
      (hread record).trans hinitial
    have hstable := remoteStatus_tracks.stable hstart hrun hmore ((hread _).trans hterminal)
    exact (hread _).symm.trans hstable
  · intro c c' hrun hmore hterminal
    have hstart : (finalizationStatus finalization n).terminal
        (handleKnowledgeCollectionCreatedEvent α).shared = false := rfl
    have hstable := (finalizationStatus_tracks finalization n).stable hstart hrun hmore
      ((hread _).trans hterminal)
    exact (hread _).symm.trans hstable

/-- A get that completes, an acknowledgement that fails, and a finalisation whose insertion fails:
    their statuses are final. -/
theorem terminal_status_stable_three_runs :
    (∃ c c', (senderMachine (⟨.get, 0, [1]⟩ : Context ℕ)).Steps (fun c n i =>
          (senderStatus (⟨.get, 0, [1]⟩ : Context ℕ)).orderly c n i = true)
          (accept ⟨.get, 0, [1]⟩ (.stage .findShard (.initial "id" "root" false none none) [])) c ∧
        (senderMachine (⟨.get, 0, [1]⟩ : Context ℕ)).Steps (fun c n i =>
          (senderStatus (⟨.get, 0, [1]⟩ : Context ℕ)).orderly c n i = true) c c' ∧
        c.shared.operationIdStatus = .completed ∧ c'.pool = [] ∧
        c'.shared.operationIdStatus.isTerminal = true) ∧
    (∃ c c', remoteMachine.Steps (fun c n i => remoteStatus.orderly c n i = true)
          (receive (some ⟨.finalityReplicateStart, none⟩) [(.publishFinalitySaveAck, 0)]) c ∧
        remoteMachine.Steps (fun c n i => remoteStatus.orderly c n i = true) c c' ∧
        c.shared.record.map (·.status) = some .failed ∧ c'.pool = [] ∧
        c'.shared.record.any (·.status.isTerminal) = true) ∧
    ∃ (ctx : FinalizationContext ℕ) (c : _) (c' : _), (finalizationMachine ctx).Steps
          (fun c m i => (finalizationStatus ctx 0).orderly c m i = true)
          (handleKnowledgeCollectionCreatedEvent ℕ) c ∧
        (finalizationMachine ctx).Steps
          (fun c m i => (finalizationStatus ctx 0).orderly c m i = true) c c' ∧
        c.shared.records.map (·.status) = [.failed] ∧ c'.pool = [] ∧
        c'.shared.records[0]?.any (·.status.isTerminal) = true := by
  let ctx : FinalizationContext ℕ :=
    { event := ⟨"otp:2043", "0xab", "1", "publish-1", "0x01", 32⟩
      cached := ⟨"0x01", 1, none⟩
      peerId := "peer-0"
      publicPart := fun _ => .ok none
      calculateNumberOfChunks := fun n _ => .ok n }
  obtain ⟨hsender, hremote, hfinalization⟩ := terminal_status_stable (⟨.get, 0, [1]⟩ : Context ℕ)
    (.stage .findShard (.initial "id" "root" false none none) [])
    (some ⟨.finalityReplicateStart, none⟩) [(.publishFinalitySaveAck, 0)] ctx 0
  refine ⟨?_, ?_, ?_⟩
  · have hruns : ∃ c c', (senderMachine (⟨.get, 0, [1]⟩ : Context ℕ)).Steps (fun c n i =>
          (senderStatus (⟨.get, 0, [1]⟩ : Context ℕ)).orderly c n i = true)
          (accept ⟨.get, 0, [1]⟩ (.stage .findShard (.initial "id" "root" false none none) [])) c ∧
        (senderMachine (⟨.get, 0, [1]⟩ : Context ℕ)).Steps (fun c n i =>
          (senderStatus (⟨.get, 0, [1]⟩ : Context ℕ)).orderly c n i = true) c c' ∧
        c.shared.operationIdStatus = .completed ∧ c'.pool = [] :=
      Machine.Steps.of_schedules
        (List.replicate 20 (0, Choice.ok) ++ (0, Choice.reply (.ack true)) ::
          List.replicate 6 (0, .ok))
        [(0, Choice.ok)] (by decide +kernel)
    obtain ⟨c, c', hrun, hmore, hcompleted, hrest⟩ := hruns
    exact ⟨c, c', hrun, hmore, hcompleted, hrest,
      hsender c c' hrun hmore (by rw [hcompleted]; rfl)⟩
  · have hruns : ∃ c c', remoteMachine.Steps (fun c n i => remoteStatus.orderly c n i = true)
          (receive (some ⟨.finalityReplicateStart, none⟩) [(.publishFinalitySaveAck, 0)]) c ∧
        remoteMachine.Steps (fun c n i => remoteStatus.orderly c n i = true) c c' ∧
        c.shared.record.map (·.status) = some .failed ∧ c'.pool = [] :=
      Machine.Steps.of_schedules [(0, RemoteChoice.throws "unavailable" false), (0, .ok)] []
        (by decide +kernel)
    obtain ⟨c, c', hrun, hmore, hfailed, hrest⟩ := hruns
    have hterminal : c.shared.record.any (·.status.isTerminal) = true := by
      obtain ⟨record, hrecord, hstatus⟩ := Option.map_eq_some_iff.mp hfailed
      rw [hrecord, Option.any_some, hstatus]
      rfl
    exact ⟨c, c', hrun, hmore, hfailed, hrest, hremote c c' rfl hrun hmore hterminal⟩
  · have hruns : ∃ c c', (finalizationMachine ctx).Steps
          (fun c m i => (finalizationStatus ctx 0).orderly c m i = true)
          (handleKnowledgeCollectionCreatedEvent ℕ) c ∧
        (finalizationMachine ctx).Steps
          (fun c m i => (finalizationStatus ctx 0).orderly c m i = true) c c' ∧
        c.shared.records.map (·.status) = [.failed] ∧ c'.pool = [] :=
      Machine.Steps.of_schedules
        (List.replicate 13 (0, FinalizationChoice.ok) ++
          [(0, FinalizationChoice.throws "unavailable" false), (0, .ok)])
        [(0, FinalizationChoice.ok)] (by decide +kernel)
    obtain ⟨c, c', hrun, hmore, hfailed, hrest⟩ := hruns
    have hterminal : c.shared.records[0]?.any (·.status.isTerminal) = true := by
      have hfirst : (c.shared.records.map (·.status))[0]? = some .failed := by rw [hfailed]; rfl
      rw [List.getElem?_map] at hfirst
      obtain ⟨record, hrecord, hstatus⟩ := Option.map_eq_some_iff.mp hfirst
      rw [hrecord, Option.any_some, hstatus]
      rfl
    exact ⟨ctx, c, c', hrun, hmore, hfailed, hrest, hfinalization c c' hrun hmore hterminal⟩

/-- The answer of a get arrives before the schedule command has written its end event: `COMPLETED` is
    overwritten. -/
theorem terminal_status_overwritten :
    ∃ c c', (senderMachine (⟨.get, 0, [1]⟩ : Context ℕ)).Steps (fun _ _ _ => True)
        (accept ⟨.get, 0, [1]⟩ (.stage .findShard (.initial "id" "root" false none none) [])) c ∧
      (senderMachine (⟨.get, 0, [1]⟩ : Context ℕ)).Steps (fun _ _ _ => True) c c' ∧
      c.shared.operationIdStatus = .completed ∧
      c'.shared.operationIdStatus = .getFetchFromNodesEnd := by
  have hruns : ∃ c c', (senderMachine (⟨.get, 0, [1]⟩ : Context ℕ)).Steps (fun _ _ _ => true = true)
        (accept ⟨.get, 0, [1]⟩ (.stage .findShard (.initial "id" "root" false none none) [])) c ∧
      (senderMachine (⟨.get, 0, [1]⟩ : Context ℕ)).Steps (fun _ _ _ => true = true) c c' ∧
      c.shared.operationIdStatus = .completed ∧
      c'.shared.operationIdStatus = .getFetchFromNodesEnd :=
    Machine.Steps.of_schedules
      (List.replicate 16 (0, Choice.ok) ++ (1, Choice.ok) :: (0, .ok) :: (0, .reply (.ack true)) ::
        List.replicate 6 (0, .ok))
      [(1, Choice.ok)] (by decide +kernel)
  obtain ⟨c, c', hrun, hmore, hcompleted, hovertaken⟩ := hruns
  exact ⟨c, c', hrun.mono fun _ _ _ _ => trivial, hmore.mono fun _ _ _ _ => trivial, hcompleted,
    hovertaken⟩

end OtNode
