import OtNode.Operation.Machine

/-! What a step of an operation can do, said once.

    `Performed` lists what an awaited step leads to where it does not throw, `Raised` what it leads
    to where it does. Invariants over every run are proved by their cases. -/

namespace OtNode

open Pool

variable {π : Type} [DecidableEq π] (ctx : Context π) (h : Handler π) (s : Operation π)

/-- EFFECTS: what an awaited step of the operation does, puts in front of its task and starts. -/
inductive Performed : Effect π → Choice → Operation π → List (Effect π) → List (Job π) → Prop where
  | access : Performed .access .ok s [] []
  | updateOperationIdStatus (status error) :
      Performed (.updateOperationIdStatus status error) .ok
        { s with operationIdStatus := status,
                 operationIdData := error.orElse fun _ => s.operationIdData } [] []
  | updateOperationStatus (status) :
      Performed (.updateOperationStatus status) .ok
        { s with operationStatus := status, verdicts := s.verdicts ++ [status] } [] []
  | updateMinAcksReached :
      Performed .updateMinAcksReached .ok { s with minAcksReached := true } [] []
  | networkSignature :
      Performed (.addSignatureToStorage .network) .ok
        { s with networkSignatures := s.networkSignatures ++ [h.command.number?] } [] []
  | publisherSignature :
      Performed (.addSignatureToStorage .publisher) .ok
        { s with publisherSignatures := s.publisherSignatures + 1 } [] []
  | findShard (data minAckResponses)
      (hmin : getMinAckResponses ctx.operationName data.minimumNumberOfNodeReplications =
        some minAckResponses) :
      Performed (.findShard data) .ok
        { s with sequence := s.sequence ++ getOperationCommandSequence ctx.operationName data }
        (OtNode.findShard ctx data minAckResponses
          (s.sequence ++ getOperationCommandSequence ctx.operationName data)) []
  | localGet (data sequence) :
      Performed (.localGet data sequence) .ok s
        [.updateOperationIdStatus .getLocalEnd none, .finish (continueSequence data sequence)] []
  | localHit (data sequence) :
      Performed (.localGet data sequence) .hit s
        (OtNode.markOperationAsCompleted [.getLocalEnd, .getEnd, .completed] ++ [.finish []]) []
  | networkProtocol (data batchSize minAckResponses)
      (hmin : getMinAckResponses ctx.operationName data.minimumNumberOfNodeReplications =
        some minAckResponses) :
      Performed (.networkProtocol data) .ok s
        [.add (.scheduleMessages (data.toMessage batchSize minAckResponses)), .finish []] []
  | add (command) : Performed (.add command) .ok s [] [start ctx command]
  | addRequests (data) :
      Performed (.addRequests data) .ok
        { s with batches := s.batches ++ [currentBatchNodes data] } []
        ((requests ctx s data (currentBatchNodes data)).map (start ctx))
  | shouldSendMessage (hopen : s.operationStatus = .inProgress) :
      Performed .shouldSendMessage .ok s [.access, .sendMessage] []
  | shouldNotSendMessage (hclosed : s.operationStatus ≠ .inProgress) :
      Performed .shouldSendMessage .ok s [.finish []] []
  | sendFailed (message) :
      Performed .sendMessage (.reply (.error message)) s []
        (onThrow ctx h .sendMessage message false)
  | sendMessage (number node data reply) (hcommand : h.command = .request number node data)
      (hreply : ∀ message, reply ≠ .error message) :
      Performed .sendMessage (.reply reply) s (handleReply ctx.operationName data reply) []
  | retry (number node data) (hcommand : h.command = .request number node data) :
      Performed .retry .ok s [] [requeue ctx h]
  | retryFinished (number node data) (hcommand : h.command = .request number node data) :
      Performed .retry .ok s [.processResponse data .failed, .finish []] []
  | processResponse (data status) :
      Performed (.processResponse data status) .ok
        (s.createResponseRecord h.command.number? status)
        (OtNode.processResponse ctx.operationName data status
          (s.createResponseRecord h.command.number? status).completedNumber
          (s.createResponseRecord h.command.number? status).failedNumber) []
  | markOperationAsFailed (error) :
      Performed (.markOperationAsFailed error) .ok s []
        [⟨{ h with mode := .detached }, OtNode.markOperationAsFailed error⟩]
  | finish (children) : Performed (.finish children) .ok s [] (children.map (start ctx))

/-- ERRORS: what makes an awaited step throw, and what is left of its task. -/
inductive Raised : Effect π → Choice → Operation π → List (Job π) → Prop where
  | environment (e message lost) :
      Raised e (.throws message lost) s (onThrow ctx h e message lost)
  | missing (e message) (he : (∃ data, e = .findShard data) ∨ ∃ data, e = .networkProtocol data) :
      Raised e .ok s (onThrow ctx h e message false)
  | recorded (data status message lost) :
      Raised (.processResponse data status) (.throwsAfter message lost)
        (s.createResponseRecord h.command.number? status)
        (onThrow ctx h (.processResponse data status) message lost)
  | inserted (data stored message lost) :
      Raised (.addRequests data) (.inserts stored message lost)
        { s with batches := s.batches ++ [storedNodes data stored] }
        ((requests ctx s data (storedNodes data stored)).map (start ctx) ++
          onThrow ctx h (.addRequests data) message lost)

variable {ctx} {h} {s} {e : Effect π} {i : Choice} {s' : Operation π} {todo : List (Effect π)}
  {spawned : List (Job π)}

theorem performed_of_proceed (hp : proceed ctx h e i s = some (.next s' todo spawned)) :
    Performed ctx h s e i s' todo spawned := by
  cases e with
  | access =>
    cases i <;> simp [proceed] at hp
    obtain ⟨rfl, rfl, rfl⟩ := hp
    exact .access
  | updateMinAcksReached =>
    cases i <;> simp [proceed] at hp
    obtain ⟨rfl, rfl, rfl⟩ := hp
    exact .updateMinAcksReached
  | updateOperationIdStatus status error =>
    cases i <;> simp only [proceed, Option.some.injEq, Outcome.next.injEq, reduceCtorEq] at hp
    obtain ⟨rfl, rfl, rfl⟩ := hp
    exact .updateOperationIdStatus status error
  | updateOperationStatus status =>
    cases i <;> simp [proceed] at hp
    obtain ⟨rfl, rfl, rfl⟩ := hp
    exact .updateOperationStatus status
  | addSignatureToStorage folder =>
    cases folder <;> cases i <;> simp [proceed] at hp <;> obtain ⟨rfl, rfl, rfl⟩ := hp
    · exact .networkSignature
    · exact .publisherSignature
  | findShard data =>
    cases i <;> simp [proceed] at hp
    split at hp
    · simp at hp
    · next minAckResponses hmin =>
      simp only [Option.some.injEq, Outcome.next.injEq] at hp
      obtain ⟨rfl, rfl, rfl⟩ := hp
      exact .findShard data minAckResponses hmin
  | localGet data sequence =>
    cases i <;> simp [proceed] at hp <;> obtain ⟨rfl, rfl, rfl⟩ := hp
    · exact .localGet data sequence
    · exact .localHit data sequence
  | networkProtocol data =>
    cases i <;> simp [proceed] at hp
    split at hp
    · next batchSize minAckResponses _ hmin =>
      simp only [Option.some.injEq, Outcome.next.injEq] at hp
      obtain ⟨rfl, rfl, rfl⟩ := hp
      exact .networkProtocol data batchSize minAckResponses hmin
    · simp at hp
    · simp at hp
  | add command =>
    cases i <;> simp [proceed] at hp
    obtain ⟨rfl, rfl, rfl⟩ := hp
    exact .add command
  | addRequests data =>
    cases i <;> simp [proceed] at hp
    obtain ⟨rfl, rfl, rfl⟩ := hp
    exact .addRequests data
  | shouldSendMessage =>
    cases i <;> simp [proceed] at hp
    split at hp <;> simp only [Option.some.injEq, Outcome.next.injEq] at hp <;>
      obtain ⟨rfl, rfl, rfl⟩ := hp
    · next hopen => exact .shouldSendMessage hopen
    · next hclosed => exact .shouldNotSendMessage hclosed
  | sendMessage =>
    cases i with
    | reply reply =>
      cases hreply : reply with
      | error message =>
        simp only [proceed, hreply, Option.some.injEq, Outcome.next.injEq] at hp
        obtain ⟨rfl, rfl, rfl⟩ := hp
        exact .sendFailed message
      | _ =>
        rw [← hreply]
        cases hcommand : h.command with
        | request number node data =>
          simp only [proceed, hreply, hcommand, Option.some.injEq, Outcome.next.injEq] at hp
          obtain ⟨rfl, rfl, rfl⟩ := hp
          exact hreply ▸ .sendMessage number node data reply hcommand (by simp [hreply])
        | _ => simp [proceed, hreply, hcommand] at hp
    | _ => simp [proceed] at hp
  | retry =>
    cases i <;> simp [proceed] at hp
    split at hp
    · next number node data hcommand =>
      split at hp <;> simp only [Option.some.injEq, Outcome.next.injEq] at hp <;>
        obtain ⟨rfl, rfl, rfl⟩ := hp
      · exact .retry number node data hcommand
      · exact .retryFinished number node data hcommand
    · cases hp
  | processResponse data status =>
    cases i <;> simp [proceed, recordResponse] at hp
    obtain ⟨rfl, rfl, rfl⟩ := hp
    exact .processResponse data status
  | markOperationAsFailed error =>
    cases i <;> simp [proceed] at hp
    obtain ⟨rfl, rfl, rfl⟩ := hp
    exact .markOperationAsFailed error
  | finish children =>
    cases i <;> simp [proceed] at hp
    obtain ⟨rfl, rfl, rfl⟩ := hp
    exact .finish children

theorem performed_of_perform (hp : perform ctx h e i s = some (.next s' todo spawned)) :
    Performed ctx h s e i s' todo spawned := by
  unfold perform at hp
  split at hp
  · cases hp
  · cases hp
  · cases hp
  · exact performed_of_proceed hp

theorem raised_of_proceed (hp : proceed ctx h e i s = some (.raise s' spawned)) :
    Raised ctx h s e i s' spawned := by
  cases i with
  | throws message lost =>
    obtain ⟨rfl, rfl⟩ : s' = s ∧ spawned = onThrow ctx h e message lost := by
      cases e with
      | addSignatureToStorage folder => cases folder <;> simpa [proceed, eq_comm] using hp
      | markOperationAsFailed | networkProtocol => simp [proceed] at hp
      | _ => simpa [proceed, eq_comm] using hp
    exact .environment e message lost
  | throwsAfter message lost =>
    cases e with
    | processResponse data status =>
      simp only [proceed, Option.some.injEq, Outcome.raise.injEq] at hp
      obtain ⟨rfl, rfl⟩ := hp
      exact .recorded data status message lost
    | addSignatureToStorage folder => cases folder <;> simp [proceed] at hp
    | _ => simp [proceed] at hp
  | inserts stored message lost =>
    cases e with
    | addRequests data =>
      simp only [proceed] at hp
      split at hp
      · simp only [Option.some.injEq, Outcome.raise.injEq] at hp
        obtain ⟨rfl, rfl⟩ := hp
        exact .inserted data stored message lost
      · cases hp
    | addSignatureToStorage folder => cases folder <;> simp [proceed] at hp
    | _ => simp [proceed] at hp
  | hit =>
    cases e with
    | addSignatureToStorage folder => cases folder <;> simp [proceed] at hp
    | _ => simp [proceed] at hp
  | reply reply =>
    cases e with
    | sendMessage =>
      cases reply <;> simp only [proceed] at hp <;> (try split at hp) <;> simp at hp
    | addSignatureToStorage folder => cases folder <;> simp [proceed] at hp
    | _ => simp [proceed] at hp
  | ok =>
    cases e with
    | findShard data =>
      simp only [proceed] at hp
      split at hp
      · simp only [Option.some.injEq, Outcome.raise.injEq] at hp
        obtain ⟨rfl, rfl⟩ := hp
        exact .missing _ _ (Or.inl ⟨data, rfl⟩)
      · simp at hp
    | networkProtocol data =>
      simp only [proceed] at hp
      split at hp <;> simp only [Option.some.injEq, Outcome.raise.injEq, reduceCtorEq] at hp <;>
        obtain ⟨rfl, rfl⟩ := hp <;> exact .missing _ _ (Or.inr ⟨data, rfl⟩)
    | addSignatureToStorage folder => cases folder <;> simp [proceed] at hp
    | shouldSendMessage =>
      simp only [proceed] at hp
      split at hp <;> simp at hp
    | retry =>
      simp only [proceed] at hp
      split at hp
      · split at hp <;> simp at hp
      · cases hp
    | _ => simp [proceed, recordResponse] at hp

theorem raised_of_perform (hop : ctx.operationName ≠ .update)
    (hp : perform ctx h e i s = some (.raise s' spawned)) : Raised ctx h s e i s' spawned := by
  rw [perform_eq_proceed (missing_of_ne_update hop e)] at hp
  exact raised_of_proceed hp

/-- What an error starts runs the same command: again, in `recover`, or in its `catch` block. -/
theorem onThrow_cases {π : Type} {ctx : Context π} {k : Handler π} {e : Effect π}
    {message : String} {lost : Bool} {t : Job π} (ht : t ∈ onThrow ctx k e message lost) :
    t.owner.command = k.command ∧ (t.script = execute ctx k.command ∨
      t.script = recover ctx message k.command ∨
      t.script = handleError ⟨message, .localStoreError⟩ ++ [.finish []]) := by
  have hhandled : ∀ k' : Handler π, k'.command = k.command →
      t ∈ handleCommandError ctx k' message lost → t.owner.command = k.command ∧
      (t.script = execute ctx k.command ∨ t.script = recover ctx message k.command) := by
    intro k' hk' ht
    rw [handleCommandError] at ht
    rw [← hk']
    cases hmode : k'.mode <;> simp only [hmode] at ht
    case recover | detached => cases ht
    all_goals
      split at ht
      · cases ht
      · split at ht <;> obtain rfl := List.mem_singleton.mp ht
        · exact ⟨rfl, Or.inl rfl⟩
        · exact ⟨rfl, Or.inr rfl⟩
  unfold onThrow at ht
  split at ht
  · exact (hhandled k rfl ht).imp_right (Or.imp_right Or.inl)
  · obtain rfl := List.mem_singleton.mp ht
    exact ⟨rfl, Or.inr (Or.inr rfl)⟩
  · exact (hhandled _ (k.thrownAt_command _) ht).imp_right (Or.imp_right Or.inl)

/-! ### Effects of the publish service -/

/-- What the publish service awaits once it has counted a response. -/
inductive PublishService.Awaits {π : Type} (data : MessageData π) (completedNumber : ℕ) :
    Effect π → Prop where
  | access : Awaits data completedNumber .access
  | updateOperationStatus (status) :
      Awaits data completedNumber (.updateOperationStatus status)
  | updateOperationIdStatus (status error) :
      Awaits data completedNumber (.updateOperationIdStatus status error)
  | updateMinAcksReached (h : completedNumber = data.minAckResponses) :
      Awaits data completedNumber .updateMinAcksReached
  | schedule (nodes) :
      Awaits data completedNumber (.add (.scheduleMessages { data with leftoverNodes := nodes }))

theorem PublishService.awaits_of_mem {π : Type} {data : MessageData π}
    {completedNumber failedNumber : ℕ} {e : Effect π}
    (he : e ∈ PublishService.processResponse data completedNumber failedNumber) :
    PublishService.Awaits data completedNumber e := by
  have hcompleted : ∀ e ∈ (markOperationAsCompleted completedStatuses : List (Effect π)),
      Awaits data completedNumber e := by
    simp [markOperationAsCompleted, completedStatuses, Awaits.access,
      Awaits.updateOperationStatus, Awaits.updateOperationIdStatus]
  have hfailed : ∀ error, ∀ e ∈ (markOperationAsFailed error : List (Effect π)),
      Awaits data completedNumber e := by
    simp [markOperationAsFailed, Awaits.access, Awaits.updateOperationStatus,
      Awaits.updateOperationIdStatus]
  rcases List.mem_append.mp he with he | he
  · split at he
    · next hmin => exact List.mem_singleton.mp he ▸ .updateMinAcksReached hmin
    · cases he
  · split at he
    · split at he
      · exact hcompleted e he
      · exact hfailed _ e he
    · dsimp only at he
      split at he
      · exact List.mem_singleton.mp he ▸ .schedule _
      · split at he
        · exact hfailed _ e he
        · cases he

end OtNode
