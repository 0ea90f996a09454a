import OtNode.Operation.Verdict

/-! Ask: an operation that never gets under way.

    The ask service has no `getMinAckResponses` of its own. The find-shard command calls the one it
    inherits, which throws before a node is looked up; recovering it fails the operation id record
    and leaves the operation's own record in progress. -/

namespace OtNode

open Pool

variable {π : Type} {ctx : Context π} {d : CommandData π}

/-- The work of an ask operation under way. -/
def AskWork (w : Handler π × Effect π) : Prop :=
  (∃ data sequence, w.1.command = .stage .findShard data sequence) ∧ w.1.retries = 0 ∧
    ((∃ status error, w.2 = .updateOperationIdStatus status error) ∨ ∃ data, w.2 = .findShard data)

/-- What holds of an ask operation throughout. -/
def AskStuck (s : Operation π) (W : Multiset (Handler π × Effect π)) : Prop :=
  s.operationStatus = .inProgress ∧ s.batches = [] ∧ ∀ w ∈ W, AskWork w

/-- Recovering the find-shard command writes the operation id record and nothing else. -/
theorem onThrow_askWork {k : Handler π} {data : CommandData π} {message : String}
    (hcommand : ∃ data sequence, k.command = .stage .findShard data sequence)
    (hretries : k.retries = 0) :
    ∀ w ∈ workOf (onThrow ctx k (.findShard data) message false), AskWork w := by
  obtain ⟨data', sequence, hcommand⟩ := hcommand
  obtain ⟨command, retries, mode⟩ := k
  subst hcommand hretries
  cases mode <;>
    simp [onThrow, Handler.thrownAt, handleCommandError, recover, handleError, AskWork]

variable [DecidableEq π]

/-- STUCK: the status writes and the find-shard command go nowhere. -/
theorem AskStuck.step (hop : ctx.operationName = .ask) {c c' : Config (Operation π) (Handler π)
    (Effect π)} {n : ℕ} {i : Choice} (h : AskStuck c.shared c.work) (hi : i.isSound = true)
    (hfire : (machine ctx).fire c n i = some c') : AskStuck c'.shared c'.work := by
  refine (machine ctx).work_step (J := AskStuck) (G := fun _ _ _ _ _ => True) ?_ ?_ h
    (fun _ _ _ _ => trivial) hfire
  · rintro s k e es s' todo spawned rest ⟨hstatus, hbatches, hwork⟩ - hp
    obtain ⟨hcommand, hretries, ⟨status, error, rfl⟩ | ⟨data, rfl⟩⟩ :=
      hwork _ (Multiset.mem_cons_self _ _)
    · cases i <;> simp [machine, perform, missing, proceed, hop, Choice.isSound] at hp hi
      obtain ⟨rfl, rfl, rfl⟩ := hp
      exact ⟨hstatus, hbatches, by simpa using fun w hw => hwork w (Multiset.mem_cons_of_mem hw)⟩
    · cases i <;> simp [machine, perform, missing, proceed, hop, getMinAckResponses] at hp hi
  · rintro s k e es s' spawned rest ⟨hstatus, hbatches, hwork⟩ - hp
    obtain ⟨hcommand, hretries, ⟨status, error, rfl⟩ | ⟨data, rfl⟩⟩ :=
      hwork _ (Multiset.mem_cons_self _ _)
    · cases i <;> simp [machine, perform, missing, proceed, hop, Choice.isSound] at hp hi
    · cases i <;>
        simp [machine, perform, missing, proceed, Choice.isSound, hop, getMinAckResponses] at hp hi
      obtain ⟨rfl, rfl⟩ := hp
      refine ⟨hstatus, hbatches, ?_⟩
      intro w hw
      rcases Multiset.mem_add.mp hw with hw | hw
      · exact hwork w (Multiset.mem_cons_of_mem (Multiset.mem_add.mpr (Or.inr hw)))
      · exact onThrow_askWork hcommand hretries w hw

/-- NEVER: an ask operation comes to rest, and whatever the shard and the minimum it has asked no one
    and has no verdict. -/
theorem ask_never_settled (hop : ctx.operationName = .ask) (d : CommandData π) :
    (∃ c, SoundRun ctx d c ∧ c.pool = []) ∧
      ∀ c, SoundRun ctx d c → c.shared.scheduled = [] ∧ ∀ m, ¬Settled ctx m c.shared := by
  constructor
  · obtain ⟨op, self, nodes⟩ := ctx
    subst hop
    have hrun : (machine ⟨.ask, self, nodes⟩).run (fun _ _ i => i.isSound)
        (launch ⟨.ask, self, nodes⟩ d) (List.replicate 3 (0, Choice.ok)) =
        some ⟨{ Operation.initial .ask with
          operationIdStatus := .failed,
          operationIdData := some ⟨"getMinAckResponses not implemented", .undefined⟩ },
          []⟩ := rfl
    exact ⟨_, Machine.Steps.of_run hrun, rfl⟩
  · intro c hrun
    have hstuck : AskStuck c.shared c.work := by
      refine hrun.invariant (I := fun c => AskStuck c.shared c.work)
        (fun c n i c' h hi hfire => h.step hop hi hfire) ⟨rfl, rfl, ?_⟩
      simp [launch, begin, Config.work, start, execute, initialRetries, hop, AskWork]
    refine ⟨?_, fun m hsettled => hsettled.terminal hstuck.1⟩
    rw [Operation.scheduled, hstuck.2.1, List.flatten_nil]

/-- An ask operation over a shard of two. -/
theorem ask_never_settled_two_nodes :
    (∃ c, SoundRun ⟨.ask, 0, [1, 2]⟩ (.initial "id" "" false (some 1) (some 1)) c ∧ c.pool = []) ∧
      ∀ c, SoundRun ⟨.ask, 0, [1, 2]⟩ (.initial "id" "" false (some 1) (some 1)) c →
        c.shared.scheduled = [] ∧ ∀ m, ¬Settled ⟨.ask, 0, [1, 2]⟩ m c.shared :=
  ask_never_settled rfl _

/-- No node is asked, and the operation's own record stays in progress. -/
theorem ask_unsettled :
    ∃ c, SoundRun ⟨.ask, 0, [1, 2]⟩ (.initial "id" "" false (some 1) (some 1)) c ∧ c.pool = [] ∧
      c.shared.operationStatus = .inProgress ∧ ¬Settled ⟨.ask, 0, [1, 2]⟩ 1 c.shared :=
  Machine.Steps.of_schedule (List.replicate 3 (0, Choice.ok)) (by decide +kernel)

end OtNode
