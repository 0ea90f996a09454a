import OtNode.Operation.Machine

/-! Operations whose `FindShardCommand`s interleave.

    The handler of a protocol is a single object. It keeps the minimum of the operation that wrote
    its start event last, and compares the nodes found for any operation with that. -/

namespace OtNode

variable {ι π : Type}

/-- An operation at its `FindShardCommand`: what it runs in, its data and its sequence. -/
structure ShardSearch (π : Type) where
  ctx : Context π
  data : CommandData π
  sequence : List Stage

namespace ShardSearch

variable (op : ShardSearch π)

/-- The minimum that the service gives for the operation; there is none where it throws. -/
def minAckResponses : Option ℕ :=
  getMinAckResponses op.ctx.operationName op.data.minimumNumberOfNodeReplications

/-- The sequence with the commands of the protocol. -/
def fullSequence : List Stage :=
  op.sequence ++ getOperationCommandSequence op.ctx.operationName op.data

/-- The operation goes on, with its own data and the nodes found for it. -/
def forwarded [DecidableEq π] : List (Effect π) :=
  [.updateOperationIdStatus (findShardEvents op.ctx.operationName).2 none,
    .finish (continueSequence (foundData op.ctx op.data) op.fullSequence)]

/-- The nodes found are at least the operation's own minimum. -/
def Enough [DecidableEq π] : Prop :=
  ∃ m, op.minAckResponses = some m ∧ m ≤ numberOfFoundNodes op.ctx

end ShardSearch

/-- Where the command of an operation is: at the write of its start event, at the search for nodes,
    or past the comparison, with the calls it is left with. -/
inductive SearchStage (π : Type) where
  | start
  | findShardNodes
  | decided (calls : List (Effect π))
  | failed

/-- The commands of all operations, and the field of the handler of each protocol. The operation
    that set the field last is kept beside it. -/
structure FindShardState (ι π : Type) where
  stage : ι → SearchStage π
  minAckResponses : OperationName → ℕ
  lastSet : OperationName → Option ι

namespace FindShardState

variable (ops : ι → ShardSearch π) (s : FindShardState ι π)

/-- No command has been executed. An undefined minimum is more than no number, like 0. -/
def initial : FindShardState ι π := ⟨fun _ => .start, fun _ => 0, fun _ => none⟩

/-- The minimum of the operation that set the field last. -/
def lastMinimum (op : OperationName) : ℕ :=
  ((s.lastSet op).bind fun i => (ops i).minAckResponses).getD 0

/-- The field is the minimum of the operation that set it last. -/
def Recorded : Prop := ∀ op, s.minAckResponses op = s.lastMinimum ops op

end FindShardState

namespace FindShardState

variable [DecidableEq ι] [DecidableEq π] (ops : ι → ShardSearch π) (s : FindShardState ι π)

/-- A command goes on. -/
def goOn (i : ι) (stage : SearchStage π) : FindShardState ι π :=
  { s with stage := Function.update s.stage i stage }

/-- `this.minAckResponses = …`, by the command of an operation. -/
def setMinAckResponses (i : ι) (m : ℕ) : FindShardState ι π :=
  { s with
    minAckResponses := Function.update s.minAckResponses (ops i).ctx.operationName m
    lastSet := Function.update s.lastSet (ops i).ctx.operationName (some i) }

/-- `execute`: the call that the command of an operation awaits returns, or it throws. The calls
    after the comparison leave the handler alone. -/
def act (reply : ι × Bool) : FindShardState ι π :=
  let op := ops reply.1
  match s.stage reply.1, reply.2 with
  | .start, true =>
    match op.minAckResponses with
    | none => s.goOn reply.1 .failed
    | some m => (s.setMinAckResponses ops reply.1 m).goOn reply.1 .findShardNodes
  | .findShardNodes, true =>
    s.goOn reply.1 (.decided
      (findShard op.ctx op.data (s.minAckResponses op.ctx.operationName) op.fullSequence))
  | .start, false | .findShardNodes, false => s.goOn reply.1 .failed
  | .decided _, _ | .failed, _ => s

/-- The replies of an interleaving. -/
def run (interleaving : List (ι × Bool)) : FindShardState ι π := interleaving.foldl (act ops) s

/-- Every operation that is past the comparison is forwarded exactly when its nodes are enough. -/
def Right : Prop :=
  ∀ i calls, s.stage i = .decided calls → (calls = (ops i).forwarded ↔ (ops i).Enough)

/-- Where the nodes for an operation are found, the minimum that was set last compares with their
    number like its own. -/
def Agrees (reply : ι × Bool) : Prop :=
  s.stage reply.1 = .findShardNodes → reply.2 = true →
    (s.lastMinimum ops (ops reply.1).ctx.operationName ≤ numberOfFoundNodes (ops reply.1).ctx ↔
      (ops reply.1).Enough)

/-- `Agrees` holds at each reply. -/
def AgreesThroughout : FindShardState ι π → List (ι × Bool) → Prop
  | _, [] => True
  | s, reply :: interleaving =>
    s.Agrees ops reply ∧ AgreesThroughout (s.act ops reply) interleaving

end FindShardState

namespace FindShardState

variable {ops : ι → ShardSearch π} {s : FindShardState ι π} {i : ι}

theorem recorded_initial : (initial : FindShardState ι π).Recorded ops := fun _ => rfl

section

variable [DecidableEq ι]

theorem stage_goOn_self {stage : SearchStage π} : (s.goOn i stage).stage i = stage :=
  Function.update_self ..

theorem stage_goOn_of_ne {j : ι} {stage : SearchStage π} (h : j ≠ i) :
    (s.goOn i stage).stage j = s.stage j := Function.update_of_ne h ..

end

variable [DecidableEq ι] [DecidableEq π]

/-- The comparison forwards an operation exactly when the minimum is met. -/
theorem findShard_forwarded {op : ShardSearch π} {m : ℕ} :
    findShard op.ctx op.data m op.fullSequence = op.forwarded ↔ m ≤ numberOfFoundNodes op.ctx := by
  rw [findShard]
  split
  · next hless =>
    refine ⟨fun h => ?_, fun h => absurd hless (Nat.not_lt.mpr h)⟩
    simp [handleError, ShardSearch.forwarded] at h
  · next hmet => exact ⟨fun _ => Nat.not_lt.mp hmet, fun _ => rfl⟩

/-! ### The field -/

/-- STEP (field): whoever sets the field is the last to set it. -/
theorem recorded_act (h : s.Recorded ops) (reply : ι × Bool) : (s.act ops reply).Recorded ops := by
  rw [act]
  split
  · split
    · exact h
    · next m hm =>
      intro op
      by_cases hop : op = (ops reply.1).ctx.operationName
      · subst hop
        simp [goOn, setMinAckResponses, lastMinimum, hm]
      · simpa [goOn, setMinAckResponses, lastMinimum, Function.update_of_ne hop] using h op
  all_goals exact h

/-! ### The comparison -/

/-- A command that goes on without a decision leaves those of the others. -/
theorem right_goOn {stage : SearchStage π} (hbefore : ∀ calls, s.stage i ≠ .decided calls)
    (hafter : ∀ calls, stage ≠ .decided calls) : (s.goOn i stage).Right ops ↔ s.Right ops := by
  constructor
  · intro h j calls hj
    have hne : j ≠ i := by
      rintro rfl
      exact hbefore calls hj
    exact h j calls (by rw [stage_goOn_of_ne hne, hj])
  · intro h j calls hj
    by_cases hne : j = i
    · subst hne
      rw [stage_goOn_self] at hj
      exact absurd hj (hafter calls)
    · rw [stage_goOn_of_ne hne] at hj
      exact h j calls hj

/-- A command that is decided adds its decision to those of the others. -/
theorem right_decided {calls : List (Effect π)} (hbefore : ∀ calls, s.stage i ≠ .decided calls) :
    (s.goOn i (.decided calls)).Right ops ↔
      (calls = (ops i).forwarded ↔ (ops i).Enough) ∧ s.Right ops := by
  constructor
  · intro h
    refine ⟨h i calls stage_goOn_self, ?_⟩
    intro j calls' hj
    have hne : j ≠ i := by
      rintro rfl
      exact hbefore calls' hj
    exact h j calls' (by rw [stage_goOn_of_ne hne, hj])
  · rintro ⟨hown, hothers⟩ j calls' hj
    by_cases hne : j = i
    · subst hne
      rw [stage_goOn_self] at hj
      cases hj
      exact hown
    · rw [stage_goOn_of_ne hne] at hj
      exact hothers j calls' hj

/-- STEP: the decisions stay right exactly when the minimum that was set last agrees. -/
theorem right_act (hrecorded : s.Recorded ops) (reply : ι × Bool) :
    (s.act ops reply).Right ops ↔ s.Agrees ops reply ∧ s.Right ops := by
  obtain ⟨i, ok⟩ := reply
  rw [act, Agrees]
  cases hstage : s.stage i with
  | start =>
    have hbefore : ∀ calls, s.stage i ≠ .decided calls := by simp [hstage]
    cases ok with
    | false => simpa using right_goOn hbefore (by simp)
    | true =>
      cases hmin : (ops i).minAckResponses with
      | none => simpa using right_goOn hbefore (by simp)
      | some m =>
        have hset : (s.setMinAckResponses ops i m).Right ops ↔ s.Right ops := Iff.rfl
        have hgoOn : ((s.setMinAckResponses ops i m).goOn i .findShardNodes).Right ops ↔
            (s.setMinAckResponses ops i m).Right ops := right_goOn hbefore (by simp)
        simpa [hstage] using hgoOn.trans hset
  | findShardNodes =>
    have hbefore : ∀ calls, s.stage i ≠ .decided calls := by simp [hstage]
    cases ok with
    | false => simpa using right_goOn hbefore (by simp)
    | true =>
      rw [right_decided hbefore, findShard_forwarded, hrecorded]
      simp
  | decided calls => simp
  | failed => simp

/-- RUN: the decisions of an interleaving are right exactly when the minimum that was set last agrees
    at each of them. -/
theorem right_run (hrecorded : s.Recorded ops) (interleaving : List (ι × Bool)) :
    (s.run ops interleaving).Right ops ↔ s.AgreesThroughout ops interleaving ∧ s.Right ops := by
  induction interleaving generalizing s with
  | nil => exact (true_and _).symm ▸ Iff.rfl
  | cons reply interleaving ih =>
    have hcons : s.run ops (reply :: interleaving) = (s.act ops reply).run ops interleaving := rfl
    rw [hcons, ih (recorded_act hrecorded reply), right_act hrecorded, AgreesThroughout]
    tauto

/-- CORRECT (run): in an interleaving every operation is forwarded exactly when the nodes of its shard
    are enough for it, as long as the minimum that was set last agrees with its own. -/
theorem right_iff_agreesThroughout (ops : ι → ShardSearch π) (interleaving : List (ι × Bool)) :
    (initial.run ops interleaving).Right ops ↔ initial.AgreesThroughout ops interleaving := by
  rw [right_run recorded_initial]
  refine and_iff_left_of_imp ?_
  rintro - i calls hstage
  cases hstage

/-- Two publishes, the second with a minimum of 1, in shards of two other nodes. -/
def twoPublishes (second : Bool) : ShardSearch ℕ where
  ctx := ⟨.publish, 0, [1, 2]⟩
  data := .initial "operation" "assertion" false (if second then some 1 else none) none
  sequence := []

/-- COUNTEREXAMPLE: the second publish starts while the nodes for the first are searched, and the
    first is forwarded with two nodes where it needs three. -/
theorem forwarded_without_enough :
    ¬ (initial.run twoPublishes [(false, true), (true, true), (false, true)]).Right
      twoPublishes := by
  intro h
  obtain ⟨m, hm, hfound⟩ := (h false _ rfl).mp rfl
  cases hm
  revert hfound
  decide

end FindShardState

end OtNode
