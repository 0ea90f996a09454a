import OtNode.Lib.Poll
import OtNode.Operation.Machine
import Mathlib.Tactic.Ring
import Mathlib.Data.List.Infix

/-! An operation is a poll of its shard.

    The publish and get operations ask the nodes of the shard in batches and close with a verdict;
    `poll` is that poll, with the service's arithmetic as its rule. `Rel` relates a configuration of
    the commands to a state of the poll by counting the effects under way, and `Rel.step` shows that
    every step of the commands is a step of the poll or leaves it where it was. -/

namespace OtNode

open Pool Poll

variable {π : Type}

/-! ### Decisions of the services -/

/-- What `PublishService.processResponse` decides. -/
def publishDecision (batchSize minAckResponses found leftover totalResponses completedNumber : ℕ) :
    Decision :=
  if totalResponses = found then .close (decide (minAckResponses ≤ completedNumber))
  else if 0 < leftover ∧ minAckResponses ≤ completedNumber + leftover ∧
      isMultipleOf (totalResponses - 1) batchSize then .dispatch
  else if ¬minAckResponses ≤ completedNumber + leftover ∧
      isMultipleOf (totalResponses - 1) batchSize then .close false
  else .wait

/-- What `GetService.processResponse` decides. -/
def getDecision (batchSize minAckResponses found leftover : ℕ) (positive : Bool)
    (totalResponses completedNumber : ℕ) : Decision :=
  if positive ∧ completedNumber = minAckResponses then .close true
  else if completedNumber < minAckResponses ∧
      (found = totalResponses ∨ isMultipleOf totalResponses batchSize) then
    if 0 < leftover ∧ minAckResponses ≤ completedNumber + leftover then .dispatch
    else .close false
  else .wait

/-- What the service of a publish or get operation decides. -/
def decision (op : OperationName) (batchSize minAckResponses found leftover : ℕ) (positive : Bool)
    (totalResponses completedNumber : ℕ) : Decision :=
  match op with
  | .get => getDecision batchSize minAckResponses found leftover positive totalResponses
      completedNumber
  | _ => publishDecision batchSize minAckResponses found leftover totalResponses completedNumber

/-! ### What the effects under way mean for the poll -/

/-- The part an effect under way plays in the poll: the command sequence that leads up to it, a
    batch due, an answer outstanding, a verdict about to be written, or none. -/
inductive Role where | idle | stage | token | answer | accept | reject
  deriving DecidableEq

/-- The role of an effect of a command. -/
def role (w : Handler π × Effect π) : Role :=
  match w.2 with
  | .findShard _ | .localGet _ _ | .networkProtocol _ | .finish (_ :: _) => .stage
  | .add _ | .addRequests _ => .token
  | .shouldSendMessage | .sendMessage | .retry => .answer
  | .processResponse _ _ => if w.1.command.number? = none then .stage else .answer
  | .updateOperationStatus .completed => .accept
  | .updateOperationStatus .failed | .markOperationAsFailed _ => .reject
  | _ => .idle

/-- How many effects under way have a role. -/
def count (r : Role) (W : Multiset (Handler π × Effect π)) : ℕ := W.countP (role · = r)

@[simp] theorem count_zero (r : Role) : count r (0 : Multiset (Handler π × Effect π)) = 0 := rfl

@[simp] theorem count_cons (r : Role) (w : Handler π × Effect π)
    (W : Multiset (Handler π × Effect π)) :
    count r (w ::ₘ W) = count r W + if role w = r then 1 else 0 := by
  simp [count, Multiset.countP_cons]

@[simp] theorem count_singleton (r : Role) (w : Handler π × Effect π) :
    count r ({w} : Multiset (Handler π × Effect π)) = if role w = r then 1 else 0 := by
  simpa using count_cons r w 0

@[simp] theorem count_add (r : Role) (W V : Multiset (Handler π × Effect π)) :
    count r (W + V) = count r W + count r V := by
  simp [count]

/-- The effects of a role in a script. -/
def tally (r : Role) (k : Handler π) (es : List (Effect π)) : ℕ := es.countP fun e => role (k, e) = r

@[simp] theorem tally_nil (r : Role) (k : Handler π) : tally r k [] = 0 := rfl

@[simp] theorem tally_cons (r : Role) (k : Handler π) (e : Effect π) (es : List (Effect π)) :
    tally r k (e :: es) = tally r k es + if role (k, e) = r then 1 else 0 := by
  simp [tally, List.countP_cons]

@[simp] theorem tally_append (r : Role) (k : Handler π) (es fs : List (Effect π)) :
    tally r k (es ++ fs) = tally r k es + tally r k fs := by
  simp [tally]

@[simp] theorem count_script (r : Role) (k : Handler π) (es : List (Effect π)) :
    count r ((es.map (Prod.mk k) : List (Handler π × Effect π)) :
      Multiset (Handler π × Effect π)) = tally r k es := by
  simp only [count, tally, Multiset.coe_countP, List.countP_map]
  rfl

/-! ### The relation -/

section

variable [DecidableEq π] (ctx : Context π) (d : CommandData π) (b m : ℕ)

/-- A publish that stores locally before it asks the shard. -/
def storesLocally : Bool := ctx.operationName == .publish && !d.isOperationV0

/-- Response records that no request was sent for: the local store's. -/
def localResponses : ℕ :=
  if storesLocally ctx d ∧ m ≤ numberOfFoundNodes ctx then 1 else 0

/-- Those among them that are successes. -/
def localSuccesses : ℕ := if nodePartOfShard ctx then localResponses ctx d m else 0

/-- The poll an operation is. -/
def poll : Protocol where
  total := (shardNodes ctx).length
  batch := b
  quorum := m
  credit := localSuccesses ctx d m
  eager := ctx.operationName == .get
  first :=
    if numberOfFoundNodes ctx < m then .wait
    else if storesLocally ctx d then
      decision ctx.operationName b m (numberOfFoundNodes ctx) (shardNodes ctx).length
        (nodePartOfShard ctx) 1 (localSuccesses ctx d m)
    else .dispatch
  rule := fun positive answered succeeded asked =>
    decision ctx.operationName b m (numberOfFoundNodes ctx) ((shardNodes ctx).length - asked)
      positive (answered + localResponses ctx d m) succeeded

/-- The data a batch due or an answer outstanding carries once `asked` nodes are asked. -/
structure Fits (asked : ℕ) (data : MessageData π) : Prop where
  leftoverNodes : data.leftoverNodes = (shardNodes ctx).drop asked
  numberOfFoundNodes : data.numberOfFoundNodes = numberOfFoundNodes ctx
  batchSize : data.batchSize = b
  minAckResponses : data.minAckResponses = m

/-- What an effect under way carries. -/
def Carries (asked : ℕ) (w : Handler π × Effect π) : Prop :=
  match w.2 with
  | .findShard data => data = d
  | .localGet data sequence =>
    ctx.operationName = .get ∧ m ≤ numberOfFoundNodes ctx ∧ data = foundData ctx d ∧
      sequence = [.networkProtocol]
  | .networkProtocol data =>
    storesLocally ctx d = false ∧ m ≤ numberOfFoundNodes ctx ∧ data = foundData ctx d
  | .finish children =>
    children = [] ∨ m ≤ numberOfFoundNodes ctx ∧ ∃ name sequence,
      children = [.stage name (foundData ctx d) sequence] ∧
      name :: sequence <:+ getOperationCommandSequence ctx.operationName d
  | .processResponse data status =>
    Fits ctx b m asked data ∧ (w.1.command.number? = none →
      storesLocally ctx d = true ∧ m ≤ numberOfFoundNodes ctx ∧
      status = if nodePartOfShard ctx then .completed else .failed)
  | .add command => ∃ data, command = .scheduleMessages data ∧ Fits ctx b m asked data
  | .addRequests data => Fits ctx b m asked data
  | .shouldSendMessage =>
    ctx.operationName = .get ∧ w.1.mode = .execute ∧
      ∃ number node data, w.1.command = .request number node data ∧ Fits ctx b m asked data
  | .sendMessage | .retry =>
    w.1.mode = .execute ∧
      ∃ number node data, w.1.command = .request number node data ∧ Fits ctx b m asked data
  | .updateOperationStatus status => status ≠ .inProgress
  | _ => True

/-- A configuration of the commands is in a state of the poll. -/
structure Rel (q : State) (s : Operation π) (W : Multiset (Handler π × Effect π)) : Prop where
  stages : count .stage W = if q.started then 0 else 1
  tokens : count .token W = q.due
  answers : count .answer W = q.inFlight
  accepts : count .accept W + s.verdicts.count .completed = q.accepted
  rejects : count .reject W + s.verdicts.count .failed = q.rejected
  scheduled : s.scheduled = (shardNodes ctx).take q.asked
  responses : s.responses.length = q.answered + if q.started then localResponses ctx d m else 0
  completed : s.completedNumber = q.succeeded
  status : s.operationStatus = (s.verdicts.getLast?).getD .inProgress
  sequence : (∃ k data, (k, Effect.findShard data) ∈ W) → s.sequence = []
  carries : ∀ w ∈ W, Carries ctx d b m q.asked w
  written : ∀ verdict ∈ s.verdicts, verdict ≠ .inProgress

end

theorem count_eq_zero {r : Role} {W : Multiset (Handler π × Effect π)} (h : count r W = 0) :
    ∀ w ∈ W, role w ≠ r := by
  simpa [count, Multiset.countP_eq_zero] using h

variable [DecidableEq π] {ctx : Context π} {d : CommandData π} {b m asked : ℕ}

/-! ### What new work bears -/

/-- The role of what carries a decision out. -/
def decisionRole : Decision → Role
  | .wait => .idle
  | .dispatch => .token
  | .close true => .accept
  | .close false => .reject

/-- New work that plays one part in the poll (none if it is idle). -/
structure Bears (ctx : Context π) (d : CommandData π) (b m asked : ℕ)
    (W : Multiset (Handler π × Effect π)) (r : Role) : Prop where
  count : ∀ r', r' ≠ .idle → count r' W = if r' = r then 1 else 0
  search : ∀ k data, (k, Effect.findShard data) ∉ W
  carries : ∀ w ∈ W, Carries ctx d b m asked w

/-- A script that plays one part in the poll, whoever runs it. -/
structure Script (ctx : Context π) (d : CommandData π) (b m asked : ℕ) (es : List (Effect π))
    (k : Handler π) (r : Role) : Prop where
  tally : ∀ r', r' ≠ .idle → tally r' k es = if r' = r then 1 else 0
  search : ∀ data, Effect.findShard data ∉ es
  carries : ∀ e ∈ es, Carries ctx d b m asked (k, e)

theorem Script.bears {es : List (Effect π)} {k : Handler π} {r : Role}
    (h : Script ctx d b m asked es k r) :
    Bears ctx d b m asked (es.map (Prod.mk k) : List (Handler π × Effect π)) r := by
  refine ⟨fun r' hr => by rw [count_script, h.tally r' hr], fun k' data hmem => ?_, fun w hw => ?_⟩
  · simp only [Multiset.mem_coe, List.mem_map, Prod.mk.injEq] at hmem
    obtain ⟨e, he, -, rfl⟩ := hmem
    exact h.search data he
  · simp only [Multiset.mem_coe, List.mem_map] at hw
    obtain ⟨e, he, rfl⟩ := hw
    exact h.carries e he

theorem Bears.nothing : Bears ctx d b m asked 0 .idle := by
  constructor <;> simp

/-- A task started with a script. -/
theorem Script.job {es : List (Effect π)} {k : Handler π} {r : Role}
    (h : Script ctx d b m asked es k r) : Bears ctx d b m asked (workOf [⟨k, es⟩]) r := by
  simpa using h.bears

/-! ### Scripts of the services -/

variable {k : Handler π}

theorem Script.nil : Script ctx d b m asked [] k .idle := by
  constructor <;> simp

/-- An idle effect in front of a script. -/
theorem Script.cons_idle {e : Effect π} {es : List (Effect π)} {r : Role}
    (h : Script ctx d b m asked es k r) (he : role (k, e) = .idle)
    (hc : Carries ctx d b m asked (k, e)) : Script ctx d b m asked (e :: es) k r := by
  refine ⟨?_, ?_, ?_⟩
  · intro r' hr
    rw [tally_cons, h.tally r' hr, he, if_neg (Ne.symm hr), Nat.add_zero]
  · intro data hmem
    rcases List.mem_cons.mp hmem with rfl | hmem
    · simp [role] at he
    · exact h.search data hmem
  · intro e' he'
    rcases List.mem_cons.mp he' with rfl | he'
    · exact hc
    · exact h.carries e' he'

/-- Idle effects in front of a script. -/
theorem Script.append_idle {es fs : List (Effect π)} {r : Role} (h : Script ctx d b m asked fs k r)
    (hes : ∀ e ∈ es, role (k, e) = .idle ∧ Carries ctx d b m asked (k, e)) :
    Script ctx d b m asked (es ++ fs) k r := by
  induction es with
  | nil => exact h
  | cons e es ih =>
    have he := hes e List.mem_cons_self
    exact (ih fun e' he' => hes e' (List.mem_cons_of_mem _ he')).cons_idle he.1 he.2

/-- An effect that plays a part, followed by idle ones. -/
theorem Script.cons {e : Effect π} {es : List (Effect π)}
    (h : Script ctx d b m asked es k .idle) (he : role (k, e) ≠ .idle)
    (hs : ∀ data, e ≠ .findShard data) (hc : Carries ctx d b m asked (k, e)) :
    Script ctx d b m asked (e :: es) k (role (k, e)) := by
  refine ⟨?_, ?_, ?_⟩
  · intro r' hr
    rw [tally_cons, h.tally r' hr, if_neg hr, Nat.zero_add]
    simp only [eq_comm]
  · intro data hmem
    rcases List.mem_cons.mp hmem with rfl | hmem
    · exact hs data rfl
    · exact h.search data hmem
  · intro e' he'
    rcases List.mem_cons.mp he' with rfl | he'
    · exact hc
    · exact h.carries e' he'

theorem Script.finish : Script ctx d b m asked [.finish []] k .idle :=
  Script.nil.cons_idle rfl (Or.inl rfl)

theorem Script.events (statuses : List OperationIdStatus) :
    Script ctx d b m asked (statuses.map (Effect.updateOperationIdStatus · none)) k .idle := by
  induction statuses with
  | nil => exact Script.nil
  | cons status statuses ih => exact ih.cons_idle rfl trivial

theorem Script.completed (statuses : List OperationIdStatus) :
    Script ctx d b m asked (markOperationAsCompleted statuses) k .accept :=
  ((Script.events statuses).cons (e := .updateOperationStatus .completed) (by simp [role])
    (by simp) (by simp [Carries])).cons_idle (e := .access) rfl trivial

theorem Script.failed (error : OperationError) :
    Script ctx d b m asked (markOperationAsFailed error) k .reject :=
  ((Script.nil.cons_idle (e := .updateOperationIdStatus .failed (some error)) rfl trivial).cons
    (e := .updateOperationStatus .failed) (by simp [role]) (by simp) (by simp [Carries])).cons_idle
    (e := .access) rfl trivial

theorem Script.detached (error : OperationError) :
    Script ctx d b m asked [.markOperationAsFailed error] k .reject :=
  Script.nil.cons (e := .markOperationAsFailed error) (by simp [role]) (by simp) trivial

theorem Script.schedule {data : MessageData π} (h : Fits ctx b m asked data) :
    Script ctx d b m asked (scheduleOperationForLeftoverNodes data data.leftoverNodes) k .token :=
  Script.nil.cons (e := .add (.scheduleMessages data)) (by simp [role]) (by simp) ⟨data, rfl, h⟩

/-- PUBLISH: what processing a response leads to carries out the service's decision. -/
theorem PublishService.decides {data : MessageData π} (h : Fits ctx b m asked data)
    (completedNumber failedNumber : ℕ) :
    Script ctx d b m asked (PublishService.processResponse data completedNumber failedNumber) k
      (decisionRole (publishDecision b m (OtNode.numberOfFoundNodes ctx)
        ((shardNodes ctx).length - asked) (completedNumber + failedNumber) completedNumber)) := by
  have hlen : data.leftoverNodes.length = (shardNodes ctx).length - asked := by
    rw [h.leftoverNodes, List.length_drop]
  have hminAcks : ∀ {es : List (Effect π)} {r : Role}, Script ctx d b m asked es k r →
      Script ctx d b m asked ((if completedNumber = m then [.updateMinAcksReached] else []) ++ es)
        k r := by
    intro es r hes
    split
    · exact hes.cons_idle rfl trivial
    · exact hes
  unfold PublishService.processResponse publishDecision
  rw [h.numberOfFoundNodes, h.batchSize, h.minAckResponses, hlen]
  refine hminAcks ?_
  split
  · by_cases hm : m ≤ completedNumber
    · simpa [hm, decisionRole] using Script.completed _
    · simpa [hm, decisionRole] using Script.failed _
  · by_cases hfull : isMultipleOf (completedNumber + failedNumber - 1) b
    · by_cases hreach : m ≤ completedNumber + ((shardNodes ctx).length - asked)
      · by_cases hmore : 0 < (shardNodes ctx).length - asked
        · simpa [hfull, hreach, hmore, decisionRole] using Script.schedule h
        · simpa [hfull, hreach, hmore, decisionRole] using Script.nil
      · simpa [hfull, hreach, decisionRole] using Script.failed _
    · simpa [hfull, decisionRole] using Script.nil

/-- GET: what processing a response leads to carries out the service's decision. -/
theorem GetService.decides {data : MessageData π} (h : Fits ctx b m asked data)
    (status : ResponseStatus) (completedNumber failedNumber : ℕ) :
    Script ctx d b m asked
      (GetService.processResponse data status completedNumber failedNumber) k
      (decisionRole (getDecision b m (OtNode.numberOfFoundNodes ctx)
        ((shardNodes ctx).length - asked) (decide (status = .completed))
        (completedNumber + failedNumber) completedNumber)) := by
  have hlen : data.leftoverNodes.length = (shardNodes ctx).length - asked := by
    rw [h.leftoverNodes, List.length_drop]
  unfold GetService.processResponse getDecision
  rw [h.numberOfFoundNodes, h.batchSize, h.minAckResponses, hlen]
  simp only [decide_eq_true_eq]
  split
  · exact Script.completed _
  · split
    · split
      · exact Script.schedule h
      · exact Script.detached _
    · exact Script.nil

end OtNode
