import OtNode.Lib.RoundRobin
import OtNode.Lib.Table
import Mathlib.Data.List.Dedup
import Mathlib.Data.List.MinMax

/-! The transaction queues of the operational wallets of a blockchain.

    A transaction is queued where the fewest others wait. Wallets with equally many take turns, in
    an order that is a list of its own: a queue that is removed keeps its place there. -/

namespace OtNode

/-- A transaction in a queue. -/
structure QueuedTransaction (τ : Type) where
  functionName : String
  transaction : τ
  priority : ℕ

/-- `async.priorityQueue`. What its workers do with a queue is left open. -/
class PriorityQueue (τ : outParam Type) (Queue : Type) where
  create (concurrency : ℕ) : Queue
  /-- `push(data, priority)`. -/
  push (transaction : QueuedTransaction τ) (queue : Queue) : Queue
  /-- `length()`: the transactions that wait. -/
  length (queue : Queue) : ℕ

/-- The queue of a wallet. -/
structure TransactionQueue (Queue : Type) where
  wallet : String
  queue : Queue

/-- `TRANSACTION_PRIORITY.MEDIUM`. -/
def TransactionPriority.medium : ℕ := 5

/-- `CONTRACT_FUNCTION_PRIORITY`. -/
def contractFunctionPriority (_functionName : String) : Option ℕ := none

/-- `TRANSACTION_QUEUE_CONCURRENCY`. -/
def transactionQueueConcurrency : ℕ := 1

namespace TransactionQueue

variable {τ Queue : Type} [PriorityQueue τ Queue] (queue : TransactionQueue Queue)

def length : ℕ := PriorityQueue.length queue.queue

def push (transaction : QueuedTransaction τ) : TransactionQueue Queue :=
  { queue with queue := PriorityQueue.push transaction queue.queue }

end TransactionQueue

/-- The queues by their wallets. -/
abbrev QueueTable (Queue : Type) := Table fun queue : TransactionQueue Queue => queue.wallet

/-- The queues, and the order of their turns. -/
structure TransactionQueues (Queue : Type) where
  transactionQueues : QueueTable Queue
  transactionQueueOrder : List String

/-- What happens to the queues. -/
inductive QueueAction (τ Queue : Type) where
  | queueTransaction (functionName : String) (transaction : τ)
  /-- The workers of a wallet leave its queue like this. -/
  | work (wallet : String) (queue : Queue)
  | removeTransactionQueue (wallet : String)

namespace TransactionQueues

variable {τ Queue : Type} [PriorityQueue τ Queue]

/-- A queue replaces one of its wallet. -/
def assign : Table.Merge fun queue : TransactionQueue Queue => queue.wallet where
  apply old new := { new with wallet := old.wallet }
  keeps _ _ := rfl

/-- `initializeTransactionQueues`. -/
def initializeTransactionQueues (operationalWallets : List String)
    (concurrency : ℕ := transactionQueueConcurrency) : TransactionQueues Queue :=
  let transactionQueues : QueueTable Queue :=
    Table.empty.upsertAll assign (operationalWallets.map fun wallet =>
      { wallet, queue := PriorityQueue.create concurrency })
  ⟨transactionQueues, transactionQueues.keys⟩

variable (s : TransactionQueues Queue)

/-- The wallets where the fewest transactions wait. -/
def shortestQueues : List String :=
  match (s.transactionQueues.rows.map (·.length)).min? with
  | none => []
  | some minLength =>
    (s.transactionQueues.rows.filter fun queue => queue.length = minLength).map (·.wallet)

/-- `selectTransactionQueue`: the wallet of the queue that is returned. -/
def selectTransactionQueue : Option String × TransactionQueues Queue :=
  match s.shortestQueues with
  | [wallet] => (some wallet, s)
  | shortestQueues =>
    match s.transactionQueueOrder.find? fun roundRobinNext =>
        shortestQueues.any (· == roundRobinNext) with
    | some selectedQueueWallet => (some selectedQueueWallet,
        { s with transactionQueueOrder :=
            s.transactionQueueOrder.erase selectedQueueWallet ++ [selectedQueueWallet] })
    -- `splice(-1, 1)` takes out the last wallet, which is pushed again
    | none => (none, s)

/-- The queue of a wallet changes. -/
def updateQueue (wallet : String) (f : TransactionQueue Queue → TransactionQueue Queue)
    (keeps : ∀ queue, (f queue).wallet = queue.wallet) : TransactionQueues Queue :=
  { s with
    transactionQueues := s.transactionQueues.update (fun queue => queue.wallet == wallet) f keeps }

/-- `queueTransaction`. Without a queue it throws. -/
def queueTransaction (functionName : String) (transaction : τ) : TransactionQueues Queue :=
  let priority := (contractFunctionPriority functionName).getD TransactionPriority.medium
  match s.selectTransactionQueue with
  | (some wallet, s') =>
    s'.updateQueue wallet (·.push ⟨functionName, transaction, priority⟩) fun _ => rfl
  | (none, s') => s'

/-- `removeTransactionQueue`. -/
def removeTransactionQueue (walletAddress : String) : TransactionQueues Queue :=
  { s with transactionQueues := s.transactionQueues.destroy fun queue =>
      queue.wallet == walletAddress }

/-- STEP. -/
def act : QueueAction τ Queue → TransactionQueues Queue
  | .queueTransaction functionName transaction => s.queueTransaction functionName transaction
  | .work wallet queue => s.updateQueue wallet ({ · with queue }) fun _ => rfl
  | .removeTransactionQueue wallet => s.removeTransactionQueue wallet

/-- RUN. -/
def run (actions : List (QueueAction τ Queue)) : TransactionQueues Queue := actions.foldl act s

/-- The selections of a run: the wallets tied at the minimum, and the one that is selected. -/
def selections (s : TransactionQueues Queue) :
    List (QueueAction τ Queue) → List (RoundRobin.Turn String)
  | [] => []
  | .queueTransaction functionName transaction :: actions =>
    ⟨s.shortestQueues, s.selectTransactionQueue.1⟩ ::
      selections (s.queueTransaction functionName transaction) actions
  | action :: actions => selections (s.act action) actions

variable {s}

/-! ### The shortest queues -/

theorem mem_shortestQueues {wallet : String} : wallet ∈ s.shortestQueues ↔
    ∃ queue ∈ s.transactionQueues.rows, queue.wallet = wallet ∧
      ∀ other ∈ s.transactionQueues.rows, queue.length ≤ other.length := by
  rw [shortestQueues]
  cases hmin : (s.transactionQueues.rows.map (·.length)).min? with
  | none =>
    have hrows : s.transactionQueues.rows = [] := by simpa using hmin
    simp [hrows]
  | some minLength =>
    obtain ⟨hmem, hle⟩ := List.min?_eq_some_iff.mp hmin
    simp only [List.mem_map, List.mem_filter, decide_eq_true_eq]
    constructor
    · rintro ⟨queue, ⟨hqueue, hlength⟩, rfl⟩
      refine ⟨queue, hqueue, rfl, ?_⟩
      intro other hother
      rw [hlength]
      exact hle _ (List.mem_map_of_mem hother)
    · rintro ⟨queue, hqueue, rfl, hshortest⟩
      obtain ⟨other, hother, rfl⟩ := List.mem_map.mp hmem
      exact ⟨queue, ⟨hqueue, le_antisymm (hshortest other hother)
        (hle _ (List.mem_map_of_mem hqueue))⟩, rfl⟩

theorem shortestQueues_ne_nil (h : s.transactionQueues.rows ≠ []) : s.shortestQueues ≠ [] := by
  rw [shortestQueues]
  cases hmin : (s.transactionQueues.rows.map (·.length)).min? with
  | none => exact absurd (by simpa using hmin) h
  | some minLength =>
    obtain ⟨queue, hqueue, hlength⟩ := List.mem_map.mp (List.min?_eq_some_iff.mp hmin).1
    have hfilter : queue ∈ s.transactionQueues.rows.filter fun queue => queue.length = minLength :=
      List.mem_filter.mpr ⟨hqueue, by simpa using hlength⟩
    exact List.ne_nil_of_mem (List.mem_map_of_mem hfilter)

/-- A selection is a turn of the shortest queues. -/
theorem selectTransactionQueue_eq (s : TransactionQueues Queue) :
    s.selectTransactionQueue =
      ((RoundRobin.serve s.shortestQueues s.transactionQueueOrder).1,
        { s with transactionQueueOrder :=
            (RoundRobin.serve s.shortestQueues s.transactionQueueOrder).2 }) := by
  have hany : ∀ (wallets : List String) (wallet : String),
      wallets.any (· == wallet) = decide (wallet ∈ wallets) := by
    intro wallets wallet
    rw [List.any_beq', List.contains_eq_mem]
  rcases hshortest : s.shortestQueues with - | ⟨wallet, - | ⟨other, wallets⟩⟩
  · simp only [selectTransactionQueue, RoundRobin.serve, hshortest, hany]
    cases s.transactionQueueOrder.find? (· ∈ ([] : List String)) <;> rfl
  · simp only [selectTransactionQueue, RoundRobin.serve, hshortest]
  · simp only [selectTransactionQueue, RoundRobin.serve, hshortest, hany]
    cases s.transactionQueueOrder.find? (· ∈ wallet :: other :: wallets) <;> rfl

/-! ### The order -/

/-- Every queue has its place in the order, in which no wallet comes twice. -/
structure Ordered (wallets : List String) (s : TransactionQueues Queue) : Prop where
  perm : s.transactionQueueOrder.Perm wallets
  nodup : s.transactionQueueOrder.Nodup
  subset : ∀ wallet ∈ s.transactionQueues.keys, wallet ∈ s.transactionQueueOrder

theorem keys_initializeTransactionQueues (operationalWallets : List String) (concurrency : ℕ) :
    (initializeTransactionQueues operationalWallets concurrency :
      TransactionQueues Queue).transactionQueueOrder.Perm operationalWallets.dedup := by
  refine (List.perm_ext_iff_of_nodup (Table.nodup_keys _) (List.nodup_dedup _)).mpr ?_
  intro wallet
  rw [Table.mem_keys_upsertAll, List.map_map, List.mem_dedup]
  simp

theorem ordered_initialize (operationalWallets : List String) (concurrency : ℕ) :
    Ordered operationalWallets.dedup
      (initializeTransactionQueues operationalWallets concurrency : TransactionQueues Queue) where
  perm := keys_initializeTransactionQueues operationalWallets concurrency
  nodup := Table.nodup_keys _
  subset _ h := h

namespace Ordered

variable {wallets : List String} (h : Ordered wallets s)

include h

/-- A shortest queue has its place. -/
theorem mem_order {wallet : String} (hshortest : wallet ∈ s.shortestQueues) :
    wallet ∈ s.transactionQueueOrder := by
  obtain ⟨queue, hqueue, rfl, -⟩ := mem_shortestQueues.mp hshortest
  exact h.subset _ (List.mem_map_of_mem hqueue)

theorem select : Ordered wallets s.selectTransactionQueue.2 := by
  have hperm := RoundRobin.serve_perm s.shortestQueues s.transactionQueueOrder
  rw [selectTransactionQueue_eq]
  exact ⟨hperm.trans h.perm, hperm.nodup_iff.mpr h.nodup,
    fun wallet hwallet => hperm.mem_iff.mpr (h.subset wallet hwallet)⟩

theorem updateQueue (wallet : String) (f : TransactionQueue Queue → TransactionQueue Queue)
    (keeps : ∀ queue, (f queue).wallet = queue.wallet) :
    Ordered wallets (s.updateQueue wallet f keeps) where
  perm := h.perm
  nodup := h.nodup
  subset other hother := h.subset other (by simpa [TransactionQueues.updateQueue] using hother)

theorem queueTransaction (functionName : String) (transaction : τ) :
    Ordered wallets (s.queueTransaction functionName transaction) := by
  have hselect := h.select
  rw [TransactionQueues.queueTransaction]
  split
  · next wallet s' heq =>
    rw [heq] at hselect
    exact hselect.updateQueue ..
  · next s' heq =>
    rw [heq] at hselect
    exact hselect

/-- STEP: whatever happens, the order keeps its wallets. -/
theorem act (action : QueueAction τ Queue) : Ordered wallets (s.act action) := by
  cases action with
  | queueTransaction functionName transaction => exact h.queueTransaction functionName transaction
  | work wallet queue => exact h.updateQueue ..
  | removeTransactionQueue wallet =>
    refine ⟨h.perm, h.nodup, fun other hother => h.subset other ?_⟩
    exact (Table.mem_keys_destroy (q := (· == wallet)) |>.mp hother).1

omit h in
/-- RUN. -/
theorem run (h : Ordered wallets s) (actions : List (QueueAction τ Queue)) :
    Ordered wallets (s.run actions) := by
  induction actions generalizing s with
  | nil => exact h
  | cons action actions ih => exact ih (h.act action)

/-- The queue that is selected exists, and none is shorter. -/
theorem select_shortest (hqueue : s.transactionQueues.rows ≠ []) :
    ∃ queue ∈ s.transactionQueues.rows, s.selectTransactionQueue.1 = some queue.wallet ∧
      ∀ other ∈ s.transactionQueues.rows, queue.length ≤ other.length := by
  obtain ⟨wallet, hwallet, hserved⟩ :=
    RoundRobin.serve_mem (shortestQueues_ne_nil hqueue) fun _ => h.mem_order
  obtain ⟨queue, hmem, rfl, hshortest⟩ := mem_shortestQueues.mp hwallet
  exact ⟨queue, hmem, by rw [selectTransactionQueue_eq, hserved], hshortest⟩

end Ordered

/-! ### Turns -/

theorem order_queueTransaction (functionName : String) (transaction : τ) :
    (s.queueTransaction functionName transaction).transactionQueueOrder =
      (RoundRobin.serve s.shortestQueues s.transactionQueueOrder).2 := by
  have hselect := congrArg (fun selected => selected.2.transactionQueueOrder)
    s.selectTransactionQueue_eq
  rw [queueTransaction]
  split
  · next wallet s' heq =>
    rw [heq] at hselect
    exact hselect
  · next s' heq =>
    rw [heq] at hselect
    exact hselect

/-- The selections of a run are the turns of its order. -/
theorem selections_eq (actions : List (QueueAction τ Queue)) : s.selections actions =
    RoundRobin.turns s.transactionQueueOrder ((s.selections actions).map (·.eligible)) := by
  induction actions generalizing s with
  | nil => rfl
  | cons action actions ih =>
    cases action with
    | queueTransaction functionName transaction =>
      rw [selections, List.map_cons, RoundRobin.turns, ← order_queueTransaction, ← ih,
        selectTransactionQueue_eq]
    | work wallet queue => exact ih
    | removeTransactionQueue wallet => exact ih

/-- Who is tied has a place in the order. -/
theorem mem_order_of_tied {wallets : List String} (h : Ordered wallets s)
    {actions : List (QueueAction τ Queue)} {turn : RoundRobin.Turn String}
    (hturn : turn ∈ s.selections actions) {wallet : String} (htied : wallet ∈ turn.eligible) :
    wallet ∈ wallets := by
  induction actions generalizing s with
  | nil => cases hturn
  | cons action actions ih =>
    cases action with
    | queueTransaction functionName transaction =>
      rcases List.mem_cons.mp hturn with rfl | hturn
      · exact h.perm.mem_iff.mp (h.mem_order htied)
      · exact ih (h.queueTransaction functionName transaction) hturn
    | work wallet queue => exact ih (h.act (.work wallet queue)) hturn
    | removeTransactionQueue wallet => exact ih (h.act (.removeTransactionQueue wallet)) hturn

/-- CORRECT (run): in every state a queue is selected that exists and that is shortest, the order
    keeps the wallets, and of wallets that stay tied none is selected twice before all others. -/
theorem selectTransactionQueue_turns (operationalWallets : List String) (concurrency : ℕ)
    (actions : List (QueueAction τ Queue)) :
    let initial : TransactionQueues Queue :=
      initializeTransactionQueues operationalWallets concurrency
    (initial.run actions).transactionQueueOrder.Perm operationalWallets.dedup ∧
      ((initial.run actions).transactionQueues.rows ≠ [] →
        ∃ queue ∈ (initial.run actions).transactionQueues.rows,
          (initial.run actions).selectTransactionQueue.1 = some queue.wallet ∧
            ∀ other ∈ (initial.run actions).transactionQueues.rows, queue.length ≤ other.length) ∧
      ∀ (tied : Set String) (before middle after : List (RoundRobin.Turn String))
        (first last : RoundRobin.Turn String),
        initial.selections actions = before ++ first :: (middle ++ last :: after) →
        (∀ turn ∈ first :: (middle ++ [last]), ∀ wallet ∈ tied, wallet ∈ turn.eligible) →
        ∀ wallet ∈ tied, first.served = some wallet → last.served = some wallet →
          ∀ other ∈ tied, other ≠ wallet → ∃ turn ∈ middle, turn.served = some other := by
  intro initial
  have hinitial : Ordered operationalWallets.dedup initial := ordered_initialize _ _
  refine ⟨(hinitial.run actions).perm, (hinitial.run actions).select_shortest, ?_⟩
  intro tied before middle after first last hselections htied wallet hwallet hfirst hlast other
    hother hne
  have hmem : first ∈ initial.selections actions := by simp [hselections]
  have horder := hinitial.perm.mem_iff.mpr
    (mem_order_of_tied hinitial hmem (htied first List.mem_cons_self other hother))
  rw [selections_eq] at hselections
  exact RoundRobin.turns_fair hne hinitial.nodup horder hselections
    (fun turn hturn => ⟨htied turn hturn other hother, htied turn hturn wallet hwallet⟩) hfirst hlast

/-- The transactions that wait, in the order in which they are taken. -/
abbrev WaitingList (τ : Type) := List (QueuedTransaction τ)

instance {τ : Type} : PriorityQueue τ (WaitingList τ) where
  create _ := []
  push transaction waiting :=
    waiting.takeWhile (·.priority ≤ transaction.priority) ++
      transaction :: waiting.dropWhile (·.priority ≤ transaction.priority)
  length := List.length

/-- Three transactions, each of which a worker takes at once. -/
def threeTaken : List (QueueAction Unit (WaitingList Unit)) :=
  [.queueTransaction "createProfile" (), .work "0xa" [], .queueTransaction "createProfile" (),
    .work "0xb" [], .queueTransaction "createProfile" ()]

theorem selectTransactionQueue_turns_two :
    ∃ turn ∈ [(⟨["0xa", "0xb"], some "0xb"⟩ : RoundRobin.Turn String)], turn.served = some "0xb" :=
  (selectTransactionQueue_turns ["0xa", "0xb"] 1 threeTaken).2.2 {"0xa", "0xb"} []
    [⟨["0xa", "0xb"], some "0xb"⟩] [] ⟨["0xa", "0xb"], some "0xa"⟩ ⟨["0xa", "0xb"], some "0xa"⟩ rfl
    (by simp) "0xa" (by simp) rfl rfl "0xb" (by simp) (by decide)

end TransactionQueues

end OtNode
