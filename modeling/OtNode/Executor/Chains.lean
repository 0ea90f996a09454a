import OtNode.Executor.Custody
import Mathlib.Algebra.BigOperators.Group.List.Basic
import Mathlib.Algebra.Order.Group.Multiset
import Mathlib.Tactic.Abel

/-! Chains of commands that survive crashes.

    The rows of children are inserted before their parent is `COMPLETED`, and the replay takes a row
    whose parent is `COMPLETED` at that time. This is right as long as the parent's row says of the
    execution that returned the row whether it was completed. -/

namespace OtNode.CommandExecutor

open Executor (CommandStatus)

variable {δ : Type}

/-- The calls of `add` by which a command that is not carried yet gets on the queue. -/
def Caller.Grants (caller : Caller) : Prop := caller = .children ∨ caller = .replay

instance (caller : Caller) : Decidable caller.Grants :=
  inferInstanceAs (Decidable (caller = .children ∨ caller = .replay))

/-- A task is to put the command on the queue, unless `add` refuses it. -/
def Task.Adds (id : ℕ) : Task δ → Prop
  | .checking c caller => caller.Grants ∧ c.id = id
  | .addingChildren _ children => id ∈ children.map (·.id)
  | _ => False

namespace State

variable (s : State δ)

/-- The row was returned by an execution of a command that was not permanent and had a parent. -/
def Chained (id : ℕ) (o : Origin) : Prop := s.origin id = some o ∧ o.chained = true

/-- What is to hold of chains. Children of an execution that was not completed are not executed. A
    child of a completed one is queued at most once since the last start, and once the replay is over
    it has been, or `add` is about to queue it. -/
structure Safe : Prop where
  executed : ∀ id ∈ s.executed, ∀ o, s.Chained id o → o.execution ∈ s.completed
  atMostOnce : ∀ id o, s.Chained id o → s.handed.count id ≤ 1
  queued : ∀ id row o, s.rows id = some row → isFinalized row.status = false → s.Chained id o →
    o.execution ∈ s.completed → s.replay = .finished → (∀ t ∈ s.tasks, ¬ t.Adds id) → id ∈ s.handed

/-- The row that the replay looks at. -/
def lookedAt : Action δ → Option (Row δ)
  | .look true =>
    match s.replay with
    | .looking (row :: _) _ => some row
    | _ => none
  | _ => none

/-- The child for which `add` has looked for unfinalized commands, and whether it could. -/
def checkedChild : Action δ → Option (Command δ × Bool)
  | .reply i .returns =>
    match s.tasks[i]? with
    | some (.checking c caller) => if caller.Grants then some (c, true) else none
    | _ => none
  | .reply i .fails =>
    match s.tasks[i]? with
    | some (.checking c .children) => some (c, false)
    | _ => none
  | .replyChild i j ok =>
    match s.tasks[i]? with
    | some (.addingChildren _ children) => children[j]?.map (·, ok)
    | _ => none
  | _ => none

/-- A step that takes no chain apart: of a child's row the replay takes exactly those whose execution
    was completed before the start, and `add` queues each child. -/
def Clean [DecidableEq δ] (a : Action δ) : Prop :=
  (∀ row ∈ s.lookedAt a, ∀ o ∈ s.origin row.id, o.chained = true →
    (s.takes row = true ↔ o.execution ∈ s.completed ∧ o.session < s.session)) ∧
  ∀ child ∈ s.checkedChild a, ∀ o ∈ s.origin child.1.id, o.chained = true →
    child.2 = true ∧ s.refuses child.1 = false

instance [DecidableEq δ] (a : Action δ) : Decidable (s.Clean a) :=
  inferInstanceAs (Decidable (_ ∧ _))

/-- `Clean` holds at each step. -/
def CleanThroughout [DecidableEq δ] : State δ → List (Action δ) → Prop
  | _, [] => True
  | s, a :: actions => s.Clean a ∧ CleanThroughout (s.act a) actions

instance CleanThroughout.decidable [DecidableEq δ] :
    (s : State δ) → (actions : List (Action δ)) → Decidable (s.CleanThroughout actions)
  | _, [] => inferInstanceAs (Decidable True)
  | s, a :: actions =>
    have := CleanThroughout.decidable (s.act a) actions
    inferInstanceAs (Decidable (_ ∧ _))

end State

/-! ### The custody of a state -/

/-- The tokens of a task. -/
def Task.tokens : Task δ → Multiset Token
  | .adding _ | .inserting _ => 0
  | .checking c caller => if caller.Grants then {.granted c.id} else {.carried c.id}
  | .insertingChild _ n _ => {.stray n}
  | .executing c n | .finishing c n => .running n ::ₘ {.carried c.id}
  | .insertingChildren c n _ children | .completing c n children =>
    .running n ::ₘ ((children.map (·.id) : Multiset ℕ).map (Token.returned n) + {.carried c.id})
  | .addingChildren c children =>
    (children.map (·.id) : Multiset ℕ).map Token.granted + {.carried c.id}
  | .starting c | .expiring c | .marking c | .repeating c | .retrying c | .spending c | .failing c
  | .recovering c | .reopening c => {.carried c.id}

namespace State

variable (s : State δ)

/-- The tokens of the replay: the rows it has taken. -/
def replayTokens : Multiset Token :=
  match s.replay with
  | .looking _ commands => (commands.map (·.id) : Multiset ℕ).map Token.granted
  | _ => 0

/-- The tokens of a state. -/
def tokens : Multiset Token :=
  (s.queue.map (·.id) : Multiset ℕ).map Token.carried + (s.tasks.map Task.tokens).sum +
    s.replayTokens

/-- How far the replay of a state is. -/
def phase : Phase :=
  match s.replay with
  | .reading => .reading
  | .looking left _ => .looking (left.map (·.id))
  | .finished => .finished

/-- The custody of a state, with tokens in hand. -/
def custody (tokens : Multiset Token) : Custody where
  live id := ∃ row, s.rows id = some row ∧ isFinalized row.status = false
  permanent id := ∃ row, s.rows id = some row ∧ row.name ∈ PERMANENT_COMMANDS
  tokens := tokens + s.tokens
  phase := s.phase
  nextId := s.nextId
  nextExecution := s.nextExecution
  session := s.session
  origin := s.origin
  completed := s.completed
  executed := s.executed
  handed := s.handed

/-- The invariant, with tokens in hand. A row is kept under its id. -/
structure Holds (tokens : Multiset Token) : Prop where
  good : (s.custody tokens).Good
  rows : ∀ id row, s.rows id = some row → row.id = id ∧ id < s.nextId

variable {s} {t : Task δ} {c : Command δ} {new : NewCommand δ} {i n x : ℕ} {N N' : Multiset Token}

@[simp] theorem rows_update_self {change : Row δ → Row δ} :
    (s.update x change).rows x = (s.rows x).map change := Function.update_self ..

theorem rows_update_of_ne {change : Row δ → Row δ} {id : ℕ} (h : id ≠ x) :
    (s.update x change).rows id = s.rows id := Function.update_of_ne h ..

@[simp] theorem rows_insert_self {parentId : Option ℕ} {origin : Option Origin} :
    (s.insert new parentId origin).rows s.nextId = some (s.newRow new parentId) :=
  Function.update_self ..

theorem rows_insert_of_ne {parentId : Option ℕ} {origin : Option Origin} {id : ℕ}
    (h : id ≠ s.nextId) : (s.insert new parentId origin).rows id = s.rows id :=
  Function.update_of_ne h ..

@[simp] theorem tokens_start : (s.start t).tokens = t.tokens + s.tokens := by
  simp only [tokens, start, List.map_append, List.map_singleton, List.sum_append,
    List.sum_singleton]
  have hreplay : replayTokens { s with tasks := s.tasks ++ [t] } = s.replayTokens := rfl
  rw [hreplay]
  abel

@[simp] theorem tokens_enqueue : (s.enqueue c).tokens = {.carried c.id} + s.tokens := by
  have hreplay : (s.enqueue c).replayTokens = s.replayTokens := rfl
  have hqueue : ((s.enqueue c).queue.map (·.id) : Multiset ℕ).map Token.carried =
      (s.queue.map (·.id) : Multiset ℕ).map Token.carried + {.carried c.id} := by
    simp only [enqueue, List.map_append, List.map_singleton, ← Multiset.coe_add, Multiset.map_add]
    rfl
  have htasks : (s.enqueue c).tasks = s.tasks := rfl
  rw [tokens, hqueue, hreplay, htasks, tokens]
  abel

theorem tokens_withoutTask (h : s.tasks[i]? = some t) :
    s.tokens = t.tokens + { s with tasks := s.tasks.eraseIdx i }.tokens := by
  obtain ⟨hlt, rfl⟩ := List.getElem?_eq_some_iff.mp h
  have hsum : (s.tasks.map Task.tokens).sum =
      s.tasks[i].tokens + ((s.tasks.eraseIdx i).map Task.tokens).sum := by
    have hperm := ((List.getElem_cons_eraseIdx_perm hlt).map Task.tokens).sum_eq
    rw [← hperm, List.map_cons, List.sum_cons]
  have hreplay : replayTokens { s with tasks := s.tasks.eraseIdx i } = s.replayTokens := rfl
  simp only [tokens, hreplay, hsum]
  abel

theorem mem_sum_tokens {token : Token} {tasks : List (Task δ)} :
    token ∈ (tasks.map Task.tokens).sum ↔ ∃ t ∈ tasks, token ∈ t.tokens := by
  induction tasks with
  | nil => simp
  | cons t tasks ih =>
    rw [List.map_cons, List.sum_cons, Multiset.mem_add, ih]
    simp

/-- Where a token of a state is. -/
theorem mem_tokens {token : Token} : token ∈ s.tokens ↔
    (∃ c ∈ s.queue, token = .carried c.id) ∨ (∃ t ∈ s.tasks, token ∈ t.tokens) ∨
      token ∈ s.replayTokens := by
  have hqueue : token ∈ (s.queue.map (·.id) : Multiset ℕ).map Token.carried ↔
      ∃ c ∈ s.queue, token = .carried c.id := by
    simp [eq_comm]
  rw [tokens, Multiset.mem_add, Multiset.mem_add, mem_sum_tokens, hqueue, or_assoc]

theorem mem_replayTokens {token : Token} (h : token ∈ s.replayTokens) :
    ∃ id, token = .granted id := by
  rw [replayTokens] at h
  split at h
  · obtain ⟨id, -, rfl⟩ := Multiset.mem_map.mp h
    exact ⟨id, rfl⟩
  · cases h

/-- A child an execution has returned is held by the task of the execution. -/
theorem Task.running_of_returned (h : .returned n x ∈ t.tokens) : .running n ∈ t.tokens := by
  cases t with
  | checking c caller =>
    rw [Task.tokens] at h
    split at h <;> simp at h
  | insertingChildren c m left children =>
    obtain ⟨-, -, rfl, -⟩ : ∃ child ∈ children, m = n ∧ child.id = x := by
      simpa [Task.tokens] using h
    rw [Task.tokens]
    exact Multiset.mem_cons_self _ _
  | completing c m children =>
    obtain ⟨-, -, rfl, -⟩ : ∃ child ∈ children, m = n ∧ child.id = x := by
      simpa [Task.tokens] using h
    rw [Task.tokens]
    exact Multiset.mem_cons_self _ _
  | _ => simp [Task.tokens] at h

theorem running_of_returned (h : .returned n x ∈ s.tokens) : .running n ∈ s.tokens := by
  rcases mem_tokens.mp h with ⟨c, -, heq⟩ | ⟨t, ht, hmem⟩ | hmem
  · cases heq
  · exact mem_tokens.mpr (.inr (.inl ⟨t, ht, Task.running_of_returned hmem⟩))
  · obtain ⟨id, heq⟩ := mem_replayTokens hmem
    cases heq

/-! ### Rules for states -/

namespace Holds

theorem of_tokens (h : s.Holds N) (heq : N = N') : s.Holds N' := heq ▸ h

/-- The tokens of a task are in hand while one of its calls ends. -/
theorem withoutTask (h : s.Holds 0) (ht : s.tasks[i]? = some t) :
    { s with tasks := s.tasks.eraseIdx i }.Holds t.tokens := by
  refine ⟨?_, h.rows⟩
  have hgood := h.good
  rw [custody, Multiset.zero_add, tokens_withoutTask ht] at hgood
  exact hgood

theorem start (h : s.Holds (t.tokens + N)) : (s.start t).Holds N := by
  refine ⟨?_, h.rows⟩
  have hgood := h.good
  rw [custody, Multiset.add_assoc, add_left_comm, ← tokens_start] at hgood
  exact hgood

theorem enqueue (h : s.Holds (.carried c.id ::ₘ N)) : (s.enqueue c).Holds N := by
  refine ⟨?_, h.rows⟩
  have hgood := h.good
  rw [custody, ← Multiset.singleton_add, Multiset.add_assoc, add_left_comm,
    ← tokens_enqueue] at hgood
  exact hgood

theorem lose {t : Token} (ht : (∃ x, t = .carried x) ∨ ∃ n, t = .stray n)
    (h : s.Holds (t ::ₘ N)) : s.Holds N := by
  refine ⟨?_, h.rows⟩
  have hgood := h.good
  rw [custody, Multiset.cons_add] at hgood
  exact Custody.Good.lose (q := s.custody N) ht hgood

theorem refuse (h : s.Holds (.granted x ::ₘ N)) (hx : ∀ o, s.Chained x o → x ∈ s.handed) :
    s.Holds N := by
  refine ⟨?_, h.rows⟩
  have hgood := h.good
  rw [custody, Multiset.cons_add] at hgood
  exact Custody.Good.refuse (q := s.custody N) hgood hx

theorem hand (h : s.Holds (.granted c.id ::ₘ N)) : (s.hand c).Holds N := by
  refine ⟨?_, h.rows⟩
  have hgood := h.good
  rw [custody, Multiset.cons_add] at hgood
  have hhand := Custody.Good.hand (q := s.custody N) hgood
  rw [← Multiset.singleton_add, add_left_comm, ← tokens_enqueue] at hhand
  exact hhand

theorem abandon (children : Multiset ℕ) (k : ℕ)
    (h : s.Holds (.running n ::ₘ (children.map (Token.returned n) + N))) :
    s.Holds (Multiset.replicate k (.stray n) + N) := by
  refine ⟨?_, h.rows⟩
  have hgood := h.good
  rw [custody, Multiset.cons_add, Multiset.add_assoc] at hgood
  have habandon := Custody.Good.abandon (q := s.custody N) (k := k) hgood
  rw [← Multiset.add_assoc] at habandon
  exact habandon

/-- The row of a command that is carried is written. -/
theorem update {change : Row δ → Row δ} (hid : ∀ row, (change row).id = row.id)
    (hname : ∀ row, (change row).name = row.name) (h : s.Holds N) (hx : .carried x ∈ N) :
    (s.update x change).Holds N := by
  have hrows : ∀ id row, (s.update x change).rows id = some row →
      s.rows id = some row ∨ id = x ∧ ∃ old, s.rows id = some old ∧ row = change old := by
    intro id row hrow
    by_cases hne : id = x
    · subst hne
      rw [rows_update_self] at hrow
      obtain ⟨old, hold, rfl⟩ := Option.map_eq_some_iff.mp hrow
      exact .inr ⟨rfl, old, hold, rfl⟩
    · rw [rows_update_of_ne hne] at hrow
      exact .inl hrow
  constructor
  · refine Custody.Good.write (q := s.custody N) h.good ?_ ?_
    · rintro id ⟨row, hrow, hlive⟩
      rcases hrows id row hrow with hsame | ⟨rfl, -⟩
      · exact .inl ⟨row, hsame, hlive⟩
      · exact .inr (Multiset.mem_add.mpr (.inl hx))
    · rintro id ⟨row, hrow, hpermanent⟩
      rcases hrows id row hrow with hsame | ⟨-, old, hold, rfl⟩
      · exact ⟨row, hsame, hpermanent⟩
      · exact ⟨old, hold, hname old ▸ hpermanent⟩
  · intro id row hrow
    rcases hrows id row hrow with hsame | ⟨-, old, hold, rfl⟩
    · exact h.rows id row hsame
    · obtain ⟨heq, hlt⟩ := h.rows id old hold
      exact ⟨(hid old).trans heq, hlt⟩

theorem updateStatus (status : CommandStatus) (h : s.Holds N) (hc : .carried c.id ∈ N) :
    (s.updateStatus c status).Holds N :=
  h.update (fun _ => rfl) (fun _ => rfl) hc

theorem execute (h : s.Holds (.carried c.id ::ₘ N)) : (s.execute c).Holds N := by
  refine ⟨?_, h.rows⟩
  have hx : Token.carried c.id ∈ .carried c.id ::ₘ N + s.tokens :=
    Multiset.mem_add.mpr (.inl (Multiset.mem_cons_self _ _))
  have hexecute := Custody.Good.execute (q := s.custody N) h.good hx
  have htokens : Token.running s.nextExecution ::ₘ (.carried c.id ::ₘ N + s.tokens) =
      N + (s.start (.executing c s.nextExecution)).tokens := by
    rw [tokens_start, Task.tokens, ← Multiset.singleton_add, ← Multiset.singleton_add,
      ← Multiset.singleton_add]
    abel
  have hcustody : (s.execute c).custody N = { s.custody N with
      tokens := Token.running s.nextExecution ::ₘ (.carried c.id ::ₘ N + s.tokens)
      nextExecution := s.nextExecution + 1
      executed := s.executed ++ [c.id] } := by
    rw [htokens]
    rfl
  rw [hcustody]
  exact hexecute

/-- A row is inserted. -/
theorem insert {parentId : Option ℕ} {origin : Option Origin} (h : s.Holds N)
    (hnew : Custody.Good.New (s.custody N) (N + s.tokens) origin N') :
    (s.insert new parentId origin).Holds (N' + N) := by
  have hrows : ∀ id row, (s.insert new parentId origin).rows id = some row →
      s.rows id = some row ∨ id = s.nextId ∧ row = s.newRow new parentId := by
    intro id row hrow
    by_cases hne : id = s.nextId
    · subst hne
      rw [rows_insert_self] at hrow
      exact .inr ⟨rfl, (Option.some.inj hrow).symm⟩
    · rw [rows_insert_of_ne hne] at hrow
      exact .inl hrow
  constructor
  · have hlive : ∀ id, (∃ row, (s.insert new parentId origin).rows id = some row ∧
        isFinalized row.status = false) → (s.custody N).live id ∨ id = (s.custody N).nextId := by
      rintro id ⟨row, hrow, hlive⟩
      rcases hrows id row hrow with hsame | ⟨rfl, -⟩
      · exact .inl ⟨row, hsame, hlive⟩
      · exact .inr rfl
    have hpermanent : ∀ id, (∃ row, (s.insert new parentId origin).rows id = some row ∧
        row.name ∈ PERMANENT_COMMANDS) →
        (s.custody N).permanent id ∨ id = (s.custody N).nextId := by
      rintro id ⟨row, hrow, hpermanent⟩
      rcases hrows id row hrow with hsame | ⟨rfl, -⟩
      · exact .inl ⟨row, hsame, hpermanent⟩
      · exact .inr rfl
    have hinsert := Custody.Good.insert (q := s.custody N) h.good hnew hlive hpermanent
    rw [← Multiset.add_assoc] at hinsert
    exact hinsert
  · intro id row hrow
    rcases hrows id row hrow with hsame | ⟨rfl, rfl⟩
    · obtain ⟨heq, hlt⟩ := h.rows id row hsame
      exact ⟨heq, Nat.lt_succ_of_lt hlt⟩
    · exact ⟨rfl, Nat.lt_succ_self _⟩

/-- The execution of a command that is carried is completed. -/
theorem complete {children : Multiset ℕ}
    (h : s.Holds (.running n ::ₘ (children.map (Token.returned n) + N))) (hc : .carried c.id ∈ N)
    (hN : ∀ x, .returned n x ∉ N) :
    (s.complete c n).Holds (children.map Token.granted + N) := by
  have hupdate := h.updateStatus .completed
    (Multiset.mem_cons_of_mem (Multiset.mem_add.mpr (.inr hc)))
  refine ⟨?_, hupdate.rows⟩
  have hgood := hupdate.good
  rw [custody, Multiset.cons_add, Multiset.add_assoc] at hgood
  have hcomplete := Custody.Good.complete (q := (s.updateStatus c .completed).custody N) hgood ?_
  · rw [← Multiset.add_assoc] at hcomplete
    exact hcomplete
  · intro x hx
    rcases Multiset.mem_add.mp hx with hx | hx
    · exact hN x hx
    · have honce := hgood.runningOnce n
      have hrunning : .running n ∈ s.tokens := running_of_returned hx
      have hpos := Multiset.count_pos.mpr hrunning
      have htokens : (s.updateStatus c .completed).tokens = s.tokens := rfl
      simp only [Multiset.count_cons_self, Multiset.count_add, htokens] at honce
      omega

theorem restart (h : s.Holds N) : s.restart.Holds 0 := by
  constructor
  · have hrestart := h.good.restart fun id =>
      ∃ row, s.restart.rows id = some row ∧ isFinalized row.status = false
    have htokens : s.restart.tokens = 0 := rfl
    have hpermanent : ∀ id, ¬ ∃ row, s.restart.rows id = some row ∧
        row.name ∈ PERMANENT_COMMANDS := by
      rintro id ⟨row, hrow, hname⟩
      obtain ⟨-, hkeep⟩ := Option.filter_eq_some_iff.mp hrow
      simp [hname] at hkeep
    have hcustody : s.restart.custody 0 = { s.custody N with
        live := fun id => ∃ row, s.restart.rows id = some row ∧ isFinalized row.status = false
        permanent := fun _ => False
        tokens := 0
        phase := .reading
        session := s.session + 1
        handed := [] } := by
      simp only [custody, htokens, hpermanent]
      rfl
    rw [hcustody]
    exact hrestart
  · intro id row hrow
    obtain ⟨hrow, -⟩ := Option.filter_eq_some_iff.mp hrow
    exact h.rows id row hrow

/-! ### Rules for the functions of the executor -/

theorem readd {caller : Caller} (hcaller : ¬ caller.Grants) (h : s.Holds (.carried c.id ::ₘ N)) :
    (s.readd c caller).Holds N := by
  rw [State.readd]
  split
  · refine Holds.start (h.of_tokens ?_)
    rw [Task.tokens, if_neg hcaller, Multiset.singleton_add]
  · exact h.enqueue

theorem handleError (h : s.Holds (.carried c.id ::ₘ N)) : (s.handleError c).Holds N := by
  rw [State.handleError]
  split
  · exact Holds.start (h.of_tokens (Multiset.singleton_add _ _).symm)
  · exact Holds.start (h.of_tokens (Multiset.singleton_add _ _).symm)

/-- The tokens of an execution with its children. -/
theorem insertChildren {left : List (NewCommand δ)} {children : List (Command δ)}
    (h : s.Holds (.running n ::ₘ ((children.map (·.id) : Multiset ℕ).map (Token.returned n) +
      {.carried c.id}) + N)) : (s.insertChildren c n left children).Holds N := by
  cases left with
  | nil => exact Holds.start h
  | cons new left => exact Holds.start h

/-- Commands that are granted are queued. -/
theorem handAll {children : List (Command δ)}
    (h : s.Holds ((children.map (·.id) : Multiset ℕ).map Token.granted + N)) :
    (children.foldl State.hand s).Holds N := by
  induction children generalizing s with
  | nil => simpa using h
  | cons c children ih =>
    refine ih (Holds.hand (h.of_tokens ?_))
    rw [List.map_cons, ← Multiset.cons_coe, Multiset.map_cons, Multiset.cons_add]

theorem addChildren {children : List (Command δ)}
    (h : s.Holds ((children.map (·.id) : Multiset ℕ).map Token.granted + .carried c.id ::ₘ N)) :
    (s.addChildren c children).Holds N := by
  have hperm : (children.map (·.id) : Multiset ℕ) =
      ((children.filter (!·.isBlocking)).map (·.id) : Multiset ℕ) +
        ((children.filter (·.isBlocking)).map (·.id) : Multiset ℕ) := by
    rw [Multiset.coe_add, Multiset.coe_eq_coe, ← List.map_append]
    exact ((List.filter_append_perm (·.isBlocking) children).symm.trans
      List.perm_append_comm).map _
  rw [hperm, Multiset.map_add, Multiset.add_assoc] at h
  have hhand := h.handAll
  simp only [State.addChildren]
  split
  · next hnone =>
    rw [hnone] at hhand
    exact (hhand.of_tokens (by simp)).lose (.inl ⟨c.id, rfl⟩)
  · refine Holds.start (hhand.of_tokens ?_)
    rw [Task.tokens, Multiset.add_assoc, Multiset.singleton_add]

/-- An execution that has not returned children ends without completion. -/
theorem stop (h : s.Holds (.running n ::ₘ N)) : s.Holds N := by
  have hstop : s.Holds (.running n ::ₘ ((0 : Multiset ℕ).map (Token.returned n) + N)) :=
    h.of_tokens (by simp)
  exact (hstop.abandon 0 0).of_tokens (by simp)

theorem insertRoot (h : s.Holds N) :
    ((s.insert new none none).enqueue (s.newRow new none).toCommand).Holds N :=
  Holds.enqueue (h.insert .root)

theorem insertChild (h : s.Holds N) (hrunning : .running n ∈ N) :
    (s.insertChild c n new).Holds (.returned n s.nextId ::ₘ N) :=
  h.insert (.child n _ (Multiset.mem_add.mpr (.inl hrunning)))

theorem insertStray (h : s.Holds (.stray n ::ₘ N)) : (s.insertChild c n new).Holds N := by
  have hnew : Custody.Good.New (s.custody (.stray n ::ₘ N)) (.stray n ::ₘ N + s.tokens)
      (some (s.childOrigin c n)) 0 :=
    .stray n _ (Multiset.mem_add.mpr (.inl (Multiset.mem_cons_self _ _)))
  exact ((h.insert hnew).of_tokens (Multiset.zero_add _)).lose (.inr ⟨n, rfl⟩)

/-- Tasks are started together. -/
theorem startAll {tasks : List (Task δ)} (h : s.Holds ((tasks.map Task.tokens).sum + N)) :
    { s with tasks := s.tasks ++ tasks }.Holds N := by
  induction tasks generalizing s with
  | nil => simpa using h
  | cons t tasks ih =>
    have hstart : (s.start t).Holds ((tasks.map Task.tokens).sum + N) := by
      refine Holds.start (h.of_tokens ?_)
      rw [List.map_cons, List.sum_cons, Multiset.add_assoc]
    have hrest := ih hstart
    have happend : (s.start t).tasks ++ tasks = s.tasks ++ t :: tasks := by simp [State.start]
    rw [happend] at hrest
    exact hrest

theorem sum_insertingChild {left : List (NewCommand δ)} :
    ((left.map (Task.insertingChild c n)).map Task.tokens).sum =
      Multiset.replicate left.length (.stray n) := by
  induction left with
  | nil => rfl
  | cons new left ih =>
    rw [List.map_cons, List.map_cons, List.sum_cons, ih, List.length_cons,
      Multiset.replicate_succ, ← Multiset.singleton_add]
    rfl

theorem sum_checking {children : List (Command δ)} :
    ((children.map (Task.checking · .children)).map Task.tokens).sum =
      (children.map (·.id) : Multiset ℕ).map Token.granted := by
  have hgrants : Caller.children.Grants := .inl rfl
  induction children with
  | nil => rfl
  | cons child children ih =>
    rw [List.map_cons, List.map_cons, List.sum_cons, ih, Task.tokens, if_pos hgrants,
      List.map_cons, ← Multiset.cons_coe, Multiset.map_cons, Multiset.singleton_add]

/-- The granted tokens without one of them. -/
theorem granted_eraseIdx {children : List (Command δ)} {child : Command δ} {j : ℕ}
    (h : children[j]? = some child) :
    (children.map (·.id) : Multiset ℕ).map Token.granted = .granted child.id ::ₘ
      ((children.eraseIdx j).map (·.id) : Multiset ℕ).map Token.granted := by
  obtain ⟨hlt, rfl⟩ := List.getElem?_eq_some_iff.mp h
  have hperm := (List.getElem_cons_eraseIdx_perm hlt).map (·.id)
  rw [← Multiset.map_cons, Multiset.cons_coe, ← List.map_cons (f := fun c : Command δ => c.id),
    Multiset.coe_eq_coe.mpr hperm]

/-- STEP: a child is inserted, or it is not and the others go on without their execution. -/
theorem insertedChild {left : List (NewCommand δ)} {children : List (Command δ)} {j : ℕ} {ok : Bool}
    (h : s.Holds (Task.insertingChildren c n left children).tokens) :
    (if ok then
        (s.insertChild c n new).insertChildren c n (left.eraseIdx j)
          (children ++ [(s.newRow new (some c.id)).toCommand])
      else
        { s with
          tasks := s.tasks ++ (left.eraseIdx j).map (Task.insertingChild c n) }.handleError c).Holds
      0 := by
  split
  · have hrunning : .running n ∈ (Task.insertingChildren c n left children).tokens := by
      simp [Task.tokens]
    refine Holds.insertChildren ((h.insertChild hrunning).of_tokens ?_)
    have hid : (s.newRow new (some c.id)).toCommand.id = s.nextId := rfl
    rw [Task.tokens, List.map_append, List.map_singleton, hid, ← Multiset.coe_add, Multiset.map_add,
      Multiset.coe_singleton, Multiset.map_singleton]
    simp only [← Multiset.singleton_add]
    abel
  · have habandon := h.abandon (N := {.carried c.id}) (children.map (·.id) : Multiset ℕ)
      (left.eraseIdx j).length
    refine Holds.handleError (Holds.startAll (habandon.of_tokens ?_))
    rw [sum_insertingChild]
    rfl

section

variable [DecidableEq δ]

/-- `add` has found the unfinalized commands: a child is not refused. -/
theorem checked_true {caller : Caller}
    (hrefused : caller.Grants → ∀ o, s.Chained c.id o → s.refuses c = false)
    (h : s.Holds ((Task.checking c caller).tokens + N)) : (s.checked c caller true).Holds N := by
  simp only [State.checked, if_true]
  by_cases hgrants : caller.Grants
  · rw [Task.tokens, if_pos hgrants, Multiset.singleton_add] at h
    split
    · next hrefuses =>
      refine h.refuse ?_
      intro o ho
      rw [hrefused hgrants o ho] at hrefuses
      cases hrefuses
    · rw [if_pos (show caller = .children ∨ caller = .replay from hgrants)]
      exact h.hand
  · rw [Task.tokens, if_neg hgrants, Multiset.singleton_add] at h
    split
    · exact h.lose (.inl ⟨c.id, rfl⟩)
    · rw [if_neg (show ¬ (caller = .children ∨ caller = .replay) from hgrants)]
      exact h.enqueue

/-- `add` has not found them: this does not happen to a child. -/
theorem checked_false {caller : Caller} (hfind : caller = .children → ∀ o, ¬ s.Chained c.id o)
    (h : s.Holds (Task.checking c caller).tokens) : (s.checked c caller false).Holds 0 := by
  simp only [State.checked, Bool.false_eq_true, if_false]
  cases caller with
  | wait => exact h.restart
  | replay => exact h.restart
  | process => exact h.handleError
  | handleError => exact h.lose (.inl ⟨c.id, rfl⟩)
  | children => exact h.refuse fun o ho => absurd ho (hfind rfl o)

/-- STEP: a call of a task ends. -/
theorem advance {outcome : Outcome δ} {s' : State δ} (h : s.Holds t.tokens)
    (hadvance : s.advance t outcome = some s')
    (hcheck : ∀ c caller o, outcome = .returns → t = .checking c caller → caller.Grants →
      s.Chained c.id o → s.refuses c = false)
    (hfind : ∀ c o, outcome = .fails → t = .checking c .children → ¬ s.Chained c.id o) :
    s'.Holds 0 := by
  have hwait : ¬ Caller.wait.Grants := by simp [Caller.Grants]
  have hprocess : ¬ Caller.process.Grants := by simp [Caller.Grants]
  have herror : ¬ Caller.handleError.Grants := by simp [Caller.Grants]
  cases t with
  | adding new =>
    cases outcome with
    | returns =>
      obtain rfl := Option.some.inj hadvance
      split
      · exact h
      · exact Holds.start h
    | fails =>
      obtain rfl := Option.some.inj hadvance
      exact h
    | _ => cases hadvance
  | inserting new =>
    cases outcome with
    | returns =>
      obtain rfl := Option.some.inj hadvance
      exact h.insertRoot
    | fails =>
      obtain rfl := Option.some.inj hadvance
      exact h
    | _ => cases hadvance
  | checking c caller =>
    cases outcome with
    | returns =>
      obtain rfl := Option.some.inj hadvance
      exact checked_true (fun hgrants o ho => hcheck c caller o rfl rfl hgrants ho)
        (h.of_tokens (Multiset.add_zero _).symm)
    | fails =>
      obtain rfl := Option.some.inj hadvance
      refine checked_false (fun heq o => ?_) h
      subst heq
      exact hfind c o rfl rfl
    | _ => cases hadvance
  | starting c =>
    cases outcome with
    | fails =>
      obtain rfl := Option.some.inj hadvance
      exact h.restart
    | late =>
      obtain rfl := Option.some.inj hadvance
      exact Holds.start h
    | early =>
      obtain rfl := Option.some.inj hadvance
      exact Holds.readd hwait h
    | returns =>
      obtain rfl := Option.some.inj hadvance
      exact Holds.start h
    | _ => cases hadvance
  | expiring c =>
    cases outcome with
    | fails =>
      obtain rfl := Option.some.inj hadvance
      exact h.restart
    | returns =>
      obtain rfl := Option.some.inj hadvance
      exact (h.updateStatus .expired (Multiset.mem_singleton_self _)).lose (.inl ⟨c.id, rfl⟩)
    | _ => cases hadvance
  | marking c =>
    cases outcome with
    | fails =>
      obtain rfl := Option.some.inj hadvance
      exact Holds.handleError h
    | returns =>
      obtain rfl := Option.some.inj hadvance
      exact Holds.execute (h.updateStatus .started (Multiset.mem_singleton_self _))
    | _ => cases hadvance
  | executing c n =>
    cases outcome with
    | fails =>
      obtain rfl := Option.some.inj hadvance
      exact Holds.handleError h.stop
    | repeats data =>
      obtain rfl := Option.some.inj hadvance
      exact Holds.start h.stop
    | retry data =>
      obtain rfl := Option.some.inj hadvance
      split
      · exact Holds.start h.stop
      · exact Holds.start h
    | commands data children =>
      obtain rfl := Option.some.inj hadvance
      exact Holds.insertChildren (h.of_tokens (by simp [Task.tokens]))
    | _ => cases hadvance
  | finishing c n =>
    cases outcome with
    | fails =>
      obtain rfl := Option.some.inj hadvance
      exact Holds.handleError h.stop
    | returns =>
      obtain rfl := Option.some.inj hadvance
      exact Holds.start (h.of_tokens (by simp [Task.tokens]))
    | _ => cases hadvance
  | repeating c =>
    cases outcome with
    | fails =>
      obtain rfl := Option.some.inj hadvance
      exact Holds.handleError h
    | returns =>
      obtain rfl := Option.some.inj hadvance
      exact Holds.readd hprocess
        (h.update (fun _ => rfl) (fun _ => rfl) (Multiset.mem_singleton_self _))
    | _ => cases hadvance
  | retrying c =>
    cases outcome with
    | fails =>
      obtain rfl := Option.some.inj hadvance
      exact Holds.handleError h
    | returns =>
      obtain rfl := Option.some.inj hadvance
      exact Holds.readd hprocess
        (h.update (fun _ => rfl) (fun _ => rfl) (Multiset.mem_singleton_self _))
    | _ => cases hadvance
  | insertingChildren c n left children => cases outcome <;> cases hadvance
  | insertingChild c n new =>
    cases outcome with
    | returns =>
      obtain rfl := Option.some.inj hadvance
      exact Holds.insertStray h
    | fails =>
      obtain rfl := Option.some.inj hadvance
      exact h.lose (.inr ⟨n, rfl⟩)
    | _ => cases hadvance
  | completing c n children =>
    cases outcome with
    | fails =>
      obtain rfl := Option.some.inj hadvance
      have habandon := h.abandon (N := {.carried c.id}) (children.map (·.id) : Multiset ℕ) 0
      exact Holds.handleError (habandon.of_tokens (Multiset.zero_add _))
    | returns =>
      obtain rfl := Option.some.inj hadvance
      refine Holds.addChildren (h.complete (Multiset.mem_singleton_self _) fun x hx => ?_)
      simp at hx
    | _ => cases hadvance
  | addingChildren c children => cases outcome <;> cases hadvance
  | spending c =>
    cases outcome with
    | fails =>
      obtain rfl := Option.some.inj hadvance
      exact h.lose (.inl ⟨c.id, rfl⟩)
    | returns =>
      obtain rfl := Option.some.inj hadvance
      exact Holds.readd herror
        (h.update (fun _ => rfl) (fun _ => rfl) (Multiset.mem_singleton_self _))
    | _ => cases hadvance
  | failing c =>
    cases outcome with
    | fails =>
      obtain rfl := Option.some.inj hadvance
      exact h.lose (.inl ⟨c.id, rfl⟩)
    | returns =>
      obtain rfl := Option.some.inj hadvance
      exact Holds.start
        (h.update (fun _ => rfl) (fun _ => rfl) (Multiset.mem_singleton_self _))
    | _ => cases hadvance
  | recovering c =>
    cases outcome with
    | repeats data =>
      obtain rfl := Option.some.inj hadvance
      exact Holds.start h
    | fails =>
      obtain rfl := Option.some.inj hadvance
      exact h.lose (.inl ⟨c.id, rfl⟩)
    | commands data children =>
      obtain rfl := Option.some.inj hadvance
      exact h.lose (.inl ⟨c.id, rfl⟩)
    | retry data =>
      obtain rfl := Option.some.inj hadvance
      exact h.lose (.inl ⟨c.id, rfl⟩)
    | _ => cases hadvance
  | reopening c =>
    cases outcome with
    | fails =>
      obtain rfl := Option.some.inj hadvance
      exact h.lose (.inl ⟨c.id, rfl⟩)
    | returns =>
      obtain rfl := Option.some.inj hadvance
      exact Holds.readd herror
        (h.update (fun _ => rfl) (fun _ => rfl) (Multiset.mem_singleton_self _))
    | _ => cases hadvance

/-- STEP: a child is added, or it is not and the others go on without their execution. -/
theorem addedChild {children : List (Command δ)} {child : Command δ} {j : ℕ}
    {ok : Bool} (hchild : children[j]? = some child)
    (hclean : ∀ o, s.Chained child.id o → ok = true ∧ s.refuses child = false)
    (h : s.Holds (Task.addingChildren c children).tokens) :
    (if ok then
        let s := s.checked child .children true
        match children.eraseIdx j with
        | [] => s
        | left => s.start (.addingChildren c left)
      else
        { s with
          tasks := s.tasks ++
            (children.eraseIdx j).map (Task.checking · .children) }.handleError c).Holds 0 := by
  have hgrants : Caller.children.Grants := .inl rfl
  rw [Task.tokens, granted_eraseIdx hchild, Multiset.cons_add] at h
  cases ok with
  | true =>
    rw [if_pos rfl]
    have hchecked : (s.checked child .children true).Holds
        (((children.eraseIdx j).map (·.id) : Multiset ℕ).map Token.granted + {.carried c.id}) := by
      refine checked_true (fun _ o ho => (hclean o ho).2) (h.of_tokens ?_)
      rw [Task.tokens, if_pos hgrants, Multiset.singleton_add]
    simp only
    split
    · next hnone =>
      rw [hnone] at hchecked
      exact Holds.lose (.inl ⟨c.id, rfl⟩) (hchecked.of_tokens (by simp))
    · exact Holds.start (hchecked.of_tokens (Multiset.add_zero _).symm)
  | false =>
    rw [if_neg (by simp)]
    have hrefused := h.refuse fun o ho => by
      have hok := (hclean o ho).1
      cases hok
    refine Holds.handleError (Holds.startAll (hrefused.of_tokens ?_))
    rw [sum_checking]
    rfl

/-- STEP: a call for a child ends. -/
theorem advanceChild {j : ℕ} {ok : Bool} {s' : State δ} (h : s.Holds t.tokens)
    (hadvance : s.advanceChild j ok t = some s')
    (hchild : ∀ c children child o, t = .addingChildren c children → children[j]? = some child →
      s.Chained child.id o → ok = true ∧ s.refuses child = false) :
    s'.Holds 0 := by
  cases t with
  | insertingChildren c n left children =>
    obtain ⟨new, -, rfl⟩ := Option.map_eq_some_iff.mp hadvance
    exact insertedChild h
  | addingChildren c children =>
    obtain ⟨child, hget, rfl⟩ := Option.map_eq_some_iff.mp hadvance
    exact addedChild hget (fun o ho => hchild c children child o rfl hget ho) h
  | _ => cases hadvance

end

/-! ### The replay and the steps -/

/-- The ids of the table are those of its rows, each once. -/
theorem nodup_table (h : s.Holds N) : (s.table.map (·.id)).Nodup := by
  refine List.pairwise_map.mpr (List.Pairwise.filterMap _ ?_ List.nodup_range)
  intro id id' hne row hrow row' hrow'
  have hid := (h.rows id row hrow).1
  have hid' := (h.rows id' row' hrow').1
  rw [hid, hid']
  exact hne

theorem mem_pendingCommands {row : Row δ} (h : s.Holds N) (hrow : s.rows x = some row)
    (hlive : isFinalized row.status = false) (hname : row.name ∉ PERMANENT_COMMANDS) :
    x ∈ s.pendingCommands.map (·.id) := by
  obtain ⟨hid, hlt⟩ := h.rows x row hrow
  refine List.mem_map.mpr ⟨row, List.mem_filter.mpr ⟨?_, ?_⟩, hid⟩
  · exact List.mem_filterMap.mpr ⟨x, List.mem_range.mpr hlt, hrow⟩
  · have hstatus : row.status ∈ [CommandStatus.pending, .started, .repeating] := by
      revert hlive
      cases row.status <;> decide
    simp [hstatus, hname]

/-- STEP: the replay reads the rows. -/
theorem read (h : s.Holds 0) (hreplay : s.replay = .reading) :
    { s with replay := .looking s.pendingCommands [] }.Holds 0 := by
  have hphase : s.phase = .reading := by rw [phase, hreplay]
  have htokens : replayTokens { s with replay := .looking s.pendingCommands [] } =
      s.replayTokens := by
    simp [replayTokens, hreplay]
  have hsublist : (s.pendingCommands.map (·.id)).Sublist (s.table.map (·.id)) :=
    List.filter_sublist.map _
  refine ⟨?_, h.rows⟩
  rw [custody, tokens, htokens]
  refine h.good.read hphase (h.nodup_table.sublist hsublist) ?_ ?_
  · intro id hid
    obtain ⟨row, hrow, rfl⟩ := List.mem_map.mp hid
    obtain ⟨id, -, hget⟩ := List.mem_filterMap.mp (List.mem_filter.mp hrow).1
    obtain ⟨hid, hlt⟩ := h.rows id row hget
    exact hid ▸ hlt
  · rintro id o ⟨row, hrow, hlive⟩ hchained hsession
    refine h.mem_pendingCommands hrow hlive ?_
    intro hname
    exact hsession.ne (h.good.permanent id o ⟨row, hrow, hname⟩ hchained.1)

/-- STEP: the replay looks at a row. -/
theorem lookAt {row : Row δ} {left : List (Row δ)} {commands : List (Command δ)} (h : s.Holds 0)
    (hreplay : s.replay = .looking (row :: left) commands)
    (htakes : ∀ o, s.Chained row.id o →
      (s.takes row = true ↔ o.execution ∈ s.completed ∧ o.session < s.session)) :
    Holds
      { s with
        replay := .looking left (if s.takes row then commands ++ [row.toCommand] else commands) }
      0 := by
  have hphase : s.phase = .looking (row.id :: left.map (·.id)) := by
    rw [phase, hreplay]
    rfl
  have hlook := h.good.look hphase htakes
  refine ⟨?_, h.rows⟩
  have htokens : tokens
      { s with
        replay := .looking left
          (if s.takes row then commands ++ [row.toCommand] else commands) } =
      if s.takes row then .granted row.id ::ₘ s.tokens else s.tokens := by
    split
    · simp only [tokens, replayTokens, hreplay, List.map_append, List.map_singleton,
        ← Multiset.coe_add, Multiset.map_add, Multiset.coe_singleton, Multiset.map_singleton,
        ← Multiset.singleton_add]
      abel
    · simp only [tokens, replayTokens, hreplay]
  rw [custody, Multiset.zero_add, htokens]
  simp only [custody, Multiset.zero_add] at hlook
  exact hlook

/-- A worker's command is carried. -/
theorem carried_of_worker {t : Task δ} (h : worker t = some x) : .carried x ∈ t.tokens := by
  cases t with
  | checking c caller =>
    rw [worker] at h
    split at h
    · cases h
    · next hcaller =>
      obtain rfl := Option.some.inj h
      rw [Task.tokens, if_neg (show ¬ caller.Grants from hcaller)]
      exact Multiset.mem_singleton_self _
  | adding | inserting | insertingChild => cases h
  | _ =>
    obtain rfl := Option.some.inj h
    simp [Task.tokens]

/-- A row that the replay has taken is queued, unless a worker has it. -/
theorem replayCommand (h : s.Holds (.granted c.id ::ₘ N)) : (s.replayCommand c).Holds N := by
  rw [State.replayCommand]
  split
  · next hworker =>
    refine h.refuse ?_
    intro o ho
    obtain ⟨t, ht, hid⟩ := List.mem_filterMap.mp hworker
    have hcarried : .carried c.id ∈ s.tokens :=
      mem_tokens.mpr (.inr (.inl ⟨t, ht, carried_of_worker hid⟩))
    exact (h.good.tokens _ (Multiset.mem_add.mpr (.inr hcarried))).2 o ho
  · split
    · have hgrants : Caller.replay.Grants := .inr rfl
      refine Holds.start (h.of_tokens ?_)
      rw [Task.tokens, if_pos hgrants, Multiset.singleton_add]
    · exact h.hand

/-- STEP: the rows that the replay has taken are queued. -/
theorem replayAll {commands : List (Command δ)}
    (h : s.Holds ((commands.map (·.id) : Multiset ℕ).map Token.granted)) :
    (commands.foldl State.replayCommand s).Holds 0 := by
  induction commands generalizing s with
  | nil => simpa using h
  | cons c commands ih =>
    refine ih (Holds.replayCommand (h.of_tokens ?_))
    rw [List.map_cons, ← Multiset.cons_coe, Multiset.map_cons]

theorem finish {commands : List (Command δ)} (h : s.Holds 0)
    (hreplay : s.replay = .looking [] commands) :
    Holds { s with replay := .finished } ((commands.map (·.id) : Multiset ℕ).map Token.granted) := by
  have hphase : s.phase = .looking [] := by
    rw [phase, hreplay]
    rfl
  have hfinish := h.good.finish hphase
  have htokens : (commands.map (·.id) : Multiset ℕ).map Token.granted +
      tokens { s with replay := .finished } = s.tokens := by
    simp only [tokens, replayTokens, hreplay]
    abel
  refine ⟨?_, h.rows⟩
  rw [custody, htokens]
  rw [custody, Multiset.zero_add] at hfinish
  exact hfinish

/-- STEP: the replay goes on. -/
theorem look {ok : Bool} (h : s.Holds 0)
    (hlook : ∀ row left commands o, ok = true → s.replay = .looking (row :: left) commands →
      s.Chained row.id o →
        (s.takes row = true ↔ o.execution ∈ s.completed ∧ o.session < s.session)) :
    (s.look ok).Holds 0 := by
  rw [State.look]
  split
  · exact h
  · next hreplay =>
    split
    · exact h.read hreplay
    · exact h.restart
  · next row left commands hreplay =>
    split
    · next hok => exact h.lookAt hreplay fun o ho => hlook row left commands o hok hreplay ho
    · exact h.restart
  · next commands hreplay => exact replayAll (h.finish hreplay)

/-- STEP: a command is taken off the queue. -/
theorem take (h : s.Holds 0) (hc : s.queue[i]? = some c) :
    ({ s with queue := s.queue.eraseIdx i }.start (.starting c)).Holds 0 := by
  refine Holds.start ?_
  obtain ⟨hlt, rfl⟩ := List.getElem?_eq_some_iff.mp hc
  have hperm := (List.getElem_cons_eraseIdx_perm hlt).map (·.id)
  have htokens : s.tokens =
      {.carried s.queue[i].id} + { s with queue := s.queue.eraseIdx i }.tokens := by
    have hreplay : replayTokens { s with queue := s.queue.eraseIdx i } = s.replayTokens := rfl
    simp only [tokens, hreplay, ← Multiset.coe_eq_coe.mpr hperm, List.map_cons,
      ← Multiset.cons_coe, ← Multiset.singleton_add, Multiset.map_add, Multiset.map_singleton]
    abel
  refine ⟨?_, h.rows⟩
  have hgood := h.good
  rw [custody, htokens, Multiset.zero_add] at hgood
  exact hgood

/-- STEP: rows are removed. -/
theorem remove (h : s.Holds 0) :
    { s with rows := fun id => if id ∈ s.found then none else s.rows id, found := [] }.Holds 0 := by
  have hrows : ∀ id row, (if id ∈ s.found then none else s.rows id) = some row →
      s.rows id = some row := by
    intro id row hrow
    split at hrow
    · cases hrow
    · exact hrow
  refine ⟨Custody.Good.write h.good ?_ ?_, fun id row hrow => h.rows id row (hrows id row hrow)⟩
  · rintro id ⟨row, hrow, hlive⟩
    exact .inl ⟨row, hrows id row hrow, hlive⟩
  · rintro id ⟨row, hrow, hname⟩
    exact ⟨row, hrows id row hrow, hname⟩

/-- STEP: a clean step keeps the invariant. -/
theorem act [DecidableEq δ] {a : Action δ} (h : s.Holds 0) (hclean : s.Clean a) :
    (s.act a).Holds 0 := by
  cases a with
  | add new =>
    refine Holds.start ?_
    split
    · exact h
    · exact h
  | take i =>
    rw [State.act]
    split
    · next c hc => exact h.take hc
    · exact h
  | reply i outcome =>
    rw [State.act]
    cases ht : s.tasks[i]? with
    | none => exact h
    | some t =>
      rw [Option.bind_some]
      cases hadvance : { s with tasks := s.tasks.eraseIdx i }.advance t outcome with
      | none => exact h
      | some s' =>
        refine advance (h.withoutTask ht) hadvance ?_ ?_
        · rintro c caller o rfl rfl hgrants ⟨ho, hchained⟩
          have hchild : s.checkedChild (.reply i .returns) = some (c, true) := by
            simp only [checkedChild, ht, if_pos hgrants]
          exact (hclean.2 _ hchild o ho hchained).2
        · rintro c o rfl rfl ⟨ho, hchained⟩
          have hchild : s.checkedChild (.reply i .fails) = some (c, false) := by
            simp only [checkedChild, ht]
          have hok := (hclean.2 _ hchild o ho hchained).1
          cases hok
  | replyChild i j ok =>
    rw [State.act]
    cases ht : s.tasks[i]? with
    | none => exact h
    | some t =>
      rw [Option.bind_some]
      cases hadvance : { s with tasks := s.tasks.eraseIdx i }.advanceChild j ok t with
      | none => exact h
      | some s' =>
        refine advanceChild (h.withoutTask ht) hadvance ?_
        rintro c children child o rfl hget ⟨ho, hchained⟩
        have hchild : s.checkedChild (.replyChild i j ok) = some (child, ok) := by
          simp only [checkedChild, ht, hget, Option.map_some]
        exact hclean.2 _ hchild o ho hchained
  | look ok =>
    refine h.look ?_
    rintro row left commands o rfl hreplay ⟨ho, hchained⟩
    have hrow : s.lookedAt (.look true) = some row := by
      simp only [lookedAt, hreplay]
    exact hclean.1 row hrow o ho hchained
  | find ids => exact ⟨h.good, h.rows⟩
  | remove => exact h.remove
  | restart => exact h.restart

end Holds

/-! ### Runs -/

theorem holds_initial : (initial : State δ).Holds 0 where
  good := .initial rfl rfl (fun _ => rfl) rfl rfl rfl
  rows _ _ h := by cases h

/-- RUN: clean steps keep the invariant. -/
theorem Holds.run [DecidableEq δ] {actions : List (Action δ)} (h : s.Holds 0)
    (hclean : s.CleanThroughout actions) : (s.run actions).Holds 0 := by
  induction actions generalizing s with
  | nil => exact h
  | cons a actions ih => exact ih (h.act hclean.1) hclean.2

theorem Task.adds_of_granted {t : Task δ} (h : .granted x ∈ t.tokens) : t.Adds x := by
  cases t with
  | checking c caller =>
    rw [Task.tokens] at h
    split at h
    · next hgrants => exact ⟨hgrants, (Token.granted.inj (Multiset.mem_singleton.mp h)).symm⟩
    · simp at h
  | addingChildren c children => simpa [Task.tokens, Task.Adds] using h
  | _ => simp [Task.tokens] at h

theorem Holds.safe (h : s.Holds 0) : s.Safe where
  executed id hid := (h.good.executed id hid).2
  atMostOnce id o hchained := (Nat.le_add_right _ _).trans (h.good.once id o hchained)
  queued id row o hrow hlive hchained hdone hfinish htasks := by
    have hsecured : (s.custody 0).Secured id := by
      rcases (h.good.origin id o hchained.1).2.2.eq_or_lt with hsession | hsession
      · exact h.good.own id o ⟨row, hrow, hlive⟩ hchained hsession hdone
      · refine (h.good.old id o ⟨row, hrow, hlive⟩ hchained hsession hdone).resolve_left ?_
        have hphase : s.phase = .finished := by rw [phase, hfinish]
        intro hpending
        exact (hphase ▸ hpending : Phase.finished.Pending id)
    rcases hsecured with hhanded | hgranted
    · exact hhanded
    · have hgranted : .granted id ∈ s.tokens := by
        rw [custody, Multiset.zero_add] at hgranted
        exact hgranted
      rcases mem_tokens.mp hgranted with ⟨c, -, heq⟩ | ⟨t, ht, hmem⟩ | hmem
      · cases heq
      · exact absurd (Task.adds_of_granted hmem) (htasks t ht)
      · rw [replayTokens, hfinish] at hmem
        cases hmem

/-- CORRECT (chains): in a run of clean steps, whatever fails and whenever the node is restarted,
    children of an execution that was not completed are not executed, and each child of one that was is
    queued once after each start. -/
theorem safe_run [DecidableEq δ] (actions : List (Action δ))
    (h : (initial : State δ).CleanThroughout actions) : ((initial : State δ).run actions).Safe :=
  (holds_initial.run h).safe

/-! ### Two crashes -/

/-- A publish is added and executed, and so is the child it returns, whose own child is inserted. -/
def beforeCrash : List (Action Unit) :=
  [.add ⟨"publishFindShardCommand", (), false, 3⟩, .reply 0 .returns,
    .take 0, .reply 0 .returns, .reply 0 .returns,
    .reply 0 (.commands () [⟨"publishValidateAssetCommand", (), false, 0⟩]),
    .replyChild 0 0 true, .reply 0 .returns,
    .take 0, .reply 0 .returns, .reply 0 .returns,
    .reply 0 (.commands () [⟨"networkPublishCommand", (), false, 0⟩]), .replyChild 0 0 true]

/-- The node is restarted when the execution is completed, and the child is executed. -/
def crashAfterCompletion : List (Action Unit) :=
  beforeCrash ++ [Action.reply 0 .returns, .restart, .look true, .look true, .look true,
    .take 0, .reply 0 .returns, .reply 0 .returns]

/-- The node is restarted before the execution is completed. Its command is executed again, and the
    second execution is completed before the next restart. -/
def crashBeforeCompletion : List (Action Unit) :=
  beforeCrash ++ [Action.restart, .look true, .look true, .look true, .look true,
    .take 0, .reply 0 .returns, .reply 0 .returns,
    .reply 0 (.commands () [⟨"networkPublishCommand", (), false, 0⟩]), .replyChild 0 0 true,
    .reply 0 .returns, .restart, .look true, .look true, .look true, .look true,
    .take 0, .reply 0 .returns, .reply 0 .returns]

/-- CORRECT (chains): the run with one crash is one of clean steps. -/
theorem safe_run_crashed : ((initial : State Unit).run crashAfterCompletion).Safe :=
  safe_run crashAfterCompletion (by decide +kernel)

/-- COUNTEREXAMPLE: the child of the execution that was not completed is executed. -/
theorem crashed_twice : ¬ ((initial : State Unit).run crashBeforeCompletion).Safe := by
  intro h
  have hdone := h.executed 2 (by decide +kernel) ⟨1, 0, true⟩ ⟨by decide +kernel, rfl⟩
  revert hdone
  decide +kernel

end State

end OtNode.CommandExecutor
