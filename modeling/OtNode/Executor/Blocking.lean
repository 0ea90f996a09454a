import OtNode.Executor.Machine
import Mathlib.Data.List.Perm.Basic
import Mathlib.Tactic.Common

/-! Blocking commands: one unfinalized row for each name and data, and none that nobody serves.

    `add` refuses a blocking command while a row of the same name and data is unfinalized. A second row
    is written when two calls look before either inserts, and a row is stale when its command is let go
    without being finalized. -/

namespace OtNode.CommandExecutor

open Executor (CommandStatus)

variable {δ : Type}

/-- The commands that a task has: those executed, and those to be queued. -/
def Task.held : Task δ → List ℕ
  | .adding _ | .inserting _ | .insertingChild _ _ _ | .recovering _ | .reopening _ => []
  | .insertingChildren c _ _ children | .completing c _ children => c.id :: children.map (·.id)
  | .addingChildren _ children => children.map (·.id)
  | .checking c _ | .starting c | .expiring c | .marking c | .executing c _ | .finishing c _
  | .repeating c | .retrying c | .spending c | .failing c => [c.id]

/-- The command of a task that has finalized its row. -/
def Task.closed : Task δ → List ℕ
  | .recovering c | .reopening c | .addingChildren c _ => [c.id]
  | _ => []

/-- An unfinalized blocking row. -/
def Row.blocks (row : Row δ) : Bool := row.isBlocking && !isFinalized row.status

namespace State

variable (s : State δ)

/-- The commands that are queued, wait for a timer, or are executed or to be queued by a task. -/
def held : List ℕ := s.queue.map (·.id) ++ s.tasks.flatMap Task.held

/-- The replay has still to queue the row. -/
def Awaits (row : Row δ) : Prop :=
  match s.replay with
  | .reading => row.name ∉ PERMANENT_COMMANDS
  | .looking left commands => row.id ∈ left.map (·.id) ∨ row.id ∈ commands.map (·.id)
  | .finished => False

/-- What is to hold of blocking commands. There is one unfinalized row for each name and data, each of
    them is served, and so is the one for which `add` refuses a command. -/
structure Unstuck [DecidableEq δ] : Prop where
  unique : ∀ id id' row row', s.rows id = some row → s.rows id' = some row' → row.blocks = true →
    row'.blocks = true → row.name = row'.name → row.data = row'.data → id = id'
  served : ∀ id row, s.rows id = some row → row.blocks = true → id ∈ s.held ∨ s.Awaits row
  refused : ∀ new, s.refusesNew new = true → ∃ id row, s.rows id = some row ∧
    row.name = new.name ∧ row.data = new.data ∧
    (row.isBlocking = true → id ∈ s.held ∨ s.Awaits row)

/-- Another unfinalized blocking row has the name and the data. -/
def hasTwin [DecidableEq δ] (row : Row δ) : Bool :=
  (s.findUnfinalizedCommandsByName row.name).any fun other =>
    other.id ≠ row.id && other.isBlocking && other.data = row.data

/-- The row that is written as unfinalized when a call of a task ends. -/
def writes : Task δ → Outcome δ → Option (Row δ)
  | .inserting new, .returns => some (s.newRow new none)
  | .insertingChild c _ new, .returns => some (s.newRow new (some c.id))
  | .marking c, .returns => (s.rows c.id).map ({ · with status := .started })
  | .repeating c, .returns | .reopening c, .returns =>
    (s.rows c.id).map ({ · with status := .repeating })
  | .retrying c, .returns =>
    (s.rows c.id).map ({ · with status := .pending, data := c.data, retries := c.retries })
  | _, _ => none

/-- The rows whose commands are let go as they are when a call of a task ends: `add` refuses a command
    with a row, or cannot look for others; the number of retries or `FAILED` cannot be written; children
    are inserted, but their parent is not completed. -/
def drops [DecidableEq δ] : Task δ → Outcome δ → List (Row δ)
  | .checking c _, .returns => if s.refuses c then [c.id].filterMap s.rows else []
  | .checking c .handleError, .fails | .checking c .children, .fails | .spending c, .fails
  | .failing c, .fails => [c.id].filterMap s.rows
  | .completing _ _ children, .fails => (children.map (·.id)).filterMap s.rows
  | .insertingChild c _ new, .returns => [s.newRow new (some c.id)]
  | _, _ => []

/-- The row that is written when a call for a child ends. -/
def writesChild (j : ℕ) : Task δ → Bool → Option (Row δ)
  | .insertingChildren c _ left _, true => left[j]?.map fun new => s.newRow new (some c.id)
  | _, _ => none

/-- The rows whose commands are let go when a call for a child ends. -/
def dropsChild [DecidableEq δ] (j : ℕ) : Task δ → Bool → List (Row δ)
  | .insertingChildren _ _ left children, false =>
    if j < left.length then (children.map (·.id)).filterMap s.rows else []
  | .addingChildren _ children, ok =>
    ((children[j]?.toList.filter fun child => !ok || s.refuses child).map (·.id)).filterMap s.rows
  | _, _ => []

/-- No row is written beside its twin, and no command of an unfinalized blocking row is let go that
    nobody else has. -/
def SparesRows [DecidableEq δ] (written : Option (Row δ)) (dropped : List (Row δ)) : Prop :=
  (∀ row ∈ written, row.blocks = true → s.hasTwin row = false) ∧
    ∀ row ∈ dropped, row.blocks = true → row.id ∈ s.held

instance [DecidableEq δ] (written : Option (Row δ)) (dropped : List (Row δ)) :
    Decidable (s.SparesRows written dropped) :=
  inferInstanceAs (Decidable (_ ∧ _))

/-- A step that spares blocking commands. -/
def Spares [DecidableEq δ] : Action δ → Prop
  | .reply i outcome => ∀ t ∈ s.tasks[i]?,
    { s with tasks := s.tasks.eraseIdx i }.SparesRows (s.writes t outcome) (s.drops t outcome)
  | .replyChild i j ok => ∀ t ∈ s.tasks[i]?,
    { s with tasks := s.tasks.eraseIdx i }.SparesRows (s.writesChild j t ok) (s.dropsChild j t ok)
  | _ => True

instance [DecidableEq δ] : (a : Action δ) → Decidable (s.Spares a)
  | .reply i outcome => inferInstanceAs (Decidable (∀ t ∈ s.tasks[i]?,
    { s with tasks := s.tasks.eraseIdx i }.SparesRows (s.writes t outcome) (s.drops t outcome)))
  | .replyChild i j ok => inferInstanceAs (Decidable (∀ t ∈ s.tasks[i]?,
    { s with tasks := s.tasks.eraseIdx i }.SparesRows (s.writesChild j t ok)
      (s.dropsChild j t ok)))
  | .add _ | .take _ | .look _ | .find _ | .remove | .restart => inferInstanceAs (Decidable True)

/-- `Spares` holds at each step. -/
def SparesThroughout [DecidableEq δ] : State δ → List (Action δ) → Prop
  | _, [] => True
  | s, a :: actions => s.Spares a ∧ SparesThroughout (s.act a) actions

instance SparesThroughout.decidable [DecidableEq δ] :
    (s : State δ) → (actions : List (Action δ)) → Decidable (s.SparesThroughout actions)
  | _, [] => inferInstanceAs (Decidable True)
  | s, a :: actions =>
    have := SparesThroughout.decidable (s.act a) actions
    inferInstanceAs (Decidable (_ ∧ _))

/-! ### The invariant -/

/-- The row of the command blocks. -/
def Blocks (id : ℕ) : Prop := ∃ row, s.rows id = some row ∧ row.blocks = true

/-- The commands of tasks that have finalized their rows. -/
def closed : List ℕ := s.tasks.flatMap Task.closed

/-- The invariant, while the commands `held` are in hand, and `closed` are known to be finalized or
    served. -/
structure Kept (held closed : List ℕ) : Prop where
  rows : ∀ id row, s.rows id = some row → row.id = id ∧ id < s.nextId
  unique : ∀ id id' row row', s.rows id = some row → s.rows id' = some row' → row.blocks = true →
    row'.blocks = true → row.name = row'.name → row.data = row'.data → id = id'
  served : ∀ id row, s.rows id = some row → row.blocks = true → id ∈ held ++ s.held ∨ s.Awaits row
  closed : ∀ id ∈ closed ++ s.closed, s.Blocks id → id ∈ held ++ s.held
  read : ∀ left commands, s.replay = .looking left commands → ∀ row ∈ left, row.id < s.nextId ∧
    ∀ row', s.rows row.id = some row' → row'.isBlocking = row.isBlocking

variable {s} {s' : State δ} {t : Task δ} {c : Command δ} {new : NewCommand δ} {row : Row δ}
  {id x i : ℕ} {H H' C C' : List ℕ}

/-! ### Rules for what is in hand -/

@[simp] theorem mem_held_start : id ∈ (s.start t).held ↔ id ∈ s.held ∨ id ∈ t.held := by
  simp [held, start, or_assoc]

@[simp] theorem mem_held_enqueue : id ∈ (s.enqueue c).held ↔ id ∈ s.held ∨ id = c.id := by
  simp [held, enqueue, or_comm, or_left_comm, eq_comm]

@[simp] theorem mem_closed_start : id ∈ (s.start t).closed ↔ id ∈ s.closed ∨ id ∈ t.closed := by
  simp [closed, start]

theorem mem_held_withoutTask (h : s.tasks[i]? = some t) :
    id ∈ s.held ↔ id ∈ t.held ∨ id ∈ { s with tasks := s.tasks.eraseIdx i }.held := by
  obtain ⟨hlt, rfl⟩ := List.getElem?_eq_some_iff.mp h
  have hmem : ∀ t', t' ∈ s.tasks ↔ t' = s.tasks[i] ∨ t' ∈ s.tasks.eraseIdx i := fun t' =>
    ((List.getElem_cons_eraseIdx_perm hlt).mem_iff (a := t')).symm.trans List.mem_cons
  simp only [held, List.mem_append, List.mem_flatMap, hmem, or_and_right, exists_or,
    exists_eq_left]
  tauto

theorem mem_closed_withoutTask (h : s.tasks[i]? = some t) :
    id ∈ s.closed ↔ id ∈ t.closed ∨ id ∈ { s with tasks := s.tasks.eraseIdx i }.closed := by
  obtain ⟨hlt, rfl⟩ := List.getElem?_eq_some_iff.mp h
  have hmem : ∀ t', t' ∈ s.tasks ↔ t' = s.tasks[i] ∨ t' ∈ s.tasks.eraseIdx i := fun t' =>
    ((List.getElem_cons_eraseIdx_perm hlt).mem_iff (a := t')).symm.trans List.mem_cons
  simp only [closed, List.mem_flatMap, hmem, or_and_right, exists_or, exists_eq_left]

namespace Kept

/-- RULE (frame): the rows and the replay stay as they are. -/
theorem frame (h : s.Kept H C) (hrows : s'.rows = s.rows) (hnext : s'.nextId = s.nextId)
    (hreplay : s'.replay = s.replay)
    (hheld : ∀ id ∈ H ++ s.held, s.Blocks id → id ∈ H' ++ s'.held)
    (hclosed : ∀ id ∈ C' ++ s'.closed, id ∈ C ++ s.closed) : s'.Kept H' C' where
  rows := by
    rw [hrows, hnext]
    exact h.rows
  unique := by
    rw [hrows]
    exact h.unique
  served id row hrow hblocks := by
    rw [hrows] at hrow
    have hawaits : s'.Awaits row ↔ s.Awaits row := by simp only [Awaits, hreplay]
    rw [hawaits]
    exact (h.served id row hrow hblocks).imp_left fun hid => hheld id hid ⟨row, hrow, hblocks⟩
  closed id hid hblocks := by
    rw [Blocks, hrows] at hblocks
    exact hheld id (h.closed id (hclosed id hid) hblocks) hblocks
  read := by
    rw [hrows, hnext, hreplay]
    exact h.read

/-- RULE (drop): a command is let go that somebody else has, unless its row does not block. -/
theorem drop (h : s.Kept (x :: H) C) (hx : s.Blocks x → x ∈ H ++ s.held) : s.Kept H C := by
  refine h.frame rfl rfl rfl (fun id hid hblocks => ?_) fun id hid => hid
  rcases List.mem_cons.mp hid with rfl | hid
  · exact hx hblocks
  · exact hid

/-- RULE (take): a command is taken in hand. -/
theorem take (x : ℕ) (h : s.Kept H C) : s.Kept (x :: H) C :=
  h.frame rfl rfl rfl (fun _ hid _ => List.mem_cons_of_mem x hid) fun _ hid => hid

/-- RULE (close): the row of a command does not block. -/
theorem close (h : s.Kept H C) (hx : ¬ s.Blocks x) : s.Kept H (x :: C) := by
  refine { h with closed := fun id hid hblocks => ?_ }
  rcases List.mem_cons.mp hid with rfl | hid
  · exact absurd hblocks hx
  · exact h.closed id hid hblocks

theorem start (h : s.Kept (t.held ++ H) (t.closed ++ C)) : (s.start t).Kept H C := by
  refine h.frame rfl rfl rfl (fun id hid _ => ?_) fun id hid => ?_
  · simp only [List.mem_append, mem_held_start] at hid ⊢
    tauto
  · simp only [List.mem_append, mem_closed_start] at hid ⊢
    tauto

theorem enqueue (h : s.Kept (c.id :: H) C) : (s.enqueue c).Kept H C := by
  refine h.frame rfl rfl rfl (fun id hid _ => ?_) fun id hid => hid
  simp only [List.cons_append, List.mem_cons, List.mem_append, mem_held_enqueue] at hid ⊢
  tauto

theorem hand (h : s.Kept (c.id :: H) C) : (s.hand c).Kept H C :=
  h.enqueue.frame rfl rfl rfl (fun _ hid _ => hid) fun _ hid => hid

/-- What a task has is in hand while one of its calls ends. -/
theorem withoutTask (h : s.Kept [] []) (ht : s.tasks[i]? = some t) :
    { s with tasks := s.tasks.eraseIdx i }.Kept t.held t.closed := by
  refine h.frame rfl rfl rfl (fun id hid _ => ?_) fun id hid => ?_
  · exact List.mem_append.mpr ((mem_held_withoutTask ht).mp hid)
  · exact (mem_closed_withoutTask ht).mpr (List.mem_append.mp hid)

/-! ### Rules for rows -/

/-- RULE (write): the row of a command in hand is written. -/
theorem update {change : Row δ → Row δ} (h : s.Kept H C) (hx : x ∈ H)
    (hid : ∀ row, (change row).id = row.id) (hname : ∀ row, (change row).name = row.name)
    (hblocking : ∀ row, (change row).isBlocking = row.isBlocking)
    (hwrite : ∀ row, s.rows x = some row → (change row).blocks = true →
      ∀ id row', id ≠ x → s.rows id = some row' → row'.blocks = true → row'.name = row.name →
        row'.data ≠ (change row).data) : (s.update x change).Kept H C := by
  have hself : (s.update x change).rows x = (s.rows x).map change := Function.update_self ..
  have hother : ∀ id, id ≠ x → (s.update x change).rows id = s.rows id := fun id hne =>
    Function.update_of_ne hne ..
  have hold : ∀ id row, (s.update x change).rows id = some row →
      (id ≠ x ∧ s.rows id = some row) ∨ id = x ∧ ∃ old, s.rows x = some old ∧ row = change old := by
    intro id row hrow
    by_cases hne : id = x
    · subst hne
      rw [hself] at hrow
      obtain ⟨old, hold, rfl⟩ := Option.map_eq_some_iff.mp hrow
      exact .inr ⟨rfl, old, hold, rfl⟩
    · rw [hother id hne] at hrow
      exact .inl ⟨hne, hrow⟩
  constructor
  · intro id row hrow
    rcases hold id row hrow with ⟨-, hsame⟩ | ⟨rfl, old, hget, rfl⟩
    · exact h.rows id row hsame
    · exact ⟨(hid old).trans (h.rows id old hget).1, (h.rows id old hget).2⟩
  · intro id id' row row' hrow hrow' hblocks hblocks' hnames hdata
    rcases hold id row hrow with ⟨hne, hsame⟩ | ⟨rfl, old, hget, rfl⟩ <;>
      rcases hold id' row' hrow' with ⟨hne', hsame'⟩ | ⟨heq', old', hget', heq⟩
    · exact h.unique id id' row row' hsame hsame' hblocks hblocks' hnames hdata
    · subst heq' heq
      rw [hname] at hnames
      exact absurd hdata (hwrite old' hget' hblocks' id row hne hsame hblocks hnames)
    · rw [hname] at hnames
      exact absurd hdata.symm (hwrite old hget hblocks id' row' hne' hsame' hblocks' hnames.symm)
    · exact heq'.symm
  · intro id row hrow hblocks
    rcases hold id row hrow with ⟨-, hsame⟩ | ⟨rfl, -⟩
    · exact h.served id row hsame hblocks
    · exact .inl (List.mem_append_left _ hx)
  · rintro id hclosed ⟨row, hrow, hblocks⟩
    rcases hold id row hrow with ⟨-, hsame⟩ | ⟨rfl, -⟩
    · exact h.closed id hclosed ⟨row, hsame, hblocks⟩
    · exact List.mem_append_left _ hx
  · intro left commands hreplay row hmem
    obtain ⟨hlt, hread⟩ := h.read left commands hreplay row hmem
    refine ⟨hlt, ?_⟩
    intro row' hrow'
    rcases hold row.id row' hrow' with ⟨-, hsame⟩ | ⟨heq, old, hget, rfl⟩
    · exact hread row' hsame
    · exact (hblocking old).trans (hread old (heq ▸ hget))

/-- RULE (finalize): the row of a command is finalized, which is then let go. -/
theorem finalize {status : CommandStatus} (h : s.Kept (c.id :: H) C)
    (hstatus : isFinalized status = true) : (s.updateStatus c status).Kept H (c.id :: C) := by
  have hblocks : ¬ (s.updateStatus c status).Blocks c.id := by
    rintro ⟨row, hrow, hblocks⟩
    have hself : (s.updateStatus c status).rows c.id = (s.rows c.id).map _ :=
      Function.update_self ..
    rw [hself] at hrow
    obtain ⟨old, -, rfl⟩ := Option.map_eq_some_iff.mp hrow
    simp [Row.blocks, hstatus] at hblocks
  have hupdate : (s.updateStatus c status).Kept (c.id :: H) C := by
    refine h.update (List.mem_cons_self ..) (fun _ => rfl) (fun _ => rfl) (fun _ => rfl) ?_
    intro row _ hrow
    simp [Row.blocks, hstatus] at hrow
  exact (hupdate.drop fun h => absurd h hblocks).close hblocks

/-- RULE (insert): a row is inserted with a new id. -/
theorem insert {parentId : Option ℕ} {origin : Option Origin} (h : s.Kept H C)
    (hwrite : new.isBlocking = true → ∀ id row, s.rows id = some row → row.blocks = true →
      row.name = new.name → row.data ≠ new.data) :
    (s.insert new parentId origin).Kept (s.nextId :: H) C := by
  have hself : (s.insert new parentId origin).rows s.nextId = some (s.newRow new parentId) :=
    Function.update_self ..
  have hother : ∀ id, id ≠ s.nextId → (s.insert new parentId origin).rows id = s.rows id :=
    fun id hne => Function.update_of_ne hne ..
  have hold : ∀ id row, (s.insert new parentId origin).rows id = some row →
      (id ≠ s.nextId ∧ s.rows id = some row) ∨ id = s.nextId ∧ row = s.newRow new parentId := by
    intro id row hrow
    by_cases hne : id = s.nextId
    · subst hne
      rw [hself] at hrow
      exact .inr ⟨rfl, (Option.some.inj hrow).symm⟩
    · rw [hother id hne] at hrow
      exact .inl ⟨hne, hrow⟩
  have hnew : (s.newRow new parentId).blocks = true → new.isBlocking = true := by
    intro hblocks
    exact (Bool.and_eq_true_iff.mp hblocks).1
  constructor
  · intro id row hrow
    rcases hold id row hrow with ⟨-, hsame⟩ | ⟨rfl, rfl⟩
    · exact ⟨(h.rows id row hsame).1, Nat.lt_succ_of_lt (h.rows id row hsame).2⟩
    · exact ⟨rfl, Nat.lt_succ_self _⟩
  · intro id id' row row' hrow hrow' hblocks hblocks' hnames hdata
    rcases hold id row hrow with ⟨hne, hsame⟩ | ⟨rfl, rfl⟩ <;>
      rcases hold id' row' hrow' with ⟨hne', hsame'⟩ | ⟨rfl, rfl⟩
    · exact h.unique id id' row row' hsame hsame' hblocks hblocks' hnames hdata
    · exact absurd hdata (hwrite (hnew hblocks') id row hsame hblocks hnames)
    · exact absurd hdata.symm (hwrite (hnew hblocks) id' row' hsame' hblocks' hnames.symm)
    · rfl
  · intro id row hrow hblocks
    rcases hold id row hrow with ⟨-, hsame⟩ | ⟨rfl, -⟩
    · exact (h.served id row hsame hblocks).imp_left (List.mem_cons_of_mem _)
    · exact .inl (List.mem_cons_self ..)
  · rintro id hclosed ⟨row, hrow, hblocks⟩
    rcases hold id row hrow with ⟨-, hsame⟩ | ⟨rfl, -⟩
    · exact List.mem_cons_of_mem _ (h.closed id hclosed ⟨row, hsame, hblocks⟩)
    · exact List.mem_cons_self ..
  · intro left commands hreplay row hmem
    obtain ⟨hlt, hread⟩ := h.read left commands hreplay row hmem
    refine ⟨Nat.lt_succ_of_lt hlt, ?_⟩
    intro row' hrow'
    rcases hold row.id row' hrow' with ⟨-, hsame⟩ | ⟨heq, -⟩
    · exact hread row' hsame
    · exact absurd heq hlt.ne

/-- RULE (restart): the rows that are kept are to be replayed. -/
theorem restart (h : s.Kept H C) : s.restart.Kept [] [] := by
  have hrows : ∀ id row, s.restart.rows id = some row →
      s.rows id = some row ∧ row.name ∉ PERMANENT_COMMANDS := by
    intro id row hrow
    obtain ⟨hrow, hname⟩ := Option.filter_eq_some_iff.mp hrow
    exact ⟨hrow, of_decide_eq_true hname⟩
  constructor
  · exact fun id row hrow => h.rows id row (hrows id row hrow).1
  · intro id id' row row' hrow hrow'
    exact h.unique id id' row row' (hrows id row hrow).1 (hrows id' row' hrow').1
  · exact fun id row hrow _ => .inr (hrows id row hrow).2
  · intro id hid
    cases hid
  · intro left commands hreplay
    cases hreplay

/-! ### Rules for the functions of the executor -/

/-- RULE (same): commands in hand are taken in another order, or let go when somebody else has them. -/
theorem same (h : s.Kept H C) (hH : ∀ id ∈ H, s.Blocks id → id ∈ H' ++ s.held)
    (hC : ∀ id ∈ C', id ∈ C) : s.Kept H' C' := by
  refine h.frame rfl rfl rfl (fun id hid hblocks => ?_) fun id hid => ?_
  · rcases List.mem_append.mp hid with hid | hid
    · exact hH id hid hblocks
    · exact List.mem_append_right _ hid
  · rcases List.mem_append.mp hid with hid | hid
    · exact List.mem_append_left _ (hC id hid)
    · exact List.mem_append_right _ hid

theorem forget (h : s.Kept H (x :: C)) : s.Kept H C :=
  h.same (fun _ hid _ => List.mem_append_left _ hid) fun _ hid => List.mem_cons_of_mem x hid

theorem readd {caller : Caller} (h : s.Kept (c.id :: H) C) : (s.readd c caller).Kept H C := by
  rw [State.readd]
  split
  · exact Kept.start h
  · exact h.enqueue

theorem handleError (h : s.Kept (c.id :: H) C) : (s.handleError c).Kept H C := by
  rw [State.handleError]
  split
  · exact Kept.start h
  · exact Kept.start h

theorem execute (h : s.Kept (c.id :: H) C) : (s.execute c).Kept H C := by
  have hstart : (s.start (.executing c s.nextExecution)).Kept H C := Kept.start h
  exact hstart.frame rfl rfl rfl (fun _ hid _ => hid) fun _ hid => hid

theorem insertChildren {n : ℕ} {left : List (NewCommand δ)} {children : List (Command δ)}
    (h : s.Kept (c.id :: children.map (·.id) ++ H) C) :
    (s.insertChildren c n left children).Kept H C := by
  cases left with
  | nil => exact Kept.start h
  | cons new left => exact Kept.start h

theorem handAll {children : List (Command δ)} (h : s.Kept (children.map (·.id) ++ H) C) :
    (children.foldl State.hand s).Kept H C := by
  induction children generalizing s with
  | nil => exact h
  | cons c children ih => exact ih h.hand

theorem addChildren {children : List (Command δ)}
    (h : s.Kept (children.map (·.id) ++ H) (c.id :: C)) : (s.addChildren c children).Kept H C := by
  have hsplit : s.Kept ((children.filter (!·.isBlocking)).map (·.id) ++
      ((children.filter (·.isBlocking)).map (·.id) ++ H)) (c.id :: C) := by
    refine h.same (fun id hid _ => List.mem_append_left _ ?_) fun _ hid => hid
    rcases List.mem_append.mp hid with hid | hid
    · obtain ⟨child, hchild, rfl⟩ := List.mem_map.mp hid
      cases hblocking : child.isBlocking with
      | false =>
        refine List.mem_append_left _ (List.mem_map.mpr ⟨child, ?_, rfl⟩)
        exact List.mem_filter.mpr ⟨hchild, by simp [hblocking]⟩
      | true =>
        refine List.mem_append_right _ (List.mem_append_left _ (List.mem_map.mpr ⟨child, ?_, rfl⟩))
        exact List.mem_filter.mpr ⟨hchild, hblocking⟩
    · exact List.mem_append_right _ (List.mem_append_right _ hid)
  have hhand := hsplit.handAll
  simp only [State.addChildren]
  split
  · next hnone =>
    rw [hnone] at hhand
    exact hhand.forget
  · exact Kept.start hhand

theorem startAll {tasks : List (Task δ)}
    (h : s.Kept (tasks.flatMap Task.held ++ H) (tasks.flatMap Task.closed ++ C)) :
    { s with tasks := s.tasks ++ tasks }.Kept H C := by
  refine h.frame rfl rfl rfl (fun id hid _ => ?_) fun id hid => ?_
  · simp only [held, List.flatMap_append, List.mem_append] at hid ⊢
    tauto
  · simp only [State.closed, List.flatMap_append, List.mem_append] at hid ⊢
    tauto

/-- What `SparesRows` says of a command that is let go. -/
theorem held_of_dropped {ids : List ℕ} (h : s.Kept H C)
    (hdrop : ∀ row ∈ ids.filterMap s.rows, row.blocks = true → row.id ∈ s.held) (hx : x ∈ ids)
    (hblocks : s.Blocks x) : x ∈ s.held := by
  obtain ⟨row, hrow, hblocks⟩ := hblocks
  obtain ⟨rfl, -⟩ := h.rows x row hrow
  exact hdrop row (List.mem_filterMap.mpr ⟨row.id, hx, hrow⟩) hblocks

section

variable [DecidableEq δ]

theorem not_twin {row' : Row δ} (h : s.Kept H C) (htwin : s.hasTwin row = false)
    (hrow' : s.rows x = some row') (hne : x ≠ row.id) (hblocks : row'.blocks = true)
    (hname : row'.name = row.name) : row'.data ≠ row.data := by
  intro hdata
  obtain ⟨hid, hlt⟩ := h.rows x row' hrow'
  obtain ⟨hblocking, hlive⟩ := Bool.and_eq_true_iff.mp hblocks
  have hmem : row' ∈ s.findUnfinalizedCommandsByName row.name := by
    refine List.mem_filter.mpr ⟨List.mem_filterMap.mpr ⟨x, List.mem_range.mpr hlt, hrow'⟩, ?_⟩
    simp [hname, hlive]
  have hany : s.hasTwin row = true :=
    List.any_eq_true.mpr ⟨row', hmem, by simp [hid, hne, hblocking, hdata]⟩
  rw [htwin] at hany
  cases hany

/-- The new row of a blocking command has no twin. -/
theorem insertNew {parentId : Option ℕ} {origin : Option Origin} (h : s.Kept H C)
    (hwrite : ∀ row, some (s.newRow new parentId) = some row → row.blocks = true →
      s.hasTwin row = false) : (s.insert new parentId origin).Kept (s.nextId :: H) C := by
  refine h.insert ?_
  intro hblocking id row hrow hblocks hname
  have hnew : (s.newRow new parentId).blocks = true := by
    simp [Row.blocks, newRow, hblocking, isFinalized]
  exact h.not_twin (hwrite _ rfl hnew) hrow (h.rows id row hrow).2.ne hblocks hname

/-- A row that is written as unfinalized has no twin. -/
theorem rewrite {change : Row δ → Row δ} (h : s.Kept H C) (hx : x ∈ H)
    (hid : ∀ row, (change row).id = row.id) (hname : ∀ row, (change row).name = row.name)
    (hblocking : ∀ row, (change row).isBlocking = row.isBlocking)
    (hwrite : ∀ row, (s.rows x).map change = some row → row.blocks = true →
      s.hasTwin row = false) : (s.update x change).Kept H C := by
  refine h.update hx hid hname hblocking ?_
  intro row hrow hblocks id row' hne hrow' hblocks' hnames
  have htwin := hwrite (change row) (by rw [hrow, Option.map_some]) hblocks
  refine h.not_twin htwin hrow' ?_ hblocks' (hnames.trans (hname row).symm)
  rw [hid, (h.rows x row hrow).1]
  exact hne

theorem checked_true {caller : Caller} (h : s.Kept (c.id :: H) C)
    (hdrop : s.refuses c = true → s.Blocks c.id → c.id ∈ H ++ s.held) :
    (s.checked c caller true).Kept H C := by
  simp only [State.checked, if_true]
  split
  · next hrefuses => exact h.drop (hdrop hrefuses)
  · split
    · exact h.hand
    · exact h.enqueue

/-- STEP: a call of a task ends. -/
theorem advance {outcome : Outcome δ} (h : s.Kept t.held t.closed)
    (hadvance : s.advance t outcome = some s')
    (hspares : s.SparesRows (s.writes t outcome) (s.drops t outcome)) : s'.Kept [] [] := by
  obtain ⟨hwrite, hdrop⟩ := hspares
  have hself : ∀ id : ℕ, id ∈ [id] := fun id => List.mem_singleton_self id
  cases t with
  | adding new =>
    cases outcome with
    | returns =>
      obtain rfl := Option.some.inj hadvance
      split
      · exact h
      · exact Kept.start h
    | fails =>
      obtain rfl := Option.some.inj hadvance
      exact h
    | _ => cases hadvance
  | inserting new =>
    cases outcome with
    | returns =>
      obtain rfl := Option.some.inj hadvance
      exact Kept.enqueue (h.insertNew hwrite)
    | fails =>
      obtain rfl := Option.some.inj hadvance
      exact h
    | _ => cases hadvance
  | checking c caller =>
    cases outcome with
    | returns =>
      obtain rfl := Option.some.inj hadvance
      refine checked_true h ?_
      intro hrefuses hblocks
      simp only [drops, if_pos hrefuses] at hdrop
      exact h.held_of_dropped hdrop (hself _) hblocks
    | fails =>
      obtain rfl := Option.some.inj hadvance
      simp only [State.checked, Bool.false_eq_true, if_false]
      cases caller with
      | wait => exact h.restart
      | replay => exact h.restart
      | process => exact Kept.handleError h
      | handleError => exact h.drop (h.held_of_dropped hdrop (hself _))
      | children => exact h.drop (h.held_of_dropped hdrop (hself _))
    | _ => cases hadvance
  | starting c =>
    cases outcome with
    | fails =>
      obtain rfl := Option.some.inj hadvance
      exact h.restart
    | late =>
      obtain rfl := Option.some.inj hadvance
      exact Kept.start h
    | early =>
      obtain rfl := Option.some.inj hadvance
      exact Kept.readd h
    | returns =>
      obtain rfl := Option.some.inj hadvance
      exact Kept.start h
    | _ => cases hadvance
  | expiring c =>
    cases outcome with
    | fails =>
      obtain rfl := Option.some.inj hadvance
      exact h.restart
    | returns =>
      obtain rfl := Option.some.inj hadvance
      exact (h.finalize rfl).forget
    | _ => cases hadvance
  | marking c =>
    cases outcome with
    | fails =>
      obtain rfl := Option.some.inj hadvance
      exact Kept.handleError h
    | returns =>
      obtain rfl := Option.some.inj hadvance
      exact Kept.execute (h.rewrite (hself _) (fun _ => rfl) (fun _ => rfl) (fun _ => rfl) hwrite)
    | _ => cases hadvance
  | executing c n =>
    cases outcome with
    | fails =>
      obtain rfl := Option.some.inj hadvance
      exact Kept.handleError h
    | repeats data =>
      obtain rfl := Option.some.inj hadvance
      exact Kept.start h
    | retry data =>
      obtain rfl := Option.some.inj hadvance
      split
      · exact Kept.start h
      · exact Kept.start h
    | commands data children =>
      obtain rfl := Option.some.inj hadvance
      exact Kept.insertChildren h
    | _ => cases hadvance
  | finishing c n =>
    cases outcome with
    | fails =>
      obtain rfl := Option.some.inj hadvance
      exact Kept.handleError h
    | returns =>
      obtain rfl := Option.some.inj hadvance
      exact Kept.start h
    | _ => cases hadvance
  | repeating c =>
    cases outcome with
    | fails =>
      obtain rfl := Option.some.inj hadvance
      exact Kept.handleError h
    | returns =>
      obtain rfl := Option.some.inj hadvance
      exact Kept.readd (h.rewrite (hself _) (fun _ => rfl) (fun _ => rfl) (fun _ => rfl) hwrite)
    | _ => cases hadvance
  | retrying c =>
    cases outcome with
    | fails =>
      obtain rfl := Option.some.inj hadvance
      exact Kept.handleError h
    | returns =>
      obtain rfl := Option.some.inj hadvance
      exact Kept.readd (h.rewrite (hself _) (fun _ => rfl) (fun _ => rfl) (fun _ => rfl) hwrite)
    | _ => cases hadvance
  | insertingChildren c n left children => cases outcome <;> cases hadvance
  | insertingChild c n new =>
    cases outcome with
    | returns =>
      obtain rfl := Option.some.inj hadvance
      refine (h.insertNew hwrite).drop ?_
      rintro ⟨row, hrow, hblocks⟩
      have hself : (s.insertChild c n new).rows s.nextId = some (s.newRow new (some c.id)) :=
        Function.update_self ..
      obtain rfl := Option.some.inj (hself.symm.trans hrow)
      exact hdrop _ (List.mem_singleton_self _) hblocks
    | fails =>
      obtain rfl := Option.some.inj hadvance
      exact h
    | _ => cases hadvance
  | completing c n children =>
    cases outcome with
    | fails =>
      obtain rfl := Option.some.inj hadvance
      refine Kept.handleError (h.same (fun id hid hblocks => ?_) fun _ hid => hid)
      rcases List.mem_cons.mp hid with rfl | hid
      · exact List.mem_cons_self ..
      · exact List.mem_cons_of_mem _ (h.held_of_dropped hdrop hid hblocks)
    | returns =>
      obtain rfl := Option.some.inj hadvance
      have hcomplete : (s.complete c n).Kept (children.map (·.id)) [c.id] :=
        (h.finalize rfl).frame rfl rfl rfl (fun _ hid _ => hid) fun _ hid => hid
      exact Kept.addChildren (hcomplete.same (fun id hid _ => by simp [hid]) fun _ hid => hid)
    | _ => cases hadvance
  | addingChildren c children => cases outcome <;> cases hadvance
  | spending c =>
    cases outcome with
    | fails =>
      obtain rfl := Option.some.inj hadvance
      exact h.drop (h.held_of_dropped hdrop (hself _))
    | returns =>
      obtain rfl := Option.some.inj hadvance
      refine Kept.readd (h.update (hself _) (fun _ => rfl) (fun _ => rfl) (fun _ => rfl) ?_)
      intro row hrow hblocks id row' hne hrow' hblocks' hname hdata
      exact hne (h.unique id c.id row' row hrow' hrow hblocks' hblocks hname hdata)
    | _ => cases hadvance
  | failing c =>
    cases outcome with
    | fails =>
      obtain rfl := Option.some.inj hadvance
      exact h.drop (h.held_of_dropped hdrop (hself _))
    | returns =>
      obtain rfl := Option.some.inj hadvance
      exact Kept.start (h.finalize rfl)
    | _ => cases hadvance
  | recovering c =>
    cases outcome with
    | repeats data =>
      obtain rfl := Option.some.inj hadvance
      exact Kept.start h
    | fails =>
      obtain rfl := Option.some.inj hadvance
      exact h.forget
    | commands data children =>
      obtain rfl := Option.some.inj hadvance
      exact h.forget
    | retry data =>
      obtain rfl := Option.some.inj hadvance
      exact h.forget
    | _ => cases hadvance
  | reopening c =>
    cases outcome with
    | fails =>
      obtain rfl := Option.some.inj hadvance
      exact h.forget
    | returns =>
      obtain rfl := Option.some.inj hadvance
      exact Kept.readd
        ((h.forget.take c.id).rewrite (hself _) (fun _ => rfl) (fun _ => rfl) (fun _ => rfl) hwrite)
    | _ => cases hadvance

/-- STEP: a child is inserted, or it is not and the others go on without their execution. -/
theorem insertedChild {n j : ℕ} {ok : Bool} {left : List (NewCommand δ)}
    {children : List (Command δ)} (h : s.Kept (c.id :: children.map (·.id)) [])
    (hwrite : ok = true → ∀ row, some (s.newRow new (some c.id)) = some row → row.blocks = true →
      s.hasTwin row = false)
    (hdrop : ok = false → ∀ row ∈ (children.map (·.id)).filterMap s.rows, row.blocks = true →
      row.id ∈ s.held) :
    (if ok then
        (s.insertChild c n new).insertChildren c n (left.eraseIdx j)
          (children ++ [(s.newRow new (some c.id)).toCommand])
      else
        { s with
          tasks := s.tasks ++ (left.eraseIdx j).map (Task.insertingChild c n) }.handleError c).Kept
      [] [] := by
  split
  · next hok =>
    refine Kept.insertChildren ((h.insertNew (hwrite hok)).same (fun id hid _ => ?_) fun _ hid => hid)
    have hnew : (s.newRow new (some c.id)).toCommand.id = s.nextId := rfl
    simp only [List.mem_cons, List.mem_append, List.map_append, List.map_singleton, hnew,
      List.append_nil] at hid ⊢
    tauto
  · next hok =>
    refine Kept.handleError (Kept.startAll ?_)
    have hnone : ((left.eraseIdx j).map (Task.insertingChild c n)).flatMap Task.held = [] ∧
        ((left.eraseIdx j).map (Task.insertingChild c n)).flatMap Task.closed = [] := by
      simp [Task.held, Task.closed]
    rw [hnone.1, hnone.2]
    refine h.same (fun id hid hblocks => ?_) fun _ hid => hid
    rcases List.mem_cons.mp hid with rfl | hid
    · exact List.mem_cons_self ..
    · exact List.mem_cons_of_mem _
        (h.held_of_dropped (hdrop (Bool.eq_false_iff.mpr hok)) hid hblocks)

/-- STEP: a child is added, or it is not and the others go on without their execution. -/
theorem addedChild {j : ℕ} {ok : Bool} {children : List (Command δ)} {child : Command δ}
    (hchild : children[j]? = some child) (h : s.Kept (children.map (·.id)) [c.id])
    (hdrop : (ok = true → s.refuses child = true) → s.Blocks child.id → child.id ∈ s.held) :
    (if ok then
        let s := s.checked child .children true
        match children.eraseIdx j with
        | [] => s
        | left => s.start (.addingChildren c left)
      else
        { s with
          tasks := s.tasks ++
            (children.eraseIdx j).map (Task.checking · .children) }.handleError c).Kept [] [] := by
  have hfirst : s.Kept (child.id :: (children.eraseIdx j).map (·.id)) [c.id] := by
    obtain ⟨hlt, rfl⟩ := List.getElem?_eq_some_iff.mp hchild
    have hperm := (List.getElem_cons_eraseIdx_perm hlt).map (·.id)
    exact h.same (fun id hid _ => List.mem_append_left _ (hperm.mem_iff.mpr hid)) fun _ hid => hid
  cases ok with
  | true =>
    rw [if_pos rfl]
    have hchecked : (s.checked child .children true).Kept ((children.eraseIdx j).map (·.id))
        [c.id] :=
      hfirst.checked_true fun hrefuses hblocks =>
        List.mem_append_right _ (hdrop (fun _ => hrefuses) hblocks)
    simp only
    split
    · next hnone =>
      rw [hnone] at hchecked
      exact hchecked.forget
    · exact Kept.start (hchecked.same (fun id hid _ => by simp [Task.held, hid]) fun _ hid => hid)
  | false =>
    rw [if_neg (by simp)]
    have hdropped := hfirst.drop fun hblocks => List.mem_append_right _ (hdrop (by simp) hblocks)
    refine Kept.handleError (Kept.startAll ?_)
    have htasks : ((children.eraseIdx j).map (Task.checking · .children)).flatMap Task.held =
          (children.eraseIdx j).map (·.id) ∧
        ((children.eraseIdx j).map (Task.checking · .children)).flatMap Task.closed = [] := by
      refine ⟨?_, by simp [Task.closed]⟩
      rw [List.flatMap_map]
      exact List.map_eq_flatMap.symm
    rw [htasks.1, htasks.2]
    refine (hdropped.forget.take c.id).same (fun id hid _ => List.mem_append_left _ ?_)
      fun _ hid => hid
    rcases List.mem_cons.mp hid with rfl | hid
    · exact List.mem_append_right _ (List.mem_singleton_self _)
    · exact List.mem_append_left _ hid

/-- STEP: a call for a child ends. -/
theorem advanceChild {j : ℕ} {ok : Bool} (h : s.Kept t.held t.closed)
    (hadvance : s.advanceChild j ok t = some s')
    (hspares : s.SparesRows (s.writesChild j t ok) (s.dropsChild j t ok)) : s'.Kept [] [] := by
  obtain ⟨hwrite, hdrop⟩ := hspares
  cases t with
  | insertingChildren c n left children =>
    obtain ⟨new, hnew, rfl⟩ := Option.map_eq_some_iff.mp hadvance
    refine insertedChild h (fun hok => ?_) fun hok => ?_
    · subst hok
      simp only [writesChild, hnew, Option.map_some] at hwrite
      exact hwrite
    · subst hok
      obtain ⟨hlt, -⟩ := List.getElem?_eq_some_iff.mp hnew
      simp only [dropsChild, if_pos hlt] at hdrop
      exact hdrop
  | addingChildren c children =>
    obtain ⟨child, hget, rfl⟩ := Option.map_eq_some_iff.mp hadvance
    refine addedChild hget h fun hrefused hblocks => h.held_of_dropped hdrop ?_ hblocks
    have hlost : (!ok || s.refuses child) = true := by
      cases ok with
      | true => exact hrefused rfl
      | false => rfl
    simp [hget, hlost]
  | _ => cases hadvance

end

/-! ### The replay and the steps -/

/-- STEP: the replay reads the rows. -/
theorem read_pending (h : s.Kept [] []) (hreplay : s.replay = .reading) :
    { s with replay := .looking s.pendingCommands [] }.Kept [] [] := by
  have hpending : ∀ row ∈ s.pendingCommands, s.rows row.id = some row := by
    intro row hrow
    obtain ⟨id, -, hget⟩ := List.mem_filterMap.mp (List.mem_filter.mp hrow).1
    rwa [(h.rows id row hget).1]
  refine ⟨h.rows, h.unique, ?_, h.closed, ?_⟩
  · intro id row hrow hblocks
    refine (h.served id row hrow hblocks).imp_right fun hawaits => .inl ?_
    obtain ⟨hid, hlt⟩ := h.rows id row hrow
    have hname : row.name ∉ PERMANENT_COMMANDS := by
      rw [Awaits, hreplay] at hawaits
      exact hawaits
    have hstatus : row.status ∈ [CommandStatus.pending, .started, .repeating] := by
      have hlive := (Bool.and_eq_true_iff.mp hblocks).2
      revert hlive
      cases row.status <;> decide
    refine List.mem_map.mpr ⟨row, List.mem_filter.mpr ⟨?_, by simp [hstatus, hname]⟩, rfl⟩
    exact List.mem_filterMap.mpr ⟨id, List.mem_range.mpr hlt, hrow⟩
  · intro left commands heq
    cases heq
    intro row hrow
    refine ⟨(h.rows _ _ (hpending row hrow)).2, ?_⟩
    intro row' hrow'
    rw [Option.some.inj (hrow'.symm.trans (hpending row hrow))]

/-- STEP: the replay looks at a row: a blocking one is taken. -/
theorem lookAt {left : List (Row δ)} {commands : List (Command δ)} (h : s.Kept [] [])
    (hreplay : s.replay = .looking (row :: left) commands) :
    Kept
      { s with
        replay := .looking left (if s.takes row then commands ++ [row.toCommand] else commands) }
      [] [] := by
  refine ⟨h.rows, h.unique, ?_, h.closed, ?_⟩
  · intro id row' hrow' hblocks
    refine (h.served id row' hrow' hblocks).imp_right ?_
    intro hawaits
    have hid := (h.rows id row' hrow').1
    simp only [Awaits, hreplay, List.map_cons, List.mem_cons] at hawaits
    rcases hawaits with (heq | hleft) | hcommands
    · have hread := (h.read _ _ hreplay row (List.mem_cons_self ..)).2 row'
        (by rwa [← heq, hid])
      have hblocking : row.isBlocking = true :=
        hread.symm.trans (Bool.and_eq_true_iff.mp hblocks).1
      have htakes : s.takes row = true := by simp [takes, hblocking]
      refine .inr ?_
      simp [htakes, heq]
    · exact .inl hleft
    · refine .inr ?_
      split
      · rw [List.map_append]
        exact List.mem_append_left _ hcommands
      · exact hcommands
  · intro left' commands' heq
    cases heq
    exact fun row' hrow' => h.read _ _ hreplay row' (List.mem_cons_of_mem _ hrow')

theorem held_of_worker {t : Task δ} (h : worker t = some x) : x ∈ t.held ∨ x ∈ t.closed := by
  cases t with
  | checking c caller =>
    rw [worker] at h
    split at h
    · cases h
    · obtain rfl := Option.some.inj h
      exact .inl (List.mem_singleton_self _)
  | adding | inserting | insertingChild => cases h
  | _ =>
    obtain rfl := Option.some.inj h
    simp [Task.held, Task.closed]

/-- STEP: the rows that the replay has taken are queued, unless a worker has them. -/
theorem replayAll {commands : List (Command δ)} (h : s.Kept (commands.map (·.id)) [])
    (hclosed : ∀ id ∈ s.closed, s.Blocks id → id ∈ s.held) :
    (commands.foldl State.replayCommand s).Kept [] [] := by
  induction commands generalizing s with
  | nil => exact h
  | cons c commands ih =>
    rw [List.foldl_cons, State.replayCommand]
    split
    · next hworker =>
      refine ih (h.drop fun hblocks => List.mem_append_right _ ?_) hclosed
      obtain ⟨t, ht, hid⟩ := List.mem_filterMap.mp hworker
      rcases held_of_worker hid with hheld | hid
      · exact List.mem_append_right _ (List.mem_flatMap.mpr ⟨t, ht, hheld⟩)
      · exact hclosed c.id (List.mem_flatMap.mpr ⟨t, ht, hid⟩) hblocks
    · split
      · refine ih (Kept.start h) ?_
        intro id hid hblocks
        rw [mem_closed_start] at hid
        rw [mem_held_start]
        exact .inl (hclosed id (hid.resolve_right (by simp [Task.closed])) hblocks)
      · refine ih h.hand ?_
        intro id hid hblocks
        exact (mem_held_enqueue (s := s)).mpr (.inl (hclosed id hid hblocks))

theorem finish {commands : List (Command δ)} (h : s.Kept [] [])
    (hreplay : s.replay = .looking [] commands) :
    Kept { s with replay := .finished } (commands.map (·.id)) [] := by
  refine ⟨h.rows, h.unique, fun id row hrow hblocks => .inl ?_, fun id hid hblocks => ?_,
    fun left commands heq => by cases heq⟩
  · rcases h.served id row hrow hblocks with hheld | hawaits
    · exact List.mem_append_right _ hheld
    · simp only [Awaits, hreplay, List.map_nil, List.not_mem_nil, false_or] at hawaits
      rw [← (h.rows id row hrow).1]
      exact List.mem_append_left _ hawaits
  · exact List.mem_append_right _ (h.closed id hid hblocks)

/-- STEP: the replay goes on. -/
theorem look {ok : Bool} (h : s.Kept [] []) : (s.look ok).Kept [] [] := by
  rw [State.look]
  split
  · exact h
  · next hreplay =>
    split
    · exact h.read_pending hreplay
    · exact h.restart
  · next row left commands hreplay =>
    split
    · exact h.lookAt hreplay
    · exact h.restart
  · next commands hreplay => exact replayAll (h.finish hreplay) h.closed

/-- STEP: rows are removed. -/
theorem remove (h : s.Kept [] []) :
    { s with rows := fun id => if id ∈ s.found then none else s.rows id, found := [] }.Kept
      [] [] := by
  have hrows : ∀ id row, (if id ∈ s.found then none else s.rows id) = some row →
      s.rows id = some row := by
    intro id row hrow
    split at hrow
    · cases hrow
    · exact hrow
  constructor
  · exact fun id row hrow => h.rows id row (hrows id row hrow)
  · intro id id' row row' hrow hrow'
    exact h.unique id id' row row' (hrows id row hrow) (hrows id' row' hrow')
  · exact fun id row hrow => h.served id row (hrows id row hrow)
  · rintro id hid ⟨row, hrow, hblocks⟩
    exact h.closed id hid ⟨row, hrows id row hrow, hblocks⟩
  · intro left commands hreplay row hrow
    obtain ⟨hlt, hread⟩ := h.read left commands hreplay row hrow
    exact ⟨hlt, fun row' hrow' => hread row' (hrows row.id row' hrow')⟩

/-- STEP: a command is taken off the queue. -/
theorem dequeue (h : s.Kept [] []) (hc : s.queue[i]? = some c) :
    ({ s with queue := s.queue.eraseIdx i }.start (.starting c)).Kept [] [] := by
  obtain ⟨hlt, rfl⟩ := List.getElem?_eq_some_iff.mp hc
  have hperm := (List.getElem_cons_eraseIdx_perm hlt).map (·.id)
  refine Kept.start (h.frame rfl rfl rfl (fun id hid _ => ?_) fun _ hid => hid)
  have hmem := hperm.mem_iff (a := id)
  simp only [List.nil_append, held, List.mem_append, ← hmem, List.map_cons, List.mem_cons] at hid
  simp only [Task.held, List.append_nil, held, List.mem_append, List.mem_singleton]
  tauto

/-- STEP: a step that spares blocking commands keeps the invariant. -/
theorem act [DecidableEq δ] {a : Action δ} (h : s.Kept [] []) (hspares : s.Spares a) :
    (s.act a).Kept [] [] := by
  cases a with
  | add new =>
    refine Kept.start ?_
    split
    · exact h
    · exact h
  | take i =>
    rw [State.act]
    split
    · next c hc => exact h.dequeue hc
    · exact h
  | reply i outcome =>
    rw [State.act]
    cases ht : s.tasks[i]? with
    | none => exact h
    | some t =>
      rw [Option.bind_some]
      cases hadvance : { s with tasks := s.tasks.eraseIdx i }.advance t outcome with
      | none => exact h
      | some s' => exact advance (h.withoutTask ht) hadvance (hspares t ht)
  | replyChild i j ok =>
    rw [State.act]
    cases ht : s.tasks[i]? with
    | none => exact h
    | some t =>
      rw [Option.bind_some]
      cases hadvance : { s with tasks := s.tasks.eraseIdx i }.advanceChild j ok t with
      | none => exact h
      | some s' => exact advanceChild (h.withoutTask ht) hadvance (hspares t ht)
  | look ok => exact h.look
  | find ids => exact h.frame rfl rfl rfl (fun _ hid _ => hid) fun _ hid => hid
  | remove => exact h.remove
  | restart => exact h.restart

theorem unstuck [DecidableEq δ] (h : s.Kept [] []) : s.Unstuck where
  unique := h.unique
  served := h.served
  refused new hrefuses := by
    obtain ⟨row, hrow, hdata⟩ := List.any_eq_true.mp hrefuses
    obtain ⟨hrow, hname⟩ := List.mem_filter.mp hrow
    obtain ⟨id, -, hget⟩ := List.mem_filterMap.mp hrow
    obtain ⟨hname, hlive⟩ := Bool.and_eq_true_iff.mp hname
    refine ⟨id, row, hget, of_decide_eq_true hname, of_decide_eq_true hdata, ?_⟩
    intro hblocking
    exact h.served id row hget (Bool.and_eq_true_iff.mpr ⟨hblocking, hlive⟩)

theorem run [DecidableEq δ] {actions : List (Action δ)} (h : s.Kept [] [])
    (hspares : s.SparesThroughout actions) : (s.run actions).Kept [] [] := by
  induction actions generalizing s with
  | nil => exact h
  | cons a actions ih => exact ih (h.act hspares.1) hspares.2

end Kept

theorem kept_initial : (initial : State δ).Kept [] [] where
  rows _ _ h := by cases h
  unique _ _ _ _ h := by cases h
  served _ _ h := by cases h
  closed _ h := by cases h
  read _ _ h := by cases h

/-- CORRECT (blocking commands): in a run whose steps spare blocking commands, however the calls of
    `add` are interleaved, whatever fails and whenever the node is restarted, each blocking command has
    one unfinalized row, and the row is served. -/
theorem unstuck_run [DecidableEq δ] (actions : List (Action δ))
    (h : (initial : State δ).SparesThroughout actions) :
    ((initial : State δ).run actions).Unstuck :=
  (kept_initial.run h).unstuck

/-! ### The event listener of a blockchain -/

/-- The command that `eventListenerCommand` adds for a blockchain. -/
def blockchainEventListenerCommand : NewCommand String :=
  ⟨"blockchainEventListenerCommand", "otp:2043", true, 1000⟩

/-- The listener is added, and executed for the first time. -/
def listening : List (Action String) :=
  [.add blockchainEventListenerCommand, .reply 0 .returns, .reply 0 .returns,
    .take 0, .reply 0 .returns, .reply 0 .returns]

/-- The execution fails, the listener is queued again, the node is restarted, and the next execution
    is completed. The listener is added once more. -/
def listenedAgain : List (Action String) :=
  listening ++ [Action.reply 0 .fails, .reply 0 .returns, .reply 0 .returns, .restart,
    .look true, .look true, .look true, .reply 0 .returns, .take 0, .reply 0 .returns,
    .reply 0 .returns, .reply 0 (.commands "otp:2043" []), .reply 0 .returns,
    .add blockchainEventListenerCommand, .reply 0 .returns, .reply 0 .returns]

/-- The execution fails, and so does the update of its retries. -/
def listenerLost : List (Action String) := listening ++ [Action.reply 0 .fails, .reply 0 .fails]

/-- Two calls of `add` look before either of them inserts. -/
def listenerTwice : List (Action String) :=
  [.add blockchainEventListenerCommand, .add blockchainEventListenerCommand, .reply 0 .returns,
    .reply 0 .returns, .reply 0 .returns, .reply 0 .returns]

/-- CORRECT (blocking commands): the run in which the listener is executed again spares it. -/
theorem unstuck_run_listening : ((initial : State String).run listenedAgain).Unstuck :=
  unstuck_run listenedAgain (by decide +kernel)

/-- COUNTEREXAMPLE: the listener is neither queued nor executed, and `add` refuses it; or it has two
    rows. -/
theorem listener_stopped :
    (¬ ((initial : State String).run listenerLost).Unstuck ∧
      ((initial : State String).run listenerLost).refusesNew blockchainEventListenerCommand = true) ∧
    ¬ ((initial : State String).run listenerTwice).Unstuck := by
  refine ⟨⟨fun h => ?_, by decide +kernel⟩, fun h => ?_⟩
  · have hserved := h.served 0 ⟨⟨blockchainEventListenerCommand, 0, none⟩, .started⟩
      (by decide +kernel) rfl
    rcases hserved with hheld | hawaits
    · exact absurd hheld (by decide +kernel)
    · exact hawaits
  · have hunique := h.unique 0 1 ⟨⟨blockchainEventListenerCommand, 0, none⟩, .pending⟩
      ⟨⟨blockchainEventListenerCommand, 1, none⟩, .pending⟩ (by decide +kernel)
      (by decide +kernel) rfl rfl rfl rfl
    cases hunique

end State

end OtNode.CommandExecutor
