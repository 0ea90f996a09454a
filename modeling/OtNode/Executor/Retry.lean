import Mathlib.Data.List.Infix
import Mathlib.Tactic.Common

/-! The command executor's accounting of one command: how often `execute` runs and how the command
    ends.

    A command is taken off the queue, executed, and then completed, put back with one retry less, or
    given up. `retryFinished` is called inside the `try` that guards `execute`, so when it throws the
    executor treats the command as failed although its retries are over. -/

namespace OtNode.Executor

/-- `COMMAND_STATUS`. -/
inductive CommandStatus where
  | failed | expired | unknown | started | pending | completed | repeating
  deriving DecidableEq

/-- The fields of a command its accounting reads. `retries` may be missing. -/
structure Command (δ : Type) where
  id : ℕ
  data : δ
  retries : Option ℕ
  isBlocking : Bool
  transactional : Bool
  deriving DecidableEq

/-- The row of the command in the database. -/
structure Row where
  status : CommandStatus
  retries : Option ℕ
  deriving DecidableEq

/-- What a handler returns: the next commands, `Command.retry()` or `Command.repeat()`. -/
inductive CommandResult (γ : Type) where
  | commands (children : List γ)
  | retry
  | repeats
  deriving DecidableEq

/-- The calls the executor makes for one command. `add` puts a next command on the queue. -/
inductive Call (γ : Type) where
  | execute
  | retryFinished
  | recover
  | add (child : γ)
  deriving DecidableEq

/-- A command and what the executor has done with it. -/
structure Life (δ γ : Type) where
  command : Command δ
  row : Row
  queued : Bool
  calls : List (Call γ)
  deriving DecidableEq

/-- One turn of the queue: what the handler's functions come to if they are called, and the
    unfinalized commands of this name that `add` finds if it is called, by id and data. The command
    is handed over once for each of `waits` before it is due. -/
structure Turn (δ γ : Type) where
  waits : List (List (ℕ × δ))
  execute : Except String (CommandResult γ)
  retryFinished : Except String Unit
  recover : Except String (CommandResult γ)
  unfinalized : List (ℕ × δ)

variable {δ γ : Type} [DecidableEq δ]

/-- `command.retries && command.retries > n` reads a missing budget as none. -/
def Command.budget (c : Command δ) : ℕ := c.retries.getD 0

/-- The test by which `add` leaves out a blocking command. -/
def Command.refused (c : Command δ) (unfinalized : List (ℕ × δ)) : Bool :=
  c.isBlocking && unfinalized.any fun u => decide (u.1 ≠ c.id) && decide (u.2 = c.data)

namespace Life

/-- `_update` with a status. -/
def update (s : Life δ γ) (status : CommandStatus) : Life δ γ :=
  { s with row := { s.row with status := status } }

/-- `_update` with one retry less. -/
def spend (s : Life δ γ) : Life δ γ :=
  { s with
    command := { s.command with retries := some (s.command.budget - 1) }
    row := { s.row with retries := some (s.command.budget - 1) } }

/-- A call of the executor. -/
def call (s : Life δ γ) (c : Call γ) : Life δ γ := { s with calls := s.calls ++ [c] }

/-- `add(command, delay, false)`. -/
def add (s : Life δ γ) (unfinalized : List (ℕ × δ)) : Life δ γ :=
  { s with queued := !s.command.refused unfinalized }

/-- `_handleRetry`. -/
def handleRetry (s : Life δ γ) (t : Turn δ γ) : Life δ γ × Except String (CommandResult γ) :=
  if 1 < s.command.budget then
    (((s.update .pending).spend).add t.unfinalized, .ok .retry)
  else
    (s.call .retryFinished, t.retryFinished.map fun _ => .commands [])

/-- The function `_execute` hands to `_process`. -/
def process (s : Life δ γ) (t : Turn δ γ) : Life δ γ × Except String (CommandResult γ) :=
  let s := (s.update .started).call .execute
  match t.execute with
  | .error message => (s, .error message)
  | .ok .repeats => ((s.update .repeating).add t.unfinalized, .ok .repeats)
  | .ok .retry =>
    match s.handleRetry t with
    | (s, .ok (.commands children)) => (s.update .completed, .ok (.commands children))
    | (s, result) => (s, result)
  | .ok (.commands children) => (s.update .completed, .ok (.commands children))

/-- `_handleError`, and the repetition `_execute` makes of its result. -/
def handleError (s : Life δ γ) (t : Turn δ γ) : Life δ γ :=
  if 0 < s.command.budget then
    s.spend.add t.unfinalized
  else
    let s := (s.update .failed).call .recover
    match t.recover with
    | .ok .repeats => (s.update .repeating).add t.unfinalized
    | _ => s

/-- The rest of `_execute` for a command that is due: a transaction that throws is rolled back. -/
def execute (s : Life δ γ) (t : Turn δ γ) : Life δ γ :=
  match s.process t with
  | (s', .ok (.commands children)) => { s' with calls := s'.calls ++ children.map .add }
  | (s', .ok _) => s'
  | (s', .error _) =>
    handleError (if s.command.transactional then { s' with row := s.row } else s') t

/-- `_execute` for a command that is not due yet. -/
def wait (s : Life δ γ) (unfinalized : List (ℕ × δ)) : Life δ γ :=
  if s.queued then s.add unfinalized else s

/-- STEP: one turn of the queue. -/
def turn (s : Life δ γ) (t : Turn δ γ) : Life δ γ :=
  let s := t.waits.foldl wait s
  if s.queued then execute { s with queued := false } t else s

end Life

/-- `add(command, delay)`: the row is inserted and the command queued. -/
def start (c : Command δ) : Life δ γ := ⟨c, ⟨.pending, c.retries⟩, true, []⟩

/-- RUN: the command after `n` turns. -/
def life (c : Command δ) (turns : ℕ → Turn δ γ) : ℕ → Life δ γ
  | 0 => start c
  | n + 1 => (life c turns n).turn (turns n)

/-- A handler that never returns `Command.repeat()`. -/
def Turn.NonPeriodic (t : Turn δ γ) : Prop :=
  t.execute ≠ .ok .repeats ∧ t.recover ≠ .ok .repeats

/-- How often `execute` ran. -/
def Life.executions (s : Life δ γ) : ℕ := s.calls.countP fun | .execute => true | _ => false

/-- The terminal ways, by the status of the row and the calls after the last `execute`. -/
inductive Ended (t : Turn δ γ) : CommandStatus → List (Call γ) → Prop where
  | completed {children : List γ} (h : t.execute = .ok (.commands children)) :
      Ended t .completed (children.map .add)
  | retryFinished : Ended t .completed [.retryFinished]
  | recovered : Ended t .failed [.recover]

/-- The command ends in one terminal way within `r + 1` executions, and stays as it is. -/
def EndsOnce (c : Command δ) (turns : ℕ → Turn δ γ) : Prop :=
  ∃ n ≤ c.budget, ∃ calls, Ended (turns n) (life c turns (n + 1)).row.status calls ∧
    (life c turns (n + 1)).calls = List.replicate (n + 1) .execute ++ calls ∧
    ∀ m, n < m → life c turns m = life c turns (n + 1)

/-- A turn in which the command is not lost: `add` does not refuse to put it back, and
    `retryFinished` does not throw. -/
def Kept (s : Life δ γ) (t : Turn δ γ) : Prop :=
  (∀ w ∈ t.waits, s.command.refused w = false) ∧
    match t.execute with
    | .ok .retry =>
      if 1 < s.command.budget then s.command.refused t.unfinalized = false
      else ∃ u, t.retryFinished = .ok u
    | .error _ => 0 < s.command.budget → s.command.refused t.unfinalized = false
    | _ => True

/-! ### One turn -/

/-- A command that waits to be executed is neither completed nor failed. -/
def Live (s : Life δ γ) : Prop :=
  s.queued = true → s.row.status = .pending ∨ s.row.status = .started

/-- What one turn can do. A command that is put back has lost one of its retries. -/
inductive Turned (s : Life δ γ) (t : Turn δ γ) : Life δ γ → Prop where
  | idle (h : s.queued = false) : Turned s t s
  | lost (hq : s.queued = true) (h : ¬ Kept s t) : Turned s t { s with queued := false }
  | ended {s' calls} (hq : s.queued = true) (hk : Kept s t) (h : s'.queued = false)
      (he : Ended t s'.row.status calls) (hc : s'.calls = s.calls ++ .execute :: calls) :
      Turned s t s'
  | again {s'} (hq : s.queued = true) (hk : Kept s t ↔ s'.queued = true)
      (hb : s'.command.budget + 1 = s.command.budget)
      (hs : Live s → s'.row.status = .pending ∨ s'.row.status = .started)
      (hc : s'.calls = s.calls ++ [.execute]) : Turned s t s'
  | finished {s'} (hq : s.queued = true) (hk : ¬ Kept s t)
      (hb : s'.command.budget + 1 = s.command.budget)
      (hs : Live s → s'.row.status = .pending ∨ s'.row.status = .started)
      (hc : s'.calls = s.calls ++ [.execute, .retryFinished]) : Turned s t s'
  | recovered {s'} (hq : s.queued = true) (hk : ¬ Kept s t) (h : s'.queued = false)
      (hc : s'.calls = s.calls ++ [.execute, .retryFinished, .recover]) : Turned s t s'

/-- Waiting leaves the command on the queue, unless `add` refuses it. -/
theorem foldl_wait (s : Life δ γ) (hq : s.queued = true) (ws : List (List (ℕ × δ))) :
    ws.foldl Life.wait s =
      { s with queued := decide (∀ w ∈ ws, s.command.refused w = false) } := by
  induction ws with
  | nil => cases s; simp_all
  | cons w ws ih =>
    rw [List.foldl_cons]
    cases hw : s.command.refused w with
    | false =>
      have hs : s.wait w = s := by cases s; simp_all [Life.wait, Life.add]
      rw [hs, ih]
      simp [hw]
    | true =>
      have hs : s.wait w = { s with queued := false } := by simp [Life.wait, Life.add, hq, hw]
      have hstay : ∀ (us : List (List (ℕ × δ))),
          us.foldl Life.wait { s with queued := false } = { s with queued := false } := by
        intro us
        induction us with
        | nil => rfl
        | cons u us ihu => rw [List.foldl_cons]; exact ihu
      rw [hs, hstay]
      simp [hw]

@[simp] theorem spend_refused (s : Life δ γ) (us : List (ℕ × δ)) :
    s.spend.command.refused us = s.command.refused us := rfl

omit [DecidableEq δ] in
@[simp] theorem spend_budget (s : Life δ γ) : s.spend.command.budget = s.command.budget - 1 := rfl

/-- `_handleError` puts a command back that has a retry left. -/
theorem handleError_again {s : Life δ γ} {t : Turn δ γ} (hb : 0 < s.command.budget) :
    s.handleError t = s.spend.add t.unfinalized := if_pos hb

/-- `_handleError` gives up a command that has none, whatever `recover` comes to. -/
theorem handleError_recover {s : Life δ γ} {t : Turn δ γ} (hb : s.command.budget = 0)
    (hp : t.NonPeriodic) : s.handleError t = (s.update .failed).call .recover := by
  rw [Life.handleError, if_neg (by omega)]
  rcases hr : t.recover with message | (children | _ | _)
  · rfl
  · rfl
  · rfl
  · exact absurd hr hp.2

/-- A throw reaches `_handleError` with the status `_process` wrote, or the one before it. -/
theorem execute_throws (s s' : Life δ γ) {t : Turn δ γ} {message : String}
    (h : s.process t = (s', .error message)) :
    ∃ s₁ : Life δ γ, s.execute t = s₁.handleError t ∧ s₁.command = s'.command ∧ s₁.calls = s'.calls ∧
      s₁.queued = s'.queued ∧ (s₁.row.status = s.row.status ∨ s₁.row.status = s'.row.status) := by
  simp only [Life.execute, h]
  cases s.command.transactional with
  | true => exact ⟨{ s' with row := s.row }, rfl, rfl, rfl, rfl, .inl rfl⟩
  | false => exact ⟨s', rfl, rfl, rfl, rfl, .inr rfl⟩

/-- The state in which `_execute` calls `execute`. -/
def Life.begun (s : Life δ γ) : Life δ γ :=
  (({ s with queued := false } : Life δ γ).update .started).call .execute

/-- A turn in which `execute` throws. -/
theorem turned_throws {s : Life δ γ} {t : Turn δ γ} {message : String} (hq : s.queued = true)
    (hw : ∀ w ∈ t.waits, s.command.refused w = false) (hp : t.NonPeriodic)
    (he : t.execute = .error message) : Turned s t (Life.execute { s with queued := false } t) := by
  have hprocess : Life.process { s with queued := false } t = (s.begun, .error message) := by
    simp only [Life.process, he, Life.begun]
  obtain ⟨s₁, hex, hc, hcalls, hqueued, hrow⟩ := execute_throws _ _ hprocess
  have hcalls' : s₁.calls = s.calls ++ [.execute] := hcalls
  have hcommand : s₁.command = s.command := hc
  rw [hex]
  rcases Nat.eq_zero_or_pos s.command.budget with hb | hb
  · rw [handleError_recover (by rw [hcommand, hb]) hp]
    have hk : Kept s t := ⟨hw, by simp [he, hb]⟩
    exact .ended hq hk hqueued .recovered
      (by simp [Life.call, Life.update, hcalls'])
  · rw [handleError_again (by rw [hcommand]; exact hb)]
    refine .again hq ?_ ?_ ?_ hcalls'
    · rw [show (s₁.spend.add t.unfinalized).queued = !s.command.refused t.unfinalized by
        rw [← hcommand]; rfl]
      simpa [Kept, he, hb] using fun _ => hw
    · rw [show (s₁.spend.add t.unfinalized).command.budget = s.command.budget - 1 by
        rw [← hcommand]; rfl]
      omega
    · intro hl
      rcases hrow with hrow | hrow
      · rw [show (s₁.spend.add t.unfinalized).row.status = s.row.status from hrow]
        exact hl hq
      · exact .inr hrow

/-- A turn in which `execute` asks for a retry. -/
theorem turned_retry {s : Life δ γ} {t : Turn δ γ} (hq : s.queued = true)
    (hw : ∀ w ∈ t.waits, s.command.refused w = false) (hp : t.NonPeriodic)
    (he : t.execute = .ok .retry) : Turned s t (Life.execute { s with queued := false } t) := by
  by_cases hb : 1 < s.command.budget
  · have hex : Life.execute { s with queued := false } t =
        ((s.begun.update .pending).spend).add t.unfinalized := by
      simp [Life.execute, Life.process, he, Life.handleRetry, Life.begun, Life.call, Life.update, hb]
    rw [hex]
    refine .again hq ?_ ?_ (fun _ => .inl rfl) rfl
    · rw [show (((s.begun.update .pending).spend).add t.unfinalized).queued =
        !s.command.refused t.unfinalized from rfl]
      simpa [Kept, he, hb] using fun _ => hw
    · rw [show (((s.begun.update .pending).spend).add t.unfinalized).command.budget =
        s.command.budget - 1 from rfl]
      omega
  · rcases hf : t.retryFinished with message | u
    · -- `retryFinished` throws inside the `try`
      have hprocess : Life.process { s with queued := false } t =
          (s.begun.call .retryFinished, .error message) := by
        simp [Life.process, he, Life.begun, Life.handleRetry, Life.call, Life.update, hb, hf,
          Except.map]
      obtain ⟨s₁, hex, hc, hcalls, hqueued, hrow⟩ := execute_throws _ _ hprocess
      have hcalls' : s₁.calls = s.calls ++ [.execute, .retryFinished] := by
        rw [hcalls]; simp [Life.begun, Life.call, Life.update]
      have hcommand : s₁.command = s.command := hc
      have hk : ¬ Kept s t := by simp [Kept, he, hb, hf]
      rw [hex]
      rcases Nat.eq_zero_or_pos s.command.budget with h0 | h0
      · rw [handleError_recover (by rw [hcommand, h0]) hp]
        exact .recovered hq hk hqueued (by simp [Life.call, Life.update, hcalls'])
      · rw [handleError_again (by rw [hcommand]; exact h0)]
        refine .finished hq hk ?_ ?_ hcalls'
        · rw [show (s₁.spend.add t.unfinalized).command.budget = s.command.budget - 1 by
            rw [← hcommand]; rfl]
          omega
        · intro hl
          rcases hrow with hrow | hrow
          · rw [show (s₁.spend.add t.unfinalized).row.status = s.row.status from hrow]
            exact hl hq
          · exact .inr hrow
    · have hex : Life.execute { s with queued := false } t =
          (s.begun.call .retryFinished).update .completed := by
        simp [Life.execute, Life.process, he, Life.handleRetry, Life.begun, Life.call, Life.update,
          hb, hf, Except.map]
      rw [hex]
      exact .ended hq ⟨hw, by simp [he, hb, hf]⟩ rfl .retryFinished
        (by simp [Life.begun, Life.call, Life.update])

/-- The turns of a command that is due. -/
theorem turned_execute {s : Life δ γ} {t : Turn δ γ} (hq : s.queued = true)
    (hw : ∀ w ∈ t.waits, s.command.refused w = false) (hp : t.NonPeriodic) :
    Turned s t (Life.execute { s with queued := false } t) := by
  rcases he : t.execute with message | (children | _ | _)
  · exact turned_throws hq hw hp he
  · have hex : Life.execute { s with queued := false } t =
        { s.begun.update .completed with calls := s.begun.calls ++ children.map .add } := by
      simp only [Life.execute, Life.process, he, Life.begun]
      rfl
    rw [hex]
    exact .ended hq ⟨hw, by simp [he]⟩ rfl (.completed he)
      (by simp [Life.begun, Life.call, Life.update])
  · exact turned_retry hq hw hp he
  · exact absurd he hp.1

theorem process_isBlocking (s : Life δ γ) (t : Turn δ γ) :
    (s.process t).1.command.isBlocking = s.command.isBlocking := by
  rcases he : t.execute with message | (children | _ | _)
  · simp only [Life.process, he]; rfl
  · simp only [Life.process, he]; rfl
  · simp only [Life.process, he, Life.handleRetry]
    split_ifs
    · rfl
    · rcases t.retryFinished with message | u <;> rfl
  · simp only [Life.process, he]; rfl

theorem handleError_isBlocking (s : Life δ γ) (t : Turn δ γ) :
    (s.handleError t).command.isBlocking = s.command.isBlocking := by
  rw [Life.handleError]
  split_ifs
  · rfl
  · rcases t.recover with message | (children | _ | _) <;> rfl

theorem execute_isBlocking (s : Life δ γ) (t : Turn δ γ) :
    (s.execute t).command.isBlocking = s.command.isBlocking := by
  rw [← process_isBlocking s t, Life.execute]
  rcases s.process t with ⟨s', message | (children | _ | _)⟩
  · dsimp only
    rw [handleError_isBlocking]
    split_ifs <;> rfl
  · rfl
  · rfl
  · rfl

theorem foldl_wait_command (ws : List (List (ℕ × δ))) (s : Life δ γ) :
    (ws.foldl Life.wait s).command = s.command := by
  induction ws generalizing s with
  | nil => rfl
  | cons w ws ih =>
    rw [List.foldl_cons, ih, Life.wait]
    split_ifs <;> rfl

/-- A turn leaves a command blocking or not, as it was. -/
theorem turn_isBlocking (s : Life δ γ) (t : Turn δ γ) :
    (s.turn t).command.isBlocking = s.command.isBlocking := by
  rw [← foldl_wait_command t.waits s, Life.turn]
  generalize t.waits.foldl Life.wait s = s₁
  split_ifs
  · rw [execute_isBlocking]
  · rfl

/-- A command off the queue has no turn. -/
theorem turn_of_not_queued {s : Life δ γ} (hq : s.queued = false) (t : Turn δ γ) : s.turn t = s := by
  have hidle : ∀ ws : List (List (ℕ × δ)), ws.foldl Life.wait s = s := by
    intro ws
    induction ws with
    | nil => rfl
    | cons w ws ih => rw [List.foldl_cons, Life.wait, if_neg (by simp [hq]), ih]
  rw [Life.turn, hidle, if_neg (by simp [hq])]

/-- STEP: a turn is one of the cases of `Turned`. -/
theorem turned (s : Life δ γ) {t : Turn δ γ} (hp : t.NonPeriodic) : Turned s t (s.turn t) := by
  cases hq : s.queued with
  | false =>
    rw [turn_of_not_queued hq]
    exact .idle hq
  | true =>
    rw [Life.turn, foldl_wait s hq]
    by_cases hw : ∀ w ∈ t.waits, s.command.refused w = false
    · rw [if_pos (by simpa using hw)]
      exact turned_execute hq hw hp
    · rw [if_neg (by simpa using hw), decide_eq_false hw]
      exact .lost hq fun hk => hw hk.1

/-! ### Runs -/

section Runs

variable {c : Command δ} {turns : ℕ → Turn δ γ}

omit [DecidableEq δ] in
/-- The calls of a terminal way hold no `execute`. -/
theorem Ended.countP {t : Turn δ γ} {status : CommandStatus} {calls : List (Call γ)}
    (h : Ended t status calls) : (calls.countP fun | .execute => true | _ => false) = 0 := by
  cases h <;> simp [List.countP_map, Function.comp_def]

/-- The invariant behind the bound: each execution still possible has a retry left for it. -/
theorem executions_le_of_turned {s s' : Life δ γ} {t : Turn δ γ} {r : ℕ} (ht : Turned s t s')
    (h : s.executions + (if s.queued then s.command.budget + 1 else 0) ≤ r) :
    s'.executions + (if s'.queued then s'.command.budget + 1 else 0) ≤ r := by
  cases ht with
  | idle => exact h
  | lost hq => simp only [Life.executions, hq] at h ⊢; simp at h ⊢; omega
  | @ended _ calls hq _ hq' he hc =>
    simp only [Life.executions, hc, hq, hq', List.countP_append, List.countP_cons, he.countP] at h ⊢
    simp at h ⊢
    omega
  | again hq _ hb _ hc =>
    simp only [Life.executions, hc, hq, List.countP_append] at h ⊢
    simp at h ⊢
    split <;> omega
  | finished hq _ hb _ hc =>
    simp only [Life.executions, hc, hq, List.countP_append] at h ⊢
    simp at h ⊢
    split <;> omega
  | recovered hq _ hq' hc =>
    simp only [Life.executions, hc, hq, hq', List.countP_append] at h ⊢
    simp at h ⊢
    omega

/-- RUN: `execute` never runs more often than the budget allows, whatever fails. -/
theorem executions_le (hp : ∀ n, (turns n).NonPeriodic) (n : ℕ) :
    (life c turns n).executions ≤ c.budget + 1 := by
  have hinv : (life c turns n).executions +
      (if (life c turns n).queued then (life c turns n).command.budget + 1 else 0) ≤
        c.budget + 1 := by
    induction n with
    | zero => simp [life, start, Life.executions]
    | succ n ih => exact executions_le_of_turned (turned _ (hp n)) ih
  exact le_trans (Nat.le_add_right _ _) hinv

/-- A command off the queue stays as it is. -/
theorem life_of_not_queued (hp : ∀ n, (turns n).NonPeriodic) {n : ℕ}
    (h : (life c turns n).queued = false) {m : ℕ} (hm : n ≤ m) : life c turns m = life c turns n := by
  induction m, hm using Nat.le_induction with
  | base => rfl
  | succ m _ ih =>
    rw [← ih] at h
    have ht := turned (life c turns m) (hp m)
    rw [life]
    generalize (life c turns m).turn (turns m) = s' at ht
    cases ht with
    | idle => exact ih
    | lost hq | ended hq | again hq | finished hq | recovered hq => simp [h] at hq

/-- Until it ends, a command whose turns are all kept is executed once in each of them. -/
theorem life_of_kept (hp : ∀ n, (turns n).NonPeriodic)
    (hk : ∀ n, (life c turns n).queued = true → Kept (life c turns n) (turns n)) (n : ℕ) :
    ((life c turns n).queued = true ∧ (life c turns n).command.budget + n = c.budget ∧
      (life c turns n).calls = List.replicate n .execute) ∨
    ∃ k < n, k ≤ c.budget ∧ (life c turns (k + 1)).queued = false ∧
      ∃ calls, Ended (turns k) (life c turns (k + 1)).row.status calls ∧
        (life c turns (k + 1)).calls = List.replicate (k + 1) .execute ++ calls := by
  induction n with
  | zero => exact .inl ⟨rfl, rfl, rfl⟩
  | succ n ih =>
    rcases ih with ⟨hq, hb, hc⟩ | ⟨k, hkn, h⟩
    · have hkn := hk n hq
      have ht := turned (life c turns n) (hp n)
      have hlife : life c turns (n + 1) = (life c turns n).turn (turns n) := rfl
      rw [← hlife] at ht
      generalize hs : life c turns (n + 1) = s' at ht
      cases ht with
      | idle h => simp [hq] at h
      | lost _ h | finished _ h | recovered _ h => exact absurd hkn h
      | @ended _ calls _ _ h he hcalls =>
        refine .inr ⟨n, n.lt_succ_self, by omega, by rw [hs, h], calls, by rw [hs]; exact he, ?_⟩
        rw [hs, hcalls, hc, List.replicate_succ', List.append_assoc]
        rfl
      | again _ hk' hb' _ hcalls =>
        refine .inl ⟨hk'.1 hkn, by omega, ?_⟩
        rw [hcalls, hc, List.replicate_succ']
    · exact .inr ⟨k, by omega, h⟩

/-- A command that is lost: off the queue without a final status, or after `retryFinished` still on
    it or called again. -/
def Spoiled (s : Life δ γ) : Prop :=
  (s.queued = false ∧ s.row.status ≠ .completed ∧ s.row.status ≠ .failed) ∨
    (s.queued = true ∧ .retryFinished ∈ s.calls) ∨ .retryFinished ∈ s.calls.dropLast

omit [DecidableEq δ] in
/-- No terminal way calls anything after `retryFinished`. -/
theorem Ended.not_mem_dropLast {t : Turn δ γ} {status : CommandStatus} {calls : List (Call γ)}
    (h : Ended t status calls) (n : ℕ) :
    .retryFinished ∉ (List.replicate n Call.execute ++ calls).dropLast := by
  cases h with
  | completed =>
    intro hm
    have hm := List.mem_of_mem_dropLast hm
    simp [List.mem_replicate] at hm
  | retryFinished | recovered => simp [List.mem_replicate]

omit [DecidableEq δ] in
/-- A terminal way leaves a final status. -/
theorem Ended.final {t : Turn δ γ} {status : CommandStatus} {calls : List (Call γ)}
    (h : Ended t status calls) : status = .completed ∨ status = .failed := by
  cases h with
  | completed | retryFinished => exact .inl rfl
  | recovered => exact .inr rfl

omit [DecidableEq δ] in
theorem mem_dropLast_append {a b : Call γ} {l m : List (Call γ)} (h : a ∈ l) :
    a ∈ (l ++ b :: m).dropLast := by
  rw [List.dropLast_append_cons]
  exact List.mem_append_left _ h

/-- Turns keep the statuses of a waiting command. -/
theorem Turned.live {s s' : Life δ γ} {t : Turn δ γ} (ht : Turned s t s') (hl : Live s) :
    Live s' := by
  cases ht with
  | idle => exact hl
  | lost => intro h; cases h
  | ended _ _ h | recovered _ _ h => intro h'; simp [h] at h'
  | again _ _ _ hs | finished _ _ _ hs => exact fun _ => hs hl

omit [DecidableEq δ] in
theorem spoiled_of_waiting {s : Life δ γ} (h : s.row.status = .pending ∨ s.row.status = .started)
    (hs : s.queued = true → Spoiled s) : Spoiled s := by
  cases hq : s.queued with
  | true => exact hs hq
  | false =>
    refine .inl ⟨hq, ?_, ?_⟩ <;> rcases h with h | h <;> simp [h]

/-- A turn takes a queued command off the queue or calls something. -/
theorem Turned.moves {s s' : Life δ γ} {t : Turn δ γ} (ht : Turned s t s')
    (hq : s.queued = true) : s'.queued = false ∨ s.calls.length < s'.calls.length := by
  cases ht with
  | idle h => simp [hq] at h
  | lost => exact .inl rfl
  | ended _ _ h | recovered _ _ h => exact .inl h
  | again _ _ _ _ hc | finished _ _ _ _ hc => exact .inr (by simp [hc])

/-- A turn that is not kept spoils the command. -/
theorem spoiled_of_not_kept {s s' : Life δ γ} {t : Turn δ γ} (ht : Turned s t s') (hl : Live s)
    (hq : s.queued = true) (hk : ¬ Kept s t) : Spoiled s' := by
  cases ht with
  | idle h => simp [hq] at h
  | ended _ h => exact absurd h hk
  | lost => exact spoiled_of_waiting (hl hq) fun h => by cases h
  | again _ h _ hs => exact spoiled_of_waiting (hs hl) fun hq' => absurd (h.2 hq') hk
  | finished _ _ _ hs hc =>
    exact spoiled_of_waiting (hs hl) fun hq' => .inr (.inl ⟨hq', by simp [hc]⟩)
  | recovered _ _ _ hc => exact .inr (.inr (by simp [hc]))

/-- A spoiled command stays spoiled. -/
theorem spoiled_turn {s s' : Life δ γ} {t : Turn δ γ} (ht : Turned s t s') (hl : Live s)
    (h : Spoiled s) : Spoiled s' := by
  rcases h with ⟨hq, h⟩ | h
  · cases ht with
    | idle => exact .inl ⟨hq, h⟩
    | lost hq' | ended hq' | again hq' | finished hq' | recovered hq' => simp [hq] at hq'
  · have hm : .retryFinished ∈ s.calls := h.elim And.right List.mem_of_mem_dropLast
    cases ht with
    | idle => exact .inr h
    | lost hq => exact spoiled_of_waiting (hl hq) fun hq' => by cases hq'
    | ended _ _ _ _ hc | finished _ _ _ _ hc | recovered _ _ _ hc | again _ _ _ _ hc =>
      exact .inr (.inr (by rw [hc]; exact mem_dropLast_append hm))

theorem life_live (hp : ∀ n, (turns n).NonPeriodic) (n : ℕ) : Live (life c turns n) := by
  induction n with
  | zero => exact fun _ => .inl rfl
  | succ n ih => exact (turned _ (hp n)).live ih

/-- A command that ends in one way is at no time spoiled. -/
theorem not_spoiled (hp : ∀ n, (turns n).NonPeriodic) (h : EndsOnce c turns) (m : ℕ) :
    ¬ Spoiled (life c turns m) := by
  obtain ⟨n, -, calls, he, hc, hstay⟩ := h
  intro hm
  have hrun : ∀ k, m ≤ k → Spoiled (life c turns k) := by
    intro k hk
    induction k, hk using Nat.le_induction with
    | base => exact hm
    | succ k _ ih => exact spoiled_turn (turned _ (hp k)) (life_live hp k) ih
  have hs : Spoiled (life c turns (n + 1)) := by
    rw [← hstay (max m (n + 1)) (by omega)]
    exact hrun _ (le_max_left _ _)
  rcases hs with ⟨-, h1, h2⟩ | ⟨hq, -⟩ | hs
  · exact he.final.elim h1 h2
  · have ht := turned (life c turns (n + 1)) (hp (n + 1))
    have hnext : life c turns (n + 2) = life c turns (n + 1) := hstay _ (by omega)
    rw [show (life c turns (n + 1)).turn (turns (n + 1)) = life c turns (n + 2) from rfl, hnext] at ht
    rcases ht.moves hq with h | h
    · simp [hq] at h
    · exact absurd h (lt_irrefl _)
  · rw [hc] at hs
    exact he.not_mem_dropLast _ hs

/-- CORRECT (accounting): `execute` runs at most once more than the budget, and the command ends in
    exactly one terminal way, after which nothing is executed, if and only if it is never refused by
    `add` on its way back to the queue and `retryFinished` does not throw. -/
theorem retry_accounting (c : Command δ) (turns : ℕ → Turn δ γ)
    (hp : ∀ n, (turns n).NonPeriodic) :
    (∀ n, (life c turns n).executions ≤ c.budget + 1) ∧
      (EndsOnce c turns ↔
        ∀ n, (life c turns n).queued = true → Kept (life c turns n) (turns n)) := by
  refine ⟨executions_le hp, ?_, ?_⟩
  · intro h n hq
    by_contra hk
    exact not_spoiled hp h (n + 1) (spoiled_of_not_kept (turned _ (hp n)) (life_live hp n) hq hk)
  · intro hk
    rcases life_of_kept hp hk (c.budget + 1) with ⟨-, hb, -⟩ | ⟨k, -, hkb, hq, calls, he, hc⟩
    · omega
    · exact ⟨k, hkb, calls, he, hc, fun m hm => life_of_not_queued hp hq hm⟩

/-- A blocking command whose handler throws in every turn, with two retries. -/
theorem retry_accounting_failing :
    EndsOnce ⟨1, (), some 2, true, false⟩
      fun _ => (⟨[[]], .error "timeout", .ok (), .ok (.commands []), []⟩ : Turn Unit ℕ) := by
  refine (retry_accounting _ _ fun _ => ⟨by simp, by simp⟩).2.2 fun n _ => ?_
  exact ⟨by simp [Command.refused], fun _ => by simp [Command.refused]⟩

/-- `retryFinished` throws with one retry left: the command is executed again and completes. -/
theorem retry_accounting_retryFinished_throws :
    ∃ turns : ℕ → Turn Unit ℕ, (∀ n, (turns n).NonPeriodic) ∧
      (life ⟨1, (), some 1, false, false⟩ turns 2).calls =
        [.execute, .retryFinished, .execute, .add 7] ∧
      ¬ EndsOnce ⟨1, (), some 1, false, false⟩ turns := by
  let turns : ℕ → Turn Unit ℕ := fun n =>
    if n = 0 then ⟨[], .ok .retry, .error "no operation id", .ok (.commands []), []⟩
    else ⟨[], .ok (.commands [7]), .ok (), .ok (.commands []), []⟩
  have hp : ∀ n, (turns n).NonPeriodic := by
    intro n
    by_cases hn : n = 0 <;> simp [turns, hn, Turn.NonPeriodic]
  refine ⟨turns, hp, by decide, fun h => not_spoiled hp h 2 (.inr (.inr (by decide)))⟩

end Runs

end OtNode.Executor
