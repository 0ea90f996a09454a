import OtNode.Executor.Retry
import OtNode.Operation.Receiver

/-! The reply to a request: the commands of the rpc controllers in the executor, with the session the
    reply goes through.

    A command replies inside the `try` block of `execute`, or in `handleError` when it has no retries
    left to ask for. Once the executor has used up the retries it calls `retryFinished`, which only
    logs, and an error that reaches `recover` is not replied to either. -/

namespace OtNode.Executor

/-- The requests by the controller they go to. -/
inductive Request where
  | publish | update | get | ask | finality
  deriving DecidableEq

/-- The command a controller adds for a `PROTOCOL_REQUEST`, with its `retries`. `UpdateController`
    calls a `cacheOperationIdData` that no service has, and adds none. -/
def Request.accept : Request → Option (RemoteCommand × Option ℕ)
  | publish => some (.handleStoreRequest, some 3)
  | update => none
  | get => some (.handleGetRequest, none)
  | ask => some (.handleAskRequest, none)
  | finality => some (.publishFinalitySaveAck, none)

/-- The session of the request, if it is still stored, and the replies sent. -/
structure Exchange where
  session : Bool
  replies : List MessageType
  deriving DecidableEq

/-- What the awaited calls of one execution come to if they are made: the calls of
    `publishFinalitySaveAck` outside of its `try` and in its `recover`, and for the others
    `prepareMessage`, the write of the response, the end event in the `try` block, the two calls of
    `handleError`, and the last end event. -/
structure Attempt where
  acknowledged : Except String Unit
  recovered : Except String Unit
  prepared : Except String MessageType
  sent : Except String Unit
  ended : Except String Unit
  failed : Except String Unit
  nacked : Except String Unit
  closed : Except String Unit

namespace Exchange

/-- `sendMessageResponse`. -/
def sendMessageResponse (x : Exchange) (messageType : MessageType) (sent : Except String Unit) :
    Exchange × Except String Unit :=
  if x.session then
    match sent with
    | .error message => (x, .error message)
    | .ok _ => ({ x with replies := x.replies ++ [messageType] }, .ok ())
  else (x, .error "Unable to find opened stream")

/-- `removeCachedSession`. -/
def removeCachedSession (x : Exchange) : Exchange := { x with session := false }

/-- The `try` block of `HandleProtocolMessageCommand.execute`. -/
def answer (x : Exchange) (a : Attempt) : Exchange × Except String Unit :=
  match a.prepared with
  | .error message => (x, .error message)
  | .ok messageType =>
    match x.sendMessageResponse messageType a.sent with
    | (x, .error message) => (x, .error message)
    | (x, .ok _) => (x, a.ended)

/-- `HandleProtocolMessageCommand.handleError`. -/
def handleError (x : Exchange) (a : Attempt) : Exchange × Except String Unit :=
  match a.failed with
  | .error message => (x, .error message)
  | .ok _ =>
    match x.sendMessageResponse .nack a.nacked with
    | (x, .error message) => (x, .error message)
    | (x, .ok _) => (x.removeCachedSession, .ok ())

/-- The end of `HandleProtocolMessageCommand.execute`. -/
def close (x : Exchange) (a : Attempt) :
    Exchange × Except String (CommandResult RemoteCommand) :=
  (x.removeCachedSession, a.closed.map fun _ => .commands [])

/-- `HandleProtocolMessageCommand.execute`. -/
def execute (x : Exchange) (retries : ℕ) (a : Attempt) :
    Exchange × Except String (CommandResult RemoteCommand) :=
  match x.answer a with
  | (x, .ok _) => x.close a
  | (x, .error _) =>
    if 0 < retries then (x, .ok .retry)
    else
      match x.handleError a with
      | (x, .error message) => (x, .error message)
      | (x, .ok _) => x.close a

end Exchange

/-- `execute` of a command. `publishFinalitySaveAck` goes on to the `sequence` of the command, which
    its controller left empty. -/
def handle (c : RemoteCommand) (x : Exchange) (retries : ℕ) (a : Attempt) :
    Exchange × Except String (CommandResult RemoteCommand) :=
  match c with
  | .publishFinalitySaveAck => (x, a.acknowledged.map fun _ => .commands [])
  | _ => x.execute retries a

/-- `recover`. `Command.recover` calls `handleError` with parameters that
    `HandleProtocolMessageCommand` takes for others, and reads the data of a string. -/
def recover (c : RemoteCommand) (a : Attempt) : Except String (CommandResult RemoteCommand) :=
  match c with
  | .publishFinalitySaveAck => a.recovered.map fun _ => .commands []
  | _ => .error "Cannot destructure property of undefined"

/-- A request in the executor. -/
structure Handling where
  life : Life Unit RemoteCommand
  exchange : Exchange

namespace Handling

/-- The turn an execution makes. -/
def turnOf (s : Handling) (c : RemoteCommand) (a : Attempt) : Turn Unit RemoteCommand :=
  ⟨[], (handle c s.exchange s.life.command.budget a).2, .ok (), recover c a, []⟩

/-- STEP: one turn of the queue. -/
def step (c : RemoteCommand) (s : Handling) (a : Attempt) : Handling :=
  if s.life.queued then
    ⟨s.life.turn (s.turnOf c a), (handle c s.exchange s.life.command.budget a).1⟩
  else s

end Handling

/-- RUN: a request accepted as command `c`, after `n` turns. -/
def handling (c : RemoteCommand) (retries : Option ℕ) (attempts : ℕ → Attempt) : ℕ → Handling
  | 0 => ⟨start ⟨1, (), retries, false, false⟩, ⟨true, []⟩⟩
  | n + 1 => (handling c retries attempts n).step c (attempts n)

/-- The request has one reply and no session, and the command is at its end. -/
structure Handling.Answered (s : Handling) : Prop where
  queued : s.life.queued = false
  session : s.exchange.session = false
  replies : s.exchange.replies.length = 1

/-- The request is answered once: within the retries of its command, and for good. -/
def AnsweredOnce (c : RemoteCommand) (retries : Option ℕ) (attempts : ℕ → Attempt) : Prop :=
  ∃ n ≤ retries.getD 0, (handling c retries attempts (n + 1)).Answered ∧
    ∀ m, n < m → handling c retries attempts m = handling c retries attempts (n + 1)

/-- An execution that does not lose the reply: nothing fails after the reply was sent, and an error
    before it is not met with the last retry, and without retries leads to the `NACK`. -/
def Attempt.Replies (a : Attempt) (retries : ℕ) : Prop :=
  if a.prepared.isOk && a.sent.isOk then a.ended.isOk = true
  else retries ≠ 1 ∧ (retries = 0 → a.failed.isOk = true ∧ a.nacked.isOk = true)

/-! ### One execution -/

section Execution

variable {x : Exchange} {a : Attempt} {r : ℕ}

/-- The reply of the `try` block, if it gets that far. -/
theorem answer_cases (x : Exchange) (a : Attempt) :
    (∃ message, x.answer a = (x, .error message) ∧
      (x.session = true → (a.prepared.isOk && a.sent.isOk) = false)) ∨
    (x.session = true ∧ (a.prepared.isOk && a.sent.isOk) = true ∧
      ∃ m, x.answer a = ({ x with replies := x.replies ++ [m] }, a.ended)) := by
  rcases hp : a.prepared with message | m
  · exact .inl ⟨message, by simp only [Exchange.answer, hp], fun _ => rfl⟩
  · cases hx : x.session with
    | false =>
      refine .inl ⟨"Unable to find opened stream", ?_, fun h => by cases h⟩
      simp only [Exchange.answer, hp, Exchange.sendMessageResponse, hx]
      rfl
    | true =>
      rcases hs : a.sent with message | u
      · refine .inl ⟨message, ?_, fun _ => rfl⟩
        simp only [Exchange.answer, hp, Exchange.sendMessageResponse, hx, hs]
        rfl
      · refine .inr ⟨rfl, rfl, m, ?_⟩
        simp only [Exchange.answer, hp, Exchange.sendMessageResponse, hx, hs]
        rfl

/-- The `NACK` of `handleError`, if it gets that far. -/
theorem handleError_cases (x : Exchange) (a : Attempt) :
    (∃ message, x.handleError a = (x, .error message) ∧
      (x.session = true → ¬ (a.failed.isOk = true ∧ a.nacked.isOk = true))) ∨
    (x.session = true ∧ a.failed.isOk = true ∧ a.nacked.isOk = true ∧
      x.handleError a = (⟨false, x.replies ++ [.nack]⟩, .ok ())) := by
  rcases hf : a.failed with message | u
  · exact .inl ⟨message, by simp only [Exchange.handleError, hf], fun _ h => by cases h.1⟩
  · cases hx : x.session with
    | false =>
      refine .inl ⟨"Unable to find opened stream", ?_, fun h => by cases h⟩
      simp only [Exchange.handleError, hf, Exchange.sendMessageResponse, hx]
      rfl
    | true =>
      rcases hs : a.nacked with message | u
      · refine .inl ⟨message, ?_, fun _ h => by cases h.2⟩
        simp only [Exchange.handleError, hf, Exchange.sendMessageResponse, hx, hs]
        rfl
      · refine .inr ⟨rfl, rfl, rfl, ?_⟩
        simp only [Exchange.handleError, hf, Exchange.sendMessageResponse, hx, hs]
        rfl

/-- What one execution can do to the exchange and return. -/
inductive Executed (x : Exchange) (r : ℕ) (a : Attempt) :
    Exchange × Except String (CommandResult RemoteCommand) → Prop where
  | replied {m result} (hx : x.session = true) (h : a.Replies r) :
      Executed x r a (⟨false, x.replies ++ [m]⟩, result)
  | again (hr : 0 < r) (h : x.session = true → (a.Replies r ↔ r ≠ 1)) :
      Executed x r a (x, .ok .retry)
  | failed {message} (hr : r = 0) (h : x.session = true → ¬ a.Replies r) :
      Executed x r a (x, .error message)
  | spoiled {m result} (hx : x.session = true) (h : ¬ a.Replies r) :
      Executed x r a ({ x with replies := x.replies ++ [m] }, result)
  | twice {m result} (hx : x.session = true) (h : ¬ a.Replies r) :
      Executed x r a (⟨false, x.replies ++ [m, .nack]⟩, result)

/-- STEP: an execution is one of the cases of `Executed`. -/
theorem executed (x : Exchange) (r : ℕ) (a : Attempt) : Executed x r a (x.execute r a) := by
  rcases answer_cases x a with ⟨message, ha, hok⟩ | ⟨hx, hok, m, ha⟩
  · -- nothing was sent in the `try` block
    rcases Nat.eq_zero_or_pos r with hr | hr
    · subst hr
      rcases handleError_cases x a with ⟨message, he, hok'⟩ | ⟨hx, hf, hn, he⟩
      · simp only [Exchange.execute, ha, he, lt_irrefl, if_false]
        exact .failed rfl fun hx h => by simp [Attempt.Replies, hok hx] at h; exact hok' hx h
      · simp only [Exchange.execute, ha, he, lt_irrefl, if_false]
        exact .replied hx (by simp [Attempt.Replies, hok hx, hf, hn])
    · simp only [Exchange.execute, ha, hr, if_true]
      refine .again hr ?_
      intro hx
      have hr' : r ≠ 0 := by omega
      simp [Attempt.Replies, hok hx, hr']
  · rcases he : a.ended with message | u
    · -- the end event fails after the reply
      have hno : ¬ a.Replies r := by
        rw [Attempt.Replies, if_pos hok, he]
        simp [Except.isOk, Except.toBool]
      rcases Nat.eq_zero_or_pos r with hr | hr
      · subst hr
        rcases handleError_cases { x with replies := x.replies ++ [m] } a with
          ⟨message, he', -⟩ | ⟨-, -, -, he'⟩
        · simp only [Exchange.execute, ha, he, he', lt_irrefl, if_false]
          exact .spoiled hx hno
        · simp only [Exchange.execute, ha, he, he', lt_irrefl, if_false]
          rw [List.append_assoc]
          exact .twice hx hno
      · simp only [Exchange.execute, ha, he, hr, if_true]
        exact .spoiled hx hno
    · simp only [Exchange.execute, ha, he]
      exact .replied hx (by rw [Attempt.Replies, if_pos hok, he]; rfl)

end Execution

/-! ### One turn -/

/-- A command that is not blocking is kept if its `retryFinished` does not throw. -/
theorem kept_of_not_blocking {s : Life Unit RemoteCommand} {t : Turn Unit RemoteCommand}
    (hb : s.command.isBlocking = false) (hf : t.retryFinished = .ok ()) : Kept s t := by
  have hrefused : ∀ us, s.command.refused us = false := fun us => by simp [Command.refused, hb]
  refine ⟨fun w _ => hrefused w, ?_⟩
  rcases t.execute with message | (children | _ | _)
  · exact fun _ => hrefused _
  · trivial
  · dsimp only
    split_ifs
    · exact hrefused _
    · exact ⟨(), hf⟩
  · trivial

/-- The turns after which a command that is not blocking is on the queue again. -/
theorem queued_turn {s : Life Unit RemoteCommand} {t : Turn Unit RemoteCommand}
    (hq : s.queued = true) (hb : s.command.isBlocking = false) (hw : t.waits = [])
    (hf : t.retryFinished = .ok ()) (hp : t.NonPeriodic) :
    (s.turn t).queued = true ↔
      (t.execute = .ok .retry ∧ 1 < s.command.budget) ∨
        (∃ message, t.execute = .error message) ∧ 0 < s.command.budget := by
  have hrefused : ∀ us, s.command.refused us = false := fun us => by simp [Command.refused, hb]
  have hturn : s.turn t = Life.execute { s with queued := false } t := by
    rw [Life.turn, hw, List.foldl_nil, if_pos hq]
  rw [hturn]
  rcases he : t.execute with message | (children | _ | _)
  · have hprocess : Life.process { s with queued := false } t = (s.begun, .error message) := by
      simp only [Life.process, he, Life.begun]
    obtain ⟨s₁, hex, hc, -, hqueued, -⟩ := execute_throws _ _ hprocess
    have hcommand : s₁.command = s.command := hc
    rw [hex]
    rcases Nat.eq_zero_or_pos s.command.budget with h0 | h0
    · rw [handleError_recover (by rw [hcommand, h0]) hp]
      simp [Life.call, Life.update, hqueued, Life.begun, h0]
    · rw [handleError_again (by rw [hcommand]; exact h0)]
      simp [Life.add, hcommand, hrefused, h0]
  · simp [Life.execute, Life.process, he, Life.call, Life.update]
  · by_cases h1 : 1 < s.command.budget
    · simp [Life.execute, Life.process, he, Life.handleRetry, Life.call, Life.update, Life.add, h1,
        hrefused]
    · simp [Life.execute, Life.process, he, Life.handleRetry, Life.call, Life.update, h1, hf,
        Except.map]
  · exact absurd he hp.1

theorem recover_ne_repeats (c : RemoteCommand) (a : Attempt) : recover c a ≠ .ok .repeats := by
  unfold recover
  split
  · rcases a.recovered with message | u <;> simp [Except.map]
  · simp

theorem execute_ne_repeats (x : Exchange) (r : ℕ) (a : Attempt) :
    (x.execute r a).2 ≠ .ok .repeats := by
  have hclose : ∀ x : Exchange, (x.close a).2 ≠ .ok .repeats := by
    intro x
    rcases hc : a.closed with message | u <;> simp [Exchange.close, hc, Except.map]
  rw [Exchange.execute]
  rcases x.answer a with ⟨x, message | u⟩
  · dsimp only
    split_ifs
    · simp
    · rcases x.handleError a with ⟨x, message | u⟩
      · simp
      · exact hclose x
  · exact hclose x

theorem handle_ne_repeats (c : RemoteCommand) (x : Exchange) (r : ℕ) (a : Attempt) :
    (handle c x r a).2 ≠ .ok .repeats := by
  unfold handle
  split
  · rcases a.acknowledged with message | u <;> simp [Except.map]
  · exact execute_ne_repeats x r a

/-! ### Runs -/

section Runs

variable {c : RemoteCommand} {r : Option ℕ} {attempts : ℕ → Attempt}

/-- The turns a request's command makes. -/
def turns (c : RemoteCommand) (r : Option ℕ) (attempts : ℕ → Attempt) (n : ℕ) :
    Turn Unit RemoteCommand :=
  (handling c r attempts n).turnOf c (attempts n)

theorem turns_nonPeriodic (n : ℕ) : (turns c r attempts n).NonPeriodic :=
  ⟨handle_ne_repeats _ _ _ _, recover_ne_repeats _ _⟩

/-- The command of a request lives as the executor has it. -/
theorem handling_life (n : ℕ) : (handling c r attempts n).life =
    life ⟨1, (), r, false, false⟩ (turns c r attempts) n := by
  induction n with
  | zero => rfl
  | succ n ih =>
    rw [life, ← ih, handling, Handling.step]
    split_ifs with hq
    · rfl
    · exact (turn_of_not_queued (by simpa using hq) _).symm

theorem handling_isBlocking (n : ℕ) :
    (handling c r attempts n).life.command.isBlocking = false := by
  rw [handling_life]
  induction n with
  | zero => rfl
  | succ n ih => rw [life, turn_isBlocking, ih]

/-- The command of a request ends within its retries. -/
theorem handling_ends (c : RemoteCommand) (r : Option ℕ) (attempts : ℕ → Attempt) :
    ∃ n ≤ r.getD 0, (handling c r attempts (n + 1)).life.queued = false := by
  have hk : ∀ n, (life ⟨1, (), r, false, false⟩ (turns c r attempts) n).queued = true →
      Kept (life ⟨1, (), r, false, false⟩ (turns c r attempts) n) (turns c r attempts n) := by
    intro n _
    refine kept_of_not_blocking ?_ rfl
    rw [← handling_life]
    exact handling_isBlocking n
  rcases life_of_kept turns_nonPeriodic hk (r.getD 0 + 1) with
    ⟨-, hb, -⟩ | ⟨k, -, hkb, hq, -⟩
  · have hbudget : (⟨1, (), r, false, false⟩ : Command Unit).budget = r.getD 0 := rfl
    omega
  · exact ⟨k, hkb, by rw [handling_life]; exact hq⟩

/-- A request whose command has ended stays as it is. -/
theorem handling_of_not_queued {n : ℕ} (h : (handling c r attempts n).life.queued = false) {m : ℕ}
    (hm : n ≤ m) : handling c r attempts m = handling c r attempts n := by
  induction m, hm using Nat.le_induction with
  | base => rfl
  | succ m _ ih => rw [handling, ih, Handling.step, if_neg (by simp [h])]

/-- The invariant of a request that is replied to: the reply is still to come, or was sent and the
    session removed. -/
def Due (s : Handling) : Prop :=
  (s.life.queued = true ∧ s.exchange = ⟨true, []⟩) ∨
    (s.exchange.session = false ∧ s.exchange.replies.length = 1)

/-- A request that is not answered once: it has two replies, or a session that no later execution
    removes with the only reply. -/
def Missed (s : Handling) : Prop :=
  2 ≤ s.exchange.replies.length ∨
    (s.exchange.session = true ∧ (s.exchange.replies ≠ [] ∨ s.life.queued = false))

/-- One turn of a request on the queue. -/
theorem step_of_queued {s : Handling} (hq : s.life.queued = true)
    (hb : s.life.command.isBlocking = false) (hc : c ≠ .publishFinalitySaveAck) (a : Attempt) :
    (s.step c a).exchange = (s.exchange.execute s.life.command.budget a).1 ∧
      ((s.step c a).life.queued = true ↔
        ((s.exchange.execute s.life.command.budget a).2 = .ok .retry ∧ 1 < s.life.command.budget) ∨
          (∃ message, (s.exchange.execute s.life.command.budget a).2 = .error message) ∧
            0 < s.life.command.budget) := by
  have hhandle : handle c s.exchange s.life.command.budget a =
      s.exchange.execute s.life.command.budget a := by
    cases c <;> first | rfl | exact absurd rfl hc
  rw [Handling.step, if_pos hq, ← hhandle]
  exact ⟨rfl, queued_turn hq hb rfl rfl ⟨handle_ne_repeats _ _ _ _, recover_ne_repeats _ _⟩⟩

/-- STEP: an execution that does not lose the reply keeps it due. -/
theorem due_step {s : Handling} (hb : s.life.command.isBlocking = false)
    (hc : c ≠ .publishFinalitySaveAck) {a : Attempt} (hd : Due s)
    (hr : s.life.queued = true → s.exchange.session = true → a.Replies s.life.command.budget) :
    Due (s.step c a) := by
  cases hq : s.life.queued with
  | false =>
    rw [Handling.step, if_neg (by simp [hq])]
    exact hd
  | true =>
    obtain ⟨hx, hqueued⟩ := step_of_queued hq hb hc a
    have hex := executed s.exchange s.life.command.budget a
    generalize s.exchange.execute s.life.command.budget a = p at hx hqueued hex
    rcases hd with ⟨-, hopen⟩ | ⟨hsession, hlen⟩
    · have hs : s.exchange.session = true := by rw [hopen]
      have hreplies := hr hq hs
      cases hex with
      | replied => exact .inr (by rw [hx, hopen]; exact ⟨rfl, rfl⟩)
      | again h0 h =>
        have h1 : s.life.command.budget ≠ 1 := (h hs).1 hreplies
        exact .inl ⟨hqueued.2 (.inl ⟨rfl, by omega⟩), by rw [hx, hopen]⟩
      | failed _ h => exact absurd hreplies (h hs)
      | spoiled _ h | twice _ h => exact absurd hreplies h
    · refine .inr ?_
      cases hex with
      | replied h | spoiled h | twice h => simp [hsession] at h
      | again | failed => rw [hx]; exact ⟨hsession, hlen⟩

/-- An execution that loses the reply. -/
theorem missed_of_due {s : Handling} (hb : s.life.command.isBlocking = false)
    (hc : c ≠ .publishFinalitySaveAck) {a : Attempt} (hq : s.life.queued = true)
    (hopen : s.exchange = ⟨true, []⟩) (hr : ¬ a.Replies s.life.command.budget) :
    Missed (s.step c a) := by
  obtain ⟨hx, hqueued⟩ := step_of_queued hq hb hc a
  have hex := executed s.exchange s.life.command.budget a
  generalize s.exchange.execute s.life.command.budget a = p at hx hqueued hex
  have hs : s.exchange.session = true := by rw [hopen]
  cases hex with
  | replied _ h => exact absurd h hr
  | again h0 h =>
    have h1 : s.life.command.budget = 1 := by
      by_contra h1
      exact hr ((h hs).2 h1)
    have hoff : (s.step c a).life.queued ≠ true := by
      rw [ne_eq, hqueued]
      simp [h1]
    exact .inr ⟨by rw [hx, hs], .inr (by simpa using hoff)⟩
  | failed h0 =>
    have hoff : (s.step c a).life.queued ≠ true := by
      rw [ne_eq, hqueued]
      simp [h0]
    exact .inr ⟨by rw [hx, hs], .inr (by simpa using hoff)⟩
  | spoiled => exact .inr ⟨by rw [hx, hs], .inl (by rw [hx]; simp)⟩
  | twice => exact .inl (by rw [hx]; simp)

/-- A request that missed its reply has missed it for good. -/
theorem missed_step {s : Handling} (hb : s.life.command.isBlocking = false)
    (hc : c ≠ .publishFinalitySaveAck) (a : Attempt) (hm : Missed s) : Missed (s.step c a) := by
  cases hq : s.life.queued with
  | false =>
    rw [Handling.step, if_neg (by simp [hq])]
    exact hm
  | true =>
    obtain ⟨hx, -⟩ := step_of_queued hq hb hc a
    have hex := executed s.exchange s.life.command.budget a
    generalize s.exchange.execute s.life.command.budget a = p at hx hex
    rcases hm with hlen | ⟨hs, hm⟩
    · refine .inl ?_
      cases hex <;> rw [hx] <;> simp <;> omega
    · have hne : s.exchange.replies ≠ [] := hm.resolve_right (by simp [hq])
      have hpos : 0 < s.exchange.replies.length := List.length_pos_iff.2 hne
      cases hex with
      | replied =>
        have hlen : 2 ≤ s.exchange.replies.length + 1 := by omega
        exact .inl (by rw [hx]; simpa using hlen)
      | twice => exact .inl (by rw [hx]; simp)
      | again | failed => exact .inr ⟨by rw [hx, hs], .inl (by rw [hx]; exact hne)⟩
      | spoiled => exact .inr ⟨by rw [hx, hs], .inl (by rw [hx]; simp)⟩

/-- A request that is answered once has at no time missed its reply. -/
theorem not_missed (hc : c ≠ .publishFinalitySaveAck) (h : AnsweredOnce c r attempts) (m : ℕ) :
    ¬ Missed (handling c r attempts m) := by
  obtain ⟨n, -, hans, hstay⟩ := h
  intro hm
  have hrun : ∀ k, m ≤ k → Missed (handling c r attempts k) := by
    intro k hk
    induction k, hk using Nat.le_induction with
    | base => exact hm
    | succ k _ ih => exact missed_step (handling_isBlocking k) hc _ ih
  have hlast := hrun (max m (n + 1)) (le_max_left _ _)
  rw [hstay _ (by omega)] at hlast
  rcases hlast with hlen | ⟨hs, -⟩
  · have := hans.replies
    omega
  · simp [hans.session] at hs

/-- RUN: the commands of `HandleProtocolMessageCommand`. -/
theorem handling_answered (hc : c ≠ .publishFinalitySaveAck) : AnsweredOnce c r attempts ↔
    ∀ n, (handling c r attempts n).life.queued = true →
      (handling c r attempts n).exchange.session = true →
        (attempts n).Replies (handling c r attempts n).life.command.budget := by
  constructor
  · intro h
    have hreplies : ∀ n, Due (handling c r attempts n) →
        (handling c r attempts n).life.queued = true →
        (handling c r attempts n).exchange.session = true →
          (attempts n).Replies (handling c r attempts n).life.command.budget := by
      intro n hd hq hs
      by_contra hr
      rcases hd with ⟨-, hopen⟩ | ⟨hs', -⟩
      · exact not_missed hc h (n + 1) (missed_of_due (handling_isBlocking n) hc hq hopen hr)
      · simp [hs'] at hs
    have hdue : ∀ n, Due (handling c r attempts n) := by
      intro n
      induction n with
      | zero => exact .inl ⟨rfl, rfl⟩
      | succ n ih => exact due_step (handling_isBlocking n) hc ih (hreplies n ih)
    exact fun n => hreplies n (hdue n)
  · intro h
    have hdue : ∀ n, Due (handling c r attempts n) := by
      intro n
      induction n with
      | zero => exact .inl ⟨rfl, rfl⟩
      | succ n ih => exact due_step (handling_isBlocking n) hc ih (h n)
    obtain ⟨n, hn, hq⟩ := handling_ends c r attempts
    rcases hdue (n + 1) with ⟨hq', -⟩ | ⟨hs, hlen⟩
    · simp [hq] at hq'
    · exact ⟨n, hn, ⟨hq, hs, hlen⟩, fun m hm => handling_of_not_queued hq hm⟩

/-- A finality request is saved and not replied to. -/
theorem finality_exchange (n : ℕ) :
    (handling .publishFinalitySaveAck r attempts n).exchange = ⟨true, []⟩ := by
  induction n with
  | zero => rfl
  | succ n ih =>
    rw [handling, Handling.step]
    split_ifs
    · exact ih
    · exact ih

/-- CORRECT (reply): an accepted request is replied to exactly once and loses its session, if and only
    if it is no finality request and no execution that still has the session fails after its reply,
    meets an error with the last retry, or fails to send the `NACK`. -/
theorem request_answered (q : Request) (c : RemoteCommand) (r : Option ℕ) (attempts : ℕ → Attempt)
    (h : q.accept = some (c, r)) : AnsweredOnce c r attempts ↔
      q ≠ .finality ∧ ∀ n, (handling c r attempts n).life.queued = true →
        (handling c r attempts n).exchange.session = true →
          (attempts n).Replies (handling c r attempts n).life.command.budget := by
  cases q with
  | finality =>
    obtain ⟨rfl, rfl⟩ : RemoteCommand.publishFinalitySaveAck = c ∧ none = r := by
      simpa [Request.accept] using h
    simp only [ne_eq, not_true_eq_false, false_and, iff_false]
    rintro ⟨n, -, hans, -⟩
    have := hans.session
    rw [finality_exchange] at this
    cases this
  | update => cases h
  | publish | get | ask =>
    have hc : c ≠ .publishFinalitySaveAck := by
      rintro rfl
      simp [Request.accept] at h
    simp [handling_answered hc]

/-- An execution in which every call succeeds. -/
def Attempt.clear : Attempt := ⟨.ok (), .ok (), .ok .ack, .ok (), .ok (), .ok (), .ok (), .ok ()⟩

/-- An execution whose `prepareMessage` throws. -/
def Attempt.unprepared : Attempt := { Attempt.clear with prepared := .error "timeout" }

/-- A store request whose first two executions fail. -/
theorem request_answered_third_time :
    AnsweredOnce .handleStoreRequest (some 3)
      (fun n => if n < 2 then .unprepared else .clear) := by
  refine (request_answered .publish _ _ _ rfl).2 ⟨by decide, fun n _ _ => ?_⟩
  match n with
  | 0 => exact ⟨by decide, fun _ => by decide⟩
  | 1 => exact ⟨by decide, fun _ => by decide⟩
  | n + 2 => rfl

/-- A store request whose three executions fail gets no reply, and keeps its session. -/
theorem request_unanswered_after_retries :
    (handling .handleStoreRequest (some 3) (fun _ => .unprepared) 3).life.queued = false ∧
      (handling .handleStoreRequest (some 3) (fun _ => .unprepared) 3).exchange = ⟨true, []⟩ ∧
      ¬ AnsweredOnce .handleStoreRequest (some 3) (fun _ => .unprepared) := by
  refine ⟨by decide, by decide, fun h => ?_⟩
  exact not_missed (by decide) h 3 (.inr ⟨by decide, .inr (by decide)⟩)

end Runs

end OtNode.Executor
