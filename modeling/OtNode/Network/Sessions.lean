import OtNode.Lib.Trace
import OtNode.Executor.Reply
import Mathlib.Logic.Function.Basic

/-! The sessions of the network service.

    There is one stream for each peer and operation id. A request puts its stream there, and so does
    a message that is sent. The commands that answer a request, and those that sent a message, find
    the stream by the same peer and operation id much later: what they write to and close is the
    stream that was put there last. -/

namespace OtNode

open Trace

/-- How far a request is handled, or a message is sent: `handleMessage` has answered a request
    itself; the command of a request prepares the answer; it writes it and notes the end of the
    operation; it is in `handleError`, before the answer; it writes that answer; `handleError` is
    done; the peer of a message is dialed; the message is written and the response read; the session
    of a message is removed. -/
inductive ExchangeStage where
  | rejected
  | preparing
  | sending
  | failing
  | nacking
  | closing
  | dialing
  | exchanging
  | received
  deriving DecidableEq

/-- A call of the network service. -/
inductive SessionCall where
  | sendMessageResponse
  | removeCachedSession

namespace ExchangeStage

/-- The call that comes next, unless there is an error before. -/
def nextCall : ExchangeStage → SessionCall
  | preparing | failing => .sendMessageResponse
  | _ => .removeCachedSession

/-- The stage after a call that found what it needs. A command that has removed the session is
    executed again if what follows fails, and so is `recover` of a message. -/
def afterCall : ExchangeStage → Option ExchangeStage
  | preparing => some sending
  | sending => some preparing
  | failing => some nacking
  | nacking => some closing
  | dialing | exchanging => some received
  | rejected | closing | received => none

/-- The stages after an error before the call, or where there is nothing more to do. With retries
    left a command is executed again or given up, and without them it goes to `handleError`. -/
def afterError : ExchangeStage → List (Option ExchangeStage)
  | preparing | sending => [some preparing, some failing, none]
  | rejected | failing | nacking | received => [none]
  | closing | dialing | exchanging => []

end ExchangeStage

/-- A request that is handled or a message that is sent, with its own stream: that on which the
    request arrived, or that which was dialed for the message. -/
structure SessionUse where
  peerId : String
  operationId : String
  stream : Option ℕ
  stage : ExchangeStage
  deriving DecidableEq

/-- What becomes of a request in `handleMessage`: it is answered there, its controller adds a
    command, or its controller fails. -/
inductive Arrival where
  | rejected
  | handled (request : Executor.Request)
  | dropped

/-- The stage in which the request goes on. `publishFinalitySaveAck` does not answer. -/
def Arrival.stage : Arrival → Option ExchangeStage
  | rejected => some .rejected
  | dropped => none
  | handled request =>
    match request.accept with
    | none | some (.publishFinalitySaveAck, _) => none
    | some _ => some .preparing

/-- The sessions, what uses them, and each call so far that found a session: the stream of the one
    who called, and that which it found. -/
structure SessionState where
  sessions : String × String → Option ℕ
  uses : List SessionUse
  calls : List (Option ℕ × ℕ)

/-- A step: a request arrives; a message is about to be sent, or has its stream; or the next call is
    made, or there is an error before it. A `delete` leaves the session if `__proto__` is the
    operation id. -/
inductive SessionAction where
  | arrive (peerId operationId : String) (stream : ℕ) (arrival : Arrival)
  | sendMessage (peerId operationId : String)
  | dialed (use : SessionUse) (stream : ℕ)
  | call (use : SessionUse) (deletes : Bool)
  | fail (use : SessionUse) (stage : Option ExchangeStage)

/-- The key of its session. -/
def SessionUse.key (use : SessionUse) : String × String := (use.peerId, use.operationId)

namespace SessionState

/-- The service when it starts. -/
def initial : SessionState := ⟨fun _ => none, [], []⟩

variable (s : SessionState)

/-- `updateSessionStream`. -/
def updateSessionStream (key : String × String) (stream : ℕ) : SessionState :=
  { s with sessions := Function.update s.sessions key (some stream) }

/-- `getSessionStream`. -/
def getSessionStream (key : String × String) : Option ℕ := s.sessions key

/-- The call is noted, if it finds a session. -/
def note (use : SessionUse) : SessionState :=
  match s.getSessionStream use.key with
  | none => s
  | some stream => { s with calls := (use.stream, stream) :: s.calls }

/-- A use goes on in a stage, if there is one. -/
def goOn (use : SessionUse) (stage : Option ExchangeStage) : SessionState :=
  match stage with
  | none => s
  | some stage => { s with uses := { use with stage } :: s.uses }

/-- A use leaves its stage. -/
def leave (use : SessionUse) : SessionState := { s with uses := s.uses.erase use }

/-- `sendMessageResponse`, and where the command goes on. It throws if there is no session. -/
def sendMessageResponse (use : SessionUse) : SessionState :=
  if (s.getSessionStream use.key).isSome then
    ((s.note use).leave use).goOn use use.stage.afterCall
  else s

/-- `removeCachedSession`, and where the command goes on. The stream that it finds is closed. -/
def removeCachedSession (use : SessionUse) (deletes : Bool) : SessionState :=
  (({ s.note use with
      sessions := if deletes then Function.update s.sessions use.key none else s.sessions }).leave
    use).goOn use use.stage.afterCall

/-- The handler of `handleMessage`, once the message is read. -/
def handleMessage (use : SessionUse) (stream : ℕ) : Arrival → SessionState
  | .rejected => ((s.updateSessionStream use.key stream).note use).goOn use (some .rejected)
  | arrival => (s.updateSessionStream use.key stream).goOn use arrival.stage

/-- What a step leaves. -/
def act : SessionAction → SessionState
  | .arrive peerId operationId stream arrival =>
    s.handleMessage ⟨peerId, operationId, some stream, .preparing⟩ stream arrival
  | .sendMessage peerId operationId =>
    s.goOn ⟨peerId, operationId, none, .dialing⟩ (some .dialing)
  | .dialed use stream =>
    ((s.updateSessionStream use.key stream).leave use).goOn { use with stream := some stream }
      (some .exchanging)
  | .call use deletes =>
    match use.stage.nextCall with
    | .sendMessageResponse => s.sendMessageResponse use
    | .removeCachedSession => s.removeCachedSession use deletes
  | .fail use stage => (s.leave use).goOn use stage

/-- The step can be taken. Each stream is new. -/
def CanAct : SessionAction → Prop
  | .arrive _ _ stream _ => ∀ use ∈ s.uses, use.stream ≠ some stream
  | .sendMessage _ _ => True
  | .dialed use stream => use ∈ s.uses ∧ use.stage = .dialing ∧
      ∀ other ∈ s.uses, other.stream ≠ some stream
  | .call use deletes => use ∈ s.uses ∧ (deletes = false → use.operationId = "__proto__")
  | .fail use stage => use ∈ s.uses ∧ stage ∈ use.stage.afterError

/-- What a sequence of steps leaves. -/
def actAll (actions : List SessionAction) : SessionState := actions.foldl act s

/-- All calls found the stream of the one who called. -/
def FindsOwn : Prop := ∀ call ∈ s.calls, call.1 = some call.2

/-- The calls so far, and those that come next, find the streams of those who call. -/
structure AnswersAsker : Prop where
  sofar : s.FindsOwn
  next : ∀ use ∈ s.uses, ∀ deletes, (s.act (.call use deletes)).FindsOwn

/-- A stream is put into a session that no other use needs, and a message is sent where there is no
    session. -/
def IsAlone : SessionAction → Prop
  | .arrive peerId operationId _ _ => ∀ use ∈ s.uses, use.key ≠ (peerId, operationId)
  | .sendMessage peerId operationId => s.sessions (peerId, operationId) = none
  | .dialed use _ => ∀ other ∈ s.uses.erase use, other.key ≠ use.key
  | .call _ _ | .fail _ _ => True

end SessionState

/-- A run of the network service. -/
structure SessionRun where
  actions : List SessionAction
  canAct : Along (fun before => (SessionState.initial.actAll before).CanAct) actions

namespace SessionState

variable {s : SessionState} {use : SessionUse}

/-- The session of the use, if there is one, has its stream. -/
def SeesOwn (s : SessionState) (use : SessionUse) : Prop :=
  ∀ stream, s.sessions use.key = some stream → use.stream = some stream

/-! ### The calls -/

@[simp] theorem calls_goOn (stage : Option ExchangeStage) : (s.goOn use stage).calls = s.calls := by
  cases stage <;> rfl

@[simp] theorem sessions_goOn (stage : Option ExchangeStage) :
    (s.goOn use stage).sessions = s.sessions := by
  cases stage <;> rfl

/-- A use is that which goes on, or was there before. -/
theorem mem_goOn {stage : Option ExchangeStage} {other : SessionUse}
    (h : other ∈ (s.goOn use stage).uses) :
    (∃ next, stage = some next ∧ other = { use with stage := next }) ∨ other ∈ s.uses := by
  cases stage with
  | none => exact .inr h
  | some next =>
    refine (List.mem_cons.mp h).imp_left ?_
    intro heq
    exact ⟨next, rfl, heq⟩

theorem sessions_note : (s.note use).sessions = s.sessions := by
  rw [note]
  split <;> rfl

theorem uses_note : (s.note use).uses = s.uses := by
  rw [note]
  split <;> rfl

/-- A call finds the own stream if the session has it. -/
theorem findsOwn_note : (s.note use).FindsOwn ↔ s.FindsOwn ∧ s.SeesOwn use := by
  rw [note, getSessionStream]
  cases hsession : s.sessions use.key with
  | none =>
    refine (and_iff_left ?_).symm
    intro stream hstream
    rw [hsession] at hstream
    cases hstream
  | some stream =>
    have hsees : s.SeesOwn use ↔ use.stream = some stream := by
      constructor
      · intro hsees
        exact hsees stream hsession
      · intro hown found hfound
        rw [hsession] at hfound
        exact hown.trans hfound
    rw [hsees, and_comm]
    exact List.forall_mem_cons

/-- Every call is noted. -/
theorem calls_call (use : SessionUse) (deletes : Bool) :
    (s.act (.call use deletes)).calls = (s.note use).calls := by
  rw [act]
  split
  · rw [sendMessageResponse]
    split
    · exact calls_goOn _
    · next hnone =>
      rw [note]
      cases hsession : s.getSessionStream use.key with
      | none => rfl
      | some stream =>
        rw [hsession] at hnone
        exact absurd rfl hnone
  · exact calls_goOn _

theorem findsOwn_call (deletes : Bool) :
    (s.act (.call use deletes)).FindsOwn ↔ s.FindsOwn ∧ s.SeesOwn use := by
  rw [← findsOwn_note, FindsOwn, FindsOwn, calls_call]

theorem answersAsker_iff :
    s.AnswersAsker ↔ s.FindsOwn ∧ ∀ use ∈ s.uses, s.SeesOwn use := by
  constructor
  · rintro ⟨hsofar, hnext⟩
    exact ⟨hsofar, fun use huse => ((findsOwn_call true).mp (hnext use huse true)).2⟩
  · rintro ⟨hsofar, hsees⟩
    exact ⟨hsofar, fun use huse deletes => (findsOwn_call deletes).mpr ⟨hsofar, hsees use huse⟩⟩

/-! ### The steps -/

/-- STEP (stream): where a new stream is put into a session, the others answer themselves if and
    only if none of them has that session. -/
theorem answersAsker_stored {t : SessionState} {key : String × String} {stream : ℕ}
    {others : List SessionUse} (h : s.AnswersAsker)
    (hnew : ∀ other ∈ s.uses, other.stream ≠ some stream) (hothers : ∀ other ∈ others, other ∈ s.uses)
    (hsessions : t.sessions = Function.update s.sessions key (some stream)) (hcalls : t.FindsOwn)
    (huses : ∀ other ∈ t.uses, other ∈ others ∨ other.key = key ∧ other.stream = some stream)
    (hkept : ∀ other ∈ others, other ∈ t.uses) :
    t.AnswersAsker ↔ ∀ other ∈ others, other.key ≠ key := by
  rw [answersAsker_iff, and_iff_right hcalls]
  constructor
  · rintro hsees other hother rfl
    refine hnew other (hothers other hother) (hsees other (hkept other hother) stream ?_)
    rw [hsessions, Function.update_self]
  · intro halone other hother found hfound
    rw [hsessions] at hfound
    rcases huses other hother with hold | ⟨rfl, hown⟩
    · rw [Function.update_of_ne (halone other hold)] at hfound
      exact (answersAsker_iff.mp h).2 other (hothers other hold) found hfound
    · rw [Function.update_self] at hfound
      exact hown.trans hfound

/-- STEP (arrival): a request answers itself, and needs its session alone. -/
theorem answersAsker_handleMessage (h : s.AnswersAsker) {stream : ℕ}
    (hown : use.stream = some stream) (hnew : ∀ other ∈ s.uses, other.stream ≠ some stream)
    (arrival : Arrival) : (s.handleMessage use stream arrival).AnswersAsker ↔
      ∀ other ∈ s.uses, other.key ≠ use.key := by
  -- The request goes on in the state `t`, in some stage or none.
  have hgoes : ∀ (t : SessionState) (stage : Option ExchangeStage), t.uses = s.uses →
      t.sessions = Function.update s.sessions use.key (some stream) → t.FindsOwn →
      ((t.goOn use stage).AnswersAsker ↔ ∀ other ∈ s.uses, other.key ≠ use.key) := by
    intro t stage huses hsessions hcalls
    refine answersAsker_stored h hnew (fun _ => id) ((sessions_goOn stage).trans hsessions) ?_ ?_ ?_
    · rw [FindsOwn, calls_goOn]
      exact hcalls
    · intro other hother
      rcases mem_goOn hother with ⟨next, -, rfl⟩ | hold
      · exact .inr ⟨rfl, hown⟩
      · exact .inl (huses ▸ hold)
    · intro other hother
      cases stage with
      | none => exact huses.symm ▸ hother
      | some next => exact List.mem_cons_of_mem _ (huses.symm ▸ hother)
  cases arrival with
  | rejected =>
    refine hgoes ((s.updateSessionStream use.key stream).note use) (some .rejected) uses_note
      sessions_note (findsOwn_note.mpr ⟨h.sofar, ?_⟩)
    intro found hfound
    have hself : (s.updateSessionStream use.key stream).sessions use.key = some stream :=
      Function.update_self ..
    exact hown.trans (hself.symm.trans hfound)
  | handled request => exact hgoes (s.updateSessionStream use.key stream) _ rfl rfl h.sofar
  | dropped => exact hgoes (s.updateSessionStream use.key stream) none rfl rfl h.sofar

/-- STEP (dial): the stream of a message needs its session alone. -/
theorem answersAsker_dialed (h : s.AnswersAsker) {stream : ℕ}
    (hnew : ∀ other ∈ s.uses, other.stream ≠ some stream) :
    (s.act (.dialed use stream)).AnswersAsker ↔
      ∀ other ∈ s.uses.erase use, other.key ≠ use.key := by
  refine answersAsker_stored h hnew (fun _ => List.mem_of_mem_erase) rfl h.sofar ?_ ?_
  · intro other hother
    rcases List.mem_cons.mp hother with rfl | hold
    · exact .inr ⟨rfl, rfl⟩
    · exact .inl hold
  · exact fun other hother => List.mem_cons_of_mem _ hother

/-- STEP (message): a message that has no stream yet needs that there is no session. -/
theorem answersAsker_sendMessage (h : s.AnswersAsker) (peerId operationId : String) :
    (s.act (.sendMessage peerId operationId)).AnswersAsker ↔
      s.sessions (peerId, operationId) = none := by
  obtain ⟨hcalls, hsees⟩ := answersAsker_iff.mp h
  rw [answersAsker_iff, and_iff_right (by exact hcalls)]
  constructor
  · intro hnext
    refine Option.eq_none_iff_forall_ne_some.mpr ?_
    intro stream hstream
    cases hnext _ List.mem_cons_self stream hstream
  · intro hnone other hother
    rcases List.mem_cons.mp hother with rfl | hold
    · intro stream hstream
      cases hnone.symm.trans hstream
    · exact hsees other hold

/-- STEP (others): a use that goes on, with its session or without it, disturbs none. -/
theorem answersAsker_goOn (h : s.AnswersAsker) (huse : use ∈ s.uses) {t : SessionState}
    (huses : t.uses = s.uses) (hcalls : t.FindsOwn)
    (hsessions : ∀ key stream, t.sessions key = some stream → s.sessions key = some stream)
    (stage : Option ExchangeStage) : ((t.leave use).goOn use stage).AnswersAsker := by
  obtain ⟨-, hsees⟩ := answersAsker_iff.mp h
  rw [answersAsker_iff, FindsOwn, calls_goOn]
  refine ⟨hcalls, ?_⟩
  intro other hother stream hstream
  rw [sessions_goOn] at hstream
  have hbefore := hsessions other.key stream hstream
  rcases mem_goOn hother with ⟨next, -, rfl⟩ | hold
  · exact hsees use huse stream hbefore
  · exact hsees other (huses ▸ List.mem_of_mem_erase hold) stream hbefore

/-- STEP (call): a call that finds its own stream disturbs none. -/
theorem answersAsker_call (h : s.AnswersAsker) (huse : use ∈ s.uses) (deletes : Bool) :
    (s.act (.call use deletes)).AnswersAsker := by
  have hnoted := findsOwn_note.mpr ⟨h.sofar, (answersAsker_iff.mp h).2 use huse⟩
  rw [act]
  split
  · rw [sendMessageResponse]
    split
    · refine answersAsker_goOn h huse uses_note hnoted ?_ _
      intro key stream hstream
      rwa [sessions_note] at hstream
    · exact h
  · rw [removeCachedSession]
    refine answersAsker_goOn h huse (t := { s.note use with
      sessions := if deletes then Function.update s.sessions use.key none else s.sessions })
      uses_note hnoted ?_ _
    intro key stream hstream
    simp only at hstream
    split at hstream
    · by_cases hkey : key = use.key
      · subst hkey
        rw [Function.update_self] at hstream
        cases hstream
      · rwa [Function.update_of_ne hkey] at hstream
    · exact hstream

/-- STEP (sessions): a step leaves the calls with the streams of those who make them exactly if it
    puts its stream into a session that is its own alone. -/
theorem answersAsker_act_iff (h : s.AnswersAsker) {action : SessionAction} (hcan : s.CanAct action) :
    (s.act action).AnswersAsker ↔ s.IsAlone action := by
  cases action with
  | arrive peerId operationId stream arrival =>
    exact answersAsker_handleMessage h rfl hcan arrival
  | sendMessage peerId operationId => exact answersAsker_sendMessage h peerId operationId
  | dialed use stream => exact answersAsker_dialed h hcan.2.2
  | call use deletes => exact iff_of_true (answersAsker_call h hcan.1 deletes) trivial
  | fail use stage =>
    exact iff_of_true (answersAsker_goOn h hcan.1 rfl h.sofar (fun _ _ => id) stage) trivial

end SessionState

namespace SessionRun

/-- CODE BUG (sessions): all along a run the calls find the streams of those who make them if and
    only if each stream is put into a session that no other exchange needs, and each message is sent
    where there is no session. -/
theorem alwaysAnswersAsker_iff (run : SessionRun) :
    Always (fun before => (SessionState.initial.actAll before).AnswersAsker) run.actions ↔
      Along (fun before => (SessionState.initial.actAll before).IsAlone) run.actions := by
  have hinitial : SessionState.initial.AnswersAsker :=
    ⟨fun _ hcall => absurd hcall List.not_mem_nil, fun _ huse => absurd huse List.not_mem_nil⟩
  refine run.canAct.always_foldl_iff (D := SessionState.CanAct) hinitial ?_
  intro s action hcan hanswers
  exact SessionState.answersAsker_act_iff hanswers hcan

/-- Two requests of a peer with one operation id, and the answer to the first of them. -/
def repeatedActions : List SessionAction :=
  [.arrive "QmPeer" "operation" 1 (.handled .publish),
    .arrive "QmPeer" "operation" 2 (.handled .publish),
    .call ⟨"QmPeer", "operation", some 1, .preparing⟩ true]

theorem canAct_repeated :
    Along (fun before => (SessionState.initial.actAll before).CanAct) repeatedActions := by
  rw [repeatedActions]
  simp only [along_cons]
  refine ⟨?_, ?_, ?_, along_nil⟩
  · intro use huse
    cases huse
  · intro use huse
    rw [List.mem_singleton.mp huse]
    exact fun heq => absurd (Option.some.inj heq) (by decide)
  · exact ⟨List.mem_cons_of_mem _ List.mem_cons_self, nofun⟩

/-- The run of these actions. -/
def repeatedRun : SessionRun := ⟨repeatedActions, canAct_repeated⟩

/-- COUNTEREXAMPLE: the answer to the first request is written to the stream of the second one. -/
theorem not_answersAsker_repeatedRun :
    ¬ Always (fun before => (SessionState.initial.actAll before).AnswersAsker) repeatedRun.actions := by
  intro halways
  have hanswers := halways repeatedActions (List.prefix_refl _)
  have hcall : (some 1, 2) ∈ (SessionState.initial.actAll repeatedActions).calls :=
    List.mem_cons_self
  exact absurd (Option.some.inj (hanswers.sofar _ hcall)) (by decide)

end SessionRun

end OtNode
