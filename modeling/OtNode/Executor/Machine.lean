import OtNode.Executor.Retry
import Mathlib.Logic.Function.Basic

/-! The command executor over whole runs: its table, its queue, what is under way, and restarts.

    Whatever waits for the repository or for a handler is a task. Between two such calls a task is not
    interrupted, and a call may fail. A restart leaves the table, from which commands are replayed. No
    command is transactional, so nothing is rolled back. -/

namespace OtNode.CommandExecutor

open Executor (CommandStatus)

variable {δ : Type}

/-- `PERMANENT_COMMANDS`. -/
def PERMANENT_COMMANDS : List String :=
  ["eventListenerCommand", "otnodeUpdateCommand", "sendTelemetryCommand",
    "shardingTableCheckCommand", "operationIdCleanerCommand", "commandsCleanerCommand",
    "dialPeersCommand", "blockchainEventCleanerCommand", "getCleanerCommand",
    "getResponseCleanerCommand", "publishCleanerCommand", "publishResponseCleanerCommand",
    "updateCleanerCommand", "updateResponseCleanerCommand", "startParanetSyncCommands",
    "pendingStorageCleanerCommand"]

/-- A new command. Missing retries are 0. -/
structure NewCommand (δ : Type) where
  name : String
  data : δ
  isBlocking : Bool
  retries : ℕ
  deriving DecidableEq

/-- A command with the id of its row. -/
structure Command (δ : Type) extends NewCommand δ where
  id : ℕ
  parentId : Option ℕ
  deriving DecidableEq

/-- A row of the command table. -/
structure Row (δ : Type) extends Command δ where
  status : CommandStatus
  deriving DecidableEq

/-- The statuses `findUnfinalizedCommandsByName` leaves out, and `findFinalizedCommands` looks for. -/
def isFinalized (status : CommandStatus) : Bool :=
  status ∈ [CommandStatus.completed, .failed, .expired, .unknown]

/-- The execution a row was returned by, and the start of the node that was in. `chained` says that
    the command executed was not permanent and had a parent itself. -/
structure Origin where
  execution : ℕ
  session : ℕ
  chained : Bool
  deriving DecidableEq

/-- Where `add` was called from for a command that has a row. -/
inductive Caller where | wait | process | handleError | children | replay
  deriving DecidableEq

/-- What is under way. `add` looks for unfinalized commands before it inserts a new one, or before it
    queues another. `_execute` waits for each update, for the handler, for the children to be inserted
    and for them to be added. A child may still be inserted when another one was not. -/
inductive Task (δ : Type) where
  | adding (new : NewCommand δ)
  | inserting (new : NewCommand δ)
  | checking (c : Command δ) (caller : Caller)
  | starting (c : Command δ)
  | expiring (c : Command δ)
  | marking (c : Command δ)
  | executing (c : Command δ) (execution : ℕ)
  | finishing (c : Command δ) (execution : ℕ)
  | repeating (c : Command δ)
  | retrying (c : Command δ)
  | insertingChildren (c : Command δ) (execution : ℕ) (left : List (NewCommand δ))
      (children : List (Command δ))
  | insertingChild (c : Command δ) (execution : ℕ) (new : NewCommand δ)
  | completing (c : Command δ) (execution : ℕ) (children : List (Command δ))
  | addingChildren (c : Command δ) (children : List (Command δ))
  | spending (c : Command δ)
  | failing (c : Command δ)
  | recovering (c : Command δ)
  | reopening (c : Command δ)
  deriving DecidableEq

/-- `replayOldCommands`: it reads the pending rows, and looks at their parents one by one. -/
inductive Replay (δ : Type) where
  | reading
  | looking (left : List (Row δ)) (commands : List (Command δ))
  | finished
  deriving DecidableEq

/-- The table, the queue with the commands that wait for a timer, the tasks, the replay, and the rows
    the cleaner has found. The rest is kept to speak about runs: where rows come from, the executions
    that reached `COMPLETED`, the commands executed, and those that their parent or the replay has put
    on the queue since the last start. -/
structure State (δ : Type) where
  rows : ℕ → Option (Row δ)
  queue : List (Command δ)
  tasks : List (Task δ)
  replay : Replay δ
  found : List ℕ
  nextId : ℕ
  nextExecution : ℕ
  session : ℕ
  origin : ℕ → Option Origin
  completed : List ℕ
  executed : List ℕ
  handed : List ℕ

/-- How a call ends. An update of `startedAt` may find the command too late or too early. A handler
    may change the data of its command. -/
inductive Outcome (δ : Type) where
  | fails
  | returns
  | late
  | early
  | commands (data : δ) (children : List (NewCommand δ))
  | retry (data : δ)
  | repeats (data : δ)

/-- What happens: a command is added or taken off the queue, a call of a task ends or one of the calls
    for its children, the replay goes on, finalized commands are found or removed, or the node is
    restarted. -/
inductive Action (δ : Type) where
  | add (new : NewCommand δ)
  | take (i : ℕ)
  | reply (i : ℕ) (outcome : Outcome δ)
  | replyChild (i j : ℕ) (ok : Bool)
  | look (ok : Bool)
  | find (ids : List ℕ)
  | remove
  | restart

namespace State

variable (s : State δ)

/-- The table without rows, before the first start. -/
def initial : State δ where
  rows _ := none
  queue := []
  tasks := []
  replay := .finished
  found := []
  nextId := 0
  nextExecution := 0
  session := 0
  origin _ := none
  completed := []
  executed := []
  handed := []

/-- A task is under way. -/
def start (t : Task δ) : State δ := { s with tasks := s.tasks ++ [t] }

/-- A command is put on the queue or waits for its timer. -/
def enqueue (c : Command δ) : State δ := { s with queue := s.queue ++ [c] }

/-- A command is put on the queue by its parent or by the replay. -/
def hand (c : Command δ) : State δ := { s.enqueue c with handed := s.handed ++ [c.id] }

/-- The rows of the table, by their ids. -/
def table : List (Row δ) := (List.range s.nextId).filterMap s.rows

/-- `findUnfinalizedCommandsByName`. -/
def findUnfinalizedCommandsByName (name : String) : List (Row δ) :=
  s.table.filter fun row => row.name = name && !isFinalized row.status

/-- The test by which `add` leaves out a blocking command with a row. -/
def refuses [DecidableEq δ] (c : Command δ) : Bool :=
  (s.findUnfinalizedCommandsByName c.name).any fun row => row.id ≠ c.id && row.data = c.data

/-- The test by which `add` leaves out a new blocking command. -/
def refusesNew [DecidableEq δ] (new : NewCommand δ) : Bool :=
  (s.findUnfinalizedCommandsByName new.name).any fun row => row.data = new.data

/-- `_update`, of a row if it is there. -/
def update (id : ℕ) (change : Row δ → Row δ) : State δ :=
  { s with rows := Function.update s.rows id ((s.rows id).map change) }

/-- `_update` with a status. -/
def updateStatus (c : Command δ) (status : CommandStatus) : State δ :=
  s.update c.id fun row => { row with status := status }

/-- The row that `_insert` makes. -/
def newRow (new : NewCommand δ) (parentId : Option ℕ) : Row δ :=
  ⟨⟨new, s.nextId, parentId⟩, .pending⟩

/-- `_insert`. -/
def insert (new : NewCommand δ) (parentId : Option ℕ) (origin : Option Origin) : State δ :=
  { s with
    rows := Function.update s.rows s.nextId (some (s.newRow new parentId))
    nextId := s.nextId + 1
    origin := Function.update s.origin s.nextId origin }

/-- The origin of the children of an execution. -/
def childOrigin (c : Command δ) (execution : ℕ) : Origin :=
  ⟨execution, s.session, c.name ∉ PERMANENT_COMMANDS && c.parentId.isSome⟩

/-- `_insert` of a child. -/
def insertChild (c : Command δ) (execution : ℕ) (new : NewCommand δ) : State δ :=
  s.insert new (some c.id) (some (s.childOrigin c execution))

/-- `add(command, delay, false)` from `_execute`. -/
def readd (c : Command δ) (caller : Caller) : State δ :=
  if c.isBlocking then s.start (.checking c caller) else s.enqueue c

/-- The node is stopped and started again: the permanent commands are deleted, and the others are to
    be replayed. -/
def restart : State δ :=
  { s with
    rows := fun id => (s.rows id).filter fun row => row.name ∉ PERMANENT_COMMANDS
    queue := []
    tasks := []
    replay := .reading
    found := []
    session := s.session + 1
    handed := [] }

/-- `_handleError`. -/
def handleError (c : Command δ) : State δ :=
  if 0 < c.retries then s.start (.spending { c with retries := c.retries - 1 })
  else s.start (.failing c)

/-- `execute` is called. -/
def execute (c : Command δ) : State δ :=
  { s.start (.executing c s.nextExecution) with
    nextExecution := s.nextExecution + 1
    executed := s.executed ++ [c.id] }

/-- The children of an execution are inserted. Without any the command is completed. -/
def insertChildren (c : Command δ) (execution : ℕ) (left : List (NewCommand δ))
    (children : List (Command δ)) : State δ :=
  match left with
  | [] => s.start (.completing c execution children)
  | _ => s.start (.insertingChildren c execution left children)

/-- `add(e, e.delay, false)` for each child: those that are not blocking are queued at once. -/
def addChildren (c : Command δ) (children : List (Command δ)) : State δ :=
  let s := (children.filter (!·.isBlocking)).foldl hand s
  match children.filter (·.isBlocking) with
  | [] => s
  | blocking => s.start (.addingChildren c blocking)

/-- The execution has reached `COMPLETED`. -/
def complete (c : Command δ) (execution : ℕ) : State δ :=
  { s.updateStatus c .completed with completed := s.completed ++ [execution] }

/-- `add` goes on when the unfinalized commands have been found, or have not. -/
def checked [DecidableEq δ] (c : Command δ) (caller : Caller) (ok : Bool) : State δ :=
  if ok then
    if s.refuses c then s
    else if caller = .children ∨ caller = .replay then s.hand c else s.enqueue c
  else
    match caller with
    | .wait | .replay => s.restart
    | .process => s.handleError c
    | .handleError | .children => s

/-- A call of a task ends. The state is the one without the task. -/
def advance [DecidableEq δ] : Task δ → Outcome δ → Option (State δ)
  | .adding new, .returns => some (if s.refusesNew new then s else s.start (.inserting new))
  | .adding _, .fails => some s
  | .inserting new, .returns =>
    some ((s.insert new none none).enqueue (s.newRow new none).toCommand)
  | .inserting _, .fails => some s
  | .checking c caller, .returns => some (s.checked c caller true)
  | .checking c caller, .fails => some (s.checked c caller false)
  | .starting _, .fails => some s.restart
  | .starting c, .late => some (s.start (.expiring c))
  | .starting c, .early => some (s.readd c .wait)
  | .starting c, .returns => some (s.start (.marking c))
  | .expiring _, .fails => some s.restart
  | .expiring c, .returns => some (s.updateStatus c .expired)
  | .marking c, .fails => some (s.handleError c)
  | .marking c, .returns => some ((s.updateStatus c .started).execute c)
  | .executing c _, .fails => some (s.handleError c)
  | .executing c _, .repeats data => some (s.start (.repeating { c with data := data }))
  | .executing c execution, .retry data =>
    some (if 1 < c.retries then
        s.start (.retrying { c with data := data, retries := c.retries - 1 })
      else s.start (.finishing { c with data := data } execution))
  | .executing c execution, .commands data children =>
    some (s.insertChildren { c with data := data } execution children [])
  | .finishing c _, .fails => some (s.handleError c)
  | .finishing c execution, .returns => some (s.start (.completing c execution []))
  | .repeating c, .fails => some (s.handleError c)
  | .repeating c, .returns => some ((s.updateStatus c .repeating).readd c .process)
  | .retrying c, .fails => some (s.handleError c)
  | .retrying c, .returns =>
    some ((s.update c.id fun row =>
      { row with status := .pending, data := c.data, retries := c.retries }).readd c .process)
  | .insertingChild c execution new, .returns => some (s.insertChild c execution new)
  | .insertingChild _ _ _, .fails => some s
  | .completing c _ _, .fails => some (s.handleError c)
  | .completing c execution children, .returns =>
    some ((s.complete c execution).addChildren c children)
  | .spending _, .fails => some s
  | .spending c, .returns =>
    some ((s.update c.id fun row => { row with retries := c.retries }).readd c .handleError)
  | .failing _, .fails => some s
  | .failing c, .returns => some ((s.updateStatus c .failed).start (.recovering c))
  | .recovering _, .fails => some s
  | .recovering c, .repeats data => some (s.start (.reopening { c with data := data }))
  | .recovering _, .commands _ _ => some s
  | .recovering _, .retry _ => some s
  | .reopening _, .fails => some s
  | .reopening c, .returns => some ((s.updateStatus c .repeating).readd c .handleError)
  | _, _ => none

/-- A call for the `j`-th child that is left ends. When one fails, the others go on. -/
def advanceChild [DecidableEq δ] (j : ℕ) (ok : Bool) : Task δ → Option (State δ)
  | .insertingChildren c execution left children =>
    left[j]?.map fun new =>
      if ok then
        (s.insertChild c execution new).insertChildren c execution (left.eraseIdx j)
          (children ++ [(s.newRow new (some c.id)).toCommand])
      else
        { s with
          tasks := s.tasks ++ (left.eraseIdx j).map (Task.insertingChild c execution) }.handleError c
  | .addingChildren c children =>
    children[j]?.map fun child =>
      if ok then
        let s := s.checked child .children true
        match children.eraseIdx j with
        | [] => s
        | left => s.start (.addingChildren c left)
      else
        { s with
          tasks := s.tasks ++ (children.eraseIdx j).map (Task.checking · .children) }.handleError c
  | _ => none

/-- The parent of a row is there and has not been completed. -/
def hasOpenParent (row : Row δ) : Bool :=
  match row.parentId.bind s.rows with
  | some parent => parent.status ≠ .completed
  | none => false

/-- The test by which the replay takes a row. -/
def takes (row : Row δ) : Bool :=
  row.isBlocking || row.parentId.isSome && !s.hasOpenParent row

/-- `getCommandsWithStatus`, for the replay. -/
def pendingCommands : List (Row δ) :=
  s.table.filter fun row =>
    row.status ∈ [CommandStatus.pending, .started, .repeating] && row.name ∉ PERMANENT_COMMANDS

/-- The id of the command that a worker of the queue executes. -/
def worker : Task δ → Option ℕ
  | .adding _ | .inserting _ | .insertingChild _ _ _ => none
  | .checking c caller => if caller = .children ∨ caller = .replay then none else some c.id
  | .starting c | .expiring c | .marking c | .executing c _ | .finishing c _ | .repeating c
  | .retrying c | .insertingChildren c _ _ _ | .completing c _ _ | .addingChildren c _
  | .spending c | .failing c | .recovering c | .reopening c => some c.id

/-- `add(command, 0, false)` from the replay, unless a worker executes the command. -/
def replayCommand (c : Command δ) : State δ :=
  if c.id ∈ s.tasks.filterMap worker then s
  else if c.isBlocking then s.start (.checking c .replay) else s.hand c

/-- The replay goes on. When a call of it fails, nothing catches the error. -/
def look (ok : Bool) : State δ :=
  match s.replay with
  | .finished => s
  | .reading => if ok then { s with replay := .looking s.pendingCommands [] } else s.restart
  | .looking (row :: left) commands =>
    if ok then
      { s with replay := .looking left (if s.takes row then commands ++ [row.toCommand] else commands) }
    else s.restart
  | .looking [] commands => commands.foldl replayCommand { s with replay := .finished }

/-- A step. -/
def act [DecidableEq δ] : Action δ → State δ
  | .add new => s.start (if new.isBlocking then .adding new else .inserting new)
  | .take i =>
    match s.queue[i]? with
    | some c => { s with queue := s.queue.eraseIdx i }.start (.starting c)
    | none => s
  | .reply i outcome =>
    (s.tasks[i]?.bind fun t => { s with tasks := s.tasks.eraseIdx i }.advance t outcome).getD s
  | .replyChild i j ok =>
    (s.tasks[i]?.bind fun t => { s with tasks := s.tasks.eraseIdx i }.advanceChild j ok t).getD s
  | .look ok => s.look ok
  | .find ids =>
    { s with found := ids.filter fun id => ((s.rows id).map (isFinalized ·.status)).getD false }
  | .remove => { s with rows := fun id => if id ∈ s.found then none else s.rows id, found := [] }
  | .restart => s.restart

/-- The steps of a run. -/
def run [DecidableEq δ] (actions : List (Action δ)) : State δ :=
  actions.foldl (fun s a => s.act a) s

end State

end OtNode.CommandExecutor
