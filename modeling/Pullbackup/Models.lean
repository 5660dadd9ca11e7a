import Pullbackup.Library.KeyedTable

/- The stored rows (models.py, api/tasks.py). Instants are microseconds of UTC:
   SQLite drops the zone and the stored contract is UTC. -/
namespace Pullbackup
open KeyedTable

def seconds (n : Int) : Int := n * 1000000

inductive RunState where
  | pending | running | success | failed | cancelled
  deriving DecidableEq, Repr

def RunState.active : RunState → Bool
  | .pending | .running => true
  | _ => false

structure Source where
  id : Nat
  name : String
  user : String
  host : String
  port : Int := 22
  sshKeyPath : String
  description : String := ""
  createdAt : Int
  deriving DecidableEq, Repr

/-- The client-editable columns of a task, shared by TaskFields and Task. -/
structure TaskFields where
  name : String
  sourceId : Nat
  remotePath : String
  localPath : String
  cron : String
  enabled : Bool := true
  description : String := ""
  taskType : String := "rsync"
  syncoidRecursive : Bool := true
  syncoidNoSyncSnap : Bool := true
  syncoidCompress : String := ""
  syncoidExtraArgs : String := ""
  syncoidForceFull : Bool := false
  pruneKeepHourly : Option Int := none
  archive : Bool := true
  recursive : Bool := true
  times : Bool := true
  compress : Bool := true
  delete : Bool := false
  quiet : Bool := false
  preservePermissions : Bool := false
  preserveXattrs : Bool := false
  delayUpdates : Bool := true
  useSudo : Bool := false
  bwlimitKbps : Option Int := none
  excludePatterns : String := ""
  auxArgs : String := ""
  notifyMatrix : Bool := false
  notifyMatrixOnSuccess : Bool := false
  kumaEnabled : Bool := false
  deriving DecidableEq, Repr

structure Task extends TaskFields where
  id : Nat
  kumaMonitorId : Option Nat := none
  kumaPushToken : Option String := none
  createdAt : Int
  updatedAt : Int
  scheduleBaselineAt : Option Int := none
  scheduleEpochAt : Option Int := none
  deriving DecidableEq, Repr

/-- The name task-{id}-{ts}.log, with ts the admission second. -/
structure LogFile where
  taskId : Nat
  second : Int
  deriving DecidableEq, Repr

structure Run where
  id : Nat
  taskId : Nat
  state : RunState := .pending
  startedAt : Int
  finishedAt : Option Int := none
  exitCode : Option Int := none
  bytesTransferred : Option Int := none
  filesTransferred : Option Int := none
  errorMessage : String := ""
  logFilename : LogFile
  deriving DecidableEq, Repr

inductive DueStatus where
  | due | dispatched | retry | exhausted | blocked
  deriving DecidableEq, Repr

inductive WaitReason where
  | taskActive | sourceBusy | destinationBusy | capacity
  deriving DecidableEq, Repr

/-- The one outstanding obligation of a task; dueAt is its earliest unsatisfied occurrence and
    newerDueAt the one follow-up behind an active run. -/
structure TaskDue where
  taskId : Nat
  dueAt : Int
  status : DueStatus := .due
  waitReason : Option WaitReason := none
  attempts : Int := 0
  retryAt : Option Int := none
  lastError : String := ""
  runId : Option Nat := none
  newerDueAt : Option Int := none
  updatedAt : Int
  deriving DecidableEq, Repr

instance : Keyed Source Nat := ⟨Source.id⟩
instance : Keyed Task Nat := ⟨Task.id⟩
instance : Keyed Run Nat := ⟨Run.id⟩
instance : Keyed TaskDue Nat := ⟨TaskDue.taskId⟩

@[simp] theorem key_source (s : Source) : Keyed.key s = s.id := rfl
@[simp] theorem key_task (t : Task) : Keyed.key t = t.id := rfl
@[simp] theorem key_run (r : Run) : Keyed.key r = r.id := rfl
@[simp] theorem key_taskDue (d : TaskDue) : Keyed.key d = d.taskId := rfl

structure Db where
  sources : Table Source
  tasks : Table Task
  runs : Table Run
  taskDue : Table TaskDue

def Db.empty : Db := ⟨.empty, .empty, .empty, .empty⟩

@[simp] theorem active_pending : RunState.pending.active = true := rfl
@[simp] theorem active_running : RunState.running.active = true := rfl
@[simp] theorem active_success : RunState.success.active = false := rfl
@[simp] theorem active_failed : RunState.failed.active = false := rfl
@[simp] theorem active_cancelled : RunState.cancelled.active = false := rfl

end Pullbackup
