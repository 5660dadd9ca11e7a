import Pullbackup.Due

/- services/runner.py: the database transactions of admission, execution, the
   watchdog and the restart reconciliation. -/
namespace Pullbackup
open KeyedTable

def orphanGraceSeconds : Int := 300

/-- The two clock readings of an admission: the log name's and the row's. -/
structure Stamp where
  ts : Int
  startedAt : Int

inductive RunAdmission where
  | accepted (runId : Nat)
  | taskActive
  | sourceActive
  deriving DecidableEq, Repr

def pendingRun (id taskId : Nat) (stamp : Stamp) : Run :=
  { id := id, taskId := taskId, startedAt := stamp.startedAt
    logFilename := ⟨taskId, stamp.ts / seconds 1⟩ }

def newPendingRun (db : Db) (task : Task) (stamp : Stamp) : Db × Run :=
  let run := pendingRun (nextId db.runs) task.id stamp
  ({ db with runs := db.runs.put run }, run)

def taskActive (db : Db) (taskId : Nat) : Bool :=
  db.runs.rows.any fun r => r.taskId = taskId && r.state.active

def sourceActive (db : Db) (sourceId : Nat) : Bool :=
  db.runs.rows.any fun r =>
    r.state.active && (db.tasks.get r.taskId).any fun t => t.sourceId = sourceId

/-- None is the ValueError of an unknown task. -/
def admitRun (db : Db) (taskId : Nat) (stamp : Stamp) : Option (Db × RunAdmission) :=
  match db.tasks.get taskId with
  | none => none
  | some task =>
    if taskActive db task.id then some (db, .taskActive)
    else if sourceActive db task.sourceId then some (db, .sourceActive)
    else
      let (db, run) := newPendingRun db task stamp
      some (db, .accepted run.id)

inductive StartError where
  | missing
  | notOwned
  deriving DecidableEq, Repr

/-- The transaction of _execute_run that turns its pending row running. -/
def startRun (db : Db) (runId : Nat) (now : Int) : Except StartError Db :=
  match db.runs.get runId with
  | none => .error .missing
  | some run =>
    if run.state ≠ .pending then .error .notOwned
    else .ok { db with runs := db.runs.put { run with state := .running, startedAt := now } }

/-- How the body of _execute_run ended: with an exit code (-1 after a launch error), by a caught
    cancellation, or past its deadline. -/
inductive Ending where
  | exited (code : Int)
  | cancelled
  | timedOut (after : Int)
  deriving DecidableEq, Repr

def Ending.exitCode : Ending → Int
  | .exited code => code
  | .cancelled | .timedOut _ => -1

def Ending.state (e : Ending) (cancelRequested : Bool) : RunState :=
  match e with
  | .exited code => if code = 0 then .success else .failed
  | .cancelled => if cancelRequested then .cancelled else .failed
  | .timedOut _ => .failed

def Ending.errorMessage (e : Ending) (previous : String) : String :=
  match e with
  | .exited code => if code = 0 then previous else "rsync exited " ++ toString code
  | .cancelled => "run cancelled"
  | .timedOut after =>
    "run exceeded the " ++ toString after ++
      "s execution timeout and its process group was terminated"

structure Stats where
  files : Option Int := none
  bytes : Option Int := none

def Run.terminal (run : Run) (e : Ending) (cancelRequested : Bool) (stats : Stats) (now : Int) :
    Run :=
  { run with
    finishedAt := some now, exitCode := some e.exitCode, bytesTransferred := stats.bytes
    filesTransferred := stats.files, state := e.state cancelRequested
    errorMessage := e.errorMessage run.errorMessage }

def owedBy (db : Db) (runId : Nat) : Option TaskDue :=
  db.taskDue.rows.find? fun row => row.runId = some runId

/-- The last transaction of _execute_run: the terminal row and the settlement of the obligation
    it was started for. -/
def finishRun (db : Db) (runId : Nat) (e : Ending) (cancelRequested : Bool) (stats : Stats)
    (now : Int) : Db :=
  match db.runs.get runId with
  | none => db
  | some run =>
    let run := run.terminal e cancelRequested stats now
    let db := { db with runs := db.runs.put run }
    match owedBy db runId with
    | none => db
    | some owed =>
      { db with taskDue := db.taskDue.write owed.taskId (applyRunOutcome owed run now) }

def Run.failed (run : Run) (message : String) (now : Int) : Run :=
  { run with
    state := .failed, finishedAt := some now, exitCode := some (-1), errorMessage := message }

/-- Why an execution left without terminalizing its row. -/
inductive OwnerExit where
  | cancelled
  | raised (errorType error : String)
  | failedToStart
  deriving DecidableEq, Repr

def OwnerExit.message : OwnerExit → String
  | .cancelled => "run cancelled"
  | .raised errorType error => "run owner failed: " ++ errorType ++ ": " ++ error
  | .failedToStart => "failed to start admitted run"

/-- The row is failed for its owner; no obligation is settled here. -/
def terminalizeOwnedRun (db : Db) (runId : Nat) (message : String) (cancelRequested : Bool)
    (now : Int) : Db × Bool :=
  match db.runs.get runId with
  | none => (db, false)
  | some run =>
    if run.state.active then
      let run := run.failed message now
      let run :=
        if message = "run cancelled" ∧ cancelRequested then { run with state := .cancelled }
        else run
      ({ db with runs := db.runs.put run }, true)
    else (db, false)

def watchdogMessage : String :=
  "run reclaimed by the watchdog: no execution owns it in this process, so it cannot be running"

def orphaned (owners : List Nat) (now : Int) (run : Run) : Bool :=
  run.state.active && !owners.contains run.id &&
    run.startedAt ≤ now - seconds orphanGraceSeconds

def sweepOrphanedRuns (db : Db) (owners : List Nat) (now : Int) : Db :=
  { db with
    runs := db.runs.mapRows
      (fun run => if orphaned owners now run then run.failed watchdogMessage now else run)
      (by intro run; split <;> rfl) }

def restartMessage : String := "interrupted by application restart"

def reconcileStaleRuns (db : Db) (now : Int) : Db :=
  { db with
    runs := db.runs.mapRows
      (fun run => if run.state.active then run.failed restartMessage now else run)
      (by intro run; split <;> rfl) }

end Pullbackup
