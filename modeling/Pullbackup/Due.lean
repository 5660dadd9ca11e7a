import Mathlib.Algebra.Ring.Int.Defs
import Pullbackup.Library.Schedule
import Pullbackup.Models

/- services/due.py. The functions of this module read and write the rows of one
   task: its task row, its TaskDue row and, for queries, the run table. -/
namespace Pullbackup
open KeyedTable

def backoffInitialSeconds : Int := 60
def backoffCeilingSeconds : Int := 3600
def maxAutomaticRetries : Int := 5
def maxOccurrenceScan : Nat := 20000
def tickEarlyTolerance : Int := seconds 1

/-- Failures that say nothing about the backup itself, and failures that a retry cannot fix. -/
def infrastructureFailures : List String :=
  ["interrupted by application restart", "run reclaimed by the watchdog", "run cancelled"]

def permanentFailures : List String :=
  ["run owner failed: PathNotAllowed", "run owner failed: ValueError"]

def isInfrastructure (message : String) : Bool :=
  infrastructureFailures.any fun start => start.toList.isPrefixOf message.toList

def textContains (text marker : String) : Bool :=
  text.toList.tails.any marker.toList.isPrefixOf

def isPermanent (message : String) : Bool :=
  permanentFailures.any fun marker => textContains message marker

def clip (message : String) : String := String.ofList (message.toList.take 500)

def backoffSeconds (retryNumber : Int) : Int :=
  min (backoffInitialSeconds * 2 ^ (max (retryNumber - 1) 0).toNat) backoffCeilingSeconds

/-- The scheduling library behind the live job: whether an expression parses, its next firing
    after an instant, and Python's repr of the expression. -/
structure Trigger where
  parses : String → Bool
  nextFireTime : String → Int → Option Int
  shown : String → String

def nextOccurrence (trig : Trigger) (cron : String) (after : Int) : Option Int :=
  if trig.parses cron then
    match trig.nextFireTime cron after with
    | none => none
    | some fire => if fire ≤ after then none else some fire
  else none

theorem nextOccurrence_advances (trig : Trigger) (cron : String) :
    Schedule.Advances (nextOccurrence trig cron) := by
  intro after fire answer
  unfold nextOccurrence at answer
  split at answer
  · split at answer
    · cases answer
    · split at answer
      · cases answer
      · rename_i later
        exact Option.some.inj answer ▸ not_le.mp later
  · cases answer

/-- The instants the schedule ever answers. -/
def occurrences (trig : Trigger) (cron : String) : Set Int :=
  Schedule.answers (nextOccurrence trig cron)

def latestOccurrence (trig : Trigger) (cron : String) (first now : Int) : Int :=
  Schedule.walk (nextOccurrence trig cron) now maxOccurrenceScan first

theorem latestOccurrence_bounds (trig : Trigger) (cron : String) {first now : Int}
    (inside : first ≤ now) :
    first ≤ latestOccurrence trig cron first now ∧ latestOccurrence trig cron first now ≤ now :=
  Schedule.walk_bounds (nextOccurrence_advances trig cron) now maxOccurrenceScan first inside

def deriveBaseline (runs : List Run) (task : Task) : Int :=
  match lastBy Run.startedAt (fun r => r.taskId = task.id) runs with
  | some last => last.finishedAt.getD last.startedAt
  | none => task.createdAt

def activeRunStartedAt (runs : List Run) (taskId : Nat) : Option Int :=
  (firstBy Run.startedAt (fun r => r.taskId = taskId ∧ r.state.active) runs).map Run.startedAt

/-- DUE again with a fresh budget: a new occurrence, an edit or a settled marker. -/
def TaskDue.rearm (row : TaskDue) : TaskDue :=
  { row with status := .due, attempts := 0, retryAt := none, lastError := "" }

def noteOccurrenceDuringRun (runs : List Run) (row : TaskDue) (instant : Int)
    (latest : Option Int) : Bool × TaskDue :=
  match row.status with
  | .dispatched =>
    (true, if row.newerDueAt = none then { row with newerDueAt := some instant } else row)
  | .blocked => (false, row)
  | _ =>
    let newest := latest.getD instant
    match activeRunStartedAt runs row.taskId with
    | none => (false, row)
    | some started =>
      if newest ≤ started then (false, row)
      else (true, if row.newerDueAt = none then { row with newerDueAt := some newest } else row)

def finish (row : TaskDue) (followUp : Option Int) (now : Int) : Option TaskDue :=
  match followUp with
  | none => none
  | some instant => some
      { row with
        dueAt := instant, newerDueAt := none, status := .due, attempts := 0, retryAt := none
        runId := none, waitReason := none, lastError := "", updatedAt := now }

def failOutcome (row : TaskDue) (message : String) (now : Int) : TaskDue :=
  if isInfrastructure message then
    { row with status := .due, runId := none, waitReason := none, retryAt := none, updatedAt := now }
  else if isPermanent message then
    { row with
      status := .blocked, runId := none, waitReason := none, retryAt := none
      lastError := clip message, updatedAt := now }
  else if row.attempts + 1 > maxAutomaticRetries then
    { row with
      attempts := row.attempts + 1, lastError := clip message, runId := none, waitReason := none
      status := .exhausted, retryAt := none, updatedAt := now }
  else
    { row with
      attempts := row.attempts + 1, lastError := clip message, runId := none, waitReason := none
      status := .retry, retryAt := some (now + seconds (backoffSeconds (row.attempts + 1)))
      updatedAt := now }

def applyRunOutcome (row : TaskDue) (run : Run) (now : Int) : Option TaskDue :=
  match run.state with
  | .pending | .running => some row
  | .success => finish row row.newerDueAt now
  | .cancelled => none
  | .failed => some (failOutcome row run.errorMessage now)

def paidBy (runs : List Run) (row : TaskDue) : Option Run :=
  lastBy Run.startedAt
    (fun r => r.taskId = row.taskId ∧ r.state = .success ∧ row.dueAt ≤ r.startedAt) runs

def runOf (runs : List Run) (row : TaskDue) : Option Run :=
  row.runId.bind fun id => runs.find? (fun r => r.id = id)

def settleRow (runs : List Run) (row : TaskDue) (now : Int) : Option TaskDue :=
  match row.status with
  | .dispatched =>
    match runOf runs row with
    | none => some { row with status := .due, runId := none }
    | some run => applyRunOutcome row run now
  | .blocked => some row
  | _ =>
    match paidBy runs row with
    | some paid =>
      -- It pays what was owed when it started.
      finish row (row.newerDueAt.filter fun followUp => paid.startedAt < followUp) now
    | none =>
      if row.newerDueAt ≠ none ∧ activeRunStartedAt runs row.taskId = none then
        let row := { row with newerDueAt := none }
        some { (if row.status = .exhausted then row.rearm else row) with updatedAt := now }
      else some row

/-- The rows one transaction of this module works on. -/
structure Ledger where
  task : Task
  due : Option TaskDue
  runs : List Run

def Ledger.settle (l : Ledger) (now : Int) : Ledger :=
  { l with due := l.due.bind fun row => settleRow l.runs row now }

/-- A session: what is committed and what it has changed since. Closing it without a commit
    leaves the committed rows. -/
structure Session where
  stored : Ledger
  work : Ledger

def Session.begin (l : Ledger) : Session := ⟨l, l⟩
def Session.commit (s : Session) : Session := ⟨s.work, s.work⟩

def invalidCronError (trig : Trigger) (cron : String) : String :=
  clip ("invalid cron expression " ++ trig.shown cron ++ ": edit the task to fix its schedule")

def blockInvalidCron (trig : Trigger) (s : Session) (now : Int) : Session × Option TaskDue :=
  let task := s.work.task
  let row := s.work.due.getD { taskId := task.id, dueAt := now, updatedAt := now }
  if row.status ≠ .blocked ∨ textContains row.lastError "cron" = false then
    let row := { row with
      status := .blocked, waitReason := none, retryAt := none
      lastError := invalidCronError trig task.cron, updatedAt := now }
    (Session.commit { s with work := { s.work with due := some row } }, some row)
  else (s, some row)

/-- Nothing owed: keep the watermark honest, without a commit of its own. -/
def keepWatermark (s : Session) (baseline : Int) : Session × Option TaskDue :=
  let task := s.work.task
  let task :=
    if task.scheduleBaselineAt.all (· < baseline) then
      { task with scheduleBaselineAt := some baseline }
    else task
  ({ s with work := { s.work with task := task } }, s.work.due)

/-- The row after the occurrences from first to latest are folded into it. -/
def foldRow (l : Ledger) (first latest now : Int) : TaskDue :=
  match l.due with
  | none => { taskId := l.task.id, dueAt := first, status := .due, updatedAt := now }
  | some row =>
    let noted := noteOccurrenceDuringRun l.runs row first (some latest)
    let row :=
      if noted.1 then noted.2
      else if noted.2.status = .exhausted then noted.2.rearm
      else noted.2
    { row with updatedAt := now }

def foldOccurrences (trig : Trigger) (s : Session) (first now : Int) :
    Session × Option TaskDue :=
  let latest := latestOccurrence trig s.work.task.cron first now
  let row := foldRow s.work first latest now
  let work : Ledger :=
    { s.work with
      task := { s.work.task with scheduleBaselineAt := some latest }, due := some row }
  (Session.commit { s with work := work }, some row)

/-- The instant occurrences are counted from. -/
def Ledger.baseline (l : Ledger) : Int :=
  l.task.scheduleBaselineAt.getD (deriveBaseline l.runs l.task)

def reconcileTask (trig : Trigger) (s : Session) (now : Int) : Session × Option TaskDue :=
  if s.work.task.enabled = false then (s, none)
  else if trig.parses s.work.task.cron = false then blockInvalidCron trig s now
  else
    let s := { s with work := s.work.settle now }
    match nextOccurrence trig s.work.task.cron s.work.baseline with
    | none => keepWatermark s s.work.baseline
    | some first =>
      if now < first then keepWatermark s s.work.baseline
      else foldOccurrences trig s first now

def reconcileOne (trig : Trigger) (l : Ledger) (now : Int) : Ledger :=
  if l.task.enabled then (reconcileTask trig (Session.begin l) now).1.commit.stored else l

def runCovers (runs : List Run) (taskId : Nat) (baseline : Option Int) : Bool :=
  match baseline with
  | none => false
  | some instant => runs.any fun r => r.taskId = taskId ∧ instant ≤ r.startedAt

def earlyOccurrence (trig : Trigger) (task : Task) (now : Int) : Option Int :=
  (task.scheduleBaselineAt.bind (nextOccurrence trig task.cron)).filter fun upcoming =>
    0 ≤ upcoming - now ∧ upcoming - now ≤ tickEarlyTolerance

/-- An early tick: the watermark takes the occurrence it is early for. -/
def recordEarly (s : Session) (row : Option TaskDue) (upcoming now : Int) : Ledger :=
  let task := s.work.task
  let due := match row with
    | none => some { taskId := task.id, dueAt := now, status := .due, updatedAt := now }
    | some row =>
      let noted := noteOccurrenceDuringRun s.work.runs row upcoming none
      if noted.1 then some noted.2 else some row
  { s.work with task := { task with scheduleBaselineAt := some upcoming }, due := due }

def recordTick (trig : Trigger) (l : Ledger) (now : Int) : Ledger :=
  if l.task.enabled = false then l
  else
    let (s, row) := reconcileTask trig (Session.begin l) now
    let task := s.work.task
    match earlyOccurrence trig task now with
    | some upcoming => recordEarly s row upcoming now
    | none =>
      if row = none ∧ runCovers s.work.runs task.id task.scheduleBaselineAt = false then
        { s.work with
          task := { task with
            scheduleBaselineAt := some (max (task.scheduleBaselineAt.getD now) now) }
          due := some { taskId := task.id, dueAt := now, status := .due, updatedAt := now } }
      else s.stored

/-- An edit sets an explicit baseline; it never backfills. -/
def onTaskEdited (l : Ledger) (scheduleChanged : Bool) (now : Int) : Ledger :=
  if scheduleChanged ∨ l.task.enabled = false then
    { l with
      task := { l.task with scheduleBaselineAt := some now, scheduleEpochAt := some now }
      due := none }
  else
    match l.due with
    | none => l
    | some row =>
      if row.status = .blocked ∨ row.status = .exhausted then
        { l with due := some { row.rearm with updatedAt := now } }
      else l

end Pullbackup
