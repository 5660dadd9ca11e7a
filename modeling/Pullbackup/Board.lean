import Pullbackup.Freshness
import Pullbackup.Obligation
import Pullbackup.Pump

/- api/tasks.py, api/sources.py and api/system.py: what is shown of the store, next to what
   the handlers would answer. -/
namespace Pullbackup
open KeyedTable History

structure RowClock where
  freshness : Int
  freshnessWall : Int
  missed : Int
  graceWall : Int
  cadenceWall : Int

/-- What the rows read outside the store: the schedules, and the next firing of each job. -/
structure Board where
  trig : Trigger
  croniter : Croniter
  nextRunAt : Nat → Option Int

structure DueFields where
  lastSuccessAt : Option Int
  freshness : Freshness
  queued : Bool := false
  dueAt : Option Int := none
  dueStatus : Option DueStatus := none
  waitReason : Option WaitReason := none
  retryAt : Option Int := none
  dueAttempts : Int := 0
  dueError : Option String := none
  deriving DecidableEq, Repr

structure TaskOut extends TaskFields, DueFields where
  id : Nat
  kumaMonitorId : Option Nat
  kumaPushToken : Option String
  nextRun : Option Int
  lastRunId : Option Nat
  lastRunAt : Option Int
  lastRunState : Option RunState
  missedSchedule : Bool
  deriving DecidableEq, Repr

def DueStatus.queued : DueStatus → Bool
  | .due | .retry => true
  | _ => false

def dueFields (board : Board) (clock : RowClock) (db : Db) (t : Task) : DueFields :=
  let f := projectTask board.trig board.croniter db t clock.freshness clock.freshnessWall
  match db.taskDue.get t.id with
  | none => { lastSuccessAt := f.lastSuccessAt, freshness := f }
  | some row =>
    { lastSuccessAt := f.lastSuccessAt, freshness := f, queued := row.status.queued
      dueAt := some row.dueAt, dueStatus := some row.status, waitReason := row.waitReason
      retryAt := row.retryAt, dueAttempts := row.attempts
      dueError := if row.lastError = "" then none else some row.lastError }

/-- The newest run of a task, the only one a row looks at. -/
def latestRun (runs : List Run) (taskId : Nat) : Option Run :=
  lastBy Run.startedAt (fun r => r.taskId = taskId) runs

def lastActivityAt (t : Task) (last : Option Run) : Int :=
  match last with
  | none => t.createdAt
  | some run => run.finishedAt.getD run.startedAt

def toOut (board : Board) (clock : RowClock) (db : Db) (t : Task) : TaskOut :=
  let last := latestRun db.runs.rows t.id
  { t.toTaskFields, dueFields board clock db t with
    id := t.id, kumaMonitorId := t.kumaMonitorId, kumaPushToken := t.kumaPushToken
    nextRun := board.nextRunAt t.id, lastRunId := last.map Run.id
    lastRunAt := last.map Run.startedAt, lastRunState := last.map Run.state
    missedSchedule := scheduleIsMissed board.croniter t.cron t.enabled (board.nextRunAt t.id)
      (last.any fun run => run.state.active) (some (lastActivityAt t last)) clock.missed
      clock.graceWall clock.cadenceWall }

def listTasks (board : Board) (clock : Nat → RowClock) (db : Db) : List TaskOut :=
  db.tasks.rows.map fun t => toOut board (clock t.id) db t

def getTask (board : Board) (clock : RowClock) (db : Db) (taskId : Nat) : Except HttpError TaskOut :=
  match db.tasks.get taskId with
  | none => .error .notFound
  | some t => .ok (toOut board clock db t)

/-- TasksList.tsx: the control that stops the run of a row. -/
def isStoppable (t : TaskOut) : Bool := t.lastRunState = some .running ∧ t.lastRunId ≠ none

def TaskOut.active (out : TaskOut) : Bool := out.lastRunState.any RunState.active

structure SourceOut extends SourceFields where
  id : Nat
  taskCount : Nat
  deriving DecidableEq, Repr

def sourceOut (s : Source) (taskCount : Nat) : SourceOut :=
  { name := s.name, user := s.user, host := s.host, port := s.port, sshKeyPath := s.sshKeyPath
    description := s.description, id := s.id, taskCount }

def countSource (counts : List (Nat × Nat)) (sourceId : Nat) : List (Nat × Nat) :=
  (sourceId, (counts.lookup sourceId).getD 0 + 1) :: counts

def listSources (db : Db) : List SourceOut :=
  let counts := (db.tasks.rows.map fun t => t.sourceId).foldl countSource []
  db.sources.rows.map fun s => sourceOut s ((counts.lookup s.id).getD 0)

def getSource (db : Db) (sourceId : Nat) : Except HttpError SourceOut :=
  match db.sources.get sourceId with
  | none => .error .notFound
  | some s => .ok (sourceOut s (db.tasks.rows.filter fun t => t.sourceId = s.id).length)

def heartbeatIntervalSeconds : Int := 60
def staleHeartbeatMultiplier : Int := 3

/-- services/scheduler.py: the flag of the scheduler and its last beat. -/
structure Beats where
  running : Bool
  lastHeartbeat : Option Int
  deriving DecidableEq, Repr

structure Liveness where
  running : Bool
  alive : Bool
  lastHeartbeat : Option Int
  heartbeatAge : Option Int
  heartbeatIntervalSeconds : Int
  staleAfterSeconds : Int
  deriving DecidableEq, Repr

def liveness (beats : Beats) (now : Int) : Liveness :=
  let age := beats.lastHeartbeat.map fun beat => now - beat
  let staleAfter := heartbeatIntervalSeconds * staleHeartbeatMultiplier
  { running := beats.running
    alive := beats.running && age.any fun age => age < seconds staleAfter
    lastHeartbeat := beats.lastHeartbeat, heartbeatAge := age
    heartbeatIntervalSeconds := heartbeatIntervalSeconds, staleAfterSeconds := staleAfter }

structure SchedulerHealth where
  scheduler : Liveness
  missedScheduleCount : Nat
  missedScheduleTaskIds : List Nat
  queuedCount : Nat
  queuedTaskIds : List Nat
  staleCount : Nat
  staleTaskIds : List Nat

/-- The list is read twice, each time by its own clocks. -/
def schedulerHealth (board : Board) (first second : Nat → RowClock) (beats : Beats) (now : Int)
    (db : Db) : SchedulerHealth :=
  let missed := ((listTasks board first db).filter TaskOut.missedSchedule).map TaskOut.id
  let queued := (db.taskDue.rows.filter fun row => row.status.queued).map TaskDue.taskId
  let stale :=
    ((listTasks board second db).filter fun out => out.freshness.state = .stale).map TaskOut.id
  { scheduler := liveness beats now
    missedScheduleCount := missed.length, missedScheduleTaskIds := missed.insertionSort (· ≤ ·)
    queuedCount := queued.length, queuedTaskIds := queued.insertionSort (· ≤ ·)
    staleCount := stale.length, staleTaskIds := stale.insertionSort (· ≤ ·) }

/-- No run ended at the very instant it began. -/
def Lasted (runs : List Run) : Prop := ∀ run ∈ runs, run.finishedAt ≠ some run.startedAt

section Latest
variable {runs : List Run} {a : Nat} {c : Int} {r last : Run}

theorem latestRun_some (found : latestRun runs a = some last) :
    last ∈ runs ∧ last.taskId = a ∧ ∀ run ∈ runs, run.taskId = a → run.startedAt ≤ last.startedAt := by
  obtain ⟨mem, owner, newest⟩ := lastBy_some found
  refine ⟨mem, of_decide_eq_true owner, fun run there same => newest run there (by simp [same])⟩

theorem latestRun_none : latestRun runs a = none ↔ ∀ run ∈ runs, run.taskId ≠ a := by
  simp [latestRun, lastBy_eq_none_iff]

theorem latestRun_own : latestRun (runs.filter (ownedBy a)) a = latestRun runs a :=
  lastBy_scope runs fun _ _ owner => owner

theorem over_before_latest (inTurn : InTurn c runs) (lasted : Lasted runs) (mr : r ∈ runs)
    (ml : last ∈ runs) (newest : r.startedAt ≤ last.startedAt) (other : r.id ≠ last.id) :
    r.OverBy last.startedAt := by
  rcases inTurn.apart r mr last ml other with before | after
  · exact before
  · obtain ⟨ended, finish, order⟩ := inTurn.stamped last ml after.1
    have back : ended ≤ r.startedAt := after.2 ended finish
    have instantly : ended = last.startedAt := by omega
    exact absurd (instantly ▸ finish) (lasted last ml)

theorem active_is_latest (inTurn : InTurn c runs) (unique : (runs.map Run.id).Nodup)
    (lasted : Lasted runs) (mr : r ∈ runs) (owner : r.taskId = a) (active : r.state.active = true) :
    latestRun runs a = some r := by
  cases found : latestRun runs a with
  | none => exact absurd owner (latestRun_none.mp found r mr)
  | some last =>
    obtain ⟨ml, -, newest⟩ := latestRun_some found
    by_cases same : r.id = last.id
    · rw [List.inj_on_of_nodup_map unique mr ml same]
    · have before := over_before_latest inTurn lasted mr ml (newest r mr owner) same
      exact absurd active (by simp [before.1])

theorem latest_ended_last (inTurn : InTurn c runs) (unique : (runs.map Run.id).Nodup)
    (lasted : Lasted runs) (found : latestRun runs a = some last) (idle : last.state.active = false)
    (t : Task) : IsGreatest {ended | ∃ run ∈ runs, run.taskId = a ∧ run.finishedAt = some ended}
      (lastActivityAt t (some last)) := by
  obtain ⟨ml, owner, newest⟩ := latestRun_some found
  obtain ⟨ended, finish, order⟩ := inTurn.stamped last ml idle
  have stopped : lastActivityAt t (some last) = ended := by simp [lastActivityAt, finish]
  rw [stopped]
  constructor
  · exact ⟨last, ml, owner, finish⟩
  · rintro other ⟨run, mem, same, finish'⟩
    by_cases own : run.id = last.id
    · rw [List.inj_on_of_nodup_map unique mem ml own, finish] at finish'
      exact (Option.some.inj finish').ge
    · have before := over_before_latest inTurn lasted mem ml (newest run mem same) own
      exact (before.2 other finish').trans order

end Latest

section Reasons
variable {trig : Trigger} {croniter : Croniter} {cron : String} {enabled : Bool}
  {now epochAt wall : Int} {lastSuccess : Option SuccessInfo} {durations : List ℚ} {e : Evidence}
  {holds : FreshReason → Prop}

theorem owedReason_cases (occurrence : Int) {fallback : FreshReason}
    (blocked : e.dueStatus = some .blocked → holds .blocked)
    (exhausted : e.dueStatus = some .exhausted → holds .retriesExhausted)
    (running : e.activeRun = true ∨ e.dueStatus = some .dispatched → holds .running)
    (retrying : e.dueStatus = some .retry → e.activeRun = false → holds .retrying)
    (queued : e.dueStatus = some .due → e.activeRun = false → holds .queued)
    (unowed : e.dueStatus = none → e.activeRun = false →
      holds .lastAttemptFailed ∧ holds .lastAttemptCancelled ∧ holds fallback) :
    holds (owedReason occurrence e fallback) := by
  unfold owedReason
  split
  · rename_i here
    exact blocked here
  split
  · rename_i here
    exact exhausted here
  split
  · rename_i here
    exact running here
  rename_i notBlocked notExhausted notRunning
  have idle : e.activeRun = false := by simpa using fun active => notRunning (Or.inl active)
  split
  · rename_i here
    exact retrying here idle
  split
  · rename_i here
    exact queued here idle
  rename_i notRetry notDue
  have bare : e.dueStatus = none := by
    cases status : e.dueStatus with
    | none => rfl
    | some s => cases s <;> simp_all
  obtain ⟨failed, cancelled, other⟩ := unowed bare idle
  split
  · exact other
  · rename_i state startedAt attempt
    split
    · exact other
    · rename_i reason named
      split
      · cases state <;> simp only [attemptReason, reduceCtorEq, Option.some.injEq] at named
        · exact named ▸ failed
        · exact named ▸ cancelled
      · exact other

theorem owedReason_unexplained {occurrence : Int} {fallback : FreshReason}
    (unexplained : owedReason occurrence e fallback = .neverSucceeded ∨
      owedReason occurrence e fallback = .missed) :
    e.dueStatus = none ∧ e.activeRun = false := by
  revert unexplained
  apply @owedReason_cases e fun reason =>
    reason = .neverSucceeded ∨ reason = .missed → e.dueStatus = none ∧ e.activeRun = false
  · simp
  · simp
  · simp
  · simp
  · simp
  · intro bare idle
    exact ⟨by simp, by simp, fun _ => ⟨bare, idle⟩⟩

theorem project_reason_cases (disabled : enabled = false → holds .disabled)
    (invalid : enabled = true → trig.parses cron = false → holds .invalidSchedule)
    (noHistory : lastSuccess = none → holds .noHistory)
    (served : lastSuccess ≠ none → holds .scheduleChanged ∧ holds .covered)
    (owed : ∀ first, holds
      (owedReason first e (if lastSuccess = none then .neverSucceeded else .missed)))
    (awaiting : ∀ first,
      (owedReason first e (if lastSuccess = none then .neverSucceeded else .missed) =
          .neverSucceeded ∨
        owedReason first e (if lastSuccess = none then .neverSucceeded else .missed) = .missed) →
      holds .awaitingStart) :
    holds (project trig croniter cron enabled now epochAt lastSuccess durations e wall).reason := by
  unfold project
  split
  · rename_i off
    exact disabled off
  split
  · rename_i on unreadable
    exact invalid (by simpa using on) unreadable
  dsimp only
  generalize (if lastSuccess = none then FreshReason.neverSucceeded else .missed) = fallback
    at owed awaiting ⊢
  split
  · cases lastSuccess with
    | none => exact noHistory rfl
    | some success =>
      dsimp only
      split
      · exact (served (by simp)).1
      · exact (served (by simp)).2
  · rename_i first _
    split
    · cases lastSuccess with
      | none => exact noHistory rfl
      | some success =>
        dsimp only
        split
        · exact (served (by simp)).1
        · exact (served (by simp)).2
    · split
      · dsimp only [Freshness.of]
        split
        · rename_i unexplained
          exact awaiting first unexplained
        · exact owed first
      · exact owed first

theorem project_lastSuccess :
    (project trig croniter cron enabled now epochAt lastSuccess durations e wall).lastSuccessAt =
      lastSuccess.map SuccessInfo.finishedAt := by
  unfold project
  split
  · rfl
  split
  · rfl
  dsimp only
  split
  · cases lastSuccess with
    | none => rfl
    | some success => dsimp only; split <;> rfl
  · split
    · cases lastSuccess with
      | none => rfl
      | some success => dsimp only; split <;> rfl
    · split <;> rfl

end Reasons

/-- The instant work on a task last stopped, or its creation when it never ran. -/
def LastStopped (db : Db) (a : Nat) (instant : Int) : Prop :=
  ((∀ run ∈ db.runs.rows, run.taskId ≠ a) ∧ ∃ t, db.tasks.get a = some t ∧ instant = t.createdAt) ∨
    IsGreatest {ended | ∃ run ∈ db.runs.rows, run.taskId = a ∧ run.finishedAt = some ended} instant

/-- What a reason of the freshness promises about the rest of its row. -/
def Explained (board : Board) (out : TaskOut) : FreshReason → Prop
  | .disabled => out.enabled = false
  | .invalidSchedule => out.enabled = true ∧ board.trig.parses out.cron = false
  | .noHistory => out.lastSuccessAt = none
  | .covered | .scheduleChanged => out.lastSuccessAt ≠ none
  | .neverSucceeded => out.lastSuccessAt = none ∧ out.dueStatus = none ∧ out.active = false
  | .missed => out.lastSuccessAt ≠ none ∧ out.dueStatus = none ∧ out.active = false
  | .awaitingStart | .lastAttemptFailed | .lastAttemptCancelled =>
    out.dueStatus = none ∧ out.active = false
  | .queued => out.queued = true ∧ out.dueStatus = some .due ∧ out.active = false
  | .retrying =>
    out.queued = true ∧ out.dueStatus = some .retry ∧ out.active = false ∧ out.retryAt ≠ none ∧
      1 ≤ out.dueAttempts ∧ out.dueAttempts ≤ maxAutomaticRetries
  | .running => out.active = true ∨ out.dueStatus = some .dispatched
  | .retriesExhausted =>
    out.queued = false ∧ out.dueStatus = some .exhausted ∧ out.retryAt = none ∧
      out.dueAttempts = maxAutomaticRetries + 1
  | .blocked => out.queued = false ∧ out.dueStatus = some .blocked

/-- A row of the list and what the handlers would answer at this moment. -/
structure RowTells (board : Board) (clock : RowClock) (db : Db) (rows : List TaskOut)
    (out : TaskOut) : Prop where
  active : out.active = taskActive db out.id
  stop : ∀ id, (isStoppable out = true ∧ out.lastRunId = some id) ↔
    ∃ run ∈ db.runs.rows, run.id = id ∧ run.taskId = out.id ∧ run.state = .running
  quiet : out.active = true → out.missedSchedule = false
  missed : out.active = false → ∃ activity, LastStopped db out.id activity ∧
    out.missedSchedule = scheduleIsMissed board.croniter out.cron out.enabled out.nextRun false
      (some activity) clock.missed clock.graceWall clock.cadenceWall
  reason : Explained board out out.freshness.reason
  remove : (∃ db', deleteTask db out.id = .ok db') ↔ out.active = false
  run : ∀ stamp, (∃ db' id, admitRun db out.id stamp = some (db', .accepted id)) ↔
    ∀ other ∈ rows, other.sourceId = out.sourceId → other.active = false

section Rows
variable {env : Env} {s : Service} {db : Db} {board : Board} {clock : Nat → RowClock} {t : Task}

theorem taskActive_iff_run {a : Nat} : taskActive db a = true ↔
    ∃ run ∈ db.runs.rows, run.taskId = a ∧ run.state.active = true := by
  simp [taskActive]

theorem evidence_active (db : Db) (a : Nat) : (evidenceOf db a).activeRun = taskActive db a := by
  simp [evidenceOf, taskActive]

@[simp] theorem toOut_id (clock : RowClock) : (toOut board clock db t).id = t.id := rfl

@[simp] theorem toOut_sourceId (clock : RowClock) :
    (toOut board clock db t).sourceId = t.sourceId := rfl

theorem toOut_active (clock : RowClock) : (toOut board clock db t).active =
    (latestRun db.runs.rows t.id).any fun run => run.state.active := by
  unfold TaskOut.active toOut
  cases latestRun db.runs.rows t.id <;> rfl

theorem mem_listTasks {out : TaskOut} : out ∈ listTasks board clock db ↔
    ∃ t ∈ db.tasks.rows, toOut board (clock t.id) db t = out := List.mem_map

theorem toOut_due (board : Board) (clock : RowClock) (db : Db) (t : Task) :
    (toOut board clock db t).dueStatus = (db.taskDue.get t.id).map TaskDue.status ∧
    (toOut board clock db t).queued = (db.taskDue.get t.id).any (fun row => row.status.queued) ∧
    (toOut board clock db t).retryAt = (db.taskDue.get t.id).bind TaskDue.retryAt ∧
    (toOut board clock db t).dueAttempts = ((db.taskDue.get t.id).map TaskDue.attempts).getD 0 := by
  unfold toOut dueFields
  cases db.taskDue.get t.id <;> simp

theorem toOut_owed (clock : RowClock) {status : DueStatus}
    (shown : (toOut board clock db t).dueStatus = some status) : ∃ row,
      db.taskDue.get t.id = some row ∧ row.status = status ∧
        (toOut board clock db t).queued = status.queued ∧
        (toOut board clock db t).retryAt = row.retryAt ∧
        (toOut board clock db t).dueAttempts = row.attempts := by
  obtain ⟨due, queued, retryAt, attempts⟩ := toOut_due board clock db t
  rw [due] at shown
  obtain ⟨row, owed, is⟩ := Option.map_eq_some_iff.mp shown
  rw [owed] at queued retryAt attempts
  exact ⟨row, owed, is, is ▸ queued, retryAt, attempts⟩

theorem reachable_runs (reachable : Reachable env s) (stored : t ∈ s.db.tasks.rows) :
    InTurn s.clock (s.db.runs.rows.filter (ownedBy t.id)) ∧
      ((s.db.runs.rows.filter (ownedBy t.id)).map Run.id).Nodup := by
  have found : s.db.tasks.get t.id = some t := Table.get_of_mem stored
  have view := view_eq s.db t.id
  rw [found, Option.map_some] at view
  exact ⟨reachable_inTurn reachable view, (view_wf (reachable_linked reachable) view).unique⟩

theorem lasted_own (lasted : Lasted db.runs.rows) (a : Nat) :
    Lasted (db.runs.rows.filter (ownedBy a)) :=
  fun run mem => lasted run (List.mem_of_mem_filter mem)

theorem latest_of_active (reachable : Reachable env s) (lasted : Lasted s.db.runs.rows)
    (stored : t ∈ s.db.tasks.rows) {run : Run} (mem : run ∈ s.db.runs.rows)
    (owner : run.taskId = t.id) (active : run.state.active = true) :
    latestRun s.db.runs.rows t.id = some run := by
  obtain ⟨inTurn, unique⟩ := reachable_runs reachable stored
  have own : run ∈ s.db.runs.rows.filter (ownedBy t.id) :=
    List.mem_filter.mpr ⟨mem, by simp [ownedBy, owner]⟩
  rw [← latestRun_own]
  exact active_is_latest inTurn unique (lasted_own lasted t.id) own owner active

/-- The newest row answers the question that admission asks of all of them. -/
theorem toOut_active_eq (reachable : Reachable env s) (lasted : Lasted s.db.runs.rows)
    (stored : t ∈ s.db.tasks.rows) (clock : RowClock) :
    (toOut board clock s.db t).active = taskActive s.db t.id := by
  rw [toOut_active, Bool.eq_iff_iff, taskActive_iff_run]
  constructor
  · intro newest
    cases found : latestRun s.db.runs.rows t.id with
    | none => simp [found] at newest
    | some run =>
      obtain ⟨mem, owner, -⟩ := latestRun_some found
      exact ⟨run, mem, owner, by simpa [found] using newest⟩
  · rintro ⟨run, mem, owner, active⟩
    rw [latest_of_active reachable lasted stored mem owner active]
    exact active

theorem toOut_stop (reachable : Reachable env s) (lasted : Lasted s.db.runs.rows)
    (stored : t ∈ s.db.tasks.rows) (clock : RowClock) (id : Nat) :
    (isStoppable (toOut board clock s.db t) = true ∧
        (toOut board clock s.db t).lastRunId = some id) ↔
      ∃ run ∈ s.db.runs.rows, run.id = id ∧ run.taskId = t.id ∧ run.state = .running := by
  have shown : (isStoppable (toOut board clock s.db t) = true ∧
      (toOut board clock s.db t).lastRunId = some id) ↔
        ∃ run, latestRun s.db.runs.rows t.id = some run ∧ run.id = id ∧ run.state = .running := by
    unfold isStoppable toOut
    cases latestRun s.db.runs.rows t.id with
    | none => simp
    | some run => simp [and_comm]
  rw [shown]
  constructor
  · rintro ⟨run, found, id, running⟩
    obtain ⟨mem, owner, -⟩ := latestRun_some found
    exact ⟨run, mem, id, owner, running⟩
  · rintro ⟨run, mem, id, owner, running⟩
    have found := latest_of_active reachable lasted stored mem owner (by simp [running])
    exact ⟨run, found, id, running⟩

theorem toOut_missed (reachable : Reachable env s) (lasted : Lasted s.db.runs.rows)
    (stored : t ∈ s.db.tasks.rows) (clock : RowClock)
    (idle : (toOut board clock s.db t).active = false) :
    ∃ activity, LastStopped s.db t.id activity ∧
      (toOut board clock s.db t).missedSchedule =
        scheduleIsMissed board.croniter t.cron t.enabled (board.nextRunAt t.id) false
          (some activity) clock.missed clock.graceWall clock.cadenceWall := by
  have flag : (toOut board clock s.db t).missedSchedule =
      scheduleIsMissed board.croniter t.cron t.enabled (board.nextRunAt t.id)
        (toOut board clock s.db t).active
        (some (lastActivityAt t (latestRun s.db.runs.rows t.id))) clock.missed clock.graceWall
        clock.cadenceWall := by
    rw [toOut_active]
    rfl
  rw [idle] at flag
  refine ⟨_, ?_, flag⟩
  cases found : latestRun s.db.runs.rows t.id with
  | none =>
    exact Or.inl ⟨latestRun_none.mp found, t, Table.get_of_mem stored, rfl⟩
  | some last =>
    right
    rw [toOut_active, found] at idle
    obtain ⟨inTurn, unique⟩ := reachable_runs reachable stored
    rw [← latestRun_own] at found
    have last_end := latest_ended_last inTurn unique (lasted_own lasted t.id) found idle t
    have own : {ended | ∃ run ∈ s.db.runs.rows.filter (ownedBy t.id), run.taskId = t.id ∧
          run.finishedAt = some ended} =
        {ended | ∃ run ∈ s.db.runs.rows, run.taskId = t.id ∧ run.finishedAt = some ended} := by
      ext ended
      constructor
      · rintro ⟨run, mem, rest⟩
        exact ⟨run, List.mem_of_mem_filter mem, rest⟩
      · rintro ⟨run, mem, owner, rest⟩
        exact ⟨run, List.mem_filter.mpr ⟨mem, by simp [ownedBy, owner]⟩, owner, rest⟩
    rwa [own] at last_end

theorem reachable_row (reachable : Reachable env s) {a : Nat} {row : TaskDue}
    (owed : s.db.taskDue.get a = some row) : ∃ runs, row.Sound runs := by
  obtain ⟨l, view, here⟩ := view_of_row (reachable_linked reachable) owed
  exact ⟨l.runs, reachable_sound reachable view row here⟩

theorem toOut_lastSuccess (board : Board) (clock : RowClock) (db : Db) (t : Task) :
    (toOut board clock db t).lastSuccessAt =
      ((successes db.runs.rows t.id).head?.map Run.successInfo).map SuccessInfo.finishedAt := by
  have projected : (toOut board clock db t).lastSuccessAt =
      (projectTask board.trig board.croniter db t clock.freshness clock.freshnessWall).lastSuccessAt := by
    unfold toOut dueFields
    cases db.taskDue.get t.id <;> rfl
  rw [projected]
  exact project_lastSuccess

theorem toOut_freshness (clock : RowClock) : (toOut board clock db t).freshness =
    projectTask board.trig board.croniter db t clock.freshness clock.freshnessWall := by
  unfold toOut dueFields
  cases db.taskDue.get t.id <;> rfl

theorem toOut_explained (reachable : Reachable env s) (lasted : Lasted s.db.runs.rows)
    (stored : t ∈ s.db.tasks.rows) (clock : RowClock) :
    Explained board (toOut board clock s.db t) (toOut board clock s.db t).freshness.reason := by
  have active : (evidenceOf s.db t.id).activeRun = (toOut board clock s.db t).active :=
    (evidence_active s.db t.id).trans (toOut_active_eq reachable lasted stored clock).symm
  have status : (evidenceOf s.db t.id).dueStatus = (toOut board clock s.db t).dueStatus :=
    (toOut_due board clock s.db t).1.symm
  have success := toOut_lastSuccess board clock s.db t
  rw [toOut_freshness]
  unfold projectTask
  dsimp only
  generalize (successes s.db.runs.rows t.id).head?.map Run.successInfo = lastSuccess at success ⊢
  apply project_reason_cases
  · exact fun off => off
  · exact fun on unreadable => ⟨on, unreadable⟩
  · intro none
    simp [Explained, success, none]
  · intro nonempty
    have known : (toOut board clock s.db t).lastSuccessAt ≠ none := by simpa [success] using nonempty
    exact ⟨known, known⟩
  · intro first
    apply owedReason_cases
    all_goals rw [status]
    · intro shown
      obtain ⟨row, -, -, queued, -⟩ := toOut_owed clock shown
      exact ⟨queued, shown⟩
    · intro shown
      obtain ⟨row, owed, is, queued, retryAt, attempts⟩ := toOut_owed clock shown
      obtain ⟨runs, sound⟩ := reachable_row reachable owed
      obtain ⟨spent, unset, -⟩ := sound.exhausted is
      exact ⟨queued, shown, retryAt.trans unset, attempts.trans spent⟩
    · rw [active]
      exact fun running => running
    · rw [active]
      intro shown idle
      obtain ⟨row, owed, is, queued, retryAt, attempts⟩ := toOut_owed clock shown
      obtain ⟨runs, sound⟩ := reachable_row reachable owed
      obtain ⟨one, most, dated, -⟩ := sound.retry is
      exact ⟨queued, shown, idle, retryAt ▸ dated, attempts ▸ one, attempts ▸ most⟩
    · rw [active]
      intro shown idle
      obtain ⟨row, -, -, queued, -⟩ := toOut_owed clock shown
      exact ⟨queued, shown, idle⟩
    · rw [active]
      intro bare idle
      refine ⟨⟨bare, idle⟩, ⟨bare, idle⟩, ?_⟩
      split
      · rename_i none
        exact ⟨by simp [success, none], bare, idle⟩
      · rename_i nonempty
        exact ⟨by simpa [success] using nonempty, bare, idle⟩
  · intro first unexplained
    obtain ⟨bare, idle⟩ := owedReason_unexplained unexplained
    exact ⟨status ▸ bare, active ▸ idle⟩

theorem deleteTask_ok_iff (stored : t ∈ db.tasks.rows) :
    (∃ db', deleteTask db t.id = .ok db') ↔ taskActive db t.id = false := by
  have found : db.tasks.get t.id = some t := Table.get_of_mem stored
  unfold deleteTask
  rw [found]
  cases taskActive db t.id <;> simp

theorem sourceActive_iff {a : Nat} : sourceActive db a = true ↔
    ∃ t ∈ db.tasks.rows, t.sourceId = a ∧ taskActive db t.id = true := by
  simp only [sourceActive, List.any_eq_true, Bool.and_eq_true]
  constructor
  · rintro ⟨run, mem, active, joined⟩
    cases found : db.tasks.get run.taskId with
    | none => simp [found] at joined
    | some t =>
      have key : t.id = run.taskId := Table.key_of_get found
      refine ⟨t, Table.mem_of_get found, by simpa [found] using joined, ?_⟩
      exact taskActive_iff_run.mpr ⟨run, mem, key.symm, active⟩
  · rintro ⟨t, stored, source, busy⟩
    obtain ⟨run, mem, owner, active⟩ := taskActive_iff_run.mp busy
    have found : db.tasks.get run.taskId = some t := owner ▸ Table.get_of_mem stored
    exact ⟨run, mem, active, by simp [found, source]⟩

theorem admitRun_accepts_iff (stored : t ∈ db.tasks.rows) (stamp : Stamp) :
    (∃ db' id, admitRun db t.id stamp = some (db', .accepted id)) ↔
      ∀ u ∈ db.tasks.rows, u.sourceId = t.sourceId → taskActive db u.id = false := by
  have found : db.tasks.get t.id = some t := Table.get_of_mem stored
  have free : sourceActive db t.sourceId = false ↔
      ∀ u ∈ db.tasks.rows, u.sourceId = t.sourceId → taskActive db u.id = false := by
    rw [← Bool.not_eq_true, sourceActive_iff]
    simp
  rw [← free]
  unfold admitRun
  rw [found]
  dsimp only
  split
  · rename_i busy
    have source : sourceActive db t.sourceId = true := sourceActive_iff.mpr ⟨t, stored, rfl, busy⟩
    simp [source]
  · split
    · rename_i source
      simp [source]
    · rename_i source
      simp [Bool.not_eq_true _ ▸ source]

theorem rowTells (reachable : Reachable env s) (lasted : Lasted s.db.runs.rows) {out : TaskOut}
    (listed : out ∈ listTasks board clock s.db) :
    RowTells board (clock out.id) s.db (listTasks board clock s.db) out := by
  obtain ⟨t, stored, rfl⟩ := mem_listTasks.mp listed
  have active : ∀ u ∈ s.db.tasks.rows,
      (toOut board (clock u.id) s.db u).active = taskActive s.db u.id :=
    fun u mem => toOut_active_eq reachable lasted mem (clock u.id)
  constructor
  · exact active t stored
  · exact toOut_stop reachable lasted stored (clock t.id)
  · intro busy
    rw [toOut_active] at busy
    simp [toOut, busy, scheduleIsMissed]
  · exact toOut_missed reachable lasted stored (clock t.id)
  · exact toOut_explained reachable lasted stored (clock t.id)
  · rw [active t stored]
    exact deleteTask_ok_iff stored
  · intro stamp
    refine (admitRun_accepts_iff stored stamp).trans ⟨?_, ?_⟩
    · intro free other there same
      obtain ⟨u, mem, rfl⟩ := mem_listTasks.mp there
      exact (active u mem).trans (free u mem same)
    · intro free u mem same
      exact (active u mem).symm.trans (free _ (mem_listTasks.mpr ⟨u, mem, rfl⟩) same)

end Rows

/-- A source of the list and what the other requests say of it. -/
structure SourceTells (db : Db) (rows : List TaskOut) (out : SourceOut) : Prop where
  alone : getSource db out.id = .ok out
  counted : out.taskCount = (rows.filter fun row => row.sourceId = out.id).length
  remove : (∃ db', deleteSource db out.id = .ok db') ↔ out.taskCount = 0

section Sources
variable {db : Db} {board : Board} {clock : Nat → RowClock}

theorem countSource_foldl (ids : List Nat) (counts : List (Nat × Nat)) (k : Nat) :
    ((ids.foldl countSource counts).lookup k).getD 0 =
      (counts.lookup k).getD 0 + ids.count k := by
  induction ids generalizing counts with
  | nil => simp
  | cons id ids ih =>
    rw [List.foldl_cons, ih, List.count_cons]
    by_cases same : k = id
    · subst same
      simp [countSource]
      omega
    · have other : (k == id) = false := by simp [same]
      have apart : (id == k) = false := by simp [Ne.symm same]
      simp [countSource, List.lookup_cons, other, apart]

theorem count_sources (db : Db) (k : Nat) : (db.tasks.rows.map fun t => t.sourceId).count k =
    (db.tasks.rows.filter fun t => t.sourceId = k).length := by
  rw [List.count, List.countP_map, List.countP_eq_length_filter]
  congr 1

theorem sourceTells {out : SourceOut} (listed : out ∈ listSources db) :
    SourceTells db (listTasks board clock db) out := by
  obtain ⟨source, stored, rfl⟩ := List.mem_map.mp listed
  have found : db.sources.get source.id = some source := Table.get_of_mem stored
  have count : (((db.tasks.rows.map fun t => t.sourceId).foldl countSource []).lookup
      source.id).getD 0 = (db.tasks.rows.filter fun t => t.sourceId = source.id).length := by
    rw [countSource_foldl, ← count_sources]
    simp
  rw [count]
  constructor
  · simp [getSource, sourceOut, found]
  · unfold listTasks
    rw [List.filter_map, List.length_map]
    rfl
  · have named : (sourceOut source
        (db.tasks.rows.filter fun t => t.sourceId = source.id).length).id = source.id := rfl
    rw [named]
    unfold deleteSource
    rw [found]
    dsimp only
    split
    · rename_i has
      have nonempty : (db.tasks.rows.filter fun t => t.sourceId = source.id) ≠ [] := by
        simpa using has
      simp [sourceOut, nonempty]
    · rename_i bare
      have none : (db.tasks.rows.filter fun t => t.sourceId = source.id) = [] := by
        simpa using bare
      simp [sourceOut, none]

end Sources

/-- The lists of the health answer, next to the list of tasks. -/
structure HealthTells (db : Db) (rows : List TaskOut) (health : SchedulerHealth) : Prop where
  queued : health.queuedTaskIds = ((rows.filter fun out => out.queued).map TaskOut.id).insertionSort (· ≤ ·)
  queuedCount : health.queuedCount = (rows.filter fun out => out.queued).length
  missed : ∀ id ∈ health.missedScheduleTaskIds, ∃ t, db.tasks.get id = some t ∧
    t.enabled = true ∧ taskActive db id = false
  stale : ∀ id ∈ health.staleTaskIds, ∃ t, db.tasks.get id = some t ∧ t.enabled = true

section Health
variable {env : Env} {s : Service} {db : Db} {board : Board} {clock : Nat → RowClock} {t : Task}

theorem insertionSort_perm {xs ys : List Nat} (same : xs.Perm ys) :
    xs.insertionSort (· ≤ ·) = ys.insertionSort (· ≤ ·) := by
  have shuffled : (xs.insertionSort (· ≤ ·)).Perm (ys.insertionSort (· ≤ ·)) :=
    (List.perm_insertionSort _ xs).trans (same.trans (List.perm_insertionSort _ ys).symm)
  exact shuffled.eq_of_pairwise (fun _ _ _ _ ab ba => Nat.le_antisymm ab ba)
    (List.pairwise_insertionSort _ xs) (List.pairwise_insertionSort _ ys)

theorem queued_perm (board : Board) (clock : Nat → RowClock) (linked : db.Linked) :
    ((db.taskDue.rows.filter fun row => row.status.queued).map TaskDue.taskId).Perm
      (((listTasks board clock db).filter fun out => out.queued).map TaskOut.id) := by
  have owing : ((db.taskDue.rows.filter fun row => row.status.queued).map TaskDue.taskId).Nodup :=
    db.taskDue.unique.sublist (List.filter_sublist.map _)
  have ids : (listTasks board clock db).map TaskOut.id = db.tasks.rows.map Task.id := by
    simp [listTasks]
  have listed : (((listTasks board clock db).filter fun out => out.queued).map TaskOut.id).Nodup := by
    have all : ((listTasks board clock db).map TaskOut.id).Nodup := ids ▸ db.tasks.unique
    exact all.sublist (List.filter_sublist.map _)
  refine (List.perm_ext_iff_of_nodup owing listed).mpr fun a => ?_
  simp only [List.mem_map, List.mem_filter]
  constructor
  · rintro ⟨row, ⟨mem, waits⟩, rfl⟩
    obtain ⟨t, found⟩ := Option.isSome_iff_exists.mp (linked.owed row mem)
    have key : t.id = row.taskId := Table.key_of_get found
    have owed : db.taskDue.get t.id = some row := key ▸ Table.get_of_mem mem
    refine ⟨toOut board (clock t.id) db t, ⟨mem_listTasks.mpr ⟨t, Table.mem_of_get found, rfl⟩, ?_⟩, key⟩
    rw [(toOut_due board (clock t.id) db t).2.1, owed]
    exact waits
  · rintro ⟨out, ⟨there, waits⟩, rfl⟩
    obtain ⟨t, -, rfl⟩ := mem_listTasks.mp there
    rw [(toOut_due board (clock t.id) db t).2.1] at waits
    cases owed : db.taskDue.get t.id with
    | none => simp [owed] at waits
    | some row =>
      exact ⟨row, ⟨Table.mem_of_get owed, by simpa [owed] using waits⟩, Table.key_of_get owed⟩

theorem project_disabled {trig : Trigger} {croniter : Croniter} {cron : String}
    {now epochAt wall : Int} {lastSuccess : Option SuccessInfo} {durations : List ℚ} {e : Evidence} :
    (project trig croniter cron false now epochAt lastSuccess durations e wall).state = .disabled := by
  simp [project, Freshness.of]

theorem healthTells (reachable : Reachable env s) (lasted : Lasted s.db.runs.rows)
    (second : Nat → RowClock) (beats : Beats) (now : Int) :
    HealthTells s.db (listTasks board clock s.db)
      (schedulerHealth board clock second beats now s.db) := by
  have linked := reachable_linked reachable
  constructor
  · exact insertionSort_perm (queued_perm board clock linked)
  · have same := (queued_perm board clock linked).length_eq
    simpa [schedulerHealth] using same
  · intro id mem
    obtain ⟨out, flagged, rfl⟩ := List.mem_map.mp ((List.mem_insertionSort _).mp mem)
    obtain ⟨there, missed⟩ := List.mem_filter.mp flagged
    have tells := rowTells reachable lasted there
    obtain ⟨t, stored, rfl⟩ := mem_listTasks.mp there
    refine ⟨t, Table.get_of_mem stored, ?_, ?_⟩
    · cases on : t.enabled with
      | true => rfl
      | false => simp [toOut, scheduleIsMissed, on] at missed
    · cases busy : taskActive s.db (toOut board (clock t.id) s.db t).id with
      | false => rfl
      | true =>
        have quiet := tells.quiet (tells.active.trans busy)
        rw [quiet] at missed
        cases missed
  · intro id mem
    obtain ⟨out, flagged, rfl⟩ := List.mem_map.mp ((List.mem_insertionSort _).mp mem)
    obtain ⟨there, stale⟩ := List.mem_filter.mp flagged
    obtain ⟨t, stored, rfl⟩ := mem_listTasks.mp there
    refine ⟨t, Table.get_of_mem stored, ?_⟩
    cases on : t.enabled with
    | true => rfl
    | false =>
      rw [toOut_freshness] at stale
      simp [projectTask, on, project_disabled] at stale

end Health

/-- In every state the service reaches in which no run ended at the instant it began, what is
    shown agrees with what the handlers would answer: a row with the runs of its task, its
    reason, a deletion and a manual run; a source with its tasks; the health lists with the
    rows. -/
theorem board_tells {env : Env} {s : Service} (reachable : Reachable env s)
    (lasted : Lasted s.db.runs.rows) (board : Board) (first second : Nat → RowClock)
    (beats : Beats) (now : Int) :
    (∀ out ∈ listTasks board first s.db, getTask board (first out.id) s.db out.id = .ok out ∧
      RowTells board (first out.id) s.db (listTasks board first s.db) out) ∧
    (∀ out ∈ listSources s.db, SourceTells s.db (listTasks board first s.db) out) ∧
    HealthTells s.db (listTasks board first s.db)
      (schedulerHealth board first second beats now s.db) := by
  refine ⟨fun out listed => ⟨?_, rowTells reachable lasted listed⟩, fun out => sourceTells,
    healthTells reachable lasted second beats now⟩
  obtain ⟨t, stored, rfl⟩ := mem_listTasks.mp listed
  have found : s.db.tasks.get t.id = some t := Table.get_of_mem stored
  simp [getTask, found]

namespace Sample

def noticeBoard : Board :=
  ⟨everyMinute, everyMinute.nextFireTime, fun _ => some (seconds 120)⟩

def noticed : Nat → RowClock := fun _ =>
  ⟨seconds 70, seconds 70, seconds 70, seconds 70, seconds 70⟩

end Sample

theorem running_board_tells :
    (∀ out ∈ listTasks Sample.noticeBoard Sample.noticed Sample.running.db,
      getTask Sample.noticeBoard (Sample.noticed out.id) Sample.running.db out.id = .ok out ∧
        RowTells Sample.noticeBoard (Sample.noticed out.id) Sample.running.db
          (listTasks Sample.noticeBoard Sample.noticed Sample.running.db) out) ∧
    (∀ out ∈ listSources Sample.running.db, SourceTells Sample.running.db
      (listTasks Sample.noticeBoard Sample.noticed Sample.running.db) out) ∧
    HealthTells Sample.running.db
      (listTasks Sample.noticeBoard Sample.noticed Sample.running.db)
      (schedulerHealth Sample.noticeBoard Sample.noticed Sample.noticed
        ⟨true, some (seconds 60)⟩ (seconds 70) Sample.running.db) :=
  board_tells Sample.running_reachable (by unfold Lasted; decide) Sample.noticeBoard Sample.noticed
    Sample.noticed
    ⟨true, some (seconds 60)⟩ (seconds 70)

/-- Its one run is under way, so the row can be stopped and is not flagged. -/
example : (listTasks Sample.noticeBoard Sample.noticed Sample.running.db).map
    (fun out => (isStoppable out, out.lastRunId, out.missedSchedule, out.queued)) =
      [(true, some 1, false, false)] := by decide +kernel

end Pullbackup
