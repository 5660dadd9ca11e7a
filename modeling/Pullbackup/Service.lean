import Pullbackup.Dispatcher
import Pullbackup.Library.History
import Pullbackup.Tasks

/- The service as one state machine: the database, the clock, and every
   transaction that changes them. The requests, the cron callbacks, the pump,
   the watchdog and the executions interleave at these transactions. -/
namespace Pullbackup
open KeyedTable History

structure Env where
  trig : Trigger
  maxConcurrentRuns : Nat

inductive Op where
  | reconcile (task : Nat) (now : Int)
  | tick (task : Nat) (now : Int)
  | settle (now : Int)
  | dispatch (probe : Probe) (now : Int) (stamps : List Stamp)
  | runNow (task : Nat) (stamp : Stamp)
  | start (run : Nat) (now : Int)
  | finish (run : Nat) (ending : Ending) (cancelRequested : Bool) (stats : Stats) (now : Int)
  | abandon (run : Nat) (reason : OwnerExit) (cancelRequested : Bool) (now : Int)
  | sweep (owners : List Nat) (now : Int)
  | restart (now : Int)
  | createTask (data : TaskFields) (now : Int)
  | updateTask (task : Nat) (data : TaskFields) (now : Int)
  | deleteTask (task : Nat)
  | createSource (data : SourceFields) (now : Int)
  | updateSource (source : Nat) (data : SourceFields)
  | deleteSource (source : Nat)

/-- The clock readings of a transaction, in the order it takes them. -/
def Op.readings : Op → List Int
  | .reconcile _ now | .tick _ now | .settle now | .start _ now => [now]
  | .dispatch _ now stamps => now :: stamps.flatMap fun s => [s.ts, s.startedAt]
  | .runNow _ stamp => [stamp.ts, stamp.startedAt]
  | .finish _ _ _ _ now | .abandon _ _ _ now | .sweep _ now | .restart now => [now]
  | .createTask _ now | .updateTask _ _ now | .createSource _ now => [now]
  | .deleteTask _ | .updateSource _ _ | .deleteSource _ => []

def Db.ledger (db : Db) (taskId : Nat) : Option Ledger :=
  (db.tasks.get taskId).map fun task =>
    { task := task, due := db.taskDue.get taskId, runs := db.runs.rows }

def Db.onLedger (db : Db) (taskId : Nat) (f : Ledger → Ledger) : Db :=
  match db.ledger taskId with
  | none => db
  | some l =>
    { db with tasks := db.tasks.put (f l).task, taskDue := db.taskDue.write taskId (f l).due }

/-- A request that is refused, or a call that raises, changes nothing. -/
def Db.orElse {ε : Type} (db : Db) : Except ε Db → Db
  | .ok db' => db'
  | .error _ => db

def apply (env : Env) (op : Op) (db : Db) : Db :=
  match op with
  | .reconcile task now => db.onLedger task fun l => reconcileOne env.trig l now
  | .tick task now => db.onLedger task fun l => recordTick env.trig l now
  | .settle now => settleAll db now
  | .dispatch probe now stamps => (dispatchDue env.maxConcurrentRuns probe db now stamps).db
  | .runNow task stamp => ((admitRun db task stamp).map Prod.fst).getD db
  | .start run now => db.orElse (startRun db run now)
  | .finish run ending requested stats now =>
    -- only the body of an execution that turned the row running gets here
    if (db.runs.get run).any fun r => r.state = .running then
      finishRun db run ending requested stats now
    else db
  | .abandon run reason requested now =>
    (terminalizeOwnedRun db run reason.message requested now).1
  | .sweep owners now => sweepOrphanedRuns db owners now
  | .restart now => reconcileStaleRuns db now
  | .createTask data now => db.orElse (createTask db data now)
  | .updateTask task data now => db.orElse (updateTask db task data now)
  | .deleteTask task => db.orElse (deleteTask db task)
  | .createSource data now => db.orElse (createSource db data now)
  | .updateSource source data => db.orElse (updateSource db source data)
  | .deleteSource source => db.orElse (deleteSource db source)

structure Service where
  db : Db
  clock : Int

def Service.init (clock : Int) : Service := ⟨.empty, clock⟩

/-- The clock never goes back, between transactions or inside one. -/
def Service.Timely (s : Service) (op : Op) : Prop :=
  (s.clock :: op.readings).Pairwise (· ≤ ·)

instance (s : Service) (op : Op) : Decidable (s.Timely op) :=
  inferInstanceAs (Decidable (List.Pairwise _ _))

def Service.next (env : Env) (s : Service) (op : Op) : Service :=
  ⟨apply env op s.db, op.readings.getLast?.getD s.clock⟩

def Step (env : Env) (s : Service) (op : Op) (s' : Service) : Prop :=
  s.Timely op ∧ s' = s.next env op

/-- The states the service reaches from an empty database. -/
def Reachable (env : Env) (s : Service) : Prop :=
  ∃ clock ops, Trace (Step env) (Service.init clock) ops s

theorem reading_le_clock {env : Env} {s s' : Service} {op : Op} (step : Step env s op s')
    {t : Int} (mem : t ∈ op.readings) : s.clock ≤ t ∧ t ≤ s'.clock := by
  obtain ⟨timely, rfl⟩ := step
  obtain ⟨after, sorted⟩ := List.pairwise_cons.mp timely
  refine ⟨after t mem, ?_⟩
  obtain ⟨init, last, shape⟩ : ∃ init last, op.readings = init ++ [last] := by
    rcases List.eq_nil_or_concat op.readings with empty | ⟨init, last, shape⟩
    · simp [empty] at mem
    · exact ⟨init, last, by simpa using shape⟩
  rw [shape] at mem sorted
  have lastReading : (s.next env op).clock = last := by simp [Service.next, shape]
  rw [lastReading]
  rcases List.mem_append.mp mem with early | final
  · exact (List.pairwise_append.mp sorted).2.2 t early last (by simp)
  · exact le_of_eq (by simpa using final)

theorem clock_le {env : Env} {s s' : Service} {op : Op} (step : Step env s op s') :
    s.clock ≤ s'.clock := by
  cases readings : op.readings with
  | nil => simp [step.2, Service.next, readings]
  | cons t ts =>
    have bounds := reading_le_clock step (t := t) (by simp [readings])
    exact le_trans bounds.1 bounds.2

theorem stamp_le_clock {env : Env} {s s' : Service} {probe : Probe} {now : Int}
    {stamps : List Stamp} (step : Step env s (.dispatch probe now stamps) s') {stamp : Stamp}
    (mem : stamp ∈ stamps ∨ stamp = ⟨now, now⟩) :
    now ≤ stamp.startedAt ∧ stamp.startedAt ≤ s'.clock := by
  have first : now ∈ (Op.dispatch probe now stamps).readings := by simp [Op.readings]
  rcases mem with listed | rfl
  · have reading : stamp.startedAt ∈ (Op.dispatch probe now stamps).readings := by
      simp only [Op.readings, List.mem_cons, List.mem_flatMap]
      exact Or.inr ⟨stamp, listed, by simp⟩
    refine ⟨?_, (reading_le_clock step reading).2⟩
    have sorted := (List.pairwise_cons.mp step.1).2
    simp only [Op.readings] at sorted
    exact (List.pairwise_cons.mp sorted).1 _ (List.mem_flatMap.mpr ⟨stamp, listed, by simp⟩)
  · exact ⟨le_refl now, (reading_le_clock step first).2⟩

/-- Execution of a list of transactions, and the history it is. -/
def Service.exec (env : Env) (s : Service) (ops : List Op) : Service := ops.foldl (Service.next env) s

def Along (env : Env) (allow : Service → Op → Prop) : Service → List Op → Prop
  | _, [] => True
  | s, op :: ops => (s.Timely op ∧ allow s op) ∧ Along env allow (s.next env op) ops

instance decidableAlong (env : Env) (allow : Service → Op → Prop)
    [∀ s op, Decidable (allow s op)] : ∀ s ops, Decidable (Along env allow s ops)
  | _, [] => inferInstanceAs (Decidable True)
  | s, op :: ops =>
    have := decidableAlong env allow (s.next env op) ops
    inferInstanceAs (Decidable ((s.Timely op ∧ allow s op) ∧ Along env allow (s.next env op) ops))

theorem trace_along {env : Env} {allow : Service → Op → Prop} {s : Service} {ops : List Op}
    (along : Along env allow s ops) :
    Trace (fun s op t => Step env s op t ∧ allow s op) s ops (s.exec env ops) := by
  induction ops generalizing s with
  | nil => exact Trace.nil
  | cons op ops ih =>
    have head : Step env s op (s.next env op) ∧ allow s op := ⟨⟨along.1.1, rfl⟩, along.1.2⟩
    exact trace_cons head (ih along.2)

theorem reachable_exec {env : Env} (clock : Int) {ops : List Op}
    (along : Along env (fun _ _ => True) (Service.init clock) ops) :
    Reachable env ((Service.init clock).exec env ops) :=
  ⟨clock, ops, trace_mono (fun _ _ _ step => step.1) (trace_along along)⟩

/- A small deployment: one task that is due every minute. -/
namespace Sample

def everyMinute : Trigger where
  parses cron := cron = "* * * * *" ∨ cron = "*/1 * * * *"
  nextFireTime _ after := some (after / seconds 60 * seconds 60 + seconds 60)
  shown cron := "'" ++ cron ++ "'"

def env : Env := ⟨everyMinute, 1⟩

def minutes : Set Int := {t | seconds 60 ∣ t}

theorem everyMinute_next : Schedule.IsNext minutes (nextOccurrence everyMinute "* * * * *") := by
  intro after
  have later : ¬ after / seconds 60 * seconds 60 + seconds 60 ≤ after := by
    simp only [seconds]
    omega
  have fires : nextOccurrence everyMinute "* * * * *" after =
      some (after / seconds 60 * seconds 60 + seconds 60) := by
    simp [nextOccurrence, everyMinute, later]
  rw [fires]
  refine ⟨⟨?_, not_le.mp later⟩, ?_⟩
  · refine ⟨after / seconds 60 + 1, ?_⟩
    simp only [seconds]
    omega
  · intro p scheduled
    obtain ⟨⟨k, rfl⟩, pending⟩ := scheduled
    simp only [seconds] at pending ⊢
    omega

def fields : TaskFields :=
  { name := "photos", sourceId := 1, remotePath := "/srv/photos", localPath := "/backup/photos"
    cron := "* * * * *" }

def source : SourceFields := { name := "nas", user := "backup", host := "nas", sshKeyPath := "/key" }

def stamp (second : Int) : Stamp := ⟨seconds second, seconds second⟩

def probe : Probe := ⟨fun _ _ => true, fun task => some ["backup", task.localPath]⟩

def start : Service :=
  (Service.init 0).exec env
    [.createSource source 0, .createTask fields 0, .reconcile 1 (seconds 10)]

theorem start_reachable : Reachable env start := reachable_exec 0 (by decide)

def running : Service :=
  (Service.init 0).exec env
    [.createSource source 0, .createTask fields 0, .reconcile 1 (seconds 10),
      .tick 1 (seconds 60), .dispatch probe (seconds 61) [stamp 61], .start 1 (seconds 62)]

theorem running_reachable : Reachable env running := reachable_exec 0 (by decide)

def task : Task :=
  { fields with id := 1, createdAt := 0, updatedAt := 0, scheduleBaselineAt := some 0 }

example : start.db.tasks.get 1 = some task ∧ start.db.taskDue.get 1 = none := by decide

end Sample

end Pullbackup
