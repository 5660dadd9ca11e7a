import Pullbackup.Heartbeat
import Pullbackup.Owed

/- services/kuma_sync.py: what failures() lists, over requests, syncs and sweeps that come
   one after the other. The maps are of the process and the tasks are stored. -/
namespace Pullbackup
open KeyedTable History

structure PushToken where
  text : String
  minted : text.length = 32

structure PushResult where
  ok : Bool
  attempts : Nat
  error : Option String

def pushLoop (answer : Nat → PushAnswer) (last : String) (attempts : Nat) : Nat → PushResult
  | 0 => ⟨false, attempts, some last⟩
  | left + 1 =>
    let last := (safeError (answer attempts)).getD last
    if answer attempts = .accepted then ⟨true, attempts + 1, none⟩
    else if (answer attempts).retryable then pushLoop answer last (attempts + 1) left
    else ⟨false, attempts + 1, some last⟩

def pushHeartbeat (kuma : Bool) (answer : Nat → PushAnswer) : PushResult :=
  if kuma = false then ⟨false, 0, some "kuma_not_configured"⟩
  else pushLoop answer "unknown" 0 pushAttempts

/-- A row of _outcomes; without a projection it is the sweep's own, of a sync that raised. -/
structure TaskOutcome where
  taskId : Nat
  projected : Option (FreshState × FreshReason)
  status : Option KumaStatus
  pushed : Bool
  ok : Bool
  attempts : Nat := 0
  error : Option String := none
  recordedAt : Int
  deriving DecidableEq, Repr

structure SyncFailure where
  taskId : Nat
  error : String
  deriving DecidableEq, Repr

instance : Keyed TaskOutcome Nat := ⟨TaskOutcome.taskId⟩
instance : Keyed SyncFailure Nat := ⟨SyncFailure.taskId⟩

@[simp] theorem key_taskOutcome (o : TaskOutcome) : Keyed.key o = o.taskId := rfl
@[simp] theorem key_syncFailure (f : SyncFailure) : Keyed.key f = f.taskId := rfl

/-- The service and its three maps. How the newest sync and the newest monitor operation of the
    stored task ended is kept to be spoken about. -/
structure Alarms where
  db : Db
  kuma : Bool
  outcomes : Table TaskOutcome := .empty
  syncFailures : Table SyncFailure := .empty
  pendingOps : Nat → List MonitorOp := fun _ => []
  lastSync : Nat → Option Bool := fun _ => none
  lastOp : Nat → Option Bool := fun _ => none

inductive FailureKind where
  | configuration | push
  deriving DecidableEq, Repr

structure Failure where
  taskId : Nat
  kind : FailureKind
  error : Option String
  attempts : Nat
  recordedAt : Option Int
  deriving DecidableEq, Repr

def TaskOutcome.failure (o : TaskOutcome) : Failure :=
  ⟨o.taskId, .push, o.error, o.attempts, some o.recordedAt⟩

def SyncFailure.failure (f : SyncFailure) : Failure :=
  ⟨f.taskId, .configuration, some f.error, 1, none⟩

/-- sorted by task and kind: "configuration" before "push". -/
def Failure.before (a b : Failure) : Prop :=
  a.taskId < b.taskId ∨ a.taskId = b.taskId ∧ (a.kind = .configuration ∨ b.kind = .push)

instance (a b : Failure) : Decidable (a.before b) := inferInstanceAs (Decidable (_ ∨ _))

def Alarms.failures (s : Alarms) : List Failure :=
  ((s.outcomes.rows.filter fun o => !o.ok).map TaskOutcome.failure ++
    s.syncFailures.rows.map SyncFailure.failure).insertionSort Failure.before

def Task.hasToken (t : Task) : Bool := t.kumaPushToken.any fun token => token ≠ ""

/-- What a sync reads outside: the clock, the error that it raises with, or the answers to the
    attempts of its push. -/
structure SyncInput where
  now : Int
  wall : Int
  raised : Option String := none
  answer : Nat → PushAnswer

def taskOutcome (trig : Trigger) (croniter : Croniter) (kuma : Bool) (db : Db) (row : Task)
    (i : SyncInput) : TaskOutcome :=
  let f := projectTask trig croniter db row i.now i.wall
  match f.kumaStatus with
  | none =>
    { taskId := row.id, projected := some (f.state, f.reason), status := none, pushed := false
      ok := true, recordedAt := i.wall }
  | some status =>
    let result := pushHeartbeat kuma i.answer
    { taskId := row.id, projected := some (f.state, f.reason), status := some status, pushed := true
      ok := result.ok, attempts := result.attempts, error := result.error, recordedAt := i.wall }

def Alarms.record (s : Alarms) (o : TaskOutcome) : Alarms :=
  { s with outcomes := s.outcomes.put o, lastSync := Function.update s.lastSync o.taskId (some o.ok) }

/-- sync_task; one that raises leaves _outcomes alone. -/
def Alarms.syncTask (trig : Trigger) (croniter : Croniter) (s : Alarms) (task : Nat) (i : SyncInput) :
    Alarms :=
  match s.db.tasks.get task with
  | none => s
  | some row =>
    if row.kumaEnabled = false ∨ row.hasToken = false then s
    else
      match i.raised with
      | some _ => { s with lastSync := Function.update s.lastSync task (some false) }
      | none => s.record (taskOutcome trig croniter s.kuma s.db row i)

def Alarms.sweepTask (trig : Trigger) (croniter : Croniter) (syncs : Nat → SyncInput) (s : Alarms)
    (task : Nat) : Alarms :=
  match (syncs task).raised with
  | none => s.syncTask trig croniter task (syncs task)
  | some error =>
    s.record
      { taskId := task, projected := none, status := none, pushed := false, ok := false
        error := some error, recordedAt := (syncs task).wall }

def Alarms.sweep (trig : Trigger) (croniter : Croniter) (s : Alarms) (syncs : Nat → SyncInput) :
    Alarms :=
  ((s.db.tasks.rows.filter fun t => t.kumaEnabled && t.hasToken).map Task.id).foldl
    (Alarms.sweepTask trig croniter syncs) s

structure KumaAnswers where
  created : Except String Nat
  token : PushToken
  edited : MonitorOp → Except String Unit
  deleted : Except String Unit

def KumaAnswers.reply (a : KumaAnswers) : KumaCall → Except String (Nat × String)
  | .create => a.created.map fun id => (id, a.token.text)
  | .edit op _ => (a.edited op).map fun _ => (0, "")
  | .delete => a.deleted.map fun _ => (0, "")
  | .push => .ok (0, "")

def KumaAnswers.answer (a : KumaAnswers) (call : KumaCall) : Option (Nat × String) :=
  (a.reply call).toOption

def noteFailure (a : KumaAnswers) (task : Nat) (failures : Table SyncFailure) (call : KumaCall) :
    Table SyncFailure :=
  match call, a.reply call with
  | .push, _ => failures
  | _, .error error => failures.put ⟨task, error⟩
  | .edit _ (_ :: _), .ok _ => failures
  | _, .ok _ => failures.erase task

def noteOperation (a : KumaAnswers) (last : Option Bool) (call : KumaCall) : Option Bool :=
  match call with
  | .push => last
  | _ => some (a.answer call).isSome

/-- _sync_kuma: the monitor operations, then, when none failed, the sync of the task. -/
def Alarms.syncKuma (trig : Trigger) (croniter : Croniter) (s : Alarms) (copy : Task)
    (prevCron : String) (prevEnabled : Bool) (a : KumaAnswers) (i : SyncInput) : Alarms :=
  match answerCalls a.answer false syncTurns ⟨s.db, s.pendingOps, copy,
      startSync s.kuma (s.pendingOps copy.id) copy prevCron prevEnabled false⟩ with
  | none => s
  | some (done, calls) =>
    let noted := { s with
      db := done.db, pendingOps := done.pendingOps
      syncFailures := calls.foldl (noteFailure a copy.id) s.syncFailures
      lastOp := Function.update s.lastOp copy.id (calls.foldl (noteOperation a) (s.lastOp copy.id)) }
    if s.kuma = true ∧ calls.all (fun c => (a.answer c).isSome) = true then
      noted.syncTask trig croniter copy.id i
    else noted

/-- What happens, one after the other. Any other transaction writes sources, runs, obligations
    and watermarks; a restart forgets the maps. -/
inductive AlarmEvent where
  | create (data : TaskFields) (now : Int) (answers : KumaAnswers) (sync : SyncInput)
  | update (task : Nat) (data : TaskFields) (now : Int) (answers : KumaAnswers) (sync : SyncInput)
  | delete (task : Nat)
  | syncTask (task : Nat) (sync : SyncInput)
  | sweep (syncs : Nat → SyncInput)
  | elsewhere (sources : Table Source) (runs : Table Run) (taskDue : Table TaskDue)
      (baselines : Nat → Option Int)
  | restart (kuma : Bool)

def Alarms.create (trig : Trigger) (croniter : Croniter) (s : Alarms) (data : TaskFields) (now : Int)
    (a : KumaAnswers) (i : SyncInput) : Alarms :=
  match createTask s.db data now with
  | .error _ => s
  | .ok db =>
    let id := nextId s.db.tasks
    match db.tasks.get id with
    | none => s
    | some copy =>
      { s with
        db := db, lastSync := Function.update s.lastSync id none
        lastOp := Function.update s.lastOp id none }.syncKuma trig croniter copy "" true a i

def Alarms.update (trig : Trigger) (croniter : Croniter) (s : Alarms) (task : Nat) (data : TaskFields)
    (now : Int) (a : KumaAnswers) (i : SyncInput) : Alarms :=
  match s.db.tasks.get task, updateTask s.db task data now with
  | some prev, .ok db =>
    match db.tasks.get task with
    | none => s
    | some copy => { s with db := db }.syncKuma trig croniter copy prev.cron prev.enabled a i
  | _, _ => s

/-- delete_task: an error of Kuma is logged only, and no map is written. -/
def Alarms.delete (s : Alarms) (task : Nat) : Alarms :=
  match deleteTask s.db task with
  | .error _ => s
  | .ok db =>
    { s with
      db := db, lastSync := Function.update s.lastSync task none
      lastOp := Function.update s.lastOp task none }

def withBaselines (tasks : Table Task) (baselines : Nat → Option Int) : Table Task :=
  tasks.mapRows (fun t => { t with scheduleBaselineAt := baselines t.id }) fun _ => rfl

def Alarms.next (trig : Trigger) (croniter : Croniter) (s : Alarms) : AlarmEvent → Alarms
  | .create data now a i => s.create trig croniter data now a i
  | .update task data now a i => s.update trig croniter task data now a i
  | .delete task => s.delete task
  | .syncTask task i => s.syncTask trig croniter task i
  | .sweep syncs => s.sweep trig croniter syncs
  | .elsewhere sources runs taskDue baselines =>
    { s with
      db :=
        { sources := sources, runs := runs, taskDue := taskDue
          tasks := withBaselines s.db.tasks baselines } }
  | .restart kuma =>
    { s with
      kuma := kuma, outcomes := .empty, syncFailures := .empty, pendingOps := fun _ => [] }

/-- A push failure is of a stored task that is monitored and whose newest sync failed, a
    configuration failure of a stored task whose newest monitor operation failed. -/
def Alarms.Live (s : Alarms) (f : Failure) : Prop :=
  ∃ row, s.db.tasks.get f.taskId = some row ∧
    match f.kind with
    | .push => row.kumaEnabled = true ∧ row.hasToken = true ∧ s.lastSync f.taskId = some false
    | .configuration => s.lastOp f.taskId = some false

def Alarms.pushFailing (s : Alarms) (task : Nat) : Bool := (s.outcomes.get task).any fun o => !o.ok

/-- An accepted request ends the monitoring of a task whose failure is listed: it deletes the
    task, or switches the monitor of one whose push failed off. -/
def Alarms.Orphans (s : Alarms) : AlarmEvent → Prop
  | .delete task => (deleteTask s.db task).isOk ∧
      (s.pushFailing task = true ∨ (s.syncFailures.get task).isSome)
  | .update task data now _ _ => (updateTask s.db task data now).isOk ∧
      s.pushFailing task = true ∧ data.kumaEnabled = false
  | _ => False

theorem mem_failures {s : Alarms} {f : Failure} : f ∈ s.failures ↔
    (∃ o ∈ s.outcomes.rows, o.ok = false ∧ o.failure = f) ∨
      ∃ c ∈ s.syncFailures.rows, c.failure = f := by
  unfold Alarms.failures
  rw [(List.perm_insertionSort Failure.before _).mem_iff]
  simp [and_assoc]

/-- The listed failures are live, as the maps hold them. -/
structure Alarms.Sound (s : Alarms) : Prop where
  push : ∀ id, s.pushFailing id = true → ∃ row, s.db.tasks.get id = some row ∧
    row.kumaEnabled = true ∧ row.hasToken = true ∧ s.lastSync id = some false
  configuration : ∀ id, (s.syncFailures.get id).isSome → (s.db.tasks.get id).isSome ∧
    s.lastOp id = some false

theorem pushFailing_iff {s : Alarms} {id : Nat} :
    s.pushFailing id = true ↔ ∃ o ∈ s.outcomes.rows, o.ok = false ∧ o.taskId = id := by
  unfold Alarms.pushFailing
  rw [Option.any_eq_true]
  constructor
  · rintro ⟨o, found, failing⟩
    exact ⟨o, Table.mem_of_get found, by simpa using failing, Table.key_of_get found⟩
  · rintro ⟨o, mem, failing, rfl⟩
    exact ⟨o, Table.get_of_mem mem, by simpa using failing⟩

theorem sound_iff (s : Alarms) : s.Sound ↔ ∀ f ∈ s.failures, s.Live f := by
  constructor
  · intro sound f listed
    rcases mem_failures.mp listed with ⟨o, mem, failing, rfl⟩ | ⟨c, mem, rfl⟩
    · exact sound.push o.taskId (pushFailing_iff.mpr ⟨o, mem, failing, rfl⟩)
    · obtain ⟨there, failed⟩ := sound.configuration c.taskId
        (by rw [show s.syncFailures.get c.taskId = some c from Table.get_of_mem mem]; rfl)
      obtain ⟨row, stored⟩ := Option.isSome_iff_exists.mp there
      exact ⟨row, stored, failed⟩
  · intro live
    refine ⟨fun id failing => ?_, fun id recorded => ?_⟩
    · obtain ⟨o, mem, failed, rfl⟩ := pushFailing_iff.mp failing
      exact live o.failure (mem_failures.mpr (Or.inl ⟨o, mem, failed, rfl⟩))
    · obtain ⟨c, found⟩ := Option.isSome_iff_exists.mp recorded
      have key : c.taskId = id := Table.key_of_get found
      obtain ⟨row, stored, failed⟩ :=
        live c.failure (mem_failures.mpr (Or.inr ⟨c, Table.mem_of_get found, rfl⟩))
      rw [← key]
      exact ⟨by rw [show s.db.tasks.get c.taskId = some row from stored]; rfl, failed⟩

section Syncs
variable {trig : Trigger} {croniter : Croniter} {s : Alarms}

theorem outcome_sound (sound : s.Sound) {o : TaskOutcome} {row : Task}
    (stored : s.db.tasks.get o.taskId = some row) (watched : row.kumaEnabled = true)
    (token : row.hasToken = true) : (s.record o).Sound := by
  refine ⟨fun id failing => ?_, sound.configuration⟩
  by_cases same : o.taskId = id
  · subst same
    have entry : (s.record o).outcomes.get o.taskId = some o := Table.get_put_self _ _
    have failed : o.ok = false := by simpa [Alarms.pushFailing, entry] using failing
    exact ⟨row, stored, watched, token, by simp [Alarms.record, failed]⟩
  · have entry : (s.record o).outcomes.get id = s.outcomes.get id := Table.get_put_ne same
    rw [Alarms.pushFailing, entry] at failing
    obtain ⟨row, there, enabled, carries, failed⟩ := sound.push id failing
    have kept : (s.record o).lastSync id = s.lastSync id := Function.update_of_ne (Ne.symm same) _ _
    exact ⟨row, there, enabled, carries, kept.trans failed⟩

theorem syncTask_sound (sound : s.Sound) (task : Nat) (i : SyncInput) :
    (s.syncTask trig croniter task i).Sound := by
  unfold Alarms.syncTask
  cases stored : s.db.tasks.get task with
  | none => exact sound
  | some row =>
    dsimp only
    split
    · exact sound
    rename_i eligible
    simp only [not_or, Bool.not_eq_false] at eligible
    split
    · refine ⟨fun id failing => ?_, sound.configuration⟩
      obtain ⟨row, there, enabled, carries, failed⟩ := sound.push id failing
      refine ⟨row, there, enabled, carries, ?_⟩
      by_cases same : id = task
      · simp [same]
      · simpa [same] using failed
    · have key : row.id = task := Table.key_of_get stored
      have own : (taskOutcome trig croniter s.kuma s.db row i).taskId = task := by
        unfold taskOutcome
        dsimp only
        split <;> exact key
      exact outcome_sound sound (own.symm ▸ stored) eligible.1 eligible.2

theorem syncTask_frame (s : Alarms) (task : Nat) (i : SyncInput) :
    (s.syncTask trig croniter task i).db = s.db := by
  unfold Alarms.syncTask
  split
  · rfl
  · split
    · rfl
    · split <;> rfl

theorem sweepTask_sound (sound : s.Sound) {syncs : Nat → SyncInput} {task : Nat} {row : Task}
    (stored : s.db.tasks.get task = some row) (watched : row.kumaEnabled = true)
    (token : row.hasToken = true) : (s.sweepTask trig croniter syncs task).Sound := by
  unfold Alarms.sweepTask
  split
  · exact syncTask_sound sound task _
  · exact outcome_sound sound stored watched token

theorem sweepTask_frame (s : Alarms) (syncs : Nat → SyncInput) (task : Nat) :
    (s.sweepTask trig croniter syncs task).db = s.db := by
  unfold Alarms.sweepTask
  split
  · exact syncTask_frame s task _
  · rfl

theorem sweep_tasks (sound : s.Sound) (syncs : Nat → SyncInput) (ids : List Nat)
    (listed : ∀ id ∈ ids, ∃ row, s.db.tasks.get id = some row ∧ row.kumaEnabled = true ∧
      row.hasToken = true) :
    (ids.foldl (Alarms.sweepTask trig croniter syncs) s).Sound := by
  induction ids generalizing s with
  | nil => exact sound
  | cons id ids ih =>
    obtain ⟨row, stored, watched, token⟩ := listed id List.mem_cons_self
    refine ih (sweepTask_sound sound stored watched token) fun other mem => ?_
    rw [sweepTask_frame]
    exact listed other (List.mem_cons_of_mem _ mem)

theorem sweep_sound (sound : s.Sound) (syncs : Nat → SyncInput) :
    (s.sweep trig croniter syncs).Sound := by
  refine sweep_tasks sound syncs _ fun id mem => ?_
  obtain ⟨row, found, rfl⟩ := List.mem_map.mp mem
  obtain ⟨stored, watched⟩ := List.mem_filter.mp found
  simp only [Bool.and_eq_true] at watched
  exact ⟨row, Table.get_of_mem stored, watched⟩

end Syncs

section Configuration
variable {answers : KumaCall → Option (Nat × String)} {pushes : Bool}

/-- What the calls of a sync do to the rows: only that of the copy is written, and of it only
    the monitor, with the token of a creation or with none after a deletion. -/
theorem resumeSync_row {s next : Synced} {call : KumaCall}
    (stored : s.db.tasks.get s.copy.id = some s.copy)
    (resumed : resumeSync s.db s.pendingOps s.copy pushes call (answers call) = some next) :
    next.copy.id = s.copy.id ∧ next.copy.toTaskFields = s.copy.toTaskFields ∧
      next.db.tasks.get s.copy.id = some next.copy ∧
      (∀ id, id ≠ s.copy.id → next.db.tasks.get id = s.db.tasks.get id) ∧
      (next.copy.kumaPushToken = s.copy.kumaPushToken ∨
        (∃ m, answers .create = some m ∧ next.copy.kumaPushToken = some m.2) ∨ call = .delete) := by
  have written : ∀ {monitor : Option (Nat × String)},
      writeMonitor s.db s.pendingOps s.copy monitor pushes = some next →
      next.copy.id = s.copy.id ∧ next.copy.toTaskFields = s.copy.toTaskFields ∧
        next.db.tasks.get s.copy.id = some next.copy ∧
        (∀ id, id ≠ s.copy.id → next.db.tasks.get id = s.db.tasks.get id) ∧
        next.copy.kumaPushToken = monitor.map Prod.snd := by
    intro monitor done
    rw [writeMonitor_stored pushes s.db s.pendingOps s.copy stored monitor] at done
    cases done
    refine ⟨rfl, rfl, Table.get_put_self _ _, fun id apart => ?_, rfl⟩
    exact Table.get_put_ne (Ne.symm apart)
  cases call with
  | create =>
    cases answer : answers .create with
    | none =>
      rw [answer] at resumed
      cases resumed
      exact ⟨rfl, rfl, stored, fun _ _ => rfl, Or.inl rfl⟩
    | some monitor =>
      rw [answer] at resumed
      obtain ⟨id, fields, here, others, token⟩ := written resumed
      exact ⟨id, fields, here, others, Or.inr (Or.inl ⟨monitor, rfl, token⟩)⟩
  | edit op rest =>
    cases answer : answers (.edit op rest) with
    | none =>
      rw [answer] at resumed
      cases resumed
      exact ⟨rfl, rfl, stored, fun _ _ => rfl, Or.inl rfl⟩
    | some monitor =>
      rw [answer] at resumed
      cases rest <;> (cases resumed; exact ⟨rfl, rfl, stored, fun _ _ => rfl, Or.inl rfl⟩)
  | delete =>
    cases answer : answers .delete with
    | none =>
      rw [answer] at resumed
      cases resumed
      exact ⟨rfl, rfl, stored, fun _ _ => rfl, Or.inl rfl⟩
    | some monitor =>
      rw [answer] at resumed
      obtain ⟨id, fields, here, others, -⟩ := written resumed
      exact ⟨id, fields, here, others, Or.inr (Or.inr rfl)⟩
  | push =>
    cases resumed
    exact ⟨rfl, rfl, stored, fun _ _ => rfl, Or.inl rfl⟩

theorem answerCalls_row (turns : Nat) {s done : Synced} {calls : List KumaCall}
    (stored : s.db.tasks.get s.copy.id = some s.copy)
    (ended : answerCalls answers pushes turns s = some (done, calls)) :
    done.copy.toTaskFields = s.copy.toTaskFields ∧ done.db.tasks.get s.copy.id = some done.copy ∧
      (∀ id, id ≠ s.copy.id → done.db.tasks.get id = s.db.tasks.get id) ∧
      (done.copy.kumaPushToken = s.copy.kumaPushToken ∨
        (∃ m, answers .create = some m ∧ done.copy.kumaPushToken = some m.2) ∨ .delete ∈ calls) := by
  induction turns generalizing s calls with
  | zero =>
    cases ended
    exact ⟨rfl, stored, fun _ _ => rfl, Or.inl rfl⟩
  | succ turns ih =>
    unfold answerCalls at ended
    split at ended
    · cases ended
      exact ⟨rfl, stored, fun _ _ => rfl, Or.inl rfl⟩
    · rename_i call awaited
      split at ended
      · cases ended
      · rename_i next resumed
        obtain ⟨id, fields, here, others, token⟩ := resumeSync_row stored resumed
        obtain ⟨⟨done', rest⟩, later, shape⟩ := Option.map_eq_some_iff.mp ended
        cases shape
        obtain ⟨fields', here', others', token'⟩ := ih (id.symm ▸ here) later
        rw [id] at here' others'
        refine ⟨fields'.trans fields, here', fun n apart => ?_, ?_⟩
        · exact (others' n apart).trans (others n apart)
        rcases token' with same | created | deleted
        · rcases token with before | created | deleted
          · exact Or.inl (same.trans before)
          · obtain ⟨m, answer, token⟩ := created
            exact Or.inr (Or.inl ⟨m, answer, same.trans token⟩)
          · exact Or.inr (Or.inr (deleted ▸ List.mem_cons_self))
        · exact Or.inr (Or.inl created)
        · exact Or.inr (Or.inr (List.mem_cons_of_mem _ deleted))

end Configuration

section Failures
variable {a : KumaAnswers} {task : Nat} {failures : Table SyncFailure} {last : Option Bool}

theorem noteFailure_other (calls : List KumaCall) {id : Nat} (apart : id ≠ task) :
    (calls.foldl (noteFailure a task) failures).get id = failures.get id := by
  induction calls generalizing failures with
  | nil => rfl
  | cons call calls ih =>
    rw [List.foldl_cons, ih]
    unfold noteFailure
    split
    · rfl
    · exact Table.get_put_ne (Ne.symm apart)
    · rfl
    · rw [Table.get_erase, if_neg apart]

theorem pushes_idle {σ : Type} {note : σ → KumaCall → σ} (idle : ∀ s, note s .push = s)
    {calls : List KumaCall} (pushes : ∀ c ∈ calls, c = .push) (s : σ) : calls.foldl note s = s := by
  induction calls with
  | nil => rfl
  | cons call calls ih =>
    rw [List.foldl_cons, pushes call List.mem_cons_self, idle]
    exact ih fun c mem => pushes c (List.mem_cons_of_mem _ mem)

theorem noteFailure_idle {calls : List KumaCall} (pushes : ∀ c ∈ calls, c = .push) :
    calls.foldl (noteFailure a task) failures = failures :=
  pushes_idle (fun _ => rfl) pushes failures

theorem noteOperation_idle {calls : List KumaCall} (pushes : ∀ c ∈ calls, c = .push) :
    calls.foldl (noteOperation a) last = last :=
  pushes_idle (fun _ => rfl) pushes last

theorem noteOperation_raised (last : Option Bool) (call : KumaCall) (operation : call ≠ .push)
    (raised : a.answer call = none) :
    noteOperation a last call = some false := by
  cases call with
  | push => exact absurd rfl operation
  | _ => simp [noteOperation, raised]

theorem noteFailure_cleared {call : KumaCall} (operation : call ≠ .push)
    (final : ∀ op first rest, call ≠ .edit op (first :: rest)) (done : (a.answer call).isSome) :
    (noteFailure a task failures call).get task = none := by
  obtain ⟨reply, answered⟩ := Option.isSome_iff_exists.mp done
  have replied : a.reply call = .ok reply := by
    unfold KumaAnswers.answer at answered
    cases r : a.reply call with
    | error e => simp [r, Except.toOption] at answered
    | ok value =>
      rw [r] at answered
      exact congrArg Except.ok (Option.some.inj answered)
  have erased : (failures.erase task).get task = none := by
    rw [Table.get_erase, if_pos rfl]
  unfold noteFailure
  rw [replied]
  cases call with
  | push => exact absurd rfl operation
  | create => exact erased
  | delete => exact erased
  | edit op rest =>
    cases rest with
    | nil => exact erased
    | cons first rest => exact absurd rfl (final op first rest)

/-- What is on record for the task is the failure of its newest operation. -/
def RecordsNewest (failures : Table SyncFailure) (task : Nat) (last : Option Bool) : Prop :=
  (failures.get task).isSome → last = some false

theorem recorded_one (last : Option Bool) {call : KumaCall} (operation : call ≠ .push)
    (final : ∀ op first rest, call ≠ .edit op (first :: rest)) :
    RecordsNewest (noteFailure a task failures call) task (noteOperation a last call) := by
  intro recorded
  by_cases done : (a.answer call).isSome
  · rw [noteFailure_cleared operation final done] at recorded
    cases recorded
  · exact noteOperation_raised last call operation (by simpa using done)

theorem recorded_attempted (op : MonitorOp) (rest : List MonitorOp) :
    RecordsNewest ((attempted a.answer (op :: rest)).foldl (noteFailure a task) failures) task
      ((attempted a.answer (op :: rest)).foldl (noteOperation a) last) := by
  induction rest generalizing op failures last with
  | nil =>
    have one : attempted a.answer [op] = [.edit op []] := by
      simp only [attempted]
      split <;> rfl
    rw [one]
    exact recorded_one last (by simp) (by simp)
  | cons first rest ih =>
    rw [attempted]
    split
    · exact ih first
    · rename_i raised
      exact fun _ => noteOperation_raised last (.edit op (first :: rest)) (by simp)
        (by simpa using raised)

theorem recorded_sync {kuma : Bool} {db db' : Db} {ops ops' : Nat → List MonitorOp} {copy : Task}
    {calls : List KumaCall} (ends : SyncEnd kuma a.answer db ops copy db' ops' calls)
    (before : RecordsNewest failures task last) :
    RecordsNewest (calls.foldl (noteFailure a task) failures) task
      (calls.foldl (noteOperation a) last) := by
  have ended : ∀ (first : List KumaCall) {pushes : List KumaCall}, (∀ c ∈ pushes, c = .push) →
      RecordsNewest (first.foldl (noteFailure a task) failures) task (first.foldl (noteOperation a) last) →
      RecordsNewest ((first ++ pushes).foldl (noteFailure a task) failures) task
        ((first ++ pushes).foldl (noteOperation a) last) := by
    intro first pushes only made
    rw [List.foldl_append, List.foldl_append, noteFailure_idle only, noteOperation_idle only]
    exact made
  cases ends with
  | idle pushes keeps => exact ended [] pushes before
  | created pushes bare done own =>
    exact ended [.create] pushes (recorded_one last (by simp) (by simp))
  | createFailed bare refused => exact recorded_one last (by simp) (by simp)
  | @edited todo _ pushes there on covers =>
    refine ended _ pushes ?_
    cases todo with
    | nil => exact before
    | cons op rest => exact recorded_attempted op rest
  | deleted pushes there off done own bare =>
    exact ended [.delete] pushes (recorded_one last (by simp) (by simp))
  | deleteFailed configured there off refused => exact recorded_one last (by simp) (by simp)

end Failures

theorem sync_deletes {kuma : Bool} {answers : KumaCall → Option (Nat × String)} {db db' : Db}
    {ops ops' : Nat → List MonitorOp} {copy : Task} {calls : List KumaCall}
    (ends : SyncEnd kuma answers db ops copy db' ops' calls) (deletes : .delete ∈ calls) :
    copy.kumaEnabled = false := by
  have apart : ∀ todo, .delete ∉ attempted answers todo := by
    intro todo
    induction todo with
    | nil => simp [attempted]
    | cons op rest ih =>
      rw [attempted]
      split
      · simpa using ih
      · simp
  cases ends with
  | idle pushes keeps => exact absurd (pushes _ deletes) (by simp)
  | created pushes bare done own =>
    rcases List.mem_cons.mp deletes with same | later
    · cases same
    · exact absurd (pushes _ later) (by simp)
  | createFailed bare refused => simp at deletes
  | edited pushes there on covers =>
    rcases List.mem_append.mp deletes with first | later
    · exact absurd first (apart _)
    · exact absurd (pushes _ later) (by simp)
  | deleted pushes there off done own bare => exact off
  | deleteFailed configured there off refused => exact off

theorem token_some (token : PushToken) : token.text ≠ "" := by
  intro empty
  have length := token.minted
  rw [empty] at length
  cases length

section Steps
variable {trig : Trigger} {croniter : Croniter} {s : Alarms} {copy : Task}

theorem syncKuma_sound (sound : s.Sound) (stored : s.db.tasks.get copy.id = some copy)
    (prevCron : String) (prevEnabled : Bool) (a : KumaAnswers) (i : SyncInput) :
    (s.syncKuma trig croniter copy prevCron prevEnabled a i).Sound := by
  obtain ⟨done, calls, ended, ends⟩ := sync_ends a.answer false s.db s.pendingOps copy stored s.kuma
    prevCron prevEnabled
  obtain ⟨fields, here, others, token⟩ := answerCalls_row syncTurns stored ended
  have configured : ({ s with
      db := done.db, pendingOps := done.pendingOps
      syncFailures := calls.foldl (noteFailure a copy.id) s.syncFailures
      lastOp := Function.update s.lastOp copy.id
        (calls.foldl (noteOperation a) (s.lastOp copy.id)) } : Alarms).Sound := by
    refine ⟨fun id failing => ?_, fun id recorded => ?_⟩
    · obtain ⟨row, there, enabled, carries, failed⟩ := sound.push id failing
      by_cases same : id = copy.id
      · subst same
        obtain rfl := Option.some.inj (there.symm.trans stored)
        refine ⟨done.copy, here, ?_, ?_, failed⟩
        · rw [show done.copy.kumaEnabled = row.kumaEnabled from congrArg _ fields]
          exact enabled
        · rcases token with kept | ⟨m, answer, minted⟩ | deleted
          · rw [Task.hasToken, kept]
            exact carries
          · have text : m.2 = a.token.text := by
              cases made : a.created with
              | error e =>
                simp [KumaAnswers.answer, KumaAnswers.reply, made, Except.map, Except.toOption] at answer
              | ok id =>
                simp only [KumaAnswers.answer, KumaAnswers.reply, made, Except.map, Except.toOption,
                  Option.some.injEq] at answer
                rw [← answer]
            simpa [Task.hasToken, minted, text] using token_some a.token
          · rw [sync_deletes ends deleted] at enabled
            cases enabled
      · exact ⟨row, (others id same).trans there, enabled, carries, failed⟩
    · by_cases same : id = copy.id
      · subst same
        refine ⟨by rw [show done.db.tasks.get copy.id = some done.copy from here]; rfl, ?_⟩
        have before : RecordsNewest s.syncFailures copy.id (s.lastOp copy.id) := fun old =>
          (sound.configuration copy.id old).2
        simpa using recorded_sync ends before recorded
      · dsimp only at recorded ⊢
        rw [noteFailure_other calls same] at recorded
        rw [others id same, Function.update_of_ne same]
        exact sound.configuration id recorded
  unfold Alarms.syncKuma
  rw [ended]
  dsimp only
  split
  · exact syncTask_sound configured copy.id i
  · exact configured

theorem create_listed (sound : s.Sound) (data : TaskFields) (now : Int) (a : KumaAnswers)
    (i : SyncInput) :
    (s.create trig croniter data now a i).Sound := by
  unfold Alarms.create
  split
  · exact sound
  · rename_i db created
    dsimp only
    split
    · exact sound
    · rename_i copy stored
      have key : copy.id = nextId s.db.tasks := Table.key_of_get stored
      have others : ∀ id, id ≠ nextId s.db.tasks → db.tasks.get id = s.db.tasks.get id := by
        intro id apart
        unfold createTask at created
        split at created
        · cases created
        · cases created
          exact Table.get_put_ne (Ne.symm apart)
      have absent := get_nextId s.db.tasks
      refine syncKuma_sound ⟨fun id failing => ?_, fun id recorded => ?_⟩ (key.symm ▸ stored) _ _ a i
      · obtain ⟨row, there, watched⟩ := sound.push id failing
        have apart : id ≠ nextId s.db.tasks := by
          rintro rfl
          rw [absent] at there
          cases there
        refine ⟨row, (others id apart).trans there, ?_⟩
        simpa [Function.update_of_ne apart] using watched
      · obtain ⟨there, failed⟩ := sound.configuration id recorded
        have apart : id ≠ nextId s.db.tasks := by
          rintro rfl
          rw [absent] at there
          cases there
        exact ⟨(others id apart).symm ▸ there, by simpa [Function.update_of_ne apart] using failed⟩

theorem update_listed (sound : s.Sound) {task : Nat} {data : TaskFields} {now : Int}
    {a : KumaAnswers} {i : SyncInput} (safe : ¬ s.Orphans (.update task data now a i)) :
    (s.update trig croniter task data now a i).Sound := by
  unfold Alarms.update
  cases updated : updateTask s.db task data now with
  | error problem =>
    split
    · rename_i ok
      cases ok
    · exact sound
  | ok db =>
    obtain ⟨prev, row, before, tasks, key, fields, monitor, token⟩ := updateTask_row updated
    have here : db.tasks.get task = some row := by
      rw [tasks, Table.get_put, key_task, if_pos key]
    have others : ∀ id, id ≠ task → db.tasks.get id = s.db.tasks.get id := by
      intro id apart
      rw [tasks, Table.get_put_ne (fun same => apart (same.symm.trans key))]
    rw [before]
    dsimp only
    rw [here]
    refine syncKuma_sound ⟨fun id failing => ?_, fun id recorded => ?_⟩ (key.symm ▸ here) _ _ a i
    · obtain ⟨old, there, enabled, carries, failed⟩ := sound.push id failing
      by_cases same : id = task
      · subst same
        obtain rfl := Option.some.inj (there.symm.trans before)
        have on : data.kumaEnabled = true := by
          by_contra off
          exact safe ⟨by rw [updated]; rfl, failing, by simpa using off⟩
        refine ⟨row, here, ?_, ?_, failed⟩
        · rw [show row.kumaEnabled = data.kumaEnabled from congrArg _ fields]
          exact on
        · rw [Task.hasToken, token]
          exact carries
      · exact ⟨old, (others id same).trans there, enabled, carries, failed⟩
    · obtain ⟨there, failed⟩ := sound.configuration id recorded
      refine ⟨?_, failed⟩
      by_cases same : id = task
      · rw [same, show db.tasks.get task = some row from here]
        rfl
      · exact (others id same).symm ▸ there

theorem delete_rows {db : Db} {task : Nat} (deleted : deleteTask s.db task = .ok db) :
    db.tasks = s.db.tasks.erase task := by
  unfold deleteTask at deleted
  split at deleted
  · cases deleted
  · split at deleted
    · cases deleted
    · cases deleted
      rfl

theorem delete_listed (sound : s.Sound) {task : Nat} (safe : ¬ s.Orphans (.delete task)) :
    (s.delete task).Sound := by
  unfold Alarms.delete
  cases deleted : deleteTask s.db task with
  | error problem => exact sound
  | ok db =>
    have rows := delete_rows deleted
    have quiet : s.pushFailing task = false ∧ s.syncFailures.get task = none := by
      simpa [Alarms.Orphans, deleted, Except.isOk, Except.toBool] using safe
    refine ⟨fun id failing => ?_, fun id recorded => ?_⟩
    · have apart : id ≠ task := by
        rintro rfl
        exact absurd failing (by simp [Alarms.pushFailing] at quiet ⊢; exact quiet.1)
      obtain ⟨row, there, watched⟩ := sound.push id failing
      dsimp only
      rw [rows, Table.get_erase, if_neg apart, Function.update_of_ne apart]
      exact ⟨row, there, watched⟩
    · have apart : id ≠ task := by
        rintro rfl
        dsimp only at recorded
        rw [quiet.2] at recorded
        cases recorded
      dsimp only
      rw [rows, Table.get_erase, if_neg apart, Function.update_of_ne apart]
      exact sound.configuration id recorded

theorem next_listed (sound : s.Sound) {event : AlarmEvent} (safe : ¬ s.Orphans event) :
    (s.next trig croniter event).Sound := by
  cases event with
  | create data now a i => exact create_listed sound data now a i
  | update task data now a i => exact update_listed sound safe
  | delete task => exact delete_listed sound safe
  | syncTask task i => exact syncTask_sound sound task i
  | sweep syncs => exact sweep_sound sound syncs
  | elsewhere sources runs taskDue baselines =>
    refine ⟨fun id failing => ?_, fun id recorded => ?_⟩
    · obtain ⟨row, there, watched⟩ := sound.push id failing
      have kept : (withBaselines s.db.tasks baselines).get id =
          some { row with scheduleBaselineAt := baselines row.id } := by
        rw [withBaselines, Table.get_mapRows, there]
        rfl
      exact ⟨_, kept, watched⟩
    · obtain ⟨there, failed⟩ := sound.configuration id recorded
      have kept : ((withBaselines s.db.tasks baselines).get id).isSome := by
        rw [withBaselines, Table.get_mapRows, Option.isSome_map]
        exact there
      exact ⟨kept, failed⟩
  | restart kuma =>
    constructor
    · intro id failing
      cases failing
    · intro id recorded
      cases recorded

theorem syncKuma_off (trig : Trigger) (croniter : Croniter)
    (stored : s.db.tasks.get copy.id = some copy) (off : copy.kumaEnabled = false)
    (prevCron : String) (prevEnabled : Bool) (a : KumaAnswers) (i : SyncInput) :
    ∃ row, (s.syncKuma trig croniter copy prevCron prevEnabled a i).db.tasks.get copy.id = some row ∧
      row.kumaEnabled = false ∧
      (s.syncKuma trig croniter copy prevCron prevEnabled a i).outcomes = s.outcomes := by
  obtain ⟨done, calls, ended, -⟩ := sync_ends a.answer false s.db s.pendingOps copy stored s.kuma
    prevCron prevEnabled
  obtain ⟨fields, here, -⟩ := answerCalls_row syncTurns stored ended
  have same : done.copy.kumaEnabled = false := by
    rw [show done.copy.kumaEnabled = copy.kumaEnabled from congrArg _ fields]
    exact off
  refine ⟨done.copy, ?_, same, ?_⟩
  · unfold Alarms.syncKuma
    rw [ended]
    dsimp only
    split
    · rw [syncTask_frame]
      exact here
    · exact here
  · unfold Alarms.syncKuma
    rw [ended]
    dsimp only
    split
    · simp [Alarms.syncTask, here, same]
    · rfl

/-- The failure of a task that is gone, or not monitored any more, stays on the list. -/
theorem orphans_listed {event : AlarmEvent} (orphans : s.Orphans event) :
    ¬ (s.next trig croniter event).Sound := by
  intro sound
  cases event with
  | delete task =>
    obtain ⟨accepted, listed⟩ := orphans
    cases deleted : deleteTask s.db task with
    | error problem =>
      rw [deleted] at accepted
      cases accepted
    | ok db =>
      have rows := delete_rows deleted
      have gone : db.tasks.get task = none := by
        rw [rows, Table.get_erase, if_pos rfl]
      simp only [Alarms.next, Alarms.delete, deleted] at sound
      rcases listed with failing | recorded
      · obtain ⟨row, there, -⟩ := sound.push task failing
        rw [gone] at there
        cases there
      · obtain ⟨there, -⟩ := sound.configuration task recorded
        rw [gone] at there
        cases there
  | update task data now a i =>
    obtain ⟨accepted, failing, off⟩ := orphans
    cases updated : updateTask s.db task data now with
    | error problem =>
      rw [updated] at accepted
      cases accepted
    | ok db =>
      obtain ⟨prev, row, before, tasks, key, fields, -⟩ := updateTask_row updated
      have here : db.tasks.get task = some row := by
        rw [tasks, Table.get_put, key_task, if_pos key]
      have disabled : row.kumaEnabled = false := by
        rw [show row.kumaEnabled = data.kumaEnabled from congrArg _ fields]
        exact off
      simp only [Alarms.next, Alarms.update, before, updated, here] at sound
      obtain ⟨after, there, unwatched, outcomes⟩ := syncKuma_off trig croniter
        (s := { s with db := db }) (key.symm ▸ here) disabled prev.cron prev.enabled a i
      have failing' : Alarms.pushFailing
          ({ s with db := db }.syncKuma trig croniter row prev.cron prev.enabled a i) task = true := by
        rw [Alarms.pushFailing, outcomes]
        exact failing
      obtain ⟨stored, there', watched, -⟩ := sound.push task failing'
      rw [key] at there
      obtain rfl := Option.some.inj (there'.symm.trans there)
      rw [unwatched] at watched
      cases watched
  | _ => exact orphans

end Steps

/-- Over requests, syncs and sweeps in any order, with any answers: failures() lists live
    failures only, exactly when no accepted request deletes a task with a failure on the list or
    switches the monitor of a task with a failed push off. -/
theorem failures_live_iff (trig : Trigger) (croniter : Croniter) (kuma : Bool) (db : Db)
    (events : List AlarmEvent) :
    EveryStep (Alarms.next trig croniter)
        (fun s event => ∀ f ∈ (s.next trig croniter event).failures,
          (s.next trig croniter event).Live f)
        { db := db, kuma := kuma } events ↔
      EveryStep (Alarms.next trig croniter) (fun s event => ¬ s.Orphans event)
        { db := db, kuma := kuma } events := by
  refine everyStep_iff Alarms.Sound ?_ (fun s event sound safe => next_listed sound safe) ?_ events
  · intro s event sound
    rw [← sound_iff]
    exact ⟨fun after orphans => orphans_listed orphans after, fun safe => next_listed sound safe⟩
  · constructor
    · intro id failing
      cases failing
    · intro id recorded
      cases recorded

/- The stale task of the week, whose push is refused, then deleted; and a new task, which
   gets its id. -/

def Sample.alarmed : Alarms :=
  { db := { watchedWeek [.failed] with sources := nas.sources }, kuma := true }

def Sample.refusedSync : SyncInput :=
  { now := midnight + seconds 129600, wall := midnight + seconds 129600
    answer := fun _ => .raised "ConnectError" }

def Sample.calm : KumaAnswers where
  created := .ok 7
  token := ⟨"abcdefghijklmnopqrstuvwxyz012345", by decide⟩
  edited := fun _ => .ok ()
  deleted := .ok ()

def Sample.replaced : List AlarmEvent :=
  [.syncTask 1 refusedSync, .delete 1,
    .create { mail with kumaEnabled := false } (midnight + seconds 129601) calm refusedSync]

/-- The failed push of the deleted task is listed for the new one, which has no monitor. -/
theorem deleted_task_stays_listed :
    let s := Sample.replaced.foldl (Alarms.next Sample.trigger Sample.croniter) Sample.alarmed
    s.failures.map (fun f => (f.taskId, f.kind, f.error, f.attempts)) =
        [(1, .push, some "ConnectError", 3)] ∧
      (s.db.tasks.get 1).map (fun t => (t.name, t.kumaEnabled, t.kumaPushToken)) =
        some ("mail", false, none) ∧
      ¬ EveryStep (Alarms.next Sample.trigger Sample.croniter)
        (fun s event => ∀ f ∈ (s.next Sample.trigger Sample.croniter event).failures,
          (s.next Sample.trigger Sample.croniter event).Live f) Sample.alarmed Sample.replaced := by
  refine ⟨by decide +kernel, by decide +kernel, ?_⟩
  rintro ⟨-, live, -⟩
  have sound := (sound_iff _).mpr live
  obtain ⟨row, there, -⟩ := sound.push 1 (by decide +kernel)
  have gone : (((Sample.alarmed.next Sample.trigger Sample.croniter
      (.syncTask 1 Sample.refusedSync)).next Sample.trigger Sample.croniter
        (.delete 1)).db.tasks.get 1).isNone := by decide +kernel
  rw [there] at gone
  cases gone

end Pullbackup
