import Mathlib.Logic.Function.Basic
import Pullbackup.Admission
import Pullbackup.Freshness

/- The job registry (services/scheduler.py) and the task requests (api/tasks.py) with the
   calls to Kuma at which they suspend. A request goes on with the copy of the row that its
   session holds; a commit of its own makes it read the row again. -/
namespace Pullbackup
open KeyedTable History

structure Job where
  cron : String
  generation : Nat
  deriving DecidableEq, Repr

structure Registry where
  jobs : Nat → Option Job := fun _ => none
  generations : Nat → Option Nat := fun _ => none
  made : Nat := 0

def removeJob (r : Registry) (taskId : Nat) : Registry :=
  { r with
    jobs := Function.update r.jobs taskId none
    generations := Function.update r.generations taskId none }

def addJob (r : Registry) (task : Task) : Registry :=
  { jobs := Function.update r.jobs task.id (some ⟨task.cron, r.made⟩)
    generations := Function.update r.generations task.id (some r.made)
    made := r.made + 1 }

def upsertJob (trig : Trigger) (r : Registry) (task : Task) : Registry :=
  let r := removeJob r task.id
  if task.enabled = false then r
  else if trig.parses task.cron = false then r
  else addJob r task

def startJobs (trig : Trigger) (tasks : List Task) : Registry :=
  (tasks.filter fun t => t.enabled).foldl
    (fun r t => if trig.parses t.cron then addJob r t else r) {}

inductive MonitorOp where
  | interval | active
  deriving DecidableEq, Repr

inductive KumaCall where
  | create
  | edit (op : MonitorOp) (rest : List MonitorOp)
  | delete
  | push
  deriving DecidableEq, Repr

def KumaCall.writes : KumaCall → Bool
  | .create | .delete => true
  | .edit _ _ | .push => false

def Task.monitored (t : Task) : Bool := t.kumaMonitorId.any fun id => id ≠ 0

def endSync (copy : Task) (pushes : Bool) : Option KumaCall :=
  if copy.kumaEnabled ∧ (copy.kumaPushToken.any fun token => token ≠ "") ∧ pushes then some .push
  else none

/-- _sync_kuma up to its first call; none when it makes none. -/
def startSync (kuma : Bool) (pendingOps : List MonitorOp) (copy : Task) (prevCron : String)
    (prevEnabled pushes : Bool) : Option KumaCall :=
  if kuma = false then none
  else if copy.kumaEnabled ∧ copy.monitored = false then some .create
  else if copy.kumaEnabled ∧ copy.monitored ∧
      (copy.cron ≠ prevCron ∨ copy.enabled ≠ prevEnabled ∨ pendingOps ≠ []) then
    let owed : MonitorOp → Bool
      | .interval => .interval ∈ pendingOps ∨ copy.cron ≠ prevCron ∨ copy.enabled ≠ prevEnabled
      | .active => .active ∈ pendingOps ∨ copy.enabled ≠ prevEnabled
    match [MonitorOp.interval, MonitorOp.active].filter owed with
    | [] => endSync copy pushes
    | op :: rest => some (.edit op rest)
  else if copy.kumaEnabled = false ∧ copy.monitored then some .delete
  else endSync copy pushes

structure Synced where
  db : Db
  pendingOps : Nat → List MonitorOp
  copy : Task
  call : Option KumaCall

/-- The commit of a monitor's id and token. The session writes these columns by the id of the
    row and then reads the row again; with the row gone the request fails (none). -/
def writeMonitor (db : Db) (pendingOps : Nat → List MonitorOp) (copy : Task)
    (monitor : Option (Nat × String)) (pushes : Bool) : Option Synced :=
  match db.tasks.get copy.id with
  | none => none
  | some row =>
    let row := { row with
      kumaMonitorId := monitor.map Prod.fst, kumaPushToken := monitor.map Prod.snd }
    some ⟨{ db with tasks := db.tasks.put row }, Function.update pendingOps copy.id [], row,
      endSync row pushes⟩

/-- _sync_kuma after a call: none when the call raised, else what it answered. -/
def resumeSync (db : Db) (pendingOps : Nat → List MonitorOp) (copy : Task) (pushes : Bool) :
    KumaCall → Option (Nat × String) → Option Synced
  | .create, none => some ⟨db, Function.update pendingOps copy.id [], copy, none⟩
  | .create, some monitor => writeMonitor db pendingOps copy (some monitor) pushes
  | .edit op rest, none => some ⟨db, Function.update pendingOps copy.id (op :: rest), copy, none⟩
  | .edit _ (op :: rest), some _ => some ⟨db, pendingOps, copy, some (.edit op rest)⟩
  | .edit _ [], some _ =>
    some ⟨db, Function.update pendingOps copy.id [], copy, endSync copy pushes⟩
  | .delete, none => some ⟨db, Function.update pendingOps copy.id [], copy, none⟩
  | .delete, some _ => writeMonitor db pendingOps copy none pushes
  | .push, _ => some ⟨db, pendingOps, copy, none⟩

def purgeTask (db : Db) (taskId : Nat) : Db :=
  { db with
    tasks := db.tasks.erase taskId
    taskDue := db.taskDue.erase taskId
    runs := db.runs.keep fun r => r.taskId ≠ taskId }

inductive RequestKind where
  | create | update | delete
  deriving DecidableEq, Repr

structure Request where
  id : Nat
  kind : RequestKind
  copy : Task
  call : KumaCall
  deriving DecidableEq, Repr

instance : Keyed Request Nat := ⟨Request.id⟩

@[simp] theorem key_request (r : Request) : Keyed.key r = r.id := rfl

/-- create_task takes no lock. -/
def Request.holdsLock (r : Request) : Bool := r.kind ≠ .create

structure ApiEnv where
  trig : Trigger
  kuma : Bool

structure Api where
  db : Db
  registry : Registry
  pendingOps : Nat → List MonitorOp := fun _ => []
  requests : Table Request := .empty

def Api.start (env : ApiEnv) (db : Db) : Api :=
  { db := db, registry := startJobs env.trig db.tasks.rows }

def Api.locked (api : Api) : Bool := api.requests.rows.any Request.holdsLock

def Api.proceed (api : Api) (env : ApiEnv) (id : Nat) (kind : RequestKind) (copy : Task) :
    Option KumaCall → Api
  | some call => { api with requests := api.requests.put ⟨id, kind, copy, call⟩ }
  | none =>
    { api with
      registry := upsertJob env.trig api.registry copy, requests := api.requests.erase id }

def Api.purge (api : Api) (taskId : Nat) : Api :=
  { api with db := purgeTask api.db taskId, registry := removeJob api.registry taskId }

/-- What happens between two suspensions. The projection decides whether a sync pushes;
    elsewhere is any other transaction of the service. -/
inductive ApiEvent where
  | create (data : TaskFields) (now : Int) (pushes : Bool)
  | update (task : Nat) (data : TaskFields) (now : Int) (pushes : Bool)
  | delete (task : Nat)
  | resume (request : Nat) (answer : Option (Nat × String)) (pushes : Bool)
  | elsewhere (db : Db)

def Api.create (env : ApiEnv) (api : Api) (data : TaskFields) (now : Int) (pushes : Bool) : Api :=
  match createTask api.db data now with
  | .error _ => api
  | .ok db =>
    match db.tasks.get (nextId api.db.tasks) with
    | none => api
    | some copy =>
      { api with db := db }.proceed env (nextId api.requests) .create copy
        (startSync env.kuma (api.pendingOps copy.id) copy "" true pushes)

def Api.update (env : ApiEnv) (api : Api) (task : Nat) (data : TaskFields) (now : Int)
    (pushes : Bool) : Api :=
  match api.db.tasks.get task with
  | none => api
  | some prev =>
    match updateTask api.db task data now with
    | .error _ => api
    | .ok db =>
      match db.tasks.get task with
      | none => api
      | some copy =>
        { api with db := db }.proceed env (nextId api.requests) .update copy
          (startSync env.kuma (api.pendingOps task) copy prev.cron prev.enabled pushes)

def Api.delete (env : ApiEnv) (api : Api) (task : Nat) : Api :=
  match api.db.tasks.get task with
  | none => api
  | some row =>
    if taskActive api.db task then api
    else if row.monitored ∧ env.kuma then
      { api with requests := api.requests.put ⟨nextId api.requests, .delete, row, .delete⟩ }
    else api.purge task

def Api.resume (env : ApiEnv) (api : Api) (r : Request) (answer : Option (Nat × String))
    (pushes : Bool) : Api :=
  match r.kind with
  | .delete => { api with requests := api.requests.erase r.id }.purge r.copy.id
  | _ =>
    match resumeSync api.db api.pendingOps r.copy pushes r.call answer with
    | none => { api with requests := api.requests.erase r.id }
    | some s =>
      { api with db := s.db, pendingOps := s.pendingOps }.proceed env r.id r.kind s.copy s.call

/-- The rows of the tasks stay, with the columns that a client edits. -/
def SameFields (db db' : Db) : Prop :=
  ∀ id, (db'.tasks.get id).map Task.toTaskFields = (db.tasks.get id).map Task.toTaskFields

def ApiStep (env : ApiEnv) (api : Api) (event : ApiEvent) (api' : Api) : Prop :=
  match event with
  | .create data now pushes => api' = api.create env data now pushes
  | .update task data now pushes => api.locked = false ∧ api' = api.update env task data now pushes
  | .delete task => api.locked = false ∧ api' = api.delete env task
  | .resume id answer pushes =>
    ∃ r, api.requests.get id = some r ∧ api' = api.resume env r answer pushes
  | .elsewhere db => SameFields api.db db ∧ api' = { api with db := db }

def wantedJob (trig : Trigger) (task : Option Task) : Option String :=
  task.bind fun t => if t.enabled ∧ trig.parses t.cron then some t.cron else none

/-- A create that is about to register the copy it read when it began (its monitor was not
    created, or its push is over) finds the row asking for the same job. -/
def UnchangedCopy (env : ApiEnv) (api : Api) : ApiEvent → Prop
  | .resume id answer _ => ∀ r, api.requests.get id = some r → r.kind = .create →
      (r.call = .create → answer = none) →
      wantedJob env.trig (some r.copy) = wantedJob env.trig (api.db.tasks.get r.copy.id)
  | _ => True

def ApiStepUnchanged (env : ApiEnv) (api : Api) (event : ApiEvent) (api' : Api) : Prop :=
  ApiStep env api event api' ∧ UnchangedCopy env api event

section Registry
variable {trig : Trigger} {r : Registry} {task : Task}

def Registry.cron (r : Registry) (id : Nat) : Option String := (r.jobs id).map Job.cron

theorem removeJob_cron (r : Registry) (taskId id : Nat) :
    (removeJob r taskId).cron id = if id = taskId then none else r.cron id := by
  unfold Registry.cron removeJob
  by_cases same : id = taskId
  · simp [same]
  · simp [same]

theorem addJob_cron (r : Registry) (task : Task) (id : Nat) :
    (addJob r task).cron id = if id = task.id then some task.cron else r.cron id := by
  unfold Registry.cron addJob
  by_cases same : id = task.id
  · simp [same]
  · simp [same]

theorem upsertJob_cron (trig : Trigger) (r : Registry) (task : Task) (id : Nat) :
    (upsertJob trig r task).cron id =
      if id = task.id then wantedJob trig (some task) else r.cron id := by
  cases enabled : task.enabled with
  | false =>
    simp only [upsertJob, enabled, if_true, removeJob_cron]
    split <;> simp [wantedJob, enabled]
  | true =>
    cases parses : trig.parses task.cron with
    | false =>
      simp only [upsertJob, enabled, parses, Bool.true_eq_false, if_false, if_true, removeJob_cron]
      split <;> simp [wantedJob, enabled, parses]
    | true =>
      simp only [upsertJob, enabled, parses, Bool.true_eq_false, if_false, addJob_cron,
        removeJob_cron]
      split <;> simp [wantedJob, enabled, parses]

/-- The live tokens are those of the jobs, and every token was made once. -/
structure Registry.Tokened (r : Registry) : Prop where
  live : ∀ id, r.generations id = (r.jobs id).map Job.generation
  made : ∀ id job, r.jobs id = some job → job.generation < r.made

theorem removeJob_tokened (tokened : r.Tokened) (taskId : Nat) : (removeJob r taskId).Tokened := by
  refine ⟨fun id => ?_, fun id job here => ?_⟩
  · unfold removeJob
    by_cases same : id = taskId
    · simp [same]
    · simpa [same] using tokened.live id
  · unfold removeJob at here
    by_cases same : id = taskId
    · simp [same] at here
    · exact tokened.made id job (by simpa [same] using here)

theorem addJob_tokened (tokened : r.Tokened) (task : Task) : (addJob r task).Tokened := by
  refine ⟨fun id => ?_, fun id job here => ?_⟩
  · unfold addJob
    by_cases same : id = task.id
    · simp [same]
    · simpa [same] using tokened.live id
  · unfold addJob at here ⊢
    by_cases same : id = task.id
    · obtain rfl : (⟨task.cron, r.made⟩ : Job) = job := by simpa [same] using here
      exact Nat.lt_succ_self _
    · exact Nat.lt_succ_of_lt (tokened.made id job (by simpa [same] using here))

theorem upsertJob_tokened (tokened : r.Tokened) (trig : Trigger) (task : Task) :
    (upsertJob trig r task).Tokened := by
  have removed := removeJob_tokened tokened task.id
  simp only [upsertJob]
  split
  · exact removed
  · split
    · exact removed
    · exact addJob_tokened removed task

theorem upsertJob_kills (tokened : r.Tokened) (trig : Trigger) (task : Task) {id : Nat} {job : Job}
    (here : r.jobs task.id = some job) (same : id = task.id) :
    (upsertJob trig r task).generations id ≠ some job.generation := by
  have before := tokened.made task.id job here
  simp only [upsertJob]
  split
  · simp [removeJob, same]
  · split
    · simp [removeJob, same]
    · simp only [addJob, removeJob, same, Function.update_self, ne_eq, Option.some.injEq]
      omega

theorem startJobs_other (trig : Trigger) (tasks : List Task) (r : Registry) {id : Nat}
    (other : ∀ t ∈ tasks, t.id ≠ id) :
    (tasks.foldl (fun r t => if trig.parses t.cron then addJob r t else r) r).cron id =
      r.cron id := by
  induction tasks generalizing r with
  | nil => rfl
  | cons t tasks ih =>
    have apart : id ≠ t.id := fun same => other t (by simp) same.symm
    rw [List.foldl_cons, ih _ fun u mem => other u (List.mem_cons_of_mem t mem)]
    split
    · rw [addJob_cron, if_neg apart]
    · rfl

theorem startJobs_own (trig : Trigger) (tasks : List Task) (r : Registry)
    (unique : (tasks.map Task.id).Nodup) {t : Task} (mem : t ∈ tasks) :
    (tasks.foldl (fun r t => if trig.parses t.cron then addJob r t else r) r).cron t.id =
      if trig.parses t.cron then some t.cron else r.cron t.id := by
  induction tasks generalizing r with
  | nil => cases mem
  | cons u tasks ih =>
    obtain ⟨fresh, rest⟩ := List.nodup_cons.mp unique
    rw [List.foldl_cons]
    rcases List.mem_cons.mp mem with rfl | later
    · rw [startJobs_other]
      · split <;> simp [addJob_cron]
      · intro v mv same
        exact fresh (List.mem_map.mpr ⟨v, mv, same⟩)
    · have apart : t.id ≠ u.id := fun same => fresh (List.mem_map.mpr ⟨t, later, same⟩)
      rw [ih _ rest later]
      split
      · rfl
      · split
        · rw [addJob_cron, if_neg apart]
        · rfl

theorem startJobs_cron (trig : Trigger) (tasks : Table Task) (id : Nat) :
    (startJobs trig tasks.rows).cron id = wantedJob trig (tasks.get id) := by
  have nothing : ({} : Registry).cron id = none := rfl
  unfold startJobs
  by_cases on : ∃ t ∈ tasks.rows, t.id = id ∧ t.enabled = true
  · obtain ⟨t, mem, rfl, enabled⟩ := on
    have unique : ((tasks.rows.filter fun t => t.enabled).map Task.id).Nodup :=
      (List.filter_sublist.map Task.id).nodup tasks.unique
    have stored : tasks.get t.id = some t := Table.get_of_mem mem
    rw [startJobs_own trig _ _ unique (List.mem_filter.mpr ⟨mem, enabled⟩), nothing, stored]
    simp [wantedJob, enabled]
  · rw [startJobs_other, nothing]
    · cases stored : tasks.get id with
      | none => rfl
      | some t =>
        have off : t.enabled = false := by
          by_contra enabled
          exact on ⟨t, Table.mem_of_get stored, Table.key_of_get stored, by simpa using enabled⟩
        simp [wantedJob, off]
    · intro t mem same
      obtain ⟨here, enabled⟩ := List.mem_filter.mp mem
      exact on ⟨t, here, same, enabled⟩

end Registry

/- The invariant: a job that disagrees with its row has a request in flight that is going
   to register it. -/

def Api.Agrees (env : ApiEnv) (api : Api) (id : Nat) : Prop :=
  api.registry.cron id = wantedJob env.trig (api.db.tasks.get id)

/-- This request will register a job for the id: a create whose row may be gone by its commit
    fails instead. -/
def Api.Repairs (api : Api) (id : Nat) (r : Request) : Prop :=
  r ∈ api.requests.rows ∧ r.copy.id = id ∧ r.kind ≠ .delete ∧
    (r.call.writes = true → (api.db.tasks.get id).isSome)

structure Api.Sound (env : ApiEnv) (api : Api) : Prop where
  calls : ∀ r ∈ api.requests.rows, r.kind = .create → r.call = .create ∨ r.call = .push
  alone : ∀ r ∈ api.requests.rows, ∀ s ∈ api.requests.rows, r.holdsLock → s.holdsLock → r = s
  current : ∀ r ∈ api.requests.rows, r.kind = .update → (api.db.tasks.get r.copy.id).isSome ∧
    wantedJob env.trig (some r.copy) = wantedJob env.trig (api.db.tasks.get r.copy.id)
  repaired : ∀ id, api.Agrees env id ∨ ∃ r, api.Repairs id r

section Steps
variable {env : ApiEnv} {api : Api}

theorem start_sound (env : ApiEnv) (db : Db) : (Api.start env db).Sound env := by
  have bare : (Api.start env db).requests.rows = [] := rfl
  refine ⟨?_, ?_, ?_, fun id => Or.inl (startJobs_cron env.trig db.tasks id)⟩ <;>
    simp [bare]

/-- The row of the id is still there or still absent, and asks for the same job. -/
def KeepsJob (trig : Trigger) (db db' : Db) (id : Nat) : Prop :=
  (db'.tasks.get id).isSome = (db.tasks.get id).isSome ∧
    wantedJob trig (db'.tasks.get id) = wantedJob trig (db.tasks.get id)

theorem keepsJob_of_get {trig : Trigger} {db db' : Db} {id : Nat}
    (same : db'.tasks.get id = db.tasks.get id) : KeepsJob trig db db' id := by
  rw [KeepsJob, same]
  exact ⟨rfl, rfl⟩

theorem keepsJob_of_sameFields {trig : Trigger} {db db' : Db} (same : SameFields db db')
    (id : Nat) : KeepsJob trig db db' id := by
  have fields := same id
  unfold KeepsJob wantedJob
  cases old : db.tasks.get id with
  | none =>
    rw [old, Option.map_none, Option.map_eq_none_iff] at fields
    rw [fields]
    exact ⟨rfl, rfl⟩
  | some t =>
    rw [old, Option.map_some] at fields
    obtain ⟨u, new, columns⟩ := Option.map_eq_some_iff.mp fields
    rw [new]
    simp [columns]

theorem agrees_of_keepsJob {db : Db} {ops : Nat → List MonitorOp} {requests : Table Request}
    {n : Nat} (keeps : KeepsJob env.trig api.db db n) (agrees : api.Agrees env n) :
    ({ api with db := db, pendingOps := ops, requests := requests } : Api).Agrees env n :=
  agrees.trans keeps.2.symm

theorem repairs_of_keepsJob {db : Db} {ops : Nat → List MonitorOp} {requests : Table Request}
    {n : Nat} {r : Request} (keeps : KeepsJob env.trig api.db db n) (repairs : api.Repairs n r)
    (mem : r ∈ requests.rows) :
    ({ api with db := db, pendingOps := ops, requests := requests } : Api).Repairs n r :=
  ⟨mem, repairs.2.1, repairs.2.2.1, fun writes => keeps.1.trans (repairs.2.2.2 writes)⟩

/-- What the requests other than id need, when the row of copyId is going to be registered. -/
structure Api.SoundBut (env : ApiEnv) (api : Api) (id copyId : Nat) : Prop where
  calls : ∀ r ∈ api.requests.rows, r.id ≠ id → r.kind = .create → r.call = .create ∨ r.call = .push
  alone : ∀ r ∈ api.requests.rows, ∀ s ∈ api.requests.rows, r.id ≠ id → s.id ≠ id →
    r.holdsLock → s.holdsLock → r = s
  current : ∀ r ∈ api.requests.rows, r.id ≠ id → r.kind = .update →
    (api.db.tasks.get r.copy.id).isSome ∧
      wantedJob env.trig (some r.copy) = wantedJob env.trig (api.db.tasks.get r.copy.id)
  repaired : ∀ n, n ≠ copyId → api.Agrees env n ∨ ∃ r, r.id ≠ id ∧ api.Repairs n r

theorem sound_but (sound : api.Sound env) {db : Db} {ops : Nat → List MonitorOp} {id copyId : Nat}
    (own : ∀ r ∈ api.requests.rows, r.id = id → r.copy.id = copyId)
    (keeps : ∀ n, n ≠ copyId → KeepsJob env.trig api.db db n)
    (updates : ∀ r ∈ api.requests.rows, r.id ≠ id → r.kind = .update →
      KeepsJob env.trig api.db db r.copy.id) :
    ({ api with db := db, pendingOps := ops } : Api).SoundBut env id copyId := by
  refine ⟨fun r mem _ => sound.calls r mem, fun r mr s ms _ _ => sound.alone r mr s ms,
    fun r mem other kind => ?_, fun n apart => ?_⟩
  · have kept := updates r mem other kind
    have current := sound.current r mem kind
    exact ⟨kept.1.trans current.1, current.2.trans kept.2.symm⟩
  · rcases sound.repaired n with agrees | ⟨r, repairs⟩
    · exact Or.inl (agrees_of_keepsJob (keeps n apart) agrees)
    · refine Or.inr ⟨r, fun same => apart ?_, repairs_of_keepsJob (keeps n apart) repairs repairs.1⟩
      rw [← repairs.2.1, own r repairs.1 same]

theorem proceed_sound {id : Nat} {kind : RequestKind} {copy : Task} {call : Option KumaCall}
    (others : api.SoundBut env id copy.id) (kept : kind ≠ .delete)
    (free : kind ≠ .create → ∀ r ∈ api.requests.rows, r.id ≠ id → r.holdsLock = false)
    (creates : kind = .create → ∀ c, call = some c → c = .create ∨ c = .push)
    (there : ∀ c, call = some c → kind = .update ∨ c.writes = true →
      (api.db.tasks.get copy.id).isSome)
    (current : call = none ∨ kind = .update →
      wantedJob env.trig (some copy) = wantedJob env.trig (api.db.tasks.get copy.id)) :
    (api.proceed env id kind copy call).Sound env := by
  cases call with
  | none =>
    have same : wantedJob env.trig (some copy) = _ := current (Or.inl rfl)
    have rest : ∀ r ∈ (api.requests.erase id).rows, r ∈ api.requests.rows ∧ r.id ≠ id :=
      fun r mem => Table.mem_erase_iff.mp mem
    refine ⟨fun r mem => others.calls r (rest r mem).1 (rest r mem).2,
      fun r mr s ms => others.alone r (rest r mr).1 s (rest s ms).1 (rest r mr).2 (rest s ms).2,
      fun r mem => others.current r (rest r mem).1 (rest r mem).2, fun n => ?_⟩
    by_cases own : n = copy.id
    · refine Or.inl ?_
      rw [Api.Agrees, Api.proceed, upsertJob_cron, if_pos own, own]
      exact same
    · rcases others.repaired n own with agrees | ⟨r, other, repairs⟩
      · refine Or.inl ?_
        rw [Api.Agrees, Api.proceed, upsertJob_cron, if_neg own]
        exact agrees
      · exact Or.inr ⟨r, Table.mem_erase_iff.mpr ⟨repairs.1, other⟩, repairs.2⟩
  | some c =>
    have split_rows : ∀ r ∈ (api.requests.put ⟨id, kind, copy, c⟩).rows,
        r = ⟨id, kind, copy, c⟩ ∨ (r.id ≠ id ∧ r ∈ api.requests.rows) :=
      fun r mem => Table.mem_put_iff.mp mem
    refine ⟨fun r mem create => ?_, fun r mr s ms hr hs => ?_, fun r mem update => ?_, fun n => ?_⟩
    · rcases split_rows r mem with rfl | ⟨other, old⟩
      · exact creates create c rfl
      · exact others.calls r old other create
    · -- a request that holds the lock found it free
      have unlocked : kind ≠ .create → ∀ t ∈ api.requests.rows, t.id ≠ id → ¬ t.holdsLock :=
        fun update t mt other => by simp [free update t mt other]
      rcases split_rows r mr with rfl | ⟨or, old_r⟩ <;>
        rcases split_rows s ms with rfl | ⟨os, old_s⟩
      · rfl
      · exact absurd hs (unlocked (by simpa [Request.holdsLock] using hr) s old_s os)
      · exact absurd hr (unlocked (by simpa [Request.holdsLock] using hs) r old_r or)
      · exact others.alone r old_r s old_s or os hr hs
    · rcases split_rows r mem with rfl | ⟨other, old⟩
      · exact ⟨there c rfl (Or.inl update), current (Or.inr update)⟩
      · exact others.current r old other update
    · by_cases own : n = copy.id
      · exact Or.inr ⟨_, Table.mem_put_iff.mpr (Or.inl rfl), own.symm, kept,
          fun writes => own ▸ there c rfl (Or.inr writes)⟩
      · rcases others.repaired n own with agrees | ⟨r, other, repairs⟩
        · exact Or.inl agrees
        · exact Or.inr ⟨r, Table.mem_put_iff.mpr (Or.inr ⟨other, repairs.1⟩), repairs.2⟩

theorem endSync_push {copy : Task} {pushes : Bool} {c : KumaCall}
    (call : endSync copy pushes = some c) : c = .push := by
  unfold endSync at call
  split at call
  · exact (Option.some.inj call).symm
  · cases call

theorem writeMonitor_row {db : Db} {ops : Nat → List MonitorOp} {copy : Task}
    {monitor : Option (Nat × String)} {pushes : Bool} {s : Synced}
    (wrote : writeMonitor db ops copy monitor pushes = some s) :
    (∀ trig n, KeepsJob trig db s.db n) ∧ s.db.tasks.get copy.id = some s.copy ∧
      s.copy.id = copy.id ∧ ∀ c, s.call = some c → c = .push := by
  unfold writeMonitor at wrote
  cases stored : db.tasks.get copy.id with
  | none =>
    rw [stored] at wrote
    cases wrote
  | some row =>
    rw [stored] at wrote
    obtain rfl := Option.some.inj wrote
    have key : row.id = copy.id := Table.key_of_get stored
    refine ⟨fun trig n => ?_, ?_, key, fun c call => endSync_push call⟩
    · unfold KeepsJob
      simp only [Table.get_put, key_task, key]
      by_cases own : copy.id = n
      · subst own
        simp [stored, wantedJob]
      · simp [own]
    · rw [Table.get_put, key_task, if_pos key]

/-- _sync_kuma goes on with the copy it had, or with the row after a commit of its own. -/
structure Synced.Continues (db : Db) (copy : Task) (call : KumaCall)
    (answer : Option (Nat × String)) (s : Synced) : Prop where
  own : s.copy.id = copy.id
  keeps : ∀ trig n, KeepsJob trig db s.db n
  calls : ∀ c, s.call = some c → c = .push ∨ ∃ op rest op' rest', call = .edit op rest ∧
    c = .edit op' rest'
  reads : (s.copy = copy ∧ s.db = db ∧ (call = .create → answer = none)) ∨
    s.db.tasks.get copy.id = some s.copy

theorem continues_unread {db : Db} {ops : Nat → List MonitorOp} {copy : Task} {call : KumaCall}
    {answer : Option (Nat × String)} {next : Option KumaCall}
    (calls : ∀ c, next = some c → c = .push ∨ ∃ op rest op' rest', call = .edit op rest ∧
      c = .edit op' rest')
    (failed : call = .create → answer = none) :
    Synced.Continues db copy call answer ⟨db, ops, copy, next⟩ :=
  ⟨rfl, fun _ _ => keepsJob_of_get rfl, calls, Or.inl ⟨rfl, rfl, failed⟩⟩

theorem continues_read {db : Db} {ops : Nat → List MonitorOp} {copy : Task} {call : KumaCall}
    {answer monitor : Option (Nat × String)} {pushes : Bool} {s : Synced}
    (wrote : writeMonitor db ops copy monitor pushes = some s) :
    Synced.Continues db copy call answer s := by
  obtain ⟨keeps, row, key, pushed⟩ := writeMonitor_row wrote
  exact ⟨key, keeps, fun c next => Or.inl (pushed c next), Or.inr row⟩

theorem resumeSync_continues {db : Db} {ops : Nat → List MonitorOp} {copy : Task} {pushes : Bool}
    {call : KumaCall} {answer : Option (Nat × String)} {s : Synced}
    (resumed : resumeSync db ops copy pushes call answer = some s) :
    Synced.Continues db copy call answer s := by
  cases call with
  | create =>
    cases answer with
    | none =>
      cases resumed
      exact continues_unread (fun c next => by cases next) fun _ => rfl
    | some monitor => exact continues_read resumed
  | edit op rest =>
    cases answer with
    | none =>
      cases resumed
      exact continues_unread (fun c next => by cases next) fun _ => rfl
    | some monitor =>
      cases rest with
      | nil =>
        cases resumed
        exact continues_unread (fun c next => Or.inl (endSync_push next)) fun other => by cases other
      | cons op' rest =>
        cases resumed
        exact continues_unread
          (fun c next => Or.inr ⟨op, op' :: rest, op', rest, rfl, (Option.some.inj next).symm⟩)
          fun other => by cases other
  | delete =>
    cases answer with
    | none =>
      cases resumed
      exact continues_unread (fun c next => by cases next) fun _ => rfl
    | some monitor => exact continues_read resumed
  | push =>
    cases resumed
    exact continues_unread (fun c next => by cases next) fun other => by cases other

theorem resumeSync_none {db : Db} {ops : Nat → List MonitorOp} {copy : Task} {pushes : Bool}
    {call : KumaCall} {answer : Option (Nat × String)}
    (failed : resumeSync db ops copy pushes call answer = none) :
    call.writes = true ∧ db.tasks.get copy.id = none := by
  have row_gone : ∀ {monitor : Option (Nat × String)},
      writeMonitor db ops copy monitor pushes = none → db.tasks.get copy.id = none := by
    intro monitor failed
    unfold writeMonitor at failed
    split at failed
    · assumption
    · cases failed
  cases call with
  | create =>
    cases answer with
    | none => cases failed
    | some monitor => exact ⟨rfl, row_gone failed⟩
  | edit op rest =>
    cases answer with
    | none => cases failed
    | some monitor => cases rest <;> cases failed
  | delete =>
    cases answer with
    | none => cases failed
    | some monitor => exact ⟨rfl, row_gone failed⟩
  | push => cases failed

theorem request_fresh {r : Request} (mem : r ∈ api.requests.rows) : r.id ≠ nextId api.requests :=
  Nat.ne_of_lt (key_lt_nextId api.requests mem)

theorem holdsLock_of_locked (unlocked : api.locked = false) :
    ∀ r ∈ api.requests.rows, r.holdsLock = false := by
  simpa [Api.locked, List.any_eq_false] using unlocked

theorem create_sound (sound : api.Sound env) (data : TaskFields) (now : Int) (pushes : Bool) :
    (api.create env data now pushes).Sound env := by
  unfold Api.create
  split
  · exact sound
  · rename_i db created
    split
    · exact sound
    · rename_i copy stored
      have key : copy.id = nextId api.db.tasks := Table.key_of_get stored
      have tasks : db.tasks = api.db.tasks.put
          { data with id := nextId api.db.tasks, createdAt := now, updatedAt := now } := by
        unfold createTask at created
        split at created
        · cases created
        · cases created; rfl
      have row : copy = { data with id := nextId api.db.tasks, createdAt := now, updatedAt := now } := by
        rw [tasks, Table.get_put, key_task, if_pos rfl] at stored
        exact (Option.some.inj stored).symm
      have keeps : ∀ n, n ≠ copy.id → KeepsJob env.trig api.db db n := by
        intro n apart
        refine keepsJob_of_get ?_
        rw [tasks, Table.get_put_ne (fun same => apart (same.symm.trans key.symm))]
      have updates : ∀ r ∈ api.requests.rows, r.id ≠ nextId api.requests → r.kind = .update →
          KeepsJob env.trig api.db db r.copy.id := by
        intro r mem _ update
        refine keeps _ fun same => ?_
        have there := (sound.current r mem update).1
        rw [same, key, get_nextId] at there
        cases there
      -- a new row has no monitor and no token
      have unmonitored : ∀ ops c, startSync env.kuma ops copy "" true pushes = some c → c = .create := by
        intro ops c call
        have bare : copy.monitored = false ∧ copy.kumaPushToken = none := by
          rw [row]
          exact ⟨rfl, rfl⟩
        simp only [startSync, endSync, bare, Option.any_none] at call
        split at call
        · cases call
        · split at call
          · exact (Option.some.inj call).symm
          · simp at call
      have others : ({ api with db := db } : Api).SoundBut env (nextId api.requests) copy.id :=
        sound_but sound (fun r mem same => absurd same (request_fresh mem)) keeps updates
      refine proceed_sound others (by simp) (fun create => absurd rfl create)
        (fun _ c call => Or.inl (unmonitored _ c call)) (fun c _ _ => ?_) (fun _ => ?_)
      · rw [show db.tasks.get copy.id = some copy from key ▸ stored]
        rfl
      · rw [show db.tasks.get copy.id = some copy from key ▸ stored]

/-- An accepted edit writes the columns of the client, and keeps those of the monitor. -/
theorem updateTask_row {db db' : Db} {task : Nat} {data : TaskFields} {now : Int}
    (updated : updateTask db task data now = .ok db') :
    ∃ prev row, db.tasks.get task = some prev ∧ db'.tasks = db.tasks.put row ∧ row.id = task ∧
      row.toTaskFields = data ∧ row.kumaMonitorId = prev.kumaMonitorId ∧
      row.kumaPushToken = prev.kumaPushToken := by
  unfold updateTask at updated
  split at updated
  · cases updated
  · rename_i prev stored
    have key : prev.id = task := Table.key_of_get stored
    split at updated
    · cases updated
    · cases updated
      refine ⟨prev, _, stored, rfl, ?_⟩
      unfold onTaskEdited
      split
      · exact ⟨key, rfl, rfl, rfl⟩
      · split
        · exact ⟨key, rfl, rfl, rfl⟩
        · split <;> exact ⟨key, rfl, rfl, rfl⟩

theorem updateTask_put {db db' : Db} {task : Nat} {data : TaskFields} {now : Int}
    (updated : updateTask db task data now = .ok db') :
    ∃ row, db'.tasks = db.tasks.put row ∧ row.id = task := by
  obtain ⟨prev, row, -, tasks, key, -⟩ := updateTask_row updated
  exact ⟨row, tasks, key⟩

theorem update_sound (sound : api.Sound env) (unlocked : api.locked = false) (task : Nat)
    (data : TaskFields) (now : Int) (pushes : Bool) :
    (api.update env task data now pushes).Sound env := by
  have free := holdsLock_of_locked unlocked
  unfold Api.update
  split
  · exact sound
  · rename_i prev found
    split
    · exact sound
    · rename_i db updated
      split
      · exact sound
      · rename_i copy stored
        have key : copy.id = task := Table.key_of_get stored
        have keeps : ∀ n, n ≠ copy.id → KeepsJob env.trig api.db db n := by
          intro n apart
          obtain ⟨row, tasks, own⟩ := updateTask_put updated
          refine keepsJob_of_get ?_
          rw [tasks, Table.get_put_ne (fun same => apart (same.symm.trans (own.trans key.symm)))]
        have updates : ∀ r ∈ api.requests.rows, r.id ≠ nextId api.requests → r.kind = .update →
            KeepsJob env.trig api.db db r.copy.id := by
          intro r mem _ update
          have held := free r mem
          simp [Request.holdsLock, update] at held
        have others : ({ api with db := db } : Api).SoundBut env (nextId api.requests) copy.id :=
          sound_but sound (fun r mem same => absurd same (request_fresh mem)) keeps updates
        refine proceed_sound others (by simp) (fun _ r mem _ => free r mem)
          (fun create => by cases create) (fun c _ _ => ?_) (fun _ => ?_)
        · rw [show db.tasks.get copy.id = some copy from key ▸ stored]
          rfl
        · rw [show db.tasks.get copy.id = some copy from key ▸ stored]

theorem purge_sound (sound : api.Sound env) (task : Nat) (requests : Table Request)
    (kept : ∀ r ∈ requests.rows, r ∈ api.requests.rows ∧ r.holdsLock = false)
    (stay : ∀ r ∈ api.requests.rows, r.kind ≠ .delete → r ∈ requests.rows) :
    ({ api with requests := requests }.purge task).Sound env := by
  have others : ∀ n, n ≠ task → (purgeTask api.db task).tasks.get n = api.db.tasks.get n := by
    intro n apart
    simp only [purgeTask, Table.get_erase, if_neg apart]
  refine ⟨fun r mem => sound.calls r (kept r mem).1,
    fun r mr s ms hr => absurd hr (by simp [(kept r mr).2]),
    fun r mem update => ?_, fun n => ?_⟩
  · have held := (kept r mem).2
    simp [Request.holdsLock, update] at held
  · by_cases own : n = task
    · refine Or.inl ?_
      subst own
      simp [Api.Agrees, Api.purge, removeJob_cron, purgeTask, Table.get_erase, wantedJob]
    · rcases sound.repaired n with agrees | ⟨r, repairs⟩
      · refine Or.inl ?_
        simp only [Api.Agrees, Api.purge, removeJob_cron, if_neg own, others n own]
        exact agrees
      · refine Or.inr ⟨r, stay r repairs.1 repairs.2.2.1, repairs.2.1, repairs.2.2.1, fun writes => ?_⟩
        show ((purgeTask api.db task).tasks.get n).isSome = true
        rw [others n own]
        exact repairs.2.2.2 writes

theorem delete_sound (sound : api.Sound env) (unlocked : api.locked = false) (task : Nat) :
    (api.delete env task).Sound env := by
  have free := holdsLock_of_locked unlocked
  unfold Api.delete
  split
  · exact sound
  · rename_i row stored
    split
    · exact sound
    · split
      · -- the request holds the lock while it awaits Kuma, and owes no job
        have old : ∀ r ∈ (api.requests.put ⟨nextId api.requests, .delete, row, .delete⟩).rows,
            r.kind ≠ .delete → r ∈ api.requests.rows := by
          intro r mem other
          rcases Table.mem_put_iff.mp mem with rfl | ⟨-, here⟩
          · exact absurd rfl other
          · exact here
        have free' : ∀ r ∈ (api.requests.put ⟨nextId api.requests, .delete, row, .delete⟩).rows,
            r.holdsLock → r = ⟨nextId api.requests, .delete, row, .delete⟩ := by
          intro r mem held
          rcases Table.mem_put_iff.mp mem with rfl | ⟨-, here⟩
          · rfl
          · simp [free r here] at held
        refine ⟨fun r mem create => sound.calls r (old r mem (by simp [create])) create,
          fun r mr s ms hr hs => (free' r mr hr).trans (free' s ms hs).symm,
          fun r mem update => sound.current r (old r mem (by simp [update])) update, fun n => ?_⟩
        rcases sound.repaired n with agrees | ⟨r, repairs⟩
        · exact Or.inl agrees
        · exact Or.inr ⟨r, Table.mem_put_iff.mpr
            (Or.inr ⟨request_fresh repairs.1, repairs.1⟩), repairs.2⟩
      · exact purge_sound sound task api.requests (fun r mem => ⟨mem, free r mem⟩) fun r mem _ => mem

theorem request_unique {r s : Request} (mr : r ∈ api.requests.rows) (ms : s ∈ api.requests.rows)
    (same : r.id = s.id) : r = s := Table.key_injective mr ms same

theorem others_unlocked (sound : api.Sound env) {r : Request} (mem : r ∈ api.requests.rows)
    (held : r.holdsLock = true) :
    ∀ s ∈ api.requests.rows, s.id ≠ r.id → s.holdsLock = false := by
  intro s ms other
  by_contra locked
  exact other (congrArg Request.id (sound.alone s ms r mem (by simpa using locked) held))

theorem fail_sound (sound : api.Sound env) {r : Request} (mem : r ∈ api.requests.rows)
    (writes : r.call.writes = true) (gone : api.db.tasks.get r.copy.id = none) :
    ({ api with requests := api.requests.erase r.id } : Api).Sound env := by
  have rest : ∀ s ∈ (api.requests.erase r.id).rows, s ∈ api.requests.rows :=
    fun s ms => (Table.mem_erase_iff.mp ms).1
  refine ⟨fun s ms => sound.calls s (rest s ms),
    fun s ms t mt => sound.alone s (rest s ms) t (rest t mt),
    fun s ms => sound.current s (rest s ms), fun n => ?_⟩
  rcases sound.repaired n with agrees | ⟨s, repairs⟩
  · exact Or.inl agrees
  · refine Or.inr ⟨s, Table.mem_erase_iff.mpr ⟨repairs.1, fun same => ?_⟩, repairs.2⟩
    -- the failing request repairs nothing: its row is gone
    obtain rfl := request_unique repairs.1 mem same
    have there := repairs.2.2.2 writes
    rw [← repairs.2.1, gone] at there
    cases there

theorem resume_delete_sound (sound : api.Sound env) {r : Request} (mem : r ∈ api.requests.rows)
    (kind : r.kind = .delete) :
    ({ api with requests := api.requests.erase r.id }.purge r.copy.id).Sound env := by
  have free := others_unlocked sound mem (by simp [Request.holdsLock, kind])
  refine purge_sound sound r.copy.id _ (fun s ms => ?_) fun s ms other => ?_
  · obtain ⟨here, apart⟩ := Table.mem_erase_iff.mp ms
    exact ⟨here, free s here apart⟩
  · refine Table.mem_erase_iff.mpr ⟨ms, fun same => other ?_⟩
    rw [request_unique ms mem same, kind]

theorem resume_sound (sound : api.Sound env) {r : Request} (mem : r ∈ api.requests.rows)
    {answer : Option (Nat × String)} (pushes : Bool)
    (unchanged : r.kind = .create → (r.call = .create → answer = none) →
      wantedJob env.trig (some r.copy) = wantedJob env.trig (api.db.tasks.get r.copy.id)) :
    (api.resume env r answer pushes).Sound env := by
  by_cases delete : r.kind = .delete
  · simp only [Api.resume, delete]
    exact resume_delete_sound sound mem delete
  · have shape : api.resume env r answer pushes =
        match resumeSync api.db api.pendingOps r.copy pushes r.call answer with
        | none => { api with requests := api.requests.erase r.id }
        | some s =>
          { api with db := s.db, pendingOps := s.pendingOps }.proceed env r.id r.kind s.copy
            s.call := by
      cases kind : r.kind with
      | create => simp only [Api.resume, kind]
      | update => simp only [Api.resume, kind]
      | delete => exact absurd kind delete
    rw [shape]
    cases resumed : resumeSync api.db api.pendingOps r.copy pushes r.call answer with
    | none =>
      obtain ⟨writes, gone⟩ := resumeSync_none resumed
      exact fail_sound sound mem writes gone
    | some s =>
      have continues := resumeSync_continues resumed
      have there : r.kind = .update → (s.db.tasks.get s.copy.id).isSome := by
        intro update
        rw [continues.own]
        exact (continues.keeps env.trig r.copy.id).1.trans (sound.current r mem update).1
      have others : ({ api with db := s.db, pendingOps := s.pendingOps } : Api).SoundBut env r.id
          s.copy.id :=
        sound_but sound
          (fun t mt same => by rw [request_unique mt mem same, continues.own])
          (fun n _ => continues.keeps env.trig n) fun t _ _ _ => continues.keeps env.trig _
      refine proceed_sound others delete (fun held => ?_) (fun create c call => ?_)
        (fun c call update => ?_) (fun registers => ?_)
      · exact others_unlocked sound mem (by simpa [Request.holdsLock] using held)
      · rcases continues.calls c call with push | ⟨op, rest, -, -, edits, -⟩
        · exact Or.inr push
        · rcases sound.calls r mem create with same | same <;> simp [same] at edits
      · rcases update with update | writes
        · exact there update
        · rcases continues.calls c call with rfl | ⟨-, -, op', rest', -, rfl⟩ <;> cases writes
      · rcases continues.reads with ⟨copy, db, failed⟩ | row
        · rw [copy, db]
          cases kind : r.kind with
          | create => exact unchanged kind failed
          | update => exact (sound.current r mem kind).2
          | delete => exact absurd kind delete
        · show _ = wantedJob env.trig (s.db.tasks.get s.copy.id)
          rw [continues.own, row]

theorem elsewhere_sound (sound : api.Sound env) {db : Db} (same : SameFields api.db db) :
    ({ api with db := db } : Api).Sound env := by
  have keeps : ∀ n, KeepsJob env.trig api.db db n := keepsJob_of_sameFields same
  refine ⟨sound.calls, sound.alone, fun r mem update => ?_, fun n => ?_⟩
  · have current := sound.current r mem update
    exact ⟨(keeps _).1.trans current.1, current.2.trans (keeps _).2.symm⟩
  · rcases sound.repaired n with agrees | ⟨r, repairs⟩
    · exact Or.inl (agrees_of_keepsJob (keeps n) agrees)
    · exact Or.inr ⟨r, repairs_of_keepsJob (keeps n) repairs repairs.1⟩

theorem apiStep_sound {api' : Api} {event : ApiEvent} (sound : api.Sound env)
    (step : ApiStepUnchanged env api event api') : api'.Sound env := by
  obtain ⟨step, unchanged⟩ := step
  cases event with
  | create data now pushes =>
    obtain rfl := step
    exact create_sound sound data now pushes
  | update task data now pushes =>
    obtain ⟨unlocked, rfl⟩ := step
    exact update_sound sound unlocked task data now pushes
  | delete task =>
    obtain ⟨unlocked, rfl⟩ := step
    exact delete_sound sound unlocked task
  | resume id answer pushes =>
    obtain ⟨r, stored, rfl⟩ := step
    exact resume_sound sound (Table.mem_of_get stored) pushes (unchanged r stored)
  | elsewhere db =>
    obtain ⟨same, rfl⟩ := step
    exact elsewhere_sound sound same

theorem apiTrace_sound {db : Db} {events : List ApiEvent} {api : Api}
    (trace : Trace (ApiStepUnchanged env) (Api.start env db) events api) : api.Sound env :=
  trace_invariant (fun api => api.Sound env) (fun _ _ _ => apiStep_sound) trace (start_sound env db)

/-- Whatever the requests do, the live tokens stay those of the jobs. -/
theorem apiStep_tokened {api' : Api} {event : ApiEvent} (tokened : api.registry.Tokened)
    (step : ApiStep env api event api') : api'.registry.Tokened := by
  have proceeded : ∀ (base : Api) (id : Nat) (kind : RequestKind) (copy : Task)
      (call : Option KumaCall), base.registry.Tokened →
      (base.proceed env id kind copy call).registry.Tokened := by
    intro base id kind copy call tokened
    cases call with
    | none => exact upsertJob_tokened tokened env.trig copy
    | some c => exact tokened
  cases event with
  | create data now pushes =>
    obtain rfl := step
    unfold Api.create
    split
    · exact tokened
    · split
      · exact tokened
      · exact proceeded _ _ _ _ _ tokened
  | update task data now pushes =>
    obtain ⟨-, rfl⟩ := step
    unfold Api.update
    split
    · exact tokened
    · split
      · exact tokened
      · split
        · exact tokened
        · exact proceeded _ _ _ _ _ tokened
  | delete task =>
    obtain ⟨-, rfl⟩ := step
    unfold Api.delete
    split
    · exact tokened
    · split
      · exact tokened
      · split
        · exact tokened
        · exact removeJob_tokened tokened task
  | resume id answer pushes =>
    obtain ⟨r, -, rfl⟩ := step
    unfold Api.resume
    split
    · exact removeJob_tokened tokened r.copy.id
    · split
      · exact tokened
      · exact proceeded _ _ _ _ _ tokened
  | elsewhere db =>
    obtain ⟨-, rfl⟩ := step
    exact tokened

theorem start_tokened (env : ApiEnv) (db : Db) : (Api.start env db).registry.Tokened := by
  have folded : ∀ (tasks : List Task) (r : Registry), r.Tokened →
      (tasks.foldl (fun r t => if env.trig.parses t.cron then addJob r t else r) r).Tokened := by
    intro tasks
    induction tasks with
    | nil => exact fun r tokened => tokened
    | cons t tasks ih =>
      intro r tokened
      refine ih _ ?_
      dsimp only
      split
      · exact addJob_tokened tokened t
      · exact tokened
  exact folded _ _ ⟨fun id => rfl, fun id job here => by cases here⟩

theorem apiTrace_tokened {db : Db} {events : List ApiEvent} {api : Api}
    (trace : Trace (ApiStep env) (Api.start env db) events api) : api.registry.Tokened :=
  trace_invariant (fun api => api.registry.Tokened) (fun _ _ _ => apiStep_tokened) trace
    (start_tokened env db)

end Steps

/-- With no request in flight the scheduler holds the jobs that the committed tasks ask for,
    when no create registered a copy that the row had moved away from. -/
theorem jobs_follow_tasks {env : ApiEnv} {db : Db} {events : List ApiEvent} {api : Api}
    (trace : Trace (ApiStepUnchanged env) (Api.start env db) events api)
    (idle : api.requests.rows = []) (id : Nat) :
    (api.registry.jobs id).map Job.cron = wantedJob env.trig (api.db.tasks.get id) := by
  rcases (apiTrace_sound trace).repaired id with agrees | ⟨r, mem, -⟩
  · exact agrees
  · rw [idle] at mem
    cases mem

/- Every other transaction of the service happens elsewhere. -/

theorem scan_fields (trig : Trigger) (l : Ledger) (now : Int) :
    (l.scan trig now).task.toTaskFields = l.task.toTaskFields := by
  unfold Ledger.scan
  split
  · rw [keep_eq]
    dsimp only
    split <;> rfl
  · rfl

theorem block_fields (trig : Trigger) (l : Ledger) (now : Int) :
    (l.block trig now).task.toTaskFields = l.task.toTaskFields := by
  rw [(block_eq trig l now).1]

theorem reconcileOne_fields (trig : Trigger) (l : Ledger) (now : Int) :
    (reconcileOne trig l now).task.toTaskFields = l.task.toTaskFields := by
  rw [reconcileOne_eq]
  split
  · rfl
  · split
    · exact block_fields trig l now
    · exact scan_fields trig (l.settle now) now

theorem recordTick_fields (trig : Trigger) (l : Ledger) (now : Int) :
    (recordTick trig l now).task.toTaskFields = l.task.toTaskFields := by
  have scanned : ((l.settle now).scan trig now).task.toTaskFields = l.task.toTaskFields :=
    scan_fields trig (l.settle now) now
  rw [recordTick_eq]
  split
  · rfl
  · split
    · exact block_fields trig l now
    · dsimp only
      split
      · rw [early_eq]
        exact scanned
      · split
        · exact scanned
        · split
          · exact scanned
          · rfl

theorem effect_fields {env : Env} {a : Nat} {lo hi : Int} {op : Op} {l l' : Ledger}
    (effect : Effect env a lo hi op l l') (other : ∀ data now, op ≠ .updateTask a data now) :
    l'.task.toTaskFields = l.task.toTaskFields := by
  cases effect with
  | reconcile time => exact reconcileOne_fields env.trig l _
  | tick time => exact recordTick_fields env.trig l _
  | update time allowed => exact absurd rfl (other _ _)
  | _ => rfl

theorem service_elsewhere {env : Env} {s s' : Service} {op : Op} (linked : s.db.Linked)
    (step : Step env s op s') (create : ∀ data now, op ≠ .createTask data now)
    (update : ∀ task data now, op ≠ .updateTask task data now)
    (delete : ∀ task, op ≠ .deleteTask task) : SameFields s.db s'.db := by
  intro id
  have seen := (apply_sees linked step).2 id
  have viewed : ∀ db : Db, (db.tasks.get id).map Task.toTaskFields =
      (db.view id).map fun l => l.task.toTaskFields := by
    intro db
    rw [view_eq, Option.map_map]
    rfl
  rw [viewed, viewed]
  generalize s.db.view id = before at seen
  generalize s'.db.view id = after at seen
  cases seen with
  | absent => rfl
  | created time request => exact absurd request (create _ _)
  | deleted request quiet => exact absurd request (delete _)
  | acts effect =>
    have fields := effect_fields effect (update id)
    simp only [Option.map_some]
    rw [fields]

theorem resumes {env : ApiEnv} {api : Api} (r : Request) (answer : Option (Nat × String))
    (pushes : Bool) (stored : api.requests.get r.id = some r) :
    ApiStep env api (.resume r.id answer pushes) (api.resume env r answer pushes) :=
  ⟨r, stored, rfl⟩

theorem resumes_unchanged {env : ApiEnv} {api : Api} (r : Request)
    (answer : Option (Nat × String)) (pushes : Bool) (stored : api.requests.get r.id = some r)
    (unchanged : r.kind = .create → (r.call = .create → answer = none) →
      wantedJob env.trig (some r.copy) = wantedJob env.trig (api.db.tasks.get r.copy.id)) :
    ApiStepUnchanged env api (.resume r.id answer pushes) (api.resume env r answer pushes) := by
  refine ⟨resumes r answer pushes stored, fun s stored' => ?_⟩
  obtain rfl := Option.some.inj (stored.symm.trans stored')
  exact unchanged

def Sample.apiEnv : ApiEnv := ⟨Sample.trigger, true⟩

def Sample.nas : Db :=
  { Db.empty with
    sources := Table.empty.put
      { id := 1, name := "nas", user := "backup", host := "nas", sshKeyPath := "/key", createdAt := 0 } }

def Sample.mail : TaskFields :=
  { name := "mail", sourceId := 1, remotePath := "/srv/mail", localPath := "/backup/mail"
    cron := "0 0 * * mon-fri", kumaEnabled := true }

def Sample.awaiting : Api := (Api.start apiEnv nas).create apiEnv mail 0 false

def Sample.createOfMail : Request :=
  { id := 1, kind := .create, copy := { mail with id := 1, createdAt := 0, updatedAt := 0 }
    call := .create }

theorem awaiting_stored : Sample.awaiting.requests.get Sample.createOfMail.id =
    some Sample.createOfMail := by decide +kernel

def Sample.registered : Api :=
  Sample.awaiting.resume apiEnv createOfMail (some (7, "token")) false

theorem jobs_follow_created_task :
    (Sample.registered.registry.jobs 1).map Job.cron =
      wantedJob Sample.trigger (Sample.registered.db.tasks.get 1) ∧
    (Sample.registered.registry.jobs 1).isSome := by
  have created : ApiStepUnchanged Sample.apiEnv (Api.start Sample.apiEnv Sample.nas)
      (.create Sample.mail 0 false) Sample.awaiting := ⟨rfl, trivial⟩
  have monitored : ApiStepUnchanged Sample.apiEnv Sample.awaiting
      (.resume Sample.createOfMail.id (some (7, "token")) false) Sample.registered :=
    resumes_unchanged _ _ _ awaiting_stored fun _ failed => by cases failed rfl
  exact ⟨jobs_follow_tasks (trace_cons created (trace_single monitored)) (by decide +kernel) 1,
    by decide +kernel⟩

/-- A create whose monitor fails registers the copy it read when it began: the job of a task
    that was deleted meanwhile, and the old schedule of one that was edited. -/
theorem stale_create_registers :
    ∃ (env : ApiEnv) (db : Db) (deleted edited : List ApiEvent) (api api' : Api) (id : Nat),
      Trace (ApiStep env) (Api.start env db) deleted api ∧ api.requests.rows = [] ∧
      (api.registry.jobs id).isSome ∧ api.db.tasks.get id = none ∧
      Trace (ApiStep env) (Api.start env db) edited api' ∧ api'.requests.rows = [] ∧
      (api'.registry.jobs id).map Job.cron = some "0 0 * * mon-fri" ∧
      (api'.db.tasks.get id).map (fun t => (t.enabled, t.cron)) = some (true, "0 0 * * sun,mon") := by
  have created : ApiStep Sample.apiEnv (Api.start Sample.apiEnv Sample.nas)
      (.create Sample.mail 0 false) Sample.awaiting := rfl
  have deleted : ApiStep Sample.apiEnv Sample.awaiting (.delete 1)
      (Sample.awaiting.delete Sample.apiEnv 1) := ⟨by decide +kernel, rfl⟩
  have edited : ApiStep Sample.apiEnv Sample.awaiting
      (.update 1 { Sample.mail with cron := "0 0 * * sun,mon", kumaEnabled := false } 10 false)
      (Sample.awaiting.update Sample.apiEnv 1
        { Sample.mail with cron := "0 0 * * sun,mon", kumaEnabled := false } 10 false) :=
    ⟨by decide +kernel, rfl⟩
  exact ⟨Sample.apiEnv, Sample.nas, _, _, _, _, 1,
    trace_cons created (trace_cons deleted (trace_single
      (resumes Sample.createOfMail none false (by decide +kernel)))),
    by decide +kernel, by decide +kernel, by decide +kernel,
    trace_cons created (trace_cons edited (trace_single
      (resumes Sample.createOfMail none false (by decide +kernel)))),
    by decide +kernel, by decide +kernel, by decide +kernel⟩

end Pullbackup
