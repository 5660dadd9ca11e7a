import Pullbackup.Runner

/- api/tasks.py and api/sources.py: the transactions of the task and source
   requests. Kuma and the job registry are updated after them. -/
namespace Pullbackup
open KeyedTable

inductive HttpError where
  | badRequest (detail : String)
  | notFound
  | conflict (detail : String)
  | internal
  deriving DecidableEq, Repr

def activeRunSafeFields : List String :=
  ["name", "description", "cron", "enabled", "notify_matrix", "notify_matrix_on_success",
    "kuma_enabled"]

/-- Every client field of a task under its own name, with whether it differs. -/
def fieldChanges (task data : TaskFields) : List (String × Bool) :=
  [("name", task.name ≠ data.name),
   ("source_id", task.sourceId ≠ data.sourceId),
   ("remote_path", task.remotePath ≠ data.remotePath),
   ("local_path", task.localPath ≠ data.localPath),
   ("cron", task.cron ≠ data.cron),
   ("enabled", task.enabled ≠ data.enabled),
   ("description", task.description ≠ data.description),
   ("task_type", task.taskType ≠ data.taskType),
   ("syncoid_recursive", task.syncoidRecursive ≠ data.syncoidRecursive),
   ("syncoid_no_sync_snap", task.syncoidNoSyncSnap ≠ data.syncoidNoSyncSnap),
   ("syncoid_compress", task.syncoidCompress ≠ data.syncoidCompress),
   ("syncoid_extra_args", task.syncoidExtraArgs ≠ data.syncoidExtraArgs),
   ("syncoid_force_full", task.syncoidForceFull ≠ data.syncoidForceFull),
   ("prune_keep_hourly", task.pruneKeepHourly ≠ data.pruneKeepHourly),
   ("archive", task.archive ≠ data.archive),
   ("recursive", task.recursive ≠ data.recursive),
   ("times", task.times ≠ data.times),
   ("compress", task.compress ≠ data.compress),
   ("delete", task.delete ≠ data.delete),
   ("quiet", task.quiet ≠ data.quiet),
   ("preserve_permissions", task.preservePermissions ≠ data.preservePermissions),
   ("preserve_xattrs", task.preserveXattrs ≠ data.preserveXattrs),
   ("delay_updates", task.delayUpdates ≠ data.delayUpdates),
   ("use_sudo", task.useSudo ≠ data.useSudo),
   ("bwlimit_kbps", task.bwlimitKbps ≠ data.bwlimitKbps),
   ("exclude_patterns", task.excludePatterns ≠ data.excludePatterns),
   ("aux_args", task.auxArgs ≠ data.auxArgs),
   ("notify_matrix", task.notifyMatrix ≠ data.notifyMatrix),
   ("notify_matrix_on_success", task.notifyMatrixOnSuccess ≠ data.notifyMatrixOnSuccess),
   ("kuma_enabled", task.kumaEnabled ≠ data.kumaEnabled)]

def unsafeActiveChanges (task data : TaskFields) : List String :=
  (((fieldChanges task data).filter fun c => !activeRunSafeFields.contains c.1 && c.2).map
    Prod.fst).insertionSort (· ≤ ·)

def createTask (db : Db) (data : TaskFields) (now : Int) : Except HttpError Db :=
  match db.sources.get data.sourceId with
  | none => .error (.badRequest "source not found")
  | some _ =>
    .ok { db with
      tasks := db.tasks.put
        { data with id := nextId db.tasks, createdAt := now, updatedAt := now } }

def activeEditDetail (fields : List String) : String :=
  "a run is pending or running for this task; these fields cannot be changed until it finishes: " ++
    String.intercalate ", " fields

def updateTask (db : Db) (taskId : Nat) (data : TaskFields) (now : Int) : Except HttpError Db :=
  match db.tasks.get taskId with
  | none => .error .notFound
  | some task =>
    if taskActive db taskId ∧ unsafeActiveChanges task.toTaskFields data ≠ [] then
      .error (.conflict (activeEditDetail (unsafeActiveChanges task.toTaskFields data)))
    else
      let scheduleChanged : Bool := data.cron ≠ task.cron ∨ data.enabled ≠ task.enabled
      let edited := onTaskEdited
        { task := { task with toTaskFields := data, updatedAt := now }
          due := db.taskDue.get taskId, runs := db.runs.rows } scheduleChanged now
      .ok { db with
        tasks := db.tasks.put edited.task, taskDue := db.taskDue.write taskId edited.due }

def deleteTask (db : Db) (taskId : Nat) : Except HttpError Db :=
  match db.tasks.get taskId with
  | none => .error .notFound
  | some _ =>
    if taskActive db taskId then
      .error (.conflict "task cannot be deleted while a run is pending or running")
    else
      .ok { db with
        tasks := db.tasks.erase taskId
        taskDue := db.taskDue.erase taskId
        runs := db.runs.keep fun r => r.taskId ≠ taskId }

structure SourceFields where
  name : String
  user : String
  host : String
  port : Int := 22
  sshKeyPath : String
  description : String := ""
  deriving DecidableEq, Repr

def Source.withFields (s : Source) (data : SourceFields) : Source :=
  { s with
    name := data.name, user := data.user, host := data.host, port := data.port
    sshKeyPath := data.sshKeyPath, description := data.description }

def createSource (db : Db) (data : SourceFields) (now : Int) : Except HttpError Db :=
  if db.sources.rows.any fun s => s.name = data.name then
    .error (.conflict "source name already exists")
  else
    .ok { db with
      sources := db.sources.put
        { id := nextId db.sources, name := data.name, user := data.user, host := data.host
          port := data.port, sshKeyPath := data.sshKeyPath, description := data.description
          createdAt := now } }

def updateSource (db : Db) (sourceId : Nat) (data : SourceFields) : Except HttpError Db :=
  match db.sources.get sourceId with
  | none => .error .notFound
  | some source =>
    if sourceActive db sourceId then
      .error (.conflict "source cannot be modified while a run is pending or running")
    else if db.sources.rows.any fun s => s.name = data.name ∧ s.id ≠ sourceId then
      -- the unique name constraint, which no handler catches
      .error .internal
    else .ok { db with sources := db.sources.put (source.withFields data) }

def deleteSource (db : Db) (sourceId : Nat) : Except HttpError Db :=
  match db.sources.get sourceId with
  | none => .error .notFound
  | some _ =>
    if db.tasks.rows.any fun task => task.sourceId = sourceId then
      .error (.conflict "source has tasks; delete them first")
    else .ok { db with sources := db.sources.erase sourceId }

end Pullbackup
