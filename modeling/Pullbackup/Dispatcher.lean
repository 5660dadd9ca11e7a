import Pullbackup.Runner

/- services/dispatcher.py: settlement of every obligation, then one pass over
   them oldest first that starts what can start. -/
namespace Pullbackup
open KeyedTable

/-- A containment key: the components of a destination. -/
abbrev DestKey := List String

def conflicts (left right : DestKey) : Bool :=
  let shared := min left.length right.length
  left.take shared == right.take shared

theorem conflicts_comm (left right : DestKey) : conflicts left right = conflicts right left := by
  unfold conflicts
  rw [min_comm left.length right.length]
  exact Bool.beq_comm

/-- What the destination checks answer during one pass: they read the filesystem and the
    configuration, and none is a raised exception. -/
structure Probe where
  validateDestination : Task → Source → Bool
  destinationKey : Task → Option DestKey

def settleDue (db : Db) (row : TaskDue) (now : Int) : Db :=
  match db.tasks.get row.taskId with
  | none => { db with taskDue := db.taskDue.erase row.taskId }
  | some _ => { db with taskDue := db.taskDue.write row.taskId (settleRow db.runs.rows row now) }

def settleAll (db : Db) (now : Int) : Db :=
  db.taskDue.rows.foldl (fun db row => settleDue db row now) db

structure Pass where
  db : Db
  activeTasks : List Nat
  activeSources : List Nat
  dests : List DestKey
  count : Nat
  claimedSources : List Nat := []
  claimedDests : List DestKey := []
  stamps : List Stamp
  started : List Nat := []

/-- The scopes of the runs that are active when the pass begins. -/
def Pass.observe (probe : Probe) (p : Pass) (run : Run) : Pass :=
  match p.db.tasks.get run.taskId with
  | none => p
  | some task =>
    { p with
      activeTasks := p.activeTasks ++ [task.id]
      activeSources := p.activeSources ++ [task.sourceId]
      dests := p.dests ++ (probe.destinationKey task).toList }

def Pass.begin (probe : Probe) (db : Db) (stamps : List Stamp) : Pass :=
  let active := db.runs.rows.filter fun r => r.state.active
  active.foldl (Pass.observe probe)
    { db := db, activeTasks := [], activeSources := [], dests := [], count := active.length
      stamps := stamps }

def Pass.reason (p : Pass) (limit : Nat) (task : Task) (key : Option DestKey) :
    Option WaitReason :=
  if p.activeTasks.contains task.id then some .taskActive
  else if p.activeSources.contains task.sourceId || p.claimedSources.contains task.sourceId then
    some .sourceBusy
  else if key.any (fun k => (p.dests ++ p.claimedDests).any (conflicts k)) then
    some .destinationBusy
  else if limit ≤ p.count then some .capacity
  else none

/-- An older row that cannot start keeps its scopes against younger ones. -/
def Pass.wait (p : Pass) (row : TaskDue) (task : Task) (key : Option DestKey)
    (reason : WaitReason) (now : Int) : Pass :=
  { p with
    claimedSources := p.claimedSources ++ [task.sourceId]
    claimedDests := p.claimedDests ++ key.toList
    db :=
      if row.waitReason = some reason then p.db
      else { p.db with
        taskDue := p.db.taskDue.put { row with waitReason := some reason, updatedAt := now } } }

def TaskDue.dispatchedTo (row : TaskDue) (runId : Nat) (now : Int) : TaskDue :=
  { row with
    status := .dispatched, runId := some runId, waitReason := none, retryAt := none
    updatedAt := now }

def Pass.launch (p : Pass) (row : TaskDue) (task : Task) (key : Option DestKey) (now : Int) :
    Pass :=
  let stamp := p.stamps.headD ⟨now, now⟩
  let (db, run) := newPendingRun p.db task stamp
  { p with
    db := { db with taskDue := db.taskDue.put (row.dispatchedTo run.id now) }
    activeTasks := p.activeTasks ++ [task.id]
    activeSources := p.activeSources ++ [task.sourceId]
    dests := p.dests ++ key.toList
    count := p.count + 1
    stamps := p.stamps.tail
    started := p.started ++ [run.id] }

def Pass.row (limit : Nat) (probe : Probe) (now : Int) (p : Pass) (row : TaskDue) : Pass :=
  if row.status ≠ .dispatched ∧ (p.db.tasks.get row.taskId).any (fun owner => !owner.enabled) then
    -- Debt that outlived the disable.
    { p with db := { p.db with taskDue := p.db.taskDue.erase row.taskId } }
  else if row.status = .dispatched ∨ row.status = .exhausted ∨ row.status = .blocked then p
  else if row.status = .retry ∧ row.retryAt.any (fun instant => now < instant) then p
  else
    match p.db.tasks.get row.taskId with
    | none => p
    | some task =>
      match p.db.sources.get task.sourceId with
      | none => p
      | some source =>
        let key :=
          if probe.validateDestination task source then probe.destinationKey task else none
        match p.reason limit task key with
        | some reason => p.wait row task key reason now
        | none => p.launch row task key now

def dispatchDue (limit : Nat) (probe : Probe) (db : Db) (now : Int) (stamps : List Stamp) :
    Pass :=
  let db := settleAll db now
  let rows := db.taskDue.rows.insertionSort (fun a b => a.dueAt ≤ b.dueAt)
  rows.foldl (Pass.row limit probe now) (Pass.begin probe db stamps)

end Pullbackup
