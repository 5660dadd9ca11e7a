import Pullbackup.View

/- The transactions as one task sees them. Effect lists every way a transaction
   can act on a task's view; the lemmas below compute the view after each kind of
   write to the database. -/
namespace Pullbackup
open KeyedTable

/-- Obligations and runs belong to stored tasks, and an obligation is attached to a run of its
    own task. -/
structure Db.Linked (db : Db) : Prop where
  owed : ∀ row ∈ db.taskDue.rows, (db.tasks.get row.taskId).isSome
  owner : ∀ run ∈ db.runs.rows, (db.tasks.get run.taskId).isSome
  attached : ∀ row ∈ db.taskDue.rows, ∀ id, row.runId = some id →
    ∃ run, db.runs.get id = some run ∧ run.taskId = row.taskId

theorem empty_linked : Db.empty.Linked := by
  constructor <;> intro row mem <;> simp [Db.empty] at mem

def swapRun (new run : Run) : Run := if run.id = new.id then new else run

def editLedger (data : TaskFields) (now : Int) (l : Ledger) : Ledger :=
  onTaskEdited { l with task := { l.task with toTaskFields := data, updatedAt := now } }
    (data.cron ≠ l.task.cron ∨ data.enabled ≠ l.task.enabled) now

/-- A row the dispatcher may start. -/
def TaskDue.Ready (row : TaskDue) (now : Int) : Prop :=
  row.status = .due ∨ row.status = .retry ∧ ∀ instant, row.retryAt = some instant → instant ≤ now

def Ledger.Idle (l : Ledger) : Prop := ∀ run ∈ l.runs, run.state.active = false

def Ledger.endRun (l : Ledger) (run : Run) (now : Int) : Ledger :=
  { l with
    runs := l.runs.map (swapRun run)
    due := l.due.bind fun row =>
      if row.runId = some run.id then applyRunOutcome row run now else some row }

inductive Effect (env : Env) (a : Nat) (lo hi : Int) : Op → Ledger → Ledger → Prop where
  | idle {op : Op} {l : Ledger} : Effect env a lo hi op l l
  | reconcile {now : Int} {l : Ledger} (time : lo ≤ now ∧ now ≤ hi) :
      Effect env a lo hi (.reconcile a now) l (reconcileOne env.trig l now)
  | tick {now : Int} {l : Ledger} (time : lo ≤ now ∧ now ≤ hi) :
      Effect env a lo hi (.tick a now) l (recordTick env.trig l now)
  | settle {now : Int} {l : Ledger} (time : lo ≤ now ∧ now ≤ hi) :
      Effect env a lo hi (.settle now) l (l.settle now)
  | pass {probe : Probe} {now : Int} {stamps : List Stamp} {l : Ledger}
      (time : lo ≤ now ∧ now ≤ hi) :
      Effect env a lo hi (.dispatch probe now stamps) l (l.settle now)
  | drop {probe : Probe} {now : Int} {stamps : List Stamp} {l : Ledger} {row : TaskDue}
      (time : lo ≤ now ∧ now ≤ hi) (owed : (l.settle now).due = some row)
      (other : row.status ≠ .dispatched) (disabled : l.task.enabled = false) :
      Effect env a lo hi (.dispatch probe now stamps) l { l.settle now with due := none }
  | wait {probe : Probe} {now : Int} {stamps : List Stamp} {l : Ledger} {row : TaskDue}
      {reason : WaitReason} (time : lo ≤ now ∧ now ≤ hi) (owed : (l.settle now).due = some row)
      (ready : row.Ready now) :
      Effect env a lo hi (.dispatch probe now stamps) l
        { l.settle now with
          due := some { row with waitReason := some reason, updatedAt := now } }
  | launch {probe : Probe} {now : Int} {stamps : List Stamp} {l : Ledger} {row : TaskDue}
      {id : Nat} {stamp : Stamp} (time : lo ≤ now ∧ now ≤ hi)
      (owed : (l.settle now).due = some row) (ready : row.Ready now)
      (enabled : l.task.enabled = true) (quiet : l.Idle) (fresh : ∀ run ∈ l.runs, run.id ≠ id)
      (started : now ≤ stamp.startedAt ∧ stamp.startedAt ≤ hi) :
      Effect env a lo hi (.dispatch probe now stamps) l
        { l.settle now with
          due := some (row.dispatchedTo id now), runs := l.runs ++ [pendingRun id a stamp] }
  | runNow {stamp : Stamp} {l : Ledger} {id : Nat} (quiet : l.Idle)
      (fresh : ∀ run ∈ l.runs, run.id ≠ id)
      (started : lo ≤ stamp.startedAt ∧ stamp.startedAt ≤ hi) :
      Effect env a lo hi (.runNow a stamp) l { l with runs := l.runs ++ [pendingRun id a stamp] }
  | start {now : Int} {l : Ledger} {run : Run} (time : lo ≤ now ∧ now ≤ hi)
      (mem : run ∈ l.runs) (pending : run.state = .pending) :
      Effect env a lo hi (.start run.id now) l
        { l with runs := l.runs.map (swapRun { run with state := .running, startedAt := now }) }
  | finish {ending : Ending} {requested : Bool} {stats : Stats} {now : Int} {l : Ledger}
      {run : Run} (time : lo ≤ now ∧ now ≤ hi) (mem : run ∈ l.runs)
      (running : run.state = .running) :
      Effect env a lo hi (.finish run.id ending requested stats now) l
        (l.endRun (run.terminal ending requested stats now) now)
  | abandon {reason : OwnerExit} {requested : Bool} {now : Int} {l : Ledger} {run new : Run}
      (time : lo ≤ now ∧ now ≤ hi) (mem : run ∈ l.runs) (active : run.state.active = true)
      (failed : new = run.failed reason.message now ∨
        requested = true ∧ new = { run.failed reason.message now with state := .cancelled }) :
      Effect env a lo hi (.abandon run.id reason requested now) l
        { l with runs := l.runs.map (swapRun new) }
  | sweep {owners : List Nat} {now : Int} {l : Ledger} (time : lo ≤ now ∧ now ≤ hi) :
      Effect env a lo hi (.sweep owners now) l
        { l with runs := l.runs.map fun run =>
            if orphaned owners now run then run.failed watchdogMessage now else run }
  | restart {now : Int} {l : Ledger} (time : lo ≤ now ∧ now ≤ hi) :
      Effect env a lo hi (.restart now) l
        { l with runs := l.runs.map fun run =>
            if run.state.active then run.failed restartMessage now else run }
  | update {data : TaskFields} {now : Int} {l : Ledger} (time : lo ≤ now ∧ now ≤ hi)
      (allowed : l.Idle ∨ unsafeActiveChanges l.task.toTaskFields data = []) :
      Effect env a lo hi (.updateTask a data now) l (editLedger data now l)

/-- A view appears when its task is created and goes when it is deleted. -/
inductive ViewStep (env : Env) (a : Nat) (lo hi : Int) (op : Op) :
    Option Ledger → Option Ledger → Prop where
  | absent : ViewStep env a lo hi op none none
  | created {data : TaskFields} {now : Int} (time : lo ≤ now ∧ now ≤ hi)
      (request : op = .createTask data now) :
      ViewStep env a lo hi op none (some
        { task := { data with id := a, createdAt := now, updatedAt := now }
          due := none, runs := [] })
  | deleted {l : Ledger} (request : op = .deleteTask a) (quiet : l.Idle) :
      ViewStep env a lo hi op (some l) none
  | acts {l l' : Ledger} (effect : Effect env a lo hi op l l') :
      ViewStep env a lo hi op (some l) (some l')

theorem ViewStep.same {env : Env} {a : Nat} {lo hi : Int} {op : Op} {view view' : Option Ledger}
    (same : view' = view) : ViewStep env a lo hi op view view' := by
  subst view'
  cases view with
  | none => exact .absent
  | some l => exact .acts .idle

section Writes
variable {db : Db}

theorem view_eq (db : Db) (a : Nat) :
    db.view a = (db.tasks.get a).map fun task =>
      { task := task, due := db.taskDue.get a, runs := db.runs.rows.filter (ownedBy a) } := by
  unfold Db.view Db.ledger
  cases found : db.tasks.get a with
  | none => rfl
  | some task =>
    have id : task.id = a := Table.key_of_get found
    simp [Ledger.own, id]

theorem ledger_linked (linked : db.Linked) {a : Nat} {l : Ledger} (h : db.ledger a = some l) :
    l.Linked := by
  unfold Db.ledger at h
  obtain ⟨task, found, rfl⟩ := Option.map_eq_some_iff.mp h
  have id : task.id = a := Table.key_of_get found
  constructor
  · intro row owed
    exact (Table.key_of_get (Option.mem_def.mp owed)).trans id.symm
  · intro row owed run mem attached
    have here := Table.mem_of_get (Option.mem_def.mp owed)
    obtain ⟨run', found', owner⟩ := linked.attached row here run.id attached
    have same : run' = run :=
      Table.key_injective (Table.mem_of_get found') mem (Table.key_of_get found')
    subst run'
    exact owner.trans ((Table.key_of_get (Option.mem_def.mp owed)).trans id.symm)

/-- What a written row must satisfy for the database to stay linked. -/
def Db.Accepts (db : Db) (t : Nat) (due : Option TaskDue) : Prop :=
  ∀ row, due = some row → row.taskId = t ∧ (db.tasks.get t).isSome ∧
    ∀ id, row.runId = some id → ∃ run, db.runs.get id = some run ∧ run.taskId = t

theorem writeDue_linked (linked : db.Linked) {t : Nat} {due : Option TaskDue}
    (accepts : db.Accepts t due) :
    Db.Linked { db with taskDue := db.taskDue.write t due } := by
  have old : ∀ row ∈ (db.taskDue.write t due).rows, due = some row ∨ row ∈ db.taskDue.rows := by
    intro row mem
    cases due with
    | none => exact Or.inr (List.mem_filter.mp mem).1
    | some new =>
      rcases mem_putRow_imp mem with same | old
      · exact Or.inl (by rw [same])
      · exact Or.inr old
  constructor
  · intro row mem
    rcases old row mem with new | kept
    · obtain ⟨owner, stored, -⟩ := accepts row new
      rw [owner]
      exact stored
    · exact linked.owed row kept
  · exact linked.owner
  · intro row mem id attached
    rcases old row mem with new | kept
    · obtain ⟨owner, -, run⟩ := accepts row new
      rw [owner]
      exact run id attached
    · exact linked.attached row kept id attached

variable (db) in
theorem writeDue_view {t : Nat} {due : Option TaskDue} (keyed : ∀ row ∈ due, row.taskId = t)
    (a : Nat) :
    Db.view { db with taskDue := db.taskDue.write t due } a =
      (db.view a).map fun l => { l with due := if a = t then due else l.due } := by
  rw [view_eq, view_eq]
  simp only [Table.get_write db.taskDue t due keyed, Option.map_map]
  rfl

theorem mapRuns_linked (linked : db.Linked) {f : Run → Run} {runs : Table Run}
    (rows : runs.rows = db.runs.rows.map f) (id : ∀ run, (f run).id = run.id)
    (owner : ∀ run ∈ db.runs.rows, (f run).taskId = run.taskId) :
    Db.Linked { db with runs := runs } := by
  constructor
  · exact linked.owed
  · intro run' mem
    rw [rows] at mem
    obtain ⟨run, old, rfl⟩ := List.mem_map.mp mem
    rw [owner run old]
    exact linked.owner run old
  · intro row mem i attached
    obtain ⟨run, found, same⟩ := linked.attached row mem i attached
    have old := Table.mem_of_get found
    refine ⟨f run, Table.get_eq_some_iff.mpr ⟨?_, ?_⟩, (owner run old).trans same⟩
    · show f run ∈ runs.rows
      rw [rows]
      exact List.mem_map_of_mem old
    · exact (id run).trans (Table.key_of_get found)

theorem mapRuns_view {f : Run → Run} {runs : Table Run}
    (rows : runs.rows = db.runs.rows.map f)
    (owner : ∀ run ∈ db.runs.rows, (f run).taskId = run.taskId) (a : Nat) :
    Db.view { db with runs := runs } a =
      (db.view a).map fun l => { l with runs := l.runs.map f } := by
  have own : (db.runs.rows.map f).filter (ownedBy a) =
      (db.runs.rows.filter (ownedBy a)).map f := by
    rw [List.filter_map]
    congr 1
    apply List.filter_congr
    intro run mem
    simp [ownedBy, owner run mem]
  rw [view_eq, view_eq]
  simp only [rows, own, Option.map_map]
  rfl

theorem swap_rows {new : Run} (there : ∃ run ∈ db.runs.rows, run.id = new.id) :
    (db.runs.put new).rows = db.runs.rows.map (swapRun new) :=
  putRow_of_mem db.runs.unique there

theorem swapRun_id (new run : Run) : (swapRun new run).id = run.id := by
  unfold swapRun
  split
  · rename_i same
    exact same.symm
  · rfl

theorem swapRun_owner {old new : Run} (mem : old ∈ db.runs.rows) (id : new.id = old.id)
    (owner : new.taskId = old.taskId) :
    ∀ run ∈ db.runs.rows, (swapRun new run).taskId = run.taskId := by
  intro run here
  unfold swapRun
  split
  · rename_i same
    have one : run = old := Table.key_injective here mem (same.trans id)
    rw [one, owner]
  · rfl

theorem swapRuns_other {new : Run} {runs : List Run} (other : ∀ run ∈ runs, run.id ≠ new.id) :
    runs.map (swapRun new) = runs := by
  conv_rhs => rw [← List.map_id runs]
  apply List.map_congr_left
  intro run mem
  simp [swapRun, other run mem]

theorem view_runs {a : Nat} {l : Ledger} (h : db.view a = some l) :
    l.runs = db.runs.rows.filter (ownedBy a) ∧ l.task.id = a ∧ l.due = db.taskDue.get a ∧
      db.tasks.get a = some l.task := by
  rw [view_eq] at h
  obtain ⟨task, found, rfl⟩ := Option.map_eq_some_iff.mp h
  exact ⟨rfl, Table.key_of_get found, rfl, found⟩

theorem mem_view_runs {a : Nat} {l : Ledger} (h : db.view a = some l) {run : Run} :
    run ∈ l.runs ↔ run ∈ db.runs.rows ∧ run.taskId = a := by
  rw [(view_runs h).1, List.mem_filter]
  simp [ownedBy]

theorem newRun_fresh {id : Nat} (new : db.runs.get id = none) :
    ∀ run ∈ db.runs.rows, run.id ≠ id := fun run mem =>
  Table.get_eq_none_iff.mp new run mem

theorem newRun_linked (linked : db.Linked) {new : Run} (fresh : db.runs.get new.id = none)
    (stored : (db.tasks.get new.taskId).isSome) :
    Db.Linked { db with runs := db.runs.put new } := by
  constructor
  · exact linked.owed
  · intro run mem
    rcases mem_putRow_imp mem with same | old
    · rw [same]
      exact stored
    · exact linked.owner run old
  · intro row mem id attached
    obtain ⟨run, found, owner⟩ := linked.attached row mem id attached
    refine ⟨run, ?_, owner⟩
    have other : new.id ≠ id := by
      intro same
      rw [same, found] at fresh
      cases fresh
    exact (Table.get_put_ne other).trans found

theorem newRun_view {new : Run} (fresh : db.runs.get new.id = none) (a : Nat) :
    Db.view { db with runs := db.runs.put new } a =
      (db.view a).map fun l =>
        { l with runs := if a = new.taskId then l.runs ++ [new] else l.runs } := by
  have rows : (db.runs.put new).rows = db.runs.rows ++ [new] :=
    putRow_of_new (newRun_fresh fresh)
  have own : (db.runs.put new).rows.filter (ownedBy a) =
      if a = new.taskId then db.runs.rows.filter (ownedBy a) ++ [new]
      else db.runs.rows.filter (ownedBy a) := by
    rw [rows, List.filter_append]
    by_cases same : a = new.taskId
    · simp [ownedBy, same]
    · simp [ownedBy, same, Ne.symm same]
  rw [view_eq, view_eq]
  simp only [own, Option.map_map]
  rfl

theorem putTask_linked (linked : db.Linked) (task : Task) :
    Db.Linked { db with tasks := db.tasks.put task } := by
  have kept : ∀ id, (db.tasks.get id).isSome → ((db.tasks.put task).get id).isSome := by
    intro id stored
    rw [Table.get_put]
    split
    · rfl
    · exact stored
  exact ⟨fun row mem => kept _ (linked.owed row mem), fun run mem => kept _ (linked.owner run mem),
    linked.attached⟩

end Writes

end Pullbackup
