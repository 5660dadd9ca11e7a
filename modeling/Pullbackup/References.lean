import Pullbackup.Exclusivity
import Pullbackup.Registry

/- api/tasks.py and api/sources.py: the writers of tasks and sources, each in two steps: what
   it checks, and the commit. The sync handlers run on threads of their own, and the
   database enforces no foreign key. -/
namespace Pullbackup
open KeyedTable History

def Db.Referenced (db : Db) : Prop :=
  ∀ task ∈ db.tasks.rows, (db.sources.get task.sourceId).isSome

/-- A request past its checks. The flush of delete_source loads the tasks that it would have to
    detach before it deletes the row. -/
inductive Writer where
  | createTask (data : TaskFields)
  | updateTask (task : Nat) (data : TaskFields)
  | deleteTask (task : Nat)
  | createSource (data : SourceFields)
  | updateSource (source : Nat) (data : SourceFields)
  | deleteSource (source : Nat)
  | detached (source : Nat)
  deriving DecidableEq, Repr

/-- update_task, delete_task and update_source hold the lifecycle lock. -/
def Writer.holdsLock : Writer → Bool
  | .updateTask _ _ | .deleteTask _ | .updateSource _ _ => true
  | .createTask _ | .createSource _ | .deleteSource _ | .detached _ => false

def hasTasks (db : Db) (sourceId : Nat) : Bool := db.tasks.rows.any fun t => t.sourceId = sourceId

def Writer.accepts (db : Db) : Writer → Bool
  | .createTask data => (db.sources.get data.sourceId).isSome
  | .updateTask task data =>
    (db.tasks.get task).any fun t =>
      !(taskActive db task && unsafeActiveChanges t.toTaskFields data ≠ [])
  | .deleteTask task => (db.tasks.get task).isSome && !taskActive db task
  | .createSource data => !db.sources.rows.any fun s => s.name = data.name
  | .updateSource source _ => (db.sources.get source).isSome && !sourceActive db source
  | .deleteSource source => (db.sources.get source).isSome && !hasTasks db source
  | .detached _ => false

def insertTask (db : Db) (data : TaskFields) (now : Int) : Db :=
  { db with
    tasks := db.tasks.put { data with id := nextId db.tasks, createdAt := now, updatedAt := now } }

def writeTask (db : Db) (taskId : Nat) (data : TaskFields) (now : Int) : Db :=
  match db.tasks.get taskId with
  | none => db
  | some task =>
    let edited := onTaskEdited
      { task := { task with toTaskFields := data, updatedAt := now }
        due := db.taskDue.get taskId, runs := db.runs.rows }
      (data.cron ≠ task.cron ∨ data.enabled ≠ task.enabled) now
    { db with tasks := db.tasks.put edited.task, taskDue := db.taskDue.write taskId edited.due }

def insertSource (db : Db) (data : SourceFields) (now : Int) : Db :=
  db.orElse (createSource db data now)

def writeSource (db : Db) (sourceId : Nat) (data : SourceFields) : Db :=
  match db.sources.get sourceId with
  | none => db
  | some source =>
    if db.sources.rows.any fun s => s.name = data.name ∧ s.id ≠ sourceId then db
    else { db with sources := db.sources.put (source.withFields data) }

def eraseSource (db : Db) (sourceId : Nat) : Db :=
  { db with sources := db.sources.erase sourceId }

/-- The commit of a writer and what is left of it. A task to detach fails the flush: its
    source_id cannot be null. -/
def Writer.commit (db : Db) (now : Int) : Writer → Db × Option Writer
  | .createTask data => (insertTask db data now, none)
  | .updateTask task data => (writeTask db task data now, none)
  | .deleteTask task => (purgeTask db task, none)
  | .createSource data => (insertSource db data now, none)
  | .updateSource source data => (writeSource db source data, none)
  | .deleteSource source => (db, if hasTasks db source then none else some (.detached source))
  | .detached source => (eraseSource db source, none)

structure Handler where
  id : Nat
  writer : Writer
  deriving DecidableEq, Repr

instance : Keyed Handler Nat := ⟨Handler.id⟩

@[simp] theorem key_handler (h : Handler) : Keyed.key h = h.id := rfl

structure Handlers where
  db : Db
  inFlight : Table Handler := .empty

def Handlers.locked (s : Handlers) : Bool := s.inFlight.rows.any fun h => h.writer.holdsLock

inductive HandlerEvent where
  | check (writer : Writer)
  | commit (handler : Nat) (now : Int)
  | elsewhere (db : Db)

def Handlers.check (s : Handlers) (writer : Writer) : Handlers :=
  if writer.accepts s.db then
    { s with inFlight := s.inFlight.put ⟨nextId s.inFlight, writer⟩ }
  else s

def Handlers.commit (s : Handlers) (h : Handler) (now : Int) : Handlers :=
  let (db, rest) := h.writer.commit s.db now
  { db := db
    inFlight := match rest with
      | none => s.inFlight.erase h.id
      | some writer => s.inFlight.put ⟨h.id, writer⟩ }

def HandlerStep (s : Handlers) (event : HandlerEvent) (t : Handlers) : Prop :=
  match event with
  | .check writer => (writer.holdsLock = true → s.locked = false) ∧ t = s.check writer
  | .commit id now => ∃ h, s.inFlight.get id = some h ∧ t = s.commit h now
  | .elsewhere db => db.sources = s.db.sources ∧ SameFields s.db db ∧ t = { s with db := db }

/-- A commit that leaves every task its source: the source a task is given is still there, and
    the source that goes has no task. -/
def Writer.Keeps (db : Db) : Writer → Prop
  | .createTask data => (db.sources.get data.sourceId).isSome
  | .updateTask task data => (db.tasks.get task).isSome → (db.sources.get data.sourceId).isSome
  | .detached source => ∀ task ∈ db.tasks.rows, task.sourceId ≠ source
  | _ => True

instance (db : Db) : (w : Writer) → Decidable (w.Keeps db)
  | .createTask data => inferInstanceAs (Decidable ((db.sources.get data.sourceId).isSome = true))
  | .updateTask task data =>
    inferInstanceAs (Decidable ((db.tasks.get task).isSome = true →
      (db.sources.get data.sourceId).isSome = true))
  | .detached source => inferInstanceAs (Decidable (∀ task ∈ db.tasks.rows, task.sourceId ≠ source))
  | .deleteTask _ | .createSource _ | .updateSource _ _ | .deleteSource _ =>
    inferInstanceAs (Decidable True)

def HandlerStepKept (s : Handlers) (event : HandlerEvent) (t : Handlers) : Prop :=
  HandlerStep s event t ∧ ∀ id now, event = .commit id now →
    ∀ h, s.inFlight.get id = some h → h.writer.Keeps s.db

section Commits
variable {db : Db}

theorem onTaskEdited_fields (l : Ledger) (scheduleChanged : Bool) (now : Int) :
    (onTaskEdited l scheduleChanged now).task.toTaskFields = l.task.toTaskFields := by
  unfold onTaskEdited
  split
  · rfl
  · split
    · rfl
    · split <;> rfl

theorem insertTask_referenced_iff (referenced : db.Referenced) (data : TaskFields) (now : Int) :
    (insertTask db data now).Referenced ↔ (db.sources.get data.sourceId).isSome := by
  constructor
  · intro after
    exact after { data with id := nextId db.tasks, createdAt := now, updatedAt := now }
      (Table.mem_put_iff.mpr (Or.inl rfl))
  · intro there task mem
    rcases Table.mem_put_iff.mp mem with rfl | ⟨-, old⟩
    · exact there
    · exact referenced task old

theorem writeTask_referenced_iff (referenced : db.Referenced) (taskId : Nat) (data : TaskFields)
    (now : Int) :
    (writeTask db taskId data now).Referenced ↔
      ((db.tasks.get taskId).isSome → (db.sources.get data.sourceId).isSome) := by
  cases stored : db.tasks.get taskId with
  | none =>
    have same : writeTask db taskId data now = db := by simp only [writeTask, stored]
    rw [same]
    exact ⟨fun _ there => by simp at there, fun _ => referenced⟩
  | some prev =>
    obtain ⟨row, tasks, sources, named⟩ : ∃ row : Task,
        (writeTask db taskId data now).tasks = db.tasks.put row ∧
        (writeTask db taskId data now).sources = db.sources ∧ row.sourceId = data.sourceId := by
      unfold writeTask
      rw [stored]
      exact ⟨_, rfl, rfl, congrArg TaskFields.sourceId (onTaskEdited_fields _ _ _)⟩
    constructor
    · intro after _
      have there := after row (tasks ▸ Table.mem_put_iff.mpr (Or.inl rfl))
      rwa [sources, named] at there
    · intro there task mem
      rw [tasks] at mem
      rw [sources]
      rcases Table.mem_put_iff.mp mem with rfl | ⟨-, old⟩
      · rw [named]
        exact there rfl
      · exact referenced task old

theorem referenced_of_sources {sources : Table Source} (referenced : db.Referenced)
    (grows : ∀ id, (db.sources.get id).isSome → (sources.get id).isSome) :
    ({ db with sources := sources } : Db).Referenced :=
  fun task mem => grows _ (referenced task mem)

theorem put_grows {sources : Table Source} (row : Source) (id : Nat)
    (there : (sources.get id).isSome) : ((sources.put row).get id).isSome := by
  rw [Table.get_put]
  split
  · rfl
  · exact there

theorem insertSource_referenced (referenced : db.Referenced) (data : SourceFields) (now : Int) :
    (insertSource db data now).Referenced := by
  unfold insertSource createSource
  split
  · exact referenced
  · exact referenced_of_sources referenced fun id => put_grows _ id

theorem writeSource_referenced (referenced : db.Referenced) (sourceId : Nat) (data : SourceFields) :
    (writeSource db sourceId data).Referenced := by
  unfold writeSource
  split
  · exact referenced
  · split
    · exact referenced
    · exact referenced_of_sources referenced fun id => put_grows _ id

theorem purgeTask_referenced (referenced : db.Referenced) (taskId : Nat) :
    (purgeTask db taskId).Referenced :=
  fun task mem => referenced task (Table.mem_erase_iff.mp mem).1

theorem eraseSource_referenced_iff (referenced : db.Referenced) (sourceId : Nat) :
    (eraseSource db sourceId).Referenced ↔ ∀ task ∈ db.tasks.rows, task.sourceId ≠ sourceId := by
  have found : ∀ id, (db.sources.erase sourceId).get id =
      if id = sourceId then none else db.sources.get id := fun id => Table.get_erase _ _ _
  constructor
  · intro after task mem same
    have there : ((db.sources.erase sourceId).get task.sourceId).isSome := after task mem
    rw [found, if_pos same] at there
    cases there
  · intro unused task mem
    show ((db.sources.erase sourceId).get task.sourceId).isSome
    rw [found, if_neg (unused task mem)]
    exact referenced task mem

/-- One commit keeps the references exactly when its writer does. -/
theorem commit_referenced_iff (referenced : db.Referenced) (w : Writer) (now : Int) :
    (w.commit db now).1.Referenced ↔ w.Keeps db := by
  cases w with
  | createTask data => exact insertTask_referenced_iff referenced data now
  | updateTask task data => exact writeTask_referenced_iff referenced task data now
  | deleteTask task => exact iff_of_true (purgeTask_referenced referenced task) trivial
  | createSource data => exact iff_of_true (insertSource_referenced referenced data now) trivial
  | updateSource source data =>
    exact iff_of_true (writeSource_referenced referenced source data) trivial
  | deleteSource source => exact iff_of_true referenced trivial
  | detached source => exact eraseSource_referenced_iff referenced source

theorem elsewhere_referenced {db' : Db} (referenced : db.Referenced)
    (sources : db'.sources = db.sources) (same : SameFields db db') : db'.Referenced := by
  intro task mem
  have here : db'.tasks.get task.id = some task := Table.get_of_mem mem
  have fields := same task.id
  rw [here, Option.map_some] at fields
  obtain ⟨old, stored, columns⟩ := Option.map_eq_some_iff.mp fields.symm
  have named : task.sourceId = old.sourceId := congrArg TaskFields.sourceId columns.symm
  rw [sources, named]
  exact referenced old (Table.mem_of_get stored)

theorem handlerStep_referenced {s t : Handlers} {event : HandlerEvent}
    (referenced : s.db.Referenced) (step : HandlerStepKept s event t) : t.db.Referenced := by
  obtain ⟨step, keeps⟩ := step
  cases event with
  | check writer =>
    obtain ⟨-, rfl⟩ := step
    unfold Handlers.check
    split <;> exact referenced
  | commit id now =>
    obtain ⟨h, stored, rfl⟩ := step
    exact (commit_referenced_iff referenced h.writer now).mpr (keeps id now rfl h stored)
  | elsewhere db =>
    obtain ⟨sources, same, rfl⟩ := step
    exact elsewhere_referenced referenced sources same

end Commits

/- A request whose check and commit nothing comes between is the transaction of the
   service. -/

def Op.writer : Op → Option (Writer × Int)
  | .createTask data now => some (.createTask data, now)
  | .updateTask task data now => some (.updateTask task data, now)
  | .deleteTask task => some (.deleteTask task, 0)
  | .createSource data now => some (.createSource data, now)
  | .updateSource source data => some (.updateSource source data, 0)
  | _ => none

theorem serial_apply (env : Env) (db : Db) {op : Op} {w : Writer} {now : Int}
    (writer : op.writer = some (w, now)) :
    apply env op db = if w.accepts db then (w.commit db now).1 else db := by
  cases op with
  | createTask data time =>
    cases writer
    cases stored : db.sources.get data.sourceId with
    | none => simp [apply, createTask, Writer.accepts, Db.orElse, stored]
    | some source =>
      simp [apply, createTask, Writer.accepts, Writer.commit, insertTask, Db.orElse, stored]
  | updateTask task data time =>
    cases writer
    cases stored : db.tasks.get task with
    | none => simp [apply, updateTask, Writer.accepts, Db.orElse, stored]
    | some row =>
      by_cases refused : taskActive db task ∧ unsafeActiveChanges row.toTaskFields data ≠ []
      · simp [apply, updateTask, Writer.accepts, Db.orElse, stored, refused]
      · simp [apply, updateTask, Writer.accepts, Writer.commit, writeTask, Db.orElse, stored, refused]
  | deleteTask task =>
    cases writer
    cases stored : db.tasks.get task with
    | none => simp [apply, deleteTask, Writer.accepts, Db.orElse, stored]
    | some row =>
      cases active : taskActive db task with
      | true => simp [apply, deleteTask, Writer.accepts, Db.orElse, stored, active]
      | false =>
        simp [apply, deleteTask, Writer.accepts, Writer.commit, purgeTask, Db.orElse, stored, active]
  | createSource data time =>
    cases writer
    cases taken : db.sources.rows.any fun s => s.name = data.name with
    | true => simp [apply, createSource, Writer.accepts, Db.orElse, taken]
    | false => simp [apply, Writer.accepts, Writer.commit, insertSource, taken]
  | updateSource source data =>
    cases writer
    cases stored : db.sources.get source with
    | none => simp [apply, updateSource, Writer.accepts, Db.orElse, stored]
    | some row =>
      cases active : sourceActive db source with
      | true => simp [apply, updateSource, Writer.accepts, Db.orElse, stored, active]
      | false =>
        by_cases taken : ∃ s ∈ db.sources.rows, s.name = data.name ∧ ¬ s.id = source <;>
          simp [apply, updateSource, Writer.accepts, Writer.commit, writeSource, Db.orElse, stored,
            active, taken]
  | _ => cases writer

/-- In every run whose commits leave the tasks their sources, every task has its source, and so
    has every task that the dispatcher owes a run. -/
theorem references_kept {s t : Handlers} {events : List HandlerEvent}
    (referenced : s.db.Referenced) (trace : Trace HandlerStepKept s events t) :
    t.db.Referenced ∧ ∀ row ∈ t.db.taskDue.rows, ∀ task,
      t.db.tasks.get row.taskId = some task → (t.db.sources.get task.sourceId).isSome := by
  have kept : t.db.Referenced :=
    trace_invariant (fun s => s.db.Referenced) (fun _ _ _ => handlerStep_referenced) trace referenced
  exact ⟨kept, fun row _ task stored => kept task (Table.mem_of_get stored)⟩

theorem commits {s : Handlers} (h : Handler) (now : Int) (stored : s.inFlight.get h.id = some h) :
    HandlerStep s (.commit h.id now) (s.commit h now) := ⟨h, stored, rfl⟩

theorem commits_kept {s : Handlers} (h : Handler) (now : Int)
    (stored : s.inFlight.get h.id = some h) (keeps : h.writer.Keeps s.db) :
    HandlerStepKept s (.commit h.id now) (s.commit h now) := by
  refine ⟨commits h now stored, fun id now event h' stored' => ?_⟩
  obtain ⟨rfl, -⟩ := HandlerEvent.commit.inj event
  obtain rfl := Option.some.inj (stored.symm.trans stored')
  exact keeps

theorem checks_kept {s : Handlers} (w : Writer) (free : w.holdsLock = true → s.locked = false) :
    HandlerStepKept s (.check w) (s.check w) :=
  ⟨⟨free, rfl⟩, fun _ _ event => by cases event⟩

def Sample.site : Handlers := ⟨Sample.nas, .empty⟩

def Sample.checked : Handlers := Sample.site.check (.createTask Sample.mail)

theorem references_kept_by_create :
    (Sample.checked.commit ⟨1, .createTask Sample.mail⟩ 0).db.Referenced ∧
      (Sample.checked.commit ⟨1, .createTask Sample.mail⟩ 0).db.tasks.rows.length = 1 := by
  have empty : Sample.site.db.Referenced := fun task mem => by cases mem
  have created : HandlerStepKept Sample.checked (.commit 1 0)
      (Sample.checked.commit ⟨1, .createTask Sample.mail⟩ 0) :=
    commits_kept ⟨1, .createTask Sample.mail⟩ 0 (by decide +kernel) (by decide +kernel)
  exact ⟨(references_kept empty (trace_cons (checks_kept _ (by decide)) (trace_single created))).1,
    by decide +kernel⟩

/-- delete_source checks while no task is there, and deletes before the create commits. -/
def Sample.raced : Handlers :=
  (((Sample.checked.check (.deleteSource 1)).commit ⟨2, .deleteSource 1⟩ 0).commit
    ⟨2, .detached 1⟩ 0).commit ⟨1, .createTask Sample.mail⟩ 0

def Sample.moved : Handlers :=
  ((Sample.checked.commit ⟨1, .createTask Sample.mail⟩ 0).check
    (.updateTask 1 { Sample.mail with sourceId := 2 })).commit
    ⟨1, .updateTask 1 { Sample.mail with sourceId := 2 }⟩ 10

theorem source_lost :
    ∃ (s t u : Handlers) (raced moved : List HandlerEvent), s.db.Referenced ∧
      Trace HandlerStep s raced t ∧ ¬ t.db.Referenced ∧
      Trace HandlerStep s moved u ∧ ¬ u.db.Referenced := by
  have empty : Sample.site.db.Referenced := fun task mem => by cases mem
  have lost : ∀ db : Db, (∃ task ∈ db.tasks.rows, db.sources.get task.sourceId = none) →
      ¬ db.Referenced := by
    rintro db ⟨task, mem, gone⟩ referenced
    have there := referenced task mem
    rw [gone] at there
    cases there
  have checked : HandlerStep Sample.site (.check (.createTask Sample.mail)) Sample.checked :=
    ⟨fun held => (by cases held), rfl⟩
  have raced : Trace HandlerStep Sample.checked
      [.check (.deleteSource 1), .commit 2 0, .commit 2 0, .commit 1 0] Sample.raced :=
    trace_cons ⟨fun held => (by cases held), rfl⟩
      (trace_cons (commits ⟨2, .deleteSource 1⟩ 0 (by decide +kernel))
        (trace_cons (commits ⟨2, .detached 1⟩ 0 (by decide +kernel))
          (trace_single (commits ⟨1, .createTask Sample.mail⟩ 0 (by decide +kernel)))))
  have moved : Trace HandlerStep Sample.checked
      [.commit 1 0, .check (.updateTask 1 { Sample.mail with sourceId := 2 }), .commit 1 10]
      Sample.moved :=
    trace_cons (commits ⟨1, .createTask Sample.mail⟩ 0 (by decide +kernel))
      (trace_cons ⟨fun _ => by decide +kernel, rfl⟩
        (trace_single (commits ⟨1, .updateTask 1 { Sample.mail with sourceId := 2 }⟩ 10
          (by decide +kernel))))
  exact ⟨Sample.site, Sample.raced, Sample.moved, _, _, empty, trace_cons checked raced,
    lost _ (by decide +kernel), trace_cons checked moved, lost _ (by decide +kernel)⟩

end Pullbackup
