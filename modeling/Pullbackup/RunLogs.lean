import Pullbackup.Library.Naming
import Pullbackup.Progress

/- The log files of runs: their names, task-{id}-{second}.log, and what the
   bodies of the executions and the deletion of a task do to the files. -/
namespace Pullbackup
open KeyedTable History Naming

def logFiles (db : Db) : List LogFile := db.runs.rows.map Run.logFilename

/-- %Y%m%dT%H%M%SZ keeps the whole seconds. -/
def Stamp.second (s : Stamp) : Int := s.ts / seconds 1

def lastAdmission (db : Db) (taskId : Nat) : Option Int :=
  latest LogFile.taskId LogFile.second taskId (logFiles db)

theorem logFile_determined (f g : LogFile) (owner : f.taskId = g.taskId)
    (time : f.second = g.second) : f = g := by
  cases f
  cases g
  simp_all

section Files
variable {db : Db}

theorem logFiles_rewrite {run : Nat} {old new : Run} (found : db.runs.get run = some old)
    (id : new.id = old.id) (same : new.logFilename = old.logFilename) :
    (db.runs.put new).rows.map Run.logFilename = logFiles db := by
  have there : ∃ run ∈ db.runs.rows, Keyed.key run = Keyed.key new :=
    ⟨old, Table.mem_of_get found, id.symm⟩
  show (putRow new db.runs.rows).map Run.logFilename = _
  rw [putRow_of_mem db.runs.unique there, List.map_map]
  refine List.map_congr_left fun run mem => ?_
  show (if Keyed.key run = Keyed.key new then new else run).logFilename = run.logFilename
  split
  · rename_i hit
    rw [same, Table.key_injective mem (Table.mem_of_get found) (hit.trans id)]
  · rfl

theorem logFiles_admit {new : Run} (fresh : db.runs.get new.id = none) :
    (db.runs.put new).rows.map Run.logFilename = logFiles db ++ [new.logFilename] := by
  show (putRow new db.runs.rows).map Run.logFilename = _
  rw [putRow_of_new (Table.get_eq_none_iff.mp fresh), List.map_append]
  rfl

theorem onLedger_files (t : Nat) (f : Ledger → Ledger) :
    logFiles (db.onLedger t f) = logFiles db := by
  unfold Db.onLedger
  split <;> rfl

theorem startRun_files {run : Nat} {now : Int} :
    logFiles (db.orElse (startRun db run now)) = logFiles db := by
  unfold startRun
  cases found : db.runs.get run with
  | none => rfl
  | some old =>
    dsimp only
    split
    · rfl
    · exact logFiles_rewrite found rfl rfl

theorem finishRun_files {run : Nat} {ending : Ending} {requested : Bool} {stats : Stats} {now : Int} :
    logFiles (finishRun db run ending requested stats now) = logFiles db := by
  unfold finishRun
  cases found : db.runs.get run with
  | none => rfl
  | some old =>
    dsimp only
    split <;> exact logFiles_rewrite found rfl rfl

theorem terminalize_files {run : Nat} {message : String} {requested : Bool} {now : Int} :
    logFiles (terminalizeOwnedRun db run message requested now).1 = logFiles db := by
  unfold terminalizeOwnedRun
  cases found : db.runs.get run with
  | none => rfl
  | some old =>
    dsimp only
    split
    · split <;> exact logFiles_rewrite found rfl rfl
    · rfl

theorem mapRuns_files {f : Run → Run} (keeps : ∀ run, Keyed.key (f run) = Keyed.key run)
    (same : ∀ run, (f run).logFilename = run.logFilename) :
    (db.runs.mapRows f keeps).rows.map Run.logFilename = logFiles db := by
  show (db.runs.rows.map f).map Run.logFilename = _
  rw [List.map_map]
  exact List.map_congr_left fun run _ => same run

end Files

/-- Only an admission names a file, and only a deletion takes names away. -/
theorem apply_files {env : Env} {op : Op} {db : Db} (linked : db.Linked)
    (other : op.admits = false) : (logFiles (apply env op db)).Sublist (logFiles db) := by
  have same : ∀ {db' : Db}, logFiles db' = logFiles db → (logFiles db').Sublist (logFiles db) :=
    fun kept => kept ▸ List.Sublist.refl _
  cases op with
  | reconcile t now => exact same (onLedger_files t _)
  | tick t now => exact same (onLedger_files t _)
  | settle now => exact same (congrArg (fun runs : Table Run => runs.rows.map Run.logFilename)
      (settleAll_spec linked now).2.2.2.1)
  | dispatch probe now stamps => cases other
  | runNow t stamp => cases other
  | start run now => exact same startRun_files
  | finish run ending requested stats now =>
    simp only [apply]
    split
    · exact same finishRun_files
    · exact List.Sublist.refl _
  | abandon run reason requested now => exact same terminalize_files
  | sweep owners now =>
    exact same (mapRuns_files (fun run => by split <;> rfl) fun run => by split <;> rfl)
  | restart now =>
    exact same (mapRuns_files (fun run => by split <;> rfl) fun run => by split <;> rfl)
  | createTask data now =>
    show (logFiles (db.orElse (createTask db data now))).Sublist _
    unfold createTask
    split <;> exact List.Sublist.refl _
  | updateTask t data now =>
    show (logFiles (db.orElse (updateTask db t data now))).Sublist _
    unfold updateTask
    split
    · exact List.Sublist.refl _
    · dsimp only
      split <;> exact List.Sublist.refl _
  | deleteTask t =>
    show (logFiles (db.orElse (deleteTask db t))).Sublist _
    unfold deleteTask
    split
    · exact List.Sublist.refl _
    · split
      · exact List.Sublist.refl _
      · exact List.filter_sublist.map Run.logFilename
  | createSource data now =>
    show (logFiles (db.orElse (createSource db data now))).Sublist _
    unfold createSource
    split <;> exact List.Sublist.refl _
  | updateSource source data =>
    show (logFiles (db.orElse (updateSource db source data))).Sublist _
    unfold updateSource
    split
    · exact List.Sublist.refl _
    · split
      · exact List.Sublist.refl _
      · split <;> exact List.Sublist.refl _
  | deleteSource source =>
    show (logFiles (db.orElse (deleteSource db source))).Sublist _
    unfold deleteSource
    split
    · exact List.Sublist.refl _
    · split <;> exact List.Sublist.refl _

def Pass.starts (limit : Nat) (probe : Probe) (now : Int) (p : Pass) (row : TaskDue) : Bool :=
  (row.status = .due || row.status = .retry && !row.retryAt.any fun instant => now < instant) &&
    (p.db.tasks.get row.taskId).any fun task =>
      task.enabled && (p.db.sources.get task.sourceId).any fun source =>
        (p.reason limit task
          (if probe.validateDestination task source then probe.destinationKey task else none)).isNone

/-- No row is started in the second of its task's last admission. -/
def Pass.Spaced (limit : Nat) (probe : Probe) (now : Int) : Pass → List TaskDue → Prop
  | _, [] => True
  | p, row :: rows =>
    (p.starts limit probe now row = true →
      lastAdmission p.db row.taskId ≠ some (p.stamps.headD ⟨now, now⟩).second) ∧
    Spaced limit probe now (Pass.row limit probe now p row) rows

instance decidableSpaced (limit : Nat) (probe : Probe) (now : Int) :
    ∀ p rows, Decidable (Pass.Spaced limit probe now p rows)
  | _, [] => inferInstanceAs (Decidable True)
  | p, row :: rows =>
    have := decidableSpaced limit probe now (Pass.row limit probe now p row) rows
    inferInstanceAs (Decidable ((p.starts limit probe now row = true →
      lastAdmission p.db row.taskId ≠ some (p.stamps.headD ⟨now, now⟩).second) ∧
      Pass.Spaced limit probe now (Pass.row limit probe now p row) rows))

section Turn
variable (limit : Nat) (probe : Probe) (now : Int) (p : Pass) (row : TaskDue)

theorem row_admits :
    p.starts limit probe now row = false ∧ (Pass.row limit probe now p row).db.runs = p.db.runs ∧
      (Pass.row limit probe now p row).stamps = p.stamps ∨
    p.starts limit probe now row = true ∧ (Pass.row limit probe now p row).stamps = p.stamps.tail ∧
      (Pass.row limit probe now p row).db.runs =
        p.db.runs.put (pendingRun (nextId p.db.runs) row.taskId (p.stamps.headD ⟨now, now⟩)) := by
  unfold Pass.row Pass.starts
  split
  · rename_i stale
    refine Or.inl ⟨?_, rfl, rfl⟩
    cases found : p.db.tasks.get row.taskId with
    | none => simp
    | some task =>
      have off : task.enabled = false := by simpa [found] using stale.2
      simp [off]
  split
  · rename_i closed
    refine Or.inl ⟨?_, rfl, rfl⟩
    rcases closed with status | status | status <;> simp [status]
  split
  · rename_i early
    refine Or.inl ⟨?_, rfl, rfl⟩
    simp [early.1, early.2]
  rename_i current opened ripe
  cases found : p.db.tasks.get row.taskId with
  | none => exact Or.inl ⟨by simp, rfl, rfl⟩
  | some task =>
    dsimp only
    cases there : p.db.sources.get task.sourceId with
    | none => exact Or.inl ⟨by simp [there], rfl, rfl⟩
    | some source =>
      dsimp only
      have id : task.id = row.taskId := Table.key_of_get found
      split
      · rename_i reason held
        refine Or.inl ⟨by simp [there, held], ?_, rfl⟩
        unfold Pass.wait
        dsimp only
        split <;> rfl
      · rename_i free
        have ready : (row.status = .due ||
            row.status = .retry && !row.retryAt.any fun instant => now < instant) = true := by
          cases status : row.status <;> simp_all
        have enabled : task.enabled = true := by
          cases on : task.enabled with
          | true => rfl
          | false => exact absurd ⟨fun same => opened (Or.inl same), by simp [found, on]⟩ current
        refine Or.inr ⟨by simp [ready, enabled, there, free], rfl, ?_⟩
        rw [← id]
        rfl

end Turn

theorem second_mono {a b : Int} (order : a ≤ b) : a / seconds 1 ≤ b / seconds 1 :=
  Int.ediv_le_ediv (by decide) order

/-- What the names of a database keep: in order for each task, and not of the future. -/
structure Chronicle (db : Db) (clock : Int) : Prop where
  ordered : Naming.Ordered LogFile.taskId LogFile.second (logFiles db)
  past : ∀ f ∈ logFiles db, f.second ≤ clock / seconds 1

theorem chronicle_later {db : Db} {clock later : Int} (chronicle : Chronicle db clock)
    (order : clock ≤ later) : Chronicle db later :=
  ⟨chronicle.ordered, fun f mem => (chronicle.past f mem).trans (second_mono order)⟩

theorem admission_files {db db' : Db} {id t : Nat} {stamp : Stamp} (fresh : db.runs.get id = none)
    (runs : db'.runs = db.runs.put (pendingRun id t stamp))
    (ordered : Naming.Ordered LogFile.taskId LogFile.second (logFiles db))
    (late : ∀ f ∈ logFiles db, f.taskId = t → f.second ≤ stamp.second) :
    logFiles db' = logFiles db ++ [⟨t, stamp.second⟩] ∧
      Naming.Ordered LogFile.taskId LogFile.second (logFiles db') ∧
      ((logFiles db').Nodup ↔ (logFiles db).Nodup ∧ lastAdmission db t ≠ some stamp.second) := by
  have shape : logFiles db' = logFiles db ++ [⟨t, stamp.second⟩] := by
    rw [logFiles, runs]
    exact logFiles_admit fresh
  rw [shape]
  exact ⟨rfl, ordered_issue ordered late, nodup_issue_iff logFile_determined ordered late⟩

theorem rows_files (limit : Nat) (probe : Probe) {now hi : Int} (rows : List TaskDue) (p : Pass)
    (unique : (rows.map TaskDue.taskId).Nodup) (order : now ≤ hi)
    (readings : ∀ stamp ∈ p.stamps, now ≤ stamp.ts ∧ stamp.ts ≤ hi)
    (chronicle : Chronicle p.db hi)
    (early : ∀ f ∈ logFiles p.db, f.taskId ∈ rows.map TaskDue.taskId → f.second ≤ now / seconds 1) :
    Chronicle (rows.foldl (Pass.row limit probe now) p).db hi ∧
      ((logFiles (rows.foldl (Pass.row limit probe now) p).db).Nodup ↔
        (logFiles p.db).Nodup ∧ Pass.Spaced limit probe now p rows) := by
  induction rows generalizing p with
  | nil => exact ⟨chronicle, by simp [Pass.Spaced]⟩
  | cons row rows ih =>
    obtain ⟨apart, unique⟩ := List.nodup_cons.mp unique
    have head : now ≤ (p.stamps.headD ⟨now, now⟩).ts ∧ (p.stamps.headD ⟨now, now⟩).ts ≤ hi := by
      cases stamps : p.stamps with
      | nil => exact ⟨le_refl now, order⟩
      | cons stamp rest => exact readings stamp (by simp [stamps])
    rw [List.foldl_cons]
    rcases row_admits limit probe now p row with
      ⟨waits, runs, stamps⟩ | ⟨starts, stamps, runs⟩
    · have same : logFiles (Pass.row limit probe now p row).db = logFiles p.db := by
        rw [logFiles, runs, logFiles]
      have rest := ih _ unique (by rw [stamps]; exact readings)
        ⟨same ▸ chronicle.ordered, same ▸ chronicle.past⟩
        (fun f mem inside => early f (same ▸ mem) (List.mem_cons_of_mem _ inside))
      refine ⟨rest.1, rest.2.trans ?_⟩
      simp only [same, Pass.Spaced, waits, Bool.false_eq_true, false_implies, true_and]
    · obtain ⟨shape, ordered, nodup⟩ := admission_files (get_nextId p.db.runs) runs chronicle.ordered
        fun f mem owner => (early f mem (by simp [owner])).trans (second_mono head.1)
      have past : ∀ f ∈ logFiles (Pass.row limit probe now p row).db, f.second ≤ hi / seconds 1 := by
        intro f mem
        rw [shape] at mem
        rcases List.mem_append.mp mem with old | new
        · exact chronicle.past f old
        · rw [List.mem_singleton.mp new]
          exact second_mono head.2
      have rest := ih _ unique
        (by rw [stamps]; exact fun stamp mem => readings stamp (List.mem_of_mem_tail mem))
        ⟨ordered, past⟩ (by
          intro f mem inside
          rw [shape] at mem
          rcases List.mem_append.mp mem with old | new
          · exact early f old (List.mem_cons_of_mem _ inside)
          · rw [List.mem_singleton.mp new] at inside
            exact absurd inside apart)
      refine ⟨rest.1, rest.2.trans ?_⟩
      rw [nodup]
      simp only [Pass.Spaced, starts, true_implies, and_assoc]

/-- An admission takes its name from a second in which its task was not admitted before. -/
def Spaced (env : Env) (db : Db) : Op → Prop
  | .runNow t stamp =>
    (db.tasks.get t).any (fun task => !taskActive db task.id && !sourceActive db task.sourceId) →
      lastAdmission db t ≠ some stamp.second
  | .dispatch probe now stamps =>
    Pass.Spaced env.maxConcurrentRuns probe now (Pass.begin probe (settleAll db now) stamps)
      (passRows (settleAll db now))
  | _ => True

instance decidableOpSpaced (env : Env) (db : Db) : (op : Op) → Decidable (Spaced env db op)
  | .runNow _ _ => inferInstanceAs (Decidable (_ → _))
  | .dispatch _ _ _ => inferInstanceAs (Decidable (Pass.Spaced _ _ _ _ _))
  | .reconcile _ _ | .tick _ _ | .settle _ | .start _ _ | .finish _ _ _ _ _ | .abandon _ _ _ _
  | .sweep _ _ | .restart _ | .createTask _ _ | .updateTask _ _ _ | .deleteTask _
  | .createSource _ _ | .updateSource _ _ | .deleteSource _ => inferInstanceAs (Decidable True)

theorem spaced_of_not_admits {env : Env} {db : Db} {op : Op} (other : op.admits = false) :
    Spaced env db op := by
  cases op with
  | dispatch probe now stamps => cases other
  | runNow t stamp => cases other
  | _ => trivial

theorem admitRun_files {db : Db} {clock : Int} (chronicle : Chronicle db clock) {t : Nat}
    {stamp : Stamp} (late : clock ≤ stamp.ts) :
    Chronicle (((admitRun db t stamp).map Prod.fst).getD db) stamp.ts ∧
      ((logFiles (((admitRun db t stamp).map Prod.fst).getD db)).Nodup ↔ (logFiles db).Nodup ∧
        ((db.tasks.get t).any (fun task => !taskActive db task.id && !sourceActive db task.sourceId) →
          lastAdmission db t ≠ some stamp.second)) := by
  unfold admitRun
  cases found : db.tasks.get t with
  | none => exact ⟨chronicle_later chronicle late, by simp⟩
  | some task =>
    have id : task.id = t := Table.key_of_get found
    subst id
    dsimp only
    split
    · rename_i busy
      exact ⟨chronicle_later chronicle late, by simp [busy]⟩
    · split
      · rename_i busy
        exact ⟨chronicle_later chronicle late, by simp [busy]⟩
      · rename_i idle quiet
        have runs : (newPendingRun db task stamp).1.runs =
          db.runs.put (pendingRun (nextId db.runs) task.id stamp) := rfl
        obtain ⟨shape, ordered, nodup⟩ := admission_files (get_nextId db.runs) runs chronicle.ordered
          fun f mem _ => (chronicle.past f mem).trans (second_mono late)
        refine ⟨⟨ordered, ?_⟩, nodup.trans (by simp [idle, quiet])⟩
        intro f mem
        rw [Option.map_some, Option.getD_some] at mem
        rcases List.mem_append.mp (shape ▸ mem) with old | new
        · exact (chronicle.past f old).trans (second_mono late)
        · exact le_of_eq (by rw [List.mem_singleton.mp new]; rfl)

theorem begin_same (probe : Probe) (db : Db) (stamps : List Stamp) :
    (Pass.begin probe db stamps).db = db ∧ (Pass.begin probe db stamps).stamps = stamps := by
  unfold Pass.begin
  obtain ⟨same, kept, -⟩ := observeAll probe (db.runs.rows.filter fun r => r.state.active)
    { db := db, activeTasks := [], activeSources := [], dests := []
      count := (db.runs.rows.filter fun r => r.state.active).length, stamps := stamps }
  exact ⟨same, kept⟩

theorem dispatch_files (env : Env) {db : Db} (linked : db.Linked) {clock hi : Int}
    (chronicle : Chronicle db clock) (probe : Probe) {now : Int} {stamps : List Stamp}
    (late : clock ≤ now) (order : now ≤ hi)
    (readings : ∀ stamp ∈ stamps, now ≤ stamp.ts ∧ stamp.ts ≤ hi) :
    Chronicle (apply env (.dispatch probe now stamps) db) hi ∧
      ((logFiles (apply env (.dispatch probe now stamps) db)).Nodup ↔
        (logFiles db).Nodup ∧ Spaced env db (.dispatch probe now stamps)) := by
  obtain ⟨begun, kept⟩ := begin_same probe (settleAll db now) stamps
  have same : logFiles (Pass.begin probe (settleAll db now) stamps).db = logFiles db := by
    rw [begun, logFiles, (settleAll_spec linked now).2.2.2.1]
    rfl
  have pass := rows_files env.maxConcurrentRuns probe (passRows (settleAll db now))
    (Pass.begin probe (settleAll db now) stamps) (passRows_spec (settleAll db now)).2 order
    (by rw [kept]; exact readings)
    (chronicle_later ⟨same ▸ chronicle.ordered, same ▸ chronicle.past⟩ (late.trans order))
    (fun f mem _ => (chronicle.past f (same ▸ mem)).trans (second_mono late))
  rw [same] at pass
  exact pass

theorem step_files {env : Env} {s t : Service} {op : Op} (linked : s.db.Linked)
    (chronicle : Chronicle s.db s.clock) (step : Step env s op t) :
    Chronicle t.db t.clock ∧
      ((logFiles s.db).Nodup → ((logFiles t.db).Nodup ↔ Spaced env s.db op)) := by
  have order := clock_le step
  have reads : ∀ r ∈ op.readings, s.clock ≤ r ∧ r ≤ t.clock := fun r mem => reading_le_clock step mem
  have timely := step.1
  have result : t.db = apply env op s.db := by rw [step.2]; rfl
  by_cases admits : op.admits = true
  · cases op with
    | runNow task stamp =>
      obtain ⟨after, nodup⟩ := admitRun_files (t := task) chronicle
        (reads stamp.ts (by simp [Op.readings])).1
      rw [result]
      refine ⟨chronicle_later after (reads stamp.ts (by simp [Op.readings])).2, fun apart => ?_⟩
      exact nodup.trans ⟨fun both => both.2, fun spaced => ⟨apart, spaced⟩⟩
    | dispatch probe now stamps =>
      have first := reads now (by simp [Op.readings])
      have readings : ∀ stamp ∈ stamps, now ≤ stamp.ts ∧ stamp.ts ≤ t.clock := by
        intro stamp mem
        have listed : stamp.ts ∈ stamps.flatMap fun s => [s.ts, s.startedAt] :=
          List.mem_flatMap.mpr ⟨stamp, mem, by simp⟩
        have sorted := (List.pairwise_cons.mp timely).2
        exact ⟨(List.pairwise_cons.mp sorted).1 _ listed,
          (reads _ (List.mem_cons_of_mem now listed)).2⟩
      obtain ⟨after, nodup⟩ := dispatch_files env linked chronicle probe first.1 first.2 readings
      rw [result]
      exact ⟨after, fun apart => nodup.trans ⟨fun both => both.2, fun spaced => ⟨apart, spaced⟩⟩⟩
    | _ => cases admits
  · have other := Bool.eq_false_iff.mpr admits
    have part : (logFiles t.db).Sublist (logFiles s.db) := by
      rw [result]
      exact apply_files linked other
    refine ⟨⟨ordered_sublist chronicle.ordered part, fun f mem =>
      (chronicle.past f (part.subset mem)).trans (second_mono order)⟩, fun apart => ?_⟩
    exact ⟨fun _ => spaced_of_not_admits other, fun _ => apart.sublist part⟩

/-- No two rows share a log. -/
def Db.LogsApart (db : Db) : Prop :=
  ∀ r ∈ db.runs.rows, ∀ r' ∈ db.runs.rows, r.logFilename = r'.logFilename → r = r'

theorem logsApart_iff (db : Db) : db.LogsApart ↔ (logFiles db).Nodup := by
  constructor
  · intro apart
    exact (List.Nodup.of_map Run.id db.runs.unique).map_on fun r mem r' mem' => apart r mem r' mem'
  · intro nodup r mem r' mem' same
    exact List.inj_on_of_nodup_map nodup mem mem' same

def logHeader (run : Nat) (taskType : String) (args : List String) : String :=
  "# pullbackup run " ++ toString run ++ " (" ++ taskType ++ ")\n# args: " ++
    " ".intercalate args ++ "\n\n"

structure LogHost where
  service : Service
  logs : LogFile → Option String

/-- A transaction, with the files that a deletion fails to unlink, or a write of the body of an
    execution: the opening that truncates, or what the process, the prune and the runner append. -/
inductive LogAct where
  | op (op : Op) (stuck : List LogFile)
  | openLog (run : Nat) (taskType : String) (args : List String)
  | append (run : Nat) (text : String)

/-- The body runs between the two transactions of its run: it is in the body exactly while its
    row is running (reachable_fits). -/
def LogHost.writable (h : LogHost) (run : Nat) : Option LogFile :=
  (h.service.db.runs.get run).bind fun r => if r.state = .running then some r.logFilename else none

/-- The deletion of a task unlinks the logs of its runs; one that cannot be unlinked is kept. -/
def LogHost.unlinked (h : LogHost) (stuck : List LogFile) : Op → List LogFile
  | .deleteTask t =>
    match deleteTask h.service.db t with
    | .error _ => []
    | .ok _ => ((h.service.db.runs.rows.filter (ownedBy t)).map Run.logFilename).filter (· ∉ stuck)
  | _ => []

def LogHost.touched (h : LogHost) : LogAct → List LogFile
  | .op op stuck => h.unlinked stuck op
  | .openLog run _ _ | .append run _ => (h.writable run).toList

def LogHost.write (h : LogHost) (run : Nat) (content : Option String → String) : LogHost :=
  match h.writable run with
  | none => h
  | some f => { h with logs := Function.update h.logs f (some (content (h.logs f))) }

def LogHost.next (env : Env) (h : LogHost) : LogAct → LogHost
  | .op op stuck =>
    ⟨h.service.next env op, fun f => if f ∈ h.unlinked stuck op then none else h.logs f⟩
  | .openLog run taskType args => h.write run fun _ => logHeader run taskType args
  | .append run text => h.write run fun before => before.getD "" ++ text

def LogHost.Timely (h : LogHost) : LogAct → Prop
  | .op op _ => h.service.Timely op
  | .openLog _ _ _ | .append _ _ => True

/-- The task is admitted again in a later second, if at all. -/
def LogHost.Spaced (env : Env) (h : LogHost) : LogAct → Prop
  | .op op _ => Pullbackup.Spaced env h.service.db op
  | .openLog _ _ _ | .append _ _ => True

instance (h : LogHost) : (act : LogAct) → Decidable (h.Timely act)
  | .op op _ => inferInstanceAs (Decidable (h.service.Timely op))
  | .openLog _ _ _ | .append _ _ => inferInstanceAs (Decidable True)

instance decidableActSpaced (env : Env) (h : LogHost) : (act : LogAct) → Decidable (h.Spaced env act)
  | .op op _ => inferInstanceAs (Decidable (Pullbackup.Spaced env h.service.db op))
  | .openLog _ _ _ | .append _ _ => inferInstanceAs (Decidable True)

def LogAct.deletes : LogAct → Option Nat
  | .op (.deleteTask t) _ => some t
  | _ => none

/-- The names stay apart, and a run that has ended stays with its log: but for the deletion of
    its own task, no step writes or deletes it. -/
def LogHost.Isolated (env : Env) (h : LogHost) (act : LogAct) : Prop :=
  (h.next env act).service.db.LogsApart ∧
    ∀ run ∈ h.service.db.runs.rows, run.state.active = false → act.deletes ≠ some run.taskId →
      run ∈ (h.next env act).service.db.runs.rows ∧ run.logFilename ∉ h.touched act ∧
        (h.next env act).logs run.logFilename = h.logs run.logFilename

section Host
variable {env : Env} {h : LogHost}

theorem writable_running {run : Nat} {f : LogFile} (writable : h.writable run = some f) :
    ∃ r ∈ h.service.db.runs.rows, r.state = .running ∧ r.logFilename = f := by
  unfold LogHost.writable at writable
  obtain ⟨r, found, name⟩ := Option.bind_eq_some_iff.mp writable
  split at name
  · rename_i running
    exact ⟨r, Table.mem_of_get found, running, Option.some.inj name⟩
  · cases name

theorem touched_running {act : LogAct} {f : LogFile} (mem : f ∈ h.touched act) :
    ∃ r ∈ h.service.db.runs.rows, r.logFilename = f ∧
      (r.state = .running ∨ act.deletes = some r.taskId) := by
  cases act with
  | op op stuck =>
    cases op with
    | deleteTask t =>
      simp only [LogHost.touched, LogHost.unlinked] at mem
      split at mem
      · cases mem
      · obtain ⟨listed, -⟩ := List.mem_filter.mp mem
        obtain ⟨r, here, rfl⟩ := List.mem_map.mp listed
        obtain ⟨stored, owner⟩ := List.mem_filter.mp here
        exact ⟨r, stored, rfl, Or.inr (by simpa [LogAct.deletes, ownedBy, eq_comm] using owner)⟩
    | _ => cases mem
  | openLog run taskType args =>
    obtain ⟨r, stored, running, name⟩ := writable_running (Option.mem_toList.mp mem)
    exact ⟨r, stored, name, Or.inl running⟩
  | append run text =>
    obtain ⟨r, stored, running, name⟩ := writable_running (Option.mem_toList.mp mem)
    exact ⟨r, stored, name, Or.inl running⟩

theorem write_other {run : Nat} {content : Option String → String} {f : LogFile}
    (other : f ∉ (h.writable run).toList) : (h.write run content).logs f = h.logs f := by
  unfold LogHost.write
  cases writable : h.writable run with
  | none => rfl
  | some g =>
    have apart : f ≠ g := by simpa [writable] using other
    exact Function.update_of_ne apart _ _

theorem untouched_kept {act : LogAct} {f : LogFile} (other : f ∉ h.touched act) :
    (h.next env act).logs f = h.logs f := by
  cases act with
  | op op stuck => exact if_neg other
  | openLog run taskType args => exact write_other other
  | append run text => exact write_other other

theorem write_service (run : Nat) (content : Option String → String) :
    (h.write run content).service = h.service := by
  unfold LogHost.write
  split <;> rfl

/-- Where the names are apart, a step touches the logs of running runs and deleted tasks only. -/
theorem apart_untouched {act : LogAct} (apart : h.service.db.LogsApart) {run : Run}
    (mem : run ∈ h.service.db.runs.rows) (ended : run.state.active = false)
    (kept : act.deletes ≠ some run.taskId) : run.logFilename ∉ h.touched act := by
  intro touched
  obtain ⟨r, stored, name, running | deleted⟩ := touched_running touched
  · obtain rfl := apart r stored run mem name
    rw [running] at ended
    cases ended
  · obtain rfl := apart r stored run mem name
    exact kept deleted

theorem ended_stays {s t : Service} {op : Op} (linked : s.db.Linked) (step : Step env s op t)
    {run : Run} (mem : run ∈ s.db.runs.rows) (ended : run.state.active = false)
    (kept : op ≠ .deleteTask run.taskId) : run ∈ t.db.runs.rows := by
  obtain ⟨task, stored⟩ := Option.isSome_iff_exists.mp (linked.owner run mem)
  have seen := (apply_sees linked step).2 run.taskId
  generalize before : s.db.view run.taskId = v at seen
  generalize after : t.db.view run.taskId = v' at seen
  cases seen with
  | absent =>
    rw [view_eq, stored] at before
    cases before
  | created time request =>
    rw [view_eq, stored] at before
    cases before
  | deleted request quiet => exact absurd request kept
  | acts effect =>
    have there := (mem_view_runs before).mpr ⟨mem, rfl⟩
    have here := effect_ended (view_wf linked before) effect there ended
    exact ((mem_view_runs after).mp here).1

structure LogHost.Kept (h : LogHost) : Prop where
  linked : h.service.db.Linked
  chronicle : Chronicle h.service.db h.service.clock
  apart : h.service.db.LogsApart

theorem next_stays {act : LogAct} (kept : h.Kept) (timely : h.Timely act) {run : Run}
    (mem : run ∈ h.service.db.runs.rows) (ended : run.state.active = false)
    (spared : act.deletes ≠ some run.taskId) : run ∈ (h.next env act).service.db.runs.rows := by
  cases act with
  | op op stuck =>
    refine ended_stays kept.linked (⟨timely, rfl⟩ : Step env h.service op _) mem ended ?_
    rintro rfl
    exact spared rfl
  | openLog run taskType args => exact (congrArg Service.db (write_service run _)).symm ▸ mem
  | append run text => exact (congrArg Service.db (write_service run _)).symm ▸ mem

theorem next_kept {act : LogAct} (kept : h.Kept) (timely : h.Timely act) :
    (h.Spaced env act ↔ (h.next env act).service.db.LogsApart) ∧
      ((h.next env act).service.db.LogsApart → (h.next env act).Kept) := by
  have still : ∀ {t : LogHost}, t.service = h.service →
      (True ↔ t.service.db.LogsApart) ∧ (t.service.db.LogsApart → t.Kept) := by
    intro t same
    obtain ⟨service, logs⟩ := t
    obtain rfl : service = h.service := same
    exact ⟨⟨fun _ => kept.apart, fun _ => trivial⟩, fun apart => ⟨kept.linked, kept.chronicle, apart⟩⟩
  cases act with
  | op op stuck =>
    have step : Step env h.service op (h.service.next env op) := ⟨timely, rfl⟩
    obtain ⟨chronicle, nodup⟩ := step_files kept.linked kept.chronicle step
    refine ⟨?_, fun apart => ⟨(apply_sees kept.linked step).1, chronicle, apart⟩⟩
    exact (nodup ((logsApart_iff _).mp kept.apart)).symm.trans (logsApart_iff _).symm
  | openLog run taskType args => exact still (write_service run _)
  | append run text => exact still (write_service run _)

end Host

/-- Whatever is admitted, executed and deleted: the runs keep their own names, and the log of an
    ended run is left alone while its task is, exactly when no task is admitted twice in one
    second of the clock. -/
theorem logs_isolated_iff (env : Env) (clock : Int) (logs : LogFile → Option String)
    (acts : List LogAct)
    (timely : EveryStep (LogHost.next env) LogHost.Timely ⟨Service.init clock, logs⟩ acts) :
    EveryStep (LogHost.next env) (LogHost.Isolated env) ⟨Service.init clock, logs⟩ acts ↔
      EveryStep (LogHost.next env) (LogHost.Spaced env) ⟨Service.init clock, logs⟩ acts := by
  have start : LogHost.Kept ⟨Service.init clock, logs⟩ := by
    refine ⟨empty_linked, ⟨List.Pairwise.nil, ?_⟩, ?_⟩
    · intro f mem
      cases mem
    · intro r mem
      cases mem
  have both : EveryStep (LogHost.next env) (fun h act => h.Timely act ∧ h.Isolated env act)
        ⟨Service.init clock, logs⟩ acts ↔
      EveryStep (LogHost.next env) (fun h act => h.Timely act ∧ h.Spaced env act)
        ⟨Service.init clock, logs⟩ acts := by
    refine everyStep_iff LogHost.Kept ?_ ?_ start acts
    · intro h act kept
      refine and_congr_right fun inTime => ?_
      rw [(next_kept kept inTime).1]
      refine ⟨fun isolated => isolated.1, fun apart => ⟨apart, fun run mem ended spared => ?_⟩⟩
      have untouched := apart_untouched kept.apart mem ended spared
      exact ⟨next_stays kept inTime mem ended spared, untouched, untouched_kept untouched⟩
    · intro h act kept safe
      have spaced := (next_kept kept safe.1).1.mp safe.2
      exact (next_kept kept safe.1).2 spaced
  rw [everyStep_and, everyStep_and] at both
  simpa only [timely, true_and] using both

/- A run of photos that ends in the second it was admitted in, and one more of a later second. -/

def Sample.logHost : LogHost := ⟨Service.init 0, fun _ => none⟩

def Sample.backup (run : Nat) (second : Int) : List LogAct :=
  [.op (.runNow 1 (stamp second)) [], .op (.start run (seconds second)) [],
    .openLog run "rsync" ["rsync", "/backup/photos"], .append run "sent 42 bytes\n",
    .op (.finish run (.exited 0) false {} (seconds second)) []]

def Sample.deployed : List LogAct :=
  [.op (.createSource source 0) [], .op (.createTask fields 0) []]

theorem next_second_keeps_log :
    EveryStep (LogHost.next Sample.env) (LogHost.Isolated Sample.env) Sample.logHost
      (Sample.deployed ++ Sample.backup 1 10 ++ Sample.backup 2 11) :=
  (logs_isolated_iff Sample.env 0 (fun _ => none) _ (by decide)).mpr (by decide)

/-- Two runs of one second: the second opens the log of the first, which has succeeded. -/
theorem same_second_truncates_log :
    let first := (Sample.deployed ++ Sample.backup 1 10).foldl (LogHost.next Sample.env) Sample.logHost
    let both := (Sample.backup 2 10).foldl (LogHost.next Sample.env) first
    EveryStep (LogHost.next Sample.env) LogHost.Timely Sample.logHost
        (Sample.deployed ++ Sample.backup 1 10 ++ Sample.backup 2 10) ∧
      (first.service.db.runs.get 1).map Run.state = some .success ∧
      (both.service.db.runs.rows.map Run.logFilename) = [⟨1, 10⟩, ⟨1, 10⟩] ∧
      first.logs ⟨1, 10⟩ = some
        "# pullbackup run 1 (rsync)\n# args: rsync /backup/photos\n\nsent 42 bytes\n" ∧
      both.logs ⟨1, 10⟩ = some
        "# pullbackup run 2 (rsync)\n# args: rsync /backup/photos\n\nsent 42 bytes\n" ∧
      ¬ EveryStep (LogHost.next Sample.env) (LogHost.Isolated Sample.env) Sample.logHost
        (Sample.deployed ++ Sample.backup 1 10 ++ Sample.backup 2 10) := by
  refine ⟨by decide, by decide, by decide, by decide +kernel, by decide +kernel, ?_⟩
  rintro ⟨-, -, -, -, -, -, -, ⟨apart, -⟩, -⟩
  exact absurd ((logsApart_iff _).mp apart) (by decide)

end Pullbackup
