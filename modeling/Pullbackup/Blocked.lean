import Pullbackup.Generation

/- A task whose expression does not parse. Its row is blocked by every reconcile,
   and the dispatcher passes over a blocked row; the row leaves its block by an
   edit that does not look at the expression, and by the end of a run it is still
   attached to. -/
namespace Pullbackup
open KeyedTable History

/-- The transactions that lift a block: an accepted edit of an enabled task, and the end of an
    attached run that leaves the row something to do. -/
def unblocks (a : Nat) (s : Service) : Op → Bool
  | .updateTask t data _ =>
    t = a && data.enabled && (s.db.taskDue.get a).any (fun row => row.status = .blocked) &&
      (!taskActive s.db a || (s.db.tasks.get a).any fun task =>
        unsafeActiveChanges task.toTaskFields data = [])
  | .finish run ending requested _ _ =>
    (s.db.runs.get run).any (fun r => r.state = .running) &&
      (s.db.taskDue.get a).any fun row =>
        row.status = .blocked && row.runId = some run &&
          match ending.state requested with
          | .failed => true
          | .success => row.newerDueAt.isSome
          | _ => false
  | _ => false

/-- Nothing is owed, or what is owed is blocked. -/
structure Held (env : Env) (l : Ledger) : Prop where
  unread : env.trig.parses l.task.cron = false
  blocked : ∀ row, l.due = some row → row.status = .blocked

section Held
variable {env : Env} {a : Nat} {lo hi : Int} {op : Op} {l l' : Ledger}

theorem held_worked (held : Held env l) {now : Int} (worked : Worked env.trig now l l') :
    Held env l' := by
  cases worked with
  | same => exact held
  | blocked enabled unreadable =>
    refine ⟨held.unread, fun row owed => ?_⟩
    obtain rfl := Option.some.inj owed
    exact blockedRow_status env.trig l now
  | scanned enabled readable => simp [held.unread] at readable
  | early enabled readable early => simp [held.unread] at readable
  | late enabled readable bare punctual uncovered => simp [held.unread] at readable

theorem held_settle (held : Held env l) (now : Int) : l.settle now = l := by
  obtain ⟨task, due, runs⟩ := l
  cases due with
  | none => rfl
  | some row =>
    have blocked : row.status = .blocked := held.blocked row rfl
    simp [Ledger.settle, settleRow, blocked]

theorem held_outcome {row : TaskDue} {run : Run} {ending : Ending} {requested : Bool}
    {stats : Stats} {now : Int}
    (spares : (match ending.state requested with
      | .failed => true
      | .success => row.newerDueAt.isSome
      | _ => false) = false) :
    applyRunOutcome row (run.terminal ending requested stats now) now = none := by
  have state : (run.terminal ending requested stats now).state = ending.state requested := rfl
  have ended := terminal_ended run ending requested stats now
  rw [state] at ended
  unfold applyRunOutcome
  rw [state]
  cases outcome : ending.state requested with
  | pending => simp [outcome] at ended
  | running => simp [outcome] at ended
  | failed => simp [outcome] at spares
  | cancelled => rfl
  | success =>
    have unmarked : row.newerDueAt = none := by simpa [outcome] using spares
    simp [unmarked, finish]

theorem edit_disabled {data : TaskFields} (off : data.enabled = false) {now : Int} {l : Ledger} :
    editLedger data now l = { l with
      task := { l.task with
        toTaskFields := data, updatedAt := now
        scheduleBaselineAt := some now, scheduleEpochAt := some now }
      due := none } := by
  simp [editLedger, onTaskEdited, off]

theorem effect_held {s : Service} (view : s.db.view a = some l) (held : Held env l)
    (effect : Effect env a lo hi op l l') (schedule : keepsSchedule a s op = true)
    (keeps : unblocks a s op = false) : Held env l' := by
  have unready : ∀ {row now}, (l.settle now).due = some row → ¬ row.Ready now := by
    intro row now owed ready
    rw [held_settle held] at owed
    exact (ready_open ready).2 (held.blocked row owed)
  have settled : ∀ now, Held env (l.settle now) := by
    intro now
    rw [held_settle held]
    exact held
  cases effect with
  | idle => exact held
  | reconcile time => exact held_worked held (reconcile_worked _ _ _)
  | tick time => exact held_worked held (tick_worked _ _ _)
  | settle time => exact settled _
  | pass time => exact settled _
  | drop time owed other disabled => exact ⟨held.unread, fun row owed => by cases owed⟩
  | wait time owed ready => exact absurd ready (unready owed)
  | launch time owed ready enabled quiet fresh started => exact absurd ready (unready owed)
  | runNow quiet fresh started => exact ⟨held.unread, held.blocked⟩
  | start time mem pending => exact ⟨held.unread, held.blocked⟩
  | @finish ending requested stats now l run time mem running =>
    have id : (run.terminal ending requested stats now).id = run.id := rfl
    cases owed : l.due with
    | none =>
      rw [endRun_of_none owed]
      exact ⟨held.unread, held.blocked⟩
    | some row =>
      by_cases attached : row.runId = some run.id
      · have stored := (view_runs view).2.2.1.symm.trans owed
        have here := Table.get_of_mem ((mem_view_runs view).mp mem).1
        have spares := keeps
        simp only [unblocks, show s.db.runs.get run.id = some run from here, stored,
          Option.any_some, running, decide_true, held.blocked row owed, attached, Bool.true_and]
          at spares
        have attached' : row.runId = some (run.terminal ending requested stats now).id := attached
        rw [endRun_of_attached owed attached', held_outcome spares]
        exact ⟨held.unread, fun row owed => by cases owed⟩
      · have other : row.runId ≠ some (run.terminal ending requested stats now).id := attached
        rw [endRun_of_other owed other]
        exact ⟨held.unread, held.blocked⟩
  | abandon time mem active failed => exact ⟨held.unread, held.blocked⟩
  | sweep time => exact ⟨held.unread, held.blocked⟩
  | restart time => exact ⟨held.unread, held.blocked⟩
  | @update data now l time allowed =>
    obtain ⟨-, -, due, stored⟩ := view_runs view
    have same : data.cron = l.task.cron ∧ data.enabled = l.task.enabled := by
      simpa [keepsSchedule, stored] using schedule
    have unread : env.trig.parses data.cron = false := by
      rw [same.1]
      exact held.unread
    cases enabled : data.enabled with
    | false =>
      rw [edit_disabled enabled]
      exact ⟨unread, fun row owed => by cases owed⟩
    | true =>
      have change := editLedger_edited data now l
      generalize editLedger data now l = l' at change
      cases change with
      | reset changed => exact ⟨unread, fun row owed => by cases owed⟩
      | @rearmed row cron on owed was =>
        have free : taskActive s.db a = false ∨ unsafeActiveChanges l.task.toTaskFields data = [] :=
          allowed.imp_left (taskActive_iff view).mpr
        simp only [unblocks, enabled, due.symm.trans owed, stored, Option.any_some,
          held.blocked row owed, decide_true, Bool.true_and] at keeps
        rcases free with quiet | safe
        · simp [quiet] at keeps
        · simp [safe] at keeps
      | kept cron on free => exact ⟨unread, held.blocked⟩

/-- A run that is new beside a held row was admitted by hand. -/
theorem held_admits {s : Service} (view : s.db.view a = some l) (held : Held env l)
    (effect : Effect env a lo hi op l l') {run : Run} (mem : run ∈ l'.runs)
    (new : s.db.runs.get run.id = none) : ∃ stamp, op = .runNow a stamp := by
  have known : ∀ r ∈ l.runs, r.id ≠ run.id := by
    intro r here same
    have found := Table.get_of_mem ((mem_view_runs view).mp here).1
    rw [show Keyed.key r = run.id from same, new] at found
    cases found
  cases effect_origin effect mem with
  | old here => exact absurd rfl (known run here)
  | started here pending id running time => exact absurd id.symm (known _ here)
  | ended here active id settled start => exact absurd id.symm (known _ here)
  | admitted request pending fresh time =>
    cases effect with
    | idle => exact absurd rfl (known run mem)
    | pass time => exact absurd rfl (known run mem)
    | drop time owed other disabled => exact absurd rfl (known run mem)
    | wait time owed ready => exact absurd rfl (known run mem)
    | runNow quiet fresh started => exact ⟨_, rfl⟩
    | launch time owed ready enabled quiet fresh started =>
      rw [held_settle held] at owed
      exact absurd (held.blocked _ owed) (ready_open ready).2
    | _ => cases request

end Held

/-- From the state in which the row of a task with an unreadable expression is blocked, and for
    as long as its schedule is not edited and nothing lifts a block, the row stays blocked, no
    pass starts it, and every run the task gets is admitted by hand. -/
theorem blocked_task_never_dispatched {env : Env} {s t u : Service} {a : Nat} {task : Task}
    {row : TaskDue} {ops : List Op} {op : Op} (reachable : Reachable env s)
    (stored : s.db.tasks.get a = some task) (unread : env.trig.parses task.cron = false)
    (owed : s.db.taskDue.get a = some row) (blocked : row.status = .blocked)
    (history : Trace (fun s op t => Step env s op t ∧
      (keepsSchedule a s op = true ∧ unblocks a s op = false)) s ops t)
    (last : Step env t op u) (schedule : keepsSchedule a t op = true)
    (keeps : unblocks a t op = false) :
    (∀ row', u.db.taskDue.get a = some row' → row'.status = .blocked) ∧
      (∀ row', ¬ Starts t.db u.db a row') ∧
      ∀ run ∈ u.db.runs.rows, run.taskId = a → t.db.runs.get run.id = none →
        ∃ stamp, op = .runNow a stamp := by
  obtain ⟨l, view, due⟩ := view_of_row (reachable_linked reachable) owed
  have sameTask : l.task = task := Option.some.inj ((view_runs view).2.2.2.symm.trans stored)
  have start : Held env l := by
    refine ⟨by rw [sameTask]; exact unread, fun row' owed' => ?_⟩
    obtain rfl := Option.some.inj (due.symm.trans owed')
    exact blocked
  obtain ⟨m, view', held, linked⟩ := trace_view
    (fun s op => keepsSchedule a s op = true ∧ unblocks a s op = false) (fun _ l => Held env l)
    (fun _ _ allowed request => by simp [request, keepsSchedule] at allowed)
    (fun _ _ _ _ _ allowed _ view _ held effect => effect_held view held effect allowed.1 allowed.2)
    history (reachable_linked reachable) view start
  obtain ⟨linked', views⟩ := apply_sees linked last
  have seen := views a
  rw [view'] at seen
  generalize after : u.db.view a = v at seen
  cases seen with
  | deleted request quiet => simp [request, keepsSchedule] at schedule
  | @acts _ m' effect =>
    have held' := effect_held view' held effect schedule keeps
    have stays : ∀ row', u.db.taskDue.get a = some row' → row'.status = .blocked := fun row' owed' =>
      held'.blocked row' ((view_runs after).2.2.1.trans owed')
    refine ⟨stays, fun row' starts => ?_, fun run mem owner new => ?_⟩
    · have blocked' := stays row' starts.1
      rw [starts.2.1] at blocked'
      cases blocked'
    · exact held_admits view' held effect ((mem_view_runs after).mpr ⟨mem, owner⟩) new

/-- The task is stored with an expression that does not parse, and the first reconcile blocks
    it. -/
def Sample.unreadable : Service :=
  (Service.init 0).exec env
    [.createSource source 0, .createTask { fields with cron := "never" } 0,
      .reconcile 1 (seconds 10)]

theorem Sample.unreadable_reachable : Reachable Sample.env Sample.unreadable :=
  reachable_exec 0 (by decide +kernel)

theorem blocked_through_restart :
    ¬ ∃ row, Starts
      (Sample.unreadable.exec Sample.env [.restart (seconds 11), .tick 1 (seconds 60)]).db
      ((Sample.unreadable.exec Sample.env [.restart (seconds 11), .tick 1 (seconds 60)]).next
        Sample.env (.dispatch Sample.probe (seconds 61) [Sample.stamp 61])).db 1 row := by
  have along : Along Sample.env (fun s op => keepsSchedule 1 s op = true ∧ unblocks 1 s op = false)
      Sample.unreadable [.restart (seconds 11), .tick 1 (seconds 60)] := by decide +kernel
  have stored : Sample.unreadable.db.tasks.get 1 =
      some { Sample.task with cron := "never", scheduleBaselineAt := none } := by decide +kernel
  obtain ⟨row, owed, blocked⟩ := Option.map_eq_some_iff.mp
    (by decide +kernel : (Sample.unreadable.db.taskDue.get 1).map TaskDue.status = some .blocked)
  rintro ⟨row', starts⟩
  exact (blocked_task_never_dispatched Sample.unreadable_reachable stored (by decide +kernel) owed
    blocked (trace_along along) ⟨by decide +kernel, rfl⟩ (by decide +kernel)
    (by decide +kernel)).2.1 row' starts

/-- A change of the description lifts the block, and the pass it wakes starts the run. -/
theorem renamed_task_dispatched :
    ¬ ∀ (env : Env) (s t u : Service) (a : Nat) (task : Task) (row : TaskDue) (ops : List Op)
      (probe : Probe) (now : Int) (stamps : List Stamp), Reachable env s →
      s.db.tasks.get a = some task → env.trig.parses task.cron = false →
      s.db.taskDue.get a = some row → row.status = .blocked →
      Trace (fun s op t => Step env s op t ∧ keepsSchedule a s op = true) s ops t →
      Step env t (.dispatch probe now stamps) u → ∀ row', ¬ Starts t.db u.db a row' := by
  intro claim
  have along : Along Sample.env (fun s op => keepsSchedule 1 s op = true) Sample.unreadable
      [.updateTask 1 { Sample.fields with cron := "never", description := "new" } (seconds 11)] := by
    decide +kernel
  have stored : Sample.unreadable.db.tasks.get 1 =
      some { Sample.task with cron := "never", scheduleBaselineAt := none } := by decide +kernel
  obtain ⟨row, owed, blocked⟩ := Option.map_eq_some_iff.mp
    (by decide +kernel : (Sample.unreadable.db.taskDue.get 1).map TaskDue.status = some .blocked)
  have never := claim Sample.env _ _ _ 1 _ row _ Sample.probe (seconds 11) [Sample.stamp 11]
    Sample.unreadable_reachable stored (by decide +kernel) owed blocked (trace_along along)
    ⟨by decide +kernel, rfl⟩
  obtain ⟨row', found, shape⟩ := Option.map_eq_some_iff.mp
    (by decide +kernel : (((Sample.unreadable.exec Sample.env
      [.updateTask 1 { Sample.fields with cron := "never", description := "new" }
        (seconds 11)]).next Sample.env
      (.dispatch Sample.probe (seconds 11) [Sample.stamp 11])).db.taskDue.get 1).map
        (fun row => (row.status, row.runId)) = some (.dispatched, some 1))
  simp only [Prod.mk.injEq] at shape
  exact never row' ⟨found, shape.1, 1, shape.2, by decide +kernel⟩

end Pullbackup
