import Pullbackup.Settlement

/- One active run for each task and each source, and the command it was admitted
   with. Manual admission and the dispatcher decide in different ways; both keep
   the active runs apart, and the requests cannot move a task under a run. -/
namespace Pullbackup
open KeyedTable History

def Exclusive (db : Db) : Prop :=
  ∀ r ∈ db.runs.rows, ∀ r' ∈ db.runs.rows, r.state.active = true → r'.state.active = true →
    r ≠ r' → r.taskId ≠ r'.taskId ∧ ∀ t t', db.tasks.get r.taskId = some t →
      db.tasks.get r'.taskId = some t' → t.sourceId ≠ t'.sourceId

/-- The fields an edit may not change under an active run, the safe ones blanked. -/
def TaskFields.locked (fields : TaskFields) : TaskFields :=
  { fields with
    name := "", description := "", cron := "", enabled := false, notifyMatrix := false
    notifyMatrixOnSuccess := false, kumaEnabled := false }

/-- A task without the fields that are safe to edit and the columns that no edit sets. -/
def Task.frozen (task : Task) : Task :=
  { task with
    toTaskFields := task.toTaskFields.locked, kumaMonitorId := none, kumaPushToken := none
    updatedAt := 0, scheduleBaselineAt := none, scheduleEpochAt := none }

theorem insertionSort_eq_nil {xs : List String} :
    xs.insertionSort (· ≤ ·) = [] ↔ xs = [] := by
  rw [← List.length_eq_zero_iff, List.length_insertionSort, List.length_eq_zero_iff]

/-- No locked field changes exactly when the locked parts agree. -/
theorem unsafeActiveChanges_nil_iff (task data : TaskFields) :
    unsafeActiveChanges task data = [] ↔ task.locked = data.locked := by
  unfold unsafeActiveChanges
  rw [insertionSort_eq_nil, List.map_eq_nil_iff, List.filter_eq_nil_iff]
  simp only [fieldChanges, activeRunSafeFields, List.forall_mem_cons, TaskFields.locked,
    TaskFields.mk.injEq]
  simp

section Frozen
variable {env : Env} {a : Nat} {lo hi : Int} {op : Op} {l l' : Ledger}

theorem frozen_stages (trig : Trigger) (now : Int) (task : Task) :
    Stages trig now fun l => l.task.frozen = task where
  settle _ _ _ same := same
  block _ _ _ same := same
  keep l _ _ _ same := by
    rw [keep_eq, ← same]
    dsimp only
    split <;> rfl
  fold _ _ _ _ _ same := same
  early l upcoming _ _ _ same := by
    rw [early_eq]
    exact same
  late _ _ _ _ same := same

theorem effect_frozen (effect : Effect env a lo hi op l l') (busy : ¬ l.Idle) :
    l'.task.frozen = l.task.frozen := by
  cases effect with
  | reconcile time => exact reconcile_stages (frozen_stages env.trig _ _) rfl
  | tick time => exact tick_stages (frozen_stages env.trig _ _) rfl
  | @update data now l time allowed =>
    have locked := (unsafeActiveChanges_nil_iff _ _).mp (allowed.resolve_left busy)
    have edited := editLedger_edited data now l
    generalize editLedger data now l = l' at edited
    cases edited with
    | reset changed => simp [Task.frozen, locked]
    | rearmed cron enabled owed held => simp [Task.frozen, locked]
    | kept cron enabled free => simp [Task.frozen, locked]
  | _ => rfl

theorem frozen_source {task task' : Task} (same : task'.frozen = task.frozen) :
    task'.sourceId = task.sourceId := by
  have source : task'.frozen.sourceId = task.frozen.sourceId := by rw [same]
  exact source

end Frozen

section Preservation
variable {db db' : Db}

theorem exclusive_of_shrink (exclusive : Exclusive db)
    (back : ∀ r' ∈ db'.runs.rows, r'.state.active = true →
      ∃ r ∈ db.runs.rows, r.state.active = true ∧ r.id = r'.id ∧ r.taskId = r'.taskId)
    (source : ∀ r ∈ db.runs.rows, r.state.active = true → ∀ t',
      db'.tasks.get r.taskId = some t' →
        ∃ t, db.tasks.get r.taskId = some t ∧ t.sourceId = t'.sourceId) : Exclusive db' := by
  intro r' mem' s' smem' active' sactive' apart
  obtain ⟨r, mem, active, id, owner⟩ := back r' mem' active'
  obtain ⟨s, smem, sactive, sid, sowner⟩ := back s' smem' sactive'
  have ne : r ≠ s := by
    intro same
    subst same
    exact apart (Table.key_injective mem' smem' (id.symm.trans sid))
  obtain ⟨tasks, sources⟩ := exclusive r mem s smem active sactive ne
  rw [← owner, ← sowner]
  refine ⟨tasks, fun t' u' found' ufound' => ?_⟩
  obtain ⟨t, found, same⟩ := source r mem active t' found'
  obtain ⟨u, ufound, usame⟩ := source s smem sactive u' ufound'
  rw [← same, ← usame]
  exact sources t u found ufound

theorem exclusive_put (exclusive : Exclusive db) {new : Run}
    (taskFree : ∀ r ∈ db.runs.rows, r.state.active = true → r.taskId ≠ new.taskId)
    (sourceFree : ∀ r ∈ db.runs.rows, r.state.active = true → ∀ t t',
      db.tasks.get r.taskId = some t → db.tasks.get new.taskId = some t' →
        t.sourceId ≠ t'.sourceId) :
    Exclusive { db with runs := db.runs.put new } := by
  intro r mem s smem active sactive apart
  rcases mem_putRow_imp mem with rfl | old
  · rcases mem_putRow_imp smem with rfl | sold
    · exact absurd rfl apart
    · refine ⟨Ne.symm (taskFree s sold sactive), fun t u found ufound => ?_⟩
      exact Ne.symm (sourceFree s sold sactive u t ufound found)
  · rcases mem_putRow_imp smem with rfl | sold
    · exact ⟨taskFree r old active, fun t u found ufound =>
        sourceFree r old active t u found ufound⟩
    · exact exclusive r old s sold active sactive apart

theorem exclusive_admit (exclusive : Exclusive db) (t : Nat) (stamp : Stamp) :
    Exclusive (((admitRun db t stamp).map Prod.fst).getD db) := by
  unfold admitRun
  cases stored : db.tasks.get t with
  | none => exact exclusive
  | some task =>
    have id : task.id = t := Table.key_of_get stored
    dsimp only
    split
    · exact exclusive
    split
    · exact exclusive
    · rename_i noTask noSource
      simp only [taskActive, sourceActive, List.any_eq_true, not_exists, not_and,
        Bool.and_eq_true, decide_eq_true_eq] at noTask noSource
      refine exclusive_put exclusive ?_ ?_
      · intro r mem active same
        exact noTask r mem same active
      · intro r mem active u u' found found' same
        obtain rfl : task = u' := by
          rw [show (pendingRun _ task.id stamp).taskId = task.id from rfl, id, stored] at found'
          exact Option.some.inj found'
        exact noSource r mem active (by simp [found, same])

theorem exclusive_turn {p p' : Pass} {now hi : Int} {row : TaskDue} (good : p.Good now hi)
    (exclusive : Exclusive p.db) (turn : Pass.Turn now p row p') : Exclusive p'.db := by
  cases turn with
  | left => exact exclusive
  | dropped other disabled => exact exclusive
  | waited ready =>
    rename_i task key reason
    rcases wait_db p row task key reason now with same | written
    · rw [same]
      exact exclusive
    · rw [written]
      exact exclusive
  | started starts =>
    rename_i task key
    have id : task.id = row.taskId := Table.key_of_get starts.found
    rw [launch_db]
    have added : Exclusive { p.db with
        runs := p.db.runs.put
          (pendingRun (nextId p.db.runs) task.id (p.stamps.headD ⟨now, now⟩)) } := by
      refine exclusive_put exclusive ?_ ?_
      · intro r mem active same
        have taken := good.covers.task r mem active
        rw [show r.taskId = row.taskId from same.trans id] at taken
        exact starts.taskFree taken
      · intro r mem active u u' found found' same
        obtain rfl : task = u' := by
          rw [show (pendingRun _ task.id _).taskId = task.id from rfl, id, starts.found] at found'
          exact Option.some.inj found'
        have taken := good.covers.source r mem active u found
        rw [same] at taken
        exact starts.sourceFree taken
    exact added

theorem exclusive_dispatch {limit : Nat} {probe : Probe} {now hi : Int} {stamps : List Stamp}
    (linked : db.Linked) (exclusive : Exclusive db)
    (time : ∀ stamp ∈ stamps, now ≤ stamp.startedAt ∧ stamp.startedAt ≤ hi) :
    Exclusive (dispatchDue limit probe db now stamps).db := by
  obtain ⟨settled, -, tasks, runs, -⟩ := settleAll_spec linked now
  obtain ⟨same, good⟩ := begin_good probe settled time
  obtain ⟨member, unique⟩ := passRows_spec (settleAll db now)
  refine rows_invariant limit probe (fun p => Exclusive p.db)
    (fun _ _ _ good exclusive turn => exclusive_turn good exclusive turn)
    (passRows (settleAll db now)) unique ?_ good ?_
  · intro row mem
    rw [same]
    exact Table.get_of_mem ((member row).mp mem)
  · rw [same]
    unfold Exclusive
    rw [tasks, runs]
    exact exclusive

end Preservation

theorem exclusive_step {env : Env} {s t : Service} {op : Op} (linked : s.db.Linked)
    (step : Step env s op t) (exclusive : Exclusive s.db) : Exclusive t.db := by
  obtain ⟨linked', views⟩ := apply_sees linked step
  by_cases admits : op.admits = true
  · obtain ⟨timely, rfl⟩ := step
    cases op with
    | dispatch probe now stamps =>
      have pass : Step env s (.dispatch probe now stamps) (s.next env (.dispatch probe now stamps)) :=
        ⟨timely, rfl⟩
      exact exclusive_dispatch linked exclusive fun stamp mem => stamp_le_clock pass (Or.inl mem)
    | runNow task stamp => exact exclusive_admit exclusive task stamp
    | _ => cases admits
  · refine exclusive_of_shrink exclusive ?_ ?_
    · intro r' mem' active'
      obtain ⟨task, stored⟩ := Option.isSome_iff_exists.mp (linked'.owner r' mem')
      have seen := views r'.taskId
      generalize before : s.db.view r'.taskId = v at seen
      generalize after : t.db.view r'.taskId = v' at seen
      cases seen with
      | absent =>
        rw [view_eq, stored] at after
        cases after
      | created time request =>
        have here := (mem_view_runs after).mpr ⟨mem', rfl⟩
        cases here
      | deleted request quiet =>
        rw [view_eq, stored] at after
        cases after
      | acts effect =>
        have here := (mem_view_runs after).mpr ⟨mem', rfl⟩
        cases effect_origin effect here with
        | old mem =>
          obtain ⟨stored', owner⟩ := (mem_view_runs before).mp mem
          exact ⟨r', stored', active', rfl, rfl⟩
        | admitted request => exact absurd request admits
        | @started old mem pending id running time =>
          obtain ⟨stored', owner⟩ := (mem_view_runs before).mp mem
          exact ⟨old, stored', by simp [pending], id.symm, owner⟩
        | ended mem active id inactive start =>
          rw [active'] at inactive
          cases inactive
    · intro r mem active t' found'
      obtain ⟨task, stored⟩ := Option.isSome_iff_exists.mp (linked.owner r mem)
      have seen := views r.taskId
      generalize before : s.db.view r.taskId = v at seen
      generalize after : t.db.view r.taskId = v' at seen
      cases seen with
      | absent =>
        rw [view_eq, stored] at before
        cases before
      | created time request =>
        rw [view_eq, stored] at before
        cases before
      | deleted request quiet =>
        rw [view_eq, found'] at after
        cases after
      | @acts l l' effect =>
        have busy : ¬ l.Idle := by
          intro idle
          rw [idle r ((mem_view_runs before).mpr ⟨mem, rfl⟩)] at active
          cases active
        have same := frozen_source (effect_frozen effect busy)
        have task' := (view_runs after).2.2.2
        rw [found'] at task'
        obtain rfl := Option.some.inj task'
        exact ⟨l.task, (view_runs before).2.2.2, same.symm⟩

theorem reachable_exclusive {env : Env} {s : Service} (reachable : Reachable env s) :
    Exclusive s.db := by
  obtain ⟨clock, ops, trace⟩ := reachable
  have both : s.db.Linked ∧ Exclusive s.db :=
    trace_invariant (fun s => s.db.Linked ∧ Exclusive s.db)
      (fun _ _ _ holds step => ⟨(apply_sees holds.1 step).1, exclusive_step holds.1 step holds.2⟩)
      trace ⟨empty_linked, fun r mem => by simp [Service.init, Db.empty] at mem⟩
  exact both.2

section Sources
variable {env : Env} {db : Db}

theorem onLedger_sources (t : Nat) (f : Ledger → Ledger) :
    (db.onLedger t f).sources = db.sources := by
  unfold Db.onLedger
  split <;> rfl

theorem dispatch_sources {limit : Nat} {probe : Probe} {now hi : Int} {stamps : List Stamp}
    (linked : db.Linked)
    (time : ∀ stamp ∈ stamps, now ≤ stamp.startedAt ∧ stamp.startedAt ≤ hi) :
    (dispatchDue limit probe db now stamps).db.sources = db.sources := by
  obtain ⟨settled, sources, -, -, -⟩ := settleAll_spec linked now
  obtain ⟨same, good⟩ := begin_good probe settled time
  obtain ⟨member, unique⟩ := passRows_spec (settleAll db now)
  refine rows_invariant limit probe (fun p => p.db.sources = db.sources)
    (fun _ _ _ _ kept turn => (turn_frame turn).2.1.trans kept)
    (passRows (settleAll db now)) unique ?_ good ?_
  · intro row mem
    rw [same]
    exact Table.get_of_mem ((member row).mp mem)
  · rw [same]
    exact sources

def Op.isSource : Op → Bool
  | .createSource _ _ | .updateSource _ _ | .deleteSource _ => true
  | _ => false

theorem apply_sources {s t : Service} {op : Op} (linked : s.db.Linked) (step : Step env s op t)
    (other : op.isSource = false) : t.db.sources = s.db.sources := by
  obtain ⟨timely, rfl⟩ := step
  cases op with
  | reconcile t now => exact onLedger_sources t _
  | tick t now => exact onLedger_sources t _
  | settle now => exact (settleAll_spec linked now).2.1
  | dispatch probe now stamps =>
    have pass : Step env s (.dispatch probe now stamps) (s.next env (.dispatch probe now stamps)) :=
      ⟨timely, rfl⟩
    exact dispatch_sources linked fun stamp mem => stamp_le_clock pass (Or.inl mem)
  | runNow t stamp =>
    show (((admitRun s.db t stamp).map Prod.fst).getD s.db).sources = s.db.sources
    unfold admitRun
    split
    · rfl
    dsimp only
    split
    · rfl
    split <;> rfl
  | start run now =>
    show (s.db.orElse (startRun s.db run now)).sources = s.db.sources
    unfold startRun
    split
    · rfl
    split <;> rfl
  | finish run ending requested stats now =>
    show (apply env (.finish run ending requested stats now) s.db).sources = s.db.sources
    simp only [apply, finishRun]
    repeat' split
    all_goals rfl
  | abandon run reason requested now =>
    show (terminalizeOwnedRun s.db run reason.message requested now).1.sources = s.db.sources
    unfold terminalizeOwnedRun
    split
    · rfl
    dsimp only
    split <;> rfl
  | sweep owners now => rfl
  | restart now => rfl
  | createTask data now =>
    show (s.db.orElse (createTask s.db data now)).sources = s.db.sources
    unfold createTask
    split <;> rfl
  | updateTask t data now =>
    show (s.db.orElse (updateTask s.db t data now)).sources = s.db.sources
    unfold updateTask
    split
    · rfl
    dsimp only
    split <;> rfl
  | deleteTask t =>
    show (s.db.orElse (deleteTask s.db t)).sources = s.db.sources
    unfold deleteTask
    split
    · rfl
    split <;> rfl
  | createSource | updateSource | deleteSource => cases other

theorem source_kept {s t : Service} {op : Op} (linked : s.db.Linked) (step : Step env s op t)
    {run : Run} (mem : run ∈ s.db.runs.rows) (active : run.state.active = true) {task : Task}
    (stored : s.db.tasks.get run.taskId = some task) {source : Source}
    (found : s.db.sources.get task.sourceId = some source) :
    t.db.sources.get task.sourceId = some source := by
  cases isSource : op.isSource with
  | false =>
    rw [apply_sources linked step isSource]
    exact found
  | true =>
    obtain ⟨timely, rfl⟩ := step
    cases op with
    | createSource data now =>
      show (s.db.orElse (createSource s.db data now)).sources.get task.sourceId = some source
      unfold createSource
      split
      · exact found
      · have fresh : nextId s.db.sources ≠ task.sourceId := by
          intro same
          have none := get_nextId s.db.sources
          rw [same, found] at none
          cases none
        exact (Table.get_put_ne fresh).trans found
    | updateSource id data =>
      show (s.db.orElse (updateSource s.db id data)).sources.get task.sourceId = some source
      unfold updateSource
      cases held : s.db.sources.get id with
      | none => exact found
      | some old =>
        dsimp only
        split
        · exact found
        rename_i idle
        split
        · exact found
        · have key : old.id = id := Table.key_of_get held
          have other : id ≠ task.sourceId := by
            intro same
            refine idle ?_
            unfold sourceActive
            rw [List.any_eq_true]
            exact ⟨run, mem, by simp [active, stored, same]⟩
          exact (Table.get_put_ne (fun same => other (key.symm.trans same))).trans found
    | deleteSource id =>
      show (s.db.orElse (deleteSource s.db id)).sources.get task.sourceId = some source
      unfold deleteSource
      split
      · exact found
      split
      · exact found
      · rename_i unused
        have other : task.sourceId ≠ id := fun same =>
          unused (List.any_eq_true.mpr ⟨task, Table.mem_of_get stored, by simp [same]⟩)
        exact (Table.get_erase s.db.sources id task.sourceId).trans (by rw [if_neg other, found])
    | _ => cases isSource

end Sources

def ActiveRun (db : Db) (id : Nat) : Prop :=
  (db.runs.get id).any (fun run => run.state.active) = true

instance (db : Db) (id : Nat) : Decidable (ActiveRun db id) :=
  inferInstanceAs (Decidable (_ = _))

/-- One transaction under an active run: the run and its task stay. -/
theorem frozen_step {env : Env} {s t : Service} {op : Op} (linked : s.db.Linked)
    (step : Step env s op t) {run : Run} (mem : run ∈ s.db.runs.rows)
    (active : run.state.active = true) {task : Task}
    (stored : s.db.tasks.get run.taskId = some task) :
    (∃ run', t.db.runs.get run.id = some run' ∧ run'.taskId = run.taskId) ∧
      ∃ task', t.db.tasks.get run.taskId = some task' ∧ task'.frozen = task.frozen := by
  obtain ⟨-, views⟩ := apply_sees linked step
  have seen := views run.taskId
  generalize before : s.db.view run.taskId = v at seen
  generalize after : t.db.view run.taskId = v' at seen
  have busy : ∀ l, s.db.view run.taskId = some l → ¬ l.Idle := by
    intro l view idle
    rw [idle run ((mem_view_runs view).mpr ⟨mem, rfl⟩)] at active
    cases active
  cases seen with
  | absent =>
    rw [view_eq, stored] at before
    cases before
  | created time request =>
    rw [view_eq, stored] at before
    cases before
  | deleted request quiet => exact absurd quiet (busy _ before)
  | @acts l l' effect =>
    have here := (view_runs before).2.2.2
    rw [stored] at here
    obtain rfl := Option.some.inj here
    obtain ⟨run', mem', id⟩ := effect_keeps effect ((mem_view_runs before).mpr ⟨mem, rfl⟩)
    obtain ⟨stored', owner⟩ := (mem_view_runs after).mp mem'
    refine ⟨⟨run', id ▸ Table.get_of_mem stored', owner⟩, ?_⟩
    exact ⟨l'.task, (view_runs after).2.2.2, effect_frozen effect (busy _ before)⟩

/-- Two active runs never share a task or a source, and while a run is active its task keeps
    every field an edit could change the command with, and its source row stays as it is. -/
theorem active_runs_exclusive_and_frozen {env : Env} {s : Service} (reachable : Reachable env s) :
    (∀ r ∈ s.db.runs.rows, ∀ r' ∈ s.db.runs.rows, r.state.active = true →
      r'.state.active = true → r ≠ r' → r.taskId ≠ r'.taskId ∧
        ∃ task task', s.db.tasks.get r.taskId = some task ∧
          s.db.tasks.get r'.taskId = some task' ∧ task.sourceId ≠ task'.sourceId) ∧
    ∀ r ∈ s.db.runs.rows, ∀ task, s.db.tasks.get r.taskId = some task → ∀ ops t,
      Trace (fun s op t => Step env s op t ∧ ActiveRun s.db r.id) s ops t →
        ∃ task', t.db.tasks.get r.taskId = some task' ∧ task'.frozen = task.frozen ∧
          ∀ source, s.db.sources.get task.sourceId = some source →
            t.db.sources.get task'.sourceId = some source := by
  have linked := reachable_linked reachable
  constructor
  · intro r mem r' mem' active active' apart
    obtain ⟨tasks, sources⟩ := reachable_exclusive reachable r mem r' mem' active active' apart
    obtain ⟨task, stored⟩ := Option.isSome_iff_exists.mp (linked.owner r mem)
    obtain ⟨task', stored'⟩ := Option.isSome_iff_exists.mp (linked.owner r' mem')
    exact ⟨tasks, task, task', stored, stored', sources task task' stored stored'⟩
  · intro r mem task stored ops t history
    have kept : t.db.Linked ∧ (∃ run, t.db.runs.get r.id = some run ∧ run.taskId = r.taskId) ∧
        ∃ task', t.db.tasks.get r.taskId = some task' ∧ task'.frozen = task.frozen ∧
          ∀ source, s.db.sources.get task.sourceId = some source →
            t.db.sources.get task'.sourceId = some source := by
      refine trace_invariant (fun m : Service => m.db.Linked ∧
        (∃ run, m.db.runs.get r.id = some run ∧ run.taskId = r.taskId) ∧
        ∃ task', m.db.tasks.get r.taskId = some task' ∧ task'.frozen = task.frozen ∧
          ∀ source, s.db.sources.get task.sourceId = some source →
            m.db.sources.get task'.sourceId = some source) ?_ history
        ⟨linked, ⟨r, Table.get_of_mem mem, rfl⟩, task, stored, rfl, fun _ found => found⟩
      intro m op u holds last
      obtain ⟨linked', ⟨run, found, owner⟩, task', stored', same, sources⟩ := holds
      obtain ⟨step, active⟩ := last
      simp only [ActiveRun, found, Option.any_some] at active
      have here := Table.mem_of_get found
      have id : run.id = r.id := Table.key_of_get found
      rw [← owner] at stored'
      obtain ⟨⟨run'', found'', owner''⟩, task'', stored'', same''⟩ :=
        frozen_step linked' step here active stored'
      refine ⟨(apply_sees linked' step).1, ⟨run'', id ▸ found'', owner''.trans owner⟩, task'',
        owner ▸ stored'', same''.trans same, ?_⟩
      intro source held
      rw [frozen_source same'']
      exact source_kept linked' step here active stored' (sources source held)
    exact kept.2.2

theorem running_task_frozen :
    ∃ task', (Sample.running.exec Sample.env [.tick 1 (seconds 120)]).db.tasks.get 1 = some task' ∧
      task'.frozen = Sample.task.frozen := by
  have along : Along Sample.env (fun s _ => ActiveRun s.db 1) Sample.running
      [.tick 1 (seconds 120)] := by decide
  have stored : Sample.running.db.tasks.get 1 =
      some { Sample.task with scheduleBaselineAt := some (seconds 60) } := by decide
  obtain ⟨run, found, owner⟩ := Option.map_eq_some_iff.mp
    (by decide : (Sample.running.db.runs.get 1).map Run.taskId = some 1)
  have id : run.id = 1 := Table.key_of_get found
  have both := active_runs_exclusive_and_frozen Sample.running_reachable
  obtain ⟨task', stored', same, -⟩ := both.2 run (Table.mem_of_get found) _
    (by rw [owner]; exact stored) _ _ (by rw [id]; exact trace_along along)
  rw [owner] at stored'
  exact ⟨task', stored', same⟩

end Pullbackup
