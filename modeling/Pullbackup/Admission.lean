import Pullbackup.Simulation

/- One dispatcher pass: what it knows of the active runs while it goes through
   the rows, and what it does to the row of each task. -/
namespace Pullbackup
open KeyedTable

/-- The pass's counters cover every run that is active at this point of it. -/
structure Pass.Covers (p : Pass) : Prop where
  task : ∀ run ∈ p.db.runs.rows, run.state.active = true → run.taskId ∈ p.activeTasks
  source : ∀ run ∈ p.db.runs.rows, run.state.active = true →
    ∀ task, p.db.tasks.get run.taskId = some task → task.sourceId ∈ p.activeSources

structure Pass.Good (now hi : Int) (p : Pass) : Prop where
  linked : p.db.Linked
  covers : p.Covers
  stamps : ∀ stamp ∈ p.stamps, now ≤ stamp.startedAt ∧ stamp.startedAt ≤ hi

theorem observe_keeps (probe : Probe) (p : Pass) (run : Run) :
    (p.observe probe run).db = p.db ∧ (p.observe probe run).stamps = p.stamps ∧
      (∀ id ∈ p.activeTasks, id ∈ (p.observe probe run).activeTasks) ∧
      ∀ id ∈ p.activeSources, id ∈ (p.observe probe run).activeSources := by
  unfold Pass.observe
  split
  · exact ⟨rfl, rfl, fun _ mem => mem, fun _ mem => mem⟩
  · exact ⟨rfl, rfl, fun _ mem => List.mem_append_left _ mem,
      fun _ mem => List.mem_append_left _ mem⟩

theorem observe_covers (probe : Probe) (p : Pass) {run : Run} {task : Task}
    (found : p.db.tasks.get run.taskId = some task) :
    run.taskId ∈ (p.observe probe run).activeTasks ∧
      task.sourceId ∈ (p.observe probe run).activeSources := by
  have id : task.id = run.taskId := Table.key_of_get found
  simp [Pass.observe, found, id]

theorem observeAll (probe : Probe) (runs : List Run) (p : Pass) :
    (runs.foldl (Pass.observe probe) p).db = p.db ∧
      (runs.foldl (Pass.observe probe) p).stamps = p.stamps ∧
      (∀ id ∈ p.activeTasks, id ∈ (runs.foldl (Pass.observe probe) p).activeTasks) ∧
      (∀ id ∈ p.activeSources, id ∈ (runs.foldl (Pass.observe probe) p).activeSources) ∧
      ∀ run ∈ runs, ∀ task, p.db.tasks.get run.taskId = some task →
        run.taskId ∈ (runs.foldl (Pass.observe probe) p).activeTasks ∧
          task.sourceId ∈ (runs.foldl (Pass.observe probe) p).activeSources := by
  induction runs generalizing p with
  | nil => exact ⟨rfl, rfl, fun _ mem => mem, fun _ mem => mem, by simp⟩
  | cons run runs ih =>
    obtain ⟨db, stamps, tasks, sources⟩ := observe_keeps probe p run
    obtain ⟨db', stamps', tasks', sources', all⟩ := ih (p.observe probe run)
    refine ⟨db'.trans db, stamps'.trans stamps, fun id mem => tasks' id (tasks id mem),
      fun id mem => sources' id (sources id mem), ?_⟩
    intro r mem task found
    rcases List.mem_cons.mp mem with same | tail
    · subst r
      obtain ⟨here, there⟩ := observe_covers probe p found
      exact ⟨tasks' _ here, sources' _ there⟩
    · exact all r tail task (by rw [db]; exact found)

theorem begin_good (probe : Probe) {db : Db} (linked : db.Linked) {now hi : Int}
    {stamps : List Stamp}
    (time : ∀ stamp ∈ stamps, now ≤ stamp.startedAt ∧ stamp.startedAt ≤ hi) :
    (Pass.begin probe db stamps).db = db ∧ (Pass.begin probe db stamps).Good now hi := by
  unfold Pass.begin
  dsimp only
  obtain ⟨same, sameStamps, -, -, all⟩ := observeAll probe
    (db.runs.rows.filter fun r => r.state.active)
    { db := db, activeTasks := [], activeSources := [], dests := []
      count := (db.runs.rows.filter fun r => r.state.active).length, stamps := stamps }
  refine ⟨same, ?_⟩
  have active : ∀ run ∈ db.runs.rows, run.state.active = true →
      run ∈ db.runs.rows.filter fun r => r.state.active := fun run mem on =>
    List.mem_filter.mpr ⟨mem, on⟩
  constructor
  · rw [same]
    exact linked
  · constructor
    · intro run mem on
      rw [same] at mem
      obtain ⟨task, found⟩ := Option.isSome_iff_exists.mp (linked.owner run mem)
      exact (all run (active run mem on) task found).1
    · intro run mem on task found
      rw [same] at mem found
      exact (all run (active run mem on) task found).2
  · rw [sameStamps]
    exact time

/-- Why a row was started: nothing it needs is taken, and it may run now. -/
structure Pass.Starts (p : Pass) (row : TaskDue) (task : Task) (now : Int) : Prop where
  ready : row.Ready now
  found : p.db.tasks.get row.taskId = some task
  enabled : task.enabled = true
  taskFree : row.taskId ∉ p.activeTasks
  sourceFree : task.sourceId ∉ p.activeSources

inductive Pass.Turn (now : Int) (p : Pass) (row : TaskDue) : Pass → Prop where
  | left : Pass.Turn now p row p
  | dropped (other : row.status ≠ .dispatched)
      (disabled : ∀ task, p.db.tasks.get row.taskId = some task → task.enabled = false) :
      Pass.Turn now p row { p with db := { p.db with taskDue := p.db.taskDue.erase row.taskId } }
  | waited {task : Task} {key : Option DestKey} {reason : WaitReason} (ready : row.Ready now) :
      Pass.Turn now p row (p.wait row task key reason now)
  | started {task : Task} {key : Option DestKey} (starts : p.Starts row task now) :
      Pass.Turn now p row (p.launch row task key now)

theorem reason_none {p : Pass} {limit : Nat} {task : Task} {key : Option DestKey}
    (free : p.reason limit task key = none) :
    task.id ∉ p.activeTasks ∧ task.sourceId ∉ p.activeSources := by
  unfold Pass.reason at free
  by_cases busy : p.activeTasks.contains task.id = true
  · rw [if_pos busy] at free
    cases free
  · rw [if_neg busy] at free
    by_cases taken : (p.activeSources.contains task.sourceId ||
        p.claimedSources.contains task.sourceId) = true
    · rw [if_pos taken] at free
      cases free
    · simp only [List.contains_iff_mem] at busy
      simp only [Bool.or_eq_true, List.contains_iff_mem, not_or] at taken
      exact ⟨busy, taken.1⟩

theorem row_turn (limit : Nat) (probe : Probe) (now : Int) (p : Pass) (row : TaskDue) :
    Pass.Turn now p row (Pass.row limit probe now p row) := by
  unfold Pass.row
  split
  · rename_i stale
    refine .dropped stale.1 fun task found => ?_
    simpa [found] using stale.2
  rename_i current
  split
  · exact .left
  rename_i opened
  split
  · exact .left
  rename_i ripe
  have ready : row.Ready now := by
    unfold TaskDue.Ready
    cases status : row.status with
    | due => exact Or.inl rfl
    | retry =>
      refine Or.inr ⟨rfl, ?_⟩
      intro instant moment
      simp only [status, true_and, moment, Option.any_some, decide_eq_true_eq, not_lt] at ripe
      exact ripe
    | dispatched => simp [status] at opened
    | exhausted => simp [status] at opened
    | blocked => simp [status] at opened
  split
  · exact .left
  rename_i task found
  split
  · exact .left
  dsimp only
  split
  · exact .waited ready
  · rename_i free
    obtain ⟨taskFree, sourceFree⟩ := reason_none free
    have id : task.id = row.taskId := Table.key_of_get found
    refine .started ⟨ready, found, ?_, id ▸ taskFree, sourceFree⟩
    have notDispatched : row.status ≠ .dispatched := fun same => opened (Or.inl same)
    cases on : task.enabled with
    | true => rfl
    | false => exact absurd ⟨notDispatched, by simp [found, on]⟩ current

section Turn
variable {now hi : Int} {p p' : Pass} {row : TaskDue}

theorem launch_db (p : Pass) (row : TaskDue) (task : Task) (key : Option DestKey) (now : Int) :
    (p.launch row task key now).db =
      { p.db with
        runs := p.db.runs.put (pendingRun (nextId p.db.runs) task.id (p.stamps.headD ⟨now, now⟩))
        taskDue := p.db.taskDue.write row.taskId
          (some (row.dispatchedTo (nextId p.db.runs) now)) } :=
  rfl

/-- What a turn leaves of its own task's view. -/
inductive Picks (now hi : Int) (a : Nat) (row : TaskDue) (l : Ledger) : Ledger → Prop where
  | left : Picks now hi a row l l
  | dropped (other : row.status ≠ .dispatched) (disabled : l.task.enabled = false) :
      Picks now hi a row l { l with due := none }
  | waited {reason : WaitReason} (ready : row.Ready now) :
      Picks now hi a row l
        { l with due := some { row with waitReason := some reason, updatedAt := now } }
  | started {id : Nat} {stamp : Stamp} (ready : row.Ready now) (enabled : l.task.enabled = true)
      (quiet : l.Idle) (fresh : ∀ run ∈ l.runs, run.id ≠ id)
      (time : now ≤ stamp.startedAt ∧ stamp.startedAt ≤ hi) :
      Picks now hi a row l
        { l with
          due := some (row.dispatchedTo id now), runs := l.runs ++ [pendingRun id a stamp] }

theorem turnWrite_linked (linked : p.db.Linked) (stored : p.db.taskDue.get row.taskId = some row)
    {due : Option TaskDue}
    (origin : ∀ new, due = some new → new.taskId = row.taskId ∧ new.runId = row.runId) :
    Db.Linked { p.db with taskDue := p.db.taskDue.write row.taskId due } := by
  have mem := Table.mem_of_get stored
  refine writeDue_linked linked ?_
  intro new written
  obtain ⟨owner, attached⟩ := origin new written
  refine ⟨owner, linked.owed row mem, ?_⟩
  intro id here
  exact linked.attached row mem id (attached.symm.trans here)

theorem launch_linked (linked : p.db.Linked) {task : Task} {key : Option DestKey}
    (found : p.db.tasks.get row.taskId = some task) :
    (p.launch row task key now).db.Linked := by
  have id : task.id = row.taskId := Table.key_of_get found
  rw [launch_db]
  have added : Db.Linked { p.db with
      runs := p.db.runs.put
        (pendingRun (nextId p.db.runs) task.id (p.stamps.headD ⟨now, now⟩)) } :=
    newRun_linked linked (get_nextId p.db.runs) (by simp [pendingRun, id, found])
  refine writeDue_linked added ?_
  intro new written
  obtain rfl := Option.some.inj written
  refine ⟨rfl, by simp [found], ?_⟩
  intro i here
  obtain rfl : nextId p.db.runs = i := by simpa [TaskDue.dispatchedTo] using here
  exact ⟨_, Table.get_put_self p.db.runs (pendingRun (nextId p.db.runs) task.id _), id⟩

theorem wait_db (p : Pass) (row : TaskDue) (task : Task) (key : Option DestKey)
    (reason : WaitReason) (now : Int) :
    (p.wait row task key reason now).db = p.db ∨
      (p.wait row task key reason now).db =
        { p.db with
          taskDue := p.db.taskDue.write row.taskId
            (some { row with waitReason := some reason, updatedAt := now }) } := by
  unfold Pass.wait
  dsimp only
  split
  · exact Or.inl rfl
  · exact Or.inr rfl

theorem turn_linked (linked : p.db.Linked) (stored : p.db.taskDue.get row.taskId = some row)
    (turn : Pass.Turn now p row p') : p'.db.Linked := by
  cases turn with
  | left => exact linked
  | dropped other disabled =>
    have gone : Db.Linked { p.db with taskDue := p.db.taskDue.write row.taskId none } :=
      turnWrite_linked linked stored fun new h => by cases h
    exact gone
  | waited ready =>
    rename_i task key reason
    rcases wait_db p row task key reason now with same | written
    · rw [same]
      exact linked
    · rw [written]
      exact turnWrite_linked linked stored fun new h => by
        obtain rfl := Option.some.inj h
        exact ⟨rfl, rfl⟩
  | started starts => exact launch_linked linked starts.found

theorem turn_frame (turn : Pass.Turn now p row p') :
    p'.db.tasks = p.db.tasks ∧ p'.db.sources = p.db.sources ∧
      ∀ other, other ≠ row.taskId → p'.db.taskDue.get other = p.db.taskDue.get other := by
  cases turn with
  | left => exact ⟨rfl, rfl, fun _ _ => rfl⟩
  | dropped other disabled =>
    refine ⟨rfl, rfl, fun i ne => ?_⟩
    show (p.db.taskDue.erase row.taskId).get i = p.db.taskDue.get i
    simp [Table.get_erase, ne]
  | waited ready =>
    rename_i task key reason
    rcases wait_db p row task key reason now with same | written
    · rw [same]
      exact ⟨rfl, rfl, fun _ _ => rfl⟩
    · rw [written]
      refine ⟨rfl, rfl, fun i ne => ?_⟩
      show (p.db.taskDue.put _).get i = p.db.taskDue.get i
      exact Table.get_put_ne (Ne.symm ne)
  | started starts =>
    rw [launch_db]
    refine ⟨rfl, rfl, fun i ne => ?_⟩
    show (p.db.taskDue.put _).get i = p.db.taskDue.get i
    exact Table.get_put_ne (Ne.symm ne)

theorem turn_good (good : p.Good now hi) (stored : p.db.taskDue.get row.taskId = some row)
    (turn : Pass.Turn now p row p') : p'.Good now hi := by
  refine ⟨turn_linked good.linked stored turn, ?_, ?_⟩
  · cases turn with
    | left => exact good.covers
    | dropped other disabled => exact ⟨good.covers.task, good.covers.source⟩
    | waited ready =>
      rename_i task key reason
      have same : (p.wait row task key reason now).db.runs = p.db.runs ∧
          (p.wait row task key reason now).db.tasks = p.db.tasks := by
        rcases wait_db p row task key reason now with same | written
        · rw [same]
          exact ⟨rfl, rfl⟩
        · rw [written]
          exact ⟨rfl, rfl⟩
      constructor
      · rw [same.1]
        exact good.covers.task
      · rw [same.1, same.2]
        exact good.covers.source
    | started starts =>
      rename_i task key
      have id : task.id = row.taskId := Table.key_of_get starts.found
      rw [show (p.launch row task key now).Covers ↔ _ from Iff.rfl]
      constructor
      · intro run mem active
        rw [launch_db] at mem
        rcases mem_putRow_imp mem with new | old
        · subst run
          exact List.mem_append_right _ (by simp [pendingRun])
        · exact List.mem_append_left _ (good.covers.task run old active)
      · intro run mem active t found
        rw [launch_db] at mem found
        rcases mem_putRow_imp mem with new | old
        · subst run
          have same : t = task := by
            have here : p.db.tasks.get task.id = some t := found
            rw [id, starts.found] at here
            exact (Option.some.inj here).symm
          exact List.mem_append_right _ (by simp [same])
        · exact List.mem_append_left _ (good.covers.source run old active t found)
  · cases turn with
    | left => exact good.stamps
    | dropped other disabled => exact good.stamps
    | waited ready => exact good.stamps
    | started starts => exact fun stamp mem => good.stamps stamp (List.mem_of_mem_tail mem)

theorem covers_idle (good : p.Good now hi) {a : Nat} {l : Ledger} (view : p.db.view a = some l)
    (free : a ∉ p.activeTasks) : l.Idle := by
  intro run mem
  obtain ⟨stored, owner⟩ := (mem_view_runs view).mp mem
  by_contra active
  have taken := good.covers.task run stored (by simpa using active)
  exact free (owner ▸ taken)

/-- The other tasks do not see the turn; its own does one of four things. -/
theorem turn_view_other {a : Nat} (other : a ≠ row.taskId) (turn : Pass.Turn now p row p') :
    p'.db.view a = p.db.view a := by
  obtain ⟨tasks, -, due⟩ := turn_frame turn
  have runs : p'.db.runs.rows.filter (ownedBy a) = p.db.runs.rows.filter (ownedBy a) := by
    cases turn with
    | left => rfl
    | dropped => rfl
    | waited ready =>
      rename_i task key reason
      rcases wait_db p row task key reason now with same | written
      · rw [same]
      · rw [written]
    | started starts =>
      have id := Table.key_of_get starts.found
      rw [launch_db]
      refine filter_putRow_of_not _ _ _ ?_ fun run mem clash => ?_
      · simpa [ownedBy, pendingRun] using fun same => other (same.symm.trans id)
      · exact absurd clash (newRun_fresh (get_nextId p.db.runs) run mem)
  rw [view_eq, view_eq, tasks, due a other, runs]

theorem turn_view_own (good : p.Good now hi) (nowHi : now ≤ hi) {l : Ledger}
    (view : p.db.view row.taskId = some l)
    (turn : Pass.Turn now p row p') :
    ∃ l', p'.db.view row.taskId = some l' ∧ Picks now hi row.taskId row l l' := by
  obtain ⟨-, -, due, task⟩ := view_runs view
  cases turn with
  | left => exact ⟨l, view, .left⟩
  | dropped other disabled =>
    refine ⟨{ l with due := none }, ?_, .dropped other (disabled _ task)⟩
    have written : Db.view { p.db with taskDue := p.db.taskDue.write row.taskId none }
        row.taskId = _ := writeDue_view p.db (fun r gone => by cases gone) row.taskId
    rw [view, Option.map_some, if_pos rfl] at written
    exact written
  | waited ready =>
    rename_i task key reason
    rcases wait_db p row task key reason now with same | written
    · exact ⟨l, by rw [same]; exact view, .left⟩
    · refine ⟨{ l with due := some { row with waitReason := some reason, updatedAt := now } },
        ?_, .waited ready⟩
      rw [written, writeDue_view p.db (fun r h => by obtain rfl := Option.some.inj h; rfl), view,
        Option.map_some, if_pos rfl]
  | started starts =>
    rename_i t key
    have id : t.id = row.taskId := Table.key_of_get starts.found
    have here : t = l.task := Option.some.inj (starts.found.symm.trans task)
    have free := covers_idle good view starts.taskFree
    have fresh : ∀ run ∈ l.runs, run.id ≠ nextId p.db.runs := fun run mem =>
      newRun_fresh (get_nextId p.db.runs) run ((mem_view_runs view).mp mem).1
    have stamp : now ≤ (p.stamps.headD ⟨now, now⟩).startedAt ∧
        (p.stamps.headD ⟨now, now⟩).startedAt ≤ hi := by
      cases stamps : p.stamps with
      | nil => exact ⟨le_refl now, nowHi⟩
      | cons stamp rest => exact good.stamps stamp (by simp [stamps])
    refine ⟨{ l with
      due := some (row.dispatchedTo (nextId p.db.runs) now)
      runs := l.runs ++
        [pendingRun (nextId p.db.runs) row.taskId (p.stamps.headD ⟨now, now⟩)] },
      ?_, .started starts.ready (here ▸ starts.enabled) free fresh stamp⟩
    rw [launch_db, id]
    have unused : p.db.runs.get (pendingRun (nextId p.db.runs) row.taskId
        (p.stamps.headD ⟨now, now⟩)).id = none := get_nextId p.db.runs
    have added := newRun_view unused row.taskId
    rw [view, Option.map_some, if_pos (by rfl)] at added
    rw [writeDue_view { p.db with runs := p.db.runs.put _ }
      (fun r h => by obtain rfl := Option.some.inj h; rfl), added, Option.map_some, if_pos rfl]

theorem turn_stored {p p' : Pass} {row : TaskDue} {rows : List TaskDue} {now : Int}
    (apart : row.taskId ∉ rows.map TaskDue.taskId) (turn : Pass.Turn now p row p')
    (stored : ∀ other ∈ row :: rows, p.db.taskDue.get other.taskId = some other) :
    ∀ other ∈ rows, p'.db.taskDue.get other.taskId = some other := by
  intro other mem
  have ne : other.taskId ≠ row.taskId := fun same =>
    apart (List.mem_map.mpr ⟨other, mem, same⟩)
  rw [(turn_frame turn).2.2 other.taskId ne]
  exact stored other (List.mem_cons_of_mem row mem)

end Turn

theorem rows_spec (limit : Nat) (probe : Probe) {now hi : Int} (nowHi : now ≤ hi)
    (rows : List TaskDue) {p : Pass} (unique : (rows.map TaskDue.taskId).Nodup)
    (stored : ∀ row ∈ rows, p.db.taskDue.get row.taskId = some row) (good : p.Good now hi) :
    (rows.foldl (Pass.row limit probe now) p).Good now hi ∧
      (∀ a, a ∉ rows.map TaskDue.taskId →
        (rows.foldl (Pass.row limit probe now) p).db.view a = p.db.view a) ∧
      ∀ row ∈ rows, ∀ l, p.db.view row.taskId = some l → ∃ l',
        (rows.foldl (Pass.row limit probe now) p).db.view row.taskId = some l' ∧
          Picks now hi row.taskId row l l' := by
  induction rows generalizing p with
  | nil => exact ⟨good, fun _ _ => rfl, by simp⟩
  | cons row rows ih =>
    have here := stored row (by simp)
    obtain ⟨apart, unique⟩ := List.nodup_cons.mp unique
    have turn := row_turn limit probe now p row
    obtain ⟨good', others, picks⟩ :=
      ih unique (turn_stored apart turn stored) (turn_good good here turn)
    refine ⟨good', ?_, ?_⟩
    · intro a outside
      simp only [List.map_cons, List.mem_cons, not_or] at outside
      exact (others a outside.2).trans (turn_view_other outside.1 turn)
    · intro r mem l view
      rcases List.mem_cons.mp mem with same | tail
      · subst r
        obtain ⟨l', view', picked⟩ := turn_view_own good nowHi view turn
        exact ⟨l', (others row.taskId apart).trans view', picked⟩
      · have ne : r.taskId ≠ row.taskId := fun same =>
          apart (List.mem_map.mpr ⟨r, tail, same⟩)
        exact picks r tail l ((turn_view_other ne turn).trans view)

theorem rows_invariant (limit : Nat) (probe : Probe) {now hi : Int} (inv : Pass → Prop)
    (keeps : ∀ p row p', p.Good now hi → inv p → Pass.Turn now p row p' → inv p')
    (rows : List TaskDue) {p : Pass} (unique : (rows.map TaskDue.taskId).Nodup)
    (stored : ∀ row ∈ rows, p.db.taskDue.get row.taskId = some row) (good : p.Good now hi)
    (start : inv p) : inv (rows.foldl (Pass.row limit probe now) p) := by
  induction rows generalizing p with
  | nil => exact start
  | cons row rows ih =>
    obtain ⟨apart, unique⟩ := List.nodup_cons.mp unique
    have turn := row_turn limit probe now p row
    have good' := turn_good good (stored row (by simp)) turn
    exact ih unique (turn_stored apart turn stored) good' (keeps p row _ good start turn)

theorem picks_effect {env : Env} {lo hi : Int} {a : Nat} {probe : Probe} {now : Int}
    {stamps : List Stamp} {l l' : Ledger} {row : TaskDue} (time : lo ≤ now ∧ now ≤ hi)
    (owed : (l.settle now).due = some row) (picks : Picks now hi a row (l.settle now) l') :
    Effect env a lo hi (.dispatch probe now stamps) l l' := by
  cases picks with
  | left => exact .pass time
  | dropped other disabled => exact .drop time owed other disabled
  | waited ready => exact .wait time owed ready
  | started ready enabled quiet fresh started =>
    exact .launch time owed ready enabled quiet fresh started

/-- The rows of a pass, oldest first, are the settled rows. -/
def passRows (db : Db) : List TaskDue :=
  db.taskDue.rows.insertionSort fun a b => a.dueAt ≤ b.dueAt

theorem passRows_spec (db : Db) :
    (∀ row, row ∈ passRows db ↔ row ∈ db.taskDue.rows) ∧
      ((passRows db).map TaskDue.taskId).Nodup := by
  have order : (passRows db).Perm db.taskDue.rows := List.perm_insertionSort _ _
  exact ⟨fun _ => order.mem_iff, (order.map TaskDue.taskId).nodup_iff.mpr db.taskDue.unique⟩

/-- The view of a task before the turns of a pass, and after them. -/
theorem pass_picks (limit : Nat) (probe : Probe) {now hi : Int} {db : Db} {stamps : List Stamp}
    {a : Nat} {l : Ledger} (linked : db.Linked) (time : now ≤ hi)
    (started : ∀ stamp ∈ stamps, now ≤ stamp.startedAt ∧ stamp.startedAt ≤ hi)
    (view : db.view a = some l) :
    ∃ l', ((passRows db).foldl (Pass.row limit probe now)
        (Pass.begin probe db stamps)).db.view a = some l' ∧
      (l' = l ∨ ∃ row, l.due = some row ∧ Picks now hi a row l l') := by
  obtain ⟨same, good⟩ := begin_good probe linked started
  obtain ⟨member, unique⟩ := passRows_spec db
  have stored : ∀ row ∈ passRows db,
      (Pass.begin probe db stamps).db.taskDue.get row.taskId = some row := by
    intro row mem
    rw [same]
    exact Table.get_of_mem ((member row).mp mem)
  obtain ⟨-, others, picks⟩ := rows_spec limit probe time (passRows db) unique stored good
  rw [← same] at view
  by_cases inside : a ∈ (passRows db).map TaskDue.taskId
  · obtain ⟨row, mem, rfl⟩ := List.mem_map.mp inside
    obtain ⟨l', view', picked⟩ := picks row mem l view
    refine ⟨l', view', .inr ⟨row, ?_, picked⟩⟩
    rw [(view_runs view).2.2.1]
    exact stored row mem
  · exact ⟨l, (others a inside).trans view, .inl rfl⟩

theorem dispatch_picks (env : Env) {hi : Int} {db : Db} (linked : db.Linked) (probe : Probe)
    {now : Int} {stamps : List Stamp} (time : now ≤ hi)
    (started : ∀ stamp ∈ stamps, now ≤ stamp.startedAt ∧ stamp.startedAt ≤ hi) {a : Nat}
    {l : Ledger} (view : db.view a = some l) :
    ∃ l', (apply env (.dispatch probe now stamps) db).view a = some l' ∧
      (l' = l.settle now ∨
        ∃ row, (l.settle now).due = some row ∧ Picks now hi a row (l.settle now) l') := by
  obtain ⟨settled, -, -, -, views⟩ := settleAll_spec linked now
  refine pass_picks env.maxConcurrentRuns probe settled time started ?_
  rw [views a, view]
  rfl

theorem dispatch_sees {env : Env} {lo hi : Int} {db : Db} (linked : db.Linked) (probe : Probe)
    {now : Int} {stamps : List Stamp} (time : lo ≤ now ∧ now ≤ hi)
    (started : ∀ stamp ∈ stamps, now ≤ stamp.startedAt ∧ stamp.startedAt ≤ hi) :
    Sees env lo hi (.dispatch probe now stamps) db
      (apply env (.dispatch probe now stamps) db) := by
  obtain ⟨settled, -, tasks, -, -⟩ := settleAll_spec linked now
  obtain ⟨same, good⟩ := begin_good probe settled started
  obtain ⟨member, unique⟩ := passRows_spec (settleAll db now)
  have stored : ∀ row ∈ passRows (settleAll db now),
      (Pass.begin probe (settleAll db now) stamps).db.taskDue.get row.taskId = some row := by
    intro row mem
    rw [same]
    exact Table.get_of_mem ((member row).mp mem)
  have after := (rows_spec env.maxConcurrentRuns probe time.2 _ unique stored good).1
  refine ⟨after.linked, fun a => ?_⟩
  cases view : db.view a with
  | none =>
    have kept : (apply env (.dispatch probe now stamps) db).tasks = db.tasks :=
      rows_invariant env.maxConcurrentRuns probe (fun p => p.db.tasks = db.tasks)
        (fun _ _ _ _ kept turn => (turn_frame turn).1.trans kept) _ unique stored good
        (by rw [same, tasks])
    have gone : (apply env (.dispatch probe now stamps) db).view a = none := by
      rw [view_eq, Option.map_eq_none_iff] at view ⊢
      rw [kept, view]
    rw [gone]
    exact .absent
  | some l =>
    obtain ⟨l', view', rfl | ⟨row, owed, picked⟩⟩ :=
      dispatch_picks env linked probe time.2 started view
    · rw [view']
      exact .acts (.pass time)
    · rw [view']
      exact .acts (picks_effect time owed picked)

theorem apply_sees {env : Env} {s s' : Service} {op : Op} (linked : s.db.Linked)
    (step : Step env s op s') : Sees env s.clock s'.clock op s.db s'.db := by
  have bounds : ∀ t ∈ op.readings, s.clock ≤ t ∧ t ≤ s'.clock := fun t mem =>
    reading_le_clock step mem
  have timely := step.1
  obtain ⟨-, shape⟩ := step
  have result : s'.db = apply env op s.db := by rw [shape]; rfl
  rw [result]
  cases op with
  | reconcile t now => exact reconcile_sees linked t (bounds now (by simp [Op.readings]))
  | tick t now => exact tick_sees linked t (bounds now (by simp [Op.readings]))
  | settle now => exact settle_sees linked (bounds now (by simp [Op.readings]))
  | dispatch probe now stamps =>
    have pass : Step env s (.dispatch probe now stamps) s' := ⟨timely, shape⟩
    exact dispatch_sees linked probe (bounds now (by simp [Op.readings])) fun stamp mem =>
      stamp_le_clock pass (Or.inl mem)
  | runNow t stamp => exact admit_sees linked t (bounds stamp.startedAt (by simp [Op.readings]))
  | start run now => exact start_sees linked run (bounds now (by simp [Op.readings]))
  | finish run ending requested stats now =>
    exact finish_sees linked run ending requested stats (bounds now (by simp [Op.readings]))
  | abandon run reason requested now =>
    exact abandon_sees linked run reason requested (bounds now (by simp [Op.readings]))
  | sweep owners now => exact sweep_sees linked owners (bounds now (by simp [Op.readings]))
  | restart now => exact restart_sees linked (bounds now (by simp [Op.readings]))
  | createTask data now =>
    exact createTask_sees linked data (bounds now (by simp [Op.readings]))
  | updateTask t data now =>
    exact update_sees linked t data (bounds now (by simp [Op.readings]))
  | deleteTask t => exact deleteTask_sees linked t
  | createSource data now =>
    show Sees env _ _ _ s.db (s.db.orElse (createSource s.db data now))
    unfold createSource
    split
    · exact sees_same linked _
    · exact sources_sees linked _ _
  | updateSource source data =>
    show Sees env _ _ _ s.db (s.db.orElse (updateSource s.db source data))
    unfold updateSource
    repeat' split
    · exact sees_same linked _
    · exact sees_same linked _
    · exact sees_same linked _
    · exact sources_sees linked _ _
  | deleteSource source =>
    show Sees env _ _ _ s.db (s.db.orElse (deleteSource s.db source))
    unfold deleteSource
    repeat' split
    · exact sees_same linked _
    · exact sees_same linked _
    · exact sources_sees linked _ _

end Pullbackup
