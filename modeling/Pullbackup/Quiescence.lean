import Pullbackup.Fairness
import Pullbackup.Idempotence
import Pullbackup.Library.Thinning

/- What a dispatcher pass leaves behind: nothing that could start, until a transaction that
   frees a scope, or owes something new, or a settlement that has not had its last word. -/
namespace Pullbackup
open KeyedTable

/-- Nothing that is ripe at the instant can start: each obligation is blocked by what runs, by
    an older one that waits, or by the limit. -/
def Db.Stuck (limit : Nat) (probe : Probe) (now : Int) (db : Db) : Prop :=
  (greedyAfter limit probe db now (passRows db)).started = []

section Leaving
variable {limit : Nat} {probe : Probe} {now : Int} {db : Db} {p p' : Pass}
  {s : Greedy.State Scopes} {row row' : TaskDue}

/-- A turn rewrites its row where it stands, ripe as before or not at all, or erases it. -/
theorem turn_thins (stored : p.db.taskDue.get row.taskId = some row) (turn : Pass.Turn now p row p') :
    p.db.taskDue.Thins p'.db.taskDue := by
  cases turn with
  | left => exact List.Sublist.refl _
  | dropped other disabled => exact thins_erase _ _
  | waited ready =>
    rename_i task key reason
    rcases wait_db p row task key reason now with same | written
    · rw [same]
      exact List.Sublist.refl _
    · rw [written]
      exact thins_put stored
  | started starts =>
    rw [launch_db]
    exact thins_put stored

theorem turn_row (stored : p.db.taskDue.get row.taskId = some row) (turn : Pass.Turn now p row p')
    (here : p'.db.taskDue.get row.taskId = some row') :
    row'.taskId = row.taskId ∧ row'.dueAt = row.dueAt ∧
      (row'.ripe now = row.ripe now ∨ row'.ripe now = false) := by
  cases turn with
  | left =>
    obtain rfl := Option.some.inj (stored.symm.trans here)
    exact ⟨rfl, rfl, .inl rfl⟩
  | dropped other disabled =>
    simp [Table.get_erase] at here
  | waited ready =>
    rename_i task key reason
    rcases wait_db p row task key reason now with same | written
    · rw [same] at here
      obtain rfl := Option.some.inj (stored.symm.trans here)
      exact ⟨rfl, rfl, .inl rfl⟩
    · rw [written] at here
      obtain rfl := Option.some.inj ((Table.get_put_self p.db.taskDue _).symm.trans here)
      exact ⟨rfl, rfl, .inl rfl⟩
  | started starts =>
    rw [launch_db] at here
    obtain rfl := Option.some.inj
      ((Table.get_put_self p.db.taskDue (row.dispatchedTo (nextId p.db.runs) now)).symm.trans here)
    exact ⟨rfl, rfl, .inr rfl⟩

theorem request_ripe (same : row'.taskId = row.taskId) (ripe : row'.ripe now = row.ripe now) :
    request probe db now row' = request probe db now row := by
  unfold request
  rw [same, ripe]

theorem request_unripe (unripe : row.ripe now = false) : request probe db now row = none := by
  unfold request
  rw [unripe]
  cases found : db.tasks.get row.taskId with
  | none => rfl
  | some task => cases stored : db.sources.get task.sourceId <;> simp [stored]

theorem turn_request (sim : p.Simulates db s) (stored : p.db.taskDue.get row.taskId = some row) :
    (((Pass.row limit probe now p row).db.taskDue.get row.taskId).bind (request probe db now)).toList =
      ((request probe db now row).filter ((passRules limit).blocked s)).toList := by
  have turn := row_turn limit probe now p row
  cases asks : request probe db now row with
  | none =>
    cases here : (Pass.row limit probe now p row).db.taskDue.get row.taskId with
    | none => rfl
    | some row' =>
      obtain ⟨same, -, ripe⟩ := turn_row stored turn here
      have silent : request probe db now row' = none := by
        rcases ripe with ripe | unripe
        · rw [request_ripe same ripe, asks]
        · exact request_unripe unripe
      rw [Option.bind_some, silent]
      rfl
  | some job =>
    obtain ⟨task, source, eligible, rfl⟩ := request_some.mp asks
    have here : Eligible p.db now row task source :=
      ⟨sim.tasks ▸ eligible.found, eligible.enabled, sim.sources ▸ eligible.stored, eligible.ready⟩
    have free := reason_none_iff limit sim task (passKey probe task source)
    rw [row_eligible limit here]
    cases reason : p.reason limit task (passKey probe task source) with
    | none =>
      have unblocked : (passRules limit).blocked s (scopesOf probe task source) = false :=
        free.mp reason
      have written := Table.get_put_self p.db.taskDue (row.dispatchedTo (nextId p.db.runs) now)
      have spent : (row.dispatchedTo (nextId p.db.runs) now).ripe now = false := rfl
      dsimp only
      rw [launch_db]
      change (((p.db.taskDue.put (row.dispatchedTo (nextId p.db.runs) now)).get row.taskId).bind
        _).toList = _
      rw [show (p.db.taskDue.put (row.dispatchedTo (nextId p.db.runs) now)).get row.taskId = _ from
        written, Option.bind_some, request_unripe spent]
      simp [Option.filter, unblocked]
    | some reason' =>
      have blocked : (passRules limit).blocked s (scopesOf probe task source) = true := by
        by_contra unblocked
        rw [free.mpr (Bool.not_eq_true _ ▸ unblocked)] at reason
        cases reason
      have kept : ∃ row', (p.wait row task (passKey probe task source) reason' now).db.taskDue.get
          row.taskId = some row' ∧ row'.taskId = row.taskId ∧ row'.ripe now = row.ripe now := by
        rcases wait_db p row task (passKey probe task source) reason' now with same | written
        · exact ⟨row, by rw [same, stored], rfl, rfl⟩
        · refine ⟨{ row with waitReason := some reason', updatedAt := now }, ?_, rfl, rfl⟩
          rw [written]
          exact Table.get_put_self p.db.taskDue
            { row with waitReason := some reason', updatedAt := now }
      obtain ⟨row', found, same, ripe⟩ := kept
      dsimp only
      rw [found, Option.bind_some, request_ripe same ripe, asks]
      simp [Option.filter, blocked]

theorem row_waiting (limit : Nat) (probe : Probe) (now : Int) (sim : p.Simulates db s)
    (stored : p.db.taskDue.get row.taskId = some row) :
    ((passRules limit).pass s (request probe db now row).toList).waiting =
      s.waiting ++ (((Pass.row limit probe now p row).db.taskDue.get row.taskId).bind
        (request probe db now)).toList := by
  rw [turn_request sim stored]
  cases asks : request probe db now row with
  | none => simp [Greedy.Rules.pass]
  | some job =>
    change ((passRules limit).step s job).waiting = _
    cases blocked : (passRules limit).blocked s job with
    | true => simp [Greedy.Rules.step_blocked blocked, Option.filter, blocked]
    | false => simp [Greedy.Rules.step_free blocked, Option.filter, blocked]

theorem rows_leave (limit : Nat) (now : Int) (rows : List TaskDue) (sim : p.Simulates db s)
    (unique : (rows.map TaskDue.taskId).Nodup)
    (stored : ∀ row ∈ rows, p.db.taskDue.get row.taskId = some row) :
    p.db.taskDue.Thins (rows.foldl (Pass.row limit probe now) p).db.taskDue ∧
      (∀ other ∉ rows.map TaskDue.taskId,
        (rows.foldl (Pass.row limit probe now) p).db.taskDue.get other =
          p.db.taskDue.get other) ∧
      (∀ row ∈ rows, ∀ row',
        (rows.foldl (Pass.row limit probe now) p).db.taskDue.get row.taskId = some row' →
          row'.dueAt = row.dueAt) ∧
      ((passRules limit).pass s (rows.filterMap (request probe db now))).waiting =
        s.waiting ++ rows.filterMap fun row =>
          ((rows.foldl (Pass.row limit probe now) p).db.taskDue.get row.taskId).bind
            (request probe db now) := by
  induction rows generalizing p s with
  | nil =>
    exact ⟨List.Sublist.refl _, fun _ _ => rfl, fun _ mem => absurd mem List.not_mem_nil,
      by simp [Greedy.Rules.pass]⟩
  | cons row rows ih =>
    obtain ⟨apart, unique⟩ := List.nodup_cons.mp unique
    have here := stored row List.mem_cons_self
    have turn := row_turn limit probe now p row
    obtain ⟨thins, others, aged, waiting⟩ :=
      ih (row_simulates limit probe now sim row) unique (turn_stored apart turn stored)
    have own := others row.taskId apart
    refine ⟨List.Sublist.trans thins (turn_thins here turn), ?_, ?_, ?_⟩
    · intro other outside
      simp only [List.map_cons, List.mem_cons, not_or] at outside
      exact (others other outside.2).trans ((turn_frame turn).2.2 other outside.1)
    · intro r mem row' found
      rcases List.mem_cons.mp mem with rfl | tail
      · exact (turn_row here turn (own.symm.trans found)).2.1
      · exact aged r tail row' found
    · have first := row_waiting limit probe now sim here
      have parts : ∀ f : TaskDue → Option Scopes,
          (row :: rows).filterMap f = (f row).toList ++ rows.filterMap f := by
        intro f
        cases asks : f row <;> simp [asks]
      rw [parts, Greedy.Rules.pass_append, waiting, first, parts, List.foldl_cons, own,
        List.append_assoc]

end Leaving

section Resting
variable {limit : Nat} {probe : Probe} {now : Int} {db : Db} {rows : List TaskDue}

theorem passRows_thins {db' : Db} (thins : db.taskDue.Thins db'.taskDue)
    (aged : ∀ row ∈ db.taskDue.rows, ∀ row', db'.taskDue.get row.taskId = some row' →
      row'.dueAt = row.dueAt) :
    passRows db' = (passRows db).filterMap fun row => db'.taskDue.get row.taskId := by
  unfold passRows
  rw [rows_of_thins thins]
  exact insertionSort_filterMap db.taskDue.rows aged

theorem running_active (stamps : List Stamp) {job : Scopes}
    (runs : job ∈ (greedyAfter limit probe db now rows).running) :
    ∃ i ∈ activeScopes probe (Pass.after limit probe db now stamps rows).db,
      ∀ j, (passRules limit).busy j job = true → (passRules limit).busy j i = true := by
  have sim := after_simulates limit probe db now stamps rows
  have scopes : ∀ run, runScopes probe (Pass.after limit probe db now stamps rows).db run =
      runScopes probe db run := by
    intro run
    unfold runScopes
    rw [sim.tasks]
  obtain ⟨news, split, -, pending, owners⟩ := sim.runs
  have active : ∀ run ∈ (Pass.after limit probe db now stamps rows).db.runs.rows,
      run.state.active = true →
      runScopes probe db run ∈ activeScopes probe (Pass.after limit probe db now stamps rows).db := by
    intro run mem on
    rw [← scopes]
    exact List.mem_map_of_mem (List.mem_filter.mpr ⟨mem, on⟩)
  rcases List.mem_append.mp runs with before | starts
  · have old : (greedyAfter limit probe db now rows).before = activeScopes probe db :=
      Greedy.Rules.pass_before _ _
    rw [old] at before
    obtain ⟨run, there, rfl⟩ := List.mem_map.mp before
    obtain ⟨stored, on⟩ := List.mem_filter.mp there
    exact ⟨_, active run (after_kept stored) on, fun _ busy => busy⟩
  · obtain ⟨row, -, task, source, eligible, rfl⟩ := started_request starts
    have listed : (scopesOf probe task source).task ∈ news.map fun run => some run.taskId := by
      rw [owners]
      exact List.mem_map_of_mem starts
    obtain ⟨run, new, owner⟩ := List.mem_map.mp listed
    have same : run.taskId = row.taskId :=
      (Option.some.inj owner).trans (Table.key_of_get eligible.found)
    have held : runScopes probe db run =
        ⟨some task.id, some task.sourceId, probe.destinationKey task⟩ := by
      simp [runScopes, same, eligible.found]
    refine ⟨_, active run (split ▸ List.mem_append_right _ new) (by simp [pending run new]), ?_⟩
    rw [held]
    intro j busy
    simp only [passRules, Bool.or_eq_true] at busy ⊢
    refine busy.imp_right fun clash => ?_
    -- a destination that fails its checks is known of the run and not of the request
    simp only [Scopes.conflicting, scopesOf, Option.any_eq_true] at clash ⊢
    obtain ⟨key, named, other, here, conflict⟩ := clash
    exact ⟨key, named, other, passKey_some here, conflict⟩

theorem running_length (stamps : List Stamp) :
    (greedyAfter limit probe db now rows).running.length =
      (activeScopes probe (Pass.after limit probe db now stamps rows).db).length := by
  rw [← (after_simulates limit probe db now stamps rows).count, after_count, activeScopes,
    List.length_map, List.countP_eq_length_filter]

/-- A pass leaves nothing that could start at its instant. -/
theorem pass_leaves_stuck (limit : Nat) (probe : Probe) (db : Db) (now : Int)
    (stamps : List Stamp) : Db.Stuck limit probe now (dispatchDue limit probe db now stamps).db := by
  rw [dispatchDue_after]
  generalize settleAll db now = db
  have sim := after_simulates limit probe db now stamps (passRows db)
  obtain ⟨member, unique⟩ := passRows_spec db
  have stored : ∀ row ∈ passRows db,
      (Pass.begin probe db stamps).db.taskDue.get row.taskId = some row := by
    intro row mem
    rw [begin_db]
    exact Table.get_of_mem ((member row).mp mem)
  obtain ⟨thins, -, aged, waiting⟩ := rows_leave limit now (passRows db)
    (begin_simulates probe db stamps) unique stored
  rw [begin_db] at thins
  have rows := passRows_thins thins fun row mem => aged row ((member row).mpr mem)
  have asks : (passRows (Pass.after limit probe db now stamps (passRows db)).db).filterMap
      (request probe (Pass.after limit probe db now stamps (passRows db)).db now) =
        (greedyAfter limit probe db now (passRows db)).waiting := by
    have same : request probe (Pass.after limit probe db now stamps (passRows db)).db now =
        request probe db now := funext fun row => request_congr sim.tasks sim.sources
    rw [same]
    unfold Pass.after at rows ⊢
    rw [rows, List.filterMap_filterMap]
    exact waiting.symm
  unfold Db.Stuck greedyAfter
  rw [asks, Greedy.Rules.none_started_iff]
  intro front job rest split
  have blocked := Greedy.Rules.pass_waiting_blocked (activeScopes probe db)
    ((passRows db).filterMap (request probe db now)) front job rest split
  refine Greedy.Rules.blocked_mono ?_ (running_length stamps).le blocked
  intro i runs busy
  obtain ⟨i', mem, wide⟩ := running_active stamps runs
  exact ⟨i', mem, wide job busy⟩

end Resting

def Db.owedFrom (db : Db) (source : Nat) : Bool :=
  db.taskDue.rows.any fun row =>
    (db.tasks.get row.taskId).any fun task => decide (task.sourceId = source)

/-- Transactions of the requests and the watchdog that may let an obligation start and are
    followed by no wake-up; so is the failure of a run that could not be started. -/
def Op.silent (db : Db) : Op → Bool
  | .deleteTask task => (db.taskDue.get task).isSome
  | .createSource _ _ => db.owedFrom (nextId db.sources)
  | .updateSource source _ => db.owedFrom source
  | .sweep owners now => db.runs.rows.any (orphaned owners now)
  | .abandon _ .failedToStart _ _ => true
  | _ => false

/-- Those that only add to what blocks, or touch nothing a pass looks at. -/
def Op.harmless (db : Db) (op : Op) : Bool :=
  match op with
  | .runNow .. | .start .. | .createTask .. | .deleteSource .. => true
  | .deleteTask _ | .createSource .. | .updateSource .. | .sweep .. => !op.silent db
  | _ => false

section Keeping
variable {limit : Nat} {probe : Probe} {now later : Int} {db db' : Db}

/-- Nothing becomes able to start where the obligations ask for what they asked for and no less
    runs. -/
theorem stuck_mono (stuck : db.Stuck limit probe now) (due : db'.taskDue = db.taskDue)
    (asks : ∀ row ∈ db.taskDue.rows, request probe db' later row = request probe db now row)
    (busy : ∀ i ∈ activeScopes probe db, i ∈ activeScopes probe db')
    (more : (activeScopes probe db).length ≤ (activeScopes probe db').length) :
    db'.Stuck limit probe later := by
  have rows : passRows db' = passRows db := by
    unfold passRows
    rw [due]
  have same : (passRows db').filterMap (request probe db' later) =
      (passRows db).filterMap (request probe db now) := by
    rw [rows]
    exact List.filterMap_congr fun row mem => asks row (((passRows_spec db).1 row).mp mem)
  unfold Db.Stuck greedyAfter at stuck ⊢
  rw [Greedy.Rules.none_started_iff] at stuck ⊢
  rw [same]
  intro front job rest split
  exact Greedy.Rules.blocked_mono (fun i mem clash => ⟨i, busy i mem, clash⟩) more
    (stuck front job rest split)

theorem stuck_later (time : now ≤ later)
    (waits : ∀ row ∈ db.taskDue.rows, ∀ instant, row.status = .retry → row.retryAt = some instant →
      now < instant → later < instant)
    (stuck : db.Stuck limit probe now) : db.Stuck limit probe later := by
  refine stuck_mono stuck rfl (fun row mem => ?_) (fun _ mem => mem) le_rfl
  have ripe : row.ripe later = row.ripe now := by
    unfold TaskDue.ripe
    cases status : row.status <;> try rfl
    cases moment : row.retryAt with
    | none => rfl
    | some instant =>
      have kept := waits row mem instant status moment
      simp only [Option.any_some, Bool.not_eq_eq_eq_not, Bool.not_not, decide_eq_decide]
      constructor
      · exact fun before => lt_of_le_of_lt time before
      · exact kept
  unfold request
  rw [ripe]

theorem request_kept {row : TaskDue} (tasks : db'.tasks.get row.taskId = db.tasks.get row.taskId)
    (sources : ∀ task, db.tasks.get row.taskId = some task →
      db'.sources.get task.sourceId = db.sources.get task.sourceId) :
    request probe db' now row = request probe db now row := by
  unfold request
  rw [tasks]
  cases found : db.tasks.get row.taskId with
  | none => rfl
  | some task =>
    dsimp only
    rw [sources task found]

theorem runScopes_kept {run : Run} (tasks : db'.tasks.get run.taskId = db.tasks.get run.taskId) :
    runScopes probe db' run = runScopes probe db run := by
  unfold runScopes
  rw [tasks]

theorem sources_keep {sources : Table Source} {id : Nat} (unowed : db.owedFrom id = false)
    (others : ∀ k, k ≠ id → sources.get k = db.sources.get k) (stuck : db.Stuck limit probe now) :
    Db.Stuck limit probe now { db with sources := sources } := by
  refine stuck_mono stuck rfl (fun row mem => request_kept rfl fun task found => ?_)
    (fun _ mem => mem) le_rfl
  refine others task.sourceId fun same => ?_
  have owed : db.owedFrom id = true :=
    List.any_eq_true.mpr ⟨row, mem, by simp [found, same]⟩
  rw [unowed] at owed
  cases owed

theorem activeScopes_put {new : Run} (run : Run) (stored : db.runs.get new.id = some run)
    (owner : new.taskId = run.taskId) (state : new.state.active = run.state.active) :
    activeScopes probe { db with runs := db.runs.put new } = activeScopes probe db := by
  have mem := Table.mem_of_get stored
  have key : run.id = new.id := Table.key_of_get stored
  have rows : (db.runs.put new).rows =
      db.runs.rows.map fun r => if Keyed.key r = Keyed.key new then new else r :=
    putRow_of_mem db.runs.unique ⟨run, mem, key⟩
  have alike : ∀ r ∈ db.runs.rows, (if Keyed.key r = Keyed.key new then new else r).state.active =
      r.state.active ∧ (if Keyed.key r = Keyed.key new then new else r).taskId = r.taskId := by
    intro r there
    split
    · rename_i same
      obtain rfl := Table.key_injective there mem (same.trans key.symm)
      exact ⟨state, owner⟩
    · exact ⟨rfl, rfl⟩
  unfold activeScopes
  rw [show ({ db with runs := db.runs.put new } : Db).runs = db.runs.put new from rfl, rows,
    List.filter_map, List.map_map]
  have kept : db.runs.rows.filter ((fun r => r.state.active) ∘
      fun r => if Keyed.key r = Keyed.key new then new else r) =
        db.runs.rows.filter fun r => r.state.active :=
    List.filter_congr fun r there => (alike r there).1
  rw [kept]
  refine List.map_congr_left fun r there => ?_
  unfold runScopes
  rw [Function.comp_apply, (alike r (List.mem_filter.mp there).1).2]

theorem runNow_keeps (task : Nat) (stamp : Stamp) (stuck : db.Stuck limit probe now) :
    Db.Stuck limit probe now (((admitRun db task stamp).map Prod.fst).getD db) := by
  unfold admitRun
  cases found : db.tasks.get task with
  | none => exact stuck
  | some t =>
    dsimp only
    split
    · exact stuck
    split
    · exact stuck
    have rows : (db.runs.put (pendingRun (nextId db.runs) t.id stamp)).rows =
        db.runs.rows ++ [pendingRun (nextId db.runs) t.id stamp] :=
      putRow_of_new fun run mem => newRun_fresh (get_nextId db.runs) run mem
    have active : activeScopes probe
        { db with runs := db.runs.put (pendingRun (nextId db.runs) t.id stamp) } =
          activeScopes probe db ++ [runScopes probe db (pendingRun (nextId db.runs) t.id stamp)] := by
      unfold activeScopes
      rw [show ({ db with runs := db.runs.put (pendingRun (nextId db.runs) t.id stamp) } : Db).runs =
        db.runs.put (pendingRun (nextId db.runs) t.id stamp) from rfl, rows, List.filter_append,
        List.map_append]
      rfl
    refine stuck_mono stuck rfl (fun row mem => rfl) (fun i mem => ?_) ?_
    · exact active ▸ List.mem_append_left _ mem
    · exact active ▸ by simp

theorem start_keeps (run : Nat) (time : Int) (stuck : db.Stuck limit probe now) :
    Db.Stuck limit probe now (db.orElse (startRun db run time)) := by
  unfold startRun
  cases stored : db.runs.get run with
  | none => exact stuck
  | some r =>
    dsimp only
    split
    · exact stuck
    rename_i pending
    have id : r.id = run := Table.key_of_get stored
    have same : activeScopes probe { db with
        runs := db.runs.put { r with state := .running, startedAt := time } } =
          activeScopes probe db := by
      refine activeScopes_put r ?_ rfl ?_
      · rw [← stored, ← id]
      · simp [not_not.mp pending]
    exact stuck_mono stuck rfl (fun row mem => rfl) (fun i mem => same.symm ▸ mem)
      (congrArg List.length same).ge

theorem createTask_keeps (linked : db.Linked) (data : TaskFields) (time : Int)
    (stuck : db.Stuck limit probe now) :
    Db.Stuck limit probe now (db.orElse (createTask db data time)) := by
  unfold createTask
  cases db.sources.get data.sourceId with
  | none => exact stuck
  | some source =>
    have others : ∀ k, (db.tasks.get k).isSome →
        (db.tasks.put
          { data with id := nextId db.tasks, createdAt := time, updatedAt := time }).get k =
          db.tasks.get k := by
      intro k present
      refine Table.get_put_ne fun same => ?_
      have fresh : db.tasks.get k = none := same ▸ get_nextId db.tasks
      rw [fresh] at present
      cases present
    have scopes : activeScopes probe { db with
        tasks := db.tasks.put
          { data with id := nextId db.tasks, createdAt := time, updatedAt := time } } =
            activeScopes probe db :=
      List.map_congr_left fun run mem =>
        runScopes_kept (others run.taskId (linked.owner run (List.mem_filter.mp mem).1))
    refine stuck_mono stuck rfl (fun row mem => ?_) (fun i mem => scopes.symm ▸ mem)
      (congrArg List.length scopes).ge
    exact request_kept (others row.taskId (linked.owed row mem)) fun _ _ => rfl

theorem deleteTask_keeps (task : Nat) (unowed : db.taskDue.get task = none)
    (stuck : db.Stuck limit probe now) :
    Db.Stuck limit probe now (db.orElse (deleteTask db task)) := by
  unfold deleteTask
  cases db.tasks.get task with
  | none => exact stuck
  | some t =>
    dsimp only
    split
    · exact stuck
    rename_i idle
    have quiet : ∀ run ∈ db.runs.rows, run.state.active = true → run.taskId ≠ task := by
      intro run mem active same
      exact idle (List.any_eq_true.mpr ⟨run, mem, by simp [same, active]⟩)
    have due : db.taskDue.erase task = db.taskDue := by
      refine eq_of_rows ?_
      refine List.filter_eq_self.mpr fun row mem => ?_
      simpa using Table.get_eq_none_iff.mp unowed row mem
    have others : ∀ k, k ≠ task → (db.tasks.erase task).get k = db.tasks.get k := by
      intro k ne
      rw [Table.get_erase, if_neg ne]
    have active : (db.runs.keep fun r => r.taskId ≠ task).rows.filter (fun r => r.state.active) =
        db.runs.rows.filter fun r => r.state.active := by
      change (db.runs.rows.filter _).filter _ = _
      rw [List.filter_filter]
      refine List.filter_congr fun run mem => ?_
      cases state : run.state.active with
      | false => rfl
      | true => simp [quiet run mem state]
    have scopes : activeScopes probe { db with
        tasks := db.tasks.erase task, taskDue := db.taskDue.erase task
        runs := db.runs.keep fun r => r.taskId ≠ task } = activeScopes probe db := by
      unfold activeScopes
      dsimp only
      rw [active]
      refine List.map_congr_left fun run mem => runScopes_kept (others run.taskId ?_)
      obtain ⟨stored, on⟩ := List.mem_filter.mp mem
      exact quiet run stored on
    refine stuck_mono stuck due (fun row mem => ?_) (fun i mem => scopes.symm ▸ mem)
      (congrArg List.length scopes).ge
    exact request_kept (others row.taskId (Table.get_eq_none_iff.mp unowed row mem)) fun _ _ => rfl

theorem createSource_keeps (data : SourceFields) (time : Int)
    (unowed : db.owedFrom (nextId db.sources) = false) (stuck : db.Stuck limit probe now) :
    Db.Stuck limit probe now (db.orElse (createSource db data time)) := by
  unfold createSource
  split
  · exact stuck
  · exact sources_keep unowed (fun k ne => Table.get_put_ne (Ne.symm ne)) stuck

theorem updateSource_keeps (source : Nat) (data : SourceFields)
    (unowed : db.owedFrom source = false) (stuck : db.Stuck limit probe now) :
    Db.Stuck limit probe now (db.orElse (updateSource db source data)) := by
  unfold updateSource
  cases stored : db.sources.get source with
  | none => exact stuck
  | some s =>
    dsimp only
    split
    · exact stuck
    split
    · exact stuck
    have id : s.id = source := Table.key_of_get stored
    refine sources_keep unowed (fun k ne => Table.get_put_ne ?_) stuck
    exact fun same => ne (same.symm.trans id)

theorem deleteSource_keeps (source : Nat) (stuck : db.Stuck limit probe now) :
    (db.orElse (deleteSource db source)).Stuck limit probe now := by
  unfold deleteSource
  cases db.sources.get source with
  | none => exact stuck
  | some s =>
    dsimp only
    split
    · exact stuck
    rename_i unused
    have unowed : db.owedFrom source = false := by
      refine List.any_eq_false.mpr fun row mem owed => unused ?_
      obtain ⟨task, found, same⟩ := (Option.any_eq_true _ _).mp owed
      exact List.any_eq_true.mpr ⟨task, Table.mem_of_get found, same⟩
    refine sources_keep unowed (fun k ne => ?_) stuck
    rw [Table.get_erase, if_neg ne]

theorem sweep_same {owners : List Nat} {time : Int}
    (owned : db.runs.rows.any (orphaned owners time) = false) :
    sweepOrphanedRuns db owners time = db := by
  have rows : (sweepOrphanedRuns db owners time).runs.rows = db.runs.rows := by
    refine (List.map_congr_left fun run mem => ?_).trans (List.map_id _)
    rw [if_neg (by simpa using List.any_eq_false.mp owned run mem)]
    rfl
  have runs : (sweepOrphanedRuns db owners time).runs = db.runs := eq_of_rows rows
  calc sweepOrphanedRuns db owners time
      = { db with runs := (sweepOrphanedRuns db owners time).runs } := rfl
    _ = db := by rw [runs]

theorem sweep_harmless {owners : List Nat} {time : Int}
    (harmless : (Op.sweep owners time).harmless db = true) :
    sweepOrphanedRuns db owners time = db :=
  sweep_same (by simpa [Op.harmless, Op.silent] using harmless)

theorem harmless_keeps_stuck {env : Env} {op : Op} (linked : db.Linked)
    (harmless : op.harmless db = true) (stuck : db.Stuck limit probe now) :
    (apply env op db).Stuck limit probe now := by
  cases op with
  | runNow task stamp => exact runNow_keeps task stamp stuck
  | start run time => exact start_keeps run time stuck
  | createTask data time => exact createTask_keeps linked data time stuck
  | deleteTask task => exact deleteTask_keeps task (by simpa [Op.harmless, Op.silent] using harmless) stuck
  | createSource data time =>
    exact createSource_keeps data time (by simpa [Op.harmless, Op.silent] using harmless) stuck
  | updateSource source data =>
    exact updateSource_keeps source data (by simpa [Op.harmless, Op.silent] using harmless) stuck
  | deleteSource source => exact deleteSource_keeps source stuck
  | sweep owners time =>
    show (sweepOrphanedRuns db owners time).Stuck limit probe now
    rw [sweep_harmless harmless]
    exact stuck
  | reconcile | tick | settle | dispatch | finish | abandon | restart | updateTask =>
    simp [Op.harmless] at harmless

end Keeping

/-- A row that every settlement leaves as it is: its run is not over, or it waits for no payment
    and no marker. -/
structure TaskDue.Fixed (runs : List Run) (row : TaskDue) : Prop where
  attached : row.status = .dispatched →
    ∃ run ∈ runs, row.runId = some run.id ∧ run.state.active = true
  waiting : row.Open → Settleable runs row

/-- A settlement at the instant would leave every obligation as it is. -/
def Db.Settled (now : Int) (db : Db) : Prop :=
  ∀ row ∈ db.taskDue.rows, settledRow db now row = some row

instance (now : Int) (db : Db) : Decidable (db.Settled now) :=
  inferInstanceAs (Decidable (∀ row ∈ db.taskDue.rows, settledRow db now row = some row))

section Settling
variable {runs runs' : List Run} {row : TaskDue} {now later : Int} {db : Db}

theorem outcome_self_iff {run : Run} (dispatched : row.status = .dispatched) :
    applyRunOutcome row run now = some row ↔ run.state.active = true := by
  have stays : ∀ row', row'.status ≠ .dispatched → some row' ≠ some row := by
    intro row' other same
    exact other (Option.some.inj same ▸ dispatched)
  unfold applyRunOutcome
  cases state : run.state with
  | pending => simp
  | running => simp
  | cancelled => simp
  | success =>
    simp only [RunState.active, Bool.false_eq_true, iff_false]
    intro finished
    exact (finish_some finished).2.2.2.1 dispatched
  | failed =>
    simp only [RunState.active, Bool.false_eq_true, iff_false]
    refine stays _ fun here => ?_
    obtain ⟨-, -, -, status⟩ := failOutcome_keeps row run.errorMessage now
    split at status
    · rw [status] at here
      cases here
    · exact status.1 here

theorem settleRow_self_iff (unique : (runs.map Run.id).Nodup) :
    settleRow runs row now = some row ↔ row.Fixed runs := by
  cases status : row.status with
  | dispatched =>
    have settles : row.Fixed runs ↔
        ∃ run ∈ runs, row.runId = some run.id ∧ run.state.active = true :=
      ⟨fun fixed => fixed.attached status, fun there =>
        ⟨fun _ => there, fun isOpen => absurd status isOpen.1⟩⟩
    rw [settles]
    unfold settleRow
    rw [status]
    cases found : runOf runs row with
    | none =>
      refine iff_of_false (fun same => ?_) ?_
      · have moved := congrArg TaskDue.status (Option.some.inj same)
        rw [status] at moved
        cases moved
      · rintro ⟨run, mem, attached, -⟩
        exact absurd (runOf_attached unique mem attached) (by rw [found]; nofun)
    | some run =>
      dsimp only
      rw [outcome_self_iff status]
      constructor
      · intro active
        obtain ⟨mem, attached⟩ := runOf_some found
        exact ⟨run, mem, attached, active⟩
      · rintro ⟨other, mem, attached, active⟩
        obtain rfl := Option.some.inj (found.symm.trans (runOf_attached unique mem attached))
        exact active
  | blocked =>
    refine iff_of_true (settleRow_blocked status) ⟨fun here => ?_, fun isOpen => ?_⟩
    · rw [status] at here
      cases here
    · exact absurd status isOpen.2
  | due | retry | exhausted =>
    have isOpen : row.Open := by simp [TaskDue.Open, status]
    rw [settleRow_open_iff isOpen]
    exact ⟨fun settleable => ⟨fun here => absurd here isOpen.1, fun _ => settleable⟩,
      fun fixed => fixed.waiting isOpen⟩

theorem fixed_runs (fixed : row.Fixed runs)
    (active : ∀ run ∈ runs, run.state.active = true → ∃ run' ∈ runs',
      run'.id = run.id ∧ run'.taskId = run.taskId ∧ run'.state.active = true)
    (paid : ∀ run' ∈ runs', run'.state = .success → run' ∈ runs) : row.Fixed runs' := by
  refine ⟨fun dispatched => ?_, fun isOpen => ?_⟩
  · obtain ⟨run, mem, attached, on⟩ := fixed.attached dispatched
    obtain ⟨run', mem', id, -, on'⟩ := active run mem on
    exact ⟨run', mem', by rw [attached, id], on'⟩
  · obtain ⟨unpaid, marker⟩ := fixed.waiting isOpen
    refine ⟨fun run' mem owner success => unpaid run' (paid run' mem success) owner success, ?_⟩
    refine marker.imp_right fun busy idle => busy fun run mem owner => ?_
    by_contra on
    obtain ⟨run', mem', -, owner', on'⟩ := active run mem (by simpa using on)
    rw [idle run' mem' (owner'.trans owner)] at on'
    cases on'

/-- Whether the obligations are settled is seen task by task, and the clock does not matter. -/
theorem settled_iff_views (linked : db.Linked) : db.Settled now ↔
    ∀ a l, db.view a = some l → ∀ row, l.due = some row → row.Fixed l.runs := by
  have one : ∀ a l, db.view a = some l → ∀ row, l.due = some row →
      (settledRow db now row = some row ↔ row.Fixed l.runs) := by
    intro a l view row owed
    obtain ⟨runs, -, due, stored⟩ := view_runs view
    have wf := view_wf linked view
    have owner : row.taskId = a := wf.due row owed
    have attached : ∀ r ∈ db.runs.rows, row.runId = some r.id → r.taskId = a := by
      intro r mem here
      obtain ⟨run, mem', id⟩ := wf.attached row owed r.id here
      obtain ⟨there, owner'⟩ := (mem_view_runs view).mp mem'
      exact Table.key_injective there mem id ▸ owner'
    have scope : settleRow (db.runs.rows.filter (ownedBy a)) row now = settleRow db.runs.rows row now :=
      settleRow_filter (fun _ _ same _ => by simp [ownedBy, same, owner])
        (fun _ _ same _ _ => by simp [ownedBy, same, owner])
        (fun r mem here => by simp [ownedBy, attached r mem here]) now
    rw [← settleRow_self_iff wf.unique, runs, scope]
    simp [settledRow, owner, stored]
  constructor
  · intro settled a l view row owed
    refine (one a l view row owed).mp (settled row ?_)
    rw [(view_runs view).2.2.1] at owed
    exact Table.mem_of_get owed
  · intro views row mem
    obtain ⟨l, view, owed⟩ := view_of_row linked (Table.get_of_mem mem)
    exact (one _ l view row owed).mpr (views _ l view row owed)

theorem settled_later (linked : db.Linked) (settled : db.Settled now) : db.Settled later :=
  (settled_iff_views linked).mpr ((settled_iff_views linked).mp settled)

theorem settled_same (linked : db.Linked) (settled : db.Settled now) : settleAll db now = db := by
  obtain ⟨-, sources, tasks, runs, -⟩ := settleAll_spec linked now
  have due : (settleAll db now).taskDue = db.taskDue := by
    rw [table_ext, settleAll_rows, filterMap_eq_self_iff]
    exact settled
  calc settleAll db now
      = ⟨(settleAll db now).sources, (settleAll db now).tasks, (settleAll db now).runs,
          (settleAll db now).taskDue⟩ := rfl
    _ = db := by rw [sources, tasks, due, runs]

theorem harmless_keeps_settled {env : Env} {s t : Service} {op : Op} (linked : s.db.Linked)
    (step : Step env s op t) (harmless : op.harmless s.db = true) (settled : s.db.Settled now) :
    t.db.Settled now := by
  obtain ⟨linked', sees⟩ := apply_sees linked step
  rw [settled_iff_views linked] at settled
  rw [settled_iff_views linked']
  intro a l' view' row owed
  have seen := sees a
  rw [view'] at seen
  generalize before : s.db.view a = view at seen
  cases seen with
  | created time request => cases owed
  | @acts l l' effect =>
    have fixed := settled a l before
    have wf := view_wf linked before
    cases effect with
    | idle => exact fixed row owed
    | runNow quiet fresh started =>
      refine fixed_runs (fixed row owed) (fun run mem on => ?_) fun run' mem success => ?_
      · exact ⟨run, List.mem_append_left _ mem, rfl, rfl, on⟩
      · rcases List.mem_append.mp mem with old | new
        · exact old
        · obtain rfl := List.mem_singleton.mp new
          cases success
    | @start now l run time there pending =>
      refine fixed_runs (fixed row owed) (fun r mem on => ?_) fun run' mem success => ?_
      · by_cases same : r.id = run.id
        · obtain rfl := run_unique wf mem there same
          exact ⟨_, mem_swapRun_self mem rfl, rfl, rfl, rfl⟩
        · exact ⟨r, mem_swapRuns_of_ne mem same, rfl, rfl, on⟩
      · rcases mem_swapRuns mem with old | ⟨rfl, -⟩
        · exact old
        · cases success
    | @sweep owners now l time =>
      have same : t.db = s.db := by
        rw [step.2]
        exact sweep_harmless harmless
      rw [same, before] at view'
      rw [← Option.some.inj view'] at owed ⊢
      exact fixed row owed
    | _ => simp [Op.harmless] at harmless

theorem settled_starts_nothing {limit : Nat} {probe : Probe} (linked : db.Linked)
    (settled : db.Settled now) (stuck : db.Stuck limit probe now) (stamps : List Stamp) :
    (dispatchDue limit probe db now stamps).started = [] := by
  rw [dispatchDue_after, settled_same linked settled]
  obtain ⟨news, -, started, -, owners⟩ :=
    (after_simulates limit probe db now stamps (passRows db)).runs
  rw [show (greedyAfter limit probe db now (passRows db)).started = [] from stuck] at owners
  rw [started, List.map_eq_nil_iff.mp owners]
  rfl

end Settling

end Pullbackup
