import Pullbackup.Admission

/- Inductions over histories of the service, packaged once for one task's view,
   and what any effect does to the runs of a view. -/
namespace Pullbackup
open KeyedTable History

structure Ledger.Wf (a : Nat) (l : Ledger) : Prop where
  task : l.task.id = a
  owner : ∀ run ∈ l.runs, run.taskId = a
  unique : (l.runs.map Run.id).Nodup
  due : ∀ row, l.due = some row → row.taskId = a
  attached : ∀ row, l.due = some row → ∀ id, row.runId = some id → ∃ run ∈ l.runs, run.id = id

theorem view_wf {db : Db} (linked : db.Linked) {a : Nat} {l : Ledger} (view : db.view a = some l) :
    l.Wf a := by
  obtain ⟨runs, task, due, -⟩ := view_runs view
  constructor
  · exact task
  · intro run mem
    exact ((mem_view_runs view).mp mem).2
  · rw [runs]
    exact db.runs.unique.sublist (List.filter_sublist.map _)
  · intro row owed
    rw [due] at owed
    exact Table.key_of_get owed
  · intro row owed id here
    rw [due] at owed
    obtain ⟨run, found, owner⟩ := linked.attached row (Table.mem_of_get owed) id here
    have key : row.taskId = a := Table.key_of_get owed
    exact ⟨run, (mem_view_runs view).mpr ⟨Table.mem_of_get found, owner.trans key⟩,
      Table.key_of_get found⟩

theorem view_of_row {db : Db} (linked : db.Linked) {a : Nat} {row : TaskDue}
    (owed : db.taskDue.get a = some row) : ∃ l, db.view a = some l ∧ l.due = some row := by
  have stored := linked.owed row (Table.mem_of_get owed)
  rw [show row.taskId = a from Table.key_of_get owed] at stored
  obtain ⟨task, found⟩ := Option.isSome_iff_exists.mp stored
  refine ⟨{ task := task, due := some row, runs := db.runs.rows.filter (ownedBy a) }, ?_, rfl⟩
  rw [view_eq, found, owed]
  rfl

theorem follows_wf {a : Nat} {l l' : Ledger} (follows : Follows l l') (wf : l.Wf a) : l'.Wf a := by
  constructor
  · exact follows.task.trans wf.task
  · rw [follows.runs]
    exact wf.owner
  · rw [follows.runs]
    exact wf.unique
  · intro row' owed'
    rcases follows.due row' owed' with ⟨owner, -⟩ | ⟨row, owed, owner, -⟩
    · exact owner.trans wf.task
    · exact owner.trans (wf.due row owed)
  · intro row' owed' id attached
    rw [follows.runs]
    rcases follows.due row' owed' with ⟨-, detached⟩ | ⟨row, owed, -, detached | same⟩
    · rw [detached] at attached
      cases attached
    · rw [detached] at attached
      cases attached
    · exact wf.attached row owed id (same.symm.trans attached)

theorem mapRuns_wf {a : Nat} {l : Ledger} (wf : l.Wf a) {f : Run → Run}
    (id : ∀ run, (f run).id = run.id) (owner : ∀ run ∈ l.runs, (f run).taskId = run.taskId) :
    Ledger.Wf a { l with runs := l.runs.map f } := by
  refine ⟨wf.task, ?_, ?_, wf.due, ?_⟩
  · intro run mem
    obtain ⟨old, here, rfl⟩ := List.mem_map.mp mem
    exact (owner old here).trans (wf.owner old here)
  · have same : (l.runs.map f).map Run.id = l.runs.map Run.id := by
      rw [List.map_map]
      exact List.map_congr_left fun run _ => id run
    show ((l.runs.map f).map Run.id).Nodup
    rw [same]
    exact wf.unique
  · intro row owed i attached
    obtain ⟨run, mem, same⟩ := wf.attached row owed i attached
    exact ⟨f run, List.mem_map_of_mem mem, (id run).trans same⟩

theorem run_unique {a : Nat} {l : Ledger} (wf : l.Wf a) {r s : Run} (mr : r ∈ l.runs)
    (ms : s ∈ l.runs) (same : r.id = s.id) : r = s :=
  List.inj_on_of_nodup_map wf.unique mr ms same

theorem linked_trace {env : Env} {s t : Service} {ops : List Op} (trace : Trace (Step env) s ops t)
    (linked : s.db.Linked) : t.db.Linked :=
  trace_invariant (fun s => s.db.Linked) (fun _ _ _ linked step => (apply_sees linked step).1)
    trace linked

theorem reachable_linked {env : Env} {s : Service} (reachable : Reachable env s) : s.db.Linked := by
  obtain ⟨clock, ops, trace⟩ := reachable
  exact linked_trace trace empty_linked

theorem reachable_step {env : Env} {s t : Service} {op : Op} (reachable : Reachable env s)
    (step : Step env s op t) : Reachable env t := by
  obtain ⟨clock, ops, trace⟩ := reachable
  exact ⟨clock, _, Trace.snoc trace step⟩

theorem reachable_trace {env : Env} {s t : Service} {ops : List Op} (reachable : Reachable env s)
    (trace : Trace (Step env) s ops t) : Reachable env t := by
  obtain ⟨clock, before, start⟩ := reachable
  exact ⟨clock, _, trace_append start trace⟩

/-- A fact about the steps of reachable states is a fact about every history. -/
theorem trace_refine {env : Env} {r r' : Service → Op → Service → Prop}
    (steps : ∀ s op t, r s op t → Step env s op t)
    (refines : ∀ s op t, Reachable env s → r s op t → r' s op t) {s t : Service} {ops : List Op}
    (reachable : Reachable env s) (trace : Trace r s ops t) : Trace r' s ops t := by
  induction trace with
  | nil => exact Trace.nil
  | snoc before last ih =>
    exact Trace.snoc ih
      (refines _ _ _ (reachable_trace reachable (trace_mono steps before)) last)

/-- What new tasks satisfy and effects keep holds of every view ever reached. -/
theorem reachable_view {env : Env} {a : Nat} (inv : Int → Ledger → Prop)
    (fresh : ∀ c l, l.due = none → l.runs = [] → inv c l)
    (keeps : ∀ lo hi op l l', lo ≤ hi → l.Wf a → inv lo l → Effect env a lo hi op l l' → inv hi l')
    {s : Service} (reachable : Reachable env s) {l : Ledger} (view : s.db.view a = some l) :
    inv s.clock l := by
  obtain ⟨clock, ops, trace⟩ := reachable
  have all : s.db.Linked ∧ ∀ l, s.db.view a = some l → inv s.clock l := by
    refine trace_invariant
      (fun s : Service => s.db.Linked ∧ ∀ l, s.db.view a = some l → inv s.clock l) ?_ trace
      ⟨empty_linked, ?_⟩
    · intro s op t holds step
      obtain ⟨linked, views⟩ := apply_sees holds.1 step
      refine ⟨linked, fun l' view' => ?_⟩
      have seen := views a
      rw [view'] at seen
      generalize before : s.db.view a = v at seen
      cases seen with
      | created time request => exact fresh _ _ rfl rfl
      | acts effect =>
        exact keeps _ _ _ _ _ (clock_le step) (view_wf holds.1 before) (holds.2 _ before) effect
    · intro l view
      simp [view_eq, Service.init, Db.empty] at view
  exact all.2 l view

/-- The same for a history from a given state in which the task is not deleted; allow is what
    the history may contain. -/
theorem trace_view {env : Env} {a : Nat} (allow : Service → Op → Prop)
    (inv : Int → Ledger → Prop)
    (stays : ∀ s op, allow s op → op ≠ .deleteTask a)
    (keeps : ∀ s op t l l', allow s op → Step env s op t → s.db.view a = some l → l.Wf a →
      inv s.clock l → Effect env a s.clock t.clock op l l' → inv t.clock l')
    {s t : Service} {ops : List Op}
    (trace : Trace (fun s op t => Step env s op t ∧ allow s op) s ops t)
    (linked : s.db.Linked) {l : Ledger} (view : s.db.view a = some l) (start : inv s.clock l) :
    ∃ l', t.db.view a = some l' ∧ inv t.clock l' ∧ t.db.Linked := by
  induction trace with
  | nil => exact ⟨l, view, start, linked⟩
  | @snoc m u as op before last ih =>
    obtain ⟨l', view', holds, linked'⟩ := ih
    obtain ⟨step, allowed⟩ := last
    obtain ⟨linked'', views⟩ := apply_sees linked' step
    have seen := views a
    rw [view'] at seen
    generalize after : u.db.view a = v at seen
    cases seen with
    | deleted request quiet => exact absurd request (stays _ _ allowed)
    | acts effect =>
      exact ⟨_, rfl, keeps _ _ _ _ _ allowed step view' (view_wf linked' view') holds effect,
        linked''⟩

section Ticks
variable {s : Service} {a : Nat} {l : Ledger}

theorem reconcile_view (env : Env) (linked : s.db.Linked) (view : s.db.view a = some l)
    (now : Int) :
    (s.next env (.reconcile a now)).db.view a = some (reconcileOne env.trig l now) := by
  obtain ⟨m, found, rfl⟩ := Option.map_eq_some_iff.mp view
  show (s.db.onLedger a fun l => reconcileOne env.trig l now).view a = _
  rw [onLedger_view (f := fun l => reconcileOne env.trig l now) found
    (reconcileOne_follows env.trig m now) linked, if_pos rfl,
    reconcileOne_own (ledger_linked linked found)]

theorem tick_view (env : Env) (linked : s.db.Linked) (view : s.db.view a = some l) (now : Int) :
    (s.next env (.tick a now)).db.view a = some (recordTick env.trig l now) := by
  obtain ⟨m, found, rfl⟩ := Option.map_eq_some_iff.mp view
  show (s.db.onLedger a fun l => recordTick env.trig l now).view a = _
  rw [onLedger_view (f := fun l => recordTick env.trig l now) found
    (recordTick_follows env.trig m now) linked, if_pos rfl,
    recordTick_own (ledger_linked linked found)]

end Ticks

theorem swap_wf {a : Nat} {l : Ledger} (wf : l.Wf a) {run new : Run} (mem : run ∈ l.runs)
    (id : new.id = run.id) (owner : new.taskId = run.taskId) :
    Ledger.Wf a { l with runs := l.runs.map (swapRun new) } := by
  refine mapRuns_wf wf (swapRun_id new) ?_
  intro r here
  unfold swapRun
  split
  · rename_i same
    rw [owner, run_unique wf here mem (same.trans id)]
  · rfl

theorem endRun_of_none {l : Ledger} (none : l.due = none) (run : Run) (now : Int) :
    l.endRun run now = { l with runs := l.runs.map (swapRun run) } := by
  obtain ⟨task, due, runs⟩ := l
  simp only at none
  subst none
  rfl

theorem endRun_of_other {l : Ledger} {row : TaskDue} {run : Run} (owed : l.due = some row)
    (other : row.runId ≠ some run.id) (now : Int) :
    l.endRun run now = { l with runs := l.runs.map (swapRun run) } := by
  obtain ⟨task, due, runs⟩ := l
  simp only at owed
  subst owed
  simp [Ledger.endRun, other]

theorem endRun_of_attached {l : Ledger} {row : TaskDue} {run : Run} (owed : l.due = some row)
    (attached : row.runId = some run.id) (now : Int) :
    l.endRun run now =
      { l with runs := l.runs.map (swapRun run), due := applyRunOutcome row run now } := by
  simp [Ledger.endRun, owed, attached]

theorem mem_swapRun_self {runs : List Run} {run new : Run} (mem : run ∈ runs)
    (id : new.id = run.id) : new ∈ runs.map (swapRun new) :=
  List.mem_map.mpr ⟨run, mem, by simp [swapRun, id]⟩

section Runs
variable {env : Env} {a : Nat} {lo hi : Int} {op : Op} {l l' : Ledger}

theorem mem_swapRuns {runs : List Run} {new r' : Run} (mem : r' ∈ runs.map (swapRun new)) :
    r' ∈ runs ∨ r' = new ∧ ∃ r ∈ runs, r.id = new.id := by
  obtain ⟨r, old, rfl⟩ := List.mem_map.mp mem
  unfold swapRun
  split
  · rename_i same
    exact Or.inr ⟨rfl, r, old, same⟩
  · exact Or.inl old

theorem mem_swapRuns_of_ne {runs : List Run} {new r : Run} (mem : r ∈ runs) (ne : r.id ≠ new.id) :
    r ∈ runs.map (swapRun new) := by
  refine List.mem_map.mpr ⟨r, mem, ?_⟩
  simp [swapRun, ne]

def Op.admits : Op → Bool
  | .dispatch _ _ _ | .runNow _ _ => true
  | _ => false

/-- What an effect does to a run that is there already. -/
inductive Turned (lo hi : Int) (run run' : Run) : Prop where
  | kept (same : run' = run)
  | started (pending : run.state = .pending) (id : run'.id = run.id) (running : run'.state = .running)
      (time : lo ≤ run'.startedAt ∧ run'.startedAt ≤ hi) (finish : run'.finishedAt = run.finishedAt)
  | ended (active : run.state.active = true) (id : run'.id = run.id)
      (inactive : run'.state.active = false) (start : run'.startedAt = run.startedAt)
      (finish : ∃ t, run'.finishedAt = some t ∧ lo ≤ t ∧ t ≤ hi)

theorem turned_id {run run' : Run} (turned : Turned lo hi run run') : run'.id = run.id := by
  cases turned with
  | kept same => rw [same]
  | started pending id running time finish => exact id
  | ended active id inactive start finish => exact id

/-- All that an effect does to the runs of a view. -/
inductive RunsAfter (lo hi : Int) (op : Op) (l : Ledger) : List Run → Prop where
  | same : RunsAfter lo hi op l l.runs
  | admitted {new : Run} (request : op.admits = true) (quiet : l.Idle) (pending : new.state = .pending)
      (fresh : ∀ r ∈ l.runs, r.id ≠ new.id) (time : lo ≤ new.startedAt ∧ new.startedAt ≤ hi)
      (unfinished : new.finishedAt = none) : RunsAfter lo hi op l (l.runs ++ [new])
  | turned {f : Run → Run} (each : ∀ run ∈ l.runs, ∃ before ∈ l.runs, before.id = run.id ∧
      Turned lo hi before (f run)) : RunsAfter lo hi op l (l.runs.map f)

theorem runsAfter_swap {run new : Run} (mem : run ∈ l.runs) (turned : Turned lo hi run new) :
    RunsAfter lo hi op l (l.runs.map (swapRun new)) := by
  refine .turned fun r here => ?_
  unfold swapRun
  split
  · rename_i same
    exact ⟨run, mem, (turned_id turned).symm.trans same.symm, turned⟩
  · exact ⟨r, here, rfl, .kept rfl⟩

theorem terminal_ended (run : Run) (ending : Ending) (requested : Bool) (stats : Stats) (now : Int) :
    (run.terminal ending requested stats now).state.active = false := by
  cases ending with
  | exited code =>
    simp only [Run.terminal, Ending.state]
    split <;> rfl
  | cancelled =>
    simp only [Run.terminal, Ending.state]
    split <;> rfl
  | timedOut after => rfl

theorem effect_runs (effect : Effect env a lo hi op l l') : RunsAfter lo hi op l l'.runs := by
  cases effect with
  | idle => exact .same
  | reconcile time =>
    rw [(reconcileOne_follows env.trig l _).runs]
    exact .same
  | tick time =>
    rw [(recordTick_follows env.trig l _).runs]
    exact .same
  | settle time => exact .same
  | pass time => exact .same
  | drop time owed other disabled => exact .same
  | wait time owed ready => exact .same
  | launch time owed ready enabled quiet fresh started =>
    exact .admitted rfl quiet rfl fresh ⟨time.1.trans started.1, started.2⟩ rfl
  | runNow quiet fresh started => exact .admitted rfl quiet rfl fresh started rfl
  | start time here pending => exact runsAfter_swap here (.started pending rfl rfl time rfl)
  | finish time here running =>
    exact runsAfter_swap here (.ended (by simp [running]) rfl (terminal_ended _ _ _ _ _) rfl
      ⟨_, rfl, time⟩)
  | abandon time here active failed =>
    refine runsAfter_swap here ?_
    rcases failed with rfl | ⟨-, rfl⟩ <;> exact .ended active rfl rfl rfl ⟨_, rfl, time⟩
  | @sweep owners now l time =>
    refine .turned fun r here => ⟨r, here, rfl, ?_⟩
    split
    · rename_i lost
      simp only [orphaned, Bool.and_eq_true] at lost
      exact .ended lost.1.1 rfl rfl rfl ⟨now, rfl, time⟩
    · exact .kept rfl
  | @restart now l time =>
    refine .turned fun r here => ⟨r, here, rfl, ?_⟩
    split
    · rename_i active
      exact .ended active rfl rfl rfl ⟨now, rfl, time⟩
    · exact .kept rfl
  | update time allowed =>
    rw [(editLedger_follows _ _ l).runs]
    exact .same

theorem effect_ended (wf : l.Wf a) (effect : Effect env a lo hi op l l') {run : Run}
    (mem : run ∈ l.runs) (ended : run.state.active = false) : run ∈ l'.runs := by
  have after : RunsAfter lo hi op l l'.runs := effect_runs effect
  generalize l'.runs = runs at after ⊢
  cases after with
  | same => exact mem
  | admitted request quiet pending fresh time unfinished => exact List.mem_append_left _ mem
  | turned each =>
    refine List.mem_map.mpr ⟨run, mem, ?_⟩
    obtain ⟨before, here, id, turned⟩ := each run mem
    obtain rfl := run_unique wf here mem id
    cases turned with
    | kept same => exact same
    | started pending id running time finish => simp [pending] at ended
    | ended active id inactive start finish =>
      rw [active] at ended
      cases ended

theorem effect_keeps (effect : Effect env a lo hi op l l') {run : Run} (mem : run ∈ l.runs) :
    ∃ run' ∈ l'.runs, run'.id = run.id := by
  have after : RunsAfter lo hi op l l'.runs := effect_runs effect
  generalize l'.runs = runs at after ⊢
  cases after with
  | same => exact ⟨run, mem, rfl⟩
  | admitted request quiet pending fresh time unfinished => exact ⟨run, List.mem_append_left _ mem, rfl⟩
  | turned each =>
    obtain ⟨before, here, id, turned⟩ := each run mem
    exact ⟨_, List.mem_map_of_mem mem, (turned_id turned).trans id⟩

/-- Where a run of the view after an effect comes from. -/
inductive Origin (lo hi : Int) (op : Op) (l : Ledger) (run : Run) : Prop where
  | old (mem : run ∈ l.runs)
  | admitted (request : op.admits = true) (pending : run.state = .pending)
      (fresh : ∀ r ∈ l.runs, r.id ≠ run.id) (time : lo ≤ run.startedAt ∧ run.startedAt ≤ hi)
  | started {before : Run} (mem : before ∈ l.runs) (pending : before.state = .pending)
      (id : run.id = before.id) (running : run.state = .running)
      (time : lo ≤ run.startedAt ∧ run.startedAt ≤ hi)
  | ended {before : Run} (mem : before ∈ l.runs) (active : before.state.active = true)
      (id : run.id = before.id) (inactive : run.state.active = false)
      (start : run.startedAt = before.startedAt)

theorem effect_origin (effect : Effect env a lo hi op l l') {run : Run} (mem : run ∈ l'.runs) :
    Origin lo hi op l run := by
  have after : RunsAfter lo hi op l l'.runs := effect_runs effect
  generalize l'.runs = runs at after mem
  cases after with
  | same => exact .old mem
  | admitted request quiet pending fresh time unfinished =>
    rcases List.mem_append.mp mem with old | new
    · exact .old old
    · obtain rfl := List.mem_singleton.mp new
      exact .admitted request pending fresh time
  | turned each =>
    obtain ⟨r, old, rfl⟩ := List.mem_map.mp mem
    obtain ⟨before, here, -, turned⟩ := each r old
    cases turned with
    | kept same => exact .old (same ▸ here)
    | started pending id running time finish => exact .started here pending id running time
    | ended active id inactive start finish => exact .ended here active id inactive start

/-- The run is over, and was so at the instant. -/
def Run.OverBy (run : Run) (t : Int) : Prop :=
  run.state.active = false ∧ ∀ ended, run.finishedAt = some ended → ended ≤ t

/-- The runs of a task, one after the other. -/
structure InTurn (c : Int) (runs : List Run) : Prop where
  begun : ∀ run ∈ runs, run.startedAt ≤ c
  finished : ∀ run ∈ runs, ∀ ended, run.finishedAt = some ended → ended ≤ c
  stamped : ∀ run ∈ runs, run.state.active = false →
    ∃ ended, run.finishedAt = some ended ∧ run.startedAt ≤ ended
  apart : ∀ r ∈ runs, ∀ s ∈ runs, r.id ≠ s.id → r.OverBy s.startedAt ∨ s.OverBy r.startedAt

theorem inTurn_later {runs : List Run} (inTurn : InTurn lo runs) (order : lo ≤ hi) :
    InTurn hi runs := by
  refine ⟨fun run mem => (inTurn.begun run mem).trans order, ?_, inTurn.stamped, inTurn.apart⟩
  exact fun run mem ended finish => (inTurn.finished run mem ended finish).trans order

theorem overBy_turned {r r' s s' : Run} (done : r.OverBy s.startedAt)
    (past : ∀ ended, r.finishedAt = some ended → ended ≤ lo) (turned : Turned lo hi r r')
    (turned' : Turned lo hi s s') : r'.OverBy s'.startedAt := by
  have same : r' = r := by
    cases turned with
    | kept same => exact same
    | started pending id running time finish => simp [pending, Run.OverBy] at done
    | ended active id inactive start finish =>
      rw [Run.OverBy, active] at done
      cases done.1
  rw [same]
  refine ⟨done.1, fun ended finish => ?_⟩
  cases turned' with
  | kept same' => exact same' ▸ done.2 ended finish
  | started pending id running time finish' => exact (past ended finish).trans time.1
  | ended active id inactive start finish' => exact start ▸ done.2 ended finish

theorem inTurn_admitted {runs : List Run} {new : Run} (inTurn : InTurn lo runs) (order : lo ≤ hi)
    (quiet : ∀ run ∈ runs, run.state.active = false) (pending : new.state = .pending)
    (time : lo ≤ new.startedAt ∧ new.startedAt ≤ hi) (unfinished : new.finishedAt = none) :
    InTurn hi (runs ++ [new]) := by
  have older := inTurn_later inTurn order
  have before : ∀ run ∈ runs, run.OverBy new.startedAt := fun run mem =>
    ⟨quiet run mem, fun ended finish => (inTurn.finished run mem ended finish).trans time.1⟩
  constructor
  · intro run mem
    rcases List.mem_append.mp mem with old | single
    · exact older.begun run old
    · obtain rfl := List.mem_singleton.mp single
      exact time.2
  · intro run mem ended finish
    rcases List.mem_append.mp mem with old | single
    · exact older.finished run old ended finish
    · obtain rfl := List.mem_singleton.mp single
      rw [unfinished] at finish
      cases finish
  · intro run mem inactive
    rcases List.mem_append.mp mem with old | single
    · exact inTurn.stamped run old inactive
    · obtain rfl := List.mem_singleton.mp single
      simp [pending] at inactive
  · intro r mr s ms other
    rcases List.mem_append.mp mr with oldR | single
    · rcases List.mem_append.mp ms with oldS | single'
      · exact inTurn.apart r oldR s oldS other
      · obtain rfl := List.mem_singleton.mp single'
        exact Or.inl (before r oldR)
    · obtain rfl := List.mem_singleton.mp single
      rcases List.mem_append.mp ms with oldS | single'
      · exact Or.inr (before s oldS)
      · obtain rfl := List.mem_singleton.mp single'
        exact absurd rfl other

theorem inTurn_turned {runs : List Run} {f : Run → Run} (inTurn : InTurn lo runs) (order : lo ≤ hi)
    (each : ∀ run ∈ runs, ∃ before ∈ runs, before.id = run.id ∧ Turned lo hi before (f run)) :
    InTurn hi (runs.map f) := by
  have older := inTurn_later inTurn order
  have origin : ∀ run' ∈ runs.map f, ∃ run ∈ runs, Turned lo hi run run' := by
    intro run' mem
    obtain ⟨run, here, rfl⟩ := List.mem_map.mp mem
    obtain ⟨before, there, -, turned⟩ := each run here
    exact ⟨before, there, turned⟩
  constructor
  · intro run' mem
    obtain ⟨run, here, turned⟩ := origin run' mem
    cases turned with
    | kept same => exact same ▸ older.begun run here
    | started pending id running time finish => exact time.2
    | ended active id inactive start finish => exact start ▸ older.begun run here
  · intro run' mem ended finish
    obtain ⟨run, here, turned⟩ := origin run' mem
    cases turned with
    | kept same => exact older.finished run here ended (same ▸ finish)
    | started pending id running time finish' =>
      exact older.finished run here ended (finish'.symm.trans finish)
    | ended active id inactive start finish' =>
      obtain ⟨t, stamped, bounds⟩ := finish'
      obtain rfl := Option.some.inj (stamped.symm.trans finish)
      exact bounds.2
  · intro run' mem inactive
    obtain ⟨run, here, turned⟩ := origin run' mem
    cases turned with
    | kept same =>
      subst same
      exact inTurn.stamped _ here inactive
    | started pending id running time finish => simp [running] at inactive
    | ended active id _ start finish =>
      obtain ⟨t, stamped, bounds⟩ := finish
      exact ⟨t, stamped, start ▸ (inTurn.begun run here).trans bounds.1⟩
  · intro r' mr s' ms other
    obtain ⟨r, hereR, turnedR⟩ := origin r' mr
    obtain ⟨s, hereS, turnedS⟩ := origin s' ms
    rw [turned_id turnedR, turned_id turnedS] at other
    rcases inTurn.apart r hereR s hereS other with before | after
    · exact Or.inl (overBy_turned before (inTurn.finished r hereR) turnedR turnedS)
    · exact Or.inr (overBy_turned after (inTurn.finished s hereS) turnedS turnedR)

theorem reachable_inTurn {s : Service} (reachable : Reachable env s) (view : s.db.view a = some l) :
    InTurn s.clock l.runs := by
  refine reachable_view (fun c l => InTurn c l.runs) ?_ ?_ reachable view
  · intro c l _ bare
    rw [bare]
    exact ⟨by simp, by simp, by simp, by simp⟩
  · intro lo hi op l l' order _ inTurn effect
    have after : RunsAfter lo hi op l l'.runs := effect_runs effect
    generalize l'.runs = runs at after
    cases after with
    | same => exact inTurn_later inTurn order
    | admitted request quiet pending fresh time unfinished =>
      exact inTurn_admitted inTurn order quiet pending time unfinished
    | turned each => exact inTurn_turned inTurn order each

end Runs

end Pullbackup
