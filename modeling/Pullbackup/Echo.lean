import Pullbackup.Cancellation

/- One occurrence of a schedule, as the early tick, the scans and the late echoes of its
   callback all describe it, and the runs that are started for it. -/
namespace Pullbackup
open KeyedTable History

/-- Ticks and scans of the task come in the interval of the occurrence, its runs succeed, and
    nothing else is done to it. -/
def Attends (a : Nat) (o successor : Int) (s : Service) : Op → Prop
  | .tick task now | .reconcile task now =>
    task = a → o - tickEarlyTolerance ≤ now ∧ now < successor - tickEarlyTolerance
  | .runNow task _ | .updateTask task _ _ | .deleteTask task => task ≠ a
  | .finish run ending _ _ _ =>
    ∀ r, s.db.runs.get run = some r → r.taskId = a → ending = .exited 0
  | .abandon run _ _ _ => ∀ r, s.db.runs.get run = some r → r.taskId ≠ a
  | .sweep owners now => ∀ r ∈ s.db.runs.rows, r.taskId = a → orphaned owners now r = false
  | .restart _ => ∀ r ∈ s.db.runs.rows, r.taskId = a → r.state.active = false
  | .settle _ | .dispatch _ _ _ | .start _ _ | .createTask _ _ | .createSource _ _
  | .updateSource _ _ | .deleteSource _ => True

instance decidableAttends (a : Nat) (o successor : Int) (s : Service) :
    ∀ op, Decidable (Attends a o successor s op)
  | .tick task now | .reconcile task now =>
    inferInstanceAs (Decidable (task = a → o - tickEarlyTolerance ≤ now ∧
      now < successor - tickEarlyTolerance))
  | .runNow task _ | .updateTask task _ _ | .deleteTask task => inferInstanceAs (Decidable (task ≠ a))
  | .finish run ending _ _ _ =>
    inferInstanceAs (Decidable (∀ r, s.db.runs.get run = some r → r.taskId = a → ending = .exited 0))
  | .abandon run _ _ _ =>
    inferInstanceAs (Decidable (∀ r, s.db.runs.get run = some r → r.taskId ≠ a))
  | .sweep owners now =>
    inferInstanceAs (Decidable (∀ r ∈ s.db.runs.rows, r.taskId = a → orphaned owners now r = false))
  | .restart _ =>
    inferInstanceAs (Decidable (∀ r ∈ s.db.runs.rows, r.taskId = a → r.state.active = false))
  | .settle _ | .dispatch _ _ _ | .start _ _ | .createTask _ _ | .createSource _ _
  | .updateSource _ _ | .deleteSource _ => inferInstanceAs (Decidable True)

def startedSince (before after : Db) (a : Nat) : List Run :=
  (after.runs.rows.filter (ownedBy a)).filter fun r =>
    !(before.runs.rows.filter (ownedBy a)).any fun old => old.id = r.id

/-- A tick of a task that owes nothing, after a run for the occurrence that started before it. -/
def Echoes (a : Nat) (o : Int) (before : Db) (s : Service) : Op → Prop
  | .tick task _ =>
    task = a ∧ s.db.taskDue.get a = none ∧ ∃ run ∈ startedSince before s.db a, run.startedAt < o
  | _ => False

instance decidableEchoes (a : Nat) (o : Int) (before : Db) (s : Service) :
    ∀ op, Decidable (Echoes a o before s op)
  | .tick task _ =>
    inferInstanceAs (Decidable (task = a ∧ s.db.taskDue.get a = none ∧
      ∃ run ∈ startedSince before s.db a, run.startedAt < o))
  | .reconcile _ _ | .settle _ | .dispatch _ _ _ | .runNow _ _ | .start _ _ | .finish _ _ _ _ _
  | .abandon _ _ _ _ | .sweep _ _ | .restart _ | .createTask _ _ | .updateTask _ _ _
  | .deleteTask _ | .createSource _ _ | .updateSource _ _ | .deleteSource _ =>
    inferInstanceAs (Decidable False)

/-- The watermark is at the occurrence or past it, and its successor comes next. -/
structure Ledger.Marked (trig : Trigger) (o successor : Int) (l : Ledger) (w : Int) : Prop where
  stored : l.task.scheduleBaselineAt = some w
  reached : o ≤ w
  next : nextOccurrence trig l.task.cron w = some successor

structure Ledger.Added (before l : Ledger) (olds : List Run) (run : Run) : Prop where
  runs : l.runs = olds ++ [run]
  same : olds.map Run.id = before.runs.map Run.id
  ended : ∀ old ∈ olds, old.state.active = false
  newest : ∀ old ∈ olds, old.startedAt ≤ run.startedAt

/-- How far the occurrence has come, since the ledger before it: the watermark is before it; the
    watermark has taken it and at most an obligation waits; its run is active; or the run has
    paid it. -/
inductive Coming (trig : Trigger) (o successor : Int) (before : Ledger) (c : Int) (l : Ledger) :
    Prop where
  | ahead (bare : l.due = none) (next : nextOccurrence trig l.task.cron l.baseline = some o)
      (fixed : l.task.scheduleBaselineAt = none → l.Idle)
      (same : l.runs.map Run.id = before.runs.map Run.id)
  | waiting {w : Int} (marked : l.Marked trig o successor w) (past : w = o ∨ w ≤ c)
      (due : ∀ row, l.due = some row →
        row.status = .due ∧ row.newerDueAt = none ∧ row.runId = none)
      (same : l.runs.map Run.id = before.runs.map Run.id)
  | taken {w : Int} {row : TaskDue} {olds : List Run} {run : Run}
      (marked : l.Marked trig o successor w) (past : w = o ∨ w ≤ c ∧ w ≤ run.startedAt)
      (due : l.due = some row) (status : row.status = .dispatched) (marker : row.newerDueAt = none)
      (attached : row.runId = some run.id) (added : before.Added l olds run)
      (active : run.state.active = true)
  | paid {w : Int} {olds : List Run} {run : Run} (marked : l.Marked trig o successor w)
      (past : w = o ∨ w ≤ run.startedAt) (bare : l.due = none) (added : before.Added l olds run)
      (ended : run.state.active = false)

theorem Ledger.Added.mem {before l : Ledger} {olds : List Run} {run : Run}
    (added : before.Added l olds run) : run ∈ l.runs := by
  simp [added.runs]

theorem Ledger.Added.of_runs {before l l' : Ledger} {olds : List Run} {run : Run}
    (added : before.Added l olds run) (runs : l'.runs = l.runs) : before.Added l' olds run :=
  ⟨runs.trans added.runs, added.same, added.ended, added.newest⟩

section Stages
variable {trig : Trigger} {o successor c now : Int} {before l : Ledger} {w : Int}

theorem settle_attached {row : TaskDue} {run : Run} (unique : (l.runs.map Run.id).Nodup)
    (mem : run ∈ l.runs) (due : l.due = some row) (status : row.status = .dispatched)
    (attached : row.runId = some run.id) (active : run.state.active = true) (now : Int) :
    l.settle now = l := by
  have found : runOf l.runs row = some run := runOf_attached unique mem attached
  have kept : settleRow l.runs row now = some row := by
    unfold settleRow
    simp only [status, found]
    unfold applyRunOutcome
    cases state : run.state <;> simp_all [RunState.active]
  unfold Ledger.settle
  rw [due, Option.bind_some, kept, ← due]

theorem settle_coming (coming : Coming trig o successor before c l)
    (unique : (l.runs.map Run.id).Nodup) (now : Int) : Coming trig o successor before c (l.settle now) := by
  cases coming with
  | ahead bare next fixed same =>
    rw [settle_of_none bare]
    exact .ahead bare next fixed same
  | waiting marked past due same =>
    refine .waiting ⟨marked.stored, marked.reached, marked.next⟩ past (fun row owed => ?_) same
    obtain ⟨old, here, settled⟩ := Option.bind_eq_some_iff.mp owed
    obtain ⟨status, marker, detached⟩ := due old here
    unfold settleRow at settled
    simp only [status, marker] at settled
    split at settled
    · cases settled
    · simp only [ne_eq, not_true_eq_false, false_and, if_false, Option.some.injEq] at settled
      exact settled ▸ ⟨status, marker, detached⟩
  | taken marked past due status marker attached added active =>
    rw [settle_attached unique added.mem due status attached active]
    exact .taken marked past due status marker attached added active
  | paid marked past bare added ended =>
    rw [settle_of_none bare]
    exact .paid marked past bare added ended

theorem marked_baseline (marked : l.Marked trig o successor w) : l.baseline = w :=
  baseline_some marked.stored

theorem scan_marked (marked : l.Marked trig o successor w) (early : now < successor) :
    l.owes trig now = none ∧ l.scan trig now = l := by
  have quiet : l.owes trig now = none := by
    rw [Ledger.owes, marked_baseline marked, marked.next]
    simp [Option.filter, early]
  refine ⟨quiet, ?_⟩
  rw [Ledger.scan, quiet, keep_eq, marked_baseline marked]
  simp [marked.stored]

theorem scan_ahead (bare : l.due = none) (next : nextOccurrence trig l.task.cron l.baseline = some o)
    (after : nextOccurrence trig l.task.cron o = some successor) (early : now < successor) :
    now < o ∧ l.scan trig now = l.keep ∨
    o ≤ now ∧ l.scan trig now =
      { l with
        task := { l.task with scheduleBaselineAt := some o }
        due := some { taskId := l.task.id, dueAt := o, status := .due, updatedAt := now } } := by
  by_cases late : now < o
  · left
    have quiet : l.owes trig now = none := by
      rw [Ledger.owes, next]
      simp [Option.filter, late]
    exact ⟨late, by rw [Ledger.scan, quiet]⟩
  · right
    have owed : l.owes trig now = some o := by
      rw [Ledger.owes, next]
      simp [Option.filter, not_lt.mp late]
    have latest : latestOccurrence trig l.task.cron o now = o := by
      show Schedule.walk _ _ (19999 + 1) _ = o
      rw [Schedule.walk, after]
      exact if_pos early
    refine ⟨not_lt.mp late, ?_⟩
    rw [Ledger.scan, owed]
    dsimp only
    rw [fold_eq, latest, foldRow, bare]

theorem keep_ahead (bare : l.due = none) (next : nextOccurrence trig l.task.cron l.baseline = some o)
    (same : l.runs.map Run.id = before.runs.map Run.id) :
    Coming trig o successor before c l.keep := by
  obtain ⟨stored, level⟩ := keep_baseline l
  exact .ahead bare (by rw [(keep_task l).1, level]; exact next) (by simp [stored]) same

theorem scan_coming (coming : Coming trig o successor before c l)
    (after : nextOccurrence trig l.task.cron o = some successor) (early : now < successor) :
    Coming trig o successor before c (l.scan trig now) := by
  cases coming with
  | ahead bare next fixed same =>
    rcases scan_ahead bare next after early with ⟨-, kept⟩ | ⟨-, folded⟩
    · rw [kept]
      exact keep_ahead bare next same
    · rw [folded]
      refine .waiting ⟨rfl, le_refl o, after⟩ (Or.inl rfl) (fun row owed => ?_) same
      rw [← Option.some.inj owed]
      exact ⟨rfl, rfl, rfl⟩
  | waiting marked past due same =>
    rw [(scan_marked marked early).2]
    exact .waiting marked past due same
  | taken marked past due status marker attached added active =>
    rw [(scan_marked marked early).2]
    exact .taken marked past due status marker attached added active
  | paid marked past bare added ended =>
    rw [(scan_marked marked early).2]
    exact .paid marked past bare added ended

theorem coming_later {c' : Int} (coming : Coming trig o successor before c l) (later : c ≤ c') :
    Coming trig o successor before c' l := by
  cases coming with
  | ahead bare next fixed same => exact .ahead bare next fixed same
  | waiting marked past due same =>
    exact .waiting marked (past.imp_right fun early => le_trans early later) due same
  | taken marked past due status marker attached added active =>
    exact .taken marked (past.imp_right fun early => ⟨le_trans early.1 later, early.2⟩) due status
      marker attached added active
  | paid marked past bare added ended => exact .paid marked past bare added ended

theorem early_coming (coming : Coming trig o successor before c l)
    (after : nextOccurrence trig l.task.cron o = some successor)
    (timely : now < successor - tickEarlyTolerance) {upcoming : Int}
    (early : earlyOccurrence trig l.task now = some upcoming) :
    Coming trig o successor before c (l.early upcoming now) := by
  obtain ⟨answer, window⟩ := Option.filter_eq_some_iff.mp early
  obtain ⟨w, stored, found⟩ := Option.bind_eq_some_iff.mp answer
  have inside : upcoming - now ≤ tickEarlyTolerance := (by simpa using window : _ ∧ _).2
  -- past the occurrence the upcoming one is its successor, which is too far away
  have far : ∀ {v}, l.Marked trig o successor v → False := fun marked => by
    have same := Option.some.inj (stored.symm.trans marked.stored)
    have nextOne := Option.some.inj (found.symm.trans (same ▸ marked.next))
    omega
  cases coming with
  | ahead bare next fixed same =>
    have here : upcoming = o := by
      rw [baseline_some stored, found] at next
      exact Option.some.inj next
    rw [early_eq, here]
    refine .waiting ⟨rfl, le_refl o, after⟩ (Or.inl rfl) (fun row owed => ?_) same
    rw [← Option.some.inj owed, earlyRow, bare]
    exact ⟨rfl, rfl, rfl⟩
  | waiting marked past due same => exact (far marked).elim
  | taken marked past due status marker attached added active => exact (far marked).elim
  | paid marked past bare added ended => exact (far marked).elim

theorem before_successor
    (timely : o - tickEarlyTolerance ≤ now ∧ now < successor - tickEarlyTolerance) :
    now < successor := by
  have := timely.2
  simp only [tickEarlyTolerance, seconds] at this
  omega

/-- A late tick makes an obligation only while no run was started for the occurrence. -/
theorem late_coming {occ : Set Int} (exact : Schedule.IsNext occ (nextOccurrence trig l.task.cron))
    (scheduled : o ∈ occ) (coming : Coming trig o successor before c l)
    (after : nextOccurrence trig l.task.cron o = some successor) (time : c ≤ now)
    (timely : o - tickEarlyTolerance ≤ now ∧ now < successor - tickEarlyTolerance)
    (own : ∀ run ∈ l.runs, run.taskId = l.task.id)
    (calm : ∀ olds run, l.due = none → before.Added l olds run → o ≤ run.startedAt)
    (bare : (l.scan trig now).due = none)
    (punctual : earlyOccurrence trig (l.scan trig now).task now = none)
    (uncovered : runCovers (l.scan trig now).runs (l.scan trig now).task.id
      (l.scan trig now).task.scheduleBaselineAt = false) :
    Coming trig o successor before now ((l.scan trig now).late now) := by
  have early := before_successor timely
  cases coming with
  | ahead unowed next fixed same =>
    -- before the occurrence the tick is early for it, after it the scan folds it
    rcases scan_ahead unowed next after early with ⟨earlier, kept⟩ | ⟨-, folded⟩
    · have window : earlyOccurrence trig l.keep.task now = some o := by
        rw [early_keep, next]
        have inside : o - now ≤ tickEarlyTolerance := by omega
        simp [Option.filter, inside, le_of_lt earlier]
      rw [kept, window] at punctual
      cases punctual
    · rw [folded] at bare
      cases bare
  | @waiting w marked past due same =>
    rw [(scan_marked marked early).2]
    have moved : (l.late now).task.scheduleBaselineAt = some (max w now) := by
      simp [Ledger.late, marked.stored]
    have reached : w < successor := nextOccurrence_advances trig l.task.cron w _ marked.next
    have newest : IsGreatest {p | p ∈ occ ∧ p ≤ o} o := ⟨⟨scheduled, le_refl o⟩, fun p mem => mem.2⟩
    have next : nextOccurrence trig l.task.cron (max w now) = some successor :=
      Schedule.next_of_gap exact newest after (le_trans marked.reached (le_max_left w now))
        (max_lt reached early)
    have past' : max w now = o ∨ max w now ≤ now := by
      have := marked.reached
      rcases past with level | passed
      · rcases le_total w now with le | le
        · exact Or.inr (max_le le (le_refl now))
        · exact Or.inl ((max_eq_left le).trans level)
      · exact Or.inr (max_le (le_trans passed time) (le_refl now))
    refine .waiting ⟨moved, le_trans marked.reached (le_max_left w now), next⟩ past'
      (fun row owed => ?_) same
    rw [← Option.some.inj owed]
    exact ⟨rfl, rfl, rfl⟩
  | taken marked past due status marker attached added active =>
    rw [(scan_marked marked early).2, due] at bare
    cases bare
  | @paid w olds run marked past unowed added ended =>
    -- the run covers the watermark
    rw [(scan_marked marked early).2, marked.stored] at uncovered
    have started := calm olds run unowed added
    have reached : w ≤ run.startedAt := past.elim (fun level => level ▸ started) id
    have covers : runCovers l.runs l.task.id (some w) = true := by
      simp only [runCovers, List.any_eq_true, decide_eq_true_eq]
      exact ⟨run, added.mem, own run added.mem, reached⟩
    rw [covers] at uncovered
    cases uncovered

theorem reconcile_coming (coming : Coming trig o successor before c l)
    (after : nextOccurrence trig l.task.cron o = some successor) (early : now < successor)
    (unique : (l.runs.map Run.id).Nodup) :
    Coming trig o successor before c (reconcileOne trig l now) := by
  rw [reconcileOne_eq]
  split
  · exact coming
  split
  · rename_i unreadable
    rw [nextOccurrence_of_not_parses unreadable] at after
    cases after
  · exact scan_coming (settle_coming coming unique now) after early

theorem tick_coming {occ : Set Int} (exact : Schedule.IsNext occ (nextOccurrence trig l.task.cron))
    (scheduled : o ∈ occ) (coming : Coming trig o successor before c l)
    (after : nextOccurrence trig l.task.cron o = some successor) (time : c ≤ now)
    (timely : o - tickEarlyTolerance ≤ now ∧ now < successor - tickEarlyTolerance)
    {a : Nat} (wf : l.Wf a)
    (calm : ∀ olds run, l.due = none → before.Added l olds run → o ≤ run.startedAt) :
    Coming trig o successor before now (recordTick trig l now) := by
  have settled := settle_coming coming wf.unique now
  have scanned := scan_coming settled after (before_successor timely)
  have cron := (scan_task trig (l.settle now) now).2
  have worked := tick_worked trig l now
  generalize recordTick trig l now = l' at worked
  cases worked with
  | same => exact coming_later coming time
  | blocked enabled unreadable =>
    rw [nextOccurrence_of_not_parses unreadable] at after
    cases after
  | scanned enabled readable => exact coming_later scanned time
  | early enabled readable soon =>
    exact coming_later (early_coming scanned (cron.symm ▸ after) timely.2 soon) time
  | late enabled readable bare punctual uncovered =>
    refine late_coming exact scheduled settled after time timely
      (fun run mem => (wf.owner run mem).trans wf.task.symm) ?_ bare punctual uncovered
    -- the settlement does not take the row of an active run
    intro olds run nothing added
    have added : before.Added l olds run := added.of_runs rfl
    refine calm olds run ?_ added
    cases coming with
    | ahead bare next fixed same => exact bare
    | waiting marked past due same =>
      have sizes := congrArg List.length (same.trans added.same.symm)
      simp [added.runs] at sizes
    | taken marked past due status marker attached added active =>
      rw [settle_attached wf.unique added.mem due status attached active] at nothing
      exact nothing
    | paid marked past bare added ended => exact bare

end Stages

/-- What stays of a task while it is attended. -/
structure Attended (trig : Trigger) (cron : String) (o successor : Int) (before : Ledger) (c : Int)
    (l : Ledger) : Prop where
  enabled : l.task.enabled = true
  spelling : l.task.cron = cron
  coming : Coming trig o successor before c l

section Steps
variable {env : Env} {a : Nat} {o successor : Int} {before l : Ledger} {s : Service}

/-- An active run is one from before, with no obligation attached, or it was started for the
    occurrence. -/
theorem coming_active {trig : Trigger} {c : Int} (coming : Coming trig o successor before c l)
    {run : Run} (mem : run ∈ l.runs) (active : run.state.active = true) :
    ((∀ runs : List Run, runs.map Run.id = l.runs.map Run.id →
        Coming trig o successor before c { l with runs := runs }) ∧
      ∀ row, l.due = some row → row.runId = none) ∨
    ∃ w row olds, l.Marked trig o successor w ∧ (w = o ∨ w ≤ c ∧ w ≤ run.startedAt) ∧
      l.due = some row ∧ row.status = .dispatched ∧ row.newerDueAt = none ∧
      row.runId = some run.id ∧ before.Added l olds run := by
  have only : ∀ {olds new}, before.Added l olds new → run = new := fun added => by
    rw [added.runs] at mem
    rcases List.mem_append.mp mem with old | last
    · rw [added.ended run old] at active
      cases active
    · exact List.mem_singleton.mp last
  cases coming with
  | ahead bare next fixed same =>
    left
    refine ⟨fun runs kept => ?_, fun row owed => by simp [bare] at owed⟩
    cases stored : l.task.scheduleBaselineAt with
    | none =>
      rw [fixed stored run mem] at active
      cases active
    | some w =>
      have level : Ledger.baseline { l with runs := runs } = l.baseline := by
        rw [baseline_some stored]
        exact baseline_some stored
      exact .ahead bare (level ▸ next) (fun nothing => by simp [stored] at nothing) (kept.trans same)
  | waiting marked past due same =>
    exact Or.inl ⟨fun runs kept => .waiting ⟨marked.stored, marked.reached, marked.next⟩ past due
      (kept.trans same), fun row owed => (due row owed).2.2⟩
  | @taken w row olds new marked past due status marker attached added isActive =>
    obtain rfl := only added
    exact Or.inr ⟨w, row, olds, marked, past, due, status, marker, attached, added⟩
  | paid marked past bare added ended =>
    rw [only added, ended] at active
    cases active

theorem swap_last {runs : List Run} {run new : Run} (unique : ((runs ++ [run]).map Run.id).Nodup)
    (same : new.id = run.id) : (runs ++ [run]).map (swapRun new) = runs ++ [new] := by
  have other : ∀ old ∈ runs, old.id ≠ new.id := by
    intro old mem id
    rw [List.map_append, List.nodup_append'] at unique
    exact unique.2.2 (List.mem_map_of_mem mem) (by simp [id, same])
  rw [List.map_append, swapRuns_other other]
  simp [swapRun, same]

theorem swap_ids (runs : List Run) (new : Run) :
    (runs.map (swapRun new)).map Run.id = runs.map Run.id := by
  rw [List.map_map]
  exact List.map_congr_left fun run _ => swapRun_id new run

theorem Ledger.Added.swap {olds : List Run} {run new : Run} {l' : Ledger}
    (added : before.Added l olds run) (unique : (l.runs.map Run.id).Nodup) (id : new.id = run.id)
    (began : run.startedAt ≤ new.startedAt) (runs : l'.runs = l.runs.map (swapRun new)) :
    before.Added l' olds new := by
  refine ⟨?_, added.same, added.ended, fun old mem => le_trans (added.newest old mem) began⟩
  rw [added.runs] at unique runs
  exact runs.trans (swap_last unique id)

theorem ready_waits {trig : Trigger} {c now : Int} (coming : Coming trig o successor before c l)
    {row : TaskDue} (owed : l.due = some row) (ready : row.Ready now) :
    ∃ w, l.Marked trig o successor w ∧ (w = o ∨ w ≤ c) ∧ row.status = .due ∧
      row.newerDueAt = none ∧ row.runId = none ∧
      l.runs.map Run.id = before.runs.map Run.id := by
  cases coming with
  | ahead bare next fixed same => simp [bare] at owed
  | @waiting w marked past due same =>
    obtain ⟨status, marker, detached⟩ := due row owed
    exact ⟨w, marked, past, status, marker, detached, same⟩
  | taken marked past due status marker attached added active =>
    obtain rfl := Option.some.inj (due.symm.trans owed)
    simp [TaskDue.Ready, status] at ready
  | paid marked past bare added ended => simp [bare] at owed

theorem wait_coming {trig : Trigger} {c now : Int} (coming : Coming trig o successor before c l)
    {row : TaskDue} (owed : l.due = some row) (ready : row.Ready now) (reason : WaitReason) :
    Coming trig o successor before c
      { l with due := some { row with waitReason := some reason, updatedAt := now } } := by
  obtain ⟨w, marked, past, status, marker, detached, same⟩ := ready_waits coming owed ready
  refine .waiting ⟨marked.stored, marked.reached, marked.next⟩ past (fun new here => ?_) same
  rw [← Option.some.inj here]
  exact ⟨status, marker, detached⟩

theorem launch_coming {trig : Trigger} {c c' now : Int} (coming : Coming trig o successor before c l)
    {row : TaskDue} (owed : l.due = some row) (ready : row.Ready now) (idle : l.Idle)
    (begun : ∀ run ∈ l.runs, run.startedAt ≤ c) (id : Nat) {stamp : Stamp}
    (time : c ≤ stamp.startedAt) (later : c ≤ c') :
    Coming trig o successor before c'
      { l with
        due := some (row.dispatchedTo id now), runs := l.runs ++ [pendingRun id a stamp] } := by
  obtain ⟨w, marked, past, -, marker, -, same⟩ := ready_waits coming owed ready
  exact .taken ⟨marked.stored, marked.reached, marked.next⟩
    (past.imp_right fun early => ⟨le_trans early later, le_trans early time⟩) rfl rfl marker rfl
    ⟨rfl, same, idle, fun old mem => le_trans (begun old mem) time⟩ rfl

theorem start_coming {trig : Trigger} {c now : Int} (coming : Coming trig o successor before c l)
    (unique : (l.runs.map Run.id).Nodup) (begun : ∀ run ∈ l.runs, run.startedAt ≤ c) {run : Run}
    (mem : run ∈ l.runs) (pending : run.state = .pending) (time : c ≤ now) :
    Coming trig o successor before now
      { l with runs := l.runs.map (swapRun { run with state := .running, startedAt := now }) } := by
  rcases coming_active coming mem (by rw [pending]; rfl) with
    ⟨others, -⟩ | ⟨w, row, olds, marked, past, due, status, marker, attached, added⟩
  · exact coming_later (others _ (swap_ids _ _)) time
  · have swapped : before.Added
        { l with runs := l.runs.map (swapRun { run with state := .running, startedAt := now }) }
        olds { run with state := .running, startedAt := now } :=
      added.swap unique rfl (le_trans (begun run mem) time) rfl
    have same : row.runId = some (Run.id { run with state := .running, startedAt := now }) :=
      attached
    exact .taken ⟨marked.stored, marked.reached, marked.next⟩
      (past.imp_right fun early => ⟨le_trans early.1 time, le_trans early.1 time⟩) due status marker
      same swapped rfl

theorem success_coming {trig : Trigger} {c now : Int} (coming : Coming trig o successor before c l)
    (unique : (l.runs.map Run.id).Nodup) {run : Run} (mem : run ∈ l.runs)
    (running : run.state = .running) (requested : Bool) (stats : Stats) :
    Coming trig o successor before c (l.endRun (run.terminal (.exited 0) requested stats now) now) := by
  rcases coming_active coming mem (by rw [running]; rfl) with
    ⟨others, detached⟩ | ⟨w, row, olds, marked, past, due, status, marker, attached, added⟩
  · have kept : l.endRun (run.terminal (.exited 0) requested stats now) now =
        { l with runs := l.runs.map (swapRun (run.terminal (.exited 0) requested stats now)) } := by
      unfold Ledger.endRun
      cases due : l.due with
      | none => rfl
      | some row => simp [detached row due]
    rw [kept]
    exact others _ (swap_ids _ _)
  · have paid : (l.endRun (run.terminal (.exited 0) requested stats now) now).due = none := by
      have same : row.runId = some (run.terminal (.exited 0) requested stats now).id := attached
      simp only [Ledger.endRun, due, Option.bind_some, if_pos same]
      show finish row row.newerDueAt now = none
      rw [marker]
      rfl
    have swapped : before.Added (l.endRun (run.terminal (.exited 0) requested stats now) now) olds
        (run.terminal (.exited 0) requested stats now) := added.swap unique rfl (le_refl _) rfl
    exact .paid ⟨marked.stored, marked.reached, marked.next⟩
      (past.imp_right fun early => early.2) paid swapped rfl

theorem startedSince_view {origin db : Db} (start : origin.view a = some before)
    (view : db.view a = some l) :
    startedSince origin db a = l.runs.filter fun r => !before.runs.any fun old => old.id = r.id := by
  rw [startedSince, ← (view_runs start).1, ← (view_runs view).1]

theorem startedSince_nil {origin db : Db} (start : origin.view a = some before)
    (view : db.view a = some l) (same : l.runs.map Run.id = before.runs.map Run.id) :
    startedSince origin db a = [] := by
  rw [startedSince_view start view, List.filter_eq_nil_iff]
  intro run mem
  have listed : run.id ∈ before.runs.map Run.id := same ▸ List.mem_map_of_mem mem
  obtain ⟨old, here, id⟩ := List.mem_map.mp listed
  have any : before.runs.any (fun old => old.id = run.id) = true :=
    List.any_eq_true.mpr ⟨old, here, by simpa using id⟩
  simp [any]

theorem startedSince_one {origin db : Db} (start : origin.view a = some before)
    (view : db.view a = some l) {olds : List Run} {run : Run} (added : before.Added l olds run)
    (unique : (l.runs.map Run.id).Nodup) : startedSince origin db a = [run] := by
  have listed : ∀ {id}, (before.runs.any fun old => old.id = id) = true ↔
      id ∈ olds.map Run.id := fun {id} => by
    rw [added.same]
    simp
  have known : ∀ old ∈ olds, ¬(!before.runs.any fun r => r.id = old.id) = true := by
    intro old mem
    simp only [listed.mpr (List.mem_map_of_mem mem), Bool.not_true, Bool.false_eq_true,
      not_false_iff]
  have new : (before.runs.any fun r => r.id = run.id) = false := by
    rw [Bool.eq_false_iff]
    intro old
    rw [added.runs, List.map_append, List.nodup_append'] at unique
    exact unique.2.2 (listed.mp old) (by simp)
  rw [startedSince_view start view, added.runs, List.filter_append,
    List.filter_eq_nil_iff.mpr known]
  simp only [List.filter_cons, new, Bool.not_false, if_true, List.filter_nil, List.nil_append]

theorem effect_coming {occ : Set Int} {cron : String} {op : Op} {hi : Int} {l' : Ledger}
    {origin : Db} (exact : Schedule.IsNext occ (nextOccurrence env.trig cron)) (scheduled : o ∈ occ)
    (after : nextOccurrence env.trig cron o = some successor)
    (start : origin.view a = some before) (view : s.db.view a = some l) (wf : l.Wf a)
    (begun : ∀ run ∈ l.runs, run.startedAt ≤ s.clock)
    (attended : Attended env.trig cron o successor before s.clock l) (order : s.clock ≤ hi)
    (attends : Attends a o successor s op) (calm : ¬Echoes a o origin s op)
    (effect : Effect env a s.clock hi op l l') : Attended env.trig cron o successor before hi l' := by
  obtain ⟨enabled, rfl, coming⟩ := attended
  have stored : ∀ {run}, run ∈ l.runs → s.db.runs.get run.id = some run ∧ run.taskId = a :=
    fun mem => by
      obtain ⟨here, owner⟩ := (mem_view_runs view).mp mem
      exact ⟨Table.get_of_mem here, owner⟩
  have kept : ∀ {f : Run → Run}, (∀ run ∈ l.runs, f run = run) → l.runs.map f = l.runs :=
    fun same => by
      conv_rhs => rw [← List.map_id l.runs]
      exact List.map_congr_left same
  have later := coming_later coming order
  cases effect with
  | idle => exact ⟨enabled, rfl, later⟩
  | @reconcile now _ time =>
    obtain ⟨on, spelling⟩ := worked_task (reconcile_worked env.trig l now)
    exact ⟨on.trans enabled, spelling, coming_later
      (reconcile_coming coming after (before_successor (attends rfl)) wf.unique) order⟩
  | @tick now _ time =>
    obtain ⟨on, spelling⟩ := worked_task (tick_worked env.trig l now)
    refine ⟨on.trans enabled, spelling, coming_later (tick_coming exact scheduled coming after time.1
      (attends rfl) wf fun olds run bare added => ?_) time.2⟩
    by_contra early
    have new : run ∈ startedSince origin s.db a := by
      rw [startedSince_one start view added wf.unique]
      exact List.mem_singleton_self run
    exact calm ⟨rfl, (view_runs view).2.2.1 ▸ bare, run, new, not_le.mp early⟩
  | @settle now _ time => exact ⟨enabled, rfl, coming_later (settle_coming coming wf.unique now) order⟩
  | pass time => exact ⟨enabled, rfl, coming_later (settle_coming coming wf.unique _) order⟩
  | drop time owed other disabled => simp [enabled] at disabled
  | @wait _ now _ _ row reason time owed ready =>
    exact ⟨enabled, rfl, coming_later
      (wait_coming (settle_coming coming wf.unique now) owed ready reason) order⟩
  | @launch _ now _ _ row id stamp time owed ready isEnabled idle fresh started =>
    exact ⟨enabled, rfl, launch_coming (settle_coming coming wf.unique now) owed ready idle begun id
      (le_trans time.1 started.1) order⟩
  | runNow idle fresh started => exact absurd rfl attends
  | @start now _ run time mem pending =>
    exact ⟨enabled, rfl, coming_later
      (start_coming coming wf.unique begun mem pending time.1) time.2⟩
  | @finish ending requested stats now _ run time mem running =>
    obtain rfl := attends run (stored mem).1 (stored mem).2
    exact ⟨enabled, rfl, coming_later
      (success_coming coming wf.unique mem running requested stats) order⟩
  | abandon time mem active failed => exact absurd (stored mem).2 (attends _ (stored mem).1)
  | sweep time =>
    rw [kept fun run mem => by
      obtain ⟨here, owner⟩ := (mem_view_runs view).mp mem
      simp [attends run here owner]]
    exact ⟨enabled, rfl, later⟩
  | restart time =>
    rw [kept fun run mem => by
      obtain ⟨here, owner⟩ := (mem_view_runs view).mp mem
      simp [attends run here owner]]
    exact ⟨enabled, rfl, later⟩
  | update time allowed => exact absurd rfl attends

end Steps

def Attending (env : Env) (a : Nat) (o successor : Int) (x : Service) (op : Op) (y : Service) : Prop :=
  Step env x op y ∧ Attends a o successor x op

/-- The same, without a callback that comes after an early run. -/
def AttendingOnce (env : Env) (a : Nat) (o successor : Int) (before : Db) (x : Service) (op : Op)
    (y : Service) : Prop :=
  Attending env a o successor x op y ∧ ¬Echoes a o before x op

section Runs
variable {env : Env} {a : Nat} {o successor : Int} {l : Ledger} {s t : Service} {ops : List Op}

theorem history_attended (reachable : Reachable env s) (view : s.db.view a = some l)
    (enabled : l.task.enabled = true) (bare : l.due = none)
    (manual : l.task.scheduleBaselineAt = none → l.Idle)
    (exact : Schedule.IsNext (occurrences env.trig l.task.cron) (nextOccurrence env.trig l.task.cron))
    (next : nextOccurrence env.trig l.task.cron l.baseline = some o)
    (after : nextOccurrence env.trig l.task.cron o = some successor)
    (history : Trace (AttendingOnce env a o successor s.db) s ops t) :
    Reachable env t ∧ ∃ m, t.db.view a = some m ∧
      Attended env.trig l.task.cron o successor l t.clock m := by
  refine trace_invariant (fun x : Service => Reachable env x ∧ ∃ m, x.db.view a = some m ∧
    Attended env.trig l.task.cron o successor l x.clock m) ?_ history
    ⟨reachable, l, view, enabled, rfl, .ahead bare next manual rfl⟩
  intro x op y holds step
  obtain ⟨reachable, m, here, attended⟩ := holds
  obtain ⟨⟨move, attends⟩, calm⟩ := step
  have linked := reachable_linked reachable
  refine ⟨reachable_step reachable move, ?_⟩
  have seen := (apply_sees linked move).2 a
  rw [here] at seen
  generalize y.db.view a = view' at seen
  cases seen with
  | deleted request idle =>
    rw [request] at attends
    exact absurd rfl attends
  | @acts _ m' effect =>
    exact ⟨m', rfl, effect_coming exact ⟨_, next⟩ after view here (view_wf linked here)
      (reachable_inTurn reachable here).begun attended (clock_le move) attends calm effect⟩

/-- One occurrence is run once. Only an operator's run can be active on a task that was never
    scanned. -/
theorem occurrence_runs_once (reachable : Reachable env s) (view : s.db.view a = some l)
    (enabled : l.task.enabled = true) (bare : l.due = none)
    (manual : l.task.scheduleBaselineAt = none → l.Idle)
    (exact : Schedule.IsNext (occurrences env.trig l.task.cron) (nextOccurrence env.trig l.task.cron))
    (next : nextOccurrence env.trig l.task.cron l.baseline = some o)
    (after : nextOccurrence env.trig l.task.cron o = some successor)
    (history : Trace (AttendingOnce env a o successor s.db) s ops t) :
    (startedSince s.db t.db a).length ≤ 1 := by
  obtain ⟨reached, m, here, attended⟩ :=
    history_attended reachable view enabled bare manual exact next after history
  have unique := (view_wf (reachable_linked reached) here).unique
  cases attended.coming with
  | ahead bare next fixed same => simp [startedSince_nil view here same]
  | waiting marked past due same => simp [startedSince_nil view here same]
  | taken marked past due status marker attached added active =>
    simp [startedSince_one view here added unique]
  | paid marked past bare added ended => simp [startedSince_one view here added unique]

/-- An early tick whose run starts at the occurrence, and the callbacks, scans and passes that
    describe it again. -/
def Sample.onTime : List Op :=
  [.tick 1 (seconds 60 - 1), .dispatch probe (seconds 60) [stamp 60], .start 1 (seconds 60),
    .tick 1 (seconds 60), .finish 1 (.exited 0) false {} (seconds 61), .tick 1 (seconds 62),
    .reconcile 1 (seconds 63), .settle (seconds 64), .dispatch probe (seconds 65) []]

/-- The same tick with a pass at once. -/
def Sample.tooSoon : List Op :=
  [.tick 1 (seconds 60 - 1), .dispatch probe (seconds 60 - 1) [⟨seconds 60 - 1, seconds 60 - 1⟩],
    .start 1 (seconds 60 - 1), .finish 1 (.exited 0) false {} (seconds 60),
    .tick 1 (seconds 60), .dispatch probe (seconds 61) [stamp 61], .start 2 (seconds 61)]

theorem Sample.start_view : ∃ l, start.db.view 1 = some l ∧ l.task.enabled = true ∧ l.due = none ∧
    l.task.scheduleBaselineAt = some 0 ∧ l.task.cron = "* * * * *" ∧ l.Idle := by
  obtain ⟨l, view, shape⟩ := Option.map_eq_some_iff.mp
    (by decide : (start.db.view 1).map
      (fun l => (l.task.enabled, l.due, l.task.scheduleBaselineAt, l.task.cron, l.runs.length)) =
      some (true, none, some 0, "* * * * *", 0))
  simp only [Prod.mk.injEq, List.length_eq_zero_iff] at shape
  obtain ⟨enabled, bare, stored, cron, unrun⟩ := shape
  exact ⟨l, view, enabled, bare, stored, cron, by simp [Ledger.Idle, unrun]⟩

theorem on_time_run_pays_once :
    (startedSince Sample.start.db (Sample.start.exec Sample.env Sample.onTime).db 1).length ≤ 1 ∧
      startedSince Sample.start.db (Sample.start.exec Sample.env Sample.onTime).db 1 ≠ [] := by
  obtain ⟨l, view, enabled, bare, stored, cron, idle⟩ := Sample.start_view
  have along : Along Sample.env (fun x op => Attends 1 (seconds 60) (seconds 120) x op ∧
      ¬Echoes 1 (seconds 60) Sample.start.db x op) Sample.start Sample.onTime := by
    decide
  refine ⟨occurrence_runs_once Sample.start_reachable view enabled bare (fun _ => idle) ?_ ?_ ?_
    (trace_mono (fun _ _ _ step => ⟨⟨step.1, step.2.1⟩, step.2.2⟩) (trace_along along)), ?_⟩
  · rw [cron]
    exact Schedule.isNext_answers Sample.everyMinute_next
  · rw [cron, baseline_some stored]
    decide
  · rw [cron]
    decide
  · decide

/-- Started a moment before the occurrence, the run does not cover the watermark, and the next
    callback makes a second one. -/
theorem early_run_is_repeated :
    ¬ ∀ (env : Env) (s t : Service) (a : Nat) (o successor : Int) (l : Ledger) (ops : List Op),
      Reachable env s → s.db.view a = some l → l.task.enabled = true → l.due = none → l.Idle →
      Schedule.IsNext (occurrences env.trig l.task.cron) (nextOccurrence env.trig l.task.cron) →
      nextOccurrence env.trig l.task.cron l.baseline = some o →
      nextOccurrence env.trig l.task.cron o = some successor →
      Trace (Attending env a o successor) s ops t → (startedSince s.db t.db a).length ≤ 1 := by
  intro claim
  obtain ⟨l, view, enabled, bare, stored, cron, idle⟩ := Sample.start_view
  have along : Along Sample.env (Attends 1 (seconds 60) (seconds 120)) Sample.start
      Sample.tooSoon := by
    decide
  have once := claim Sample.env Sample.start _ 1 (seconds 60) (seconds 120) l Sample.tooSoon
    Sample.start_reachable view enabled bare idle
    (by rw [cron]; exact Schedule.isNext_answers Sample.everyMinute_next)
    (by rw [cron, baseline_some stored]; decide) (by rw [cron]; decide) (trace_along along)
  revert once
  decide

/-- The callback that comes after an early run owes the occurrence again. -/
theorem echo_owes_again (reachable : Reachable env s) (view : s.db.view a = some l)
    (enabled : l.task.enabled = true) (bare : l.due = none)
    (manual : l.task.scheduleBaselineAt = none → l.Idle)
    (exact : Schedule.IsNext (occurrences env.trig l.task.cron) (nextOccurrence env.trig l.task.cron))
    (next : nextOccurrence env.trig l.task.cron l.baseline = some o)
    (after : nextOccurrence env.trig l.task.cron o = some successor)
    (history : Trace (AttendingOnce env a o successor s.db) s ops t) {now : Int}
    (attends : Attends a o successor t (.tick a now)) (echoes : Echoes a o s.db t (.tick a now)) :
    (t.next env (.tick a now)).db.taskDue.get a =
      some { taskId := a, dueAt := now, status := .due, updatedAt := now } := by
  obtain ⟨reached, m, here, on, spelling, coming⟩ :=
    history_attended reachable view enabled bare manual exact next after history
  have linked := reachable_linked reached
  have wf := view_wf linked here
  obtain ⟨-, nothing, run, new, early⟩ := echoes
  have unowed : m.due = none := (view_runs here).2.2.1.trans nothing
  have timely := before_successor (attends rfl)
  have ticked := tick_view env linked here now
  rw [← (view_runs ticked).2.2.1]
  cases coming with
  | ahead bare next fixed same => simp [startedSince_nil view here same] at new
  | waiting marked past due same => simp [startedSince_nil view here same] at new
  | taken marked past due status marker attached added active => simp [due] at unowed
  | @paid w olds last marked past bare added ended =>
    have same : run = last := by simpa [startedSince_one view here added wf.unique] using new
    obtain rfl := same
    have level : w = o := past.resolve_right fun reached => by
      have := marked.reached
      omega
    subst w
    have uncovered : runCovers m.runs m.task.id (some o) = false := by
      simp only [runCovers, List.any_eq_false, decide_eq_true_eq, not_and, not_le]
      intro r mem _
      rw [added.runs] at mem
      rcases List.mem_append.mp mem with old | one
      · exact lt_of_le_of_lt (added.newest r old) early
      · exact List.mem_singleton.mp one ▸ early
    have punctual : earlyOccurrence env.trig m.task now = none := by
      unfold earlyOccurrence
      rw [marked.stored, Option.bind_some, marked.next]
      have far := (attends rfl).2
      have outside : ¬successor - now ≤ tickEarlyTolerance := by omega
      simp [Option.filter, outside]
    have readable : env.trig.parses m.task.cron = true := by
      rw [spelling]
      exact readable_of_occurrence ⟨_, next⟩
    rw [recordTick_eq]
    simp only [on, readable, settle_of_none bare, (scan_marked marked timely).2, punctual, bare,
      marked.stored, uncovered, Bool.true_eq_false, if_false, and_self, if_true]
    rw [Ledger.late, wf.task]

end Runs

end Pullbackup
