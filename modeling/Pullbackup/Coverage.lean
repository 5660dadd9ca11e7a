import Pullbackup.Settlement

/- Occurrences and the runs that pay for them. The row of a task stands for all
   its occurrences up to the watermark that no successful run has covered yet;
   Covering is what that takes of the row, the marker and the run table. -/
namespace Pullbackup
open KeyedTable History

/-- No edit or deletion of task a, and no operator cancel of one of its runs. -/
def Undisturbed (a : Nat) (s : Service) : Op → Prop
  | .updateTask task _ _ => task ≠ a
  | .deleteTask task => task ≠ a
  | .finish run _ requested _ _ | .abandon run _ requested _ =>
    requested = true → ∀ r, s.db.runs.get run = some r → r.taskId ≠ a
  | _ => True

instance decidableUndisturbed (a : Nat) (s : Service) : ∀ op, Decidable (Undisturbed a s op)
  | .updateTask task _ _ | .deleteTask task => inferInstanceAs (Decidable (task ≠ a))
  | .finish run _ requested _ _ | .abandon run _ requested _ =>
    inferInstanceAs
      (Decidable (requested = true → ∀ r, s.db.runs.get run = some r → r.taskId ≠ a))
  | .reconcile _ _ | .tick _ _ | .settle _ | .dispatch _ _ _ | .runNow _ _ | .start _ _
  | .sweep _ _ | .restart _ | .createTask _ _ | .createSource _ _ | .updateSource _ _
  | .deleteSource _ => inferInstanceAs (Decidable True)

/-- Every occurrence after w0 up to the watermark of an idle task is covered by a successful run
    that started no more than the tick tolerance before it. -/
def NoneLost (occ : Set Int) (a : Nat) (w0 : Int) (db : Db) : Prop :=
  db.taskDue.get a = none → ∀ task, db.tasks.get a = some task →
    ∀ w, task.scheduleBaselineAt = some w → ∀ o ∈ occ, w0 < o → o ≤ w →
      ∃ run ∈ db.runs.rows, run.taskId = a ∧ run.state = .success ∧
        o - tickEarlyTolerance ≤ run.startedAt

/-- A run that has paid, or may yet pay, for its task's row from the instant it started at. A
    pending run has no such instant yet. -/
def Run.pays (run : Run) : Bool := run.state = .running || run.state = .success

/-- The date a settled ledger files newly folded occurrences under: the marker of its row, or
    the first of them where there is no marker yet to file them under. None is a blocked row,
    which no run pays for. -/
def Ledger.filedAt (l : Ledger) (first newest : Int) : Option Int :=
  match l.due with
  | none => some first
  | some row =>
    match row.status, row.newerDueAt with
    | .blocked, _ => none
    | _, some marker => some marker
    | .dispatched, none => some first
    | _, none =>
      if (activeRunStartedAt l.runs l.task.id).any (· < newest) then some newest
      else some row.dueAt

/-- No run that pays for the date o is filed under started too early to cover o. -/
def Ledger.Files (l : Ledger) (first newest o : Int) : Prop :=
  ∀ filed, l.filedAt first newest = some filed → ∀ run ∈ l.runs, run.pays = true →
    filed ≤ run.startedAt → o ≤ run.startedAt + tickEarlyTolerance

/-- A scan at now files every occurrence it folds behind runs that cover it. -/
def Ledger.ScanSafe (trig : Trigger) (occ : Set Int) (l : Ledger) (now : Int) : Prop :=
  ∀ first, l.owes trig now = some first → ∀ o ∈ occ, l.baseline < o → o ≤ now →
    l.Files first (latestOccurrence trig l.task.cron first now) o

def Ledger.EarlySafe (trig : Trigger) (l : Ledger) (now : Int) : Prop :=
  ∀ upcoming, earlyOccurrence trig l.task now = some upcoming →
    l.Files upcoming upcoming upcoming

def FoldsSafely (trig : Trigger) (occ : Set Int) (a : Nat) (s : Service) (op : Op) : Prop :=
  ∀ l, s.db.view a = some l → match op with
    | .reconcile task now => task = a → (l.settle now).ScanSafe trig occ now
    | .tick task now => task = a → (l.settle now).ScanSafe trig occ now ∧
        ((l.settle now).scan trig now).EarlySafe trig now
    | _ => True

def Clears (run : Run) (row : TaskDue) : Prop :=
  (row.dueAt ≤ run.startedAt ∨ row.runId = some run.id) ∧
    ∀ marker, row.newerDueAt = some marker → marker ≤ run.startedAt

structure Stands (occ : Set Int) (w0 w : Int) (runs : List Run) (row : TaskDue) : Prop where
  dated : row.dueAt ≤ w
  marked : ∀ marker, row.newerDueAt = some marker → row.dueAt ≤ marker ∧ marker ≤ w
  cleared : ∀ run ∈ runs, run.pays = true → Clears run row →
    ∀ o ∈ occ, w0 < o → o ≤ w → o ≤ run.startedAt + tickEarlyTolerance

structure Covering (occ : Set Int) (w0 : Int) (cron : String) (w c : Int) (l : Ledger) : Prop where
  enabled : l.task.enabled = true
  cron : l.task.cron = cron
  mark : l.task.scheduleBaselineAt = some w
  current : ∀ o ∈ occ, w0 < o → o ≤ w → o ≤ c + tickEarlyTolerance
  covered : l.due = none → ∀ o ∈ occ, w0 < o → o ≤ w →
    ∃ run ∈ l.runs, run.state = .success ∧ o ≤ run.startedAt + tickEarlyTolerance
  attached : ∀ row, l.due = some row → row.runId ≠ none → row.status = .dispatched
  live : ∀ row, l.due = some row → ∀ run ∈ l.runs, row.runId = some run.id →
    run.state ≠ .cancelled
  stands : ∀ row, l.due = some row → row.status ≠ .blocked → Stands occ w0 w l.runs row

section Settle
variable {occ : Set Int} {w0 w c now : Int} {cron : String} {l : Ledger} {a : Nat}

/-- A run that clears a row without a run of its own started late enough for it. -/
theorem began_of_detached {run : Run} {row : TaskDue} (clears : Clears run row)
    (detached : row.runId = none) : row.dueAt ≤ run.startedAt := by
  rcases clears.1 with due | attached
  · exact due
  · rw [detached] at attached
    cases attached

theorem stands_detached {runs : List Run} {row row' : TaskDue} (stands : Stands occ w0 w runs row)
    (date : row'.dueAt = row.dueAt) (marker : row'.newerDueAt = row.newerDueAt)
    (detached : row'.runId = none) : Stands occ w0 w runs row' := by
  refine ⟨?_, ?_, ?_⟩
  · rw [date]
    exact stands.dated
  · rw [date, marker]
    exact stands.marked
  · intro run mem pays clears
    have began := began_of_detached clears detached
    rw [date] at began
    exact stands.cleared run mem pays ⟨Or.inl began, marker ▸ clears.2⟩

theorem detached_of_open (covering : Covering occ w0 cron w c l) {row : TaskDue}
    (owed : l.due = some row) (isOpen : row.Open) : row.runId = none := by
  by_contra attached
  exact isOpen.1 (covering.attached row owed attached)

theorem clears_promoted {run : Run} {row : TaskDue} {marker : Int} {now : Int}
    (here : row.newerDueAt = some marker) (order : row.dueAt ≤ marker)
    (clears : Clears run { row with
      dueAt := marker, newerDueAt := none, status := .due, attempts := 0, retryAt := none
      runId := none, waitReason := none, lastError := "", updatedAt := now }) :
    Clears run row := by
  have late : marker ≤ run.startedAt := began_of_detached clears rfl
  refine ⟨Or.inl (order.trans late), fun m same => ?_⟩
  rw [here] at same
  exact Option.some.inj same ▸ late

theorem finish_stands {row : TaskDue} {runs : List Run} {followUp : Option Int}
    (stands : Stands occ w0 w runs row) (promise : ∀ m, followUp = some m → row.newerDueAt = some m)
    {row' : TaskDue} (finished : finish row followUp now = some row') :
    Stands occ w0 w runs row' ∧ row'.runId = none := by
  cases followUp with
  | none => cases finished
  | some marker =>
    obtain rfl := Option.some.inj finished
    have here := promise marker rfl
    obtain ⟨order, bound⟩ := stands.marked marker here
    refine ⟨⟨bound, ?_, ?_⟩, rfl⟩
    · intro m none
      cases none
    intro run mem pays clears
    exact stands.cleared run mem pays (clears_promoted here order clears)

theorem failOutcome_stands {row : TaskDue} {runs : List Run} (message : String) (now : Int)
    (stands : Stands occ w0 w runs row) :
    Stands occ w0 w runs (failOutcome row message now) ∧
      (failOutcome row message now).runId = none := by
  have same : (failOutcome row message now).dueAt = row.dueAt ∧
      (failOutcome row message now).newerDueAt = row.newerDueAt := by
    unfold failOutcome
    repeat' split
    all_goals exact ⟨rfl, rfl⟩
  have detached := (failOutcome_inherits row message now).2
  exact ⟨stands_detached stands same.1 same.2 detached, detached⟩

theorem covering_due (covering : Covering occ w0 cron w c l) {row : TaskDue}
    (owed : l.due = some row) {due : Option TaskDue}
    (cleared : due = none → ∀ o ∈ occ, w0 < o → o ≤ w →
      ∃ run ∈ l.runs, run.state = .success ∧ o ≤ run.startedAt + tickEarlyTolerance)
    (kept : ∀ row', due = some row' →
      (row'.runId ≠ none → row'.status = row.status ∧ row'.runId = row.runId) ∧
      (row'.status ≠ .blocked → Stands occ w0 w l.runs row')) :
    Covering occ w0 cron w c { l with due := due } := by
  refine ⟨covering.enabled, covering.cron, covering.mark, covering.current, cleared, ?_, ?_, ?_⟩
  · intro row' here attached
    obtain ⟨status, id⟩ := (kept row' here).1 attached
    rw [status]
    exact covering.attached row owed (id ▸ attached)
  · intro row' here run mem attached
    obtain ⟨-, id⟩ := (kept row' here).1 (by rw [attached]; simp)
    exact covering.live row owed run mem (id ▸ attached)
  · intro row' here
    exact (kept row' here).2

theorem unmarked_stands {runs : List Run} {row row' : TaskDue} (stands : Stands occ w0 w runs row)
    (date : row'.dueAt = row.dueAt) (unmarked : row'.newerDueAt = none)
    (detached : row'.runId = none) (owner : ∀ run ∈ runs, run.taskId = row.taskId)
    (unpaid : Unpaid runs row) (idle : NoneActive runs row.taskId) :
    Stands occ w0 w runs row' := by
  refine ⟨?_, ?_, ?_⟩
  · rw [date]
    exact stands.dated
  · intro m here
    rw [unmarked] at here
    cases here
  · intro run mem pays clears
    have pay := began_of_detached clears detached
    rw [date] at pay
    have quiet := idle run mem (owner run mem)
    simp only [Run.pays, Bool.or_eq_true, decide_eq_true_eq] at pays
    rcases pays with running | success
    · simp [running] at quiet
    · have late := unpaid run mem (owner run mem) success
      omega

theorem settled_covering (covering : Covering occ w0 cron w c l) (wf : l.Wf a) {row : TaskDue}
    (owed : l.due = some row) {due : Option TaskDue} (settled : Settled l.runs row now due) :
    Covering occ w0 cron w c { l with due := due } := by
  have owner : ∀ run ∈ l.runs, run.taskId = row.taskId := fun run mem =>
    (wf.owner run mem).trans (wf.due row owed).symm
  have standing := covering.stands row owed
  cases settled with
  | missing dispatched gone =>
    refine covering_due covering owed (fun none => by cases none) fun row' here => ?_
    obtain rfl := Option.some.inj here
    have stands := standing (by simp [dispatched])
    exact ⟨fun attached => absurd rfl attached, fun _ => stands_detached stands rfl rfl rfl⟩
  | active dispatched mem attached active =>
    refine covering_due covering owed (fun none => by cases none) fun row' here => ?_
    obtain rfl := Option.some.inj here
    exact ⟨fun _ => ⟨rfl, rfl⟩, standing⟩
  | @succeeded run dispatched mem attached success =>
    have stands := standing (by simp [dispatched])
    refine covering_due covering owed (fun none => ?_) fun row' here => ?_
    · have unmarked : row.newerDueAt = Option.none := by
        cases marker : row.newerDueAt with
        | none => rfl
        | some m => rw [marker] at none; cases none
      intro o mo after upto
      refine ⟨run, mem, success, ?_⟩
      refine stands.cleared run mem (by simp [Run.pays, success]) ⟨Or.inr attached, ?_⟩ o mo after upto
      intro m here
      rw [unmarked] at here
      cases here
    · obtain ⟨stands', detached⟩ := finish_stands stands (fun m same => same) here
      exact ⟨fun attached => absurd detached attached, fun _ => stands'⟩
  | cancelled dispatched mem attached cancelled =>
    exact absurd cancelled (covering.live row owed _ mem attached)
  | failed dispatched mem attached failed =>
    refine covering_due covering owed (fun none => by cases none) fun row' here => ?_
    obtain rfl := Option.some.inj here
    obtain ⟨stands', detached⟩ :=
      failOutcome_stands _ now (standing (by simp [dispatched]))
    exact ⟨fun attached => absurd detached attached, fun _ => stands'⟩
  | blocked blocked =>
    refine covering_due covering owed (fun none => by cases none) fun row' here => ?_
    obtain rfl := Option.some.inj here
    exact ⟨fun _ => ⟨rfl, rfl⟩, standing⟩
  | @paid run isOpen mem own success pays last =>
    have stands := standing isOpen.2
    refine covering_due covering owed (fun none => ?_) fun row' here => ?_
    · have early : ∀ m, row.newerDueAt = some m → m ≤ run.startedAt := by
        intro m here
        by_contra late
        rw [here] at none
        simp [Option.filter, not_le.mp late, finish] at none
      intro o mo after upto
      refine ⟨run, mem, success, ?_⟩
      exact stands.cleared run mem (by simp [Run.pays, success]) ⟨Or.inl pays, early⟩ o mo after upto
    · have promise : ∀ m, (row.newerDueAt.filter fun f => decide (run.startedAt < f)) = some m →
          row.newerDueAt = some m := fun m kept =>
        (Option.filter_eq_some_iff.mp kept).1
      obtain ⟨stands', detached⟩ := finish_stands stands promise here
      exact ⟨fun attached => absurd detached attached, fun _ => stands'⟩
  | unmarked isOpen unpaid marked idle =>
    have stands := standing isOpen.2
    refine covering_due covering owed (fun none => by cases none) fun row' here => ?_
    have shape : row'.dueAt = row.dueAt ∧ row'.newerDueAt = none ∧ row'.runId = none := by
      obtain rfl := Option.some.inj here
      have free := detached_of_open covering owed isOpen
      dsimp only
      split <;> exact ⟨rfl, rfl, free⟩
    exact ⟨fun attached => absurd shape.2.2 attached, fun _ =>
      unmarked_stands stands shape.1 shape.2.1 shape.2.2 owner unpaid idle⟩
  | owed isOpen unpaid =>
    refine covering_due covering owed (fun none => by cases none) fun row' here => ?_
    obtain rfl := Option.some.inj here
    exact ⟨fun _ => ⟨rfl, rfl⟩, standing⟩

theorem covering_later {c' : Int} (later : c ≤ c') (covering : Covering occ w0 cron w c l) :
    Covering occ w0 cron w c' l := by
  refine { covering with current := ?_ }
  intro o mem after upto
  exact (covering.current o mem after upto).trans (by omega)

variable (now) in
theorem settle_covering (covering : Covering occ w0 cron w c l) (wf : l.Wf a) :
    Covering occ w0 cron w c (l.settle now) := by
  cases owed : l.due with
  | none =>
    rw [settle_of_none owed]
    exact covering
  | some row =>
    unfold Ledger.settle
    rw [owed]
    exact settled_covering covering wf owed (settleRow_settled l.runs row now)

end Settle

section Folds
variable {trig : Trigger} {occ : Set Int} {w0 w now : Int} {cron : String} {l : Ledger} {a : Nat}

theorem filedAt_none (none : l.due = none) (first newest : Int) :
    l.filedAt first newest = some first := by
  simp [Ledger.filedAt, none]

theorem filedAt_marked {row : TaskDue} {marker : Int} (owed : l.due = some row)
    (unblocked : row.status ≠ .blocked) (marked : row.newerDueAt = some marker)
    (first newest : Int) : l.filedAt first newest = some marker := by
  unfold Ledger.filedAt
  rw [owed]
  simp only [marked]

theorem filedAt_dispatched {row : TaskDue} (owed : l.due = some row)
    (dispatched : row.status = .dispatched) (unmarked : row.newerDueAt = none)
    (first newest : Int) : l.filedAt first newest = some first := by
  simp [Ledger.filedAt, owed, dispatched, unmarked]

theorem filedAt_owed {row : TaskDue} (owed : l.due = some row) (isOpen : row.Open)
    (unmarked : row.newerDueAt = none) {first newest : Int}
    (covered : ∀ started, activeRunStartedAt l.runs l.task.id = some started → newest ≤ started) :
    l.filedAt first newest = some row.dueAt := by
  have none : (activeRunStartedAt l.runs l.task.id).any (fun x => decide (x < newest)) = false := by
    cases active : activeRunStartedAt l.runs l.task.id with
    | none => rfl
    | some started => simpa using covered started active
  obtain ⟨notDispatched, notBlocked⟩ := isOpen
  cases status : row.status with
  | dispatched => exact absurd status notDispatched
  | blocked => exact absurd status notBlocked
  | due => simp [Ledger.filedAt, owed, status, unmarked, none]
  | retry => simp [Ledger.filedAt, owed, status, unmarked, none]
  | exhausted => simp [Ledger.filedAt, owed, status, unmarked, none]

theorem keep_of_mark (mark : l.task.scheduleBaselineAt = some w) : l.keep = l := by
  rw [keep_eq, baseline_some mark]
  simp [mark]

/-- Moving the watermark to w' under a row that stands for everything up to it. -/
theorem refile_covering {w' : Int} (covering : Covering occ w0 cron w now l)
    (bound : ∀ o ∈ occ, w0 < o → o ≤ w' → o ≤ now + tickEarlyTolerance) {row : TaskDue}
    (attached : row.runId ≠ none → row.status = .dispatched ∧
      ∃ old, l.due = some old ∧ old.runId = row.runId)
    (stands : row.status ≠ .blocked → Stands occ w0 w' l.runs row) :
    Covering occ w0 cron w' now
      { l with task := { l.task with scheduleBaselineAt := some w' }, due := some row } := by
  refine ⟨covering.enabled, covering.cron, rfl, bound, fun none => (by cases none), ?_, ?_, ?_⟩
  · intro row' same here
    obtain rfl := Option.some.inj same
    exact (attached here).1
  · intro row' same run mem here
    obtain rfl := Option.some.inj same
    obtain ⟨-, old, owed, id⟩ := attached (by rw [here]; simp)
    exact covering.live old owed run mem (id.trans here)
  · intro row' same
    obtain rfl := Option.some.inj same
    exact stands

theorem stands_noted {runs : List Run} {row row' : TaskDue} {w' marker : Int}
    (stands : Stands occ w0 w runs row) (grows : w ≤ w') (date : row'.dueAt = row.dueAt)
    (noted : row'.newerDueAt = some marker) (order : w ≤ marker) (inside : marker ≤ w')
    (covers : ∀ run ∈ runs, run.pays = true → marker ≤ run.startedAt →
      ∀ o ∈ occ, w0 < o → o ≤ w' → o ≤ run.startedAt + tickEarlyTolerance) :
    Stands occ w0 w' runs row' := by
  refine ⟨?_, ?_, ?_⟩
  · rw [date]
    exact stands.dated.trans grows
  · intro m same
    obtain rfl := Option.some.inj (noted.symm.trans same)
    rw [date]
    exact ⟨stands.dated.trans order, inside⟩
  · intro run mem pays clears
    exact covers run mem pays (clears.2 marker noted)

theorem stands_grown {runs : List Run} {row row' : TaskDue} {w' : Int}
    (stands : Stands occ w0 w runs row) (grows : w ≤ w')
    (same : row'.dueAt = row.dueAt ∧ row'.newerDueAt = row.newerDueAt ∧ row'.runId = row.runId)
    (covers : ∀ run ∈ runs, run.pays = true → Clears run row →
      (∀ o ∈ occ, w0 < o → o ≤ w → o ≤ run.startedAt + tickEarlyTolerance) →
      ∀ o ∈ occ, w0 < o → o ≤ w' → o ≤ run.startedAt + tickEarlyTolerance) :
    Stands occ w0 w' runs row' := by
  obtain ⟨date, marker, id⟩ := same
  refine ⟨?_, ?_, ?_⟩
  · rw [date]
    exact stands.dated.trans grows
  · intro m here
    rw [marker] at here
    rw [date]
    obtain ⟨order, inside⟩ := stands.marked m here
    exact ⟨order, inside.trans grows⟩
  · intro run mem pays clears
    unfold Clears at clears
    rw [date, marker, id] at clears
    exact covers run mem pays clears (stands.cleared run mem pays clears)

/-- The row after a fold: what it cleared before it still needs, and the date it files the new
    occurrences under is at or before whatever clears it. -/
theorem fold_stands (covering : Covering occ w0 cron w now l) (wf : l.Wf a) {first : Int}
    (after : w < first) (inside : first ≤ latestOccurrence trig cron first now)
    (safe : ∀ o ∈ occ, w < o → o ≤ latestOccurrence trig cron first now →
      l.Files first (latestOccurrence trig cron first now) o) :
    let row := foldRow l first (latestOccurrence trig cron first now) now
    row.status ≠ .blocked →
      Stands occ w0 (latestOccurrence trig cron first now) l.runs row := by
  intro row unblocked
  -- old occurrences lie before the first new one
  have split : ∀ {filed : Int} {run : Run}, run ∈ l.runs → run.pays = true →
      l.filedAt first (latestOccurrence trig cron first now) = some filed →
      filed ≤ run.startedAt →
      (∀ o ∈ occ, w0 < o → o ≤ w → o ≤ run.startedAt + tickEarlyTolerance) →
      ∀ o ∈ occ, w0 < o → o ≤ latestOccurrence trig cron first now →
        o ≤ run.startedAt + tickEarlyTolerance := by
    intro filed run mem pays date late old o mo start upto
    by_cases new : w < o
    · exact safe o mo new upto filed date run mem pays late
    · exact old o mo start (by omega)
  have before : ∀ {run : Run}, first ≤ run.startedAt →
      ∀ o ∈ occ, w0 < o → o ≤ w → o ≤ run.startedAt + tickEarlyTolerance := by
    intro run late o _ _ upto
    simp only [tickEarlyTolerance, seconds]
    omega
  cases owed : l.due with
  | none =>
    have shape : row = { taskId := l.task.id, dueAt := first, status := .due, updatedAt := now } := by
      simp [row, foldRow, owed]
    rw [shape]
    refine ⟨inside, fun m none => (by cases none), ?_⟩
    intro run mem pays clears
    have late : first ≤ run.startedAt := began_of_detached clears rfl
    exact split mem pays (filedAt_none owed _ _) late (before late)
  | some old =>
    have folded := foldRow_folded owed first (latestOccurrence trig cron first now) now
    change Folded l.runs old first _ now row at folded
    have standing := covering.stands old owed
    generalize row = row at folded unblocked
    have grows : w ≤ latestOccurrence trig cron first now := by omega
    cases folded with
    | followUp dispatched unmarked =>
      refine stands_noted (standing unblocked) grows rfl rfl (le_of_lt after) inside ?_
      intro run mem pays late
      exact split mem pays (filedAt_dispatched owed dispatched unmarked _ _) late (before late)
    | behind isOpen unmarked mem owner active before' later =>
      refine stands_noted (standing unblocked) grows rfl rfl grows (le_refl _) ?_
      intro run mem pays late o _ _ upto
      simp only [tickEarlyTolerance, seconds]
      omega
    | coalesced marked unblocked' =>
      obtain ⟨m, here⟩ := Option.ne_none_iff_exists'.mp marked
      refine stands_grown (standing unblocked) grows ⟨rfl, rfl, rfl⟩ ?_
      intro run mem pays clears
      exact split mem pays (filedAt_marked owed unblocked' here _ _) (clears.2 m here)
    | held blocked => exact absurd blocked unblocked
    | owed isOpen covered =>
      refine stands_grown (standing isOpen.2) grows (by dsimp only; split <;> exact ⟨rfl, rfl, rfl⟩) ?_
      intro run mem pays clears
      cases marked : old.newerDueAt with
      | some m => exact split mem pays (filedAt_marked owed isOpen.2 marked _ _) (clears.2 m marked)
      | none =>
        have detached := detached_of_open covering owed isOpen
        have late : old.dueAt ≤ run.startedAt := began_of_detached clears detached
        rw [wf.due old owed, ← wf.task] at covered
        exact split mem pays (filedAt_owed owed isOpen marked covered) late

theorem scan_covering (covering : Covering occ w0 cron w now l) (wf : l.Wf a)
    (safe : l.ScanSafe trig occ now) : ∃ w', Covering occ w0 cron w' now (l.scan trig now) := by
  obtain rfl := covering.cron
  unfold Ledger.scan
  cases owes : l.owes trig now with
  | none =>
    refine ⟨w, ?_⟩
    simp only
    rw [keep_of_mark covering.mark]
    exact covering
  | some first =>
    obtain ⟨next, due⟩ := owes_some owes
    rw [baseline_some covering.mark] at next
    have after := nextOccurrence_advances trig l.task.cron w first next
    obtain ⟨inside, bound⟩ := latestOccurrence_bounds trig l.task.cron due
    refine ⟨latestOccurrence trig l.task.cron first now, ?_⟩
    simp only
    rw [fold_eq]
    refine refile_covering covering ?_ ?_ ?_
    · intro o _ _ upto
      simp only [tickEarlyTolerance, seconds]
      omega
    · intro attached
      cases owed : l.due with
      | none => simp [foldRow, owed] at attached
      | some old =>
        obtain ⟨-, id⟩ := foldRow_inherits owed first (latestOccurrence trig l.task.cron first now) now
        have same : (foldRow l first (latestOccurrence trig l.task.cron first now) now).runId =
            old.runId := id.resolve_left attached
        have dispatched := covering.attached old owed (same ▸ attached)
        refine ⟨?_, old, rfl, same.symm⟩
        have folded := foldRow_folded owed first (latestOccurrence trig l.task.cron first now) now
        generalize foldRow l first _ now = row at folded
        cases folded with
        | followUp _ _ => exact dispatched
        | behind isOpen _ _ _ _ _ _ => exact absurd dispatched isOpen.1
        | coalesced _ _ => exact dispatched
        | held _ => exact dispatched
        | owed isOpen _ => exact absurd dispatched isOpen.1
    · refine fold_stands covering wf after inside ?_
      intro o mem new upto
      have := safe first owes o mem (by rw [baseline_some covering.mark]; exact new) (by omega)
      exact this

theorem early_covering (covering : Covering occ w0 cron w now l) (wf : l.Wf a) {upcoming : Int}
    (early : earlyOccurrence trig l.task now = some upcoming) (safe : l.EarlySafe trig now) :
    Covering occ w0 cron upcoming now (l.early upcoming now) := by
  have files := safe upcoming early
  unfold earlyOccurrence at early
  rw [covering.mark, Option.bind_some, Option.filter_eq_some_iff] at early
  obtain ⟨next, near⟩ := early
  have after := nextOccurrence_advances trig l.task.cron w upcoming next
  simp only [decide_eq_true_eq] at near
  rw [early_eq]
  refine refile_covering covering ?_ ?_ ?_
  · intro o _ _ upto
    omega
  · intro attached
    cases owed : l.due with
    | none => simp [earlyRow, owed] at attached
    | some old =>
      have noted := note_noted l.runs old upcoming none
      simp only [earlyRow, owed] at attached ⊢
      generalize noteOccurrenceDuringRun l.runs old upcoming none = n at noted attached
      cases noted with
      | followUp dispatched _ => exact ⟨dispatched, old, rfl, rfl⟩
      | behind isOpen _ _ _ _ _ _ => exact absurd (covering.attached old owed attached) isOpen.1
      | coalesced _ _ => exact ⟨covering.attached old owed attached, old, rfl, rfl⟩
      | held _ => exact ⟨covering.attached old owed attached, old, rfl, rfl⟩
      | unnoted isOpen _ => exact absurd (covering.attached old owed attached) isOpen.1
  · intro unblocked
    cases owed : l.due with
    | none =>
      simp only [earlyRow, owed]
      refine ⟨by dsimp only; omega, fun m none => (by cases none), ?_⟩
      intro run mem pays clears o mo start upto
      have began : now ≤ run.startedAt := began_of_detached clears rfl
      omega
    | some old =>
      have noted := note_noted l.runs old upcoming none
      have standing := covering.stands old owed
      simp only [earlyRow, owed] at unblocked ⊢
      generalize noteOccurrenceDuringRun l.runs old upcoming none = n at noted unblocked
      have grows := le_of_lt after
      -- a run that clears the row it still has must have been filed with
      have unchanged : Stands occ w0 w l.runs old →
          (∀ run ∈ l.runs, run.pays = true → Clears run old →
            ∃ filed, l.filedAt upcoming upcoming = some filed ∧ filed ≤ run.startedAt) →
          Stands occ w0 upcoming l.runs old := by
        intro stands filed
        refine stands_grown stands grows ⟨rfl, rfl, rfl⟩ ?_
        intro run mem pays clears _ o mo start upto
        obtain ⟨date, dated, late⟩ := filed run mem pays clears
        have covers := files date dated run mem pays late
        omega
      have fresh : Stands occ w0 w l.runs old →
          Stands occ w0 upcoming l.runs { old with newerDueAt := some upcoming } := by
        intro stands
        refine stands_noted stands grows rfl rfl grows (le_refl _) ?_
        intro run mem pays late o mo start upto
        simp only [tickEarlyTolerance, seconds]
        omega
      cases noted with
      | followUp dispatched unmarked => exact fresh (standing (by simp [dispatched]))
      | behind isOpen _ _ _ _ _ _ => exact fresh (standing isOpen.2)
      | coalesced marked unblocked' =>
        obtain ⟨m, here⟩ := Option.ne_none_iff_exists'.mp marked
        exact unchanged (standing unblocked') fun run mem pays clears =>
          ⟨m, filedAt_marked owed unblocked' here _ _, clears.2 m here⟩
      | held blocked => exact absurd blocked unblocked
      | unnoted isOpen covered =>
        refine unchanged (standing isOpen.2) fun run mem pays clears => ?_
        cases marked : old.newerDueAt with
        | some m => exact ⟨m, filedAt_marked owed isOpen.2 marked _ _, clears.2 m marked⟩
        | none =>
          rw [wf.due old owed, ← wf.task] at covered
          have detached := detached_of_open covering owed isOpen
          exact ⟨old.dueAt, filedAt_owed owed isOpen marked covered,
            began_of_detached clears detached⟩

theorem late_covering (covering : Covering occ w0 cron w now l) :
    Covering occ w0 cron (max w now) now (l.late now) := by
  have shape : l.late now = { l with
      task := { l.task with scheduleBaselineAt := some (max w now) }
      due := some { taskId := l.task.id, dueAt := now, status := .due, updatedAt := now } } := by
    simp [Ledger.late, covering.mark]
  have bound : ∀ o ∈ occ, w0 < o → o ≤ max w now → o ≤ now + tickEarlyTolerance := by
    intro o mem start upto
    by_cases old : o ≤ w
    · exact covering.current o mem start old
    · simp only [tickEarlyTolerance, seconds]
      omega
  rw [shape]
  refine refile_covering covering bound (fun attached => absurd rfl attached) fun _ => ?_
  refine ⟨le_max_right w now, fun m none => (by cases none), ?_⟩
  intro run mem pays clears o mo start upto
  have began : now ≤ run.startedAt := began_of_detached clears rfl
  have := bound o mo start upto
  omega

end Folds

section Steps
variable {env : Env} {occ : Set Int} {w0 w lo hi : Int} {cron : String} {l : Ledger} {a : Nat}

theorem runs_covering (covering : Covering occ w0 cron w lo l) (later : lo ≤ hi) {runs : List Run}
    (kept : ∀ run ∈ l.runs, run.state = .success → run ∈ runs)
    (origin : ∀ run ∈ runs, run.pays = true → lo ≤ run.startedAt ∨
      ∃ old ∈ l.runs, old.pays = true ∧ old.id = run.id ∧ old.startedAt = run.startedAt)
    (cancelled : ∀ run ∈ runs, run.state = .cancelled → run ∈ l.runs) :
    Covering occ w0 cron w hi { l with runs := runs } := by
  refine ⟨covering.enabled, covering.cron, covering.mark, ?_, ?_, covering.attached, ?_, ?_⟩
  · exact (covering_later later covering).current
  · intro none o mo start upto
    obtain ⟨run, mem, success, covers⟩ := covering.covered none o mo start upto
    exact ⟨run, kept run mem success, success, covers⟩
  · intro row owed run mem attached stopped
    exact covering.live row owed run (cancelled run mem stopped) attached stopped
  · intro row owed unblocked
    have stands := covering.stands row owed unblocked
    refine ⟨stands.dated, stands.marked, ?_⟩
    intro run mem pays clears o mo start upto
    rcases origin run mem pays with new | ⟨old, here, paid, id, began⟩
    · have := covering.current o mo start upto
      omega
    · rw [← began]
      refine stands.cleared old here paid ?_ o mo start upto
      unfold Clears at clears ⊢
      rw [began, id]
      exact clears

theorem launch_covering (covering : Covering occ w0 cron w lo l) {row : TaskDue}
    {id : Nat} {stamp : Stamp} {now : Int} (owed : l.due = some row) (ready : row.Ready now)
    (fresh : ∀ run ∈ l.runs, run.id ≠ id) (after : lo ≤ stamp.startedAt) (later : lo ≤ hi) :
    Covering occ w0 cron w hi
      { l with
        due := some (row.dispatchedTo id now), runs := l.runs ++ [pendingRun id a stamp] } := by
  have isOpen : row.Open := by
    rcases ready with due | ⟨retry, -⟩
    · exact ⟨by simp [due], by simp [due]⟩
    · exact ⟨by simp [retry], by simp [retry]⟩
  have stands := covering.stands row owed isOpen.2
  refine ⟨covering.enabled, covering.cron, covering.mark, ?_, fun none => (by cases none), ?_, ?_, ?_⟩
  · exact (covering_later later covering).current
  · intro row' same attached
    obtain rfl := Option.some.inj same
    rfl
  · intro row' same run mem attached
    obtain rfl := Option.some.inj same
    rcases List.mem_append.mp mem with old | new
    · exact absurd (Option.some.inj attached).symm (fresh run old)
    · obtain rfl := List.mem_singleton.mp new
      simp [pendingRun]
  · intro row' same _
    obtain rfl := Option.some.inj same
    refine ⟨stands.dated, stands.marked, ?_⟩
    intro run mem pays clears o mo start upto
    rcases List.mem_append.mp mem with old | new
    · have due : row.dueAt ≤ run.startedAt := by
        rcases clears.1 with due | attached
        · exact due
        · exact absurd (Option.some.inj attached).symm (fresh run old)
      exact stands.cleared run old pays ⟨Or.inl due, clears.2⟩ o mo start upto
    · obtain rfl := List.mem_singleton.mp new
      have := covering.current o mo start upto
      simp only [pendingRun]
      omega

theorem finish_covering (covering : Covering occ w0 cron w lo l) (wf : l.Wf a) (later : lo ≤ hi)
    {run new : Run} {now : Int} (mem : run ∈ l.runs) (running : run.state = .running)
    (id : new.id = run.id) (owner : new.taskId = run.taskId)
    (began : new.startedAt = run.startedAt) (uncancelled : new.state ≠ .cancelled) :
    Covering occ w0 cron w hi (l.endRun new now) := by
  have swapped : Covering occ w0 cron w hi { l with runs := l.runs.map (swapRun new) } := by
    refine runs_covering covering later ?_ ?_ ?_
    · intro r here success
      refine mem_swapRuns_of_ne here fun same => ?_
      have one := run_unique wf here mem (same.trans id)
      rw [one, running] at success
      cases success
    · intro r here pays
      rcases mem_swapRuns here with old | ⟨rfl, -⟩
      · exact Or.inr ⟨r, old, pays, rfl, rfl⟩
      · exact Or.inr ⟨run, mem, by simp [Run.pays, running], id.symm, began.symm⟩
    · intro r here stopped
      rcases mem_swapRuns here with old | ⟨rfl, -⟩
      · exact old
      · exact absurd stopped uncancelled
  cases owed : l.due with
  | none =>
    rw [endRun_of_none owed]
    exact swapped
  | some row =>
    by_cases attached : row.runId = some new.id
    · rw [endRun_of_attached owed attached]
      have dispatched := covering.attached row owed (by rw [attached]; simp)
      exact settled_covering swapped (swap_wf wf mem id owner) owed
        (applyRunOutcome_settled now dispatched (mem_swapRun_self mem id) attached)
    · rw [endRun_of_other owed attached]
      exact swapped

theorem failRuns_covering (covering : Covering occ w0 cron w lo l) (later : lo ≤ hi)
    {f : Run → Run} (spares : ∀ run, run.state.active = false → f run = run)
    (fails : ∀ run, run.state.active = true → f run = run ∨ (f run).state = .failed) :
    Covering occ w0 cron w hi { l with runs := l.runs.map f } := by
  have old : ∀ run, (f run).state ≠ .failed → f run = run := by
    intro run alive
    cases active : run.state.active with
    | false => exact spares run active
    | true => exact (fails run active).resolve_right alive
  refine runs_covering covering later ?_ ?_ ?_
  · intro run mem success
    exact List.mem_map.mpr ⟨run, mem, spares run (by simp [success])⟩
  · intro run mem pays
    obtain ⟨before, here, rfl⟩ := List.mem_map.mp mem
    have same := old before (by intro failed; simp [Run.pays, failed] at pays)
    rw [same] at pays ⊢
    exact Or.inr ⟨before, here, pays, rfl, rfl⟩
  · intro run mem stopped
    obtain ⟨before, here, rfl⟩ := List.mem_map.mp mem
    rw [old before (by simp [stopped])]
    exact here

theorem swap_covering (covering : Covering occ w0 cron w lo l) (wf : l.Wf a) (later : lo ≤ hi)
    {run new : Run} (mem : run ∈ l.runs) (active : run.state.active = true)
    (id : new.id = run.id) (uncancelled : new.state ≠ .cancelled)
    (start : new.pays = true → lo ≤ new.startedAt) :
    Covering occ w0 cron w hi { l with runs := l.runs.map (swapRun new) } := by
  refine runs_covering covering later ?_ ?_ ?_
  · intro r here success
    refine mem_swapRuns_of_ne here fun same => ?_
    have one := run_unique wf here mem (same.trans id)
    rw [one] at success
    simp [success] at active
  · intro r here pays
    rcases mem_swapRuns here with old | ⟨rfl, -⟩
    · exact Or.inr ⟨r, old, pays, rfl, rfl⟩
    · exact Or.inl (start pays)
  · intro r here stopped
    rcases mem_swapRuns here with old | ⟨rfl, -⟩
    · exact old
    · exact absurd stopped uncancelled

theorem terminal_uncancelled {run : Run} {ending : Ending} {requested : Bool} {stats : Stats}
    {now : Int} (natural : requested = false) :
    (run.terminal ending requested stats now).state ≠ .cancelled := by
  cases ending with
  | exited code =>
    simp only [Run.terminal, Ending.state]
    split <;> simp
  | cancelled => simp [Run.terminal, Ending.state, natural]
  | timedOut after => simp [Run.terminal, Ending.state]

theorem reconcile_covering {trig : Trigger} {now : Int} (covering : Covering occ w0 cron w now l)
    (wf : l.Wf a) (parses : trig.parses cron = true) (safe : (l.settle now).ScanSafe trig occ now) :
    ∃ w', Covering occ w0 cron w' now (reconcileOne trig l now) := by
  have settled := settle_covering now covering wf
  rw [reconcileOne_eq, covering.enabled, covering.cron, parses]
  exact scan_covering settled (follows_wf (settle_follows l now) wf) safe

theorem tick_covering {trig : Trigger} {now : Int} (covering : Covering occ w0 cron w now l)
    (wf : l.Wf a) (parses : trig.parses cron = true) (safe : (l.settle now).ScanSafe trig occ now)
    (early : ((l.settle now).scan trig now).EarlySafe trig now) :
    ∃ w', Covering occ w0 cron w' now (recordTick trig l now) := by
  have settled := settle_covering now covering wf
  obtain ⟨w', scanned⟩ :=
    scan_covering settled (follows_wf (settle_follows l now) wf) safe
  have wf' := follows_wf (settle_scan_follows trig l now) wf
  rw [recordTick_eq, covering.enabled, covering.cron, parses]
  simp only [Bool.true_eq_false, if_false]
  split
  · rename_i upcoming here
    exact ⟨upcoming, early_covering scanned wf' here early⟩
  split
  · exact ⟨max w' now, late_covering scanned⟩
  split
  · exact ⟨w', scanned⟩
  · exact ⟨w, covering⟩

theorem effect_covering {s : Service} {op : Op} {l' : Ledger} (parses : env.trig.parses cron = true)
    (undisturbed : Undisturbed a s op) (safe : FoldsSafely env.trig occ a s op)
    (view : s.db.view a = some l) (wf : l.Wf a) (later : lo ≤ hi)
    (holds : ∃ w, Covering occ w0 cron w lo l) (effect : Effect env a lo hi op l l') :
    ∃ w, Covering occ w0 cron w hi l' := by
  obtain ⟨w, covering⟩ := holds
  have natural : ∀ run ∈ l.runs, ∀ requested : Bool,
      (requested = true → ∀ r, s.db.runs.get run.id = some r → r.taskId ≠ a) →
      requested = false := by
    intro run mem requested other
    obtain ⟨here, owner⟩ := (mem_view_runs view).mp mem
    cases requested with
    | false => rfl
    | true => exact absurd owner (other rfl run (Table.get_of_mem here))
  have settled : ∀ now, lo ≤ now ∧ now ≤ hi → Covering occ w0 cron w hi (l.settle now) :=
    fun now _ => covering_later later (settle_covering now covering wf)
  cases effect with
  | idle => exact ⟨w, covering_later later covering⟩
  | @reconcile now l time =>
    obtain ⟨w', result⟩ :=
      reconcile_covering (covering_later time.1 covering) wf parses (safe l view rfl)
    exact ⟨w', covering_later time.2 result⟩
  | @tick now l time =>
    obtain ⟨scanSafe, earlySafe⟩ := safe l view rfl
    obtain ⟨w', result⟩ :=
      tick_covering (covering_later time.1 covering) wf parses scanSafe earlySafe
    exact ⟨w', covering_later time.2 result⟩
  | settle time => exact ⟨w, settled _ time⟩
  | pass time => exact ⟨w, settled _ time⟩
  | drop time owed other disabled =>
    rw [covering.enabled] at disabled
    cases disabled
  | @wait probe now stamps l row reason time owed ready =>
    have base := settled now time
    refine ⟨w, covering_due base owed (fun none => by cases none) fun row' same => ?_⟩
    obtain rfl := Option.some.inj same
    refine ⟨fun _ => ⟨rfl, rfl⟩, fun unblocked => ?_⟩
    have stands := base.stands row owed unblocked
    exact ⟨stands.dated, stands.marked, stands.cleared⟩
  | @launch probe now stamps l row id stamp time owed ready enabled quiet fresh started =>
    have base := settle_covering now covering wf
    exact ⟨w, launch_covering base owed ready fresh (time.1.trans started.1) later⟩
  | runNow quiet fresh started =>
    refine ⟨w, runs_covering covering later ?_ ?_ ?_⟩
    · intro run mem _
      exact List.mem_append_left _ mem
    · intro run mem pays
      rcases List.mem_append.mp mem with old | new
      · exact Or.inr ⟨run, old, pays, rfl, rfl⟩
      · obtain rfl := List.mem_singleton.mp new
        exact Or.inl started.1
    · intro run mem stopped
      rcases List.mem_append.mp mem with old | new
      · exact old
      · obtain rfl := List.mem_singleton.mp new
        cases stopped
  | start time mem pending =>
    exact ⟨w, swap_covering covering wf later mem (by simp [pending]) rfl (by simp) fun _ => time.1⟩
  | @finish ending requested stats now l run time mem running =>
    have self := natural run mem requested undisturbed
    exact ⟨w, finish_covering covering wf later mem running rfl rfl rfl (terminal_uncancelled self)⟩
  | @abandon reason requested now l run new time mem active failed =>
    have self := natural run mem requested undisturbed
    have shape : new = run.failed reason.message now := by
      rcases failed with plain | ⟨asked, -⟩
      · exact plain
      · rw [self] at asked
        cases asked
    subst shape
    refine ⟨w, swap_covering covering wf later mem active rfl (by simp [Run.failed]) fun pays => ?_⟩
    simp [Run.pays, Run.failed] at pays
  | sweep time =>
    refine ⟨w, failRuns_covering covering later ?_ ?_⟩
    · intro run ended
      simp [orphaned, ended]
    · intro run active
      split
      · exact Or.inr rfl
      · exact Or.inl rfl
  | restart time =>
    refine ⟨w, failRuns_covering covering later ?_ ?_⟩
    · intro run ended
      simp [ended]
    · intro run active
      simp [active, Run.failed]
  | update time allowed => exact absurd rfl undisturbed

theorem start_covering {task : Task} {c : Int} (id : l.task = task) (enabled : task.enabled = true)
    (mark : task.scheduleBaselineAt = some w0) (clear : l.due = none) :
    Covering occ w0 task.cron w0 c l := by
  subst id
  refine ⟨enabled, rfl, mark, ?_, ?_, ?_, ?_, ?_⟩
  · intro o _ start upto
    omega
  · intro _ o _ start upto
    omega
  all_goals
    intro row owed
    rw [clear] at owed
    cases owed

end Steps

/-- In a history without cancel, edit, disable or deletion of the task, and in which no fold
    files an occurrence behind a run that started too early for it, a task without an obligation
    has a success for every occurrence its watermark has passed. -/
theorem none_lost_of_safe_folds {env : Env} {a : Nat} {w0 : Int} {task : Task} {s t : Service}
    {ops : List Op} (reachable : Reachable env s) (stored : s.db.tasks.get a = some task)
    (enabled : task.enabled = true) (parses : env.trig.parses task.cron = true)
    (mark : task.scheduleBaselineAt = some w0) (clear : s.db.taskDue.get a = none)
    (history : Trace (fun s op t => Step env s op t ∧ Undisturbed a s op ∧
      FoldsSafely env.trig (occurrences env.trig task.cron) a s op) s ops t) :
    NoneLost (occurrences env.trig task.cron) a w0 t.db := by
  have linked := reachable_linked reachable
  have view : s.db.view a = some
      { task := task, due := none, runs := s.db.runs.rows.filter (ownedBy a) } := by
    rw [view_eq, stored, clear]
    rfl
  obtain ⟨l, view', ⟨w, covering⟩, -⟩ :=
    trace_view
      (fun s op => Undisturbed a s op ∧
        FoldsSafely env.trig (occurrences env.trig task.cron) a s op)
      (fun c l => ∃ w, Covering (occurrences env.trig task.cron) w0 task.cron w c l)
      (fun s op allowed same => by subst same; exact allowed.1 rfl)
      (fun s op t l l' allowed step view wf holds effect =>
        effect_covering parses allowed.1 allowed.2 view wf (clock_le step) holds effect)
      history linked view ⟨w0, start_covering rfl enabled mark rfl⟩
  obtain ⟨runs, -, due, found⟩ := view_runs view'
  intro idle task' stored' w' mark' o mo start upto
  obtain rfl : l.task = task' := Option.some.inj (found.symm.trans stored')
  obtain rfl : w = w' := Option.some.inj (covering.mark.symm.trans mark')
  obtain ⟨run, mem, success, covers⟩ := covering.covered (due.trans idle) o mo start upto
  obtain ⟨here, owner⟩ := (mem_view_runs view').mp mem
  exact ⟨run, here, owner, success, by omega⟩

theorem folds_safely_without_runs {trig : Trigger} {occ : Set Int} {a : Nat} {s : Service} {op : Op}
    (none : s.db.runs.rows = []) : FoldsSafely trig occ a s op := by
  intro l view
  have empty : l.runs = [] := by
    rw [(view_runs view).1, none]
    rfl
  cases op with
  | reconcile t now =>
    intro _ first _ o _ _ _ filed _ run mem
    simp [Ledger.settle, empty] at mem
  | tick t now =>
    refine fun _ => ⟨?_, ?_⟩
    · intro first _ o _ _ _ filed _ run mem
      simp [Ledger.settle, empty] at mem
    · intro upcoming _ filed _ run mem
      rw [(settle_scan_follows trig l now).runs, empty] at mem
      cases mem
  | _ => trivial

/-- The tick of the first minute is recorded, dispatched and paid. -/
def Sample.firstMinute : List Op :=
  [.tick 1 (seconds 60), .dispatch Sample.probe (seconds 61) [Sample.stamp 61],
    .start 1 (seconds 62), .finish 1 (.exited 0) false {} (seconds 63)]

theorem none_lost_first_minute :
    NoneLost (occurrences Sample.everyMinute "* * * * *") 1 0
      (Sample.start.exec Sample.env Sample.firstMinute).db := by
  have along : Along Sample.env (fun s op => Undisturbed 1 s op ∧
      FoldsSafely Sample.everyMinute (occurrences Sample.everyMinute "* * * * *") 1 s op)
      Sample.start Sample.firstMinute := by
    refine ⟨⟨by decide, by decide, folds_safely_without_runs (by decide)⟩, ?_⟩
    refine ⟨⟨by decide, by decide, fun _ _ => trivial⟩, ?_⟩
    refine ⟨⟨by decide, by decide, fun _ _ => trivial⟩, ?_⟩
    exact ⟨⟨by decide, by decide, fun _ _ => trivial⟩, trivial⟩
  have stored : Sample.start.db.tasks.get 1 = some Sample.task := by decide
  exact none_lost_of_safe_folds Sample.start_reachable stored rfl (by decide) rfl (by decide)
    (trace_along along)

def Sample.lateRun : List Op :=
  [.runNow 1 (Sample.stamp 70), .start 1 (seconds 71), .reconcile 1 (seconds 130),
    .finish 1 (.exited 0) false {} (seconds 140), .settle (seconds 141)]

theorem occurrence_lost_behind_late_run :
    ¬ ∀ (env : Env) (a : Nat) (w0 : Int) (task : Task) (s t : Service) (ops : List Op),
      Reachable env s → s.db.tasks.get a = some task → task.enabled = true →
      env.trig.parses task.cron = true →
      Schedule.IsNext (occurrences env.trig task.cron) (nextOccurrence env.trig task.cron) →
      task.scheduleBaselineAt = some w0 → s.db.taskDue.get a = none →
      Trace (fun s op t => Step env s op t ∧ Undisturbed a s op) s ops t →
      NoneLost (occurrences env.trig task.cron) a w0 t.db := by
  intro claim
  have along : Along Sample.env (Undisturbed 1) Sample.start Sample.lateRun := by decide
  have stored : Sample.start.db.tasks.get 1 = some Sample.task := by decide
  have covered := claim Sample.env 1 0 Sample.task Sample.start _ Sample.lateRun
    Sample.start_reachable stored rfl (by decide)
    (Schedule.isNext_answers Sample.everyMinute_next) rfl (by decide) (trace_along along)
  have after : ((Sample.start.exec Sample.env Sample.lateRun).db.tasks.get 1).bind
      Task.scheduleBaselineAt = some (seconds 120) := by decide
  obtain ⟨task, found, mark⟩ := Option.bind_eq_some_iff.mp after
  have minute : seconds 120 ∈ occurrences Sample.everyMinute "* * * * *" :=
    ⟨seconds 60, by decide⟩
  have run := covered (by decide) task found (seconds 120) mark (seconds 120) minute (by decide)
    (le_refl _)
  revert run
  decide

end Pullbackup
