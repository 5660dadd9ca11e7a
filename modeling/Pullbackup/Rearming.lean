import Pullbackup.Settlement

/- Exhausted debt and the occurrences after it: which calls that account for an
   occurrence arm the row again. -/
namespace Pullbackup
open KeyedTable

/-- The two calls that move the watermark past occurrences. -/
inductive DueCall where
  | reconcileTask
  | recordTick
  deriving DecidableEq, Repr

def DueCall.run (trig : Trigger) (l : Ledger) (now : Int) : DueCall → Ledger
  | .reconcileTask => (Pullbackup.reconcileTask trig (Session.begin l) now).1.work
  | .recordTick => Pullbackup.recordTick trig l now

structure ExhaustedDebt (trig : Trigger) (l : Ledger) (row : TaskDue) : Prop where
  enabled : l.task.enabled = true
  readable : trig.parses l.task.cron = true
  owed : l.due = some row
  exhausted : row.status = .exhausted
  unpaid : Unpaid l.runs row
  idle : NoneActive l.runs row.taskId

/-- The call moved the watermark past an occurrence of the task's schedule. -/
def Consumes (trig : Trigger) (l l' : Ledger) : Prop :=
  ∃ occurrence ∈ occurrences trig l.task.cron, l.baseline < occurrence ∧
    ∃ mark ∈ l'.task.scheduleBaselineAt, occurrence ≤ mark

def TaskDue.Fresh (row : TaskDue) : Prop :=
  row.status = .due ∧ row.attempts = 0 ∧ row.retryAt = none

def Rearmed (l : Ledger) : Prop := ∃ row, l.due = some row ∧ row.Fresh

/-- A tick a hair early for the next occurrence, with nothing else owed. -/
def EarlyTick (trig : Trigger) (l : Ledger) (now : Int) : Prop :=
  ∃ upcoming, nextOccurrence trig l.task.cron l.baseline = some upcoming ∧ now < upcoming ∧
    upcoming ≤ now + tickEarlyTolerance

section Debt
variable {trig : Trigger} {l : Ledger} {row : TaskDue} {now : Int}

theorem exhausted_open (exhausted : row.status = .exhausted) : row.Open := by
  simp [TaskDue.Open, exhausted]

theorem fresh_open (fresh : row.Fresh) : row.Open := by
  simp [TaskDue.Open, fresh.1]

theorem note_idle {runs : List Run} (isOpen : row.Open) (idle : NoneActive runs row.taskId)
    (instant : Int) (latest : Option Int) :
    noteOccurrenceDuringRun runs row instant latest = (false, row) := by
  have none := activeRunStartedAt_none.mpr idle
  unfold noteOccurrenceDuringRun
  split
  · rename_i dispatched
    exact absurd dispatched isOpen.1
  · rfl
  · simp [none]

theorem settle_exhausted (debt : ExhaustedDebt trig l row) (now : Int) :
    ∃ row', (l.settle now).due = some row' ∧ row'.taskId = row.taskId ∧
      (row.newerDueAt = none → row' = row) ∧ (row.newerDueAt ≠ none → row'.Fresh) := by
  have unpaid := paidBy_none_iff.mpr debt.unpaid
  have idle := activeRunStartedAt_none.mpr debt.idle
  have settled : (l.settle now).due = settleRow l.runs row now := by
    simp [Ledger.settle, debt.owed]
  rw [settled]
  unfold settleRow
  simp only [debt.exhausted, unpaid, idle, and_true, if_true]
  by_cases marked : row.newerDueAt = none
  · simp [marked]
  · rw [if_pos marked]
    exact ⟨_, rfl, rfl, fun absent => absurd absent marked, fun _ => ⟨rfl, rfl, rfl⟩⟩

/-- A fold with no run active arms an exhausted row again and leaves a fresh one. -/
theorem fold_idle (trig : Trigger) (now : Int) (owed : l.due = some row) (idle : NoneActive l.runs row.taskId)
    (state : row.status = .exhausted ∨ row.Fresh) (first : Int) :
    ∃ row', (l.fold trig first now).due = some row' ∧ row'.taskId = row.taskId ∧ row'.Fresh := by
  have isOpen : row.Open := state.elim exhausted_open fresh_open
  rw [fold_eq]
  refine ⟨_, rfl, ?_⟩
  unfold foldRow
  simp only [owed, note_idle isOpen idle, Bool.false_eq_true, if_false]
  rcases state with exhausted | fresh
  · rw [if_pos exhausted]
    exact ⟨rfl, rfl, rfl, rfl⟩
  · rw [if_neg (by rw [fresh.1]; decide)]
    exact ⟨rfl, fresh⟩

theorem early_idle (now : Int) (owed : l.due = some row) (isOpen : row.Open)
    (idle : NoneActive l.runs row.taskId) (upcoming : Int) :
    (l.early upcoming now).due = some row ∧
      (l.early upcoming now).task.scheduleBaselineAt = some upcoming := by
  rw [early_eq]
  unfold earlyRow
  simp only [owed, note_idle isOpen idle, and_self]

theorem settle_baseline (l : Ledger) (now : Int) : (l.settle now).baseline = l.baseline := rfl

theorem scan_owing (debt : ExhaustedDebt trig l row) {first : Int}
    (owes : (l.settle now).owes trig now = some first) :
    ∃ row', ((l.settle now).scan trig now).due = some row' ∧ row'.taskId = row.taskId ∧
      row'.Fresh := by
  obtain ⟨row', owed, owner, unmarked, marked⟩ := settle_exhausted debt now
  have idle : NoneActive (l.settle now).runs row'.taskId := owner ▸ debt.idle
  have state : row'.status = .exhausted ∨ row'.Fresh := by
    by_cases none : row.newerDueAt = none
    · exact Or.inl (unmarked none ▸ debt.exhausted)
    · exact Or.inr (marked none)
  obtain ⟨row'', folded, owner', fresh⟩ := fold_idle trig now owed idle state first
  refine ⟨row'', ?_, owner'.trans owner, fresh⟩
  unfold Ledger.scan
  rw [owes]
  exact folded

theorem scan_owing_nothing (owes : (l.settle now).owes trig now = none) :
    (l.settle now).scan trig now = (l.settle now).keep := by
  unfold Ledger.scan
  rw [owes]

theorem consumes_not_kept {l' : Ledger} (mark : l'.task.scheduleBaselineAt = some l.baseline) :
    ¬ Consumes trig l l' := by
  rintro ⟨occurrence, -, later, mark', stored, passed⟩
  rw [mark] at stored
  obtain rfl := Option.some.inj stored
  omega

theorem reconcile_rearms (debt : ExhaustedDebt trig l row)
    (consumes : Consumes trig l (DueCall.reconcileTask.run trig l now)) :
    Rearmed (DueCall.reconcileTask.run trig l now) := by
  have work : DueCall.reconcileTask.run trig l now = (l.settle now).scan trig now := by
    unfold DueCall.run
    rw [reconcileTask_scan debt.enabled debt.readable]
  rw [work] at consumes ⊢
  cases owes : (l.settle now).owes trig now with
  | none =>
    rw [scan_owing_nothing owes] at consumes
    exact absurd consumes (consumes_not_kept (keep_baseline _).1)
  | some first =>
    obtain ⟨row', owed, -, fresh⟩ := scan_owing debt owes
    exact ⟨row', owed, fresh⟩

theorem early_iff {upcoming : Int} (owes : (l.settle now).owes trig now = none) :
    earlyOccurrence trig (l.settle now).keep.task now = some upcoming ↔
      nextOccurrence trig l.task.cron l.baseline = some upcoming ∧ now < upcoming ∧
        upcoming ≤ now + tickEarlyTolerance := by
  have cron : (l.settle now).task.cron = l.task.cron := rfl
  rw [early_keep, cron, settle_baseline, Option.filter_eq_some_iff]
  simp only [decide_eq_true_eq]
  refine and_congr_right fun next => ?_
  have later : now < upcoming := owes_none owes next
  omega

theorem tick_owing_nothing (debt : ExhaustedDebt trig l row)
    (owes : (l.settle now).owes trig now = none) :
    recordTick trig l now =
      match earlyOccurrence trig (l.settle now).keep.task now with
      | some upcoming => (l.settle now).keep.early upcoming now
      | none => l := by
  obtain ⟨row', owed, -, -, -⟩ := settle_exhausted debt now
  have kept : (l.settle now).keep.due ≠ none := by
    rw [keep_eq]
    exact fun none => by cases owed.symm.trans none
  rw [recordTick_eq]
  cases early : earlyOccurrence trig (l.settle now).keep.task now with
  | none =>
    simp [debt.enabled, debt.readable, scan_owing_nothing owes, owes, kept, early]
  | some upcoming =>
    simp [debt.enabled, debt.readable, scan_owing_nothing owes, early]

theorem tick_owing (debt : ExhaustedDebt trig l row) {first : Int}
    (owes : (l.settle now).owes trig now = some first) : Rearmed (recordTick trig l now) := by
  obtain ⟨row', owed, owner, fresh⟩ := scan_owing debt owes
  have idle : NoneActive ((l.settle now).scan trig now).runs row'.taskId := by
    rw [(settle_scan_follows trig l now).runs, owner]
    exact debt.idle
  rw [recordTick_eq]
  simp only [debt.enabled, debt.readable, Bool.true_eq_false, if_false]
  split
  · rename_i upcoming early
    exact ⟨row', (early_idle now owed (fresh_open fresh) idle upcoming).1, fresh⟩
  · have there : ((l.settle now).scan trig now).due ≠ none := by rw [owed]; simp
    simp only [there, false_and, if_false, owes, Option.isSome_some, if_true]
    exact ⟨row', owed, fresh⟩

/-- An early tick takes the occurrence and leaves the row as the settlement did. -/
theorem tick_early (debt : ExhaustedDebt trig l row)
    (owes : (l.settle now).owes trig now = none) (early : EarlyTick trig l now) :
    Consumes trig l (recordTick trig l now) ∧
      (Rearmed (recordTick trig l now) ↔ row.newerDueAt ≠ none) := by
  obtain ⟨upcoming, next, later, near⟩ := early
  have taken := (early_iff owes).mpr ⟨next, later, near⟩
  obtain ⟨row', owed, owner, unmarked, marked⟩ := settle_exhausted debt now
  have kept : (l.settle now).keep.due = some row' := by
    rw [keep_eq]
    exact owed
  have idle : NoneActive (l.settle now).keep.runs row'.taskId := by
    rw [keep_eq, owner]
    exact debt.idle
  have isOpen : row'.Open := by
    by_cases none : row.newerDueAt = none
    · exact unmarked none ▸ exhausted_open debt.exhausted
    · exact fresh_open (marked none)
  obtain ⟨due, mark⟩ := early_idle now kept isOpen idle upcoming
  rw [tick_owing_nothing debt owes, taken]
  refine ⟨⟨upcoming, ⟨l.baseline, next⟩, ?_, upcoming, mark, le_refl _⟩, ?_⟩
  · exact nextOccurrence_advances trig l.task.cron l.baseline upcoming next
  constructor
  · rintro ⟨row'', owed', fresh⟩ none
    obtain rfl := Option.some.inj (due.symm.trans owed')
    rw [unmarked none] at fresh
    cases debt.exhausted.symm.trans fresh.1
  · exact fun some => ⟨row', due, marked some⟩

theorem tick_rearms_iff (debt : ExhaustedDebt trig l row) :
    (Consumes trig l (recordTick trig l now) → Rearmed (recordTick trig l now)) ↔
      ¬ (row.newerDueAt = none ∧ EarlyTick trig l now) := by
  cases owes : (l.settle now).owes trig now with
  | some first =>
    have pending := (owes_some owes).2
    refine iff_of_true (fun _ => tick_owing debt owes) ?_
    rintro ⟨-, upcoming, next, later, -⟩
    obtain rfl := Option.some.inj (next.symm.trans (owes_some owes).1)
    omega
  | none =>
    by_cases early : EarlyTick trig l now
    · obtain ⟨consumes, rearmed⟩ := tick_early debt owes early
      simp only [consumes, true_implies, rearmed, early, and_true, ne_eq]
    · have punctual : earlyOccurrence trig (l.settle now).keep.task now = none := by
        refine Option.eq_none_iff_forall_ne_some.mpr fun upcoming found => ?_
        exact early ⟨upcoming, (early_iff owes).mp found⟩
      refine iff_of_true (fun consumes => ?_) fun both => early both.2
      rw [tick_owing_nothing debt owes, punctual] at consumes
      obtain ⟨-, -, -, mark, stored, -⟩ := id consumes
      exact absurd consumes (consumes_not_kept (stored.trans (by rw [baseline_some stored])))

end Debt

/-- A call that moves the watermark of an exhausted task past an occurrence arms its row again,
    except for the tick that is early for the next occurrence when nothing else is owed. -/
theorem occurrence_rearms_iff {trig : Trigger} {l : Ledger} {row : TaskDue}
    (debt : ExhaustedDebt trig l row) (call : DueCall) (now : Int) :
    (Consumes trig l (call.run trig l now) → Rearmed (call.run trig l now)) ↔
      ¬ (call = .recordTick ∧ row.newerDueAt = none ∧ EarlyTick trig l now) := by
  cases call with
  | reconcileTask =>
    exact iff_of_true (reconcile_rearms debt) fun other => by cases other.1
  | recordTick =>
    rw [show DueCall.recordTick.run trig l now = recordTick trig l now from rfl,
      tick_rearms_iff debt]
    simp only [true_and]

def Sample.hourly : Trigger where
  parses cron := cron = "0 * * * *"
  nextFireTime _ after := some (after / seconds 3600 * seconds 3600 + seconds 3600)
  shown cron := "'" ++ cron ++ "'"

def Sample.spent : TaskDue :=
  { taskId := 1, dueAt := seconds 3600, status := .exhausted, attempts := 6
    lastError := "rsync exited 23", updatedAt := seconds 5500 }

def Sample.spentHour : Ledger where
  task := { Sample.task with cron := "0 * * * *", scheduleBaselineAt := some (seconds 3600) }
  due := some Sample.spent
  runs := [{ id := 6, taskId := 1, state := .failed, startedAt := seconds 5470
             finishedAt := some (seconds 5500), exitCode := some 23
             errorMessage := "rsync exited 23", logFilename := ⟨1, 5470⟩ }]

theorem spent_debt : ExhaustedDebt Sample.hourly Sample.spentHour Sample.spent where
  enabled := rfl
  readable := by decide
  owed := rfl
  exhausted := rfl
  unpaid := by unfold Unpaid; decide
  idle := by unfold NoneActive; decide

/-- The tick of the next hour, on time or late, arms the row again. -/
theorem punctual_tick_rearms :
    Consumes Sample.hourly Sample.spentHour
        (DueCall.recordTick.run Sample.hourly Sample.spentHour (seconds 7200)) ∧
      Rearmed (DueCall.recordTick.run Sample.hourly Sample.spentHour (seconds 7200)) := by
  have consumes : Consumes Sample.hourly Sample.spentHour
      (DueCall.recordTick.run Sample.hourly Sample.spentHour (seconds 7200)) :=
    ⟨seconds 7200, ⟨seconds 3600, by decide⟩, by decide, seconds 7200, by decide, le_refl _⟩
  refine ⟨consumes, (occurrence_rearms_iff spent_debt .recordTick (seconds 7200)).mpr ?_ consumes⟩
  rintro ⟨-, -, upcoming, next, later, -⟩
  have fires : nextOccurrence Sample.hourly "0 * * * *" (seconds 3600) = some (seconds 7200) := by
    decide
  obtain rfl := Option.some.inj (next.symm.trans fires)
  exact lt_irrefl _ later

/-- A tick half a second early takes the hour and leaves the row exhausted. -/
theorem early_tick_swallows :
    ¬ ∀ (trig : Trigger) (l : Ledger) (row : TaskDue) (call : DueCall) (now : Int),
      ExhaustedDebt trig l row → Consumes trig l (call.run trig l now) →
      Rearmed (call.run trig l now) := by
  intro claim
  obtain ⟨row, owed, fresh⟩ := claim Sample.hourly Sample.spentHour Sample.spent .recordTick
    (seconds 7200 - 500000) spent_debt
    ⟨seconds 7200, ⟨seconds 3600, by decide⟩, by decide, seconds 7200, by decide, le_refl _⟩
  have left : (DueCall.recordTick.run Sample.hourly Sample.spentHour
      (seconds 7200 - 500000)).due.map TaskDue.status = some .exhausted := by decide
  rw [owed, Option.map_some, fresh.1] at left
  cases left

end Pullbackup
