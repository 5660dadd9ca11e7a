import Pullbackup.Progress

/- Inversion of the settlement and of the fold: everything each can do to a row,
   with the facts about the run table it does it for. -/
namespace Pullbackup
open KeyedTable

/-- Due, retry or exhausted: the statuses a later success can pay. -/
def TaskDue.Open (row : TaskDue) : Prop := row.status ≠ .dispatched ∧ row.status ≠ .blocked

def Unpaid (runs : List Run) (row : TaskDue) : Prop :=
  ∀ run ∈ runs, run.taskId = row.taskId → run.state = .success → run.startedAt < row.dueAt

def NoneActive (runs : List Run) (taskId : Nat) : Prop :=
  ∀ run ∈ runs, run.taskId = taskId → run.state.active = false

inductive Settled (runs : List Run) (row : TaskDue) (now : Int) : Option TaskDue → Prop where
  | missing (attached : row.status = .dispatched) (gone : runOf runs row = none) :
      Settled runs row now (some { row with status := .due, runId := none })
  | active {run : Run} (dispatched : row.status = .dispatched) (mem : run ∈ runs)
      (attached : row.runId = some run.id) (active : run.state.active = true) :
      Settled runs row now (some row)
  | succeeded {run : Run} (dispatched : row.status = .dispatched) (mem : run ∈ runs)
      (attached : row.runId = some run.id) (success : run.state = .success) :
      Settled runs row now (finish row row.newerDueAt now)
  | cancelled {run : Run} (dispatched : row.status = .dispatched) (mem : run ∈ runs)
      (attached : row.runId = some run.id) (cancelled : run.state = .cancelled) :
      Settled runs row now none
  | failed {run : Run} (dispatched : row.status = .dispatched) (mem : run ∈ runs)
      (attached : row.runId = some run.id) (failed : run.state = .failed) :
      Settled runs row now (some (failOutcome row run.errorMessage now))
  | blocked (blocked : row.status = .blocked) : Settled runs row now (some row)
  | paid {run : Run} (isOpen : row.Open) (mem : run ∈ runs) (owner : run.taskId = row.taskId)
      (success : run.state = .success) (pays : row.dueAt ≤ run.startedAt)
      (last : ∀ r ∈ runs, r.taskId = row.taskId → r.state = .success → row.dueAt ≤ r.startedAt →
        r.startedAt ≤ run.startedAt) :
      Settled runs row now
        (finish row (row.newerDueAt.filter fun followUp => run.startedAt < followUp) now)
  | unmarked (isOpen : row.Open) (unpaid : Unpaid runs row) (marked : row.newerDueAt ≠ none)
      (idle : NoneActive runs row.taskId) :
      Settled runs row now
        (some { (if row.status = .exhausted then ({ row with newerDueAt := none } : TaskDue).rearm
          else { row with newerDueAt := none }) with updatedAt := now })
  | owed (isOpen : row.Open) (unpaid : Unpaid runs row) : Settled runs row now (some row)

theorem activeRunStartedAt_none {runs : List Run} {taskId : Nat} :
    activeRunStartedAt runs taskId = none ↔ NoneActive runs taskId := by
  unfold activeRunStartedAt NoneActive
  rw [Option.map_eq_none_iff, firstBy_eq_none_iff]
  constructor
  · intro none run mem owner
    have here := none run mem
    simp only [decide_eq_false_iff_not, not_and, Bool.not_eq_true] at here
    exact here owner
  · intro idle run mem
    simp only [decide_eq_false_iff_not, not_and, Bool.not_eq_true]
    exact idle run mem

theorem activeRunStartedAt_some {runs : List Run} {taskId : Nat} {started : Int}
    (h : activeRunStartedAt runs taskId = some started) :
    ∃ run ∈ runs, run.taskId = taskId ∧ run.state.active = true ∧ run.startedAt = started := by
  unfold activeRunStartedAt at h
  obtain ⟨run, first, rfl⟩ := Option.map_eq_some_iff.mp h
  obtain ⟨mem, holds, -⟩ := firstBy_some first
  simp only [decide_eq_true_eq] at holds
  exact ⟨run, mem, holds.1, holds.2, rfl⟩

theorem paidBy_none {runs : List Run} {row : TaskDue} (h : paidBy runs row = none) :
    Unpaid runs row := by
  unfold paidBy at h
  intro run mem owner success
  have here := lastBy_eq_none_iff.mp h run mem
  simp only [decide_eq_false_iff_not, not_and, not_le] at here
  exact here owner success

theorem paidBy_none_iff {runs : List Run} {row : TaskDue} :
    paidBy runs row = none ↔ Unpaid runs row := by
  constructor
  · exact paidBy_none
  · intro unpaid
    unfold paidBy
    refine lastBy_eq_none_iff.mpr fun run mem => ?_
    simp only [decide_eq_false_iff_not, not_and, not_le]
    exact unpaid run mem

theorem applyRunOutcome_settled {runs : List Run} {row : TaskDue} {run : Run} (now : Int)
    (dispatched : row.status = .dispatched) (mem : run ∈ runs)
    (attached : row.runId = some run.id) :
    Settled runs row now (applyRunOutcome row run now) := by
  unfold applyRunOutcome
  cases state : run.state with
  | pending => exact .active dispatched mem attached (by simp [state])
  | running => exact .active dispatched mem attached (by simp [state])
  | success => exact .succeeded dispatched mem attached state
  | cancelled => exact .cancelled dispatched mem attached state
  | failed => exact .failed dispatched mem attached state

theorem runOf_some {runs : List Run} {row : TaskDue} {run : Run} (found : runOf runs row = some run) :
    run ∈ runs ∧ row.runId = some run.id := by
  obtain ⟨id, attached, here⟩ := Option.bind_eq_some_iff.mp found
  have same : run.id = id := by simpa using List.find?_some here
  exact ⟨List.mem_of_find?_eq_some here, same ▸ attached⟩

theorem runOf_attached {runs : List Run} {row : TaskDue} {run : Run}
    (unique : (runs.map Run.id).Nodup) (mem : run ∈ runs) (attached : row.runId = some run.id) :
    runOf runs row = some run := by
  rw [runOf, attached, Option.bind_some]
  cases found : runs.find? (fun r => r.id = run.id) with
  | none => exact absurd (List.find?_eq_none.mp found run mem) (by simp)
  | some r =>
    have same : r.id = run.id := by simpa using List.find?_some found
    rw [List.inj_on_of_nodup_map unique (List.mem_of_find?_eq_some found) mem same]

theorem settleRow_settled (runs : List Run) (row : TaskDue) (now : Int) :
    Settled runs row now (settleRow runs row now) := by
  unfold settleRow
  split
  · rename_i dispatched
    split
    · rename_i gone
      exact .missing dispatched gone
    · rename_i run found
      obtain ⟨mem, attached⟩ := runOf_some found
      exact applyRunOutcome_settled now dispatched mem attached
  · rename_i blocked
    exact .blocked blocked
  · rename_i notDispatched notBlocked
    have isOpen : row.Open := ⟨notDispatched, notBlocked⟩
    split
    · rename_i run paid
      unfold paidBy at paid
      obtain ⟨mem, holds, last⟩ := lastBy_some paid
      simp only [decide_eq_true_eq] at holds last
      exact .paid isOpen mem holds.1 holds.2.1 holds.2.2 fun r mr owner success pays =>
        last r mr ⟨owner, success, pays⟩
    · rename_i unpaid
      split
      · rename_i drop
        exact .unmarked isOpen (paidBy_none unpaid) drop.1 (activeRunStartedAt_none.mp drop.2)
      · exact .owed isOpen (paidBy_none unpaid)

theorem outcome_detached {row row' : TaskDue} {run : Run} {now : Int}
    (ended : run.state.active = false) (settled : applyRunOutcome row run now = some row') :
    row'.runId = none := by
  cases applyRunOutcome_left settled with
  | active active => simp [active] at ended
  | succeeded success finished =>
    obtain ⟨instant, -, rfl⟩ := finish_eq_some finished
    rfl
  | failed failed => exact (failOutcome_inherits row run.errorMessage now).2

inductive Noted (runs : List Run) (row : TaskDue) (instant newest : Int) : Bool × TaskDue → Prop
    where
  | followUp (dispatched : row.status = .dispatched) (unmarked : row.newerDueAt = none) :
      Noted runs row instant newest (true, { row with newerDueAt := some instant })
  | behind {run : Run} (isOpen : row.Open) (unmarked : row.newerDueAt = none) (mem : run ∈ runs)
      (owner : run.taskId = row.taskId) (active : run.state.active = true)
      (before : activeRunStartedAt runs row.taskId = some run.startedAt)
      (later : run.startedAt < newest) :
      Noted runs row instant newest (true, { row with newerDueAt := some newest })
  | coalesced (marked : row.newerDueAt ≠ none) (unblocked : row.status ≠ .blocked) :
      Noted runs row instant newest (true, row)
  | held (blocked : row.status = .blocked) : Noted runs row instant newest (false, row)
  | unnoted (isOpen : row.Open)
      (covered : ∀ started, activeRunStartedAt runs row.taskId = some started → newest ≤ started) :
      Noted runs row instant newest (false, row)

theorem note_noted (runs : List Run) (row : TaskDue) (instant : Int) (latest : Option Int) :
    Noted runs row instant (latest.getD instant)
      (noteOccurrenceDuringRun runs row instant latest) := by
  unfold noteOccurrenceDuringRun
  split
  · rename_i dispatched
    split
    · rename_i unmarked
      exact .followUp dispatched unmarked
    · rename_i marked
      exact .coalesced marked (by simp [dispatched])
  · rename_i blocked
    exact .held blocked
  · rename_i notDispatched notBlocked
    have isOpen : row.Open := ⟨notDispatched, notBlocked⟩
    dsimp only
    split
    · rename_i idle
      exact .unnoted isOpen fun started here => by rw [idle] at here; cases here
    · rename_i started found
      obtain ⟨run, mem, owner, active, rfl⟩ := activeRunStartedAt_some found
      split
      · rename_i covered
        refine .unnoted isOpen fun instant here => ?_
        rw [found] at here
        exact Option.some.inj here ▸ covered
      · rename_i later
        split
        · rename_i unmarked
          exact .behind isOpen unmarked mem owner active found (not_le.mp later)
        · rename_i marked
          exact .coalesced marked isOpen.2

inductive Folded (runs : List Run) (row : TaskDue) (first latest now : Int) : TaskDue → Prop where
  | followUp (dispatched : row.status = .dispatched) (unmarked : row.newerDueAt = none) :
      Folded runs row first latest now { row with newerDueAt := some first, updatedAt := now }
  | behind {run : Run} (isOpen : row.Open) (unmarked : row.newerDueAt = none) (mem : run ∈ runs)
      (owner : run.taskId = row.taskId) (active : run.state.active = true)
      (before : activeRunStartedAt runs row.taskId = some run.startedAt)
      (later : run.startedAt < latest) :
      Folded runs row first latest now { row with newerDueAt := some latest, updatedAt := now }
  | coalesced (marked : row.newerDueAt ≠ none) (unblocked : row.status ≠ .blocked) :
      Folded runs row first latest now { row with updatedAt := now }
  | held (blocked : row.status = .blocked) :
      Folded runs row first latest now { row with updatedAt := now }
  | owed (isOpen : row.Open)
      (covered : ∀ started, activeRunStartedAt runs row.taskId = some started → latest ≤ started) :
      Folded runs row first latest now
        { (if row.status = .exhausted then row.rearm else row) with updatedAt := now }

theorem foldRow_folded {l : Ledger} {row : TaskDue} (owed : l.due = some row)
    (first latest now : Int) :
    Folded l.runs row first latest now (foldRow l first latest now) := by
  have noted := note_noted l.runs row first (some latest)
  unfold foldRow
  simp only [owed]
  generalize noteOccurrenceDuringRun l.runs row first (some latest) = n at noted
  cases noted with
  | followUp dispatched unmarked => exact .followUp dispatched unmarked
  | behind isOpen unmarked mem owner active before later =>
    exact .behind isOpen unmarked mem owner active before later
  | coalesced marked unblocked => exact .coalesced marked unblocked
  | held blocked => simpa [blocked] using Folded.held blocked
  | unnoted isOpen covered => exact .owed isOpen covered

inductive Edited (data : TaskFields) (now : Int) (l : Ledger) : Ledger → Prop where
  | reset (changed : data.cron ≠ l.task.cron ∨ data.enabled ≠ l.task.enabled ∨
        data.enabled = false) :
      Edited data now l
        { l with
          task := { l.task with
            toTaskFields := data, updatedAt := now
            scheduleBaselineAt := some now, scheduleEpochAt := some now }
          due := none }
  | rearmed {row : TaskDue} (cron : data.cron = l.task.cron)
      (enabled : data.enabled = l.task.enabled) (owed : l.due = some row)
      (held : row.status = .blocked ∨ row.status = .exhausted) :
      Edited data now l
        { l with
          task := { l.task with toTaskFields := data, updatedAt := now }
          due := some { row.rearm with updatedAt := now } }
  | kept (cron : data.cron = l.task.cron) (enabled : data.enabled = l.task.enabled)
      (free : ∀ row, l.due = some row → row.status ≠ .blocked ∧ row.status ≠ .exhausted) :
      Edited data now l { l with task := { l.task with toTaskFields := data, updatedAt := now } }

theorem editLedger_edited (data : TaskFields) (now : Int) (l : Ledger) :
    Edited data now l (editLedger data now l) := by
  obtain ⟨task, due, runs⟩ := l
  unfold editLedger onTaskEdited
  split
  · rename_i changed
    refine .reset ?_
    simp only [decide_eq_true_eq] at changed
    rcases changed with (cron | enabled) | disabled
    · exact Or.inl cron
    · exact Or.inr (Or.inl enabled)
    · exact Or.inr (Or.inr disabled)
  · rename_i unchanged
    simp only [decide_eq_true_eq, not_or, not_not] at unchanged
    obtain ⟨⟨cron, enabled⟩, -⟩ := unchanged
    cases due with
    | none => exact .kept cron enabled fun row none => by cases none
    | some row =>
      dsimp only
      split
      · rename_i held
        exact .rearmed cron enabled rfl held
      · rename_i free
        refine .kept cron enabled fun row' same => ?_
        obtain rfl := Option.some.inj same
        exact not_or.mp free

structure Stages (trig : Trigger) (now : Int) (inv : Ledger → Prop) : Prop where
  settle : ∀ l, l.task.enabled = true → trig.parses l.task.cron = true → inv l → inv (l.settle now)
  block : ∀ l, l.task.enabled = true → trig.parses l.task.cron = false → inv l →
    inv { l with due := some (blockedRow trig l now) }
  keep : ∀ l, l.task.enabled = true → trig.parses l.task.cron = true → l.owes trig now = none →
    inv l → inv l.keep
  fold : ∀ l first, l.task.enabled = true → trig.parses l.task.cron = true →
    l.owes trig now = some first → inv l → inv (l.fold trig first now)
  early : ∀ l upcoming, l.task.enabled = true → trig.parses l.task.cron = true →
    earlyOccurrence trig l.task now = some upcoming → inv l → inv (l.early upcoming now)
  late : ∀ l, l.task.enabled = true → trig.parses l.task.cron = true → l.due = none → inv l →
    inv (l.late now)

section Stages
variable {trig : Trigger} {now : Int} {inv : Ledger → Prop} {l : Ledger}

theorem scan_task (trig : Trigger) (l : Ledger) (now : Int) :
    (l.scan trig now).task.enabled = l.task.enabled ∧ (l.scan trig now).task.cron = l.task.cron := by
  unfold Ledger.scan
  split
  · exact ⟨(keep_task l).2.2, (keep_task l).1⟩
  · exact ⟨rfl, rfl⟩

theorem scan_stages (stages : Stages trig now inv) (enabled : l.task.enabled = true)
    (parses : trig.parses l.task.cron = true) (start : inv l) : inv (l.scan trig now) := by
  unfold Ledger.scan
  split
  · rename_i none
    exact stages.keep l enabled parses none start
  · rename_i first owes
    exact stages.fold l first enabled parses owes start

/-- What a reconcile or a tick leaves of a ledger. -/
inductive Worked (trig : Trigger) (now : Int) (l : Ledger) : Ledger → Prop where
  | same : Worked trig now l l
  | blocked (enabled : l.task.enabled = true) (unreadable : trig.parses l.task.cron = false) :
      Worked trig now l { l with due := some (blockedRow trig l now) }
  | scanned (enabled : l.task.enabled = true) (readable : trig.parses l.task.cron = true) :
      Worked trig now l ((l.settle now).scan trig now)
  | early {upcoming : Int} (enabled : l.task.enabled = true)
      (readable : trig.parses l.task.cron = true)
      (early : earlyOccurrence trig ((l.settle now).scan trig now).task now = some upcoming) :
      Worked trig now l (((l.settle now).scan trig now).early upcoming now)
  | late (enabled : l.task.enabled = true) (readable : trig.parses l.task.cron = true)
      (bare : ((l.settle now).scan trig now).due = none)
      (punctual : earlyOccurrence trig ((l.settle now).scan trig now).task now = none)
      (uncovered : runCovers ((l.settle now).scan trig now).runs
        ((l.settle now).scan trig now).task.id
        ((l.settle now).scan trig now).task.scheduleBaselineAt = false) :
      Worked trig now l (((l.settle now).scan trig now).late now)

theorem reconcile_worked (trig : Trigger) (l : Ledger) (now : Int) :
    Worked trig now l (reconcileOne trig l now) := by
  rw [reconcileOne_eq]
  cases enabled : l.task.enabled with
  | false => exact .same
  | true =>
    cases readable : trig.parses l.task.cron with
    | false =>
      simp only [Bool.true_eq_false, if_false, if_true, (block_eq trig l now).1]
      exact .blocked enabled readable
    | true => exact .scanned enabled readable

theorem tick_worked (trig : Trigger) (l : Ledger) (now : Int) :
    Worked trig now l (recordTick trig l now) := by
  rw [recordTick_eq]
  cases enabled : l.task.enabled with
  | false => exact .same
  | true =>
    cases readable : trig.parses l.task.cron with
    | false =>
      simp only [Bool.true_eq_false, if_false, if_true, (block_eq trig l now).1]
      exact .blocked enabled readable
    | true =>
      simp only [Bool.true_eq_false, if_false]
      split
      · rename_i upcoming early
        exact .early enabled readable early
      · rename_i punctual
        split
        · rename_i bare
          exact .late enabled readable bare.1 punctual bare.2
        split
        · exact .scanned enabled readable
        · exact .same

theorem worked_task {l' : Ledger} (worked : Worked trig now l l') :
    l'.task.enabled = l.task.enabled ∧ l'.task.cron = l.task.cron := by
  have task := scan_task trig (l.settle now) now
  cases worked with
  | same => exact ⟨rfl, rfl⟩
  | blocked enabled unreadable => exact ⟨rfl, rfl⟩
  | scanned enabled readable => exact task
  | early enabled readable early =>
    rw [early_eq]
    exact task
  | late enabled readable bare punctual uncovered => exact task

theorem worked_stages (stages : Stages trig now inv) (start : inv l) {l' : Ledger}
    (worked : Worked trig now l l') : inv l' := by
  have scanned : l.task.enabled = true → trig.parses l.task.cron = true →
      inv ((l.settle now).scan trig now) := fun enabled readable =>
    scan_stages stages enabled readable (stages.settle l enabled readable start)
  have task := scan_task trig (l.settle now) now
  cases worked with
  | same => exact start
  | blocked enabled unreadable => exact stages.block l enabled unreadable start
  | scanned enabled readable => exact scanned enabled readable
  | early enabled readable early =>
    refine stages.early _ _ (task.1.trans enabled) ?_ early (scanned enabled readable)
    rw [task.2]
    exact readable
  | late enabled readable bare punctual uncovered =>
    refine stages.late _ (task.1.trans enabled) ?_ bare (scanned enabled readable)
    rw [task.2]
    exact readable

theorem reconcile_stages (stages : Stages trig now inv) (start : inv l) :
    inv (reconcileOne trig l now) :=
  worked_stages stages start (reconcile_worked trig l now)

theorem tick_stages (stages : Stages trig now inv) (start : inv l) :
    inv (recordTick trig l now) :=
  worked_stages stages start (tick_worked trig l now)

end Stages

end Pullbackup
