import Pullbackup.Service

/- One task's view of the database: its task row, its obligation and its own
   runs. The due module reads no more than the view of the task it is given, and
   what it writes still belongs to that task. -/
namespace Pullbackup
open KeyedTable History

def ownedBy (taskId : Nat) (run : Run) : Bool := run.taskId = taskId

def Ledger.own (l : Ledger) : Ledger := { l with runs := l.runs.filter (ownedBy l.task.id) }

def Db.view (db : Db) (taskId : Nat) : Option Ledger := (db.ledger taskId).map Ledger.own

/-- An obligation refers to runs of its own task only. -/
structure Ledger.Linked (l : Ledger) : Prop where
  task : ∀ row ∈ l.due, row.taskId = l.task.id
  run : ∀ row ∈ l.due, ∀ r ∈ l.runs, row.runId = some r.id → r.taskId = l.task.id

theorem find?_filter_of {α : Type} (p q : α → Bool) (xs : List α)
    (inside : ∀ x ∈ xs, p x = true → q x = true) : (xs.filter q).find? p = xs.find? p := by
  induction xs with
  | nil => rfl
  | cons x xs ih =>
    have rest := ih fun y my => inside y (List.mem_cons_of_mem x my)
    cases hp : p x with
    | true => simp [hp, inside x (by simp) hp]
    | false =>
      cases hq : q x with
      | true => simp [hp, hq, rest]
      | false => simp [hp, hq, rest]

/- A query answers the same on fewer runs when those it looks for are among them. -/
section Scope
variable {runs : List Run} {taskId : Nat} {heeded : Run → Bool}

theorem activeRunStartedAt_filter
    (active : ∀ r ∈ runs, r.taskId = taskId → r.state.active = true → heeded r = true) :
    activeRunStartedAt (runs.filter heeded) taskId = activeRunStartedAt runs taskId := by
  unfold activeRunStartedAt
  rw [firstBy_scope]
  intro r mem h
  simp only [decide_eq_true_eq] at h
  exact active r mem h.1 h.2

theorem paidBy_filter {row : TaskDue} (pays : ∀ r ∈ runs, r.taskId = row.taskId →
    r.state = .success → row.dueAt ≤ r.startedAt → heeded r = true) :
    paidBy (runs.filter heeded) row = paidBy runs row := by
  unfold paidBy
  rw [lastBy_scope]
  intro r mem h
  simp only [decide_eq_true_eq] at h
  exact pays r mem h.1 h.2.1 h.2.2

theorem runOf_filter {row : TaskDue}
    (attached : ∀ r ∈ runs, row.runId = some r.id → heeded r = true) :
    runOf (runs.filter heeded) row = runOf runs row := by
  unfold runOf
  cases here : row.runId with
  | none => rfl
  | some id =>
    simp only [Option.bind_some]
    apply find?_filter_of
    intro r mem same
    exact attached r mem (by simpa [here] using (of_decide_eq_true same).symm)

theorem settleRow_filter {row : TaskDue}
    (active : ∀ r ∈ runs, r.taskId = row.taskId → r.state.active = true → heeded r = true)
    (pays : ∀ r ∈ runs, r.taskId = row.taskId →
      r.state = .success → row.dueAt ≤ r.startedAt → heeded r = true)
    (attached : ∀ r ∈ runs, row.runId = some r.id → heeded r = true) (now : Int) :
    settleRow (runs.filter heeded) row now = settleRow runs row now := by
  unfold settleRow
  rw [runOf_filter attached, paidBy_filter pays, activeRunStartedAt_filter active]

theorem deriveBaseline_filter {task : Task}
    (owned : ∀ r ∈ runs, r.taskId = task.id → heeded r = true) :
    deriveBaseline (runs.filter heeded) task = deriveBaseline runs task := by
  unfold deriveBaseline
  rw [lastBy_scope]
  intro r mem h
  exact owned r mem (of_decide_eq_true h)

theorem noteOccurrence_filter {row : TaskDue}
    (active : ∀ r ∈ runs, r.taskId = row.taskId → r.state.active = true → heeded r = true)
    (instant : Int) (latest : Option Int) :
    noteOccurrenceDuringRun (runs.filter heeded) row instant latest =
      noteOccurrenceDuringRun runs row instant latest := by
  unfold noteOccurrenceDuringRun
  rw [activeRunStartedAt_filter active]

theorem runCovers_filter {baseline : Option Int}
    (covers : ∀ r ∈ runs, r.taskId = taskId → (∀ instant, baseline = some instant →
      instant ≤ r.startedAt) → heeded r = true) :
    runCovers (runs.filter heeded) taskId baseline = runCovers runs taskId baseline := by
  unfold runCovers
  cases baseline with
  | none => rfl
  | some instant =>
    rw [Bool.eq_iff_iff]
    simp only [List.any_eq_true, List.mem_filter, decide_eq_true_eq]
    constructor
    · rintro ⟨r, ⟨mem, -⟩, past⟩
      exact ⟨r, mem, past⟩
    · rintro ⟨r, mem, owner, past⟩
      refine ⟨r, ⟨mem, covers r mem owner fun i same => ?_⟩, owner, past⟩
      exact Option.some.inj same ▸ past

end Scope

def Inherits (row row' : TaskDue) : Prop :=
  row'.taskId = row.taskId ∧ (row'.runId = none ∨ row'.runId = row.runId)

theorem finish_eq_some {row row' : TaskDue} {followUp : Option Int} {now : Int}
    (finished : finish row followUp now = some row') : ∃ instant, followUp = some instant ∧
      row' = { row with
        dueAt := instant, newerDueAt := none, status := .due, attempts := 0, retryAt := none
        runId := none, waitReason := none, lastError := "", updatedAt := now } := by
  cases followUp with
  | none => cases finished
  | some instant => exact ⟨instant, rfl, (Option.some.inj finished).symm⟩

/-- What its run leaves of a row: the run is not over, or it paid and the row promised another
    occurrence, or it failed. -/
inductive Left (row : TaskDue) (run : Run) (now : Int) : TaskDue → Prop where
  | active (active : run.state.active = true) : Left row run now row
  | succeeded {row' : TaskDue} (success : run.state = .success)
      (finished : finish row row.newerDueAt now = some row') : Left row run now row'
  | failed (failed : run.state = .failed) :
      Left row run now (failOutcome row run.errorMessage now)

theorem applyRunOutcome_left {row row' : TaskDue} {run : Run} {now : Int}
    (settled : applyRunOutcome row run now = some row') : Left row run now row' := by
  unfold applyRunOutcome at settled
  cases state : run.state with
  | pending =>
    simp only [state] at settled
    obtain rfl := Option.some.inj settled
    exact .active (by simp [state])
  | running =>
    simp only [state] at settled
    obtain rfl := Option.some.inj settled
    exact .active (by simp [state])
  | success =>
    simp only [state] at settled
    exact .succeeded state settled
  | cancelled => simp [state] at settled
  | failed =>
    simp only [state] at settled
    obtain rfl := Option.some.inj settled
    exact .failed state

theorem finish_inherits {row row' : TaskDue} {followUp : Option Int} {now : Int}
    (h : finish row followUp now = some row') : Inherits row row' := by
  obtain ⟨instant, -, rfl⟩ := finish_eq_some h
  exact ⟨rfl, Or.inl rfl⟩

theorem failOutcome_inherits (row : TaskDue) (message : String) (now : Int) :
    Inherits row (failOutcome row message now) ∧ (failOutcome row message now).runId = none := by
  unfold failOutcome
  repeat' split
  all_goals exact ⟨⟨rfl, Or.inl rfl⟩, rfl⟩

theorem applyRunOutcome_inherits {row row' : TaskDue} {run : Run} {now : Int}
    (h : applyRunOutcome row run now = some row') : Inherits row row' := by
  cases applyRunOutcome_left h with
  | active active => exact ⟨rfl, Or.inr rfl⟩
  | succeeded success finished => exact finish_inherits finished
  | failed failed => exact (failOutcome_inherits row run.errorMessage now).1

theorem settleRow_inherits {runs : List Run} {row row' : TaskDue} {now : Int}
    (h : settleRow runs row now = some row') : Inherits row row' := by
  unfold settleRow at h
  split at h
  · split at h
    · obtain rfl := Option.some.inj h
      exact ⟨rfl, Or.inl rfl⟩
    · exact applyRunOutcome_inherits h
  · obtain rfl := Option.some.inj h
    exact ⟨rfl, Or.inr rfl⟩
  · split at h
    · exact finish_inherits h
    · split at h
      · obtain rfl := Option.some.inj h
        dsimp only
        split <;> exact ⟨rfl, Or.inr rfl⟩
      · obtain rfl := Option.some.inj h
        exact ⟨rfl, Or.inr rfl⟩

theorem note_inherits (runs : List Run) (row : TaskDue) (instant : Int) (latest : Option Int) :
    Inherits row (noteOccurrenceDuringRun runs row instant latest).2 := by
  unfold noteOccurrenceDuringRun
  dsimp only
  repeat' split
  all_goals exact ⟨rfl, Or.inr rfl⟩


theorem note_unnoted {runs : List Run} {row : TaskDue} {instant : Int} {latest : Option Int}
    (h : (noteOccurrenceDuringRun runs row instant latest).1 = false) :
    (noteOccurrenceDuringRun runs row instant latest).2 = row := by
  unfold noteOccurrenceDuringRun at h ⊢
  dsimp only at h ⊢
  repeat' split at h
  all_goals simp_all

/-- The stages of a reconcile and of a tick, as functions of the ledger alone. -/
def Ledger.block (trig : Trigger) (l : Ledger) (now : Int) : Ledger :=
  (blockInvalidCron trig (Session.begin l) now).1.work

def Ledger.keep (l : Ledger) : Ledger := (keepWatermark (Session.begin l) l.baseline).1.work

def Ledger.fold (trig : Trigger) (l : Ledger) (first now : Int) : Ledger :=
  (foldOccurrences trig (Session.begin l) first now).1.work

/-- The first occurrence that a scan at now folds. -/
def Ledger.owes (trig : Trigger) (l : Ledger) (now : Int) : Option Int :=
  (nextOccurrence trig l.task.cron l.baseline).filter fun first => first ≤ now

def Ledger.scan (trig : Trigger) (l : Ledger) (now : Int) : Ledger :=
  match l.owes trig now with
  | none => l.keep
  | some first => l.fold trig first now

def Ledger.early (l : Ledger) (upcoming now : Int) : Ledger :=
  recordEarly (Session.begin l) l.due upcoming now

def Ledger.late (l : Ledger) (now : Int) : Ledger :=
  { l with
    task := { l.task with
      scheduleBaselineAt := some (max (l.task.scheduleBaselineAt.getD now) now) }
    due := some { taskId := l.task.id, dueAt := now, status := .due, updatedAt := now } }

theorem keep_eq (l : Ledger) :
    l.keep = { l with
      task :=
        if l.task.scheduleBaselineAt.all (· < l.baseline) then
          { l.task with scheduleBaselineAt := some l.baseline }
        else l.task } :=
  rfl

theorem keep_task (l : Ledger) :
    l.keep.task.cron = l.task.cron ∧ l.keep.task.id = l.task.id ∧
      l.keep.task.enabled = l.task.enabled := by
  rw [keep_eq]
  dsimp only
  split <;> exact ⟨rfl, rfl, rfl⟩

theorem baseline_some {l : Ledger} {w : Int} (stored : l.task.scheduleBaselineAt = some w) :
    l.baseline = w := by
  simp [Ledger.baseline, stored]

theorem keep_baseline (l : Ledger) :
    l.keep.task.scheduleBaselineAt = some l.baseline ∧ l.keep.baseline = l.baseline := by
  have stored : l.keep.task.scheduleBaselineAt = some l.baseline := by
    rw [keep_eq]
    cases baseline : l.task.scheduleBaselineAt with
    | none => simp
    | some w => simp [baseline_some baseline, baseline]
  exact ⟨stored, baseline_some stored⟩

theorem early_keep (trig : Trigger) (l : Ledger) (now : Int) :
    earlyOccurrence trig l.keep.task now =
      (nextOccurrence trig l.task.cron l.baseline).filter fun upcoming =>
        0 ≤ upcoming - now ∧ upcoming - now ≤ tickEarlyTolerance := by
  rw [earlyOccurrence, (keep_baseline l).1, (keep_task l).1, Option.bind_some]

theorem fold_eq (trig : Trigger) (l : Ledger) (first now : Int) :
    l.fold trig first now = { l with
      task := { l.task with
        scheduleBaselineAt := some (latestOccurrence trig l.task.cron first now) }
      due := some (foldRow l first (latestOccurrence trig l.task.cron first now) now) } :=
  rfl

def earlyRow (l : Ledger) (upcoming now : Int) : TaskDue :=
  match l.due with
  | none => { taskId := l.task.id, dueAt := now, status := .due, updatedAt := now }
  | some row => (noteOccurrenceDuringRun l.runs row upcoming none).2

theorem early_eq (l : Ledger) (upcoming now : Int) :
    l.early upcoming now = { l with
      task := { l.task with scheduleBaselineAt := some upcoming }
      due := some (earlyRow l upcoming now) } := by
  obtain ⟨task, due, runs⟩ := l
  unfold Ledger.early recordEarly earlyRow
  cases due with
  | none => rfl
  | some row =>
    have choice : ∀ noted : Bool × TaskDue, (noted.1 = false → noted.2 = row) →
        (if noted.1 then some noted.2 else some row) = some noted.2 := by
      intro noted same
      cases accounted : noted.1 with
      | true => rfl
      | false => simp [same accounted]
    exact congrArg (fun due => Ledger.mk { task with scheduleBaselineAt := some upcoming } due runs)
      (choice _ note_unnoted)

theorem owes_some {trig : Trigger} {l : Ledger} {now first : Int}
    (h : l.owes trig now = some first) :
    nextOccurrence trig l.task.cron l.baseline = some first ∧ first ≤ now := by
  simpa [Ledger.owes, Option.filter_eq_some_iff] using h

theorem owes_none {trig : Trigger} {l : Ledger} {now : Int} (h : l.owes trig now = none)
    {first : Int} (next : nextOccurrence trig l.task.cron l.baseline = some first) :
    now < first := by
  simpa [Ledger.owes, next, Option.filter_eq_none_iff] using h

theorem owes_settle (trig : Trigger) (l : Ledger) (now : Int) :
    (l.settle now).owes trig now =
      (nextOccurrence trig l.task.cron (l.settle now).baseline).filter fun first => first ≤ now :=
  rfl

/-- An enabled task with a readable schedule is settled and scanned; the scan commits when it
    folds something, and leaves the commit to its caller when not. -/
theorem reconcileTask_scan {trig : Trigger} {l : Ledger} (enabled : l.task.enabled = true)
    (parses : trig.parses l.task.cron = true) (now : Int) :
    reconcileTask trig (Session.begin l) now =
      ({ stored := if ((l.settle now).owes trig now).isSome then (l.settle now).scan trig now else l
         work := (l.settle now).scan trig now }, ((l.settle now).scan trig now).due) := by
  unfold reconcileTask Ledger.scan
  rw [owes_settle]
  simp only [Session.begin, enabled, parses, Bool.true_eq_false, if_false]
  have cron : (l.settle now).task.cron = l.task.cron := rfl
  rw [cron]
  cases next : nextOccurrence trig l.task.cron (l.settle now).baseline with
  | none => rfl
  | some first =>
    by_cases late : now < first
    · have skip : (some first).filter (fun o => decide (o ≤ now)) = none := by
        simp [Option.filter, not_le.mpr late]
      simp only [late, if_true, skip]
      rfl
    · have take : (some first).filter (fun o => decide (o ≤ now)) = some first := by
        simp [Option.filter, not_lt.mp late]
      simp only [late, if_false, take]
      rfl

theorem reconcileOne_eq (trig : Trigger) (l : Ledger) (now : Int) :
    reconcileOne trig l now =
      if l.task.enabled = false then l
      else if trig.parses l.task.cron = false then l.block trig now
      else (l.settle now).scan trig now := by
  unfold reconcileOne
  cases enabled : l.task.enabled with
  | false => rfl
  | true =>
    cases parses : trig.parses l.task.cron with
    | false => simp [reconcileTask, Session.begin, Session.commit, enabled, parses, Ledger.block]
    | true => simp [reconcileTask_scan enabled parses, Session.commit]

/-- The row a stored expression that does not parse is given or left with. -/
def blockedRow (trig : Trigger) (l : Ledger) (now : Int) : TaskDue :=
  match l.due with
  | none =>
    { taskId := l.task.id, dueAt := now, status := .blocked
      lastError := invalidCronError trig l.task.cron, updatedAt := now }
  | some row =>
    if row.status ≠ .blocked ∨ textContains row.lastError "cron" = false then
      { row with
        status := .blocked, waitReason := none, retryAt := none
        lastError := invalidCronError trig l.task.cron, updatedAt := now }
    else row

/-- It is committed at once when it is new. -/
theorem block_eq (trig : Trigger) (l : Ledger) (now : Int) :
    l.block trig now = { l with due := some (blockedRow trig l now) } ∧
      (blockInvalidCron trig (Session.begin l) now).1.stored = l.block trig now ∧
      (blockInvalidCron trig (Session.begin l) now).2 = some (blockedRow trig l now) := by
  obtain ⟨task, due, runs⟩ := l
  unfold Ledger.block blockInvalidCron blockedRow
  simp only [Session.begin, Session.commit]
  cases due with
  | none => simp
  | some row =>
    by_cases rewrite : row.status ≠ .blocked ∨ textContains row.lastError "cron" = false
    · simp [rewrite]
    · simp only [Option.getD_some, rewrite, if_false, and_self]

theorem blockedRow_status (trig : Trigger) (l : Ledger) (now : Int) :
    (blockedRow trig l now).status = .blocked := by
  unfold blockedRow
  split
  · rfl
  split
  · rfl
  · rename_i kept
    by_contra other
    exact kept (Or.inl other)

theorem blockedRow_inherits {trig : Trigger} {l : Ledger} {row : TaskDue}
    (owed : l.due = some row) (now : Int) : Inherits row (blockedRow trig l now) := by
  unfold blockedRow
  rw [owed]
  simp only
  split <;> exact ⟨rfl, Or.inr rfl⟩

theorem nextOccurrence_of_not_parses {trig : Trigger} {cron : String}
    (bad : trig.parses cron = false) (after : Int) : nextOccurrence trig cron after = none := by
  simp [nextOccurrence, bad]

theorem recordTick_eq (trig : Trigger) (l : Ledger) (now : Int) :
    recordTick trig l now =
      if l.task.enabled = false then l
      else if trig.parses l.task.cron = false then l.block trig now
      else
        let scanned := (l.settle now).scan trig now
        match earlyOccurrence trig scanned.task now with
        | some upcoming => scanned.early upcoming now
        | none =>
          if scanned.due = none ∧
              runCovers scanned.runs scanned.task.id scanned.task.scheduleBaselineAt = false then
            scanned.late now
          else if ((l.settle now).owes trig now).isSome then scanned
          else l := by
  unfold recordTick
  cases enabled : l.task.enabled with
  | false => rfl
  | true =>
    cases parses : trig.parses l.task.cron with
    | false =>
      obtain ⟨shape, stored, owed⟩ := block_eq trig l now
      have task : (l.block trig now).task = l.task := by rw [shape]
      have early : earlyOccurrence trig (blockInvalidCron trig (Session.begin l) now).1.work.task now
          = none := by
        rw [show (blockInvalidCron trig (Session.begin l) now).1.work.task = l.task from task]
        unfold earlyOccurrence
        cases l.task.scheduleBaselineAt with
        | none => rfl
        | some instant => simp [nextOccurrence_of_not_parses parses]
      have reconciled : reconcileTask trig (Session.begin l) now =
          blockInvalidCron trig (Session.begin l) now := by
        simp [reconcileTask, Session.begin, enabled, parses]
      simp only [Bool.true_eq_false, if_false, reconciled, early, owed, stored]
      simp
    | true =>
      simp only [Bool.true_eq_false, if_false, reconcileTask_scan enabled parses]
      rfl

theorem foldRow_inherits {l : Ledger} {row : TaskDue} (owed : l.due = some row)
    (first latest now : Int) : Inherits row (foldRow l first latest now) := by
  have noted := note_inherits l.runs row first (some latest)
  unfold foldRow
  simp only [owed]
  repeat' split
  all_goals exact noted

/-- A transaction of the due module moves the row of its own task only, and never attaches a run
    to it. -/
structure Follows (l l' : Ledger) : Prop where
  task : l'.task.id = l.task.id
  runs : l'.runs = l.runs
  due : ∀ row', l'.due = some row' →
    (row'.taskId = l.task.id ∧ row'.runId = none) ∨ ∃ row, l.due = some row ∧ Inherits row row'

theorem follows_refl (l : Ledger) : Follows l l :=
  ⟨rfl, rfl, fun row owed => Or.inr ⟨row, owed, rfl, Or.inr rfl⟩⟩

theorem follows_trans {l m n : Ledger} (first : Follows l m) (second : Follows m n) :
    Follows l n := by
  refine ⟨second.task.trans first.task, second.runs.trans first.runs, ?_⟩
  intro row'' owed''
  rcases second.due row'' owed'' with ⟨owner, detached⟩ | ⟨row', owed', owner, attached⟩
  · exact Or.inl ⟨owner.trans first.task, detached⟩
  · rcases first.due row' owed' with ⟨owner', detached'⟩ | ⟨row, owed, owner', attached'⟩
    · refine Or.inl ⟨owner.trans owner', ?_⟩
      rcases attached with none | same
      · exact none
      · exact same.trans detached'
    · refine Or.inr ⟨row, owed, owner.trans owner', ?_⟩
      rcases attached with none | same
      · exact Or.inl none
      · rw [same]
        exact attached'

theorem settle_of_none {l : Ledger} (none : l.due = none) (now : Int) : l.settle now = l := by
  have settled : (l.settle now).due = l.due := by simp [Ledger.settle, none]
  exact congrArg (fun due => { l with due := due }) settled

theorem settle_follows (l : Ledger) (now : Int) : Follows l (l.settle now) := by
  refine ⟨rfl, rfl, ?_⟩
  intro row' owed'
  obtain ⟨row, owed, settled⟩ := Option.bind_eq_some_iff.mp owed'
  exact Or.inr ⟨row, owed, settleRow_inherits settled⟩

theorem block_follows (trig : Trigger) (l : Ledger) (now : Int) :
    Follows l (l.block trig now) := by
  rw [(block_eq trig l now).1]
  refine ⟨rfl, rfl, ?_⟩
  intro row' owed'
  obtain rfl := Option.some.inj owed'
  cases owed : l.due with
  | none => exact Or.inl (by simp [blockedRow, owed])
  | some row => exact Or.inr ⟨row, rfl, blockedRow_inherits owed now⟩

theorem keep_follows (l : Ledger) : Follows l l.keep := by
  rw [keep_eq]
  refine ⟨?_, rfl, fun row owed => Or.inr ⟨row, owed, rfl, Or.inr rfl⟩⟩
  dsimp only
  split <;> rfl

theorem fold_follows (trig : Trigger) (l : Ledger) (first now : Int) :
    Follows l (l.fold trig first now) := by
  refine ⟨rfl, rfl, ?_⟩
  intro row' owed'
  obtain rfl := Option.some.inj owed'
  cases owed : l.due with
  | none => exact Or.inl (by simp [foldRow, Session.begin, owed])
  | some row => exact Or.inr ⟨row, rfl, foldRow_inherits owed _ _ _⟩

theorem scan_follows (trig : Trigger) (l : Ledger) (now : Int) :
    Follows l (l.scan trig now) := by
  unfold Ledger.scan
  split
  · exact keep_follows l
  · exact fold_follows trig l _ now

theorem early_follows (l : Ledger) (upcoming now : Int) : Follows l (l.early upcoming now) := by
  rw [early_eq]
  refine ⟨rfl, rfl, ?_⟩
  intro row' owed'
  obtain rfl := Option.some.inj owed'
  cases owed : l.due with
  | none => exact Or.inl (by simp [earlyRow, owed])
  | some row =>
    refine Or.inr ⟨row, rfl, ?_⟩
    simp only [earlyRow, owed]
    exact note_inherits l.runs row upcoming none

theorem late_follows (l : Ledger) (now : Int) : Follows l (l.late now) := by
  refine ⟨rfl, rfl, ?_⟩
  intro row' owed'
  obtain rfl := Option.some.inj owed'
  exact Or.inl ⟨rfl, rfl⟩

theorem settle_scan_follows (trig : Trigger) (l : Ledger) (now : Int) :
    Follows l ((l.settle now).scan trig now) :=
  follows_trans (settle_follows l now) (scan_follows trig _ now)

theorem reconcileOne_follows (trig : Trigger) (l : Ledger) (now : Int) :
    Follows l (reconcileOne trig l now) := by
  rw [reconcileOne_eq]
  split
  · exact follows_refl l
  split
  · exact block_follows trig l now
  · exact settle_scan_follows trig l now

theorem recordTick_follows (trig : Trigger) (l : Ledger) (now : Int) :
    Follows l (recordTick trig l now) := by
  have scanned := settle_scan_follows trig l now
  rw [recordTick_eq]
  dsimp only
  split
  · exact follows_refl l
  split
  · exact block_follows trig l now
  split
  · exact follows_trans scanned (early_follows _ _ now)
  split
  · exact follows_trans scanned (late_follows _ now)
  split
  · exact scanned
  · exact follows_refl l

theorem onTaskEdited_follows (l : Ledger) (scheduleChanged : Bool) (now : Int) :
    Follows l (onTaskEdited l scheduleChanged now) := by
  unfold onTaskEdited
  split
  · exact ⟨rfl, rfl, fun row' owed' => by simp at owed'⟩
  split
  · exact follows_refl l
  · rename_i row owed
    split
    · refine ⟨rfl, rfl, ?_⟩
      intro row' owed'
      obtain rfl := Option.some.inj owed'
      exact Or.inr ⟨row, owed, rfl, Or.inr rfl⟩
    · exact follows_refl l

theorem linked_of_follows {l l' : Ledger} (follows : Follows l l') (linked : l.Linked) :
    l'.Linked := by
  constructor
  · intro row' owed'
    rw [follows.task]
    rcases follows.due row' owed' with ⟨owner, -⟩ | ⟨row, owed, owner, -⟩
    · exact owner
    · exact owner.trans (linked.task row owed)
  · intro row' owed' r mem attached
    rw [follows.runs] at mem
    rw [follows.task]
    rcases follows.due row' owed' with ⟨-, detached⟩ | ⟨row, owed, -, detached | same⟩
    · rw [detached] at attached
      simp at attached
    · rw [detached] at attached
      simp at attached
    · exact linked.run row owed r mem (same.symm.trans attached)

def Ledger.heeding (heeded : Run → Bool) (l : Ledger) : Ledger :=
  { l with runs := l.runs.filter heeded }

/-- The runs that the due module looks for in a ledger are all among the heeded ones: the active
    ones, the one the row is attached to, those that pay for it and those past the watermark. -/
structure Ledger.Heeds (heeded : Run → Bool) (l : Ledger) : Prop where
  owner : ∀ row ∈ l.due, row.taskId = l.task.id
  active : ∀ r ∈ l.runs, r.taskId = l.task.id → r.state.active = true → heeded r = true
  attached : ∀ row ∈ l.due, ∀ r ∈ l.runs, row.runId = some r.id → heeded r = true
  pays : ∀ row ∈ l.due, ∀ r ∈ l.runs, r.taskId = l.task.id → r.state = .success →
    row.dueAt ≤ r.startedAt → heeded r = true
  covers : ∀ r ∈ l.runs, r.taskId = l.task.id → (∀ instant,
    l.task.scheduleBaselineAt = some instant → instant ≤ r.startedAt) → heeded r = true

section Heeding
variable {trig : Trigger} {l : Ledger} {now : Int} {heeded : Run → Bool}

theorem heeding_of_follows {m : Ledger} (follows : Follows l m) :
    m.heeding heeded = { m with runs := (l.heeding heeded).runs } := by
  unfold Ledger.heeding
  rw [follows.runs]

theorem baseline_heeding (heeds : l.Heeds heeded) : (l.heeding heeded).baseline = l.baseline := by
  unfold Ledger.baseline
  cases stored : l.task.scheduleBaselineAt with
  | some instant =>
    rw [show (l.heeding heeded).task = l.task from rfl, stored]
    rfl
  | none =>
    rw [show (l.heeding heeded).task = l.task from rfl, stored]
    exact deriveBaseline_filter fun r mem owner =>
      heeds.covers r mem owner fun instant here => by rw [stored] at here; cases here

theorem owes_heeding (heeds : l.Heeds heeded) :
    (l.heeding heeded).owes trig now = l.owes trig now := by
  unfold Ledger.owes
  rw [baseline_heeding heeds]
  rfl

theorem settle_heeding (heeds : l.Heeds heeded) :
    (l.settle now).heeding heeded = (l.heeding heeded).settle now := by
  rw [heeding_of_follows (settle_follows l now)]
  unfold Ledger.settle
  rw [show (l.heeding heeded).due = l.due from rfl]
  cases owed : l.due with
  | none => rfl
  | some row =>
    have owner := heeds.owner row owed
    have same : settleRow (l.heeding heeded).runs row now = settleRow l.runs row now :=
      settleRow_filter (owner ▸ heeds.active) (owner ▸ heeds.pays row owed)
        (heeds.attached row owed) now
    simp only [Option.bind_some, same]
    rfl

theorem block_heeding :
    (l.block trig now).heeding heeded = (l.heeding heeded).block trig now := by
  rw [heeding_of_follows (block_follows trig l now), (block_eq trig l now).1,
    (block_eq trig (l.heeding heeded) now).1]
  rfl

theorem keep_heeding (heeds : l.Heeds heeded) :
    l.keep.heeding heeded = (l.heeding heeded).keep := by
  rw [heeding_of_follows (keep_follows l), keep_eq, keep_eq, baseline_heeding heeds]
  rfl

theorem foldRow_heeding (heeds : l.Heeds heeded) (first latest : Int) :
    foldRow (l.heeding heeded) first latest now = foldRow l first latest now := by
  unfold foldRow
  rw [show (l.heeding heeded).due = l.due from rfl]
  cases owed : l.due with
  | none => rfl
  | some row =>
    have same : noteOccurrenceDuringRun (l.heeding heeded).runs row first (some latest) =
        noteOccurrenceDuringRun l.runs row first (some latest) :=
      noteOccurrence_filter (heeds.owner row owed ▸ heeds.active) first (some latest)
    simp only [same]

theorem fold_heeding (heeds : l.Heeds heeded) (first : Int) :
    (l.fold trig first now).heeding heeded = (l.heeding heeded).fold trig first now := by
  rw [heeding_of_follows (fold_follows trig l first now), fold_eq, fold_eq, foldRow_heeding heeds]
  rfl

theorem scan_heeding (heeds : l.Heeds heeded) :
    (l.scan trig now).heeding heeded = (l.heeding heeded).scan trig now := by
  unfold Ledger.scan
  rw [owes_heeding heeds]
  cases l.owes trig now with
  | none => exact keep_heeding heeds
  | some first => exact fold_heeding heeds first

theorem early_heeding (heeds : l.Heeds heeded) (upcoming : Int) :
    (l.early upcoming now).heeding heeded = (l.heeding heeded).early upcoming now := by
  have same : earlyRow (l.heeding heeded) upcoming now = earlyRow l upcoming now := by
    unfold earlyRow
    rw [show (l.heeding heeded).due = l.due from rfl]
    cases owed : l.due with
    | none => rfl
    | some row =>
      have noted : noteOccurrenceDuringRun (l.heeding heeded).runs row upcoming none =
          noteOccurrenceDuringRun l.runs row upcoming none :=
        noteOccurrence_filter (heeds.owner row owed ▸ heeds.active) upcoming none
      simp only [noted]
  rw [heeding_of_follows (early_follows l upcoming now), early_eq, early_eq, same]
  rfl

theorem reconcileOne_heeding (heeds : l.Heeds heeded) (settled : (l.settle now).Heeds heeded) :
    (reconcileOne trig l now).heeding heeded = reconcileOne trig (l.heeding heeded) now := by
  rw [reconcileOne_eq, reconcileOne_eq, show (l.heeding heeded).task = l.task from rfl,
    ← settle_heeding heeds, ← scan_heeding settled, ← block_heeding]
  split
  · rfl
  split <;> rfl

theorem recordTick_heeding (heeds : l.Heeds heeded) (settled : (l.settle now).Heeds heeded)
    (scanned : l.task.enabled = true → trig.parses l.task.cron = true →
      ((l.settle now).scan trig now).Heeds heeded) :
    (recordTick trig l now).heeding heeded = recordTick trig (l.heeding heeded) now := by
  rw [recordTick_eq, recordTick_eq, show (l.heeding heeded).task = l.task from rfl,
    ← settle_heeding heeds, ← scan_heeding settled, ← block_heeding, owes_heeding settled]
  dsimp only
  rw [show (((l.settle now).scan trig now).heeding heeded).task =
      ((l.settle now).scan trig now).task from rfl,
    show (((l.settle now).scan trig now).heeding heeded).due =
      ((l.settle now).scan trig now).due from rfl]
  split
  · rfl
  rename_i enabled
  split
  · rfl
  rename_i parses
  have heeds' := scanned (by simpa using enabled) (by simpa using parses)
  have covers : runCovers (((l.settle now).scan trig now).heeding heeded).runs
      ((l.settle now).scan trig now).task.id
      ((l.settle now).scan trig now).task.scheduleBaselineAt =
      runCovers ((l.settle now).scan trig now).runs ((l.settle now).scan trig now).task.id
      ((l.settle now).scan trig now).task.scheduleBaselineAt := runCovers_filter heeds'.covers
  rw [covers]
  split
  · exact early_heeding heeds' _
  split
  · rfl
  split <;> rfl

end Heeding

/- A task's own runs are all the module looks for. -/
section Own
variable {trig : Trigger} {l : Ledger} {now : Int}

theorem own_heeds (linked : l.Linked) : l.Heeds (ownedBy l.task.id) where
  owner := linked.task
  active _ _ owner _ := by simp [ownedBy, owner]
  attached row owed r mem attached := by simp [ownedBy, linked.run row owed r mem attached]
  pays _ _ _ _ owner _ _ := by simp [ownedBy, owner]
  covers _ _ owner _ := by simp [ownedBy, owner]

/-- The view after a stage, when the stage follows. -/
theorem own_of_follows {m : Ledger} (follows : Follows l m) :
    m.own = { m with runs := l.own.runs } := by
  unfold Ledger.own
  rw [follows.task, follows.runs]

theorem own_heeding {m : Ledger} (follows : Follows l m) :
    m.own = m.heeding (ownedBy l.task.id) := by
  rw [own_of_follows follows, heeding_of_follows follows]
  rfl

theorem own_heeds_of_follows {m : Ledger} (follows : Follows l m) (linked : l.Linked) :
    m.Heeds (ownedBy l.task.id) :=
  follows.task ▸ own_heeds (linked_of_follows follows linked)

theorem settle_own (linked : l.Linked) : (l.settle now).own = l.own.settle now :=
  (own_heeding (settle_follows l now)).trans (settle_heeding (own_heeds linked))

theorem reconcileOne_own (linked : l.Linked) :
    (reconcileOne trig l now).own = reconcileOne trig l.own now :=
  (own_heeding (reconcileOne_follows trig l now)).trans
    (reconcileOne_heeding (own_heeds linked) (own_heeds_of_follows (settle_follows l now) linked))

theorem recordTick_own (linked : l.Linked) :
    (recordTick trig l now).own = recordTick trig l.own now :=
  (own_heeding (recordTick_follows trig l now)).trans
    (recordTick_heeding (own_heeds linked) (own_heeds_of_follows (settle_follows l now) linked)
      fun _ _ => own_heeds_of_follows (settle_scan_follows trig l now) linked)

theorem onTaskEdited_own {scheduleChanged : Bool} :
    (onTaskEdited l scheduleChanged now).own = onTaskEdited l.own scheduleChanged now := by
  rw [own_of_follows (onTaskEdited_follows l scheduleChanged now)]
  unfold onTaskEdited
  rw [show l.own.task = l.task from rfl, show l.own.due = l.due from rfl]
  split
  · rfl
  cases owed : l.due with
  | none => simp [Ledger.own, owed]
  | some row =>
    simp only
    split
    · rfl
    · simp [Ledger.own, owed]

end Own

end Pullbackup
