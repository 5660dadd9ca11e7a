import Pullbackup.Settlement

/- A settlement asked for twice at one instant: settling works on each row of
   the table by itself, so the question is one about a single row. -/
namespace Pullbackup
open KeyedTable History

def settledRow (db : Db) (now : Int) (row : TaskDue) : Option TaskDue :=
  match db.tasks.get row.taskId with
  | none => none
  | some _ => settleRow db.runs.rows row now

theorem settledRow_keyed {db : Db} {now : Int} (row : TaskDue) :
    ∀ row' ∈ settledRow db now row, Keyed.key row' = Keyed.key row := by
  intro row' settled
  unfold settledRow at settled
  split at settled
  · cases settled
  · exact (settleRow_inherits settled).1

theorem settleDue_write (db : Db) (row : TaskDue) (now : Int) :
    settleDue db row now =
      { db with taskDue := db.taskDue.write row.taskId (settledRow db now row) } := by
  unfold settleDue settledRow
  cases db.tasks.get row.taskId with
  | none => rfl
  | some task => rfl

theorem settleDues_write (db : Db) (rows : List TaskDue) (now : Int) :
    rows.foldl (fun db row => settleDue db row now) db =
      { db with
        taskDue := rows.foldl
          (fun due row => due.write row.taskId (settledRow db now row)) db.taskDue } := by
  induction rows generalizing db with
  | nil => rfl
  | cons row rows ih =>
    rw [List.foldl_cons, settleDue_write, ih]
    rfl

theorem settleAll_frame (db : Db) (now : Int) :
    (settleAll db now).tasks = db.tasks ∧ (settleAll db now).runs = db.runs := by
  unfold settleAll
  rw [settleDues_write]
  exact ⟨rfl, rfl⟩

theorem settleAll_rows (db : Db) (now : Int) :
    (settleAll db now).taskDue.rows = db.taskDue.rows.filterMap (settledRow db now) := by
  unfold settleAll
  rw [settleDues_write]
  exact Table.rows_foldl_write settledRow_keyed (List.nil_append _).symm

theorem settledRow_settleAll (db : Db) (now : Int) :
    settledRow (settleAll db now) now = settledRow db now := by
  funext row
  unfold settledRow
  rw [(settleAll_frame db now).1, (settleAll_frame db now).2]

theorem table_ext {due due' : Table TaskDue} : due = due' ↔ due.rows = due'.rows := by
  constructor
  · exact congrArg Table.rows
  · intro same
    cases due
    cases due'
    cases same
    rfl

/-- The second settlement changes nothing exactly when it changes no row that the first one
    left. -/
theorem settleAll_twice_iff (db : Db) (now : Int) :
    (settleAll (settleAll db now) now).taskDue = (settleAll db now).taskDue ↔
      ∀ row ∈ db.taskDue.rows, ∀ row', settledRow db now row = some row' →
        settledRow db now row' = some row' := by
  rw [table_ext, settleAll_rows, settledRow_settleAll, filterMap_eq_self_iff, settleAll_rows]
  simp only [List.mem_filterMap]
  constructor
  · intro fixed row mem row' settled
    exact fixed row' ⟨row, mem, settled⟩
  · rintro fixed row' ⟨row, mem, settled⟩
    exact fixed row mem row' settled

section Row
variable {runs : List Run} {row row' : TaskDue} {now : Int}

/-- An open row stays as it is when no success pays it and it has no follow-up marker, or an
    active run for the marker to wait behind. -/
def Settleable (runs : List Run) (row : TaskDue) : Prop :=
  Unpaid runs row ∧ (row.newerDueAt = none ∨ ¬ NoneActive runs row.taskId)

theorem finish_changes (row : TaskDue) (now : Int) (followUp : Option Int)
    (marked : followUp ≠ none → row.newerDueAt ≠ none) :
    finish row followUp now ≠ some row := by
  intro same
  cases followUp with
  | none => cases same
  | some instant =>
    have moved := congrArg TaskDue.newerDueAt (Option.some.inj same)
    exact marked (by simp) moved.symm

theorem settleRow_open_iff (isOpen : row.Open) :
    settleRow runs row now = some row ↔ Settleable runs row := by
  unfold settleRow Settleable
  rw [← paidBy_none_iff, ← activeRunStartedAt_none]
  split
  · rename_i dispatched
    exact absurd dispatched isOpen.1
  · rename_i blocked
    exact absurd blocked isOpen.2
  cases payment : paidBy runs row with
  | some paid =>
    have changes := finish_changes row now
      (row.newerDueAt.filter fun followUp => paid.startedAt < followUp)
      fun kept absent => kept (by rw [absent]; rfl)
    simpa using changes
  | none =>
    dsimp only
    split
    · rename_i drop
      constructor
      · intro same
        have moved := congrArg TaskDue.newerDueAt (Option.some.inj same)
        refine absurd moved.symm ?_
        dsimp only
        split <;> exact drop.1
      · rintro ⟨-, unmarked | waits⟩
        · exact absurd unmarked drop.1
        · exact absurd drop.2 waits
    · rename_i keep
      simp only [true_and, true_iff]
      by_contra none
      rw [not_or, not_not] at none
      exact keep none

theorem settleRow_blocked (blocked : row.status = .blocked) :
    settleRow runs row now = some row := by
  unfold settleRow
  rw [blocked]

theorem finish_some {followUp : Option Int} (finished : finish row followUp now = some row') :
    followUp = some row'.dueAt ∧ row'.taskId = row.taskId ∧ row'.newerDueAt = none ∧ row'.Open := by
  obtain ⟨instant, promised, rfl⟩ := finish_eq_some finished
  exact ⟨promised, rfl, rfl, by simp [TaskDue.Open]⟩

theorem open_settles_once (isOpen : row.Open) (settled : settleRow runs row now = some row') :
    settleRow runs row' now = some row' := by
  have shape := settleRow_settled runs row now
  obtain ⟨out, outcome⟩ : ∃ out, settleRow runs row now = out := ⟨_, rfl⟩
  rw [outcome] at shape
  rw [outcome] at settled
  cases shape with
  | missing dispatched => exact absurd dispatched isOpen.1
  | active dispatched => exact absurd dispatched isOpen.1
  | succeeded dispatched => exact absurd dispatched isOpen.1
  | cancelled dispatched => exact absurd dispatched isOpen.1
  | failed dispatched => exact absurd dispatched isOpen.1
  | blocked blocked => exact absurd blocked isOpen.2
  | @paid run _ mem owner success pays last =>
    obtain ⟨followUp, taskId, unmarked, stays⟩ := finish_some settled
    obtain ⟨-, after⟩ := Option.filter_eq_some_iff.mp followUp
    -- the newest success pays the debt and is older than the follow-up
    have covered : run.startedAt < row'.dueAt := by simpa using after
    refine (settleRow_open_iff stays).mpr ⟨fun r mr owner success => ?_, Or.inl unmarked⟩
    rw [taskId] at owner
    by_cases pays : row.dueAt ≤ r.startedAt
    · exact (last r mr owner success pays).trans_lt covered
    · omega
  | unmarked _ unpaid marked idle =>
    obtain rfl := Option.some.inj settled
    refine (settleRow_open_iff ?_).mpr ⟨?_, Or.inl ?_⟩
    · dsimp only
      split
      · simp [TaskDue.Open, TaskDue.rearm]
      · exact isOpen
    · intro r mr owner success
      have before := unpaid r mr
      dsimp only at owner ⊢
      split at owner <;> split <;> exact before owner success
    · dsimp only
      split <;> rfl
  | owed =>
    obtain rfl := Option.some.inj settled
    exact outcome

theorem failOutcome_keeps (row : TaskDue) (message : String) (now : Int) :
    (failOutcome row message now).taskId = row.taskId ∧
      (failOutcome row message now).dueAt = row.dueAt ∧
      (failOutcome row message now).newerDueAt = row.newerDueAt ∧
      if isInfrastructure message = false ∧ isPermanent message = true then
        (failOutcome row message now).status = .blocked
      else (failOutcome row message now).Open := by
  unfold failOutcome TaskDue.Open
  cases isInfrastructure message with
  | true => simp
  | false =>
    cases isPermanent message with
    | true => simp
    | false => by_cases spent : row.attempts + 1 > maxAutomaticRetries <;> simp [spent]

/-- The rows a settlement settles once and for all: those it was not dispatched to a run that is
    over, and those whose ended run leaves nothing behind that an open row is settled for. -/
def SettlesOnce (runs : List Run) (row : TaskDue) : Prop :=
  row.status = .dispatched →
    match runOf runs row with
    | none => Settleable runs row
    | some run =>
      match run.state with
      | .pending | .running | .cancelled => True
      | .success => ∀ followUp ∈ row.newerDueAt, Unpaid runs { row with dueAt := followUp }
      | .failed =>
        isInfrastructure run.errorMessage = false ∧ isPermanent run.errorMessage = true ∨
          Settleable runs row

theorem outcome_settles_iff {run : Run} (attached : runOf runs row = some run)
    (dispatched : row.status = .dispatched) :
    (∀ row', applyRunOutcome row run now = some row' → settleRow runs row' now = some row') ↔
      match run.state with
      | .pending | .running | .cancelled => True
      | .success => ∀ followUp ∈ row.newerDueAt, Unpaid runs { row with dueAt := followUp }
      | .failed =>
        isInfrastructure run.errorMessage = false ∧ isPermanent run.errorMessage = true ∨
          Settleable runs row := by
  have whole : settleRow runs row now = applyRunOutcome row run now := by
    unfold settleRow
    rw [dispatched, attached]
  unfold applyRunOutcome at whole ⊢
  cases state : run.state with
  | pending =>
    rw [state] at whole
    simpa using whole
  | running =>
    rw [state] at whole
    simpa using whole
  | cancelled => simp
  | success =>
    dsimp only
    constructor
    · intro settles followUp marked
      have finished : finish row row.newerDueAt now = finish row (some followUp) now := by
        rw [Option.mem_def.mp marked]
      exact ((settleRow_open_iff (by simp [TaskDue.Open])).mp (settles _ finished)).1
    · intro unpaid row' finished
      obtain ⟨followUp, taskId, unmarked, isOpen⟩ := finish_some finished
      refine (settleRow_open_iff isOpen).mpr ⟨?_, Or.inl unmarked⟩
      intro r mr owner
      exact unpaid row'.dueAt followUp r mr (owner.trans taskId)
  | failed =>
    simp only [Option.some.injEq, forall_eq']
    obtain ⟨taskId, dueAt, newerDueAt, status⟩ := failOutcome_keeps row run.errorMessage now
    by_cases held : isInfrastructure run.errorMessage = false ∧ isPermanent run.errorMessage = true
    · rw [if_pos held] at status
      simp only [settleRow_blocked status, held, and_self, true_or]
    · rw [if_neg held] at status
      rw [settleRow_open_iff status]
      simp only [held, false_or, Settleable, Unpaid, taskId, dueAt, newerDueAt]

theorem settles_once_iff (now : Int) :
    (∀ row', settleRow runs row now = some row' → settleRow runs row' now = some row') ↔
      SettlesOnce runs row := by
  unfold SettlesOnce
  by_cases dispatched : row.status = .dispatched
  · simp only [dispatched, true_implies]
    cases attached : runOf runs row with
    | none =>
      have left : settleRow runs row now = some { row with status := .due, runId := none } := by
        unfold settleRow
        rw [dispatched, attached]
      simp only [left, Option.some.injEq, forall_eq']
      exact settleRow_open_iff (by simp [TaskDue.Open])
    | some run =>
      have whole : settleRow runs row now = applyRunOutcome row run now := by
        unfold settleRow
        rw [dispatched, attached]
      rw [whole]
      exact outcome_settles_iff attached dispatched
  · simp only [dispatched, false_implies, iff_true]
    intro row' settled
    by_cases blocked : row.status = .blocked
    · rw [settleRow_blocked blocked] at settled
      obtain rfl := Option.some.inj settled
      exact settleRow_blocked blocked
    · exact open_settles_once ⟨dispatched, blocked⟩ settled

/-- Only an active run keeps a row dispatched, and its row is left alone. -/
theorem settled_dispatched (settled : settleRow runs row now = some row')
    (dispatched : row'.status = .dispatched) : row' = row := by
  have shape := settleRow_settled runs row now
  obtain ⟨out, outcome⟩ : ∃ out, settleRow runs row now = out := ⟨_, rfl⟩
  rw [outcome] at shape
  rw [outcome] at settled
  cases shape with
  | missing =>
    obtain rfl := Option.some.inj settled
    cases dispatched
  | active => exact (Option.some.inj settled).symm
  | succeeded => exact absurd dispatched (finish_some settled).2.2.2.1
  | cancelled => cases settled
  | @failed run =>
    obtain rfl := Option.some.inj settled
    obtain ⟨-, -, -, status⟩ := failOutcome_keeps row run.errorMessage now
    split at status
    · rw [status] at dispatched
      cases dispatched
    · exact absurd dispatched status.1
  | blocked => exact (Option.some.inj settled).symm
  | paid => exact absurd dispatched (finish_some settled).2.2.2.1
  | unmarked isOpen =>
    obtain rfl := Option.some.inj settled
    dsimp only at dispatched
    split at dispatched
    · cases dispatched
    · exact absurd dispatched isOpen.1
  | owed => exact (Option.some.inj settled).symm

theorem settled_settles_once (settled : settleRow runs row now = some row') :
    SettlesOnce runs row' := by
  by_cases dispatched : row'.status = .dispatched
  · obtain rfl := settled_dispatched settled dispatched
    refine (settles_once_iff now).mp fun row'' again => ?_
    rw [settled] at again
    obtain rfl := Option.some.inj again
    exact settled
  · exact fun here => absurd here dispatched

end Row

/-- One settlement leaves nothing for a second one at the same instant exactly when it settles
    every row of an existing task once and for all. -/
theorem settlement_idempotent_iff (db : Db) (now : Int) :
    (settleAll (settleAll db now) now).taskDue = (settleAll db now).taskDue ↔
      ∀ row ∈ db.taskDue.rows, (db.tasks.get row.taskId).isSome → SettlesOnce db.runs.rows row := by
  rw [settleAll_twice_iff]
  refine forall₂_congr fun row mem => ?_
  cases stored : db.tasks.get row.taskId with
  | none => simp [settledRow, stored]
  | some task =>
    have one : settledRow db now row = settleRow db.runs.rows row now := by
      simp [settledRow, stored]
    simp only [one, Option.isSome_some, true_implies]
    rw [← settles_once_iff now]
    refine forall₂_congr fun row' settled => ?_
    have owner : row'.taskId = row.taskId := (settleRow_inherits settled).1
    simp [settledRow, owner, stored]

/-- The second settlement settles what the first one left behind an ended run. -/
theorem settlement_stable_after_two (db : Db) (now : Int) :
    (settleAll (settleAll (settleAll db now) now) now).taskDue =
      (settleAll (settleAll db now) now).taskDue := by
  rw [settlement_idempotent_iff]
  intro row' mem stored
  rw [settleAll_rows, List.mem_filterMap] at mem
  obtain ⟨row, -, settled⟩ := mem
  rw [(settleAll_frame db now).2]
  unfold settledRow at settled
  split at settled
  · cases settled
  · exact settled_settles_once settled

def Sample.restarted : Service :=
  running.exec env [.tick 1 (seconds 120), .restart (seconds 130)]

theorem interrupted_run_settles_twice :
    ¬ ∀ (env : Env) (s : Service) (now : Int), Reachable env s →
      (settleAll (settleAll s.db now) now).taskDue = (settleAll s.db now).taskDue := by
  intro claim
  have along : Along Sample.env (fun _ _ => True) Sample.running
      [.tick 1 (seconds 120), .restart (seconds 130)] := by decide
  have reachable : Reachable Sample.env Sample.restarted :=
    reachable_trace Sample.running_reachable
      (trace_mono (fun _ _ _ step => step.1) (trace_along along))
  have same := claim Sample.env Sample.restarted (seconds 131) reachable
  revert same
  rw [table_ext]
  decide

end Pullbackup
