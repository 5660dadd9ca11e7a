import Pullbackup.Budget

/- The retry budget over whole histories. A record runs along with the service:
   the runs the dispatcher started for a task, which of them failed since the last
   reset of its row, and which failures were applied to the row. -/
namespace Pullbackup
open KeyedTable History

/-- The record of a task and its row along a history. The lists hold run ids: those the
    dispatcher started for the task, those it started since the last reset of the row, those of
    the former that failed ordinarily since that reset, and those whose failure was applied to
    the row. -/
structure Audit where
  started : List Nat := []
  renewed : List Nat := []
  failures : List Nat := []
  applied : List Nat := []
  chargedAt : Option Int := none
  deriving DecidableEq

/-- A row is reset when it appears or goes, when its count goes down (a promotion or a re-arm)
    and when an edit lifts its block. -/
def resets (op : Op) (before after : Option TaskDue) : Bool :=
  match before, after with
  | some row, some row' =>
    row'.attempts < row.attempts || op.isEdit && row.status = .blocked && row'.status = .due
  | none, none => false
  | _, _ => true

def newRuns (l l' : Ledger) : List Nat :=
  (l'.runs.filter fun r => !l.runs.any fun old => old.id = r.id).map Run.id

def failedRuns (l l' : Ledger) : List Nat :=
  (l'.runs.filter fun r =>
    r.ordinaryFailure && l.runs.any fun old => old.id = r.id && old.state.active).map Run.id

/-- A step moves a row when it changes its status or its run, or raises its count. -/
def TaskDue.movedTo (row row' : TaskDue) : Bool :=
  row'.status ≠ row.status || row'.runId ≠ row.runId || row.attempts < row'.attempts

/-- The failed run that a transaction applies to the row: the row is dispatched to it, or has it
    when it fails in this very transaction, and the row is moved. -/
def appliedFailure (l l' : Ledger) : List Nat :=
  match l.due, l'.due with
  | some row, some row' =>
    row.runId.toList.filter fun id =>
      (l'.runs.any fun r => r.id = id && r.state = .failed) &&
        (row.status = .dispatched || l.runs.any fun old => old.id = id && old.state.active) &&
        row.movedTo row'
  | _, _ => []

def charges (before after : Option TaskDue) : Bool :=
  match before, after with
  | some row, some row' => row.attempts < row'.attempts
  | _, _ => false

def Audit.track (b : Audit) (op : Op) (l l' : Ledger) : Audit :=
  let launched := if op.isDispatch then newRuns l l' else []
  let applied := b.applied ++ appliedFailure l l'
  let chargedAt := if charges l.due l'.due then op.readings.head? else b.chargedAt
  if l'.due = none then
    { started := b.started ++ launched, applied := applied, chargedAt := chargedAt }
  else if resets op l.due l'.due then
    { started := b.started ++ launched, renewed := launched, applied := applied
      chargedAt := chargedAt }
  else
    { started := b.started ++ launched, renewed := b.renewed ++ launched
      failures := b.failures ++ (failedRuns l l').filter fun id => b.started.contains id
      applied := applied, chargedAt := chargedAt }

/-- A task that is created or deleted starts a new record. -/
def Audit.next (b : Audit) (op : Op) : Option Ledger → Option Ledger → Audit
  | some l, some l' => b.track op l l'
  | _, _ => {}

/-- A step of the service together with the record of one task. -/
def Recorded (env : Env) (a : Nat) (s : Service × Audit) (op : Op) (t : Service × Audit) : Prop :=
  Step env s.1 op t.1 ∧ t.2 = s.2.next op (s.1.db.view a) (t.1.db.view a)

section Track
variable {b : Audit} {op : Op} {l l' : Ledger}

@[simp] theorem track_applied : (b.track op l l').applied = b.applied ++ appliedFailure l l' := by
  unfold Audit.track
  dsimp only
  split
  · rfl
  split <;> rfl

@[simp] theorem track_chargedAt : (b.track op l l').chargedAt =
    if charges l.due l'.due then op.readings.head? else b.chargedAt := by
  unfold Audit.track
  dsimp only
  split
  · rfl
  split <;> rfl

theorem track_bare (b : Audit) (op : Op) (l : Ledger) (bare : l'.due = none) :
    (b.track op l l').renewed = [] ∧ (b.track op l l').failures = [] := by
  simp [Audit.track, bare]

theorem track_reset (owed : l'.due ≠ none) (reset : resets op l.due l'.due = true) :
    (b.track op l l').renewed = (if op.isDispatch then newRuns l l' else []) ∧
      (b.track op l l').failures = [] := by
  simp [Audit.track, owed, reset]

theorem track_more (owed : l'.due ≠ none) (more : resets op l.due l'.due = false) :
    (b.track op l l').renewed = b.renewed ++ (if op.isDispatch then newRuns l l' else []) ∧
      (b.track op l l').failures =
        b.failures ++ (failedRuns l l').filter fun id => b.started.contains id := by
  simp [Audit.track, owed, more]

end Track

section Steps
variable {op : Op} {l l' : Ledger} {b : Audit}

/-- A row that a step leaves dispatched to a run was so before it with no lower count, or the
    run is new. -/
theorem rowStep_dispatched (step : RowStep op l l') {row' : TaskDue} (owed' : l'.due = some row')
    {id : Nat} (attached : row'.runId = some id) (dispatched : row'.status = .dispatched) :
    (∃ row, l.due = some row ∧ row.runId = some id ∧ row.status = .dispatched ∧
        row'.attempts ≤ row.attempts) ∨ ∀ run ∈ l.runs, run.id ≠ id := by
  cases step with
  | passed reading runs passes =>
    left
    rcases passes row' owed' with ⟨-, opened⟩ | ⟨row, owed, passed⟩
    · rw [opened.detached] at attached
      cases attached
    rcases passed.runId with detached | ⟨same, status | blocked⟩
    · rw [detached] at attached
      cases attached
    · rcases passed.attempts with ⟨run, mem, charge⟩ | fewer
      · rw [charge.detached] at attached
        cases attached
      · exact ⟨row, owed, same.symm.trans attached, status.symm.trans dispatched, fewer⟩
    · rw [blocked] at dispatched
      cases dispatched
  | launched dispatch reading quiet pending fresh runs through ready due =>
    obtain rfl := Option.some.inj (due.symm.trans owed')
    obtain rfl := Option.some.inj attached
    exact Or.inr fresh
  | outcome reading mem running same ended runs owed was due =>
    rw [outcome_detached ended (due.symm.trans owed')] at attached
    cases attached
  | edited edit runs owed held due =>
    obtain rfl := Option.some.inj (due.symm.trans owed')
    cases dispatched
  | dropped runs due =>
    rw [due] at owed'
    cases owed'
  | untouched quiet due =>
    exact Or.inl ⟨row', due.symm.trans owed', attached, dispatched, le_refl _⟩

theorem mem_appliedFailure {id : Nat} (mem : id ∈ appliedFailure l l') :
    ∃ row row', l.due = some row ∧ l'.due = some row' ∧ row.runId = some id ∧
      (∃ run ∈ l'.runs, run.id = id ∧ run.state = .failed) ∧
      (row.status = .dispatched ∨ ∃ old ∈ l.runs, old.id = id ∧ old.state.active = true) ∧
      row.movedTo row' = true := by
  unfold appliedFailure at mem
  split at mem
  · rename_i row row' owed owed'
    obtain ⟨attached, guard⟩ := List.mem_filter.mp mem
    simp only [Bool.and_eq_true, Bool.or_eq_true, List.any_eq_true, decide_eq_true_eq] at guard
    exact ⟨row, row', owed, owed', by simpa using attached, guard.1.1, guard.1.2, guard.2⟩
  · cases mem

theorem appliedFailure_nodup (l l' : Ledger) : (appliedFailure l l').Nodup := by
  unfold appliedFailure
  split
  · rename_i row row' _ _
    refine List.Nodup.filter _ ?_
    cases row.runId <;> simp
  · exact List.nodup_nil

end Steps

/-- No failure is applied twice: the run has ended, and no row is dispatched to it. -/
structure AppliedOnce (l : Ledger) (b : Audit) : Prop where
  once : b.applied.Nodup
  stored : ∀ id ∈ b.applied, ∃ run ∈ l.runs, run.id = id ∧ run.state.active = false
  free : ∀ id ∈ b.applied, ∀ row, l.due = some row → row.runId = some id →
    row.status ≠ .dispatched

/-- A waiting row waits its backoff from when it was last charged. -/
def Backoff (l : Ledger) (b : Audit) : Prop :=
  ∀ row, l.due = some row → row.status = .retry → ∃ charged, b.chargedAt = some charged ∧
    row.retryAt = some (charged + seconds (backoffSeconds row.attempts))

def Audit.spent (b : Audit) : List Nat := b.failures.filter fun id => b.renewed.contains id

/-- A count that covers the spent runs, with room for one the row holds. -/
structure CountCovers (spent : List Nat) (row : TaskDue) : Prop where
  count : (spent.length : Int) ≤ row.attempts + 1
  free : (∀ id ∈ spent, ¬ row.Holds id) → (spent.length : Int) ≤ row.attempts

/-- Every failure since the reset is counted, but for one the row still holds. -/
structure Counted (l : Ledger) (b : Audit) : Prop where
  running : ∀ id ∈ b.renewed, ∀ run ∈ l.runs, run.id = id → run.state.active = true →
    ∃ row, l.due = some row ∧ row.Holds id
  stored : ∀ id ∈ b.renewed, ∃ run ∈ l.runs, run.id = id
  held : ∀ row, l.due = some row → ∀ id ∈ b.renewed, row.runId = some id → row.Holds id
  failed : ∀ id ∈ b.failures, ∃ run ∈ l.runs, run.id = id ∧ run.ordinaryFailure = true
  covers : ∀ row, l.due = some row → CountCovers b.spent row
  bare : l.due = none → b.renewed = [] ∧ b.failures = []

section Keeps
variable {env : Env} {a : Nat} {lo hi : Int} {op : Op} {l l' : Ledger} {b : Audit}

theorem appliedOnce_kept (wf : l.Wf a) (once : AppliedOnce l b)
    (effect : Effect env a lo hi op l l') (step : RowStep op l l') :
    AppliedOnce l' (b.track op l l') := by
  refine ⟨?_, ?_, ?_⟩
  · rw [track_applied]
    refine List.nodup_append.mpr ⟨once.once, appliedFailure_nodup l l', ?_⟩
    rintro id old id' new rfl
    obtain ⟨row, row', owed, -, attached, -, waits, -⟩ := mem_appliedFailure new
    rcases waits with dispatched | ⟨run, mem, same, active⟩
    · exact once.free id old row owed attached dispatched
    · obtain ⟨run', mem', same', ended⟩ := once.stored id old
      rw [run_unique wf mem mem' (same.trans same'.symm), ended] at active
      cases active
  · intro id mem
    rw [track_applied] at mem
    rcases List.mem_append.mp mem with old | new
    · obtain ⟨run, here, same, ended⟩ := once.stored id old
      exact ⟨run, effect_ended wf effect here ended, same, ended⟩
    · obtain ⟨-, -, -, -, -, ⟨run, here, same, failed⟩, -⟩ := mem_appliedFailure new
      exact ⟨run, here, same, by simp [failed]⟩
  · intro id mem row' owed' attached dispatched
    rw [track_applied] at mem
    have before := rowStep_dispatched step owed' attached dispatched
    rcases List.mem_append.mp mem with old | new
    · rcases before with ⟨row, owed, here, waits, -⟩ | fresh
      · exact once.free id old row owed here waits
      · obtain ⟨run, there, same, -⟩ := once.stored id old
        exact fresh run there same
    · obtain ⟨row, row'', owed, owed'', here, -, -, moved⟩ := mem_appliedFailure new
      obtain rfl := Option.some.inj (owed'.symm.trans owed'')
      rcases before with ⟨row₀, owed₀, -, waits, fewer⟩ | fresh
      · obtain rfl := Option.some.inj (owed.symm.trans owed₀)
        simp only [TaskDue.movedTo, dispatched, waits, attached, here, ne_eq, not_true_eq_false,
          decide_false, Bool.false_or, decide_eq_true_eq] at moved
        omega
      · obtain ⟨run, there, same⟩ := wf.attached row owed id here
        exact fresh run there same

theorem outcome_row {row row' : TaskDue} {run : Run} {now : Int}
    (ended : run.state.active = false) (attached : row.runId = some run.id)
    (settled : applyRunOutcome row run now = some row') :
    Charged run now row row' ∨
      row'.status ≠ .retry ∧ (row'.attempts = 0 ∨ row'.attempts = row.attempts) := by
  cases applyRunOutcome_left settled with
  | active active => simp [active] at ended
  | succeeded success finished =>
    obtain ⟨instant, -, rfl⟩ := finish_eq_some finished
    exact Or.inr ⟨by simp, Or.inl rfl⟩
  | failed state =>
    have failed := failOutcome_failed state attached now
    generalize failOutcome row run.errorMessage now = row' at failed
    cases failed with
    | released infra status attempts detached => exact Or.inr ⟨by simp [status], Or.inr attempts⟩
    | stopped permanent status attempts detached =>
      exact Or.inr ⟨by simp [status], Or.inr attempts⟩
    | charged charge => exact Or.inl charge

theorem charges_of_lt {row row' : TaskDue} (owed : l.due = some row) (owed' : l'.due = some row')
    (more : row.attempts < row'.attempts) : charges l.due l'.due = true := by
  simp [charges, owed, owed', more]

theorem charges_of_le {row row' : TaskDue} (owed : l.due = some row) (owed' : l'.due = some row')
    (fewer : row'.attempts ≤ row.attempts) : charges l.due l'.due = false := by
  simp only [charges, owed, owed', decide_eq_false_iff_not]
  omega

theorem backoff_charged {row row' : TaskDue} {run : Run} {now : Int} (owed : l.due = some row)
    (owed' : l'.due = some row') (charge : Charged run now row row')
    (reading : op.readings.head? = some now) (retry : row'.status = .retry) :
    ∃ charged, (b.track op l l').chargedAt = some charged ∧
      row'.retryAt = some (charged + seconds (backoffSeconds row'.attempts)) := by
  have more : row.attempts < row'.attempts := by
    have := charge.attempts
    omega
  refine ⟨now, ?_, charge.wait retry⟩
  rw [track_chargedAt, if_pos (charges_of_lt owed owed' more)]
  exact reading

theorem backoff_kept (backoff : Backoff l b) (step : RowStep op l l') :
    Backoff l' (b.track op l l') := by
  intro row' owed' retry
  cases step with
  | passed reading runs passes =>
    rcases passes row' owed' with ⟨-, opened⟩ | ⟨row, owed, passed⟩
    · rcases opened.status with s | s <;> rw [s] at retry <;> cases retry
    rcases passed.retry retry with ⟨run, -, charge⟩ | ⟨old, attempts, retryAt⟩
    · exact backoff_charged owed owed' charge reading retry
    · obtain ⟨charged, instant, date⟩ := backoff row owed old
      have quiet := charges_of_le owed owed' (le_of_eq attempts)
      refine ⟨charged, ?_, ?_⟩
      · rw [track_chargedAt, quiet]
        exact instant
      · rw [retryAt, attempts]
        exact date
  | launched dispatch reading quiet pending fresh runs passes ready due =>
    obtain rfl := Option.some.inj (due.symm.trans owed')
    cases retry
  | @outcome now row run before reading mem running id ended runs owed attached due =>
    rcases outcome_row ended attached (due.symm.trans owed') with charge | ⟨calm, -⟩
    · exact backoff_charged owed owed' charge reading retry
    · exact absurd retry calm
  | edited edit runs owed held due =>
    obtain rfl := Option.some.inj (due.symm.trans owed')
    cases retry
  | dropped runs due =>
    rw [due] at owed'
    cases owed'
  | untouched quiet due =>
    have owed := due.symm.trans owed'
    obtain ⟨charged, instant, date⟩ := backoff row' owed retry
    refine ⟨charged, ?_, date⟩
    rw [track_chargedAt, charges_of_le owed owed' (le_refl _)]
    exact instant

theorem mem_failedRuns {id : Nat} (mem : id ∈ failedRuns l l') :
    (∃ run ∈ l'.runs, run.id = id ∧ run.ordinaryFailure = true) ∧
      ∃ old ∈ l.runs, old.id = id ∧ old.state.active = true := by
  obtain ⟨run, there, rfl⟩ := List.mem_map.mp mem
  obtain ⟨here, ended⟩ := List.mem_filter.mp there
  simp only [Bool.and_eq_true, List.any_eq_true, decide_eq_true_eq] at ended
  obtain ⟨failure, old, mem, same, active⟩ := ended
  exact ⟨⟨run, here, rfl, failure⟩, old, mem, same, active⟩

theorem mem_newRuns {id : Nat} (mem : id ∈ newRuns l l') :
    (∃ run ∈ l'.runs, run.id = id) ∧ ∀ old ∈ l.runs, old.id ≠ id := by
  obtain ⟨run, there, rfl⟩ := List.mem_map.mp mem
  obtain ⟨here, fresh⟩ := List.mem_filter.mp there
  simp only [Bool.not_eq_true', List.any_eq_false, decide_eq_true_eq] at fresh
  exact ⟨⟨run, here, rfl⟩, fresh⟩

theorem active_before (wf : l.Wf a) (wf' : l'.Wf a) (effect : Effect env a lo hi op l l') {run run' : Run}
    (mem : run ∈ l.runs) (mem' : run' ∈ l'.runs) (same : run'.id = run.id)
    (active : run'.state.active = true) : run.state.active = true := by
  cases before : run.state.active with
  | true => rfl
  | false =>
    have kept := effect_ended wf effect mem before
    rw [run_unique wf' mem' kept same, before] at active
    cases active

/-- The run the dispatcher started in a step is the one the row is attached to. -/
theorem launched_only (step : RowStep op l l') {id : Nat}
    (new : id ∈ if op.isDispatch then newRuns l l' else []) :
    op.isDispatch = true ∧ (∀ old ∈ l.runs, old.id ≠ id) ∧
      ∃ row', l'.due = some row' ∧ row'.Holds id := by
  split at new
  · rename_i dispatch
    obtain ⟨⟨run', here, rfl⟩, fresh⟩ := mem_newRuns new
    have none_new : l'.runs = l.runs → False := fun runs => fresh run' (runs ▸ here) rfl
    refine ⟨dispatch, fresh, ?_⟩
    cases step with
    | passed reading runs passes => exact (none_new runs).elim
    | launched _ reading quiet pending fresh' runs passes ready due =>
      rw [runs] at here
      rcases List.mem_append.mp here with old | added
      · exact absurd rfl (fresh run' old)
      · obtain rfl := List.mem_singleton.mp added
        exact ⟨_, due, rfl, Or.inl rfl⟩
    | @outcome now row run before reading mem running id ended runs owed attached due =>
      rw [runs] at here
      rcases mem_swapRuns here with old | ⟨same, there⟩
      · exact absurd rfl (fresh run' old)
      · obtain ⟨r, mr, id'⟩ := there
        exact absurd id' (same ▸ fresh r mr)
    | edited edit runs owed held due => exact (none_new runs).elim
    | dropped runs due => exact (none_new runs).elim
    | untouched quiet due => exact (none_new (quiet dispatch)).elim
  · cases new

theorem edited_resets (sound : l.Sound) {row : TaskDue} {now : Int} (edit : op.isEdit = true)
    (owed : l.due = some row) (held : row.status = .blocked ∨ row.status = .exhausted)
    (due : l'.due = some { row.rearm with updatedAt := now }) : resets op l.due l'.due = true := by
  rw [owed, due]
  rcases held with blocked | exhausted
  · simp [resets, edit, blocked, TaskDue.rearm]
  · have spent := ((sound row owed).exhausted exhausted).1
    have down : (0 : Int) < row.attempts := by
      rw [spent]
      decide
    simp [resets, TaskDue.rearm, down]

theorem outcome_charged {row row' : TaskDue} {run : Run} {now : Int}
    (attached : row.runId = some run.id) (failure : run.ordinaryFailure = true)
    (settled : applyRunOutcome row run now = some row') : row'.attempts = row.attempts + 1 := by
  have ended := failure
  simp only [Run.ordinaryFailure, Bool.and_eq_true, decide_eq_true_eq, Bool.not_eq_true'] at ended
  obtain ⟨⟨state, infra⟩, permanent⟩ := ended
  unfold applyRunOutcome at settled
  simp only [state] at settled
  obtain rfl := Option.some.inj settled
  cases failOutcome_failed state attached now with
  | released infra' status attempts detached => simp [infra] at infra'
  | stopped permanent' status attempts detached => simp [permanent] at permanent'
  | charged charge => exact charge.attempts

theorem running_held (sound : l.Sound) (wf' : l'.Wf a) (step : RowStep op l l') {row : TaskDue}
    (owed : l.due = some row) {run run' : Run} (holds : row.Holds run.id) (mem : run ∈ l.runs)
    (active : run.state.active = true) (mem' : run' ∈ l'.runs) (same : run'.id = run.id)
    (active' : run'.state.active = true) :
    (∃ row', l'.due = some row' ∧ row'.Holds run.id ∧ row'.attempts = row.attempts) ∨
      l'.due = none ∨ op.isEdit = true ∧ row.status = .blocked ∧ row.runId ≠ none ∧
        resets op l.due l'.due = true := by
  cases step with
  | passed reading runs passes =>
    cases owed' : l'.due with
    | none => exact Or.inr (Or.inl rfl)
    | some row' =>
      rcases passes row' owed' with ⟨bare, -⟩ | ⟨row₀, owed₀, passed⟩
      · rw [bare] at owed
        cases owed
      · obtain rfl := Option.some.inj (owed.symm.trans owed₀)
        exact Or.inl ⟨row', rfl, passed.running run mem holds active⟩
  | launched dispatch reading quiet pending fresh runs passes ready due =>
    rw [quiet run mem] at active
    cases active
  | @outcome now row₀ new before reading there running id ended runs owed₀ attached due =>
    obtain rfl := Option.some.inj (owed.symm.trans owed₀)
    have new' : new ∈ l'.runs := runs ▸ mem_swapRun_self there id
    have one : run.id = new.id := Option.some.inj (holds.1.symm.trans attached)
    rw [run_unique wf' mem' new' (same.trans one), ended] at active'
    cases active'
  | edited edit runs owed₀ held due =>
    have reset := edited_resets sound edit owed₀ held due
    obtain rfl := Option.some.inj (owed.symm.trans owed₀)
    rcases held with blocked | exhausted
    · exact Or.inr (Or.inr ⟨edit, blocked, by simp [holds.1], reset⟩)
    · rcases holds.2 with s | s <;> simp [s] at exhausted
  | dropped runs due => exact Or.inr (Or.inl due)
  | untouched quiet due => exact Or.inl ⟨row, due.trans owed, holds, rfl⟩

/-- The runs a step ends that count against the row. -/
def Audit.newlySpent (b : Audit) (l l' : Ledger) : List Nat :=
  ((failedRuns l l').filter fun id => b.started.contains id).filter fun id => b.renewed.contains id

theorem mem_newlySpent {id : Nat} (new : id ∈ b.newlySpent l l') :
    id ∈ failedRuns l l' ∧ id ∈ b.renewed := by
  obtain ⟨inner, renewed⟩ := List.mem_filter.mp new
  exact ⟨(List.mem_filter.mp inner).1, by simpa using renewed⟩

theorem newlySpent_nil (nothing : failedRuns l l' = []) : b.newlySpent l l' = [] := by
  simp [Audit.newlySpent, nothing]

theorem newlySpent_nodup (wf' : l'.Wf a) (b : Audit) : (b.newlySpent l l').Nodup := by
  refine List.Nodup.filter _ (List.Nodup.filter _ ?_)
  exact wf'.unique.sublist (List.filter_sublist.map _)

theorem spent_track (counted : Counted l b) (step : RowStep op l l') (owed' : l'.due ≠ none)
    (more : resets op l.due l'.due = false) :
    (b.track op l l').spent = b.spent ++ b.newlySpent l l' := by
  obtain ⟨renewed, failures⟩ := track_more (b := b) owed' more
  have old : ∀ id, (∃ run ∈ l.runs, run.id = id) →
      ((b.renewed ++ if op.isDispatch then newRuns l l' else []).contains id) =
        b.renewed.contains id := by
    rintro id ⟨run, mem, rfl⟩
    have fresh : run.id ∉ if op.isDispatch then newRuns l l' else [] := fun new =>
      (launched_only step new).2.1 run mem rfl
    simp [fresh]
  unfold Audit.spent
  rw [renewed, failures, List.filter_append]
  congr 1
  · refine List.filter_congr fun id mem => old id ?_
    obtain ⟨run, here, same, -⟩ := counted.failed id mem
    exact ⟨run, here, same⟩
  · refine List.filter_congr fun id mem => old id ?_
    obtain ⟨-, run, here, same, -⟩ := mem_failedRuns (List.mem_filter.mp mem).1
    exact ⟨run, here, same⟩

theorem newlySpent_held (counted : Counted l b) {row : TaskDue} (owed : l.due = some row)
    (l' : Ledger) : ∀ id ∈ b.newlySpent l l', row.Holds id ∧ ∃ run ∈ l.runs, run.id = id ∧
      run.state.active = true := by
  intro id mem
  obtain ⟨failed, renewed⟩ := mem_newlySpent mem
  obtain ⟨-, run, here, same, active⟩ := mem_failedRuns failed
  obtain ⟨row₀, owed₀, holds⟩ := counted.running id renewed run here same active
  obtain rfl := Option.some.inj (owed.symm.trans owed₀)
  exact ⟨holds, run, here, same, active⟩

/-- A row holds one run, so a step adds at most one to those that count against it. -/
theorem newlySpent_length (wf' : l'.Wf a) (counted : Counted l b) {row : TaskDue}
    (owed : l.due = some row) : (b.newlySpent l l').length ≤ 1 := by
  have held := newlySpent_held counted owed l'
  have distinct := newlySpent_nodup (l := l) wf' b
  generalize b.newlySpent l l' = new at held distinct
  rcases new with _ | ⟨x, _ | ⟨y, rest⟩⟩
  · simp
  · simp
  · have one : x = y := Option.some.inj
      ((held x (by simp)).1.1.symm.trans (held y (by simp)).1.1)
    subst one
    simp at distinct

theorem covers_passed {runs : List Run} {spent : List Nat} {row row' : TaskDue} {now : Int}
    (covers : CountCovers spent row) (passed : Passed runs now row row')
    (more : ¬ row'.attempts < row.attempts)
    (failed : ∀ id ∈ spent, ∃ run ∈ runs, run.id = id ∧ run.ordinaryFailure = true) :
    CountCovers spent row' := by
  have count := covers.count
  refine ⟨by omega, fun free => ?_⟩
  by_cases held : ∃ id ∈ spent, row.Holds id
  · obtain ⟨id, mem, holds⟩ := held
    obtain ⟨run, here, rfl, failure⟩ := failed id mem
    rcases passed.failed run here holds failure with ⟨kept, -⟩ | charged | less
    · exact absurd kept (free run.id mem)
    · omega
    · exact absurd less more
  · have := covers.free fun id mem holds => held ⟨id, mem, holds⟩
    omega

theorem spent_failed (counted : Counted l b) :
    ∀ id ∈ b.spent, ∃ run ∈ l.runs, run.id = id ∧ run.ordinaryFailure = true := fun id mem =>
  counted.failed id (List.mem_filter.mp mem).1

theorem spent_below (wf : l.Wf a) (counted : Counted l b) {row : TaskDue} (owed : l.due = some row)
    {run : Run} (attached : row.runId = some run.id) (mem : run ∈ l.runs)
    (active : run.state.active = true) : (b.spent.length : Int) ≤ row.attempts := by
  refine (counted.covers row owed).free fun id here holds => ?_
  obtain ⟨old, mem', same, failure⟩ := spent_failed counted id here
  have one : run.id = id := Option.some.inj (attached.symm.trans holds.1)
  rw [run_unique wf mem' mem (same.trans one.symm)] at failure
  rw [ordinary_ended failure] at active
  cases active

theorem failedRuns_same (wf : l.Wf a) (runs : l'.runs = l.runs) : failedRuns l l' = [] := by
  refine List.eq_nil_iff_forall_not_mem.mpr fun id mem => ?_
  obtain ⟨⟨run, here, same, failure⟩, old, there, same', active⟩ := mem_failedRuns mem
  rw [runs] at here
  rw [run_unique wf there here (same'.trans same.symm), ordinary_ended failure] at active
  cases active

/-- A row that is ready holds no run, so its count covers the spent runs alone. -/
theorem covers_launched {spent : List Nat} {row : TaskDue} {now : Int}
    (covers : CountCovers spent row) (ready : row.Ready now) (id : Nat) :
    CountCovers spent (row.dispatchedTo id now) := by
  have below : (spent.length : Int) ≤ row.attempts := by
    refine covers.free fun id _ holds => ?_
    obtain ⟨undispatched, unblocked⟩ := ready_open ready
    rcases holds.2 with s | s
    · exact undispatched s
    · exact unblocked s
  refine ⟨?_, fun _ => below⟩
  show (spent.length : Int) ≤ row.attempts + 1
  omega

theorem covers_outcome (wf : l.Wf a) (wf' : l'.Wf a) (counted : Counted l b) {row row' : TaskDue}
    {run before : Run} {now : Int} (mem : before ∈ l.runs) (running : before.state = .running)
    (id : run.id = before.id) (runs : l'.runs = l.runs.map (swapRun run)) (owed : l.due = some row)
    (attached : row.runId = some run.id) (settled : applyRunOutcome row run now = some row')
    (fewer : ¬ row'.attempts < row.attempts) :
    CountCovers (b.spent ++ b.newlySpent l l') row' := by
  have below := spent_below wf counted owed (id ▸ attached) mem (by simp [running])
  have few := newlySpent_length wf' counted owed
  -- a spent run is the one that ended here, and its failure was charged
  have charged : ∀ i ∈ b.newlySpent l l', row'.attempts = row.attempts + 1 := by
    intro i new
    have one : i = run.id :=
      Option.some.inj ((newlySpent_held counted owed l' i new).1.1.symm.trans attached)
    obtain ⟨⟨run', here, same, failure⟩, -⟩ := mem_failedRuns (mem_newlySpent new).1
    have new' : run ∈ l'.runs := runs ▸ mem_swapRun_self mem id
    rw [run_unique wf' here new' (same.trans one)] at failure
    exact outcome_charged attached failure settled
  generalize b.newlySpent l l' = new at few charged
  have total : ((b.spent ++ new).length : Int) ≤ row'.attempts := by
    rw [List.length_append]
    cases new with
    | nil => simp only [List.length_nil]; omega
    | cons i rest =>
      have := charged i (by simp)
      simp only [List.length_cons] at few ⊢
      omega
  exact ⟨by omega, fun _ => total⟩

theorem covers_untouched (wf : l.Wf a) (wf' : l'.Wf a) (counted : Counted l b) {row : TaskDue}
    (owed : l.due = some row) : CountCovers (b.spent ++ b.newlySpent l l') row := by
  have few := newlySpent_length wf' counted owed
  have held := newlySpent_held counted owed l'
  generalize b.newlySpent l l' = new at few held
  cases new with
  | nil => simpa using counted.covers row owed
  | cons i rest =>
    obtain ⟨holds, run, here, same, active⟩ := held i (by simp)
    have below := spent_below wf counted owed (same ▸ holds.1) here active
    refine ⟨?_, fun free => absurd holds (free i (by simp))⟩
    rw [List.length_append]
    omega

theorem covers_kept (wf : l.Wf a) (wf' : l'.Wf a) (sound : l.Sound) (counted : Counted l b)
    (step : RowStep op l l') {row' : TaskDue} (owed' : l'.due = some row')
    (more : resets op l.due l'.due = false) : CountCovers (b.track op l l').spent row' := by
  have there : l'.due ≠ none := by simp [owed']
  rw [spent_track counted step there more]
  -- a row that is still there without a reset was there before
  obtain ⟨row, owed⟩ : ∃ row, l.due = some row := by
    cases owed : l.due with
    | none => simp [resets, owed, owed'] at more
    | some row => exact ⟨row, rfl⟩
  have fewer : ¬ row'.attempts < row.attempts := by
    intro less
    simp [resets, owed, owed', less] at more
  have base := counted.covers row owed
  have inherited : ∀ (now : Int) (r : TaskDue), l.Passes now (some r) →
      Passed l.runs now row r := by
    intro now r passes
    rcases passes r rfl with ⟨bare, -⟩ | ⟨row₀, owed₀, passed⟩
    · rw [bare] at owed
      cases owed
    · obtain rfl := Option.some.inj (owed.symm.trans owed₀)
      exact passed
  cases step with
  | passed reading runs passes =>
    rw [newlySpent_nil (failedRuns_same wf runs), List.append_nil]
    exact covers_passed base (inherited _ row' (owed' ▸ passes)) fewer (spent_failed counted)
  | @launched now row₁ run dispatch reading idle pending fresh runs passes ready due =>
    have nothing : failedRuns l l' = [] := by
      refine List.eq_nil_iff_forall_not_mem.mpr fun id mem => ?_
      obtain ⟨-, old, here, -, active⟩ := mem_failedRuns mem
      rw [idle old here] at active
      cases active
    rw [newlySpent_nil nothing, List.append_nil]
    obtain rfl := Option.some.inj (due.symm.trans owed')
    have covers := covers_passed base (inherited now row₁ passes) fewer (spent_failed counted)
    exact covers_launched covers ready run.id
  | @outcome now row₀ run before reading mem running id ended runs owed₀ attached due =>
    obtain rfl := Option.some.inj (owed.symm.trans owed₀)
    have settled := due.symm.trans owed'
    exact covers_outcome wf wf' counted mem running id runs owed attached settled fewer
  | edited edit runs owed₀ held' due =>
    rw [edited_resets sound edit owed₀ held' due] at more
    cases more
  | dropped runs due => exact absurd due there
  | untouched quiet' due =>
    obtain rfl := Option.some.inj (owed.symm.trans (due.symm.trans owed'))
    exact covers_untouched wf wf' counted owed

theorem mem_renewed {id : Nat} (owed' : l'.due ≠ none) (mem : id ∈ (b.track op l l').renewed) :
    id ∈ b.renewed ∧ resets op l.due l'.due = false ∨
      id ∈ if op.isDispatch then newRuns l l' else [] := by
  cases reset : resets op l.due l'.due with
  | true =>
    rw [(track_reset owed' reset).1] at mem
    exact Or.inr mem
  | false =>
    rw [(track_more owed' reset).1] at mem
    rcases List.mem_append.mp mem with old | new
    · exact Or.inl ⟨old, rfl⟩
    · exact Or.inr new

theorem held_kept (counted : Counted l b) (step : RowStep op l l') {row' : TaskDue}
    (owed' : l'.due = some row') {id : Nat} (old : id ∈ b.renewed)
    (more : resets op l.due l'.due = false) (sound : l.Sound) (attached : row'.runId = some id) :
    row'.Holds id := by
  obtain ⟨run, here, same⟩ := counted.stored id old
  have before : ∀ (now : Int) (r : TaskDue), l.Passes now (some r) → r.runId = some id →
      r.Holds id := by
    intro now r passes attached
    rcases passes r rfl with ⟨-, opened⟩ | ⟨row, owed, passed⟩
    · rw [opened.detached] at attached
      cases attached
    · rcases passed.runId with detached | ⟨kept, status⟩
      · rw [detached] at attached
        cases attached
      · have holds := counted.held row owed id old (kept.symm.trans attached)
        refine ⟨attached, ?_⟩
        rcases status with stays | blocked
        · rw [stays]
          exact holds.2
        · exact Or.inr blocked
  cases step with
  | passed reading runs passes => exact before _ row' (owed' ▸ passes) attached
  | launched dispatch reading quiet pending fresh runs passes ready due =>
    obtain rfl := Option.some.inj (due.symm.trans owed')
    exact absurd (Option.some.inj attached).symm (same ▸ fresh run here)
  | outcome reading mem running id' ended runs owed was due =>
    rw [outcome_detached ended (due.symm.trans owed')] at attached
    cases attached
  | edited edit runs owed held due =>
    rw [edited_resets sound edit owed held due] at more
    cases more
  | dropped runs due =>
    rw [due] at owed'
    cases owed'
  | untouched quiet due => exact counted.held row' (due.symm.trans owed') id old attached

theorem running_kept (wf : l.Wf a) (wf' : l'.Wf a) (sound : l.Sound) (counted : Counted l b)
    (effect : Effect env a lo hi op l l') (step : RowStep op l l') (there : l'.due ≠ none)
    {id : Nat} (mem : id ∈ (b.track op l l').renewed) {run' : Run} (mem' : run' ∈ l'.runs)
    (same : run'.id = id) (active' : run'.state.active = true) :
    ∃ row, l'.due = some row ∧ row.Holds id := by
  rcases mem_renewed there mem with ⟨old, more⟩ | new
  · obtain ⟨run, here, rfl⟩ := counted.stored id old
    have active := active_before wf wf' effect here mem' same active'
    obtain ⟨row, owed, holds⟩ := counted.running run.id old run here rfl active
    rcases running_held sound wf' step owed holds here active mem' same active' with
      ⟨r, owed₁, holds', -⟩ | bare | ⟨-, -, -, reset⟩
    · exact ⟨r, owed₁, holds'⟩
    · exact absurd bare there
    · rw [reset] at more
      cases more
  · obtain ⟨-, -, r, owed₁, holds⟩ := launched_only step new
    exact ⟨r, owed₁, holds⟩

theorem failed_kept (wf : l.Wf a) (counted : Counted l b) (effect : Effect env a lo hi op l l')
    (there : l'.due ≠ none) {id : Nat} (mem : id ∈ (b.track op l l').failures) :
    ∃ run ∈ l'.runs, run.id = id ∧ run.ordinaryFailure = true := by
  cases reset : resets op l.due l'.due with
  | true =>
    rw [(track_reset there reset).2] at mem
    cases mem
  | false =>
    rw [(track_more there reset).2] at mem
    rcases List.mem_append.mp mem with old | new
    · obtain ⟨run, here, same, failure⟩ := counted.failed id old
      exact ⟨run, effect_ended wf effect here (ordinary_ended failure), same, failure⟩
    · exact (mem_failedRuns (List.mem_filter.mp new).1).1

/-- A reset leaves nothing to cover, and any other step keeps the count above the failures. -/
theorem covers_tracked (wf : l.Wf a) (wf' : l'.Wf a) (sound : l.Sound) (counted : Counted l b)
    (effect : Effect env a lo hi op l l') (step : RowStep op l l') {row' : TaskDue}
    (owed' : l'.due = some row') : CountCovers (b.track op l l').spent row' := by
  have there : l'.due ≠ none := by simp [owed']
  cases reset : resets op l.due l'.due with
  | false => exact covers_kept wf wf' sound counted step owed' reset
  | true =>
    have nothing : (b.track op l l').spent = [] := by
      simp [Audit.spent, (track_reset (b := b) there reset).2]
    have positive := (effect_sound sound effect row' owed').counted.1
    rw [nothing]
    exact ⟨by simp; omega, fun _ => by simpa using positive⟩

theorem counted_bare (owed' : l'.due = none) : Counted l' (b.track op l l') := by
  obtain ⟨renewed, failures⟩ := track_bare b op l owed'
  refine ⟨?_, ?_, ?_, ?_, ?_, fun _ => ⟨renewed, failures⟩⟩
  · simp [renewed]
  · simp [renewed]
  · intro row here
    rw [owed'] at here
    cases here
  · simp [failures]
  · intro row here
    rw [owed'] at here
    cases here

theorem counted_kept (wf : l.Wf a) (wf' : l'.Wf a) (sound : l.Sound) (counted : Counted l b)
    (effect : Effect env a lo hi op l l') (step : RowStep op l l') :
    Counted l' (b.track op l l') := by
  cases owed' : l'.due with
  | none => exact counted_bare owed'
  | some row' =>
    have there : l'.due ≠ none := by simp [owed']
    refine ⟨?_, ?_, ?_, ?_, ?_, fun bare => absurd bare there⟩
    · intro id mem run' mem' same active'
      exact running_kept wf wf' sound counted effect step there mem mem' same active'
    · intro id mem
      rcases mem_renewed there mem with ⟨old, -⟩ | new
      · obtain ⟨run, here, rfl⟩ := counted.stored id old
        exact effect_keeps effect here
      · split at new
        · exact (mem_newRuns new).1
        · cases new
    · intro row₁ owed₁ id mem attached
      obtain rfl := Option.some.inj (owed'.symm.trans owed₁)
      rcases mem_renewed there mem with ⟨old, more⟩ | new
      · exact held_kept counted step owed' old more sound attached
      · obtain ⟨-, -, r, owed₂, holds⟩ := launched_only step new
        obtain rfl := Option.some.inj (owed'.symm.trans owed₂)
        exact holds
    · intro id mem
      exact failed_kept wf counted effect there mem
    · intro row₁ owed₁
      obtain rfl := Option.some.inj (owed'.symm.trans owed₁)
      exact covers_tracked wf wf' sound counted effect step owed'

end Keeps

/-- The parts of the record that hold along every history. -/
structure Tallied (l : Ledger) (b : Audit) : Prop where
  applied : AppliedOnce l b
  backoff : Backoff l b
  counted : Counted l b

theorem tallied_new {l : Ledger} (bare : l.due = none) : Tallied l {} := by
  have absent : ∀ row, l.due ≠ some row := fun row owed => by simp [bare] at owed
  refine ⟨⟨List.nodup_nil, ?_, ?_⟩, ?_, ?_⟩
  · simp
  · simp
  · exact fun row owed => absurd owed (absent row)
  · refine ⟨by simp, by simp, ?_, by simp, ?_, fun _ => ⟨rfl, rfl⟩⟩
    · exact fun row owed => absurd owed (absent row)
    · exact fun row owed => absurd owed (absent row)

/-- A reachable state with a record that is right about it. -/
structure Audited (env : Env) (a : Nat) (x : Service × Audit) : Prop where
  reachable : Reachable env x.1
  absent : x.1.db.view a = none → x.2 = {}
  tallied : ∀ l, x.1.db.view a = some l → Tallied l x.2

theorem audited_init (env : Env) (a : Nat) (clock : Int) :
    Audited env a (Service.init clock, {}) := by
  refine ⟨⟨clock, [], Trace.nil⟩, fun _ => rfl, fun l view => ?_⟩
  simp [view_eq, Service.init, Db.empty] at view

theorem audited_step {env : Env} {a : Nat} {x y : Service × Audit} {op : Op}
    (holds : Audited env a x) (step : Recorded env a x op y) : Audited env a y := by
  obtain ⟨move, record⟩ := step
  refine ⟨reachable_step holds.reachable move, fun gone => ?_, fun l' view' => ?_⟩
  · rw [gone] at record
    rw [record]
    unfold Audit.next
    split
    · rename_i nothing
      cases nothing
    · rfl
  have linked := reachable_linked holds.reachable
  obtain ⟨linked', views⟩ := apply_sees linked move
  have seen := views a
  rw [view'] at seen record
  generalize before : x.1.db.view a = v at seen record
  cases seen with
  | created time request =>
    rw [record]
    exact tallied_new rfl
  | acts effect =>
    have wf := view_wf linked before
    have wf' := view_wf linked' view'
    have sound := reachable_sound holds.reachable before
    obtain ⟨applied, backoff, counted⟩ := holds.tallied _ before
    have row := effect_rowStep wf sound effect
    rw [record]
    exact ⟨appliedOnce_kept wf applied effect row, backoff_kept backoff row,
      counted_kept wf wf' sound counted effect row⟩

section Budget
variable {env : Env} {a : Nat} {t : Service} {b : Audit}

/-- A transaction raises the count by one, for the run the row is attached to, and only when
    that run failed ordinarily. -/
def ChargesFailures (env : Env) (a : Nat) (s : Service) : Prop :=
  ∀ op t row row', Step env s op t → s.db.taskDue.get a = some row →
    t.db.taskDue.get a = some row' → row.attempts < row'.attempts →
      row'.attempts = row.attempts + 1 ∧
        ∃ run ∈ t.db.runs.rows, row.runId = some run.id ∧ run.ordinaryFailure = true

/-- A pass that starts a waiting row with its count starts it after the backoff. -/
def WaitsBackoff (env : Env) (a : Nat) (s : Service) (b : Audit) : Prop :=
  ∀ probe now stamps t row row', Step env s (.dispatch probe now stamps) t →
    s.db.taskDue.get a = some row → row.status = .retry → Starts s.db t.db a row' →
    row'.attempts = row.attempts → ∃ charged, b.chargedAt = some charged ∧
      charged + seconds (min (60 * 2 ^ (row.attempts - 1).toNat) 3600) ≤ now

/-- What holds of the row of a task and of its record in every state: no failure is applied
    twice, at most six of the runs started since the last reset have failed, the count, the
    status and the retry date agree, and the steps charge and wait as they should. -/
structure WithinBudget (env : Env) (a : Nat) (s : Service) (b : Audit) : Prop where
  once : b.applied.Nodup
  spent : b.spent.length ≤ 6
  bounds : ∀ row, s.db.taskDue.get a = some row → 0 ≤ row.attempts ∧ row.attempts ≤ 6 ∧
    (row.status = .retry → 1 ≤ row.attempts ∧ row.attempts ≤ 5 ∧ row.retryAt ≠ none) ∧
    (row.status = .exhausted → row.attempts = 6 ∧ row.retryAt = none)
  charges : ChargesFailures env a s
  waits : WaitsBackoff env a s b

theorem rowStep_charges {op : Op} {l l' : Ledger} {row row' : TaskDue} (step : RowStep op l l')
    (owed : l.due = some row) (owed' : l'.due = some row') (more : row.attempts < row'.attempts)
    (counted : 0 ≤ row.attempts) :
    row'.attempts = row.attempts + 1 ∧
      ∃ run ∈ l'.runs, row.runId = some run.id ∧ run.ordinaryFailure = true := by
  have passed : ∀ (now : Int) (r : TaskDue), l.Passes now (some r) → row.attempts < r.attempts →
      r.attempts = row.attempts + 1 ∧
        ∃ run ∈ l.runs, row.runId = some run.id ∧ run.ordinaryFailure = true := by
    intro now r passes more
    rcases passes r rfl with ⟨bare, -⟩ | ⟨row₀, owed₀, passed⟩
    · rw [bare] at owed
      cases owed
    obtain rfl := Option.some.inj (owed.symm.trans owed₀)
    rcases passed.attempts with ⟨run, mem, charge⟩ | fewer
    · exact ⟨charge.attempts, run, mem, charge.attached, charge.failure⟩
    · omega
  cases step with
  | passed reading runs passes =>
    obtain ⟨one, run, mem, rest⟩ := passed _ row' (owed' ▸ passes) more
    exact ⟨one, run, runs ▸ mem, rest⟩
  | launched dispatch reading quiet pending fresh runs passes ready due =>
    obtain rfl := Option.some.inj (due.symm.trans owed')
    obtain ⟨one, run, mem, rest⟩ := passed _ _ passes more
    exact ⟨one, run, runs ▸ List.mem_append_left _ mem, rest⟩
  | @outcome now row₀ run before reading mem running id ended runs owed₀ attached due =>
    obtain rfl := Option.some.inj (owed.symm.trans owed₀)
    have there : run ∈ l'.runs := runs ▸ mem_swapRun_self mem id
    rcases outcome_row ended attached (due.symm.trans owed') with charge | ⟨-, fewer⟩
    · exact ⟨charge.attempts, run, there, attached, charge.failure⟩
    · rcases fewer with zero | same <;> omega
  | edited edit runs owed₀ held due =>
    obtain rfl := Option.some.inj (due.symm.trans owed')
    simp only [TaskDue.rearm] at more
    omega
  | dropped runs due =>
    rw [due] at owed'
    cases owed'
  | untouched quiet due =>
    obtain rfl := Option.some.inj (owed.symm.trans (due.symm.trans owed'))
    omega

theorem step_row {env : Env} {a : Nat} {s t : Service} {op : Op} (linked : s.db.Linked)
    (step : Step env s op t) {row row' : TaskDue} (owed : s.db.taskDue.get a = some row)
    (owed' : t.db.taskDue.get a = some row') :
    ∃ l l', s.db.view a = some l ∧ t.db.view a = some l' ∧ l.due = some row ∧
      l'.due = some row' ∧ Effect env a s.clock t.clock op l l' := by
  obtain ⟨linked', views⟩ := apply_sees linked step
  obtain ⟨l, view, due⟩ := view_of_row linked owed
  obtain ⟨l', view', due'⟩ := view_of_row linked' owed'
  have seen := views a
  rw [view, view'] at seen
  cases seen with
  | acts effect => exact ⟨l, l', view, view', due, due', effect⟩

theorem charges_failures (reachable : Reachable env t) : ChargesFailures env a t := by
  intro op u row row' step owed owed' more
  have linked := reachable_linked reachable
  obtain ⟨l, l', view, view', due, due', effect⟩ := step_row linked step owed owed'
  have sound := reachable_sound reachable view
  obtain ⟨one, run, mem, attached, failure⟩ :=
    rowStep_charges (effect_rowStep (view_wf linked view) sound effect) due due' more
      (sound row due).counted.1
  exact ⟨one, run, ((mem_view_runs view').mp mem).1, attached, failure⟩

theorem backoffSeconds_eq (attempts : Int) :
    backoffSeconds attempts = min (60 * 2 ^ (attempts - 1).toNat) 3600 := by
  have exponent : (max (attempts - 1) 0).toNat = (attempts - 1).toNat := by omega
  simp only [backoffSeconds, backoffInitialSeconds, backoffCeilingSeconds, exponent]

theorem settled_waiting {runs : List Run} {row row' : TaskDue} {now : Int}
    (settled : Settled runs row now (some row')) (retry : row.status = .retry)
    (positive : 1 ≤ row.attempts) (same : row'.attempts = row.attempts) :
    row'.status = .retry ∧ row'.retryAt = row.retryAt := by
  have promoted : ∀ followUp, finish row followUp now ≠ some row' := by
    intro followUp finished
    obtain ⟨instant, -, rfl⟩ := finish_eq_some finished
    simp only at same
    omega
  generalize kept : some row' = due at settled
  cases settled with
  | missing dispatched gone => simp [retry] at dispatched
  | active dispatched mem attached active => simp [retry] at dispatched
  | succeeded dispatched mem attached success => simp [retry] at dispatched
  | cancelled dispatched mem attached cancelled => cases kept
  | failed dispatched mem attached failed => simp [retry] at dispatched
  | blocked blocked => simp [retry] at blocked
  | paid isOpen mem owner success pays last => exact absurd kept.symm (promoted _)
  | unmarked isOpen unpaid marked idle =>
    obtain rfl := Option.some.inj kept
    simp [retry]
  | owed isOpen unpaid =>
    obtain rfl := Option.some.inj kept
    exact ⟨retry, rfl⟩

theorem waits_backoff (audited : Audited env a (t, b)) : WaitsBackoff env a t b := by
  intro probe now stamps u row row' step owed retry starts same
  have linked := reachable_linked audited.reachable
  obtain ⟨owed', dispatched, id, attached, fresh⟩ := starts
  obtain ⟨l, l', view, view', due, due', effect⟩ := step_row linked step owed owed'
  have base := reachable_sound audited.reachable view row due
  obtain ⟨charged, moment, date⟩ := (audited.tallied l view).backoff row due retry
  refine ⟨charged, moment, ?_⟩
  have waiting : row.runId ≠ some id := by
    rw [(base.retry retry).2.2.2]
    simp
  have settled : ∀ row₁, (l.settle now).due = some row₁ →
      Settled l.runs row now (some row₁) := by
    intro row₁ after
    have found := settleRow_settled l.runs row now
    have shape : (l.settle now).due = settleRow l.runs row now := by simp [Ledger.settle, due]
    rw [← shape, after] at found
    exact found
  cases effect with
  | idle =>
    obtain rfl := Option.some.inj (due.symm.trans due')
    exact absurd attached waiting
  | pass time =>
    have kept := (settled_waiting (settled row' due') retry (base.retry retry).1 same).1
    simp [dispatched] at kept
  | drop time after other disabled => cases due'
  | wait time after ready =>
    obtain rfl := Option.some.inj due'
    exact absurd dispatched (ready_open ready).1
  | @launch probe now stamps l row₁ i stamp time after ready enabled quiet new started =>
    obtain rfl := Option.some.inj due'
    obtain ⟨still, kept⟩ :=
      settled_waiting (settled row₁ after) retry (base.retry retry).1 same
    have ripe : ∀ instant, row₁.retryAt = some instant → instant ≤ now := by
      rcases ready with late | ⟨-, ripe⟩
      · simp [late] at still
      · exact ripe
    have := ripe _ (kept.trans date)
    rw [← backoffSeconds_eq]
    exact this

theorem spent_within {l : Ledger} (counted : Counted l b) (sound : l.Sound) :
    b.spent.length ≤ 6 := by
  cases due : l.due with
  | none => simp [Audit.spent, (counted.bare due).2]
  | some row =>
    have covers := counted.covers row due
    have base := sound row due
    by_cases held : ∃ id ∈ b.spent, row.Holds id
    · -- a row that still waits for a run has a retry left
      obtain ⟨id, -, holds⟩ := held
      have left := base.budget (Or.inl (by simp [holds.1]))
      have count := covers.count
      simp only [maxAutomaticRetries] at left
      omega
    · have below := covers.free fun id mem holds => held ⟨id, mem, holds⟩
      have counted := base.counted.2
      simp only [maxAutomaticRetries] at counted
      omega

theorem within_budget (audited : Audited env a (t, b)) : WithinBudget env a t b := by
  have sound : ∀ row, t.db.taskDue.get a = some row → ∃ l, t.db.view a = some l ∧
      l.due = some row ∧ row.Sound l.runs := by
    intro row owed
    obtain ⟨l, view, due⟩ := view_of_row (reachable_linked audited.reachable) owed
    exact ⟨l, view, due, reachable_sound audited.reachable view row due⟩
  refine ⟨?_, ?_, ?_, charges_failures audited.reachable, waits_backoff audited⟩
  · cases view : t.db.view a with
    | none =>
      obtain rfl : b = {} := audited.absent view
      exact List.nodup_nil
    | some l => exact (audited.tallied l view).applied.once
  · cases view : t.db.view a with
    | none =>
      obtain rfl : b = {} := audited.absent view
      exact Nat.zero_le 6
    | some l =>
      exact spent_within (audited.tallied l view).counted (reachable_sound audited.reachable view)
  · intro row owed
    obtain ⟨l, -, -, base⟩ := sound row owed
    have counted := base.counted
    simp only [maxAutomaticRetries] at counted
    refine ⟨counted.1, by omega, fun retry => ?_, fun exhausted => ?_⟩
    · obtain ⟨low, high, date, -⟩ := base.retry retry
      exact ⟨low, high, date⟩
    · obtain ⟨spent, date, -⟩ := base.exhausted exhausted
      exact ⟨spent, date⟩

end Budget

def Audit.along (env : Env) (a : Nat) : Service → Audit → List Op → Audit
  | _, b, [] => b
  | s, b, op :: ops =>
    Audit.along env a (s.next env op) (b.next op (s.db.view a) ((s.next env op).db.view a)) ops

theorem trace_recorded {env : Env} {a : Nat} {s : Service} {ops : List Op}
    (along : Along env (fun _ _ => True) s ops) (b : Audit) :
    Trace (Recorded env a) (s, b) ops (s.exec env ops, Audit.along env a s b ops) := by
  induction ops generalizing s b with
  | nil => exact Trace.nil
  | cons op ops ih =>
    have head : Recorded env a (s, b) op
        (s.next env op, b.next op (s.db.view a) ((s.next env op).db.view a)) :=
      ⟨⟨along.1.1, rfl⟩, rfl⟩
    exact trace_cons head (ih along.2 _)

def Sample.failing : List Op :=
  [.createSource source 0, .createTask fields 0, .reconcile 1 (seconds 10), .tick 1 (seconds 60),
    .dispatch probe (seconds 61) [stamp 61], .start 1 (seconds 62),
    .finish 1 (.exited 12) false {} (seconds 70)]

def Sample.everyHour : Trigger where
  parses cron := cron = "0 * * * *" ∨ cron = "0 */1 * * *"
  nextFireTime _ after := some (after / seconds 3600 * seconds 3600 + seconds 3600)
  shown cron := "'" ++ cron ++ "'"

def Sample.hourlyEnv : Env := ⟨everyHour, 1⟩

def Sample.round (run : Nat) (second : Int) : List Op :=
  [.dispatch probe (seconds second) [stamp second], .start run (seconds second),
    .finish run (.exited 12) false {} (seconds (second + 1))]

/-- The schedule is edited under the first run, which goes on. The next hour makes a row of the
    new schedule; the old run fails beside it, and then six runs of the row after their
    backoffs. -/
def Sample.outlived : List Op :=
  [.createSource source 0, .createTask { fields with cron := "0 * * * *" } 0,
    .reconcile 1 (seconds 10), .tick 1 (seconds 3600),
    .dispatch probe (seconds 3601) [stamp 3601], .start 1 (seconds 3602),
    .updateTask 1 { fields with cron := "0 */1 * * *" } (seconds 3700), .tick 1 (seconds 7200),
    .finish 1 (.exited 12) false {} (seconds 7300)] ++
  round 2 7310 ++ round 3 7400 ++ round 4 7600 ++ round 5 7900 ++ round 6 8400 ++ round 7 9400

end Pullbackup
