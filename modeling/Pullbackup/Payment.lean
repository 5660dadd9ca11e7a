import Pullbackup.Obligation

/- Replays: the dispatcher starting a row for an occurrence that a successful run
   of the task already paid. Settlement asks for a payment before it leaves a row
   due, except when it releases the row of a run that failed for infrastructure. -/
namespace Pullbackup
open KeyedTable History

/-- A pass turned the row of task a into a run that did not exist before it. -/
def Starts (db db' : Db) (a : Nat) (row : TaskDue) : Prop :=
  db'.taskDue.get a = some row ∧ row.status = .dispatched ∧
    ∃ id, row.runId = some id ∧ db.runs.get id = none

def Paid (db : Db) (a : Nat) (dueAt : Int) : Prop :=
  ∃ run ∈ db.runs.rows, run.taskId = a ∧ run.state = .success ∧ dueAt ≤ run.startedAt

/-- The row is dispatched to a run that failed for infrastructure, and a success that started at
    or after its date is there already. -/
def TaskDue.StaleRelease (db : Db) (row : TaskDue) : Prop :=
  row.status = .dispatched ∧
    (row.runId.bind db.runs.get).any
      (fun run => run.state = .failed && isInfrastructure run.errorMessage) = true ∧
    Paid db row.taskId row.dueAt

instance (db : Db) (row : TaskDue) : Decidable (row.StaleRelease db) :=
  inferInstanceAs (Decidable (_ ∧ _ ∧ ∃ run ∈ db.runs.rows, _))

def Op.isDispatch : Op → Bool
  | .dispatch _ _ _ => true
  | _ => false

/-- A pass starts no row for an occurrence that a success has paid. -/
def NoReplay (s : Service) (op : Op) (t : Service) : Prop :=
  op.isDispatch = true → ∀ a row, Starts s.db t.db a row → ¬ Paid s.db a row.dueAt

/-- When a pass comes, no row is a stale release. -/
def NothingStale (s : Service) (op : Op) : Prop :=
  op.isDispatch = true → ∀ row ∈ s.db.taskDue.rows, ¬ row.StaleRelease s.db

instance (s : Service) (op : Op) : Decidable (NothingStale s op) :=
  inferInstanceAs (Decidable (_ → ∀ row ∈ s.db.taskDue.rows, _))

theorem backoffSeconds_pos (retryNumber : Int) : 0 < backoffSeconds retryNumber := by
  have power : (0 : Int) < 2 ^ (max (retryNumber - 1) 0).toNat := Int.pow_pos (by decide)
  simp only [backoffSeconds, backoffInitialSeconds, backoffCeilingSeconds]
  omega

/-- Among the outcomes of a failed run only infrastructure leaves a row the same pass may start
    again. -/
theorem ready_after_failure {row : TaskDue} {message : String} {now : Int}
    (ready : (failOutcome row message now).Ready now) :
    isInfrastructure message = true ∧ (failOutcome row message now).dueAt = row.dueAt := by
  have wait : seconds (backoffSeconds (row.attempts + 1)) > 0 := by
    have := backoffSeconds_pos (row.attempts + 1)
    simp only [seconds]
    omega
  unfold failOutcome at ready ⊢
  by_cases infra : isInfrastructure message = true
  · simp [infra]
  · simp only [infra, Bool.false_eq_true, if_false] at ready
    split at ready
    · rcases ready with due | ⟨retry, -⟩
      · cases due
      · cases retry
    split at ready
    · rcases ready with due | ⟨retry, -⟩
      · cases due
      · cases retry
    · rcases ready with due | ⟨-, ripe⟩
      · cases due
      · have := ripe _ rfl
        omega

section View
variable {a : Nat} {l : Ledger} {now : Int}

theorem ready_open {row : TaskDue} (ready : row.Ready now) : row.Open := by
  rcases ready with due | ⟨retry, -⟩
  · exact ⟨by simp [due], by simp [due]⟩
  · exact ⟨by simp [retry], by simp [retry]⟩

def Ledger.Paid (l : Ledger) (dueAt : Int) : Prop :=
  ∃ run ∈ l.runs, run.state = .success ∧ dueAt ≤ run.startedAt

def Ledger.Stale (l : Ledger) : Prop :=
  ∃ row, l.due = some row ∧ row.status = .dispatched ∧
    (∃ run ∈ l.runs, row.runId = some run.id ∧ run.state = .failed ∧
      isInfrastructure run.errorMessage = true) ∧ l.Paid row.dueAt

theorem settled_paid_iff (wf : l.Wf a) (sound : l.Sound) {row' : TaskDue}
    (owed' : (l.settle now).due = some row') (ready : row'.Ready now) :
    l.Paid row'.dueAt ↔ l.Stale := by
  obtain ⟨row, owed, settled⟩ := Option.bind_eq_some_iff.mp owed'
  have found := settleRow_settled l.runs row now
  rw [settled] at found
  have owner : ∀ run ∈ l.runs, run.taskId = row.taskId := fun run mem =>
    (wf.owner run mem).trans (wf.due row owed).symm
  have isOpen := ready_open ready
  have base := sound row owed
  have fresh : row.status ≠ .dispatched → ¬ l.Stale := by
    intro other stale
    obtain ⟨row₀, owed₀, dispatched, -, -⟩ := stale
    obtain rfl := Option.some.inj (owed.symm.trans owed₀)
    exact other dispatched
  have unpaid_iff : row.status ≠ .dispatched → (∀ run ∈ l.runs, run.state = .success →
      run.startedAt < row'.dueAt) → (l.Paid row'.dueAt ↔ l.Stale) := by
    intro other unpaid
    refine iff_of_false ?_ (fresh other)
    rintro ⟨run, mem, success, late⟩
    have := unpaid run mem success
    omega
  generalize kept : some row' = due at found
  cases found with
  | missing dispatched gone =>
    exact absurd gone (base.found dispatched)
  | active dispatched mem attached active =>
    obtain rfl := Option.some.inj kept
    exact absurd dispatched isOpen.1
  | succeeded dispatched mem attached success =>
    exact absurd success (base.unpaid wf.unique dispatched mem attached)
  | cancelled dispatched mem attached cancelled => cases kept
  | @failed run dispatched mem attached failed =>
    obtain rfl := Option.some.inj kept
    obtain ⟨infra, dueAt⟩ := ready_after_failure ready
    rw [dueAt]
    constructor
    · intro paid
      exact ⟨row, owed, dispatched, ⟨run, mem, attached, failed, infra⟩, paid⟩
    · intro stale
      obtain ⟨row₀, owed₀, -, -, paid⟩ := stale
      obtain rfl := Option.some.inj (owed.symm.trans owed₀)
      exact paid
  | blocked blocked =>
    obtain rfl := Option.some.inj kept
    exact absurd blocked isOpen.2
  | @paid run isOpen' mem own success pays last =>
    refine unpaid_iff isOpen'.1 fun r mr paid => ?_
    obtain ⟨marker, followUp, rfl⟩ := finish_eq_some kept.symm
    have later : run.startedAt < marker := by
      simpa using (Option.filter_eq_some_iff.mp followUp).2
    by_cases late : row.dueAt ≤ r.startedAt
    · have := last r mr (owner r mr) paid late
      show r.startedAt < marker
      omega
    · show r.startedAt < marker
      omega
  | unmarked isOpen' unpaid marked idle =>
    have dueAt : row'.dueAt = row.dueAt := by
      obtain rfl := Option.some.inj kept
      dsimp only
      split <;> rfl
    refine unpaid_iff isOpen'.1 fun r mr paid => ?_
    rw [dueAt]
    exact unpaid r mr (owner r mr) paid
  | owed isOpen' unpaid =>
    obtain rfl := Option.some.inj kept
    exact unpaid_iff isOpen'.1 fun r mr paid => unpaid r mr (owner r mr) paid

end View

theorem paid_view {db : Db} {a : Nat} {l : Ledger} (view : db.view a = some l) (dueAt : Int) :
    Paid db a dueAt ↔ l.Paid dueAt := by
  constructor
  · intro ⟨run, mem, owner, success, late⟩
    exact ⟨run, (mem_view_runs view).mpr ⟨mem, owner⟩, success, late⟩
  · intro ⟨run, mem, success, late⟩
    obtain ⟨stored, owner⟩ := (mem_view_runs view).mp mem
    exact ⟨run, stored, owner, success, late⟩

theorem stale_of_view {db : Db} {a : Nat} {l : Ledger} (view : db.view a = some l)
    (stale : l.Stale) :
    ∃ row ∈ db.taskDue.rows, row.StaleRelease db := by
  obtain ⟨row, owed, dispatched, ⟨run, mem, attached, failed, infra⟩, paid⟩ := stale
  have stored := (view_runs view).2.2.1.symm.trans owed
  have owner : row.taskId = a := Table.key_of_get stored
  have here := Table.get_of_mem ((mem_view_runs view).mp mem).1
  refine ⟨row, Table.mem_of_get stored, dispatched, ?_, owner ▸ (paid_view view row.dueAt).mpr paid⟩
  rw [attached, Option.bind_some, show run.id = Keyed.key run from rfl, here]
  simp [failed, infra]

/-- A row that a pass turns into a run is paid already only where it was a stale release. -/
theorem starts_paid {env : Env} {s t : Service} (reachable : Reachable env s) {probe : Probe}
    {now : Int} {stamps : List Stamp} (step : Step env s (.dispatch probe now stamps) t) {a : Nat}
    {row : TaskDue} (starts : Starts s.db t.db a row) (paid : Paid s.db a row.dueAt) :
    ∃ row ∈ s.db.taskDue.rows, row.StaleRelease s.db := by
  have linked := reachable_linked reachable
  obtain ⟨linked', views⟩ := apply_sees linked step
  obtain ⟨found, dispatched, id, attached, new⟩ := starts
  have task := linked'.owed row (Table.mem_of_get found)
  rw [show row.taskId = a from Table.key_of_get found] at task
  obtain ⟨task, stored⟩ := Option.isSome_iff_exists.mp task
  have view' : t.db.view a = some
      { task := task, due := some row, runs := t.db.runs.rows.filter (ownedBy a) } := by
    rw [view_eq, stored, found]
    rfl
  have seen := views a
  rw [view'] at seen
  generalize before : s.db.view a = v at seen
  cases seen with
  | @acts l l' effect =>
    have wf := view_wf linked before
    have sound := reachable_sound reachable before
    -- an attached run of an older row would be stored already
    have old : ∀ row₀, (l.settle now).due = some row₀ → row₀.runId ≠ some id := by
      intro row₀ owed same
      have wf' := follows_wf (settle_follows l now) wf
      obtain ⟨run, mem, rfl⟩ := wf'.attached row₀ owed id same
      have here := Table.get_of_mem ((mem_view_runs before).mp mem).1
      rw [show Keyed.key run = run.id from rfl, new] at here
      cases here
    rw [paid_view before] at paid
    refine stale_of_view before ?_
    generalize kept : ({ task := task, due := some row
                         runs := t.db.runs.rows.filter (ownedBy a) } : Ledger) = l' at effect
    have due : l'.due = some row := by rw [← kept]
    cases effect with
    | idle =>
      obtain ⟨run, mem, rfl⟩ := wf.attached row due id attached
      have here := Table.get_of_mem ((mem_view_runs before).mp mem).1
      rw [show Keyed.key run = run.id from rfl, new] at here
      cases here
    | pass time => exact absurd attached (old row due)
    | drop time owed other disabled => cases due
    | wait time owed ready =>
      obtain rfl := Option.some.inj due
      exact absurd dispatched (ready_open ready).1
    | launch time owed ready enabled quiet fresh started =>
      obtain rfl := Option.some.inj due
      exact (settled_paid_iff wf sound owed ready).mp paid

/-- In every history whose passes find no stale release, no pass starts a row for an occurrence
    a success has paid. -/
theorem no_replay_of_nothing_stale {env : Env} {clock : Int} {ops : List Op} {t : Service}
    (history : Trace (fun s op t => Step env s op t ∧ NothingStale s op) (Service.init clock) ops t) :
    Trace (fun s op t => Step env s op t ∧ NoReplay s op t) (Service.init clock) ops t := by
  have start : Reachable env (Service.init clock) := ⟨clock, [], Trace.nil⟩
  refine trace_refine (fun _ _ _ step => step.1) (fun s op t reachable ⟨step, safe⟩ => ?_) start
    history
  refine ⟨step, fun pass a row starts paid => ?_⟩
  cases op with
  | dispatch probe now stamps =>
    obtain ⟨old, mem, stale⟩ := starts_paid reachable step starts paid
    exact safe rfl old mem stale
  | _ => cases pass

def Sample.repaid : List Op :=
  [.createSource source 0, .createTask fields 0, .reconcile 1 (seconds 10),
    .tick 1 (seconds 60), .dispatch probe (seconds 61) [stamp 61], .start 1 (seconds 62),
    .finish 1 (.exited 12) false {} (seconds 65), .runNow 1 (stamp 66), .start 2 (seconds 67),
    .finish 2 (.exited 0) false {} (seconds 70), .dispatch probe (seconds 300) [stamp 300]]

theorem repaid_not_replayed :
    Trace (fun s op t => Step Sample.env s op t ∧ NoReplay s op t) (Service.init 0) Sample.repaid
      ((Service.init 0).exec Sample.env Sample.repaid) :=
  no_replay_of_nothing_stale (trace_along (by decide +kernel))

/-- A run the watchdog reclaims is due again; a manual run pays for it; the next pass releases
    the row and starts it once more. -/
def Sample.reclaimed : List Op :=
  [.tick 1 (seconds 60), .dispatch Sample.probe (seconds 61) [Sample.stamp 61],
    .sweep [] (seconds 400), .runNow 1 (Sample.stamp 401), .start 2 (seconds 402),
    .finish 2 (.exited 0) false {} (seconds 410)]

theorem replay_after_reclaim :
    ¬ ∀ (env : Env) (s t : Service) (probe : Probe) (now : Int) (stamps : List Stamp),
      Reachable env s → Step env s (.dispatch probe now stamps) t →
      NoReplay s (.dispatch probe now stamps) t := by
  intro claim
  have along : Along Sample.env (fun _ _ => True) Sample.start Sample.reclaimed := by decide
  have reachable := reachable_trace Sample.start_reachable
    (trace_mono (fun _ _ _ step => step.1) (trace_along along))
  have never := claim Sample.env _ _ Sample.probe (seconds 411) [Sample.stamp 411] reachable
    ⟨by decide, rfl⟩ rfl 1
  have again : (((Sample.start.exec Sample.env Sample.reclaimed).next Sample.env
      (.dispatch Sample.probe (seconds 411) [Sample.stamp 411])).db.taskDue.get 1).map
      (fun row => (row.status, row.runId, row.dueAt)) =
      some (.dispatched, some 3, seconds 60) := by decide
  obtain ⟨row, found, shape⟩ := Option.map_eq_some_iff.mp again
  simp only [Prod.mk.injEq] at shape
  obtain ⟨status, run, dueAt⟩ := shape
  refine never row ⟨found, status, 3, run, by decide⟩ ?_
  rw [dueAt]
  unfold Paid
  decide

end Pullbackup
