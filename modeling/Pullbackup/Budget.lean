import Pullbackup.Payment

/- What one transaction does to the count, the retry date and the run of a row. -/
namespace Pullbackup
open KeyedTable History

/-- A failure that is neither infrastructure nor permanent. -/
def Run.ordinaryFailure (run : Run) : Bool :=
  run.state = .failed && !isInfrastructure run.errorMessage && !isPermanent run.errorMessage

/-- The row still waits for the run. -/
def TaskDue.Holds (row : TaskDue) (id : Nat) : Prop :=
  row.runId = some id ∧ (row.status = .dispatched ∨ row.status = .blocked)

structure Charged (run : Run) (now : Int) (row row' : TaskDue) : Prop where
  attached : row.runId = some run.id
  failure : run.ordinaryFailure = true
  attempts : row'.attempts = row.attempts + 1
  detached : row'.runId = none
  wait : row'.status = .retry →
    row'.retryAt = some (now + seconds (backoffSeconds row'.attempts))

/-- The row a transaction that ends no run makes of the row it finds. -/
structure Passed (runs : List Run) (now : Int) (row row' : TaskDue) : Prop where
  runId : row'.runId = none ∨
    row'.runId = row.runId ∧ (row'.status = row.status ∨ row'.status = .blocked)
  attempts : (∃ run ∈ runs, Charged run now row row') ∨ row'.attempts ≤ row.attempts
  retry : row'.status = .retry → (∃ run ∈ runs, Charged run now row row') ∨
    row.status = .retry ∧ row'.attempts = row.attempts ∧ row'.retryAt = row.retryAt
  running : ∀ run ∈ runs, row.Holds run.id → run.state.active = true →
    row'.Holds run.id ∧ row'.attempts = row.attempts
  failed : ∀ run ∈ runs, row.Holds run.id → run.ordinaryFailure = true →
    row'.Holds run.id ∧ row'.attempts = row.attempts ∨ row'.attempts = row.attempts + 1 ∨
      row'.attempts < row.attempts

/-- What a scan, an early tick or a refusal still does to a settled row. -/
structure Carried (row row' : TaskDue) : Prop where
  runId : row'.runId = row.runId
  status : row'.status = row.status ∧ row'.attempts = row.attempts ∧ row'.retryAt = row.retryAt ∨
    row.status = .exhausted ∧ row'.status = .due ∧ row'.attempts = 0

structure Opened (row : TaskDue) : Prop where
  status : row.status = .due ∨ row.status = .blocked
  attempts : row.attempts = 0
  detached : row.runId = none

def Op.isEdit : Op → Bool
  | .updateTask _ _ _ => true
  | _ => false

section Rows
variable {runs : List Run} {row row' : TaskDue} {now : Int}

theorem ordinary_ended {run : Run} (failure : run.ordinaryFailure = true) :
    run.state.active = false := by
  simp only [Run.ordinaryFailure, Bool.and_eq_true, decide_eq_true_eq] at failure
  rw [failure.1.1]
  rfl

theorem passed_same (runId : row'.runId = row.runId) (status : row'.status = row.status)
    (attempts : row'.attempts = row.attempts) (retryAt : row'.retryAt = row.retryAt) :
    Passed runs now row row' := by
  have holds : ∀ id, row.Holds id → row'.Holds id := by
    intro id held
    exact ⟨runId.trans held.1, by rw [status]; exact held.2⟩
  refine ⟨Or.inr ⟨runId, Or.inl status⟩, Or.inr (le_of_eq attempts), fun retry => ?_, ?_, ?_⟩
  · exact Or.inr ⟨status.symm.trans retry, attempts, retryAt⟩
  · exact fun run _ held _ => ⟨holds run.id held, attempts⟩
  · exact fun run _ held _ => Or.inl ⟨holds run.id held, attempts⟩

theorem passed_reset (counted : 0 ≤ row.attempts)
    (free : ∀ run ∈ runs, row.Holds run.id → run.state.active = false ∧
      run.ordinaryFailure = false)
    (runId : row'.runId = none) (status : row'.status ≠ .retry) (attempts : row'.attempts = 0) :
    Passed runs now row row' := by
  refine ⟨Or.inl runId, Or.inr (by omega), fun retry => absurd retry status, ?_, ?_⟩
  · intro run mem held active
    rw [(free run mem held).1] at active
    cases active
  · intro run mem held failure
    rw [(free run mem held).2] at failure
    cases failure

theorem open_free (isOpen : row.Open) :
    ∀ run ∈ runs, row.Holds run.id → run.state.active = false ∧ run.ordinaryFailure = false := by
  intro run _ held
  rcases held.2 with dispatched | blocked
  · exact absurd dispatched isOpen.1
  · exact absurd blocked isOpen.2

/-- The three ends of a failed run. -/
inductive Failed (run : Run) (now : Int) (row : TaskDue) : TaskDue → Prop where
  | released {row' : TaskDue} (infra : isInfrastructure run.errorMessage = true)
      (status : row'.status = .due) (attempts : row'.attempts = row.attempts)
      (detached : row'.runId = none) : Failed run now row row'
  | stopped {row' : TaskDue} (permanent : isPermanent run.errorMessage = true)
      (status : row'.status = .blocked) (attempts : row'.attempts = row.attempts)
      (detached : row'.runId = none) : Failed run now row row'
  | charged {row' : TaskDue} (charged : Charged run now row row') : Failed run now row row'

theorem failOutcome_failed {run : Run} (failed : run.state = .failed)
    (attached : row.runId = some run.id) (now : Int) :
    Failed run now row (failOutcome row run.errorMessage now) := by
  unfold failOutcome
  split
  · rename_i infra
    exact .released infra rfl rfl rfl
  split
  · rename_i permanent
    exact .stopped permanent rfl rfl rfl
  · rename_i infra permanent
    have ordinary : run.ordinaryFailure = true := by
      simp [Run.ordinaryFailure, failed, infra, permanent]
    split
    · exact .charged ⟨attached, ordinary, rfl, rfl, fun retry => by cases retry⟩
    · exact .charged ⟨attached, ordinary, rfl, rfl, fun _ => rfl⟩

theorem failed_passed (unique : (runs.map Run.id).Nodup) {run : Run} (mem : run ∈ runs)
    (attached : row.runId = some run.id) (ended : run.state = .failed)
    (failed : Failed run now row row') : Passed runs now row row' := by
  -- the attached run is the only one the row can hold
  have only : ∀ r ∈ runs, row.Holds r.id → r = run := by
    intro r mr held
    exact List.inj_on_of_nodup_map unique mr mem (Option.some.inj (held.1.symm.trans attached))
  have inactive : ∀ r ∈ runs, row.Holds r.id → r.state.active = true → False := by
    intro r mr held active
    rw [only r mr held, ended] at active
    cases active
  have infraFree : ∀ r ∈ runs, row.Holds r.id → r.ordinaryFailure = true →
      isInfrastructure run.errorMessage = false ∧ isPermanent run.errorMessage = false := by
    intro r mr held ordinary
    rw [only r mr held] at ordinary
    simpa [Run.ordinaryFailure, ended] using ordinary
  cases failed with
  | released infra status attempts detached =>
    refine ⟨Or.inl detached, Or.inr (le_of_eq attempts), fun retry => ?_,
      fun r mr held active => (inactive r mr held active).elim, fun r mr held ordinary => ?_⟩
    · rw [status] at retry
      cases retry
    · have := (infraFree r mr held ordinary).1
      rw [infra] at this
      cases this
  | stopped permanent status attempts detached =>
    refine ⟨Or.inl detached, Or.inr (le_of_eq attempts), fun retry => ?_,
      fun r mr held active => (inactive r mr held active).elim, fun r mr held ordinary => ?_⟩
    · rw [status] at retry
      cases retry
    · have := (infraFree r mr held ordinary).2
      rw [permanent] at this
      cases this
  | charged charged =>
    exact ⟨Or.inl charged.detached, Or.inl ⟨run, mem, charged⟩,
      fun _ => Or.inl ⟨run, mem, charged⟩,
      fun r mr held active => (inactive r mr held active).elim,
      fun _ _ _ _ => Or.inr (Or.inl charged.attempts)⟩

theorem settled_passed (unique : (runs.map Run.id).Nodup) (sound : row.Sound runs)
    {due : Option TaskDue} (settled : Settled runs row now due) (kept : due = some row') :
    Passed runs now row row' := by
  have promoted : ∀ followUp, row.Open ∨ row.runId = none → finish row followUp now = some row' →
      Passed runs now row row' := by
    intro followUp free finished
    obtain ⟨instant, -, rfl⟩ := finish_eq_some finished
    refine passed_reset sound.counted.1 ?_ rfl (by simp) rfl
    rcases free with isOpen | detached
    · exact open_free isOpen
    · intro run _ held
      rw [held.1] at detached
      cases detached
  cases settled with
  | missing dispatched gone =>
    exact absurd gone (sound.found dispatched)
  | active dispatched mem attached active =>
    obtain rfl := Option.some.inj kept
    exact passed_same rfl rfl rfl rfl
  | succeeded dispatched mem attached success =>
    exact absurd success (sound.unpaid unique dispatched mem attached)
  | cancelled dispatched mem attached cancelled => cases kept
  | failed dispatched mem attached failed =>
    obtain rfl := Option.some.inj kept
    exact failed_passed unique mem attached failed (failOutcome_failed failed attached now)
  | blocked blocked =>
    obtain rfl := Option.some.inj kept
    exact passed_same rfl rfl rfl rfl
  | paid isOpen mem owner success pays last => exact promoted _ (Or.inl isOpen) kept
  | unmarked isOpen unpaid marked idle =>
    obtain rfl := Option.some.inj kept
    split
    · rename_i exhausted
      exact passed_reset sound.counted.1 (open_free isOpen) (sound.exhausted exhausted).2.2
        (by simp [TaskDue.rearm]) rfl
    · exact passed_same rfl rfl rfl rfl
  | owed isOpen unpaid =>
    obtain rfl := Option.some.inj kept
    exact passed_same rfl rfl rfl rfl

theorem passed_carried {row'' : TaskDue} (passed : Passed runs now row row')
    (sound : row'.Sound runs) (carried : Carried row' row'') : Passed runs now row row'' := by
  rcases carried.status with ⟨status, attempts, retryAt⟩ | ⟨exhausted, due, attempts⟩
  · have charged : ∀ run, Charged run now row row' → Charged run now row row'' := by
      intro run charge
      refine ⟨charge.attached, charge.failure, attempts.trans charge.attempts,
        carried.runId.trans charge.detached, fun retry => ?_⟩
      rw [retryAt, attempts]
      exact charge.wait (status.symm.trans retry)
    have holds : ∀ id, row'.Holds id → row''.Holds id := by
      intro id held
      exact ⟨carried.runId.trans held.1, by rw [status]; exact held.2⟩
    refine ⟨?_, ?_, ?_, ?_, ?_⟩
    · rw [carried.runId, status]
      exact passed.runId
    · rcases passed.attempts with ⟨run, mem, charge⟩ | fewer
      · exact Or.inl ⟨run, mem, charged run charge⟩
      · exact Or.inr (attempts.trans_le fewer)
    · intro retry
      rcases passed.retry (status.symm.trans retry) with ⟨run, mem, charge⟩ | ⟨old, same, date⟩
      · exact Or.inl ⟨run, mem, charged run charge⟩
      · exact Or.inr ⟨old, attempts.trans same, retryAt.trans date⟩
    · intro run mem held active
      obtain ⟨held', same⟩ := passed.running run mem held active
      exact ⟨holds _ held', attempts.trans same⟩
    · intro run mem held failure
      rw [attempts]
      exact (passed.failed run mem held failure).imp_left fun kept => ⟨holds _ kept.1, kept.2⟩
  · -- only an exhausted row is re-armed, and it holds no run
    obtain ⟨spent, -, detached⟩ := sound.exhausted exhausted
    have bound : row''.attempts < row.attempts ∨ row'.attempts ≤ row.attempts := by
      rcases passed.attempts with ⟨run, mem, charge⟩ | fewer
      · left
        have := charge.attempts
        rw [spent] at this
        simp only [maxAutomaticRetries] at this
        omega
      · exact Or.inr fewer
    have less : row''.attempts < row.attempts := by
      rcases bound with less | fewer
      · exact less
      · rw [spent] at fewer
        simp only [maxAutomaticRetries] at fewer
        omega
    have never : ∀ id, ¬ row'.Holds id := by
      intro id held
      rw [held.1] at detached
      cases detached
    refine ⟨Or.inl (carried.runId.trans detached), Or.inr (le_of_lt less), fun retry => ?_,
      fun run mem held active => ?_, fun _ _ _ _ => Or.inr (Or.inr less)⟩
    · rw [due] at retry
      cases retry
    · exact absurd (passed.running run mem held active).1 (never run.id)

theorem passed_replaced (unique : (runs.map Run.id).Nodup) (sound : row.Sound runs)
    (settled : Settled runs row now none) (opened : Opened row') : Passed runs now row row' := by
  have status : row'.status ≠ .retry := by
    rcases opened.status with s | s <;> simp [s]
  refine passed_reset sound.counted.1 ?_ opened.detached status opened.attempts
  intro run mem held
  generalize nothing : (none : Option TaskDue) = due at settled
  cases settled with
  | missing dispatched gone => cases nothing
  | active dispatched mem' attached active => cases nothing
  | failed dispatched mem' attached failed => cases nothing
  | blocked blocked => cases nothing
  | unmarked isOpen unpaid marked idle => cases nothing
  | owed isOpen unpaid => cases nothing
  | paid isOpen mem' owner success pays last => exact open_free isOpen run mem held
  | succeeded dispatched mem' attached success =>
    have same := List.inj_on_of_nodup_map unique mem mem'
      (Option.some.inj (held.1.symm.trans attached))
    subst same
    simp [Run.ordinaryFailure, success]
  | cancelled dispatched mem' attached cancelled =>
    have same := List.inj_on_of_nodup_map unique mem mem'
      (Option.some.inj (held.1.symm.trans attached))
    subst same
    simp [Run.ordinaryFailure, cancelled]

theorem folded_carried {first latest : Int} (folded : Folded runs row first latest now row') :
    Carried row row' := by
  cases folded with
  | followUp dispatched unmarked => exact ⟨rfl, Or.inl ⟨rfl, rfl, rfl⟩⟩
  | behind isOpen unmarked mem owner active before later => exact ⟨rfl, Or.inl ⟨rfl, rfl, rfl⟩⟩
  | coalesced marked unblocked => exact ⟨rfl, Or.inl ⟨rfl, rfl, rfl⟩⟩
  | held blocked => exact ⟨rfl, Or.inl ⟨rfl, rfl, rfl⟩⟩
  | owed isOpen covered =>
    split
    · rename_i exhausted
      exact ⟨rfl, Or.inr ⟨exhausted, rfl, rfl⟩⟩
    · exact ⟨rfl, Or.inl ⟨rfl, rfl, rfl⟩⟩

theorem noted_carried {instant newest : Int} {noted : Bool × TaskDue}
    (kinds : Noted runs row instant newest noted) : Carried row noted.2 := by
  cases kinds <;> exact ⟨rfl, Or.inl ⟨rfl, rfl, rfl⟩⟩

theorem opened_carried (opened : Opened row) (carried : Carried row row') : Opened row' := by
  rcases carried.status with ⟨status, attempts, -⟩ | ⟨exhausted, -, -⟩
  · exact ⟨by rw [status]; exact opened.status, attempts.trans opened.attempts,
      carried.runId.trans opened.detached⟩
  · rcases opened.status with s | s <;> simp [s] at exhausted

end Rows

section Ledgers
variable {trig : Trigger} {l : Ledger} {now : Int}

/-- The row left by a transaction on a ledger is new or the old one passed on. -/
def Ledger.Passes (l : Ledger) (now : Int) (due : Option TaskDue) : Prop :=
  ∀ row', due = some row' → l.due = none ∧ Opened row' ∨
    ∃ row, l.due = some row ∧ Passed l.runs now row row'

theorem passes_settle (unique : (l.runs.map Run.id).Nodup) (sound : l.Sound) (now : Int) :
    l.Passes now (l.settle now).due := by
  intro row' owed'
  obtain ⟨row, owed, settled⟩ := Option.bind_eq_some_iff.mp owed'
  exact Or.inr ⟨row, owed,
    settled_passed unique (sound row owed) (settleRow_settled l.runs row now) settled⟩

theorem passes_carried {row' row'' : TaskDue} (passes : l.Passes now (some row'))
    (sound : row'.Sound l.runs) (carried : Carried row' row'') : l.Passes now (some row'') := by
  intro _ same
  obtain rfl := Option.some.inj same
  rcases passes row' rfl with ⟨bare, opened⟩ | ⟨row, owed, passed⟩
  · exact Or.inl ⟨bare, opened_carried opened carried⟩
  · exact Or.inr ⟨row, owed, passed_carried passed sound carried⟩

theorem passes_opened (unique : (l.runs.map Run.id).Nodup) (sound : l.Sound)
    (bare : (l.settle now).due = none) {row' : TaskDue} (opened : Opened row') :
    l.Passes now (some row') := by
  intro _ same
  obtain rfl := Option.some.inj same
  cases owed : l.due with
  | none => exact Or.inl ⟨rfl, opened⟩
  | some row =>
    have settled := settleRow_settled l.runs row now
    have gone : settleRow l.runs row now = none := by
      have same : (l.settle now).due = settleRow l.runs row now := by simp [Ledger.settle, owed]
      rw [← same]
      exact bare
    rw [gone] at settled
    exact Or.inr ⟨row, rfl, passed_replaced unique (sound row owed) settled opened⟩

theorem scan_bare (bare : (l.scan trig now).due = none) : l.due = none := by
  unfold Ledger.scan at bare
  split at bare
  · rw [keep_eq] at bare
    exact bare
  · cases bare

theorem passes_scan (trig : Trigger) (now : Int) (unique : (l.runs.map Run.id).Nodup) (sound : l.Sound) :
    l.Passes now ((l.settle now).scan trig now).due := by
  have settled := passes_settle unique sound now
  unfold Ledger.scan
  split
  · rw [keep_eq]
    exact settled
  · rename_i first owes
    rw [fold_eq]
    cases owed : (l.settle now).due with
    | none =>
      refine passes_opened unique sound owed ?_
      simp only [foldRow, owed]
      exact ⟨Or.inl rfl, rfl, rfl⟩
    | some row' =>
      rw [owed] at settled
      exact passes_carried settled (settle_sound sound now row' owed)
        (folded_carried (foldRow_folded owed _ _ _))

theorem scan_sound (trig : Trigger) (now : Int) (sound : l.Sound) (enabled : l.task.enabled = true)
    (readable : trig.parses l.task.cron = true) : (l.scan trig now).Sound :=
  scan_stages (sound_stages trig now) enabled readable sound

theorem passes_worked (unique : (l.runs.map Run.id).Nodup) (sound : l.Sound) {l' : Ledger}
    (worked : Worked trig now l l') : l'.runs = l.runs ∧ l.Passes now l'.due := by
  have scanned : ∀ {m : Ledger}, m.runs = ((l.settle now).scan trig now).runs → m.runs = l.runs :=
    fun same => same.trans (settle_scan_follows trig l now).runs
  cases worked with
  | same =>
    refine ⟨rfl, fun row owed => Or.inr ⟨row, owed, passed_same rfl rfl rfl rfl⟩⟩
  | blocked enabled unreadable =>
    refine ⟨rfl, ?_⟩
    intro row' same
    obtain rfl := Option.some.inj same
    have status := blockedRow_status trig l now
    cases owed : l.due with
    | none =>
      refine Or.inl ⟨rfl, Or.inr status, ?_, ?_⟩ <;> simp [blockedRow, owed]
    | some row =>
      have kept : (blockedRow trig l now).runId = row.runId ∧
          (blockedRow trig l now).attempts = row.attempts := by
        simp only [blockedRow, owed]
        split <;> exact ⟨rfl, rfl⟩
      refine Or.inr ⟨row, rfl, ⟨Or.inr ⟨kept.1, Or.inr status⟩, Or.inr (le_of_eq kept.2),
        fun retry => ?_, fun run _ held _ => ?_, fun run _ held _ => Or.inl ?_⟩⟩
      · rw [status] at retry
        cases retry
      · exact ⟨⟨kept.1.trans held.1, Or.inr status⟩, kept.2⟩
      · exact ⟨⟨kept.1.trans held.1, Or.inr status⟩, kept.2⟩
  | scanned enabled readable => exact ⟨scanned rfl, passes_scan trig now unique sound⟩
  | early enabled readable early =>
    refine ⟨scanned (by rw [early_eq]), ?_⟩
    rw [early_eq]
    have passes := passes_scan trig now unique sound
    cases owed : ((l.settle now).scan trig now).due with
    | none =>
      refine passes_opened unique sound (scan_bare owed) ?_
      simp only [earlyRow, owed]
      exact ⟨Or.inl rfl, rfl, rfl⟩
    | some row' =>
      rw [owed] at passes
      have sound' := scan_sound trig now (settle_sound sound now) enabled readable
      have same := (settle_scan_follows trig l now).runs
      refine passes_carried passes (same ▸ sound' row' owed) ?_
      simp only [earlyRow, owed]
      exact noted_carried (note_noted _ _ _ _)
  | late enabled readable bare punctual uncovered =>
    exact ⟨scanned rfl, passes_opened unique sound (scan_bare bare) ⟨Or.inl rfl, rfl, rfl⟩⟩

end Ledgers

/-- What a transaction does to the runs and to the row of a task. -/
inductive RowStep (op : Op) (l l' : Ledger) : Prop where
  | passed {now : Int} (reading : op.readings.head? = some now) (runs : l'.runs = l.runs)
      (passes : l.Passes now l'.due)
  | launched {now : Int} {row : TaskDue} {run : Run} (dispatch : op.isDispatch = true)
      (reading : op.readings.head? = some now) (quiet : l.Idle) (pending : run.state = .pending)
      (fresh : ∀ r ∈ l.runs, r.id ≠ run.id) (runs : l'.runs = l.runs ++ [run])
      (passes : l.Passes now (some row)) (ready : row.Ready now)
      (due : l'.due = some (row.dispatchedTo run.id now))
  | outcome {now : Int} {row : TaskDue} {run before : Run} (reading : op.readings.head? = some now)
      (mem : before ∈ l.runs) (running : before.state = .running) (id : run.id = before.id)
      (ended : run.state.active = false) (runs : l'.runs = l.runs.map (swapRun run))
      (owed : l.due = some row) (attached : row.runId = some run.id)
      (due : l'.due = applyRunOutcome row run now)
  | edited {row : TaskDue} {now : Int} (edit : op.isEdit = true) (runs : l'.runs = l.runs)
      (owed : l.due = some row) (held : row.status = .blocked ∨ row.status = .exhausted)
      (due : l'.due = some { row.rearm with updatedAt := now })
  | dropped (runs : l'.runs = l.runs) (due : l'.due = none)
  | untouched (quiet : op.isDispatch = true → l'.runs = l.runs) (due : l'.due = l.due)

theorem effect_rowStep {env : Env} {a : Nat} {lo hi : Int} {op : Op} {l l' : Ledger} (wf : l.Wf a)
    (sound : l.Sound) (effect : Effect env a lo hi op l l') : RowStep op l l' := by
  have settled := fun now => passes_settle wf.unique sound now
  cases effect with
  | idle => exact .untouched (fun _ => rfl) rfl
  | @reconcile now l time =>
    have worked := passes_worked wf.unique sound (reconcile_worked env.trig l now)
    exact .passed rfl worked.1 worked.2
  | @tick now l time =>
    have worked := passes_worked wf.unique sound (tick_worked env.trig l now)
    exact .passed rfl worked.1 worked.2
  | settle time => exact .passed rfl rfl (settled _)
  | pass time => exact .passed rfl rfl (settled _)
  | drop time owed other disabled => exact .dropped rfl rfl
  | @wait probe now stamps l row reason time owed ready =>
    refine .passed rfl rfl (passes_carried (owed ▸ settled now) (settle_sound sound now row owed) ?_)
    exact ⟨rfl, Or.inl ⟨rfl, rfl, rfl⟩⟩
  | @launch probe now stamps l row id stamp time owed ready enabled quiet fresh started =>
    have launched : { l.settle now with
        due := some (row.dispatchedTo id now), runs := l.runs ++ [pendingRun id a stamp] }.due =
        some (row.dispatchedTo (pendingRun id a stamp).id now) := rfl
    exact .launched rfl rfl quiet rfl fresh rfl (owed ▸ settled now) ready launched
  | runNow quiet fresh started => exact .untouched (fun dispatch => by cases dispatch) rfl
  | start time mem pending => exact .untouched (fun dispatch => by cases dispatch) rfl
  | @finish ending requested stats now l run time mem running =>
    have ended := terminal_ended run ending requested stats now
    have id : (run.terminal ending requested stats now).id = run.id := rfl
    generalize run.terminal ending requested stats now = new at ended id
    cases owed : l.due with
    | none =>
      rw [endRun_of_none owed]
      exact .untouched (fun dispatch => by cases dispatch) rfl
    | some row =>
      by_cases attached : row.runId = some new.id
      · rw [endRun_of_attached owed attached]
        exact .outcome rfl mem running id ended rfl owed attached rfl
      · rw [endRun_of_other owed attached]
        exact .untouched (fun dispatch => by cases dispatch) rfl
  | abandon time mem active failed => exact .untouched (fun dispatch => by cases dispatch) rfl
  | sweep time => exact .untouched (fun dispatch => by cases dispatch) rfl
  | restart time => exact .untouched (fun dispatch => by cases dispatch) rfl
  | @update data now l time allowed =>
    have change := editLedger_edited data now l
    generalize editLedger data now l = l' at change
    cases change with
    | reset changed => exact .dropped rfl rfl
    | rearmed cron enabled owed held => exact .edited rfl rfl owed held rfl
    | kept cron enabled free => exact .untouched (fun _ => rfl) rfl

end Pullbackup
