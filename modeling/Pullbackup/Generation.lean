import Pullbackup.Payment

/- A schedule edit and what comes after it. The edit drops the obligation and
   moves the watermark to its own instant; from then on every date of the
   obligation, and the start of the run it is attached to, is at or after it, so
   a run of the old generation has nothing to decide. -/
namespace Pullbackup
open KeyedTable History

/-- The runs settlement consults for a row: the one it is dispatched to and the successes that
    pay for it. -/
def Run.Decides (run : Run) (row : TaskDue) : Prop :=
  row.runId = some run.id ∨ run.state = .success ∧ row.dueAt ≤ run.startedAt

/-- The row is still there, at its date, with no more attempts and no new retry. -/
structure Steady (row row' : TaskDue) : Prop where
  dueAt : row'.dueAt = row.dueAt
  attempts : row'.attempts ≤ row.attempts
  retryAt : row'.retryAt = none ∨ row'.retryAt = row.retryAt

def keepsSchedule (a : Nat) (s : Service) : Op → Bool
  | .deleteTask t => t ≠ a
  | .updateTask t data _ =>
    t ≠ a || (s.db.tasks.get a).all fun task =>
      data.cron = task.cron && data.enabled = task.enabled
  | _ => true

structure TaskDue.Since (edited : Int) (runs : List Run) (row : TaskDue) : Prop where
  due : edited ≤ row.dueAt
  marker : ∀ followUp, row.newerDueAt = some followUp → edited ≤ followUp
  attached : ∀ run ∈ runs, row.runId = some run.id → edited ≤ run.startedAt

/-- A task as the edit leaves it, and as everything after the edit keeps it. -/
structure Generation (edited : Int) (l : Ledger) : Prop where
  baseline : ∃ watermark, l.task.scheduleBaselineAt = some watermark ∧ edited ≤ watermark
  disabled : l.task.enabled = false → l.due = none
  due : ∀ row, l.due = some row → row.Since edited l.runs

section Rows
variable {edited : Int} {runs : List Run} {row row' : TaskDue} {now : Int}

theorem since_new (due : edited ≤ row.dueAt) (unmarked : row.newerDueAt = none)
    (detached : row.runId = none) : row.Since edited runs := by
  refine ⟨due, ?_, ?_⟩
  · intro followUp marked
    rw [unmarked] at marked
    cases marked
  · intro run mem attached
    rw [detached] at attached
    cases attached

theorem since_same (since : row.Since edited runs) (due : row'.dueAt = row.dueAt)
    (marker : ∀ followUp, row'.newerDueAt = some followUp →
      row.newerDueAt = some followUp ∨ edited ≤ followUp)
    (runId : row'.runId = none ∨ row'.runId = row.runId) : row'.Since edited runs := by
  refine ⟨?_, ?_, ?_⟩
  · rw [due]
    exact since.due
  · intro followUp marked
    rcases marker followUp marked with old | late
    · exact since.marker followUp old
    · exact late
  · intro run mem attached
    rcases runId with detached | same
    · rw [detached] at attached
      cases attached
    · exact since.attached run mem (same.symm.trans attached)

theorem since_finish (since : row.Since edited runs) {followUp : Option Int}
    (marker : ∀ instant, followUp = some instant → row.newerDueAt = some instant)
    (finished : finish row followUp now = some row') : row'.Since edited runs := by
  obtain ⟨instant, promised, rfl⟩ := finish_eq_some finished
  exact since_new (since.marker instant (marker instant promised)) rfl rfl

theorem failOutcome_dates (row : TaskDue) (message : String) (now : Int) :
    (failOutcome row message now).dueAt = row.dueAt ∧
      (failOutcome row message now).newerDueAt = row.newerDueAt ∧
      (failOutcome row message now).runId = none := by
  unfold failOutcome
  repeat' split
  all_goals exact ⟨rfl, rfl, rfl⟩

theorem since_fail (since : row.Since edited runs) (message : String) (now : Int) :
    (failOutcome row message now).Since edited runs := by
  obtain ⟨due, marker, detached⟩ := failOutcome_dates row message now
  exact since_same since due (fun followUp marked => Or.inl (marker.symm.trans marked))
    (Or.inl detached)

theorem since_outcome (since : row.Since edited runs) {run : Run}
    (settled : applyRunOutcome row run now = some row') : row'.Since edited runs := by
  cases applyRunOutcome_left settled with
  | active active => exact since
  | succeeded success finished => exact since_finish since (fun _ marked => marked) finished
  | failed failed => exact since_fail since _ _

theorem since_settled (since : row.Since edited runs) {due : Option TaskDue}
    (settled : Settled runs row now due) (kept : due = some row') : row'.Since edited runs := by
  cases settled with
  | missing dispatched gone =>
    obtain rfl := Option.some.inj kept
    exact since_same since rfl (fun _ marked => Or.inl marked) (Or.inl rfl)
  | active dispatched mem attached active =>
    obtain rfl := Option.some.inj kept
    exact since
  | succeeded dispatched mem attached success =>
    exact since_finish since (fun _ marked => marked) kept
  | cancelled dispatched mem attached cancelled => cases kept
  | failed dispatched mem attached failed =>
    obtain rfl := Option.some.inj kept
    exact since_fail since _ _
  | blocked blocked =>
    obtain rfl := Option.some.inj kept
    exact since
  | paid isOpen mem owner success pays last =>
    refine since_finish since (fun instant marked => ?_) kept
    exact (Option.filter_eq_some_iff.mp marked).1
  | unmarked isOpen unpaid marked idle =>
    obtain rfl := Option.some.inj kept
    split <;> exact since_same since rfl (fun _ marked => by cases marked) (Or.inr rfl)
  | owed isOpen unpaid =>
    obtain rfl := Option.some.inj kept
    exact since

theorem since_runs {runs' : List Run} (since : row.Since edited runs)
    (kept : ∀ run' ∈ runs', row.runId = some run'.id →
      edited ≤ run'.startedAt ∨ ∃ run ∈ runs, run.id = run'.id ∧ run.startedAt = run'.startedAt) :
    row.Since edited runs' := by
  refine ⟨since.due, since.marker, ?_⟩
  intro run' mem attached
  rcases kept run' mem attached with late | ⟨run, old, id, start⟩
  · exact late
  · rw [← start]
    exact since.attached run old (by rw [id]; exact attached)

end Rows

section Ledgers
variable {edited : Int} {trig : Trigger} {l : Ledger} {now : Int}

theorem settle_generation (gen : Generation edited l) (now : Int) :
    Generation edited (l.settle now) := by
  refine ⟨gen.baseline, ?_, ?_⟩
  · intro disabled
    rw [settle_of_none (gen.disabled disabled)]
    exact gen.disabled disabled
  · intro row' owed'
    obtain ⟨row, owed, settled⟩ := Option.bind_eq_some_iff.mp owed'
    exact since_settled (gen.due row owed) (settleRow_settled l.runs row now) settled

/-- With the watermark past the edit, what a scan folds is later still. -/
theorem owes_since (gen : Generation edited l) {first : Int}
    (owes : l.owes trig now = some first) : edited ≤ first := by
  obtain ⟨next, -⟩ := owes_some owes
  obtain ⟨watermark, stored, late⟩ := gen.baseline
  have baseline : l.baseline = watermark := baseline_some stored
  have := nextOccurrence_advances trig l.task.cron _ _ next
  omega

theorem fold_generation (gen : Generation edited l) (enabled : l.task.enabled = true)
    {first : Int} (owes : l.owes trig now = some first) :
    Generation edited (l.fold trig first now) := by
  have late := owes_since gen owes
  have bounds := latestOccurrence_bounds trig l.task.cron (owes_some owes).2
  rw [fold_eq]
  refine ⟨⟨_, rfl, late.trans bounds.1⟩, fun disabled => ?_, ?_⟩
  · exact absurd (enabled.symm.trans disabled) (by simp)
  · intro row' owed'
    obtain rfl := Option.some.inj owed'
    show TaskDue.Since edited l.runs _
    cases owed : l.due with
    | none =>
      simp only [foldRow, owed]
      exact since_new late rfl rfl
    | some row =>
      have folded := foldRow_folded owed first (latestOccurrence trig l.task.cron first now) now
      have base := gen.due row owed
      generalize latestOccurrence trig l.task.cron first now = latest at folded bounds ⊢
      generalize foldRow l first latest now = new at folded
      cases folded with
      | followUp dispatched unmarked =>
        refine since_same base rfl (fun followUp marked => Or.inr ?_) (Or.inr rfl)
        exact Option.some.inj marked ▸ late
      | behind isOpen unmarked mem owner active before later =>
        refine since_same base rfl (fun followUp marked => Or.inr ?_) (Or.inr rfl)
        exact Option.some.inj marked ▸ late.trans bounds.1
      | coalesced marked unblocked =>
        exact since_same base rfl (fun _ marked => Or.inl marked) (Or.inr rfl)
      | held blocked => exact since_same base rfl (fun _ marked => Or.inl marked) (Or.inr rfl)
      | owed isOpen covered =>
        split <;> exact since_same base rfl (fun _ marked => Or.inl marked) (Or.inr rfl)

theorem early_generation (gen : Generation edited l) (enabled : l.task.enabled = true)
    {upcoming : Int} (later : edited ≤ now) (soon : now ≤ upcoming) :
    Generation edited (l.early upcoming now) := by
  rw [early_eq]
  refine ⟨⟨_, rfl, later.trans soon⟩, fun disabled => ?_, ?_⟩
  · exact absurd (enabled.symm.trans disabled) (by simp)
  · intro row' owed'
    obtain rfl := Option.some.inj owed'
    show TaskDue.Since edited l.runs (earlyRow l upcoming now)
    unfold earlyRow
    cases owed : l.due with
    | none => exact since_new later rfl rfl
    | some row =>
      have noted := note_noted l.runs row upcoming none
      have base := gen.due row owed
      simp only
      generalize noteOccurrenceDuringRun l.runs row upcoming none = n at noted
      cases noted with
      | followUp dispatched unmarked =>
        refine since_same base rfl (fun followUp marked => Or.inr ?_) (Or.inr rfl)
        exact Option.some.inj marked ▸ later.trans soon
      | behind isOpen unmarked mem owner active before past =>
        refine since_same base rfl (fun followUp marked => Or.inr ?_) (Or.inr rfl)
        exact Option.some.inj marked ▸ later.trans soon
      | coalesced marked unblocked => exact base
      | held blocked => exact base
      | unnoted isOpen covered => exact base

theorem block_generation (gen : Generation edited l) (enabled : l.task.enabled = true)
    (later : edited ≤ now) :
    Generation edited { l with due := some (blockedRow trig l now) } := by
  refine ⟨gen.baseline, fun disabled => ?_, ?_⟩
  · exact absurd (enabled.symm.trans disabled) (by simp)
  · intro row' owed'
    obtain rfl := Option.some.inj owed'
    show TaskDue.Since edited l.runs (blockedRow trig l now)
    unfold blockedRow
    cases owed : l.due with
    | none => exact since_new later rfl rfl
    | some row =>
      simp only
      split
      · exact since_same (gen.due row owed) rfl (fun _ marked => Or.inl marked) (Or.inr rfl)
      · exact gen.due row owed

theorem early_window {task : Task} {upcoming : Int}
    (early : earlyOccurrence trig task now = some upcoming) : now ≤ upcoming := by
  have window := (Option.filter_eq_some_iff.mp early).2
  simp only [decide_eq_true_eq] at window
  omega

theorem generation_stages (trig : Trigger) (later : edited ≤ now) :
    Stages trig now (Generation edited) where
  settle l _ _ gen := settle_generation gen now
  block l enabled _ gen := block_generation gen enabled later
  keep l _ _ _ gen := by
    obtain ⟨watermark, stored, late⟩ := gen.baseline
    have baseline : l.baseline = watermark := baseline_some stored
    have same : l.keep = l := by
      rw [keep_eq]
      simp [stored, baseline]
    rw [same]
    exact gen
  fold l first enabled _ owes gen := fold_generation gen enabled owes
  early l upcoming enabled _ early gen := early_generation gen enabled later (early_window early)
  late l enabled _ _ gen := by
    refine ⟨⟨_, rfl, later.trans (le_max_right _ _)⟩, fun disabled => ?_, ?_⟩
    · exact absurd (enabled.symm.trans disabled) (by simp)
    · intro row owed
      obtain rfl := Option.some.inj owed
      exact since_new later rfl rfl

theorem edit_generation (gen : Generation edited l) (data : TaskFields)
    (later : edited ≤ now) : Generation edited (editLedger data now l) := by
  have change := editLedger_edited data now l
  generalize editLedger data now l = l' at change
  cases change with
  | reset changed =>
    exact ⟨⟨now, rfl, later⟩, fun _ => rfl, fun row owed => by cases owed⟩
  | @rearmed row cron enabled owed held =>
    refine ⟨gen.baseline, fun disabled => ?_, ?_⟩
    · have none := gen.disabled (enabled.symm.trans disabled)
      rw [owed] at none
      cases none
    · intro row' owed'
      obtain rfl := Option.some.inj owed'
      exact since_same (gen.due row owed) rfl (fun _ marked => Or.inl marked) (Or.inr rfl)
  | kept cron enabled free =>
    exact ⟨gen.baseline, fun disabled => gen.disabled (enabled.symm.trans disabled), gen.due⟩

theorem swap_generation (gen : Generation edited l) {run new : Run} (mem : run ∈ l.runs)
    (id : new.id = run.id) (start : edited ≤ new.startedAt ∨ new.startedAt = run.startedAt) :
    Generation edited { l with runs := l.runs.map (swapRun new) } := by
  refine ⟨gen.baseline, gen.disabled, fun row owed => ?_⟩
  refine since_runs (gen.due row owed) fun run' mem' attached => ?_
  rcases mem_swapRuns mem' with old | ⟨rfl, -⟩
  · exact Or.inr ⟨run', old, rfl, rfl⟩
  · exact start.imp_right fun same => ⟨run, mem, id.symm, same.symm⟩

theorem mapRuns_generation (gen : Generation edited l) {f : Run → Run}
    (same : ∀ run, (f run).id = run.id ∧ (f run).startedAt = run.startedAt) :
    Generation edited { l with runs := l.runs.map f } := by
  refine ⟨gen.baseline, gen.disabled, fun row owed => ?_⟩
  refine since_runs (gen.due row owed) fun run' mem' attached => ?_
  obtain ⟨run, mem, rfl⟩ := List.mem_map.mp mem'
  exact Or.inr ⟨run, mem, (same run).1.symm, (same run).2.symm⟩

theorem endRun_generation (gen : Generation edited l) {run new : Run} (mem : run ∈ l.runs)
    (id : new.id = run.id) (start : new.startedAt = run.startedAt)
    (ended : new.state.active = false) (now : Int) : Generation edited (l.endRun new now) := by
  have swapped := swap_generation gen mem id (Or.inr start)
  cases owed : l.due with
  | none =>
    rw [endRun_of_none owed]
    exact swapped
  | some row =>
    by_cases attached : row.runId = some new.id
    · rw [endRun_of_attached owed attached]
      refine ⟨gen.baseline, fun disabled => ?_, fun row' settled => ?_⟩
      · exact absurd ((gen.disabled disabled).symm.trans owed) (by simp)
      · refine since_runs (since_outcome (gen.due row owed) settled) fun run' _ attached' => ?_
        rw [outcome_detached ended settled] at attached'
        cases attached'
    · rw [endRun_of_other owed attached]
      exact swapped

theorem launch_generation (gen : Generation edited l) {row : TaskDue} (owed : l.due = some row)
    (enabled : l.task.enabled = true) {id a : Nat} (fresh : ∀ run ∈ l.runs, run.id ≠ id)
    {stamp : Stamp} (started : edited ≤ stamp.startedAt) (now : Int) :
    Generation edited { l with
      due := some (row.dispatchedTo id now), runs := l.runs ++ [pendingRun id a stamp] } := by
  have base := gen.due row owed
  refine ⟨gen.baseline, fun disabled => absurd (enabled.symm.trans disabled) (by simp), ?_⟩
  intro row' owed'
  obtain rfl := Option.some.inj owed'
  refine ⟨base.due, base.marker, ?_⟩
  intro run mem attached
  rcases List.mem_append.mp mem with old | new
  · exact absurd (Option.some.inj attached).symm (fresh run old)
  · obtain rfl := List.mem_singleton.mp new
    exact started

end Ledgers

theorem effect_generation {env : Env} {a : Nat} {edited lo hi : Int} {op : Op} {l l' : Ledger}
    (later : edited ≤ lo) (gen : Generation edited l)
    (effect : Effect env a lo hi op l l') : Generation edited l' := by
  cases effect with
  | idle => exact gen
  | reconcile time => exact reconcile_stages (generation_stages env.trig (later.trans time.1)) gen
  | tick time => exact tick_stages (generation_stages env.trig (later.trans time.1)) gen
  | settle time => exact settle_generation gen _
  | pass time => exact settle_generation gen _
  | drop time owed other disabled =>
    exact ⟨gen.baseline, fun _ => rfl, fun row here => by cases here⟩
  | wait time owed ready =>
    have settled := settle_generation gen ‹Int›
    refine ⟨gen.baseline, fun disabled => ?_, fun row here => ?_⟩
    · exact absurd ((settled.disabled disabled).symm.trans owed) (by simp)
    · obtain rfl := Option.some.inj here
      exact since_same (settled.due _ owed) rfl (fun _ marked => Or.inl marked) (Or.inr rfl)
  | launch time owed ready enabled quiet fresh started =>
    exact launch_generation (settle_generation gen _) owed enabled fresh
      ((later.trans time.1).trans started.1) _
  | runNow quiet fresh started =>
    refine ⟨gen.baseline, gen.disabled, fun row owed => ?_⟩
    refine since_runs (gen.due row owed) fun run mem _ => ?_
    rcases List.mem_append.mp mem with old | new
    · exact Or.inr ⟨run, old, rfl, rfl⟩
    · obtain rfl := List.mem_singleton.mp new
      exact Or.inl (later.trans started.1)
  | start time mem pending => exact swap_generation gen mem rfl (Or.inl (later.trans time.1))
  | @finish ending requested stats now l run time mem running =>
    refine endRun_generation gen mem ?_ ?_ (terminal_ended run ending requested stats now) now
    · rfl
    · rfl
  | abandon time mem active failed =>
    rcases failed with rfl | ⟨-, rfl⟩ <;> exact swap_generation gen mem rfl (Or.inr rfl)
  | sweep time =>
    refine mapRuns_generation gen fun run => ?_
    split <;> exact ⟨rfl, rfl⟩
  | restart time =>
    refine mapRuns_generation gen fun run => ?_
    split <;> exact ⟨rfl, rfl⟩
  | update time allowed => exact edit_generation gen _ (later.trans time.1)

/-- What one transaction leaves of a row: the row steady, or a run that decides it. -/
def Ledger.Answers (runs : List Run) (row : TaskDue) (due : Option TaskDue) : Prop :=
  (∃ run ∈ runs, run.Decides row) ∨
    ∃ row', due = some row' ∧ Steady row row' ∧ (row'.runId = none ∨ row'.runId = row.runId)

section Answers
variable {runs : List Run} {row row' : TaskDue} {now : Int}

theorem steady_refl (row : TaskDue) : Steady row row :=
  ⟨rfl, le_refl _, Or.inr rfl⟩

theorem steady_trans {row'' : TaskDue} (first : Steady row row')
    (second : Steady row' row'') : Steady row row'' := by
  refine ⟨second.dueAt.trans first.dueAt, second.attempts.trans first.attempts, ?_⟩
  rcases second.retryAt with none | same
  · exact Or.inl none
  · rw [same]
    exact first.retryAt

theorem answers_self (runs : List Run) (row : TaskDue) : Ledger.Answers runs row (some row) :=
  Or.inr ⟨row, rfl, steady_refl row, Or.inr rfl⟩

theorem answers_trans {due : Option TaskDue} (first : Ledger.Answers runs row (some row'))
    (second : Ledger.Answers runs row' due) : Ledger.Answers runs row due := by
  rcases first with decided | ⟨row₁, same, calm, runId⟩
  · exact Or.inl decided
  obtain rfl := Option.some.inj same
  rcases second with ⟨run, mem, attached | ⟨success, pays⟩⟩ | ⟨row'', here, calm', runId'⟩
  · rcases runId with detached | kept
    · rw [detached] at attached
      cases attached
    · exact Or.inl ⟨run, mem, Or.inl (kept.symm.trans attached)⟩
  · exact Or.inl ⟨run, mem, Or.inr ⟨success, calm.dueAt ▸ pays⟩⟩
  · refine Or.inr ⟨row'', here, steady_trans calm calm', ?_⟩
    rcases runId' with detached | kept
    · exact Or.inl detached
    · rw [kept]
      exact runId

theorem settled_answers (counted : 0 ≤ row.attempts)
    (attached : row.status = .dispatched → ∃ run ∈ runs, row.runId = some run.id)
    {due : Option TaskDue} (settled : Settled runs row now due) : Ledger.Answers runs row due := by
  cases settled with
  | missing dispatched gone =>
    obtain ⟨run, mem, attached⟩ := attached dispatched
    exact Or.inl ⟨run, mem, Or.inl attached⟩
  | active dispatched mem attached active => exact answers_self runs row
  | succeeded dispatched mem attached success => exact Or.inl ⟨_, mem, Or.inl attached⟩
  | cancelled dispatched mem attached cancelled => exact Or.inl ⟨_, mem, Or.inl attached⟩
  | failed dispatched mem attached failed => exact Or.inl ⟨_, mem, Or.inl attached⟩
  | blocked blocked => exact answers_self runs row
  | paid isOpen mem owner success pays last => exact Or.inl ⟨_, mem, Or.inr ⟨success, pays⟩⟩
  | unmarked isOpen unpaid marked idle =>
    refine Or.inr ⟨_, rfl, ?_, ?_⟩
    · split
      · exact ⟨rfl, counted, Or.inl rfl⟩
      · exact ⟨rfl, le_refl _, Or.inr rfl⟩
    · split <;> exact Or.inr rfl
  | owed isOpen unpaid => exact answers_self runs row

end Answers

/-- The stages of a reconcile or a tick over a row that is there when it begins. -/
structure Ledger.Follow (runs : List Run) (row : TaskDue) (l : Ledger) : Prop where
  same : l.runs = runs
  sound : l.Sound
  answers : Ledger.Answers runs row l.due

section Follow
variable {runs : List Run} {row : TaskDue} {trig : Trigger} {now : Int} {l : Ledger}

/-- A stage that answers for the row it finds answers for the row at the start. -/
theorem follow_step {l' : Ledger} (follow : l.Follow runs row) (same : l'.runs = l.runs)
    (sound : l'.Sound) (step : ∀ row', l.due = some row' → Ledger.Answers runs row' l'.due) :
    l'.Follow runs row := by
  refine ⟨same.trans follow.same, sound, ?_⟩
  rcases follow.answers with decided | ⟨row', owed, calm, runId⟩
  · exact Or.inl decided
  · exact answers_trans (Or.inr ⟨row', rfl, calm, runId⟩) (step row' owed)

theorem folded_answers {first latest : Int} {row' : TaskDue} (counted : 0 ≤ row.attempts)
    (folded : Folded runs row first latest now row') : Ledger.Answers runs row (some row') := by
  refine Or.inr ⟨row', rfl, ?_⟩
  cases folded with
  | followUp dispatched unmarked => exact ⟨⟨rfl, le_refl _, Or.inr rfl⟩, Or.inr rfl⟩
  | behind isOpen unmarked mem owner active before later =>
    exact ⟨⟨rfl, le_refl _, Or.inr rfl⟩, Or.inr rfl⟩
  | coalesced marked unblocked => exact ⟨⟨rfl, le_refl _, Or.inr rfl⟩, Or.inr rfl⟩
  | held blocked => exact ⟨⟨rfl, le_refl _, Or.inr rfl⟩, Or.inr rfl⟩
  | owed isOpen covered =>
    split
    · exact ⟨⟨rfl, counted, Or.inl rfl⟩, Or.inr rfl⟩
    · exact ⟨⟨rfl, le_refl _, Or.inr rfl⟩, Or.inr rfl⟩

theorem noted_answers {instant newest : Int} {noted : Bool × TaskDue}
    (kinds : Noted runs row instant newest noted) : Ledger.Answers runs row (some noted.2) := by
  refine Or.inr ⟨noted.2, rfl, ?_⟩
  cases kinds <;> exact ⟨⟨rfl, le_refl _, Or.inr rfl⟩, Or.inr rfl⟩

theorem blockedRow_answers (owed : l.due = some row) :
    Ledger.Answers runs row (some (blockedRow trig l now)) := by
  refine Or.inr ⟨_, rfl, ?_⟩
  unfold blockedRow
  rw [owed]
  simp only
  split
  · exact ⟨⟨rfl, le_refl _, Or.inl rfl⟩, Or.inr rfl⟩
  · exact ⟨steady_refl row, Or.inr rfl⟩

theorem settle_answers (sound : l.Sound) (owed : l.due = some row) (now : Int) :
    Ledger.Answers l.runs row (l.settle now).due := by
  have settled := settleRow_settled l.runs row now
  have after : (l.settle now).due = settleRow l.runs row now := by simp [Ledger.settle, owed]
  rw [after]
  refine settled_answers (sound row owed).counted.1 (fun dispatched => ?_) settled
  obtain ⟨run, mem, attached, -⟩ := (sound row owed).attached dispatched
  exact ⟨run, mem, attached⟩

theorem follow_stages (trig : Trigger) (now : Int) (runs : List Run) (row : TaskDue) :
    Stages trig now (Ledger.Follow runs row) where
  settle l _ _ follow :=
    follow_step follow rfl (settle_sound follow.sound now) fun row' owed =>
      follow.same ▸ settle_answers follow.sound owed now
  block l _ _ follow :=
    follow_step follow rfl (block_sound follow.sound now) fun row' owed => blockedRow_answers owed
  keep l _ _ _ follow := by
    rw [keep_eq]
    exact ⟨follow.same, follow.sound, follow.answers⟩
  fold l first _ _ _ follow := by
    refine follow_step follow rfl (fold_sound follow.sound first now) fun row' owed => ?_
    have folded := foldRow_folded owed first (latestOccurrence trig l.task.cron first now) now
    rw [follow.same] at folded
    exact folded_answers (follow.sound row' owed).counted.1 folded
  early l upcoming _ _ _ follow := by
    refine follow_step follow (by rw [early_eq]) (early_sound follow.sound upcoming now)
      fun row' owed => ?_
    rw [early_eq]
    simp only [earlyRow, owed]
    have noted := note_noted l.runs row' upcoming none
    rw [follow.same] at noted ⊢
    exact noted_answers noted
  late l _ _ none follow := by
    rcases follow.answers with decided | ⟨row', owed, -, -⟩
    · refine ⟨follow.same, ?_, Or.inl decided⟩
      intro row' owed'
      obtain rfl := Option.some.inj owed'
      exact sound_new (Or.inl rfl) rfl
    · rw [none] at owed
      cases owed

end Follow

theorem decides_since {edited : Int} {runs : List Run} {row : TaskDue}
    (since : row.Since edited runs) {run : Run} (mem : run ∈ runs) (decides : run.Decides row) :
    edited ≤ run.startedAt := by
  rcases decides with attached | ⟨-, pays⟩
  · exact since.attached run mem attached
  · exact since.due.trans pays

theorem edit_view {env : Env} {s t : Service} {a : Nat} {data : TaskFields} {edited : Int}
    (linked : s.db.Linked) (edit : Step env s (.updateTask a data edited) t) {task : Task}
    (stored : s.db.tasks.get a = some task)
    (changed : data.cron ≠ task.cron ∨ data.enabled ≠ task.enabled)
    (accepted : taskActive s.db a = false ∨ unsafeActiveChanges task.toTaskFields data = []) :
    ∃ l, t.db.view a = some l ∧ l.due = none ∧ Generation edited l := by
  obtain ⟨-, rfl⟩ := edit
  have found : s.db.ledger a =
      some { task := task, due := s.db.taskDue.get a, runs := s.db.runs.rows } := by
    simp [Db.ledger, stored]
  have opened : ¬ (taskActive s.db a = true ∧ unsafeActiveChanges task.toTaskFields data ≠ []) := by
    rintro ⟨active, locked⟩
    rcases accepted with quiet | safe
    · rw [active] at quiet
      cases quiet
    · exact locked safe
  have shape : (s.next env (.updateTask a data edited)).db =
      s.db.onLedger a (editLedger data edited) := by
    show s.db.orElse (updateTask s.db a data edited) = _
    rw [updateTask_eq found, if_neg opened]
  rw [shape, onLedger_view found (editLedger_follows data edited _) linked, if_pos rfl]
  have change := editLedger_edited data edited
    { task := task, due := s.db.taskDue.get a, runs := s.db.runs.rows }
  generalize editLedger data edited _ = l' at change
  cases change with
  | reset changed' =>
    exact ⟨_, rfl, rfl, ⟨edited, rfl, le_refl _⟩, fun _ => rfl, fun row owed => by cases owed⟩
  | rearmed cron enabled owed held =>
    rcases changed with other | other
    · exact absurd cron other
    · exact absurd enabled other
  | kept cron enabled free =>
    rcases changed with other | other
    · exact absurd cron other
    · exact absurd enabled other

end Pullbackup
