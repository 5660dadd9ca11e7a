import Pullbackup.Settlement

/- What is true of an obligation in every state the service reaches: the run it
   is dispatched to, its attempt count and its retry date move together. -/
namespace Pullbackup
open KeyedTable History

structure TaskDue.Sound (runs : List Run) (row : TaskDue) : Prop where
  attached : row.status = .dispatched →
    ∃ run ∈ runs, row.runId = some run.id ∧ run.state ≠ .success
  counted : 0 ≤ row.attempts ∧ row.attempts ≤ maxAutomaticRetries + 1
  budget : row.runId ≠ none ∨ row.status = .due → row.attempts ≤ maxAutomaticRetries
  retry : row.status = .retry → 1 ≤ row.attempts ∧ row.attempts ≤ maxAutomaticRetries ∧
    row.retryAt ≠ none ∧ row.runId = none
  exhausted : row.status = .exhausted → row.attempts = maxAutomaticRetries + 1 ∧
    row.retryAt = none ∧ row.runId = none

def Ledger.Sound (l : Ledger) : Prop := ∀ row, l.due = some row → row.Sound l.runs

section Rows
variable {runs : List Run} {row : TaskDue} {now : Int}

/-- The run of a dispatched row is there, and has not paid it. -/
theorem TaskDue.Sound.found (sound : row.Sound runs) (dispatched : row.status = .dispatched) :
    runOf runs row ≠ none := by
  obtain ⟨run, mem, attached, -⟩ := sound.attached dispatched
  simp only [runOf, attached, Option.bind_some]
  intro none
  have other := List.find?_eq_none.mp none run mem
  simp at other

theorem TaskDue.Sound.unpaid (sound : row.Sound runs) (unique : (runs.map Run.id).Nodup)
    (dispatched : row.status = .dispatched) {run : Run} (mem : run ∈ runs)
    (attached : row.runId = some run.id) : run.state ≠ .success := by
  obtain ⟨other, there, held, unpaid⟩ := sound.attached dispatched
  have same := List.inj_on_of_nodup_map unique mem there
    (Option.some.inj (attached.symm.trans held))
  exact same ▸ unpaid

theorem sound_new (status : row.status = .due ∨ row.status = .blocked) (attempts : row.attempts = 0) :
    row.Sound runs := by
  refine ⟨?_, ?_, ?_, ?_, ?_⟩
  · intro dispatched
    rcases status with s | s <;> simp [s] at dispatched
  · simp [attempts, maxAutomaticRetries]
  · intro _
    simp [attempts, maxAutomaticRetries]
  · intro retry
    rcases status with s | s <;> simp [s] at retry
  · intro exhausted
    rcases status with s | s <;> simp [s] at exhausted

theorem sound_same {row' : TaskDue} (sound : row.Sound runs) (status : row'.status = row.status)
    (attempts : row'.attempts = row.attempts) (retryAt : row'.retryAt = row.retryAt)
    (runId : row'.runId = row.runId) : row'.Sound runs := by
  refine ⟨?_, ?_, ?_, ?_, ?_⟩
  · rw [status, runId]
    exact sound.attached
  · rw [attempts]
    exact sound.counted
  · rw [runId, status, attempts]
    exact sound.budget
  · rw [status, attempts, retryAt, runId]
    exact sound.retry
  · rw [status, attempts, retryAt, runId]
    exact sound.exhausted

theorem sound_rearm (row : TaskDue) (now : Int) :
    TaskDue.Sound runs { row.rearm with updatedAt := now } :=
  sound_new (Or.inl rfl) rfl

theorem sound_finish {followUp : Option Int} {row' : TaskDue}
    (finished : finish row followUp now = some row') : row'.Sound runs := by
  obtain ⟨instant, -, rfl⟩ := finish_eq_some finished
  exact sound_new (Or.inl rfl) rfl

theorem sound_fail (sound : row.Sound runs) (attached : row.runId ≠ none) (message : String) :
    (failOutcome row message now).Sound runs := by
  have counted := sound.counted
  have budget := sound.budget (Or.inl attached)
  unfold failOutcome
  split
  · exact ⟨fun h => (by cases h), counted, fun _ => budget, fun h => (by cases h),
      fun h => (by cases h)⟩
  split
  · exact ⟨fun h => (by cases h), counted, fun _ => budget, fun h => (by cases h),
      fun h => (by cases h)⟩
  split
  · rename_i spent
    refine ⟨fun h => (by cases h), ?_, fun h => (by simp at h), fun h => (by cases h), ?_⟩
    · dsimp only
      omega
    · refine fun _ => ⟨?_, rfl, rfl⟩
      dsimp only
      omega
  · rename_i left
    refine ⟨fun h => (by cases h), ?_, fun h => (by simp at h), ?_, fun h => (by cases h)⟩
    · dsimp only
      omega
    · refine fun _ => ⟨?_, ?_, by simp, rfl⟩
      · dsimp only
        omega
      · dsimp only
        omega

theorem sound_outcome (sound : row.Sound runs) {run : Run} (attached : row.runId = some run.id)
    {row' : TaskDue} (settled : applyRunOutcome row run now = some row') : row'.Sound runs := by
  cases applyRunOutcome_left settled with
  | active active => exact sound
  | succeeded success finished => exact sound_finish finished
  | failed failed => exact sound_fail sound (by simp [attached]) run.errorMessage

theorem sound_settled (sound : row.Sound runs) {due : Option TaskDue}
    (settled : Settled runs row now due) {row' : TaskDue} (kept : due = some row') :
    row'.Sound runs := by
  cases settled with
  | missing dispatched gone =>
    obtain rfl := Option.some.inj kept
    obtain ⟨run, -, attached, -⟩ := sound.attached dispatched
    have budget := sound.budget (Or.inl (by simp [attached]))
    exact ⟨fun h => (by cases h), sound.counted, fun _ => budget, fun h => (by cases h),
      fun h => (by cases h)⟩
  | active dispatched mem attached active =>
    obtain rfl := Option.some.inj kept
    exact sound
  | succeeded dispatched mem attached success => exact sound_finish kept
  | cancelled dispatched mem attached cancelled => cases kept
  | failed dispatched mem attached failed =>
    obtain rfl := Option.some.inj kept
    exact sound_fail sound (by simp [attached]) _
  | blocked blocked =>
    obtain rfl := Option.some.inj kept
    exact sound
  | paid isOpen mem owner success pays last => exact sound_finish kept
  | unmarked isOpen unpaid marked idle =>
    obtain rfl := Option.some.inj kept
    split
    · exact sound_rearm _ now
    · exact sound_same sound rfl rfl rfl rfl
  | owed isOpen unpaid =>
    obtain rfl := Option.some.inj kept
    exact sound

theorem sound_runs {runs' : List Run} (sound : row.Sound runs)
    (kept : ∀ run ∈ runs, row.runId = some run.id → run.state ≠ .success →
      ∃ run' ∈ runs', run'.id = run.id ∧ run'.state ≠ .success) : row.Sound runs' := by
  refine ⟨?_, sound.counted, sound.budget, sound.retry, sound.exhausted⟩
  intro dispatched
  obtain ⟨run, mem, attached, unpaid⟩ := sound.attached dispatched
  obtain ⟨run', mem', id, unpaid'⟩ := kept run mem attached unpaid
  exact ⟨run', mem', by rw [attached, id], unpaid'⟩

end Rows

section Ledgers
variable {trig : Trigger} {l : Ledger} {now : Int}

theorem settle_sound (sound : l.Sound) (now : Int) : (l.settle now).Sound := by
  intro row' owed'
  obtain ⟨row, owed, settled⟩ := Option.bind_eq_some_iff.mp owed'
  have kinds := settleRow_settled l.runs row now
  rw [settled] at kinds
  exact sound_settled (sound row owed) kinds rfl

theorem fold_sound (sound : l.Sound) (first now : Int) : (l.fold trig first now).Sound := by
  intro row' owed'
  obtain rfl := Option.some.inj owed'
  show TaskDue.Sound l.runs (foldRow l first (latestOccurrence trig l.task.cron first now) now)
  cases owed : l.due with
  | none =>
    simp only [foldRow, owed]
    exact sound_new (Or.inl rfl) rfl
  | some row =>
    have folded := foldRow_folded owed first (latestOccurrence trig l.task.cron first now) now
    have base := sound row owed
    generalize foldRow l first _ now = new at folded
    cases folded with
    | followUp dispatched unmarked => exact sound_same base rfl rfl rfl rfl
    | behind isOpen unmarked mem owner active before later => exact sound_same base rfl rfl rfl rfl
    | coalesced marked unblocked => exact sound_same base rfl rfl rfl rfl
    | held blocked => exact sound_same base rfl rfl rfl rfl
    | owed isOpen covered =>
      split
      · exact sound_rearm _ now
      · exact sound_same base rfl rfl rfl rfl

theorem early_sound (sound : l.Sound) (upcoming now : Int) : (l.early upcoming now).Sound := by
  rw [early_eq]
  intro row' owed'
  obtain rfl := Option.some.inj owed'
  show TaskDue.Sound l.runs (earlyRow l upcoming now)
  unfold earlyRow
  cases owed : l.due with
  | none => exact sound_new (Or.inl rfl) rfl
  | some row =>
    have noted := note_noted l.runs row upcoming none
    have base := sound row owed
    simp only
    generalize noteOccurrenceDuringRun l.runs row upcoming none = n at noted
    cases noted with
    | followUp dispatched unmarked => exact sound_same base rfl rfl rfl rfl
    | behind isOpen unmarked mem owner active before later => exact sound_same base rfl rfl rfl rfl
    | coalesced marked unblocked => exact base
    | held blocked => exact base
    | unnoted isOpen covered => exact base

theorem block_sound (sound : l.Sound) (now : Int) :
    Ledger.Sound { l with due := some (blockedRow trig l now) } := by
  intro row' owed'
  obtain rfl := Option.some.inj owed'
  show TaskDue.Sound l.runs (blockedRow trig l now)
  unfold blockedRow
  cases owed : l.due with
  | none => exact sound_new (Or.inr rfl) rfl
  | some row =>
    have base := sound row owed
    simp only
    split
    · refine ⟨fun h => (by cases h), base.counted, fun h => base.budget ?_, fun h => (by cases h),
        fun h => (by cases h)⟩
      exact h.imp id fun due => (by cases due)
    · exact base

theorem sound_stages (trig : Trigger) (now : Int) : Stages trig now Ledger.Sound where
  settle l _ _ sound := settle_sound sound now
  block l _ _ sound := block_sound sound now
  keep l _ _ _ sound := by
    rw [keep_eq]
    exact sound
  fold l first _ _ _ sound := fold_sound sound first now
  early l upcoming _ _ _ sound := early_sound sound upcoming now
  late l _ _ _ _ := by
    intro row owed
    obtain rfl := Option.some.inj owed
    exact sound_new (Or.inl rfl) rfl

theorem edit_sound (sound : l.Sound) (data : TaskFields) (now : Int) :
    (editLedger data now l).Sound := by
  have edited := editLedger_edited data now l
  generalize editLedger data now l = l' at edited
  cases edited with
  | reset changed =>
    intro row owed
    cases owed
  | rearmed cron enabled owed held =>
    intro row' owed'
    obtain rfl := Option.some.inj owed'
    exact sound_rearm _ now
  | kept cron enabled free => exact sound

theorem swap_sound (sound : l.Sound) {run new : Run} (mem : run ∈ l.runs)
    (id : new.id = run.id) (short : new.state ≠ .success) :
    Ledger.Sound { l with runs := l.runs.map (swapRun new) } := by
  intro row owed
  refine sound_runs (sound row owed) fun r here attached unpaid => ?_
  by_cases same : r.id = new.id
  · exact ⟨new, mem_swapRun_self mem id, same.symm, short⟩
  · exact ⟨r, mem_swapRuns_of_ne here same, rfl, unpaid⟩

theorem endRun_sound (sound : l.Sound) {new : Run} (ended : new.state.active = false) (now : Int) :
    (l.endRun new now).Sound := by
  have detached : ∀ row, l.due = some row → row.runId ≠ some new.id →
      row.Sound (l.runs.map (swapRun new)) := by
    intro row owed other
    refine sound_runs (sound row owed) fun r here attached unpaid => ?_
    have ne : r.id ≠ new.id := fun same => other (by rw [attached, same])
    exact ⟨r, mem_swapRuns_of_ne here ne, rfl, unpaid⟩
  cases owed : l.due with
  | none =>
    rw [endRun_of_none owed]
    intro row owed'
    exact absurd (owed'.symm.trans owed) (by simp)
  | some row =>
    by_cases attached : row.runId = some new.id
    · rw [endRun_of_attached owed attached]
      intro row' settled
      have base := sound_outcome (sound row owed) attached settled
      refine sound_runs base fun r _ here => ?_
      rw [outcome_detached ended settled] at here
      cases here
    · rw [endRun_of_other owed attached]
      intro row' owed'
      exact detached row' owed' (by
        obtain rfl := Option.some.inj (owed.symm.trans owed')
        exact attached)

theorem mapRuns_sound (sound : l.Sound) {f : Run → Run} (id : ∀ run, (f run).id = run.id)
    (short : ∀ run, run.state ≠ .success → (f run).state ≠ .success) :
    Ledger.Sound { l with runs := l.runs.map f } := by
  intro row owed
  refine sound_runs (sound row owed) fun run mem _ unpaid => ?_
  exact ⟨f run, List.mem_map_of_mem mem, id run, short run unpaid⟩

theorem append_sound (sound : l.Sound) (run : Run) :
    Ledger.Sound { l with runs := l.runs ++ [run] } := by
  intro row owed
  refine sound_runs (sound row owed) fun r mem _ unpaid => ?_
  exact ⟨r, List.mem_append_left _ mem, rfl, unpaid⟩

theorem launch_sound {runs : List Run} {row : TaskDue} (sound : row.Sound runs) {id a : Nat}
    {now : Int} {stamp : Stamp} (ready : row.Ready now) :
    TaskDue.Sound (runs ++ [pendingRun id a stamp]) (row.dispatchedTo id now) := by
  have budget : row.attempts ≤ maxAutomaticRetries := by
    rcases ready with due | ⟨retry, -⟩
    · exact sound.budget (Or.inr due)
    · exact (sound.retry retry).2.1
  refine ⟨?_, sound.counted, fun _ => budget, fun h => (by cases h), fun h => (by cases h)⟩
  intro _
  exact ⟨pendingRun id a stamp, by simp, rfl, by simp [pendingRun]⟩

end Ledgers

theorem effect_sound {env : Env} {a : Nat} {lo hi : Int} {op : Op} {l l' : Ledger}
    (sound : l.Sound) (effect : Effect env a lo hi op l l') : l'.Sound := by
  cases effect with
  | idle => exact sound
  | reconcile time => exact reconcile_stages (sound_stages env.trig _) sound
  | tick time => exact tick_stages (sound_stages env.trig _) sound
  | settle time => exact settle_sound sound _
  | pass time => exact settle_sound sound _
  | drop time owed other disabled =>
    intro row here
    cases here
  | wait time owed ready =>
    intro row here
    obtain rfl := Option.some.inj here
    exact sound_same (settle_sound sound _ _ owed) rfl rfl rfl rfl
  | launch time owed ready enabled quiet fresh started =>
    intro row here
    obtain rfl := Option.some.inj here
    exact launch_sound (settle_sound sound _ _ owed) ready
  | runNow quiet fresh started => exact append_sound sound _
  | start time mem pending => exact swap_sound sound mem rfl (by simp)
  | finish time mem running => exact endRun_sound sound (terminal_ended _ _ _ _ _) _
  | abandon time mem active failed =>
    rcases failed with rfl | ⟨-, rfl⟩
    · exact swap_sound sound mem rfl (by simp [Run.failed])
    · exact swap_sound sound mem rfl (by simp)
  | sweep time =>
    refine mapRuns_sound sound ?_ ?_
    · intro run
      split <;> rfl
    · intro run unpaid
      split
      · simp [Run.failed]
      · exact unpaid
  | restart time =>
    refine mapRuns_sound sound ?_ ?_
    · intro run
      split <;> rfl
    · intro run unpaid
      split
      · simp [Run.failed]
      · exact unpaid
  | update time allowed => exact edit_sound sound _ _

theorem reachable_sound {env : Env} {s : Service} (reachable : Reachable env s) {a : Nat} {l : Ledger}
    (view : s.db.view a = some l) : l.Sound :=
  reachable_view (fun _ l => l.Sound)
    (fun _ l none _ row owed => absurd (owed.symm.trans none) (by simp))
    (fun _ _ _ _ _ _ _ sound effect => effect_sound sound effect) reachable view

end Pullbackup
