import Mathlib.Data.Int.LeastGreatest
import Pullbackup.Payment

/- An operator's cancel and the schedule after it. The cancel drops the row with
   its follow-up but leaves the watermark where it was, so what comes back depends
   on the occurrences between the watermark and the end of the run, and on whether
   a callback that is still to come finds a run that covers the watermark. -/
namespace Pullbackup
open KeyedTable History

/-- What a row made between two watermarks is owed for: the occurrences the watermark passed, or
    the newest one it had already passed. -/
def Accounts (occ : Set Int) (before after o : Int) : Prop :=
  o ∈ occ ∧ o ≤ after ∧ (before < o ∨ ∀ p ∈ occ, p ≤ after → p ≤ o)

/-- The watermarks around the transaction that gave the task its present row. -/
def nextWindow (window : Option (Int × Int)) : Option Ledger → Option Ledger → Option (Int × Int)
  | some l, some l' =>
    if l'.due = none then none
    else if l'.due.map TaskDue.dueAt = l.due.map TaskDue.dueAt then window
    else some (l.baseline, l'.baseline)
  | _, _ => none

def Windowed (env : Env) (a : Nat) (s : Service × Option (Int × Int)) (op : Op)
    (t : Service × Option (Int × Int)) : Prop :=
  Step env s.1 op t.1 ∧ t.2 = nextWindow s.2 (s.1.db.view a) (t.1.db.view a)

def Op.isDelete : Op → Bool
  | .deleteTask _ => true
  | _ => false

/-- The callbacks, the scans, the settlement and the passes. -/
def Op.schedules : Op → Bool
  | .reconcile _ _ | .tick _ _ | .settle _ | .dispatch _ _ _ => true
  | _ => false

/-- Whatever of these follows, the row of the task, which is all a pass can start, is owed for
    nothing up to the instant. -/
def NoRerun (env : Env) (a : Nat) (occ : Set Int) (ended : Int) (s : Service) : Prop :=
  ∀ ops t window, Trace (fun x op y => Windowed env a x op y ∧ op.schedules = true)
    (s, none) ops (t, window) →
    ∀ before after, window = some (before, after) → ∀ o, Accounts occ before after o → ended < o

/-- No occurrence lies between the watermark and the instant. -/
def Behind (occ : Set Int) (ended : Int) (l : Ledger) : Prop :=
  ∀ o ∈ occ, l.baseline < o → ended < o

/-- A callback still to come makes no row: a run covers the watermark, or it comes early for the
    next occurrence, or the watermark is past the instant. -/
def EchoSafe (trig : Trigger) (occ : Set Int) (ended clock : Int) (l : Ledger) : Prop :=
  runCovers l.runs l.task.id (some l.baseline) = true ∨
    (∃ next, nextOccurrence trig l.task.cron l.baseline = some next ∧
      next ≤ clock + tickEarlyTolerance) ∨
    ∀ o ∈ occ, o ≤ ended → ∃ p ∈ occ, ended < p ∧ p ≤ l.baseline

/-- The stored watermark is past an occurrence after the instant. -/
def Newer (occ : Set Int) (ended : Int) (l : Ledger) : Prop :=
  ∀ o ∈ occ, o ≤ ended → ∃ w, l.task.scheduleBaselineAt = some w ∧ ∃ p ∈ occ, ended < p ∧ p ≤ w

/-- What the state after the cancel satisfies and the schedule keeps. -/
structure Quieted (trig : Trigger) (cron : String) (ended clock : Int) (l : Ledger) : Prop where
  spelling : l.task.cron = cron
  passed : Behind (occurrences trig cron) ended l
  row : Newer (occurrences trig cron) ended l ∨
    l.due = none ∧ EchoSafe trig (occurrences trig cron) ended clock l

section Stages
variable {trig : Trigger} {cron : String} {ended clock now : Int} {l : Ledger}

theorem quieted_later {clock' : Int} (quieted : Quieted trig cron ended clock l)
    (later : clock ≤ clock') : Quieted trig cron ended clock' l := by
  refine ⟨quieted.spelling, quieted.passed, quieted.row.imp_right fun bare => ⟨bare.1, ?_⟩⟩
  rcases bare.2 with covered | ⟨next, found, soon⟩ | newer
  · exact Or.inl covered
  · exact Or.inr (Or.inl ⟨next, found, by omega⟩)
  · exact Or.inr (Or.inr newer)

theorem quieted_newer {l' : Ledger} (quieted : Quieted trig cron ended clock l)
    (newer : Newer (occurrences trig cron) ended l) (task : l'.task = l.task) :
    Quieted trig cron ended clock l' := by
  refine ⟨by rw [task]; exact quieted.spelling, ?_, Or.inl ?_⟩
  · intro o scheduled after
    by_contra early
    obtain ⟨w, stored, -⟩ := newer o scheduled (not_lt.mp early)
    have here : l'.baseline = w := baseline_some (by rw [task]; exact stored)
    have there : l.baseline = w := baseline_some stored
    exact early (quieted.passed o scheduled (by rw [there, ← here]; exact after))
  · intro o scheduled early
    rw [task]
    exact newer o scheduled early

theorem quieted_silent {l' : Ledger} (silent : ∀ o, o ∉ occurrences trig cron)
    (task : l'.task.cron = cron) : Quieted trig cron ended clock l' :=
  ⟨task, fun o scheduled => absurd scheduled (silent o),
    Or.inl fun o scheduled => absurd scheduled (silent o)⟩

theorem settle_quieted (quieted : Quieted trig cron ended clock l) (now : Int) :
    Quieted trig cron ended clock (l.settle now) := by
  rcases quieted.row with newer | ⟨bare, echo⟩
  · exact quieted_newer quieted newer rfl
  · rw [settle_of_none bare]
    exact quieted

theorem keep_quieted (quieted : Quieted trig cron ended clock l) :
    Quieted trig cron ended clock l.keep := by
  obtain ⟨stored, same⟩ := keep_baseline l
  have task := keep_task l
  have rest : l.keep.due = l.due ∧ l.keep.runs = l.runs := by
    rw [keep_eq]
    exact ⟨rfl, rfl⟩
  refine ⟨task.1.trans quieted.spelling, ?_, ?_⟩
  · intro o scheduled after
    exact quieted.passed o scheduled (by rw [← same]; exact after)
  · rcases quieted.row with newer | ⟨bare, echo⟩
    · left
      intro o scheduled early
      obtain ⟨w, here, p, past⟩ := newer o scheduled early
      exact ⟨w, by rw [stored, baseline_some here], p, past⟩
    · right
      refine ⟨rest.1.trans bare, ?_⟩
      unfold EchoSafe
      rw [same, task.1, task.2.1, rest.2]
      exact echo

theorem quieted_advanced {l' : Ledger} (quieted : Quieted trig cron ended clock l)
    (task : l'.task.cron = l.task.cron) {o w : Int} (scheduled : o ∈ occurrences trig cron)
    (after : ended < o) (stored : l'.task.scheduleBaselineAt = some w) (reached : o ≤ w) :
    Quieted trig cron ended clock l' := by
  refine ⟨task.trans quieted.spelling, ?_, Or.inl fun _ _ _ => ⟨w, stored, o, scheduled, after, reached⟩⟩
  intro p _ later
  rw [baseline_some stored] at later
  omega

theorem answer_occurrence {after fire : Int} (task : l.task.cron = cron)
    (found : nextOccurrence trig l.task.cron after = some fire) :
    fire ∈ occurrences trig cron ∧ after < fire :=
  ⟨⟨after, task ▸ found⟩, nextOccurrence_advances trig l.task.cron after fire found⟩

theorem fold_quieted (quieted : Quieted trig cron ended clock l) {first : Int}
    (owes : l.owes trig now = some first) :
    Quieted trig cron ended clock (l.fold trig first now) := by
  obtain ⟨found, inside⟩ := owes_some owes
  obtain ⟨scheduled, later⟩ := answer_occurrence quieted.spelling found
  have bounds := latestOccurrence_bounds trig l.task.cron inside
  exact quieted_advanced quieted rfl scheduled (quieted.passed first scheduled later) rfl bounds.1

theorem scan_quieted (quieted : Quieted trig cron ended clock l) (now : Int) :
    Quieted trig cron ended clock (l.scan trig now) := by
  unfold Ledger.scan
  split
  · exact keep_quieted quieted
  · rename_i first owes
    exact fold_quieted quieted owes

theorem early_quieted (quieted : Quieted trig cron ended clock l) {upcoming : Int}
    (early : earlyOccurrence trig l.task now = some upcoming) :
    Quieted trig cron ended clock (l.early upcoming now) := by
  obtain ⟨w, stored, found⟩ := Option.bind_eq_some_iff.mp (Option.filter_eq_some_iff.mp early).1
  obtain ⟨scheduled, later⟩ := answer_occurrence quieted.spelling found
  rw [early_eq]
  refine quieted_advanced quieted rfl scheduled (quieted.passed upcoming scheduled ?_) rfl le_rfl
  rw [baseline_some stored]
  exact later

/-- A late callback comes to a bare task only when the watermark is past the instant already. -/
theorem late_quieted (quieted : Quieted trig cron ended clock l) (time : clock ≤ now)
    (bare : (l.scan trig now).due = none)
    (punctual : earlyOccurrence trig (l.scan trig now).task now = none)
    (uncovered : runCovers (l.scan trig now).runs (l.scan trig now).task.id
      (l.scan trig now).task.scheduleBaselineAt = false) :
    Quieted trig cron ended clock ((l.scan trig now).late now) := by
  have nothing : l.owes trig now = none := by
    unfold Ledger.scan at bare
    split at bare
    · assumption
    · cases bare
  have kept : l.scan trig now = l.keep := by simp [Ledger.scan, nothing]
  rw [kept] at bare punctual uncovered ⊢
  obtain ⟨stored, same⟩ := keep_baseline l
  have before := keep_quieted quieted
  have newer : ∀ o ∈ occurrences trig cron, o ≤ ended →
      ∃ p ∈ occurrences trig cron, ended < p ∧ p ≤ l.keep.baseline := by
    intro o scheduled early
    rcases before.row with newer | ⟨-, covered | ⟨next, found, soon⟩ | newer⟩
    · obtain ⟨w, here, p, mem, past, reached⟩ := newer o scheduled early
      exact ⟨p, mem, past, by rw [baseline_some here]; exact reached⟩
    · rw [same, ← stored, uncovered] at covered
      cases covered
    · rw [(keep_task l).1, same] at found
      have later : now < next := owes_none nothing found
      have window : earlyOccurrence trig l.keep.task now = some next := by
        rw [early_keep, found]
        have inside : next - now ≤ tickEarlyTolerance := by omega
        simp [Option.filter, inside, le_of_lt later]
      rw [window] at punctual
      cases punctual
    · exact newer o scheduled early
  have moved : (l.keep.late now).task.scheduleBaselineAt = some (max l.baseline now) := by
    simp [Ledger.late, stored]
  refine ⟨before.spelling, ?_, Or.inl fun o scheduled early => ?_⟩
  · intro o scheduled after
    rw [baseline_some moved] at after
    exact quieted.passed o scheduled (by omega)
  · obtain ⟨p, mem, past, reached⟩ := newer o scheduled early
    exact ⟨_, moved, p, mem, past, by omega⟩

theorem worked_quieted {l' : Ledger} (quieted : Quieted trig cron ended clock l)
    (time : clock ≤ now) (worked : Worked trig now l l') : Quieted trig cron ended clock l' := by
  have settled := settle_quieted quieted now
  cases worked with
  | same => exact quieted
  | blocked enabled unreadable =>
    refine quieted_silent (fun o scheduled => ?_) quieted.spelling
    obtain ⟨after, found⟩ := scheduled
    rw [← quieted.spelling, nextOccurrence_of_not_parses unreadable] at found
    cases found
  | scanned enabled readable => exact scan_quieted settled now
  | early enabled readable early => exact early_quieted (scan_quieted settled now) early
  | late enabled readable bare punctual uncovered =>
    exact late_quieted settled time bare punctual uncovered

end Stages

theorem effect_quieted {env : Env} {a : Nat} {lo hi ended : Int} {cron : String} {op : Op}
    {l l' : Ledger} (quieted : Quieted env.trig cron ended lo l) (order : lo ≤ hi)
    (effect : Effect env a lo hi op l l') (schedules : op.schedules = true) :
    Quieted env.trig cron ended hi l' := by
  refine quieted_later ?_ order
  have owing : ∀ {now row}, (l.settle now).due = some row →
      Newer (occurrences env.trig cron) ended l := by
    intro now row owed
    rcases quieted.row with newer | ⟨bare, -⟩
    · exact newer
    · rw [settle_of_none bare, bare] at owed
      cases owed
  cases effect with
  | idle => exact quieted
  | reconcile time => exact worked_quieted quieted time.1 (reconcile_worked _ _ _)
  | tick time => exact worked_quieted quieted time.1 (tick_worked _ _ _)
  | settle time => exact settle_quieted quieted _
  | pass time => exact settle_quieted quieted _
  | drop time owed other disabled => exact quieted_newer quieted (owing owed) rfl
  | wait time owed ready => exact quieted_newer quieted (owing owed) rfl
  | launch time owed ready enabled quiet fresh started =>
    exact quieted_newer quieted (owing owed) rfl
  | _ => cases schedules

theorem effect_disabled {env : Env} {a : Nat} {lo hi : Int} {op : Op} {l l' : Ledger}
    (off : l.task.enabled = false) (bare : l.due = none) (effect : Effect env a lo hi op l l')
    (schedules : op.schedules = true) : l'.task.enabled = false ∧ l'.due = none := by
  have worked : ∀ {now m}, Worked env.trig now l m → m.task.enabled = false ∧ m.due = none := by
    intro now m worked
    cases worked with
    | same => exact ⟨off, bare⟩
    | blocked enabled unreadable => simp [off] at enabled
    | scanned enabled readable => simp [off] at enabled
    | early enabled readable early => simp [off] at enabled
    | late enabled readable bare punctual uncovered => simp [off] at enabled
  have settled : ∀ now, l.settle now = l := settle_of_none bare
  cases effect with
  | idle => exact ⟨off, bare⟩
  | reconcile time => exact worked (reconcile_worked _ _ _)
  | tick time => exact worked (tick_worked _ _ _)
  | settle time => exact (settled _).symm ▸ ⟨off, bare⟩
  | pass time => exact (settled _).symm ▸ ⟨off, bare⟩
  | drop time owed other disabled => exact ⟨off, rfl⟩
  | wait time owed ready => simp [settled, bare] at owed
  | launch time owed ready enabled quiet fresh started => simp [settled, bare] at owed
  | _ => cases schedules

theorem finished_by_clock {env : Env} {a : Nat} {s : Service} (reachable : Reachable env s)
    {l : Ledger} (view : s.db.view a = some l) :
    ∀ run ∈ l.runs, ∀ ended, run.finishedAt = some ended → ended ≤ s.clock :=
  (reachable_inTurn reachable view).finished

/-- What keeps the task from being run again for something before its cancel. -/
def CancelSafe (trig : Trigger) (ended clock : Int) (l : Ledger) : Prop :=
  l.task.enabled = true → Behind (occurrences trig l.task.cron) ended l ∧
    EchoSafe trig (occurrences trig l.task.cron) ended clock l

section Cancelled
variable {env : Env} {a : Nat} {s : Service} {l : Ledger} {ended : Int}

theorem no_rerun_of_safe (linked : s.db.Linked) (view : s.db.view a = some l)
    (bare : l.due = none) (safe : CancelSafe env.trig ended s.clock l) :
    NoRerun env a (occurrences env.trig l.task.cron) ended s := by
  intro ops t window history
  have start : Quieted env.trig l.task.cron ended s.clock l ∨
      l.task.enabled = false ∧ l.due = none := by
    cases enabled : l.task.enabled with
    | false => exact Or.inr ⟨rfl, bare⟩
    | true =>
      obtain ⟨behind, echo⟩ := safe enabled
      exact Or.inl ⟨rfl, behind, Or.inr ⟨bare, echo⟩⟩
  have all := trace_invariant
    (fun x : Service × Option (Int × Int) => x.1.db.Linked ∧ ∃ m, x.1.db.view a = some m ∧
      (Quieted env.trig l.task.cron ended x.1.clock m ∨ m.task.enabled = false ∧ m.due = none) ∧
      ∀ before after, x.2 = some (before, after) →
        ∀ o, Accounts (occurrences env.trig l.task.cron) before after o → ended < o)
    ?_ history ⟨linked, l, view, start, fun _ _ nothing => by cases nothing⟩
  · exact all.2.elim fun m here => here.2.2
  · intro x op y holds step
    obtain ⟨linked, m, view, quiet, windows⟩ := holds
    obtain ⟨⟨move, window⟩, schedules⟩ := step
    obtain ⟨linked', views⟩ := apply_sees linked move
    have seen := views a
    rw [view] at seen window
    generalize after : y.1.db.view a = v at seen window
    cases seen with
    | deleted request quiet =>
      rw [request] at schedules
      cases schedules
    | @acts _ m' effect =>
      have quiet' : Quieted env.trig l.task.cron ended y.1.clock m' ∨
          m'.task.enabled = false ∧ m'.due = none := by
        rcases quiet with quieted | ⟨off, nothing⟩
        · exact Or.inl (effect_quieted quieted (clock_le move) effect schedules)
        · exact Or.inr (effect_disabled off nothing effect schedules)
      refine ⟨linked', m', rfl, quiet', ?_⟩
      intro lo hi opened o accounts
      rw [window] at opened
      simp only [nextWindow] at opened
      split at opened
      · cases opened
      split at opened
      · exact windows lo hi opened o accounts
      · rename_i owed moved
        obtain ⟨rfl, rfl⟩ := Prod.mk.inj (Option.some.inj opened)
        obtain ⟨scheduled, reached, fresh⟩ := accounts
        rcases quiet' with quieted' | ⟨-, nothing⟩
        · by_contra early
          rcases quieted'.row with newer | ⟨nothing, -⟩
          · obtain ⟨w, stored, p, mem, past, inside⟩ := newer o scheduled (not_lt.mp early)
            rcases fresh with new | newest
            · rcases quiet with quieted | ⟨off, nothing⟩
              · exact early (quieted.passed o scheduled new)
              · exact owed (effect_disabled off nothing effect schedules).2
            · have := newest p mem (by rw [baseline_some stored]; exact inside)
              omega
          · exact owed nothing
        · exact absurd nothing owed

theorem no_rerun_step (safe : NoRerun env a (occurrences env.trig l.task.cron) ended s)
    (view : s.db.view a = some l) (bare : l.due = none) {op : Op} (timely : s.Timely op)
    (schedules : op.schedules = true) {l' : Ledger} (view' : (s.next env op).db.view a = some l')
    (owed : l'.due ≠ none) {o : Int}
    (accounts : Accounts (occurrences env.trig l.task.cron) l.baseline l'.baseline o) : ended < o := by
  obtain ⟨row, due⟩ := Option.ne_none_iff_exists'.mp owed
  have window : nextWindow none (s.db.view a) ((s.next env op).db.view a) =
      some (l.baseline, l'.baseline) := by
    simp [view, view', nextWindow, bare, due]
  have step : Trace (fun x op y => Windowed env a x op y ∧ op.schedules = true) (s, none) [op]
      (s.next env op, nextWindow none (s.db.view a) ((s.next env op).db.view a)) :=
    trace_single ⟨⟨⟨timely, rfl⟩, rfl⟩, schedules⟩
  exact safe _ _ _ step _ _ window o accounts

theorem readable_of_occurrence {trig : Trigger} {cron : String} {o : Int}
    (scheduled : o ∈ occurrences trig cron) : trig.parses cron = true := by
  obtain ⟨after, found⟩ := scheduled
  cases readable : trig.parses cron with
  | true => rfl
  | false =>
    rw [nextOccurrence_of_not_parses readable] at found
    cases found

theorem behind_of_no_rerun (linked : s.db.Linked) (view : s.db.view a = some l)
    (bare : l.due = none) (enabled : l.task.enabled = true) (past : ended ≤ s.clock)
    (exact : Schedule.IsNext (occurrences env.trig l.task.cron)
      (nextOccurrence env.trig l.task.cron))
    (safe : NoRerun env a (occurrences env.trig l.task.cron) ended s) :
    Behind (occurrences env.trig l.task.cron) ended l := by
  intro o scheduled later
  by_contra early
  have readable := readable_of_occurrence scheduled
  obtain ⟨first, found⟩ : ∃ first, nextOccurrence env.trig l.task.cron l.baseline = some first := by
    cases found : nextOccurrence env.trig l.task.cron l.baseline with
    | none => exact absurd (Schedule.next_none exact found scheduled) (not_le.mpr later)
    | some first => exact ⟨first, rfl⟩
  have least := Schedule.next_le exact found scheduled later
  have owes : l.owes env.trig s.clock = some first := by
    unfold Ledger.owes
    rw [found]
    have inside : first ≤ s.clock := by omega
    simp [Option.filter, inside]
  have view' := reconcile_view env linked view s.clock
  have shape : reconcileOne env.trig l s.clock = l.fold env.trig first s.clock := by
    rw [reconcileOne_eq, settle_of_none bare]
    simp [enabled, readable, Ledger.scan, owes]
  rw [shape] at view'
  have reached : first ≤ (l.fold env.trig first s.clock).baseline := by
    have bounds := latestOccurrence_bounds env.trig l.task.cron (owes_some owes).2
    have moved : (l.fold env.trig first s.clock).baseline =
        latestOccurrence env.trig l.task.cron first s.clock := baseline_some rfl
    rw [moved]
    exact bounds.1
  have timely : s.Timely (.reconcile a s.clock) := by simp [Service.Timely, Op.readings]
  have after := no_rerun_step safe view bare timely rfl view' (by rw [fold_eq]; simp)
    ⟨⟨_, found⟩, reached, Or.inl (nextOccurrence_advances _ _ _ _ found)⟩
  omega

theorem echo_of_no_rerun (linked : s.db.Linked) (view : s.db.view a = some l)
    (bare : l.due = none) (enabled : l.task.enabled = true) (past : ended ≤ s.clock)
    (exact : Schedule.IsNext (occurrences env.trig l.task.cron)
      (nextOccurrence env.trig l.task.cron))
    (safe : NoRerun env a (occurrences env.trig l.task.cron) ended s) :
    EchoSafe env.trig (occurrences env.trig l.task.cron) ended s.clock l := by
  by_contra risky
  unfold EchoSafe at risky
  simp only [not_or, not_exists, not_and, not_forall, not_le] at risky
  obtain ⟨uncovered, later, o, scheduled, early, newest⟩ := risky
  have readable := readable_of_occurrence scheduled
  have nothing : l.owes env.trig s.clock = none := by
    cases owes : l.owes env.trig s.clock with
    | none => rfl
    | some first =>
      obtain ⟨found, inside⟩ := owes_some owes
      have := later first found
      simp only [tickEarlyTolerance, seconds] at this
      omega
  have kept : (l.settle s.clock).scan env.trig s.clock = l.keep := by
    rw [settle_of_none bare]
    simp [Ledger.scan, nothing]
  obtain ⟨stored, same⟩ := keep_baseline l
  have task := keep_task l
  have runs : l.keep.runs = l.runs ∧ l.keep.due = none := by
    rw [keep_eq]
    exact ⟨rfl, bare⟩
  have punctual : earlyOccurrence env.trig l.keep.task s.clock = none := by
    rw [early_keep]
    cases found : nextOccurrence env.trig l.task.cron l.baseline with
    | none => rfl
    | some next =>
      have := later next found
      simp only [Option.filter_eq_none_iff, Option.some.injEq, forall_eq', decide_eq_true_eq]
      omega
  have shape : recordTick env.trig l s.clock = l.keep.late s.clock := by
    rw [recordTick_eq, kept]
    simp [enabled, readable, punctual, stored, task.2.1, runs, uncovered]
  have view' := tick_view env linked view s.clock
  rw [shape] at view'
  have moved : (l.keep.late s.clock).baseline = max l.baseline s.clock :=
    baseline_some (by simp [Ledger.late, stored])
  -- the newest occurrence the callback echoes
  obtain ⟨last, ⟨mem, inside⟩, greatest⟩ := Int.exists_greatest_of_bdd
    (P := fun p => p ∈ occurrences env.trig l.task.cron ∧ p ≤ max l.baseline s.clock)
    ⟨max l.baseline s.clock, fun p here => here.2⟩ ⟨o, scheduled, by omega⟩
  have timely : s.Timely (.tick a s.clock) := by simp [Service.Timely, Op.readings]
  have after := no_rerun_step safe view bare timely rfl view' (by simp [Ledger.late])
    ⟨mem, by rw [moved]; exact inside, Or.inr fun p here reached =>
      greatest p ⟨here, by rw [← moved]; exact reached⟩⟩
  -- it is after the instant, so it is after the watermark, and a scan finds it
  have beyond := newest last mem after
  obtain ⟨next, found⟩ : ∃ next, nextOccurrence env.trig l.task.cron l.baseline = some next := by
    cases found : nextOccurrence env.trig l.task.cron l.baseline with
    | none => exact absurd (Schedule.next_none exact found mem) (not_le.mpr beyond)
    | some next => exact ⟨next, rfl⟩
  have least := Schedule.next_le exact found mem beyond
  have far := later next found
  simp only [tickEarlyTolerance, seconds] at far
  omega

/-- In a reachable state in which a run of the task has ended, by a cancel or otherwise, and the
    task has no row, the schedule will make and start a row for nothing up to that end if and
    only if the task is disabled, or no occurrence lies between its watermark and the end and no
    callback is left to echo an older one. -/
theorem no_rerun_iff {run : Run} (reachable : Reachable env s) (view : s.db.view a = some l)
    (exact : Schedule.IsNext (occurrences env.trig l.task.cron)
      (nextOccurrence env.trig l.task.cron))
    (mem : run ∈ l.runs) (finished : run.finishedAt = some ended) (settled : l.due = none) :
    NoRerun env a (occurrences env.trig l.task.cron) ended s ↔
      CancelSafe env.trig ended s.clock l := by
  have linked := reachable_linked reachable
  have past := finished_by_clock reachable view run mem ended finished
  constructor
  · intro safe enabled
    exact ⟨behind_of_no_rerun linked view settled enabled past exact safe,
      echo_of_no_rerun linked view settled enabled past exact safe⟩
  · exact no_rerun_of_safe linked view settled

end Cancelled

/-- The run of the first minute is cancelled within its minute: nothing is left to come back. -/
def Sample.stopped : List Op :=
  [.tick 1 (seconds 60), .dispatch probe (seconds 61) [stamp 61], .start 1 (seconds 62),
    .finish 1 .cancelled true {} (seconds 100)]

theorem Sample.exec_reachable {ops : List Op}
    (along : Along Sample.env (fun _ _ => True) Sample.start ops) :
    Reachable Sample.env (Sample.start.exec Sample.env ops) :=
  reachable_trace Sample.start_reachable (trace_mono (fun _ _ _ step => step.1) (trace_along along))

theorem minutes_of_occurrence {o : Int}
    (scheduled : o ∈ occurrences Sample.everyMinute "* * * * *") : seconds 60 ∣ o := by
  obtain ⟨after, found⟩ := scheduled
  exact Schedule.next_mem Sample.everyMinute_next found

theorem stopped_run_stays_stopped :
    NoRerun Sample.env 1 (occurrences Sample.everyMinute "* * * * *") (seconds 100)
      (Sample.start.exec Sample.env Sample.stopped) := by
  have along : Along Sample.env (fun _ _ => True) Sample.start Sample.stopped := by decide
  obtain ⟨l, view, shape⟩ := Option.map_eq_some_iff.mp
    (by decide : ((Sample.start.exec Sample.env Sample.stopped).db.view 1).map
      (fun l => (l.task.cron, l.due, l.baseline, l.task.id)) =
      some ("* * * * *", none, seconds 60, 1))
  obtain ⟨l₁, view₁, runs⟩ := Option.map_eq_some_iff.mp
    (by decide : ((Sample.start.exec Sample.env Sample.stopped).db.view 1).map
      (fun l => (l.runs.map Run.finishedAt, runCovers l.runs 1 (some (seconds 60)))) =
      some ([some (seconds 100)], true))
  obtain rfl := Option.some.inj (view.symm.trans view₁)
  simp only [Prod.mk.injEq] at shape runs
  obtain ⟨cron, bare, baseline, id⟩ := shape
  obtain ⟨finished, covered⟩ := runs
  obtain ⟨run, mem, settled⟩ := List.mem_map.mp
    (by rw [finished]; simp : some (seconds 100) ∈ l.runs.map Run.finishedAt)
  have exact : Schedule.IsNext (occurrences Sample.env.trig l.task.cron)
      (nextOccurrence Sample.env.trig l.task.cron) := by
    rw [cron]
    exact Schedule.isNext_answers Sample.everyMinute_next
  have stays := (no_rerun_iff (Sample.exec_reachable along) view exact mem settled bare).mpr
  rw [cron] at stays
  refine stays fun _ => ⟨?_, Or.inl (by rw [id, baseline]; exact covered)⟩
  intro o scheduled later
  rw [cron] at scheduled
  rw [baseline] at later
  obtain ⟨k, rfl⟩ := minutes_of_occurrence scheduled
  simp only [seconds] at later ⊢
  omega

/-- The run the dispatcher starts for the first minute, about to start. -/
def Sample.owing : Service := start.exec env [.tick 1 (seconds 60)]

def Sample.started : Service := owing.next env (.dispatch probe (seconds 61) [stamp 61])

/-- It goes on past the second minute and is cancelled a second later. -/
def Sample.cancelled : Service :=
  started.exec env [.start 1 (seconds 62), .finish 1 .cancelled true {} (seconds 121)]

/-- The tick after the cancel makes a row for the second minute. -/
theorem cancelled_run_comes_back :
    ¬ ∀ (env : Env) (r s t : Service) (a : Nat) (probe : Probe) (now : Int) (stamps : List Stamp)
      (ops : List Op) (row : TaskDue) (l : Ledger) (run : Run) (ended : Int),
      Reachable env r → Step env r (.dispatch probe now stamps) s →
      Starts r.db s.db a row → row.runId = some run.id →
      Trace (fun s op t => Step env s op t ∧ op ≠ .deleteTask a) s ops t →
      t.db.view a = some l →
      Schedule.IsNext (occurrences env.trig l.task.cron) (nextOccurrence env.trig l.task.cron) →
      run ∈ l.runs → run.state = .cancelled → run.finishedAt = some ended → l.due = none →
      NoRerun env a (occurrences env.trig l.task.cron) ended t := by
  intro claim
  have reachable : Reachable Sample.env Sample.owing :=
    Sample.exec_reachable (by decide)
  have along : Along Sample.env (fun _ op => op.isDelete = false) Sample.started
      [.start 1 (seconds 62), .finish 1 .cancelled true {} (seconds 121)] := by decide
  obtain ⟨row, found, shape⟩ := Option.map_eq_some_iff.mp
    (by decide : (Sample.started.db.taskDue.get 1).map (fun row => (row.status, row.runId)) =
      some (.dispatched, some 1))
  simp only [Prod.mk.injEq] at shape
  obtain ⟨l, view, kept⟩ := Option.map_eq_some_iff.mp
    (by decide : (Sample.cancelled.db.view 1).map (fun l => (l.task.cron, l.due, l.baseline)) =
      some ("* * * * *", none, seconds 60))
  obtain ⟨l₁, view₁, runs⟩ := Option.map_eq_some_iff.mp
    (by decide : (Sample.cancelled.db.view 1).map
      (fun l => l.runs.map fun r => (r.id, r.state, r.finishedAt)) =
      some [(1, .cancelled, some (seconds 121))])
  obtain rfl := Option.some.inj (view.symm.trans view₁)
  obtain ⟨l', view', after⟩ := Option.map_eq_some_iff.mp
    (by decide : ((Sample.cancelled.next Sample.env (.tick 1 (seconds 122))).db.view 1).map
      (fun l => (l.due.isSome, l.baseline)) = some (true, seconds 120))
  simp only [Prod.mk.injEq] at kept after
  obtain ⟨cron, bare, baseline⟩ := kept
  obtain ⟨owed, moved⟩ := after
  obtain ⟨run, mem, ended⟩ := List.mem_map.mp
    (by rw [runs]; simp : (1, .cancelled, some (seconds 121)) ∈
      l.runs.map fun r => (r.id, r.state, r.finishedAt))
  simp only [Prod.mk.injEq] at ended
  obtain ⟨id, cancelled, finished⟩ := ended
  have safe := claim Sample.env Sample.owing Sample.started Sample.cancelled 1 Sample.probe
    (seconds 61) [Sample.stamp 61] _ row l run (seconds 121) reachable ⟨by decide, rfl⟩
    ⟨found, shape.1, 1, shape.2, by decide⟩ (by rw [shape.2, id])
    (trace_mono (fun _ op _ step => ⟨step.1, fun same => by simp [same, Op.isDelete] at step⟩)
      (trace_along along)) view
    (by rw [cron]; exact Schedule.isNext_answers Sample.everyMinute_next) mem cancelled finished bare
  have minute : seconds 120 ∈ occurrences Sample.env.trig l.task.cron := by
    rw [cron]
    exact ⟨seconds 60, by decide⟩
  have late := no_rerun_step safe view bare (by decide) rfl view' (Option.isSome_iff_ne_none.mp owed)
    ⟨minute, le_of_eq moved.symm, Or.inl (by rw [baseline]; decide)⟩
  revert late
  decide

end Pullbackup
