import Pullbackup.Service
import Pullbackup.View

/- reconcile_task as a scan of the schedule: what it leaves behind the watermark and what it
   owes for the occurrences it passed. -/
namespace Pullbackup
open Schedule

/-- The watermark stands between the old one and the present, with nothing due after it. -/
structure Ledger.CaughtUp (occ : Set Int) (w now : Int) (l : Ledger) (w' : Int) : Prop where
  stored : l.task.scheduleBaselineAt = some w'
  kept : w ≤ w'
  past : w' ≤ now
  quiet : Quiet occ w' now

section Scan
variable {trig : Trigger} {l : Ledger} {occ : Set Int} {now first : Int}

theorem keep_caughtUp (exact : IsNext occ (nextOccurrence trig l.task.cron))
    (past : l.baseline ≤ now) (owes : l.owes trig now = none) :
    l.keep.CaughtUp occ l.baseline now l.baseline := by
  refine ⟨(keep_baseline l).1, le_refl _, past, quiet_of_next exact ?_⟩
  intro o next
  exact owes_none owes next

/-- The walk ends on an occurrence that is the last one, or at the present. -/
theorem fold_caughtUp (exact : IsNext occ (nextOccurrence trig l.task.cron))
    (owes : l.owes trig now = some first) :
    (l.fold trig first now).CaughtUp occ l.baseline now
      (latestOccurrence trig l.task.cron first now) := by
  obtain ⟨next, inside⟩ := owes_some owes
  have later : l.baseline < first := nextOccurrence_advances trig l.task.cron _ _ next
  have bounds := latestOccurrence_bounds trig l.task.cron inside
  exact ⟨rfl, by omega, bounds.2, walk_quiet exact now maxOccurrenceScan first⟩

theorem scan_caughtUp (exact : IsNext occ (nextOccurrence trig l.task.cron))
    (past : l.baseline ≤ now) : ∃ w', (l.scan trig now).CaughtUp occ l.baseline now w' := by
  unfold Ledger.scan
  cases owes : l.owes trig now with
  | none => exact ⟨l.baseline, keep_caughtUp exact past owes⟩
  | some first => exact ⟨_, fold_caughtUp exact owes⟩

theorem owes_iff (exact : IsNext occ (nextOccurrence trig l.task.cron)) :
    (∃ first, l.owes trig now = some first) ↔ ∃ o ∈ occ, l.baseline < o ∧ o ≤ now := by
  constructor
  · rintro ⟨first, owes⟩
    obtain ⟨next, inside⟩ := owes_some owes
    exact ⟨first, next_mem exact next, nextOccurrence_advances trig l.task.cron _ _ next, inside⟩
  · rintro ⟨o, mem, later, inside⟩
    cases owes : l.owes trig now with
    | some first => exact ⟨first, rfl⟩
    | none =>
      have quiet : Quiet occ l.baseline now :=
        quiet_of_next exact fun first next => owes_none owes next
      have ahead := quiet o mem later
      omega

theorem fold_row (trig : Trigger) (l : Ledger) (first now : Int) :
    ∃ row, (l.fold trig first now).due = some row ∧ (l.due = none → row.dueAt = first) := by
  refine ⟨_, by rw [fold_eq], fun bare => ?_⟩
  rw [foldRow, bare]

theorem reconcileOne_caughtUp (exact : IsNext occ (nextOccurrence trig l.task.cron))
    (enabled : l.task.enabled = true) (readable : trig.parses l.task.cron = true)
    (past : l.baseline ≤ now) : ∃ w', (reconcileOne trig l now).CaughtUp occ l.baseline now w' := by
  have exact' : IsNext occ (nextOccurrence trig (l.settle now).task.cron) := exact
  rw [reconcileOne_eq]
  simp only [enabled, readable, Bool.true_eq_false, if_false]
  exact scan_caughtUp exact' past

/-- The schedule scan misses nothing. -/
theorem reconcile_misses_nothing (exact : IsNext occ (nextOccurrence trig l.task.cron))
    (enabled : l.task.enabled = true) (readable : trig.parses l.task.cron = true)
    (past : l.baseline ≤ now) :
    (∃ w', (reconcileTask trig (Session.begin l) now).1.work.CaughtUp occ l.baseline now w') ∧
    ((∃ o ∈ occ, l.baseline < o ∧ o ≤ now) →
      ∃ first row, IsLeast {o | o ∈ occ ∧ l.baseline < o} first ∧
        (reconcileTask trig (Session.begin l) now).2 = some row ∧
        (reconcileTask trig (Session.begin l) now).1.stored.due = some row ∧
        (reconcileTask trig (Session.begin l) now).1.stored =
          (reconcileTask trig (Session.begin l) now).1.work ∧
        (l.due = none → row.dueAt = first)) := by
  -- a settlement leaves the task and so the watermark
  have settled : (l.settle now).baseline = l.baseline := rfl
  have exact' : IsNext occ (nextOccurrence trig (l.settle now).task.cron) := exact
  rw [reconcileTask_scan enabled readable]
  constructor
  · exact scan_caughtUp exact' past
  · intro missed
    obtain ⟨first, owes⟩ := (owes_iff exact').mpr missed
    obtain ⟨row, owed, fresh⟩ := fold_row trig (l.settle now) first now
    have folded : (l.settle now).scan trig now = (l.settle now).fold trig first now := by
      rw [Ledger.scan, owes]
    have least : IsLeast {o | o ∈ occ ∧ l.baseline < o} first := by
      have answer := exact l.baseline
      have next : nextOccurrence trig l.task.cron l.baseline = some first := (owes_some owes).1
      rw [next] at answer
      exact answer
    rw [owes, folded]
    refine ⟨first, row, least, owed, owed, rfl, fun bare => fresh ?_⟩
    rw [settle_of_none bare, bare]

end Scan

def Sample.behind : Ledger := ⟨Sample.task, none, []⟩

theorem three_minutes_missed :
    (∃ w', (reconcileTask Sample.everyMinute (Session.begin Sample.behind)
        (seconds 185)).1.work.CaughtUp Sample.minutes 0 (seconds 185) w') ∧
    ∃ row, (reconcileTask Sample.everyMinute (Session.begin Sample.behind)
        (seconds 185)).2 = some row ∧ row.dueAt = seconds 60 := by
  obtain ⟨caught, missed⟩ := @reconcile_misses_nothing _ Sample.behind _ (seconds 185)
    Sample.everyMinute_next rfl (by decide) (by decide)
  refine ⟨caught, ?_⟩
  obtain ⟨first, row, least, returned, -, -, fresh⟩ :=
    missed ⟨seconds 60, ⟨1, by decide⟩, by decide, by decide⟩
  have sixty : IsLeast {o | o ∈ Sample.minutes ∧ (0 : Int) < o} (seconds 60) :=
    Sample.everyMinute_next 0
  exact ⟨row, returned, (fresh rfl).trans (least.unique sixty)⟩

end Pullbackup
