import Mathlib.Tactic.NormNum
import Mathlib.Tactic.Push
import Pullbackup.Freshness

/- The deadline that project reports moves with the clock that cadence_seconds reads,
   and the expiry of a Kuma monitor is sized by the gap in which it was configured.
   Both compare grace over two cycles of one schedule. -/
namespace Pullbackup
open Numerals

/-- Five fields of an expression name a minute, for either library. -/
structure WholeMinutes (trig : Trigger) (croniter : Croniter) (cron : String) : Prop where
  live : ∀ after fire, trig.nextFireTime cron after = some fire → seconds 60 ∣ fire
  other : ∀ after fire, croniter cron after = some fire → seconds 60 ∣ fire

def slackOfMinutes (k : Int) : Int := min (max (6 * k) 600) 7200

section Grace
variable {trig : Trigger} {croniter : Croniter} {cron : String} {wall first : Int}
  {durations : List ℚ}

def longestSample (durations : List ℚ) : Option ℚ := (durations.filter (0 < ·)).max?

theorem longestSample_some {longest : ℚ} (h : longestSample durations = some longest) :
    longest ∈ durations ∧ 0 < longest ∧ ∀ d ∈ durations, 0 < d → d ≤ longest := by
  obtain ⟨mem, greatest⟩ := List.max?_eq_some_iff.mp h
  obtain ⟨sample, pos⟩ := List.mem_filter.mp mem
  refine ⟨sample, by simpa using pos, fun d md pd => greatest d ?_⟩
  exact List.mem_filter.mpr ⟨md, by simpa using pd⟩

theorem longestSample_none (h : longestSample durations = none) : ∀ d ∈ durations, ¬ 0 < d := by
  rw [longestSample, List.max?_eq_none_iff, List.filter_eq_nil_iff] at h
  intro d md
  simpa using h d md

theorem slack_minutes (k : Int) : slack ((60 * k : Int) : ℚ) = (slackOfMinutes k : ℚ) := by
  have tenth : ((60 * k : Int) : ℚ) * (1 / 10) = ((6 * k : Int) : ℚ) := by
    push_cast
    ring
  simp only [slack, slackFraction, slackFloorSeconds, slackCeilingSeconds, slackOfMinutes, tenth]
  push_cast
  rfl

theorem graceSeconds_minutes {k : Int} (nonneg : 0 ≤ k) :
    graceSeconds ((60 * k : Int) : ℚ) durations =
      slackOfMinutes k +
        match longestSample durations with
        | none => 30 * k
        | some longest => min ⌊allowanceMultiplier * longest⌋ (30 * k) := by
  have half : ((60 * k : Int) : ℚ) / 2 = ((30 * k : Int) : ℚ) := by
    push_cast
    ring
  have slack_nonneg : 0 ≤ slackOfMinutes k := by
    unfold slackOfMinutes
    omega
  have half_nonneg : (0 : ℚ) ≤ ((30 * k : Int) : ℚ) := by
    exact_mod_cast (by omega : 0 ≤ 30 * k)
  have slack_cast : (0 : ℚ) ≤ (slackOfMinutes k : ℚ) := by exact_mod_cast slack_nonneg
  rw [graceSeconds, slack_minutes, half]
  change truncate (_ + match longestSample durations with
    | none => _
    | some longest => _) = _
  cases sample : longestSample durations with
  | none =>
    rw [truncate_intCast_add (add_nonneg slack_cast half_nonneg), Int.floor_intCast]
  | some longest =>
    have pos : 0 < longest := (longestSample_some sample).2.1
    have allowance : (0 : ℚ) ≤ min (allowanceMultiplier * longest) ((30 * k : Int) : ℚ) := by
      refine le_min (mul_nonneg ?_ (le_of_lt pos)) half_nonneg
      norm_num [allowanceMultiplier]
    rw [truncate_intCast_add (add_nonneg slack_cast allowance), Int.floor_mono.map_min,
      Int.floor_intCast]

theorem cadence_minutes (whole : WholeMinutes trig croniter cron) :
    ∃ k : Int, 1 ≤ k ∧ cadenceSeconds croniter cron wall = 60 * k := by
  unfold cadenceSeconds
  split
  · exact ⟨60, by decide, by decide⟩
  · rename_i first found
    split
    · exact ⟨60, by decide, by decide⟩
    · rename_i second after
      obtain ⟨m, span⟩ := Int.dvd_sub (whole.other _ _ after) (whole.other _ _ found)
      have measured : wholeSeconds (second - first) = 60 * m := by
        rw [span, wholeSeconds, seconds,
          (by omega : 60 * 1000000 * m = 60 * m * 1000000), Int.mul_tdiv_cancel _ (by decide)]
      refine ⟨max m 1, le_max_right _ _, ?_⟩
      rw [measured, minCadenceSeconds]
      omega

theorem nextOccurrence_minutes (whole : WholeMinutes trig croniter cron) {after fire : Int}
    (found : nextOccurrence trig cron after = some fire) : seconds 60 ∣ fire := by
  unfold nextOccurrence at found
  split at found
  · split at found
    · cases found
    · rename_i answer
      split at found
      · cases found
      · exact whole.live after fire (by rw [answer, found])
  · cases found

theorem nominalGap_minutes (whole : WholeMinutes trig croniter cron)
    (scheduled : seconds 60 ∣ first) :
    ∃ k : Int, 1 ≤ k ∧ nominalGap trig croniter cron first wall = ((60 * k : Int) : ℚ) := by
  obtain ⟨c, least, cadence⟩ : ∃ c : Int, 1 ≤ c ∧ cadenceSeconds croniter cron wall = 60 * c :=
    cadence_minutes whole
  unfold nominalGap
  rw [cadence]
  cases found : nextOccurrence trig cron first with
  | none =>
    have nonneg : (0 : ℚ) ≤ ((60 * c : Int) : ℚ) := by exact_mod_cast (by omega : 0 ≤ 60 * c)
    exact ⟨c, least, max_eq_right nonneg⟩
  | some following =>
    obtain ⟨m, span⟩ := Int.dvd_sub (nextOccurrence_minutes whole found) scheduled
    have spacing : ((following - first : Int) : ℚ) / 1000000 = ((60 * m : Int) : ℚ) := by
      rw [span, seconds]
      push_cast
      ring
    refine ⟨max m c, le_trans least (le_max_right _ _), ?_⟩
    simp only [spacing]
    rw [← Int.cast_max]
    congr 1
    omega

/-- There is a history, and a multiple of each of its durations stays below the bound. -/
def ShortRuns (durations : List ℚ) (bound : ℚ) : Prop :=
  (∃ d ∈ durations, 0 < d) ∧ ∀ d ∈ durations, 3 * d < bound

theorem shortRuns_iff (n : Int) :
    ShortRuns durations (2 * n + 2) ↔
      ∃ longest, longestSample durations = some longest ∧ ⌊allowanceMultiplier * longest⌋ ≤ n := by
  have floor_le : ∀ d : ℚ, ⌊allowanceMultiplier * d⌋ ≤ n ↔ 3 * d < 2 * n + 2 := by
    intro d
    rw [← Int.lt_add_one_iff, Int.floor_lt, allowanceMultiplier]
    push_cast
    constructor <;> intro <;> linarith
  cases sample : longestSample durations with
  | none =>
    constructor
    · rintro ⟨⟨d, md, pos⟩, -⟩
      exact absurd pos (longestSample_none sample d md)
    · rintro ⟨longest, found, -⟩
      cases found
  | some longest =>
    obtain ⟨mem, pos, greatest⟩ := longestSample_some sample
    constructor
    · rintro ⟨-, short⟩
      exact ⟨longest, rfl, (floor_le longest).mpr (short longest mem)⟩
    · rintro ⟨found, same, short⟩
      obtain rfl := Option.some.inj same
      have bound := (floor_le longest).mp short
      refine ⟨⟨longest, mem, pos⟩, fun d md => ?_⟩
      by_cases positive : 0 < d
      · linarith [greatest d md positive]
      · linarith

end Grace

/- What two instants of one debt say. -/

def Freshness.Owed (f : Freshness) : Prop := f.state = .delayed ∨ f.state = .stale

structure StaleSticks (f g : Freshness) : Prop where
  stale : f.state = .stale → g.state = .stale
  deadlineAt : f.Owed → g.Owed → f.occurrenceAt = g.occurrenceAt → f.deadlineAt = g.deadlineAt

/-- Two cycles, in seconds, with one grace: they are one, or the slack is at the same end of its
    range for both and the allowance is that of the runs. -/
def SteadyCycle (gap gap' : ℚ) (durations : List ℚ) : Prop :=
  gap = gap' ∨
    ((gap ≤ 6000 ∧ gap' ≤ 6000) ∨ (72000 ≤ gap ∧ 72000 ≤ gap')) ∧
      ShortRuns durations (min gap gap' + 2)

section Deadline
variable {trig : Trigger} {croniter : Croniter} {cron : String} {now epochAt wall first : Int}
  {lastSuccess : Option SuccessInfo} {durations : List ℚ} {evidence : Evidence}

theorem steadyCycle_iff {k k' : Int} (pos : 1 ≤ k) (pos' : 1 ≤ k') :
    SteadyCycle ((60 * k : Int) : ℚ) ((60 * k' : Int) : ℚ) durations ↔
      graceSeconds ((60 * k : Int) : ℚ) durations = graceSeconds ((60 * k' : Int) : ℚ) durations := by
  have bound : min ((60 * k : Int) : ℚ) ((60 * k' : Int) : ℚ) + 2 =
      2 * ((30 * min k k' : Int) : ℚ) + 2 := by
    rw [← Int.cast_min, (by omega : min (60 * k) (60 * k') = 2 * (30 * min k k'))]
    push_cast
    ring
  have short : (∀ n : Int, ((60 * n : Int) : ℚ) ≤ 6000 ↔ n ≤ 100) := by
    intro n
    constructor
    · intro le
      have : 60 * n ≤ 6000 := by exact_mod_cast le
      omega
    · intro le
      exact_mod_cast (by omega : 60 * n ≤ 6000)
  have long : (∀ n : Int, 72000 ≤ ((60 * n : Int) : ℚ) ↔ 1200 ≤ n) := by
    intro n
    constructor
    · intro le
      have : 72000 ≤ 60 * n := by exact_mod_cast le
      omega
    · intro le
      exact_mod_cast (by omega : 72000 ≤ 60 * n)
  rw [SteadyCycle, bound, shortRuns_iff, short, short, long, long, Int.cast_inj,
    graceSeconds_minutes (by omega), graceSeconds_minutes (by omega)]
  cases longestSample durations with
  | none =>
    simp only [slackOfMinutes, reduceCtorEq, false_and, exists_false, and_false, or_false]
    omega
  | some longest =>
    simp only [slackOfMinutes, Option.some.injEq, exists_eq_left']
    omega

theorem project_deadlineAt (croniter : Croniter) (durations : List ℚ) (evidence : Evidence)
    (wall : Int) (parses : trig.parses cron = true)
    (owed : nextOccurrence trig cron (settledUntil epochAt lastSuccess) = some first)
    (past : first ≤ now) :
    let f := project trig croniter cron true now epochAt lastSuccess durations evidence wall
    let d := deadline trig croniter cron first durations wall
    f.Owed ∧ f.occurrenceAt = some first ∧ f.deadlineAt = some d ∧ (f.state = .stale ↔ d < now) := by
  obtain ⟨reason, projected⟩ :
      ∃ reason, project trig croniter cron true now epochAt lastSuccess durations evidence wall = _ :=
    project_owed parses owed past
  dsimp only
  rw [projected]
  by_cases inside : now ≤ deadline trig croniter cron first durations wall
  · simp [Freshness.of, Freshness.Owed, inside, not_lt.mpr inside]
  · simp [Freshness.of, Freshness.Owed, inside, not_le.mp inside]

theorem project_not_owed (croniter : Croniter) (durations : List ℚ) (evidence : Evidence)
    (wall : Int) (parses : trig.parses cron = true)
    (ahead : ∀ first, nextOccurrence trig cron (settledUntil epochAt lastSuccess) = some first →
      now < first) :
    ¬ (project trig croniter cron true now epochAt lastSuccess durations evidence wall).Owed := by
  unfold Freshness.Owed
  rw [project_unowed parses ahead]
  split <;> simp

end Deadline

/-- A stale task stays stale until a success, and its deadline where it is, exactly when the two
    clocks show cycles of one grace. -/
theorem stale_sticks_iff {trig : Trigger} {croniter : Croniter} {cron : String}
    {epochAt t₁ t₂ : Int} {lastSuccess : Option SuccessInfo} {durations : List ℚ}
    {evidence : Evidence} (parses : trig.parses cron = true)
    (whole : WholeMinutes trig croniter cron) (order : t₁ ≤ t₂) :
    StaleSticks
        (project trig croniter cron true t₁ epochAt lastSuccess durations evidence t₁)
        (project trig croniter cron true t₂ epochAt lastSuccess durations evidence t₂) ↔
      ∀ first, nextOccurrence trig cron (settledUntil epochAt lastSuccess) = some first →
        first ≤ t₁ →
        SteadyCycle (nominalGap trig croniter cron first t₁)
          (nominalGap trig croniter cron first t₂) durations := by
  rcases owed_or_ahead (nextOccurrence trig cron (settledUntil epochAt lastSuccess)) t₁ with
    ⟨first, found, past⟩ | ahead
  · have scheduled : seconds 60 ∣ first := nextOccurrence_minutes whole found
    obtain ⟨k, pos, gap⟩ : ∃ k : Int, 1 ≤ k ∧ nominalGap trig croniter cron first t₁ = _ :=
      nominalGap_minutes whole scheduled
    obtain ⟨k', pos', gap'⟩ : ∃ k : Int, 1 ≤ k ∧ nominalGap trig croniter cron first t₂ = _ :=
      nominalGap_minutes whole scheduled
    have steady : SteadyCycle (nominalGap trig croniter cron first t₁)
        (nominalGap trig croniter cron first t₂) durations ↔
        deadline trig croniter cron first durations t₁ =
          deadline trig croniter cron first durations t₂ := by
      rw [deadline, deadline, gap, gap', steadyCycle_iff pos pos']
      unfold seconds
      omega
    obtain ⟨owed₁, occ₁, dead₁, stale₁⟩ :=
      project_deadlineAt croniter durations evidence t₁ parses found past
    obtain ⟨owed₂, occ₂, dead₂, stale₂⟩ :=
      project_deadlineAt croniter durations evidence t₂ parses found (past.trans order)
    constructor
    · intro sticks first' found' _
      obtain rfl : first = first' := Option.some.inj (found.symm.trans found')
      have same := sticks.deadlineAt owed₁ owed₂ (occ₁.trans occ₂.symm)
      rw [dead₁, dead₂] at same
      exact steady.mpr (Option.some.inj same)
    · intro cycles
      have same := steady.mp (cycles first found past)
      refine ⟨fun stale => stale₂.mpr ?_, fun _ _ _ => by rw [dead₁, dead₂, same]⟩
      rw [← same]
      exact (stale₁.mp stale).trans_le order
  · have quiet := project_not_owed croniter durations evidence t₁ parses ahead
    constructor
    · intro _ first found past
      exact absurd past (not_le.mpr (ahead first found))
    · intro _
      exact ⟨fun stale => absurd (Or.inr stale) quiet, fun owed => absurd owed quiet⟩

theorem sample_minutes (cron : String) : WholeMinutes Sample.trigger Sample.croniter cron := by
  have fires : ∀ after fire, Sample.croniter cron after = some fire → seconds 60 ∣ fire := by
    intro after fire found
    obtain ⟨c, known, offset⟩ := Schedule.next_mem (croniter_isNext cron) found
    have whole : seconds 60 ∣ c.1 ∧ ∀ o ∈ c.2, seconds 60 ∣ o := by
      simp only [Sample.calendar] at known
      split at known
      · cases known; decide
      · split at known
        · cases known; decide
        · split at known
          · cases known; decide
          · cases known
    have shape := Int.mul_ediv_add_emod fire c.1
    rw [← shape]
    exact dvd_add (whole.1.mul_right _) (whole.2 _ offset)
  exact ⟨fires, fires⟩

/-- Owed since a Wednesday midnight: three in the afternoon of that day, and Thursday noon, when
    the next two firings are the two ends of a weekend. -/
def Sample.wednesday (second : Int) : Freshness :=
  project Sample.trigger Sample.croniter "0 0 * * mon-fri" true
    (Sample.midnight + seconds second) (Sample.midnight + seconds 43200) none [] {}
    (Sample.midnight + seconds second)

theorem stale_sticks_same_day : StaleSticks (Sample.wednesday 140400) (Sample.wednesday 144000) := by
  refine (stale_sticks_iff (by decide) (sample_minutes _) (by decide)).mpr fun first found _ => ?_
  have owed : nextOccurrence Sample.trigger "0 0 * * mon-fri"
      (settledUntil (Sample.midnight + seconds 43200) none) =
      some (Sample.midnight + seconds 86400) := by decide +kernel
  obtain rfl := Option.some.inj (owed.symm.trans found)
  exact Or.inl (by decide +kernel)

theorem stale_until_the_weekend :
    ∃ (trig : Trigger) (croniter : Croniter) (cron : String) (occ : Set Int)
      (epochAt t₁ t₂ : Int),
      trig.parses cron = true ∧ Schedule.IsNext occ (nextOccurrence trig cron) ∧ t₁ ≤ t₂ ∧
      (project trig croniter cron true t₁ epochAt none [] {} t₁).state = .stale ∧
      (project trig croniter cron true t₂ epochAt none [] {} t₂).state = .delayed ∧
      (project trig croniter cron true t₁ epochAt none [] {} t₁).occurrenceAt =
        (project trig croniter cron true t₂ epochAt none [] {} t₂).occurrenceAt ∧
      (project trig croniter cron true t₁ epochAt none [] {} t₁).deadlineAt ≠
        (project trig croniter cron true t₂ epochAt none [] {} t₂).deadlineAt :=
  ⟨Sample.trigger, Sample.croniter, "0 0 * * mon-fri", Sample.firings "0 0 * * mon-fri",
    Sample.midnight + seconds 43200, Sample.midnight + seconds 140400,
    Sample.midnight + seconds 216000, by decide, trigger_isNext _, by decide, by decide +kernel,
    by decide +kernel, by decide +kernel, by decide +kernel⟩

/- kuma_expiry_seconds is to hold the largest grace that the projection can grant. -/

def sweepIntervalSeconds : Int := 300

/-- The longest cycle after an owed occurrence whose grace fits the expiry of a monitor that was
    configured in a cycle of the given cadence, whatever the runs took. -/
def widestGap (cadence : ℚ) : ℚ :=
  if cadence ≤ 6000 then (5 * cadence + 13000) / 2
  else if 2 * cadence ≤ 49875 then (8 * cadence + 16500) / 3
  else if cadence ≤ 72000 then (16 * cadence - 39000) / 5
  else 3 * cadence + 6600

/-- The cycle is not too wide, or the runs are short enough for the difference. -/
def FitsExpiry (cadence gap : ℚ) (durations : List ℚ) : Prop :=
  gap ≤ widestGap cadence ∨
    ShortRuns durations (3 * cadence + 2 * slack cadence - 2 * slack gap + 6602)

section Expiry
variable {trig : Trigger} {croniter : Croniter} {cron : String} {now epochAt wall first : Int}
  {durations : List ℚ}

theorem kumaExpiry_minutes {c : Int}
    (cadence : cadenceSeconds croniter cron wall = 60 * c) :
    kumaExpirySeconds croniter cron wall = 90 * c + slackOfMinutes c + 3600 := by
  have total : ((60 * c : Int) : ℚ) + (slackOfMinutes c : ℚ) + ((60 * c : Int) : ℚ) / 2 +
      kumaDstMarginSeconds = ((90 * c + slackOfMinutes c + 3600 : Int) : ℚ) := by
    rw [kumaDstMarginSeconds]
    push_cast
    ring
  rw [kumaExpirySeconds, cadence, slack_minutes]
  exact (congrArg truncate total).trans (truncate_intCast _)

theorem le_widestGap_iff {c g : Int} (pos : 1 ≤ c) (pos' : 1 ≤ g) :
    ((60 * g : Int) : ℚ) ≤ widestGap ((60 * c : Int) : ℚ) ↔
      slackOfMinutes g + 30 * g ≤ 90 * c + slackOfMinutes c + 3300 := by
  have scale : ∀ m n : Int, (m : ℚ) ≤ (n : ℚ) ↔ m ≤ n := fun m n => Int.cast_le
  have least : ((60 * c : Int) : ℚ) ≤ 6000 ↔ 60 * c ≤ 6000 := by exact_mod_cast scale (60 * c) 6000
  have middle : 2 * ((60 * c : Int) : ℚ) ≤ 49875 ↔ 2 * (60 * c) ≤ 49875 := by
    exact_mod_cast scale (2 * (60 * c)) 49875
  have greatest : ((60 * c : Int) : ℚ) ≤ 72000 ↔ 60 * c ≤ 72000 := by
    exact_mod_cast scale (60 * c) 72000
  unfold widestGap slackOfMinutes
  split
  · rename_i range
    rw [least] at range
    have piece : ((60 * g : Int) : ℚ) ≤ (5 * ((60 * c : Int) : ℚ) + 13000) / 2 ↔
        2 * (60 * g) ≤ 5 * (60 * c) + 13000 := by
      rw [le_div_iff₀ (by norm_num), mul_comm]
      exact_mod_cast scale (2 * (60 * g)) (5 * (60 * c) + 13000)
    rw [piece]
    omega
  · split
    · rename_i above range
      rw [least] at above
      rw [middle] at range
      have piece : ((60 * g : Int) : ℚ) ≤ (8 * ((60 * c : Int) : ℚ) + 16500) / 3 ↔
          3 * (60 * g) ≤ 8 * (60 * c) + 16500 := by
        rw [le_div_iff₀ (by norm_num), mul_comm]
        exact_mod_cast scale (3 * (60 * g)) (8 * (60 * c) + 16500)
      rw [piece]
      omega
    · split
      · rename_i _ above range
        rw [middle] at above
        rw [greatest] at range
        have piece : ((60 * g : Int) : ℚ) ≤ (16 * ((60 * c : Int) : ℚ) - 39000) / 5 ↔
            5 * (60 * g) ≤ 16 * (60 * c) - 39000 := by
          rw [le_div_iff₀ (by norm_num), mul_comm]
          exact_mod_cast scale (5 * (60 * g)) (16 * (60 * c) - 39000)
        rw [piece]
        omega
      · rename_i _ _ above
        rw [greatest] at above
        have piece : ((60 * g : Int) : ℚ) ≤ 3 * ((60 * c : Int) : ℚ) + 6600 ↔
            60 * g ≤ 3 * (60 * c) + 6600 := by
          exact_mod_cast scale (60 * g) (3 * (60 * c) + 6600)
        rw [piece]
        omega

theorem fitsExpiry_iff {c g : Int} (pos : 1 ≤ c) (pos' : 1 ≤ g) :
    FitsExpiry ((60 * c : Int) : ℚ) ((60 * g : Int) : ℚ) durations ↔
      graceSeconds ((60 * g : Int) : ℚ) durations + sweepIntervalSeconds ≤
        90 * c + slackOfMinutes c + 3600 := by
  have bound : 3 * ((60 * c : Int) : ℚ) + 2 * (slackOfMinutes c : ℚ) - 2 * (slackOfMinutes g : ℚ) +
      6602 = 2 * ((90 * c + slackOfMinutes c - slackOfMinutes g + 3300 : Int) : ℚ) + 2 := by
    push_cast
    ring
  rw [FitsExpiry, le_widestGap_iff pos pos', slack_minutes, slack_minutes, bound, shortRuns_iff,
    graceSeconds_minutes (by omega), sweepIntervalSeconds]
  cases longestSample durations with
  | none =>
    simp only [reduceCtorEq, false_and, exists_false, or_false]
    omega
  | some longest =>
    simp only [Option.some.injEq, exists_eq_left']
    omega

end Expiry

/-- A monitor outlasts the grace of an owed occurrence, and a sweep more, exactly when the cycle
    that is owed fits the cycle that the monitor was configured in. -/
theorem expiry_outlasts_grace_iff {trig : Trigger} {croniter : Croniter} {cron : String}
    {epochAt t₀ t₁ : Int} {lastSuccess : Option SuccessInfo} {durations : List ℚ}
    {evidence : Evidence} (parses : trig.parses cron = true)
    (whole : WholeMinutes trig croniter cron) :
    (∀ occurrence deadline,
        (project trig croniter cron true t₁ epochAt lastSuccess durations evidence t₁).Owed →
        (project trig croniter cron true t₁ epochAt lastSuccess durations evidence t₁).occurrenceAt =
          some occurrence →
        (project trig croniter cron true t₁ epochAt lastSuccess durations evidence t₁).deadlineAt =
          some deadline →
        deadline - occurrence + seconds sweepIntervalSeconds ≤
          seconds (kumaExpirySeconds croniter cron t₀)) ↔
      ∀ first, nextOccurrence trig cron (settledUntil epochAt lastSuccess) = some first →
        first ≤ t₁ →
        FitsExpiry (cadenceSeconds croniter cron t₀) (nominalGap trig croniter cron first t₁)
          durations := by
  obtain ⟨c, pos, cadence⟩ : ∃ c : Int, 1 ≤ c ∧ cadenceSeconds croniter cron t₀ = 60 * c :=
    cadence_minutes whole
  rw [kumaExpiry_minutes cadence, cadence]
  rcases owed_or_ahead (nextOccurrence trig cron (settledUntil epochAt lastSuccess)) t₁ with
    ⟨first, found, past⟩ | ahead
  · obtain ⟨g, pos', gap⟩ : ∃ g : Int, 1 ≤ g ∧ nominalGap trig croniter cron first t₁ = _ :=
      nominalGap_minutes whole (nextOccurrence_minutes whole found)
    obtain ⟨owed, occ, dead, -⟩ := project_deadlineAt croniter durations evidence t₁ parses found past
    have fits : FitsExpiry ((60 * c : Int) : ℚ) ((60 * g : Int) : ℚ) durations ↔ _ :=
      fitsExpiry_iff pos pos'
    rw [← gap] at fits
    constructor
    · intro outlasts first' found' _
      obtain rfl : first = first' := Option.some.inj (found.symm.trans found')
      have room := outlasts _ _ owed occ dead
      rw [fits]
      simp only [deadline, seconds] at room
      omega
    · intro cycles occurrence deadlineAt _ occ' dead'
      obtain rfl : first = occurrence := Option.some.inj (occ.symm.trans occ')
      obtain rfl := Option.some.inj (dead.symm.trans dead')
      have room := fits.mp (cycles first found past)
      simp only [deadline, seconds]
      omega
  · have quiet := project_not_owed croniter durations evidence t₁ parses ahead
    constructor
    · intro _ first found past
      exact absurd past (not_le.mpr (ahead first found))
    · intro _ _ _ owed
      exact absurd owed quiet

def Sample.saturday : Int := Sample.midnight + seconds 345600
def Sample.tuesday : Int := Sample.midnight + seconds 604800

def Sample.overdue (durations : List ℚ) : Freshness :=
  project Sample.trigger Sample.croniter "0 0 * * sun,mon" true Sample.tuesday
    (Sample.tuesday - seconds 129600) none durations {} Sample.tuesday

theorem expiry_outlasts_short_runs :
    ∃ occurrence deadline, (Sample.overdue [3600]).Owed ∧
      (Sample.overdue [3600]).occurrenceAt = some occurrence ∧
      (Sample.overdue [3600]).deadlineAt = some deadline ∧
      deadline - occurrence + seconds sweepIntervalSeconds ≤
        seconds (kumaExpirySeconds Sample.croniter "0 0 * * sun,mon" Sample.saturday) := by
  have owed : (Sample.overdue [3600]).Owed := Or.inr (by decide +kernel)
  have occurrence : (Sample.overdue [3600]).occurrenceAt =
      some (Sample.tuesday - seconds 86400) := by decide +kernel
  have deadline : (Sample.overdue [3600]).deadlineAt =
      some (Sample.tuesday - seconds 73800) := by decide +kernel
  refine ⟨_, _, owed, occurrence, deadline, ?_⟩
  refine (expiry_outlasts_grace_iff (by decide) (sample_minutes _)).mpr (fun first found _ => ?_)
    _ _ owed occurrence deadline
  have next : nextOccurrence Sample.trigger "0 0 * * sun,mon"
      (settledUntil (Sample.tuesday - seconds 129600) none) =
      some (Sample.tuesday - seconds 86400) := by decide +kernel
  obtain rfl := Option.some.inj (next.symm.trans found)
  exact Or.inr ⟨by decide +kernel, by decide +kernel⟩

theorem expiry_before_stale :
    ∃ (trig : Trigger) (croniter : Croniter) (cron : String) (occ : Set Int)
      (epochAt t₀ t₁ occurrence deadline : Int),
      trig.parses cron = true ∧ Schedule.IsNext occ (nextOccurrence trig cron) ∧ t₀ ≤ t₁ ∧
      (project trig croniter cron true t₁ epochAt none [] {} t₁).state = .delayed ∧
      (project trig croniter cron true t₁ epochAt none [] {} t₁).occurrenceAt = some occurrence ∧
      (project trig croniter cron true t₁ epochAt none [] {} t₁).deadlineAt = some deadline ∧
      seconds (kumaExpirySeconds croniter cron t₀) <
        deadline - occurrence + seconds sweepIntervalSeconds :=
  ⟨Sample.trigger, Sample.croniter, "0 0 * * sun,mon", Sample.firings "0 0 * * sun,mon",
    Sample.tuesday - seconds 129600, Sample.saturday, Sample.tuesday,
    Sample.tuesday - seconds 86400, Sample.tuesday + seconds 180000, by decide, trigger_isNext _,
    by decide, by decide +kernel, by decide +kernel, by decide +kernel, by decide +kernel⟩

end Pullbackup
