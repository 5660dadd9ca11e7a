import Mathlib.Algebra.Order.Group.Unbundled.Int
import Pullbackup.Due

/- services/cadence.py. It reads the schedule with another library than the live
   job does, and cadence_seconds takes its own reading of the clock (wall). -/
namespace Pullbackup

/-- The next firing after an instant; none where the library raises. -/
abbrev Croniter := String → Int → Option Int

def defaultCadenceSeconds : Int := 3600
def minCadenceSeconds : Int := 60
def minScheduleGraceSeconds : Int := 300
def maxScheduleGraceSeconds : Int := 3600

def wholeSeconds (span : Int) : Int := span.tdiv 1000000

def cadenceSeconds (croniter : Croniter) (cron : String) (wall : Int)
    (fallback : Int := defaultCadenceSeconds) : Int :=
  match croniter cron wall with
  | none => fallback
  | some first =>
    match croniter cron first with
    | none => fallback
    | some second => max (wholeSeconds (second - first)) minCadenceSeconds

def scheduleGraceSeconds (croniter : Croniter) (cron : String) (wall : Int) : Int :=
  let half := cadenceSeconds croniter cron wall / 2
  max minScheduleGraceSeconds (min half maxScheduleGraceSeconds)

/-- Each of its two measurements reads the clock for itself. -/
def scheduleIsMissed (croniter : Croniter) (cron : String) (enabled : Bool)
    (nextRun : Option Int) (hasActiveRun : Bool) (lastActivityAt : Option Int)
    (now graceWall cadenceWall : Int) : Bool :=
  if enabled = false ∨ hasActiveRun then false
  else
    let grace := scheduleGraceSeconds croniter cron graceWall
    let silent := match lastActivityAt with
      | none => false
      | some activity =>
        decide (seconds (cadenceSeconds croniter cron cadenceWall + grace) < now - activity)
    if silent then true
    else
      match nextRun with
      | none => true
      | some run => decide (run < now - seconds grace)

section Cadence
variable {croniter : Croniter} {cron : String} {wall : Int}

theorem scheduleGrace_pos : 0 < scheduleGraceSeconds croniter cron wall := by
  have floor : minScheduleGraceSeconds ≤ scheduleGraceSeconds croniter cron wall := le_max_left _ _
  exact lt_of_lt_of_le (by decide) floor

theorem scheduleIsMissed_ahead {run activity now graceWall cadenceWall : Int} (ahead : now < run) :
    scheduleIsMissed croniter cron true (some run) false (some activity) now graceWall cadenceWall =
      decide (seconds (cadenceSeconds croniter cron cadenceWall +
        scheduleGraceSeconds croniter cron graceWall) < now - activity) := by
  have grace : 0 < scheduleGraceSeconds croniter cron graceWall := scheduleGrace_pos
  have on_time : ¬ run < now - seconds (scheduleGraceSeconds croniter cron graceWall) := by
    unfold seconds
    omega
  simp only [scheduleIsMissed, on_time]
  by_cases silent : seconds (cadenceSeconds croniter cron cadenceWall +
    scheduleGraceSeconds croniter cron graceWall) < now - activity <;> simp [silent]

end Cadence

/-- The silence, in seconds, that a schedule is allowed before its first firing when the firing
    after that one is the second: their distance and half of it, the half kept between five
    minutes and an hour. -/
def allowedSilence (first : Int) (second : Option Int) : Int :=
  let gap := match second with
    | none => 3600
    | some second => max ((second - first) / 1000000) 60
  gap + max 300 (min (gap / 2) 3600)

theorem allowedSilence_eq {croniter : Croniter} {cron : String} {now first : Int}
    (advances : Schedule.Advances (croniter cron)) (next : croniter cron now = some first) :
    cadenceSeconds croniter cron now + scheduleGraceSeconds croniter cron now =
      allowedSilence first (croniter cron first) := by
  cases after : croniter cron first with
  | none =>
    simp only [scheduleGraceSeconds, cadenceSeconds, next, after, allowedSilence]
    decide
  | some second =>
    have forward : 0 ≤ second - first := by
      have := advances first second after
      omega
    have whole : wholeSeconds (second - first) = (second - first) / 1000000 :=
      Int.tdiv_eq_ediv_of_nonneg forward
    simp only [scheduleGraceSeconds, cadenceSeconds, next, after, allowedSilence, whole,
      minCadenceSeconds, minScheduleGraceSeconds, maxScheduleGraceSeconds]

/-- A task whose every occurrence was served stays unflagged as long as its silence is allowed;
    and it does so all the way to its next firing exactly when the gap between the two firings
    is. -/
theorem served_unflagged_iff {croniter : Croniter} {cron : String} {occ : Set Int}
    (exact : Schedule.IsNext occ (croniter cron)) {latest first now : Int}
    (last : IsGreatest {o | o ∈ occ ∧ o ≤ now} latest) (next : croniter cron now = some first) :
    (∀ activity, latest ≤ activity →
      (scheduleIsMissed croniter cron true (some first) false (some activity) now now now = false ↔
        now - activity ≤ seconds (allowedSilence first (croniter cron first)))) ∧
    ((∀ t activity, latest ≤ t → t < first → latest ≤ activity →
        scheduleIsMissed croniter cron true (some first) false (some activity) t t t = false) ↔
      first - latest ≤ seconds (allowedSilence first (croniter cron first)) + 1) := by
  have advances : Schedule.Advances (croniter cron) := Schedule.advances_of_isNext exact
  have decided : ∀ t activity, latest ≤ t → t < first →
      (scheduleIsMissed croniter cron true (some first) false (some activity) t t t = false ↔
        t - activity ≤ seconds (allowedSilence first (croniter cron first))) := by
    intro t activity from_latest before
    -- the clock is read inside the gap, so the code measures the gap after it
    have upcoming : croniter cron t = some first :=
      Schedule.next_of_gap exact last next from_latest before
    rw [scheduleIsMissed_ahead before, allowedSilence_eq advances upcoming, decide_eq_false_iff_not,
      not_lt]
  have ahead : now < first := advances now first next
  refine ⟨fun activity _ => decided now activity last.1.2 ahead, ?_⟩
  constructor
  · intro unflagged
    have gap : latest < first := lt_of_le_of_lt last.1.2 ahead
    have edge := (decided (first - 1) latest (by omega) (by omega)).mp
      (unflagged (first - 1) latest (by omega) (by omega) (le_refl latest))
    omega
  · intro short t activity from_latest before from_activity
    exact (decided t activity from_latest before).mpr (by omega)

def Sample.calendar (cron : String) : Option (Int × List Int) :=
  if cron = "0 0,1 * * *" then some (seconds 86400, [0, seconds 3600])
  else if cron = "0 0 * * mon-fri" then
    some (seconds 604800, [0, seconds 86400, seconds 345600, seconds 432000, seconds 518400])
  else if cron = "0 0 * * sun,mon" then some (seconds 604800, [seconds 259200, seconds 345600])
  else none

def Sample.croniter : Croniter := fun cron after =>
  match Sample.calendar cron with
  | none => none
  | some (period, offsets) => Schedule.periodic period offsets after

def Sample.firings (cron : String) : Set Int :=
  {t | ∃ c ∈ Sample.calendar cron, t % c.1 ∈ c.2}

theorem croniter_isNext (cron : String) :
    Schedule.IsNext (Sample.firings cron) (Sample.croniter cron) := by
  have periodic : ∀ c ∈ Sample.calendar cron, 0 < c.1 ∧ c.2.Pairwise (· < ·) ∧
      ∀ o ∈ c.2, 0 ≤ o ∧ o < c.1 := by
    intro c known
    simp only [Sample.calendar] at known
    split at known
    · cases known; decide
    · split at known
      · cases known; decide
      · split at known
        · cases known; decide
        · cases known
  intro after
  cases known : Sample.calendar cron with
  | none => simp [Sample.croniter, Sample.firings, known]
  | some c =>
    obtain ⟨pos, sorted, inside⟩ := periodic c known
    have spec := Schedule.periodic_isNext pos sorted inside after
    simpa [Sample.croniter, Sample.firings, known] using spec

def Sample.midnight : Int := seconds 1796083200

theorem nightly_latest :
    IsGreatest {o | o ∈ Sample.firings "0 0,1 * * *" ∧ o ≤ Sample.midnight + seconds 43200}
      (Sample.midnight + seconds 3600) := by
  constructor
  · exact ⟨⟨_, rfl, by decide +kernel⟩, by decide +kernel⟩
  · rintro o ⟨⟨c, known, scheduled⟩, past⟩
    obtain rfl : (seconds 86400, [0, seconds 3600]) = c := Option.some.inj known
    simp only [Sample.midnight, seconds, List.mem_cons, List.not_mem_nil, or_false]
      at scheduled past ⊢
    omega

theorem served_unflagged_iff_at_noon :
    ¬ (∀ t activity, Sample.midnight + seconds 3600 ≤ t → t < Sample.midnight + seconds 86400 →
      Sample.midnight + seconds 3600 ≤ activity →
        scheduleIsMissed Sample.croniter "0 0,1 * * *" true
          (some (Sample.midnight + seconds 86400)) false (some activity) t t t = false) := by
  have next : Sample.croniter "0 0,1 * * *" (Sample.midnight + seconds 43200) =
      some (Sample.midnight + seconds 86400) := by decide +kernel
  rw [(served_unflagged_iff (croniter_isNext "0 0,1 * * *") nightly_latest next).2]
  decide +kernel

/-- Both firings of the night served, and flagged at noon. -/
theorem served_flagged_at_noon :
    ∃ (croniter : Croniter) (cron : String) (occ : Set Int) (latest first now : Int),
      Schedule.IsNext occ (croniter cron) ∧ IsGreatest {o | o ∈ occ ∧ o ≤ now} latest ∧
      croniter cron now = some first ∧
      scheduleIsMissed croniter cron true (some first) false (some latest) now now now = true :=
  ⟨Sample.croniter, "0 0,1 * * *", Sample.firings "0 0,1 * * *",
    Sample.midnight + seconds 3600, Sample.midnight + seconds 86400,
    Sample.midnight + seconds 43200, croniter_isNext _, nightly_latest, by decide +kernel,
    by decide +kernel⟩

end Pullbackup
