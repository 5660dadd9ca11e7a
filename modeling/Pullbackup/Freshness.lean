import Mathlib.Data.Rat.Floor
import Mathlib.Order.WithBot
import Pullbackup.Cadence
import Pullbackup.Library.Numerals
import Pullbackup.Progress

/- services/freshness.py. Spans are seconds, taken as exact; wall is the clock
   that cadence_seconds reads for itself. -/
namespace Pullbackup
open KeyedTable Numerals

inductive KumaStatus where
  | up | down
  deriving DecidableEq, Repr

inductive FreshState where
  | fresh | notYetDue | delayed | stale | disabled
  deriving DecidableEq, Repr

def FreshState.kumaStatus : FreshState → Option KumaStatus
  | .fresh => some .up
  | .notYetDue => none
  | .delayed => none
  | .stale => some .down
  | .disabled => none

inductive FreshReason where
  | covered | noHistory | scheduleChanged | disabled | invalidSchedule
  | neverSucceeded | missed | awaitingStart
  | queued | running | retrying | retriesExhausted | blocked
  | lastAttemptFailed | lastAttemptCancelled
  deriving DecidableEq, Repr

def slackFloorSeconds : ℚ := 600
def slackCeilingSeconds : ℚ := 7200
def slackFraction : ℚ := 1 / 10
def allowanceMultiplier : ℚ := 3 / 2
def durationSamples : Nat := 10
def kumaDstMarginSeconds : ℚ := 3600

def DueStatus.reason : DueStatus → FreshReason
  | .due => .queued
  | .dispatched => .running
  | .retry => .retrying
  | .exhausted => .retriesExhausted
  | .blocked => .blocked

def attemptReason : RunState → Option FreshReason
  | .failed => some .lastAttemptFailed
  | .cancelled => some .lastAttemptCancelled
  | _ => none

structure SuccessInfo where
  runId : Nat
  startedAt : Int
  finishedAt : Int
  deriving DecidableEq, Repr

structure Freshness where
  state : FreshState
  reason : FreshReason
  kumaStatus : Option KumaStatus
  occurrenceAt : Option Int := none
  deadlineAt : Option Int := none
  lastSuccessRunId : Option Nat := none
  lastSuccessStartedAt : Option Int := none
  lastSuccessAt : Option Int := none
  deriving DecidableEq, Repr

def slack (gapSeconds : ℚ) : ℚ :=
  min (max (gapSeconds * slackFraction) slackFloorSeconds) slackCeilingSeconds

def graceSeconds (gapSeconds : ℚ) (durations : List ℚ) : Int :=
  let samples := durations.filter (0 < ·)
  let half := gapSeconds / 2
  let allowance := match samples.max? with
    | none => half
    | some longest => min (allowanceMultiplier * longest) half
  truncate (slack gapSeconds + allowance)

def kumaExpirySeconds (croniter : Croniter) (cron : String) (wall : Int) : Int :=
  let gap : ℚ := cadenceSeconds croniter cron wall
  truncate (gap + slack gap + gap / 2 + kumaDstMarginSeconds)

/-- What explains an owed backup: due_status, active_run and latest_attempt. -/
structure Evidence where
  dueStatus : Option DueStatus := none
  activeRun : Bool := false
  latestAttempt : Option (RunState × Int) := none

def owedReason (occurrence : Int) (e : Evidence) (fallback : FreshReason) : FreshReason :=
  if e.dueStatus = some .blocked then DueStatus.blocked.reason
  else if e.dueStatus = some .exhausted then DueStatus.exhausted.reason
  else if e.activeRun ∨ e.dueStatus = some .dispatched then DueStatus.dispatched.reason
  else if e.dueStatus = some .retry then DueStatus.retry.reason
  else if e.dueStatus = some .due then DueStatus.due.reason
  else
    match e.latestAttempt with
    | none => fallback
    | some (state, startedAt) =>
      match attemptReason state with
      | none => fallback
      | some reason => if occurrence - tickEarlyTolerance ≤ startedAt then reason else fallback

def Freshness.of (lastSuccess : Option SuccessInfo) (state : FreshState) (reason : FreshReason)
    (occurrenceAt deadlineAt : Option Int := none) : Freshness :=
  { state, reason, kumaStatus := state.kumaStatus, occurrenceAt, deadlineAt
    lastSuccessRunId := lastSuccess.map SuccessInfo.runId
    lastSuccessStartedAt := lastSuccess.map SuccessInfo.startedAt
    lastSuccessAt := lastSuccess.map SuccessInfo.finishedAt }

/-- Occurrences up to here are settled: before the epoch, or covered. -/
def settledUntil (epochAt : Int) (lastSuccess : Option SuccessInfo) : Int :=
  match lastSuccess with
  | none => epochAt
  | some success => max epochAt (success.startedAt + tickEarlyTolerance)

/-- The cycle the grace is sized by: the gap after the owed occurrence, and never less than the
    cadence. -/
def nominalGap (trig : Trigger) (croniter : Croniter) (cron : String) (first wall : Int) : ℚ :=
  let spacing : ℚ := match nextOccurrence trig cron first with
    | none => 0
    | some following => ((following - first : Int) : ℚ) / 1000000
  max spacing (cadenceSeconds croniter cron wall)

def deadline (trig : Trigger) (croniter : Croniter) (cron : String) (first : Int)
    (durations : List ℚ) (wall : Int) : Int :=
  first + seconds (graceSeconds (nominalGap trig croniter cron first wall) durations)

def project (trig : Trigger) (croniter : Croniter) (cron : String) (enabled : Bool)
    (now epochAt : Int) (lastSuccess : Option SuccessInfo) (successDurations : List ℚ)
    (evidence : Evidence) (wall : Int) : Freshness :=
  if enabled = false then Freshness.of lastSuccess .disabled .disabled
  else if trig.parses cron = false then Freshness.of lastSuccess .stale .invalidSchedule
  else
    let unowed (upcoming : Option Int) :=
      match lastSuccess with
      | none => Freshness.of none .notYetDue .noHistory
      | some success =>
        if success.startedAt < epochAt then Freshness.of lastSuccess .notYetDue .scheduleChanged
        else Freshness.of lastSuccess .fresh .covered upcoming
    match nextOccurrence trig cron (settledUntil epochAt lastSuccess) with
    | none => unowed none
    | some first =>
      if now < first then unowed (some first)
      else
        let deadline := deadline trig croniter cron first successDurations wall
        let reason := owedReason first evidence
          (if lastSuccess = none then .neverSucceeded else .missed)
        if now ≤ deadline then
          let reason :=
            if reason = .neverSucceeded ∨ reason = .missed then .awaitingStart else reason
          Freshness.of lastSuccess .delayed reason (some first) (some deadline)
        else Freshness.of lastSuccess .stale reason (some first) (some deadline)

/- The loader: project_task and its four queries. -/

def succeeded (taskId : Nat) (r : Run) : Bool := r.taskId = taskId ∧ r.state = .success

/-- SQLite sorts NULL last. -/
def finishOrder (r : Run) : WithBot Int := r.finishedAt

def successes (runs : List Run) (taskId : Nat) : List Run :=
  newestBy finishOrder (succeeded taskId) durationSamples runs

def durationSeconds (r : Run) : ℚ :=
  ((r.finishedAt.getD r.startedAt - r.startedAt : Int) : ℚ) / 1000000

def Run.successInfo (r : Run) : SuccessInfo :=
  ⟨r.id, r.startedAt, r.finishedAt.getD r.startedAt⟩

def evidenceOf (db : Db) (taskId : Nat) : Evidence where
  dueStatus := (db.taskDue.get taskId).map TaskDue.status
  activeRun := db.runs.rows.any fun r => r.taskId = taskId ∧ r.state.active
  latestAttempt :=
    (lastBy Run.startedAt
      (fun r => r.taskId = taskId ∧ (r.state = .failed ∨ r.state = .cancelled))
      db.runs.rows).map fun r => (r.state, r.startedAt)

def Task.epochAt (task : Task) : Int := task.scheduleEpochAt.getD task.createdAt

def projectTask (trig : Trigger) (croniter : Croniter) (db : Db) (task : Task) (now wall : Int) :
    Freshness :=
  let newest := successes db.runs.rows task.id
  project trig croniter task.cron task.enabled now task.epochAt
    (newest.head?.map Run.successInfo) (newest.map durationSeconds) (evidenceOf db task.id) wall

/- What the contract asks for: every occurrence between the epoch and now is
   covered by a success that started no later than a second before it. -/

def IsSuccess (runs : List Run) (taskId : Nat) (r : Run) : Prop :=
  r ∈ runs ∧ r.taskId = taskId ∧ r.state = .success

def Uncovered (occ : Set Int) (runs : List Run) (taskId : Nat) (epoch now : Int) : Set Int :=
  {o | o ∈ occ ∧ epoch < o ∧ o ≤ now ∧
    ∀ r, IsSuccess runs taskId r → r.startedAt < o - tickEarlyTolerance}

def IsNewestSuccess (runs : List Run) (taskId : Nat) (r : Run) : Prop :=
  IsSuccess runs taskId r ∧ ∀ other, IsSuccess runs taskId other → other.startedAt ≤ r.startedAt

def Run.Precedes (a b : Run) : Prop :=
  ∀ ended, a.finishedAt = some ended → ended ≤ b.startedAt ∧
    ∀ ended', b.finishedAt = some ended' → ended < ended'

/-- The successes of a task have run, one after the other. -/
structure SerialSuccesses (runs : List Run) (taskId : Nat) : Prop where
  ran : ∀ r, IsSuccess runs taskId r → ∃ ended, r.finishedAt = some ended ∧ r.startedAt ≤ ended
  inTurn : ∀ a b, IsSuccess runs taskId a → IsSuccess runs taskId b → a ≠ b →
    a.Precedes b ∨ b.Precedes a

/-- The freshness of an enabled task with a schedule that parses. -/
structure CoverageFreshness (occ : Set Int) (runs : List Run) (taskId : Nat) (epoch now : Int)
    (f : Freshness) : Prop where
  owed_iff : (f.state = .delayed ∨ f.state = .stale) ↔
    (Uncovered occ runs taskId epoch now).Nonempty
  earliest : (Uncovered occ runs taskId epoch now).Nonempty → ∃ first deadline,
    IsLeast (Uncovered occ runs taskId epoch now) first ∧ f.occurrenceAt = some first ∧
      f.deadlineAt = some deadline ∧ (f.state = .stale ↔ deadline < now)
  fresh_iff : ¬ (Uncovered occ runs taskId epoch now).Nonempty →
    (f.state = .fresh ↔ ∃ r, IsNewestSuccess runs taskId r ∧ epoch ≤ r.startedAt)
  notYetDue_iff : ¬ (Uncovered occ runs taskId epoch now).Nonempty →
    (f.state = .notYetDue ↔ ¬ ∃ r, IsNewestSuccess runs taskId r ∧ epoch ≤ r.startedAt)

/-- Two answers that differ at most in their reason. -/
structure SameVerdict (f g : Freshness) : Prop where
  state : f.state = g.state
  kumaStatus : f.kumaStatus = g.kumaStatus
  occurrenceAt : f.occurrenceAt = g.occurrenceAt
  deadlineAt : f.deadlineAt = g.deadlineAt
  lastSuccessRunId : f.lastSuccessRunId = g.lastSuccessRunId
  lastSuccessStartedAt : f.lastSuccessStartedAt = g.lastSuccessStartedAt
  lastSuccessAt : f.lastSuccessAt = g.lastSuccessAt

section Project
variable {trig : Trigger} {croniter : Croniter} {cron : String} {now epochAt wall first : Int}
  {lastSuccess : Option SuccessInfo} {durations : List ℚ} {evidence : Evidence}

theorem owed_or_ahead (next : Option Int) (now : Int) :
    (∃ first, next = some first ∧ first ≤ now) ∨ ∀ first, next = some first → now < first := by
  cases next with
  | none =>
    right
    intro first found
    cases found
  | some first =>
    by_cases past : first ≤ now
    · exact Or.inl ⟨first, rfl, past⟩
    · right
      intro other found
      cases found
      exact not_le.mp past

theorem of_sameVerdict (state : FreshState) (reason reason' : FreshReason)
    (occurrenceAt deadlineAt : Option Int) :
    SameVerdict (Freshness.of lastSuccess state reason occurrenceAt deadlineAt)
      (Freshness.of lastSuccess state reason' occurrenceAt deadlineAt) :=
  ⟨rfl, rfl, rfl, rfl, rfl, rfl, rfl⟩

theorem project_owed (parses : trig.parses cron = true)
    (owed : nextOccurrence trig cron (settledUntil epochAt lastSuccess) = some first)
    (past : first ≤ now) :
    ∃ reason, project trig croniter cron true now epochAt lastSuccess durations evidence wall =
      Freshness.of lastSuccess
        (if now ≤ deadline trig croniter cron first durations wall then .delayed else .stale) reason
        (some first) (some (deadline trig croniter cron first durations wall)) := by
  simp only [project, parses, owed, not_lt.mpr past, Bool.true_eq_false, if_false]
  split
  · exact ⟨_, rfl⟩
  · exact ⟨_, rfl⟩

theorem project_unowed (parses : trig.parses cron = true)
    (ahead : ∀ first, nextOccurrence trig cron (settledUntil epochAt lastSuccess) = some first →
      now < first) :
    (project trig croniter cron true now epochAt lastSuccess durations evidence wall).state =
      if ∃ success ∈ lastSuccess, epochAt ≤ success.startedAt then .fresh else .notYetDue := by
  cases lastSuccess with
  | none =>
    cases found : nextOccurrence trig cron (settledUntil epochAt none) with
    | none => simp [project, parses, found, Freshness.of]
    | some first => simp [project, parses, found, ahead first found, Freshness.of]
  | some success =>
    by_cases older : success.startedAt < epochAt
    · cases found : nextOccurrence trig cron (settledUntil epochAt (some success)) with
      | none => simp [project, parses, found, older, Freshness.of]
      | some first => simp [project, parses, found, ahead first found, older, Freshness.of]
    · cases found : nextOccurrence trig cron (settledUntil epochAt (some success)) with
      | none => simp [project, parses, found, older, not_lt.mp older, Freshness.of]
      | some first =>
        simp [project, parses, found, ahead first found, older, not_lt.mp older, Freshness.of]

theorem project_sameVerdict (enabled : Bool) (evidence evidence' : Evidence) :
    SameVerdict
      (project trig croniter cron enabled now epochAt lastSuccess durations evidence wall)
      (project trig croniter cron enabled now epochAt lastSuccess durations evidence' wall) := by
  unfold project
  split
  · exact of_sameVerdict _ _ _ _ _
  split
  · exact of_sameVerdict _ _ _ _ _
  · dsimp only
    split
    · cases lastSuccess with
      | none => exact of_sameVerdict _ _ _ _ _
      | some success => dsimp only; split <;> exact of_sameVerdict _ _ _ _ _
    · split
      · cases lastSuccess with
        | none => exact of_sameVerdict _ _ _ _ _
        | some success => dsimp only; split <;> exact of_sameVerdict _ _ _ _ _
      · split <;> exact of_sameVerdict _ _ _ _ _

end Project

section Loader
variable {runs : List Run} {taskId : Nat} {r : Run}

theorem succeeded_iff : succeeded taskId r = true ↔ r.taskId = taskId ∧ r.state = .success := by
  simp [succeeded]

theorem isSuccess_iff : IsSuccess runs taskId r ↔ r ∈ runs ∧ succeeded taskId r = true := by
  rw [succeeded_iff, IsSuccess]

def Run.activeAt (r : Run) (t : Int) : Prop :=
  r.startedAt ≤ t ∧ ∀ ended, r.finishedAt = some ended → t ≤ ended

theorem serial_of_apart
    (ran : ∀ r, IsSuccess runs taskId r → ∃ ended, r.finishedAt = some ended ∧ r.startedAt ≤ ended)
    (apart : ∀ a b, IsSuccess runs taskId a → IsSuccess runs taskId b → a ≠ b →
      ∀ t, ¬ (a.activeAt t ∧ b.activeAt t)) : SerialSuccesses runs taskId := by
  refine ⟨ran, fun a b sa sb other => ?_⟩
  obtain ⟨fa, endA, ranA⟩ := ran a sa
  obtain ⟨fb, endB, ranB⟩ := ran b sb
  have disjoint := apart a b sa sb other
  simp only [Run.activeAt, endA, endB, Option.some.injEq, forall_eq'] at disjoint
  have first := disjoint fa
  have second := disjoint fb
  simp only [Run.Precedes, endA, endB, Option.some.injEq, forall_eq']
  omega

/-- The runs of the service come in turn, so its successes do unless two of them ended at one
    instant. -/
theorem reachable_serial {env : Env} {s : Service} {l : Ledger} (reachable : Reachable env s)
    (view : s.db.view taskId = some l)
    (untied : ∀ a b, IsSuccess s.db.runs.rows taskId a → IsSuccess s.db.runs.rows taskId b →
      a.finishedAt = b.finishedAt → a = b) : SerialSuccesses s.db.runs.rows taskId := by
  have inTurn := reachable_inTurn reachable view
  have viewed : ∀ r, IsSuccess s.db.runs.rows taskId r → r ∈ l.runs ∧ r.state.active = false := by
    rintro r ⟨mem, owner, success⟩
    exact ⟨(mem_view_runs view).mpr ⟨mem, owner⟩, by simp [success]⟩
  have ran : ∀ r, IsSuccess s.db.runs.rows taskId r →
      ∃ ended, r.finishedAt = some ended ∧ r.startedAt ≤ ended := fun r success =>
    inTurn.stamped r (viewed r success).1 (viewed r success).2
  have precedes : ∀ a b, IsSuccess s.db.runs.rows taskId a → IsSuccess s.db.runs.rows taskId b →
      a ≠ b → a.OverBy b.startedAt → a.Precedes b := by
    intro a b sa sb other done ended finish
    refine ⟨done.2 ended finish, fun ended' finish' => ?_⟩
    obtain ⟨t, stamped, began⟩ := ran b sb
    obtain rfl := Option.some.inj (stamped.symm.trans finish')
    have le : ended ≤ t := (done.2 ended finish).trans began
    have ne : ended ≠ t := by
      rintro rfl
      exact other (untied a b sa sb (finish.trans finish'.symm))
    omega
  refine ⟨ran, fun a b sa sb other => ?_⟩
  have ids : a.id ≠ b.id := fun same => other (Table.key_injective sa.1 sb.1 same)
  rcases inTurn.apart a (viewed a sa).1 b (viewed b sb).1 ids with before | after
  · exact Or.inl (precedes a b sa sb other before)
  · exact Or.inr (precedes b a sb sa (Ne.symm other) after)

/-- Of two successes in turn, the one that ended later started later. -/
theorem started_le_of_finished_le (serial : SerialSuccesses runs taskId) {a b : Run} {fa fb : Int}
    (sa : IsSuccess runs taskId a) (sb : IsSuccess runs taskId b) (endA : a.finishedAt = some fa)
    (endB : b.finishedAt = some fb) (order : fa ≤ fb) : a.startedAt ≤ b.startedAt := by
  obtain ⟨ended, end', ranA⟩ := serial.ran a sa
  obtain rfl : fa = ended := Option.some.inj (endA.symm.trans end')
  by_cases same : a = b
  · rw [same]
  · rcases serial.inTurn a b sa sb same with before | after
    · exact ranA.trans (before fa endA).1
    · have later := (after fb endB).2 fa endA
      omega

theorem finishOrder_untied (serial : SerialSuccesses runs taskId) {a b : Run}
    (sa : IsSuccess runs taskId a) (sb : IsSuccess runs taskId b)
    (tie : finishOrder a = finishOrder b) : a = b := by
  obtain ⟨fa, endA, -⟩ := serial.ran a sa
  obtain ⟨fb, endB, -⟩ := serial.ran b sb
  have ends : fa = fb := by
    rw [finishOrder, finishOrder, endA, endB] at tie
    exact WithBot.coe_injective tie
  by_contra other
  rcases serial.inTurn a b sa sb other with before | after
  · have later := (before fa endA).2 fb endB
    omega
  · have later := (after fb endB).2 fa endA
    omega

theorem successes_head (serial : SerialSuccesses runs taskId) :
    (∃ r, (successes runs taskId).head? = some r ∧ IsNewestSuccess runs taskId r) ∨
      ((successes runs taskId).head? = none ∧ ∀ r, ¬ IsSuccess runs taskId r) := by
  have read : (successes runs taskId).head? = lastBy finishOrder (succeeded taskId) runs :=
    newestBy_head finishOrder (succeeded taskId) (by decide) runs
  rw [read]
  cases found : lastBy finishOrder (succeeded taskId) runs with
  | none =>
    refine Or.inr ⟨rfl, fun r success => ?_⟩
    obtain ⟨mem, holds⟩ := isSuccess_iff.mp success
    simp [lastBy_eq_none_iff.mp found r mem] at holds
  | some r =>
    obtain ⟨mem, holds, last⟩ := lastBy_some found
    have success : IsSuccess runs taskId r := isSuccess_iff.mpr ⟨mem, holds⟩
    refine Or.inl ⟨r, rfl, success, fun other so => ?_⟩
    obtain ⟨mo, ho⟩ := isSuccess_iff.mp so
    obtain ⟨fo, endO, -⟩ := serial.ran other so
    obtain ⟨fr, endR, -⟩ := serial.ran r success
    have order : finishOrder other ≤ finishOrder r := last other mo ho
    rw [finishOrder, finishOrder, endO, endR] at order
    exact started_le_of_finished_le serial so success endO endR (WithBot.coe_le_coe.mp order)

/-- One success and one maximum stand for all the successes. -/
theorem uncovered_iff {occ : Set Int} {epoch now o : Int} (serial : SerialSuccesses runs taskId) :
    o ∈ Uncovered occ runs taskId epoch now ↔
      o ∈ occ ∧ settledUntil epoch ((successes runs taskId).head?.map Run.successInfo) < o ∧
        o ≤ now := by
  rcases successes_head serial with ⟨r, head, success, newest⟩ | ⟨head, no_success⟩
  · simp only [Uncovered, Set.mem_ofPred_eq, head, Option.map_some, settledUntil,
      Run.successInfo, max_lt_iff]
    constructor
    · rintro ⟨scheduled, after, past, uncovered⟩
      have := uncovered r success
      exact ⟨scheduled, ⟨after, by omega⟩, past⟩
    · rintro ⟨scheduled, ⟨after, later⟩, past⟩
      refine ⟨scheduled, after, past, fun other so => ?_⟩
      have := newest other so
      omega
  · simp only [Uncovered, Set.mem_ofPred_eq, head, Option.map_none, settledUntil]
    constructor
    · rintro ⟨scheduled, after, past, -⟩
      exact ⟨scheduled, after, past⟩
    · rintro ⟨scheduled, after, past⟩
      exact ⟨scheduled, after, past, fun r success => absurd success (no_success r)⟩

theorem newest_started_iff {epoch : Int} (serial : SerialSuccesses runs taskId) :
    (∃ success ∈ (successes runs taskId).head?.map Run.successInfo, epoch ≤ success.startedAt) ↔
      ∃ r, IsNewestSuccess runs taskId r ∧ epoch ≤ r.startedAt := by
  rcases successes_head serial with ⟨r, head, newest⟩ | ⟨head, no_success⟩
  · rw [head]
    constructor
    · rintro ⟨info, here, started⟩
      obtain rfl : r.successInfo = info := Option.some.inj here
      exact ⟨r, newest, started⟩
    · rintro ⟨other, newestOther, started⟩
      exact ⟨r.successInfo, rfl, started.trans (newest.2 other newestOther.1)⟩
  · rw [head]
    constructor
    · rintro ⟨info, here, -⟩
      cases here
    · rintro ⟨r, newest, -⟩
      exact absurd newest.1 (no_success r)

theorem successes_congr {runs runs' : List Run} (serial : SerialSuccesses runs taskId)
    (nodup : runs.Nodup) (nodup' : runs'.Nodup)
    (same : ∀ r, r.taskId = taskId → r.state = .success → (r ∈ runs' ↔ r ∈ runs)) :
    successes runs' taskId = successes runs taskId := by
  refine (newestBy_congr durationSamples nodup nodup' (fun r holds => ?_)
    (fun a ma b mb ha hb tie => ?_)).symm
  · obtain ⟨own, state⟩ := succeeded_iff.mp holds
    exact (same r own state).symm
  · exact finishOrder_untied serial (isSuccess_iff.mpr ⟨ma, ha⟩) (isSuccess_iff.mpr ⟨mb, hb⟩) tie

end Loader

section Coverage
variable {trig : Trigger} {croniter : Croniter} {db : Db} {task : Task} {now wall first : Int}
  {occ : Set Int}

def upcomingOccurrence (trig : Trigger) (runs : List Run) (task : Task) : Option Int :=
  nextOccurrence trig task.cron
    (settledUntil task.epochAt ((successes runs task.id).head?.map Run.successInfo))

theorem uncovered_least (serial : SerialSuccesses db.runs.rows task.id)
    (exact : Schedule.IsNext occ (nextOccurrence trig task.cron))
    (owed : upcomingOccurrence trig db.runs.rows task = some first) (past : first ≤ now) :
    IsLeast (Uncovered occ db.runs.rows task.id task.epochAt now) first := by
  constructor
  · exact (uncovered_iff serial).mpr
      ⟨Schedule.next_mem exact owed, Schedule.advances_of_isNext exact _ _ owed, past⟩
  · intro o uncovered
    obtain ⟨scheduled, after, -⟩ := (uncovered_iff serial).mp uncovered
    exact Schedule.next_le exact owed scheduled after

theorem uncovered_empty (serial : SerialSuccesses db.runs.rows task.id)
    (exact : Schedule.IsNext occ (nextOccurrence trig task.cron))
    (ahead : ∀ first, upcomingOccurrence trig db.runs.rows task = some first → now < first) :
    ¬ (Uncovered occ db.runs.rows task.id task.epochAt now).Nonempty := by
  rintro ⟨o, uncovered⟩
  obtain ⟨scheduled, after, past⟩ := (uncovered_iff serial).mp uncovered
  have quiet := Schedule.quiet_of_next exact ahead
  exact absurd past (not_le.mpr (quiet o scheduled after))

theorem projectTask_owed (serial : SerialSuccesses db.runs.rows task.id)
    (enabled : task.enabled = true) (parses : trig.parses task.cron = true)
    (exact : Schedule.IsNext occ (nextOccurrence trig task.cron))
    (owed : upcomingOccurrence trig db.runs.rows task = some first) (past : first ≤ now) :
    CoverageFreshness occ db.runs.rows task.id task.epochAt now
      (projectTask trig croniter db task now wall) := by
  have least : IsLeast (Uncovered occ db.runs.rows task.id task.epochAt now) first :=
    uncovered_least serial exact owed past
  have exists_uncovered : (Uncovered occ db.runs.rows task.id task.epochAt now).Nonempty :=
    ⟨first, least.1⟩
  obtain ⟨reason, projected⟩ : ∃ reason, projectTask trig croniter db task now wall = _ := by
    rw [projectTask, enabled]
    exact project_owed parses owed past
  rw [projected]
  generalize deadline trig croniter task.cron first _ wall = deadline
  refine ⟨⟨fun _ => exists_uncovered, fun _ => ?_⟩, fun _ => ⟨first, deadline, least, rfl, rfl, ?_⟩,
    fun none_uncovered => absurd exists_uncovered none_uncovered,
    fun none_uncovered => absurd exists_uncovered none_uncovered⟩
  · by_cases inside : now ≤ deadline <;> simp [Freshness.of, inside]
  · by_cases inside : now ≤ deadline
    · simp [Freshness.of, inside, not_lt.mpr inside]
    · simp [Freshness.of, inside, not_le.mp inside]

theorem projectTask_unowed (serial : SerialSuccesses db.runs.rows task.id)
    (enabled : task.enabled = true) (parses : trig.parses task.cron = true)
    (exact : Schedule.IsNext occ (nextOccurrence trig task.cron))
    (ahead : ∀ first, upcomingOccurrence trig db.runs.rows task = some first → now < first) :
    CoverageFreshness occ db.runs.rows task.id task.epochAt now
      (projectTask trig croniter db task now wall) := by
  have none_uncovered := uncovered_empty serial exact ahead
  have state : (projectTask trig croniter db task now wall).state =
      if ∃ success ∈ (successes db.runs.rows task.id).head?.map Run.successInfo,
        task.epochAt ≤ success.startedAt then .fresh else .notYetDue := by
    rw [projectTask, enabled]
    exact project_unowed parses ahead
  by_cases started : ∃ r, IsNewestSuccess db.runs.rows task.id r ∧ task.epochAt ≤ r.startedAt
  · rw [if_pos ((newest_started_iff serial).mpr started)] at state
    refine ⟨?_, fun nonempty => absurd nonempty none_uncovered, fun _ => ?_, fun _ => ?_⟩ <;>
      simp [state, started, none_uncovered]
  · rw [if_neg (mt (newest_started_iff serial).mp started)] at state
    refine ⟨?_, fun nonempty => absurd nonempty none_uncovered, fun _ => ?_, fun _ => ?_⟩ <;>
      simp [state, started, none_uncovered]

theorem projectTask_sameVerdict {db db' : Db} (serial : SerialSuccesses db.runs.rows task.id)
    (same : ∀ r, r.taskId = task.id → r.state = .success →
      (r ∈ db'.runs.rows ↔ r ∈ db.runs.rows)) :
    SameVerdict (projectTask trig croniter db task now wall)
      (projectTask trig croniter db' task now wall) := by
  have read : successes db'.runs.rows task.id = successes db.runs.rows task.id :=
    successes_congr serial db.runs.unique.of_map db'.runs.unique.of_map same
  rw [projectTask, projectTask, read]
  exact project_sameVerdict _ _ _

end Coverage

/-- The projection is the coverage of the schedule by the successes, and nothing but the
    successes moves it: the other runs and the due row choose the reason alone. -/
theorem freshness_is_coverage {trig : Trigger} {croniter : Croniter} {db : Db} {task : Task}
    {now wall : Int} (serial : SerialSuccesses db.runs.rows task.id) :
    (∀ occ : Set Int, task.enabled = true → trig.parses task.cron = true →
      Schedule.IsNext occ (nextOccurrence trig task.cron) →
      CoverageFreshness occ db.runs.rows task.id task.epochAt now
        (projectTask trig croniter db task now wall)) ∧
    ∀ db' : Db,
      (∀ r, r.taskId = task.id → r.state = .success →
        (r ∈ db'.runs.rows ↔ r ∈ db.runs.rows)) →
      SameVerdict (projectTask trig croniter db task now wall)
        (projectTask trig croniter db' task now wall) := by
  refine ⟨fun occ enabled parses exact => ?_, fun db' same => projectTask_sameVerdict serial same⟩
  rcases owed_or_ahead (upcomingOccurrence trig db.runs.rows task) now with
    ⟨first, found, past⟩ | ahead
  · exact projectTask_owed serial enabled parses exact found past
  · exact projectTask_unowed serial enabled parses exact ahead

/-- The live job's library, which agrees with the other in UTC. -/
def Sample.trigger : Trigger where
  parses cron := (Sample.calendar cron).isSome
  nextFireTime := Sample.croniter
  shown cron := "'" ++ cron ++ "'"

theorem trigger_isNext (cron : String) :
    Schedule.IsNext (Sample.firings cron) (nextOccurrence Sample.trigger cron) := by
  have same : nextOccurrence Sample.trigger cron = Sample.croniter cron := by
    funext after
    cases found : Sample.croniter cron after with
    | none => simp [nextOccurrence, Sample.trigger, found]
    | some fire =>
      have later := Schedule.advances_of_isNext (croniter_isNext cron) after fire found
      have known : (Sample.calendar cron).isSome := by
        unfold Sample.croniter at found
        split at found
        · cases found
        · rename_i known; simp [known]
      simp [nextOccurrence, Sample.trigger, found, known, not_le.mpr later]
  rw [same]
  exact croniter_isNext cron

def Sample.weekdays : Task :=
  { name := "mail", sourceId := 1, remotePath := "/srv/mail", localPath := "/backup/mail"
    cron := "0 0 * * mon-fri", id := 1, createdAt := Sample.midnight - seconds 172800
    updatedAt := Sample.midnight - seconds 172800 }

def Sample.nightRun (id : Nat) (state : RunState) (startedAt : Int) : Run :=
  { id := id, taskId := 1, state := state, startedAt := startedAt
    finishedAt := some (startedAt + seconds 3600), logFilename := ⟨1, startedAt / 1000000⟩ }

def Sample.week (wednesday : List RunState) : Db :=
  { Db.empty with
    runs := wednesday.foldl
      (fun runs state => runs.put (Sample.nightRun 3 state (Sample.midnight + seconds 86405)))
      ((Table.empty.put (Sample.nightRun 1 .success (Sample.midnight - seconds 86395))).put
        (Sample.nightRun 2 .success (Sample.midnight + seconds 5))) }

theorem week_serial : SerialSuccesses (Sample.week [.failed]).runs.rows 1 := by
  have rows : (Sample.week [.failed]).runs.rows =
      [Sample.nightRun 1 .success (Sample.midnight - seconds 86395),
        Sample.nightRun 2 .success (Sample.midnight + seconds 5),
        Sample.nightRun 3 .failed (Sample.midnight + seconds 86405)] := by decide +kernel
  have two : ∀ r, IsSuccess (Sample.week [.failed]).runs.rows 1 r →
      r = Sample.nightRun 1 .success (Sample.midnight - seconds 86395) ∨
        r = Sample.nightRun 2 .success (Sample.midnight + seconds 5) := by
    rintro r ⟨mem, -, state⟩
    simp only [rows, List.mem_cons, List.not_mem_nil, or_false] at mem
    rcases mem with rfl | rfl | rfl
    · exact Or.inl rfl
    · exact Or.inr rfl
    · cases state
  have ends : ∀ {id : Nat} {startedAt t : Int},
      (Sample.nightRun id .success startedAt).activeAt t →
      startedAt ≤ t ∧ t ≤ startedAt + seconds 3600 := fun active => ⟨active.1, active.2 _ rfl⟩
  refine serial_of_apart (fun r success => ?_) fun a b sa sb other t both => ?_
  · rcases two r success with rfl | rfl
    · exact ⟨_, rfl, by decide⟩
    · exact ⟨_, rfl, by decide⟩
  · rcases two a sa with rfl | rfl <;> rcases two b sb with rfl | rfl
    · exact other rfl
    · have := ends both.1; have := ends both.2
      simp only [seconds] at *
      omega
    · have := ends both.1; have := ends both.2
      simp only [seconds] at *
      omega
    · exact other rfl

def Sample.midweek (wednesday : List RunState) : Freshness :=
  projectTask Sample.trigger Sample.croniter (Sample.week wednesday) Sample.weekdays
    (Sample.midnight + seconds 129600) (Sample.midnight + seconds 129600)

theorem freshness_is_coverage_midweek :
    CoverageFreshness (Sample.firings "0 0 * * mon-fri") (Sample.week [.failed]).runs.rows 1
        (Sample.midnight - seconds 172800) (Sample.midnight + seconds 129600)
        (Sample.midweek [.failed]) ∧
      SameVerdict (Sample.midweek [.failed]) (Sample.midweek []) ∧
      (Sample.midweek [.failed]).state = .stale ∧
      (Sample.midweek [.failed]).occurrenceAt = some (Sample.midnight + seconds 86400) := by
  have spec := @freshness_is_coverage Sample.trigger Sample.croniter (Sample.week [.failed])
    Sample.weekdays (Sample.midnight + seconds 129600) (Sample.midnight + seconds 129600)
    week_serial
  refine ⟨spec.1 _ rfl (by decide) (trigger_isNext _), spec.2 (Sample.week []) fun r _ state => ?_,
    by decide +kernel, by decide +kernel⟩
  have rows : (Sample.week [.failed]).runs.rows = (Sample.week []).runs.rows ++
      [Sample.nightRun 3 .failed (Sample.midnight + seconds 86405)] := by decide +kernel
  simp only [rows, List.mem_append, List.mem_singleton]
  constructor
  · exact Or.inl
  · rintro (here | rfl)
    · exact here
    · cases state

end Pullbackup
