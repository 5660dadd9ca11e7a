import Pullbackup.Lifecycle

/- What the destination keys, the permits and the source locks guarantee of all
   the executions of a process at once. -/
namespace Pullbackup
open KeyedTable Asyncio History

/-- The key of e, one permit and the lock of its source belong to e. -/
structure Owns (p : Process) (e : Nat) (locals : Locals) : Prop where
  key : p.activeDestinations.get e = some ⟨e, locals.key⟩
  permit : e ∈ p.globalSem.holders
  source : (p.sourceLocks locals.task.sourceId).holder = some e

structure OwnsNothing (p : Process) (e : Nat) : Prop where
  key : p.activeDestinations.get e = none
  permit : e ∉ p.globalSem.holders
  source : ∀ s, (p.sourceLocks s).holder ≠ some e
  notification : p.destinationCv.waiters.get e = none
  permitQueue : p.globalSem.waiters.get e = none
  sourceQueue : ∀ s, (p.sourceLocks s).waiters.get e = none

def Phase.unfinished : Phase → Bool
  | .created _ | .suspended _ _ _ => true
  | .absent | .ended => false

def World.idle : World := ⟨0, .ok [], .unfinished, {}⟩

def Enabled (limits : Limits) (p : Process) (e : Nat) : Prop :=
  ∃ w q, p.step limits (.resume e w) = some q

section Positions
variable {limits : Limits} {p : Process} {e : Nat}

theorem inside_owns {work : Work} {locals : Locals} {cancelled : Bool}
    (standing : Standing limits p) (phase : p.phase e = .suspended (.work work) locals cancelled) :
    Owns p e locals := by
  obtain ⟨resources, -, -⟩ := standing
  have key := resources.claims e
  have permit := resources.permits.holders e
  have source := (resources.sources locals.task.sourceId).holder e
  simp only [phase, Phase.position, Position.key, Position.holdsPermit, Position.holdsSource]
    at key permit source
  obtain ⟨claim, found, named⟩ := Option.map_eq_some_iff.mp key
  have holder : claim.holder = e := Table.key_of_get found
  constructor
  · rw [found, ← holder, ← named]
  · exact permit.mpr trivial
  · exact source.mpr (by simp)

theorem outside_ownsNothing (standing : Standing limits p)
    (position : (p.phase e).position = .outside) : OwnsNothing p e := by
  obtain ⟨resources, -, -⟩ := standing
  have key := resources.claims e
  have permit := resources.permits.holders e
  have notification := resources.notices e
  have permitQueue := resources.permits.waits e
  simp only [position, Position.key, Position.holdsPermit, Position.awaitsKey,
    Position.awaitsPermit] at key permit notification permitQueue
  constructor
  · simpa using key
  · simp [permit]
  · intro s held
    have source := ((resources.sources s).holder e).mp held
    simp [position, Position.holdsSource] at source
  · exact notification
  · exact permitQueue
  · intro s
    have sourceQueue := (resources.sources s).waits e
    simpa [position, Position.awaitsSource, Awaits] using sourceQueue

theorem ready_resumes {q : Waiters Nat} {cancelled : Bool} (ready : Ready q e)
    (waits : Awaits q e (some cancelled)) : cancelled = true ∨ woken q e = true := by
  obtain ⟨v, found, settled⟩ := ready
  obtain ⟨v', found', marked, -⟩ := waits
  rw [found] at found'
  cases found'
  cases future : v.future with
  | pending => exact absurd future settled
  | done => exact Or.inr (woken_iff.mpr ⟨v, found, future⟩)
  | cancelled => exact Or.inl (marked future)

theorem enabled_of_resume (w : World) (nonempty : (resume limits p e w).isSome = true) :
    Enabled limits p e := by
  obtain ⟨q, resumed⟩ := Option.isSome_iff_exists.mp nonempty
  exact ⟨w, q, resumed⟩

theorem work_enabled {work : Work} {locals : Locals} {cancelled : Bool}
    (phase : p.phase e = .suspended (.work work) locals cancelled) : Enabled limits p e := by
  obtain ⟨w, q, resumed⟩ := resumeWork_enabled limits p e locals cancelled work
  exact ⟨w, q, by simpa [Process.step, resume, phase, resumeAwait] using resumed⟩

theorem holds_source_enabled {s : Nat} (holds : (p.phase e).position.holdsSource s = true) :
    Enabled limits p e := by
  cases phase : p.phase e with
  | suspended await locals cancelled =>
    cases await with
    | work work => exact work_enabled phase
    | _ => simp [phase, Phase.position, Position.holdsSource] at holds
  | _ => simp [phase, Phase.position, Position.holdsSource] at holds

theorem ready_permit_enabled (standing : Standing limits p)
    (awaits : ((p.phase e).position.awaitsPermit).isSome = true)
    (ready : Ready p.globalSem.waiters e) : Enabled limits p e := by
  have waits := standing.1.permits.waits e
  cases phase : p.phase e with
  | suspended await locals cancelled =>
    cases await with
    | permit =>
      simp only [phase, Phase.position, Position.awaitsPermit] at waits
      apply enabled_of_resume World.idle
      rcases ready_resumes ready waits with interrupted | done
      · simp [resume, phase, resumeAwait, interrupted]
      · cases cancelled <;> simp [resume, phase, resumeAwait, done]
    | _ => simp [phase, Phase.position, Position.awaitsPermit] at awaits
  | _ => simp [phase, Phase.position, Position.awaitsPermit] at awaits

theorem ready_source_enabled {s : Nat} (standing : Standing limits p)
    (awaits : ((p.phase e).position.awaitsSource s).isSome = true)
    (ready : Ready (p.sourceLocks s).waiters e) : Enabled limits p e := by
  have waits := (standing.1.sources s).waits e
  cases phase : p.phase e with
  | suspended await locals cancelled =>
    cases await with
    | sourceLock =>
      simp only [phase, Phase.position, Position.awaitsSource] at waits awaits
      split at awaits
      · rename_i here
        rw [if_pos here] at waits
        subst here
        apply enabled_of_resume World.idle
        rcases ready_resumes ready waits with interrupted | done
        · simp [resume, phase, resumeAwait, interrupted]
        · cases cancelled <;> simp [resume, phase, resumeAwait, done]
      · cases awaits
    | _ => simp [phase, Phase.position, Position.awaitsSource] at awaits
  | _ => simp [phase, Phase.position, Position.awaitsSource] at awaits

theorem awaits_source_progress {s : Nat} (standing : Standing limits p)
    (awaits : ((p.phase e).position.awaitsSource s).isSome = true) :
    ∃ i, Enabled limits p i := by
  obtain ⟨cancelled, here⟩ := Option.isSome_iff_exists.mp awaits
  obtain ⟨i, holds | ⟨waiting, ready⟩⟩ := Lock.tracks_live (standing.1.sources s) (t := e) here
  · exact ⟨i, holds_source_enabled holds⟩
  · exact ⟨i, ready_source_enabled standing waiting ready⟩

/-- Whoever holds a permit is in its body or waits for the lock of its source. -/
theorem holds_permit_progress (standing : Standing limits p)
    (holds : (p.phase e).position.holdsPermit = true) : ∃ i, Enabled limits p i := by
  cases phase : p.phase e with
  | suspended await locals cancelled =>
    cases await with
    | work work => exact ⟨e, work_enabled phase⟩
    | sourceLock =>
      exact awaits_source_progress (s := locals.task.sourceId) (e := e) standing
        (by simp [phase, Phase.position, Position.awaitsSource])
    | _ => simp [phase, Phase.position, Position.holdsPermit] at holds
  | _ => simp [phase, Phase.position, Position.holdsPermit] at holds

theorem awaits_permit_progress (standing : Standing limits p)
    (awaits : ((p.phase e).position.awaitsPermit).isSome = true) : ∃ i, Enabled limits p i := by
  obtain ⟨cancelled, here⟩ := Option.isSome_iff_exists.mp awaits
  obtain ⟨i, holds | ⟨waiting, ready⟩⟩ :=
    Semaphore.tracks_live standing.1.permits limits.startsOne (t := e) here
  · exact holds_permit_progress standing holds
  · exact ⟨i, ready_permit_enabled standing waiting ready⟩

/-- Whoever has a key is past the wait for it, and never at it again. -/
theorem key_progress (standing : Standing limits p) {key : DestKey}
    (keyed : (p.phase e).position.key = some key) : ∃ i, Enabled limits p i := by
  cases phase : p.phase e with
  | suspended await locals cancelled =>
    cases await with
    | work work => exact ⟨e, work_enabled phase⟩
    | sourceLock =>
      exact holds_permit_progress (e := e) standing
        (by simp [phase, Phase.position, Position.holdsPermit])
    | permit =>
      exact awaits_permit_progress (e := e) standing
        (by simp [phase, Phase.position, Position.awaitsPermit])
    | _ => simp [phase, Phase.position, Position.key] at keyed
  | _ => simp [phase, Phase.position, Position.key] at keyed

theorem notification_progress {locals : Locals} {cancelled : Bool} (standing : Standing limits p)
    (phase : p.phase e = .suspended .notification locals cancelled) : ∃ i, Enabled limits p i := by
  have waits := standing.1.notices e
  simp only [phase, Phase.position, Position.awaitsKey] at waits
  obtain ⟨v, found, -⟩ := id waits
  by_cases pending : v.future = .pending
  · have busy := standing.1.blocked e locals.key cancelled v (by simp [phase, Phase.position]) found
      pending
    obtain ⟨held, mem, -, -⟩ := busy_iff.mp busy
    have claim : p.activeDestinations.get held.holder = some held := Table.get_of_mem mem
    have keyed := standing.1.claims held.holder
    rw [claim] at keyed
    exact key_progress standing keyed.symm
  · refine ⟨e, enabled_of_resume World.idle ?_⟩
    rcases ready_resumes ⟨v, found, pending⟩ waits with interrupted | done
    · simp [resume, phase, resumeAwait, interrupted]
    · simp [resume, phase, resumeAwait, done]

theorem unfinished_progress (standing : Standing limits p)
    (unfinished : (p.phase e).unfinished = true) : ∃ i, Enabled limits p i := by
  have uncontended := standing.2.2 e
  cases phase : p.phase e with
  | absent => simp [phase, Phase.unfinished] at unfinished
  | ended => simp [phase, Phase.unfinished] at unfinished
  | created cancelled =>
    refine ⟨e, enabled_of_resume World.idle ?_⟩
    cases cancelled <;> simp [resume, phase]
  | suspended await locals cancelled =>
    rw [phase] at uncontended
    cases await with
    | conditionLock => exact uncontended.elim
    | conditionLockAgain before => exact uncontended.elim
    | conditionLockToFree exit => exact uncontended.elim
    | notification => exact notification_progress standing phase
    | permit =>
      exact awaits_permit_progress (e := e) standing
        (by simp [phase, Phase.position, Position.awaitsPermit])
    | sourceLock =>
      exact awaits_source_progress (s := locals.task.sourceId) (e := e) standing
        (by simp [phase, Phase.position, Position.awaitsSource])
    | work work => exact ⟨e, work_enabled phase⟩

end Positions

theorem running_row {limits : Limits} {p : Process} (reachable : ReachableFrom limits p) {e : Nat}
    (running : (p.db.runs.get e).map Run.state = some .running) :
    ∃ work locals cancelled, p.phase e = .suspended (.work work) locals cancelled := by
  have inBody := (reachable_fits reachable e).running.mp running
  cases phase : p.phase e with
  | suspended await locals cancelled =>
    cases await with
    | work work => exact ⟨work, locals, cancelled, rfl⟩
    | _ => simp [phase, Phase.inBody] at inBody
  | _ => simp [phase, Phase.inBody] at inBody

theorem keys_apart {limits : Limits} {p : Process} (standing : Standing limits p) {c d : Claim}
    (mc : c ∈ p.activeDestinations.rows) (md : d ∈ p.activeDestinations.rows)
    (differ : c.holder ≠ d.holder) : ¬ c.key <+: d.key ∧ ¬ d.key <+: c.key := by
  have apart := standing.1.apart c mc d md differ
  have diverge : ¬ (c.key <+: d.key ∨ d.key <+: c.key) := by
    rw [← conflicts_iff, apart]
    simp
  exact not_or.mp diverge

/-- The keys in use diverge; a run whose row is running owns its key, a permit and the lock of
    its source, so that no more run than there are permits; an execution that has ended owns
    nothing; no permit is lost; and no reachable state with an unfinished execution is stuck. -/
theorem execution_exclusion {limits : Limits} {p : Process}
    (reachable : ReachableFrom limits p) :
    (∀ c ∈ p.activeDestinations.rows, ∀ d ∈ p.activeDestinations.rows, c ≠ d →
      ¬ c.key <+: d.key ∧ ¬ d.key <+: c.key) ∧
    (∀ e, (p.db.runs.get e).map Run.state = some .running → ∃ work locals cancelled,
      p.phase e = .suspended (.work work) locals cancelled ∧ Owns p e locals) ∧
    (∀ es : List Nat, es.Nodup →
      (∀ e ∈ es, (p.db.runs.get e).map Run.state = some .running) →
        es.length ≤ limits.maxConcurrentRuns) ∧
    (∀ e, p.phase e = .ended → OwnsNothing p e) ∧
    (p.globalSem.value + p.globalSem.holders.length + p.globalSem.granted =
      limits.maxConcurrentRuns) ∧
    ((∃ e, (p.phase e).unfinished = true) →
      ∃ e w q, p.step limits (.resume e w) = some q) := by
  have standing := reachable_standing reachable
  have owns : ∀ e, (p.db.runs.get e).map Run.state = some .running → ∃ work locals cancelled,
      p.phase e = .suspended (.work work) locals cancelled ∧ Owns p e locals := by
    intro e running
    obtain ⟨work, locals, cancelled, phase⟩ := running_row reachable running
    exact ⟨work, locals, cancelled, phase, inside_owns standing phase⟩
  refine ⟨?_, owns, ?_, ?_, standing.1.permits.counted.permits, ?_⟩
  · intro c mc d md differ
    exact keys_apart standing mc md fun same => differ (Table.key_injective mc md same)
  · intro es unique all
    apply Semaphore.tracks_bound standing.1.permits unique
    intro e mem
    obtain ⟨-, locals, -, -, own⟩ := owns e (all e mem)
    exact (standing.1.permits.holders e).mp own.permit
  · intro e ended
    exact outside_ownsNothing standing (by rw [ended]; rfl)
  · rintro ⟨e, unfinished⟩
    exact unfinished_progress standing unfinished

def Sample.nested : Service :=
  (Service.init 0).exec env
    [.createSource source 0, .createSource { source with name := "attic" } 0,
      .createTask fields 0,
      .createTask { fields with name := "raw", sourceId := 2, localPath := "/backup/photos/raw" } 0]

def Sample.below (second : Int) (event : Event) : World :=
  ⟨seconds second, .ok ["fs", "/", "backup", "photos", "raw"], event, {}⟩

def Sample.overlapping : List Act :=
  [.admission 1 (stamp 70), .admission 2 (stamp 70), .start 1, .start 2,
    .resume 1 (world 71 .unfinished), .resume 2 (below 72 .unfinished)]

theorem nested_run_waits :
    ∃ p, (Process.init Sample.limits Sample.nested.db 0).exec Sample.limits Sample.overlapping =
        some p ∧ p.activeDestinations.rows.length = 1 ∧ (p.phase 2).unfinished = true ∧
      (∃ work locals cancelled, p.phase 1 = .suspended (.work work) locals cancelled ∧
        Owns p 1 locals) ∧
      ∃ e w q, p.step Sample.limits (.resume e w) = some q := by
  have state : ((Process.init Sample.limits Sample.nested.db 0).exec Sample.limits
      Sample.overlapping).map (fun p => (p.activeDestinations.rows.length, (p.phase 2).unfinished,
        (p.db.runs.get 1).map Run.state)) = some (1, true, some .running) := by
    decide +kernel
  obtain ⟨p, done, seen⟩ := Option.map_eq_some_iff.mp state
  simp only [Prod.mk.injEq] at seen
  obtain ⟨claims, waiting, running⟩ := seen
  have exclusion := execution_exclusion
    ⟨Sample.nested.db, 0, Sample.overlapping, trace_exec done⟩
  exact ⟨p, done, claims, waiting, exclusion.2.1 1 running, exclusion.2.2.2.2.2 ⟨2, waiting⟩⟩

end Pullbackup
