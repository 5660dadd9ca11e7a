import Pullbackup.Resources
import Pullbackup.Service

/- The life of a run under every interleaving of its execution, of the requests
   to cancel it, of a shutdown and of the watchdog. The row is written by its
   owner, who is in the map of owners exactly while it can write. -/
namespace Pullbackup
open KeyedTable Asyncio History

/-- The database was changed by transactions of the service and nothing else. -/
def Transacted (db db' : Db) : Prop :=
  ∃ ops : List Op, ∀ env, db' = ops.foldl (fun db op => apply env op db) db

theorem transacted_refl (db : Db) : Transacted db db := ⟨[], fun _ => rfl⟩

theorem transacted_one {db db' : Db} (op : Op) (applied : ∀ env, db' = apply env op db) :
    Transacted db db' := ⟨[op], applied⟩

theorem transacted_trans {a b c : Db} (first : Transacted a b) (second : Transacted b c) :
    Transacted a c := by
  obtain ⟨ops, done⟩ := first
  obtain ⟨more, thereafter⟩ := second
  refine ⟨ops ++ more, fun env => ?_⟩
  rw [List.foldl_append, ← done env, ← thereafter env]

def Turn (requested : Bool) (old new : Option Run) : Prop :=
  new = old ∨ ∃ run run', old = some run ∧ new = some run' ∧ run.state.active = true ∧
    (run'.state = .cancelled → requested = true)

theorem turn_trans {requested : Bool} {a b c : Option Run} (first : Turn requested a b)
    (second : Turn requested b c) : Turn requested a c := by
  rcases first with rfl | ⟨run, run', old, new, active, honest⟩
  · exact second
  · rcases second with rfl | ⟨-, run'', -, last, -, honest'⟩
    · exact Or.inr ⟨run, run', old, new, active, honest⟩
    · exact Or.inr ⟨run, run'', old, last, active, honest'⟩

/-- Transactions of the owner of e: they write no other row. -/
structure OwnRow (e : Nat) (requested : Bool) (db db' : Db) : Prop where
  rows : ∀ i, i ≠ e → db'.runs.get i = db.runs.get i
  row : Turn requested (db.runs.get e) (db'.runs.get e)
  service : Transacted db db'

theorem ownRow_refl (e : Nat) (requested : Bool) (db : Db) : OwnRow e requested db db :=
  ⟨fun _ _ => rfl, Or.inl rfl, transacted_refl db⟩

theorem ownRow_trans {e : Nat} {requested : Bool} {a b c : Db} (first : OwnRow e requested a b)
    (second : OwnRow e requested b c) : OwnRow e requested a c :=
  ⟨fun i other => (second.rows i other).trans (first.rows i other), turn_trans first.row second.row,
    transacted_trans first.service second.service⟩

theorem ownRow_put {db : Db} {e : Nat} {run : Run} (requested : Bool) (db' : Db) (run' : Run)
    (found : db.runs.get e = some run) (active : run.state.active = true) (same : run'.id = run.id)
    (honest : run'.state = .cancelled → requested = true) (runs : db'.runs = db.runs.put run')
    (service : Transacted db db') :
    OwnRow e requested db db' ∧ db'.runs.get e = some run' := by
  have id : run.id = e := Table.key_of_get found
  have new : db'.runs.get e = some run' := by rw [runs, Table.get_put]; simp [same, id]
  refine ⟨⟨fun i other => ?_, Or.inr ⟨run, run', found, new, active, honest⟩, service⟩, new⟩
  rw [runs, Table.get_put_ne]
  simpa [same, id] using Ne.symm other

theorem startRun_own {db db' : Db} {e : Nat} {now : Int} (requested : Bool)
    (started : startRun db e now = .ok db') :
    OwnRow e requested db db' ∧ (db'.runs.get e).map Run.state = some .running := by
  have service : Transacted db db' :=
    transacted_one (.start e now) fun env => by simp only [apply, started, Db.orElse]
  unfold startRun at started
  split at started
  · cases started
  · rename_i run found
    split at started
    · cases started
    · rename_i pending
      cases started
      have own := ownRow_put requested { db with
          runs := db.runs.put { run with state := .running, startedAt := now } }
        { run with state := .running, startedAt := now } found (by rw [not_not.mp pending]; rfl) rfl
        (by simp) rfl service
      exact ⟨own.1, by rw [own.2]; rfl⟩

theorem terminalizeOwnedRun_own (db : Db) (e : Nat) (reason : OwnerExit) (requested : Bool)
    (now : Int) :
    OwnRow e requested db (terminalizeOwnedRun db e reason.message requested now).1 ∧
      ((terminalizeOwnedRun db e reason.message requested now).1.runs.get e).map Run.state ≠
        some .running := by
  have service : Transacted db (terminalizeOwnedRun db e reason.message requested now).1 :=
    transacted_one (.abandon e reason requested now) fun _ => rfl
  unfold terminalizeOwnedRun at service ⊢
  split
  · rename_i missing
    exact ⟨ownRow_refl e requested db, by simp [missing]⟩
  · rename_i run found
    simp only [found] at service
    split
    · rename_i active
      simp only [active, if_true] at service
      by_cases cancelled : reason.message = "run cancelled" ∧ requested = true
      · simp only [if_pos cancelled] at service ⊢
        have own := ownRow_put requested { db with
            runs := db.runs.put { run.failed reason.message now with state := .cancelled } }
          { run.failed reason.message now with state := .cancelled } found active rfl
          (fun _ => cancelled.2) rfl service
        exact ⟨own.1, by rw [own.2]; simp⟩
      · simp only [if_neg cancelled] at service ⊢
        have own := ownRow_put requested { db with runs := db.runs.put (run.failed reason.message now) }
          (run.failed reason.message now) found active rfl (by simp [Run.failed]) rfl service
        exact ⟨own.1, by rw [own.2]; simp [Run.failed]⟩
    · rename_i inactive
      refine ⟨ownRow_refl e requested db, ?_⟩
      rw [found, Option.map_some, ne_eq, Option.some.injEq]
      rintro running
      rw [running] at inactive
      exact inactive rfl

theorem finishRun_own {db : Db} {e : Nat} (running : (db.runs.get e).map Run.state = some .running)
    (ending : Ending) (requested : Bool) (stats : Stats) (now : Int) :
    OwnRow e requested db (finishRun db e ending requested stats now) ∧
      ((finishRun db e ending requested stats now).runs.get e).map Run.state ≠ some .running := by
  obtain ⟨run, found, state⟩ := Option.map_eq_some_iff.mp running
  have service : Transacted db (finishRun db e ending requested stats now) :=
    transacted_one (.finish e ending requested stats now) fun env => by
      simp [apply, found, state]
  have runs : (finishRun db e ending requested stats now).runs =
      db.runs.put (run.terminal ending requested stats now) := by
    simp only [finishRun, found]
    split <;> rfl
  have honest : (ending.state requested = .cancelled → requested = true) ∧
      ending.state requested ≠ .running := by
    cases ending with
    | exited code =>
      simp only [Ending.state]
      split <;> simp
    | cancelled => cases requested <;> simp [Ending.state]
    | timedOut after => simp [Ending.state]
  obtain ⟨own, new⟩ := ownRow_put requested _ (run.terminal ending requested stats now) found
    (by rw [state]; rfl) rfl honest.1 runs service
  refine ⟨own, ?_⟩
  rw [new, Option.map_some, ne_eq, Option.some.injEq]
  exact honest.2

def Phase.executing : Phase → Bool
  | .suspended _ _ _ => true
  | _ => false

def Phase.inBody : Phase → Bool
  | .suspended (.work _) _ _ => true
  | _ => false

/-- The part of the process that no lock, key or permit concerns. -/
structure Records where
  db : Db
  owners : Table RunOwner
  phase : Nat → Phase
  calls : List Nat
  results : List CancelResult

def Process.records (p : Process) : Records :=
  ⟨p.db, p.runOwners, p.phase, p.cancelCalls, p.cancelResults⟩

def Records.requested (r : Records) (e : Nat) : Bool :=
  (r.owners.get e).any fun owner => owner.cancelRequested

/-- Owners are the executions that have begun, and rows run for those in their body. -/
structure Fits (db : Db) (owners : Table RunOwner) (phase : Nat → Phase) (e : Nat) : Prop where
  executing : (owners.get e).isSome = true ↔ (phase e).executing = true
  running : (db.runs.get e).map Run.state = some .running ↔ (phase e).inBody = true

/-- What a step of the execution e does to the records. -/
structure Serves (e : Nat) (r s : Records) : Prop where
  own : OwnRow e (r.requested e) r.db s.db
  owners : ∀ i, i ≠ e → s.owners.get i = r.owners.get i
  phases : ∀ i, i ≠ e → s.phase i = r.phase i
  owner : s.requested e = true → r.requested e = true
  calls : s.calls = r.calls
  results : s.results = r.results
  fits : Fits s.db s.owners s.phase e

section Steps
variable {limits : Limits} {p q : Process} {e : Nat} {locals : Locals} {w : World} {exit : Exit}
  {now : Int} {r s : Records} {db : Db}

theorem serves_after (own : OwnRow e (r.requested e) r.db db)
    (serves : Serves e { r with db := db } s) : Serves e r s :=
  ⟨ownRow_trans own serves.own, serves.owners, serves.phases, serves.owner, serves.calls,
    serves.results, serves.fits⟩

theorem suspend_serves {await : Await} (owned : (p.runOwners.get e).isSome = true)
    (running : (p.db.runs.get e).map Run.state = some .running ↔
      (Phase.suspended await locals false).inBody = true) :
    Serves e p.records (suspend p e await locals).records := by
  constructor
  · exact ownRow_refl e _ p.db
  · exact fun _ _ => rfl
  · intro i other
    exact Function.update_of_ne other _ _
  · exact id
  · rfl
  · rfl
  · constructor
    · simp [Process.records, suspend, owned, Phase.executing]
    · simpa [Process.records, suspend] using running

theorem leaveExecuteRun_serves
    (quiet : (p.db.runs.get e).map Run.state ≠ some .running ∨ exit.fails = true) :
    Serves e p.records (leaveExecuteRun p e exit now).records := by
  have own : OwnRow e (p.records.requested e) p.db (leaveExecuteRun p e exit now).db ∧
      ((leaveExecuteRun p e exit now).db.runs.get e).map Run.state ≠ some .running := by
    cases exit with
    | returned => exact ⟨ownRow_refl e _ p.db, quiet.resolve_right (by simp [Exit.fails])⟩
    | notOwned => exact ⟨ownRow_refl e _ p.db, quiet.resolve_right (by simp [Exit.fails])⟩
    | cancelled => exact terminalizeOwnedRun_own p.db e _ _ now
    | raised errorType error => exact terminalizeOwnedRun_own p.db e _ _ now
  have gone : (p.runOwners.erase e).get e = none := by simp [Table.get_erase]
  constructor
  · exact own.1
  · intro i other
    exact (Table.get_erase p.runOwners e i).trans (if_neg other)
  · intro i other
    exact Function.update_of_ne other _ _
  · simp [Process.records, leaveExecuteRun, Records.requested, gone]
  · rfl
  · rfl
  · constructor
    · simp [Process.records, leaveExecuteRun, gone, Phase.executing]
    · simpa [Process.records, leaveExecuteRun, Phase.inBody] using own.2

theorem leaveExclusion_serves (lock : p.destinationCv.lock = {})
    (quiet : (p.db.runs.get e).map Run.state ≠ some .running ∨ exit.fails = true) :
    Serves e p.records (leaveExclusion p e locals exit now).records := by
  rw [leaveExclusion, lock_taken lock]
  exact leaveExecuteRun_serves (p := freeDestination { p with
    destinationCv := { p.destinationCv with lock := { holder := some e } } } e) quiet

theorem leaveSource_serves (lock : p.destinationCv.lock = {})
    (quiet : (p.db.runs.get e).map Run.state ≠ some .running ∨ exit.fails = true) :
    Serves e p.records (leaveSource p e locals exit now).records :=
  leaveExclusion_serves (p := { p with
    sourceLocks := Function.update p.sourceLocks locals.task.sourceId
      (p.sourceLocks locals.task.sourceId).release
    globalSem := p.globalSem.release e }) lock quiet

theorem conclude_serves (lock : p.destinationCv.lock = {})
    (running : (p.db.runs.get e).map Run.state = some .running) (ending : Ending) :
    Serves e p.records (conclude p e locals ending w).records := by
  obtain ⟨own, ended⟩ := finishRun_own running ending (cancelWasRequested p e) w.stats w.now
  exact serves_after (r := p.records) own
    (leaveSource_serves (p := { p with
      db := finishRun p.db e ending (cancelWasRequested p e) w.stats w.now }) lock (Or.inl ended))

theorem executeBody_serves (lock : p.destinationCv.lock = {})
    (owned : (p.runOwners.get e).isSome = true)
    (quiet : (p.db.runs.get e).map Run.state ≠ some .running) :
    Serves e p.records (executeBody p e locals w).records := by
  unfold executeBody
  split
  · exact leaveSource_serves lock (Or.inl quiet)
  · exact leaveSource_serves lock (Or.inl quiet)
  · rename_i db started
    obtain ⟨own, running⟩ := startRun_own (cancelWasRequested p e) started
    apply serves_after (r := p.records) own
    split
    · exact conclude_serves (p := { p with db := db }) lock running _
    · exact leaveSource_serves (p := { p with db := db }) lock (Or.inr rfl)
    · exact suspend_serves (p := { p with db := db }) owned (by simp [running, Phase.inBody])

theorem takeSource_serves (lock : p.destinationCv.lock = {})
    (owned : (p.runOwners.get e).isSome = true)
    (quiet : (p.db.runs.get e).map Run.state ≠ some .running) :
    Serves e p.records (takeSource p e locals w).records := by
  simp only [takeSource]
  split
  · exact suspend_serves (p := { p with
      sourceLocks := Function.update p.sourceLocks locals.task.sourceId
        ((p.sourceLocks locals.task.sourceId).suspend e) }) owned (by simp [quiet, Phase.inBody])
  · rename_i taken _
    exact executeBody_serves (p := { p with
      sourceLocks := Function.update p.sourceLocks locals.task.sourceId taken }) lock owned quiet

theorem takePermit_serves (lock : p.destinationCv.lock = {})
    (owned : (p.runOwners.get e).isSome = true)
    (quiet : (p.db.runs.get e).map Run.state ≠ some .running) :
    Serves e p.records (takePermit p e locals w).records := by
  unfold takePermit
  split
  · exact suspend_serves (p := { p with globalSem := p.globalSem.suspend e }) owned
      (by simp [quiet, Phase.inBody])
  · rename_i taken _
    exact takeSource_serves (p := { p with globalSem := taken }) lock owned quiet

theorem claimDestination_serves (lock : p.destinationCv.lock = { holder := some e })
    (owned : (p.runOwners.get e).isSome = true)
    (quiet : (p.db.runs.get e).map Run.state ≠ some .running) :
    Serves e p.records (claimDestination p e locals w).records := by
  have released : p.destinationCv.lock.release = {} := by rw [lock]; rfl
  simp only [claimDestination, released]
  split
  · exact suspend_serves (p := { p with
      destinationCv := ⟨{}, enqueue p.destinationCv.waiters e⟩ }) owned
      (by simp [quiet, Phase.inBody])
  · exact takePermit_serves (p := { p with
      activeDestinations := p.activeDestinations.put ⟨e, locals.key⟩
      destinationCv := { p.destinationCv with lock := {} } }) rfl owned quiet

theorem lockAgain_serves {cancelled : Bool} (lock : p.destinationCv.lock = {})
    (owned : (p.runOwners.get e).isSome = true)
    (quiet : (p.db.runs.get e).map Run.state ≠ some .running) :
    Serves e p.records (lockAgain p e locals cancelled w).records := by
  rw [lockAgain, lock_taken lock]
  simp only [leaveWait]
  split
  · exact leaveExecuteRun_serves (p := { p with
      destinationCv := { ({ p.destinationCv with lock := { holder := some e } } : Condition Nat).notify
        with lock := {} } }) (Or.inl quiet)
  · exact claimDestination_serves (p := { p with
      destinationCv := { p.destinationCv with lock := { holder := some e } } }) rfl owned quiet

theorem enterExclusion_serves (lock : p.destinationCv.lock = {})
    (owned : (p.runOwners.get e).isSome = true)
    (quiet : (p.db.runs.get e).map Run.state ≠ some .running) :
    Serves e p.records (enterExclusion p e locals w).records := by
  rw [enterExclusion, lock_taken lock]
  exact claimDestination_serves (p := { p with
    destinationCv := { p.destinationCv with lock := { holder := some e } } }) rfl owned quiet

theorem bodyStep_serves (lock : p.destinationCv.lock = {})
    (owned : (p.runOwners.get e).isSome = true)
    (running : (p.db.runs.get e).map Run.state = some .running) (step : BodyStep p e locals w q) :
    Serves e p.records q.records := by
  cases step with
  | awaits next => exact suspend_serves owned (by simp [running, Phase.inBody])
  | concludes ending => exact conclude_serves lock running ending
  | leaves fails => exact leaveSource_serves lock (Or.inr fails)

theorem resumeAwait_serves {await : Await} {cancelled : Bool} (standing : Standing limits p)
    (fits : Fits p.db p.runOwners p.phase e) (phase : p.phase e = .suspended await locals cancelled)
    (resumed : resumeAwait limits p e locals cancelled w await = some q) :
    Serves e p.records q.records := by
  have lock := standing.2.1
  have uncontended := standing.2.2 e
  have owned : (p.runOwners.get e).isSome = true :=
    fits.executing.mpr (by simp [phase, Phase.executing])
  have running := fits.running
  simp only [phase] at running
  rw [phase] at uncontended
  cases await with
  | conditionLock => exact uncontended.elim
  | conditionLockAgain before => exact uncontended.elim
  | conditionLockToFree exit => exact uncontended.elim
  | notification =>
    have quiet : (p.db.runs.get e).map Run.state ≠ some .running :=
      fun runs => by cases running.mp runs
    simp only [resumeAwait, Option.ite_none_right_eq_some, Option.some.injEq] at resumed
    obtain ⟨-, rfl⟩ := resumed
    exact lockAgain_serves (p := { p with
      destinationCv := { p.destinationCv with waiters := p.destinationCv.waiters.erase e } }) lock
      owned quiet
  | permit =>
    have quiet : (p.db.runs.get e).map Run.state ≠ some .running :=
      fun runs => by cases running.mp runs
    simp only [resumeAwait] at resumed
    split at resumed
    · cases resumed
      exact leaveExclusion_serves (p := { p with globalSem := p.globalSem.abort e }) lock
        (Or.inl quiet)
    · simp only [Option.ite_none_right_eq_some, Option.some.injEq] at resumed
      obtain ⟨-, rfl⟩ := resumed
      exact takeSource_serves (p := { p with globalSem := p.globalSem.resume e }) lock owned quiet
  | sourceLock =>
    have quiet : (p.db.runs.get e).map Run.state ≠ some .running :=
      fun runs => by cases running.mp runs
    simp only [resumeAwait] at resumed
    split at resumed
    · cases resumed
      exact leaveExclusion_serves (p := { p with
        sourceLocks := Function.update p.sourceLocks locals.task.sourceId
          ((p.sourceLocks locals.task.sourceId).abort e)
        globalSem := p.globalSem.release e }) lock (Or.inl quiet)
    · simp only [Option.ite_none_right_eq_some, Option.some.injEq] at resumed
      obtain ⟨-, rfl⟩ := resumed
      exact executeBody_serves (p := { p with
        sourceLocks := Function.update p.sourceLocks locals.task.sourceId
          ((p.sourceLocks locals.task.sourceId).resume e) }) lock owned quiet
  | work work => exact bodyStep_serves lock owned (running.mpr rfl) (resumeWork_step resumed)

theorem executeRun_serves (lock : p.destinationCv.lock = {})
    (unowned : p.runOwners.get e = none)
    (quiet : (p.db.runs.get e).map Run.state ≠ some .running) :
    Serves e p.records (executeRun p e w).records := by
  have put : ∀ i, (p.runOwners.put { runId := e }).get i =
      if e = i then some { runId := e } else p.runOwners.get i := fun i => Table.get_put _ _ i
  have serves : Serves e { p.records with owners := p.runOwners.put { runId := e } }
      (executeRun p e w).records := by
    simp only [executeRun]
    split
    · exact leaveExecuteRun_serves (p := { p with runOwners := p.runOwners.put { runId := e } })
        (Or.inl quiet)
    · exact enterExclusion_serves (p := { p with runOwners := p.runOwners.put { runId := e } }) lock
        (by simp [put]) quiet
  have before : p.records.requested e = false := by
    simp [Records.requested, Process.records, unowned]
  have between : Records.requested { p.records with owners := p.runOwners.put { runId := e } } e =
      false := by
    simp [Records.requested, put]
  constructor
  · rw [before, ← between]
    exact serves.own
  · intro i other
    rw [serves.owners i other]
    exact (put i).trans (if_neg (Ne.symm other))
  · exact serves.phases
  · intro requested
    rw [serves.owner requested] at between
    cases between
  · exact serves.calls
  · exact serves.results
  · exact serves.fits

theorem resume_serves (standing : Standing limits p) (fits : Fits p.db p.runOwners p.phase e)
    (resumed : resume limits p e w = some q) : Serves e p.records q.records := by
  have unowned : (p.phase e).executing = false → p.runOwners.get e = none := by
    intro idle
    have owned := fits.executing
    simp only [idle] at owned
    simpa using owned
  have quiet : (p.phase e).inBody = false → (p.db.runs.get e).map Run.state ≠ some .running := by
    intro outside runs
    have body := fits.running.mp runs
    simp only [outside] at body
    cases body
  unfold resume at resumed
  split at resumed
  · cases resumed
  · cases resumed
  · rename_i created
    cases resumed
    have nothing := unowned (by rw [created]; rfl)
    constructor
    · exact ownRow_refl e _ p.db
    · exact fun _ _ => rfl
    · intro i other
      exact Function.update_of_ne other _ _
    · exact id
    · rfl
    · rfl
    · constructor
      · simp [Process.records, nothing, Phase.executing]
      · simpa [Process.records, Phase.inBody] using quiet (by rw [created]; rfl)
  · rename_i created
    cases resumed
    exact executeRun_serves standing.2.1 (unowned (by rw [created]; rfl))
      (quiet (by rw [created]; rfl))
  · rename_i await locals cancelled phase
    exact resumeAwait_serves standing fits phase resumed

end Steps

/-- What any step may do to the rows, and to the requests that are on record. -/
structure Lives (called : Nat → Prop) (r s : Records) : Prop where
  terminal : ∀ i run, r.db.runs.get i = some run → run.state.active = false →
    s.db.runs.get i = some run
  cancelled : ∀ i run, s.db.runs.get i = some run → run.state = .cancelled →
    r.db.runs.get i = some run ∨ r.requested i = true ∨ called i
  requested : ∀ i, s.requested i = true → r.requested i = true ∨ called i

theorem serves_lives {e : Nat} {r s : Records} (serves : Serves e r s) (called : Nat → Prop) :
    Lives called r s := by
  constructor
  · intro i run found terminal
    by_cases same : i = e
    · subst same
      rcases serves.own.row with kept | ⟨old, new, was, -, active, -⟩
      · exact kept.trans found
      · rw [found] at was
        cases was
        rw [terminal] at active
        cases active
    · exact (serves.own.rows i same).trans found
  · intro i run found cancelled
    by_cases same : i = e
    · subst same
      rcases serves.own.row with kept | ⟨old, new, -, now, -, honest⟩
      · exact Or.inl (kept.symm.trans found)
      · rw [found] at now
        cases now
        exact Or.inr (Or.inl (honest cancelled))
    · exact Or.inl ((serves.own.rows i same).symm.trans found)
  · intro i requested
    by_cases same : i = e
    · subst same
      exact Or.inl (serves.owner requested)
    · left
      rw [Records.requested, ← serves.owners i same]
      exact requested

theorem serves_fits {e : Nat} {r s : Records} (serves : Serves e r s)
    (fits : ∀ i, Fits r.db r.owners r.phase i) :
    ∀ i, Fits s.db s.owners s.phase i := by
  intro i
  by_cases same : i = e
  · subst same
    exact serves.fits
  · constructor
    · rw [serves.owners i same, serves.phases i same]
      exact (fits i).executing
    · rw [serves.own.rows i same, serves.phases i same]
      exact (fits i).running

section Acts
variable {limits : Limits} {p q : Process}

theorem cancel_records (p : Process) (e : Nat) :
    (cancel p e).db = p.db ∧ (cancel p e).runOwners = p.runOwners ∧
      (cancel p e).cancelCalls = p.cancelCalls ∧ (cancel p e).cancelResults = p.cancelResults := by
  unfold cancel
  split
  · exact ⟨rfl, rfl, rfl, rfl⟩
  · exact ⟨rfl, rfl, rfl, rfl⟩
  · exact ⟨rfl, rfl, rfl, rfl⟩
  · rename_i await locals before phase
    cases await <;> exact ⟨rfl, rfl, rfl, rfl⟩

theorem cancel_phase (p : Process) (e i : Nat) :
    ((cancel p e).phase i).executing = (p.phase i).executing ∧
      ((cancel p e).phase i).inBody = (p.phase i).inBody := by
  unfold cancel
  split
  · exact ⟨rfl, rfl⟩
  · exact ⟨rfl, rfl⟩
  · rename_i before created
    by_cases same : i = e
    · simp [same, created, Phase.executing, Phase.inBody]
    · simp [same]
  · rename_i await locals before phase
    by_cases same : i = e
    · subst same
      cases await <;> simp [phase, Phase.executing, Phase.inBody]
    · cases await <;> simp [same]

theorem cancel_fits {e i : Nat} (fits : Fits p.db p.runOwners p.phase i) :
    Fits (cancel p e).db (cancel p e).runOwners (cancel p e).phase i := by
  obtain ⟨db, owners, -, -⟩ := cancel_records p e
  obtain ⟨executing, inBody⟩ := cancel_phase p e i
  constructor
  · simpa [Process.records, owners, executing] using fits.executing
  · simpa [Process.records, db, inBody] using fits.running

theorem lives_same {called : Nat → Prop} {r s : Records} (db : s.db = r.db)
    (requested : ∀ i, s.requested i = true → r.requested i = true ∨ called i) :
    Lives called r s := by
  constructor
  · intro i run found _
    rwa [db]
  · intro i run found _
    exact Or.inl (db ▸ found)
  · exact requested

theorem admission_runs (db : Db) (task : Nat) (stamp : Stamp) :
    (((admitRun db task stamp).map Prod.fst).getD db).runs = db.runs ∨
      ∃ run : Run, run.state = .pending ∧ db.runs.get run.id = none ∧
        (((admitRun db task stamp).map Prod.fst).getD db).runs = db.runs.put run := by
  unfold admitRun
  split
  · exact Or.inl rfl
  · rename_i found _
    split
    · exact Or.inl rfl
    · split
      · exact Or.inl rfl
      · exact Or.inr ⟨pendingRun (nextId db.runs) found.id stamp, rfl, get_nextId db.runs, rfl⟩

theorem admission_get {db db' : Db} {run : Run} (runs : db'.runs = db.runs.put run) (i : Nat) :
    db'.runs.get i = if run.id = i then some run else db.runs.get i := by
  rw [runs]
  exact Table.get_put db.runs run i

theorem sweep_get (db : Db) (owners : List Nat) (now : Int) (i : Nat) :
    (sweepOrphanedRuns db owners now).runs.get i = (db.runs.get i).map fun run =>
      if orphaned owners now run then run.failed watchdogMessage now else run :=
  Table.get_mapRows db.runs _ (by intro run; split <;> rfl) i

theorem sweep_owned {e : Nat} (owned : (p.runOwners.get e).isSome = true) (now : Int) :
    (sweepOrphanedRuns p.db (p.runOwners.rows.map RunOwner.runId) now).runs.get e =
      p.db.runs.get e := by
  rw [sweep_get]
  cases found : p.db.runs.get e with
  | none => rfl
  | some run =>
    have id : run.id = e := Table.key_of_get found
    obtain ⟨owner, here⟩ := Option.isSome_iff_exists.mp owned
    have listed : e ∈ p.runOwners.rows.map RunOwner.runId :=
      List.mem_map.mpr ⟨owner, Table.mem_of_get here, Table.key_of_get here⟩
    have kept : orphaned (p.runOwners.rows.map RunOwner.runId) now run = false := by
      simp only [orphaned, id, List.contains_iff_mem.mpr listed]
      simp
    simp [kept]

def Honest (p q : Process) : Prop :=
  ∀ r ∈ q.cancelResults, r ∈ p.cancelResults ∨ (r.outcome = .cancelled →
    (q.db.runs.get r.run).map Run.state = some .cancelled)

theorem honest_of_same (same : q.cancelResults = p.cancelResults) : Honest p q :=
  fun _ mem => Or.inl (same ▸ mem)

theorem report_honest {e : Nat} {outcome : CancelOutcome} {state : Option RunState}
    (fair : outcome = .cancelled → (p.db.runs.get e).map Run.state = some .cancelled) :
    Honest p (report p e outcome state) := by
  intro r mem
  rcases List.mem_cons.mp mem with rfl | old
  · exact Or.inr fair
  · exact Or.inl old

theorem admission_fits {e : Nat} (task : Nat) (stamp : Stamp)
    (fits : Fits p.db p.runOwners p.phase e) :
    Fits (((admitRun p.db task stamp).map Prod.fst).getD p.db) p.runOwners p.phase e := by
  refine ⟨fits.executing, ?_⟩
  rcases admission_runs p.db task stamp with same | ⟨run, pending, new, runs⟩
  · simpa [same] using fits.running
  · rw [admission_get runs e]
    split
    · rename_i id
      have before := fits.running
      simp only [← id, new] at before
      simpa [pending, ← id] using before
    · exact fits.running

theorem admission_lives (called : Nat → Prop) (task : Nat) (stamp : Stamp) :
    Lives called p.records
      (Process.records { p with db := ((admitRun p.db task stamp).map Prod.fst).getD p.db }) := by
  rcases admission_runs p.db task stamp with same | ⟨run, pending, new, runs⟩
  · constructor
    · intro i old found _
      simpa [Process.records, same] using found
    · intro i old found _
      exact Or.inl (by simpa [Process.records, same] using found)
    · exact fun i requested => Or.inl requested
  · constructor
    · intro i old found _
      simp only [Process.records] at found ⊢
      rw [admission_get runs i, if_neg, found]
      rintro rfl
      rw [new] at found
      cases found
    · intro i old found cancelled
      simp only [Process.records] at found ⊢
      rw [admission_get runs i] at found
      split at found
      · cases found
        rw [pending] at cancelled
        cases cancelled
      · exact Or.inl found
    · exact fun i requested => Or.inl requested

theorem startFailed_serves {run : Nat} (unowned : p.runOwners.get run = none) (now : Int) :
    Serves run p.records (Process.records { p with
      db := (terminalizeOwnedRun p.db run OwnerExit.failedToStart.message false now).1
      phase := Function.update p.phase run .ended }) := by
  obtain ⟨own, quiet⟩ := terminalizeOwnedRun_own p.db run .failedToStart false now
  constructor
  · simpa [Process.records, Records.requested, unowned] using own
  · exact fun _ _ => rfl
  · intro i other
    exact Function.update_of_ne other _ _
  · exact id
  · rfl
  · rfl
  · constructor
    · simp [Process.records, unowned, Phase.executing]
    · simpa [Process.records, Phase.inBody] using quiet

theorem mark_requested {run : Nat} {owner : RunOwner} (owned : p.runOwners.get run = some owner)
    (i : Nat) : (p.runOwners.put { owner with cancelRequested := true }).get i =
      if run = i then some { owner with cancelRequested := true } else p.runOwners.get i := by
  have id : owner.runId = run := Table.key_of_get owned
  rw [Table.get_put]
  simp [id]

theorem cancelRun_lives (fits : ∀ e, Fits p.db p.runOwners p.phase e) (run : Nat) :
    (∀ e, Fits (cancelRun p run).db (cancelRun p run).runOwners (cancelRun p run).phase e) ∧
      Lives (fun i => Act.cancelRun run = .cancelRun i) p.records (cancelRun p run).records ∧
      Honest p (cancelRun p run) := by
  unfold cancelRun
  split
  · exact ⟨fits, lives_same rfl fun i requested => Or.inl requested, report_honest (by simp)⟩
  · split
    · split
      · exact ⟨fits, lives_same rfl fun i requested => Or.inl requested, report_honest (by simp)⟩
      · rename_i row found active owner owned
        have put := mark_requested owned
        obtain ⟨db, owners, -, results⟩ := cancel_records { p with
          runOwners := p.runOwners.put { owner with cancelRequested := true } } run
        refine ⟨fun e => ?_, lives_same db fun i requested => ?_, honest_of_same results⟩
        · refine cancel_fits (p := { p with
            runOwners := p.runOwners.put { owner with cancelRequested := true } }) ?_
          refine ⟨?_, (fits e).running⟩
          have before := (fits e).executing
          rw [put e, ← before]
          split
          · rename_i same
            simp [← same, owned]
          · rfl
        · by_cases same : run = i
          · exact Or.inr (by rw [same])
          · left
            simp only [Records.requested, Process.records] at requested ⊢
            rw [owners, put i, if_neg same] at requested
            exact requested
    · exact ⟨fits, lives_same rfl fun i requested => Or.inl requested, report_honest (by simp)⟩

/-- The watchdog ends rows that nobody owns, and those are in no body. -/
theorem sweep_fits {e : Nat} (fits : Fits p.db p.runOwners p.phase e) (now : Int) :
    Fits (sweepOrphanedRuns p.db (p.runOwners.rows.map RunOwner.runId) now) p.runOwners p.phase e := by
  refine ⟨fits.executing, ?_⟩
  constructor
  · intro running
    rw [sweep_get] at running
    apply fits.running.mp
    cases found : p.db.runs.get e with
    | none => simp [found] at running
    | some row =>
      simp only [found, Option.map_some, Option.some.injEq] at running
      split at running
      · cases running
      · simp [running]
  · intro inBody
    have owned : (p.runOwners.get e).isSome = true := by
      apply fits.executing.mpr
      cases phase : p.phase e with
      | suspended await locals cancelled => rfl
      | _ => simp [phase, Phase.inBody] at inBody
    rw [sweep_owned owned]
    exact fits.running.mpr inBody

theorem sweep_lives (called : Nat → Prop) (now : Int) :
    Lives called p.records (Process.records
      { p with db := sweepOrphanedRuns p.db (p.runOwners.rows.map RunOwner.runId) now }) := by
  constructor
  · intro i row found terminal
    simp only [Process.records] at found ⊢
    rw [sweep_get, found]
    simp [orphaned, terminal]
  · intro i row found cancelled
    simp only [Process.records] at found ⊢
    rw [sweep_get] at found
    obtain ⟨old, before, rfl⟩ := Option.map_eq_some_iff.mp found
    split at cancelled
    · cases cancelled
    · rename_i kept
      exact Or.inl (by rw [before]; simp [kept])
  · exact fun i requested => Or.inl requested

theorem step_lives {act : Act} (standing : Standing limits p) (fits : ∀ e, Fits p.db p.runOwners p.phase e)
    (moved : p.step limits act = some q) :
    (∀ e, Fits q.db q.runOwners q.phase e) ∧ Lives (fun i => act = .cancelRun i) p.records q.records ∧
      Honest p q := by
  cases act with
  | admission task stamp =>
    cases moved
    exact ⟨fun e => admission_fits task stamp (fits e), admission_lives _ task stamp,
      honest_of_same rfl⟩
  | start run =>
    simp only [Process.step, Option.ite_none_right_eq_some, Option.some.injEq, startable,
      Bool.and_eq_true, decide_eq_true_eq] at moved
    obtain ⟨⟨absent, -⟩, rfl⟩ := moved
    refine ⟨?_, lives_same rfl fun i requested => Or.inl requested, honest_of_same rfl⟩
    intro e
    by_cases same : e = run
    · subst same
      have before := fits e
      constructor
      · simpa [Process.records, absent, Phase.executing] using before.executing
      · simpa [Process.records, absent, Phase.inBody] using before.running
    · constructor
      · simpa [Process.records, same] using (fits e).executing
      · simpa [Process.records, same] using (fits e).running
  | startFailed run now =>
    simp only [Process.step, Option.ite_none_right_eq_some, Option.some.injEq, startable,
      Bool.and_eq_true, decide_eq_true_eq] at moved
    obtain ⟨⟨absent, -⟩, rfl⟩ := moved
    have before := (fits run).executing
    simp only [absent, Phase.executing] at before
    have unowned : p.runOwners.get run = none := by simpa using before
    have serves := startFailed_serves unowned now
    exact ⟨serves_fits serves fits, serves_lives serves _, honest_of_same rfl⟩
  | resume run world =>
    have serves := resume_serves standing (fits run) moved
    exact ⟨serves_fits serves fits, serves_lives serves _, honest_of_same serves.results⟩
  | cancel run =>
    cases moved
    obtain ⟨db, owners, -, results⟩ := cancel_records p run
    refine ⟨fun e => cancel_fits (fits e), lives_same db fun i requested => ?_,
      honest_of_same results⟩
    simp only [Records.requested, Process.records, owners] at requested ⊢
    exact Or.inl requested
  | cancelRun run =>
    cases moved
    exact cancelRun_lives fits run
  | cancelSettled run =>
    simp only [Process.step, cancelSettled] at moved
    split at moved
    · split at moved
      · rename_i stopped
        cases moved
        exact ⟨fits, lives_same rfl fun i requested => Or.inl requested,
          report_honest (p := { p with cancelCalls := p.cancelCalls.erase run }) fun _ => stopped⟩
      · split at moved <;>
          (cases moved
           exact ⟨fits, lives_same rfl fun i requested => Or.inl requested,
             report_honest (p := { p with cancelCalls := p.cancelCalls.erase run })
               (by simp)⟩)
    · cases moved
  | sweep now =>
    cases moved
    exact ⟨fun e => sweep_fits (fits e) now, sweep_lives _ now, honest_of_same rfl⟩

/-- The executions, the requests and the watchdog write the database through the transactions of
    the service. -/
theorem step_transacted {act : Act} (standing : Standing limits p)
    (fits : ∀ e, Fits p.db p.runOwners p.phase e) (moved : p.step limits act = some q) :
    Transacted p.db q.db := by
  cases act with
  | admission task stamp =>
    cases moved
    exact transacted_one (.runNow task stamp) fun _ => rfl
  | start run =>
    simp only [Process.step, Option.ite_none_right_eq_some, Option.some.injEq] at moved
    obtain ⟨-, rfl⟩ := moved
    exact transacted_refl p.db
  | startFailed run now =>
    simp only [Process.step, Option.ite_none_right_eq_some, Option.some.injEq] at moved
    obtain ⟨-, rfl⟩ := moved
    exact transacted_one (.abandon run .failedToStart false now) fun _ => rfl
  | resume run world => exact (resume_serves standing (fits run) moved).own.service
  | cancel run =>
    cases moved
    simp only [(cancel_records p run).1]
    exact transacted_refl p.db
  | cancelRun run =>
    cases moved
    unfold cancelRun
    split
    · exact transacted_refl p.db
    · split
      · split
        · exact transacted_refl p.db
        · rename_i owner _
          simp only [(cancel_records { p with
            runOwners := p.runOwners.put { owner with cancelRequested := true } } run).1]
          exact transacted_refl p.db
      · exact transacted_refl p.db
  | cancelSettled run =>
    simp only [Process.step, cancelSettled] at moved
    split at moved
    · split at moved
      · cases moved
        exact transacted_refl p.db
      · split at moved <;> (cases moved; exact transacted_refl p.db)
    · cases moved
  | sweep now =>
    cases moved
    exact transacted_one (.sweep (p.runOwners.rows.map RunOwner.runId) now) fun _ => rfl

theorem reconcileStaleRuns_get (db : Db) (now : Int) (e : Nat) :
    (reconcileStaleRuns db now).runs.get e = (db.runs.get e).map fun run =>
      if run.state.active then run.failed restartMessage now else run :=
  Table.get_mapRows db.runs _ (by intro run; split <;> rfl) e

theorem init_fits (limits : Limits) (db : Db) (now : Int) (e : Nat) :
    Fits (Process.init limits db now).db (Process.init limits db now).runOwners
      (Process.init limits db now).phase e := by
  constructor
  · simp [Process.init, Phase.executing]
  · simp only [Process.init]
    rw [reconcileStaleRuns_get]
    cases db.runs.get e with
    | none => simp [Phase.inBody]
    | some run =>
      by_cases active : run.state.active = true
      · simp [Phase.inBody, active, Run.failed]
      · have other : run.state ≠ .running := fun running => active (by rw [running]; rfl)
        simp [Phase.inBody, active, other]

theorem reachable_fits (reachable : ReachableFrom limits p) (e : Nat) :
    Fits p.db p.runOwners p.phase e := by
  obtain ⟨db, now, acts, history⟩ := reachable
  exact (trace_invariant (fun p => Standing limits p ∧ ∀ e, Fits p.db p.runOwners p.phase e)
    (fun _ _ _ before moved => ⟨step_standing before.1 moved, (step_lives before.1 before.2 moved).1⟩)
    history ⟨init_standing limits db now, init_fits limits db now⟩).2 e

/-- A whole history: what is terminal stays, what is cancelled was called for, and what is
    reported as cancelled is. -/
theorem trace_lives {acts : List Act} (history : Trace (Moves limits) p acts q)
    (reachable : ReachableFrom limits p) :
    Lives (fun i => .cancelRun i ∈ acts) p.records q.records ∧ Honest p q ∧
      Transacted p.db q.db := by
  induction history with
  | nil =>
    exact ⟨lives_same rfl fun i requested => Or.inl requested, honest_of_same rfl,
      transacted_refl p.db⟩
  | @snoc m q acts act before last ih =>
    obtain ⟨lives, honest, transacted⟩ := ih
    have there : ReachableFrom limits m := by
      obtain ⟨db, now, past, trace⟩ := reachable
      exact ⟨db, now, past ++ acts, trace_append trace before⟩
    have standing := reachable_standing there
    obtain ⟨-, step, fair⟩ := step_lives standing (reachable_fits there) last
    refine ⟨⟨?_, ?_, ?_⟩, ?_, transacted_trans transacted
      (step_transacted standing (reachable_fits there) last)⟩
    · intro i run found terminal
      exact step.terminal i run (lives.terminal i run found terminal) terminal
    · intro i run found cancelled
      rcases step.cancelled i run found cancelled with old | requested | here
      · rcases lives.cancelled i run old cancelled with older | requested | here
        · exact Or.inl older
        · exact Or.inr (Or.inl requested)
        · exact Or.inr (Or.inr (List.mem_append_left _ here))
      · rcases lives.requested i requested with before | here
        · exact Or.inr (Or.inl before)
        · exact Or.inr (Or.inr (List.mem_append_left _ here))
      · exact Or.inr (Or.inr (List.mem_append_right _ (List.mem_singleton.mpr here.symm)))
    · intro i requested
      rcases step.requested i requested with before | here
      · rcases lives.requested i before with older | called
        · exact Or.inl older
        · exact Or.inr (List.mem_append_left _ called)
      · exact Or.inr (List.mem_append_right _ (List.mem_singleton.mpr here.symm))
    · intro r mem
      rcases fair r mem with old | now
      · rcases honest r old with older | thereafter
        · exact Or.inl older
        · right
          intro stopped
          obtain ⟨run, found, cancelled⟩ := Option.map_eq_some_iff.mp (thereafter stopped)
          have stays := step.terminal r.run run found (by rw [cancelled]; rfl)
          exact Option.map_eq_some_iff.mpr ⟨run, stays, cancelled⟩
      · exact Or.inr now

theorem reconciled_cancelled {db : Db} {now : Int} {e : Nat} {run : Run}
    (found : (reconcileStaleRuns db now).runs.get e = some run)
    (cancelled : run.state = .cancelled) : db.runs.get e = some run := by
  rw [reconcileStaleRuns_get] at found
  obtain ⟨old, before, rfl⟩ := Option.map_eq_some_iff.mp found
  split at cancelled
  · cases cancelled
  · rename_i kept
    rw [before, if_neg kept]

end Acts

/-- Terminal rows stay as they are; a row is cancelled only after cancel_run was called on it,
    and reported so only while it is; a call on a run without an owner and the watchdog on a run
    with one change nothing. -/
theorem run_lifecycle {limits : Limits} {db : Db} {start : Int} {before after : List Act}
    {p q : Process} (past : Trace (Moves limits) (Process.init limits db start) before p)
    (future : Trace (Moves limits) p after q) :
    (∀ e run, p.db.runs.get e = some run → run.state.active = false →
      q.db.runs.get e = some run) ∧
    (∀ e run, p.db.runs.get e = some run → run.state = .cancelled →
      db.runs.get e = some run ∨ .cancelRun e ∈ before) ∧
    (∀ r ∈ p.cancelResults, r.outcome = .cancelled →
      (p.db.runs.get r.run).map Run.state = some .cancelled ∧
        (q.db.runs.get r.run).map Run.state = some .cancelled) ∧
    (∀ r ∈ q.cancelResults, (p.db.runs.get r.run).map Run.state = some .success →
      r.outcome ≠ .cancelled) ∧
    (∀ e, p.runOwners.get e = none →
      ∃ results, p.step limits (.cancelRun e) = some { p with cancelResults := results }) ∧
    (∀ now s, p.step limits (.sweep now) = some s → ∀ e, (p.runOwners.get e).isSome = true →
      s.db.runs.get e = p.db.runs.get e) := by
  have init : ReachableFrom limits (Process.init limits db start) := ⟨db, start, [], Trace.nil⟩
  obtain ⟨lives, honest, -⟩ := trace_lives past init
  obtain ⟨lives', -, -⟩ := trace_lives future ⟨db, start, before, past⟩
  obtain ⟨-, honest', -⟩ := trace_lives (trace_append past future) init
  have fair : ∀ r ∈ p.cancelResults, r.outcome = .cancelled →
      (p.db.runs.get r.run).map Run.state = some .cancelled := by
    intro r mem stopped
    rcases honest r mem with old | now
    · cases old
    · exact now stopped
  have stays : ∀ e run, p.db.runs.get e = some run → run.state.active = false →
      q.db.runs.get e = some run := lives'.terminal
  refine ⟨stays, ?_, ?_, ?_, ?_, ?_⟩
  · intro e run found cancelled
    rcases lives.cancelled e run found cancelled with old | requested | called
    · exact Or.inl (reconciled_cancelled old cancelled)
    · cases requested
    · exact Or.inr called
  · intro r mem stopped
    obtain ⟨run, found, cancelled⟩ := Option.map_eq_some_iff.mp (fair r mem stopped)
    exact ⟨fair r mem stopped, Option.map_eq_some_iff.mpr
      ⟨run, stays r.run run found (by rw [cancelled]; rfl), cancelled⟩⟩
  · intro r mem success stopped
    obtain ⟨run, found, state⟩ := Option.map_eq_some_iff.mp success
    have kept := stays r.run run found (by rw [state]; rfl)
    rcases honest' r mem with old | now
    · cases old
    · have cancelled := now stopped
      rw [kept, Option.map_some, state] at cancelled
      cases cancelled
  · intro e unowned
    simp only [Process.step, cancelRun, unowned]
    split
    · exact ⟨_, rfl⟩
    · split <;> exact ⟨_, rfl⟩
  · intro now s moved e owned
    cases moved
    exact sweep_owned owned now

def Process.exec (limits : Limits) (p : Process) (acts : List Act) : Option Process :=
  acts.foldlM (Process.step limits) p

theorem trace_exec {limits : Limits} {p q : Process} {acts : List Act}
    (done : p.exec limits acts = some q) : Trace (Moves limits) p acts q :=
  trace_of_foldlM (fun _ _ _ moved => moved) done

def Sample.limits : Limits := ⟨2, 3600, by decide, by decide⟩

def Sample.world (second : Int) (event : Event) : World :=
  ⟨seconds second, .ok ["fs", "/", "backup", "photos"], event, {}⟩

/-- The operator stops the first run while it transfers. -/
def Sample.stopping : List Act :=
  [.admission 1 (stamp 70), .start 1, .resume 1 (world 71 .unfinished),
    .resume 1 (world 72 .spawned), .cancelRun 1, .resume 1 (world 73 .unfinished),
    .resume 1 (world 74 .cleaned), .cancelSettled 1]

theorem stopped_run_reported :
    ∃ p q, (Process.init Sample.limits Sample.start.db 0).exec Sample.limits Sample.stopping =
        some p ∧ p.cancelResults = [⟨1, .cancelled, some .cancelled⟩] ∧
      p.exec Sample.limits [.cancelRun 1, .sweep (seconds 9000)] = some q ∧
      (q.db.runs.get 1).map Run.state = some .cancelled := by
  obtain ⟨p, stopped, results⟩ := Option.map_eq_some_iff.mp
    (by decide +kernel : ((Process.init Sample.limits Sample.start.db 0).exec Sample.limits
      Sample.stopping).map Process.cancelResults = some [⟨1, .cancelled, some .cancelled⟩])
  have later : ((Process.init Sample.limits Sample.start.db 0).exec Sample.limits
      (Sample.stopping ++ [.cancelRun 1, .sweep (seconds 9000)])).isSome = true := by
    decide +kernel
  obtain ⟨q, whole⟩ := Option.isSome_iff_exists.mp later
  have rest : p.exec Sample.limits [.cancelRun 1, .sweep (seconds 9000)] = some q := by
    rw [Process.exec, List.foldlM_append] at whole
    rw [Process.exec] at stopped
    rw [stopped] at whole
    exact whole
  have honest := (run_lifecycle (trace_exec stopped) (trace_exec rest)).2.2.1
    ⟨1, .cancelled, some .cancelled⟩ (by simp [results]) rfl
  exact ⟨p, q, stopped, results, rest, honest.2⟩

end Pullbackup
