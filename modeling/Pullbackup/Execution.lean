import Pullbackup.Dispatcher
import Pullbackup.Library.Asyncio
import Pullbackup.Library.History

/- services/runner.py: the executions of one process and the module state they
   share. Each function below runs to the next suspension, the only place where
   the event loop lets another task run. -/
namespace Pullbackup
open KeyedTable Asyncio

def minMaxConcurrentRuns : Nat := 1

structure Limits where
  maxConcurrentRuns : Nat
  runTimeoutSeconds : Int
  startsOne : minMaxConcurrentRuns ≤ maxConcurrentRuns
  notNegative : 0 ≤ runTimeoutSeconds

structure Claim where
  holder : Nat
  key : DestKey
  deriving DecidableEq, Repr

structure RunOwner where
  runId : Nat
  cancelRequested : Bool := false
  deriving DecidableEq, Repr

instance : Keyed Claim Nat := ⟨Claim.holder⟩
instance : Keyed RunOwner Nat := ⟨RunOwner.runId⟩

@[simp] theorem key_claim (c : Claim) : Keyed.key c = c.holder := rfl
@[simp] theorem key_runOwner (o : RunOwner) : Keyed.key o = o.runId := rfl

inductive Exit where
  | returned
  | cancelled
  | notOwned
  | raised (errorType error : String)
  deriving DecidableEq, Repr

/-- What a running execution waits for: the process, the shielded end of its group, the prune
    commands, or the shielded end of one of them. -/
inductive Work where
  | transfer (spawned : Bool)
  | cleanup (ending : Ending)
  | prune
  | pruneCleanup (timedOut : Bool)
  deriving DecidableEq, Repr

inductive Await where
  | conditionLock
  | notification
  | conditionLockAgain (cancelled : Bool)
  | permit
  | sourceLock
  | work (work : Work)
  | conditionLockToFree (exit : Exit)
  deriving DecidableEq, Repr

structure Locals where
  task : Task
  key : DestKey
  deriving DecidableEq, Repr

/-- The flag says that a cancellation has reached the task since it suspended. -/
inductive Phase where
  | absent
  | created (cancelled : Bool)
  | suspended (await : Await) (locals : Locals) (cancelled : Bool)
  | ended
  deriving DecidableEq, Repr

inductive CancelOutcome where
  | cancelled | alreadyFinished | notOwned | stillRunning | notFound
  deriving DecidableEq, Repr

structure CancelResult where
  run : Nat
  outcome : CancelOutcome
  state : Option RunState
  deriving DecidableEq, Repr

structure Process where
  db : Db
  activeDestinations : Table Claim := .empty
  destinationCv : Condition Nat := {}
  globalSem : Semaphore Nat
  -- a source without an entry has a fresh lock
  sourceLocks : Nat → Lock Nat := fun _ => {}
  runOwners : Table RunOwner := .empty
  phase : Nat → Phase := fun _ => .absent
  cancelCalls : List Nat := []
  cancelResults : List CancelResult := []

inductive Event where
  | spawned
  | exited (code : Int)
  | failed
  | timedOut
  | cleaned
  | pruned
  | raised (errorType error : String)
  | unfinished
  deriving DecidableEq, Repr

/-- What a resumed execution reads outside the process: the clock, the checks of its destination
    with its containment key, and the event. -/
structure World where
  now : Int
  destination : Except (String × String) DestKey
  event : Event
  stats : Stats := {}

def Process.init (limits : Limits) (db : Db) (now : Int) : Process :=
  { db := reconcileStaleRuns db now, globalSem := { value := limits.maxConcurrentRuns } }

def cancelWasRequested (p : Process) (e : Nat) : Bool :=
  (p.runOwners.get e).any fun owner => owner.cancelRequested

def suspend (p : Process) (e : Nat) (await : Await) (locals : Locals) : Process :=
  { p with phase := Function.update p.phase e (.suspended await locals false) }

/-- The handlers and the finally of execute_run. -/
def leaveExecuteRun (p : Process) (e : Nat) (exit : Exit) (now : Int) : Process :=
  let requested := cancelWasRequested p e
  let db :=
    match exit with
    | .returned | .notOwned => p.db
    | .cancelled => (terminalizeOwnedRun p.db e OwnerExit.cancelled.message requested now).1
    | .raised errorType error =>
      (terminalizeOwnedRun p.db e (OwnerExit.raised errorType error).message requested now).1
  { p with
    db := db, runOwners := p.runOwners.erase e
    phase := Function.update p.phase e .ended }

def freeDestination (p : Process) (e : Nat) : Process :=
  let cv := p.destinationCv.notifyAll
  { p with
    activeDestinations := p.activeDestinations.erase e
    destinationCv := { cv with lock := cv.lock.release } }

def leaveExclusion (p : Process) (e : Nat) (locals : Locals) (exit : Exit) (now : Int) : Process :=
  match p.destinationCv.lock.tryAcquire e with
  | none =>
    suspend { p with destinationCv := { p.destinationCv with lock := p.destinationCv.lock.suspend e } }
      e (.conditionLockToFree exit) locals
  | some lock =>
    leaveExecuteRun (freeDestination { p with destinationCv := { p.destinationCv with lock := lock } } e)
      e exit now

def leavePermit (p : Process) (e : Nat) (locals : Locals) (exit : Exit) (now : Int) : Process :=
  leaveExclusion { p with globalSem := p.globalSem.release e } e locals exit now

def leaveSource (p : Process) (e : Nat) (locals : Locals) (exit : Exit) (now : Int) : Process :=
  let source := locals.task.sourceId
  leavePermit
    { p with sourceLocks := Function.update p.sourceLocks source (p.sourceLocks source).release }
    e locals exit now

def conclude (p : Process) (e : Nat) (locals : Locals) (ending : Ending) (w : World) : Process :=
  leaveSource { p with db := finishRun p.db e ending (cancelWasRequested p e) w.stats w.now } e locals
    (if ending = .cancelled then .cancelled else .returned) w.now

def executeBody (p : Process) (e : Nat) (locals : Locals) (w : World) : Process :=
  match startRun p.db e w.now with
  | .error .missing =>
    leaveSource p e locals (.raised "ValueError" ("run " ++ toString e ++ " not found")) w.now
  | .error .notOwned => leaveSource p e locals .notOwned w.now
  | .ok db =>
    match w.event with
    | .failed => conclude { p with db := db } e locals (.exited (-1)) w
    | .raised errorType error =>
      leaveSource { p with db := db } e locals (.raised errorType error) w.now
    | _ => suspend { p with db := db } e (.work (.transfer false)) locals

def takeSource (p : Process) (e : Nat) (locals : Locals) (w : World) : Process :=
  let source := locals.task.sourceId
  match (p.sourceLocks source).tryAcquire e with
  | none =>
    suspend
      { p with
        sourceLocks := Function.update p.sourceLocks source ((p.sourceLocks source).suspend e) }
      e .sourceLock locals
  | some lock =>
    executeBody { p with sourceLocks := Function.update p.sourceLocks source lock } e locals w

def takePermit (p : Process) (e : Nat) (locals : Locals) (w : World) : Process :=
  match p.globalSem.tryAcquire e with
  | none => suspend { p with globalSem := p.globalSem.suspend e } e .permit locals
  | some sem => takeSource { p with globalSem := sem } e locals w

def destinationBusy (active : Table Claim) (e : Nat) (key : DestKey) : Bool :=
  active.rows.any fun held => held.holder ≠ e && conflicts key held.key

def claimDestination (p : Process) (e : Nat) (locals : Locals) (w : World) : Process :=
  let lock := p.destinationCv.lock.release
  if destinationBusy p.activeDestinations e locals.key then
    suspend { p with destinationCv := ⟨lock, enqueue p.destinationCv.waiters e⟩ } e .notification locals
  else
    takePermit
      { p with
        activeDestinations := p.activeDestinations.put ⟨e, locals.key⟩
        destinationCv := { p.destinationCv with lock := lock } }
      e locals w

/-- The end of a wait that has the lock back; a cancelled one passes its notification on. -/
def leaveWait (p : Process) (e : Nat) (locals : Locals) (cancelled : Bool) (w : World) : Process :=
  if cancelled then
    let cv := p.destinationCv.notify
    leaveExecuteRun { p with destinationCv := { cv with lock := cv.lock.release } } e .cancelled w.now
  else claimDestination p e locals w

def lockAgain (p : Process) (e : Nat) (locals : Locals) (cancelled : Bool) (w : World) : Process :=
  match p.destinationCv.lock.tryAcquire e with
  | none =>
    suspend { p with destinationCv := { p.destinationCv with lock := p.destinationCv.lock.suspend e } }
      e (.conditionLockAgain cancelled) locals
  | some lock =>
    leaveWait { p with destinationCv := { p.destinationCv with lock := lock } } e locals cancelled w

def enterExclusion (p : Process) (e : Nat) (locals : Locals) (w : World) : Process :=
  match p.destinationCv.lock.tryAcquire e with
  | none =>
    suspend { p with destinationCv := { p.destinationCv with lock := p.destinationCv.lock.suspend e } }
      e .conditionLock locals
  | some lock =>
    claimDestination { p with destinationCv := { p.destinationCv with lock := lock } } e locals w

def prepareRun (db : Db) (e : Nat) (w : World) : Except (String × String) Locals :=
  match db.runs.get e with
  | none => .error ("ValueError", "run " ++ toString e ++ " not found")
  | some run =>
    match db.tasks.get run.taskId with
    | none => .error ("ValueError", "task " ++ toString run.taskId ++ " not found")
    | some task =>
      match db.sources.get task.sourceId with
      | none => .error ("ValueError", "source " ++ toString task.sourceId ++ " not found")
      | some _ => w.destination.map fun key => ⟨task, key⟩

def executeRun (p : Process) (e : Nat) (w : World) : Process :=
  let p := { p with runOwners := p.runOwners.put { runId := e } }
  match prepareRun p.db e w with
  | .error raised => leaveExecuteRun p e (.raised raised.1 raised.2) w.now
  | .ok locals => enterExclusion p e locals w

/-- After an exit code: the prune of a clean syncoid run, or the end. -/
def afterTransfer (p : Process) (e : Nat) (locals : Locals) (code : Int) (w : World) : Process :=
  match locals.task.pruneKeepHourly with
  | some keep =>
    if locals.task.taskType = "syncoid" ∧ code = 0 ∧ 1 ≤ keep then
      suspend p e (.work .prune) locals
    -- a retention of zero asks for no prune, a negative one fails at once
    else conclude p e locals (.exited code) w
  | none => conclude p e locals (.exited code) w

def stop (limits : Limits) (p : Process) (e : Nat) (locals : Locals) (work : Work) :
    Option Process :=
  -- a timeout of zero waits for ever
  if limits.runTimeoutSeconds = 0 then none else some (suspend p e (.work work) locals)

def resumeTransfer (limits : Limits) (p : Process) (e : Nat) (locals : Locals) (spawned : Bool)
    (w : World) : Option Process :=
  match w.event with
  | .spawned => if spawned then none else some (suspend p e (.work (.transfer true)) locals)
  | .exited code => some (afterTransfer p e locals code w)
  | .failed => some (conclude p e locals (.exited (-1)) w)
  | .timedOut => stop limits p e locals (.cleanup (.timedOut limits.runTimeoutSeconds))
  | _ => none

/-- A cleanup is shielded: a cancellation that reaches it is swallowed. -/
def resumeCleanup (p : Process) (e : Nat) (locals : Locals) (ending : Ending) (cancelled : Bool)
    (w : World) : Option Process :=
  match w.event with
  | .cleaned => some (conclude p e locals ending w)
  | .failed => some (conclude p e locals (.exited (-1)) w)
  | _ => if cancelled then some (suspend p e (.work (.cleanup ending)) locals) else none

def resumePrune (limits : Limits) (p : Process) (e : Nat) (locals : Locals) (w : World) :
    Option Process :=
  match w.event with
  | .pruned | .failed => some (conclude p e locals (.exited 0) w)
  | .timedOut => stop limits p e locals (.pruneCleanup true)
  | _ => none

/-- A prune that is cancelled leaves without a terminal transaction. -/
def resumePruneCleanup (limits : Limits) (p : Process) (e : Nat) (locals : Locals)
    (timedOut cancelled : Bool) (w : World) : Option Process :=
  match w.event with
  | .cleaned =>
    if timedOut then some (conclude p e locals (.timedOut limits.runTimeoutSeconds) w)
    else some (leaveSource p e locals .cancelled w.now)
  | .failed => some (conclude p e locals (.exited 0) w)
  | _ => if cancelled then some (suspend p e (.work (.pruneCleanup timedOut)) locals) else none

def resumeWork (limits : Limits) (p : Process) (e : Nat) (locals : Locals) (cancelled : Bool)
    (w : World) (work : Work) : Option Process :=
  match w.event, work with
  -- a log that cannot be written or read takes the execution down
  | .raised errorType error, _ => some (leaveSource p e locals (.raised errorType error) w.now)
  | _, .transfer spawned =>
    if cancelled then
      -- without a process there is no group to end
      if spawned then some (suspend p e (.work (.cleanup .cancelled)) locals)
      else some (conclude p e locals .cancelled w)
    else resumeTransfer limits p e locals spawned w
  | _, .cleanup ending => resumeCleanup p e locals ending cancelled w
  | event, .prune =>
    if cancelled then
      if event = .unfinished then some (suspend p e (.work (.pruneCleanup false)) locals)
      else some (leaveSource p e locals .cancelled w.now)
    else resumePrune limits p e locals w
  | _, .pruneCleanup timedOut => resumePruneCleanup limits p e locals timedOut cancelled w

/-- The exits of a body that never reaches its terminal transaction. -/
def Exit.fails : Exit → Bool
  | .cancelled | .raised _ _ => true
  | .returned | .notOwned => false

/-- All a running execution does: it awaits again, ends with its terminal transaction, or leaves
    without one. -/
inductive BodyStep (p : Process) (e : Nat) (locals : Locals) (w : World) : Process → Prop where
  | awaits (next : Work) : BodyStep p e locals w (suspend p e (.work next) locals)
  | concludes (ending : Ending) : BodyStep p e locals w (conclude p e locals ending w)
  | leaves {exit : Exit} (fails : exit.fails = true) :
      BodyStep p e locals w (leaveSource p e locals exit w.now)

section Body
variable {limits : Limits} {p p' : Process} {e : Nat} {locals : Locals} {w : World}
  {cancelled : Bool} {work : Work}

theorem afterTransfer_step (code : Int) :
    BodyStep p e locals w (afterTransfer p e locals code w) := by
  unfold afterTransfer
  split
  · split
    · exact .awaits _
    · exact .concludes _
  · exact .concludes _

theorem stop_step (stopped : stop limits p e locals work = some p') :
    BodyStep p e locals w p' := by
  unfold stop at stopped
  split at stopped
  · cases stopped
  · cases stopped
    exact .awaits _

theorem resumeTransfer_step {spawned : Bool}
    (resumed : resumeTransfer limits p e locals spawned w = some p') :
    BodyStep p e locals w p' := by
  unfold resumeTransfer at resumed
  split at resumed
  · split at resumed
    · cases resumed
    · cases resumed
      exact .awaits _
  · cases resumed
    exact afterTransfer_step _
  · cases resumed
    exact .concludes _
  · exact stop_step resumed
  · cases resumed

theorem resumeCleanup_step {ending : Ending}
    (resumed : resumeCleanup p e locals ending cancelled w = some p') :
    BodyStep p e locals w p' := by
  unfold resumeCleanup at resumed
  split at resumed
  · cases resumed
    exact .concludes _
  · cases resumed
    exact .concludes _
  · split at resumed
    · cases resumed
      exact .awaits _
    · cases resumed

theorem resumePrune_step (resumed : resumePrune limits p e locals w = some p') :
    BodyStep p e locals w p' := by
  unfold resumePrune at resumed
  split at resumed
  · cases resumed
    exact .concludes _
  · cases resumed
    exact .concludes _
  · exact stop_step resumed
  · cases resumed

theorem resumePruneCleanup_step {timedOut : Bool}
    (resumed : resumePruneCleanup limits p e locals timedOut cancelled w = some p') :
    BodyStep p e locals w p' := by
  unfold resumePruneCleanup at resumed
  split at resumed
  · split at resumed
    · cases resumed
      exact .concludes _
    · cases resumed
      exact .leaves rfl
  · cases resumed
    exact .concludes _
  · split at resumed
    · cases resumed
      exact .awaits _
    · cases resumed

theorem resumeWork_step (resumed : resumeWork limits p e locals cancelled w work = some p') :
    BodyStep p e locals w p' := by
  unfold resumeWork at resumed
  split at resumed
  · cases resumed
    exact .leaves rfl
  · split at resumed
    · split at resumed
      · cases resumed
        exact .awaits _
      · cases resumed
        exact .concludes _
    · exact resumeTransfer_step resumed
  · exact resumeCleanup_step resumed
  · split at resumed
    · split at resumed
      · cases resumed
        exact .awaits _
      · cases resumed
        exact .leaves rfl
    · exact resumePrune_step resumed
  · exact resumePruneCleanup_step resumed

theorem resumeWork_enabled (limits : Limits) (p : Process) (e : Nat) (locals : Locals)
    (cancelled : Bool) (work : Work) :
    ∃ w p', resumeWork limits p e locals cancelled w work = some p' := by
  cases work with
  | transfer spawned =>
    refine ⟨⟨0, .ok [], .exited 0, {}⟩, ?_⟩
    cases cancelled with
    | true => cases spawned <;> exact ⟨_, rfl⟩
    | false => exact ⟨_, rfl⟩
  | cleanup ending => exact ⟨⟨0, .ok [], .cleaned, {}⟩, _, rfl⟩
  | prune =>
    refine ⟨⟨0, .ok [], .pruned, {}⟩, ?_⟩
    cases cancelled with
    | true => exact ⟨_, rfl⟩
    | false => exact ⟨_, rfl⟩
  | pruneCleanup timedOut =>
    refine ⟨⟨0, .ok [], .cleaned, {}⟩, ?_⟩
    cases timedOut <;> exact ⟨_, rfl⟩

end Body

def woken (q : Waiters Nat) (e : Nat) : Bool := (q.get e).any fun w => w.future = .done

/-- A suspended execution is resumed with the cancellation, or with its result. -/
def resumeAwait (limits : Limits) (p : Process) (e : Nat) (locals : Locals) (cancelled : Bool)
    (w : World) (await : Await) : Option Process :=
  let cv := p.destinationCv
  let source := locals.task.sourceId
  match await with
  | .conditionLock =>
    if cancelled then
      some (leaveExecuteRun { p with destinationCv := { cv with lock := cv.lock.abort e } } e
        .cancelled w.now)
    else if woken cv.lock.waiters e then
      some (claimDestination { p with destinationCv := { cv with lock := cv.lock.resume e } } e
        locals w)
    else none
  | .notification =>
    if cancelled || woken cv.waiters e then
      some (lockAgain { p with destinationCv := { cv with waiters := cv.waiters.erase e } } e locals
        cancelled w)
    else none
  | .conditionLockAgain before =>
    if cancelled then
      some (lockAgain { p with destinationCv := { cv with lock := cv.lock.abort e } } e locals true w)
    else if woken cv.lock.waiters e then
      some (leaveWait { p with destinationCv := { cv with lock := cv.lock.resume e } } e locals before
        w)
    else none
  | .permit =>
    if cancelled then
      some (leaveExclusion { p with globalSem := p.globalSem.abort e } e locals .cancelled w.now)
    else if woken p.globalSem.waiters e then
      some (takeSource { p with globalSem := p.globalSem.resume e } e locals w)
    else none
  | .sourceLock =>
    let lock := p.sourceLocks source
    if cancelled then
      some (leavePermit
        { p with sourceLocks := Function.update p.sourceLocks source (lock.abort e) } e locals
        .cancelled w.now)
    else if woken lock.waiters e then
      some (executeBody
        { p with sourceLocks := Function.update p.sourceLocks source (lock.resume e) } e locals w)
    else none
  | .work work => resumeWork limits p e locals cancelled w work
  | .conditionLockToFree exit =>
    if cancelled then
      -- the destination stays claimed
      some (leaveExecuteRun { p with destinationCv := { cv with lock := cv.lock.abort e } } e
        .cancelled w.now)
    else if woken cv.lock.waiters e then
      some (leaveExecuteRun
        (freeDestination { p with destinationCv := { cv with lock := cv.lock.resume e } } e) e exit
        w.now)
    else none

def resume (limits : Limits) (p : Process) (e : Nat) (w : World) : Option Process :=
  match p.phase e with
  | .absent | .ended => none
  | .created true => some { p with phase := Function.update p.phase e .ended }
  | .created false => some (executeRun p e w)
  | .suspended await locals cancelled => resumeAwait limits p e locals cancelled w await

def interruptAwait (p : Process) (e : Nat) (locals : Locals) : Await → Process
  | .conditionLock | .conditionLockAgain _ | .conditionLockToFree _ =>
    let lock := p.destinationCv.lock
    { p with destinationCv :=
        { p.destinationCv with lock := { lock with waiters := interrupt lock.waiters e } } }
  | .notification =>
    { p with destinationCv :=
        { p.destinationCv with waiters := interrupt p.destinationCv.waiters e } }
  | .permit =>
    { p with globalSem := { p.globalSem with waiters := interrupt p.globalSem.waiters e } }
  | .sourceLock =>
    let lock := p.sourceLocks locals.task.sourceId
    let lock := { lock with waiters := interrupt lock.waiters e }
    { p with sourceLocks := Function.update p.sourceLocks locals.task.sourceId lock }
  | .work _ => p

def cancel (p : Process) (e : Nat) : Process :=
  match p.phase e with
  | .absent | .ended => p
  | .created _ => { p with phase := Function.update p.phase e (.created true) }
  | .suspended await locals _ =>
    { interruptAwait p e locals await with
      phase := Function.update p.phase e (.suspended await locals true) }

def report (p : Process) (e : Nat) (outcome : CancelOutcome) (state : Option RunState) : Process :=
  { p with cancelResults := ⟨e, outcome, state⟩ :: p.cancelResults }

def cancelRun (p : Process) (e : Nat) : Process :=
  match p.db.runs.get e with
  | none => report p e .notFound none
  | some run =>
    if run.state.active then
      match p.runOwners.get e with
      | none => report p e .notOwned (some run.state)
      | some owner =>
        let p := { p with runOwners := p.runOwners.put { owner with cancelRequested := true } }
        { cancel p e with cancelCalls := e :: p.cancelCalls }
    else report p e .alreadyFinished (some run.state)

/-- The rest of cancel_run, once the execution has settled or the wait for it has timed out. -/
def cancelSettled (p : Process) (e : Nat) : Option Process :=
  if e ∈ p.cancelCalls then
    let p := { p with cancelCalls := p.cancelCalls.erase e }
    let state := (p.db.runs.get e).map Run.state
    if state = some .cancelled then some (report p e .cancelled state)
    else if state.any RunState.active then some (report p e .stillRunning state)
    else some (report p e .alreadyFinished state)
  else none

inductive Act where
  | admission (task : Nat) (stamp : Stamp)
  | start (run : Nat)
  | startFailed (run : Nat) (now : Int)
  | resume (run : Nat) (world : World)
  | cancel (run : Nat)
  | cancelRun (run : Nat)
  | cancelSettled (run : Nat)
  | sweep (now : Int)

def startable (p : Process) (e : Nat) : Bool :=
  decide (p.phase e = .absent) && (p.db.runs.get e).isSome

def Process.step (limits : Limits) (p : Process) : Act → Option Process
  | .admission task stamp =>
    some { p with db := ((admitRun p.db task stamp).map Prod.fst).getD p.db }
  | .start run =>
    if startable p run then some { p with phase := Function.update p.phase run (.created false) }
    else none
  | .startFailed run now =>
    if startable p run then
      some { p with
        db := (terminalizeOwnedRun p.db run OwnerExit.failedToStart.message false now).1
        phase := Function.update p.phase run .ended }
    else none
  | .resume run world => resume limits p run world
  -- any cancellation that is not an operator's, the shutdown's above all
  | .cancel run => some (cancel p run)
  | .cancelRun run => some (cancelRun p run)
  | .cancelSettled run => cancelSettled p run
  | .sweep now =>
    some { p with db := sweepOrphanedRuns p.db (p.runOwners.rows.map RunOwner.runId) now }

def Moves (limits : Limits) (p : Process) (act : Act) (q : Process) : Prop :=
  p.step limits act = some q

def ReachableFrom (limits : Limits) (p : Process) : Prop :=
  ∃ db now acts, History.Trace (Moves limits) (Process.init limits db now) acts p

end Pullbackup
