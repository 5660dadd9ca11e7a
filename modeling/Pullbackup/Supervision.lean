import Pullbackup.Execution
import Pullbackup.Pruning

/- The commands of one run and the leaders of their process groups (services/runner.py), on
   the clock of the event loop: one deadline for all of them, and one way to end a group. -/
namespace Pullbackup
open History Text

/-- How late the loop serves what is ready, and how late a killed leader is reaped. -/
structure Promptness where
  lag : Int
  reap : Int
  lagNonneg : 0 ≤ lag
  reapNonneg : 0 ≤ reap

structure RunPlan where
  task : Task
  zfsDestRoots : String
  runTimeoutSeconds : Int

/-- The leader of a process group, with the signals that its group was sent. A member that
    outlives its leader is not seen: nothing here waits for it or signals it again. -/
structure Leader where
  termAt : Option Int := none
  killAt : Option Int := none
  exited : Option (Int × Int) := none
  deriving DecidableEq, Repr

inductive Command where
  | transfer
  | list
  | destroy (name : String) (rest : List String)
  deriving DecidableEq, Repr

/-- How far _terminate_process_group has come. -/
inductive Kill where
  | begun
  | terminated (instant : Int)
  | killed (instant : Int)
  deriving DecidableEq, Repr

inductive BodyEnd where
  | concludes (ending : Ending)
  | leaves (exit : Exit)
  deriving DecidableEq, Repr

inductive Doing where
  | launching (command : Command)
  | waiting (command : Command)
  | cleaning (command : Command) (timedOut : Bool) (kill : Kill)
  | finished (body : BodyEnd)
  deriving DecidableEq, Repr

/-- The body of a run between two suspensions. The newest leader comes first; since is when the
    body was last served, and cancelledAt when a cancellation came that it has not seen. -/
structure Supervision where
  deadline : Option Int
  now : Int
  since : Int
  doing : Doing := .launching .transfer
  cancelledAt : Option Int := none
  leaders : List Leader := []
  refused : Bool := false
  deriving DecidableEq, Repr

def terminateSeconds : Int := 5

def runDeadline (timeout now : Int) : Option Int :=
  if timeout ≤ 0 then none else some (now + seconds timeout)

def remainingTime (deadline : Option Int) (now : Int) : Option Int :=
  deadline.map fun d => max 0 (d - now)

def Supervision.begin (plan : RunPlan) (now : Int) : Supervision :=
  { deadline := runDeadline plan.runTimeoutSeconds now, now := now, since := now }

def Supervision.serve (s : Supervision) (doing : Doing) : Supervision :=
  { s with doing := doing, since := s.now }

/-- _await_bounded and _communicate_bounded: with nothing left, wait_for does not wait. -/
def Supervision.awaitBounded (s : Supervision) (command : Command) : Supervision :=
  if remainingTime s.deadline s.now = some 0 then s.serve (.cleaning command true .begun)
  else s.serve (.waiting command)

/-- The snapshots that _prune_zfs_hourly destroys, of what zfs list has written. -/
def excessSnapshots (dataset : String) (keep : Int) (output : String) : List String :=
  let snaps := (splitLines output).filter (startsWith (hourlyPrefix dataset))
  snaps.take (max 0 ((snaps.length : Int) - keep)).toNat

def destroyNext : List String → Doing
  | [] => .finished (.concludes (.exited 0))
  | name :: rest => .launching (.destroy name rest)

/-- _execute_run when the transfer has exited: a prune that raises at once is only logged. -/
def transferred (plan : RunPlan) (code : Int) : Doing :=
  match plan.task.pruneKeepHourly with
  | none => .finished (.concludes (.exited code))
  | some keep =>
    if plan.task.taskType = "syncoid" ∧ code = 0 ∧ 1 ≤ keep ∧
        (validateZfsDestination plan.zfsDestRoots plan.task.localPath).isOk then
      .launching .list
    else .finished (.concludes (.exited code))

/-- What comes after a command that has exited; only the transfer's code is looked at. -/
def Command.next (plan : RunPlan) (code : Int) (output : String) : Command → Doing
  | .transfer => transferred plan code
  | .list =>
    destroyNext
      (excessSnapshots plan.task.localPath (plan.task.pruneKeepHourly.getD 0) output)
  | .destroy _ rest => destroyNext rest

def Command.notLaunched : Command → BodyEnd
  | .transfer => .concludes (.exited (-1))
  | .list | .destroy _ _ => .concludes (.exited 0)

def Command.abandoned : Command → BodyEnd
  | .transfer => .concludes .cancelled
  | .list | .destroy _ _ => .leaves .cancelled

def Command.cleaned (plan : RunPlan) (timedOut : Bool) : Command → BodyEnd
  | .transfer => .concludes (if timedOut then .timedOut plan.runTimeoutSeconds else .cancelled)
  | .list | .destroy _ _ =>
    if timedOut then .concludes (.timedOut plan.runTimeoutSeconds) else .leaves .cancelled

/-- A cleanup whose killpg raises. Without a deadline the cancellation of a transfer is cleaned
    up in a handler of _execute_run itself, which nothing catches. -/
def Command.notCleaned (bounded timedOut : Bool) (error : String) : Command → BodyEnd
  | .transfer =>
    if bounded || timedOut then .concludes (.exited (-1))
    else .leaves (.raised "PermissionError" error)
  | .list | .destroy _ _ => .concludes (.exited 0)

def Supervision.leader (s : Supervision) : Leader := s.leaders.headD {}

def Supervision.onLeader (s : Supervision) (f : Leader → Leader) : Supervision :=
  { s with leaders := s.leaders.modifyHead f }

/-- The instants that time does not pass before the body or its leader has moved. -/
def Supervision.horizon (prompt : Promptness) (s : Supervision) : List Int :=
  let late (ts : List Int) := ts.map (· + prompt.lag)
  match s.doing with
  | .launching _ => late (s.since :: s.cancelledAt.toList)
  | .waiting _ => late (s.deadline.toList ++ s.cancelledAt.toList)
  | .cleaning _ _ .begun => late [s.since]
  | .cleaning _ _ (.terminated t) => late [t + seconds terminateSeconds]
  | .cleaning _ _ (.killed t) =>
    match s.leader.exited with
    | none => [t + prompt.reap]
    | some (_, exitedAt) => late [max t exitedAt]
  | .finished _ => []

inductive SuperviseAct where
  | tick (t : Int)
  | exit (code : Int)
  | cancel
  | spawned
  | notSpawned
  | returns (output : String)
  | expires
  | interrupted
  | terminate
  | kill
  | refused (error : String)
  | reaped
  deriving DecidableEq, Repr

/-- The loop's clock, the leader that exits, Task.cancel, and the turns of the body: spawned to
    interrupted are those of the execution, terminate to reaped those of its cleanup. -/
def Supervision.step (plan : RunPlan) (prompt : Promptness) (s : Supervision) :
    SuperviseAct → Option Supervision
  | .tick t =>
    if s.now ≤ t ∧ ∀ h ∈ s.horizon prompt, t ≤ h then some { s with now := t } else none
  | .exit code =>
    if s.leaders ≠ [] ∧ s.leader.exited = none then
      some (s.onLeader fun leader => { leader with exited := some (code, s.now) })
    else none
  | .cancel =>
    match s.doing with
    | .finished _ => some s
    | _ => some { s with cancelledAt := some (s.cancelledAt.getD s.now) }
  | .spawned =>
    match s.doing, s.cancelledAt with
    | .launching command, none => some ({ s with leaders := {} :: s.leaders }.awaitBounded command)
    | _, _ => none
  | .notSpawned =>
    match s.doing, s.cancelledAt with
    | .launching command, none => some (s.serve (.finished command.notLaunched))
    | _, _ => none
  | .returns output =>
    match s.doing, s.cancelledAt, s.leader.exited with
    | .waiting command, none, some (code, _) => some (s.serve (command.next plan code output))
    | _, _, _ => none
  | .expires =>
    match s.doing, s.cancelledAt with
    | .waiting command, none =>
      if s.deadline.any (· ≤ s.now) then some (s.serve (.cleaning command true .begun)) else none
    | _, _ => none
  | .interrupted =>
    match s.doing, s.cancelledAt with
    | .launching command, some _ =>
      some { s.serve (.finished command.abandoned) with cancelledAt := none }
    | .waiting command, some _ =>
      some { s.serve (.cleaning command false .begun) with cancelledAt := none }
    -- the shield swallows it
    | .cleaning _ _ _, some _ => some { s with cancelledAt := none }
    | _, _ => none
  | .terminate =>
    match s.doing with
    | .cleaning command timedOut .begun =>
      if s.leader.exited = none then
        some { s.onLeader (fun leader => { leader with termAt := some s.now }) with
          doing := .cleaning command timedOut (.terminated s.now) }
      else none
    | _ => none
  | .kill =>
    match s.doing with
    | .cleaning command timedOut (.terminated t) =>
      if t + seconds terminateSeconds ≤ s.now then
        some { s.onLeader (fun leader => { leader with killAt := some s.now }) with
          doing := .cleaning command timedOut (.killed s.now) }
      else none
    | _ => none
  | .refused error =>
    match s.doing with
    | .cleaning command timedOut .begun =>
      if s.leader.exited = none then
        some { s.serve (.finished (command.notCleaned s.deadline.isSome timedOut error)) with
          cancelledAt := none, refused := true }
      else none
    | .cleaning command timedOut (.terminated t) =>
      if t + seconds terminateSeconds ≤ s.now then
        some { s.serve (.finished (command.notCleaned s.deadline.isSome timedOut error)) with
          cancelledAt := none, refused := true }
      else none
    | _ => none
  | .reaped =>
    match s.doing, s.leader.exited with
    | .cleaning command timedOut _, some _ =>
      some { s.serve (.finished (command.cleaned plan timedOut)) with cancelledAt := none }
    | _, _ => none

/-- What a step did, and what it found. -/
inductive SuperviseStep (plan : RunPlan) (prompt : Promptness) (s : Supervision) :
    SuperviseAct → Supervision → Prop where
  | tick {t : Int} (later : s.now ≤ t) (soon : ∀ h ∈ s.horizon prompt, t ≤ h) :
      SuperviseStep plan prompt s (.tick t) { s with now := t }
  | exit {code : Int} (started : s.leaders ≠ []) (runs : s.leader.exited = none) :
      SuperviseStep plan prompt s (.exit code)
        (s.onLeader fun leader => { leader with exited := some (code, s.now) })
  | ignored {body : BodyEnd} (finished : s.doing = .finished body) :
      SuperviseStep plan prompt s .cancel s
  | cancel (live : ∀ body, s.doing ≠ .finished body) :
      SuperviseStep plan prompt s .cancel { s with cancelledAt := some (s.cancelledAt.getD s.now) }
  | spawned {command : Command} (launching : s.doing = .launching command)
      (calm : s.cancelledAt = none) :
      SuperviseStep plan prompt s .spawned ({ s with leaders := {} :: s.leaders }.awaitBounded command)
  | notSpawned {command : Command} (launching : s.doing = .launching command)
      (calm : s.cancelledAt = none) :
      SuperviseStep plan prompt s .notSpawned (s.serve (.finished command.notLaunched))
  | returns {command : Command} {output : String} {code instant : Int}
      (waiting : s.doing = .waiting command) (calm : s.cancelledAt = none)
      (exited : s.leader.exited = some (code, instant)) :
      SuperviseStep plan prompt s (.returns output) (s.serve (command.next plan code output))
  | expires {command : Command} {deadline : Int} (waiting : s.doing = .waiting command)
      (calm : s.cancelledAt = none) (bounded : s.deadline = some deadline) (past : deadline ≤ s.now) :
      SuperviseStep plan prompt s .expires (s.serve (.cleaning command true .begun))
  | abandoned {command : Command} {instant : Int} (launching : s.doing = .launching command)
      (cancelled : s.cancelledAt = some instant) :
      SuperviseStep plan prompt s .interrupted
        { s.serve (.finished command.abandoned) with cancelledAt := none }
  | interrupted {command : Command} {instant : Int} (waiting : s.doing = .waiting command)
      (cancelled : s.cancelledAt = some instant) :
      SuperviseStep plan prompt s .interrupted
        { s.serve (.cleaning command false .begun) with cancelledAt := none }
  | swallowed {command : Command} {timedOut : Bool} {kill : Kill} {instant : Int}
      (cleaning : s.doing = .cleaning command timedOut kill) (cancelled : s.cancelledAt = some instant) :
      SuperviseStep plan prompt s .interrupted { s with cancelledAt := none }
  | terminate {command : Command} {timedOut : Bool}
      (cleaning : s.doing = .cleaning command timedOut .begun) (runs : s.leader.exited = none) :
      SuperviseStep plan prompt s .terminate
        { s.onLeader (fun leader => { leader with termAt := some s.now }) with
          doing := .cleaning command timedOut (.terminated s.now) }
  | kill {command : Command} {timedOut : Bool} {t : Int}
      (cleaning : s.doing = .cleaning command timedOut (.terminated t))
      (past : t + seconds terminateSeconds ≤ s.now) :
      SuperviseStep plan prompt s .kill
        { s.onLeader (fun leader => { leader with killAt := some s.now }) with
          doing := .cleaning command timedOut (.killed s.now) }
  | refused {command : Command} {timedOut : Bool} {kill : Kill} {error : String}
      (cleaning : s.doing = .cleaning command timedOut kill) :
      SuperviseStep plan prompt s (.refused error)
        { s.serve (.finished (command.notCleaned s.deadline.isSome timedOut error)) with
          cancelledAt := none, refused := true }
  | reaped {command : Command} {timedOut : Bool} {kill : Kill} {code instant : Int}
      (cleaning : s.doing = .cleaning command timedOut kill)
      (exited : s.leader.exited = some (code, instant)) :
      SuperviseStep plan prompt s .reaped
        { s.serve (.finished (command.cleaned plan timedOut)) with cancelledAt := none }

section Supervising
variable {plan : RunPlan} {prompt : Promptness} {s t : Supervision} {act : SuperviseAct}

theorem supervise_cases (stepped : s.step plan prompt act = some t) :
    SuperviseStep plan prompt s act t := by
  cases act with
  | tick instant =>
    simp only [Supervision.step] at stepped
    split at stepped
    · rename_i order
      cases stepped
      exact .tick order.1 order.2
    · cases stepped
  | exit code =>
    simp only [Supervision.step] at stepped
    split at stepped
    · rename_i running
      cases stepped
      exact .exit running.1 running.2
    · cases stepped
  | cancel =>
    simp only [Supervision.step] at stepped
    split at stepped
    · rename_i finished
      cases stepped
      exact .ignored finished
    · rename_i live
      cases stepped
      exact .cancel live
  | spawned =>
    simp only [Supervision.step] at stepped
    split at stepped
    · rename_i launching calm
      cases stepped
      exact .spawned launching calm
    · cases stepped
  | notSpawned =>
    simp only [Supervision.step] at stepped
    split at stepped
    · rename_i launching calm
      cases stepped
      exact .notSpawned launching calm
    · cases stepped
  | returns output =>
    simp only [Supervision.step] at stepped
    split at stepped
    · rename_i waiting calm exited
      cases stepped
      exact .returns waiting calm exited
    · cases stepped
  | expires =>
    simp only [Supervision.step] at stepped
    split at stepped
    · rename_i waiting calm
      split at stepped
      · rename_i past
        cases stepped
        cases bounded : s.deadline with
        | none => simp [bounded] at past
        | some deadline => exact .expires waiting calm bounded (by simpa [bounded] using past)
      · cases stepped
    · cases stepped
  | interrupted =>
    simp only [Supervision.step] at stepped
    split at stepped
    · rename_i launching cancelled
      cases stepped
      exact .abandoned launching cancelled
    · rename_i waiting cancelled
      cases stepped
      exact .interrupted waiting cancelled
    · rename_i cleaning cancelled
      cases stepped
      exact .swallowed cleaning cancelled
    · cases stepped
  | terminate =>
    simp only [Supervision.step] at stepped
    split at stepped
    · rename_i cleaning
      split at stepped
      · rename_i runs
        cases stepped
        exact .terminate cleaning runs
      · cases stepped
    · cases stepped
  | kill =>
    simp only [Supervision.step] at stepped
    split at stepped
    · rename_i cleaning
      split at stepped
      · rename_i past
        cases stepped
        exact .kill cleaning past
      · cases stepped
    · cases stepped
  | refused error =>
    simp only [Supervision.step] at stepped
    split at stepped
    · rename_i cleaning
      split at stepped
      · cases stepped
        exact .refused cleaning
      · cases stepped
    · rename_i cleaning
      split at stepped
      · cases stepped
        exact .refused cleaning
      · cases stepped
    · cases stepped
  | reaped =>
    simp only [Supervision.step] at stepped
    split at stepped
    · rename_i cleaning exited
      cases stepped
      exact .reaped cleaning exited
    · cases stepped

/- What a step does to the fields that the body does not suspend with. -/

@[simp] theorem serve_doing (doing : Doing) : (s.serve doing).doing = doing := rfl
@[simp] theorem serve_now (doing : Doing) : (s.serve doing).now = s.now := rfl
@[simp] theorem serve_since (doing : Doing) : (s.serve doing).since = s.now := rfl
@[simp] theorem serve_deadline (doing : Doing) : (s.serve doing).deadline = s.deadline := rfl
@[simp] theorem serve_leaders (doing : Doing) : (s.serve doing).leaders = s.leaders := rfl
@[simp] theorem serve_cancelledAt (doing : Doing) :
    (s.serve doing).cancelledAt = s.cancelledAt := rfl
@[simp] theorem serve_refused (doing : Doing) : (s.serve doing).refused = s.refused := rfl
@[simp] theorem serve_leader (doing : Doing) : (s.serve doing).leader = s.leader := rfl

theorem remainingTime_zero {deadline : Option Int} {now : Int} :
    remainingTime deadline now = some 0 ↔ ∃ d, deadline = some d ∧ d ≤ now := by
  cases deadline with
  | none => simp [remainingTime]
  | some d =>
    simp only [remainingTime, Option.map_some, Option.some.injEq, exists_eq_left']
    omega

/-- The wait for a new command begins, unless nothing is left of the deadline. -/
theorem awaitBounded_cases (s : Supervision) (command : Command) :
    (∃ d, s.deadline = some d ∧ d ≤ s.now ∧
        s.awaitBounded command = s.serve (.cleaning command true .begun)) ∨
      (∀ d, s.deadline = some d → s.now < d) ∧
        s.awaitBounded command = s.serve (.waiting command) := by
  unfold Supervision.awaitBounded
  split
  · rename_i none_left
    obtain ⟨d, bounded, past⟩ := remainingTime_zero.mp none_left
    exact .inl ⟨d, bounded, past, rfl⟩
  · rename_i some_left
    refine .inr ⟨fun d bounded => ?_, rfl⟩
    by_contra past
    exact some_left (remainingTime_zero.mpr ⟨d, bounded, by omega⟩)

@[simp] theorem onLeader_now (f : Leader → Leader) : (s.onLeader f).now = s.now := rfl
@[simp] theorem onLeader_doing (f : Leader → Leader) : (s.onLeader f).doing = s.doing := rfl
@[simp] theorem onLeader_since (f : Leader → Leader) : (s.onLeader f).since = s.since := rfl
@[simp] theorem onLeader_deadline (f : Leader → Leader) :
    (s.onLeader f).deadline = s.deadline := rfl
@[simp] theorem onLeader_cancelledAt (f : Leader → Leader) :
    (s.onLeader f).cancelledAt = s.cancelledAt := rfl

theorem onLeader_leader {f : Leader → Leader} (started : s.leaders ≠ []) :
    (s.onLeader f).leader = f s.leader := by
  cases leaders : s.leaders with
  | nil => exact absurd leaders started
  | cons g rest => simp [Supervision.leader, Supervision.onLeader, leaders]

theorem onLeader_exited {f : Leader → Leader} (keeps : ∀ leader, (f leader).exited = leader.exited) :
    (s.onLeader f).leader.exited = s.leader.exited := by
  cases leaders : s.leaders with
  | nil => simp [Supervision.leader, Supervision.onLeader, leaders]
  | cons g rest => simp [Supervision.leader, Supervision.onLeader, leaders, keeps]

theorem next_launches_or_ends (plan : RunPlan) (code : Int) (output : String) (command : Command) :
    (∃ after, command.next plan code output = .launching after) ∨
      ∃ body, command.next plan code output = .finished body := by
  have destroys : ∀ names, (∃ after, destroyNext names = .launching after) ∨
      ∃ body, destroyNext names = .finished body := by
    intro names
    cases names with
    | nil => exact .inr ⟨_, rfl⟩
    | cons name rest => exact .inl ⟨_, rfl⟩
  cases command with
  | transfer =>
    simp only [Command.next, transferred]
    split
    · exact .inr ⟨_, rfl⟩
    · split
      · exact .inl ⟨_, rfl⟩
      · exact .inr ⟨_, rfl⟩
  | list => exact destroys _
  | destroy name rest => exact destroys rest

/-- What may be signalled, and when, in each suspension. -/
def Supervision.signals (s : Supervision) : Prop :=
  match s.doing with
  | .launching _ => ∀ g ∈ s.leaders, g.exited.isSome = true ∧ g.termAt = none
  | .waiting _ | .cleaning _ _ .begun => s.leaders ≠ [] ∧ s.leader.termAt = none
  | .cleaning _ _ (.terminated t) =>
    s.leaders ≠ [] ∧ s.leader.termAt = some t ∧ s.leader.killAt = none
  | .cleaning _ _ (.killed _) => s.leaders ≠ []
  | .finished _ => s.refused = false → ∀ g ∈ s.leaders, g.exited.isSome = true

/-- The leaders of a run: one at a time, none after a signal, and killed five seconds after it
    was terminated. -/
structure Supervision.Sound (s : Supervision) : Prop where
  older : ∀ g ∈ s.leaders.tail, g.exited.isSome = true ∧ g.termAt = none
  signals : s.signals
  escalated : ∀ g ∈ s.leaders, (g.termAt = none → g.killAt = none) ∧
    ∀ k, g.killAt = some k → ∃ t, g.termAt = some t ∧ t + seconds terminateSeconds ≤ k

theorem begin_sound (start : Int) : (Supervision.begin plan start).Sound := by
  refine ⟨?_, ?_, ?_⟩
  · intro g mem
    cases mem
  · intro g mem
    cases mem
  · intro g mem
    cases mem

theorem forall_leaders {P : Leader → Prop} (started : s.leaders ≠ []) :
    (∀ g ∈ s.leaders, P g) ↔ P s.leader ∧ ∀ g ∈ s.leaders.tail, P g := by
  cases leaders : s.leaders with
  | nil => exact absurd leaders started
  | cons g rest => simp [Supervision.leader, leaders]

theorem onLeader_tail (f : Leader → Leader) : (s.onLeader f).leaders.tail = s.leaders.tail := by
  cases leaders : s.leaders <;> simp [Supervision.onLeader, leaders]

theorem onLeader_started {f : Leader → Leader} :
    (s.onLeader f).leaders ≠ [] ↔ s.leaders ≠ [] := by
  simp [Supervision.onLeader]

theorem onLeader_forall {f : Leader → Leader} {P : Leader → Prop} (started : s.leaders ≠ [])
    (here : P (f s.leader)) (older : ∀ g ∈ s.leaders.tail, P g) :
    ∀ g ∈ (s.onLeader f).leaders, P g := by
  rw [forall_leaders (onLeader_started.mpr started), onLeader_leader started, onLeader_tail]
  exact ⟨here, older⟩

theorem sound_started (sound : s.Sound)
    (busy : (∃ command, s.doing = .waiting command) ∨
      ∃ command timedOut kill, s.doing = .cleaning command timedOut kill) : s.leaders ≠ [] := by
  have signals := sound.signals
  unfold Supervision.signals at signals
  rcases busy with ⟨command, doing⟩ | ⟨command, timedOut, kill, doing⟩
  · rw [doing] at signals
    exact signals.1
  · rw [doing] at signals
    cases kill with
    | begun => exact signals.1
    | terminated instant => exact signals.1
    | killed instant => exact signals

theorem exit_sound {code : Int} (sound : s.Sound) (started : s.leaders ≠ []) :
    (s.onLeader fun leader => { leader with exited := some (code, s.now) }).Sound := by
  have signals := sound.signals
  have here := (forall_leaders started).mp sound.escalated
  refine ⟨?_, ?_, ?_⟩
  · rw [onLeader_tail]
    exact sound.older
  · unfold Supervision.signals at signals ⊢
    rw [onLeader_doing]
    cases doing : s.doing with
    | launching command =>
      simp only [doing] at signals
      have all := (forall_leaders started).mp signals
      exact onLeader_forall started ⟨rfl, all.1.2⟩ all.2
    | waiting command =>
      simp only [doing] at signals
      refine ⟨onLeader_started.mpr started, ?_⟩
      rw [onLeader_leader started]
      exact signals.2
    | cleaning command timedOut kill =>
      simp only [doing] at signals
      cases kill with
      | begun =>
        refine ⟨onLeader_started.mpr started, ?_⟩
        rw [onLeader_leader started]
        exact signals.2
      | terminated instant =>
        refine ⟨onLeader_started.mpr started, ?_⟩
        rw [onLeader_leader started]
        exact signals.2
      | killed instant => exact onLeader_started.mpr started
    | finished body =>
      simp only [doing] at signals
      intro kept
      exact onLeader_forall started rfl ((forall_leaders started).mp (signals kept)).2
  · exact onLeader_forall started here.1 here.2

theorem next_signals {code : Int} {output : String} {command : Command}
    (ended : ∀ g ∈ s.leaders, g.exited.isSome = true ∧ g.termAt = none) :
    (s.serve (command.next plan code output)).signals := by
  rcases next_launches_or_ends plan code output command with ⟨after, next⟩ | ⟨body, next⟩
  · rw [next]
    exact ended
  · rw [next]
    exact fun _ g mem => (ended g mem).1

theorem step_sound (sound : s.Sound) (step : SuperviseStep plan prompt s act t) : t.Sound := by
  have signals := sound.signals
  cases step with
  | tick later soon => exact ⟨sound.older, sound.signals, sound.escalated⟩
  | exit started runs => exact exit_sound sound started
  | ignored finished => exact sound
  | cancel live => exact ⟨sound.older, sound.signals, sound.escalated⟩
  | spawned launching calm =>
    rename_i command
    simp only [Supervision.signals, launching] at signals
    have fresh : ∀ g ∈ ({} : Leader) :: s.leaders, (g.termAt = none → g.killAt = none) ∧
        ∀ k, g.killAt = some k → ∃ t, g.termAt = some t ∧ t + seconds terminateSeconds ≤ k := by
      intro g mem
      rcases List.mem_cons.mp mem with rfl | old
      · exact ⟨fun _ => rfl, fun k killed => by cases killed⟩
      · exact sound.escalated g old
    rcases awaitBounded_cases { s with leaders := {} :: s.leaders } command with
      ⟨-, -, -, await⟩ | ⟨-, await⟩
    · rw [await]
      exact ⟨signals, ⟨List.cons_ne_nil _ _, rfl⟩, fresh⟩
    · rw [await]
      exact ⟨signals, ⟨List.cons_ne_nil _ _, rfl⟩, fresh⟩
  | notSpawned launching calm =>
    simp only [Supervision.signals, launching] at signals
    exact ⟨sound.older, fun _ g mem => (signals g mem).1, sound.escalated⟩
  | returns waiting calm exited =>
    simp only [Supervision.signals, waiting] at signals
    refine ⟨sound.older, next_signals ?_, sound.escalated⟩
    rw [forall_leaders signals.1]
    exact ⟨⟨by rw [exited]; rfl, signals.2⟩, sound.older⟩
  | expires waiting calm bounded past =>
    simp only [Supervision.signals, waiting] at signals
    exact ⟨sound.older, signals, sound.escalated⟩
  | abandoned launching cancelled =>
    simp only [Supervision.signals, launching] at signals
    exact ⟨sound.older, fun _ g mem => (signals g mem).1, sound.escalated⟩
  | interrupted waiting cancelled =>
    simp only [Supervision.signals, waiting] at signals
    exact ⟨sound.older, signals, sound.escalated⟩
  | swallowed cleaning cancelled => exact ⟨sound.older, sound.signals, sound.escalated⟩
  | terminate cleaning runs =>
    simp only [Supervision.signals, cleaning] at signals
    have here := (forall_leaders signals.1).mp sound.escalated
    have unkilled := here.1.1 signals.2
    refine ⟨?_, ?_, ?_⟩
    · exact (onLeader_tail _).symm ▸ sound.older
    · refine ⟨onLeader_started.mpr signals.1, ?_, ?_⟩
      · exact congrArg Leader.termAt (onLeader_leader signals.1)
      · exact (congrArg Leader.killAt (onLeader_leader signals.1)).trans unkilled
    · refine onLeader_forall signals.1 ⟨nofun, fun k killed => ?_⟩ here.2
      rw [unkilled] at killed
      cases killed
  | kill cleaning past =>
    simp only [Supervision.signals, cleaning] at signals
    have here := (forall_leaders signals.1).mp sound.escalated
    refine ⟨?_, ?_, ?_⟩
    · exact (onLeader_tail _).symm ▸ sound.older
    · exact onLeader_started.mpr signals.1
    · refine onLeader_forall signals.1 ⟨fun absent => ?_, fun k killed => ?_⟩ here.2
      · rw [signals.2.1] at absent
        cases absent
      · cases killed
        exact ⟨_, signals.2.1, past⟩
  | refused cleaning =>
    exact ⟨sound.older, nofun, sound.escalated⟩
  | reaped cleaning exited =>
    have started := sound_started sound (.inr ⟨_, _, _, cleaning⟩)
    refine ⟨sound.older, fun _ => ?_, sound.escalated⟩
    exact (forall_leaders started).mpr ⟨by rw [exited]; rfl, fun g mem => (sound.older g mem).1⟩

def TransferExited (leaders : List Leader) : Prop :=
  ∃ instant, leaders.getLast?.bind Leader.exited = some (0, instant)

/-- A prune comes after a transfer that has exited with zero. -/
def Command.Follows (leaders : List Leader) : Command → Prop
  | .transfer => leaders = []
  | .list | .destroy _ _ => TransferExited leaders

def Supervision.InOrder (s : Supervision) : Prop :=
  match s.doing with
  | .launching command => command.Follows s.leaders
  | .waiting command | .cleaning command _ _ => s.leaders ≠ [] ∧ command.Follows s.leaders.tail
  | .finished body => body = .concludes (.exited 0) → TransferExited s.leaders

theorem transferExited_cons {leaders : List Leader} (ended : TransferExited leaders) (g : Leader) :
    TransferExited (g :: leaders) := by
  obtain ⟨instant, ended⟩ := ended
  cases last : leaders.getLast? with
  | none => simp [last] at ended
  | some transfer => exact ⟨instant, by simpa [List.getLast?_cons, last] using ended⟩

theorem transferExited_of_tail (ended : TransferExited s.leaders.tail) :
    TransferExited s.leaders := by
  cases leaders : s.leaders with
  | nil => simpa [leaders] using ended
  | cons g rest => exact transferExited_cons (by simpa [leaders] using ended) g

theorem transferExited_tail (ended : TransferExited s.leaders) (runs : s.leader.exited = none) :
    TransferExited s.leaders.tail := by
  obtain ⟨instant, ended⟩ := ended
  cases leaders : s.leaders with
  | nil => simp [leaders] at ended
  | cons g rest =>
    cases rest with
    | nil =>
      simp only [Supervision.leader, leaders, List.headD_cons] at runs
      simp [leaders, runs] at ended
    | cons h rest => exact ⟨instant, by simpa [leaders] using ended⟩

theorem follows_exited {command : Command} {code instant : Int} (started : s.leaders ≠ [])
    (follows : command.Follows s.leaders.tail) (exited : s.leader.exited = some (code, instant)) :
    (command ≠ .transfer ∨ code = 0) → TransferExited s.leaders := by
  intro clean
  cases command with
  | transfer =>
    obtain rfl : code = 0 := clean.resolve_left (absurd rfl)
    cases leaders : s.leaders with
    | nil => exact absurd leaders started
    | cons g rest =>
      simp only [Command.Follows, leaders, List.tail_cons] at follows
      simp only [Supervision.leader, leaders, List.headD_cons] at exited
      exact ⟨instant, by simp [follows, exited]⟩
  | list => exact transferExited_of_tail follows
  | destroy name rest => exact transferExited_of_tail follows

theorem destroyNext_inOrder (ended : TransferExited s.leaders) (names : List String) :
    (s.serve (destroyNext names)).InOrder := by
  cases names with
  | nil => exact fun _ => ended
  | cons name rest => exact ended

theorem next_inOrder {command : Command} {code : Int} {output : String}
    (ended : (command ≠ .transfer ∨ code = 0) → TransferExited s.leaders) :
    (s.serve (command.next plan code output)).InOrder := by
  cases command with
  | transfer =>
    have concluded : (s.serve (.finished (.concludes (.exited code)))).InOrder := by
      intro same
      cases same
      exact ended (.inr rfl)
    simp only [Command.next, transferred]
    split
    · exact concluded
    · split
      · rename_i pruned
        exact ended (.inr pruned.2.1)
      · exact concluded
  | list => exact destroyNext_inOrder (ended (.inl nofun)) _
  | destroy name rest => exact destroyNext_inOrder (ended (.inl nofun)) rest

theorem begin_inOrder (start : Int) : (Supervision.begin plan start).InOrder := rfl

theorem exit_inOrder {code : Int} (inOrder : s.InOrder) (started : s.leaders ≠ [])
    (runs : s.leader.exited = none) :
    (s.onLeader fun leader => { leader with exited := some (code, s.now) }).InOrder := by
  unfold Supervision.InOrder at inOrder ⊢
  rw [onLeader_doing, onLeader_tail]
  cases doing : s.doing with
  | launching command =>
    rw [doing] at inOrder
    cases command with
    | transfer => exact absurd inOrder started
    | list =>
      exact transferExited_of_tail ((onLeader_tail _).symm ▸ transferExited_tail inOrder runs)
    | destroy name rest =>
      exact transferExited_of_tail ((onLeader_tail _).symm ▸ transferExited_tail inOrder runs)
  | waiting command =>
    rw [doing] at inOrder
    exact ⟨onLeader_started.mpr started, inOrder.2⟩
  | cleaning command timedOut kill =>
    rw [doing] at inOrder
    exact ⟨onLeader_started.mpr started, inOrder.2⟩
  | finished body =>
    rw [doing] at inOrder
    intro same
    exact transferExited_of_tail ((onLeader_tail _).symm ▸ transferExited_tail (inOrder same) runs)

theorem step_inOrder (inOrder : s.InOrder) (step : SuperviseStep plan prompt s act t) :
    t.InOrder := by
  have here := inOrder
  unfold Supervision.InOrder at inOrder
  cases step with
  | tick later soon => exact here
  | exit started runs => exact exit_inOrder here started runs
  | ignored finished => exact here
  | cancel live => exact here
  | spawned launching calm =>
    rename_i command
    rw [launching] at inOrder
    rcases awaitBounded_cases { s with leaders := {} :: s.leaders } command with
      ⟨-, -, -, await⟩ | ⟨-, await⟩
    · rw [await]
      exact ⟨List.cons_ne_nil _ _, inOrder⟩
    · rw [await]
      exact ⟨List.cons_ne_nil _ _, inOrder⟩
  | notSpawned launching calm =>
    rename_i command
    rw [launching] at inOrder
    cases command with
    | transfer => exact nofun
    | list => exact fun _ => inOrder
    | destroy name rest => exact fun _ => inOrder
  | returns waiting calm exited =>
    rw [waiting] at inOrder
    exact next_inOrder (follows_exited inOrder.1 inOrder.2 exited)
  | expires waiting calm bounded past =>
    rw [waiting] at inOrder
    exact inOrder
  | abandoned launching cancelled =>
    rename_i command _
    cases command <;> exact nofun
  | interrupted waiting cancelled =>
    rw [waiting] at inOrder
    exact inOrder
  | swallowed cleaning cancelled => exact here
  | terminate cleaning runs =>
    rw [cleaning] at inOrder
    exact ⟨onLeader_started.mpr inOrder.1, (onLeader_tail _).symm ▸ inOrder.2⟩
  | kill cleaning past =>
    rw [cleaning] at inOrder
    exact ⟨onLeader_started.mpr inOrder.1, (onLeader_tail _).symm ▸ inOrder.2⟩
  | refused cleaning =>
    rename_i command timedOut _ _
    rw [cleaning] at inOrder
    cases command with
    | transfer =>
      simp only [Supervision.InOrder, serve_doing, Command.notCleaned]
      split <;> exact nofun
    | list => exact fun _ => transferExited_of_tail inOrder.2
    | destroy name rest => exact fun _ => transferExited_of_tail inOrder.2
  | reaped cleaning exited =>
    rename_i command timedOut _ _ _
    cases command <;> cases timedOut <;> exact nofun

/-- Why the body is where it is: what acts asked of it, and whether its deadline has passed. -/
structure Supervision.Told (plan : RunPlan) (acts : List SuperviseAct) (s : Supervision) : Prop where
  asked : s.cancelledAt.isSome = true → .cancel ∈ acts
  cleaning : ∀ command timedOut kill, s.doing = .cleaning command timedOut kill →
    if timedOut then s.deadline.any (· ≤ s.now) = true else .cancel ∈ acts
  signalled : ∀ g ∈ s.leaders, g.termAt.isSome = true →
    .cancel ∈ acts ∨ s.deadline.any (· ≤ s.now) = true
  cancelled : s.doing = .finished (.concludes .cancelled) ∨ s.doing = .finished (.leaves .cancelled) →
    .cancel ∈ acts
  timedOut : ∀ n, s.doing = .finished (.concludes (.timedOut n)) →
    n = plan.runTimeoutSeconds ∧ s.deadline.any (· ≤ s.now) = true
  refused : s.refused = true → ∃ error, .refused error ∈ acts

theorem begin_told (start : Int) : (Supervision.begin plan start).Told plan [] := by
  refine ⟨nofun, nofun, nofun, ?_, nofun, nofun⟩
  rintro (same | same) <;> cases same

theorem told_later {acts more : List SuperviseAct} (told : s.Told plan acts)
    (deadline : t.deadline = s.deadline) (later : s.now ≤ t.now) (doing : t.doing = s.doing)
    (leaders : ∀ g ∈ t.leaders, g.termAt.isSome = true → ∃ h ∈ s.leaders, h.termAt = g.termAt)
    (asked : t.cancelledAt.isSome = true → .cancel ∈ acts ++ more)
    (refused : t.refused = s.refused) : t.Told plan (acts ++ more) := by
  have past : s.deadline.any (· ≤ s.now) = true → t.deadline.any (· ≤ t.now) = true := by
    rw [deadline]
    cases s.deadline with
    | none => exact nofun
    | some d =>
      simp only [Option.any_some, decide_eq_true_eq]
      omega
  refine ⟨asked, ?_, ?_, ?_, ?_, ?_⟩
  · intro command timedOut kill cleaning
    have why := told.cleaning command timedOut kill (doing ▸ cleaning)
    cases timedOut with
    | true => exact past why
    | false => exact List.mem_append_left _ why
  · intro g mem signalled
    obtain ⟨h, mem', same⟩ := leaders g mem signalled
    rw [← same] at signalled
    exact (told.signalled h mem' signalled).imp (List.mem_append_left _) past
  · rw [doing]
    exact fun finished => List.mem_append_left _ (told.cancelled finished)
  · rw [doing]
    exact fun n finished => (told.timedOut n finished).imp_right past
  · rw [refused]
    intro ended
    obtain ⟨error, mem⟩ := told.refused ended
    exact ⟨error, List.mem_append_left _ mem⟩

/-- The body is served, and says why it suspends where it does. -/
theorem told_served {acts : List SuperviseAct} {doing : Doing} (told : s.Told plan acts)
    (cleaning : ∀ command timedOut kill, doing = .cleaning command timedOut kill →
      if timedOut then s.deadline.any (· ≤ s.now) = true else .cancel ∈ acts)
    (cancelled : doing = .finished (.concludes .cancelled) ∨ doing = .finished (.leaves .cancelled) →
      .cancel ∈ acts)
    (timedOut : ∀ n, doing = .finished (.concludes (.timedOut n)) →
      n = plan.runTimeoutSeconds ∧ s.deadline.any (· ≤ s.now) = true) :
    (s.serve doing).Told plan acts :=
  ⟨told.asked, cleaning, told.signalled, cancelled, timedOut, told.refused⟩

theorem told_uncancelled {acts : List SuperviseAct} (told : s.Told plan acts) :
    ({ s with cancelledAt := none } : Supervision).Told plan acts :=
  ⟨nofun, told.cleaning, told.signalled, told.cancelled, told.timedOut, told.refused⟩

theorem next_quiet (plan : RunPlan) (code : Int) (output : String) (command : Command)
    {body : BodyEnd} (finished : command.next plan code output = .finished body) :
    ∃ code, body = .concludes (.exited code) := by
  have destroys : ∀ names, destroyNext names = .finished body →
      ∃ code, body = .concludes (.exited code) := by
    intro names same
    cases names with
    | nil => cases same; exact ⟨_, rfl⟩
    | cons name rest => cases same
  cases command with
  | transfer =>
    simp only [Command.next, transferred] at finished
    split at finished
    · cases finished
      exact ⟨_, rfl⟩
    · split at finished
      · cases finished
      · cases finished
        exact ⟨_, rfl⟩
  | list => exact destroys _ finished
  | destroy name rest => exact destroys _ finished

theorem onLeader_leaders {f : Leader → Leader} (keeps : ∀ leader, (f leader).termAt = leader.termAt) :
    ∀ g ∈ (s.onLeader f).leaders, g.termAt.isSome = true → ∃ h ∈ s.leaders, h.termAt = g.termAt := by
  intro g mem _
  cases leaders : s.leaders with
  | nil => simp [Supervision.onLeader, leaders] at mem
  | cons h rest =>
    simp only [Supervision.onLeader, leaders, List.modifyHead_cons, List.mem_cons] at mem
    rcases mem with rfl | old
    · exact ⟨h, List.mem_cons_self, (keeps h).symm⟩
    · exact ⟨g, List.mem_cons_of_mem _ old, rfl⟩

theorem spawned_told {acts : List SuperviseAct} (told : s.Told plan acts) (command : Command) :
    (({ s with leaders := {} :: s.leaders } : Supervision).awaitBounded command).Told plan acts := by
  have fresh : ∀ g ∈ ({} : Leader) :: s.leaders, g.termAt.isSome = true →
      .cancel ∈ acts ∨ s.deadline.any (· ≤ s.now) = true := by
    intro g mem signalled
    rcases List.mem_cons.mp mem with rfl | old
    · cases signalled
    · exact told.signalled g old signalled
  rcases awaitBounded_cases { s with leaders := {} :: s.leaders } command with
    ⟨d, bounded, past, await⟩ | ⟨-, await⟩
  · rw [await]
    refine ⟨told.asked, ?_, fresh, ?_, nofun, told.refused⟩
    · intro command' timedOut kill same
      cases same
      change s.deadline.any (· ≤ s.now) = true
      change s.deadline = some d at bounded
      simpa [bounded] using past
    · rintro (finished | finished) <;> cases finished
  · rw [await]
    refine ⟨told.asked, nofun, fresh, ?_, nofun, told.refused⟩
    rintro (finished | finished) <;> cases finished

theorem notSpawned_told {acts : List SuperviseAct} (told : s.Told plan acts) (command : Command) :
    (s.serve (.finished command.notLaunched)).Told plan acts := by
  refine told_served told nofun ?_ ?_
  · rintro (finished | finished) <;> cases command <;> cases finished
  · intro n finished
    cases command <;> cases finished

theorem returns_told {acts : List SuperviseAct} (told : s.Told plan acts) (code : Int)
    (output : String) (command : Command) :
    (s.serve (command.next plan code output)).Told plan acts := by
  rcases next_launches_or_ends plan code output command with ⟨after, next⟩ | ⟨body, next⟩
  · rw [next]
    refine told_served told nofun ?_ nofun
    rintro (finished | finished) <;> cases finished
  · obtain ⟨code, quiet⟩ := next_quiet plan _ _ _ next
    rw [next, quiet]
    refine told_served told nofun ?_ nofun
    rintro (finished | finished) <;> cases finished

theorem begun_told {acts : List SuperviseAct} {timedOut : Bool} (told : s.Told plan acts)
    (command : Command)
    (why : if timedOut then s.deadline.any (· ≤ s.now) = true else .cancel ∈ acts) :
    (s.serve (.cleaning command timedOut .begun)).Told plan acts := by
  refine told_served told ?_ ?_ nofun
  · intro command' timedOut' kill cleaning
    cases cleaning
    exact why
  · rintro (finished | finished) <;> cases finished

theorem abandoned_told {acts : List SuperviseAct} (told : s.Told plan acts)
    (cancelled : .cancel ∈ acts) (command : Command) :
    (s.serve (.finished command.abandoned)).Told plan acts := by
  refine told_served told nofun (fun _ => cancelled) ?_
  intro n finished
  cases command <;> cases finished

theorem signal_told {acts : List SuperviseAct} {command : Command} {timedOut : Bool}
    {kill kill' : Kill} {f : Leader → Leader} (sound : s.Sound) (told : s.Told plan acts)
    (cleaning : s.doing = .cleaning command timedOut kill) :
    ({ s.onLeader f with doing := .cleaning command timedOut kill' } : Supervision).Told plan
      acts := by
  have why := told.cleaning _ _ _ cleaning
  have started := sound_started sound (.inr ⟨_, _, _, cleaning⟩)
  have reason : .cancel ∈ acts ∨ s.deadline.any (· ≤ s.now) = true := by
    cases timedOut with
    | true => exact .inr why
    | false => exact .inl why
  refine ⟨told.asked, ?_, ?_, ?_, nofun, told.refused⟩
  · intro command' timedOut' kill same
    cases same
    exact why
  · exact onLeader_forall started (fun _ => reason) ((forall_leaders started).mp told.signalled).2
  · rintro (finished | finished) <;> cases finished

theorem refused_told {acts : List SuperviseAct} {error : String} (told : s.Told plan acts)
    (mem : .refused error ∈ acts) (command : Command) (timedOut : Bool) :
    ({ s.serve (.finished (command.notCleaned s.deadline.isSome timedOut error)) with
      cancelledAt := none, refused := true } : Supervision).Told plan acts := by
  refine ⟨nofun, nofun, told.signalled, ?_, ?_, fun _ => ⟨error, mem⟩⟩
  · intro finished
    cases command <;> simp [Command.notCleaned] at finished
    split at finished <;> simp at finished
  · intro n finished
    cases command <;> simp [Command.notCleaned] at finished
    split at finished <;> simp at finished

theorem reaped_told {acts : List SuperviseAct} {command : Command} {timedOut : Bool} {kill : Kill}
    (told : s.Told plan acts) (cleaning : s.doing = .cleaning command timedOut kill) :
    (s.serve (.finished (command.cleaned plan timedOut))).Told plan acts := by
  have why := told.cleaning _ _ _ cleaning
  refine told_served told nofun ?_ ?_
  · intro finished
    cases command <;> cases timedOut <;> simp [Command.cleaned] at finished <;> exact why
  · intro n finished
    cases command <;> cases timedOut <;> simp [Command.cleaned] at finished <;>
      exact ⟨finished.symm, why⟩

theorem step_told {acts : List SuperviseAct} (sound : s.Sound) (told : s.Told plan acts)
    (step : SuperviseStep plan prompt s act t) : t.Told plan (acts ++ [act]) := by
  have same : ∀ g ∈ s.leaders, g.termAt.isSome = true → ∃ h ∈ s.leaders, h.termAt = g.termAt :=
    fun g mem _ => ⟨g, mem, rfl⟩
  have asked : s.cancelledAt.isSome = true → .cancel ∈ acts ++ [act] :=
    fun pending => List.mem_append_left _ (told.asked pending)
  have kept : s.Told plan (acts ++ [act]) := told_later told rfl (le_refl _) rfl same asked rfl
  cases step with
  | tick later soon => exact told_later told rfl later rfl same asked rfl
  | exit started runs =>
    exact told_later told rfl (le_refl _) rfl (onLeader_leaders fun _ => rfl) asked rfl
  | ignored finished => exact kept
  | cancel live => exact told_later told rfl (le_refl _) rfl same (fun _ => by simp) rfl
  | spawned launching calm => exact spawned_told kept _
  | notSpawned launching calm => exact notSpawned_told kept _
  | returns waiting calm exited => exact returns_told kept _ _ _
  | expires waiting calm bounded past => exact begun_told kept _ (by simpa [bounded] using past)
  | abandoned launching cancelled =>
    exact told_uncancelled (abandoned_told kept (asked (by rw [cancelled]; rfl)) _)
  | interrupted waiting cancelled =>
    exact told_uncancelled (begun_told kept _ (asked (by rw [cancelled]; rfl)))
  | swallowed cleaning cancelled => exact told_uncancelled kept
  | terminate cleaning runs => exact signal_told sound kept cleaning
  | kill cleaning past => exact signal_told sound kept cleaning
  | refused cleaning => exact refused_told kept (by simp) _ _
  | reaped cleaning exited => exact told_uncancelled (reaped_told kept cleaning)

end Supervising

def Supervises (plan : RunPlan) (prompt : Promptness) (s : Supervision) (act : SuperviseAct)
    (t : Supervision) : Prop := s.step plan prompt act = some t

theorem trace_supervised {plan : RunPlan} {prompt : Promptness} {start : Int}
    {acts : List SuperviseAct} {s : Supervision}
    (trace : Trace (Supervises plan prompt) (.begin plan start) acts s) :
    s.Sound ∧ s.InOrder ∧ s.Told plan acts := by
  induction trace with
  | nil => exact ⟨begin_sound start, begin_inOrder start, begin_told start⟩
  | snoc before last ih =>
    obtain ⟨sound, inOrder, told⟩ := ih
    have step := supervise_cases last
    exact ⟨step_sound sound step, step_inOrder inOrder step, step_told sound told step⟩

theorem step_deadline {plan : RunPlan} {prompt : Promptness} {s t : Supervision}
    {act : SuperviseAct} (step : SuperviseStep plan prompt s act t) : t.deadline = s.deadline := by
  cases step with
  | spawned launching calm =>
    rcases awaitBounded_cases { s with leaders := {} :: s.leaders } _ with
      ⟨-, -, -, await⟩ | ⟨-, await⟩
    · rw [await, serve_deadline]
    · rw [await, serve_deadline]
  | _ => rfl

theorem trace_deadline {plan : RunPlan} {prompt : Promptness} {start : Int}
    {acts : List SuperviseAct} {s : Supervision}
    (trace : Trace (Supervises plan prompt) (.begin plan start) acts s) :
    s.deadline = runDeadline plan.runTimeoutSeconds start :=
  trace_invariant (fun s => s.deadline = runDeadline plan.runTimeoutSeconds start)
    (fun _ _ _ kept stepped => (step_deadline (supervise_cases stepped)).trans kept) trace rfl

/-- The run has a ceiling and has reached it. -/
def RunPlan.Exceeded (plan : RunPlan) (start now : Int) : Prop :=
  0 < plan.runTimeoutSeconds ∧ start + seconds plan.runTimeoutSeconds ≤ now

theorem deadline_past {plan : RunPlan} {start now : Int} :
    (runDeadline plan.runTimeoutSeconds start).any (· ≤ now) = true ↔ plan.Exceeded start now := by
  unfold runDeadline RunPlan.Exceeded
  split
  · simp only [Option.any_none, Bool.false_eq_true, false_iff, not_and]
    omega
  · simp only [Option.any_some, decide_eq_true_eq]
    omega

/-- The leaders of a run's groups come one at a time, and each has been reaped when the body is
    over, unless a signal was refused. A group is signalled only on a cancellation or past the
    ceiling, and killed no sooner than five seconds later. A run ends with code zero only when
    its transfer did, as cancelled only when it was, and as timed out only past its ceiling. -/
theorem leaders_supervised {plan : RunPlan} {prompt : Promptness} {start : Int}
    {acts : List SuperviseAct} {s : Supervision}
    (trace : Trace (Supervises plan prompt) (.begin plan start) acts s) :
    (∀ g ∈ s.leaders.tail, g.exited.isSome = true) ∧
    (∀ body, s.doing = .finished body →
      (∀ g ∈ s.leaders, g.exited.isSome = true) ∨ ∃ error, .refused error ∈ acts) ∧
    (∀ g ∈ s.leaders, g.termAt.isSome = true → .cancel ∈ acts ∨ plan.Exceeded start s.now) ∧
    (∀ g ∈ s.leaders, ∀ k, g.killAt = some k →
      ∃ t, g.termAt = some t ∧ t + seconds terminateSeconds ≤ k) ∧
    (s.doing = .finished (.concludes (.exited 0)) → TransferExited s.leaders) ∧
    (s.doing = .finished (.concludes .cancelled) ∨ s.doing = .finished (.leaves .cancelled) →
      .cancel ∈ acts) ∧
    ∀ n, s.doing = .finished (.concludes (.timedOut n)) →
      n = plan.runTimeoutSeconds ∧ plan.Exceeded start s.now := by
  obtain ⟨sound, inOrder, told⟩ := trace_supervised trace
  have past : s.deadline.any (· ≤ s.now) = true → plan.Exceeded start s.now := by
    rw [trace_deadline trace]
    exact deadline_past.mp
  refine ⟨fun g mem => (sound.older g mem).1, ?_, ?_, fun g mem => (sound.escalated g mem).2, ?_,
    told.cancelled, fun n finished => (told.timedOut n finished).imp_right past⟩
  · intro body finished
    have signals := sound.signals
    simp only [Supervision.signals, finished] at signals
    cases refused : s.refused with
    | false => exact .inl (signals refused)
    | true => exact .inr (told.refused refused)
  · exact fun g mem signalled => (told.signalled g mem signalled).imp_right past
  · intro finished
    unfold Supervision.InOrder at inOrder
    rw [finished] at inOrder
    exact inOrder rfl

theorem trace_supervise {plan : RunPlan} {prompt : Promptness} {s t : Supervision}
    {acts : List SuperviseAct} (done : acts.foldlM (Supervision.step plan prompt) s = some t) :
    Trace (Supervises plan prompt) s acts t :=
  trace_of_foldlM (fun _ _ _ stepped => stepped) done

/- A transfer that ignores the SIGTERM of its ceiling, and a cancellation meanwhile. -/
namespace Sample

def hourlyCeiling : RunPlan := ⟨task, "", 3600⟩

def promptly : Promptness := ⟨seconds 1, seconds 2, by decide, by decide⟩

def stubborn : List SuperviseAct :=
  [.spawned, .tick (seconds 3600), .expires, .terminate, .cancel, .interrupted,
    .tick (seconds 3605), .kill, .exit (-9), .reaped]

def killedRun : Supervision :=
  { deadline := some (seconds 3600), now := seconds 3605, since := seconds 3605
    doing := .finished (.concludes (.timedOut 3600))
    leaders := [⟨some (seconds 3600), some (seconds 3605), some (-9, seconds 3605)⟩] }

theorem stubborn_trace :
    Trace (Supervises hourlyCeiling promptly) (.begin hourlyCeiling 0) stubborn killedRun :=
  trace_supervise (by decide +kernel)

end Sample

theorem stubborn_transfer_killed :
    (∀ g ∈ Sample.killedRun.leaders, g.exited.isSome = true) ∧
      Sample.hourlyCeiling.Exceeded 0 Sample.killedRun.now := by
  obtain ⟨-, reaped, -, -, -, -, timedOut⟩ := leaders_supervised Sample.stubborn_trace
  refine ⟨(reaped _ rfl).resolve_right ?_, (timedOut _ rfl).2⟩
  rintro ⟨error, mem⟩
  simp [Sample.stubborn] at mem

end Pullbackup
