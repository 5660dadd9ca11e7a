import Pullbackup.Lifecycle
import Pullbackup.Supervision

/- The supervised body against the body of an execution: what the one does to its commands
   on the clock, the other does as moves of the process. -/
namespace Pullbackup
open History

/-- The await of the execution that a suspension is: a prune is one, whatever it runs. -/
def Doing.work (plan : RunPlan) : Doing → Option Work
  | .launching .transfer => some (.transfer false)
  | .waiting .transfer => some (.transfer true)
  | .cleaning .transfer timedOut _ =>
    some (.cleanup (if timedOut then .timedOut plan.runTimeoutSeconds else .cancelled))
  | .launching _ | .waiting _ => some .prune
  | .cleaning _ timedOut _ => some (.pruneCleanup timedOut)
  | .finished _ => none

def BodyEnd.after (p : Process) (e : Nat) (locals : Locals) (w : World) : BodyEnd → Process
  | .concludes ending => conclude p e locals ending w
  | .leaves exit => leaveSource p e locals exit w.now

def inBody (p : Process) (e : Nat) (locals : Locals) (work : Work) (cancelled : Bool) : Process :=
  { p with phase := Function.update p.phase e (.suspended (.work work) locals cancelled) }

/-- The process q is p with its execution e where the supervision has it; nothing else of it has
    changed while the body goes on. -/
def Mirrors (plan : RunPlan) (p : Process) (e : Nat) (locals : Locals) (w : World)
    (s : Supervision) (q : Process) : Prop :=
  match s.doing with
  | .finished body => ∃ work cancelled, q = body.after (inBody p e locals work cancelled) e locals w
  | doing => ∃ work, doing.work plan = some work ∧
      q = inBody p e locals work s.cancelledAt.isSome

section Mirroring
variable {limits : Limits} {plan : RunPlan} {prompt : Promptness} {p q : Process} {e : Nat}
  {locals : Locals} {w : World} {s t : Supervision} {act : SuperviseAct} {start : Int}

theorem suspend_inBody (work work' : Work) (cancelled : Bool) :
    suspend (inBody p e locals work cancelled) e (.work work') locals =
      inBody p e locals work' false := by
  simp [suspend, inBody]

theorem cancel_inBody (work : Work) (cancelled : Bool) :
    cancel (inBody p e locals work cancelled) e = inBody p e locals work true := by
  simp [cancel, inBody, interruptAwait]

theorem resume_inBody {work : Work} {cancelled : Bool} {event : Event}
    (resumed : resumeWork limits (inBody p e locals work cancelled) e locals cancelled
      { w with event := event } work = some q) :
    Moves limits (inBody p e locals work cancelled) (.resume e { w with event := event }) q := by
  unfold Moves Process.step resume
  have phase : (inBody p e locals work cancelled).phase e =
      .suspended (.work work) locals cancelled := by
    simp [inBody]
  simp only [phase]
  exact resumed

/-- The moves of one execution that a supervision is made of. -/
def BodyMoves (limits : Limits) (e : Nat) (w : World) (p q : Process) : Prop :=
  ∃ moves, Trace (Moves limits) p moves q ∧
    ∀ m ∈ moves, m = .cancel e ∨ ∃ event, m = .resume e { w with event := event }

theorem bodyMoves_refl : BodyMoves limits e w p p := ⟨[], Trace.nil, by simp⟩

theorem bodyMoves_trans {r : Process} (first : BodyMoves limits e w p q)
    (second : BodyMoves limits e w q r) : BodyMoves limits e w p r := by
  obtain ⟨as, before, own⟩ := first
  obtain ⟨bs, after, own'⟩ := second
  refine ⟨as ++ bs, trace_append before after, fun m mem => ?_⟩
  exact (List.mem_append.mp mem).elim (own m) (own' m)

theorem bodyMoves_resume {work : Work} {cancelled : Bool} (event : Event)
    (resumed : resumeWork limits (inBody p e locals work cancelled) e locals cancelled
      { w with event := event } work = some q) :
    BodyMoves limits e w (inBody p e locals work cancelled) q := by
  refine ⟨_, trace_single (resume_inBody resumed), fun m mem => ?_⟩
  exact .inr ⟨event, List.mem_singleton.mp mem⟩

theorem bodyMoves_cancel {work : Work} {cancelled : Bool} :
    BodyMoves limits e w (inBody p e locals work cancelled) (inBody p e locals work true) := by
  refine ⟨[.cancel e], trace_single ?_, fun m mem => .inl (List.mem_singleton.mp mem)⟩
  exact congrArg some (cancel_inBody work cancelled)

theorem mirrors_live {work : Work} {cancelled : Bool} (instant : t.doing.work plan = some work)
    (flag : t.cancelledAt.isSome = cancelled) :
    Mirrors plan p e locals w t (inBody p e locals work cancelled) := by
  subst flag
  unfold Mirrors
  split
  · rename_i finished
    rw [finished] at instant
    cases instant
  · exact ⟨work, instant, rfl⟩

theorem mirrors_finished {body : BodyEnd} {work : Work} {cancelled : Bool}
    (finished : t.doing = .finished body)
    (after : q = body.after (inBody p e locals work cancelled) e locals w) :
    Mirrors plan p e locals w t q := by
  unfold Mirrors
  simp only [finished]
  exact ⟨work, cancelled, after⟩

theorem mirrors_at {work : Work} (mirrors : Mirrors plan p e locals w s q)
    (instant : s.doing.work plan = some work) :
    q = inBody p e locals work s.cancelledAt.isSome := by
  unfold Mirrors at mirrors
  split at mirrors
  · rename_i finished
    rw [finished] at instant
    cases instant
  · obtain ⟨work', found, same⟩ := mirrors
    cases found.symm.trans instant
    exact same

theorem mirrors_same (mirrors : Mirrors plan p e locals w s q) (doing : t.doing = s.doing)
    (cancelledAt : t.cancelledAt = s.cancelledAt) : Mirrors plan p e locals w t q := by
  unfold Mirrors at mirrors ⊢
  rw [doing, cancelledAt]
  exact mirrors

theorem mirrors_work {work : Work} (mirrors : Mirrors plan p e locals w s q)
    (before : s.doing.work plan = some work) (after : t.doing.work plan = some work)
    (cancelledAt : t.cancelledAt.isSome = s.cancelledAt.isSome) :
    Mirrors plan p e locals w t q := by
  rw [mirrors_at mirrors before]
  exact mirrors_live after cancelledAt

/- What an event does to a body without a cancellation, and with one. -/

theorem spawns : resumeWork limits (inBody p e locals (.transfer false) false) e locals false
    { w with event := .spawned } (.transfer false) =
      some (inBody p e locals (.transfer true) false) :=
  congrArg some (suspend_inBody _ _ _)

theorem times_out {spawned : Bool} (bounded : limits.runTimeoutSeconds ≠ 0) :
    resumeWork limits (inBody p e locals (.transfer spawned) false) e locals false
      { w with event := .timedOut } (.transfer spawned) =
      some (inBody p e locals (.cleanup (.timedOut limits.runTimeoutSeconds)) false) := by
  change stop limits _ e locals _ = _
  unfold stop
  rw [if_neg bounded, suspend_inBody]

theorem prune_times_out (bounded : limits.runTimeoutSeconds ≠ 0) :
    resumeWork limits (inBody p e locals .prune false) e locals false
      { w with event := .timedOut } .prune =
      some (inBody p e locals (.pruneCleanup true) false) := by
  change stop limits _ e locals _ = _
  unfold stop
  rw [if_neg bounded, suspend_inBody]

theorem swallows {ending : Ending} :
    resumeWork limits (inBody p e locals (.cleanup ending) true) e locals true
      { w with event := .unfinished } (.cleanup ending) =
      some (inBody p e locals (.cleanup ending) false) :=
  congrArg some (suspend_inBody _ _ _)

theorem prune_swallows {timedOut : Bool} :
    resumeWork limits (inBody p e locals (.pruneCleanup timedOut) true) e locals true
      { w with event := .unfinished } (.pruneCleanup timedOut) =
      some (inBody p e locals (.pruneCleanup timedOut) false) :=
  congrArg some (suspend_inBody _ _ _)

theorem interrupts : resumeWork limits (inBody p e locals (.transfer true) true) e locals true
    { w with event := .unfinished } (.transfer true) =
      some (inBody p e locals (.cleanup .cancelled) false) :=
  congrArg some (suspend_inBody _ _ _)

theorem prune_interrupts : resumeWork limits (inBody p e locals .prune true) e locals true
    { w with event := .unfinished } .prune = some (inBody p e locals (.pruneCleanup false) false) :=
  congrArg some (suspend_inBody _ _ _)

theorem prune_cleans {timedOut cancelled : Bool}
    (agree : limits.runTimeoutSeconds = plan.runTimeoutSeconds) :
    resumeWork limits (inBody p e locals (.pruneCleanup timedOut) cancelled) e locals cancelled
      { w with event := .cleaned } (.pruneCleanup timedOut) =
      some ((Command.list.cleaned plan timedOut).after
        (inBody p e locals (.pruneCleanup timedOut) cancelled) e locals w) := by
  cases timedOut with
  | true =>
    change some (conclude _ e locals (.timedOut limits.runTimeoutSeconds) _) = _
    rw [agree]
    rfl
  | false => rfl

/-- After the transfer: the prune, or the end; a destination that the prune refuses ends it as a
    prune that has failed. -/
theorem transferred_mirrors {code : Int} (task : locals.task = plan.task)
    (doing : t.doing = transferred plan code) (calm : t.cancelledAt = none) :
    ∃ r, BodyMoves limits e w (inBody p e locals (.transfer true) false) r ∧
      Mirrors plan p e locals w t r := by
  have resumed : ∀ r, afterTransfer (inBody p e locals (.transfer true) false) e locals code
      { w with event := .exited code } = r →
      BodyMoves limits e w (inBody p e locals (.transfer true) false) r :=
    fun r same => bodyMoves_resume (.exited code) (congrArg some same)
  have concluded : ∀ {work : Work}, t.doing = .finished (.concludes (.exited code)) →
      Mirrors plan p e locals w t
        (conclude (inBody p e locals work false) e locals (.exited code) w) :=
    fun finished => mirrors_finished finished rfl
  cases retention : plan.task.pruneKeepHourly with
  | none =>
    simp only [transferred, retention] at doing
    exact ⟨_, resumed _ (by simp only [afterTransfer, task, retention]; rfl), concluded doing⟩
  | some keep =>
    simp only [transferred, retention] at doing
    by_cases asked : plan.task.taskType = "syncoid" ∧ code = 0 ∧ 1 ≤ keep
    · have pruned := resumed (inBody p e locals .prune false) (by
        simp only [afterTransfer, task, retention, if_pos asked]
        exact suspend_inBody _ _ _)
      by_cases valid : (validateZfsDestination plan.zfsDestRoots plan.task.localPath).isOk = true
      · rw [if_pos ⟨asked.1, asked.2.1, asked.2.2, valid⟩] at doing
        exact ⟨_, pruned, mirrors_live (by rw [doing]; rfl) (by rw [calm]; rfl)⟩
      · rw [if_neg fun all => valid all.2.2.2] at doing
        obtain rfl := asked.2.1
        refine ⟨_, bodyMoves_trans pruned (bodyMoves_resume .failed rfl), ?_⟩
        exact mirrors_finished doing rfl
    · rw [if_neg fun all => asked ⟨all.1, all.2.1, all.2.2.1⟩] at doing
      exact ⟨_, resumed _ (by simp only [afterTransfer, task, retention, if_neg asked]; rfl),
        concluded doing⟩

theorem destroyNext_mirrors {names : List String} (doing : t.doing = destroyNext names)
    (calm : t.cancelledAt = none) :
    ∃ r, BodyMoves limits e w (inBody p e locals .prune false) r ∧
      Mirrors plan p e locals w t r := by
  cases names with
  | nil => exact ⟨_, bodyMoves_resume .pruned rfl, mirrors_finished doing rfl⟩
  | cons name rest =>
    exact ⟨_, bodyMoves_refl, mirrors_live (by rw [doing]; rfl) (by rw [calm]; rfl)⟩

theorem bounded_of_deadline {d : Int} (agree : limits.runTimeoutSeconds = plan.runTimeoutSeconds)
    (deadline : s.deadline = runDeadline plan.runTimeoutSeconds start)
    (bounded : s.deadline = some d) : limits.runTimeoutSeconds ≠ 0 := by
  rw [bounded, runDeadline] at deadline
  split at deadline
  · cases deadline
  · omega

/- A prune is the same await whichever of its commands it runs, and ends the same way. -/

theorem prune_launching {command : Command} (prunes : command ≠ .transfer) :
    (Doing.launching command).work plan = some .prune := by
  cases command with
  | transfer => exact absurd rfl prunes
  | _ => rfl

theorem prune_waiting {command : Command} (prunes : command ≠ .transfer) :
    (Doing.waiting command).work plan = some .prune := by
  cases command with
  | transfer => exact absurd rfl prunes
  | _ => rfl

theorem prune_cleaning {command : Command} (prunes : command ≠ .transfer) (timedOut : Bool)
    (kill : Kill) :
    (Doing.cleaning command timedOut kill).work plan = some (.pruneCleanup timedOut) := by
  cases command with
  | transfer => exact absurd rfl prunes
  | _ => rfl

theorem prune_notLaunched {command : Command} (prunes : command ≠ .transfer) :
    command.notLaunched = .concludes (.exited 0) := by
  cases command with
  | transfer => exact absurd rfl prunes
  | _ => rfl

theorem prune_abandoned {command : Command} (prunes : command ≠ .transfer) :
    command.abandoned = .leaves .cancelled := by
  cases command with
  | transfer => exact absurd rfl prunes
  | _ => rfl

theorem prune_notCleaned {command : Command} (prunes : command ≠ .transfer)
    (bounded timedOut : Bool) (error : String) :
    command.notCleaned bounded timedOut error = .concludes (.exited 0) := by
  cases command with
  | transfer => exact absurd rfl prunes
  | _ => rfl

theorem prune_cleaned {command : Command} (prunes : command ≠ .transfer) (timedOut : Bool) :
    command.cleaned plan timedOut = Command.list.cleaned plan timedOut := by
  cases command with
  | transfer => exact absurd rfl prunes
  | _ => rfl

theorem prune_next {command : Command} (prunes : command ≠ .transfer) (code : Int)
    (output : String) : ∃ names, command.next plan code output = destroyNext names := by
  cases command with
  | transfer => exact absurd rfl prunes
  | _ => exact ⟨_, rfl⟩

theorem timeout_mirrors {command : Command}
    (doing : s.doing = .launching command ∨ s.doing = .waiting command)
    (agree : limits.runTimeoutSeconds = plan.runTimeoutSeconds)
    (ceiling : limits.runTimeoutSeconds ≠ 0) (calm : s.cancelledAt = none)
    (mirrors : Mirrors plan p e locals w s q) (after : t.doing = .cleaning command true .begun)
    (calm' : t.cancelledAt = none) :
    ∃ r, BodyMoves limits e w q r ∧ Mirrors plan p e locals w t r := by
  have flag : t.cancelledAt.isSome = false := by rw [calm']; rfl
  rcases eq_or_ne command .transfer with rfl | prunes
  · obtain ⟨spawned, here⟩ : ∃ spawned, s.doing.work plan = some (.transfer spawned) := by
      rcases doing with doing | doing <;> rw [doing]
      · exact ⟨false, rfl⟩
      · exact ⟨true, rfl⟩
    rw [mirrors_at mirrors here, calm]
    refine ⟨_, bodyMoves_resume .timedOut (times_out ceiling), mirrors_live ?_ flag⟩
    rw [after, agree]
    rfl
  · have here : s.doing.work plan = some .prune := by
      rcases doing with doing | doing <;> rw [doing]
      · exact prune_launching prunes
      · exact prune_waiting prunes
    rw [mirrors_at mirrors here, calm]
    refine ⟨_, bodyMoves_resume .timedOut (prune_times_out ceiling), mirrors_live ?_ flag⟩
    rw [after]
    exact prune_cleaning prunes _ _

theorem spawned_mirrors {command : Command} (launching : s.doing = .launching command)
    (calm : s.cancelledAt = none) (mirrors : Mirrors plan p e locals w s q)
    (after : t.doing = .waiting command) (calm' : t.cancelledAt = none) :
    ∃ r, BodyMoves limits e w q r ∧ Mirrors plan p e locals w t r := by
  have flag : t.cancelledAt.isSome = false := by rw [calm']; rfl
  rcases eq_or_ne command .transfer with rfl | prunes
  · rw [mirrors_at mirrors (by rw [launching]; rfl), calm]
    exact ⟨_, bodyMoves_resume .spawned spawns, mirrors_live (by rw [after]; rfl) flag⟩
  · rw [mirrors_at mirrors (launching ▸ prune_launching prunes), calm]
    exact ⟨_, bodyMoves_refl, mirrors_live (after ▸ prune_waiting prunes) flag⟩

theorem notSpawned_mirrors {command : Command} (launching : s.doing = .launching command)
    (calm : s.cancelledAt = none) (mirrors : Mirrors plan p e locals w s q) :
    ∃ r, BodyMoves limits e w q r ∧
      Mirrors plan p e locals w (s.serve (.finished command.notLaunched)) r := by
  rcases eq_or_ne command .transfer with rfl | prunes
  · rw [mirrors_at mirrors (by rw [launching]; rfl), calm]
    exact ⟨_, bodyMoves_resume .failed rfl, mirrors_finished rfl rfl⟩
  · rw [mirrors_at mirrors (launching ▸ prune_launching prunes), calm, prune_notLaunched prunes]
    exact ⟨_, bodyMoves_resume .failed rfl, mirrors_finished rfl rfl⟩

theorem returns_mirrors {command : Command} {code : Int} {output : String}
    (task : locals.task = plan.task) (waiting : s.doing = .waiting command)
    (calm : s.cancelledAt = none) (mirrors : Mirrors plan p e locals w s q) :
    ∃ r, BodyMoves limits e w q r ∧
      Mirrors plan p e locals w (s.serve (command.next plan code output)) r := by
  rcases eq_or_ne command .transfer with rfl | prunes
  · rw [mirrors_at mirrors (by rw [waiting]; rfl), calm]
    exact transferred_mirrors task rfl calm
  · obtain ⟨names, next⟩ : ∃ names, command.next plan code output = destroyNext names :=
      prune_next prunes code output
    rw [mirrors_at mirrors (waiting ▸ prune_waiting prunes), calm, next]
    exact destroyNext_mirrors rfl calm

theorem abandoned_mirrors {command : Command} {c : Int} (launching : s.doing = .launching command)
    (cancelled : s.cancelledAt = some c) (mirrors : Mirrors plan p e locals w s q) :
    ∃ r, BodyMoves limits e w q r ∧ Mirrors plan p e locals w
      { s.serve (.finished command.abandoned) with cancelledAt := none } r := by
  rcases eq_or_ne command .transfer with rfl | prunes
  · rw [mirrors_at mirrors (by rw [launching]; rfl), cancelled]
    exact ⟨_, bodyMoves_resume .unfinished rfl, mirrors_finished rfl rfl⟩
  · rw [mirrors_at mirrors (launching ▸ prune_launching prunes), cancelled, prune_abandoned prunes]
    exact ⟨_, bodyMoves_resume .failed rfl, mirrors_finished rfl rfl⟩

theorem interrupted_mirrors {command : Command} {c : Int} (waiting : s.doing = .waiting command)
    (cancelled : s.cancelledAt = some c) (mirrors : Mirrors plan p e locals w s q) :
    ∃ r, BodyMoves limits e w q r ∧ Mirrors plan p e locals w
      { s.serve (.cleaning command false .begun) with cancelledAt := none } r := by
  rcases eq_or_ne command .transfer with rfl | prunes
  · rw [mirrors_at mirrors (by rw [waiting]; rfl), cancelled]
    exact ⟨_, bodyMoves_resume .unfinished interrupts, mirrors_live rfl rfl⟩
  · rw [mirrors_at mirrors (waiting ▸ prune_waiting prunes), cancelled]
    exact ⟨_, bodyMoves_resume .unfinished prune_interrupts,
      mirrors_live (prune_cleaning prunes _ _) rfl⟩

theorem swallowed_mirrors {command : Command} {timedOut : Bool} {kill : Kill} {c : Int}
    (cleaning : s.doing = .cleaning command timedOut kill) (cancelled : s.cancelledAt = some c)
    (mirrors : Mirrors plan p e locals w s q) :
    ∃ r, BodyMoves limits e w q r ∧
      Mirrors plan p e locals w { s with cancelledAt := none } r := by
  have after : ∀ {work : Work}, s.doing.work plan = some work →
      Mirrors plan p e locals w { s with cancelledAt := none } (inBody p e locals work false) :=
    fun here => mirrors_live here rfl
  rcases eq_or_ne command .transfer with rfl | prunes
  · rw [mirrors_at mirrors (by rw [cleaning]; rfl), cancelled]
    exact ⟨_, bodyMoves_resume .unfinished swallows, after (by rw [cleaning]; rfl)⟩
  · have here : s.doing.work plan = some (.pruneCleanup timedOut) :=
      cleaning ▸ prune_cleaning prunes _ _
    rw [mirrors_at mirrors here, cancelled]
    exact ⟨_, bodyMoves_resume .unfinished prune_swallows, after here⟩

theorem live_work (live : ∀ body, s.doing ≠ .finished body) :
    ∃ work, s.doing.work plan = some work := by
  cases doing : s.doing with
  | launching command => cases command <;> exact ⟨_, rfl⟩
  | waiting command => cases command <;> exact ⟨_, rfl⟩
  | cleaning command timedOut kill => cases command <;> exact ⟨_, rfl⟩
  | finished body => exact absurd doing (live body)

theorem signal_mirrors {command : Command} {timedOut : Bool} {kill kill' : Kill}
    (cleaning : s.doing = .cleaning command timedOut kill)
    (mirrors : Mirrors plan p e locals w s q)
    (after : t.doing = .cleaning command timedOut kill')
    (cancelledAt : t.cancelledAt = s.cancelledAt) : Mirrors plan p e locals w t q := by
  obtain ⟨work, here⟩ : ∃ work, s.doing.work plan = some work := live_work (by simp [cleaning])
  refine mirrors_work mirrors here ?_ (congrArg Option.isSome cancelledAt)
  rw [← here, cleaning, after]
  cases command <;> rfl

theorem refused_mirrors {command : Command} {timedOut : Bool} {kill : Kill} {error : String}
    (cleaning : s.doing = .cleaning command timedOut kill)
    (mirrors : Mirrors plan p e locals w s q) :
    ∃ r, BodyMoves limits e w q r ∧ Mirrors plan p e locals w
      { s.serve (.finished (command.notCleaned s.deadline.isSome timedOut error)) with
        cancelledAt := none, refused := true } r := by
  rcases eq_or_ne command .transfer with rfl | prunes
  · rw [mirrors_at mirrors (by rw [cleaning]; rfl)]
    cases handled : (s.deadline.isSome || timedOut) with
    | true =>
      have finished : Command.notCleaned s.deadline.isSome timedOut error .transfer =
          .concludes (.exited (-1)) := by simp [Command.notCleaned, handled]
      exact ⟨_, bodyMoves_resume .failed rfl,
        mirrors_finished (congrArg Doing.finished finished) rfl⟩
    | false =>
      have finished : Command.notCleaned s.deadline.isSome timedOut error .transfer =
          .leaves (.raised "PermissionError" error) := by simp [Command.notCleaned, handled]
      exact ⟨_, bodyMoves_resume (.raised "PermissionError" error) rfl,
        mirrors_finished (congrArg Doing.finished finished) rfl⟩
  · rw [mirrors_at mirrors (cleaning ▸ prune_cleaning prunes _ _), prune_notCleaned prunes]
    exact ⟨_, bodyMoves_resume .failed rfl, mirrors_finished rfl rfl⟩

theorem reaped_mirrors {command : Command} {timedOut : Bool} {kill : Kill}
    (agree : limits.runTimeoutSeconds = plan.runTimeoutSeconds)
    (cleaning : s.doing = .cleaning command timedOut kill)
    (mirrors : Mirrors plan p e locals w s q) :
    ∃ r, BodyMoves limits e w q r ∧ Mirrors plan p e locals w
      { s.serve (.finished (command.cleaned plan timedOut)) with cancelledAt := none } r := by
  rcases eq_or_ne command .transfer with rfl | prunes
  · rw [mirrors_at mirrors (by rw [cleaning]; rfl)]
    exact ⟨_, bodyMoves_resume .cleaned rfl, mirrors_finished rfl rfl⟩
  · rw [mirrors_at mirrors (cleaning ▸ prune_cleaning prunes _ _), prune_cleaned prunes]
    exact ⟨_, bodyMoves_resume .cleaned (prune_cleans agree), mirrors_finished rfl rfl⟩

theorem cancel_mirrors {work : Work} (here : s.doing.work plan = some work)
    (mirrors : Mirrors plan p e locals w s q) (after : t.doing = s.doing)
    (flag : t.cancelledAt.isSome = true) :
    ∃ r, BodyMoves limits e w q r ∧ Mirrors plan p e locals w t r := by
  rw [mirrors_at mirrors here]
  exact ⟨_, bodyMoves_cancel, mirrors_live (by rw [after, here]) flag⟩

theorem step_mirrors (agree : limits.runTimeoutSeconds = plan.runTimeoutSeconds)
    (task : locals.task = plan.task)
    (deadline : s.deadline = runDeadline plan.runTimeoutSeconds start)
    (mirrors : Mirrors plan p e locals w s q) (step : SuperviseStep plan prompt s act t) :
    ∃ r, BodyMoves limits e w q r ∧ Mirrors plan p e locals w t r := by
  cases step with
  | tick later soon => exact ⟨q, bodyMoves_refl, mirrors_same mirrors rfl rfl⟩
  | exit started runs => exact ⟨q, bodyMoves_refl, mirrors_same mirrors rfl rfl⟩
  | ignored finished => exact ⟨q, bodyMoves_refl, mirrors⟩
  | cancel live =>
    obtain ⟨work, here⟩ : ∃ work, s.doing.work plan = some work := live_work live
    exact cancel_mirrors here mirrors rfl rfl
  | spawned launching calm =>
    rename_i command
    rcases awaitBounded_cases { s with leaders := {} :: s.leaders } command with
      ⟨d, bounded, -, await⟩ | ⟨-, await⟩
    · rw [await]
      exact timeout_mirrors (.inl launching) agree (bounded_of_deadline agree deadline bounded) calm
        mirrors rfl calm
    · rw [await]
      exact spawned_mirrors launching calm mirrors rfl calm
  | notSpawned launching calm => exact notSpawned_mirrors launching calm mirrors
  | returns waiting calm exited => exact returns_mirrors task waiting calm mirrors
  | expires waiting calm bounded past =>
    exact timeout_mirrors (.inr waiting) agree (bounded_of_deadline agree deadline bounded) calm
      mirrors rfl calm
  | abandoned launching cancelled => exact abandoned_mirrors launching cancelled mirrors
  | interrupted waiting cancelled => exact interrupted_mirrors waiting cancelled mirrors
  | swallowed cleaning cancelled => exact swallowed_mirrors cleaning cancelled mirrors
  | terminate cleaning runs =>
    exact ⟨q, bodyMoves_refl, signal_mirrors cleaning mirrors rfl rfl⟩
  | kill cleaning past =>
    exact ⟨q, bodyMoves_refl, signal_mirrors cleaning mirrors rfl rfl⟩
  | refused cleaning => exact refused_mirrors cleaning mirrors
  | reaped cleaning exited => exact reaped_mirrors agree cleaning mirrors

end Mirroring

/-- Every run of a supervised body is one of the execution that starts it: the same process with
    its body at the same await, and the same end of it, whatever its commands did. -/
theorem supervision_simulated {limits : Limits} {plan : RunPlan} {prompt : Promptness} {start : Int}
    {acts : List SuperviseAct} {s : Supervision}
    (trace : Trace (Supervises plan prompt) (.begin plan start) acts s)
    (agree : limits.runTimeoutSeconds = plan.runTimeoutSeconds)
    {p : Process} {e : Nat} {locals : Locals} (task : locals.task = plan.task)
    (begun : p.phase e = .suspended (.work (.transfer false)) locals false) (w : World) :
    ∃ moves q, Trace (Moves limits) p moves q ∧
      (∀ m ∈ moves, m = .cancel e ∨ ∃ event, m = .resume e { w with event := event }) ∧
      Mirrors plan p e locals w s q := by
  have here : inBody p e locals (.transfer false) false = p := by
    rw [inBody, ← begun, Function.update_eq_self]
  have simulated : ∃ q, BodyMoves limits e w p q ∧ Mirrors plan p e locals w s q := by
    induction trace with
    | nil => exact ⟨p, bodyMoves_refl, .transfer false, rfl, here.symm⟩
    | snoc before last ih =>
      obtain ⟨q, moves, mirrors⟩ := ih
      obtain ⟨r, more, after⟩ :=
        step_mirrors agree task (trace_deadline before) mirrors (supervise_cases last)
      exact ⟨r, bodyMoves_trans moves more, after⟩
  obtain ⟨q, ⟨moves, run, own⟩, mirrors⟩ := simulated
  exact ⟨moves, q, run, own, mirrors⟩

def Sample.transferring : List Act :=
  [.admission 1 (stamp 70), .start 1, .resume 1 (world 71 .unfinished)]

theorem stubborn_transfer_simulated :
    ∃ p, (Process.init Sample.limits Sample.start.db 0).exec Sample.limits Sample.transferring =
        some p ∧
      ∃ moves q, Trace (Moves Sample.limits) p moves q ∧
        Mirrors Sample.hourlyCeiling p 1 ⟨Sample.task, ["fs", "/", "backup", "photos"]⟩
          (Sample.world 4000 .unfinished) Sample.killedRun q := by
  have state : ((Process.init Sample.limits Sample.start.db 0).exec Sample.limits
      Sample.transferring).map (fun p => p.phase 1) =
      some (.suspended (.work (.transfer false))
        ⟨Sample.task, ["fs", "/", "backup", "photos"]⟩ false) := by
    decide +kernel
  obtain ⟨p, done, begun⟩ := Option.map_eq_some_iff.mp state
  have agree : Sample.limits.runTimeoutSeconds = Sample.hourlyCeiling.runTimeoutSeconds := rfl
  obtain ⟨moves, q, run, -, mirrors⟩ := supervision_simulated Sample.stubborn_trace agree rfl begun
    (Sample.world 4000 .unfinished)
  exact ⟨p, done, moves, q, run, mirrors⟩

end Pullbackup
