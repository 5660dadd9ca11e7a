import Pullbackup.Handover
import Pullbackup.Quiescence

/- services/dispatcher.py: the task of _loop and the event that wakes it, between the
   transactions of the requests, the cron callbacks, the watchdog and the executions. -/
namespace Pullbackup
open KeyedTable History

/-- The event exists from the first step of the task until it is stopped. -/
inductive PumpPhase where
  | created | passing | asleep | stopped
  deriving DecidableEq, Repr

structure LastPass where
  probe : Probe
  now : Int

/-- The pump and those it shares the database with. The last two fields are not of the program:
    whether something that nobody announces may have let an obligation start since the last pass
    that went through, which a pass does itself where its settlement leaves a row for the next
    one to pay, drop or re-arm; and that pass. -/
structure Pump where
  service : Service
  phase : PumpPhase := .created
  event : Bool := false
  queued : Nat := 0
  executions : List Nat := []
  leaving : List Nat := []
  ticks : Nat := 0
  lapsed : Bool := false
  last : Option LastPass := none

/-- What one step does: _loop begins; a transaction commits; a run is asked for, and its
    execution may fail to start; an edit raises between its commit and its wake; an execution
    goes through its finally; the loop runs event.set; the pump or a cron callback passes, in a
    pass that may raise or not be reached; wait_for returns; the pump is stopped. -/
inductive PumpAct where
  | loop
  | transact (op : Op)
  | runNow (task : Nat) (stamp : Stamp) (fails : Option Int)
  | editRaises (task : Nat) (data : TaskFields) (now : Int)
  | exits (run : Nat)
  | set
  | pass (byTick : Bool) (probe : Probe) (now : Int) (stamps : List Stamp)
  | passRaises (byTick : Bool) (probe : Probe) (now : Int) (stamps : List Stamp)
      (fault : PassFault)
  | skips (byTick : Bool)
  | rouse
  | stop

def Pump.wake (p : Pump) : Pump :=
  match p.phase with
  | .passing | .asleep => { p with queued := p.queued + 1 }
  | .created | .stopped => p

def Pump.commit (env : Env) (p : Pump) (op : Op) : Option Pump :=
  if p.service.Timely op then
    some { p with
      service := p.service.next env op, lapsed := p.lapsed || op.silent p.service.db }
  else none

/-- The transactions of an execution are its own, catch-up is the pump's and the startup's. -/
def Pump.mayTransact (p : Pump) : Op → Bool
  | .reconcile .. => p.phase = .created ∨ p.phase = .passing
  | .restart .. => p.phase = .created
  | .start run _ | .finish run .. => run ∈ p.executions
  | .abandon run reason .. => reason ≠ .failedToStart ∧ (run ∈ p.executions ∨ run ∈ p.leaving)
  | .settle .. | .dispatch .. | .runNow .. => false
  | .tick .. | .createTask .. | .updateTask .. | .deleteTask .. | .createSource ..
  | .updateSource .. | .deleteSource .. | .sweep .. => true

def Pump.depart (p : Pump) (run : Nat) : Pump :=
  if run ∈ p.leaving then p
  else { p with executions := p.executions.erase run, leaving := run :: p.leaving }

/-- What follows a commit in the same step of the loop. -/
def Pump.follow (p : Pump) (db : Db) : Op → Pump
  | .tick .. => { p with ticks := p.ticks + 1 }
  | .updateTask task data now =>
    match updateTask db task data now with
    | .ok _ => p.wake
    | .error _ => p
  | .finish run .. | .abandon run .. => p.depart run
  | _ => p

def admittedRun (db : Db) (task : Nat) (stamp : Stamp) : Option Nat :=
  match admitRun db task stamp with
  | some (_, .accepted run) => some run
  | _ => none

/-- Whoever passes is done with it: the pump goes to sleep, the callback ends. -/
def Pump.passed (p : Pump) (byTick : Bool) : Option Pump :=
  if byTick then if 0 < p.ticks then some { p with ticks := p.ticks - 1 } else none
  else if p.phase = .passing then some { p with phase := .asleep }
  else none

def PassFault.clock (fault : PassFault) (clock : Int) : Int :=
  match fault with
  | .start _ later => max clock later
  | _ => clock

def Pump.step (env : Env) (p : Pump) : PumpAct → Option Pump
  | .loop =>
    if p.phase = .created then some { p with phase := .passing, event := false, queued := 0 }
    else none
  | .transact op =>
    if p.mayTransact op then (p.commit env op).map fun q => q.follow p.service.db op else none
  | .runNow task stamp none =>
    (p.commit env (.runNow task stamp)).map fun q =>
      { q with executions := q.executions ++ (admittedRun p.service.db task stamp).toList }
  | .runNow task stamp (some later) =>
    (admittedRun p.service.db task stamp).bind fun run =>
      (p.commit env (.runNow task stamp)).bind fun q =>
        q.commit env (.abandon run .failedToStart false later)
  | .editRaises task data now =>
    (p.commit env (.updateTask task data now)).map fun q => { q with lapsed := true }
  | .exits run =>
    if run ∈ p.leaving then some { p with leaving := p.leaving.erase run }.wake
    else if run ∈ p.executions then some { p with executions := p.executions.erase run }.wake
    else none
  | .set =>
    if 0 < p.queued then some { p with event := true, queued := p.queued - 1 } else none
  | .pass byTick probe now stamps =>
    (p.passed byTick).bind fun q => (q.commit env (.dispatch probe now stamps)).map fun r =>
      { r with
        executions := r.executions ++
          (dispatchDue env.maxConcurrentRuns probe p.service.db now stamps).started
        lapsed := decide ¬ r.service.db.Settled now
        last := some ⟨probe, now⟩ }
  | .passRaises byTick probe now stamps fault =>
    (p.passed byTick).bind fun q => (q.commit env (.dispatch probe now stamps)).bind fun r =>
      (dispatchRaising env.maxConcurrentRuns probe p.service.db now stamps fault).map fun left =>
        { r with
          service := ⟨left.db, fault.clock r.service.clock⟩
          executions := r.executions ++ left.executions
          lapsed := true }
  | .skips byTick => (p.passed byTick).map fun q => { q with lapsed := true }
  | .rouse =>
    if p.phase = .asleep then some { p with phase := .passing, event := false } else none
  | .stop => some { p with phase := .stopped, queued := 0 }

def PumpStep (env : Env) (p : Pump) (act : PumpAct) (q : Pump) : Prop := p.step env act = some q

def Pump.init (s : Service) : Pump := { service := s }

def Pumped (env : Env) (s : Service) (p : Pump) : Prop :=
  ∃ acts, Trace (PumpStep env) (Pump.init s) acts p

/-- Something is on its way to the pump, or somebody else is about to pass. -/
def Pump.Coming (p : Pump) : Prop :=
  p.event = true ∨ 0 < p.queued ∨ p.leaving ≠ [] ∨ 0 < p.ticks

instance (p : Pump) : Decidable p.Coming := inferInstanceAs (Decidable (_ ∨ _ ∨ _ ∨ _))

/-- Nothing that the last pass left can start, unless something has lapsed since. -/
def Pump.Rests (env : Env) (p : Pump) : Prop :=
  p.lapsed = true ∨ ∃ l, p.last = some l ∧ p.service.db.Settled l.now ∧
    Db.Stuck env.maxConcurrentRuns l.probe l.now p.service.db

structure Pump.Sound (env : Env) (p : Pump) : Prop where
  linked : p.service.db.Linked
  heard : p.phase = .asleep → p.Coming ∨ p.Rests env

section Steps
variable {env : Env} {p q : Pump} {op : Op} {limit : Nat} {probe : Probe} {now : Int} {db : Db}

theorem commit_some (committed : p.commit env op = some q) :
    Step env p.service op (p.service.next env op) ∧
      q = { p with
        service := p.service.next env op, lapsed := p.lapsed || op.silent p.service.db } := by
  unfold Pump.commit at committed
  split at committed
  · rename_i timely
    exact ⟨⟨timely, rfl⟩, (Option.some.inj committed).symm⟩
  · cases committed

theorem commit_linked (linked : p.service.db.Linked) (committed : p.commit env op = some q) :
    q.service.db.Linked := by
  obtain ⟨step, rfl⟩ := commit_some committed
  exact (apply_sees linked step).1

theorem commit_rests (linked : p.service.db.Linked) (committed : p.commit env op = some q)
    (kind : op.harmless p.service.db = true ∨ op.silent p.service.db = true)
    (rests : p.Rests env) : q.Rests env := by
  obtain ⟨step, rfl⟩ := commit_some committed
  rcases rests with lapsed | ⟨l, last, settled, stuck⟩
  · exact .inl (by simp [lapsed])
  · rcases kind with harmless | silent
    · exact .inr ⟨l, last, harmless_keeps_settled linked step harmless settled,
        harmless_keeps_stuck linked harmless stuck⟩
    · exact .inl (by simp [silent])

theorem wake_coming (asleep : p.phase = .asleep) : p.wake.Coming := by
  unfold Pump.wake
  rw [asleep]
  exact .inr (.inl (Nat.succ_pos p.queued))

theorem wake_sound (linked : p.service.db.Linked) : p.wake.Sound env := by
  unfold Pump.wake
  split
  · exact ⟨linked, fun _ => .inl (.inr (.inl (Nat.succ_pos p.queued)))⟩
  · exact ⟨linked, fun _ => .inl (.inr (.inl (Nat.succ_pos p.queued)))⟩
  · rename_i created
    exact ⟨linked, fun sleeps => by rw [created] at sleeps; cases sleeps⟩
  · rename_i stopped
    exact ⟨linked, fun sleeps => by rw [stopped] at sleeps; cases sleeps⟩

theorem wake_frame (p : Pump) : p.wake.service = p.service ∧ p.wake.phase = p.phase := by
  unfold Pump.wake
  split <;> exact ⟨rfl, rfl⟩

theorem depart_coming (p : Pump) (run : Nat) : (p.depart run).Coming := by
  unfold Pump.depart
  split
  · rename_i listed
    exact .inr (.inr (.inl (List.ne_nil_of_mem listed)))
  · exact .inr (.inr (.inl (by simp)))

theorem depart_frame (p : Pump) (run : Nat) :
    (p.depart run).service = p.service ∧ (p.depart run).phase = p.phase := by
  unfold Pump.depart
  split <;> exact ⟨rfl, rfl⟩

theorem follow_frame (p : Pump) (db : Db) (op : Op) :
    (p.follow db op).service = p.service ∧ (p.follow db op).phase = p.phase := by
  cases op with
  | updateTask task data now =>
    unfold Pump.follow
    dsimp only
    split
    · exact wake_frame p
    · exact ⟨rfl, rfl⟩
  | finish run | abandon run => exact depart_frame p run
  | reconcile | tick | settle | dispatch | runNow | start | sweep | restart | createTask
  | deleteTask | createSource | updateSource | deleteSource => exact ⟨rfl, rfl⟩

theorem passed_some {byTick : Bool} (passed : p.passed byTick = some q) :
    q.service = p.service ∧ q.executions = p.executions := by
  unfold Pump.passed at passed
  split at passed
  · split at passed
    · obtain rfl := Option.some.inj passed
      exact ⟨rfl, rfl⟩
    · cases passed
  · split at passed
    · obtain rfl := Option.some.inj passed
      exact ⟨rfl, rfl⟩
    · cases passed

theorem session_linked (rows : List TaskDue) {s : PassSession}
    (unique : (rows.map TaskDue.taskId).Nodup)
    (stored : ∀ row ∈ rows, s.work.db.taskDue.get row.taskId = some row)
    (linked : s.work.db.Linked ∧ s.stored.Linked) :
    (rows.foldl (PassSession.row limit probe now) s).work.db.Linked ∧
      (rows.foldl (PassSession.row limit probe now) s).stored.Linked := by
  induction rows generalizing s with
  | nil => exact linked
  | cons row rows ih =>
    obtain ⟨apart, unique⟩ := List.nodup_cons.mp unique
    have turn := row_turn limit probe now s.work row
    refine ih unique (turn_stored apart turn stored)
      ⟨turn_linked linked.1 (stored row List.mem_cons_self) turn, ?_⟩
    unfold PassSession.row
    dsimp only
    split
    · exact linked.2
    rename_i longer
    generalize Pass.row limit probe now s.work row = p' at turn longer
    cases turn with
    | left => exact absurd rfl longer
    | dropped => exact absurd rfl longer
    | waited => exact absurd rfl longer
    | @started task key starts =>
      rw [launch_db]
      have id : task.id = row.taskId := Table.key_of_get starts.found
      refine newRun_linked linked.1 (get_nextId s.work.db.runs) ?_
      simp [pendingRun, id, starts.found]

theorem raising_linked (env : Env) (linked : db.Linked) {stamps : List Stamp} {fault : PassFault}
    {left : Aftermath} (raised : dispatchRaising limit probe db now stamps fault = some left) :
    left.db.Linked := by
  have settled : (settleAll db now).Linked := (settleAll_spec linked now).1
  obtain ⟨member, unique⟩ := passRows_spec (settleAll db now)
  have sessions : ∀ rows : List TaskDue, rows.Sublist (passRows (settleAll db now)) →
      (PassSession.after limit probe (settleAll db now) now stamps rows).work.db.Linked ∧
        (PassSession.after limit probe (settleAll db now) now stamps rows).stored.Linked := by
    intro rows some
    refine session_linked rows (unique.sublist (some.map _)) (fun row mem => ?_) ?_
    · change (Pass.begin probe (settleAll db now) stamps).db.taskDue.get row.taskId = _
      rw [begin_db]
      exact Table.get_of_mem ((member row).mp (some.subset mem))
    · refine ⟨?_, settled⟩
      change (Pass.begin probe (settleAll db now) stamps).db.Linked
      rw [begin_db]
      exact settled
  unfold dispatchRaising at raised
  cases fault with
  | settle =>
    obtain rfl := Option.some.inj raised
    exact linked
  | observe =>
    obtain rfl := Option.some.inj raised
    exact settled
  | lastCommit =>
    obtain rfl := Option.some.inj raised
    exact (sessions _ (List.Sublist.refl _)).2
  | start count later =>
    dsimp only at raised
    split at raised
    · cases raised
    · rename_i id before listed
      obtain rfl := Option.some.inj raised
      have failed : Sees env later later (.abandon id .failedToStart false later) _ _ :=
        abandon_sees (sessions _ (List.Sublist.refl _)).1 id .failedToStart false
          ⟨le_rfl, le_rfl⟩
      exact failed.1
  | row n instant =>
    dsimp only at raised
    split at raised
    · cases raised
    rename_i row found
    have upTo := sessions _ (List.take_sublist n _)
    have beside := sessions _ (List.take_sublist (n + 1) _)
    rw [List.take_add_one, found] at beside
    rw [row_session] at raised
    cases instant with
    | query =>
      obtain rfl := Option.some.inj raised
      exact upTo.2
    | commit =>
      dsimp only at raised
      split at raised
      · cases raised
      · obtain rfl := Option.some.inj raised
        exact upTo.2
    | refresh =>
      dsimp only at raised
      split at raised
      · cases raised
      · obtain rfl := Option.some.inj raised
        exact beside.2

/-- What a transaction does to a sleeping pump: it may touch nothing that is stuck, or be
    silent, or have the pump told of it, or be refused. -/
inductive Pump.Told (env : Env) (p : Pump) (op : Op) : Prop where
  | untold (kind : op.harmless p.service.db = true ∨ op.silent p.service.db = true)
      (ends : ∀ q : Pump, q.follow p.service.db op = q)
  | told (comes : ∀ q : Pump, q.phase = .asleep → (q.follow p.service.db op).Coming)
  | refused (same : apply env op p.service.db = p.service.db)
      (ends : ∀ q : Pump, q.follow p.service.db op = q)

theorem transact_told (env : Env) (may : p.mayTransact op = true) (asleep : p.phase = .asleep) :
    p.Told env op := by
  cases op with
  | reconcile | restart => simp [Pump.mayTransact, asleep] at may
  | settle | dispatch | runNow => cases may
  | start | createTask | deleteSource => exact .untold (.inl rfl) fun _ => rfl
  | deleteTask | createSource | updateSource | sweep =>
    refine .untold ?_ fun _ => rfl
    unfold Op.harmless
    cases Op.silent p.service.db _ <;> simp
  | tick => exact .told fun q _ => .inr (.inr (.inr (Nat.succ_pos q.ticks)))
  | finish run | abandon run => exact .told fun q _ => depart_coming q run
  | updateTask task data now =>
    cases edit : updateTask p.service.db task data now with
    | error refusal =>
      refine .refused ?_ fun q => ?_
      · simp only [apply, edit, Db.orElse]
      · simp only [Pump.follow, edit]
    | ok edited =>
      refine .told fun q sleeps => ?_
      simp only [Pump.follow, edit]
      exact wake_coming sleeps

theorem transact_sound (sound : p.Sound env) (may : p.mayTransact op = true)
    (committed : p.commit env op = some q) : (q.follow p.service.db op).Sound env := by
  obtain ⟨service, phase⟩ := follow_frame q p.service.db op
  have shape := (commit_some committed).2
  have phase' : q.phase = p.phase := by rw [shape]
  refine ⟨service ▸ commit_linked sound.linked committed, fun sleeps => ?_⟩
  have asleep : p.phase = .asleep := (phase.trans phase').symm.trans sleeps
  cases transact_told env may asleep with
  | untold kind ends =>
    rw [ends q]
    rcases sound.heard asleep with comes | rests
    · rw [shape]
      exact .inl comes
    · exact .inr (commit_rests sound.linked committed kind rests)
  | told comes => exact .inl (comes q (phase'.trans asleep))
  | refused same ends =>
    rw [ends q, shape]
    rcases sound.heard asleep with comes | lapsed | ⟨l, last, rested⟩
    · exact .inl comes
    · exact .inr (.inl (by simp [lapsed]))
    · refine .inr (.inr ⟨l, last, ?_⟩)
      change Db.Settled _ (apply env op p.service.db) ∧ Db.Stuck _ _ _ (apply env op p.service.db)
      rw [same]
      exact rested

theorem admitted_sound {task : Nat} {stamp : Stamp} {fails : Option Int} (sound : p.Sound env)
    (step : p.step env (.runNow task stamp fails) = some q) : q.Sound env := by
  cases fails with
  | none =>
    obtain ⟨r, committed, rfl⟩ := Option.map_eq_some_iff.mp step
    have shape := (commit_some committed).2
    have linked := commit_linked sound.linked committed
    refine ⟨linked, fun sleeps => ?_⟩
    rcases sound.heard (by rw [shape] at sleeps; exact sleeps) with comes | rests
    · rw [shape]
      exact .inl comes
    · have rested := commit_rests sound.linked committed (.inl rfl) rests
      exact .inr rested
  | some later =>
    obtain ⟨run, -, rest⟩ := Option.bind_eq_some_iff.mp step
    obtain ⟨r, committed, failed⟩ := Option.bind_eq_some_iff.mp rest
    have linked := commit_linked sound.linked committed
    refine ⟨commit_linked linked failed, fun _ => .inr (.inl ?_)⟩
    rw [(commit_some failed).2]
    simp [Op.silent]

/-- A pass whose settlement leaves a row that the next would change is noted as a lapse. -/
theorem pass_sound {byTick : Bool} {stamps : List Stamp} (sound : p.Sound env)
    (step : p.step env (.pass byTick probe now stamps) = some q) : q.Sound env := by
  obtain ⟨q', passed, rest⟩ := Option.bind_eq_some_iff.mp step
  obtain ⟨r, committed, rfl⟩ := Option.map_eq_some_iff.mp rest
  have service := (passed_some passed).1
  have linked := commit_linked (service ▸ sound.linked) committed
  refine ⟨linked, fun _ => .inr ?_⟩
  by_cases settled : r.service.db.Settled now
  · refine .inr ⟨⟨probe, now⟩, rfl, settled, ?_⟩
    rw [(commit_some committed).2]
    change Db.Stuck _ _ _ (dispatchDue env.maxConcurrentRuns probe q'.service.db now stamps).db
    exact pass_leaves_stuck _ _ _ _ _
  · exact .inl (by simp [settled])

/-- Who is told by its own step leaves the pump as it was, up to what it is told. -/
theorem pumpStep_sound {act : PumpAct} (sound : p.Sound env) (step : p.step env act = some q) :
    q.Sound env := by
  cases act with
  | loop =>
    simp only [Pump.step] at step
    split at step
    · obtain rfl := Option.some.inj step
      refine ⟨sound.linked, fun sleeps => ?_⟩
      cases sleeps
    · cases step
  | transact op =>
    simp only [Pump.step] at step
    split at step
    · rename_i may
      obtain ⟨r, committed, rfl⟩ := Option.map_eq_some_iff.mp step
      exact transact_sound sound may committed
    · cases step
  | runNow task stamp fails => exact admitted_sound sound step
  | editRaises task data now =>
    obtain ⟨r, committed, rfl⟩ := Option.map_eq_some_iff.mp step
    have linked := commit_linked sound.linked committed
    exact ⟨linked, fun _ => .inr (.inl rfl)⟩
  | exits run =>
    simp only [Pump.step] at step
    split at step
    · obtain rfl := Option.some.inj step
      exact wake_sound sound.linked
    split at step
    · obtain rfl := Option.some.inj step
      exact wake_sound sound.linked
    · cases step
  | set =>
    simp only [Pump.step] at step
    split at step
    · obtain rfl := Option.some.inj step
      exact ⟨sound.linked, fun _ => .inl (.inl rfl)⟩
    · cases step
  | pass byTick probe now stamps => exact pass_sound sound step
  | passRaises byTick probe now stamps fault =>
    obtain ⟨q', passed, rest⟩ := Option.bind_eq_some_iff.mp step
    obtain ⟨r, committed, rest⟩ := Option.bind_eq_some_iff.mp rest
    obtain ⟨left, raised, rfl⟩ := Option.map_eq_some_iff.mp rest
    exact ⟨raising_linked env sound.linked raised, fun _ => .inr (.inl rfl)⟩
  | skips byTick =>
    obtain ⟨q', passed, rfl⟩ := Option.map_eq_some_iff.mp step
    exact ⟨(passed_some passed).1 ▸ sound.linked, fun _ => .inr (.inl rfl)⟩
  | rouse =>
    simp only [Pump.step] at step
    split at step
    · obtain rfl := Option.some.inj step
      refine ⟨sound.linked, fun sleeps => ?_⟩
      cases sleeps
    · cases step
  | stop =>
    obtain rfl := Option.some.inj step
    refine ⟨sound.linked, fun sleeps => ?_⟩
    cases sleeps

theorem pumped_sound {s : Service} (linked : s.db.Linked) (pumped : Pumped env s p) :
    p.Sound env := by
  obtain ⟨acts, trace⟩ := pumped
  exact trace_invariant (Pump.Sound env) (fun _ _ _ sound step => pumpStep_sound sound step) trace
    ⟨linked, nofun⟩

end Steps

/-- No wake-up is lost: whenever the pump sleeps and nothing is on its way to it, its last pass
    has gone through, and another one would start nothing, however much later, until a retry
    comes due; unless something has been let start since that nobody announces. -/
theorem sleeping_pump_misses_nothing {env : Env} {s : Service} {p : Pump}
    (reachable : Reachable env s) (pumped : Pumped env s p) (asleep : p.phase = .asleep)
    (quiet : ¬ p.Coming) (kept : p.lapsed = false) :
    ∃ l, p.last = some l ∧ ∀ now stamps, l.now ≤ now →
      (∀ row ∈ p.service.db.taskDue.rows, ∀ instant, row.status = .retry →
        row.retryAt = some instant → l.now < instant → now < instant) →
      (dispatchDue env.maxConcurrentRuns l.probe p.service.db now stamps).started = [] := by
  have sound := pumped_sound (reachable_linked reachable) pumped
  rcases sound.heard asleep with comes | lapsed | ⟨l, last, settled, stuck⟩
  · exact absurd comes quiet
  · rw [kept] at lapsed
    cases lapsed
  · refine ⟨l, last, fun now stamps later waits => ?_⟩
    exact settled_starts_nothing sound.linked (settled_later sound.linked settled)
      (stuck_later later waits stuck) stamps

namespace Sample

/-- The pump passes, a tick starts the run of the first minute, and the execution that has ended
    it wakes the pump. -/
def wakeUps : List PumpAct :=
  [.loop, .pass false probe (seconds 11) [], .transact (.tick 1 (seconds 60)),
    .pass true probe (seconds 61) [stamp 61], .transact (.start 1 (seconds 62)),
    .transact (.finish 1 (.exited 0) false {} (seconds 90)), .exits 1, .set, .rouse,
    .pass false probe (seconds 91) []]

def rested : Pump := (wakeUps.foldlM (Pump.step env) (Pump.init start)).getD (Pump.init start)

theorem rested_pumped : Pumped env start rested := by
  have done : (wakeUps.foldlM (Pump.step env) (Pump.init start)).isSome = true := by decide
  obtain ⟨p, reached⟩ := Option.isSome_iff_exists.mp done
  refine ⟨wakeUps, trace_of_foldlM (fun _ _ _ step => step) ?_⟩
  rw [rested, reached]
  rfl

end Sample

theorem rested_pump_misses_nothing : Sample.rested.service.clock = seconds 91 ∧
    ∃ l, Sample.rested.last = some l ∧ ∀ now stamps, l.now ≤ now →
      (∀ row ∈ Sample.rested.service.db.taskDue.rows, ∀ instant, row.status = .retry →
        row.retryAt = some instant → l.now < instant → now < instant) →
      (dispatchDue Sample.env.maxConcurrentRuns l.probe Sample.rested.service.db now
        stamps).started = [] :=
  ⟨by decide, sleeping_pump_misses_nothing Sample.start_reachable Sample.rested_pumped (by decide)
    (by decide) (by decide)⟩

end Pullbackup
