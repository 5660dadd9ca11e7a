import Pullbackup.Registry

/- services/kuma.py and api/tasks.py: the monitors that the requests leave at Kuma, when every
   call succeeds. The effect of a call is in place when the request reads its answer. -/
namespace Pullbackup
open KeyedTable History

/-- A push monitor at Kuma, whose ids are positive. -/
structure Monitor where
  id : Nat
  active : Bool
  real : id ≠ 0
  deriving DecidableEq

instance : Keyed Monitor Nat := ⟨Monitor.id⟩

@[simp] theorem key_monitor (m : Monitor) : Keyed.key m = m.id := rfl

def createPushMonitor (monitors : Table Monitor) (id : Nat) : Table Monitor :=
  if real : id ≠ 0 then monitors.put ⟨id, true, real⟩ else monitors

def setActive (monitors : Table Monitor) (id : Nat) (active : Bool) : Table Monitor :=
  match monitors.get id with
  | none => monitors
  | some m => monitors.put { m with active := active }

def answered (monitors : Table Monitor) (copy : Task) (answer : Nat × String) :
    KumaCall → Table Monitor
  | .create => createPushMonitor monitors answer.1
  | .edit .active _ => setActive monitors (copy.kumaMonitorId.getD 0) copy.enabled
  | .edit .interval _ | .push => monitors
  | .delete => monitors.erase (copy.kumaMonitorId.getD 0)

structure Monitored where
  api : Api
  monitors : Table Monitor

/-- The rows stay, with the columns of the client and of the monitor. -/
def SameMonitors (db db' : Db) : Prop :=
  ∀ id, (db'.tasks.get id).map (fun t => (t.toTaskFields, t.kumaMonitorId)) =
    (db.tasks.get id).map fun t => (t.toTaskFields, t.kumaMonitorId)

def MonitorStep (env : ApiEnv) (s : Monitored) (event : ApiEvent) (t : Monitored) : Prop :=
  ApiStep env s.api event t.api ∧
  match event with
  | .resume id answer _ => ∃ r monitor, s.api.requests.get id = some r ∧ answer = some monitor ∧
      (r.call = .create → monitor.1 ≠ 0 ∧ s.monitors.get monitor.1 = none) ∧
      t.monitors = answered s.monitors r.copy monitor r.call
  | .elsewhere db => SameMonitors s.api.db db ∧ t.monitors = s.monitors
  | .create _ _ _ | .update _ _ _ _ | .delete _ => t.monitors = s.monitors

/-- A monitor that is created comes back to a task that is there, wants one, has none and is
    enabled. -/
def ComesBack (s : Monitored) : ApiEvent → Prop
  | .resume id _ _ => ∀ r, s.api.requests.get id = some r → r.call = .create →
      ∃ row, s.api.db.tasks.get r.copy.id = some row ∧ row.kumaEnabled = true ∧
        row.monitored = false ∧ row.enabled = true
  | _ => True

def MonitorStepBack (env : ApiEnv) (s : Monitored) (event : ApiEvent) (t : Monitored) : Prop :=
  MonitorStep env s event t ∧ ComesBack s event

/-- The monitors are those of the tasks that want one, one for each and paused exactly when its
    task is disabled; no other task stores one. -/
structure Monitored.Follows (s : Monitored) : Prop where
  owned : ∀ m ∈ s.monitors.rows, ∃ t ∈ s.api.db.tasks.rows,
    t.kumaEnabled = true ∧ t.kumaMonitorId = some m.id
  stored : ∀ t ∈ s.api.db.tasks.rows, t.kumaEnabled = true →
    ∃ m ∈ s.monitors.rows, t.kumaMonitorId = some m.id ∧ m.active = t.enabled
  distinct : ∀ t ∈ s.api.db.tasks.rows, ∀ u ∈ s.api.db.tasks.rows, t.kumaEnabled = true →
    u.kumaEnabled = true → t.kumaMonitorId = u.kumaMonitorId → t = u
  cleared : ∀ t ∈ s.api.db.tasks.rows, t.kumaEnabled = false → t.monitored = false

/- The invariant: what a row still lacks, a request in flight for it is about to do. -/

def Flies (requests : Table Request) (task : Nat) (call : KumaCall) : Prop :=
  ∃ r ∈ requests.rows, r.copy.id = task ∧ r.call = call

structure RowFits (monitors : Table Monitor) (requests : Table Request) (t : Task) : Prop where
  wanted : t.kumaEnabled = true → t.monitored = false → Flies requests t.id .create
  stored : t.monitored = true → ∃ m ∈ monitors.rows, t.kumaMonitorId = some m.id ∧
    (t.kumaEnabled = true → m.active = t.enabled ∨
      ∃ op rest, Flies requests t.id (.edit op rest) ∧ .active ∈ op :: rest)
  unwanted : t.kumaEnabled = false → t.monitored = true → Flies requests t.id .delete

/-- A call on a stored monitor. -/
def KumaCall.onMonitor : KumaCall → Bool
  | .edit _ _ | .delete => true
  | .create | .push => false

/-- The row still says what the copy of the request says. -/
structure Request.Targets (tasks : Table Task) (r : Request) : Prop where
  row : ∃ t, tasks.get r.copy.id = some t ∧ t.toTaskFields = r.copy.toTaskFields ∧
    t.kumaMonitorId = r.copy.kumaMonitorId
  there : r.copy.monitored = true
  edits : ∀ op rest, r.call = .edit op rest → r.kind = .update ∧ r.copy.kumaEnabled = true
  drops : r.call = .delete → r.kind = .update → r.copy.kumaEnabled = false

structure Monitored.Sound (s : Monitored) : Prop where
  calls : ∀ r ∈ s.api.requests.rows, r.kind = .create → r.call.onMonitor = false
  deletes : ∀ r ∈ s.api.requests.rows, r.kind = .delete → r.call = .delete
  alone : ∀ r ∈ s.api.requests.rows, ∀ q ∈ s.api.requests.rows, r.holdsLock → q.holdsLock → r = q
  quiet : ∀ id, s.api.pendingOps id = []
  targets : ∀ r ∈ s.api.requests.rows, r.call.onMonitor = true → r.Targets s.api.db.tasks
  fits : ∀ t ∈ s.api.db.tasks.rows, RowFits s.monitors s.api.requests t
  owned : ∀ m ∈ s.monitors.rows, ∃ t ∈ s.api.db.tasks.rows, t.kumaMonitorId = some m.id
  distinct : ∀ t ∈ s.api.db.tasks.rows, ∀ u ∈ s.api.db.tasks.rows, t.monitored = true →
    t.kumaMonitorId = u.kumaMonitorId → t = u

section Syncs
variable {pending : List MonitorOp} {copy : Task} {prevCron : String} {prevEnabled pushes : Bool}

theorem startSync_call {c : KumaCall}
    (starts : startSync true pending copy prevCron prevEnabled pushes = some c) :
    c.onMonitor = false ∨
    (copy.monitored = true ∧ copy.kumaEnabled = true ∧ ∃ op rest, c = .edit op rest) ∨
    (copy.monitored = true ∧ copy.kumaEnabled = false ∧ c = .delete) := by
  have ended : endSync copy pushes = some c → c.onMonitor = false := by
    intro last
    rw [endSync_push last]
    rfl
  unfold startSync at starts
  split at starts
  · cases starts
  · split at starts
    · cases starts
      exact Or.inl rfl
    · split at starts
      · rename_i on
        dsimp only at starts
        split at starts
        · exact Or.inl (ended starts)
        · cases starts
          exact Or.inr (Or.inl ⟨on.2.1, on.1, _, _, rfl⟩)
      · split at starts
        · rename_i off
          cases starts
          exact Or.inr (Or.inr ⟨off.2, off.1, rfl⟩)
        · exact Or.inl (ended starts)

theorem startSync_create (on : copy.kumaEnabled = true) (bare : copy.monitored = false) :
    startSync true pending copy prevCron prevEnabled pushes = some .create := by
  rw [startSync, if_neg (by simp), if_pos ⟨on, bare⟩]

theorem startSync_delete (off : copy.kumaEnabled = false) (there : copy.monitored = true) :
    startSync true pending copy prevCron prevEnabled pushes = some .delete := by
  rw [startSync, if_neg (by simp), if_neg (by simp [off]), if_neg (by simp [off]),
    if_pos ⟨off, there⟩]

theorem startSync_active (on : copy.kumaEnabled = true) (there : copy.monitored = true)
    (changed : copy.enabled ≠ prevEnabled) :
    ∃ op rest, startSync true pending copy prevCron prevEnabled pushes = some (.edit op rest) ∧
      MonitorOp.active ∈ op :: rest := by
  rw [startSync, if_neg (by simp), if_neg (by simp [there]),
    if_pos ⟨on, there, Or.inr (Or.inl changed)⟩]
  dsimp only
  split
  · rename_i nothing
    have mem : MonitorOp.active ∈ ([] : List MonitorOp) := by
      rw [← nothing]
      simp [changed]
    cases mem
  · rename_i op rest owed
    refine ⟨op, rest, rfl, ?_⟩
    rw [← owed]
    simp [changed]

end Syncs

section Rows
variable {t u : Task} {monitors monitors' : Table Monitor} {requests requests' : Table Request}

theorem monitored_of_id {m : Monitor} (stored : t.kumaMonitorId = some m.id) :
    t.monitored = true := by
  rw [Task.monitored, stored]
  simpa using m.real

theorem rowFits_mono (fits : RowFits monitors requests t)
    (monitor : ∀ m ∈ monitors.rows, t.kumaMonitorId = some m.id → m ∈ monitors'.rows)
    (flight : ∀ r ∈ requests.rows, r.copy.id = t.id → r.call ≠ .push → r ∈ requests'.rows) :
    RowFits monitors' requests' t := by
  have flies : ∀ call, call ≠ .push → Flies requests t.id call → Flies requests' t.id call := by
    rintro call works ⟨r, mem, own, rfl⟩
    exact ⟨r, flight r mem own works, own, rfl⟩
  refine ⟨fun on bare => flies _ (by simp) (fits.wanted on bare), ?_, fun off there =>
    flies _ (by simp) (fits.unwanted off there)⟩
  intro there
  obtain ⟨m, mem, stored, paused⟩ := fits.stored there
  refine ⟨m, monitor m mem stored, stored, fun on => ?_⟩
  rcases paused on with same | ⟨op, rest, flying, owes⟩
  · exact Or.inl same
  · exact Or.inr ⟨op, rest, flies _ (by simp) flying, owes⟩

end Rows

section Start
variable {s : Monitored}

/-- With nothing in flight the monitors follow the rows. -/
theorem sound_follows (sound : s.Sound) (idle : s.api.requests.rows = []) : s.Follows := by
  have grounded : ∀ task call, ¬ Flies s.api.requests task call := by
    rintro task call ⟨r, mem, -⟩
    rw [idle] at mem
    cases mem
  have cleared : ∀ t ∈ s.api.db.tasks.rows, t.kumaEnabled = false → t.monitored = false := by
    intro t mem off
    by_contra there
    exact grounded _ _ ((sound.fits t mem).unwanted off (by simpa using there))
  have there : ∀ t ∈ s.api.db.tasks.rows, t.kumaEnabled = true → t.monitored = true := by
    intro t mem on
    by_contra bare
    exact grounded _ _ ((sound.fits t mem).wanted on (by simpa using bare))
  refine ⟨?_, ?_, ?_, cleared⟩
  · intro m mem
    obtain ⟨t, own, stored⟩ := sound.owned m mem
    refine ⟨t, own, ?_, stored⟩
    by_contra off
    have bare := cleared t own (by simpa using off)
    rw [monitored_of_id stored] at bare
    cases bare
  · intro t mem on
    obtain ⟨m, own, stored, paused⟩ := (sound.fits t mem).stored (there t mem on)
    refine ⟨m, own, stored, ?_⟩
    rcases paused on with same | ⟨op, rest, flying, -⟩
    · exact same
    · exact absurd flying (grounded _ _)
  · exact fun t mt u mu on _ same => sound.distinct t mt u mu (there t mt on) same

theorem follows_sound {env : ApiEnv} {db : Db} {monitors : Table Monitor}
    (start : (⟨Api.start env db, monitors⟩ : Monitored).Follows) :
    (⟨Api.start env db, monitors⟩ : Monitored).Sound := by
  have bare : (Api.start env db).requests.rows = [] := rfl
  have on_of_there : ∀ t ∈ db.tasks.rows, t.monitored = true → t.kumaEnabled = true := by
    intro t mem there
    by_contra off
    have gone := start.cleared t mem (by simpa using off)
    rw [there] at gone
    cases gone
  refine ⟨by simp [bare], by simp [bare], by simp [bare], fun id => rfl, by simp [bare], ?_, ?_, ?_⟩
  · intro t mem
    refine ⟨?_, ?_, ?_⟩
    · intro on nothing
      obtain ⟨m, -, stored, -⟩ := start.stored t mem on
      rw [monitored_of_id stored] at nothing
      cases nothing
    · intro there
      obtain ⟨m, own, stored, paused⟩ := start.stored t mem (on_of_there t mem there)
      exact ⟨m, own, stored, fun _ => Or.inl paused⟩
    · intro off there
      rw [on_of_there t mem there] at off
      cases off
  · intro m mem
    obtain ⟨t, own, -, stored⟩ := start.owned m mem
    exact ⟨t, own, stored⟩
  · intro t mt u mu there same
    have on := on_of_there t mt there
    have too : u.monitored = true := by
      rw [Task.monitored, ← same]
      exact there
    exact start.distinct t mt u mu on (on_of_there u mu too) same

end Start

/-- What holds of the other requests and tasks while the request id goes on with the task n. -/
structure Monitored.SoundBut (s : Monitored) (id n : Nat) : Prop where
  calls : ∀ r ∈ s.api.requests.rows, r.id ≠ id → r.kind = .create → r.call.onMonitor = false
  deletes : ∀ r ∈ s.api.requests.rows, r.id ≠ id → r.kind = .delete → r.call = .delete
  alone : ∀ r ∈ s.api.requests.rows, ∀ q ∈ s.api.requests.rows, r.id ≠ id → q.id ≠ id →
    r.holdsLock → q.holdsLock → r = q
  quiet : ∀ id, s.api.pendingOps id = []
  targets : ∀ r ∈ s.api.requests.rows, r.id ≠ id → r.call.onMonitor = true →
    r.Targets s.api.db.tasks
  fits : ∀ t ∈ s.api.db.tasks.rows, t.id ≠ n → ∀ requests : Table Request,
    (∀ r ∈ s.api.requests.rows, r.id ≠ id → r ∈ requests.rows) → RowFits s.monitors requests t
  owned : ∀ m ∈ s.monitors.rows, ∃ t ∈ s.api.db.tasks.rows, t.kumaMonitorId = some m.id
  distinct : ∀ t ∈ s.api.db.tasks.rows, ∀ u ∈ s.api.db.tasks.rows, t.monitored = true →
    t.kumaMonitorId = u.kumaMonitorId → t = u

section Steps
variable {env : ApiEnv} {s : Monitored} {id n : Nat} {kind : RequestKind} {copy : Task}
  {call : Option KumaCall}

theorem sound_others (sound : s.Sound)
    (own : ∀ r ∈ s.api.requests.rows, r.id = id → r.copy.id = n) : s.SoundBut id n := by
  refine ⟨fun r mem _ => sound.calls r mem, fun r mem _ => sound.deletes r mem,
    fun r mr q mq _ _ => sound.alone r mr q mq, sound.quiet, fun r mem _ => sound.targets r mem, ?_,
    sound.owned, sound.distinct⟩
  intro t mem other requests kept
  refine rowFits_mono (sound.fits t mem) (fun m here _ => here) fun r here whose _ => ?_
  exact kept r here fun same => other (whose.symm.trans (own r here same))

theorem but_put (but : s.SoundBut id n) {row : Task} (key : row.id = n) {db : Db}
    (tasks : db.tasks = s.api.db.tasks.put row) {ops : Nat → List MonitorOp}
    (quiet : ∀ id, ops id = []) {monitors : Table Monitor}
    (aimed : ∀ r ∈ s.api.requests.rows, r.id ≠ id → r.call.onMonitor = true → r.copy.id ≠ n)
    (kept : ∀ m ∈ s.monitors.rows, ∀ t ∈ s.api.db.tasks.rows, t.id ≠ n →
      t.kumaMonitorId = some m.id → m ∈ monitors.rows)
    (owned : ∀ m ∈ monitors.rows, row.kumaMonitorId = some m.id ∨
      ∃ t ∈ s.api.db.tasks.rows, t.id ≠ n ∧ t.kumaMonitorId = some m.id)
    (distinct : row.monitored = true → ∀ u ∈ s.api.db.tasks.rows, u.id ≠ n →
      row.kumaMonitorId ≠ u.kumaMonitorId) :
    ({ api := { s.api with db := db, pendingOps := ops }, monitors := monitors } :
      Monitored).SoundBut id n := by
  have rows : ∀ t, t ∈ db.tasks.rows ↔ t = row ∨ t.id ≠ n ∧ t ∈ s.api.db.tasks.rows := by
    intro t
    rw [tasks, Table.mem_put_iff, key_task, key_task, key]
  refine ⟨but.calls, but.deletes, but.alone, quiet, ?_, ?_, ?_, ?_⟩
  · intro r mem other on
    have aims := but.targets r mem other on
    obtain ⟨t, here, fields⟩ := aims.row
    refine { aims with row := ⟨t, ?_, fields⟩ }
    have apart := aimed r mem other on
    rw [tasks, Table.get_put_ne]
    · exact here
    · rw [key_task, key]
      exact apart.symm
  · intro t mem other requests there
    rcases (rows t).mp mem with rfl | ⟨-, old⟩
    · exact absurd key other
    · exact rowFits_mono (but.fits t old other requests there)
        (fun m here stored => kept m here t old other stored) fun r here _ _ => here
  · intro m mem
    rcases owned m mem with new | ⟨t, old, other, stored⟩
    · exact ⟨row, (rows row).mpr (Or.inl rfl), new⟩
    · exact ⟨t, (rows t).mpr (Or.inr ⟨other, old⟩), stored⟩
  · intro t mt u mu there same
    rcases (rows t).mp mt with rfl | ⟨tOther, tOld⟩ <;>
      rcases (rows u).mp mu with rfl | ⟨uOther, uOld⟩
    · rfl
    · exact absurd same (distinct there u uOld uOther)
    · refine absurd same.symm (distinct ?_ t tOld tOther)
      rw [Task.monitored, ← same]
      exact there
    · exact but.distinct t tOld u uOld there same

theorem but_monitors (but : s.SoundBut id n) {ops : Nat → List MonitorOp}
    (quiet : ∀ id, ops id = []) {monitors : Table Monitor}
    (kept : ∀ m ∈ s.monitors.rows, ∀ t ∈ s.api.db.tasks.rows, t.id ≠ n →
      t.kumaMonitorId = some m.id → m ∈ monitors.rows)
    (owned : ∀ m ∈ monitors.rows, ∃ t ∈ s.api.db.tasks.rows, t.kumaMonitorId = some m.id) :
    (⟨{ s.api with pendingOps := ops }, monitors⟩ : Monitored).SoundBut id n := by
  refine ⟨but.calls, but.deletes, but.alone, quiet, but.targets, ?_, owned, but.distinct⟩
  intro t mem other requests there
  exact rowFits_mono (but.fits t mem other requests there)
    (fun m here stored => kept m here t mem other stored) fun r here _ _ => here

theorem purge_follows (but : s.SoundBut id n) (requests : Table Request)
    (ended : ∀ r, r ∈ requests.rows ↔ r ∈ s.api.requests.rows ∧ r.id ≠ id)
    {monitors : Table Monitor}
    (aimed : ∀ r ∈ s.api.requests.rows, r.id ≠ id → r.call.onMonitor = true → r.copy.id ≠ n)
    (kept : ∀ m ∈ s.monitors.rows, ∀ t ∈ s.api.db.tasks.rows, t.id ≠ n →
      t.kumaMonitorId = some m.id → m ∈ monitors.rows)
    (owned : ∀ m ∈ monitors.rows, ∃ t ∈ s.api.db.tasks.rows, t.id ≠ n ∧ t.kumaMonitorId = some m.id) :
    ({ api := ({ s.api with requests := requests } : Api).purge n, monitors := monitors } :
      Monitored).Sound := by
  have rows : ∀ t, t ∈ (s.api.db.tasks.erase n).rows ↔ t ∈ s.api.db.tasks.rows ∧ t.id ≠ n :=
    fun t => Table.mem_erase_iff
  have rest := fun r mem => (ended r).mp mem
  refine ⟨fun r mem => but.calls r (rest r mem).1 (rest r mem).2,
    fun r mem => but.deletes r (rest r mem).1 (rest r mem).2,
    fun r mr q mq => but.alone r (rest r mr).1 q (rest q mq).1 (rest r mr).2 (rest q mq).2,
    but.quiet, ?_, ?_, ?_, ?_⟩
  · intro r mem on
    obtain ⟨old, other⟩ := rest r mem
    have aims := but.targets r old other on
    obtain ⟨t, here, fields⟩ := aims.row
    refine { aims with row := ⟨t, ?_, fields⟩ }
    show (s.api.db.tasks.erase n).get r.copy.id = some t
    rw [Table.get_erase, if_neg (aimed r old other on)]
    exact here
  · intro t mem
    obtain ⟨old, other⟩ := (rows t).mp mem
    exact rowFits_mono (but.fits t old other requests fun r mem apart => (ended r).mpr ⟨mem, apart⟩)
      (fun m here stored => kept m here t old other stored) fun r here _ _ => here
  · intro m mem
    obtain ⟨t, old, other, stored⟩ := owned m mem
    exact ⟨t, (rows t).mpr ⟨old, other⟩, stored⟩
  · intro t mt u mu there same
    exact but.distinct t ((rows t).mp mt).1 u ((rows u).mp mu).1 there same

theorem proceed_follows (but : s.SoundBut id copy.id)
    (free : kind ≠ .create → ∀ r ∈ s.api.requests.rows, r.id ≠ id → r.holdsLock = false)
    (creates : ∀ c, call = some c → kind = .create → c.onMonitor = false)
    (deletes : ∀ c, call = some c → kind = .delete → c = .delete)
    (target : ∀ c, call = some c → c.onMonitor = true →
      (⟨id, kind, copy, c⟩ : Request).Targets s.api.db.tasks)
    (own : ∀ t ∈ s.api.db.tasks.rows, t.id = copy.id →
      RowFits s.monitors (s.api.proceed env id kind copy call).requests t) :
    ({ s with api := s.api.proceed env id kind copy call } : Monitored).Sound := by
  have fits : ∀ requests : Table Request,
      (∀ r ∈ s.api.requests.rows, r.id ≠ id → r ∈ requests.rows) →
      (∀ t ∈ s.api.db.tasks.rows, t.id = copy.id → RowFits s.monitors requests t) →
      ∀ t ∈ s.api.db.tasks.rows, RowFits s.monitors requests t := by
    intro requests kept mine t mem
    by_cases same : t.id = copy.id
    · exact mine t mem same
    · exact but.fits t mem same requests kept
  cases call with
  | none =>
    have rest : ∀ r ∈ (s.api.requests.erase id).rows, r ∈ s.api.requests.rows ∧ r.id ≠ id :=
      fun r mem => Table.mem_erase_iff.mp mem
    refine ⟨fun r mem => but.calls r (rest r mem).1 (rest r mem).2,
      fun r mem => but.deletes r (rest r mem).1 (rest r mem).2,
      fun r mr q mq => but.alone r (rest r mr).1 q (rest q mq).1 (rest r mr).2 (rest q mq).2,
      but.quiet, fun r mem => but.targets r (rest r mem).1 (rest r mem).2, ?_, but.owned,
      but.distinct⟩
    exact fits _ (fun r mem other => Table.mem_erase_iff.mpr ⟨mem, other⟩) own
  | some c =>
    have split_rows : ∀ r ∈ (s.api.requests.put ⟨id, kind, copy, c⟩).rows,
        r = ⟨id, kind, copy, c⟩ ∨ (r.id ≠ id ∧ r ∈ s.api.requests.rows) :=
      fun r mem => Table.mem_put_iff.mp mem
    have unlocked : ∀ r : Request, r.id ≠ id → r ∈ s.api.requests.rows → r.holdsLock →
        (⟨id, kind, copy, c⟩ : Request).holdsLock → False := by
      intro r other mem holds held
      have nothing := free (by simpa [Request.holdsLock] using held) r mem other
      rw [nothing] at holds
      cases holds
    refine ⟨?_, ?_, ?_, but.quiet, ?_, ?_, but.owned, but.distinct⟩
    · intro r mem create
      rcases split_rows r mem with rfl | ⟨other, old⟩
      · exact creates c rfl create
      · exact but.calls r old other create
    · intro r mem delete
      rcases split_rows r mem with rfl | ⟨other, old⟩
      · exact deletes c rfl delete
      · exact but.deletes r old other delete
    · intro r mr q mq hr hq
      rcases split_rows r mr with rfl | ⟨ro, rold⟩ <;> rcases split_rows q mq with rfl | ⟨qo, qold⟩
      · rfl
      · exact absurd hr (unlocked q qo qold hq)
      · exact absurd hq (unlocked r ro rold hr)
      · exact but.alone r rold q qold ro qo hr hq
    · intro r mem on
      rcases split_rows r mem with rfl | ⟨other, old⟩
      · exact target c rfl on
      · exact but.targets r old other on
    · exact fits _ (fun r mem other => Table.mem_put_iff.mpr (Or.inr ⟨other, mem⟩)) own

theorem create_follows (sound : s.Sound) (configured : env.kuma = true) (data : TaskFields)
    (now : Int) (pushes : Bool) :
    ({ s with api := s.api.create env data now pushes } : Monitored).Sound := by
  unfold Api.create
  split
  · exact sound
  · rename_i db created
    split
    · exact sound
    · rename_i copy stored
      have key : copy.id = nextId s.api.db.tasks := Table.key_of_get stored
      have tasks : db.tasks = s.api.db.tasks.put
          { data with id := nextId s.api.db.tasks, createdAt := now, updatedAt := now } := by
        unfold createTask at created
        split at created
        · cases created
        · cases created; rfl
      have row : copy =
          { data with id := nextId s.api.db.tasks, createdAt := now, updatedAt := now } := by
        rw [tasks, Table.get_put, key_task, if_pos rfl] at stored
        exact (Option.some.inj stored).symm
      rw [← row] at tasks
      have bare : copy.kumaMonitorId = none ∧ copy.kumaPushToken = none := by
        rw [row]
        exact ⟨rfl, rfl⟩
      have unmonitored : copy.monitored = false := by simp [Task.monitored, bare.1]
      have older : ∀ t ∈ s.api.db.tasks.rows, t.id ≠ copy.id := by
        intro t mem
        have less := key_lt_nextId s.api.db.tasks mem
        simp only [key_task] at less
        omega
      have but : ({ s with api := { s.api with db := db } } : Monitored).SoundBut
          (nextId s.api.requests) copy.id := by
        refine but_put (sound_others sound fun r mem same => absurd same (request_fresh mem)) rfl
          tasks sound.quiet ?_ (fun m mem _ _ _ _ => mem) ?_ ?_
        · intro r mem _ on same
          obtain ⟨t, here, -⟩ := (sound.targets r mem on).row
          exact older t (Table.mem_of_get here) ((Table.key_of_get here).trans same)
        · intro m mem
          obtain ⟨t, old, stored⟩ := sound.owned m mem
          exact Or.inr ⟨t, old, older t old, stored⟩
        · intro there
          rw [unmonitored] at there
          cases there
      rw [configured]
      have offMonitor : ∀ c,
          startSync true (s.api.pendingOps copy.id) copy "" true pushes = some c →
            c.onMonitor = false := by
        intro c starts
        rcases startSync_call starts with off | ⟨there, -⟩ | ⟨there, -⟩
        · exact off
        · rw [unmonitored] at there
          cases there
        · rw [unmonitored] at there
          cases there
      refine proceed_follows (s := { s with api := { s.api with db := db } }) but
        (fun create => absurd rfl create) (fun c starts _ => offMonitor c starts)
        (fun c _ delete => by cases delete) (fun c starts on => ?_) ?_
      · rw [offMonitor c starts] at on
        cases on
      · intro t mem same
        obtain rfl : t = copy := Table.eq_of_get stored mem (same.trans key)
        refine ⟨?_, ?_, ?_⟩
        · intro on nothing
          rw [startSync_create on nothing]
          exact ⟨_, Table.mem_put_iff.mpr (Or.inl rfl), rfl, rfl⟩
        · intro there
          rw [unmonitored] at there
          cases there
        · intro _ there
          rw [unmonitored] at there
          cases there

theorem proceed_update (but : s.SoundBut id copy.id)
    (free : ∀ r ∈ s.api.requests.rows, r.id ≠ id → r.holdsLock = false)
    (target : ∀ c, call = some c → c.onMonitor = true →
      (⟨id, .update, copy, c⟩ : Request).Targets s.api.db.tasks)
    (own : ∀ t ∈ s.api.db.tasks.rows, t.id = copy.id →
      RowFits s.monitors (s.api.proceed env id .update copy call).requests t) :
    ({ s with api := s.api.proceed env id .update copy call } : Monitored).Sound :=
  proceed_follows but (fun _ => free) (fun c _ create => by cases create)
    (fun c _ delete => by cases delete) target own

/-- Without a request under the lock nobody works on a stored monitor. -/
theorem unlocked_grounded (sound : s.Sound) (unlocked : s.api.locked = false) {r : Request}
    (mem : r ∈ s.api.requests.rows) : r.call.onMonitor = false := by
  have free := holdsLock_of_locked unlocked r mem
  exact sound.calls r mem (by simpa [Request.holdsLock] using free)

theorem unlocked_idle (sound : s.Sound) (unlocked : s.api.locked = false) {task : Nat}
    {c : KumaCall} (on : c.onMonitor = true) : ¬ Flies s.api.requests task c := by
  rintro ⟨r, mem, -, rfl⟩
  rw [unlocked_grounded sound unlocked mem] at on
  cases on

theorem updated_others (sound : s.Sound) (unlocked : s.api.locked = false) {prev row : Task}
    (found : s.api.db.tasks.get prev.id = some prev) (key : row.id = prev.id)
    (monitor : row.kumaMonitorId = prev.kumaMonitorId) {db : Db}
    (tasks : db.tasks = s.api.db.tasks.put row) :
    ({ s with api := { s.api with db := db } } : Monitored).SoundBut (nextId s.api.requests)
      row.id := by
  rw [key]
  refine but_put (sound_others sound fun r mem same => absurd same (request_fresh mem)) key tasks
    sound.quiet ?_ (fun m mem _ _ _ _ => mem) ?_ ?_
  · intro r mem _ on
    rw [unlocked_grounded sound unlocked mem] at on
    cases on
  · intro m mem
    obtain ⟨t, old, stored⟩ := sound.owned m mem
    by_cases same : t.id = prev.id
    · left
      have mine : t = prev := Table.eq_of_get found old same
      rw [monitor, ← mine]
      exact stored
    · exact Or.inr ⟨t, old, same, stored⟩
  · intro there u mem other same
    rw [Task.monitored, monitor, ← Task.monitored] at there
    have equal := sound.distinct prev (Table.mem_of_get found) u mem there (monitor.symm.trans same)
    exact other (congrArg Task.id equal.symm)

theorem updated_fits (sound : s.Sound) (unlocked : s.api.locked = false) {prev row : Task}
    (found : s.api.db.tasks.get prev.id = some prev)
    (monitor : row.kumaMonitorId = prev.kumaMonitorId) (pending : List MonitorOp) (pushes : Bool)
    {requests : Table Request}
    (flies : ∀ c, startSync true pending row prev.cron prev.enabled pushes = some c →
      Flies requests row.id c) : RowFits s.monitors requests row := by
  have fits := sound.fits prev (Table.mem_of_get found)
  have monitored : row.monitored = prev.monitored := by
    rw [Task.monitored, Task.monitored, monitor]
  refine ⟨fun on bare => flies _ (startSync_create on bare), ?_, fun off there =>
    flies _ (startSync_delete off there)⟩
  intro there
  obtain ⟨m, own, stored, paused⟩ := fits.stored (monitored.symm.trans there)
  refine ⟨m, own, monitor.trans stored, fun on => ?_⟩
  by_cases changed : row.enabled = prev.enabled
  · left
    rw [changed]
    have was : prev.kumaEnabled = true := by
      by_contra off
      exact unlocked_idle sound unlocked rfl
        (fits.unwanted (by simpa using off) (monitored.symm.trans there))
    rcases paused was with active | ⟨op, rest, flying, -⟩
    · exact active
    · exact absurd flying (unlocked_idle sound unlocked rfl)
  · obtain ⟨op, rest, starts, owes⟩ := startSync_active on there changed
    exact Or.inr ⟨op, rest, flies _ starts, owes⟩

theorem update_follows (sound : s.Sound) (configured : env.kuma = true)
    (unlocked : s.api.locked = false) (task : Nat) (data : TaskFields) (now : Int) (pushes : Bool) :
    ({ s with api := s.api.update env task data now pushes } : Monitored).Sound := by
  have free := holdsLock_of_locked unlocked
  unfold Api.update
  split
  · exact sound
  · rename_i prev found
    split
    · exact sound
    · rename_i db updated
      obtain ⟨prev', row, found', tasks, key, sameData, monitor, -⟩ := updateTask_row updated
      obtain rfl := Option.some.inj (found.symm.trans found')
      obtain rfl : prev.id = task := Table.key_of_get found
      have here : db.tasks.get prev.id = some row := by
        rw [tasks, Table.get_put, key_task, if_pos key]
      rw [here, configured]
      dsimp only
      refine proceed_update (s := { s with api := { s.api with db := db } })
        (updated_others sound unlocked found key monitor tasks) (fun r mem _ => free r mem)
        (fun c starts on => ?_) ?_
      · have itself : db.tasks.get row.id = some row := by
          rw [key]
          exact here
        rcases startSync_call starts with off | ⟨there, enabled, op, rest, rfl⟩ | ⟨there, off, rfl⟩
        · rw [on] at off
          cases off
        · exact ⟨⟨row, itself, rfl, rfl⟩, there, fun _ _ _ => ⟨rfl, enabled⟩,
            fun same => (by cases same)⟩
        · exact ⟨⟨row, itself, rfl, rfl⟩, there, fun _ _ same => (by cases same), fun _ _ => off⟩
      · intro t mem same
        obtain rfl : t = row := Table.eq_of_get here mem (same.trans key)
        refine updated_fits sound unlocked found monitor (s.api.pendingOps prev.id) pushes
          fun c starts => ?_
        rw [starts]
        exact ⟨_, Table.mem_put_iff.mpr (Or.inl rfl), rfl, rfl⟩

theorem delete_follows (sound : s.Sound) (configured : env.kuma = true)
    (unlocked : s.api.locked = false) (task : Nat) :
    ({ s with api := s.api.delete env task } : Monitored).Sound := by
  unfold Api.delete
  split
  · exact sound
  · rename_i row found
    have mem := Table.mem_of_get found
    obtain rfl : row.id = task := Table.key_of_get found
    have but : s.SoundBut (nextId s.api.requests) row.id :=
      sound_others sound fun r mem same => absurd same (request_fresh mem)
    split
    · exact sound
    · split
      · rename_i there
        show ({ s with api := s.api.proceed env (nextId s.api.requests) .delete row (some .delete) } :
          Monitored).Sound
        refine proceed_follows but (fun _ r mem _ => holdsLock_of_locked unlocked r mem)
          (fun c _ create => by cases create) (fun c same _ => (Option.some.inj same).symm)
          (fun c same _ => ?_) ?_
        · cases same
          exact ⟨⟨row, found, rfl, rfl⟩, there.1, fun _ _ edit => (by cases edit),
            fun _ update => (by cases update)⟩
        · intro t tm same
          refine rowFits_mono (sound.fits t tm) (fun m here _ => here) fun r here _ _ => ?_
          exact Table.mem_put_iff.mpr (Or.inr ⟨request_fresh here, here⟩)
      · rename_i bare
        have unmonitored : row.monitored = false := by
          by_contra there
          exact bare ⟨by simpa using there, configured⟩
        refine purge_follows but s.api.requests (fun r => ?_) ?_ (fun m here _ _ _ _ => here) ?_
        · constructor
          · exact fun here => ⟨here, request_fresh here⟩
          · exact fun here => here.1
        · intro r here _ on
          rw [unlocked_grounded sound unlocked here] at on
          cases on
        · intro m here
          obtain ⟨t, own, stored⟩ := sound.owned m here
          refine ⟨t, own, fun same => ?_, stored⟩
          rw [Table.key_injective own mem same] at stored
          rw [monitored_of_id stored] at unmonitored
          cases unmonitored

end Steps

section Answers
variable {env : ApiEnv} {s : Monitored} {r : Request} {pushes : Bool} {monitor : Nat × String}

theorem resume_eq (kind : r.kind ≠ .delete) {api : Api} {answer : Option (Nat × String)}
    {next : Synced} (resumed : resumeSync api.db api.pendingOps r.copy pushes r.call answer = some next) :
    api.resume env r answer pushes =
      ({ api with db := next.db, pendingOps := next.pendingOps } : Api).proceed env r.id r.kind
        next.copy next.call := by
  unfold Api.resume
  split
  · rename_i same
    exact absurd same kind
  · rw [resumed]

theorem update_quiet {ops : Nat → List MonitorOp} (quiet : ∀ id, ops id = []) (n id : Nat) :
    Function.update ops n [] id = [] := by
  by_cases same : id = n
  · rw [same, Function.update_self]
  · rw [Function.update_of_ne same, quiet]

theorem request_others (sound : s.Sound) (mem : r ∈ s.api.requests.rows) :
    s.SoundBut r.id r.copy.id :=
  sound_others sound fun _ here same =>
    congrArg (fun q : Request => q.copy.id) (Table.key_injective here mem same)

/-- Beside a request under the lock nobody else works on a stored monitor. -/
theorem lone (sound : s.Sound) (mem : r ∈ s.api.requests.rows) (holds : r.holdsLock = true)
    {q : Request} (here : q ∈ s.api.requests.rows) (other : q.id ≠ r.id) :
    q.holdsLock = false ∧ q.call.onMonitor = false := by
  have free : q.holdsLock = false := by
    by_contra held
    exact other (congrArg Request.id (sound.alone q here r mem (by simpa using held) holds))
  exact ⟨free, sound.calls q here (by simpa [Request.holdsLock] using free)⟩

theorem endSync_offMonitor {copy : Task} {c : KumaCall} (next : endSync copy pushes = some c) :
    c.onMonitor = false := by
  rw [endSync_push next]
  rfl

theorem created_others (sound : s.Sound) (mem : r ∈ s.api.requests.rows) {row stored : Task}
    (here : s.api.db.tasks.get r.copy.id = some row) (bare : row.monitored = false)
    (key : stored.id = r.copy.id) (stores : stored.kumaMonitorId = some monitor.1)
    (real : monitor.1 ≠ 0) (fresh : s.monitors.get monitor.1 = none) :
    (⟨{ s.api with
      db := { s.api.db with tasks := s.api.db.tasks.put stored }
      pendingOps := Function.update s.api.pendingOps r.copy.id [] },
      s.monitors.put ⟨monitor.1, true, real⟩⟩ : Monitored).SoundBut r.id stored.id := by
  rw [key]
  refine but_put (request_others sound mem) key rfl (update_quiet sound.quiet r.copy.id)
    ?_ ?_ ?_ ?_
  · intro q qm _ works same
    have aims := sound.targets q qm works
    obtain ⟨t, there, -, sameId⟩ := aims.row
    rw [same, here] at there
    obtain rfl := Option.some.inj there
    rw [Task.monitored, sameId] at bare
    rw [← Task.monitored, aims.there] at bare
    cases bare
  · intro m old t tm _ _
    refine Table.mem_put_iff.mpr (Or.inr ⟨fun same => ?_, old⟩)
    rw [Table.get_eq_none_iff] at fresh
    exact fresh m old same
  · intro m there
    rcases Table.mem_put_iff.mp there with rfl | ⟨-, old⟩
    · exact Or.inl stores
    · obtain ⟨t, tm, owns⟩ := sound.owned m old
      refine Or.inr ⟨t, tm, fun same => ?_, owns⟩
      have mine : t = row := Table.eq_of_get here tm same
      rw [mine] at owns
      rw [monitored_of_id owns] at bare
      cases bare
  · intro _ u um _ same
    rw [stores] at same
    have there : u.monitored = true := by
      rw [Task.monitored, ← same]
      simpa using real
    obtain ⟨m, old, owns, -⟩ := (sound.fits u um).stored there
    rw [← same] at owns
    rw [Option.some.inj owns] at fresh
    exact Table.get_eq_none_iff.mp fresh m old rfl

theorem created_follows (sound : s.Sound) (mem : r ∈ s.api.requests.rows) (kind : r.kind ≠ .delete)
    (call : r.call = .create) {row : Task} (here : s.api.db.tasks.get r.copy.id = some row)
    (on : row.kumaEnabled = true) (bare : row.monitored = false) (enabled : row.enabled = true)
    (real : monitor.1 ≠ 0) (fresh : s.monitors.get monitor.1 = none) :
    (⟨s.api.resume env r (some monitor) pushes, createPushMonitor s.monitors monitor.1⟩ :
      Monitored).Sound := by
  have key : row.id = r.copy.id := Table.key_of_get here
  generalize new : ({ row with
    kumaMonitorId := some monitor.1, kumaPushToken := some monitor.2 } : Task) = stored
  have fields : stored.id = r.copy.id ∧ stored.kumaMonitorId = some monitor.1 ∧
      stored.kumaEnabled = true ∧ stored.enabled = true := by
    rw [← new]
    exact ⟨key, rfl, on, enabled⟩
  obtain ⟨storedKey, storedId, storedOn, storedEnabled⟩ := fields
  have resumed : resumeSync s.api.db s.api.pendingOps r.copy pushes r.call (some monitor) =
      some ⟨{ s.api.db with tasks := s.api.db.tasks.put stored },
        Function.update s.api.pendingOps r.copy.id [], stored, endSync stored pushes⟩ := by
    rw [call, ← new]
    simp only [resumeSync, writeMonitor, here]
    rfl
  have monitors : createPushMonitor s.monitors monitor.1 = s.monitors.put ⟨monitor.1, true, real⟩ :=
    dif_pos real
  rw [resume_eq kind resumed, monitors]
  have but := created_others sound mem here bare storedKey storedId real fresh
  refine proceed_follows but (fun locks q qm other => ?_) (fun c next _ => endSync_offMonitor next)
    (fun c _ delete => absurd delete kind) (fun c next works => ?_) ?_
  · exact (lone sound mem (by simpa [Request.holdsLock] using locks) qm other).1
  · rw [endSync_offMonitor next] at works
    cases works
  · intro t tm same
    obtain rfl : t = stored := Table.eq_of_mem_put tm same
    refine ⟨?_, ?_, ?_⟩
    · intro _ nothing
      rw [Task.monitored, storedId] at nothing
      exact absurd nothing (by simpa using real)
    · intro _
      refine ⟨⟨monitor.1, true, real⟩, Table.mem_put_iff.mpr (Or.inl rfl), storedId,
        fun _ => Or.inl ?_⟩
      exact storedEnabled.symm
    · intro off
      rw [storedOn] at off
      cases off

theorem target_monitor (sound : s.Sound) (mem : r ∈ s.api.requests.rows)
    (works : r.call.onMonitor = true) :
    ∃ t m, s.api.db.tasks.get r.copy.id = some t ∧ t.toTaskFields = r.copy.toTaskFields ∧
      m ∈ s.monitors.rows ∧ t.kumaMonitorId = some m.id ∧ r.copy.kumaMonitorId.getD 0 = m.id ∧
      ∀ u ∈ s.api.db.tasks.rows, u.id ≠ r.copy.id → u.kumaMonitorId ≠ some m.id := by
  have aims := sound.targets r mem works
  obtain ⟨t, here, fields, same⟩ := aims.row
  have tm := Table.mem_of_get here
  have there : t.monitored = true := by
    rw [Task.monitored, same]
    exact aims.there
  obtain ⟨m, own, stored, -⟩ := (sound.fits t tm).stored there
  refine ⟨t, m, here, fields, own, stored, by rw [← same, stored]; rfl, ?_⟩
  intro u um other equal
  have mine := sound.distinct t tm u um there (stored.trans equal.symm)
  exact other (mine ▸ Table.key_of_get here)

theorem setActive_of_mem {monitors : Table Monitor} {m : Monitor} (mem : m ∈ monitors.rows)
    (active : Bool) : setActive monitors m.id active = monitors.put { m with active := active } := by
  have found : monitors.get m.id = some m := Table.get_of_mem mem
  rw [setActive, found]

theorem answered_edit {monitors : Table Monitor} {m : Monitor} {copy : Task}
    (mem : m ∈ monitors.rows) (named : copy.kumaMonitorId.getD 0 = m.id) (op : MonitorOp)
    (rest : List MonitorOp) :
    ∃ m' ∈ (answered monitors copy monitor (.edit op rest)).rows, m'.id = m.id ∧
      (op = .active → m'.active = copy.enabled) ∧ (op = .interval → m' = m) ∧
      (∀ x ∈ monitors.rows, x.id ≠ m.id →
        x ∈ (answered monitors copy monitor (.edit op rest)).rows) ∧
      ∀ x ∈ (answered monitors copy monitor (.edit op rest)).rows, ∃ y ∈ monitors.rows, y.id = x.id := by
  cases op with
  | interval => exact ⟨m, mem, rfl, fun same => (by cases same), fun _ => rfl, fun x here _ => here,
      fun x here => ⟨x, here, rfl⟩⟩
  | active =>
    simp only [answered, named, setActive_of_mem mem]
    refine ⟨_, Table.mem_put_iff.mpr (Or.inl rfl), rfl, fun _ => rfl, fun same => (by cases same),
      ?_, ?_⟩
    · exact fun x here other => Table.mem_put_iff.mpr (Or.inr ⟨other, here⟩)
    · intro x here
      rcases Table.mem_put_iff.mp here with rfl | ⟨-, old⟩
      · exact ⟨m, mem, rfl⟩
      · exact ⟨x, old, rfl⟩

theorem resume_edit (db : Db) {ops : Nat → List MonitorOp} (quiet : ∀ id, ops id = [])
    (copy : Task) (pushes : Bool) (monitor : Nat × String) (op : MonitorOp)
    (rest : List MonitorOp) :
    ∃ ops' next,
      resumeSync db ops copy pushes (.edit op rest) (some monitor) = some ⟨db, ops', copy, next⟩ ∧
      (∀ id, ops' id = []) ∧
      (∀ c, next = some c → c.onMonitor = true → ∃ op rest, c = .edit op rest) ∧
      ∀ op' rest', rest = op' :: rest' → next = some (.edit op' rest') := by
  cases rest with
  | nil =>
    refine ⟨_, _, rfl, update_quiet quiet copy.id, ?_, fun op' rest' same => by cases same⟩
    intro c ends works
    rw [endSync_offMonitor ends] at works
    cases works
  | cons op' rest =>
    refine ⟨_, _, rfl, quiet, ?_, ?_⟩
    · intro c ends _
      exact ⟨_, _, (Option.some.inj ends).symm⟩
    · intro op'' rest'' same
      cases same
      rfl

theorem edited_follows (sound : s.Sound) (mem : r ∈ s.api.requests.rows) {op : MonitorOp}
    {rest : List MonitorOp} (call : r.call = .edit op rest) :
    (⟨s.api.resume env r (some monitor) pushes, answered s.monitors r.copy monitor r.call⟩ :
      Monitored).Sound := by
  have works : r.call.onMonitor = true := by
    rw [call]
    rfl
  have aims := sound.targets r mem works
  obtain ⟨kind, on⟩ := aims.edits op rest call
  have holds : r.holdsLock = true := by simp [Request.holdsLock, kind]
  obtain ⟨t, m, here, fields, own, stored, named, others⟩ := target_monitor sound mem works
  have tm := Table.mem_of_get here
  obtain ⟨m', own', sameId, marked, leaves, kept, ids⟩ :=
    @answered_edit monitor s.monitors m r.copy own named op rest
  rw [← call] at own' kept ids
  obtain ⟨ops, next, resumed, quiet, calls, goes⟩ :=
    resume_edit s.api.db sound.quiet r.copy pushes monitor op rest
  rw [← call] at resumed
  rw [resume_eq (by rw [kind]; simp) resumed]
  have but : (⟨{ s.api with pendingOps := ops }, answered s.monitors r.copy monitor r.call⟩ :
      Monitored).SoundBut r.id r.copy.id := by
    refine but_monitors (request_others sound mem) quiet ?_ ?_
    · intro x old u um other stores
      exact kept x old fun same => others u um other (stores.trans (congrArg some same))
    · intro x there
      obtain ⟨y, old, same⟩ := ids x there
      obtain ⟨u, um, stores⟩ := sound.owned y old
      exact ⟨u, um, stores.trans (congrArg some same)⟩
  rw [kind]
  refine proceed_update but (fun q qm other => (lone sound mem holds qm other).1)
    (fun c next works => ?_) ?_
  · obtain ⟨op', rest', rfl⟩ := calls c next works
    exact ⟨aims.row, aims.there, fun _ _ _ => ⟨rfl, on⟩, fun same => (by cases same)⟩
  · intro u um same
    obtain rfl : u = t := Table.eq_of_get here um same
    have enabledSame : u.enabled = r.copy.enabled := congrArg TaskFields.enabled fields
    have onSame : u.kumaEnabled = true := (congrArg TaskFields.kumaEnabled fields).trans on
    refine ⟨fun _ bare => ?_, fun _ => ⟨m', own', stored.trans (congrArg some sameId.symm), fun _ => ?_⟩,
      fun off _ => ?_⟩
    · rw [monitored_of_id stored] at bare
      cases bare
    · cases op with
      | active => exact Or.inl ((marked rfl).trans enabledSame.symm)
      | interval =>
        rw [leaves rfl]
        obtain ⟨first, old, stores, paused⟩ := (sound.fits u um).stored (monitored_of_id stored)
        obtain rfl : first = m :=
          Table.key_injective old own (Option.some.inj (stores.symm.trans stored))
        rcases paused onSame with active | ⟨op', rest', ⟨q, qm, -, qcall⟩, owes⟩
        · exact Or.inl active
        · -- the operation that owes the flag is this request's own, and comes next
          have mine : q.id = r.id := by
            by_contra other
            have idle := (lone sound mem holds qm other).2
            rw [qcall] at idle
            cases idle
          rw [Table.key_injective qm mem mine, call] at qcall
          cases qcall
          have later : MonitorOp.active ∈ rest := by simpa using owes
          obtain ⟨head, tail, rfl⟩ := List.exists_cons_of_ne_nil (List.ne_nil_of_mem later)
          right
          rw [goes head tail rfl]
          exact ⟨head, tail, ⟨_, Table.mem_put_iff.mpr (Or.inl rfl), same.symm, rfl⟩, later⟩
    · rw [onSame] at off
      cases off

theorem delete_answered (sound : s.Sound) (mem : r ∈ s.api.requests.rows)
    (holds : r.holdsLock = true) (call : r.call = .delete) :
    (∀ q ∈ s.api.requests.rows, q.id ≠ r.id → q.call.onMonitor = true →
      q.copy.id ≠ r.copy.id) ∧
    (∀ m ∈ s.monitors.rows, ∀ t ∈ s.api.db.tasks.rows, t.id ≠ r.copy.id →
      t.kumaMonitorId = some m.id → m ∈ (answered s.monitors r.copy monitor r.call).rows) ∧
    ∀ m ∈ (answered s.monitors r.copy monitor r.call).rows,
      ∃ t ∈ s.api.db.tasks.rows, t.id ≠ r.copy.id ∧ t.kumaMonitorId = some m.id := by
  obtain ⟨t, m, here, -, own, stored, named, others⟩ :=
    target_monitor sound mem (by rw [call]; rfl)
  have erasure : answered s.monitors r.copy monitor r.call = s.monitors.erase m.id := by
    rw [call, answered, named]
  rw [erasure]
  refine ⟨?_, ?_, ?_⟩
  · intro q qm other busy
    rw [(lone sound mem holds qm other).2] at busy
    cases busy
  · intro x old u um other stores
    refine Table.mem_erase_iff.mpr ⟨old, fun same => ?_⟩
    exact others u um other (stores.trans (congrArg some same))
  · intro x there
    obtain ⟨old, other⟩ := Table.mem_erase_iff.mp there
    obtain ⟨u, um, stores⟩ := sound.owned x old
    refine ⟨u, um, fun same => ?_, stores⟩
    rw [Table.eq_of_get here um same, stored] at stores
    exact other (Option.some.inj stores).symm

theorem dropped_follows (sound : s.Sound) (mem : r ∈ s.api.requests.rows) (kind : r.kind = .update)
    (call : r.call = .delete) :
    (⟨s.api.resume env r (some monitor) pushes, answered s.monitors r.copy monitor r.call⟩ :
      Monitored).Sound := by
  have aims := sound.targets r mem (by rw [call]; rfl)
  have off := aims.drops call kind
  have holds : r.holdsLock = true := by simp [Request.holdsLock, kind]
  obtain ⟨t, here, fields, -⟩ := aims.row
  have key : t.id = r.copy.id := Table.key_of_get here
  obtain ⟨aimed, kept, owned⟩ := delete_answered sound mem holds call
  generalize new : ({ t with kumaMonitorId := none, kumaPushToken := none } : Task) = bare
  have bareKey : bare.id = r.copy.id ∧ bare.kumaMonitorId = none ∧ bare.kumaEnabled = false := by
    rw [← new]
    exact ⟨key, rfl, (congrArg TaskFields.kumaEnabled fields).trans off⟩
  obtain ⟨bareKey, bareId, bareOff⟩ := bareKey
  have unmonitored : bare.monitored = false := by simp [Task.monitored, bareId]
  have resumed : resumeSync s.api.db s.api.pendingOps r.copy pushes r.call (some monitor) =
      some ⟨{ s.api.db with tasks := s.api.db.tasks.put bare },
        Function.update s.api.pendingOps r.copy.id [], bare, endSync bare pushes⟩ := by
    rw [call, ← new]
    simp only [resumeSync, writeMonitor, here]
    rfl
  rw [resume_eq (by rw [kind]; simp) resumed]
  have but : (⟨{ s.api with
      db := { s.api.db with tasks := s.api.db.tasks.put bare }
      pendingOps := Function.update s.api.pendingOps r.copy.id [] },
      answered s.monitors r.copy monitor r.call⟩ : Monitored).SoundBut r.id bare.id := by
    rw [bareKey]
    refine but_put (request_others sound mem) bareKey rfl (update_quiet sound.quiet r.copy.id)
      aimed kept (fun m there => Or.inr (owned m there)) fun there => ?_
    rw [unmonitored] at there
    cases there
  rw [kind]
  refine proceed_update but (fun q qm other => (lone sound mem holds qm other).1)
    (fun c next busy => ?_) ?_
  · rw [endSync_offMonitor next] at busy
    cases busy
  · intro u um same
    obtain rfl : u = bare := Table.eq_of_mem_put um same
    refine ⟨fun on _ => ?_, fun there => ?_, fun _ there => ?_⟩
    · rw [bareOff] at on
      cases on
    · rw [unmonitored] at there
      cases there
    · rw [unmonitored] at there
      cases there

theorem purged_follows (sound : s.Sound) (mem : r ∈ s.api.requests.rows) (kind : r.kind = .delete) :
    (⟨s.api.resume env r (some monitor) pushes, answered s.monitors r.copy monitor r.call⟩ :
      Monitored).Sound := by
  have call := sound.deletes r mem kind
  have holds : r.holdsLock = true := by simp [Request.holdsLock, kind]
  have ends : s.api.resume env r (some monitor) pushes =
      ({ s.api with requests := s.api.requests.erase r.id } : Api).purge r.copy.id := by
    unfold Api.resume
    rw [kind]
  rw [ends]
  obtain ⟨aimed, kept, owned⟩ := delete_answered sound mem holds call
  exact purge_follows (request_others sound mem) (s.api.requests.erase r.id)
    (fun q => Table.mem_erase_iff) aimed kept owned

theorem pushed_follows (sound : s.Sound) (mem : r ∈ s.api.requests.rows) (kind : r.kind ≠ .delete)
    (call : r.call = .push) :
    (⟨s.api.resume env r (some monitor) pushes, answered s.monitors r.copy monitor r.call⟩ :
      Monitored).Sound := by
  have resumed : resumeSync s.api.db s.api.pendingOps r.copy pushes r.call (some monitor) =
      some ⟨s.api.db, s.api.pendingOps, r.copy, none⟩ := by
    rw [call]
    rfl
  have unchanged : answered s.monitors r.copy monitor r.call = s.monitors := by
    rw [call, answered]
  rw [resume_eq kind resumed, unchanged]
  refine proceed_follows (request_others sound mem) (fun locks q qm other => ?_)
    (fun c next => by cases next) (fun c next => by cases next) (fun c next => by cases next) ?_
  · exact (lone sound mem (by simpa [Request.holdsLock] using locks) qm other).1
  · intro t tm _
    refine rowFits_mono (sound.fits t tm) (fun m own _ => own) fun q qm _ busy => ?_
    refine Table.mem_erase_iff.mpr ⟨qm, fun same => busy ?_⟩
    rw [Table.key_injective qm mem same, call]

end Answers

section Runs
variable {env : ApiEnv} {s t : Monitored} {event : ApiEvent}

theorem row_before {db db' : Db} (same : SameMonitors db db') {t' : Task}
    (mem : t' ∈ db'.tasks.rows) :
    ∃ t ∈ db.tasks.rows, t.id = t'.id ∧ t.toTaskFields = t'.toTaskFields ∧
      t.kumaMonitorId = t'.kumaMonitorId := by
  have columns := same t'.id
  have here : db'.tasks.get t'.id = some t' := Table.get_of_mem mem
  rw [here, Option.map_some] at columns
  obtain ⟨t, old, equal⟩ := Option.map_eq_some_iff.mp columns.symm
  exact ⟨t, Table.mem_of_get old, Table.key_of_get old, congrArg Prod.fst equal,
    congrArg Prod.snd equal⟩

theorem rowFits_columns {monitors : Table Monitor} {requests : Table Request} {t t' : Task}
    (fits : RowFits monitors requests t) (id : t.id = t'.id) (fields : t.toTaskFields = t'.toTaskFields)
    (monitor : t.kumaMonitorId = t'.kumaMonitorId) : RowFits monitors requests t' := by
  have on : t.kumaEnabled = t'.kumaEnabled := congrArg TaskFields.kumaEnabled fields
  have enabled : t.enabled = t'.enabled := congrArg TaskFields.enabled fields
  have there : t.monitored = t'.monitored := by rw [Task.monitored, Task.monitored, monitor]
  obtain ⟨wanted, stored, unwanted⟩ := fits
  rw [on, there, id] at wanted unwanted
  rw [there, monitor, on, enabled, id] at stored
  exact ⟨wanted, stored, unwanted⟩

theorem elsewhere_follows (sound : s.Sound) {db : Db} (same : SameMonitors s.api.db db) :
    ({ s with api := { s.api with db := db } } : Monitored).Sound := by
  have back : SameMonitors db s.api.db := fun id => (same id).symm
  refine ⟨sound.calls, sound.deletes, sound.alone, sound.quiet, ?_, ?_, ?_, ?_⟩
  · intro r mem works
    have aims := sound.targets r mem works
    obtain ⟨t, here, fields, monitor⟩ := aims.row
    obtain ⟨t', new, id, fields', monitor'⟩ := row_before back (Table.mem_of_get here)
    have key : t'.id = r.copy.id := id.trans (Table.key_of_get here)
    refine { aims with row := ⟨t', ?_, fields'.trans fields, monitor'.trans monitor⟩ }
    rw [← key]
    exact Table.get_of_mem new
  · intro t' mem
    obtain ⟨t, old, id, fields, monitor⟩ := row_before same mem
    exact rowFits_columns (sound.fits t old) id fields monitor
  · intro m mem
    obtain ⟨t, old, stored⟩ := sound.owned m mem
    obtain ⟨t', new, -, -, monitor⟩ := row_before back old
    exact ⟨t', new, monitor.trans stored⟩
  · intro t' mt u' mu there equal
    obtain ⟨t, tOld, tid, -, tmonitor⟩ := row_before same mt
    obtain ⟨u, uOld, uid, -, umonitor⟩ := row_before same mu
    have was : t.monitored = true := by
      rw [Task.monitored, tmonitor]
      exact there
    have one := sound.distinct t tOld u uOld was (tmonitor.trans (equal.trans umonitor.symm))
    exact Table.key_injective mt mu (tid.symm.trans ((congrArg Task.id one).trans uid))

theorem step_follows (configured : env.kuma = true) (sound : s.Sound)
    (step : MonitorStepBack env s event t) : t.Sound := by
  obtain ⟨⟨moved, kuma⟩, back⟩ := step
  obtain ⟨api, monitors⟩ := t
  cases event with
  | create data now pushes =>
    obtain rfl := moved
    obtain rfl := kuma
    exact create_follows sound configured data now pushes
  | update task data now pushes =>
    obtain ⟨unlocked, rfl⟩ := moved
    obtain rfl := kuma
    exact update_follows sound configured unlocked task data now pushes
  | delete task =>
    obtain ⟨unlocked, rfl⟩ := moved
    obtain rfl := kuma
    exact delete_follows sound configured unlocked task
  | elsewhere db =>
    obtain ⟨-, rfl⟩ := moved
    obtain ⟨same, rfl⟩ := kuma
    exact elsewhere_follows sound same
  | resume id answer pushes =>
    obtain ⟨r, stored, rfl⟩ := moved
    obtain ⟨r', monitor, stored', rfl, fresh, rfl⟩ := kuma
    obtain rfl := Option.some.inj (stored.symm.trans stored')
    have mem := Table.mem_of_get stored
    by_cases delete : r.kind = .delete
    · exact purged_follows sound mem delete
    · cases call : r.call with
      | create =>
        obtain ⟨row, here, on, bare, enabled⟩ := back r stored call
        obtain ⟨real, new⟩ := fresh call
        exact created_follows sound mem delete call here on bare enabled real new
      | edit op rest =>
        rw [← call]
        exact edited_follows sound mem call
      | delete =>
        have kind : r.kind = .update := by
          cases kind : r.kind with
          | create =>
            have idle := sound.calls r mem kind
            rw [call] at idle
            cases idle
          | update => rfl
          | delete => exact absurd kind delete
        rw [← call]
        exact dropped_follows sound mem kind call
      | push =>
        rw [← call]
        exact pushed_follows sound mem delete call

end Runs

/-- In every run in which each new monitor comes back to a task that still wants one, has none
    and is enabled: whenever no request is in flight, the monitors at Kuma are those of the
    tasks that want one, one for each, and active exactly when the task is enabled. -/
theorem monitors_follow_tasks {env : ApiEnv} {db : Db} {monitors : Table Monitor}
    {events : List ApiEvent} {s : Monitored} (configured : env.kuma = true)
    (start : (⟨Api.start env db, monitors⟩ : Monitored).Follows)
    (trace : Trace (MonitorStepBack env) ⟨Api.start env db, monitors⟩ events s)
    (idle : s.api.requests.rows = []) : s.Follows :=
  sound_follows (trace_invariant Monitored.Sound (fun _ _ _ => step_follows configured) trace
    (follows_sound start)) idle

theorem resumes_monitor {env : ApiEnv} {s : Monitored} (r : Request) (monitor : Nat × String)
    (stored : s.api.requests.get r.id = some r)
    (fresh : r.call = .create → monitor.1 ≠ 0 ∧ s.monitors.get monitor.1 = none) :
    MonitorStep env s (.resume r.id (some monitor) false)
      ⟨s.api.resume env r (some monitor) false, answered s.monitors r.copy monitor r.call⟩ :=
  ⟨resumes r (some monitor) false stored, r, monitor, stored, rfl, fresh, rfl⟩

/- The service with its source and no task, and Kuma without a monitor. -/

def Sample.unwatched : Monitored := ⟨Api.start apiEnv nas, .empty⟩

def Sample.createMail (enabled : Bool) : Monitored :=
  { unwatched with api := unwatched.api.create apiEnv { mail with enabled := enabled } 0 false }

def Sample.creating (enabled : Bool) : Request :=
  { id := 1, kind := .create
    copy := { mail with id := 1, enabled := enabled, createdAt := 0, updatedAt := 0 }
    call := .create }

def Sample.respond (s : Monitored) (r : Request) (id : Nat) : Monitored :=
  ⟨s.api.resume apiEnv r (some (id, "token")) false, answered s.monitors r.copy (id, "token") r.call⟩

theorem unwatched_follows : Sample.unwatched.Follows := by
  have nothing : Sample.unwatched.monitors.rows = [] ∧ Sample.unwatched.api.db.tasks.rows = [] :=
    ⟨rfl, rfl⟩
  constructor <;> simp [nothing]

theorem creating_stored (enabled : Bool) :
    (Sample.createMail enabled).api.requests.get 1 = some (Sample.creating enabled) := by
  cases enabled <;> decide +kernel

theorem created_monitor_follows :
    (Sample.respond (Sample.createMail true) (Sample.creating true) 7).Follows ∧
    (Sample.respond (Sample.createMail true) (Sample.creating true) 7).monitors.rows.map Monitor.id =
      [7] := by
  have first : MonitorStepBack Sample.apiEnv Sample.unwatched
      (.create { Sample.mail with enabled := true } 0 false) (Sample.createMail true) :=
    ⟨⟨rfl, rfl⟩, trivial⟩
  have second : MonitorStepBack Sample.apiEnv (Sample.createMail true)
      (.resume 1 (some (7, "token")) false)
      (Sample.respond (Sample.createMail true) (Sample.creating true) 7) := by
    refine ⟨resumes_monitor (Sample.creating true) (7, "token") (creating_stored true)
      fun _ => ⟨by decide, by decide +kernel⟩, ?_⟩
    intro r stored _
    rw [creating_stored true] at stored
    obtain rfl := Option.some.inj stored
    exact ⟨(Sample.creating true).copy, by decide +kernel, rfl, rfl, rfl⟩
  exact ⟨monitors_follow_tasks rfl unwatched_follows (trace_cons first (trace_single second))
    (by decide +kernel), by decide +kernel⟩

/- An edit of the task while its create awaits the monitor. -/

def Sample.editedMail : TaskFields := { mail with description := "letters" }

def Sample.editMail : Monitored :=
  { createMail true with api := (createMail true).api.update apiEnv 1 editedMail 10 false }

def Sample.editing : Request :=
  { id := 2, kind := .update
    copy := { editedMail with id := 1, createdAt := 0, updatedAt := 10 }, call := .create }

def Sample.strayed : Monitored := respond (respond editMail (creating true) 7) editing 8

/-- A task that is created disabled gets an active monitor; and one that is edited while its
    create is on its way gets a second monitor, which nobody stores the first of. -/
theorem created_monitors_stray :
    (Trace (MonitorStep Sample.apiEnv) Sample.unwatched
        [.create { Sample.mail with enabled := false } 0 false, .resume 1 (some (7, "token")) false]
        (Sample.respond (Sample.createMail false) (Sample.creating false) 7) ∧
      (Sample.respond (Sample.createMail false) (Sample.creating false) 7).api.requests.rows = [] ∧
      ¬ (Sample.respond (Sample.createMail false) (Sample.creating false) 7).Follows) ∧
    (Trace (MonitorStep Sample.apiEnv) Sample.unwatched
        [.create { Sample.mail with enabled := true } 0 false, .update 1 Sample.editedMail 10 false,
          .resume 1 (some (7, "token")) false, .resume 2 (some (8, "token")) false] Sample.strayed ∧
      Sample.strayed.api.requests.rows = [] ∧ ¬ Sample.strayed.Follows) := by
  have created : ∀ enabled, MonitorStep Sample.apiEnv Sample.unwatched
      (.create { Sample.mail with enabled := enabled } 0 false) (Sample.createMail enabled) :=
    fun _ => ⟨rfl, rfl⟩
  refine ⟨⟨?_, by decide +kernel, ?_⟩, ?_, by decide +kernel, ?_⟩
  · exact trace_cons (created false) (trace_single (resumes_monitor (Sample.creating false) (7, "token")
      (creating_stored false) fun _ => ⟨by decide, by decide +kernel⟩))
  · intro follows
    have off : ∃ t ∈ (Sample.respond (Sample.createMail false) (Sample.creating false) 7).api.db.tasks.rows,
        t.kumaEnabled = true ∧ t.enabled = false := by decide +kernel
    have runs : ∀ m ∈ (Sample.respond (Sample.createMail false) (Sample.creating false) 7).monitors.rows,
        m.active = true := by decide +kernel
    obtain ⟨t, tm, on, disabled⟩ := off
    obtain ⟨m, mem, -, paused⟩ := follows.stored t tm on
    rw [runs m mem, disabled] at paused
    cases paused
  · have edited : MonitorStep Sample.apiEnv (Sample.createMail true) (.update 1 Sample.editedMail 10 false)
        Sample.editMail := ⟨⟨by decide +kernel, rfl⟩, rfl⟩
    exact trace_cons (created true) (trace_cons edited (trace_cons
      (resumes_monitor (Sample.creating true) (7, "token") (by decide +kernel)
        fun _ => ⟨by decide, by decide +kernel⟩)
      (trace_single (resumes_monitor Sample.editing (8, "token") (by decide +kernel)
        fun _ => ⟨by decide, by decide +kernel⟩))))
  · intro follows
    have stored : Sample.strayed.api.db.tasks.rows.map Task.kumaMonitorId = [some 8] := by decide +kernel
    have leaves : ∃ m ∈ Sample.strayed.monitors.rows, m.id = 7 := by decide +kernel
    obtain ⟨m, mem, id⟩ := leaves
    obtain ⟨t, tm, -, owns⟩ := follows.owned m mem
    have listed : t.kumaMonitorId ∈ Sample.strayed.api.db.tasks.rows.map Task.kumaMonitorId :=
      List.mem_map_of_mem tm
    rw [stored, owns, id] at listed
    simp at listed

end Pullbackup
