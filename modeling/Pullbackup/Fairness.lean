import Mathlib.Data.List.Pairwise
import Pullbackup.Admission
import Pullbackup.Library.Greedy

/- A dispatcher pass is a greedy pass over the eligible obligations: its five
   accumulators are the scopes of what runs and of what waits. -/
namespace Pullbackup
open KeyedTable

structure Scopes where
  task : Option Nat
  source : Option Nat
  dest : Option DestKey
  deriving DecidableEq, Repr

def Scopes.sameTask (j i : Scopes) : Bool := j.task.any fun task => i.task = some task
def Scopes.sameSource (j i : Scopes) : Bool := j.source.any fun source => i.source = some source
def Scopes.conflicting (j i : Scopes) : Bool := j.dest.any fun key => i.dest.any (conflicts key)

def passRules (limit : Nat) : Greedy.Rules Scopes where
  limit := limit
  busy j i := j.sameTask i || j.sameSource i || j.conflicting i
  held j i := j.sameSource i || j.conflicting i

/-- A run of a task that is gone holds no scope, but still a place. -/
def runScopes (probe : Probe) (db : Db) (run : Run) : Scopes :=
  match db.tasks.get run.taskId with
  | none => ⟨none, none, none⟩
  | some task => ⟨some task.id, some task.sourceId, probe.destinationKey task⟩

def activeScopes (probe : Probe) (db : Db) : List Scopes :=
  (db.runs.rows.filter fun r => r.state.active).map (runScopes probe db)

def passKey (probe : Probe) (task : Task) (source : Source) : Option DestKey :=
  if probe.validateDestination task source then probe.destinationKey task else none

/-- An obligation that may start now if nothing stands in its way. -/
structure Eligible (db : Db) (now : Int) (row : TaskDue) (task : Task) (source : Source) :
    Prop where
  found : db.tasks.get row.taskId = some task
  enabled : task.enabled = true
  stored : db.sources.get task.sourceId = some source
  ready : row.Ready now

def scopesOf (probe : Probe) (task : Task) (source : Source) : Scopes :=
  ⟨some task.id, some task.sourceId, passKey probe task source⟩

def TaskDue.ripe (row : TaskDue) (now : Int) : Bool :=
  match row.status with
  | .due => true
  | .retry => !row.retryAt.any fun instant => now < instant
  | _ => false

/-- What an obligation asks of the pass; none when it is not eligible. -/
def request (probe : Probe) (db : Db) (now : Int) (row : TaskDue) : Option Scopes :=
  match db.tasks.get row.taskId with
  | none => none
  | some task =>
    match db.sources.get task.sourceId with
    | none => none
    | some source => if task.enabled && row.ripe now then some (scopesOf probe task source) else none

theorem ripe_iff {row : TaskDue} {now : Int} : row.ripe now = true ↔ row.Ready now := by
  unfold TaskDue.ripe TaskDue.Ready
  cases status : row.status <;> simp
  cases row.retryAt <;> simp

theorem request_some {probe : Probe} {db : Db} {now : Int} {row : TaskDue} {job : Scopes} :
    request probe db now row = some job ↔
      ∃ task source, Eligible db now row task source ∧ job = scopesOf probe task source := by
  unfold request
  constructor
  · intro asks
    split at asks
    · cases asks
    rename_i task found
    split at asks
    · cases asks
    rename_i source stored
    split at asks
    · rename_i both
      simp only [Bool.and_eq_true] at both
      obtain rfl := Option.some.inj asks
      exact ⟨task, source, ⟨found, both.1, stored, ripe_iff.mp both.2⟩, rfl⟩
    · cases asks
  · rintro ⟨task, source, eligible, rfl⟩
    simp [eligible.found, eligible.stored, eligible.enabled, ripe_iff.mpr eligible.ready]

/-- The accumulators of the pass are those of the greedy pass s. -/
structure Pass.Simulates (db : Db) (p : Pass) (s : Greedy.State Scopes) : Prop where
  tasks : p.db.tasks = db.tasks
  sources : p.db.sources = db.sources
  activeTasks : p.activeTasks = s.running.filterMap Scopes.task
  activeSources : p.activeSources = s.running.filterMap Scopes.source
  dests : p.dests = s.running.filterMap Scopes.dest
  count : p.count = s.running.length
  claimedSources : p.claimedSources = s.waiting.filterMap Scopes.source
  claimedDests : p.claimedDests = s.waiting.filterMap Scopes.dest
  runs : ∃ news, p.db.runs.rows = db.runs.rows ++ news ∧ p.started = news.map Run.id ∧
    (∀ run ∈ news, run.state = .pending) ∧
    news.map (fun run => some run.taskId) = s.started.map Scopes.task

section Simulation
variable {limit : Nat} {probe : Probe} {now : Int} {db : Db} {p : Pass} {s : Greedy.State Scopes}
  {row : TaskDue}

theorem observe_all (probe : Probe) (runs : List Run) (p : Pass) :
    runs.foldl (Pass.observe probe) p =
      { p with
        activeTasks := p.activeTasks ++ (runs.map (runScopes probe p.db)).filterMap Scopes.task
        activeSources := p.activeSources ++ (runs.map (runScopes probe p.db)).filterMap Scopes.source
        dests := p.dests ++ (runs.map (runScopes probe p.db)).filterMap Scopes.dest } := by
  induction runs generalizing p with
  | nil => simp
  | cons run runs ih =>
    rw [List.foldl_cons, ih]
    unfold Pass.observe runScopes
    cases found : p.db.tasks.get run.taskId with
    | none => simp [found]
    | some task =>
      cases key : probe.destinationKey task <;> simp [found, key]

theorem begin_db (probe : Probe) (db : Db) (stamps : List Stamp) :
    (Pass.begin probe db stamps).db = db := by
  unfold Pass.begin
  dsimp only
  rw [observe_all]

theorem begin_simulates (probe : Probe) (db : Db) (stamps : List Stamp) :
    (Pass.begin probe db stamps).Simulates db (Greedy.State.begin (activeScopes probe db)) := by
  unfold Pass.begin activeScopes
  dsimp only
  rw [observe_all]
  refine ⟨rfl, rfl, ?_, ?_, ?_, ?_, rfl, rfl, [], ?_⟩
  all_goals simp [Greedy.State.begin, Greedy.State.running]

theorem request_congr {db' : Db} (tasks : db'.tasks = db.tasks) (sources : db'.sources = db.sources) :
    request probe db' now row = request probe db now row := by
  unfold request
  rw [tasks, sources]

theorem free_reason_iff {task : Task} {key : Option DestKey} :
    p.reason limit task key = none ↔
      task.id ∉ p.activeTasks ∧
      (task.sourceId ∉ p.activeSources ∧ task.sourceId ∉ p.claimedSources) ∧
      (∀ k ∈ key, ∀ held ∈ p.dests ++ p.claimedDests, conflicts k held = false) ∧
      p.count < limit := by
  unfold Pass.reason
  by_cases busy : p.activeTasks.contains task.id = true
  · rw [if_pos busy]
    simp only [List.contains_iff_mem] at busy
    simp [busy]
  rw [if_neg busy]
  simp only [List.contains_iff_mem] at busy
  by_cases taken : (p.activeSources.contains task.sourceId ||
      p.claimedSources.contains task.sourceId) = true
  · rw [if_pos taken]
    simp only [Bool.or_eq_true, List.contains_iff_mem] at taken
    rcases taken with active | claimed
    · simp [active]
    · simp [claimed]
  rw [if_neg taken]
  simp only [Bool.or_eq_true, List.contains_iff_mem, not_or] at taken
  by_cases clash : key.any (fun k => (p.dests ++ p.claimedDests).any (conflicts k)) = true
  · rw [if_pos clash]
    simp only [Option.any_eq_true, List.any_eq_true] at clash
    obtain ⟨k, named, held, mem, conflict⟩ := clash
    constructor
    · intro absurd
      cases absurd
    · rintro ⟨-, -, apart, -⟩
      rw [apart k named held mem] at conflict
      cases conflict
  rw [if_neg clash]
  simp only [Option.any_eq_true, List.any_eq_true, not_exists, not_and, Bool.not_eq_true] at clash
  by_cases full : limit ≤ p.count
  · simp [full]
  · simp only [full, if_false, true_iff]
    exact ⟨busy, taken, clash, not_le.mp full⟩

/-- The admission questions of the code are those of the greedy pass. -/
theorem reason_none_iff (limit : Nat) (sim : p.Simulates db s) (task : Task) (key : Option DestKey) :
    p.reason limit task key = none ↔
      (passRules limit).blocked s ⟨some task.id, some task.sourceId, key⟩ = false := by
  rw [free_reason_iff, Greedy.Rules.free_iff, sim.activeTasks, sim.activeSources,
    sim.claimedSources, sim.dests, sim.claimedDests, sim.count]
  simp only [passRules, Scopes.sameTask, Scopes.sameSource, Scopes.conflicting, Option.any_some,
    Bool.or_eq_false_iff, decide_eq_false_iff_not, Option.any_eq_false, List.mem_filterMap,
    List.mem_append]
  constructor
  · rintro ⟨task, ⟨source, claimed⟩, apart, room⟩
    refine ⟨fun i mem => ⟨⟨fun same => task ⟨i, mem, same⟩, fun same => source ⟨i, mem, same⟩⟩, ?_⟩,
      fun i mem => ⟨fun same => claimed ⟨i, mem, same⟩, ?_⟩, room⟩
    · exact fun k named held here => apart k named held (Or.inl ⟨i, mem, here⟩)
    · exact fun k named held here => apart k named held (Or.inr ⟨i, mem, here⟩)
  · rintro ⟨running, waiting, room⟩
    refine ⟨fun ⟨i, mem, same⟩ => (running i mem).1.1 same,
      ⟨fun ⟨i, mem, same⟩ => (running i mem).1.2 same,
        fun ⟨i, mem, same⟩ => (waiting i mem).1 same⟩, ?_, room⟩
    rintro k named held (⟨i, mem, here⟩ | ⟨i, mem, here⟩)
    · exact (running i mem).2 k named held here
    · exact (waiting i mem).2 k named held here

theorem row_ineligible (limit : Nat) (none : request probe p.db now row = none) :
    ∃ due, Pass.row limit probe now p row = { p with db := { p.db with taskDue := due } } := by
  unfold Pass.row
  split
  · exact ⟨_, rfl⟩
  rename_i current
  split
  · exact ⟨_, rfl⟩
  rename_i undone
  split
  · exact ⟨_, rfl⟩
  rename_i ripe
  split
  · exact ⟨_, rfl⟩
  rename_i task found
  split
  · exact ⟨_, rfl⟩
  rename_i source stored
  exfalso
  have asks : Eligible p.db now row task source := by
    refine ⟨found, ?_, stored, ?_⟩
    · by_contra disabled
      refine current ⟨fun same => undone (Or.inl same), ?_⟩
      simpa [found] using disabled
    · refine ripe_iff.mp ?_
      unfold TaskDue.ripe
      cases status : row.status <;> simp [status] at undone ripe ⊢
      exact ripe
  rw [request_some.mpr ⟨task, source, asks, rfl⟩] at none
  cases none

theorem row_eligible (limit : Nat) {task : Task} {source : Source}
    (eligible : Eligible p.db now row task source) :
    Pass.row limit probe now p row =
      match p.reason limit task (passKey probe task source) with
      | some reason => p.wait row task (passKey probe task source) reason now
      | none => p.launch row task (passKey probe task source) now := by
  have current : ¬ (row.status ≠ .dispatched ∧
      (p.db.tasks.get row.taskId).any (fun owner => !owner.enabled) = true) := by
    simp [eligible.found, eligible.enabled]
  have undone : ¬ (row.status = .dispatched ∨ row.status = .exhausted ∨ row.status = .blocked) := by
    rcases eligible.ready with due | ⟨retry, -⟩
    · simp [due]
    · simp [retry]
  have ripe : ¬ (row.status = .retry ∧ row.retryAt.any (fun moment => now < moment) = true) := by
    rcases eligible.ready with due | ⟨-, passed⟩
    · simp [due]
    · rintro ⟨-, later⟩
      simp only [Option.any_eq_true, decide_eq_true_eq] at later
      obtain ⟨instant, here, later⟩ := later
      exact absurd (passed instant here) (not_le.mpr later)
  unfold Pass.row
  rw [if_neg current, if_neg undone, if_neg ripe, eligible.found]
  dsimp only
  rw [eligible.stored]
  rfl

theorem wait_simulates (sim : p.Simulates db s) (task : Task) (key : Option DestKey)
    (reason : WaitReason) :
    (p.wait row task key reason now).Simulates db
      { s with waiting := s.waiting ++ [⟨some task.id, some task.sourceId, key⟩] } := by
  have frame : (p.wait row task key reason now).db.tasks = p.db.tasks ∧
      (p.wait row task key reason now).db.sources = p.db.sources ∧
      (p.wait row task key reason now).db.runs = p.db.runs := by
    rcases wait_db p row task key reason now with same | written
    · rw [same]
      exact ⟨rfl, rfl, rfl⟩
    · rw [written]
      exact ⟨rfl, rfl, rfl⟩
  obtain ⟨news, rows, started, pending, owners⟩ := sim.runs
  refine ⟨frame.1.trans sim.tasks, frame.2.1.trans sim.sources, sim.activeTasks,
    sim.activeSources, sim.dests, sim.count, ?_, ?_, news, ?_, started, pending, owners⟩
  · simp [Pass.wait, sim.claimedSources]
  · cases key <;> simp [Pass.wait, sim.claimedDests]
  · rw [frame.2.2]
    exact rows

theorem launch_simulates (sim : p.Simulates db s) (task : Task) (key : Option DestKey) :
    (p.launch row task key now).Simulates db
      { s with started := s.started ++ [⟨some task.id, some task.sourceId, key⟩] } := by
  obtain ⟨news, rows, started, pending, owners⟩ := sim.runs
  have added : (p.launch row task key now).db.runs.rows = p.db.runs.rows ++
      [pendingRun (nextId p.db.runs) task.id (p.stamps.headD ⟨now, now⟩)] := by
    rw [launch_db]
    exact putRow_of_new fun run mem => newRun_fresh (get_nextId p.db.runs) run mem
  refine ⟨sim.tasks, sim.sources, ?_, ?_, ?_, ?_, sim.claimedSources, sim.claimedDests,
    news ++ [pendingRun (nextId p.db.runs) task.id (p.stamps.headD ⟨now, now⟩)], ?_, ?_, ?_, ?_⟩
  · simp [Pass.launch, sim.activeTasks, Greedy.State.running]
  · simp [Pass.launch, sim.activeSources, Greedy.State.running]
  · cases key <;> simp [Pass.launch, sim.dests, Greedy.State.running]
  · simp only [Pass.launch, sim.count, Greedy.State.running, List.length_append,
      List.length_singleton]
    omega
  · rw [added, rows, List.append_assoc]
  · simp [Pass.launch, newPendingRun, started]
  · intro run mem
    rcases List.mem_append.mp mem with old | new
    · exact pending run old
    · rw [List.mem_singleton.mp new]
      rfl
  · simp [owners, pendingRun]

/-- The greedy step of a row: none for a row that is not eligible. -/
theorem row_simulates (limit : Nat) (probe : Probe) (now : Int) (sim : p.Simulates db s) (row : TaskDue) :
    (Pass.row limit probe now p row).Simulates db
      ((passRules limit).pass s (request probe db now row).toList) := by
  rw [← request_congr sim.tasks sim.sources]
  cases asks : request probe p.db now row with
  | none =>
    obtain ⟨due, same⟩ := row_ineligible limit asks
    rw [same]
    exact ⟨sim.tasks, sim.sources, sim.activeTasks, sim.activeSources, sim.dests, sim.count,
      sim.claimedSources, sim.claimedDests, sim.runs⟩
  | some job =>
    obtain ⟨task, source, eligible, rfl⟩ := request_some.mp asks
    rw [row_eligible limit eligible]
    have same : p.reason limit task (passKey probe task source) = none ↔
        (passRules limit).blocked s (scopesOf probe task source) = false :=
      reason_none_iff limit sim task (passKey probe task source)
    show Pass.Simulates db _ ((passRules limit).step s (scopesOf probe task source))
    cases reason : p.reason limit task (passKey probe task source) with
    | none =>
      rw [Greedy.Rules.step_free (same.mp reason)]
      exact launch_simulates sim task _
    | some reason' =>
      have blocked : (passRules limit).blocked s (scopesOf probe task source) = true := by
        by_contra free
        rw [same.mpr (by simpa using free)] at reason
        cases reason
      rw [Greedy.Rules.step_blocked blocked]
      exact wait_simulates sim task _ reason'

theorem rows_simulate (limit : Nat) (probe : Probe) (now : Int) (sim : p.Simulates db s) (rows : List TaskDue) :
    (rows.foldl (Pass.row limit probe now) p).Simulates db
      ((passRules limit).pass s (rows.filterMap (request probe db now))) := by
  induction rows generalizing p s with
  | nil => exact sim
  | cons row rows ih =>
    have rest := ih (row_simulates limit probe now sim row)
    rw [← Greedy.Rules.pass_append] at rest
    cases asks : request probe db now row with
    | none => simpa [asks] using rest
    | some job => simpa [asks] using rest

end Simulation
def Pass.after (limit : Nat) (probe : Probe) (db : Db) (now : Int) (stamps : List Stamp)
    (rows : List TaskDue) : Pass :=
  rows.foldl (Pass.row limit probe now) (Pass.begin probe db stamps)

def greedyAfter (limit : Nat) (probe : Probe) (db : Db) (now : Int) (rows : List TaskDue) :
    Greedy.State Scopes :=
  (passRules limit).pass (Greedy.State.begin (activeScopes probe db))
    (rows.filterMap (request probe db now))

theorem dispatchDue_after (limit : Nat) (probe : Probe) (db : Db) (now : Int)
    (stamps : List Stamp) :
    dispatchDue limit probe db now stamps =
      Pass.after limit probe (settleAll db now) now stamps (passRows (settleAll db now)) :=
  rfl

theorem after_simulates (limit : Nat) (probe : Probe) (db : Db) (now : Int)
    (stamps : List Stamp) (rows : List TaskDue) :
    (Pass.after limit probe db now stamps rows).Simulates db
      (greedyAfter limit probe db now rows) :=
  rows_simulate limit probe now (begin_simulates probe db stamps) rows

def Pass.Started (p : Pass) (row : TaskDue) : Prop :=
  ∃ run ∈ p.db.runs.rows, run.id ∈ p.started ∧ run.taskId = row.taskId

section Outcome
variable {limit : Nat} {probe : Probe} {now : Int} {db : Db} {p : Pass} {s : Greedy.State Scopes}
  {row : TaskDue} {rows : List TaskDue}

theorem mem_news {news : List Run} (sim : p.db.runs.rows = db.runs.rows ++ news)
    (started : p.started = news.map Run.id) {run : Run} (mem : run ∈ p.db.runs.rows) :
    run.id ∈ p.started ↔ run ∈ news := by
  rw [started]
  constructor
  · intro listed
    obtain ⟨new, there, id⟩ := List.mem_map.mp listed
    have here : new ∈ p.db.runs.rows := by
      rw [sim]
      exact List.mem_append_right _ there
    exact Table.key_injective here mem id ▸ there
  · exact fun there => List.mem_map_of_mem there

theorem started_iff_scopes (sim : p.Simulates db s) :
    p.Started row ↔ ∃ job ∈ s.started, job.task = some row.taskId := by
  obtain ⟨news, split, started, -, owners⟩ := sim.runs
  have listed : (∃ job ∈ s.started, job.task = some row.taskId) ↔
      some row.taskId ∈ s.started.map Scopes.task := by simp [List.mem_map]
  rw [listed, ← owners, List.mem_map]
  constructor
  · rintro ⟨run, mem, id, owner⟩
    exact ⟨run, (mem_news split started mem).mp id, by rw [owner]⟩
  · rintro ⟨run, new, owner⟩
    have mem : run ∈ p.db.runs.rows := by
      rw [split]
      exact List.mem_append_right _ new
    exact ⟨run, mem, (mem_news split started mem).mpr new, Option.some.inj owner⟩

theorem request_task {job : Scopes} (asks : request probe db now row = some job) :
    job.task = some row.taskId := by
  obtain ⟨task, source, eligible, rfl⟩ := request_some.mp asks
  exact congrArg some (Table.key_of_get eligible.found)

theorem requests_nodup (probe : Probe) (db : Db) (now : Int)
    (unique : (rows.map TaskDue.taskId).Nodup) :
    ((rows.filterMap (request probe db now)).map Scopes.task).Nodup := by
  induction rows with
  | nil => simp
  | cons row rows ih =>
    obtain ⟨apart, unique⟩ := List.nodup_cons.mp unique
    cases asks : request probe db now row with
    | none => simpa [asks] using ih unique
    | some job =>
      rw [List.filterMap_cons_some asks, List.map_cons, List.nodup_cons]
      refine ⟨fun clash => ?_, ih unique⟩
      obtain ⟨other, mem, same⟩ := List.mem_map.mp clash
      obtain ⟨row', mem', asks'⟩ := List.mem_filterMap.mp mem
      rw [request_task asks, request_task asks'] at same
      exact apart (List.mem_map.mpr ⟨row', mem', Option.some.inj same⟩)

theorem requests_distinct (probe : Probe) (db : Db) (now : Int)
    (unique : (rows.map TaskDue.taskId).Nodup) :
    (rows.filterMap (request probe db now)).Nodup :=
  (requests_nodup probe db now unique).of_map

variable {stamps : List Stamp}

theorem after_started_iff (unique : (rows.map TaskDue.taskId).Nodup) (mem : row ∈ rows) {job : Scopes}
    (asks : request probe db now row = some job) :
    (Pass.after limit probe db now stamps rows).Started row ↔
      job ∈ (greedyAfter limit probe db now rows).started := by
  rw [started_iff_scopes (after_simulates limit probe db now stamps rows)]
  constructor
  · rintro ⟨other, starts, same⟩
    have requested := Greedy.Rules.mem_request.mp (Or.inl starts)
    obtain ⟨row', mem', asks'⟩ := List.mem_filterMap.mp requested
    rw [request_task asks'] at same
    obtain rfl := List.inj_on_of_nodup_map unique mem' mem (Option.some.inj same)
    obtain rfl := Option.some.inj (asks.symm.trans asks')
    exact starts
  · exact fun starts => ⟨job, starts, request_task asks⟩

theorem after_waits_iff (unique : (rows.map TaskDue.taskId).Nodup) (mem : row ∈ rows) {job : Scopes}
    (asks : request probe db now row = some job) :
    ¬ (Pass.after limit probe db now stamps rows).Started row ↔
      job ∈ (greedyAfter limit probe db now rows).waiting := by
  rw [after_started_iff unique mem asks]
  exact (Greedy.Rules.waits_iff (requests_distinct probe db now unique)
    (List.mem_filterMap.mpr ⟨row, mem, asks⟩)).symm

/-- The turn of a row decides whether it starts. -/
theorem after_blocked_iff {front rest : List TaskDue}
    (unique : ((front ++ row :: rest).map TaskDue.taskId).Nodup) {job : Scopes}
    (asks : request probe db now row = some job) :
    ¬ (Pass.after limit probe db now stamps (front ++ row :: rest)).Started row ↔
      (passRules limit).blocked (greedyAfter limit probe db now front) job = true := by
  have split : (front ++ row :: rest).filterMap (request probe db now) =
      front.filterMap (request probe db now) ++ job :: rest.filterMap (request probe db now) := by
    rw [List.filterMap_append, List.filterMap_cons_some asks]
  have distinct := requests_distinct probe db now unique
  rw [split] at distinct
  rw [after_started_iff unique (by simp) asks, ← Bool.not_eq_false, not_iff_not]
  unfold greedyAfter
  rw [split]
  exact Greedy.Rules.starts_iff distinct

theorem waiting_row (limit : Nat) (stamps : List Stamp) {front rest : List TaskDue}
    (unique : ((front ++ rest).map TaskDue.taskId).Nodup) {job : Scopes} :
    job ∈ (greedyAfter limit probe db now front).waiting ↔
      ∃ older ∈ front, request probe db now older = some job ∧
        ¬ (Pass.after limit probe db now stamps (front ++ rest)).Started older := by
  have split : (front ++ rest).filterMap (request probe db now) =
      front.filterMap (request probe db now) ++ rest.filterMap (request probe db now) :=
    List.filterMap_append
  have distinct := requests_distinct probe db now unique
  rw [split] at distinct
  constructor
  · intro waits
    obtain ⟨older, mem, asks⟩ :=
      List.mem_filterMap.mp (Greedy.Rules.mem_request.mp (Or.inr waits))
    refine ⟨older, mem, asks, ?_⟩
    rw [after_waits_iff unique (List.mem_append_left _ mem) asks]
    unfold greedyAfter at waits ⊢
    rw [split, Greedy.Rules.pass_append]
    exact (Greedy.Rules.pass_waiting _ _).subset waits
  · rintro ⟨older, mem, asks, waits⟩
    rw [after_waits_iff unique (List.mem_append_left _ mem) asks] at waits
    unfold greedyAfter at waits ⊢
    rw [split] at waits
    exact Greedy.Rules.waits_early distinct (List.mem_filterMap.mpr ⟨older, mem, asks⟩) waits

/-- The scopes of a job are those of an active run. -/
structure Occupies (probe : Probe) (db : Db) (run : Run) (job : Scopes) : Prop where
  task : ∀ id, job.task = some id → run.taskId = id
  source : ∀ id, job.source = some id →
    ∃ other, db.tasks.get run.taskId = some other ∧ other.sourceId = id
  dest : ∀ key, job.dest = some key →
    ∃ other, db.tasks.get run.taskId = some other ∧ probe.destinationKey other = some key

theorem runScopes_occupies (probe : Probe) (db : Db) (run : Run) :
    Occupies probe db run (runScopes probe db run) := by
  unfold runScopes
  cases found : db.tasks.get run.taskId with
  | none => exact ⟨nofun, nofun, nofun⟩
  | some task =>
    refine ⟨fun id same => ?_, fun id same => ⟨task, found, Option.some.inj same⟩,
      fun key same => ⟨task, found, same⟩⟩
    exact (Table.key_of_get found).symm.trans (Option.some.inj same)

theorem passKey_some {task : Task} {source : Source} {key : DestKey}
    (named : passKey probe task source = some key) : probe.destinationKey task = some key := by
  unfold passKey at named
  split at named
  · exact named
  · cases named

theorem scopesOf_occupies {run : Run} {task : Task} {source : Source}
    (found : db.tasks.get run.taskId = some task) :
    Occupies probe db run (scopesOf probe task source) := by
  refine ⟨fun id same => ?_, fun id same => ⟨task, found, Option.some.inj same⟩,
    fun key same => ⟨task, found, passKey_some same⟩⟩
  exact (Table.key_of_get found).symm.trans (Option.some.inj same)

theorem started_request {job : Scopes} (starts : job ∈ (greedyAfter limit probe db now rows).started) :
    ∃ row ∈ rows, ∃ task source, Eligible db now row task source ∧ job = scopesOf probe task source := by
  obtain ⟨row, mem, asks⟩ :=
    List.mem_filterMap.mp (Greedy.Rules.mem_request.mp (Or.inl starts))
  exact ⟨row, mem, request_some.mp asks⟩

theorem running_run {job : Scopes} (stamps : List Stamp)
    (mem : job ∈ (greedyAfter limit probe db now rows).running) :
    ∃ run ∈ (Pass.after limit probe db now stamps rows).db.runs.rows,
      run.state.active = true ∧ Occupies probe db run job := by
  have sim := after_simulates limit probe db now stamps rows
  obtain ⟨news, split, -, pending, owners⟩ := sim.runs
  rw [split]
  rcases List.mem_append.mp mem with before | starts
  · have old : (greedyAfter limit probe db now rows).before = activeScopes probe db :=
      Greedy.Rules.pass_before _ _
    rw [old] at before
    obtain ⟨run, active, rfl⟩ := List.mem_map.mp before
    obtain ⟨stored, active⟩ := List.mem_filter.mp active
    exact ⟨run, List.mem_append_left _ stored, active, runScopes_occupies probe db run⟩
  · have listed : job.task ∈ news.map fun run => some run.taskId := by
      rw [owners]
      exact List.mem_map_of_mem starts
    obtain ⟨run, new, owner⟩ := List.mem_map.mp listed
    obtain ⟨row, -, task, source, eligible, rfl⟩ := started_request starts
    refine ⟨run, List.mem_append_right _ new, by simp [pending run new], ?_⟩
    have id : task.id = row.taskId := Table.key_of_get eligible.found
    have same : run.taskId = row.taskId := (Option.some.inj owner).trans id
    exact scopesOf_occupies (same ▸ eligible.found)

theorem after_count : (Pass.after limit probe db now stamps rows).count =
    (Pass.after limit probe db now stamps rows).db.runs.rows.countP fun r => r.state.active := by
  have sim := after_simulates limit probe db now stamps rows
  obtain ⟨news, split, -, pending, owners⟩ := sim.runs
  have all : news.countP (fun r => r.state.active) = news.length :=
    List.countP_eq_length.mpr fun run mem => by simp [pending run mem]
  have lengths := congrArg List.length owners
  have before : (greedyAfter limit probe db now rows).before.length =
      db.runs.rows.countP fun r => r.state.active := by
    have old : (greedyAfter limit probe db now rows).before = activeScopes probe db :=
      Greedy.Rules.pass_before _ _
    rw [old, activeScopes, List.length_map, List.countP_eq_length_filter]
  rw [sim.count, split, List.countP_append, all, Greedy.State.running, List.length_append, before]
  simp only [List.length_map] at lengths
  omega

end Outcome

/-- What keeps an eligible row from starting when the pass comes to it: p is the pass at that
    point and last the pass when it is over. -/
inductive Blocker (limit : Nat) (probe : Probe) (db : Db) (now : Int) (p last : Pass)
    (front : List TaskDue) (row : TaskDue) (task : Task) (source : Source) : Prop where
  | taskActive {run : Run} (mem : run ∈ p.db.runs.rows) (active : run.state.active = true)
      (same : run.taskId = row.taskId)
  | sourceActive {run : Run} {other : Task} (mem : run ∈ p.db.runs.rows)
      (active : run.state.active = true) (found : db.tasks.get run.taskId = some other)
      (same : other.sourceId = task.sourceId)
  | sourceHeld {older : TaskDue} {other : Task} {source' : Source} (mem : older ∈ front)
      (eligible : Eligible db now older other source') (waits : ¬ last.Started older)
      (same : other.sourceId = task.sourceId)
  | destinationActive {run : Run} {other : Task} {key held : DestKey}
      (mem : run ∈ p.db.runs.rows) (active : run.state.active = true)
      (found : db.tasks.get run.taskId = some other)
      (named : passKey probe task source = some key)
      (taken : probe.destinationKey other = some held) (clash : conflicts key held = true)
  | destinationHeld {older : TaskDue} {other : Task} {source' : Source} {key held : DestKey}
      (mem : older ∈ front) (eligible : Eligible db now older other source')
      (waits : ¬ last.Started older) (named : passKey probe task source = some key)
      (taken : passKey probe other source' = some held) (clash : conflicts key held = true)
  | full (full : limit ≤ p.db.runs.rows.countP fun r => r.state.active)

section Claims
variable {limit : Nat} {probe : Probe} {now : Int} {db : Db} {stamps : List Stamp}
  {front rest rows : List TaskDue} {row : TaskDue} {task : Task} {source : Source}

theorem sameSource_iff {i : Scopes} :
    (scopesOf probe task source).sameSource i = true ↔ i.source = some task.sourceId := by
  simp [Scopes.sameSource, scopesOf]

theorem conflicting_iff {i : Scopes} : (scopesOf probe task source).conflicting i = true ↔
    ∃ key, passKey probe task source = some key ∧
      ∃ held, i.dest = some held ∧ conflicts key held = true := by
  simp only [Scopes.conflicting, scopesOf, Option.any_eq_true]

theorem request_eligible (probe : Probe) (eligible : Eligible db now row task source) :
    request probe db now row = some (scopesOf probe task source) :=
  request_some.mpr ⟨task, source, eligible, rfl⟩

theorem blocked_blocker (unique : ((front ++ row :: rest).map TaskDue.taskId).Nodup)
    (eligible : Eligible db now row task source)
    (waits : ¬ (Pass.after limit probe db now stamps (front ++ row :: rest)).Started row) :
    Blocker limit probe db now (Pass.after limit probe db now stamps front)
      (Pass.after limit probe db now stamps (front ++ row :: rest)) front row task source := by
  have asks := request_eligible probe eligible
  have id : task.id = row.taskId := Table.key_of_get eligible.found
  rw [after_blocked_iff unique asks, Greedy.Rules.blocked_iff] at waits
  rcases waits with ⟨i, running, busy⟩ | ⟨i, waiting, held⟩ | full
  · obtain ⟨run, mem, active, occupies⟩ := running_run stamps running
    simp only [passRules, Bool.or_eq_true, sameSource_iff, conflicting_iff] at busy
    rcases busy with (sameTask | same) | ⟨key, named, held, taken, clash⟩
    · have same : i.task = some task.id := by simpa [Scopes.sameTask, scopesOf] using sameTask
      exact .taskActive mem active ((occupies.task _ same).trans id)
    · obtain ⟨other, found, same⟩ := occupies.source _ same
      exact .sourceActive mem active found same
    · obtain ⟨other, found, taken⟩ := occupies.dest _ taken
      exact .destinationActive mem active found named taken clash
  · obtain ⟨older, mem, asks', waits⟩ := (waiting_row limit stamps unique).mp waiting
    obtain ⟨other, source', eligible', rfl⟩ := request_some.mp asks'
    simp only [passRules, Bool.or_eq_true, sameSource_iff, conflicting_iff] at held
    rcases held with same | ⟨key, named, held, taken, clash⟩
    · exact .sourceHeld mem eligible' waits (Option.some.inj same)
    · exact .destinationHeld mem eligible' waits named taken clash
  · refine .full ?_
    rw [← after_count, (after_simulates limit probe db now stamps front).count]
    exact full

theorem started_past_waiting (unique : ((front ++ row :: rest).map TaskDue.taskId).Nodup)
    (eligible : Eligible db now row task source)
    (starts : (Pass.after limit probe db now stamps (front ++ row :: rest)).Started row)
    {older : TaskDue} {other : Task} {source' : Source} (mem : older ∈ front)
    (eligible' : Eligible db now older other source')
    (waits : ¬ (Pass.after limit probe db now stamps (front ++ row :: rest)).Started older) :
    other.sourceId ≠ task.sourceId ∧ ∀ held, passKey probe other source' = some held →
      ∀ key, passKey probe task source = some key → conflicts key held = false := by
  have asks := request_eligible probe eligible
  have free : (passRules limit).blocked (greedyAfter limit probe db now front)
      (scopesOf probe task source) = false := by
    by_contra blocked
    exact (after_blocked_iff unique asks).mpr (by simpa using blocked) starts
  have waiting := (waiting_row limit stamps unique).mpr
    ⟨older, mem, request_eligible probe eligible', waits⟩
  have apart := (Greedy.Rules.free_iff.mp free).2.1 _ waiting
  simp only [passRules, Bool.or_eq_false_iff] at apart
  refine ⟨fun same => ?_, fun held taken key named => ?_⟩
  · exact Bool.eq_false_iff.mp apart.1 (sameSource_iff.mpr (congrArg some same))
  · by_contra clash
    exact Bool.eq_false_iff.mp apart.2
      (conflicting_iff.mpr ⟨key, named, held, taken, by simpa using clash⟩)

end Claims

/-- The destination key a run holds after the pass: the one it was started with, or the one the
    pass found for it. -/
def Pass.destOf (probe : Probe) (db : Db) (p : Pass) (run : Run) : Option DestKey :=
  (db.tasks.get run.taskId).bind fun task =>
    if run.id ∈ p.started then (db.sources.get task.sourceId).bind (passKey probe task)
    else probe.destinationKey task

structure FairPass (probe : Probe) (db : Db) (now : Int) (last : Pass) : Prop where
  fair : ∀ older ∈ db.taskDue.rows, ∀ younger ∈ db.taskDue.rows, older.dueAt < younger.dueAt →
    ∀ task source task' source', Eligible db now older task source →
      Eligible db now younger task' source' → ¬ last.Started older → last.Started younger →
      task.sourceId ≠ task'.sourceId ∧
        ∀ held, passKey probe task source = some held →
          ∀ key, passKey probe task' source' = some key → conflicts key held = false

structure WorkConserving (limit : Nat) (probe : Probe) (db : Db) (now : Int)
    (stamps : List Stamp) (last : Pass) : Prop where
  ordered : (passRows db).Pairwise fun a b => a.dueAt ≤ b.dueAt
  busy : ∀ front row rest, passRows db = front ++ row :: rest → ∀ task source,
    Eligible db now row task source → ¬ last.Started row →
    Blocker limit probe db now (Pass.after limit probe db now stamps front) last front row task source

structure SafePass (limit : Nat) (probe : Probe) (db : Db) (last : Pass) : Prop where
  kept : ∀ run ∈ db.runs.rows, run ∈ last.db.runs.rows
  new : ∀ run ∈ last.db.runs.rows, run ∈ db.runs.rows ↔ run.id ∉ last.started
  apart : ∀ run ∈ last.db.runs.rows, ∀ other ∈ last.db.runs.rows, run.id ∈ last.started →
    other.state.active = true → run ≠ other → ∀ task task',
      db.tasks.get run.taskId = some task → db.tasks.get other.taskId = some task' →
      task.sourceId ≠ task'.sourceId ∧ ∀ key, last.destOf probe db run = some key →
        ∀ held, last.destOf probe db other = some held → conflicts key held = false
  bounded : (last.db.runs.rows.countP fun r => r.state.active) ≤
    max limit (db.runs.rows.countP fun r => r.state.active)

section Safety
variable {limit : Nat} {probe : Probe} {now : Int} {db : Db} {stamps : List Stamp}
  {rows : List TaskDue}

theorem busy_comm (limit : Nat) (j i : Scopes) :
    (passRules limit).busy j i = (passRules limit).busy i j := by
  obtain ⟨task, source, dest⟩ := j
  obtain ⟨task', source', dest'⟩ := i
  have sym : ∀ a b : Option Nat,
      (a.any fun x => decide (b = some x)) = b.any fun x => decide (a = some x) := by
    intro a b
    cases a <;> cases b <;> simp [eq_comm]
  have keys : (dest.any fun key => dest'.any (conflicts key)) =
      dest'.any fun key => dest.any (conflicts key) := by
    cases dest with
    | none => cases dest' <;> rfl
    | some key =>
      cases dest' with
      | none => rfl
      | some held => exact conflicts_comm key held
  simp only [passRules, Scopes.sameTask, Scopes.sameSource, Scopes.conflicting, sym task task',
    sym source source', keys]

theorem new_scopes {run : Run}
    (mem : run ∈ (Pass.after limit probe db now stamps rows).db.runs.rows)
    (starts : run.id ∈ (Pass.after limit probe db now stamps rows).started) :
    ∃ task source, db.tasks.get run.taskId = some task ∧
      (Pass.after limit probe db now stamps rows).destOf probe db run = passKey probe task source ∧
      scopesOf probe task source ∈ (greedyAfter limit probe db now rows).started := by
  have sim := after_simulates limit probe db now stamps rows
  obtain ⟨news, split, started, -, owners⟩ := sim.runs
  have new := (mem_news split started mem).mp starts
  have listed : some run.taskId ∈ (greedyAfter limit probe db now rows).started.map Scopes.task := by
    rw [← owners]
    exact List.mem_map_of_mem new
  obtain ⟨job, jobStarts, owner⟩ := List.mem_map.mp listed
  obtain ⟨row, -, task, source, eligible, rfl⟩ := started_request jobStarts
  have same : run.taskId = row.taskId :=
    (Option.some.inj owner).symm.trans (Table.key_of_get eligible.found)
  have found : db.tasks.get run.taskId = some task := same ▸ eligible.found
  refine ⟨task, source, found, ?_, jobStarts⟩
  simp [Pass.destOf, found, starts, eligible.stored]

theorem after_apart (unique : (rows.map TaskDue.taskId).Nodup) {run other : Run}
    (mem : run ∈ (Pass.after limit probe db now stamps rows).db.runs.rows)
    (mem' : other ∈ (Pass.after limit probe db now stamps rows).db.runs.rows)
    (starts : run.id ∈ (Pass.after limit probe db now stamps rows).started)
    (active : other.state.active = true) (ne : run ≠ other) {task task' : Task}
    (found : db.tasks.get run.taskId = some task)
    (found' : db.tasks.get other.taskId = some task') :
    ∃ job job', (passRules limit).busy job job' = false ∧ job.source = some task.sourceId ∧
      job.dest = (Pass.after limit probe db now stamps rows).destOf probe db run ∧
      job'.source = some task'.sourceId ∧
      job'.dest = (Pass.after limit probe db now stamps rows).destOf probe db other := by
  have sim := after_simulates limit probe db now stamps rows
  have apart : Greedy.Rules.Apart (passRules limit) (greedyAfter limit probe db now rows) :=
    Greedy.Rules.pass_apart _ _
  obtain ⟨t, source, here, dest, job⟩ := new_scopes mem starts
  obtain rfl := Option.some.inj (found.symm.trans here)
  obtain ⟨news, split, started, -, owners⟩ := sim.runs
  by_cases starts' : other.id ∈ (Pass.after limit probe db now stamps rows).started
  · obtain ⟨t', source', here', dest', job'⟩ := new_scopes mem' starts'
    obtain rfl := Option.some.inj (found'.symm.trans here')
    refine ⟨scopesOf probe task source, scopesOf probe task' source', ?_, rfl, dest.symm, rfl, dest'.symm⟩
    have symmetric : Std.Symm fun i j => (passRules limit).busy j i = false :=
      ⟨fun i j free => by rw [busy_comm]; exact free⟩
    refine apart.new.forall job' job fun same => ne ?_
    -- one job is one task, and a pass starts at most one run of it
    have id : task'.id = task.id := Option.some.inj (congrArg Scopes.task same)
    have owner : run.taskId = other.taskId :=
      ((Table.key_of_get found).symm.trans id.symm).trans (Table.key_of_get found')
    have tasks := requests_nodup probe db now unique
    have whole := (Greedy.Rules.pass_perm (r := passRules limit)
      (Greedy.State.begin (activeScopes probe db)) (rows.filterMap (request probe db now))).map Scopes.task
    have distinct : (news.map fun run => some run.taskId).Nodup := by
      rw [owners]
      have both := whole.nodup_iff.mpr tasks
      rw [List.map_append] at both
      exact (List.nodup_append.mp both).1
    exact List.inj_on_of_nodup_map distinct ((mem_news split started mem).mp starts)
      ((mem_news split started mem').mp starts') (congrArg some owner)
  · have old : other ∈ db.runs.rows := by
      rw [split] at mem'
      refine (List.mem_append.mp mem').resolve_right fun new => starts' ?_
      rw [started]
      exact List.mem_map_of_mem new
    have held : runScopes probe db other = ⟨some task'.id, some task'.sourceId,
        probe.destinationKey task'⟩ := by
      simp [runScopes, found']
    refine ⟨scopesOf probe task source, runScopes probe db other, ?_, rfl, dest.symm, by rw [held], ?_⟩
    · refine apart.old _ job _ ?_
      have before : (greedyAfter limit probe db now rows).before = activeScopes probe db :=
        Greedy.Rules.pass_before _ _
      rw [before]
      exact List.mem_map_of_mem (List.mem_filter.mpr ⟨old, active⟩)
    · simp [held, Pass.destOf, found', starts']

theorem after_new {run : Run}
    (mem : run ∈ (Pass.after limit probe db now stamps rows).db.runs.rows) :
    (run ∈ db.runs.rows ↔ run.id ∉ (Pass.after limit probe db now stamps rows).started) ∧
      (run ∉ db.runs.rows → run.state = .pending) := by
  have sim := after_simulates limit probe db now stamps rows
  obtain ⟨news, split, started, pending, -⟩ := sim.runs
  have ids := (Pass.after limit probe db now stamps rows).db.runs.unique
  rw [split, List.map_append] at ids
  have disjoint := (List.nodup_append.mp ids).2.2
  have new : run ∉ db.runs.rows → run ∈ news := by
    rw [split] at mem
    exact (List.mem_append.mp mem).resolve_left
  refine ⟨?_, fun added => pending run (new added)⟩
  rw [mem_news split started mem]
  constructor
  · exact fun old added =>
      disjoint _ (List.mem_map_of_mem old) _ (List.mem_map_of_mem added) rfl
  · exact fun other => by_contra fun added => other (new added)

theorem after_kept {run : Run} (mem : run ∈ db.runs.rows) :
    run ∈ (Pass.after limit probe db now stamps rows).db.runs.rows := by
  obtain ⟨news, split, -⟩ := (after_simulates limit probe db now stamps rows).runs
  rw [split]
  exact List.mem_append_left _ mem

theorem after_safe (limit : Nat) (probe : Probe) (db : Db) (now : Int) (stamps : List Stamp)
    (unique : (rows.map TaskDue.taskId).Nodup) :
    SafePass limit probe db (Pass.after limit probe db now stamps rows) := by
  refine ⟨fun run mem => after_kept mem, fun run mem => (after_new mem).1, ?_, ?_⟩
  · intro run mem other mem' starts active ne task task' found found'
    obtain ⟨job, job', free, source, dest, source', dest'⟩ :=
      after_apart unique mem mem' starts active ne found found'
    simp only [passRules, Bool.or_eq_false_iff] at free
    refine ⟨fun same => ?_, fun key named held taken => ?_⟩
    · have clash : job.sameSource job' = true := by simp [Scopes.sameSource, source, source', same]
      rw [free.1.2] at clash
      cases clash
    · have clash := free.2
      rw [Scopes.conflicting, dest, dest', named, taken] at clash
      exact clash
  · rw [← after_count, (after_simulates limit probe db now stamps rows).count,
      List.countP_eq_length_filter]
    have bound := Greedy.Rules.pass_length (r := passRules limit) (activeScopes probe db)
      (rows.filterMap (request probe db now))
    rw [activeScopes, List.length_map] at bound
    exact bound

end Safety

/-- One pass of the dispatcher over the obligations its settlement leaves: no row starts past an
    older one that waits for a scope they share, every eligible row that waits has a true
    blocker, and what runs after the pass is what ran before with runs that fit beside it,
    within the limit. -/
theorem dispatch_fair_conserving_safe (limit : Nat) (probe : Probe) (db : Db) (now : Int)
    (stamps : List Stamp) :
    FairPass probe (settleAll db now) now (dispatchDue limit probe db now stamps) ∧
      WorkConserving limit probe (settleAll db now) now stamps
        (dispatchDue limit probe db now stamps) ∧
      SafePass limit probe (settleAll db now) (dispatchDue limit probe db now stamps) := by
  rw [dispatchDue_after]
  generalize settleAll db now = db
  obtain ⟨member, unique⟩ := passRows_spec db
  have ordered : (passRows db).Pairwise fun a b => a.dueAt ≤ b.dueAt := by
    have total : Std.Total fun a b : TaskDue => a.dueAt ≤ b.dueAt := ⟨fun a b => le_total _ _⟩
    have trans : IsTrans TaskDue fun a b => a.dueAt ≤ b.dueAt := ⟨fun _ _ _ => le_trans⟩
    exact List.pairwise_insertionSort _ _
  refine ⟨⟨?_⟩, ⟨ordered, ?_⟩, after_safe limit probe db now stamps unique⟩
  · intro older mem younger mem' age task source task' source' eligible eligible' waits starts
    obtain ⟨front, rest, split⟩ := List.append_of_mem ((member younger).mpr mem')
    rw [split] at unique waits starts ordered
    have earlier : older ∈ front := by
      have here : older ∈ front ++ younger :: rest := by
        rw [← split]
        exact (member older).mpr mem
      rcases List.mem_append.mp here with earlier | later
      · exact earlier
      rcases List.mem_cons.mp later with rfl | later
      · exact absurd age (lt_irrefl _)
      · have := (List.pairwise_cons.mp (List.pairwise_append.mp ordered).2.1).1 older later
        omega
    exact started_past_waiting unique eligible' starts earlier eligible waits
  · intro front row rest split task source eligible waits
    rw [split] at unique waits ⊢
    exact blocked_blocker unique eligible waits

end Pullbackup
