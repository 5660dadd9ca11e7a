import Pullbackup.Backlog
import Pullbackup.Library.Rounds

/- No obligation starves. While the service is left to itself and its runs end, a round that
   begins with an old obligation in wait takes from what the old obligations still ask, and
   there is only so much of that. -/
namespace Pullbackup
open KeyedTable History Greedy.Rules

/-- The destinations stay as they are, and one that has a key passes its checks. -/
structure Probe.Steady (probe : Probe) : Prop where
  fields : ∀ task task' : Task, task'.toTaskFields = task.toTaskFields →
    probe.destinationKey task' = probe.destinationKey task
  checked : ∀ task source, probe.destinationKey task ≠ none →
    probe.validateDestination task source = true

def scopesIn (probe : Probe) (db : Db) (runs : List Run) : List Scopes :=
  (runs.filter fun r => r.state.active).map (runScopes probe db)

/-- Run rows stand where they were inserted: the first n are those there were at the outset. -/
def Service.elder (probe : Probe) (n : Nat) (s : Service) : List Scopes :=
  scopesIn probe s.db (s.db.runs.rows.take n)

def Service.younger (probe : Probe) (n : Nat) (s : Service) : List Scopes :=
  scopesIn probe s.db (s.db.runs.rows.drop n)

/-- What an obligation as old as that could start with now. -/
def Service.Asks (age : Int) (probe : Probe) (s : Service) (job : Scopes) : Prop :=
  ∃ row ∈ s.db.taskDue.rows, row.dueAt ≤ age ∧ request probe s.db s.clock row = some job

section Scopes
variable {probe : Probe} {db db' : Db} {runs : List Run}

theorem steady_key (steady : probe.Steady) (task : Task) (source : Source) :
    passKey probe task source = probe.destinationKey task := by
  unfold passKey
  split
  · rfl
  · rename_i unchecked
    by_contra named
    exact unchecked (steady.checked task source (Ne.symm named))

theorem runScopes_fields (steady : probe.Steady) (same : SameFields db db') (run : Run) :
    runScopes probe db' run = runScopes probe db run := by
  have row := same run.taskId
  unfold runScopes
  cases found : db.tasks.get run.taskId with
  | none =>
    rw [found, Option.map_none, Option.map_eq_none_iff] at row
    rw [row]
  | some task =>
    rw [found, Option.map_some] at row
    obtain ⟨task', found', fields⟩ := Option.map_eq_some_iff.mp row
    have id : task'.id = task.id :=
      (Table.key_of_get found' : task'.id = run.taskId).trans (Table.key_of_get found).symm
    rw [found']
    dsimp only
    rw [id, steady.fields task task' fields, congrArg TaskFields.sourceId fields]

theorem scopesIn_congr (steady : probe.Steady) (same : SameFields db db') (runs : List Run) :
    scopesIn probe db' runs = scopesIn probe db runs :=
  List.map_congr_left fun run _ => runScopes_fields steady same run

theorem scopesIn_append (probe : Probe) (db : Db) (xs ys : List Run) :
    scopesIn probe db (xs ++ ys) = scopesIn probe db xs ++ scopesIn probe db ys := by
  simp [scopesIn]

theorem active_parts (probe : Probe) (n : Nat) (s : Service) :
    activeScopes probe s.db = s.elder probe n ++ s.younger probe n := by
  rw [Service.elder, Service.younger, ← scopesIn_append, List.take_append_drop]
  rfl

theorem scopesIn_onward {f : Run → Run} (onward : ∀ run ∈ runs, run.Onward (f run)) :
    (scopesIn probe db (runs.map f)).Sublist (scopesIn probe db runs) := by
  induction runs with
  | nil => exact List.Sublist.slnil
  | cons run runs ih =>
    obtain ⟨here, rest⟩ := List.forall_mem_cons.mp onward
    have tails := ih rest
    have scopes : runScopes probe db (f run) = runScopes probe db run := by
      unfold runScopes
      rw [here.owner]
    unfold scopesIn at tails ⊢
    rw [List.map_cons, List.filter_cons, List.filter_cons]
    split
    · rename_i active
      rw [if_pos (here.active active), List.map_cons, List.map_cons, scopes]
      exact tails.cons_cons _
    · split
      · exact tails.cons _
      · exact tails

theorem scopesIn_news (steady : probe.Steady) {limit : Nat} {now : Int} {rows : List TaskDue}
    {news : List Run} (pending : ∀ run ∈ news, run.state = .pending)
    (owners : news.map (fun run => some run.taskId) =
      (greedyAfter limit probe db now rows).started.map Scopes.task) :
    scopesIn probe db news = (greedyAfter limit probe db now rows).started := by
  have all : news.filter (fun r => r.state.active) = news :=
    List.filter_eq_self.mpr fun run mem => by simp [pending run mem]
  let held : Option Nat → Scopes := fun owner =>
    ((owner.bind db.tasks.get).map fun task =>
      ⟨some task.id, some task.sourceId, probe.destinationKey task⟩).getD ⟨none, none, none⟩
  calc scopesIn probe db news
      = news.map (runScopes probe db) := by rw [scopesIn, all]
    _ = (news.map fun run => some run.taskId).map held := by
        rw [List.map_map]
        refine List.map_congr_left fun run _ => ?_
        cases found : db.tasks.get run.taskId <;> simp [held, runScopes, found]
    _ = (greedyAfter limit probe db now rows).started.map (held ∘ Scopes.task) := by
        rw [owners, List.map_map]
    _ = (greedyAfter limit probe db now rows).started.map id := by
        refine List.map_congr_left fun job starts => ?_
        obtain ⟨row, -, task, source, eligible, rfl⟩ := started_request starts
        have id : task.id = row.taskId := Table.key_of_get eligible.found
        have found : db.tasks.get task.id = some task := id ▸ eligible.found
        simp [held, scopesOf, found, steady_key steady]
    _ = (greedyAfter limit probe db now rows).started := List.map_id _

end Scopes

section Asking
variable {age : Int} {probe : Probe} {s u : Service}

/-- Who asks for what is read off the debts. -/
theorem asks_of_debts (steady : probe.Steady) (linked : u.db.Linked) (ids : u.taskIds = s.taskIds)
    (fields : SameFields s.db u.db) (sources : u.db.sources = s.db.sources)
    (debts : ∀ a ∈ s.taskIds, u.debtOf age a = s.debtOf age a) {job : Scopes}
    (asks : u.Asks age probe job) : s.Asks age probe job := by
  obtain ⟨row, mem, old, requested⟩ := asks
  obtain ⟨task, source, eligible, rfl⟩ := request_some.mp requested
  have stored : u.db.taskDue.get row.taskId = some row := Table.get_of_mem mem
  have listed : row.taskId ∈ s.taskIds := by
    rw [← ids]
    obtain ⟨l, view, -⟩ := view_of_row linked stored
    exact mem_taskIds.mpr ⟨l, view⟩
  have owes : owedDebt age s.clock (s.db.taskDue.get row.taskId) % 3 = 1 := by
    have same := debts row.taskId listed
    unfold Service.debtOf at same
    rw [← same, stored]
    exact (debt_mod age u.clock row).mpr ⟨old, ripe_iff.mpr eligible.ready⟩
  cases owed : s.db.taskDue.get row.taskId with
  | none =>
    rw [owed] at owes
    cases owes
  | some row' =>
    rw [owed] at owes
    obtain ⟨old', ripe⟩ := (debt_mod age s.clock row').mp owes
    have key : row'.taskId = row.taskId := Table.key_of_get owed
    have here := fields row.taskId
    rw [eligible.found, Option.map_some] at here
    obtain ⟨task', found, same⟩ := Option.map_eq_some_iff.mp here.symm
    have id : task'.id = task.id :=
      (Table.key_of_get found : task'.id = row.taskId).trans (Table.key_of_get eligible.found).symm
    have sourceId : task'.sourceId = task.sourceId := congrArg TaskFields.sourceId same
    refine ⟨row', Table.mem_of_get owed, old', request_some.mpr ⟨task', source, ?_, ?_⟩⟩
    · refine ⟨key ▸ found, ?_, ?_, ripe_iff.mp ripe⟩
      · rw [congrArg TaskFields.enabled same]
        exact eligible.enabled
      · rw [sourceId, ← sources]
        exact eligible.stored
    · simp only [scopesOf, steady_key steady, id, sourceId, steady.fields task task' same]

end Asking

/-- Since s no obligation of that age has started, ended or come in. -/
structure Stalled (age : Int) (probe : Probe) (limit : Nat) (s u : Service) : Prop where
  linked : u.db.Linked
  ids : u.taskIds = s.taskIds
  fields : SameFields s.db u.db
  sources : u.db.sources = s.db.sources
  debts : ∀ a ∈ s.taskIds, u.debtOf age a = s.debtOf age a
  runs : List.Forall₂ Run.Onward s.db.runs.rows (u.db.runs.rows.take s.db.runs.rows.length)
  past : Past (passRules limit) (s.Asks age probe) (u.elder probe s.db.runs.rows.length)
    (u.younger probe s.db.runs.rows.length)

section Stalled
variable {env : Env} {age : Int} {probe : Probe} {s u : Service} {op : Op}

theorem onward_refl (run : Run) : run.Onward run := ⟨rfl, rfl, fun on => on⟩

theorem onward_trans {r r' r'' : Run} (first : r.Onward r') (second : r'.Onward r'') :
    r.Onward r'' :=
  ⟨second.id.trans first.id, second.owner.trans first.owner,
    fun on => first.active (second.active on)⟩

theorem onward_map {f : Run → Run} {xs ys : List Run} (before : List.Forall₂ Run.Onward xs ys)
    (onward : ∀ run ∈ ys, run.Onward (f run)) : List.Forall₂ Run.Onward xs (ys.map f) := by
  induction before with
  | nil => exact .nil
  | cons here rest ih =>
    obtain ⟨head, tail⟩ := List.forall_mem_cons.mp onward
    exact .cons (onward_trans here head) (ih tail)

theorem stalled_begin (positive : 0 < env.maxConcurrentRuns) (linked : s.db.Linked) :
    Stalled age probe env.maxConcurrentRuns s s := by
  refine ⟨linked, rfl, fun _ => rfl, rfl, fun _ _ => rfl, ?_, ?_⟩
  · rw [List.take_length]
    exact List.forall₂_same.mpr fun run _ => onward_refl run
  · rw [Service.younger, List.drop_length]
    exact past_begin positive _

theorem debts_kept (linked : u.db.Linked) (timely : u.Timely op) (within : op.within probe)
    (uncharged : u.charge age env op = 0) (kept : u.debt age ≤ (u.next env op).debt age) :
    ∀ a ∈ u.taskIds, (u.midway env op).debtOf age a = u.debtOf age a ∧
      (u.next env op).debtOf age a = u.debtOf age a := by
  have ids : (u.next env op).taskIds = u.taskIds := within_ids linked within
  have first := rise_eq_zero_iff.mp uncharged
  have second : ∀ a ∈ u.taskIds, (u.next env op).debtOf age a ≤ (u.midway env op).debtOf age a :=
    fun a mem => midway_debt linked timely mem
  unfold Service.debt at kept
  rw [ids] at kept
  have whole := sum_parts (fun a mem => (second a mem).trans (first a mem)) kept
  intro a mem
  have here := whole a mem
  have one := first a mem
  have two := second a mem
  exact ⟨by omega, here⟩

theorem stalled_step (steady : probe.Steady) (positive : 0 < env.maxConcurrentRuns)
    (stalled : Stalled age probe env.maxConcurrentRuns s u) (timely : u.Timely op)
    (within : op.within probe) (other : ∀ asked now stamps, op ≠ .dispatch asked now stamps)
    (uncharged : u.charge age env op = 0) (kept : u.debt age ≤ (u.next env op).debt age) :
    Stalled age probe env.maxConcurrentRuns s (u.next env op) := by
  have step : Step env u op (u.next env op) := ⟨timely, rfl⟩
  obtain ⟨isSource, create, update, delete⟩ := within_others within
  have fields := service_elsewhere stalled.linked step create update delete
  have debts := debts_kept stalled.linked timely within uncharged kept
  obtain ⟨f, rows, onward⟩ := runs_onward env stalled.linked within other
  have rows : (u.next env op).db.runs.rows = u.db.runs.rows.map f := rows
  have onward' : ∀ runs : List Run, runs.Sublist u.db.runs.rows →
      ∀ run ∈ runs, run.Onward (f run) :=
    fun runs part run mem => onward run (part.subset mem)
  refine ⟨(apply_sees stalled.linked step).1, (within_ids stalled.linked within).trans stalled.ids,
    fun id => (fields id).trans (stalled.fields id),
    (apply_sources stalled.linked step isSource).trans stalled.sources, ?_, ?_, ?_⟩
  · intro a mem
    exact (debts a (stalled.ids ▸ mem)).2.trans (stalled.debts a mem)
  · rw [rows, ← List.map_take]
    exact onward_map stalled.runs (onward' _ (List.take_sublist _ _))
  · refine past_ends positive stalled.past ?_ ?_
    · rw [Service.elder, scopesIn_congr steady fields, rows, ← List.map_take]
      exact scopesIn_onward (onward' _ (List.take_sublist _ _))
    · rw [Service.younger, scopesIn_congr steady fields, rows, ← List.map_drop]
      exact scopesIn_onward (onward' _ (List.drop_sublist _ _))

theorem sorted_parts {xs : List TaskDue} (sorted : xs.Pairwise fun a b => a.dueAt ≤ b.dueAt)
    (age : Int) :
    xs = xs.filter (fun row => decide (row.dueAt ≤ age)) ++
      xs.filter fun row => !decide (row.dueAt ≤ age) := by
  induction xs with
  | nil => rfl
  | cons row rows ih =>
    obtain ⟨first, rest⟩ := List.pairwise_cons.mp sorted
    by_cases old : row.dueAt ≤ age
    · rw [List.filter_cons_of_pos (by simp [old]), List.filter_cons_of_neg (by simp [old]),
        List.cons_append, ← ih rest]
    · have none : rows.filter (fun row => decide (row.dueAt ≤ age)) = [] := by
        refine List.filter_eq_nil_iff.mpr fun other mem => ?_
        have later := first other mem
        simp only [decide_eq_true_eq]
        omega
      have all : rows.filter (fun row => !decide (row.dueAt ≤ age)) = rows := by
        refine List.filter_eq_self.mpr fun other mem => ?_
        have later := first other mem
        simp only [Bool.not_eq_true', decide_eq_false_iff_not]
        omega
      rw [List.filter_cons_of_neg (by simp [old]), List.filter_cons_of_pos (by simp [old]), none,
        all]
      rfl

def oldRequests (age : Int) (probe : Probe) (db : Db) (now : Int) : List Scopes :=
  ((passRows db).filter fun row => decide (row.dueAt ≤ age)).filterMap (request probe db now)

def youngRequests (age : Int) (probe : Probe) (db : Db) (now : Int) : List Scopes :=
  ((passRows db).filter fun row => !decide (row.dueAt ≤ age)).filterMap (request probe db now)

theorem requests_parts (age : Int) (probe : Probe) (db : Db) (now : Int) :
    (passRows db).filterMap (request probe db now) =
      oldRequests age probe db now ++ youngRequests age probe db now := by
  have total : Std.Total fun a b : TaskDue => a.dueAt ≤ b.dueAt := ⟨fun a b => le_total _ _⟩
  have trans : IsTrans TaskDue fun a b => a.dueAt ≤ b.dueAt := ⟨fun _ _ _ => le_trans⟩
  have sorted : (passRows db).Pairwise fun a b => a.dueAt ≤ b.dueAt :=
    List.pairwise_insertionSort _ _
  rw [oldRequests, youngRequests, ← List.filterMap_append, ← sorted_parts sorted age]

theorem mem_oldRequests (probe : Probe) (u : Service) {job : Scopes} :
    job ∈ oldRequests age probe u.db u.clock ↔ u.Asks age probe job := by
  unfold oldRequests Service.Asks
  simp only [List.mem_filterMap, List.mem_filter, (passRows_spec u.db).1, decide_eq_true_eq,
    and_assoc]

theorem requests_apart (limit : Nat) (probe : Probe) (db : Db) (now : Int) {e y : Scopes}
    (old : e ∈ oldRequests age probe db now) (young : y ∈ youngRequests age probe db now)
    (unheld : (passRules limit).held y e = false) : (passRules limit).busy e y = false := by
  have tasks := requests_nodup probe db now (passRows_spec db).2
  rw [requests_parts age, List.map_append] at tasks
  have ne : e.task ≠ y.task := fun same =>
    (List.nodup_append.mp tasks).2.2 e.task (List.mem_map_of_mem old) y.task
      (List.mem_map_of_mem young) same
  rw [busy_comm]
  simp only [passRules, Bool.or_eq_false_iff] at unheld ⊢
  refine ⟨⟨?_, unheld.1⟩, unheld.2⟩
  unfold Scopes.sameTask
  cases named : y.task with
  | none => rfl
  | some task => simpa [named] using ne

theorem started_falls (linked : u.db.Linked) {now : Int} {stamps : List Stamp}
    (timely : u.Timely (.dispatch probe now stamps)) {row : TaskDue}
    (mem : row ∈ (settleAll u.db now).taskDue.rows) (old : row.dueAt ≤ age)
    (starts : (Pass.after env.maxConcurrentRuns probe (settleAll u.db now) now stamps
      (passRows (settleAll u.db now))).Started row) :
    (u.next env (.dispatch probe now stamps)).debtOf age row.taskId <
      (u.midway env (.dispatch probe now stamps)).debtOf age row.taskId := by
  have step : Step env u (.dispatch probe now stamps) (u.next env (.dispatch probe now stamps)) :=
    ⟨timely, rfl⟩
  obtain ⟨settled, -, -, -, -⟩ := settleAll_spec linked now
  have stored : (settleAll u.db now).taskDue.get row.taskId = some row := Table.get_of_mem mem
  obtain ⟨l, view, owed⟩ := view_of_row settled stored
  obtain ⟨l', view', picked⟩ := pass_picks env.maxConcurrentRuns probe settled
    (stamp_le_clock step (.inr rfl)).2 (fun stamp mem => stamp_le_clock step (.inl mem)) view
  obtain ⟨run, there, listed, owner⟩ := starts
  have more : l'.runs ≠ l.runs := by
    intro same
    have here := (mem_view_runs view').mpr ⟨there, owner⟩
    rw [same] at here
    exact (after_new there).1.mp ((mem_view_runs view).mp here).1 listed
  rw [debtOf_view (next_dispatch env u probe now stamps ▸ view'),
    debtOf_view (s := u.midway env (.dispatch probe now stamps)) view]
  rcases picked with rfl | ⟨row', owed', picks⟩
  · exact absurd rfl more
  · obtain rfl := Option.some.inj (owed.symm.trans owed')
    exact picks_started owed picks old more

section Pass
variable {now : Int} {stamps : List Stamp}

theorem settleAll_fields {db : Db} (linked : db.Linked) (now : Int) :
    SameFields db (settleAll db now) := fun id =>
  congrArg (fun t : Table Task => (t.get id).map Task.toTaskFields)
    (settleAll_spec linked now).2.2.1

theorem settleAll_ids {db : Db} (linked : db.Linked) (now : Int) :
    (settleAll db now).tasks.rows.map Task.id = db.tasks.rows.map Task.id :=
  congrArg (fun t : Table Task => t.rows.map Task.id) (settleAll_spec linked now).2.2.1

theorem stalled_asks (steady : probe.Steady) (linked : s.db.Linked)
    (stalled : Stalled age probe env.maxConcurrentRuns s u)
    (debts : ∀ a ∈ u.taskIds,
      (u.midway env (.dispatch probe now stamps)).debtOf age a = u.debtOf age a) (e : Scopes) :
    s.Asks age probe e ↔ e ∈ oldRequests age probe (settleAll u.db now) now := by
  let mid := u.midway env (.dispatch probe now stamps)
  obtain ⟨settled, sources, -, -, -⟩ := settleAll_spec stalled.linked now
  have ids : mid.taskIds = s.taskIds := (settleAll_ids stalled.linked now).trans stalled.ids
  have fields : SameFields s.db mid.db := fun id =>
    (settleAll_fields stalled.linked now id).trans (stalled.fields id)
  have owed : ∀ a ∈ s.taskIds, mid.debtOf age a = s.debtOf age a := fun a mem =>
    (debts a (stalled.ids ▸ mem)).trans (stalled.debts a mem)
  show _ ↔ e ∈ oldRequests age probe mid.db mid.clock
  rw [mem_oldRequests probe mid]
  constructor
  · refine asks_of_debts steady linked ids.symm (fun id => (fields id).symm)
      (sources.trans stalled.sources).symm fun a mem => ?_
    exact (owed a (ids ▸ mem)).symm
  · exact asks_of_debts steady settled ids fields (sources.trans stalled.sources) owed

theorem stalled_greedy (env : Env) (steady : probe.Steady) (linked : u.db.Linked) (age now : Int)
    (n : Nat) :
    greedyAfter env.maxConcurrentRuns probe (settleAll u.db now) now
        (passRows (settleAll u.db now)) =
      (passRules env.maxConcurrentRuns).pass
        (Greedy.State.begin (u.elder probe n ++ u.younger probe n))
        (oldRequests age probe (settleAll u.db now) now ++
          youngRequests age probe (settleAll u.db now) now) := by
  have before : activeScopes probe (settleAll u.db now) = u.elder probe n ++ u.younger probe n := by
    rw [← active_parts]
    show scopesIn probe _ (settleAll u.db now).runs.rows = scopesIn probe u.db u.db.runs.rows
    rw [(settleAll_spec linked now).2.2.2.1]
    exact scopesIn_congr steady (settleAll_fields linked now) _
  rw [← before, ← requests_parts]
  rfl

theorem stalled_rest (linked : u.db.Linked) (timely : u.Timely (.dispatch probe now stamps))
    (debts : ∀ a ∈ u.taskIds,
      (u.midway env (.dispatch probe now stamps)).debtOf age a = u.debtOf age a ∧
        (u.next env (.dispatch probe now stamps)).debtOf age a = u.debtOf age a) {e : Scopes}
    (listed : e ∈ oldRequests age probe (settleAll u.db now) now) :
    e ∉ (greedyAfter env.maxConcurrentRuns probe (settleAll u.db now) now
      (passRows (settleAll u.db now))).started := by
  intro starts
  obtain ⟨row, mem, asks⟩ := List.mem_filterMap.mp listed
  obtain ⟨mem, old⟩ := List.mem_filter.mp mem
  obtain ⟨member, unique⟩ := passRows_spec (settleAll u.db now)
  have started : (Pass.after env.maxConcurrentRuns probe (settleAll u.db now) now stamps
      (passRows (settleAll u.db now))).Started row := (after_started_iff unique mem asks).mpr starts
  have stored := (member row).mp mem
  have falls := started_falls linked timely stored (of_decide_eq_true old) started
  have known : row.taskId ∈ u.taskIds := by
    obtain ⟨l, view, -⟩ := view_of_row (settleAll_spec linked now).1 (Table.get_of_mem stored)
    have known : row.taskId ∈ Service.taskIds ⟨settleAll u.db now, now⟩ := mem_taskIds.mpr ⟨l, view⟩
    rwa [Service.taskIds, settleAll_ids linked now] at known
  obtain ⟨first, second⟩ := debts row.taskId known
  omega

/-- A pass while nothing of that age moves: something that ran at the outset is still running,
    and what the pass starts keeps clear of what waits. -/
theorem stalled_pass (steady : probe.Steady) (linked : s.db.Linked)
    (stalled : Stalled age probe env.maxConcurrentRuns s u)
    (timely : u.Timely (.dispatch probe now stamps))
    (uncharged : u.charge age env (.dispatch probe now stamps) = 0)
    (kept : u.debt age ≤ (u.next env (.dispatch probe now stamps)).debt age) {job : Scopes}
    (asks : s.Asks age probe job) :
    u.elder probe s.db.runs.rows.length ≠ [] ∧
      Stalled age probe env.maxConcurrentRuns s (u.next env (.dispatch probe now stamps)) := by
  have step : Step env u (.dispatch probe now stamps) (u.next env (.dispatch probe now stamps)) :=
    ⟨timely, rfl⟩
  have within : Op.within probe (.dispatch probe now stamps) := rfl
  obtain ⟨isSource, create, update, delete⟩ := within_others within
  have debts := debts_kept stalled.linked timely within uncharged kept
  have oldest := stalled_asks steady linked stalled fun a mem => (debts a mem).1
  have greedy := stalled_greedy env steady stalled.linked age now s.db.runs.rows.length
  obtain ⟨stays, past⟩ := past_pass stalled.past oldest
    (List.ne_nil_of_mem ((oldest job).mp asks))
    (fun e old y young unheld => requests_apart _ probe _ now old young unheld)
    (fun e listed => greedy ▸ stalled_rest stalled.linked timely debts listed)
  refine ⟨stays, ?_⟩
  rw [← greedy] at past
  have fields := service_elsewhere stalled.linked step create update delete
  obtain ⟨news, split, -, pending, owners⟩ := (after_simulates env.maxConcurrentRuns probe
    (settleAll u.db now) now stamps (passRows (settleAll u.db now))).runs
  have rows : (u.next env (.dispatch probe now stamps)).db.runs.rows = u.db.runs.rows ++ news := by
    have same := (settleAll_spec stalled.linked now).2.2.2.1
    rw [next_dispatch]
    exact split.trans (congrArg (fun t : Table Run => t.rows ++ news) same)
  have long : s.db.runs.rows.length ≤ u.db.runs.rows.length := by
    have lengths := stalled.runs.length_eq
    rw [List.length_take] at lengths
    omega
  have newScopes : scopesIn probe u.db news = (greedyAfter env.maxConcurrentRuns probe
      (settleAll u.db now) now (passRows (settleAll u.db now))).started := by
    rw [← scopesIn_congr steady (settleAll_fields stalled.linked now) news]
    exact scopesIn_news steady pending owners
  refine ⟨(apply_sees stalled.linked step).1,
    (within_ids stalled.linked within).trans stalled.ids,
    fun id => (fields id).trans (stalled.fields id),
    (apply_sources stalled.linked step isSource).trans stalled.sources, ?_, ?_, ?_⟩
  · intro a mem
    exact (debts a (stalled.ids ▸ mem)).2.trans (stalled.debts a mem)
  · rw [rows, List.take_append_of_le_length long]
    exact stalled.runs
  · rw [Service.elder, Service.younger, scopesIn_congr steady fields, scopesIn_congr steady fields,
      rows, List.take_append_of_le_length long, List.drop_append_of_le_length long,
      scopesIn_append, newScopes]
    exact past

end Pass

end Stalled

def Service.charged (age : Int) (env : Env) : Service → List Op → Nat
  | _, [] => 0
  | s, op :: ops => s.charge age env op + (s.next env op).charged age env ops

structure Round where
  body : List Op
  now : Int
  stamps : List Stamp

def Round.ops (probe : Probe) (r : Round) : List Op := r.body ++ [.dispatch probe r.now r.stamps]

/-- The service is left to itself in the round, and what ran at its beginning has ended when the
    pass comes. -/
structure Service.Paced (env : Env) (probe : Probe) (s : Service) (r : Round) : Prop where
  along : Along env (fun _ op => op.within probe) s (r.ops probe)
  done : ∀ run ∈ s.db.runs.rows, run.state.active = true →
    ∀ run' ∈ (s.exec env r.body).db.runs.rows, run'.id = run.id → run'.state.active = false

/-- An obligation as old as that could start now. -/
def Service.waits (age : Int) (probe : Probe) (s : Service) : Bool :=
  s.db.taskDue.rows.any fun row =>
    decide (row.dueAt ≤ age) && (request probe s.db s.clock row).isSome

def Service.rounds (env : Env) (probe : Probe) (s : Service) (rs : List Round) : Service :=
  s.exec env (rs.flatMap (Round.ops probe))

/-- The rounds that begin with an obligation as old as that in wait. -/
def Service.waiting (age : Int) (env : Env) (probe : Probe) : Service → List Round → Nat
  | _, [] => 0
  | s, r :: rs =>
    (if s.waits age probe then 1 else 0) + (s.exec env (r.ops probe)).waiting age env probe rs

section Rounds
variable {env : Env} {age : Int} {probe : Probe} {s u : Service} {ops more : List Op}

theorem exec_append (env : Env) (s : Service) (ops more : List Op) :
    s.exec env (ops ++ more) = (s.exec env ops).exec env more :=
  List.foldl_append

theorem charged_append (age : Int) (env : Env) (s : Service) (ops more : List Op) :
    s.charged age env (ops ++ more) =
      s.charged age env ops + (s.exec env ops).charged age env more := by
  induction ops generalizing s with
  | nil => simp [Service.charged, Service.exec]
  | cons op ops ih =>
    rw [List.cons_append, Service.charged, ih, Service.charged, Nat.add_assoc]
    rfl

theorem along_append {allow : Service → Op → Prop} :
    Along env allow s (ops ++ more) ↔
      Along env allow s ops ∧ Along env allow (s.exec env ops) more := by
  induction ops generalizing s with
  | nil => simp [Along, Service.exec]
  | cons op ops ih =>
    simp only [List.cons_append, Along, ih, and_assoc]
    rfl

theorem exec_linked {allow : Service → Op → Prop} (linked : s.db.Linked)
    (along : Along env allow s ops) :
    (s.exec env ops).db.Linked :=
  linked_trace (trace_mono (fun _ _ _ step => step.1) (trace_along along)) linked

theorem exec_debt (age : Int) (linked : s.db.Linked)
    (along : Along env (fun _ op => op.within probe) s ops) :
    (s.exec env ops).debt age ≤ s.debt age + s.charged age env ops := by
  induction ops generalizing s with
  | nil => exact le_rfl
  | cons op ops ih =>
    have first := next_debt env age linked along.1.1 along.1.2
    have step : Step env s op (s.next env op) := ⟨along.1.1, rfl⟩
    have linked' := (apply_sees linked step).1
    have rest := ih linked' along.2
    change ((s.next env op).exec env ops).debt age ≤ _
    rw [Service.charged]
    omega

theorem exec_stalled (steady : probe.Steady) (positive : 0 < env.maxConcurrentRuns)
    (linked : s.db.Linked)
    (stalled : Stalled age probe env.maxConcurrentRuns s u)
    (along : Along env (fun _ op => op.within probe) u ops) (uncharged : u.charged age env ops = 0)
    (kept : u.debt age ≤ (u.exec env ops).debt age) {job : Scopes} (asks : s.Asks age probe job) :
    Stalled age probe env.maxConcurrentRuns s (u.exec env ops) := by
  induction ops generalizing u with
  | nil => exact stalled
  | cons op ops ih =>
    obtain ⟨⟨timely, within⟩, rest⟩ := along
    rw [Service.charged, Nat.add_eq_zero_iff] at uncharged
    have step : Step env u op (u.next env op) := ⟨timely, rfl⟩
    have linked' := (apply_sees stalled.linked step).1
    have first := next_debt env age stalled.linked timely within
    have later := exec_debt age linked' rest
    change u.debt age ≤ ((u.next env op).exec env ops).debt age at kept
    refine ih ?_ rest uncharged.2 (by omega)
    cases op with
    | dispatch asked now stamps =>
      obtain rfl : asked = probe := within
      exact (stalled_pass steady linked stalled timely uncharged.1 (by omega) asks).2
    | _ =>
      refine stalled_step steady positive stalled timely within ?_ uncharged.1 (by omega)
      intro _ _ _ same
      cases same

theorem waits_iff : s.waits age probe = true ↔ ∃ job, s.Asks age probe job := by
  simp only [Service.waits, Service.Asks, List.any_eq_true, Bool.and_eq_true, decide_eq_true_eq,
    Option.isSome_iff_exists]
  constructor
  · rintro ⟨row, mem, old, job, asks⟩
    exact ⟨job, row, mem, old, asks⟩
  · rintro ⟨job, row, mem, old, asks⟩
    exact ⟨row, mem, old, job, asks⟩

theorem elder_over (stalled : Stalled age probe env.maxConcurrentRuns s u)
    (done : ∀ run ∈ s.db.runs.rows, run.state.active = true →
      ∀ run' ∈ u.db.runs.rows, run'.id = run.id → run'.state.active = false) :
    u.elder probe s.db.runs.rows.length = [] := by
  have inactive : ∀ xs ys : List Run, List.Forall₂ Run.Onward xs ys →
      (∀ run ∈ xs, run ∈ s.db.runs.rows) → (∀ run ∈ ys, run ∈ u.db.runs.rows) →
      ys.filter (fun r => r.state.active) = [] := by
    intro xs ys onward here there
    induction onward with
    | nil => rfl
    | @cons run run' xs ys first rest ih =>
      obtain ⟨mem, here⟩ := List.forall_mem_cons.mp here
      obtain ⟨mem', there⟩ := List.forall_mem_cons.mp there
      have ended : ¬ run'.state.active = true := by
        intro active
        rw [done run mem (first.active active) run' mem' first.id] at active
        cases active
      rw [List.filter_cons, if_neg ended]
      exact ih here there
  rw [Service.elder, scopesIn, inactive _ _ stalled.runs (fun _ mem => mem)
    fun _ mem => List.mem_of_mem_take mem, List.map_nil]

/-- A round that begins with an obligation of that age in wait takes from what the obligations
    of that age may still ask, unless such debt comes in. -/
theorem round_progress (steady : probe.Steady) (positive : 0 < env.maxConcurrentRuns)
    (linked : s.db.Linked) {r : Round} (paced : s.Paced env probe r) (waits : s.waits age probe = true) :
    (s.exec env (r.ops probe)).debt age + 1 ≤ s.debt age + 2 * s.charged age env (r.ops probe) := by
  have whole := exec_debt age linked paced.along
  by_contra still
  have uncharged : s.charged age env (r.ops probe) = 0 := by omega
  have kept : s.debt age ≤ (s.exec env (r.ops probe)).debt age := by omega
  obtain ⟨job, asks⟩ := waits_iff.mp waits
  obtain ⟨body, ⟨⟨timely, within⟩, -⟩⟩ := along_append.mp paced.along
  rw [Round.ops, charged_append, Nat.add_eq_zero_iff] at uncharged
  obtain ⟨quiet, last, -⟩ : s.charged age env r.body = 0 ∧
      (s.exec env r.body).charge age env (.dispatch probe r.now r.stamps) = 0 ∧ _ :=
    ⟨uncharged.1, Nat.add_eq_zero_iff.mp uncharged.2⟩
  have first := exec_debt age linked body
  have second := next_debt env age (exec_linked linked body) timely within
  rw [Round.ops, exec_append] at kept
  change s.debt age ≤
    ((s.exec env r.body).next env (.dispatch probe r.now r.stamps)).debt age at kept
  have stalled := exec_stalled steady positive linked (stalled_begin positive linked) body quiet
    (by omega) asks
  exact (stalled_pass steady linked stalled timely last (by omega) asks).1
    (elder_over stalled paced.done)

theorem rounds_drain (steady : probe.Steady) (positive : 0 < env.maxConcurrentRuns)
    (linked : s.db.Linked) {rs : List Round}
    (paced : EveryStep (fun s r => s.exec env (Round.ops probe r)) (Service.Paced env probe) s rs) :
    s.waiting age env probe rs + (s.rounds env probe rs).debt age ≤
      s.debt age + 2 * s.charged age env (rs.flatMap (Round.ops probe)) := by
  induction rs generalizing s with
  | nil => simp [Service.waiting, Service.rounds, Service.exec]
  | cons r rs ih =>
    have rest := ih (exec_linked linked paced.1.along) paced.2
    have whole := exec_debt age linked paced.1.along
    simp only [Service.rounds, List.flatMap_cons, exec_append, charged_append,
      Service.waiting] at rest ⊢
    cases waits : s.waits age probe with
    | true =>
      have first := round_progress steady positive linked paced.1 waits
      simp only [if_true]
      omega
    | false =>
      simp only [Bool.false_eq_true, if_false]
      omega

theorem owedDebt_le {runs : List Run} {due : Option TaskDue} (sound : ∀ row ∈ due, row.Sound runs)
    (age now : Int) : owedDebt age now due ≤ if due.isSome then 2 * followUpWeight else 0 := by
  cases due with
  | none => exact le_rfl
  | some row =>
    have counted := (sound row rfl).counted.1
    have light : row.weight now ≤ followUpWeight := by
      unfold TaskDue.weight followUpWeight TaskDue.left maxAutomaticRetries
      cases row.status <;> dsimp only
      all_goals repeat' split
      all_goals omega
    simp only [owedDebt, TaskDue.debt, Option.isSome_some, if_true]
    split_ifs <;> omega

theorem debt_le (reachable : Reachable env s) (age : Int) :
    s.debt age ≤ 2 * followUpWeight * s.taskIds.countP fun a => (s.db.taskDue.get a).isSome := by
  have each : ∀ a ∈ s.taskIds,
      s.debtOf age a ≤ if (s.db.taskDue.get a).isSome then 2 * followUpWeight else 0 := by
    intro a mem
    obtain ⟨l, view⟩ := mem_taskIds.mp mem
    have sound := reachable_sound reachable view
    refine owedDebt_le (fun row owed => sound row ?_) age s.clock
    rw [(view_runs view).2.2.1]
    exact owed
  unfold Service.debt
  generalize s.taskIds = ids at each
  induction ids with
  | nil => simp
  | cons a ids ih =>
    obtain ⟨here, rest⟩ := List.forall_mem_cons.mp each
    have tails := ih rest
    rw [List.map_cons, List.sum_cons, List.countP_cons, Nat.mul_add]
    split at here
    · rename_i owed
      rw [if_pos owed]
      omega
    · rename_i unowed
      rw [if_neg unowed]
      omega

theorem exec_uncharged (age : Int) (reachable : Reachable env s)
    (along : Along env (fun u op => op.closed = true ∧
      ∀ row ∈ u.db.taskDue.rows, row.Calm (u.next env op).db.runs.rows) s ops) :
    s.charged age env ops = 0 := by
  induction ops generalizing s with
  | nil => rfl
  | cons op ops ih =>
    obtain ⟨⟨timely, closed, calm⟩, rest⟩ := along
    have step : Step env s op (s.next env op) := ⟨timely, rfl⟩
    rw [Service.charged, closed_uncharged reachable timely closed calm age,
      ih (reachable_step reachable step) rest]

/-- No starvation: of the rounds of a history of the service left to itself, no more begin with
    an obligation of that age in wait than there was of such debt and came in twice over; and
    where the backlog is only worked off, and no run fails for a reason of the installation,
    none comes in. An obligation is no more than 42 of it. -/
theorem backlog_drains (steady : probe.Steady) (positive : 0 < env.maxConcurrentRuns)
    (reachable : Reachable env s) (rs : List Round)
    (paced : EveryStep (fun s r => s.exec env (Round.ops probe r)) (Service.Paced env probe) s rs) :
    s.waiting age env probe rs + (s.rounds env probe rs).debt age ≤
        s.debt age + 2 * s.charged age env (rs.flatMap (Round.ops probe)) ∧
      (Along env (fun u op => op.closed = true ∧
          ∀ row ∈ u.db.taskDue.rows, row.Calm (u.next env op).db.runs.rows)
          s (rs.flatMap (Round.ops probe)) →
        s.waiting age env probe rs ≤ s.debt age) ∧
      s.debt age ≤ 2 * followUpWeight * s.taskIds.countP fun a => (s.db.taskDue.get a).isSome := by
  have drains : s.waiting age env probe rs + (s.rounds env probe rs).debt age ≤ _ :=
    rounds_drain steady positive (reachable_linked reachable) paced
  refine ⟨drains, fun along => ?_, debt_le reachable age⟩
  have none := exec_uncharged age reachable along
  omega

end Rounds

namespace Sample

theorem probe_steady : probe.Steady where
  fields := fun _ _ same => congrArg (fun data : TaskFields => some ["backup", data.localPath]) same
  checked := fun _ _ _ => rfl

/-- Two tasks are due in the same minute, and there is a place for one. -/
def crowded : Service :=
  (Service.init 0).exec env
    [.createSource source 0, .createSource { source with name := "attic" } 0, .createTask fields 0,
      .createTask { fields with sourceId := 2, localPath := "/backup/attic" } 0,
      .reconcile 1 (seconds 10), .reconcile 2 (seconds 10), .tick 1 (seconds 60),
      .tick 2 (seconds 60),
      .dispatch probe (seconds 61) [stamp 61], .start 1 (seconds 62)]

theorem crowded_reachable : Reachable env crowded := reachable_exec 0 (by decide)

def handover : Round := ⟨[.finish 1 (.exited 0) false {} (seconds 100)], seconds 101, [stamp 101]⟩

end Sample

open Sample in
theorem crowded_drains :
    crowded.waiting (seconds 60) env probe [handover] = 1 ∧ crowded.debt (seconds 60) = 37 ∧
      (crowded.rounds env probe [handover]).debt (seconds 60) = 18 ∧
      crowded.waiting (seconds 60) env probe [handover] ≤ crowded.debt (seconds 60) := by
  have paced : crowded.Paced env probe handover :=
    ⟨⟨⟨by decide, trivial⟩, ⟨by decide, rfl⟩, trivial⟩, by decide⟩
  refine ⟨by decide, by decide, by decide, ?_⟩
  exact (backlog_drains probe_steady (by decide) crowded_reachable [handover] ⟨paced, trivial⟩).2.1
    (by decide)

end Pullbackup
