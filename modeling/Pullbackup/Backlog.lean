import Mathlib.Algebra.Order.BigOperators.Group.List
import Pullbackup.Exclusivity
import Pullbackup.Fairness
import Pullbackup.Obligation
import Pullbackup.Registry

/- How much the obligations of a given age may still take of the dispatcher, and what brings
   such debt in. -/
namespace Pullbackup
open KeyedTable History

def TaskDue.left (row : TaskDue) : Nat := (maxAutomaticRetries + 1 - row.attempts).toNat

/-- An attempt is a wait for its instant, a wait for its start and a run. -/
def TaskDue.weight (now : Int) (row : TaskDue) : Nat :=
  match row.status with
  | .dispatched => 3 * row.left
  | .due => 3 * row.left + 1
  | .retry => if row.ripe now then 3 * row.left + 1 else 3 * row.left + 2
  | .exhausted => 0
  -- the run of a blocked row is still in flight, and its failure makes a retry of the row
  | .blocked => if row.runId = none then 0 else 3 * row.left

/-- More than a row weighs that has its whole budget. -/
def followUpWeight : Nat := 3 * (maxAutomaticRetries + 2).toNat

/-- What a row counts with the occurrences up to age that it owes. -/
def TaskDue.debt (age now : Int) (row : TaskDue) : Nat :=
  (if row.dueAt ≤ age then row.weight now else 0) +
    if row.newerDueAt.any fun instant => min row.dueAt instant ≤ age then followUpWeight else 0

def owedDebt (age now : Int) : Option TaskDue → Nat
  | none => 0
  | some row => row.debt age now

def Service.debtOf (age : Int) (s : Service) (task : Nat) : Nat :=
  owedDebt age s.clock (s.db.taskDue.get task)

def Service.taskIds (s : Service) : List Nat := s.db.tasks.rows.map Task.id

def Service.debt (age : Int) (s : Service) : Nat := (s.taskIds.map (s.debtOf age)).sum

def Service.rise (age : Int) (s t : Service) : Nat :=
  (s.taskIds.map fun task => t.debtOf age task - s.debtOf age task).sum

/-- What a pass starts from; of any other transaction, what it leaves. -/
def Service.midway (env : Env) (s : Service) : Op → Service
  | .dispatch _ now _ => ⟨settleAll s.db now, now⟩
  | op => s.next env op

/-- The debt of that age that a transaction brings in. -/
def Service.charge (age : Int) (env : Env) (s : Service) (op : Op) : Nat :=
  s.rise age (s.midway env op)

section Rows
variable {age now later : Int} {row row' : TaskDue} {runs : List Run}

theorem ripe_later (time : now ≤ later) (ripe : row.ripe now = true) : row.ripe later = true := by
  rw [ripe_iff] at ripe ⊢
  rcases ripe with due | ⟨retry, passed⟩
  · exact .inl due
  · exact .inr ⟨retry, fun instant moment => (passed instant moment).trans time⟩

theorem weight_later (time : now ≤ later) (row : TaskDue) : row.weight later ≤ row.weight now := by
  unfold TaskDue.weight
  cases status : row.status <;> simp only [le_refl]
  by_cases ripe : row.ripe now = true
  · rw [if_pos ripe, if_pos (ripe_later time ripe)]
  · rw [if_neg ripe]
    split <;> omega

theorem owedDebt_later (time : now ≤ later) (due : Option TaskDue) :
    owedDebt age later due ≤ owedDebt age now due := by
  cases due with
  | none => exact le_rfl
  | some row =>
    have lighter := weight_later time row
    simp only [owedDebt, TaskDue.debt]
    split <;> omega

/-- A row of that age can start now if and only if its debt says so. -/
theorem debt_mod (age now : Int) (row : TaskDue) :
    row.debt age now % 3 = 1 ↔ row.dueAt ≤ age ∧ row.ripe now = true := by
  have whole : ∀ n, (n +
      if row.newerDueAt.any (fun instant => decide (min row.dueAt instant ≤ age)) then followUpWeight
      else 0) % 3 = n % 3 := by
    intro n
    unfold followUpWeight
    split <;> omega
  unfold TaskDue.debt
  rw [whole]
  by_cases old : row.dueAt ≤ age
  · rw [if_pos old]
    unfold TaskDue.weight
    cases status : row.status with
    | due => simp [old, TaskDue.ripe, status]
    | retry =>
      by_cases ripe : row.ripe now = true
      · rw [if_pos ripe]
        simp only [old, ripe, true_and, iff_true]
        omega
      · rw [if_neg ripe]
        constructor
        · intro rest
          dsimp only at rest
          omega
        · exact fun both => absurd both.2 ripe
    | dispatched => simp [TaskDue.ripe, status]
    | exhausted => simp [TaskDue.ripe, status]
    | blocked =>
      simp only [TaskDue.ripe, status]
      split <;> simp
  · simp [old]

theorem debt_dispatched (ready : row.Ready now) (old : row.dueAt ≤ age) (id : Nat)
    (stamp later : Int) :
    (row.dispatchedTo id stamp).debt age later < row.debt age now := by
  have ripe := ripe_iff.mpr ready
  have weight : row.weight now = 3 * row.left + 1 := by
    unfold TaskDue.weight
    rcases ready with due | ⟨retry, -⟩
    · simp [due]
    · simp [retry, ripe]
  have lighter : (row.dispatchedTo id stamp).weight later = 3 * row.left := rfl
  have marker : (row.dispatchedTo id stamp).newerDueAt = row.newerDueAt := rfl
  have instant : (row.dispatchedTo id stamp).dueAt = row.dueAt := rfl
  unfold TaskDue.debt
  rw [weight, lighter, marker, instant, if_pos old, if_pos old]
  omega

theorem debt_dispatched_le (ready : row.Ready now) (id : Nat) (stamp later : Int) :
    (row.dispatchedTo id stamp).debt age later ≤ row.debt age now := by
  by_cases old : row.dueAt ≤ age
  · exact (debt_dispatched ready old id stamp later).le
  · have marker : (row.dispatchedTo id stamp).newerDueAt = row.newerDueAt := rfl
    have instant : (row.dispatchedTo id stamp).dueAt = row.dueAt := rfl
    unfold TaskDue.debt
    rw [marker, instant, if_neg old, if_neg old]

theorem debt_unmarked {n : Nat} (unmarked : row.newerDueAt = none)
    (light : row.dueAt ≤ age → row.weight now ≤ n) : row.debt age now ≤ n := by
  unfold TaskDue.debt
  simp only [unmarked, Option.any_none, Bool.false_eq_true, if_false, Nat.add_zero]
  split
  · rename_i old
    exact light old
  · exact Nat.zero_le n

theorem debt_marked {instant : Int} (now : Int) (marked : row.newerDueAt = some instant)
    (old : min row.dueAt instant ≤ age) : followUpWeight ≤ row.debt age now := by
  simp only [TaskDue.debt, marked, Option.any_some, decide_eq_true_eq, if_pos old]
  exact Nat.le_add_left _ _

theorem weight_le_debt (now : Int) (old : row.dueAt ≤ age) : row.weight now ≤ row.debt age now := by
  unfold TaskDue.debt
  rw [if_pos old]
  exact Nat.le_add_right _ _

theorem weight_renewed (now : Int) (due : row.status = .due) (attempts : row.attempts = 0) :
    row.weight now ≤ followUpWeight := by
  simp only [TaskDue.weight, due, TaskDue.left, attempts, followUpWeight, maxAutomaticRetries]
  omega

theorem debt_finish {newer : Option Int} (row : TaskDue)
    (marked : ∀ instant, newer = some instant → row.newerDueAt = some instant) (stamp later : Int) :
    owedDebt age later (finish row newer stamp) ≤ row.debt age now := by
  cases paid : finish row newer stamp with
  | none => exact Nat.zero_le _
  | some row' =>
    obtain ⟨instant, promised, rfl⟩ := finish_eq_some paid
    refine debt_unmarked rfl fun old => ?_
    exact (weight_renewed later rfl rfl).trans
      (debt_marked now (marked instant promised) ((min_le_right _ _).trans old))

theorem debt_dropped {instant : Int} (row : TaskDue) (marked : row.newerDueAt = some instant)
    (time : now ≤ later) (stamp : Int) :
    TaskDue.debt age later { (if row.status = .exhausted then
      ({ row with newerDueAt := none } : TaskDue).rearm else { row with newerDueAt := none }) with
        updatedAt := stamp } ≤ row.debt age now := by
  split
  · refine debt_unmarked rfl fun old => ?_
    exact (weight_renewed later rfl rfl).trans
      (debt_marked now marked ((min_le_left _ _).trans old))
  · refine debt_unmarked rfl fun old => ?_
    exact (weight_later time row).trans (weight_le_debt now old)

theorem weight_attached (sound : row.Sound runs) (attached : row.runId ≠ none) (now : Int) :
    3 * row.left ≤ row.weight now := by
  unfold TaskDue.weight
  cases status : row.status with
  | dispatched => exact le_rfl
  | due => exact Nat.le_succ _
  | retry => exact absurd (sound.retry status).2.2.2 attached
  | exhausted => exact absurd (sound.exhausted status).2.2 attached
  | blocked => simp [attached]

theorem debt_failOutcome (sound : row.Sound runs) (attached : row.runId ≠ none) {message : String}
    (own : isInfrastructure message = false) (stamp later : Int) :
    (failOutcome row message stamp).debt age later ≤ row.debt age now := by
  have before := weight_attached sound attached now
  have kept : (failOutcome row message stamp).dueAt = row.dueAt ∧
      (failOutcome row message stamp).newerDueAt = row.newerDueAt := by
    unfold failOutcome
    repeat' split
    all_goals exact ⟨rfl, rfl⟩
  have after : (failOutcome row message stamp).weight later ≤ 3 * row.left := by
    unfold failOutcome
    rw [if_neg (by simp [own])]
    split
    · exact Nat.zero_le _
    split
    · exact Nat.zero_le _
    · rename_i more
      simp only [TaskDue.weight, TaskDue.left]
      split <;> omega
  unfold TaskDue.debt
  rw [kept.1, kept.2]
  split <;> omega

/-- The run of the row has not failed for a reason of the installation. -/
def TaskDue.Calm (runs : List Run) (row : TaskDue) : Prop :=
  ∀ run ∈ runs, row.runId = some run.id → run.state = .failed →
    isInfrastructure run.errorMessage = false

instance (runs : List Run) (row : TaskDue) : Decidable (row.Calm runs) :=
  inferInstanceAs (Decidable (∀ run ∈ runs, row.runId = some run.id → run.state = .failed →
    isInfrastructure run.errorMessage = false))

theorem debt_outcome (sound : row.Sound runs) {run : Run} (attached : row.runId = some run.id)
    (calm : run.state = .failed → isInfrastructure run.errorMessage = false)
    (time : now ≤ later) (stamp : Int) :
    owedDebt age later (applyRunOutcome row run stamp) ≤ row.debt age now := by
  unfold applyRunOutcome
  cases state : run.state with
  | pending => exact owedDebt_later time (some row)
  | running => exact owedDebt_later time (some row)
  | success => exact debt_finish row (fun _ same => same) stamp later
  | cancelled => exact Nat.zero_le _
  | failed => exact debt_failOutcome sound (by simp [attached]) (calm state) stamp later

theorem debt_settled (sound : row.Sound runs) (calm : row.Calm runs) (time : now ≤ later)
    (stamp : Int) :
    owedDebt age later (settleRow runs row stamp) ≤ row.debt age now := by
  have settled := settleRow_settled runs row stamp
  generalize settleRow runs row stamp = due at settled ⊢
  cases settled with
  | missing dispatched gone => exact absurd gone (sound.found dispatched)
  | active dispatched mem attached active => exact owedDebt_later time (some row)
  | succeeded dispatched mem attached success =>
    exact debt_finish row (fun _ same => same) stamp later
  | cancelled dispatched mem attached cancelled => exact Nat.zero_le _
  | failed dispatched mem attached failed =>
    exact debt_failOutcome sound (by simp [attached]) (calm _ mem attached failed) stamp later
  | blocked blocked => exact owedDebt_later time (some row)
  | paid isOpen mem owner success pays last =>
    refine debt_finish row (fun instant same => ?_) stamp later
    exact (Option.filter_eq_some_iff.mp same).1
  | unmarked isOpen unpaid marked idle =>
    obtain ⟨instant, marker⟩ := Option.ne_none_iff_exists'.mp marked
    exact debt_dropped row marker time stamp
  | owed isOpen unpaid => exact owedDebt_later time (some row)

end Rows

/-- Transactions that work off what is owed. -/
def Op.closed : Op → Bool
  | .settle _ | .dispatch .. | .start .. | .finish .. | .abandon .. | .sweep .. | .restart _ => true
  | _ => false

section Views
variable {env : Env} {a : Nat} {age lo hi now : Int} {op : Op} {l l' : Ledger}

theorem settle_debt (sound : l.Sound) (calm : ∀ row, l.due = some row → row.Calm l.runs)
    (time : lo ≤ hi) (now : Int) :
    owedDebt age hi (l.settle now).due ≤ owedDebt age lo l.due := by
  cases owed : l.due with
  | none => simp [Ledger.settle, owed, owedDebt]
  | some row =>
    have settled : (l.settle now).due = settleRow l.runs row now := by simp [Ledger.settle, owed]
    rw [settled]
    exact debt_settled (sound row owed) (calm row owed) time now

theorem endRun_debt (sound : l.Sound) {run : Run}
    (calm : ∀ row, l.due = some row → row.runId = some run.id → run.state = .failed →
      isInfrastructure run.errorMessage = false) (time : lo ≤ hi) (now : Int) :
    owedDebt age hi (l.endRun run now).due ≤ owedDebt age lo l.due := by
  cases owed : l.due with
  | none =>
    rw [endRun_of_none owed]
    simp [owed, owedDebt]
  | some row =>
    by_cases attached : row.runId = some run.id
    · rw [endRun_of_attached owed attached]
      exact debt_outcome (sound row owed) attached (calm row owed attached) time now
    · rw [endRun_of_other owed attached]
      exact owed ▸ owedDebt_later time l.due

theorem effect_debt (effect : Effect env a lo hi op l l') (closed : op.closed = true)
    (other : ∀ probe now stamps, op ≠ .dispatch probe now stamps) (time : lo ≤ hi) (sound : l.Sound)
    (calm : ∀ row, l.due = some row → row.Calm l'.runs) :
    owedDebt age hi l'.due ≤ owedDebt age lo l.due := by
  cases effect with
  | idle => exact owedDebt_later time l.due
  | settle here => exact settle_debt sound calm time _
  | start here mem pending => exact owedDebt_later time l.due
  | abandon here mem active failed => exact owedDebt_later time l.due
  | sweep here => exact owedDebt_later time l.due
  | restart here => exact owedDebt_later time l.due
  | finish here mem running =>
    refine endRun_debt sound (fun row owed attached failed => ?_) time _
    exact calm row owed _ (mem_swapRun_self mem rfl) attached failed
  | pass | drop | wait | launch => exact absurd rfl (other _ _ _)
  | reconcile | tick | runNow | update => cases closed

theorem picks_debt {row : TaskDue} (owed : l.due = some row) (picks : Picks now hi a row l l')
    (time : now ≤ hi) : owedDebt age hi l'.due ≤ owedDebt age now l.due := by
  cases picks with
  | left => exact owedDebt_later time l.due
  | dropped other disabled => exact Nat.zero_le _
  | waited ready =>
    rw [owed]
    exact owedDebt_later time (some row)
  | started ready enabled quiet fresh here =>
    rw [owed]
    exact debt_dispatched_le ready _ _ _

theorem picks_started {row : TaskDue} (owed : l.due = some row) (picks : Picks now hi a row l l')
    (old : row.dueAt ≤ age) (more : l'.runs ≠ l.runs) :
    owedDebt age hi l'.due < owedDebt age now l.due := by
  cases picks with
  | left => exact absurd rfl more
  | dropped other disabled => exact absurd rfl more
  | waited ready => exact absurd rfl more
  | started ready enabled quiet fresh here =>
    rw [owed]
    exact debt_dispatched ready old _ _ _

end Views

/-- What the service does of itself, with the destinations as they are. -/
def Op.within (probe : Probe) : Op → Prop
  | .dispatch asked _ _ => asked = probe
  | .reconcile .. | .tick .. | .settle _ | .start .. | .finish .. | .abandon .. | .sweep ..
  | .restart _ => True
  | _ => False

/-- The rows of a run table as they go on: nothing that has ended becomes active. -/
structure Run.Onward (run run' : Run) : Prop where
  id : run'.id = run.id
  owner : run'.taskId = run.taskId
  active : run'.state.active = true → run.state.active = true

section Frames
variable {db : Db} {env : Env} {op : Op}

theorem onLedger_ids (t : Nat) (f : Ledger → Ledger) (follows : ∀ l, Follows l (f l)) :
    (db.onLedger t f).tasks.rows.map Task.id = db.tasks.rows.map Task.id := by
  cases found : db.ledger t with
  | none => rw [onLedger_none found]
  | some l =>
    have shape : (db.onLedger t f).tasks = db.tasks.put (f l).task := by simp [Db.onLedger, found]
    obtain ⟨task, stored, rfl⟩ := Option.map_eq_some_iff.mp found
    have same := (follows { task := task, due := db.taskDue.get t, runs := db.runs.rows }).task
    rw [shape]
    change (putRow _ db.tasks.rows).map Task.id = _
    rw [putRow_of_mem db.tasks.unique ⟨task, Table.mem_of_get stored, same.symm⟩, List.map_map]
    refine List.map_congr_left fun other _ => ?_
    rw [Function.comp_apply]
    split
    · rename_i key
      exact key.symm
    · rfl

theorem onLedger_runs (t : Nat) (f : Ledger → Ledger) : (db.onLedger t f).runs = db.runs := by
  unfold Db.onLedger
  split <;> rfl

theorem put_onward {new old : Run} (mem : old ∈ db.runs.rows) (id : new.id = old.id)
    (owner : new.taskId = old.taskId) (active : new.state.active = true → old.state.active = true) :
    ∃ f, (db.runs.put new).rows = db.runs.rows.map f ∧
      ∀ run ∈ db.runs.rows, run.Onward (f run) := by
  refine ⟨swapRun new, swap_rows ⟨old, mem, id.symm⟩, fun run here => ?_⟩
  refine ⟨swapRun_id new run, swapRun_owner mem id owner run here, fun on => ?_⟩
  unfold swapRun at on
  split at on
  · rename_i same
    obtain rfl := Table.key_injective here mem (same.trans id)
    exact active on
  · exact on

theorem runs_onward (env : Env) {probe : Probe} (linked : db.Linked) (within : op.within probe)
    (other : ∀ probe now stamps, op ≠ .dispatch probe now stamps) :
    ∃ f, (apply env op db).runs.rows = db.runs.rows.map f ∧
      ∀ run ∈ db.runs.rows, run.Onward (f run) := by
  have same : ∀ db' : Db, db'.runs = db.runs → ∃ f, db'.runs.rows = db.runs.rows.map f ∧
      ∀ run ∈ db.runs.rows, run.Onward (f run) :=
    fun db' kept => ⟨id, by rw [kept, List.map_id], fun run _ => ⟨rfl, rfl, fun on => on⟩⟩
  cases op with
  | reconcile t now => exact same _ (onLedger_runs t _)
  | tick t now => exact same _ (onLedger_runs t _)
  | settle now => exact same _ (settleAll_spec linked now).2.2.2.1
  | dispatch probe now stamps => exact absurd rfl (other _ _ _)
  | start run now =>
    show ∃ f, (db.orElse (startRun db run now)).runs.rows = _ ∧ _
    unfold startRun
    cases stored : db.runs.get run with
    | none => exact same _ rfl
    | some old =>
      dsimp only
      split
      · exact same _ rfl
      · rename_i pending
        exact put_onward (Table.mem_of_get stored) rfl rfl fun _ => by simp [not_not.mp pending]
  | finish run ending requested stats now =>
    simp only [apply]
    split
    · rename_i running
      cases stored : db.runs.get run with
      | none => simp [stored] at running
      | some old =>
        have ended := terminal_ended old ending requested stats now
        have written : (finishRun db run ending requested stats now).runs =
            db.runs.put (old.terminal ending requested stats now) := by
          unfold finishRun
          rw [stored]
          dsimp only
          split <;> rfl
        rw [written]
        refine put_onward (Table.mem_of_get stored) rfl rfl fun on => ?_
        rw [ended] at on
        cases on
    · exact same _ rfl
  | abandon run reason requested now =>
    show ∃ f, (terminalizeOwnedRun db run reason.message requested now).1.runs.rows = _ ∧ _
    unfold terminalizeOwnedRun
    cases stored : db.runs.get run with
    | none => exact same _ rfl
    | some old =>
      dsimp only
      split
      · rename_i active
        refine put_onward (Table.mem_of_get stored) ?_ ?_ fun _ => active
        · split <;> rfl
        · split <;> rfl
      · exact same _ rfl
  | sweep owners now =>
    refine ⟨_, rfl, fun run mem => ?_⟩
    split
    · exact ⟨rfl, rfl, fun on => by cases on⟩
    · exact ⟨rfl, rfl, fun on => on⟩
  | restart now =>
    refine ⟨_, rfl, fun run mem => ?_⟩
    split
    · exact ⟨rfl, rfl, fun on => by cases on⟩
    · exact ⟨rfl, rfl, fun on => on⟩
  | runNow | createTask | updateTask | deleteTask | createSource | updateSource | deleteSource =>
    cases within

theorem within_ids {probe : Probe} (linked : db.Linked) (within : op.within probe) :
    (apply env op db).tasks.rows.map Task.id = db.tasks.rows.map Task.id := by
  cases op with
  | reconcile t now => exact onLedger_ids t _ fun l => reconcileOne_follows env.trig l now
  | tick t now => exact onLedger_ids t _ fun l => recordTick_follows env.trig l now
  | settle now => exact congrArg (fun t => t.rows.map Task.id) (settleAll_spec linked now).2.2.1
  | dispatch asked now stamps =>
    have pass := (after_simulates env.maxConcurrentRuns asked (settleAll db now) now stamps
      (passRows (settleAll db now))).tasks
    exact congrArg (fun t => t.rows.map Task.id) (pass.trans (settleAll_spec linked now).2.2.1)
  | start run now =>
    show (db.orElse (startRun db run now)).tasks.rows.map Task.id = _
    unfold startRun
    split
    · rfl
    split <;> rfl
  | finish run ending requested stats now =>
    simp only [apply, finishRun]
    repeat' split
    all_goals rfl
  | abandon run reason requested now =>
    show (terminalizeOwnedRun db run reason.message requested now).1.tasks.rows.map Task.id = _
    unfold terminalizeOwnedRun
    split
    · rfl
    dsimp only
    split <;> rfl
  | sweep owners now => rfl
  | restart now => rfl
  | runNow | createTask | updateTask | deleteTask | createSource | updateSource | deleteSource =>
    cases within

end Frames

section Sums
variable {ids : List Nat} {f g : Nat → Nat}

theorem sum_rise (ids : List Nat) (f g : Nat → Nat) :
    (ids.map g).sum ≤ (ids.map f).sum + (ids.map fun a => g a - f a).sum := by
  induction ids with
  | nil => simp
  | cons a ids ih =>
    simp only [List.map_cons, List.sum_cons]
    omega

theorem rise_eq_zero_iff : (ids.map fun a => g a - f a).sum = 0 ↔ ∀ a ∈ ids, g a ≤ f a := by
  simp only [List.sum_eq_zero_iff, List.mem_map, forall_exists_index, and_imp,
    forall_apply_eq_imp_iff₂, Nat.sub_eq_zero_iff_le]

theorem sum_parts (below : ∀ a ∈ ids, g a ≤ f a) (sums : (ids.map f).sum ≤ (ids.map g).sum) :
    ∀ a ∈ ids, g a = f a := by
  induction ids with
  | nil => simp
  | cons a ids ih =>
    obtain ⟨here, rest⟩ := List.forall_mem_cons.mp below
    have tails : (ids.map g).sum ≤ (ids.map f).sum :=
      List.sum_le_sum rest
    simp only [List.map_cons, List.sum_cons] at sums
    refine List.forall_mem_cons.mpr ⟨by omega, ih rest (by omega)⟩

end Sums

section Steps
variable {env : Env} {age : Int} {s : Service} {op : Op} {probe : Probe}

theorem debtOf_view {a : Nat} {l : Ledger} (view : s.db.view a = some l) :
    s.debtOf age a = owedDebt age s.clock l.due := by
  rw [Service.debtOf, (view_runs view).2.2.1]

theorem mem_taskIds {a : Nat} : a ∈ s.taskIds ↔ ∃ l, s.db.view a = some l := by
  unfold Service.taskIds
  constructor
  · intro mem
    obtain ⟨task, stored, rfl⟩ := List.mem_map.mp mem
    have found : s.db.tasks.get task.id = some task := Table.get_of_mem stored
    rw [view_eq, found]
    exact ⟨_, rfl⟩
  · rintro ⟨l, view⟩
    obtain ⟨-, id, -, found⟩ := view_runs view
    exact List.mem_map.mpr ⟨l.task, Table.mem_of_get found, id⟩

theorem next_dispatch (env : Env) (s : Service) (probe : Probe) (now : Int) (stamps : List Stamp) :
    (s.next env (.dispatch probe now stamps)).db =
      (Pass.after env.maxConcurrentRuns probe (settleAll s.db now) now stamps
        (passRows (settleAll s.db now))).db :=
  rfl

/-- No turn of a pass adds to the debt it starts from, and a start of an obligation of that age
    takes from it. -/
theorem midway_debt (linked : s.db.Linked) (timely : s.Timely op) {a : Nat} (mem : a ∈ s.taskIds) :
    (s.next env op).debtOf age a ≤ (s.midway env op).debtOf age a := by
  cases op with
  | dispatch probe now stamps =>
    have step : Step env s (.dispatch probe now stamps) (s.next env (.dispatch probe now stamps)) :=
      ⟨timely, rfl⟩
    have time := (stamp_le_clock step (.inr rfl)).2
    obtain ⟨settled, -, -, -, views⟩ := settleAll_spec linked now
    obtain ⟨l, view⟩ := mem_taskIds.mp mem
    have before : (settleAll s.db now).view a = some (l.settle now) := by rw [views a, view]; rfl
    obtain ⟨l', view', picked⟩ := pass_picks env.maxConcurrentRuns probe settled time
      (fun stamp mem => stamp_le_clock step (.inl mem)) before
    rw [debtOf_view (next_dispatch env s probe now stamps ▸ view'),
      debtOf_view (s := s.midway env (.dispatch probe now stamps)) before]
    rcases picked with rfl | ⟨row, owed, picks⟩
    · exact owedDebt_later time _
    · exact picks_debt owed picks time
  | _ => exact le_rfl

theorem within_others (within : op.within probe) :
    op.isSource = false ∧ (∀ data now, op ≠ .createTask data now) ∧
      (∀ task data now, op ≠ .updateTask task data now) ∧ ∀ task, op ≠ .deleteTask task := by
  refine ⟨?_, ?_, ?_, ?_⟩
  · cases op with
    | createSource | updateSource | deleteSource => cases within
    | _ => rfl
  · rintro data now rfl
    exact within
  · rintro task data now rfl
    exact within
  · rintro task rfl
    exact within

theorem next_debt (env : Env) (age : Int) (linked : s.db.Linked) (timely : s.Timely op)
    (within : op.within probe) :
    (s.next env op).debt age ≤ s.debt age + s.charge age env op := by
  have ids : (s.next env op).taskIds = s.taskIds := within_ids linked within
  unfold Service.debt Service.charge Service.rise
  rw [ids]
  refine le_trans ?_ (sum_rise s.taskIds (s.debtOf age) ((s.midway env op).debtOf age))
  exact List.sum_le_sum fun a mem => midway_debt linked timely mem

/-- Nothing is brought in by what works off the backlog, unless a run has failed for a reason of
    the installation. -/
theorem closed_uncharged (reachable : Reachable env s) (timely : s.Timely op)
    (closed : op.closed = true)
    (calm : ∀ row ∈ s.db.taskDue.rows, row.Calm (s.next env op).db.runs.rows) (age : Int) :
    s.charge age env op = 0 := by
  have linked := reachable_linked reachable
  have step : Step env s op (s.next env op) := ⟨timely, rfl⟩
  refine rise_eq_zero_iff.mpr fun a mem => ?_
  obtain ⟨l, view⟩ := mem_taskIds.mp mem
  have sound := reachable_sound reachable view
  have here : ∀ row, l.due = some row → row ∈ s.db.taskDue.rows := fun row owed =>
    Table.mem_of_get ((view_runs view).2.2.1.symm.trans owed)
  rw [debtOf_view view]
  by_cases pass : ∃ asked now stamps, op = .dispatch asked now stamps
  · obtain ⟨asked, now, stamps, rfl⟩ := pass
    have time := (reading_le_clock step (t := now) (by simp [Op.readings])).1
    have settled : (settleAll s.db now).view a = some (l.settle now) := by
      rw [(settleAll_spec linked now).2.2.2.2 a, view]
      rfl
    rw [debtOf_view (s := s.midway env (.dispatch asked now stamps)) settled]
    refine settle_debt sound (fun row owed run mine attached failed => ?_) time now
    refine calm row (here row owed) run ?_ attached failed
    rw [next_dispatch]
    refine after_kept ?_
    rw [(settleAll_spec linked now).2.2.2.1]
    exact ((mem_view_runs view).mp mine).1
  · have other : ∀ asked now stamps, op ≠ .dispatch asked now stamps :=
      fun asked now stamps same => pass ⟨asked, now, stamps, same⟩
    have same : s.midway env op = s.next env op := by
      cases op with
      | dispatch asked now stamps => exact absurd rfl (other asked now stamps)
      | _ => rfl
    rw [same]
    have seen := (apply_sees linked step).2 a
    rw [view] at seen
    generalize after : (s.next env op).db.view a = v at seen
    cases seen with
    | deleted request quiet =>
      subst request
      cases closed
    | acts effect =>
      rw [debtOf_view after]
      refine effect_debt effect closed other (clock_le step) sound fun row owed run mine => ?_
      exact calm row (here row owed) run ((mem_view_runs after).mp mine).1

end Steps

end Pullbackup
