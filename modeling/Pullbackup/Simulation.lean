import Pullbackup.Effect

/- Every transaction of the service acts on every view by an effect, and keeps
   the database linked. What one task's due work does over a history of the
   service is therefore a matter of effects. -/
namespace Pullbackup
open KeyedTable History

def Sees (env : Env) (lo hi : Int) (op : Op) (db db' : Db) : Prop :=
  db'.Linked ∧ ∀ a, ViewStep env a lo hi op (db.view a) (db'.view a)

variable {env : Env} {lo hi : Int} {db : Db}

theorem sees_same (linked : db.Linked) (op : Op) : Sees env lo hi op db db :=
  ⟨linked, fun _ => .same rfl⟩

section OneLedger

theorem onLedger_none {t : Nat} (absent : db.ledger t = none) (f : Ledger → Ledger) :
    db.onLedger t f = db := by
  simp [Db.onLedger, absent]

theorem follows_accepts (linked : db.Linked) {t : Nat} {l l' : Ledger} (h : db.ledger t = some l)
    (follows : Follows l l') : db.Accepts t l'.due := by
  obtain ⟨task, found, rfl⟩ := Option.map_eq_some_iff.mp h
  have id : task.id = t := Table.key_of_get found
  intro row' owed'
  have stored : (db.tasks.get t).isSome := by simp [found]
  rcases follows.due row' owed' with ⟨owner, detached⟩ | ⟨row, owed, owner, attached⟩
  · refine ⟨owner.trans id, stored, ?_⟩
    intro i here
    rw [detached] at here
    cases here
  · have key : row.taskId = t := Table.key_of_get owed
    refine ⟨owner.trans key, stored, ?_⟩
    intro i here
    rcases attached with detached | same
    · rw [detached] at here
      cases here
    · obtain ⟨run, found, of⟩ :=
        linked.attached row (Table.mem_of_get owed) i (same.symm.trans here)
      exact ⟨run, found, of.trans key⟩

theorem onLedger_linked (linked : db.Linked) {t : Nat} {f : Ledger → Ledger}
    (follows : ∀ l, db.ledger t = some l → Follows l (f l)) : (db.onLedger t f).Linked := by
  cases found : db.ledger t with
  | none =>
    rw [onLedger_none found]
    exact linked
  | some l =>
    have shape : db.onLedger t f =
        { db with tasks := db.tasks.put (f l).task, taskDue := db.taskDue.write t (f l).due } := by
      simp [Db.onLedger, found]
    rw [shape]
    have accepts := follows_accepts linked found (follows l found)
    refine writeDue_linked (putTask_linked linked (f l).task) ?_
    intro row owed
    obtain ⟨owner, stored, run⟩ := accepts row owed
    refine ⟨owner, ?_, run⟩
    show ((db.tasks.put (f l).task).get t).isSome
    rw [Table.get_put]
    split
    · rfl
    · exact stored

theorem onLedger_view {t : Nat} {f : Ledger → Ledger} {l : Ledger} (found : db.ledger t = some l)
    (follows : Follows l (f l)) (linked : db.Linked) (a : Nat) :
    (db.onLedger t f).view a = if a = t then some (f l).own else db.view a := by
  have shape : db.onLedger t f =
      { db with tasks := db.tasks.put (f l).task, taskDue := db.taskDue.write t (f l).due } := by
    simp [Db.onLedger, found]
  obtain ⟨task, stored, rfl⟩ := Option.map_eq_some_iff.mp found
  have id : task.id = t := Table.key_of_get stored
  have keyed : ∀ row ∈ (f { task := task, due := db.taskDue.get t, runs := db.runs.rows }).due,
      row.taskId = t := fun row owed =>
    (follows_accepts linked found follows row owed).1
  have newId := follows.task.trans id
  rw [shape, view_eq, view_eq]
  simp only [Table.get_put, Table.get_write _ t _ keyed, key_task, newId]
  by_cases same : a = t
  · subst a
    rw [own_of_follows follows]
    simp [Ledger.own, id]
  · simp [same, Ne.symm same]

theorem view_of_ledger {t : Nat} {l : Ledger} (found : db.ledger t = some l) :
    db.view t = some l.own := by
  simp [Db.view, found]

theorem onLedger_sees (linked : db.Linked) {op : Op} {t : Nat} {f : Ledger → Ledger}
    (follows : ∀ l, l.Linked → Follows l (f l)) (own : ∀ l, l.Linked → (f l).own = f l.own)
    (effect : ∀ l, db.view t = some l → Effect env t lo hi op l (f l)) :
    Sees env lo hi op db (db.onLedger t f) := by
  refine ⟨onLedger_linked linked fun l found => follows l (ledger_linked linked found), ?_⟩
  intro a
  cases found : db.ledger t with
  | none =>
    rw [onLedger_none found]
    exact .same rfl
  | some l =>
    have scope := ledger_linked linked found
    rw [onLedger_view found (follows l scope) linked]
    by_cases same : a = t
    · subst a
      rw [if_pos rfl, own l scope, view_of_ledger found]
      exact .acts (effect l.own (view_of_ledger found))
    · rw [if_neg same]
      exact .same rfl

theorem reconcile_sees (linked : db.Linked) (t : Nat) {now : Int} (time : lo ≤ now ∧ now ≤ hi) :
    Sees env lo hi (.reconcile t now) db (apply env (.reconcile t now) db) :=
  onLedger_sees linked (fun l _ => reconcileOne_follows env.trig l now)
    (fun _ scope => reconcileOne_own scope) fun _ _ => .reconcile time

theorem tick_sees (linked : db.Linked) (t : Nat) {now : Int} (time : lo ≤ now ∧ now ≤ hi) :
    Sees env lo hi (.tick t now) db (apply env (.tick t now) db) :=
  onLedger_sees linked (fun l _ => recordTick_follows env.trig l now)
    (fun _ scope => recordTick_own scope) fun _ _ => .tick time

end OneLedger

section Requests

theorem taskActive_iff {a : Nat} {l : Ledger} (h : db.view a = some l) :
    taskActive db a = false ↔ l.Idle := by
  unfold taskActive Ledger.Idle
  simp only [List.any_eq_false, Bool.and_eq_true, decide_eq_true_eq, not_and, Bool.not_eq_true]
  constructor
  · intro idle run mem
    obtain ⟨stored, owner⟩ := (mem_view_runs h).mp mem
    exact idle run stored owner
  · intro idle run stored owner
    exact idle run ((mem_view_runs h).mpr ⟨stored, owner⟩)

theorem editLedger_follows (data : TaskFields) (now : Int) (l : Ledger) :
    Follows l (editLedger data now l) := by
  have edit := onTaskEdited_follows
    { l with task := { l.task with toTaskFields := data, updatedAt := now } }
    (data.cron ≠ l.task.cron ∨ data.enabled ≠ l.task.enabled) now
  exact ⟨edit.task, edit.runs, edit.due⟩

theorem editLedger_own (data : TaskFields) (now : Int) (l : Ledger) :
    (editLedger data now l).own = editLedger data now l.own := by
  unfold editLedger
  rw [onTaskEdited_own]
  rfl

theorem updateTask_eq {t : Nat} {data : TaskFields} {now : Int} {l : Ledger}
    (found : db.ledger t = some l) :
    db.orElse (updateTask db t data now) =
      if taskActive db t ∧ unsafeActiveChanges l.task.toTaskFields data ≠ [] then db
      else db.onLedger t (editLedger data now) := by
  obtain ⟨task, stored, rfl⟩ := Option.map_eq_some_iff.mp found
  unfold updateTask Db.onLedger
  rw [found, stored]
  dsimp only
  split <;> rfl

theorem update_sees (linked : db.Linked) (t : Nat) (data : TaskFields) {now : Int}
    (time : lo ≤ now ∧ now ≤ hi) :
    Sees env lo hi (.updateTask t data now) db (apply env (.updateTask t data now) db) := by
  show Sees env lo hi _ db (db.orElse (updateTask db t data now))
  cases found : db.ledger t with
  | none =>
    have absent : db.tasks.get t = none := by simpa [Db.ledger] using found
    simp only [updateTask, absent, Db.orElse]
    exact sees_same linked _
  | some l =>
    rw [updateTask_eq found]
    split
    · exact sees_same linked _
    · rename_i allowed
      refine onLedger_sees linked (fun l _ => editLedger_follows data now l)
        (fun l _ => editLedger_own data now l) fun l' view => .update time ?_
      have same : l' = l.own := Option.some.inj (view.symm.trans (view_of_ledger found))
      subst l'
      by_cases quiet : taskActive db t = true
      · right
        by_contra locked
        exact allowed ⟨quiet, locked⟩
      · left
        exact (taskActive_iff view).mp (Bool.not_eq_true _ ▸ quiet)

theorem createTask_sees (linked : db.Linked) (data : TaskFields) {now : Int}
    (time : lo ≤ now ∧ now ≤ hi) :
    Sees env lo hi (.createTask data now) db (apply env (.createTask data now) db) := by
  show Sees env lo hi _ db (db.orElse (createTask db data now))
  unfold createTask
  cases db.sources.get data.sourceId with
  | none => exact sees_same linked _
  | some source =>
    refine ⟨putTask_linked linked _, ?_⟩
    intro a
    simp only [Db.orElse]
    by_cases same : a = nextId db.tasks
    · subst a
      have absent := get_nextId db.tasks
      have noDue : db.taskDue.get (nextId db.tasks) = none := by
        cases found : db.taskDue.get (nextId db.tasks) with
        | none => rfl
        | some row =>
          have stored := linked.owed row (Table.mem_of_get found)
          rw [show row.taskId = nextId db.tasks from Table.key_of_get found, absent] at stored
          simp at stored
      have noRuns : db.runs.rows.filter (ownedBy (nextId db.tasks)) = [] := by
        rw [List.filter_eq_nil_iff]
        intro run mem owner
        have stored := linked.owner run mem
        rw [show run.taskId = nextId db.tasks by simpa [ownedBy] using owner, absent] at stored
        simp at stored
      rw [view_eq, view_eq, absent]
      simp only [Table.get_put, key_task, if_pos, Option.map_none, Option.map_some, noDue, noRuns]
      exact .created time rfl
    · refine .same ?_
      rw [view_eq, view_eq]
      simp [Table.get_put, Ne.symm same]

theorem deleteTask_sees (linked : db.Linked) (t : Nat) :
    Sees env lo hi (.deleteTask t) db (apply env (.deleteTask t) db) := by
  show Sees env lo hi _ db (db.orElse (deleteTask db t))
  unfold deleteTask
  cases stored : db.tasks.get t with
  | none => exact sees_same linked _
  | some task =>
    dsimp only
    split
    · exact sees_same linked _
    · rename_i quiet
      simp only [Db.orElse]
      have gone : ∀ a, a ≠ t → (db.tasks.erase t).get a = db.tasks.get a := by
        intro a other
        simp [Table.get_erase, other]
      constructor
      · constructor
        · intro row mem
          obtain ⟨old, other⟩ := List.mem_filter.mp mem
          have ne : row.taskId ≠ t := by simpa using other
          show ((db.tasks.erase t).get row.taskId).isSome
          rw [gone _ ne]
          exact linked.owed row old
        · intro run mem
          obtain ⟨old, other⟩ := Table.mem_keep_iff.mp mem
          have ne : run.taskId ≠ t := by simpa using other
          show ((db.tasks.erase t).get run.taskId).isSome
          rw [gone _ ne]
          exact linked.owner run old
        · intro row mem id attached
          obtain ⟨old, other⟩ := List.mem_filter.mp mem
          have ne : row.taskId ≠ t := by simpa using other
          obtain ⟨run, found, owner⟩ := linked.attached row old id attached
          refine ⟨run, ?_, owner⟩
          show (db.runs.keep _).get id = some run
          rw [Table.get_keep, found]
          simp [Option.filter, owner, ne]
      · intro a
        by_cases same : a = t
        · subst a
          have present : db.view t = some
              { task := task, due := db.taskDue.get t
                runs := db.runs.rows.filter (ownedBy t) } := by
            rw [view_eq, stored]
            rfl
          have idle := (taskActive_iff present).mp (Bool.not_eq_true _ ▸ quiet)
          rw [present, view_eq]
          simp only [Table.get_erase, if_pos, Option.map_none]
          exact .deleted rfl idle
        · refine .same ?_
          have keep : (db.runs.rows.filter fun r => decide (r.taskId ≠ t)).filter (ownedBy a) =
              db.runs.rows.filter (ownedBy a) := by
            rw [List.filter_filter]
            apply List.filter_congr
            intro run _
            by_cases owner : run.taskId = a
            · simp [ownedBy, owner, same]
            · simp [ownedBy, owner]
          rw [view_eq, view_eq]
          simp only [Table.get_erase, same, if_false, Table.keep, keep]

theorem sources_sees (linked : db.Linked) (op : Op) (sources : Table Source) :
    Sees env lo hi op db { db with sources := sources } :=
  ⟨⟨linked.owed, linked.owner, linked.attached⟩, fun _ => .same rfl⟩

end Requests

section Runs

theorem pending_sees (linked : db.Linked) {op : Op} {t : Nat} {stamp : Stamp}
    (stored : (db.tasks.get t).isSome)
    (effect : ∀ l, db.view t = some l → (∀ run ∈ l.runs, run.id ≠ nextId db.runs) →
      Effect env t lo hi op l
        { l with runs := l.runs ++ [pendingRun (nextId db.runs) t stamp] }) :
    Sees env lo hi op db
      { db with runs := db.runs.put (pendingRun (nextId db.runs) t stamp) } := by
  have fresh : db.runs.get (pendingRun (nextId db.runs) t stamp).id = none := get_nextId db.runs
  refine ⟨newRun_linked linked fresh stored, ?_⟩
  intro a
  rw [newRun_view fresh]
  cases view : db.view a with
  | none => exact .absent
  | some l =>
    by_cases same : a = t
    · subst a
      have unused : ∀ run ∈ l.runs, run.id ≠ nextId db.runs := fun run mem =>
        newRun_fresh (get_nextId db.runs) run ((mem_view_runs view).mp mem).1
      simp only [pendingRun, Option.map_some, if_true]
      exact .acts (effect l view unused)
    · simp only [pendingRun, Option.map_some, same, if_false]
      exact .same rfl

theorem admit_sees (linked : db.Linked) (t : Nat) {stamp : Stamp}
    (time : lo ≤ stamp.startedAt ∧ stamp.startedAt ≤ hi) :
    Sees env lo hi (.runNow t stamp) db (apply env (.runNow t stamp) db) := by
  show Sees env lo hi _ db (((admitRun db t stamp).map Prod.fst).getD db)
  unfold admitRun
  cases stored : db.tasks.get t with
  | none => exact sees_same linked _
  | some task =>
    have id : task.id = t := Table.key_of_get stored
    dsimp only
    rw [id]
    split
    · exact sees_same linked _
    split
    · exact sees_same linked _
    · rename_i quiet _
      simp only [newPendingRun, Option.map_some, Option.getD_some, id]
      refine pending_sees linked (by simp [stored]) fun l view fresh => ?_
      have idle := (taskActive_iff view).mp (Bool.not_eq_true _ ▸ quiet)
      exact .runNow idle fresh time

/-- One stored run is rewritten; its task's view is the only one to see it. -/
theorem swap_sees (linked : db.Linked) {op : Op} {run new : Run}
    (found : db.runs.get run.id = some run) (id : new.id = run.id)
    (owner : new.taskId = run.taskId)
    (effect : ∀ l, run ∈ l.runs →
      Effect env run.taskId lo hi op l { l with runs := l.runs.map (swapRun new) }) :
    Sees env lo hi op db { db with runs := db.runs.put new } := by
  have mem := Table.mem_of_get found
  have rows : (db.runs.put new).rows = db.runs.rows.map (swapRun new) :=
    swap_rows ⟨run, mem, id.symm⟩
  have owners := swapRun_owner mem id owner
  refine ⟨mapRuns_linked linked rows (swapRun_id new) owners, ?_⟩
  intro a
  rw [mapRuns_view rows owners]
  cases view : db.view a with
  | none => exact .absent
  | some l =>
    by_cases same : a = run.taskId
    · subst a
      exact .acts (effect l ((mem_view_runs view).mpr ⟨mem, rfl⟩))
    · have others : ∀ r ∈ l.runs, r.id ≠ new.id := by
        intro r here clash
        obtain ⟨stored, of⟩ := (mem_view_runs view).mp here
        have one : r = run := Table.key_injective stored mem (clash.trans id)
        exact same (of.symm.trans (congrArg Run.taskId one))
      simp only [Option.map_some, swapRuns_other others]
      exact .same rfl

theorem start_sees (linked : db.Linked) (run : Nat) {now : Int} (time : lo ≤ now ∧ now ≤ hi) :
    Sees env lo hi (.start run now) db (apply env (.start run now) db) := by
  show Sees env lo hi _ db (db.orElse (startRun db run now))
  unfold startRun
  cases found : db.runs.get run with
  | none => exact sees_same linked _
  | some r =>
    have id : r.id = run := Table.key_of_get found
    subst id
    dsimp only
    split
    · exact sees_same linked _
    · rename_i pending
      simp only [Db.orElse]
      exact swap_sees linked found rfl rfl fun l mem => .start time mem (not_not.mp pending)

theorem abandon_sees (linked : db.Linked) (run : Nat) (reason : OwnerExit) (requested : Bool)
    {now : Int} (time : lo ≤ now ∧ now ≤ hi) :
    Sees env lo hi (.abandon run reason requested now) db
      (apply env (.abandon run reason requested now) db) := by
  show Sees env lo hi _ db (terminalizeOwnedRun db run reason.message requested now).1
  unfold terminalizeOwnedRun
  cases found : db.runs.get run with
  | none => exact sees_same linked _
  | some r =>
    have id : r.id = run := Table.key_of_get found
    subst id
    dsimp only
    split
    · rename_i active
      dsimp only
      refine swap_sees linked found ?_ ?_ fun l mem => .abandon time mem active ?_
      · split <;> rfl
      · split <;> rfl
      · split
        · rename_i asked
          exact Or.inr ⟨asked.2, rfl⟩
        · exact Or.inl rfl
    · exact sees_same linked _

theorem failRuns_sees (linked : db.Linked) {op : Op} (f : Run → Run)
    (keeps : ∀ run, Keyed.key (f run) = Keyed.key run) (owner : ∀ run, (f run).taskId = run.taskId)
    (effect : ∀ a l, Effect env a lo hi op l { l with runs := l.runs.map f }) :
    Sees env lo hi op db { db with runs := db.runs.mapRows f keeps } := by
  refine ⟨mapRuns_linked linked rfl keeps fun run _ => owner run, ?_⟩
  intro a
  have rows : (db.runs.mapRows f keeps).rows = db.runs.rows.map f := rfl
  rw [mapRuns_view rows fun run _ => owner run]
  cases view : db.view a with
  | none => exact .absent
  | some l => exact .acts (effect a l)

theorem sweep_sees (linked : db.Linked) (owners : List Nat) {now : Int}
    (time : lo ≤ now ∧ now ≤ hi) :
    Sees env lo hi (.sweep owners now) db (apply env (.sweep owners now) db) := by
  refine failRuns_sees linked _ _ ?_ fun _ _ => .sweep time
  intro run
  split <;> rfl

theorem restart_sees (linked : db.Linked) {now : Int} (time : lo ≤ now ∧ now ≤ hi) :
    Sees env lo hi (.restart now) db (apply env (.restart now) db) := by
  refine failRuns_sees linked _ _ ?_ fun _ _ => .restart time
  intro run
  split <;> rfl

theorem owedBy_spec {id : Nat} {row : TaskDue} (h : owedBy db id = some row) :
    db.taskDue.get row.taskId = some row ∧ row.runId = some id := by
  have mem := List.mem_of_find?_eq_some h
  exact ⟨Table.get_of_mem mem, by simpa using List.find?_some h⟩

theorem outcome_accepts (linked : db.Linked) {row : TaskDue} {run : Run} {now : Int}
    (mem : row ∈ db.taskDue.rows) :
    db.Accepts row.taskId (applyRunOutcome row run now) := by
  intro row' settled
  obtain ⟨owner, attached⟩ := applyRunOutcome_inherits settled
  refine ⟨owner, linked.owed row mem, ?_⟩
  intro id here
  rcases attached with detached | same
  · rw [detached] at here
    cases here
  · exact linked.attached row mem id (same.symm.trans here)

theorem finishRun_eq {run : Run} (found : db.runs.get run.id = some run) (ending : Ending)
    (requested : Bool) (stats : Stats) (now : Int) :
    finishRun db run.id ending requested stats now =
      let new := run.terminal ending requested stats now
      match owedBy db run.id with
      | none => { db with runs := db.runs.put new }
      | some owed =>
        { db with
          runs := db.runs.put new
          taskDue := db.taskDue.write owed.taskId (applyRunOutcome owed new now) } := by
  simp only [finishRun, found]
  rfl

theorem finishRun_linked (linked : db.Linked) {run : Run} (found : db.runs.get run.id = some run)
    (ending : Ending) (requested : Bool) (stats : Stats) (now : Int) :
    (finishRun db run.id ending requested stats now).Linked := by
  have mem := Table.mem_of_get found
  have swapped := mapRuns_linked linked
    (swap_rows ⟨run, mem, rfl⟩ :
      (db.runs.put (run.terminal ending requested stats now)).rows = _)
    (swapRun_id _) (swapRun_owner mem rfl rfl)
  rw [finishRun_eq found]
  dsimp only
  split
  · exact swapped
  · rename_i owed here
    exact writeDue_linked swapped (outcome_accepts swapped (Table.mem_of_get (owedBy_spec here).1))

theorem finishRun_view (linked : db.Linked) {run : Run} (found : db.runs.get run.id = some run)
    (ending : Ending) (requested : Bool) (stats : Stats) (now : Int) (a : Nat) :
    (finishRun db run.id ending requested stats now).view a =
      (db.view a).map fun l =>
        if a = run.taskId then l.endRun (run.terminal ending requested stats now) now else l := by
  have mem := Table.mem_of_get found
  have rows : (db.runs.put (run.terminal ending requested stats now)).rows = _ :=
    swap_rows ⟨run, mem, rfl⟩
  have swapped : ∀ a, Db.view { db with
      runs := db.runs.put (run.terminal ending requested stats now) } a = _ := fun a =>
    mapRuns_view rows (swapRun_owner mem rfl rfl) a
  have others : ∀ l, db.view a = some l → a ≠ run.taskId →
      l.runs.map (swapRun (run.terminal ending requested stats now)) = l.runs := by
    intro l view other
    apply swapRuns_other
    intro r here clash
    obtain ⟨stored, of⟩ := (mem_view_runs view).mp here
    have one : r = run := Table.key_injective stored mem clash
    exact other (of.symm.trans (congrArg Run.taskId one))
  rw [finishRun_eq found]
  dsimp only
  split
  · rename_i unowed
    rw [swapped a]
    cases view : db.view a with
    | none => rfl
    | some l =>
      by_cases same : a = run.taskId
      · have detached : l.due.bind (fun row =>
            if row.runId = some run.id then
              applyRunOutcome row (run.terminal ending requested stats now) now
            else some row) = l.due := by
          cases owed : l.due with
          | none => rfl
          | some row =>
            have here : row ∈ db.taskDue.rows :=
              Table.mem_of_get ((view_runs view).2.2.1.symm.trans owed)
            have apart := List.find?_eq_none.mp unowed row here
            simp only [decide_eq_true_eq] at apart
            simp [apart]
        simp [same, Ledger.endRun, Run.terminal] at detached ⊢
        exact detached.symm
      · simp [same, others l view same]
  · rename_i owed here
    obtain ⟨stored, attached⟩ := owedBy_spec here
    obtain ⟨run', found', owner⟩ :=
      linked.attached owed (Table.mem_of_get stored) run.id attached
    have one : run' = run := Option.some.inj (found'.symm.trans found)
    subst run'
    have keyed : ∀ row ∈ applyRunOutcome owed (run.terminal ending requested stats now) now,
        row.taskId = owed.taskId := fun row settled =>
      (applyRunOutcome_inherits settled).1
    have written : Db.view { db with
        runs := db.runs.put (run.terminal ending requested stats now)
        taskDue := db.taskDue.write owed.taskId
          (applyRunOutcome owed (run.terminal ending requested stats now) now) } a =
        (Db.view { db with runs := db.runs.put (run.terminal ending requested stats now) } a).map
          fun l => { l with due :=
            if a = owed.taskId then
              applyRunOutcome owed (run.terminal ending requested stats now) now
            else l.due } :=
      writeDue_view { db with runs := db.runs.put (run.terminal ending requested stats now) } keyed a
    rw [written, swapped a]
    cases view : db.view a with
    | none => rfl
    | some l =>
      by_cases same : a = run.taskId
      · have due : l.due = some owed := by
          rw [(view_runs view).2.2.1, same, owner]
          exact stored
        simp [same, owner, Ledger.endRun, due, attached, Run.terminal]
      · simp [same, ← owner, others l view same]

theorem finish_sees (linked : db.Linked) (run : Nat) (ending : Ending) (requested : Bool)
    (stats : Stats) {now : Int} (time : lo ≤ now ∧ now ≤ hi) :
    Sees env lo hi (.finish run ending requested stats now) db
      (apply env (.finish run ending requested stats now) db) := by
  simp only [apply]
  split
  · rename_i running
    cases found : db.runs.get run with
    | none => simp [found] at running
    | some r =>
      have id : r.id = run := Table.key_of_get found
      subst id
      have isRunning : r.state = .running := by simpa [found] using running
      refine ⟨finishRun_linked linked found ending requested stats now, ?_⟩
      intro a
      rw [finishRun_view linked found]
      cases view : db.view a with
      | none => exact .absent
      | some l =>
        by_cases same : a = r.taskId
        · have mem := (mem_view_runs view).mpr ⟨Table.mem_of_get found, same.symm⟩
          simp only [Option.map_some, same, if_true]
          exact .acts (.finish time mem isRunning)
        · simp only [Option.map_some, same, if_false]
          exact .same rfl
  · exact sees_same linked _

end Runs

section Settlement

theorem settleDue_eq (linked : db.Linked) {row : TaskDue}
    (stored : db.taskDue.get row.taskId = some row) (now : Int) :
    settleDue db row now =
      { db with taskDue := db.taskDue.write row.taskId (settleRow db.runs.rows row now) } := by
  have task := linked.owed row (Table.mem_of_get stored)
  unfold settleDue
  cases found : db.tasks.get row.taskId with
  | none => simp [found] at task
  | some task => rfl

theorem settleDue_accepts (linked : db.Linked) {row : TaskDue}
    (stored : db.taskDue.get row.taskId = some row) (now : Int) :
    db.Accepts row.taskId (settleRow db.runs.rows row now) := by
  intro row' settled
  have mem := Table.mem_of_get stored
  obtain ⟨owner, attached⟩ := settleRow_inherits settled
  refine ⟨owner, linked.owed row mem, ?_⟩
  intro id here
  rcases attached with detached | same
  · rw [detached] at here
    cases here
  · exact linked.attached row mem id (same.symm.trans here)

theorem settleDue_view (linked : db.Linked) {row : TaskDue}
    (stored : db.taskDue.get row.taskId = some row) (now : Int) (a : Nat) :
    (settleDue db row now).view a =
      (db.view a).map fun l => if a = row.taskId then l.settle now else l := by
  have keyed : ∀ row' ∈ settleRow db.runs.rows row now, row'.taskId = row.taskId :=
    fun row' settled => (settleRow_inherits settled).1
  rw [settleDue_eq linked stored, writeDue_view db keyed]
  cases ledger : db.ledger a with
  | none => simp [Db.view, ledger]
  | some l =>
    have scope := ledger_linked linked ledger
    rw [view_of_ledger ledger]
    simp only [Option.map_some]
    by_cases same : a = row.taskId
    · subst a
      obtain ⟨task, found, rfl⟩ := Option.map_eq_some_iff.mp ledger
      rw [if_pos rfl, if_pos rfl, ← settle_own scope]
      simp [Ledger.settle, Ledger.own, stored]
    · simp [same]

theorem settleRows (now : Int) (rows : List TaskDue) (linked : db.Linked)
    (unique : (rows.map TaskDue.taskId).Nodup)
    (stored : ∀ row ∈ rows, db.taskDue.get row.taskId = some row) :
    (rows.foldl (fun db row => settleDue db row now) db).Linked ∧
      (rows.foldl (fun db row => settleDue db row now) db).sources = db.sources ∧
      (rows.foldl (fun db row => settleDue db row now) db).tasks = db.tasks ∧
      (rows.foldl (fun db row => settleDue db row now) db).runs = db.runs ∧
      ∀ a, (rows.foldl (fun db row => settleDue db row now) db).view a =
        (db.view a).map fun l => if a ∈ rows.map TaskDue.taskId then l.settle now else l := by
  induction rows generalizing db with
  | nil =>
    exact ⟨linked, rfl, rfl, rfl, fun a => by simp⟩
  | cons row rows ih =>
    have here := stored row (by simp)
    obtain ⟨apart, unique⟩ := List.nodup_cons.mp unique
    have shape := settleDue_eq linked here now
    have accepts := settleDue_accepts linked here now
    have linked' : (settleDue db row now).Linked := by
      rw [shape]
      exact writeDue_linked linked accepts
    have rest : ∀ other ∈ rows,
        (settleDue db row now).taskDue.get other.taskId = some other := by
      intro other mem
      have ne : other.taskId ≠ row.taskId := by
        intro same
        exact apart (List.mem_map.mpr ⟨other, mem, same⟩)
      rw [shape]
      show (db.taskDue.write row.taskId _).get other.taskId = some other
      rw [Table.get_write _ _ _ (fun r settled => (accepts r settled).1), if_neg ne]
      exact stored other (List.mem_cons_of_mem row mem)
    obtain ⟨linked'', sources, tasks, runs, views⟩ := ih linked' unique rest
    rw [shape] at sources tasks runs
    rw [← shape] at sources tasks runs
    refine ⟨linked'', sources.trans (by rw [shape]), tasks.trans (by rw [shape]),
      runs.trans (by rw [shape]), ?_⟩
    intro a
    rw [List.foldl_cons, views a, settleDue_view linked here]
    cases db.view a with
    | none => rfl
    | some l =>
      by_cases same : a = row.taskId
      · subst a
        simp only [Option.map_some, if_true, apart, if_false, List.map_cons, List.mem_cons,
          true_or]
      · simp only [Option.map_some, same, if_false, List.map_cons, List.mem_cons, false_or]

theorem settleAll_spec (linked : db.Linked) (now : Int) :
    (settleAll db now).Linked ∧ (settleAll db now).sources = db.sources ∧
      (settleAll db now).tasks = db.tasks ∧ (settleAll db now).runs = db.runs ∧
      ∀ a, (settleAll db now).view a = (db.view a).map fun l => l.settle now := by
  obtain ⟨linked', sources, tasks, runs, views⟩ :=
    settleRows now db.taskDue.rows linked db.taskDue.unique fun row mem => Table.get_of_mem mem
  refine ⟨linked', sources, tasks, runs, fun a => (views a).trans ?_⟩
  cases view : db.view a with
  | none => rfl
  | some l =>
    simp only [Option.map_some]
    split
    · rfl
    · rename_i absent
      have none : l.due = none := by
        rw [(view_runs view).2.2.1]
        apply Table.get_eq_none_iff.mpr
        intro row mem same
        exact absent (List.mem_map.mpr ⟨row, mem, same⟩)
      rw [settle_of_none none]

theorem settle_sees (linked : db.Linked) {now : Int} (time : lo ≤ now ∧ now ≤ hi) :
    Sees env lo hi (.settle now) db (apply env (.settle now) db) := by
  obtain ⟨linked', -, -, -, views⟩ := settleAll_spec linked now
  refine ⟨linked', fun a => ?_⟩
  show ViewStep env a lo hi _ (db.view a) ((settleAll db now).view a)
  rw [views a]
  cases db.view a with
  | none => exact .absent
  | some l => exact .acts (.settle time)

end Settlement

end Pullbackup
