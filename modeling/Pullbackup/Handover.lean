import Pullbackup.Fairness
import Pullbackup.Idempotence

/- A dispatcher pass in which an operation raises. Every run is committed when
   its row is admitted; the executions are started after the last commit. -/
namespace Pullbackup
open KeyedTable

structure PassSession where
  work : Pass
  stored : Db

/-- _new_pending_run commits the session together with the pending row; what the pass then
    writes on the obligation stays in the session. -/
def PassSession.row (limit : Nat) (probe : Probe) (now : Int) (s : PassSession) (row : TaskDue) :
    PassSession :=
  let work := Pass.row limit probe now s.work row
  { work := work
    stored :=
      if work.started = s.work.started then s.stored
      else { s.work.db with runs := work.db.runs } }

def PassSession.after (limit : Nat) (probe : Probe) (db : Db) (now : Int) (stamps : List Stamp)
    (rows : List TaskDue) : PassSession :=
  rows.foldl (PassSession.row limit probe now) ⟨Pass.begin probe db stamps, db⟩

/-- Where at a row: in a query, in the commit of its run, or in reading the run back after that
    commit. -/
inductive RowFault where
  | query | commit | refresh
  deriving DecidableEq, Repr

/-- Where in a pass: while it settles, before the first row, at the n-th row, in the last
    commit, or in start_admitted_run with so many runs still to start, which fails its own run
    at the given time. -/
inductive PassFault where
  | settle
  | observe
  | row (n : Nat) (instant : RowFault)
  | lastCommit
  | start (left : Nat) (now : Int)
  deriving DecidableEq, Repr

/-- What a pass leaves that raises: the committed rows and the runs whose execution has been
    started. -/
structure Aftermath where
  db : Db
  executions : List Nat

/-- None when the pass does not come to the fault. -/
def dispatchRaising (limit : Nat) (probe : Probe) (db : Db) (now : Int) (stamps : List Stamp)
    (fault : PassFault) : Option Aftermath :=
  let settled := settleAll db now
  let rows := passRows settled
  match fault with
  | .settle => some ⟨db, []⟩
  | .observe => some ⟨settled, []⟩
  | .row n instant =>
    match rows[n]? with
    | none => none
    | some row =>
      let s := PassSession.after limit probe settled now stamps (rows.take n)
      let t := s.row limit probe now row
      match instant with
      | .query => some ⟨s.stored, []⟩
      | .commit => if t.work.started = s.work.started then none else some ⟨s.stored, []⟩
      | .refresh => if t.work.started = s.work.started then none else some ⟨t.stored, []⟩
  | .lastCommit => some ⟨(PassSession.after limit probe settled now stamps rows).stored, []⟩
  | .start left later =>
    let last := (PassSession.after limit probe settled now stamps rows).work
    match last.started.reverse.drop left with
    | [] => none
    | id :: before =>
      some ⟨(terminalizeOwnedRun last.db id "failed to start admitted run" false later).1,
        before.reverse⟩

/-- Every pending run the pass has committed has an execution. -/
def PendingOwned (db : Db) (a : Aftermath) : Prop :=
  ∀ run ∈ a.db.runs.rows, run ∉ db.runs.rows → run.state = .pending → run.id ∈ a.executions

/-- Each eligible row among them clashes with an active run, shares its source or a conflicting
    destination with an older one, or finds no place. -/
def Unstartable (limit : Nat) (probe : Probe) (db : Db) (now : Int) (rows : List TaskDue) : Prop :=
  ∀ front job rest, rows.filterMap (request probe db now) = front ++ job :: rest →
    (passRules limit).blocked ⟨activeScopes probe db, [], front⟩ job = true

/-- The faults that leave no run behind: before the first run is committed, and in starting the
    last one. -/
def HandsOver (limit : Nat) (probe : Probe) (db : Db) (now : Int) : PassFault → Prop
  | .settle | .observe => True
  | .row _ .refresh => False
  | .row n _ => Unstartable limit probe db now ((passRows db).take n)
  | .lastCommit => Unstartable limit probe db now (passRows db)
  | .start left _ => left = 0

section Session
variable {limit : Nat} {probe : Probe} {now : Int} {db : Db} {stamps : List Stamp}
  {rows : List TaskDue}

theorem row_runs {p : Pass} {row : TaskDue}
    (same : (Pass.row limit probe now p row).started = p.started) :
    (Pass.row limit probe now p row).db.runs = p.db.runs := by
  have turn := row_turn limit probe now p row
  generalize Pass.row limit probe now p row = p' at turn same
  cases turn with
  | left => rfl
  | dropped => rfl
  | @waited task key reason =>
    rcases wait_db p row task key reason now with kept | written
    · rw [kept]
    · rw [written]
  | started =>
    have longer := congrArg List.length same
    simp [Pass.launch] at longer

theorem row_started (limit : Nat) (probe : Probe) (now : Int) (p : Pass) (row : TaskDue) :
    p.started <+: (Pass.row limit probe now p row).started := by
  have turn := row_turn limit probe now p row
  generalize Pass.row limit probe now p row = p' at turn
  cases turn with
  | left => exact List.prefix_rfl
  | dropped => exact List.prefix_rfl
  | waited => exact List.prefix_rfl
  | started => exact List.prefix_append _ _

theorem none_earlier {row : TaskDue}
    (none : (Pass.after limit probe db now stamps (rows ++ [row])).started = []) :
    (Pass.after limit probe db now stamps rows).started = [] := by
  have longer := row_started limit probe now (Pass.after limit probe db now stamps rows) row
  rw [show Pass.row limit probe now (Pass.after limit probe db now stamps rows) row =
    Pass.after limit probe db now stamps (rows ++ [row]) by simp [Pass.after], none] at longer
  exact List.prefix_nil.mp longer

/-- The runs of a session are committed as they are made. -/
theorem session_after (limit : Nat) (probe : Probe) (db : Db) (now : Int) (stamps : List Stamp)
    (rows : List TaskDue) :
    (PassSession.after limit probe db now stamps rows).work =
        Pass.after limit probe db now stamps rows ∧
      (PassSession.after limit probe db now stamps rows).stored.runs =
        (Pass.after limit probe db now stamps rows).db.runs := by
  have rest : ∀ (rows : List TaskDue) (s : PassSession), s.stored.runs = s.work.db.runs →
      (rows.foldl (PassSession.row limit probe now) s).work =
          rows.foldl (Pass.row limit probe now) s.work ∧
        (rows.foldl (PassSession.row limit probe now) s).stored.runs =
          (rows.foldl (Pass.row limit probe now) s.work).db.runs := by
    intro rows
    induction rows with
    | nil => exact fun s committed => ⟨rfl, committed⟩
    | cons row rows ih =>
      intro s committed
      refine ih (s.row limit probe now row) ?_
      unfold PassSession.row
      dsimp only
      split
      · rename_i same
        rw [committed, row_runs same]
      · rfl
  refine rest rows _ ?_
  show db.runs = (Pass.begin probe db stamps).db.runs
  rw [begin_db]

theorem none_started_iff : (Pass.after limit probe db now stamps rows).started = [] ↔
    Unstartable limit probe db now rows := by
  obtain ⟨news, -, started, -, owners⟩ := (after_simulates limit probe db now stamps rows).runs
  have lengths := congrArg List.length owners
  simp only [List.length_map] at lengths
  rw [started, List.map_eq_nil_iff, ← List.length_eq_zero_iff, lengths, List.length_eq_zero_iff]
  exact Greedy.Rules.none_started_iff

theorem unstarted_owned_iff {settled : Db} (runs : settled.runs = db.runs) {left : Db}
    (committed : left.runs = (Pass.after limit probe settled now stamps rows).db.runs) :
    PendingOwned db ⟨left, []⟩ ↔ (Pass.after limit probe settled now stamps rows).started = [] := by
  obtain ⟨news, split, started, -⟩ := (after_simulates limit probe settled now stamps rows).runs
  constructor
  · intro owned
    rw [started, List.map_eq_nil_iff]
    refine List.eq_nil_iff_forall_not_mem.mpr fun run added => ?_
    have mem : run ∈ (Pass.after limit probe settled now stamps rows).db.runs.rows := by
      rw [split]
      exact List.mem_append_right _ added
    obtain ⟨old, pending⟩ := after_new mem
    have new : run ∉ settled.runs.rows := fun stored =>
      old.mp stored (by rw [started]; exact List.mem_map_of_mem added)
    have here := owned run (by rw [committed]; exact mem) (runs ▸ new) (pending new)
    cases here
  · intro none run mem new
    rw [committed] at mem
    rw [← runs, (after_new mem).1, none] at new
    exact absurd (List.not_mem_nil) new

theorem split_reverse {α : Type} {ids before : List α} {id : α} {count : Nat}
    (rest : ids.reverse.drop count = id :: before) :
    ∃ later, ids = before.reverse ++ id :: later ∧ (later = [] ↔ count = 0) := by
  refine ⟨(ids.reverse.take count).reverse, ?_, ?_⟩
  · have whole := congrArg List.reverse (List.take_append_drop count ids.reverse)
    rw [rest, List.reverse_reverse] at whole
    refine whole.symm.trans ?_
    simp
  · have inside : count < ids.reverse.length := by
      by_contra outside
      rw [List.drop_eq_nil_of_le (not_lt.mp outside)] at rest
      cases rest
    rw [List.reverse_eq_nil_iff, List.take_eq_nil_iff]
    constructor
    · rintro (zero | nil)
      · exact zero
      · rw [nil] at inside
        cases inside
    · exact Or.inl

theorem start_owned_iff {p : Pass} {before later : List Nat} {id : Nat} {time : Int}
    (started : p.started = before ++ id :: later) (distinct : p.started.Nodup)
    (stored : ∀ i ∈ p.started, ∃ run ∈ p.db.runs.rows, run.id = i)
    (new : ∀ run ∈ p.db.runs.rows, (run ∈ db.runs.rows ↔ run.id ∉ p.started) ∧
      (run ∉ db.runs.rows → run.state = .pending)) :
    PendingOwned db
        ⟨(terminalizeOwnedRun p.db id "failed to start admitted run" false time).1, before⟩ ↔
      later = [] := by
  have listed : id ∈ p.started := by simp [started]
  obtain ⟨run, mem, rfl⟩ := stored id listed
  have added : run ∉ db.runs.rows := fun old => (new run mem).1.mp old listed
  have pending := (new run mem).2 added
  have shape : (terminalizeOwnedRun p.db run.id "failed to start admitted run" false time).1 =
      { p.db with runs := p.db.runs.put (run.failed "failed to start admitted run" time) } := by
    unfold terminalizeOwnedRun
    rw [show p.db.runs.get run.id = some run from Table.get_of_mem mem]
    simp [pending]
  rw [started] at distinct
  obtain ⟨-, tail, apart⟩ := List.nodup_append.mp distinct
  obtain ⟨notLater, -⟩ := List.nodup_cons.mp tail
  unfold PendingOwned
  rw [shape]
  dsimp only
  simp only [Table.mem_put_iff]
  constructor
  · intro owned
    refine List.eq_nil_iff_forall_not_mem.mpr fun j there => ?_
    have inside : j ∈ p.started := by simp [started, there]
    obtain ⟨other, mem', rfl⟩ := stored j inside
    have ne : other.id ≠ run.id := fun same => notLater (same ▸ there)
    have added' : other ∉ db.runs.rows := fun old => (new other mem').1.mp old inside
    have early := owned other (Or.inr ⟨ne, mem'⟩) added' ((new other mem').2 added')
    exact apart _ early _ (List.mem_cons_of_mem _ there) rfl
  · rintro rfl other (rfl | ⟨ne, mem'⟩) added' pending'
    · cases pending'
    · have inside : other.id ∈ p.started := by
        by_contra outside
        exact added' ((new other mem').1.mpr outside)
      rw [started] at inside
      rcases List.mem_append.mp inside with early | last
      · exact early
      · exact absurd (List.mem_singleton.mp last) ne

theorem after_started_distinct : (Pass.after limit probe db now stamps rows).started.Nodup ∧
    ∀ i ∈ (Pass.after limit probe db now stamps rows).started,
      ∃ run ∈ (Pass.after limit probe db now stamps rows).db.runs.rows, run.id = i := by
  obtain ⟨news, split, started, -⟩ := (after_simulates limit probe db now stamps rows).runs
  have ids := (Pass.after limit probe db now stamps rows).db.runs.unique
  rw [split, List.map_append] at ids
  refine ⟨?_, ?_⟩
  · rw [started]
    exact (List.nodup_append.mp ids).2.1
  · intro i listed
    rw [started] at listed
    obtain ⟨run, new, id⟩ := List.mem_map.mp listed
    refine ⟨run, ?_, id⟩
    rw [split]
    exact List.mem_append_right _ new

/-- The runs admitted up to a row are committed with it. -/
theorem row_session {row : TaskDue} :
    ((PassSession.after limit probe db now stamps rows).row limit probe now row) =
      PassSession.after limit probe db now stamps (rows ++ [row]) := by
  simp [PassSession.after]

end Session

/-- When a pass raises, every pending run it has committed has an execution or is made terminal
    exactly when the fault comes before its first run is committed, or in starting its last one. -/
theorem raising_pass_owned_iff {limit : Nat} {probe : Probe} {db : Db} {now : Int}
    {stamps : List Stamp} {fault : PassFault} {left : Aftermath}
    (raised : dispatchRaising limit probe db now stamps fault = some left) :
    PendingOwned db left ↔ HandsOver limit probe (settleAll db now) now fault := by
  have runs : (settleAll db now).runs = db.runs := (settleAll_frame db now).2
  unfold dispatchRaising at raised
  cases fault with
  | settle =>
    obtain rfl := Option.some.inj raised
    exact iff_of_true (fun run mem new => absurd mem new) trivial
  | observe =>
    obtain rfl := Option.some.inj raised
    exact iff_of_true (fun run mem new => absurd (runs ▸ mem) new) trivial
  | lastCommit =>
    obtain rfl := Option.some.inj raised
    rw [unstarted_owned_iff runs (session_after _ _ _ _ _ _).2, none_started_iff]
    rfl
  | row n instant =>
    dsimp only at raised
    split at raised
    · cases raised
    rename_i row here
    cases instant with
    | query =>
      obtain rfl := Option.some.inj raised
      rw [unstarted_owned_iff runs (session_after _ _ _ _ _ _).2, none_started_iff]
      rfl
    | commit =>
      dsimp only at raised
      split at raised
      · cases raised
      obtain rfl := Option.some.inj raised
      rw [unstarted_owned_iff runs (session_after _ _ _ _ _ _).2, none_started_iff]
      rfl
    | refresh =>
      dsimp only at raised
      rw [row_session] at raised
      split at raised
      · cases raised
      rename_i starts
      obtain rfl := Option.some.inj raised
      rw [unstarted_owned_iff runs (session_after _ _ _ _ _ _).2]
      refine iff_of_false (fun none => starts ?_) not_false
      rw [(session_after _ _ _ _ _ _).1, (session_after _ _ _ _ _ _).1, none, none_earlier none]
  | start count later =>
    dsimp only at raised
    rw [(session_after _ _ _ _ _ _).1] at raised
    split at raised
    · cases raised
    rename_i id before here
    obtain rfl := Option.some.inj raised
    obtain ⟨rest, started, empty⟩ := split_reverse here
    rw [start_owned_iff started after_started_distinct.1 after_started_distinct.2 ?_, empty]
    · rfl
    · intro run mem
      rw [← runs]
      exact after_new mem

def Sample.due : Db := (Sample.start.exec Sample.env [.tick 1 (seconds 60)]).db

theorem failed_start_is_terminal : ∃ left : Aftermath,
    dispatchRaising 1 Sample.probe Sample.due (seconds 61) [Sample.stamp 61]
        (.start 0 (seconds 62)) = some left ∧
      PendingOwned Sample.due left ∧ left.db.runs.rows.map Run.state = [.failed] := by
  have states : (dispatchRaising 1 Sample.probe Sample.due (seconds 61) [Sample.stamp 61]
      (.start 0 (seconds 62))).map (fun left => left.db.runs.rows.map Run.state) =
      some [.failed] := by decide
  obtain ⟨left, raised, terminal⟩ := Option.map_eq_some_iff.mp states
  have last : HandsOver 1 Sample.probe (settleAll Sample.due (seconds 61)) (seconds 61)
      (.start 0 (seconds 62)) := rfl
  exact ⟨left, raised, (raising_pass_owned_iff raised).mpr last, terminal⟩

/-- The last commit fails: the run is committed and nothing executes it. -/
theorem failed_commit_leaves_run :
    ¬ ∀ (limit : Nat) (probe : Probe) (db : Db) (now : Int) (stamps : List Stamp)
      (fault : PassFault) (left : Aftermath),
      dispatchRaising limit probe db now stamps fault = some left → PendingOwned db left := by
  intro claim
  have raised : ∃ left, dispatchRaising 1 Sample.probe Sample.due (seconds 61) [Sample.stamp 61]
      .lastCommit = some left ∧ left.executions = [] ∧
      ∃ run ∈ left.db.runs.rows, run ∉ Sample.due.runs.rows ∧ run.state = .pending := by
    refine ⟨_, rfl, rfl, ?_⟩
    decide
  obtain ⟨left, raised, none, run, mem, new, pending⟩ := raised
  have owned := claim _ _ _ _ _ _ left raised run mem new pending
  rw [none] at owned
  cases owned

end Pullbackup
