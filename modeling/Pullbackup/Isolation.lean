import Pullbackup.Generation

/- The runs from before an edit of the schedule have no say in what is owed after it: what a
   transaction makes of the obligation is what it would make of it without them, but for a
   wait behind one that is still active. -/
namespace Pullbackup
open KeyedTable History

def Db.forget (a : Nat) (edited : Int) (db : Db) : Db :=
  { db with runs := db.runs.keep fun run => run.taskId ≠ a || edited ≤ run.startedAt }

def Service.forget (a : Nat) (edited : Int) (s : Service) : Service :=
  { s with db := s.db.forget a edited }

def Ledger.forget (edited : Int) (l : Ledger) : Ledger :=
  l.heeding fun run => edited ≤ run.startedAt

/-- The old runs have had no say in what a transaction leaves of an obligation: without them it
    is gone when it is gone, and has the same date; they add nothing to its attempts, and its
    retry is none, the one it had before or the one it has without them. -/
structure Unswayed (before after forgotten : Option TaskDue) : Prop where
  kept : after = none ↔ forgotten = none
  dueAt : ∀ row row', after = some row → forgotten = some row' → row.dueAt = row'.dueAt
  attempts : ∀ row row', after = some row → forgotten = some row' →
    row.attempts ≤ row'.attempts ∨ ∃ old, before = some old ∧ row.attempts ≤ old.attempts
  retryAt : ∀ row row', after = some row → forgotten = some row' → row.retryAt = none ∨
    row.retryAt = row'.retryAt ∨ ∃ old, before = some old ∧ row.retryAt = old.retryAt

structure SameDebt (row row' : TaskDue) : Prop where
  dueAt : row.dueAt = row'.dueAt
  attempts : row.attempts = row'.attempts
  retryAt : row.retryAt = row'.retryAt

/-- Two ends of one transaction: the same debt, or both the row that was there, left steady. -/
inductive Even (before : Option TaskDue) : Option TaskDue → Option TaskDue → Prop where
  | gone : Even before none none
  | same {row row' : TaskDue} (debt : SameDebt row row') : Even before (some row) (some row')
  | steady {old row row' : TaskDue} (owed : before = some old) (first : Steady old row)
      (second : Steady old row') : Even before (some row) (some row')

section Even
variable {before : Option TaskDue}

theorem even_refl (due : Option TaskDue) : Even before due due := by
  cases due with
  | none => exact .gone
  | some row => exact .same ⟨rfl, rfl, rfl⟩

theorem even_of_eq {due due' : Option TaskDue} (same : due = due') : Even before due due' :=
  same ▸ even_refl due

theorem even_unswayed {after forgotten : Option TaskDue} (even : Even before after forgotten) :
    Unswayed before after forgotten := by
  cases even with
  | gone =>
    have never : ∀ row : TaskDue, none = some row → False := fun _ here => by cases here
    exact ⟨Iff.rfl, fun row _ here _ => (never row here).elim,
      fun row _ here _ => (never row here).elim, fun row _ here _ => (never row here).elim⟩
  | @same first second debt =>
    refine ⟨by simp, ?_, ?_, ?_⟩ <;> intro row row' here there <;>
      obtain rfl := Option.some.inj here <;> obtain rfl := Option.some.inj there
    · exact debt.dueAt
    · exact .inl debt.attempts.le
    · exact .inr (.inl debt.retryAt)
  | @steady old first second owed calm calm' =>
    refine ⟨by simp, ?_, ?_, ?_⟩ <;> intro row row' here there <;>
      obtain rfl := Option.some.inj here <;> obtain rfl := Option.some.inj there
    · exact calm.dueAt.trans calm'.dueAt.symm
    · exact .inr ⟨old, owed, calm.attempts⟩
    · exact calm.retryAt.imp_right fun same => .inr ⟨old, owed, same⟩

end Even

section Forgetting
variable {edited : Int} {trig : Trigger} {l : Ledger} {now : Int} {a : Nat}

/-- Until the last old run has ended no other begins. -/
def Ledger.Separated (edited : Int) (l : Ledger) : Prop :=
  (∀ run ∈ l.runs, run.startedAt < edited → run.state.active = false) ∨
    ∀ run ∈ l.runs, run.startedAt < edited

theorem inTurn_separated {clock : Int} (wf : l.Wf a) (inTurn : InTurn clock l.runs) :
    l.Separated edited := by
  by_cases idle : ∀ run ∈ l.runs, run.startedAt < edited → run.state.active = false
  · exact .inl idle
  refine .inr ?_
  push Not at idle
  obtain ⟨run, mem, old, active⟩ := idle
  intro other mem'
  by_cases same : run.id = other.id
  · exact run_unique wf mem mem' same ▸ old
  rcases inTurn.apart run mem other mem' same with done | done
  · exact absurd done.1 active
  · obtain ⟨ended, finish, past⟩ := inTurn.stamped other mem' done.1
    have := done.2 ended finish
    omega

theorem forget_generation (gen : Generation edited l) : Generation edited (l.forget edited) :=
  ⟨gen.baseline, gen.disabled, fun row owed => ⟨(gen.due row owed).due, (gen.due row owed).marker,
    fun run mem => (gen.due row owed).attached run (List.mem_filter.mp mem).1⟩⟩

theorem forget_heeds (gen : Generation edited l) (wf : l.Wf a)
    (idle : ∀ run ∈ l.runs, run.startedAt < edited → run.state.active = false) :
    l.Heeds fun run => edited ≤ run.startedAt where
  owner row owed := (wf.due row owed).trans wf.task.symm
  active run mem _ active := by
    by_contra old
    rw [idle run mem (by simpa using old)] at active
    cases active
  attached row owed run mem attached := by
    simpa using (gen.due row owed).attached run mem attached
  pays row owed run _ _ _ pays := by
    simpa using (gen.due row owed).due.trans pays
  covers run _ _ covers := by
    obtain ⟨watermark, stored, late⟩ := gen.baseline
    simpa using late.trans (covers watermark stored)

theorem forget_sound (gen : Generation edited l) (sound : l.Sound)
    (old : ∀ run ∈ l.runs, run.startedAt < edited) : (l.forget edited).Sound := by
  intro row owed
  have base := sound row owed
  refine ⟨fun dispatched => ?_, base.counted, base.budget, base.retry, base.exhausted⟩
  obtain ⟨run, mem, attached, -⟩ := base.attached dispatched
  have := old run mem
  have := (gen.due row owed).attached run mem attached
  omega

theorem answers_steady (gen : Generation edited l) (old : ∀ run ∈ l.runs, run.startedAt < edited)
    {row : TaskDue} (owed : l.due = some row) {due : Option TaskDue}
    (answers : Ledger.Answers l.runs row due) : ∃ row', due = some row' ∧ Steady row row' := by
  rcases answers with ⟨run, mem, decides⟩ | ⟨row', kept, calm, -⟩
  · have := old run mem
    have := decides_since (gen.due row owed) mem decides
    omega
  · exact ⟨row', kept, calm⟩

/-- What leaves every row steady that no run decides is even while only old runs are there. -/
theorem even_of_answers {f : Ledger → Option TaskDue} (gen : Generation edited l)
    (sound : l.Sound) (old : ∀ run ∈ l.runs, run.startedAt < edited) {row : TaskDue}
    (owed : l.due = some row)
    (answers : ∀ m : Ledger, m.Sound → m.due = some row → Ledger.Answers m.runs row (f m)) :
    Even l.due (f l) (f (l.forget edited)) := by
  obtain ⟨row₁, first, steady₁⟩ := answers_steady gen old owed (answers l sound owed)
  obtain ⟨row₂, second, steady₂⟩ := answers_steady (forget_generation gen)
    (fun run mem => old run (List.mem_filter.mp mem).1) owed
    (answers (l.forget edited) (forget_sound gen sound old) owed)
  rw [first, second]
  exact .steady owed steady₁ steady₂

theorem settle_even (gen : Generation edited l) (sound : l.Sound) (wf : l.Wf a)
    (separated : l.Separated edited) (now : Int) :
    Even l.due (l.settle now).due ((l.forget edited).settle now).due := by
  cases owed : l.due with
  | none =>
    rw [settle_of_none owed, settle_of_none (l := l.forget edited) owed]
    exact even_refl l.due
  | some row =>
    rcases separated with idle | old
    · have same : ((l.settle now).forget edited).due = ((l.forget edited).settle now).due :=
        congrArg Ledger.due (settle_heeding (forget_heeds gen wf idle))
      exact even_of_eq same
    · rw [← owed]
      exact even_of_answers (f := fun m => (m.settle now).due) gen sound old owed
        fun m sound owed => settle_answers sound owed now

theorem scan_unowed {watermark : Int} (bare : l.due = none)
    (stored : l.task.scheduleBaselineAt = some watermark) (runs : List Run) :
    Ledger.scan trig { l with runs := runs } now = { l.scan trig now with runs := runs } := by
  have same : Ledger.baseline { l with runs := runs } = l.baseline := by
    rw [baseline_some stored]
    exact baseline_some stored
  have owes : Ledger.owes trig { l with runs := runs } now = l.owes trig now := by
    unfold Ledger.owes
    rw [same]
  unfold Ledger.scan
  rw [owes]
  cases l.owes trig now with
  | none =>
    dsimp only
    rw [keep_eq, keep_eq, same]
  | some first =>
    have fresh : foldRow { l with runs := runs } first = foldRow l first := by
      unfold foldRow
      rw [bare]
    dsimp only
    rw [fold_eq, fold_eq, fresh]

theorem early_debt (runs : List Run) (upcoming : Int) :
    SameDebt (earlyRow l upcoming now) (earlyRow { l with runs := runs } upcoming now) := by
  have noted : ∀ (runs : List Run) (row : TaskDue),
      SameDebt (noteOccurrenceDuringRun runs row upcoming none).2 row := by
    intro runs row
    have noted := note_noted runs row upcoming none
    generalize noteOccurrenceDuringRun runs row upcoming none = n at noted
    cases noted <;> exact ⟨rfl, rfl, rfl⟩
  unfold earlyRow
  cases l.due with
  | none => exact ⟨rfl, rfl, rfl⟩
  | some row =>
    have first := noted l.runs row
    have second := noted runs row
    exact ⟨first.dueAt.trans second.dueAt.symm, first.attempts.trans second.attempts.symm,
      first.retryAt.trans second.retryAt.symm⟩

theorem reconcile_bare (gen : Generation edited l) (bare : l.due = none) :
    (reconcileOne trig l now).due = (reconcileOne trig (l.forget edited) now).due := by
  obtain ⟨watermark, stored, -⟩ := gen.baseline
  rw [reconcileOne_eq, reconcileOne_eq, settle_of_none bare,
    settle_of_none (l := l.forget edited) bare, (block_eq trig l now).1,
    (block_eq trig (l.forget edited) now).1]
  have scanned : (l.forget edited).scan trig now =
      { l.scan trig now with runs := (l.forget edited).runs } := scan_unowed bare stored _
  rw [scanned, show (l.forget edited).task = l.task from rfl]
  split
  · rfl
  split <;> rfl

theorem tick_bare (gen : Generation edited l) (later : edited ≤ now)
    (bare : l.due = none) :
    Even l.due (recordTick trig l now).due (recordTick trig (l.forget edited) now).due := by
  obtain ⟨watermark, stored, -⟩ := gen.baseline
  have scanned : (l.forget edited).scan trig now =
      (l.scan trig now).forget edited := by
    rw [Ledger.forget, Ledger.forget, heeding_of_follows (scan_follows trig l now)]
    exact scan_unowed bare stored _
  rw [recordTick_eq, recordTick_eq, settle_of_none bare,
    settle_of_none (l := l.forget edited) bare, (block_eq trig l now).1,
    (block_eq trig (l.forget edited) now).1, scanned]
  dsimp only
  rw [show (l.forget edited).task = l.task from rfl,
    show ((l.scan trig now).forget edited).task = (l.scan trig now).task from rfl,
    show ((l.scan trig now).forget edited).due = (l.scan trig now).due from rfl]
  split
  · exact even_of_eq rfl
  rename_i enabled
  split
  · exact even_of_eq rfl
  rename_i parses
  have gen' : Generation edited (l.scan trig now) :=
    scan_stages (generation_stages trig later) (by simpa using enabled) (by simpa using parses) gen
  have covers : runCovers ((l.scan trig now).forget edited).runs (l.scan trig now).task.id
      (l.scan trig now).task.scheduleBaselineAt =
      runCovers (l.scan trig now).runs (l.scan trig now).task.id
        (l.scan trig now).task.scheduleBaselineAt := by
    refine runCovers_filter fun run mem _ covers => ?_
    obtain ⟨watermark', stored', late⟩ := gen'.baseline
    simpa using late.trans (covers watermark' stored')
  rw [covers]
  split
  · rename_i upcoming early
    rw [early_eq, early_eq]
    exact .same (early_debt _ upcoming)
  split
  · exact even_of_eq rfl
  have owes : (l.forget edited).owes trig now = l.owes trig now := by
    unfold Ledger.owes
    rw [baseline_some stored, baseline_some (l := l.forget edited) stored]
    rfl
  rw [owes]
  split <;> exact even_of_eq rfl

theorem reconcile_even (gen : Generation edited l) (sound : l.Sound) (wf : l.Wf a)
    (separated : l.Separated edited) (trig : Trigger) (now : Int) :
    Even l.due (reconcileOne trig l now).due (reconcileOne trig (l.forget edited) now).due := by
  cases owed : l.due with
  | none => exact even_of_eq (reconcile_bare gen owed)
  | some row =>
    rw [← owed]
    rcases separated with idle | old
    · have settled : (l.settle now).Heeds fun run => edited ≤ run.startedAt :=
        forget_heeds (settle_generation gen now) (follows_wf (settle_follows l now) wf) idle
      have same : ((reconcileOne trig l now).forget edited).due =
          (reconcileOne trig (l.forget edited) now).due :=
        congrArg Ledger.due (reconcileOne_heeding (forget_heeds gen wf idle) settled)
      exact even_of_eq same
    · exact even_of_answers (f := fun m => (reconcileOne trig m now).due) gen sound old owed
        fun m sound owed => (reconcile_stages (follow_stages trig now m.runs row)
          ⟨rfl, sound, owed ▸ answers_self m.runs row⟩).answers

theorem tick_even (gen : Generation edited l) (sound : l.Sound) (wf : l.Wf a)
    (separated : l.Separated edited) (trig : Trigger) (later : edited ≤ now) :
    Even l.due (recordTick trig l now).due (recordTick trig (l.forget edited) now).due := by
  cases owed : l.due with
  | none =>
    rw [← owed]
    exact tick_bare gen later owed
  | some row =>
    rw [← owed]
    rcases separated with idle | old
    · have settled := settle_generation gen now
      have follows := settle_scan_follows trig l now
      have scanned : l.task.enabled = true → trig.parses l.task.cron = true →
          ((l.settle now).scan trig now).Heeds fun run => edited ≤ run.startedAt := by
        intro enabled parses
        refine forget_heeds (scan_stages (generation_stages trig later) enabled parses settled)
          (follows_wf follows wf) ?_
        rw [follows.runs]
        exact idle
      have same : ((recordTick trig l now).forget edited).due =
          (recordTick trig (l.forget edited) now).due :=
        congrArg Ledger.due (recordTick_heeding (forget_heeds gen wf idle)
          (forget_heeds settled (follows_wf (settle_follows l now) wf) idle) scanned)
      exact even_of_eq same
    · exact even_of_answers (f := fun m => (recordTick trig m now).due) gen sound old owed
        fun m sound owed => (tick_stages (follow_stages trig now m.runs row)
          ⟨rfl, sound, owed ▸ answers_self m.runs row⟩).answers

end Forgetting

def Op.writesDue (a : Nat) : Op → Bool
  | .reconcile task _ | .tick task _ | .updateTask task _ _ => task = a
  | .settle _ | .dispatch .. | .finish .. => true
  | _ => false

/-- What a turn of a pass leaves of a settled row that it does not drop. -/
structure TurnLeaves (now : Int) (row row' : TaskDue) : Prop where
  dueAt : row'.dueAt = row.dueAt
  attempts : row'.attempts = row.attempts
  retryAt : row'.retryAt = row.retryAt ∨ row.Ready now ∧ row'.retryAt = none

/-- The obligation of a task after a transaction, as a function of its ledger but for the turn
    of a pass and for an edit that is refused. -/
inductive DueStep (env : Env) (a : Nat) (l : Ledger) : Op → Option TaskDue → Prop where
  | reconciled {now : Int} : DueStep env a l (.reconcile a now) (reconcileOne env.trig l now).due
  | ticked {now : Int} : DueStep env a l (.tick a now) (recordTick env.trig l now).due
  | settled {now : Int} : DueStep env a l (.settle now) (l.settle now).due
  | unowed {probe : Probe} {now : Int} {stamps : List Stamp} (bare : (l.settle now).due = none) :
      DueStep env a l (.dispatch probe now stamps) none
  | turned {probe : Probe} {now : Int} {stamps : List Stamp} {row row' : TaskDue}
      (owed : (l.settle now).due = some row) (leaves : TurnLeaves now row row') :
      DueStep env a l (.dispatch probe now stamps) (some row')
  | dropped {probe : Probe} {now : Int} {stamps : List Stamp} (disabled : l.task.enabled = false) :
      DueStep env a l (.dispatch probe now stamps) none
  | ended {id : Nat} {run : Run} {ending : Ending} {requested : Bool} {stats : Stats} {now : Int}
      (mem : run ∈ l.runs) (key : run.id = id) (running : run.state = .running) :
      DueStep env a l (.finish id ending requested stats now)
        (l.endRun (run.terminal ending requested stats now) now).due
  | kept {id : Nat} {ending : Ending} {requested : Bool} {stats : Stats} {now : Int}
      (none : ∀ run ∈ l.runs, run.id = id → run.state ≠ .running) :
      DueStep env a l (.finish id ending requested stats now) l.due
  | edited {data : TaskFields} {now : Int} :
      DueStep env a l (.updateTask a data now) (editLedger data now l).due
  | refused {data : TaskFields} {now : Int} : DueStep env a l (.updateTask a data now) l.due
  | other {op : Op} (other : op.writesDue a = false) : DueStep env a l op l.due

section Steps
variable {env : Env} {s t : Service} {a : Nat} {l l' : Ledger} {op : Op}

theorem effect_due {lo hi : Int} (effect : Effect env a lo hi op l l')
    (other : op.writesDue a = false) : l'.due = l.due := by
  cases effect with
  | reconcile | tick | update => simp [Op.writesDue] at other
  | settle | pass | drop | wait | launch | finish => cases other
  | _ => rfl

theorem dispatch_dueStep (linked : s.db.Linked) (view : s.db.view a = some l) {probe : Probe}
    {now : Int} {stamps : List Stamp} (step : Step env s (.dispatch probe now stamps) t)
    (view' : t.db.view a = some l') : DueStep env a l (.dispatch probe now stamps) l'.due := by
  have time : now ≤ t.clock := (reading_le_clock step (by simp [Op.readings])).2
  obtain ⟨m, after, picked⟩ := dispatch_picks env linked probe time
    (fun stamp mem => stamp_le_clock step (Or.inl mem)) view
  have same : l' = m := by
    rw [step.2] at view'
    exact Option.some.inj (view'.symm.trans after)
  subst same
  rcases picked with rfl | ⟨row, owed, picks⟩
  · cases owed : (l.settle now).due with
    | none => exact .unowed owed
    | some row => exact .turned owed ⟨rfl, rfl, .inl rfl⟩
  cases picks with
  | left =>
    rw [owed]
    exact .turned owed ⟨rfl, rfl, .inl rfl⟩
  | dropped other disabled => exact .dropped disabled
  | waited ready => exact .turned owed ⟨rfl, rfl, .inl rfl⟩
  | started ready => exact .turned owed ⟨rfl, rfl, .inr ⟨ready, rfl⟩⟩

theorem finish_dueStep (linked : s.db.Linked) (view : s.db.view a = some l) {id : Nat}
    {ending : Ending} {requested : Bool} {stats : Stats} {now : Int}
    (step : Step env s (.finish id ending requested stats now) t)
    (view' : t.db.view a = some l') :
    DueStep env a l (.finish id ending requested stats now) l'.due := by
  have shape : t.db = apply env (.finish id ending requested stats now) s.db := by
    rw [step.2]
    rfl
  rw [shape] at view'
  simp only [apply] at view'
  by_cases running : (s.db.runs.get id).any (fun r => r.state = .running) = true
  · rw [if_pos running] at view'
    obtain ⟨run, found, state⟩ := (Option.any_eq_true _ _).mp running
    have key : run.id = id := Table.key_of_get found
    subst key
    rw [finishRun_view linked found, view, Option.map_some] at view'
    obtain rfl := Option.some.inj view'
    by_cases own : a = run.taskId
    · rw [if_pos own]
      exact .ended ((mem_view_runs view).mpr ⟨Table.mem_of_get found, own.symm⟩) rfl
        (by simpa using state)
    · rw [if_neg own]
      refine .kept fun other mem same => ?_
      obtain ⟨there, owner⟩ := (mem_view_runs view).mp mem
      obtain rfl := Table.key_injective there (Table.mem_of_get found) same
      exact absurd owner.symm own
  · rw [if_neg running, view] at view'
    obtain rfl := Option.some.inj view'
    refine .kept fun run mem same state => running ?_
    obtain ⟨there, -⟩ := (mem_view_runs view).mp mem
    have found : s.db.runs.get id = some run := same ▸ Table.get_of_mem there
    simp [found, state]

theorem apply_dueStep (linked : s.db.Linked) (view : s.db.view a = some l)
    (step : Step env s op t) (view' : t.db.view a = some l') : DueStep env a l op l'.due := by
  have seen := (apply_sees linked step).2 a
  rw [view, view'] at seen
  cases seen with
  | acts effect =>
    by_cases writes : op.writesDue a = true
    · have result : t.db = (s.next env op).db := by rw [step.2]
      cases op with
      | reconcile task now =>
        obtain rfl : task = a := by simpa [Op.writesDue] using writes
        rw [result, reconcile_view env linked view] at view'
        obtain rfl := Option.some.inj view'
        exact .reconciled
      | tick task now =>
        obtain rfl : task = a := by simpa [Op.writesDue] using writes
        rw [result, tick_view env linked view] at view'
        obtain rfl := Option.some.inj view'
        exact .ticked
      | settle now =>
        have after : t.db.view a = (s.db.view a).map fun l => l.settle now := by
          rw [result]
          exact (settleAll_spec linked now).2.2.2.2 a
        rw [after, view] at view'
        obtain rfl := Option.some.inj view'
        exact .settled
      | dispatch probe now stamps => exact dispatch_dueStep linked view step view'
      | finish id ending requested stats now => exact finish_dueStep linked view step view'
      | updateTask task data now =>
        obtain rfl : task = a := by simpa [Op.writesDue] using writes
        cases effect with
        | idle => exact .refused
        | update time allowed => exact .edited
      | _ => cases writes
    · have other : op.writesDue a = false := by simpa using writes
      rw [effect_due effect other]
      exact .other other

end Steps

section Unswayed
variable {env : Env} {a : Nat} {edited : Int} {l : Ledger} {op : Op} {due due' : Option TaskDue}

theorem settled_ready {runs : List Run} {old row : TaskDue} {now : Int}
    (settled : Settled runs old now due) (kept : due = some row) (ready : row.Ready now) :
    row.retryAt = none ∨ row.retryAt = old.retryAt := by
  have finished : ∀ followUp, finish old followUp now = some row → row.retryAt = none := by
    intro followUp finished
    obtain ⟨instant, -, rfl⟩ := finish_eq_some finished
    rfl
  cases settled with
  | missing | active | blocked | owed =>
    obtain rfl := Option.some.inj kept
    exact .inr rfl
  | succeeded => exact .inl (finished _ kept)
  | paid => exact .inl (finished _ kept)
  | cancelled => cases kept
  | unmarked =>
    obtain rfl := Option.some.inj kept
    split
    · exact .inl rfl
    · exact .inr rfl
  | @failed run =>
    obtain rfl := Option.some.inj kept
    have released := (ready_after_failure ready).1
    exact .inl (by simp [failOutcome, released])

theorem turns_unswayed {now : Int} {row row' : TaskDue}
    (even : Even l.due (l.settle now).due ((l.forget edited).settle now).due)
    (owed : (l.settle now).due = some row) (owed' : ((l.forget edited).settle now).due = some row')
    {after after' : TaskDue} (leaves : TurnLeaves now row after)
    (leaves' : TurnLeaves now row' after') : Unswayed l.due (some after) (some after') := by
  rw [owed, owed'] at even
  cases even with
  | same debt =>
    refine ⟨by simp, ?_, ?_, ?_⟩ <;> intro _ _ here there <;>
      obtain rfl := Option.some.inj here <;> obtain rfl := Option.some.inj there
    · exact leaves.dueAt.trans (debt.dueAt.trans leaves'.dueAt.symm)
    · exact .inl (leaves.attempts.trans (debt.attempts.trans leaves'.attempts.symm)).le
    · rcases leaves.retryAt with same | ⟨-, none⟩
      · rcases leaves'.retryAt with same' | ⟨ready, -⟩
        · exact .inr (.inl (same.trans (debt.retryAt.trans same'.symm)))
        · obtain ⟨old, before, settled⟩ := Option.bind_eq_some_iff.mp owed'
          have retry := settled_ready (settleRow_settled _ old now) settled ready
          rw [same, debt.retryAt]
          exact retry.imp_right fun same => .inr ⟨old, before, same⟩
      · exact .inl none
  | steady before calm calm' =>
    have turn : ∀ {old row after : TaskDue}, Steady old row → TurnLeaves now row after →
        Steady old after := by
      intro old row after calm leaves
      refine ⟨leaves.dueAt.trans calm.dueAt, leaves.attempts.le.trans calm.attempts, ?_⟩
      rcases leaves.retryAt with same | ⟨-, none⟩
      · rw [same]
        exact calm.retryAt
      · exact .inl none
    exact even_unswayed (.steady before (turn calm leaves) (turn calm' leaves'))

/-- A pass drops nothing after the edit, for a disabled task owes nothing. -/
theorem dispatch_turns (gen : Generation edited l) {probe : Probe} {now : Int}
    {stamps : List Stamp} (step : DueStep env a l (.dispatch probe now stamps) due) :
    (l.settle now).due = none ∧ due = none ∨ ∃ row row', (l.settle now).due = some row ∧
      due = some row' ∧ TurnLeaves now row row' := by
  cases step with
  | unowed bare => exact .inl ⟨bare, rfl⟩
  | @turned _ _ _ row row' owed leaves => exact .inr ⟨row, row', owed, rfl, leaves⟩
  | dropped disabled =>
    have bare := gen.disabled disabled
    rw [settle_of_none bare]
    exact .inl ⟨bare, rfl⟩
  | other none => cases none

theorem dispatch_unswayed (gen : Generation edited l) {probe : Probe} {now : Int}
    {stamps : List Stamp}
    (even : Even l.due (l.settle now).due ((l.forget edited).settle now).due)
    (first : DueStep env a l (.dispatch probe now stamps) due)
    (second : DueStep env a (l.forget edited) (.dispatch probe now stamps) due') :
    Unswayed l.due due due' := by
  rcases dispatch_turns gen first with ⟨bare, rfl⟩ | ⟨row, after, owed, rfl, leaves⟩ <;>
    rcases dispatch_turns (forget_generation gen) second with
      ⟨bare', rfl⟩ | ⟨row', after', owed', rfl, leaves'⟩
  · exact even_unswayed .gone
  · rw [bare, owed'] at even
    cases even
  · rw [owed, bare'] at even
    cases even
  · exact turns_unswayed even owed owed' leaves leaves'

/-- The end of an old run leaves the row to itself, that of a new one is the same without the
    old ones. -/
theorem endRun_even (gen : Generation edited l) (wf : l.Wf a) {id : Nat} {ending : Ending}
    {requested : Bool} {stats : Stats} {now : Int}
    (first : DueStep env a l (.finish id ending requested stats now) due)
    (second : DueStep env a (l.forget edited) (.finish id ending requested stats now) due') :
    Even l.due due due' := by
  cases first with
  | other none => cases none
  | kept idle =>
    cases second with
    | other none => cases none
    | kept => exact even_refl _
    | @ended _ run _ _ _ _ mem key running =>
      exact absurd running (idle run (List.mem_filter.mp mem).1 key)
  | @ended _ run _ _ _ _ mem key running =>
    cases second with
    | other none => cases none
    | @ended _ other _ _ _ _ mem' key' running' =>
      obtain rfl := run_unique wf (List.mem_filter.mp mem').1 mem (key'.trans key.symm)
      exact even_of_eq rfl
    | kept idle =>
      have old : run.startedAt < edited := by
        by_contra late
        exact idle run (List.mem_filter.mpr ⟨mem, by simpa using late⟩) key running
      cases owed : l.due with
      | none =>
        rw [endRun_of_none owed]
        exact even_of_eq rfl
      | some row =>
        have other : row.runId ≠ some (run.terminal ending requested stats now).id := by
          intro attached
          have := (gen.due row owed).attached run mem attached
          omega
        rw [← owed, endRun_of_other owed other]
        exact even_of_eq rfl

theorem edit_even (now : Int) (gen : Generation edited l) (sound : l.Sound) {data : TaskFields}
    (cron : data.cron = l.task.cron) (enabled : data.enabled = l.task.enabled)
    (first : due = (editLedger data now l).due ∨ due = l.due)
    (second : due' = (editLedger data now (l.forget edited)).due ∨ due' = l.due) :
    Even l.due due due' := by
  cases owed : l.due with
  | none =>
    have bare : ∀ m : Ledger, m.due = none → (editLedger data now m).due = none := by
      intro m bare
      have change := editLedger_edited data now m
      generalize editLedger data now m = m' at change
      cases change with
      | reset => rfl
      | rearmed _ _ owed => cases bare.symm.trans owed
      | kept => exact bare
    rw [bare l owed, owed, or_self] at first
    rw [bare (l.forget edited) owed, owed, or_self] at second
    rw [first, second]
    exact .gone
  | some row =>
    have steady : ∀ m : Ledger, m.task = l.task → m.due = some row →
        ∃ row', (editLedger data now m).due = some row' ∧ Steady row row' := by
      intro m task here
      have change := editLedger_edited data now m
      generalize editLedger data now m = m' at change
      cases change with
      | reset changed =>
        rw [task] at changed
        rcases changed with other | other | disabled
        · exact absurd cron other
        · exact absurd enabled other
        · exact absurd ((gen.disabled (enabled.symm.trans disabled)).symm.trans owed) (by simp)
      | rearmed _ _ owed' held =>
        obtain rfl := Option.some.inj (here.symm.trans owed')
        exact ⟨_, rfl, rfl, (sound row owed).counted.1, .inl rfl⟩
      | kept => exact ⟨row, here, steady_refl row⟩
    have either : ∀ {m : Ledger} {due : Option TaskDue}, m.task = l.task → m.due = some row →
        due = (editLedger data now m).due ∨ due = l.due →
        ∃ row', due = some row' ∧ Steady row row' := by
      rintro m due task here (rfl | rfl)
      · exact steady m task here
      · exact ⟨row, owed, steady_refl row⟩
    obtain ⟨row₁, rfl, calm₁⟩ := either rfl owed first
    obtain ⟨row₂, rfl, calm₂⟩ := either (m := l.forget edited) rfl owed second
    exact .steady rfl calm₁ calm₂

theorem dueStep_unswayed (gen : Generation edited l) (sound : l.Sound) (wf : l.Wf a)
    (separated : l.Separated edited) (later : ∀ t ∈ op.readings, edited ≤ t)
    (schedule : ∀ data now, op = .updateTask a data now →
      data.cron = l.task.cron ∧ data.enabled = l.task.enabled)
    (first : DueStep env a l op due) (second : DueStep env a (l.forget edited) op due') :
    Unswayed l.due due due' := by
  cases op with
  | reconcile task now =>
    cases first with
    | reconciled =>
      cases second with
      | reconciled => exact even_unswayed (reconcile_even gen sound wf separated env.trig now)
      | other none => simp [Op.writesDue] at none
    | other none =>
      cases second with
      | reconciled => simp [Op.writesDue] at none
      | other => exact even_unswayed (even_refl _)
  | tick task now =>
    cases first with
    | ticked =>
      cases second with
      | ticked =>
        exact even_unswayed
          (tick_even gen sound wf separated env.trig (later now (by simp [Op.readings])))
      | other none => simp [Op.writesDue] at none
    | other none =>
      cases second with
      | ticked => simp [Op.writesDue] at none
      | other => exact even_unswayed (even_refl _)
  | settle now =>
    cases first with
    | other none => cases none
    | settled =>
      cases second with
      | other none => cases none
      | settled => exact even_unswayed (settle_even gen sound wf separated now)
  | dispatch probe now stamps =>
    exact dispatch_unswayed gen (settle_even gen sound wf separated now) first second
  | finish id ending requested stats now => exact even_unswayed (endRun_even gen wf first second)
  | updateTask task data now =>
    by_cases own : task = a
    · subst own
      obtain ⟨cron, enabled⟩ := schedule data now rfl
      refine even_unswayed (edit_even now gen sound cron enabled ?_ ?_)
      · cases first with
        | edited => exact .inl rfl
        | refused => exact .inr rfl
        | other none => simp [Op.writesDue] at none
      · cases second with
        | edited => exact .inl rfl
        | refused => exact .inr rfl
        | other none => simp [Op.writesDue] at none
    · cases first with
      | edited => exact absurd rfl own
      | refused => exact absurd rfl own
      | other =>
        cases second with
        | edited => exact absurd rfl own
        | refused => exact absurd rfl own
        | other => exact even_unswayed (even_refl _)
  | _ =>
    cases first with
    | other =>
      cases second with
      | other => exact even_unswayed (even_refl _)

end Unswayed

section Databases
variable {db : Db} {a : Nat} {edited : Int}

theorem forget_view (db : Db) (a : Nat) (edited : Int) :
    (db.forget a edited).view a = (db.view a).map (Ledger.forget edited) := by
  have own : (db.forget a edited).runs.rows.filter (ownedBy a) =
      (db.runs.rows.filter (ownedBy a)).filter fun run => edited ≤ run.startedAt := by
    show (db.runs.rows.filter _).filter _ = _
    rw [List.filter_filter, List.filter_filter]
    refine List.filter_congr fun run _ => ?_
    by_cases owner : run.taskId = a <;> simp [ownedBy, owner]
  rw [view_eq, view_eq, own, Option.map_map]
  rfl

theorem forget_linked (linked : db.Linked)
    (gen : ∀ l, db.view a = some l → Generation edited l) : (db.forget a edited).Linked := by
  refine ⟨linked.owed, fun run mem => linked.owner run (List.mem_filter.mp mem).1, ?_⟩
  intro row mem id attached
  obtain ⟨run, found, owner⟩ := linked.attached row mem id attached
  refine ⟨run, ?_, owner⟩
  show (db.runs.keep _).get id = some run
  rw [Table.get_keep, found]
  refine Option.filter_eq_some_iff.mpr ⟨rfl, ?_⟩
  by_cases own : run.taskId = a
  · have owed : db.taskDue.get a = some row := by
      rw [← own, owner]
      exact Table.get_of_mem mem
    obtain ⟨l, view, due⟩ := view_of_row linked owed
    have there := (mem_view_runs view).mpr ⟨Table.mem_of_get found, own⟩
    have since := ((gen l view).due row due).attached run there
      (by rw [attached, show run.id = id from Table.key_of_get found])
    simp [since]
  · simp [own]

end Databases

/-- An edit of the schedule at a date leaves the task without obligation. After it every
    obligation is dated at or after the edit, no run from before the edit decides it, and what
    any transaction makes of it does not depend on those runs. -/
theorem schedule_edit_starts_clean {env : Env} {s t u v : Service} {a : Nat} {data : TaskFields}
    {edited : Int} {task : Task} {ops : List Op} {op : Op} (reachable : Reachable env s)
    (edit : Step env s (.updateTask a data edited) t) (stored : s.db.tasks.get a = some task)
    (changed : data.cron ≠ task.cron ∨ data.enabled ≠ task.enabled)
    (accepted : taskActive s.db a = false ∨ unsafeActiveChanges task.toTaskFields data = [])
    (history : Trace (fun s op t => Step env s op t ∧ keepsSchedule a s op = true) t ops u)
    (last : Step env u op v ∧ keepsSchedule a u op = true) :
    t.db.taskDue.get a = none ∧
      (∀ row, u.db.taskDue.get a = some row → edited ≤ row.dueAt ∧
        ∀ run ∈ u.db.runs.rows, run.taskId = a → run.startedAt < edited → ¬ run.Decides row) ∧
      Unswayed (u.db.taskDue.get a) (v.db.taskDue.get a)
        (((u.forget a edited).next env op).db.taskDue.get a) := by
  have linked := reachable_linked reachable
  obtain ⟨l, view, none, gen⟩ := edit_view linked edit stored changed accepted
  have now : edited ≤ t.clock := (reading_le_clock edit (by simp [Op.readings])).2
  refine ⟨(view_runs view).2.2.1.symm.trans none, ?_⟩
  have start : edited ≤ t.clock ∧ Generation edited l := ⟨now, gen⟩
  obtain ⟨m, view', ⟨later, gen'⟩, linked'⟩ :=
    trace_view (fun s op => keepsSchedule a s op = true) (fun c l => edited ≤ c ∧ Generation edited l)
      (fun _ _ keeps request => by simp [request, keepsSchedule] at keeps)
      (fun _ _ _ _ _ _ step _ _ holds effect =>
        ⟨holds.1.trans (clock_le step), effect_generation holds.1 holds.2 effect⟩)
      history (apply_sees linked edit).1 view start
  have due := (view_runs view').2.2.1
  refine ⟨fun row owed => ?_, ?_⟩
  · have since := gen'.due row (due.trans owed)
    refine ⟨since.due, fun run mem owner early decides => ?_⟩
    have := decides_since since ((mem_view_runs view').mpr ⟨mem, owner⟩) decides
    omega
  have reached : Reachable env u := reachable_trace (reachable_step reachable edit)
    (trace_mono (fun _ _ _ step => step.1) history)
  have stays : ∀ {s t : Service} {m : Ledger}, s.db.Linked → s.db.view a = some m →
      Step env s op t → ∃ m', t.db.view a = some m' := by
    intro s t m linked view step
    have seen := (apply_sees linked step).2 a
    rw [view] at seen
    generalize t.db.view a = after at seen
    cases seen with
    | deleted request quiet => simp [request, keepsSchedule] at last
    | @acts _ m' effect => exact ⟨m', rfl⟩
  have forgotten : (u.forget a edited).db.view a = some (m.forget edited) := by
    show (u.db.forget a edited).view a = _
    rw [forget_view, view']
    rfl
  have linked'' : (u.forget a edited).db.Linked := forget_linked linked' fun m' here =>
    Option.some.inj (view'.symm.trans here) ▸ gen'
  have step' : Step env (u.forget a edited) op ((u.forget a edited).next env op) :=
    ⟨last.1.1, rfl⟩
  obtain ⟨m₁, first⟩ := stays linked' view' last.1
  obtain ⟨m₂, second⟩ := stays linked'' forgotten step'
  have wf := view_wf linked' view'
  have unswayed := dueStep_unswayed gen' (reachable_sound reached view') wf
    (inTurn_separated wf (reachable_inTurn reached view'))
    (fun reading mem => later.trans (reading_le_clock last.1 mem).1)
    (fun data now request => by
      have keeps := last.2
      rw [request] at keeps
      simpa [keepsSchedule, (view_runs view').2.2.2] using keeps)
    (apply_dueStep linked' view' last.1 first) (apply_dueStep linked'' forgotten step' second)
  rwa [due, (view_runs first).2.2.1, (view_runs second).2.2.1] at unswayed

/-- The cron is edited under the run of the first minute. The next tick makes an obligation of
    the new schedule, and the old run fails beside it. -/
def Sample.respelled : TaskFields := { Sample.fields with cron := "*/1 * * * *" }

def Sample.edited : Service := running.next env (.updateTask 1 respelled (seconds 70))

def Sample.owedAnew : Service := edited.exec env [.tick 1 (seconds 120)]

theorem old_run_fails_beside :
    (∃ row, Sample.owedAnew.db.taskDue.get 1 = some row ∧ seconds 70 ≤ row.dueAt) ∧
      Unswayed (Sample.owedAnew.db.taskDue.get 1)
        ((Sample.owedAnew.next Sample.env
          (.finish 1 (.exited 1) false {} (seconds 121))).db.taskDue.get 1)
        (((Sample.owedAnew.forget 1 (seconds 70)).next Sample.env
          (.finish 1 (.exited 1) false {} (seconds 121))).db.taskDue.get 1) := by
  have along : Along Sample.env (fun s op => keepsSchedule 1 s op = true) Sample.edited
      [.tick 1 (seconds 120)] := by decide
  have stored : Sample.running.db.tasks.get 1 =
      some { Sample.task with scheduleBaselineAt := some (seconds 60) } := by decide
  have last : Step Sample.env Sample.owedAnew (.finish 1 (.exited 1) false {} (seconds 121))
      (Sample.owedAnew.next Sample.env (.finish 1 (.exited 1) false {} (seconds 121))) ∧
      keepsSchedule 1 Sample.owedAnew (.finish 1 (.exited 1) false {} (seconds 121)) = true :=
    ⟨⟨by decide, rfl⟩, by decide⟩
  obtain ⟨-, dated, unswayed⟩ := schedule_edit_starts_clean Sample.running_reachable
    ⟨by decide, rfl⟩ stored (by decide) (by decide) (trace_along along) last
  obtain ⟨row, owed, -⟩ := Option.map_eq_some_iff.mp
    (by decide : (Sample.owedAnew.db.taskDue.get 1).map TaskDue.status = some .due)
  exact ⟨⟨row, owed, (dated row owed).1⟩, unswayed⟩

end Pullbackup
