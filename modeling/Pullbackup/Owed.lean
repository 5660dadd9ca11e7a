import Pullbackup.Registry

/- api/tasks.py and services/kuma_sync.py: the operations that the edits of one task leave
   owed to its monitor. An edit holds the lifecycle lock until its sync is over. -/
namespace Pullbackup
open KeyedTable History

structure Edit where
  data : TaskFields
  now : Int
  pushes : Bool
  answers : KumaCall → Option (Nat × String)

def answerCalls (answers : KumaCall → Option (Nat × String)) (pushes : Bool) :
    Nat → Synced → Option (Synced × List KumaCall)
  | 0, s => some (s, [])
  | turns + 1, s =>
    match s.call with
    | none => some (s, [])
    | some call =>
      match resumeSync s.db s.pendingOps s.copy pushes call (answers call) with
      | none => none
      | some next =>
        (answerCalls answers pushes turns next).map fun done => (done.1, call :: done.2)

def syncTurns : Nat := 3

structure Owing where
  db : Db
  pendingOps : Nat → List MonitorOp := fun _ => []
  last : MonitorOp → Option Bool := fun _ => none

def noteCall (answers : KumaCall → Option (Nat × String)) (last : MonitorOp → Option Bool)
    (call : KumaCall) : MonitorOp → Option Bool :=
  match call with
  | .edit op _ => Function.update last op (some (answers call).isSome)
  | .create | .delete => if (answers call).isSome then fun _ => none else last
  | .push => last

def Owing.edit (kuma : Bool) (task : Nat) (s : Owing) (e : Edit) : Owing × List KumaCall :=
  match s.db.tasks.get task with
  | none => (s, [])
  | some prev =>
    match updateTask s.db task e.data e.now with
    | .error _ => (s, [])
    | .ok db =>
      match db.tasks.get task with
      | none => (s, [])
      | some copy =>
        let call := startSync kuma (s.pendingOps task) copy prev.cron prev.enabled e.pushes
        match answerCalls e.answers e.pushes syncTurns ⟨db, s.pendingOps, copy, call⟩ with
        | none => ({ s with db := db }, [])
        | some (done, calls) =>
          ({ db := done.db, pendingOps := done.pendingOps
             last := calls.foldl (noteCall e.answers) s.last }, calls)

def Owing.next (kuma : Bool) (task : Nat) (s : Owing) (e : Edit) : Owing := (s.edit kuma task e).1

/-- An owed operation stays owed, or its own call succeeded, or the monitor was deleted. -/
def KeepsOwed (kuma : Bool) (task : Nat) (s : Owing) (e : Edit) : Prop :=
  ∀ op ∈ s.pendingOps task, op ∈ (s.next kuma task e).pendingOps task ∨
    (∃ rest, .edit op rest ∈ (s.edit kuma task e).2 ∧ (e.answers (.edit op rest)).isSome) ∨
    (.delete ∈ (s.edit kuma task e).2 ∧ (e.answers .delete).isSome)

/-- Nothing is owed to a stored monitor only when the last calls on it succeeded. -/
def Accounted (task : Nat) (s : Owing) : Prop :=
  ∀ row, s.db.tasks.get task = some row → row.monitored = true → s.pendingOps task = [] →
    ∀ op, s.last op ≠ some false

/-- The edit is accepted, switches the monitor off while operations are owed to it, and the call
    that deletes it fails. -/
def FailsOwing (kuma : Bool) (task : Nat) (s : Owing) (e : Edit) : Prop :=
  kuma = true ∧ s.pendingOps task ≠ [] ∧ (updateTask s.db task e.data e.now).isOk ∧
    e.data.kumaEnabled = false ∧
    (∃ row, s.db.tasks.get task = some row ∧ row.monitored = true) ∧ e.answers .delete = none

def unanswered (answers : KumaCall → Option (Nat × String)) : List MonitorOp → List MonitorOp
  | [] => []
  | op :: rest => if (answers (.edit op rest)).isSome then unanswered answers rest else op :: rest

def attempted (answers : KumaCall → Option (Nat × String)) : List MonitorOp → List KumaCall
  | [] => []
  | op :: rest =>
    .edit op rest :: if (answers (.edit op rest)).isSome then attempted answers rest else []

section Operations
variable {answers : KumaCall → Option (Nat × String)} {todo : List MonitorOp} {op : MonitorOp}
  {last : MonitorOp → Option Bool}

theorem unanswered_or (answers : KumaCall → Option (Nat × String)) (mem : op ∈ todo) :
    op ∈ unanswered answers todo ∨
    ∃ rest, .edit op rest ∈ attempted answers todo ∧ (answers (.edit op rest)).isSome := by
  induction todo with
  | nil => cases mem
  | cons first rest ih =>
    by_cases answered : (answers (.edit first rest)).isSome
    · simp only [unanswered, attempted, if_pos answered]
      rcases List.mem_cons.mp mem with rfl | later
      · exact Or.inr ⟨rest, List.mem_cons_self, answered⟩
      · rcases ih later with stays | ⟨others, made, done⟩
        · exact Or.inl stays
        · exact Or.inr ⟨others, List.mem_cons_of_mem _ made, done⟩
    · simp only [unanswered, if_neg answered]
      exact Or.inl mem

theorem note_attempted (owed : last op = some false → op ∈ todo)
    (failed : (attempted answers todo).foldl (noteCall answers) last op = some false) :
    op ∈ unanswered answers todo := by
  induction todo generalizing last with
  | nil => exact absurd (owed failed) List.not_mem_nil
  | cons first rest ih =>
    by_cases answered : (answers (.edit first rest)).isSome
    · simp only [unanswered, attempted, if_pos answered, List.foldl_cons] at failed ⊢
      refine ih ?_ failed
      intro before
      by_cases same : op = first
      · simp [noteCall, same, answered] at before
      · simp only [noteCall, Function.update_of_ne same] at before
        exact (List.mem_cons.mp (owed before)).resolve_left same
    · simp only [unanswered, attempted, if_neg answered, List.foldl_cons, List.foldl_nil] at failed ⊢
      by_cases same : op = first
      · rw [same]
        exact List.mem_cons_self
      · simp only [noteCall, Function.update_of_ne same] at failed
        exact owed failed

theorem note_pushes {calls : List KumaCall} (pushes : ∀ c ∈ calls, c = .push) :
    calls.foldl (noteCall answers) last = last := by
  induction calls with
  | nil => rfl
  | cons c calls ih =>
    rw [List.foldl_cons, pushes c List.mem_cons_self]
    exact ih fun c mem => pushes c (List.mem_cons_of_mem _ mem)

end Operations

/-- How a sync of a copy can end: the database, what is owed, and the calls made. -/
inductive SyncEnd (kuma : Bool) (answers : KumaCall → Option (Nat × String)) (db : Db)
    (ops : Nat → List MonitorOp) (copy : Task) :
    Db → (Nat → List MonitorOp) → List KumaCall → Prop where
  | idle {calls : List KumaCall} (pushes : ∀ c ∈ calls, c = .push)
      (keeps : kuma = false ∨ copy.monitored = false ∨ copy.kumaEnabled = true) :
      SyncEnd kuma answers db ops copy db ops calls
  | created {row : Task} {calls : List KumaCall} (pushes : ∀ c ∈ calls, c = .push)
      (bare : copy.monitored = false) (done : (answers .create).isSome) (own : row.id = copy.id) :
      SyncEnd kuma answers db ops copy { db with tasks := db.tasks.put row }
        (Function.update ops copy.id []) (.create :: calls)
  | createFailed (bare : copy.monitored = false) (refused : answers .create = none) :
      SyncEnd kuma answers db ops copy db (Function.update ops copy.id []) [.create]
  | edited {todo : List MonitorOp} {calls : List KumaCall} (pushes : ∀ c ∈ calls, c = .push)
      (there : copy.monitored = true) (on : copy.kumaEnabled = true)
      (covers : ∀ op ∈ ops copy.id, op ∈ todo) :
      SyncEnd kuma answers db ops copy db (Function.update ops copy.id (unanswered answers todo))
        (attempted answers todo ++ calls)
  | deleted {row : Task} {calls : List KumaCall} (pushes : ∀ c ∈ calls, c = .push)
      (there : copy.monitored = true) (off : copy.kumaEnabled = false)
      (done : (answers .delete).isSome) (own : row.id = copy.id) (bare : row.monitored = false) :
      SyncEnd kuma answers db ops copy { db with tasks := db.tasks.put row }
        (Function.update ops copy.id []) (.delete :: calls)
  | deleteFailed (configured : kuma = true) (there : copy.monitored = true)
      (off : copy.kumaEnabled = false) (refused : answers .delete = none) :
      SyncEnd kuma answers db ops copy db (Function.update ops copy.id []) [.delete]

section Syncs
variable (answers : KumaCall → Option (Nat × String)) (pushes : Bool) (db : Db)
  (ops : Nat → List MonitorOp) (copy : Task)

theorem answer_call (call : KumaCall) {next : Synced} (turns : Nat)
    (resumed : resumeSync db ops copy pushes call (answers call) = some next) :
    answerCalls answers pushes (turns + 1) ⟨db, ops, copy, some call⟩ =
      (answerCalls answers pushes turns next).map fun done => (done.1, call :: done.2) := by
  simp only [answerCalls, resumed]

theorem answer_end (s : Synced) (turns : Nat) (only : ∀ c, s.call = some c → c = .push) :
    ∃ calls, answerCalls answers pushes (turns + 1) s = some ({ s with call := none }, calls) ∧
      ∀ c ∈ calls, c = .push := by
  obtain ⟨db, ops, copy, call⟩ := s
  cases call with
  | none => exact ⟨[], rfl, by simp⟩
  | some c =>
    obtain rfl := only c rfl
    cases turns with
    | zero => exact ⟨[.push], rfl, by simp⟩
    | succ turns => exact ⟨[.push], rfl, by simp⟩

theorem answer_last (call : KumaCall) {next : Synced} (turns : Nat)
    (resumed : resumeSync db ops copy pushes call (answers call) = some next)
    (only : ∀ c, next.call = some c → c = .push) :
    ∃ calls, answerCalls answers pushes (turns + 2) ⟨db, ops, copy, some call⟩ =
        some ({ next with call := none }, call :: calls) ∧ ∀ c ∈ calls, c = .push := by
  obtain ⟨calls, ended, pushed⟩ := answer_end answers pushes next turns only
  refine ⟨calls, ?_, pushed⟩
  rw [answer_call answers pushes db ops copy call (turns + 1) resumed, ended]
  rfl

theorem answer_failed (call : KumaCall) {ops' : Nat → List MonitorOp} (turns : Nat)
    (resumed : resumeSync db ops copy pushes call (answers call) = some ⟨db, ops', copy, none⟩) :
    answerCalls answers pushes (turns + 2) ⟨db, ops, copy, some call⟩ =
      some (⟨db, ops', copy, none⟩, [call]) := by
  rw [answer_call answers pushes db ops copy call (turns + 1) resumed]
  rfl

theorem answer_edits (op : MonitorOp) (rest : List MonitorOp) (turns : Nat)
    (enough : rest.length ≤ turns) :
    ∃ calls, answerCalls answers pushes (turns + 2) ⟨db, ops, copy, some (.edit op rest)⟩ =
        some (⟨db, Function.update ops copy.id (unanswered answers (op :: rest)), copy, none⟩,
          attempted answers (op :: rest) ++ calls) ∧ ∀ c ∈ calls, c = .push := by
  induction rest generalizing op turns with
  | nil =>
    cases answer : answers (.edit op []) with
    | none =>
      refine ⟨[], ?_, by simp⟩
      simp [answerCalls, resumeSync, answer, unanswered, attempted]
    | some monitor =>
      have resumed : resumeSync db ops copy pushes (.edit op []) (answers (.edit op [])) =
          some ⟨db, Function.update ops copy.id [], copy, endSync copy pushes⟩ := by
        rw [answer]
        rfl
      obtain ⟨calls, ended, pushed⟩ := answer_last answers pushes db ops copy _ turns resumed
        fun c call => endSync_push call
      refine ⟨calls, ?_, pushed⟩
      rw [ended]
      simp [answer, unanswered, attempted]
  | cons first rest ih =>
    cases answer : answers (.edit op (first :: rest)) with
    | none =>
      refine ⟨[], ?_, by simp⟩
      simp [answerCalls, resumeSync, answer, unanswered, attempted]
    | some monitor =>
      cases turns with
      | zero => simp at enough
      | succ turns =>
        have resumed : resumeSync db ops copy pushes (.edit op (first :: rest))
            (answers (.edit op (first :: rest))) =
              some ⟨db, ops, copy, some (.edit first rest)⟩ := by
          rw [answer]
          rfl
        obtain ⟨calls, ended, pushed⟩ := ih first turns (by simpa using enough)
        refine ⟨calls, ?_, pushed⟩
        rw [answer_call answers pushes db ops copy _ (turns + 2) resumed, ended]
        simp [answer, unanswered, attempted]

theorem writeMonitor_stored (stored : db.tasks.get copy.id = some copy)
    (monitor : Option (Nat × String)) :
    writeMonitor db ops copy monitor pushes =
      some ⟨{ db with tasks := db.tasks.put { copy with
          kumaMonitorId := monitor.map Prod.fst, kumaPushToken := monitor.map Prod.snd } },
        Function.update ops copy.id [],
        { copy with kumaMonitorId := monitor.map Prod.fst, kumaPushToken := monitor.map Prod.snd },
        endSync { copy with
          kumaMonitorId := monitor.map Prod.fst, kumaPushToken := monitor.map Prod.snd } pushes⟩ := by
  rw [writeMonitor, stored]

theorem startSync_owed {pending : List MonitorOp} {prevCron : String} {prevEnabled : Bool}
    (on : copy.kumaEnabled = true) (there : copy.monitored = true)
    (due : copy.cron ≠ prevCron ∨ copy.enabled ≠ prevEnabled ∨ pending ≠ []) :
    startSync true pending copy prevCron prevEnabled pushes = endSync copy pushes ∨
    ∃ op rest, startSync true pending copy prevCron prevEnabled pushes = some (.edit op rest) ∧
      rest.length ≤ 1 ∧ ∀ mine ∈ pending, mine ∈ op :: rest := by
  rw [startSync, if_neg (by simp), if_neg (by simp [there]), if_pos ⟨on, there, due⟩]
  dsimp only
  split
  · exact Or.inl rfl
  · rename_i op rest owed
    refine Or.inr ⟨op, rest, rfl, ?_, ?_⟩
    · have short := List.length_filter_le _ [MonitorOp.interval, .active]
        |>.trans_eq' (congrArg List.length owed)
      simp at short
      omega
    · intro mine mem
      rw [← owed]
      cases mine <;> simp [mem]

/-- A sync ends within its turns, in one of the ways listed. -/
theorem sync_ends (stored : db.tasks.get copy.id = some copy) (kuma : Bool) (prevCron : String)
    (prevEnabled : Bool) :
    ∃ done calls, answerCalls answers pushes syncTurns ⟨db, ops, copy,
        startSync kuma (ops copy.id) copy prevCron prevEnabled pushes⟩ = some (done, calls) ∧
      SyncEnd kuma answers db ops copy done.db done.pendingOps calls := by
  have idle : ∀ call, (∀ c, call = some c → c = .push) →
      (kuma = false ∨ copy.monitored = false ∨ copy.kumaEnabled = true) →
      ∃ done calls, answerCalls answers pushes syncTurns ⟨db, ops, copy, call⟩ = some (done, calls) ∧
        SyncEnd kuma answers db ops copy done.db done.pendingOps calls := by
    intro call only keeps
    obtain ⟨calls, ended, pushed⟩ := answer_end answers pushes ⟨db, ops, copy, call⟩ 2 only
    exact ⟨_, calls, ended, .idle pushed keeps⟩
  by_cases on : kuma = true
  swap
  · rw [startSync, if_pos (by simpa using on)]
    exact idle none (by simp) (Or.inl (by simpa using on))
  subst on
  by_cases there : copy.monitored = true
  · by_cases enabled : copy.kumaEnabled = true
    · by_cases due : copy.cron ≠ prevCron ∨ copy.enabled ≠ prevEnabled ∨ ops copy.id ≠ []
      · rcases startSync_owed pushes copy enabled there due with same | ⟨op, rest, same, short, covers⟩
        · rw [same]
          exact idle _ (fun c call => endSync_push call) (Or.inr (Or.inr enabled))
        · obtain ⟨calls, ended, pushed⟩ := answer_edits answers pushes db ops copy op rest 1 short
          rw [same]
          exact ⟨_, _, ended, .edited pushed there enabled covers⟩
      · rw [startSync, if_neg (by simp), if_neg (by simp [there]), if_neg (fun all => due all.2.2),
          if_neg (by simp [enabled])]
        exact idle _ (fun c call => endSync_push call) (Or.inr (Or.inr enabled))
    · have off : copy.kumaEnabled = false := by simpa using enabled
      rw [startSync, if_neg (by simp), if_neg (by simp [off]), if_neg (by simp [off]),
        if_pos ⟨off, there⟩]
      cases answer : answers .delete with
      | none =>
        have ended := answer_failed answers pushes db ops copy .delete 1 (by rw [answer]; rfl)
        exact ⟨_, _, ended, .deleteFailed rfl there off answer⟩
      | some monitor =>
        have resumed := writeMonitor_stored pushes db ops copy stored none
        obtain ⟨calls, ended, pushed⟩ := answer_last answers pushes db ops copy .delete 1
          (by rw [answer]; exact resumed) fun c call => endSync_push call
        exact ⟨_, _, ended, .deleted pushed there off (by simp [answer]) rfl rfl⟩
  · have bare : copy.monitored = false := by simpa using there
    by_cases enabled : copy.kumaEnabled = true
    · rw [startSync, if_neg (by simp), if_pos ⟨enabled, bare⟩]
      cases answer : answers .create with
      | none =>
        have ended := answer_failed answers pushes db ops copy .create 1 (by rw [answer]; rfl)
        exact ⟨_, _, ended, .createFailed bare answer⟩
      | some monitor =>
        have resumed := writeMonitor_stored pushes db ops copy stored (some monitor)
        obtain ⟨calls, ended, pushed⟩ := answer_last answers pushes db ops copy .create 1
          (by rw [answer]; exact resumed) fun c call => endSync_push call
        exact ⟨_, _, ended, .created pushed bare (by simp [answer]) rfl⟩
    · rw [startSync, if_neg (by simp), if_neg (fun all => enabled all.1),
        if_neg (fun all => enabled all.1), if_neg (fun all => there all.2)]
      exact idle _ (fun c call => endSync_push call) (Or.inr (Or.inl bare))

end Syncs

section Edits
variable {kuma : Bool} {task : Nat} {s : Owing} {e : Edit}

theorem edit_ends (kuma : Bool) (task : Nat) (s : Owing) (e : Edit) :
    (updateTask s.db task e.data e.now).isOk = false ∧ s.edit kuma task e = (s, []) ∨
    ∃ prev db copy, s.db.tasks.get task = some prev ∧
      (updateTask s.db task e.data e.now).isOk ∧ db.tasks.get task = some copy ∧
      copy.id = task ∧ copy.kumaEnabled = e.data.kumaEnabled ∧ copy.monitored = prev.monitored ∧
      SyncEnd kuma e.answers db s.pendingOps copy (s.next kuma task e).db
        (s.next kuma task e).pendingOps (s.edit kuma task e).2 ∧
      (s.next kuma task e).last = (s.edit kuma task e).2.foldl (noteCall e.answers) s.last := by
  cases updated : updateTask s.db task e.data e.now with
  | error problem =>
    refine Or.inl ⟨rfl, ?_⟩
    unfold Owing.edit
    split
    · rfl
    · rw [updated]
  | ok db =>
    obtain ⟨prev, row, stored, tasks, key, data, monitor, token⟩ := updateTask_row updated
    have here : db.tasks.get task = some row := by
      rw [tasks, Table.get_put, key_task, if_pos key]
    obtain ⟨done, calls, ended, ends⟩ := sync_ends e.answers e.pushes db s.pendingOps row
      (by rw [key]; exact here) kuma prev.cron prev.enabled
    rw [key] at ended
    have shape : s.edit kuma task e = (⟨done.db, done.pendingOps,
        calls.foldl (noteCall e.answers) s.last⟩, calls) := by
      simp only [Owing.edit, stored, updated, here, ended]
    right
    refine ⟨prev, db, row, stored, rfl, here, key, congrArg _ data, ?_, ?_, ?_⟩
    · rw [Task.monitored, Task.monitored, monitor]
    · rw [Owing.next, shape]
      exact ends
    · rw [Owing.next, shape]

/-- An operation whose last call failed is owed; without a stored monitor nothing is owed and
    nothing was called. -/
structure Owing.Sound (task : Nat) (s : Owing) : Prop where
  owed : ∀ op, s.last op = some false → op ∈ s.pendingOps task
  bare : ∀ row, s.db.tasks.get task = some row → row.monitored = false →
    s.pendingOps task = [] ∧ ∀ op, s.last op = none

theorem sound_accounted (sound : s.Sound task) : Accounted task s := by
  intro row stored there empty op failed
  have mem := sound.owed op failed
  rw [empty] at mem
  cases mem

/-- A deletion that fails while operations are owed forgets them. -/
theorem failsOwing_forgets (fails : FailsOwing kuma task s e) : ¬ KeepsOwed kuma task s e := by
  obtain ⟨on, owes, accepted, off, ⟨row, stored, there⟩, refused⟩ := fails
  rcases edit_ends kuma task s e with ⟨rejected, -⟩ |
    ⟨prev, db, copy, found, -, -, key, switched, same, ends, -⟩
  · rw [accepted] at rejected
    cases rejected
  · obtain rfl := Option.some.inj (stored.symm.trans found)
    rw [there] at same
    rw [off] at switched
    subst key
    intro keeps
    obtain ⟨op, rest, owed⟩ := List.exists_cons_of_ne_nil owes
    have kept := keeps op (by rw [owed]; exact List.mem_cons_self)
    generalize (s.next kuma copy.id e).db = db', (s.next kuma copy.id e).pendingOps = ops',
      (s.edit kuma copy.id e).2 = calls at ends kept
    cases ends with
    | idle pushes keeps =>
      rcases keeps with no | no | no
      · rw [on] at no
        cases no
      · rw [same] at no
        cases no
      · rw [switched] at no
        cases no
    | created pushes bare => exact absurd (same.symm.trans bare) (by simp)
    | createFailed bare => exact absurd (same.symm.trans bare) (by simp)
    | edited pushes there enabled => exact absurd (switched.symm.trans enabled) (by simp)
    | deleted pushes there disabled done =>
      rw [refused] at done
      cases done
    | deleteFailed => simp [refused] at kept

theorem syncEnd_owed {answers : KumaCall → Option (Nat × String)} {db db' : Db}
    {ops ops' : Nat → List MonitorOp} {copy : Task} {calls : List KumaCall}
    {last : MonitorOp → Option Bool} (ends : SyncEnd kuma answers db ops copy db' ops' calls)
    (here : db.tasks.get copy.id = some copy)
    (sound : (⟨db, ops, last⟩ : Owing).Sound copy.id)
    (safe : kuma = true → copy.monitored = true → copy.kumaEnabled = false →
      answers .delete = none → ops copy.id = []) :
    (∀ op ∈ ops copy.id, op ∈ ops' copy.id ∨
      (∃ rest, .edit op rest ∈ calls ∧ (answers (.edit op rest)).isSome) ∨
      (.delete ∈ calls ∧ (answers .delete).isSome)) ∧
    (⟨db', ops', calls.foldl (noteCall answers) last⟩ : Owing).Sound copy.id := by
  obtain ⟨owed, unseen⟩ := sound
  dsimp only at owed unseen
  cases ends with
  | idle pushes keeps =>
    rw [note_pushes pushes]
    exact ⟨fun op mem => Or.inl mem, owed, unseen⟩
  | created pushes bare done own =>
    have nothing : ops copy.id = [] := (unseen copy here bare).1
    rw [List.foldl_cons, note_pushes pushes, noteCall, if_pos done]
    refine ⟨by simp [nothing], by simp, ?_⟩
    intro row stored unmonitored
    exact ⟨Function.update_self _ _ _, fun op => rfl⟩
  | createFailed bare refused =>
    obtain ⟨nothing, uncalled⟩ := unseen copy here bare
    have same : noteCall answers last .create = last := by simp [noteCall, refused]
    rw [List.foldl_cons, List.foldl_nil, same]
    refine ⟨by simp [nothing], ?_, ?_⟩
    · intro op failed
      exact absurd ((uncalled op).symm.trans failed) (by simp)
    · exact fun row stored unmonitored => ⟨Function.update_self _ _ _, uncalled⟩
  | edited pushes there enabled covers =>
    rw [List.foldl_append, note_pushes pushes]
    refine ⟨?_, ?_, ?_⟩
    · intro op mem
      rw [Function.update_self]
      rcases unanswered_or answers (covers op mem) with stays | ⟨rest, made, done⟩
      · exact Or.inl stays
      · exact Or.inr (Or.inl ⟨rest, List.mem_append_left _ made, done⟩)
    · intro op failed
      dsimp only at failed ⊢
      rw [Function.update_self]
      exact note_attempted (fun before => covers op (owed op before)) failed
    · intro row stored unmonitored
      rw [Option.some.inj (stored.symm.trans here), there] at unmonitored
      cases unmonitored
  | deleted pushes there off done own bare =>
    rw [List.foldl_cons, note_pushes pushes, noteCall, if_pos done]
    refine ⟨fun op mem => Or.inr (Or.inr ⟨List.mem_cons_self, done⟩), by simp, ?_⟩
    exact fun row stored unmonitored => ⟨Function.update_self _ _ _, fun op => rfl⟩
  | deleteFailed configured there off refused =>
    have nothing := safe configured there off refused
    have same : noteCall answers last .delete = last := by simp [noteCall, refused]
    rw [List.foldl_cons, List.foldl_nil, same]
    refine ⟨by simp [nothing], ?_, ?_⟩
    · intro op failed
      have mem := owed op failed
      rw [nothing] at mem
      cases mem
    · intro row stored unmonitored
      rw [Option.some.inj (stored.symm.trans here), there] at unmonitored
      cases unmonitored

theorem step_owed (sound : s.Sound task) (safe : ¬ FailsOwing kuma task s e) :
    KeepsOwed kuma task s e ∧ (s.next kuma task e).Sound task := by
  rcases edit_ends kuma task s e with ⟨-, same⟩ |
    ⟨prev, db, copy, found, accepted, here, rfl, switched, same, ends, noted⟩
  · rw [KeepsOwed, Owing.next, same]
    exact ⟨fun op mem => Or.inl mem, sound⟩
  · have before : (⟨db, s.pendingOps, s.last⟩ : Owing).Sound copy.id := by
      refine ⟨sound.owed, ?_⟩
      intro row stored unmonitored
      rw [Option.some.inj (stored.symm.trans here), same] at unmonitored
      exact sound.bare prev found unmonitored
    have spared : kuma = true → copy.monitored = true → copy.kumaEnabled = false →
        e.answers .delete = none → s.pendingOps copy.id = [] := by
      intro configured there off refused
      by_contra owes
      exact safe ⟨configured, owes, accepted, switched.symm.trans off,
        ⟨prev, found, same.symm.trans there⟩, refused⟩
    obtain ⟨keeps, account⟩ := syncEnd_owed ends here before spared
    rw [← noted] at account
    exact ⟨keeps, account⟩

end Edits

/-- Over the edits of a task, with any answers to their calls: every sync keeps what is owed
    until its own call succeeds or the monitor is deleted, and nothing is owed to a stored
    monitor only when the last calls on it succeeded, exactly when no sync fails to delete a
    monitor while operations are owed to it. -/
theorem owed_never_forgotten_iff (kuma : Bool) (task : Nat) (db : Db) (edits : List Edit) :
    EveryStep (Owing.next kuma task)
        (fun s e => KeepsOwed kuma task s e ∧ Accounted task (s.next kuma task e)) { db := db } edits ↔
      EveryStep (Owing.next kuma task) (fun s e => ¬ FailsOwing kuma task s e) { db := db } edits := by
  refine everyStep_iff (Owing.Sound task) ?_ ?_ ⟨by simp, fun row stored unmonitored =>
    ⟨rfl, fun op => rfl⟩⟩ edits
  · intro s e sound
    constructor
    · exact fun holds fails => failsOwing_forgets fails holds.1
    · intro safe
      obtain ⟨keeps, after⟩ := step_owed sound safe
      exact ⟨keeps, sound_accounted after⟩
  · exact fun s e sound safe => (step_owed sound safe).2

/- The task of mail with its monitor, and three edits of it: off, with the pause refused;
   its monitor switched off, with the deletion refused; and the monitor wanted again. -/

def Sample.watchedMail : Db :=
  { nas with
    tasks := nas.tasks.put { mail with
      id := 1, kumaMonitorId := some 7, kumaPushToken := some "token", createdAt := 0, updatedAt := 0 } }

def Sample.refuses (refused : KumaCall) (call : KumaCall) : Option (Nat × String) :=
  if call = refused then none else some (7, "token")

def Sample.pauseRefused : Edit :=
  ⟨{ mail with enabled := false }, 10, false, refuses (.edit .active [])⟩

def Sample.deleteRefused : Edit :=
  ⟨{ mail with enabled := false, kumaEnabled := false }, 20, false, refuses .delete⟩

def Sample.wantedAgain : Edit := ⟨{ mail with enabled := false }, 30, false, refuses .create⟩

def Sample.forgetful : List Edit := [pauseRefused, deleteRefused, wantedAgain]

/-- The pause that was refused is never made: the task is disabled and its monitor runs. -/
theorem failed_delete_forgets_pause :
    ((Owing.next true 1 { db := Sample.watchedMail } Sample.pauseRefused).pendingOps 1 = [.active]) ∧
    ¬ EveryStep (Owing.next true 1)
        (fun s e => KeepsOwed true 1 s e ∧ Accounted 1 (s.next true 1 e)) { db := Sample.watchedMail }
        Sample.forgetful ∧
    (Sample.forgetful.foldl (Owing.next true 1) { db := Sample.watchedMail }).pendingOps 1 = [] ∧
    (Sample.forgetful.foldl (Owing.next true 1) { db := Sample.watchedMail }).last .active = some false := by
  refine ⟨by decide +kernel, ?_, by decide +kernel, by decide +kernel⟩
  rintro ⟨-, ⟨keeps, -⟩, -⟩
  rcases keeps .active (by decide +kernel) with stays | ⟨rest, made, -⟩ | ⟨-, done⟩
  · exact absurd stays (by decide +kernel)
  · have calls : ((Owing.next true 1 { db := Sample.watchedMail } Sample.pauseRefused).edit true 1
        Sample.deleteRefused).2 = [.delete] := by decide +kernel
    rw [calls] at made
    simp at made
  · exact absurd done (by decide)

end Pullbackup
