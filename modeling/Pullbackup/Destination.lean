import Pullbackup.Concurrency
import Pullbackup.Library.Filesystem
import Mathlib.Data.List.MinMax

/- services/fs.py, and the directories that running executions hold open while
   anyone may change the tree under them. -/
namespace Pullbackup
open KeyedTable Filesystem History

/-- Why a destination is refused, or the error of the system itself. -/
inductive DestinationError where
  | empty
  | controlCharacters
  | relative
  | outside (path : String)
  | rootNotOpened (root : Path)
  | componentIsSymlink (name : String)
  | missing (path : String)
  | system
  deriving DecidableEq, Repr

def DestinationError.message (error : String) : DestinationError → String
  | .empty => "destination path is empty"
  | .controlCharacters => "destination path contains control characters"
  | .relative => "destination path must be absolute"
  | .outside path => path ++ " is not inside an allowed destination root"
  | .rootNotOpened root => "destination root /" ++ "/".intercalate root ++ " cannot be opened: " ++ error
  | .componentIsSymlink name => "destination component '" ++ name ++ "' is a symlink: " ++ error
  | .missing path => path ++ " does not exist"
  | .system => error

def forbiddenPathCharacters : List Char := ['\x00', '\n', '\r']

def forbidden (path : String) : Bool := path.toList.any fun c => forbiddenPathCharacters.contains c

def isAbsolute (path : String) : Bool := path.toList.head? = some '/'

def components (path : String) : List String := (path.toList.splitOn '/').map String.ofList

def canonicalRoots (fs : Tree) (roots : List String) : List Path :=
  (roots.filter fun root => isAbsolute root && !forbidden root).map fun root =>
    resolve fs (components root)

def resolveWithRoot (fs : Tree) (roots : List String) (path : String) :
    Except DestinationError (Path × Path) :=
  if path = "" then .error .empty
  else if forbidden path then .error .controlCharacters
  else if !isAbsolute path then .error .relative
  else
    let resolved := resolve fs (components path)
    let containing := (canonicalRoots fs roots).filter fun root => root.isPrefixOf resolved
    match containing.argmax List.length with
    | none => .error (.outside path)
    | some root => .ok (resolved, root)

structure PinnedDestination where
  inode : Nat
  path : Path
  deriving DecidableEq, Repr

def openChild (fs : Tree) (parent : Path) (name : String) (create : Bool) :
    Tree × Except DestinationError PinnedDestination :=
  let fs := if create then fs.mkdir parent name else fs
  match fs.node (parent ++ [name]) with
  | some (.dir inode) => (fs, .ok ⟨inode, parent ++ [name]⟩)
  | some (.link _ _) => (fs, .error (.componentIsSymlink name))
  | _ => (fs, .error .system)

def walkFrom (create : Bool) (fs : Tree) (current : PinnedDestination) :
    List String → Tree × Except DestinationError (Option PinnedDestination)
  | [] => (fs, .ok (some current))
  | name :: rest =>
    if !create && (fs.node (current.path ++ [name])).isNone then (fs, .ok none)
    else
      match openChild fs current.path name create with
      | (fs, .error error) => (fs, .error error)
      | (fs, .ok child) => walkFrom create fs child rest

def walkDestination (fs : Tree) (roots : List String) (path : String) (create : Bool) :
    Tree × Except DestinationError (Option PinnedDestination) :=
  match resolveWithRoot fs roots path with
  | .error error => (fs, .error error)
  | .ok (resolved, root) =>
    match fs.node root with
    | some (.dir inode) => walkFrom create fs ⟨inode, root⟩ (resolved.drop root.length)
    | _ => (fs, .error (.rootNotOpened root))

def openDestination (fs : Tree) (roots : List String) (path : String) :
    Tree × Except DestinationError PinnedDestination :=
  match walkDestination fs roots path true with
  | (fs, .error error) => (fs, .error error)
  | (fs, .ok none) => (fs, .error (.missing path))
  | (fs, .ok (some pinned)) => (fs, .ok pinned)

def destinationKey (fs : Tree) (roots : List String) (path : String) :
    Except DestinationError DestKey :=
  (resolveWithRoot fs roots path).map fun found => "fs" :: "/" :: found.1

/-- validate_destination and _destination_key, which follow each other at once. -/
def checkDestination (fs : Tree) (roots : List String) (path : String) :
    Except DestinationError DestKey :=
  match (walkDestination fs roots path false).2 with
  | .error error => .error error
  | .ok _ => destinationKey fs roots path

section Walk
variable {fs fs' : Tree} {roots : List String} {path : String}

theorem openChild_opened {parent : Path} {name : String} {create : Bool} {child : PinnedDestination}
    (opened : openChild fs parent name create = (fs', .ok child)) :
    child.path = parent ++ [name] ∧ fs'.node child.path = some (.dir child.inode) ∧
      ∀ q n, fs.node q = some n → fs'.node q = some n := by
  simp only [openChild] at opened
  split at opened
  · rename_i inode here
    cases opened
    refine ⟨rfl, here, ?_⟩
    intro q n found
    split
    · exact Tree.mkdir_keeps found
    · exact found
  · cases opened
  · cases opened

/-- A walk that opens every component ends in the directory of its path. -/
theorem walkFrom_opened {create : Bool} {current pinned : PinnedDestination} {rest : List String}
    (start : fs.node current.path = some (.dir current.inode))
    (opened : walkFrom create fs current rest = (fs', .ok (some pinned))) :
    pinned.path = current.path ++ rest ∧ fs'.node pinned.path = some (.dir pinned.inode) ∧
      ∀ q n, fs.node q = some n → fs'.node q = some n := by
  induction rest generalizing fs current with
  | nil =>
    cases opened
    exact ⟨(List.append_nil _).symm, start, fun _ _ found => found⟩
  | cons name rest ih =>
    simp only [walkFrom] at opened
    split at opened
    · cases opened
    · split at opened
      · cases opened
      · rename_i between child first
        obtain ⟨named, here, kept⟩ := openChild_opened first
        obtain ⟨whole, found, keeps⟩ := ih here opened
        refine ⟨?_, found, fun q n old => keeps q n (kept q n old)⟩
        rw [whole, named, List.append_assoc]
        rfl

theorem resolveWithRoot_root {resolved root : Path}
    (found : resolveWithRoot fs roots path = .ok (resolved, root)) : root <+: resolved := by
  simp only [resolveWithRoot] at found
  split at found
  · cases found
  · split at found
    · cases found
    · split at found
      · cases found
      · split at found
        · cases found
        · rename_i specific
          cases found
          have mem := (List.mem_filter.mp (List.argmax_mem specific)).2
          exact List.isPrefixOf_iff_prefix.mp mem

theorem openDestination_opened {pinned : PinnedDestination}
    (opened : openDestination fs roots path = (fs', .ok pinned)) :
    destinationKey fs roots path = .ok ("fs" :: "/" :: pinned.path) ∧
      fs'.node pinned.path = some (.dir pinned.inode) ∧
      ∀ q n, fs.node q = some n → fs'.node q = some n := by
  simp only [openDestination] at opened
  split at opened
  · cases opened
  · cases opened
  · rename_i walked
    cases opened
    simp only [walkDestination] at walked
    split at walked
    · cases walked
    · rename_i resolved root found
      split at walked
      · rename_i inode start
        obtain ⟨named, here, keeps⟩ := walkFrom_opened start walked
        refine ⟨?_, here, keeps⟩
        have inside := List.prefix_iff_eq_append.mp (resolveWithRoot_root found)
        simp only [destinationKey, found, Except.map]
        rw [named, inside]
      · cases walked

end Walk

/-- The process, the tree it shares with everyone, and the directory that each execution has
    open. -/
structure Host where
  process : Process
  fs : Tree
  opened : Nat → Option Nat := fun _ => none

inductive HostAct where
  | change (fs : Tree)
  | act (act : Act)

def Task.onFilesystem (task : Task) : Bool := decide (task.taskType ≠ "syncoid")

def Phase.locals : Phase → Option Locals
  | .suspended _ locals _ => some locals
  | _ => none

def opens (p q : Process) (e : Nat) : Option Task :=
  if !(p.phase e).inBody && (q.phase e).inBody then
    ((q.phase e).locals.map Locals.task).filter Task.onFilesystem
  else none

/-- The first transaction of e asks the tree, when the task writes to it. -/
def Host.answers (roots : List String) (h : Host) (e : Nat) (w : World) : Bool :=
  if h.process.phase e = .created false then
    match (h.process.db.runs.get e).bind fun run => h.process.db.tasks.get run.taskId with
    | some task =>
      !task.onFilesystem ||
        w.destination.toOption = (checkDestination h.fs roots task.localPath).toOption
    | none => true
  else true

def Host.closed (h : Host) (q : Process) : Host :=
  { h with process := q, opened := fun e => if (q.phase e).inBody then h.opened e else none }

def Host.resumed (roots : List String) (h : Host) (q : Process) (e : Nat) : Option Host :=
  match opens h.process q e with
  | none => some (h.closed q)
  | some task =>
    match openDestination h.fs roots task.localPath with
    -- what a walk that fails has created before is one of the changes
    | (_, .error _) => none
    | (fs, .ok pinned) =>
      some { process := q, fs := fs
             opened := Function.update (h.closed q).opened e (some pinned.inode) }

def Host.step (limits : Limits) (roots : List String) (h : Host) : HostAct → Option Host
  | .change fs => some { h with fs := fs }
  | .act act =>
    (h.process.step limits act).bind fun q =>
      match act with
      | .resume e w => if h.answers roots e w then h.resumed roots q e else none
      | _ => some (h.closed q)

def Host.init (limits : Limits) (db : Db) (now : Int) (fs : Tree) : Host :=
  { process := Process.init limits db now, fs := fs }

/-- An open that has waited meets the path its key was computed from, and a change leaves every
    open directory at its path. -/
def Host.Unmoved (limits : Limits) (roots : List String) (h : Host) : HostAct → Prop
  | .change fs => ∀ e inode path, h.opened e = some inode → h.fs.node path = some (.dir inode) →
      fs.node path = some (.dir inode)
  | .act (.resume e w) => ∀ q task locals, h.process.step limits (.resume e w) = some q →
      opens h.process q e = some task → (h.process.phase e).locals = some locals →
      destinationKey h.fs roots task.localPath = .ok locals.key
  | .act _ => True

def HostMoves (limits : Limits) (roots : List String) (h : Host) (act : HostAct) (h' : Host) : Prop :=
  h.step limits roots act = some h'

def Served (e : Nat) (locals : Locals) (q : Process) : Prop :=
  q.phase e = .ended ∨ ∃ await, q.phase e = .suspended await locals false

section Locals
variable {limits : Limits} {p q : Process} {e : Nat} {locals : Locals} {w : World} {exit : Exit}
  {now : Int}

theorem suspend_served (p : Process) (e : Nat) (await : Await) (locals : Locals) :
    Served e locals (suspend p e await locals) :=
  Or.inr ⟨await, Function.update_self e _ _⟩

theorem leaveExecuteRun_served : Served e locals (leaveExecuteRun p e exit now) :=
  Or.inl (Function.update_self e _ _)

theorem leaveExclusion_served : Served e locals (leaveExclusion p e locals exit now) := by
  unfold leaveExclusion
  split
  · exact suspend_served _ e _ locals
  · exact leaveExecuteRun_served

theorem leaveSource_served : Served e locals (leaveSource p e locals exit now) :=
  leaveExclusion_served

theorem executeBody_served : Served e locals (executeBody p e locals w) := by
  unfold executeBody
  split
  · exact leaveSource_served
  · exact leaveSource_served
  · split
    · exact leaveSource_served
    · exact leaveSource_served
    · exact suspend_served _ e _ locals

theorem takeSource_served : Served e locals (takeSource p e locals w) := by
  simp only [takeSource]
  split
  · exact suspend_served _ e _ locals
  · exact executeBody_served

theorem claimDestination_served : Served e locals (claimDestination p e locals w) := by
  simp only [claimDestination]
  split
  · exact suspend_served _ e _ locals
  · simp only [takePermit]
    split
    · exact suspend_served _ e _ locals
    · exact takeSource_served

theorem leaveWait_served {cancelled : Bool} : Served e locals (leaveWait p e locals cancelled w) := by
  simp only [leaveWait]
  split
  · exact leaveExecuteRun_served
  · exact claimDestination_served

theorem lockAgain_served {cancelled : Bool} : Served e locals (lockAgain p e locals cancelled w) := by
  simp only [lockAgain]
  split
  · exact suspend_served _ e _ locals
  · exact leaveWait_served

theorem enterExclusion_served : Served e locals (enterExclusion p e locals w) := by
  simp only [enterExclusion]
  split
  · exact suspend_served _ e _ locals
  · exact claimDestination_served

theorem bodyStep_served (step : BodyStep p e locals w q) : Served e locals q := by
  cases step with
  | awaits next => exact suspend_served p e _ locals
  | concludes ending => exact leaveSource_served
  | leaves fails => exact leaveSource_served

theorem resumeAwait_served {await : Await} {cancelled : Bool}
    (resumed : resumeAwait limits p e locals cancelled w await = some q) : Served e locals q := by
  unfold resumeAwait at resumed
  cases await with
  | work work => exact bodyStep_served (resumeWork_step resumed)
  | notification =>
    simp only at resumed
    split at resumed
    · cases resumed
      exact lockAgain_served
    · cases resumed
  | conditionLock =>
    simp only at resumed
    split at resumed
    · cases resumed
      exact leaveExecuteRun_served
    · split at resumed
      · cases resumed
        exact claimDestination_served
      · cases resumed
  | conditionLockAgain before =>
    simp only at resumed
    split at resumed
    · cases resumed
      exact lockAgain_served
    · split at resumed
      · cases resumed
        exact leaveWait_served
      · cases resumed
  | permit =>
    simp only at resumed
    split at resumed
    · cases resumed
      exact leaveExclusion_served
    · split at resumed
      · cases resumed
        exact takeSource_served
      · cases resumed
  | sourceLock =>
    simp only at resumed
    split at resumed
    · cases resumed
      exact leaveExclusion_served
    · split at resumed
      · cases resumed
        exact executeBody_served
      · cases resumed
  | conditionLockToFree exit =>
    simp only at resumed
    split at resumed
    · cases resumed
      exact leaveExecuteRun_served
    · split at resumed
      · cases resumed
        exact leaveExecuteRun_served
      · cases resumed

theorem resume_locals (resumed : resume limits p e w = some q)
    (holds : (q.phase e).locals = some locals) :
    (p.phase e).locals = some locals ∨
      p.phase e = .created false ∧ prepareRun p.db e w = .ok locals := by
  have of_served : ∀ own, Served e own q → own = locals := by
    rintro own (ended | ⟨await, suspended⟩)
    · rw [ended] at holds
      cases holds
    · rw [suspended] at holds
      exact Option.some.inj holds
  unfold resume at resumed
  split at resumed
  · cases resumed
  · cases resumed
  · cases resumed
    simp [Phase.locals] at holds
  · rename_i created
    cases resumed
    refine Or.inr ⟨created, ?_⟩
    simp only [executeRun] at of_served holds
    split at holds
    · rw [show (leaveExecuteRun _ e _ _).phase e = .ended from Function.update_self e _ _] at holds
      cases holds
    · rename_i own prepared
      rw [prepared]
      rw [prepared] at of_served
      rw [of_served own enterExclusion_served]
  · rename_i await own cancelled suspended
    have same := of_served own (resumeAwait_served resumed)
    left
    rw [suspended, ← same]
    rfl

end Locals

section Hosts
variable {limits : Limits} {roots : List String} {p q : Process} {h h' : Host} {e : Nat}

theorem cancel_locals (p : Process) (e i : Nat) :
    ((cancel p e).phase i).locals = (p.phase i).locals := by
  unfold cancel
  split
  · rfl
  · rfl
  · rename_i before created
    by_cases same : i = e
    · simp [same, created, Phase.locals]
    · simp [same]
  · rename_i await locals before phase
    by_cases same : i = e
    · subst same
      cases await <;> simp [phase, Phase.locals]
    · cases await <;> simp [same]

theorem act_phase {act : Act} (reachable : ReachableFrom limits p)
    (moved : p.step limits act = some q) (e : Nat) (other : ∀ w, act ≠ .resume e w) :
    (q.phase e).inBody = (p.phase e).inBody ∧ (q.phase e).locals = (p.phase e).locals := by
  have begun : ∀ run f, startable p run = true → f = .created false ∨ f = .ended →
      (Function.update p.phase run f e).inBody = (p.phase e).inBody ∧
        (Function.update p.phase run f e).locals = (p.phase e).locals := by
    intro run f ready new
    simp only [startable, Bool.and_eq_true, decide_eq_true_eq] at ready
    by_cases same : e = run
    · subst same
      rcases new with rfl | rfl <;> simp [ready.1, Phase.inBody, Phase.locals]
    · simp [same]
  have cancelled : ∀ run, ((cancel p run).phase e).inBody = (p.phase e).inBody ∧
      ((cancel p run).phase e).locals = (p.phase e).locals :=
    fun run => ⟨(cancel_phase p run e).2, cancel_locals p run e⟩
  cases act with
  | admission task stamp =>
    cases moved
    exact ⟨rfl, rfl⟩
  | start run =>
    simp only [Process.step] at moved
    split at moved
    · rename_i ready
      cases moved
      exact begun run _ ready (Or.inl rfl)
    · cases moved
  | startFailed run now =>
    simp only [Process.step] at moved
    split at moved
    · rename_i ready
      cases moved
      exact begun run _ ready (Or.inr rfl)
    · cases moved
  | resume run w =>
    have differ : e ≠ run := fun same => other w (same ▸ rfl)
    have serves := resume_serves (reachable_standing reachable) (reachable_fits reachable run) moved
    have kept : q.phase e = p.phase e := serves.phases e differ
    exact ⟨by rw [kept], by rw [kept]⟩
  | cancel run =>
    cases moved
    exact cancelled run
  | cancelRun run =>
    cases moved
    unfold cancelRun
    split
    · exact ⟨rfl, rfl⟩
    · split
      · split
        · exact ⟨rfl, rfl⟩
        · rename_i row found active owner owned
          exact ⟨(cancel_phase _ run e).2, cancel_locals _ run e⟩
      · exact ⟨rfl, rfl⟩
  | cancelSettled run =>
    simp only [Process.step, cancelSettled] at moved
    split at moved
    · split at moved
      · cases moved
        exact ⟨rfl, rfl⟩
      · split at moved
        · cases moved
          exact ⟨rfl, rfl⟩
        · cases moved
          exact ⟨rfl, rfl⟩
    · cases moved
  | sweep now =>
    cases moved
    exact ⟨rfl, rfl⟩

/-- An open directory lies at the path of the key of an execution in its body. -/
def Pinned (h : Host) : Prop :=
  ∀ e inode, h.opened e = some inode → (h.process.phase e).inBody = true ∧
    ∃ locals path, (h.process.phase e).locals = some locals ∧ locals.key = "fs" :: "/" :: path ∧
      h.fs.node path = some (.dir inode)

theorem closed_pinned (pinned : Pinned h)
    (kept : ∀ i, (h.process.phase i).inBody = true → (q.phase i).inBody = true →
      (q.phase i).locals = (h.process.phase i).locals) : Pinned (h.closed q) := by
  intro i inode opened
  simp only [Host.closed] at opened
  split at opened
  · rename_i body
    obtain ⟨inside, locals, path, own, key, here⟩ := pinned i inode opened
    exact ⟨body, locals, path, by rw [← own]; exact kept i inside body, key, here⟩
  · cases opened

theorem opens_some {task : Task} (opening : opens p q e = some task) :
    (p.phase e).inBody = false ∧ (q.phase e).inBody = true ∧ task.onFilesystem = true ∧
      ∃ locals, (q.phase e).locals = some locals ∧ locals.task = task := by
  simp only [opens] at opening
  split at opening
  · rename_i entered
    simp only [Bool.and_eq_true, Bool.not_eq_true'] at entered
    obtain ⟨own, files⟩ := Option.filter_eq_some_iff.mp opening
    obtain ⟨locals, here, rfl⟩ := Option.map_eq_some_iff.mp own
    exact ⟨entered.1, entered.2, files, locals, here, rfl⟩
  · cases opening

theorem checkDestination_key {fs : Tree} {path : String} {key : DestKey}
    (checked : checkDestination fs roots path = .ok key) : destinationKey fs roots path = .ok key := by
  unfold checkDestination at checked
  split at checked
  · cases checked
  · exact checked

theorem answers_key {w : World} {locals : Locals} (answers : h.answers roots e w = true)
    (created : h.process.phase e = .created false)
    (prepared : prepareRun h.process.db e w = .ok locals)
    (files : locals.task.onFilesystem = true) :
    destinationKey h.fs roots locals.task.localPath = .ok locals.key := by
  simp only [Host.answers, created, if_true] at answers
  simp only [prepareRun] at prepared
  split at prepared
  · cases prepared
  · rename_i run found
    split at prepared
    · cases prepared
    · rename_i task here
      split at prepared
      · cases prepared
      · cases told : w.destination with
        | error raised =>
          rw [told] at prepared
          cases prepared
        | ok key =>
          rw [told] at prepared
          cases prepared
          simp only [found, Option.bind_some, here, told, files, Bool.not_true, Bool.false_or,
            decide_eq_true_eq] at answers
          cases checked : checkDestination h.fs roots task.localPath with
          | error refused =>
            rw [checked] at answers
            cases answers
          | ok found =>
            rw [checked] at answers
            cases answers
            exact checkDestination_key checked

theorem resume_pinned {w : World} (reachable : ReachableFrom limits h.process) (pinned : Pinned h)
    (moved : h.process.step limits (.resume e w) = some q) (answers : h.answers roots e w = true)
    (unmoved : h.Unmoved limits roots (.act (.resume e w)))
    (resumed : h.resumed roots q e = some h') : Pinned h' := by
  have kept : ∀ i, (h.process.phase i).inBody = true → (q.phase i).inBody = true →
      (q.phase i).locals = (h.process.phase i).locals := by
    intro i inside body
    by_cases same : i = e
    · subst same
      cases holds : (q.phase i).locals with
      | none =>
        cases phase : q.phase i with
        | suspended await locals cancelled => simp [phase, Phase.locals] at holds
        | _ => simp [phase, Phase.inBody] at body
      | some locals =>
        rcases resume_locals moved holds with own | ⟨created, -⟩
        · exact own.symm
        · simp [created, Phase.inBody] at inside
    · exact (act_phase reachable moved i (fun v eq => same (by cases eq; rfl))).2
  have closed := closed_pinned pinned kept
  unfold Host.resumed at resumed
  split at resumed
  · cases resumed
    exact closed
  · rename_i task opening
    obtain ⟨-, body, files, locals, own, rfl⟩ := opens_some opening
    split at resumed
    · cases resumed
    · rename_i fs destination opened
      cases resumed
      obtain ⟨told, here, keeps⟩ := openDestination_opened opened
      have key : destinationKey h.fs roots locals.task.localPath = .ok locals.key := by
        rcases resume_locals moved own with before | ⟨created, prepared⟩
        · exact unmoved q locals.task locals moved opening before
        · exact answers_key answers created prepared files
      have named : locals.key = "fs" :: "/" :: destination.path :=
        Except.ok.inj (key.symm.trans told)
      intro i inode held
      by_cases same : i = e
      · subst same
        simp only [Function.update_self, Option.some.injEq] at held
        subst held
        exact ⟨body, locals, destination.path, own, named, here⟩
      · simp only [Function.update_of_ne same] at held
        obtain ⟨inside, others, path, holds, keyed, lies⟩ := closed i inode held
        exact ⟨inside, others, path, holds, keyed, keeps _ _ lies⟩

theorem step_pinned {act : HostAct} (reachable : ReachableFrom limits h.process) (pinned : Pinned h)
    (unmoved : h.Unmoved limits roots act) (moved : HostMoves limits roots h act h') : Pinned h' := by
  cases act with
  | change fs =>
    cases moved
    intro i inode opened
    obtain ⟨body, locals, path, own, key, here⟩ := pinned i inode opened
    exact ⟨body, locals, path, own, key, unmoved i inode path opened here⟩
  | act act =>
    obtain ⟨q, step, rest⟩ := Option.bind_eq_some_iff.mp moved
    by_cases resumes : ∃ e w, act = .resume e w
    · obtain ⟨e, w, rfl⟩ := resumes
      simp only at rest
      split at rest
      · rename_i answers
        exact resume_pinned reachable pinned step answers unmoved rest
      · cases rest
    · have closed : h.closed q = h' := by
        cases act with
        | resume e w => exact absurd ⟨e, w, rfl⟩ resumes
        | _ => exact Option.some.inj rest
      rw [← closed]
      exact closed_pinned pinned fun i _ _ =>
        (act_phase reachable step i fun w same => resumes ⟨i, w, same⟩).2

theorem step_reachable {act : HostAct} (reachable : ReachableFrom limits h.process)
    (moved : HostMoves limits roots h act h') : ReachableFrom limits h'.process := by
  cases act with
  | change fs =>
    cases moved
    exact reachable
  | act act =>
    obtain ⟨q, step, rest⟩ := Option.bind_eq_some_iff.mp moved
    have process : h'.process = q := by
      cases act with
      | resume e w =>
        simp only at rest
        split at rest
        · unfold Host.resumed at rest
          split at rest
          · cases rest
            rfl
          · split at rest
            · cases rest
            · cases rest
              rfl
        · cases rest
      | _ =>
        cases rest
        rfl
    obtain ⟨db, now, acts, history⟩ := reachable
    rw [process]
    exact ⟨db, now, acts ++ [act], Trace.snoc history step⟩

/-- Directories at the paths of two keys in use lie apart. -/
theorem pinned_apart (reachable : ReachableFrom limits h.process) (pinned : Pinned h) {d e i j : Nat}
    (differ : d ≠ e) (first : h.opened d = some i) (second : h.opened e = some j) :
    ¬ h.fs.Above i j := by
  have owned : ∀ {f inode}, h.opened f = some inode → ∃ path,
      h.process.activeDestinations.get f = some ⟨f, "fs" :: "/" :: path⟩ ∧
        h.fs.node path = some (.dir inode) := by
    intro f inode opened
    obtain ⟨body, locals, path, own, key, here⟩ := pinned f inode opened
    refine ⟨path, ?_, here⟩
    cases phase : h.process.phase f with
    | suspended await its cancelled =>
      cases await with
      | work work =>
        rw [phase] at own
        cases own
        rw [← key]
        exact (inside_owns (reachable_standing reachable) phase).key
      | _ => simp [phase, Phase.inBody] at body
    | _ => simp [phase, Phase.inBody] at body
  obtain ⟨p, claimed, here⟩ := owned first
  obtain ⟨q, claimedToo, there⟩ := owned second
  have apart := keys_apart (reachable_standing reachable) (Table.mem_of_get claimed)
    (Table.mem_of_get claimedToo) differ
  apply Tree.not_above here there
  intro inside
  exact apart.1 (List.cons_prefix_cons.mpr ⟨rfl, List.cons_prefix_cons.mpr ⟨rfl, inside⟩⟩)

end Hosts

def Host.meetsKey (limits : Limits) (roots : List String) (h : Host) : Act → Bool
  | .resume e w =>
    match h.process.step limits (.resume e w) with
    | none => true
    | some q =>
      match opens h.process q e, (h.process.phase e).locals with
      | some task, some locals =>
        (destinationKey h.fs roots task.localPath).toOption = some locals.key
      | _, _ => true
  | _ => true

theorem unmoved_of_meetsKey {limits : Limits} {roots : List String} {h : Host} {act : Act}
    (meets : h.meetsKey limits roots act = true) : h.Unmoved limits roots (.act act) := by
  cases act with
  | resume e w =>
    intro q task locals step opening own
    simp only [Host.meetsKey, step, opening, own, decide_eq_true_eq] at meets
    cases key : destinationKey h.fs roots task.localPath with
    | error refused =>
      rw [key] at meets
      cases meets
    | ok found =>
      rw [key] at meets
      exact congrArg Except.ok (Option.some.inj meets)
  | _ => trivial

/-- In a run whose opens meet the paths of their keys and whose changes leave the open
    directories where they are, no two open directories are nested. -/
theorem unmoved_destinations_apart {limits : Limits} {roots : List String} {db : Db} {now : Int}
    {fs : Tree} {acts : List HostAct} {h : Host}
    (history : Trace (fun g act g' => HostMoves limits roots g act g' ∧ g.Unmoved limits roots act)
      (Host.init limits db now fs) acts h) :
    ∀ d e i j, d ≠ e → h.opened d = some i → h.opened e = some j → ¬ h.fs.Above i j := by
  have kept : ReachableFrom limits h.process ∧ Pinned h := by
    refine trace_invariant (fun g => ReachableFrom limits g.process ∧ Pinned g) ?_ history ?_
    · rintro g act g' ⟨reachable, pinned⟩ ⟨moved, unmoved⟩
      exact ⟨step_reachable reachable moved, step_pinned reachable pinned unmoved moved⟩
    · refine ⟨⟨db, now, [], Trace.nil⟩, ?_⟩
      intro e inode opened
      cases opened
  intro d e i j differ first second
  exact pinned_apart kept.1 kept.2 differ first second

def Host.exec (limits : Limits) (roots : List String) (h : Host) (acts : List HostAct) : Option Host :=
  acts.foldlM (Host.step limits roots) h

def Host.stepUnmoved (limits : Limits) (roots : List String) (h : Host) : HostAct → Option Host
  | .change _ => none
  | .act act => if h.meetsKey limits roots act then h.step limits roots (.act act) else none

theorem trace_hostExec {limits : Limits} {roots : List String} {h h' : Host} {acts : List HostAct}
    (done : h.exec limits roots acts = some h') : Trace (HostMoves limits roots) h acts h' :=
  trace_of_foldlM (fun _ _ _ moved => moved) done

theorem stepUnmoved_moves {limits : Limits} {roots : List String} {h h' : Host} {act : HostAct}
    (moved : h.stepUnmoved limits roots act = some h') :
    HostMoves limits roots h act h' ∧ h.Unmoved limits roots act := by
  cases act with
  | change fs => cases moved
  | act act =>
    simp only [Host.stepUnmoved] at moved
    split at moved
    · rename_i meets
      exact ⟨moved, unmoved_of_meetsKey meets⟩
    · cases moved

namespace Sample

def entries (moved : Bool) : List Entry :=
  [⟨[], .dir 0⟩, ⟨["d"], .dir 1⟩, ⟨["d", "a"], .dir 2⟩, ⟨["d", "b"], .dir 3⟩, ⟨["d", "c"], .dir 4⟩,
    ⟨["d", "link"], .link true ["d", if moved then "a" else "b"]⟩]

def tree (moved : Bool) : Tree :=
  ⟨⟨entries moved, by cases moved <;> decide⟩, by cases moved <;> decide, by cases moved <;> decide⟩

def shelves : Service :=
  (Service.init 0).exec env
    [.createSource source 0, .createSource { source with name := "attic" } 0,
      .createSource { source with name := "cellar" } 0,
      .createTask { fields with localPath := "/d/a" } 0,
      .createTask { fields with name := "raw", sourceId := 2, localPath := "/d/link" } 0,
      .createTask { fields with name := "mail", sourceId := 3, localPath := "/d/c" } 0]

def asking (second : Int) (key : DestKey) (event : Event) : World :=
  ⟨seconds second, .ok ("fs" :: "/" :: key), event, {}⟩

def queueing : List Act :=
  [.admission 1 (stamp 70), .admission 2 (stamp 70), .admission 3 (stamp 70), .start 1, .start 2,
    .start 3, .resume 1 (asking 71 ["d", "a"] .unfinished), .resume 3 (asking 71 ["d", "c"] .unfinished),
    .resume 2 (asking 72 ["d", "b"] .unfinished)]

def served : List Act :=
  [.resume 3 (asking 80 [] (.exited 0)), .resume 2 (asking 81 [] .unfinished)]

def host : Host := Host.init Sample.limits shelves.db 0 (tree false)

def diverted : List HostAct := queueing.map .act ++ [.change (tree true)] ++ served.map .act

end Sample

theorem waiting_run_opens_its_own :
    ∃ h, Trace (fun g act g' => HostMoves Sample.limits ["/d"] g act g' ∧
          g.Unmoved Sample.limits ["/d"] act) Sample.host
        ((Sample.queueing ++ Sample.served).map .act) h ∧
      h.opened 1 = some 2 ∧ h.opened 2 = some 3 ∧ ¬ h.fs.Above 2 3 := by
  obtain ⟨h, done, seen⟩ := Option.map_eq_some_iff.mp
    (by decide +kernel : (((Sample.queueing ++ Sample.served).map HostAct.act).foldlM
      (Host.stepUnmoved Sample.limits ["/d"]) Sample.host).map (fun h => (h.opened 1, h.opened 2)) =
        some (some 2, some 3))
  obtain ⟨first, second⟩ := Prod.mk.inj seen
  have history : Trace (fun g act g' => HostMoves Sample.limits ["/d"] g act g' ∧
      g.Unmoved Sample.limits ["/d"] act) Sample.host
      ((Sample.queueing ++ Sample.served).map .act) h :=
    trace_of_foldlM (f := Host.stepUnmoved Sample.limits ["/d"])
      (fun _ _ _ moved => stepUnmoved_moves moved) done
  exact ⟨h, history, first, second,
    unmoved_destinations_apart history 1 2 2 3 (by decide) first second⟩

/-- Two running executions hold one directory. -/
theorem diverted_destination_shared :
    ∃ h, Trace (HostMoves Sample.limits ["/d"]) Sample.host Sample.diverted h ∧
      (h.process.db.runs.get 1).map Run.state = some .running ∧
      (h.process.db.runs.get 2).map Run.state = some .running ∧
      ∃ i j, h.opened 1 = some i ∧ h.opened 2 = some j ∧ h.fs.Above i j := by
  obtain ⟨h, done, seen⟩ := Option.map_eq_some_iff.mp
    (by decide +kernel : (Sample.host.exec Sample.limits ["/d"] Sample.diverted).map
      (fun h => (h.opened 1, h.opened 2, (h.process.db.runs.get 1).map Run.state,
        (h.process.db.runs.get 2).map Run.state)) =
          some (some 2, some 2, some .running, some .running))
  simp only [Prod.mk.injEq] at seen
  obtain ⟨first, second, running, runningToo⟩ := seen
  exact ⟨h, trace_hostExec done, running, runningToo, 2, 2, first, second, Or.inl rfl⟩

end Pullbackup
