import Pullbackup.Datasets
import Pullbackup.Exclusivity
import Pullbackup.Library.Argv
import Pullbackup.Registry

/- The commands of a run: the grammars of an SSH host and user, build_rsync_args and
   build_syncoid_args, and what rsync and syncoid are left to read in what these build. -/
namespace Pullbackup
open KeyedTable History Numerals Text Argv

def hostLabel : List Char → Bool
  | [] => false
  | first :: rest =>
    first.isAlphanum && rest.length ≤ 62 && rest.all (fun c => c.isAlphanum || c = '-') &&
      rest.getLast?.all Char.isAlphanum

/-- _SSH_HOST.fullmatch. -/
def sshHost (host : String) : Bool := (split '.' host).all fun label => hostLabel label.toList

def userCharacter (c : Char) : Bool := c.isAlphanum || ['_', '.', '-'].contains c

def sshUser (user : String) : Bool :=
  match user.toList with
  | [] => false
  | first :: rest => (first.isAlpha || first = '_') && rest.all userCharacter

inductive CommandError where
  | sshHost
  | sshUser
  | zfsSource
  | zfsDestination (error : ZfsDestinationError)
  deriving DecidableEq, Repr

def CommandError.message : CommandError → String
  | .sshHost => "SSH host has an invalid name"
  | .sshUser => "SSH user has an invalid name"
  | .zfsSource => "ZFS source has an invalid dataset name"
  | .zfsDestination error => error.message

def validateSshHost (host : String) : Except CommandError String :=
  if 253 < host.length ∨ sshHost host = false then .error .sshHost else .ok host

def validateSshUser (user : String) : Except CommandError String :=
  if 255 < user.length ∨ sshUser user = false then .error .sshUser else .ok user

def validateZfsSource (dataset : String) : Except CommandError String :=
  if zfsDataset dataset then .ok dataset else .error .zfsSource

/-- str.split without a separator. -/
def words (s : String) : List String :=
  ((s.toList.splitOnP isSpace).filter (· ≠ [])).map String.ofList

def extraWords (text : String) : List String := if strip text ≠ "" then words text else []

def rsyncOptions (task : TaskFields) : List String :=
  (if task.archive then ["-a"]
    else flag task.recursive "-r" ++ flag task.times "-t" ++ flag task.preservePermissions "-p") ++
  flag task.compress "-z" ++ flag task.preserveXattrs "-X" ++ flag task.delete "--delete" ++
  (if task.quiet then ["-q"] else ["--info=stats2,progress2"]) ++
  flag task.delayUpdates "--delay-updates" ++
  ((task.bwlimitKbps.filter (· ≠ 0)).toList.map fun rate => assign "--bwlimit" (toString rate)) ++
  (((splitLines task.excludePatterns).map strip).filter (· ≠ "")).map (assign "--exclude") ++
  flag task.useSudo "--rsync-path=sudo /usr/bin/rsync"

def sshCommand (source : Source) : String :=
  "ssh -i " ++ source.sshKeyPath ++ " -p " ++ toString source.port ++
    " -o StrictHostKeyChecking=accept-new -o BatchMode=yes -o ServerAliveInterval=30"

def remoteOperand (user host path : String) : String := user ++ "@" ++ host ++ ":" ++ path

def fdPath (fileno : Nat) : String := "/proc/self/fd/" ++ toString fileno ++ "/"

def buildRsyncArgs (task : TaskFields) (source : Source) (fileno : Nat) : List String :=
  "rsync" :: (rsyncOptions task ++ extraWords task.auxArgs ++ ["-e", sshCommand source] ++
    [remoteOperand source.user source.host task.remotePath, fdPath fileno])

/-- What the commands take from the settings: the roots, and the path of known_hosts. -/
structure CommandSettings where
  zfsDestRoots : String
  knownHosts : String

def syncoidOptions (settings : CommandSettings) (task : TaskFields) (source : Source) :
    List String :=
  flag task.syncoidRecursive "--recursive" ++ flag task.syncoidNoSyncSnap "--no-sync-snap" ++
  (if task.syncoidCompress ≠ "" ∧ task.syncoidCompress ≠ "none" then
    [assign "--compress" task.syncoidCompress] else []) ++
  flag task.syncoidForceFull "--force-delete" ++ [assign "--sshkey" source.sshKeyPath] ++
  (if source.port ≠ 0 ∧ source.port ≠ 22 then [assign "--sshport" (toString source.port)]
    else []) ++
  ["--sshoption=StrictHostKeyChecking=accept-new",
    assign "--sshoption" ("UserKnownHostsFile=" ++ settings.knownHosts),
    "--sshoption=BatchMode=yes", "--sshoption=ServerAliveInterval=30"]

def buildSyncoidArgs (settings : CommandSettings) (task : TaskFields) (source : Source) :
    Except CommandError (List String) :=
  match validateSshUser source.user with
  | .error error => .error error
  | .ok user =>
    match validateSshHost source.host with
    | .error error => .error error
    | .ok host =>
      match validateZfsSource task.remotePath with
      | .error error => .error error
      | .ok remoteDataset =>
        match validateZfsDestination settings.zfsDestRoots task.localPath with
        | .error error => .error (.zfsDestination error)
        | .ok destination =>
          .ok ("syncoid" :: (syncoidOptions settings task source ++
            extraWords task.syncoidExtraArgs ++
            [remoteOperand user host remoteDataset, destination]))

section Grammar
variable {user host : String} {c : Char}

theorem sshUser_character (valid : sshUser user = true) (mem : c ∈ user.toList) :
    userCharacter c = true := by
  unfold sshUser at valid
  split at valid
  · cases valid
  · rename_i first rest letters
    simp only [Bool.and_eq_true, Bool.or_eq_true, decide_eq_true_eq, List.all_eq_true] at valid
    rw [letters] at mem
    rcases List.mem_cons.mp mem with rfl | later
    · unfold userCharacter
      rcases valid.1 with alpha | rfl
      · simp [Char.isAlphanum, alpha]
      · decide
    · exact valid.2 c later

theorem sshUser_first (valid : sshUser user = true) :
    ∃ c ∈ user.toList.head?, (c.isAlphanum || c = '_') = true := by
  unfold sshUser at valid
  split at valid
  · cases valid
  · rename_i first rest letters
    rw [letters]
    refine ⟨first, rfl, ?_⟩
    simp only [Bool.and_eq_true, Bool.or_eq_true, decide_eq_true_eq] at valid
    rcases valid.1 with alpha | rfl
    · simp [Char.isAlphanum, alpha]
    · decide

def hostCharacter (c : Char) : Bool := c.isAlphanum || c = '-' || c = '.'

theorem hostLabel_character {label : List Char} (valid : hostLabel label = true) (mem : c ∈ label) :
    hostCharacter c = true := by
  unfold hostLabel at valid
  split at valid
  · cases valid
  · rename_i first rest
    simp only [Bool.and_eq_true, decide_eq_true_eq, List.all_eq_true] at valid
    rcases List.mem_cons.mp mem with rfl | later
    · simp [hostCharacter, valid.1.1.1]
    · have inner := valid.1.2 c later
      simp only [Bool.or_eq_true, decide_eq_true_eq] at inner
      rcases inner with alnum | dash
      · simp [hostCharacter, alnum]
      · simp [hostCharacter, dash]

theorem sshHost_character (valid : sshHost host = true) (mem : c ∈ host.toList) :
    hostCharacter c = true := by
  by_contra odd
  have whole : (join '.' (split '.' host)).toList.any (fun c => !hostCharacter c) = true := by
    rw [join_split]
    exact List.any_eq_true.mpr ⟨c, mem, by simpa using odd⟩
  rw [any_join (by decide)] at whole
  obtain ⟨label, cut, inside⟩ := List.any_eq_true.mp whole
  obtain ⟨d, letter, odd⟩ := List.any_eq_true.mp inside
  rw [hostLabel_character (List.all_eq_true.mp valid label cut) letter] at odd
  cases odd

theorem sshHost_ne_empty (valid : sshHost host = true) : host ≠ "" := by
  rintro rfl
  revert valid
  decide

end Grammar

structure Remote where
  user : String
  host : String
  path : String
  deriving DecidableEq, Repr

/-- What makes a user and a host unmistakable in front of a path. -/
def Unmistakable (user host : String) : Prop :=
  user ≠ "" ∧ host ≠ "" ∧ ∀ c ∈ (user ++ host).toList, c ∉ [':', '@', '/', '[']

/-- How rsync and syncoid tell that an operand is user, host and path of another machine. -/
def Locates (locate : String → Option Remote) : Prop :=
  ∀ user host path, Unmistakable user host → [':'].isPrefixOf path.toList = false →
    locate (remoteOperand user host path) = some ⟨user, host, path⟩

/-- Two colons are a module of an rsync daemon, and no path that the remote shell serves. -/
def LeavesDaemons (locate : String → Option Remote) : Prop :=
  ∀ user host path, Unmistakable user host → [':'].isPrefixOf path.toList = true →
    locate (remoteOperand user host path) = none

theorem accepted_unmistakable {user host : String} (validUser : sshUser user = true)
    (validHost : sshHost host = true) : Unmistakable user host := by
  have odd : ∀ c ∈ [':', '@', '/', '['], userCharacter c = false ∧ hostCharacter c = false := by
    simp only [List.forall_mem_cons, List.not_mem_nil, false_implies, implies_true, and_true]
    decide
  refine ⟨?_, sshHost_ne_empty validHost, fun c mem mark => ?_⟩
  · rintro rfl
    revert validUser
    decide
  · rw [String.toList_append] at mem
    rcases List.mem_append.mp mem with inUser | inHost
    · exact absurd (sshUser_character validUser inUser) (by simp [(odd c mark).1])
    · exact absurd (sshHost_character validHost inHost) (by simp [(odd c mark).2])

/-- A remote operand is the user, the host and the path it is made of, unless the path starts
    with a colon. -/
theorem remoteOperand_located {user host path : String} {locate : String → Option Remote}
    (locates : Locates locate) (daemons : LeavesDaemons locate) (validUser : sshUser user = true)
    (validHost : sshHost host = true) :
    locate (remoteOperand user host path) = some ⟨user, host, path⟩ ↔
      [':'].isPrefixOf path.toList = false := by
  have clear := accepted_unmistakable validUser validHost
  constructor
  · intro located
    rw [Bool.eq_false_iff]
    intro daemon
    rw [daemons user host path clear daemon] at located
    cases located
  · exact locates user host path clear

/-- A reading of a place: the machine is before the first colon. -/
def readRemote (operand : String) : Option Remote :=
  match partition ':' operand with
  | (machine, true, path) =>
    match split '@' machine with
    | [user, host] => if [':'].isPrefixOf path.toList then none else some ⟨user, host, path⟩
    | _ => none
  | _ => none

theorem readRemote_operand {user host : String} (clear : Unmistakable user host) (path : String) :
    readRemote (remoteOperand user host path) =
      if [':'].isPrefixOf path.toList then none else some ⟨user, host, path⟩ := by
  have marks : ∀ c ∈ [':', '@', '/', '['], c ∉ user.toList ∧ c ∉ host.toList := by
    intro c mark
    rw [← not_or, ← List.mem_append, ← String.toList_append]
    exact fun mem => clear.2.2 c mem mark
  have clean : ':' ∉ (user ++ "@" ++ host).toList := by
    have colon := marks ':' (by decide)
    simp only [String.toList_append, List.mem_append, not_or]
    exact ⟨⟨colon.1, by decide⟩, colon.2⟩
  have cut : partition ':' (remoteOperand user host path) = (user ++ "@" ++ host, true, path) := by
    refine partition_eq_found_iff.mpr ⟨?_, clean⟩
    unfold remoteOperand
    rw [String.toList_append, String.toList_append, List.append_assoc]
    rfl
  have whole : ∀ part : String, '@' ∉ part.toList → split '@' part = [part] := by
    intro part missing
    unfold split
    rw [List.splitOn_eq_singleton missing]
    simp [String.ofList_toList]
  have machine : split '@' (user ++ "@" ++ host) = [user, host] := by
    have both := @split_append '@' user host
    rw [whole user (marks '@' (by decide)).1, whole host (marks '@' (by decide)).2] at both
    exact both
  unfold readRemote
  rw [cut]
  dsimp only
  rw [machine]

theorem readRemote_locates : Locates readRemote := by
  intro user host path clear plain
  rw [readRemote_operand clear, plain]
  rfl

theorem readRemote_daemons : LeavesDaemons readRemote := by
  intro user host path clear daemon
  rw [readRemote_operand clear, daemon]
  rfl

/-- The remote shell that rsync starts has the key as one argument. -/
theorem sshCommand_words {source : Source} {shell : String → List String}
    (splits : SplitsAtSpaces shell) (plain : Plain source.sshKeyPath) :
    shell (sshCommand source) =
      ["ssh", "-i", source.sshKeyPath, "-p", toString source.port, "-o",
        "StrictHostKeyChecking=accept-new", "-o", "BatchMode=yes", "-o",
        "ServerAliveInterval=30"] := by
  have whole : sshCommand source = join ' ' ["ssh", "-i", source.sshKeyPath, "-p",
      toString source.port, "-o", "StrictHostKeyChecking=accept-new", "-o", "BatchMode=yes", "-o",
      "ServerAliveInterval=30"] := by
    apply String.toList_injective
    simp [sshCommand, join, String.intercalate_cons_cons]
  have fixed : ∀ word ∈ ["ssh", "-i", "-p", "-o", "StrictHostKeyChecking=accept-new",
      "BatchMode=yes", "ServerAliveInterval=30"], Plain word := by
    unfold Plain
    decide +kernel
  rw [whole]
  refine splits _ fun word mem => ?_
  by_cases key : word = source.sshKeyPath
  · exact key ▸ plain
  by_cases port : word = toString source.port
  · exact port ▸ number_plain _
  refine fixed word ?_
  simp only [List.mem_cons, List.not_mem_nil, or_false, key, port, false_or] at mem ⊢
  tauto

/-- The words of rsync that a task is written in, as its manual gives them. -/
def rsyncGrammar : Grammar where
  switches := ["-a", "-r", "-t", "-p", "-z", "-X", "--delete", "-q", "--delay-updates"]
  values := [("--info", (· ≠ "")), ("--bwlimit", (· ≠ "")), ("--exclude", (· ≠ "")),
    ("--rsync-path", (· ≠ ""))]
  separate := ["-e"]
  starts c := c.isAlphanum || c = '_' || c = '/'

structure RsyncJob where
  archive : Bool
  recursive : Bool
  times : Bool
  perms : Bool
  compress : Bool
  xattrs : Bool
  delete : Bool
  quiet : Bool
  delayUpdates : Bool
  info : List String
  bwlimit : List String
  excludes : List String
  rsyncPath : List String
  shell : List String
  operands : List String
  deriving DecidableEq, Repr

def rsyncAsked (items : List Item) : RsyncJob where
  archive := switched "-a" items
  recursive := switched "-r" items
  times := switched "-t" items
  perms := switched "-p" items
  compress := switched "-z" items
  xattrs := switched "-X" items
  delete := switched "--delete" items
  quiet := switched "-q" items
  delayUpdates := switched "--delay-updates" items
  info := textsOf "--info" items
  bwlimit := textsOf "--bwlimit" items
  excludes := textsOf "--exclude" items
  rsyncPath := textsOf "--rsync-path" items
  shell := textsOf "-e" items
  operands := operands items

/-- The job of a task, apart from the words it adds itself and from where it runs. -/
def TaskFields.rsyncJob (task : TaskFields) : RsyncJob where
  archive := task.archive
  recursive := !task.archive && task.recursive
  times := !task.archive && task.times
  perms := !task.archive && task.preservePermissions
  compress := task.compress
  xattrs := task.preserveXattrs
  delete := task.delete
  quiet := task.quiet
  delayUpdates := task.delayUpdates
  info := if task.quiet then [] else ["stats2,progress2"]
  bwlimit := (task.bwlimitKbps.filter (· ≠ 0)).toList.map toString
  excludes := ((splitLines task.excludePatterns).map strip).filter (· ≠ "")
  rsyncPath := if task.useSudo then ["sudo /usr/bin/rsync"] else []
  shell := []
  operands := []

section Rsync
variable {read : Reading} {task : TaskFields} {source : Source}

def rsyncItems (task : TaskFields) : List Item :=
  asked task.archive "-a" ++ asked (!task.archive && task.recursive) "-r" ++
  asked (!task.archive && task.times) "-t" ++
  asked (!task.archive && task.preservePermissions) "-p" ++
  asked task.compress "-z" ++ asked task.preserveXattrs "-X" ++ asked task.delete "--delete" ++
  asked task.quiet "-q" ++ given "--info" task.rsyncJob.info ++
  asked task.delayUpdates "--delay-updates" ++ given "--bwlimit" task.rsyncJob.bwlimit ++
  given "--exclude" task.rsyncJob.excludes ++ given "--rsync-path" task.rsyncJob.rsyncPath

theorem rsyncOptions_eq (task : TaskFields) :
    rsyncOptions task =
      flag task.archive "-a" ++ flag (!task.archive && task.recursive) "-r" ++
      flag (!task.archive && task.times) "-t" ++
      flag (!task.archive && task.preservePermissions) "-p" ++
      flag task.compress "-z" ++ flag task.preserveXattrs "-X" ++ flag task.delete "--delete" ++
      flag task.quiet "-q" ++ task.rsyncJob.info.map (assign "--info") ++
      flag task.delayUpdates "--delay-updates" ++ task.rsyncJob.bwlimit.map (assign "--bwlimit") ++
      task.rsyncJob.excludes.map (assign "--exclude") ++
      task.rsyncJob.rsyncPath.map (assign "--rsync-path") := by
  have archive : ∀ on : Bool, (if on then ["-a"] else flag task.recursive "-r" ++
      flag task.times "-t" ++ flag task.preservePermissions "-p") =
        flag on "-a" ++ flag (!on && task.recursive) "-r" ++ flag (!on && task.times) "-t" ++
          flag (!on && task.preservePermissions) "-p" := by
    intro on
    cases on <;> rfl
  have quiet : ∀ on : Bool, (if on then ["-q"] else ["--info=stats2,progress2"]) =
      flag on "-q" ++ (if on then [] else ["stats2,progress2"]).map (assign "--info") := by
    intro on
    cases on <;> decide +kernel
  have bwlimit : ∀ rates : List Int, (rates.map fun rate => assign "--bwlimit" (toString rate)) =
      (rates.map toString).map (assign "--bwlimit") := fun rates => (List.map_map).symm
  have root : ∀ on : Bool, flag on "--rsync-path=sudo /usr/bin/rsync" =
      (if on then ["sudo /usr/bin/rsync"] else []).map (assign "--rsync-path") := by
    intro on
    cases on <;> decide +kernel
  unfold rsyncOptions
  rw [archive, quiet, bwlimit, root]
  simp only [TaskFields.rsyncJob, List.append_assoc]

theorem rsyncItems_job (task : TaskFields) : rsyncAsked (rsyncItems task) = task.rsyncJob := by
  simp [rsyncAsked, rsyncItems, TaskFields.rsyncJob]

theorem rsyncJob_fits (task : TaskFields) :
    (∀ text ∈ task.rsyncJob.info, text ≠ "") ∧ (∀ text ∈ task.rsyncJob.bwlimit, text ≠ "") ∧
      (∀ text ∈ task.rsyncJob.excludes, text ≠ "") ∧
      ∀ text ∈ task.rsyncJob.rsyncPath, text ≠ "" := by
  refine ⟨?_, ?_, ?_, ?_⟩
  · unfold TaskFields.rsyncJob
    cases task.quiet <;> simp
  · intro text mem
    obtain ⟨rate, -, rfl⟩ := List.mem_map.mp mem
    exact number_ne_empty rate
  · intro text mem
    simpa using (List.mem_filter.mp mem).2
  · unfold TaskFields.rsyncJob
    cases task.useSudo <;> simp

theorem rsyncOptions_read (documents : rsyncGrammar.Documents read) (task : TaskFields) :
    Reads read (rsyncOptions task) (rsyncItems task) := by
  obtain ⟨info, bwlimit, excludes, path⟩ := rsyncJob_fits task
  have switch : ∀ word ∈ rsyncGrammar.switches, ∀ on, Reads read (flag on word) (asked on word) :=
    fun word listed on => reads_flag documents listed on
  have values : ∀ name ∈ rsyncGrammar.values, ∀ texts : List String,
      (∀ text ∈ texts, name.2 text) →
        Reads read (texts.map (assign name.1)) (given name.1 texts) :=
    fun name listed texts fit => reads_values documents listed fit
  simp only [rsyncGrammar, List.forall_mem_cons] at switch values
  obtain ⟨a, r, t, p, z, x, delete, q, delay, -⟩ := switch
  obtain ⟨infos, limits, patterns, paths, -⟩ := values
  rw [rsyncOptions_eq]
  refine reads_append (reads_append (reads_append (reads_append (reads_append ?_ (infos _ info))
    (delay _)) (limits _ bwlimit)) (patterns _ excludes)) (paths _ path)
  refine reads_append (reads_append (reads_append (reads_append ?_ (z _)) (x _)) (delete _)) (q _)
  exact reads_append (reads_append (reads_append (a _) (r _)) (t _)) (p _)

theorem remoteOperand_operand {g : Grammar} {user : String} (valid : sshUser user = true)
    (starts : ∀ c : Char, (c.isAlphanum || c = '_') = true → g.starts c = true)
    (host path : String) : g.Operand (remoteOperand user host path) := by
  obtain ⟨c, first, begins⟩ := sshUser_first valid
  refine ⟨c, ?_, starts c begins⟩
  rw [Option.mem_def] at first ⊢
  simp only [remoteOperand, String.toList_append, List.head?_append, first, Option.some_or]

/-- The arguments of a task are read as its options, the words it adds, the remote shell, and
    the place on the machine of its source beside the descriptor. -/
theorem rsyncArgs_read (documents : rsyncGrammar.Documents read) (valid : sshUser source.user = true)
    {extra : List Item} (complete : Reads read (extraWords task.auxArgs) extra) (fileno : Nat) :
    read (buildRsyncArgs task source fileno).tail =
      some (rsyncItems task ++ extra ++ [.value "-e" (sshCommand source),
        .operand (remoteOperand source.user source.host task.remotePath),
        .operand (fdPath fileno)]) := by
  have shell : Reads read ["-e", sshCommand source] [.value "-e" (sshCommand source)] :=
    reads_separate documents (by decide) _
  have remote : rsyncGrammar.Operand (remoteOperand source.user source.host task.remotePath) := by
    refine remoteOperand_operand valid (fun c begins => ?_) _ _
    simp only [rsyncGrammar, begins, Bool.true_or]
  have file : rsyncGrammar.Operand (fdPath fileno) := by
    refine ⟨'/', ?_, by decide⟩
    simp [fdPath]
  have whole : (buildRsyncArgs task source fileno).tail =
      rsyncOptions task ++ extraWords task.auxArgs ++ (["-e", sshCommand source] ++
        ([remoteOperand source.user source.host task.remotePath] ++ [fdPath fileno])) := by
    simp [buildRsyncArgs]
  rw [whole]
  exact reads_all documents (reads_append (reads_append (rsyncOptions_read documents task) complete)
    (reads_append shell (reads_append (reads_operand documents remote)
      (reads_operand documents file))))

end Rsync

/-- The words of syncoid that a task is written in: an option whose value is mandatory has none
    in an empty text, and the port is a number. -/
def syncoidGrammar : Grammar where
  switches := ["--recursive", "--no-sync-snap", "--force-delete"]
  values := [("--compress", (· ≠ "")), ("--sshkey", (· ≠ "")),
    ("--sshport", fun text => ∃ port : Int, text = toString port), ("--sshoption", (· ≠ ""))]
  separate := []
  starts c := c.isAlphanum || c = '_'

structure SyncoidJob where
  recursive : Bool
  noSyncSnap : Bool
  forceDelete : Bool
  compress : List String
  sshKey : List String
  sshPort : List String
  sshOptions : List String
  operands : List String
  deriving DecidableEq, Repr

def syncoidAsked (items : List Item) : SyncoidJob where
  recursive := switched "--recursive" items
  noSyncSnap := switched "--no-sync-snap" items
  forceDelete := switched "--force-delete" items
  compress := textsOf "--compress" items
  sshKey := textsOf "--sshkey" items
  sshPort := textsOf "--sshport" items
  sshOptions := textsOf "--sshoption" items
  operands := operands items

def TaskFields.syncoidJob (task : TaskFields) (settings : CommandSettings) (source : Source) :
    SyncoidJob where
  recursive := task.syncoidRecursive
  noSyncSnap := task.syncoidNoSyncSnap
  forceDelete := task.syncoidForceFull
  compress :=
    if task.syncoidCompress ≠ "" ∧ task.syncoidCompress ≠ "none" then [task.syncoidCompress]
    else []
  sshKey := [source.sshKeyPath]
  sshPort := if source.port ≠ 0 ∧ source.port ≠ 22 then [toString source.port] else []
  sshOptions :=
    ["StrictHostKeyChecking=accept-new", "UserKnownHostsFile=" ++ settings.knownHosts,
      "BatchMode=yes", "ServerAliveInterval=30"]
  operands := []

section Syncoid
variable {settings : CommandSettings} {task : TaskFields} {source : Source} {read : Reading}

def syncoidItems (settings : CommandSettings) (task : TaskFields) (source : Source) : List Item :=
  asked task.syncoidRecursive "--recursive" ++ asked task.syncoidNoSyncSnap "--no-sync-snap" ++
  given "--compress" (task.syncoidJob settings source).compress ++
  asked task.syncoidForceFull "--force-delete" ++ given "--sshkey" [source.sshKeyPath] ++
  given "--sshport" (task.syncoidJob settings source).sshPort ++
  given "--sshoption" (task.syncoidJob settings source).sshOptions

theorem syncoidOptions_eq (settings : CommandSettings) (task : TaskFields) (source : Source) :
    syncoidOptions settings task source =
      flag task.syncoidRecursive "--recursive" ++ flag task.syncoidNoSyncSnap "--no-sync-snap" ++
        (task.syncoidJob settings source).compress.map (assign "--compress") ++
        flag task.syncoidForceFull "--force-delete" ++
        [source.sshKeyPath].map (assign "--sshkey") ++
        (task.syncoidJob settings source).sshPort.map (assign "--sshport") ++
        (task.syncoidJob settings source).sshOptions.map (assign "--sshoption") := by
  have options : ["--sshoption=StrictHostKeyChecking=accept-new",
      assign "--sshoption" ("UserKnownHostsFile=" ++ settings.knownHosts),
      "--sshoption=BatchMode=yes", "--sshoption=ServerAliveInterval=30"] =
        (task.syncoidJob settings source).sshOptions.map (assign "--sshoption") := by
    have strict : "--sshoption=StrictHostKeyChecking=accept-new" =
        assign "--sshoption" "StrictHostKeyChecking=accept-new" := by decide +kernel
    have batch : "--sshoption=BatchMode=yes" = assign "--sshoption" "BatchMode=yes" := by
      decide +kernel
    have alive : "--sshoption=ServerAliveInterval=30" =
        assign "--sshoption" "ServerAliveInterval=30" := by decide +kernel
    rw [strict, batch, alive]
    rfl
  unfold syncoidOptions
  rw [options]
  unfold TaskFields.syncoidJob
  dsimp only
  split <;> split <;> rfl

theorem syncoidItems_job : syncoidAsked (syncoidItems settings task source) =
    task.syncoidJob settings source := by
  simp [syncoidAsked, syncoidItems, TaskFields.syncoidJob]

theorem syncoidOptions_read (documents : syncoidGrammar.Documents read)
    (key : source.sshKeyPath ≠ "") :
    Reads read (syncoidOptions settings task source) (syncoidItems settings task source) := by
  have switch : ∀ word ∈ syncoidGrammar.switches, ∀ on, Reads read (flag on word) (asked on word) :=
    fun word listed on => reads_flag documents listed on
  have values : ∀ name ∈ syncoidGrammar.values, ∀ texts : List String,
      (∀ text ∈ texts, name.2 text) →
        Reads read (texts.map (assign name.1)) (given name.1 texts) :=
    fun name listed texts fit => reads_values documents listed fit
  simp only [syncoidGrammar, List.forall_mem_cons] at switch values
  obtain ⟨recursive, snap, force, -⟩ := switch
  obtain ⟨compress, keys, ports, options, -⟩ := values
  have methods : ∀ text ∈ (task.syncoidJob settings source).compress, text ≠ "" := by
    unfold TaskFields.syncoidJob
    dsimp only
    split
    · rename_i named
      exact fun text mem => List.mem_singleton.mp mem ▸ named.1
    · exact nofun
  have numbers : ∀ text ∈ (task.syncoidJob settings source).sshPort,
      ∃ port : Int, text = toString port := by
    unfold TaskFields.syncoidJob
    dsimp only
    split
    · exact fun text mem => ⟨source.port, List.mem_singleton.mp mem⟩
    · exact nofun
  have letters : ∀ text ∈ (task.syncoidJob settings source).sshOptions, text ≠ "" := by
    simp [TaskFields.syncoidJob, String.append_eq_empty_iff]
  rw [syncoidOptions_eq]
  refine reads_append (reads_append (reads_append ?_
    (keys [source.sshKeyPath] fun text mem => List.mem_singleton.mp mem ▸ key))
    (ports _ numbers)) (options _ letters)
  exact reads_append (reads_append (reads_append (recursive _) (snap _)) (compress _ methods))
    (force _)

theorem dataset_first {dataset : String} (valid : zfsDataset dataset = true) :
    ∃ c ∈ dataset.toList.head?, c.isAlphanum = true := by
  unfold zfsDataset at valid
  cases letters : dataset.toList with
  | nil =>
    rw [letters] at valid
    cases valid
  | cons first rest =>
    rw [letters] at valid
    simp only [matchDataset, Bool.and_eq_true] at valid
    exact ⟨first, rfl, valid.1⟩

theorem dataset_colon {dataset : String} (valid : zfsDataset dataset = true) :
    [':'].isPrefixOf dataset.toList = false := by
  obtain ⟨c, first, begins⟩ := dataset_first valid
  cases letters : dataset.toList with
  | nil => rfl
  | cons d rest =>
    rw [letters] at first
    obtain rfl := Option.mem_some_iff.mp first
    rw [Bool.eq_false_iff]
    intro colon
    obtain rfl : ':' = d := by simpa [List.isPrefixOf] using colon
    exact absurd begins (by decide)

theorem buildSyncoidArgs_ok (user : validateSshUser source.user = .ok source.user)
    (host : validateSshHost source.host = .ok source.host)
    (remote : zfsDataset task.remotePath = true)
    (accepted : zfsAccepts settings.zfsDestRoots task.localPath = true) :
    buildSyncoidArgs settings task source =
      .ok ("syncoid" :: (syncoidOptions settings task source ++
        extraWords task.syncoidExtraArgs ++
        [remoteOperand source.user source.host task.remotePath, task.localPath])) := by
  unfold buildSyncoidArgs validateZfsSource
  rw [user, host, remote, zfsAccepts_ok accepted]
  rfl

theorem syncoidArgs_read (documents : syncoidGrammar.Documents read)
    (valid : sshUser source.user = true) (key : source.sshKeyPath ≠ "")
    (dest : zfsDataset task.localPath = true) {extra : List Item}
    (complete : Reads read (extraWords task.syncoidExtraArgs) extra) :
    read (syncoidOptions settings task source ++ extraWords task.syncoidExtraArgs ++
        [remoteOperand source.user source.host task.remotePath, task.localPath]) =
      some (syncoidItems settings task source ++ extra ++
        [.operand (remoteOperand source.user source.host task.remotePath),
          .operand task.localPath]) := by
  have remote : syncoidGrammar.Operand (remoteOperand source.user source.host task.remotePath) :=
    remoteOperand_operand valid (fun c begins => begins) _ _
  have dataset : syncoidGrammar.Operand task.localPath := by
    obtain ⟨c, first, begins⟩ := dataset_first dest
    refine ⟨c, first, ?_⟩
    simp only [syncoidGrammar, begins, Bool.true_or]
  exact reads_all documents (reads_append (reads_append (syncoidOptions_read documents key) complete)
    (reads_append (reads_operand documents remote) (reads_operand documents dataset)))

end Syncoid

structure SourceAccepted (user host : String) : Prop where
  user : validateSshUser user = .ok user
  host : validateSshHost host = .ok host

structure TaskFields.Accepted (zfsDestRoots : String) (task : TaskFields) : Prop where
  source : task.taskType = "syncoid" → zfsDataset task.remotePath = true
  destination : task.taskType = "syncoid" → zfsAccepts zfsDestRoots task.localPath = true

/-- The requests that write a source or a task are refused unless it is accepted. -/
def Op.Accepted (zfsDestRoots : String) : Op → Prop
  | .createSource data _ | .updateSource _ data => SourceAccepted data.user data.host
  | .createTask data _ | .updateTask _ data _ => data.Accepted zfsDestRoots
  | _ => True

def AcceptedReachable (zfsDestRoots : String) (env : Env) (s : Service) : Prop :=
  ∃ clock ops, Trace (fun s op t => Step env s op t ∧ op.Accepted zfsDestRoots)
    (Service.init clock) ops s

structure Db.Accepted (zfsDestRoots : String) (db : Db) : Prop where
  sources : ∀ source ∈ db.sources.rows, SourceAccepted source.user source.host
  tasks : ∀ task ∈ db.tasks.rows, task.toTaskFields.Accepted zfsDestRoots

section Acceptance
variable {env : Env} {zfsDestRoots : String} {a : Nat} {lo hi : Int} {op : Op} {l l' : Ledger}
  {s t : Service}

theorem effect_written (effect : Effect env a lo hi op l l') :
    l'.task.toTaskFields = l.task.toTaskFields ∨
      ∃ data now, op = .updateTask a data now ∧ l'.task.toTaskFields = data := by
  by_cases edit : ∃ data now, op = .updateTask a data now
  · obtain ⟨data, now, rfl⟩ := edit
    cases effect with
    | idle => exact .inl rfl
    | update time allowed =>
      refine .inr ⟨data, now, rfl, ?_⟩
      have edited := editLedger_edited data now l
      generalize editLedger data now l = l' at edited
      cases edited <;> rfl
  · exact .inl (effect_fields effect fun data now same => edit ⟨data, now, same⟩)

theorem tasks_accepted (linked : s.db.Linked) (accepted : s.db.Accepted zfsDestRoots)
    (step : Step env s op t) (request : op.Accepted zfsDestRoots) :
    ∀ task ∈ t.db.tasks.rows, task.toTaskFields.Accepted zfsDestRoots := by
  intro task mem
  have stored : t.db.tasks.get task.id = some task := Table.get_of_mem mem
  obtain ⟨l', view', same⟩ : ∃ l', t.db.view task.id = some l' ∧ l'.task = task := by
    rw [view_eq, stored]
    exact ⟨_, rfl, rfl⟩
  rw [← same]
  have seen := (apply_sees linked step).2 task.id
  rw [view'] at seen
  generalize before : s.db.view task.id = view at seen
  cases seen with
  | created time asked =>
    subst asked
    exact request
  | acts effect =>
    rcases effect_written effect with kept | ⟨data, now, rfl, edited⟩
    · rw [kept]
      exact accepted.tasks _ (Table.mem_of_get (view_runs before).2.2.2)
    · rw [edited]
      exact request

theorem sources_accepted (linked : s.db.Linked) (accepted : s.db.Accepted zfsDestRoots)
    (step : Step env s op t) (request : op.Accepted zfsDestRoots) :
    ∀ source ∈ t.db.sources.rows, SourceAccepted source.user source.host := by
  cases writes : op.isSource with
  | false =>
    rw [apply_sources linked step writes]
    exact accepted.sources
  | true =>
    obtain ⟨-, rfl⟩ := step
    cases op with
    | createSource data now =>
      show ∀ source ∈ (s.db.orElse (createSource s.db data now)).sources.rows, _
      unfold createSource
      split
      · exact accepted.sources
      · intro source mem
        rcases mem_putRow_imp mem with rfl | old
        · exact request
        · exact accepted.sources source old
    | updateSource id data =>
      show ∀ source ∈ (s.db.orElse (updateSource s.db id data)).sources.rows, _
      unfold updateSource
      split
      · exact accepted.sources
      split
      · exact accepted.sources
      split
      · exact accepted.sources
      · intro source mem
        rcases mem_putRow_imp mem with rfl | old
        · exact request
        · exact accepted.sources source old
    | deleteSource id =>
      show ∀ source ∈ (s.db.orElse (deleteSource s.db id)).sources.rows, _
      unfold deleteSource
      split
      · exact accepted.sources
      split
      · exact accepted.sources
      · intro source mem
        exact accepted.sources source (List.mem_filter.mp mem).1
    | _ => cases writes

theorem accepted_reachable (reachable : AcceptedReachable zfsDestRoots env s) :
    s.db.Accepted zfsDestRoots := by
  obtain ⟨clock, ops, trace⟩ := reachable
  have empty : Db.Accepted zfsDestRoots .empty := ⟨by simp [Db.empty], by simp [Db.empty]⟩
  have both : s.db.Linked ∧ s.db.Accepted zfsDestRoots := by
    refine trace_invariant (fun s : Service => s.db.Linked ∧ s.db.Accepted zfsDestRoots) ?_ trace
      ⟨empty_linked, empty⟩
    rintro s op t ⟨linked, accepted⟩ ⟨step, request⟩
    exact ⟨(apply_sees linked step).1, sources_accepted linked accepted step request,
      tasks_accepted linked accepted step request⟩
  exact both.2

theorem sshUser_of_validated {user : String} (validated : validateSshUser user = .ok user) :
    sshUser user = true := by
  unfold validateSshUser at validated
  split at validated
  · cases validated
  · rename_i valid
    simp only [not_or, Bool.not_eq_false] at valid
    exact valid.2

theorem sshHost_of_validated {host : String} (validated : validateSshHost host = .ok host) :
    sshHost host = true := by
  unfold validateSshHost at validated
  split at validated
  · cases validated
  · rename_i valid
    simp only [not_or, Bool.not_eq_false] at valid
    exact valid.2

end Acceptance

/-- Options of rsync that take the next word, the one of the commands among them. -/
def rsyncSeparate : List String :=
  ["-e", "-f", "-B", "-M", "-T", "--rsh", "--exclude", "--include", "--bwlimit", "--rsync-path"]

theorem rsyncSeparate_documents : rsyncGrammar.Documents (readWords rsyncSeparate) := by
  have dashed : ∀ word ∈ rsyncSeparate ++ rsyncGrammar.switches ++
      rsyncGrammar.values.map Prod.fst, Dashed word := by
    unfold Dashed
    decide +kernel
  simp only [List.forall_mem_append] at dashed
  refine readWords_documents dashed.1.1 (by decide) (fun word mem => ⟨dashed.1.2 word mem, ?_⟩)
    (fun name mem => dashed.2 _ (List.mem_map_of_mem mem)) (by decide)
  have free : ∀ word ∈ rsyncGrammar.switches, word ∉ rsyncSeparate := by decide
  exact free word mem

namespace Sample

def commandSettings : CommandSettings := ⟨"tank/backups", "/data/known_hosts"⟩

def photos : Service := (Service.init 0).exec env [.createSource source 0, .createTask fields 0]

theorem photos_reachable : AcceptedReachable commandSettings.zfsDestRoots env photos := by
  refine ⟨0, _, trace_along ⟨⟨by decide, ?_⟩, ⟨by decide, ?_⟩, trivial⟩⟩
  · exact ⟨by decide +kernel, by decide +kernel⟩
  · exact ⟨fun syncoid => absurd syncoid (by decide), fun syncoid => absurd syncoid (by decide)⟩

def photosTask : Task := { fields with id := 1, createdAt := 0, updatedAt := 0 }

def photosSource : Source :=
  { id := 1, name := "nas", user := "backup", host := "nas", sshKeyPath := "/key", createdAt := 0 }

end Sample

end Pullbackup
