import Pullbackup.Roots

/- walk_destination one system call at a time, on a disk of inodes that others change
between any two calls. -/
namespace Pullbackup
open Filesystem Text

inductive Object where
  | dir (inode : Nat)
  | link (target : String)
  | file
  deriving DecidableEq, Repr

structure Disk where
  dirs : Nat → Option (String → Option Object)
  next : Nat
  unused : ∀ inode, next ≤ inode → dirs inode = none

def Disk.entry (disk : Disk) (dir : Nat) (name : String) : Option Object :=
  (disk.dirs dir).bind fun names => names name

inductive Errno where
  | exist
  | noEntry
  | notDirectory
  | loop
  | other (code : Nat)
  deriving DecidableEq, Repr

def Disk.adding (disk : Disk) (dir : Nat) (names : String → Option Object) (name : String)
    (here : disk.dirs dir = some names) : Disk where
  dirs := Function.update (Function.update disk.dirs disk.next (some fun _ => none)) dir
    (some (Function.update names name (some (.dir disk.next))))
  next := disk.next + 1
  unused := by
    intro inode above
    have old : dir ≠ inode := by
      rintro rfl
      rw [disk.unused _ (by omega)] at here
      cases here
    rw [Function.update_of_ne old.symm, Function.update_of_ne (by omega)]
    exact disk.unused inode (by omega)

def Disk.mkdir (disk : Disk) (dir : Nat) (name : String) : Disk × Except Errno Unit :=
  match here : disk.dirs dir with
  | none => (disk, .error .noEntry)
  | some names =>
    if (names name).isSome then (disk, .error .exist)
    else (disk.adding dir names name here, .ok ())

/-- An open directory; the number tells apart what is opened at different calls. -/
structure Fd where
  number : Nat
  inode : Nat
  deriving DecidableEq, Repr

inductive Call where
  | openRoot (root : Path) (disk : Disk) (result : Except Errno Fd)
  | lstat (dir : Fd) (name : String) (disk : Disk) (result : Except Errno Object)
  | mkdir (dir : Fd) (name : String) (disk : Disk) (result : Except Errno Unit)
  | openat (dir : Fd) (name : String) (disk : Disk) (result : Except Errno Fd)
  | close (fd : Fd)

/-- What others do to the disk before each call, which calls fail for a reason of the system's
    own, and where the open of a pathname arrives. -/
structure Adversary where
  move : Nat → Disk → Disk
  fault : Nat → Option Nat
  openPath : Disk → Path → Except Errno Nat

structure Calls where
  disk : Disk
  log : List Call := []

def Calls.record (disk : Disk) (s : Calls) (call : Call) : Calls := ⟨disk, s.log ++ [call]⟩

section Calls
variable (w : Adversary) (s : Calls)

def Calls.met : Disk := w.move s.log.length s.disk

/-- A fault comes before what the call would do. -/
def unlessFault {α : Type} (result : Except Errno α) : Except Errno α :=
  match w.fault s.log.length with
  | some code => .error (.other code)
  | none => result

def openRoot (root : Path) : Calls × Except Errno Fd :=
  let disk := s.met w
  let result := unlessFault w s ((w.openPath disk root).map fun inode => ⟨s.log.length, inode⟩)
  (Calls.record disk s (.openRoot root disk result), result)

def lstat (dir : Fd) (name : String) : Calls × Except Errno Object :=
  let disk := s.met w
  let result := unlessFault w s
    (match disk.entry dir.inode name with
      | some object => .ok object
      | none => .error .noEntry)
  (Calls.record disk s (.lstat dir name disk result), result)

def mkdir (dir : Fd) (name : String) : Calls × Except Errno Unit :=
  let disk := s.met w
  match w.fault s.log.length with
  | some code =>
    (Calls.record disk s (.mkdir dir name disk (.error (.other code))), .error (.other code))
  | none =>
    let made := disk.mkdir dir.inode name
    (Calls.record made.1 s (.mkdir dir name disk made.2), made.2)

/-- O_DIRECTORY | O_NOFOLLOW relative to an open directory. -/
def openat (dir : Fd) (name : String) : Calls × Except Errno Fd :=
  let disk := s.met w
  let result := unlessFault w s
    (match disk.entry dir.inode name with
      | some (.dir inode) => .ok ⟨s.log.length, inode⟩
      | some (.link _) => .error .loop
      | some .file => .error .notDirectory
      | none => .error .noEntry)
  (Calls.record disk s (.openat dir name disk result), result)

def close (fd : Fd) : Calls := Calls.record (s.met w) s (.close fd)

end Calls

inductive WalkError where
  | rootNotOpened (root : Path) (error : Errno)
  | componentIsSymlink (name : String) (error : Errno)
  | system (error : Errno)
  deriving DecidableEq, Repr

section Walk
variable (w : Adversary)

def isSymlink (s : Calls) (parent : Fd) (name : String) : Calls × Bool :=
  match lstat w s parent name with
  | (s, .ok (.link _)) => (s, true)
  | (s, _) => (s, false)

def openNoFollow (s : Calls) (parent : Fd) (name : String) : Calls × Except WalkError Fd :=
  match openat w s parent name with
  | (s, .ok fd) => (s, .ok fd)
  | (s, .error error) =>
    match isSymlink w s parent name with
    | (s, true) => (s, .error (.componentIsSymlink name error))
    | (s, false) => (s, .error (.system error))

def openChildAt (s : Calls) (parent : Fd) (name : String) (create : Bool) :
    Calls × Except WalkError Fd :=
  if create then
    match mkdir w s parent name with
    | (s, .ok _) => openNoFollow w s parent name
    | (s, .error .exist) => openNoFollow w s parent name
    | (s, .error error) => (s, .error (.system error))
  else openNoFollow w s parent name

def existsAt (s : Calls) (parent : Fd) (name : String) : Calls × Except WalkError Bool :=
  match lstat w s parent name with
  | (s, .ok _) => (s, .ok true)
  | (s, .error .noEntry) => (s, .ok false)
  | (s, .error error) => (s, .error (.system error))

/-- One turn of the loop of walk_destination: the held directory is closed when the next is
    open, when there is nothing more to check, and when something is raised. -/
def walkTurn (create : Bool) (s : Calls) (current : Fd) (name : String) :
    Calls × Except WalkError (Option Fd) :=
  match if create then (s, .ok true) else existsAt w s current name with
  | (s, .error error) => (close w s current, .error error)
  | (s, .ok false) => (close w s current, .ok none)
  | (s, .ok true) =>
    match openChildAt w s current name create with
    | (s, .error error) => (close w s current, .error error)
    | (s, .ok next) => (close w s current, .ok (some next))

def walkAt (create : Bool) (s : Calls) (current : Fd) :
    List String → Calls × Except WalkError (Option Fd)
  | [] => (s, .ok (some current))
  | name :: rest =>
    match walkTurn w create s current name with
    | (s, .error error) => (s, .error error)
    | (s, .ok none) => (s, .ok none)
    | (s, .ok (some next)) => walkAt create s next rest

end Walk

/-- One name of a directory: no separator, and not the directory or its parent. -/
structure PlainName (name : String) : Prop where
  nonempty : name ≠ ""
  here : name ≠ "."
  parent : name ≠ ".."
  single : '/' ∉ name.toList

structure Resolution where
  resolved : Path
  root : Path
  inside : root <+: resolved
  plain : ∀ name ∈ resolved, PlainName name

def Resolution.relative (r : Resolution) : List String := r.resolved.drop r.root.length

def walkResolved (w : Adversary) (start : Disk) (r : Resolution) (create : Bool) :
    Calls × Except WalkError (Option Fd) :=
  match openRoot w ⟨start, []⟩ r.root with
  | (s, .error error) => (s, .error (.rootNotOpened r.root error))
  | (s, .ok fd) => walkAt w create s fd r.relative

section Descent
variable {r : Resolution} {w : Adversary} {s t : Calls} {log more : List Call} {fd current : Fd}
  {names rest : List String} {name : String}

/-- The directory of fd was reached from the root's descriptor by the names, each open finding
    under its one name a real directory, the one it opened. -/
inductive Descends (root : Path) (log : List Call) : Fd → List String → Prop where
  | root {disk : Disk} {fd : Fd} (opened : Call.openRoot root disk (.ok fd) ∈ log) :
      Descends root log fd []
  | child {disk : Disk} {dir fd : Fd} {names : List String} {name : String}
      (above : Descends root log dir names) (plain : PlainName name)
      (real : disk.entry dir.inode name = some (.dir fd.inode))
      (opened : Call.openat dir name disk (.ok fd) ∈ log) :
      Descends root log fd (names ++ [name])

theorem Descends.later (descends : Descends r.root log fd names) :
    Descends r.root (log ++ more) fd names := by
  induction descends with
  | root opened => exact .root (List.mem_append_left more opened)
  | child above plain real opened ih =>
    exact .child ih plain real (List.mem_append_left more opened)

/-- A call that makes or opens something below the root does it under one name, the next of the
    destination, of a directory reached by those before it. -/
def Grounded (r : Resolution) (log : List Call) : Call → Prop
  | .mkdir dir name _ _ | .openat dir name _ _ =>
    PlainName name ∧ ∃ names, Descends r.root log dir names ∧ names ++ [name] <+: r.relative
  | _ => True

/-- Every call was grounded in those before it. -/
def Sound (r : Resolution) (log : List Call) : Prop :=
  ∀ before call after, log = before ++ call :: after → Grounded r before call

def Clean (log : List Call) : Prop :=
  ∀ dir name disk result, Call.openat dir name disk result ∈ log →
    ∃ inode, disk.entry dir.inode name = some (.dir inode)

/-- A call that opens nothing and makes nothing. -/
def Call.quiet : Call → Bool
  | .lstat .. | .close _ => true
  | _ => false

/-- A walk that met something else than a directory raised and only looked and closed. -/
def Halted {α : Type} (log : List Call) (outcome : Except WalkError α) : Prop :=
  Clean log ∨ ∃ front call back, log = front ++ call :: back ∧ Clean front ∧
    (∀ c ∈ back, c.quiet = true) ∧ ∃ error, outcome = .error error

theorem grounded_quiet {call : Call} (quiet : call.quiet = true) : Grounded r log call := by
  cases call with
  | lstat dir name disk result => trivial
  | close fd => trivial
  | openRoot root disk result => cases quiet
  | mkdir dir name disk result => cases quiet
  | openat dir name disk result => cases quiet

theorem Sound.snoc (sound : Sound r log) {call : Call} (grounded : Grounded r log call) :
    Sound r (log ++ [call]) := by
  intro before other after split
  rcases List.eq_nil_or_concat after with rfl | ⟨front, last, rfl⟩
  · obtain ⟨rfl, same⟩ := List.append_inj' split rfl
    cases same
    exact grounded
  · rw [List.concat_eq_append, ← List.cons_append, ← List.append_assoc] at split
    obtain ⟨rfl, -⟩ := List.append_inj' split rfl
    exact sound before other front rfl

theorem Clean.snoc (clean : Clean log) {call : Call}
    (real : ∀ dir name disk result, call = .openat dir name disk result →
      ∃ inode, disk.entry dir.inode name = some (.dir inode)) : Clean (log ++ [call]) := by
  intro dir name disk result mem
  rcases List.mem_append.mp mem with old | new
  · exact clean dir name disk result old
  · exact real dir name disk result (List.mem_singleton.mp new).symm

theorem Clean.snoc_quiet (clean : Clean log) {call : Call} (quiet : call.quiet = true) :
    Clean (log ++ [call]) := by
  apply clean.snoc
  rintro dir name disk result rfl
  cases quiet

structure HeldAt (r : Resolution) (log : List Call) (fd : Fd) (names : List String) : Prop where
  sound : Sound r log
  clean : Clean log
  reached : Descends r.root log fd names

structure Finished (r : Resolution) (log : List Call) (outcome : Except WalkError (Option Fd)) :
    Prop where
  sound : Sound r log
  halted : Halted log outcome
  returned : ∀ fd, outcome = .ok (some fd) → Descends r.root log fd r.relative

theorem HeldAt.quiet (held : HeldAt r log fd names) (call : Call) (quiet : call.quiet = true) :
    HeldAt r (log ++ [call]) fd names := by
  exact ⟨held.sound.snoc (grounded_quiet quiet), held.clean.snoc_quiet quiet,
    held.reached.later⟩

theorem HeldAt.mkdir (held : HeldAt r log fd names) (plain : PlainName name)
    (next : names ++ [name] <+: r.relative) (disk : Disk) (result : Except Errno Unit) :
    HeldAt r (log ++ [.mkdir fd name disk result]) fd names := by
  refine ⟨held.sound.snoc ⟨plain, names, held.reached, next⟩, held.clean.snoc ?_,
    held.reached.later⟩
  intro dir other met back same
  cases same

theorem Halted.quiet {α β : Type} {outcome : Except WalkError α} (halted : Halted log outcome)
    (call : Call) (quiet : call.quiet = true) (error : WalkError) :
    Halted (log ++ [call]) (.error error : Except WalkError β) := by
  obtain clean | ⟨front, first, back, rfl, clean, quiets, _⟩ := halted
  · exact Or.inl (clean.snoc_quiet quiet)
  · refine Or.inr ⟨front, first, back ++ [call], by simp, clean, ?_, error, rfl⟩
    intro c mem
    rcases List.mem_append.mp mem with old | new
    · exact quiets c old
    · exact List.mem_singleton.mp new ▸ quiet

theorem existsAt_log (w : Adversary) (s : Calls) (parent : Fd) (name : String) :
    ∃ disk result,
      (existsAt w s parent name).1.log = s.log ++ [.lstat parent name disk result] := by
  have log : (lstat w s parent name).1.log =
      s.log ++ [.lstat parent name (s.met w) (lstat w s parent name).2] := rfl
  unfold existsAt
  split
  all_goals
    rename_i same
    rw [same] at log
    exact ⟨_, _, log⟩

theorem isSymlink_log (w : Adversary) (s : Calls) (parent : Fd) (name : String) :
    ∃ disk result,
      (isSymlink w s parent name).1.log = s.log ++ [.lstat parent name disk result] := by
  have log : (lstat w s parent name).1.log =
      s.log ++ [.lstat parent name (s.met w) (lstat w s parent name).2] := rfl
  unfold isSymlink
  split
  all_goals
    rename_i same
    rw [same] at log
    exact ⟨_, _, log⟩

theorem mkdir_log (w : Adversary) (s : Calls) (parent : Fd) (name : String) :
    ∃ disk result, (mkdir w s parent name).1.log = s.log ++ [.mkdir parent name disk result] := by
  unfold mkdir
  split
  · exact ⟨_, _, rfl⟩
  · exact ⟨_, _, rfl⟩

/-- A successful open found a real directory under the name. -/
theorem openat_log (w : Adversary) (s : Calls) (parent : Fd) (name : String) :
    (openat w s parent name).1.log =
        s.log ++ [.openat parent name (s.met w) (openat w s parent name).2] ∧
      ∀ fd, (openat w s parent name).2 = .ok fd → fd.number = s.log.length ∧
        (s.met w).entry parent.inode name = some (.dir fd.inode) := by
  refine ⟨rfl, ?_⟩
  intro fd opened
  simp only [openat, unlessFault] at opened
  split at opened
  · cases opened
  · split at opened
    · rename_i inode found
      cases opened
      exact ⟨rfl, found⟩
    · cases opened
    · cases opened
    · cases opened

/-- What the open of the next component leaves. -/
inductive Stepped (r : Resolution) (log : List Call) (names : List String) :
    Except WalkError Fd → Prop where
  | opened {fd : Fd} (held : HeldAt r log fd names) : Stepped r log names (.ok fd)
  | raised {error : WalkError} (sound : Sound r log)
      (halted : Halted log (.error error : Except WalkError Fd)) :
      Stepped r log names (.error error)

theorem openNoFollow_stepped (held : HeldAt r s.log current names) (plain : PlainName name)
    (next : names ++ [name] <+: r.relative) :
    Stepped r (openNoFollow w s current name).1.log (names ++ [name])
      (openNoFollow w s current name).2 := by
  obtain ⟨log, real⟩ := openat_log w s current name
  have grounded : Grounded r s.log
      (.openat current name (s.met w) (openat w s current name).2) :=
    ⟨plain, names, held.reached, next⟩
  have sound := held.sound.snoc grounded
  unfold openNoFollow
  cases result : openat w s current name with
  | mk t outcome =>
    rw [result] at log real sound
    cases outcome with
    | ok fd =>
      simp only at log real sound ⊢
      rw [← log] at sound
      refine .opened ⟨sound, ?_, ?_⟩
      · rw [log]
        apply held.clean.snoc
        intro dir other disk back same
        cases same
        exact ⟨fd.inode, (real fd rfl).2⟩
      · rw [log]
        exact .child held.reached.later plain (real fd rfl).2 (by simp)
    | error errno =>
      simp only at log sound ⊢
      rw [← log] at sound
      obtain ⟨met, answer, looked⟩ := isSymlink_log w t current name
      have after : Sound r (isSymlink w t current name).1.log := by
        rw [looked]
        exact sound.snoc (grounded_quiet rfl)
      have halted : ∀ error : WalkError,
          Halted (isSymlink w t current name).1.log (.error error : Except WalkError Fd) := by
        intro error
        refine Or.inr ⟨s.log, .openat current name (s.met w) (.error errno),
          [.lstat current name met answer], ?_, held.clean, ?_, error, rfl⟩
        · rw [looked, log]
          simp
        · intro call mem
          rw [List.mem_singleton.mp mem]
          rfl
      cases link : isSymlink w t current name with
      | mk u symlink =>
        rw [link] at after halted
        cases symlink with
        | true => exact .raised after (halted _)
        | false => exact .raised after (halted _)

theorem openChildAt_stepped (create : Bool) (held : HeldAt r s.log current names)
    (plain : PlainName name) (next : names ++ [name] <+: r.relative) :
    Stepped r (openChildAt w s current name create).1.log (names ++ [name])
      (openChildAt w s current name create).2 := by
  unfold openChildAt
  cases create with
  | false => exact openNoFollow_stepped held plain next
  | true =>
    obtain ⟨disk, made, log⟩ := mkdir_log w s current name
    have kept := held.mkdir plain next disk made
    rw [← log] at kept
    simp only [if_true]
    split
    · rename_i t _ same
      rw [same] at kept
      exact openNoFollow_stepped kept plain next
    · rename_i t same
      rw [same] at kept
      exact openNoFollow_stepped kept plain next
    · rename_i t error _ same
      rw [same] at kept
      exact .raised kept.sound (Or.inl kept.clean)

/-- What one turn of the loop leaves. -/
inductive TurnEnd (r : Resolution) (log : List Call) (names : List String) :
    Except WalkError (Option Fd) → Prop where
  | next {fd : Fd} (held : HeldAt r log fd names) : TurnEnd r log names (.ok (some fd))
  | stopped (sound : Sound r log) (clean : Clean log) : TurnEnd r log names (.ok none)
  | raised {error : WalkError} (sound : Sound r log)
      (halted : Halted log (.error error : Except WalkError (Option Fd))) :
      TurnEnd r log names (.error error)

theorem walkTurn_end (create : Bool) (held : HeldAt r s.log current names)
    (plain : PlainName name) (next : names ++ [name] <+: r.relative) :
    TurnEnd r (walkTurn w create s current name).1.log (names ++ [name])
      (walkTurn w create s current name).2 := by
  -- what the turn checks first leaves the directory held
  obtain ⟨checked, log⟩ : ∃ checked, HeldAt r checked current names ∧
      (if create then (s, .ok true) else existsAt w s current name).1.log = checked := by
    cases create with
    | true => exact ⟨s.log, held, rfl⟩
    | false =>
      obtain ⟨disk, answer, log⟩ := existsAt_log w s current name
      exact ⟨_, held.quiet (.lstat current name disk answer) rfl, log⟩
  unfold walkTurn
  split
  · rename_i t error same
    rw [same] at log
    have closed := (log.2 ▸ log.1 : HeldAt r t.log current names).quiet (.close current) rfl
    exact .raised closed.sound (Or.inl closed.clean)
  · rename_i t same
    rw [same] at log
    have closed := (log.2 ▸ log.1 : HeldAt r t.log current names).quiet (.close current) rfl
    exact .stopped closed.sound closed.clean
  · rename_i t same
    rw [same] at log
    have kept : HeldAt r t.log current names := log.2 ▸ log.1
    have step : Stepped r (openChildAt w t current name create).1.log (names ++ [name])
        (openChildAt w t current name create).2 := openChildAt_stepped create kept plain next
    cases result : openChildAt w t current name create with
    | mk u outcome =>
      rw [result] at step
      cases step with
      | opened held => exact .next (held.quiet (.close current) rfl)
      | raised sound halted =>
        exact .raised (sound.snoc (grounded_quiet rfl)) (halted.quiet (.close current) rfl _)

theorem walkAt_finished (create : Bool) (plain : ∀ name ∈ rest, PlainName name)
    (held : HeldAt r s.log current names) (whole : names ++ rest = r.relative) :
    Finished r (walkAt w create s current rest).1.log (walkAt w create s current rest).2 := by
  induction rest generalizing s current names with
  | nil =>
    refine ⟨held.sound, Or.inl held.clean, ?_⟩
    intro fd same
    cases same
    rw [← whole, List.append_nil]
    exact held.reached
  | cons name rest ih =>
    have next : names ++ [name] <+: r.relative := ⟨rest, by rw [← whole]; simp⟩
    have turned : TurnEnd r (walkTurn w create s current name).1.log (names ++ [name])
        (walkTurn w create s current name).2 :=
      walkTurn_end create held (plain name List.mem_cons_self) next
    unfold walkAt
    cases result : walkTurn w create s current name with
    | mk t outcome =>
      rw [result] at turned
      cases turned with
      | next held =>
        exact ih (fun n mem => plain n (List.mem_cons_of_mem name mem)) held (by
          rw [← whole]
          simp)
      | stopped sound clean => exact ⟨sound, Or.inl clean, fun fd same => by cases same⟩
      | raised sound halted => exact ⟨sound, halted, fun fd same => by cases same⟩

theorem walkResolved_finished (w : Adversary) (start : Disk) (r : Resolution) (create : Bool) :
    Finished r (walkResolved w start r create).1.log (walkResolved w start r create).2 := by
  have sound : ∀ disk result, Sound r [.openRoot r.root disk result] := by
    intro disk result
    have blank : Sound r [] := by
      intro before call after split
      simp at split
    exact blank.snoc trivial
  have clean : ∀ disk result, Clean [.openRoot r.root disk result] := by
    intro disk result dir name met back mem
    simp at mem
  have log : (openRoot w ⟨start, []⟩ r.root).1.log =
      [.openRoot r.root (Calls.met w ⟨start, []⟩) (openRoot w ⟨start, []⟩ r.root).2] := rfl
  unfold walkResolved
  cases result : openRoot w ⟨start, []⟩ r.root with
  | mk s outcome =>
    rw [result] at log
    cases outcome with
    | error error =>
      simp only at log ⊢
      rw [log]
      exact ⟨sound _ _, Or.inl (clean _ _), fun fd same => by cases same⟩
    | ok fd =>
      simp only at log
      have plain : ∀ name ∈ r.relative, PlainName name :=
        fun name mem => r.plain name (List.mem_of_mem_drop mem)
      apply walkAt_finished create plain ?_ (List.nil_append _)
      rw [log]
      exact ⟨sound _ _, clean _ _, .root List.mem_cons_self⟩

/-- A halted walk that opened something else than a directory raised there. -/
theorem Halted.stops {α : Type} {outcome : Except WalkError α} (halted : Halted log outcome)
    {before after : List Call} {dir : Fd} {disk : Disk} {result : Except Errno Fd}
    (split : log = before ++ .openat dir name disk result :: after)
    (unreal : ∀ inode, disk.entry dir.inode name ≠ some (.dir inode)) :
    (∃ error, outcome = .error error) ∧ ∀ call ∈ after, call.quiet = true := by
  obtain clean | ⟨front, call, back, other, clean, quiets, raised⟩ := halted
  · obtain ⟨inode, real⟩ := clean dir name disk result (by rw [split]; simp)
    exact absurd real (unreal inode)
  · refine ⟨raised, ?_⟩
    rw [other] at split
    rcases List.append_eq_append_iff.mp split with ⟨gap, ahead, same⟩ | ⟨gap, behind, same⟩
    · cases gap with
      | nil =>
        cases same
        exact quiets
      | cons first gap =>
        cases same
        have loud := quiets (.openat dir name disk result) (by simp)
        cases loud
    · cases gap with
      | nil =>
        cases same
        exact quiets
      | cons first gap =>
        cases same
        obtain ⟨inode, real⟩ := clean dir name disk result (by rw [behind]; simp)
        exact absurd real (unreal inode)

/-- Whatever others do between the calls, every directory below the root is made and opened
    under one plain name of a directory that was reached from the root's descriptor by opens of
    real directories; the handle is the last of them; and what is no directory when it is opened
    ends the walk. -/
theorem walk_follows_no_symlink (w : Adversary) (start : Disk) (r : Resolution) (create : Bool) :
    (∀ before call after, (walkResolved w start r create).1.log = before ++ call :: after →
      ∀ dir name, (∃ disk result, call = .mkdir dir name disk result) ∨
          (∃ disk result, call = .openat dir name disk result) →
        PlainName name ∧ ∃ names, Descends r.root before dir names ∧
          names ++ [name] <+: r.relative) ∧
    (∀ fd, (walkResolved w start r create).2 = .ok (some fd) →
      Descends r.root (walkResolved w start r create).1.log fd r.relative) ∧
    ∀ before dir name disk result after,
      (walkResolved w start r create).1.log = before ++ .openat dir name disk result :: after →
      (∀ inode, disk.entry dir.inode name ≠ some (.dir inode)) →
      (∃ error, (walkResolved w start r create).2 = .error error) ∧
        ∀ call ∈ after, call.quiet = true := by
  have finished := walkResolved_finished w start r create
  refine ⟨?_, finished.returned, ?_⟩
  · intro before call after split dir name below
    have grounded := finished.sound before call after split
    obtain ⟨disk, result, rfl⟩ | ⟨disk, result, rfl⟩ := below
    · exact grounded
    · exact grounded
  · intro before dir name disk result after split unreal
    exact finished.halted.stops split unreal

end Descent

section Resolving

abbrev Look := Nat → Path → Option String

/-- os.path.realpath with a look at each turn; none while it has not come to an end. -/
def racedRealpath (look : Look) : Nat → Nat → List Part → Path → List (Path × Option Path) →
    Option Path
  | _, _, [], path, _ => some path
  | 0, _, _ :: _, _, _ => none
  | fuel + 1, turn, .resolved link :: rest, path, seen =>
    racedRealpath look fuel turn rest path ((link, some path) :: seen)
  | fuel + 1, turn, .name name :: rest, path, seen =>
    if name = "" ∨ name = "." then racedRealpath look fuel turn rest path seen
    else if name = ".." then racedRealpath look fuel turn rest path.dropLast seen
    else
      let new := path ++ [name]
      match look turn new with
      | none => racedRealpath look fuel (turn + 1) rest new seen
      | some target =>
        match seen.lookup new with
        | some (some resolved) => racedRealpath look fuel (turn + 1) rest resolved seen
        | some none => racedRealpath look fuel (turn + 1) rest new seen
        | none =>
          racedRealpath look fuel (turn + 1)
            ((split '/' target).map .name ++ .resolved new :: rest)
            (if isAbsolute target then [] else path) ((new, none) :: seen)

def PlainPath (path : Path) : Prop := ∀ name ∈ path, PlainName name

def Single (parts : List Part) : Prop := ∀ name, .name name ∈ parts → '/' ∉ name.toList

theorem single_split (text : String) : Single ((split '/' text).map .name) := by
  intro name mem
  obtain ⟨part, cut, same⟩ := List.mem_map.mp mem
  cases same
  obtain ⟨letters, piece, rfl⟩ := List.mem_map.mp cut
  rw [String.toList_ofList]
  exact not_mem_of_mem_splitOn piece

/-- Whatever is found on the way, a canonical path is made of plain names. -/
theorem racedRealpath_plain {look : Look} {fuel turn : Nat} {parts : List Part} {path result : Path}
    {seen : List (Path × Option Path)} (single : Single parts) (plain : PlainPath path)
    (cached : ∀ link resolved, (link, some resolved) ∈ seen → PlainPath resolved)
    (done : racedRealpath look fuel turn parts path seen = some result) : PlainPath result := by
  induction fuel generalizing turn parts path seen with
  | zero =>
    cases parts with
    | nil =>
      cases done
      exact plain
    | cons part rest => cases done
  | succ fuel ih =>
    cases parts with
    | nil =>
      cases done
      exact plain
    | cons part rest =>
      have later : Single rest := fun name mem => single name (List.mem_cons_of_mem _ mem)
      cases part with
      | resolved link =>
        apply ih later plain ?_ done
        intro other resolved mem
        rcases List.mem_cons.mp mem with same | old
        · cases same
          exact plain
        · exact cached other resolved old
      | name name =>
        simp only [racedRealpath] at done
        split at done
        · exact ih later plain cached done
        · rename_i nonempty
          split at done
          · exact ih later (fun n mem => plain n (List.dropLast_subset _ mem)) cached done
          · rename_i parent
            have one : PlainName name := by
              refine ⟨fun same => nonempty (Or.inl same), fun same => nonempty (Or.inr same), parent, ?_⟩
              exact single name List.mem_cons_self
            have longer : PlainPath (path ++ [name]) := by
              intro n mem
              rcases List.mem_append.mp mem with old | new
              · exact plain n old
              · exact List.mem_singleton.mp new ▸ one
            split at done
            · exact ih later longer cached done
            · rename_i target found
              split at done
              · rename_i resolved known
                obtain ⟨front, back, split, -⟩ := List.lookup_eq_some_iff.mp known
                exact ih later (cached (path ++ [name]) resolved (by rw [split]; simp)) cached done
              · exact ih later longer cached done
              · apply ih ?_ ?_ ?_ done
                · intro n mem
                  rcases List.mem_append.mp mem with new | old
                  · exact single_split target n new
                  · rcases List.mem_cons.mp old with same | old
                    · cases same
                    · exact later n old
                · split
                  · intro n mem
                    cases mem
                  · exact plain
                · intro link resolved mem
                  rcases List.mem_cons.mp mem with same | old
                  · cases same
                  · exact cached link resolved old

def racedRoots (looks : Nat → Look) (fuel : Nat) : Nat → List PurePath → Option (List Path)
  | _, [] => some []
  | k, root :: rest =>
    if !root.isAbsolute || forbidden root.str then racedRoots looks fuel k rest
    else
      match racedRealpath (looks k) fuel 0 (root.parts.map .name) [] [] with
      | none => none
      | some canonical => (racedRoots looks fuel (k + 1) rest).map (canonical :: ·)

theorem purePath_single (path : String) : Single ((purePath path).parts.map .name) := by
  intro name mem
  obtain ⟨part, kept, same⟩ := List.mem_map.mp mem
  cases same
  have cut : name ∈ split '/' path := (List.mem_filter.mp kept).1
  exact single_split path name (List.mem_map_of_mem cut)

/-- _resolve_with_root while others change the tree; the k-th resolution looks with looks k. -/
def resolveRaced (looks : Nat → Look) (fuel : Nat) (destRoots path : String) :
    Option (Except ResolveError Resolution) :=
  if path = "" then some (.error (.refused .empty))
  else if forbidden path then some (.error (.refused .controlCharacters))
  else if !(purePath path).isAbsolute then some (.error (.refused .relative))
  else
    match canonical : racedRealpath (looks 0) fuel 0 ((purePath path).parts.map .name) [] [] with
    | none => none
    | some resolved =>
      match racedRoots looks fuel 1 (destRootsList destRoots) with
      | none => none
      | some roots =>
        match specific : (roots.filter fun root => root.isPrefixOf resolved).argmax List.length with
        | none => some (.error (.refused (.outside path)))
        | some root =>
          some (.ok
            { resolved := resolved
              root := root
              inside := (argmax_mostSpecific specific).inside
              plain := racedRealpath_plain (purePath_single path) (by simp [PlainPath])
                (by simp) canonical })

end Resolving

end Pullbackup
