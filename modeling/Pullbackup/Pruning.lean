import Mathlib.Data.List.DropRight
import Pullbackup.Datasets

/- _prune_zfs_hourly: which snapshots it asks zfs to destroy, whatever becomes of the
   commands it runs. -/
namespace Pullbackup
open Text

inductive PruneError where
  | retention
  | destination (error : ZfsDestinationError)
  | runTimeout
  | cancelled
  | system
  deriving DecidableEq, Repr

def PruneError.message : PruneError → String
  | .retention => "prune retention must be at least 1"
  | .destination error => error.message
  | .runTimeout => "prune"
  | .cancelled | .system => ""

/-- What becomes of one command: create_subprocess_exec may raise before there is a process, and
    _communicate_bounded meets the deadline or a cancellation after. -/
inductive Fate where
  | notCreated (error : PruneError)
  | exited (returncode : Int) (output : String)
  | deadline
  | cancelled

/-- The snapshots of a pool in creation order, one name to a line. -/
structure Snapshots where
  names : List String
  distinct : names.Nodup
  oneLine : ∀ name ∈ names, ∀ c ∈ name.toList, lineBreak c = false

def Snapshots.listing (pool : Snapshots) : String := String.join (pool.names.map (· ++ "\n"))

def startsWith (pre name : String) : Bool := pre.toList.isPrefixOf name.toList

def hourlyPrefix (dataset : String) : String := dataset ++ "@zfs-auto-snap_hourly-"

structure Pruned where
  destroyed : List String := []
  log : List String := []
  raised : Option PruneError := none

def destroyLine (name output : String) (returncode : Int) : String :=
  "destroy " ++ name ++ ": rc=" ++ toString returncode ++ " " ++ strip output ++ "\n"

/-- The loop over the snapshots; fates says what becomes of each command in turn. -/
def destroyEach (fates : Nat → Fate) : Nat → List String → Pruned
  | _, [] => {}
  | turn, name :: rest =>
    match fates turn with
    | .notCreated error => { raised := some error }
    | .exited returncode output =>
      let later := destroyEach fates (turn + 1) rest
      { destroyed := name :: later.destroyed
        log := destroyLine name output returncode :: later.log
        raised := later.raised }
    | .deadline => { destroyed := [name], raised := some .runTimeout }
    | .cancelled => { destroyed := [name], raised := some .cancelled }

def pruneLine (dataset : String) (found : Nat) (keep excess : Int) : String :=
  "\n# prune: " ++ toString found ++ " hourly snaps on " ++ dataset ++ ", keep " ++
    toString keep ++ " -> destroy " ++ toString (max 0 excess) ++ "\n"

/-- What one call meets: the pool, how zfs list ends, the open of the log, and what becomes of
    each destroy command. -/
structure PruneWorld where
  pool : Snapshots
  listed : Except PruneError Unit := .ok ()
  opened : Except PruneError Unit := .ok ()
  fates : Nat → Fate

def pruneZfsHourly (zfsDestRoots dataset : String) (keep : Int) (w : PruneWorld) : Pruned :=
  if keep < 1 then { raised := some .retention }
  else
    match validateZfsDestination zfsDestRoots dataset with
    | .error error => { raised := some (.destination error) }
    | .ok dataset =>
      match w.listed with
      | .error error => { raised := some error }
      | .ok _ =>
        let snaps := (splitLines w.pool.listing).filter (startsWith (hourlyPrefix dataset))
        let excess := (snaps.length : Int) - keep
        match w.opened with
        | .error error => { raised := some error }
        | .ok _ =>
          let each := destroyEach w.fates 0 (snaps.take (max 0 excess).toNat)
          { each with log := pruneLine dataset snaps.length keep excess :: each.log }

section Destroying
variable {fates : Nat → Fate}

theorem destroyEach_prefix (turn : Nat) (names : List String) :
    (destroyEach fates turn names).destroyed <+: names := by
  induction names generalizing turn with
  | nil => exact List.prefix_rfl
  | cons name rest ih =>
    unfold destroyEach
    cases fates turn with
    | notCreated error => exact List.nil_prefix
    | exited returncode output => exact (List.prefix_cons_inj name).mpr (ih (turn + 1))
    | deadline => exact ⟨rest, rfl⟩
    | cancelled => exact ⟨rest, rfl⟩

theorem destroyEach_whole (exits : ∀ turn, ∃ returncode output, fates turn = .exited returncode output)
    (turn : Nat) (names : List String) : (destroyEach fates turn names).destroyed = names ∧
      (destroyEach fates turn names).raised = none := by
  induction names generalizing turn with
  | nil => exact ⟨rfl, rfl⟩
  | cons name rest ih =>
    obtain ⟨returncode, output, exited⟩ := exits turn
    unfold destroyEach
    rw [exited]
    obtain ⟨whole, quiet⟩ := ih (turn + 1)
    exact ⟨congrArg (name :: ·) whole, quiet⟩

theorem take_excess (snaps : List String) {keep : Int} (one : 1 ≤ keep) :
    snaps.take (max 0 ((snaps.length : Int) - keep)).toNat =
      snaps.rdrop (min keep.toNat snaps.length) := by
  unfold List.rdrop
  congr 1
  omega

end Destroying

section Pruning
variable {zfsDestRoots dataset : String} {keep : Int} {w : PruneWorld}

def Snapshots.hourly (pool : Snapshots) (dataset : String) : List String :=
  pool.names.filter (startsWith (hourlyPrefix dataset))

def Snapshots.kept (pool : Snapshots) (dataset : String) (keep : Int) : Nat :=
  min keep.toNat (pool.hourly dataset).length

/-- What is left when the commands that took effect are those of gone. -/
def Snapshots.without (pool : Snapshots) (gone : List String) : List String :=
  pool.names.filter (· ∉ gone)

/-- Nothing interrupts the call; commands may fail. -/
structure PruneWorld.Calm (w : PruneWorld) : Prop where
  listed : w.listed = .ok ()
  opened : w.opened = .ok ()
  exits : ∀ turn, ∃ returncode output, w.fates turn = .exited returncode output

theorem pruneZfsHourly_listed (one : 1 ≤ keep)
    (valid : validateZfsDestination zfsDestRoots dataset = .ok dataset)
    (listed : w.listed = .ok ()) (opened : w.opened = .ok ()) :
    (pruneZfsHourly zfsDestRoots dataset keep w).destroyed =
      (destroyEach w.fates 0
        ((w.pool.hourly dataset).rdrop (w.pool.kept dataset keep))).destroyed := by
  have read : splitLines w.pool.listing = w.pool.names := splitLines_print w.pool.oneLine
  unfold pruneZfsHourly
  rw [if_neg (by omega), valid, listed, opened]
  simp only [read]
  rw [take_excess _ one]
  rfl

/-- However the call ends, what it has issued comes from the oldest. -/
theorem pruneZfsHourly_prefix (one : 1 ≤ keep) :
    (pruneZfsHourly zfsDestRoots dataset keep w).destroyed <+:
      (w.pool.hourly dataset).rdrop (w.pool.kept dataset keep) := by
  cases valid : validateZfsDestination zfsDestRoots dataset with
  | error error => simp [pruneZfsHourly, valid, apply_ite Pruned.destroyed]
  | ok found =>
    obtain rfl := (validateZfsDestination_ok valid).1
    cases listed : w.listed with
    | error error => simp [pruneZfsHourly, valid, listed, apply_ite Pruned.destroyed]
    | ok _ =>
      cases opened : w.opened with
      | error error => simp [pruneZfsHourly, valid, listed, opened, apply_ite Pruned.destroyed]
      | ok _ =>
        rw [pruneZfsHourly_listed one valid listed opened]
        exact destroyEach_prefix 0 _

theorem hourly_nodup (pool : Snapshots) (dataset : String) : (pool.hourly dataset).Nodup :=
  pool.distinct.filter _

theorem newest_disjoint (pool : Snapshots) (dataset : String) (n : Nat) {name : String}
    (newest : name ∈ (pool.hourly dataset).rtake n) : name ∉ (pool.hourly dataset).rdrop n := by
  have nodup := hourly_nodup pool dataset
  rw [← List.take_append_drop ((pool.hourly dataset).length - n) (pool.hourly dataset),
    List.nodup_append] at nodup
  intro older
  exact nodup.2.2 name older name newest rfl

theorem newest_remain {pool : Snapshots} {n : Nat} {gone : List String}
    (gone_old : ∀ name ∈ gone, name ∈ (pool.hourly dataset).rdrop n) :
    ((pool.hourly dataset).rtake n).Sublist (pool.without gone) := by
  have listed : ((pool.hourly dataset).rtake n).Sublist pool.names :=
    (List.drop_sublist _ _).trans List.filter_sublist
  have stays : ((pool.hourly dataset).rtake n).filter (· ∉ gone) =
      (pool.hourly dataset).rtake n := by
    apply List.filter_eq_self.mpr
    intro name newest
    exact decide_eq_true fun mem => newest_disjoint pool dataset n newest (gone_old name mem)
  rw [← stays]
  exact listed.filter _

/-- Pruning asks for the oldest hourly snapshots of its dataset in order, for all beyond the
    retention when nothing interrupts it, and what it has asked for leaves everything else and
    the newest. -/
theorem pruneZfsHourly_keeps (zfsDestRoots dataset : String) (keep : Int) (w : PruneWorld)
    (one : 1 ≤ keep) :
    (pruneZfsHourly zfsDestRoots dataset keep w).destroyed <+:
        (w.pool.hourly dataset).rdrop (w.pool.kept dataset keep) ∧
      (zfsAccepts zfsDestRoots dataset = true → w.Calm →
        (pruneZfsHourly zfsDestRoots dataset keep w).destroyed =
          (w.pool.hourly dataset).rdrop (w.pool.kept dataset keep)) ∧
      ∀ gone, gone ⊆ (pruneZfsHourly zfsDestRoots dataset keep w).destroyed →
        (∀ name ∈ w.pool.names, startsWith (hourlyPrefix dataset) name = false →
          name ∈ w.pool.without gone) ∧
        ((w.pool.hourly dataset).rtake (w.pool.kept dataset keep)).Sublist
          (w.pool.without gone) := by
  have issued : (pruneZfsHourly zfsDestRoots dataset keep w).destroyed <+:
      (w.pool.hourly dataset).rdrop (w.pool.kept dataset keep) := pruneZfsHourly_prefix one
  refine ⟨issued, ?_, ?_⟩
  · intro accepted calm
    rw [pruneZfsHourly_listed one (zfsAccepts_ok accepted) calm.listed calm.opened]
    exact (destroyEach_whole calm.exits 0 _).1
  · intro gone asked
    have old : ∀ name ∈ gone, name ∈ (w.pool.hourly dataset).rdrop (w.pool.kept dataset keep) :=
      fun name mem => issued.subset (asked mem)
    refine ⟨?_, newest_remain old⟩
    intro name mem other
    apply List.mem_filter.mpr
    refine ⟨mem, decide_eq_true fun lost => ?_⟩
    have hourly := List.mem_filter.mp (List.mem_of_mem_take (old name lost))
    rw [other] at hourly
    cases hourly.2

namespace Sample

def snapshotNames : List String :=
  ["tank/a@zfs-auto-snap_hourly-1", "tank/a@before", "tank/a/b@zfs-auto-snap_hourly-1",
    "tank/a@zfs-auto-snap_hourly-2", "tank/a@zfs-auto-snap_hourly-3"]

def snapshots : Snapshots where
  names := snapshotNames
  distinct := by decide +kernel
  oneLine := by
    have plain : snapshotNames.all (fun name => name.toList.all fun c => !lineBreak c) = true := by
      decide +kernel
    simpa only [List.all_eq_true, Bool.not_eq_true'] using plain

def pruneWorld : PruneWorld where
  pool := snapshots
  fates := fun turn => .exited (if turn = 0 then 1 else 0) ""

end Sample

theorem pruneZfsHourly_keeps_newest :
    (pruneZfsHourly "tank" "tank/a" 1 Sample.pruneWorld).destroyed =
        ["tank/a@zfs-auto-snap_hourly-1", "tank/a@zfs-auto-snap_hourly-2"] := by
  have calm : Sample.pruneWorld.Calm := ⟨rfl, rfl, fun turn => ⟨_, _, rfl⟩⟩
  have whole := (pruneZfsHourly_keeps "tank" "tank/a" 1 Sample.pruneWorld (by decide)).2.1
    (by decide +kernel) calm
  have older : (Sample.pruneWorld.pool.hourly "tank/a").rdrop
      (Sample.pruneWorld.pool.kept "tank/a" 1) =
        ["tank/a@zfs-auto-snap_hourly-1", "tank/a@zfs-auto-snap_hourly-2"] := by decide +kernel
  rw [whole, older]

end Pruning

end Pullbackup
