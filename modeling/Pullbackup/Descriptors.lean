import Pullbackup.Library.Handles
import Pullbackup.Traversal

/- The descriptors that walk_destination opens and closes, on every path through it; what
comes before its first open looks at the tree and opens nothing. -/
namespace Pullbackup
open Filesystem Handles

/-- PinnedDestination: its descriptor until it is closed, and the validated path. -/
structure PinnedAt where
  fd : Option Fd
  path : Path
  deriving DecidableEq, Repr

inductive TraversalError where
  | unresolved (error : ResolveError)
  | walk (error : WalkError)
  | missing (path : String)
  deriving DecidableEq, Repr

section Source
variable (w : Adversary) (start : Disk)

def walkDestinationAt (answer : Except ResolveError Resolution) (create : Bool) :
    Calls × Except TraversalError (Option PinnedAt) :=
  match answer with
  | .error error => (⟨start, []⟩, .error (.unresolved error))
  | .ok r =>
    match walkResolved w start r create with
    | (s, .error error) => (s, .error (.walk error))
    | (s, .ok none) => (s, .ok none)
    | (s, .ok (some current)) => (s, .ok (some ⟨some current, r.resolved⟩))

def walkPath (looks : Nat → Look) (fuel : Nat) (destRoots path : String) (create : Bool) :
    Option (Calls × Except TraversalError (Option PinnedAt)) :=
  (resolveRaced looks fuel destRoots path).map fun answer =>
    walkDestinationAt w start answer create

def openDestinationAt (answer : Except ResolveError Resolution) (path : String) (create : Bool) :
    Calls × Except TraversalError PinnedAt :=
  match walkDestinationAt w start answer create with
  | (s, .error error) => (s, .error error)
  | (s, .ok none) => (s, .error (.missing path))
  | (s, .ok (some pinned)) => (s, .ok pinned)

/-- PinnedDestination.close; no descriptor is the -1 of the source. -/
def PinnedAt.close (s : Calls) (pinned : PinnedAt) : Calls × PinnedAt :=
  match pinned.fd with
  | some fd => (Pullbackup.close w s fd, { pinned with fd := none })
  | none => (s, pinned)

end Source

/-- A successful open takes a descriptor and a close gives one back. -/
def Call.event : Call → Option (Handling Fd)
  | .openRoot _ _ (.ok fd) | .openat _ _ _ (.ok fd) => some (.acquire fd)
  | .close fd => some (.release fd)
  | _ => none

def descriptorEvents (log : List Call) : List (Handling Fd) := log.filterMap Call.event

def closed (log : List Call) : List Fd :=
  log.filterMap fun
    | .close fd => some fd
    | _ => none

/-- The descriptor table of the process after the calls: before is open when they begin, and the
    system gives each open a number that is free. -/
def descriptors (a : Allocator) (before : Finset Nat) (log : List Call) : Numbers Fd :=
  Numbers.run a (.start before) (descriptorEvents log)

section Ownership
variable {w : Adversary} {s t : Calls} {log : List Call} {call : Call} {held : Finset Fd}
  {fd current : Fd} {name : String}

theorem descriptorEvents_snoc : descriptorEvents (log ++ [call]) =
    descriptorEvents log ++ call.event.toList := by
  unfold descriptorEvents
  rw [List.filterMap_append]
  cases same : call.event with
  | none => simp [same]
  | some event => simp [same]

theorem closed_eq (log : List Call) : closed log = released (descriptorEvents log) := by
  unfold closed released descriptorEvents
  rw [List.filterMap_filterMap]
  congr 1
  funext call
  cases call with
  | close fd => rfl
  | lstat dir name disk result => rfl
  | mkdir dir name disk result => rfl
  | openRoot root disk result =>
    cases result with
    | ok fd => rfl
    | error error => rfl
  | openat dir name disk result =>
    cases result with
    | ok fd => rfl
    | error error => rfl

/-- The calls so far leave exactly these descriptors open, and the next call's is a new one. -/
structure HoldsOpen (log : List Call) (held : Finset Fd) : Prop where
  uses : Uses (descriptorEvents log) held
  below : ∀ fd, .acquire fd ∈ descriptorEvents log → fd.number < log.length

theorem HoldsOpen.start : HoldsOpen [] ∅ := by
  constructor
  · exact .start
  · intro fd mem
    cases mem

theorem HoldsOpen.silent (holds : HoldsOpen log held) (silent : call.event = none) :
    HoldsOpen (log ++ [call]) held := by
  have same : descriptorEvents (log ++ [call]) = descriptorEvents log := by
    rw [descriptorEvents_snoc, silent]
    simp
  constructor
  · rw [same]
    exact holds.uses
  · intro fd mem
    have old := holds.below fd (same ▸ mem)
    simp only [List.length_append, List.length_singleton]
    omega

theorem HoldsOpen.opens (holds : HoldsOpen log held) (opens : call.event = some (.acquire fd))
    (number : fd.number = log.length) : HoldsOpen (log ++ [call]) (insert fd held) ∧ fd ∉ held := by
  have same : descriptorEvents (log ++ [call]) = descriptorEvents log ++ [.acquire fd] := by
    rw [descriptorEvents_snoc, opens]
    rfl
  have fresh : .acquire fd ∉ descriptorEvents log := by
    intro old
    have below := holds.below fd old
    omega
  refine ⟨⟨?_, ?_⟩, fun mem => fresh (holds.uses.acquired_of_mem mem)⟩
  · rw [same]
    exact .acquire holds.uses fresh
  · intro other mem
    simp only [List.length_append, List.length_singleton]
    rw [same] at mem
    rcases List.mem_append.mp mem with old | new
    · have below := holds.below other old
      omega
    · cases List.mem_singleton.mp new
      omega

theorem HoldsOpen.closes (holds : HoldsOpen log held) (mem : fd ∈ held) :
    HoldsOpen (log ++ [.close fd]) (held.erase fd) := by
  have same : descriptorEvents (log ++ [.close fd]) = descriptorEvents log ++ [.release fd] :=
    descriptorEvents_snoc
  constructor
  · rw [same]
    exact .release holds.uses mem
  · intro other given
    simp only [List.length_append, List.length_singleton]
    rw [same] at given
    rcases List.mem_append.mp given with old | new
    · have below := holds.below other old
      omega
    · cases List.mem_singleton.mp new

theorem HoldsOpen.closesLast (holds : HoldsOpen log {fd}) : HoldsOpen (log ++ [.close fd]) ∅ := by
  have left := holds.closes (Finset.mem_singleton_self fd)
  rw [Finset.erase_singleton] at left
  exact left

theorem HoldsOpen.handsOver (holds : HoldsOpen log (insert fd {current}))
    (new : fd ∉ ({current} : Finset Fd)) : HoldsOpen (log ++ [.close current]) {fd} := by
  have mem : current ∈ insert fd ({current} : Finset Fd) := by simp
  have left := holds.closes mem
  have same : (insert fd {current} : Finset Fd).erase current = {fd} := by
    have other : fd ≠ current := fun eq => new (Finset.mem_singleton.mpr eq)
    ext x
    simp only [Finset.mem_erase, Finset.mem_insert, Finset.mem_singleton]
    grind
  rw [same] at left
  exact left

def withChild (held : Finset Fd) : Except WalkError Fd → Finset Fd
  | .ok child => insert child held
  | .error _ => held

/-- What is held when a turn of the loop, or the walk, has returned or raised. -/
def remaining : Except WalkError (Option Fd) → Finset Fd
  | .ok (some fd) => {fd}
  | _ => ∅

theorem isSymlink_holdsOpen (holds : HoldsOpen s.log held) :
    HoldsOpen (isSymlink w s current name).1.log held := by
  obtain ⟨disk, result, log⟩ := isSymlink_log w s current name
  rw [log]
  exact holds.silent rfl

theorem existsAt_holdsOpen (holds : HoldsOpen s.log held) :
    HoldsOpen (existsAt w s current name).1.log held := by
  obtain ⟨disk, result, log⟩ := existsAt_log w s current name
  rw [log]
  exact holds.silent rfl

theorem mkdir_holdsOpen (holds : HoldsOpen s.log held) :
    HoldsOpen (mkdir w s current name).1.log held := by
  obtain ⟨disk, result, log⟩ := mkdir_log w s current name
  rw [log]
  exact holds.silent rfl

theorem openNoFollow_holdsOpen (holds : HoldsOpen s.log held) :
    HoldsOpen (openNoFollow w s current name).1.log
        (withChild held (openNoFollow w s current name).2) ∧
      ∀ child, (openNoFollow w s current name).2 = .ok child → child ∉ held := by
  obtain ⟨log, opened⟩ := openat_log w s current name
  unfold openNoFollow
  cases result : openat w s current name with
  | mk t outcome =>
    rw [result] at log opened
    cases outcome with
    | ok child =>
      have taken : HoldsOpen t.log (insert child held) ∧ child ∉ held := by
        rw [log]
        exact holds.opens rfl (opened child rfl).1
      refine ⟨taken.1, ?_⟩
      intro other same
      cases same
      exact taken.2
    | error error =>
      -- the lstat that only classifies the failure
      have kept : HoldsOpen t.log held := by
        rw [log]
        exact holds.silent rfl
      have looked : HoldsOpen (isSymlink w t current name).1.log held := isSymlink_holdsOpen kept
      simp only
      cases link : isSymlink w t current name with
      | mk u symlink =>
        rw [link] at looked
        cases symlink with
        | true => exact ⟨looked, fun child same => by cases same⟩
        | false => exact ⟨looked, fun child same => by cases same⟩

theorem openChildAt_holdsOpen (create : Bool) (holds : HoldsOpen s.log held) :
    HoldsOpen (openChildAt w s current name create).1.log
        (withChild held (openChildAt w s current name create).2) ∧
      ∀ child, (openChildAt w s current name create).2 = .ok child → child ∉ held := by
  unfold openChildAt
  cases create with
  | false => exact openNoFollow_holdsOpen holds
  | true =>
    have made : HoldsOpen (mkdir w s current name).1.log held := mkdir_holdsOpen holds
    simp only [if_true]
    split
    · rename_i t _ same
      rw [same] at made
      exact openNoFollow_holdsOpen made
    · rename_i t same
      rw [same] at made
      exact openNoFollow_holdsOpen made
    · rename_i t error _ same
      rw [same] at made
      exact ⟨made, fun child same => by cases same⟩

theorem walkTurn_holdsOpen (create : Bool) (holds : HoldsOpen s.log {current}) :
    HoldsOpen (walkTurn w create s current name).1.log
      (remaining (walkTurn w create s current name).2) := by
  have checked : HoldsOpen (if create then (s, .ok true) else existsAt w s current name).1.log
      {current} := by
    cases create with
    | true => exact holds
    | false => exact existsAt_holdsOpen holds
  unfold walkTurn
  split
  · rename_i t error same
    rw [same] at checked
    exact checked.closesLast
  · rename_i t same
    rw [same] at checked
    exact checked.closesLast
  · rename_i t same
    rw [same] at checked
    obtain ⟨opened, new⟩ : HoldsOpen (openChildAt w t current name create).1.log
          (withChild {current} (openChildAt w t current name create).2) ∧
        ∀ child, (openChildAt w t current name create).2 = .ok child →
          child ∉ ({current} : Finset Fd) := openChildAt_holdsOpen create checked
    cases result : openChildAt w t current name create with
    | mk u outcome =>
      rw [result] at opened new
      cases outcome with
      | error error => exact opened.closesLast
      | ok next => exact opened.handsOver (new next rfl)

/-- The loop holds one directory at every turn. -/
theorem walkAt_holdsOpen (create : Bool) {rest : List String} (holds : HoldsOpen s.log {current}) :
    HoldsOpen (walkAt w create s current rest).1.log
      (remaining (walkAt w create s current rest).2) := by
  induction rest generalizing s current with
  | nil => exact holds
  | cons name rest ih =>
    have turned : HoldsOpen (walkTurn w create s current name).1.log
        (remaining (walkTurn w create s current name).2) := walkTurn_holdsOpen create holds
    unfold walkAt
    cases result : walkTurn w create s current name with
    | mk t outcome =>
      rw [result] at turned
      cases outcome with
      | error error => exact turned
      | ok left =>
        cases left with
        | none => exact turned
        | some next => exact ih turned

theorem walkResolved_holdsOpen (w : Adversary) (start : Disk) (r : Resolution) (create : Bool) :
    HoldsOpen (walkResolved w start r create).1.log
      (remaining (walkResolved w start r create).2) := by
  have log : (openRoot w ⟨start, []⟩ r.root).1.log =
      [.openRoot r.root (Calls.met w ⟨start, []⟩) (openRoot w ⟨start, []⟩ r.root).2] := rfl
  have number : ∀ fd, (openRoot w ⟨start, []⟩ r.root).2 = .ok fd → fd.number = 0 := by
    intro fd opened
    simp only [openRoot, unlessFault] at opened
    split at opened
    · cases opened
    · cases found : w.openPath (Calls.met w ⟨start, []⟩) r.root with
      | error error =>
        rw [found] at opened
        cases opened
      | ok inode =>
        rw [found] at opened
        cases opened
        rfl
  unfold walkResolved
  cases result : openRoot w ⟨start, []⟩ r.root with
  | mk s outcome =>
    rw [result] at log number
    cases outcome with
    | error error =>
      simp only at log ⊢
      rw [log]
      exact HoldsOpen.start.silent rfl
    | ok fd =>
      simp only at log
      apply walkAt_holdsOpen create
      rw [log]
      exact (HoldsOpen.start.opens rfl (number fd rfl)).1

theorem walkDestinationAt_holdsOpen (w : Adversary) (start : Disk)
    (answer : Except ResolveError Resolution) (create : Bool) :
    ∃ held, HoldsOpen (walkDestinationAt w start answer create).1.log held ∧
      (∀ error, (walkDestinationAt w start answer create).2 = .error error → held = ∅) ∧
      ((walkDestinationAt w start answer create).2 = .ok none → held = ∅) ∧
      ∀ pinned, (walkDestinationAt w start answer create).2 = .ok (some pinned) →
        ∃ fd, pinned.fd = some fd ∧ held = {fd} := by
  cases answer with
  | error error =>
    refine ⟨∅, HoldsOpen.start, fun _ _ => rfl, fun _ => rfl, ?_⟩
    intro pinned same
    cases same
  | ok r =>
    have walked := walkResolved_holdsOpen w start r create
    simp only [walkDestinationAt]
    cases result : walkResolved w start r create with
    | mk s outcome =>
      rw [result] at walked
      refine ⟨remaining outcome, ?_⟩
      cases outcome with
      | error error =>
        refine ⟨walked, fun _ _ => rfl, fun _ => rfl, ?_⟩
        intro pinned same
        cases same
      | ok left =>
        cases left with
        | none =>
          refine ⟨walked, fun _ _ => rfl, fun _ => rfl, ?_⟩
          intro pinned same
          cases same
        | some current =>
          refine ⟨walked, fun error same => (by cases same), fun same => (by cases same), ?_⟩
          intro pinned same
          cases same
          exact ⟨current, rfl, rfl⟩

theorem HoldsOpen.close_inUse {front back : List Call}
    (holds : HoldsOpen (front ++ .close fd :: back) held) (a : Allocator) (before : Finset Nat) :
    ∃ n, n ∉ before ∧ (descriptors a before front).number fd = some n ∧
      n ∈ (descriptors a before front).inUse := by
  have split : descriptorEvents (front ++ .close fd :: back) =
      descriptorEvents front ++ .release fd :: descriptorEvents back := by
    unfold descriptorEvents
    rw [List.filterMap_append]
    rfl
  have uses := holds.uses
  rw [split] at uses
  exact uses.release_inUse a before

end Ownership

/-- The table of open descriptors after a call of walk_destination that met it as before. -/
structure NoLeak (a : Allocator) (before : Finset Nat) (s : Calls)
    (outcome : Except TraversalError (Option PinnedAt)) : Prop where
  raised : ∀ error, outcome = .error error → (descriptors a before s.log).inUse = before
  absent : outcome = .ok none → (descriptors a before s.log).inUse = before
  pinned : ∀ pinned, outcome = .ok (some pinned) → ∃ fd n, pinned.fd = some fd ∧
    (descriptors a before s.log).number fd = some n ∧ n ∉ before ∧
    (descriptors a before s.log).inUse = insert n before
  once : (closed s.log).Nodup
  live : ∀ front fd back, s.log = front ++ .close fd :: back → ∃ n, n ∉ before ∧
    (descriptors a before front).number fd = some n ∧ n ∈ (descriptors a before front).inUse

theorem walkDestinationAt_noLeak (w : Adversary) (start : Disk)
    (answer : Except ResolveError Resolution) (create : Bool) (a : Allocator)
    (before : Finset Nat) :
    NoLeak a before (walkDestinationAt w start answer create).1
      (walkDestinationAt w start answer create).2 := by
  obtain ⟨held, holds, raised, absent, pinned⟩ := walkDestinationAt_holdsOpen w start answer create
  constructor
  · intro error same
    exact (raised error same ▸ holds.uses).inUse_none a before
  · intro same
    exact (absent same ▸ holds.uses).inUse_none a before
  · intro handle same
    obtain ⟨fd, here, only⟩ := pinned handle same
    obtain ⟨n, new, number, inUse⟩ := (only ▸ holds.uses).inUse_one a before
    exact ⟨fd, n, here, number, new, inUse⟩
  · rw [closed_eq]
    exact holds.uses.released_nodup
  · intro front fd back split
    rw [split] at holds
    exact holds.close_inUse a before

/-- Whatever the resolution answers and whichever calls fail: a walk that raises or finds
    nothing leaves the open descriptors as they were, a pinned destination is the one descriptor
    more, and none is closed twice. -/
theorem walk_leaks_no_descriptor (w : Adversary) (start : Disk) (create : Bool) (a : Allocator)
    (before : Finset Nat) :
    (∀ answer, NoLeak a before (walkDestinationAt w start answer create).1
      (walkDestinationAt w start answer create).2) ∧
    ∀ looks fuel destRoots path s outcome,
      walkPath w start looks fuel destRoots path create = some (s, outcome) →
      NoLeak a before s outcome := by
  constructor
  · intro answer
    exact walkDestinationAt_noLeak w start answer create a before
  · intro looks fuel destRoots path s outcome walked
    obtain ⟨answer, _, same⟩ := Option.map_eq_some_iff.mp walked
    have noLeak := walkDestinationAt_noLeak w start answer create a before
    rw [same] at noLeak
    exact noLeak

namespace Sample

def emptyDisk : Disk where
  dirs := fun inode => if inode = 0 then some fun _ => none else none
  next := 1
  unused := fun inode above => if_neg (by omega)

def faultAt (faulty : Option Nat) : Adversary where
  move := fun _ disk => disk
  fault := fun call => if some call = faulty then some 5 else none
  openPath := fun _ _ => .ok 0

def closedAndPinned (faulty : Option Nat) : Option (List Nat × Option Nat) :=
  (walkPath (faultAt faulty) emptyDisk (fun _ _ _ => none) 20 "/d" "/d/a/b" true).map fun walked =>
    ((closed walked.1.log).map Fd.number,
      (walked.2.toOption.join.bind PinnedAt.fd).map Fd.number)

end Sample

example : Sample.closedAndPinned none = some ([0, 2], some 5) := by decide +kernel

/-- The open of the second component fails: its parent is closed too. -/
example : Sample.closedAndPinned (some 5) = some ([0, 2], none) := by decide +kernel

section Closing
variable {w : Adversary} {start : Disk} {s : Calls} {pinned : PinnedAt} {fd : Fd}

/-- The handle after so many calls of its close. -/
def closeTimes (w : Adversary) (s : Calls) (pinned : PinnedAt) : Nat → Calls × PinnedAt
  | 0 => (s, pinned)
  | n + 1 => (closeTimes w s pinned n).2.close w (closeTimes w s pinned n).1

theorem closeTimes_succ (here : pinned.fd = some fd) (n : Nat) :
    closeTimes w s pinned (n + 1) = (close w s fd, { pinned with fd := none }) := by
  induction n with
  | zero => simp only [closeTimes, PinnedAt.close, here]
  | succ n ih =>
    unfold closeTimes
    rw [ih]
    rfl

/-- open_destination leaves nothing open when it raises, and its handle, closed as often as one
    likes, nothing either. -/
theorem openDestination_closed (w : Adversary) (start : Disk)
    (answer : Except ResolveError Resolution) (path : String) (create : Bool) (a : Allocator)
    (before : Finset Nat) :
    (∀ error, (openDestinationAt w start answer path create).2 = .error error →
      (descriptors a before (openDestinationAt w start answer path create).1.log).inUse = before) ∧
    ∀ pinned, (openDestinationAt w start answer path create).2 = .ok pinned → ∀ n,
      let after := closeTimes w (openDestinationAt w start answer path create).1 pinned (n + 1)
      (descriptors a before after.1.log).inUse = before ∧ (closed after.1.log).Nodup := by
  obtain ⟨held, holds, raised, absent, kept⟩ := walkDestinationAt_holdsOpen w start answer create
  unfold openDestinationAt
  cases result : walkDestinationAt w start answer create with
  | mk s outcome =>
    rw [result] at holds raised absent kept
    cases outcome with
    | error error =>
      refine ⟨fun _ _ => (raised error rfl ▸ holds.uses).inUse_none a before, ?_⟩
      intro pinned same
      cases same
    | ok found =>
      cases found with
      | none =>
        refine ⟨fun _ _ => (absent rfl ▸ holds.uses).inUse_none a before, ?_⟩
        intro pinned same
        cases same
      | some handle =>
        refine ⟨fun error same => (by cases same), ?_⟩
        intro pinned same n
        cases same
        obtain ⟨fd, here, rfl⟩ := kept handle rfl
        have done := HoldsOpen.closesLast holds
        simp only [closeTimes_succ here]
        refine ⟨done.uses.inUse_none a before, ?_⟩
        rw [closed_eq]
        exact done.uses.released_nodup

end Closing

end Pullbackup
