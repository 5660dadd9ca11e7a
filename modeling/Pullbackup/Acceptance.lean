import Pullbackup.Destination

/- The two uses of walk_destination: a task is accepted without create and runs with it. -/
namespace Pullbackup
open Filesystem

section Walks
variable {fs : Tree} {current : PinnedDestination} {name : String} {rest : List String}

theorem openChild_dir {parent : Path} {inode : Nat} (create : Bool)
    (here : fs.node (parent ++ [name]) = some (.dir inode)) :
    openChild fs parent name create = (fs, .ok ⟨inode, parent ++ [name]⟩) := by
  unfold openChild
  rw [Tree.mkdir_exists here, ite_self]
  simp only [here]

theorem openChild_refused {parent : Path} {n : Node} (create : Bool)
    (here : fs.node (parent ++ [name]) = some n) (other : ∀ inode, n ≠ .dir inode) :
    ∃ error, openChild fs parent name create = (fs, .error error) := by
  unfold openChild
  rw [Tree.mkdir_exists here, ite_self]
  cases n with
  | dir inode => exact absurd rfl (other inode)
  | link absolute target => exact ⟨.componentIsSymlink name, by simp only [here]⟩
  | other => exact ⟨.system, by simp only [here]⟩

theorem openChild_new {parent : Path} (dir : fs.isDir parent = true)
    (free : fs.node (parent ++ [name]) = none) :
    openChild fs parent name true =
      (fs.mkdir parent name, .ok ⟨fs.nextInode, parent ++ [name]⟩) := by
  have made := Tree.mkdir_new dir free (parent ++ [name])
  rw [if_pos rfl] at made
  simp [openChild, made]

theorem walkFrom_creates (start : fs.isDir current.path = true)
    (free : ∀ first others, rest = first :: others → fs.node (current.path ++ [first]) = none) :
    ∃ last, walkFrom true fs current rest = (fs.mkdirs current.path rest, .ok (some last)) := by
  induction rest generalizing fs current with
  | nil => exact ⟨current, rfl⟩
  | cons name rest ih =>
    have gone := free name rest rfl
    have made := Tree.mkdir_new start gone
    have next : (fs.mkdir current.path name).isDir (current.path ++ [name]) = true :=
      Tree.isDir_iff.mpr ⟨fs.nextInode, by rw [made, if_pos rfl]⟩
    have later : ∀ second others, rest = second :: others →
        (fs.mkdir current.path name).node (current.path ++ [name] ++ [second]) = none := by
      intro second others _
      rw [made, if_neg (by simp)]
      exact Tree.node_child gone second
    obtain ⟨last, walked⟩ : ∃ last, walkFrom true (fs.mkdir current.path name)
        ⟨fs.nextInode, current.path ++ [name]⟩ rest =
          ((fs.mkdir current.path name).mkdirs (current.path ++ [name]) rest, .ok (some last)) :=
      ih next later
    refine ⟨last, ?_⟩
    simp only [walkFrom, Bool.not_true, Bool.false_and, Bool.false_eq_true, if_false,
      openChild_new start gone]
    exact walked

/-- How the two walks of one tree from a directory at top end: both refuse, both open the same
    directory, or the first stops where the second begins to create. -/
inductive Ends (fs : Tree) (top path : Path) :
    Tree × Except DestinationError (Option PinnedDestination) →
      Tree × Except DestinationError (Option PinnedDestination) → Prop where
  | refused (error error' : DestinationError) :
      Ends fs top path (fs, .error error) (fs, .error error')
  | opened (pinned : PinnedDestination) (here : pinned.path = path)
      (dir : fs.node path = some (.dir pinned.inode)) :
      Ends fs top path (fs, .ok (some pinned)) (fs, .ok (some pinned))
  | created (base : Path) (missing : List String) (pinned : PinnedDestination)
      (under : top <+: base) (nonempty : missing ≠ []) (whole : base ++ missing = path)
      (dir : fs.isDir base = true) (creates : Tree.Creates fs (fs.mkdirs base missing) base missing)
      (here : pinned.path = path)
      (found : (fs.mkdirs base missing).node path = some (.dir pinned.inode)) :
      Ends fs top path (fs, .ok none) (fs.mkdirs base missing, .ok (some pinned))

theorem Ends.lower {top deeper path : Path} (under : top <+: deeper)
    {one two : Tree × Except DestinationError (Option PinnedDestination)}
    (ends : Ends fs deeper path one two) : Ends fs top path one two := by
  cases ends with
  | refused error error' => exact .refused error error'
  | opened pinned here dir => exact .opened pinned here dir
  | created base missing pinned under' nonempty whole dir creates here found =>
    exact .created base missing pinned (under.trans under') nonempty whole dir creates here found

theorem walkFrom_ends (current : PinnedDestination)
    (start : fs.node current.path = some (.dir current.inode)) :
    Ends fs current.path (current.path ++ rest) (walkFrom false fs current rest)
      (walkFrom true fs current rest) := by
  induction rest generalizing current with
  | nil =>
    rw [List.append_nil]
    exact .opened current rfl start
  | cons name rest ih =>
    cases here : fs.node (current.path ++ [name]) with
    | none =>
      have dir : fs.isDir current.path = true := Tree.isDir_iff.mpr ⟨current.inode, start⟩
      have free : ∀ first others, name :: rest = first :: others →
          fs.node (current.path ++ [first]) = none := by
        intro first others same
        cases same
        exact here
      obtain ⟨last, walked⟩ := walkFrom_creates dir free
      obtain ⟨path, found, _⟩ := walkFrom_opened start walked
      have stops : walkFrom false fs current (name :: rest) = (fs, .ok none) := by
        simp [walkFrom, here]
      rw [stops, walked]
      rw [path] at found
      exact .created current.path (name :: rest) last (List.prefix_refl _) (by simp) rfl dir
        (Tree.mkdirs_creates dir free) path found
    | some n =>
      have extant : (fs.node (current.path ++ [name])).isNone = false := by simp [here]
      by_cases dir : ∃ inode, n = .dir inode
      · obtain ⟨inode, rfl⟩ := dir
        have more : Ends fs (current.path ++ [name]) (current.path ++ [name] ++ rest)
            (walkFrom false fs ⟨inode, current.path ++ [name]⟩ rest)
            (walkFrom true fs ⟨inode, current.path ++ [name]⟩ rest) :=
          ih ⟨inode, current.path ++ [name]⟩ here
        simp only [walkFrom, extant, Bool.and_false, Bool.false_eq_true, if_false,
          openChild_dir _ here]
        rw [List.append_assoc] at more
        exact more.lower (List.prefix_append _ _)
      · obtain ⟨error, one⟩ := openChild_refused false here fun inode same => dir ⟨inode, same⟩
        obtain ⟨error', two⟩ := openChild_refused true here fun inode same => dir ⟨inode, same⟩
        simp only [walkFrom, extant, Bool.and_false, Bool.false_eq_true, if_false, one, two]
        exact .refused error error'

end Walks

section Destination
variable {fs : Tree} {roots : List String} {path : String}

/-- Before the walk the two uses are the same code. -/
theorem walkDestination_ends (fs : Tree) (roots : List String) (path : String) :
    (∃ error, ∀ create, walkDestination fs roots path create = (fs, .error error)) ∨
      ∃ resolved root, resolveWithRoot fs roots path = .ok (resolved, root) ∧
        Ends fs root resolved (walkDestination fs roots path false)
          (walkDestination fs roots path true) := by
  unfold walkDestination
  cases found : resolveWithRoot fs roots path with
  | error error => exact Or.inl ⟨error, fun _ => rfl⟩
  | ok pair =>
    obtain ⟨resolved, root⟩ := pair
    simp only
    cases here : fs.node root with
    | none => exact Or.inl ⟨.rootNotOpened root, fun _ => rfl⟩
    | some n =>
      cases n with
      | dir inode =>
        refine Or.inr ⟨resolved, root, rfl, ?_⟩
        have whole := List.prefix_iff_eq_append.mp (resolveWithRoot_root found)
        have ends : Ends fs root (root ++ resolved.drop root.length)
            (walkFrom false fs ⟨inode, root⟩ (resolved.drop root.length))
            (walkFrom true fs ⟨inode, root⟩ (resolved.drop root.length)) :=
          walkFrom_ends ⟨inode, root⟩ here
        rwa [whole] at ends
      | link absolute target => exact Or.inl ⟨.rootNotOpened root, fun _ => rfl⟩
      | other => exact Or.inl ⟨.rootNotOpened root, fun _ => rfl⟩

/-- Acceptance refuses a destination exactly when execution does, changes nothing, opens what
    execution opens, and otherwise leaves execution exactly the components to create. -/
theorem walks_agree (fs : Tree) (roots : List String) (path : String) :
    ((∃ error, (walkDestination fs roots path false).2 = .error error) ↔
      ∃ error, (walkDestination fs roots path true).2 = .error error) ∧
    (walkDestination fs roots path false).1 = fs ∧
    (∀ pinned, (walkDestination fs roots path false).2 = .ok (some pinned) →
      walkDestination fs roots path true = (fs, .ok (some pinned)) ∧
        fs.node pinned.path = some (.dir pinned.inode)) ∧
    ((walkDestination fs roots path false).2 = .ok none →
      ∃ resolved root base missing pinned, resolveWithRoot fs roots path = .ok (resolved, root) ∧
        root <+: base ∧ base ++ missing = resolved ∧ missing ≠ [] ∧ fs.isDir base = true ∧
        walkDestination fs roots path true = (fs.mkdirs base missing, .ok (some pinned)) ∧
        Tree.Creates fs (fs.mkdirs base missing) base missing ∧ pinned.path = resolved ∧
        (fs.mkdirs base missing).node resolved = some (.dir pinned.inode)) := by
  obtain ⟨error, refused⟩ | ⟨resolved, root, found, ends⟩ := walkDestination_ends fs roots path
  · simp [refused]
  · generalize walkDestination fs roots path false = one at ends ⊢
    generalize walkDestination fs roots path true = two at ends ⊢
    cases ends with
    | refused error error' => simp
    | opened pinned here dir =>
      refine ⟨by simp, rfl, ?_, by simp⟩
      intro other same
      cases same
      exact ⟨rfl, here ▸ dir⟩
    | created base missing pinned under nonempty whole dir creates here made =>
      refine ⟨by simp, rfl, by simp, ?_⟩
      intro _
      exact ⟨resolved, root, base, missing, pinned, found, under, whole, nonempty, dir, rfl, creates,
        here, made⟩

end Destination

end Pullbackup
