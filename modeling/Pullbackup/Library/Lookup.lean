import Mathlib.Data.List.Induction
import Pullbackup.Library.Filesystem

/- How the kernel finds what a path names: every component has to be there, a link is
followed where it is met, and no more of them than a limit. Where it finds something,
realpath gives its canonical path. -/
namespace Filesystem
open KeyedTable

def follow (t : Tree) : Path → List String → Option (Path ⊕ Path × List String)
  | path, [] => some (.inl path)
  | path, name :: rest =>
    if t.isDir path = false then none
    else if name = "" ∨ name = "." then follow t path rest
    else if name = ".." then follow t path.dropLast rest
    else
      match t.node (path ++ [name]) with
      | none => none
      | some (.link absolute target) => some (.inr (if absolute then [] else path, target ++ rest))
      | some _ => follow t (path ++ [name]) rest

/-- The canonical path of what stat finds, with so many links to spend. -/
def stat (t : Tree) (links : Nat) (path : Path) (parts : List String) : Option Path :=
  match follow t path parts with
  | none => none
  | some (.inl found) => some found
  | some (.inr (base, more)) =>
    match links with
    | 0 => none
    | links + 1 => stat t links base more

/-- A search that succeeds, and the number of links it follows. -/
inductive Walks (t : Tree) : Path → List String → Path → Nat → Prop
  | done (path : Path) : Walks t path [] path 0
  | skip {path q : Path} {name : String} {rest : List String} {n : Nat}
      (blank : name = "" ∨ name = ".") (dir : t.isDir path = true)
      (later : Walks t path rest q n) : Walks t path (name :: rest) q n
  | up {path q : Path} {rest : List String} {n : Nat} (dir : t.isDir path = true)
      (later : Walks t path.dropLast rest q n) : Walks t path (".." :: rest) q n
  | enter {path q : Path} {name : String} {rest : List String} {n : Nat} {node : Node}
      (named : ¬(name = "" ∨ name = ".")) (child : name ≠ "..") (dir : t.isDir path = true)
      (found : t.node (path ++ [name]) = some node)
      (real : ∀ absolute target, node ≠ .link absolute target)
      (later : Walks t (path ++ [name]) rest q n) : Walks t path (name :: rest) q n
  | link {path mid q : Path} {name : String} {rest target : List String} {absolute : Bool}
      {n m : Nat} (named : ¬(name = "" ∨ name = ".")) (child : name ≠ "..")
      (dir : t.isDir path = true) (found : t.node (path ++ [name]) = some (.link absolute target))
      (inside : Walks t (if absolute then [] else path) target mid n)
      (later : Walks t mid rest q m) : Walks t path (name :: rest) q (n + m + 1)

section Walks
variable {t : Tree} {path mid q : Path} {parts rest : List String} {n m links : Nat}

theorem Walks.append (front : Walks t path parts mid n) (back : Walks t mid rest q m) :
    Walks t path (parts ++ rest) q (n + m) := by
  induction front with
  | done => simpa using back
  | skip blank dir _ ih => exact .skip blank dir (ih back)
  | up dir _ ih => exact .up dir (ih back)
  | enter named child dir found real _ ih => exact .enter named child dir found real (ih back)
  | link named child dir found inside _ _ ih =>
    have total := Walks.link named child dir found inside (ih back)
    rw [List.cons_append]
    convert total using 1
    omega

theorem Walks.split (walks : Walks t path (parts ++ rest) q n) : ∃ mid a b,
    Walks t path parts mid a ∧ Walks t mid rest q b ∧ n = a + b := by
  induction parts generalizing path n with
  | nil => exact ⟨path, 0, n, .done path, walks, (Nat.zero_add n).symm⟩
  | cons name parts ih =>
    cases walks with
    | skip blank dir later =>
      obtain ⟨mid, a, b, front, back, rfl⟩ := ih later
      exact ⟨mid, a, b, .skip blank dir front, back, rfl⟩
    | up dir later =>
      obtain ⟨mid, a, b, front, back, rfl⟩ := ih later
      exact ⟨mid, a, b, .up dir front, back, rfl⟩
    | enter named child dir found real later =>
      obtain ⟨mid, a, b, front, back, rfl⟩ := ih later
      exact ⟨mid, a, b, .enter named child dir found real front, back, rfl⟩
    | link named child dir found inside later =>
      obtain ⟨mid, a, b, front, back, rfl⟩ := ih later
      exact ⟨mid, _, b, .link named child dir found inside front, back, by omega⟩

theorem Walks.unique {q' : Path} {n' : Nat} (walks : Walks t path parts q n)
    (walks' : Walks t path parts q' n') : q = q' ∧ n = n' := by
  induction walks generalizing q' n' with
  | done =>
    cases walks'
    exact ⟨rfl, rfl⟩
  | skip blank dir later ih =>
    cases walks' with
    | skip _ _ later' => exact ih later'
    | up => simp at blank
    | enter named => exact absurd blank named
    | link named => exact absurd blank named
  | up dir later ih =>
    cases walks' with
    | skip blank => simp at blank
    | up _ later' => exact ih later'
    | enter _ child => exact absurd rfl child
    | link _ child => exact absurd rfl child
  | enter named child dir found real later ih =>
    cases walks' with
    | skip blank => exact absurd blank named
    | up => exact absurd rfl child
    | enter _ _ _ _ _ later' => exact ih later'
    | link _ _ _ found' => exact absurd (Option.some.inj (found.symm.trans found')) (real _ _)
  | link named child dir found inside later ih ih' =>
    cases walks' with
    | skip blank => exact absurd blank named
    | up => exact absurd rfl child
    | enter _ _ _ found' real => exact absurd (Option.some.inj (found'.symm.trans found)) (real _ _)
    | link _ _ _ found' inside' later' =>
      obtain ⟨rfl, rfl⟩ := Node.link.injEq _ _ _ _ ▸ Option.some.inj (found.symm.trans found')
      obtain ⟨rfl, rfl⟩ := ih inside'
      obtain ⟨rfl, rfl⟩ := ih' later'
      exact ⟨rfl, rfl⟩

theorem follow_of_walks (walks : Walks t path parts q n) :
    (n = 0 ∧ follow t path parts = some (.inl q)) ∨
      ∃ base more m, n = m + 1 ∧ follow t path parts = some (.inr (base, more)) ∧
        Walks t base more q m := by
  induction walks with
  | done path => exact Or.inl ⟨rfl, rfl⟩
  | skip blank dir later ih =>
    simpa only [follow, dir, Bool.true_eq_false, if_false, if_pos blank] using ih
  | up dir later ih => simpa [follow, dir] using ih
  | @enter path q name rest n node named child dir found real later ih =>
    have goes : follow t path (name :: rest) = follow t (path ++ [name]) rest := by
      cases node with
      | link absolute target => exact absurd rfl (real absolute target)
      | dir inode => simp only [follow, dir, Bool.true_eq_false, if_false, named, child, found]
      | other => simp only [follow, dir, Bool.true_eq_false, if_false, named, child, found]
    rw [goes]
    exact ih
  | @link path mid q name rest target absolute n m named child dir found inside later =>
    right
    refine ⟨if absolute then [] else path, target ++ rest, n + m, rfl, ?_, inside.append later⟩
    simp only [follow, dir, Bool.true_eq_false, if_false, named, child, found]

theorem walks_of_follow (found : follow t path parts = some (.inl q)) : Walks t path parts q 0 := by
  induction parts generalizing path with
  | nil =>
    simp only [follow, Option.some.injEq, Sum.inl.injEq] at found
    exact found ▸ .done path
  | cons name rest ih =>
    simp only [follow] at found
    split at found
    · cases found
    rename_i dir
    have dir : t.isDir path = true := by simpa using dir
    split at found
    · rename_i blank
      exact .skip blank dir (ih found)
    rename_i named
    split at found
    · rename_i up
      exact up ▸ .up dir (ih found)
    rename_i child
    split at found
    · cases found
    · cases found
    · rename_i node other here
      exact .enter named child dir here (fun absolute target same => other absolute target same)
        (ih found)

theorem walks_of_link {base : Path} {more : List String}
    (met : follow t path parts = some (.inr (base, more))) (later : Walks t base more q n) :
    Walks t path parts q (n + 1) := by
  induction parts generalizing path with
  | nil => simp [follow] at met
  | cons name rest ih =>
    simp only [follow] at met
    split at met
    · cases met
    rename_i dir
    have dir : t.isDir path = true := by simpa using dir
    split at met
    · rename_i blank
      exact .skip blank dir (ih met)
    rename_i named
    split at met
    · rename_i up
      exact up ▸ .up dir (ih met)
    rename_i child
    split at met
    · cases met
    · rename_i absolute target here
      simp only [Option.some.injEq, Sum.inr.injEq, Prod.mk.injEq] at met
      obtain ⟨rfl, rfl⟩ := met
      obtain ⟨mid, a, b, inside, rest, rfl⟩ := later.split
      exact .link named child dir here inside rest
    · rename_i node other here
      exact .enter named child dir here (fun absolute target same => other absolute target same)
        (ih met)

/-- stat finds what a search with no more links than that comes to. -/
theorem stat_iff : stat t links path parts = some q ↔ ∃ n, n ≤ links ∧ Walks t path parts q n := by
  induction links generalizing path parts with
  | zero =>
    constructor
    · intro found
      unfold stat at found
      split at found
      · cases found
      · rename_i here
        cases found
        exact ⟨0, le_refl 0, walks_of_follow here⟩
      · cases found
    · rintro ⟨n, few, walks⟩
      rcases follow_of_walks walks with ⟨-, here⟩ | ⟨base, more, m, rfl, -, -⟩
      · simp [stat, here]
      · omega
  | succ links ih =>
    constructor
    · intro found
      unfold stat at found
      split at found
      · cases found
      · rename_i here
        cases found
        exact ⟨0, Nat.zero_le _, walks_of_follow here⟩
      · rename_i base more met
        obtain ⟨n, few, later⟩ := ih.mp found
        exact ⟨n + 1, Nat.succ_le_succ few, walks_of_link met later⟩
    · rintro ⟨n, few, walks⟩
      rcases follow_of_walks walks with ⟨-, here⟩ | ⟨base, more, m, rfl, met, later⟩
      · simp [stat, here]
      · have found := ih.mpr ⟨m, Nat.le_of_succ_le_succ few, later⟩
        simp [stat, met, found]

end Walks

section Realpath
variable {t : Tree} {path p q : Path} {parts : List String} {seen : List (Path × Option Path)}
  {n links : Nat}

def Leads (t : Tree) (link q : Path) (n : Nat) : Prop :=
  ∃ absolute target, t.node link = some (.link absolute target) ∧
    Walks t (if absolute then [] else link.dropLast) target q n

theorem Leads.unique {link q q' : Path} {n n' : Nat} (leads : Leads t link q n)
    (leads' : Leads t link q' n') : q = q' ∧ n = n' := by
  obtain ⟨absolute, target, found, walks⟩ := leads
  obtain ⟨absolute', target', found', walks'⟩ := leads'
  obtain ⟨rfl, rfl⟩ := Node.link.injEq _ _ _ _ ▸ Option.some.inj (found.symm.trans found')
  exact walks.unique walks'

/-- What realpath has recorded of the links is where they lead. -/
def Knows (t : Tree) (seen : List (Path × Option Path)) : Prop :=
  ∀ link p, seen.lookup link = some (some p) → ∀ q n, Leads t link q n → p = q

/-- The links that are being followed lead on through more than is still to come. -/
def Opens (t : Tree) (seen : List (Path × Option Path)) (n : Nat) : Prop :=
  ∀ link, seen.lookup link = some none → ∀ q k, Leads t link q k → n ≤ k

theorem lookup_cons_of_ne {link other : Path} {found : Option Path} (ne : other ≠ link) :
    ((link, found) :: seen).lookup other = seen.lookup other := by
  have apart : (other == link) = false := by simpa using ne
  rw [List.lookup_cons, apart]

theorem Knows.follow (knows : Knows t seen) (link : Path) : Knows t ((link, none) :: seen) := by
  intro other p found
  by_cases same : other = link
  · simp [same] at found
  · exact knows other p (lookup_cons_of_ne same ▸ found)

theorem Knows.record {link : Path} (knows : Knows t seen) (leads : Leads t link q n) :
    Knows t ((link, some q) :: seen) := by
  intro other p found q' k leads'
  by_cases same : other = link
  · subst same
    have here : q = p := by simpa using found
    exact here ▸ (leads.unique leads').1
  · exact knows other p (lookup_cons_of_ne same ▸ found) q' k leads'

/-- Where the kernel gets through, realpath comes to the same place. -/
theorem realpath_walks (walks : Walks t path parts q n) (rest : List Part) (knows : Knows t seen)
    (opens : Opens t seen n) : ∃ spent seen',
      (∀ fuel, realpath t (spent + fuel) (parts.map .name ++ rest) path seen =
        realpath t fuel rest q seen') ∧
      Knows t seen' ∧ ∀ link, seen'.lookup link = some none → seen.lookup link = some none := by
  induction walks generalizing rest seen with
  | done path => exact ⟨0, seen, fun fuel => by simp, knows, fun _ still => still⟩
  | @skip path q name more n blank dir later ih =>
    obtain ⟨spent, seen', goes, after, still⟩ := ih rest knows opens
    refine ⟨spent + 1, seen', fun fuel => ?_, after, still⟩
    rw [Nat.add_right_comm, List.map_cons, List.cons_append, ← goes fuel]
    simp only [realpath, if_pos blank]
  | @up path q more n dir later ih =>
    obtain ⟨spent, seen', goes, after, still⟩ := ih rest knows opens
    refine ⟨spent + 1, seen', fun fuel => ?_, after, still⟩
    rw [Nat.add_right_comm, List.map_cons, List.cons_append, ← goes fuel]
    simp [realpath]
  | @enter path q name more n node named child dir found real later ih =>
    obtain ⟨spent, seen', goes, after, still⟩ := ih rest knows opens
    refine ⟨spent + 1, seen', fun fuel => ?_, after, still⟩
    rw [Nat.add_right_comm, List.map_cons, List.cons_append, ← goes fuel]
    cases node with
    | link absolute target => exact absurd rfl (real absolute target)
    | dir inode => simp only [realpath, if_neg named, if_neg child, found]
    | other => simp only [realpath, if_neg named, if_neg child, found]
  | @link path mid q name more target absolute n m named child dir found inside later ih ih' =>
    have leads : Leads t (path ++ [name]) mid n :=
      ⟨absolute, target, found, by rwa [List.dropLast_concat]⟩
    cases known : seen.lookup (path ++ [name]) with
    | some record =>
      cases record with
      | some resolved =>
        have here : resolved = mid := knows _ _ known _ _ leads
        have fewer : Opens t seen m := fun link still q k leads' =>
          Nat.le_trans (by omega) (opens link still q k leads')
        obtain ⟨spent, seen', goes, after, still⟩ := ih' rest knows fewer
        refine ⟨spent + 1, seen', fun fuel => ?_, after, still⟩
        rw [Nat.add_right_comm, List.map_cons, List.cons_append, ← goes fuel, ← here]
        simp only [realpath, if_neg named, if_neg child, found, known]
      | none =>
        have loops := opens _ known _ _ leads
        omega
    | none =>
      have inner : Opens t ((path ++ [name], none) :: seen) n := by
        intro link still q k leads'
        by_cases same : link = path ++ [name]
        · exact (leads.unique (same ▸ leads')).2.le
        · have more := opens link (lookup_cons_of_ne same ▸ still) q k leads'
          omega
      obtain ⟨spent, seen₁, goes, after, still⟩ :=
        ih (.resolved (path ++ [name]) :: (more.map .name ++ rest)) (knows.follow _) inner
      have closed : ∀ link, ((path ++ [name], some mid) :: seen₁).lookup link = some none →
          seen.lookup link = some none := by
        intro link opened
        by_cases same : link = path ++ [name]
        · simp [same] at opened
        · rw [lookup_cons_of_ne same] at opened
          exact lookup_cons_of_ne same ▸ still link opened
      have outer : Opens t ((path ++ [name], some mid) :: seen₁) m := fun link opened q k leads' =>
        Nat.le_trans (by omega) (opens link (closed link opened) q k leads')
      obtain ⟨spent', seen₂, goes', after', still'⟩ := ih' rest (after.record leads) outer
      refine ⟨1 + (spent + (1 + spent')), seen₂, fun fuel => ?_, after', ?_⟩
      · have first : realpath t (1 + (spent + (1 + spent')) + fuel)
            ((name :: more).map .name ++ rest) path seen =
              realpath t (spent + (1 + (spent' + fuel)))
                (target.map .name ++ .resolved (path ++ [name]) :: (more.map .name ++ rest))
                (if absolute then [] else path) ((path ++ [name], none) :: seen) := by
          rw [show 1 + (spent + (1 + spent')) + fuel = spent + (1 + (spent' + fuel)) + 1 by omega,
            List.map_cons, List.cons_append]
          simp only [realpath, if_neg named, if_neg child, found, known]
        rw [first, goes, Nat.add_comm 1]
        simp only [realpath]
        exact goes' fuel
      · exact fun link opened => closed link (still' link opened)

theorem resolve_of_walks (walks : Walks t [] parts q n) : resolve t parts = q := by
  have knows : Knows t [] := fun link p found => by simp at found
  have opens : Opens t [] n := fun link found => by simp at found
  obtain ⟨spent, seen', goes, -, -⟩ := realpath_walks walks [] knows opens
  have enough : (parts.map Part.name).length + unseen t [] ≤
      parts.length + totalWeight t.entries.rows := by
    simp [unseen]
  have whole := realpath_fuel (parts.length + totalWeight t.entries.rows) spent
    (parts.map .name) [] [] enough
  rw [Nat.add_comm] at whole
  have run := goes (parts.length + totalWeight t.entries.rows)
  rw [List.append_nil, whole] at run
  unfold resolve
  rw [run]
  cases parts.length + totalWeight t.entries.rows <;> rfl

theorem resolve_of_stat (found : stat t links [] parts = some q) : resolve t parts = q := by
  obtain ⟨n, -, walks⟩ := stat_iff.mp found
  exact resolve_of_walks walks

end Realpath

/-- A name that is looked up, as none of those with a meaning of their own. -/
def Proper (name : String) : Prop := ¬(name = "" ∨ name = ".") ∧ name ≠ ".."

section Canonical
variable {t : Tree} {path q : Path} {parts rest target : List String} {todo : List Part}
  {seen : List (Path × Option Path)} {name : String} {absolute : Bool} {n links : Nat}

theorem Walks.through (walks : Walks t path (name :: rest) q n) (proper : Proper name)
    (found : t.node (path ++ [name]) = some (.link absolute target)) :
    ∃ mid a b, Walks t (if absolute then [] else path) target mid a ∧
      Walks t mid rest q b ∧ n = a + b + 1 := by
  cases walks with
  | skip blank => exact absurd blank proper.1
  | up => exact absurd rfl proper.2
  | enter _ _ _ found' real => exact absurd (Option.some.inj (found'.symm.trans found)) (real _ _)
  | link _ _ _ found' inside later =>
    obtain ⟨rfl, rfl⟩ := Node.link.injEq _ _ _ _ ▸ Option.some.inj (found.symm.trans found')
    exact ⟨_, _, _, inside, later, rfl⟩

/-- A path as realpath leaves it: no link on the way leads anywhere. -/
structure Canonical (t : Tree) (path : Path) : Prop where
  proper : ∀ name ∈ path, Proper name
  blind : ∀ front name, front ++ [name] <+: path → ∀ q n, ¬ Leads t (front ++ [name]) q n

theorem canonical_nil (t : Tree) : Canonical t [] :=
  ⟨fun name mem => by simp at mem, fun front name inside => by simp at inside⟩

theorem Canonical.dropLast (canonical : Canonical t path) : Canonical t path.dropLast := by
  constructor
  · exact fun name mem => canonical.proper name (List.dropLast_subset path mem)
  · exact fun front name inside =>
      canonical.blind front name (inside.trans (List.dropLast_prefix path))

theorem Canonical.concat (canonical : Canonical t path) (proper : Proper name)
    (blind : ∀ q n, ¬ Leads t (path ++ [name]) q n) : Canonical t (path ++ [name]) := by
  constructor
  · intro other mem
    rcases List.mem_append.mp mem with old | new
    · exact canonical.proper other old
    · exact List.mem_singleton.mp new ▸ proper
  · intro front other inside
    rcases List.prefix_concat_iff.mp inside with whole | shorter
    · rw [whole]
      exact blind
    · exact canonical.blind front other shorter

theorem leads_none (missing : ∀ absolute target, t.node path ≠ some (.link absolute target))
    (q : Path) (n : Nat) : ¬ Leads t path q n := by
  rintro ⟨absolute, target, found, -⟩
  exact missing absolute target found

theorem Canonical.walks (canonical : Canonical t (path ++ parts)) (walks : Walks t path parts q n) :
    q = path ++ parts := by
  induction walks with
  | done path => simp
  | skip blank => exact absurd blank (canonical.proper _ (by simp)).1
  | up => exact absurd rfl (canonical.proper _ (by simp)).2
  | enter _ _ _ _ _ _ ih => simpa using ih (by simpa using canonical)
  | @link path mid q name rest target absolute n m _ _ _ found inside =>
    have leads : Leads t (path ++ [name]) mid n :=
      ⟨absolute, target, found, by rwa [List.dropLast_concat]⟩
    exact absurd leads (canonical.blind path name (by simp) mid n)

def Part.asName : Part → Option String
  | .name name => some name
  | .resolved _ => none

def Part.asLink : Part → Option Path
  | .name _ => none
  | .resolved link => some link

theorem asLink_names (names : List String) : (names.map Part.name).filterMap Part.asLink = [] :=
  List.filterMap_eq_nil_iff.mpr fun part mem => by
    obtain ⟨name, -, rfl⟩ := List.mem_map.mp mem
    rfl

theorem asName_names (names : List String) :
    (names.map Part.name).filterMap Part.asName = names := by
  induction names with
  | nil => rfl
  | cons name names ih => simp [Part.asName, ih]

theorem mem_asLink {link : Path} : link ∈ todo.filterMap Part.asLink ↔ .resolved link ∈ todo := by
  rw [List.mem_filterMap]
  constructor
  · rintro ⟨part, mem, same⟩
    cases part with
    | name name => cases same
    | resolved other => exact Option.some.inj same ▸ mem
  · exact fun mem => ⟨_, mem, rfl⟩

/-- A link that is being followed: if it leads anywhere, what is still to do before it counts as
    resolved leads there, and through no more links. -/
def Pending (t : Tree) (todo : List Part) (path link : Path) : Prop :=
  ∃ before after, todo = before ++ .resolved link :: after ∧ .resolved link ∉ before ∧
    ∀ q n, Leads t link q n → ∃ m, m ≤ n ∧ Walks t path (before.filterMap Part.asName) q m

/-- What every turn of realpath keeps. -/
structure Sought (t : Tree) (todo : List Part) (path : Path) (seen : List (Path × Option Path)) :
    Prop where
  here : Canonical t path
  known : Knows t seen
  ended : ∀ link p, seen.lookup link = some (some p) → Canonical t p
  pending : ∀ link, seen.lookup link = some none → Pending t todo path link
  marked : ∀ link, .resolved link ∈ todo → seen.lookup link = some none
  once : (todo.filterMap Part.asLink).Nodup

theorem Pending.next {link next : Path} (pending : Pending t (.name name :: todo) path link)
    (moves : ∀ rest q m, Walks t path (name :: rest) q m → ∃ k, k ≤ m ∧ Walks t next rest q k) :
    Pending t todo next link := by
  obtain ⟨before, after, split, new, leads⟩ := pending
  cases before with
  | nil => simp at split
  | cons part before =>
    obtain ⟨rfl, rest⟩ := List.cons_eq_cons.mp split
    refine ⟨before, after, rest, fun mem => new (List.mem_cons_of_mem _ mem), fun q n leads' => ?_⟩
    obtain ⟨m, few, walks⟩ := leads q n leads'
    obtain ⟨k, fewer, later⟩ := moves _ q m walks
    exact ⟨k, Nat.le_trans fewer few, later⟩

theorem Sought.next {next : Path} (sought : Sought t (.name name :: todo) path seen)
    (here : Canonical t next)
    (moves : ∀ rest q m, Walks t path (name :: rest) q m → ∃ k, k ≤ m ∧ Walks t next rest q k) :
    Sought t todo next seen := by
  constructor
  · exact here
  · exact sought.known
  · exact sought.ended
  · exact fun link opened => (sought.pending link opened).next moves
  · exact fun link mem => sought.marked link (List.mem_cons_of_mem _ mem)
  · exact sought.once

theorem Sought.resolved {link : Path} (sought : Sought t (.resolved link :: todo) path seen) :
    Sought t todo path ((link, some path) :: seen) := by
  have opened := sought.marked link List.mem_cons_self
  obtain ⟨before, after, split, new, leads⟩ := sought.pending link opened
  have single : link ∉ todo.filterMap Part.asLink ∧ (todo.filterMap Part.asLink).Nodup := by
    simpa [Part.asLink] using sought.once
  constructor
  · exact sought.here
  · intro other p found q n leads'
    by_cases same : other = link
    · subst same
      have here : path = p := by simpa using found
      cases before with
      | nil =>
        obtain ⟨m, -, walks⟩ := leads q n leads'
        cases walks
        exact here.symm
      | cons part before =>
        obtain ⟨rfl, -⟩ := List.cons_eq_cons.mp split
        simp at new
    · exact sought.known other p (lookup_cons_of_ne same ▸ found) q n leads'
  · intro other p found
    by_cases same : other = link
    · subst same
      have here : path = p := by simpa using found
      exact here ▸ sought.here
    · exact sought.ended other p (lookup_cons_of_ne same ▸ found)
  · intro other still
    by_cases same : other = link
    · simp [same] at still
    · rw [lookup_cons_of_ne same] at still
      obtain ⟨before', after', split', new', leads'⟩ := sought.pending other still
      cases before' with
      | nil =>
        obtain ⟨one, -⟩ := List.cons_eq_cons.mp split'
        exact absurd (Part.resolved.inj one).symm same
      | cons part before' =>
        obtain ⟨rfl, rest⟩ := List.cons_eq_cons.mp split'
        exact ⟨before', after', rest, fun mem => new' (List.mem_cons_of_mem _ mem), leads'⟩
  · intro other mem
    have apart : other ≠ link := fun same => single.1 (mem_asLink.mpr (same ▸ mem))
    rw [lookup_cons_of_ne apart]
    exact sought.marked other (List.mem_cons_of_mem _ mem)
  · exact single.2

theorem Sought.follow {absolute : Bool} {target : List String}
    (sought : Sought t (.name name :: todo) path seen) (proper : Proper name)
    (found : t.node (path ++ [name]) = some (.link absolute target))
    (new : seen.lookup (path ++ [name]) = none) :
    Sought t (target.map .name ++ .resolved (path ++ [name]) :: todo)
      (if absolute then [] else path) ((path ++ [name], none) :: seen) := by
  have older : ∀ link, .resolved link ∈ todo → link ≠ path ++ [name] := by
    intro link mem same
    have opened := sought.marked link (List.mem_cons_of_mem _ mem)
    rw [same, new] at opened
    cases opened
  constructor
  · split
    · exact canonical_nil t
    · exact sought.here
  · exact sought.known.follow _
  · intro link p known
    by_cases same : link = path ++ [name]
    · simp [same] at known
    · exact sought.ended link p (lookup_cons_of_ne same ▸ known)
  · intro link opened
    by_cases same : link = path ++ [name]
    · refine ⟨target.map .name, todo, by rw [same], by simp, fun q n leads => ?_⟩
      obtain ⟨absolute', target', found', walks⟩ := leads
      rw [same] at found' walks
      obtain ⟨rfl, rfl⟩ := Node.link.injEq _ _ _ _ ▸ Option.some.inj (found.symm.trans found')
      rw [List.dropLast_concat] at walks
      exact ⟨n, Nat.le_refl n, (asName_names target).symm ▸ walks⟩
    · rw [lookup_cons_of_ne same] at opened
      obtain ⟨before, after, split, fresh, leads⟩ := sought.pending link opened
      cases before with
      | nil => simp at split
      | cons part before =>
        obtain ⟨rfl, rest⟩ := List.cons_eq_cons.mp split
        refine ⟨target.map .name ++ .resolved (path ++ [name]) :: before, after,
          by simp [rest], ?_, ?_⟩
        · intro mem
          rcases List.mem_append.mp mem with pushed | old
          · simp at pushed
          · rcases List.mem_cons.mp old with one | older
            · exact same (Part.resolved.inj one)
            · exact fresh (List.mem_cons_of_mem _ older)
        · intro q n leads'
          obtain ⟨m, few, walks⟩ := leads q n leads'
          obtain ⟨mid, a, b, inside, later, rfl⟩ := walks.through proper found
          refine ⟨a + b, by omega, ?_⟩
          rw [List.filterMap_append, asName_names]
          exact inside.append later
  · intro link mem
    rcases List.mem_append.mp mem with pushed | old
    · simp at pushed
    · rcases List.mem_cons.mp old with one | old
      · simp [Part.resolved.inj one]
      · rw [lookup_cons_of_ne (older link old)]
        exact sought.marked link (List.mem_cons_of_mem _ old)
  · rw [List.filterMap_append, asLink_names]
    have rest : (todo.filterMap Part.asLink).Nodup := sought.once
    refine List.nodup_cons.mpr ⟨fun mem => ?_, rest⟩
    exact older _ (mem_asLink.mp mem) rfl

theorem moves_dir {next : Path} (proper : Proper name)
    (plain : ∀ absolute target, t.node (path ++ [name]) ≠ some (.link absolute target))
    (here : next = path ++ [name]) (rest : List String) (q : Path) (m : Nat)
    (walks : Walks t path (name :: rest) q m) : ∃ k, k ≤ m ∧ Walks t next rest q k := by
  subst here
  cases walks with
  | skip blank => exact absurd blank proper.1
  | up => exact absurd rfl proper.2
  | enter _ _ _ _ _ later => exact ⟨m, Nat.le_refl m, later⟩
  | link _ _ _ found => exact absurd found (plain _ _)

theorem moves_link {next : Path} (proper : Proper name)
    (found : t.node (path ++ [name]) = some (.link absolute target))
    (leads : ∀ q n, Leads t (path ++ [name]) q n → q = next) (rest : List String) (q : Path)
    (m : Nat) (walks : Walks t path (name :: rest) q m) :
    ∃ k, k ≤ m ∧ Walks t next rest q k := by
  obtain ⟨mid, a, b, inside, later, rfl⟩ := walks.through proper found
  have there : mid = next := leads mid a ⟨absolute, target, found, by rwa [List.dropLast_concat]⟩
  exact ⟨b, by omega, there ▸ later⟩

theorem realpath_canonical (fuel : Nat) (sought : Sought t todo path seen) :
    Canonical t (realpath t fuel todo path seen) := by
  induction fuel generalizing todo path seen with
  | zero => exact sought.here
  | succ fuel ih =>
    cases todo with
    | nil => exact sought.here
    | cons part rest =>
      cases part with
      | resolved link => exact ih sought.resolved
      | name name =>
        simp only [realpath]
        split
        · rename_i blank
          apply ih (sought.next sought.here ?_)
          intro more q m walks
          cases walks with
          | skip _ _ later => exact ⟨m, Nat.le_refl m, later⟩
          | up => simp at blank
          | enter named => exact absurd blank named
          | link named => exact absurd blank named
        · rename_i named
          split
          · rename_i up
            subst up
            apply ih (sought.next sought.here.dropLast ?_)
            intro more q m walks
            cases walks with
            | skip blank => simp at blank
            | up _ later => exact ⟨m, Nat.le_refl m, later⟩
            | enter _ child => exact absurd rfl child
            | link _ child => exact absurd rfl child
          · rename_i child
            have proper : Proper name := ⟨named, child⟩
            split
            · rename_i absolute target found
              split
              · rename_i resolved known
                apply ih (sought.next (sought.ended _ _ known) ?_)
                exact moves_link proper found
                  fun q n leads => (sought.known _ _ known q n leads).symm
              · rename_i opened
                -- it would be met again before it is done
                have blind : ∀ q n, ¬ Leads t (path ++ [name]) q n := by
                  intro q n leads
                  obtain ⟨before, after, split, -, goes⟩ := sought.pending _ opened
                  cases before with
                  | nil => simp at split
                  | cons part before =>
                    obtain ⟨rfl, -⟩ := List.cons_eq_cons.mp split
                    obtain ⟨m, few, walks⟩ := goes q n leads
                    obtain ⟨mid, a, b, inside, -, rfl⟩ := walks.through proper found
                    have again : Leads t (path ++ [name]) mid a :=
                      ⟨absolute, target, found, by rwa [List.dropLast_concat]⟩
                    have same := (again.unique leads).2
                    omega
                apply ih (sought.next (sought.here.concat proper blind) ?_)
                exact moves_link proper found fun q n leads => absurd leads (blind q n)
              · rename_i new
                exact ih (sought.follow proper found new)
            · rename_i other
              have plain : ∀ absolute target,
                  t.node (path ++ [name]) ≠ some (.link absolute target) :=
                fun absolute target found => other absolute target found
              apply ih (sought.next (sought.here.concat proper (leads_none plain)) ?_)
              exact moves_dir proper plain rfl

/-- What realpath gives is a canonical path, whether it exists or not. -/
theorem resolve_canonical (t : Tree) (parts : List String) : Canonical t (resolve t parts) := by
  apply realpath_canonical
  constructor
  · exact canonical_nil t
  · intro link p found
    simp at found
  · intro link p found
    simp at found
  · intro link found
    simp at found
  · intro link mem
    simp at mem
  · rw [asLink_names]
    exact List.nodup_nil

end Canonical

section Real
variable {t : Tree} {path : Path} {name : String} {n : Node} {links : Nat}

theorem Tree.isDir_parent (found : t.node (path ++ [name]) = some n) : t.isDir path = true := by
  have parent := t.rooted _ (Table.mem_of_get (Tree.node_eq_some.mp found)) (by simp)
  rw [show (path ++ [name]).dropLast = path from List.dropLast_concat] at parent
  cases here : t.entries.get path with
  | none => simp [here] at parent
  | some e =>
    cases kind : e.node with
    | dir inode => exact Tree.isDir_iff.mpr ⟨inode, by rw [Tree.node, here, Option.map_some, kind]⟩
    | link absolute target => simp [here, Entry.inode, kind] at parent
    | other => simp [here, Entry.inode, kind] at parent

theorem walks_self (proper : ∀ name ∈ path, Proper name) (found : t.node path = some n)
    (real : ∀ absolute target, n ≠ .link absolute target) : Walks t [] path path 0 := by
  induction path using List.reverseRecOn generalizing n with
  | nil => exact .done []
  | append_singleton path name ih =>
    have dir := Tree.isDir_parent found
    obtain ⟨inode, above⟩ := Tree.isDir_iff.mp dir
    have front := ih (fun other mem => proper other (by simp [mem])) above (by simp)
    obtain ⟨named, child⟩ := proper name (by simp)
    simpa using front.append (.enter named child dir found real (.done _))

end Real

end Filesystem
