import Pullbackup.Library.KeyedTable

/- A tree of directories, symbolic links and other files under canonical paths. A
directory is known by its inode, which outlives the names that lead to it. -/
namespace Filesystem
open KeyedTable

abbrev Path := List String

inductive Node where
  | dir (inode : Nat)
  | link (absolute : Bool) (target : List String)
  | other
  deriving DecidableEq, Repr

structure Entry where
  path : Path
  node : Node
  deriving DecidableEq, Repr

instance : Keyed Entry Path := ⟨Entry.path⟩

@[simp] theorem key_entry (e : Entry) : Keyed.key e = e.path := rfl

def Entry.inode (e : Entry) : Option Nat :=
  match e.node with
  | .dir inode => some inode
  | _ => none

/-- Every entry lies in a directory, and no directory has two names. -/
structure Tree where
  entries : Table Entry
  inodes : (entries.rows.filterMap Entry.inode).Nodup
  rooted : ∀ e ∈ entries.rows, e.path ≠ [] →
    ((entries.get e.path.dropLast).bind Entry.inode).isSome = true

namespace Tree

def node (t : Tree) (path : Path) : Option Node := (t.entries.get path).map Entry.node

theorem node_eq_some {t : Tree} {path : Path} {n : Node} :
    t.node path = some n ↔ t.entries.get path = some ⟨path, n⟩ := by
  constructor
  · intro found
    obtain ⟨e, here, rfl⟩ := Option.map_eq_some_iff.mp found
    have named : e.path = path := Table.key_of_get here
    rw [here, ← named]
  · intro found
    simp [node, found]

theorem node_eq_none {t : Tree} {path : Path} :
    t.node path = none ↔ t.entries.get path = none := by
  simp [node]

theorem inode_unique {xs : List Entry} (unique : (xs.filterMap Entry.inode).Nodup) {d e : Entry}
    {i : Nat} (md : d ∈ xs) (me : e ∈ xs) (id : d.inode = some i) (ie : e.inode = some i) :
    d = e := by
  induction xs with
  | nil => cases md
  | cons x xs ih =>
    have tail : (xs.filterMap Entry.inode).Nodup :=
      unique.sublist ((List.sublist_cons_self x xs).filterMap Entry.inode)
    have head : ∀ y ∈ xs, x.inode = some i → y.inode = some i → False := by
      intro y my ix iy
      rw [List.filterMap_cons_some ix] at unique
      exact (List.nodup_cons.mp unique).1 (List.mem_filterMap.mpr ⟨y, my, iy⟩)
    rcases List.mem_cons.mp md with rfl | td
    · rcases List.mem_cons.mp me with rfl | te
      · rfl
      · exact (head e te id ie).elim
    · rcases List.mem_cons.mp me with rfl | te
      · exact (head d td ie id).elim
      · exact ih tail td te

theorem path_unique {t : Tree} {p q : Path} {i : Nat} (hp : t.node p = some (.dir i))
    (hq : t.node q = some (.dir i)) : p = q := by
  have same := inode_unique t.inodes (Table.mem_of_get (node_eq_some.mp hp))
    (Table.mem_of_get (node_eq_some.mp hq)) rfl rfl
  exact (Entry.mk.injEq _ _ _ _ ▸ same).1

def Above (t : Tree) (i j : Nat) : Prop :=
  i = j ∨ ∃ p q, t.node p = some (.dir i) ∧ t.node q = some (.dir j) ∧ p <+: q

theorem not_above {t : Tree} {p q : Path} {i j : Nat} (hp : t.node p = some (.dir i))
    (hq : t.node q = some (.dir j)) (apart : ¬ p <+: q) : ¬ t.Above i j := by
  rintro (rfl | ⟨p', q', hp', hq', inside⟩)
  · exact apart (path_unique hp hq ▸ List.prefix_refl p)
  · rw [path_unique hp' hp, path_unique hq' hq] at inside
    exact apart inside

def nextInode (t : Tree) : Nat :=
  (t.entries.rows.filterMap Entry.inode).foldr max 0 + 1

theorem nextInode_new (t : Tree) : t.nextInode ∉ t.entries.rows.filterMap Entry.inode := by
  have bound : ∀ xs : List Nat, ∀ i ∈ xs, i ≤ xs.foldr max 0 := by
    intro xs
    induction xs with
    | nil => simp
    | cons x xs ih =>
      intro i mem
      simp only [List.foldr_cons]
      rcases List.mem_cons.mp mem with rfl | tail
      · exact Nat.le_max_left _ _
      · exact Nat.le_trans (ih i tail) (Nat.le_max_right _ _)
  intro mem
  have small := bound _ _ mem
  simp only [nextInode] at small
  omega

def isDir (t : Tree) (path : Path) : Bool :=
  match t.node path with
  | some (.dir _) => true
  | _ => false

theorem isDir_iff {t : Tree} {path : Path} :
    t.isDir path = true ↔ ∃ inode, t.node path = some (.dir inode) := by
  unfold isDir
  split
  · rename_i inode found
    simp [found]
  · rename_i other
    constructor
    · intro impossible
      cases impossible
    · rintro ⟨inode, found⟩
      exact absurd found (other inode)

def mkdir (t : Tree) (parent : Path) (name : String) : Tree :=
  if free : t.isDir parent = true ∧ t.node (parent ++ [name]) = none then
    { entries := t.entries.put ⟨parent ++ [name], .dir t.nextInode⟩
      inodes := by
        have new := Table.get_eq_none_iff.mp (node_eq_none.mp free.2)
        have rows : (t.entries.put ⟨parent ++ [name], .dir t.nextInode⟩).rows =
            t.entries.rows ++ [⟨parent ++ [name], .dir t.nextInode⟩] :=
          putRow_of_new fun e mem same => new e mem same
        rw [rows, List.filterMap_append]
        apply List.nodup_append.mpr
        refine ⟨t.inodes, by simp [Entry.inode], ?_⟩
        intro i old j fresh same
        simp only [Entry.inode, List.filterMap_cons, List.filterMap_nil, List.mem_singleton] at fresh
        exact t.nextInode_new (fresh ▸ same ▸ old)
      rooted := by
        obtain ⟨inode, found⟩ := isDir_iff.mp free.1
        have keep : ∀ p, ((t.entries.get p).bind Entry.inode).isSome = true →
            (((t.entries.put ⟨parent ++ [name], .dir t.nextInode⟩).get p).bind
              Entry.inode).isSome = true := by
          intro p here
          rw [Table.get_put_ne]
          · exact here
          · intro same
            have gone := node_eq_none.mp free.2
            rw [show parent ++ [name] = p from same] at gone
            rw [gone] at here
            cases here
        intro e mem named
        apply keep
        rcases Table.mem_put_iff.mp mem with rfl | ⟨-, old⟩
        · rw [show Entry.path ⟨parent ++ [name], .dir t.nextInode⟩ = parent ++ [name] from rfl,
            List.dropLast_concat, node_eq_some.mp found]
          rfl
        · exact t.rooted e old named }
  else t

theorem mkdir_keeps {t : Tree} {parent path : Path} {name : String} {n : Node}
    (found : t.node path = some n) : (t.mkdir parent name).node path = some n := by
  unfold mkdir
  split
  · rename_i free
    apply node_eq_some.mpr
    rw [Table.get_put_ne]
    · exact node_eq_some.mp found
    · intro same
      have gone := free.2
      rw [show parent ++ [name] = path from same, found] at gone
      cases gone
  · exact found

theorem node_child {t : Tree} {path : Path} (missing : t.node path = none) (name : String) :
    t.node (path ++ [name]) = none := by
  cases found : t.node (path ++ [name]) with
  | none => rfl
  | some n =>
    have parent := t.rooted _ (Table.mem_of_get (node_eq_some.mp found)) (by simp)
    rw [show (path ++ [name]).dropLast = path from List.dropLast_concat,
      node_eq_none.mp missing] at parent
    cases parent

theorem node_below {t : Tree} {path : Path} (missing : t.node path = none) (rest : Path) :
    t.node (path ++ rest) = none := by
  induction rest generalizing path with
  | nil => rwa [List.append_nil]
  | cons name rest ih =>
    have below := ih (node_child missing name)
    rwa [List.append_assoc] at below

theorem mkdir_new {t : Tree} {parent : Path} {name : String} (dir : t.isDir parent = true)
    (free : t.node (parent ++ [name]) = none) (path : Path) :
    (t.mkdir parent name).node path =
      if path = parent ++ [name] then some (.dir t.nextInode) else t.node path := by
  unfold mkdir
  rw [dif_pos ⟨dir, free⟩]
  by_cases here : path = parent ++ [name]
  · subst here
    rw [if_pos rfl]
    apply node_eq_some.mpr
    exact Table.get_put_self _ _
  · rw [if_neg here]
    unfold node
    rw [Table.get_put_ne]
    exact fun same => here same.symm

theorem mkdir_exists {t : Tree} {parent : Path} {name : String} {n : Node}
    (found : t.node (parent ++ [name]) = some n) : t.mkdir parent name = t := by
  unfold mkdir
  exact dif_neg fun free => by simp [found] at free

def mkdirs (t : Tree) (base : Path) : List String → Tree
  | [] => t
  | name :: rest => (t.mkdir base name).mkdirs (base ++ [name]) rest

/-- The second tree has the missing components below the base as directories, which the first
    had not, and nothing else is changed. -/
structure Creates (t u : Tree) (base : Path) (missing : List String) : Prop where
  made : ∀ done, done ≠ [] → done <+: missing →
    t.node (base ++ done) = none ∧ ∃ inode, u.node (base ++ done) = some (.dir inode)
  kept : ∀ path, (∀ done, done ≠ [] → done <+: missing → path ≠ base ++ done) →
    u.node path = t.node path

theorem mkdirs_creates {t : Tree} {base : Path} {missing : List String}
    (dir : t.isDir base = true)
    (free : ∀ first rest, missing = first :: rest → t.node (base ++ [first]) = none) :
    Creates t (t.mkdirs base missing) base missing := by
  induction missing generalizing t base with
  | nil =>
    constructor
    · intro done nonempty inside
      exact absurd (List.prefix_nil.mp inside) nonempty
    · exact fun path _ => rfl
  | cons first rest ih =>
    have gone := free first rest rfl
    have made := mkdir_new dir gone
    have next : (t.mkdir base first).isDir (base ++ [first]) = true :=
      isDir_iff.mpr ⟨t.nextInode, by rw [made, if_pos rfl]⟩
    have later : ∀ second others, rest = second :: others →
        (t.mkdir base first).node (base ++ [first] ++ [second]) = none := by
      intro second others _
      rw [made, if_neg (by simp)]
      exact node_child gone second
    have more := ih next later
    constructor
    · intro done nonempty inside
      cases done with
      | nil => exact absurd rfl nonempty
      | cons name done =>
        obtain ⟨rfl, deeper⟩ := List.cons_prefix_cons.mp inside
        have absent : t.node (base ++ name :: done) = none := by
          have below := node_below gone done
          rwa [List.append_assoc] at below
        refine ⟨absent, ?_⟩
        cases done with
        | nil =>
          refine ⟨t.nextInode, ?_⟩
          have stays := more.kept (base ++ [name]) (by
            intro done nonempty _ same
            exact nonempty (List.append_right_eq_self.mp same.symm))
          exact stays.trans (by rw [made, if_pos rfl])
        | cons second done =>
          obtain ⟨-, inode, found⟩ := more.made (second :: done) (by simp) deeper
          refine ⟨inode, ?_⟩
          rwa [List.append_assoc] at found
    · intro path apart
      have other : path ≠ base ++ [first] := apart [first] (by simp) (by simp)
      have stays := more.kept path (by
        intro done nonempty inside same
        apply apart (first :: done) (by simp) (List.cons_prefix_cons.mpr ⟨rfl, inside⟩)
        rw [same, List.append_assoc]
        rfl)
      exact stays.trans (by rw [made, if_neg other])

end Tree

/-- What realpath has still to do: a name to follow, or a link whose target has then been
    resolved. -/
inductive Part where
  | name (name : String)
  | resolved (link : Path)
  deriving DecidableEq, Repr

/-- os.path.realpath, not strict: a missing component and a link met again inside itself are
    kept as they are spelled. -/
def realpath (t : Tree) : Nat → List Part → Path → List (Path × Option Path) → Path
  | 0, _, path, _ => path
  | _ + 1, [], path, _ => path
  | fuel + 1, .resolved link :: rest, path, seen => realpath t fuel rest path ((link, some path) :: seen)
  | fuel + 1, .name name :: rest, path, seen =>
    if name = "" ∨ name = "." then realpath t fuel rest path seen
    else if name = ".." then realpath t fuel rest path.dropLast seen
    else
      let new := path ++ [name]
      match t.node new with
      | some (.link absolute target) =>
        match seen.lookup new with
        | some (some resolved) => realpath t fuel rest resolved seen
        | some none => realpath t fuel rest new seen
        | none =>
          realpath t fuel (target.map .name ++ .resolved new :: rest) (if absolute then [] else path)
            ((new, none) :: seen)
      | _ => realpath t fuel rest new seen

/-- The steps a link adds when it is followed. -/
def Entry.weight (e : Entry) : Nat :=
  match e.node with
  | .link _ target => target.length + 1
  | _ => 0

def totalWeight : List Entry → Nat
  | [] => 0
  | e :: rest => e.weight + totalWeight rest

def resolve (t : Tree) (parts : List String) : Path :=
  realpath t (parts.length + totalWeight t.entries.rows) (parts.map .name) [] []

section Fuel
variable {t : Tree}

/-- The steps of the links that have not been followed yet. -/
def unseen (t : Tree) (seen : List (Path × Option Path)) : Nat :=
  totalWeight (t.entries.rows.filter fun e => (seen.lookup e.path).isNone)

theorem unseen_le {xs : List Entry} {p q : Entry → Bool} (fewer : ∀ e, q e = true → p e = true) :
    totalWeight (xs.filter q) ≤ totalWeight (xs.filter p) := by
  induction xs with
  | nil => simp
  | cons x xs ih =>
    by_cases hq : q x = true
    · simp only [List.filter_cons, hq, fewer x hq, if_true, totalWeight]
      omega
    · by_cases hp : p x = true
      · simp only [List.filter_cons, hq, hp, if_true, totalWeight]
        simp only [Bool.false_eq_true, if_false]
        omega
      · simpa [List.filter_cons, hq, hp] using ih

theorem unseen_drop {xs : List Entry} {p q : Entry → Bool} (fewer : ∀ e, q e = true → p e = true)
    {x : Entry} (mem : x ∈ xs) (hp : p x = true) (hq : q x = false) :
    totalWeight (xs.filter q) + x.weight ≤ totalWeight (xs.filter p) := by
  induction xs with
  | nil => cases mem
  | cons y ys ih =>
    rcases List.mem_cons.mp mem with rfl | tail
    · have rest : totalWeight (ys.filter q) ≤ totalWeight (ys.filter p) := unseen_le fewer
      simp only [List.filter_cons, hp, hq, if_true, totalWeight]
      simp only [Bool.false_eq_true, if_false]
      omega
    · have rest := ih tail
      by_cases gq : q y = true
      · simp only [List.filter_cons, gq, fewer y gq, if_true, totalWeight]
        omega
      · by_cases gp : p y = true
        · simp only [List.filter_cons, gq, gp, if_true, totalWeight]
          simp only [Bool.false_eq_true, if_false]
          omega
        · simpa [List.filter_cons, gq, gp] using rest

theorem unseen_cons (seen : List (Path × Option Path)) (link : Path) (found : Option Path) :
    unseen t ((link, found) :: seen) ≤ unseen t seen := by
  apply unseen_le
  intro e new
  rw [List.lookup_cons] at new
  split at new
  · cases new
  · exact new

theorem unseen_follow {seen : List (Path × Option Path)} {link : Path} {absolute : Bool}
    {target : List String} (found : t.node link = some (.link absolute target))
    (new : seen.lookup link = none) :
    unseen t ((link, none) :: seen) + (target.length + 1) ≤ unseen t seen := by
  have entry := Tree.node_eq_some.mp found
  apply unseen_drop (x := ⟨link, .link absolute target⟩) ?_ (Table.mem_of_get entry)
  · simp [new]
  · simp
  · intro e fresh
    rw [List.lookup_cons] at fresh
    split at fresh
    · cases fresh
    · exact fresh

/-- Parts without some of the blank names and dots that realpath passes over. -/
inductive Thinned : List Part → List Part → Prop
  | nil : Thinned [] []
  | skip {name : String} {parts kept : List Part} (blank : name = "" ∨ name = ".")
      (rest : Thinned parts kept) : Thinned (.name name :: parts) kept
  | keep (part : Part) {parts kept : List Part} (rest : Thinned parts kept) :
      Thinned (part :: parts) (part :: kept)

theorem Thinned.append (front : List Part) {parts kept : List Part} (thin : Thinned parts kept) :
    Thinned (front ++ parts) (front ++ kept) := by
  induction front with
  | nil => exact thin
  | cons part front ih => exact .keep part ih

theorem Thinned.refl (parts : List Part) : Thinned parts parts := by
  simpa using Thinned.nil.append parts

theorem thinned_filter (parts : List String) :
    Thinned (parts.map .name) ((parts.filter fun part => part ≠ "" ∧ part ≠ ".").map .name) := by
  induction parts with
  | nil => exact .nil
  | cons part parts ih =>
    by_cases blank : part = "" ∨ part = "."
    · rw [List.filter_cons_of_neg (by simp; tauto)]
      exact .skip blank ih
    · rw [List.filter_cons_of_pos (by simp; tauto)]
      exact .keep (.name part) ih

/-- With enough fuel the parts that are passed over and the fuel itself do not matter. -/
theorem realpath_thinned {fuel fuel' : Nat} {parts kept : List Part} {path : Path}
    {seen : List (Path × Option Path)} (thin : Thinned parts kept)
    (enough : parts.length + unseen t seen ≤ fuel) (enough' : kept.length + unseen t seen ≤ fuel') :
    realpath t fuel parts path seen = realpath t fuel' kept path seen := by
  induction fuel generalizing fuel' parts kept path seen with
  | zero =>
    cases thin with
    | nil => cases fuel' <;> rfl
    | skip blank rest => simp at enough
    | keep part rest => simp at enough
  | succ fuel ih =>
    cases thin with
    | nil => cases fuel' <;> rfl
    | skip blank rest =>
      simp only [List.length_cons] at enough
      rw [← ih rest (by omega) enough']
      simp only [realpath, if_pos blank]
    | keep part rest =>
      simp only [List.length_cons] at enough enough'
      cases fuel' with
      | zero => omega
      | succ fuel' =>
        cases part with
        | resolved link =>
          have fewer := unseen_cons (t := t) seen link (some path)
          exact ih rest (by omega) (by omega)
        | name name =>
          simp only [realpath]
          split
          · exact ih rest (by omega) (by omega)
          · split
            · exact ih rest (by omega) (by omega)
            · split
              · rename_i absolute target found
                split
                · exact ih rest (by omega) (by omega)
                · exact ih rest (by omega) (by omega)
                · rename_i new
                  have fewer := unseen_follow found new
                  apply ih (.append _ (.keep _ rest))
                  · simp only [List.length_append, List.length_map, List.length_cons]
                    omega
                  · simp only [List.length_append, List.length_map, List.length_cons]
                    omega
              · exact ih rest (by omega) (by omega)

theorem realpath_fuel (fuel more : Nat) (parts : List Part) (path : Path)
    (seen : List (Path × Option Path)) (enough : parts.length + unseen t seen ≤ fuel) :
    realpath t (fuel + more) parts path seen = realpath t fuel parts path seen :=
  realpath_thinned (.refl parts) (by omega) enough

theorem resolve_thinned (t : Tree) (parts : List String) :
    resolve t (parts.filter fun part => part ≠ "" ∧ part ≠ ".") = resolve t parts := by
  symm
  apply realpath_thinned (thinned_filter parts)
  · simp [unseen]
  · simp [unseen]

end Fuel

end Filesystem
