import Mathlib.Data.String.Basic
import Pullbackup.Library.Lookup
import Pullbackup.Roots
import Pullbackup.Traversal

/- services/fs.py: the listing of what lies under the configured roots. -/
namespace Pullbackup
open Filesystem Text KeyedTable

/-- What Linux follows for one path. -/
def maxSymlinks : Nat := 40

def nullByte (text : String) : Bool := text.toList.contains '\x00'

structure Browser where
  fs : Tree
  cwd : Path
  destRoots : String
  lower : String → String

namespace Browser

def fromTop (b : Browser) (path : PurePath) : List String :=
  if path.isAbsolute then path.parts else b.cwd ++ path.parts

def found (b : Browser) (path : PurePath) : Option Path := stat b.fs maxSymlinks [] (b.fromTop path)

def existsAt (b : Browser) (path : PurePath) : Bool :=
  !path.parts.any nullByte && (b.found path).isSome

def isDirAt (b : Browser) (path : PurePath) : Bool :=
  !path.parts.any nullByte && (b.found path).any b.fs.isDir

/-- Path.resolve; none is its ValueError for a null byte. -/
def resolved (b : Browser) (path : PurePath) : Option Path :=
  if path.parts.any nullByte then none else some (resolve b.fs (b.fromTop path))

end Browser

def absolute (path : Path) : PurePath := ⟨"/", path⟩

inductive BrowseError where
  | notAllowed (path : String)
  | nullByte
  deriving DecidableEq, Repr

def BrowseError.message : BrowseError → String
  | .notAllowed path => path ++ " is not inside an allowed destination root"
  | .nullByte => "embedded null byte"

structure BrowseEntry where
  name : String
  path : String
  isDir : Bool
  deriving DecidableEq, Repr

structure Listing where
  path : Option String
  isRoot : Bool
  entries : List BrowseEntry
  deriving DecidableEq, Repr

/-- One turn of the loop of resolve_allowed: a root that cannot be resolved is passed over. -/
def Browser.contains (b : Browser) (p : Path) (root : PurePath) : Bool :=
  (b.resolved root).any fun canonical => canonical.isPrefixOf p

def Browser.resolveAllowed (b : Browser) (path : String) : Except BrowseError Path :=
  match b.resolved (purePath path) with
  | none => .error .nullByte
  | some p =>
    if (destRootsList b.destRoots).any (b.contains p) then .ok p else .error (.notAllowed path)

def childName (dir path : Path) : Option String :=
  if path ≠ [] ∧ path.dropLast = dir then path.getLast? else none

def children (fs : Tree) (dir : Path) : List String :=
  (fs.entries.rows.map Entry.path).filterMap (childName dir)

/-- The sort key: directories first, then the name in lower case. -/
def Browser.before (b : Browser) (x y : BrowseEntry) : Prop :=
  (x.isDir = true ∧ y.isDir = false) ∨ x.isDir = y.isDir ∧ b.lower x.name ≤ b.lower y.name

instance (b : Browser) : DecidableRel b.before := fun x y =>
  inferInstanceAs (Decidable ((x.isDir = true ∧ y.isDir = false) ∨
    x.isDir = y.isDir ∧ b.lower x.name ≤ b.lower y.name))

def Browser.entryOf (b : Browser) (dir : Path) (name : String) : BrowseEntry :=
  { name := name, path := (absolute (dir ++ [name])).str
    isDir := b.isDirAt (absolute (dir ++ [name])) }

def hidden (name : String) : Bool := name.toList.head? = some '.'

def Browser.entriesOf (b : Browser) (dir : Path) (names : List String) : List BrowseEntry :=
  ((names.map (b.entryOf dir)).insertionSort b.before).filter fun e => !hidden e.name

def Browser.topLevel (b : Browser) : Listing :=
  { path := none, isRoot := true
    entries := ((destRootsList b.destRoots).filter b.existsAt).map fun root =>
      ⟨root.str, root.str, true⟩ }

def Browser.browse (b : Browser) (path : Option String) : Except BrowseError Listing :=
  match path with
  | none => .ok b.topLevel
  | some path =>
    if path = "" then .ok b.topLevel
    else
      match b.resolveAllowed path with
      | .error error => .error error
      | .ok p =>
        let listing := ⟨some (absolute p).str, false, []⟩
        match b.found (absolute p) with
        | none => .ok listing
        | some there =>
          if b.fs.isDir there then
            .ok { listing with entries := b.entriesOf p (children b.fs there) }
          else .ok listing

/-- The answer of the request: the refusal in place of the listing, or what nothing catches. -/
inductive BrowseAnswer where
  | listed (listing : Listing)
  | refused (error : String)
  | raised (error : String)
  deriving DecidableEq, Repr

def Browser.answer (b : Browser) (path : Option String) : BrowseAnswer :=
  match b.browse path with
  | .ok listing => .listed listing
  | .error (.notAllowed path) => .refused (BrowseError.notAllowed path).message
  | .error .nullByte => .raised BrowseError.nullByte.message

section Text
variable {parts : List String}

structure PurePath.Read (path : PurePath) : Prop where
  anchor : path.anchor = "" ∨ path.anchor = "/" ∨ path.anchor = "//"
  parts : ∀ part ∈ path.parts, '/' ∉ part.toList ∧ part ≠ "" ∧ part ≠ "."

theorem purePath_read (text : String) : (purePath text).Read := by
  constructor
  · unfold purePath anchorOf
    dsimp only
    split <;> simp
  · intro part mem
    obtain ⟨cut, plain⟩ := List.mem_filter.mp mem
    obtain ⟨letters, piece, rfl⟩ := List.mem_map.mp cut
    refine ⟨?_, by simpa using plain⟩
    rw [String.toList_ofList]
    exact not_mem_of_mem_splitOn piece

theorem join_head (plain : ∀ part ∈ parts, '/' ∉ part.toList ∧ part ≠ "") (rest : List Char) :
    (join '/' parts).toList ≠ '/' :: rest := by
  cases parts with
  | nil => simp [join]
  | cons part parts =>
    obtain ⟨single, nonempty⟩ := plain part List.mem_cons_self
    have starts : ∃ tail, (join '/' (part :: parts)).toList = part.toList ++ tail := by
      cases parts with
      | nil => exact ⟨[], by simp [join]⟩
      | cons next parts =>
        unfold join
        rw [String.intercalate_cons_cons, String.append_assoc, String.toList_append]
        exact ⟨_, rfl⟩
    obtain ⟨tail, whole⟩ := starts
    rw [whole]
    cases letters : part.toList with
    | nil => exact absurd (String.toList_eq_nil_iff.mp letters) nonempty
    | cons c cs =>
      intro same
      rw [List.cons_append] at same
      have slash : c = '/' := (List.cons_eq_cons.mp same).1
      exact single (by simp [letters, slash])

theorem components_join (plain : ∀ part ∈ parts, '/' ∉ part.toList) (nonempty : parts ≠ []) :
    components (join '/' parts) = parts := by
  have cut : components (join '/' parts) = parts.flatMap (split '/') := split_join nonempty
  rw [cut]
  clear cut nonempty
  induction parts with
  | nil => rfl
  | cons part parts ih =>
    have alone : split '/' part = [part] := by
      unfold split
      rw [List.splitOn_eq_singleton (plain part List.mem_cons_self)]
      simp
    rw [List.flatMap_cons, alone, ih fun other mem => plain other (List.mem_cons_of_mem _ mem)]
    rfl

theorem components_slash (text : String) : components ("/" ++ text) = "" :: components text := by
  have cut : split '/' ("" ++ String.singleton '/' ++ text) = split '/' "" ++ split '/' text :=
    split_append "" text
  have front : "" ++ String.singleton '/' = "/" := by decide +kernel
  have blank : split '/' "" = [""] := by decide +kernel
  rw [front, blank] at cut
  exact cut

theorem named_components (plain : ∀ part ∈ parts, '/' ∉ part.toList ∧ part ≠ "" ∧ part ≠ ".") :
    (components (join '/' parts)).filter (fun part => part ≠ "" ∧ part ≠ ".") = parts := by
  by_cases bare : parts = []
  · subst bare
    decide +kernel
  · rw [components_join (fun part mem => (plain part mem).1) bare]
    exact List.filter_eq_self.mpr fun part mem => by simpa using (plain part mem).2

theorem anchorOf_relative {text : String} (relative : ∀ rest, text.toList ≠ '/' :: rest) :
    anchorOf text = "" := by
  unfold anchorOf
  split
  · rename_i three
    exact absurd three (relative _)
  · rename_i two
    exact absurd two (relative _)
  · rename_i one
    exact absurd one (relative _)
  · rfl

theorem anchorOf_slash {text : String} (relative : ∀ rest, text.toList ≠ '/' :: rest) :
    anchorOf ("/" ++ text) = "/" ∧ anchorOf ("//" ++ text) = "//" := by
  have one : ("/" ++ text).toList = '/' :: text.toList := by simp
  have two : ("//" ++ text).toList = '/' :: '/' :: text.toList := by simp
  unfold anchorOf
  rw [one, two]
  cases letters : text.toList with
  | nil => exact ⟨rfl, rfl⟩
  | cons c rest =>
    have other : c ≠ '/' := fun slash => relative rest (slash ▸ letters)
    simp [other]

theorem purePath_str {path : PurePath} (read : path.Read) : purePath path.str = path := by
  obtain ⟨anchor, parts⟩ := path
  obtain ⟨anchored, plain⟩ := read
  have relative : ∀ rest, (join '/' parts).toList ≠ '/' :: rest :=
    join_head fun part mem => ⟨(plain part mem).1, (plain part mem).2.1⟩
  have named := named_components plain
  dsimp only at anchored plain
  rcases anchored with rfl | rfl | rfl
  · by_cases bare : parts = []
    · subst bare
      decide +kernel
    · have text : PurePath.str ⟨"", parts⟩ = join '/' parts := by
        simp [PurePath.str, bare]
      rw [text, purePath, anchorOf_relative relative, named]
  · have text : PurePath.str ⟨"/", parts⟩ = "/" ++ join '/' parts := by simp [PurePath.str]
    rw [text, purePath, (anchorOf_slash relative).1, components_slash,
      List.filter_cons_of_neg (by simp), named]
  · have text : PurePath.str ⟨"//", parts⟩ = "//" ++ join '/' parts := by simp [PurePath.str]
    have twice : "//" ++ join '/' parts = "/" ++ ("/" ++ join '/' parts) := by
      rw [← String.append_assoc]
      rfl
    have cut : components ("//" ++ join '/' parts) = "" :: "" :: components (join '/' parts) := by
      rw [twice, components_slash, components_slash]
    rw [text, purePath, (anchorOf_slash relative).2, cut, List.filter_cons_of_neg (by simp),
      List.filter_cons_of_neg (by simp), named]

theorem str_ne_empty {path : PurePath} (read : path.Read) : path.str ≠ "" := by
  intro blank
  have back := purePath_str read
  rw [blank] at back
  have bare : purePath "" = ⟨"", []⟩ := by decide +kernel
  rw [bare] at back
  rw [← back] at blank
  exact absurd blank (by decide +kernel)

end Text

section Children
variable {fs : Tree} {dir path : Path} {name : String}

theorem childName_eq_some : childName dir path = some name ↔ path = dir ++ [name] := by
  unfold childName
  constructor
  · intro found
    split at found
    · rename_i inside
      obtain ⟨nonempty, rfl⟩ := inside
      rw [List.getLast?_eq_some_getLast nonempty] at found
      rw [← Option.some.inj found, List.dropLast_concat_getLast nonempty]
    · cases found
  · rintro rfl
    simp

theorem mem_children : name ∈ children fs dir ↔ (fs.node (dir ++ [name])).isSome = true := by
  unfold children
  rw [List.mem_filterMap]
  constructor
  · rintro ⟨path, mem, named⟩
    obtain ⟨e, here, rfl⟩ := List.mem_map.mp mem
    have found : fs.entries.get e.path = some e := Table.get_of_mem here
    rw [← childName_eq_some.mp named, Filesystem.Tree.node, found]
    rfl
  · intro here
    obtain ⟨node, found⟩ := Option.isSome_iff_exists.mp here
    have row := Table.mem_of_get (Tree.node_eq_some.mp found)
    exact ⟨dir ++ [name], List.mem_map_of_mem row, childName_eq_some.mpr rfl⟩

theorem children_nodup (fs : Tree) (dir : Path) : (children fs dir).Nodup := by
  apply List.Nodup.filterMap
  · intro one other name here there
    rw [childName_eq_some.mp here, childName_eq_some.mp there]
  · exact fs.entries.unique

end Children

/-- The listing of what is at a canonical path under one of the roots. -/
structure Lists (b : Browser) (p : Path) (l : Listing) : Prop where
  inside : ∃ root ∈ destRootsList b.destRoots, ∃ canonical, b.resolved root = some canonical ∧
    canonical <+: p
  shown : l.path = some (absolute p).str ∧ l.isRoot = false
  names : b.fs.isDir p = true → ∀ name, name ∈ l.entries.map BrowseEntry.name ↔
    hidden name = false ∧ (b.fs.node (p ++ [name])).isSome = true
  empty : b.fs.isDir p = false → l.entries = []
  once : (l.entries.map BrowseEntry.name).Nodup
  entry : ∀ e ∈ l.entries, e = b.entryOf p e.name
  sorted : l.entries.Pairwise b.before

section Listings
variable {b : Browser} {p q : Path} {l : Listing} {path : String}

theorem before_total (b : Browser) (x y : BrowseEntry) : b.before x y ∨ b.before y x := by
  unfold Browser.before
  rcases le_total (b.lower x.name) (b.lower y.name) with le | le <;>
    cases x.isDir <;> cases y.isDir <;> simp [le]

theorem before_trans (b : Browser) (x y z : BrowseEntry) (xy : b.before x y) (yz : b.before y z) :
    b.before x z := by
  unfold Browser.before at *
  rcases xy with ⟨dx, fy⟩ | ⟨same, le⟩
  · rcases yz with ⟨dy, -⟩ | ⟨same', -⟩
    · rw [fy] at dy
      cases dy
    · exact Or.inl ⟨dx, same' ▸ fy⟩
  · rcases yz with ⟨dy, fz⟩ | ⟨same', le'⟩
    · exact Or.inl ⟨same ▸ dy, fz⟩
    · exact Or.inr ⟨same.trans same', le_trans le le'⟩

theorem entriesOf_perm (b : Browser) (dir : Path) (names : List String) :
    (b.entriesOf dir names).Perm
      ((names.filter fun name => !hidden name).map (b.entryOf dir)) := by
  have sorted := (List.perm_insertionSort b.before (names.map (b.entryOf dir))).filter
    fun e => !hidden e.name
  rwa [List.filter_map] at sorted

theorem entriesOf_sorted (b : Browser) (dir : Path) (names : List String) :
    (b.entriesOf dir names).Pairwise b.before := by
  have : Std.Total b.before := ⟨before_total b⟩
  have : IsTrans BrowseEntry b.before := ⟨before_trans b⟩
  exact (List.pairwise_insertionSort b.before _).filter _

theorem entriesOf_names (b : Browser) (dir : Path) (names : List String) :
    ((b.entriesOf dir names).map BrowseEntry.name).Perm
      (names.filter fun name => !hidden name) := by
  have perm := (entriesOf_perm b dir names).map BrowseEntry.name
  rw [List.map_map] at perm
  have same : BrowseEntry.name ∘ b.entryOf dir = id := rfl
  rwa [same, List.map_id] at perm

theorem fromTop_absolute (b : Browser) (p : Path) : b.fromTop (absolute p) = p := by
  simp [Browser.fromTop, absolute, PurePath.isAbsolute]

theorem contains_iff {root : PurePath} : b.contains p root = true ↔
    ∃ canonical, b.resolved root = some canonical ∧ canonical <+: p := by
  unfold Browser.contains
  cases b.resolved root <;> simp [List.isPrefixOf_iff_prefix]

theorem resolveAllowed_ok : b.resolveAllowed path = .ok p ↔ b.resolved (purePath path) = some p ∧
    ∃ root ∈ destRootsList b.destRoots, b.contains p root = true := by
  unfold Browser.resolveAllowed
  cases b.resolved (purePath path) with
  | none => simp
  | some canonical =>
    dsimp only
    split
    · rename_i allowed
      obtain ⟨root, configured, inside⟩ := List.any_eq_true.mp allowed
      constructor
      · intro same
        cases same
        exact ⟨rfl, root, configured, inside⟩
      · rintro ⟨same, -⟩
        cases same
        rfl
    · rename_i refused
      constructor
      · intro impossible
        cases impossible
      · rintro ⟨same, root, configured, inside⟩
        cases same
        exact absurd (List.any_eq_true.mpr ⟨root, configured, inside⟩) refused

theorem browse_error {error : BrowseError} (asked : path ≠ "") :
    b.browse (some path) = .error error ↔ b.resolveAllowed path = .error error := by
  unfold Browser.browse
  dsimp only
  rw [if_neg asked]
  cases b.resolveAllowed path with
  | error other => simp
  | ok p =>
    dsimp only
    cases b.found (absolute p) with
    | none => simp
    | some there => cases kind : b.fs.isDir there <;> simp [kind]

theorem resolved_eq {pure : PurePath} (found : b.resolved pure = some p) :
    p = resolve b.fs (b.fromTop pure) := by
  unfold Browser.resolved at found
  split at found
  · cases found
  · exact (Option.some.inj found).symm

theorem resolved_of_found {pure : PurePath} (clean : pure.parts.any nullByte = false)
    (found : b.found pure = some q) : b.resolved pure = some q := by
  rw [Browser.resolved, clean, if_neg Bool.false_ne_true]
  exact congrArg some (resolve_of_stat found)

theorem found_dir (proper : ∀ name ∈ p, Proper name) (dir : b.fs.isDir p = true) :
    b.found (absolute p) = some p := by
  obtain ⟨inode, here⟩ := Tree.isDir_iff.mp dir
  have walks := walks_self proper here (by simp)
  unfold Browser.found
  rw [fromTop_absolute]
  exact stat_iff.mpr ⟨0, Nat.zero_le _, walks⟩

theorem browse_lists (asked : path ≠ "") (answer : b.browse (some path) = .ok l) :
    ∃ p, b.resolved (purePath path) = some p ∧ Lists b p l := by
  unfold Browser.browse at answer
  dsimp only at answer
  rw [if_neg asked] at answer
  cases allowed : b.resolveAllowed path with
  | error error => simp [allowed] at answer
  | ok p =>
    obtain ⟨canonical, root, configured, contains⟩ := resolveAllowed_ok.mp allowed
    have inside := contains_iff.mp contains
    have real : Canonical b.fs p := by
      rw [resolved_eq canonical]
      exact resolve_canonical _ _
    rw [allowed] at answer
    refine ⟨p, canonical, ?_⟩
    cases dir : b.fs.isDir p with
    | true =>
      simp only [found_dir real.proper dir, dir, if_true] at answer
      cases answer
      constructor
      · exact ⟨root, configured, inside⟩
      · exact ⟨rfl, rfl⟩
      · intro _ name
        rw [(entriesOf_names b p _).mem_iff, List.mem_filter, mem_children]
        simp [and_comm]
      · intro file
        rw [dir] at file
        cases file
      · exact ((entriesOf_names b p _).nodup_iff).mpr ((children_nodup b.fs p).filter _)
      · intro e mem
        obtain ⟨name, -, rfl⟩ := List.mem_map.mp ((entriesOf_perm b p _).mem_iff.mp mem)
        rfl
      · exact entriesOf_sorted b p _
    | false =>
      have bare : l = ⟨some (absolute p).str, false, []⟩ := by
        cases found : b.found (absolute p) with
        | none => simpa [found] using answer.symm
        | some there =>
          have same : there = p := by
            unfold Browser.found at found
            rw [fromTop_absolute] at found
            obtain ⟨n, -, walks⟩ := stat_iff.mp found
            exact real.walks walks
          simpa [found, same, dir] using answer.symm
      subst bare
      constructor
      · exact ⟨root, configured, inside⟩
      · exact ⟨rfl, rfl⟩
      · simp [dir]
      · simp
      · simp
      · simp
      · simp

end Listings

def Named (fs : Tree) : Prop :=
  ∀ e ∈ fs.entries.rows, ∀ name ∈ e.path, PlainName name ∧ nullByte name = false

/-- What is found by opening one listed directory after the other. -/
inductive Finds (b : Browser) : String → Prop
  | root {l : Listing} {e : BrowseEntry} (answer : b.browse none = .ok l) (listed : e ∈ l.entries)
      (dir : e.isDir = true) : Finds b e.path
  | deeper {text : String} {l : Listing} {e : BrowseEntry} (above : Finds b text)
      (answer : b.browse (some text) = .ok l) (listed : e ∈ l.entries) (dir : e.isDir = true) :
      Finds b e.path

section Search
variable {b : Browser} {p q : Path} {l : Listing} {e : BrowseEntry} {name : String} {node : Node}

theorem named_path (named : Named b.fs) (here : b.fs.node p = some node) :
    (∀ name ∈ p, Proper name) ∧ (absolute p).Read ∧ p.any nullByte = false := by
  have plain := named _ (Table.mem_of_get (Tree.node_eq_some.mp here))
  refine ⟨fun name mem => ?_, ⟨by simp [absolute], fun name mem => ?_⟩, ?_⟩
  · obtain ⟨one, -⟩ := plain name mem
    exact ⟨fun blank => blank.elim one.nonempty one.here, one.parent⟩
  · obtain ⟨one, -⟩ := plain name mem
    exact ⟨one.single, one.nonempty, one.here⟩
  · rw [List.any_eq_false]
    intro name mem
    simp [(plain name mem).2]

theorem entry_leads (named : Named b.fs) (lists : Lists b p l) (mem : e ∈ l.entries)
    (dir : e.isDir = true) : ∃ q, b.fs.isDir q = true ∧
      b.found (absolute (p ++ [e.name])) = some q ∧ b.resolved (purePath e.path) = some q ∧
      e.path ≠ "" := by
  have shape := lists.entry e mem
  have listedDir : b.fs.isDir p = true := by
    cases kind : b.fs.isDir p with
    | true => rfl
    | false => simp [lists.empty kind] at mem
  obtain ⟨-, there⟩ := (lists.names listedDir e.name).mp (List.mem_map_of_mem mem)
  obtain ⟨node, here⟩ := Option.isSome_iff_exists.mp there
  obtain ⟨-, read, clean⟩ := named_path named here
  have text : e.path = (absolute (p ++ [e.name])).str := congrArg BrowseEntry.path shape
  have kind : b.isDirAt (absolute (p ++ [e.name])) = true :=
    (congrArg BrowseEntry.isDir shape).symm.trans dir
  unfold Browser.isDirAt at kind
  obtain ⟨-, leads⟩ := Bool.and_eq_true_iff.mp kind
  cases found : b.found (absolute (p ++ [e.name])) with
  | none => simp [found] at leads
  | some q =>
    refine ⟨q, by simpa [found] using leads, rfl, ?_, text ▸ str_ne_empty read⟩
    rw [text, purePath_str read]
    exact resolved_of_found clean found

/-- Opening a listed directory lists it, unless it is a link that leads out. -/
theorem entry_browses (named : Named b.fs) (lists : Lists b p l) (mem : e ∈ l.entries)
    (dir : e.isDir = true) :
    (b.browse (some e.path) = .error (.notAllowed e.path) ∧
        b.fs.isDir (p ++ [e.name]) = false) ∨
      ∃ q l', b.browse (some e.path) = .ok l' ∧ Lists b q l' ∧ b.fs.isDir q = true ∧
        (b.fs.isDir (p ++ [e.name]) = true → q = p ++ [e.name]) := by
  obtain ⟨q, isDir, found, canonical, nonempty⟩ := entry_leads named lists mem dir
  have self : b.fs.isDir (p ++ [e.name]) = true → q = p ++ [e.name] := by
    intro real
    obtain ⟨inode, here⟩ := Tree.isDir_iff.mp real
    rw [found_dir (named_path named here).1 real] at found
    exact (Option.some.inj found).symm
  cases answer : b.browse (some e.path) with
  | ok l' =>
    right
    obtain ⟨q', canonical', lists'⟩ := browse_lists nonempty answer
    obtain rfl : q = q' := Option.some.inj (canonical.symm.trans canonical')
    exact ⟨q, l', rfl, lists', isDir, self⟩
  | error error =>
    left
    have refused := (browse_error nonempty).mp answer
    have outside : ∀ root ∈ destRootsList b.destRoots, b.contains q root = false := by
      intro root configured
      cases contains : b.contains q root with
      | false => rfl
      | true =>
        have allowed := resolveAllowed_ok.mpr ⟨canonical, root, configured, contains⟩
        rw [allowed] at refused
        cases refused
    constructor
    · have nothing : (destRootsList b.destRoots).any (b.contains q) = false := by
        rw [List.any_eq_false]
        exact fun root mem => by simp [outside root mem]
      unfold Browser.resolveAllowed at refused
      rw [canonical] at refused
      simp only [nothing, Bool.false_eq_true, if_false] at refused
      cases refused
      rfl
    · cases real : b.fs.isDir (p ++ [e.name]) with
      | false => rfl
      | true =>
        obtain ⟨root, configured, top, resolved, inside⟩ := lists.inside
        have contains : b.contains q root = true := by
          refine contains_iff.mpr ⟨top, resolved, ?_⟩
          rw [self real]
          exact inside.trans (List.prefix_append p [e.name])
        rw [outside root configured] at contains
        cases contains

/-- Every directory under a root that no hidden name leads to is found. -/
theorem search_complete (named : Named b.fs) {root : PurePath} {top : Path} (read : root.Read)
    (configured : root ∈ destRootsList b.destRoots) (extant : b.existsAt root = true)
    (found : b.found root = some top) (rest : Path) (dir : b.fs.isDir (top ++ rest) = true)
    (visible : ∀ name ∈ rest, hidden name = false) :
    ∃ text l, Finds b text ∧ b.browse (some text) = .ok l ∧ Lists b (top ++ rest) l := by
  induction rest using List.reverseRecOn with
  | nil =>
    rw [List.append_nil] at dir ⊢
    have clean : root.parts.any nullByte = false := by
      unfold Browser.existsAt at extant
      simpa using (Bool.and_eq_true_iff.mp extant).1
    have canonical : b.resolved root = some top := resolved_of_found clean found
    have listed : (⟨root.str, root.str, true⟩ : BrowseEntry) ∈ b.topLevel.entries :=
      List.mem_map.mpr ⟨root, List.mem_filter.mpr ⟨configured, extant⟩, rfl⟩
    have finds : Finds b root.str := Finds.root (e := ⟨root.str, root.str, true⟩) rfl listed rfl
    have contains : b.contains top root = true :=
      contains_iff.mpr ⟨top, canonical, List.prefix_refl top⟩
    have allowed : b.resolveAllowed root.str = .ok top :=
      resolveAllowed_ok.mpr ⟨by rw [purePath_str read]; exact canonical, root, configured, contains⟩
    have nonempty : root.str ≠ "" := str_ne_empty read
    cases answer : b.browse (some root.str) with
    | error error =>
      rw [browse_error nonempty, allowed] at answer
      cases answer
    | ok l =>
      obtain ⟨place, resolved, lists⟩ := browse_lists nonempty answer
      rw [purePath_str read, canonical] at resolved
      obtain rfl : top = place := Option.some.inj resolved
      exact ⟨root.str, l, finds, answer, lists⟩
  | append_singleton rest name ih =>
    rw [← List.append_assoc] at dir ⊢
    obtain ⟨inode, here⟩ := Tree.isDir_iff.mp dir
    have parent : b.fs.isDir (top ++ rest) = true := Tree.isDir_parent here
    obtain ⟨text, l, finds, answer, lists⟩ :=
      ih parent fun other mem => visible other (by simp [mem])
    obtain ⟨proper, -, clean⟩ := named_path named here
    have shown : name ∈ l.entries.map BrowseEntry.name :=
      (lists.names parent name).mpr ⟨visible name (by simp), by rw [here]; rfl⟩
    obtain ⟨e, mem, rfl⟩ := List.mem_map.mp shown
    have leads : b.found (absolute (top ++ rest ++ [e.name])) = some (top ++ rest ++ [e.name]) :=
      found_dir proper dir
    have kind : e.isDir = true := by
      rw [lists.entry e mem]
      have parts : (absolute (top ++ rest ++ [e.name])).parts.any nullByte = false := clean
      unfold Browser.entryOf Browser.isDirAt
      dsimp only
      rw [leads, parts]
      exact dir
    rcases entry_browses named lists mem kind with ⟨-, link⟩ | ⟨q, l', answer', lists', -, self⟩
    · rw [dir] at link
      cases link
    · exact ⟨e.path, l', .deeper finds answer mem kind, answer', self dir ▸ lists'⟩

end Search

section Agreement
variable {b : Browser} {path : String} {resolved root : Path}

theorem clean_parts {text : String} (plain : forbidden text = false) :
    (purePath text).parts.any nullByte = false := by
  rw [forbidden_components] at plain
  rw [List.any_eq_false] at plain ⊢
  intro part mem null
  refine plain part (List.mem_filter.mp mem).1 ?_
  unfold nullByte at null
  exact List.any_eq_true.mpr ⟨'\x00', by simpa using null, by decide⟩

theorem accepted_browses
    (accepted : resolveWithRootBy (treeResolver b.fs) b.destRoots path = .ok (resolved, root)) :
    b.resolveAllowed path = .ok resolved := by
  obtain ⟨canonical, specific⟩ := resolveWithRootBy_ok accepted
  have plain : forbidden path = false ∧ (purePath path).isAbsolute = true := by
    unfold resolveWithRootBy at accepted
    cases control : forbidden path with
    | true => split at accepted <;> simp at accepted
    | false =>
      cases top : (purePath path).isAbsolute with
      | true => exact ⟨rfl, rfl⟩
      | false => split at accepted <;> simp [control, top] at accepted
  obtain ⟨text, configured, found⟩ := mem_canonicalRootsBy.mp specific.configured
  obtain ⟨top, control, resolves⟩ := canonicalRoot_eq_some.mp found
  have whole : ∀ {text : String} {place : Path}, (purePath text).isAbsolute = true →
      forbidden text = false → treeResolver b.fs (purePath text) = .ok place →
        b.resolved (purePath text) = some place := by
    intro text place absolute clean resolves
    rw [Browser.resolved, clean_parts clean, if_neg Bool.false_ne_true, Browser.fromTop,
      if_pos absolute]
    exact congrArg some (Except.ok.inj resolves)
  rw [forbidden_str top] at control
  refine resolveAllowed_ok.mpr ⟨whole plain.2 plain.1 canonical, purePath text, ?_, ?_⟩
  · exact List.mem_map_of_mem configured
  · exact contains_iff.mpr ⟨root, whole top control resolves, specific.inside⟩

end Agreement

namespace Sample

def volume : Tree :=
  ⟨⟨[⟨[], .dir 0⟩, ⟨["d"], .dir 1⟩, ⟨["d", "out"], .link true ["etc"]⟩, ⟨["d", "mail"], .dir 2⟩,
      ⟨["d", ".git"], .dir 3⟩, ⟨["etc"], .dir 4⟩], by decide⟩, by decide, by decide⟩

def browser : Browser := ⟨volume, ["etc"], "/d", id⟩

theorem volume_named : Named volume := by
  have clean : (volume.entries.rows.flatMap Entry.path).all (fun name =>
      name ≠ "" ∧ name ≠ "." ∧ name ≠ ".." ∧ !name.toList.contains '/' ∧ !nullByte name) := by
    decide +kernel
  intro e mem name inside
  have plain := List.all_eq_true.mp clean name (List.mem_flatMap.mpr ⟨e, mem, inside⟩)
  simp only [decide_eq_true_eq, Bool.not_eq_true', List.contains_eq_mem] at plain
  obtain ⟨nonempty, here, parent, single, clean⟩ := plain
  exact ⟨⟨nonempty, here, parent, by simpa using single⟩, clean⟩

end Sample

example : Sample.browser.answer (some "/d") = .listed ⟨some "/d", false,
    [⟨"mail", "/d/mail", true⟩, ⟨"out", "/d/out", true⟩]⟩ := by decide +kernel

example : Sample.browser.answer (some "/d/out") =
    .refused "/d/out is not inside an allowed destination root" := by decide +kernel

end Pullbackup
