import Pullbackup.Destination
import Pullbackup.Library.Text

/- The configured rsync roots as text, and the resolution of a destination against them
by any resolver. -/
namespace Pullbackup
open Filesystem Text

/-- A pathlib path: what it starts with and its parts, without the empty ones and ".". -/
structure PurePath where
  anchor : String
  parts : List String
  deriving DecidableEq, Repr

/-- Two slashes in front are kept as two, any other number is one. -/
def anchorOf (path : String) : String :=
  match path.toList with
  | '/' :: '/' :: '/' :: _ => "/"
  | '/' :: '/' :: _ => "//"
  | '/' :: _ => "/"
  | _ => ""

def purePath (path : String) : PurePath :=
  ⟨anchorOf path, (components path).filter fun part => part ≠ "" ∧ part ≠ "."⟩

def PurePath.isAbsolute (path : PurePath) : Bool := decide (path.anchor ≠ "")

def PurePath.str (path : PurePath) : String :=
  if path.anchor = "" ∧ path.parts = [] then "." else path.anchor ++ join '/' path.parts

/-- Path.resolve on one filesystem: a canonical path, or what it raises. -/
abbrev Resolver := PurePath → Except String Path

inductive ResolveError where
  | refused (error : DestinationError)
  | unresolvable (error : String)
  deriving DecidableEq, Repr

def ResolveError.message : ResolveError → String
  | .refused error => error.message ""
  | .unresolvable error => "destination path cannot be resolved: " ++ error

def destRootsList (destRoots : String) : List PurePath := (pieces ',' destRoots).map purePath

def canonicalRoot (resolver : Resolver) (root : PurePath) : Option Path :=
  if !root.isAbsolute then none
  else if forbidden root.str then none
  else (resolver root).toOption

def canonicalRootsBy (resolver : Resolver) (destRoots : String) : List Path :=
  (destRootsList destRoots).filterMap (canonicalRoot resolver)

def resolveWithRootBy (resolver : Resolver) (destRoots path : String) :
    Except ResolveError (Path × Path) :=
  if path = "" then .error (.refused .empty)
  else if forbidden path then .error (.refused .controlCharacters)
  else if !(purePath path).isAbsolute then .error (.refused .relative)
  else
    match resolver (purePath path) with
    | .error error => .error (.unresolvable error)
    | .ok resolved =>
      let containing := (canonicalRootsBy resolver destRoots).filter fun root =>
        root.isPrefixOf resolved
      match containing.argmax List.length with
      | none => .error (.refused (.outside path))
      | some root => .ok (resolved, root)

section Tree
variable {fs : Tree} {path : String}

def treeResolver (fs : Tree) : Resolver := fun path => .ok (resolve fs path.parts)

theorem purePath_isAbsolute (path : String) : (purePath path).isAbsolute = isAbsolute path := by
  unfold PurePath.isAbsolute purePath anchorOf isAbsolute
  split
  · rename_i three
    simp [three]
  · rename_i two
    simp [two]
  · rename_i one
    simp [one]
  · rename_i other
    cases letters : path.toList with
    | nil => simp
    | cons c rest =>
      have first : c ≠ '/' := fun slash => other rest (slash ▸ letters)
      simp [first]

theorem forbidden_components (path : String) : forbidden path = (components path).any forbidden := by
  have letters : (join '/' (components path)).toList.any _ = (components path).any forbidden :=
    any_join (by decide) (components path)
  have whole : join '/' (components path) = path := join_split path
  rw [whole] at letters
  exact letters

theorem forbidden_anchor (path : String) : forbidden (anchorOf path) = false := by
  unfold anchorOf
  split <;> decide +kernel

theorem forbidden_str (absolute : (purePath path).isAbsolute = true) :
    forbidden (purePath path).str = forbidden path := by
  have anchored : (purePath path).anchor ≠ "" := by simpa [PurePath.isAbsolute] using absolute
  have blank : forbidden "" = false := by decide +kernel
  have dot : forbidden "." = false := by decide +kernel
  have kept : ((components path).filter fun part => part ≠ "" ∧ part ≠ ".").any forbidden =
      (components path).any forbidden := by
    rw [List.any_filter]
    congr 1
    funext part
    by_cases empty : part = ""
    · simp [empty, blank]
    · by_cases here : part = "."
      · simp [here, dot]
      · simp [empty, here]
  have text : forbidden (purePath path).str =
      (forbidden (anchorOf path) || (purePath path).parts.any forbidden) := by
    unfold PurePath.str
    rw [if_neg (by simp [anchored])]
    unfold forbidden
    rw [String.toList_append, List.any_append, any_join (by decide)]
    rfl
  rw [text, forbidden_anchor, Bool.false_or, forbidden_components]
  exact kept

theorem canonicalRootsBy_tree (fs : Tree) (destRoots : String) :
    canonicalRootsBy (treeResolver fs) destRoots = canonicalRoots fs (pieces ',' destRoots) := by
  unfold canonicalRootsBy destRootsList canonicalRoots
  induction pieces ',' destRoots with
  | nil => rfl
  | cons text rest ih =>
    have resolves : treeResolver fs (purePath text) = .ok (resolve fs (components text)) :=
      congrArg Except.ok (resolve_thinned fs (components text))
    rw [List.map_cons, List.filterMap_cons, ih]
    unfold canonicalRoot
    rw [resolves]
    cases absolute : (purePath text).isAbsolute with
    | false =>
      rw [purePath_isAbsolute] at absolute
      simp [absolute]
    | true =>
      rw [forbidden_str absolute]
      rw [purePath_isAbsolute] at absolute
      cases control : forbidden text <;> simp [absolute, control, Except.toOption]

theorem resolveWithRootBy_tree (fs : Tree) (destRoots path : String) :
    resolveWithRootBy (treeResolver fs) destRoots path =
      (resolveWithRoot fs (pieces ',' destRoots) path).mapError .refused := by
  have resolves : treeResolver fs (purePath path) = .ok (resolve fs (components path)) :=
    congrArg Except.ok (resolve_thinned fs (components path))
  unfold resolveWithRootBy resolveWithRoot
  rw [resolves, canonicalRootsBy_tree, purePath_isAbsolute]
  split
  · rfl
  · split
    · rfl
    · split
      · rfl
      · simp only
        cases ((canonicalRoots fs (pieces ',' destRoots)).filter fun root =>
          root.isPrefixOf (resolve fs (components path))).argmax List.length with
        | none => rfl
        | some root => rfl

end Tree

section Declared
variable {resolver : Resolver} {declared other path : String} {resolved root : Path}

/-- The same roots between the commas, in any order and any number of times, with any blanks
    around them and any empty items between them. -/
def SameRoots (declared other : String) : Prop :=
  ∀ root, root ∈ pieces ',' declared ↔ root ∈ pieces ',' other

theorem mem_canonicalRootsBy : root ∈ canonicalRootsBy resolver declared ↔
    ∃ text ∈ pieces ',' declared, canonicalRoot resolver (purePath text) = some root := by
  simp [canonicalRootsBy, destRootsList]

theorem canonicalRoot_eq_some {text : PurePath} : canonicalRoot resolver text = some root ↔
    text.isAbsolute = true ∧ forbidden text.str = false ∧ resolver text = .ok root := by
  unfold canonicalRoot
  cases text.isAbsolute <;> cases forbidden text.str <;> cases resolver text <;>
    simp [Except.toOption]

theorem SameRoots.canonical (same : SameRoots declared other) :
    root ∈ canonicalRootsBy resolver declared ↔ root ∈ canonicalRootsBy resolver other := by
  simp only [mem_canonicalRootsBy, same _]

theorem deepest_unique {left right : Path} (inside : left <+: resolved)
    (inside' : right <+: resolved) (long : left.length = right.length) : left = right :=
  (List.prefix_of_prefix_length_le inside inside' long.le).eq_of_length long

/-- The most specific root is one of those that contain the destination, and the deepest. -/
structure MostSpecific (roots : List Path) (resolved root : Path) : Prop where
  configured : root ∈ roots
  inside : root <+: resolved
  deepest : ∀ wider ∈ roots, wider <+: resolved → wider.length ≤ root.length

theorem argmax_mostSpecific {roots : List Path}
    (found : (roots.filter fun root => root.isPrefixOf resolved).argmax List.length = some root) :
    MostSpecific roots resolved root := by
  obtain ⟨mem, inside⟩ := List.mem_filter.mp (List.argmax_mem found)
  refine ⟨mem, List.isPrefixOf_iff_prefix.mp inside, ?_⟩
  intro wider configured contains
  have listed : wider ∈ roots.filter fun root => root.isPrefixOf resolved :=
    List.mem_filter.mpr ⟨configured, List.isPrefixOf_iff_prefix.mpr contains⟩
  exact List.le_of_mem_argmax listed found

theorem MostSpecific.unique {roots : List Path} {left right : Path}
    (one : MostSpecific roots resolved left) (two : MostSpecific roots resolved right) :
    left = right := by
  apply deepest_unique one.inside two.inside
  exact Nat.le_antisymm (two.deepest left one.configured one.inside)
    (one.deepest right two.configured two.inside)

theorem argmax_congr {roots others : List Path} (same : ∀ root, root ∈ roots ↔ root ∈ others) :
    (roots.filter fun root => root.isPrefixOf resolved).argmax List.length =
      (others.filter fun root => root.isPrefixOf resolved).argmax List.length := by
  cases one : (roots.filter fun root => root.isPrefixOf resolved).argmax List.length with
  | none =>
    have empty := List.argmax_eq_none.mp one
    symm
    apply List.argmax_eq_none.mpr
    rw [List.filter_eq_nil_iff] at empty ⊢
    exact fun root mem => empty root ((same root).mpr mem)
  | some left =>
    have first := argmax_mostSpecific one
    cases two : (others.filter fun root => root.isPrefixOf resolved).argmax List.length with
    | none =>
      have empty := List.argmax_eq_none.mp two
      rw [List.filter_eq_nil_iff] at empty
      exact absurd (List.isPrefixOf_iff_prefix.mpr first.inside)
        (empty left ((same left).mp first.configured))
    | some right =>
      have second := argmax_mostSpecific two
      have moved : MostSpecific roots resolved right :=
        ⟨(same right).mpr second.configured, second.inside,
          fun wider mem => second.deepest wider ((same wider).mp mem)⟩
      rw [first.unique moved]

theorem resolveWithRootBy_ok (found : resolveWithRootBy resolver declared path = .ok (resolved, root)) :
    resolver (purePath path) = .ok resolved ∧
      MostSpecific (canonicalRootsBy resolver declared) resolved root := by
  simp only [resolveWithRootBy] at found
  split at found
  · cases found
  · split at found
    · cases found
    · split at found
      · cases found
      · split at found
        · cases found
        · rename_i canonical
          split at found
          · cases found
          · rename_i specific
            cases found
            exact ⟨canonical, argmax_mostSpecific specific⟩

/-- The roots enter only through which of them there are. -/
theorem resolveWithRootBy_congr (same : SameRoots declared other) :
    resolveWithRootBy resolver declared path = resolveWithRootBy resolver other path := by
  unfold resolveWithRootBy
  cases resolver (purePath path) with
  | error error => rfl
  | ok resolved =>
    simp only
    rw [argmax_congr fun root => same.canonical]

/-- However the roots are declared, a path is refused or resolves to the same path under the
    same root, which is the canonical form of the deepest absolute root that contains it. -/
theorem resolution_ignores_declaration (resolver : Resolver) (destRoots path : String) :
    (∀ other, SameRoots destRoots other →
      ((∃ error, resolveWithRootBy resolver destRoots path = .error error) ∧
          (∃ error, resolveWithRootBy resolver other path = .error error)) ∨
        ∃ found, resolveWithRootBy resolver destRoots path = .ok found ∧
          resolveWithRootBy resolver other path = .ok found) ∧
      ∀ resolved root, resolveWithRootBy resolver destRoots path = .ok (resolved, root) →
        (∃ text ∈ pieces ',' destRoots, (purePath text).isAbsolute = true ∧
          resolver (purePath text) = .ok root) ∧
        root <+: resolved ∧
        ∀ deeper ∈ canonicalRootsBy resolver destRoots, deeper <+: resolved →
          deeper.length ≤ root.length := by
  constructor
  · intro other same
    have alike : resolveWithRootBy resolver destRoots path = resolveWithRootBy resolver other path :=
      resolveWithRootBy_congr same
    cases verdict : resolveWithRootBy resolver destRoots path with
    | error error => exact Or.inl ⟨⟨error, rfl⟩, error, alike ▸ verdict⟩
    | ok found => exact Or.inr ⟨found, rfl, alike ▸ verdict⟩
  · intro resolved root found
    obtain ⟨-, specific⟩ := resolveWithRootBy_ok found
    obtain ⟨text, mem, canonical⟩ := mem_canonicalRootsBy.mp specific.configured
    obtain ⟨absolute, -, resolves⟩ := canonicalRoot_eq_some.mp canonical
    exact ⟨⟨text, mem, absolute, resolves⟩, specific.inside, specific.deepest⟩

end Declared

end Pullbackup
