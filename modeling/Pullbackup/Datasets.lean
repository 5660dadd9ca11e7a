import Pullbackup.Concurrency
import Pullbackup.Library.Text

/- The ZFS datasets a task may write to: the dataset grammar, the configured roots
   and validate_zfs_destination. -/
namespace Pullbackup
open Text

inductive ZfsDestinationError where
  | invalidName
  | notConfigured
  | invalidRoot
  | outside
  deriving DecidableEq, Repr

def ZfsDestinationError.message : ZfsDestinationError → String
  | .invalidName => "ZFS destination has an invalid dataset name"
  | .notConfigured => "ZFS destination roots are not configured"
  | .invalidRoot => "ZFS destination root configuration is invalid"
  | .outside => "ZFS destination is outside configured roots"

def datasetCharacter (c : Char) : Bool := c.isAlphanum || ['_', '.', ':', '%', '-'].contains c

def matchDataset : Bool → List Char → Bool
  | inside, [] => inside
  | false, c :: rest => c.isAlphanum && matchDataset true rest
  | true, c :: rest =>
    if c = '/' then matchDataset false rest else datasetCharacter c && matchDataset true rest

def zfsDataset (name : String) : Bool := matchDataset false name.toList

def zfsRoot (value : String) : String := stripBy (· = '/') (strip value)

def zfsDestRootsList (zfsDestRoots : String) : List String :=
  ((split ',' zfsDestRoots).map zfsRoot).filter (· ≠ "")

def below (root dataset : String) : Bool :=
  (root ++ String.singleton '/').toList.isPrefixOf dataset.toList

def firstRoot (dataset : String) : List String → Except ZfsDestinationError String
  | [] => .error .outside
  | root :: rest =>
    if !zfsDataset root then .error .invalidRoot
    else if below root dataset then .ok dataset
    else firstRoot dataset rest

def validateZfsDestination (zfsDestRoots dataset : String) : Except ZfsDestinationError String :=
  if !zfsDataset dataset then .error .invalidName
  else if zfsDestRootsList zfsDestRoots = [] then .error .notConfigured
  else firstRoot dataset (zfsDestRootsList zfsDestRoots)

def zfsDestinationKey (zfsDestRoots dataset : String) : Except ZfsDestinationError DestKey :=
  (validateZfsDestination zfsDestRoots dataset).map fun name => "zfs" :: split '/' name

section Grammar

def datasetComponent : List Char → Bool
  | [] => false
  | first :: rest => first.isAlphanum && rest.all datasetCharacter

theorem matchDataset_components (text : List Char) :
    matchDataset false text = (text.splitOn '/').all datasetComponent ∧
      ∀ first rest, text.splitOn '/' = first :: rest →
        matchDataset true text = (first.all datasetCharacter && rest.all datasetComponent) := by
  induction text with
  | nil =>
    refine ⟨rfl, ?_⟩
    intro first rest parts
    cases parts
    rfl
  | cons c text ih =>
    obtain ⟨between, inside⟩ := ih
    have parts := List.splitOn_cons_eq_if_modifyHead (a := '/') c text
    by_cases slash : c = '/'
    · subst slash
      rw [if_pos (by simp)] at parts
      rw [parts]
      refine ⟨by simp [matchDataset, datasetComponent], ?_⟩
      intro first rest same
      cases same
      simp [matchDataset, between]
    · rw [if_neg (by simpa using slash)] at parts
      cases later : text.splitOn '/' with
      | nil => exact absurd later (List.splitOn_ne_nil '/' text)
      | cons front rest =>
        rw [later, List.modifyHead_cons] at parts
        have goesOn := inside front rest later
        rw [parts]
        refine ⟨by simp [matchDataset, datasetComponent, goesOn, Bool.and_assoc], ?_⟩
        intro first others same
        cases same
        simp [matchDataset, slash, goesOn, Bool.and_assoc]

theorem zfsDataset_components (name : String) :
    zfsDataset name = (split '/' name).all fun part => datasetComponent part.toList := by
  unfold zfsDataset split
  rw [(matchDataset_components name.toList).1, List.all_map]
  simp only [Function.comp_def, String.toList_ofList]

theorem below_iff {root dataset : String} : below root dataset = true ↔
    split '/' root <+: split '/' dataset ∧ root ≠ dataset := by
  rw [split_strict_prefix_iff]
  exact List.isPrefixOf_iff_prefix

end Grammar

section Validation
variable {zfsDestRoots other dataset : String}

theorem firstRoot_ok {roots : List String} {found : String}
    (passed : firstRoot dataset roots = .ok found) :
    found = dataset ∧ ∃ root ∈ roots, zfsDataset root = true ∧ below root dataset = true := by
  induction roots with
  | nil => cases passed
  | cons root rest ih =>
    simp only [firstRoot] at passed
    split at passed
    · cases passed
    · rename_i valid
      split at passed
      · rename_i inside
        cases passed
        exact ⟨rfl, root, List.mem_cons_self, by simpa using valid, inside⟩
      · obtain ⟨same, root', mem, found⟩ := ih passed
        exact ⟨same, root', List.mem_cons_of_mem _ mem, found⟩

theorem firstRoot_clean {roots : List String} (clean : ∀ root ∈ roots, zfsDataset root = true)
    {root : String} (mem : root ∈ roots) (inside : below root dataset = true) :
    firstRoot dataset roots = .ok dataset := by
  induction roots with
  | nil => cases mem
  | cons first rest ih =>
    simp only [firstRoot, clean first List.mem_cons_self, Bool.not_true, Bool.false_eq_true,
      if_false]
    split
    · rfl
    · rename_i outside
      obtain rfl | later := List.mem_cons.mp mem
      · exact absurd inside outside
      · exact ih (fun r found => clean r (List.mem_cons_of_mem _ found)) later

theorem validateZfsDestination_ok {found : String}
    (passed : validateZfsDestination zfsDestRoots dataset = .ok found) :
    found = dataset ∧ zfsDataset dataset = true ∧
      ∃ root ∈ zfsDestRootsList zfsDestRoots, zfsDataset root = true ∧
        below root dataset = true := by
  unfold validateZfsDestination at passed
  split at passed
  · cases passed
  · rename_i valid
    split at passed
    · cases passed
    · obtain ⟨same, inside⟩ := firstRoot_ok passed
      exact ⟨same, by simpa using valid, inside⟩

end Validation

section Declaration
variable {zfsDestRoots other dataset : String}

def zfsAccepts (zfsDestRoots dataset : String) : Bool :=
  (validateZfsDestination zfsDestRoots dataset).isOk

def Rearranged (declared other : String) : Prop :=
  ∀ item, item ∈ split ',' declared ↔ item ∈ split ',' other

/-- A dataset of the grammar that some root contains while another root is malformed. -/
def MixedRoots (zfsDestRoots dataset : String) : Prop :=
  zfsDataset dataset = true ∧
    (∃ root ∈ zfsDestRootsList zfsDestRoots, zfsDataset root = false) ∧
    ∃ root ∈ zfsDestRootsList zfsDestRoots, zfsDataset root = true ∧ below root dataset = true

/-- What a declaration of the roots promises of a dataset, however it is written. -/
structure DeclarationBlind (zfsDestRoots dataset : String) : Prop where
  verdict : ∀ other, Rearranged zfsDestRoots other →
    zfsAccepts other dataset = zfsAccepts zfsDestRoots dataset
  grammar : zfsAccepts zfsDestRoots dataset = true → zfsDataset dataset = true
  descendant : zfsAccepts zfsDestRoots dataset = true →
    ∃ root ∈ zfsDestRootsList zfsDestRoots,
      split '/' root <+: split '/' dataset ∧ root ≠ dataset
  keys : ∀ other dataset' key key', zfsDestinationKey zfsDestRoots dataset = .ok key →
    zfsDestinationKey other dataset' = .ok key' →
    (conflicts key key' = true ↔ dataset = dataset' ∨
      (split '/' dataset <+: split '/' dataset' ∧ dataset ≠ dataset') ∨
      (split '/' dataset' <+: split '/' dataset ∧ dataset' ≠ dataset))

theorem mem_zfsDestRootsList {root : String} : root ∈ zfsDestRootsList zfsDestRoots ↔
    root ≠ "" ∧ ∃ item ∈ split ',' zfsDestRoots, zfsRoot item = root := by
  simp only [zfsDestRootsList, List.mem_filter, List.mem_map, decide_eq_true_eq]
  exact and_comm

theorem Rearranged.roots (same : Rearranged zfsDestRoots other) (root : String) :
    root ∈ zfsDestRootsList zfsDestRoots ↔ root ∈ zfsDestRootsList other := by
  simp only [mem_zfsDestRootsList, same _]

theorem zfsAccepts_ok (accepted : zfsAccepts zfsDestRoots dataset = true) :
    validateZfsDestination zfsDestRoots dataset = .ok dataset := by
  unfold zfsAccepts at accepted
  cases verdict : validateZfsDestination zfsDestRoots dataset with
  | error error =>
    rw [verdict] at accepted
    cases accepted
  | ok found => rw [(validateZfsDestination_ok verdict).1]

/-- Without malformed roots, or without a root that contains it, what decides on a dataset is
    which roots there are. -/
theorem zfsAccepts_iff (apart : ¬ MixedRoots zfsDestRoots dataset) :
    zfsAccepts zfsDestRoots dataset = true ↔ zfsDataset dataset = true ∧
      ∃ root ∈ zfsDestRootsList zfsDestRoots, zfsDataset root = true ∧
        below root dataset = true := by
  constructor
  · intro accepted
    exact (validateZfsDestination_ok (zfsAccepts_ok accepted)).2
  · rintro ⟨valid, root, mem, covers⟩
    have clean : ∀ r ∈ zfsDestRootsList zfsDestRoots, zfsDataset r = true := by
      intro r found
      by_contra malformed
      exact apart ⟨valid, ⟨r, found, by simpa using malformed⟩, root, mem, covers⟩
    have passed := firstRoot_clean clean mem covers.2
    have configured : zfsDestRootsList zfsDestRoots ≠ [] := List.ne_nil_of_mem mem
    unfold zfsAccepts validateZfsDestination
    rw [if_neg (by simp [valid]), if_neg configured, passed]
    rfl

theorem Rearranged.mixed (same : Rearranged zfsDestRoots other) :
    MixedRoots zfsDestRoots dataset ↔ MixedRoots other dataset := by
  simp only [MixedRoots, same.roots]

theorem rearranged_first {item : String} (mem : item ∈ split ',' zfsDestRoots)
    (nonempty : zfsRoot item ≠ "") : ∃ other, Rearranged zfsDestRoots other ∧
      ∃ rest, zfsDestRootsList other = zfsRoot item :: rest := by
  have items : ∀ part ∈ item :: split ',' zfsDestRoots, part ∈ split ',' zfsDestRoots := by
    intro part cut
    obtain rfl | later := List.mem_cons.mp cut
    · exact mem
    · exact later
  have parts : split ',' (join ',' (item :: split ',' zfsDestRoots)) =
      item :: split ',' zfsDestRoots := split_join_parts (List.cons_ne_nil _ _) items
  refine ⟨join ',' (item :: split ',' zfsDestRoots), ?_, ?_⟩
  · intro part
    rw [parts, List.mem_cons]
    constructor
    · exact Or.inr
    · rintro (rfl | cut)
      · exact mem
      · exact cut
  · refine ⟨zfsDestRootsList zfsDestRoots, ?_⟩
    unfold zfsDestRootsList
    rw [parts, List.map_cons, List.filter_cons_of_pos (by simpa using nonempty)]

/-- Under mixed roots the order decides. -/
theorem MixedRoots.verdicts (mixed : MixedRoots zfsDestRoots dataset) :
    ∃ refusing accepting, Rearranged zfsDestRoots refusing ∧ Rearranged zfsDestRoots accepting ∧
      zfsAccepts refusing dataset = false ∧ zfsAccepts accepting dataset = true := by
  obtain ⟨valid, ⟨bad, badMem, malformed⟩, good, goodMem, wellFormed, inside⟩ := mixed
  obtain ⟨badSome, badItem, badCut, rfl⟩ := mem_zfsDestRootsList.mp badMem
  obtain ⟨goodSome, goodItem, goodCut, rfl⟩ := mem_zfsDestRootsList.mp goodMem
  obtain ⟨refusing, refusingSame, refusingRest, badFirst⟩ := rearranged_first badCut badSome
  obtain ⟨accepting, acceptingSame, acceptingRest, goodFirst⟩ :=
    rearranged_first goodCut goodSome
  refine ⟨refusing, accepting, refusingSame, acceptingSame, ?_, ?_⟩
  · simp [zfsAccepts, validateZfsDestination, valid, badFirst, firstRoot, malformed, Except.isOk,
      Except.toBool]
  · simp [zfsAccepts, validateZfsDestination, valid, goodFirst, firstRoot, wellFormed, inside,
      Except.isOk, Except.toBool]

theorem zfsDestinationKey_ok {key : DestKey}
    (keyed : zfsDestinationKey zfsDestRoots dataset = .ok key) :
    key = "zfs" :: split '/' dataset := by
  unfold zfsDestinationKey at keyed
  cases verdict : validateZfsDestination zfsDestRoots dataset with
  | error error =>
    rw [verdict] at keyed
    cases keyed
  | ok found =>
    rw [verdict] at keyed
    cases keyed
    rw [(validateZfsDestination_ok verdict).1]

theorem datasets_conflict_iff (left right : String) :
    conflicts ("zfs" :: split '/' left) ("zfs" :: split '/' right) = true ↔ left = right ∨
      (split '/' left <+: split '/' right ∧ left ≠ right) ∨
      (split '/' right <+: split '/' left ∧ right ≠ left) := by
  rw [conflicts_iff, List.cons_prefix_cons, List.cons_prefix_cons]
  by_cases same : left = right
  · simp [same]
  · have apart : right ≠ left := fun eq => same eq.symm
    simp [same, apart]

/-- A dataset is judged without regard to how the roots are declared exactly when it is not
    under a root that is declared beside a malformed one. -/
theorem declarationBlind_iff (zfsDestRoots dataset : String) :
    DeclarationBlind zfsDestRoots dataset ↔ ¬ MixedRoots zfsDestRoots dataset := by
  constructor
  · intro blind mixed
    obtain ⟨refusing, accepting, refusingSame, acceptingSame, refused, accepted⟩ := mixed.verdicts
    have one := blind.verdict refusing refusingSame
    have two := blind.verdict accepting acceptingSame
    rw [refused] at one
    rw [accepted, ← one] at two
    cases two
  · intro apart
    constructor
    · intro other same
      have apart' : ¬ MixedRoots other dataset := fun mixed => apart (same.mixed.mpr mixed)
      rw [Bool.eq_iff_iff, zfsAccepts_iff apart, zfsAccepts_iff apart']
      simp only [same.roots]
    · intro accepted
      exact (validateZfsDestination_ok (zfsAccepts_ok accepted)).2.1
    · intro accepted
      obtain ⟨_, _, root, mem, _, inside⟩ := validateZfsDestination_ok (zfsAccepts_ok accepted)
      exact ⟨root, mem, below_iff.mp inside⟩
    · intro other dataset' key key' mine theirs
      rw [zfsDestinationKey_ok mine, zfsDestinationKey_ok theirs]
      exact datasets_conflict_iff dataset dataset'

/-- A malformed root is noticed when it is declared first and not when it is last. -/
theorem malformed_root_order : Rearranged "tank,tank backups" "tank backups,tank" ∧
    zfsAccepts "tank,tank backups" "tank/photos" = true ∧
    zfsAccepts "tank backups,tank" "tank/photos" = false ∧
    ¬ DeclarationBlind "tank,tank backups" "tank/photos" := by
  have declared : split ',' "tank,tank backups" = ["tank", "tank backups"] := by decide +kernel
  have swapped : split ',' "tank backups,tank" = ["tank backups", "tank"] := by decide +kernel
  have same : Rearranged "tank,tank backups" "tank backups,tank" := by
    intro item
    rw [declared, swapped]
    simp only [List.mem_cons, List.not_mem_nil, or_false]
    exact or_comm
  have accepted : zfsAccepts "tank,tank backups" "tank/photos" = true := by decide +kernel
  have refused : zfsAccepts "tank backups,tank" "tank/photos" = false := by decide +kernel
  refine ⟨same, accepted, refused, ?_⟩
  intro blind
  have alike := blind.verdict "tank backups,tank" same
  rw [accepted, refused] at alike
  cases alike

end Declaration

end Pullbackup
