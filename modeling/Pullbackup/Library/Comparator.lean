import Mathlib.Data.List.Nodup
import Mathlib.Order.Lattice

/- Comparators, integers of which only the sign counts, and the order of a table of rows
by a key that some rows lack. -/
namespace Comparator

universe u v
variable {α : Type u} {ρ : Type v}

/-- The signs come from a total preorder. -/
structure Lawful (cmp : α → α → Int) : Prop where
  swap : ∀ a b, 0 < cmp a b ↔ cmp b a < 0
  trans : ∀ a b c, cmp a b ≤ 0 → cmp b c ≤ 0 → cmp a c ≤ 0

def onto (f : ρ → α) (cmp : α → α → Int) (a b : ρ) : Int := cmp (f a) (f b)

def scaled (sign : Int) (cmp : α → α → Int) (a b : α) : Int := cmp a b * sign

def difference (a b : Int) : Int := a - b

def nullsLast (cmp : α → α → Int) : Option α → Option α → Int
  | none, none => 0
  | none, some _ => 1
  | some _, none => -1
  | some a, some b => cmp a b

/-- The second comparator decides where the first sees no difference. -/
def thenBy (first second : α → α → Int) (a b : α) : Int :=
  if first a b ≠ 0 then first a b else second a b

def ofOrder [LinearOrder α] (a b : α) : Int :=
  match compare a b with
  | .lt => -1
  | .eq => 0
  | .gt => 1

section Lawful
variable {cmp first second : α → α → Int} {a b c : α}

theorem Lawful.zero_comm (lawful : Lawful cmp) : cmp a b = 0 ↔ cmp b a = 0 := by
  have ahead := lawful.swap a b
  have behind := lawful.swap b a
  omega

theorem Lawful.lt_of_lt_of_le (lawful : Lawful cmp) (less : cmp a b < 0) (le : cmp b c ≤ 0) :
    cmp a c < 0 := by
  have below := lawful.trans a b c (by omega) le
  -- were they equal, b would come before a
  have back : cmp c a ≤ 0 → cmp b a ≤ 0 := lawful.trans b c a le
  have ahead := lawful.swap b a
  have behind := lawful.swap c a
  omega

theorem Lawful.lt_of_le_of_lt (lawful : Lawful cmp) (le : cmp a b ≤ 0) (less : cmp b c < 0) :
    cmp a c < 0 := by
  have below := lawful.trans a b c le (by omega)
  have back : cmp c a ≤ 0 → cmp c b ≤ 0 := fun known => lawful.trans c a b known le
  have ahead := lawful.swap c b
  have behind := lawful.swap c a
  omega

theorem Lawful.zero_trans (lawful : Lawful cmp) (left : cmp a b = 0) (right : cmp b c = 0) :
    cmp a c = 0 := by
  have below := lawful.trans a b c (by omega) (by omega)
  have back := lawful.trans c b a (by have := lawful.zero_comm.mp right; omega)
    (by have := lawful.zero_comm.mp left; omega)
  have ahead := lawful.swap c a
  omega

theorem Lawful.along (lawful : Lawful cmp) (f : ρ → α) : Lawful (onto f cmp) := by
  constructor
  · intro a b
    exact lawful.swap (f a) (f b)
  · intro a b c
    exact lawful.trans (f a) (f b) (f c)

theorem lawful_difference : Lawful difference := by
  constructor
  · intro a b
    simp only [difference]
    omega
  · intro a b c
    simp only [difference]
    omega

theorem ofOrder_neg [LinearOrder α] : ofOrder a b < 0 ↔ a < b := by
  have known : a < b ↔ compare a b = .lt := compare_lt_iff_lt.symm
  rw [known]
  unfold ofOrder
  cases compare a b with
  | lt => simp
  | eq => simp
  | gt => simp

theorem ofOrder_pos [LinearOrder α] : 0 < ofOrder a b ↔ b < a := by
  have known : b < a ↔ compare a b = .gt := compare_gt_iff_gt.symm
  rw [known]
  unfold ofOrder
  cases compare a b with
  | lt => simp
  | eq => simp
  | gt => simp

theorem lawful_ofOrder [LinearOrder α] : Lawful (ofOrder : α → α → Int) := by
  constructor
  · intro a b
    rw [ofOrder_pos, ofOrder_neg]
  · intro a b c
    have nonpos : ∀ x y : α, ofOrder x y ≤ 0 ↔ ¬ y < x := by
      intro x y
      rw [← ofOrder_pos]
      omega
    simp only [nonpos, not_lt]
    exact le_trans

theorem Lawful.signed (lawful : Lawful cmp) {sign : Int} (unit : sign = 1 ∨ sign = -1) :
    Lawful (scaled sign cmp) := by
  unfold scaled
  rcases unit with rfl | rfl
  · simpa using lawful
  · constructor
    · intro a b
      have behind := lawful.swap b a
      omega
    · intro a b c left right
      have ahead := lawful.swap b a
      have behind := lawful.swap c b
      have whole := lawful.swap a c
      have back := lawful.trans c b a
      have last := lawful.swap c a
      omega

theorem Lawful.withNulls (lawful : Lawful cmp) : Lawful (nullsLast cmp) := by
  constructor
  · intro a b
    cases a with
    | none => cases b <;> simp [nullsLast]
    | some a =>
      cases b with
      | none => simp [nullsLast]
      | some b => exact lawful.swap a b
  · intro a b c left right
    cases a with
    | none =>
      cases b with
      | none => exact right
      | some b => simp [nullsLast] at left
    | some a =>
      cases c with
      | none => simp [nullsLast]
      | some c =>
        cases b with
        | none => simp [nullsLast] at right
        | some b => exact lawful.trans a b c left right

theorem thenBy_nonpos : thenBy first second a b ≤ 0 ↔
    first a b < 0 ∨ first a b = 0 ∧ second a b ≤ 0 := by
  unfold thenBy
  split
  · omega
  · omega

theorem thenBy_zero : thenBy first second a b = 0 ↔ first a b = 0 ∧ second a b = 0 := by
  unfold thenBy
  split
  · omega
  · omega

theorem Lawful.refined (lawful : Lawful first) (tie : Lawful second) :
    Lawful (thenBy first second) := by
  constructor
  · intro a b
    have ahead := lawful.swap a b
    have behind := lawful.swap b a
    have tied := tie.swap a b
    unfold thenBy
    split
    · split
      · omega
      · omega
    · split
      · omega
      · omega
  · intro a b c left right
    rw [thenBy_nonpos] at left right ⊢
    rcases left with less | ⟨equal, below⟩
    · rcases right with next | ⟨same, -⟩
      · exact Or.inl (lawful.lt_of_lt_of_le less (by omega))
      · exact Or.inl (lawful.lt_of_lt_of_le less (by omega))
    · rcases right with next | ⟨same, under⟩
      · exact Or.inl (lawful.lt_of_le_of_lt (by omega) next)
      · exact Or.inr ⟨lawful.zero_trans equal same, tie.trans a b c below under⟩

end Lawful

section Sorting
variable {cmp : ρ → ρ → Int} {l m : List ρ}

def sort (cmp : ρ → ρ → Int) (l : List ρ) : List ρ := l.mergeSort fun a b => decide (cmp a b ≤ 0)

def Ordered (cmp : ρ → ρ → Int) (l : List ρ) : Prop := l.Pairwise fun a b => cmp a b ≤ 0

theorem sort_perm (cmp : ρ → ρ → Int) (l : List ρ) : (sort cmp l).Perm l := List.mergeSort_perm l _

theorem Lawful.sort_ordered (lawful : Lawful cmp) (l : List ρ) : Ordered cmp (sort cmp l) := by
  have sorted : (sort cmp l).Pairwise fun a b => decide (cmp a b ≤ 0) = true := by
    apply List.pairwise_mergeSort
    · intro a b c left right
      exact decide_eq_true (lawful.trans a b c (of_decide_eq_true left) (of_decide_eq_true right))
    · intro a b
      have ahead := lawful.swap a b
      simp only [Bool.or_eq_true, decide_eq_true_eq]
      omega
  simpa only [Ordered, decide_eq_true_eq] using sorted

/-- Two rows of the list never compare equal. -/
def Separates (cmp : ρ → ρ → Int) (l : List ρ) : Prop := ∀ a ∈ l, ∀ b ∈ l, cmp a b = 0 → a = b

/-- There is one order of rows that the comparator tells apart. -/
theorem Lawful.ordered_unique (lawful : Lawful cmp) (separates : Separates cmp l)
    (first : Ordered cmp l) (second : Ordered cmp m) (perm : m.Perm l) : m = l := by
  refine @List.Perm.eq_of_pairwise _ (fun a b => cmp a b ≤ 0) m l ?_ second first perm
  intro a b left right ahead behind
  have known := lawful.swap b a
  exact separates a (perm.mem_iff.mp left) b right (by omega)

theorem Separates.of_perm (separates : Separates cmp l) (perm : m.Perm l) : Separates cmp m := by
  intro a left b right
  exact separates a (perm.mem_iff.mp left) b (perm.mem_iff.mp right)

theorem Lawful.sort_unique (lawful : Lawful cmp) (separates : Separates cmp l)
    (ordered : Ordered cmp m) (perm : m.Perm l) : sort cmp l = m := by
  apply lawful.ordered_unique (separates.of_perm perm) ordered (lawful.sort_ordered l)
  exact (sort_perm cmp l).trans perm.symm

theorem Lawful.sort_congr (lawful : Lawful cmp) (separates : Separates cmp l) (perm : m.Perm l) :
    sort cmp m = sort cmp l := by
  apply lawful.sort_unique (separates.of_perm perm) (lawful.sort_ordered l)
  exact (sort_perm cmp l).trans perm.symm

/-- Groups of rows that compare equal, each before all of the next. -/
structure Classes (cmp : ρ → ρ → Int) (groups : List (List ρ)) : Prop where
  nonempty : ∀ g ∈ groups, g ≠ []
  equal : ∀ g ∈ groups, ∀ a ∈ g, ∀ b ∈ g, cmp a b = 0
  rising : groups.Pairwise fun g h => ∀ a ∈ g, ∀ b ∈ h, cmp a b < 0

theorem Lawful.refl (lawful : Lawful cmp) (a : ρ) : cmp a a = 0 := by
  have self := lawful.swap a a
  omega

theorem Classes.alone {groups : List (List ρ)} {x : ρ} (lawful : Lawful cmp)
    (classes : Classes cmp groups) (less : ∀ g ∈ groups, ∀ b ∈ g, cmp x b < 0) :
    Classes cmp ([x] :: groups) := by
  constructor
  · intro h mem
    rcases List.mem_cons.mp mem with rfl | old
    · simp
    · exact classes.nonempty h old
  · intro h mem a left b right
    rcases List.mem_cons.mp mem with rfl | old
    · rw [List.mem_singleton.mp left, List.mem_singleton.mp right]
      exact lawful.refl x
    · exact classes.equal h old a left b right
  · refine List.pairwise_cons.mpr ⟨?_, classes.rising⟩
    intro h mem a left b right
    rw [List.mem_singleton.mp left]
    exact less h mem b right

theorem Classes.join {groups : List (List ρ)} {x y : ρ} {ys : List ρ} (lawful : Lawful cmp)
    (classes : Classes cmp ((y :: ys) :: groups)) (same : cmp x y = 0) :
    Classes cmp ((x :: y :: ys) :: groups) := by
  obtain ⟨above, later⟩ := List.pairwise_cons.mp classes.rising
  have equal := classes.equal (y :: ys) List.mem_cons_self
  have joins : ∀ a ∈ x :: y :: ys, cmp a y = 0 := by
    intro a mem
    rcases List.mem_cons.mp mem with rfl | old
    · exact same
    · exact equal a old y List.mem_cons_self
  constructor
  · intro h mem
    rcases List.mem_cons.mp mem with rfl | old
    · simp
    · exact classes.nonempty h (List.mem_cons_of_mem _ old)
  · intro h mem a left b right
    rcases List.mem_cons.mp mem with rfl | old
    · exact lawful.zero_trans (joins a left) (lawful.zero_comm.mp (joins b right))
    · exact classes.equal h (List.mem_cons_of_mem _ old) a left b right
  · refine List.pairwise_cons.mpr ⟨?_, later⟩
    intro h mem a left b right
    have le : cmp a y ≤ 0 := by
      have zero := joins a left
      omega
    exact lawful.lt_of_le_of_lt le (above h mem y List.mem_cons_self b right)

/-- An ordered list falls into groups of rows that compare equal. -/
theorem Lawful.classes (lawful : Lawful cmp) (ordered : Ordered cmp l) :
    ∃ groups, groups.flatten = l ∧ Classes cmp groups := by
  induction l with
  | nil => exact ⟨[], rfl, by simp, by simp, List.Pairwise.nil⟩
  | cons x xs ih =>
    obtain ⟨first, rest⟩ := List.pairwise_cons.mp ordered
    obtain ⟨groups, rfl, classes⟩ := ih rest
    cases groups with
    | nil => exact ⟨[[x]], rfl, classes.alone lawful (by simp)⟩
    | cons g gs =>
      obtain ⟨y, ys, rfl⟩ := List.exists_cons_of_ne_nil (classes.nonempty g List.mem_cons_self)
      have next : cmp x y ≤ 0 := first y (by simp)
      by_cases same : cmp x y = 0
      · exact ⟨(x :: y :: ys) :: gs, rfl, classes.join lawful same⟩
      · refine ⟨[x] :: (y :: ys) :: gs, rfl, classes.alone lawful ?_⟩
        obtain ⟨above, -⟩ := List.pairwise_cons.mp classes.rising
        intro h mem b right
        rcases List.mem_cons.mp mem with rfl | old
        · have tied := classes.equal _ List.mem_cons_self y List.mem_cons_self b right
          exact lawful.lt_of_lt_of_le (by omega : cmp x y < 0) (by omega)
        · exact lawful.lt_of_le_of_lt next (above h old y List.mem_cons_self b right)

end Sorting

section Table
variable (cmp : α → α → Int) (key : ρ → Option α) (number : ρ → Int)

def byKey : ρ → ρ → Int := onto key (nullsLast cmp)

/-- Rows by their keys in one direction, then by their numbers; rows without a key last. -/
def rowOrder (sign : Int) : ρ → ρ → Int :=
  thenBy (byKey (scaled sign cmp) key) (onto number difference)

variable {cmp key number} {sign : Int} {l : List ρ} {groups : List (List ρ)} {nulls : List ρ}
  {a b : ρ}

theorem byKey_nulls (left : key a = none) (right : key b = none) : byKey cmp key a b = 0 := by
  simp only [byKey, onto, left, right, nullsLast]

theorem byKey_null_last (there : key a ≠ none) (missing : key b = none) :
    byKey cmp key a b < 0 ∧ 0 < byKey cmp key b a := by
  obtain ⟨k, here⟩ := Option.ne_none_iff_exists'.mp there
  simp [byKey, onto, here, missing, nullsLast]

theorem nullsLast_scaled (x y : Option α) : nullsLast (scaled sign cmp) x y =
    if x.isNone || y.isNone then nullsLast cmp x y else nullsLast cmp x y * sign := by
  cases x with
  | none => cases y <;> rfl
  | some k => cases y <;> rfl

theorem byKey_scaled (left : key a ≠ none) (right : key b ≠ none) :
    byKey (scaled sign cmp) key a b = byKey cmp key a b * sign := by
  obtain ⟨k, here⟩ := Option.ne_none_iff_exists'.mp left
  obtain ⟨other, there⟩ := Option.ne_none_iff_exists'.mp right
  simp only [byKey, onto, here, there, nullsLast, scaled]

theorem byKey_scaled_zero (unit : sign = 1 ∨ sign = -1) :
    byKey (scaled sign cmp) key a b = 0 ↔ byKey cmp key a b = 0 := by
  unfold byKey onto
  rw [nullsLast_scaled]
  split
  · rfl
  · rcases unit with rfl | rfl
    · omega
    · omega

theorem Lawful.keys (lawful : Lawful cmp) (key : ρ → Option α) : Lawful (byKey cmp key) :=
  lawful.withNulls.along key

theorem Lawful.rows (lawful : Lawful cmp) (unit : sign = 1 ∨ sign = -1) :
    Lawful (rowOrder cmp key number sign) :=
  ((lawful.signed unit).keys key).refined (lawful_difference.along number)

theorem rowOrder_separates (distinct : (l.map number).Nodup) :
    Separates (rowOrder cmp key number sign) l := by
  intro a left b right same
  have equal := (thenBy_zero.mp same).2
  simp only [onto, difference] at equal
  exact List.inj_on_of_nodup_map distinct left right (by omega)

/-- What one direction promises of two rows, the first before the second. -/
structure Before (cmp : α → α → Int) (key : ρ → Option α) (number : ρ → Int) (sign : Int)
    (a b : ρ) : Prop where
  nulls : key a = none → key b = none
  keyed : key a ≠ none → key b ≠ none → byKey cmp key a b * sign ≤ 0
  ties : byKey cmp key a b = 0 → number a ≤ number b

theorem before_of_rowOrder (unit : sign = 1 ∨ sign = -1)
    (ordered : rowOrder cmp key number sign a b ≤ 0) : Before cmp key number sign a b := by
  rw [rowOrder, thenBy_nonpos] at ordered
  constructor
  · intro missing
    by_contra there
    have last : byKey (scaled sign cmp) key b a < 0 ∧ 0 < byKey (scaled sign cmp) key a b :=
      byKey_null_last there missing
    omega
  · intro left right
    rw [← byKey_scaled left right]
    omega
  · intro same
    rw [← byKey_scaled_zero unit] at same
    simp only [onto, difference] at ordered
    omega

theorem rowOrder_of_tie (unit : sign = 1 ∨ sign = -1) (same : byKey cmp key a b = 0)
    (below : number a ≤ number b) : rowOrder cmp key number sign a b ≤ 0 := by
  rw [rowOrder, thenBy_nonpos]
  refine Or.inr ⟨(byKey_scaled_zero unit).mpr same, ?_⟩
  simp only [onto, difference]
  omega

theorem keyed_append_nulls (last : l.Pairwise fun a b => key a = none → key b = none) :
    ∃ keyed nulls, l = keyed ++ nulls ∧ (∀ a ∈ keyed, key a ≠ none) ∧ ∀ a ∈ nulls, key a = none := by
  induction l with
  | nil => exact ⟨[], [], rfl, by simp, by simp⟩
  | cons x xs ih =>
    obtain ⟨first, rest⟩ := List.pairwise_cons.mp last
    by_cases missing : key x = none
    · refine ⟨[], x :: xs, rfl, by simp, ?_⟩
      intro a mem
      rcases List.mem_cons.mp mem with rfl | old
      · exact missing
      · exact first a old missing
    · obtain ⟨keyed, nulls, rfl, there, nothing⟩ := ih rest
      refine ⟨x :: keyed, nulls, rfl, ?_, nothing⟩
      intro a mem
      rcases List.mem_cons.mp mem with rfl | old
      · exact missing
      · exact there a old

theorem Lawful.reversed_ordered (lawful : Lawful cmp) (classes : Classes (byKey cmp key) groups)
    (keyed : ∀ g ∈ groups, ∀ a ∈ g, key a ≠ none) (missing : ∀ a ∈ nulls, key a = none)
    (within : ∀ g ∈ groups, g.Pairwise (Before cmp key number 1))
    (last : nulls.Pairwise (Before cmp key number 1)) :
    Ordered (rowOrder cmp key number (-1)) (groups.reverse.flatten ++ nulls) := by
  have down : (-1 : Int) = 1 ∨ (-1 : Int) = -1 := Or.inr rfl
  refine List.pairwise_append.mpr ⟨List.pairwise_flatten.mpr ⟨?_, ?_⟩, ?_, ?_⟩
  · intro g mem
    have member := List.mem_reverse.mp mem
    apply (within g member).imp_of_mem
    intro a b left right known
    have same := classes.equal g member a left b right
    exact rowOrder_of_tie down same (known.ties same)
  · rw [List.pairwise_reverse]
    apply classes.rising.imp_of_mem
    intro g h first second above b right a left
    have less := above a left b right
    have more := (lawful.keys key).swap b a
    rw [rowOrder, thenBy_nonpos, byKey_scaled (keyed h second b right) (keyed g first a left)]
    omega
  · apply last.imp_of_mem
    intro a b left right known
    have same : byKey cmp key a b = 0 := byKey_nulls (missing a left) (missing b right)
    exact rowOrder_of_tie down same (known.ties same)
  · intro a left b right
    obtain ⟨g, member, mem⟩ := List.mem_flatten.mp left
    have there := keyed g (List.mem_reverse.mp member) a mem
    rw [rowOrder, thenBy_nonpos]
    exact Or.inl (byKey_null_last there (missing b right)).1

/-- The two directions show the same groups in opposite orders, each group as it is, and then
    the rows without a key. -/
theorem Lawful.sort_reversed (lawful : Lawful cmp) (distinct : (l.map number).Nodup) :
    ∃ groups nulls,
      sort (rowOrder cmp key number 1) l = groups.flatten ++ nulls ∧
      sort (rowOrder cmp key number (-1)) l = groups.reverse.flatten ++ nulls ∧
      Classes (byKey cmp key) groups ∧
      (∀ g ∈ groups, ∀ a ∈ g, key a ≠ none) ∧ ∀ a ∈ nulls, key a = none := by
  have up : (1 : Int) = 1 ∨ (1 : Int) = -1 := Or.inl rfl
  have down : (-1 : Int) = 1 ∨ (-1 : Int) = -1 := Or.inr rfl
  have perm := sort_perm (rowOrder cmp key number 1) l
  have before : (sort (rowOrder cmp key number 1) l).Pairwise (Before cmp key number 1) := by
    apply ((lawful.rows up).sort_ordered l).imp
    intro a b known
    exact before_of_rowOrder up known
  obtain ⟨keyed, nulls, cut, there, missing⟩ := keyed_append_nulls (before.imp Before.nulls)
  rw [cut] at before perm
  obtain ⟨inKeyed, inNulls, -⟩ := List.pairwise_append.mp before
  have byKeys : Ordered (byKey cmp key) keyed := by
    apply inKeyed.imp_of_mem
    intro a b left right known
    simpa using known.keyed (there a left) (there b right)
  obtain ⟨groups, rfl, classes⟩ := (lawful.keys key).classes byKeys
  have inGroups : ∀ g ∈ groups, ∀ a ∈ g, key a ≠ none := by
    intro g member a mem
    exact there a (List.mem_flatten_of_mem member mem)
  refine ⟨groups, nulls, cut, ?_, classes, inGroups, missing⟩
  apply (lawful.rows down).sort_unique (rowOrder_separates distinct)
  · exact lawful.reversed_ordered classes inGroups missing (List.pairwise_flatten.mp inKeyed).1
      inNulls
  · exact ((List.reverse_perm groups).flatten.append_right nulls).trans perm

end Table

end Comparator
