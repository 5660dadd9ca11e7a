import Mathlib.Data.List.Nodup
import Mathlib.Data.List.Sort
import Mathlib.Order.Basic

/- Tables of rows under a unique primary key, and the two ordered queries a
   session asks of them. A table carries its uniqueness, so a lookup never has
   to choose between rows. -/
namespace KeyedTable

universe u v w

class Keyed (ρ : Type u) (κ : outParam (Type v)) where
  key : ρ → κ

variable {ρ : Type u} {κ : Type v} [Keyed ρ κ] [DecidableEq κ]

def putRow (r : ρ) : List ρ → List ρ
  | [] => [r]
  | x :: xs => if Keyed.key x = Keyed.key r then r :: xs else x :: putRow r xs

theorem mem_putRow_self (r : ρ) (xs : List ρ) : r ∈ putRow r xs := by
  induction xs with
  | nil => simp [putRow]
  | cons x xs ih =>
    simp only [putRow]
    split <;> simp [ih]

theorem mem_putRow_imp {r x : ρ} {xs : List ρ} (h : x ∈ putRow r xs) : x = r ∨ x ∈ xs := by
  induction xs with
  | nil => simpa [putRow] using h
  | cons y xs ih =>
    simp only [putRow] at h
    split at h
    · rcases List.mem_cons.mp h with same | tail
      · exact Or.inl same
      · exact Or.inr (List.mem_cons_of_mem y tail)
    · rcases List.mem_cons.mp h with same | tail
      · exact Or.inr (by simp [same])
      · exact (ih tail).imp id (List.mem_cons_of_mem y)

theorem mem_putRow_of_ne {r x : ρ} {xs : List ρ} (mem : x ∈ xs)
    (ne : Keyed.key x ≠ Keyed.key r) : x ∈ putRow r xs := by
  induction xs with
  | nil => simp at mem
  | cons y xs ih =>
    simp only [putRow]
    rcases List.mem_cons.mp mem with same | tail
    · subst y
      simp [ne]
    · split
      · exact List.mem_cons_of_mem r tail
      · exact List.mem_cons_of_mem y (ih tail)

theorem putRow_nodup (r : ρ) (xs : List ρ) (unique : (xs.map Keyed.key).Nodup) :
    ((putRow r xs).map Keyed.key).Nodup := by
  induction xs with
  | nil => simp [putRow]
  | cons x xs ih =>
    simp only [List.map_cons, List.nodup_cons] at unique
    simp only [putRow]
    split
    · rename_i same
      simpa [← same] using unique
    · rename_i ne
      simp only [List.map_cons, List.nodup_cons]
      refine ⟨?_, ih unique.2⟩
      intro member
      obtain ⟨y, my, ey⟩ := List.mem_map.mp member
      rcases mem_putRow_imp my with same | old
      · subst y
        exact ne ey.symm
      · exact unique.1 (List.mem_map.mpr ⟨y, old, ey⟩)

/-- A filter that treats the new row like the row it replaces commutes with the write; one that
    rejects both does not see the write. -/
theorem filter_putRow_of_not (p : ρ → Bool) (r : ρ) (xs : List ρ) (drop : p r = false)
    (alike : ∀ x ∈ xs, Keyed.key x = Keyed.key r → p x = false) :
    (putRow r xs).filter p = xs.filter p := by
  induction xs with
  | nil => simp [putRow, drop]
  | cons x xs ih =>
    have rest := ih (fun y my => alike y (List.mem_cons_of_mem x my))
    by_cases same : Keyed.key x = Keyed.key r
    · simp [putRow, same, drop, alike x (by simp) same]
    · simp [putRow, same, List.filter_cons, rest]

theorem putRow_of_new {r : ρ} {xs : List ρ} (new : ∀ x ∈ xs, Keyed.key x ≠ Keyed.key r) :
    putRow r xs = xs ++ [r] := by
  induction xs with
  | nil => rfl
  | cons x xs ih =>
    have rest := ih fun y my => new y (List.mem_cons_of_mem x my)
    simp [putRow, new x (by simp), rest]

theorem putRow_of_mem {r : ρ} {xs : List ρ} (unique : (xs.map Keyed.key).Nodup)
    (there : ∃ x ∈ xs, Keyed.key x = Keyed.key r) :
    putRow r xs = xs.map fun x => if Keyed.key x = Keyed.key r then r else x := by
  induction xs with
  | nil => simp at there
  | cons x xs ih =>
    simp only [List.map_cons, List.nodup_cons] at unique
    simp only [putRow, List.map_cons]
    by_cases same : Keyed.key x = Keyed.key r
    · have others : ∀ y ∈ xs, Keyed.key y ≠ Keyed.key r := by
        intro y my clash
        exact unique.1 (List.mem_map.mpr ⟨y, my, clash.trans same.symm⟩)
      have fixed : xs.map (fun y => if Keyed.key y = Keyed.key r then r else y) = xs := by
        conv_rhs => rw [← List.map_id xs]
        exact List.map_congr_left fun y my => by simp [others y my]
      simp [same, fixed]
    · have rest : ∃ y ∈ xs, Keyed.key y = Keyed.key r := by
        obtain ⟨y, my, ky⟩ := there
        rcases List.mem_cons.mp my with here | tail
        · subst y
          exact absurd ky same
        · exact ⟨y, tail, ky⟩
      simp [same, ih unique.2 rest]

theorem countP_putRow (p : ρ → Bool) {r x : ρ} {xs : List ρ}
    (unique : (xs.map Keyed.key).Nodup) (mem : x ∈ xs) (same : Keyed.key x = Keyed.key r) :
    (putRow r xs).countP p + (if p x then 1 else 0) = xs.countP p + (if p r then 1 else 0) := by
  induction xs with
  | nil => simp at mem
  | cons y ys ih =>
    simp only [List.map_cons, List.nodup_cons] at unique
    rcases List.mem_cons.mp mem with here | tail
    · subst y
      simp only [putRow, same, if_true, List.countP_cons]
      omega
    · have other : Keyed.key y ≠ Keyed.key r := fun clash =>
        unique.1 (List.mem_map.mpr ⟨x, tail, same.trans clash.symm⟩)
      have rest := ih unique.2 tail
      simp only [putRow, other, if_false, List.countP_cons]
      omega

theorem countP_eraseRow (p : ρ → Bool) {x : ρ} {k : κ} {xs : List ρ}
    (unique : (xs.map Keyed.key).Nodup) (mem : x ∈ xs) (same : Keyed.key x = k) :
    (xs.filter fun r => Keyed.key r ≠ k).countP p + (if p x then 1 else 0) = xs.countP p := by
  induction xs with
  | nil => simp at mem
  | cons y ys ih =>
    simp only [List.map_cons, List.nodup_cons] at unique
    rcases List.mem_cons.mp mem with here | tail
    · subst y
      have others : ys.filter (fun r => Keyed.key r ≠ k) = ys := by
        apply List.filter_eq_self.mpr
        intro z mz
        have apart : Keyed.key z ≠ k := fun clash =>
          unique.1 (List.mem_map.mpr ⟨z, mz, clash.trans same.symm⟩)
        simp [apart]
      rw [List.filter_cons_of_neg (by simp [same]), others, List.countP_cons]
    · have other : Keyed.key y ≠ k := fun clash =>
        unique.1 (List.mem_map.mpr ⟨x, tail, same.trans clash.symm⟩)
      have rest := ih unique.2 tail
      simp only [List.filter_cons, ne_eq, other, not_false_eq_true, decide_true, if_true,
        List.countP_cons] at rest ⊢
      omega

variable (ρ) in
structure Table where
  rows : List ρ
  unique : (rows.map Keyed.key).Nodup

namespace Table

def empty : Table ρ := ⟨[], by simp⟩

def get (t : Table ρ) (k : κ) : Option ρ := t.rows.find? (fun r => Keyed.key r = k)

def put (t : Table ρ) (r : ρ) : Table ρ := ⟨putRow r t.rows, putRow_nodup r t.rows t.unique⟩

def erase (t : Table ρ) (k : κ) : Table ρ :=
  ⟨t.rows.filter (fun r => Keyed.key r ≠ k), t.unique.sublist (List.filter_sublist.map _)⟩

def write (t : Table ρ) (k : κ) : Option ρ → Table ρ
  | none => t.erase k
  | some r => t.put r

/-- A statement over many rows; it may not touch the key. -/
def mapRows (t : Table ρ) (f : ρ → ρ) (keeps : ∀ r, Keyed.key (f r) = Keyed.key r) : Table ρ :=
  ⟨t.rows.map f, by simpa [Function.comp_def, keeps] using t.unique⟩

def keep (t : Table ρ) (p : ρ → Bool) : Table ρ :=
  ⟨t.rows.filter p, t.unique.sublist (List.filter_sublist.map _)⟩

theorem key_of_get {t : Table ρ} {k : κ} {r : ρ} (h : t.get k = some r) : Keyed.key r = k := by
  simpa using List.find?_some h

theorem mem_of_get {t : Table ρ} {k : κ} {r : ρ} (h : t.get k = some r) : r ∈ t.rows :=
  List.mem_of_find?_eq_some h

omit [DecidableEq κ] in
theorem key_injective {t : Table ρ} {r s : ρ} (mr : r ∈ t.rows) (ms : s ∈ t.rows)
    (same : Keyed.key r = Keyed.key s) : r = s :=
  List.inj_on_of_nodup_map t.unique mr ms same

theorem get_of_mem {t : Table ρ} {r : ρ} (h : r ∈ t.rows) : t.get (Keyed.key r) = some r := by
  cases found : t.get (Keyed.key r) with
  | none =>
    have absent := List.find?_eq_none.mp found r h
    simp at absent
  | some s => rw [key_injective (mem_of_get found) h (key_of_get found)]

theorem get_eq_some_iff {t : Table ρ} {k : κ} {r : ρ} :
    t.get k = some r ↔ r ∈ t.rows ∧ Keyed.key r = k := by
  constructor
  · intro h
    exact ⟨mem_of_get h, key_of_get h⟩
  · rintro ⟨mem, rfl⟩
    exact get_of_mem mem

theorem eq_of_get {t : Table ρ} {k : κ} {r x : ρ} (here : t.get k = some r) (mem : x ∈ t.rows)
    (same : Keyed.key x = k) : x = r :=
  key_injective mem (mem_of_get here) (same.trans (key_of_get here).symm)

theorem get_eq_none_iff {t : Table ρ} {k : κ} :
    t.get k = none ↔ ∀ r ∈ t.rows, Keyed.key r ≠ k := by
  simp [get]

theorem mem_put_iff {t : Table ρ} {r x : ρ} :
    x ∈ (t.put r).rows ↔ x = r ∨ (Keyed.key x ≠ Keyed.key r ∧ x ∈ t.rows) := by
  constructor
  · intro h
    rcases mem_putRow_imp h with same | old
    · exact Or.inl same
    · by_cases same : Keyed.key x = Keyed.key r
      · exact Or.inl (key_injective (t := t.put r) h (mem_putRow_self r t.rows) same)
      · exact Or.inr ⟨same, old⟩
  · rintro (rfl | ⟨ne, old⟩)
    · exact mem_putRow_self x t.rows
    · exact mem_putRow_of_ne old ne

theorem eq_of_mem_put {t : Table ρ} {r x : ρ} (mem : x ∈ (t.put r).rows)
    (same : Keyed.key x = Keyed.key r) : x = r := by
  rcases mem_put_iff.mp mem with new | ⟨other, -⟩
  · exact new
  · exact absurd same other

@[simp] theorem get_empty (k : κ) : (empty : Table ρ).get k = none := rfl

omit [DecidableEq κ] in
@[simp] theorem rows_empty : (empty : Table ρ).rows = [] := rfl

theorem get_put (t : Table ρ) (r : ρ) (k : κ) :
    (t.put r).get k = if Keyed.key r = k then some r else t.get k := by
  split
  · rename_i same
    exact get_eq_some_iff.mpr ⟨mem_putRow_self r t.rows, same⟩
  · rename_i ne
    ext x
    rw [get_eq_some_iff, get_eq_some_iff, mem_put_iff]
    constructor
    · rintro ⟨rfl | ⟨-, old⟩, kx⟩
      · exact absurd kx ne
      · exact ⟨old, kx⟩
    · rintro ⟨old, kx⟩
      exact ⟨Or.inr ⟨fun same => ne (same.symm.trans kx), old⟩, kx⟩

@[simp] theorem get_put_self (t : Table ρ) (r : ρ) : (t.put r).get (Keyed.key r) = some r := by
  simp [get_put]

theorem get_put_ne {t : Table ρ} {r : ρ} {k : κ} (ne : Keyed.key r ≠ k) :
    (t.put r).get k = t.get k := by
  simp [get_put, ne]

theorem get_erase (t : Table ρ) (j k : κ) :
    (t.erase j).get k = if k = j then none else t.get k := by
  split
  · rename_i same
    subst same
    exact get_eq_none_iff.mpr (by simp [erase])
  · rename_i ne
    ext x
    rw [get_eq_some_iff, get_eq_some_iff]
    simp only [erase, List.mem_filter, decide_eq_true_eq]
    constructor
    · rintro ⟨⟨mem, -⟩, kx⟩
      exact ⟨mem, kx⟩
    · rintro ⟨mem, kx⟩
      exact ⟨⟨mem, fun same => ne (kx.symm.trans same)⟩, kx⟩

theorem mem_erase_iff {t : Table ρ} {k : κ} {x : ρ} :
    x ∈ (t.erase k).rows ↔ x ∈ t.rows ∧ Keyed.key x ≠ k := by
  simp [erase]

theorem get_write (t : Table ρ) (k : κ) (o : Option ρ) (keyed : ∀ r ∈ o, Keyed.key r = k)
    (j : κ) : (t.write k o).get j = if j = k then o else t.get j := by
  cases o with
  | none => exact get_erase t k j
  | some r =>
    have kr : Keyed.key r = k := keyed r rfl
    simp [write, get_put, kr, eq_comm]

theorem get_mapRows (t : Table ρ) (f : ρ → ρ) (keeps : ∀ r, Keyed.key (f r) = Keyed.key r)
    (k : κ) : (t.mapRows f keeps).get k = (t.get k).map f := by
  have same : ((fun r => decide (Keyed.key r = k)) ∘ f) = fun r : ρ => decide (Keyed.key r = k) := by
    funext r
    simp [keeps]
  simp only [get, mapRows, List.find?_map, same]

omit [DecidableEq κ] in
theorem mem_keep_iff {t : Table ρ} {p : ρ → Bool} {x : ρ} :
    x ∈ (t.keep p).rows ↔ x ∈ t.rows ∧ p x = true := by
  simp [keep]

theorem get_keep (t : Table ρ) (p : ρ → Bool) (k : κ) :
    (t.keep p).get k = (t.get k).filter p := by
  ext x
  rw [get_eq_some_iff, mem_keep_iff, Option.filter_eq_some_iff, get_eq_some_iff]
  tauto

theorem putRow_append {r s : ρ} {front rest : List ρ} (same : Keyed.key r = Keyed.key s)
    (apart : ∀ x ∈ front, Keyed.key x ≠ Keyed.key s) :
    putRow s (front ++ r :: rest) = front ++ s :: rest := by
  induction front with
  | nil => simp [putRow, same]
  | cons x front ih =>
    have others := ih fun y my => apart y (List.mem_cons_of_mem x my)
    simp [putRow, apart x (by simp), others]

theorem rows_write {t : Table ρ} {r : ρ} {front rest : List ρ}
    (split : t.rows = front ++ r :: rest) {o : Option ρ}
    (keyed : ∀ s ∈ o, Keyed.key s = Keyed.key r) :
    (t.write (Keyed.key r) o).rows = front ++ (o.toList ++ rest) := by
  have unique := t.unique
  rw [split, List.map_append, List.map_cons] at unique
  obtain ⟨-, tail, disjoint⟩ := List.nodup_append.mp unique
  have before : ∀ x ∈ front, Keyed.key x ≠ Keyed.key r := fun x mx same =>
    disjoint _ (List.mem_map_of_mem mx) _ (by simp) same
  cases o with
  | none =>
    have after : ∀ x ∈ rest, Keyed.key x ≠ Keyed.key r := fun x mx same =>
      (List.nodup_cons.mp tail).1 (List.mem_map.mpr ⟨x, mx, same⟩)
    show t.rows.filter _ = _
    rw [split, List.filter_append, List.filter_cons_of_neg (by simp),
      List.filter_eq_self.mpr (by simpa using before),
      List.filter_eq_self.mpr (by simpa using after)]
    rfl
  | some s =>
    have ks : Keyed.key s = Keyed.key r := keyed s rfl
    show putRow s t.rows = _
    rw [split, putRow_append ks.symm (by simpa [ks] using before)]
    rfl

/-- Writing back every row in turn filters and maps the table. -/
theorem rows_foldl_write {f : ρ → Option ρ} (keyed : ∀ r, ∀ s ∈ f r, Keyed.key s = Keyed.key r)
    {t : Table ρ} {front rest : List ρ} (split : t.rows = front ++ rest) :
    (rest.foldl (fun t r => t.write (Keyed.key r) (f r)) t).rows = front ++ rest.filterMap f := by
  induction rest generalizing t front with
  | nil => simpa using split
  | cons r rest ih =>
    have step := rows_write split (keyed r)
    rw [← List.append_assoc] at step
    rw [List.foldl_cons, ih step, List.append_assoc]
    cases here : f r <;> simp [here]

end Table

theorem filterMap_eq_self_iff {α : Type u} {f : α → Option α} {xs : List α} :
    xs.filterMap f = xs ↔ ∀ x ∈ xs, f x = some x := by
  induction xs with
  | nil => simp
  | cons x xs ih =>
    cases here : f x with
    | none =>
      rw [List.filterMap_cons_none here]
      constructor
      · intro same
        have short := List.length_filterMap_le f xs
        rw [same, List.length_cons] at short
        omega
      · intro fixed
        rw [fixed x (by simp)] at here
        cases here
    | some y =>
      rw [List.filterMap_cons_some here, List.cons.injEq, ih, List.forall_mem_cons, here,
        Option.some.injEq]

/-- SQLite's next rowid: one past the largest in the table. -/
def nextId {ρ : Type u} [Keyed ρ Nat] (t : Table ρ) : Nat :=
  t.rows.foldr (fun r m => max (Keyed.key r) m) 0 + 1

theorem key_lt_nextId {ρ : Type u} [Keyed ρ Nat] (t : Table ρ) {r : ρ} (mem : r ∈ t.rows) :
    Keyed.key r < nextId t := by
  have bound : ∀ xs : List ρ, r ∈ xs →
      Keyed.key r ≤ xs.foldr (fun r m => max (Keyed.key r) m) 0 := by
    intro xs
    induction xs with
    | nil => simp
    | cons x xs ih =>
      intro h
      simp only [List.foldr_cons]
      rcases List.mem_cons.mp h with same | tail
      · subst x
        exact Nat.le_max_left _ _
      · exact Nat.le_trans (ih tail) (Nat.le_max_right _ _)
  exact Nat.lt_succ_of_le (bound t.rows mem)

theorem get_nextId {ρ : Type u} [Keyed ρ Nat] (t : Table ρ) : t.get (nextId t) = none :=
  Table.get_eq_none_iff.mpr fun _ mem same => absurd (key_lt_nextId t mem) (by omega)

section Ordered
variable {α : Type u} {β : Type w} [LinearOrder β]

/-- ORDER BY f, first row; and ORDER BY f DESC, first row. Ties keep the table's own order. -/
def firstBy (f : α → β) (p : α → Bool) (xs : List α) : Option α :=
  ((xs.filter p).insertionSort (fun a b => f a ≤ f b)).head?

def lastBy (f : α → β) (p : α → Bool) (xs : List α) : Option α :=
  ((xs.filter p).insertionSort (fun a b => f b ≤ f a)).head?

theorem sorted_head_le {r : α → α → Prop} [DecidableRel r] [Std.Total r] [IsTrans α r]
    {xs : List α} {x : α} (first : (xs.insertionSort r).head? = some x) :
    x ∈ xs ∧ ∀ y ∈ xs, r x y := by
  have perm := List.perm_insertionSort r xs
  have sorted := List.pairwise_insertionSort r xs
  cases shape : xs.insertionSort r with
  | nil => simp [shape] at first
  | cons z zs =>
    rw [shape] at first perm sorted
    obtain rfl : z = x := by simpa using first
    refine ⟨perm.mem_iff.mp (by simp), fun y my => ?_⟩
    rcases List.mem_cons.mp (perm.mem_iff.mpr my) with same | tail
    · subst y
      exact (Std.Total.total (r := r) z z).elim id id
    · exact (List.pairwise_cons.mp sorted).1 y tail

theorem firstBy_some {f : α → β} {p : α → Bool} {xs : List α} {x : α}
    (h : firstBy f p xs = some x) :
    x ∈ xs ∧ p x = true ∧ ∀ y ∈ xs, p y = true → f x ≤ f y := by
  have : Std.Total (fun a b : α => f a ≤ f b) := ⟨fun a b => le_total (f a) (f b)⟩
  have : IsTrans α (fun a b : α => f a ≤ f b) := ⟨fun _ _ _ => le_trans⟩
  obtain ⟨mem, least⟩ := sorted_head_le h
  obtain ⟨inList, holds⟩ := List.mem_filter.mp mem
  exact ⟨inList, holds, fun y my py => least y (List.mem_filter.mpr ⟨my, py⟩)⟩

theorem lastBy_some {f : α → β} {p : α → Bool} {xs : List α} {x : α}
    (h : lastBy f p xs = some x) :
    x ∈ xs ∧ p x = true ∧ ∀ y ∈ xs, p y = true → f y ≤ f x := by
  have : Std.Total (fun a b : α => f b ≤ f a) := ⟨fun a b => le_total (f b) (f a)⟩
  have : IsTrans α (fun a b : α => f b ≤ f a) := ⟨fun _ _ _ ab bc => le_trans bc ab⟩
  obtain ⟨mem, greatest⟩ := sorted_head_le h
  obtain ⟨inList, holds⟩ := List.mem_filter.mp mem
  exact ⟨inList, holds, fun y my py => greatest y (List.mem_filter.mpr ⟨my, py⟩)⟩

theorem firstBy_eq_none_iff {f : α → β} {p : α → Bool} {xs : List α} :
    firstBy f p xs = none ↔ ∀ x ∈ xs, p x = false := by
  rw [firstBy, List.head?_eq_none_iff, ← List.length_eq_zero_iff, List.length_insertionSort,
    List.length_eq_zero_iff, List.filter_eq_nil_iff]
  simp

theorem lastBy_eq_none_iff {f : α → β} {p : α → Bool} {xs : List α} :
    lastBy f p xs = none ↔ ∀ x ∈ xs, p x = false := by
  rw [lastBy, List.head?_eq_none_iff, ← List.length_eq_zero_iff, List.length_insertionSort,
    List.length_eq_zero_iff, List.filter_eq_nil_iff]
  simp

theorem filter_scope {p q : α → Bool} {xs : List α} (scope : ∀ x ∈ xs, p x = true → q x = true) :
    (xs.filter q).filter p = xs.filter p := by
  rw [List.filter_filter]
  refine List.filter_congr fun x mx => ?_
  cases hp : p x with
  | false => simp
  | true => simp [scope x mx hp]

theorem firstBy_scope {f : α → β} {p q : α → Bool} (xs : List α)
    (scope : ∀ x ∈ xs, p x = true → q x = true) : firstBy f p (xs.filter q) = firstBy f p xs := by
  rw [firstBy, firstBy, filter_scope scope]

theorem lastBy_scope {f : α → β} {p q : α → Bool} (xs : List α)
    (scope : ∀ x ∈ xs, p x = true → q x = true) : lastBy f p (xs.filter q) = lastBy f p xs := by
  rw [lastBy, lastBy, filter_scope scope]

def newestBy (f : α → β) (p : α → Bool) (n : Nat) (xs : List α) : List α :=
  ((xs.filter p).insertionSort (fun a b => f b ≤ f a)).take n

theorem newestBy_head (f : α → β) (p : α → Bool) {n : Nat} (pos : 0 < n) (xs : List α) :
    (newestBy f p n xs).head? = lastBy f p xs := by
  obtain ⟨m, rfl⟩ := Nat.exists_eq_succ_of_ne_zero (Nat.pos_iff_ne_zero.mp pos)
  unfold newestBy lastBy
  cases (xs.filter p).insertionSort (fun a b => f b ≤ f a) <;> simp

theorem newestBy_congr {f : α → β} {p : α → Bool} (n : Nat) {xs ys : List α} (nx : xs.Nodup)
    (ny : ys.Nodup) (same : ∀ x, p x = true → (x ∈ xs ↔ x ∈ ys))
    (untied : ∀ a ∈ xs, ∀ b ∈ xs, p a = true → p b = true → f a = f b → a = b) :
    newestBy f p n xs = newestBy f p n ys := by
  have : Std.Total (fun a b : α => f b ≤ f a) := ⟨fun a b => le_total (f b) (f a)⟩
  have : IsTrans α (fun a b : α => f b ≤ f a) := ⟨fun _ _ _ ab bc => le_trans bc ab⟩
  have rows : (xs.filter p).Perm (ys.filter p) := by
    refine (List.perm_ext_iff_of_nodup (nx.filter p) (ny.filter p)).mpr fun x => ?_
    simp only [List.mem_filter]
    constructor
    · rintro ⟨mem, holds⟩
      exact ⟨(same x holds).mp mem, holds⟩
    · rintro ⟨mem, holds⟩
      exact ⟨(same x holds).mpr mem, holds⟩
  have sorted : ((xs.filter p).insertionSort (fun a b => f b ≤ f a)).Perm
      ((ys.filter p).insertionSort (fun a b => f b ≤ f a)) :=
    (List.perm_insertionSort _ _).trans (rows.trans (List.perm_insertionSort _ _).symm)
  have equal := sorted.eq_of_pairwise ?_ (List.pairwise_insertionSort _ _)
    (List.pairwise_insertionSort _ _)
  · rw [newestBy, newestBy, equal]
  · intro a b ma mb ab ba
    have left := List.mem_filter.mp ((List.perm_insertionSort _ _).mem_iff.mp ma)
    have right := List.mem_filter.mp ((List.perm_insertionSort _ _).mem_iff.mp mb)
    exact untied a left.1 b ((same b right.2).mpr right.1) left.2 right.2 (le_antisymm ba ab)

end Ordered

end KeyedTable
