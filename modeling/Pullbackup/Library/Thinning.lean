import Pullbackup.Library.KeyedTable

/- Tables whose rows are rewritten where they stand, or erased: what is left is in the old
   order, and a stable sort keeps to it. -/
namespace KeyedTable

universe u v w

theorem filterMap_sublist {α : Type u} {β : Type w} {f : α → Option β} {ks ks' : List α}
    (thin : ks'.Sublist ks) (unique : ks.Nodup) (gone : ∀ k ∈ ks, k ∉ ks' → f k = none) :
    ks'.filterMap f = ks.filterMap f := by
  induction thin with
  | slnil => rfl
  | cons k thin ih =>
    obtain ⟨fresh, unique⟩ := List.nodup_cons.mp unique
    have here : f k = none := gone k List.mem_cons_self fun mem => fresh (thin.subset mem)
    rw [List.filterMap_cons_none here]
    exact ih unique fun j mem => gone j (List.mem_cons_of_mem k mem)
  | cons_cons k thin ih =>
    obtain ⟨fresh, unique⟩ := List.nodup_cons.mp unique
    have rest := ih unique fun j mem out => gone j (List.mem_cons_of_mem k mem) fun there =>
      (List.mem_cons.mp there).elim (fun same => fresh (same ▸ mem)) out
    cases here : f k with
    | none => rw [List.filterMap_cons_none here, List.filterMap_cons_none here, rest]
    | some b => rw [List.filterMap_cons_some here, List.filterMap_cons_some here, rest]

variable {ρ : Type u} {κ : Type v} [Keyed ρ κ] [DecidableEq κ]

omit [DecidableEq κ] in
theorem eq_of_rows {t t' : Table ρ} (same : t.rows = t'.rows) : t = t' := by
  cases t
  cases t'
  cases same
  rfl

/-- The keys of t' are keys of t, in the order of t. -/
def Table.Thins (t t' : Table ρ) : Prop := (t'.rows.map Keyed.key).Sublist (t.rows.map Keyed.key)

theorem thins_erase (t : Table ρ) (k : κ) : t.Thins (t.erase k) :=
  List.Sublist.map _ List.filter_sublist

theorem thins_put {t : Table ρ} {r x : ρ} (stored : t.get (Keyed.key r) = some x) :
    t.Thins (t.put r) := by
  have keys : ∀ xs : List ρ, (∃ y ∈ xs, Keyed.key y = Keyed.key r) →
      (putRow r xs).map Keyed.key = xs.map Keyed.key := by
    intro xs present
    induction xs with
    | nil => simp at present
    | cons y ys ih =>
      unfold putRow
      split
      · rename_i same
        simp [same]
      · rename_i other
        obtain ⟨z, mem, same⟩ := present
        rcases List.mem_cons.mp mem with rfl | tail
        · exact absurd same other
        · rw [List.map_cons, List.map_cons, ih ⟨z, tail, same⟩]
  have same : (t.put r).rows.map Keyed.key = t.rows.map Keyed.key :=
    keys t.rows ⟨x, Table.mem_of_get stored, Table.key_of_get stored⟩
  rw [Table.Thins, same]

theorem rows_of_thins {t t' : Table ρ} (thin : t.Thins t') :
    t'.rows = t.rows.filterMap fun r => t'.get (Keyed.key r) := by
  have gone : ∀ k ∈ t.rows.map Keyed.key, k ∉ t'.rows.map Keyed.key → t'.get k = none := by
    intro k _ out
    exact Table.get_eq_none_iff.mpr fun r mem same => out (same ▸ List.mem_map_of_mem mem)
  have found : t'.rows.filterMap (fun r => t'.get (Keyed.key r)) = t'.rows := by
    rw [List.filterMap_congr fun r mem => Table.get_of_mem mem]
    exact List.filterMap_some
  calc t'.rows = t'.rows.filterMap (fun r => t'.get (Keyed.key r)) := found.symm
    _ = (t'.rows.map Keyed.key).filterMap t'.get := by rw [List.filterMap_map]; rfl
    _ = (t.rows.map Keyed.key).filterMap t'.get := filterMap_sublist thin t.unique gone
    _ = t.rows.filterMap (fun r => t'.get (Keyed.key r)) := by rw [List.filterMap_map]; rfl

section Stable
variable {α : Type u} {β : Type v} {γ : Type w} [LinearOrder γ] {f : α → Option β} {k : α → γ}
  {k' : β → γ}

theorem filterMap_orderedInsert_none {a : α} (drop : f a = none) (xs : List α) :
    (xs.orderedInsert (fun a b => k a ≤ k b) a).filterMap f = xs.filterMap f := by
  induction xs with
  | nil => simp [drop]
  | cons x xs ih =>
    simp only [List.orderedInsert_cons]
    split
    · rw [List.filterMap_cons_none drop]
    · cases here : f x with
      | none => rw [List.filterMap_cons_none here, List.filterMap_cons_none here, ih]
      | some b => rw [List.filterMap_cons_some here, List.filterMap_cons_some here, ih]

theorem filterMap_orderedInsert_some {a : α} {b : β} (kept : f a = some b) {xs : List α}
    (keeps : ∀ x ∈ a :: xs, ∀ y, f x = some y → k' y = k x)
    (sorted : xs.Pairwise fun a b => k a ≤ k b) :
    (xs.orderedInsert (fun a b => k a ≤ k b) a).filterMap f =
      (xs.filterMap f).orderedInsert (fun a b => k' a ≤ k' b) b := by
  have same : k' b = k a := keeps a List.mem_cons_self b kept
  have first : ∀ ys : List β, (∀ y ∈ ys, k' b ≤ k' y) →
      ys.orderedInsert (fun a b => k' a ≤ k' b) b = b :: ys := by
    intro ys least
    cases ys with
    | nil => rfl
    | cons y ys => rw [List.orderedInsert_cons, if_pos (least y List.mem_cons_self)]
  induction xs with
  | nil => simp [kept]
  | cons x xs ih =>
    obtain ⟨below, sorted⟩ := List.pairwise_cons.mp sorted
    have rest := ih (fun z mem => keeps z ((List.mem_cons.mp mem).elim
      (fun here => here ▸ List.mem_cons_self)
      fun tail => List.mem_cons_of_mem a (List.mem_cons_of_mem x tail))) sorted
    rw [List.orderedInsert_cons]
    split
    · rename_i before
      rw [List.filterMap_cons_some kept, first]
      intro y mem
      obtain ⟨z, there, maps⟩ := List.mem_filterMap.mp mem
      rw [same, keeps z (List.mem_cons_of_mem a there) y maps]
      rcases List.mem_cons.mp there with rfl | tail
      · exact before
      · exact before.trans (below z tail)
    · rename_i after
      cases here : f x with
      | none => rw [List.filterMap_cons_none here, List.filterMap_cons_none here, rest]
      | some y =>
        rw [List.filterMap_cons_some here, List.filterMap_cons_some here, rest,
          List.orderedInsert_cons, if_neg]
        rw [same, keeps x (List.mem_cons_of_mem a List.mem_cons_self) y here]
        exact after

/-- Sorting by a key that the map keeps is stable, so that it may come before or after. -/
theorem insertionSort_filterMap (xs : List α)
    (keeps : ∀ x ∈ xs, ∀ y, f x = some y → k' y = k x) :
    (xs.filterMap f).insertionSort (fun a b => k' a ≤ k' b) =
      (xs.insertionSort fun a b => k a ≤ k b).filterMap f := by
  have : Std.Total (fun a b : α => k a ≤ k b) := ⟨fun a b => le_total (k a) (k b)⟩
  have : IsTrans α (fun a b : α => k a ≤ k b) := ⟨fun _ _ _ => le_trans⟩
  induction xs with
  | nil => rfl
  | cons x xs ih =>
    have rest := ih fun y mem => keeps y (List.mem_cons_of_mem x mem)
    rw [List.insertionSort_cons]
    cases here : f x with
    | none => rw [List.filterMap_cons_none here, rest, filterMap_orderedInsert_none here]
    | some b =>
      rw [List.filterMap_cons_some here, List.insertionSort_cons, rest]
      refine (filterMap_orderedInsert_some here (fun y mem => keeps y ?_)
        (List.pairwise_insertionSort _ _)).symm
      rcases List.mem_cons.mp mem with rfl | tail
      · exact List.mem_cons_self
      · exact List.mem_cons_of_mem x ((List.mem_insertionSort _).mp tail)

end Stable

end KeyedTable
