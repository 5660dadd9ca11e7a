import Mathlib.Algebra.Order.Group.Unbundled.Int
import Mathlib.Order.Bounds.Basic
import Mathlib.Tactic.Ring

/- A schedule is a set of instants; a trigger answers the least one after its
   argument. The bounded walk finds the last instant up to a bound, or gives up
   at the bound itself. A periodic schedule repeats its offsets for ever. -/
namespace Schedule

universe u
variable {T : Type u} [LinearOrder T]

def IsNext (occ : Set T) (next : T → Option T) : Prop :=
  ∀ a, match next a with
    | some o => IsLeast {p | p ∈ occ ∧ a < p} o
    | none => ∀ p ∈ occ, p ≤ a

def Advances (next : T → Option T) : Prop := ∀ a o, next a = some o → a < o

variable {occ : Set T} {next : T → Option T}

theorem next_mem (exact : IsNext occ next) {a o : T} (h : next a = some o) : o ∈ occ := by
  have spec := exact a
  rw [h] at spec
  exact spec.1.1

theorem advances_of_isNext (exact : IsNext occ next) : Advances next := by
  intro a o h
  have spec := exact a
  rw [h] at spec
  exact spec.1.2

theorem next_le (exact : IsNext occ next) {a o p : T} (h : next a = some o) (mem : p ∈ occ)
    (later : a < p) : o ≤ p := by
  have spec := exact a
  rw [h] at spec
  exact spec.2 ⟨mem, later⟩

theorem next_none (exact : IsNext occ next) {a p : T} (h : next a = none) (mem : p ∈ occ) :
    p ≤ a := by
  have spec := exact a
  rw [h] at spec
  exact spec p mem

def answers (next : T → Option T) : Set T := {o | ∃ a, next a = some o}

theorem isNext_answers (exact : IsNext occ next) : IsNext (answers next) next := by
  intro a
  have spec := exact a
  have scheduled : ∀ p ∈ answers next, p ∈ occ := fun p mem => by
    obtain ⟨b, answer⟩ := mem
    exact next_mem exact answer
  cases answer : next a with
  | none =>
    rw [answer] at spec
    exact fun p mem => spec p (scheduled p mem)
  | some o =>
    rw [answer] at spec
    exact ⟨⟨⟨a, answer⟩, spec.1.2⟩, fun p mem => spec.2 ⟨scheduled p mem.1, mem.2⟩⟩

/-- Nothing is scheduled after w up to now. -/
def Quiet (occ : Set T) (w now : T) : Prop := ∀ p ∈ occ, w < p → now < p

theorem quiet_of_next (exact : IsNext occ next) {w now : T}
    (later : ∀ o, next w = some o → now < o) : Quiet occ w now := by
  intro p mem after
  cases found : next w with
  | none => exact absurd (next_none exact found mem) (not_le.mpr after)
  | some o => exact lt_of_lt_of_le (later o found) (next_le exact found mem after)

theorem quiet_self_of_le {w now : T} (h : now ≤ w) : Quiet occ w now :=
  fun _ _ after => lt_of_le_of_lt h after

def walk (next : T → Option T) (now : T) : Nat → T → T
  | 0, _ => now
  | fuel + 1, latest =>
    match next latest with
    | none => latest
    | some following => if now < following then latest else walk next now fuel following

theorem walk_bounds (advances : Advances next) (now : T) (fuel : Nat) (first : T)
    (start : first ≤ now) :
    first ≤ walk next now fuel first ∧ walk next now fuel first ≤ now := by
  induction fuel generalizing first with
  | zero => exact ⟨start, le_refl now⟩
  | succ fuel ih =>
    simp only [walk]
    cases found : next first with
    | none => exact ⟨le_refl first, start⟩
    | some following =>
      simp only
      split
      · exact ⟨le_refl first, start⟩
      · rename_i inside
        have bounds := ih following (not_lt.mp inside)
        exact ⟨le_trans (le_of_lt (advances _ _ found)) bounds.1, bounds.2⟩

/-- Running out of fuel jumps to the bound, so nothing is left behind either way. -/
theorem walk_quiet (exact : IsNext occ next) (now : T) (fuel : Nat) (first : T) :
    Quiet occ (walk next now fuel first) now := by
  induction fuel generalizing first with
  | zero => exact quiet_self_of_le (le_refl now)
  | succ fuel ih =>
    simp only [walk]
    cases found : next first with
    | none =>
      exact quiet_of_next exact (fun o h => by simp [found] at h)
    | some following =>
      simp only
      split
      · rename_i past
        exact quiet_of_next exact (fun o h => by
          rw [found] at h
          cases h
          exact past)
      · exact ih following

theorem next_eq (exact : IsNext occ next) {a o : T} (mem : o ∈ occ) (later : a < o)
    (least : ∀ p ∈ occ, a < p → o ≤ p) : next a = some o := by
  cases found : next a with
  | none => exact absurd (next_none exact found mem) (not_le.mpr later)
  | some p =>
    have after : a < p := advances_of_isNext exact a p found
    have le : p ≤ o := next_le exact found mem later
    have ge : o ≤ p := least p (next_mem exact found) after
    rw [le_antisymm le ge]

theorem next_of_gap (exact : IsNext occ next) {latest first a b : T}
    (last : IsGreatest {p | p ∈ occ ∧ p ≤ a} latest) (found : next a = some first)
    (from_latest : latest ≤ b) (before : b < first) : next b = some first := by
  apply next_eq exact (next_mem exact found) before
  intro p mem later
  by_cases past : p ≤ a
  · exact absurd (le_trans (last.2 ⟨mem, past⟩) from_latest) (not_le.mpr later)
  · exact next_le exact found mem (not_le.mp past)

section Periodic
variable {period : Int} {offsets : List Int}

def periodic (period : Int) (offsets : List Int) (after : Int) : Option Int :=
  ((offsets ++ offsets.map (· + period)).map (after / period * period + ·)).find? (after < ·)

theorem mem_candidates_iff {after x : Int} :
    x ∈ (offsets ++ offsets.map (· + period)).map (after / period * period + ·) ↔
      ∃ o ∈ offsets, x = after / period * period + o ∨ x = after / period * period + o + period := by
  simp only [List.mem_map, List.mem_append]
  constructor
  · rintro ⟨y, mem | ⟨o, mem, rfl⟩, rfl⟩
    · exact ⟨y, mem, Or.inl rfl⟩
    · exact ⟨o, mem, Or.inr (by omega)⟩
  · rintro ⟨o, mem, rfl | rfl⟩
    · exact ⟨o, Or.inl mem, rfl⟩
    · exact ⟨o + period, Or.inr ⟨o, mem, rfl⟩, by omega⟩

theorem candidates_sorted {after : Int} (sorted : offsets.Pairwise (· < ·))
    (inside : ∀ o ∈ offsets, 0 ≤ o ∧ o < period) :
    ((offsets ++ offsets.map (· + period)).map (after / period * period + ·)).Pairwise (· < ·) := by
  have shifted : (offsets.map (· + period)).Pairwise (· < ·) :=
    List.pairwise_map.mpr (sorted.imp fun h => by omega)
  have both : (offsets ++ offsets.map (· + period)).Pairwise (· < ·) := by
    refine List.pairwise_append.mpr ⟨sorted, shifted, ?_⟩
    intro a ma b mb
    obtain ⟨o, mo, rfl⟩ := List.mem_map.mp mb
    have := inside a ma
    have := inside o mo
    omega
  exact List.pairwise_map.mpr (both.imp fun h => by omega)

theorem find_least {after x : Int} {xs : List Int} (sorted : xs.Pairwise (· < ·))
    (found : xs.find? (after < ·) = some x) : ∀ y ∈ xs, after < y → x ≤ y := by
  induction xs with
  | nil => cases found
  | cons z xs ih =>
    intro y mem later
    rw [List.find?_cons] at found
    split at found
    · cases found
      rcases List.mem_cons.mp mem with rfl | rest
      · exact le_refl _
      · exact le_of_lt (List.rel_of_pairwise_cons sorted rest)
    · rename_i early
      rcases List.mem_cons.mp mem with rfl | rest
      · simp [later] at early
      · exact ih sorted.of_cons found y rest later

/-- Every instant of the schedule after a has a candidate at or before it. -/
theorem candidate_le (pos : 0 < period) {after p : Int} (inside : ∀ o ∈ offsets, 0 ≤ o ∧ o < period)
    (mem : p % period ∈ offsets) (later : after < p) :
    ∃ x ∈ (offsets ++ offsets.map (· + period)).map (after / period * period + ·),
      after < x ∧ x ≤ p := by
  have split_p : p / period * period + p % period = p := by
    have := Int.mul_ediv_add_emod p period
    rwa [mul_comm] at this
  have split_a : after / period * period + after % period = after := by
    have := Int.mul_ediv_add_emod after period
    rwa [mul_comm] at this
  have bound := Int.emod_lt_of_pos after pos
  have range := inside _ mem
  have order : after / period ≤ p / period := Int.ediv_le_ediv pos (le_of_lt later)
  by_cases same : p / period = after / period
  · refine ⟨p, mem_candidates_iff.mpr ⟨_, mem, Or.inl ?_⟩, later, le_refl p⟩
    rw [← same, split_p]
  · have next_period : (after / period + 1) * period ≤ p / period * period :=
      Int.mul_le_mul_of_nonneg_right (by omega) (le_of_lt pos)
    have expand : (after / period + 1) * period = after / period * period + period := by ring
    refine ⟨after / period * period + p % period + period,
      mem_candidates_iff.mpr ⟨_, mem, Or.inr rfl⟩, ?_, ?_⟩ <;> omega

theorem periodic_isNext (pos : 0 < period) (sorted : offsets.Pairwise (· < ·))
    (inside : ∀ o ∈ offsets, 0 ≤ o ∧ o < period) :
    IsNext {t | t % period ∈ offsets} (periodic period offsets) := by
  intro after
  cases found : periodic period offsets after with
  | none =>
    intro p mem
    by_contra later
    obtain ⟨x, candidate, after_x, -⟩ := candidate_le pos inside mem (not_le.mp later)
    have none_later := List.find?_eq_none.mp found x candidate
    simp [after_x] at none_later
  | some x =>
    have candidate := List.mem_of_find?_eq_some found
    have later : after < x := by simpa using List.find?_some found
    refine ⟨⟨?_, later⟩, ?_⟩
    · obtain ⟨o, mem, shape⟩ := mem_candidates_iff.mp candidate
      have range := inside o mem
      have residue : x % period = o := by
        rcases shape with rfl | rfl
        · rw [Int.add_comm, Int.add_mul_emod_self_right, Int.emod_eq_of_lt range.1 range.2]
        · rw [Int.add_emod_right, Int.add_comm, Int.add_mul_emod_self_right,
            Int.emod_eq_of_lt range.1 range.2]
      rw [Set.mem_ofPred_eq, residue]
      exact mem
    · rintro p ⟨mem, after_p⟩
      obtain ⟨y, other, after_y, le⟩ := candidate_le pos inside mem after_p
      exact le_trans (find_least (candidates_sorted sorted inside) found y other after_y) le

end Periodic

end Schedule
