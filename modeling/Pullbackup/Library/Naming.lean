import Mathlib.Data.List.Nodup
import Mathlib.Order.Basic

/- Names made of a key and the tick of a clock that never goes back. -/
namespace Naming

universe u
variable {α κ τ : Type u} {key : α → κ} {tick : α → τ}

section Ordered
variable [LE τ]

/-- The names of one key carry their ticks in order. -/
def Ordered (key : α → κ) (tick : α → τ) (names : List α) : Prop :=
  names.Pairwise fun n m => key n = key m → tick n ≤ tick m

theorem ordered_sublist {names more : List α} (ordered : Ordered key tick more)
    (part : names.Sublist more) : Ordered key tick names := ordered.sublist part

theorem ordered_issue {names : List α} {new : α} (ordered : Ordered key tick names)
    (late : ∀ n ∈ names, key n = key new → tick n ≤ tick new) :
    Ordered key tick (names ++ [new]) := by
  refine List.pairwise_append.mpr ⟨ordered, List.pairwise_singleton _ _, ?_⟩
  intro n mem m single
  rw [List.mem_singleton.mp single]
  exact late n mem

end Ordered

variable [DecidableEq κ]

/-- The newest name of a key, and its tick. -/
def latest (key : α → κ) (tick : α → τ) (k : κ) (names : List α) : Option τ :=
  ((names.filter fun n => key n = k).getLast?).map tick

theorem latest_mem {k : κ} {t : τ} {names : List α} (last : latest key tick k names = some t) :
    ∃ n ∈ names, key n = k ∧ tick n = t := by
  obtain ⟨n, found, rfl⟩ := Option.map_eq_some_iff.mp last
  have mem := List.mem_filter.mp (List.mem_of_getLast? found)
  exact ⟨n, mem.1, by simpa using mem.2, rfl⟩

section Fresh
variable [PartialOrder τ]

theorem le_latest {names : List α} (ordered : Ordered key tick names) {n : α} (mem : n ∈ names) :
    ∃ t, latest key tick (key n) names = some t ∧ tick n ≤ t := by
  have own : n ∈ names.filter fun m => key m = key n := List.mem_filter.mpr ⟨mem, by simp⟩
  obtain ⟨front, last, shape⟩ : ∃ front last,
      (names.filter fun m => key m = key n) = front ++ [last] := by
    rcases List.eq_nil_or_concat (names.filter fun m => key m = key n) with empty | ⟨f, l, shape⟩
    · rw [empty] at own
      cases own
    · exact ⟨f, l, by simpa using shape⟩
  refine ⟨tick last, by simp [latest, shape], ?_⟩
  have sorted : Ordered key tick (front ++ [last]) :=
    shape ▸ ordered_sublist ordered List.filter_sublist
  have same : key last = key n := by
    have here : last ∈ names.filter fun m => key m = key n := by simp [shape]
    simpa using (List.mem_filter.mp here).2
  rw [shape] at own
  rcases List.mem_append.mp own with early | final
  · exact (List.pairwise_append.mp sorted).2.2 n early last (by simp) same.symm
  · rw [List.mem_singleton.mp final]

/-- A name issued at the newest tick or later is new exactly when that tick is not its own. -/
theorem fresh_iff (determined : ∀ n m, key n = key m → tick n = tick m → n = m)
    {names : List α} {new : α} (ordered : Ordered key tick names)
    (late : ∀ n ∈ names, key n = key new → tick n ≤ tick new) :
    new ∉ names ↔ latest key tick (key new) names ≠ some (tick new) := by
  constructor
  · intro fresh last
    obtain ⟨n, mem, owner, time⟩ := latest_mem last
    exact fresh (determined n new owner time ▸ mem)
  · intro apart mem
    obtain ⟨t, last, below⟩ := le_latest ordered mem
    obtain ⟨n, there, owner, time⟩ := latest_mem last
    have above : t ≤ tick new := time ▸ late n there owner
    exact apart (last.trans (congrArg some (le_antisymm above below)))

theorem nodup_issue_iff (determined : ∀ n m, key n = key m → tick n = tick m → n = m)
    {names : List α} {new : α} (ordered : Ordered key tick names)
    (late : ∀ n ∈ names, key n = key new → tick n ≤ tick new) :
    (names ++ [new]).Nodup ↔ names.Nodup ∧ latest key tick (key new) names ≠ some (tick new) := by
  rw [← fresh_iff determined ordered late, List.nodup_append_comm, List.singleton_append,
    List.nodup_cons, and_comm]

end Fresh

end Naming
