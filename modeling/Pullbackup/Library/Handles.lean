import Mathlib.Data.Finset.Basic
import Mathlib.Logic.Function.Basic

/- Handles that are acquired and released, and the numbers that stand for them while
they are held: a number may come back, a handle does not. -/
namespace Handles

universe u
variable {α : Type u}

inductive Handling (α : Type u) where
  | acquire (x : α)
  | release (x : α)
  deriving DecidableEq, Repr

def Handling.released : Handling α → Option α
  | .acquire _ => none
  | .release x => some x

def released (events : List (Handling α)) : List α := events.filterMap Handling.released

theorem mem_released {events : List (Handling α)} {x : α} :
    x ∈ released events ↔ .release x ∈ events := by
  unfold released
  rw [List.mem_filterMap]
  constructor
  · rintro ⟨event, mem, same⟩
    cases event with
    | acquire y => cases same
    | release y =>
      cases same
      exact mem
  · intro mem
    exact ⟨.release x, mem, rfl⟩

variable [DecidableEq α] {events front back : List (Handling α)} {held : Finset α} {x y : α}

/-- What is held after the events: each takes a handle never taken before or gives back one that
    is held. -/
inductive Uses : List (Handling α) → Finset α → Prop where
  | start : Uses [] ∅
  | acquire {events : List (Handling α)} {held : Finset α} {x : α} (uses : Uses events held)
      (fresh : .acquire x ∉ events) : Uses (events ++ [.acquire x]) (insert x held)
  | release {events : List (Handling α)} {held : Finset α} {x : α} (uses : Uses events held)
      (mem : x ∈ held) : Uses (events ++ [.release x]) (held.erase x)

theorem Uses.acquired_of_mem (uses : Uses events held) (mem : x ∈ held) :
    .acquire x ∈ events := by
  induction uses with
  | start => simp at mem
  | acquire uses fresh ih =>
    rcases Finset.mem_insert.mp mem with rfl | old
    · simp
    · exact List.mem_append_left _ (ih old)
  | release uses here ih => exact List.mem_append_left _ (ih (Finset.mem_of_mem_erase mem))

theorem Uses.acquired_of_released (uses : Uses events held) (mem : .release x ∈ events) :
    .acquire x ∈ events := by
  induction uses with
  | start => simp at mem
  | acquire uses fresh ih =>
    rcases List.mem_append.mp mem with old | new
    · exact List.mem_append_left _ (ih old)
    · cases List.mem_singleton.mp new
  | release uses here ih =>
    apply List.mem_append_left
    rcases List.mem_append.mp mem with old | new
    · exact ih old
    · cases List.mem_singleton.mp new
      exact uses.acquired_of_mem here

theorem Uses.not_released (uses : Uses events held) (mem : x ∈ held) :
    .release x ∉ events := by
  induction uses with
  | start => simp at mem
  | acquire uses fresh ih =>
    intro given
    rcases List.mem_append.mp given with old | new
    · rcases Finset.mem_insert.mp mem with rfl | kept
      · exact fresh (uses.acquired_of_released old)
      · exact ih kept old
    · cases List.mem_singleton.mp new
  | release uses here ih =>
    obtain ⟨other, kept⟩ := Finset.mem_erase.mp mem
    intro given
    rcases List.mem_append.mp given with old | new
    · exact ih kept old
    · cases List.mem_singleton.mp new
      exact other rfl

theorem Uses.released_nodup (uses : Uses events held) : (released events).Nodup := by
  induction uses with
  | start => exact List.nodup_nil
  | @acquire events held x uses fresh ih =>
    have same : released (events ++ [.acquire x]) = released events := by
      simp [released, Handling.released]
    rw [same]
    exact ih
  | @release events held x uses here ih =>
    have last : released (events ++ [.release x]) = released events ++ [x] := by
      simp [released, Handling.released]
    have new : x ∉ released events := fun old => uses.not_released here (mem_released.mp old)
    rw [last]
    exact List.nodup_append.mpr ⟨ih, List.nodup_singleton x, fun y old z same => by
      cases List.mem_singleton.mp same
      exact fun eq => new (eq ▸ old)⟩

theorem Uses.of_append (uses : Uses (front ++ back) held) : ∃ kept, Uses front kept := by
  induction back using List.reverseRecOn generalizing held with
  | nil => exact ⟨held, by simpa using uses⟩
  | append_singleton back last ih =>
    generalize whole : front ++ (back ++ [last]) = events at uses
    rw [← List.append_assoc] at whole
    cases uses with
    | start => simp at whole
    | acquire uses fresh =>
      obtain ⟨rfl, -⟩ := List.append_inj' whole rfl
      exact ih uses
    | release uses here =>
      obtain ⟨rfl, -⟩ := List.append_inj' whole rfl
      exact ih uses

/-- What is released is held at that moment. -/
theorem Uses.held_before (uses : Uses (front ++ .release x :: back) held) :
    ∃ kept, Uses front kept ∧ x ∈ kept := by
  obtain ⟨kept, uses⟩ : ∃ kept, Uses (front ++ [.release x]) kept := by
    rw [List.append_cons] at uses
    exact uses.of_append
  generalize whole : front ++ [.release x] = events at uses
  cases uses with
  | start => simp at whole
  | acquire uses fresh =>
    obtain ⟨-, last⟩ := List.append_inj' whole rfl
    simp at last
  | @release _ kept _ uses here =>
    obtain ⟨rfl, last⟩ := List.append_inj' whole rfl
    cases last
    exact ⟨kept, uses, here⟩

/-- Chooses a number that is not in use. -/
structure Allocator where
  next : Finset Nat → Nat
  fresh : ∀ inUse, next inUse ∉ inUse

/-- The numbers in use, and the number that each handle was given. -/
structure Numbers (α : Type u) where
  inUse : Finset Nat
  number : α → Option Nat

def Numbers.start (before : Finset Nat) : Numbers α := ⟨before, fun _ => none⟩

def Numbers.step (a : Allocator) (t : Numbers α) : Handling α → Numbers α
  | .acquire x =>
    ⟨insert (a.next t.inUse) t.inUse, Function.update t.number x (some (a.next t.inUse))⟩
  | .release x =>
    match t.number x with
    | some n => ⟨t.inUse.erase n, t.number⟩
    | none => t

def Numbers.run (a : Allocator) (t : Numbers α) (events : List (Handling α)) : Numbers α :=
  events.foldl (Numbers.step a) t

variable {a : Allocator} {t : Numbers α} {before : Finset Nat}

/-- In use are the numbers of before and one for each handle that is held. -/
structure Numbers.Holding (before : Finset Nat) (held : Finset α) (t : Numbers α) : Prop where
  numbered : ∀ x ∈ held, ∃ n, t.number x = some n ∧ n ∉ before
  apart : ∀ x ∈ held, ∀ y ∈ held, t.number x = t.number y → x = y
  inUse : ∀ n, n ∈ t.inUse ↔ n ∈ before ∨ ∃ x ∈ held, t.number x = some n

theorem Numbers.Holding.acquire (holding : t.Holding before held) (new : x ∉ held) :
    (t.step a (.acquire x)).Holding before (insert x held) := by
  have free : a.next t.inUse ∉ t.inUse := a.fresh t.inUse
  have unnamed : ∀ y ∈ held, t.number y ≠ some (a.next t.inUse) := by
    intro y mem same
    exact free ((holding.inUse _).mpr (Or.inr ⟨y, mem, same⟩))
  have self : (t.step a (.acquire x)).number x = some (a.next t.inUse) :=
    Function.update_self x _ _
  have others : ∀ y ∈ held, (t.step a (.acquire x)).number y = t.number y := by
    intro y mem
    apply Function.update_of_ne
    rintro rfl
    exact new mem
  constructor
  · intro y mem
    rcases Finset.mem_insert.mp mem with rfl | old
    · exact ⟨_, self, fun taken => free ((holding.inUse _).mpr (Or.inl taken))⟩
    · rw [others y old]
      exact holding.numbered y old
  · intro y first z second same
    rcases Finset.mem_insert.mp first with rfl | old
    · rcases Finset.mem_insert.mp second with rfl | kept
      · rfl
      · rw [self, others z kept] at same
        exact absurd same.symm (unnamed z kept)
    · rcases Finset.mem_insert.mp second with rfl | kept
      · rw [self, others y old] at same
        exact absurd same (unnamed y old)
      · rw [others y old, others z kept] at same
        exact holding.apart y old z kept same
  · intro n
    have kept : (∃ y ∈ held, (t.step a (.acquire x)).number y = some n) ↔
        ∃ y ∈ held, t.number y = some n := by
      constructor
      · rintro ⟨y, mem, same⟩
        exact ⟨y, mem, others y mem ▸ same⟩
      · rintro ⟨y, mem, same⟩
        exact ⟨y, mem, (others y mem).trans same⟩
    have added : n ∈ (t.step a (.acquire x)).inUse ↔ n = a.next t.inUse ∨ n ∈ t.inUse :=
      Finset.mem_insert
    rw [added, holding.inUse, Finset.exists_mem_insert, kept, self]
    grind

theorem Numbers.Holding.release (holding : t.Holding before held) (mem : x ∈ held) :
    (t.step a (.release x)).Holding before (held.erase x) := by
  obtain ⟨n, named, new⟩ := holding.numbered x mem
  have after : t.step a (.release x) = ⟨t.inUse.erase n, t.number⟩ := by
    simp only [Numbers.step, named]
  rw [after]
  constructor
  · intro y kept
    exact holding.numbered y (Finset.mem_of_mem_erase kept)
  · intro y first z second same
    exact holding.apart y (Finset.mem_of_mem_erase first) z (Finset.mem_of_mem_erase second) same
  · intro m
    rw [Finset.mem_erase, holding.inUse]
    constructor
    · rintro ⟨other, old | ⟨y, kept, same⟩⟩
      · exact Or.inl old
      · refine Or.inr ⟨y, Finset.mem_erase.mpr ⟨?_, kept⟩, same⟩
        rintro rfl
        rw [named] at same
        exact other (Option.some.inj same).symm
    · rintro (old | ⟨y, kept, same⟩)
      · exact ⟨fun eq => new (eq ▸ old), Or.inl old⟩
      · obtain ⟨other, here⟩ := Finset.mem_erase.mp kept
        refine ⟨?_, Or.inr ⟨y, here, same⟩⟩
        rintro rfl
        exact other (holding.apart y here x mem (same.trans named.symm))

theorem Uses.holding (uses : Uses events held) (a : Allocator) (before : Finset Nat) :
    (Numbers.run a (.start before) events).Holding before held := by
  induction uses with
  | start =>
    constructor
    · simp
    · simp
    · simp [Numbers.run, Numbers.start]
  | acquire uses fresh ih =>
    rw [Numbers.run, List.foldl_append]
    exact ih.acquire fun old => fresh (uses.acquired_of_mem old)
  | release uses here ih =>
    rw [Numbers.run, List.foldl_append]
    exact ih.release (a := a) here

theorem Uses.inUse_none (uses : Uses events ∅) (a : Allocator) (before : Finset Nat) :
    (Numbers.run a (.start before) events).inUse = before := by
  ext n
  simpa using (uses.holding a before).inUse n

theorem Uses.inUse_one (uses : Uses events {x}) (a : Allocator) (before : Finset Nat) :
    ∃ n, n ∉ before ∧ (Numbers.run a (.start before) events).number x = some n ∧
      (Numbers.run a (.start before) events).inUse = insert n before := by
  have holding := uses.holding a before
  obtain ⟨n, named, new⟩ := holding.numbered x (Finset.mem_singleton_self x)
  refine ⟨n, new, named, ?_⟩
  ext m
  rw [holding.inUse, Finset.mem_insert]
  simp only [Finset.mem_singleton, exists_eq_left, named, Option.some.injEq]
  grind

theorem Uses.release_inUse (uses : Uses (front ++ .release x :: back) held) (a : Allocator)
    (before : Finset Nat) : ∃ n, n ∉ before ∧
      (Numbers.run a (.start before) front).number x = some n ∧
      n ∈ (Numbers.run a (.start before) front).inUse := by
  obtain ⟨kept, uses, here⟩ := uses.held_before
  have holding := uses.holding a before
  obtain ⟨n, named, new⟩ := holding.numbered x here
  exact ⟨n, new, named, (holding.inUse n).mpr (Or.inr ⟨x, here, named⟩)⟩

end Handles
