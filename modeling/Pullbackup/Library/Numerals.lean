import Mathlib.Data.List.Basic
import Mathlib.Data.Rat.Floor
import Mathlib.Tactic.Linarith

/- Numbers as the language of the program drops their fraction and writes them. -/
namespace Numerals

/-- int() of a float drops the fraction. -/
def truncate (q : ℚ) : Int := if 0 ≤ q then ⌊q⌋ else ⌈q⌉

theorem truncate_of_nonneg {q : ℚ} (nonneg : 0 ≤ q) : truncate q = ⌊q⌋ := if_pos nonneg

theorem truncate_intCast_add {n : Int} {q : ℚ} (nonneg : 0 ≤ (n : ℚ) + q) :
    truncate (n + q) = n + ⌊q⌋ := by
  rw [truncate_of_nonneg nonneg, add_comm, Int.floor_add_intCast, add_comm]

theorem truncate_intCast (n : Int) : truncate n = n := by
  unfold truncate
  split
  · exact Int.floor_intCast n
  · exact Int.ceil_intCast n

/-- A number is written in digits, after a minus sign when it is negative. -/
theorem number_character {n : Int} {c : Char} (mem : c ∈ (toString n).toList) :
    c.isDigit = true ∨ c = '-' := by
  have digits : ∀ {k : Nat}, c ∈ k.repr.toList → c.isDigit = true := by
    intro k letter
    rw [Nat.repr, String.toList_ofList] at letter
    exact Nat.isDigit_of_mem_toDigits (by decide) (by decide) letter
  rw [Int.toString_eq_repr] at mem
  cases n with
  | ofNat k => exact .inl (digits mem)
  | negSucc k =>
    rw [Int.repr, String.toList_append] at mem
    rcases List.mem_append.mp mem with sign | letter
    · exact .inr (by simpa using sign)
    · exact .inl (digits letter)

theorem number_ne_empty (n : Int) : toString n ≠ "" := by
  rw [Int.toString_eq_repr]
  cases n with
  | ofNat k => exact Nat.repr_ne_empty
  | negSucc k =>
    intro blank
    have letters := congrArg String.toList blank
    simp [Int.repr] at letters

end Numerals
