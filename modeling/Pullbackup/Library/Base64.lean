import Mathlib.Data.List.Basic

/- Base64 with padding, and the strict reading of it: nothing but the alphabet, padding only
   where a last group needs it, and nothing after it. Bits that a padded group does not use
   are not looked at. -/
namespace Base64

def digits : List Char :=
  "ABCDEFGHIJKLMNOPQRSTUVWXYZabcdefghijklmnopqrstuvwxyz0123456789+/".toList

def digit (n : Nat) : Char := digits.getD n 'A'

def value (c : Char) : Option Nat := digits.idxOf? c

def byte (n : Nat) : UInt8 := UInt8.ofNat n

def encode : List UInt8 → List Char
  | [] => []
  | [a] => [digit (a.toNat / 4), digit (a.toNat % 4 * 16), '=', '=']
  | [a, b] =>
    [digit (a.toNat / 4), digit (a.toNat % 4 * 16 + b.toNat / 16), digit (b.toNat % 16 * 4), '=']
  | a :: b :: c :: rest =>
    digit (a.toNat / 4) :: digit (a.toNat % 4 * 16 + b.toNat / 16) ::
      digit (b.toNat % 16 * 4 + c.toNat / 64) :: digit (c.toNat % 64) :: encode rest

def group (w x y z : Char) : Option (List UInt8 × Bool) :=
  match value w, value x with
  | some w, some x =>
    if y = '=' then if z = '=' then some ([byte (w * 4 + x / 16)], true) else none
    else
      match value y with
      | none => none
      | some y =>
        let two := [byte (w * 4 + x / 16), byte (x % 16 * 16 + y / 4)]
        if z = '=' then some (two, true)
        else
          match value z with
          | none => none
          | some z => some (two ++ [byte (y % 4 * 64 + z)], false)
  | _, _ => none

def decode : List Char → Option (List UInt8)
  | [] => some []
  | w :: x :: y :: z :: rest =>
    match group w x y z with
    | none => none
    | some (bytes, true) => if rest = [] then some bytes else none
    | some (bytes, false) => (decode rest).map (bytes ++ ·)
  | _ => none

theorem value_digit {n : Nat} (small : n < 64) : value (digit n) = some n := by
  have all : ∀ n : Fin 64, value (digit n) = some n.val := by decide +kernel
  exact all ⟨n, small⟩

theorem digit_ne_pad {n : Nat} (small : n < 64) : digit n ≠ '=' := by
  have all : ∀ n : Fin 64, digit n ≠ '=' := by decide +kernel
  exact all ⟨n, small⟩

theorem byte_toNat (a : UInt8) {n : Nat} (same : n = a.toNat) : byte n = a := by
  rw [same]
  exact UInt8.ofNat_toNat

section Groups
variable (a b c : UInt8)

theorem group_one : group (digit (a.toNat / 4)) (digit (a.toNat % 4 * 16)) '=' '=' =
    some ([a], true) := by
  have bound := a.toNat_lt
  rw [group, value_digit (by omega), value_digit (by omega)]
  simp only [if_true]
  rw [byte_toNat a (by omega)]

theorem group_two : group (digit (a.toNat / 4)) (digit (a.toNat % 4 * 16 + b.toNat / 16))
    (digit (b.toNat % 16 * 4)) '=' = some ([a, b], true) := by
  have bound := a.toNat_lt
  have bound' := b.toNat_lt
  rw [group, value_digit (by omega), value_digit (by omega)]
  simp only [if_neg (digit_ne_pad (show b.toNat % 16 * 4 < 64 by omega)), if_true]
  rw [value_digit (by omega)]
  simp only
  rw [byte_toNat a (by omega), byte_toNat b (by omega)]

theorem group_three : group (digit (a.toNat / 4)) (digit (a.toNat % 4 * 16 + b.toNat / 16))
    (digit (b.toNat % 16 * 4 + c.toNat / 64)) (digit (c.toNat % 64)) =
      some ([a, b, c], false) := by
  have bound := a.toNat_lt
  have bound' := b.toNat_lt
  have bound'' := c.toNat_lt
  rw [group, value_digit (by omega), value_digit (by omega)]
  simp only [if_neg (digit_ne_pad (show b.toNat % 16 * 4 + c.toNat / 64 < 64 by omega)),
    if_neg (digit_ne_pad (show c.toNat % 64 < 64 by omega))]
  rw [value_digit (by omega), value_digit (by omega)]
  simp only [List.cons_append, List.nil_append]
  rw [byte_toNat a (by omega), byte_toNat b (by omega), byte_toNat c (by omega)]

end Groups

theorem decode_encode (bytes : List UInt8) : decode (encode bytes) = some bytes := by
  induction bytes using encode.induct with
  | case1 => rfl
  | case2 a => rw [encode, decode, group_one]; rfl
  | case3 a b => rw [encode, decode, group_two]; rfl
  | case4 a b c rest ih =>
    rw [encode, decode, group_three]
    simp only [ih, Option.map_some, List.cons_append, List.nil_append]

end Base64
