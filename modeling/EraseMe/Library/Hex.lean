import Mathlib.Data.String.Basic
import Mathlib.Tactic.IntervalCases

/-!
# Hexadecimal digits

Octets as pairs of lower-case digits, and the reading of digits of either case.
-/

namespace Hex

/-- The value of a digit. -/
def value (c : Char) : Option ℕ :=
  if '0' ≤ c ∧ c ≤ '9' then some (c.toNat - 48)
  else if 'a' ≤ c ∧ c ≤ 'f' then some (c.toNat - 87)
  else if 'A' ≤ c ∧ c ≤ 'F' then some (c.toNat - 55)
  else none

/-- Two digits for each octet. -/
def encode : List UInt8 → List Char
  | [] => []
  | b :: s => Nat.digitChar (b.toNat / 16) :: Nat.digitChar (b.toNat % 16) :: encode s

/-- Octets of digits. -/
def decode : List Char → Option (List UInt8)
  | [] => some []
  | a :: b :: s => do
      let high ← value a
      let low ← value b
      let rest ← decode s
      some (UInt8.ofNat (16 * high + low) :: rest)
  | [_] => none

theorem value_digitChar {n : ℕ} (h : n < 16) : value (Nat.digitChar n) = some n := by
  interval_cases n <;> rfl

theorem decode_encode (s : List UInt8) : decode (encode s) = some s := by
  induction s with
  | nil => rfl
  | cons b s ih =>
    have hb := b.toNat_lt
    have hhigh : b.toNat / 16 < 16 := by omega
    have hlow : b.toNat % 16 < 16 := by omega
    have hbyte : 16 * (b.toNat / 16) + b.toNat % 16 = b.toNat := by omega
    simp only [encode, decode, value_digitChar hhigh, value_digitChar hlow, ih,
      Option.bind_eq_bind, Option.bind_some, hbyte, UInt8.ofNat_toNat]

end Hex
