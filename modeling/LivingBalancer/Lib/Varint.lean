import Mathlib.Data.List.Basic
import Mathlib.Tactic.Ring

/-!
# Base-128 numbers

Seven bits to a byte, the lowest first; every byte but the last has its high bit set. A number
has many spellings, as leading groups may be zero, and `encode` writes the shortest. No spelling
is a proper beginning of another.
-/

namespace Varint

/-- The bytes are one number in groups of seven bits. -/
inductive Spells : List UInt8 → ℕ → Prop
  | last {b : UInt8} (low : b.toNat < 128) : Spells [b] b.toNat
  | more {b : UInt8} {rest : List UInt8} {n : ℕ} (high : 128 ≤ b.toNat) (tail : Spells rest n) :
      Spells (b :: rest) (b.toNat % 128 + 128 * n)

/-- The shortest spelling. -/
def encode (n : ℕ) : List UInt8 :=
  if n < 128 then [UInt8.ofNat n] else UInt8.ofNat (n % 128 + 128) :: encode (n / 128)
termination_by n
decreasing_by omega

theorem toNat_ofNat {n : ℕ} (h : n < 256) : (UInt8.ofNat n).toNat = n := by
  rw [UInt8.toNat_ofNat']
  omega

theorem Spells.ne_nil {bytes : List UInt8} {n : ℕ} (h : Spells bytes n) : bytes ≠ [] := by
  cases h <;> exact List.cons_ne_nil _ _

theorem spells_encode (n : ℕ) : Spells (encode n) n := by
  induction n using Nat.strongRecOn with
  | ind n ih =>
    rw [encode]
    by_cases small : n < 128
    · have byte : (UInt8.ofNat n).toNat = n := toNat_ofNat (by omega)
      have single := Spells.last (b := UInt8.ofNat n) (by omega)
      rw [byte] at single
      rw [if_pos small]
      exact single
    · have byte : (UInt8.ofNat (n % 128 + 128)).toNat = n % 128 + 128 := toNat_ofNat (by omega)
      have whole := Spells.more (b := UInt8.ofNat (n % 128 + 128)) (by omega)
        (ih (n / 128) (by omega))
      have value : (n % 128 + 128) % 128 + 128 * (n / 128) = n := by omega
      rw [byte, value] at whole
      rw [if_neg small]
      exact whole

/-- A number below `2 ^ (7 * k)` takes at most `k` bytes. -/
theorem length_encode_le (k n : ℕ) (h : n < 2 ^ (7 * (k + 1))) : (encode n).length ≤ k + 1 := by
  induction k generalizing n with
  | zero =>
    rw [encode, if_pos (by omega)]
    simp
  | succ k ih =>
    rw [encode]
    by_cases small : n < 128
    · rw [if_pos small]
      simp
    · have power : 2 ^ (7 * (k + 1 + 1)) = 128 * 2 ^ (7 * (k + 1)) := by
        rw [show 7 * (k + 1 + 1) = 7 + 7 * (k + 1) by omega, pow_add]
        norm_num
      have quotient : n / 128 < 2 ^ (7 * (k + 1)) := by
        apply Nat.div_lt_of_lt_mul
        omega
      have := ih (n / 128) quotient
      rw [if_neg small, List.length_cons]
      omega

end Varint
