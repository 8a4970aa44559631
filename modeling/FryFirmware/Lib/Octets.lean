import Mathlib.Algebra.Ring.Nat
import Mathlib.Data.List.Basic
import Mathlib.Tactic.Common
import Mathlib.Tactic.Linarith

/-!
# Words of bytes

Facts about every byte, and what a word of four bytes put side by side is worth.
-/

set_option autoImplicit false

namespace FryFirmware.Lib

/-- A property of every byte, by trying them all. -/
theorem forall_byte {p : UInt8 → Prop} (all : ∀ n : Fin 256, p (UInt8.ofFin n)) (c : UInt8) : p c :=
  all c.toFin

theorem or_shifted {high low : Nat} (shift : Nat) (small : low < 2 ^ shift) :
    high * 2 ^ shift ||| low = high * 2 ^ shift + low := by
  rw [Nat.mul_comm, Nat.two_pow_add_eq_or_of_lt small]

theorem toNat_byte_shiftLeft {x k : UInt32} (byte : x.toNat ≤ 255) (few : k.toNat ≤ 24) :
    (x <<< k).toNat = x.toNat * 2 ^ k.toNat := by
  have limit : 2 ^ k.toNat ≤ 2 ^ 24 := Nat.pow_le_pow_right (by decide) few
  rw [UInt32.toNat_shiftLeft, Nat.shiftLeft_eq, Nat.mod_eq_of_lt (a := k.toNat) (by omega)]
  exact Nat.mod_eq_of_lt (by nlinarith)

theorem toNat_octets {a b c d : UInt32} (first : a.toNat ≤ 255) (second : b.toNat ≤ 255)
    (third : c.toNat ≤ 255) (fourth : d.toNat ≤ 255) :
    (a <<< 24 ||| b <<< 16 ||| c <<< 8 ||| d).toNat =
      ((a.toNat * 256 + b.toNat) * 256 + c.toNat) * 256 + d.toNat := by
  rw [UInt32.toNat_or, UInt32.toNat_or, UInt32.toNat_or, toNat_byte_shiftLeft first (by decide),
    toNat_byte_shiftLeft second (by decide), toNat_byte_shiftLeft third (by decide)]
  simp only [UInt32.reduceToNat]
  have two := @or_shifted a.toNat (b.toNat * 2 ^ 16) 24 (by omega)
  have three := @or_shifted (a.toNat * 256 + b.toNat) (c.toNat * 2 ^ 8) 16 (by omega)
  have four := @or_shifted ((a.toNat * 256 + b.toNat) * 256 + c.toNat) d.toNat 8
    (by omega)
  rw [two, show a.toNat * 2 ^ 24 + b.toNat * 2 ^ 16 = (a.toNat * 256 + b.toNat) * 2 ^ 16 by omega,
    three, show (a.toNat * 256 + b.toNat) * 2 ^ 16 + c.toNat * 2 ^ 8 =
      ((a.toNat * 256 + b.toNat) * 256 + c.toNat) * 2 ^ 8 by omega, four]
  simp only [Nat.reducePow]

end FryFirmware.Lib
