import Mathlib.Algebra.Ring.Nat
import Mathlib.Data.List.Basic
import Mathlib.Data.Nat.Find
import Mathlib.Data.Nat.NthRoot.Defs
import Mathlib.Data.Nat.Prime.Basic
import Mathlib.Tactic.Common
import Mathlib.Tactic.Ring

/-!
# SHA-256

The hash of FIPS 180-4 for messages of bits: the functions and constants of section 4,
the padding of section 5 and the computation of section 6.2.
-/

set_option autoImplicit false

namespace FryFirmware.Lib.Fips180

abbrev Word := BitVec 32

/-! ## Functions -/

def Ch (x y z : Word) : Word := (x &&& y) ^^^ (~~~x &&& z)
def Maj (x y z : Word) : Word := (x &&& y) ^^^ (x &&& z) ^^^ (y &&& z)
def bigSigma0 (x : Word) : Word := x.rotateRight 2 ^^^ x.rotateRight 13 ^^^ x.rotateRight 22
def bigSigma1 (x : Word) : Word := x.rotateRight 6 ^^^ x.rotateRight 11 ^^^ x.rotateRight 25
def smallSigma0 (x : Word) : Word := x.rotateRight 7 ^^^ x.rotateRight 18 ^^^ (x >>> 3)
def smallSigma1 (x : Word) : Word := x.rotateRight 17 ^^^ x.rotateRight 19 ^^^ (x >>> 10)

/-! ## Constants -/

/-- The first sixty-four primes. -/
def primes : List Nat := (List.range 312).filter fun n => Nat.Prime n

/-- A number below 19² is prime where no smaller prime divides it. -/
theorem prime_iff {n : Nat} (small : n < 361) :
    Nat.Prime n ↔ 2 ≤ n ∧ ∀ p ∈ [2, 3, 5, 7, 11, 13, 17], p ∣ n → p = n := by
  constructor
  · intro prime
    refine ⟨prime.two_le, fun p member divides => ?_⟩
    have proper : p ≠ 1 := by
      rintro rfl
      exact absurd member (by decide)
    exact (prime.eq_one_or_self_of_dvd p divides).resolve_left proper
  · rintro ⟨two, only⟩
    by_contra composite
    have square := Nat.minFac_sq_le_self (by omega) composite
    have factor : n.minFac.Prime := Nat.minFac_prime (by omega)
    have below : n.minFac < 19 := by
      by_contra far
      have large := Nat.pow_le_pow_left (Nat.le_of_not_lt far) 2
      omega
    have listed : ∀ p < 19, Nat.Prime p → p ∈ [2, 3, 5, 7, 11, 13, 17] := by decide
    have whole := only n.minFac (listed _ below factor) n.minFac_dvd
    exact composite (whole ▸ factor)

theorem primes_eq : primes = [
    2, 3, 5, 7, 11, 13, 17, 19, 23, 29, 31, 37, 41, 43, 47, 53, 59, 61, 67, 71, 73, 79, 83, 89,
    97, 101, 103, 107, 109, 113, 127, 131, 137, 139, 149, 151, 157, 163, 167, 173, 179, 181,
    191, 193, 197, 199, 211, 223, 227, 229, 233, 239, 241, 251, 257, 263, 269, 271, 277, 281,
    283, 293, 307, 311] := by
  have tested : ∀ n ∈ List.range 312, decide (Nat.Prime n) =
      (decide (2 ≤ n) && [2, 3, 5, 7, 11, 13, 17].all fun p => decide (n % p = 0 → p = n)) := by
    intro n member
    have small : n < 361 := (List.mem_range.mp member).trans (by decide)
    refine Bool.eq_iff_iff.mpr ?_
    simp only [decide_eq_true_eq, Bool.and_eq_true, List.all_eq_true, ← Nat.dvd_iff_mod_eq_zero,
      prime_iff small]
  rw [primes, List.filter_congr tested]
  decide +kernel

/-- The first thirty-two bits of the fractional part of a root of a prime. -/
def rootFraction (degree : Nat) (t : Nat) : Word :=
  BitVec.ofNat 32 (Nat.nthRoot degree (primes.getD t 0 * 2 ^ (32 * degree)))

def K (t : Nat) : Word := rootFraction 3 t

/-- The eight words of a hash value, and the working variables. -/
structure Hash where
  a : Word
  b : Word
  c : Word
  d : Word
  e : Word
  f : Word
  g : Word
  h : Word
  deriving DecidableEq

def initial : Hash :=
  ⟨rootFraction 2 0, rootFraction 2 1, rootFraction 2 2, rootFraction 2 3, rootFraction 2 4,
    rootFraction 2 5, rootFraction 2 6, rootFraction 2 7⟩

/-! ## Padding -/

/-- The number with these bits, the most significant first. -/
def number (bits : List Bool) : Nat := bits.foldl (fun n bit => 2 * n + bit.toNat) 0

def numeral (width n : Nat) : List Bool := (List.range width).map fun i => n.testBit (width - 1 - i)

theorem zeros_exist (l : Nat) : ∃ k, (l + 1 + k) % 512 = 448 :=
  ⟨959 - (l + 1) % 512 + 1, by omega⟩

/-- The least `k` with `l + 1 + k ≡ 448` modulo 512. -/
def zeros (l : Nat) : Nat := Nat.find (zeros_exist l)

def pad (message : List Bool) : List Bool :=
  message ++ true :: (List.replicate (zeros message.length) false ++ numeral 64 message.length)

/-- The message blocks of 512 bits. -/
def blocks (padded : List Bool) : List (List Bool) :=
  (List.range (padded.length / 512)).map fun i => (padded.drop (512 * i)).take 512

/-- The word `M_t` of a block. -/
def blockWord (block : List Bool) (t : Nat) : Word :=
  BitVec.ofNat 32 (number ((block.drop (32 * t)).take 32))

/-! ## Computation -/

/-- The message schedule `W_t`. -/
def W (block : List Bool) (t : Nat) : Word :=
  if t < 16 then blockWord block t
  else smallSigma1 (W block (t - 2)) + W block (t - 7) + smallSigma0 (W block (t - 15)) + W block (t - 16)
termination_by t

def step (block : List Bool) (v : Hash) (t : Nat) : Hash :=
  let T1 := v.h + bigSigma1 v.e + Ch v.e v.f v.g + K t + W block t
  let T2 := bigSigma0 v.a + Maj v.a v.b v.c
  ⟨T1 + T2, v.a, v.b, v.c, v.d + T1, v.e, v.f, v.g⟩

def Hash.add (v w : Hash) : Hash :=
  ⟨v.a + w.a, v.b + w.b, v.c + w.c, v.d + w.d, v.e + w.e, v.f + w.f, v.g + w.g, v.h + w.h⟩

/-- From one intermediate hash value to the next. -/
def compress (H : Hash) (block : List Bool) : Hash :=
  ((List.range 64).foldl (step block) H).add H

def Hash.bits (H : Hash) : List Bool :=
  [H.a, H.b, H.c, H.d, H.e, H.f, H.g, H.h].flatMap fun word => numeral 32 word.toNat

def sha256 (message : List Bool) : List Bool :=
  ((blocks (pad message)).foldl compress initial).bits

/-! ## Bits and numbers -/

theorem foldl_number (bits : List Bool) (n : Nat) :
    bits.foldl (fun n bit => 2 * n + bit.toNat) n = n * 2 ^ bits.length + number bits := by
  induction bits generalizing n with
  | nil => simp [number]
  | cons bit bits ih =>
      rw [number, List.foldl_cons, List.foldl_cons, ih, ih (2 * 0 + bit.toNat), List.length_cons]
      ring

theorem number_append (front back : List Bool) :
    number (front ++ back) = number front * 2 ^ back.length + number back := by
  rw [number, List.foldl_append, foldl_number]
  rfl

theorem number_cons (bit : Bool) (bits : List Bool) :
    number (bit :: bits) = bit.toNat * 2 ^ bits.length + number bits := by
  simpa [number] using number_append [bit] bits

@[simp] theorem numeral_length (width n : Nat) : (numeral width n).length = width := by
  simp [numeral]

theorem numeral_succ (width n : Nat) : numeral (width + 1) n = n.testBit width :: numeral width n := by
  rw [numeral, List.range_succ_eq_map, List.map_cons, List.map_map]
  congr 1
  refine List.map_congr_left fun i _ => ?_
  have place : width + 1 - 1 - (i + 1) = width - 1 - i := by omega
  exact congrArg n.testBit place

theorem number_numeral (width n : Nat) : number (numeral width n) = n % 2 ^ width := by
  induction width with
  | zero => simp [numeral, number, Nat.mod_one]
  | succ width ih =>
      rw [numeral_succ, number_cons, numeral_length, ih, Nat.toNat_testBit, Nat.mod_pow_succ]
      ring

/-- A numeral in two parts. -/
theorem numeral_add (high low n : Nat) :
    numeral (high + low) n = numeral high (n / 2 ^ low) ++ numeral low n := by
  induction high with
  | zero => simp [numeral]
  | succ high ih =>
      rw [Nat.add_right_comm, numeral_succ, ih, numeral_succ, Nat.testBit_div_two_pow, List.cons_append]

theorem numeral_mod (width n : Nat) : numeral width (n % 2 ^ width) = numeral width n := by
  refine List.map_congr_left fun i inside => ?_
  have few : i < width := List.mem_range.mp inside
  have place : width - 1 - i < width := by omega
  rw [Nat.testBit_mod_two_pow, decide_eq_true place, Bool.true_and]

theorem zeros_eq (l : Nat) : zeros l = (959 - l % 512) % 512 := by
  refine (Nat.find_eq_iff _).mpr ⟨by omega, fun k below => by omega⟩

end FryFirmware.Lib.Fips180
