import Mathlib.Algebra.Ring.Nat
import Mathlib.Data.List.Basic
import Mathlib.Data.List.GetD
import Mathlib.Tactic.Common

/-!
# Base64

The standard encoding of bytes, three to four letters, with padding, and its strict
decoder: the padding has to be there, and the bits it leaves over have to be zero.
Each inverts the other.
-/

set_option autoImplicit false

namespace FryFirmware.Lib.Base64

/-- `A` to `Z`, `a` to `z`, `0` to `9`, `+` and `/`. -/
def alphabet : List UInt8 :=
  (List.range 26).map (fun i => (65 + i).toUInt8) ++ (List.range 26).map (fun i => (97 + i).toUInt8) ++
    (List.range 10).map (fun i => (48 + i).toUInt8) ++ [43, 47]

def letter (value : Nat) : UInt8 := alphabet.getD value 0

def value (c : UInt8) : Option Nat := alphabet.findIdx? fun letter => letter = c

def pad : UInt8 := 61

def encode : List UInt8 → List UInt8
  | [] => []
  | [a] => [letter (a.toNat / 4), letter (a.toNat % 4 * 16), pad, pad]
  | [a, b] =>
      [letter (a.toNat / 4), letter (a.toNat % 4 * 16 + b.toNat / 16), letter (b.toNat % 16 * 4), pad]
  | a :: b :: c :: rest =>
      letter (a.toNat / 4) :: letter (a.toNat % 4 * 16 + b.toNat / 16) ::
        letter (b.toNat % 16 * 4 + c.toNat / 64) :: letter (c.toNat % 64) :: encode rest

/-- The last four letters with two of padding. -/
def decodeOne (p q : UInt8) : Option (List UInt8) :=
  match value p, value q with
  | some p, some q => if q % 16 = 0 then some [(p * 4 + q / 16).toUInt8] else none
  | _, _ => none

/-- The last four letters with one of padding. -/
def decodeTwo (p q r : UInt8) : Option (List UInt8) :=
  match value p, value q, value r with
  | some p, some q, some r =>
      if r % 4 = 0 then some [(p * 4 + q / 16).toUInt8, (q % 16 * 16 + r / 4).toUInt8] else none
  | _, _, _ => none

def decodeThree (p q r s : UInt8) : Option (List UInt8) :=
  match value p, value q, value r, value s with
  | some p, some q, some r, some s =>
      some [(p * 4 + q / 16).toUInt8, (q % 16 * 16 + r / 4).toUInt8, (r % 4 * 64 + s).toUInt8]
  | _, _, _, _ => none

def decode : List UInt8 → Option (List UInt8)
  | [] => some []
  | p :: q :: r :: s :: rest =>
      if s = pad ∧ rest = [] then if r = pad then decodeOne p q else decodeTwo p q r
      else (decodeThree p q r s).bind fun bytes => (decode rest).map (bytes ++ ·)
  | _ => none

/-! ## Letters -/

theorem value_letter {v : Nat} (small : v < 64) : value (letter v) = some v := by
  have all : ∀ v < 64, value (letter v) = some v := by decide
  exact all v small

theorem letter_value {c : UInt8} {v : Nat} (found : value c = some v) : letter v = c ∧ v < 64 := by
  obtain ⟨inside, same, -⟩ := List.findIdx?_eq_some_iff_getElem.mp found
  refine ⟨?_, inside⟩
  rw [letter, List.getD_eq_getElem _ _ inside]
  exact of_decide_eq_true same

theorem value_pad : value pad = none := by decide

theorem letter_ne_pad {v : Nat} (small : v < 64) : letter v ≠ pad := by
  intro same
  have found := value_letter small
  rw [same, value_pad] at found
  cases found

/-! ## Decoding what was encoded -/

theorem toUInt8_eq {a : UInt8} {n : Nat} (same : n = a.toNat) : n.toUInt8 = a := by
  rw [same]
  exact UInt8.ofNat_toNat

theorem decode_encode (bytes : List UInt8) : decode (encode bytes) = some bytes := by
  fun_induction encode bytes with
  | case1 => rfl
  | case2 a =>
      have first := a.toNat_lt
      have p := value_letter (v := a.toNat / 4) (by omega)
      have q := value_letter (v := a.toNat % 4 * 16) (by omega)
      rw [decode, if_pos ⟨rfl, rfl⟩, if_pos rfl, decodeOne, p, q]
      simp only
      rw [if_pos (by omega), toUInt8_eq (a := a) (by omega)]
  | case3 a b =>
      have first := a.toNat_lt
      have second := b.toNat_lt
      have p := value_letter (v := a.toNat / 4) (by omega)
      have q := value_letter (v := a.toNat % 4 * 16 + b.toNat / 16) (by omega)
      have r := value_letter (v := b.toNat % 16 * 4) (by omega)
      rw [decode, if_pos ⟨rfl, rfl⟩, if_neg (letter_ne_pad (by omega)), decodeTwo, p, q, r]
      simp only
      rw [if_pos (by omega), toUInt8_eq (a := a) (by omega), toUInt8_eq (a := b) (by omega)]
  | case4 a b c rest ih =>
      have first := a.toNat_lt
      have second := b.toNat_lt
      have third := c.toNat_lt
      have p := value_letter (v := a.toNat / 4) (by omega)
      have q := value_letter (v := a.toNat % 4 * 16 + b.toNat / 16) (by omega)
      have r := value_letter (v := b.toNat % 16 * 4 + c.toNat / 64) (by omega)
      have s := value_letter (v := c.toNat % 64) (by omega)
      have whole : ¬ (letter (c.toNat % 64) = pad ∧ encode rest = []) :=
        fun last => letter_ne_pad (by omega) last.1
      rw [decode, if_neg whole, decodeThree, p, q, r, s, ih]
      simp only [Option.bind_some, Option.map_some]
      rw [toUInt8_eq (a := a) (by omega), toUInt8_eq (a := b) (by omega),
        toUInt8_eq (a := c) (by omega)]
      rfl

/-! ## Encoding what was decoded -/

theorem toNat_toUInt8 {n : Nat} (small : n < 256) : n.toUInt8.toNat = n := by
  rw [UInt8.toNat_ofNat_of_lt' small]

theorem encode_decodeOne {p q : UInt8} {bytes : List UInt8} (decoded : decodeOne p q = some bytes) :
    encode bytes = [p, q, pad, pad] := by
  unfold decodeOne at decoded
  split at decoded
  · next v w first second =>
    obtain ⟨rfl, low⟩ := letter_value first
    obtain ⟨rfl, high⟩ := letter_value second
    split at decoded
    · next zero =>
      cases decoded
      rw [encode, toNat_toUInt8 (by omega), show (v * 4 + w / 16) / 4 = v by omega,
        show (v * 4 + w / 16) % 4 * 16 = w by omega]
    · cases decoded
  · cases decoded

theorem encode_decodeTwo {p q r : UInt8} {bytes : List UInt8}
    (decoded : decodeTwo p q r = some bytes) : encode bytes = [p, q, r, pad] := by
  unfold decodeTwo at decoded
  split at decoded
  · next v w x first second third =>
    obtain ⟨rfl, low⟩ := letter_value first
    obtain ⟨rfl, middle⟩ := letter_value second
    obtain ⟨rfl, high⟩ := letter_value third
    split at decoded
    · next zero =>
      cases decoded
      rw [encode, toNat_toUInt8 (by omega), toNat_toUInt8 (by omega),
        show (v * 4 + w / 16) / 4 = v by omega,
        show (v * 4 + w / 16) % 4 * 16 + (w % 16 * 16 + x / 4) / 16 = w by omega,
        show (w % 16 * 16 + x / 4) % 16 * 4 = x by omega]
    · cases decoded
  · cases decoded

theorem encode_decodeThree {p q r s : UInt8} {bytes : List UInt8}
    (decoded : decodeThree p q r s = some bytes) (rest : List UInt8) :
    encode (bytes ++ rest) = p :: q :: r :: s :: encode rest := by
  unfold decodeThree at decoded
  split at decoded
  · next v w x y first second third fourth =>
    obtain ⟨rfl, low⟩ := letter_value first
    obtain ⟨rfl, lower⟩ := letter_value second
    obtain ⟨rfl, higher⟩ := letter_value third
    obtain ⟨rfl, high⟩ := letter_value fourth
    cases decoded
    rw [List.cons_append, List.cons_append, List.cons_append, List.nil_append, encode,
      toNat_toUInt8 (by omega), toNat_toUInt8 (by omega), toNat_toUInt8 (by omega),
      show (v * 4 + w / 16) / 4 = v by omega,
      show (v * 4 + w / 16) % 4 * 16 + (w % 16 * 16 + x / 4) / 16 = w by omega,
      show (w % 16 * 16 + x / 4) % 16 * 4 + (x % 4 * 64 + y) / 64 = x by omega,
      show (x % 4 * 64 + y) % 64 = y by omega]
  · cases decoded

theorem encode_of_decode {text bytes : List UInt8} (decoded : decode text = some bytes) :
    encode bytes = text := by
  fun_induction decode text generalizing bytes with
  | case1 =>
      cases decoded
      rfl
  | case2 p q s rest last =>
      obtain ⟨rfl, rfl⟩ := last
      exact encode_decodeOne decoded
  | case3 p q r s rest last other =>
      obtain ⟨rfl, rfl⟩ := last
      exact encode_decodeTwo decoded
  | case4 p q r s rest more ih =>
      obtain ⟨front, three, later⟩ := Option.bind_eq_some_iff.mp decoded
      obtain ⟨back, tail, rfl⟩ := Option.map_eq_some_iff.mp later
      rw [encode_decodeThree three, ih tail]
  | case5 => cases decoded

end FryFirmware.Lib.Base64
