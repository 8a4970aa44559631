import FryFirmware.Lib.Base64
import FryFirmware.Wireguard.CidrProperties
import Mathlib.Algebra.Ring.Nat
import Mathlib.Data.List.Basic
import Mathlib.Data.List.GetD
import Mathlib.Data.List.TakeDrop
import Mathlib.Tactic.Common

/-!
# Keys as text

The key strings of `lib/fry_core/wg_provision.cpp`. The encoder writes what the
standard encoding of 32 bytes is, and the shape check accepts nothing else.
-/

set_option autoImplicit false

namespace FryFirmware.Wireguard

open Lib Config

/-! ## The source -/

def kB64Alphabet : Text := text "ABCDEFGHIJKLMNOPQRSTUVWXYZabcdefghijklmnopqrstuvwxyz0123456789+/"

/-- The index of the letter, or -1. -/
def b64Value (c : UInt8) : Int :=
  match kB64Alphabet.findIdx? fun letter => letter = c with
  | some i => i
  | none => -1

def isWgKeyB64 : CString → Bool
  | none => false
  | some s =>
      if s.length ≠ 44 then false
      else if s.getD 43 0 ≠ 61 then false
      else if !(List.range 42).all fun i => b64Value (s.getD i 0) ≥ 0 then false
      else
        let last := b64Value (s.getD 42 0)
        !(last < 0 || last % 4 ≠ 0)

def b64Letter (v shift : UInt32) : UInt8 := kB64Alphabet.getD (v >>> shift &&& 0x3F).toNat 0

/-- The groups of three bytes, and the tail of two. -/
def encodeGroups : List UInt8 → Text
  | a :: b :: c :: rest =>
      let v := a.toUInt32 <<< 16 ||| b.toUInt32 <<< 8 ||| c.toUInt32
      b64Letter v 18 :: b64Letter v 12 :: b64Letter v 6 :: b64Letter v 0 :: encodeGroups rest
  | [a, b] =>
      let v := a.toUInt32 <<< 16 ||| b.toUInt32 <<< 8
      [b64Letter v 18, b64Letter v 12, b64Letter v 6, 61]
  | _ => []

abbrev Key := Vector UInt8 32

/-- What `out` holds afterwards, and the result. -/
def encodeWgKeyB64 (key : Option Key) (out : CString) (outLen : Nat) : CString × Nat :=
  match key, out with
  | some key, some _ =>
      if outLen < 45 then (out, 0) else (some (encodeGroups key.toList), 45)
  | _, _ => (out, 0)

/-! ## The letters -/

theorem kB64Alphabet_eq : kB64Alphabet = Base64.alphabet := by decide

theorem b64Value_eq (c : UInt8) : b64Value c = ((Base64.value c).map Int.ofNat).getD (-1) := by
  rw [b64Value, kB64Alphabet_eq, ← Base64.value]
  cases Base64.value c <;> rfl

theorem b64Value_nonneg {c : UInt8} : b64Value c ≥ 0 ↔ ∃ v, Base64.value c = some v := by
  rw [b64Value_eq]
  cases Base64.value c with
  | none => simp
  | some v => simp

theorem b64Letter_eq (v shift : UInt32) (few : shift.toNat < 32) :
    b64Letter v shift = Base64.letter (v.toNat / 2 ^ shift.toNat % 64) := by
  rw [b64Letter, kB64Alphabet_eq, ← Base64.letter, UInt32.toNat_and, UInt32.toNat_shiftRight,
    Nat.mod_eq_of_lt few, Nat.shiftRight_eq_div_pow]
  exact congrArg Base64.letter (Nat.and_two_pow_sub_one_eq_mod _ 6)

/-! ## The encoder -/

theorem toNat_group (a b c : UInt8) :
    (a.toUInt32 <<< 16 ||| b.toUInt32 <<< 8 ||| c.toUInt32).toNat =
      (a.toNat * 256 + b.toNat) * 256 + c.toNat := by
  have first := a.toNat_lt
  have second := b.toNat_lt
  have third := c.toNat_lt
  rw [UInt32.toNat_or, UInt32.toNat_or,
    toNat_byte_shiftLeft (by rw [UInt8.toNat_toUInt32]; omega) (by decide),
    toNat_byte_shiftLeft (by rw [UInt8.toNat_toUInt32]; omega) (by decide)]
  simp only [UInt8.toNat_toUInt32, UInt32.reduceToNat]
  have two := @or_shifted a.toNat (b.toNat * 2 ^ 8) 16 (by omega)
  have three := @or_shifted (a.toNat * 256 + b.toNat) c.toNat 8 (by omega)
  rw [two, show a.toNat * 2 ^ 16 + b.toNat * 2 ^ 8 = (a.toNat * 256 + b.toNat) * 2 ^ 8 by omega,
    three]
  simp only [Nat.reducePow]

theorem group_letters (a b c : UInt8) {v : UInt32}
    (group : v.toNat = (a.toNat * 256 + b.toNat) * 256 + c.toNat) :
    b64Letter v 18 = Base64.letter (a.toNat / 4) ∧
      b64Letter v 12 = Base64.letter (a.toNat % 4 * 16 + b.toNat / 16) ∧
      b64Letter v 6 = Base64.letter (b.toNat % 16 * 4 + c.toNat / 64) ∧
      b64Letter v 0 = Base64.letter (c.toNat % 64) := by
  have first := a.toNat_lt
  have second := b.toNat_lt
  have third := c.toNat_lt
  rw [b64Letter_eq v 18 (by decide), b64Letter_eq v 12 (by decide), b64Letter_eq v 6 (by decide),
    b64Letter_eq v 0 (by decide), group]
  simp only [UInt32.reduceToNat, Nat.reducePow]
  refine ⟨congrArg _ ?_, congrArg _ ?_, congrArg _ ?_, congrArg _ ?_⟩ <;> omega

theorem encodeGroups_eq {bytes : List UInt8} (tail : bytes.length % 3 = 2) :
    encodeGroups bytes = Base64.encode bytes := by
  fun_induction encodeGroups bytes with
  | case1 a b c rest v ih =>
      obtain ⟨first, second, third, fourth⟩ := group_letters a b c (toNat_group a b c)
      rw [Base64.encode, first, second, third, fourth, ih (by simp at tail; omega)]
  | case2 a b v =>
      have group : v.toNat = (a.toNat * 256 + b.toNat) * 256 + (0 : UInt8).toNat := by
        rw [← toNat_group]
        exact congrArg UInt32.toNat (UInt32.or_zero).symm
      obtain ⟨first, second, third, -⟩ := group_letters a b 0 group
      rw [Base64.encode, first, second, third]
      rfl
  | case3 bytes groups two =>
      exfalso
      cases bytes with
      | nil => cases tail
      | cons a bytes =>
          cases bytes with
          | nil => cases tail
          | cons b bytes =>
              cases bytes with
              | nil => exact two a b rfl
              | cons c rest => exact groups a b c rest rfl

/-! ## The shape check -/

/-- Groups in front are decoded apart from what follows. -/
theorem decode_groups {groups : Nat} {front : Text} (count : front.length = 4 * groups)
    (letters : ∀ c ∈ front, ∃ v, Base64.value c = some v) (back : Text) :
    ∃ bytes, bytes.length = 3 * groups ∧
      Base64.decode (front ++ back) = (Base64.decode back).map (bytes ++ ·) := by
  induction groups generalizing front with
  | zero =>
      obtain rfl := List.length_eq_zero_iff.mp count
      exact ⟨[], rfl, by simp⟩
  | succ groups ih =>
      match front, count with
      | p :: q :: r :: s :: front, count =>
          obtain ⟨v, first⟩ := letters p (by simp)
          obtain ⟨w, second⟩ := letters q (by simp)
          obtain ⟨x, third⟩ := letters r (by simp)
          obtain ⟨y, fourth⟩ := letters s (by simp)
          obtain ⟨bytes, size, decoded⟩ := @ih front (by simp at count; omega)
            fun c member => letters c (by simp [member])
          have whole : ¬ (s = Base64.pad ∧ front ++ back = []) := by
            rintro ⟨rfl, -⟩
            rw [Base64.value_pad] at fourth
            cases fourth
          refine ⟨[(v * 4 + w / 16).toUInt8, (w % 16 * 16 + x / 4).toUInt8,
            (x % 4 * 64 + y).toUInt8] ++ bytes, by simp [size]; omega, ?_⟩
          rw [List.cons_append, List.cons_append, List.cons_append, List.cons_append, Base64.decode,
            if_neg whole, Base64.decodeThree, first, second, third, fourth]
          simp only [Option.bind_some, decoded, Option.map_map]
          congr 1

/-- Groups of four letters, then three letters with two bits left over, all of them
zero, and the padding. -/
def KeyShape (groups : Nat) (s : Text) : Prop :=
  ∃ front p q r v, s = front ++ [p, q, r, Base64.pad] ∧ front.length = 4 * groups ∧
    (∀ c ∈ front ++ [p, q], ∃ v, Base64.value c = some v) ∧ Base64.value r = some v ∧ v % 4 = 0

theorem all_letters_iff {front : Text} (count : front.length = 40) (p q r t : UInt8) :
    ((List.range 42).all fun i => b64Value ((front ++ [p, q, r, t]).getD i 0) ≥ 0) = true ↔
      ∀ c ∈ front ++ [p, q], ∃ v, Base64.value c = some v := by
  have size : (front ++ [p, q]).length = 42 := by simp [count]
  have same (i : Nat) (inside : i < 42) : (front ++ [p, q, r, t]).getD i 0 =
      (front ++ [p, q]).get ⟨i, by omega⟩ := by
    have whole : front ++ [p, q, r, t] = (front ++ [p, q]) ++ [r, t] := by simp
    rw [whole, List.getD_append _ _ _ _ (by omega)]
    exact List.getD_eq_getElem _ _ _
  rw [List.all_eq_true]
  simp only [List.mem_range, decide_eq_true_eq]
  constructor
  · intro all c member
    obtain ⟨⟨i, inside⟩, rfl⟩ := List.mem_iff_get.mp member
    have small : i < 42 := by omega
    exact b64Value_nonneg.mp (same i small ▸ all i small)
  · intro all i inside
    rw [same i inside]
    exact b64Value_nonneg.mpr (all _ (List.get_mem _ _))

theorem isWgKeyB64_split {front : Text} (count : front.length = 40) (p q r t : UInt8) :
    isWgKeyB64 (some (front ++ [p, q, r, t])) = true ↔
      t = 61 ∧ (∀ c ∈ front ++ [p, q], ∃ v, Base64.value c = some v) ∧
        ∃ v, Base64.value r = some v ∧ v % 4 = 0 := by
  have size : (front ++ [p, q, r, t]).length = 44 := by simp [count]
  have closing : (front ++ [p, q, r, t]).getD 43 0 = t := by simp [count]
  have last : (front ++ [p, q, r, t]).getD 42 0 = r := by simp [count]
  have letters := all_letters_iff count p q r t
  rw [isWgKeyB64, if_neg (not_not.mpr size), closing, last]
  by_cases padded : t = 61
  · rw [if_neg (not_not.mpr padded)]
    by_cases plain : ∀ c ∈ front ++ [p, q], ∃ v, Base64.value c = some v
    · rw [letters.mpr plain, Bool.not_true, if_neg Bool.false_ne_true, b64Value_eq]
      simp only [padded, true_and]
      rw [and_iff_right plain]
      cases Base64.value r with
      | none => simp
      | some v => simp; omega
    · have refused : (!(List.range 42).all fun i =>
          b64Value ((front ++ [p, q, r, t]).getD i 0) ≥ 0) = true := by
        rw [Bool.not_eq_true', ← Bool.not_eq_true, letters]
        exact plain
      rw [if_pos refused]
      exact iff_of_false Bool.false_ne_true fun accepted => plain accepted.2.1
  · rw [if_pos padded]
    exact iff_of_false Bool.false_ne_true fun accepted => padded accepted.1

theorem isWgKeyB64_iff_shape {s : Text} : isWgKeyB64 (some s) = true ↔ KeyShape 10 s := by
  constructor
  · intro accepted
    have size : s.length = 44 := by
      by_contra other
      rw [isWgKeyB64, if_pos other] at accepted
      cases accepted
    have front : (s.take 40).length = 40 := by rw [List.length_take]; omega
    have back : (s.drop 40).length = 4 := by rw [List.length_drop]; omega
    match found : s.drop 40, back with
    | [p, q, r, t], _ =>
        rw [← List.take_append_drop 40 s, found] at accepted ⊢
        obtain ⟨rfl, letters, v, last, zero⟩ := (isWgKeyB64_split front p q r t).mp accepted
        exact ⟨s.take 40, p, q, r, v, rfl, front, letters, last, zero⟩
  · rintro ⟨front, p, q, r, v, rfl, count, letters, last, zero⟩
    exact (isWgKeyB64_split count p q r Base64.pad).mpr ⟨rfl, letters, v, last, zero⟩

theorem KeyShape.decoded {groups : Nat} {s : Text} (shape : KeyShape groups s) :
    ∃ bytes, bytes.length = 3 * groups + 2 ∧ Base64.decode s = some bytes := by
  obtain ⟨front, p, q, r, v, rfl, count, letters, last, zero⟩ := shape
  obtain ⟨bytes, size, decoded⟩ := decode_groups count
    (fun c member => letters c (List.mem_append_left _ member)) [p, q, r, Base64.pad]
  obtain ⟨w, first⟩ := letters p (by simp)
  obtain ⟨x, second⟩ := letters q (by simp)
  have unpadded : r ≠ Base64.pad := by
    rintro rfl
    rw [Base64.value_pad] at last
    cases last
  refine ⟨bytes ++ [(w * 4 + x / 16).toUInt8, (x % 16 * 16 + v / 4).toUInt8], by simp [size], ?_⟩
  rw [decoded, Base64.decode, if_pos ⟨rfl, rfl⟩, if_neg unpadded, Base64.decodeTwo, first, second,
    last]
  simp only
  rw [if_pos zero, Option.map_some]

theorem keyShape_encode {groups : Nat} {bytes : List UInt8} (size : bytes.length = 3 * groups + 2) :
    KeyShape groups (Base64.encode bytes) := by
  induction groups generalizing bytes with
  | zero =>
      match bytes, size with
      | [a, b], _ =>
          have first := a.toNat_lt
          have second := b.toNat_lt
          refine ⟨[], _, _, _, b.toNat % 16 * 4, rfl, rfl, ?_, Base64.value_letter (by omega),
            by omega⟩
          intro c member
          simp only [List.nil_append, List.mem_cons, List.not_mem_nil, or_false] at member
          rcases member with rfl | rfl
          · exact ⟨_, Base64.value_letter (by omega)⟩
          · exact ⟨_, Base64.value_letter (by omega)⟩
  | succ groups ih =>
      match bytes, size with
      | a :: b :: c :: rest, size =>
          have first := a.toNat_lt
          have second := b.toNat_lt
          have third := c.toNat_lt
          obtain ⟨front, p, q, r, v, text, count, letters, last, zero⟩ :=
            @ih rest (by simp at size; omega)
          rw [Base64.encode, text]
          refine ⟨_ :: _ :: _ :: _ :: front, p, q, r, v, rfl, by simp [count]; omega, ?_, last, zero⟩
          intro d member
          simp only [List.cons_append, List.mem_cons] at member
          rcases member with rfl | rfl | rfl | rfl | member
          · exact ⟨_, Base64.value_letter (by omega)⟩
          · exact ⟨_, Base64.value_letter (by omega)⟩
          · exact ⟨_, Base64.value_letter (by omega)⟩
          · exact ⟨_, Base64.value_letter (by omega)⟩
          · exact letters d member

/-- The shape check accepts exactly what the encoder writes, for some key; the keys
can be told apart by their texts, and are what the texts decode to. -/
theorem key_text_exact (old : Text) (outLen : Nat) (room : 45 ≤ outLen) :
    (∀ s : CString, isWgKeyB64 s = true ↔
      ∃ key : Key, (encodeWgKeyB64 (some key) (some old) outLen).1 = s) ∧
    (∀ key key' : Key, (encodeWgKeyB64 (some key) (some old) outLen).1 =
      (encodeWgKeyB64 (some key') (some old) outLen).1 → key = key') ∧
    ∀ key : Key, ((encodeWgKeyB64 (some key) (some old) outLen).1).bind Base64.decode =
      some key.toList := by
  have encoded (key : Key) : (encodeWgKeyB64 (some key) (some old) outLen).1 =
      some (Base64.encode key.toList) := by
    have size : key.toList.length % 3 = 2 := by rw [Vector.length_toList]
    rw [encodeWgKeyB64, if_neg (by omega), encodeGroups_eq size]
  have decoded (key : Key) : ((encodeWgKeyB64 (some key) (some old) outLen).1).bind Base64.decode =
      some key.toList := by
    rw [encoded, Option.bind_some, Base64.decode_encode]
  refine ⟨fun s => ⟨fun accepted => ?_, ?_⟩, fun key key' same => ?_, decoded⟩
  · cases s with
    | none => cases accepted
    | some s =>
        obtain ⟨bytes, size, read⟩ := (isWgKeyB64_iff_shape.mp accepted).decoded
        refine ⟨⟨bytes.toArray, size⟩, ?_⟩
        rw [encoded]
        exact congrArg some (Base64.encode_of_decode read)
  · rintro ⟨key, rfl⟩
    rw [encoded]
    exact isWgKeyB64_iff_shape.mpr (keyShape_encode Vector.length_toList)
  · have left := decoded key
    rw [same, decoded key'] at left
    exact Vector.toList_inj.mp (Option.some.inj left).symm

theorem key_text_exact_zero :
    isWgKeyB64 (encodeWgKeyB64 (some (Vector.replicate 32 0)) (some []) 45).1 = true :=
  ((key_text_exact [] 45 (by decide)).1 _).mpr ⟨_, rfl⟩

end FryFirmware.Wireguard
