import FryFirmware.Lib.Fips180
import FryFirmware.Lib.Octets
import FryFirmware.Ota.Sha256Properties
import Mathlib.Data.List.Basic
import Mathlib.Data.List.GetD
import Mathlib.Tactic.Common
import Mathlib.Tactic.Ring

/-!
# The streaming hash is the standard's

The compression of `sha256.cpp` on the bytes of a block and the padding of a message,
against FIPS 180-4 on their bits.
-/

set_option autoImplicit false

namespace FryFirmware.Ota

open Lib
open Lib.Fips180 (numeral number)

/-! ## Functions and constants -/

section

variable (x y z : UInt32)

theorem ch_eq : (ch x y z).toBitVec = Fips180.Ch x.toBitVec y.toBitVec z.toBitVec := rfl
theorem maj_eq : (maj x y z).toBitVec = Fips180.Maj x.toBitVec y.toBitVec z.toBitVec := rfl
theorem ep0_eq : (ep0 x).toBitVec = Fips180.bigSigma0 x.toBitVec := rfl
theorem ep1_eq : (ep1 x).toBitVec = Fips180.bigSigma1 x.toBitVec := rfl
theorem sig0_eq : (sig0 x).toBitVec = Fips180.smallSigma0 x.toBitVec := rfl
theorem sig1_eq : (sig1 x).toBitVec = Fips180.smallSigma1 x.toBitVec := rfl

end

/-- The table has the roots of the primes. -/
theorem kK_eq : ∀ t, t < 64 → (kK.getD t 0).toBitVec = Fips180.K t := by
  simp only [Fips180.K, Fips180.rootFraction, Fips180.primes_eq]
  decide +kernel

def Words.toHash (w : Words) : Fips180.Hash :=
  ⟨w.a.toBitVec, w.b.toBitVec, w.c.toBitVec, w.d.toBitVec, w.e.toBitVec, w.f.toBitVec, w.g.toBitVec,
    w.h.toBitVec⟩

theorem initialWords_eq : initialWords.toHash = Fips180.initial := by
  simp only [Fips180.initial, Fips180.rootFraction, Fips180.primes_eq]
  decide +kernel

/-! ## Bytes and bits -/

/-- The bits of a message of bytes, the most significant of each byte first. -/
def bitsOf (bytes : List UInt8) : List Bool := bytes.flatMap fun byte => numeral 8 byte.toNat

@[simp] theorem bitsOf_nil : bitsOf [] = [] := rfl

theorem bitsOf_cons (byte : UInt8) (bytes : List UInt8) :
    bitsOf (byte :: bytes) = numeral 8 byte.toNat ++ bitsOf bytes := rfl

theorem bitsOf_append (front back : List UInt8) : bitsOf (front ++ back) = bitsOf front ++ bitsOf back :=
  List.flatMap_append

@[simp] theorem bitsOf_length (bytes : List UInt8) : (bitsOf bytes).length = 8 * bytes.length := by
  induction bytes with
  | nil => rfl
  | cons byte bytes ih =>
      rw [bitsOf_cons, List.length_append, ih, Fips180.numeral_length, List.length_cons]
      omega

theorem bits_more (byte : UInt8) (n : Nat) :
    8 * (n + 1) = (numeral 8 byte.toNat).length + 8 * n := by
  rw [Fips180.numeral_length]
  omega

theorem bitsOf_take (bytes : List UInt8) (n : Nat) : (bitsOf bytes).take (8 * n) = bitsOf (bytes.take n) := by
  induction n generalizing bytes with
  | zero => simp
  | succ n ih =>
      cases bytes with
      | nil => simp
      | cons byte bytes =>
          rw [bitsOf_cons, bits_more byte, List.take_length_add_append, ih, List.take_succ_cons, bitsOf_cons]

theorem bitsOf_drop (bytes : List UInt8) (n : Nat) : (bitsOf bytes).drop (8 * n) = bitsOf (bytes.drop n) := by
  induction n generalizing bytes with
  | zero => simp
  | succ n ih =>
      cases bytes with
      | nil => simp
      | cons byte bytes =>
          rw [bitsOf_cons, bits_more byte, List.drop_length_add_append, ih, List.drop_succ_cons]

theorem blocks_bits (data : List UInt8) :
    Fips180.blocks (bitsOf data) = (blocks data).map bitsOf := by
  have count : (bitsOf data).length / 512 = data.length / 64 := by
    rw [bitsOf_length]
    omega
  rw [Fips180.blocks, blocks, count, List.map_map]
  refine List.map_congr_left fun i _ => ?_
  have place : 512 * i = 8 * (64 * i) := by omega
  rw [place, bitsOf_drop]
  exact bitsOf_take _ 64

/-! ## Padding -/

theorem bitsOf_replicate (n : Nat) : bitsOf (List.replicate n 0) = List.replicate (8 * n) false := by
  induction n with
  | zero => rfl
  | succ n ih =>
      rw [List.replicate_succ, bitsOf_cons, ih, Nat.mul_succ, Nat.add_comm, List.replicate_add]
      rfl

/-- The bytes of a number, the most significant first. -/
def bigEndian (width n : Nat) : List UInt8 :=
  (List.range width).map fun i => UInt8.ofNat (n / 2 ^ (8 * (width - 1 - i)))

theorem bitsOf_bigEndian (width n : Nat) : bitsOf (bigEndian width n) = numeral (8 * width) n := by
  induction width with
  | zero => rfl
  | succ width ih =>
      have rest : (List.range width).map
          ((fun i => UInt8.ofNat (n / 2 ^ (8 * (width + 1 - 1 - i)))) ∘ Nat.succ) = bigEndian width n := by
        refine List.map_congr_left fun i _ => ?_
        have place : width + 1 - 1 - (i + 1) = width - 1 - i := by omega
        exact congrArg (fun place => UInt8.ofNat (n / 2 ^ (8 * place))) place
      have wider : 8 * (width + 1) = 8 + 8 * width := by omega
      rw [bigEndian, List.range_succ_eq_map, List.map_cons, List.map_map, rest, bitsOf_cons, ih, wider,
        Fips180.numeral_add, UInt8.toNat_ofNat']
      exact congrArg (· ++ numeral (8 * width) n) (Fips180.numeral_mod 8 _)

theorem lengthBytes_eq (n : UInt64) : lengthBytes n = bigEndian 8 n.toNat := by
  refine List.map_congr_left fun i inside => ?_
  have few : i < 8 := List.mem_range.mp inside
  have shift : (UInt64.ofNat (8 * (7 - i))).toNat = 8 * (7 - i) :=
    UInt64.toNat_ofNat_of_lt' (by simp only [UInt64.size]; omega)
  apply UInt8.toNat.inj
  have less : 8 * (7 - i) % 64 = 8 * (8 - 1 - i) := by omega
  rw [UInt64.toNat_toUInt8, UInt64.toNat_shiftRight, shift, less, UInt8.toNat_ofNat',
    Nat.shiftRight_eq_div_pow]

theorem bitsOf_lengthBytes (n : UInt64) : bitsOf (lengthBytes n) = numeral 64 n.toNat := by
  rw [lengthBytes_eq, bitsOf_bigEndian]

theorem pad_bits {message : List UInt8} (short : message.length < 2 ^ 61) :
    bitsOf (pad message) = Fips180.pad (bitsOf message) := by
  have length : (UInt64.ofNat (message.length * 8)).toNat = (bitsOf message).length := by
    rw [UInt64.toNat_ofNat_of_lt' (by simp only [UInt64.size]; omega), bitsOf_length, Nat.mul_comm]
  have zeros : Fips180.zeros (bitsOf message).length = 7 + 8 * ((119 - message.length % 64) % 64) := by
    rw [Fips180.zeros_eq, bitsOf_length]
    omega
  rw [pad, Fips180.pad, zeros, List.replicate_add, bitsOf_append, bitsOf_append, bitsOf_append,
    bitsOf_lengthBytes, bitsOf_replicate, length]
  simp only [List.append_assoc]
  rfl

/-! ## Compression -/

theorem number_bitsOf (a b c d : UInt8) :
    number (bitsOf [a, b, c, d]) = ((a.toNat * 256 + b.toNat) * 256 + c.toNat) * 256 + d.toNat := by
  have byte (v : UInt8) : number (numeral 8 v.toNat) = v.toNat := by
    rw [Fips180.number_numeral, Nat.mod_eq_of_lt v.toNat_lt]
  simp only [bitsOf_cons, bitsOf_nil, List.append_nil, Fips180.number_append, byte, List.length_append,
    Fips180.numeral_length]
  ring

theorem take_four (list : List UInt8) (long : 4 ≤ list.length) :
    list.take 4 = [list.getD 0 0, list.getD 1 0, list.getD 2 0, list.getD 3 0] := by
  match list, long with
  | a :: b :: c :: d :: rest, _ => rfl

theorem blockWord_eq (block : List UInt8) (whole : block.length = 64) (t : Nat) (early : t < 16) :
    (blockWord block (4 * t)).toBitVec = Fips180.blockWord (bitsOf block) t := by
  have bits : ((bitsOf block).drop (32 * t)).take 32 = bitsOf [block.getD (4 * t) 0,
      block.getD (4 * t + 1) 0, block.getD (4 * t + 2) 0, block.getD (4 * t + 3) 0] := by
    have place : 32 * t = 8 * (4 * t) := by omega
    have four := take_four (block.drop (4 * t)) (by rw [List.length_drop, whole]; omega)
    rw [place, bitsOf_drop]
    refine (bitsOf_take _ 4).trans ?_
    rw [four]
    simp [List.getD_eq_getElem?_getD]
  have byte (v : UInt8) : v.toUInt32.toNat ≤ 255 := by
    rw [UInt8.toNat_toUInt32]
    have bound := v.toNat_lt
    omega
  apply BitVec.eq_of_toNat_eq
  rw [Fips180.blockWord, bits, number_bitsOf, UInt32.toNat_toBitVec, blockWord,
    toNat_octets (byte _) (byte _) (byte _) (byte _), BitVec.toNat_ofNat]
  simp only [UInt8.toNat_toUInt32]
  have first := (block.getD (4 * t) 0).toNat_lt
  have second := (block.getD (4 * t + 1) 0).toNat_lt
  have third := (block.getD (4 * t + 2) 0).toNat_lt
  have fourth := (block.getD (4 * t + 3) 0).toNat_lt
  omega

/-- The words of `m` that are there follow the schedule. -/
def Scheduled (block : List UInt8) (m : List UInt32) : Prop :=
  ∀ t, t < m.length → (m.getD t 0).toBitVec = Fips180.W (bitsOf block) t

theorem Scheduled.extend {block : List UInt8} {m : List UInt32} (scheduled : Scheduled block m)
    (late : 16 ≤ m.length) : Scheduled block (extend m m.length) := by
  intro t inside
  rw [Ota.extend, List.length_append, List.length_singleton] at inside
  obtain earlier | rfl := Nat.lt_or_eq_of_le (Nat.le_of_lt_succ inside)
  · rw [Ota.extend, List.getD_append _ _ _ _ earlier]
    exact scheduled t earlier
  · rw [Ota.extend, List.getD_append_right _ _ _ _ (Nat.le_refl _), Nat.sub_self, Fips180.W,
      if_neg (Nat.not_lt.mpr late), ← scheduled _ (by omega), ← scheduled _ (by omega),
      ← scheduled _ (by omega), ← scheduled _ (by omega), ← sig0_eq, ← sig1_eq]
    rfl

theorem schedule_run (block : List UInt8) (whole : block.length = 64) (n : Nat) :
    let m := (List.range' 16 n).foldl extend ((List.range 16).map fun i => blockWord block (4 * i))
    m.length = 16 + n ∧ Scheduled block m := by
  induction n with
  | zero =>
      refine ⟨by simp, fun t inside => ?_⟩
      have early : t < 16 := by simpa using inside
      rw [Fips180.W, if_pos early, ← blockWord_eq block whole t early]
      simp [early]
  | succ n ih =>
      obtain ⟨length, scheduled⟩ := ih
      rw [List.range'_concat, List.foldl_append]
      refine ⟨?_, ?_⟩
      · simp [extend, length]
        omega
      · have next := scheduled.extend (by omega)
        rw [length] at next
        simpa using next

theorem schedule_eq (block : List UInt8) (whole : block.length = 64) (t : Nat) (inside : t < 64) :
    ((schedule block).getD t 0).toBitVec = Fips180.W (bitsOf block) t := by
  obtain ⟨length, scheduled⟩ := schedule_run block whole 48
  exact scheduled t (by omega)

theorem round_eq (block : List UInt8) (whole : block.length = 64) (w : Words) (t : Nat) (inside : t < 64) :
    (round (schedule block) w t).toHash = Fips180.step (bitsOf block) w.toHash t := by
  simp only [Fips180.step, Words.toHash, ← schedule_eq block whole t inside, ← kK_eq t inside,
    ← ch_eq, ← maj_eq, ← ep0_eq, ← ep1_eq]
  rfl

theorem rounds_eq (block : List UInt8) (whole : block.length = 64) (w : Words) (n : Nat) (inside : n ≤ 64) :
    ((List.range n).foldl (round (schedule block)) w).toHash =
      (List.range n).foldl (Fips180.step (bitsOf block)) w.toHash := by
  induction n with
  | zero => rfl
  | succ n ih =>
      rw [List.range_succ, List.foldl_append, List.foldl_append, ← ih (by omega)]
      exact round_eq block whole _ n (by omega)

theorem transform_eq (state : Words) (block : List UInt8) (whole : block.length = 64) :
    (transform state block).toHash = Fips180.compress state.toHash (bitsOf block) := by
  rw [Fips180.compress, ← rounds_eq block whole state 64 (Nat.le_refl 64), transform]
  simp [Words.toHash, Words.add, Fips180.Hash.add, BitVec.add_comm]

theorem wordBytes_eq (word : UInt32) :
    ((List.range 4).map fun i => (word >>> UInt32.ofNat (24 - i * 8)).toUInt8) = bigEndian 4 word.toNat := by
  refine List.map_congr_left fun i inside => ?_
  have few : i < 4 := List.mem_range.mp inside
  have shift : (UInt32.ofNat (24 - i * 8)).toNat = 24 - i * 8 :=
    UInt32.toNat_ofNat_of_lt' (by simp only [UInt32.size]; omega)
  apply UInt8.toNat.inj
  have less : (24 - i * 8) % 32 = 8 * (4 - 1 - i) := by omega
  rw [UInt32.toNat_toUInt8, UInt32.toNat_shiftRight, shift, less, UInt8.toNat_ofNat',
    Nat.shiftRight_eq_div_pow]

theorem digestBytes_eq (state : Words) : bitsOf (digestBytes state) = state.toHash.bits := by
  have words (list : List UInt32) :
      bitsOf (list.flatMap fun word => (List.range 4).map fun i => (word >>> UInt32.ofNat (24 - i * 8)).toUInt8) =
        (list.map UInt32.toBitVec).flatMap fun word => numeral 32 word.toNat := by
    induction list with
    | nil => rfl
    | cons word list ih =>
        rw [List.flatMap_cons, bitsOf_append, ih, wordBytes_eq, bitsOf_bigEndian]
        rfl
  exact words state.toList

theorem blocks_whole (data : List UInt8) {block : List UInt8} (member : block ∈ blocks data) : block.length = 64 := by
  obtain ⟨i, inside, rfl⟩ := List.mem_map.mp member
  have few : i < data.length / 64 := List.mem_range.mp inside
  rw [List.length_take, List.length_drop]
  omega

theorem compressed_eq {list : List (List UInt8)} (whole : ∀ block ∈ list, block.length = 64) (state : Words) :
    (list.foldl transform state).toHash = (list.map bitsOf).foldl Fips180.compress state.toHash := by
  induction list generalizing state with
  | nil => rfl
  | cons block list ih =>
      rw [List.foldl_cons, ih fun other member => whole other (List.mem_cons_of_mem _ member),
        transform_eq state block (whole block List.mem_cons_self)]
      rfl

/-- The hash of a message is the standard's. -/
theorem sha256_eq {message : List UInt8} (short : message.length < 2 ^ 61) :
    bitsOf (sha256 message) = Fips180.sha256 (bitsOf message) := by
  have state := compressed_eq (fun block => blocks_whole (pad message)) initialWords
  rw [sha256, digestBytes_eq, state, initialWords_eq, ← blocks_bits, pad_bits short, Fips180.sha256]

theorem foldl_update (chunks : List (List UInt8)) (s : Sha256) :
    chunks.foldl Sha256.update s = s.update chunks.flatten := by
  induction chunks generalizing s with
  | nil => rfl
  | cons chunk chunks ih => rw [List.foldl_cons, ih, update_append, List.flatten_cons]

/-- A message in any pieces is hashed as FIPS 180-4 says. -/
theorem finish_standard (chunks : List (List UInt8)) (short : chunks.flatten.length < 2 ^ 61) :
    bitsOf (chunks.foldl Sha256.update {}).finish = Fips180.sha256 (bitsOf chunks.flatten) ∧
      (chunks.foldl Sha256.update {}).finish = Sha256.hash chunks.flatten := by
  refine ⟨?_, ?_⟩
  · rw [foldl_update, finish_update, sha256_eq short]
  · rw [foldl_update]
    rfl

theorem finish_standard_abc :
    bitsOf ([[0x61], [], [0x62, 0x63]].foldl Sha256.update {}).finish =
        Fips180.sha256 (bitsOf [0x61, 0x62, 0x63]) ∧
      ([[0x61], [], [0x62, 0x63]].foldl Sha256.update {}).finish = Sha256.hash [0x61, 0x62, 0x63] :=
  finish_standard [[0x61], [], [0x62, 0x63]] (by decide)

end FryFirmware.Ota
