import FryFirmware.Ota.Sha256
import Mathlib.Data.List.Basic
import Mathlib.Tactic.Common

/-!
# The streaming hash is the hash of the stream

`Absorbed` relates the hasher to the bytes it was given; `update` extends them
and `finish` returns the hash of all of them, for any division into chunks.
-/

set_option autoImplicit false

namespace FryFirmware.Ota

open Lib

/-! ## Blocks -/

theorem blocks_cons {block : List UInt8} (whole : block.length = 64) (rest : List UInt8) :
    blocks (block ++ rest) = block :: blocks rest := by
  have count : (block ++ rest).length / 64 = rest.length / 64 + 1 := by
    rw [List.length_append, whole]
    omega
  unfold blocks
  rw [count, List.range_succ_eq_map, List.map_cons, List.map_map]
  congr 1
  · simp [← whole]
  · refine List.map_congr_left fun i _ => ?_
    have skip : (block ++ rest).drop (64 * (i + 1)) = rest.drop (64 * i) := by
      rw [List.drop_append, whole, List.drop_of_length_le (by omega), List.nil_append]
      congr 1
    exact congrArg (List.take 64) skip

/-- Whole blocks are recovered from their concatenation. -/
theorem blocks_flatten {full : List (List UInt8)} (whole : ∀ block ∈ full, block.length = 64) :
    blocks full.flatten = full := by
  induction full with
  | nil => rfl
  | cons block rest ih =>
      rw [List.flatten_cons, blocks_cons (whole block List.mem_cons_self),
        ih fun other member => whole other (List.mem_cons_of_mem _ member)]

theorem length_flatten_whole {full : List (List UInt8)} (whole : ∀ block ∈ full, block.length = 64) :
    full.flatten.length = 64 * full.length := by
  induction full with
  | nil => rfl
  | cons block rest ih =>
      rw [List.flatten_cons, List.length_append, whole block List.mem_cons_self,
        ih fun other member => whole other (List.mem_cons_of_mem _ member), List.length_cons]
      omega

/-! ## What the hasher absorbed -/

/-- `s` is the hasher after `message`: `full` are the blocks it compressed and the
rest waits in the buffer. -/
structure Absorbed (s : Sha256) (message : List UInt8) (full : List (List UInt8)) : Prop where
  whole : ∀ block ∈ full, block.length = 64
  partly : s.bufferLen < 64
  split : message = full.flatten ++ s.buffer.window 0 s.bufferLen
  state : s.state = full.foldl transform initialWords
  bits : s.bitLen = UInt64.ofNat (512 * full.length)

theorem absorbed_init : Absorbed {} [] [] where
  whole _ member := by cases member
  partly := by decide
  split := by simp
  state := rfl
  bits := rfl

theorem Absorbed.length {s : Sha256} {message : List UInt8} {full : List (List UInt8)}
    (absorbed : Absorbed s message full) :
    message.length = 64 * full.length + s.bufferLen := by
  have waiting := s.buffer.window_length 0 (Nat.le_of_lt absorbed.partly)
  rw [absorbed.split, List.length_append, length_flatten_whole absorbed.whole, waiting]
  omega

theorem Absorbed.updateByte {s : Sha256} {message : List UInt8} {full : List (List UInt8)}
    (absorbed : Absorbed s message full) (byte : UInt8) :
    ∃ full', Absorbed (s.updateByte byte) (message ++ [byte]) full' := by
  have room := absorbed.partly
  have extended : (s.buffer.store s.bufferLen [byte]).window 0 (s.bufferLen + 1) =
      s.buffer.window 0 s.bufferLen ++ [byte] :=
    s.buffer.window_store_append [byte] (Nat.zero_le _) (by rw [List.length_singleton]; omega)
  have message' : message ++ [byte] =
      full.flatten ++ (s.buffer.store s.bufferLen [byte]).window 0 (s.bufferLen + 1) := by
    rw [extended, ← List.append_assoc, ← absorbed.split]
  unfold Sha256.updateByte
  dsimp only
  split
  case isTrue last =>
    rw [last, Memory.window_whole] at message'
    refine ⟨full ++ [(s.buffer.store s.bufferLen [byte]).cells], ?_, Nat.zero_lt_succ 63, ?_, ?_, ?_⟩
    · intro block member
      obtain earlier | new := List.mem_append.mp member
      · exact absorbed.whole block earlier
      · rw [List.mem_singleton.mp new]
        exact Memory.size _
    · simp [message']
    · rw [List.foldl_append, ← absorbed.state]
      rfl
    · dsimp only
      rw [absorbed.bits, List.length_append, List.length_singleton, Nat.mul_add, UInt64.ofNat_add]
      rfl
  case isFalse pending =>
    refine ⟨full, absorbed.whole, ?_, message', absorbed.state, absorbed.bits⟩
    dsimp only
    omega

theorem Absorbed.update {s : Sha256} {message : List UInt8} {full : List (List UInt8)}
    (absorbed : Absorbed s message full) (data : List UInt8) :
    ∃ full', Absorbed (s.update data) (message ++ data) full' := by
  induction data generalizing s message full with
  | nil => exact ⟨full, by simpa [Sha256.update] using absorbed⟩
  | cons byte rest ih =>
      obtain ⟨full', step⟩ := absorbed.updateByte byte
      obtain ⟨full'', run⟩ := ih step
      exact ⟨full'', by simpa [Sha256.update] using run⟩

/-! ## The end of the message -/

theorem lengthBytes_length (bitLen : UInt64) : (lengthBytes bitLen).length = 8 := by
  simp [lengthBytes]

theorem window_marked {memory : Memory UInt8 64} {n : Nat} (room : n < 64) :
    (memory.store n [0x80]).window 0 (n + 1) = memory.window 0 n ++ [0x80] :=
  memory.window_store_append [0x80] (Nat.zero_le _) (by rw [List.length_singleton]; omega)

/-- The block of `finish` that ends a message and holds its length. -/
theorem cells_shortEnd {memory : Memory UInt8 64} {n : Nat} (room : n < 56) (bitLen : UInt64) :
    (((memory.store n [0x80]).store (n + 1) (List.replicate (56 - (n + 1)) 0)).store 56
        (lengthBytes bitLen)).cells =
      memory.window 0 n ++ [0x80] ++ List.replicate (55 - n) 0 ++ lengthBytes bitLen := by
  have zeros : (List.replicate (56 - (n + 1)) (0 : UInt8)).length = 56 - (n + 1) :=
    List.length_replicate
  have padded := (memory.store n [0x80]).window_store_append (List.replicate (56 - (n + 1)) 0)
    (Nat.zero_le (n + 1)) (by omega)
  have filled : n + 1 + (List.replicate (56 - (n + 1)) (0 : UInt8)).length = 56 := by omega
  have count : 56 - (n + 1) = 55 - n := by omega
  rw [filled, window_marked (by omega)] at padded
  rw [Memory.cells_store_end _ _ (by rw [lengthBytes_length]), padded, count]

/-- The block of `finish` that ends a message without room for its length. -/
theorem cells_longEnd {memory : Memory UInt8 64} {n : Nat} (room : n < 64) :
    ((memory.store n [0x80]).store (n + 1) (List.replicate (64 - (n + 1)) 0)).cells =
      memory.window 0 n ++ [0x80] ++ List.replicate (63 - n) 0 := by
  have count : 64 - (n + 1) = 63 - n := by omega
  rw [Memory.cells_store_end _ _ (by rw [List.length_replicate]; omega), window_marked room, count]

/-- The block of their own for zeros and length. -/
theorem cells_lengthBlock (memory : Memory UInt8 64) (bitLen : UInt64) :
    ((memory.store 0 (List.replicate 56 0)).store 56 (lengthBytes bitLen)).cells =
      List.replicate 56 0 ++ lengthBytes bitLen := by
  have zeros := memory.window_store_append (List.replicate 56 0) (Nat.le_refl 0)
    (by rw [List.length_replicate]; omega)
  rw [List.length_replicate, Memory.window_self, List.nil_append] at zeros
  rw [Memory.cells_store_end _ _ (by rw [lengthBytes_length]), zeros]

theorem Absorbed.bitLen {s : Sha256} {message : List UInt8} {full : List (List UInt8)}
    (absorbed : Absorbed s message full) :
    s.bitLen + UInt64.ofNat s.bufferLen * 8 = UInt64.ofNat (message.length * 8) := by
  have eight : (8 : UInt64) = UInt64.ofNat 8 := rfl
  have count : message.length * 8 = 512 * full.length + s.bufferLen * 8 := by
    rw [absorbed.length]
    omega
  rw [absorbed.bits, count, eight, UInt64.ofNat_add, UInt64.ofNat_mul s.bufferLen]

/-- `finish` returns the hash of everything the hasher was given. -/
theorem Absorbed.finish {s : Sha256} {message : List UInt8} {full : List (List UInt8)}
    (absorbed : Absorbed s message full) : s.finish = sha256 message := by
  have room := absorbed.partly
  have remainder : message.length % 64 = s.bufferLen := by
    rw [absorbed.length]
    omega
  have waiting := s.buffer.window_length 0 (Nat.le_of_lt room)
  unfold Sha256.finish
  dsimp only
  rw [absorbed.bitLen, absorbed.state]
  split
  case isTrue short =>
    have zeros : (119 - message.length % 64) % 64 = 55 - s.bufferLen := by omega
    have padded : pad message = (full ++ [s.buffer.window 0 s.bufferLen ++ [0x80] ++
        List.replicate (55 - s.bufferLen) 0 ++
        lengthBytes (UInt64.ofNat (message.length * 8))]).flatten := by
      rw [pad, zeros]
      generalize lengthBytes (UInt64.ofNat (message.length * 8)) = field
      simp only [absorbed.split, List.flatten_append, List.flatten_cons, List.flatten_nil,
        List.append_assoc, List.append_nil]
    rw [sha256, padded, blocks_flatten, List.foldl_append, cells_shortEnd short]
    · rfl
    · intro block member
      obtain earlier | last := List.mem_append.mp member
      · exact absorbed.whole block earlier
      · rw [List.mem_singleton.mp last]
        simp only [List.length_append, List.length_replicate, lengthBytes_length, waiting,
          List.length_singleton]
        omega
  case isFalse long =>
    have zeros : (119 - message.length % 64) % 64 = 63 - s.bufferLen + 56 := by omega
    have padded : pad message = (full ++ [s.buffer.window 0 s.bufferLen ++ [0x80] ++
        List.replicate (63 - s.bufferLen) 0,
        List.replicate 56 0 ++ lengthBytes (UInt64.ofNat (message.length * 8))]).flatten := by
      rw [pad, zeros, List.replicate_add]
      generalize lengthBytes (UInt64.ofNat (message.length * 8)) = field
      simp only [absorbed.split, List.flatten_append, List.flatten_cons, List.flatten_nil,
        List.append_assoc, List.append_nil]
    rw [sha256, padded, blocks_flatten, List.foldl_append, cells_longEnd room, cells_lengthBlock]
    · rfl
    · intro block member
      obtain earlier | last := List.mem_append.mp member
      · exact absorbed.whole block earlier
      · obtain ending | lengthBlock := List.mem_cons.mp last
        · rw [ending]
          simp only [List.length_append, List.length_replicate, waiting, List.length_singleton]
          omega
        · rw [List.mem_singleton.mp lengthBlock, List.length_append, List.length_replicate,
            lengthBytes_length]

/-- Any hasher that went through a whole stream returns its hash. -/
theorem finish_update (data : List UInt8) : (({} : Sha256).update data).finish = sha256 data := by
  obtain ⟨full, absorbed⟩ := absorbed_init.update data
  simpa using absorbed.finish

theorem update_append (s : Sha256) (first second : List UInt8) :
    (s.update first).update second = s.update (first ++ second) := by
  simp [Sha256.update]

theorem sha256_length (message : List UInt8) : (sha256 message).length = 32 := by
  simp [sha256, digestBytes, Words.toList]

/-! ## Digits -/

theorem hexDigits_length (data : List UInt8) : (hexDigits data).length = data.length * 2 := by
  induction data with
  | nil => rfl
  | cons byte rest ih =>
      have spelled : hexDigits (byte :: rest) = _ :: _ :: hexDigits rest := rfl
      rw [spelled, List.length_cons, List.length_cons, ih, List.length_cons]
      omega

end FryFirmware.Ota
