import FryFirmware.Identity.ServerDetailProperties
import FryFirmware.Lib.Joined
import FryFirmware.Lib.Memory
import Mathlib.Tactic.Common

/-!
# The mask of a token, in its buffers

`maskMinerKeyLast4` and `maskTokenLast4` as they write: every write is checked against
the end of its buffer. A long token is masked by a stand-in, and nobody can tell.
-/

set_option autoImplicit false

namespace FryFirmware.Identity.Buffered

open Config (Text text)
open Lib (Memory takeWhile_run)

variable {capacity : Nat}

/-- What a `const char*` to the region is; `none` where it has no NUL. -/
def cString? (memory : Memory UInt8 capacity) : Option Text :=
  if 0 ∈ memory.cells then some (memory.cells.takeWhile (· ≠ 0)) else none

def shownChar (c : UInt8) : UInt8 := if 0x21 ≤ c && c ≤ 0x7E then c else 63

/-- The loop over the last characters, from position `w`. -/
def tailLoop (out : Memory UInt8 capacity) (w : Nat) : Text → Option (Memory UInt8 capacity × Nat)
  | [] => some (out, w)
  | c :: rest => (out.store? w [shownChar c]).bind fun out => tailLoop out (w + 1) rest

def maskMinerKeyLast4 (key : Option Text) (out : Option (Memory UInt8 capacity)) (outCap : Nat) :
    Option (Nat × Option (Memory UInt8 capacity)) :=
  match out with
  | none => some (0, none)
  | some out =>
      if outCap = 0 then some (0, some out)
      else
        (out.store? 0 [0]).bind fun out =>
          match key with
          | none => some (0, some out)
          | some key =>
              if key = [] then some (0, some out)
              else
                let n := key.length
                let showTail : Bool := n ≥ 12
                let showPrefix := showTail && hasKeyPrefix key
                let need := (if showPrefix then 4 else 0) + 3 + (if showTail then 4 else 0)
                if outCap < need + 1 then some (0, some out)
                else
                  let w := if showPrefix then 4 else 0
                  (if showPrefix then out.store? 0 (key.take 4) else some out).bind fun out =>
                    (out.store? w ellipsis).bind fun out =>
                      (if showTail then tailLoop out (w + 3) (key.drop (n - 4)) else some (out, w + 3)).bind
                        fun (out, w) => (out.store? w [0]).map fun out => (w, some out)

/-- The token is `src`; `standIn` is the local array, with what it happens to hold. -/
def maskTokenLast4 (src : Text) (standIn : Memory UInt8 13) (out : Option (Memory UInt8 capacity)) :
    Option (Nat × Option (Memory UInt8 capacity)) :=
  let len := src.length
  let filled :=
    if len ≤ 11 then (standIn.store? 0 src).bind fun standIn => standIn.store? len [0]
    else
      (standIn.store? 0 (src.take 4)).bind fun standIn =>
        (standIn.store? 4 (List.replicate 4 120)).bind fun standIn =>
          (standIn.store? 8 (src.drop (len - 4))).bind fun standIn => standIn.store? 12 [0]
  filled.bind fun standIn => (cString? standIn).bind fun key => maskMinerKeyLast4 (some key) out 12

/-! ## One write -/

theorem tailLoop_store (out : Memory UInt8 capacity) {w : Nat} {tail : Text} (fits : w + tail.length ≤ capacity) :
    tailLoop out w tail = some (out.store w (tail.map shownChar), w + tail.length) := by
  induction tail generalizing out w with
  | nil => simp [tailLoop]
  | cons c rest ih =>
      rw [List.length_cons] at fits
      have later := ih (out.store w [shownChar c]) (by omega : w + 1 + rest.length ≤ capacity)
      have joined : (out.store w [shownChar c]).store (w + 1) (rest.map shownChar) =
          out.store w ([shownChar c] ++ rest.map shownChar) := out.store_append (by simp; omega)
      rw [tailLoop, out.store?_inside (by simp; omega), Option.bind_some, later, joined, List.singleton_append,
        List.map_cons, List.length_cons, Nat.add_assoc, Nat.add_comm 1]

theorem store_behind (out : Memory UInt8 capacity) {front back : Text} (fits : (front ++ back).length ≤ capacity) :
    (out.store 0 front).store front.length back = out.store 0 (front ++ back) := by
  have joined := @Memory.store_append _ _ out 0 front back (by omega)
  rwa [Nat.zero_add] at joined

/-- The writes of a mask, each behind the last, are one. -/
theorem writes_whole (out : Memory UInt8 capacity) {front tail : Text}
    (fits : (front ++ ellipsis ++ tail ++ [0]).length ≤ capacity) :
    ((out.store? 0 front).bind fun out => (out.store? front.length ellipsis).bind fun out =>
      (tailLoop out (front.length + 3) tail).bind fun (out, w) =>
        (out.store? w [0]).map fun out => (w, some out)) =
      some ((front ++ ellipsis ++ tail.map shownChar).length,
        some (out.store 0 (front ++ ellipsis ++ tail.map shownChar ++ [0]))) := by
  have three : ellipsis.length = 3 := rfl
  simp only [List.length_append, List.length_singleton, three] at fits
  have marked : (front ++ ellipsis).length = front.length + 3 := by
    rw [List.length_append, three]
  have masked : (front ++ ellipsis ++ tail.map shownChar).length = front.length + 3 + tail.length := by
    rw [List.length_append, marked, List.length_map]
  have first := out.store?_inside (by omega : 0 + front.length ≤ capacity)
  have second := (out.store 0 front).store?_inside (by omega : front.length + ellipsis.length ≤ capacity)
  have third := tailLoop_store (out.store 0 (front ++ ellipsis))
    (by omega : front.length + 3 + tail.length ≤ capacity)
  have fourth := (out.store 0 (front ++ ellipsis ++ tail.map shownChar)).store?_inside
    (by simp; omega : front.length + 3 + tail.length + [(0 : UInt8)].length ≤ capacity)
  rw [first, Option.bind_some, second, Option.bind_some, store_behind out (by omega), third, ← marked,
    store_behind out (by simp; omega), Option.bind_some]
  dsimp only
  rw [marked, fourth, ← masked, store_behind out (by simp; omega)]
  rfl

/-- What is shown of the front of a value. -/
def shownFront (key : Text) : Text := if key.length ≥ 12 && hasKeyPrefix key then key.take 4 else []

def shownTail (key : Text) : Text := if key.length ≥ 12 then key.drop (key.length - 4) else []

theorem length_shownFront (key : Text) :
    (shownFront key).length = if key.length ≥ 12 && hasKeyPrefix key then 4 else 0 := by
  unfold shownFront
  split
  · have long : key.length ≥ 12 := by simp_all
    rw [List.length_take]
    omega
  · rfl

theorem length_shownTail (key : Text) : (shownTail key).length = if key.length ≥ 12 then 4 else 0 := by
  unfold shownTail
  split
  · rw [List.length_drop]
    omega
  · rfl

theorem maskMinerKeyLast4_eq {key : Text} {outCap : Nat} (room : ¬ outCap = 0) (given : ¬ key = []) :
    Identity.maskMinerKeyLast4 key outCap =
      if outCap < (shownFront key).length + 3 + (shownTail key).length + 1 then []
      else shownFront key ++ ellipsis ++ (shownTail key).map shownChar := by
  have tail : (if key.length ≥ 12 then (key.drop (key.length - 4)).map shownChar else []) =
      (shownTail key).map shownChar := by
    unfold shownTail
    split <;> rfl
  rw [length_shownFront, length_shownTail, ← tail, Identity.maskMinerKeyLast4, if_neg (by simpa using ⟨room, given⟩)]
  simp only [decide_eq_true_eq]
  rfl

/-- A mask is written whole, or not at all, with its NUL. -/
theorem maskMinerKeyLast4_writes (key : Text) (out : Memory UInt8 capacity) {outCap : Nat} (room : 0 < outCap)
    (inside : outCap ≤ capacity) :
    maskMinerKeyLast4 (some key) (some out) outCap =
      some ((Identity.maskMinerKeyLast4 key outCap).length,
        some (out.store 0 (Identity.maskMinerKeyLast4 key outCap ++ [0]))) := by
  have cleared : out.store? 0 [0] = some (out.store 0 [0]) := out.store?_inside (Nat.le_trans room inside)
  have opened : ¬ outCap = 0 := Nat.ne_of_gt room
  by_cases empty : key = []
  · subst empty
    simp [maskMinerKeyLast4, Identity.maskMinerKeyLast4, opened, cleared]
  have first (out : Memory UInt8 capacity) : (if (key.length ≥ 12 && hasKeyPrefix key) = true then
      out.store? 0 (key.take 4) else some out) = out.store? 0 (shownFront key) := by
    unfold shownFront
    split
    · rfl
    · rw [out.store?_inside (Nat.zero_le _), Memory.store_nil]
  have loop (out : Memory UInt8 capacity) (w : Nat) : (if key.length ≥ 12 then
      tailLoop out w (key.drop (key.length - 4)) else some (out, w)) = tailLoop out w (shownTail key) := by
    unfold shownTail
    split <;> rfl
  rw [maskMinerKeyLast4_eq opened empty]
  simp only [maskMinerKeyLast4, if_neg opened, cleared, Option.bind_some, if_neg empty, decide_eq_true_eq, first, loop,
    ← length_shownFront, ← length_shownTail]
  by_cases small : outCap < (shownFront key).length + 3 + (shownTail key).length + 1
  · simp only [if_pos small]
    rfl
  · have fits : (shownFront key ++ ellipsis ++ shownTail key ++ [0]).length ≤ capacity := by
      have three : ellipsis.length = 3 := rfl
      simp only [List.length_append, List.length_singleton, three]
      omega
    simp only [if_neg small]
    rw [writes_whole _ fits, out.store_over]
    · simp
      omega
    · simpa using fits

/-! ## The stand-in -/

theorem cString?_store (memory : Memory UInt8 capacity) {name : Text} (nul_free : 0 ∉ name)
    (fits : name.length < capacity) : cString? (memory.store 0 (name ++ [0])) = some name := by
  have whole : (name ++ [0]).take (capacity - 0) = name ++ [0] := by
    rw [List.take_of_length_le]
    simp
    omega
  have cells : (memory.store 0 (name ++ [0])).cells = name ++ 0 :: memory.cells.drop (0 + (name ++ [0]).length) := by
    simp only [Memory.store, whole, List.take_zero, List.nil_append, List.append_assoc, List.singleton_append]
  rw [cString?, cells, if_pos (List.mem_append_right _ List.mem_cons_self), takeWhile_run]
  · intro c member
    exact decide_eq_true fun zero => nul_free (zero ▸ member)
  · rintro c ⟨⟩
    rfl

/-- The twelve bytes, or fewer, that a token is masked by. -/
def standInText (src : Text) : Text :=
  if src.length ≤ 11 then src else src.take 4 ++ text "xxxx" ++ src.drop (src.length - 4)

theorem standInText_nul_free {src : Text} (nul_free : 0 ∉ src) : 0 ∉ standInText src := by
  unfold standInText
  split
  · exact nul_free
  · intro member
    rcases List.mem_append.mp member with front | last
    · rcases List.mem_append.mp front with first | filler
      · exact nul_free (List.mem_of_mem_take first)
      · exact absurd filler (by decide)
    · exact nul_free (List.mem_of_mem_drop last)

theorem length_standInText (src : Text) : (standInText src).length < 13 := by
  have four : (text "xxxx").length = 4 := by decide
  unfold standInText
  split
  · omega
  · simp only [List.length_append, List.length_take, List.length_drop, four]
    omega

theorem maskTokenLast4_writes {src : Text} (nul_free : 0 ∉ src) (standIn : Memory UInt8 13)
    (out : Option (Memory UInt8 capacity)) :
    maskTokenLast4 src standIn out = maskMinerKeyLast4 (some (standInText src)) out 12 := by
  have filled : (if src.length ≤ 11 then (standIn.store? 0 src).bind fun standIn => standIn.store? src.length [0]
      else (standIn.store? 0 (src.take 4)).bind fun standIn =>
        (standIn.store? 4 (List.replicate 4 120)).bind fun standIn =>
          (standIn.store? 8 (src.drop (src.length - 4))).bind fun standIn => standIn.store? 12 [0]) =
      some (standIn.store 0 (standInText src ++ [0])) := by
    have inside {front back : Text} {position : Nat} (at_end : front.length = position)
        (fits : position + back.length ≤ 13) :
        (standIn.store 0 front).store? position back = some (standIn.store 0 (front ++ back)) := by
      subst at_end
      rw [Memory.store?_inside _ fits, store_behind standIn (List.length_append ▸ fits)]
    unfold standInText
    split
    · rw [standIn.store?_inside (by omega), Option.bind_some, inside rfl (by simp; omega)]
    · have first : (src.take 4).length = 4 := by
        rw [List.length_take]
        omega
      have last : (src.drop (src.length - 4)).length = 4 := by
        rw [List.length_drop]
        omega
      have filler : List.replicate 4 120 = text "xxxx" := by decide
      have four : (text "xxxx").length = 4 := by decide
      have eight : (src.take 4 ++ text "xxxx").length = 8 := by
        rw [List.length_append, first, four]
      have twelve : (src.take 4 ++ text "xxxx" ++ src.drop (src.length - 4)).length = 12 := by
        rw [List.length_append, eight, last]
      rw [standIn.store?_inside (by omega), Option.bind_some, filler, inside first (by omega), Option.bind_some,
        inside eight (by omega), Option.bind_some, inside twelve (Nat.le_refl _)]
  simp only [maskTokenLast4, filled, Option.bind_some,
    cString?_store standIn (standInText_nul_free nul_free) (length_standInText src)]

/-- What a log may show of a token: its first four characters, its last four, or neither. -/
structure Shows (src shown : Text) : Prop where
  empty : src = [] → shown = []
  filled : src ≠ [] → ∃ front tail, shown = front ++ ellipsis ++ tail.map shownChar ∧
    (front = [] ∨ 12 ≤ src.length ∧ front = src.take 4 ∧ (front = text "FEM-" ∨ front = text "IOT-")) ∧
    (tail = [] ∨ 12 ≤ src.length ∧ tail = src.drop (src.length - 4))

theorem shown_lengths (key : Text) : (shownFront key).length ≤ 4 ∧ (shownTail key).length ≤ 4 := by
  rw [length_shownFront, length_shownTail]
  constructor <;> split <;> decide

theorem shows_mask (src : Text) : Shows src (Identity.maskMinerKeyLast4 src 12) where
  empty := by
    rintro rfl
    rfl
  filled := by
    intro given
    have lengths := shown_lengths src
    refine ⟨shownFront src, shownTail src, ?_, ?_, ?_⟩
    · rw [maskMinerKeyLast4_eq (by decide) given, if_neg (by omega)]
    · unfold shownFront
      split
      · obtain ⟨long, shape⟩ := (Bool.and_eq_true _ _).mp ‹_›
        exact .inr ⟨of_decide_eq_true long, rfl, hasKeyPrefix_iff.mp shape⟩
      · exact .inl rfl
    · unfold shownTail
      split
      · exact .inr ⟨‹_›, rfl⟩
      · exact .inl rfl

theorem length_mask (src : Text) : (Identity.maskMinerKeyLast4 src 12).length ≤ 11 := by
  by_cases empty : src = []
  · subst empty
    decide
  · have lengths := shown_lengths src
    have three : ellipsis.length = 3 := rfl
    rw [maskMinerKeyLast4_eq (by decide) empty]
    split
    · exact Nat.zero_le _
    · simp only [List.length_append, List.length_map, three]
      omega

/-- The stand-in masks as the whole token does, byte for byte, in any buffer of twelve bytes. -/
theorem token_masked_whole (src : Text) (nul_free : 0 ∉ src) (standIn : Memory UInt8 13)
    (out : Memory UInt8 12) :
    ∃ n after, maskTokenLast4 src standIn (some out) = some (n, some after) ∧
      maskMinerKeyLast4 (some src) (some out) 12 = some (n, some after) ∧ n ≤ 11 ∧
      after.window n (n + 1) = [0] ∧ Shows src (after.window 0 n) := by
  have same : Identity.maskMinerKeyLast4 (standInText src) 12 = Identity.maskMinerKeyLast4 src 12 :=
    maskTokenLast4_standIn src
  have short := length_mask src
  have written : (out.store 0 (Identity.maskMinerKeyLast4 src 12 ++ [0])).window 0
      ((Identity.maskMinerKeyLast4 src 12).length + 1) = Identity.maskMinerKeyLast4 src 12 ++ [0] := by
    have front := @Memory.window_store_front _ _ out (Identity.maskMinerKeyLast4 src 12 ++ [0]) (by
      rw [List.length_append, List.length_singleton]
      omega)
    rwa [List.length_append, List.length_singleton] at front
  refine ⟨_, _, ?_, maskMinerKeyLast4_writes src out (by decide) (Nat.le_refl _), short, ?_, ?_⟩
  · rw [maskTokenLast4_writes nul_free, maskMinerKeyLast4_writes _ _ (by decide) (Nat.le_refl _), same]
  · have last := Memory.window_advance (out.store 0 (Identity.maskMinerKeyLast4 src 12 ++ [0])) 0
      ((Identity.maskMinerKeyLast4 src 12).length + 1) (Identity.maskMinerKeyLast4 src 12).length
    rwa [Nat.zero_add, written, List.drop_left] at last
  · rw [Memory.window_front _ (Nat.le_succ _), written, List.take_left]
    exact shows_mask src

theorem token_masked_whole_key :
    ∃ n after, maskTokenLast4 (text "FEM-0123456789ab") (.filled 13 255) (some (.filled 12 255)) =
        some (n, some after) ∧
      maskMinerKeyLast4 (some (text "FEM-0123456789ab")) (some (.filled 12 255)) 12 = some (n, some after) ∧
      n ≤ 11 ∧ after.window n (n + 1) = [0] ∧ Shows (text "FEM-0123456789ab") (after.window 0 n) :=
  token_masked_whole (text "FEM-0123456789ab") (by decide) (.filled 13 255) (.filled 12 255)

end FryFirmware.Identity.Buffered
