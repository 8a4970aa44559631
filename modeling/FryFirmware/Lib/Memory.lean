import Mathlib.Data.List.Basic
import Mathlib.Tactic.Common

/-!
# Fixed memory regions

A region of exactly `capacity` cells, the two copy operations a C program
applies to it, and the half-open window `[start, stop)` through which a
program reads it. Nothing here depends on what the cells hold.
-/

set_option autoImplicit false

namespace FryFirmware.Lib

/-- A region of exactly `capacity` cells. -/
structure Memory (α : Type) (capacity : Nat) where
  cells : List α
  size : cells.length = capacity
  deriving DecidableEq

namespace Memory

variable {α : Type} {capacity : Nat}

def filled (capacity : Nat) (value : α) : Memory α capacity :=
  ⟨List.replicate capacity value, List.length_replicate⟩

/-- `memcpy` of `data` to offset `position`. Cells past the end of the region
are not part of the model, so an overlong copy is cut at the region's end. -/
def store (memory : Memory α capacity) (position : Nat) (data : List α) :
    Memory α capacity where
  cells := memory.cells.take position ++ data.take (capacity - position) ++
    memory.cells.drop (position + data.length)
  size := by
    have region := memory.size
    simp only [List.length_append, List.length_take, List.length_drop, region]
    omega

/-- The copy with its bounds checked: `none` is a write past the end of the region. -/
def store? (memory : Memory α capacity) (position : Nat) (data : List α) :
    Option (Memory α capacity) :=
  if position + data.length ≤ capacity then some (memory.store position data) else none

/-- The cells of the half-open range `[start, stop)`. -/
def window (memory : Memory α capacity) (start stop : Nat) : List α :=
  (memory.cells.drop start).take (stop - start)

/-- `memmove` of `count` cells at offset `source` to the front of the region. -/
def moveFront (memory : Memory α capacity) (source count : Nat) :
    Memory α capacity :=
  memory.store 0 (memory.window source (source + count))

@[simp] theorem store_nil (memory : Memory α capacity) (position : Nat) :
    memory.store position [] = memory := by
  cases memory
  simp [store]

theorem store?_inside (memory : Memory α capacity) {position : Nat} {data : List α}
    (inside : position + data.length ≤ capacity) :
    memory.store? position data = some (memory.store position data) := if_pos inside

@[simp] theorem window_self (memory : Memory α capacity) (position : Nat) :
    memory.window position position = [] := by
  simp [window]

@[simp] theorem window_whole (memory : Memory α capacity) :
    memory.window 0 capacity = memory.cells := by
  simp [window, ← memory.size]

theorem window_length (memory : Memory α capacity) (start : Nat) {stop : Nat}
    (fits : stop ≤ capacity) :
    (memory.window start stop).length = stop - start := by
  simp only [window, List.length_take, List.length_drop, memory.size]
  omega

theorem window_eq_nil_iff (memory : Memory α capacity) {start stop : Nat}
    (ordered : start ≤ stop) (fits : stop ≤ capacity) :
    memory.window start stop = [] ↔ start = stop := by
  rw [← List.length_eq_zero_iff, memory.window_length start fits]
  omega

/-- Moving the start of a window forward drops that many cells from it. -/
theorem window_advance (memory : Memory α capacity) (start stop count : Nat) :
    memory.window (start + count) stop = (memory.window start stop).drop count := by
  simp only [window, List.drop_take, List.drop_drop]
  congr 1
  omega

theorem window_front (memory : Memory α capacity) {middle stop : Nat} (upper : middle ≤ stop) :
    memory.window 0 middle = (memory.window 0 stop).take middle := by
  simp only [window, List.take_take]
  congr 1
  omega

theorem window_split (memory : Memory α capacity) {start middle stop : Nat}
    (lower : start ≤ middle) (upper : middle ≤ stop) :
    memory.window start stop =
      memory.window start middle ++ memory.window middle stop := by
  have shifted : memory.window middle stop =
      (memory.window start stop).drop (middle - start) := by
    rw [← window_advance]
    congr 1
    omega
  have front : memory.window start middle =
      (memory.window start stop).take (middle - start) := by
    simp only [window, List.take_take]
    congr 1
    omega
  rw [shifted, front, List.take_append_drop]

/-- A copy that lands right behind a window extends the window by the data. -/
theorem window_store_append (memory : Memory α capacity) {start stop : Nat}
    (data : List α) (ordered : start ≤ stop) (fits : stop + data.length ≤ capacity) :
    (memory.store stop data).window start (stop + data.length) =
      memory.window start stop ++ data := by
  have region := memory.size
  have taken : data.take (capacity - stop) = data :=
    List.take_of_length_le (by omega)
  have frontLength : (memory.cells.take stop).length = stop := by
    rw [List.length_take, region]
    omega
  simp only [window, store, taken, List.append_assoc]
  rw [List.drop_append_of_le_length (by omega), List.take_append, List.take_append]
  have whole : ((memory.cells.take stop).drop start).take (stop + data.length - start) =
      (memory.cells.drop start).take (stop - start) := by
    rw [List.drop_take, List.take_take]
    congr 1
    omega
  have remaining : stop + data.length - start -
      ((memory.cells.take stop).drop start).length = data.length := by
    rw [List.length_drop, frontLength]
    omega
  rw [whole, remaining, List.take_length]
  simp

theorem window_store_front (memory : Memory α capacity) {data : List α} (fits : data.length ≤ capacity) :
    (memory.store 0 data).window 0 data.length = data := by
  have extended := memory.window_store_append data (Nat.le_refl 0) (by omega)
  rwa [window_self, Nat.zero_add, List.nil_append] at extended

/-- Two copies side by side are one. -/
theorem store_append (memory : Memory α capacity) {position : Nat} {front back : List α}
    (fits : position + (front ++ back).length ≤ capacity) :
    (memory.store position front).store (position + front.length) back =
      memory.store position (front ++ back) := by
  have region := memory.size
  rw [List.length_append] at fits
  have frontLength : (memory.cells.take position).length = position := by
    rw [List.length_take, region]
    omega
  have whole : front.take (capacity - position) = front := List.take_of_length_le (by omega)
  have rest : back.take (capacity - (position + front.length)) = back :=
    List.take_of_length_le (by omega)
  have both : (front ++ back).take (capacity - position) = front ++ back :=
    List.take_of_length_le (by rw [List.length_append]; omega)
  simp only [store, mk.injEq, whole, rest, both]
  have head : (memory.cells.take position ++ front ++
      memory.cells.drop (position + front.length)).take (position + front.length) =
        memory.cells.take position ++ front :=
    List.take_left' (by rw [List.length_append, frontLength])
  have tail : (memory.cells.take position ++ front ++
      memory.cells.drop (position + front.length)).drop (position + front.length + back.length) =
        memory.cells.drop (position + (front ++ back).length) := by
    rw [← List.drop_drop, List.drop_left' (by rw [List.length_append, frontLength]),
      List.drop_drop, List.length_append, Nat.add_assoc]
  rw [head, tail]
  simp only [List.append_assoc]

/-- A copy over an earlier one. -/
theorem store_over (memory : Memory α capacity) {position : Nat} {first second : List α}
    (longer : first.length ≤ second.length) (fits : position + second.length ≤ capacity) :
    (memory.store position first).store position second = memory.store position second := by
  have region := memory.size
  have short : first.take (capacity - position) = first := List.take_of_length_le (by omega)
  have frontLength : (memory.cells.take position).length = position := by
    rw [List.length_take, region]
    omega
  have head : (memory.cells.take position ++ first ++
      memory.cells.drop (position + first.length)).take position = memory.cells.take position := by
    rw [List.append_assoc, List.take_left' frontLength]
  have tail : (memory.cells.take position ++ first ++
      memory.cells.drop (position + first.length)).drop (position + second.length) =
        memory.cells.drop (position + second.length) := by
    rw [List.drop_append, List.drop_of_length_le (by rw [List.length_append, frontLength]; omega),
      List.nil_append, List.length_append, frontLength, List.drop_drop]
    congr 1
    omega
  simp only [store, short, head, tail]

/-- A copy leaves what is behind it. -/
theorem window_store_behind (memory : Memory α capacity) {position stop : Nat} {data : List α}
    (fits : position + data.length ≤ capacity) :
    (memory.store position data).window (position + data.length) stop =
      memory.window (position + data.length) stop := by
  have region := memory.size
  have whole : data.take (capacity - position) = data := List.take_of_length_le (by omega)
  have frontLength : (memory.cells.take position ++ data).length = position + data.length := by
    rw [List.length_append, List.length_take, region]
    omega
  simp only [window, store, whole]
  rw [List.drop_left' frontLength]

/-- A copy into the middle of a window replaces that part of it. -/
theorem window_store_within (memory : Memory α capacity) {position stop : Nat} {data : List α}
    (within : position + data.length ≤ stop) (fits : stop ≤ capacity) :
    (memory.store position data).window 0 stop =
      (memory.window 0 stop).take position ++ data ++
        (memory.window 0 stop).drop (position + data.length) := by
  have rest := memory.window_advance 0 stop (position + data.length)
  rw [Nat.zero_add] at rest
  rw [(memory.store position data).window_split (Nat.zero_le _) within,
    memory.window_store_append data (Nat.zero_le _) (Nat.le_trans within fits),
    memory.window_store_behind (Nat.le_trans within fits), rest,
    memory.window_front (Nat.le_trans (Nat.le_add_right _ _) within)]

/-- A copy up to the end of the region leaves what was before it. -/
theorem cells_store_end (memory : Memory α capacity) {stop : Nat} (data : List α)
    (fits : stop + data.length = capacity) :
    (memory.store stop data).cells = memory.window 0 stop ++ data := by
  rw [← memory.window_store_append data (Nat.zero_le _) (by omega), fits, window_whole]

/-- Compaction moves a window to the front of the region unchanged. -/
theorem window_moveFront (memory : Memory α capacity) {source count : Nat}
    (fits : source + count ≤ capacity) :
    (memory.moveFront source count).window 0 count =
      memory.window source (source + count) := by
  have length := memory.window_length source fits
  have extended := memory.window_store_append (memory.window source (source + count))
    (Nat.le_refl 0) (by omega)
  rw [length, Nat.zero_add, Nat.add_sub_cancel_left] at extended
  simpa [moveFront] using extended

end Memory

end FryFirmware.Lib
