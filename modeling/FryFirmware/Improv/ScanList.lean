import FryFirmware.Config.Store
import FryFirmware.Lib.InPlace
import FryFirmware.Lib.Strongest
import Mathlib.Tactic.Common

/-!
# The list of scanned networks

`ScanList` of `lib/fry_core/improv_scan.cpp`: an array of 24 rows, one for each
SSID, strongest first.
-/

set_option autoImplicit false

namespace FryFirmware.Improv

open FryFirmware.Config (Text)
open FryFirmware.Lib.InPlace
open FryFirmware.Lib.Strongest

/-- The bytes of `ssid` before its NUL. -/
structure ScanRow where
  ssid : Text := []
  rssi : Int := 0
  secure : Bool := false
  fits : ssid.length ≤ 32 := by simp
  deriving DecidableEq, Repr

instance : Inhabited ScanRow := ⟨{}⟩

namespace ScanList

def kMax : Nat := 24

end ScanList

structure ScanList where
  rows : List ScanRow := List.replicate ScanList.kMax {}
  n : Nat := 0
  size : rows.length = ScanList.kMax := by simp
  bound : n ≤ ScanList.kMax := by simp
  deriving DecidableEq

/-- What a caller saw of one network. -/
structure Sighting where
  ssid : Option Text
  rssi : Int
  secure : Bool
  deriving DecidableEq, Repr

/-- The row of a sighting that has a name. `strncpy` copies 32 bytes of it at most. -/
def Sighting.row? (sighting : Sighting) : Option ScanRow :=
  match sighting.ssid with
  | none => none
  | some [] => none
  | some ssid => some ⟨ssid.take 32, sighting.rssi, sighting.secure, List.length_take_le _ _⟩

namespace ScanList

variable (list : ScanList)

def count : Nat := list.n

/-- The rows that `at` reaches. -/
def kept : List ScanRow := list.rows.take list.n

/-- Row `i` is dropped, and the rows behind it close the gap. -/
def drop (i : Nat) : ScanList where
  rows := closeGap list.rows i (list.n - 1 - i)
  n := list.n - 1
  size := by rw [length_closeGap, list.size]
  bound := Nat.le_trans (Nat.sub_le _ _) list.bound

/-- The first row that is weaker. -/
def position (row : ScanRow) : Nat :=
  (list.kept.takeWhile fun other => row.rssi ≤ other.rssi).length

/-- `add` from the search for a place on. -/
def insert (row : ScanRow) : ScanList × Bool :=
  if list.position row ≥ kMax then (list, false)
  else
    let last := if list.n < kMax then list.n else kMax - 1
    ({ rows := (openGap list.rows last (last - list.position row)).set (list.position row) row
       n := if list.n < kMax then list.n + 1 else list.n
       size := by rw [List.length_set, length_openGap, list.size]
       bound := by
         have bound := list.bound
         split <;> omega }, true)

def addRow (row : ScanRow) : ScanList × Bool :=
  match list.kept.findIdx? fun other => other.ssid = row.ssid with
  | none => list.insert row
  | some i =>
      if row.rssi ≤ (list.rows.getD i default).rssi then (list, false)
      else (list.drop i).insert row

def add (sighting : Sighting) : ScanList × Bool :=
  match sighting.row? with
  | none => (list, false)
  | some row => list.addRow row

/-- Any sequence of `add` calls, from an empty list. -/
def run (sightings : List Sighting) : ScanList :=
  sightings.foldl (fun list sighting => (list.add sighting).1) {}

end ScanList

/-! ## The rows of a list -/

namespace ScanList

variable {list : ScanList} {row : ScanRow}

theorem kept_length (list : ScanList) : list.kept.length = list.n := by
  rw [kept, List.length_take, list.size]
  exact Nat.min_eq_left list.bound

theorem rows_eq (list : ScanList) : list.rows = list.kept ++ list.rows.drop list.n :=
  (List.take_append_drop list.n list.rows).symm

/-- Dropping a row leaves the others. -/
theorem kept_drop {front behind : List ScanRow} {gap : ScanRow}
    (split : list.kept = front ++ gap :: behind) : (list.drop front.length).kept = front ++ behind := by
  have length := list.kept_length
  rw [split, List.length_append, List.length_cons] at length
  obtain ⟨junk, closed⟩ := closeGap_eq front behind (list.rows.drop list.n) gap
  rw [← split, ← list.rows_eq] at closed
  have rows : (list.drop front.length).kept =
      (closeGap list.rows front.length (list.n - 1 - front.length)).take (list.n - 1) := rfl
  rw [rows, show list.n - 1 - front.length = behind.length by omega, closed,
    List.take_left' (by rw [List.length_append]; omega)]

/-- A row that finds a place pushes the rows behind it back, and the last one out of a
full list. -/
theorem kept_insert (list : ScanList) (row : ScanRow) :
    (list.insert row).1.kept = (place ScanRow.rssi row list.kept).take kMax := by
  have length := list.kept_length
  have bound := list.bound
  have size := list.size
  obtain ⟨front, behind, split, whole, position⟩ : ∃ front behind, list.kept = front ++ behind ∧
      place ScanRow.rssi row list.kept = front ++ row :: behind ∧ list.position row = front.length :=
    ⟨_, _, List.takeWhile_append_dropWhile.symm, rfl, rfl⟩
  rw [split, List.length_append] at length
  rw [insert, whole]
  by_cases beyond : list.position row ≥ kMax
  · have none : behind = [] := List.length_eq_zero_iff.mp (by omega)
    rw [if_pos beyond, split, none, List.append_nil, List.take_left' (by omega)]
  · rw [if_neg beyond]
    by_cases room : list.n < kMax
    · -- The free cell behind the rows takes the last of them.
      obtain ⟨free, rest, tail⟩ := List.exists_cons_of_length_pos
        (show 0 < (list.rows.drop list.n).length by rw [List.length_drop]; omega)
      obtain ⟨junk, opened⟩ := openGap_eq front behind rest free
      rw [← split, ← tail, ← list.rows_eq, length] at opened
      simp only [kept, if_pos room, position]
      rw [show list.n - front.length = behind.length by omega, opened, List.append_assoc,
        List.cons_append, List.set_append_right _ _ (Nat.le_refl _), Nat.sub_self, List.set_cons_zero,
        ← List.cons_append, ← List.append_assoc, List.take_left' (by simp; omega),
        List.take_of_length_le (by simp; omega)]
    · -- The row in the last cell is lost.
      have full : list.rows.drop list.n = [] := List.drop_eq_nil_of_le (by omega)
      obtain ⟨moved, lost, rfl⟩ : ∃ moved lost, behind = moved ++ [lost] :=
        ⟨_, _, (List.dropLast_append_getLast (by rintro rfl; simp at length; omega)).symm⟩
      rw [List.length_append, List.length_singleton] at length
      obtain ⟨junk, opened⟩ := openGap_eq front moved [] lost
      rw [List.append_assoc, ← split, ← List.append_nil list.kept, ← full, ← list.rows_eq] at opened
      simp only [kept, if_neg room, position]
      have kept' : (front ++ row :: (moved ++ [lost])).take kMax = front ++ row :: moved := by
        rw [← List.cons_append, ← List.append_assoc, List.take_left' (by simp; omega)]
      rw [show kMax - 1 - front.length = moved.length by omega,
        show kMax - 1 = front.length + moved.length by omega, opened, full, List.append_nil,
        List.set_append_right _ _ (Nat.le_refl _), Nat.sub_self, List.set_cons_zero, kept',
        List.take_of_length_le (by simp; omega)]

/-! ## The list as the strongest of the rows seen -/

/-- One `add` keeps what a list of the strongest rows would. -/
theorem kept_addRow (distinct : (list.kept.map ScanRow.ssid).Nodup) (row : ScanRow) :
    (list.addRow row).1.kept = record ScanRow.ssid ScanRow.rssi kMax list.kept row := by
  rw [addRow, record]
  cases found : list.kept.findIdx? fun other => other.ssid = row.ssid with
  | none =>
      have fresh : ∀ other ∈ list.kept, other.ssid ≠ row.ssid := by
        simpa [List.findIdx?_eq_none_iff] using found
      have none : ¬ (list.kept.any fun x => x.ssid = row.ssid ∧ row.rssi ≤ x.rssi) = true := by
        simp only [List.any_eq_true, decide_eq_true_eq, not_exists, not_and]
        exact fun x member same => absurd same (fresh x member)
      have others : (list.kept.filter fun x => x.ssid ≠ row.ssid) = list.kept :=
        List.filter_eq_self.mpr fun x member => decide_eq_true (fresh x member)
      rw [if_neg none, others, kept_insert]
  | some i =>
      obtain ⟨inside, same, -⟩ := List.findIdx?_eq_some_iff_getElem.mp found
      have named : (list.kept[i]).ssid = row.ssid := by simpa using same
      obtain ⟨front, gap, behind, split, rfl, here⟩ : ∃ front gap behind,
          list.kept = front ++ gap :: behind ∧ front.length = i ∧ list.kept[i] = gap :=
        ⟨list.kept.take i, list.kept[i], list.kept.drop (i + 1), by simp,
          List.length_take_of_le (Nat.le_of_lt inside), rfl⟩
      rw [here] at named
      have cell : list.rows.getD front.length default = gap := by
        rw [list.rows_eq, split, List.append_assoc, List.getD_append_right _ _ _ _ (Nat.le_refl _)]
        simp
      rw [split, List.map_append, List.map_cons, List.nodup_middle, List.nodup_cons] at distinct
      have others : ∀ x ∈ front ++ behind, x.ssid ≠ row.ssid := by
        intro x member alike
        refine distinct.1 ?_
        rw [named, ← alike, ← List.map_append]
        exact List.mem_map_of_mem member
      simp only [cell]
      split
      · next weaker =>
          have known : (list.kept.any fun x => x.ssid = row.ssid ∧ row.rssi ≤ x.rssi) = true := by
            simp only [List.any_eq_true, decide_eq_true_eq]
            exact ⟨gap, by simp [split], named, weaker⟩
          rw [if_pos known]
      · next stronger =>
          have none : ¬ (list.kept.any fun x => x.ssid = row.ssid ∧ row.rssi ≤ x.rssi) = true := by
            simp only [List.any_eq_true, decide_eq_true_eq, not_exists, not_and]
            intro x member alike
            rw [split, List.mem_append, List.mem_cons, or_left_comm, ← List.mem_append] at member
            rcases member with rfl | other
            · exact stronger
            · exact absurd alike (others x other)
          have rest : (list.kept.filter fun x => x.ssid ≠ row.ssid) = front ++ behind := by
            rw [split, List.filter_append, List.filter_cons_of_neg (by simp [named]),
              ← List.filter_append]
            exact List.filter_eq_self.mpr fun x member => decide_eq_true (others x member)
          rw [if_neg none, rest, kept_insert, kept_drop split]

end ScanList

/-- The rows of the sightings with a name, in order. -/
def rowsSeen (sightings : List Sighting) : List ScanRow := sightings.filterMap Sighting.row?

theorem row?_ssid {sighting : Sighting} {row : ScanRow} (named : sighting.row? = some row) :
    row.ssid ≠ [] := by
  obtain ⟨ssid, rssi, secure⟩ := sighting
  cases ssid with
  | none => cases named
  | some ssid =>
      cases ssid with
      | nil => cases named
      | cons c ssid =>
          cases named
          exact nofun

namespace ScanList

theorem kept_run (sightings : List Sighting) :
    (run sightings).kept = (rowsSeen sightings).foldl (record ScanRow.ssid ScanRow.rssi kMax) [] := by
  induction sightings using List.reverseRecOn with
  | nil => rfl
  | append_singleton sightings sighting ih =>
      rw [run, List.foldl_append, ← run, rowsSeen, List.filterMap_append, ← rowsSeen, List.foldl_append,
        ← ih, List.foldl_cons, List.foldl_nil, add]
      cases named : sighting.row? with
      | none => simp [named]
      | some row =>
          have distinct := (ranked_foldl ScanRow.ssid ScanRow.rssi kMax
            (rowsSeen sightings)).1.distinct
          rw [← ih] at distinct
          simpa [named] using kept_addRow distinct row

/-- After any sequence of `add` calls from an empty list: the rows are the first
strongest ones of their SSIDs, strongest first and one for each SSID, as many as there
is room for, and no SSID that is left out was seen stronger than one of them. -/
theorem scanList_strongest (sightings : List Sighting) :
    (run sightings).kept.Pairwise (fun first second => second.rssi ≤ first.rssi) ∧
    ((run sightings).kept.map ScanRow.ssid).Nodup ∧
    (∀ row ∈ (run sightings).kept, row.ssid ≠ []) ∧
    (run sightings).count = min kMax ((rowsSeen sightings).map ScanRow.ssid).dedup.length ∧
    (∀ row ∈ (run sightings).kept,
      FirstStrongest ScanRow.ssid ScanRow.rssi (rowsSeen sightings) row) ∧
    ∀ other ∈ rowsSeen sightings, other.ssid ∉ (run sightings).kept.map ScanRow.ssid →
      ∀ row ∈ (run sightings).kept, other.rssi ≤ row.rssi := by
  have ranked := ranked_foldl ScanRow.ssid ScanRow.rssi kMax (rowsSeen sightings)
  rw [← kept_run] at ranked
  obtain ⟨ranked, bounded⟩ := ranked
  refine ⟨ranked.sorted, ranked.distinct, fun row member => ?_, ?_, ranked.first,
    fun other seen absent => (ranked.leftOut other seen absent).2⟩
  · obtain ⟨sighting, -, named⟩ := List.mem_filterMap.mp (ranked.first row member).mem
    exact row?_ssid named
  · rw [count, ← kept_length, ranked.length bounded]

end ScanList

end FryFirmware.Improv
