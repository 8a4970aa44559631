import FryFirmware.Lib.Joined
import Mathlib.Data.List.Basic
import Mathlib.Tactic.Common

/-!
# Query strings

How a query is read: its parts stand between `&`, a part's name ends at its first `=`,
and an escape is `%` with two hexadecimal digits. Readers of forms also take `+` for a
blank; the reader here has that as a parameter.
-/

set_option autoImplicit false

namespace FryFirmware.Lib.Query

def hexDigit (c : UInt8) : Option UInt8 :=
  if 48 ≤ c ∧ c ≤ 57 then some (c - 48)
  else if 97 ≤ c ∧ c ≤ 102 then some (c - 87)
  else if 65 ≤ c ∧ c ≤ 70 then some (c - 55)
  else none

/-- RFC 3986: letters, digits, `-`, `.`, `_` and `~`. -/
def unreserved (c : UInt8) : Bool :=
  (97 ≤ c && c ≤ 122) || (65 ≤ c && c ≤ 90) || (48 ≤ c && c ≤ 57) || c = 45 || c = 46 || c = 95 || c = 126

/-- The bytes that a text stands for; `none` where an escape is not one. -/
def decode (plusIsBlank : Bool) : List UInt8 → Option (List UInt8)
  | [] => some []
  | c :: rest =>
      if c = 37 then
        match rest with
        | high :: low :: later =>
            (hexDigit high).bind fun high => (hexDigit low).bind fun low =>
              (decode plusIsBlank later).map fun rest => (high * 16 + low) :: rest
        | _ => none
      else (decode plusIsBlank rest).map fun rest => (if plusIsBlank ∧ c = 43 then 32 else c) :: rest

/-- A part with its `=`, cut there. -/
def pair? (part : List UInt8) : Option (List UInt8 × List UInt8) :=
  if 61 ∈ part then some (part.takeWhile (· ≠ 61), (part.dropWhile (· ≠ 61)).drop 1) else none

def parts (query : List UInt8) : List (List UInt8) := query.splitOn 38

/-- The names and the values, decoded; every part has to have both. -/
def read (plusIsBlank : Bool) (query : List UInt8) : Option (List (List UInt8 × List UInt8)) :=
  (parts query).mapM fun part =>
    (pair? part).bind fun (name, value) =>
      (decode plusIsBlank name).bind fun name => (decode plusIsBlank value).map fun value => (name, value)

/-! ## Writing -/

/-- The text stands for these bytes, with nothing else than unreserved characters and escapes. -/
inductive Encodes : List UInt8 → List UInt8 → Prop where
  | nil : Encodes [] []
  | plain {c text content} : unreserved c = true → Encodes text content → Encodes (c :: text) (c :: content)
  | escape {high low a b text content} : hexDigit high = some a → hexDigit low = some b →
      Encodes text content → Encodes (37 :: high :: low :: text) ((a * 16 + b) :: content)

theorem unreserved_ne {c : UInt8} (free : unreserved c = true) : c ≠ 37 ∧ c ≠ 38 ∧ c ≠ 43 ∧ c ≠ 61 := by
  refine ⟨?_, ?_, ?_, ?_⟩ <;> rintro rfl <;> exact absurd free (by decide)

theorem hexDigit_ne {c d : UInt8} (digit : hexDigit c = some d) : c ≠ 38 ∧ c ≠ 61 := by
  have separators : hexDigit 38 = none ∧ hexDigit 61 = none := by decide
  constructor
  · rintro rfl
    rw [separators.1] at digit
    cases digit
  · rintro rfl
    rw [separators.2] at digit
    cases digit

theorem Encodes.decode {text content : List UInt8} (encodes : Encodes text content) (plusIsBlank : Bool) :
    decode plusIsBlank text = some content := by
  induction encodes with
  | nil => rfl
  | plain free _ ih =>
      obtain ⟨escape, -, plus, -⟩ := unreserved_ne free
      rw [Query.decode.eq_def]
      simp only [if_neg escape, ih, Option.map_some, plus, and_false, if_false]
  | escape first second _ ih =>
      rw [Query.decode, if_pos rfl]
      simp only [first, second, ih, Option.bind_some, Option.map_some]

theorem Encodes.free {text content : List UInt8} (encodes : Encodes text content) : 38 ∉ text ∧ 61 ∉ text := by
  induction encodes with
  | nil => exact ⟨nofun, nofun⟩
  | plain free _ ih =>
      obtain ⟨-, ampersand, -, equals⟩ := unreserved_ne free
      simp only [List.mem_cons, not_or]
      exact ⟨⟨ampersand.symm, ih.1⟩, equals.symm, ih.2⟩
  | escape first second _ ih =>
      have high := hexDigit_ne first
      have low := hexDigit_ne second
      simp only [List.mem_cons, not_or]
      exact ⟨⟨by decide, high.1.symm, low.1.symm, ih.1⟩, by decide, high.2.symm, low.2.symm, ih.2⟩

/-- A name and a value, as a part of a query. -/
def partText (pair : List UInt8 × List UInt8) : List UInt8 := pair.1 ++ 61 :: pair.2

theorem pair?_partText {name value : List UInt8} (free : 61 ∉ name) :
    pair? (partText (name, value)) = some (name, value) := by
  have before : ∀ c ∈ name, decide (c ≠ 61) = true := fun c member =>
    decide_eq_true fun same => free (same ▸ member)
  have ends : ∀ c ∈ (61 :: value).head?, decide (c ≠ 61) = false := by
    rintro c ⟨⟩
    rfl
  rw [pair?, partText, if_pos (List.mem_append_right _ List.mem_cons_self), takeWhile_run before ends,
    dropWhile_run before ends]
  rfl

section Joined

variable {texts contents : List (List UInt8 × List UInt8)}

/-- The texts of names and values, one by one. -/
abbrev EncodesAll (texts contents : List (List UInt8 × List UInt8)) : Prop :=
  List.Forall₂ (fun text content => Encodes text.1 content.1 ∧ Encodes text.2 content.2) texts contents

theorem EncodesAll.free (all : EncodesAll texts contents) : ∀ text ∈ texts, 38 ∉ partText text := by
  induction all with
  | nil => exact nofun
  | cons both _ ih =>
      refine List.forall_mem_cons.mpr ⟨fun member => ?_, ih⟩
      rcases List.mem_append.mp member with inside | behind
      · exact both.1.free.1 inside
      · rcases List.mem_cons.mp behind with same | inside
        · exact absurd same (by decide)
        · exact both.2.free.1 inside

/-- Every part has one `=`, between its name and its value. -/
theorem EncodesAll.one_equals (all : EncodesAll texts contents) :
    ∀ text ∈ texts, (partText text).count 61 = 1 := by
  induction all with
  | nil => exact nofun
  | cons both _ ih =>
      refine List.forall_mem_cons.mpr ⟨?_, ih⟩
      rw [partText, List.count_append, List.count_cons_self, List.count_eq_zero.mpr both.1.free.2,
        List.count_eq_zero.mpr both.2.free.2]

/-- Parts that were written so are the parts of the query. -/
theorem parts_joined (all : EncodesAll texts contents) (filled : texts ≠ []) :
    parts ([38].intercalate (texts.map partText)) = texts.map partText :=
  List.splitOn_intercalate 38 (List.forall_mem_map.mpr all.free) (mt List.map_eq_nil_iff.mp filled)

theorem read_joined (all : EncodesAll texts contents) (filled : texts ≠ []) (plusIsBlank : Bool) :
    read plusIsBlank ([38].intercalate (texts.map partText)) = some contents := by
  rw [read, parts_joined all filled, List.mapM_map, mapM_iff]
  apply all.imp
  intro text content both
  obtain ⟨name, value⟩ := both
  simp only [Function.comp_apply, pair?_partText name.free.2, name.decode, value.decode, Option.bind_some,
    Option.map_some]

end Joined

end FryFirmware.Lib.Query
