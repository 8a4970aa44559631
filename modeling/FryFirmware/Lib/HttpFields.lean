import FryFirmware.Lib.Octets
import FryFirmware.Lib.Url
import Mathlib.Data.List.Basic
import Mathlib.Tactic.Common

/-!
# Header fields on the wire

Tokens of RFC 9110 and field lines of RFC 9112, with the freedom a recipient has: a single
line feed ends a line, and a carriage return in front of it is dropped.
-/

set_option autoImplicit false

namespace FryFirmware.Lib.HttpFields

open Url (notColon)

def tchar (c : UInt8) : Bool :=
  (48 ≤ c && c ≤ 57) || (65 ≤ c && c ≤ 90) || (97 ≤ c && c ≤ 122) ||
    [33, 35, 36, 37, 38, 39, 42, 43, 45, 46, 94, 95, 96, 124, 126].contains c

def isToken (name : List UInt8) : Bool := name ≠ [] && name.all tchar

def isSpace (c : UInt8) : Bool := c = 32 || c = 9

/-- Without the spaces and tabs at both ends. -/
def trim (s : List UInt8) : List UInt8 := ((s.dropWhile isSpace).reverse.dropWhile isSpace).reverse

abbrev Field := List UInt8 × List UInt8

def line (field : Field) : List UInt8 := field.1 ++ 58 :: 32 :: (field.2 ++ [13])

/-- The lines `name: value`, each with its end. -/
def block (fields : List Field) : List UInt8 := fields.flatMap fun field => line field ++ [10]

def readLine (s : List UInt8) : Option Field :=
  let s := if s.getLast? = some 13 then s.dropLast else s
  match s.dropWhile notColon with
  | [] => none
  | _ :: value => if isToken (s.takeWhile notColon) then some (s.takeWhile notColon, trim value) else none

/-- The fields of a block; each of its lines has to be one. -/
def readBlock (s : List UInt8) : Option (List Field) :=
  match (s.splitOn 10).reverse with
  | [] :: lines => lines.reverse.mapM readLine
  | _ => none

theorem tchar_plain : ∀ c : UInt8, tchar c = true → notColon c = true ∧ isSpace c = false ∧ c ≠ 10 :=
  forall_byte (by decide +kernel)

theorem trim_token {name : List UInt8} (token : isToken name = true) : trim name = name := by
  simp only [isToken, Bool.and_eq_true, List.all_eq_true] at token
  have kept (s : List UInt8) (plain : ∀ c ∈ s, tchar c = true) : s.dropWhile isSpace = s := by
    cases s with
    | nil => rfl
    | cons c s => rw [List.dropWhile_cons, (tchar_plain c (plain c List.mem_cons_self)).2.1]; rfl
  rw [trim, kept name token.2, kept name.reverse fun c member => token.2 c (List.mem_reverse.mp member),
    List.reverse_reverse]

theorem readLine_line {field : Field} (token : isToken field.1 = true) :
    readLine (line field) = some (field.1, trim field.2) := by
  have whole : (line field).dropLast = field.1 ++ 58 :: 32 :: field.2 := by
    simp [line, List.dropLast_append_of_ne_nil, List.dropLast_cons_of_ne_nil]
  have last : (line field).getLast? = some 13 := by
    simp [line, List.getLast?_append, List.getLast?_cons]
  have plain : ∀ c ∈ field.1, notColon c = true := by
    simp only [isToken, Bool.and_eq_true, List.all_eq_true] at token
    exact fun c member => (tchar_plain c (token.2 c member)).1
  have behind : (field.1 ++ 58 :: 32 :: field.2).dropWhile notColon = 58 :: 32 :: field.2 :=
    dropWhile_run plain fun c first => by cases first; rfl
  have before : (field.1 ++ 58 :: 32 :: field.2).takeWhile notColon = field.1 :=
    takeWhile_run plain fun c first => by cases first; rfl
  simp only [readLine, last, if_true, whole, behind, before, token]
  rfl

theorem splitOn_lines {lines : List (List UInt8)} (plain : ∀ s ∈ lines, (10 : UInt8) ∉ s) :
    (lines.flatMap (· ++ [10])).splitOn 10 = lines ++ [[]] := by
  induction lines with
  | nil => rfl
  | cons s lines ih =>
      have later := ih fun t member => plain t (List.mem_cons_of_mem _ member)
      rw [List.flatMap_cons, List.append_assoc, List.singleton_append,
        List.splitOn_append_cons_self_of_not_mem (plain s List.mem_cons_self), later, List.cons_append]

/-- Fields with tokens for names and no line feed in a value read back as they are, up to the
space around the values. -/
theorem readBlock_block {fields : List Field} (names : ∀ field ∈ fields, isToken field.1 = true)
    (values : ∀ field ∈ fields, (10 : UInt8) ∉ field.2) :
    readBlock (block fields) = some (fields.map fun field => (field.1, trim field.2)) := by
  have plain : ∀ s ∈ fields.map line, (10 : UInt8) ∉ s := by
    intro s member inside
    obtain ⟨field, known, rfl⟩ := List.mem_map.mp member
    have token := names field known
    simp only [isToken, Bool.and_eq_true, List.all_eq_true] at token
    simp only [line, List.mem_append, List.mem_cons, List.not_mem_nil, or_false] at inside
    rcases inside with name | colon | space | value | ending
    · exact (tchar_plain 10 (token.2 10 name)).2.2 rfl
    · exact absurd colon (by decide)
    · exact absurd space (by decide)
    · exact values field known value
    · exact absurd ending (by decide)
  have parts : (block fields).splitOn 10 = fields.map line ++ [[]] := by
    rw [← splitOn_lines plain, List.flatMap_map]
    rfl
  rw [readBlock, parts, List.reverse_append]
  simp only [List.reverse_cons, List.reverse_nil, List.nil_append, List.cons_append, List.reverse_reverse]
  rw [List.mapM_map, mapM_iff, List.forall₂_map_right_iff, List.forall₂_same]
  exact fun field known => readLine_line (names field known)

end FryFirmware.Lib.HttpFields
