import FryFirmware.Lib.Octets
import FryFirmware.Lib.Query
import FryFirmware.Olostep.Guard
import Mathlib.Tactic.Common

/-!
# The capability query

`olostep_ws_capability_query` of `lib/fry_core/olostep_guard.cpp`: whatever the three
values are, the query has its six parameters and no others.
-/

set_option autoImplicit false

namespace FryFirmware.Olostep

open Config (Text text)
open Lib
open Lib.Json (isDigit)

def kHex : Text := text "0123456789ABCDEF"

def enc (s : Text) : Text :=
  s.flatMap fun u =>
    if (97 ≤ u && u ≤ 122) || (65 ≤ u && u ≤ 90) || isDigit u || u = 45 || u = 95 || u = 46 || u = 126 then [u]
    else [37, kHex.getD (u >>> 4).toNat 0, kHex.getD (u &&& 0xF).toNat 0]

def olostep_ws_capability_query (device_id version platform : Text) : Text :=
  text "device_id=" ++ enc device_id ++ text "&version=" ++ enc version ++ text "&platform=" ++ enc platform ++
    text "&ali=1&mli=1&burke=true"

theorem escape_byte : ∀ u : UInt8, ∃ a b, Query.hexDigit (kHex.getD (u >>> 4).toNat 0) = some a ∧
    Query.hexDigit (kHex.getD (u &&& 0xF).toNat 0) = some b ∧ a * 16 + b = u := by
  intro u
  refine ⟨u >>> 4, u &&& 0xF, ?_⟩
  revert u
  exact forall_byte (by decide +kernel)

theorem plain_byte : ∀ u : UInt8, ((97 ≤ u && u ≤ 122) || (65 ≤ u && u ≤ 90) || isDigit u || u = 45 || u = 95 ||
    u = 46 || u = 126) = Query.unreserved u :=
  forall_byte (by decide +kernel)

theorem enc_encodes (s : Text) : Query.Encodes (enc s) s := by
  induction s with
  | nil => exact .nil
  | cons u s ih =>
      rw [enc, List.flatMap_cons, plain_byte]
      by_cases free : Query.unreserved u = true
      · rw [if_pos free]
        exact .plain free ih
      · obtain ⟨a, b, high, low, same⟩ := escape_byte u
        have escaped := Query.Encodes.escape high low ih
        rw [same] at escaped
        rw [if_neg free]
        exact escaped

/-- A text of unreserved characters stands for itself. -/
theorem encodes_self {s : Text} (free : s.all Query.unreserved = true) : Query.Encodes s s := by
  induction s with
  | nil => exact .nil
  | cons c s ih =>
      rw [List.all_cons, Bool.and_eq_true] at free
      exact .plain free.1 (ih free.2)

def names : List Text :=
  [text "device_id", text "version", text "platform", text "ali", text "mli", text "burke"]

/-- The query's parameters with these values. -/
def parameters (device_id version platform : Text) : List (Text × Text) :=
  names.zip [device_id, version, platform, text "1", text "1", text "true"]

theorem query_joined (device_id version platform : Text) :
    olostep_ws_capability_query device_id version platform =
      [38].intercalate ((parameters (enc device_id) (enc version) (enc platform)).map Query.partText) := by
  have first : text "device_id=" = text "device_id" ++ [61] := by decide
  have second : text "&version=" = [38] ++ text "version" ++ [61] := by decide
  have third : text "&platform=" = [38] ++ text "platform" ++ [61] := by decide
  have constant : text "&ali=1&mli=1&burke=true" = [38] ++ text "ali" ++ [61] ++ text "1" ++ [38] ++ text "mli" ++
      [61] ++ text "1" ++ [38] ++ text "burke" ++ [61] ++ text "true" := by decide
  simp only [olostep_ws_capability_query, first, second, third, constant, parameters, names, List.zip_cons_cons,
    List.zip_nil_left, List.map_cons, List.map_nil, Query.partText, List.intercalate_cons_cons,
    List.intercalate_singleton, List.append_assoc, List.cons_append, List.nil_append]

theorem parameters_encode (device_id version platform : Text) :
    Query.EncodesAll (parameters (enc device_id) (enc version) (enc platform))
      (parameters device_id version platform) := by
  have plain : (names.all fun name => name.all Query.unreserved) = true := by decide
  have each : ∀ name ∈ names, Query.Encodes name name := fun name member =>
    encodes_self (List.all_eq_true.mp plain name member)
  simp only [names, List.forall_mem_cons] at each
  obtain ⟨device, vers, plat, ali, mli, burke, -⟩ := each
  exact .cons ⟨device, enc_encodes _⟩ (.cons ⟨vers, enc_encodes _⟩ (.cons ⟨plat, enc_encodes _⟩
    (.cons ⟨ali, encodes_self (by decide)⟩ (.cons ⟨mli, encodes_self (by decide)⟩
      (.cons ⟨burke, encodes_self (by decide)⟩ .nil)))))

/-- The query has six parts, each a name and a value, and is read as these six parameters. -/
theorem capability_query_reads (device_id version platform : Text) (plusIsBlank : Bool) :
    (Query.parts (olostep_ws_capability_query device_id version platform)).length = 6 ∧
      (∀ part ∈ Query.parts (olostep_ws_capability_query device_id version platform), part.count 61 = 1) ∧
      Query.read plusIsBlank (olostep_ws_capability_query device_id version platform) =
        some [(text "device_id", device_id), (text "version", version), (text "platform", platform),
          (text "ali", text "1"), (text "mli", text "1"), (text "burke", text "true")] ∧
      [text "device_id", text "version", text "platform", text "ali", text "mli", text "burke"].Nodup := by
  have all := parameters_encode device_id version platform
  have filled : parameters (enc device_id) (enc version) (enc platform) ≠ [] := List.cons_ne_nil _ _
  have parted := Query.parts_joined all filled
  rw [← query_joined] at parted
  refine ⟨?_, ?_, ?_, by decide⟩
  · rw [parted]
    rfl
  · rw [parted]
    exact List.forall_mem_map.mpr all.one_equals
  · rw [query_joined]
    exact Query.read_joined all filled plusIsBlank

end FryFirmware.Olostep
