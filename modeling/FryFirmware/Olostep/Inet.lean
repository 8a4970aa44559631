import FryFirmware.Olostep.Hosts
import Mathlib.Data.List.Basic
import Mathlib.Tactic.Common

/-!
# Addresses in numbers and dots

Which hosts outside brackets still denote a private address to a reader of the
numbers-and-dots notation.
-/

set_option autoImplicit false

namespace FryFirmware.Olostep

open Lib Lib.InetText
open Config (Text text)
open Lib.Json (isDigit digitsValue)
open Lib.Url (notColon inAuthority authorityOf)

def addressOf (a : Nat) : Ip4 :=
  ⟨UInt8.ofNat (a / 2 ^ 24), UInt8.ofNat (a / 2 ^ 16), UInt8.ofNat (a / 2 ^ 8), UInt8.ofNat a⟩

/-- One to three numbers below 256 in front of a bare `0x`, with which they make up an address
that is blocked. The host may end in a dot. -/
def BareHex (host : Text) : Prop :=
  ∃ (labels : List Text) (bytes : List UInt8), labels ≠ [] ∧ labels.length ≤ 3 ∧
    List.Forall₂ (fun label byte => readPart label = some byte.toNat) labels bytes ∧
    dropDot (lower host) = [46].intercalate (labels ++ [text "0x"]) ∧
    olostep_ip_is_blocked_v4 ⟨bytes.getD 0 0, bytes.getD 1 0, bytes.getD 2 0, 0⟩ = true

/-! ## Upper and lower case -/

theorem lowerChar_byte : ∀ c : UInt8, (lowerChar c = 46 ↔ c = 46) ∧
    hexDigit (lowerChar c) = hexDigit c ∧ (lowerChar c = 48 ↔ c = 48) ∧
      ((lowerChar c = 120 ∨ lowerChar c = 88) ↔ c = 120 ∨ c = 88) :=
  forall_byte (by decide +kernel)

theorem lowerChar_dot (c : UInt8) : lowerChar c = 46 ↔ c = 46 := (lowerChar_byte c).1

theorem hexDigit_lower (c : UInt8) : hexDigit (lowerChar c) = hexDigit c := (lowerChar_byte c).2.1

theorem lowerChar_zero (c : UInt8) : (lowerChar c = 48 ↔ c = 48) ∧
    ((lowerChar c = 120 ∨ lowerChar c = 88) ↔ c = 120 ∨ c = 88) :=
  (lowerChar_byte c).2.2

theorem number_lower (base : Nat) (digits : Text) : number base (lower digits) = number base digits := by
  induction digits using List.reverseRecOn with
  | nil => rfl
  | append_singleton digits c ih =>
      have split : lower (digits ++ [c]) = lower digits ++ [lowerChar c] := List.map_append
      rw [split, number_append, number_append, ih, hexDigit_lower]

theorem readPart_lower (label : Text) : readPart (lower label) = readPart label := by
  cases label with
  | nil => rfl
  | cons c rest =>
      by_cases zero : c = 48
      · subst zero
        cases rest with
        | nil => rfl
        | cons x rest =>
            have front := number_lower 16 rest
            have octal := number_lower 8 (x :: rest)
            have marks := (lowerChar_zero x).2
            simp only [lower, List.map_cons] at front octal ⊢
            simp only [readPart, show lowerChar 48 = 48 by decide, front, octal, marks]
      · have other : lowerChar c ≠ 48 := fun eq => zero ((lowerChar_zero c).1.mp eq)
        have decimal := number_lower 10 (c :: rest)
        simp only [lower, List.map_cons] at decimal ⊢
        rw [readPart, readPart, decimal]
        all_goals simp [zero, other]

theorem dropDot_lower (host : Text) : dropDot (lower host) = lower (dropDot host) := by
  have last : (lower host).getLast? = some 46 ↔ host.getLast? = some 46 := by
    rw [lower, List.getLast?_map]
    simp [lowerChar_dot]
  simp only [dropDot, last]
  split
  · exact List.map_dropLast.symm
  · rfl

theorem aton_lower (host : Text) : aton (lower host) = aton host := by
  have parts : (lower (dropDot host)).splitOn 46 = ((dropDot host).splitOn 46).map lower :=
    splitOn_map lowerChar_dot _
  rw [aton, aton, dropDot_lower, parts, List.mapM_map]
  congr 2
  funext label
  exact readPart_lower label

/-! ## Bytes of an address -/

theorem addressOf_bytes (a b c d : UInt8) :
    addressOf (a.toNat * 256 ^ 3 + (b.toNat * 256 ^ 2 + (c.toNat * 256 ^ 1 + d.toNat))) = ⟨a, b, c, d⟩ := by
  have byteA : a.toNat < 256 := a.toNat_lt
  have byteB : b.toNat < 256 := b.toNat_lt
  have byteC : c.toNat < 256 := c.toNat_lt
  have byteD : d.toNat < 256 := d.toNat_lt
  simp only [addressOf, Ip4.mk.injEq]
  refine ⟨?_, ?_, ?_, ?_⟩
  all_goals
    apply UInt8.toNat.inj
    rw [UInt8.toNat_ofNat']
    omega

/-- The values in front of a zero that fills what is left. -/
theorem fill_zero {values : List Nat} {n : Nat} (filled : fill 4 (values ++ [0]) = some n) :
    ∃ bytes : List UInt8, values = bytes.map UInt8.toNat ∧ bytes.length ≤ 3 := by
  obtain ⟨short, small⟩ := fill_lt filled
  refine ⟨values.map UInt8.ofNat, ?_, by simpa using Nat.le_of_lt_succ short⟩
  calc values = values.map id := (List.map_id _).symm
    _ = values.map (UInt8.toNat ∘ UInt8.ofNat) :=
      List.map_congr_left fun v member => (UInt8.toNat_ofNat_of_lt' (small v member)).symm
    _ = _ := List.map_map.symm

theorem addressOf_fill {bytes : List UInt8} (short : bytes.length ≤ 3) :
    ∃ n, fill 4 (bytes.map UInt8.toNat ++ [0]) = some n ∧
      addressOf n = ⟨bytes.getD 0 0, bytes.getD 1 0, bytes.getD 2 0, 0⟩ := by
  match bytes with
  | [] => exact ⟨0, rfl, addressOf_bytes 0 0 0 0⟩
  | [a] =>
      refine ⟨a.toNat * 256 ^ 3 + 0, by simp [fill, a.toNat_lt], ?_⟩
      simpa using addressOf_bytes a 0 0 0
  | [a, b] =>
      refine ⟨a.toNat * 256 ^ 3 + (b.toNat * 256 ^ 2 + 0), by simp [fill, a.toNat_lt, b.toNat_lt], ?_⟩
      simpa using addressOf_bytes a b 0 0
  | [a, b, c] =>
      refine ⟨a.toNat * 256 ^ 3 + (b.toNat * 256 ^ 2 + (c.toNat * 256 ^ 1 + 0)), ?_, ?_⟩
      · simp [fill, a.toNat_lt, b.toNat_lt, c.toNat_lt]
      · simpa using addressOf_bytes a b c 0
  | _ :: _ :: _ :: _ :: rest =>
      simp only [List.length_cons] at short
      omega

/-! ## Names -/

theorem labelChar_plain : labelChar 46 = false ∧ labelChar 88 = false := by decide

theorem labelOk_not_mem {label : Text} (ok : labelOk label = true) {c : UInt8}
    (other : labelChar c = false) : c ∉ label := by
  intro member
  simp only [labelOk, Bool.and_eq_true, List.all_eq_true] at ok
  rw [ok.2 c member] at other
  cases other

theorem labels_of_name {h : Text} (name : publicHostnameOk h = true) :
    ∃ labels last, labels ≠ [] ∧ (dropDot h).splitOn 46 = labels ++ [last] ∧
      labelOk last = true ∧ numericLabel last = false := by
  unfold publicHostnameOk at name
  rw [show popDot h = dropDot h from rfl] at name
  dsimp only at name
  split at name
  · cases name
  · split at name
    · cases name
    · next dotted =>
      split at name
      · cases name
      · rw [Bool.and_eq_true, Bool.not_eq_true'] at name
        obtain ⟨labels, last, parts⟩ := ((dropDot h).splitOn 46).eq_nil_or_concat'.resolve_left
          (List.splitOn_ne_nil 46 (dropDot h))
        rw [parts] at name
        have ok : labelOk last = true := List.all_eq_true.mp name.1 last (by simp)
        refine ⟨labels, last, ?_, parts, ok, by simpa using name.2⟩
        -- without a dot there is one label, and no label holds a dot
        rintro rfl
        have whole := @List.intercalate_splitOn _ (dropDot h) _ _ 46
        rw [parts] at whole
        have same : dropDot h = last := by simpa using whole.symm
        rw [same] at dotted
        simp [labelOk_not_mem ok labelChar_plain.1] at dotted

theorem bare_of_read {last : Text} {v : Nat} (label : labelOk last = true)
    (other : numericLabel last = false) (read : readPart last = some v) : last = text "0x" ∧ v = 0 := by
  have digits {base : Nat} {digits : Text} (small : base ≤ 10) (read : number base digits = some v) :
      digits.all isDigit = true :=
    List.all_eq_true.mpr (number_digits small read)
  simp only [numericLabel, Bool.or_eq_false_iff] at other
  unfold readPart at read
  split at read
  · cases read
  · next x rest =>
    split at read
    · next mark =>
      obtain rfl : x = 120 := mark.resolve_right fun upper =>
        labelOk_not_mem label labelChar_plain.2 (by simp [upper])
      cases rest with
      | nil =>
          cases read
          exact ⟨by decide, rfl⟩
      | cons c rest =>
          have hex := number_hex read
          simp [hex] at other
    · have octal : (48 :: x :: rest).all isDigit = true := by
        rw [List.all_cons, digits (by decide) read]
        rfl
      rw [octal] at other
      cases other.1
  · rw [digits (by decide) read] at other
    cases other.1

/-! ## Hosts outside brackets -/

theorem splitAuthority_plain {auth host port : Text} {bracket : Bool} (plain : auth.head? ≠ some 91)
    (parts : splitAuthority auth = some (host, bracket, port)) :
    host = auth.takeWhile notColon ∧ bracket = false := by
  unfold splitAuthority at parts
  split at parts
  · exact absurd rfl plain
  · split at parts
    · next none_behind =>
      cases parts
      have whole := @List.takeWhile_append_dropWhile _ notColon auth
      rw [none_behind, List.append_nil] at whole
      exact ⟨whole.symm, rfl⟩
    · split at parts
      · cases parts
      · cases parts
        exact ⟨rfl, rfl⟩

theorem no_dot_of_reads {labels : List Text} {bytes : List UInt8}
    (reads : List.Forall₂ (fun label byte => readPart label = some byte.toNat) labels bytes) :
    ∀ label ∈ labels, (46 : UInt8) ∉ label := by
  induction reads with
  | nil => exact nofun
  | cons read _ ih =>
      intro label member
      rcases List.mem_cons.mp member with rfl | later
      · exact readPart_no_dot read
      · exact ih label later

theorem BareHex.aton {host : Text} (bare : BareHex host) :
    ∃ n, aton host = some n ∧ olostep_ip_is_blocked_v4 (addressOf n) = true := by
  obtain ⟨labels, bytes, -, few, reads, whole, blocked⟩ := bare
  have no_dot : ∀ label ∈ labels ++ [text "0x"], (46 : UInt8) ∉ label := by
    intro label member
    rcases List.mem_append.mp member with inside | bare
    · exact no_dot_of_reads reads label inside
    · obtain rfl := List.mem_singleton.mp bare
      decide
  have parts : (dropDot (lower host)).splitOn 46 = labels ++ [text "0x"] := by
    rw [whole, List.splitOn_intercalate 46 no_dot (by simp)]
  have values : labels.mapM readPart = some (bytes.map UInt8.toNat) :=
    mapM_iff.mpr (List.forall₂_map_right_iff.mpr reads)
  have short : bytes.length ≤ 3 := reads.length_eq ▸ few
  obtain ⟨n, filled, address⟩ := addressOf_fill short
  refine ⟨n, ?_, by rw [address]; exact blocked⟩
  rw [← aton_lower, InetText.aton, parts, List.mapM_append, values]
  exact filled

theorem bareHex_of_aton {host : Text} {n : Nat} (name : publicHostnameOk (lower host) = true)
    (read : aton host = some n) (blocked : olostep_ip_is_blocked_v4 (addressOf n) = true) :
    BareHex host := by
  obtain ⟨labels, last, filled, parts, ok, other⟩ := labels_of_name name
  rw [← aton_lower, InetText.aton, parts, List.mapM_append] at read
  obtain ⟨values, front, whole⟩ := Option.bind_eq_some_iff.mp read
  obtain ⟨numbers, reads, later⟩ := Option.bind_eq_some_iff.mp front
  obtain ⟨ends, single, same⟩ := Option.bind_eq_some_iff.mp later
  cases same
  obtain _ | ⟨value, ended⟩ := mapM_iff.mp single
  cases ended
  obtain ⟨rfl, rfl⟩ := bare_of_read ok other value
  obtain ⟨bytes, rfl, short⟩ := fill_zero whole
  obtain ⟨m, filled_same, address⟩ := addressOf_fill short
  obtain rfl : m = n := Option.some.inj (filled_same.symm.trans whole)
  have matched := List.forall₂_map_right_iff.mp (mapM_iff.mp reads)
  refine ⟨labels, bytes, filled, by rw [matched.length_eq]; exact short, matched, ?_, address ▸ blocked⟩
  rw [← parts, List.intercalate_splitOn]

/-- Of a host outside brackets that is taken, no reading is a private address, unless the host
ends in a bare `0x`. -/
theorem aton_public_iff {url auth : Text} (allowed : olostep_url_allowed url = true)
    (authority : authorityOf url = some auth) (plain : auth.head? ≠ some 91) :
    (∀ n, aton (auth.takeWhile notColon) = some n → olostep_ip_is_blocked_v4 (addressOf n) = false) ↔
      ¬ BareHex (auth.takeWhile notColon) := by
  obtain ⟨same, host, bracket, port, known, -, parts, -, taken⟩ := allowed_host allowed
  rw [authority] at known
  cases known
  obtain ⟨rfl, rfl⟩ := splitAuthority_plain plain parts
  constructor
  · intro safe bare
    obtain ⟨n, read, blocked⟩ := bare.aton
    rw [safe n read] at blocked
    cases blocked
  · intro not_bare n read
    cases blocked : olostep_ip_is_blocked_v4 (addressOf n) with
    | false => rfl
    | true =>
        unfold hostAllowed at taken
        rw [if_neg nofun] at taken
        dsimp only at taken
        split at taken
        · cases strict : parseStrictV4 (lower (auth.takeWhile notColon)) with
          | none => simp [strict] at taken
          | some q =>
              have reading := Quad.aton (parseStrictV4_iff.mp strict)
              rw [aton_lower, read] at reading
              cases reading
              rw [addressOf_bytes] at blocked
              simp [strict, blocked] at taken
        · exact absurd (bareHex_of_aton taken read blocked) not_bare

theorem aton_public_iff_name :
    (∀ n, aton ((text "pictures.example:8443").takeWhile notColon) = some n →
      olostep_ip_is_blocked_v4 (addressOf n) = false) ↔
      ¬ BareHex ((text "pictures.example:8443").takeWhile notColon) :=
  @aton_public_iff (text "https://pictures.example:8443/a.png") (text "pictures.example:8443")
    (by decide +kernel) (by decide +kernel) (by decide)

/-- `127.0x` is the loopback network, and it is taken. -/
theorem loopback_taken :
    ¬ ∀ (url auth : Text) (n : Nat), olostep_url_allowed url = true → authorityOf url = some auth →
      auth.head? ≠ some 91 → aton (auth.takeWhile notColon) = some n →
      olostep_ip_is_blocked_v4 (addressOf n) = false := by
  intro safe
  have loopback := safe (text "https://127.0x/") (text "127.0x") (127 * 2 ^ 24) (by decide +kernel)
    (by decide +kernel) (by decide) (by decide +kernel)
  exact absurd loopback (by decide)

end FryFirmware.Olostep
