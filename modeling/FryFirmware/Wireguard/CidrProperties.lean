import FryFirmware.Lib.JsonProperties
import FryFirmware.Lib.Octets
import FryFirmware.Wireguard.Cidr
import Mathlib.Data.List.Basic
import Mathlib.Data.List.Infix
import Mathlib.Tactic.Common

/-!
# One language of networks

What `parseIpv4Cidr` accepts, that it reads back what `formatIpv4Cidr` writes, and
that both readers of a joined route list find its routes.
-/

set_option autoImplicit false

namespace FryFirmware.Wireguard

open Lib Config
open Lib.Json (isDigit digitsValue natText numberText)
open Relay (prefixToMask)

/-! ## Decimals -/

/-- One to three digits, with a value up to `limit`. -/
structure IsDecimal (limit : Nat) (digits : Text) : Prop where
  nonempty : digits ≠ []
  short : digits.length ≤ 3
  all : ∀ c ∈ digits, isDigit c = true
  value_le : digitsValue digits ≤ limit

/-- The text does not go on with a digit. -/
def EndsDigits (rest : Text) : Prop := ∀ c ∈ rest.head?, isDigit c = false

theorem octetDigits_eq (left : Nat) (s : Text) (n : Nat) (v : UInt32) :
    octetDigits left s n v =
      (n + ((s.take left).takeWhile isDigit).length,
        ((s.take left).takeWhile isDigit).foldl (fun v c => v * 10 + (c - 48).toUInt32) v) := by
  induction left generalizing s n v with
  | zero => simp [octetDigits]
  | succ left ih =>
      cases s with
      | nil => simp [octetDigits]
      | cons c s =>
          cases digit : isDigit c with
          | false => simp [octetDigits, digit]
          | true => simp [octetDigits, digit, ih, Nat.add_assoc, Nat.add_comm 1]

theorem digit_value {c : UInt8} (digit : isDigit c = true) : (c - 48).toNat < 10 := by
  simp only [isDigit, Bool.and_eq_true, decide_eq_true_eq] at digit
  have low : (48 : UInt8) ≤ c := UInt8.le_iff_toNat_le.mpr digit.1
  rw [UInt8.toNat_sub_of_le _ _ low]
  simp only [UInt8.reduceToNat]
  omega

/-- Up to nine digits the 32-bit value does not wrap. -/
theorem foldl_digits {digits : Text} (all : ∀ c ∈ digits, isDigit c = true) {n : Nat}
    (short : n + digits.length ≤ 9) {v : UInt32} (bound : v.toNat < 10 ^ n) :
    (digits.foldl (fun v c => v * 10 + (c - 48).toUInt32) v).toNat =
      digits.foldl (fun v c => v * 10 + (c - 48).toNat) v.toNat := by
  induction digits generalizing n v with
  | nil => rfl
  | cons c digits ih =>
      have digit := digit_value (all c List.mem_cons_self)
      have longer : n + 1 ≤ 9 := by simp at short; omega
      have limit : 10 ^ (n + 1) ≤ 10 ^ 9 := Nat.pow_le_pow_right (by decide) longer
      have next : (v * 10 + (c - 48).toUInt32).toNat = v.toNat * 10 + (c - 48).toNat := by
        rw [UInt32.toNat_add, UInt32.toNat_mul, UInt8.toNat_toUInt32]
        rw [Nat.pow_succ] at limit
        simp only [UInt32.reduceToNat]
        omega
      have small : (v * 10 + (c - 48).toUInt32).toNat < 10 ^ (n + 1) := by
        rw [next, Nat.pow_succ]
        omega
      have rest := ih (fun d member => all d (List.mem_cons_of_mem _ member))
        (by simp at short; omega) small
      rw [List.foldl_cons, List.foldl_cons, rest, next]

theorem parseOctetDigits_eq (s : Text) :
    (parseOctetDigits s).1 = ((s.take 3).takeWhile isDigit).length ∧
      (parseOctetDigits s).2.toNat = digitsValue ((s.take 3).takeWhile isDigit) := by
  have short := (List.takeWhile_prefix isDigit (l := s.take 3)).length_le
  rw [List.length_take] at short
  rw [parseOctetDigits, octetDigits_eq]
  refine ⟨Nat.zero_add _, ?_⟩
  exact foldl_digits (n := 0) (fun c member => List.mem_takeWhile_imp member) (by omega) (by decide)

/-- What a parser takes that refuses no digits and values above `limit`. -/
theorem parseOctetDigits_decimal {s : Text} {limit : UInt32}
    (accepted : ¬ ((parseOctetDigits s).1 = 0 ∨ (parseOctetDigits s).2 > limit)) :
    ∃ digits, IsDecimal limit.toNat digits ∧ s = digits ++ s.drop (parseOctetDigits s).1 ∧
      (parseOctetDigits s).2.toNat = digitsValue digits := by
  rw [not_or, UInt32.not_lt, UInt32.le_iff_toNat_le] at accepted
  obtain ⟨some, small⟩ := accepted
  obtain ⟨count, value⟩ := parseOctetDigits_eq s
  have begins : (s.take 3).takeWhile isDigit <+: s :=
    (List.takeWhile_prefix isDigit).trans (List.take_prefix 3 s)
  have short := (List.takeWhile_prefix isDigit (l := s.take 3)).length_le
  rw [List.length_take] at short
  refine ⟨(s.take 3).takeWhile isDigit, ⟨?_, by omega, ?_, value ▸ small⟩, ?_, value⟩
  · intro none
    rw [none] at count
    exact some count
  · exact fun c member => List.mem_takeWhile_imp member
  · rw [count]
    exact (List.prefix_iff_eq_append.mp begins).symm

/-- A decimal is read whole, up to what ends it. -/
theorem IsDecimal.parsed {limit : Nat} {digits rest : Text} (decimal : IsDecimal limit digits)
    (ended : EndsDigits rest) :
    (parseOctetDigits (digits ++ rest)).1 = digits.length ∧
      (parseOctetDigits (digits ++ rest)).2.toNat = digitsValue digits := by
  have taken : ((digits ++ rest).take 3).takeWhile isDigit = digits := by
    rw [List.take_append, List.take_of_length_le decimal.short,
      List.takeWhile_append_of_pos decimal.all]
    have stops : (rest.take (3 - digits.length)).takeWhile isDigit = [] := by
      cases rest with
      | nil => simp
      | cons c rest =>
          have other := ended c (by simp)
          cases 3 - digits.length with
          | zero => rfl
          | succ room => simp [other]
    rw [stops, List.append_nil]
  obtain ⟨count, value⟩ := parseOctetDigits_eq (digits ++ rest)
  rw [taken] at count value
  exact ⟨count, value⟩

theorem IsDecimal.accepted (limit : UInt32) {digits rest : Text}
    (decimal : IsDecimal limit.toNat digits) (ended : EndsDigits rest) :
    ¬ ((parseOctetDigits (digits ++ rest)).1 = 0 ∨ (parseOctetDigits (digits ++ rest)).2 > limit) := by
  obtain ⟨read, value⟩ := decimal.parsed ended
  rw [not_or, UInt32.not_lt, UInt32.le_iff_toNat_le, read, value]
  exact ⟨mt List.length_eq_zero_iff.mp decimal.nonempty, decimal.value_le⟩

/-! ## Networks -/

theorem parseOctets_eq_some {left : Nat} {p rest : Text} {values : List UInt32}
    (read : parseOctets left p = some (values, rest)) :
    ∃ octets : List Text, octets.length = left + 1 ∧ (∀ o ∈ octets, IsDecimal 255 o) ∧
      p = [46].intercalate octets ++ rest ∧ values.map UInt32.toNat = octets.map digitsValue := by
  induction left generalizing p values with
  | zero =>
      simp only [parseOctets] at read
      split at read
      · cases read
      · next done =>
        obtain ⟨digits, decimal, split, value⟩ := parseOctetDigits_decimal done
        simp only [Option.some.injEq, Prod.mk.injEq] at read
        obtain ⟨rfl, rfl⟩ := read
        exact ⟨[digits], rfl, by simpa using decimal, by simpa using split, by simpa using value⟩
  | succ left ih =>
      simp only [parseOctets] at read
      split at read
      · cases read
      · next done =>
        obtain ⟨digits, decimal, split, value⟩ := parseOctetDigits_decimal done
        split at read
        · next later dot =>
          obtain ⟨⟨others, after⟩, more, same⟩ := Option.map_eq_some_iff.mp read
          simp only [Prod.mk.injEq] at same
          obtain ⟨rfl, rfl⟩ := same
          obtain ⟨octets, count, all, text, numbers⟩ := ih more
          have some_octets : octets ≠ [] := by
            rintro rfl
            cases count
          refine ⟨digits :: octets, by simp [count], ?_, ?_, by simp [value, numbers]⟩
          · intro o member
            obtain rfl | later := List.mem_cons.mp member
            · exact decimal
            · exact all o later
          · rw [split, dot, text, List.intercalate_cons_of_ne_nil some_octets]
            simp
        · cases read

theorem parseOctets_intercalate {octets : List Text} (all : ∀ o ∈ octets, IsDecimal 255 o)
    {left : Nat} (count : octets.length = left + 1) {rest : Text} (ended : EndsDigits rest) :
    ∃ values, parseOctets left ([46].intercalate octets ++ rest) = some (values, rest) ∧
      values.map UInt32.toNat = octets.map digitsValue := by
  induction left generalizing octets with
  | zero =>
      obtain ⟨digits, rfl⟩ := List.length_eq_one_iff.mp count
      have decimal := all digits List.mem_cons_self
      obtain ⟨read, value⟩ := decimal.parsed ended
      have accepted := IsDecimal.accepted 255 decimal ended
      refine ⟨[(parseOctetDigits (digits ++ rest)).2], ?_, by simp [value]⟩
      rw [List.intercalate_singleton, parseOctets, if_neg accepted, read, List.drop_left]
  | succ left ih =>
      match octets, count with
      | digits :: octets, count =>
          have decimal := all digits List.mem_cons_self
          have some_octets : octets ≠ [] := by
            rintro rfl
            cases count
          obtain ⟨values, more, numbers⟩ := ih
            (fun o member => all o (List.mem_cons_of_mem _ member)) (by simpa using count)
          rw [List.intercalate_cons_of_ne_nil some_octets, List.append_assoc, List.append_assoc]
          have dot : EndsDigits ([46] ++ ([46].intercalate octets ++ rest)) := by
            intro c first
            cases first
            rfl
          obtain ⟨read, value⟩ := decimal.parsed dot
          have accepted := IsDecimal.accepted 255 decimal dot
          generalize parsed : parseOctetDigits
            (digits ++ ([46] ++ ([46].intercalate octets ++ rest))) = result at read value accepted
          refine ⟨result.2 :: values, ?_, by simp [value, numbers]⟩
          rw [parseOctets, parsed, if_neg accepted, read, List.drop_left]
          simp [more]

/-- Four decimals up to 255 with dots between them, a slash, and a decimal up to 32. -/
def IsCidr (s : Text) (ip : UInt32) (bits : Nat) : Prop :=
  ∃ octets digits, octets.length = 4 ∧ (∀ o ∈ octets, IsDecimal 255 o) ∧ IsDecimal 32 digits ∧
    s = [46].intercalate octets ++ 47 :: digits ∧
    ip.toNat = octets.foldl (fun ip o => ip * 256 + digitsValue o) 0 ∧ bits = digitsValue digits

theorem toNat_address {a b c d : UInt32} {octets : List Text} (all : ∀ o ∈ octets, IsDecimal 255 o)
    (values : [a, b, c, d].map UInt32.toNat = octets.map digitsValue) :
    (a <<< 24 ||| b <<< 16 ||| c <<< 8 ||| d).toNat =
      octets.foldl (fun ip o => ip * 256 + digitsValue o) 0 := by
  have small (v : UInt32) (member : v ∈ [a, b, c, d]) : v.toNat ≤ 255 := by
    have listed : v.toNat ∈ octets.map digitsValue := values ▸ List.mem_map_of_mem member
    obtain ⟨octet, known, same⟩ := List.mem_map.mp listed
    exact same ▸ (all octet known).value_le
  have folded : octets.foldl (fun ip o => ip * 256 + digitsValue o) 0 =
      ([a, b, c, d].map UInt32.toNat).foldl (fun ip v => ip * 256 + v) 0 := by
    rw [values, List.foldl_map]
  rw [toNat_octets (small a (by simp)) (small b (by simp)) (small c (by simp)) (small d (by simp)),
    folded]
  simp

theorem readCidr_iff {s : Text} {ip : UInt32} {bits : Nat} :
    readCidr s = some (ip, bits) ↔ IsCidr s ip bits := by
  constructor
  · intro read
    unfold readCidr at read
    split at read
    · next a b c d p octets =>
      obtain ⟨texts, count, all, text, values⟩ := parseOctets_eq_some octets
      simp only at read
      split at read
      · cases read
      · next done =>
        obtain ⟨digits, decimal, split, value⟩ := parseOctetDigits_decimal done
        split at read
        · cases read
        · next ended =>
          rw [not_not] at ended
          rw [ended, List.append_nil] at split
          simp only [Option.some.injEq, Prod.mk.injEq] at read
          obtain ⟨rfl, rfl⟩ := read
          exact ⟨texts, digits, count, all, decimal, by rw [text, split], toNat_address all values,
            value⟩
    · cases read
  · rintro ⟨octets, digits, count, all, decimal, rfl, address, rfl⟩
    have slash : EndsDigits (47 :: digits) := by
      intro c first
      cases first
      rfl
    have nothing : EndsDigits [] := fun c none => by cases none
    obtain ⟨values, parsed, numbers⟩ := parseOctets_intercalate all count slash
    obtain ⟨read, value⟩ := decimal.parsed nothing
    have accepted := IsDecimal.accepted 32 decimal nothing
    rw [List.append_nil] at read value accepted
    have four : values.length = 4 := by
      rw [← count]
      simpa using congrArg List.length numbers
    match values, four with
    | [a, b, c, d], _ =>
        have same : a <<< 24 ||| b <<< 16 ||| c <<< 8 ||| d = ip :=
          UInt32.toNat_inj.mp ((toNat_address all numbers).trans address.symm)
        rw [readCidr, parsed]
        simp only
        rw [if_neg accepted, read, List.drop_length, if_neg (not_not.mpr rfl), same, value]

theorem IsCidr.unique {s : Text} {ip ip' : UInt32} {bits bits' : Nat} (first : IsCidr s ip bits)
    (second : IsCidr s ip' bits') : ip = ip' ∧ bits = bits' := by
  rw [← readCidr_iff] at first second
  rw [first, Option.some.injEq, Prod.mk.injEq] at second
  exact second

theorem IsCidr.bits_le {s : Text} {ip : UInt32} {bits : Nat} (network : IsCidr s ip bits) :
    bits ≤ 32 := by
  obtain ⟨_, digits, -, -, decimal, -, -, rfl⟩ := network
  exact decimal.value_le

theorem parseIpv4Cidr_eq_true {s : Text} {ip : UInt32} {bits : Nat} (out : UInt32 × Nat) :
    parseIpv4Cidr (some s) out = (true, ip, bits) ↔ IsCidr s ip bits := by
  rw [← readCidr_iff, parseIpv4Cidr, Option.bind_some]
  cases read : readCidr s with
  | none => simp
  | some result => simp

theorem parseIpv4Cidr_rejects {s : Text} (out : UInt32 × Nat) (other : ∀ ip bits, ¬ IsCidr s ip bits) :
    parseIpv4Cidr (some s) out = (false, out) := by
  rw [parseIpv4Cidr, Option.bind_some]
  cases read : readCidr s with
  | none => rfl
  | some result => exact absurd (readCidr_iff.mp read) (other result.1 result.2)

/-! ## Formatting -/

theorem natText_length {value digits : Nat} (some : 0 < digits) (small : value < 10 ^ digits) :
    (natText value).length ≤ digits := by
  unfold natText
  split
  · exact some
  · rw [List.length_map, List.length_reverse]
    exact (Nat.digits_length_le_iff (by decide) value).mpr small

theorem natText_decimal {value limit : Nat} (small : value < 1000) (bound : value ≤ limit) :
    IsDecimal limit (natText value) where
  nonempty := (Json.natText_digits value).1
  short := natText_length (by decide) small
  all := (Json.natText_digits value).2
  value_le := by rwa [Json.digitsValue_natText]

theorem numberText_ofNat (value : Nat) : numberText value = natText value := by
  rw [numberText, if_neg (by omega), Int.natAbs_natCast]

def octetValue (ip : UInt32) (shift : Nat) : Nat := ip.toNat / 2 ^ shift % 256

theorem octet_eq (ip shift : UInt32) (few : shift.toNat < 32) :
    octet ip shift = natText (octetValue ip shift.toNat) := by
  rw [octet, UInt32.toNat_and, UInt32.toNat_shiftRight, Nat.mod_eq_of_lt few, octetValue,
    Nat.shiftRight_eq_div_pow]
  exact congrArg natText (Nat.and_two_pow_sub_one_eq_mod _ 8)

def octetsOf (ip : UInt32) : List Text :=
  [natText (octetValue ip 24), natText (octetValue ip 16), natText (octetValue ip 8),
    natText (octetValue ip 0)]

theorem dotted_eq (ip : UInt32) : dotted ip = [46].intercalate (octetsOf ip) := by
  rw [dotted, octet_eq ip 24 (by decide), octet_eq ip 16 (by decide), octet_eq ip 8 (by decide),
    octet_eq ip 0 (by decide)]
  simp [octetsOf, List.intercalate_cons_cons]

theorem octetValue_lt (ip : UInt32) (shift : Nat) : octetValue ip shift < 256 :=
  Nat.mod_lt _ (by decide)

theorem octetsOf_decimal (ip : UInt32) : ∀ o ∈ octetsOf ip, IsDecimal 255 o := by
  intro o member
  have decimal (shift : Nat) : IsDecimal 255 (natText (octetValue ip shift)) :=
    natText_decimal (by have := octetValue_lt ip shift; omega)
      (by have := octetValue_lt ip shift; omega)
  simp only [octetsOf, List.mem_cons, List.not_mem_nil, or_false] at member
  rcases member with rfl | rfl | rfl | rfl <;> exact decimal _

theorem octetsOf_value (ip : UInt32) :
    ip.toNat = (octetsOf ip).foldl (fun ip o => ip * 256 + digitsValue o) 0 := by
  have bound := ip.toNat_lt
  simp only [octetsOf, List.foldl_cons, List.foldl_nil, Json.digitsValue_natText, octetValue,
    Nat.reducePow, Nat.div_one]
  omega

/-- What `formatIpv4Cidr` prints. -/
def cidrText (ip : UInt32) (bits : Nat) : Text := dotted ip ++ 47 :: natText bits

theorem isCidr_cidrText (ip : UInt32) {bits : Nat} (small : bits ≤ 32) :
    IsCidr (cidrText ip bits) ip bits := by
  refine ⟨octetsOf ip, natText bits, rfl, octetsOf_decimal ip, natText_decimal (by omega) small, ?_,
    octetsOf_value ip, (Json.digitsValue_natText bits).symm⟩
  rw [cidrText, dotted_eq]

theorem dotted_length (ip : UInt32) : (dotted ip).length ≤ 15 := by
  have short (shift : Nat) : (natText (octetValue ip shift)).length ≤ 3 :=
    natText_length (by decide) (by have := octetValue_lt ip shift; omega)
  have first := short 24
  have second := short 16
  have third := short 8
  have fourth := short 0
  rw [dotted_eq]
  simp only [octetsOf, List.intercalate_cons_cons, List.intercalate_singleton, List.length_append,
    List.length_cons, List.length_nil]
  omega

theorem cidrText_length (ip : UInt32) {bits : Nat} (small : bits ≤ 32) :
    (cidrText ip bits).length ≤ 18 := by
  have address := dotted_length ip
  have digits : (natText bits).length ≤ 2 := natText_length (by decide) (by omega)
  simp only [cidrText, List.length_append, List.length_cons]
  omega

theorem snprintf_fits {printed : Text} {outLen : Nat} (fits : printed.length < outLen) :
    snprintf printed outLen = (printed, printed.length) := by
  rw [snprintf, List.take_of_length_le (by omega), if_neg (by omega)]

theorem formatIpv4Cidr_eq (ip : UInt32) {bits : Nat} (small : bits ≤ 32) (out : Text)
    {outLen : Nat} (room : 19 ≤ outLen) :
    formatIpv4Cidr ip bits out outLen = (cidrText ip bits, (cidrText ip bits).length) := by
  have length := cidrText_length ip small
  rw [formatIpv4Cidr, if_neg (by omega), numberText_ofNat]
  exact snprintf_fits (by rw [← cidrText]; omega)

theorem formatIpv4_eq (ip : UInt32) (out : Text) {outLen : Nat} (room : 16 ≤ outLen) :
    formatIpv4 ip out outLen = (dotted ip, (dotted ip).length) := by
  have length := dotted_length ip
  rw [formatIpv4, if_neg (by omega)]
  exact snprintf_fits (by omega)

/-- The mask of a prefix length has that many leading ones. -/
theorem maskToPrefix_prefixToMask {bits : Nat} (small : bits ≤ 32) :
    maskToPrefix (prefixToMask bits) = bits := by
  interval_cases bits <;> rfl

/-! ## Joined lists -/

/-- A text has no semicolon, or goes on after its first one. -/
theorem semicolon_cases (p : Text) :
    59 ∉ p ∨ ∃ entry rest, p = entry ++ 59 :: rest ∧ (59 : UInt8) ∉ entry := by
  by_cases found : 59 ∈ p
  · exact .inr (List.eq_append_cons_of_mem found)
  · exact .inl found

theorem drop_indexOfSemicolon {csv entry rest : Text} {start : Nat}
    (split : csv.drop start = entry ++ 59 :: rest) (plain : 59 ∉ entry) :
    indexOfSemicolon csv start = some (start + entry.length) ∧
      substring csv start (start + entry.length) = entry ∧
      csv.drop (start + entry.length + 1) = rest := by
  have absent : entry.findIdx? (fun c => c = 59) = none := by
    rw [List.findIdx?_eq_none_iff]
    intro c member
    exact decide_eq_false fun same => plain (same ▸ member)
  refine ⟨?_, ?_, ?_⟩
  · rw [indexOfSemicolon, split, List.findIdx?_append, absent]
    simp [List.findIdx?_cons]
  · rw [substring, ← List.take_drop, split, List.take_left]
  · rw [Nat.add_assoc, ← List.drop_drop, split, ← List.drop_drop, List.drop_left]
    rfl

/-- `applyAllowedIps` goes through the entries between the semicolons. -/
theorem applyFrom_eq (csv : Text) {turns start : Nat} (inside : start ≤ csv.length)
    (enough : csv.length < start + turns) :
    applyFrom csv turns start = ((csv.drop start).splitOn 59).flatMap applyEntry := by
  induction turns generalizing start with
  | zero => omega
  | succ turns ih =>
      rw [applyFrom, if_pos inside]
      rcases semicolon_cases (csv.drop start) with plain | ⟨entry, rest, split, plain⟩
      · have absent : indexOfSemicolon csv start = none := by
          rw [indexOfSemicolon, Option.map_eq_none_iff, List.findIdx?_eq_none_iff]
          intro c member
          exact decide_eq_false fun same => plain (same ▸ member)
        rw [absent, List.splitOn_eq_singleton plain]
        simp [substring]
      · obtain ⟨found, here, after⟩ := drop_indexOfSemicolon split plain
        have size := congrArg List.length split
        simp only [List.length_drop, List.length_append, List.length_cons] at size
        rw [found, split, List.splitOn_append_cons_self_of_not_mem plain]
        simp only [List.flatMap_cons, here]
        rw [ih (by omega) (by omega), after]

theorem applyAllowedIps_eq (csv : Text) :
    applyAllowedIps csv = (csv.splitOn 59).flatMap applyEntry :=
  applyFrom_eq csv (Nat.zero_le _) (by omega)

theorem pickFrom_eq {turns : Nat} {p : Text} (enough : p.length < turns) :
    pickFrom turns p = (p.splitOn 59).filterMap pickEntry := by
  induction turns generalizing p with
  | zero => omega
  | succ turns ih =>
      rw [pickFrom]
      by_cases empty : p = []
      · rw [if_pos empty, empty]
        rfl
      rw [if_neg empty]
      rcases semicolon_cases p with plain | ⟨entry, rest, rfl, plain⟩
      · have whole : p.takeWhile (fun c => c ≠ 59) = p := by
          rw [List.takeWhile_eq_self_iff]
          intro c member
          exact decide_eq_true fun same => plain (same ▸ member)
        simp only [whole, List.drop_length]
        rw [List.splitOn_eq_singleton plain]
        cases read : pickEntry p <;> simp [read]
      · have front : (entry ++ 59 :: rest).takeWhile (fun c => c ≠ 59) = entry := by
          rw [List.takeWhile_append_of_pos]
          · simp
          · intro c member
            exact decide_eq_true fun same => plain (same ▸ member)
        simp only [front, List.drop_left]
        rw [List.splitOn_append_cons_self_of_not_mem plain, List.filterMap_cons,
          ih (by simp at enough; omega)]
        cases pickEntry entry <;> simp

theorem pickEntries_eq (csv : Text) : pickEntries csv = (csv.splitOn 59).filterMap pickEntry :=
  pickFrom_eq (by omega)

theorem allowedCsv_eq (entries : List Text) : allowedCsv entries = [59].intercalate entries := by
  have joins (rest : List Text) (csv : Text) :
      rest.foldl (fun csv entry => csv ++ 59 :: entry) csv = [59].intercalate (csv :: rest) := by
    induction rest generalizing csv with
    | nil => simp
    | cons entry rest ih =>
        rw [List.foldl_cons, ih]
        cases rest <;> simp [List.intercalate_cons_cons]
  cases entries with
  | nil => rfl
  | cons first rest => exact joins rest first

abbrev Route := { route : UInt32 × Nat // route.2 ≤ 32 }

/-- The text of a planned route, from a buffer of 20 bytes. -/
def Route.text (route : Route) : Text := (formatIpv4Cidr route.1.1 route.1.2 [] 20).1

theorem Route.text_eq (route : Route) : route.text = cidrText route.1.1 route.1.2 := by
  rw [Route.text, formatIpv4Cidr_eq route.1.1 route.2 [] (by decide)]

theorem Route.isCidr (route : Route) : IsCidr route.text route.1.1 route.1.2 := by
  rw [route.text_eq]
  exact isCidr_cidrText route.1.1 route.2

theorem Route.parsed (route : Route) (out : UInt32 × Nat) :
    parseIpv4Cidr (some route.text) out = (true, route.1) :=
  (parseIpv4Cidr_eq_true out).mpr route.isCidr

theorem Route.length (route : Route) : 0 < route.text.length ∧ route.text.length < 20 := by
  have short := cidrText_length route.1.1 route.2
  rw [route.text_eq]
  refine ⟨?_, by omega⟩
  rw [cidrText, List.length_append, List.length_cons]
  omega

theorem natText_plain (value : Nat) : 59 ∉ natText value := by
  intro member
  exact absurd ((Json.natText_digits value).2 _ member) (by decide)

theorem Route.plain (route : Route) : 59 ∉ route.text := by
  simp only [route.text_eq, cidrText, dotted, octet, List.mem_append, List.mem_cons, natText_plain,
    false_or, or_false]
  decide

/-- Both readers of the joined text find the routes of the plan. -/
theorem readers_agree (plan : List Route) :
    applyAllowedIps (allowedCsv (plan.map Route.text)) = plan.map (allowedIpOf ·.1) ∧
      pickEntries (allowedCsv (plan.map Route.text)) = plan.map (·.1) := by
  have applied (route : Route) : applyEntry route.text = [allowedIpOf route.1] := by
    rw [applyEntry, if_pos route.length.1, route.parsed]
  have picked (route : Route) : pickEntry route.text = some route.1 := by
    rw [pickEntry, if_pos route.length, route.parsed]
  rw [applyAllowedIps_eq, pickEntries_eq, allowedCsv_eq]
  cases plan with
  | nil => exact ⟨rfl, rfl⟩
  | cons first rest =>
      have plain : ∀ entry ∈ (first :: rest).map Route.text, (59 : UInt8) ∉ entry := by
        intro entry member
        obtain ⟨route, -, rfl⟩ := List.mem_map.mp member
        exact route.plain
      rw [List.splitOn_intercalate 59 plain (by simp)]
      constructor
      · rw [List.flatMap_map, List.map_eq_flatMap]
        exact List.flatMap_congr fun route _ => applied route
      · rw [List.filterMap_map, ← List.filterMap_eq_map]
        exact List.filterMap_congr fun route _ => picked route

/-- Formatter, parser and the two readers of a joined list have one language. -/
theorem cidr_language :
    (∀ (ip : UInt32) (bits : Nat), bits ≤ 32 → ∀ (buffer : Text) (outLen : Nat), 19 ≤ outLen →
      ∀ out, parseIpv4Cidr (some (formatIpv4Cidr ip bits buffer outLen).1) out = (true, ip, bits)) ∧
    (∀ (s : Text) (out : UInt32 × Nat),
      (∀ ip bits, parseIpv4Cidr (some s) out = (true, ip, bits) ↔ IsCidr s ip bits) ∧
      ((∀ ip bits, ¬ IsCidr s ip bits) → parseIpv4Cidr (some s) out = (false, out)) ∧
      parseIpv4Cidr none out = (false, out)) ∧
    ∀ plan : List Route,
      applyAllowedIps (allowedCsv (plan.map Route.text)) = plan.map (allowedIpOf ·.1) ∧
        pickEntries (allowedCsv (plan.map Route.text)) = plan.map (·.1) := by
  refine ⟨?_, ?_, readers_agree⟩
  · intro ip bits small buffer outLen room out
    rw [formatIpv4Cidr_eq ip small buffer room]
    exact (parseIpv4Cidr_eq_true out).mpr (isCidr_cidrText ip small)
  · intro s out
    exact ⟨fun ip bits => parseIpv4Cidr_eq_true out, parseIpv4Cidr_rejects out, rfl⟩

end FryFirmware.Wireguard
