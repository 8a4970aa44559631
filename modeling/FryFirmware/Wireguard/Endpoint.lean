import FryFirmware.Config.Store
import FryFirmware.Lib.Decimal
import FryFirmware.Lib.Memory
import Mathlib.Tactic.Common

/-!
# The endpoint's text

`parseWgEndpoint` of `lib/fry_core/wg_endpoint.cpp`, and the texts it takes. A text that
begins with `[` has its host in brackets, up to the first `]`; any other host is bare.
-/

set_option autoImplicit false

namespace FryFirmware.Wireguard

open Config (Text)
open Lib (Memory)
open Lib.Decimal (digit_lt digitsValue_cons)
open Lib.Json (isDigit digitsValue natText natText_digits natText_cons digitsValue_natText)

def kWgHostCap : Nat := 254

structure WgEndpoint where
  ok : Bool := false
  hasPort : Bool := false
  port : UInt16 := 0
  host : Memory UInt8 kWgHostCap := .filled kWgHostCap 0
  deriving DecidableEq

def strchr (s : Text) (c : UInt8) : Option Nat := s.idxOf? c

def strrchr (s : Text) (c : UInt8) : Option Nat := (s.reverse.idxOf? c).map fun i => s.length - 1 - i

/-- The host, and what follows the colon of a port. -/
def hostAndPort (s : Text) : Option (Text × Option Text) :=
  if s.head? = some 91 then
    match strchr s 93 with
    | none => none
    | some close =>
        let host := (s.take close).drop 1
        if host.length = 0 then none
        else
          match s[close + 1]? with
          | some after => if after = 58 then some (host, some (s.drop (close + 2))) else none
          | none => some (host, none)
  else
    match strchr s 58, strrchr s 58 with
    | some firstColon, some lastColon =>
        if firstColon = lastColon then
          if lastColon = 0 then none else some (s.take lastColon, some (s.drop (lastColon + 1)))
        else some (s, none)
    | _, _ => some (s, none)

/-- The loop over the port's characters. -/
def portLoop : UInt32 → Text → Option UInt32
  | port, [] => some port
  | port, c :: rest =>
      if c < 48 || c > 57 then none
      else
        let port := port * 10 + (c - 48).toUInt32
        if port > 65535 then none else portLoop port rest

def parseWgEndpoint (input : Option Text) : WgEndpoint :=
  match input with
  | none => {}
  | some s =>
      if s.length = 0 then {}
      else
        match hostAndPort s with
        | none => {}
        | some (host, portBegin) =>
            if host.length ≥ kWgHostCap then {}
            else
              let r : WgEndpoint := { ok := true, host := (Memory.filled kWgHostCap 0).store 0 host }
              match portBegin with
              | none => r
              | some digits =>
                  if digits = [] then {}
                  else
                    match portLoop 0 digits with
                    | none => {}
                    | some port => if port = 0 then {} else { r with hasPort := true, port := port.toUInt16 }

/-! ## What an endpoint is -/

/-- The text, its host, and what is written as its port. -/
inductive Written : Text → Text → Option Text → Prop where
  | bare {host} : host.head? ≠ some 91 → host.count 58 ≠ 1 → Written host host none
  | split {host port} : host.head? ≠ some 91 → 58 ∉ host → 58 ∉ port →
      Written (host ++ 58 :: port) host (some port)
  | bracketed {host} : 93 ∉ host → Written (91 :: host ++ [93]) host none
  | bracketedPort {host port} : 93 ∉ host → Written (91 :: host ++ 93 :: 58 :: port) host (some port)

/-- A port is a decimal of value 1 to 65535, with any number of zeros in front. -/
inductive PortText : Option Text → Option UInt16 → Prop where
  | absent : PortText none none
  | written {digits port} : digits ≠ [] → (∀ c ∈ digits, isDigit c = true) →
      digitsValue digits = port.toNat → port ≠ 0 → PortText (some digits) (some port)

structure Endpoint (s host : Text) (port : Option UInt16) : Prop where
  filled : host ≠ []
  short : host.length < kWgHostCap
  text : ∃ digits, Written s host digits ∧ PortText digits port

/-- The answer for that host, and that port if one was written. -/
def answer (host : Text) (port : Option UInt16) : WgEndpoint where
  ok := true
  hasPort := port.isSome
  port := port.getD 0
  host := (Memory.filled kWgHostCap 0).store 0 host

/-! ## Searches -/

theorem strchr_none {s : Text} {c : UInt8} (absent : c ∉ s) : strchr s c = none :=
  List.idxOf?_eq_none_iff.mpr absent

theorem strchr_first {front rest : Text} {c : UInt8} (absent : c ∉ front) :
    strchr (front ++ c :: rest) c = some front.length := by
  rw [strchr]
  induction front with
  | nil => simp [List.idxOf?_cons]
  | cons d front ih =>
      have other : ¬ d = c := fun same => absent (same ▸ List.mem_cons_self)
      have later := ih fun member => absent (List.mem_cons_of_mem _ member)
      simp [List.idxOf?_cons, other, later]

theorem strrchr_last {front rest : Text} {c : UInt8} (absent : c ∉ rest) :
    strrchr (front ++ c :: rest) c = some front.length := by
  have first := @strchr_first rest.reverse front.reverse c (mt List.mem_reverse.mp absent)
  rw [strchr] at first
  have turned : (front ++ c :: rest).reverse = rest.reverse ++ c :: front.reverse := by simp
  rw [strrchr, turned, first, Option.map_some, Option.some.injEq, List.length_append, List.length_cons,
    List.length_reverse]
  omega

theorem outside_iff {c : UInt8} : (c < 48 || c > 57) = true ↔ isDigit c = false := by
  simp only [isDigit, Bool.or_eq_true, decide_eq_true_eq, Bool.and_eq_false_iff, decide_eq_false_iff_not,
    UInt8.lt_iff_toNat_lt, GT.gt]
  exact or_congr (by simp) (by simp)

/-- One more digit; a small port does not overflow. -/
theorem next_port {port : UInt32} {c : UInt8} (small : port ≤ 65535) (digit : isDigit c = true) :
    (port * 10 + (c - 48).toUInt32).toNat = port.toNat * 10 + (c - 48).toNat := by
  obtain ⟨-, value, less⟩ := digit_lt digit
  have bound := UInt32.le_iff_toNat_le.mp small
  have limit : (65535 : UInt32).toNat = 65535 := rfl
  have ten : (10 : UInt32).toNat = 10 := rfl
  rw [UInt32.toNat_add, UInt32.toNat_mul, UInt8.toNat_toUInt32, ten]
  omega

theorem portLoop_iff {digits : Text} {port value : UInt32} (small : port ≤ 65535) :
    portLoop port digits = some value ↔ (∀ c ∈ digits, isDigit c = true) ∧
      value.toNat = port.toNat * 10 ^ digits.length + digitsValue digits ∧ value ≤ 65535 := by
  induction digits generalizing port with
  | nil =>
      simp only [portLoop, Option.some.injEq, List.not_mem_nil, false_imp_iff, implies_true, true_and,
        List.length_nil, Nat.pow_zero, Nat.mul_one, digitsValue, List.foldl_nil, Nat.add_zero]
      constructor
      · rintro rfl
        exact ⟨rfl, small⟩
      · exact fun same => (UInt32.toNat_inj.mp same.1).symm
  | cons c rest ih =>
      rw [portLoop]
      by_cases digit : isDigit c = true
      · have inside : ¬ (c < 48 || c > 57) = true := fun outside => by
          rw [outside_iff.mp outside] at digit
          cases digit
        have next := next_port small digit
        have value_eq : digitsValue (c :: rest) + port.toNat * 10 ^ (rest.length + 1) =
            (port * 10 + (c - 48).toUInt32).toNat * 10 ^ rest.length + digitsValue rest := by
          rw [next, digitsValue_cons]
          ring
        rw [if_neg inside, List.length_cons, Nat.add_comm (port.toNat * _), value_eq]
        by_cases large : port * 10 + (c - 48).toUInt32 > 65535
        · have above : 65535 < (port * 10 + (c - 48).toUInt32).toNat := UInt32.lt_iff_toNat_lt.mp large
          simp only [if_pos large, reduceCtorEq, false_iff, not_and]
          intro _ same most
          have bound : value.toNat ≤ 65535 := UInt32.le_iff_toNat_le.mp most
          have grown : (port * 10 + (c - 48).toUInt32).toNat ≤ value.toNat := by
            rw [same]
            exact Nat.le_add_right_of_le (Nat.le_mul_of_pos_right _ (Nat.pow_pos (by decide)))
          omega
        · simp only [if_neg large]
          rw [ih (UInt32.not_lt.mp large), List.forall_mem_cons]
          exact and_congr_left' (iff_and_self.mpr fun _ => digit) |>.trans Iff.rfl
      · rw [if_pos (outside_iff.mpr (Bool.eq_false_iff.mpr digit))]
        simp only [reduceCtorEq, false_iff]
        exact fun all => digit (all.1 c List.mem_cons_self)

/-! ## The four shapes -/

theorem hostAndPort_open {inner : Text} (absent : 93 ∉ inner) : hostAndPort (91 :: inner) = none := by
  have outside : 93 ∉ 91 :: inner := by
    rintro (_ | ⟨_, member⟩)
    exact absent member
  have begins : (91 :: inner).head? = some 91 := rfl
  rw [hostAndPort, if_pos begins, strchr_none outside]

theorem hostAndPort_bracketed {host rest : Text} (absent : 93 ∉ host) :
    hostAndPort (91 :: host ++ 93 :: rest) =
      if host = [] then none
      else
        match rest with
        | [] => some (host, none)
        | after :: port => if after = 58 then some (host, some port) else none := by
  have outside : 93 ∉ 91 :: host := by
    rintro (_ | ⟨_, member⟩)
    exact absent member
  have inside : ((91 :: host ++ 93 :: rest).take (91 :: host).length).drop 1 = host := by
    rw [List.take_left]
    rfl
  have behind : (91 :: host ++ 93 :: rest)[(91 :: host).length + 1]? = rest.head? := by
    rw [List.getElem?_append_right (Nat.le_add_right _ 1), Nat.add_sub_cancel_left, List.getElem?_cons_succ,
      List.head?_eq_getElem?]
  have later : (91 :: host ++ 93 :: rest).drop ((91 :: host).length + 2) = rest.tail := by
    rw [List.drop_length_add_append]
    simp
  have begins : (91 :: host ++ 93 :: rest).head? = some 91 := rfl
  rw [hostAndPort, if_pos begins, strchr_first outside]
  simp only [inside, behind, later, List.length_eq_zero_iff]
  cases rest with
  | nil => rfl
  | cons after port => rfl

theorem hostAndPort_split {host port : Text} (bare : host.head? ≠ some 91) (first : 58 ∉ host)
    (last : 58 ∉ port) :
    hostAndPort (host ++ 58 :: port) = if host = [] then none else some (host, some port) := by
  have begins : ¬ (host ++ 58 :: port).head? = some 91 := by
    cases host with
    | nil => simp
    | cons c host => exact bare
  rw [hostAndPort, if_neg begins, strchr_first first, strrchr_last last]
  simp only [if_true, List.length_eq_zero_iff, List.take_left, List.drop_length_add_append, List.drop_succ_cons,
    List.drop_zero]

theorem hostAndPort_whole {s : Text} (bare : s.head? ≠ some 91) (colons : s.count 58 ≠ 1) :
    hostAndPort s = some (s, none) := by
  rw [hostAndPort, if_neg bare]
  by_cases some_colon : 58 ∈ s
  · obtain ⟨front, rest, rfl, first⟩ := List.eq_append_cons_of_mem some_colon
    have second : 58 ∈ rest := by
      by_contra absent
      simp [List.count_eq_zero.mpr first, List.count_eq_zero.mpr absent] at colons
    obtain ⟨between, tail, turned, last⟩ := List.eq_append_cons_of_mem (List.mem_reverse.mpr second)
    have back : rest = tail.reverse ++ 58 :: between.reverse := by
      rw [← List.reverse_reverse rest, turned]
      simp
    subst back
    have strr := @strrchr_last (front ++ 58 :: tail.reverse) between.reverse 58 (mt List.mem_reverse.mp last)
    rw [strchr_first first, show front ++ 58 :: (tail.reverse ++ 58 :: between.reverse) =
      front ++ 58 :: tail.reverse ++ 58 :: between.reverse by simp, strr]
    have apart : ¬ front.length = (front ++ 58 :: tail.reverse).length := by
      rw [List.length_append, List.length_cons]
      omega
    simp only [if_neg apart]
  · rw [strchr_none some_colon]

theorem shapes (s : Text) :
    (∃ inner, s = 91 :: inner ∧ 93 ∉ inner) ∨ (∃ host rest, s = 91 :: host ++ 93 :: rest ∧ 93 ∉ host) ∨
      (∃ host port, s = host ++ 58 :: port ∧ host.head? ≠ some 91 ∧ 58 ∉ host ∧ 58 ∉ port) ∨
      s.head? ≠ some 91 ∧ s.count 58 ≠ 1 := by
  by_cases bracket : s.head? = some 91
  · obtain ⟨inner, rfl⟩ := List.head?_eq_some_iff.mp bracket
    by_cases closed : 93 ∈ inner
    · obtain ⟨host, rest, rfl, absent⟩ := List.eq_append_cons_of_mem closed
      exact .inr (.inl ⟨host, rest, rfl, absent⟩)
    · exact .inl ⟨inner, rfl, closed⟩
  · by_cases one : s.count 58 = 1
    · obtain ⟨host, port, rfl, first⟩ := List.eq_append_cons_of_mem (List.count_pos_iff.mp (one ▸ Nat.one_pos))
      have last : 58 ∉ port := by
        rw [List.count_append, List.count_eq_zero.mpr first, List.count_cons_self] at one
        exact List.count_eq_zero.mp (by omega)
      have begins : host.head? ≠ some 91 := by
        cases host with
        | nil => exact nofun
        | cons c host => exact bracket
      exact .inr (.inr (.inl ⟨host, port, rfl, begins, first, last⟩))
    · exact .inr (.inr (.inr ⟨bracket, one⟩))

theorem hostAndPort_iff {s host : Text} {port : Option Text} :
    hostAndPort s = some (host, port) ↔ Written s host port ∧ (s = [] ∨ host ≠ []) := by
  constructor
  · intro parsed
    rcases shapes s with ⟨inner, rfl, absent⟩ | ⟨inside, rest, rfl, absent⟩ |
      ⟨front, back, rfl, bare, first, last⟩ | ⟨bare, colons⟩
    · rw [hostAndPort_open absent] at parsed
      cases parsed
    · rw [hostAndPort_bracketed absent] at parsed
      split at parsed
      · cases parsed
      · rename_i filled
        split at parsed
        · cases parsed
          exact ⟨.bracketed absent, .inr filled⟩
        · split at parsed
          · rename_i colon
            cases parsed
            exact ⟨colon ▸ .bracketedPort absent, .inr filled⟩
          · cases parsed
    · rw [hostAndPort_split bare first last] at parsed
      split at parsed
      · cases parsed
      · rename_i filled
        cases parsed
        exact ⟨.split bare first last, .inr filled⟩
    · rw [hostAndPort_whole bare colons] at parsed
      cases parsed
      exact ⟨.bare bare colons, (Classical.em _)⟩
  · rintro ⟨written, filled⟩
    cases written with
    | bare bare colons => exact hostAndPort_whole bare colons
    | split bare first last =>
        rw [hostAndPort_split bare first last, if_neg (filled.resolve_left (by simp))]
    | bracketed absent =>
        rw [hostAndPort_bracketed absent, if_neg (filled.resolve_left (by simp))]
    | bracketedPort absent =>
        rw [hostAndPort_bracketed absent, if_neg (filled.resolve_left (by simp))]
        exact if_pos rfl

/-! ## Every text -/

theorem portLoop_value {digits : Text} {value : UInt32} :
    portLoop 0 digits = some value ↔
      (∀ c ∈ digits, isDigit c = true) ∧ value.toNat = digitsValue digits ∧ value ≤ 65535 := by
  rw [portLoop_iff (by decide : (0 : UInt32) ≤ 65535)]
  simp

theorem Endpoint.given {s host : Text} {port : Option UInt16} (endpoint : Endpoint s host port) : s ≠ [] := by
  rintro rfl
  obtain ⟨digits, written, -⟩ := endpoint.text
  generalize empty : ([] : Text) = s at written
  cases written with
  | bare => exact endpoint.filled empty.symm
  | split => simp at empty
  | bracketed => simp at empty
  | bracketedPort => simp at empty

theorem parseWgEndpoint_of {s host : Text} {port : Option UInt16} (endpoint : Endpoint s host port) :
    parseWgEndpoint (some s) = answer host port := by
  obtain ⟨digits, written, value⟩ := endpoint.text
  have given : ¬ s.length = 0 := mt List.length_eq_zero_iff.mp endpoint.given
  have split := hostAndPort_iff.mpr ⟨written, .inr endpoint.filled⟩
  have short : ¬ host.length ≥ kWgHostCap := Nat.not_le.mpr endpoint.short
  simp only [parseWgEndpoint, if_neg given, split, if_neg short]
  cases value with
  | absent => rfl
  | @written digits port filled all value positive =>
      have small : port.toUInt32 ≤ 65535 := by
        rw [UInt32.le_iff_toNat_le, UInt16.toNat_toUInt32]
        exact Nat.le_of_lt_succ port.toNat_lt
      have loop := portLoop_value.mpr ⟨all, (UInt16.toNat_toUInt32 port).trans value.symm, small⟩
      have some_port : ¬ port.toUInt32 = 0 := fun zero => positive (by
        rw [← UInt16.toNat_inj, ← UInt16.toNat_toUInt32, zero]
        rfl)
      simp only [if_neg filled, loop, if_neg some_port, answer, Option.isSome_some, Option.getD_some,
        UInt16.toUInt16_toUInt32]

theorem endpoint_of_ok {s : Text} (ok : (parseWgEndpoint (some s)).ok = true) :
    ∃ host port, Endpoint s host port := by
  simp only [parseWgEndpoint] at ok
  split at ok
  · cases ok
  rename_i given
  split at ok
  · cases ok
  rename_i host portBegin split
  split at ok
  · cases ok
  rename_i short
  obtain ⟨written, filled⟩ := hostAndPort_iff.mp split
  have host_filled : host ≠ [] := filled.resolve_left (mt (congrArg List.length) given)
  have host_short := Nat.lt_of_not_le short
  split at ok
  · exact ⟨host, none, host_filled, host_short, none, written, .absent⟩
  · rename_i digits
    split at ok
    · cases ok
    rename_i some_digits
    split at ok
    · cases ok
    rename_i value loop
    split at ok
    · cases ok
    rename_i positive
    obtain ⟨all, same, small⟩ := portLoop_value.mp loop
    have narrow : value.toUInt16.toNat = value.toNat := by
      have bound : value.toNat ≤ 65535 := UInt32.le_iff_toNat_le.mp small
      rw [UInt32.toNat_toUInt16, Nat.mod_eq_of_lt (by omega)]
    refine ⟨host, some value.toUInt16, host_filled, host_short, some digits, written, .written some_digits all ?_ ?_⟩
    · rw [narrow, same]
    · intro zero
      apply positive
      rw [← UInt32.toNat_inj, ← narrow, zero]
      rfl

/-- The text of a host and a port is read back. -/
theorem endpoint_written {s host : Text} {port : UInt16} (filled : host ≠ [])
    (short : host.length < kWgHostCap) (positive : port ≠ 0)
    (written : Written s host (some (natText port.toNat))) : Endpoint s host (some port) where
  filled := filled
  short := short
  text := by
    obtain ⟨some_digits, all⟩ := natText_digits port.toNat
    exact ⟨_, written, .written some_digits all (digitsValue_natText _) positive⟩

theorem colon_natText (size : Nat) : 58 ∉ natText size := by
  intro member
  exact absurd ((natText_digits size).2 58 member) (by decide)

/-- The texts that are taken are those of `Written`: a bare host has no bracket in front, a host
in brackets ends at the first `]`. -/
theorem endpoint_text :
    (∀ input, (parseWgEndpoint input).ok = true ↔ ∃ s host port, input = some s ∧ Endpoint s host port) ∧
      (∀ s host port, Endpoint s host port → parseWgEndpoint (some s) = answer host port) ∧
      (∀ host port, host ≠ [] → host.length < kWgHostCap → 58 ∉ host → 91 ∉ host → 93 ∉ host → port ≠ 0 →
        parseWgEndpoint (some (host ++ 58 :: natText port.toNat)) = answer host (some port)) ∧
      ∀ host port, host.length < kWgHostCap → 58 ∈ host → 91 ∉ host → 93 ∉ host → port ≠ 0 →
        parseWgEndpoint (some (91 :: host ++ 93 :: 58 :: natText port.toNat)) = answer host (some port) := by
  refine ⟨fun input => ⟨fun ok => ?_, ?_⟩, fun _ _ _ => parseWgEndpoint_of, ?_, ?_⟩
  · cases input with
    | none => cases ok
    | some s =>
        obtain ⟨host, port, endpoint⟩ := endpoint_of_ok ok
        exact ⟨s, host, port, rfl, endpoint⟩
  · rintro ⟨s, host, port, rfl, endpoint⟩
    rw [parseWgEndpoint_of endpoint]
    rfl
  · intro host port filled short colon bracket _ positive
    have bare : host.head? ≠ some 91 := fun begins => bracket (List.mem_of_head? begins)
    exact parseWgEndpoint_of (endpoint_written filled short positive (.split bare colon (colon_natText _)))
  · intro host port short colon _ bracket positive
    exact parseWgEndpoint_of (endpoint_written (List.ne_nil_of_mem colon) short positive (.bracketedPort bracket))

theorem endpoint_text_literal :
    parseWgEndpoint (some (91 :: Config.text "::1" ++ 93 :: 58 :: natText (51820 : UInt16).toNat)) =
      answer (Config.text "::1") (some 51820) :=
  endpoint_text.2.2.2 (Config.text "::1") 51820 (by decide) (by decide) (by decide) (by decide) (by decide)

end FryFirmware.Wireguard
