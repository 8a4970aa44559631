import FryFirmware.Olostep.Literals
import Mathlib.Data.List.Basic
import Mathlib.Tactic.Common

/-!
# Hosts of the URLs that are taken

Where the host of such a URL stands, and that no address in it leads back to a private
network.
-/

set_option autoImplicit false

namespace FryFirmware.Olostep

open Lib Lib.InetText
open Config (Text text)
open Lib.Json (isDigit digitsValue)
open Lib.Url (notColon inAuthority authorityOf authorityOf_eq)

/-! ## Hosts -/

theorem lowerChar_plain : ∀ c : UInt8, (lowerChar c = 58 ↔ c = 58) ∧ (lowerChar c = 47 → c = 47) :=
  forall_byte (by decide +kernel)

theorem https_authority {url : Text} (https : lower (url.take 8) = text "https://") :
    authorityOf url = some ((url.drop 8).takeWhile inAuthority) := by
  have parts : (url.take 8).map lowerChar = text "https" ++ [58, 47, 47] := https.trans (by decide)
  obtain ⟨scheme, slashes, eq, letters, ends⟩ := List.map_eq_append_iff.mp parts
  obtain ⟨c, rest, rfl, colon, ends⟩ := List.map_eq_cons_iff.mp ends
  obtain ⟨d, rest, rfl, first, ends⟩ := List.map_eq_cons_iff.mp ends
  obtain ⟨e, rest, rfl, second, ends⟩ := List.map_eq_cons_iff.mp ends
  obtain rfl := List.map_eq_nil_iff.mp ends
  obtain rfl := (lowerChar_plain c).1.mp colon
  obtain rfl := (lowerChar_plain d).2 first
  obtain rfl := (lowerChar_plain e).2 second
  have plain : ∀ c ∈ scheme, notColon c = true := by
    intro c member
    have letter : lowerChar c ∈ text "https" := letters ▸ List.mem_map_of_mem member
    refine decide_eq_true fun colon => ?_
    rw [(lowerChar_plain c).1.mpr colon] at letter
    exact absurd letter (by decide)
  have whole : url = scheme ++ 58 :: 47 :: 47 :: url.drop 8 := by
    calc url = url.take 8 ++ url.drop 8 := (List.take_append_drop 8 url).symm
      _ = _ := by rw [eq, List.append_assoc]; rfl
  rw [whole, authorityOf_eq plain, ← whole]

/-- What is taken has a host that passes on its own. -/
theorem allowed_host {url : Text} (allowed : olostep_url_allowed url = true) :
    ∃ auth host bracket port, authorityOf url = some auth ∧ auth ≠ [] ∧
      splitAuthority auth = some (host, bracket, port) ∧ host ≠ [] ∧ hostAllowed host bracket = true := by
  unfold olostep_url_allowed at allowed
  split at allowed
  · cases allowed
  · next scheme =>
    split at allowed
    · cases allowed
    · dsimp only at allowed
      split at allowed
      · cases allowed
      · next filled =>
        split at allowed
        · cases allowed
        · next host bracket port parts =>
          split at allowed
          · cases allowed
          · split at allowed
            · cases allowed
            · next named =>
              simp only [Bool.or_eq_true, decide_eq_true_eq, not_or, not_not] at scheme filled named
              exact ⟨_, host, bracket, port, https_authority (by simpa using scheme.2), filled.1, parts,
                named.1, allowed⟩

/-! ## Addresses that are taken -/

/-- An address that belongs to no private network, and that embeds no such address. -/
structure Public (ip : Ip6) : Prop where
  unspecified : value ip ≠ 0
  loopback : value ip ≠ 1
  compatible : ¬ InNet 0 96 (value ip)
  uniqueLocal : ¬ InNet (0xFC00 <<< 112) 7 (value ip)
  linkLocal : ¬ InNet (0xFE80 <<< 112) 10 (value ip)
  siteLocal : ¬ InNet (0xFEC0 <<< 112) 10 (value ip)
  multicast : ¬ InNet (0xFF00 <<< 112) 8 (value ip)
  documentation : ¬ InNet (0x20010DB8 <<< 96) 32 (value ip) ∧ ¬ InNet (0x3FFF <<< 112) 20 (value ip)
  teredo : ¬ InNet (0x20010000 <<< 96) 32 (value ip)
  sixToFour : ¬ InNet (0x2002 <<< 112) 16 (value ip)
  mapped : InNet (0xFFFF <<< 32) 96 (value ip) → olostep_ip_is_blocked_v4 (lastFour ip) = false
  siit : InNet (0xFFFF <<< 48) 96 (value ip) → olostep_ip_is_blocked_v4 (lastFour ip) = false
  nat64 : InNet (0x64FF9B <<< 96) 96 (value ip) → olostep_ip_is_blocked_v4 (lastFour ip) = false

theorem sixteen {ip : Ip6} (length : ip.length = 16) :
    ∃ b0 b1 b2 b3 b4 b5 b6 b7 b8 b9 b10 b11 b12 b13 b14 b15,
      ip = [b0, b1, b2, b3, b4, b5, b6, b7, b8, b9, b10, b11, b12, b13, b14, b15] :=
  match ip, length with
  | [_, _, _, _, _, _, _, _, _, _, _, _, _, _, _, _], rfl =>
      ⟨_, _, _, _, _, _, _, _, _, _, _, _, _, _, _, _, rfl⟩

theorem part_byte : ∀ b : UInt8, (b.toNat / 2 = 126 → b = 0xFC ∨ b = 0xFD) ∧
    (b.toNat / 64 = 2 → b &&& 0xC0 = 0x80) ∧ (b.toNat / 64 = 3 → b &&& 0xC0 = 0xC0) ∧
      (b.toNat / 16 = 0 → b &&& 0xF0 = 0) :=
  forall_byte (by decide +kernel)

theorem half_byte (b : UInt8) : b.toNat / 2 = 126 → b = 0xFC ∨ b = 0xFD := (part_byte b).1

theorem quarter_byte (b : UInt8) :
    (b.toNat / 64 = 2 → b &&& 0xC0 = 0x80) ∧ (b.toNat / 64 = 3 → b &&& 0xC0 = 0xC0) ∧
      (b.toNat / 16 = 0 → b &&& 0xF0 = 0) :=
  (part_byte b).2

/-- The networks of ten bits in `0xFE`, by the two bits behind them. -/
theorem inNet_tens {b0 b1 : UInt8} {back : List UInt8} (length : back.length = 14) {net last : Nat}
    (known : net / 2 ^ 118 = 1016 + last) (small : last < 4)
    (inside : InNet net 10 (value (b0 :: b1 :: back))) : b0 = 0xFE ∧ b1.toNat / 64 = last := by
  have quarter := (inNet_front [b0, b1] back (by simp [length]) (by simp)).mp inside
  have byte : b1.toNat < 256 := b1.toNat_lt
  simp only [value, List.foldl_cons, List.foldl_nil, List.length_cons, List.length_nil] at quarter
  rw [known] at quarter
  constructor
  · exact UInt8.toNat.inj (b := 0xFE) (by change b0.toNat = 254; omega)
  · omega

theorem public_of_free {ip : Ip6} (length : ip.length = 16)
    (free : olostep_ip_is_blocked_v6 ip = false) : Public ip := by
  obtain ⟨b0, b1, b2, b3, b4, b5, b6, b7, b8, b9, b10, b11, b12, b13, b14, b15, rfl⟩ := sixteen length
  have twelve {net : Nat} := @inNet_bytes net
    [b0, b1, b2, b3, b4, b5, b6, b7, b8, b9, b10, b11] [b12, b13, b14, b15]
  have four {net : Nat} := @inNet_bytes net [b0, b1, b2, b3]
    [b4, b5, b6, b7, b8, b9, b10, b11, b12, b13, b14, b15]
  have compatible : ¬ InNet 0 96
      (value [b0, b1, b2, b3, b4, b5, b6, b7, b8, b9, b10, b11, b12, b13, b14, b15]) := by
    intro inside
    have zero := twelve [0, 0, 0, 0, 0, 0, 0, 0, 0, 0, 0, 0] rfl rfl (by decide) inside
    simp only [List.cons.injEq] at zero
    simp [olostep_ip_is_blocked_v6, zeroBytes, List.range', zero] at free
  constructor
  case unspecified =>
    intro zero
    exact compatible (by simp [InNet, zero])
  case loopback =>
    intro one
    exact compatible (by simp [InNet, one])
  case compatible => exact compatible
  case uniqueLocal =>
    intro inside
    have half := (inNet_front [b0] [b1, b2, b3, b4, b5, b6, b7, b8, b9, b10, b11, b12, b13, b14, b15]
      rfl (by simp)).mp inside
    rcases half_byte b0 (by simpa [value] using half) with rfl | rfl
    all_goals
      simp [olostep_ip_is_blocked_v6, zeroBytes, List.range'] at free
      exact free (by decide)
  case linkLocal =>
    intro inside
    obtain ⟨rfl, quarter⟩ := inNet_tens rfl (by decide : _ = 1016 + 2) (by decide) inside
    have second := (quarter_byte b1).1 quarter
    simp [olostep_ip_is_blocked_v6, zeroBytes, List.range', second] at free
  case siteLocal =>
    intro inside
    obtain ⟨rfl, quarter⟩ := inNet_tens rfl (by decide : _ = 1016 + 3) (by decide) inside
    have second := (quarter_byte b1).2.1 quarter
    simp [olostep_ip_is_blocked_v6, zeroBytes, List.range', second] at free
  case multicast =>
    intro inside
    have first := @inNet_bytes _ [b0] [b1, b2, b3, b4, b5, b6, b7, b8, b9, b10, b11, b12, b13, b14, b15]
      [0xFF] rfl rfl (by decide) inside
    simp only [List.cons.injEq] at first
    simp [olostep_ip_is_blocked_v6, zeroBytes, List.range', first] at free
  case documentation =>
    constructor
    · intro inside
      have first := four [0x20, 0x01, 0x0D, 0xB8] rfl rfl (by decide) inside
      simp only [List.cons.injEq] at first
      simp [olostep_ip_is_blocked_v6, zeroBytes, List.range', first] at free
    · intro inside
      have half := (inNet_front [b0, b1, b2] [b3, b4, b5, b6, b7, b8, b9, b10, b11, b12, b13, b14, b15]
        rfl (by simp)).mp inside
      have second : b1.toNat < 256 := b1.toNat_lt
      have third : b2.toNat < 256 := b2.toNat_lt
      simp only [value, List.foldl_cons, List.foldl_nil, List.length_cons, List.length_nil] at half
      obtain rfl : b0 = 0x3F := UInt8.toNat.inj (b := 0x3F) (by change b0.toNat = 63; omega)
      obtain rfl : b1 = 0xFF := UInt8.toNat.inj (b := 0xFF) (by change b1.toNat = 255; omega)
      have last := (quarter_byte b2).2.2 (by omega)
      simp [olostep_ip_is_blocked_v6, zeroBytes, List.range', last] at free
  case sixToFour =>
    intro inside
    have first := @inNet_bytes _ [b0, b1] [b2, b3, b4, b5, b6, b7, b8, b9, b10, b11, b12, b13, b14, b15]
      [0x20, 0x02] rfl rfl (by decide) inside
    simp only [List.cons.injEq] at first
    simp [olostep_ip_is_blocked_v6, zeroBytes, List.range', first] at free
  case mapped =>
    intro inside
    have embeds := twelve [0, 0, 0, 0, 0, 0, 0, 0, 0, 0, 0xFF, 0xFF] rfl rfl (by decide) inside
    simp only [List.cons.injEq] at embeds
    simpa [olostep_ip_is_blocked_v6, zeroBytes, List.range', embeds] using free
  case siit =>
    intro inside
    have embeds := twelve [0, 0, 0, 0, 0, 0, 0, 0, 0xFF, 0xFF, 0, 0] rfl rfl (by decide) inside
    simp only [List.cons.injEq] at embeds
    simpa [olostep_ip_is_blocked_v6, zeroBytes, List.range', embeds] using free
  case nat64 =>
    intro inside
    have embeds := twelve [0, 0x64, 0xFF, 0x9B, 0, 0, 0, 0, 0, 0, 0, 0] rfl rfl (by decide) inside
    simp only [List.cons.injEq] at embeds
    simpa [olostep_ip_is_blocked_v6, zeroBytes, List.range', embeds] using free
  case teredo =>
    intro inside
    have first := four [0x20, 0x01, 0, 0] rfl rfl (by decide) inside
    simp only [List.cons.injEq] at first
    simp [olostep_ip_is_blocked_v6, zeroBytes, List.range', first] at free

/-- A literal in brackets is a text form of a public address, whatever stands behind it. -/
theorem bracketed_public {url inner : Text} (allowed : olostep_url_allowed url = true)
    (authority : authorityOf url = some (91 :: inner)) :
    ∃ host rest g, inner = host ++ 93 :: rest ∧ 93 ∉ host ∧ Ipv6 host g ∧ Public (octets g) := by
  obtain ⟨auth, host, bracket, port, same, -, parts, -, taken⟩ := allowed_host allowed
  rw [authority] at same
  cases same
  obtain ⟨run, rest, rfl, inside, ends, before, behind⟩ := run_split notClose inner
  simp only [splitAuthority, before, behind] at parts
  cases rest with
  | nil => cases parts
  | cons c rest =>
      have close : c = 93 := by simpa [notClose] using ends c rfl
      have shape : run = host ∧ bracket = true := by
        cases rest with
        | nil =>
            cases parts
            exact ⟨rfl, rfl⟩
        | cons d rest =>
            dsimp only at parts
            split at parts
            · cases parts
            · cases parts
              exact ⟨rfl, rfl⟩
      obtain ⟨rfl, rfl⟩ := shape
      rw [hostAllowed, if_pos rfl] at taken
      cases read : parseV6 run with
      | none => simp [read] at taken
      | some ip =>
          obtain ⟨g, form, rfl⟩ := parseV6_iff.mp read
          have free : olostep_ip_is_blocked_v6 (octets g) = false := by simpa [read] using taken
          refine ⟨run, rest, g, by rw [close], fun member => ?_, form,
            public_of_free (by rw [length_octets, form.length]) free⟩
          simpa [notClose] using inside 93 member

/-- The reader takes exactly the text forms of RFC 4291 and returns the address they denote,
and what a URL in brackets names is a public address. -/
theorem literals_exact :
    (∀ (s : Text) (bytes : Ip6), parseV6 s = some bytes ↔ ∃ g, Ipv6 s g ∧ bytes = octets g) ∧
    ∀ (url inner : Text), olostep_url_allowed url = true → authorityOf url = some (91 :: inner) →
      ∃ host rest g, inner = host ++ 93 :: rest ∧ 93 ∉ host ∧ Ipv6 host g ∧ Public (octets g) :=
  ⟨fun _ _ => parseV6_iff, fun _ _ => bracketed_public⟩

theorem literals_exact_global : ∃ host rest g, text "2606:4700::1111]:443" = host ++ 93 :: rest ∧
    93 ∉ host ∧ Ipv6 host g ∧ Public (octets g) :=
  literals_exact.2 (text "https://[2606:4700::1111]:443/") _ (by decide +kernel) (by decide +kernel)

end FryFirmware.Olostep
