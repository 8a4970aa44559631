import FryFirmware.Lib.Octets
import FryFirmware.Lib.Url
import FryFirmware.Ota.Redirect
import Mathlib.Data.List.Basic
import Mathlib.Tactic.Common

/-!
# Redirects stay on trusted hosts

The host in the decision, in the trust lookup of the next hop and in RFC 3986 is one and
the same.
-/

set_option autoImplicit false

namespace FryFirmware.Ota

open Lib Lib.Url
open Config (Text text)

/-! ## Trusted hosts -/

/-- The hosts with trust anchors, upper or lower case. -/
def TrustedName (host : Text) : Prop :=
  host.map lower = text "hardwareapi.frynetworks.com" ∨ host.map lower = text "fry.farm" ∨
    host.map lower = text "github.com" ∨
    ∃ front, front ≠ [] ∧ front.getLast? ≠ some dot ∧ host.map lower = front ++ text ".githubusercontent.com"

def IsPort (port : Text) : Prop :=
  port = [] ∨ ∃ digits, port = 58 :: digits ∧ digits ≠ [] ∧ ∀ c ∈ digits, isDigit c = true

/-! ## Names -/

theorem lower_byte : ∀ c : UInt8,
    (lower c = dot → c = dot) ∧ (lower c = 58 ↔ c = 58) ∧ (lower c = 47 → c = 47) :=
  forall_byte (by decide +kernel)

theorem lower_dot {c : UInt8} (same : lower c = dot) : c = dot := (lower_byte c).1 same

theorem lower_colon (c : UInt8) : lower c = 58 ↔ c = 58 := (lower_byte c).2.1

theorem lower_slash (c : UInt8) (same : lower c = 47) : c = 47 := (lower_byte c).2.2 same

theorem plain_byte : ∀ c : UInt8,
    (dnsChar c = true → notColon c = true ∧ inAuthority c = true ∧ notSlash c = true ∧ c ≠ 64) ∧
      (isDigit c = true → inAuthority c = true ∧ notSlash c = true ∧ c ≠ 64) :=
  forall_byte (by decide +kernel)

theorem dnsChar_plain (c : UInt8) (letter : dnsChar c = true) :
    notColon c = true ∧ inAuthority c = true ∧ notSlash c = true ∧ c ≠ 64 := (plain_byte c).1 letter

theorem digit_plain (c : UInt8) (digit : isDigit c = true) :
    inAuthority c = true ∧ notSlash c = true ∧ c ≠ 64 := (plain_byte c).2 digit

theorem plainFrom_append {before : Option UInt8} {front back : Text}
    (plain : plainFrom before (front ++ back) = true) :
    (∀ c ∈ front, dnsChar c = true) ∧ plainFrom (front.getLast?.or before) back = true := by
  induction front generalizing before with
  | nil => exact ⟨nofun, plain⟩
  | cons c front ih =>
      rw [List.cons_append, plainFrom, Bool.and_eq_true, Bool.and_eq_true] at plain
      obtain ⟨letters, rest⟩ := ih plain.2
      refine ⟨?_, ?_⟩
      · intro d member
        rcases List.mem_cons.mp member with rfl | later
        · exact plain.1.1
        · exact letters d later
      · cases front with
        | nil => exact rest
        | cons d front =>
            obtain ⟨last, ends⟩ : ∃ last, (d :: front).getLast? = some last :=
              ⟨_, List.getLast?_eq_some_getLast (List.cons_ne_nil _ _)⟩
            rw [List.getLast?_cons_cons, ends]
            rwa [ends] at rest

theorem plainDnsName_chars {host : Text} (plain : plainDnsName host = true) :
    ∀ c ∈ host, dnsChar c = true := by
  unfold plainDnsName at plain
  split at plain
  · cases plain
  · exact (@plainFrom_append none host [] (by simpa using plain)).1

/-- In front of a dot stands another letter. -/
theorem plainDnsName_label {front back : Text} (plain : plainDnsName (front ++ dot :: back) = true) :
    front.getLast? ≠ some dot := by
  unfold plainDnsName at plain
  split at plain
  · cases plain
  · have next := (plainFrom_append plain).2
    rw [plainFrom, Bool.and_eq_true, Bool.and_eq_true] at next
    intro last
    simp [last, show lower dot = dot from rfl] at next

theorem endsWithLower_spec {host suffix : Text} (ends : endsWithLower host suffix = true) :
    ∃ front back, host = front ++ back ∧ front ≠ [] ∧ back.map lower = suffix := by
  unfold endsWithLower at ends
  split at ends
  · cases ends
  · next longer =>
    refine ⟨_, _, (List.take_append_drop (host.length - suffix.length) host).symm, ?_,
      of_decide_eq_true ends⟩
    intro none
    have length := congrArg List.length none
    rw [List.length_take, List.length_nil] at length
    omega

theorem trustSetForName_trusted {host : Text} (trusted : trustSetForName host ≠ .None) :
    plainDnsName host = true ∧ TrustedName host := by
  unfold trustSetForName at trusted
  split at trusted
  · exact absurd rfl trusted
  · next plain =>
    have plain : plainDnsName host = true := by simpa using plain
    refine ⟨plain, ?_⟩
    split at trusted
    · next api =>
      rw [Bool.or_eq_true] at api
      rcases api with first | second
      · exact .inl (of_decide_eq_true first)
      · exact .inr (.inl (of_decide_eq_true second))
    · split at trusted
      · next github => exact .inr (.inr (.inl (of_decide_eq_true github)))
      · split at trusted
        · next assets =>
          obtain ⟨front, back, rfl, some_front, suffix⟩ := endsWithLower_spec assets
          cases back with
          | nil => cases suffix
          | cons c back =>
              have first : lower c = dot := (List.cons.inj suffix).1
              obtain rfl := lower_dot first
              refine .inr (.inr (.inr ⟨front.map lower, by simpa using some_front, ?_, ?_⟩))
              · intro last
                rw [List.getLast?_map] at last
                obtain ⟨d, here, same⟩ := Option.map_eq_some_iff.mp last
                exact plainDnsName_label plain (lower_dot same ▸ here)
              · rw [List.map_append, suffix]
        · exact absurd rfl trusted

theorem trustSetForHost_split {name : Text} (trusted : trustSetForHost name ≠ .None) :
    ∃ host port, name = host ++ port ∧ IsPort port ∧ plainDnsName host = true ∧ TrustedName host := by
  unfold trustSetForHost at trusted
  split at trusted
  · exact absurd rfl trusted
  · obtain ⟨host, rest, rfl, -, ends, taken, left⟩ := run_split notColon name
    rw [taken, left] at trusted
    cases rest with
    | nil =>
        rw [List.append_nil] at trusted
        exact ⟨host, [], rfl, .inl rfl, trustSetForName_trusted trusted⟩
    | cons c port =>
        have colon : c = 58 := by simpa [notColon] using ends c rfl
        subst colon
        dsimp only at trusted
        split at trusted
        · exact absurd rfl trusted
        · next some_digits =>
          split at trusted
          · exact absurd rfl trusted
          · next digits =>
            refine ⟨host, _, rfl, .inr ⟨port, rfl, some_digits, ?_⟩, trustSetForName_trusted trusted⟩
            simpa using digits

/-! ## URLs -/

theorem startsWithLower_spec {s lit : Text} (starts : startsWithLower s lit = true) :
    ∃ front rest, s = front ++ rest ∧ front.map lower = lit := by
  induction lit generalizing s with
  | nil => exact ⟨[], s, rfl, rfl⟩
  | cons d lit ih =>
      cases s with
      | nil => cases starts
      | cons c s =>
          rw [startsWithLower, Bool.and_eq_true, decide_eq_true_eq] at starts
          obtain ⟨front, rest, rfl, same⟩ := ih starts.2
          exact ⟨c :: front, rest, rfl, by rw [List.map_cons, starts.1, same]⟩

/-- An https URL is a scheme without a colon, `://`, and the rest. -/
theorem https_split {url : Text} (starts : startsWithLower url (text "https://") = true) :
    ∃ scheme rest, url = scheme ++ 58 :: 47 :: 47 :: rest ∧ scheme.map lower = text "https" ∧
      scheme.length = 5 ∧ ∀ c ∈ scheme, notColon c = true := by
  obtain ⟨front, rest, rfl, same⟩ := startsWithLower_spec starts
  have halves : front.map lower = text "https" ++ text "://" := same
  obtain ⟨scheme, separator, rfl, name, sign⟩ := List.map_eq_append_iff.mp halves
  have sign : separator.map lower = [58, 47, 47] := sign
  obtain ⟨a, _, rfl, colon, sign⟩ := List.map_eq_cons_iff.mp sign
  obtain ⟨b, _, rfl, slash, sign⟩ := List.map_eq_cons_iff.mp sign
  obtain ⟨c, _, rfl, second, sign⟩ := List.map_eq_cons_iff.mp sign
  obtain rfl := List.map_eq_nil_iff.mp sign
  obtain rfl := (lower_colon a).mp colon
  obtain rfl := lower_slash b slash
  obtain rfl := lower_slash c second
  refine ⟨scheme, rest, by simp, name, ?_, ?_⟩
  · have length := congrArg List.length name
    rw [List.length_map] at length
    exact length
  · intro c member
    have inside : lower c ∈ text "https" := name ▸ List.mem_map_of_mem member
    have other : ∀ d ∈ text "https", d ≠ 58 := by decide +kernel
    simpa [notColon] using fun colon => other _ inside ((lower_colon c).mpr colon)

theorem strstr_first {scheme rest : Text} (plain : ∀ c ∈ scheme, notColon c = true) :
    strstr (text "://") (scheme ++ 58 :: 47 :: 47 :: rest) = some (58 :: 47 :: 47 :: rest) := by
  induction scheme with
  | nil => rfl
  | cons c scheme ih =>
      have other : c ≠ 58 := by simpa [notColon] using plain c List.mem_cons_self
      have later := ih fun d member => plain d (List.mem_cons_of_mem _ member)
      have absent : (text "://").isPrefixOf (c :: (scheme ++ 58 :: 47 :: 47 :: rest)) = false := by
        simp [show text "://" = [58, 47, 47] from rfl, List.isPrefixOf, other.symm]
      rw [List.cons_append, strstr, absent]
      exact later

/-- What `extractHost` finds in an https URL. -/
theorem extractHost_https {scheme rest : Text} (plain : ∀ c ∈ scheme, notColon c = true) (cap : Nat) :
    extractHost (scheme ++ 58 :: 47 :: 47 :: rest) cap =
      if (rest.takeWhile notSlash).length + 1 > cap then none else some (rest.takeWhile notSlash) := by
  rw [extractHost, strstr_first plain]
  rfl

/-- Where the part up to the slash is a name and a port, RFC 3986 ends it there too. -/
theorem authority_eq (rest : Text) (plain : ∀ c ∈ rest.takeWhile notSlash, inAuthority c = true) :
    rest.takeWhile inAuthority = rest.takeWhile notSlash := by
  obtain ⟨name, tail, rfl, -, ends, taken, -⟩ := run_split notSlash rest
  rw [taken] at plain ⊢
  refine takeWhile_run plain fun c first => ?_
  have slash : c = 47 := by simpa [notSlash] using ends c first
  rw [slash]
  rfl

theorem decideRedirect_follow {code : Int} {hopsTaken : UInt8} {location : Option Text}
    (follow : decideRedirect code hopsTaken location = .Follow) :
    hopsTaken < kMaxRedirectHops ∧ ∃ url, location = some url ∧
      startsWithLower url (text "https://") = true ∧
      trustSetForHost ((url.drop 8).takeWhile notSlash) ≠ .None := by
  unfold decideRedirect at follow
  split at follow
  · cases follow
  · split at follow
    · cases follow
    · next few =>
      refine ⟨UInt8.not_le.mp few, ?_⟩
      split at follow
      · cases follow
      · next url =>
        refine ⟨url, rfl, ?_⟩
        split at follow
        · cases follow
        · split at follow
          · cases follow
          · next https =>
            dsimp only at follow
            split at follow
            · cases follow
            · split at follow
              · cases follow
              · next trusted => exact ⟨by simpa using https, trusted⟩

/-- A followed Location goes to a trusted host, for the standard and for `extractHost`. -/
theorem follow_trusted {code : Int} {hopsTaken : UInt8} {location : Option Text}
    (follow : decideRedirect code hopsTaken location = .Follow) :
    ∃ url host port, location = some url ∧ (schemeOf url).map lower = text "https" ∧
      authorityOf url = some (host ++ port) ∧ 64 ∉ host ++ port ∧ IsPort port ∧ TrustedName host ∧
      extractHost url 64 = if (host ++ port).length < 64 then some (host ++ port) else none := by
  obtain ⟨-, url, rfl, https, trusted⟩ := decideRedirect_follow follow
  obtain ⟨scheme, rest, rfl, name, length, plain⟩ := https_split https
  have start : (scheme ++ 58 :: 47 :: 47 :: rest).drop 8 = rest := by
    rw [show 8 = scheme.length + 3 by omega, List.drop_length_add_append]
    rfl
  rw [start] at trusted
  obtain ⟨host, port, split, isPort, dns, known⟩ := trustSetForHost_split trusted
  have letters : ∀ c ∈ host ++ port, inAuthority c = true ∧ c ≠ 64 := by
    intro c member
    rcases List.mem_append.mp member with inHost | inPort
    · have letter := dnsChar_plain c (plainDnsName_chars dns c inHost)
      exact ⟨letter.2.1, letter.2.2.2⟩
    · rcases isPort with rfl | ⟨digits, rfl, -, all⟩
      · cases inPort
      · rcases List.mem_cons.mp inPort with rfl | digit
        · decide
        · have letter := digit_plain c (all c digit)
          exact ⟨letter.1, letter.2.2⟩
  have authority := authority_eq rest fun c member => (letters c (split ▸ member)).1
  refine ⟨_, host, port, rfl, ?_, ?_, fun at_sign => (letters 64 at_sign).2 rfl, isPort, known, ?_⟩
  · rw [schemeOf_eq plain, name]
  · rw [authorityOf_eq plain, authority, split]
  · rw [extractHost_https plain, split]
    by_cases short : (host ++ port).length < 64
    · rw [if_pos short, if_neg (by omega)]
    · rw [if_neg short, if_pos (by omega)]

/-! ## The loop -/

/-- After `n` hops there are at most `kMaxRedirectHops + 1 - n` more requests. -/
theorem followHops_bounded (answers : Nat → Answer) (fuel n : Nat) (hops : UInt8)
    (counted : hops.toNat = n) (few : n ≤ kMaxRedirectHops.toNat)
    (enough : kMaxRedirectHops.toNat + 1 ≤ n + fuel) :
    ∃ code requests, followHops answers fuel n hops = some (code, requests) ∧
      requests ≤ kMaxRedirectHops.toNat + 1 := by
  induction fuel generalizing n hops with
  | zero => omega
  | succ fuel ih =>
      rw [followHops]
      split
      · exact ⟨_, _, rfl, by omega⟩
      · next follow =>
        have less := UInt8.lt_iff_toNat_lt.mp (decideRedirect_follow follow).1
        have next : (hops + 1).toNat = n + 1 := by
          have five : kMaxRedirectHops.toNat = 5 := rfl
          have one : (1 : UInt8).toNat = 1 := rfl
          rw [UInt8.toNat_add, counted, one]
          omega
        split
        · exact ih (n + 1) (hops + 1) next (by omega) (by omega)
        · exact ⟨_, _, rfl, by omega⟩
      · exact ⟨_, _, rfl, by omega⟩

theorem getFollowingHops_bounded (isHttps : Bool) (answers : Nat → Answer) (fuel : Nat)
    (enough : kMaxRedirectHops.toNat + 1 ≤ fuel) :
    ∃ code requests, getFollowingHops isHttps answers fuel = some (code, requests) ∧
      requests ≤ kMaxRedirectHops.toNat + 1 := by
  unfold getFollowingHops
  split
  · exact ⟨_, _, rfl, by decide⟩
  · exact followHops_bounded answers fuel 0 0 rfl (Nat.zero_le _) (by omega)

/-- Redirects stay on trusted hosts, and there are few of them. -/
theorem redirects_trusted :
    (∀ code hopsTaken location, decideRedirect code hopsTaken location = .Follow →
      ∃ url host port, location = some url ∧ (schemeOf url).map lower = text "https" ∧
        authorityOf url = some (host ++ port) ∧ 64 ∉ host ++ port ∧ IsPort port ∧ TrustedName host ∧
        extractHost url 64 = if (host ++ port).length < 64 then some (host ++ port) else none) ∧
    ∀ isHttps answers fuel, kMaxRedirectHops.toNat + 1 ≤ fuel →
      ∃ code requests, getFollowingHops isHttps answers fuel = some (code, requests) ∧
        requests ≤ kMaxRedirectHops.toNat + 1 :=
  ⟨fun _ _ _ => follow_trusted, getFollowingHops_bounded⟩

end FryFirmware.Ota
