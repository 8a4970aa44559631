import FryFirmware.Lib.Blocks
import FryFirmware.Wireguard.CidrProperties
import FryFirmware.Wireguard.Routes
import Mathlib.Algebra.Ring.Nat
import Mathlib.Data.List.Basic
import Mathlib.Data.Nat.Bitwise
import Mathlib.Tactic.Common

/-!
# Routes as blocks of addresses

A kept route is an aligned block of addresses, narrowing one is leaving the board's
address and its gateway out of it, and the candidate loop works on blocks.
-/

set_option autoImplicit false

namespace FryFirmware.Wireguard

open Lib Config
open Relay (prefixToMask)

abbrev Network := Block 32

def keptOf (b : Network) : Kept := ⟨UInt32.ofNat b.net, b.length⟩

def Station.excluded (sta : Station) : List Nat :=
  (if sta.staActive then [sta.ip.toNat] else []) ++
    if sta.gwActive then [sta.gateway.toNat] else []

theorem excluded_length (sta : Station) : sta.excluded.length ≤ 2 := by
  unfold Station.excluded
  split <;> split <;> simp

/-! ## Masks -/

theorem prefixToMask_toNat {bits : Nat} (small : bits ≤ 32) :
    (prefixToMask bits).toNat = 2 ^ 32 - 2 ^ (32 - bits) := by
  interval_cases bits <;> rfl

theorem newBit_toNat {bits : Nat} (wide : bits < 32) :
    (prefixToMask ((bits : Int) + 1) &&& ~~~prefixToMask bits).toNat = 2 ^ (31 - bits) := by
  interval_cases bits <;> rfl

theorem and_high_bits {value width low : Nat} (small : value < 2 ^ width) (low_le : low ≤ width) :
    value &&& (2 ^ width - 2 ^ low) = value / 2 ^ low * 2 ^ low := by
  have positive : 0 < 2 ^ low := Nat.two_pow_pos low
  have bound : 2 ^ low ≤ 2 ^ width := Nat.pow_le_pow_right (by decide) low_le
  apply Nat.eq_of_testBit_eq
  intro i
  rw [Nat.testBit_and, show 2 ^ width - 2 ^ low = 2 ^ width - ((2 ^ low - 1) + 1) by omega,
    Nat.testBit_two_pow_sub_succ (by omega), Nat.testBit_two_pow_sub_one, Nat.testBit_mul_two_pow,
    Nat.testBit_div_two_pow]
  by_cases high : low ≤ i
  · by_cases inside : i < width
    · simp [high, inside, Nat.not_lt.mpr high]
    · have zero : value.testBit i = false :=
        Nat.testBit_lt_two_pow (Nat.lt_of_lt_of_le small (Nat.pow_le_pow_right (by decide) (by omega)))
      simp [high, inside, zero]
  · simp [high, Nat.lt_of_not_le high]

theorem toNat_and_prefixToMask (addr : UInt32) {bits : Nat} (small : bits ≤ 32) :
    (addr &&& prefixToMask bits).toNat = addr.toNat / 2 ^ (32 - bits) * 2 ^ (32 - bits) := by
  rw [UInt32.toNat_and, prefixToMask_toNat small]
  exact and_high_bits addr.toNat_lt (by omega)

theorem keptOf_net (b : Network) : (keptOf b).net.toNat = b.net :=
  UInt32.toNat_ofNat_of_lt' b.net_lt

theorem keptOf_injective : Function.Injective keptOf := by
  intro b c same
  have nets := congrArg (fun k => k.net.toNat) same
  simp only [keptOf_net] at nets
  exact Block.eq_of_net (congrArg Kept.bits same) nets

theorem addrInBlock_keptOf (addr : UInt32) (b : Network) :
    addrInBlock addr (keptOf b).net b.length = decide (addr.toNat ∈ b) := by
  rw [addrInBlock, decide_eq_decide, ← UInt32.toNat_inj, toNat_and_prefixToMask addr b.length_le,
    keptOf_net, Block.net, Block.mem_iff, Block.size]
  exact Nat.mul_right_cancel_iff (Nat.two_pow_pos _)

/-! ## Narrowing -/

theorem keptOf_half (b : Network) (wide : b.length < 32) (upper : Bool) :
    keptOf (b.half wide upper) =
      ⟨if upper then (keptOf b).net |||
          (prefixToMask ((b.length : Int) + 1) &&& ~~~prefixToMask b.length)
        else (keptOf b).net, b.length + 1⟩ := by
  have size : (b.half wide upper).size = 2 ^ (31 - b.length) := by
    rw [Block.size, Block.length_half, show 32 - (b.length + 1) = 31 - b.length by omega]
  have small : 2 ^ (31 - b.length) < 2 ^ (32 - b.length) :=
    Nat.pow_lt_pow_right (by decide) (by omega)
  have net : (keptOf (b.half wide upper)).net =
      if upper then (keptOf b).net |||
        (prefixToMask ((b.length : Int) + 1) &&& ~~~prefixToMask b.length) else (keptOf b).net := by
    apply UInt32.toNat_inj.mp
    rw [keptOf_net, Block.net_half, size]
    cases upper with
    | false => simp [keptOf_net]
    | true =>
        rw [if_pos rfl, UInt32.toNat_or, keptOf_net, newBit_toNat wide, Block.net, Block.size,
          or_shifted _ small, Bool.toNat_true, Nat.one_mul]
  rw [← net]
  rfl

/-- Whether an address is in the lower half decides which half a turn goes on with. -/
theorem narrowed_half {b : Network} {x : UInt32} (inside : x.toNat ∈ b) (wide : b.length < 32) :
    (⟨if addrInBlock x (keptOf b).net (b.length + 1) then (keptOf b).net |||
        (prefixToMask ((b.length : Int) + 1) &&& ~~~prefixToMask b.length)
      else (keptOf b).net, b.length + 1⟩ : Kept) = keptOf (b.half wide !(b.isUpper x.toNat)) := by
  have lower : (keptOf (b.half wide false)).net = (keptOf b).net := by
    rw [keptOf_half b wide false]
    rfl
  have side : addrInBlock x (keptOf b).net (b.length + 1) = !(b.isUpper x.toNat) := by
    rw [← lower, ← Block.length_half wide false, addrInBlock_keptOf]
    simp only [Block.mem_half_iff, inside, true_and]
    cases b.isUpper x.toNat <;> rfl
  rw [keptOf_half, side]

theorem find_excluded (sta : Station) (b : Network) :
    (sta.excluded.find? fun x => x ∈ b) =
      if sta.staActive && decide (sta.ip.toNat ∈ b) then some sta.ip.toNat
      else if sta.gwActive && decide (sta.gateway.toNat ∈ b) then some sta.gateway.toNat
      else none := by
  unfold Station.excluded
  by_cases staIn : sta.ip.toNat ∈ b <;> by_cases gwIn : sta.gateway.toNat ∈ b <;>
    cases sta.staActive <;> cases sta.gwActive <;> simp [staIn, gwIn]

/-- With an address inside, a turn goes on with the half without it, or returns. -/
theorem away_turn {b : Network} {x : UInt32} (inside : x.toNat ∈ b) :
    (if b.length = 32 then .inl none
      else .inr ⟨if addrInBlock x (keptOf b).net (b.length + 1) then (keptOf b).net |||
          (prefixToMask ((b.length : Int) + 1) &&& ~~~prefixToMask b.length)
        else (keptOf b).net, b.length + 1⟩ : Option Kept ⊕ Kept) =
      match b.away x.toNat with
      | none => .inl none
      | some c => .inr (keptOf c) := by
  have bound := b.length_le
  by_cases wide : b.length < 32
  · rw [if_neg (by omega), Block.away_inside inside wide, narrowed_half inside wide]
  · rw [if_pos (by omega), Block.away_eq_none_iff.mpr ⟨inside, by omega⟩]

theorem narrowTurn_keptOf (sta : Station) (b : Network) :
    narrowTurn sta (keptOf b) =
      match sta.excluded.find? fun x => x ∈ b with
      | none => .inl (some (keptOf b))
      | some x =>
          match b.away x with
          | none => .inl none
          | some c => .inr (keptOf c) := by
  have bits : (keptOf b).bits = b.length := rfl
  rw [find_excluded, narrowTurn, bits]
  simp only [addrInBlock_keptOf]
  cases staIn : sta.staActive && decide (sta.ip.toNat ∈ b) with
  | true =>
      have inside : sta.ip.toNat ∈ b := by simpa using (Bool.and_eq_true_iff.mp staIn).2
      simp only [Bool.not_true, Bool.false_and, Bool.false_eq_true, if_false, if_true]
      exact away_turn inside
  | false =>
      cases gwIn : sta.gwActive && decide (sta.gateway.toNat ∈ b) with
      | true =>
          have inside : sta.gateway.toNat ∈ b := by simpa using (Bool.and_eq_true_iff.mp gwIn).2
          simp only [Bool.not_true, Bool.not_false, Bool.and_false, Bool.false_eq_true, if_false,
            if_true]
          exact away_turn inside
      | false => simp

/-- The loop leaves the board's address and its gateway out, and ends. -/
theorem narrowLoop_keptOf (sta : Station) (turns : Nat) (b : Network) :
    narrowLoop sta turns (keptOf b) = (b.dodge sta.excluded turns).map (·.map keptOf) := by
  induction turns generalizing b with
  | zero => rfl
  | succ turns ih =>
      rw [narrowLoop, narrowTurn_keptOf, Block.dodge]
      cases sta.excluded.find? fun x => x ∈ b with
      | none => rfl
      | some x =>
          simp only
          cases b.away x with
          | none => rfl
          | some c => exact ih c

theorem narrowAwayFromSta_keptOf (sta : Station) (b : Network) :
    narrowAwayFromSta sta (keptOf b).net b.length = some ((b.avoid sta.excluded).map keptOf) := by
  have bound := b.length_le
  have start : (⟨(keptOf b).net, b.length⟩ : Kept) = keptOf b := rfl
  rw [narrowAwayFromSta, start, narrowLoop_keptOf, Block.dodge_eq _ (by omega)]
  rfl

/-! ## Planning -/

/-- The block of an address and a prefix length of up to 32. -/
def networkAt (ip : UInt32) (bits : Nat) : Network :=
  Block.around (min bits 32) ip.toNat (Nat.min_le_right bits 32) ip.toNat_lt

/-- The block of a well-formed candidate that is not wider than /8. -/
def candidateOf (entry : CString) : Option Network :=
  match entry.bind readCidr with
  | some (ip, bits) => if 8 ≤ bits then some (networkAt ip bits) else none
  | none => none

def candidates (allowedIps : List CString) : List Network := allowedIps.filterMap candidateOf

/-- A candidate that is not there yet takes a free place with what is left of it. -/
def takeRoute (excluded : List Nat) (routes : List Network) (c : Network) : List Network :=
  if routes.length < kWgMaxPlannedRoutes then
    if c ∈ routes then routes
    else
      match c.avoid excluded with
      | none => routes
      | some left => routes ++ [left]
  else routes

def takeRoutes (excluded : List Nat) (cands : List Network) : List Network :=
  cands.foldl (takeRoute excluded) []

def networkText (b : Network) : Text := cidrText (UInt32.ofNat b.net) b.length

theorem keptOf_networkAt (ip : UInt32) {bits : Nat} (small : bits ≤ 32) :
    keptOf (networkAt ip bits) = ⟨ip &&& prefixToMask bits, bits⟩ := by
  have length : (networkAt ip bits).length = bits := Nat.min_eq_left small
  have net : (keptOf (networkAt ip bits)).net = ip &&& prefixToMask bits := by
    apply UInt32.toNat_inj.mp
    rw [keptOf_net, toNat_and_prefixToMask ip small, Block.net, Block.size, length]
    simp only [networkAt, Block.around, Nat.min_eq_left small]
  have both : keptOf (networkAt ip bits) =
      ⟨(keptOf (networkAt ip bits)).net, (networkAt ip bits).length⟩ := rfl
  rw [both, net, length]

theorem readCidr_bits_le {s : CString} {ip : UInt32} {bits : Nat}
    (read : s.bind readCidr = some (ip, bits)) : bits ≤ 32 := by
  obtain ⟨entry, rfl, text⟩ := Option.bind_eq_some_iff.mp read
  exact (readCidr_iff.mp text).bits_le

/-- The duplicate test of the candidate loop. -/
theorem any_keptOf (routes : List Network) (c : Network) :
    ((routes.map keptOf).any fun k => k.net = (keptOf c).net && k.bits = (keptOf c).bits) =
      decide (c ∈ routes) := by
  rw [List.any_map, Bool.eq_iff_iff, List.any_eq_true, decide_eq_true_eq]
  constructor
  · rintro ⟨b, member, same⟩
    simp only [Function.comp_apply, Bool.and_eq_true, decide_eq_true_eq] at same
    have equal : keptOf b = keptOf c := congrArg₂ Kept.mk same.1 same.2
    exact keptOf_injective equal ▸ member
  · intro member
    refine ⟨c, member, ?_⟩
    simp only [Function.comp_apply, decide_true, Bool.and_self]

theorem keepCandidate_keptOf (sta : Station) (routes : List Network) (entry : CString) :
    keepCandidate sta (routes.map keptOf) entry =
      some (((candidateOf entry).elim routes (takeRoute sta.excluded routes)).map keptOf) := by
  rw [keepCandidate, List.length_map, parseIpv4Cidr]
  by_cases room : routes.length < kWgMaxPlannedRoutes
  · rw [if_pos room, candidateOf]
    cases read : entry.bind readCidr with
    | none => rfl
    | some route =>
        obtain ⟨ip, bits⟩ := route
        have small := readCidr_bits_le read
        by_cases wide : bits < 8
        · simp only [if_pos wide, if_neg (Nat.not_le.mpr wide), Option.elim_none]
        · have kept := keptOf_networkAt ip small
          have net := congrArg Kept.net kept
          have length : (networkAt ip bits).length = bits := Nat.min_eq_left small
          have dup := any_keptOf routes (networkAt ip bits)
          rw [kept] at dup
          have narrowed := narrowAwayFromSta_keptOf sta (networkAt ip bits)
          rw [net, length] at narrowed
          simp only [if_neg wide, if_pos (Nat.not_lt.mp wide), Option.elim_some, takeRoute, dup,
            narrowed]
          by_cases present : networkAt ip bits ∈ routes
          · simp only [present, decide_true, if_true, if_pos room]
          · simp only [present, decide_false, Bool.false_eq_true, if_false, if_pos room]
            cases (networkAt ip bits).avoid sta.excluded with
            | none => rfl
            | some left => simp
  · rw [if_neg room]
    cases candidateOf entry with
    | none => rfl
    | some c => simp [takeRoute, room]

theorem keepCandidates_keptOf (sta : Station) (routes : List Network) (allowedIps : List CString) :
    keepCandidates sta (routes.map keptOf) allowedIps =
      some (((candidates allowedIps).foldl (takeRoute sta.excluded) routes).map keptOf) := by
  induction allowedIps generalizing routes with
  | nil => rfl
  | cons entry rest ih =>
      rw [keepCandidates, List.foldlM_cons, keepCandidate_keptOf]
      refine (ih _).trans ?_
      have more : candidates (entry :: rest) = (candidateOf entry).toList ++ candidates rest := by
        rw [candidates, List.filterMap_cons, ← candidates]
        cases candidateOf entry <;> rfl
      rw [more, List.foldl_append]
      cases candidateOf entry <;> rfl

theorem formatIpv4Cidr_keptOf (b : Network) :
    (formatIpv4Cidr (keptOf b).net (keptOf b).bits [] 20).1 = networkText b := by
  have bits : (keptOf b).bits = b.length := rfl
  rw [bits, formatIpv4Cidr_eq _ b.length_le [] (by decide)]
  rfl

/-- The plan of a readable address: the routes of its candidates, or its own network. -/
theorem planWgRoutes_eq {addressCidr : CString} {ip : UInt32} {bits : Nat}
    (read : addressCidr.bind readCidr = some (ip, bits)) (allowedIps : List CString)
    (sta : Station) :
    planWgRoutes addressCidr allowedIps sta =
      some { ok := true
             allowedCidr := (if takeRoutes sta.excluded (candidates allowedIps) = []
               then [networkAt ip bits]
               else takeRoutes sta.excluded (candidates allowedIps)).map networkText } := by
  have kept := keepCandidates_keptOf sta [] allowedIps
  rw [List.map_nil, ← takeRoutes] at kept
  rw [planWgRoutes, parseIpv4Cidr, read]
  simp only [kept, Option.map_some, List.length_eq_zero_iff, List.map_eq_nil_iff]
  have own := keptOf_networkAt ip (readCidr_bits_le read)
  by_cases empty : takeRoutes sta.excluded (candidates allowedIps) = []
  · rw [if_pos empty, if_pos empty, ← own, List.map_singleton, List.map_singleton,
      formatIpv4Cidr_keptOf]
  · rw [if_neg empty, if_neg empty, List.map_map]
    have texts : (fun k : Kept => (formatIpv4Cidr k.net k.bits [] 20).1) ∘ keptOf = networkText :=
      funext formatIpv4Cidr_keptOf
    rw [texts]

theorem planWgRoutes_unreadable {addressCidr : CString} (unread : addressCidr.bind readCidr = none)
    (allowedIps : List CString) (sta : Station) :
    planWgRoutes addressCidr allowedIps sta = some { rejectReason := text "bad_address_cidr" } := by
  rw [planWgRoutes, parseIpv4Cidr, unread]
  rfl

end FryFirmware.Wireguard
