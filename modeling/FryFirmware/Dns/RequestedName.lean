import FryFirmware.Dns.CacheProperties
import FryFirmware.Relay.Socks5Grammar
import Mathlib.Tactic.Common

/-!
# The name that was requested

A request carries its name with a length, and what the cache, the resolver and the
connect get is a C string. They are the same name unless it has a zero byte.
-/

set_option autoImplicit false

namespace FryFirmware.Dns

open Lib
open Relay

/-! ## Fields and hosts -/

/-- A name as a domain field of SOCKS5. -/
def domainField (host : Host) : List UInt8 := UInt8.ofNat host.length :: host

/-- The domain field of a request, from its length on. -/
def fieldOf (data : List UInt8) : List UInt8 := (data.drop 4).take (1 + (data.getD 4 0).toNat)

/-- The name in the domain field. -/
def nameOf (data : List UInt8) : Host := (fieldOf data).tail

/-- The request is accepted with a domain address. -/
def AcceptsDomain (data : List UInt8) (out : Socks5ConnectRequest) (consumed : Nat) : Prop :=
  (parseConnectRequest data out consumed).1 = .ok ∧ (parseConnectRequest data out consumed).2.1.addrType = .domain

instance (data : List UInt8) (out : Socks5ConnectRequest) (consumed : Nat) :
    Decidable (AcceptsDomain data out consumed) :=
  inferInstanceAs (Decidable (_ ∧ _))

def handedHost (data : List UInt8) (out : Socks5ConnectRequest) (consumed : Nat) : Host :=
  cString (parseConnectRequest data out consumed).2.1.host

theorem takeWhile_terminated (name rest : Host) :
    (name ++ 0 :: rest).takeWhile (· ≠ 0) = name.takeWhile (· ≠ 0) := by
  induction name with
  | nil => rfl
  | cons letter name ih =>
      rw [List.cons_append, List.takeWhile_cons, List.takeWhile_cons, ih]

/-- What a C string keeps of the name that was copied into it. -/
theorem cString_store (memory : Memory UInt8 hostSize) {name : Host} (fits : name.length < hostSize) :
    cString (memory.store 0 (name ++ [0])) = name.takeWhile (· ≠ 0) := by
  have whole : (name ++ [0]).take (hostSize - 0) = name ++ [0] :=
    List.take_of_length_le (by simp; omega)
  have cells : (memory.store 0 (name ++ [0])).cells =
      name ++ 0 :: memory.cells.drop (0 + (name ++ [0]).length) := by
    simp only [Memory.store]
    rw [whole, List.take_zero, List.nil_append, List.append_assoc, List.singleton_append]
  rw [cString, cells, takeWhile_terminated]

/-- A name is kept whole exactly where it has no zero byte. -/
theorem takeWhile_whole_iff {name : Host} : name.takeWhile (· ≠ 0) = name ↔ 0 ∉ name := by
  induction name with
  | nil => simp
  | cons letter name ih =>
      by_cases zero : letter = 0
      · simp [zero]
      · simpa [zero, Ne.symm zero] using ih

/-! ## Accepted requests -/

/-- The request for this name, with what else the client sent. -/
inductive Requests (name : Host) : List UInt8 → Prop where
  | intro {rsv dlen high low : UInt8} {rest : List UInt8} (length : name.length = dlen.toNat) :
      Requests name (0x05 :: 0x01 :: rsv :: 0x03 :: dlen :: (name ++ [high, low]) ++ rest)

theorem Requests.field {name : Host} {data : List UInt8} (requests : Requests name data) :
    fieldOf data = domainField name ∧ name.length < hostSize := by
  obtain ⟨length⟩ := requests
  rename_i rsv dlen high low rest
  have small : dlen.toNat < hostSize := dlen.toNat_lt
  refine ⟨?_, by omega⟩
  have same : UInt8.ofNat name.length = dlen := by rw [length, UInt8.ofNat_toNat]
  simp [fieldOf, domainField, same, ← length, Nat.add_comm 1]

theorem Requests.host {name : Host} {data : List UInt8} (requests : Requests name data)
    (out : Socks5ConnectRequest) (consumed : Nat) : handedHost data out consumed = name.takeWhile (· ≠ 0) := by
  have fits := requests.field.2
  obtain ⟨length⟩ := requests
  rename_i rsv dlen high low rest
  have parsed := parseConnectRequest_domain rsv length high low out consumed
  have more := parseConnectRequest_append (by rw [parsed]; nofun) rest
  unfold handedHost
  rw [more, parsed]
  exact cString_store out.host fits

theorem accepts_requests {data : List UInt8} {out : Socks5ConnectRequest} {consumed : Nat}
    (accepts : AcceptsDomain data out consumed) : ∃ name, Requests name data := by
  obtain ⟨accepted, domain⟩ := accepts
  obtain ⟨waits, -⟩ | ⟨request, rest, req, rfl, isRequest, -⟩ | ⟨_, rejected, other, -⟩ :=
    parseConnectRequest_cases data out consumed
  · rw [waits] at accepted
    cases accepted
  · cases isRequest with
    | @ipv4 rsv address length =>
        match address, length with
        | [a, b, c, d, high, low], _ =>
            have parsed := parseConnectRequest_ipv4 rsv a b c d high low out consumed
            rw [parseConnectRequest_append (by rw [parsed]; nofun), parsed] at domain
            cases domain
    | @domain rsv dlen field length =>
        obtain ⟨name, high, low, rfl⟩ := split_last length
        exact ⟨name, .intro (by simpa using length)⟩
  · rw [rejected] at accepted
    exact absurd accepted other

/-! ## The name of a request -/

/-- The host is the requested name, and two names that are not the same are two hosts, exactly
for names without a zero byte. -/
theorem requested_name_iff (data data' : List UInt8) (out out' : Socks5ConnectRequest) (consumed consumed' : Nat)
    (accepts : AcceptsDomain data out consumed) (accepts' : AcceptsDomain data' out' consumed') :
    (domainField (handedHost data out consumed) = fieldOf data ∧
        domainField (handedHost data' out' consumed') = fieldOf data' ∧
        (dnsHostEq (handedHost data out consumed) (handedHost data' out' consumed') = true →
          foldHost (nameOf data) = foldHost (nameOf data'))) ↔
      0 ∉ nameOf data ∧ 0 ∉ nameOf data' := by
  obtain ⟨name, requests⟩ := accepts_requests accepts
  obtain ⟨name', requests'⟩ := accepts_requests accepts'
  have named : nameOf data = name := by rw [nameOf, requests.field.1, domainField, List.tail_cons]
  have named' : nameOf data' = name' := by rw [nameOf, requests'.field.1, domainField, List.tail_cons]
  rw [named, named', requests.field.1, requests'.field.1, requests.host, requests'.host, dnsHostEq_iff]
  constructor
  · rintro ⟨same, same', -⟩
    exact ⟨takeWhile_whole_iff.mp (List.cons_eq_cons.mp same).2, takeWhile_whole_iff.mp (List.cons_eq_cons.mp same').2⟩
  · rintro ⟨clear, clear'⟩
    rw [takeWhile_whole_iff.mpr clear, takeWhile_whole_iff.mpr clear']
    exact ⟨rfl, rfl, id⟩

/-- Requests for a name, and for one with a zero byte behind the same first letter. -/
def plainRequest : List UInt8 := [5, 1, 0, 3, 1, 97, 0, 80]
def zeroRequest : List UInt8 := [5, 1, 0, 3, 3, 97, 0, 98, 0, 80]

theorem requested_name_plain :
    domainField (handedHost plainRequest {} 0) = fieldOf plainRequest :=
  ((requested_name_iff plainRequest plainRequest {} {} 0 0 (by decide +kernel) (by decide +kernel)).mpr
    (by decide +kernel)).1

/-- The name with the zero byte is cut there, and taken for the other one. -/
theorem zero_byte_cuts_name :
    AcceptsDomain plainRequest {} 0 ∧ AcceptsDomain zeroRequest {} 0 ∧
      domainField (handedHost zeroRequest {} 0) ≠ fieldOf zeroRequest ∧
      dnsHostEq (handedHost plainRequest {} 0) (handedHost zeroRequest {} 0) = true ∧
      foldHost (nameOf plainRequest) ≠ foldHost (nameOf zeroRequest) := by
  decide +kernel

end FryFirmware.Dns
