import FryFirmware.Relay.Socks5Properties
import Mathlib.Tactic.Common

/-!
# The grammar of the SOCKS5 parsers

Which byte strings the parsers accept, that they read only bytes they were given, and
that an answer is final. For the reads each parser is repeated here with every access
of the array checked.
-/

set_option autoImplicit false

namespace FryFirmware.Relay

open Lib

/-! ## Checked reads -/

namespace Checked

/-- The loop over the methods, which stops at the first `0x00`. -/
def offersNoAuth (data : List UInt8) : Nat → Nat → Option Bool
  | 0, _ => some false
  | count + 1, i => do
      let method ← data[2 + i]?
      if method = 0x00 then some true else offersNoAuth data count (i + 1)

def parseGreeting (data : List UInt8) (out : Socks5Greeting) (consumed : Nat) :
    Option (Socks5Result × Socks5Greeting × Nat) :=
  if data.length < 2 then some (.needMoreData, out, consumed)
  else do
    let version ← data[0]?
    let nmethods ← data[1]?
    if data.length < 2 + nmethods.toNat then some (.needMoreData, out, consumed)
    else if version ≠ 0x05 then some (.malformed, out, consumed)
    else do
      let noAuth ← offersNoAuth data nmethods.toNat 0
      some (if noAuth then .ok else .unsupportedMethod, ⟨version, nmethods, noAuth⟩, 2 + nmethods.toNat)

def name (data : List UInt8) : Nat → Nat → Option (List UInt8)
  | 0, _ => some []
  | count + 1, i => do
      let letter ← data[5 + i]?
      let rest ← name data count (i + 1)
      some (letter :: rest)

def parseConnectRequest (data : List UInt8) (out : Socks5ConnectRequest) (consumed : Nat) :
    Option (Socks5Result × Socks5ConnectRequest × Nat) :=
  if data.length < 4 then some (.needMoreData, out, consumed)
  else do
    let version ← data[0]?
    let command ← data[1]?
    let atyp ← data[3]?
    if version ≠ 0x05 then some (.malformed, out, consumed)
    else if command ≠ 0x01 then some (.unsupportedCommand, out, consumed)
    else if atyp = Socks5AddrType.ipv4.code then
      if data.length < 10 then some (.needMoreData, out, consumed)
      else do
        let a ← data[4]?
        let b ← data[5]?
        let c ← data[6]?
        let d ← data[7]?
        let high ← data[8]?
        let low ← data[9]?
        some (.ok,
          { version, command
            addrType := .ipv4
            host := out.host.store 0 (dottedText a b c d ++ [0])
            port := networkPort high low },
          10)
    else if atyp = Socks5AddrType.domain.code then
      if data.length < 5 then some (.needMoreData, out, consumed)
      else do
        let dlen ← data[4]?
        if data.length < 4 + 1 + dlen.toNat + 2 then some (.needMoreData, out, consumed)
        else if dlen.toNat ≥ hostSize then some (.malformed, out, consumed)
        else do
          let text ← name data dlen.toNat 0
          let high ← data[5 + dlen.toNat]?
          let low ← data[6 + dlen.toNat]?
          some (.ok,
            { version, command
              addrType := .domain
              host := out.host.store 0 (text ++ [0])
              port := networkPort high low },
            4 + 1 + dlen.toNat + 2)
    else some (.unsupportedAddrType, out, consumed)

end Checked

variable {data : List UInt8}

theorem read_inside {i : Nat} (inside : i < data.length) : data[i]? = some (data.getD i 0) := by
  simp [List.getD_eq_getElem?_getD, inside]

theorem read_bind {α : Type} {i : Nat} (inside : i < data.length) (next : UInt8 → Option α) :
    (data[i]? >>= next) = next (data.getD i 0) := by
  rw [read_inside inside]
  rfl

/-- A checked branch, when each side is the unchecked one. -/
theorem some_ite {α : Type} {c : Prop} [Decidable c] {front back : Option α} {x y : α}
    (yes : c → front = some x) (no : ¬ c → back = some y) :
    (if c then front else back) = some (if c then x else y) := by
  split
  · next holds => exact yes holds
  · next fails => exact no fails

theorem checked_offersNoAuth {count i : Nat} (inside : 2 + i + count ≤ data.length) :
    Checked.offersNoAuth data count i = some (((data.drop (2 + i)).take count).any (· == 0x00)) := by
  induction count generalizing i with
  | zero => rfl
  | succ count ih =>
      have here : 2 + i < data.length := by omega
      have next := ih (i := i + 1) (by omega)
      have cell : data.drop (2 + i) = data.getD (2 + i) 0 :: data.drop (2 + (i + 1)) := by
        rw [List.drop_eq_getElem_cons here]
        simp [List.getD_eq_getElem?_getD, here, Nat.add_assoc]
      rw [Checked.offersNoAuth, read_inside here, cell]
      simp only [Option.bind_eq_bind, Option.bind_some, List.take_succ_cons, List.any_cons]
      generalize data.getD (2 + i) 0 = method
      split
      · next zero => simp [zero]
      · next other => simp [next, other]

theorem checked_name {count i : Nat} (inside : 5 + i + count ≤ data.length) :
    Checked.name data count i = some ((data.drop (5 + i)).take count) := by
  induction count generalizing i with
  | zero => rfl
  | succ count ih =>
      have here : 5 + i < data.length := by omega
      have next := ih (i := i + 1) (by omega)
      have cell : data.drop (5 + i) = data.getD (5 + i) 0 :: data.drop (5 + (i + 1)) := by
        rw [List.drop_eq_getElem_cons here]
        simp [List.getD_eq_getElem?_getD, here, Nat.add_assoc]
      rw [Checked.name, read_inside here, cell]
      simp [next]

/-- The greeting parser reads only what it was given. -/
theorem checked_parseGreeting (data : List UInt8) (out : Socks5Greeting) (consumed : Nat) :
    Checked.parseGreeting data out consumed = some (parseGreeting data out consumed) := by
  unfold Checked.parseGreeting parseGreeting
  refine some_ite (fun _ => rfl) fun long => ?_
  rw [read_bind (by omega), read_bind (by omega)]
  dsimp only
  refine some_ite (fun _ => rfl) fun whole => some_ite (fun _ => rfl) fun _ => ?_
  rw [checked_offersNoAuth (by omega)]
  rfl

/-- So does the request parser. -/
theorem checked_parseConnectRequest (data : List UInt8) (out : Socks5ConnectRequest) (consumed : Nat) :
    Checked.parseConnectRequest data out consumed = some (parseConnectRequest data out consumed) := by
  unfold Checked.parseConnectRequest parseConnectRequest
  refine some_ite (fun _ => rfl) fun long => ?_
  rw [read_bind (by omega), read_bind (by omega), read_bind (by omega)]
  dsimp only
  refine some_ite (fun _ => rfl) fun _ => some_ite (fun _ => rfl) fun _ =>
    some_ite (fun _ => ?ipv4) fun _ => some_ite (fun _ => ?domain) fun _ => rfl
  case ipv4 =>
    refine some_ite (fun _ => rfl) fun whole => ?_
    rw [read_bind (by omega), read_bind (by omega), read_bind (by omega), read_bind (by omega),
      read_bind (by omega), read_bind (by omega)]
  case domain =>
    refine some_ite (fun _ => rfl) fun named => ?_
    rw [read_bind (by omega)]
    refine some_ite (fun _ => rfl) fun whole => some_ite (fun _ => rfl) fun _ => ?_
    rw [checked_name (by omega), Option.bind_eq_bind, Option.bind_some, read_bind (by omega),
      read_bind (by omega)]

/-! ## The grammar -/

theorem networkPort_toNat (high low : UInt8) : (networkPort high low).toNat = high.toNat * 256 + low.toNat := by
  have highBound := high.toNat_lt
  have lowBound := low.toNat_lt
  have shifted : high.toNat <<< 8 % 2 ^ 16 = high.toNat <<< 8 :=
    Nat.mod_eq_of_lt (by rw [Nat.shiftLeft_eq]; omega)
  have disjoint := Nat.shiftLeft_add_eq_or_of_lt (show low.toNat < 2 ^ 8 by omega) high.toNat
  simp only [networkPort, UInt16.toNat_or, UInt16.toNat_shiftLeft, UInt8.toNat_toUInt16]
  rw [show (8 : UInt16).toNat % 16 = 8 from rfl, shifted, ← disjoint, Nat.shiftLeft_eq]

theorem parseConnectRequest_ipv4 (rsv a b c d high low : UInt8) (out : Socks5ConnectRequest)
    (consumed : Nat) :
    parseConnectRequest [0x05, 0x01, rsv, 0x01, a, b, c, d, high, low] out consumed =
      (.ok,
        { version := 5, command := 1, addrType := .ipv4
          host := out.host.store 0 (dottedText a b c d ++ [0])
          port := networkPort high low },
        10) := rfl

theorem parseConnectRequest_domain (rsv : UInt8) {dlen : UInt8} {name : List UInt8}
    (length : name.length = dlen.toNat) (high low : UInt8) (out : Socks5ConnectRequest) (consumed : Nat) :
    parseConnectRequest (0x05 :: 0x01 :: rsv :: 0x03 :: dlen :: (name ++ [high, low])) out consumed =
      (.ok,
        { version := 5, command := 1, addrType := .domain
          host := out.host.store 0 (name ++ [0])
          port := networkPort high low },
        4 + 1 + dlen.toNat + 2) := by
  have small : dlen.toNat < hostSize := dlen.toNat_lt
  have lastHigh : (0x05 :: 0x01 :: rsv :: 0x03 :: dlen :: (name ++ [high, low])).getD (5 + dlen.toNat) 0 = high := by
    rw [← length, Nat.add_comm]
    simp [List.getD_eq_getElem?_getD]
  have lastLow : (0x05 :: 0x01 :: rsv :: 0x03 :: dlen :: (name ++ [high, low])).getD (6 + dlen.toNat) 0 = low := by
    rw [← length, show 6 + name.length = name.length + 1 + 5 by omega]
    simp [List.getD_eq_getElem?_getD]
  have whole : (0x05 :: 0x01 :: rsv :: 0x03 :: dlen :: (name ++ [high, low])).length = 4 + 1 + dlen.toNat + 2 := by
    simp [length]
    omega
  have copied : ((0x05 :: 0x01 :: rsv :: 0x03 :: dlen :: (name ++ [high, low])).drop 5).take dlen.toNat = name := by
    simp [← length]
  have version : (0x05 :: 0x01 :: rsv :: 0x03 :: dlen :: (name ++ [high, low])).getD 0 0 = 5 := rfl
  have command : (0x05 :: 0x01 :: rsv :: 0x03 :: dlen :: (name ++ [high, low])).getD 1 0 = 1 := rfl
  have atyp : (0x05 :: 0x01 :: rsv :: 0x03 :: dlen :: (name ++ [high, low])).getD 3 0 = 3 := rfl
  have named : (0x05 :: 0x01 :: rsv :: 0x03 :: dlen :: (name ++ [high, low])).getD 4 0 = dlen := rfl
  rw [parseConnectRequest, if_neg (by omega)]
  dsimp only
  rw [version, command, atyp, named, lastHigh, lastLow, copied, if_neg (by decide), if_neg (by decide),
    if_neg (by decide), if_pos (show (3 : UInt8) = Socks5AddrType.domain.code from rfl), if_neg (by omega),
    if_neg (by omega), if_neg (by omega)]

theorem split_last {field : List UInt8} {count : Nat} (length : field.length = count + 2) :
    ∃ name high low, field = name ++ [high, low] := by
  have split := List.take_append_drop count field
  have two : (field.drop count).length = 2 := by simp [length]
  match rest : field.drop count, two with
  | [high, low], _ => exact ⟨field.take count, high, low, by rw [← rest, split]⟩

/-- The port is the last two bytes, the higher one first. -/
def PortOf (request : List UInt8) (port : UInt16) : Prop :=
  ∃ front high low, request = front ++ [high, low] ∧ port.toNat = high.toNat * 256 + low.toNat

/-- A request is accepted whole. -/
theorem IsConnectRequest.parsed {request : List UInt8} (isRequest : IsConnectRequest request)
    (out : Socks5ConnectRequest) (consumed : Nat) :
    ∃ req, parseConnectRequest request out consumed = (.ok, req, request.length) ∧ PortOf request req.port := by
  cases isRequest with
  | @ipv4 rsv address length =>
      obtain ⟨a, b, c, d, high, low, rfl⟩ : ∃ a b c d high low, address = [a, b, c, d, high, low] := by
        match address, length with
        | [a, b, c, d, high, low], _ => exact ⟨a, b, c, d, high, low, rfl⟩
      exact ⟨_, parseConnectRequest_ipv4 rsv a b c d high low out consumed,
        [0x05, 0x01, rsv, 0x01, a, b, c, d], high, low, rfl, networkPort_toNat high low⟩
  | @domain rsv dlen field length =>
      obtain ⟨name, high, low, rfl⟩ := split_last length
      have length : name.length = dlen.toNat := by simpa using length
      have whole : (0x05 :: 0x01 :: rsv :: 0x03 :: dlen :: (name ++ [high, low])).length =
          4 + 1 + dlen.toNat + 2 := by
        simp [length]
        omega
      rw [whole]
      exact ⟨_, parseConnectRequest_domain rsv length high low out consumed,
        0x05 :: 0x01 :: rsv :: 0x03 :: dlen :: name, high, low, rfl, networkPort_toNat high low⟩

/-- Appending zeros completes a greeting or a request that waits. -/
theorem parseGreeting_completes {out : Socks5Greeting} {consumed : Nat} (data : List UInt8) :
    (parseGreeting (data ++ List.replicate 257 0) out consumed).1 ≠ .needMoreData := by
  intro waits
  obtain ⟨-, short⟩ | ⟨_, _, _, _, _, accepted⟩ | ⟨_, _, _, rejected, _, decided⟩ :=
    parseGreeting_cases (data ++ List.replicate 257 0) out consumed
  · rw [List.length_append, List.length_replicate] at short
    omega
  · rw [accepted] at waits
    cases waits
  · rw [rejected] at waits
    exact decided waits

theorem parseConnectRequest_completes {out : Socks5ConnectRequest} {consumed : Nat} (data : List UInt8) :
    (parseConnectRequest (data ++ List.replicate 262 0) out consumed).1 ≠ .needMoreData := by
  intro waits
  obtain ⟨-, short⟩ | ⟨_, _, _, _, _, accepted⟩ | ⟨_, rejected, _, decided⟩ :=
    parseConnectRequest_cases (data ++ List.replicate 262 0) out consumed
  · rw [List.length_append, List.length_replicate] at short
    omega
  · rw [accepted] at waits
    cases waits
  · rw [rejected] at waits
    exact decided waits

/-- What holds of the answer to a greeting. -/
structure GreetingLaw (data : List UInt8) (out : Socks5Greeting) (consumed : Nat) : Prop where
  accepts : (parseGreeting data out consumed).1 = .ok ↔ ∃ greeting rest, IsGreeting greeting ∧ data = greeting ++ rest
  length : ∀ nmethods methods rest, data = 0x05 :: nmethods :: (methods ++ rest) →
    methods.length = nmethods.toNat → 0x00 ∈ methods →
      (parseGreeting data out consumed).2.2 = 2 + nmethods.toNat
  inside : Checked.parseGreeting data out consumed = some (parseGreeting data out consumed)
  stable : (parseGreeting data out consumed).1 ≠ .needMoreData → ∀ more,
    parseGreeting (data ++ more) out consumed = parseGreeting data out consumed
  completes : ∃ more, (parseGreeting (data ++ more) out consumed).1 ≠ .needMoreData

/-- What holds of the answer to a request. -/
structure RequestLaw (data : List UInt8) (out : Socks5ConnectRequest) (consumed : Nat) : Prop where
  accepts : (parseConnectRequest data out consumed).1 = .ok ↔
    ∃ request rest, IsConnectRequest request ∧ data = request ++ rest
  length : ∀ request rest, data = request ++ rest → IsConnectRequest request →
    (parseConnectRequest data out consumed).2.2 = request.length ∧
      PortOf request (parseConnectRequest data out consumed).2.1.port
  inside : Checked.parseConnectRequest data out consumed = some (parseConnectRequest data out consumed)
  stable : (parseConnectRequest data out consumed).1 ≠ .needMoreData → ∀ more,
    parseConnectRequest (data ++ more) out consumed = parseConnectRequest data out consumed
  completes : ∃ more, (parseConnectRequest (data ++ more) out consumed).1 ≠ .needMoreData

theorem parseGreeting_accepted {greeting : List UInt8} (isGreeting : IsGreeting greeting) (rest : List UInt8)
    (out : Socks5Greeting) (consumed : Nat) :
    ∃ info, parseGreeting (greeting ++ rest) out consumed = (.ok, info, greeting.length) := by
  obtain ⟨info, parsed⟩ := isGreeting.parsed out consumed
  refine ⟨info, ?_⟩
  rw [parseGreeting_append (by rw [parsed]; nofun), parsed]

theorem parseConnectRequest_accepted {request : List UInt8} (isRequest : IsConnectRequest request)
    (rest : List UInt8) (out : Socks5ConnectRequest) (consumed : Nat) :
    ∃ req, parseConnectRequest (request ++ rest) out consumed = (.ok, req, request.length) ∧
      PortOf request req.port := by
  obtain ⟨req, parsed, port⟩ := isRequest.parsed out consumed
  refine ⟨req, ?_, port⟩
  rw [parseConnectRequest_append (by rw [parsed]; nofun), parsed]

/-- The parsers accept exactly the greetings and the requests, read nothing behind their
input, and give a final answer as soon as they give one. -/
theorem socks5_parsers (data : List UInt8) (greeting : Socks5Greeting) (request : Socks5ConnectRequest)
    (consumed : Nat) : GreetingLaw data greeting consumed ∧ RequestLaw data request consumed := by
  refine ⟨⟨⟨fun accepted => ?_, ?_⟩, ?_, checked_parseGreeting data greeting consumed, parseGreeting_append,
    ⟨_, parseGreeting_completes data⟩⟩, ⟨⟨fun accepted => ?_, ?_⟩, ?_,
    checked_parseConnectRequest data request consumed, parseConnectRequest_append,
    ⟨_, parseConnectRequest_completes data⟩⟩⟩
  · obtain ⟨waits, -⟩ | ⟨front, rest, _, same, isGreeting, -⟩ | ⟨_, _, _, rejected, other, -⟩ :=
      parseGreeting_cases data greeting consumed
    · rw [waits] at accepted
      cases accepted
    · exact ⟨front, rest, isGreeting, same⟩
    · rw [rejected] at accepted
      exact absurd accepted other
  · rintro ⟨front, rest, isGreeting, rfl⟩
    obtain ⟨info, parsed⟩ := parseGreeting_accepted isGreeting rest greeting consumed
    rw [parsed]
  · rintro nmethods methods rest rfl length noAuth
    obtain ⟨info, parsed⟩ := parseGreeting_accepted (.intro length noAuth) rest greeting consumed
    have parsed : parseGreeting (0x05 :: nmethods :: (methods ++ rest)) greeting consumed = _ := parsed
    rw [parsed, ← length]
    simp only [List.length_cons]
    omega
  · obtain ⟨waits, -⟩ | ⟨front, rest, _, same, isRequest, -⟩ | ⟨_, rejected, other, -⟩ :=
      parseConnectRequest_cases data request consumed
    · rw [waits] at accepted
      cases accepted
    · exact ⟨front, rest, isRequest, same⟩
    · rw [rejected] at accepted
      exact absurd accepted other
  · rintro ⟨front, rest, isRequest, rfl⟩
    obtain ⟨req, parsed, -⟩ := parseConnectRequest_accepted isRequest rest request consumed
    rw [parsed]
  · rintro front rest rfl isRequest
    obtain ⟨req, parsed, port⟩ := parseConnectRequest_accepted isRequest rest request consumed
    rw [parsed]
    exact ⟨rfl, port⟩

end FryFirmware.Relay
