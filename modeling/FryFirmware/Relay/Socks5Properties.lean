import FryFirmware.Relay.Socks5

/-!
# What the SOCKS5 parsers accept

The two messages of the handshake as byte strings, and the parsers' answers in
terms of them.
-/

set_option autoImplicit false

namespace FryFirmware.Relay

open Lib

/-- `VER | NMETHODS | METHODS` with the no-authentication method among them. -/
inductive IsGreeting : List UInt8 → Prop where
  | intro {nmethods : UInt8} {methods : List UInt8}
      (length : methods.length = nmethods.toNat) (noAuth : (0x00 : UInt8) ∈ methods) :
      IsGreeting (0x05 :: nmethods :: methods)

/-- A CONNECT request for an IPv4 address or a domain name. -/
inductive IsConnectRequest : List UInt8 → Prop where
  | ipv4 {rsv : UInt8} {address : List UInt8} (length : address.length = 6) :
      IsConnectRequest (0x05 :: 0x01 :: rsv :: 0x01 :: address)
  | domain {rsv dlen : UInt8} {name : List UInt8} (length : name.length = dlen.toNat + 2) :
      IsConnectRequest (0x05 :: 0x01 :: rsv :: 0x03 :: dlen :: name)

/-- `payload` is the client's stream without its greeting and its request. -/
def StripsHandshake (stream payload : List UInt8) : Prop :=
  ∃ greeting request, IsGreeting greeting ∧ IsConnectRequest request ∧
    stream = greeting ++ request ++ payload

/-- Two greetings that start one stream are the same greeting. -/
theorem IsGreeting.unique {left right leftRest rightRest : List UInt8}
    (leftGreeting : IsGreeting left) (rightGreeting : IsGreeting right)
    (same : left ++ leftRest = right ++ rightRest) : left = right := by
  obtain ⟨leftLength, _⟩ := leftGreeting
  obtain ⟨rightLength, _⟩ := rightGreeting
  simp only [List.cons_append, List.cons.injEq, true_and] at same
  obtain ⟨rfl, tails⟩ := same
  rw [List.append_inj_left tails (leftLength.trans rightLength.symm)]

theorem IsConnectRequest.unique {left right leftRest rightRest : List UInt8}
    (leftRequest : IsConnectRequest left) (rightRequest : IsConnectRequest right)
    (same : left ++ leftRest = right ++ rightRest) : left = right := by
  cases leftRequest with
  | ipv4 leftLength =>
      cases rightRequest with
      | ipv4 rightLength =>
          simp only [List.cons_append, List.cons.injEq, true_and] at same
          obtain ⟨rfl, tails⟩ := same
          rw [List.append_inj_left tails (leftLength.trans rightLength.symm)]
      | domain rightLength =>
          simp only [List.cons_append, List.cons.injEq, true_and] at same
          exact absurd same.2.1 (by decide)
  | domain leftLength =>
      cases rightRequest with
      | ipv4 rightLength =>
          simp only [List.cons_append, List.cons.injEq, true_and] at same
          exact absurd same.2.1 (by decide)
      | domain rightLength =>
          simp only [List.cons_append, List.cons.injEq, true_and] at same
          obtain ⟨rfl, rfl, tails⟩ := same
          rw [List.append_inj_left tails (leftLength.trans rightLength.symm)]

/-- The stream determines the payload, so stripping removes exactly the
greeting and the request. -/
theorem StripsHandshake.unique {stream left right : List UInt8}
    (leftStrips : StripsHandshake stream left) (rightStrips : StripsHandshake stream right) :
    left = right := by
  obtain ⟨leftGreeting, leftRequest, leftIsGreeting, leftIsRequest, rfl⟩ := leftStrips
  obtain ⟨rightGreeting, rightRequest, rightIsGreeting, rightIsRequest, same⟩ := rightStrips
  simp only [List.append_assoc] at same
  obtain rfl := leftIsGreeting.unique rightIsGreeting same
  have tails := List.append_cancel_left same
  obtain rfl := leftIsRequest.unique rightIsRequest tails
  exact List.append_cancel_left tails

/-- More bytes from the client only extend the payload. -/
theorem StripsHandshake.append {stream payload : List UInt8}
    (strips : StripsHandshake stream payload) (more : List UInt8) :
    StripsHandshake (stream ++ more) (payload ++ more) := by
  obtain ⟨greeting, request, isGreeting, isRequest, rfl⟩ := strips
  exact ⟨greeting, request, isGreeting, isRequest, by simp only [List.append_assoc]⟩

/-- The three ways a greeting is answered: it waits for more of at most 257
bytes, it consumes exactly a greeting, or it rejects. -/
theorem parseGreeting_cases (data : List UInt8) (out : Socks5Greeting) (consumed : Nat) :
    (parseGreeting data out consumed = (.needMoreData, out, consumed) ∧ data.length ≤ 256) ∨
    (∃ greeting rest info, data = greeting ++ rest ∧ IsGreeting greeting ∧
      parseGreeting data out consumed = (.ok, info, greeting.length)) ∨
    (∃ result info used, parseGreeting data out consumed = (result, info, used) ∧
      result ≠ .ok ∧ result ≠ .needMoreData) := by
  match data with
  | [] => exact .inl ⟨rfl, by simp⟩
  | [_] => exact .inl ⟨rfl, by simp⟩
  | version :: nmethods :: tail =>
      have small : nmethods.toNat < 256 := nmethods.toNat_lt
      simp only [parseGreeting, List.length_cons, List.getD_cons_zero, List.getD_cons_succ,
        List.drop_succ_cons, List.drop_zero]
      rw [if_neg (by omega)]
      by_cases short : tail.length + 1 + 1 < 2 + nmethods.toNat
      · exact .inl ⟨if_pos short, by omega⟩
      rw [if_neg short]
      by_cases wrong : version ≠ 5
      · exact .inr (.inr ⟨_, _, _, if_pos wrong, by simp, by simp⟩)
      rw [if_neg wrong]
      obtain rfl : version = 5 := not_not.mp wrong
      by_cases offered : (tail.take nmethods.toNat).any (· == 0x00) = true
      · refine .inr (.inl ⟨5 :: nmethods :: tail.take nmethods.toNat, tail.drop nmethods.toNat,
          ⟨5, nmethods, true⟩, by simp, ?_, ?_⟩)
        · refine .intro (by rw [List.length_take]; omega) ?_
          obtain ⟨method, member, zero⟩ := List.any_eq_true.mp offered
          exact beq_iff_eq.mp zero ▸ member
        · have length : 2 + nmethods.toNat =
              (5 :: nmethods :: tail.take nmethods.toNat).length := by
            simp only [List.length_cons, List.length_take]
            omega
          rw [offered, length]
          rfl
      · refine .inr (.inr ⟨_, _, _, rfl, ?_, ?_⟩) <;> simp [offered]

private theorem request_ipv4 {data : List UInt8} (long : ¬ data.length < 10)
    (version : ¬ data.getD 0 0 ≠ 5) (command : ¬ data.getD 1 0 ≠ 1)
    (atyp : data.getD 3 0 = 1) :
    ∃ request rest, data = request ++ rest ∧ IsConnectRequest request ∧ request.length = 10 := by
  match data with
  | a :: b :: c :: d :: tail =>
      simp only [List.length_cons, List.getD_cons_zero, List.getD_cons_succ, not_not]
        at long version command atyp
      subst version command atyp
      have six : (tail.take 6).length = 6 := by rw [List.length_take]; omega
      exact ⟨5 :: 1 :: c :: 1 :: tail.take 6, tail.drop 6, by simp, .ipv4 six, by simp [six]⟩
  | [] | [_] | [_, _] | [_, _, _] => simp at long

private theorem request_domain {data : List UInt8}
    (long : ¬ data.length < 4 + 1 + (data.getD 4 0).toNat + 2)
    (version : ¬ data.getD 0 0 ≠ 5) (command : ¬ data.getD 1 0 ≠ 1)
    (atyp : data.getD 3 0 = 3) :
    ∃ request rest, data = request ++ rest ∧ IsConnectRequest request ∧
      request.length = 4 + 1 + (data.getD 4 0).toNat + 2 := by
  match data with
  | a :: b :: c :: d :: e :: tail =>
      simp only [List.length_cons, List.getD_cons_zero, List.getD_cons_succ, not_not]
        at long version command atyp ⊢
      subst version command atyp
      have named : (tail.take (e.toNat + 2)).length = e.toNat + 2 := by
        rw [List.length_take]
        omega
      refine ⟨5 :: 1 :: c :: 3 :: e :: tail.take (e.toNat + 2), tail.drop (e.toNat + 2),
        by simp, .domain named, ?_⟩
      simp only [List.length_cons, named]
      omega
  | [] | [_] | [_, _] | [_, _, _] | [_, _, _, _] => simp at long

/-- The three ways a request is answered. Only an accepted request writes the
output parameters, and a waiting parser holds at most 261 bytes. -/
theorem parseConnectRequest_cases (data : List UInt8) (out : Socks5ConnectRequest)
    (consumed : Nat) :
    (parseConnectRequest data out consumed = (.needMoreData, out, consumed) ∧
      data.length ≤ 261) ∨
    (∃ request rest req, data = request ++ rest ∧ IsConnectRequest request ∧
      parseConnectRequest data out consumed = (.ok, req, request.length)) ∨
    (∃ result, parseConnectRequest data out consumed = (result, out, consumed) ∧
      result ≠ .ok ∧ result ≠ .needMoreData) := by
  have small : (data.getD 4 0).toNat < 256 := (data.getD 4 0).toNat_lt
  by_cases short : data.length < 4
  · exact .inl ⟨if_pos short, by omega⟩
  rw [parseConnectRequest, if_neg short]
  by_cases version : data.getD 0 0 ≠ 5
  · exact .inr (.inr ⟨_, if_pos version, by decide, by decide⟩)
  rw [if_neg version]
  by_cases command : data.getD 1 0 ≠ 1
  · exact .inr (.inr ⟨_, if_pos command, by decide, by decide⟩)
  rw [if_neg command]
  by_cases ipv4 : data.getD 3 0 = Socks5AddrType.ipv4.code
  · rw [if_pos ipv4]
    by_cases cut : data.length < 4 + 4 + 2
    · exact .inl ⟨if_pos cut, by omega⟩
    rw [if_neg cut]
    obtain ⟨request, rest, same, accepted, length⟩ := request_ipv4 cut version command ipv4
    exact .inr (.inl ⟨request, rest, _, same, accepted, by rw [length]⟩)
  rw [if_neg ipv4]
  by_cases domain : data.getD 3 0 = Socks5AddrType.domain.code
  · rw [if_pos domain]
    by_cases unnamed : data.length < 5
    · exact .inl ⟨if_pos unnamed, by omega⟩
    rw [if_neg unnamed]
    by_cases cut : data.length < 4 + 1 + (data.getD 4 0).toNat + 2
    · exact .inl ⟨if_pos cut, by omega⟩
    rw [if_neg cut]
    by_cases wide : (data.getD 4 0).toNat ≥ hostSize
    · exact .inr (.inr ⟨_, if_pos wide, by decide, by decide⟩)
    rw [if_neg wide]
    obtain ⟨request, rest, same, accepted, length⟩ := request_domain cut version command domain
    exact .inr (.inl ⟨request, rest, _, same, accepted, by rw [length]⟩)
  · exact .inr (.inr ⟨_, if_neg domain, by decide, by decide⟩)

private theorem getD_append {data : List UInt8} (more : List UInt8) {index : Nat} (inside : index < data.length) :
    (data ++ more).getD index 0 = data.getD index 0 := by
  simp [List.getD_eq_getElem?_getD, List.getElem?_append_left inside]

private theorem part_append {data : List UInt8} (more : List UInt8) (start : Nat) {count : Nat}
    (inside : start + count ≤ data.length) :
    ((data ++ more).drop start).take count = (data.drop start).take count := by
  rw [List.drop_append_of_le_length (by omega), List.take_append_of_le_length (by simp; omega)]

/-- A greeting that is answered is answered alike whatever follows it. -/
theorem parseGreeting_append {data : List UInt8} {out : Socks5Greeting} {consumed : Nat}
    (decided : (parseGreeting data out consumed).1 ≠ .needMoreData) (more : List UInt8) :
    parseGreeting (data ++ more) out consumed = parseGreeting data out consumed := by
  have header : ¬ data.length < 2 := fun short => decided (by rw [parseGreeting, if_pos short])
  have whole : ¬ data.length < 2 + (data.getD 1 0).toNat := fun short =>
    decided (by simp only [parseGreeting, header, if_false, short, if_true])
  have header' : ¬ (data ++ more).length < 2 := by rw [List.length_append]; omega
  have whole' : ¬ (data ++ more).length < 2 + (data.getD 1 0).toNat := by rw [List.length_append]; omega
  have version := getD_append more (by omega : 0 < data.length)
  have nmethods := getD_append more (by omega : 1 < data.length)
  have methods := part_append more 2 (by omega : 2 + (data.getD 1 0).toNat ≤ data.length)
  simp only [parseGreeting, header, whole, header', whole', version, nmethods, methods, if_false]

theorem parseConnectRequest_append {data : List UInt8} {out : Socks5ConnectRequest} {consumed : Nat}
    (decided : (parseConnectRequest data out consumed).1 ≠ .needMoreData) (more : List UInt8) :
    parseConnectRequest (data ++ more) out consumed = parseConnectRequest data out consumed := by
  have header : ¬ data.length < 4 := fun short => decided (by rw [parseConnectRequest, if_pos short])
  have header' : ¬ (data ++ more).length < 4 := by rw [List.length_append]; omega
  have version := getD_append more (by omega : 0 < data.length)
  have command := getD_append more (by omega : 1 < data.length)
  have atyp := getD_append more (by omega : 3 < data.length)
  rw [parseConnectRequest, if_neg header] at decided
  rw [parseConnectRequest, parseConnectRequest, if_neg header', if_neg header]
  dsimp only at decided ⊢
  rw [version, command, atyp]
  by_cases wrong : data.getD 0 0 ≠ 5
  · rw [if_pos wrong, if_pos wrong]
  rw [if_neg wrong] at decided
  rw [if_neg wrong, if_neg wrong]
  by_cases other : data.getD 1 0 ≠ 1
  · rw [if_pos other, if_pos other]
  rw [if_neg other] at decided
  rw [if_neg other, if_neg other]
  by_cases ipv4 : data.getD 3 0 = Socks5AddrType.ipv4.code
  · rw [if_pos ipv4] at decided
    rw [if_pos ipv4, if_pos ipv4]
    have whole : ¬ data.length < 4 + 4 + 2 := fun short => decided (by rw [if_pos short])
    have whole' : ¬ (data ++ more).length < 4 + 4 + 2 := by rw [List.length_append]; omega
    rw [if_neg whole, if_neg whole', getD_append more (by omega : 4 < data.length),
      getD_append more (by omega : 5 < data.length), getD_append more (by omega : 6 < data.length),
      getD_append more (by omega : 7 < data.length), getD_append more (by omega : 8 < data.length),
      getD_append more (by omega : 9 < data.length)]
  rw [if_neg ipv4] at decided
  rw [if_neg ipv4, if_neg ipv4]
  by_cases domain : data.getD 3 0 = Socks5AddrType.domain.code
  · rw [if_pos domain] at decided
    rw [if_pos domain, if_pos domain]
    have named : ¬ data.length < 5 := fun short => decided (by rw [if_pos short])
    have whole : ¬ data.length < 4 + 1 + (data.getD 4 0).toNat + 2 := fun short =>
      decided (by rw [if_neg named, if_pos short])
    have named' : ¬ (data ++ more).length < 5 := by rw [List.length_append]; omega
    have whole' : ¬ (data ++ more).length < 4 + 1 + (data.getD 4 0).toNat + 2 := by
      rw [List.length_append]; omega
    rw [if_neg named, if_neg named', getD_append more (by omega : 4 < data.length), if_neg whole,
      if_neg whole', part_append more 5 (by omega : 5 + (data.getD 4 0).toNat ≤ data.length),
      getD_append more (by omega : 5 + (data.getD 4 0).toNat < data.length),
      getD_append more (by omega : 6 + (data.getD 4 0).toNat < data.length)]
  · rw [if_neg domain, if_neg domain]

/-- A greeting is accepted, and nothing behind it is needed for that. -/
theorem IsGreeting.parsed {greeting : List UInt8} (isGreeting : IsGreeting greeting) (out : Socks5Greeting)
    (consumed : Nat) : ∃ info, parseGreeting greeting out consumed = (.ok, info, greeting.length) := by
  obtain ⟨length, noAuth⟩ := isGreeting
  rename_i nmethods methods
  have offered : methods.any (· == 0x00) = true := List.any_eq_true.mpr ⟨0, noAuth, rfl⟩
  refine ⟨⟨5, nmethods, true⟩, ?_⟩
  simp only [parseGreeting, List.length_cons, List.getD_cons_zero, List.getD_cons_succ,
    List.drop_succ_cons, List.drop_zero, ← length, List.take_length, offered]
  rw [if_neg (by omega), if_neg (by omega), if_neg (by simp)]
  simp only [if_true, Nat.add_comm 2]

end FryFirmware.Relay
