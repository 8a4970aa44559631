import FryFirmware.Improv.Codec
import FryFirmware.Improv.ParserProperties
import Mathlib.Algebra.Ring.Nat

/-!
# The Improv codec inverts itself

What the encoders write is a packet that a client opens again, the decoders read
what a client wrote, and neither leaves its buffers.
-/

set_option autoImplicit false

namespace FryFirmware.Improv

open Lib

theorem toNat_toUInt8 {n : Nat} (short : n < 256) : n.toUInt8.toNat = n := by
  simp only [Nat.toUInt8, UInt8.toNat_ofNat']
  omega

theorem bytesAt_append (front letters back : List UInt8) :
    bytesAt (front ++ (letters ++ back)) front.length letters.length = some letters := by
  simp [bytesAt]

theorem split_at {α : Type} (xs : List α) {k : Nat} (inside : k < xs.length) :
    ∃ front x back, xs = front ++ x :: back ∧ front.length = k := by
  refine ⟨xs.take k, xs[k], xs.drop (k + 1), ?_, List.length_take_of_le (Nat.le_of_lt inside)⟩
  rw [← List.drop_eq_getElem_cons inside, List.take_append_drop]

/-! ## Copies into a buffer -/

section Buffers

variable {capacity : Nat} (memory : Memory UInt8 capacity)

theorem store?_append {front back : List UInt8} {position : Nat}
    (behind : position = front.length) (fits : (front ++ back).length ≤ capacity) :
    (memory.store 0 front).store? position back = some (memory.store 0 (front ++ back)) := by
  have appended : (memory.store 0 front).store (0 + front.length) back =
      memory.store 0 (front ++ back) := memory.store_append (by omega)
  rw [List.length_append] at fits
  rw [Memory.store?_inside _ (by omega), behind]
  rw [Nat.zero_add] at appended
  rw [appended]

theorem window_store (data : List UInt8) (fits : data.length ≤ capacity) :
    (memory.store 0 data).window 0 data.length = data := by
  have appended := memory.window_store_append data (Nat.le_refl 0) (by omega)
  simpa using appended

/-- The NUL behind a text. -/
theorem store?_nul {letters : List UInt8} (fits : letters.length < capacity) :
    (memory.store 0 letters).store? letters.length [0] =
      some (memory.store 0 (letters ++ [0])) := by
  refine store?_append memory rfl ?_
  rw [List.length_append]
  exact fits

end Buffers

/-! ## The decoders -/

section Decoders

variable {ssidCap passCap keyCap : Nat}

theorem decodeWifiSettings_accepts (ssid : Memory UInt8 ssidCap) (pass : Memory UInt8 passCap)
    {name word : List UInt8} (rest : List UInt8)
    (nameLength : name.length ≤ kMaxSsid) (wordLength : word.length ≤ kMaxPass)
    (nameFits : name.length < ssidCap) (wordFits : word.length < passCap) :
    decodeWifiSettings (some (wifiSettings name word ++ rest)) (some ssid) (some pass) =
      some (true, some (ssid.store 0 (name ++ [0])), some (pass.store 0 (word ++ [0]))) := by
  obtain ⟨data, data_eq⟩ : ∃ data, wifiSettings name word ++ rest = data := ⟨_, rfl⟩
  simp only [kMaxSsid, kMaxPass] at nameLength wordLength
  have nameCount := toNat_toUInt8 (n := name.length) (by omega)
  have wordCount := toNat_toUInt8 (n := word.length) (by omega)
  have spread : data =
      [name.length.toUInt8] ++ (name ++ ([word.length.toUInt8] ++ (word ++ rest))) := by
    rw [← data_eq]
    simp [wifiSettings]
  have length : data.length = name.length + word.length + rest.length + 2 := by
    rw [spread]
    simp only [List.length_append, List.length_cons, List.length_nil]
    omega
  have first : data[0]? = some name.length.toUInt8 := by
    rw [spread]
    rfl
  have second : data[1 + name.length]? = some word.length.toUInt8 := by
    rw [spread, ← List.append_assoc, List.getElem?_append_right (by simp [Nat.add_comm])]
    simp [Nat.add_comm]
  have letters : bytesAt data 1 name.length = some name := by
    rw [spread]
    exact bytesAt_append [_] name _
  have secret : bytesAt data (2 + name.length) word.length = some word := by
    have inside := bytesAt_append ([name.length.toUInt8] ++ name ++ [word.length.toUInt8]) word rest
    simp only [List.length_append, List.length_cons, List.length_nil, List.append_assoc] at inside
    rw [spread, ← inside]
    congr 1
    omega
  rw [data_eq]
  simp only [decodeWifiSettings, length, first, second, nameCount, wordCount, letters, secret,
    Option.bind_eq_bind, Option.bind_some, kMaxSsid, kMaxPass]
  rw [if_neg (by omega), if_neg (by omega), if_neg (by omega), if_neg (by omega),
    if_neg (by omega)]
  rw [Memory.store?_inside ssid (by omega), Option.bind_some, store?_nul ssid nameFits,
    Option.bind_some, Memory.store?_inside pass (by omega), Option.bind_some,
    store?_nul pass wordFits]
  rfl

theorem decodeKeyWrite_accepts (out : Memory UInt8 keyCap) {key : List UInt8}
    (short : key.length < 256) (fits : key.length < keyCap) :
    decodeKeyWrite (some (keyWrite key)) (some out) =
      some (true, some (out.store 0 (key ++ [0]))) := by
  have count := toNat_toUInt8 short
  have first : (keyWrite key)[0]? = some key.length.toUInt8 := rfl
  have length : (keyWrite key).length = key.length + 1 := rfl
  have letters : bytesAt (keyWrite key) 1 key.length = some key := by
    have inside := bytesAt_append [key.length.toUInt8] key []
    rw [List.append_nil] at inside
    exact inside
  simp only [decodeKeyWrite, length, first, count, letters, Option.bind_eq_bind,
    Option.bind_some]
  rw [if_neg (by omega), if_neg (by omega), if_neg (by omega),
    Memory.store?_inside out (by omega), Option.bind_some, store?_nul out fits]
  rfl

/-- What `decodeWifiSettings` accepts, and that it leaves the buffers otherwise. -/
theorem decodeWifiSettings_cases (data : Option (List UInt8))
    (ssid : Option (Memory UInt8 ssidCap)) (pass : Option (Memory UInt8 passCap)) :
    decodeWifiSettings data ssid pass = some (false, ssid, pass) ∨
    ∃ name word rest, data = some (wifiSettings name word ++ rest) ∧
      name.length ≤ kMaxSsid ∧ word.length ≤ kMaxPass ∧
      name.length < ssidCap ∧ word.length < passCap ∧ ssid.isSome ∧ pass.isSome := by
  match data, ssid, pass with
  | none, _, _ => exact .inl rfl
  | some _, none, _ => exact .inl rfl
  | some _, some _, none => exact .inl rfl
  | some [], some _, some _ => exact .inl rfl
  | some (ssidLen :: tail), some ssid, some pass =>
      have first : (ssidLen :: tail)[0]? = some ssidLen := rfl
      simp only [decodeWifiSettings, first, List.length_cons, Option.bind_eq_bind,
        Option.bind_some]
      rw [if_neg (by omega)]
      by_cases wide : ssidLen.toNat > kMaxSsid ∨ ssidLen.toNat ≥ ssidCap
      · exact .inl (if_pos wide)
      by_cases cut : tail.length + 1 < 1 + ssidLen.toNat + 1
      · rw [if_neg wide]
        exact .inl (if_pos cut)
      obtain ⟨name, passLen, rest, rfl, nameLength⟩ :=
        split_at tail (by omega : ssidLen.toNat < tail.length)
      have second : (ssidLen :: (name ++ passLen :: rest))[1 + ssidLen.toNat]? = some passLen := by
        rw [Nat.add_comm, List.getElem?_cons_succ, ← nameLength]
        simp
      rw [if_neg wide, if_neg cut, second, Option.bind_some]
      by_cases wide' : passLen.toNat > kMaxPass ∨ passLen.toNat ≥ passCap
      · exact .inl (if_pos wide')
      rw [if_neg wide']
      have length : (name ++ passLen :: rest).length = ssidLen.toNat + 1 + rest.length := by
        rw [List.length_append, List.length_cons]
        omega
      by_cases cut' : (name ++ passLen :: rest).length + 1 < 1 + ssidLen.toNat + 1 + passLen.toNat
      · exact .inl (if_pos cut')
      have wordLength : (rest.take passLen.toNat).length = passLen.toNat := by
        rw [List.length_take]
        omega
      refine .inr ⟨name, rest.take passLen.toNat, rest.drop passLen.toNat, ?_, by omega, by omega,
        by omega, by omega, rfl, rfl⟩
      simp [wifiSettings, nameLength, wordLength]

theorem decodeKeyWrite_cases (data : Option (List UInt8)) (out : Option (Memory UInt8 keyCap)) :
    decodeKeyWrite data out = some (false, out) ∨
    ∃ key, data = some (keyWrite key) ∧ key.length < 256 ∧ key.length < keyCap ∧ out.isSome := by
  match data, out with
  | none, _ => exact .inl rfl
  | some _, none => exact .inl rfl
  | some [], some _ => exact .inl rfl
  | some (keyLen :: key), some out =>
      have first : (keyLen :: key)[0]? = some keyLen := rfl
      simp only [decodeKeyWrite, first, List.length_cons, Option.bind_eq_bind, Option.bind_some]
      rw [if_neg (by omega)]
      by_cases other : keyLen.toNat + 1 ≠ key.length + 1
      · exact .inl (if_pos other)
      by_cases wide : keyLen.toNat ≥ keyCap
      · rw [if_neg other]
        exact .inl (if_pos wide)
      have length : keyLen.toNat = key.length := by omega
      have bound := keyLen.toNat_lt
      refine .inr ⟨key, ?_, by omega, by omega, rfl⟩
      simp [keyWrite, ← length]

end Decoders

/-! ## The encoders -/

/-- The strings of a result, each behind its length. -/
def encoded (texts : List (List UInt8)) : List UInt8 :=
  texts.flatMap fun t => t.length.toUInt8 :: t

section Encoders

variable {outCap : Nat} (out : Memory UInt8 outCap)

theorem writeFrame_eq (type len : UInt8) (fits : 9 ≤ outCap) :
    writeFrame out type len =
      some (9, out.store 0 (kHeader ++ [kVersion, type, len])) := by
  have fits' : ∀ tail : List UInt8, tail.length ≤ 3 → (kHeader ++ tail).length ≤ outCap := by
    intro tail short
    have header : kHeader.length = 6 := rfl
    rw [List.length_append, header]
    omega
  have version : (out.store 0 kHeader).store? 6 [kVersion] =
      some (out.store 0 (kHeader ++ [kVersion])) := store?_append out rfl (fits' _ (by simp))
  have typed : (out.store 0 (kHeader ++ [kVersion])).store? 7 [type] =
      some (out.store 0 (kHeader ++ [kVersion] ++ [type])) :=
    store?_append out rfl (by rw [List.append_assoc]; exact fits' _ (by simp))
  have measured : (out.store 0 (kHeader ++ [kVersion] ++ [type])).store? 8 [len] =
      some (out.store 0 (kHeader ++ [kVersion] ++ [type] ++ [len])) :=
    store?_append out rfl
      (by rw [List.append_assoc, List.append_assoc]; exact fits' _ (by simp))
  have header : out.store? 0 kHeader = some (out.store 0 kHeader) :=
    Memory.store?_inside out (by have six : kHeader.length = 6 := rfl; omega)
  simp only [writeFrame, header, version, typed, measured, Option.bind_eq_bind, Option.bind_some]
  rfl

theorem sealPacket_eq {written : List UInt8} {n : Nat} (count : n = written.length)
    (fits : written.length + 1 ≤ outCap) :
    sealPacket (out.store 0 written) n =
      some (n + 1, out.store 0 (written ++ [checksum written])) := by
  have held := window_store out written (by omega)
  have read : bytesAt (out.store 0 written).cells 0 written.length = some written := by
    rw [bytesAt, if_pos (by rw [Memory.size]; omega)]
    exact congrArg some held
  subst count
  simp only [sealPacket, read, Option.bind_eq_bind, Option.bind_some]
  rw [store?_append out rfl (by rw [List.length_append]; exact fits)]
  rfl

theorem writeStrings_eq {written : List UInt8} (texts : List (List UInt8)) {n : Nat}
    (count : n = written.length) (fits : (written ++ encoded texts).length ≤ outCap) :
    writeStrings (out.store 0 written) n (texts.map some) =
      some (n + (encoded texts).length, out.store 0 (written ++ encoded texts)) := by
  induction texts generalizing written n with
  | nil => simp [writeStrings, encoded]
  | cons t texts ih =>
      have spread : encoded (t :: texts) = [t.length.toUInt8] ++ (t ++ encoded texts) := by
        simp [encoded]
      rw [spread, ← List.append_assoc, ← List.append_assoc] at fits ⊢
      have lengths := fits
      simp only [List.length_append, List.length_cons, List.length_nil] at lengths
      simp only [List.map_cons, writeStrings, Option.bind_eq_bind]
      rw [store?_append out count
          (by simp only [List.length_append, List.length_cons, List.length_nil]; omega),
        Option.bind_some,
        store?_append out (by simp only [List.length_append, List.length_cons, List.length_nil]; omega)
          (by simp only [List.length_append, List.length_cons, List.length_nil]; omega),
        Option.bind_some,
        ih (by simp only [List.length_append, List.length_cons, List.length_nil]; omega) fits]
      have total : n + 1 + t.length + (encoded texts).length =
          n + ([t.length.toUInt8] ++ t ++ encoded texts).length := by
        simp only [List.length_append, List.length_cons, List.length_nil]
        omega
      rw [total, List.append_assoc written]

end Encoders

/-- The first loop adds up the strings, or finds one that is null or too long. -/
theorem resultLength_cases (strings : List CString) (dataLen : Nat) :
    ((∃ string ∈ strings, ∀ t, string = some t → 255 < t.length) ∧
      resultLength strings dataLen = none) ∨
    ∃ texts, strings = texts.map some ∧ (∀ t ∈ texts, t.length ≤ 255) ∧
      resultLength strings dataLen = some (dataLen + (encoded texts).length) := by
  induction strings generalizing dataLen with
  | nil => exact .inr ⟨[], rfl, nofun, rfl⟩
  | cons string strings ih =>
      cases string with
      | none => exact .inl ⟨⟨none, List.mem_cons_self, nofun⟩, rfl⟩
      | some t =>
          by_cases long : t.length > 255
          · refine .inl ⟨⟨some t, List.mem_cons_self, fun u same => ?_⟩, if_pos long⟩
            cases same
            exact long
          · rcases ih (dataLen + (1 + t.length)) with
              ⟨⟨string, member, refused⟩, none⟩ | ⟨texts, rfl, short, sum⟩
            · refine .inl ⟨⟨string, List.mem_cons_of_mem _ member, refused⟩, ?_⟩
              rw [resultLength, if_neg long, none]
            · refine .inr ⟨t :: texts, rfl, ?_, ?_⟩
              · intro u member
                rcases List.mem_cons.mp member with rfl | member
                · omega
                · exact short u member
              · rw [resultLength, if_neg long, sum]
                simp only [encoded, List.flatMap_cons, List.length_append, List.length_cons]
                congr 1
                omega

/-! ## Opening a result again -/

theorem openPacket_packet (type : UInt8) (payload : List UInt8) :
    openPacket (packet type payload) = some (type, payload) := by
  have spread : packet type payload =
      kHeader ++ kVersion :: type :: payload.length.toUInt8 ::
        (payload ++ [checksum (frame type payload)]) := by
    simp [packet, frame]
  have body : ((packet type payload).drop 9).dropLast = payload := by
    rw [spread]
    simp [kHeader]
  have whole : (packet type payload).dropLast = frame type payload := by
    rw [packet, List.dropLast_concat]
  have last : (packet type payload).getLast? = some (checksum (frame type payload)) := by
    rw [packet, List.getLast?_concat]
  simp only [openPacket, body, whole, last]
  rw [spread, if_pos ⟨rfl, rfl, rfl, trivial⟩]
  rfl

theorem length_le_encoded (texts : List (List UInt8)) : texts.length ≤ (encoded texts).length := by
  induction texts with
  | nil => exact Nat.le_refl 0
  | cons t texts ih =>
      simp only [encoded, List.flatMap_cons, List.length_append, List.length_cons] at ih ⊢
      omega

theorem stringsOf_encoded {texts : List (List UInt8)} {fuel : Nat}
    (short : ∀ t ∈ texts, t.length ≤ 255) (enough : texts.length ≤ fuel) :
    stringsOf fuel (encoded texts) = some texts := by
  induction texts generalizing fuel with
  | nil => cases fuel <;> rfl
  | cons t texts ih =>
      rw [List.length_cons] at enough
      obtain ⟨fuel, rfl⟩ := Nat.exists_eq_add_of_le' (by omega : 1 ≤ fuel)
      have length := short t List.mem_cons_self
      have count := toNat_toUInt8 (by omega : t.length < 256)
      have later := ih (fun u member => short u (List.mem_cons_of_mem t member))
        (by omega : texts.length ≤ fuel)
      have spread : encoded (t :: texts) = t.length.toUInt8 :: (t ++ encoded texts) := by
        simp [encoded]
      rw [spread, stringsOf, count, if_pos (by simp), List.drop_left, List.take_left, later]
      rfl

def resultPayload (command : UInt8) (texts : List (List UInt8)) : List UInt8 :=
  command :: (encoded texts).length.toUInt8 :: encoded texts

theorem length_resultPayload (command : UInt8) (texts : List (List UInt8)) :
    (resultPayload command texts).length = 2 + (encoded texts).length := by
  simp only [resultPayload, List.length_cons]
  omega

theorem decodeRpcResult_packet (command : UInt8) {texts : List (List UInt8)}
    (short : ∀ t ∈ texts, t.length ≤ 255) (fits : (encoded texts).length < 256) :
    decodeRpcResult (packet kTypeRpcResult (resultPayload command texts)) =
      some (command, texts) := by
  simp only [decodeRpcResult, openPacket_packet, resultPayload]
  rw [if_pos ⟨trivial, toNat_toUInt8 fits⟩, stringsOf_encoded short (length_le_encoded texts)]
  rfl

/-! ## Results -/

/-- The length of the payload that some strings need. -/
def payloadLength (strings : List CString) : Nat :=
  2 + (strings.map fun string => 1 + (string.getD []).length).sum

theorem payloadLength_texts (texts : List (List UInt8)) :
    payloadLength (texts.map some) = 2 + (encoded texts).length := by
  have sums : ((texts.map some).map fun string : CString =>
      1 + (string.getD []).length).sum = (encoded texts).length := by
    induction texts with
    | nil => rfl
    | cons t texts ih =>
        simp only [List.map_cons, List.sum_cons, ih, Option.getD_some, encoded,
          List.flatMap_cons, List.length_append, List.length_cons]
        omega
  rw [payloadLength, sums]

/-- A string is null or too long, the payload is, or the frame does not fit. -/
def Refused (strings : List CString) (outCap : Nat) : Prop :=
  (∃ string ∈ strings, ∀ t, string = some t → 255 < t.length) ∨
    payloadLength strings > kMaxPayload ∨ outCap < 9 + payloadLength strings + 1

variable {outCap : Nat}

theorem encodeRpcResult_accepts (command : UInt8) (buffer : Memory UInt8 outCap)
    {texts : List (List UInt8)}
    (sum : resultLength (texts.map some) 0 = some (0 + (encoded texts).length))
    (payload : 2 + (encoded texts).length ≤ kMaxPayload)
    (room : 9 + (2 + (encoded texts).length) + 1 ≤ outCap) :
    encodeRpcResult command (texts.map some) (some buffer) =
      some (9 + (2 + (encoded texts).length) + 1,
        some (buffer.store 0 (packet kTypeRpcResult (resultPayload command texts)))) := by
  obtain ⟨head, head_eq⟩ :
      ∃ head, kHeader ++ [kVersion, kTypeRpcResult, (2 + (encoded texts).length).toUInt8] = head :=
    ⟨_, rfl⟩
  have nine : head.length = 9 := by
    rw [← head_eq]
    rfl
  have total : packet kTypeRpcResult (resultPayload command texts) =
      head ++ [command] ++ [(encoded texts).length.toUInt8] ++ encoded texts ++
        [checksum (head ++ [command] ++ [(encoded texts).length.toUInt8] ++ encoded texts)] := by
    rw [packet, frame, length_resultPayload, head_eq]
    simp [resultPayload]
  have front : (head ++ [command]).length = 10 := by rw [List.length_append, nine]; rfl
  have middle : (head ++ [command] ++ [(encoded texts).length.toUInt8]).length = 11 := by
    rw [List.length_append, front]
    rfl
  have whole : (head ++ [command] ++ [(encoded texts).length.toUInt8] ++ encoded texts).length =
      11 + (encoded texts).length := by
    rw [List.length_append, middle]
  rw [Nat.zero_add] at sum
  simp only [encodeRpcResult, sum, Option.bind_eq_bind]
  rw [if_neg (by omega), if_neg (by omega), writeFrame_eq buffer _ _ (by omega),
    Option.bind_some, head_eq, store?_append buffer nine.symm (by rw [front]; omega),
    Option.bind_some, store?_append buffer front.symm (by rw [middle]; omega), Option.bind_some,
    writeStrings_eq buffer texts middle.symm (by rw [whole]; omega), Option.bind_some,
    sealPacket_eq buffer whole.symm (by rw [whole]; omega), Option.bind_some, total]
  congr 2
  omega

theorem encodeRpcResult_cases (command : UInt8) (strings : List CString)
    (buffer : Memory UInt8 outCap) :
    (Refused strings outCap ∧ encodeRpcResult command strings (some buffer) =
      some (0, some buffer)) ∨
    ∃ texts, strings = texts.map some ∧ ¬ Refused strings outCap ∧
      decodeRpcResult (packet kTypeRpcResult (resultPayload command texts)) =
        some (command, texts) ∧
      (packet kTypeRpcResult (resultPayload command texts)).length ≤ outCap ∧
      encodeRpcResult command strings (some buffer) =
        some ((packet kTypeRpcResult (resultPayload command texts)).length,
          some (buffer.store 0 (packet kTypeRpcResult (resultPayload command texts)))) := by
  rcases resultLength_cases strings 0 with ⟨refused, sum⟩ | ⟨texts, rfl, short, sum⟩
  · refine .inl ⟨.inl refused, ?_⟩
    simp only [encodeRpcResult, sum]
  · have needed := payloadLength_texts texts
    by_cases long : 2 + (encoded texts).length > kMaxPayload
    · refine .inl ⟨.inr (.inl (by rw [needed]; exact long)), ?_⟩
      simp only [encodeRpcResult, sum, Nat.zero_add]
      rw [if_pos long]
    by_cases cut : outCap < 9 + (2 + (encoded texts).length) + 1
    · refine .inl ⟨.inr (.inr (by rw [needed]; exact cut)), ?_⟩
      simp only [encodeRpcResult, sum, Nat.zero_add]
      rw [if_neg long, if_pos cut]
    have room : (encoded texts).length < 256 := by
      simp only [kMaxPayload] at long
      omega
    have size : (packet kTypeRpcResult (resultPayload command texts)).length =
        9 + (2 + (encoded texts).length) + 1 := by
      rw [length_packet, length_resultPayload]
      omega
    refine .inr ⟨texts, rfl, ?_, decodeRpcResult_packet command short room, by omega, ?_⟩
    · rintro (⟨string, member, refused⟩ | wide | wide)
      · obtain ⟨t, present, rfl⟩ := List.mem_map.mp member
        have := refused t rfl
        have := short t present
        omega
      · rw [needed] at wide
        exact long wide
      · rw [needed] at wide
        exact cut wide
    · rw [size]
      exact encodeRpcResult_accepts command buffer sum (Nat.le_of_not_gt long)
        (Nat.le_of_not_lt cut)

/-- A one-byte packet, such as a state or an error, needs eleven bytes. -/
theorem encodeOneByte_cases (type value : UInt8) (buffer : Memory UInt8 outCap) :
    (outCap < 11 ∧ encodeOneByte type value (some buffer) = some (0, some buffer)) ∨
    (11 ≤ outCap ∧ encodeOneByte type value (some buffer) =
      some (11, some (buffer.store 0 (packet type [value])))) := by
  by_cases cut : outCap < 11
  · exact .inl ⟨cut, if_pos cut⟩
  · refine .inr ⟨Nat.le_of_not_lt cut, ?_⟩
    have ten : (kHeader ++ [kVersion, type, 1] ++ [value]).length = 10 := rfl
    have valued : (buffer.store 0 (kHeader ++ [kVersion, type, 1])).store? 9 [value] =
        some (buffer.store 0 (kHeader ++ [kVersion, type, 1] ++ [value])) :=
      store?_append buffer rfl (by rw [ten]; omega)
    have sealed := sealPacket_eq buffer ten.symm (by rw [ten]; omega)
    simp only [encodeOneByte, Option.bind_eq_bind]
    rw [if_neg cut, writeFrame_eq buffer _ _ (by omega), Option.bind_some, valued,
      Option.bind_some, sealed]
    rfl

theorem length_le_of_mem {texts : List (List UInt8)} {t : List UInt8} (member : t ∈ texts) :
    t.length ≤ (encoded texts).length := by
  obtain ⟨front, back, rfl⟩ := List.append_of_mem member
  simp only [encoded, List.flatMap_append, List.flatMap_cons, List.length_append,
    List.length_cons]
  omega

/-- Strings that fit a payload are always answered from the packet buffer. -/
theorem encodeRpcResult_answers (command : UInt8) {texts : List (List UInt8)}
    (fits : 2 + (encoded texts).length ≤ kMaxPayload) (buffer : Memory UInt8 kMaxPacket) :
    ∃ n after, encodeRpcResult command (texts.map some) (some buffer) = some (n, some after) ∧
      decodeRpcResult (after.window 0 n) = some (command, texts) := by
  have needed := payloadLength_texts texts
  rcases encodeRpcResult_cases command (texts.map some) buffer with
    ⟨refused, _⟩ | ⟨texts', same, _, decoded, room, written⟩
  · exfalso
    simp only [kMaxPayload] at fits
    rcases refused with ⟨string, member, long⟩ | wide | wide
    · obtain ⟨t, present, rfl⟩ := List.mem_map.mp member
      have := long t rfl
      have := length_le_of_mem present
      omega
    · simp only [kMaxPayload] at wide
      omega
    · simp only [kMaxPacket, kMaxPayload] at wide
      omega
  · obtain rfl : texts = texts' :=
      List.map_injective_iff.mpr (fun _ _ => Option.some.inj) same
    exact ⟨_, _, written, by rw [window_store buffer _ room, decoded]⟩

theorem wifiSettings_inj {name word name' word' rest : List UInt8}
    (nameLength : name.length ≤ kMaxSsid) (wordLength : word.length ≤ kMaxPass)
    (nameLength' : name'.length ≤ kMaxSsid) (wordLength' : word'.length ≤ kMaxPass)
    (same : wifiSettings name word = wifiSettings name' word' ++ rest) :
    name = name' ∧ word = word' := by
  simp only [kMaxSsid, kMaxPass] at nameLength wordLength nameLength' wordLength'
  simp only [wifiSettings, List.cons_append, List.append_assoc, List.cons.injEq] at same
  obtain ⟨nameCount, tails⟩ := same
  have names := toUInt8_inj (by omega) (by omega) nameCount
  obtain ⟨rfl, ends⟩ := List.append_inj tails names
  obtain ⟨wordCount, words⟩ := List.cons.inj ends
  have counts := toUInt8_inj (by omega) (by omega) wordCount
  have lengths := congrArg List.length words
  rw [List.length_append] at lengths
  have empty : rest = [] := List.eq_nil_of_length_eq_zero (by omega)
  rw [empty, List.append_nil] at words
  exact ⟨rfl, words⟩

theorem window_store_nul {capacity : Nat} (memory : Memory UInt8 capacity) {letters : List UInt8}
    (fits : letters.length < capacity) :
    (memory.store 0 (letters ++ [0])).window 0 (letters.length + 1) = letters ++ [0] := by
  have length : (letters ++ [0]).length = letters.length + 1 := by
    rw [List.length_append]
    rfl
  rw [← length]
  exact window_store memory _ (by omega)

section RoundTrips

variable {ssidCap passCap keyCap : Nat}

theorem decodeWifiSettings_wifiSettings (ssid : Memory UInt8 ssidCap)
    (pass : Memory UInt8 passCap) {name word : List UInt8}
    (nameLength : name.length ≤ kMaxSsid) (wordLength : word.length ≤ kMaxPass) :
    ∃ accepted ssid' pass', decodeWifiSettings (some (wifiSettings name word)) (some ssid)
        (some pass) = some (accepted, some ssid', some pass') ∧
      (accepted = true ↔ name.length < ssidCap ∧ word.length < passCap) ∧
      (accepted = true → ssid'.window 0 (name.length + 1) = name ++ [0] ∧
        pass'.window 0 (word.length + 1) = word ++ [0]) := by
  by_cases fits : name.length < ssidCap ∧ word.length < passCap
  · obtain ⟨nameFits, wordFits⟩ := fits
    have accepts := decodeWifiSettings_accepts ssid pass [] nameLength wordLength nameFits wordFits
    rw [List.append_nil] at accepts
    exact ⟨true, _, _, accepts, ⟨fun _ => ⟨nameFits, wordFits⟩, fun _ => rfl⟩, fun _ =>
      ⟨window_store_nul ssid nameFits, window_store_nul pass wordFits⟩⟩
  · rcases decodeWifiSettings_cases (some (wifiSettings name word)) (some ssid) (some pass) with
      rejected | ⟨name', word', rest, same, nameLength', wordLength', nameFits, wordFits, _⟩
    · exact ⟨false, ssid, pass, rejected, ⟨nofun, fun whole => absurd whole fits⟩, nofun⟩
    · obtain ⟨rfl, rfl⟩ := wifiSettings_inj nameLength wordLength nameLength' wordLength'
        (Option.some.inj same)
      exact absurd ⟨nameFits, wordFits⟩ fits

theorem decodeKeyWrite_keyWrite (out : Memory UInt8 keyCap) {key : List UInt8}
    (short : key.length < 256) :
    ∃ accepted out', decodeKeyWrite (some (keyWrite key)) (some out) =
        some (accepted, some out') ∧
      (accepted = true ↔ key.length < keyCap) ∧
      (accepted = true → out'.window 0 (key.length + 1) = key ++ [0]) := by
  by_cases fits : key.length < keyCap
  · exact ⟨true, _, decodeKeyWrite_accepts out short fits, ⟨fun _ => fits, fun _ => rfl⟩,
      fun _ => window_store_nul out fits⟩
  · rcases decodeKeyWrite_cases (some (keyWrite key)) (some out) with
      rejected | ⟨key', same, _, fits', _⟩
    · exact ⟨false, out, rejected, ⟨nofun, fun whole => absurd whole fits⟩, nofun⟩
    · obtain ⟨_, rfl⟩ := List.cons.inj (Option.some.inj same)
      exact absurd fits' fits

end RoundTrips

/-- The codec of the answers and of the two commands with data: what is written opens
again, what a client wrote is read, a refusal leaves the buffers, and every access is
inside them. -/
theorem codec_inverts :
    (∀ (outCap : Nat) (command : UInt8) (strings : List CString) (buffer : Memory UInt8 outCap),
      ∃ n after, encodeRpcResult command strings (some buffer) = some (n, some after) ∧
        (n = 0 ↔ Refused strings outCap) ∧ (n = 0 → after = buffer) ∧
        (n ≠ 0 → n ≤ outCap ∧ after.window n outCap = buffer.window n outCap ∧
          (after.window 0 n).getLast? = some (checksum (after.window 0 n).dropLast) ∧
          ∃ texts, strings = texts.map some ∧
            decodeRpcResult (after.window 0 n) = some (command, texts))) ∧
    (∀ (ssidCap passCap : Nat) (ssid : Memory UInt8 ssidCap) (pass : Memory UInt8 passCap)
      (name word : List UInt8), name.length ≤ kMaxSsid → word.length ≤ kMaxPass →
      ∃ accepted ssid' pass', decodeWifiSettings (some (wifiSettings name word)) (some ssid)
          (some pass) = some (accepted, some ssid', some pass') ∧
        (accepted = true ↔ name.length < ssidCap ∧ word.length < passCap) ∧
        (accepted = true → ssid'.window 0 (name.length + 1) = name ++ [0] ∧
          pass'.window 0 (word.length + 1) = word ++ [0])) ∧
    (∀ (keyCap : Nat) (out : Memory UInt8 keyCap) (key : List UInt8),
      (keyWrite key).length < 256 →
      ∃ accepted out', decodeKeyWrite (some (keyWrite key)) (some out) =
          some (accepted, some out') ∧
        (accepted = true ↔ key.length < keyCap) ∧
        (accepted = true → out'.window 0 (key.length + 1) = key ++ [0])) ∧
    (∀ (ssidCap passCap : Nat) (data : Option (List UInt8))
      (ssid : Option (Memory UInt8 ssidCap)) (pass : Option (Memory UInt8 passCap)),
      ∃ accepted ssid' pass', decodeWifiSettings data ssid pass = some (accepted, ssid', pass') ∧
        (accepted = false → ssid' = ssid ∧ pass' = pass)) ∧
    (∀ (keyCap : Nat) (data : Option (List UInt8)) (out : Option (Memory UInt8 keyCap)),
      ∃ accepted out', decodeKeyWrite data out = some (accepted, out') ∧
        (accepted = false → out' = out)) := by
  refine ⟨?_, ?_, ?_, ?_, ?_⟩
  · intro outCap command strings buffer
    rcases encodeRpcResult_cases command strings buffer with
      ⟨refused, eq⟩ | ⟨texts, rfl, accepted, decoded, room, eq⟩
    · exact ⟨0, buffer, eq, ⟨fun _ => refused, fun _ => rfl⟩, fun _ => rfl,
        fun written => absurd rfl written⟩
    · have written := window_store buffer _ room
      have behind : (buffer.store 0 _).window (0 + _) outCap = buffer.window (0 + _) outCap :=
        buffer.window_store_behind (by rw [Nat.zero_add]; exact room)
      have some_bytes : (packet kTypeRpcResult (resultPayload command texts)).length ≠ 0 := by
        rw [length_packet]
        omega
      refine ⟨_, _, eq, ⟨fun none => absurd none some_bytes, fun refused => absurd refused accepted⟩,
        fun none => absurd none some_bytes, fun _ => ⟨room, ?_, ?_, texts, rfl, ?_⟩⟩
      · rw [Nat.zero_add] at behind
        exact behind
      · rw [written, packet, List.getLast?_concat, List.dropLast_concat]
      · rw [written, decoded]
  · intro ssidCap passCap ssid pass name word nameLength wordLength
    exact decodeWifiSettings_wifiSettings ssid pass nameLength wordLength
  · intro keyCap out key short
    exact decodeKeyWrite_keyWrite out (by rw [keyWrite, List.length_cons] at short; omega)
  · intro ssidCap passCap data ssid pass
    rcases decodeWifiSettings_cases data ssid pass with
      rejected | ⟨name, word, rest, rfl, nameLength, wordLength, nameFits, wordFits, here, there⟩
    · exact ⟨false, ssid, pass, rejected, fun _ => ⟨rfl, rfl⟩⟩
    · obtain ⟨ssid, rfl⟩ := Option.isSome_iff_exists.mp here
      obtain ⟨pass, rfl⟩ := Option.isSome_iff_exists.mp there
      exact ⟨true, _, _, decodeWifiSettings_accepts ssid pass rest nameLength wordLength nameFits
        wordFits, fun refused => by cases refused⟩
  · intro keyCap data out
    rcases decodeKeyWrite_cases data out with rejected | ⟨key, rfl, short, fits, here⟩
    · exact ⟨false, out, rejected, fun _ => rfl⟩
    · obtain ⟨out, rfl⟩ := Option.isSome_iff_exists.mp here
      exact ⟨true, _, decodeKeyWrite_accepts out short fits, fun refused => by cases refused⟩

theorem codec_inverts_caller :
    (∃ ssid pass, decodeWifiSettings (some (wifiSettings [0x41] [])) (some (Memory.filled 33 0))
        (some (Memory.filled 65 0)) = some (true, some ssid, some pass) ∧
      ssid.window 0 2 = [0x41, 0] ∧ pass.window 0 1 = [0]) ∧
    (∃ key, decodeKeyWrite (some (keyWrite [0x46])) (some (Memory.filled 40 0)) =
        some (true, some key) ∧ key.window 0 2 = [0x46, 0]) ∧
    ∃ n after, encodeRpcResult 0xF1 [some [0x31], some []]
        (some (Memory.filled kMaxPacket 0)) = some (n, some after) ∧
      decodeRpcResult (after.window 0 n) = some (0xF1, [[0x31], []]) := by
  obtain ⟨encode, wifi, key, _, _⟩ := codec_inverts
  refine ⟨?_, ?_, ?_⟩
  · obtain ⟨accepted, ssid, pass, eq, fits, held⟩ :=
      wifi 33 65 (Memory.filled 33 0) (Memory.filled 65 0) [0x41] [] (by decide) (by decide)
    have yes : accepted = true := fits.mpr (by decide)
    subst yes
    exact ⟨ssid, pass, eq, held rfl⟩
  · obtain ⟨accepted, out, eq, fits, held⟩ := key 40 (Memory.filled 40 0) [0x46] (by decide)
    have yes : accepted = true := fits.mpr (by decide)
    subst yes
    exact ⟨out, eq, held rfl⟩
  · obtain ⟨n, after, eq, zero, _, written⟩ :=
      encode kMaxPacket 0xF1 [some [0x31], some []] (Memory.filled kMaxPacket 0)
    have accepted : ¬ Refused [some [0x31], some []] kMaxPacket := by
      rintro (⟨string, member, long⟩ | wide | wide)
      · rcases List.mem_cons.mp member with rfl | member
        · exact absurd (long _ rfl) (by decide)
        · cases List.mem_singleton.mp member
          exact absurd (long _ rfl) (by decide)
      · exact absurd wide (by decide)
      · exact absurd wide (by decide)
    obtain ⟨_, _, _, texts, strings, decoded⟩ := written fun none => accepted (zero.mp none)
    have same : texts = [[0x31], []] :=
      List.map_injective_iff.mpr (fun _ _ => Option.some.inj) strings.symm
    exact ⟨n, after, eq, by rw [decoded, same]⟩

end FryFirmware.Improv
