import FryFirmware.Improv.Packet

/-!
# Improv payloads and results

The decoders of the two commands with data and the encoders of the answers, of
`lib/fry_core/improv_serial.cpp`. Every access of a buffer is checked: the outer
`none` is a read or a write outside it.
-/

set_option autoImplicit false

namespace FryFirmware.Improv

open Lib

def bytesAt (data : List UInt8) (start count : Nat) : Option (List UInt8) :=
  if start + count ≤ data.length then some ((data.drop start).take count) else none

/-! ## Decoders -/

def kMaxSsid : Nat := 32
def kMaxPass : Nat := 64

section Decoders

variable {ssidCap passCap keyCap : Nat}

/-- `[ssidLen][ssid][passLen][pass]`. The `dataLen` bytes at `data` are one list, and a
null pointer is `none`. -/
def decodeWifiSettings (data : Option (List UInt8)) (ssid : Option (Memory UInt8 ssidCap))
    (pass : Option (Memory UInt8 passCap)) :
    Option (Bool × Option (Memory UInt8 ssidCap) × Option (Memory UInt8 passCap)) :=
  let rejected := some (false, ssid, pass)
  match data, ssid, pass with
  | some data, some ssidOut, some passOut =>
      let dataLen := data.length
      if dataLen < 1 then rejected
      else do
        let ssidLen ← data[0]?
        if ssidLen.toNat > kMaxSsid ∨ ssidLen.toNat ≥ ssidCap then rejected
        else if dataLen < 1 + ssidLen.toNat + 1 then rejected
        else do
          let passLen ← data[1 + ssidLen.toNat]?
          if passLen.toNat > kMaxPass ∨ passLen.toNat ≥ passCap then rejected
          else if dataLen < 1 + ssidLen.toNat + 1 + passLen.toNat then rejected
          else do
            let name ← bytesAt data 1 ssidLen.toNat
            let ssidOut ← ssidOut.store? 0 name
            let ssidOut ← ssidOut.store? ssidLen.toNat [0]
            let word ← bytesAt data (2 + ssidLen.toNat) passLen.toNat
            let passOut ← passOut.store? 0 word
            let passOut ← passOut.store? passLen.toNat [0]
            some (true, some ssidOut, some passOut)
  | _, _, _ => rejected

/-- `[keyLen][key]`. -/
def decodeKeyWrite (data : Option (List UInt8)) (key : Option (Memory UInt8 keyCap)) :
    Option (Bool × Option (Memory UInt8 keyCap)) :=
  let rejected := some (false, key)
  match data, key with
  | some data, some keyOut =>
      let dataLen := data.length
      if dataLen < 1 then rejected
      else do
        let keyLen ← data[0]?
        if keyLen.toNat + 1 ≠ dataLen then rejected
        else if keyLen.toNat ≥ keyCap then rejected
        else do
          let letters ← bytesAt data 1 keyLen.toNat
          let keyOut ← keyOut.store? 0 letters
          let keyOut ← keyOut.store? keyLen.toNat [0]
          some (true, some keyOut)
  | _, _ => rejected

end Decoders

/-! ## Encoders -/

section Encoders

variable {outCap : Nat}

def writeFrame (out : Memory UInt8 outCap) (type len : UInt8) :
    Option (Nat × Memory UInt8 outCap) := do
  let out ← out.store? 0 kHeader
  let out ← out.store? 6 [kVersion]
  let out ← out.store? 7 [type]
  let out ← out.store? 8 [len]
  some (9, out)

/-- The checksum byte, after the first `n`. -/
def sealPacket (out : Memory UInt8 outCap) (n : Nat) : Option (Nat × Memory UInt8 outCap) := do
  let packet ← bytesAt out.cells 0 n
  let out ← out.store? n [(byteSum packet &&& 0xFF).toUInt8]
  some (n + 1, out)

/-- A packet with a payload of one byte. -/
def encodeOneByte (type value : UInt8) (out : Option (Memory UInt8 outCap)) :
    Option (Nat × Option (Memory UInt8 outCap)) :=
  match out with
  | none => some (0, none)
  | some buffer =>
      if outCap < 11 then some (0, some buffer)
      else do
        let (n, buffer) ← writeFrame buffer type 1
        let buffer ← buffer.store? n [value]
        let (n, buffer) ← sealPacket buffer (n + 1)
        some (n, some buffer)

inductive State where
  | ready
  | provisioning
  | provisioned
  deriving DecidableEq, Repr

def State.code : State → UInt8
  | .ready => 0x02
  | .provisioning => 0x03
  | .provisioned => 0x04

inductive Error where
  | none
  | invalidRpc
  | unknownCommand
  | unableToConnect
  | notAuthorized
  | unknown
  deriving DecidableEq, Repr

def Error.code : Error → UInt8
  | .none => 0x00
  | .invalidRpc => 0x01
  | .unknownCommand => 0x02
  | .unableToConnect => 0x03
  | .notAuthorized => 0x04
  | .unknown => 0xFF

def encodeCurrentState (state : State) (out : Option (Memory UInt8 outCap)) :
    Option (Nat × Option (Memory UInt8 outCap)) :=
  encodeOneByte kTypeCurrentState state.code out

def encodeError (error : Error) (out : Option (Memory UInt8 outCap)) :
    Option (Nat × Option (Memory UInt8 outCap)) :=
  encodeOneByte kTypeErrorState error.code out

/-- A C string, without its NUL; `none` is a null pointer, in the array or for it. -/
abbrev CString := Option (List UInt8)

/-- The first loop: the sum of the lengths, or `none` where it returns 0. -/
def resultLength : List CString → Nat → Option Nat
  | [], dataLen => some dataLen
  | none :: _, _ => none
  | some string :: strings, dataLen =>
      if string.length > 255 then none else resultLength strings (dataLen + (1 + string.length))

def writeStrings (out : Memory UInt8 outCap) (n : Nat) :
    List CString → Option (Nat × Memory UInt8 outCap)
  | [] => some (n, out)
  | none :: _ => none
  | some string :: strings => do
      let out ← out.store? n [string.length.toUInt8]
      let out ← out.store? (n + 1) string
      writeStrings out (n + 1 + string.length) strings

def encodeRpcResult (command : UInt8) (strings : List CString)
    (out : Option (Memory UInt8 outCap)) : Option (Nat × Option (Memory UInt8 outCap)) :=
  match out with
  | none => some (0, none)
  | some buffer =>
      match resultLength strings 0 with
      | none => some (0, some buffer)
      | some dataLen =>
          let payloadLen := 2 + dataLen
          if payloadLen > kMaxPayload then some (0, some buffer)
          else if outCap < 9 + payloadLen + 1 then some (0, some buffer)
          else do
            let (n, buffer) ← writeFrame buffer kTypeRpcResult payloadLen.toUInt8
            let buffer ← buffer.store? n [command]
            let buffer ← buffer.store? (n + 1) [dataLen.toUInt8]
            let (n, buffer) ← writeStrings buffer (n + 2) strings
            let (n, buffer) ← sealPacket buffer n
            some (n, some buffer)

end Encoders

/-! ## What a client reads -/

/-- Type and payload of a packet with the right header, version, length and checksum. -/
def openPacket (bytes : List UInt8) : Option (UInt8 × List UInt8) :=
  let payload := (bytes.drop 9).dropLast
  if bytes.take 6 = kHeader ∧ bytes[6]? = some kVersion ∧
      bytes[8]? = some payload.length.toUInt8 ∧
      bytes.getLast? = some (checksum bytes.dropLast) then
    bytes[7]?.map fun type => (type, payload)
  else none

/-- `[len1][str1][len2][str2]…`, at most `fuel` strings. -/
def stringsOf : Nat → List UInt8 → Option (List (List UInt8))
  | _, [] => some []
  | 0, _ :: _ => none
  | fuel + 1, len :: rest =>
      if len.toNat ≤ rest.length then
        (stringsOf fuel (rest.drop len.toNat)).map (rest.take len.toNat :: ·)
      else none

/-- The command and the strings of an RPC result. -/
def decodeRpcResult (bytes : List UInt8) : Option (UInt8 × List (List UInt8)) :=
  match openPacket bytes with
  | some (type, command :: dataLen :: data) =>
      if type = kTypeRpcResult ∧ dataLen.toNat = data.length then
        (stringsOf data.length data).map fun strings => (command, strings)
      else none
  | _ => none

def wifiSettings (ssid pass : List UInt8) : List UInt8 :=
  ssid.length.toUInt8 :: ssid ++ pass.length.toUInt8 :: pass

def keyWrite (key : List UInt8) : List UInt8 := key.length.toUInt8 :: key

end FryFirmware.Improv
