import FryFirmware.Lib.Memory

/-!
# SOCKS5 greeting and CONNECT parser

`lib/fry_core/socks5_parse.cpp`. Both parsers read a byte string and write two
output parameters, which they leave as they were unless the branch taken
assigns them.
-/

set_option autoImplicit false

namespace FryFirmware.Relay

open Lib

inductive Socks5Result where
  | ok
  | needMoreData
  | unsupportedMethod
  | unsupportedCommand
  | unsupportedAddrType
  | malformed
  deriving DecidableEq, Repr

inductive Socks5AddrType where
  | ipv4
  | domain
  | ipv6
  deriving DecidableEq, Repr

def Socks5AddrType.code : Socks5AddrType → UInt8
  | .ipv4 => 1
  | .domain => 3
  | .ipv6 => 4

structure Socks5Greeting where
  version : UInt8 := 0
  nmethods : UInt8 := 0
  noAuthOffered : Bool := false
  deriving DecidableEq, Repr

def hostSize : Nat := 256

structure Socks5ConnectRequest where
  version : UInt8 := 0
  command : UInt8 := 0
  addrType : Socks5AddrType := .ipv4
  host : Memory UInt8 hostSize := .filled hostSize 0
  port : UInt16 := 0
  deriving DecidableEq

/-- The C string a NUL-terminated character array holds. -/
def cString (memory : Memory UInt8 hostSize) : List UInt8 :=
  memory.cells.takeWhile (· ≠ 0)

def decimalText (octet : UInt8) : List UInt8 :=
  (Nat.toDigits 10 octet.toNat).map fun digit => UInt8.ofNat digit.toNat

/-- `%u.%u.%u.%u`; the character code of the dot is 46. -/
def dottedText (a b c d : UInt8) : List UInt8 :=
  decimalText a ++ [46] ++ decimalText b ++ [46] ++ decimalText c ++ [46] ++ decimalText d

def networkPort (high low : UInt8) : UInt16 :=
  (high.toUInt16 <<< 8) ||| low.toUInt16

def parseGreeting (data : List UInt8) (out : Socks5Greeting) (consumed : Nat) :
    Socks5Result × Socks5Greeting × Nat :=
  if data.length < 2 then (.needMoreData, out, consumed)
  else
    let version := data.getD 0 0
    let nmethods := data.getD 1 0
    if data.length < 2 + nmethods.toNat then (.needMoreData, out, consumed)
    else if version ≠ 0x05 then (.malformed, out, consumed)
    else
      let noAuth := ((data.drop 2).take nmethods.toNat).any (· == 0x00)
      (if noAuth then .ok else .unsupportedMethod,
        ⟨version, nmethods, noAuth⟩, 2 + nmethods.toNat)

def parseConnectRequest (data : List UInt8) (out : Socks5ConnectRequest)
    (consumed : Nat) : Socks5Result × Socks5ConnectRequest × Nat :=
  if data.length < 4 then (.needMoreData, out, consumed)
  else
    let version := data.getD 0 0
    let command := data.getD 1 0
    let atyp := data.getD 3 0
    if version ≠ 0x05 then (.malformed, out, consumed)
    else if command ≠ 0x01 then (.unsupportedCommand, out, consumed)
    else if atyp = Socks5AddrType.ipv4.code then
      let need := 4 + 4 + 2
      if data.length < need then (.needMoreData, out, consumed)
      else
        let text := dottedText (data.getD 4 0) (data.getD 5 0) (data.getD 6 0) (data.getD 7 0)
        (.ok,
          { version, command
            addrType := .ipv4
            host := out.host.store 0 (text ++ [0])
            port := networkPort (data.getD 8 0) (data.getD 9 0) },
          need)
    else if atyp = Socks5AddrType.domain.code then
      if data.length < 5 then (.needMoreData, out, consumed)
      else
        let dlen := (data.getD 4 0).toNat
        let need := 4 + 1 + dlen + 2
        if data.length < need then (.needMoreData, out, consumed)
        else if dlen ≥ hostSize then (.malformed, out, consumed)
        else
          (.ok,
            { version, command
              addrType := .domain
              host := out.host.store 0 ((data.drop 5).take dlen ++ [0])
              port := networkPort (data.getD (5 + dlen) 0) (data.getD (6 + dlen) 0) },
            need)
    else (.unsupportedAddrType, out, consumed)

end FryFirmware.Relay
