import FryFirmware.Config.Store
import FryFirmware.Lib.Json
import FryFirmware.Relay.Pool
import Mathlib.Data.List.Basic
import Mathlib.Tactic.Common

/-!
# Addresses and networks as text

The IPv4 helpers of `lib/fry_core/wg_provision.cpp`, the text of a route list as
`tick` of `src/esp32/wg_provision_client.cpp` joins it, and its two readers:
`applyAllowedIps` of `src/esp32/vpn_wireguard.cpp` and the loop of
`pickServerTunnelAddress` in `lib/fry_core/relay_guard.h`.
-/

set_option autoImplicit false

namespace FryFirmware.Wireguard

open Lib Config
open Lib.Json (isDigit natText numberText)
open Relay (prefixToMask)

/-- A `const char*`: null, or the bytes before the NUL. -/
abbrev CString := Option Text

/-! ## Parsing -/

/-- The loop of `parseOctetDigits`: how many digits it read, and their value. -/
def octetDigits : (left : Nat) → Text → (n : Nat) → (v : UInt32) → Nat × UInt32
  | left + 1, c :: s, n, v =>
      if isDigit c then octetDigits left s (n + 1) (v * 10 + (c - 48).toUInt32) else (n, v)
  | _, _, n, v => (n, v)

def parseOctetDigits (s : Text) : Nat × UInt32 := octetDigits 3 s 0 0

/-- The loop over the octets, with `left` of them after this one, and what follows
the last of them. -/
def parseOctets : (left : Nat) → Text → Option (List UInt32 × Text)
  | 0, p =>
      let read := parseOctetDigits p
      if read.1 = 0 ∨ read.2 > 255 then none else some ([read.2], p.drop read.1)
  | left + 1, p =>
      let read := parseOctetDigits p
      if read.1 = 0 ∨ read.2 > 255 then none
      else
        match p.drop read.1 with
        | 46 :: p => (parseOctets left p).map fun result => (read.2 :: result.1, result.2)
        | _ => none

/-- What `parseIpv4Cidr` makes of a text. -/
def readCidr (s : Text) : Option (UInt32 × Nat) :=
  match parseOctets 3 s with
  | some ([a, b, c, d], 47 :: p) =>
      let read := parseOctetDigits p
      if read.1 = 0 ∨ read.2 > 32 then none
      else if p.drop read.1 ≠ [] then none
      else some (a <<< 24 ||| b <<< 16 ||| c <<< 8 ||| d, read.2.toNat)
  | _ => none

/-- The result, and the two outputs, which are written where it succeeds. -/
def parseIpv4Cidr (s : CString) (out : UInt32 × Nat) : Bool × UInt32 × Nat :=
  match s.bind readCidr with
  | none => (false, out)
  | some result => (true, result)

/-! ## Formatting -/

/-- `snprintf(out, outLen, ...)`: what the buffer holds afterwards, and the length of
the whole text, or 0 where it does not fit. -/
def snprintf (printed : Text) (outLen : Nat) : Text × Nat :=
  (printed.take (outLen - 1), if printed.length ≥ outLen then 0 else printed.length)

def octet (ip shift : UInt32) : Text := natText (ip >>> shift &&& 0xFF).toNat

def dotted (ip : UInt32) : Text :=
  octet ip 24 ++ 46 :: (octet ip 16 ++ 46 :: (octet ip 8 ++ 46 :: octet ip 0))

/-- What the buffer holds afterwards, `out` being in it before, and the result. -/
def formatIpv4 (ip : UInt32) (out : Text) (outLen : Nat) : Text × Nat :=
  if outLen < 16 then (out, 0) else snprintf (dotted ip) outLen

def formatIpv4Cidr (ip : UInt32) (bits : Int) (out : Text) (outLen : Nat) : Text × Nat :=
  if outLen < 19 then (out, 0) else snprintf (dotted ip ++ 47 :: numberText bits) outLen

/-- The loop of `maskToPrefix`, with `left` bits to go. -/
def maskBits (mask bit : UInt32) : (left : Nat) → (bits : Nat) → Nat
  | 0, bits => bits
  | left + 1, bits =>
      if bit ≠ 0 ∧ mask &&& bit ≠ 0 then maskBits mask (bit >>> 1) left (bits + 1) else bits

def maskToPrefix (mask : UInt32) : Nat := maskBits mask 0x80000000 32 0

/-! ## A list of routes as one text -/

/-- The entries with a semicolon in front of each but the first. -/
def allowedCsv : List Text → Text
  | [] => []
  | first :: rest => rest.foldl (fun csv entry => csv ++ 59 :: entry) first

/-- `indexOf(';', start)`; `none` stands for -1. -/
def indexOfSemicolon (csv : Text) (start : Nat) : Option Nat :=
  ((csv.drop start).findIdx? fun c => c = 59).map (start + ·)

def substring (csv : Text) (start stop : Nat) : Text := (csv.take stop).drop start

/-- A call of `esp_wireguard_add_allowed_ip`, and what its arguments were made from. -/
structure AllowedIp where
  ip : UInt32
  bits : Nat
  ipStr : Text
  maskStr : Text
  deriving DecidableEq, Repr

def allowedIpOf (route : UInt32 × Nat) : AllowedIp where
  ip := route.1
  bits := route.2
  ipStr := (formatIpv4 route.1 [] 16).1
  maskStr := (formatIpv4 (prefixToMask route.2) [] 16).1

/-- One entry of the loop of `applyAllowedIps`. -/
def applyEntry (entry : Text) : List AllowedIp :=
  if entry.length > 0 then
    match parseIpv4Cidr (some entry) (0, 0) with
    | (true, route) => [allowedIpOf route]
    | (false, _) => []
  else []

/-- The loop of `applyAllowedIps` from `start` on, so many turns of it. -/
def applyFrom (csv : Text) : (turns : Nat) → (start : Nat) → List AllowedIp
  | 0, _ => []
  | turns + 1, start =>
      if start ≤ csv.length then
        match indexOfSemicolon csv start with
        | none => applyEntry (substring csv start csv.length)
        | some sep => applyEntry (substring csv start sep) ++ applyFrom csv turns (sep + 1)
      else []

/-- Each turn goes past a semicolon, so the turns suffice. -/
def applyAllowedIps (csv : Text) : List AllowedIp := applyFrom csv (csv.length + 1) 0

/-- What `pickServerTunnelAddress` makes of an entry: it has to fit the buffer. -/
def pickEntry (entry : Text) : Option (UInt32 × Nat) :=
  if entry.length > 0 ∧ entry.length < 20 then
    match parseIpv4Cidr (some entry) (0, 0) with
    | (true, route) => some route
    | (false, _) => none
  else none

/-- The entries `pickServerTunnelAddress` goes through, from `p` on, so many turns. -/
def pickFrom : (turns : Nat) → (p : Text) → List (UInt32 × Nat)
  | 0, _ => []
  | turns + 1, p =>
      if p = [] then []
      else
        let entry := p.takeWhile fun c => c ≠ 59
        match p.drop entry.length with
        | [] => (pickEntry entry).toList
        | _ :: p => (pickEntry entry).toList ++ pickFrom turns p

def pickEntries (csv : Text) : List (UInt32 × Nat) := pickFrom (csv.length + 1) csv

/-- The first /32 of them that is not the device's own address, or 0. -/
def pickServerTunnelAddress (csv : CString) (deviceIp : UInt32) : UInt32 :=
  match csv with
  | none => 0
  | some csv =>
      match (pickEntries csv).find? fun route => route.2 = 32 ∧ route.1 ≠ deviceIp with
      | some route => route.1
      | none => 0

end FryFirmware.Wireguard
