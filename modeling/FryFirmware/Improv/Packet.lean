import FryFirmware.Lib.Memory
import Mathlib.Data.List.Infix
import Mathlib.Tactic.Common

/-!
# Improv packets and their parser

`Parser` of `lib/fry_core/improv_serial.cpp`, fed one byte at a time. The UART
also carries log text, so a packet may start at any byte.
-/

set_option autoImplicit false

namespace FryFirmware.Improv

open Lib

def kHeader : List UInt8 := [0x49, 0x4D, 0x50, 0x52, 0x4F, 0x56]

def kVersion : UInt8 := 0x01

def kTypeCurrentState : UInt8 := 0x01
def kTypeErrorState : UInt8 := 0x02
def kTypeRpc : UInt8 := 0x03
def kTypeRpcResult : UInt8 := 0x04

def kMaxPayload : Nat := 128

/-- Header, version, type, length, payload and checksum. -/
def kMaxPacket : Nat := 6 + 1 + 1 + 1 + kMaxPayload + 1

def byteSum (bytes : List UInt8) : UInt32 :=
  bytes.foldl (fun sum b => sum + b.toUInt32) 0

/-- The sum of every preceding byte, & 0xFF. -/
def checksum (bytes : List UInt8) : UInt8 := (byteSum bytes &&& 0xFF).toUInt8

/-- What a single fed byte did. -/
inductive Result where
  | none
  | rpc
  | badChecksum
  | malformed
  deriving DecidableEq, Repr

inductive Stage where
  | header
  | version
  | type
  | length
  | payload
  | checksum
  deriving DecidableEq, Repr

/-- `data` points into `payload`. -/
structure Parser where
  stage : Stage := .header
  headerIdx : UInt8 := 0
  type : UInt8 := 0
  len : UInt8 := 0
  got : UInt8 := 0
  sum : UInt32 := 0
  payload : Memory UInt8 kMaxPayload
  command : UInt8 := 0
  data : Option Nat := .none
  dataLen : UInt8 := 0
  deriving DecidableEq

namespace Parser

/-- A new parser; its buffer holds anything. -/
def start (payload : Memory UInt8 kMaxPayload) : Parser := { payload }

/-- Back to hunting for a header, re-testing the byte that broke the packet. -/
def restart (p : Parser) (r : Result) (b : UInt8) : Parser × Result :=
  let headerIdx : UInt8 := if kHeader.head? = some b then 1 else 0
  ({ p with
      stage := .header
      headerIdx
      sum := if headerIdx ≠ 0 then b.toUInt32 else 0 }, r)

def payloadAt (p : Parser) (i : Nat) : UInt8 := p.payload.cells.getD i 0

def feed (p : Parser) (b : UInt8) : Parser × Result :=
  match p.stage with
  | .header =>
      if kHeader[p.headerIdx.toNat]? = some b then
        let headerIdx := p.headerIdx + 1
        ({ p with
            sum := p.sum + b.toUInt32
            headerIdx
            stage := if headerIdx.toNat = kHeader.length then .version else .header }, .none)
      else p.restart .none b
  | .version =>
      if b ≠ kVersion then p.restart .malformed b
      else ({ p with sum := p.sum + b.toUInt32, stage := .type }, .none)
  | .type => ({ p with sum := p.sum + b.toUInt32, type := b, stage := .length }, .none)
  | .length =>
      if b.toNat > kMaxPayload then p.restart .malformed b
      else
        ({ p with
            sum := p.sum + b.toUInt32
            len := b
            got := 0
            stage := if b ≠ 0 then .payload else .checksum }, .none)
  | .payload =>
      let got := p.got + 1
      ({ p with
          sum := p.sum + b.toUInt32
          payload := p.payload.store p.got.toNat [b]
          got
          stage := if got = p.len then .checksum else .payload }, .none)
  | .checksum =>
      let ok := b = (p.sum &&& 0xFF).toUInt8
      let q := (p.restart .none b).1
      if ¬ ok then (q, .badChecksum)
      else if p.type ≠ kTypeRpc then (q, .none)
      else if p.len < 2 ∨ p.len - 2 ≠ p.payloadAt 1 then (q, .malformed)
      else
        ({ q with
            command := p.payloadAt 0
            data := some 2
            dataLen := p.payloadAt 1 }, .rpc)

def dataBytes (p : Parser) : List UInt8 :=
  match p.data with
  | .none => []
  | some offset => p.payload.window offset (offset + p.dataLen.toNat)

def run (p : Parser) (bytes : List UInt8) : Parser := bytes.foldl (fun p b => (p.feed b).1) p

/-- The command and data of each `Rpc` result, read before the next byte is fed. -/
def received (p : Parser) : List UInt8 → List (UInt8 × List UInt8)
  | [] => []
  | b :: bytes =>
      let fed := p.feed b
      if fed.2 = .rpc then (fed.1.command, fed.1.dataBytes) :: fed.1.received bytes
      else fed.1.received bytes

end Parser

/-! ## Packets -/

/-- Everything before the checksum. -/
def frame (type : UInt8) (payload : List UInt8) : List UInt8 :=
  kHeader ++ [kVersion, type, payload.length.toUInt8] ++ payload

def packet (type : UInt8) (payload : List UInt8) : List UInt8 :=
  frame type payload ++ [checksum (frame type payload)]

/-- A command with data that fits a packet. -/
structure Rpc where
  command : UInt8
  data : List UInt8
  fits : 2 + data.length ≤ kMaxPayload
  deriving DecidableEq

namespace Rpc

def payload (r : Rpc) : List UInt8 := r.command :: r.data.length.toUInt8 :: r.data

def packet (r : Rpc) : List UInt8 := Improv.packet kTypeRpc r.payload

def content (r : Rpc) : UInt8 × List UInt8 := (r.command, r.data)

end Rpc

/-- A packet and the log text after it. -/
structure Segment where
  rpc : Rpc
  junk : List UInt8

namespace Segment

def bytes (s : Segment) : List UInt8 := s.rpc.packet ++ s.junk

/-- No header in the junk, also not one that the checksum before it begins. -/
def Clean (s : Segment) : Prop :=
  ¬ kHeader <:+: s.junk ∧
    (checksum (frame kTypeRpc s.rpc.payload) = 0x49 → ¬ kHeader.tail <+: s.junk)

instance (s : Segment) : Decidable s.Clean := inferInstanceAs (Decidable (_ ∧ _))

end Segment

end FryFirmware.Improv
