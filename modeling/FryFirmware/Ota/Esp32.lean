import FryFirmware.Ota.CommitProperties
import Mathlib.Data.List.Basic
import Mathlib.Tactic.Common

/-!
# The download on the ESP32

`downloadAndApply` of `src/core/ota_client.cpp` as it is compiled for the ESP32, with
the digest check on two `String` copies. The `Update` object is a parameter; `log`
records what happens at its interface and the stream's.
-/

set_option autoImplicit false

namespace FryFirmware.Ota.Esp32

structure Update (υ : Type) where
  begin : υ → Nat → υ × Bool
  write : υ → List UInt8 → υ × Nat
  abort : υ → υ
  endUpdate : υ → Bool → υ × Bool

inductive Action where
  | read (bytes : List UInt8)
  | write (data : List UInt8) (accepted : Nat)
  | abort
  | endUpdate (evenIfRemaining result : Bool)
  deriving DecidableEq, Repr

structure Device (υ : Type) where
  updater : υ
  log : List Action := []

/-! ## The digest check -/

/-- Whether the copy of the computed digest and the one of the manifest's get memory. -/
structure Copies where
  got : Bool
  want : Bool
  deriving DecidableEq, Repr

/-- A `String` that is copied: without memory it is the empty one. -/
def copied (memory : Bool) (s : List UInt8) : List UInt8 := if memory then s else []

def toLowerCase (s : List UInt8) : List UInt8 := s.map asciiLowerChar

/-- The text in a buffer, up to its NUL. -/
def textOf (buffer : List UInt8) : List UInt8 := buffer.takeWhile fun c => c ≠ 0

/-- The outcome of `got != want` is that they are the same text. -/
def stringsAgree (copies : Copies) (hex shaExpect : List UInt8) : Bool :=
  let got := toLowerCase (copied copies.got (textOf hex))
  let want := toLowerCase (copied copies.want shaExpect)
  got = want

section

variable {υ : Type} (U : Update υ)

def Device.abort (d : Device υ) : Device υ := ⟨U.abort d.updater, d.log ++ [.abort]⟩

def Device.write (d : Device υ) (data : List UInt8) : Device υ × Nat :=
  let result := U.write d.updater data
  (⟨result.1, d.log ++ [.write data result.2]⟩, result.2)

def Device.endUpdate (d : Device υ) (evenIfRemaining : Bool) : Device υ × Bool :=
  let result := U.endUpdate d.updater evenIfRemaining
  (⟨result.1, d.log ++ [.endUpdate evenIfRemaining result.2]⟩, result.2)

/-! ## The stream loop -/

structure Streaming (υ : Type) where
  sha : Sha256 := {}
  device : Device υ
  done : Nat := 0
  lastData : UInt32

def Streaming.turn (s : Streaming υ) : Turn → Streaming υ × Turned
  | .available bytes now =>
      let r := bytes.length
      if r = 0 then (s, .leave)
      else
        let read : Device υ := ⟨s.device.updater, s.device.log ++ [.read bytes]⟩
        let result := read.write U bytes
        let s := { s with sha := s.sha.update bytes, device := result.1 }
        if result.2 ≠ r then ({ s with device := s.device.abort U }, .failed)
        else ({ s with done := s.done + r, lastData := now }, .again)
  | .idle connected now =>
      if !connected then (s, .leave)
      else if now - s.lastData > kStallMs then (s, .leave)
      else (s, .again)

/-- The loop over these turns. `again` at their end: it has not left them yet. -/
def Streaming.run (len : Nat) (s : Streaming υ) : List Turn → Streaming υ × Turned
  | [] => (s, if s.done < len then .again else .leave)
  | t :: rest =>
      if s.done < len then
        let result := s.turn U t
        if result.2 = .again then result.1.run len rest else result
      else (s, .leave)

/-! ## `downloadAndApply` -/

/-- What it meets before it streams: whether the URL and the heap gate are granted, and
the answer to the request. -/
structure Opening where
  url : Bool
  code : Int
  size : Int
  heap : Bool
  deriving DecidableEq, Repr

/-- The buffer that the digest is printed into. -/
def Streaming.hex (s : Streaming υ) : List UInt8 := bytesToHexUpper s.sha.finish 65

/-- From `sha.finish` to the return. -/
def Streaming.judge (s : Streaming υ) (shaExpect : List UInt8) (copies : Copies) :
    Device υ × Bool :=
  if !stringsAgree copies s.hex shaExpect then (s.device.abort U, false)
  else s.device.endUpdate U true

/-- What follows the loop. `none`: the loop still runs. -/
def Streaming.finish (len : Nat) (shaExpect : List UInt8) (copies : Copies) (s : Streaming υ) :
    Turned → Device υ × Option Bool
  | .again => (s.device, none)
  | .failed => (s.device, some false)
  | .leave =>
      if s.done ≠ len then (s.device.abort U, some false)
      else ((s.judge U shaExpect copies).1, some (s.judge U shaExpect copies).2)

/-- `downloadAndApply` with an `Update` found in `idle`, and what it returned. -/
def downloadAndApply (idle : υ) (opening : Opening) (shaExpect : List UInt8) (copies : Copies)
    (started : UInt32) (turns : List Turn) : Device υ × Option Bool :=
  if !opening.url then (⟨idle, []⟩, some false)
  else if opening.code ≠ 200 then (⟨idle, []⟩, some false)
  else if opening.size ≤ 0 then (⟨idle, []⟩, some false)
  else if !opening.heap then (⟨idle, []⟩, some false)
  else
    let len := opening.size.toNat
    let begun := U.begin idle len
    if !begun.2 then (⟨begun.1, []⟩, some false)
    else
      let opened : Streaming υ := { device := ⟨begun.1, []⟩, lastData := started }
      let result := opened.run U len turns
      result.1.finish U len shaExpect copies result.2

end

end FryFirmware.Ota.Esp32
