import FryFirmware.Ota.Sha256
import Mathlib.Data.List.Basic
import Mathlib.Tactic.Common

/-!
# Streaming an image into the Updater

`downloadAndApply` of `src/core/ota_client.cpp` on the ESP8266, with
`HeldTailWriter` of `lib/fry_core/ota_stage_guard.h` and `sha256HexMatches` of
`ota_sha_match.h`. The Updater belongs to the ESP8266 core and is a parameter;
`log` records what happens at its interface and the stream's, in order.
-/

set_option autoImplicit false

namespace FryFirmware.Ota

/-! ## The digest comparison -/

def asciiLowerChar (c : UInt8) : UInt8 := if c ≥ 65 ∧ c ≤ 90 then c + 32 else c

/-- `asciiLowerInPlace`: up to the first NUL. -/
def asciiLowerInPlace : List UInt8 → List UInt8
  | [] => []
  | c :: rest => if c = 0 then c :: rest else asciiLowerChar c :: asciiLowerInPlace rest

/-- The loop of `sha256HexMatches`, from index `i` with `left` turns to go. -/
def sha256HexMatchesFrom (hex expect : List UInt8) (i : Nat) : Nat → Bool
  | 0 => true
  | left + 1 =>
      if hex.getD i 0 = 0 then false
      else if asciiLowerChar (hex.getD i 0) ≠ asciiLowerChar (expect.getD i 0) then false
      else sha256HexMatchesFrom hex expect (i + 1) left

def sha256HexMatches (hex expect : List UInt8) (expectLen : Nat) : Bool :=
  if expectLen ≠ 64 then false
  else sha256HexMatchesFrom hex expect 0 64 && decide (hex.getD 64 0 = 0)

/-! ## The Updater -/

/-- The ESP8266 core's `UpdaterClass` and its eboot command. `staged` says that a
command to copy the image is stored. -/
structure Updater (υ : Type) where
  begin : υ → Nat → υ × Bool
  write : υ → List UInt8 → υ × Nat
  endUpdate : υ → Bool → υ × Bool
  ebootCommandClear : υ → υ
  progress : υ → Nat
  hasError : υ → Bool
  staged : υ → Bool

/-- The Updater after these writes. -/
def Updater.feed {υ : Type} (U : Updater υ) (u : υ) (chunks : List (List UInt8)) : υ :=
  chunks.foldl (fun u data => (U.write u data).1) u

/-- The Updater of an update of `total` bytes begun in `idle`, after these writes. -/
def Updater.after {υ : Type} (U : Updater υ) (idle : υ) (total : Nat) (chunks : List (List UInt8)) :
    υ :=
  U.feed (U.begin idle total).1 chunks

/-- The Updater as `ota_stage_guard.h` describes it: only `end` stages, an error or
a missing byte keeps `end(false)` from it, and progress stays behind the bytes
written unless an error is set. -/
structure Updater.Described {υ : Type} (U : Updater υ) (idle : υ) (total : Nat) : Prop where
  idleClear : U.staged idle = false
  writesClear : ∀ chunks, U.staged (U.after idle total chunks) = false
  progress_le : ∀ chunks, U.hasError (U.after idle total chunks) = true ∨
    U.progress (U.after idle total chunks) ≤ chunks.flatten.length
  refused : ∀ chunks data, (U.write (U.after idle total chunks) data).2 ≠ data.length →
    U.hasError (U.write (U.after idle total chunks) data).1 = true
  unfinished : ∀ chunks, U.hasError (U.after idle total chunks) = true ∨
      U.progress (U.after idle total chunks) < total →
    U.staged (U.endUpdate (U.after idle total chunks) false).1 = false
  failed : ∀ chunks, (U.endUpdate (U.after idle total chunks) true).2 = false →
    U.staged (U.endUpdate (U.after idle total chunks) true).1 = false
  cleared : ∀ u, U.staged u = false → U.staged (U.ebootCommandClear u) = false

/-- What happened at the stream, at the Updater, and at the digest check. -/
inductive Action where
  | read (bytes : List UInt8)
  | write (data : List UInt8) (accepted : Nat)
  | judge (matched : Bool)
  | endUpdate (evenIfRemaining result : Bool)
  deriving DecidableEq, Repr

structure Device (υ : Type) where
  updater : υ
  log : List Action := []

section Device

variable {υ : Type} (U : Updater υ)

def Device.write (d : Device υ) (data : List UInt8) : Device υ × Nat :=
  let result := U.write d.updater data
  (⟨result.1, d.log ++ [.write data result.2]⟩, result.2)

def Device.endUpdate (d : Device υ) (evenIfRemaining : Bool) : Device υ × Bool :=
  let result := U.endUpdate d.updater evenIfRemaining
  (⟨result.1, d.log ++ [.endUpdate evenIfRemaining result.2]⟩, result.2)

def Device.ebootCommandClear (d : Device υ) : Device υ :=
  { d with updater := U.ebootCommandClear d.updater }

def Device.note (d : Device υ) (action : Action) : Device υ := { d with log := d.log ++ [action] }

/-! ## `HeldTailWriter` -/

structure HeldTailWriter where
  total : Nat
  seen : Nat := 0
  tail : UInt8 := 0
  held : Bool := false
  deriving DecidableEq, Repr

def HeldTailWriter.write (w : HeldTailWriter) (d : Device υ) (data : List UInt8) :
    HeldTailWriter × Device υ × Bool :=
  let n := data.length
  if n = 0 then (w, d, true)
  else if w.held ∨ w.seen + n > w.total then (w, d, false)
  else if w.seen + n < w.total then
    let result := d.write U data
    if result.2 ≠ n then (w, result.1, false) else ({ w with seen := w.seen + n }, result.1, true)
  else
    let result := if n > 1 then d.write U (data.take (n - 1)) else (d, n - 1)
    if result.2 ≠ n - 1 then (w, result.1, false)
    else
      ({ w with tail := data.getD (n - 1) 0, held := true, seen := w.seen + n }, result.1, true)

def HeldTailWriter.commit (w : HeldTailWriter) (d : Device υ) : Device υ × Bool :=
  if !w.held then ((d.endUpdate U false).1, false)
  else
    let result := d.write U [w.tail]
    if result.2 ≠ 1 then ((result.1.endUpdate U false).1, false)
    else result.1.endUpdate U true

def discard (d : Device υ) : Device υ := (d.endUpdate U false).1

/-! ## The stream loop -/

def kStallMs : UInt32 := 20000

/-- What one turn of the loop finds: bytes were available and this is what
`readBytes` returned (nothing: it failed), or none were. `now` is `millis()`. -/
inductive Turn where
  | available (bytes : List UInt8) (now : UInt32)
  | idle (connected : Bool) (now : UInt32)
  deriving DecidableEq, Repr

structure Streaming (υ : Type) where
  sha : Sha256
  upd : HeldTailWriter
  device : Device υ
  done : Nat := 0
  lastData : UInt32

/-- How a turn ends: with another one, at `break`, or at the return after a failed
write. -/
inductive Turned where
  | again
  | leave
  | failed
  deriving DecidableEq, Repr

def Streaming.turn (s : Streaming υ) : Turn → Streaming υ × Turned
  | .available bytes now =>
      let r := bytes.length
      if r = 0 then (s, .leave)
      else
        let s := { s with sha := s.sha.update bytes, device := s.device.note (.read bytes) }
        let result := s.upd.write U s.device bytes
        if !result.2.2 then ({ s with upd := result.1, device := discard U result.2.1 }, .failed)
        else
          ({ s with upd := result.1, device := result.2.1, done := s.done + r, lastData := now }, .again)
  | .idle connected now =>
      if !connected then (s, .leave)
      else if now - s.lastData > kStallMs then (s, .leave)
      else (s, .again)

/-- The loop over these turns. `again` at their end: it has not left them yet. -/
def Streaming.run (len : Nat) (s : Streaming υ) : List Turn → Streaming υ × Turned
  | [] => (s, if s.done < len then .again else .leave)
  | t :: rest =>
      if s.done < len then
        let result := s.turn U t
        if result.2 = .again then result.1.run len rest else result
      else (s, .leave)

/-! ## `downloadAndApply` -/

/-- What `downloadAndApply` meets before it streams: whether its client, the URL,
the heap gate and the buffers are granted, and the answer to the request. -/
structure Opening where
  client : Bool
  url : Bool
  code : Int
  size : Int
  heap : Bool
  buffers : Bool
  deriving DecidableEq, Repr

/-- From `sha.finish` to the return: the digest check and the commit. -/
def Streaming.judge (s : Streaming υ) (shaExpect : List UInt8) : Device υ × Bool :=
  let hex := asciiLowerInPlace (bytesToHexUpper s.sha.finish 65)
  let matched := sha256HexMatches hex shaExpect shaExpect.length
  let device := s.device.note (.judge matched)
  if !matched then ((discard U device).ebootCommandClear U, false) else s.upd.commit U device

/-- What follows the loop. `none`: the loop still runs. -/
def Streaming.finish (len : Nat) (shaExpect : List UInt8) (s : Streaming υ) :
    Turned → Device υ × Option Bool
  | .again => (s.device, none)
  | .failed => (s.device, some false)
  | .leave =>
      if s.done ≠ len then (discard U s.device, some false)
      else ((s.judge U shaExpect).1, some (s.judge U shaExpect).2)

/-- `downloadAndApply` against an Updater found in `idle`, and what it returned. -/
def downloadAndApply (idle : υ) (opening : Opening) (shaExpect : List UInt8) (started : UInt32)
    (turns : List Turn) : Device υ × Option Bool :=
  if !opening.client then (⟨idle, []⟩, some false)
  else if !opening.url then (⟨idle, []⟩, some false)
  else if opening.code ≠ 200 then (⟨idle, []⟩, some false)
  else if opening.size ≤ 0 then (⟨idle, []⟩, some false)
  else if !opening.heap then (⟨idle, []⟩, some false)
  else
    let len := opening.size.toNat
    let begun := U.begin idle len
    if !begun.2 then (⟨begun.1, []⟩, some false)
    else if !opening.buffers then (discard U ⟨begun.1, []⟩, some false)
    else
      let opened : Streaming υ :=
        { sha := {}, upd := { total := len }, device := ⟨begun.1, []⟩, lastData := started }
      let result := opened.run U len turns
      result.1.finish U len shaExpect result.2

end Device

end FryFirmware.Ota
