import FryFirmware.Config.Store
import Mathlib.Algebra.Ring.Nat
import Mathlib.Data.List.Basic
import Mathlib.Tactic.Common

/-!
# Reading the manifest body

`readManifestBody` of `lib/fry_core/ota_manifest_read.h` with the connection and the
sink of `src/core/ota_client.cpp`, over a network in which the peer's FIN comes in behind
all of its data.
-/

set_option autoImplicit false

namespace FryFirmware.Ota.Manifest

open Config (Text)

def kManifestMaxBytes : Nat := 4096
def kManifestReadChunk : Nat := 128

inductive ManifestRead where
  | Ok
  | Closed
  | TimedOut
  | NoRoom
  | TooBig
  deriving DecidableEq, Repr

/-! ## The connection -/

/-- What the peer sent and the queue has not got yet, and whether the peer will send
more. Once its FIN is in, nothing is under way. -/
inductive Wire where
  | streaming (inFlight : Text)
  | closing (inFlight : Text)
  | fin
  deriving DecidableEq, Repr

def Wire.inFlight : Wire → Text
  | .streaming inFlight => inFlight
  | .closing inFlight => inFlight
  | .fin => []

structure Net where
  taken : Text := []
  queue : Text := []
  wire : Wire := .streaming []
  deriving DecidableEq, Repr

/-- Every byte the peer sent so far. -/
def Net.sent (net : Net) : Text := net.taken ++ net.queue ++ net.wire.inFlight

inductive Arrival where
  | send (bytes : Text)
  | deliver (count : Nat)
  | close
  | fin
  deriving DecidableEq, Repr

/-- What the network does between two calls. -/
def Net.arrive (net : Net) : Arrival → Net
  | .send bytes =>
      match net.wire with
      | .streaming inFlight => { net with wire := .streaming (inFlight ++ bytes) }
      | _ => net
  | .deliver count =>
      match net.wire with
      | .streaming inFlight =>
          { net with queue := net.queue ++ inFlight.take count, wire := .streaming (inFlight.drop count) }
      | .closing inFlight =>
          { net with queue := net.queue ++ inFlight.take count, wire := .closing (inFlight.drop count) }
      | .fin => net
  | .close =>
      match net.wire with
      | .streaming inFlight => { net with wire := .closing inFlight }
      | _ => net
  | .fin =>
      match net.wire with
      | .closing [] => { net with wire := .fin }
      | _ => net

def Net.arriveAll (net : Net) (arrivals : List Arrival) : Net := arrivals.foldl Net.arrive net

/-- One turn of the loop as the world makes it: what arrives before `connected()`, before
`available()` and before `read()`, what the three answer, whether the heap has room for
the bytes, how long it takes up to the reading of the clock, and how long `idle()` takes
beyond a millisecond. -/
structure Turn where
  first : List Arrival := []
  opened : Bool := true
  second : List Arrival := []
  avail : Int := 0
  third : List Arrival := []
  read : Int := 0
  memory : Bool := true
  wait : Nat := 0
  idle : Nat := 0

/-- `connected()` answers false only where the FIN is in. -/
def Net.connected (net : Net) (t : Turn) : Bool := !decide (net.wire = .fin) || t.opened

/-- `available()` may miss what just arrived, but not bytes that were queued before a
`connected()` that saw the connection closed. -/
def Net.available (net : Net) (opened : Bool) (t : Turn) : Int :=
  if !opened ∧ net.queue ≠ [] then max 1 t.avail else t.avail

/-- `read(buf, want)`: up to `want` bytes of the queue, or a failure. -/
def Net.read (net : Net) (want : Nat) (t : Turn) : Text := net.queue.take (min t.read.toNat want)

/-! ## The sink -/

/-- `ManifestSink::append` into the String so far, and its answer. -/
def append (body bytes : Text) (memory : Bool) : Text × Bool :=
  if body.length + bytes.length > kManifestMaxBytes then (body, false)
  else if memory then (body ++ bytes, true) else (body, false)

/-! ## The loop -/

/-- The variables of the loop with the connection, the sink and the time in milliseconds.
`lastAt` is the time at which `last` was read, and `requests` has `got` and `want` of
every call of `read`. -/
structure Reader where
  net : Net
  sink : Text
  clock : Nat
  got : Nat
  last : UInt32
  lastAt : Nat
  requests : List (Nat × Nat)

/-- What `nowMs` reads at this time. -/
def nowMs (clock : Nat) : UInt32 := UInt32.ofNat clock

section

variable (expected : Nat) (timeoutMs : UInt32)

/-- The end of a turn without a byte. -/
def Reader.noByte (r : Reader) (t : Turn) : Reader × Option ManifestRead :=
  let r := { r with clock := r.clock + t.wait }
  if nowMs r.clock - r.last ≥ timeoutMs then (r, some .TimedOut)
  else ({ r with clock := r.clock + 1 + t.idle }, none)

/-- A turn of the loop: the state after it, and the answer where it returns. -/
def Reader.turn (r : Reader) (t : Turn) : Reader × Option ManifestRead :=
  let net := r.net.arriveAll t.first
  let opened := net.connected t
  let net := net.arriveAll t.second
  let avail := net.available opened t
  if avail > 0 then
    let want := min (min avail.toNat kManifestReadChunk) (expected - r.got)
    let net := net.arriveAll t.third
    let bytes := net.read want t
    let r :=
      { r with
        net := { net with taken := net.taken ++ bytes, queue := net.queue.drop bytes.length }
        requests := (r.got, want) :: r.requests }
    if bytes.length > 0 then
      let appended := append r.sink bytes t.memory
      if !appended.2 then (r, some .NoRoom)
      else
        let clock := r.clock + t.wait
        ({ r with
            sink := appended.1
            got := r.got + bytes.length
            clock := clock
            last := nowMs clock
            lastAt := clock }, none)
    else r.noByte timeoutMs t
  else if !opened then ({ r with net := net }, some .Closed)
  else ({ r with net := net }).noByte timeoutMs t

/-- The loop from turn `n` on, with fuel. -/
def Reader.loop (turns : Nat → Turn) : (fuel n : Nat) → Reader → Option (ManifestRead × Reader)
  | 0, _, _ => none
  | fuel + 1, n, r =>
      if r.got < expected then
        match r.turn expected timeoutMs (turns n) with
        | (r, some answer) => some (answer, r)
        | (r, none) => r.loop turns fuel (n + 1)
      else some (.Ok, r)

end

end FryFirmware.Ota.Manifest
