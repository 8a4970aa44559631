import FryFirmware.Relay.Session

/-!
# The slot pool

`lib/fry_core/socks_relay_core.cpp`: deadlines, free and evictable slots and the
descriptors the next `select` watches. `src/esp32/vpn_wireguard.cpp`: the timer
pass and `acceptClients`. A null pointer in the slot array is `none`.
-/

set_option autoImplicit false

namespace FryFirmware.Relay

open Lib

abbrev Pool := List (Option Slot)

/-- Client slots served by one select loop. -/
def kMaxSlots : Nat := 4

/-! ## Deadlines -/

def kNoDeadline : UInt32 := 0xFFFFFFFF

def remaining (limit el : UInt32) : UInt32 := if el ≥ limit then 0 else limit - el

def slotRemainingMs (s : Slot) (t : Timing) (now : UInt32) : UInt32 :=
  match s.phase with
  | .greeting => remaining t.greetingMs (elapsed now s.phaseStartMs)
  | .request => remaining t.requestMs (elapsed now s.phaseStartMs)
  | .needConnect | .connecting => remaining t.connectMs (elapsed now s.phaseStartMs)
  | .relay =>
      let r := remaining t.idleMs (elapsed now s.lastActivityMs)
      let r :=
        if s.halfClosing then
          let h := remaining t.halfCloseMs (elapsed now s.halfCloseStartMs)
          if h < r then h else r
        else r
      if s.graceUp then
        let g := remaining s.finGraceMs (elapsed now s.graceStartMs)
        if g < r then g else r
      else r
  | .flush => remaining t.flushMs (elapsed now s.phaseStartMs)
  | .free | .closed => kNoDeadline

def poolSelectTimeoutMs (slots : Pool) (t : Timing) (now maxMs : UInt32) : UInt32 :=
  slots.foldl
    (fun ms slot =>
      match slot with
      | none => ms
      | some s =>
          if !isLive s then ms
          else if slotRemainingMs s t now < ms then slotRemainingMs s t now else ms)
    maxMs

/-- How a build carries out the FINs of one slot; `FRY_RELAY_HALFCLOSE` never
closes a descriptor. -/
inductive FinBuild where
  | close (drainedUp drainedClient : List (List UInt8))
  | halfClose

/-- The two `forwardFin` calls that follow a slot's timer. -/
def forwardFins (s : Slot) (now : UInt32) : FinBuild → Slot
  | .close drainedUp drainedClient =>
      (forwardFin (forwardFin s .up drainedUp now).1 .client drainedClient now).1
  | .halfClose => (takeShutdown (takeShutdown s .up).1 .client).1

def slotClosed (s : Slot) : Bool := s.phase = .closed

def timerPass (slots : Pool) (t : Timing) (now : UInt32) : Pool :=
  slots.map (Option.map fun s => onTimer s t now)

/-- The head of `relayTaskFn`'s loop: timers, FINs, and closed slots released. -/
def relayTimerPass (slots : Pool) (t : Timing) (now : UInt32) (fins : Nat → FinBuild) : Pool :=
  let serviced := (timerPass slots t now).mapIdx fun i slot =>
    slot.map fun s => forwardFins s now (fins i)
  serviced.map (Option.filter fun s => !slotClosed s)

/-! ## Watched descriptors -/

def fdInRange (fd fdSetSize : Int) : Bool := fd ≥ 0 && fd < fdSetSize

structure Watch where
  fd : Int
  rd : Bool
  wr : Bool
  deriving DecidableEq, Repr

/-- `w` holds the first `n` entries of the source's array. -/
structure WatchList where
  w : List Watch := []
  maxFd : Int := -1
  listenBad : Bool := false
  slotBad : List Bool := List.replicate kMaxSlots false
  deriving DecidableEq, Repr

def WatchList.add (out : WatchList) (fdSetSize fd : Int) (rd wr : Bool) : WatchList × Bool :=
  if !rd && !wr then (out, true)
  else if !fdInRange fd fdSetSize then (out, false)
  else
    ({ out with
        w := out.w ++ [{ fd, rd, wr }]
        maxFd := if fd > out.maxFd then fd else out.maxFd }, true)

/-- One turn of the loop of `buildWatchList`. -/
def watchSlot (fdSetSize : Int) (out : WatchList) (i : Nat) : Option Slot → WatchList
  | none => out
  | some s =>
      if !isLive s then out
      else
        let w := slotWants s
        let a := out.add fdSetSize s.clientFd w.clientRd w.clientWr
        let b := a.1.add fdSetSize s.upFd w.upRd w.upWr
        if !a.2 || !b.2 then { b.1 with slotBad := b.1.slotBad.set i true } else b.1

/-- The loop of `buildWatchList`, from index `i` on. -/
def watchSlots (fdSetSize : Int) : WatchList → Nat → Pool → WatchList
  | out, _, [] => out
  | out, i, slot :: slots =>
      if i < kMaxSlots then watchSlots fdSetSize (watchSlot fdSetSize out i slot) (i + 1) slots
      else out

def buildWatchList (slots : Pool) (listenFd : Int) (watchListen : Bool) (fdSetSize : Int) :
    WatchList :=
  let out : WatchList := {}
  let out :=
    if watchListen then
      let listen := out.add fdSetSize listenFd true false
      if !listen.2 then { listen.1 with listenBad := true } else listen.1
    else out
  watchSlots fdSetSize out 0 slots

/-! ## Free and evictable slots -/

/-- The loop of `poolFreeIndex`, from index `i` on. -/
def freeFrom : Nat → Pool → Int
  | _, [] => -1
  | i, none :: _ => i
  | i, some _ :: slots => freeFrom (i + 1) slots

def poolFreeIndex (slots : Pool) : Int := freeFrom 0 slots

/-- The loop of `poolEvictIndex`, from index `i` on. -/
def evictFrom (now minAgeMs : UInt32) : Nat → Int → UInt32 → Pool → Int
  | _, best, _, [] => best
  | i, best, bestAge, none :: slots => evictFrom now minAgeMs (i + 1) best bestAge slots
  | i, best, bestAge, some s :: slots =>
      if !isHandshake s then evictFrom now minAgeMs (i + 1) best bestAge slots
      else
        let age := elapsed now s.lastActivityMs
        if age ≥ minAgeMs ∧ (best < 0 ∨ age > bestAge) then
          evictFrom now minAgeMs (i + 1) i age slots
        else evictFrom now minAgeMs (i + 1) best bestAge slots

def poolEvictIndex (slots : Pool) (now minAgeMs : UInt32) : Int :=
  evictFrom now minAgeMs 0 (-1) 0 slots

/-! ## Admission -/

def kMinTunnelPrefix : Int := 8

def kMaxSubnetPrefix : Int := 31

def prefixToMask (bits : Int) : UInt32 :=
  if bits ≤ 0 then 0
  else if bits ≥ 32 then 0xFFFFFFFF
  else 0xFFFFFFFF <<< UInt32.ofNat (32 - bits).toNat

def ipInSubnet (ip deviceIp : UInt32) (bits : Int) : Bool :=
  ip &&& prefixToMask bits = deviceIp &&& prefixToMask bits

def prefixAdmitsPeers (bits : Int) : Bool := bits ≥ kMinTunnelPrefix && bits ≤ kMaxSubnetPrefix

structure GuardConfig where
  deviceIp : UInt32 := 0
  prefixBits : Int := 32
  serverIp : UInt32 := 0
  deriving DecidableEq, Repr

def peerAdmitted (src : UInt32) (g : GuardConfig) : Bool :=
  (g.serverIp ≠ 0 && src = g.serverIp) ||
    (prefixAdmitsPeers g.prefixBits && ipInSubnet src g.deviceIp g.prefixBits)

/-! ## Accepting clients -/

/-- A stalled handshake may be evicted after this. -/
def kRelayEvictMinAgeMs : UInt32 := 1000

/-- What `accept` returned, and what the calls on the new descriptor answer. -/
structure Peer where
  fd : Int
  wholeAddress : Bool
  address : UInt32
  nonBlocking : Bool
  memory : Option (Memory UInt8 kBufSize × Memory UInt8 kBufSize)
  noDelay : Bool

structure RelayStats where
  closed : UInt32 := 0
  done : UInt32 := 0
  hsTimeout : UInt32 := 0
  hsEof : UInt32 := 0
  hsBad : UInt32 := 0
  connFail : UInt32 := 0
  connTimeout : UInt32 := 0
  idle : UInt32 := 0
  ioErr : UInt32 := 0
  evicted : UInt32 := 0
  fdGuard : UInt32 := 0
  noMem : UInt32 := 0
  srcDrop : UInt32 := 0
  noDelayFail : UInt32 := 0
  deriving DecidableEq, Repr

def bumpSaturating (counter : UInt32) : UInt32 :=
  if counter ≠ 0xFFFFFFFF then counter + 1 else counter

def tally (st : RelayStats) (s : Slot) : RelayStats :=
  let st := { st with closed := st.closed + 1 }
  match s.reason with
  | .done => { st with done := st.done + 1 }
  | .handshakeTimeout => { st with hsTimeout := st.hsTimeout + 1 }
  | .handshakeEof => { st with hsEof := st.hsEof + 1 }
  | .handshakeBad => { st with hsBad := st.hsBad + 1 }
  | .connectFail => { st with connFail := st.connFail + 1 }
  | .connectTimeout => { st with connTimeout := st.connTimeout + 1 }
  | .idle | .halfCloseTimeout => { st with idle := st.idle + 1 }
  | .evicted => { st with evicted := st.evicted + 1 }
  | .fdGuard => { st with fdGuard := st.fdGuard + 1 }
  | .none | .ioError => { st with ioErr := st.ioErr + 1 }

/-- An eviction: the pool before it, the index evicted and the peer it made room for. -/
structure Eviction where
  pool : Pool
  index : Nat
  peer : Peer

/-- The relay task's data that `acceptClients` works on, the resolver references
and descriptors it let go, and the evictions it carried out. -/
structure Acceptor where
  slots : Pool
  stats : RelayStats := {}
  accepted : Bool := false
  dnsDropped : List Int := []
  closedFds : List Int := []
  evictions : List Eviction := []

/-- `*slots[index]`; `none` is an access outside the array or through a null pointer. -/
def slotAt (slots : Pool) (index : Int) : Option Slot :=
  if index < 0 then none else (slots[index.toNat]?).join

def putSlot (slots : Pool) (index : Int) (slot : Option Slot) : Option Pool :=
  if 0 ≤ index ∧ index.toNat < slots.length then some (slots.set index.toNat slot) else none

def releaseSlot (a : Acceptor) (index : Int) (s : Slot) : Option Acceptor :=
  (putSlot a.slots index none).map fun slots =>
    { a with
      slots
      stats := tally a.stats s
      closedFds := a.closedFds ++ [s.clientFd, s.upFd].filter (· ≥ 0) }

def evict (a : Acceptor) (peer : Peer) (now : UInt32) : Option (Acceptor × Int) := do
  let index := poolEvictIndex a.slots now kRelayEvictMinAgeMs
  let s ← slotAt a.slots index
  let a :=
    { a with
      dnsDropped := a.dnsDropped ++ [index]
      evictions := a.evictions ++ [{ pool := a.slots, index := index.toNat, peer }] }
  let a ← releaseSlot a index (slotForceClose s .evicted)
  return (a, index)

/-- The rest of one turn, with a slot index at hand. -/
def occupy (a : Acceptor) (index : Int) (peer : Peer) (now finGraceMs : UInt32)
    (fdSetSize : Int) : Option Acceptor :=
  if !fdInRange peer.fd fdSetSize || !peer.nonBlocking then
    some
      { a with
        stats := { a.stats with fdGuard := a.stats.fdGuard + 1 }
        closedFds := a.closedFds ++ [peer.fd] }
  else
    match peer.memory with
    | none =>
        some
          { a with
            stats := { a.stats with noMem := a.stats.noMem + 1 }
            closedFds := a.closedFds ++ [peer.fd] }
    | some (c2u, u2c) =>
        (putSlot a.slots index (some { slotInit c2u u2c peer.fd now with finGraceMs })).map
          fun slots =>
            { a with
              slots
              dnsDropped := a.dnsDropped ++ [index]
              stats :=
                if !peer.noDelay then { a.stats with noDelayFail := a.stats.noDelayFail + 1 }
                else a.stats }

/-- What one turn does with an accepted peer. -/
def acceptPeer (guard : GuardConfig) (now finGraceMs : UInt32) (fdSetSize : Int)
    (a : Acceptor) (peer : Peer) : Option Acceptor :=
  let a := { a with accepted := true }
  if !peer.wholeAddress || !peerAdmitted peer.address guard then
    some
      { a with
        stats := { a.stats with srcDrop := bumpSaturating a.stats.srcDrop }
        closedFds := a.closedFds ++ [peer.fd] }
  else
    let index := poolFreeIndex a.slots
    if index < 0 then
      (evict a peer now).bind fun evicted => occupy evicted.1 evicted.2 peer now finGraceMs fdSetSize
    else occupy a index peer now finGraceMs fdSetSize

/-- The loop of `acceptClients` with `turns` turns left. `peers` is what `accept`
returns; it fails once the list is used up. -/
def acceptTurns (guard : GuardConfig) (now finGraceMs : UInt32) (fdSetSize : Int) :
    Nat → Acceptor → List Peer → Option Acceptor
  | 0, a, _ => some a
  | turns + 1, a, peers =>
      if poolFreeIndex a.slots < 0 ∧ poolEvictIndex a.slots now kRelayEvictMinAgeMs < 0 then some a
      else
        match peers with
        | [] => some a
        | peer :: peers =>
            (acceptPeer guard now finGraceMs fdSetSize a peer).bind fun a =>
              acceptTurns guard now finGraceMs fdSetSize turns a peers

/-- `acceptClients`; `none` is an access outside the slot array. -/
def acceptClients (guard : GuardConfig) (slots : Pool) (stats : RelayStats)
    (now finGraceMs : UInt32) (fdSetSize : Int) (peers : List Peer) : Option Acceptor :=
  acceptTurns guard now finGraceMs fdSetSize slots.length { slots, stats } peers

end FryFirmware.Relay
