import FryFirmware.Lib.Clock
import FryFirmware.Lib.OrderedTrace
import FryFirmware.Lib.Ring
import FryFirmware.Ota.Redirect
import Mathlib.Data.List.Basic
import Mathlib.Tactic.Common

/-!
# Opening a TLS session

`src/esp8266/http_tls.cpp`, with `tls_sizing.cpp`, `mfln_cache.cpp`, `ntp_kick.cpp` and the
gates of `ota_heap_budget.h`: the trust anchors, the buffers and the clock that a session
gets, and what the calls of a boot leave behind for the next one.
-/

set_option autoImplicit false

namespace FryFirmware.Ota.Tls

open Lib
open Config (Text text)

/-! ## Buffers -/

structure HeapSample where
  freeTotal : UInt32
  maxBlock : UInt32
  deriving DecidableEq, Repr

def heapGatePass (freeTotal maxBlock minFreeTotal minBlock : UInt32) : Bool :=
  freeTotal ≥ minFreeTotal && maxBlock ≥ minBlock

inductive TlsSizing where
  | Refuse
  | Small
  | Big
  | ProbeFirst
  | Medium
  deriving DecidableEq, Repr

structure TlsPlan where
  sizing : TlsSizing
  affordable : Bool
  deriving DecidableEq, Repr

def planTls (sample : HeapSample) (minFreeTotal minBlock : UInt32)
    (peerMightHonourMfln smallReply : Bool) : TlsPlan :=
  let affordable := heapGatePass sample.freeTotal sample.maxBlock minFreeTotal minBlock
  let sizing :=
    if !affordable then if peerMightHonourMfln then .Small else .Refuse
    else if peerMightHonourMfln then .ProbeFirst
    else if smallReply then .Medium else .Big
  { sizing, affordable }

def kBearsslStackThunkBytes : UInt32 := 6208

def kOtaClientsBytes : UInt32 := 512

structure TlsFloors where
  freeTotal : UInt32
  block : UInt32
  deriving DecidableEq, Repr

def tlsFloorsAtBegin (gateFreeTotal gateBlock : UInt32) (peerMightHonourMfln : Bool) : TlsFloors :=
  if peerMightHonourMfln then { freeTotal := gateFreeTotal, block := gateBlock }
  else
    let takenByTheClients := kBearsslStackThunkBytes + kOtaClientsBytes
    { freeTotal := if gateFreeTotal > takenByTheClients then gateFreeTotal - takenByTheClients else 0
      block := if gateBlock > takenByTheClients then gateBlock - takenByTheClients else 0 }

def HEAP_GATE_OTA : UInt32 := 20000
def HEAP_GATE_OTA_BLOCK : UInt32 := 36864
def HEAP_GATE_OTA_MANIFEST : UInt32 := 29976
def HEAP_GATE_OTA_MANIFEST_BLOCK : UInt32 := 29808
def HEAP_GATE_OTA_DOWNLOAD : UInt32 := 42280
def HEAP_GATE_OTA_DOWNLOAD_BLOCK : UInt32 := 36816

/-- The gate a session of this kind is judged by. -/
def sessionGate (mflnProbeWorthwhile smallReply : Bool) : TlsFloors :=
  if smallReply then { freeTotal := HEAP_GATE_OTA_MANIFEST, block := HEAP_GATE_OTA_MANIFEST_BLOCK }
  else if !mflnProbeWorthwhile then
    { freeTotal := HEAP_GATE_OTA_DOWNLOAD, block := HEAP_GATE_OTA_DOWNLOAD_BLOCK }
  else { freeTotal := HEAP_GATE_OTA, block := HEAP_GATE_OTA_BLOCK }

def sessionPlan (heap : HeapSample) (mflnProbeWorthwhile smallReply : Bool) : TlsPlan :=
  let gate := sessionGate mflnProbeWorthwhile smallReply
  let floors := tlsFloorsAtBegin gate.freeTotal gate.block mflnProbeWorthwhile
  planTls heap floors.freeTotal floors.block mflnProbeWorthwhile smallReply

/-! ## Hosts that honour MFLN -/

/-- The hashes of the hosts that did; `0` is an empty slot. -/
abbrev MflnCache := Ring 4 UInt64

def hostHash (host : Text) : UInt64 :=
  let h := host.foldl (fun h c => (h ^^^ (lower c).toUInt64) * 1099511628211) 1469598103934665603
  if h = 0 then 1 else h

/-- The cache, whether the host honours it, and whether the host was asked. -/
def mflnHonours (cache : MflnCache) (host : Option Text) (answer : Bool) : MflnCache × Bool × Bool :=
  match host with
  | none => (cache, answer, true)
  | some host =>
      if host = [] then (cache, answer, true)
      else if hostHash host ∈ cache.slots then (cache, true, false)
      else (if answer then cache.push (hostHash host) else cache, answer, true)

/-! ## The clock -/

def kMinSaneEpoch : Int := 1767225600

def tlsClockSane (now : Int) : Bool := now ≥ kMinSaneEpoch

def kNtpRestartIntervalMs : UInt32 := 600000

def ntpRestartDue (started : Bool) (nowMs startedMs intervalMs : UInt32) : Bool :=
  if !started then true else nowMs - startedMs ≥ intervalMs

/-! ## The state between calls -/

/-- `gTrust`, the statics of the clock, `s_lastRefusalHeap` and the cache. -/
structure TlsState where
  list : Option TrustSet := none
  set : TrustSet := .None
  ntpKicked : Bool := false
  ntpKickedMs : UInt32 := 0
  lastRefusalHeap : Bool := false
  mflnCache : MflnCache := Ring.blank 3 0
  deriving DecidableEq, Repr

inductive Refusal where
  | host
  | unknownHost
  | clock
  | anchors
  | heap
  | client
  deriving DecidableEq, Repr

/-- What the client carries when the call is over. -/
structure Session where
  url : Text
  anchors : Option TrustSet
  x509Time : Int
  rx : UInt16
  tx : UInt16
  deriving DecidableEq, Repr

/-- What an event did. -/
inductive Note where
  | sntpStarted (time : Nat)
  | probed (host : Text) (honours : Bool)
  | refused (why : Refusal)
  | opened (session : Session)
  deriving DecidableEq, Repr

/-- The clock as `kickSntpIfNeeded` reads it, and when it reads the counter, before and behind
the start. -/
structure Kick where
  now : Int
  time : Nat
  done : Nat
  deriving DecidableEq, Repr

def kickSntpIfNeeded (s : TlsState) (kick : Kick) : TlsState × List Note :=
  if tlsClockSane kick.now then (s, [])
  else if !ntpRestartDue s.ntpKicked (counter kick.time) s.ntpKickedMs kNtpRestartIntervalMs then (s, [])
  else ({ s with ntpKicked := true, ntpKickedMs := counter kick.done }, [.sntpStarted kick.done])

/-- The list of a set is named by the set. -/
def anchorListFor (set : TrustSet) : Option TrustSet := if set = .None then none else some set

/-- `layoutOk` is what the check of the list finds. -/
def ensureTrustAnchors (s : TlsState) (want : TrustSet) (layoutOk : Bool) : TlsState × Bool :=
  if s.list.isSome ∧ s.set = want then (s, true)
  else
    let s := { s with list := none, set := .None }
    match anchorListFor want with
    | none => (s, false)
    | some list => if !layoutOk then (s, false) else ({ s with list := some list, set := want }, true)

def releaseTrustAnchors (s : TlsState) : TlsState :=
  if s.list.isNone then s else { s with list := none, set := .None }

/-- One call of `beginHttpsUrl`, with what it finds. -/
structure Call where
  url : Option Text
  mflnProbeWorthwhile : Bool
  smallReply : Bool
  now : Int
  kick : Kick
  layoutOk : Bool
  heap : HeapSample
  honours : Bool
  begins : Bool
  deriving DecidableEq, Repr

/-- The end of `beginHttpsUrl`, with these buffers. -/
def begin (s : TlsState) (c : Call) (url : Text) (rx : UInt16) : Note :=
  if c.begins then .opened { url, anchors := s.list, x509Time := c.now, rx, tx := 512 }
  else .refused .client

/-- The part of `beginHttpsUrl` behind the anchors. -/
def openSession (s : TlsState) (c : Call) (url host : Text) : TlsState × List Note :=
  match (sessionPlan c.heap c.mflnProbeWorthwhile c.smallReply).sizing with
  | .Refuse => ({ s with lastRefusalHeap := true }, [.refused .heap])
  | .Small => (s, [begin s c url 512])
  | .Big => (s, [begin s c url 16384])
  | .Medium => (s, [begin s c url 8192])
  | .ProbeFirst =>
      let (mflnCache, honours, asked) := mflnHonours s.mflnCache (some host) c.honours
      ({ s with mflnCache },
        (if asked then [.probed host c.honours] else []) ++
          [begin s c url (if honours then 512 else 16384)])

def beginHttpsUrl (s : TlsState) (c : Call) : TlsState × List Note :=
  let s := { s with lastRefusalHeap := false }
  match c.url with
  | none => (s, [.refused .host])
  | some url =>
      match extractHost url 64 with
      | none => (s, [.refused .host])
      | some host =>
          let trust := trustSetForHost host
          if trust = .None then (s, [.refused .unknownHost])
          else if !tlsClockSane c.now then
            let (s, notes) := kickSntpIfNeeded s c.kick
            (s, notes ++ [.refused .clock])
          else
            let (s, loaded) := ensureTrustAnchors s trust c.layoutOk
            if !loaded then (s, [.refused .anchors]) else openSession s c url host

/-- What the firmware does with it: a call, a release, and `tlsStartDelayMs`. -/
inductive Event where
  | call (c : Call)
  | release
  | startDelay (kick : Kick)
  deriving DecidableEq, Repr

def step (s : TlsState) : Event → TlsState × List Note
  | .call c => beginHttpsUrl s c
  | .release => (releaseTrustAnchors s, [])
  | .startDelay kick => kickSntpIfNeeded s kick

/-- The state, and what was done, after these events of a boot. -/
def after (events : List Event) : TlsState × List Note := OrderedTrace.run step {} events

end FryFirmware.Ota.Tls
