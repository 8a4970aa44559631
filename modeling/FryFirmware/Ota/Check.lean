import FryFirmware.Ota.ManifestRead
import FryFirmware.Ota.Settle
import FryFirmware.Ota.TlsSession

/-!
# One manifest check, session by session

`checkNow` of `src/core/ota_client.cpp` on the ESP8266, with `otaBeginUrl`, the loop of
`getFollowingHops` and the head of `downloadAndApply`: the TLS sessions of a check, what
they leave in the TLS helper, and the two flags that decide when the next check is due.
What the manifest says and what comes of the image are parameters.
-/

set_option autoImplicit false

namespace FryFirmware.Ota.Tls

open Lib
open Config (Text text)
open Manifest (ManifestRead)

def manifestReadRetrySoon (r : ManifestRead) : Bool := r = .Closed || r = .TimedOut || r = .NoRoom

def isHttpsUrl (url : Text) : Bool := (text "https://").isPrefixOf url

/-- `githubHost` of `otaBeginUrl`. -/
def githubHost (url : Text) : Bool :=
  (strstr (text "github.com") url).isSome || (strstr (text "githubusercontent.com") url).isSome

/-- What one begin of a session finds. -/
structure Moment where
  now : Int
  kick : Kick
  layoutOk : Bool
  heap : HeapSample
  honours : Bool
  begins : Bool
  deriving DecidableEq, Repr

def Moment.call (m : Moment) (url : Text) (mflnProbeWorthwhile smallReply : Bool) : Call :=
  { url := some url, mflnProbeWorthwhile, smallReply, now := m.now, kick := m.kick,
    layoutOk := m.layoutOk, heap := m.heap, honours := m.honours, begins := m.begins }

def Note.isOpened : Note → Bool
  | .opened _ => true
  | _ => false

/-- The TLS helper, what was done, and `s_heapRefused`. -/
structure CheckState where
  tls : TlsState
  done : List Note := []
  heapRefused : Bool := false
  deriving DecidableEq, Repr

namespace CheckState

/-- A call of `beginHttpsUrl`, and what it returns. -/
def beginHttps (s : CheckState) (c : Call) : CheckState × Bool :=
  let (tls, notes) := beginHttpsUrl s.tls c
  ({ s with tls, done := s.done ++ notes }, notes.any Note.isOpened)

/-- The flag behind a call that failed. -/
def noteRefusal (s : CheckState) : CheckState :=
  { s with heapRefused := s.heapRefused || s.tls.lastRefusalHeap }

end CheckState

def otaBeginUrl (s : CheckState) (url : Text) (smallReply : Bool) (m : Moment) (plainBegins : Bool) :
    CheckState × Bool :=
  if isHttpsUrl url then s.beginHttps (m.call url (!githubHost url) smallReply)
  else (s, plainBegins)

/-- What a GET answers, and what the next session would find. -/
structure Hop where
  code : Int
  location : Text
  moment : Moment
  deriving DecidableEq, Repr

def beginNextHop (s : CheckState) (hop : Hop) (manifest : Bool) : CheckState × Bool :=
  if hop.location.length > kHopLocationMax then (s, false)
  else
    let (s, ok) := s.beginHttps (hop.moment.call hop.location false manifest)
    if ok then (s, true) else (s.noteRefusal, false)

/-- The loop of `getFollowingHops` after `n` requests. -/
def followHops (manifest : Bool) (answers : Nat → Hop) :
    (fuel n : Nat) → (hops : UInt8) → CheckState → Option (CheckState × Int × Nat)
  | 0, _, _, _ => none
  | fuel + 1, n, hops, s =>
      let hop := answers n
      match decideRedirect hop.code hops (some hop.location) with
      | .NotRedirect => some (s, hop.code, n + 1)
      | .Follow =>
          let (s, ok) := beginNextHop s hop manifest
          if ok then followHops manifest answers fuel (n + 1) (hops + 1) s else some (s, -1, n + 1)
      | _ => some (s, -1, n + 1)

/-- As many requests as there can be. -/
def hopRequests : Nat := kMaxRedirectHops.toNat + 1

def getFollowingHops (isHttps manifest : Bool) (answers : Nat → Hop) (s : CheckState) :
    Option (CheckState × Int × Nat) :=
  if !isHttps then some (s, (answers 0).code, 1) else followHops manifest answers hopRequests 0 0 s

/-- What a download finds, and what comes of it behind its last answer. -/
structure Download where
  url : Text
  allocated : Bool
  moment : Moment
  plainBegins : Bool
  answers : Nat → Hop
  applied : Bool

/-- `downloadAndApply` behind its settle wait. -/
def downloadAndApply (s : CheckState) (d : Download) : Option (CheckState × Bool) :=
  let s := { s with tls := releaseTrustAnchors s.tls }
  if !d.allocated then some (s, false)
  else
    let (s, ok) := otaBeginUrl s d.url false d.moment d.plainBegins
    if !ok then some (if isHttpsUrl d.url then s.noteRefusal else s, false)
    else do
      let (s, code, _) ← getFollowingHops (isHttpsUrl d.url) false d.answers s
      return (s, if code ≠ 200 then false else d.applied)

/-- What a check finds. -/
structure Check where
  keyed : Bool
  manifestUrl : Text
  start : CheckStart
  gate : HeapSample
  allocated : Bool
  moment : Moment
  plainBegins : Bool
  answers : Nat → Hop
  read : ManifestRead
  plan : Option Download

/-- What a check leaves: `s_blkSettledBase` and `s_readFailed` beside the rest, and what it
returns. -/
structure CheckEnd where
  state : CheckState
  base : UInt32
  readFailed : Bool := false
  updated : Bool := false

/-- `checkNow` behind the wait for the heap. -/
def checkSessions (tls : TlsState) (base : UInt32) (c : Check) : Option CheckEnd := do
  let s : CheckState := { tls }
  if isHttpsUrl c.manifestUrl && !heapGatePass c.gate.freeTotal c.gate.maxBlock
      HEAP_GATE_OTA_MANIFEST HEAP_GATE_OTA_MANIFEST_BLOCK then
    return { state := { s with heapRefused := true }, base }
  if !c.allocated then return { state := s, base }
  let (s, ok) := otaBeginUrl s c.manifestUrl true c.moment c.plainBegins
  if !ok then return { state := if isHttpsUrl c.manifestUrl then s.noteRefusal else s, base }
  let (s, code, _) ← getFollowingHops (isHttpsUrl c.manifestUrl) true c.answers s
  if code ≠ 200 then return { state := s, base }
  if c.read ≠ .Ok then return { state := s, base, readFailed := manifestReadRetrySoon c.read }
  match c.plan with
  | none => return { state := s, base }
  | some d =>
      let (s, updated) ← downloadAndApply s d
      return { state := s, base, updated }

def checkNow (tls : TlsState) (base : UInt32) (c : Check) : Option CheckEnd :=
  if !c.keyed then some { state := { tls }, base }
  else if c.manifestUrl = [] then some { state := { tls }, base }
  else do
    let tls := releaseTrustAnchors tls
    let (base, _, _) ← settleBeforeCheck base c.start settleLooks
    checkSessions tls base c

end FryFirmware.Ota.Tls
