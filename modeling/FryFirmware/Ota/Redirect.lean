import FryFirmware.Config.Store
import FryFirmware.Lib.Url
import FryFirmware.Ota.Semver
import Mathlib.Data.List.Basic
import Mathlib.Tactic.Common

/-!
# Redirects of a download

`lib/fry_core/ota_redirect.cpp` and `tls_trust.cpp`, `extractHost` of
`src/esp8266/http_tls.cpp`, and the loop of `getFollowingHops` in
`src/core/ota_client.cpp`.
-/

set_option autoImplicit false

namespace FryFirmware.Ota

open Config (Text text)
open Lib.Url (notColon)

def kMaxRedirectHops : UInt8 := 5
def kHopLocationMax : Nat := 1280

def lower (c : UInt8) : UInt8 := if 65 ≤ c ∧ c ≤ 90 then c + 32 else c

/-! ## Hosts with trust anchors -/

def equalsLower (host lit : Text) : Bool := host.map lower = lit

def endsWithLower (host suffix : Text) : Bool :=
  if host.length ≤ suffix.length then false
  else equalsLower (host.drop (host.length - suffix.length)) suffix

def dnsChar (c : UInt8) : Bool :=
  (97 ≤ lower c && lower c ≤ 122) || (48 ≤ lower c && lower c ≤ 57) || lower c = 45 || lower c = dot

/-- The loop of `plainDnsName`, with the character before. -/
def plainFrom (before : Option UInt8) : Text → Bool
  | [] => true
  | c :: rest => dnsChar c && !(lower c = dot && before = some dot) && plainFrom (some c) rest

def plainDnsName (host : Text) : Bool :=
  if host = [] ∨ host.head? = some dot ∨ host.getLast? = some dot then false else plainFrom none host

inductive TrustSet where
  | None
  | Hwapi
  | GithubCom
  | GithubAssets
  deriving DecidableEq, Repr

def trustSetForName (host : Text) : TrustSet :=
  if !plainDnsName host then .None
  else if equalsLower host (text "hardwareapi.frynetworks.com") || equalsLower host (text "fry.farm") then .Hwapi
  else if equalsLower host (text "github.com") then .GithubCom
  else if endsWithLower host (text ".githubusercontent.com") then .GithubAssets
  else .None

/-- `trustSetForHost`; the colon is the first one. -/
def trustSetForHost (host : Text) : TrustSet :=
  if host = [] then .None
  else
    match host.dropWhile notColon with
    | [] => trustSetForName host
    | _ :: port =>
        if port = [] then .None
        else if !port.all isDigit then .None
        else trustSetForName (host.takeWhile notColon)

/-! ## The decision -/

inductive RedirectDecision where
  | NotRedirect
  | Follow
  | TooMany
  | NoLocation
  | NotHttps
  | UnknownHost
  deriving DecidableEq, Repr

def isRedirectStatus (code : Int) : Bool :=
  code = 301 || code = 302 || code = 303 || code = 307 || code = 308

def startsWithLower : (s lit : Text) → Bool
  | _, [] => true
  | [], _ :: _ => false
  | c :: s, d :: lit => lower c = d && startsWithLower s lit

def notSlash (c : UInt8) : Bool := c ≠ 47

/-- `decideRedirect`; `none` is a null `location`. -/
def decideRedirect (code : Int) (hopsTaken : UInt8) (location : Option Text) : RedirectDecision :=
  if !isRedirectStatus code then .NotRedirect
  else if hopsTaken ≥ kMaxRedirectHops then .TooMany
  else
    match location with
    | none => .NoLocation
    | some location =>
        if location = [] then .NoLocation
        else if !startsWithLower location (text "https://") then .NotHttps
        else
          let name := (location.drop 8).takeWhile notSlash
          if name.length = 0 ∨ name.length ≥ 80 then .UnknownHost
          else if trustSetForHost name = .None then .UnknownHost else .Follow

/-! ## The next hop -/

/-- What is left of `s` at the first `needle` in it. -/
def strstr (needle : Text) : Text → Option Text
  | [] => if needle = [] then some [] else none
  | c :: s => if needle.isPrefixOf (c :: s) then some (c :: s) else strstr needle s

/-- `extractHost` into a buffer of `cap` bytes. -/
def extractHost (url : Text) (cap : Nat) : Option Text :=
  let start :=
    match strstr (text "://") url with
    | some found => found.drop 3
    | none => url
  let host := start.takeWhile notSlash
  if host.length + 1 > cap then none else some host

/-- The checks of `beginHttpsUrl` on the host; `ready` stands for the clock, the anchors,
the heap and the client. -/
def beginHttpsUrl (url : Text) (ready : Bool) : Bool :=
  match extractHost url 64 with
  | none => false
  | some host => if trustSetForHost host = .None then false else ready

def beginNextHop (location : Text) (ready : Bool) : Bool :=
  if location.length > kHopLocationMax then false else beginHttpsUrl location ready

/-- What a GET answers, and whether everything but the host lets the next hop begin. -/
structure Answer where
  code : Int
  location : Text
  ready : Bool

/-- The loop of `getFollowingHops` after `n` requests: the result and how many requests
there were. -/
def followHops (answers : Nat → Answer) : (fuel n : Nat) → (hops : UInt8) → Option (Int × Nat)
  | 0, _, _ => none
  | fuel + 1, n, hops =>
      let answer := answers n
      match decideRedirect answer.code hops (some answer.location) with
      | .NotRedirect => some (answer.code, n + 1)
      | .Follow =>
          if beginNextHop answer.location answer.ready then followHops answers fuel (n + 1) (hops + 1)
          else some (-1, n + 1)
      | _ => some (-1, n + 1)

def getFollowingHops (isHttps : Bool) (answers : Nat → Answer) (fuel : Nat) : Option (Int × Nat) :=
  if !isHttps then some ((answers 0).code, 1) else followHops answers fuel 0 0

end FryFirmware.Ota
