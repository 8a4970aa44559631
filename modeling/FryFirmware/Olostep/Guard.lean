import FryFirmware.Config.Store
import FryFirmware.Lib.Json
import FryFirmware.Lib.SortedMap
import FryFirmware.Lib.Url
import Mathlib.Data.List.Basic
import Mathlib.Tactic.Common

/-!
# The guard of the web relay

`lib/fry_core/olostep_guard.cpp`: which URLs a job may name, which jobs are taken, and
which headers go out. A `std::string` is its bytes, a `HeaderMap` its entries in key
order.
-/

set_option autoImplicit false

namespace FryFirmware.Olostep

open Lib
open Config (Text text)
open Lib.Json (isDigit digitsValue)
open Lib.Url (notColon inAuthority)

def lowerChar (c : UInt8) : UInt8 := if 65 ≤ c ∧ c ≤ 90 then c + 32 else c

def lower (s : Text) : Text := s.map lowerChar

def isBlank (c : UInt8) : Bool := c = 32 || c = 9

/-- Without the blanks at both ends. -/
def trim (s : Text) : Text := ((s.dropWhile isBlank).reverse.dropWhile isBlank).reverse

def trimLower (s : Text) : Text := lower (trim s)

def controlChar (c : UInt8) : Bool := c < 0x20 || c = 0x7F

def hasControlChar (s : Text) : Bool := s.any controlChar

def tokenChar (c : UInt8) : Bool :=
  (48 ≤ c && c ≤ 57) || (65 ≤ c && c ≤ 90) || (97 ≤ c && c ≤ 122) || (text "!#$%&'*+-.^_`|~").contains c

def isTokenName (s : Text) : Bool := s ≠ [] && s.all tokenChar

def endsWith (s suffix : Text) : Bool :=
  s.length ≥ suffix.length && s.drop (s.length - suffix.length) = suffix

/-- `std::string::find`: where the needle is first. -/
def find (needle : Text) : Text → Option Nat
  | [] => if needle = [] then some 0 else none
  | c :: s => if needle.isPrefixOf (c :: s) then some 0 else (find needle s).map (· + 1)

def contains (s needle : Text) : Bool := (find needle s).isSome

def authWords : List Text :=
  [text "cookie", text "auth", text "token", text "session", text "credential", text "secret",
    text "api-key", text "apikey", text "bearer"]

def isAuthHeader (rawName : Text) : Bool :=
  let n := trimLower rawName
  n = [] || authWords.any (contains n) || endsWith n (text "-key")

/-! ## Addresses -/

def isHex (c : UInt8) : Bool := isDigit c || (97 ≤ c && c ≤ 102) || (65 ≤ c && c ≤ 70)

def hexVal (c : UInt8) : UInt8 :=
  if isDigit c then c - 48
  else if 97 ≤ c ∧ c ≤ 102 then c - 97 + 10
  else c - 65 + 10

structure Ip4 where
  a : UInt8
  b : UInt8
  c : UInt8
  d : UInt8
  deriving DecidableEq, Repr

/-- One turn of `parseStrictV4`: a label, and what follows it. -/
def strictLabel (s : Text) : Option (UInt8 × Text) :=
  let digits := s.takeWhile isDigit
  if digits.length > 3 then none
  else if digits.length = 0 then none
  else if digits.length > 1 ∧ digits.head? = some 48 then none
  else if digitsValue digits > 255 then none
  else some (UInt8.ofNat (digitsValue digits), s.drop digits.length)

def strictLabelDot (s : Text) : Option (UInt8 × Text) :=
  match strictLabel s with
  | some (v, 46 :: rest) => some (v, rest)
  | _ => none

def parseStrictV4 (s : Text) : Option Ip4 := do
  let (a, s) ← strictLabelDot s
  let (b, s) ← strictLabelDot s
  let (c, s) ← strictLabelDot s
  let (d, s) ← strictLabel s
  if s = [] then some ⟨a, b, c, d⟩ else none

/-- The pieces between the colons. -/
def splitColon (s : Text) : List Text := s.splitOn 58

def pairOf (high low : UInt8) : UInt16 := (high.toUInt16 <<< 8) ||| low.toUInt16

def groupValue (t : Text) : UInt16 := t.foldl (fun v c => (v <<< 4) ||| (hexVal c).toUInt16) 0

/-- The loop of `parseGroups`. -/
def groupsOf (allowV4Tail : Bool) : List Text → Option (List UInt16)
  | [] => some []
  | t :: rest =>
      if t = [] then none
      else if t.contains 46 then
        if !allowV4Tail || rest ≠ [] then none
        else (parseStrictV4 t).map fun q => [pairOf q.a q.b, pairOf q.c q.d]
      else if t.length > 4 then none
      else if !t.all isHex then none
      else (groupsOf allowV4Tail rest).map (groupValue t :: ·)

def parseGroups (s : Text) (allowV4Tail : Bool) : Option (List UInt16) :=
  if s = [] then some [] else groupsOf allowV4Tail (splitColon s)

/-- The eight groups `parseV6` reads. -/
def readV6 (s : Text) : Option (List UInt16) :=
  match find (text "::") s with
  | none =>
      match parseGroups s true with
      | some g => if g.length ≠ 8 then none else some g
      | none => none
  | some dc =>
      if (find (text "::") (s.drop (dc + 1))).isSome then none
      else
        match parseGroups (s.take dc) false, parseGroups (s.drop (dc + 2)) true with
        | some left, some right =>
            if left.length + right.length > 7 then none
            else some (left ++ List.replicate (8 - left.length - right.length) 0 ++ right)
        | _, _ => none

/-- The sixteen bytes of an IPv6 address. -/
abbrev Ip6 := List UInt8

def bytesOf (g : List UInt16) : Ip6 := g.flatMap fun v : UInt16 => [(v >>> 8).toUInt8, (v &&& 0xFF).toUInt8]

def parseV6 (s : Text) : Option Ip6 := (readV6 s).map bytesOf

def olostep_ip_is_blocked_v4 (ip : Ip4) : Bool :=
  let a := ip.a
  let b := ip.b
  let c := ip.c
  if a = 0 || a = 10 || a = 127 then true
  else if a = 100 && b &&& 0xC0 = 64 then true
  else if a = 169 && b = 254 then true
  else if a = 172 && b &&& 0xF0 = 16 then true
  else if a = 192 && b = 168 then true
  else if a = 192 && b = 0 && c = 0 then true
  else if a = 192 && b = 0 && c = 2 then true
  else if a = 192 && b = 88 && c = 99 then true
  else if a = 198 && b &&& 0xFE = 18 then true
  else if a = 198 && b = 51 && c = 100 then true
  else if a = 203 && b = 0 && c = 113 then true
  else if a ≥ 224 then true
  else false

/-- The bytes from `i` up to `j` are zero. -/
def zeroBytes (ip : Ip6) (i j : Nat) : Bool := (List.range' i (j - i)).all fun k => ip.getD k 0 = 0

def lastFour (ip : Ip6) : Ip4 := ⟨ip.getD 12 0, ip.getD 13 0, ip.getD 14 0, ip.getD 15 0⟩

def olostep_ip_is_blocked_v6 (ip : Ip6) : Bool :=
  let byte (i : Nat) : UInt8 := ip.getD i 0
  if zeroBytes ip 0 12 then true
  else if zeroBytes ip 0 10 && byte 10 = 0xFF && byte 11 = 0xFF then olostep_ip_is_blocked_v4 (lastFour ip)
  else if zeroBytes ip 0 8 && byte 8 = 0xFF && byte 9 = 0xFF && byte 10 = 0 && byte 11 = 0 then
    olostep_ip_is_blocked_v4 (lastFour ip)
  else if byte 0 = 0x00 && byte 1 = 0x64 && byte 2 = 0xFF && byte 3 = 0x9B && zeroBytes ip 4 12 then
    olostep_ip_is_blocked_v4 (lastFour ip)
  else if byte 0 = 0x00 then true
  else if byte 0 = 0x3F && byte 1 = 0xFF && byte 2 &&& 0xF0 = 0 then true
  else if byte 0 = 0x20 && byte 1 = 0x01 && byte 2 = 0 && byte 3 = 0 then true
  else if byte 0 = 0x00 && byte 1 = 0x64 && byte 2 = 0xFF && byte 3 = 0x9B && byte 4 = 0x00 && byte 5 = 0x01 then
    true
  else if byte 0 = 0x01 && byte 1 = 0x00 && zeroBytes ip 2 8 then true
  else if byte 0 = 0x20 && byte 1 = 0x02 then true
  else if byte 0 &&& 0xFE = 0xFC then true
  else if byte 0 = 0xFE && byte 1 &&& 0xC0 = 0x80 then true
  else if byte 0 = 0xFE && byte 1 &&& 0xC0 = 0xC0 then true
  else if byte 0 = 0xFF then true
  else if byte 0 = 0x20 && byte 1 = 0x01 && byte 2 = 0x0D && byte 3 = 0xB8 then true
  else false

/-! ## Hosts and URLs -/

def kSuffix : List Text :=
  [text ".localhost", text ".local", text ".internal", text ".localdomain", text ".lan", text ".corp",
    text ".intranet", text ".home.arpa"]

def hostnameBlocked (h : Text) : Bool :=
  h = text "localhost" || h = text "home.arpa" || kSuffix.any (endsWith h)

/-- Without the dot at the end, if there is one. -/
def popDot (h : Text) : Text := if h.getLast? = some 46 then h.dropLast else h

def labelChar (c : UInt8) : Bool := (97 ≤ c && c ≤ 122) || isDigit c || c = 45

def labelOk (label : Text) : Bool := label ≠ [] && label.length ≤ 63 && label.all labelChar

/-- The last label looks like a number: all digits, or `0x` and some hexadecimal digits. -/
def numericLabel (last : Text) : Bool :=
  last.all isDigit ||
    (last.length > 2 && last.head? = some 48 && last[1]? = some 120 && (last.drop 2).all isHex)

def publicHostnameOk (h : Text) : Bool :=
  let h := popDot h
  if h = [] || h.length > 253 then false
  else if !h.contains 46 then false
  else if hostnameBlocked h then false
  else
    let labels := h.splitOn 46
    labels.all labelOk && !numericLabel (labels.getLastD [])

def notClose (c : UInt8) : Bool := c ≠ 93

/-- The host of an authority, whether it stood in brackets, and the port; the port is
empty where none was written. -/
def splitAuthority (auth : Text) : Option (Text × Bool × Text) :=
  match auth with
  | 91 :: inner =>
      match inner.dropWhile notClose with
      | [] => none
      | _ :: rest =>
          match rest with
          | [] => some (inner.takeWhile notClose, true, [])
          | c :: port => if c ≠ 58 ∨ port = [] then none else some (inner.takeWhile notClose, true, port)
  | _ =>
      match auth.dropWhile notColon with
      | [] => some (auth, false, [])
      | _ :: port =>
          if port = [] ∨ port.contains 58 then none else some (auth.takeWhile notColon, false, port)

def portOk (port : Text) : Bool :=
  port = [] ||
    (port.length ≤ 5 && port.all isDigit && 1 ≤ digitsValue port && digitsValue port ≤ 65535)

def urlChar (c : UInt8) : Bool := !(c ≤ 0x20 || c ≥ 0x7F || c = 92)

/-- The decision on a host, in brackets or not. -/
def hostAllowed (host : Text) (bracket : Bool) : Bool :=
  if bracket then
    match parseV6 host with
    | none => false
    | some ip6 => !olostep_ip_is_blocked_v6 ip6
  else
    let host := lower host
    if host.all fun c => isDigit c || c = 46 then
      match parseStrictV4 host with
      | none => false
      | some ip4 => !olostep_ip_is_blocked_v4 ip4
    else publicHostnameOk host

def olostep_url_allowed (url : Text) : Bool :=
  if url.length ≤ 8 || lower (url.take 8) ≠ text "https://" then false
  else if !url.all urlChar then false
  else
    let auth := (url.drop 8).takeWhile inAuthority
    if auth = [] || auth.contains 64 then false
    else
      match splitAuthority auth with
      | none => false
      | some (host, bracket, port) =>
          if !portOk port then false
          else if host = [] || host.contains 37 then false
          else hostAllowed host bracket

/-! ## Jobs -/

inductive OlostepJobClass where
  | Unauthenticated
  | AuthenticatedPartner
  | Unknown
  deriving DecidableEq, Repr

def kPartner : List Text :=
  [text "rufus_batch", text "amazon_reviews", text "meta_batch", text "copilot_batch", text "chatgpt_batch",
    text "gemini_batch", text "perplexity_batch", text "meta_login", text "create_cplt_session",
    text "reset_meta"]

def olostep_classify_job (type_event : Text) : OlostepJobClass :=
  if type_event = [] || type_event = text "batch" then .Unauthenticated
  else if kPartner.contains type_event then .AuthenticatedPartner
  else .Unknown

abbrev HeaderMap := SortedMap Text Text

structure Job where
  method_endpoint : Text
  url : Text
  userAgent : Text
  type_event : Text
  method_headers : HeaderMap
  session_id : Text
  lease_node : Text
  actions : Text
  runScript : Text
  burkeObject : Text
  cerealObject : Text
  saveFile : Text
  htmlVisualizer : Text
  save_html_endpoint : Text
  error_callback_endpoint : Text

def Job.urls (job : Job) : List Text :=
  [job.method_endpoint, job.url, job.save_html_endpoint, job.error_callback_endpoint]

def olostep_job_classify_and_permit (job : Job) : OlostepJobClass :=
  let cls := olostep_classify_job job.type_event
  if cls = .Unknown then .Unknown
  else
    let partner : Bool := cls = .AuthenticatedPartner
    if !partner && (job.session_id ≠ [] || job.lease_node ≠ []) then .Unknown
    else if job.method_headers.entries.any fun kv =>
        (!partner && isAuthHeader kv.1) || hasControlChar kv.1 || hasControlChar kv.2 then .Unknown
    else if hasControlChar job.userAgent then .Unknown
    else if job.actions ≠ [] || job.runScript ≠ [] || job.burkeObject ≠ [] || job.cerealObject ≠ [] ||
        job.saveFile ≠ [] || job.htmlVisualizer ≠ [] then .Unknown
    else if job.method_endpoint = [] && job.url = [] then .Unknown
    else if job.urls.any fun u => u ≠ [] && !olostep_url_allowed u then .Unknown
    else cls

/-! ## Headers -/

def kAllow : List Text :=
  [text "accept", text "accept-language", text "accept-encoding", text "user-agent", text "referer"]

def kFraming : List Text :=
  [text "host", text "content-length", text "connection", text "transfer-encoding", text "keep-alive",
    text "proxy-connection", text "te", text "trailer", text "upgrade"]

/-- One turn of the loop of `olostep_sanitize_outbound_headers`. -/
def sanitizeEntry (cls : OlostepJobClass) (out : HeaderMap) (kv : Text × Text) : HeaderMap :=
  let n := trimLower kv.1
  if hasControlChar n || hasControlChar kv.2 then out
  else if !isTokenName n then out
  else if cls = .AuthenticatedPartner then
    if kFraming.contains n then out else out.set n kv.2
  else if kAllow.contains n then out.set n kv.2
  else out

def olostep_sanitize_outbound_headers (headers : HeaderMap) (cls : OlostepJobClass) : HeaderMap :=
  headers.entries.foldl (sanitizeEntry cls) SortedMap.empty

end FryFirmware.Olostep
