import FryFirmware.Wireguard.Cidr
import FryFirmware.Wireguard.KeyText
import Mathlib.Data.List.Basic
import Mathlib.Tactic.Common

/-!
# Response validation and route planning

`validateWgProvision` and `planWgRoutes` of `lib/fry_core/wg_provision.cpp`. An array
of strings and its count are one list; a null array is a list of nulls.
-/

set_option autoImplicit false

namespace FryFirmware.Wireguard

open Lib Config
open Relay (prefixToMask)

/-- `strncpy` into a cleared buffer of this size, which leaves its last byte alone. -/
def strncpy (size : Nat) (s : Text) : Text := s.take (size - 1)

/-! ## Validation -/

def kWgMaxAllowedIps : Nat := 8

structure WgProvisionConfig where
  ok : Bool := false
  rejectReason : Text := []
  serverPub : Text := []
  hasPsk : Bool := false
  psk : Text := []
  endpointHost : Text := []
  endpointPort : UInt16 := 0
  addressCidr : Text := []
  allowedIps : List Text := []
  keepaliveS : UInt32 := 25
  deriving DecidableEq, Repr

structure WgProvisionRaw where
  serverPub : CString := none
  endpointHost : CString := none
  endpointPort : Int32 := -1
  tunnelAddress : CString := none
  allowedIps : List CString := []
  psk : CString := none
  keepaliveProvided : Bool := false
  keepaliveValue : Int32 := 0
  deriving DecidableEq, Repr

def setReject (reason : String) : WgProvisionConfig :=
  { ok := false, rejectReason := strncpy 32 (text reason) }

/-- A non-null string with fewer bytes than the buffer has. -/
def fitsBuffer (s : CString) (size : Nat) : Bool :=
  match s with
  | none => false
  | some s => s.length < size

def isEmpty (s : CString) : Bool := s = some []

/-- A well-formed network that fits a buffer of 20 bytes. -/
def isCidrField (s : CString) : Bool := (parseIpv4Cidr s (0, 0)).1 && fitsBuffer s 20

def validateWgProvision (raw : WgProvisionRaw) : WgProvisionConfig :=
  if !isWgKeyB64 raw.serverPub then setReject "bad_server_pubkey"
  else if isEmpty raw.endpointHost || !fitsBuffer raw.endpointHost 64 then
    setReject "bad_endpoint_host"
  else if raw.endpointPort ≤ 0 || raw.endpointPort > 65535 then setReject "bad_port"
  else if !isCidrField raw.tunnelAddress then setReject "bad_tunnel_address"
  else if raw.allowedIps.length = 0 then setReject "allowed_ips_empty"
  else if raw.allowedIps.length > kWgMaxAllowedIps then setReject "allowed_ips_too_many"
  else if !raw.allowedIps.all isCidrField then setReject "bad_allowed_ip"
  else if raw.psk ≠ none && (isEmpty raw.psk || !isWgKeyB64 raw.psk) then setReject "bad_psk"
  else if raw.keepaliveProvided && raw.keepaliveValue ≤ 0 then setReject "zero_keepalive"
  else
    { ok := true
      serverPub := strncpy 45 (raw.serverPub.getD [])
      hasPsk := raw.psk ≠ none
      psk := if raw.psk ≠ none then strncpy 45 (raw.psk.getD []) else []
      endpointHost := strncpy 64 (raw.endpointHost.getD [])
      endpointPort := raw.endpointPort.toUInt32.toUInt16
      addressCidr := strncpy 20 (raw.tunnelAddress.getD [])
      allowedIps := raw.allowedIps.map fun entry => strncpy 20 (entry.getD [])
      keepaliveS := if raw.keepaliveProvided then raw.keepaliveValue.toUInt32 else 25 }

/-! ## Planning -/

def kWgMaxPlannedRoutes : Nat := 3

structure Kept where
  net : UInt32
  bits : Nat
  deriving DecidableEq, Repr

def addrInBlock (addr net : UInt32) (bits : Nat) : Bool := addr &&& prefixToMask bits = net

/-- The board's address on its Wi-Fi network, the prefix length of that network, and
its gateway. -/
structure Station where
  ip : UInt32
  bits : Int
  gateway : UInt32
  deriving DecidableEq, Repr

def Station.staActive (sta : Station) : Bool := sta.bits > 0 && sta.ip ≠ 0

def Station.gwActive (sta : Station) : Bool := sta.bits > 0 && sta.gateway ≠ 0

/-- One turn of the loop of `narrowAwayFromSta`: it returns, or goes on with a half. -/
def narrowTurn (sta : Station) (cur : Kept) : Option Kept ⊕ Kept :=
  let staIn := sta.staActive && addrInBlock sta.ip cur.net cur.bits
  let gwIn := sta.gwActive && addrInBlock sta.gateway cur.net cur.bits
  if !staIn && !gwIn then .inl (some cur)
  else if cur.bits = 32 then .inl none
  else
    let mask := prefixToMask cur.bits
    let childMask := prefixToMask (cur.bits + 1)
    let bit := childMask &&& ~~~mask
    let lower := cur.net
    let upper := cur.net ||| bit
    if staIn then
      let staInLower := addrInBlock sta.ip lower (cur.bits + 1)
      .inr ⟨if staInLower then upper else lower, cur.bits + 1⟩
    else
      let gwInLower := addrInBlock sta.gateway lower (cur.bits + 1)
      .inr ⟨if gwInLower then upper else lower, cur.bits + 1⟩

/-- The loop over so many turns; `none` where it still runs after them. -/
def narrowLoop (sta : Station) : (turns : Nat) → Kept → Option (Option Kept)
  | 0, _ => none
  | turns + 1, cur =>
      match narrowTurn sta cur with
      | .inl result => some result
      | .inr next => narrowLoop sta turns next

/-- A prefix of `bits` bits grows for at most `32 - bits` turns. -/
def narrowAwayFromSta (sta : Station) (net : UInt32) (bits : Nat) : Option (Option Kept) :=
  narrowLoop sta (33 - bits) ⟨net, bits⟩

structure WgRoutePlan where
  ok : Bool := false
  rejectReason : Text := []
  allowedCidr : List Text := []
  deriving DecidableEq, Repr

/-- What a turn of the candidate loop does to the list of kept routes; `none` where
the narrowing does not end. -/
def keepCandidate (sta : Station) (kept : List Kept) (entry : CString) : Option (List Kept) :=
  if kept.length < kWgMaxPlannedRoutes then
    match parseIpv4Cidr entry (0, 0) with
    | (false, _) => some kept
    | (true, ip, bits) =>
        if bits < 8 then some kept
        else
          let net := ip &&& prefixToMask bits
          let dup := kept.any fun k => k.net = net && k.bits = bits
          if dup then some kept
          else
            match narrowAwayFromSta sta net bits with
            | none => none
            | some none => some kept
            | some (some narrowed) => some (kept ++ [narrowed])
  else some kept

def keepCandidates (sta : Station) (kept : List Kept) (allowedIps : List CString) :
    Option (List Kept) :=
  allowedIps.foldlM (keepCandidate sta) kept

/-- `none` where the narrowing of some candidate does not end. -/
def planWgRoutes (addressCidr : CString) (allowedIps : List CString) (sta : Station) :
    Option WgRoutePlan :=
  match parseIpv4Cidr addressCidr (0, 0) with
  | (false, _) => some { rejectReason := strncpy 40 (text "bad_address_cidr") }
  | (true, addrIp, addrBits) =>
      (keepCandidates sta [] allowedIps).map fun kept =>
        let kept :=
          if kept.length = 0 then [⟨addrIp &&& prefixToMask addrBits, addrBits⟩] else kept
        { ok := true, allowedCidr := kept.map fun k => (formatIpv4Cidr k.net k.bits [] 20).1 }

end FryFirmware.Wireguard
